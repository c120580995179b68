import Vetting.Listing.Dotted
import Vetting.Proofs.Listing.Settings

/-!
# The functions of a sheet

A sheet is complete if every line has its cells, with a type beside each function, and clean if functions and
types can be written in settings.
-/

namespace Vetting.Listing

open List Text Form

variable {s : Sheet}

variable {f : Form} {r : Except Halt Listed}

theorem Form.column_of_group? {column : String} {g : Group} (h : f.group? column = some g) : g.column = column := by
  simpa using find?_some h

theorem Form.mem_functions {header : List String} (hs : s.header = some header) :
    r ∈ f.functions s ↔ ∃ column ∈ header, f.isListed column = true ∧
        ∃ row ∈ s.rows, f.cell? column row = some r := by
  simp only [functions, hs, mem_flatMap, mem_filter, mem_filterMap, and_assoc]

theorem Form.exists_functions (h : ∀ r ∈ f.functions s, ∃ l x, r = .ok l ∧ f.Matches l x ∧ x.Valid) :
    ∃ ps : List (Listed × Grouped), f.functions s = ps.map (fun p => .ok p.1) ∧
      ∀ p ∈ ps, f.Matches p.1 p.2 ∧ p.2.Valid := by
  let Fitting := { p : Listed × Grouped // f.Matches p.1 p.2 ∧ p.2.Valid }
  have hrange : f.functions s ∈ Set.range (List.map fun p : Fitting => .ok p.1.1) := by
    rw [Set.range_list_map]
    intro r hr
    obtain ⟨l, x, rfl, hfit⟩ := h r hr
    exact ⟨⟨(l, x), hfit⟩, rfl⟩
  obtain ⟨ps, hps⟩ := hrange
  refine ⟨ps.map Subtype.val, by rw [← hps, map_map]; rfl, ?_⟩
  rw [forall_mem_map]
  exact fun p _ => p.2

namespace Dotted

variable (cell column : String) (row : Sheet.Line)

def fullNameOf : String :=
  String.ofList ((strip cell).toList.takeWhile (· ≠ '('))

theorem infix_strip : (strip cell).toList <:+: cell.toList := by
  obtain ⟨as, bs, hcell, -⟩ := exists_stripChars isBlank cell.toList
  exact ⟨as, bs, by simpa [strip] using hcell.symm⟩

theorem splitOn_bracket {text : String} (h : text.toList.count '(' ≤ 1) : ∃ rest, rest.length ≤ 1 ∧
      splitOn text "(" = String.ofList (text.toList.takeWhile (· ≠ '(')) :: rest := by
  have hsplit : splitOn text "(" = (splitGo ['('] 0 [] text.toList).map String.ofList := rfl
  rw [hsplit]
  by_cases hmem : '(' ∈ text.toList
  · obtain ⟨as, bs, htext, has⟩ := eq_append_cons_of_mem hmem
    have hbs : '(' ∉ bs := by
      rw [htext, count_append, count_cons_self] at h
      exact count_eq_zero.1 (by omega)
    have htake : (as ++ '(' :: bs).takeWhile (· ≠ '(') = as := by
      rw [takeWhile_append_of_pos]
      · simp
      · exact fun c hc => by simpa using fun hce : c = '(' => has (hce ▸ hc)
    refine ⟨[String.ofList bs], by simp, ?_⟩
    rw [htext, splitGo_append hbs, splitGo_of_notMem has, htake]
    rfl
  · have htake : text.toList.takeWhile (· ≠ '(') = text.toList :=
      takeWhile_eq_self_iff.2 fun c hc => by simpa using fun hce : c = '(' => hmem (hce ▸ hc)
    refine ⟨[], by simp, ?_⟩
    rw [splitGo_of_notMem hmem, htake]
    rfl

theorem exists_read {text : String} (h : text.toList.count '(' ≤ 1) :
    ∃ named, read text = .ok named ∧ named.arguments = [] ∧
      named.fullName = String.ofList (text.toList.takeWhile (· ≠ '(')) ∧
      (named.base.getD "").toList ⊆ named.fullName.toList ∧
      named.name.toList ⊆ named.fullName.toList := by
  obtain ⟨rest, hrest, hsplit⟩ := splitOn_bracket h
  generalize hfull : String.ofList (text.toList.takeWhile (· ≠ '(')) = full at hsplit
  have hread : read text = (cutLast '.' full.toList).elim (.ok { name := full, fullName := full }) fun p =>
        .ok { base := some (String.ofList p.1), name := String.ofList p.2, fullName := full } := by
    rw [read, hsplit]
    rcases rest with _ | ⟨_, _ | ⟨_, _⟩⟩
    · simp only [headD_cons]
      cases cutLast '.' full.toList <;> rfl
    · simp only [headD_cons]
      cases cutLast '.' full.toList <;> rfl
    · simp at hrest
  rw [hread]
  cases hcut : cutLast '.' full.toList with
  | none => exact ⟨_, rfl, rfl, rfl, by simp, by simp⟩
  | some p =>
    have hparts := append_of_cutLast hcut
    refine ⟨_, rfl, rfl, rfl, ?_, ?_⟩ <;> simp only [Option.getD_some, String.toList_ofList, hparts]
    · exact subset_append_left _ _
    · exact List.Subset.trans (subset_cons_self _ _) (subset_append_right _ _)

/-- A cell that is not blank has at most one opening bracket and no quote, backslash or line break, and a type of
its group beside it. -/
def CleanCell : Prop :=
  ∀ cell ∈ (row.cells.get? column).join, strip cell ≠ "" →
    cell.toList.count '(' ≤ 1 ∧ cell.toList.all Message.isPlain = true ∧
      ∀ g ∈ form.groups, g.column = column → ∀ type ∈ (row.cells.get? g.typeColumn).join,
        (Message.numberOf? g.enumeration (strip type)).isSome = true

/-- A cell is there and, if it is not blank, of a group's column, with a type beside it. -/
def CompleteCell : Prop :=
  ∃ cell ∈ (row.cells.get? column).join, strip cell ≠ "" →
    ∃ g ∈ form.groups, g.column = column ∧ (row.cells.get? g.typeColumn).join.isSome = true

theorem read_form : form.read = read := rfl

/-- A cell holds a function unless it is blank. -/
theorem cell?_of_clean {column : String} {row : Sheet.Line} (hclean : CleanCell column row)
    (hcomplete : CompleteCell column row) :
    ∃ cell ∈ (row.cells.get? column).join, (strip cell = "" ∧ form.cell? column row = none) ∨
      (strip cell ≠ "" ∧ ∃ l x, form.cell? column row = some (.ok l) ∧ l.column = column ∧
        form.Matches l x ∧ x.Valid ∧ x.fullName = fullNameOf cell) := by
  obtain ⟨cell, hcell, hfull⟩ := hcomplete
  refine ⟨cell, hcell, ?_⟩
  by_cases hblank : strip cell = ""
  · exact .inl ⟨hblank, by simp [cell?, Option.mem_def.1 hcell, hblank]⟩
  obtain ⟨g, hg, hcolumn, htype⟩ := hfull hblank
  obtain ⟨type, htype⟩ := Option.isSome_iff_exists.1 htype
  obtain ⟨hcount, hplain, hvalid⟩ := hclean cell hcell hblank
  rw [all_eq_true] at hplain
  have hstrip := infix_strip cell
  obtain ⟨named, hread, harguments, hname, hbase, hlast⟩ :=
    exists_read ((hstrip.sublist.count_le '(').trans hcount)
  have hchars : named.fullName.toList ⊆ cell.toList := by
    rw [hname, String.toList_ofList]
    exact List.Subset.trans ( takeWhile_prefix _).subset hstrip.subset
  have hgroup : form.group? column = some g := by
    rw [← hcolumn]
    cases g <;> rfl
  let x : Grouped := ⟨g, named.base.getD "", named.name, named.fullName, strip type, []⟩
  refine .inr ⟨hblank, ⟨column, row.cells, named⟩, x, ?_, rfl, ?_, ?_, hname⟩
  · simp only [cell?, Option.mem_def.1 hcell, String.isEmpty_iff, if_neg hblank, read_form, hread, Except.map]
  · exact ⟨hgroup, rfl, rfl, rfl, by simp [harguments, x], type, Option.join_eq_some_iff.1 htype, rfl⟩
  · exact ⟨fun c hc => hplain c (hchars (hbase hc)), fun c hc => hplain c (hchars (hlast hc)),
      fun c hc => hplain c (hchars hc), hvalid g hg hcolumn type htype, by simp [x]⟩

/-! ## Sheets -/

/-- Functions and types in a sheet can be written in settings; other columns hold none. -/
def Clean (s : Sheet) : Prop :=
  ∀ header ∈ s.header, ∀ column ∈ header, form.isListed column = true → ∀ row ∈ s.rows, CleanCell column row

/-- A sheet has a header, and nothing is missing in it. -/
def Complete (s : Sheet) : Prop :=
  ∃ header ∈ s.header, ∀ column ∈ header, form.isListed column = true → ∀ row ∈ s.rows, CompleteCell column row

/-- A sheet lists a function of a full name in the column of a group. -/
def Lists (s : Sheet) (g : Group) (name : String) : Prop :=
  (∃ header ∈ s.header, g.column ∈ header) ∧ ∃ row ∈ s.rows, ∃ cell ∈ (row.cells.get? g.column).join,
      strip cell ≠ "" ∧ fullNameOf cell = name

instance (column : String) (row : Sheet.Line) : Decidable (CleanCell column row) :=
  inferInstanceAs (Decidable (∀ cell ∈ (row.cells.get? column).join, _ → _ ∧ _ ∧
    ∀ g ∈ form.groups, _ → ∀ type ∈ (row.cells.get? g.typeColumn).join, _))

instance (column : String) (row : Sheet.Line) : Decidable (CompleteCell column row) :=
  inferInstanceAs (Decidable (∃ cell ∈ (row.cells.get? column).join, _ → ∃ g ∈ form.groups, _))

instance (s : Sheet) : Decidable (Clean s) :=
  inferInstanceAs (Decidable (∀ header ∈ s.header, ∀ column ∈ header, _ → ∀ row ∈ s.rows, _))

instance (s : Sheet) : Decidable (Complete s) :=
  inferInstanceAs (Decidable (∃ header ∈ s.header, ∀ column ∈ header, _ → ∀ row ∈ s.rows, _))

instance (s : Sheet) (g : Group) (name : String) : Decidable (Lists s g name) :=
  inferInstanceAs (Decidable ((∃ header ∈ s.header, _) ∧ ∃ row ∈ s.rows, ∃ cell ∈ (row.cells.get? g.column).join, _))

section Functions

variable {s : Sheet} {header : List String} (hclean : Clean s) (hheader : s.header = some header)
  (hcells : ∀ column ∈ header, form.isListed column = true → ∀ row ∈ s.rows, CompleteCell column row)

include hclean hheader hcells

theorem forall_mem_functions (hr : r ∈ form.functions s) : ∃ l x, r = .ok l ∧ form.Matches l x ∧ x.Valid := by
  obtain ⟨column, hcolumn, hlisted, row, hrow, hr⟩ := (mem_functions hheader).1 hr
  obtain ⟨cell, -, ⟨-, hnone⟩ | ⟨-, l, x, hsome, -, hmatch, hvalid, -⟩⟩ :=
    cell?_of_clean (hclean header hheader column hcolumn hlisted row hrow) (hcells column hcolumn hlisted row hrow)
  · simp [hnone] at hr
  · exact ⟨l, x, Option.some.inj (hr.symm.trans hsome), hmatch, hvalid⟩

theorem lists_iff {g : Group} {name : String} : Lists s g name ↔
      ∃ l, .ok l ∈ form.functions s ∧ l.column = g.column ∧ l.named.fullName = name := by
  have hlisted : form.isListed g.column = true := by cases g <;> decide
  constructor
  · rintro ⟨⟨_, hmem, hcolumn⟩, row, hrow, cell, hcell, hfull, rfl⟩
    obtain rfl := Option.some.inj (hheader.symm.trans hmem)
    obtain ⟨cell', hcell', hcases⟩ :=
      cell?_of_clean (hclean _ hheader _ hcolumn hlisted row hrow) (hcells _ hcolumn hlisted row hrow)
    obtain rfl := Option.mem_unique hcell hcell'
    obtain ⟨hblank, -⟩ | ⟨-, l, x, hsome, hl, hmatch, -, hname⟩ := hcases
    · exact absurd hblank hfull
    · exact ⟨l, (mem_functions hheader).2 ⟨_, hcolumn, hlisted, row, hrow, hsome⟩, hl,
        hmatch.fullName.trans hname⟩
  · rintro ⟨l, hl, hcolumn, rfl⟩
    obtain ⟨column, hmem, hisListed, row, hrow, hl⟩ := (mem_functions hheader).1 hl
    obtain ⟨cell, hcell, ⟨-, hnone⟩ | ⟨hfull, l', x, hsome, hcolumn', hmatch, -, hname⟩⟩ :=
      cell?_of_clean (hclean header hheader column hmem hisListed row hrow) (hcells column hmem hisListed row hrow)
    · simp [hnone] at hl
    · obtain rfl : l = l' := Except.ok.inj (Option.some.inj (hl.symm.trans hsome))
      obtain rfl : column = g.column := hcolumn'.symm.trans hcolumn
      exact ⟨⟨header, hheader, hmem⟩, row, hrow, cell, hcell, hfull, (hmatch.fullName.trans hname).symm⟩

end Functions

theorem exists_functions (hclean : Clean s) (hcomplete : Complete s) :
    ∃ ps : List (Listed × Grouped), form.functions s = ps.map (fun p => .ok p.1) ∧
      (∀ p ∈ ps, form.Matches p.1 p.2 ∧ p.2.Valid) ∧
      ∀ g name, Lists s g name ↔ ∃ x ∈ ps.map Prod.snd, x.group = g ∧ x.fullName = name := by
  obtain ⟨header, hheader, hcells⟩ := hcomplete
  obtain ⟨ps, hfunctions, hfit⟩ :=
    Form.exists_functions fun r hr => forall_mem_functions hclean hheader hcells (r := r) hr
  refine ⟨ps, hfunctions, hfit, fun g name => ?_⟩
  rw [lists_iff hclean hheader hcells, hfunctions]
  constructor
  · rintro ⟨l, hl, hcolumn, hname⟩
    obtain ⟨p, hp, heq⟩ := mem_map.1 hl
    obtain rfl := Except.ok.inj heq
    have hmatch := (hfit p hp).1
    refine ⟨p.2, mem_map_of_mem hp, Group.column_injective ?_, hmatch.fullName.symm.trans hname⟩
    exact (column_of_group? hmatch.group).trans hcolumn
  · rintro ⟨_, hx, rfl, rfl⟩
    obtain ⟨p, hp, rfl⟩ := mem_map.1 hx
    have hmatch := (hfit p hp).1
    exact ⟨p.1, mem_map.2 ⟨p, hp, rfl⟩, (column_of_group? hmatch.group).symm, hmatch.fullName⟩

theorem exists_of_haltOf (h : haltOf (f.settings s) = none) (hr : r ∈ f.functions s) :
    ∃ l, r = .ok l ∧ ∀ e, .error e ∉ groupPieces f l := by
  rw [haltOf_eq_none_iff] at h
  rw [← zipIdx_map_fst 1 (f.functions s)] at hr
  obtain ⟨q, hq, rfl⟩ := mem_map.1 hr
  have hmem := fun e he => h e (mem_append_left _ (mem_flatMap.2 ⟨q, hq, he⟩))
  obtain ⟨e | l, id⟩ := q
  · exact absurd (mem_singleton.2 rfl) (hmem e)
  · refine ⟨l, rfl, fun e he => hmem e ?_⟩
    simp [functionPieces, he]

theorem complete_of_haltOf (h : haltOf (form.settings s) = none) : Complete s := by
  cases hheader : s.header with
  | none =>
    have hfunctions : form.functions s = [.error (.ofCause .wrongType)] := by
      rw [functions, hheader]
    obtain ⟨l, hl, -⟩ := exists_of_haltOf h (hfunctions ▸ mem_singleton.2 rfl)
    cases hl
  | some header =>
    refine ⟨header, hheader, fun column hcolumn hlisted row hrow => ?_⟩
    have hread {r : Except Halt Listed} (hr : form.cell? column row = some r) :=
      exists_of_haltOf h ((mem_functions hheader).2 ⟨column, hcolumn, hlisted, row, hrow, hr⟩)
    cases hcell : (row.cells.get? column).join with
    | none =>
      obtain ⟨l, hl, -⟩ := hread (r := .error (.ofCause .noMember)) (by rw [cell?, hcell])
      cases hl
    | some cell =>
      refine ⟨cell, hcell, fun hblank => ?_⟩
      have hsome : form.cell? column row = some ((read (strip cell)).map fun named =>
          { column, cells := row.cells, named }) := by
        simp only [cell?, hcell, String.isEmpty_iff, if_neg hblank, read_form]
      obtain ⟨l, hl, hpieces⟩ := hread hsome
      obtain ⟨hlcolumn, hlcells⟩ : l.column = column ∧ l.cells = row.cells := by
        cases hnamed : read (strip cell) with
        | error e => simp [hnamed, Except.map] at hl
        | ok named =>
          obtain rfl : _ = l := by simpa [hnamed, Except.map] using hl
          exact ⟨rfl, rfl⟩
      rw [groupPieces, hlcolumn, hlcells] at hpieces
      cases hgroup : form.group? column with
      | none => simp [hgroup] at hpieces
      | some g =>
        refine ⟨g, mem_of_find?_eq_some hgroup, column_of_group? hgroup, ?_⟩
        rcases htype : row.cells.get? g.typeColumn with - | - | type
        · simp [hgroup, typePiece, htype] at hpieces
        · simp [hgroup, typePiece, htype] at hpieces
        · rfl

end Dotted

end Vetting.Listing
