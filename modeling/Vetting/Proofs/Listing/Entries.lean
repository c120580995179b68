import Vetting.Proofs.Document
import Vetting.Proofs.Listing.Verdict

/-!
# Entries of a sheet and of its settings

A sheet and the settings that it gives come to the same lists of sources and sinks.
-/

namespace Vetting

open List Message Taint.Entries

/-! ## Cells -/

theorem Text.splitGo_of_absent {sep cs : List Char} (h : ¬ sep <:+: cs) (acc : List Char) :
    Text.splitGo sep 0 acc cs = [acc.reverse ++ cs] := by
  induction cs generalizing acc with
  | nil => simp [Text.splitGo]
  | cons c cs ih =>
    rw [infix_cons_iff, not_or] at h
    rw [Text.splitGo, if_neg (by simpa using h.1), ih h.2]
    simp

theorem Text.splitGo_double {c : Char} {as : List Char} (has : c ∉ as) (acc cs : List Char) :
    Text.splitGo [c, c] 0 acc (as ++ c :: c :: cs) = (acc.reverse ++ as) :: Text.splitGo [c, c] 0 [] cs := by
  induction as generalizing acc with
  | nil => simp [Text.splitGo]
  | cons a as ih =>
    rw [mem_cons, not_or] at has
    simp [Text.splitGo, has.1, ih has.2]

theorem no_double_append {c : Char} {as cs : List Char} (has : c ∉ as) (hcs : ¬ [c, c] <:+: cs)
    (hhead : cs.head? ≠ some c) : ¬ [c, c] <:+: as ++ c :: cs := by
  induction as with
  | nil =>
    rw [nil_append, infix_cons_iff, not_or]
    refine ⟨?_, hcs⟩
    rintro ⟨t, ht⟩
    exact hhead (by simp [← (cons.inj ht).2])
  | cons a as ih =>
    rw [mem_cons, not_or] at has
    rw [cons_append, infix_cons_iff, not_or]
    refine ⟨?_, ih has.2⟩
    rintro ⟨t, ht⟩
    exact has.1 (cons.inj ht).1

namespace Listing

/-- Whether a text consists of ASCII letters, digits and underscores. -/
def isIdentifier (s : String) : Bool := s.toList.all fun c => c.isAlphanum || c = '_'

theorem notMem_of_isIdentifier {s : String} (h : isIdentifier s = true) : ':' ∉ s.toList := by
  intro hmem
  exact absurd (all_eq_true.1 h _ hmem) (by decide)

namespace Named

/-- How a function is written in a cell. -/
def text (n : Named) : String := n.base.elim "" (· ++ "::") ++ Text.join ":" (n.name :: n.arguments)

/-- The parts of a function are identifiers, and its arguments fit into their field. -/
structure IsPlain (n : Named) : Prop where
  base : ∀ b ∈ n.base, isIdentifier b = true
  name : isIdentifier n.name = true
  arguments : ∀ a ∈ n.arguments, isIdentifier a = true ∧ ∃ k : Nat, k < 2 ^ 31 ∧ Text.intOf? a = some (k : Int)
  fullName : n.fullName = n.base.elim "" (· ++ "::") ++ n.name

variable {n : Named} (hn : n.IsPlain)

include hn

theorem IsPlain.no_double : ¬ [':', ':'] <:+: (Text.join ":" (n.name :: n.arguments)).toList := by
  have hsingle : ∀ {s : String}, isIdentifier s = true → ¬ [':', ':'] <:+: s.toList := by
    intro s hs hdouble
    exact notMem_of_isIdentifier hs (hdouble.subset mem_cons_self)
  have hjoin : ∀ {as : List String} {s : String}, isIdentifier s = true →
      (∀ a ∈ as, isIdentifier a = true ∧ a ≠ "") → ¬ [':', ':'] <:+: (Text.join ":" (s :: as)).toList := by
    intro as
    induction as with
    | nil => exact fun hs _ => hsingle hs
    | cons a as ih =>
      intro s hs has
      rw [forall_mem_cons] at has
      have hrest := ih has.1.1 has.2
      have hhead : (Text.join ":" (a :: as)).toList.head? ≠ some ':' := by
        have hfirst : (Text.join ":" (a :: as)).toList.head? = a.toList.head? := by
          have hne : a.toList ≠ [] := by simpa using has.1.2
          cases as with
          | nil => rfl
          | cons b bs => simp [Text.join, head?_append, head?_eq_some_head hne]
        rw [hfirst]
        exact fun h => notMem_of_isIdentifier has.1.1 (mem_of_head? h)
      have htext : (Text.join ":" (s :: a :: as)).toList = s.toList ++ ':' :: (Text.join ":" (a :: as)).toList := by
        simp [Text.join]
      rw [htext]
      exact no_double_append (notMem_of_isIdentifier hs) hrest hhead
  refine hjoin hn.name fun a ha => ⟨(hn.arguments a ha).1, ?_⟩
  rintro rfl
  obtain ⟨k, -, hk⟩ := (hn.arguments "" ha).2
  cases hk

theorem IsPlain.read_text : Scoped.read n.text = .ok n := by
  obtain ⟨base, name, fullName, arguments⟩ := n
  have hfull := hn.fullName
  have hcut : Scoped.cutArguments (Text.join ":" (name :: arguments)) = (name, arguments) := by
    rw [Scoped.cutArguments, Text.splitOn_join rfl (cons_ne_nil _ _)]
    exact forall_mem_cons.2 ⟨notMem_of_isIdentifier hn.name, fun a ha => notMem_of_isIdentifier (hn.arguments a ha).1⟩
  have hrest := Text.splitGo_of_absent hn.no_double []
  dsimp only at hfull hrest
  rw [reverse_nil, nil_append] at hrest
  subst hfull
  cases base with
  | none =>
    have hsplit : Text.splitOn (Text.join ":" (name :: arguments)) "::" = [Text.join ":" (name :: arguments)] := by
      simp [Text.splitOn, Text.splitChars, hrest]
    simp [text, Scoped.read, hsplit, hcut]
  | some b =>
    have hb := notMem_of_isIdentifier (hn.base b rfl)
    have hsplit : Text.splitOn (b ++ "::" ++ Text.join ":" (name :: arguments)) "::" =
        [b, Text.join ":" (name :: arguments)] := by
      simp [Text.splitOn, Text.splitChars, Text.splitGo_double hb, hrest]
    simp [text, Scoped.read, hsplit, hcut]

end Named

namespace Scoped

/-- A cell is blank, or it holds a plain function of a group with its type beside it. -/
def CleanCell (column : String) (row : Sheet.Line) : Prop :=
  ∃ cell ∈ (row.cells.get? column).join, Text.strip cell = "" ∨ ∃ g ∈ form.groups, g.column = column ∧
      (∃ type ∈ (row.cells.get? g.typeColumn).join, (numberOf? g.enumeration (Text.strip type)).isSome = true) ∧
      ∃ n : Named, n.IsPlain ∧ Text.strip cell = n.text

/-- A sheet with a header and clean cells. -/
def Clean (s : Sheet) : Prop :=
  ∃ header ∈ s.header, ∀ column ∈ header, form.isListed column = true → ∀ row ∈ s.rows, CleanCell column row

theorem isPlain_of_isIdentifier {s : String} (h : isIdentifier s = true) : ∀ c ∈ s.toList, isPlain c = true := by
  intro c hc
  have hidentifier := all_eq_true.1 h c hc
  simp only [isPlain, ne_eq, decide_not, Bool.and_eq_true, Bool.not_eq_true', decide_eq_false_iff_not]
  refine ⟨⟨⟨?_, ?_⟩, ?_⟩, ?_⟩ <;> rintro rfl <;> exact absurd hidentifier (by decide)

theorem exists_numbers {n : Named} (hn : n.IsPlain) :
    ∃ ns : List Nat, n.arguments.map Text.intOf? = ns.map (fun k : Nat => some (k : Int)) ∧ ∀ k ∈ ns, k < 2 ^ 31 := by
  choose! number hlt hnumber using fun a ha => (hn.arguments a ha).2
  refine ⟨n.arguments.map number, ?_, by simpa using hlt⟩
  rw [map_map]
  exact map_congr_left hnumber

theorem exists_functions {s : Sheet} (hclean : Clean s) :
    ∃ ps : List (Listed × Grouped), form.functions s = ps.map (fun p => .ok p.1) ∧
      ∀ p ∈ ps, form.Matches p.1 p.2 ∧ p.2.Valid := by
  obtain ⟨header, hheader, hcells⟩ := hclean
  refine Form.exists_functions fun r hr => ?_
  obtain ⟨column, hcolumn, hlisted, row, hrow, hr⟩ := (Form.mem_functions hheader).1 hr
  obtain ⟨cell, hcell, hblank | ⟨g, hg, hgcolumn, ⟨type, htype, hvalid⟩, n, hn, htext⟩⟩ :=
    hcells column hcolumn hlisted row hrow
  · simp [Form.cell?, Option.mem_def.1 hcell, hblank] at hr
  have hread : form.read n.text = .ok n := hn.read_text
  have hgroup : form.group? column = some g := by
    rw [← hgcolumn]
    simp only [form, mem_cons, not_mem_nil, or_false] at hg
    rcases hg with rfl | rfl | rfl <;> rfl
  by_cases hempty : n.text = ""
  · simp [Form.cell?, Option.mem_def.1 hcell, htext, hempty] at hr
  obtain ⟨ns, hns, hlt⟩ := exists_numbers hn
  have hfull : ∀ c ∈ n.fullName.toList, isPlain c = true := by
    rw [hn.fullName, String.toList_append, forall_mem_append]
    refine ⟨?_, isPlain_of_isIdentifier hn.name⟩
    cases hb : n.base with
    | none => simp
    | some b =>
      rw [Option.elim_some, String.toList_append, forall_mem_append]
      exact ⟨isPlain_of_isIdentifier (hn.base b hb), by simp [isPlain]⟩
  have hbase : ∀ c ∈ (n.base.getD "").toList, isPlain c = true := by
    cases hb : n.base with
    | none => simp
    | some b => exact isPlain_of_isIdentifier (hn.base b hb)
  refine ⟨⟨column, row.cells, n⟩, ⟨g, n.base.getD "", n.name, n.fullName, Text.strip type, ns⟩, ?_, ?_, ?_⟩
  · simpa [Form.cell?, Option.mem_def.1 hcell, htext, hempty, hread, Except.map] using hr.symm
  · exact ⟨hgroup, rfl, rfl, rfl, hns, type, Option.join_eq_some_iff.1 htype, rfl⟩
  · exact ⟨hbase, isPlain_of_isIdentifier hn.name, hfull, hvalid, hlt⟩

/-! ## Entries -/

/-- The entry of a source of settings without arguments. -/
def sourceDoc (c : Api.Config) (a : Api.Node) : Doc :=
  .obj ([("name", Doc.str a.name), ("is_function", .bool true), ("language", .str "php")] ++ Taint.Entries.classField c a)

theorem mapM_parameterOf {as : List String} {ns : List Nat}
    (h : as.map Text.intOf? = ns.map fun k : Nat => some (k : Int)) :
    as.mapM parameterOf = .ok (ns.map fun k : Nat => .obj [("id", .int k)]) := by
  induction as generalizing ns with
  | nil =>
    obtain rfl : ns = [] := by simpa using h.symm
    rfl
  | cons a as ih =>
    cases ns with
    | nil => simp at h
    | cons k ns =>
      simp only [map_cons, cons.injEq] at h
      rw [mapM_cons, parameterOf, h.1, ih h.2]
      rfl

theorem intOf_argNode (k : Nat) : Api.intOf (Grouped.argNode k) "id" = k := by
  rw [Api.intOf, Grouped.argNode, field?_normal rfl (by simp)]
  by_cases h : k = 0 <;> simp [normalField, normalPlain, normalAtom, isDefault, wholeOf, h]

section Entries

variable {l : Listed} {x : Grouped} (h : form.Matches l x) {c : Api.Config} (hc : c.funcOnly = false) (id : Nat)

include h

theorem arguments_eq_nil_iff : l.named.arguments = [] ↔ x.arguments = [] := by
  have hlength := congrArg List.length h.arguments
  rw [length_map, length_map] at hlength
  rw [← length_eq_zero_iff, hlength, length_eq_zero_iff]

theorem role_eq_source_iff : (x.node id).role = .source ↔ x.group = .sources := by
  have hgroup : x.group ∈ form.groups := mem_of_find?_eq_some h.group
  have hrole : (x.node id).role = x.group.role := rfl
  rw [hrole]
  revert hgroup
  cases x.group <;> simp [form, Group.role]

include hc

theorem classField_eq : classField l.named = Taint.Entries.classField c (x.node id) := by
  have hbase := h.base
  rw [Taint.Entries.classField, hc, classField, Grouped.node]
  cases hb : l.named.base with
  | none =>
    rw [hb, Option.getD_none] at hbase
    simp [← hbase]
  | some b =>
    rw [hb, Option.getD_some] at hbase
    by_cases hempty : b = "" <;> simp [← hbase, hempty]

theorem sourceEntry_eq (hnone : x.arguments = []) : sourceEntry l.named = .ok (sourceDoc c (x.node id)) := by
  rw [sourceEntry, (arguments_eq_nil_iff h).2 hnone, h.name, classField_eq h hc id]
  rfl

theorem sinkEntry_eq : sinkEntry l.named = .ok (Taint.Entries.sinkListing c (x.node id)) := by
  have hparameters := mapM_parameterOf h.arguments
  have hids : (x.arguments.map Grouped.argNode).map (fun n => Doc.obj [("id", .int (Api.intOf n "id"))]) =
      x.arguments.map fun k : Nat => .obj [("id", .int k)] := by
    simp [intOf_argNode]
  rw [sinkEntry, sinkListing, h.name, classField_eq h hc id, hparameters]
  by_cases hnone : x.arguments = []
  · simp [(arguments_eq_nil_iff h).2 hnone, Grouped.node, hnone, pure, Except.pure]
  · have hsome : l.named.arguments ≠ [] := fun h' => hnone ((arguments_eq_nil_iff h).1 h')
    simp only [Grouped.node, hids]
    simp [hnone, hsome, pure, Except.pure, bind, Except.bind]

theorem addEntry_eq (hok : x.group = .sources → x.arguments = []) (entries : List Doc × List Doc) :
    addEntry entries l = .ok (entries.1 ++ ([x.node id].filter fun a => a.role = .source).map (sourceDoc c),
      entries.2 ++ ([x.node id].filter fun a => a.role = .sink || a.role = .danger).filterMap
        (sinkListing c)) := by
  have hgroup : x.group ∈ form.groups := mem_of_find?_eq_some h.group
  have hsink := sinkEntry_eq h hc id
  have hrole : (x.node id).role = x.group.role := rfl
  rw [addEntry, h.group]
  cases hg : x.group with
  | sources => simp [sourceEntry_eq h hc id (hok hg), hrole, hg, Group.role, bind, Except.bind, pure, Except.pure]
  | sourceSinks => simp [hg, form] at hgroup
  | sinks | dangers =>
    cases hlisting : sinkListing c (x.node id) <;>
      simp [hsink, hrole, hg, hlisting, Group.role, bind, Except.bind, pure, Except.pure]

end Entries

/-- A source with arguments stops the making of entries. -/
def StopsAt (x : Grouped) : Prop := x.group = .sources ∧ x.arguments ≠ []

theorem addEntry_of_stopsAt {l : Listed} {x : Grouped} (h : form.Matches l x) (hx : StopsAt x)
    (entries : List Doc × List Doc) :
    ∃ t, addEntry entries l = .error (.of (.failure ("Cannot handle api_args for Sources now: " ++ t))) := by
  have hsome : l.named.arguments ≠ [] := fun h' => hx.2 ((arguments_eq_nil_iff h).1 h')
  refine ⟨(Literal.list (l.named.arguments.map .text)).render, ?_⟩
  simp [addEntry, h.group, hx.1, sourceEntry, hsome, bind, Except.bind]

section Lists

variable {c : Api.Config} (hc : c.funcOnly = false)

def nodeOf (q : (Listed × Grouped) × Nat) : Api.Node := q.1.2.node q.2

include hc in
theorem foldlM_addEntry (qs : List ((Listed × Grouped) × Nat)) (hqs : ∀ q ∈ qs, form.Matches q.1.1 q.1.2)
    (hok : ∀ q ∈ qs, ¬ StopsAt q.1.2) (entries : List Doc × List Doc) :
    qs.foldlM (fun entries q => addEntry entries q.1.1) entries =
      .ok (entries.1 ++ ((qs.map nodeOf).filter fun a => a.role = .source).map (sourceDoc c),
        entries.2 ++ ((qs.map nodeOf).filter fun a => a.role = .sink || a.role = .danger).filterMap
          (sinkListing c)) := by
  induction qs generalizing entries with
  | nil => simp [pure, Except.pure]
  | cons q qs ih =>
    rw [forall_mem_cons] at hqs hok
    have hstep := addEntry_eq hqs.1 hc q.2 (fun hg => by_contra fun hsome => hok.1 ⟨hg, hsome⟩) entries
    rw [foldlM_cons, hstep]
    refine (ih hqs.2 hok.2 _).trans ?_
    have hsplit : (q :: qs).map nodeOf = [q.1.2.node q.2] ++ qs.map nodeOf := rfl
    rw [hsplit, filter_append, filter_append, map_append, filterMap_append]
    simp only [append_assoc]

theorem exists_foldlM_error {qs : List (Listed × Grouped)} (hqs : ∀ q ∈ qs, form.Matches q.1 q.2)
    (hstop : ∃ q ∈ qs, StopsAt q.2) (entries : List Doc × List Doc) :
    ∃ t, qs.foldlM (fun entries q => addEntry entries q.1) entries =
      .error (.of (.failure ("Cannot handle api_args for Sources now: " ++ t))) := by
  induction qs generalizing entries with
  | nil => simp at hstop
  | cons q qs ih =>
    rw [forall_mem_cons] at hqs
    by_cases hq : StopsAt q.2
    · obtain ⟨t, ht⟩ := addEntry_of_stopsAt hqs.1 hq entries
      exact ⟨t, by rw [foldlM_cons, ht]; rfl⟩
    · have hstep := addEntry_eq hqs.1 (c := {}) rfl 0 (fun hg => by_contra fun hsome => hq ⟨hg, hsome⟩) entries
      obtain ⟨t, ht⟩ := ih hqs.2 (by simpa [hq] using hstop) _
      exact ⟨t, by rw [foldlM_cons, hstep]; exact ht⟩

theorem mapM_sourceEntry {as : List Api.Node} (has : ∀ a ∈ as, a.argNodes = []) :
    as.mapM (Taint.Entries.sourceEntry c) = .ok (as.map (sourceDoc c)) := by
  refine mapM_eq_ok fun a ha => ?_
  rw [Taint.Entries.sourceEntry, has a ha]
  rfl

theorem exists_mapM_sourceEntry_error {as : List Api.Node} (has : ∃ a ∈ as, a.argNodes ≠ []) :
    ∃ t, as.mapM (Taint.Entries.sourceEntry c) =
      .error (.failure ("Cannot handle arg_nodes for Sources now: " ++ t)) := by
  induction as with
  | nil => simp at has
  | cons a as ih =>
    by_cases ha : a.argNodes = []
    · obtain ⟨t, ht⟩ := ih (by simpa [ha] using has)
      refine ⟨t, ?_⟩
      rw [mapM_cons, Taint.Entries.sourceEntry, ha, ht]
      rfl
    · refine ⟨toText "AstNode" a.toDoc, ?_⟩
      rw [mapM_cons, Taint.Entries.sourceEntry]
      simp [ha, throw, throwThe, MonadExceptOf.throw, bind, Except.bind]

variable {s : Sheet} {ps : List (Listed × Grouped)} (hs : form.functions s = ps.map fun p => .ok p.1)
  (hps : ∀ p ∈ ps, form.Matches p.1 p.2)

include hs in
theorem entriesOf_functions : entriesOf s = ps.foldlM (fun entries p => addEntry entries p.1) ([], []) := by
  rw [entriesOf, hs, List.foldlM_map]
  rfl

theorem apis_config (ps : List (Listed × Grouped)) :
    (form.config (ps.map Prod.snd)).apis = (ps.zipIdx 1).map nodeOf := by
  rw [Form.config, zipIdx_map, map_map]
  rfl

include hs hps

theorem exists_entriesOf (hok : ∀ p ∈ ps, ¬ StopsAt p.2) : ∃ entries, entriesOf s = .ok entries ∧
      Taint.Entries.entriesOf (form.config (ps.map Prod.snd)) = .ok entries := by
  have hfold := foldlM_addEntry (c := form.config (ps.map Prod.snd)) rfl (ps.zipIdx 1)
    (fun q hq => hps q.1 (fst_mem_of_mem_zipIdx hq)) (fun q hq => hok q.1 (fst_mem_of_mem_zipIdx hq)) ([], [])
  have hfst : ps.foldlM (fun entries p => addEntry entries p.1) ([], []) =
      (ps.zipIdx 1).foldlM (fun entries q => addEntry entries q.1.1) ([], []) := by
    conv_lhs => rw [← zipIdx_map_fst 1 ps, List.foldlM_map]
  refine ⟨_, (entriesOf_functions hs).trans (hfst.trans hfold), ?_⟩
  rw [Taint.Entries.entriesOf, apis_config, mapM_sourceEntry]
  · rfl
  · intro a ha
    obtain ⟨hmem, hrole⟩ := mem_filter.1 ha
    obtain ⟨q, hq, rfl⟩ := mem_map.1 hmem
    have hp := fst_mem_of_mem_zipIdx hq
    have hgroup := (role_eq_source_iff (hps q.1 hp) q.2).1 (of_decide_eq_true hrole)
    have hnone : q.1.2.arguments = [] := by_contra fun hsome => hok q.1 hp ⟨hgroup, hsome⟩
    rw [nodeOf, Grouped.node, hnone, map_nil]

theorem entriesOf_error (hstop : ∃ p ∈ ps, StopsAt p.2) :
    (∃ t, entriesOf s = .error (.of (.failure ("Cannot handle api_args for Sources now: " ++ t)))) ∧
      ∃ t, Taint.Entries.entriesOf (form.config (ps.map Prod.snd)) =
        .error (.failure ("Cannot handle arg_nodes for Sources now: " ++ t)) := by
  refine ⟨entriesOf_functions hs ▸ exists_foldlM_error hps hstop _, ?_⟩
  obtain ⟨p, hp, hgroup, hsome⟩ := hstop
  rw [← zipIdx_map_fst 1 ps] at hp
  obtain ⟨q, hq, rfl⟩ := mem_map.1 hp
  have hrole := (role_eq_source_iff (hps q.1 (fst_mem_of_mem_zipIdx hq)) q.2).2 hgroup
  have hmem : nodeOf q ∈ ((ps.zipIdx 1).map nodeOf).filter fun a => a.role = .source :=
    mem_filter.2 ⟨mem_map_of_mem hq, decide_eq_true hrole⟩
  obtain ⟨t, ht⟩ := exists_mapM_sourceEntry_error (c := form.config (ps.map Prod.snd))
    ⟨nodeOf q, hmem, by simpa [nodeOf, Grouped.node] using hsome⟩
  exact ⟨t, by rw [Taint.Entries.entriesOf, apis_config, ht, error_bind]⟩

end Lists

/-- The lists that are made from a clean sheet itself and from the settings that it gives, wherever these are,
are extended by the same entries, unless a source in the sheet has arguments: then neither are made. -/
theorem writeEntries_eq_writeLists {h : Host} {c : Content} {s : Sheet}
    (hfile : h.entry? "sensitive_apis.csv" = some (.file c))
    (hs : (Job.Content.text? c).map Sheet.ofText = some s) (hclean : Clean s)
    (hfew : (form.functions s).length < 2 ^ 31) (htarget : h.CanWrite "../astgen_php_smt.config")
    {known knownSinks : Doc} (hknown : (Job.readDoc "progpilot_sources.json").runOn h = (.ok known, h))
    (hknownSinks : (Job.readDoc "progpilot_sinks.json").runOn h = (.ok knownSinks, h)) :
    ∃ h', writeSettings.runOn h = (.ok (), h') ∧
      ∀ (host : Host) (config sources sinks newSources newSinks checker : String),
        host.entry? config = h'.entry? "../astgen_php_smt.config" →
        (Job.readDoc sources).runOn host = (.ok known, host) →
        (Job.readDoc sinks).runOn host = (.ok knownSinks, host) →
        let lists := Taint.Entries.writeLists config newSources newSinks sources sinks checker
        ((∀ l, .ok l ∈ form.functions s → l.column = "Sources" → l.named.arguments = []) →
          ∃ entries, entriesOf s = .ok entries ∧
            writeEntries.runOn h = (Taint.Entries.writeExtended known knownSinks entries
              "../static_php_sources.json" "../static_php_sinks.json").runOn h ∧
            lists.runOn host = (do
              Taint.Entries.writeExtended known knownSinks entries newSources newSinks
              let _ ← Job.readText checker
              Job.fault .wrongType : Job Unit).runOn host) ∧
        ((∃ l, .ok l ∈ form.functions s ∧ l.column = "Sources" ∧ l.named.arguments ≠ []) →
          (∃ t, (writeEntries.runOn h).1 = .error (.failure ("Cannot handle api_args for Sources now: " ++ t))) ∧
          ∃ t, (lists.runOn host).1 = .error (.failure ("Cannot handle arg_nodes for Sources now: " ++ t))) := by
  obtain ⟨text, htext, rfl⟩ := Option.map_eq_some_iff.1 hs
  obtain ⟨ps, hfunctions, hps⟩ := exists_functions hclean
  have hmatches : ∀ p ∈ ps, form.Matches p.1 p.2 := fun p hp => (hps p hp).1
  have hread := Job.runOn_readText hfile htext
  obtain ⟨h', hwritten⟩ := exists_runOn_writePieces (writes_settings hfunctions hmatches).1 htarget
  refine ⟨h', by rw [writeSettings, Form.writeSettings, Job.runOn_bind hread, hwritten], ?_⟩
  intro host config sources sinks newSources newSinks checker hconfig hsources hsinks lists
  have hmessage := message_settings hfunctions hmatches fun p hp => (hps p hp).2
  rw [hfunctions, length_map] at hfew
  rw [if_pos hfew] at hmessage
  obtain ⟨d, hd, hsettings⟩ := map_eq_ok_iff.1 hmessage
  have hdoc := Job.runOn_readMessage (hconfig.trans (entry?_of_runOn_writePieces hwritten).2) "AstLookupConfig"
  rw [hd] at hdoc
  have hlists : lists.runOn host = (do
      Taint.Entries.writeExtended known knownSinks
        (← Taint.Entries.entriesOf (form.config (ps.map Prod.snd))) newSources newSinks
      let _ ← Job.readText checker
      Job.fault .wrongType : Job Unit).runOn host := by
    simp only [lists, Taint.Entries.writeLists]
    rw [Job.runOn_bind hsources, Job.runOn_bind hsinks, Job.runOn_bind hdoc, hsettings]
  have hentries : writeEntries.runOn h = (do
      Taint.Entries.writeExtended known knownSinks (← required (entriesOf (Sheet.ofText text)))
        "../static_php_sources.json" "../static_php_sinks.json" : Job Unit).runOn h := by
    rw [writeEntries, Job.runOn_bind hknown, Job.runOn_bind hknownSinks, Job.runOn_bind hread]
  have hstops : ∀ p ∈ ps, (StopsAt p.2 ↔ p.1.column = "Sources" ∧ p.1.named.arguments ≠ []) := by
    intro p hp
    have hcolumn := Form.column_of_group? (hmatches p hp).group
    rw [StopsAt, Ne, Ne, arguments_eq_nil_iff (hmatches p hp), ← hcolumn]
    refine and_congr_left fun _ => ⟨fun hg => by rw [hg]; rfl, fun hg => ?_⟩
    exact Group.column_injective hg
  have hmem : ∀ l, .ok l ∈ form.functions (Sheet.ofText text) ↔ ∃ p ∈ ps, p.1 = l := by
    simp [hfunctions]
  rw [hlists, hentries]
  constructor
  · intro hnone
    obtain ⟨entries, hown, hother⟩ := exists_entriesOf hfunctions hmatches fun p hp hstop =>
      ((hstops p hp).1 hstop).2 (hnone p.1 ((hmem _).2 ⟨p, hp, rfl⟩) ((hstops p hp).1 hstop).1)
    refine ⟨entries, hown, ?_, ?_⟩
    · rw [hown]
      rfl
    · rw [hother]
      rfl
  · rintro ⟨l, hl, hcolumn, hsome⟩
    obtain ⟨p, hp, rfl⟩ := (hmem l).1 hl
    obtain ⟨⟨t, ht⟩, u, hu⟩ := entriesOf_error hfunctions hmatches ⟨p, hp, (hstops p hp).2 ⟨hcolumn, hsome⟩⟩
    refine ⟨⟨t, ?_⟩, u, ?_⟩
    · rw [ht]
      rfl
    · rw [hu]
      rfl

theorem writeEntries_eq_writeLists_method :
    let text := "Sources,SourceType,Sinks,SinkType\nf,SOURCE_NFC,A::g:1,SINK_LOG\n"
    let known : Doc := .obj [("sources", .arr []), ("sinks", .arr [])]
    let h : Host :=
      { root := "/w", cwd := "/w/api"
        files := [("/w/api", .directory), ("/w/api/sensitive_apis.csv", .file (.text text)),
          ("/w/api/progpilot_sources.json", .file (.text known.write)),
          ("/w/api/progpilot_sinks.json", .file (.text known.write))] }
    ∃ h' host entries, writeSettings.runOn h = (.ok (), h') ∧ host.entry? "c" = h'.entry? "../astgen_php_smt.config" ∧
      writeEntries.runOn h = (Taint.Entries.writeExtended known known entries
        "../static_php_sources.json" "../static_php_sinks.json").runOn h ∧
      (Taint.Entries.writeLists "c" "o" "p" "k" "k" "q").runOn host = (do
        Taint.Entries.writeExtended known known entries "o" "p"
        let _ ← Job.readText "q"
        Job.fault .wrongType : Job Unit).runOn host := by
  intro text known h
  let row : Sheet.Line := { cells := [("Sources", some "f"), ("SourceType", some "SOURCE_NFC"),
    ("Sinks", some "A::g:1"), ("SinkType", some "SINK_LOG")] }
  let s : Sheet := { header := some ["Sources", "SourceType", "Sinks", "SinkType"], rows := [row] }
  have hclean : Clean s := by
    have hsource : CleanCell "Sources" row := by
      refine ⟨"f", rfl, .inr ⟨.sources, by simp [form], rfl, ⟨"SOURCE_NFC", rfl, by decide +kernel⟩,
        ⟨none, "f", "f", []⟩, ?_, by decide +kernel⟩⟩
      exact ⟨by simp, by decide, by simp, rfl⟩
    have hsink : CleanCell "Sinks" row := by
      refine ⟨"A::g:1", rfl, .inr ⟨.sinks, by simp [form], rfl, ⟨"SINK_LOG", rfl, by decide +kernel⟩,
        ⟨some "A", "g", "A::g", ["1"]⟩, ?_, by decide +kernel⟩⟩
      refine ⟨by simpa using (by decide : isIdentifier "A" = true), by decide, ?_, rfl⟩
      simpa using ⟨by decide, 1, by decide, by decide +kernel⟩
    refine ⟨_, rfl, fun column hcolumn hlisted r hrow => ?_⟩
    obtain rfl := mem_singleton.1 hrow
    simp only [mem_cons, not_mem_nil, or_false] at hcolumn
    rcases hcolumn with rfl | rfl | rfl | rfl
    · exact hsource
    · exact absurd hlisted (by decide)
    · exact hsink
    · exact absurd hlisted (by decide)
  have hfile : h.entry? "sensitive_apis.csv" = some (.file (.text text)) := by decide +kernel
  have hs : (Job.Content.text? (.text text)).map Sheet.ofText = some s := by decide +kernel
  have hknown : (Job.readDoc "progpilot_sources.json").runOn h = (.ok known, h) := by decide +kernel
  have hsinks : (Job.readDoc "progpilot_sinks.json").runOn h = (.ok known, h) := by decide +kernel
  obtain ⟨h', hrun, hall⟩ :=
    writeEntries_eq_writeLists hfile hs hclean (by decide +kernel) (by decide +kernel) hknown hsinks
  obtain ⟨host, hc, hk⟩ : ∃ host : Host, host.entry? "c" = h'.entry? "../astgen_php_smt.config" ∧
      (Job.readDoc "k").runOn host = (.ok known, host) := by
    rw [show h' = (writeSettings.runOn h).2 by rw [hrun]]
    exact ⟨{ root := "/", cwd := "/", files := [("/k", .file (.text known.write)),
      ("/c", (Host.entry? (writeSettings.runOn h).2 "../astgen_php_smt.config").getD .directory)] },
      by decide +kernel, by decide +kernel⟩
  have hnone : ∀ l, .ok l ∈ form.functions s → l.column = "Sources" → l.named.arguments = [] := by
    have hempty : ((form.functions s).all fun r => r.toOption.all fun l =>
        l.column ≠ "Sources" || l.named.arguments.isEmpty) = true := by decide +kernel
    intro l hl hcolumn
    simpa [Except.toOption, hcolumn] using all_eq_true.1 hempty _ hl
  obtain ⟨entries, -, hown, hlists⟩ := (hall host "c" "k" "k" "o" "p" "q" hc hk hk).1 hnone
  exact ⟨h', host, entries, hrun, hc, hown, hlists⟩

end Scoped

end Listing
end Vetting
