import Vetting.Proofs.Host
import Vetting.Proofs.Text

/-!
# Sheets are read back as they were written

Every line of cells without returns is read back as it was written, whatever follows.
-/

namespace Vetting

open List Text Sheet.Line

namespace Sheet

theorem linesGo_plain {cs : List Char} (hcs : ∀ c ∈ cs, isSpecial c = false) (cell : List Char)
    (cells : List String) (rest : List Char) :
    linesGo .plain cell cells (cs ++ rest) = linesGo .plain (cs.reverse ++ cell) cells rest := by
  induction cs generalizing cell with
  | nil => rfl
  | cons c cs ih =>
    rw [forall_mem_cons] at hcs
    have hc := hcs.1
    simp only [isSpecial, Bool.or_eq_false_iff, decide_eq_false_iff_not] at hc
    obtain ⟨⟨⟨hcomma, hquote⟩, -⟩, hfeed⟩ := hc
    simp [linesGo, hcomma, hquote, hfeed, ih hcs.2]

variable {d : Char} {ls : List (List String)}

theorem linesGo_quoted (cs cell : List Char) (cells : List String) (hd : d = ',' ∨ d = '\n') (rest : List Char) :
    linesGo .quoted cell cells (doubled cs ++ '"' :: d :: rest) =
      linesGo .plain (cs.reverse ++ cell) cells (d :: rest) := by
  induction cs generalizing cell with
  | nil => rcases hd with rfl | rfl <;> simp [doubled, linesGo]
  | cons c cs ih =>
    by_cases hc : c = '"'
    · simp [doubled, linesGo, hc, ih]
    · simp [doubled, linesGo, hc, ih]

theorem linesGo_writeCell (cell : String) (cells : List String) (hd : d = ',' ∨ d = '\n') (rest : List Char) :
    linesGo .cellStart [] cells ((writeCell cell).toList ++ d :: rest) =
      linesGo .plain cell.toList.reverse cells (d :: rest) := by
  rw [writeCell]
  split
  case isTrue =>
    have hquoted := linesGo_quoted cell.toList [] cells hd rest
    rw [append_nil] at hquoted
    rw [← hquoted]
    simp [quoteCell, linesGo]
  case isFalse hplain =>
    have hchars : ∀ c ∈ cell.toList, isSpecial c = false := by simpa using hplain
    cases hcell : cell.toList with
    | nil => rcases hd with rfl | rfl <;> simp [linesGo]
    | cons c cs =>
      rw [hcell, forall_mem_cons] at hchars
      have hc := hchars.1
      simp only [isSpecial, Bool.or_eq_false_iff, decide_eq_false_iff_not] at hc
      obtain ⟨⟨⟨hcomma, hquote⟩, -⟩, hfeed⟩ := hc
      have hon := linesGo_plain hchars.2 [c] cells (d :: rest)
      simp [linesGo, hcomma, hquote, hfeed, hon]

/-! ## One line -/

theorem linesGo_lineStart {c : Char} (hc : c ≠ '\n') (cs : List Char) :
    linesGo .lineStart [] [] (c :: cs) = linesGo .cellStart [] [] (c :: cs) := by
  by_cases hquote : c = '"'
  · simp [linesGo, hquote]
  · simp [linesGo, hc, hquote]

theorem linesGo_cells (cell : String) (more cells : List String) (rest : List Char) :
    linesGo .cellStart [] cells ((join "," ((cell :: more).map writeCell)).toList ++ '\n' :: rest) =
      (cells.reverse ++ cell :: more) :: linesGo .lineStart [] [] rest := by
  induction more generalizing cell cells with
  | nil =>
    rw [map_singleton, join, linesGo_writeCell cell cells (.inr rfl)]
    simp [linesGo, addCell]
  | cons next more ih =>
    have hjoin : (join "," ((cell :: next :: more).map writeCell)).toList ++ '\n' :: rest = (writeCell cell).toList ++
          ',' :: ((join "," ((next :: more).map writeCell)).toList ++ '\n' :: rest) := by
      simp [join]
    have hon := ih next (cell :: cells)
    rw [hjoin, linesGo_writeCell cell cells (.inl rfl)]
    simpa [linesGo, addCell] using hon

variable {cell : String} {cells names : List String}

theorem writeCell_eq_empty_iff : writeCell cell = "" ↔ cell = "" := by
  rw [writeCell]
  split
  case isTrue hspecial =>
    have hne : cell ≠ "" := by
      rintro rfl
      exact absurd hspecial (by decide)
    simp [quoteCell, hne]
  case isFalse => rfl

theorem head?_writeCell_ne (cell : String) : (writeCell cell).toList.head? ≠ some '\n' := by
  rw [writeCell]
  split
  case isTrue => simp [quoteCell]
  case isFalse hplain =>
    intro hfeed
    refine hplain (any_eq_true.2 ⟨'\n', mem_of_head? hfeed, by decide⟩)

theorem exists_join_writeCell {more : List String} (hne : cell :: more ≠ [""]) :
    ∃ d ds, (join "," ((cell :: more).map writeCell)).toList = d :: ds ∧ d ≠ '\n' := by
  rw [map_cons, toList_join_cons]
  cases hcell : (writeCell cell).toList with
  | nil =>
    have hempty : cell = "" := writeCell_eq_empty_iff.1 (by simpa using hcell)
    cases more with
    | nil => exact absurd (by rw [hempty]) hne
    | cons next more => exact ⟨',', _, rfl, by decide⟩
  | cons d ds =>
    refine ⟨d, _, rfl, ?_⟩
    rintro rfl
    exact head?_writeCell_ne cell (by rw [hcell]; rfl)

theorem return_notMem_writeCell (hcell : '\r' ∉ cell.toList) : '\r' ∉ (writeCell cell).toList := by
  have hdoubled : ∀ cs : List Char, '\r' ∉ cs → '\r' ∉ doubled cs := by
    intro cs hcs
    induction cs with
    | nil => exact hcs
    | cons c cs ih =>
      rw [mem_cons, not_or] at hcs
      rw [doubled]
      split <;> simp [hcs.1, ih hcs.2]
  rw [writeCell]
  split
  · simp [quoteCell, hdoubled _ hcell]
  · exact hcell

theorem linesGo_writeLine (hcells : ∀ c ∈ cells, '\r' ∉ c.toList) (rest : List Char) :
    linesGo .lineStart [] [] (unifyLineEnds ((writeLine cells).toList ++ rest)) =
      cells :: linesGo .lineStart [] [] (unifyLineEnds rest) := by
  by_cases hempty : cells = [""]
  · subst hempty
    have hchars : (writeLine [""]).toList ++ rest = "\"\"".toList ++ '\r' :: '\n' :: rest := by
      simp [writeLine]
    rw [hchars, unifyLineEnds_append (by decide)]
    simp [linesGo, addCell]
  · have hchars : (writeLine cells).toList ++ rest =
        (join "," (cells.map writeCell)).toList ++ '\r' :: '\n' :: rest := by
      simp [writeLine, hempty]
    have hreturn : '\r' ∉ (join "," (cells.map writeCell)).toList := by
      cases cells with
      | nil => simp [join]
      | cons cell more =>
        rw [forall_mem_cons] at hcells
        rw [map_cons, toList_join_cons, mem_append, mem_flatMap, not_or]
        refine ⟨return_notMem_writeCell hcells.1, ?_⟩
        rintro ⟨w, hw, hmem⟩
        obtain ⟨c, hc, rfl⟩ := mem_map.1 hw
        have := return_notMem_writeCell (hcells.2 c hc)
        simp [this] at hmem
    rw [hchars, unifyLineEnds_append hreturn]
    cases cells with
    | nil => simp [join, linesGo]
    | cons cell more =>
      have hcellStart := linesGo_cells cell more [] (unifyLineEnds rest)
      obtain ⟨d, ds, hline, hd⟩ := exists_join_writeCell hempty
      rw [hline, cons_append] at hcellStart ⊢
      rw [linesGo_lineStart hd, hcellStart]
      rfl

/-- The text of lines that were written one after the other. -/
def written : List (List String) → String
  | [] => ""
  | line :: more => writeLine line ++ written more

theorem written_concat (ls : List (List String)) (l : List String) :
    written (ls ++ [l]) = written ls ++ writeLine l := by
  induction ls with
  | nil => simp [written]
  | cons line more ih => rw [cons_append, written, ih, written, String.append_assoc]

theorem lines_written (hls : ∀ l ∈ ls, ∀ c ∈ l, '\r' ∉ c.toList) :
    lines (String.ofList (unifyLineEnds (written ls).toList)) = ls := by
  rw [lines, String.toList_ofList]
  induction ls with
  | nil => rfl
  | cons line more ih =>
    rw [forall_mem_cons] at hls
    rw [written, String.toList_append, linesGo_writeLine hls.1, ih hls.2]

/-! ## Lines below a header -/

theorem evenLines_eq {width : Nat} (hls : ∀ l ∈ ls, l.length = width) (first : Bool) :
    evenLines first width ls = .ok ls := by
  induction ls generalizing first with
  | nil => rfl
  | cons l ls ih =>
    rw [forall_mem_cons] at hls
    simp [evenLines, hls.1, ih hls.2]

/-- A cell that is read as a text, neither missing nor of another kind nor blank. -/
structure IsText (s : String) : Prop where
  notMissing : isMissing s = false
  notWhole : whole? s = none
  notDecimal : decimal? s = none
  notTruth : truth? s = none
  notBlank : s.toList.all isBlank = false

theorem values_eq (hcells : ∀ s ∈ cells, IsText s) : values cells = cells := by
  have htexts : (cells.map fun s => if isMissing s then missingText else s) = cells := by
    conv_rhs => rw [← map_id cells]
    exact map_congr_left fun s hs => by simp [(hcells s hs).notMissing]
  cases cells with
  | nil => rfl
  | cons s cells =>
    have hs := hcells s mem_cons_self
    have hreadAs : ∀ read : String → Option String, read s = none → readAs read (s :: cells) = none := by
      intro read hread
      simp [readAs, hs.notMissing, hread]
    have hwhole : ((s :: cells).mapM fun s => if isMissing s then some none else (whole? s).map some) =
        none := by
      simp [hs.notMissing, hs.notWhole]
    simp only [values, hwhole, htexts]
    rw [hreadAs _ (by simp [hs.notDecimal]), hreadAs _ (by simp [hs.notTruth])]
    rfl

theorem ofCells_append {names more cells : List String} (hnames : (names ++ more).Nodup)
    (hlength : cells.length = names.length) :
    Line.ofCells (names ++ more) cells =
      { cells := names.zip (cells.map some) ++ more.map fun k => (k, none) } := by
  have hzip : (names ++ more).zip (cells.map some) = names.zip (cells.map some) := by
    have happend : (names ++ more).zip (cells.map some ++ []) = names.zip (cells.map some) ++ more.zip [] :=
      zip_append (by rw [length_map, hlength])
    rwa [append_nil, zip_nil_right, append_nil] at happend
  have hdrop : (names ++ more).drop cells.length = more := by rw [hlength, drop_left]
  have hextra : cells.drop (names ++ more).length = [] := by
    rw [drop_eq_nil_iff, length_append]
    omega
  have hkeys : (names.zip (cells.map some) ++ more.map fun k => (k, (none : Option String))).map Prod.fst =
      names ++ more := by
    rw [map_append, map_fst_zip (by rw [length_map, hlength]), map_map]
    simp [Function.comp_def]
  rw [Line.ofCells, hzip, hdrop, hextra, Table.ofPairs_eq_self (by rwa [hkeys])]

theorem ofCells_eq (hnames : names.Nodup) (hlength : cells.length = names.length) :
    Line.ofCells names cells = { cells := names.zip (cells.map some) } := by
  have hline : Line.ofCells (names ++ []) cells = _ :=
    ofCells_append (by rwa [append_nil]) hlength
  rwa [append_nil, map_nil, append_nil] at hline

theorem ordered_zip (hnames : names.Nodup) (hlength : cells.length = names.length) :
    ordered names (names.zip (cells.map some)) = cells := by
  have hkeys : (names.zip (cells.map some)).map Prod.fst = names :=
    map_fst_zip (by rw [length_map, hlength])
  have hvalues : (names.zip (cells.map some)).map Prod.snd = cells.map some :=
    map_snd_zip (by rw [length_map, hlength])
  calc ordered names (names.zip (cells.map some))
      = (names.zip (cells.map some)).map fun p =>
          ((Table.get? (names.zip (cells.map some)) p.1).getD none).getD "" := by
        conv_lhs => rw [ordered, ← hkeys, map_map, hkeys]
        rfl
    _ = (names.zip (cells.map some)).map fun p => p.2.getD "" :=
        map_congr_left fun p hp => by
          rw [Table.get?_of_mem (by rwa [Table.keys, hkeys]) hp]
          rfl
    _ = ((names.zip (cells.map some)).map Prod.snd).map (Option.getD · "") := by
        rw [map_map]
        rfl
    _ = cells := by
        rw [hvalues, map_map]
        exact map_id cells

theorem ordered_ofCells (hnames : names.Nodup) (hlength : cells.length = names.length) :
    ordered names (Line.ofCells names cells).cells = cells := by
  rw [ofCells_eq hnames hlength]
  exact ordered_zip hnames hlength

end Sheet

namespace Job

open Sheet (written writeLine)

variable {α : Type} {h : Host} {p : String}

/-- A loop that adds a line in each round adds all lines. -/
theorem runOn_for_written {g : α → Job PUnit} {line : α → List String} {xs : List α}
    (hg : ∀ a ∈ xs, ∀ s, (g a).runOn (h.put p s) = (.ok ⟨⟩, h.put p (s ++ writeLine (line a))))
    (ls : List (List String)) :
    (forIn xs ⟨⟩ fun a _ => do g a; return .yield ⟨⟩ : Job PUnit).runOn (h.put p (written ls)) =
      (.ok ⟨⟩, h.put p (written (ls ++ xs.map line))) := by
  induction xs generalizing ls with
  | nil => rw [map_nil, append_nil]; rfl
  | cons a xs ih =>
    rw [forall_mem_cons] at hg
    rw [forIn_cons, bind_assoc, runOn_bind (hg.1 _), pure_bind, ← Sheet.written_concat, ih hg.2]
    simp

theorem runOn_addLine_put (hp : h.CanWrite p) {names cells : List String} (hnames : names.Nodup)
    (hlength : cells.length = names.length) (s : String) :
    (addLine p names (ofCells names cells)).runOn (h.put p s) =
      (.ok (), h.put p (s ++ writeLine cells)) := by
  have hkeys : ∀ c ∈ names.zip (cells.map some), names.contains c.1 = true := by
    intro c hc
    simpa using (of_mem_zip hc).1
  rw [Sheet.ofCells_eq hnames hlength, addLine]
  simp only [Sheet.ordered_zip hnames hlength]
  rw [if_neg (by simpa using hkeys)]
  exact runOn_appendText_put hp s (writeLine cells)

/-- Lines with the cells of the columns are added as they are. -/
theorem runOn_for_addLine (hp : h.CanWrite p) {names : List String} (hnames : names.Nodup)
    {rows : List (List String)} (hrows : ∀ r ∈ rows, r.length = names.length) (ls : List (List String)) :
    (forIn (rows.map (ofCells names)) ⟨⟩ fun r _ => do
      addLine p names r
      return .yield ⟨⟩ : Job PUnit).runOn (h.put p (written ls)) =
      (.ok ⟨⟩, h.put p (written (ls ++ rows))) := by
  have hline : ∀ r ∈ rows, Sheet.ordered names (ofCells names r).cells = r := fun r hr =>
    Sheet.ordered_ofCells hnames (hrows r hr)
  have hg : ∀ a ∈ rows.map (ofCells names), ∀ s, (addLine p names a).runOn (h.put p s) =
        (.ok ⟨⟩, h.put p (s ++ writeLine (Sheet.ordered names a.cells))) := by
    intro a ha s
    obtain ⟨r, hr, rfl⟩ := mem_map.1 ha
    rw [hline r hr]
    exact runOn_addLine_put hp hnames (hrows r hr) s
  have hmap : (rows.map (ofCells names)).map (fun a => Sheet.ordered names a.cells) = rows := by
    rw [map_map]
    exact (map_congr_left hline).trans (map_id rows)
  rw [runOn_for_written hg, hmap]

end Job

end Vetting
