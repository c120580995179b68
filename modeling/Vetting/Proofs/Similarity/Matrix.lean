import Vetting.Proofs.Path
import Vetting.Proofs.Sheet
import Vetting.Similarity.Matrix

/-!
# Tables of distances

A table has a column more than its lines have cells, so that the last distance of a line is missed.
-/

namespace Vetting.Similarity

open List Job Path Sheet Sheet.Line

/-! ## Lists of packages -/

/-- The name of a package in a line below a header. -/
def nameIn (header row : List String) : String :=
  row[header.findIdx (· == "package name")]?.getD ""

/-- The columns and lines of a list of packages, with names that are texts, each there once and none that of the
first column of a table. -/
structure PackageList where
  header : List String
  rows : List (List String)
  nodup_header : header.Nodup
  mem_header : "package name" ∈ header
  length_row : ∀ r ∈ rows, r.length = header.length
  return_notMem : ∀ l ∈ header :: rows, ∀ c ∈ l, '\r' ∉ c.toList
  isText : ∀ r ∈ rows, Sheet.IsText (nameIn header r)
  nodup_names : (rows.map (nameIn header)).Nodup
  notMem_names : "pname" ∉ rows.map (nameIn header)

namespace PackageList

def names (l : PackageList) : List String := l.rows.map (nameIn l.header)

/-- Whether a text is the list; it may have empty lines. -/
def IsIn (l : PackageList) (text : String) : Prop :=
  ∃ rest, lines text = l.header :: rest ∧ (rest.filter fun r => !r.isEmpty) = l.rows

variable (l : PackageList)

theorem header_ne_nil : l.header ≠ [] := ne_nil_of_mem l.mem_header

theorem findIdx?_header :
    l.header.findIdx? (· == "package name") = some (l.header.findIdx (· == "package name")) := by
  rw [findIdx?_eq_some_iff_findIdx_eq]
  exact ⟨findIdx_lt_length_of_exists ⟨_, l.mem_header, by simp⟩, rfl⟩

theorem isBlankLine_header : isBlankLine l.header = false := by
  have hmem := l.mem_header
  rcases hheader : l.header with _ | ⟨a, _ | ⟨b, rest⟩⟩
  · rw [hheader] at hmem
    cases hmem
  · rw [hheader, mem_singleton] at hmem
    rw [← hmem]
    decide +kernel
  · rfl

theorem isBlankLine_row {r : List String} (hr : r ∈ l.rows) : isBlankLine r = false := by
  have hlength := l.length_row r hr
  have hmem := l.mem_header
  rcases hrow : r with _ | ⟨a, _ | ⟨b, rest⟩⟩
  · rw [hrow] at hlength
    exact absurd (eq_nil_of_length_eq_zero hlength.symm) l.header_ne_nil
  · -- a line of one cell is the name of a package
    have hcolumn := findIdx_lt_length_of_exists (p := (· == "package name")) ⟨_, hmem, by simp⟩
    have hname : nameIn l.header r = a := by
      rw [hrow, length_singleton] at hlength
      have hzero : l.header.findIdx (· == "package name") = 0 := by omega
      rw [nameIn, hrow, hzero]
      rfl
    have hblank := (l.isText r hr).notBlank
    rw [hname] at hblank
    simp [isBlankLine, hblank]
  · rfl

theorem filter_lines {text : String} (h : l.IsIn text) :
    ((lines text).filter fun r => !isBlankLine r) = l.header :: l.rows := by
  obtain ⟨rest, hlines, hrest⟩ := h
  have hsame : ∀ r ∈ rest, (!isBlankLine r) = !r.isEmpty := by
    intro r hr
    cases hempty : r.isEmpty with
    | true =>
      rw [List.isEmpty_iff.1 hempty]
      rfl
    | false =>
      have hrow : r ∈ l.rows := hrest ▸ mem_filter.2 ⟨hr, by simp [hempty]⟩
      rw [l.isBlankLine_row hrow]
  rw [hlines, filter_cons_of_pos (by simp [l.isBlankLine_header]), filter_congr hsame, hrest]

theorem column?_eq {text : String} (h : l.IsIn text) : column? text "package name" = .ok (some l.names) := by
  have heven : evenLines true l.header.length l.rows = .ok l.rows :=
    evenLines_eq l.length_row true
  have hleading : (l.rows.headD l.header).length - l.header.length = 0 := by
    cases hrows : l.rows with
    | nil => simp
    | cons r rows =>
      have := l.length_row r (by simp [hrows])
      simp [this]
  have hvalues : values l.names = l.names := by
    refine values_eq fun s hs => ?_
    obtain ⟨r, hr, rfl⟩ := mem_map.1 hs
    exact l.isText r hr
  rw [column?, l.filter_lines h]
  simp only [heven, bind, Except.bind, hleading, Nat.zero_add, l.findIdx?_header]
  exact congrArg (fun ns => Except.ok (some ns)) hvalues

theorem ofText_eq {text : String} (h : l.IsIn text) :
    ofText text = { header := some l.header, rows := l.rows.map (ofCells l.header) } := by
  obtain ⟨rest, hlines, hrest⟩ := h
  rw [ofText, hlines]
  simp only [hrest]

def text (l : PackageList) : String := written (l.header :: l.rows)

theorem isIn_text : l.IsIn (String.ofList (Text.unifyLineEnds l.text.toList)) := by
  refine ⟨l.rows, lines_written l.return_notMem, filter_eq_self.2 fun r hr => ?_⟩
  have hlength := l.length_row r hr
  have hheader := length_pos_of_ne_nil l.header_ne_nil
  cases r with
  | nil => simp at hlength; omega
  | cons c r => rfl

theorem return_notMem_names : ∀ n ∈ l.names, '\r' ∉ n.toList := by
  intro n hn
  obtain ⟨r, hr, rfl⟩ := mem_map.1 hn
  rw [nameIn]
  cases hcell : r[l.header.findIdx (· == "package name")]? with
  | none => decide
  | some c => exact l.return_notMem r (mem_cons_of_mem _ hr) c (mem_of_getElem? hcell)

theorem nodup_cons_names : ("pname" :: l.names).Nodup :=
  nodup_cons.2 ⟨l.notMem_names, l.nodup_names⟩

def part (rows : List (List String)) (h : rows.Sublist l.rows) : PackageList where
  header := l.header
  rows := rows
  nodup_header := l.nodup_header
  mem_header := l.mem_header
  length_row r hr := l.length_row r (h.subset hr)
  return_notMem r hr := l.return_notMem r ((h.cons_cons l.header).subset hr)
  isText r hr := l.isText r (h.subset hr)
  nodup_names := (h.map _).nodup l.nodup_names
  notMem_names hmem := l.notMem_names ((h.map _).subset hmem)

end PackageList

def PackageList.At (l : PackageList) (h : Host) (file : String) : Prop :=
  ∃ c s, h.entry? file = some (.file c) ∧ Job.Content.text? c = some s ∧ l.IsIn s

/-- The file of the second list; without one it is that of the first. -/
def targetFile (source : String) (target : Option String) : String :=
  (target.filter fun t => !t.isEmpty).getD source

variable {h : Host} {S T l : PackageList} {source file out : String} {target : Option String}

theorem runOn_namesIn (hl : l.At h file) : (namesIn file).runOn h = (.ok (some l.names), h) := by
  obtain ⟨c, s, hc, hs, hin⟩ := hl
  rw [namesIn, runOn_bind (runOn_readText hc hs), l.column?_eq hin]
  rfl

theorem runOn_readSheet (hl : l.At h file) : (readSheet file).runOn h =
      (.ok { header := some l.header, rows := l.rows.map (ofCells l.header) }, h) := by
  obtain ⟨c, s, hc, hs, hin⟩ := hl
  rw [readSheet, runOn_bind (runOn_readText hc hs), l.ofText_eq hin, runOn_pure]

theorem runOn_namesOf (hS : S.At h source) (hT : T.At h (targetFile source target)) :
    (namesOf source target).runOn h = (.ok (some S.names, some T.names), h) := by
  rw [namesOf, runOn_bind (runOn_namesIn hS)]
  rw [targetFile] at hT
  cases htarget : target.filter fun t => !t.isEmpty with
  | none =>
    rw [htarget] at hT
    have hsame := (runOn_namesIn hS).symm.trans (runOn_namesIn hT)
    rw [← Option.some.inj (Except.ok.inj (congrArg Prod.fst hsame))]
    rfl
  | some t =>
    rw [htarget, Option.getD_some] at hT
    exact runOn_bind (runOn_namesIn hT) _

/-! ## Tables of distances -/

def tableText (names : List String) (rows : List (List Nat)) : String :=
  written (("pname" :: names) :: rows.map fun r => r.map Text.ofNat)

theorem runOn_writeTable (hout : h.CanWrite out) (names : List String) (rows : List (List Nat)) :
    (writeTable out (some names) rows).runOn h = (.ok (), h.put out (tableText names rows)) := by
  have hheader : (appendText out (headerLine names)).runOn (h.put out "") =
      (.ok (), h.put out (written ["pname" :: names])) := by
    rw [runOn_appendText_put hout, headerLine, written, written, String.empty_append, String.append_empty]
  rw [writeTable, runOn_bind (runOn_writeText hout ""), needed, runOn_bind (runOn_lift _ _), runOn_bind hheader]
  exact runOn_bind (runOn_for_written (fun r _ s => runOn_appendText_put hout s _) _) _

theorem runOn_tableFile (hS : S.At h source) (hT : T.At h (targetFile source target)) (hout : h.CanWrite out) :
    (tableFile source target out).runOn h = (.ok (), h.put out (tableText T.names (distances S.names T.names))) := by
  rw [tableFile, runOn_bind (runOn_namesOf hS hT)]
  change (liftM (needed (some S.names)) >>= _ : Job Unit).runOn h = _
  rw [needed, runOn_bind (runOn_lift _ _)]
  split
  case isTrue hempty =>
    rw [List.isEmpty_iff.1 hempty, pure_bind]
    exact runOn_writeTable hout T.names []
  case isFalse =>
    exact runOn_writeTable hout T.names (distances S.names T.names)

theorem filterAuxM_error {α ε : Type} {p : α → Except ε Bool} {xs : List α} (hxs : ∀ x ∈ xs, ∃ b, p x = .ok b)
    {x : α} {e : ε} (hx : p x = .error e) (ys acc : List α) :
    (xs ++ x :: ys).filterAuxM p acc = .error e := by
  induction xs generalizing acc with
  | nil => simp [List.filterAuxM, hx, bind, Except.bind]
  | cons y xs ih =>
    rw [forall_mem_cons] at hxs
    obtain ⟨b, hb⟩ := hxs.1
    simp [List.filterAuxM, hb, bind, Except.bind, ih hxs.2]

theorem nearCells_append_none (threshold : Int) {cells : Table String (Option String)}
    (hcells : ∀ c ∈ cells, ∃ n, c.2 = some (Text.ofNat n)) {k : String} (hk : k ≠ "pname") :
    nearCells threshold (cells ++ [(k, none)]) = .error (.cause .wrongType) := by
  rw [nearCells, List.filterM, filterAuxM_error]
  case e => exact .cause .wrongType
  · rfl
  · rintro ⟨j, v⟩ hc
    obtain ⟨n, rfl⟩ : ∃ n, v = some (Text.ofNat n) := hcells _ hc
    by_cases hj : j = "pname"
    · exact ⟨true, if_pos hj⟩
    · exact ⟨n ≤ threshold, by simp [hj, Text.intOf?_ofNat]⟩
  · exact if_neg hk

theorem runOn_readSheet_table (hout : h.CanWrite out) {names : List String}
    (hnames : ∀ n ∈ names, '\r' ∉ n.toList) (rows : List (List Nat)) :
    (readSheet out).runOn (h.put out (tableText names rows)) =
      (.ok ⟨some ("pname" :: names), ((rows.map fun r => r.map Text.ofNat).filter fun r => !r.isEmpty).map
        (ofCells ("pname" :: names))⟩, h.put out (tableText names rows)) := by
  have hreturn : ∀ l ∈ ("pname" :: names) :: rows.map fun r => r.map Text.ofNat, ∀ c ∈ l, '\r' ∉ c.toList := by
    rw [forall_mem_cons, forall_mem_cons]
    refine ⟨⟨by decide, hnames⟩, fun l hl c hc => ?_⟩
    obtain ⟨r, -, rfl⟩ := mem_map.1 hl
    obtain ⟨n, -, rfl⟩ := mem_map.1 hc
    exact Text.notMem_ofNat (by decide) n
  rw [readSheet, runOn_bind (runOn_readText_put hout _), tableText, runOn_pure, ofText, lines_written hreturn]

/-- A line of distances ends before the last name, so that it is refused. -/
theorem runOn_keepLine {names : List String} (hnodup : ("pname" :: names).Nodup) {row : List Nat}
    (hrow : row ≠ []) (hlength : row.length = names.length) (threshold : Int) (g : Host) :
    (keepLine out ("pname" :: names) threshold (ofCells ("pname" :: names) (row.map Text.ofNat))).runOn g =
      (.error (.cause .wrongType), g) := by
  have hnames : names ≠ [] := by
    rintro rfl
    exact hrow (eq_nil_of_length_eq_zero hlength)
  obtain ⟨init, last, rfl⟩ := (eq_nil_or_concat' names).resolve_left hnames
  have hlast : last ≠ "pname" := by
    rintro rfl
    exact (nodup_cons.1 hnodup).1 (by simp)
  have hline : ofCells ("pname" :: init ++ [last]) (row.map Text.ofNat) = _ :=
    ofCells_append hnodup (by simpa using hlength)
  have hnumbers : ∀ c ∈ ("pname" :: init).zip ((row.map Text.ofNat).map some), ∃ n, c.2 = some (Text.ofNat n) := by
    intro c hc
    obtain ⟨s, hs, heq⟩ := mem_map.1 (of_mem_zip hc).2
    obtain ⟨n, -, rfl⟩ := mem_map.1 hs
    exact ⟨n, heq.symm⟩
  rw [← cons_append, hline, keepLine]
  simp only [map_singleton, nearCells_append_none threshold hnumbers hlast]
  rfl

section

variable {names : List String} (hreturn : ∀ n ∈ names, '\r' ∉ n.toList)

include hreturn

/-- What is left of a table is its header, and then it is gone through line by line. -/
theorem runOn_keepNear (hout : h.CanWrite out) (rows : List (List Nat)) (threshold : Int) :
    (keepNear out threshold).runOn (h.put out (tableText names rows)) =
      ((forIn (((rows.map fun r => r.map Text.ofNat).filter fun r => !r.isEmpty).map
        (ofCells ("pname" :: names))) ⟨⟩ fun r _ => do
          keepLine out ("pname" :: names) threshold r
          return .yield ⟨⟩ : Job PUnit)).runOn (h.put out (tableText names [])) := by
  have htext : tableText names [] = writeLine ("pname" :: names) := String.append_empty ..
  rw [keepNear, runOn_bind (runOn_readSheet_table hout hreturn rows), columns]
  simp only [pure_bind]
  rw [runOn_bind (runOn_writeText (hout.put hout _) _), Host.put_put, ← htext]
  exact congrArg (runOn · _) (bind_pure _)

theorem runOn_keepNear_nil (hout : h.CanWrite out) {rows : List (List Nat)} (hrows : ∀ r ∈ rows, r = [])
    (threshold : Int) :
    (keepNear out threshold).runOn (h.put out (tableText names rows)) = (.ok (), h.put out (tableText names [])) := by
  have hempty : ((rows.map fun r => r.map Text.ofNat).filter fun r => !r.isEmpty) = [] := by
    rw [filter_eq_nil_iff]
    intro l hl
    obtain ⟨r, hr, rfl⟩ := mem_map.1 hl
    simp [hrows r hr]
  rw [runOn_keepNear hreturn hout, hempty]
  rfl

/-- Where a table has a distance, looking for small ones stops. -/
theorem runOn_keepNear_cons (hnodup : ("pname" :: names).Nodup) (hout : h.CanWrite out) {row : List Nat}
    (hrow : row ≠ []) (hlength : row.length = names.length) (rows : List (List Nat)) (threshold : Int) :
    (keepNear out threshold).runOn (h.put out (tableText names (row :: rows))) =
      (.error (.cause .wrongType), h.put out (tableText names [])) := by
  have hfirst : ((((row :: rows).map fun r => r.map Text.ofNat).filter fun r => !r.isEmpty)) =
      row.map Text.ofNat :: ((rows.map fun r => r.map Text.ofNat).filter fun r => !r.isEmpty) := by
    rw [map_cons, filter_cons_of_pos (by simpa using hrow)]
  rw [runOn_keepNear hreturn hout, hfirst, map_cons, forIn_cons, bind_assoc,
    runOn_bind_error (runOn_keepLine hnodup hrow hlength threshold _)]

end

namespace Request

/-- A request asks for the pairs of names at most so far apart, by the table method. -/
structure AsksPairs (q : Request) (t : Int) (p : String) : Prop where
  method : q.method = some .table
  threshold : q.threshold = some t
  pos : 0 < t
  pairFile : q.pairFile = some p
  ne_empty : p ≠ ""

variable {q : Request} {t : Int} {p : String}

theorem AsksPairs.filter_pairFile (hq : q.AsksPairs t p) :
    (q.pairFile.filter fun p => !p.isEmpty) = some p := by simp [hq.pairFile, hq.ne_empty]

theorem runOn_addPairs_nil (hout : h.CanWrite out) {names : List String}
    (hreturn : ∀ n ∈ names, '\r' ∉ n.toList) (pairs : String) :
    (addPairs out pairs).runOn (h.put out (tableText names [])) = (.ok (), h.put out (tableText names [])) := by
  rw [addPairs, runOn_bind (runOn_readSheet_table hout hreturn [])]
  rfl

theorem runOn_compare (hq : q.AsksPairs t p) (hS : S.At h source) (hT : T.At h (targetFile source target))
    (hout : h.CanWrite out) :
    (q.compare source target out).runOn h =
      (if S.names = [] ∨ T.names = [] then .ok () else .error (.cause .wrongType),
        h.put out (tableText T.names [])) := by
  have hcompare : (q.compare source target out).runOn h =
      (keepNear out t).runOn (h.put out (tableText T.names (distances S.names T.names))) := by
    rw [compare, hq.method, hq.threshold, runOn_bind (runOn_tableFile hS hT hout)]
    exact congrArg (runOn · _) (if_pos hq.pos)
  rw [hcompare]
  split
  case isTrue hempty =>
    refine runOn_keepNear_nil T.return_notMem_names hout (fun r hr => ?_) t
    obtain ⟨s, hs, rfl⟩ := mem_map.1 hr
    have hT : T.names = [] := hempty.resolve_left (ne_nil_of_mem hs)
    rw [hT, map_nil]
  case isFalse hne =>
    rw [not_or] at hne
    obtain ⟨s, names, hS⟩ := exists_cons_of_ne_nil hne.1
    rw [hS, distances, map_cons]
    exact runOn_keepNear_cons T.return_notMem_names T.nodup_cons_names hout (by simpa using hne.2) (length_map ..) _ t

theorem runOn_compareAndPair (hq : q.AsksPairs t p) (hS : S.At h source)
    (hT : T.At h (targetFile source target)) (hout : h.CanWrite out) :
    (q.compareAndPair source target out).runOn h =
      (if S.names = [] ∨ T.names = [] then .ok () else .error (.cause .wrongType),
        h.put out (tableText T.names [])) := by
  have hcompare := runOn_compare hq hS hT hout
  rw [compareAndPair, hq.filter_pairFile]
  by_cases hempty : S.names = [] ∨ T.names = []
  · rw [if_pos hempty] at hcompare ⊢
    rw [runOn_bind hcompare]
    exact runOn_addPairs_nil hout T.return_notMem_names p
  · rw [if_neg hempty] at hcompare ⊢
    rw [runOn_bind_error hcompare]

end Request

/-! ## Splitting a list -/

theorem chunks_map {α β : Type} (f : α → β) (n fuel : Nat) (xs : List α) :
    chunks n fuel (xs.map f) = (chunks n fuel xs).map (List.map f) := by
  induction fuel generalizing xs with
  | zero => rfl
  | succ fuel ih =>
    cases xs with
    | nil => rfl
    | cons x xs =>
      rw [map_cons, chunks, chunks, ← map_cons, ← map_take, ← map_drop, ih]
      · rfl
      · simp
      · simp

theorem sublist_of_mem_chunks {α : Type} {n : Nat} (hn : 0 < n) {fuel : Nat} {xs c : List α}
    (hc : c ∈ chunks n fuel xs) : c.Sublist xs ∧ c ≠ [] := by
  induction fuel generalizing xs with
  | zero => cases hc
  | succ fuel ih =>
    cases xs with
    | nil => cases hc
    | cons x xs =>
      rw [chunks, mem_cons] at hc
      · rcases hc with rfl | hc
        · exact ⟨take_sublist _ _, by simp; omega⟩
        · exact ⟨(ih hc).1.trans (drop_sublist _ _), (ih hc).2⟩
      · simp

theorem chunks_ne_nil {α : Type} (n fuel : Nat) {xs : List α} (hxs : xs ≠ []) : chunks n (fuel + 1) xs ≠ [] := by
  rw [chunks]
  · exact cons_ne_nil _ _
  · exact hxs

def partPath (dir file : String) (i : Nat) : String :=
  join dir (base file ++ "." ++ Text.ofNat i)

/-- Whether a file of a host is a part of a list, which is empty just if the list is. -/
def PackageList.HasPartAt (l : PackageList) (h : Host) (file : String) : Prop :=
  ∃ m : PackageList, m.At h file ∧ (m.names = [] ↔ l.names = [])

theorem runOn_writePart (dir file : String) {names : List String} (hnames : names.Nodup) {rows : List (List String)}
    (hrows : ∀ r ∈ rows, r.length = names.length) {i : Nat} (hp : h.CanWrite (partPath dir file i)) :
    (writePart dir file names (rows.map (ofCells names), i)).runOn h =
      (.ok (partPath dir file i), h.put (partPath dir file i) (written (names :: rows))) := by
  have hheader : writeLine names = written [names] := (String.append_empty ..).symm
  rw [writePart]
  change (writeText (partPath dir file i) (writeLine names) >>= _ : Job String).runOn h = _
  rw [runOn_bind (runOn_writeText hp _), hheader]
  exact runOn_bind (runOn_for_addLine hp hnames hrows [names]) _

/-- The parts of a list are written in turn, and all else is as it was. -/
theorem runOn_writeParts {dir : String} {names : List String} (hnames : names.Nodup)
    {parts : List (List (List String))} (hparts : ∀ rows ∈ parts, ∀ r ∈ rows, r.length = names.length)
    (k : Nat) {g : Host} (hcan : ∀ i, g.CanWrite (partPath dir file i))
    (hinj : ∀ i j, g.absolutePath (partPath dir file i) = g.absolutePath (partPath dir file j) → i = j) :
    ∃ g', (((parts.map (List.map (ofCells names))).zipIdx k).mapM (writePart dir file names)).runOn g =
        (.ok ((parts.zipIdx k).map fun part => partPath dir file part.2), g') ∧ g.OnlyFiles g' ∧
      (∀ part ∈ parts.zipIdx k,
        g'.entry? (partPath dir file part.2) = some (.file (.text (written (names :: part.1))))) ∧
      ∀ q, (∀ i, k ≤ i → g.absolutePath (partPath dir file i) ≠ q) → entryAt g' q = entryAt g q := by
  induction parts generalizing k g with
  | nil => exact ⟨g, rfl, .refl g, by simp, fun q _ => rfl⟩
  | cons rows parts ih =>
    rw [forall_mem_cons] at hparts
    have hfirst := runOn_writePart dir file hnames hparts.1 (hcan k)
    obtain ⟨g', hrun, honly, hentry, hother⟩ := ih hparts.2 (k + 1) (fun i => (hcan k).put (hcan i) _) hinj
    have hkept : ∀ q, (∀ i, k + 1 ≤ i → g.absolutePath (partPath dir file i) ≠ q) →
        entryAt g' q = if g.absolutePath (partPath dir file k) = q
          then some (.file (.text (written (names :: rows)))) else entryAt g q := by
      intro q hq
      rw [hother q hq, Host.entryAt_put (hcan k)]
    refine ⟨g', ?_, (Host.OnlyFiles.put g _ _).trans honly, ?_, ?_⟩
    · rw [map_cons, zipIdx_cons, mapM_cons, runOn_bind hfirst, runOn_bind hrun]
      rfl
    · rw [zipIdx_cons, forall_mem_cons]
      refine ⟨?_, hentry⟩
      rw [Host.entry?, if_neg (by simpa using (hcan k).1), honly.absolutePath_eq, Host.absolutePath_put,
        hkept _ fun i hi heq => by have := hinj _ _ heq; omega, if_pos rfl]
    · intro q hq
      rw [hkept q fun i hi => hq i (by omega), if_neg (hq k le_rfl)]

theorem isName_part (file : String) (i : Nat) : Path.IsName (base file ++ "." ++ Text.ofNat i) := by
  obtain ⟨ds, d, hdigits⟩ := (eq_nil_or_concat' (Nat.toDigits 10 i)).resolve_left Nat.toDigits_ne_nil
  have hd : d.isDigit = true :=
    Nat.isDigit_of_mem_toDigits (by decide : 0 < 10) (by decide : 10 ≤ 10) (by rw [hdigits]; simp)
  have hslash : '/' ∉ (base file ++ "." ++ Text.ofNat i).toList := by
    simp [slash_notMem_base, Text.notMem_ofNat]
  have hlast : (base file ++ "." ++ Text.ofNat i).toList.getLast? = some d := by
    have hchars : (base file ++ "." ++ Text.ofNat i).toList =
        ((base file).toList ++ '.' :: ds) ++ [d] := by simp [Text.ofNat, hdigits]
    rw [hchars, getLast?_concat]
  refine ⟨hslash, ?_, ?_, ?_⟩
  all_goals
    intro heq
    rw [heq] at hlast
    revert hlast
  · simp
  all_goals
    rintro ⟨⟩
    exact absurd hd (by decide)

theorem PackageList.At.ne_empty (hl : l.At h file) : file ≠ "" := by
  obtain ⟨c, s, hc, -, -⟩ := hl
  rintro rfl
  cases hc

theorem PackageList.At.of_entry? {h' : Host} {f : String} (hl : l.At h file)
    (hkept : ∀ e, h.entry? file = some e → h'.entry? f = some e) : l.At h' f := by
  obtain ⟨c, s, hc, hs, hin⟩ := hl
  exact ⟨c, s, hkept _ hc, hs, hin⟩

theorem PackageList.hasPartAt_of_written {rows : List (List String)} (hrows : rows.Sublist l.rows)
    (hne : rows ≠ []) (hfile : h.entry? file = some (.file (.text (written (l.header :: rows))))) :
    l.HasPartAt h file := by
  have hl : l.rows ≠ [] := by
    intro hnil
    rw [hnil, sublist_nil] at hrows
    exact hne hrows
  refine ⟨l.part rows hrows, ⟨_, _, hfile, rfl, (l.part rows hrows).isIn_text⟩, ?_⟩
  simp only [names, map_eq_nil_iff]
  exact iff_of_false hne hl

section

variable (ht : h.HasTemporary)

include ht

theorem absolutePath_partPath (n : Nat) (file : String) (i : Nat) :
    h.absolutePath (partPath (h.temporaryPath "edit_dist-" n) file i) =
      h.temporaryPath "edit_dist-" n ++ "/" ++ (base file ++ "." ++ Text.ofNat i) :=
  ht.absolutePath_join_temporaryPath (by decide) n (isName_part file i)

theorem isBelow_partPath (n : Nat) (file : String) (i : Nat) :
    isBelow (h.absolutePath (partPath (h.temporaryPath "edit_dist-" n) file i))
      (h.temporaryPath "edit_dist-" n) = true := by
  rw [absolutePath_partPath ht]
  exact (ht.plain_temporaryPath (by decide) n).isBelow_below _

theorem partPath_inj (n : Nat) (file : String) {i j : Nat}
    (heq : h.absolutePath (partPath (h.temporaryPath "edit_dist-" n) file i) =
      h.absolutePath (partPath (h.temporaryPath "edit_dist-" n) file j)) : i = j := by
  rw [absolutePath_partPath ht, absolutePath_partPath ht, String.append_right_inj, String.append_right_inj] at heq
  exact Text.ofNat_injective heq

theorem canWrite_partPath {n : Nat} (hmade : entryAt h (h.temporaryPath "edit_dist-" n) = some .directory)
    (hclean : ∀ q, isBelow q (h.temporaryPath "edit_dist-" n) = true → entryAt h q = none)
    (file : String) (i : Nat) : h.CanWrite (partPath (h.temporaryPath "edit_dist-" n) file i) := by
  have hplain := ht.plain_temporaryPath (by decide : '/' ∉ "edit_dist-".toList) n
  have hpath := absolutePath_partPath ht n file i
  refine ⟨?_, ?_, ?_⟩
  · exact ((Path.LeadsTo.refl _).join _).ne_empty (isName_part file i)
  · rw [hclean _ (isBelow_partPath ht n file i)]
    simp
  · rw [hpath, hplain.parent_below (isName_part file i).notMem, hmade]

end

/-- The parts of a list that is not empty, as files of a temporary directory. -/
theorem exists_runOn_writeParts {h₁ : Host} (ht : h₁.HasTemporary)
    (hfilled : h.Filled (h.temporaryPath "edit_dist-" h.temporary) h₁)
    (hclean : ∀ q, isBelow q (h.temporaryPath "edit_dist-" h.temporary) = true → entryAt h₁ q = none)
    (hl : l.rows ≠ []) {n : Nat} (hn : 0 < n) (file : String) :
    ∃ files h', ((chunks n (l.rows.length + 1) (l.rows.map (ofCells l.header))).zipIdx.mapM
        (writePart (h.temporaryPath "edit_dist-" h.temporary) file l.header)).runOn h₁ = (.ok files, h') ∧
      h.Filled (h.temporaryPath "edit_dist-" h.temporary) h' ∧ files ≠ [] ∧
      ∀ f ∈ files, l.HasPartAt h' f ∧
        Host.AtOrBelow (h.absolutePath f) (h.temporaryPath "edit_dist-" h.temporary) := by
  have hmade := hfilled.made
  rw [← hfilled.temporaryPath_eq] at hmade hclean ⊢
  have hparts : ∀ rows ∈ chunks n (l.rows.length + 1) l.rows, rows.Sublist l.rows ∧ rows ≠ [] :=
    fun rows hrows => sublist_of_mem_chunks hn hrows
  obtain ⟨h', hrun, honly, hentry, hother⟩ := runOn_writeParts l.nodup_header
    (fun rows hrows r hr => l.length_row r ((hparts rows hrows).1.subset hr)) 0
    (canWrite_partPath ht hmade hclean file) (fun i j => partPath_inj ht h.temporary file)
  have hnotPart : ∀ q, ¬ isBelow q (h₁.temporaryPath "edit_dist-" h.temporary) = true →
      entryAt h' q = entryAt h₁ q := fun q hq => hother q fun i _ heq =>
    hq (heq ▸ isBelow_partPath ht h.temporary file i)
  refine ⟨_, h', by rw [chunks_map]; exact hrun, ⟨?_, ?_, ?_⟩, ?_, ?_⟩
  · exact hfilled.only.trans honly
  · rw [hnotPart _ fun hbelow => (ht.plain_temporaryPath (by decide) _).ne_of_isBelow hbelow rfl, hmade]
  · intro q hq
    rw [hnotPart q fun hbelow => hq (.inr hbelow), hfilled.other q (hfilled.temporaryPath_eq ▸ hq)]
  · simpa using chunks_ne_nil n _ hl
  · intro f hf
    obtain ⟨part, hpart, rfl⟩ := mem_map.1 hf
    have hrows := hparts part.1 (fst_mem_of_mem_zipIdx hpart)
    refine ⟨PackageList.hasPartAt_of_written hrows.1 hrows.2 (hentry part hpart), .inr ?_⟩
    rw [← hfilled.absolutePath_eq]
    exact isBelow_partPath ht h.temporary file part.2

/-- A list is split into files of a temporary directory, or it is its only part. -/
theorem runOn_splitList (ht : h.HasTemporary)
    (hfresh : h.FreshAt (h.temporaryPath "edit_dist-" h.temporary)) (hl : l.At h file) {batch : Int}
    (hbatch : 0 < batch) :
    ∃ d files h', (splitList file batch).runOn h = (.ok (d, files), h') ∧
      h.Filled (h.temporaryPath "edit_dist-" h.temporary) h' ∧
      (∀ dir ∈ d, dir = h.temporaryPath "edit_dist-" h.temporary) ∧ files ≠ [] ∧
      ∀ f ∈ files, l.HasPartAt h' f ∧
        (f = file ∨ Host.AtOrBelow (h.absolutePath f) (h.temporaryPath "edit_dist-" h.temporary)) := by
  have hstart : '/' ∉ "edit_dist-".toList := by decide
  obtain ⟨h₁, hrun₁, honly₁, hentry₁⟩ := runOn_temporaryDir ht hstart (hfresh _ (.inl rfl))
  have hfilled₁ : h.Filled (h.temporaryPath "edit_dist-" h.temporary) h₁ := by
    refine ⟨honly₁, by rw [hentry₁, if_pos rfl], fun q hq => ?_⟩
    rw [hentry₁, if_neg fun heq => hq (.inl heq)]
  have hl₁ : l.At h₁ file := hl.of_entry? fun e => (hfilled₁.keeps hfresh).entry?_eq
  rw [splitList, runOn_bind hrun₁, runOn_bind (runOn_readSheet hl₁)]
  by_cases hshort : (l.rows.length : Int) ≤ batch
  · refine ⟨none, [file], h₁, ?_, hfilled₁, by simp, by simp, ?_⟩
    · rw [if_pos (by simpa using hshort)]
      rfl
    · simp only [mem_singleton, forall_eq, true_or, and_true]
      exact ⟨l, hl₁, Iff.rfl⟩
  · have hrows : l.rows ≠ [] := by
      intro hnil
      rw [hnil] at hshort
      exact hshort hbatch.le
    have hclean : ∀ q, isBelow q (h.temporaryPath "edit_dist-" h.temporary) = true → entryAt h₁ q = none := by
      intro q hq
      rw [hentry₁, if_neg ((ht.plain_temporaryPath hstart _).ne_of_isBelow hq), hfresh q (.inr hq)]
    obtain ⟨files, h', hrun, hfilled, hne, hfiles⟩ := exists_runOn_writeParts (hfilled₁.hasTemporary hfresh ht)
      hfilled₁ hclean hrows (show 0 < batch.toNat by omega) file
    refine ⟨some (h.temporaryPath "edit_dist-" h.temporary), files, h', ?_, hfilled, by simp, hne,
      fun f hf => ⟨(hfiles f hf).1, .inr (hfiles f hf).2⟩⟩
    rw [if_neg (by simpa using hshort), if_neg (by omega), columns]
    simp only [pure_bind, length_map]
    rw [if_neg (by omega), runOn_bind hrun]
    rfl

end Vetting.Similarity
