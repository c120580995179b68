import Vetting.Catalogue.Packages
import Vetting.Proofs.Sheet

/-!
# Entries broken in two lines

A line of a listing that is too long goes on in the next one. Which lines do can be told from the spaces and
the lengths of two lines alone.
-/

namespace Vetting.Catalogue

open List Job Sheet Text

variable {width : Nat}

/-- A package and its version in a listing. -/
structure Item where
  name : String
  version : String

namespace Item

def text (e : Item) : String := e.name ++ " " ++ e.version

/-- The lines of an entry, which is broken after `width` characters if it is longer. -/
def lines (width : Nat) (e : Item) : List String :=
  if e.text.length ≤ width then [e.text]
  else [String.ofList (e.text.toList.take width), String.ofList (e.text.toList.drop width)]

/-- Neither the name nor the version holds spaces or line breaks, and two lines are enough. -/
structure Fits (width : Nat) (e : Item) : Prop where
  plain : ∀ c ∈ e.name.toList ++ e.version.toList, c ≠ ' ' ∧ c ≠ '\n' ∧ c ≠ '\r'
  length_lt : e.text.length < 2 * width

variable {width : Nat} {e : Item}

theorem toList_text (e : Item) : e.text.toList = e.name.toList ++ ' ' :: e.version.toList := by
  simp [text]

theorem Fits.cutFirst_text (he : e.Fits width) :
    cutFirst ' ' e.text.toList = some (e.name.toList, e.version.toList) := by
  have hname : ∀ c ∈ e.name.toList, (c != ' ') = true := fun c hc => by
    simpa using (he.plain c (mem_append_left _ hc)).1
  rw [toList_text, cutFirst, dropWhile_append_of_pos hname, takeWhile_append_of_pos hname]
  simp

/-- Of two parts of an entry one has the space. -/
theorem Fits.space_mem (he : e.Fits width) {as bs : List Char} (h : as ++ bs = e.text.toList) :
    ' ' ∈ as ↔ ' ' ∉ bs := by
  have hcount : as.count ' ' + bs.count ' ' = 1 := by
    have hname : e.name.toList.count ' ' = 0 := count_eq_zero.2 fun hc => (he.plain _ (mem_append_left _ hc)).1 rfl
    have hversion : e.version.toList.count ' ' = 0 :=
      count_eq_zero.2 fun hc => (he.plain _ (mem_append_right _ hc)).1 rfl
    rw [← count_append, h, toList_text, count_append, count_cons_self, hname, hversion]
  rw [← count_pos_iff, ← count_eq_zero]
  omega

end Item

theorem firstEntry_of_whole {e : Item} (he : e.text.length ≤ width) (es : List Item) :
    firstEntry e.text (es.flatMap (Item.lines width)) = (e.text, 0) := by
  cases es with
  | nil => rfl
  | cons f es =>
    rw [flatMap_cons, Item.lines]
    split
    · simp [firstEntry, Item.toList_text]
    · have hlong : ¬ (width < e.text.length ∨ f.text.length < e.text.length) := by omega
      simp [firstEntry, String.length_toList, hlong]

theorem firstEntry_of_broken {e : Item} (hfit : e.Fits width) (he : ¬ e.text.length ≤ width)
    (rest : List String) : firstEntry (String.ofList (e.text.toList.take width))
        (String.ofList (e.text.toList.drop width) :: rest) = (e.text, 1) := by
  have hspace := hfit.space_mem (take_append_drop width e.text.toList)
  have hshorter : e.text.length - width < min width e.text.length := by
    have := hfit.length_lt
    omega
  have hwhole : String.ofList (e.text.toList.take width) ++ String.ofList (e.text.toList.drop width) = e.text := by
    rw [← String.ofList_append, take_append_drop, String.ofList_toList]
  by_cases hfirst : ' ' ∈ e.text.toList.take width
  · simp [firstEntry, String.length_toList, hshorter, hwhole, hfirst, hspace.1 hfirst]
  · simp [firstEntry, String.length_toList, hshorter, hwhole, hfirst, not_not.1 (mt hspace.2 hfirst)]

theorem brokenNames_lines {es : List Item} (hes : ∀ e ∈ es, e.Fits width) :
    brokenNames (es.flatMap (Item.lines width)) = .ok (es.map Item.name) := by
  induction es with
  | nil => rw [flatMap_nil, brokenNames]; rfl
  | cons e es ih =>
    rw [forall_mem_cons] at hes
    -- whichever way the entry is written, it is put together and the rest is read as before
    have hread : ∀ line rest n, firstEntry line rest = (e.text, n) → rest.drop n = es.flatMap (Item.lines width) →
        brokenNames (line :: rest) = .ok ((e :: es).map Item.name) := by
      intro line rest n hfirst hrest
      rw [brokenNames, hfirst]
      simp only [hes.1.cutFirst_text, hrest, ih hes.2, String.ofList_toList]
      rfl
    rw [flatMap_cons, Item.lines]
    split
    case isTrue he => exact hread _ _ 0 (firstEntry_of_whole he es) rfl
    case isFalse he => exact hread _ _ 1 (firstEntry_of_broken hes.1 he _) rfl

theorem Item.Fits.of_mem_lines {e : Item} (he : e.Fits width) {l : String} (hl : l ∈ e.lines width) :
    l ≠ "" ∧ '\n' ∉ l.toList := by
  have hfeed : '\n' ∉ e.text.toList := by
    intro hc
    rw [toList_text, mem_append, mem_cons] at hc
    obtain hc | hc | hc := hc
    · exact (he.plain _ (mem_append_left _ hc)).2.1 rfl
    · cases hc
    · exact (he.plain _ (mem_append_right _ hc)).2.1 rfl
  have hpart : ∀ cs : List Char, 0 < cs.length → cs ⊆ e.text.toList →
      String.ofList cs ≠ "" ∧ '\n' ∉ (String.ofList cs).toList := fun cs hpos hsub =>
    ⟨by simpa [length_pos_iff] using hpos, by simpa using fun hc => hfeed (hsub hc)⟩
  have hwidth := he.length_lt
  have hlength : e.text.toList.length = e.text.length := String.length_toList
  rw [lines] at hl
  split at hl
  case isTrue =>
    obtain rfl := mem_singleton.1 hl
    exact ⟨by simp [text], hfeed⟩
  case isFalse =>
    rcases mem_pair.1 hl with rfl | rfl
    · exact hpart _ (by rw [length_take]; omega) (take_subset ..)
    · exact hpart _ (by rw [length_drop]; omega) (drop_subset ..)

/-- What is written of a package. -/
def cellsOf (name : String) : List String := [name, "", "nuget", "", "csharp"]

theorem runOn_writePackages {h : Host} {outfile : String} (hout : h.CanWrite outfile) (names : List String)
    (workers : Int) : (writePackages (names.map .str) .nuget outfile false workers).runOn h =
      (.ok (), h.put outfile (written (columns :: names.map cellsOf))) := by
  have hline : ∀ n ∈ names.map Doc.str, ∀ s,
      (addLine outfile columns (packageLine .nuget n none)).runOn (h.put outfile s) =
        (.ok ⟨⟩, h.put outfile (s ++ writeLine (cellsOf n.shown))) := by
    intro n hn s
    obtain ⟨name, -, rfl⟩ := mem_map.1 hn
    exact runOn_appendText_put hout s _
  have hloop := runOn_for_written hline [columns]
  rw [writePackages, runOn_bind (runOn_writeText hout _)]
  simp only [Bool.false_and, Bool.false_eq_true, if_false, pure_bind]
  have hcells : columns :: names.map cellsOf = [columns] ++ (names.map Doc.str).map fun n => cellsOf n.shown := by
    rw [map_map]
    rfl
  have hheader : writeLine columns = written [columns] := String.append_empty.symm
  rw [hcells, hheader, runOn_bind hloop]
  rfl

/-- The names in a listing whose longer lines are broken are those of its entries, in order. -/
theorem crawl_broken {width : Nat} {es : List Item} (hes : ∀ e ∈ es, e.Fits width) {h : Host} {infile outfile : String}
    {c : Content} {s : String} (hc : h.entry? infile = some (.file c)) (hs : Job.Content.text? c = some s)
    (hlines : s = join "\n" (es.flatMap (Item.lines width)) ∨
      s = join "\n" (es.flatMap (Item.lines width)) ++ "\n")
    (hout : h.CanWrite outfile) (workers : Int) :
    ∃ h' sheet, (crawl .nuget outfile (some infile) false workers).runOn h = (.ok (), h') ∧
      (readSheet outfile).runOn h' = (.ok sheet, h') ∧
      sheet.rows.map (fun r => r.cells.get? "package name") = es.map fun e => some (some e.name) := by
  have hsplit : (Text.splitOn s "\n").filter (fun l => !l.isEmpty) = es.flatMap (Item.lines width) := by
    have hall : ∀ l ∈ es.flatMap (Item.lines width), l ≠ "" ∧ '\n' ∉ l.toList := fun l hl => by
      obtain ⟨e, he, hl⟩ := mem_flatMap.1 hl
      exact (hes e he).of_mem_lines hl
    have hjoin : (Text.splitOn (join "\n" (es.flatMap (Item.lines width))) "\n").filter (fun l => !l.isEmpty) =
        es.flatMap (Item.lines width) := by
      rcases eq_or_ne (es.flatMap (Item.lines width)) [] with hnil | hne
      · rw [hnil]
        rfl
      · rw [splitOn_join rfl hne fun l hl => (hall l hl).2]
        exact filter_eq_self.2 fun l hl => by simpa using (hall l hl).1
    rcases hlines with rfl | rfl
    · exact hjoin
    · rw [← String.append_empty (s := _ ++ "\n"), splitOn_append rfl, filter_append, hjoin]
      exact append_nil _
  have hnames : (nugetNames (some infile)).runOn h = (.ok ((es.map Item.name).map .str), h) := by
    rw [nugetNames]
    simp only
    rw [runOn_bind (runOn_readText hc hs), hsplit, brokenNames_lines hes]
    rfl
  refine ⟨_, _, (runOn_bind hnames _).trans (runOn_writePackages hout _ workers),
    runOn_bind (runOn_readText_put hout _) _, ?_⟩
  have hreturn : ∀ l ∈ columns :: (es.map Item.name).map cellsOf, ∀ c ∈ l, '\r' ∉ c.toList := by
    rw [forall_mem_cons, map_map, forall_mem_map]
    refine ⟨by decide, fun e he => ?_⟩
    have hname : '\r' ∉ e.name.toList := fun hc => ((hes e he).plain _ (mem_append_left _ hc)).2.2 rfl
    simpa [cellsOf] using hname
  have hcell : ∀ n, (Sheet.Line.ofCells columns (cellsOf n)).cells.get? "package name" = some (some n) := fun n => by
    have hline : Sheet.Line.ofCells columns (cellsOf n) = { cells := columns.zip ((cellsOf n).map some) } :=
      ofCells_eq (by decide) rfl
    rw [hline]
    rfl
  rw [ofText, lines_written hreturn]
  simp only [map_map, filter_map]
  have hall : es.filter ((fun l => !l.isEmpty) ∘ cellsOf ∘ Item.name) = es := filter_eq_self.2 fun e _ => rfl
  rw [hall]
  exact map_congr_left fun e _ => hcell e.name

/-- A short entry, one that is broken inside its name and one that is broken before its space. -/
theorem crawl_broken_three :
    let h : Host := { root := "/w", cwd := "/w", files := [("/w/in", .file (.text "ab 1\nabcd\ne 2\nabcd\n 1\n"))] }
    ∃ h' sheet, (crawl .nuget "out" (some "in") false 1).runOn h = (.ok (), h') ∧
      (readSheet "out").runOn h' = (.ok sheet, h') ∧
      sheet.rows.map (fun r => r.cells.get? "package name") = ["ab", "abcde", "abcd"].map fun n => some (some n) := by
  intro h
  have hfits : ∀ e ∈ [⟨"ab", "1"⟩, ⟨"abcde", "2"⟩, ⟨"abcd", "1"⟩], Item.Fits 4 e := by
    simp only [forall_mem_cons]
    exact ⟨⟨by simp, by decide⟩, ⟨by simp, by decide⟩, ⟨by simp, by decide⟩, by simp⟩
  have hentry : h.entry? "in" = some (.file (.text "ab 1\nabcd\ne 2\nabcd\n 1\n")) := by decide +kernel
  have htext : Job.Content.text? (.text "ab 1\nabcd\ne 2\nabcd\n 1\n") = some "ab 1\nabcd\ne 2\nabcd\n 1\n" := by
    decide +kernel
  exact crawl_broken hfits hentry htext (.inr (by decide +kernel)) (by decide +kernel) 1

end Vetting.Catalogue
