import Vetting.Proofs.Registry.Cache

/-!
# Drawn trees of dependencies

A tool draws a line for each artifact, with a bar or blanks for each level above it but the first. The reader
counts the spaces of a line: one right below the root, and more elsewhere.
-/

namespace Vetting

open List Job Text

namespace Registry.Maven

open Client

structure Coordinates where
  group : String
  own : String
  packaging : String
  version : String
  scope : String
deriving DecidableEq

namespace Coordinates

variable (a : Coordinates)

def fields : List String := [a.group, a.own, a.packaging, a.version, a.scope]

/-- The coordinates as they are drawn. -/
def text : String := join ":" a.fields

/-- No field has a colon or white space of the kinds that end a word or a line. -/
def IsPlain : Prop := ∀ s ∈ a.fields, ∀ c ∈ [':', ' ', '\n'], c ∉ s.toList

def name : String := a.group ++ "/" ++ a.own

/-- What is found out about an artifact. -/
def entry : String × Doc := (a.name, .str a.version)

variable {a}

theorem IsPlain.splitOn_text (ha : a.IsPlain) : splitOn a.text ":" = a.fields :=
  splitOn_join rfl (cons_ne_nil _ _) fun s hs => ha s hs ':' (by simp)

theorem IsPlain.notMem_text (ha : a.IsPlain) {c : Char} (hc : c ∈ [' ', '\n']) : c ∉ a.text.toList := by
  have hne : c ≠ ':' := by rintro rfl; simp at hc
  intro hmem
  rcases mem_join hmem with hsep | ⟨s, hs, hmem⟩
  · exact hne (mem_singleton.1 hsep)
  · exact ha s hs c (mem_cons_of_mem _ hc) hmem

end Coordinates

/-- The artifacts below one: the first of them with what is below it, and the others. -/
inductive Forest where
  | nil
  | cons (a : Coordinates) (below rest : Forest)

namespace Forest

/-- The artifacts right below the root. -/
def children : Forest → List Coordinates
  | nil => []
  | cons a _ rest => a :: rest.children

def all : Forest → List Coordinates
  | nil => []
  | cons a below rest => a :: (below.all ++ rest.all)

end Forest

/-- Each line has a mark after its indentation, and those below it have a bar or blanks more. -/
inductive Drawn : String → Forest → List String → Prop where
  | nil {indent : String} : Drawn indent .nil []
  | cons {indent mark bar : String} {a : Coordinates} {below rest : Forest} {ls ms : List String}
      (hmark : mark ∈ ["+- ", "\\- "]) (hbar : bar ∈ ["|  ", "   "]) (hbelow : Drawn (indent ++ bar) below ls)
      (hrest : Drawn indent rest ms) : Drawn indent (.cons a below rest) ((indent ++ mark ++ a.text) :: (ls ++ ms))

/-- A line for the root and those of the artifacts below it, perhaps with a last line end. -/
inductive IsDrawing (f : Forest) : String → Prop where
  | mk {root : String} {lines ending : List String} (hroot : ∀ c ∈ [' ', '\n'], c ∉ root.toList)
      (hlines : Drawn "" f lines) (hending : ending ∈ [[], [""]]) :
      IsDrawing f (join "\n" (root :: (lines ++ ending)))

/-! ## Reading a line -/

/-- Indentations: none, or one that ends in a space. -/
structure IsIndent (indent : String) : Prop where
  chars : ∀ c ∈ indent.toList, c ∈ ['|', ' ']
  last : indent = "" ∨ ∃ d, indent = d ++ " "

theorem isIndent_empty : IsIndent "" := ⟨by simp, .inl rfl⟩

theorem IsIndent.append {indent bar : String} (h : IsIndent indent) (hbar : bar ∈ ["|  ", "   "]) :
    IsIndent (indent ++ bar) ∧ indent ++ bar ≠ "" := by
  simp only [mem_cons, not_mem_nil, or_false] at hbar
  refine ⟨⟨fun c hc => ?_, ?_⟩, ?_⟩
  · rw [String.toList_append, mem_append] at hc
    rcases hc with hc | hc
    · exact h.chars c hc
    · rcases hbar with rfl | rfl <;> simp at hc <;> simp [hc]
  · rcases hbar with rfl | rfl
    · exact .inr ⟨indent ++ "| ", by simp [String.append_assoc]⟩
    · exact .inr ⟨indent ++ "  ", by simp [String.append_assoc]⟩
  · rcases hbar with rfl | rfl <;> simp

variable {indent mark : String} {f : Forest}

theorem IsIndent.splitOn_line (h : IsIndent indent) (hmark : mark ∈ ["+- ", "\\- "]) {a : Coordinates}
    (ha : a.IsPlain) :
    ∃ words, splitOn (indent ++ mark ++ a.text) " " = words ++ [a.text] ∧ words ≠ [] ∧
      (words.length = 1 ↔ indent = "") := by
  have hspace : ' ' ∉ a.text.toList := ha.notMem_text (by simp)
  obtain ⟨m, hm, rfl⟩ : ∃ m : String, ' ' ∉ m.toList ∧ mark = m ++ " " := by
    simp only [mem_cons, not_mem_nil, or_false] at hmark
    rcases hmark with rfl | rfl
    · exact ⟨"+-", by simp, rfl⟩
    · exact ⟨"\\-", by simp, rfl⟩
  refine ⟨splitOn (indent ++ m) " ", ?_, splitOn_ne_nil _ _, ?_⟩
  · rw [← String.append_assoc, splitOn_append rfl, splitOn_of_notMem rfl hspace]
  · rcases h.last with rfl | ⟨d, rfl⟩
    · simp [@splitOn_of_notMem _ " " _ rfl hm]
    · have hpos := length_pos_iff.2 (splitOn_ne_nil d " ")
      rw [splitOn_append rfl, splitOn_of_notMem rfl hm, length_append, length_singleton]
      exact iff_of_false (by omega) (by simp)

theorem IsIndent.newline_notMem (h : IsIndent indent) (hmark : mark ∈ ["+- ", "\\- "]) {a : Coordinates}
    (ha : a.IsPlain) : '\n' ∉ (indent ++ mark ++ a.text).toList := by
  have hmark' : '\n' ∉ mark.toList := by
    simp only [mem_cons, not_mem_nil, or_false] at hmark
    rcases hmark with rfl | rfl <;> simp
  simp only [String.toList_append, mem_append, not_or]
  exact ⟨⟨fun hmem => by simpa using h.chars _ hmem, hmark'⟩, ha.notMem_text (by simp)⟩

theorem IsIndent.ofText_line (h : IsIndent indent) (hmark : mark ∈ ["+- ", "\\- "]) {a : Coordinates}
    (ha : a.IsPlain) :
    TreeLine.ofText (indent ++ mark ++ a.text) = .dependency a.name a.version (decide (indent = "")) := by
  obtain ⟨words, hwords, hne, hone⟩ := h.splitOn_line hmark ha
  have hstrip : stripOf (indent ++ mark ++ a.text) "\n" = indent ++ mark ++ a.text :=
    stripOf_eq_self fun c hc => mem_singleton.1 hc ▸ h.newline_notMem hmark ha
  have hlength := length_pos_iff.2 hne
  have htwo : (words ++ [a.text]).length = 2 ↔ indent = "" := by simp [hone]
  rw [TreeLine.ofText, hstrip, hwords, if_neg (by simp; omega), getLastD_concat, ha.splitOn_text]
  simp only [Coordinates.fields, htwo]
  rfl

/-- What is found out in the lines of a tree, in addition to what was known before. -/
def Forest.addTo (f : Forest) (top : Bool) (found : Found) : Found where
  direct := if top then found.direct.update (f.children.map Coordinates.entry) else found.direct
  all := found.all.update (f.all.map Coordinates.entry)

variable {lines : List String} {drawing : String} {c : Client} {version : Option String} {h : Host}

theorem readTree_drawn (hd : Drawn indent f lines) (hindent : IsIndent indent) (hplain : ∀ a ∈ f.all, a.IsPlain)
    (more : List String) (found : Found) :
    readTree (lines ++ more) found = readTree more (f.addTo (decide (indent = "")) found) := by
  induction hd generalizing more found with
  | nil => simp [Forest.addTo, Forest.children, Forest.all, Table.update]
  | @cons indent mark bar a below rest ls ms hmark hbar hbelow hrest ihbelow ihrest =>
    simp only [Forest.all, forall_mem_cons, forall_mem_append] at hplain
    obtain ⟨hdeep, hne⟩ := hindent.append hbar
    rw [cons_append, readTree, hindent.ofText_line hmark hplain.1]
    dsimp only
    rw [append_assoc, ihbelow hdeep hplain.2.1, ihrest hindent hplain.2.2, decide_eq_false hne]
    cases decide (indent = "") <;> simp [Forest.addTo, Forest.children, Forest.all, Table.update, Coordinates.entry]

theorem Drawn.newline_notMem (hd : Drawn indent f lines) (hindent : IsIndent indent)
    (hplain : ∀ a ∈ f.all, a.IsPlain) : ∀ l ∈ lines, '\n' ∉ l.toList := by
  induction hd with
  | nil => simp
  | cons hmark hbar _ _ ihbelow ihrest =>
    simp only [Forest.all, forall_mem_cons, forall_mem_append] at hplain ⊢
    exact ⟨hindent.newline_notMem hmark hplain.1, ihbelow (hindent.append hbar).1 hplain.2.1,
      ihrest hindent hplain.2.2⟩

theorem ofText_eq_other {s : String} (hs : ∀ c ∈ [' ', '\n'], c ∉ s.toList) : TreeLine.ofText s = .other := by
  have hstrip : stripOf s "\n" = s :=
    stripOf_eq_self fun c hc => mem_singleton.1 hc ▸ hs '\n' (by simp)
  rw [TreeLine.ofText, hstrip, splitOn_of_notMem rfl (hs ' ' (by simp))]
  rfl

theorem readTree_drawing (hplain : ∀ a ∈ f.all, a.IsPlain) (hd : IsDrawing f drawing) :
    readTree (splitOn drawing "\n") {} = f.addTo true {} := by
  obtain @⟨root, lines, ending, hroot, hlines, hending⟩ := hd
  simp only [mem_cons, not_mem_nil, or_false] at hending
  have hnewline : ∀ l ∈ root :: (lines ++ ending), '\n' ∉ l.toList := by
    rw [forall_mem_cons, forall_mem_append]
    refine ⟨hroot '\n' (by simp), hlines.newline_notMem isIndent_empty hplain, ?_⟩
    rcases hending with rfl | rfl <;> simp
  rw [splitOn_join rfl (cons_ne_nil _ _) hnewline, readTree, ofText_eq_other hroot]
  dsimp only
  rw [readTree_drawn hlines isIndent_empty hplain]
  rcases hending with rfl | rfl
  · rfl
  · rw [readTree, ofText_eq_other (by simp)]
    rfl

/-! ## Asking for dependencies -/

/-- Nothing is kept about an artifact, the tool gets its metadata and leaves a drawing in its directory, and what
is found out can be kept. -/
def Draws (c : Client) (h : Host) (name : String) (version : Option String) (drawing : String) : Prop :=
  ∃ dir looked temp started finished, (c.lookUp name version).runOn h = (.ok (some dir), looked) ∧
    (∀ flatten, looked.entry? (c.depPath dir name version flatten) = none) ∧
    (temporaryDir "get_dep-").runOn looked = (.ok temp, started) ∧
    (draw (c.metadataFile name version) temp).runOn started = (.ok (), finished) ∧
    (readText (Path.join temp "dep_tree.txt")).runOn finished = (.ok drawing, finished) ∧
    finished.entry? temp = some .directory ∧ finished.entry? dir = some .directory ∧
    ∀ flatten, finished.CanWrite (c.depPath dir name version flatten)

theorem exists_runOn_keepDeps {dir name : String} (hdir : h.entry? dir = some .directory)
    (hcan : ∀ flatten, h.CanWrite (c.depPath dir name version flatten)) {q : String}
    (hq : h.entry? q = some .directory) (f : Found) :
    ∃ kept, (c.keepDeps (some dir) name version f).runOn h = (.ok (), kept) ∧ kept.entry? q = some .directory := by
  have hmade : (ensureDirectory dir).runOn h = (.ok (), h) := by
    rw [ensureDirectory, runOn_bind (runOn_exists? dir h), hdir]
    rfl
  rw [keepDeps, runOn_bind hmade]
  split
  · have hfirst := runOn_writeText (hcan false) (Doc.obj f.direct).pretty
    have hsecond := runOn_writeText ((hcan false).put (hcan true) (Doc.obj f.direct).pretty) (Doc.obj f.all).pretty
    refine ⟨_, ?_, entry?_directory_of_runOn_write hsecond (entry?_directory_of_runOn_write hfirst hq)⟩
    rw [← depPath, ← depPath, writePretty, writePretty, runOn_bind hfirst, hsecond]
  · exact ⟨h, rfl, hq⟩

/-- An answer that is not in the cache is what is read in the drawing. -/
theorem Draws.exists_runOn (hkind : c.kind = .maven) {name drawing : String} (hd : Draws c h name version drawing)
    (flatten : Bool) :
    ∃ after, (c.dependencies name version flatten).runOn h =
      (.ok (.obj ((readTree (splitOn drawing "\n") {}).deps flatten)), after) := by
  obtain ⟨dir, looked, temp, started, finished, hlook, hnone, htemp, hdraw, hread, htree, hdir, hcan⟩ := hd
  have hresolve : (resolve (c.metadataFile name version) temp).runOn started =
      (.ok (.tree (splitOn drawing "\n")), finished) := by
    have hlines : (attempt do
        draw (c.metadataFile name version) temp
        return splitOn (← readText (Path.join temp "dep_tree.txt")) "\n").runOn started =
          (.ok (.ok (splitOn drawing "\n")), finished) := by
      refine runOn_orElse ?_ _
      rw [bind_assoc, runOn_bind hdraw, bind_assoc, runOn_bind hread]
      rfl
    rw [resolve, runOn_bind hlines]
    rfl
  obtain ⟨kept, hkept, hleft⟩ := exists_runOn_keepDeps hdir hcan htree (readTree (splitOn drawing "\n") {})
  obtain ⟨after, hafter⟩ := runOn_removeTree hleft
  refine ⟨after, ?_⟩
  rw [dependencies_eq (by simp [throughTool, hkind]), runOn_bind hlook, keptDeps,
    runOn_bind (runOn_cachedDeps_none (hnone flatten))]
  have hfound : (Client.found c.kind name <$> c.resolve name version temp).runOn started =
      (.ok (readTree (splitOn drawing "\n") {}), finished) := by
    simp only [Client.resolve, hkind]
    rw [map_eq_pure_bind, runOn_bind hresolve]
    rfl
  dsimp only
  rw [if_neg (by simp), runOn_bind htemp, runOn_bind hfound, runOn_bind hkept, runOn_bind hafter, runOn_pure]

/-- Where a tool draws a tree whose artifacts have plain coordinates, the answer is the artifacts right below
the root, or all below it, with their versions, if no two of these have the same name. -/
theorem dependencies_of_drawing {c : Client} (hkind : c.kind = .maven) {h : Host} {name drawing : String}
    {version : Option String} (hdraws : Draws c h name version drawing) {f : Forest} (hd : IsDrawing f drawing)
    (hplain : ∀ a ∈ f.all, a.IsPlain) (flatten : Bool)
    (hnames : ((if flatten then f.all else f.children).map Coordinates.name).Nodup) :
    ∃ after, (c.dependencies name version flatten).runOn h =
      (.ok (.obj ((if flatten then f.all else f.children).map Coordinates.entry)), after) := by
  obtain ⟨after, hrun⟩ := hdraws.exists_runOn hkind flatten
  refine ⟨after, hrun.trans ?_⟩
  have hself : ∀ as : List Coordinates, (as.map Coordinates.name).Nodup →
      Table.update [] (as.map Coordinates.entry) = as.map Coordinates.entry := fun as has =>
    Table.ofPairs_eq_self (by rwa [map_map])
  rw [readTree_drawing hplain hd]
  cases flatten with
  | false => rw [← hself _ hnames]; rfl
  | true => rw [← hself _ hnames]; rfl

/-- The group of the first and the own name of the second of three artifacts have a slash. -/
def slashedForest : Forest :=
  .cons ⟨"a/b", "c", "j", "1", "s"⟩ (.cons ⟨"a", "b/c", "j", "2", "s"⟩ .nil .nil) (.cons ⟨"d", "e", "j", "3", "s"⟩ .nil .nil)

def slashedDrawing : String :=
  join "\n" ("g:p" :: (["" ++ "+- " ++ "a/b:c:j:1:s", "" ++ "|  " ++ "\\- " ++ "a:b/c:j:2:s",
    "" ++ "\\- " ++ "d:e:j:3:s"] ++ [""]))

/-- A client that keeps what it finds out in one directory. -/
def pomClient : Client :=
  { kind := .maven, cacheDir := some "c", metadataFormat := some "pom", depFormat := some "json" }

/-- A host with the metadata of an artifact, whose tool draws the three artifacts. -/
def slashedHost : Host where
  root := "/w"
  cwd := "/w"
  files := [("/w/c", .directory), ("/w/c/g..p:1.metadata.pom", .file (.text "<a/>"))]
  rules := [{ start := ["mvn", "dependency:tree"], files := [("dep_tree.txt", .text slashedDrawing)] }]

/-- Where answers are kept, whether some are, and what the drawing is. -/
def lookAtDrawing : Job (Option String × List Bool × String × List Bool) := do
  let dir ← pomClient.lookUp "g/p" (some "1")
  let direct ← exists? (pomClient.depPath "c" "g/p" (some "1") false)
  let all ← exists? (pomClient.depPath "c" "g/p" (some "1") true)
  let temp ← temporaryDir "get_dep-"
  draw (pomClient.metadataFile "g/p" (some "1")) temp
  let drawing ← readText (Path.join temp "dep_tree.txt")
  let h ← get
  return (dir, [direct, all], drawing, [(h.entry? temp).any Entry.isDirectory, (h.entry? "c").any Entry.isDirectory,
    decide (h.CanWrite (pomClient.depPath "c" "g/p" (some "1") false)),
    decide (h.CanWrite (pomClient.depPath "c" "g/p" (some "1") true))])

theorem draws_slashed : Draws pomClient slashedHost "g/p" (some "1") slashedDrawing := by
  obtain ⟨seen, hseen⟩ : ∃ h', lookAtDrawing.runOn slashedHost =
      (.ok (some "c", [false, false], slashedDrawing, [true, true, true, true]), h') :=
    exists_runOn (by decide +kernel)
  obtain ⟨dir, looked, hlook, hseen⟩ := exists_of_runOn_bind hseen
  rw [runOn_bind (runOn_exists? _ looked), runOn_bind (runOn_exists? _ looked)] at hseen
  obtain ⟨temp, started, htemp, hseen⟩ := exists_of_runOn_bind hseen
  obtain ⟨⟨⟩, finished, hdraw, hseen⟩ := exists_of_runOn_bind hseen
  obtain ⟨drawing, read, hread, hlast⟩ := exists_of_runOn_bind hseen
  obtain rfl : read = finished := by simpa [hread] using readsOnly_readText (Path.join temp "dep_tree.txt") finished
  simp only [runOn_bind (runOn_get read), runOn_pure, Prod.mk.injEq, Except.ok.injEq,
    List.cons.injEq, and_true, Entry.any_isDirectory_iff, decide_eq_true_eq] at hlast
  obtain ⟨⟨rfl, ⟨hdirect, hall⟩, rfl, htree, hdir, hcan, hcanAll⟩, -⟩ := hlast
  exact ⟨"c", looked, temp, started, read, hlook, by simpa using And.intro hdirect hall, htemp, hdraw, hread, htree,
    hdir, by simpa using And.intro hcan hcanAll⟩

theorem isDrawing_slashed : IsDrawing slashedForest slashedDrawing :=
  .mk (by simp) (.cons (by simp) (mem_cons_self ..) (.cons (by simp) (mem_cons_self ..) .nil .nil)
    (.cons (by simp) (mem_cons_self ..) .nil .nil)) (by simp)

theorem isPlain_slashed : ∀ a ∈ slashedForest.all, a.IsPlain := by
  simp [slashedForest, Forest.all, Coordinates.IsPlain, Coordinates.fields]

/-- The artifacts right below the root have different names. -/
theorem dependencies_of_slashed :
    pomClient.kind = .maven ∧ Draws pomClient slashedHost "g/p" (some "1") slashedDrawing ∧
    IsDrawing slashedForest slashedDrawing ∧ (∀ a ∈ slashedForest.all, a.IsPlain) ∧
    (slashedForest.children.map Coordinates.name).Nodup ∧
    ∃ after, (pomClient.dependencies "g/p" (some "1")).runOn slashedHost =
      (.ok (.obj [("a/b/c", .str "1"), ("d/e", .str "3")]), after) := by
  have hnames : (slashedForest.children.map Coordinates.name).Nodup := by decide +kernel
  obtain ⟨after, hrun⟩ := dependencies_of_drawing rfl draws_slashed isDrawing_slashed isPlain_slashed false hnames
  exact ⟨rfl, draws_slashed, isDrawing_slashed, isPlain_slashed, hnames, after, hrun⟩

/-- Of two artifacts with one name only the later is in the answer. -/
theorem dependencies_lack_slashed :
    Draws pomClient slashedHost "g/p" (some "1") slashedDrawing ∧ IsDrawing slashedForest slashedDrawing ∧
    (∀ a ∈ slashedForest.all, a.IsPlain ∧ ∀ s ∈ a.fields, s ≠ "") ∧
    (slashedForest.all.map fun a => (a.group, a.own)).Nodup ∧
    ∃ after, (pomClient.dependencies "g/p" (some "1") true).runOn slashedHost =
      (.ok (.obj [("a/b/c", .str "2"), ("d/e", .str "3")]), after) ∧
      slashedForest.all.map Coordinates.entry = [("a/b/c", .str "1"), ("a/b/c", .str "2"), ("d/e", .str "3")] := by
  refine ⟨draws_slashed, isDrawing_slashed, fun a ha => ⟨isPlain_slashed a ha, ?_⟩, by decide +kernel, ?_⟩
  · revert a
    simp [slashedForest, Forest.all, Coordinates.fields]
  obtain ⟨after, hrun⟩ := draws_slashed.exists_runOn rfl true
  rw [readTree_drawing isPlain_slashed isDrawing_slashed] at hrun
  exact ⟨after, hrun, rfl⟩

end Registry.Maven

end Vetting
