import Vetting.Proofs.Calls.Python
import Vetting.Proofs.Table

/-!
# What a called name was imported as

The walk keeps local names with the imported names, and imported names with the modules, and in both tables
the first entry stays.
-/

namespace Vetting.Calls.Python

open List Option

structure Binding where
  module : Option String
  name : String
  /-- The other name that is given to it. -/
  other : Option String
deriving DecidableEq

namespace Binding

/-- The name that is bound in the importing module. -/
def localName (b : Binding) : String := b.other.getD b.name

def of? (module : Option String) (t : ModuleTree) : Option Binding :=
  (t.wordOf? "name").map fun name => { module, name, other := t.wordOf? "asname" }

end Binding

variable (ns : List ModuleTree)

/-- The names that nodes bind by imports from modules, in order. -/
def bindings : List Binding :=
  (ns.filter (kindOf · = "ImportFrom")).flatMap fun t =>
    (t.itemsOf "names").filterMap (Binding.of? (t.wordOf? "module"))

def firstModule? (bs : List Binding) (name : String) : Option (Option String) :=
  (bs.find? (·.name = name)).map Binding.module

/-- The name that a node calls, if it calls a plain name. -/
def calledName? (n : ModuleTree) : Option String :=
  (n.field? "func").bind fun func => if kindOf func = "Name" then func.wordOf? "id" else none

/-! ## The two tables -/

namespace Imports

def note (i : Imports) (b : Binding) : Imports :=
  { modules := i.modules.setDefault b.name b.module
    aliases := match b.other with
      | none => i.aliases
      | some other => i.aliases.setDefault other b.name }

theorem add_eq_foldl_note (i : Imports) (t : ModuleTree) :
    i.add t = ((t.itemsOf "names").filterMap (Binding.of? (t.wordOf? "module"))).foldl note i := by
  rw [add, foldl_filterMap]
  congr 1
  funext i a
  rw [addName, Binding.of?]
  cases a.wordOf? "name" with
  | none => rfl
  | some name => cases hother : a.wordOf? "asname" <;> simp [note]

variable (bs : List Binding) (i : Imports) (x : String)

theorem get?_modules_foldl_note : (bs.foldl note i).modules.get? x = (i.modules.get? x).or (firstModule? bs x) := by
  induction bs generalizing i with
  | nil => simp [firstModule?]
  | cons b bs ih =>
    rw [foldl_cons, ih, note, Table.get?_setDefault, Option.or_assoc]
    congr 1
    by_cases h : b.name = x <;> simp [firstModule?, h]

theorem get?_aliases_foldl_note : (bs.foldl note i).aliases.get? x =
      (i.aliases.get? x).or ((bs.find? (·.other = some x)).map Binding.name) := by
  induction bs generalizing i with
  | nil => simp
  | cons b bs ih =>
    rw [foldl_cons, ih, note]
    cases hother : b.other with
    | none => simp [hother]
    | some other =>
      simp only [Table.get?_setDefault, Option.or_assoc]
      congr 1
      by_cases h : other = x <;> simp [hother, h]

end Imports

theorem importsOf_eq_foldl_note : importsOf ns = (bindings ns).foldl Imports.note {} := by
  have hfold : ∀ i : Imports, ns.foldl noteImport i = (bindings ns).foldl Imports.note i := by
    induction ns with
    | nil => exact fun _ => rfl
    | cons t ns ih =>
      intro i
      rw [foldl_cons, ih, noteImport]
      by_cases h : kindOf t = "ImportFrom" <;> simp [bindings, h, Imports.add_eq_foldl_note]
  exact hfold {}

theorem bindings_append (ms : List ModuleTree) : bindings (ns ++ ms) = bindings ns ++ bindings ms := by
  simp [bindings]

section LocalName

variable {bs : List Binding} {b : Binding}

theorem find?_other (hb : b ∈ bs) (honce : ∀ c ∈ bs, c.localName = b.localName → c = b) :
    ((bs.find? (·.other = some b.localName)).map Binding.name).getD b.localName = b.name := by
  cases hfind : bs.find? (·.other = some b.localName) with
  | some c =>
    have hother : c.other = some b.localName := by simpa using find?_some hfind
    have hlocal : c.localName = b.localName := by rw [Binding.localName, hother, getD_some]
    rw [honce c (mem_of_find?_eq_some hfind) hlocal]
    rfl
  | none =>
    have hnone : b.other ≠ some b.localName := by simpa using find?_eq_none.1 hfind b hb
    cases hother : b.other with
    | none => simp [Binding.localName, hother]
    | some other => simp [Binding.localName, hother] at hnone

theorem exists_firstModule? (hb : b ∈ bs) : ∃ m, firstModule? bs b.name = some m := by
  have hsome : (bs.find? (·.name = b.name)).isSome := find?_isSome.2 ⟨b, hb, by simp⟩
  obtain ⟨d, hd⟩ := isSome_iff_exists.1 hsome
  exact ⟨d.module, by rw [firstModule?, hd, map_some]⟩

theorem firstModule?_append (hb : b ∈ bs) (cs : List Binding) :
    firstModule? (bs ++ cs) b.name = firstModule? bs b.name := by
  obtain ⟨m, hm⟩ := exists_firstModule? hb
  rw [firstModule?, map_eq_some_iff] at hm
  obtain ⟨d, hd, -⟩ := hm
  rw [firstModule?, firstModule?, find?_append, hd, some_or]

theorem resolve_importsOf {ns : List ModuleTree} (hb : b ∈ bindings ns)
    (honce : ∀ c ∈ bindings ns, c.localName = b.localName → c = b) :
    (importsOf ns).resolve b.localName = ((firstModule? (bindings ns) b.name).getD none, b.name) := by
  have hname : ((importsOf ns).aliases.get? b.localName).getD b.localName = b.name := by
    rw [importsOf_eq_foldl_note, Imports.get?_aliases_foldl_note]
    exact find?_other hb honce
  rw [Imports.resolve, hname, importsOf_eq_foldl_note, Imports.get?_modules_foldl_note]
  rfl

end LocalName

variable {source : List Char} {n : ModuleTree}

theorem target_of_calledName {i : Imports} {x : String} (h : calledName? n = some x) :
    target source i ((n.field? "func").getD .empty) = i.resolve x := by
  rw [calledName?, bind_eq_some_iff] at h
  obtain ⟨func, hfunc, hx⟩ := h
  by_cases hkind : kindOf func = "Name"
  · rw [if_pos hkind] at hx
    rw [hfunc, getD_some, target, if_neg (by rw [hkind]; decide), if_pos hkind, hx]
    rfl
  · rw [if_neg hkind] at hx
    cases hx

/-! ## A module that begins with imports -/

/-- A call is reported under the imported name and the first module of that name. -/
def Resolves (bs : List Binding) (n : ModuleTree) (c : Call) : Prop :=
  ∀ b ∈ bs, calledName? n = some b.localName → c.name = b.name ∧ firstModule? bs b.name = some c.base ∧
      (c.base = b.module ↔ firstModule? bs b.name = some b.module)

theorem resolves_of_callOf {before between : List ModuleTree} {c : Call}
    (hnodup : ((bindings before).map Binding.localName).Nodup)
    (hagain : ∀ b ∈ bindings before, ∀ d ∈ bindings between, d.localName ≠ b.localName)
    (hc : callOf source (importsOf (before ++ between)) n = .ok c) : Resolves (bindings before) n c := by
  intro b hb hcalled
  have hmem : b ∈ bindings (before ++ between) := by
    rw [bindings_append]
    exact mem_append_left _ hb
  have honce : ∀ d ∈ bindings (before ++ between), d.localName = b.localName → d = b := by
    intro d hd hlocal
    rw [bindings_append, mem_append] at hd
    rcases hd with hd | hd
    · exact inj_on_of_nodup_map hnodup hd hb hlocal
    · exact absurd hlocal (hagain b hb d hd)
  obtain ⟨m, hm⟩ := exists_firstModule? hb
  have hresolve : (importsOf (before ++ between)).resolve b.localName = (m, b.name) := by
    rw [resolve_importsOf hmem honce, bindings_append, firstModule?_append hb, hm, getD_some]
  rw [callOf] at hc
  split at hc
  · rw [target_of_calledName hcalled, hresolve] at hc
    obtain rfl := Except.ok.inj hc
    exact ⟨rfl, hm, by rw [hm, some_inj]⟩
  · cases hc

/-- The calls of the second part of a walk are resolved by the imports of the first, if those bind different
names that the second does not bind again. -/
theorem resolves_of_foldlM {before later : List ModuleTree} {g : Gathered}
    (hnodup : ((bindings before).map Binding.localName).Nodup)
    (hagain : ∀ b ∈ bindings before, ∀ d ∈ bindings later, d.localName ≠ b.localName)
    (h : (before ++ later).foldlM (enter source (.ofConfig? none)) {} = .ok g) :
    ∃ earlyCalls laterCalls, g.calls = earlyCalls ++ laterCalls ∧
      List.Forall₂ (Resolves (bindings before)) (later.filter isCall) laterCalls := by
  rw [foldlM_append, bind_eq_ok_iff] at h
  obtain ⟨g₁, hbefore, hlater⟩ := h
  have himports : g₁.imports = importsOf before :=
    foldlM_invariant_from (fun ns g => g.imports = importsOf ns)
      (fun ns t g g' hg ht => (enter_step ns t g g' hg ht).1) [] rfl hbefore
  -- each later call is resolved by the imports of the first part and some nodes of the second
  obtain ⟨new, hnew, hall⟩ := Tree.foldlM_reports Gathered.calls (fun ns g => g.imports = importsOf (before ++ ns))
    (fun ns n c => callOf source (importsOf (before ++ ns)) n = .ok c)
    (fun ns t g g' hg ht => by simpa using enter_step (before ++ ns) t g g' hg ht)
    [] (by simpa using himports) hlater
  refine ⟨g₁.calls, new, hnew, hall.imp ?_⟩
  rintro n c ⟨between, rest, hsplit, hc⟩
  refine resolves_of_callOf hnodup (fun b hb d hd => hagain b hb d ?_) hc
  rw [nil_append] at hsplit
  rw [hsplit, bindings_append]
  exact mem_append_left _ hd

/-- A module begins with imports that bind different names, none of which is bound again. If each call has a place
in the source, each later call of such a local name is reported under the imported name and the module that
this name was first imported from, which is the right one just if both are the same. -/
theorem gather_resolves_imports (source : List Char) (info : Info) (first rest : List ModuleTree)
    (more : List (String × ModuleTree)) (hkind : info.kind = "Module")
    (hnodup : ((bindings (Tree.nodesOfItems first)).map Binding.localName).Nodup)
    (hagain : ∀ b ∈ bindings (Tree.nodesOfItems first),
      ∀ d ∈ bindings (Tree.nodesOfItems rest ++ Tree.nodesOfFields more), d.localName ≠ b.localName) :
    let t : ModuleTree := .node info (("body", .list (first ++ rest)) :: more)
    ((∃ g, gather source (.ofConfig? none) t = .ok g) ↔ ∀ n ∈ t.nodes.filter isCall, HasPlace n) ∧
    ∀ g, gather source (.ofConfig? none) t = .ok g → ∃ earlyCalls laterCalls, g.calls = earlyCalls ++ laterCalls ∧
        List.Forall₂ (Resolves (bindings (Tree.nodesOfItems first)))
          ((Tree.nodesOfItems rest ++ Tree.nodesOfFields more).filter isCall) laterCalls := by
  intro t
  have hnodes : t.nodes = (t :: Tree.nodesOfItems first) ++ (Tree.nodesOfItems rest ++ Tree.nodesOfFields more) := by
    rw [Tree.nodes, Tree.nodesOfFields, Tree.nodes, Tree.nodesOfItems_append]
    simp [t]
  have hbindings : bindings (t :: Tree.nodesOfItems first) = bindings (Tree.nodesOfItems first) := by
    simp [bindings, t, kindOf, Tree.info?, hkind]
  simp only [gather_eq_foldlM]
  constructor
  · simp only [foldlM_isOk_iff enter_isOk_iff, mem_filter, and_imp]
  · intro g hg
    rw [hnodes] at hg
    rw [← hbindings] at hnodup hagain ⊢
    exact resolves_of_foldlM hnodup hagain hg

/-- An import of `f` under another name, on a line of its own. -/
def importAs (line : Int) (module other : String) : ModuleTree :=
  .node { kind := "ImportFrom", line := line } [("module", .word module), ("names", .list [
    .node { kind := "alias", line := line } [("name", .word "f"), ("asname", .word other)]]),
    ("level", .number 0)]

/-- The call `h()` on the third line of the text below. -/
def callOfOther : ModuleTree :=
  .node { kind := "Expr", line := 3 } [("value", .node
    { kind := "Call", line := 3, text := some (42, 45), start := some ⟨3, 0⟩, finish := some ⟨3, 3⟩ } [
      ("func", .node { kind := "Name", line := 3, text := some (42, 43) } [("id", .word "h")])])]

/-- The text of a module that imports two functions of one name. -/
def twoImportsText : List Char := "from a import f as g\nfrom b import f as h\nh()\n".toList

def twoImportsGathered : Gathered :=
  { imports := { modules := [("f", some "a")], aliases := [("g", "f"), ("h", "f")] }
    calls := [{ base := some "a", name := "f", args := [], text := "h()", start := ⟨3, 0⟩,
                finish := ⟨3, 3⟩ }] }

/-- The import that binds `h` is the second, and its function is reported with the first module. -/
theorem gather_resolves_imports_two :
    ((bindings (Tree.nodesOfItems [importAs 1 "a" "g", importAs 2 "b" "h"])).map Binding.localName).Nodup ∧
    (∀ b ∈ bindings (Tree.nodesOfItems [importAs 1 "a" "g", importAs 2 "b" "h"]),
      ∀ d ∈ bindings (Tree.nodesOfItems [callOfOther] ++ Tree.nodesOfFields []), d.localName ≠ b.localName) ∧
    ∃ earlyCalls laterCalls, twoImportsGathered.calls = earlyCalls ++ laterCalls ∧ List.Forall₂
        (Resolves (bindings (Tree.nodesOfItems [importAs 1 "a" "g", importAs 2 "b" "h"])))
        ((Tree.nodesOfItems [callOfOther] ++ Tree.nodesOfFields []).filter isCall) laterCalls := by
  have hnodup : ((bindings (Tree.nodesOfItems [importAs 1 "a" "g", importAs 2 "b" "h"])).map
      Binding.localName).Nodup := by decide
  have hagain : ∀ b ∈ bindings (Tree.nodesOfItems [importAs 1 "a" "g", importAs 2 "b" "h"]),
      ∀ d ∈ bindings (Tree.nodesOfItems [callOfOther] ++ Tree.nodesOfFields []),
        d.localName ≠ b.localName := by decide
  exact ⟨hnodup, hagain, (gather_resolves_imports twoImportsText { kind := "Module" } _ _ [] rfl
    hnodup hagain).2 twoImportsGathered (eq_ok_of_toOption (by decide +kernel))⟩

/-- The import that bound `h` is of `b`, and the call of `h` is reported with another module. -/
theorem gather_twoImports_wrong_module : gather twoImportsText (.ofConfig? none) (.node { kind := "Module" }
      [("body", .list ([importAs 1 "a" "g", importAs 2 "b" "h"] ++ [callOfOther]))]) =
      .ok twoImportsGathered ∧
    (⟨some "b", "f", some "h"⟩ : Binding) ∈ bindings (Tree.nodesOfItems [importAs 1 "a" "g", importAs 2 "b" "h"]) ∧
    twoImportsGathered.calls.map Call.base ≠ [some "b"] :=
  ⟨eq_ok_of_toOption (by decide +kernel), by decide, by decide⟩

end Vetting.Calls.Python
