import Vetting.Analysis.Uses
import Vetting.Proofs.Calls.Filter
import Vetting.Proofs.Table

/-!
# Functions recognised by their partial names

The filter goes by the base type of a function, the walk by the base of a call, and the verdict by whether a
full name differs from the name. They agree.
-/

namespace Vetting

open List

namespace Api

/-- The functions of a partial name, as they are entered one after another. -/
theorem get?_foldl_partialName (apis : List Node) (t : Table String (List String)) (k : String) :
    (apis.foldl (fun t n => t.modify n.partialName [] (· ++ [n.fullName])) t).get? k =
      if apis.any (·.partialName = k) then
        some ((t.get? k).getD [] ++ (apis.filter (·.partialName = k)).map (·.fullName))
      else t.get? k := by
  induction apis generalizing t with
  | nil => simp
  | cons n apis ih =>
    rw [foldl_cons, ih, Table.get?_modify]
    by_cases hn : n.partialName = k
    · subst hn
      by_cases hrest : apis.any (·.partialName = n.partialName) = true
      · simp [hrest]
      · have hnone : ∀ m ∈ apis, m.partialName ≠ n.partialName := by simpa using hrest
        have hfilter : apis.filter (fun m => decide (m.partialName = n.partialName)) = [] := by
          simpa using hnone
        simp [hrest, hfilter]
    · simp [hn]

theorem get?_fullNames (apis : List Node) (k : String) : (fullNames apis).get? k =
      if apis.any (·.partialName = k) then
        some ((apis.filter (·.partialName = k)).map (·.fullName))
      else none := by
  simpa [fullNames] using get?_foldl_partialName apis [] k

theorem usedBy_of_partial {p : PackageReport} (hmode : p.settings.funcOnly = true)
    (hfound : ∀ u ∈ p.uses, ∃ a ∈ p.settings.apis, a.partialName = u.partialName) :
    ∃ names, usedBy p = .ok names ∧ ∀ s, s ∈ names ↔
      ∃ a ∈ p.settings.apis, a.fullName = s ∧ ∃ u ∈ p.uses, a.partialName = u.partialName := by
  let named (u : Node) : List String :=
    (p.settings.apis.filter (·.partialName = u.partialName)).map (·.fullName)
  have hget : ∀ u ∈ p.uses, (fullNames p.settings.apis).get? u.partialName = some (named u) := by
    intro u hu
    have hany : p.settings.apis.any (·.partialName = u.partialName) = true := by
      simpa using hfound u hu
    rw [get?_fullNames, if_pos hany]
  refine ⟨(p.uses.map named).flatten, ?_, ?_⟩
  · simp only [usedBy, hmode, if_true]
    rw [mapM_eq_ok (r := named) fun u hu => by rw [hget u hu]]
    rfl
  · intro s
    simp only [named, mem_flatten, mem_map, exists_exists_and_eq_and, mem_filter, decide_eq_true_eq]
    constructor
    · rintro ⟨u, hu, a, ⟨ha, hpartial⟩, hname⟩
      exact ⟨a, ha, hname, u, hu, hpartial⟩
    · rintro ⟨a, ha, hname, u, hu, hpartial⟩
      exact ⟨u, hu, a, ⟨ha, hpartial⟩, hname⟩

/-! ## Formulas ask for no key -/

/-- A step does not stop for a key that a table lacks. -/
def FindsKeys {α : Type} (x : Except Fault α) : Prop := ∀ k, x ≠ .error (.missingKey k)

theorem findsKeys_ok {α : Type} (a : α) : FindsKeys (.ok a : Except Fault α) := nofun

theorem findsKeys_cause {α : Type} (c : Cause) : FindsKeys (.error (.cause c) : Except Fault α) :=
  nofun

theorem FindsKeys.bind {α β : Type} {x : Except Fault α} {k : α → Except Fault β} (hx : FindsKeys x)
    (hk : ∀ a, FindsKeys (k a)) : FindsKeys (x >>= k) := by
  cases x with
  | ok a => exact hk a
  | error f => exact fun k h => hx k (congrArg Except.error (Except.error.inj h))

theorem FindsKeys.map {α β : Type} {x : Except Fault α} (hx : FindsKeys x) (r : α → β) : FindsKeys (x.map r) := by
  cases x with
  | ok a => exact findsKeys_ok _
  | error f => exact fun k h => hx k (congrArg Except.error (Except.error.inj h))

namespace Expr

theorem findsKeys_nameValue (cs : List Char) : FindsKeys (nameValue cs) := by
  rw [nameValue]
  split_ifs
  · exact findsKeys_ok _
  · exact findsKeys_ok _
  · exact findsKeys_ok _
  · exact findsKeys_cause _

theorem findsKeys_bitwise (op : Operator) (v w : Value) : FindsKeys (bitwise op v w) := by
  rw [bitwise.eq_def]
  split
  · exact findsKeys_ok _
  · exact findsKeys_cause _

variable (used : List Int)

mutual

theorem findsKeys_eval : (e : Expr) → FindsKeys (eval used e)
  | .member n => findsKeys_ok _
  | .name cs => findsKeys_nameValue cs
  | .tuple es => by
    rw [eval]
    exact (findsKeys_evalAll es).map _
  | .call f args => by
    rw [eval]
    exact (findsKeys_eval f).bind fun _ => (findsKeys_evalAll args).bind fun _ => findsKeys_cause _
  | .not e => by
    rw [eval]
    exact (findsKeys_eval e).map _
  | .binary op a b => by
    have ha := findsKeys_eval a
    have hb := findsKeys_eval b
    cases op with
    | and =>
      rw [eval]
      refine ha.bind fun v => ?_
      split
      · exact hb
      · exact findsKeys_ok v
    | or =>
      rw [eval]
      refine ha.bind fun v => ?_
      split
      · exact findsKeys_ok v
      · exact hb
    | bitOr | bitXor | bitAnd =>
      rw [eval]
      · exact ha.bind fun v => hb.bind fun w => findsKeys_bitwise _ v w
      all_goals nofun
  | .compare first rest => by
    rw [eval]
    exact (findsKeys_eval first).bind fun v => findsKeys_evalChain v rest

theorem findsKeys_evalAll : (es : List Expr) → FindsKeys (evalAll used es)
  | [] => findsKeys_ok _
  | e :: es => by
    rw [evalAll]
    exact (findsKeys_eval e).bind fun _ => (findsKeys_evalAll es).bind fun _ => findsKeys_ok _

theorem findsKeys_evalChain : (v : Value) → (rest : List (Bool × Expr)) → FindsKeys (evalChain used v rest)
  | _, [] => findsKeys_ok _
  | v, (wantEqual, e) :: rest => by
    rw [evalChain]
    refine (findsKeys_eval e).bind fun w => ?_
    dsimp only
    split
    · exact findsKeys_ok _
    · exact findsKeys_evalChain w rest

end

end Expr

theorem findsKeys_evalText (used : List Int) (text : String) : FindsKeys (evalText used text) := by
  rw [evalText]
  split
  · exact findsKeys_cause _
  · split
    · exact findsKeys_cause _
    · exact Expr.findsKeys_eval used _

end Api

/-! ## Bases of calls -/

namespace Calls

variable {f : Filter} {calls : List Call} {c : Call} {new : Bool}

theorem Filter.forall_kept_concat {P : Call → Prop} (hcalls : ∀ d ∈ calls, f.keeps d = true ∧ P d) (hc : P c) :
    ∀ d ∈ (if f.keeps c then calls ++ [c] else calls), f.keeps d = true ∧ P d := by
  split
  case isTrue hkeep =>
    intro d hd
    rcases mem_append.1 hd with hd | hd
    · exact hcalls d hd
    · obtain rfl := mem_singleton.1 hd
      exact ⟨hkeep, hc⟩
  case isFalse => exact hcalls

namespace Python

/-- Whether the texts are there that a node can give to the base of a call. -/
def HasTexts (source : List Char) (n : ModuleTree) : Prop :=
  (kindOf n = "Attribute" → textOf source ((n.field? "value").getD .empty) ≠ "") ∧
  (kindOf n = "Name" → (n.wordOf? "id").getD "" ≠ "") ∧
  (kindOf n = "ImportFrom" → n.wordOf? "module" ≠ some "")

instance (source : List Char) (n : ModuleTree) : Decidable (HasTexts source n) :=
  inferInstanceAs (Decidable ((_ → _ ≠ _) ∧ (_ → _ ≠ _) ∧ (_ → _ ≠ _)))

def Imports.NoEmpty (i : Imports) : Prop := ∀ name, i.modules.get? name ≠ some (some "")

variable {source : List Char} {i : Imports} {t n : ModuleTree}

theorem Imports.NoEmpty.addName {m : Option String} (hm : m ≠ some "") (hi : i.NoEmpty)
    (n : ModuleTree) : (i.addName m n).NoEmpty := by
  have hset : ∀ name j, (i.modules.setDefault name m).get? j ≠ some (some "") := by
    intro name j
    rw [Table.get?_setDefault]
    cases hj : i.modules.get? j with
    | none =>
      rw [Option.none_or]
      split
      · exact fun h => hm (Option.some.inj h)
      · nofun
    | some m' =>
      rw [Option.some_or, ← hj]
      exact hi j
  rw [Imports.addName]
  split
  · exact hi
  · dsimp only
    split <;> exact hset _

theorem Imports.NoEmpty.add (hi : i.NoEmpty) (hm : t.wordOf? "module" ≠ some "") : (i.add t).NoEmpty := by
  rw [Imports.add]
  generalize t.itemsOf "names" = names
  induction names generalizing i with
  | nil => exact hi
  | cons n names ih => exact ih (hi.addName hm n)

theorem Imports.NoEmpty.base_resolve (hi : i.NoEmpty) (name : String) : (i.resolve name).1 ≠ some "" := by
  rw [Imports.resolve]
  cases hget : i.modules.get? ((i.aliases.get? name).getD name) with
  | none => simp
  | some m =>
    have := hi ((i.aliases.get? name).getD name)
    simpa [hget] using this

theorem exists_info_of_kind (h : kindOf t ≠ "") : ∃ i, t.info? = some i := by
  cases hi : t.info? with
  | none => simp [kindOf, hi] at h
  | some i => exact ⟨i, rfl⟩

theorem base_target_ne_empty (hi : i.NoEmpty) (htexts : ∀ n ∈ t.nodes, HasTexts source n) :
    (target source i t).1 ≠ some "" := by
  rw [target]
  split
  case isTrue hkind =>
    obtain ⟨info, hinfo⟩ := exists_info_of_kind (t := t) (by rw [hkind]; decide)
    have hvalue := (htexts t (Tree.mem_nodes_self hinfo)).1 hkind
    dsimp only
    split
    case isTrue hname =>
      obtain ⟨j, hj⟩ := exists_info_of_kind (t := (t.field? "value").getD .empty) (by rw [hname]; decide)
      have hmem := Tree.nodes_field_subset t "value" (Tree.mem_nodes_self hj)
      exact fun h => (htexts _ hmem).2.1 hname (Option.some.inj h)
    case isFalse => exact fun h => hvalue (Option.some.inj h)
  case isFalse => split <;> exact hi.base_resolve _

theorem base_callOf_ne_empty (hi : i.NoEmpty) (htexts : ∀ n ∈ t.nodes, HasTexts source n)
    (hc : callOf source i t = .ok c) : c.base ≠ some "" := by
  rw [callOf] at hc
  split at hc
  · obtain rfl := Except.ok.inj hc
    exact base_target_ne_empty hi fun n hn => htexts n (Tree.nodes_field_subset t "func" hn)
  · cases hc

theorem gather_keeps {g : Gathered} (htexts : ∀ n ∈ t.nodes, HasTexts source n) (hg : gather source f t = .ok g) :
    ∀ c ∈ g.calls, f.keeps c = true ∧ c.base ≠ some "" := by
  rw [gather_eq_foldlM] at hg
  have hinitial : Imports.NoEmpty {} := fun _ => by simp
  refine (foldlM_invariant (fun g : Gathered => g.imports.NoEmpty ∧
    ∀ c ∈ g.calls, f.keeps c = true ∧ c.base ≠ some "") ?_ ⟨hinitial, by simp⟩ hg).2
  rintro n hn g g' ⟨hi, hcalls⟩ hstep
  rw [enter_of_filter] at hstep
  split at hstep
  case isTrue =>
    obtain ⟨c, hc, rfl⟩ := map_eq_ok_iff.1 hstep
    have hbase := base_callOf_ne_empty hi (fun m hm => htexts m (Tree.nodes_subset_of_mem t hn hm)) hc
    have hkept := Filter.forall_kept_concat hcalls hbase
    split
    case isTrue hkeep => exact ⟨hi, by rwa [if_pos hkeep] at hkept⟩
    case isFalse => exact ⟨hi, hcalls⟩
  case isFalse =>
    obtain rfl := Except.ok.inj hstep
    refine ⟨?_, hcalls⟩
    rw [noteImport]
    split
    case isTrue himport => exact hi.add ((htexts n hn).2.2 himport)
    case isFalse => exact hi

end Python

namespace JavaScript

/-- Whether the text before the dot of a member is there. -/
def HasTexts (source : List Char) (n : ScriptTree) : Prop :=
  n.info?.map Info.type = some "MemberExpression" →
    (nameOrText source ((n.field? "object").getD .empty)).toOption ≠ some ""

instance (source : List Char) (n : ScriptTree) : Decidable (HasTexts source n) :=
  inferInstanceAs (Decidable (_ = _ → _ ≠ _))

variable {source : List Char} {t n : ScriptTree}

theorem base_target_ne_empty (htexts : ∀ n ∈ t.nodes, HasTexts source n) {base : Option String} {name : String}
    (h : target source new t = .ok (base, name)) : base ≠ some "" := by
  rw [target] at h
  split at h
  · cases h
    exact (Option.some_ne_none _).symm
  · split at h
    case isTrue hkind =>
      simp only [Bool.and_eq_true, decide_eq_true_eq] at hkind
      obtain ⟨i, hi, -⟩ := Option.map_eq_some_iff.1 hkind.2
      have hobject := htexts t (Tree.mem_nodes_self hi) hkind.2
      obtain ⟨property, -, h⟩ := bind_eq_ok_iff.1 h
      obtain ⟨object, ho, h⟩ := bind_eq_ok_iff.1 h
      cases h
      rintro ⟨⟩
      exact hobject (by rw [ho]; rfl)
    case isFalse =>
      obtain ⟨text, -, h⟩ := bind_eq_ok_iff.1 h
      cases h
      decide

theorem base_callOf_ne_empty (htexts : ∀ n ∈ t.nodes, HasTexts source n) (hc : callOf source new t = .ok c) :
    c.base ≠ some "" := by
  rw [callOf] at hc
  obtain ⟨⟨base, name⟩, htarget, hc⟩ := bind_eq_ok_iff.1 hc
  obtain ⟨args, -, hc⟩ := bind_eq_ok_iff.1 hc
  obtain ⟨text, -, hc⟩ := bind_eq_ok_iff.1 hc
  have hbase : base ≠ some "" :=
    base_target_ne_empty (fun n hn => htexts n (Tree.nodes_field_subset t "callee" hn)) htarget
  split at hc
  · cases hc
    exact hbase
  · cases hc

theorem gather_keeps (htexts : ∀ n ∈ t.nodes, HasTexts source n) (hg : gather source f t = .ok calls) :
    ∀ c ∈ calls, f.keeps c = true ∧ c.base ≠ some "" := by
  rw [gather, Tree.walk_eq_foldlM] at hg
  refine foldlM_invariant (fun calls : List Call =>
    ∀ c ∈ calls, f.keeps c = true ∧ c.base ≠ some "") ?_ (by simp) hg
  intro n hn calls calls' hcalls hstep
  have hmem : n ∈ t.nodes := (Tree.entered_sublist isSkipped t).subset hn
  rw [enter_of_filter] at hstep
  split at hstep
  case isTrue =>
    obtain ⟨c, hc, rfl⟩ := map_eq_ok_iff.1 hstep
    have hbase := base_callOf_ne_empty (fun m hm => htexts m (Tree.nodes_subset_of_mem t hmem hm)) hc
    exact Filter.forall_kept_concat hcalls hbase
  case isFalse =>
    obtain rfl := Except.ok.inj hstep
    exact hcalls

end JavaScript

end Calls

/-! ## The verdict on reported uses -/

namespace Analysis

open Api Calls

theorem partialName_useOf (info : FileInfo) {c : Call} (hbase : c.base ≠ some "") :
    (useOf info c).partialName = c.bareName := by
  rw [Node.partialName, useOf, Call.fullName, Call.bareName]
  cases hb : c.base with
  | none => simp
  | some b =>
    have hne : b ≠ "" := fun h => hbase (by rw [hb, h])
    have hlonger : b ++ "." ++ c.name ≠ c.name := by
      intro h
      have hlength := congrArg String.length h
      simp only [String.length_append] at hlength
      have hdot : ".".length = 1 := rfl
      omega
    simp [hlonger, hne]

/-- Uses count for the functions that go by the partial name of a call, and there is a verdict. -/
def CountsFor (s : Config) (calls : List Call) (r : Report) : Prop :=
  (∃ names, usedInAll [r] = .ok names ∧ verdict [r] = evalText (usedIds s names) s.formula ∧
    ∀ n, n ∈ names ↔ ∃ a ∈ s.apis, a.fullName = n ∧
      ∃ c ∈ calls, (if a.baseType = "" then a.name else "." ++ a.name) = c.bareName) ∧
  ∀ k, verdict [r] ≠ .error (.missingKey k)

theorem partialName_of_base {a : Node} (h : a.baseType ≠ "" ↔ a.fullName ≠ a.name) :
    a.partialName = if a.baseType = "" then a.name else "." ++ a.name := by
  rw [Node.partialName]
  by_cases hbase : a.baseType = ""
  · have hfull : a.fullName = a.name := by simpa [hbase] using h
    simp [hbase, hfull]
  · have hfull : a.fullName ≠ a.name := h.1 hbase
    simp [hbase, hfull]

theorem countsFor_of_wanted {s : Config} (hmode : s.funcOnly = true)
    (hbases : ∀ a ∈ s.apis, a.baseType ≠ "" ↔ a.fullName ≠ a.name) {calls : List Call}
    (hcalls : ∀ c ∈ calls, (Filter.ofConfig s).keeps c = true ∧ c.base ≠ some "") (info : FileInfo)
    (label path : String) (name version : Option String) :
    CountsFor s calls (reportOn label path name version s (calls.map (useOf info))) := by
  have hpartial := fun a ha => partialName_of_base (hbases a ha)
  let p : PackageReport := { name := name.getD (Path.base path), version := version.getD ""
                             language := label, config := some s, uses := calls.map (useOf info) }
  have hsettings : p.settings = s := rfl
  have hfound : ∀ u ∈ p.uses, ∃ a ∈ p.settings.apis, a.partialName = u.partialName := by
    intro u hu
    obtain ⟨c, hc, rfl⟩ := mem_map.1 hu
    obtain ⟨hkeep, hbase⟩ := hcalls c hc
    rw [keeps_ofConfig, decide_eq_true_iff] at hkeep
    obtain ⟨a, ha, -, hname⟩ := hkeep
    rw [listedName, comparedName, if_pos hmode, if_pos hmode, ← hpartial a ha] at hname
    exact ⟨a, ha, by rw [hname, partialName_useOf info hbase]⟩
  obtain ⟨names, hnames, hmem⟩ := usedBy_of_partial (p := p) hmode hfound
  generalize hr : reportOn label path name version s (calls.map (useOf info)) = r
  have hfirst : r.first = .ok p := by rw [← hr]; rfl
  have hall : usedInAll [r] = .ok names := by
    simp only [usedInAll, foldlM_cons, foldlM_nil, hfirst, hnames, ok_bind]
    rfl
  have hverdict : verdict [r] = evalText (usedIds s names) s.formula := by
    simp only [verdict, verdictWith, hfirst, hall, ok_bind, hsettings]
  refine ⟨⟨names, hall, hverdict, fun n => ?_⟩, hverdict ▸ findsKeys_evalText _ _⟩
  rw [hmem]
  refine exists_congr fun a => and_congr_right fun ha => and_congr_right fun _ => ?_
  rw [← hpartial a ha]
  constructor
  · rintro ⟨u, hu, hname⟩
    obtain ⟨c, hc, rfl⟩ := mem_map.1 hu
    exact ⟨c, hc, by rw [hname, partialName_useOf info (hcalls c hc).2]⟩
  · rintro ⟨c, hc, hname⟩
    exact ⟨useOf info c, mem_map_of_mem hc, by
      rw [hname, partialName_useOf info (hcalls c hc).2]⟩

/-- Where settings compare names without their base, and tell the functions that have one by their full names,
every use that a walk reports is found by the verdict, and counts for the functions of its partial name. -/
theorem countsFor_reported {s : Config} (hmode : s.funcOnly = true)
    (hbases : ∀ a ∈ s.apis, a.baseType ≠ "" ↔ a.fullName ≠ a.name) (source : List Char)
    (info : FileInfo) (label path : String) (name version : Option String) :
    (∀ t g, (∀ n ∈ t.nodes, Python.HasTexts source n) → Python.gather source (.ofConfig s) t = .ok g →
      CountsFor s g.calls (reportOn label path name version s (g.calls.map (useOf info)))) ∧
    ∀ t calls, (∀ n ∈ t.nodes, JavaScript.HasTexts source n) → JavaScript.gather source (.ofConfig s) t = .ok calls →
      CountsFor s calls (reportOn label path name version s (calls.map (useOf info))) := by
  constructor
  · intro t g htexts hg
    exact countsFor_of_wanted hmode hbases (Python.gather_keeps htexts hg) info label path name version
  · intro t calls htexts hcalls
    exact countsFor_of_wanted hmode hbases (JavaScript.gather_keeps htexts hcalls) info label path name version

/-- Settings that look for two functions of one name in different classes, and two others. -/
def readSettings : Config :=
  { apis := [
      { kind := .functionRef, name := "system", fullName := "os.system", baseType := "os", id := 1 },
      { kind := .functionRef, name := "read", fullName := "file.read", baseType := "file", id := 2 },
      { kind := .functionRef, name := "read", fullName := "socket.read", baseType := "socket", id := 3 },
      { kind := .functionRef, name := "eval", fullName := "eval", id := 4 }]
    formula := "1 and 3"
    funcOnly := true }

def moduleText : List Char := "from os import system as s\ns(x.read())".toList

def moduleThatReads : Python.ModuleTree :=
  .node { kind := "Module" } [("body", .list [
    .node { kind := "ImportFrom", line := 1 } [
      ("module", .word "os"),
      ("names", .list [.node { kind := "alias", line := 1 } [
        ("name", .word "system"), ("asname", .word "s")]]),
      ("level", .number 0)],
    .node { kind := "Expr", line := 2 } [
      ("value", .node { kind := "Call", line := 2, text := some (27, 38), start := some ⟨2, 0⟩,
                        finish := some ⟨2, 11⟩ } [
        ("func", .node { kind := "Name", line := 2, text := some (27, 28) } [("id", .word "s")]),
        ("args", .list [
          .node { kind := "Call", line := 2, text := some (29, 37), start := some ⟨2, 2⟩,
                  finish := some ⟨2, 10⟩ } [
            ("func", .node { kind := "Attribute", line := 2, text := some (29, 35) } [
              ("value", .node { kind := "Name", line := 2, text := some (29, 30) } [
                ("id", .word "x")]),
              ("attr", .word "read")])]])])]])]

def scriptText : List Char := "x.read(1)".toList

def scriptThatReads : JavaScript.ScriptTree :=
  .node { kind := "Script", type := "Program", start := ⟨1, 0⟩, finish := ⟨1, 9⟩ } [("body", .list [
    JavaScript.onLine "ExpressionStatement" 1 0 9 [
      ("expression", JavaScript.onLine "CallExpression" 1 0 9 [
        ("callee", .node { kind := "StaticMemberExpression", type := "MemberExpression",
                           start := ⟨1, 0⟩, finish := ⟨1, 6⟩ } [
          ("object", JavaScript.letterAt 1 0 "x"),
          ("property", .node { kind := "Identifier", type := "Identifier", start := ⟨1, 2⟩,
                               finish := ⟨1, 6⟩, name := some "read" } [])]),
        ("arguments", .list [JavaScript.onLine "Literal" 1 7 8 []])])]])]

/-- What the module imports and calls. -/
def moduleGathered : Python.Gathered :=
  { imports := { modules := [("system", some "os")], aliases := [("s", "system")] }
    calls := [
      { base := some "os", name := "system", args := ["x.read()"], text := "s(x.read())",
        start := ⟨2, 0⟩, finish := ⟨2, 11⟩ },
      { base := some "x", name := "read", args := [], text := "x.read()", start := ⟨2, 2⟩,
        finish := ⟨2, 10⟩ }] }

def scriptCalls : List Call :=
  [{ base := some "x", name := "read", args := ["1"], text := "x.read(1)", start := ⟨1, 0⟩,
     finish := ⟨1, 9⟩ }]

/-- The use of `read` counts for both functions of that name, in the module and in the script. -/
theorem countsFor_reported_read : readSettings.funcOnly = true ∧
    (∀ a ∈ readSettings.apis, a.baseType ≠ "" ↔ a.fullName ≠ a.name) ∧
    (∀ n ∈ moduleThatReads.nodes, Python.HasTexts moduleText n) ∧
    (∀ n ∈ scriptThatReads.nodes, JavaScript.HasTexts scriptText n) ∧
    Python.gather moduleText (.ofConfig readSettings) moduleThatReads = .ok moduleGathered ∧
    JavaScript.gather scriptText (.ofConfig readSettings) scriptThatReads = .ok scriptCalls ∧
    CountsFor readSettings moduleGathered.calls
      (reportOn "PYTHON" "p" none none readSettings (moduleGathered.calls.map (useOf {}))) ∧
    CountsFor readSettings scriptCalls
      (reportOn "JAVASCRIPT" "p" none none readSettings (scriptCalls.map (useOf {}))) := by
  have hmode : readSettings.funcOnly = true := rfl
  have hbases : ∀ a ∈ readSettings.apis, a.baseType ≠ "" ↔ a.fullName ≠ a.name := by decide
  have hmodule : ∀ n ∈ moduleThatReads.nodes, Python.HasTexts moduleText n := by decide +kernel
  have hscript : ∀ n ∈ scriptThatReads.nodes, JavaScript.HasTexts scriptText n := by decide +kernel
  have hg : Python.gather moduleText (.ofConfig readSettings) moduleThatReads =
      .ok moduleGathered := eq_ok_of_toOption (by decide +kernel)
  have hcalls : JavaScript.gather scriptText (.ofConfig readSettings) scriptThatReads =
      .ok scriptCalls := eq_ok_of_toOption (by decide +kernel)
  refine ⟨hmode, hbases, hmodule, hscript, hg, hcalls, ?_, ?_⟩
  · exact (countsFor_reported hmode hbases moduleText {} "PYTHON" "p" none none).1 _ _ hmodule hg
  · exact (countsFor_reported hmode hbases scriptText {} "JAVASCRIPT" "p" none none).2 _ _ hscript hcalls

end Analysis

end Vetting
