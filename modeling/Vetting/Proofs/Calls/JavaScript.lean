import Vetting.Calls.JavaScript
import Vetting.Proofs.Calls.Walk

/-!
# Which calls of a script are reported

Those outside of class declarations and methods.
-/

namespace Vetting.Calls.JavaScript

open List

def isNew (t : ScriptTree) : Bool := t.info?.any fun i => i.kind = "NewExpression"

def isCall (t : ScriptTree) : Bool := isNew t || t.info?.any fun i => i.kind = "CallExpression"

def Reports (source : List Char) (t : ScriptTree) (c : Call) : Prop :=
  callOf source (isNew t) t = .ok c

/-! ## Places -/

/-- Whether a node starts on a line of the source and ends on that line or a later one. -/
def isLocated (source : List Char) (t : ScriptTree) : Bool :=
  t.info?.any fun i => decide (1 ≤ i.start.row ∧ i.start.row ≤ i.finish.row ∧
    i.start.row ≤ ((Text.linesGo [] source).length : Int))

/-- Whether what is called is located: the node itself, or the object and the property of a member. -/
def isPlacedCallee (source : List Char) (c : ScriptTree) : Bool :=
  isLocated source c && (c.info?.map Info.type != some "MemberExpression" ||
    (c.field? "object").any (isLocated source) && (c.field? "property").any (isLocated source))

/-- Whether all that a call is told by lies in the source. -/
def isPlaced (source : List Char) (t : ScriptTree) : Bool :=
  isLocated source t && (t.field? "callee").any (isPlacedCallee source) &&
    (t.itemsOf "arguments").all (isLocated source)

variable {source : List Char} {t : ScriptTree}

theorem trimLast_cons (column : Int) (l : List Char) (ls : List (List Char)) :
    ∃ l' ls', trimLast column (l :: ls) = .ok (l' :: ls') := by
  induction ls generalizing l with
  | nil => exact ⟨_, _, rfl⟩
  | cons m ls ih =>
    obtain ⟨l', ls', h⟩ := ih m
    refine ⟨l, l' :: ls', ?_⟩
    rw [trimLast, h]
    · rfl
    · simp

theorem slice_ne_nil {α : Type} {xs : List α} {first last : Int} (hfirst : 0 ≤ first)
    (hlast : first < last) (hlength : first < xs.length) : slice xs first last ≠ [] := by
  have hdrop : ¬ first < 0 := by omega
  have htake : ¬ last < 0 := by omega
  simp only [slice, if_neg hdrop, if_neg htake, ← length_pos_iff, length_drop, length_take]
  omega

theorem isLocated_iff : isLocated source t = true ↔
    ∃ i, t.info? = some i ∧ 1 ≤ i.start.row ∧ i.start.row ≤ i.finish.row ∧
      i.start.row ≤ ((Text.linesGo [] source).length : Int) := by
  simp [isLocated, Option.any_eq_true]

theorem exists_textOf (h : isLocated source t = true) : ∃ s, textOf source t = .ok s := by
  obtain ⟨i, hi, hfirst, hlast, hlength⟩ := isLocated_iff.1 h
  have hlines : slice (Text.linesGo [] source) (i.start.row - 1) i.finish.row ≠ [] :=
    slice_ne_nil (by omega) (by omega) (by omega)
  obtain ⟨l, ls, hcut⟩ := exists_cons_of_ne_nil hlines
  obtain ⟨l', ls', htrim⟩ := trimLast_cons i.finish.column l ls
  rw [textOf, hi]
  exact ⟨_, by simp only [sourceText, hcut, htrim]; rfl⟩

theorem exists_nameOrText (h : isLocated source t = true) : ∃ s, nameOrText source t = .ok s := by
  rw [nameOrText]
  split
  · exact ⟨_, rfl⟩
  · exact exists_textOf h

theorem exists_target (isNew : Bool) {c : ScriptTree} (h : isPlacedCallee source c = true) :
    ∃ r, target source isNew c = .ok r := by
  simp only [isPlacedCallee, Bool.and_eq_true, Bool.or_eq_true, bne_iff_ne, Option.any_eq_true] at h
  obtain ⟨hc, hmember⟩ := h
  rw [target]
  split
  · exact ⟨_, rfl⟩
  · split
    case isTrue hkind =>
      simp only [Bool.and_eq_true, decide_eq_true_eq] at hkind
      obtain ⟨⟨x, hx, hobject⟩, y, hy, hproperty⟩ := hmember.resolve_left (absurd hkind.2)
      obtain ⟨name, hname⟩ := exists_nameOrText hproperty
      obtain ⟨base, hbase⟩ := exists_nameOrText hobject
      exact ⟨(some base, name), by rw [hx, hy, Option.getD_some, Option.getD_some, hname, hbase]; rfl⟩
    case isFalse =>
      obtain ⟨s, hs⟩ := exists_textOf hc
      exact ⟨(some unknownBase, s), by rw [hs]; rfl⟩

theorem exists_mapM_textOf {ts : List ScriptTree} (h : ∀ a ∈ ts, isLocated source a = true) :
    ∃ ss, ts.mapM (textOf source) = .ok ss := by
  induction ts with
  | nil => exact ⟨[], rfl⟩
  | cons a ts ih =>
    obtain ⟨s, hs⟩ := exists_textOf (h a mem_cons_self)
    obtain ⟨ss, hss⟩ := ih fun b hb => h b (mem_cons_of_mem _ hb)
    exact ⟨s :: ss, by rw [mapM_cons, hs, hss]; rfl⟩

theorem exists_callOf (isNew : Bool) (h : isPlaced source t = true) : ∃ c, callOf source isNew t = .ok c := by
  simp only [isPlaced, Bool.and_eq_true, Option.any_eq_true, all_eq_true] at h
  obtain ⟨⟨ht, callee, hcallee, hplaced⟩, hargs⟩ := h
  obtain ⟨⟨base, name⟩, htarget⟩ := exists_target isNew hplaced
  obtain ⟨args, hargs⟩ := exists_mapM_textOf hargs
  obtain ⟨text, htext⟩ := exists_textOf ht
  obtain ⟨i, hi, -⟩ := isLocated_iff.1 ht
  rw [callOf, hcallee, Option.getD_some, htarget, hargs, htext, hi]
  exact ⟨_, rfl⟩

theorem enter_of_filter (f : Filter) (calls : List Call) (t : ScriptTree) : enter source f calls t =
      if isCall t then (callOf source (isNew t) t).map fun c =>
        if f.keeps c then calls ++ [c] else calls
      else .ok calls := by
  have hadd : ∀ isNew : Bool, (do
      let c ← callOf source isNew t
      return if f.keeps c then calls ++ [c] else calls) =
        (callOf source isNew t).map fun c => if f.keeps c then calls ++ [c] else calls := by
    intro isNew
    cases callOf source isNew t <;> rfl
  rw [enter, isCall, isNew]
  cases hi : t.info? with
  | none => simp
  | some i =>
    simp only [Option.map_some, Option.any_some, hadd]
    split
    case h_1 hkind => simp [Option.some.inj hkind]
    case h_2 hkind => simp [Option.some.inj hkind]
    case h_3 hcall hnew =>
      have hother : i.kind ≠ "CallExpression" ∧ i.kind ≠ "NewExpression" :=
        ⟨fun h => hcall (by rw [h]), fun h => hnew (by rw [h])⟩
      simp [hother]

theorem enter_eq (calls : List Call) (t : ScriptTree) : enter source (.ofConfig? none) calls t =
      if isCall t then (callOf source (isNew t) t).map fun c => calls ++ [c] else .ok calls :=
  enter_of_filter _ calls t

theorem enter_isOk_iff (calls : List Call) (t : ScriptTree) :
    (∃ calls', enter source (.ofConfig? none) calls t = .ok calls') ↔
      (isCall t = true → ∃ c, Reports source t c) := by
  rw [enter_eq]
  by_cases hcall : isCall t = true
  · cases hc : callOf source (isNew t) t <;> simp [hcall, Reports, hc, Except.map]
  · simp [hcall]

theorem enter_step (t : ScriptTree) (calls calls' : List Call)
    (h : enter source (.ofConfig? none) calls t = .ok calls') :
    if isCall t then ∃ c, Reports source t c ∧ calls' = calls ++ [c] else calls' = calls := by
  rw [enter_eq] at h
  by_cases hcall : isCall t = true
  · rw [if_pos hcall] at h ⊢
    cases hc : callOf source (isNew t) t with
    | error e => simp [hc, Except.map] at h
    | ok c =>
      rw [hc] at h
      exact ⟨c, hc, (Except.ok.inj h).symm⟩
  · rw [if_neg hcall] at h ⊢
    exact (Except.ok.inj h).symm

/-- The report of a script has one entry for each call and `new` expression that the walk enters, in order. These
are all of the script just if no class declaration and no method contains one. -/
theorem gather_reports_all_iff (source : List Char) (t : ScriptTree)
    (hplaced : ∀ n ∈ t.nodes.filter isCall, isPlaced source n = true) :
    ∃ calls, gather source (.ofConfig? none) t = .ok calls ∧
      List.Forall₂ (Reports source) ((t.entered isSkipped).filter isCall) calls ∧
      (List.Forall₂ (Reports source) (t.nodes.filter isCall) calls ↔ Tree.NoneHidden isSkipped isCall t.nodes) := by
  have hsub := (Tree.entered_sublist isSkipped t).filter isCall
  have hok : ∀ n ∈ t.entered isSkipped, isCall n = true → ∃ c, Reports source n c := by
    intro n hn hcall
    exact exists_callOf _ (hplaced n (hsub.subset (mem_filter.2 ⟨hn, hcall⟩)))
  obtain ⟨calls, hcalls⟩ := (foldlM_isOk_iff enter_isOk_iff (b := [])).2 hok
  obtain ⟨new, hnew, hall⟩ := Tree.foldlM_reports id (fun _ _ => True)
    (fun _ n c => Reports source n c) (fun _ n b b' _ h => ⟨trivial, enter_step n b b' h⟩) [] trivial
    hcalls
  obtain rfl : calls = new := hnew
  have hentered : List.Forall₂ (Reports source) ((t.entered isSkipped).filter isCall) calls :=
    hall.imp fun _ _ ⟨_, _, _, h⟩ => h
  refine ⟨calls, by rw [gather, Tree.walk_eq_foldlM, hcalls], hentered, ?_⟩
  rw [← Tree.countP_entered_eq_iff, countP_eq_length_filter, countP_eq_length_filter]
  constructor
  · intro hevery
    rw [hentered.length_eq, hevery.length_eq]
  · intro hlength
    rwa [← hsub.eq_of_length hlength]

/-! ### A hidden call -/

/-- A node of a class and type of one name, on one line. -/
def onLine (kind : String) (row first last : Int) (fields : List (String × ScriptTree)) : ScriptTree :=
  .node { kind, type := kind, start := ⟨row, first⟩, finish := ⟨row, last⟩ } fields

def letterAt (row column : Int) (name : String) : ScriptTree :=
  .node { kind := "Identifier", type := "Identifier", start := ⟨row, column⟩,
          finish := ⟨row, column + 1⟩, name := some name } []

/-- The call of `f` on a number of one digit. -/
def callAt (row column : Int) : ScriptTree :=
  onLine "CallExpression" row column (column + 4) [
    ("callee", letterAt row column "f"),
    ("arguments", .list [onLine "Literal" row (column + 2) (column + 3) []])]

def classWithCall : ScriptTree :=
  onLine "ClassDeclaration" 1 0 25 [
    ("id", letterAt 1 6 "A"),
    ("body", onLine "ClassBody" 1 8 25 [("body", .list [
      onLine "MethodDefinition" 1 10 23 [
        ("key", letterAt 1 10 "m"),
        ("value", onLine "FunctionExpression" 1 11 23 [
          ("body", onLine "BlockStatement" 1 14 23 [("body", .list [
            onLine "ExpressionStatement" 1 16 21 [("expression", callAt 1 16)]])])])]])])]

def classThenCall : ScriptTree :=
  .node { kind := "Script", type := "Program", start := ⟨1, 0⟩, finish := ⟨2, 4⟩ } [("body", .list [
    classWithCall, onLine "ExpressionStatement" 2 0 4 [("expression", callAt 2 0)]])]

def classThenCallText : List Char := "class A \x7b m() \x7b f(1); \x7d \x7d\nf(2)".toList

theorem gather_classThenCall : (∀ n ∈ classThenCall.nodes.filter isCall, isPlaced classThenCallText n = true) ∧
    ∃ calls, gather classThenCallText (.ofConfig? none) classThenCall = .ok calls ∧
      List.Forall₂ (Reports classThenCallText) ((classThenCall.entered isSkipped).filter isCall) calls ∧
      (List.Forall₂ (Reports classThenCallText) (classThenCall.nodes.filter isCall) calls ↔
        Tree.NoneHidden isSkipped isCall classThenCall.nodes) := by
  have hplaced : ∀ n ∈ classThenCall.nodes.filter isCall, isPlaced classThenCallText n = true := by
    decide
  exact ⟨hplaced, gather_reports_all_iff classThenCallText classThenCall hplaced⟩

end Vetting.Calls.JavaScript
