import Vetting.Api.Report
import Vetting.Proofs.Formula.Grammar
import Vetting.Proofs.Formula.Spelling

/-!
# The verdict of a formula

However a formula is written, the verdict on reports is its truth value.
-/

namespace Vetting.Api

open List Report

namespace Formula

/-- The pieces that write a formula in a place. Parentheses may stand anywhere and must stand where an operator
binds too loosely; equal operators need none between them. -/
inductive Written : Level → Formula → List Lexeme → Prop
  | id (n : Nat) : Written .primary (.id n) [.number n]
  | parens {f xs} : Written (.chain .or) f xs → Written .primary f (.leftParen :: xs ++ [.rightParen])
  | not {f xs} : Written .negation f xs → Written .negation (.not f) (.not :: xs)
  | bits {f xs} : Written (.chain .bitOr) f xs → Written .negation f xs
  | operand {op f xs} : Written op.operand f xs → Written (.chain op) f xs
  | operator {op f g xs ys} : Written (.chain op) f xs → Written (.chain op) g ys →
      Written (.chain op) (.binary op f g) (xs ++ .operator op :: ys)

theorem Written.loosen {l m : Level} {f : Formula} {xs : List Lexeme} (h : Written m f xs)
    (hlm : l.rank ≤ m.rank) : Written l f xs := by
  obtain ⟨d, hd⟩ := Nat.exists_eq_add_of_le hlm
  induction d generalizing l with
  | zero =>
    have hl : l = m := Level.rank_injective (by omega)
    exact hl ▸ h
  | succ d ih =>
    cases l with
    | chain op =>
      have hop := rank_operand op
      exact .operand (ih (by omega) (by omega))
    | negation =>
      have hbits : (Level.chain .bitOr).rank = Level.negation.rank + 1 := rfl
      exact .bits (ih (by omega) (by omega))
    | primary =>
      have hm := rank_le m
      have hl : Level.primary.rank = 6 := rfl
      omega

end Formula

theorem Operator.apply_assoc (op : Operator) (a b c : Bool) :
    op.apply (op.apply a b) c = op.apply a (op.apply b c) := by
  cases op <;> simp [Operator.apply, Bool.and_assoc, Bool.or_assoc]

namespace Expr

/-- Expressions made from statements about functions, with their truth values. -/
inductive Means (used : List Int) : Expr → Bool → Prop
  | member (n : Nat) : Means used (.member n) (used.contains (n : Int))
  | not {e b} : Means used e b → Means used (.not e) (!b)
  | binary {op a b x y} : Means used a x → Means used b y → Means used (.binary op a b) (op.apply x y)

variable {used : List Int}

theorem Means.eval {e : Expr} {b : Bool} (h : Means used e b) : e.eval used = .ok (.bool b) := by
  induction h with
  | member n => simp [Expr.eval]
  | not _ ih => simp [Expr.eval, ih, Except.map, Value.truthy]
  | @binary op a b x y _ _ iha ihb =>
    cases op <;> cases x <;>
      simp [Expr.eval, iha, ihb, bind, Except.bind, pure, Except.pure, Value.truthy, bitwise, Operator.apply]

/-- Two chains with their operator between them are a chain, whose regrouping keeps its value. -/
theorem Written.exists_append {op : Operator} {a : Expr} {ts : List FormulaToken} {x : Bool}
    (ha : Written (.chain op) a ts) (hx : Means used a x) {l : Level} {b : Expr}
    {us : List FormulaToken} (hb : Written l b us) (hl : l = .chain op) {y : Bool}
    (hy : Means used b y) :
    ∃ e, Written (.chain op) e (ts ++ .operator op :: us) ∧ Means used e (op.apply x y) := by
  induction hb generalizing y with
  | operand hb _ =>
    cases hl
    exact ⟨_, ha.operator hb, hx.binary hy⟩
  | @operator _ c d us vs _ hd ihc _ =>
    cases hl
    cases hy with
    | binary hc hz =>
      obtain ⟨e, he, hv⟩ := ihc rfl hc
      refine ⟨.binary op e d, ?_, ?_⟩
      · simpa using he.operator hd
      · rw [← Operator.apply_assoc]
        exact hv.binary hz
  | _ => cases hl

end Expr

theorem Formula.Written.exists_expr (used : List Int) {l : Level} {f : Formula} {xs : List Lexeme}
    (h : f.Written l xs) :
    ∃ e, Expr.Written l e (xs.flatMap Lexeme.tokens) ∧
      Expr.Means used e (f.eval fun n => used.contains (n : Int)) := by
  induction h with
  | id n => exact ⟨.member n, .parens (.operand (.operand (.member n))), .member n⟩
  | parens _ ih =>
    obtain ⟨e, he, hv⟩ := ih
    refine ⟨e, ?_, hv⟩
    simpa [Lexeme.tokens] using he.parens
  | not _ ih =>
    obtain ⟨e, he, hv⟩ := ih
    exact ⟨.not e, he.not, hv.not⟩
  | bits _ ih =>
    obtain ⟨e, he, hv⟩ := ih
    exact ⟨e, he.bits, hv⟩
  | operand _ ih =>
    obtain ⟨e, he, hv⟩ := ih
    exact ⟨e, he.operand, hv⟩
  | operator _ _ ihf ihg =>
    obtain ⟨a, ha, hx⟩ := ihf
    obtain ⟨b, hb, hy⟩ := ihg
    obtain ⟨e, he, hv⟩ := ha.exists_append hx hb rfl hy
    refine ⟨e, ?_, hv⟩
    simpa [Lexeme.tokens] using he

theorem evalText_of_written (used : List Int) {f : Formula} {xs : List Lexeme} {text : String}
    (hw : f.Written (.chain .or) xs) (hs : Lexeme.Spelled xs text.toList)
    (hdepth : Lexeme.depth 0 xs ≤ FormulaToken.maxDepth) :
    evalText used text = .ok (.bool (f.eval fun n => used.contains (n : Int))) := by
  obtain ⟨e, he, hv⟩ := hw.exists_expr used
  simp [evalText, hs.scan_stateNumbers hdepth, he.parse?, hv.eval]

/-! ## Uses in reports -/

variable (c : Config) (r : Report) (rs : List Report) (i : Nat)

def Report.NamesInFull : Prop :=
  ∃ p ∈ r.packages.head?, p.settings.funcOnly = false

/-- The full names that the first package of a report uses. -/
def Report.usedNames : List String :=
  r.packages.head?.toList.flatMap fun p => p.uses.map (·.fullName)

theorem Report.mem_usedNames {r : Report} {s : String} :
    s ∈ r.usedNames ↔ ∃ p ∈ r.packages.head?, ∃ u ∈ p.uses, u.fullName = s := by
  simp [usedNames]

theorem Report.first_of_head? {r : Report} {p : PackageReport} (h : p ∈ r.packages.head?) : r.first = .ok p := by
  cases hps : r.packages with
  | nil => simp [hps] at h
  | cons q ps =>
    have hq : q = p := by simpa [hps] using h
    simp [first, hps, hq]

theorem usedBy_of_full {p : PackageReport} (h : p.settings.funcOnly = false) :
    usedBy p = .ok (p.uses.map (·.fullName)) := by
  simp [usedBy, h]

theorem usedInAll_eq {rs : List Report} (h : ∀ r ∈ rs, r.NamesInFull) :
    usedInAll rs = .ok (rs.flatMap usedNames) := by
  have fold : ∀ acc, rs.foldlM (fun acc r => do return acc ++ (← usedBy (← r.first))) acc =
      (.ok (acc ++ rs.flatMap usedNames) : Except Fault (List String)) := by
    induction rs with
    | nil => simp [pure, Except.pure]
    | cons r rs ih =>
      intro acc
      obtain ⟨p, hp, hfull⟩ := h r (by simp)
      have hnames : r.usedNames = p.uses.map (·.fullName) := by
        simp [usedNames, Option.mem_def.mp hp]
      have hrest := ih (fun q hq => h q (by simp [hq])) (acc ++ p.uses.map (·.fullName))
      simp only [foldlM_cons, first_of_head? hp, usedBy_of_full hfull, bind,
        Except.bind, pure, Except.pure] at hrest ⊢
      rw [hrest]
      simp [hnames]
  simpa [usedInAll] using fold []

/-- A number is true for reports if a function of the settings has it and the first package of
some report uses a function of that full name. -/
def IsUsed : Prop :=
  ∃ n ∈ c.apis, n.id = (i : Int) ∧ ∃ r ∈ rs, ∃ p ∈ r.packages.head?, ∃ u ∈ p.uses, u.fullName = n.fullName

instance (r : Report) : Decidable r.NamesInFull :=
  inferInstanceAs (Decidable (∃ p ∈ r.packages.head?, _))

instance (c : Config) (rs : List Report) (i : Nat) : Decidable (IsUsed c rs i) :=
  inferInstanceAs (Decidable (∃ n ∈ c.apis, _ ∧ ∃ r ∈ rs, ∃ p ∈ r.packages.head?, ∃ u ∈ p.uses, _))

theorem contains_usedIds : (usedIds c (rs.flatMap usedNames)).contains (i : Int) = decide (IsUsed c rs i) := by
  rw [Bool.eq_iff_iff, decide_eq_true_iff, contains_iff_mem]
  simp only [usedIds, mem_map, mem_filter, contains_iff_mem, mem_flatMap, mem_usedNames, IsUsed]
  constructor
  · rintro ⟨n, ⟨hn, hused⟩, hid⟩
    exact ⟨n, hn, hid, hused⟩
  · rintro ⟨n, hn, hid, hused⟩
    exact ⟨n, ⟨hn, hused⟩, hid⟩

/-- The verdict is the truth value of the formula that the settings of the first report hold, and
its text keeps its structure when numbers become statements. -/
theorem verdict_of_written {r : Report} {rs : List Report} {p : PackageReport} {f : Formula}
    {xs : List Lexeme} (hp : r.packages.head? = some p) (hfull : ∀ q ∈ r :: rs, q.NamesInFull)
    (hw : f.Written (.chain .or) xs) (hs : Lexeme.Spelled xs p.settings.formula.toList)
    (hdepth : Lexeme.depth 0 xs ≤ FormulaToken.maxDepth) :
    FormulaToken.scan (stateNumbers p.settings.formula.toList) = some (xs.flatMap Lexeme.tokens) ∧
      verdict (r :: rs) = .ok (.bool (f.eval fun i => decide (IsUsed p.settings (r :: rs) i))) := by
  refine ⟨hs.scan_stateNumbers hdepth, ?_⟩
  have hvalue := evalText_of_written (usedIds p.settings ((r :: rs).flatMap Report.usedNames)) hw hs hdepth
  simp only [contains_usedIds] at hvalue
  simp only [verdict, verdictWith, Report.first_of_head? hp, usedInAll_eq hfull, bind, Except.bind]
  exact hvalue

/-- Of the functions 1, 12 and 123 a second report uses the last, in a formula with spare parentheses. -/
theorem verdict_of_written_second_report :
    let settings : Config :=
      { apis := [{ fullName := "a", id := 1 }, { fullName := "b", id := 12 },
          { fullName := "c", id := 123 }]
        formula := "not 1 & 12 and ((1) ^ 123)" }
    let first : Report := { packages := [{ config := some settings }] }
    let second : Report := { packages := [{ uses := [{ fullName := "c" }] }] }
    verdict [first, second] = .ok (.bool true) := by
  intro settings first second
  have hand : Formula.Written (.chain .bitAnd) (.binary .bitAnd (.id 1) (.id 12)) _ :=
    .operator (.operand (.id 1)) (.operand (.id 12))
  have hone : Formula.Written .primary (.id 1) _ :=
    .parens ((Formula.Written.id 1).loosen (by decide))
  have hxor : Formula.Written (.chain .bitXor) (.binary .bitXor (.id 1) (.id 123)) _ :=
    .operator (hone.loosen (by decide)) ((Formula.Written.id 123).loosen (by decide))
  have hw : Formula.Written (.chain .and) _ _ :=
    .operator (.operand (.not (hand.loosen (by decide))))
      ((Formula.Written.parens (hxor.loosen (by decide))).loosen (by decide))
  have hs : ∃ cs, Lexeme.Spelled _ cs ∧ cs = settings.formula.toList :=
    ⟨_, .cons .not (.space (.cons (.number 1) (.space (.cons (.operator .bitAnd) (.space
      (.cons (.number 12) (.space (.cons (.operator .and) (.space (.cons .leftParen
        (.cons .leftParen (.cons (.number 1) (.cons .rightParen (.space
          (.cons (.operator .bitXor) (.space (.cons (.number 123) (.cons .rightParen .nil
            (by decide)) (by decide))) (by decide))) (by decide)) (by decide)) (by decide))
        (by decide))) (by decide))) (by decide))) (by decide))) (by decide))) (by decide), by decide⟩
  obtain ⟨cs, hs, rfl⟩ := hs
  have hp : first.packages.head? = some { config := some settings } := rfl
  have hfull : ∀ q ∈ first :: [second], q.NamesInFull := by decide
  have hverdict := (verdict_of_written hp hfull (.operand hw) hs (by decide)).2
  refine hverdict.trans (congrArg (fun b => Except.ok (Expr.Value.bool b)) ?_)
  decide +kernel

end Vetting.Api
