import Mathlib
import Vetting.Api.Formula

/-!
# The grammar of expressions

`Expr.Written` says which tokens write an expression in a place. The reader of a chain is a loop, so the
induction carries more than its result: after some operands the loop goes on with the expression so far and at
least the fuel that the tokens have not used up.
-/

namespace Vetting.Api

open List Level

/-- How tightly the operators of a place bind. -/
def Level.rank : Level → Nat
  | .chain .or => 0
  | .chain .and => 1
  | .negation => 2
  | .chain .bitOr => 3
  | .chain .bitXor => 4
  | .chain .bitAnd => 5
  | .primary => 6

@[simp] theorem rank_operand (op : Operator) : op.operand.rank = (chain op).rank + 1 := by
  cases op <;> rfl

theorem rank_le (l : Level) : l.rank ≤ 6 := by
  cases l with
  | chain op => cases op <;> decide
  | _ => decide

theorem Level.rank_injective {l m : Level} (h : l.rank = m.rank) : l = m := by
  rcases l with (_ | _ | _ | _ | _) | _ | _ <;> rcases m with (_ | _ | _ | _ | _) | _ | _ <;> first | rfl | cases h

theorem rank_chain_lt (op : Operator) : (chain op).rank < 6 := by
  cases op <;> decide

namespace Expr

/-- The tokens that write an expression in a place. -/
inductive Written : Level → Expr → List FormulaToken → Prop
  | member (n : Nat) : Written .negation (.member n) [.number n, .isIn, .name usedName]
  | empty : Written .primary (.tuple []) [.leftParen, .rightParen]
  | parens {e ts} : Written (.chain .or) e ts → Written .primary e (.leftParen :: ts ++ [.rightParen])
  | not {e ts} : Written .negation e ts → Written .negation (.not e) (.not :: ts)
  | bits {e ts} : Written (.chain .bitOr) e ts → Written .negation e ts
  | operand {op e ts} : Written op.operand e ts → Written (.chain op) e ts
  | operator {op a b ts us} : Written (.chain op) a ts → Written op.operand b us →
      Written (.chain op) (.binary op a b) (ts ++ .operator op :: us)

/-- Tokens that cannot go on with an expression in a place. -/
def Ends (l : Level) (ts : List FormulaToken) : Prop :=
  ∀ t ∈ ts.head?, t ≠ .leftParen ∧ t ≠ .equal ∧ t ≠ .notEqual ∧ ∀ op, t = .operator op → (chain op).rank < l.rank

theorem ends_nil (l : Level) : Ends l [] := by simp [Ends]

theorem ends_rightParen (l : Level) (ts : List FormulaToken) : Ends l (.rightParen :: ts) := by
  simp [Ends]

variable {l : Level} {op : Operator} {ts : List FormulaToken} {fuel : Nat} {e : Expr}

theorem ends_operator (h : (chain op).rank < l.rank) (ts : List FormulaToken) : Ends l (.operator op :: ts) := by
  simp [Ends, h]

theorem Ends.mono {l m : Level} (h : Ends l ts) (hlm : l.rank ≤ m.rank) : Ends m ts := by
  intro t ht
  obtain ⟨hparen, hequal, hnot, hop⟩ := h t ht
  exact ⟨hparen, hequal, hnot, fun op hto => Nat.lt_of_lt_of_le (hop op hto) hlm⟩

theorem readCalls_ends (hfuel : 0 < fuel) (e : Expr) (h : Ends l ts) : readCalls fuel e ts = some (e, ts) := by
  obtain ⟨fuel, rfl⟩ := Nat.exists_eq_add_of_lt hfuel
  cases ts with
  | nil => simp [readCalls]
  | cons t ts =>
    have ht := (h t (by simp)).1
    cases t <;> simp_all [readCalls]

theorem readCompare_ends (hfuel : 0 < fuel) (h : Ends l ts) : readCompare fuel ts = some ([], ts) := by
  obtain ⟨fuel, rfl⟩ := Nat.exists_eq_add_of_lt hfuel
  cases ts with
  | nil => simp [readCompare]
  | cons t ts =>
    obtain ⟨-, hequal, hnot, -⟩ := h t (by simp)
    cases t <;> simp_all [readCompare]

theorem readMore_ends (hfuel : 0 < fuel) (op : Operator) (e : Expr) (h : Ends (.chain op) ts) :
    readMore fuel op e ts = some (e, ts) := by
  obtain ⟨fuel, rfl⟩ := Nat.exists_eq_add_of_lt hfuel
  cases ts with
  | nil => simp [readMore]
  | cons t ts =>
    have hne : t ≠ .operator op := fun ht =>
      Nat.lt_irrefl _ ((h t (by simp)).2.2.2 op ht)
    simp [readMore, hne]

/-! ## Reading -/

/-- Reading in a place gives the expression and the tokens after it, whenever the fuel covers the tokens, seven
places for each. -/
def Reads (l : Level) (e : Expr) (ts : List FormulaToken) : Prop :=
  ∀ rest fuel, Ends l rest → 8 * ts.length + 7 ≤ fuel + l.rank → readAt fuel l (ts ++ rest) = some (e, rest)

/-- Reading a chain comes to where the loop goes on behind the expression. -/
def Leads (op : Operator) (e : Expr) (ts : List FormulaToken) : Prop :=
  ∀ rest fuel, Ends op.operand rest → 8 * ts.length + 7 ≤ fuel + (chain op).rank →
    ∃ left, fuel ≤ left + ts.length + 1 ∧ readAt fuel (.chain op) (ts ++ rest) = readMore left op e rest

theorem Leads.reads (h : Leads op e ts) : Reads (.chain op) e ts := by
  intro rest fuel hrest hfuel
  obtain ⟨left, hleft, hread⟩ := h rest fuel (hrest.mono (by simp)) hfuel
  have hrank := rank_chain_lt op
  rw [hread, readMore_ends (by omega) op e hrest]

theorem Reads.leads (h : Reads op.operand e ts) : Leads op e ts := by
  intro rest fuel hrest hfuel
  have hrank := rank_chain_lt op
  obtain ⟨fuel, rfl⟩ : ∃ k, fuel = k + 1 := ⟨fuel - 1, by omega⟩
  have hread := h rest fuel hrest (by rw [rank_operand]; omega)
  exact ⟨fuel, by omega, by simp [readAt, hread]⟩

theorem Leads.operator {a b : Expr} {ts us : List FormulaToken} (ha : Leads op a ts) (hb : Reads op.operand b us) :
    Leads op (.binary op a b) (ts ++ .operator op :: us) := by
  intro rest fuel hrest hfuel
  simp only [length_append, length_cons] at hfuel ⊢
  have hnext : Ends op.operand (.operator op :: us ++ rest) := ends_operator (by simp) _
  obtain ⟨left, hleft, hread⟩ := ha (.operator op :: us ++ rest) fuel hnext (by omega)
  have hrank := rank_chain_lt op
  obtain ⟨left, rfl⟩ : ∃ k, left = k + 1 := ⟨left - 1, by omega⟩
  have hturn := hb rest left hrest (by rw [rank_operand]; omega)
  refine ⟨left, by omega, ?_⟩
  calc readAt fuel (.chain op) (ts ++ .operator op :: us ++ rest)
      = readMore (left + 1) op a (.operator op :: us ++ rest) := by
        rw [← hread]; simp
    _ = readMore left op (.binary op a b) rest := by simp [readMore, hturn]

theorem reads_member (n : Nat) : Reads .negation (.member n) [.number n, .isIn, .name usedName] := by
  intro rest fuel _ hfuel
  simp only [length_cons, length_nil, rank] at hfuel
  obtain ⟨fuel, rfl⟩ : ∃ k, fuel = k + 1 := ⟨fuel - 1, by omega⟩
  simp [readAt]

theorem reads_empty : Reads .primary (.tuple []) [.leftParen, .rightParen] := by
  intro rest fuel hrest hfuel
  simp only [length_cons, length_nil, rank] at hfuel
  obtain ⟨fuel, rfl⟩ : ∃ k, fuel = k + 1 := ⟨fuel - 1, by omega⟩
  simp [readAt, readCalls_ends (by omega : 0 < fuel) _ hrest]

theorem Reads.not (h : Reads .negation e ts) : Reads .negation (.not e) (.not :: ts) := by
  intro rest fuel hrest hfuel
  simp only [length_cons, rank] at hfuel
  obtain ⟨fuel, rfl⟩ : ∃ k, fuel = k + 1 := ⟨fuel - 1, by omega⟩
  have hread := h rest fuel hrest (by simp only [rank]; omega)
  simp [readAt, hread]

theorem Written.exists_cons (h : Written l e ts) : ∃ t us, ts = t :: us ∧
      (t = .leftParen ∨ l.rank ≤ 2 ∧ (t = .not ∨ ∃ n, t = .number n)) := by
  induction h with
  | member n => exact ⟨_, _, rfl, .inr ⟨Nat.le_refl 2, .inr ⟨n, rfl⟩⟩⟩
  | empty => exact ⟨_, _, rfl, .inl rfl⟩
  | parens _ _ => exact ⟨_, _, rfl, .inl rfl⟩
  | not _ _ => exact ⟨_, _, rfl, .inr ⟨Nat.le_refl 2, .inl rfl⟩⟩
  | bits _ ih =>
    obtain ⟨t, us, rfl, hparen | ⟨hrank, -⟩⟩ := ih
    · exact ⟨t, us, rfl, .inl hparen⟩
    · exact absurd hrank (by decide)
  | operand _ ih =>
    obtain ⟨t, us, rfl, hparen | ⟨hrank, ht⟩⟩ := ih
    · exact ⟨t, us, rfl, .inl hparen⟩
    · rw [rank_operand] at hrank
      exact ⟨t, us, rfl, .inr ⟨by omega, ht⟩⟩
  | operator _ _ iha _ =>
    obtain ⟨t, us, rfl, ht⟩ := iha
    exact ⟨t, _, rfl, ht⟩

theorem Reads.bits (hw : Written (.chain .bitOr) e ts) (h : Reads (.chain .bitOr) e ts) : Reads .negation e ts := by
  intro rest fuel hrest hfuel
  obtain ⟨t, us, rfl, rfl | ⟨hrank, -⟩⟩ := hw.exists_cons
  · simp only [length_cons, rank] at hfuel
    obtain ⟨fuel, rfl⟩ : ∃ k, fuel = k + 1 := ⟨fuel - 1, by omega⟩
    have hread := h rest fuel (hrest.mono (by decide)) (by simp [rank]; omega)
    have hcompare := readCompare_ends (by omega : 0 < fuel) hrest
    simp only [cons_append] at hread ⊢
    simp [readAt, hread, hcompare]
  · exact absurd hrank (by decide)

theorem Reads.parens (hw : Written (.chain .or) e ts) (h : Reads (.chain .or) e ts) :
    Reads .primary e (.leftParen :: ts ++ [.rightParen]) := by
  intro rest fuel hrest hfuel
  simp only [length_append, length_cons, length_nil, rank] at hfuel
  obtain ⟨fuel, rfl⟩ : ∃ k, fuel = k + 1 := ⟨fuel - 1, by omega⟩
  have hread := h (.rightParen :: rest) fuel (ends_rightParen _ _) (by omega)
  have hcalls := readCalls_ends (by omega : 0 < fuel) e hrest
  -- the tokens in parentheses do not start with a closing one, which would make an empty tuple
  obtain ⟨t, us, rfl, rfl | ⟨-, rfl | ⟨n, rfl⟩⟩⟩ := hw.exists_cons
  all_goals
    simp only [cons_append, append_assoc, nil_append] at hread ⊢
    simp [readAt, hread, hcalls]

theorem Written.reads (h : Written l e ts) : Reads l e ts ∧ ∀ op, l = .chain op → Leads op e ts := by
  induction h with
  | member n => exact ⟨reads_member n, by simp⟩
  | empty => exact ⟨reads_empty, by simp⟩
  | parens hw ih => exact ⟨ih.1.parens hw, by simp⟩
  | not _ ih => exact ⟨ih.1.not, by simp⟩
  | bits hw ih => exact ⟨ih.1.bits hw, by simp⟩
  | operand _ ih =>
    have hleads := ih.1.leads
    refine ⟨hleads.reads, ?_⟩
    rintro op ⟨⟩
    exact hleads
  | operator _ _ iha ihb =>
    have hleads := (iha.2 _ rfl).operator ihb.1
    refine ⟨hleads.reads, ?_⟩
    rintro op ⟨⟩
    exact hleads

theorem Written.chain (h : Written (.chain op) e ts) (ps : List (Expr × List FormulaToken))
    (hps : ∀ p ∈ ps, Written op.operand p.1 p.2) :
    Written (.chain op) (ps.foldl (fun e p => .binary op e p.1) e)
      (ts ++ ps.flatMap fun p => .operator op :: p.2) := by
  induction ps generalizing e ts with
  | nil => simpa using h
  | cons p ps ih =>
    have hnext := ih (h.operator (hps p mem_cons_self)) fun q hq =>
      hps q (mem_cons_of_mem p hq)
    simpa using hnext

theorem Written.parse? (h : Written (.chain .or) e ts) : parse? ts = some e := by
  have hread := h.reads.1 [] (16 * (ts.length + 1)) (ends_nil _) (by omega)
  rw [append_nil] at hread
  simp [Expr.parse?, hread]

end Expr

end Vetting.Api
