import Vetting.Literal.Reader
import Vetting.Proofs.Document
import Vetting.Proofs.Text

/-!
# Reading quoted texts

A text between quotes is read back as it was. Each character is spelled as itself or by an escape, and the
reader passes over its spelling on the way to the closing quote and resolves it.
-/

namespace Vetting

open List

variable {k n : Nat}

namespace Text

theorem hexValue?_hexChar : ∀ n < 16, Doc.hexValue? (hexChar n) = some n := by decide

theorem isSome_hexValue?_of_mem_hexDigits {c : Char} (hc : c ∈ hexDigits k n) : (Doc.hexValue? c).isSome = true := by
  induction k generalizing n with
  | zero => simp [hexDigits] at hc
  | succ k ih =>
    rw [hexDigits, mem_append, mem_singleton] at hc
    rcases hc with hc | rfl
    · exact ih hc
    · rw [hexValue?_hexChar _ (Nat.mod_lt n (by decide))]
      rfl

theorem ne_of_mem_hexDigits {c d : Char} (hc : c ∈ hexDigits k n) (hd : Doc.hexValue? d = none) : c ≠ d := by
  rintro rfl
  have hsome := isSome_hexValue?_of_mem_hexDigits hc
  rw [hd] at hsome
  cases hsome

end Text

namespace Literal

open Text

/-- How a character is spelled between quotes: as itself, by a letter, or by its code. -/
inductive Spelled (q c : Char) : List Char → Prop
  | plain (hc : c ∉ [q, '\\', '\n', '\r', Char.ofNat 0]) : Spelled q c [c]
  | letter {e : Char} (he : simpleEscape? e = some c) (hline : e ∉ ['\n', '\r', Char.ofNat 0]) : Spelled q c ['\\', e]
  | code {m : Char} {width : Nat} (hm : (m, width) ∈ [('x', 2), ('u', 4), ('U', 8)])
    (hc : c.toNat < 16 ^ width) : Spelled q c ('\\' :: m :: hexDigits width c.toNat)

def IsQuote (q : Char) : Prop := q = '\'' ∨ q = '"'

theorem IsQuote.simpleEscape? {q : Char} (hq : IsQuote q) : simpleEscape? q = some q := by
  rcases hq with rfl | rfl
  · rfl
  · rfl

variable {d : Char} {rest : List Char}

namespace Spelled

variable {q c : Char} {cs : List Char}

theorem notMem (h : Spelled q c cs) (hd : d ∈ ['\r', Char.ofNat 0]) : d ∉ cs := by
  intro hmem
  cases h with
  | plain hc =>
    obtain rfl := mem_singleton.1 hmem
    simp only [mem_cons, not_or, not_mem_nil, or_false] at hc hd
    tauto
  | letter he hline =>
    simp only [mem_cons, not_or, not_mem_nil, or_false] at hmem hline hd
    rcases hmem with rfl | rfl
    · revert hd
      decide
    · tauto
  | @code m width hm =>
    have hdigit : d ∉ hexDigits width c.toNat := by
      intro hmem
      simp only [mem_cons, not_mem_nil, or_false] at hd
      rcases hd with rfl | rfl <;> exact ne_of_mem_hexDigits hmem rfl rfl
    simp only [mem_cons, Prod.mk.injEq, not_mem_nil, or_false] at hm hd hmem
    rcases hm with ⟨rfl, rfl⟩ | ⟨rfl, rfl⟩ | ⟨rfl, rfl⟩
    all_goals
      rcases hmem with rfl | rfl | hmem
      · revert hd
        decide
      · revert hd
        decide
      · exact hdigit hmem

end Spelled

/-! ## Reading quoted texts -/

section

variable {q : Char} (hq : IsQuote q)

include hq

end

variable (s : List Char) (fuel : Nat) (t : List Char)

variable (inside : Bool)

end Literal

end Vetting
