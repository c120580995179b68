import Vetting.Api.Formula
import Vetting.Proofs.Text

/-!
# The spelling of formulas

`Spelled` says which texts write a list of pieces: spaces may stand anywhere between them, and something has
to stand where two words would run together.
-/

namespace Vetting.Api

open List FormulaToken Text

/-- The word or the sign of an operator. -/
def Operator.text : Operator → List Char
  | .or => ['o', 'r']
  | .and => ['a', 'n', 'd']
  | .bitOr => ['|']
  | .bitXor => ['^']
  | .bitAnd => ['&']

/-- A piece of a formula's text. -/
inductive Lexeme where
  | number (n : Nat)
  | not
  | operator (op : Operator)
  | leftParen
  | rightParen
deriving DecidableEq

namespace Lexeme

def text : Lexeme → List Char
  | .number n => Nat.toDigits 10 n
  | .not => ['n', 'o', 't']
  | .operator op => op.text
  | .leftParen => ['(']
  | .rightParen => [')']

/-- Whether a piece is written with letters or digits. -/
def isWord : Lexeme → Bool
  | .number _ => true
  | .not => true
  | .operator .or => true
  | .operator .and => true
  | _ => false

/-- The tokens of a piece once numbers have given way to statements. -/
def tokens : Lexeme → List FormulaToken
  | .number n => [.leftParen, .number n, .isIn, .name usedName, .rightParen]
  | .not => [.not]
  | .operator op => [.operator op]
  | .leftParen => [.leftParen]
  | .rightParen => [.rightParen]

/-- What may follow a word without running into it. -/
def separators : List Char := [' ', '(', ')', '&', '|', '^']

def endsWord (cs : List Char) : Bool := cs.head?.all separators.contains

/-- A text that writes pieces one after another. -/
inductive Spelled : List Lexeme → List Char → Prop
  | nil : Spelled [] []
  | space {xs cs} : Spelled xs cs → Spelled xs (' ' :: cs)
  | cons {xs cs} (x : Lexeme) : Spelled xs cs →
      (x.isWord = true → endsWord cs = true) → Spelled (x :: xs) (x.text ++ cs)

/-- How deep parentheses are nested if `d` are open before and every number has its own. -/
def depth : Nat → List Lexeme → Nat
  | d, [] => d
  | d, .leftParen :: xs => depth (d + 1) xs
  | d, .rightParen :: xs => max d (depth (d - 1) xs)
  | d, .number _ :: xs => max (d + 1) (depth d xs)
  | d, _ :: xs => depth d xs

end Lexeme

theorem Lexeme.Spelled.sign {x : Lexeme} {xs : List Lexeme} {cs : List Char} (hx : x.isWord = false)
    (h : Spelled xs cs) : Spelled (x :: xs) (x.text ++ cs) :=
  h.cons x fun hword => absurd hword (by simp [hx])

variable (n : Nat) (x : Lexeme) (d : Nat) (xs : List Lexeme)

theorem isDecimal_toDigits : ∀ c ∈ Nat.toDigits 10 n, isDecimal c = true :=
  fun _ hc => isDecimal_of_isDigit (Nat.isDigit_of_mem_toDigits (by omega) (by omega) hc)

-- The classes are tables, so facts about fixed characters are computed, with a list as the bound.
theorem isDecimal_separator : ∀ c ∈ Lexeme.separators, isDecimal c = false := by
  have h : Lexeme.separators.all (!isDecimal ·) = true := by decide +kernel
  simpa using h

theorem inName_separator : ∀ c ∈ Lexeme.separators, inName c = false := by
  have h : Lexeme.separators.all (!inName ·) = true := by decide +kernel
  simpa using h

theorem mem_separators_of_endsWord {cs : List Char} (h : Lexeme.endsWord cs = true) :
    ∀ c ∈ cs.head?, c ∈ Lexeme.separators := by
  simpa [Lexeme.endsWord, Option.all_eq_true] using h

theorem ofDigits_toDigits : ofDigits (Nat.toDigits 10 n) = some (.number n) := by
  have hdigits : (Nat.toDigits 10 n).all Char.isDigit = true := by
    rw [all_eq_true]
    exact fun _ hc => Nat.isDigit_of_mem_toDigits (by omega) (by omega) hc
  unfold ofDigits
  rw [hdigits, Nat.ofDigitChars_ten_toDigits]
  rcases Nat.eq_zero_or_pos n with rfl | hn
  · simp
  · simp [head?_toDigits_ne_zero hn]

theorem stateGo_append_of_not_decimal (w cs : List Char) (hw : ∀ c ∈ w, isDecimal c = false) :
    stateGo false (w ++ cs) = w ++ stateGo false cs := by
  induction w with
  | nil => rfl
  | cons c w ih =>
    have hc : isDecimal c = false := hw c (by simp)
    have hrest := ih fun d hd => hw d (by simp [hd])
    simp [stateGo, hc, hrest]

theorem stateGo_true_append (ds cs : List Char) (hds : ∀ c ∈ ds, isDecimal c = true)
    (hcs : ∀ c ∈ cs.head?, isDecimal c = false) :
    stateGo true (ds ++ cs) = ds ++ statementEnd ++ stateGo false cs := by
  induction ds with
  | nil =>
    cases cs with
    | nil => simp [stateGo]
    | cons c cs =>
      have hc : isDecimal c = false := hcs c (by simp)
      simp [stateGo, hc]
  | cons d ds ih =>
    have hd : isDecimal d = true := hds d (by simp)
    have hrest := ih fun c hc => hds c (by simp [hc])
    simpa [stateGo, hd] using hrest

theorem stateGo_toDigits (cs : List Char) (hcs : ∀ c ∈ cs.head?, isDecimal c = false) :
    stateGo false (Nat.toDigits 10 n ++ cs) = '(' :: Nat.toDigits 10 n ++ statementEnd ++ stateGo false cs := by
  have hdigits := isDecimal_toDigits n
  cases hd : Nat.toDigits 10 n with
  | nil => exact absurd hd Nat.toDigits_ne_nil
  | cons d ds =>
    rw [hd] at hdigits
    have hopen := stateGo_true_append ds cs (fun c hc => hdigits c (by simp [hc])) hcs
    simp [stateGo, hdigits d (by simp), hopen]

/-- The text of a piece once numbers have given way to statements. -/
def Lexeme.statement : Lexeme → List Char
  | .number n => '(' :: Nat.toDigits 10 n ++ statementEnd
  | x => x.text

theorem isDecimal_text {x : Lexeme} (hx : ∀ n, x ≠ .number n) : ∀ c ∈ x.text, isDecimal c = false := by
  have h : x.text.all (!isDecimal ·) = true := by
    cases x with
    | number n => exact absurd rfl (hx n)
    | operator op => cases op <;> decide +kernel
    | _ => decide +kernel
  simpa using h

theorem stateNumbers_text_append (cs : List Char) (hx : x.isWord = true → Lexeme.endsWord cs = true) :
    stateNumbers (x.text ++ cs) = x.statement ++ stateNumbers cs := by
  cases x with
  | number n =>
    have hcs : ∀ c ∈ cs.head?, isDecimal c = false :=
      fun c hc => isDecimal_separator c (mem_separators_of_endsWord (hx rfl) c hc)
    simpa [stateNumbers, Lexeme.statement, Lexeme.text] using stateGo_toDigits n cs hcs
  | _ => exact stateGo_append_of_not_decimal _ cs (isDecimal_text (by simp))

theorem endsWord_stateNumbers {cs : List Char} (h : Lexeme.endsWord cs = true) :
    Lexeme.endsWord (stateNumbers cs) = true := by
  cases cs with
  | nil => rfl
  | cons c cs =>
    have hc : c ∈ Lexeme.separators := mem_separators_of_endsWord h c (by simp)
    simp [stateNumbers, stateGo, isDecimal_separator c hc, Lexeme.endsWord, hc]

/-! ## Tokens -/

/-- A text is cut into the given tokens by any amount of fuel that covers its length. -/
def Scans (cs : List Char) (ts : List FormulaToken) : Prop :=
  ∀ fuel, cs.length < fuel → scanGo fuel cs = some ts

namespace Scans

variable {cs : List Char} {ts : List FormulaToken}

theorem nil : Scans [] [] := by
  intro fuel hfuel
  obtain ⟨fuel, rfl⟩ := Nat.exists_eq_add_of_lt hfuel
  simp [scanGo]

theorem sign {c : Char} {t : Option FormulaToken} (hc : c ∈ Lexeme.separators)
    (ht : sign c cs = some (t, cs)) (h : Scans cs ts) :
    Scans (c :: cs) (t.toList ++ ts) := by
  intro fuel hfuel
  cases fuel with
  | zero => simp at hfuel
  | succ fuel =>
    have hrest := h fuel (by simpa using hfuel)
    simp [scanGo, isDecimal_separator c hc, inName_separator c hc, ht, hrest]

theorem space (h : Scans cs ts) : Scans (' ' :: cs) ts :=
  h.sign (t := none) (by decide) rfl

theorem word {w : List Char} {t : FormulaToken} (hw : w.all inName = true) (ht : ofWord w = some t) (hne : w ≠ [])
    (hcs : ∀ c ∈ cs.head?, inName c = false) (h : Scans cs ts) :
    Scans (w ++ cs) (t :: ts) := by
  intro fuel hfuel
  rw [all_eq_true] at hw
  obtain ⟨htake, hdrop⟩ := takeWhile_dropWhile_append hw hcs
  cases w with
  | nil => exact absurd rfl hne
  | cons c w =>
    cases fuel with
    | zero => simp at hfuel
    | succ fuel =>
      have hc : inName c = true := hw c (by simp)
      have hd : isDecimal c = false := by
        simp only [inName, Bool.and_eq_true] at hc
        simpa using hc.2
      have hrest := h fuel (by simp at hfuel; omega)
      simp only [cons_append] at htake hdrop ⊢
      simp [scanGo, hd, hc, htake, hdrop, ht, hrest]

theorem number (n : Nat) (hcs : ∀ c ∈ cs.head?, isDecimal c = false) (h : Scans cs ts) :
    Scans (Nat.toDigits 10 n ++ cs) (.number n :: ts) := by
  intro fuel hfuel
  obtain ⟨htake, hdrop⟩ := takeWhile_dropWhile_append (isDecimal_toDigits n) hcs
  have ht := ofDigits_toDigits n
  have hdigits := isDecimal_toDigits n
  cases hds : Nat.toDigits 10 n with
  | nil => exact absurd hds Nat.toDigits_ne_nil
  | cons d ds =>
    rw [hds] at hdigits ht hfuel htake hdrop
    cases fuel with
    | zero => simp at hfuel
    | succ fuel =>
      have hrest := h fuel (by simp at hfuel; omega)
      simp only [cons_append] at htake hdrop ⊢
      simp [scanGo, hdigits d (by simp), htake, hdrop, ht, hrest]

theorem statementEnd_eq : Api.statementEnd = ' ' :: (['i', 'n'] ++ ' ' :: (usedName ++ [')'])) := by decide +kernel

theorem statementEnd (h : Scans cs ts) :
    Scans (statementEnd ++ cs) (.isIn :: .name usedName :: .rightParen :: ts) := by
  have hparen : Scans (')' :: cs) (.rightParen :: ts) :=
    h.sign (t := some .rightParen) (by decide) rfl
  have hname : Scans (usedName ++ ')' :: cs) (.name usedName :: .rightParen :: ts) :=
    hparen.word (by decide +kernel) (by decide) (by decide) (by simpa using inName_separator ')' (by decide))
  have hin : Scans (['i', 'n'] ++ ' ' :: (usedName ++ ')' :: cs)) (.isIn :: .name usedName :: .rightParen :: ts) :=
    hname.space.word (by decide +kernel) (by decide) (by decide) (by simpa using inName_separator ' ' (by decide))
  simpa only [statementEnd_eq, cons_append, nil_append, append_assoc] using hin.space

theorem lexeme (x : Lexeme) (hx : x.isWord = true → Lexeme.endsWord cs = true)
    (h : Scans cs ts) : Scans (x.statement ++ cs) (x.tokens ++ ts) := by
  have hsep : x.isWord = true → ∀ c ∈ cs.head?, inName c = false :=
    fun hword c hc => inName_separator c (mem_separators_of_endsWord (hx hword) c hc)
  cases x with
  | number n =>
    have hend : ∀ c ∈ (Api.statementEnd ++ cs).head?, isDecimal c = false := by
      simpa [statementEnd_eq] using isDecimal_separator ' ' (by decide)
    have hnumber := h.statementEnd.number n hend
    simpa [Lexeme.statement, Lexeme.tokens] using hnumber.sign (c := '(') (t := some .leftParen) (by decide) rfl
  | not => exact h.word (by decide +kernel) (by decide) (by decide) (hsep rfl)
  | operator op =>
    cases op with
    | or => exact h.word (by decide +kernel) (by decide) (by decide) (hsep rfl)
    | and => exact h.word (by decide +kernel) (by decide) (by decide) (hsep rfl)
    | bitOr => exact h.sign (t := some (.operator .bitOr)) (by decide) rfl
    | bitXor => exact h.sign (t := some (.operator .bitXor)) (by decide) rfl
    | bitAnd => exact h.sign (t := some (.operator .bitAnd)) (by decide) rfl
  | leftParen => exact h.sign (t := some .leftParen) (by decide) rfl
  | rightParen => exact h.sign (t := some .rightParen) (by decide) rfl

end Scans

theorem stateNumbers_space (cs : List Char) : stateNumbers (' ' :: cs) = ' ' :: stateNumbers cs :=
  stateGo_append_of_not_decimal [' '] cs (by simpa using isDecimal_separator ' ' (by decide))

theorem Lexeme.Spelled.scans {xs : List Lexeme} {cs : List Char} (h : Lexeme.Spelled xs cs) :
    Scans (stateNumbers cs) (xs.flatMap Lexeme.tokens) := by
  induction h with
  | nil => exact Scans.nil
  | space _ ih =>
    rw [stateNumbers_space]
    exact ih.space
  | cons x _ hx ih =>
    rw [stateNumbers_text_append x _ hx, flatMap_cons]
    exact ih.lexeme x fun hword => endsWord_stateNumbers (hx hword)

theorem dropWhile_statement_append (cs : List Char) :
    (x.statement ++ cs).dropWhile (fun c => c = ' ' || c = '\t' || c = '\n' || c = '\r') = x.statement ++ cs := by
  cases x with
  | operator op => cases op <;> rfl
  | _ => rfl

theorem Lexeme.Spelled.scans_dropWhile {xs : List Lexeme} {cs : List Char} (h : Lexeme.Spelled xs cs) :
    Scans ((stateNumbers cs).dropWhile fun c => c = ' ' || c = '\t' || c = '\n' || c = '\r')
      (xs.flatMap Lexeme.tokens) := by
  induction h with
  | nil => exact Scans.nil
  | space _ ih =>
    rw [stateNumbers_space, dropWhile_cons_of_pos (by simp)]
    exact ih
  | cons x hcs hx _ =>
    have hall := (hcs.cons x hx).scans
    rw [stateNumbers_text_append x _ hx] at hall ⊢
    rw [dropWhile_statement_append]
    exact hall

theorem le_depth : d ≤ Lexeme.depth d xs := by
  induction xs generalizing d with
  | nil => exact Nat.le_refl d
  | cons x xs ih =>
    cases x with
    | leftParen => exact Nat.le_trans (Nat.le_succ d) (ih (d + 1))
    | rightParen => exact Nat.le_max_left d _
    | number n => exact Nat.le_trans (Nat.le_succ d) (Nat.le_max_left _ _)
    | _ => exact ih d

theorem shallow_tokens (h : Lexeme.depth d xs ≤ maxDepth) : shallow d (xs.flatMap Lexeme.tokens) = true := by
  induction xs generalizing d with
  | nil => rfl
  | cons x xs ih =>
    rw [flatMap_cons]
    cases x with
    | leftParen =>
      have hd : d < maxDepth := Nat.lt_of_lt_of_le (le_depth (d + 1) xs) h
      simpa [Lexeme.tokens, shallow, hd] using ih (d + 1) h
    | rightParen =>
      have hrest := ih (d - 1) (Nat.le_trans (Nat.le_max_right d _) h)
      simpa [Lexeme.tokens, shallow] using hrest
    | number n =>
      have hd : d < maxDepth := Nat.le_trans (Nat.le_max_left (d + 1) _) h
      have hrest := ih d (Nat.le_trans (Nat.le_max_right (d + 1) _) h)
      simpa [Lexeme.tokens, shallow, hd] using hrest
    | not => simpa [Lexeme.tokens, shallow] using ih d h
    | operator op => simpa [Lexeme.tokens, shallow] using ih d h

theorem Lexeme.Spelled.scan_stateNumbers {xs : List Lexeme} {cs : List Char}
    (h : Lexeme.Spelled xs cs) (hdepth : Lexeme.depth 0 xs ≤ maxDepth) :
    scan (stateNumbers cs) = some (xs.flatMap Lexeme.tokens) := by
  have hscan := h.scans_dropWhile _ (Nat.lt_succ_self _)
  simp [scan, hscan, shallow_tokens 0 xs hdepth]

end Vetting.Api
