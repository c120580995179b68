import Vetting.Message.Text
import Vetting.Proofs.Text

/-!
# Reading messages in text form

`Cuts` says into which tokens a text is cut, by any amount of fuel that covers it, so that proofs follow the
lines and not the fuel; `Reads` does the same for the fields.
-/

namespace Vetting

open List

variable {ts : List Token}

theorem toList_toUTF8_singleton (c : Char) : (String.singleton c).toUTF8.toList = String.utf8EncodeChar c := by
  rw [toList_toUTF8, String.toList_singleton, flatMap_singleton]

theorem fromUTF8?_flatMap (cs : List Char) :
    String.fromUTF8? ⟨(cs.flatMap String.utf8EncodeChar).toArray⟩ = some (String.ofList cs) := by
  have hbytes : (⟨(cs.flatMap String.utf8EncodeChar).toArray⟩ : ByteArray) = cs.utf8Encode :=
    ByteArray.ext (Array.toList_inj.1 (by simp [List.utf8Encode]))
  rw [hbytes, String.fromUTF8?, dif_pos ⟨cs, rfl⟩]
  congr 1

namespace Message

/-! ## Tokens -/

/-- Whether a character stands for itself in a quoted text of a file. -/
def isPlain (c : Char) : Bool := c ≠ '"' && c ≠ '\\' && c ≠ '\n' && c ≠ '\r'

variable {s w : List Char} {a : Atom} {i : Item} {inner : String}

theorem readQuoted_plain (hs : ∀ c ∈ s, isPlain c = true) (acc : List UInt8) (cs : List Char) :
    readQuoted '"' acc (s ++ '"' :: cs) = some (acc.reverse ++ s.flatMap String.utf8EncodeChar, cs) := by
  induction s generalizing acc with
  | nil => simp [readQuoted]
  | cons c s ih =>
    obtain ⟨⟨⟨hquote, hback⟩, hline⟩, -⟩ : ((c ≠ '"' ∧ c ≠ '\\') ∧ c ≠ '\n') ∧ c ≠ '\r' := by
      simpa [isPlain] using hs c mem_cons_self
    have hrest := ih (fun d hd => hs d (mem_cons_of_mem c hd)) ((String.singleton c).toUTF8.toList.reverse ++ acc)
    rw [cons_append, readQuoted]
    · rw [if_neg hquote, if_neg (by simp [hback, hline]), hrest, toList_toUTF8_singleton]
      simp
    all_goals simp [hback]

/-- Whether a character is passed over between tokens. -/
def isPassed (c : Char) : Bool :=
  c = ' ' || c = '\t' || c = '\n' || c = '\r' || c.toNat = 11 || c.toNat = 12 || c = '#'

theorem isPassed_eq_false {c : Char} (h : startsWord c = true ∨ c.isDigit = true) : isPassed c = false := by
  have hcode : ∀ n, c.toNat = n → c = Char.ofNat n := fun n hn => by rw [← hn, Char.ofNat_toNat]
  by_contra hpassed
  simp only [isPassed, Bool.not_eq_false, Bool.or_eq_true, decide_eq_true_eq] at hpassed
  obtain (((((rfl | rfl) | rfl) | rfl) | hn) | hn) | rfl := hpassed
  case inl.inl.inr => rw [hcode 11 hn] at h; revert h; decide
  case inl.inr => rw [hcode 12 hn] at h; revert h; decide
  all_goals revert h; decide

theorem startsWord_of_isDigit {c : Char} (h : c.isDigit = true) : startsWord c = false := by
  have hlt : c.toNat < 58 := by
    simp only [Char.isDigit, Bool.and_eq_true, decide_eq_true_eq, UInt32.le_iff_toNat_le] at h
    exact Nat.lt_succ_of_le h.2
  have table : ∀ n : Fin 58, startsWord (Char.ofNat n) = false := by decide
  have hchar := table ⟨c.toNat, hlt⟩
  rwa [Char.ofNat_toNat] at hchar

theorem tokensGo_cons {c : Char} (hc : isPassed c = false) (fuel : Nat) (cs : List Char) :
    tokensGo (fuel + 1) (c :: cs) =
      if startsWord c then
        (tokensGo fuel (cs.dropWhile inWord)).map (.word (c :: cs.takeWhile inWord) :: ·)
      else if c.isDigit || c = '+' || c = '-' || (c = '.' && cs.head?.any Char.isDigit) then
        (tokensGo fuel (cs.dropWhile inNumber)).map (.number (c :: cs.takeWhile inNumber) :: ·)
      else if c = '"' || c = '\'' then
        (readQuoted c [] cs).bind fun p => (tokensGo fuel p.2).map (.quoted p.1 :: ·)
      else (tokensGo fuel cs).map (.mark c :: ·) := by
  simp only [isPassed, Bool.or_eq_false_iff, decide_eq_false_iff_not] at hc
  obtain ⟨⟨⟨⟨⟨⟨h₁, h₂⟩, h₃⟩, h₄⟩, h₅⟩, h₆⟩, h₇⟩ := hc
  simp only [tokensGo, h₁, h₂, h₃, h₄, h₅, h₆, h₇, decide_false, Bool.or_false, Bool.false_eq_true, if_false]
  cases readQuoted c [] cs <;> rfl

/-- A text is cut into tokens by any amount of fuel that covers its length. -/
def Cuts (cs : List Char) (ts : List Token) : Prop :=
  ∀ fuel, cs.length < fuel → tokensGo fuel cs = some ts

theorem Cuts.tokens_eq {cs : List Char} (h : Cuts cs ts) : tokens cs = some ts :=
  h _ (Nat.lt_succ_self _)

def isWord : List Char → Bool
  | [] => false
  | c :: cs => startsWord c && cs.all inWord

def endsWord (cs : List Char) : Bool := cs.head?.all fun c => !inNumber c

theorem head_of_endsWord {p : Char → Bool} {cs : List Char} (hp : ∀ c, p c = true → inNumber c = true)
    (hcs : endsWord cs = true) : ∀ c ∈ cs.head?, p c = false := by
  intro c hc
  rw [endsWord, Option.mem_def.1 hc] at hcs
  grind

namespace Cuts

variable {c : Char} {cs : List Char} {ts : List Token}

theorem nil : Cuts [] [] := by
  intro fuel hfuel
  obtain ⟨fuel, rfl⟩ := Nat.exists_eq_add_of_lt hfuel
  simp [tokensGo]

theorem of_cons (h : ∀ fuel, cs.length < fuel → tokensGo (fuel + 1) (c :: cs) = some ts) : Cuts (c :: cs) ts := by
  intro fuel hfuel
  cases fuel with
  | zero => simp at hfuel
  | succ fuel => exact h fuel (by simpa using hfuel)

theorem blank (hc : c = ' ' ∨ c = '\t' ∨ c = '\n') (h : Cuts cs ts) : Cuts (c :: cs) ts := by
  refine of_cons fun fuel hfuel => ?_
  rcases hc with rfl | rfl | rfl <;> simpa [tokensGo] using h fuel hfuel

theorem mark (hc : c = ':' ∨ c = '\x7b' ∨ c = '\x7d') (h : Cuts cs ts) : Cuts (c :: cs) (.mark c :: ts) := by
  refine of_cons fun fuel hfuel => ?_
  rcases hc with rfl | rfl | rfl <;> rw [tokensGo_cons (by decide)] <;> simp [h fuel hfuel, startsWord]

theorem word (hw : isWord w = true) (hcs : endsWord cs = true) (h : Cuts cs ts) : Cuts (w ++ cs) (.word w :: ts) := by
  cases w with
  | nil => cases hw
  | cons c w =>
    obtain ⟨hc, hw⟩ : startsWord c = true ∧ ∀ d ∈ w, inWord d = true := by simpa [isWord] using hw
    obtain ⟨htake, hdrop⟩ := Text.takeWhile_dropWhile_append hw
      (head_of_endsWord (fun d hd => by simp [inNumber, hd]) hcs)
    rw [cons_append]
    refine of_cons fun fuel hfuel => ?_
    have hrest := h fuel (by simp at hfuel; omega)
    rw [tokensGo_cons (isPassed_eq_false (.inl hc)), if_pos hc, htake, hdrop, hrest, Option.map_some]

theorem number (n : Nat) (hcs : endsWord cs = true) (h : Cuts cs ts) :
    Cuts (Nat.toDigits 10 n ++ cs) (.number (Nat.toDigits 10 n) :: ts) := by
  have hdigits : ∀ c ∈ Nat.toDigits 10 n, c.isDigit = true :=
    fun _ hc => Nat.isDigit_of_mem_toDigits (by omega) (by omega) hc
  cases hds : Nat.toDigits 10 n with
  | nil => exact absurd hds Nat.toDigits_ne_nil
  | cons d ds =>
    rw [hds] at hdigits
    have hd : d.isDigit = true := hdigits d mem_cons_self
    obtain ⟨htake, hdrop⟩ := Text.takeWhile_dropWhile_append (p := inNumber) (w := ds) (fun c hc => by
        simp [inNumber, inWord, Char.isAlphanum, hdigits c (mem_cons_of_mem d hc)])
      (head_of_endsWord (fun _ hc => hc) hcs)
    rw [cons_append]
    refine of_cons fun fuel hfuel => ?_
    have hrest := h fuel (by simp at hfuel; omega)
    rw [tokensGo_cons (isPassed_eq_false (.inr hd)), if_neg (by simp [startsWord_of_isDigit hd]),
      if_pos (by simp [hd]), htake, hdrop, hrest, Option.map_some]

theorem quoted (hs : ∀ c ∈ s, isPlain c = true) (h : Cuts cs ts) :
    Cuts ('"' :: (s ++ '"' :: cs)) (.quoted (s.flatMap String.utf8EncodeChar) :: ts) := by
  refine of_cons fun fuel hfuel => ?_
  have hrest := h fuel (by simp at hfuel; omega)
  rw [tokensGo_cons (by decide), if_neg (by decide), if_neg (by simp), if_pos (by decide), readQuoted_plain hs]
  simp [hrest]

end Cuts

/-! ## Lines -/

/-- A value in a line. -/
inductive Atom where
  | word (w : String)
  | text (s : String)
  | number (n : Nat)
deriving DecidableEq

namespace Atom

def chars : Atom → List Char
  | .word w => w.toList
  | .text s => '"' :: s.toList ++ ['"']
  | .number n => Nat.toDigits 10 n

def token : Atom → Token
  | .word w => .word w.toList
  | .text s => .quoted (s.toList.flatMap String.utf8EncodeChar)
  | .number n => .number (Nat.toDigits 10 n)

/-- Whether a value can be written as it is. -/
def isPlain : Atom → Bool
  | .word w => isWord w.toList
  | .text s => s.toList.all Message.isPlain
  | .number _ => true

end Atom

/-- A line of a message: a key and a value. -/
structure Line where
  key : String
  value : Atom
deriving DecidableEq

variable {key : String} {es : List Line} {f : Field} {fuel : Nat}

namespace Line

variable (e : Line)

/-- How a line is written, without its margin and its end. -/
def chars : List Char := e.key.toList ++ ':' :: ' ' :: e.value.chars

def tokens : List Token := [.word e.key.toList, .mark ':', e.value.token]

/-- Whether a line can be written as it is. -/
def isPlain : Bool := isWord e.key.toList && e.value.isPlain

theorem isPlain_of (hkey : isWord key.toList = true) (ha : a.isPlain = true) : isPlain ⟨key, a⟩ = true :=
  Bool.and_eq_true_iff.2 ⟨hkey, ha⟩

def inBlock : List Char := '\t' :: (e.chars ++ ['\n'])

end Line

def braced (key : String) (body : List Token) : List Token :=
  .word key.toList :: .mark '\x7b' :: (body ++ [.mark '\x7d'])

/-- A part of a block: a line, or a block of lines. -/
inductive Item where
  | line (e : Line)
  | block (key : String) (es : List Line)
deriving DecidableEq

namespace Item

def inBlock : Item → List Char
  | .line e => e.inBlock
  | .block key es =>
    '\t' :: (key.toList ++ " \x7b\n".toList ++ es.flatMap (fun e => '\t' :: e.inBlock) ++ "\t\x7d\n".toList)

def tokens : Item → List Token
  | .line e => e.tokens
  | .block key es => braced key (es.flatMap Line.tokens)

def isPlain : Item → Bool
  | .line e => e.isPlain
  | .block key es => isWord key.toList && es.all Line.isPlain

end Item

variable {is : List Item}

def blockChars (key : String) (is : List Item) : List Char :=
  key.toList ++ " \x7b\n".toList ++ is.flatMap Item.inBlock ++ "\x7d\n".toList

def blockTokens (key : String) (is : List Item) : List Token := braced key (is.flatMap Item.tokens)

namespace Cuts

variable {cs : List Char} {ts : List Token}

theorem atom (ha : a.isPlain = true) (hcs : endsWord cs = true) (h : Cuts cs ts) :
    Cuts (a.chars ++ cs) (a.token :: ts) := by
  cases a with
  | word w => exact h.word ha hcs
  | text s =>
    have hplain : ∀ c ∈ s.toList, isPlain c = true := by simpa [Atom.isPlain] using ha
    simpa [Atom.chars, Atom.token] using h.quoted hplain
  | number n => exact h.number n hcs

theorem line {e : Line} (he : e.isPlain = true) (hcs : endsWord cs = true) (h : Cuts cs ts) :
    Cuts (e.chars ++ cs) (e.tokens ++ ts) := by
  simp only [Line.isPlain, Bool.and_eq_true] at he
  have hvalue := ((h.atom he.2 hcs).blank (.inl rfl)).mark (.inl rfl)
  simpa [Line.chars, Line.tokens] using hvalue.word he.1 rfl

theorem inBlock {e : Line} (he : e.isPlain = true) (h : Cuts cs ts) : Cuts (e.inBlock ++ cs) (e.tokens ++ ts) := by
  have hline := ((h.blank (.inr (.inr rfl))).line he rfl).blank (.inr (.inl rfl))
  simpa [Line.inBlock] using hline

theorem flatMap {α : Type} {chars : α → List Char} {tokens : α → List Token} {xs : List α}
    (hxs : ∀ x ∈ xs, ∀ {cs ts}, Cuts cs ts → Cuts (chars x ++ cs) (tokens x ++ ts)) (h : Cuts cs ts) :
    Cuts (xs.flatMap chars ++ cs) (xs.flatMap tokens ++ ts) := by
  induction xs with
  | nil => exact h
  | cons x xs ih =>
    have hrest := ih fun y hy => hxs y (mem_cons_of_mem x hy)
    simpa using hxs x mem_cons_self hrest

theorem braced {body : List Char} {us : List Token} (hkey : isWord key.toList = true)
    (hbody : ∀ {cs ts}, Cuts cs ts → Cuts (body ++ cs) (us ++ ts)) (h : Cuts cs ts) :
    Cuts (key.toList ++ " \x7b\n".toList ++ body ++ "\x7d\n".toList ++ cs) (braced key us ++ ts) := by
  have hclose := (h.blank (.inr (.inr rfl))).mark (.inr (.inr rfl))
  have hopen := (((hbody hclose).blank (.inr (.inr rfl))).mark (.inr (.inl rfl))).blank (.inl rfl)
  simpa [Message.braced] using hopen.word hkey rfl

theorem item (hi : i.isPlain = true) (h : Cuts cs ts) : Cuts (i.inBlock ++ cs) (i.tokens ++ ts) := by
  cases i with
  | line e => exact h.inBlock hi
  | block key es =>
    simp only [Item.isPlain, Bool.and_eq_true, all_eq_true] at hi
    have hbody : ∀ {cs ts}, Cuts cs ts →
        Cuts (es.flatMap (fun e => '\t' :: e.inBlock) ++ ['\t'] ++ cs) (es.flatMap Line.tokens ++ ts) := by
      intro cs ts h
      rw [append_assoc]
      exact flatMap (fun e he _ _ h => (h.inBlock (hi.2 e he)).blank (.inr (.inl rfl))) (h.blank (.inr (.inl rfl)))
    have hblock := (h.braced hi.1 hbody).blank (c := '\t') (.inr (.inl rfl))
    simpa [Item.inBlock, Item.tokens] using hblock

theorem block (hkey : isWord key.toList = true) (his : ∀ i ∈ is, i.isPlain = true) (h : Cuts cs ts) :
    Cuts (blockChars key is ++ cs) (blockTokens key is ++ ts) :=
  h.braced hkey (flatMap fun i hi _ _ h => h.item (his i hi))

end Cuts

theorem notMem_return_of_isWord (hw : isWord w = true) : '\r' ∉ w := by
  cases w with
  | nil => simp
  | cons c w =>
    obtain ⟨hc, hw⟩ : startsWord c = true ∧ ∀ d ∈ w, inWord d = true := by simpa [isWord] using hw
    rw [mem_cons]
    rintro (rfl | hmem)
    · exact absurd hc (by decide)
    · exact absurd (hw _ hmem) (by decide)

theorem Line.notMem_return {e : Line} (he : e.isPlain = true) : '\r' ∉ e.chars := by
  obtain ⟨key, a⟩ := e
  simp only [isPlain, Bool.and_eq_true] at he
  have hkey := notMem_return_of_isWord he.1
  have hvalue : '\r' ∉ a.chars := by
    cases a with
    | word w => exact notMem_return_of_isWord he.2
    | text s =>
      have hs : '\r' ∉ s.toList := fun hmem =>
        absurd (all_eq_true.1 he.2 _ hmem) (by decide)
      simpa [Atom.chars] using hs
    | number n =>
      intro hmem
      exact absurd (Nat.isDigit_of_mem_toDigits (by decide) (by decide) hmem) (by decide)
  simpa [chars] using ⟨hkey, hvalue⟩

theorem Line.notMem_return_inBlock {e : Line} (he : e.isPlain = true) : '\r' ∉ e.inBlock := by
  simpa [inBlock] using notMem_return he

theorem Item.notMem_return (hi : i.isPlain = true) : '\r' ∉ i.inBlock := by
  cases i with
  | line e => exact Line.notMem_return_inBlock hi
  | block key es =>
    simp only [isPlain, Bool.and_eq_true, all_eq_true] at hi
    have hlines : ∀ e ∈ es, '\r' ∉ e.inBlock := fun e he => Line.notMem_return_inBlock (hi.2 e he)
    simpa [inBlock, notMem_return_of_isWord hi.1] using hlines

theorem notMem_return_blockChars (hkey : isWord key.toList = true) (his : ∀ i ∈ is, i.isPlain = true) :
    '\r' ∉ blockChars key is := by
  have hitems : ∀ i ∈ is, '\r' ∉ i.inBlock := fun i hi => Item.notMem_return (his i hi)
  simpa [blockChars, notMem_return_of_isWord hkey] using hitems

/-! ## Fields -/

/-- Whether tokens go on with a line or end a block. -/
def startsLine : List Token → Bool
  | [] => true
  | .word _ :: _ => true
  | .mark c :: _ => c = '\x7d'
  | _ => false

theorem skipSeparator_startsLine (h : startsLine ts = true) : skipSeparator ts = ts := by
  rw [skipSeparator] <;> rintro us rfl <;> simp [startsLine] at h

theorem joinQuoted_startsLine (h : startsLine ts = true) (bytes : List UInt8) :
    joinQuoted bytes ts = (bytes, ts) := by
  rw [joinQuoted]
  rintro us vs rfl
  simp [startsLine] at h

def Atom.doc? (f : Field) (a : Atom) : Option Doc := (readAtom f [a.token]).map Prod.fst

theorem readAtom_token (f : Field) (a : Atom) (h : startsLine ts = true) :
    readAtom f (a.token :: ts) = (a.doc? f).map fun d => (d, ts) := by
  cases a with
  | word w =>
    simp only [Atom.doc?, Atom.token, readAtom]
    cases f.kind <;> simp
    all_goals split_ifs <;> simp
  | text s =>
    have hnil : startsLine [] = true := rfl
    simp only [Atom.doc?, Atom.token, readAtom, joinQuoted_startsLine h, joinQuoted_startsLine hnil]
    cases f.kind <;> simp [Function.comp_def]
  | number n =>
    simp only [Atom.doc?, Atom.token, readAtom]
    cases wholeNumber? (Nat.toDigits 10 n) with
    | none => rfl
    | some m =>
      cases f.kind <;> simp
      all_goals split_ifs <;> simp

theorem Atom.doc?_text (hf : f.kind = .text) (s : String) : (Atom.text s).doc? f = some (.str s) := by
  simp [doc?, token, readAtom, hf, joinQuoted, fromUTF8?_flatMap]

theorem Atom.doc?_choice {e w : String} (hf : f.kind = .choice e) (hw : (numberOf? e w).isSome = true) :
    (Atom.word w).doc? f = some (.str w) := by
  simp [doc?, token, readAtom, hf, hw]

theorem wholeNumber?_toDigits (n : Nat) : wholeNumber? (Nat.toDigits 10 n) = some (n : Int) := by
  have hdigits : (Nat.toDigits 10 n).all Char.isDigit = true :=
    all_eq_true.2 fun _ hc => Nat.isDigit_of_mem_toDigits (by omega) (by omega) hc
  rcases Nat.eq_zero_or_pos n with rfl | hn
  · rfl
  · have hvalue := Text.natOfDigits_toDigits n
    have hzero := Text.head?_toDigits_ne_zero hn
    cases hds : Nat.toDigits 10 n with
    | nil => exact absurd hds Nat.toDigits_ne_nil
    | cons d ds =>
      rw [hds] at hdigits hvalue hzero
      have hne : d ≠ '-' ∧ d ≠ '+' ∧ d ≠ '0' := by
        refine ⟨?_, ?_, by simpa using hzero⟩ <;> rintro rfl <;> simp at hdigits
      obtain ⟨hminus, hplus, hzero⟩ := hne
      simp [wholeNumber?, hminus, hplus, hzero, hdigits, hvalue]

theorem Atom.doc?_int32 (hf : f.kind = .int32) (n : Nat) :
    (Atom.number n).doc? f = if n < 2 ^ 31 then some (.int n) else none := by
  have hlow : -(Int.pow 2 31) ≤ (n : Int) := by
    have hpow : (0 : Int) ≤ Int.pow 2 31 := by decide
    omega
  have hhigh : (n : Int) < Int.pow 2 31 ↔ n < 2 ^ 31 := by
    have hpow : Int.pow 2 31 = ((2 ^ 31 : Nat) : Int) := by decide
    omega
  simp only [doc?, token, readAtom, wholeNumber?_toDigits, hf, hlow, hhigh, decide_true,
    Bool.true_and, decide_eq_true_eq]
  split <;> rfl

/-- What a line makes of the fields read before it. -/
def putLine (shape : String) (fs : List (String × Doc)) (e : Line) : Option (List (String × Doc)) :=
  (field? shape e.key).bind fun f => (e.value.doc? f).map fun d => put shape f d fs

theorem Atom.token_ne_mark (a : Atom) (c : Char) : a.token ≠ .mark c := by
  cases a <;> simp [Atom.token]

theorem Atom.doc?_message (hf : f.kind = .message inner) (a : Atom) : a.doc? f = none := by
  cases a with
  | number n => cases h : wholeNumber? (Nat.toDigits 10 n) <;> simp [doc?, token, readAtom, hf, h]
  | _ => simp [doc?, token, readAtom, hf]

theorem readField_line (shape : String) (f : Field) (fuel : Nat) (fs : List (String × Doc))
    (a : Atom) (hts : startsLine ts = true) :
    readField shape f (fuel + 2) fs (.mark ':' :: a.token :: ts) =
      (a.doc? f).map fun d => (put shape f d fs, ts) := by
  have hitem : readItem shape f (fuel + 1) fs (a.token :: ts) = (a.doc? f).map fun d => (put shape f d fs, ts) := by
    cases hk : f.kind with
    | message inner =>
      rw [readItem]
      · simp [hk, Atom.doc?_message hk]
      all_goals simp [Atom.token_ne_mark]
    | _ =>
      rw [readItem]
      · simp [hk, readAtom_token f a hts, Function.comp_def]
      all_goals simp [Atom.token_ne_mark]
  rw [← hitem]
  cases hk : f.kind <;> cases a <;> simp [readField, hk, Atom.token]

theorem readFields_line (shape : String) (close : Option Char) (fuel : Nat)
    (fs : List (String × Doc)) (e : Line) (hts : startsLine ts = true) :
    readFields shape close (fuel + 3) fs (e.tokens ++ ts) =
      (putLine shape fs e).bind fun fs => readFields shape close (fuel + 2) fs ts := by
  simp only [Line.tokens, cons_append, nil_append, readFields, String.ofList_toList, putLine]
  cases field? shape e.key with
  | none => rfl
  | some f =>
    simp only [readField_line shape f fuel fs e.value hts, Option.bind_some]
    cases e.value.doc? f with
    | none => rfl
    | some d => simp [skipSeparator_startsLine hts]

/-- What a block makes of the fields before it. -/
def putBraced (shape key : String) (body : String → Option (List (String × Doc))) (fs : List (String × Doc)) :
    Option (List (String × Doc)) :=
  (field? shape key).bind fun f =>
    match f.kind with
    | .message inner => (body inner).map fun v => put shape f (.obj v) fs
    | _ => none

def putItem (shape : String) (fs : List (String × Doc)) : Item → Option (List (String × Doc))
  | .line e => putLine shape fs e
  | .block key es => putBraced shape key (fun inner => es.foldlM (putLine inner) []) fs

def putBlock (shape key : String) (fs : List (String × Doc)) (is : List Item) : Option (List (String × Doc)) :=
  putBraced shape key (fun inner => is.foldlM (putItem inner) []) fs

theorem readField_open (shape : String) (hf : f.kind = .message inner) (fuel : Nat) (fs : List (String × Doc))
    (ts : List Token) :
    readField shape f (fuel + 2) fs (.mark '\x7b' :: ts) =
      (readFields inner (some '\x7d') fuel [] ts).map fun (v, ts) => (put shape f (.obj v) fs, ts) := by
  simp [readField, readItem, hf]

/-- What tokens are read as after any fields, by any amount of fuel that covers them. -/
def Reads (shape : String) (close : Option Char) (ts : List Token)
    (k : List (String × Doc) → Option (List (String × Doc) × List Token)) : Prop :=
  ∀ fs fuel, 4 * ts.length + 4 ≤ fuel → readFields shape close fuel fs ts = k fs

namespace Reads

variable {shape : String} {close : Option Char} {ts : List Token}
  {k : List (String × Doc) → Option (List (String × Doc) × List Token)}

theorem closed : Reads shape (some '\x7d') (.mark '\x7d' :: ts) fun fs => some (fs, ts) := by
  intro fs fuel hfuel
  obtain ⟨fuel, rfl⟩ : ∃ n, fuel = n + 1 := ⟨fuel - 1, by omega⟩
  simp [readFields]

theorem line (e : Line) (hts : startsLine ts = true) (h : Reads shape close ts k) :
    Reads shape close (e.tokens ++ ts) fun fs => (putLine shape fs e).bind k := by
  intro fs fuel hfuel
  have hlength : (e.tokens ++ ts).length = ts.length + 3 := by simp [Line.tokens]
  obtain ⟨fuel, rfl⟩ : ∃ n, fuel = n + 3 := ⟨fuel - 3, by omega⟩
  rw [readFields_line shape close fuel fs e hts]
  dsimp only
  cases putLine shape fs e with
  | none => rfl
  | some fs' => exact h fs' (fuel + 2) (by omega)

/-- A block is read as its body is, and what follows after it. -/
theorem braced {body : List Token} {g : String → List (String × Doc) → Option (List (String × Doc))}
    (hbody : ∀ inner, Reads inner (some '\x7d') (body ++ .mark '\x7d' :: ts) fun fs => (g inner fs).map (·, ts))
    (hts : startsLine ts = true) (h : Reads shape close ts k) :
    Reads shape close (braced key body ++ ts) fun fs => (putBraced shape key (g · []) fs).bind k := by
  intro fs fuel hfuel
  have hlength : (Message.braced key body ++ ts).length = body.length + ts.length + 3 := by
    simp [Message.braced]
    omega
  obtain ⟨left, rfl⟩ : ∃ n, fuel = n + 1 := ⟨fuel - 1, by omega⟩
  simp only [Message.braced, cons_append, append_assoc, nil_append, readFields, String.ofList_toList, putBraced]
  obtain ⟨fuel, rfl⟩ : ∃ n, left = n + 2 := ⟨left - 2, by omega⟩
  cases field? shape key with
  | none => rfl
  | some f =>
    simp only [Option.bind_some]
    cases hk : f.kind with
    | message inner =>
      have hinner := hbody inner [] fuel (by simp only [length_append, length_cons]; omega)
      simp only [readField_open shape hk, hinner]
      cases g inner [] with
      | none => rfl
      | some v => simpa [skipSeparator_startsLine hts] using h _ (fuel + 2) (by omega)
    | _ => simp [readField, hk]

theorem flatMap {α : Type} {tokens : α → List Token} {put : List (String × Doc) → α → Option (List (String × Doc))}
    (xs : List α) (hstart : ∀ x ts, startsLine (tokens x ++ ts) = true)
    (hxs : ∀ x ∈ xs, ∀ {ts k}, startsLine ts = true → Reads shape close ts k →
      Reads shape close (tokens x ++ ts) fun fs => (put fs x).bind k)
    (hts : startsLine ts = true) (h : Reads shape close ts k) :
    Reads shape close (xs.flatMap tokens ++ ts) fun fs => (xs.foldlM put fs).bind k := by
  induction xs with
  | nil => exact h
  | cons x xs ih =>
    have hrest : startsLine (xs.flatMap tokens ++ ts) = true := by
      cases xs with
      | nil => exact hts
      | cons y ys => simpa using hstart y _
    have hall := hxs x mem_cons_self hrest (ih fun y hy => hxs y (mem_cons_of_mem x hy))
    intro fs fuel hfuel
    rw [flatMap_cons, append_assoc] at hfuel ⊢
    rw [hall fs fuel hfuel]
    dsimp only
    rw [foldlM_cons, Option.bind_eq_bind, Option.bind_assoc]

theorem lines (es : List Line) (hts : startsLine ts = true) (h : Reads shape close ts k) :
    Reads shape close (es.flatMap Line.tokens ++ ts) fun fs => (es.foldlM (putLine shape) fs).bind k :=
  flatMap es (fun _ _ => rfl) (fun e _ _ _ => line e) hts h

theorem item (i : Item) (hts : startsLine ts = true) (h : Reads shape close ts k) :
    Reads shape close (i.tokens ++ ts) fun fs => (putItem shape fs i).bind k := by
  cases i with
  | line e => exact line e hts h
  | block key es =>
    refine braced (g := fun inner fs => es.foldlM (putLine inner) fs) (fun inner => ?_) hts h
    simpa [Option.map_eq_bind] using lines es rfl closed

theorem block (key : String) (is : List Item) (hts : startsLine ts = true) (h : Reads shape close ts k) :
    Reads shape close (blockTokens key is ++ ts) fun fs => (putBlock shape key fs is).bind k := by
  refine braced (g := fun inner fs => is.foldlM (putItem inner) fs) (fun inner => ?_) hts h
  have hstart : ∀ (i : Item) ts, startsLine (i.tokens ++ ts) = true := by
    intro i ts
    cases i <;> rfl
  simpa [Option.map_eq_bind] using flatMap is hstart (fun i _ _ _ => item i) rfl closed

end Reads

theorem ofText?_blocks (shape key : String) {bs : List (List Item)} {last : Line}
    (hkey : isWord key.toList = true) (hbs : ∀ is ∈ bs, ∀ i ∈ is, i.isPlain = true)
    (hlast : last.isPlain = true) :
    ofText? shape (String.ofList (bs.flatMap (blockChars key) ++ last.chars)) =
      ((bs.foldlM (putBlock shape key) []).bind fun fs => putLine shape fs last).map fun fs =>
        normal shape (.obj fs) := by
  have hend : Cuts last.chars last.tokens := by simpa using Cuts.nil.line hlast rfl
  have hcut := Cuts.flatMap (fun is his _ _ h => h.block hkey (hbs is his)) hend
  have hnil : Reads shape none [] fun fs => some (fs, []) := by
    intro fs fuel hfuel
    obtain ⟨fuel, rfl⟩ : ∃ n, fuel = n + 1 := ⟨fuel - 1, by omega⟩
    rfl
  have hline : Reads shape none last.tokens fun fs => (putLine shape fs last).bind fun fs => some (fs, []) := by
    simpa using hnil.line last rfl
  have hread := Reads.flatMap bs (fun _ _ => rfl) (fun is _ _ _ => Reads.block key is) rfl hline [] _ (Nat.le_refl _)
  rw [ofText?, String.toList_ofList, hcut.tokens_eq]
  simp only [hread]
  cases bs.foldlM (putBlock shape key) [] with
  | none => rfl
  | some fs =>
    simp only [Option.bind_some]
    cases putLine shape fs last <;> rfl

end Message

end Vetting
