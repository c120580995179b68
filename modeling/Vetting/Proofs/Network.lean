import Vetting.Network
import Vetting.Proofs.Package.Version

/-!
# Host names

More is taken for a host name than one may hold: the four letters that fold to ASCII ones, the digits of all
scripts, and a line feed after each label.
-/

namespace Vetting.Network

open List

variable {c : Char}

/-- A label over a class of characters: 1 to 63 of them, without a hyphen at an end. -/
structure IsLabelOf (p : Char → Prop) (l : List Char) : Prop where
  length_pos : 1 ≤ l.length
  length_le : l.length ≤ 63
  chars : ∀ c ∈ l, p c
  head : l.head? ≠ some '-'
  last : l.getLast? ≠ some '-'

/-- A text without one dot at its end, if there is one. -/
def withoutDot (cs : List Char) : List Char := if cs.getLast? = some '.' then cs.dropLast else cs

/-- At most 255 characters that are, without one dot at the end, two or more labels. -/
def IsDotted (label : List Char → Prop) (cs : List Char) : Prop :=
  cs.length ≤ 255 ∧ ∃ labels : List (List Char), 2 ≤ labels.length ∧ (∀ l ∈ labels, label l) ∧
    withoutDot cs = ['.'].intercalate labels

/-- The characters of host names: ASCII letters and digits, and hyphens. -/
def IsNameChar (c : Char) : Prop := c.isAlphanum = true ∨ c = '-'

/-- The characters that are taken in host names. -/
def IsReadChar (c : Char) : Prop := IsNameChar c ∨ c ∈ ['İ', 'ı', 'ſ', '\u212A'] ∨ Text.isDecimal c = true

/-- A label as it is taken: a line feed may follow it. -/
def IsReadLabel (l : List Char) : Prop := ∃ core, IsLabelOf IsReadChar core ∧ (l = core ∨ l = core ++ ['\n'])

theorem isLabelChar_iff : isLabelChar c = true ↔ IsReadChar c := by
  have hcode : ∀ d : Char, c.toNat = d.toNat ↔ c = d := fun d => Char.toNat_inj
  have hfold : (c.toNat = 0x130 ∨ c.toNat = 0x131 ∨ c.toNat = 0x17F ∨ c.toNat = 0x212A) ↔
      c ∈ ['İ', 'ı', 'ſ', '\u212A'] := by
    simp [← hcode]
  have hdigit : c.isDigit = true → Text.isDecimal c = true := Text.isDecimal_of_isDigit
  simp only [isLabelChar, isLabelLetter, IsReadChar, IsNameChar, Char.isAlphanum, Bool.or_eq_true,
    decide_eq_true_eq, ← hfold]
  grind

theorem isBareLabel_iff {l : List Char} : isBareLabel l = true ↔ IsLabelOf IsReadChar l := by
  simp only [isBareLabel, Bool.and_eq_true, decide_eq_true_eq, all_eq_true, isLabelChar_iff, bne_iff_ne]
  constructor
  · rintro ⟨⟨⟨⟨hpos, hle⟩, hchars⟩, hhead⟩, hlast⟩
    exact ⟨hpos, hle, hchars, hhead, hlast⟩
  · rintro ⟨hpos, hle, hchars, hhead, hlast⟩
    exact ⟨⟨⟨⟨hpos, hle⟩, hchars⟩, hhead⟩, hlast⟩

theorem IsReadChar.ne_dot (h : IsReadChar c) : c ≠ '.' ∧ c ≠ '\n' := by
  have hother : isLabelChar '.' = false ∧ isLabelChar '\n' = false := by
    unfold isLabelChar Text.isDecimal
    decide +kernel
  constructor <;> rintro rfl <;> simp [← isLabelChar_iff, hother] at h

theorem isLabel_iff {l : List Char} : isLabel l = true ↔ IsReadLabel l := by
  rw [isLabel, isBareLabel_iff]
  constructor
  · intro h
    split at h
    case isTrue hlast => exact ⟨_, h, .inr (dropLast_append_getLast? _ hlast).symm⟩
    case isFalse => exact ⟨l, h, .inl rfl⟩
  · rintro ⟨core, hcore, rfl | rfl⟩
    · rwa [if_neg fun hlast => (hcore.chars _ (mem_of_getLast? hlast)).ne_dot.2 rfl]
    · simpa using hcore

theorem IsReadLabel.dot_notMem {l : List Char} (h : IsReadLabel l) : '.' ∉ l := by
  obtain ⟨core, hcore, hl⟩ := h
  have hdot : '.' ∉ core := fun hin => (hcore.chars _ hin).ne_dot.1 rfl
  rcases hl with rfl | rfl <;> simp [hdot]

theorem all_isLabel_iff {cs : List Char} : (cs.contains '.' && (Text.splitChars ['.'] cs).all isLabel) = true ↔
      ∃ labels : List (List Char), 2 ≤ labels.length ∧ (∀ l ∈ labels, IsReadLabel l) ∧
        cs = ['.'].intercalate labels := by
  simp only [Text.splitChars_eq_splitOn, Bool.and_eq_true, all_eq_true, isLabel_iff, contains_iff_mem]
  constructor
  · rintro ⟨hdot, hlabels⟩
    refine ⟨cs.splitOn '.', ?_, hlabels, (intercalate_splitOn '.').symm⟩
    obtain ⟨as, bs, rfl⟩ := append_of_mem hdot
    rw [splitOn_append_cons_self, length_append]
    have has := length_pos_iff.2 (splitOn_ne_nil '.' as)
    have hbs := length_pos_iff.2 (splitOn_ne_nil '.' bs)
    omega
  · rintro ⟨labels, htwo, hlabels, rfl⟩
    rw [splitOn_intercalate '.' (fun l hl => (hlabels l hl).dot_notMem) (by rintro rfl; simp at htwo)]
    exact ⟨Text.mem_intercalate.2 (.inl ⟨rfl, htwo⟩), hlabels⟩

theorem mem_withoutDot (hc : c ≠ '.') {cs : List Char} : c ∈ withoutDot cs ↔ c ∈ cs := by
  rw [withoutDot]
  split
  case isTrue hdot =>
    conv_rhs => rw [← dropLast_append_getLast? _ hdot]
    simp [hc]
  case isFalse => rfl

theorem IsNameChar.isAscii (h : IsNameChar c) : c.toNat < 128 ∧ c ≠ '\n' := by
  refine ⟨?_, fun hfeed => by subst hfeed; simp [IsNameChar] at h⟩
  rcases h with h | rfl
  · simp only [Char.isAlphanum, Char.isAlpha, Char.isUpper, Char.isLower, Char.isDigit, Bool.or_eq_true,
      Bool.and_eq_true, decide_eq_true_eq, UInt32.le_iff_toNat_le, ↓Char.isValue, Char.reduceVal,
      UInt32.reduceToNat, Char.toNat_val] at h
    omega
  · decide

theorem IsReadChar.isNameChar (h : IsReadChar c) (hc : c.toNat < 128) : IsNameChar c := by
  rcases h with h | h | h
  · exact h
  · simp only [mem_cons, not_mem_nil, or_false] at h
    rcases h with rfl | rfl | rfl | rfl <;> exact absurd hc (by decide)
  · have hdigit := Package.isDigit_of_ascii hc (by rw [Text.isDigit, h, Bool.true_or])
    exact .inl (by rw [Char.isAlphanum, hdigit, Bool.or_true])

theorem IsDotted.isAscii {cs : List Char} (h : IsDotted (IsLabelOf IsNameChar) cs) :
    ∀ c ∈ cs, c.toNat < 128 ∧ c ≠ '\n' := by
  obtain ⟨-, labels, -, hlabels, hcs⟩ := h
  intro c hc
  by_cases hdot : c = '.'
  · subst hdot
    decide
  · rw [← mem_withoutDot hdot, hcs, Text.mem_intercalate] at hc
    obtain ⟨rfl, -⟩ | ⟨l, hl, hc⟩ := hc
    · exact absurd rfl hdot
    · exact ((hlabels l hl).chars c hc).isAscii

/-- A text is taken for a host name just if it has at most 255 characters and is, without one dot at the end, two
or more labels as they are taken. The host names are those of these texts that have only ASCII characters and
no line feed. -/
theorem isHostName_iff (cs : List Char) : (isHostName cs = true ↔ IsDotted IsReadLabel cs) ∧
    (IsDotted (IsLabelOf IsNameChar) cs ↔ isHostName cs = true ∧ ∀ c ∈ cs, c.toNat < 128 ∧ c ≠ '\n') := by
  have hread : isHostName cs = true ↔ IsDotted IsReadLabel cs := by
    rw [isHostName, IsDotted, ← all_isLabel_iff, ← withoutDot]
    by_cases hempty : cs = []
    · simp [hempty, withoutDot]
    · simp [hempty]
  refine ⟨hread, ?_, ?_⟩
  · intro h
    have hplain := h.isAscii
    obtain ⟨hlen, labels, htwo, hlabels, hcs⟩ := h
    have htaken : ∀ l ∈ labels, IsReadLabel l := fun l hl =>
      ⟨l, { hlabels l hl with chars := fun c hc => .inl ((hlabels l hl).chars c hc) }, .inl rfl⟩
    exact ⟨hread.2 ⟨hlen, labels, htwo, htaken, hcs⟩, hplain⟩
  · rintro ⟨hname, hplain⟩
    obtain ⟨hlen, labels, htwo, hlabels, hcs⟩ := hread.1 hname
    refine ⟨hlen, labels, htwo, fun l hl => ?_, hcs⟩
    have hin : ∀ c ∈ l, c ∈ cs := fun c hc => by
      have hdot : c ≠ '.' := ne_of_mem_of_not_mem hc (hlabels l hl).dot_notMem
      rw [← mem_withoutDot hdot, hcs, Text.mem_intercalate]
      exact .inr ⟨l, hl, hc⟩
    obtain ⟨core, hcore, rfl | rfl⟩ := hlabels l hl
    · exact { hcore with chars := fun c hc => (hcore.chars c hc).isNameChar (hplain c (hin c hc)).1 }
    · exact absurd rfl (hplain '\n' (hin _ (by simp))).2

/-- Two labels of which the first ends with a line feed are taken for a host name. -/
theorem isHostName_line_feed : isHostName "a\n.b".toList = true ∧ ¬ IsDotted (IsLabelOf IsNameChar) "a\n.b".toList :=
  ⟨by decide +kernel, fun h => (h.isAscii '\n' (by simp)).2 rfl⟩

end Vetting.Network
