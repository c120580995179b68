import Mathlib
import Vetting.Text.Digit

/-!
# Where texts occur in others

Searching a text for another one, in terms of prefixes, suffixes and infixes. Texts and their bytes.
-/

namespace Vetting.Text

open List

variable {c : Char}

theorem takeWhile_dropWhile_append {p : Char → Bool} {w cs : List Char} (hw : ∀ c ∈ w, p c = true)
    (hcs : ∀ c ∈ cs.head?, p c = false) :
    (w ++ cs).takeWhile p = w ∧ (w ++ cs).dropWhile p = cs := by
  rw [takeWhile_append_of_pos hw, dropWhile_append_of_pos hw]
  cases cs with
  | nil => simp
  | cons c cs => simp [hcs c (by simp)]

theorem occursIn_iff {sub cs : List Char} : occursIn sub cs = true ↔ sub <:+: cs := by
  induction cs with
  | nil => simp [occursIn]
  | cons c cs ih => simp [occursIn, ih, infix_cons_iff]

theorem contains_eq_true_iff {s sub : String} : contains s sub = true ↔ sub.toList <:+: s.toList := occursIn_iff

variable {s p : String} {ss : List String} {n : Nat}

theorem startsWith_iff : startsWith s p = true ↔ p.toList <+: s.toList := by
  rw [startsWith, isPrefixOf_iff_prefix]

theorem startsWith_append (a b : String) : startsWith (a ++ b) a = true := by
  rw [startsWith_iff, String.toList_append]
  exact prefix_append _ _

theorem endsWith_iff : endsWith s p = true ↔ p.toList <:+ s.toList := by
  rw [endsWith, isSuffixOf_iff_suffix]

theorem findChars_append {sub xs : List Char} (h : ¬ sub <:+: xs ++ sub.dropLast) (ys : List Char) :
    findChars sub (xs ++ (sub ++ ys)) = some xs.length := by
  induction xs with
  | nil =>
    cases sub with
    | nil => exact absurd nil_infix h
    | cons c sub => simp [findChars]
  | cons c xs ih =>
    have hrest : ¬ sub <:+: xs ++ sub.dropLast := fun hi => h (infix_cons hi)
    -- an occurrence right here would end before the last character of the one behind
    have hhere : ¬ sub <+: c :: (xs ++ (sub ++ ys)) := by
      intro hp
      refine h (List.IsPrefix.isInfix (prefix_of_prefix_length_le hp ?_ ?_))
      · have hdrop : sub.dropLast <+: sub ++ ys := ( dropLast_prefix sub).trans (prefix_append sub ys)
        simpa using prefix_append_right_inj (c :: xs) |>.2 hdrop
      · simp only [cons_append, length_cons, length_append, length_dropLast]
        omega
    simp [findChars, isPrefixOf_iff_prefix, hhere, ih hrest]

theorem findChars_eq_none {sub cs : List Char} (h : ¬ sub <:+: cs) : findChars sub cs = none := by
  induction cs with
  | nil =>
    have hne : sub ≠ [] := fun hnil => h (hnil ▸ nil_infix)
    simp [findChars, hne]
  | cons c cs ih =>
    rw [infix_cons_iff, not_or] at h
    simp [findChars, isPrefixOf_iff_prefix, h.1, ih h.2]

variable {cs : List Char}

theorem stripChars_eq_nil_iff {p : Char → Bool} : stripChars p cs = [] ↔ ∀ c ∈ cs, p c = true := by
  rw [stripChars, stripEnd, stripStart, reverse_eq_nil_iff, dropWhile_eq_nil_iff]
  constructor
  · intro h c hc
    by_contra hp
    cases hd : cs.dropWhile p with
    | nil => exact hp (dropWhile_eq_nil_iff.1 hd c hc)
    | cons d ds =>
      have hhead : p d = false := by
        simpa [hd] using head?_dropWhile_not p cs
      have hall : p d = true := h d (by simp [hd])
      simp [hhead] at hall
  · intro h c hc
    exact h c ((dropWhile_sublist p).subset (mem_reverse.1 hc))

theorem exists_stripChars (p : Char → Bool) (cs : List Char) :
    ∃ as bs, cs = as ++ (stripChars p cs ++ bs) ∧ (∀ c ∈ as, p c = true) ∧
      (∀ c ∈ bs, p c = true) ∧ (cs.head?.any p = true → as ≠ []) := by
  refine ⟨cs.takeWhile p, ((cs.dropWhile p).reverse.takeWhile p).reverse, ?_, ?_, ?_, ?_⟩
  · rw [stripChars, stripEnd, stripStart, ← reverse_append, takeWhile_append_dropWhile,
      reverse_reverse, takeWhile_append_dropWhile]
  · exact fun c hc => mem_takeWhile_imp hc
  · exact fun c hc => mem_takeWhile_imp (mem_reverse.1 hc)
  · cases cs with
    | nil => simp
    | cons c cs =>
      intro hc
      simp [show p c = true by simpa using hc]

theorem stripChars_eq_self {p : Char → Bool} (h : ∀ c ∈ cs, p c = false) : stripChars p cs = cs := by
  obtain ⟨as, bs, hcs, has, hbs, -⟩ := exists_stripChars p cs
  have hnone : ∀ ds : List Char, (∀ c ∈ ds, p c = true) → (∀ c ∈ ds, c ∈ cs) → ds = [] := by
    intro ds hds hsub
    refine eq_nil_iff_forall_not_mem.2 fun c hc => ?_
    have := h c (hsub c hc)
    rw [hds c hc] at this
    cases this
  have has' : as = [] := hnone as has fun c hc => by rw [hcs]; simp [hc]
  have hbs' : bs = [] := hnone bs hbs fun c hc => by rw [hcs]; simp [hc]
  rw [has', hbs', nil_append, append_nil] at hcs
  exact hcs.symm

theorem stripOf_eq_self {s chars : String} (h : ∀ c ∈ chars.toList, c ∉ s.toList) : stripOf s chars = s := by
  rw [stripOf, stripChars_eq_self fun c hc => by simpa using fun hin => h c hin hc, String.ofList_toList]

/-! ## Pieces -/

theorem splitGo_of_notMem (h : c ∉ cs) (acc : List Char) : splitGo [c] 0 acc cs = [acc.reverse ++ cs] := by
  induction cs generalizing acc with
  | nil => simp [splitGo]
  | cons d cs ih =>
    rw [mem_cons, not_or] at h
    simp [splitGo, h.1, ih h.2]

theorem splitGo_append_cons (c : Char) (ds cs acc : List Char) :
    splitGo [c] 0 acc (ds ++ c :: cs) = splitGo [c] 0 acc ds ++ splitGo [c] 0 [] cs := by
  induction ds generalizing acc with
  | nil => simp [splitGo]
  | cons d ds ih =>
    by_cases hd : c = d
    · subst hd
      simp [splitGo, ih]
    · simp [splitGo, hd, ih]

theorem splitGo_append (h : c ∉ cs) (ds acc : List Char) :
    splitGo [c] 0 acc (ds ++ c :: cs) = splitGo [c] 0 acc ds ++ [cs] := by
  rw [splitGo_append_cons, splitGo_of_notMem h, reverse_nil, nil_append]

theorem notMem_of_mem_splitGo {cs acc ps : List Char} (hacc : c ∉ acc)
    (h : ps ∈ splitGo [c] 0 acc cs) : c ∉ ps := by
  induction cs generalizing acc with
  | nil =>
    rw [splitGo, mem_singleton] at h
    rwa [h, mem_reverse]
  | cons d cs ih =>
    by_cases hd : c = d
    · subst hd
      have hcut : ps = acc.reverse ∨ ps ∈ splitGo [c] 0 [] cs := by simpa [splitGo] using h
      rcases hcut with rfl | hrest
      · rwa [mem_reverse]
      · exact ih not_mem_nil hrest
    · have hon : ps ∈ splitGo [c] 0 (d :: acc) cs := by simpa [splitGo, hd] using h
      exact ih (by simp [hd, hacc]) hon

theorem splitChars_eq_splitOn (c : Char) (cs : List Char) : splitChars [c] cs = cs.splitOn c := by
  have hgo : ∀ acc, splitGo [c] 0 acc cs = splitOnPPrepend (· == c) cs acc := by
    induction cs with
    | nil => simp [splitGo]
    | cons d cs ih =>
      intro acc
      by_cases hd : c = d
      · subst hd
        simp [splitGo, splitOnPPrepend_cons_eq_if, ih]
      · simp [splitGo, splitOnPPrepend_cons_eq_if, hd, Ne.symm hd, ih]
  rw [splitChars, hgo, splitOn_eq_splitOnP, splitOnP_eq_splitOnPPrepend]

theorem mem_intercalate {c d : Char} {ls : List (List Char)} :
    c ∈ [d].intercalate ls ↔ (c = d ∧ 2 ≤ ls.length) ∨ ∃ l ∈ ls, c ∈ l := by
  induction ls with
  | nil => simp
  | cons a rest ih =>
    cases rest with
    | nil => simp
    | cons b rest =>
      rw [intercalate_cons_cons, mem_append, mem_append, ih]
      simp only [mem_singleton, exists_mem_cons_iff, length_cons]
      grind

theorem mem_of_mem_splitChars {c d : Char} {cs ps : List Char} (h : ps ∈ splitChars [c] cs) (hd : d ∈ ps) : d ∈ cs := by
  rw [splitChars_eq_splitOn] at h
  have hjoined : d ∈ [c].intercalate (cs.splitOn c) := mem_intercalate.2 (.inr ⟨ps, h, hd⟩)
  rwa [intercalate_splitOn] at hjoined

theorem splitGo_ne_nil (sep : List Char) (k : Nat) (acc cs : List Char) : splitGo sep k acc cs ≠ [] := by
  fun_induction splitGo <;> simp_all

theorem splitOn_ne_nil (s sep : String) : splitOn s sep ≠ [] := by
  rw [splitOn, Ne, map_eq_nil_iff]
  exact splitGo_ne_nil sep.toList 0 [] s.toList

section SplitOn

variable {sep : String} {c : Char} (hsep : sep.toList = [c])

include hsep

theorem splitOn_of_notMem (hs : c ∉ s.toList) : splitOn s sep = [s] := by
  rw [splitOn, hsep, splitChars, splitGo_of_notMem hs]
  simp

theorem splitOn_append (s t : String) : splitOn (s ++ sep ++ t) sep = splitOn s sep ++ splitOn t sep := by
  have hchars : (s ++ sep ++ t).toList = s.toList ++ c :: t.toList := by simp [hsep]
  rw [splitOn, splitOn, splitOn, hchars, hsep, splitChars, splitGo_append_cons, map_append]
  rfl

theorem splitOn_join (hne : ss ≠ []) (hss : ∀ s ∈ ss, c ∉ s.toList) : splitOn (join sep ss) sep = ss := by
  induction ss with
  | nil => exact absurd rfl hne
  | cons s ss ih =>
    rw [forall_mem_cons] at hss
    cases ss with
    | nil => exact splitOn_of_notMem hsep hss.1
    | cons t ss =>
      rw [join, splitOn_append hsep, splitOn_of_notMem hsep hss.1, ih (cons_ne_nil t ss) hss.2, singleton_append]

end SplitOn

theorem append_cons_inj {xs ys as bs : List Char} (hx : c ∉ xs) (hy : c ∉ ys) :
    xs ++ c :: as = ys ++ c :: bs ↔ xs = ys ∧ as = bs := by
  refine ⟨fun h => ?_, fun ⟨hxs, has⟩ => by rw [hxs, has]⟩
  induction xs generalizing ys with
  | nil =>
    cases ys with
    | nil => exact ⟨rfl, (List.cons.inj h).2⟩
    | cons y ys => exact absurd (List.cons.inj h).1 (ne_of_not_mem_cons hy)
  | cons x xs ih =>
    cases ys with
    | nil => exact absurd (List.cons.inj h).1.symm (ne_of_not_mem_cons hx)
    | cons y ys =>
      obtain ⟨rfl, htail⟩ := List.cons.inj h
      obtain ⟨rfl, rfl⟩ := ih (not_mem_of_not_mem_cons hx) (not_mem_of_not_mem_cons hy) htail
      exact ⟨rfl, rfl⟩

theorem cutLast_append_cons {bs : List Char} (h : c ∉ bs) (as : List Char) :
    cutLast c (as ++ c :: bs) = some (as, bs) := by
  have hreverse : (as ++ c :: bs).reverse = bs.reverse ++ c :: as.reverse := by simp
  have htail : (as ++ c :: bs).reverse.takeWhile (· != c) = bs.reverse := by
    rw [hreverse, takeWhile_append_of_pos (by simpa using fun d hd => ne_of_mem_of_not_mem hd h)]
    simp
  simp only [cutLast, htail]
  rw [hreverse, drop_left]
  simp

theorem append_of_cutLast {cs as bs : List Char} (h : cutLast c cs = some (as, bs)) :
    cs = as ++ c :: bs := by
  generalize hts : cs.reverse.takeWhile (· != c) = ts
  have hwhole : ts ++ cs.reverse.dropWhile (· != c) = cs.reverse :=
    hts ▸ takeWhile_append_dropWhile
  have hdrop : cs.reverse.drop ts.length = cs.reverse.dropWhile (· != c) := by
    conv_lhs => rw [← hwhole, drop_left]
  simp only [cutLast, hts, hdrop] at h
  cases hd : cs.reverse.dropWhile (· != c) with
  | nil => simp [hd] at h
  | cons d ds =>
    have hc : d = c := by simpa [hd] using head?_dropWhile_not (· != c) cs.reverse
    obtain ⟨rfl, rfl⟩ : ds.reverse = as ∧ ts.reverse = bs := by simpa [hd] using h
    rw [← reverse_reverse cs, ← hwhole, hd, hc]
    simp

theorem notMem_of_cutLast (c : Char) (cs : List Char) : (cutLast c cs).elim (c ∉ cs) fun p => c ∉ p.2 := by
  have htail : c ∉ cs.reverse.takeWhile (· != c) := by
    intro h
    simpa using mem_takeWhile_imp h
  simp only [cutLast]
  split
  case h_1 hnil =>
    have hall : cs.reverse.takeWhile (· != c) = cs.reverse :=
      ( takeWhile_prefix _).eq_of_length_le (drop_eq_nil_iff.1 hnil)
    rw [hall, mem_reverse] at htail
    exact htail
  case h_2 => simpa using htail

theorem unifyLineEnds_eq_self (h : '\r' ∉ cs) : unifyLineEnds cs = cs := by
  induction cs with
  | nil => rfl
  | cons c cs ih =>
    rw [mem_cons, not_or] at h
    rw [unifyLineEnds, ih h.2]
    all_goals simp [Ne.symm h.1]

theorem unifyLineEnds_append {as : List Char} (h : '\r' ∉ as) (bs : List Char) :
    unifyLineEnds (as ++ '\r' :: '\n' :: bs) = as ++ '\n' :: unifyLineEnds bs := by
  induction as with
  | nil => rw [nil_append, unifyLineEnds, nil_append]
  | cons c as ih =>
    rw [mem_cons, not_or] at h
    rw [cons_append, unifyLineEnds, ih h.2, cons_append]
    all_goals simp [Ne.symm h.1]

theorem exists_unifyLineEnds_append (as : List Char) :
    ∃ ds, ∀ bs, unifyLineEnds (as ++ '\n' :: bs) = ds ++ '\n' :: unifyLineEnds bs := by
  induction as using unifyLineEnds.induct with
  | case1 => exact ⟨[], fun bs => by simp [unifyLineEnds]⟩
  | case2 as ih =>
    obtain ⟨ds, hds⟩ := ih
    exact ⟨'\n' :: ds, fun bs => by simp [unifyLineEnds, hds]⟩
  | case3 as hne ih =>
    cases as with
    | nil => exact ⟨[], fun bs => by simp [unifyLineEnds]⟩
    | cons c as =>
      obtain ⟨ds, hds⟩ := ih
      refine ⟨'\n' :: ds, fun bs => ?_⟩
      rw [cons_append, unifyLineEnds, hds, cons_append]
      intro cs hcs
      exact hne as (by rw [(List.cons.inj hcs).1])
  | case4 c as hne hne' ih =>
    obtain ⟨ds, hds⟩ := ih
    refine ⟨c :: ds, fun bs => ?_⟩
    rw [cons_append, unifyLineEnds, hds, cons_append]
    · exact fun cs hc _ => hne' hc
    · exact hne'

theorem join_concat (sep : String) (xs : List String) (x : String) :
    join sep (xs ++ [x]) = if xs = [] then x else join sep xs ++ sep ++ x := by
  induction xs with
  | nil => rfl
  | cons y ys ih =>
    cases ys with
    | nil => rfl
    | cons z zs =>
      simp only [cons_append, join] at ih ⊢
      rw [ih]
      simp [String.append_assoc]

theorem toList_join_cons (sep s : String) (ss : List String) :
    (join sep (s :: ss)).toList = s.toList ++ ss.flatMap fun t => sep.toList ++ t.toList := by
  induction ss generalizing s with
  | nil => simp [join]
  | cons t ss ih => simp [join, ih]

theorem mem_join {sep : String} (h : c ∈ (join sep ss).toList) :
    c ∈ sep.toList ∨ ∃ s ∈ ss, c ∈ s.toList := by
  cases ss with
  | nil => simp [join] at h
  | cons s ss =>
    simp only [toList_join_cons, mem_append, mem_flatMap, mem_cons] at h ⊢
    grind

/-! ## Numbers -/

theorem head?_toDigits_ne_zero (hn : 0 < n) : (Nat.toDigits 10 n).head? ≠ some '0' := by
  induction n using Nat.strongRecOn with
  | _ n ih =>
    by_cases h : n < 10
    · have small : ∀ k : Fin 10, 0 < k.val → (Nat.toDigits 10 k).head? ≠ some '0' := by decide
      exact small ⟨n, h⟩ hn
    · have hrest := ih (n / 10) (by omega) (by omega)
      rw [Nat.toDigits_of_base_le (by omega) (by omega), head?_append]
      cases hd : Nat.toDigits 10 (n / 10) with
      | nil => exact absurd hd Nat.toDigits_ne_nil
      | cons d ds => simpa [hd] using hrest

theorem isDigit_of_mem_ofNat (h : c ∈ (ofNat n).toList) : c.isDigit = true := by
  rw [ofNat, String.toList_ofList] at h
  exact Nat.isDigit_of_mem_toDigits (by decide : 0 < 10) (by decide : 10 ≤ 10) h

theorem notMem_ofNat (hc : c.isDigit = false) (n : Nat) : c ∉ (ofNat n).toList := by
  intro h
  rw [isDigit_of_mem_ofNat h] at hc
  cases hc

theorem natOfDigits_toDigits (n : Nat) : natOfDigits (Nat.toDigits 10 n) = n := by
  have hfold : natOfDigits (Nat.toDigits 10 n) = Nat.ofDigitChars 10 (Nat.toDigits 10 n) 0 := by
    simp [natOfDigits, Nat.ofDigitChars, Nat.mul_comm]
  rw [hfold, Nat.ofDigitChars_ten_toDigits]

theorem ofNat_injective : Function.Injective ofNat := by
  intro m n h
  have hdigits : Nat.toDigits 10 m = Nat.toDigits 10 n := by
    simpa [ofNat] using congrArg String.toList h
  rw [← natOfDigits_toDigits m, hdigits, natOfDigits_toDigits]

theorem toNat_of_isDigit (h : c.isDigit = true) : ∃ k : Fin 10, c.toNat = 48 + k := by
  simp only [Char.isDigit, Bool.and_eq_true, decide_eq_true_eq] at h
  have hlo : 48 ≤ c.toNat := h.1
  have hhi : c.toNat ≤ 57 := h.2
  exact ⟨⟨c.toNat - 48, by omega⟩, by simp; omega⟩

-- The classes are tables, so that facts about the digits are computed.
theorem isDecimal_of_isDigit (h : c.isDigit = true) : isDecimal c = true := by
  have table : ∀ k : Fin 10, inRangesGo decimalTable (48 + k) (decimalTable.size + 1) 0
      decimalTable.size = true := by decide
  obtain ⟨k, hk⟩ := toNat_of_isDigit h
  unfold isDecimal inRanges
  rw [hk]
  exact table k

theorem isDigit_of_isDigit (h : c.isDigit = true) : isDigit c = true := by
  rw [isDigit, isDecimal_of_isDigit h, Bool.true_or]

theorem isBlank_of_isDigit (h : c.isDigit = true) : isBlank c = false := by
  have table : ∀ k : Fin 10, inRangesGo blankTable (48 + k) (blankTable.size + 1) 0
      blankTable.size = false := by decide
  obtain ⟨k, hk⟩ := toNat_of_isDigit h
  unfold isBlank inRanges
  rw [hk]
  exact table k

theorem decimalValue_of_isDigit (h : c.isDigit = true) : decimalValue c = c.toNat - 48 := by
  have table : ∀ k : Fin 10,
      decimalTable.find? (fun r => r.1 ≤ 48 + k.val && 48 + k.val ≤ r.2) = some (48, 57) := by decide
  obtain ⟨k, hk⟩ := toNat_of_isDigit h
  rw [decimalValue, hk, table k]
  simp only [Nat.add_sub_cancel_left]
  exact Nat.mod_eq_of_lt k.isLt

theorem wholeGo_digits (hcs : ∀ c ∈ cs, c.isDigit = true) (n : Nat) :
    wholeGo false n cs = some (cs.foldl (fun n c => n * 10 + (c.toNat - 48)) n) := by
  induction cs generalizing n with
  | nil => rfl
  | cons c cs ih =>
    rw [forall_mem_cons] at hcs
    have hc : c ≠ '_' := by
      rintro rfl
      exact absurd hcs.1 (by decide)
    rw [wholeGo, if_neg hc, if_pos (isDecimal_of_isDigit hcs.1), decimalValue_of_isDigit hcs.1, ih hcs.2]
    rfl

theorem intOf?_ofNat (n : Nat) : intOf? (ofNat n) = some (n : Int) := by
  have hdigits : ∀ c ∈ Nat.toDigits 10 n, c.isDigit = true := fun c hc =>
    Nat.isDigit_of_mem_toDigits (by decide) (by decide) hc
  have hstrip : stripChars isBlank (ofNat n).toList = Nat.toDigits 10 n := by
    rw [ofNat, String.toList_ofList]
    exact stripChars_eq_self fun c hc => isBlank_of_isDigit (hdigits c hc)
  have hwhole : wholeGo true 0 (Nat.toDigits 10 n) = some n := by
    have hvalue := (wholeGo_digits hdigits 0).trans (congrArg some (natOfDigits_toDigits n))
    obtain ⟨c, cs, hchars⟩ := exists_cons_of_ne_nil (Nat.toDigits_ne_nil (n := n) (b := 10))
    have hc : c ≠ '_' := by
      rintro rfl
      exact absurd (hdigits _ (hchars ▸ mem_cons_self)) (by decide)
    rw [hchars, wholeGo, if_neg hc] at hvalue ⊢
    exact hvalue
  have hsign : ∀ cs : List Char, '-' :: cs ≠ Nat.toDigits 10 n ∧ '+' :: cs ≠ Nat.toDigits 10 n := by
    intro cs
    constructor <;> intro heq <;> exact absurd (hdigits _ (heq ▸ mem_cons_self)) (by decide)
  rw [intOf?, hstrip]
  split
  case h_1 cs heq => exact absurd heq.symm (hsign cs).1
  case h_2 cs heq => exact absurd heq.symm (hsign cs).2
  case h_3 => rw [hwhole]; rfl

end Vetting.Text

namespace Vetting

theorem toList_byteArray (bs : ByteArray) : bs.toList = bs.data.toList := by
  have hloop : ∀ i acc, ByteArray.toList.loop bs i acc = acc.reverse ++ bs.data.toList.drop i := by
    intro i acc
    fun_induction ByteArray.toList.loop bs i acc with
    | case1 i acc hi ih =>
      have hlt : i < bs.data.size := hi
      have hget : bs.get! i = bs.data[i] := by
        cases bs
        exact getElem!_pos _ i hlt
      rw [ih, List.drop_eq_getElem_cons (i := i) hlt, hget]
      simp
    | case2 i acc hi =>
      have hle : bs.data.toList.length ≤ i := Nat.le_of_not_lt hi
      rw [List.drop_eq_nil_of_le hle, List.append_nil]
  exact hloop 0 []

theorem toList_toUTF8 (s : String) : s.toUTF8.toList = s.toList.flatMap String.utf8EncodeChar := by
  rw [toList_byteArray]
  have hbytes : s.toUTF8 = s.toList.utf8Encode := by
    conv_lhs => rw [← String.ofList_toList (s := s)]
    rfl
  rw [hbytes]
  simp [List.utf8Encode]

end Vetting
