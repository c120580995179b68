import Vetting.Proofs.Similarity.Distance
import Vetting.Proofs.Text
import Vetting.Similarity.Matrix

/-!
# Distances of texts and of their bytes

The distance of texts is a metric. That of their bytes is never smaller: an alignment of the bytes aligns the
characters whose first bytes are aligned, and each edit of characters that this needs is paid for by an edit
of bytes that pays for no other. Nor is it more than four times as large.
-/

namespace Vetting.Similarity

open List

/-! ## The metric -/

section

variable {α : Type} {s t u : List α} {m n : Nat}

theorem Edits.symm (h : Edits s t n) : Edits t s n := by
  induction h with
  | nil => exact .nil
  | keep a _ ih => exact ih.keep a
  | insert a _ ih => exact ih.delete a
  | delete a _ ih => exact ih.insert a
  | substitute a b _ ih => exact ih.substitute b a

theorem edits_zero_iff : Edits s t 0 ↔ s = t := by
  refine ⟨fun h => ?_, fun h => h ▸ .refl s⟩
  generalize hn : 0 = n at h
  induction h with
  | nil => rfl
  | keep a _ ih => rw [ih hn]
  | insert | delete | substitute => cases hn

theorem EditPath.trans (h : EditPath s t n) (h' : EditPath t u m) : EditPath s u (n + m) := by
  induction h' with
  | refl => exact h
  | step _ hstep ih => exact ih.step hstep

variable [BEq α] [LawfulBEq α]

theorem tableDistance_le_of_edits (h : Edits s t n) : tableDistance s t ≤ n :=
  (isLeast_tableDistance s t).2 h

theorem edits_tableDistance (s t : List α) : Edits s t (tableDistance s t) :=
  (isLeast_tableDistance s t).1

theorem tableDistance_eq_zero_iff : tableDistance s t = 0 ↔ s = t := by
  rw [← edits_zero_iff]
  exact ⟨fun h => h ▸ edits_tableDistance s t, fun h => Nat.le_zero.1 (tableDistance_le_of_edits h)⟩

theorem tableDistance_comm (s t : List α) : tableDistance s t = tableDistance t s :=
  le_antisymm (tableDistance_le_of_edits (edits_tableDistance t s).symm)
    (tableDistance_le_of_edits (edits_tableDistance s t).symm)

theorem tableDistance_triangle (s t u : List α) : tableDistance s u ≤ tableDistance s t + tableDistance t u := by
  have hpath := (edits_tableDistance s t).editPath.trans (edits_tableDistance t u).editPath
  obtain ⟨m, hm, hedits⟩ := hpath.exists_edits
  exact (tableDistance_le_of_edits hedits).trans hm

end

/-- The table program is a metric on texts, so a table of distances is the same if each of them is computed the
other way round. -/
theorem tableDistance_isMetric (a b c : String) :
    tableDistance? a.toList b.toList = some (tableDistance a.toList b.toList) ∧
      (tableDistance a.toList b.toList = 0 ↔ a = b) ∧
      tableDistance a.toList b.toList = tableDistance b.toList a.toList ∧
      tableDistance a.toList c.toList ≤ tableDistance a.toList b.toList + tableDistance b.toList c.toList ∧
      ∀ sources targets, distances sources targets =
        sources.map fun s => targets.map fun t => tableDistance t.toList s.toList := by
  refine ⟨tableDistance?_eq_some _ _, ?_, tableDistance_comm _ _, tableDistance_triangle _ _ _,
    fun sources targets => ?_⟩
  · rw [tableDistance_eq_zero_iff, String.toList_inj]
  · simp only [distances, tableDistance_comm]

/-! ## Codes -/

/-- The first letter of a word stands nowhere else in a word, and tells how many letters follow. -/
structure LeadCode (α β : Type) where
  lead : α → β
  rest : α → List β
  lead_notMem_rest : ∀ a b, lead a ∉ rest b
  length_rest : ∀ a b, lead a = lead b → (rest a).length = (rest b).length
  injective : ∀ a b, lead a = lead b → rest a = rest b → a = b

namespace LeadCode

variable {α β : Type} (k : LeadCode α β)

def word (a : α) : List β := k.lead a :: k.rest a

/-- The words for some symbols, one after the other. -/
def encode (s : List α) : List β := s.flatMap k.word

/-- The letters `bs` are the end `xs` of a word, without its first letter, and the words for `s`. -/
structure Spells (bs xs : List β) (s : List α) : Prop where
  eq : bs = xs ++ k.encode s
  inWord : ∀ a, k.lead a ∉ xs

variable {k} {bs cs xs ys : List β} {s t : List α} {n : Nat}

theorem spells_encode (s : List α) : k.Spells (k.encode s) [] s := ⟨rfl, fun _ => not_mem_nil⟩

theorem Spells.nil (h : k.Spells [] xs s) : xs = [] ∧ s = [] := by
  obtain ⟨hxs, hs⟩ := append_eq_nil_iff.1 h.eq.symm
  cases s with
  | nil => exact ⟨hxs, rfl⟩
  | cons => cases hs

theorem Spells.cons_cases {b : β} (h : k.Spells (b :: bs) xs s) : (∃ xs', xs = b :: xs' ∧ k.Spells bs xs' s) ∨
      (xs = [] ∧ ∃ a s', s = a :: s' ∧ b = k.lead a ∧ k.Spells bs (k.rest a) s') := by
  obtain ⟨heq, hword⟩ := h
  cases xs with
  | cons x xs =>
    obtain ⟨rfl, rfl⟩ := List.cons.inj heq
    exact .inl ⟨xs, rfl, rfl, fun a ha => hword a (mem_cons_of_mem b ha)⟩
  | nil =>
    cases s with
    | nil => cases heq
    | cons a s =>
      obtain ⟨rfl, rfl⟩ := List.cons.inj heq
      exact .inr ⟨rfl, a, s, rfl, rfl, rfl, fun c => k.lead_notMem_rest c a⟩

/-- The edit still to come behind an equal first letter, if what follows is as long. -/
def toll [DecidableEq β] (xs ys : List β) : Nat := if xs.length = ys.length ∧ xs ≠ ys then 1 else 0

section

variable [DecidableEq β]

theorem toll_le_one (xs ys : List β) : toll xs ys ≤ 1 := by
  unfold toll
  split <;> omega

@[simp] theorem toll_self (xs : List β) : toll xs xs = 0 := by simp [toll]

@[simp] theorem toll_nil_left (ys : List β) : toll [] ys = 0 := by cases ys <;> simp [toll]

@[simp] theorem toll_nil_right (xs : List β) : toll xs [] = 0 := by cases xs <;> simp [toll]

@[simp] theorem toll_cons_cons (b : β) (xs ys : List β) : toll (b :: xs) (b :: ys) = toll xs ys := by
  simp [toll]

theorem toll_of_ne (hlen : xs.length = ys.length) (hne : xs ≠ ys) : toll xs ys = 1 := if_pos ⟨hlen, hne⟩

theorem exists_edits (h : Edits bs cs n) (hb : k.Spells bs xs s) (hc : k.Spells cs ys t) :
    ∃ m, m + toll xs ys ≤ n ∧ Edits s t m := by
  induction h generalizing xs ys s t with
  | nil =>
    obtain ⟨rfl, rfl⟩ := hb.nil
    obtain ⟨rfl, rfl⟩ := hc.nil
    exact ⟨0, by simp, .nil⟩
  | keep b _ ih =>
    rcases hb.cons_cases with ⟨xs', rfl, hb'⟩ | ⟨rfl, a, s', rfl, rfl, hb'⟩
    · rcases hc.cons_cases with ⟨ys', rfl, hc'⟩ | ⟨rfl, c, t', rfl, rfl, hc'⟩
      · obtain ⟨m, hm, hedits⟩ := ih hb' hc'
        exact ⟨m, by simpa using hm, hedits⟩
      · exact absurd mem_cons_self (hb.inWord c)
    · rcases hc.cons_cases with ⟨ys', rfl, hc'⟩ | ⟨rfl, c, t', rfl, hlead, hc'⟩
      · exact absurd mem_cons_self (hc.inWord a)
      · -- two words begin with the same letter: they are the same, or a toll is due
        obtain ⟨m, hm, hedits⟩ := ih hb' hc'
        by_cases hrest : k.rest a = k.rest c
        · obtain rfl := k.injective a c hlead hrest
          exact ⟨m, by simpa using hm, hedits.keep a⟩
        · rw [toll_of_ne (k.length_rest a c hlead) hrest] at hm
          exact ⟨m + 1, by simpa using hm, hedits.substitute a c⟩
  | @insert _ _ n b _ ih =>
    have htoll := toll_le_one xs ys
    rcases hc.cons_cases with ⟨ys', rfl, hc'⟩ | ⟨rfl, c, t', rfl, rfl, hc'⟩
    · obtain ⟨m, hm, hedits⟩ := ih hb hc'
      exact ⟨m, by omega, hedits⟩
    · obtain ⟨m, hm, hedits⟩ := ih hb hc'
      exact ⟨m + 1, by rw [toll_nil_right]; omega, hedits.insert c⟩
  | @delete _ _ n b _ ih =>
    have htoll := toll_le_one xs ys
    rcases hb.cons_cases with ⟨xs', rfl, hb'⟩ | ⟨rfl, a, s', rfl, rfl, hb'⟩
    · obtain ⟨m, hm, hedits⟩ := ih hb' hc
      exact ⟨m, by omega, hedits⟩
    · obtain ⟨m, hm, hedits⟩ := ih hb' hc
      exact ⟨m + 1, by rw [toll_nil_left]; omega, hedits.delete a⟩
  | substitute b c _ ih =>
    have htoll := toll_le_one xs ys
    rcases hb.cons_cases with ⟨xs', rfl, hb'⟩ | ⟨rfl, a, s', rfl, rfl, hb'⟩
    · rcases hc.cons_cases with ⟨ys', rfl, hc'⟩ | ⟨rfl, d, t', rfl, rfl, hc'⟩
      · obtain ⟨m, hm, hedits⟩ := ih hb' hc'
        exact ⟨m, by omega, hedits⟩
      · obtain ⟨m, hm, hedits⟩ := ih hb' hc'
        exact ⟨m + 1, by rw [toll_nil_right]; omega, hedits.insert d⟩
    · rcases hc.cons_cases with ⟨ys', rfl, hc'⟩ | ⟨rfl, d, t', rfl, rfl, hc'⟩
      · obtain ⟨m, hm, hedits⟩ := ih hb' hc'
        exact ⟨m + 1, by rw [toll_nil_left]; omega, hedits.delete a⟩
      · obtain ⟨m, hm, hedits⟩ := ih hb' hc'
        exact ⟨m + 1, by rw [toll_nil_left]; omega, hedits.substitute a d⟩

end

theorem eq_of_mem_word {a c : α} (ha : k.rest a = []) (h : k.lead a ∈ k.word c) : c = a := by
  rcases mem_cons.1 h with hlead | hrest
  · have hlen := k.length_rest a c hlead
    rw [ha, length_nil, eq_comm, length_eq_zero_iff] at hlen
    exact k.injective c a hlead.symm (hlen.trans ha.symm)
  · exact absurd hrest (k.lead_notMem_rest a c)

variable [BEq β] [LawfulBEq β]

theorem tableDistance_le_encode [BEq α] [LawfulBEq α] (k : LeadCode α β) (s t : List α) :
    tableDistance s t ≤ tableDistance (k.encode s) (k.encode t) := by
  classical
  obtain ⟨m, hm, hedits⟩ :=
    exists_edits (edits_tableDistance _ _) (spells_encode (k := k) s) (spells_encode t)
  exact (tableDistance_le_of_edits hedits).trans (by simpa using hm)

theorem tableDistance_append_le (s₁ s₂ t₁ t₂ : List β) :
    tableDistance (s₁ ++ s₂) (t₁ ++ t₂) ≤ tableDistance s₁ t₁ + tableDistance s₂ t₂ :=
  tableDistance_le_of_edits ((edits_tableDistance s₁ t₁).append (edits_tableDistance s₂ t₂))

theorem tableDistance_append_le_mul {w : Nat} (xs ys : List β) (hx : xs.length ≤ w)
    (hy : ys.length ≤ w) (h : tableDistance bs cs ≤ w * n) :
    tableDistance (xs ++ bs) (ys ++ cs) ≤ w * (n + 1) := by
  have happend := tableDistance_append_le xs bs ys cs
  have hword := tableDistance_le xs ys
  rw [Nat.mul_succ]
  omega

theorem tableDistance_encode_le_of_edits {w : Nat} (h : Edits s t n)
    (hs : ∀ a ∈ s, (k.word a).length ≤ w) (ht : ∀ a ∈ t, (k.word a).length ≤ w) :
    tableDistance (k.encode s) (k.encode t) ≤ w * n := by
  induction h with
  | nil => exact Nat.zero_le _
  | @keep s t n a _ ih =>
    rw [forall_mem_cons] at hs ht
    have hsame : tableDistance (k.word a) (k.word a) = 0 := tableDistance_eq_zero_iff.2 rfl
    have happend := tableDistance_append_le (k.word a) (k.encode s) (k.word a) (k.encode t)
    rw [hsame, Nat.zero_add] at happend
    exact happend.trans (ih hs.2 ht.2)
  | insert a _ ih =>
    rw [forall_mem_cons] at ht
    exact tableDistance_append_le_mul [] (k.word a) (Nat.zero_le w) ht.1 (ih hs ht.2)
  | delete a _ ih =>
    rw [forall_mem_cons] at hs
    exact tableDistance_append_le_mul (k.word a) [] hs.1 (Nat.zero_le w) (ih hs.2 ht)
  | substitute a b _ ih =>
    rw [forall_mem_cons] at hs ht
    exact tableDistance_append_le_mul (k.word a) (k.word b) hs.1 ht.1 (ih hs.2 ht.2)

end LeadCode

/-! ## Characters as bytes -/

variable (c : Char)

def leadByte : UInt8 := (String.utf8EncodeChar c).head String.utf8EncodeChar_ne_nil

theorem isUTF8FirstByte_leadByte : (leadByte c).IsUTF8FirstByte := by
  rw [leadByte, head_eq_getElem, UInt8.isUTF8FirstByte_getElem_utf8EncodeChar]

theorem not_isUTF8FirstByte_of_mem_tail {c : Char} {b : UInt8} (h : b ∈ (String.utf8EncodeChar c).tail) :
    ¬ b.IsUTF8FirstByte := by
  obtain ⟨i, hi, rfl⟩ := getElem_of_mem h
  rw [getElem_tail, UInt8.isUTF8FirstByte_getElem_utf8EncodeChar]
  omega

theorem utf8ByteSize_leadByte : (leadByte c).utf8ByteSize (isUTF8FirstByte_leadByte c) = c.utf8Size := by
  have hdecode : [c].utf8Encode.utf8DecodeChar? 0 = some c := utf8DecodeChar?_utf8Encode_singleton
  have hsize := @ByteArray.utf8Size_utf8DecodeChar [c].utf8Encode 0 (by simp [hdecode])
  simp only [ByteArray.utf8DecodeChar, hdecode, Option.get_some] at hsize
  rw [hsize]
  congr 1
  simp [leadByte, List.utf8Encode, head_eq_getElem]

theorem utf8EncodeChar_injective : Function.Injective String.utf8EncodeChar := by
  have hdecode : ∀ c : Char, (String.utf8EncodeChar c).toByteArray.utf8DecodeChar? 0 = some c := by
    intro c
    simpa [List.utf8Encode] using @utf8DecodeChar?_utf8Encode_singleton c
  intro c d h
  have hd := hdecode d
  rw [← h, hdecode c] at hd
  exact Option.some.inj hd

def utf8Code : LeadCode Char UInt8 where
  lead := leadByte
  rest c := (String.utf8EncodeChar c).tail
  lead_notMem_rest c d h := not_isUTF8FirstByte_of_mem_tail h (isUTF8FirstByte_leadByte c)
  length_rest c d h := by
    have hsize : c.utf8Size = d.utf8Size := by
      rw [← utf8ByteSize_leadByte, ← utf8ByteSize_leadByte]
      simp only [h]
    simp [hsize]
  injective c d hlead hrest := by
    refine utf8EncodeChar_injective ?_
    rw [← cons_head_tail (String.utf8EncodeChar_ne_nil (c := c)),
      ← cons_head_tail (String.utf8EncodeChar_ne_nil (c := d))]
    exact congrArg₂ List.cons hlead hrest

theorem word_utf8Code : utf8Code.word c = String.utf8EncodeChar c := cons_head_tail _

theorem toList_toUTF8_eq_encode (s : String) : s.toUTF8.toList = utf8Code.encode s.toList := by
  rw [toList_toUTF8, LeadCode.encode]
  exact (flatMap_congr fun c _ => word_utf8Code c).symm

theorem length_toList_toUTF8 (s : String) : s.toUTF8.toList.length = s.utf8ByteSize := by
  rw [toList_byteArray]
  rfl

theorem zero_notMem_toUTF8 {s : String} (h : '\x00' ∉ s.toList) : 0 ∉ s.toUTF8.toList := by
  rw [toList_toUTF8_eq_encode, LeadCode.encode, mem_flatMap]
  rintro ⟨c, hc, hzero⟩
  have hrest : utf8Code.rest '\x00' = [] := by decide
  obtain rfl : c = '\x00' := LeadCode.eq_of_mem_word hrest hzero
  exact h hc

theorem length_word_utf8Code_le_four : (utf8Code.word c).length ≤ 4 := by
  rw [word_utf8Code, String.length_utf8EncodeChar]
  exact c.utf8Size_le_four

theorem length_word_utf8Code_le_one {c : Char} (h : c.toNat < 128) : (utf8Code.word c).length ≤ 1 := by
  rw [word_utf8Code, String.length_utf8EncodeChar]
  refine (Char.utf8Size_eq_one_iff.2 ?_).le
  rw [UInt32.le_iff_toNat_le]
  exact Nat.lt_succ_iff.1 h

theorem tableDistance_toUTF8_le {w : Nat} {s t : String} (hs : ∀ c ∈ s.toList, (utf8Code.word c).length ≤ w)
    (ht : ∀ c ∈ t.toList, (utf8Code.word c).length ≤ w) :
    tableDistance s.toUTF8.toList t.toUTF8.toList ≤ w * tableDistance s.toList t.toList := by
  rw [toList_toUTF8_eq_encode, toList_toUTF8_eq_encode]
  exact LeadCode.tableDistance_encode_le_of_edits (edits_tableDistance _ _) hs ht

/-- The program with one row computes the distance of the bytes, and no word of it wraps. -/
theorem byteDistance_eq {s t : String} (hs : '\x00' ∉ s.toList) (ht : '\x00' ∉ t.toList)
    (hs' : s.utf8ByteSize < 2 ^ 31) (ht' : t.utf8ByteSize < 2 ^ 31) (h : s ≠ "" ∨ t ≠ "") :
    rowDistance s.toUTF8.toList t.toUTF8.toList = some (byteDistance s t) ∧
      (byteDistance s t).toNat = tableDistance s.toUTF8.toList t.toUTF8.toList ∧
      (byteDistance s t).toInt32.toInt = tableDistance s.toUTF8.toList t.toUTF8.toList := by
  have hne : ∀ u : String, u ≠ "" → u.toUTF8.toList ≠ [] := by
    intro u hu hnil
    rw [← length_eq_zero_iff, length_toList_toUTF8, String.utf8ByteSize_eq_zero_iff] at hnil
    exact hu hnil
  rw [← length_toList_toUTF8] at hs' ht'
  have hsome := rowDistance_eq_some (zero_notMem_toUTF8 hs) (zero_notMem_toUTF8 ht) hs' ht' (h.imp (hne s) (hne t))
  have hbound : tableDistance s.toUTF8.toList t.toUTF8.toList < 2 ^ 31 :=
    (tableDistance_le _ _).trans_lt (max_lt hs' ht')
  rw [byteDistance, hsome, Option.getD_some]
  exact ⟨rfl, UInt32.toNat_ofNat_of_lt' (Nat.lt_trans hbound (by decide)),
    by simpa using Int32.toInt_ofNat_of_lt hbound⟩

/-- The distance of the bytes of two texts without zeros lies between the distance of the texts and four times
that, and is the same for texts in ASCII. So a threshold lets no two texts pass by their bytes that are too
far apart. Only the bytes of two empty texts have no distance. -/
theorem byteDistance_between (s t : String) (hs : '\x00' ∉ s.toList) (ht : '\x00' ∉ t.toList)
    (hs' : s.utf8ByteSize < 2 ^ 31) (ht' : t.utf8ByteSize < 2 ^ 31) (h : s ≠ "" ∨ t ≠ "") :
    rowDistance s.toUTF8.toList t.toUTF8.toList = some (byteDistance s t) ∧
      (byteDistance s t).toInt32.toInt = (byteDistance s t).toNat ∧
      tableDistance s.toList t.toList ≤ (byteDistance s t).toNat ∧
      (byteDistance s t).toNat ≤ 4 * tableDistance s.toList t.toList ∧
      ((∀ c ∈ s.toList ++ t.toList, c.toNat < 128) → (byteDistance s t).toNat = tableDistance s.toList t.toList) ∧
      ∀ threshold : ℤ, (byteDistance s t).toInt32.toInt ≤ threshold →
        (tableDistance s.toList t.toList : ℤ) ≤ threshold := by
  obtain ⟨hsome, hnat, hint⟩ := byteDistance_eq hs ht hs' ht' h
  have hlow : tableDistance s.toList t.toList ≤ tableDistance s.toUTF8.toList t.toUTF8.toList := by
    rw [toList_toUTF8_eq_encode, toList_toUTF8_eq_encode]
    exact utf8Code.tableDistance_le_encode _ _
  have hhigh : tableDistance s.toUTF8.toList t.toUTF8.toList ≤ 4 * tableDistance s.toList t.toList :=
    tableDistance_toUTF8_le (fun c _ => length_word_utf8Code_le_four c) fun c _ => length_word_utf8Code_le_four c
  rw [hint, hnat]
  refine ⟨hsome, rfl, hlow, hhigh, fun hascii => ?_, fun threshold hle => ?_⟩
  · rw [forall_mem_append] at hascii
    have hsame := tableDistance_toUTF8_le (fun c hc => length_word_utf8Code_le_one (hascii.1 c hc))
      fun c hc => length_word_utf8Code_le_one (hascii.2 c hc)
    rw [Nat.one_mul] at hsame
    exact le_antisymm hsame hlow
  · exact (Int.ofNat_le.2 hlow).trans hle

/-- A character of four bytes more, and two texts in ASCII. -/
theorem byteDistance_between_smile : (tableDistance "a😀".toList "a".toList = 1 ∧ byteDistance "a😀" "a" = 4 ∧
      rowDistance "a😀".toUTF8.toList "a".toUTF8.toList = some (byteDistance "a😀" "a") ∧
      1 ≤ (byteDistance "a😀" "a").toNat ∧ (byteDistance "a😀" "a").toNat ≤ 4) ∧
      (byteDistance "kitten" "sitting").toNat = 3 := by
  have hsmile : tableDistance "a😀".toList "a".toList = 1 := by decide
  have hkitten : tableDistance "kitten".toList "sitting".toList = 3 := by decide +kernel
  have h := byteDistance_between "a😀" "a" (by decide) (by decide) (by decide) (by decide) (by decide)
  have h' := byteDistance_between "kitten" "sitting" (by simp) (by simp) (by decide) (by decide) (by decide)
  rw [hsmile] at h
  rw [hkitten] at h'
  exact ⟨⟨hsmile, by decide +kernel, h.1, h.2.2.1, h.2.2.2.1⟩, h'.2.2.2.2.1 (by simp)⟩

end Vetting.Similarity
