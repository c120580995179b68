import Vetting.Host.Files
import Vetting.Proofs.Message.Text

/-!
# Binary messages are no texts

None of the keys that can start the binary form of a report on a run can start the text form.
-/

namespace Vetting

open List String Char

theorem exists_utf8EncodeChar (c : Char) :
    ∃ b bs, utf8EncodeChar c = b :: bs ∧ (b.toNat < 128 → c.toNat = b.toNat) := by
  have hhigh : ∀ (x y : UInt8), 128 ≤ y.toNat → ¬ (x ||| y).toNat < 128 := by
    intro x y hy
    rw [UInt8.toNat_or, Nat.not_lt]
    exact hy.trans Nat.right_le_or
  have hsize := utf8Size_pos c
  have hsize' := utf8Size_le_four c
  obtain h | h | h | h : c.utf8Size = 1 ∨ c.utf8Size = 2 ∨ c.utf8Size = 3 ∨ c.utf8Size = 4 := by omega
  · refine ⟨_, _, utf8EncodeChar_eq_singleton h, fun _ => ?_⟩
    have hc : c.val.toNat ≤ 127 := by
      simpa [utf8Size_eq_one_iff, UInt32.le_iff_toNat_le] using h
    have : c.val.toUInt8.toNat = c.val.toNat := by
      rw [UInt32.toNat_toUInt8]
      omega
    rw [this]
    rfl
  · exact ⟨_, _, utf8EncodeChar_eq_cons_cons h, fun hb => absurd hb (hhigh _ _ (by decide))⟩
  · exact ⟨_, _, utf8EncodeChar_eq_cons_cons_cons h, fun hb => absurd hb (hhigh _ _ (by decide))⟩
  · exact ⟨_, _, utf8EncodeChar_eq_cons_cons_cons_cons h, fun hb => absurd hb (hhigh _ _ (by decide))⟩

theorem exists_cons_of_textOfBytes? {b : UInt8} {bs : List UInt8} {s : String}
    (h : Job.textOfBytes? (b :: bs) = some s) (hb : b.toNat < 128) :
    ∃ c cs, s.toList = c :: cs ∧ c.toNat = b.toNat := by
  have hbytes : s.toList.flatMap utf8EncodeChar = b :: bs := by
    rw [Job.textOfBytes?, fromUTF8?] at h
    split at h
    case isFalse => cases h
    case isTrue hvalid =>
      obtain rfl := Option.some.inj h
      have hdata : (fromUTF8 ⟨(b :: bs).toArray⟩ hvalid).toList.utf8Encode = ⟨(b :: bs).toArray⟩ := utf8Encode_toList
      simpa [List.utf8Encode] using congrArg (fun a => a.data.toList) hdata
  cases hs : s.toList with
  | nil => simp [hs] at hbytes
  | cons c cs =>
    obtain ⟨b', bs', henc, hc⟩ := exists_utf8EncodeChar c
    rw [hs, flatMap_cons, henc] at hbytes
    obtain rfl : b' = b := (List.cons.inj hbytes).1
    exact ⟨c, cs, rfl, hc hb⟩

namespace Message

/-! ## Keys of fields -/

variable (f : Field) (d : Doc) (shape : String)

/-- The kind of value that the key of a field tells. -/
def wire : Nat :=
  match f.kind with
  | .text | .message _ => 2
  | _ => 0

theorem key_prefix_atomBytes : key f (wire f) <+: atomBytes f d := by
  rw [atomBytes, wire]
  cases f.kind <;> exact prefix_append _ _

mutual

theorem key_prefix_fieldBytes (f : Field) : (d : Doc) → fieldBytes f d = [] ∨ key f (wire f) <+: fieldBytes f d
  | .arr xs => by
    rw [fieldBytes]
    exact key_prefix_itemsBytes f xs
  | .obj fs => by
    rw [fieldBytes, wire]
    cases f.kind with
    | message shape => exact .inr (prefix_append _ _)
    | _ => exact .inl rfl
  | .null | .bool _ | .int _ | .decimal _ _ | .str _ => by
    rw [fieldBytes]
    · exact .inr (key_prefix_atomBytes f _)
    all_goals simp

theorem key_prefix_itemsBytes (f : Field) :
    (ds : List Doc) → itemsBytes f ds = [] ∨ key f (wire f) <+: itemsBytes f ds
  | [] => .inl rfl
  | d :: ds => by
    rw [itemsBytes]
    rcases key_prefix_fieldBytes f d with hd | hd
    · rw [hd, nil_append]
      exact key_prefix_itemsBytes f ds
    · exact .inr (hd.trans (prefix_append _ _))

end

theorem key_prefix_fieldsBytes (fs : List (String × Doc)) :
    fieldsBytes shape fs = [] ∨ ∃ f ∈ fieldsOf shape, key f (wire f) <+: fieldsBytes shape fs := by
  induction fs with
  | nil => exact .inl (by simp [fieldsBytes])
  | cons p fs ih =>
    rw [fieldsBytes]
    cases hf : field? shape p.1 with
    | none => simpa using ih
    | some f =>
      have hmem : f ∈ fieldsOf shape := mem_of_find?_eq_some hf
      rcases key_prefix_fieldBytes f p.2 with hd | hd
      · simpa [hd] using ih
      · exact .inr ⟨f, hmem, hd.trans (prefix_append _ _)⟩

/-- The bytes that a report can start with. -/
def reportKeys : List UInt8 := [8, 16, 26, 34, 42, 50]

theorem toBytes_report_cases : toBytes "DynamicAnalysis" d = [] ∨
      ∃ b bs, toBytes "DynamicAnalysis" d = b :: bs ∧ b ∈ reportKeys := by
  have hkeys : ∀ f ∈ fieldsOf "DynamicAnalysis", ∃ b ∈ reportKeys, key f (wire f) = [b] := by
    decide +kernel
  refine (key_prefix_fieldsBytes "DynamicAnalysis" d.fieldsOf).imp_right ?_
  rintro ⟨f, hf, bs, hbs⟩
  obtain ⟨b, hb, hkey⟩ := hkeys f hf
  exact ⟨b, bs, by rw [toBytes, ← hbs, hkey]; rfl, hb⟩

theorem toBytes_ne_nil {shape : String} {d : Doc} {k : String} {v : Doc} {f : Field}
    (hmem : (k, v) ∈ d.fieldsOf) (hf : field? shape k = some f) (hv : fieldBytes f v ≠ []) :
    toBytes shape d ≠ [] := by
  rw [toBytes]
  generalize d.fieldsOf = fs at hmem
  induction fs with
  | nil => cases hmem
  | cons p fs ih =>
    rw [fieldsBytes]
    rcases mem_cons.1 hmem with rfl | hmem
    · simp [hf, hv]
    · simp [ih hmem]

theorem mem_fieldsOf_normal {shape k : String} {v w : Doc} {f : Field} (hf : field? shape k = some f)
    (hv : normalField f v = some w) (fs : List (String × Doc)) :
    (k, w) ∈ (normal shape (.obj ((k, v) :: fs))).fieldsOf := by
  have hname : f.name = k := by simpa using find?_some hf
  have hmem : f ∈ fieldsOf shape := mem_of_find?_eq_some hf
  rw [normal, Doc.fieldsOf, ordered, mem_filterMap]
  refine ⟨f, hmem, ?_⟩
  simp [normalFields, hf, hv, hname]

theorem ofText?_eq_none {s : String}
    (h : tokens s.toList = none ∨ ∃ t ts, tokens s.toList = some (t :: ts) ∧ ∀ w, t ≠ .word w) :
    ofText? shape s = none := by
  rw [ofText?]
  rcases h with h | ⟨t, ts, h, hword⟩
  · rw [h]
  · have hread : readFields shape none (4 * (t :: ts).length + 4) [] (t :: ts) = none := by
      cases t with
      | word w => exact absurd rfl (hword w)
      | _ => simp [readFields]
    simp only [h, hread]
    rfl

theorem tokens_cons {c : Char} (hpassed : isPassed c = false) (hword : startsWord c = false) (cs : List Char) :
    tokens (c :: cs) = none ∨ ∃ t ts, tokens (c :: cs) = some (t :: ts) ∧ ∀ w, t ≠ .word w := by
  have hmap : ∀ (t : Token) (ts : Option (List Token)), (∀ w, t ≠ .word w) →
      ts.map (t :: ·) = none ∨ ∃ u us, ts.map (t :: ·) = some (u :: us) ∧ ∀ w, u ≠ .word w := by
    intro t ts ht
    cases ts with
    | none => exact .inl rfl
    | some ts => exact .inr ⟨t, ts, rfl, ht⟩
  rw [tokens, tokensGo_cons hpassed, if_neg (by simp [hword])]
  split
  · exact hmap _ _ nofun
  · split
    · cases readQuoted c [] cs with
      | none => exact .inl rfl
      | some p => exact hmap _ _ nofun
    · exact hmap _ _ nofun

theorem ofText?_toBytes_report {d : Doc} {s : String} (hne : toBytes "DynamicAnalysis" d ≠ [])
    (hs : Job.textOfBytes? (toBytes "DynamicAnalysis" d) = some s) (shape : String) :
    ofText? shape (ofList (Text.unifyLineEnds s.toList)) = none := by
  obtain ⟨b, bs, hb, hmem⟩ := (toBytes_report_cases d).resolve_left hne
  have hkeys : (reportKeys.all fun b => decide (b.toNat < 128) &&
      (!isPassed (ofNat b.toNat) && !startsWord (ofNat b.toNat))) = true := by decide +kernel
  obtain ⟨hlow, hpassed, hword⟩ : b.toNat < 128 ∧ isPassed (ofNat b.toNat) = false ∧
      startsWord (ofNat b.toNat) = false := by
    simpa using all_eq_true.1 hkeys b hmem
  obtain ⟨c, cs, hc, hcb⟩ := exists_cons_of_textOfBytes? (hb ▸ hs) hlow
  rw [← hcb, ofNat_toNat] at hpassed hword
  have hreturn : c ≠ '\r' := by
    rintro rfl
    revert hpassed
    decide
  have hline : Text.unifyLineEnds (c :: cs) = c :: Text.unifyLineEnds cs := by
    rw [Text.unifyLineEnds] <;> simp [hreturn]
  have htext : (ofList (Text.unifyLineEnds s.toList)).toList = c :: Text.unifyLineEnds cs := by
    rw [toList_ofList, hc, hline]
  have htokens := tokens_cons hpassed hword (Text.unifyLineEnds cs)
  rw [← htext] at htokens
  exact ofText?_eq_none shape htokens

end Message

end Vetting
