import Vetting.Proofs.Message.Text
import Vetting.Proofs.Table

/-!
# Messages survive their text form

`Writes` says which tokens a written text is cut into, whatever comes after it.
-/

namespace Vetting.Message

open List Char Table Atom

theorem octal_digit {n : Nat} (hn : n < 8) : isOctal (ofNat (48 + n)) = true ∧ (ofNat (48 + n)).toNat - 48 = n := by
  have table : ∀ m : Fin 8, isOctal (ofNat (48 + m)) = true ∧ (ofNat (48 + m)).toNat - 48 = m := by decide
  exact table ⟨n, hn⟩

theorem printable_byte {n : Nat} (hlow : 32 ≤ n) (hhigh : n < 127) (hquote : n ≠ 34) (hback : n ≠ 92) :
    (ofNat n ≠ '"' ∧ ofNat n ≠ '\\' ∧ ofNat n ≠ '\n' ∧ ofNat n ≠ '\r') ∧
      String.utf8EncodeChar (ofNat n) = [n.toUInt8] := by
  have table : ∀ m : Fin 127, 32 ≤ m.val → m.val ≠ 34 → m.val ≠ 92 →
      (ofNat m ≠ '"' ∧ ofNat m ≠ '\\' ∧ ofNat m ≠ '\n' ∧ ofNat m ≠ '\r') ∧
        String.utf8EncodeChar (ofNat m) = [m.val.toUInt8] := by decide +kernel
  exact table ⟨n, hhigh⟩ hlow hquote hback

theorem readQuoted_escape {c : Char} {b : UInt8} {n : Nat} (hb : b.toNat = n)
    (h : c ≠ 'x' ∧ isOctal c = false ∧ escapeOf? c = some n.toUInt8) (acc : List UInt8) (cs : List Char) :
    readQuoted '"' acc ('\\' :: c :: cs) = readQuoted '"' (b :: acc) cs := by
  obtain ⟨hx, hoctal, hc⟩ := h
  obtain rfl : b = n.toUInt8 := hb ▸ UInt8.ofNat_toNat.symm
  -- The reader looks two characters ahead for octal digits.
  rcases cs with - | ⟨d, - | ⟨e, cs⟩⟩
  · simp [readQuoted, hoctal, hc]
  · simp [readQuoted.eq_def _ acc, hoctal, hc]
  · simp [readQuoted.eq_def _ acc, hoctal, hc, hx]

variable (b : UInt8) (shape : String)

theorem readQuoted_octal (acc : List UInt8) (cs : List Char) :
    readQuoted '"' acc (octal b.toNat ++ cs) = readQuoted '"' (b :: acc) cs := by
  have hb : b.toNat < 256 := UInt8.toNat_lt_size b
  obtain ⟨h₁, v₁⟩ := octal_digit (n := b.toNat / 64) (by omega)
  obtain ⟨h₂, v₂⟩ := octal_digit (n := b.toNat / 8 % 8) (by omega)
  obtain ⟨h₃, v₃⟩ := octal_digit (n := b.toNat % 8) (by omega)
  have hvalue : ((b.toNat / 64 * 8 + b.toNat / 8 % 8) * 8 + b.toNat % 8).toUInt8 = b := by
    have hsum : (b.toNat / 64 * 8 + b.toNat / 8 % 8) * 8 + b.toNat % 8 = b.toNat := by omega
    rw [hsum]
    exact UInt8.ofNat_toNat
  have hx : ofNat (48 + b.toNat / 64) ≠ 'x' := by
    intro hx
    rw [hx] at h₁
    exact absurd h₁ (by decide)
  simp only [octal, cons_append, nil_append]
  rw [readQuoted]
  · simp only [h₁, h₂, h₃, v₁, v₂, v₃, hvalue, if_true]
  · simp [hx]

theorem readQuoted_writeByte (acc : List UInt8) (cs : List Char) :
    readQuoted '"' acc (writeByte b ++ cs) = readQuoted '"' (b :: acc) cs := by
  rw [writeByte]
  split_ifs with h9 h10 h13 h34 h39 h92 hprint
  · exact readQuoted_escape h9 (by decide) acc cs
  · exact readQuoted_escape h10 (by decide) acc cs
  · exact readQuoted_escape h13 (by decide) acc cs
  · exact readQuoted_escape h34 (by decide) acc cs
  · exact readQuoted_escape h39 (by decide) acc cs
  · exact readQuoted_escape h92 (by decide) acc cs
  · rw [Bool.and_eq_true, decide_eq_true_eq, decide_eq_true_eq] at hprint
    obtain ⟨⟨hquote, hback, hline, -⟩, hencode⟩ := printable_byte hprint.1 hprint.2 h34 h92
    rw [cons_append, nil_append, readQuoted]
    · rw [if_neg hquote, if_neg (by simp [hline, hback]), toList_toUTF8_singleton, hencode]
      simp
    all_goals simp [hback]
  · exact readQuoted_octal b acc cs

theorem readQuoted_flatMap (bs acc : List UInt8) (cs : List Char) :
    readQuoted '"' acc (bs.flatMap writeByte ++ '"' :: cs) = some (acc.reverse ++ bs, cs) := by
  induction bs generalizing acc with
  | nil => simp [readQuoted]
  | cons b bs ih =>
    rw [flatMap_cons, append_assoc, readQuoted_writeByte, ih]
    simp

theorem return_notMem_writeByte : '\r' ∉ writeByte b := by
  have hb : b.toNat < 256 := UInt8.toNat_lt_size b
  have hoctal : ∀ {n : Nat}, n < 8 → ofNat (48 + n) ≠ '\r' := by
    intro n hn hreturn
    have hdigit := (octal_digit hn).1
    rw [hreturn] at hdigit
    exact absurd hdigit (by decide)
  rw [writeByte]
  split_ifs with h9 h10 h13 h34 h39 h92 hprint
  any_goals decide
  · rw [Bool.and_eq_true, decide_eq_true_eq, decide_eq_true_eq] at hprint
    obtain ⟨⟨-, -, -, hreturn⟩, -⟩ := printable_byte hprint.1 hprint.2 h34 h92
    simpa using hreturn.symm
  · simp only [octal, mem_cons, not_mem_nil, or_false, not_or]
    exact ⟨by decide, (hoctal (by omega)).symm, (hoctal (by omega)).symm, (hoctal (by omega)).symm⟩

mutual

/-- Whether fields are fields of a shape, none of them twice, with values that fit. -/
def fitsFields (shape : String) : List (String × Doc) → Bool
  | [] => true
  | (k, v) :: fs =>
    !(fs.map Prod.fst).contains k && (match field? shape k with
        | some f => fitsValue f f.many v
        | none => false) && fitsFields shape fs

/-- Whether a value is as a field asks for. A repeated field has an item. -/
def fitsValue (f : Field) (many : Bool) : Doc → Bool
  | .arr xs => many && !xs.isEmpty && fitsItems f xs
  | .obj fs => !many && (match f.kind with
    | .message inner => fitsFields inner fs
    | _ => false)
  | .str _ => !many && decide (f.kind = .text)
  | .bool _ => !many && decide (f.kind = .flag)
  | _ => false

def fitsItems (f : Field) : List Doc → Bool
  | [] => true
  | d :: ds => fitsValue f false d && fitsItems f ds

end

theorem fitsFields_iff {shape : String} {fs : List (String × Doc)} :
    fitsFields shape fs = true ↔ (fs.map Prod.fst).Nodup ∧
      ∀ p ∈ fs, ∃ f, field? shape p.1 = some f ∧ fitsValue f f.many p.2 = true := by
  induction fs with
  | nil => simp [fitsFields]
  | cons p fs ih =>
    obtain ⟨k, v⟩ := p
    have hv : (match field? shape k with
        | some f => fitsValue f f.many v
        | none => false) = true ↔ ∃ f, field? shape k = some f ∧ fitsValue f f.many v = true := by
      cases field? shape k <;> simp
    rw [fitsFields, Bool.and_eq_true, Bool.and_eq_true, hv, ih, map_cons, nodup_cons, forall_mem_cons]
    simp only [Bool.not_eq_true', contains_eq_mem, decide_eq_false_iff_not]
    tauto

theorem fitsItems_iff {f : Field} {xs : List Doc} : fitsItems f xs = true ↔ ∀ x ∈ xs, fitsValue f false x = true := by
  induction xs with
  | nil => simp [fitsItems]
  | cons x xs ih => rw [fitsItems, Bool.and_eq_true, ih, forall_mem_cons]

theorem notMem_keys_of_fits {shape k : String} {v : Doc} {fs : List (String × Doc)}
    (h : fitsFields shape ((k, v) :: fs) = true) :
    k ∉ Table.keys fs ∧ (∃ f, field? shape k = some f ∧ fitsValue f f.many v = true) ∧
      fitsFields shape fs = true := by
  rw [fitsFields_iff, map_cons, nodup_cons, forall_mem_cons] at h
  exact ⟨h.1.1, h.2.1, fitsFields_iff.2 ⟨h.1.2, h.2.2⟩⟩

theorem field_of_field? {shape k : String} {f : Field} (h : field? shape k = some f) :
    f.name = k ∧ isWord k.toList = true ∧ (f.kind = .text ∨ f.kind = .flag → f.alternative = false) := by
  have hname : f.name = k := by simpa using find?_some h
  have hall : ∀ p ∈ shapes, ∀ g ∈ p.2,
      isWord g.name.toList = true ∧ (g.kind = .text ∨ g.kind = .flag → g.alternative = false) := by
    decide +kernel
  have hmem : f ∈ fieldsOf shape := mem_of_find?_eq_some h
  rw [fieldsOf] at hmem
  cases hshape : shapes.lookup shape with
  | none => simp [hshape] at hmem
  | some gs =>
    rw [hshape, Option.getD_some] at hmem
    obtain ⟨before, after, hshapes, -⟩ := lookup_eq_some_iff.1 hshape
    have hf := hall (shape, gs) (by rw [hshapes]; simp) f hmem
    exact ⟨hname, hname ▸ hf.1, hf.2⟩

/-! ## Tokens of a written message -/

/-- A text that is cut into tokens, whatever comes after it, without returns. -/
structure Writes (cs : List Char) (ts : List Token) : Prop where
  cuts : ∀ {rest : List Char} {us : List Token}, Cuts rest us → Cuts (cs ++ rest) (ts ++ us)
  notMem : '\r' ∉ cs

namespace Writes

variable {cs ds : List Char} {ts us : List Token}

theorem nil : Writes [] [] := ⟨fun h => h, not_mem_nil⟩

theorem append (h : Writes cs ts) (h' : Writes ds us) : Writes (cs ++ ds) (ts ++ us) where
  cuts hrest := by
    rw [append_assoc, append_assoc]
    exact h.cuts (h'.cuts hrest)
  notMem := by simp [h.notMem, h'.notMem]

theorem margin (depth : Nat) : Writes (margin depth).toList [] where
  cuts {rest us} hrest := by
    have hblanks : ∀ n, Cuts (List.replicate n ' ' ++ rest) us := by
      intro n
      induction n with
      | zero => exact hrest
      | succ n ih => exact ih.blank (.inl rfl)
    simpa [Message.margin] using hblanks (2 * depth)
  notMem := by simp [Message.margin]

theorem quote (s : String) : Writes ((quote s).toList ++ ['\n']) [(text s).token] where
  cuts {rest us} hrest := by
    have hquoted : Cuts ('"' :: (s.toUTF8.toList.flatMap writeByte ++ '"' :: '\n' :: rest))
        (.quoted s.toUTF8.toList :: us) := by
      refine Cuts.of_cons fun fuel hfuel => ?_
      have htail := hrest.blank (.inr (.inr rfl)) fuel (by simp at hfuel; simp; omega)
      rw [tokensGo_cons (by decide), if_neg (by decide), if_neg (by simp), if_pos (by decide), readQuoted_flatMap]
      simp [htail]
    rw [token, ← toList_toUTF8]
    simpa [Message.quote] using hquoted
  notMem := by
    simp only [Message.quote, String.toList_ofList]
    simp [return_notMem_writeByte]

theorem flag (b : Bool) : Writes ((if b then "true" else "false").toList ++ ['\n'])
      [(word (if b then "true" else "false")).token] where
  cuts {rest us} hrest := by
    have hword : isWord (if b then "true" else "false").toList = true := by cases b <;> decide
    have hline : Cuts ('\n' :: rest) us := hrest.blank (.inr (.inr rfl))
    simpa [token] using hline.word hword rfl
  notMem := by cases b <;> decide

theorem line {key : String} (hkey : isWord key.toList = true) {t : Token}
    (h : Writes (cs ++ ['\n']) [t]) (depth : Nat) :
    Writes ((Message.margin depth ++ key ++ ": ").toList ++ (cs ++ ['\n'])) [.word key.toList, .mark ':', t] := by
  have hhead : Writes (key ++ ": ").toList [.word key.toList, .mark ':'] :=
    ⟨fun hrest => by
      simpa using Cuts.word hkey rfl ((hrest.blank (.inl rfl)).mark (.inl rfl)),
      by simpa using notMem_return_of_isWord hkey⟩
  simpa [String.append_assoc] using ((margin depth).append hhead).append h

theorem block {key : String} (hkey : isWord key.toList = true) (h : Writes cs ts) (depth : Nat) :
    Writes ((Message.margin depth ++ key ++ " \x7b\n").toList ++ cs ++ (Message.margin depth ++ "\x7d\n").toList)
      (.word key.toList :: .mark '\x7b' :: (ts ++ [.mark '\x7d'])) := by
  have hopen : Writes (key ++ " \x7b\n").toList [.word key.toList, .mark '\x7b'] :=
    ⟨fun hrest => by
      simpa using Cuts.word hkey rfl (((hrest.blank (.inr (.inr rfl))).mark (.inr (.inl rfl))).blank (.inl rfl)),
      by simpa using notMem_return_of_isWord hkey⟩
  have hclose : Writes "\x7d\n".toList [.mark '\x7d'] :=
    ⟨fun hrest => by simpa using (hrest.blank (.inr (.inr rfl))).mark (.inr (.inr rfl)), by decide⟩
  have hall := (((margin depth).append hopen).append h).append ((margin depth).append hclose)
  simpa [String.append_assoc] using hall

end Writes

def atomOf : Doc → Atom
  | .str s => .text s
  | .bool b => .word (if b then "true" else "false")
  | _ => .text ""

mutual

def fieldsTokens (shape : String) : List (String × Doc) → List Token
  | [] => []
  | (k, v) :: fs =>
    (match field? shape k with
      | none => []
      | some f => valueTokens f v) ++ fieldsTokens shape fs

def valueTokens (f : Field) : Doc → List Token
  | .arr xs => itemsTokens f xs
  | .obj fs =>
    match f.kind with
    | .message inner =>
      .word f.name.toList :: .mark '\x7b' :: (fieldsTokens inner fs ++ [.mark '\x7d'])
    | _ => []
  | d => Line.tokens ⟨f.name, atomOf d⟩

def itemsTokens (f : Field) : List Doc → List Token
  | [] => []
  | d :: ds => valueTokens f d ++ itemsTokens f ds

end

theorem writes_atom {f : Field} (hname : isWord f.name.toList = true) (depth : Nat) {d : Doc}
    (hd : fitsValue f false d = true) (harr : ∀ xs, d ≠ .arr xs) (hobj : ∀ fs, d ≠ .obj fs) :
    Writes (writeField f depth d).toList (valueTokens f d) := by
  cases d with
  | str s =>
    have hkind : f.kind = .text := by simpa [fitsValue] using hd
    have hline := (Writes.quote s).line hname depth
    simpa [writeField, writeAtom, hkind, valueTokens, Line.tokens, atomOf] using hline
  | bool b =>
    have hline := (Writes.flag b).line hname depth
    simpa [writeField, writeAtom, valueTokens, Line.tokens, atomOf] using hline
  | arr xs => exact absurd rfl (harr xs)
  | obj fs => exact absurd rfl (hobj fs)
  | _ => simp [fitsValue] at hd

mutual

theorem writes_fields {shape : String} (depth : Nat) : ∀ {fs : List (String × Doc)}, fitsFields shape fs = true →
      Writes (writeFields shape depth fs).toList (fieldsTokens shape fs)
  | [], _ => Writes.nil
  | (k, v) :: fs, h => by
    obtain ⟨-, ⟨f, hf, hv⟩, hfs⟩ := notMem_keys_of_fits h
    obtain ⟨rfl, hname, -⟩ := field_of_field? hf
    have hall := (writes_value hname depth hv).append (writes_fields depth hfs)
    simpa [writeFields, fieldsTokens, hf] using hall

theorem writes_value {f : Field} (hname : isWord f.name.toList = true) (depth : Nat) :
    ∀ {many : Bool} {v : Doc}, fitsValue f many v = true → Writes (writeField f depth v).toList (valueTokens f v)
  | many, .arr xs, h => by
    rw [fitsValue, Bool.and_eq_true] at h
    simpa [writeField, valueTokens] using writes_items hname depth h.2
  | many, .obj fs, h => by
    rw [fitsValue, Bool.and_eq_true] at h
    cases hkind : f.kind with
    | message inner =>
      have hinner : fitsFields inner fs = true := by simpa [hkind] using h.2
      have hblock := (writes_fields (depth + 1) hinner).block hname depth
      simpa [writeField, valueTokens, hkind, String.append_assoc] using hblock
    | _ => simp [hkind] at h
  | false, .str s, h => writes_atom hname depth h (by simp) (by simp)
  | false, .bool b, h => writes_atom hname depth h (by simp) (by simp)
  | true, .str s, h => by simp [fitsValue] at h
  | true, .bool b, h => by simp [fitsValue] at h
  | many, .null, h => by simp [fitsValue] at h
  | many, .int n, h => by simp [fitsValue] at h
  | many, .decimal m e, h => by simp [fitsValue] at h

theorem writes_items {f : Field} (hname : isWord f.name.toList = true) (depth : Nat) :
    ∀ {xs : List Doc}, fitsItems f xs = true → Writes (writeItems f depth xs).toList (itemsTokens f xs)
  | [], _ => Writes.nil
  | d :: ds, h => by
    rw [fitsItems, Bool.and_eq_true] at h
    have hall := (writes_value hname depth h.1).append (writes_items hname depth h.2)
    simpa [writeItems, itemsTokens] using hall

end

/-! ## Putting values into a message -/

theorem lookup_eq_none_of_notMem {fs : List (String × Doc)} {k : String} (h : k ∉ Table.keys fs) :
    fs.lookup k = none :=
  lookup_eq_none_iff.2 fun p hp => by
    simpa using fun hk : k = p.1 => h (hk ▸ mem_map_of_mem hp)

theorem notMem_keys_concat {k : String} (v : Doc) {fs base : List (String × Doc)}
    (hk : k ∉ Table.keys fs) (h : ∀ j ∈ Table.keys fs, j ∉ Table.keys base) :
    ∀ j ∈ Table.keys fs, j ∉ Table.keys (base ++ [(k, v)]) := by
  intro j hj hmem
  rcases (by simpa [Table.keys] using hmem : j ∈ Table.keys base ∨ j = k) with hj' | rfl
  · exact h j hj hj'
  · exact hk hj

mutual

theorem mergeFields_of_fits {shape : String} : ∀ {fs base : List (String × Doc)}, fitsFields shape fs = true →
      (∀ k ∈ Table.keys fs, k ∉ Table.keys base) → mergeFields shape base fs = base ++ fs
  | [], base, _, _ => by simp [mergeFields]
  | (k, v) :: fs, base, h, hnew => by
    obtain ⟨hk, ⟨f, hf, hv⟩, hfs⟩ := notMem_keys_of_fits h
    have hbase : k ∉ Table.keys base := hnew k (by simp [Table.keys])
    have hrest := notMem_keys_concat v hk fun j hj => hnew j (mem_cons_of_mem _ hj)
    rw [mergeFields, hf]
    dsimp only
    rw [mergeField_of_fits hf hv hbase, mergeFields_of_fits hfs hrest, append_assoc, singleton_append]

theorem mergeField_of_fits {shape k : String} {f : Field} {base : List (String × Doc)} :
    ∀ {many : Bool} {v : Doc}, field? shape k = some f → fitsValue f many v = true →
      k ∉ Table.keys base → mergeField shape f k base v = base ++ [(k, v)]
  | many, .arr xs, _, _, hk => by
    rw [mergeField, lookup_eq_none_of_notMem hk, set_of_notMem hk]
    rfl
  | many, .obj fs, _, hv, hk => by
    rw [fitsValue, Bool.and_eq_true] at hv
    cases hkind : f.kind with
    | message inner =>
      have hinner : fitsFields inner fs = true := by simpa [hkind] using hv.2
      rw [mergeField, hkind]
      dsimp only
      rw [lookup_eq_none_of_notMem hk, set_of_notMem hk, Option.map_none, Option.getD_none,
        mergeFields_of_fits hinner (by simp [Table.keys]), nil_append]
    | _ => simp [hkind] at hv
  | many, .str s, hf, hv, hk => by
    have hkind : f.kind = .text := by
      rw [fitsValue, Bool.and_eq_true, decide_eq_true_eq] at hv
      exact hv.2
    rw [mergeField, if_neg (by simp [(field_of_field? hf).2.2 (.inl hkind)]), set_of_notMem hk]
    all_goals simp
  | many, .bool b, hf, hv, hk => by
    have hkind : f.kind = .flag := by
      rw [fitsValue, Bool.and_eq_true, decide_eq_true_eq] at hv
      exact hv.2
    rw [mergeField, if_neg (by simp [(field_of_field? hf).2.2 (.inr hkind)]), set_of_notMem hk]
    all_goals simp
  | _, .null, _, hv, _ => by simp [fitsValue] at hv
  | _, .int _, _, hv, _ => by simp [fitsValue] at hv
  | _, .decimal _ _, _, hv, _ => by simp [fitsValue] at hv

end

def putAll (f : Field) (v : Doc) (base : List (String × Doc)) : List (String × Doc) :=
  match v with
  | .arr xs => xs.foldl (fun base x => put shape f x base) base
  | v => put shape f v base

theorem put_eq {shape k : String} {f : Field} (hf : field? shape k = some f) (v : Doc) (base : List (String × Doc)) :
    put shape f v base = mergeField shape f k base (if f.many then .arr [v] else v) := by
  obtain ⟨rfl, -⟩ := field_of_field? hf
  rw [put, mergeFields, hf, mergeFields]

theorem foldl_put {shape k : String} {f : Field} (hf : field? shape k = some f)
    (hmany : f.many = true) {base : List (String × Doc)} (hk : k ∉ Table.keys base) (xs ys : List Doc) :
    ys.foldl (fun base x => put shape f x base) (base ++ [(k, Doc.arr xs)]) = base ++ [(k, .arr (xs ++ ys))] := by
  induction ys generalizing xs with
  | nil => simp
  | cons y ys ih =>
    have hput : put shape f y (base ++ [(k, Doc.arr xs)]) = base ++ [(k, .arr (xs ++ [y]))] := by
      rw [put_eq hf, hmany, if_pos rfl, mergeField, lookup_append, lookup_eq_none_of_notMem hk,
        set_append_singleton hk]
      simp [Doc.itemsOf]
    rw [foldl_cons, hput, ih, append_assoc, singleton_append]

theorem putAll_of_fits {shape k : String} {f : Field} (hf : field? shape k = some f) {v : Doc}
    (hv : fitsValue f f.many v = true) {base : List (String × Doc)} (hk : k ∉ Table.keys base) :
    putAll shape f v base = base ++ [(k, v)] := by
  have hone : (∀ xs, v ≠ .arr xs) → put shape f v base = base ++ [(k, v)] := by
    intro hv'
    have hmany : f.many = false := by
      cases v <;> simp_all [fitsValue]
    rw [put_eq hf, hmany, if_neg (by simp), mergeField_of_fits hf hv hk]
  cases v with
  | arr xs =>
    simp only [fitsValue, Bool.and_eq_true, Bool.not_eq_true', isEmpty_eq_false_iff] at hv
    obtain ⟨⟨hmany, hne⟩, -⟩ := hv
    cases xs with
    | nil => exact absurd rfl hne
    | cons x xs =>
      have hfirst : put shape f x base = base ++ [(k, .arr [x])] := by
        rw [put_eq hf, hmany, if_pos rfl, mergeField, lookup_eq_none_of_notMem hk, set_of_notMem hk]
        rfl
      rw [putAll, foldl_cons, hfirst, foldl_put hf hmany hk, singleton_append]
  | _ => exact hone (by simp)

/-! ## Reading -/

mutual

theorem startsLine_valueTokens (f : Field) {ts : List Token} (hts : startsLine ts = true) :
    ∀ v : Doc, startsLine (valueTokens f v ++ ts) = true
  | .arr xs => by simpa [valueTokens] using startsLine_itemsTokens f hts xs
  | .obj fs => by
    rw [valueTokens]
    split
    · rfl
    · exact hts
  | .str _ => rfl
  | .bool _ => rfl
  | .null => rfl
  | .int _ => rfl
  | .decimal _ _ => rfl

theorem startsLine_itemsTokens (f : Field) {ts : List Token} (hts : startsLine ts = true) :
    ∀ xs : List Doc, startsLine (itemsTokens f xs ++ ts) = true
  | [] => hts
  | d :: ds => by
    rw [itemsTokens, append_assoc]
    exact startsLine_valueTokens f (startsLine_itemsTokens f hts ds) d

end

theorem startsLine_fieldsTokens {ts : List Token} (hts : startsLine ts = true) (fs : List (String × Doc)) :
    startsLine (fieldsTokens shape fs ++ ts) = true := by
  induction fs with
  | nil => exact hts
  | cons p fs ih =>
    obtain ⟨k, v⟩ := p
    rw [fieldsTokens, append_assoc]
    split
    · exact ih
    · exact startsLine_valueTokens _ ih v

theorem exists_readFields_atom {shape k : String} {f : Field} (hf : field? shape k = some f)
    (close : Option Char) {ts : List Token} (hts : startsLine ts = true) {d : Doc}
    (hd : fitsValue f false d = true) (harr : ∀ xs, d ≠ .arr xs) (hobj : ∀ fs, d ≠ .obj fs)
    (base : List (String × Doc)) {fuel : Nat} (hfuel : 4 * (valueTokens f d ++ ts).length + 4 ≤ fuel) :
    ∃ left, 4 * ts.length + 4 ≤ left ∧ readFields shape close fuel base (valueTokens f d ++ ts) =
        readFields shape close left (put shape f d base) ts := by
  have hname : f.name = k := (field_of_field? hf).1
  obtain ⟨htokens, hdoc⟩ : valueTokens f d = Line.tokens ⟨f.name, atomOf d⟩ ∧ (atomOf d).doc? f = some d := by
    cases d with
    | str s =>
      have hkind : f.kind = .text := by simpa [fitsValue] using hd
      exact ⟨rfl, doc?_text hkind s⟩
    | bool b =>
      have hkind : f.kind = .flag := by simpa [fitsValue] using hd
      refine ⟨rfl, ?_⟩
      cases b <;> simp [atomOf, doc?, token, readAtom, hkind]
    | arr xs => exact absurd rfl (harr xs)
    | obj fs => exact absurd rfl (hobj fs)
    | _ => simp [fitsValue] at hd
  rw [htokens] at hfuel ⊢
  obtain ⟨fuel, rfl⟩ : ∃ n, fuel = n + 3 := ⟨fuel - 3, by omega⟩
  refine ⟨fuel + 2, ?_, ?_⟩
  · simp only [Line.tokens, length_append, length_cons, length_nil] at hfuel
    omega
  · rw [readFields_line shape close fuel base _ hts, putLine, hname, hf, Option.bind_some, hdoc]
    rfl

theorem readFields_word {shape k : String} {f : Field} (hf : field? shape k = some f)
    (close : Option Char) {fuel : Nat} {base fs : List (String × Doc)} {ts rest : List Token}
    (h : readField shape f fuel base ts = some (fs, rest)) :
    readFields shape close (fuel + 1) base (.word k.toList :: ts) =
      readFields shape close fuel fs (skipSeparator rest) := by
  rw [readFields]
  simp only [String.ofList_toList, hf, h]

mutual

/-- Fields are read as they were written, after those that were read before. -/
theorem exists_readFields_fields {shape : String} (close : Option Char) {ts : List Token}
    (hts : startsLine ts = true) :
    ∀ {fs base : List (String × Doc)} {fuel : Nat}, fitsFields shape fs = true →
      (∀ k ∈ Table.keys fs, k ∉ Table.keys base) →
      4 * (fieldsTokens shape fs ++ ts).length + 4 ≤ fuel →
      ∃ left, 4 * ts.length + 4 ≤ left ∧ readFields shape close fuel base (fieldsTokens shape fs ++ ts) =
          readFields shape close left (base ++ fs) ts
  | [], base, fuel, _, _, hfuel =>
    ⟨fuel, by simpa [fieldsTokens] using hfuel, by simp [fieldsTokens]⟩
  | (k, v) :: fs, base, fuel, h, hnew, hfuel => by
    obtain ⟨hk, ⟨f, hf, hv⟩, hfs⟩ := notMem_keys_of_fits h
    have hbase : k ∉ Table.keys base := hnew k (by simp [Table.keys])
    have hrest := notMem_keys_concat v hk fun j hj => hnew j (mem_cons_of_mem _ hj)
    have htokens : fieldsTokens shape ((k, v) :: fs) ++ ts = valueTokens f v ++ (fieldsTokens shape fs ++ ts) := by
      simp [fieldsTokens, hf]
    rw [htokens] at hfuel ⊢
    obtain ⟨left₁, hleft₁, hread₁⟩ := exists_readFields_value hf close
      (startsLine_fieldsTokens shape hts fs) base hv hfuel
    obtain ⟨left₂, hleft₂, hread₂⟩ := exists_readFields_fields close hts hfs hrest hleft₁
    refine ⟨left₂, hleft₂, ?_⟩
    rw [hread₁, putAll_of_fits hf hv hbase, hread₂, append_assoc, singleton_append]

theorem exists_readFields_value {shape k : String} {f : Field} (hf : field? shape k = some f)
    (close : Option Char) {ts : List Token} (hts : startsLine ts = true)
    (base : List (String × Doc)) :
    ∀ {many : Bool} {v : Doc} {fuel : Nat}, fitsValue f many v = true →
      4 * (valueTokens f v ++ ts).length + 4 ≤ fuel →
      ∃ left, 4 * ts.length + 4 ≤ left ∧ readFields shape close fuel base (valueTokens f v ++ ts) =
          readFields shape close left (putAll shape f v base) ts
  | many, .arr xs, fuel, hv, hfuel => by
    rw [fitsValue, Bool.and_eq_true] at hv
    rw [valueTokens] at hfuel ⊢
    exact exists_readFields_items hf close hts base hv.2 hfuel
  | many, .obj fs, fuel, hv, hfuel => by
    rw [fitsValue, Bool.and_eq_true] at hv
    cases hkind : f.kind with
    | message inner =>
      have hinner : fitsFields inner fs = true := by simpa [hkind] using hv.2
      have hname : f.name = k := (field_of_field? hf).1
      have htokens : valueTokens f (.obj fs) ++ ts =
          .word k.toList :: .mark '\x7b' :: (fieldsTokens inner fs ++ .mark '\x7d' :: ts) := by
        simp [valueTokens, hkind, hname]
      rw [htokens] at hfuel ⊢
      simp only [length_cons, length_append] at hfuel
      obtain ⟨fuel, rfl⟩ : ∃ n, fuel = n + 2 + 1 := ⟨fuel - 3, by omega⟩
      obtain ⟨left, hleft, hread⟩ : ∃ left, 4 * (Token.mark '\x7d' :: ts).length + 4 ≤ left ∧
          readFields inner (some '\x7d') fuel [] (fieldsTokens inner fs ++ .mark '\x7d' :: ts) =
            readFields inner (some '\x7d') left ([] ++ fs) (.mark '\x7d' :: ts) := by
        refine exists_readFields_fields (some '\x7d') rfl hinner (by simp [Table.keys]) ?_
        simp only [length_cons, length_append]
        omega
      obtain ⟨left, rfl⟩ : ∃ n, left = n + 1 := ⟨left - 1, by omega⟩
      have hfield : readField shape f (fuel + 2) base
          (.mark '\x7b' :: (fieldsTokens inner fs ++ .mark '\x7d' :: ts)) =
            some (put shape f (.obj fs) base, ts) := by
        rw [readField_open shape hkind, hread, readFields]
        simp
      refine ⟨fuel + 2, by omega, ?_⟩
      rw [readFields_word hf close hfield, skipSeparator_startsLine hts, putAll]
      simp
    | _ => simp [hkind] at hv
  | false, .str s, fuel, hv, hfuel => exists_readFields_atom hf close hts hv (by simp) (by simp) base hfuel
  | false, .bool b, fuel, hv, hfuel => exists_readFields_atom hf close hts hv (by simp) (by simp) base hfuel
  | true, .str s, _, hv, _ => by simp [fitsValue] at hv
  | true, .bool b, _, hv, _ => by simp [fitsValue] at hv
  | _, .null, _, hv, _ => by simp [fitsValue] at hv
  | _, .int _, _, hv, _ => by simp [fitsValue] at hv
  | _, .decimal _ _, _, hv, _ => by simp [fitsValue] at hv

theorem exists_readFields_items {shape k : String} {f : Field} (hf : field? shape k = some f)
    (close : Option Char) {ts : List Token} (hts : startsLine ts = true)
    (base : List (String × Doc)) :
    ∀ {xs : List Doc} {fuel : Nat}, fitsItems f xs = true → 4 * (itemsTokens f xs ++ ts).length + 4 ≤ fuel →
      ∃ left, 4 * ts.length + 4 ≤ left ∧ readFields shape close fuel base (itemsTokens f xs ++ ts) =
          readFields shape close left (xs.foldl (fun base x => put shape f x base) base) ts
  | [], fuel, _, hfuel => ⟨fuel, by simpa [itemsTokens] using hfuel, by simp [itemsTokens]⟩
  | d :: ds, fuel, h, hfuel => by
    rw [fitsItems, Bool.and_eq_true] at h
    have htokens : itemsTokens f (d :: ds) ++ ts = valueTokens f d ++ (itemsTokens f ds ++ ts) := by
      simp [itemsTokens]
    rw [htokens] at hfuel ⊢
    obtain ⟨left₁, hleft₁, hread₁⟩ := exists_readFields_value hf close
      (startsLine_itemsTokens f hts ds) base h.1 hfuel
    have hput : putAll shape f d base = put shape f d base := by
      cases d with
      | arr xs => simp [fitsValue] at h
      | _ => rfl
    obtain ⟨left₂, hleft₂, hread₂⟩ := exists_readFields_items hf close hts (put shape f d base) h.2 hleft₁
    exact ⟨left₂, hleft₂, by rw [hread₁, hput, hread₂, foldl_cons]⟩

end

theorem ofText?_toText {shape : String} {fs : List (String × Doc)} (h : fitsFields shape fs = true) :
    ofText? shape (String.ofList (Text.unifyLineEnds (toText shape (.obj fs)).toList)) =
      some (normal shape (.obj fs)) := by
  have hwrites : Writes (toText shape (.obj fs)).toList (fieldsTokens shape fs) := writes_fields 0 h
  have hcut : Cuts (toText shape (.obj fs)).toList (fieldsTokens shape fs) := by
    simpa using hwrites.cuts Cuts.nil
  have hreads : ∀ fuel, 4 * (fieldsTokens shape fs ++ []).length + 4 ≤ fuel →
      ∃ left, 4 * ([] : List Token).length + 4 ≤ left ∧ readFields shape none fuel [] (fieldsTokens shape fs ++ []) =
          readFields shape none left ([] ++ fs) [] :=
    fun _ hfuel => exists_readFields_fields none rfl h (by simp [Table.keys]) hfuel
  obtain ⟨left, hleft, hread⟩ := hreads _ (Nat.le_refl _)
  obtain ⟨left, rfl⟩ : ∃ n, left = n + 1 := ⟨left - 1, by omega⟩
  have hfields : readFields shape none (left + 1) ([] ++ fs) [] = some (fs, []) := by
    rw [readFields]
    rfl
  rw [append_nil, hfields] at hread
  rw [Text.unifyLineEnds_eq_self hwrites.notMem, String.ofList_toList, ofText?, hcut.tokens_eq]
  simp only [hread, Option.map_some]

end Vetting.Message
