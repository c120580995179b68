import Vetting.Document.Text
import Vetting.Proofs.Table

/-!
# Documents

Documents are compared by how they are built, so that statements about them can be checked by evaluation. A
document whose fields are texts is read as it was written.
-/

namespace Vetting.Doc

open List

/-! ## Equality can be decided -/

mutual

/-- Whether two documents are built alike. -/
def identical : Doc → Doc → Bool
  | .null, .null => true
  | .bool a, .bool b => a == b
  | .int m, .int n => m == n
  | .decimal m e, .decimal n f => m == n && e == f
  | .str s, .str t => s == t
  | .arr xs, .arr ys => identicalItems xs ys
  | .obj fs, .obj gs => identicalFields fs gs
  | _, _ => false

/-- Whether two lists of documents are built alike. -/
def identicalItems : List Doc → List Doc → Bool
  | [], [] => true
  | x :: xs, y :: ys => identical x y && identicalItems xs ys
  | _, _ => false

/-- Whether two lists of fields are built alike. -/
def identicalFields : List (String × Doc) → List (String × Doc) → Bool
  | [], [] => true
  | (k, x) :: fs, (l, y) :: gs => k == l && identical x y && identicalFields fs gs
  | _, _ => false

end

mutual

theorem identical_iff : (a b : Doc) → (identical a b = true ↔ a = b)
  | .null, b => by cases b <;> simp [identical]
  | .bool _, b => by cases b <;> simp [identical]
  | .int _, b => by cases b <;> simp [identical]
  | .decimal _ _, b => by cases b <;> simp [identical]
  | .str _, b => by cases b <;> simp [identical]
  | .arr xs, b => by cases b <;> simp [identical, identicalItems_iff xs]
  | .obj fs, b => by cases b <;> simp [identical, identicalFields_iff fs]

theorem identicalItems_iff : (xs ys : List Doc) → (identicalItems xs ys = true ↔ xs = ys)
  | [], ys => by cases ys <;> simp [identicalItems]
  | x :: xs, ys => by cases ys <;> simp [identicalItems, identical_iff x, identicalItems_iff xs]

theorem identicalFields_iff : (fs gs : List (String × Doc)) → (identicalFields fs gs = true ↔ fs = gs)
  | [], gs => by cases gs <;> simp [identicalFields]
  | (k, x) :: fs, gs => by
    cases gs with
    | nil => simp [identicalFields]
    | cons g gs => simp [identicalFields, identical_iff x, identicalFields_iff fs, Prod.ext_iff]

end

instance : DecidableEq Doc := fun a b => decidable_of_iff _ (identical_iff a b)

/-! ## Reading what was written -/

theorem hexValue?_hexDigit : ∀ n < 16, hexValue? (hexDigit n) = some n := by decide

theorem hexFour?_hexDigits {n : Nat} (hn : n < 0x10000) :
    hexFour? (hexDigit (n / 4096 % 16)) (hexDigit (n / 256 % 16)) (hexDigit (n / 16 % 16))
      (hexDigit (n % 16)) = some n := by
  have hdigit : ∀ m, hexValue? (hexDigit (m % 16)) = some (m % 16) := fun m =>
    hexValue?_hexDigit _ (Nat.mod_lt _ (by decide))
  simp only [hexFour?, hdigit, Option.bind_eq_bind, Option.bind_some, Option.pure_def, Option.some.injEq]
  omega

variable (c : Char) (fuel : Nat) (s : String)

theorem isValidChar_toNat : c.toNat.isValidChar := c.valid

theorem charOf_toNat : charOf c.toNat = c := by
  rw [charOf, if_pos (isValidChar_toNat c), Char.ofNat_toNat]

theorem readText_single {a b c d : Char} {n : Nat} (hn : hexFour? a b c d = some n)
    (hsingle : ¬ (0xD800 ≤ n ∧ n < 0xDC00)) (acc rest : List Char) :
    readText acc ('\\' :: 'u' :: a :: b :: c :: d :: rest) = readText (charOf n :: acc) rest := by
  rw [readText.eq_def]
  split
  case h_3 heq =>
    -- Another escape follows, which is no second half here.
    simp only [List.cons.injEq, true_and] at heq
    obtain ⟨rfl, rfl, rfl, rfl, rfl⟩ := heq
    rw [hn]
    split
    · rename_i hm _
      obtain rfl := Option.some.inj hm
      rw [if_neg]
      simp only [Bool.and_eq_true, decide_eq_true_eq]
      tauto
    · rename_i hm _
      rw [Option.some.inj hm]
    · simp_all
  case h_4 heq =>
    simp only [List.cons.injEq, true_and] at heq
    obtain ⟨rfl, rfl, rfl, rfl, rfl⟩ := heq
    rw [hn]
  case h_5 hshort heq =>
    simp only [List.cons.injEq, true_and] at heq
    exact absurd heq.2.symm (hshort a b c d rest heq.1.symm)
  case h_6 hother heq =>
    simp only [List.cons.injEq] at heq
    exact absurd heq.2.symm (hother _ _ heq.1.symm)
  all_goals simp_all

/-- The escapes of two halves of a surrogate pair are read together. -/
theorem readText_pair {a b c d e f g h : Char} {m n : Nat} (hm : hexFour? a b c d = some m)
    (hn : hexFour? e f g h = some n) (hfirst : 0xD800 ≤ m ∧ m < 0xDC00)
    (hsecond : 0xDC00 ≤ n ∧ n < 0xE000) (acc rest : List Char) :
    readText acc ('\\' :: 'u' :: a :: b :: c :: d :: '\\' :: 'u' :: e :: f :: g :: h :: rest) =
      readText (charOf (0x10000 + (m - 0xD800) * 0x400 + (n - 0xDC00)) :: acc) rest := by
  rw [readText, hm, hn]
  simp [hfirst, hsecond]

/-- The characters that are written by a letter or sign after a backslash. -/
def named : List Char := ['"', '\\', '\n', '\r', '\t', '\x08', '\x0c']

theorem writeChar_of_notMem (h : c ∉ named) : writeChar c = if 32 ≤ c.toNat && c.toNat < 127 then [c]
    else if c.toNat < 0x10000 then unitEscape c.toNat
    else unitEscape (0xD800 + (c.toNat - 0x10000) / 0x400) ++ unitEscape (0xDC00 + (c.toNat - 0x10000) % 0x400) := by
  simp only [named, mem_cons, not_mem_nil, or_false, not_or] at h
  obtain ⟨hquote, hslash, hline, hreturn, htab, hback, hfeed⟩ := h
  have hback : c.toNat ≠ 8 := fun h => hback (Char.toNat_inj.1 h)
  have hfeed : c.toNat ≠ 12 := fun h => hfeed (Char.toNat_inj.1 h)
  rw [writeChar, if_neg hquote, if_neg hslash, if_neg hline, if_neg hreturn, if_neg htab, if_neg hback, if_neg hfeed]

theorem readText_writeChar (acc rest : List Char) :
    readText acc (writeChar c ++ rest) = readText (c :: acc) rest := by
  by_cases hc : c ∈ named
  · simp only [named, mem_cons, not_mem_nil, or_false] at hc
    rcases hc with rfl | rfl | rfl | rfl | rfl | rfl | rfl <;> simp [writeChar, readText]
  have hvalid := isValidChar_toNat c
  rw [Nat.isValidChar] at hvalid
  rw [writeChar_of_notMem c hc]
  split
  case isTrue hplain =>
    simp only [Bool.and_eq_true, decide_eq_true_eq] at hplain
    simp only [named, mem_cons, not_or] at hc
    rw [singleton_append, readText.eq_def]
    split <;> simp_all
  split
  case isTrue hunit =>
    simp only [unitEscape, cons_append, nil_append]
    rw [readText_single (hexFour?_hexDigits hunit) (by omega), charOf_toNat]
  case isFalse =>
    simp only [unitEscape, cons_append, nil_append]
    rw [readText_pair (hexFour?_hexDigits (by omega)) (hexFour?_hexDigits (by omega)) (by omega) (by omega)]
    rw [show 0x10000 + (0xD800 + (c.toNat - 0x10000) / 0x400 - 0xD800) * 0x400
        + (0xDC00 + (c.toNat - 0x10000) % 0x400 - 0xDC00) = c.toNat by omega, charOf_toNat]

theorem readText_written (cs acc rest : List Char) :
    readText acc (cs.flatMap writeChar ++ '"' :: rest) = some (acc.reverse ++ cs, rest) := by
  induction cs generalizing acc with
  | nil => simp [readText]
  | cons c cs ih => rw [flatMap_cons, append_assoc, readText_writeChar, ih]; simp

theorem readValue_writeText (rest : List Char) :
    readValue (fuel + 1) ((writeText s).toList ++ rest) = some (.str s, rest) := by
  simp [writeText, readValue, readText_written, String.toList_ofList, append_assoc]

theorem reverse_set (acc : Table String Doc) (k : String) (v : Doc) :
    (if acc.reverse.any (fun p => p.1 == k) then (acc.set k v).reverse else (k, v) :: acc.reverse) =
      (acc.set k v).reverse := by
  split
  case isTrue => rfl
  case isFalse hnew =>
    rw [Table.set_of_notMem (by simpa [Table.keys] using hnew)]
    simp

/-- Reading a field: a brace ends the fields, a comma leads to the next one. -/
theorem readFields_field (acc : Table String Doc) (k v : String) {rest : List Char} :
    (∀ tail, skipGap rest = '}' :: tail → readFields (fuel + 2) acc.reverse
        ((writeText k).toList ++ (": ".toList ++ ((writeText v).toList ++ rest))) =
      some (acc.set k (.str v), tail)) ∧
    ∀ tail, skipGap rest = ',' :: tail → readFields (fuel + 2) acc.reverse
        ((writeText k).toList ++ (": ".toList ++ ((writeText v).toList ++ rest))) =
      readFields (fuel + 1) (acc.set k (.str v)).reverse (skipGap tail) := by
  have hkey : (writeText k).toList ++ (": ".toList ++ ((writeText v).toList ++ rest)) =
      '"' :: (k.toList.flatMap writeChar ++ '"' :: ':' :: ' ' :: ((writeText v).toList ++ rest)) := by
    simp [writeText]
  have hcolon : ∀ cs, skipGap (':' :: cs) = ':' :: cs := fun _ => rfl
  have hvalue : skipGap (' ' :: ((writeText v).toList ++ rest)) = (writeText v).toList ++ rest := by
    simp [skipGap, isGap, writeText]
  constructor
  all_goals
    intro tail htail
    rw [hkey, readFields]
    simp only [readText_written, reverse_nil, nil_append, hcolon, hvalue, readValue_writeText,
      String.ofList_toList, reverse_set, reverse_reverse, htail]

variable {fs : List (String × Doc)}

theorem readFields_written (htexts : ∀ p ∈ fs, ∃ s, p.2 = .str s) (k v : String) {fuel : Nat}
    (hfuel : fs.length + 2 ≤ fuel) (acc : Table String Doc) (rest : List Char) :
    readFields fuel acc.reverse ((writeText k).toList ++ (": ".toList ++ ((writeText v).toList ++
      ((indentRestFields 2 1 fs).toList ++ '\n' :: '}' :: rest)))) =
      some (Table.update acc ((k, .str v) :: fs), rest) := by
  induction fs generalizing k v fuel acc with
  | nil =>
    obtain ⟨fuel, rfl⟩ := Nat.exists_eq_add_of_le' hfuel
    exact (readFields_field fuel acc k v).1 rest rfl
  | cons p fs ih =>
    obtain ⟨l, d⟩ := p
    obtain ⟨w, rfl⟩ := htexts (l, d) mem_cons_self
    obtain ⟨fuel, rfl⟩ := Nat.exists_eq_add_of_le' hfuel
    have hnext : (indentRestFields 2 1 ((l, .str w) :: fs)).toList ++ '\n' :: '}' :: rest =
        ',' :: '\n' :: ' ' :: ' ' :: ((writeText l).toList ++ (": ".toList ++ ((writeText w).toList ++
          ((indentRestFields 2 1 fs).toList ++ '\n' :: '}' :: rest)))) := by
      simp [indentRestFields, newLine, writeIndented, writeAtom, append_assoc]
    have hgap : ∀ cs, skipGap ('\n' :: ' ' :: ' ' :: ((writeText l).toList ++ cs)) = (writeText l).toList ++ cs := by
      intro cs
      simp [skipGap, isGap, writeText]
    have henough : fs.length + 2 ≤ fuel + (((l, Doc.str w) :: fs).length + 1) := by simp
    have hrest := ih (fun q hq => htexts q (mem_cons_of_mem _ hq)) l w henough (acc.set k (.str v))
    have hcomma : ∀ cs, skipGap (',' :: cs) = ',' :: cs := fun _ => rfl
    rw [show fuel + (((l, Doc.str w) :: fs).length + 2) =
      (fuel + ((l, Doc.str w) :: fs).length) + 2 by omega, hnext, (readFields_field _ acc k v).2 _ (hcomma _),
      hgap]
    exact hrest

theorem length_le_indentRestFields (fs : List (String × Doc)) :
    fs.length ≤ (indentRestFields 2 1 fs).toList.length := by
  induction fs with
  | nil => simp
  | cons p fs ih =>
    simp only [indentRestFields, String.toList_append, length_append, length_cons]
    have : 0 < ",".toList.length := by decide
    omega

theorem readValue_object {cs tail : List Char} (hcs : skipGap cs = '"' :: tail) (fuel : Nat) :
    readValue (fuel + 1) ('{' :: cs) = (readFields fuel [] (skipGap cs)).map fun (fs, rest) => (.obj fs, rest) := by
  rw [readValue, hcs]
  rfl

theorem parse?_pretty (htexts : ∀ p ∈ fs, ∃ s, p.2 = .str s) :
    parse? (Doc.obj fs).pretty = some (.obj (Table.ofPairs fs)) := by
  cases fs with
  | nil => rfl
  | cons p fs =>
    obtain ⟨k, d⟩ := p
    obtain ⟨v, rfl⟩ := htexts (k, d) mem_cons_self
    let body := (writeText k).toList ++ (": ".toList ++ ((writeText v).toList ++
      ((indentRestFields 2 1 fs).toList ++ ['\n', '}'])))
    have hchars : (Doc.obj ((k, .str v) :: fs)).pretty.toList = '{' :: '\n' :: ' ' :: ' ' :: body := by
      simp [body, pretty, newLine, writeIndented, writeAtom, append_assoc]
    have hgap : skipGap ('\n' :: ' ' :: ' ' :: body) = body := by
      simp [body, skipGap, isGap, writeText]
    have hquote : ∃ tail, body = '"' :: tail := by simp [body, writeText]
    have hfuel : fs.length + 2 ≤ ('{' :: '\n' :: ' ' :: ' ' :: body).length := by
      have := length_le_indentRestFields fs
      simp only [body, length_cons, length_append]
      omega
    have hread := readFields_written (fun q hq => htexts q (mem_cons_of_mem _ hq)) k v hfuel [] []
    obtain ⟨tail, htail⟩ := hquote
    rw [parse?, parseChars, hchars, show ∀ cs, skipGap ('{' :: cs) = '{' :: cs from fun _ => rfl,
      readValue_object (hgap.trans htail), hgap, show readFields _ [] body = _ from hread]
    rfl

/-! ### Line ends -/

theorem hexDigit_ne_return : ∀ n < 16, hexDigit n ≠ '\r' := by decide

theorem return_notMem_unitEscape (n : Nat) : '\r' ∉ unitEscape n := by
  have hdigit : ∀ m, '\r' ≠ hexDigit (m % 16) := fun m =>
    (hexDigit_ne_return _ (Nat.mod_lt _ (by decide))).symm
  simp [unitEscape, hdigit]

theorem return_notMem_writeText : '\r' ∉ (writeText s).toList := by
  have hchar : ∀ c, '\r' ∉ writeChar c := by
    intro c
    by_cases hc : c ∈ named
    · simp only [named, mem_cons, not_mem_nil, or_false] at hc
      rcases hc with rfl | rfl | rfl | rfl | rfl | rfl | rfl <;> decide
    rw [writeChar_of_notMem c hc]
    split
    · rintro (_ | ⟨_, ⟨⟩⟩)
      exact hc (by decide)
    · split <;> simp [return_notMem_unitEscape]
  simp [writeText, hchar]

theorem return_notMem_indentRestFields (htexts : ∀ p ∈ fs, ∃ s, p.2 = .str s) :
    '\r' ∉ (indentRestFields 2 1 fs).toList := by
  induction fs with
  | nil => simp [indentRestFields]
  | cons p fs ih =>
    obtain ⟨k, d⟩ := p
    obtain ⟨v, rfl⟩ := htexts (k, d) mem_cons_self
    simp [indentRestFields, newLine, writeIndented, writeAtom, return_notMem_writeText,
      ih fun q hq => htexts q (mem_cons_of_mem _ hq)]

theorem return_notMem_pretty (htexts : ∀ p ∈ fs, ∃ s, p.2 = .str s) : '\r' ∉ (Doc.obj fs).pretty.toList := by
  cases fs with
  | nil => decide
  | cons p fs =>
    obtain ⟨k, d⟩ := p
    obtain ⟨v, rfl⟩ := htexts (k, d) mem_cons_self
    simp [pretty, newLine, writeIndented, writeAtom, return_notMem_writeText,
      return_notMem_indentRestFields fun q hq => htexts q (mem_cons_of_mem _ hq)]

end Vetting.Doc
