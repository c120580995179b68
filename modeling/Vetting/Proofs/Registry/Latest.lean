import Vetting.Proofs.Fault
import Vetting.Proofs.Table
import Vetting.Proofs.Text
import Vetting.Registry.Packagist

/-!
# The latest version of a PHP package

The latest version is taken to be the greatest of the texts of the normal forms, in which 9 is greater than
10.
-/

namespace Vetting

open List Text Table

namespace Text

/-! ## The order of dotted numbers -/

variable (s : String)

def codes : List Nat := s.toList.map Char.toNat

theorem le_iff {s t : String} : le s t = true ↔ ¬ codes t < codes s := by
  simp [le, lt, codes]

theorem le_transitive {s t u : String} (hst : le s t = true) (htu : le t u = true) : le s u = true := by
  rw [le_iff, not_lt] at *
  exact hst.trans htu

theorem le_connex (t : String) : (le s t || le t s) = true := by
  rw [Bool.or_eq_true, le_iff, le_iff, not_lt, not_lt]
  exact le_total (codes s) (codes t)

/-- A number as it is written, perhaps with zeros before it. -/
def IsNumeral : Prop := s ≠ "" ∧ ∀ c ∈ s.toList, c.isDigit = true

theorem between_of_mem_codes {s : String} (hs : IsNumeral s) {x : Nat} (hx : x ∈ codes s) : 48 ≤ x ∧ x ≤ 57 := by
  obtain ⟨c, hc, rfl⟩ := mem_map.1 hx
  obtain ⟨k, hk⟩ := toNat_of_isDigit (hs.2 c hc)
  omega

theorem append_lt_append_iff {a b s t : List Nat} (ha : ∀ x ∈ a, 46 < x) (hb : ∀ x ∈ b, 46 < x)
    (hs : ∀ x ∈ s.head?, x = 46) (ht : ∀ x ∈ t.head?, x = 46) :
    a ++ s < b ++ t ↔ a < b ∨ a = b ∧ s < t := by
  induction a generalizing b with
  | nil =>
    cases b with
    | nil => simp
    | cons y b =>
      cases s with
      | nil => simp
      | cons x s =>
        obtain rfl : x = 46 := hs x rfl
        simp [cons_lt_cons_iff, hb y mem_cons_self]
  | cons x a ih =>
    have hx := ha x mem_cons_self
    cases b with
    | nil =>
      cases t with
      | nil => simp
      | cons y t =>
        obtain rfl : y = 46 := ht y rfl
        simp [cons_lt_cons_iff]
        omega
    | cons y b =>
      rw [cons_append, cons_append, cons_lt_cons_iff, cons_lt_cons_iff,
        ih (fun z hz => ha z (mem_cons_of_mem _ hz)) (fun z hz => hb z (mem_cons_of_mem _ hz)),
        List.cons.injEq]
      tauto

/-- The codes of dotted numbers, with a dot before each. -/
def dotted (xs : List String) : List Nat := xs.flatMap fun s => 46 :: codes s

theorem dotted_eq {xs : List String} (hxs : xs ≠ []) : dotted xs = 46 :: codes (join "." xs) := by
  obtain ⟨x, xs, rfl⟩ := exists_cons_of_ne_nil hxs
  simp [dotted, codes, toList_join_cons, map_flatMap]

theorem head?_dotted (xs : List String) : ∀ x ∈ (dotted xs).head?, x = 46 := by
  cases xs <;> simp [dotted, eq_comm]

theorem dotted_lt_iff {xs ys : List String} (hlen : xs.length = ys.length)
    (hxs : ∀ s ∈ xs, IsNumeral s) (hys : ∀ s ∈ ys, IsNumeral s) :
    dotted xs < dotted ys ↔ xs.map codes < ys.map codes := by
  induction xs generalizing ys with
  | nil =>
    obtain rfl := length_eq_zero_iff.1 hlen.symm
    simp [dotted]
  | cons x xs ih =>
    obtain ⟨y, ys, rfl⟩ := exists_cons_of_length_eq_add_one hlen.symm
    have hx : ∀ c ∈ codes x, 46 < c := fun c hc => by have := between_of_mem_codes (hxs x (by simp)) hc; omega
    have hy : ∀ c ∈ codes y, 46 < c := fun c hc => by have := between_of_mem_codes (hys y (by simp)) hc; omega
    have hrest := ih (by simpa using hlen) (fun s hs => hxs s (mem_cons_of_mem _ hs))
      (fun s hs => hys s (mem_cons_of_mem _ hs))
    have hcons : ∀ z zs, dotted (z :: zs) = 46 :: (codes z ++ dotted zs) := fun _ _ => rfl
    rw [hcons, hcons, cons_lt_cons_iff, append_lt_append_iff hx hy (head?_dotted xs) (head?_dotted ys),
      hrest, map_cons, map_cons, cons_lt_cons_iff]
    simp

/-! ## Numbers by their digits -/

def number : Nat := natOfDigits s.toList

/-- The number that some codes of digits stand for. -/
def valueOf (a : List Nat) : Nat := a.foldl (fun n x => n * 10 + (x - 48)) 0

theorem number_eq : number s = valueOf (codes s) := by
  rw [number, natOfDigits, valueOf, codes, foldl_map]

theorem valueOf_cons (x : Nat) (a : List Nat) : valueOf (x :: a) = (x - 48) * 10 ^ a.length + valueOf a := by
  have hfold : ∀ n, a.foldl (fun n x => n * 10 + (x - 48)) n = n * 10 ^ a.length + valueOf a := by
    induction a with
    | nil => simp [valueOf]
    | cons y a ih =>
      intro n
      rw [valueOf, foldl_cons, foldl_cons, ih, ih (0 * 10 + (y - 48)), length_cons]
      ring
  rw [valueOf, foldl_cons, hfold]
  simp

theorem valueOf_lt {a : List Nat} (ha : ∀ x ∈ a, 48 ≤ x ∧ x ≤ 57) : valueOf a < 10 ^ a.length := by
  induction a with
  | nil => simp [valueOf]
  | cons x a ih =>
    have hx := ha x mem_cons_self
    have hrest := ih fun y hy => ha y (mem_cons_of_mem _ hy)
    have hmul : (x - 48) * 10 ^ a.length ≤ 9 * 10 ^ a.length := Nat.mul_le_mul_right _ (by omega)
    rw [valueOf_cons, length_cons, pow_succ]
    omega

theorem valueOf_lt_of_lt {a b : List Nat} (hlen : a.length = b.length) (ha : ∀ x ∈ a, 48 ≤ x ∧ x ≤ 57)
    (hb : ∀ x ∈ b, 48 ≤ x ∧ x ≤ 57) (hlt : a < b) : valueOf a < valueOf b := by
  induction a generalizing b with
  | nil =>
    obtain rfl := length_eq_zero_iff.1 hlen.symm
    simp at hlt
  | cons x a ih =>
    obtain ⟨y, b, rfl⟩ := exists_cons_of_length_eq_add_one hlen.symm
    have hlen' : a.length = b.length := by simpa using hlen
    have hx := ha x mem_cons_self
    have hy := hb y mem_cons_self
    have harest := fun z hz => ha z (mem_cons_of_mem _ hz)
    rw [valueOf_cons, valueOf_cons, hlen']
    rcases cons_lt_cons_iff.1 hlt with hxy | ⟨rfl, hrest⟩
    · have hsmall := valueOf_lt harest
      have hmul : (x - 48 + 1) * 10 ^ b.length ≤ (y - 48) * 10 ^ b.length := Nat.mul_le_mul_right _ (by omega)
      rw [hlen'] at hsmall
      rw [Nat.add_mul] at hmul
      omega
    · have := ih hlen' harest (fun z hz => hb z (mem_cons_of_mem _ hz)) hrest
      omega

theorem valueOf_lt_of_length_lt {a b : List Nat} (hlen : a.length < b.length) (ha : ∀ x ∈ a, 48 ≤ x ∧ x ≤ 57)
    (hb : ∀ x ∈ b.head?, 48 < x) : valueOf a < valueOf b := by
  cases b with
  | nil => simp at hlen
  | cons y b =>
    have hy := hb y rfl
    have hpow : 10 ^ a.length ≤ 10 ^ b.length := Nat.pow_le_pow_right (by decide) (by simpa [Nat.lt_succ_iff] using hlen)
    have hmul : 1 * 10 ^ b.length ≤ (y - 48) * 10 ^ b.length := Nat.mul_le_mul_right _ (by omega)
    have hsmall := valueOf_lt ha
    rw [valueOf_cons]
    omega

/-- A number without zeros before it. -/
def IsPlain : Prop := IsNumeral s ∧ (s.toList.head? = some '0' → s.length = 1)

theorem length_codes : (codes s).length = s.length := by simp [codes, String.length_toList]

theorem IsPlain.head_codes {s : String} (hs : IsPlain s) (hlong : 1 < s.length) : ∀ x ∈ (codes s).head?, 48 < x := by
  intro x hx
  have hmem := between_of_mem_codes hs.1 (mem_of_mem_head? hx)
  obtain ⟨c, hc, rfl⟩ : ∃ c, s.toList.head? = some c ∧ c.toNat = x := by simpa [codes] using hx
  have hzero : c.toNat ≠ 48 := by
    intro h48
    obtain rfl : c = '0' := Char.toNat_inj.1 h48
    have hlength := hs.2 hc
    omega
  omega

theorem number_lt_or_lt {s t : String} (hs : IsPlain s) (ht : IsPlain t) (hne : s ≠ t)
    (hlt : ¬ codes s < codes t) : if s.length < t.length then number s < number t else number t < number s := by
  have hpos : ∀ {s}, IsPlain s → 0 < s.length := fun {s} hs => by
    rw [← length_codes, length_pos_iff, codes, Ne, map_eq_nil_iff, String.toList_eq_nil_iff]
    exact hs.1.1
  have hsnum := fun x (hx : x ∈ codes s) => between_of_mem_codes hs.1 hx
  have htnum := fun x (hx : x ∈ codes t) => between_of_mem_codes ht.1 hx
  rw [number_eq, number_eq]
  split
  case isTrue hshort =>
    have hhead := ht.head_codes (by have := hpos hs; omega)
    exact valueOf_lt_of_length_lt (by rwa [length_codes, length_codes]) hsnum hhead
  case isFalse hlong =>
    rcases Nat.lt_or_eq_of_le (Nat.le_of_not_lt hlong) with hshort | heq
    · have hhead := hs.head_codes (by have := hpos ht; omega)
      exact valueOf_lt_of_length_lt (by rwa [length_codes, length_codes]) htnum hhead
    · have hcodes : codes s ≠ codes t := fun h => hne (String.toList_injective
        (map_injective_iff.2 (fun _ _ => Char.toNat_inj.1) h))
      exact valueOf_lt_of_lt (by rw [length_codes, length_codes, heq]) htnum hsnum
        ((not_lt.1 hlt).lt_of_ne hcodes.symm)

end Text

namespace Registry.Packagist

open Text (IsNumeral IsPlain codes number dotted)

/-! ## The entry that is taken -/

/-- An entry's normal form has four numbers with dots between them. -/
structure IsNormal (info : Doc) (parts : List String) : Prop where
  form : normalForm info = .ok (.str (join "." parts))
  four : parts.length = 4
  numerals : ∀ s ∈ parts, IsNumeral s

/-- At the first place where two versions differ, the first one has the longer number. -/
def Outgrows : List String → List String → Prop
  | x :: xs, y :: ys => if x = y then Outgrows xs ys else y.length < x.length
  | _, _ => False

theorem number_lt_iff_outgrows {ws vs : List String} (hlen : ws.length = vs.length)
    (hws : ∀ s ∈ ws, IsPlain s) (hvs : ∀ s ∈ vs, IsPlain s) (hle : ¬ vs.map codes < ws.map codes) :
    vs.map number < ws.map number ↔ Outgrows ws vs := by
  induction ws generalizing vs with
  | nil =>
    obtain rfl := length_eq_zero_iff.1 hlen.symm
    simp [Outgrows]
  | cons w ws ih =>
    obtain ⟨v, vs, rfl⟩ := exists_cons_of_length_eq_add_one hlen.symm
    rw [map_cons, map_cons, cons_lt_cons_iff, not_or, not_and] at hle
    rw [map_cons, map_cons, cons_lt_cons_iff, Outgrows]
    split
    case isTrue heq =>
      subst heq
      have hrest := ih (by simpa using hlen) (fun s hs => hws s (mem_cons_of_mem _ hs))
        (fun s hs => hvs s (mem_cons_of_mem _ hs)) (hle.2 rfl)
      simp [hrest]
    case isFalse hne =>
      have hcmp := number_lt_or_lt (hvs v mem_cons_self) (hws w mem_cons_self) (Ne.symm hne) hle.1
      split at hcmp
      case isTrue hshort => exact iff_of_true (.inl hcmp) hshort
      case isFalse hlong => exact iff_of_false (by omega) hlong

theorem le_of_pairwise {p : String × Doc} {ps : List (String × Doc)}
    (hps : (p :: ps).Pairwise fun a b => le b.1 a.1 = true) {q : String × Doc} (hq : q ∈ p :: ps) :
    le q.1 p.1 = true := by
  rcases mem_cons.1 hq with rfl | hq
  · rw [le_iff]
    exact lt_irrefl _
  · exact (pairwise_cons.1 hps).1 q hq

theorem byNormalForm_eq {infos : List Doc} {form : Doc → String}
    (hform : ∀ i ∈ infos, normalForm i = .ok (.str (form i))) :
    byNormalForm infos = .ok (ofPairs (infos.map fun i => (form i, i))) := by
  rw [byNormalForm, foldlM_eq_ok (g := fun t i => Table.set t (form i) i) fun i hi t => by rw [hform i hi]; rfl,
    ofPairs, foldl_map]

/-- The entry with the greatest text is taken, of releases only if there are any. -/
theorem exists_latest {infos : List Doc} (hne : infos ≠ []) {form : Doc → String} {branch : String → Bool}
    (hform : ∀ i ∈ infos, normalForm i = .ok (.str (form i)))
    (hrelease : ∀ i ∈ infos, isRelease (form i) = .ok (!branch (form i))) :
    ∃ p ∈ ofPairs (infos.map fun i => (form i, i)), latest infos = .ok p.2 ∧
      ∀ i ∈ infos, (branch (form i) = true → ∀ j ∈ infos, branch (form j) = true) → le (form i) p.1 = true := by
  have hkeys : ∀ k, k ∈ (ofPairs (infos.map fun i => (form i, i))).keys ↔ ∃ i ∈ infos, form i = k := by
    simp [keys_ofPairs, mem_distinct]
  rw [latest, byNormalForm_eq hform, ok_bind]
  generalize ofPairs (infos.map fun i => (form i, i)) = t at hkeys ⊢
  have hsorted := @pairwise_mergeSort _ (fun a b : String × Doc => le b.1 a.1)
    (fun a b c hab hbc => le_transitive hbc hab) (fun a b => le_connex b.1 a.1) t
  have hmem : ∀ p, p ∈ t.mergeSort (fun a b => le b.1 a.1) ↔ p ∈ t := fun p => (mergeSort_perm t _).mem_iff
  generalize t.mergeSort (fun a b => le b.1 a.1) = sorted at hsorted hmem ⊢
  have hsource : ∀ p ∈ sorted, ∃ i ∈ infos, form i = p.1 := fun p hp =>
    (hkeys p.1).1 (mem_map_of_mem ((hmem p).1 hp))
  have htarget : ∀ i ∈ infos, ∃ p ∈ sorted, p.1 = form i := by
    intro i hi
    obtain ⟨p, hp, hpi⟩ := mem_map.1 ((hkeys (form i)).2 ⟨i, hi, rfl⟩)
    exact ⟨p, (hmem p).2 hp, hpi⟩
  have hfilter : sorted.filterM (fun p => isRelease p.1) = .ok (sorted.filter fun p => !branch p.1) := by
    refine filterM_eq_ok fun p hp => ?_
    obtain ⟨i, hi, hp⟩ := hsource p hp
    rw [← hp, hrelease i hi]
  dsimp only
  rw [hfilter, ok_bind]
  cases hreleases : sorted.filter fun p => !branch p.1 with
  | cons p ps =>
    have hp : p ∈ sorted ∧ (!branch p.1) = true := mem_filter.1 (hreleases ▸ mem_cons_self)
    refine ⟨p, (hmem p).1 hp.1, rfl, fun i hi hall => ?_⟩
    obtain ⟨q, hq, hqi⟩ := htarget i hi
    obtain ⟨j, hj, hjp⟩ := hsource p hp.1
    have hi' : (!branch (form i)) = true := by
      by_contra hbranch
      have := hall (by simpa using hbranch) j hj
      simp [hjp ▸ this] at hp
    rw [← hqi]
    exact le_of_pairwise (hreleases ▸ hsorted.filter _) (hreleases ▸ mem_filter.2 ⟨hq, hqi ▸ hi'⟩)
  | nil =>
    obtain ⟨i, hi⟩ := exists_mem_of_ne_nil infos hne
    obtain ⟨q, hq, -⟩ := htarget i hi
    obtain ⟨p, ps, rfl⟩ := exists_cons_of_ne_nil (ne_nil_of_mem hq)
    refine ⟨p, (hmem p).1 mem_cons_self, rfl, fun i hi _ => ?_⟩
    obtain ⟨q, hq, hqi⟩ := htarget i hi
    exact hqi ▸ le_of_pairwise hsorted hq

theorem isRelease_join {parts : List String} (hne : parts ≠ []) (hparts : ∀ s ∈ parts, IsNumeral s) :
    isRelease (join "." parts) = .ok (!contains (join "." parts) "9999999") := by
  obtain ⟨s, ss, rfl⟩ := exists_cons_of_ne_nil hne
  obtain ⟨hs, hdigits⟩ := hparts s mem_cons_self
  obtain ⟨c, cs, hcs⟩ := exists_cons_of_ne_nil (mt String.toList_eq_nil_iff.1 hs)
  have hc : isDigit c = true := isDigit_of_isDigit (hdigits c (hcs ▸ mem_cons_self))
  rw [isRelease, toList_join_cons, hcs]
  cases contains (join "." (s :: ss)) "9999999" <;> simp [hc]

theorem not_codes_lt {i j : Doc} {ws vs : List String} (hi : IsNormal i ws) (hj : IsNormal j vs)
    (hle : le (join "." ws) (join "." vs) = true) : ¬ vs.map codes < ws.map codes := by
  have hws : ws ≠ [] := fun hnil => by simpa [hnil] using hi.four
  have hvs : vs ≠ [] := fun hnil => by simpa [hnil] using hj.four
  rw [← dotted_lt_iff (by rw [hi.four, hj.four]) hj.numerals hi.numerals, dotted_eq hws, dotted_eq hvs]
  simpa [cons_lt_cons_iff] using le_iff.1 hle

/-- Without a version the last entry is taken of those with the greatest normal form as a text. Where no form
contains 9999999 and no number has zeros before it, that entry has the numerically greatest version just if no
other entry outgrows it. -/
theorem versionInfo_greatest_iff {versions : List (String × Doc)} (hne : versions ≠ [])
    {parts : Doc → List String} (hnormal : ∀ v ∈ versions, IsNormal v.2 (parts v.2)) :
    ∃ before v after, versions = before ++ v :: after ∧ versionInfo (.obj versions) none = .ok v.2 ∧
      (∀ w ∈ after, Text.join "." (parts w.2) ≠ Text.join "." (parts v.2)) ∧
      (∀ w ∈ versions, (Text.contains (Text.join "." (parts w.2)) "9999999" = true →
          ∀ u ∈ versions, Text.contains (Text.join "." (parts u.2)) "9999999" = true) →
        Text.le (Text.join "." (parts w.2)) (Text.join "." (parts v.2)) = true) ∧
      ((∀ w ∈ versions, Text.contains (Text.join "." (parts w.2)) "9999999" = false ∧ ∀ s ∈ parts w.2, IsPlain s) →
        ((∀ w ∈ versions, ¬ (parts v.2).map number < (parts w.2).map number) ↔
          ∀ w ∈ versions, ¬ Outgrows (parts w.2) (parts v.2))) := by
  have hinfos : ∀ i ∈ versions.map Prod.snd, IsNormal i (parts i) := by simpa using fun i k => hnormal (k, i)
  have hfour : ∀ i ∈ versions.map Prod.snd, parts i ≠ [] := fun i hi hnil => by
    simpa [hnil] using (hinfos i hi).four
  obtain ⟨⟨k, info⟩, hp, hlatest, hle⟩ := @exists_latest (versions.map Prod.snd) (by simpa using hne)
    (fun i => Text.join "." (parts i)) (fun s => Text.contains s "9999999") (fun i hi => (hinfos i hi).form)
    (fun i hi => isRelease_join (hfour i hi) (hinfos i hi).numerals)
  have hnodup := nodup_distinct (((versions.map Prod.snd).map fun i => (Text.join "." (parts i), i)).map Prod.fst)
  rw [← Table.keys_ofPairs] at hnodup
  obtain ⟨before, after, heq, hafter⟩ := Table.exists_of_get?_ofPairs (Table.get?_of_mem hnodup hp)
  rw [map_map] at heq
  obtain ⟨before, rest, rfl, -, hrest⟩ := map_eq_append_iff.1 heq
  obtain ⟨v, after, rfl, hv, rfl⟩ := map_eq_cons_iff.1 hrest
  obtain ⟨rfl, rfl⟩ := Prod.mk.inj hv
  refine ⟨before, v, after, rfl, ?_, ?_, ?_, ?_⟩
  · have hsize : (Doc.obj (before ++ v :: after)).size = .ok (before.length + (after.length + 1)) := by
      simp [Doc.size, Doc.items, Except.map]
    rw [versionInfo, hsize, ok_bind, if_neg (by omega)]
    exact hlatest
  · exact fun w hw => hafter _ (mem_map_of_mem hw)
  · intro w hw hall
    exact hle w.2 (mem_map_of_mem hw) fun hbranch i hi => by
      obtain ⟨u, hu, rfl⟩ := mem_map.1 hi
      exact hall hbranch u hu
  · intro hplain
    have hv : v ∈ before ++ v :: after := by simp
    refine forall₂_congr fun w hw => not_congr (number_lt_iff_outgrows ?_ (hplain w hw).2 (hplain v hv).2 ?_)
    · rw [(hnormal w hw).four, (hnormal v hv).four]
    · have htext := hle w.2 (mem_map_of_mem hw) fun hbranch => by simp [(hplain w hw).1] at hbranch
      exact not_codes_lt (hnormal w hw) (hnormal v hv) htext

def entryOf (normal : String) : Doc := .obj [("version_normalized", .str normal)]

/-- The numbers of an entry's normal form. -/
def partsOf (info : Doc) : List String :=
  match normalForm info with
  | .ok (.str s) => splitOn s "."
  | _ => []

def nineAndTen : List (String × Doc) := [("9", entryOf "9.0.0.0"), ("10", entryOf "10.0.0.0")]

theorem versionInfo_takes_nine : nineAndTen ≠ [] ∧ (∀ v ∈ nineAndTen, IsNormal v.2 (partsOf v.2)) ∧
    versionInfo (.obj nineAndTen) none = .ok (entryOf "9.0.0.0") ∧
    ¬ ∀ w ∈ nineAndTen, ¬ (partsOf (entryOf "9.0.0.0")).map number < (partsOf w.2).map number := by
  have hnine : partsOf (entryOf "9.0.0.0") = ["9", "0", "0", "0"] := by decide +kernel
  have hten : partsOf (entryOf "10.0.0.0") = ["10", "0", "0", "0"] := by decide +kernel
  have hnormal : ∀ v ∈ nineAndTen, IsNormal v.2 (partsOf v.2) := by
    simp only [nineAndTen, forall_mem_cons, hnine, hten]
    refine ⟨⟨rfl, rfl, ?_⟩, ⟨rfl, rfl, ?_⟩, by simp⟩ <;> simp [IsNumeral]
  obtain ⟨before, v, after, heq, hinfo, -, hle, hiff⟩ := versionInfo_greatest_iff (by simp [nineAndTen]) hnormal
  have hplain : ∀ w ∈ nineAndTen, Text.contains (Text.join "." (partsOf w.2)) "9999999" = false ∧
      ∀ s ∈ partsOf w.2, IsPlain s := by
    simp only [nineAndTen, forall_mem_cons, hnine, hten]
    have hzero : "0".length = 1 := by decide
    refine ⟨⟨by decide +kernel, ?_⟩, ⟨by decide +kernel, ?_⟩, by simp⟩ <;> simp [IsPlain, IsNumeral, hzero]
  have hv : v.2 = entryOf "9.0.0.0" := by
    have hmem : v ∈ nineAndTen := heq ▸ by simp
    rcases mem_pair.1 hmem with rfl | rfl
    · rfl
    · have hless := hle ("9", entryOf "9.0.0.0") (by simp [nineAndTen]) (by simp [(hplain _ mem_cons_self).1])
      rw [hnine, hten] at hless
      exact absurd hless (by decide +kernel)
  rw [hv] at hinfo hiff
  refine ⟨by simp [nineAndTen], hnormal, hinfo, fun hall => ?_⟩
  refine (hiff hplain).1 hall ("10", entryOf "10.0.0.0") (by simp [nineAndTen]) ?_
  rw [hnine, hten]
  exact (by decide : "9".length < "10".length)

end Registry.Packagist

end Vetting
