import Vetting.Package.Version
import Vetting.Proofs.Fault
import Vetting.Proofs.Text

/-!
# Which versions are kept

A window ends where the next release falls into another one: so it matters that the windows of ever older
releases never decrease, also across the first release, where two stretches of time share window zero.
-/

namespace Vetting.Time

variable {rs : List Release} {x : ℚ}

/-- A date of the calendar in whole seconds, with a clock less than a day off. -/
def Stamp.IsDate (t : Stamp) : Prop :=
  ∃ y m d h mi s offset, ofParts? y m d h mi s 0 offset = some t ∧ ∀ o ∈ offset, |o| < 86400

theorem monthDays_le (y m : ℕ) : monthDays y m ≤ 31 := by
  unfold monthDays
  split_ifs <;> decide

theorem daysBeforeMonth_le (y m : ℕ) : daysBeforeMonth y m ≤ 31 * (m - 1) := by
  unfold daysBeforeMonth
  induction m - 1 with
  | zero => simp
  | succ k ih =>
    rw [List.range_succ, List.foldl_append, List.foldl_cons, List.foldl_nil]
    have := monthDays_le y (k + 1)
    omega

theorem dayNumber_le {y m d : ℕ} (hy : y ≤ 9999) (hm : m ≤ 12) (hd : d ≤ 31) : dayNumber y m d ≤ 4000000 := by
  have := daysBeforeMonth_le y m
  unfold dayNumber daysBeforeYear
  omega

theorem Stamp.IsDate.exists_seconds {t : Stamp} (h : t.IsDate) :
    ∃ n : ℤ, t.universal = n * 1000000 ∧ 0 ≤ n ∧ n < 2 ^ 40 := by
  obtain ⟨y, m, d, h, mi, s, offset, hparts, hoffset⟩ := h
  simp only [ofParts?, Option.ite_none_right_eq_some, Bool.and_eq_true, decide_eq_true_eq,
    Option.some.injEq] at hparts
  obtain ⟨⟨⟨⟨⟨⟨⟨⟨⟨⟨-, hy⟩, -⟩, hm⟩, hd1⟩, hd⟩, hh⟩, hmi⟩, hs⟩, -⟩, rfl⟩ := hparts
  have hday := dayNumber_le hy hm (hd.trans (monthDays_le y m))
  have hday1 : d ≤ dayNumber y m d := Nat.le_add_left _ _
  have hclock : -86400 < offset.getD 0 ∧ offset.getD 0 < 86400 := by
    cases offset with
    | none => decide
    | some o => exact abs_lt.1 (hoffset o rfl)
  refine ⟨dayNumber y m d * 86400 + ((h * 60 + mi) * 60 + s : ℕ) - offset.getD 0, ?_, ?_, ?_⟩
  · simp only [universal, dayMicros]
    push_cast
    ring
  · omega
  · omega

end Vetting.Time

namespace Vetting.Package

open List Text

/-! ## Numbers in versions -/

def numbers (v : String) : List Nat := (splitChars ['.'] (versionCore v)).map natOfDigits

/-- Whether no component of a version has too many digits. -/
def Legible (v : String) : Prop := ∀ part ∈ splitChars ['.'] (versionCore v), part.length ≤ maxDigits

instance (v : String) : Decidable (Legible v) := inferInstanceAs (Decidable (∀ _ ∈ _, _))

def IsAscii (v : String) : Prop := ∀ c ∈ v.toList, c.toNat < 128

variable {c : Char} {part : List Char} {g d : ℤ}

theorem isDigit_of_ascii (hc : c.toNat < 128) (h : isDigit c = true) : c.isDigit = true := by
  have table : ∀ k : Fin 128, ∀ t ∈ [decimalTable, otherDigitTable],
      inRangesGo t k (t.size + 1) 0 t.size = true → 48 ≤ k.val ∧ k.val ≤ 57 := by decide +kernel
  obtain ⟨t, ht, hin⟩ : ∃ t ∈ [decimalTable, otherDigitTable], inRanges t c = true := by
    unfold isDigit isDecimal at h
    simpa using h
  obtain ⟨hlo, hhi⟩ := table ⟨c.toNat, hc⟩ t ht hin
  simp only [Char.isDigit, Bool.and_eq_true, decide_eq_true_eq]
  exact ⟨hlo, hhi⟩

variable {v : String} {ks : List Int} {r : Release}

theorem mem_of_mem_versionCore (h : c ∈ versionCore v) : c ∈ v.toList := by
  obtain ⟨as, bs, hchars, -, -, -⟩ := exists_stripChars (· = 'v') v.toList
  rw [hchars]
  exact mem_append_right as (mem_append_left bs h)

theorem isDigit_of_isNumeric (hascii : IsAscii v) (h : isNumeric v = true)
    (hpart : part ∈ splitChars ['.'] (versionCore v)) : ∀ c ∈ part, c.isDigit = true := by
  intro c hc
  have hcore : c ∈ versionCore v := mem_of_mem_splitChars hpart hc
  have hdot : c ≠ '.' := by
    rintro rfl
    exact notMem_of_mem_splitGo not_mem_nil hpart hc
  have hall : ∀ d ∈ (versionCore v).filter (· != '.'), isDigit d = true := by
    simp only [isNumeric, allDigits, Bool.and_eq_true, all_eq_true] at h
    exact h.2
  exact isDigit_of_ascii (hascii c (mem_of_mem_versionCore hcore))
    (hall c (mem_filter.2 ⟨hcore, by simpa using hdot⟩))

theorem componentValue_eq (h : ∀ c ∈ part, c.isDigit = true) : componentValue part =
      if part.length ≤ maxDigits then .ok (natOfDigits part) else .error (.cause .badValue) := by
  have hdecimal : part.all isDecimal = true :=
    all_eq_true.2 fun c hc => isDecimal_of_isDigit (h c hc)
  have hvalue : part.foldl (fun n c => n * 10 + decimalValue c) 0 = natOfDigits part := by
    rw [natOfDigits]
    exact foldl_ext _ _ 0 fun n c hc => by rw [decimalValue_of_isDigit (h c hc)]
  simp only [componentValue, hdecimal, hvalue, Bool.true_and, decide_eq_true_eq]

theorem components_eq (hascii : IsAscii v) (h : isNumeric v = true) :
    components v = if Legible v then .ok (numbers v) else .error (.cause .badValue) := by
  have hvalue : ∀ part ∈ splitChars ['.'] (versionCore v), componentValue part =
      if part.length ≤ maxDigits then .ok (natOfDigits part) else .error (.cause .badValue) :=
    fun part hpart => componentValue_eq (isDigit_of_isNumeric hascii h hpart)
  split
  case isTrue hlegible =>
    exact mapM_eq_ok fun part hpart => by rw [hvalue part hpart, if_pos (hlegible part hpart)]
  case isFalse hlegible =>
    simp only [Legible, not_forall] at hlegible
    obtain ⟨part, hpart, hlong⟩ := hlegible
    refine mapM_eq_error (fun part hpart => ?_) ⟨part, hpart, by rw [hvalue part hpart, if_neg hlong]⟩
    rw [hvalue part hpart]
    split
    · exact .inl ⟨_, rfl⟩
    · exact .inr rfl

theorem exists_greatest (hne : rs ≠ [])
    (hnumbers : ∀ r ∈ rs, components r.1 = .ok (numbers r.1)) :
    ∃ r ∈ rs, greatest rs = .ok [r] ∧ ∀ s ∈ rs, numbers s.1 ≤ numbers r.1 := by
  let le : List Nat × Release → List Nat × Release → Bool := fun a b => !decide (a.1 < b.1)
  let keyed := rs.map fun r => (numbers r.1, r)
  have hkeyed : (rs.mapM fun r => do return (← components r.1, r)) = .ok keyed :=
    mapM_eq_ok fun r hr => by rw [hnumbers r hr]; rfl
  have hle : ∀ {a b}, le a b = true ↔ b.1 ≤ a.1 := by simp [le]
  have htrans : ∀ a b c, le a b = true → le b c = true → le a c = true := fun a b c hab hbc =>
    hle.2 ((hle.1 hbc).trans (hle.1 hab))
  have htotal : ∀ a b, (le a b || le b a) = true := fun a b => by
    rw [Bool.or_eq_true, hle, hle]
    exact le_total b.1 a.1
  have hsorted : (keyed.mergeSort le).Pairwise fun a b => le a b = true :=
    pairwise_mergeSort htrans htotal keyed
  have hmem : ∀ p, p ∈ keyed.mergeSort le ↔ ∃ r ∈ rs, (numbers r.1, r) = p := by
    simp [keyed]
  obtain ⟨p, ps, hps⟩ : ∃ p ps, keyed.mergeSort le = p :: ps := by
    refine exists_cons_of_ne_nil fun hnil => hne ?_
    have hlen := @length_mergeSort _ le keyed
    simpa [hnil, keyed, eq_comm] using hlen
  obtain ⟨r, hr, rfl⟩ := (hmem p).1 (hps ▸ mem_cons_self)
  refine ⟨r, hr, ?_, fun s hs => ?_⟩
  · rw [greatest, hkeyed, ok_bind]
    change Except.ok (((keyed.mergeSort le).map Prod.snd).take 1) = _
    rw [hps]
    rfl
  · have hs' : (numbers s.1, s) ∈ (numbers r.1, r) :: ps := hps ▸ (hmem _).2 ⟨s, hs, rfl⟩
    rcases mem_cons.1 hs' with heq | hrest
    · exact (congrArg Prod.fst heq).le
    · rw [hps, pairwise_cons] at hsorted
      exact hle.1 (hsorted.1 _ hrest)

theorem components_of_greatest {rs out : List Release} (h : greatest rs = .ok out) :
    ∀ r ∈ rs, ∃ ns, components r.1 = .ok ns := by
  intro r hr
  obtain ⟨keyed, hkeyed, -⟩ := bind_eq_ok_iff.1 h
  obtain ⟨p, hp⟩ := mapM_isOk_iff.1 ⟨keyed, hkeyed⟩ r hr
  obtain ⟨ns, hns, -⟩ := bind_eq_ok_iff.1 hp
  exact ⟨ns, hns⟩

section Groups

variable {α : Type} (w : α → Int)

def groupOf (l : List α) (k : Int) : List α := l.filter fun a => w a = k

theorem groupOf_cons_self (a : α) (l : List α) : groupOf w (a :: l) (w a) = a :: groupOf w l (w a) :=
  filter_cons_of_pos (by simp)

theorem groupOf_cons_of_ne {a : α} {k : Int} (h : w a ≠ k) (l : List α) : groupOf w (a :: l) k = groupOf w l k :=
  filter_cons_of_neg (by simpa using h)

theorem map_groupOf_cons {a : α} (h : ∀ k ∈ ks, w a < k) (l : List α) :
    ks.map (groupOf w (a :: l)) = ks.map (groupOf w l) :=
  map_congr_left fun k hk => groupOf_cons_of_ne w (h k hk).ne l

theorem groupRuns_cons_cons {k k' : Int} {x y : α} {l : List (Int × α)} {g : List α} {gs : List (List α)}
    (h : groupRuns ((k', y) :: l) = g :: gs) :
    groupRuns ((k, x) :: (k', y) :: l) = if k = k' then (x :: g) :: gs else [x] :: g :: gs := by
  rw [groupRuns]
  simp only [h]

/-- The keys that occur in a list, each once and from the least on. -/
structure IsKeys (l : List α) (ks : List Int) : Prop where
  increasing : ks.Pairwise (· < ·)
  mem_iff : ∀ k, k ∈ ks ↔ ∃ a ∈ l, w a = k

theorem IsKeys.exists_cons {b : α} {l : List α} (h : IsKeys w (b :: l) ks) (hl : ∀ c ∈ l, w b ≤ w c) :
    ∃ ks', ks = w b :: ks' := by
  have hb : w b ∈ ks := (h.mem_iff (w b)).2 ⟨b, mem_cons_self, rfl⟩
  cases ks with
  | nil => cases hb
  | cons k ks' =>
    obtain ⟨c, hc, rfl⟩ := (h.mem_iff k).1 mem_cons_self
    have hle : w c ≤ w b := by
      rcases mem_cons.1 hb with heq | hrest
      · exact heq.ge
      · exact ((pairwise_cons.1 h.increasing).1 _ hrest).le
    have hge : w b ≤ w c := by
      rcases mem_cons.1 hc with rfl | hrest
      · exact le_rfl
      · exact hl c hrest
    exact ⟨ks', by rw [le_antisymm hle hge]⟩

theorem exists_groupRuns {l : List α} (hl : l.Pairwise fun a b => w a ≤ w b) :
    ∃ ks, IsKeys w l ks ∧ groupRuns (l.map fun a => (w a, a)) = ks.map (groupOf w l) := by
  induction l with
  | nil => exact ⟨[], ⟨List.Pairwise.nil, by simp⟩, rfl⟩
  | cons a l ih =>
    obtain ⟨hfirst, hl⟩ := pairwise_cons.1 hl
    obtain ⟨ks, hks, hgroups⟩ := ih hl
    cases l with
    | nil =>
      refine ⟨[w a], ⟨pairwise_singleton _ _, by simp [eq_comm]⟩, ?_⟩
      simp [groupRuns, groupOf]
    | cons b l =>
      obtain ⟨ks, rfl⟩ := hks.exists_cons w (pairwise_cons.1 hl).1
      have hlater : ∀ k ∈ ks, w b < k := (pairwise_cons.1 hks.increasing).1
      rw [map_cons, map_cons, groupRuns_cons_cons hgroups]
      by_cases hab : w a = w b
      · -- the element joins the first group
        refine ⟨w b :: ks, ⟨hks.increasing, fun k => ?_⟩, ?_⟩
        · rw [hks.mem_iff]
          simp [hab]
        · have hrest := map_groupOf_cons w (fun k hk => hab ▸ hlater k hk) (b :: l)
          rw [if_pos hab, map_cons, hrest, ← hab, groupOf_cons_self w a]
      · -- the element has a group of its own
        have hlt : w a < w b := lt_of_le_of_ne (hfirst b mem_cons_self) hab
        have hall : ∀ k ∈ w b :: ks, w a < k := by
          rw [forall_mem_cons]
          exact ⟨hlt, fun k hk => hlt.trans (hlater k hk)⟩
        have hnone : groupOf w (b :: l) (w a) = [] := by
          refine filter_eq_nil_iff.2 fun c hc => ?_
          have hc : w a < w c := hall (w c) ((hks.mem_iff (w c)).2 ⟨c, hc, rfl⟩)
          simpa using hc.ne'
        refine ⟨w a :: w b :: ks, ⟨pairwise_cons.2 ⟨hall, hks.increasing⟩, fun k => ?_⟩, ?_⟩
        · rw [mem_cons, hks.mem_iff]
          simp [eq_comm]
        · rw [if_neg hab, map_cons, map_groupOf_cons w hall, groupOf_cons_self w a, hnone, map_cons]

end Groups

/-! ## Quotients of floating-point numbers -/

@[simp] theorem nearestInt_intCast (k : ℤ) : nearestInt k = k := by
  simp [nearestInt]

theorem le_nearestInt {k : ℤ} {x : ℚ} (h : k ≤ x) : k ≤ nearestInt x := by
  have hfloor : k ≤ x.floor := Rat.le_floor_iff.2 h
  simp only [nearestInt]
  split_ifs <;> omega

theorem nearestInt_lt {k : ℤ} {x : ℚ} (h : x < k - 1 / 2) : nearestInt x < k := by
  have hlow : x.floor ≤ x := Rat.floor_le x
  have hfloor : x.floor < k := by
    have : (x.floor : ℚ) < k := by linarith
    exact_mod_cast this
  simp only [nearestInt]
  split_ifs with hbelow
  · exact hfloor
  all_goals
    have hup : (x.floor : ℚ) + 1 < k := by linarith
    have : x.floor + 1 < k := by exact_mod_cast hup
    omega

theorem nearestInt_le (x : ℚ) : nearestInt x ≤ x + 1 / 2 := by
  have hlow : x.floor ≤ x := Rat.floor_le x
  simp only [nearestInt]
  split_ifs with hbelow habove
  · linarith
  · push_cast
    linarith
  · have hhalf : x - x.floor = 1 / 2 := le_antisymm (not_lt.1 habove) (not_lt.1 hbelow)
    have heven : x.floor % 2 ≤ 1 := by omega
    have heven : ((x.floor % 2 : ℤ) : ℚ) ≤ 1 := by exact_mod_cast heven
    push_cast at heven ⊢
    linarith

theorem pow_log2_bounds {n : ℕ} (hn : 0 < n) : (2 : ℚ) ^ (n.log2 : ℤ) ≤ n ∧ (n : ℚ) < 2 ^ ((n.log2 : ℤ) + 1) := by
  constructor
  · exact_mod_cast Nat.log2_self_le hn.ne'
  · exact_mod_cast Nat.lt_log2_self (n := n)

theorem exponentOf_spec (hx : 0 < x) : 2 ^ exponentOf x ≤ x ∧ x < 2 ^ (exponentOf x + 1) := by
  have hnum : 0 < x.num.toNat := by have := Rat.num_pos.2 hx; omega
  have hquot : x = x.num.toNat / x.den := by
    rw [← Int.cast_natCast, Int.toNat_of_nonneg (Rat.num_nonneg.2 hx.le), Rat.num_div_den]
  obtain ⟨hnlow, hnhigh⟩ := pow_log2_bounds hnum
  obtain ⟨hdlow, hdhigh⟩ := pow_log2_bounds x.den_pos
  have hlow : (2 : ℚ) ^ ((x.num.toNat.log2 : ℤ) - x.den.log2 - 1) ≤ x := by
    rw [sub_sub, zpow_sub₀ two_ne_zero]
    conv_rhs => rw [hquot]
    gcongr
  have hhigh : x < 2 ^ ((x.num.toNat.log2 : ℤ) - x.den.log2 + 1) := by
    rw [sub_add_eq_add_sub, zpow_sub₀ two_ne_zero]
    conv_lhs => rw [hquot]
    gcongr
  simp only [exponentOf]
  split_ifs with hle
  · exact ⟨hle, hhigh⟩
  · exact ⟨hlow, by simpa using not_le.1 hle⟩

theorem ulp_pos (x : ℚ) : 0 < ulp x := zpow_pos two_pos _

theorem intCast_div_ulp (hx : 0 < x) (hsmall : x < 2 ^ 53) (n : ℤ) :
    (n : ℚ) / ulp x = (n * 2 ^ (52 - exponentOf x).toNat : ℤ) := by
  have hlt : (2 : ℚ) ^ exponentOf x < 2 ^ (53 : ℤ) :=
    (exponentOf_spec hx).1.trans_lt (by exact_mod_cast hsmall)
  have hle : exponentOf x < 53 := (zpow_lt_zpow_iff_right₀ one_lt_two).1 hlt
  have hexp : ((52 - exponentOf x).toNat : ℤ) = -(exponentOf x - 52) := by omega
  rw [ulp, div_eq_mul_inv, ← zpow_neg, ← hexp]
  push_cast
  rw [zpow_natCast]

@[simp] theorem toFloating_zero : toFloating 0 = 0 := by
  have hzero : nearestInt 0 = 0 := nearestInt_intCast 0
  simp [toFloating, hzero]

theorem toFloating_of_pos (hx : 0 < x) : toFloating x = nearestInt (x / ulp x) * ulp x :=
  if_neg hx.not_gt

theorem toFloating_neg (x : ℚ) : toFloating (-x) = -toFloating x := by
  rcases lt_trichotomy x 0 with hx | rfl | hx
  · have hneg : ¬ -x < 0 := by linarith
    simp [toFloating, hx, hneg]
  · simp
  · have hneg : ¬ x < 0 := by linarith
    simp [toFloating, hx, hneg]

theorem toFloating_intCast {n : ℤ} (h : |n| < 2 ^ 53) : toFloating n = n := by
  have hpos : ∀ n : ℤ, 0 < n → n < 2 ^ 53 → toFloating n = n := by
    intro n hn hlt
    have hn' : (0 : ℚ) < n := by exact_mod_cast hn
    rw [toFloating_of_pos hn', intCast_div_ulp hn' (by exact_mod_cast hlt), nearestInt_intCast,
      ← intCast_div_ulp hn' (by exact_mod_cast hlt), div_mul_cancel₀ _ (ulp_pos _).ne']
  obtain ⟨hlow, hhigh⟩ := abs_lt.1 h
  rcases lt_trichotomy n 0 with hn | rfl | hn
  · have := hpos (-n) (by omega) (by omega)
    rw [Int.cast_neg, toFloating_neg] at this
    exact neg_injective this
  · simp
  · exact hpos n hn hhigh

section Small

variable {x : ℚ} (hx : 0 < x) (hsmall : x < 2 ^ 53) {k : ℤ}

include hx hsmall

theorem le_toFloating (h : k ≤ x) : k ≤ toFloating x := by
  have hu := ulp_pos x
  have hk := intCast_div_ulp hx hsmall k
  rw [toFloating_of_pos hx, ← div_le_iff₀ hu, hk, Int.cast_le]
  apply le_nearestInt
  rw [← hk]
  gcongr

theorem toFloating_lt (h : x + ulp x / 2 < k) : toFloating x < k := by
  have hu := ulp_pos x
  have hk := intCast_div_ulp hx hsmall k
  rw [toFloating_of_pos hx, ← lt_div_iff₀ hu, hk, Int.cast_lt]
  apply nearestInt_lt
  rw [← hk, div_lt_iff₀ hu, sub_mul, div_mul_cancel₀ _ hu.ne']
  linarith

end Small

theorem ulp_mul_le (hx : 0 < x) : ulp x * 2 ^ 52 ≤ x := by
  have hexp := (exponentOf_spec hx).1
  rw [ulp, zpow_sub₀ two_ne_zero]
  simpa using hexp

theorem toFloating_pos {x : ℚ} (hx : 0 < x) : 0 < toFloating x := by
  have hu := ulp_pos x
  have hmantissa : ((2 ^ 52 : ℤ) : ℚ) ≤ x / ulp x := by
    rw [le_div_iff₀ hu, mul_comm]
    exact_mod_cast ulp_mul_le hx
  have hnearest := le_nearestInt hmantissa
  rw [toFloating_of_pos hx]
  have : (0 : ℚ) < nearestInt (x / ulp x) := by
    have : 0 < nearestInt (x / ulp x) := by omega
    exact_mod_cast this
  positivity

theorem toFloating_le (hx : 0 < x) : toFloating x ≤ x * (1 + 1 / 2 ^ 53) := by
  have hu := ulp_pos x
  have hulp := ulp_mul_le hx
  have hnearest := nearestInt_le (x / ulp x)
  calc toFloating x = nearestInt (x / ulp x) * ulp x := toFloating_of_pos hx
    _ ≤ (x / ulp x + 1 / 2) * ulp x := by gcongr
    _ = x + ulp x / 2 := by field_simp
    _ ≤ x * (1 + 1 / 2 ^ 53) := by linarith

theorem floor_toFloating_div {a g : ℤ} (ha : 0 ≤ a) (hg : 0 < g) (h : a < 2 ^ 53) : ⌊toFloating (a / g)⌋ = a / g := by
  obtain rfl | hpos := ha.eq_or_lt
  · simp
  have hg' : (0 : ℚ) < g := by exact_mod_cast hg
  have hg1 : (1 : ℚ) ≤ g := by exact_mod_cast hg
  have ha' : (a : ℚ) < 2 ^ 53 := by exact_mod_cast h
  have hy : (0 : ℚ) < a / g := div_pos (by exact_mod_cast hpos) hg'
  have hsmall : (a : ℚ) / g < 2 ^ 53 := by
    rw [div_lt_iff₀ hg']
    nlinarith
  have hlow : ((a / g : ℤ) : ℚ) ≤ a / g := by
    rw [le_div_iff₀ hg']
    exact_mod_cast Int.ediv_mul_le a hg.ne'
  have hhigh : (a : ℚ) / g + 1 / g ≤ (a / g + 1 : ℤ) := by
    rw [← add_div, div_le_iff₀ hg']
    exact_mod_cast Int.lt_ediv_add_one_mul_self a hg
  -- the quotient is further from the next integer than half the distance of its neighbours
  have hulp : ulp (a / g) / 2 < 1 / g := by
    have hle := ulp_mul_le hy
    rw [le_div_iff₀ hg'] at hle
    rw [div_lt_div_iff₀ two_pos hg']
    linarith
  rw [Int.floor_eq_iff]
  have hlt := toFloating_lt hy hsmall (k := a / g + 1) (by linarith)
  push_cast at hlt
  exact ⟨le_toFloating hy hsmall hlow, hlt⟩

theorem truncate_neg (x : ℚ) : truncate (-x) = -truncate x := by
  rcases lt_trichotomy x 0 with hx | rfl | hx
  · have hneg : ¬ -x < 0 := by linarith
    simp [truncate, hx, hneg, Rat.ceil_eq_neg_floor_neg]
  · rfl
  · have hneg : ¬ x < 0 := by linarith
    simp [truncate, hx, hneg, Rat.ceil_eq_neg_floor_neg]

theorem truncate_toFloating_div {a g : ℤ} (hg : 0 < g) (h : |a| < 2 ^ 53) :
    truncate (toFloating (a / g)) = a.tdiv g := by
  have hpos : ∀ a : ℤ, 0 ≤ a → a < 2 ^ 53 → truncate (toFloating (a / g)) = a.tdiv g := by
    intro a ha hlt
    have hfloor := floor_toFloating_div ha hg hlt
    have hnonneg : 0 ≤ toFloating (a / g) := by
      rw [← Int.floor_nonneg, hfloor]
      exact Int.ediv_nonneg ha hg.le
    rw [truncate, if_neg hnonneg.not_gt, Int.tdiv_eq_ediv_of_nonneg ha]
    exact hfloor
  obtain ⟨hlow, hhigh⟩ := abs_lt.1 h
  rcases le_total 0 a with ha | ha
  · exact hpos a ha hhigh
  · have := hpos (-a) (by omega) (by omega)
    rw [Int.cast_neg, neg_div, toFloating_neg, truncate_neg, Int.neg_tdiv] at this
    exact neg_injective this

theorem floor_toFloating_toFloating_div {a : ℚ} {g k : ℤ} (ha : 0 < a) (hg : 0 < g)
    (hlow : (k * g : ℤ) ≤ a) (hhigh : a + 1 / 1000000 ≤ ((k + 1) * g : ℤ)) (hsmall : (k + 1) * g < 2 ^ 32) :
    ⌊toFloating (toFloating a / g)⌋ = k := by
  have hg' : (0 : ℚ) < g := by exact_mod_cast hg
  have hg1 : (1 : ℚ) ≤ g := by exact_mod_cast hg
  have hsmall' : (((k + 1) * g : ℤ) : ℚ) < 2 ^ 32 := by exact_mod_cast hsmall
  have ha53 : a < 2 ^ 53 := by linarith
  have hround := toFloating_le ha
  have hq : 0 < toFloating a / g := div_pos (toFloating_pos ha) hg'
  have hq53 : toFloating a / g < 2 ^ 53 := by
    rw [div_lt_iff₀ hg']
    nlinarith
  have hqlow : (k : ℚ) ≤ toFloating a / g := by
    rw [le_div_iff₀ hg']
    exact_mod_cast le_toFloating ha ha53 hlow
  have hqhigh : toFloating (toFloating a / g) < k + 1 := by
    calc toFloating (toFloating a / g) ≤ toFloating a / g * (1 + 1 / 2 ^ 53) := toFloating_le hq
      _ ≤ a * (1 + 1 / 2 ^ 53) / g * (1 + 1 / 2 ^ 53) := by gcongr
      _ = a * (1 + 1 / 2 ^ 53) ^ 2 / g := by ring
      _ < k + 1 := by
        rw [div_lt_iff₀ hg']
        push_cast at hhigh hsmall'
        linarith
  rw [Int.floor_eq_iff]
  exact ⟨le_toFloating hq hq53 hqlow, hqhigh⟩

theorem truncate_toFloating_toFloating_div_of_pos (hg : 0 < g) (hpos : 0 < d) (hd : d < 2 ^ 31 * 1000000)
    (hg' : g < 2 ^ 31) : truncate (toFloating (toFloating (d / 1000000) / g)) = d.tdiv (1000000 * g) := by
  have hstep : 0 < 1000000 * g := by omega
  have hlow := Int.ediv_mul_le d hstep.ne'
  have hhigh := Int.lt_ediv_add_one_mul_self d hstep
  set k := d / (1000000 * g) with hk
  have ha : (0 : ℚ) < d / 1000000 := by positivity
  have hfloor : ⌊toFloating (toFloating (d / 1000000) / g)⌋ = k := by
    apply floor_toFloating_toFloating_div ha hg
    · rw [le_div_iff₀ (by norm_num)]
      have : k * g * 1000000 ≤ d := by linarith
      exact_mod_cast this
    · rw [← add_div, div_le_iff₀ (by norm_num)]
      have : d + 1 ≤ (k + 1) * g * 1000000 := by linarith
      exact_mod_cast this
    · nlinarith
  have hquotient : 0 < toFloating (toFloating (d / 1000000) / g) :=
    toFloating_pos (div_pos (toFloating_pos ha) (by exact_mod_cast hg))
  rw [truncate, if_neg hquotient.not_gt, Int.tdiv_eq_ediv_of_nonneg hpos.le]
  exact hfloor

theorem truncate_toFloating_toFloating_div (hg : 0 < g) (hd : |d| < 2 ^ 31 * 1000000) (hg' : g < 2 ^ 31) :
    truncate (toFloating (toFloating (d / 1000000) / g)) = d.tdiv (1000000 * g) := by
  obtain ⟨hlow, hhigh⟩ := abs_lt.1 hd
  rcases lt_trichotomy d 0 with hneg | rfl | hpos
  · have h := truncate_toFloating_toFloating_div_of_pos hg (Int.neg_pos.2 hneg) (by omega) hg'
    rw [Int.cast_neg, neg_div, toFloating_neg, neg_div, toFloating_neg, truncate_neg, Int.neg_tdiv] at h
    exact neg_injective h
  · have hzero : truncate 0 = 0 := rfl
    simp [hzero]
  · exact truncate_toFloating_toFloating_div_of_pos hg hpos hhigh hg'

/-- The window of a release: how many whole gaps it lies before a time, cut off toward zero. -/
def windowOf (newest : Time.Stamp) (gapDays : Int) (r : Release) : Int :=
  (newest.universal - r.2.universal).tdiv (gapDays * Time.dayMicros)

theorem windowOf_le {newest : Time.Stamp} {gapDays : Int} (hgap : 1 ≤ gapDays) {r s : Release}
    (h : s.2.universal ≤ r.2.universal) : windowOf newest gapDays r ≤ windowOf newest gapDays s := by
  have hpos : 0 < gapDays * Time.dayMicros := by
    rw [Time.dayMicros]
    omega
  exact Int.tdiv_le_tdiv hpos (by omega)

theorem offset_of_comparable (h : comparable rs = true) {r s : Release} (hr : r ∈ rs)
    (hs : s ∈ rs) : r.2.offset.isSome = s.2.offset.isSome := by
  simp only [comparable, Bool.or_eq_true, all_eq_true, Option.isNone_iff_eq_none] at h
  rcases h with h | h
  · rw [h r hr, h s hs]
  · rw [h r hr, h s hs]

/-- Floating-point numbers do not blur the bounds of the windows. -/
def ExactWindows (newest : Time.Stamp) (gapDays : Int) (rs : List Release) : Prop :=
  comparable rs = true → ∀ r ∈ rs, window newest gapDays r.2 = .ok (windowOf newest gapDays r)

theorem exactWindows_of_isDate (hdates : ∀ r ∈ rs, r.2.IsDate) (hr : r ∈ rs) {gapDays : Int}
    (hgap : 1 ≤ gapDays) (hdays : gapDays ≤ 999999999) : ExactWindows r.2 gapDays rs := by
  intro h s hs
  obtain ⟨n, hn, hn0, hnlt⟩ := (hdates r hr).exists_seconds
  obtain ⟨m, hm, hm0, hmlt⟩ := (hdates s hs).exists_seconds
  have hzero : gapDays ≠ 0 := by omega
  have hspan : r.2.universal - s.2.universal = 1000000 * (n - m) := by omega
  have hsmall : |n - m| < 2 ^ 53 := abs_lt.2 (by omega)
  have hseconds : ((1000000 * (n - m) : ℤ) : ℚ) / 1000000 = (n - m : ℤ) := by
    push_cast
    ring
  have hgapSeconds : toFloating (gapDays * 86400) = (gapDays * 86400 : ℤ) := by
    exact_mod_cast toFloating_intCast (n := gapDays * 86400) (abs_lt.2 (by omega))
  have hwindow : windowOf r.2 gapDays s = (n - m).tdiv (gapDays * 86400) := by
    have hmicros : gapDays * Time.dayMicros = 1000000 * (gapDays * 86400) := by
      rw [Time.dayMicros]
      ring
    rw [windowOf, hspan, hmicros, Int.mul_tdiv_mul_of_pos _ _ (by decide)]
  rw [window, Time.Stamp.sub, offset_of_comparable h hr hs, beq_self_eq_true, if_pos rfl, ok_bind,
    if_neg hzero, hspan, hseconds, toFloating_intCast hsmall, hgapSeconds, hwindow,
    ← truncate_toFloating_div (by omega) hsmall]
  rfl

theorem exactWindows_of_near (hr : r ∈ rs) {gapDays : Int} (hgap : 1 ≤ gapDays)
    (hdays : gapDays ≤ 24855) (hnear : ∀ s ∈ rs, |r.2.universal - s.2.universal| < 2 ^ 31 * 1000000) :
    ExactWindows r.2 gapDays rs := by
  intro h s hs
  have hzero : gapDays ≠ 0 := by omega
  have hgapSeconds : toFloating (gapDays * 86400) = (gapDays * 86400 : ℤ) := by
    exact_mod_cast toFloating_intCast (n := gapDays * 86400) (abs_lt.2 (by omega))
  have hmicros : gapDays * Time.dayMicros = 1000000 * (gapDays * 86400) := by
    rw [Time.dayMicros]
    ring
  rw [window, Time.Stamp.sub, offset_of_comparable h hr hs, beq_self_eq_true, if_pos rfl, ok_bind,
    if_neg hzero, hgapSeconds, windowOf, hmicros,
    ← truncate_toFloating_toFloating_div (by omega) (hnear s hs) (by omega)]
  rfl

theorem exists_newestFirst (h : comparable rs = true) :
    ∃ sorted, newestFirst rs = .ok sorted ∧ sorted.Perm rs ∧
      sorted.Pairwise fun r s => s.2.universal ≤ r.2.universal := by
  let le : Release → Release → Bool := fun r s => s.2.universal ≤ r.2.universal
  have htrans : ∀ a b c, le a b = true → le b c = true → le a c = true := by
    simp only [le, decide_eq_true_eq]
    omega
  have htotal : ∀ a b, (le a b || le b a) = true := by
    simp only [le, Bool.or_eq_true, decide_eq_true_eq]
    omega
  refine ⟨rs.mergeSort le, by rw [newestFirst, if_pos h], mergeSort_perm rs le, ?_⟩
  simpa [le] using pairwise_mergeSort htrans htotal rs

theorem IsKeys.sort_eq {α : Type} {w : α → Int} {l : List α} (h : IsKeys w l ks) :
    (l.map w).toFinset.sort (· ≤ ·) = ks := by
  have hset : (l.map w).toFinset = ks.toFinset := by
    ext k
    simp [h.mem_iff]
  have hnodup : ks.Nodup := h.increasing.imp fun hlt => hlt.ne
  rw [hset, toFinset_sort (· ≤ ·) hnodup]
  exact h.increasing.imp fun hlt => hlt.le

/-- One release for each of the first windows that hold any, with the greatest version. -/
structure Picks (limit : Nat) (w : Release → Int) (rs out : List Release) : Prop where
  windows : out.map w = ((rs.map w).toFinset.sort (· ≤ ·)).take limit
  mem : ∀ r ∈ out, r ∈ rs
  greatest : ∀ r ∈ out, ∀ s ∈ rs, w s = w r → numbers s.1 ≤ numbers r.1
  newestFirst : out.Pairwise fun r s => s.2.universal < r.2.universal

theorem Picks.nodup {limit : Nat} {w : Release → Int} {rs out : List Release} (h : Picks limit w rs out) :
    out.Nodup :=
  h.newestFirst.imp fun hlt heq => absurd (congrArg (fun r : Release => r.2.universal) heq) hlt.ne'

theorem Picks.length_le {limit : Nat} {w : Release → Int} {rs out : List Release}
    (h : Picks limit w rs out) : out.length ≤ limit := by
  rw [← length_map (f := w), h.windows]
  exact length_take_le limit _

theorem mem_groupOf {α : Type} {w : α → Int} {l : List α} {k : Int} {a : α} :
    a ∈ groupOf w l k ↔ a ∈ l ∧ w a = k := by
  simp [groupOf]

section OnePerWindow

variable {rs : List Release} {newest : Time.Stamp} {gapDays : Int}
  (hexact : ExactWindows newest gapDays rs) (hgap : 1 ≤ gapDays)

include hexact hgap

/-- Releases that can be compared are put in windows, and one of each window is chosen. -/
theorem exists_onePerWindow_eq (hcomp : comparable rs = true) (limit : Int) :
    ∃ sorted ks, sorted.Perm rs ∧ IsKeys (windowOf newest gapDays) rs ks ∧ onePerWindow limit newest gapDays rs =
        (ks.map (groupOf (windowOf newest gapDays) sorted)).mapM greatest >>= fun chosen =>
          .ok (chosen.flatten.take limit.toNat) := by
  obtain ⟨sorted, hsorted, hperm, htimes⟩ := exists_newestFirst hcomp
  obtain ⟨ks, hks, hgroups⟩ := exists_groupRuns (windowOf newest gapDays) (htimes.imp fun hle => windowOf_le hgap hle)
  have hkeyed : (sorted.mapM fun r => do return (← window newest gapDays r.2, r)) =
      .ok (sorted.map fun r => (windowOf newest gapDays r, r)) := by
    refine mapM_eq_ok fun r hr => ?_
    rw [hexact hcomp r (hperm.mem_iff.1 hr)]
    rfl
  refine ⟨sorted, ks, hperm, ⟨hks.increasing, fun k => ?_⟩, ?_⟩
  · simp only [hks.mem_iff, hperm.mem_iff]
  · rw [onePerWindow, hsorted, ok_bind, hkeyed, ok_bind, hgroups]
    rfl

theorem exists_onePerWindow (hcomp : comparable rs = true)
    (hnumbers : ∀ r ∈ rs, components r.1 = .ok (numbers r.1)) (limit : Int) :
    ∃ out, onePerWindow limit newest gapDays rs = .ok out ∧ Picks limit.toNat (windowOf newest gapDays) rs out := by
  obtain ⟨sorted, ks, hperm, hks, heq⟩ := exists_onePerWindow_eq hexact hgap hcomp limit
  set w := windowOf newest gapDays
  have hgreatest : ∀ k ∈ ks, ∃ r, greatest (groupOf w sorted k) = .ok [r] ∧ r ∈ rs ∧ w r = k ∧
      ∀ s ∈ rs, w s = k → numbers s.1 ≤ numbers r.1 := by
    intro k hk
    obtain ⟨a, ha, hak⟩ := (hks.mem_iff k).1 hk
    have hne : groupOf w sorted k ≠ [] :=
      ne_nil_of_mem (mem_groupOf.2 ⟨hperm.mem_iff.2 ha, hak⟩)
    obtain ⟨r, hr, hgreatest, hmax⟩ := exists_greatest hne fun s hs =>
      hnumbers s (hperm.mem_iff.1 (mem_groupOf.1 hs).1)
    obtain ⟨hrs, hrk⟩ := mem_groupOf.1 hr
    exact ⟨r, hgreatest, hperm.mem_iff.1 hrs, hrk, fun s hs hsk =>
      hmax s (mem_groupOf.2 ⟨hperm.mem_iff.2 hs, hsk⟩)⟩
  choose! pick hpick hmem hwindow hmax using hgreatest
  have hchosen : (ks.map (groupOf w sorted)).mapM greatest = .ok (ks.map fun k => [pick k]) := by
    rw [mapM_eq_ok_iff, forall₂_map_left_iff, forall₂_map_right_iff, forall₂_same]
    exact hpick
  have hout : onePerWindow limit newest gapDays rs = .ok ((ks.take limit.toNat).map pick) := by
    rw [heq, hchosen, ok_bind, ← flatMap_def, ← map_eq_flatMap, map_take]
  have hfirst : ∀ k ∈ ks.take limit.toNat, k ∈ ks := fun k hk => mem_of_mem_take hk
  refine ⟨_, hout, ?_, ?_, ?_, ?_⟩
  · have hid : ∀ k ∈ ks.take limit.toNat, (w ∘ pick) k = id k := fun k hk => hwindow k (hfirst k hk)
    rw [map_map, map_congr_left hid, map_id, hks.sort_eq]
  · rw [forall_mem_map]
    exact fun k hk => hmem k (hfirst k hk)
  · rw [forall_mem_map]
    intro k hk s hs hsk
    exact hmax k (hfirst k hk) s hs (hsk.trans (hwindow k (hfirst k hk)))
  · -- a window comes before another only if its releases are newer
    rw [pairwise_map]
    refine (hks.increasing.sublist (take_sublist _ _)).imp_of_mem fun {k j} hk hj hlt => ?_
    by_contra hle
    have hback : w (pick j) ≤ w (pick k) := windowOf_le hgap (not_lt.1 hle)
    rw [hwindow k (hfirst k hk), hwindow j (hfirst j hj)] at hback
    omega

theorem components_of_onePerWindow {limit : Int} {out : List Release}
    (h : onePerWindow limit newest gapDays rs = .ok out) :
    comparable rs = true ∧ ∀ r ∈ rs, ∃ ns, components r.1 = .ok ns := by
  have hcomp : comparable rs = true := by
    obtain ⟨sorted, hsorted, -⟩ := bind_eq_ok_iff.1 h
    by_contra hcomp
    rw [newestFirst, if_neg hcomp] at hsorted
    cases hsorted
  refine ⟨hcomp, fun r hr => ?_⟩
  obtain ⟨sorted, ks, hperm, hks, heq⟩ := exists_onePerWindow_eq hexact hgap hcomp limit
  rw [heq] at h
  obtain ⟨chosen, hchosen, -⟩ := bind_eq_ok_iff.1 h
  have hgroup : groupOf (windowOf newest gapDays) sorted (windowOf newest gapDays r) ∈
      ks.map (groupOf (windowOf newest gapDays) sorted) :=
    mem_map_of_mem ((hks.mem_iff _).2 ⟨r, hr, rfl⟩)
  obtain ⟨g, hg⟩ := mapM_isOk_iff.1 ⟨chosen, hchosen⟩ _ hgroup
  exact components_of_greatest hg r (mem_groupOf.2 ⟨hperm.mem_iff.2 hr, rfl⟩)

end OnePerWindow

/-! ## What is kept of a list -/

def numericOnes (rs : List Release) : List Release := rs.filter fun r => isNumeric r.1

/-- The steps by which a list is thinned. -/
theorem thin_eq {limit gapDays : Int} (hlimit : 1 ≤ limit) (hgap : 1 ≤ gapDays) (rs : List Release) :
    thin (some limit) (some gapDays) rs =
      if (rs.length : Int) ≤ limit then .ok rs
      else (numericOnes rs).head?.elim (.ok []) fun first =>
        if gapDays ≤ 999999999 then
          if ((numericOnes rs).length : Int) ≤ limit then .ok (numericOnes rs)
          else onePerWindow limit first.2 gapDays (numericOnes rs)
        else .error (.cause .overflow) := by
  have hpositive : ¬ limit ≤ 0 := by omega
  have hrange : gapDays.natAbs > 999999999 ↔ ¬ gapDays ≤ 999999999 := by omega
  rw [thin, numericOnes]
  dsimp only
  cases (rs.filter fun r => isNumeric r.1).head? with
  | none => rfl
  | some first =>
    simp only [hpositive, hrange, if_false, Option.elim_some, ite_not]
    split
    · rfl
    · split <;> rfl

/-- A short list is left as it is, of a longer one the numeric versions are kept, and if these are still too many,
the greatest of each of the newest windows. -/
def IsThinned (limit gapDays : Int) (rs out : List Release) : Prop :=
  if (rs.length : Int) ≤ limit then out = rs
  else if ((numericOnes rs).length : Int) ≤ limit then out = numericOnes rs
  else ∃ first, (numericOnes rs).head? = some first ∧
    Picks limit.toNat (windowOf first.2 gapDays) (numericOnes rs) out

/-- Nothing stands in the way of thinning: a list longer than the limit needs a gap that can be counted in days,
and more numeric versions than that must be comparable by time and legible. -/
def CanThin (limit gapDays : Int) (rs : List Release) : Prop :=
  (rs.length : Int) ≤ limit ∨ numericOnes rs = [] ∨ (gapDays ≤ 999999999 ∧ (((numericOnes rs).length : Int) ≤ limit ∨
      (comparable (numericOnes rs) = true ∧ ∀ r ∈ numericOnes rs, Legible r.1)))

section Numeric

variable {rs : List Release} (hascii : ∀ r ∈ rs, IsAscii r.1) (hdates : ∀ r ∈ rs, r.2.IsDate)

include hascii

theorem components_of_numericOnes (hr : r ∈ numericOnes rs) :
    components r.1 = if Legible r.1 then .ok (numbers r.1) else .error (.cause .badValue) := by
  obtain ⟨hmem, hnumeric⟩ := mem_filter.1 hr
  exact components_eq (hascii r hmem) hnumeric

include hdates

/-- One numeric version of each window can be chosen just if they can be compared and read. -/
theorem onePerWindow_numericOnes {first : Release} (hfirst : first ∈ numericOnes rs) {gapDays : Int}
    (hgap : 1 ≤ gapDays) (hdays : gapDays ≤ 999999999) (limit : Int) :
    ((∃ out, onePerWindow limit first.2 gapDays (numericOnes rs) = .ok out) ↔
      comparable (numericOnes rs) = true ∧ ∀ r ∈ numericOnes rs, Legible r.1) ∧
    ∀ out, onePerWindow limit first.2 gapDays (numericOnes rs) = .ok out →
      Picks limit.toNat (windowOf first.2 gapDays) (numericOnes rs) out := by
  have hexact : ExactWindows first.2 gapDays (numericOnes rs) :=
    exactWindows_of_isDate (fun r hr => hdates r (mem_of_mem_filter hr)) hfirst hgap hdays
  have hready : ∀ out, onePerWindow limit first.2 gapDays (numericOnes rs) = .ok out →
      comparable (numericOnes rs) = true ∧ ∀ r ∈ numericOnes rs, Legible r.1 := by
    intro out hout
    obtain ⟨hcomp, hread⟩ := components_of_onePerWindow hexact hgap hout
    refine ⟨hcomp, fun r hr => ?_⟩
    obtain ⟨ns, hns⟩ := hread r hr
    by_contra hlong
    rw [components_of_numericOnes hascii hr, if_neg hlong] at hns
    cases hns
  have hpicks : comparable (numericOnes rs) = true ∧ (∀ r ∈ numericOnes rs, Legible r.1) →
      ∃ out, onePerWindow limit first.2 gapDays (numericOnes rs) = .ok out ∧
        Picks limit.toNat (windowOf first.2 gapDays) (numericOnes rs) out := by
    rintro ⟨hcomp, hlegible⟩
    refine exists_onePerWindow hexact hgap hcomp (fun r hr => ?_) limit
    rw [components_of_numericOnes hascii hr, if_pos (hlegible r hr)]
  refine ⟨⟨fun ⟨out, hout⟩ => hready out hout, fun h => ?_⟩, fun out hout => ?_⟩
  · obtain ⟨out, hout, -⟩ := hpicks h
    exact ⟨out, hout⟩
  · obtain ⟨out', hout', h⟩ := hpicks (hready out hout)
    obtain rfl := Except.ok.inj (hout.symm.trans hout')
    exact h

end Numeric

theorem IsThinned.subperm {limit gapDays : Int} {rs out : List Release} (hlimit : 1 ≤ limit)
    (h : IsThinned limit gapDays rs out) : out.Subperm rs ∧ (out.length : Int) ≤ limit := by
  have hnumeric : (numericOnes rs).Sublist rs := filter_sublist
  rw [IsThinned] at h
  split at h
  case isTrue hshort => exact ⟨h ▸ List.Subperm.refl rs, h ▸ hshort⟩
  case isFalse =>
    split at h
    case isTrue hfew => exact ⟨h ▸ hnumeric.subperm, h ▸ hfew⟩
    case isFalse =>
      obtain ⟨first, -, hpicks⟩ := h
      refine ⟨(subperm_of_subset hpicks.nodup hpicks.mem).trans hnumeric.subperm, ?_⟩
      have hlen := hpicks.length_le
      omega

/-- With a limit of at least one release and a gap of at least one day, thinning succeeds just if nothing stands
in the way. It gives the list itself if it is short, else the numeric versions if they are few, else one for
each of the newest windows; so a part of the list, never longer than the limit. -/
theorem thin_isThinned {limit gapDays : Int} (hlimit : 1 ≤ limit) (hgap : 1 ≤ gapDays)
    (rs : List Release) (hascii : ∀ r ∈ rs, IsAscii r.1) (hdates : ∀ r ∈ rs, r.2.IsDate) :
    ((∃ out, thin (some limit) (some gapDays) rs = .ok out) ↔ CanThin limit gapDays rs) ∧
    ∀ out, thin (some limit) (some gapDays) rs = .ok out →
      IsThinned limit gapDays rs out ∧ out.Subperm rs ∧ (out.length : Int) ≤ limit := by
  suffices h : ((∃ out, thin (some limit) (some gapDays) rs = .ok out) ↔ CanThin limit gapDays rs) ∧
      ∀ out, thin (some limit) (some gapDays) rs = .ok out → IsThinned limit gapDays rs out from
    ⟨h.1, fun out hout => ⟨h.2 out hout, (h.2 out hout).subperm hlimit⟩⟩
  rw [thin_eq hlimit hgap]
  by_cases hshort : (rs.length : Int) ≤ limit
  · simp [hshort, CanThin, IsThinned]
  cases hhead : (numericOnes rs).head? with
  | none =>
    have hnone : numericOnes rs = [] := head?_eq_none_iff.1 hhead
    have hlimit' : 0 ≤ limit := by omega
    simp [hshort, hnone, CanThin, IsThinned, hlimit']
  | some first =>
    have hfirst : first ∈ numericOnes rs := mem_of_mem_head? hhead
    have hne : numericOnes rs ≠ [] := ne_nil_of_mem hfirst
    by_cases hdays : gapDays ≤ 999999999
    · have hone := onePerWindow_numericOnes hascii hdates hfirst hgap hdays limit
      by_cases hfew : ((numericOnes rs).length : Int) ≤ limit
      · simp [hshort, hne, hdays, hfew, CanThin, IsThinned]
      · simpa [hshort, hne, hdays, hfew, hhead, CanThin, IsThinned] using hone
    · simp [hshort, hne, hdays, CanThin]

/-- Three of the numeric versions are in the window of the first one, before and after it. -/
theorem thin_isThinned_two :
    let rs : List Release := [("1.0", { micros := 737211 * Time.dayMicros }),
      ("v1.10", { micros := 737230 * Time.dayMicros }), ("1.9", { micros := 737199 * Time.dayMicros }),
      ("2.0-beta", { micros := 737180 * Time.dayMicros }), ("1.5", { micros := 737119 * Time.dayMicros })]
    (numericOnes rs).map (windowOf { micros := 737211 * Time.dayMicros } 30) = [0, 0, 0, 3] ∧
      ∃ out, thin (some 2) (some 30) rs = .ok out ∧ IsThinned 2 30 rs out := by
  intro rs
  have hascii : ∀ r ∈ rs, IsAscii r.1 := by
    simp [rs, IsAscii]
  have hdates : ∀ r ∈ rs, r.2.IsDate := by
    simp only [rs, forall_mem_cons]
    exact ⟨⟨2019, 6, 1, 0, 0, 0, none, by decide, by simp⟩, ⟨2019, 6, 20, 0, 0, 0, none, by decide, by simp⟩,
      ⟨2019, 5, 20, 0, 0, 0, none, by decide, by simp⟩,
      ⟨2019, 5, 1, 0, 0, 0, none, by decide, by simp⟩,
      ⟨2019, 3, 1, 0, 0, 0, none, by decide, by simp⟩, by simp⟩
  have hcan : CanThin 2 30 rs :=
    .inr (.inr ⟨by decide, .inr ⟨by decide +kernel, by decide +kernel⟩⟩)
  have hthin := @thin_isThinned 2 30 (by decide) (by decide) rs hascii hdates
  obtain ⟨out, hout⟩ := hthin.1.2 hcan
  exact ⟨by decide +kernel, out, hout, (hthin.2 out hout).1⟩

/-- Two releases are not thinned if the gap is longer than can be counted in days. -/
theorem thin_gap_too_long :
    let rs : List Release := [("1.0", { micros := 737060 * Time.dayMicros }),
      ("a", { micros := 737061 * Time.dayMicros })]
    (∀ r ∈ rs, IsAscii r.1) ∧ (∀ r ∈ rs, r.2.IsDate) ∧ (numericOnes rs).length = 1 ∧
      thin (some 1) (some 1000000000) rs = .error (.cause .overflow) := by
  intro rs
  refine ⟨by simp [rs, IsAscii], ?_, by decide +kernel, by decide +kernel⟩
  simp only [rs, forall_mem_cons]
  exact ⟨⟨2019, 1, 1, 0, 0, 0, none, by decide, by simp⟩, ⟨2019, 1, 2, 0, 0, 0, none, by decide, by simp⟩, by simp⟩

end Vetting.Package
