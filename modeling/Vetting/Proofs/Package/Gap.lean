import Vetting.Proofs.Package.Version

/-!
# How far apart the kept versions are

In each window the release with the greatest version is kept, wherever it lies.
-/

namespace Vetting.Package

open List Time

theorem mul_lt_sub_of_tdiv_lt {a b g : ℤ} (hg : 0 < g) (h : a.tdiv g < b.tdiv g) :
    (b.tdiv g - a.tdiv g - 1) * g < b - a := by
  have ha := Int.tmod_add_tdiv_mul a g
  have hb := Int.tmod_add_tdiv_mul b g
  have hrest : a.tmod g - b.tmod g < g := by
    -- a remainder has the sign of what is divided, and `a` and `b` cannot lie on the two sides of zero
    -- so that the remainders add up
    rcases le_total 0 a with hpos | hneg
    · have hb0 : 0 ≤ b := by
        by_contra hb0
        exact h.not_ge (Int.tdiv_le_tdiv hg (by omega))
      have := Int.tmod_lt_of_pos a hg
      have := Int.tmod_nonneg g hb0
      omega
    · have := Int.lt_tmod_of_pos b hg
      have := Int.tmod_nonneg g (Int.neg_nonneg_of_nonpos hneg)
      rw [Int.neg_tmod] at this
      omega
  linarith

/-- How deep in its window a release lies; negative after the first time. -/
def depthOf (newest : Time.Stamp) (gapDays : Int) (r : Release) : Int :=
  (newest.universal - r.2.universal).tmod (gapDays * dayMicros)

theorem universal_sub_eq (newest : Time.Stamp) (gapDays : Int) (r s : Release) : r.2.universal - s.2.universal =
      (windowOf newest gapDays s - windowOf newest gapDays r) * (gapDays * dayMicros) +
        (depthOf newest gapDays s - depthOf newest gapDays r) := by
  have hr := Int.tmod_add_tdiv_mul (newest.universal - r.2.universal) (gapDays * dayMicros)
  have hs := Int.tmod_add_tdiv_mul (newest.universal - s.2.universal) (gapDays * dayMicros)
  rw [windowOf, windowOf, depthOf, depthOf]
  linarith

variable {gapDays : Int} {newest : Time.Stamp} {r s : Release} {rs out : List Release}

theorem gap_pos (hgap : 1 ≤ gapDays) : 0 < gapDays * dayMicros := by
  rw [dayMicros]
  omega

theorem mul_lt_universal_sub (hgap : 1 ≤ gapDays) (h : windowOf newest gapDays r < windowOf newest gapDays s) :
    (windowOf newest gapDays s - windowOf newest gapDays r - 1) * (gapDays * dayMicros) <
      r.2.universal - s.2.universal := by
  have hlt := mul_lt_sub_of_tdiv_lt (gap_pos hgap) h
  rw [windowOf, windowOf]
  linarith

theorem of_greatest (h : greatest rs = .ok out) : out.length ≤ 1 ∧ ∀ r ∈ out, r ∈ rs := by
  obtain ⟨keyed, hkeyed, hout⟩ := bind_eq_ok_iff.1 h
  obtain rfl := Except.ok.inj hout
  refine ⟨length_take_le _ _, fun r hr => ?_⟩
  obtain ⟨p, hp, rfl⟩ := mem_map.1 (mem_of_mem_take hr)
  obtain ⟨s, hs, hpair⟩ := (mem_of_mapM hkeyed).1 (mem_mergeSort.1 hp)
  obtain ⟨ns, -, hns⟩ := bind_eq_ok_iff.1 hpair
  obtain rfl := Except.ok.inj hns
  exact hs

theorem pairwise_flatten {w : Release → Int} {ks : List Int} {groups : List (List Release)}
    (h : List.Forall₂ (fun k group => group.length ≤ 1 ∧ ∀ r ∈ group, w r = k) ks groups)
    (hks : ks.Pairwise (· < ·)) :
    (groups.flatten.Pairwise fun r s => w r < w s) ∧ ∀ r ∈ groups.flatten, w r ∈ ks := by
  induction h with
  | nil => exact ⟨List.Pairwise.nil, fun r hr => by cases hr⟩
  | @cons k group ks groups hgroup _ ih =>
    obtain ⟨hfirst, hks⟩ := pairwise_cons.1 hks
    obtain ⟨hpairs, hmem⟩ := ih hks
    rw [flatten_cons, pairwise_append]
    refine ⟨⟨?_, hpairs, fun r hr s hs => ?_⟩, fun r hr => ?_⟩
    · rcases group with - | ⟨r, - | ⟨s, group⟩⟩
      · exact List.Pairwise.nil
      · exact pairwise_singleton _ r
      · simp at hgroup
    · exact hgroup.2 r hr ▸ hfirst _ (hmem s hs)
    · rcases mem_append.1 hr with hr | hr
      · exact hgroup.2 r hr ▸ mem_cons_self
      · exact mem_cons_of_mem k (hmem r hr)

theorem pairwise_windowOf_of_onePerWindow {limit gapDays : Int} (hexact : ExactWindows newest gapDays rs)
    (hgap : 1 ≤ gapDays) (h : onePerWindow limit newest gapDays rs = .ok out) :
    out.Pairwise fun r s => windowOf newest gapDays r < windowOf newest gapDays s := by
  have hcomp := (components_of_onePerWindow hexact hgap h).1
  obtain ⟨sorted, ks, -, hks, heq⟩ := exists_onePerWindow_eq hexact hgap hcomp limit
  rw [heq] at h
  obtain ⟨chosen, hchosen, hout⟩ := bind_eq_ok_iff.1 h
  obtain rfl := Except.ok.inj hout
  rw [mapM_eq_ok_iff, forall₂_map_left_iff] at hchosen
  have hgroups := hchosen.imp fun k group hgreatest =>
    And.imp_right (fun hmem r hr => (mem_groupOf.1 (hmem r hr)).2) (of_greatest hgreatest)
  exact (pairwise_flatten hgroups hks.increasing).1.sublist (take_sublist _ _)

/-! ## Gaps -/

/-- Whether two releases are at least a gap apart. -/
def Apart (gapDays : Int) (r s : Release) : Prop :=
  gapDays * dayMicros ≤ |r.2.universal - s.2.universal|

instance symm_apart (gapDays : Int) : Std.Symm (Apart gapDays) where
  symm r s h := by rwa [Apart, abs_sub_comm]

/-- Whether every two releases are at least a gap apart. -/
def Spaced (gapDays : Int) (rs : List Release) : Prop := rs.Pairwise (Apart gapDays)

theorem apart_iff_of_next (hgap : 1 ≤ gapDays) (hnext : windowOf newest gapDays s = windowOf newest gapDays r + 1) :
    Apart gapDays r s ↔ depthOf newest gapDays r ≤ depthOf newest gapDays s := by
  have hlater : windowOf newest gapDays r < windowOf newest gapDays s := by omega
  have hlt := mul_lt_universal_sub hgap hlater
  have hsub := universal_sub_eq newest gapDays r s
  simp only [hnext, add_sub_cancel_left, sub_self, zero_mul, one_mul] at hlt hsub
  rw [Apart, abs_of_pos hlt]
  omega

theorem apart_of_between (hgap : 1 ≤ gapDays) (hfar : windowOf newest gapDays r + 1 < windowOf newest gapDays s) :
    Apart gapDays r s := by
  have hlater : windowOf newest gapDays r < windowOf newest gapDays s := by omega
  calc gapDays * dayMicros = 1 * (gapDays * dayMicros) := (one_mul _).symm
    _ ≤ (windowOf newest gapDays s - windowOf newest gapDays r - 1) * (gapDays * dayMicros) :=
      Int.mul_le_mul_of_nonneg_right (by omega) (gap_pos hgap).le
    _ ≤ r.2.universal - s.2.universal := (mul_lt_universal_sub hgap hlater).le
    _ ≤ |r.2.universal - s.2.universal| := le_abs_self _

theorem spaced_iff_of_pairwise (hgap : 1 ≤ gapDays)
    (h : rs.Pairwise fun r s => windowOf newest gapDays r < windowOf newest gapDays s) :
    Spaced gapDays rs ↔ ∀ r ∈ rs, ∀ s ∈ rs, windowOf newest gapDays s = windowOf newest gapDays r + 1 →
      depthOf newest gapDays r ≤ depthOf newest gapDays s := by
  constructor
  · intro hspaced r hr s hs hnext
    have hne : r ≠ s := by
      rintro rfl
      omega
    exact (apart_iff_of_next hgap hnext).1 (hspaced.forall hr hs hne)
  · intro hdepth
    refine h.imp_of_mem fun {r s} hr hs hlt => ?_
    rcases (Int.add_one_le_of_lt hlt).eq_or_lt with hnext | hfar
    · exact (apart_iff_of_next hgap hnext.symm).2 (hdepth r hr s hs hnext.symm)
    · exact apart_of_between hgap hfar

/-- Floating-point numbers are precise enough: times are dates in whole seconds, or both they and the gap are
within the seconds that 31 bits count. -/
def Resolved (gapDays : Int) (rs : List Release) : Prop :=
  (∀ r ∈ rs, r.2.IsDate) ∨ gapDays ≤ 24855 ∧ ∀ r ∈ rs, ∀ s ∈ rs, |r.2.universal - s.2.universal| < 2 ^ 31 * 1000000

theorem Resolved.exactWindows (h : Resolved gapDays rs) (hgap : 1 ≤ gapDays) (hdays : gapDays ≤ 999999999)
    (hr : r ∈ rs) : ExactWindows r.2 gapDays rs := by
  rcases h with hdates | ⟨hshort, hnear⟩
  · exact exactWindows_of_isDate hdates hr hgap hdays
  · exact exactWindows_of_near hr hgap hshort (hnear r hr)

/-- A list that has too many numeric versions is thinned to one release for each window. -/
theorem onePerWindow_of_thin {limit gapDays : Int} (hlimit : 1 ≤ limit) (hgap : 1 ≤ gapDays) {first : Release}
    (hfirst : (numericOnes rs).head? = some first) (hmany : limit < (numericOnes rs).length)
    (hout : thin (some limit) (some gapDays) rs = .ok out) :
    gapDays ≤ 999999999 ∧ onePerWindow limit first.2 gapDays (numericOnes rs) = .ok out := by
  have hle : (numericOnes rs).length ≤ rs.length := length_filter_le _ _
  rw [thin_eq hlimit hgap, if_neg (by omega), hfirst, Option.elim_some] at hout
  split at hout
  case isTrue hdays => exact ⟨hdays, by rwa [if_neg (by omega)] at hout⟩
  case isFalse => cases hout

/-- Two releases that are kept are further apart than the windows between theirs are long, which says nothing
about neighbouring windows: all are a gap apart just if, wherever two neighbouring windows each give a
release, the older one lies no less deep in its window than the newer one. -/
theorem thin_spaced_iff {limit gapDays : Int} (hlimit : 1 ≤ limit) (hgap : 1 ≤ gapDays)
    {rs out : List Release} {first : Release} (hfirst : (numericOnes rs).head? = some first)
    (hmany : limit < (numericOnes rs).length) (htimes : Resolved gapDays (numericOnes rs))
    (hout : thin (some limit) (some gapDays) rs = .ok out) :
    (Spaced gapDays out ↔ ∀ r ∈ out, ∀ s ∈ out, windowOf first.2 gapDays s = windowOf first.2 gapDays r + 1 →
        depthOf first.2 gapDays r ≤ depthOf first.2 gapDays s) ∧
      out.Pairwise fun r s => windowOf first.2 gapDays r < windowOf first.2 gapDays s ∧
        (windowOf first.2 gapDays s - windowOf first.2 gapDays r - 1) * (gapDays * Time.dayMicros) <
          r.2.universal - s.2.universal := by
  obtain ⟨hdays, hone⟩ := onePerWindow_of_thin hlimit hgap hfirst hmany hout
  have hexact := htimes.exactWindows hgap hdays (mem_of_mem_head? hfirst)
  have hwindows := pairwise_windowOf_of_onePerWindow hexact hgap hone
  exact ⟨spaced_iff_of_pairwise hgap hwindows, hwindows.imp fun hlt => ⟨hlt, mul_lt_universal_sub hgap hlt⟩⟩

/-- The second of the kept releases comes late in its window and the third one early in the next, so that a day
lies between them. -/
theorem thin_not_spaced :
    let day (n : Int) : Time.Stamp := { micros := n * Time.dayMicros }
    let rs : List Release :=
      [("4.0", day 737211), ("3.0", day 737152), ("2.0", day 737151), ("1.0", day 737111)]
    ∃ out, thin (some 3) (some 30) rs = .ok out ∧ ("3.0", day 737152) ∈ out ∧
      ("2.0", day 737151) ∈ out ∧ ¬ Spaced 30 out := by
  intro day rs
  let w := windowOf (day 737211) 30
  have hnumeric : numericOnes rs = rs := by decide +kernel
  have htimes : Resolved 30 rs := .inr ⟨by decide, by decide +kernel⟩
  have hwindows : rs.map w = [0, 1, 2, 3] := by decide +kernel
  have hinjective : ∀ r ∈ rs, ∀ s ∈ rs, w r = w s → r = s := by decide +kernel
  obtain ⟨out, hone, hpicks⟩ := exists_onePerWindow
    (htimes.exactWindows (by decide) (by decide) mem_cons_self) (by decide)
    (by decide +kernel) (by decide +kernel) 3
  have hkept : out.map w = [0, 1, 2] := by
    rw [hpicks.windows, hwindows, (toFinset_sort (· ≤ ·) (by decide)).2 (by decide)]
    rfl
  have hmem : ∀ r ∈ rs, w r ∈ ([0, 1, 2] : List ℤ) → r ∈ out := by
    intro r hr hwindow
    rw [← hkept] at hwindow
    obtain ⟨s, hs, hsr⟩ := mem_map.1 hwindow
    exact hinjective s (hpicks.mem s hs) r hr hsr ▸ hs
  have hsecond : ("3.0", day 737152) ∈ out := hmem _ (by simp [rs]) (by decide +kernel)
  have hthird : ("2.0", day 737151) ∈ out := hmem _ (by simp [rs]) (by decide +kernel)
  have hout : thin (some 3) (some 30) rs = .ok out := by
    rw [thin_eq (by decide) (by decide), hnumeric]
    exact hone
  have hiff := @thin_spaced_iff 3 30 (by decide) (by decide) rs out ("4.0", day 737211)
    (by rw [hnumeric]; rfl) (by rw [hnumeric]; decide) (by rwa [hnumeric]) hout
  refine ⟨out, hout, hsecond, hthird, fun hspaced => ?_⟩
  exact absurd (hiff.1.1 hspaced _ hsecond _ hthird (by decide +kernel)) (by decide +kernel)

end Vetting.Package
