import Vetting.Proofs.Alert.Collection

/-!
# Collections of streams of alerts

What an alert tells does not depend on the alerts before it, so order and repetition do not matter.
-/

namespace Vetting

open List Table

namespace Alert

/-- What an alert tells about a run: that a rule applied, and what was observed. -/
structure Notice where
  run : Run
  rule : Rule
  seen : Option Observation

variable (alert : Doc) (c : Collection)

/-- What an alert tells, if it is about the run of a package and a rule that is followed. -/
def notice? : Except Fault (Option Notice) := do
  let .obj alert := alert | throw (.cause .noMember)
  let .obj fields := (alert.lookup "output_fields").getD (.obj []) | throw (.cause .noMember)
  let container := (fields.lookup "container.name").getD .null
  if !container.truthy then return none
  let .str container := container | throw (.cause .noMember)
  if container = "host" then return none
  let run ← Run.ofContainer container
  match ← field alert "rule" with
  | .str rule =>
    match Rule.ofWord? rule with
    | some rule => return some { run, rule, seen := ← observe rule fields }
    | none => if Rule.taken.contains rule then throw (.cause .badValue) else return none
  | _ => throw (.cause .wrongType)

def Collection.note (n : Notice) : Collection := c.file n.run n.rule n.seen

theorem Collection.add_eq (alert : Doc) :
    c.add alert = (fun n : Option Notice => n.elim c c.note) <$> notice? alert := by
  rw [Collection.add.eq_def, notice?.eq_def]
  cases alert with
  | obj alert =>
    dsimp only
    generalize (alert.lookup "output_fields").getD (.obj []) = fields
    cases fields with
    | obj fields =>
      dsimp only
      generalize (fields.lookup "container.name").getD .null = container
      by_cases htruthy : container.truthy = true
      · cases container with
        | str s =>
          simp only [htruthy, Bool.not_true, Bool.false_eq_true, if_false]
          by_cases hhost : s = "host"
          · simp only [hhost, if_true]
            rfl
          · simp only [hhost, if_false, map_bind]
            refine bind_congr fun run => bind_congr fun rule => ?_
            cases rule with
            | str rule =>
              dsimp only
              cases Rule.ofWord? rule with
              | some r => simp only [map_bind]; rfl
              | none => dsimp only; split <;> rfl
            | _ => rfl
        | _ => simp only [htruthy]; rfl
      · simp only [htruthy]
        rfl
    | _ => rfl
  | _ => rfl

variable {n : Notice} {fields : List (String × Doc)} {o : Observation} {r : Rule} {alerts : List Doc}

theorem observe_of_notice? {alert : Doc} (h : notice? alert = .ok (some n)) :
    ∃ entries fields, alert = .obj entries ∧ (entries.lookup "output_fields").getD (.obj []) = .obj fields ∧
      observe n.rule fields = .ok n.seen := by
  unfold notice? at h
  split at h
  case h_2 => cases h
  case h_1 entries =>
  split at h
  case h_2 => cases h
  case h_1 fields hfields =>
  refine ⟨entries, fields, rfl, hfields, ?_⟩
  dsimp only at h
  split at h
  case isTrue => cases h
  split at h
  case h_2 => cases h
  split at h
  case isTrue => cases h
  obtain ⟨run, -, h⟩ := bind_eq_ok_iff.1 h
  obtain ⟨rule, -, h⟩ := bind_eq_ok_iff.1 h
  split at h
  case h_2 => cases h
  split at h
  case h_2 => split at h <;> cases h
  obtain ⟨x, hx, h⟩ := bind_eq_ok_iff.1 h
  obtain rfl := Option.some.inj (Except.ok.inj h)
  exact hx

/-! ## Observations of a rule -/

/-- Whether a value is a text or null. -/
def isPlain : Doc → Bool
  | .null => true
  | .str _ => true
  | _ => false

/-- Whether all output fields of an alert are texts or null. -/
def plainFields : Doc → Bool
  | .obj entries =>
    match entries.lookup "output_fields" with
    | some (.obj fields) => fields.all fun p => isPlain p.2
    | _ => true
  | _ => true

variable {k : String} {xs : List Observation} {p : Run × Findings}

theorem isPlain_of_field (hf : fields.all (fun p => isPlain p.2) = true) {v : Doc} (h : field fields k = .ok v) :
    isPlain v = true := by
  rw [field] at h
  split at h
  case h_1 w hw =>
    obtain rfl := Except.ok.inj h
    obtain ⟨before, after, rfl, -⟩ := lookup_eq_some_iff.1 hw
    exact all_eq_true.1 hf (k, w) (by simp)
  case h_2 => cases h

theorem isPlain_of_notice? {alert : Doc} (ha : plainFields alert = true) (h : notice? alert = .ok (some n))
    (ho : n.seen = some o) : ∀ d ∈ o.parts, isPlain d = true := by
  obtain ⟨entries, fields, rfl, hfields, hobserve⟩ := observe_of_notice? h
  rw [ho] at hobserve
  have hall : fields.all (fun p => isPlain p.2) = true := by
    cases hlookup : entries.lookup "output_fields" with
    | none =>
      obtain rfl : [] = fields := Doc.obj.inj (by simpa [hlookup] using hfields)
      rfl
    | some v =>
      obtain rfl : v = .obj fields := by simpa [hlookup] using hfields
      simpa [plainFields, hlookup] using ha
  intro d hd
  rcases ((spec_of_observe hobserve).2.2 d hd).2 with rfl | ⟨s, rfl⟩ | ⟨k, hk⟩
  · rfl
  · rfl
  · exact isPlain_of_field hall hk

theorem eq_of_same {d e : Doc} (hd : isPlain d = true) (h : d.same e = true) : d = e := by
  cases d <;> cases e <;> simp_all [isPlain, Doc.same, Doc.number?]

theorem eq_of_sameList {ds es : List Doc} (hd : ∀ d ∈ ds, isPlain d = true)
    (h : Doc.sameList ds es = true) : ds = es := by
  induction ds generalizing es with
  | nil => cases es <;> simp_all [Doc.sameList]
  | cons d ds ih =>
    cases es with
    | nil => simp [Doc.sameList] at h
    | cons e es =>
      rw [forall_mem_cons] at hd
      simp only [Doc.sameList, Bool.and_eq_true] at h
      rw [eq_of_same hd.1 h.1, ih hd.2 h.2]

theorem Observation.eq_of_same {x y : Observation} (hx : r.shows x = true) (hy : r.shows y = true)
    (hplain : ∀ d ∈ x.parts, isPlain d = true) (h : x.same y = true) : x = y := by
  have hparts : x.parts = y.parts := eq_of_sameList hplain h
  -- Two observations with equal parts differ in kind only, and the kind is that of the rule.
  cases x <;> cases y <;> simp_all [Observation.parts] <;> cases r <;> simp_all [Rule.shows]

/-! ## Collections hold what alerts tell -/

def notices (alerts : List Doc) : Set Notice := {n | ∃ a ∈ alerts, notice? a = .ok (some n)}

theorem notices_append (xs ys : List Doc) : notices (xs ++ ys) = notices xs ∪ notices ys := by
  ext n
  simp only [notices, mem_append, Set.mem_ofPred_eq, Set.mem_union, or_and_right, exists_or]

namespace Collection

/-- A collection that holds what is told and nothing else, one observation of those that tell the same. -/
structure Covers (c : Collection) (told : Set Notice) : Prop where
  /-- The runs are those that something is told about. -/
  run : ∀ k, (c.get? k).isSome = true ↔ ∃ n ∈ told, n.run = k
  /-- The rules of a run are those that applied. -/
  rule : ∀ k r, (c.under k r).isSome = true ↔ ∃ n ∈ told, n.run = k ∧ n.rule = r
  /-- Each observation that is kept was told. -/
  kept : ∀ k r xs, c.under k r = some xs → ∀ o ∈ xs, ⟨k, r, some o⟩ ∈ told
  /-- For each observation that was told one that is the same is kept. -/
  told : ∀ n ∈ told, c.Holds n.run n.rule n.seen

theorem covers_nil : Covers [] ∅ where
  run k := by simp
  rule k r := by simp [under]
  kept k r xs h := by simp [under] at h
  told n hn := hn.elim

theorem mem_insertNew {x o : Observation} (h : o ∈ insertNew xs x) : o ∈ xs ∨ o = x := by
  rw [insertNew] at h
  split at h
  · exact .inl h
  · simpa using h

theorem Covers.note {c : Collection} {told : Set Notice} (h : c.Covers told)
    (hself : ∀ o, n.seen = some o → o.same o = true) : (c.note n).Covers (insert n told) where
  run k := by
    rw [Collection.note, get?_file]
    by_cases hk : n.run = k
    · simp [hk]
    · simp [hk, h.run k]
  rule k r := by
    rw [Collection.note, under_file]
    by_cases hkr : n.run = k ∧ n.rule = r
    · simp [hkr]
    · simp [hkr, h.rule k r]
  kept k r xs hxs o ho := by
    rw [Collection.note, under_file] at hxs
    split at hxs
    case isTrue hkr =>
      obtain ⟨rfl, rfl⟩ := hkr
      have hold : o ∈ (c.under n.run n.rule).getD [] → ⟨n.run, n.rule, some o⟩ ∈ told := by
        cases hunder : c.under n.run n.rule with
        | none => simp
        | some ys => exact fun hmem => h.kept _ _ ys hunder o hmem
      obtain ⟨run, rule, seen⟩ := n
      cases seen with
      | none =>
        obtain rfl := Option.some.inj hxs
        exact .inr (hold ho)
      | some x =>
        obtain rfl := Option.some.inj hxs
        rcases mem_insertNew ho with hmem | rfl
        · exact .inr (hold hmem)
        · exact .inl rfl
    case isFalse => exact .inr (h.kept k r xs hxs o ho)
  told m hm := by
    rcases hm with rfl | hm
    · exact c.holds_file m.run m.rule hself
    · exact (h.told m hm).file n.run n.rule n.seen

theorem Covers.add {c c' : Collection} (h : c.Covers (notices alerts)) {a : Doc} (hadd : c.add a = .ok c') :
    c'.Covers (notices (alerts ++ [a])) := by
  rw [add_eq] at hadd
  obtain ⟨n, hn, rfl⟩ := map_eq_ok_iff.1 hadd
  rw [notices_append]
  cases n with
  | none =>
    have hempty : notices [a] = ∅ := by
      ext m
      simp [notices, hn]
    rwa [hempty, Set.union_empty]
  | some n =>
    have hone : notices [a] = {n} := by
      ext m
      simp [notices, hn, eq_comm]
    rw [hone, Set.union_singleton]
    obtain ⟨_, _, -, -, hobserve⟩ := observe_of_notice? hn
    exact h.note fun o ho => same_self_of_observe (ho ▸ hobserve)

end Collection

theorem covers_collect {c : Collection} (h : collect alerts = .ok c) : c.Covers (notices alerts) := by
  have hempty : notices [] = ∅ := by
    ext n
    simp [notices]
  exact foldlM_invariant_from (fun before c => c.Covers (notices before))
    (fun before a b b' hb hadd => hb.add hadd) [] (hempty ▸ Collection.covers_nil) h

theorem shows_of_mem_notices {n : Notice} (hn : n ∈ notices alerts) {o : Observation} (ho : n.seen = some o) :
    n.rule.shows o = true := by
  obtain ⟨a, -, ha⟩ := hn
  obtain ⟨_, _, -, -, hobserve⟩ := observe_of_notice? ha
  exact (spec_of_observe (ho ▸ hobserve)).1

namespace Collection

/-- No run and no rule of a run stands twice in a collection. -/
structure Tidy (c : Collection) : Prop where
  runs : (Table.keys c).Nodup
  rules : ∀ p ∈ c, (Table.keys p.2).Nodup

theorem Tidy.file {c : Collection} (h : c.Tidy) (k : Run) (r : Rule) (x : Option Observation) :
    (c.file k r x).Tidy where
  runs := by
    rw [Collection.file, Table.modify, keys_set]
    exact nodup_addNew h.runs k
  rules p hp := by
    rcases Table.mem_set hp with hp | rfl
    · exact h.rules p hp
    · have hold : (Table.keys ((c.get? k).getD [])).Nodup := by
        cases hget : c.get? k with
        | none => exact nodup_nil
        | some findings => exact h.rules (k, findings) (mem_of_get? hget)
      change (Table.keys (Table.set _ r _)).Nodup
      rw [keys_set]
      exact nodup_addNew hold r

theorem tidy_collect {c : Collection} (h : collect alerts = .ok c) : c.Tidy := by
  have hempty : Tidy [] := ⟨nodup_nil, fun p hp => by cases hp⟩
  refine foldlM_invariant Tidy (fun a _ b b' hb hadd => ?_) hempty h
  obtain rfl | ⟨s, k, r, x, -, -, rfl⟩ := add_cases hadd
  · exact hb
  · exact hb.file k r x

theorem Tidy.under_of_mem {c : Collection} (h : c.Tidy) (hp : p ∈ c) {q : Rule × List Observation} (hq : q ∈ p.2) :
    c.under p.1 q.1 = some q.2 := by
  rw [under, get?_of_mem h.runs hp, Option.bind_some, get?_of_mem (h.rules p hp) hq]

theorem Tidy.mem_of_under {c : Collection} (h : c.Tidy) (hp : p ∈ c) (hxs : c.under p.1 r = some xs) :
    (r, xs) ∈ p.2 := by
  rw [under, get?_of_mem h.runs hp, Option.bind_some] at hxs
  exact mem_of_get? hxs

end Collection

theorem collect_isOk_iff (alerts : List Doc) :
    (∃ c, collect alerts = .ok c) ↔ ∀ a ∈ alerts, ∃ n, notice? a = .ok n := by
  refine foldlM_isOk_iff fun c a => ?_
  rw [Collection.add_eq]
  cases notice? a <;> simp [Functor.map, Except.map]

/-! ## Collections as maps -/

/-- Sets of observations by run and rule, which may apply without an observation. -/
abbrev Sightings := Run → Option (Rule → Option (Set Observation))

/-- The union of two maps, run by run and rule by rule. -/
def Sightings.union (f g : Sightings) : Sightings := fun k =>
  Option.merge (fun p q r => Option.merge (· ∪ ·) (p r) (q r)) (f k) (g k)

/-- A collection without the order in which its entries came. -/
def Collection.sightings : Sightings := fun k =>
  (c.get? k).map fun findings r => (findings.get? r).map fun xs => {o | o ∈ xs}

section Told

open Classical

variable (told s t : Set Notice)

noncomputable def seenUnder (k : Run) (r : Rule) : Option (Set Observation) :=
  if ∃ n ∈ told, n.run = k ∧ n.rule = r then some {o | ⟨k, r, some o⟩ ∈ told} else none

noncomputable def Sightings.of : Sightings := fun k =>
  if ∃ n ∈ told, n.run = k then some (seenUnder told k) else none

theorem merge_ite {α : Type} {p q : Prop} {f : α → α → α} {a b c : α} (hboth : p → q → f a b = c)
    (hleft : p → ¬ q → a = c) (hright : ¬ p → q → b = c) :
    Option.merge f (if p then some a else none) (if q then some b else none) =
      if p ∨ q then some c else none := by
  by_cases hp : p <;> by_cases hq : q
  · simp [hp, hq, hboth hp hq]
  · simp [hp, hq, hleft hp hq]
  · simp [hp, hq, hright hp hq]
  · simp [hp, hq]

theorem exists_mem_union {α : Type} {s t : Set α} {p : α → Prop} :
    (∃ x ∈ s ∪ t, p x) ↔ (∃ x ∈ s, p x) ∨ ∃ x ∈ t, p x := by
  simp only [Set.mem_union, or_and_right, exists_or]

theorem seenUnder_union (k : Run) (r : Rule) :
    seenUnder (s ∪ t) k r = Option.merge (· ∪ ·) (seenUnder s k r) (seenUnder t k r) := by
  have hunion : {o | ⟨k, r, some o⟩ ∈ s ∪ t} =
      {o | ⟨k, r, some o⟩ ∈ s} ∪ ({o | ⟨k, r, some o⟩ ∈ t} : Set Observation) := rfl
  have hnone : ∀ {u : Set Notice}, (¬ ∃ n ∈ u, n.run = k ∧ n.rule = r) →
      {o | ⟨k, r, some o⟩ ∈ u} = (∅ : Set Observation) :=
    fun h => Set.eq_empty_of_forall_notMem fun o ho => h ⟨_, ho, rfl, rfl⟩
  simp only [seenUnder, exists_mem_union]
  rw [merge_ite (fun _ _ => hunion.symm)]
  · intro _ ht
    rw [hunion, hnone ht, Set.union_empty]
  · intro hs _
    rw [hunion, hnone hs, Set.empty_union]

theorem Sightings.of_union : of (s ∪ t) = (of s).union (of t) := by
  -- A run that nothing is told about has no rules.
  have hnone : ∀ {u : Set Notice} {k : Run}, (¬ ∃ n ∈ u, n.run = k) → ∀ r, seenUnder u k r = none :=
    fun h r => if_neg fun ⟨n, hn, hk, _⟩ => h ⟨n, hn, hk⟩
  funext k
  simp only [of, union, exists_mem_union]
  rw [merge_ite (fun _ _ => funext fun r => (seenUnder_union s t k r).symm)]
  · intro _ ht
    funext r
    rw [seenUnder_union, hnone ht, Option.merge_none_right]
  · intro hs _
    funext r
    rw [seenUnder_union, hnone hs, Option.merge_none_left]

theorem Collection.Covers.sightings_eq {c : Collection} {told : Set Notice} (h : c.Covers told)
    (hshows : ∀ n ∈ told, ∀ o, n.seen = some o → n.rule.shows o = true)
    (hplain : ∀ n ∈ told, ∀ o, n.seen = some o → ∀ d ∈ o.parts, isPlain d = true) :
    c.sightings = Sightings.of told := by
  funext k
  simp only [sightings, Sightings.of]
  cases hget : c.get? k with
  | none =>
    have hk := (h.run k).not.1 (by simp [hget])
    rw [if_neg hk]
    rfl
  | some findings =>
    have hk := (h.run k).1 (by simp [hget])
    rw [if_pos hk, Option.map_some, Option.some.injEq]
    funext r
    rw [seenUnder]
    have hunder : c.under k r = findings.get? r := by rw [under, hget, Option.bind_some]
    rw [← hunder]
    cases hxs : c.under k r with
    | none =>
      have hkr := (h.rule k r).not.1 (by simp [hxs])
      rw [if_neg hkr]
      rfl
    | some xs =>
      have hkr := (h.rule k r).1 (by simp [hxs])
      rw [if_pos hkr, Option.map_some, Option.some.injEq]
      ext o
      constructor
      · exact h.kept k r xs hxs o
      · intro ho
        obtain ⟨ys, hys, hany⟩ := h.told _ ho
        obtain rfl : xs = ys := Option.some.inj (hxs.symm.trans hys)
        obtain ⟨x, hx, hsame⟩ := any_eq_true.1 (hany o rfl)
        have hmem := h.kept k r xs hxs x hx
        obtain rfl : x = o := Observation.eq_of_same (hshows _ hmem x rfl) (hshows _ ho o rfl)
          (hplain _ hmem x rfl) hsame
        exact hx

end Told

theorem sightings_collect (hplain : ∀ a ∈ alerts, plainFields a = true) {c : Collection}
    (h : collect alerts = .ok c) : c.sightings = Sightings.of (notices alerts) := by
  refine (covers_collect h).sightings_eq ?_ ?_
  · intro n hn o ho
    exact shows_of_mem_notices hn ho
  · rintro n ⟨a, ha, hn⟩ o ho
    exact isPlain_of_notice? (hplain a ha) hn ho

/-- Where the output fields are texts or null, two streams together cannot be collected exactly if one of them
cannot, and otherwise their collection is, as a map from runs and rules to sets of observations, the union of
their collections. A stream of the same alerts, in any order, fails or gives the same map. -/
theorem collect_append (xs ys : List Doc) (hx : ∀ a ∈ xs, plainFields a = true)
    (hy : ∀ a ∈ ys, plainFields a = true) :
    ((∃ e, collect (xs ++ ys) = .error e) ↔ (∃ e, collect xs = .error e) ∨ ∃ e, collect ys = .error e) ∧
    (∀ c, collect (xs ++ ys) = .ok c →
      ∃ a b, collect xs = .ok a ∧ collect ys = .ok b ∧ c.sightings = a.sightings.union b.sightings) ∧
    ∀ zs : List Doc, (∀ a, a ∈ zs ↔ a ∈ xs) → ((∃ e, collect zs = .error e) ↔ ∃ e, collect xs = .error e) ∧
      ∀ c d, collect xs = .ok c → collect zs = .ok d → d.sightings = c.sightings := by
  have herror : ∀ alerts : List Doc, (∃ e, collect alerts = .error e) ↔ ¬ ∀ a ∈ alerts, ∃ n, notice? a = .ok n := by
    intro alerts
    rw [← collect_isOk_iff]
    cases collect alerts <;> simp
  have hok : ∀ {alerts : List Doc}, (∀ a ∈ alerts, ∃ n, notice? a = .ok n) → ∃ c, collect alerts = .ok c :=
    fun h => (collect_isOk_iff _).2 h
  refine ⟨?_, ?_, fun zs hzs => ⟨?_, ?_⟩⟩
  · rw [herror, herror, herror, forall_mem_append, not_and_or]
  · intro c hc
    have hall := (collect_isOk_iff _).1 ⟨c, hc⟩
    rw [forall_mem_append] at hall
    obtain ⟨a, ha⟩ := hok hall.1
    obtain ⟨b, hb⟩ := hok hall.2
    refine ⟨a, b, ha, hb, ?_⟩
    rw [sightings_collect (forall_mem_append.2 ⟨hx, hy⟩) hc, sightings_collect hx ha,
      sightings_collect hy hb, notices_append, Sightings.of_union]
  · simp only [herror, hzs]
  · intro c d hc hd
    have hz : ∀ a ∈ zs, plainFields a = true := fun a ha => hx a ((hzs a).1 ha)
    have hsame : notices zs = notices xs := by
      ext n
      simp only [notices, hzs]
    rw [sightings_collect hx hc, sightings_collect hz hd, hsame]

def readAlert (container : String) (file : Option String) : Doc := .obj [
  ("rule", .str "read_file"),
  ("output_fields", .obj [("container.name", .str container), ("fd.name", (file.map .str).getD .null)])]

/-- A run without an observation, and one observation in both streams. -/
theorem collect_append_overlapping :
    let xs := [readAlert "a..1.0..d" (some "/etc/passwd"), readAlert "b..2.0..d_sudo" none]
    let ys := [readAlert "a..1.0..d" (some "/etc/hosts"), readAlert "a..1.0..d" (some "/etc/passwd")]
    (∀ a ∈ xs ++ ys, plainFields a = true) ∧
      ∃ a b c d, collect xs = .ok a ∧ collect ys = .ok b ∧ collect (xs ++ ys) = .ok c ∧
        collect (xs.reverse ++ xs) = .ok d ∧ c.sightings = a.sightings.union b.sightings ∧
        d.sightings = a.sightings := by
  intro xs ys
  have hx : ∀ a ∈ xs, plainFields a = true := by decide
  have hy : ∀ a ∈ ys, plainFields a = true := by decide
  have hc : collect (xs ++ ys) = .ok
      [(⟨"a", some "1.0", false⟩, [(.readFile, [.target (.str "/etc/passwd"), .target (.str "/etc/hosts")])]),
        (⟨"b", some "2.0", true⟩, [(.readFile, [])])] := rfl
  obtain ⟨-, happend, hsame⟩ := collect_append xs ys hx hy
  obtain ⟨a, b, ha, hb, hunion⟩ := happend _ hc
  obtain ⟨herror, heq⟩ := hsame (xs.reverse ++ xs) (by simp)
  cases hd : collect (xs.reverse ++ xs) with
  | error e =>
    obtain ⟨e', he⟩ := herror.1 ⟨e, hd⟩
    rw [ha] at he
    cases he
  | ok d =>
    exact ⟨forall_mem_append.2 ⟨hx, hy⟩, a, b, _, d, ha, hb, hc, rfl, hunion, heq a d ha hd⟩

/-- What an alert gives as the name of its container, null if it gives none. -/
def containerValue? : Doc → Option Doc
  | .obj alert =>
    match (alert.lookup "output_fields").getD (.obj []) with
    | .obj fields => some ((fields.lookup "container.name").getD .null)
    | _ => none
  | _ => none

/-- An alert of a container whose name is not three parts with separators between them. -/
def Foreign : Prop :=
  ∀ n v j : String, containerValue? alert ≠ some (.str (n ++ ".." ++ v ++ ".." ++ j))

/-- An alert that says it is from no container: there is no name, or the host's. -/
def FromNowhere : Prop :=
  ∃ d, containerValue? alert = some d ∧ (d.truthy = false ∨ d = .str "host")

/-- The fault at an alert whose container is named otherwise than packages' containers are. -/
def foreignFault : Fault :=
  match containerValue? alert with
  | some (.str _) => .cause .badValue
  | _ => .cause .noMember

namespace Collection

theorem add_of_fromNowhere (c : Collection) {alert : Doc} (h : FromNowhere alert) : c.add alert = .ok c := by
  obtain ⟨d, hd, hnone⟩ := h
  unfold containerValue? at hd
  split at hd
  case h_2 => cases hd
  case h_1 alert =>
  split at hd
  case h_2 => cases hd
  case h_1 fields hfields =>
  obtain rfl := Option.some.inj hd
  simp only [add, hfields]
  rcases hnone with hfalse | hhost
  · simp only [hfalse, Bool.not_false, if_true]
    rfl
  · rw [hhost]
    rfl

theorem add_of_foreign (c : Collection) {alert : Doc} (hforeign : Foreign alert)
    (h : ¬ FromNowhere alert) : c.add alert = .error (foreignFault alert) := by
  cases alert with
  | obj alert =>
    cases hfields : (alert.lookup "output_fields").getD (.obj []) with
    | obj fields =>
      have hvalue : containerValue? (.obj alert) = some ((fields.lookup "container.name").getD .null) := by
        simp only [containerValue?, hfields]
      have htruthy : ((fields.lookup "container.name").getD .null).truthy = true := by
        by_contra hfalse
        exact h ⟨_, hvalue, .inl (by simpa using hfalse)⟩
      simp only [add, hfields, foreignFault, hvalue, htruthy]
      cases hname : (fields.lookup "container.name").getD .null with
      | str s =>
        have hhost : s ≠ "host" := fun hhost => h ⟨_, hvalue, .inr (by rw [hname, hhost])⟩
        have hsplit : splitContainer s = none := by
          rw [splitContainer_eq_none_iff]
          rintro n v j rfl
          exact hforeign n v j (hvalue.trans (by rw [hname]))
        have hrun : Run.ofContainer s = .error (.cause .badValue) := by rw [Run.ofContainer, hsplit]
        simp [hhost, hrun]
      | _ => rfl
    | _ => simp only [add, hfields, foreignFault, containerValue?]; rfl
  | _ => rfl

end Collection

/-- An alert that names no container or the host can be left out. Every other one of a container that no package
ran in stops the collection, so that the stream gives what it gives without that alert just if neither can be
collected and the fault is the same. -/
theorem collect_without_foreign_iff (before after : List Doc) (alert : Doc) (hforeign : Foreign alert) :
    (FromNowhere alert → collect (before ++ alert :: after) = collect (before ++ after)) ∧
    (¬ FromNowhere alert →
      collect (before ++ alert :: after) = collect before >>= fun _ => .error (foreignFault alert)) ∧
    (collect (before ++ alert :: after) = collect (before ++ after) ↔
      FromNowhere alert ∨ (∃ f, collect before = .error f) ∨
        collect (before ++ after) = .error (foreignFault alert)) := by
  have hsplit : ∀ alerts, collect (before ++ alerts) =
      collect before >>= fun c => alerts.foldlM Collection.add c := fun alerts => foldlM_append
  have hpass : FromNowhere alert → collect (before ++ alert :: after) = collect (before ++ after) := by
    intro hnone
    rw [hsplit, hsplit]
    refine bind_congr fun c => ?_
    rw [foldlM_cons, c.add_of_fromNowhere hnone, ok_bind]
  have hstop : ¬ FromNowhere alert →
      collect (before ++ alert :: after) = collect before >>= fun _ => .error (foreignFault alert) := by
    intro hnone
    rw [hsplit]
    refine bind_congr fun c => ?_
    rw [foldlM_cons, c.add_of_foreign hforeign hnone, error_bind]
  refine ⟨hpass, hstop, ?_⟩
  by_cases hnone : FromNowhere alert
  · exact iff_of_true (hpass hnone) (.inl hnone)
  · rw [hstop hnone]
    cases hbefore : collect before with
    | error f => simp [hsplit after, hbefore]
    | ok c => simp [hnone, eq_comm]

/-- An alert of a container that was started by hand loses those around it; one of the host does not. -/
theorem collect_foreign_web :
    let foo := readAlert "foo..1.0..d" (some "/etc/passwd")
    let bar := readAlert "bar..2.0..d" (some "/etc/hosts")
    let web := readAlert "web" (some "/etc/hosts")
    let host := readAlert "host" (some "/etc/hosts")
    Foreign web ∧ Foreign host ∧ (∃ c, collect [foo, bar] = .ok c) ∧ collect [foo, host, bar] = collect [foo, bar] ∧
      collect [foo, web, bar] = .error (.cause .badValue) ∧
      collect [foo, web, bar] ≠ collect [foo, bar] := by
  intro foo bar web host
  have hforeign : ∀ s, splitContainer s = none → ∀ f, Foreign (readAlert s f) := by
    intro s hs f n v j h
    obtain rfl : s = n ++ ".." ++ v ++ ".." ++ j := Doc.str.inj (Option.some.inj h)
    exact splitContainer_eq_none_iff.1 hs n v j rfl
  have hweb : Foreign web := hforeign "web" (by decide +kernel) _
  have hhost : Foreign host := hforeign "host" (by decide +kernel) _
  have hnone : ¬ FromNowhere web := by
    rintro ⟨d, hd, hfalse | rfl⟩
    · obtain rfl := Option.some.inj hd
      exact absurd hfalse (by decide +kernel)
    · exact absurd (Doc.str.inj (Option.some.inj hd)) (by decide)
  have hrest : collect [foo, bar] = .ok [(⟨"foo", some "1.0", false⟩, [(.readFile, [.target (.str "/etc/passwd")])]),
        (⟨"bar", some "2.0", false⟩, [(.readFile, [.target (.str "/etc/hosts")])])] := rfl
  obtain ⟨-, hstop, -⟩ := collect_without_foreign_iff [foo] [bar] web hweb
  obtain ⟨hpass, -, -⟩ := collect_without_foreign_iff [foo] [bar] host hhost
  have hfault : collect [foo, web, bar] = .error (.cause .badValue) := hstop hnone
  refine ⟨hweb, hhost, ⟨_, hrest⟩, hpass ⟨_, rfl, .inr rfl⟩, hfault, ?_⟩
  rw [hfault, hrest]
  exact fun h => by cases h

end Alert

end Vetting
