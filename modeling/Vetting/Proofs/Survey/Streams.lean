import Vetting.Proofs.Alert.Streams
import Vetting.Proofs.Message.Normal
import Vetting.Proofs.Survey.Traces

/-!
# Reports on streams of alerts

However a stream of alerts is cut into traces, each report ends up with the activities that the whole stream
shows.
-/

namespace Vetting

open Message List Job Package Table

variable {alerts : List Doc}

variable {d new : Doc} {r : Rule}

namespace Alert

def listShape (l : String) : String :=
  match (field? "ProcessActivity" l).map Field.kind with
  | some (.message shape) => shape
  | _ => ""

theorem field?_activityList {l : String} (hl : l ∈ activityLists) :
    ∃ f, field? "ProcessActivity" l = some f ∧ f.kind = .message (listShape l) ∧ f.many = true := by
  have hall : ∀ l ∈ activityLists, ((field? "ProcessActivity" l).any fun f =>
      decide (f.kind = .message (listShape l)) && f.many) = true := by decide +kernel
  have h := hall l hl
  cases hf : field? "ProcessActivity" l with
  | none => simp [hf] at h
  | some f =>
    obtain ⟨hkind, hmany⟩ : f.kind = .message (listShape l) ∧ f.many = true := by simpa [hf] using h
    exact ⟨f, rfl, hkind, hmany⟩

/-- An activity as it stands in a list: it fits the shape of the list and is in normal form. -/
def IsActivity (l : String) (x : Doc) : Prop :=
  ∃ gs, x = .obj gs ∧ fitsFields (listShape l) gs = true ∧ normal (listShape l) x = x

theorem isActivity_of_texts {l : String} {gs : List (String × Doc)} (htexts : ∀ p ∈ gs, (∃ s, s ≠ "" ∧ p.2 = .str s) ∧
      ∃ f, field? (listShape l) p.1 = some f ∧ f.kind = .text ∧ f.many = false) :
    IsActivity l (normal (listShape l) (.obj gs)) := by
  have hkeep : ∀ hs : List (String × Doc), (∀ p ∈ hs, p ∈ gs) →
      ∀ p ∈ hs, ∃ f, field? (listShape l) p.1 = some f ∧ normalField f p.2 = some p.2 := by
    intro hs hsub p hp
    obtain ⟨⟨s, hs, hv⟩, f, hf, hkind, -⟩ := htexts p (hsub p hp)
    refine ⟨f, hf, ?_⟩
    simp [hv, normalField, normalPlain, normalAtom, isDefault, hkind, hs]
  have hsub : ∀ p ∈ ordered (listShape l) gs, p ∈ gs := by
    intro p hp
    obtain ⟨before, after, hgs, -⟩ := lookup_eq_some_iff.1 (mem_ordered.1 hp).2
    rw [hgs]
    simp
  have hnormal : normal (listShape l) (.obj gs) = .obj (ordered (listShape l) gs) := by
    rw [normal, normalFields_eq_self (hkeep gs fun p hp => hp)]
  refine ⟨_, hnormal, fitsFields_iff.2 ⟨nodup_keys_ordered _ gs, fun p hp => ?_⟩, ?_⟩
  · obtain ⟨⟨s, -, hv⟩, f, hf, hkind, hmany⟩ := htexts p (hsub p hp)
    exact ⟨f, hf, by simp [hv, fitsValue, hkind, hmany]⟩
  · rw [hnormal, normal, normalFields_eq_self (hkeep _ hsub), ordered_ordered]

theorem exists_of_messageTexts {kvs : List (String × Doc)} (h : messageTexts kvs = .ok d) :
    ∃ gs, d = .obj gs ∧ (gs.map Prod.fst).Sublist (kvs.map Prod.fst) ∧
      (∀ p ∈ gs, ∃ s, s ≠ "" ∧ p.2 = .str s) ∧ ∀ p ∈ kvs, ∃ s, p.2 = .str s := by
  obtain ⟨gss, hgss, hd⟩ := bind_eq_ok_iff.1 h
  obtain rfl := Except.ok.inj hd
  refine ⟨gss.flatten, rfl, ?_⟩
  clear h hd
  induction kvs generalizing gss with
  | nil =>
    obtain rfl : [] = gss := Except.ok.inj hgss
    simp
  | cons p kvs ih =>
    rw [mapM_cons] at hgss
    obtain ⟨gs, hgs, hgss⟩ := bind_eq_ok_iff.1 hgss
    obtain ⟨rest, hrest, hgss⟩ := bind_eq_ok_iff.1 hgss
    obtain rfl := Except.ok.inj hgss
    obtain ⟨hsub, htexts, hall⟩ := ih rest hrest
    obtain ⟨k, v⟩ := p
    cases v with
    | str s =>
      obtain rfl : Api.textField k s = gs := Except.ok.inj hgs
      by_cases hs : s = ""
      · subst hs
        rw [show Api.textField k "" = [] from rfl, flatten_cons, nil_append, forall_mem_cons]
        exact ⟨hsub.cons k, htexts, ⟨_, rfl⟩, hall⟩
      · simp only [Api.textField, String.isEmpty_iff, hs, if_false, flatten_cons,
          singleton_append, map_cons, forall_mem_cons]
        exact ⟨hsub.cons_cons k, ⟨⟨s, hs, rfl⟩, htexts⟩, ⟨_, rfl⟩, hall⟩
    | _ => cases hgs

def Rule.textNames : Rule → List String
  | .outgoingDomain | .incomingDomain => ["domain"]
  | .outgoingIp | .incomingIp => ["ip"]
  | .writeFile | .readFile | .statFile => ["filepath", "mode"]
  | .spawnProcess => ["user", "exe", "cmdline"]
  | .sensitiveOperation => ["user", "cmdline", "syscall"]

theorem field?_textNames {k : String} (hk : k ∈ r.textNames) :
    ∃ f, field? (listShape r.activityList) k = some f ∧ f.kind = .text ∧ f.many = false := by
  have hall : ∀ k ∈ r.textNames, ((field? (listShape r.activityList) k).any fun f =>
      decide (f.kind = .text) && !f.many) = true := by cases r <;> decide +kernel
  have h := hall k hk
  cases hf : field? (listShape r.activityList) k with
  | none => simp [hf] at h
  | some f =>
    obtain ⟨hkind, hmany⟩ : f.kind = .text ∧ f.many = false := by simpa [hf] using h
    exact ⟨f, rfl, hkind, hmany⟩

theorem exists_of_activity {o : Observation} (hshows : r.shows o = true) (h : activity r o = .ok d) :
    (∀ p ∈ o.parts, ∃ s, p = .str s) ∧ IsActivity r.activityList (normal (listShape r.activityList) d) := by
  obtain ⟨kvs, hkvs, hnames, hparts⟩ : ∃ kvs, messageTexts kvs = .ok d ∧
      kvs.map Prod.fst = r.textNames ∧ o.parts ⊆ kvs.map Prod.snd := by
    cases r <;> cases o <;> try exact ⟨_, h, rfl, by simp [Observation.parts]⟩
    all_goals cases hshows
  obtain ⟨gs, rfl, hsub, htexts, hall⟩ := exists_of_messageTexts hkvs
  rw [hnames] at hsub
  refine ⟨fun p hp => ?_, isActivity_of_texts fun p hp => ⟨htexts p hp, ?_⟩⟩
  · obtain ⟨q, hq, rfl⟩ := mem_map.1 (hparts hp)
    exact hall q hq
  · exact field?_textNames (hsub.subset (mem_map_of_mem hp))

end Alert

namespace Survey

open Alert (activityLists listShape IsActivity field?_activityList)

/-! ## Reports -/

def activitiesIn (report : Doc) (l : String) : List Doc :=
  (((activityOf report).get? l).getD (.arr [])).itemsOf

/-- The fields about the process of a report: that it is the main one, and lists of activities. -/
structure ActivityFields (fs : List (String × Doc)) : Prop where
  nodup : (fs.map Prod.fst).Nodup
  field : ∀ p ∈ fs, p = ("main_process", .bool true) ∨
    p.1 ∈ activityLists ∧ ∃ xs, xs ≠ [] ∧ p.2 = .arr xs ∧ ∀ x ∈ xs, IsActivity p.1 x

def reportDoc (user : String) (fs : List (String × Doc)) : Doc :=
  .obj [("exe_user", .str user), ("process_activity", .obj fs)]

def IsReport (d : Doc) : Prop := ∃ user fs, user ≠ "" ∧ ActivityFields fs ∧ d = reportDoc user fs

theorem activityOf_reportDoc (user : String) (fs : List (String × Doc)) : activityOf (reportDoc user fs) = fs := rfl

variable {fs : List (String × Doc)} {l : String}

theorem ActivityFields.ordered (h : ActivityFields fs) : ActivityFields (ordered "ProcessActivity" fs) where
  nodup := nodup_keys_ordered _ fs
  field p hp := by
    obtain ⟨before, after, hfs, -⟩ := lookup_eq_some_iff.1 (mem_ordered.1 hp).2
    exact h.field p (by rw [hfs]; simp)

theorem ActivityFields.exists_field (h : ActivityFields fs) {p : String × Doc} (hp : p ∈ fs) :
    ∃ f, field? "ProcessActivity" p.1 = some f ∧ normalField f p.2 = some p.2 ∧ fitsValue f f.many p.2 = true := by
  rcases h.field p hp with rfl | ⟨hl, xs, hne, hv, hxs⟩
  · exact ⟨_, rfl, rfl, rfl⟩
  · obtain ⟨f, hf, hkind, hmany⟩ := field?_activityList hl
    refine ⟨f, hf, ?_, ?_⟩
    · have hitems : normalItems f xs = xs := by
        rw [normalItems_eq hkind]
        exact (map_congr_left fun x hx => by
          obtain ⟨gs, -, -, hnormal⟩ := hxs x hx
          exact hnormal).trans (map_id xs)
      simp [hv, normalField, hmany, hne, hitems]
    · have hitems : fitsItems f xs = true := fitsItems_iff.2 fun x hx => by
        obtain ⟨gs, rfl, hfits, -⟩ := hxs x hx
        simp [fitsValue, hkind, hfits]
      simp [hv, fitsValue, hmany, hne, hitems]

theorem ActivityFields.normalFields_eq (h : ActivityFields fs) : normalFields "ProcessActivity" fs = fs :=
  normalFields_eq_self fun p hp => by
    obtain ⟨f, hf, hv, -⟩ := h.exists_field hp
    exact ⟨f, hf, hv⟩

theorem normal_reportDoc {user : String} (huser : user ≠ "") (fs : List (String × Doc)) :
    normal "DynamicAnalysis" (reportDoc user fs) =
      reportDoc user (ordered "ProcessActivity" (normalFields "ProcessActivity" fs)) := by
  have huser' : field? "DynamicAnalysis" "exe_user" = some ⟨3, "exe_user", .text, false, false⟩ := rfl
  have hprocess : field? "DynamicAnalysis" "process_activity" =
      some ⟨6, "process_activity", .message "ProcessActivity", false, false⟩ := rfl
  have hfields : normalFields "DynamicAnalysis" [("exe_user", .str user), ("process_activity", .obj fs)] =
        [("exe_user", .str user), ("process_activity",
          .obj (ordered "ProcessActivity" (normalFields "ProcessActivity" fs)))] := by
    simp [normalFields, huser', hprocess, normalField, normalPlain, normalAtom, isDefault, huser]
  rw [reportDoc, normal, hfields]
  rfl

theorem fits_reportDoc (user : String) (h : ActivityFields fs) :
    fitsFields "DynamicAnalysis" [("exe_user", .str user), ("process_activity", .obj fs)] = true := by
  have hfs : fitsFields "ProcessActivity" fs = true :=
    fitsFields_iff.2 ⟨h.nodup, fun p hp => by
      obtain ⟨f, hf, -, hv⟩ := h.exists_field hp
      exact ⟨f, hf, hv⟩⟩
  rw [fitsFields_iff]
  refine ⟨by simp, ?_⟩
  rw [forall_mem_cons, forall_mem_singleton]
  exact ⟨⟨_, rfl, rfl⟩, _, rfl, hfs⟩

theorem IsReport.exists_message {saved : Doc} (h : IsReport saved) :
    ∃ read, Job.Content.message "DynamicAnalysis" (stored false saved) = .ok read ∧ IsReport read ∧
      ∀ l ∈ activityLists, activitiesIn read l = activitiesIn saved l := by
  obtain ⟨user, fs, huser, hfs, rfl⟩ := h
  refine ⟨reportDoc user (ordered "ProcessActivity" fs), ?_, ⟨user, _, huser, hfs.ordered, rfl⟩, ?_⟩
  · have hmessage : Job.Content.message "DynamicAnalysis" (stored false (reportDoc user fs)) =
        (ofText? "DynamicAnalysis" (String.ofList (Text.unifyLineEnds
          (toText "DynamicAnalysis" (reportDoc user fs)).toList))).elim
          (.error (.cause .badMessageText)) .ok := rfl
    rw [hmessage, reportDoc, ofText?_toText (fits_reportDoc user hfs), ← reportDoc,
      normal_reportDoc huser, hfs.normalFields_eq]
    rfl
  · intro l hl
    obtain ⟨f, hf, -⟩ := field?_activityList hl
    rw [activitiesIn, activitiesIn, activityOf_reportDoc, activityOf_reportDoc, get?_eq_lookup,
      get?_eq_lookup, lookup_ordered hf]

/-! ## Adding activities -/

/-- Adds activities to a list of a report, if there are any. -/
def extendList (new : Doc) (fs : Table String Doc) (l : String) : Table String Doc :=
  if activitiesIn new l = [] then fs
  else fs.modify l (.arr []) fun d => .arr (d.itemsOf ++ activitiesIn new l)

theorem addActivities_reportDoc (user : String) (fs : List (String × Doc)) (new : Doc) :
    addActivities (reportDoc user fs) new = reportDoc user (activityLists.foldl (extendList new) fs) := by
  have hsome : ((reportDoc user fs).field? "process_activity").isNone = false := rfl
  have hset : ∀ gs, (reportDoc user fs).setField "process_activity" (.obj gs) = reportDoc user gs :=
    fun gs => rfl
  rw [addActivities, hsome, Bool.and_false, if_neg (by simp), hset, activityOf_reportDoc]
  congr 2
  funext t k
  rw [extendList, activitiesIn]
  cases ((activityOf new).get? k).getD (.arr []) with
  | arr xs => cases xs <;> simp [Doc.itemsOf]
  | _ => simp [Doc.itemsOf]

/-- The items of a list among the fields of a report. -/
def itemsAt (fs : Table String Doc) (l : String) : List Doc := ((fs.get? l).getD (.arr [])).itemsOf

theorem ActivityFields.isActivity (h : ActivityFields fs) (hl : l ∈ activityLists) :
    ∀ x ∈ itemsAt fs l, IsActivity l x := by
  rw [itemsAt]
  cases hv : get? fs l with
  | none => simp [Doc.itemsOf]
  | some v =>
    rcases h.field _ (mem_of_get? hv) with hmain | ⟨-, xs, -, hxs, hall⟩
    · obtain rfl : l = "main_process" := congrArg Prod.fst hmain
      exact absurd hl (by decide)
    · obtain rfl : v = .arr xs := hxs
      exact hall

theorem itemsAt_extendList (new : Doc) (fs : List (String × Doc)) (k l : String) :
    itemsAt (extendList new fs k) l = itemsAt fs l ++ if l = k then activitiesIn new l else [] := by
  rw [extendList, itemsAt]
  by_cases hnew : activitiesIn new k = []
  · by_cases hl : l = k
    · simp [hl, hnew, itemsAt]
    · simp [hl, hnew, itemsAt]
  · rw [if_neg hnew, get?_modify]
    by_cases hl : l = k
    · simp [hl, itemsAt, Doc.itemsOf]
    · simp [hl, Ne.symm hl, itemsAt]

theorem ActivityFields.extendList (h : ActivityFields fs) (hl : l ∈ activityLists)
    (hnew : ∀ x ∈ activitiesIn new l, IsActivity l x) : ActivityFields (extendList new fs l) := by
  rw [Survey.extendList]
  split
  case isTrue => exact h
  case isFalse hne =>
    refine ⟨?_, fun p hp => ?_⟩
    · have hkeys : (Table.set fs l (.arr (itemsAt fs l ++ activitiesIn new l))).keys.Nodup := by
        rw [keys_set]
        exact nodup_addNew h.nodup l
      exact hkeys
    · rcases Table.mem_set hp with hp | rfl
      · exact h.field p hp
      · refine .inr ⟨hl, _, ?_, rfl, ?_⟩
        · simp [hne]
        · rw [forall_mem_append]
          exact ⟨h.isActivity hl, hnew⟩

theorem ActivityFields.foldl_extendList {ls : List String} (hls : ls.Nodup)
    (hnew : ∀ l ∈ ls, l ∈ activityLists ∧ ∀ x ∈ activitiesIn new l, IsActivity l x) (h : ActivityFields fs) :
    ActivityFields (ls.foldl (Survey.extendList new) fs) ∧ ∀ l, itemsAt (ls.foldl (Survey.extendList new) fs) l =
        itemsAt fs l ++ if l ∈ ls then activitiesIn new l else [] := by
  induction ls generalizing fs with
  | nil => exact ⟨h, by simp⟩
  | cons k ls ih =>
    rw [nodup_cons] at hls
    rw [forall_mem_cons] at hnew
    obtain ⟨hfields, hitems⟩ := ih hls.2 hnew.2 (h.extendList hnew.1.1 hnew.1.2)
    refine ⟨hfields, fun l => ?_⟩
    rw [foldl_cons, hitems, itemsAt_extendList, append_assoc]
    by_cases hl : l = k
    · simp [hl, hls.1]
    · simp [hl]

theorem IsReport.isActivity (h : IsReport d) (hl : l ∈ activityLists) : ∀ x ∈ activitiesIn d l, IsActivity l x := by
  obtain ⟨user, fs, -, hfs, rfl⟩ := h
  exact hfs.isActivity hl

theorem IsReport.addActivities {old new : Doc} (hold : IsReport old) (hnew : IsReport new) :
    IsReport (addActivities old new) ∧ ∀ l ∈ activityLists,
      activitiesIn (addActivities old new) l = activitiesIn old l ++ activitiesIn new l := by
  obtain ⟨user, fs, huser, hfs, rfl⟩ := hold
  obtain ⟨hfields, hitems⟩ := hfs.foldl_extendList (by decide : activityLists.Nodup)
    fun l hl => ⟨hl, hnew.isActivity hl⟩
  rw [addActivities_reportDoc]
  refine ⟨⟨user, _, huser, hfields, rfl⟩, fun l hl => ?_⟩
  have hmerged := hitems l
  rwa [if_pos hl] at hmerged

/-! ## New reports -/

/-- The fields of a report before it is brought to its normal form. -/
def rawFields (items : String → List Doc) : List (String × Doc) :=
  ("main_process", .bool true) :: activityLists.map fun l => (l, .arr (items l))

theorem lookup_rawFields (items : String → List Doc) (hl : l ∈ activityLists) :
    (rawFields items).lookup l = some (.arr (items l)) := by
  simp only [activityLists, mem_cons, not_mem_nil, or_false] at hl
  obtain rfl | rfl | rfl | rfl := hl <;> rfl

/-- The activities of a new report are those that its observations show. -/
theorem isReport_normal {user : String} (huser : user ≠ "") (items : String → List Doc)
    (hitems : ∀ l ∈ activityLists, ∀ d ∈ items l, IsActivity l (normal (listShape l) d)) :
    IsReport (normal "DynamicAnalysis" (reportDoc user (rawFields items))) ∧ ∀ l ∈ activityLists,
      activitiesIn (normal "DynamicAnalysis" (reportDoc user (rawFields items))) l =
        (items l).map (normal (listShape l)) := by
  have hnodup : ((rawFields items).map Prod.fst).Nodup := by
    have hkeys : (rawFields items).map Prod.fst = "main_process" :: activityLists := by
      simp [rawFields, Function.comp_def]
    rw [hkeys]
    decide
  have hvalue : ∀ l ∈ activityLists, ∀ f, field? "ProcessActivity" l = some f → normalField f (.arr (items l)) =
        if items l = [] then none else some (.arr ((items l).map (normal (listShape l)))) := by
    intro l hl f hf
    obtain ⟨f', hf', hkind, hmany⟩ := field?_activityList hl
    obtain rfl : f' = f := Option.some.inj (hf'.symm.trans hf)
    simp [normalField, hmany, normalItems_eq hkind]
  have hfields : ActivityFields (normalFields "ProcessActivity" (rawFields items)) := by
    refine ⟨hnodup.sublist (keys_normalFields_sublist _ _), fun p hp => ?_⟩
    obtain ⟨v, f, hmem, hf, hv⟩ := exists_of_mem_normalFields hp
    rcases mem_cons.1 hmem with hmain | hmem
    · obtain ⟨hname, rfl⟩ := Prod.mk.inj hmain
      rw [hname] at hf
      obtain rfl := Option.some.inj hf
      exact .inl (Prod.ext hname (Option.some.inj hv).symm)
    · obtain ⟨l, hl, hp'⟩ := mem_map.1 hmem
      obtain ⟨rfl, rfl⟩ := Prod.mk.inj hp'
      rw [hvalue _ hl f hf] at hv
      split at hv
      · cases hv
      · next hne =>
        refine .inr ⟨hl, _, ?_, (Option.some.inj hv).symm, ?_⟩
        · simpa using hne
        · rw [forall_mem_map]
          exact hitems _ hl
  rw [normal_reportDoc huser]
  refine ⟨⟨user, _, huser, hfields.ordered, rfl⟩, fun l hl => ?_⟩
  obtain ⟨f, hf, -⟩ := field?_activityList hl
  rw [activitiesIn, activityOf_reportDoc, get?_eq_lookup, lookup_ordered hf,
    lookup_normalFields hf hnodup, lookup_rawFields items hl, Option.bind_some, hvalue l hl f hf]
  by_cases hne : items l = []
  · simp [hne, Doc.itemsOf]
  · simp [hne, Doc.itemsOf]

end Survey

namespace Alert

variable {o : Observation} {f : Findings} {d : Doc}

variable {q : String × Doc} {asRoot : Bool}

theorem listed_eq_ok_iff : (do return (r.activityList, ← activity r o) : Except Fault (String × Doc)) = .ok q ↔
      ∃ a, activity r o = .ok a ∧ q = (r.activityList, a) := by
  cases activity r o <;> simp [pure, Except.pure, eq_comm]

theorem activities_isOk_iff (f : Findings) :
    (∃ found, activities f = .ok found) ↔ ∀ p ∈ f, ∀ o ∈ p.2, ∃ a, activity p.1 o = .ok a := by
  refine (bind_isOk_iff fun _ => ⟨_, rfl⟩).trans (mapM_isOk_iff.trans (forall₂_congr fun p _ => ?_))
  exact mapM_isOk_iff.trans (forall₂_congr fun o _ => bind_isOk_iff fun _ => ⟨_, rfl⟩)

theorem mem_activities {found : List (String × Doc)} (h : activities f = .ok found) : q ∈ found ↔
      ∃ p ∈ f, ∃ o ∈ p.2, ∃ a, activity p.1 o = .ok a ∧ q = (p.1.activityList, a) := by
  obtain ⟨rows, hrows, hfound⟩ := bind_eq_ok_iff.1 h
  obtain rfl := Except.ok.inj hfound
  rw [mem_flatten]
  constructor
  · rintro ⟨row, hrow, hq⟩
    obtain ⟨p, hp, hrow⟩ := (mem_of_mapM hrows).1 hrow
    obtain ⟨o, ho, hq⟩ := (mem_of_mapM hrow).1 hq
    exact ⟨p, hp, o, ho, listed_eq_ok_iff.1 hq⟩
  · rintro ⟨p, hp, o, ho, hq⟩
    obtain ⟨row, hrow⟩ := mapM_isOk_iff.1 ⟨rows, hrows⟩ p hp
    exact ⟨row, (mem_of_mapM hrows).2 ⟨p, hp, hrow⟩, (mem_of_mapM hrow).2 ⟨o, ho, listed_eq_ok_iff.2 hq⟩⟩

theorem report_isOk_iff (asRoot : Bool) (f : Findings) :
    (∃ d, report asRoot f = .ok d) ↔ ∀ p ∈ f, ∀ o ∈ p.2, ∃ a, activity p.1 o = .ok a := by
  rw [← activities_isOk_iff]
  exact bind_isOk_iff fun _ => ⟨_, rfl⟩

theorem activitiesIn_report (hshows : ∀ p ∈ f, ∀ o ∈ p.2, p.1.shows o = true) (h : report asRoot f = .ok d) :
    Survey.IsReport d ∧ ∃ found, activities f = .ok found ∧ ∀ l ∈ activityLists, Survey.activitiesIn d l =
        ((found.filter fun p => p.1 == l).map Prod.snd).map (normal (listShape l)) := by
  obtain ⟨found, hfound, hd⟩ := bind_eq_ok_iff.1 h
  have huser : (if asRoot then "sudo" else "maloss") ≠ "" := by cases asRoot <;> decide
  obtain ⟨hreport, hlists⟩ := Survey.isReport_normal huser
    (fun l => (found.filter fun p => p.1 == l).map Prod.snd) fun l hl a ha => by
      have hmem : (l, a) ∈ found := by simpa using ha
      obtain ⟨p, hp, o, ho, a', hactivity, heq⟩ := (mem_activities hfound).1 hmem
      obtain ⟨rfl, rfl⟩ := Prod.mk.inj heq
      exact (exists_of_activity (hshows p hp o ho) hactivity).2
  have hnormal : d = normal "DynamicAnalysis" (Survey.reportDoc (if asRoot then "sudo" else "maloss")
      (Survey.rawFields fun l => (found.filter fun p => p.1 == l).map Prod.snd)) :=
    (Except.ok.inj hd).symm
  rw [hnormal]
  exact ⟨hreport, found, hfound, hlists⟩

theorem report_spec (hshows : ∀ p ∈ f, ∀ o ∈ p.2, p.1.shows o = true) (h : report asRoot f = .ok d) :
    Survey.IsReport d ∧ ∀ l ∈ activityLists, ∀ x, x ∈ Survey.activitiesIn d l ↔
      ∃ p ∈ f, ∃ o ∈ p.2, p.1.activityList = l ∧ ∃ a, activity p.1 o = .ok a ∧ x = normal (listShape l) a := by
  obtain ⟨hreport, found, hfound, hlists⟩ := activitiesIn_report hshows h
  refine ⟨hreport, fun l hl x => ?_⟩
  have hmem : ∀ a, a ∈ (found.filter fun p => p.1 == l).map Prod.snd ↔ (l, a) ∈ found := by simp
  simp only [hlists l hl, mem_map (f := normal (listShape l)), hmem, mem_activities hfound]
  constructor
  · rintro ⟨a, ⟨p, hp, o, ho, a', ha, heq⟩, rfl⟩
    obtain ⟨rfl, rfl⟩ := Prod.mk.inj heq
    exact ⟨p, hp, o, ho, rfl, a, ha, rfl⟩
  · rintro ⟨p, hp, o, ho, rfl, a, ha, rfl⟩
    exact ⟨a, ⟨p, hp, o, ho, a, ha, rfl⟩, rfl⟩

def Notice.Shows (n : Notice) (l : String) (x : Doc) : Prop :=
  ∃ o a, n.seen = some o ∧ n.rule.activityList = l ∧ activity n.rule o = .ok a ∧ x = normal (listShape l) a

theorem isPlain_of_activity (hshows : r.shows o = true) {a : Doc} (h : activity r o = .ok a) :
    ∀ d ∈ o.parts, isPlain d = true := by
  intro d hd
  obtain ⟨s, rfl⟩ := (exists_of_activity hshows h).1 d hd
  rfl

section Collected

variable {alerts : List Doc} {c : Collection} (hc : collect alerts = .ok c) {p : Run × Findings}
  (hp : p ∈ c)

include hc hp

theorem mem_notices_of_kept {q : Rule × List Observation} (hq : q ∈ p.2) (ho : o ∈ q.2) :
    ⟨p.1, q.1, some o⟩ ∈ notices alerts :=
  (covers_collect hc).kept _ _ _ ((Collection.tidy_collect hc).under_of_mem hp hq) o ho

theorem exists_kept_of_notice (hall : ∀ q ∈ p.2, ∀ o ∈ q.2, ∃ a, activity q.1 o = .ok a) {n : Notice}
    (hn : n ∈ notices alerts) (hrun : n.run = p.1) (ho : n.seen = some o) : ∃ q ∈ p.2, q.1 = n.rule ∧ o ∈ q.2 := by
  obtain ⟨xs, hxs, hany⟩ := (covers_collect hc).told n hn
  obtain ⟨y, hy, hsame⟩ := any_eq_true.1 (hany o ho)
  rw [hrun] at hxs
  have hq := (Collection.tidy_collect hc).mem_of_under hp hxs
  obtain ⟨a, ha⟩ := hall _ hq y hy
  have hshows : n.rule.shows y = true := (shows_of_mem_notices (mem_notices_of_kept hc hp hq hy) rfl :)
  obtain rfl : y = o := Observation.eq_of_same hshows (shows_of_mem_notices hn ho)
    (isPlain_of_activity hshows ha) hsame
  exact ⟨_, hq, rfl, hy⟩

theorem report_of_collect (hd : report p.1.asRoot p.2 = .ok d) : Survey.IsReport d ∧
      (∀ n ∈ notices alerts, n.run = p.1 → ∀ o, n.seen = some o → ∃ a, activity n.rule o = .ok a) ∧
      ∀ l ∈ activityLists, ∀ x, x ∈ Survey.activitiesIn d l ↔ ∃ n ∈ notices alerts, n.run = p.1 ∧ n.Shows l x := by
  have hall := (report_isOk_iff p.1.asRoot p.2).1 ⟨d, hd⟩
  obtain ⟨hreport, hlists⟩ := report_spec (fun q hq o ho =>
    shows_of_mem_notices (mem_notices_of_kept hc hp hq ho) rfl) hd
  refine ⟨hreport, fun n hn hrun o ho => ?_, fun l hl x => ?_⟩
  · obtain ⟨q, hq, hrule, hmem⟩ := exists_kept_of_notice hc hp hall hn hrun ho
    exact hrule ▸ hall q hq o hmem
  · rw [hlists l hl]
    constructor
    · rintro ⟨q, hq, o, ho, hlist, a, ha, rfl⟩
      exact ⟨_, mem_notices_of_kept hc hp hq ho, rfl, o, a, rfl, hlist, ha, rfl⟩
    · rintro ⟨n, hn, hrun, o, a, ho, hlist, ha, rfl⟩
      obtain ⟨q, hq, hrule, hmem⟩ := exists_kept_of_notice hc hp hall hn hrun ho
      rw [← hrule] at hlist ha
      exact ⟨q, hq, o, hmem, hlist, a, ha, rfl⟩

end Collected

theorem exists_run_iff {c : Collection} (hc : collect alerts = .ok c) (k : Run) :
    (∃ p ∈ c, p.1 = k) ↔ ∃ n ∈ notices alerts, n.run = k := by
  rw [← (covers_collect hc).run k, isSome_get?, Table.keys, mem_map]

end Alert

namespace Survey

open Alert (Run Notice notices activityLists)

/-! ## Saving reports -/

theorem saveRuns_cons (outdir : String) (binary : Bool) (p : Run × Alert.Findings) (c : Alert.Collection) :
    saveRuns outdir binary (p :: c) = (do
      saveRun (runFile outdir p.1) binary (← Alert.report p.1.asRoot p.2)
      saveRuns outdir binary c) := by
  simp only [saveRuns, forIn_cons, bind_assoc, pure_bind]

theorem runFile_ne_empty (outdir : String) (k : Run) : runFile outdir k ≠ "" := by
  have hfile : dynamicFile k.name k.version k.asRoot false true ≠ "" := by
    intro h
    have hlength := congrArg String.length h
    simp [dynamicFile, messageExt] at hlength
  rw [runFile, Path.join]
  split
  · exact hfile
  · split <;> simp [hfile]

def SameFile (h : Host) (outdir : String) (k k₀ : Run) : Prop :=
  h.absolutePath (runFile outdir k) = h.absolutePath (runFile outdir k₀)

variable {h h' : Host} {outdir : String} {told : Set Notice} {k₀ : Run}

theorem sameFile_congr (hpath : h'.absolutePath = h.absolutePath) (outdir : String) :
    SameFile h' outdir = SameFile h outdir := by
  funext k k'
  rw [SameFile, SameFile, hpath]

/-- At the path of a report is a report that shows what is told, if anything is. -/
def Records (here : Run → Prop) (told : Set Notice) (e : Option Entry) : Prop :=
  (e = none ∧ ∀ n ∈ told, ¬ here n.run) ∨
    ∃ saved, e = some (.file (stored false saved)) ∧ IsReport saved ∧ (∃ n ∈ told, here n.run) ∧
      ∀ l ∈ activityLists, ∀ x, x ∈ activitiesIn saved l ↔ ∃ n ∈ told, here n.run ∧ n.Shows l x

theorem absolutePath_of_runOn_saveRun {file : String} {binary : Bool}
    (hrun : (saveRun file binary new).runOn h = (.ok (), h')) : h'.absolutePath = h.absolutePath := by
  obtain ⟨saved, -, hwrite⟩ := exists_of_saveRun hrun
  obtain ⟨-, -, rfl⟩ := write_cases hwrite
  rfl

/-- Saving a report adds what it shows to its file, and to no other. -/
theorem Records.saveRun {k k₀ : Run} (hrec : Records (SameFile h outdir · k₀) told (h.entry? (runFile outdir k₀)))
    {news : Set Notice} (hnews : news.Nonempty) (hk : ∀ n ∈ news, n.run = k) (hnew : IsReport new)
    (hlists : ∀ l ∈ activityLists, ∀ x, x ∈ activitiesIn new l ↔ ∃ n ∈ news, n.Shows l x)
    (hrun : (saveRun (runFile outdir k) false new).runOn h = (.ok (), h')) :
    Records (SameFile h outdir · k₀) (told ∪ news) (h'.entry? (runFile outdir k₀)) := by
  obtain ⟨saved, hsaves, hwrite⟩ := exists_of_saveRun hrun
  rw [entry?_of_runOn_write hwrite]
  by_cases hsame : SameFile h outdir k k₀
  · have hentry : h.entry? (runFile outdir k) = h.entry? (runFile outdir k₀) := by
      simp only [Host.entry?, String.isEmpty_iff, runFile_ne_empty, if_false]
      rw [hsame]
    obtain ⟨n₀, hn₀⟩ := hnews
    have hone : ∃ n ∈ told ∪ news, SameFile h outdir n.run k₀ :=
      ⟨n₀, .inr hn₀, (hk n₀ hn₀).symm ▸ hsame⟩
    have hshows : ∀ l x, (∃ n ∈ told ∪ news, SameFile h outdir n.run k₀ ∧ n.Shows l x) ↔
        (∃ n ∈ told, SameFile h outdir n.run k₀ ∧ n.Shows l x) ∨ ∃ n ∈ news, n.Shows l x := by
      intro l x
      rw [Alert.exists_mem_union]
      refine or_congr_right (exists_congr fun n => and_congr_right fun hn => ?_)
      rw [hk n hn, and_iff_right hsame]
    rw [if_pos ⟨runFile_ne_empty outdir k₀, hsame.symm⟩]
    refine .inr ⟨saved, rfl, ?_⟩
    rcases hsaves with ⟨hnone, rfl⟩ | ⟨old, hsome, hread, rfl⟩
    · rw [hentry] at hnone
      rcases hrec with ⟨-, hnothing⟩ | ⟨prev, hprev, -⟩
      · refine ⟨hnew, hone, fun l hl x => ?_⟩
        rw [hlists l hl, hshows, or_iff_right]
        rintro ⟨n, hn, hsame, -⟩
        exact hnothing n hn hsame
      · rw [hnone] at hprev
        cases hprev
    · rw [hentry] at hsome
      rcases hrec with ⟨hnone, -⟩ | ⟨prev, hprev, hreport, -, hprevious⟩
      · exact absurd hnone hsome
      · obtain ⟨read, hmessage, hisReport, hitems⟩ := hreport.exists_message
        have hold : old = read := by
          have hrun := runOn_readMessage (hentry.trans hprev) "DynamicAnalysis"
          rw [hmessage] at hrun
          exact Except.ok.inj (congrArg Prod.fst (hread.symm.trans hrun))
        subst hold
        obtain ⟨hmerged, hlists'⟩ := hisReport.addActivities hnew
        refine ⟨hmerged, hone, fun l hl x => ?_⟩
        rw [hlists' l hl, mem_append, hitems l hl, hprevious l hl, hlists l hl, hshows]
  · rw [if_neg fun hboth => hsame hboth.2.symm]
    have hnot : ∀ n ∈ news, ¬ SameFile h outdir n.run k₀ := fun n hn => (hk n hn).symm ▸ hsame
    rcases hrec with ⟨hnone, hnothing⟩ | ⟨prev, hprev, hreport, ⟨n, hn, hn'⟩, hprevious⟩
    · refine .inl ⟨hnone, fun n hn => hn.elim (hnothing n) (hnot n)⟩
    · refine .inr ⟨prev, hprev, hreport, ⟨n, .inl hn, hn'⟩, fun l hl x => ?_⟩
      rw [hprevious l hl, Alert.exists_mem_union, or_iff_left]
      rintro ⟨n, hn, hsame, -⟩
      exact hnot n hn hsame

def aboutSome (told : Set Notice) (es : Alert.Collection) : Set Notice :=
  {n ∈ told | ∃ p ∈ es, n.run = p.1}

theorem aboutSome_nil (told : Set Notice) : aboutSome told [] = ∅ := by
  ext n
  simp [aboutSome]

theorem aboutSome_cons (told : Set Notice) (p : Run × Alert.Findings) (es : Alert.Collection) :
    aboutSome told (p :: es) = {n ∈ told | n.run = p.1} ∪ aboutSome told es := by
  ext n
  simp only [aboutSome, exists_mem_cons_iff, and_or_left, Set.mem_union, Set.mem_ofPred_eq]

theorem aboutSome_collect {c : Alert.Collection}
    (hc : Alert.collect alerts = .ok c) : aboutSome (notices alerts) c = notices alerts := by
  ext n
  refine and_iff_left_of_imp fun hn => ?_
  obtain ⟨p, hp, hrun⟩ := (Alert.exists_run_iff hc n.run).2 ⟨n, hn, rfl⟩
  exact ⟨p, hp, hrun.symm⟩

/-- Saving the reports on some runs of a stream adds what the stream tells about them. -/
theorem Records.saveRuns {c : Alert.Collection} (hc : Alert.collect alerts = .ok c)
    {es : Alert.Collection} (hes : es ⊆ c)
    (hrec : Records (SameFile h outdir · k₀) told (h.entry? (runFile outdir k₀)))
    (hrun : (saveRuns outdir false es).runOn h = (.ok (), h')) :
    h'.absolutePath = h.absolutePath ∧ (∀ p ∈ es, ∃ d, Alert.report p.1.asRoot p.2 = .ok d) ∧
      Records (SameFile h outdir · k₀) (told ∪ aboutSome (notices alerts) es) (h'.entry? (runFile outdir k₀)) := by
  induction es generalizing told h with
  | nil =>
    obtain rfl : h = h' := congrArg Prod.snd hrun
    refine ⟨rfl, by simp, ?_⟩
    rwa [aboutSome_nil, Set.union_empty]
  | cons p es ih =>
    obtain ⟨hp, hes⟩ := cons_subset.1 hes
    rw [saveRuns_cons] at hrun
    obtain ⟨d, h₁, hreport, hrun⟩ := exists_of_runOn_bind hrun
    rw [runOn_lift, Prod.mk.injEq] at hreport
    obtain ⟨hreport, rfl⟩ := hreport
    obtain ⟨⟨⟩, h₂, hsave, hrun⟩ := exists_of_runOn_bind hrun
    obtain ⟨hisReport, -, hlists⟩ := Alert.report_of_collect hc hp hreport
    have hpath := absolutePath_of_runOn_saveRun hsave
    have hnews : {n ∈ notices alerts | n.run = p.1}.Nonempty :=
      (Alert.exists_run_iff hc p.1).1 ⟨p, hp, rfl⟩
    have hstep := hrec.saveRun hnews (fun n hn => hn.2) hisReport
      (fun l hl x => by simp only [hlists l hl x, Set.mem_ofPred_eq, and_assoc]) hsave
    have hfile := sameFile_congr hpath outdir
    rw [← hfile] at hstep
    obtain ⟨hpath', hall, hrest⟩ := ih hes hstep hrun
    refine ⟨hpath'.trans hpath, forall_mem_cons.2 ⟨⟨d, hreport⟩, hall⟩, ?_⟩
    rw [aboutSome_cons, ← Set.union_assoc, ← hfile]
    exact hrest

/-- Making a client leaves the files as they are. -/
theorem runOn_forLanguage_cases (l : Language) (cacheDir : Option String) (h : Host) :
    ((Registry.Kind.ofLanguage? l).isSome = true ∧
      ∃ client h₁, (Registry.Client.forLanguage l cacheDir true).runOn h = (.ok client, h₁) ∧
        h₁.absolutePath = h.absolutePath ∧ h₁.entry? = h.entry?) ∨
    ((Registry.Kind.ofLanguage? l).isSome = false ∧
      ∃ f, (Registry.Client.forLanguage l cacheDir true).runOn h = (.error f, h)) := by
  rw [Registry.Client.forLanguage, Registry.Kind.ofLanguage]
  cases Registry.Kind.ofLanguage? l with
  | some kind => exact .inl ⟨rfl, _, _, rfl, Host.absolutePath_congr rfl rfl, rfl⟩
  | none => exact .inr ⟨rfl, _, rfl⟩

theorem stays_execute (label : String) (ws : List String) (cwd : Option String)
    (env : Option (Table String String)) (timeout : Option Int) : (execute label ws cwd env timeout).Stays := by
  have hrecord : ∀ c, (record c).Stays := by
    intro c h
    rw [record, runOn_bind (runOn_get h)]
    split <;> exact Host.absolutePath_congr rfl rfl
  refine Along.bind ?_ fun _ => along_pure _
  refine (hrecord _).bind fun _ => readsOnly_get.along.bind fun h => ?_
  refine Along.bind (fun _ => Host.absolutePath_congr rfl rfl) fun found => ?_
  split
  · exact along_pure _
  · split
    · exact along_pure _
    · exact (along_writeFiles _ _ cwd).stays.bind fun _ => along_pure _

theorem along_setUpMonitor (trace source dir : String) : (setUpMonitor trace source dir).Along Host.Changes := by
  refine (Along.forIn (fun name _ => ?_) _).bind fun _ => ?_
  · refine Along.bind ?_ fun _ => along_pure _
    exact (readsOnly_content _).along.bind fun c => along_write _ c
  · refine (readsOnly_readText _).along.bind fun env => ?_
    refine (along_write _ _).bind fun _ => ?_
    exact (readsOnly_readText _).along.bind fun composed => along_write _ _

theorem stays_watch (dir : String) : (watch dir).Stays := by
  refine (stays_execute _ _ _ _ _).bind fun _ => ?_
  have hdown : ∀ text : Option String, (do
      execute "falco alert down" ["docker-compose", "-f", "docker-compose-falco.yml", "down"] (some dir)
      removeTree dir
      pure text : Job (Option String)).Stays := fun text =>
    (stays_execute _ _ _ _ _).bind fun _ => (stays_removeTree dir).bind fun _ => along_pure text
  refine (readsOnly_exists? _).along.bind fun found => ?_
  split
  · exact (readsOnly_readText _).along.bind fun events => hdown (some events)
  · exact hdown none

theorem stays_monitor (trace source : String) : (monitor trace source).Stays := by
  refine Along.bind (Along.bind ?_ stays_watch) fun text => along_pure _
  refine Along.bind (Along.bind (fun _ => Host.absolutePath_congr rfl rfl) fun p => ?_) fun dir => ?_
  · exact (along_makeDirectories p true).stays.bind fun _ => along_pure p
  · exact (along_setUpMonitor trace source dir).stays.bind fun _ => along_pure dir

theorem stays_alertsOf (trace source progress : String) : (alertsOf trace source progress).Stays := by
  refine (stays_monitor trace source).bind fun alerts => Along.bind (fun h => ?_) fun _ => along_pure alerts
  rw [appendText, runOn_bind (runOn_lookup _ h)]
  split
  all_goals exact (along_write _ _).stays h

/-! ## The record of processed traces -/

def progressFile : String := "/tmp/interpret_trace.progress"

/-- The text at a place where more can be written. -/
def textAt : Option Entry → Option String
  | none => some ""
  | some (.file (.text s)) => some s
  | _ => none

theorem runOn_appendText {p s t : String} (hp : h.CanWrite p) (ht : textAt (h.entry? p) = some t) :
    (appendText p s).runOn h =
      (.ok (), { h with files := h.files.set (h.absolutePath p) (.file (.text (t ++ s))) }) := by
  rw [appendText, runOn_bind (runOn_lookup p h)]
  unfold textAt at ht
  split at ht
  case h_1 hnone =>
    obtain rfl := Option.some.inj ht
    rw [hnone]
    exact runOn_write hp _
  case h_2 hsome =>
    obtain rfl := Option.some.inj ht
    rw [hsome]
    exact runOn_write hp _
  case h_3 => cases ht

/-- The host with a text in the file in which traces are recorded. -/
def withProgress (h : Host) (text : String) : Host :=
  { h with files := h.files.set (h.absolutePath progressFile) (.file (.text text)) }

theorem runOn_alertsOf {trace before : String} {h g : Host}
    (hmonitor : (monitor trace "../sysdig").runOn h = (.ok alerts, g))
    (hwrite : g.CanWrite progressFile) (hbefore : textAt (g.entry? progressFile) = some before) :
    (alertsOf trace).runOn h = (.ok alerts, withProgress g (before ++ (trace ++ "\n"))) := by
  rw [alertsOf, runOn_bind hmonitor]
  exact runOn_bind (runOn_appendText hwrite hbefore) _

theorem entry?_withProgress (hwrite : h.CanWrite progressFile) (text p : String) :
    Host.entry? (withProgress h text) p =
      if p ≠ "" ∧ h.absolutePath p = h.absolutePath progressFile then some (.file (.text text))
      else h.entry? p :=
  entry?_of_runOn_write (runOn_write hwrite _) p

theorem exists_leadsTo_runFile (h : Host) (outdir : String) (k : Run) : ∃ f, Path.IsName (f ++ ".dynamic.txt") ∧
      Path.LeadsTo (h.absolutePath (runFile outdir k)) (f ++ ".dynamic.txt") := by
  have hfile : dynamicFile k.name k.version k.asRoot false true =
      versioned k.name k.version ++ sudoMark k.asRoot ++ ".dynamic.txt" := by
    rw [dynamicFile, if_pos rfl, String.append_assoc]
    rfl
  rw [runFile, hfile]
  exact h.exists_leadsTo_absolutePath outdir _ (by decide) (by decide)

theorem runFile_ne_progressFile (h : Host) (outdir : String) (k : Run) :
    h.absolutePath (runFile outdir k) ≠ h.absolutePath progressFile := by
  intro heq
  have hname : Path.IsName "interpret_trace.progress" := by constructor <;> decide
  have hprogress := h.leadsTo_absolutePath_of_leadsTo
    (.inr ⟨"/tmp", rfl⟩ : Path.LeadsTo progressFile "interpret_trace.progress") hname
  obtain ⟨f, hrun, hf⟩ := exists_leadsTo_runFile h outdir k
  rw [heq] at hf
  have hlast := congrArg (fun s : String => s.toList.getLast?) (hf.unique hprogress hrun hname)
  simp at hlast

/-- Traces are read in turn without a fault; the alerts of a trace leave a file as it is. -/
inductive ReadsAll (outdir file : String) : Host → List (List Doc) → Host → Prop where
  | done (h : Host) : ReadsAll outdir file h [] h
  | trace {h h₁ h₂ h' : Host} {trace : String} {l : Language} {cacheDir : Option String}
      {alerts : List Doc} {rest : List (List Doc)}
      (halerts : (alertsOf trace).runOn h = (.ok alerts, h₁))
      (hkeeps : h₁.entry? file = h.entry? file)
      (hread : (readMonitored trace l outdir cacheDir).runOn h = (.ok (), h₂))
      (hrest : ReadsAll outdir file h₂ rest h') : ReadsAll outdir file h (alerts :: rest) h'

/-- Reading one trace adds what its alerts tell to the reports. -/
theorem Records.readMonitored {outdir trace : String} {l : Language} {cacheDir : Option String}
    {h h₁ h' : Host} (halerts : (alertsOf trace).runOn h = (.ok alerts, h₁))
    (hkeeps : h₁.entry? (runFile outdir k₀) = h.entry? (runFile outdir k₀))
    (hrec : Records (SameFile h outdir · k₀) told (h.entry? (runFile outdir k₀)))
    (hrun : (readMonitored trace l outdir cacheDir).runOn h = (.ok (), h')) :
    h'.absolutePath = h.absolutePath ∧ (∃ c, Alert.collect alerts = .ok c) ∧
      (∀ n ∈ notices alerts, ∀ o, n.seen = some o → ∃ a, Alert.activity n.rule o = .ok a) ∧
      Records (SameFile h outdir · k₀) (told ∪ notices alerts) (h'.entry? (runFile outdir k₀)) := by
  obtain ⟨c, client, before, hc, hclient, hsave⟩ := exists_of_readMonitored halerts hrun
  obtain ⟨-, client', h₂, hclient', hpath₂, hentry⟩ | ⟨-, f, hfault⟩ :=
    runOn_forLanguage_cases l cacheDir h₁
  case inr => cases hclient.symm.trans hfault
  obtain rfl : before = h₂ := congrArg Prod.snd (hclient.symm.trans hclient')
  have hpath : before.absolutePath = h.absolutePath := by
    have hstays := stays_alertsOf trace "../sysdig" "/tmp/interpret_trace.progress" h
    rw [halerts] at hstays
    exact hpath₂.trans hstays
  have hfile := sameFile_congr hpath outdir
  rw [← hfile, ← hkeeps, ← hentry] at hrec
  obtain ⟨hpath', hall, hsaved⟩ := hrec.saveRuns hc (List.Subset.refl c) hsave
  rw [aboutSome_collect hc, hfile] at hsaved
  refine ⟨hpath'.trans hpath, ⟨c, hc⟩, fun n hn o ho => ?_, hsaved⟩
  obtain ⟨p, hp, hrun⟩ := (Alert.exists_run_iff hc n.run).2 ⟨n, hn, rfl⟩
  obtain ⟨d, hd⟩ := hall p hp
  exact (Alert.report_of_collect hc hp hd).2.1 n hn hrun.symm o ho

/-- After many traces the reports show what all their alerts tell. -/
theorem ReadsAll.records {traces : List (List Doc)} (hreads : ReadsAll outdir (runFile outdir k₀) h traces h')
    (hrec : Records (SameFile h outdir · k₀) told (h.entry? (runFile outdir k₀))) :
    (∀ alerts ∈ traces, ∃ c, Alert.collect alerts = .ok c) ∧
      (∀ n ∈ notices traces.flatten, ∀ o, n.seen = some o → ∃ a, Alert.activity n.rule o = .ok a) ∧
      Records (SameFile h outdir · k₀) (told ∪ notices traces.flatten) (h'.entry? (runFile outdir k₀)) := by
  induction hreads generalizing told with
  | done h =>
    have hempty : notices ([] : List (List Doc)).flatten = ∅ := by
      ext n
      simp [notices]
    rw [hempty, Set.union_empty]
    exact ⟨by simp, by simp, hrec⟩
  | @trace h h₁ h₂ h' trace l cacheDir alerts rest halerts hkeeps hread hrest ih =>
    obtain ⟨hpath, hok, hshown, hstep⟩ := Records.readMonitored halerts hkeeps hrec hread
    have hfile := sameFile_congr hpath outdir
    rw [← hfile] at hstep ⊢
    obtain ⟨hoks, hshowns, hall⟩ := ih hstep
    rw [flatten_cons, Alert.notices_append, ← Set.union_assoc]
    refine ⟨forall_mem_cons.2 ⟨hok, hoks⟩, ?_, hall⟩
    rintro n (hn | hn) o ho
    · exact hshown n hn o ho
    · exact hshowns n hn o ho

theorem Records.exists_found {here : Run → Prop} {e : Option Entry} (h : Records here told e) :
    ∃ found, reportAt e = .ok found ∧ (found.isSome = true ↔ ∃ n ∈ told, here n.run) ∧
      ∀ l ∈ activityLists, ∀ x, x ∈ found.elim [] (activitiesIn · l) ↔ ∃ n ∈ told, here n.run ∧ n.Shows l x := by
  rcases h with ⟨rfl, hnothing⟩ | ⟨saved, rfl, hreport, hone, hlists⟩
  · refine ⟨none, rfl, ?_, fun l hl x => ?_⟩
    · simpa using hnothing
    · simp only [Option.elim_none, not_mem_nil, false_iff]
      rintro ⟨n, hn, hhere, -⟩
      exact hnothing n hn hhere
  · obtain ⟨read, hmessage, -, hitems⟩ := hreport.exists_message
    refine ⟨some read, ?_, by simpa using hone, fun l hl x => ?_⟩
    · rw [reportAt, hmessage]
      rfl
    · rw [Option.elim_some, hitems l hl, hlists l hl]

/-- A host whose monitor raises an alert for each of two packages. -/
def twoPackageHost : Host :=
  { monitoredHost with
    rules := [{
      start := ["docker-compose", "-f", "docker-compose-falco.yml", "up"]
      files := [("events.txt", .text ("\x7b\"rule\": \"read_file\", \"output_fields\": " ++
        "\x7b\"container.name\": \"foo..1.0..d\", \"fd.name\": \"/etc/passwd\"\x7d\x7d\n" ++
        "\x7b\"rule\": \"read_file\", \"output_fields\": " ++
        "\x7b\"container.name\": \"bar..2.0..d\", \"fd.name\": \"/etc/hosts\"\x7d\x7d"))] }] }

def twoPackageAlerts : List Doc :=
  [Alert.readAlert "foo..1.0..d" (some "/etc/passwd"), Alert.readAlert "bar..2.0..d" (some "/etc/hosts")]

def fooRun : Run := ⟨"foo", some "1.0", false⟩

theorem exists_read_twoPackages : ∃ g h', (monitor "t" "../sysdig").runOn twoPackageHost = (.ok twoPackageAlerts, g) ∧
      g.CanWrite progressFile ∧ textAt (g.entry? progressFile) = some "" ∧
      g.entry? (runFile "o" fooRun) = none ∧
      (readMonitored "t" .javascript "o").runOn twoPackageHost = (.ok (), h') := by
  let events : String := "\x7b\"rule\": \"read_file\", \"output_fields\": " ++
    "\x7b\"container.name\": \"foo..1.0..d\", \"fd.name\": \"/etc/passwd\"\x7d\x7d\n" ++
    "\x7b\"rule\": \"read_file\", \"output_fields\": " ++
    "\x7b\"container.name\": \"bar..2.0..d\", \"fd.name\": \"/etc/hosts\"\x7d\x7d"
  have hevents : (some events).elim [] alertsIn = twoPackageAlerts := by
    rw [Option.elim_some, alertsIn_eq]
    simp only [events, String.toList_append]
    decide +kernel
  let g := watchedHost twoPackageHost
  have hstart : (startMonitor "t" "../sysdig").runOn twoPackageHost =
      (.ok "/w/tmp/falco-t0", startedHost twoPackageHost) := by decide +kernel
  have hwatch : (watch "/w/tmp/falco-t0").runOn (startedHost twoPackageHost) =
      (.ok (some events), g) := by decide +kernel
  have hrun := (runOn_bind hstart watch).trans hwatch
  have hlook : ((lookAndSave twoPackageAlerts).runOn g).1.toOption = some (none, none) := by decide +kernel
  obtain ⟨h', hlook⟩ := exists_runOn hlook
  obtain ⟨_, _, _, -, -, -, -, hread⟩ := exists_of_lookAndSave hrun hevents hlook
  exact ⟨g, h', hevents ▸ runOn_monitor hrun, by decide +kernel, by decide +kernel, by decide +kernel, hread⟩

end Survey

end Vetting
