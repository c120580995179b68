import Vetting.Proofs.Survey.Streams

/-!
# Progress

A trace is recorded as processed at once, but reports are saved for a first part of its runs only.
-/

namespace Vetting

open List Job Prod Alert

namespace Survey

open Alert (Run Notice notices activityLists)

def recordedIn (text : String) : List String :=
  (Text.splitOn (String.ofList (Text.unifyLineEnds text.toList)) "\n").filter fun s => !s.isEmpty

/-- A text that makes one line. -/
structure IsLine (s : String) : Prop where
  ne_empty : s ≠ ""
  newline_notMem : '\n' ∉ s.toList
  return_notMem : '\r' ∉ s.toList

def WholeLines (s : String) : Prop := s = "" ∨ ∃ t, s = t ++ "\n"

theorem recordedIn_concat {s t : String} (hs : WholeLines s) (ht : IsLine t) :
    recordedIn (s ++ (t ++ "\n")) = recordedIn s ++ [t] := by
  have hline : Text.unifyLineEnds (t.toList ++ ['\n']) = t.toList ++ ['\n'] :=
    Text.unifyLineEnds_eq_self (by simp [ht.return_notMem])
  have hend : ∀ ds, Text.splitGo ['\n'] 0 [] (ds ++ ['\n']) = Text.splitGo ['\n'] 0 [] ds ++ [[]] :=
    fun ds => Text.splitGo_append not_mem_nil ds []
  rcases hs with rfl | ⟨u, rfl⟩
  · simp [recordedIn, Text.splitOn, Text.splitChars, hline, hend,
      Text.splitGo_of_notMem ht.newline_notMem, ht.ne_empty, Text.unifyLineEnds, Text.splitGo]
  · obtain ⟨ds, hds⟩ := Text.exists_unifyLineEnds_append u.toList
    have hsplit : Text.splitGo ['\n'] 0 [] (ds ++ '\n' :: (t.toList ++ ['\n'])) =
        Text.splitGo ['\n'] 0 [] ds ++ [t.toList] ++ [[]] := by
      rw [← cons_append, ← append_assoc, hend, Text.splitGo_append ht.newline_notMem]
    simp [recordedIn, Text.splitOn, Text.splitChars, hds, hline, hsplit, hend, ht.ne_empty, Text.unifyLineEnds]

variable {h h' : Host} {binary : Bool}

theorem runOn_skipped {q : TraceRequest} (hq : q.skipFile = some progressFile) {s : String}
    (hs : h.entry? progressFile = some (.file (.text s))) : q.skipped.runOn h = (.ok (recordedIn s), h) := by
  have hfilter : q.skipFile.filter (fun p => !p.isEmpty) = some progressFile := by
    rw [hq]
    rfl
  rw [TraceRequest.skipped, hfilter]
  simp only
  rw [runOn_bind (runOn_exists? progressFile h), hs, Option.isSome_some, if_pos rfl,
    runOn_bind (runOn_readText hs rfl), runOn_pure, recordedIn]

theorem eq_of_runOn_saveRun_error {file : String} {new : Doc} {f : Fault}
    (hrun : (saveRun file binary new).runOn h = (.error f, h')) : h' = h := by
  have hwrite : ∀ c, (write file c).runOn h = (.error f, h') → h' = h := by
    intro c hc
    rcases runOn_write_cases file c h with hok | ⟨g, herror⟩
    · rw [hok] at hc
      cases hc
    · rw [herror] at hc
      exact (congrArg snd hc).symm
  rw [saveRun, runOn_bind (runOn_exists? file h)] at hrun
  cases he : h.entry? file with
  | none =>
    rw [he] at hrun
    cases binary <;> exact hwrite _ hrun
  | some e =>
    simp only [he, Option.isSome_some, if_true] at hrun
    have hkeep := readsOnly_readRun file binary h
    rcases hread : (readRun file binary).runOn h with ⟨g | old, h₁⟩
    · rw [hread] at hkeep
      rw [runOn_bind_error hread] at hrun
      exact (congrArg snd hrun).symm.trans hkeep
    · rw [hread] at hkeep
      obtain rfl : h₁ = h := hkeep
      rw [runOn_bind hread] at hrun
      cases binary <;> exact hwrite _ hrun

variable {c : Alert.Collection} {r : Except Fault Unit}

theorem exists_saved {outdir : String} (hrun : (saveRuns outdir binary c).runOn h = (r, h')) :
    ∃ done rest, c = done ++ rest ∧ (saveRuns outdir binary done).runOn h = (.ok (), h') ∧
      (r = .ok () ↔ rest = []) := by
  induction c generalizing h with
  | nil =>
    obtain ⟨rfl, rfl⟩ := mk.inj hrun
    exact ⟨[], [], rfl, rfl, by simp⟩
  | cons p c ih =>
    -- the first entry that cannot be saved ends it
    have hstop : ∀ {f : Fault}, (saveRuns outdir binary (p :: c)).runOn h = (.error f, h) →
        ∃ done rest, p :: c = done ++ rest ∧ (saveRuns outdir binary done).runOn h = (.ok (), h') ∧
          (r = .ok () ↔ rest = []) := by
      intro f hf
      obtain ⟨rfl, rfl⟩ := mk.inj (hf.symm.trans hrun)
      exact ⟨[], p :: c, rfl, rfl, by simp⟩
    cases hreport : report p.1.asRoot p.2 with
    | error f =>
      refine hstop (f := f) ?_
      rw [saveRuns_cons, hreport]
      rfl
    | ok d =>
      have hlift : (liftM (report p.1.asRoot p.2) : Job Doc).runOn h = (.ok d, h) := by
        rw [hreport]
        rfl
      rcases hsave : (saveRun (runFile outdir p.1) binary d).runOn h with ⟨f | ⟨⟩, h₁⟩
      · obtain rfl := eq_of_runOn_saveRun_error hsave
        refine hstop (f := f) ?_
        rw [saveRuns_cons, runOn_bind hlift, runOn_bind_error hsave]
      · rw [saveRuns_cons, runOn_bind hlift, runOn_bind hsave] at hrun
        obtain ⟨done, rest, rfl, hdone, hr⟩ := ih hrun
        refine ⟨p :: done, rest, rfl, ?_, hr⟩
        rw [saveRuns_cons, runOn_bind hlift, runOn_bind hsave, hdone]

theorem entry?_of_runOn_saveRuns {outdir q : String} (hrun : (saveRuns outdir binary c).runOn h = (.ok (), h'))
    (hq : ∀ p ∈ c, h.absolutePath q ≠ h.absolutePath (runFile outdir p.1)) : h'.entry? q = h.entry? q := by
  induction c generalizing h with
  | nil => rw [show h' = h from (congrArg snd hrun).symm]
  | cons p c ih =>
    rw [saveRuns_cons] at hrun
    obtain ⟨d, h₁, hreport, hrun⟩ := exists_of_runOn_bind hrun
    rw [runOn_lift, mk.injEq] at hreport
    obtain ⟨-, rfl⟩ := hreport
    obtain ⟨⟨⟩, h₂, hsave, hrun⟩ := exists_of_runOn_bind hrun
    obtain ⟨hp, hc⟩ := forall_mem_cons.1 hq
    rw [ih hrun (by rwa [absolutePath_of_runOn_saveRun hsave])]
    obtain ⟨saved, -, hwrite⟩ := exists_of_saveRun hsave
    rw [entry?_of_runOn_write hwrite, if_neg fun hboth => hp hboth.2]

/-- However reading a trace ends, the reports on its first runs are saved. -/
theorem exists_saved_of_readMonitored {trace outdir : String} {l : Language} {cacheDir : Option String}
    {alerts : List Doc} {h h₁ h' : Host} (halerts : (alertsOf trace).runOn h = (.ok alerts, h₁))
    (hrun : (readMonitored trace l outdir cacheDir binary).runOn h = (r, h')) :
    ∃ done h₂, ((∃ f, collect alerts = .error f) ∧ done = [] ∨
        ∃ rest, collect alerts = .ok (done ++ rest)) ∧
      (r = .ok () ↔ collect alerts = .ok done ∧ (Registry.Kind.ofLanguage? l).isSome = true) ∧
      h₂.absolutePath = h₁.absolutePath ∧ h₂.entry? = h₁.entry? ∧
      (saveRuns outdir binary done).runOn h₂ = (.ok (), h') := by
  rw [readMonitored, runOn_bind halerts] at hrun
  cases hc : collect alerts with
  | error f =>
    rw [hc, runOn_bind_error (runOn_lift _ h₁)] at hrun
    obtain ⟨rfl, rfl⟩ := mk.inj hrun
    exact ⟨[], h₁, .inl ⟨⟨f, rfl⟩, rfl⟩, by simp, rfl, rfl, rfl⟩
  | ok c =>
    rw [hc, runOn_bind (runOn_lift _ h₁)] at hrun
    rcases runOn_forLanguage_cases l cacheDir h₁ with
      ⟨hkind, client, h₂, hclient, hpath, hentry⟩ | ⟨hkind, f, hclient⟩
    · rw [runOn_bind hclient] at hrun
      obtain ⟨done, rest, rfl, hdone, hr⟩ := exists_saved hrun
      refine ⟨done, h₂, .inr ⟨rest, rfl⟩, ?_, hpath, hentry, hdone⟩
      simp [hr, hkind]
    · rw [runOn_bind_error hclient] at hrun
      obtain ⟨rfl, rfl⟩ := mk.inj hrun
      exact ⟨[], h₁, .inr ⟨c, rfl⟩, by simp [hkind], rfl, rfl, rfl⟩

/-- Let the monitor give the alerts of a trace, where the record holds whole lines and can be written. However
reading the trace ends, the trace is recorded then, so it is left out when traces are read again. But reports
are saved on a first part of its runs only, and no other file changes. These are all runs that the alerts tell
about just if reading the trace ends without a fault. Where a report showed what had been told before, it now
shows also what the alerts tell about these runs, and nothing else. -/
theorem skipped_of_readMonitored {trace outdir before : String} {l : Language}
    {cacheDir : Option String} {binary : Bool} {alerts : List Doc} {r : Except Fault Unit}
    {h g h' : Host} (htrace : IsLine trace)
    (hmonitor : (monitor trace "../sysdig").runOn h = (.ok alerts, g))
    (hwrite : g.CanWrite progressFile) (hbefore : textAt (g.entry? progressFile) = some before)
    (hlines : WholeLines before)
    (hrun : (readMonitored trace l outdir cacheDir binary).runOn h = (r, h')) :
    (∀ q : TraceRequest, q.skipFile = some progressFile →
        q.skipped.runOn h' = (.ok (recordedIn before ++ [trace]), h')) ∧
      ∃ done : Alert.Collection, ((∃ f, Alert.collect alerts = .error f) ∧ done = [] ∨
          ∃ rest, Alert.collect alerts = .ok (done ++ rest)) ∧
        (r = .ok () ↔ Alert.collect alerts = .ok done ∧ (Registry.Kind.ofLanguage? l).isSome = true) ∧
        (r = .ok () → ∀ n ∈ notices alerts, ∃ e ∈ done, e.1 = n.run) ∧
        (∀ p, g.absolutePath p ≠ g.absolutePath progressFile →
          (∀ e ∈ done, g.absolutePath p ≠ g.absolutePath (runFile outdir e.1)) →
          h'.entry? p = g.entry? p) ∧
        (binary = false → ∀ k₀ told, Records (SameFile g outdir · k₀) told (g.entry? (runFile outdir k₀)) →
          Records (SameFile g outdir · k₀) (told ∪ aboutSome (notices alerts) done)
            (h'.entry? (runFile outdir k₀))) := by
  have halerts := runOn_alertsOf hmonitor hwrite hbefore
  obtain ⟨done, h₂, hdone, hr, hpath, hentry, hsaved⟩ := exists_saved_of_readMonitored halerts hrun
  replace hpath : h₂.absolutePath = g.absolutePath := hpath.trans (Host.absolutePath_congr rfl rfl)
  generalize hnow : before ++ (trace ++ "\n") = now at halerts hentry
  replace hentry : ∀ p, h₂.entry? p = if p ≠ "" ∧ g.absolutePath p = g.absolutePath progressFile then
      some (.file (.text now)) else g.entry? p :=
    fun p => (congrFun hentry p).trans (entry?_withProgress hwrite now p)
  have hrecord : h'.entry? progressFile = some (.file (.text now)) := by
    rw [entry?_of_runOn_saveRuns hsaved fun p _ => (runFile_ne_progressFile h₂ outdir p.1).symm, hentry,
      if_pos ⟨by decide, rfl⟩]
  refine ⟨fun q hq => ?_, done, hdone, hr, fun hok n hn => ?_, fun p hp hothers => ?_, ?_⟩
  · rw [runOn_skipped hq hrecord, ← hnow, recordedIn_concat hlines htrace]
  · exact (Alert.exists_run_iff (hr.1 hok).1 n.run).2 ⟨n, hn, rfl⟩
  · rw [entry?_of_runOn_saveRuns hsaved (by rwa [hpath]), hentry, if_neg fun hboth => hp hboth.2]
  · rintro rfl k₀ told hrec
    have hreport : h₂.entry? (runFile outdir k₀) = g.entry? (runFile outdir k₀) := by
      rw [hentry, if_neg fun hboth => runFile_ne_progressFile g outdir k₀ hboth.2]
    rw [← hreport, ← sameFile_congr hpath outdir] at hrec
    rw [← sameFile_congr hpath outdir]
    rcases hdone with ⟨-, rfl⟩ | ⟨rest, hc⟩
    · obtain rfl : h₂ = h' := congrArg Prod.snd hsaved
      rwa [aboutSome_nil, Set.union_empty]
    · exact (hrec.saveRuns hc (subset_append_left done rest) hsaved).2.2

theorem isLine_t : IsLine "t" := ⟨by decide, by decide, by decide⟩

/-- A trace may be recorded while what it tells is not saved. -/
theorem recorded_without_report : ∃ f h', (readMonitored "t" .docker "o").runOn twoPackageHost = (.error f, h') ∧
      (∀ q : TraceRequest, q.skipFile = some progressFile → q.skipped.runOn h' = (.ok ["t"], h')) ∧
      ((alertsOf "t").runOn twoPackageHost).1 = .ok twoPackageAlerts ∧
      (∃ n ∈ notices twoPackageAlerts, n.run = fooRun ∧
        n.Shows "file_activities" (.obj [("filepath", .str "/etc/passwd"), ("mode", .str "r")])) ∧
      h'.entry? (runFile "o" fooRun) = none := by
  obtain ⟨g, -, hmonitor, hwrite, hbefore, hreport, -⟩ := exists_read_twoPackages
  have halerts := runOn_alertsOf hmonitor hwrite hbefore
  obtain ⟨c, hc⟩ : ∃ c, Alert.collect twoPackageAlerts = .ok c := ⟨_, rfl⟩
  obtain ⟨hkind, -⟩ | ⟨-, f, hclient⟩ :=
    runOn_forLanguage_cases .docker none (withProgress g ("" ++ ("t" ++ "\n")))
  case inl => cases hkind
  have hrun : (readMonitored "t" .docker "o").runOn twoPackageHost =
      (.error f, withProgress g ("" ++ ("t" ++ "\n"))) := by
    rw [readMonitored, Job.runOn_bind halerts, hc, Job.runOn_bind (Job.runOn_lift _ _), Job.runOn_bind_error hclient]
  refine ⟨f, _, hrun, fun q hq => ?_, congrArg Prod.fst halerts,
    ⟨⟨fooRun, .readFile, some (.target (.str "/etc/passwd"))⟩, ⟨_, mem_cons_self, rfl⟩, rfl, _, _,
      rfl, rfl, rfl, rfl⟩, ?_⟩
  · have hrecord := entry?_withProgress hwrite ("" ++ ("t" ++ "\n")) progressFile
    rw [runOn_skipped hq (hrecord.trans (if_pos ⟨by decide, rfl⟩)), recordedIn_concat (.inl rfl) isLine_t]
    rfl
  · rw [entry?_withProgress hwrite, if_neg fun hboth => runFile_ne_progressFile g "o" _ hboth.2, hreport]

/-- The trace is recorded, and a report on its first package is saved. -/
theorem skipped_of_readMonitored_two_packages :
    ∃ g h' found, (monitor "t" "../sysdig").runOn twoPackageHost = (.ok twoPackageAlerts, g) ∧
      g.CanWrite progressFile ∧ textAt (g.entry? progressFile) = some "" ∧
      (readMonitored "t" .javascript "o").runOn twoPackageHost = (.ok (), h') ∧
      (∀ q : TraceRequest, q.skipFile = some progressFile → q.skipped.runOn h' = (.ok ["t"], h')) ∧
      reportAt (h'.entry? (runFile "o" fooRun)) = .ok (some found) := by
  obtain ⟨g, h', hmonitor, hwrite, hbefore, hreport, hread⟩ := exists_read_twoPackages
  obtain ⟨hskipped, done, -, -, hall, -, hrecords⟩ :=
    skipped_of_readMonitored isLine_t hmonitor hwrite hbefore (.inl rfl) hread
  have hnotice : ⟨fooRun, .readFile, some (.target (.str "/etc/passwd"))⟩ ∈ notices twoPackageAlerts :=
    ⟨_, mem_cons_self, rfl⟩
  obtain ⟨e, he, hrun⟩ := hall rfl _ hnotice
  obtain ⟨found, hfound, hsome, -⟩ := (hrecords rfl fooRun ∅ (.inl ⟨hreport, by simp⟩)).exists_found
  obtain ⟨found, rfl⟩ := Option.isSome_iff_exists.1 (hsome.2 ⟨_, .inr ⟨hnotice, e, he, hrun.symm⟩, rfl⟩)
  exact ⟨g, h', found, hmonitor, hwrite, hbefore, hread, hskipped, hfound⟩

end Survey

end Vetting
