import Vetting.Proofs.Document
import Vetting.Proofs.Message.Binary
import Vetting.Proofs.Message.RoundTrip
import Vetting.Proofs.Survey.RunFile
import Vetting.Survey.Traces

/-!
# Reports that are found again

The report on a package is found, and read as it was saved, just if the package and its version are traceable
and the report is kept as text.
-/

namespace Vetting

open Registry List Client Job Job.Content Message Package

namespace Survey

def stored (binary : Bool) (report : Doc) : Content :=
  if binary then .bytes (toBytes "DynamicAnalysis" report)
  else .text (toText "DynamicAnalysis" report)

/-- What is saved for a new report: its activities, after those that are there. -/
def Saves (h : Host) (file : String) (binary : Bool) (new saved : Doc) : Prop :=
  (h.entry? file = none ∧ saved = new) ∨
    ∃ old, h.entry? file ≠ none ∧ (readRun file binary).runOn h = (.ok old, h) ∧ saved = addActivities old new

variable {file : String} {binary : Bool} {new report : Doc} {findings : Alert.Findings} {alerts : List Doc} {text : Option String}

theorem Saves.eq_new {h : Host} {new saved : Doc} (hsaves : Saves h file binary new saved)
    (hfile : h.entry? file = none) : saved = new := by
  obtain ⟨-, rfl⟩ | ⟨old, hne, -⟩ := hsaves
  · rfl
  · exact absurd hfile hne

theorem readsOnly_readRun (file : String) (binary : Bool) : (readRun file binary).ReadsOnly := by
  rw [readRun]
  split
  · refine (readsOnly_readBytes file).bind fun bs => ?_
    split
    · exact readsOnly_pure _
    · exact readsOnly_fault _
  · exact readsOnly_readMessage _ _

theorem exists_of_saveRun {h h' : Host} (hrun : (saveRun file binary new).runOn h = (.ok (), h')) :
    ∃ saved, Saves h file binary new saved ∧ (write file (stored binary saved)).runOn h = (.ok (), h') := by
  have hstored : ∀ saved, (if binary then
      write file (.bytes (toBytes "DynamicAnalysis" saved))
      else writeMessage "DynamicAnalysis" file saved) = write file (stored binary saved) := by
    intro saved
    cases binary <;> rfl
  rw [saveRun, runOn_bind (runOn_exists? file h)] at hrun
  cases he : h.entry? file with
  | none =>
    rw [he] at hrun
    refine ⟨new, .inl ⟨he, rfl⟩, ?_⟩
    rw [← hstored]
    exact hrun
  | some e =>
    simp only [he, Option.isSome_some, if_true] at hrun
    obtain ⟨old, h₁, hread, hwrite⟩ := exists_of_runOn_bind hrun
    have hkeep := readsOnly_readRun file binary h
    rw [hread] at hkeep
    obtain rfl : h₁ = h := hkeep
    refine ⟨addActivities old new, .inr ⟨old, by simp [he], hread, rfl⟩, ?_⟩
    rw [← hstored]
    exact hwrite

theorem exists_of_saveRuns {outdir : String} {k : Alert.Run} {h h' : Host}
    (hrun : (saveRuns outdir binary [(k, findings)]).runOn h = (.ok (), h')) :
    ∃ new, Alert.report k.asRoot findings = .ok new ∧
      (saveRun (runFile outdir k) binary new).runOn h = (.ok (), h') := by
  rw [saveRuns] at hrun
  simp only [forIn_cons, forIn_nil, bind_assoc, pure_bind, bind_pure_unit] at hrun
  obtain ⟨new, h₁, hreport, hsave⟩ := exists_of_runOn_bind hrun
  rw [runOn_lift, Prod.mk.injEq] at hreport
  obtain ⟨hreport, rfl⟩ := hreport
  exact ⟨new, hreport, hsave⟩

theorem exists_of_readMonitored {trace : String} {l : Language} {outdir : String} {cacheDir : Option String}
    {h h₁ h' : Host} (halerts : (alertsOf trace).runOn h = (.ok alerts, h₁))
    (hrun : (readMonitored trace l outdir cacheDir binary).runOn h = (.ok (), h')) :
    ∃ c client before, Alert.collect alerts = .ok c ∧ (forLanguage l cacheDir true).runOn h₁ = (.ok client, before) ∧
      (saveRuns outdir binary c).runOn before = (.ok (), h') := by
  rw [readMonitored, runOn_bind halerts] at hrun
  obtain ⟨c, h₂, hcollect, hrun⟩ := exists_of_runOn_bind hrun
  rw [runOn_lift, Prod.mk.injEq] at hcollect
  obtain ⟨hcollect, rfl⟩ := hcollect
  obtain ⟨client, before, hclient, hrun⟩ := exists_of_runOn_bind hrun
  exact ⟨c, client, before, hcollect, hclient, hrun⟩

/-- What looking for a report gives, by what is at its path. -/
def reportAt : Option Entry → Except Fault (Option Doc)
  | none => .ok none
  | some .directory => .error (.cause .isDirectory)
  | some (.file c) => some <$> message "DynamicAnalysis" c

theorem eq_none_of_reportAt {e : Option Entry} (h : reportAt e = .ok none) : e = none := by
  rcases e with - | - | c
  · rfl
  · cases h
  · obtain ⟨d, -, hd⟩ := map_eq_ok_iff.1 h
    cases hd

theorem runOn_dynamicResult (name outdir : String) (version : Option String) (asRoot : Bool) (h : Host) :
    (dynamicResult name outdir version asRoot).runOn h =
      (reportAt (h.entry? (Path.join outdir (dynamicFile name version asRoot false false))), h) := by
  rw [dynamicResult, runOn_bind (runOn_exists? _ h)]
  rcases he : h.entry? (Path.join outdir (dynamicFile name version asRoot false false)) with - | - | c
  · rfl
  · exact runOn_bind_error (runOn_readMessage_directory he _) _
  · have hread := runOn_readMessage he "DynamicAnalysis"
    cases hm : message "DynamicAnalysis" c with
    | error f =>
      rw [hm] at hread
      simp only [reportAt, hm]
      exact runOn_bind_error hread _
    | ok d =>
      rw [hm] at hread
      simp only [reportAt, hm]
      exact runOn_bind hread _

/-- The text of a report is read as the report that was written. -/
def ReadsBack (report : Doc) : Prop :=
  ofText? "DynamicAnalysis"
    (String.ofList (Text.unifyLineEnds (toText "DynamicAnalysis" report).toList)) = some report

instance (report : Doc) : Decidable (ReadsBack report) := inferInstanceAs (Decidable (_ = _))

theorem message_stored_text (h : ReadsBack report) :
    message "DynamicAnalysis" (stored false report) = .ok report := by
  have htext : message "DynamicAnalysis" (stored false report) =
      (ofText? "DynamicAnalysis" (String.ofList (Text.unifyLineEnds (toText "DynamicAnalysis" report).toList))).elim
        (.error (.cause .badMessageText)) .ok := rfl
  rw [htext, show _ = some report from h]
  rfl

theorem message_stored_bytes (h : toBytes "DynamicAnalysis" report ≠ []) :
    ∃ f, message "DynamicAnalysis" (stored true report) = .error f := by
  rw [message, stored, if_pos rfl, text?]
  cases hs : textOfBytes? (toBytes "DynamicAnalysis" report) with
  | none => exact ⟨_, rfl⟩
  | some s =>
    simp only [Option.map_some, ofText?_toBytes_report h hs]
    exact ⟨_, rfl⟩

theorem toBytes_report_ne_nil {asRoot : Bool} (h : Alert.report asRoot findings = .ok new) :
    toBytes "DynamicAnalysis" new ≠ [] := by
  obtain ⟨found, -, h⟩ := bind_eq_ok_iff.1 h
  obtain rfl := Except.ok.inj h
  obtain ⟨f, hf, hbytes, hnormal⟩ : ∃ f, field? "DynamicAnalysis" "exe_user" = some f ∧
      fieldBytes f (.str (if asRoot then "sudo" else "maloss")) ≠ [] ∧
      normalField f (.str (if asRoot then "sudo" else "maloss")) =
        some (.str (if asRoot then "sudo" else "maloss")) := by
    cases asRoot <;> exact ⟨_, rfl, by decide +kernel, rfl⟩
  exact toBytes_ne_nil (mem_fieldsOf_normal hf hnormal _) hf hbytes

/-! ## Finding what was saved -/

section

variable {name : String} {version : Option String} {asRoot : Bool} {s outdir : String}
  {k : Alert.Run} {c : Content} {h h' : Host}
  (hs : containerFor name version (some (if asRoot then "d_sudo" else "d")) = .ok s)
  (hk : Alert.Run.ofContainer s = .ok k)
  (hwrite : (write (runFile outdir k) c).runOn h = (.ok (), h'))

include hs hk

theorem runFile_of_traceable (outdir : String) (ht : Package.Traceable name version) :
    runFile outdir k = Path.join outdir (dynamicFile name version asRoot false false) := by
  rw [runFile, (dynamicFile_eq_iff hs hk).2 ht]

theorem entry?_of_traceable (ht : Package.Traceable name version)
    (hfresh : ((dynamicResult name outdir version asRoot).runOn h).1 = .ok none) :
    h.entry? (runFile outdir k) = none := by
  rw [runOn_dynamicResult, ← runFile_of_traceable hs hk outdir ht] at hfresh
  exact eq_none_of_reportAt hfresh

include hwrite

theorem dynamicResult_of_traceable (ht : Package.Traceable name version) :
    (dynamicResult name outdir version asRoot).runOn h' = (some <$> message "DynamicAnalysis" c, h') := by
  rw [runOn_dynamicResult, ← runFile_of_traceable hs hk outdir ht, entry?_written hwrite, reportAt]

theorem dynamicResult_of_not_traceable (hv : ∀ v, version = some v → '/' ∉ v.toList)
    (ht : ¬ Package.Traceable name version) :
    ((dynamicResult name outdir version asRoot).runOn h').1 =
      ((dynamicResult name outdir version asRoot).runOn h).1 := by
  have hother : h.absolutePath (Path.join outdir (dynamicFile name version asRoot false false)) ≠
      h.absolutePath (runFile outdir k) := by
    intro heq
    refine ht ((dynamicFile_eq_iff hs hk).1 (Eq.symm ?_))
    exact h.absolutePath_join_inj outdir (isName_dynamicFile_package hv asRoot) (isName_dynamicFile_run hv hs hk) heq
  rw [runOn_dynamicResult, runOn_dynamicResult, entry?_of_runOn_write hwrite, if_neg fun hboth => hother hboth.2]

end

/-- The report on a package is found again, as it was saved, just if the package and its version are
traceable and the report is text. -/
theorem dynamicResult_readMonitored (name : String) (version : Option String) (asRoot binary : Bool)
    {s trace outdir : String} {l : Language} {cacheDir : Option String} {alerts : List Doc}
    {h h₁ h' : Host}
    (hs : Package.containerFor name version (some (if asRoot then "d_sudo" else "d")) = .ok s)
    (halerts : (alertsOf trace).runOn h = (.ok alerts, h₁))
    (hall : ∀ a ∈ alerts, Alert.containerOf? a = some s) (hne : Alert.collect alerts ≠ .ok [])
    (hrun : (readMonitored trace l outdir cacheDir binary).runOn h = (.ok (), h')) :
    ∃ k findings new saved client before,
      Alert.Run.ofContainer s = .ok k ∧ Alert.collect alerts = .ok [(k, findings)] ∧
      Alert.report k.asRoot findings = .ok new ∧
      (Client.forLanguage l cacheDir true).runOn h₁ = (.ok client, before) ∧
      Saves before (runFile outdir k) binary new saved ∧
      h'.entry? (runFile outdir k) = some (.file (stored binary saved)) ∧
      let look := Client.dynamicResult name outdir version asRoot
      (Package.Traceable name version → binary = false → ReadsBack saved → look.runOn h' = (.ok (some saved), h')) ∧
      (Package.Traceable name version → binary = true →
        Message.toBytes "DynamicAnalysis" saved ≠ [] → ∃ f, look.runOn h' = (.error f, h')) ∧
      ((∀ v, version = some v → '/' ∉ v.toList) →
        (¬ Package.Traceable name version → (look.runOn h').1 = (look.runOn before).1) ∧
        ((look.runOn before).1 = .ok none → ReadsBack saved → (look.runOn h' = (.ok (some saved), h') ↔
            Package.Traceable name version ∧ binary = false))) := by
  obtain ⟨k, hk⟩ := Package.exists_ofContainer hs
  obtain ⟨c, client, before, hcollect, hclient, hrun⟩ := exists_of_readMonitored halerts hrun
  have hone := Alert.Collection.foldlM_of_container hk hall (.inl rfl) hcollect
  obtain ⟨findings, rfl⟩ := hone.resolve_left fun hc => hne (hc ▸ hcollect)
  obtain ⟨new, hnew, hrun⟩ := exists_of_saveRuns hrun
  obtain ⟨saved, hsaves, hwrite⟩ := exists_of_saveRun hrun
  refine ⟨k, findings, new, saved, client, before, hk, hcollect, hnew, hclient, hsaves, Job.entry?_written hwrite, ?_⟩
  intro look
  have hfound := dynamicResult_of_traceable hs hk hwrite
  have htext : Package.Traceable name version → binary = false → ReadsBack saved →
      look.runOn h' = (.ok (some saved), h') := by
    rintro ht rfl hback
    rw [hfound ht, message_stored_text hback]
    rfl
  have hbytes : Package.Traceable name version → binary = true →
      Message.toBytes "DynamicAnalysis" saved ≠ [] → ∃ f, look.runOn h' = (.error f, h') := by
    rintro ht rfl hfull
    obtain ⟨f, hf⟩ := message_stored_bytes hfull
    exact ⟨f, by rw [hfound ht, hf]; rfl⟩
  refine ⟨htext, hbytes, fun hv => ?_⟩
  have hlost := dynamicResult_of_not_traceable hs hk hwrite hv
  refine ⟨hlost, fun hfresh hback => ⟨fun hlook => ?_, fun ht => htext ht.1 ht.2 hback⟩⟩
  have ht : Package.Traceable name version := by
    by_contra ht
    have := hlost ht
    rw [hlook, hfresh] at this
    cases this
  refine ⟨ht, Bool.eq_false_iff.2 fun hbinary => ?_⟩
  obtain rfl := hsaves.eq_new (entry?_of_traceable hs hk ht hfresh)
  obtain ⟨f, hf⟩ := hbytes ht hbinary (toBytes_report_ne_nil hnew)
  rw [hlook] at hf
  cases hf

/-- One alert, for a container that `foo` and a package of that name in a scope run in. -/
def monitoredHost : Host where
  root := "/w"
  cwd := "/w/run"
  files := [
    ("/tmp", .directory), ("/w/tmp", .directory), ("/w/run", .directory), ("/w/run/o", .directory),
    ("/w/sysdig", .directory), ("/w/sysdig/.env", .file (.text "")),
    ("/w/sysdig/docker-compose-falco.yml", .file (.text "")),
    ("/w/sysdig/falco.yaml", .file (.text "")),
    ("/w/sysdig/falco_rules.yaml", .file (.text "")),
    ("/w/sysdig/falco_rules.local.yaml", .file (.text ""))]
  rules := [{
    start := ["docker-compose", "-f", "docker-compose-falco.yml", "up"]
    files := [("events.txt", .text ("\x7b\"rule\": \"read_file\", \"output_fields\": " ++
      "\x7b\"container.name\": \"foo..1.0..d\", \"fd.name\": \"/etc/passwd\"\x7d\x7d"))] }]

def monitoredAlert : Doc := .obj [
  ("rule", .str "read_file"),
  ("output_fields", .obj [("container.name", .str "foo..1.0..d"), ("fd.name", .str "/etc/passwd")])]

def monitoredReport : Doc := .obj [
  ("exe_user", .str "maloss"),
  ("process_activity", .obj [
    ("main_process", .bool true),
    ("file_activities", .arr [.obj [("filepath", .str "/etc/passwd"), ("mode", .str "r")]])])]

theorem alertsIn_eq (text : String) : alertsIn text = (Text.feedLinesGo [] text.toList).filterMap Doc.parseChars := by
  have hparse : Doc.parse? ∘ String.ofList = Doc.parseChars := by
    funext cs
    simp [Doc.parse?]
  rw [alertsIn, Text.feedLines, filterMap_map, hparse]

theorem runOn_monitor {trace source : String} {h g : Host}
    (hwatch : (startMonitor trace source >>= watch).runOn h = (.ok text, g)) :
    (monitor trace source).runOn h = (.ok (text.elim [] alertsIn), g) :=
  runOn_bind hwatch _

/-! The example is followed from one host to the next. -/

def startedHost (h : Host) : Host :=
  { h with
    temporary := 1
    files := h.files ++ [
      ("/w/tmp/falco-t0", .directory),
      ("/w/tmp/falco-t0/falco_rules.local.yaml", .file (.text "")),
      ("/w/tmp/falco-t0/falco_rules.yaml", .file (.text "")),
      ("/w/tmp/falco-t0/falco.yaml", .file (.text "")),
      ("/w/tmp/falco-t0/.env", .file (.text "")),
      ("/w/tmp/falco-t0/docker-compose-falco.yml", .file (.text ""))] }

/-- A host after the monitor was taken down. -/
def watchedHost (h : Host) : Host :=
  { h with
    temporary := 1
    commandCount := 2
    log := { commands := ["up", "down"].map fun word =>
      { label := "falco alert " ++ word
        words := .list [some "docker-compose", some "-f", some "docker-compose-falco.yml", some word]
        cwd := some "/w/tmp/falco-t0" } } }

/-- Records the trace, and looks for a report right before those on some alerts are saved. -/
def lookAndSave (alerts : List Doc) : Job (Option Doc × Option Doc) := do
  appendText "/tmp/interpret_trace.progress" ("t" ++ "\n")
  let c ← Alert.collect alerts
  let _ ← forLanguage .javascript none true
  let plain ← dynamicResult "foo" "o" (some "1.0") false
  let inScope ← dynamicResult "@foo" "o" (some "1.0") false
  saveRuns "o" false c
  return (plain, inScope)

theorem exists_of_lookAndSave {plain inScope : Option Doc} {h g h' : Host}
    (hwatch : (startMonitor "t" "../sysdig" >>= watch).runOn h = (.ok text, g))
    (htext : text.elim [] alertsIn = alerts) (hrun : (lookAndSave alerts).runOn g = (.ok (plain, inScope), h')) :
    ∃ h₁ client before, (alertsOf "t").runOn h = (.ok alerts, h₁) ∧
      (forLanguage .javascript none true).runOn h₁ = (.ok client, before) ∧
      (dynamicResult "foo" "o" (some "1.0") false).runOn before = (.ok plain, before) ∧
      (dynamicResult "@foo" "o" (some "1.0") false).runOn before = (.ok inScope, before) ∧
      (readMonitored "t" .javascript "o").runOn h = (.ok (), h') := by
  obtain ⟨⟨⟩, h₁, happend, hrun⟩ := exists_of_runOn_bind hrun
  obtain ⟨c, h₂, hcollect, hrun⟩ := exists_of_runOn_bind hrun
  have hkeep : h₁ = h₂ := congrArg Prod.snd hcollect
  subst hkeep
  obtain ⟨client, before, hclient, hrun⟩ := exists_of_runOn_bind hrun
  obtain ⟨x, h₃, hx, hrun⟩ := exists_of_runOn_bind hrun
  have hkeep : before = h₃ := congrArg Prod.snd ((runOn_dynamicResult ..).symm.trans hx)
  subst hkeep
  obtain ⟨y, h₄, hy, hrun⟩ := exists_of_runOn_bind hrun
  have hkeep : before = h₄ := congrArg Prod.snd ((runOn_dynamicResult ..).symm.trans hy)
  subst hkeep
  obtain ⟨⟨⟩, h₅, hsave, hrun⟩ := exists_of_runOn_bind hrun
  cases hrun
  have halerts : (alertsOf "t").runOn h = (.ok alerts, h₁) := by
    rw [alertsOf, runOn_bind (runOn_monitor hwatch), htext]
    exact runOn_bind happend _
  refine ⟨h₁, client, before, halerts, hclient, hx, hy, ?_⟩
  rw [readMonitored, runOn_bind halerts, runOn_bind hcollect, runOn_bind hclient, hsave]

/-- The report is found for the plain package and not for the one in a scope. -/
theorem dynamicResult_readMonitored_foo : Package.containerFor "foo" (some "1.0") (some "d") = .ok "foo..1.0..d" ∧
      Package.containerFor "@foo" (some "1.0") (some "d") = .ok "foo..1.0..d" ∧
      Alert.containerOf? monitoredAlert = some "foo..1.0..d" ∧
      ∃ h₁ h', (alertsOf "t").runOn monitoredHost = (.ok [monitoredAlert], h₁) ∧
        (readMonitored "t" .javascript "o").runOn monitoredHost = (.ok (), h') ∧
        (Client.dynamicResult "foo" "o" (some "1.0") false).runOn h' = (.ok (some monitoredReport), h') ∧
        (Client.dynamicResult "@foo" "o" (some "1.0") false).runOn h' = (.ok none, h') := by
  have hplain : Package.containerFor "foo" (some "1.0") (some (if false then "d_sudo" else "d")) =
      .ok "foo..1.0..d" := rfl
  have hscope : Package.containerFor "@foo" (some "1.0") (some (if false then "d_sudo" else "d")) =
      .ok "foo..1.0..d" := rfl
  have hcontainer : Alert.containerOf? monitoredAlert = some "foo..1.0..d" := by decide +kernel
  have hall : ∀ a ∈ [monitoredAlert], Alert.containerOf? a = some "foo..1.0..d" :=
    forall_mem_singleton.2 hcontainer
  have hreports : (Alert.collect [monitoredAlert] >>= fun c =>
      c.mapM fun p => Alert.report p.1.asRoot p.2).toOption = some [monitoredReport] := by
    decide +kernel
  have hne : Alert.collect [monitoredAlert] ≠ .ok [] := by
    intro h
    rw [h] at hreports
    cases hreports
  have hback : ReadsBack monitoredReport := by
    rw [ReadsBack, monitoredReport, Message.ofText?_toText (by decide +kernel)]
    decide +kernel
  let events : String := "\x7b\"rule\": \"read_file\", \"output_fields\": " ++
    "\x7b\"container.name\": \"foo..1.0..d\", \"fd.name\": \"/etc/passwd\"\x7d\x7d"
  have hevents : (some events).elim [] alertsIn = [monitoredAlert] := by
    rw [Option.elim_some, alertsIn_eq, String.toList_append]
    decide +kernel
  have hstart : (startMonitor "t" "../sysdig").runOn monitoredHost =
      (.ok "/w/tmp/falco-t0", startedHost monitoredHost) := by decide +kernel
  have hwatch : (watch "/w/tmp/falco-t0").runOn (startedHost monitoredHost) =
      (.ok (some events), watchedHost monitoredHost) := by decide +kernel
  have hlook : ((lookAndSave [monitoredAlert]).runOn (watchedHost monitoredHost)).1.toOption =
      some (none, none) := by decide +kernel
  obtain ⟨h', hlook⟩ := Job.exists_runOn hlook
  obtain ⟨h₁, client, before, halerts, hclient, hfresh, hnone, hrun⟩ :=
    exists_of_lookAndSave ((Job.runOn_bind hstart _).trans hwatch) hevents hlook
  refine ⟨hplain, hscope, hcontainer, h₁, h', halerts, hrun, ?_, ?_⟩
  · have ht : Package.Traceable "foo" (some "1.0") := by decide +kernel
    obtain ⟨k, findings, new, saved, client', before', hk, hcollect, hnew, hclient', hsaves, -,
      hfound, -⟩ := dynamicResult_readMonitored "foo" (some "1.0") false false hplain halerts hall hne hrun
    obtain rfl : before = before' := congrArg Prod.snd (hclient.symm.trans hclient')
    have hfile : before.entry? (runFile "o" k) = none :=
      entry?_of_traceable hplain hk ht (by rw [hfresh])
    obtain rfl : saved = monitoredReport := by
      rw [hcollect, ok_bind, mapM_cons, mapM_nil, hnew, ok_bind, pure_bind] at hreports
      rw [hsaves.eq_new hfile, singleton_inj.1 (Option.some.inj hreports)]
    exact hfound ht rfl hback
  · obtain ⟨k, findings, new, saved, client', before', hk, hcollect, hnew, hclient', hsaves, -,
      -, -, hlost⟩ := dynamicResult_readMonitored "@foo" (some "1.0") false false hscope halerts hall hne hrun
    obtain rfl : before = before' := congrArg Prod.snd (hclient.symm.trans hclient')
    have hslash : ∀ v, some "1.0" = some v → '/' ∉ v.toList := by
      rintro v ⟨⟩
      decide
    have hsame := (hlost hslash).1 (by decide +kernel)
    rw [hnone] at hsame
    exact Prod.ext hsame (by rw [runOn_dynamicResult])

end Survey

end Vetting
