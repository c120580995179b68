import Vetting.Proofs.Fault
import Vetting.Proofs.Host
import Vetting.Proofs.Listing.Formula
import Vetting.Proofs.Listing.Functions

/-!
# What written settings mean

The verdict by the settings of a sheet is what the sheet says: suspicious is to use a source together with a
sink, or a function that is both, or a dangerous one.
-/

namespace Vetting.Listing

open List Job.Content Api Message Job

open Message (Line)

/-! ## The text of settings -/

/-- The numbers of the functions of a group. -/
def idsIn (xs : List Grouped) (g : Group) : List Nat :=
  (xs.zipIdx 1).filterMap fun q => if q.1.group = g then some q.2 else none

def Form.others (f : Form) : List Group := f.groups.filter fun g => g != .sources && g != .sinks

/-- Settings for functions, which are numbered in order. -/
def Form.config (f : Form) (xs : List Grouped) : Api.Config :=
  { apis := (xs.zipIdx 1).map fun q => q.1.node q.2
    formula := formulaText (idsIn xs .sources) (idsIn xs .sinks) (f.others.map (idsIn xs)) }

theorem isPlain_of_isDigit {c : Char} (h : c.isDigit = true) : isPlain c = true := by
  simp only [isPlain, ne_eq, decide_not, Bool.and_eq_true, Bool.not_eq_true', decide_eq_false_iff_not]
  refine ⟨⟨⟨?_, ?_⟩, ?_⟩, ?_⟩ <;> rintro rfl <;> exact absurd h (by decide)

theorem isPlain_text (x : Api.Lexeme) : ∀ c ∈ x.text, isPlain c = true := by
  cases x with
  | number n =>
    exact fun c hc => isPlain_of_isDigit (Nat.isDigit_of_mem_toDigits (by decide) (by decide) hc)
  | operator op => cases op <;> exact all_eq_true.1 rfl
  | _ => exact all_eq_true.1 rfl

theorem isPlain_of_spelled {xs : List Api.Lexeme} {cs : List Char} (h : Api.Lexeme.Spelled xs cs) :
    ∀ c ∈ cs, isPlain c = true := by
  induction h with
  | nil => simp
  | space _ ih => exact forall_mem_cons.2 ⟨by decide, ih⟩
  | cons x _ _ ih => exact forall_mem_append.2 ⟨isPlain_text x, ih⟩

theorem toList_formula (first second : List Nat) (others : List (List Nat)) : (formula first second others).toList =
      Line.chars ⟨"smt_formula", .text (formulaText first second others)⟩ := by
  have hkey : "smt_formula: \"" = "smt_formula" ++ ": " ++ "\"" := by decide
  unfold formula
  rw [hkey, ← formulaText]
  simp [Line.chars, Message.Atom.chars]

theorem forall_lt_zipIdx {α : Type} {xs : List α} {n : Nat} (hn : 0 < n) :
    (∀ q ∈ xs.zipIdx 1, q.2 < n) ↔ xs.length < n := by
  have hsnd : (∀ q ∈ xs.zipIdx 1, q.2 < n) ↔ ∀ i ∈ (xs.zipIdx 1).map Prod.snd, i < n := by
    rw [forall_mem_map]
  rw [hsnd, zipIdx_map_snd]
  simp only [mem_range'_1]
  constructor
  · intro h
    rcases Nat.eq_zero_or_pos xs.length with hzero | hpos
    · omega
    · exact h xs.length (by omega)
  · intro h i hi
    omega

section Settings

variable {f : Form} {s : Sheet} {ps : List (Listed × Grouped)}
  (hs : f.functions s = ps.map fun p => .ok p.1) (hps : ∀ p ∈ ps, f.Matches p.1 p.2)

include hs hps

theorem idsOf_functions (g : Group) : idsOf g.column ((f.functions s).zipIdx 1) = idsIn (ps.map Prod.snd) g := by
  have hcolumn : ∀ p ∈ ps, (p.1.column = g.column ↔ p.2.group = g) := by
    intro p hp
    rw [← Form.column_of_group? (hps p hp).group]
    exact ⟨Group.column_injective, congrArg Group.column⟩
  rw [hs, idsOf, idsIn, zipIdx_map, zipIdx_map, filterMap_map, filterMap_map]
  refine filterMap_congr fun q hq => ?_
  simp [hcolumn q.1 (fst_mem_of_mem_zipIdx hq)]

theorem writes_settings : Writes (f.settings s)
      (settingsChars ((ps.map Prod.snd).zipIdx 1) (f.config (ps.map Prod.snd)).formula) := by
  rw [Form.settings]
  simp only [idsOf_functions hs hps, String.append_empty]
  refine Writes.append ?_ ?_
  · rw [hs, zipIdx_map, zipIdx_map, flatMap_map, map_map, flatMap_map]
    refine Writes.flatMap fun q hq => ?_
    exact writes_functionPieces (hps q.1 (fst_mem_of_mem_zipIdx hq)) q.2
  · generalize ps.map Prod.snd = xs
    have hformula := Writes.ok (formula (idsIn xs .sources) (idsIn xs .sinks) (f.others.map (idsIn xs)))
    rwa [toList_formula] at hformula

theorem message_settings (hvalid : ∀ p ∈ ps, p.2.Valid) :
    Api.Config.ofDoc <$> message "AstLookupConfig" (.text (textOf (f.settings s))) =
      if ps.length < 2 ^ 31 then .ok (f.config (ps.map Prod.snd))
      else .error (.cause .badMessageText) := by
  have htext := (writes_settings hs hps).2
  generalize hxs : ps.map Prod.snd = xs at htext ⊢
  have hlength : ps.length = xs.length := by rw [← hxs, length_map]
  have hnumbered : ∀ q ∈ xs.zipIdx 1, q.1.Valid := by
    intro q hq
    obtain ⟨p, hp, hpq⟩ := mem_map.1 (hxs ▸ fst_mem_of_mem_zipIdx hq)
    exact hpq ▸ hvalid p hp
  have hplain : ∀ c ∈ (f.config xs).formula.toList, isPlain c = true :=
    isPlain_of_spelled (spelled_formulaText _ _ _)
  have hread := ofText?_settings hnumbered hplain
  have hends := Text.unifyLineEnds_eq_self (notMem_return_settings hnumbered hplain)
  rw [message, text?, htext, hends, hlength]
  by_cases hlt : xs.length < 2 ^ 31
  · rw [if_pos ((forall_lt_zipIdx (by decide)).2 hlt)] at hread
    obtain ⟨d, hd, hconfig⟩ := Option.map_eq_some_iff.1 hread
    rw [if_pos hlt]
    simp only [hd]
    exact congrArg Except.ok hconfig
  · rw [if_neg fun h => hlt ((forall_lt_zipIdx (by decide)).1 h)] at hread
    rw [if_neg hlt]
    simp only [Option.map_eq_none_iff.1 hread]
    rfl

end Settings

/-! ## Verdicts by settings -/

section Verdict

variable (f : Form) (xs : List Grouped)

theorem forall_mem_zipIdx {p : Grouped → Prop} : (∀ q ∈ xs.zipIdx 1, p q.1) ↔ ∀ x ∈ xs, p x := by
  rw [← forall_mem_map (f := Prod.fst), zipIdx_map_fst]

theorem idsIn_eq_nil_iff (g : Group) : idsIn xs g = [] ↔ ∀ x ∈ xs, x.group ≠ g := by
  rw [idsIn, filterMap_eq_nil_iff, ← forall_mem_zipIdx]
  simp

theorem hits_usedIds (used : List String) (g : Group) : hits (usedIds (f.config xs) used) (idsIn xs g) = true ↔
      ∃ x ∈ xs, x.group = g ∧ x.fullName ∈ used := by
  have hnodup : ((xs.zipIdx 1).map Prod.snd).Nodup := by
    rw [zipIdx_map_snd]
    exact nodup_range'
  simp only [hits, any_eq_true, contains_iff_mem, idsIn, mem_filterMap, usedIds, Form.config, mem_map, mem_filter]
  constructor
  · rintro ⟨i, ⟨q, hq, hi⟩, n, ⟨⟨q', hq', rfl⟩, hused⟩, hid⟩
    obtain ⟨hg, rfl⟩ : q.1.group = g ∧ q.2 = i := by simpa using hi
    -- no number is given twice
    have hsame : q' = q := inj_on_of_nodup_map hnodup hq' hq (Int.ofNat.inj hid)
    exact ⟨q.1, fst_mem_of_mem_zipIdx hq, hg, hsame ▸ hused⟩
  · rintro ⟨x, hx, hg, hused⟩
    rw [← zipIdx_map_fst 1 xs] at hx
    obtain ⟨q, hq, rfl⟩ := mem_map.1 hx
    exact ⟨q.2, ⟨q, hq, by simp [hg]⟩, q.1.node q.2, ⟨⟨q, hq, rfl⟩, hused⟩, rfl⟩

end Verdict

namespace Dotted

open Api (Report)

theorem others_form : form.others = [.sourceSinks, .dangers] := rfl

theorem empty_mem_groups (xs : List Grouped) :
    [] ∈ idsIn xs .sources :: idsIn xs .sinks :: form.others.map (idsIn xs) ↔ ∃ g, ∀ x ∈ xs, x.group ≠ g := by
  simp only [others_form, map_cons, map_nil, mem_cons, not_mem_nil, or_false, @eq_comm _ [], idsIn_eq_nil_iff]
  constructor
  · rintro (h | h | h | h) <;> exact ⟨_, h⟩
  · rintro ⟨g, hg⟩
    cases g <;> tauto

def Uses (s : Sheet) (rs : List Report) (g : Group) : Prop :=
  ∃ name, Lists s g name ∧ ∃ r ∈ rs, name ∈ r.usedNames

/-- Reports use a source and a sink, or a function that is both, or a dangerous one. -/
def Suspicious (s : Sheet) (rs : List Report) : Prop :=
  Uses s rs .sources ∧ Uses s rs .sinks ∨ Uses s rs .sourceSinks ∨ Uses s rs .dangers

section Sheet

variable {s : Sheet} {xs : List Grouped}
  (hlists : ∀ g name, Lists s g name ↔ ∃ x ∈ xs, x.group = g ∧ x.fullName = name)

include hlists

theorem uses_iff (rs : List Report) (g : Group) :
    Uses s rs g ↔ ∃ x ∈ xs, x.group = g ∧ x.fullName ∈ rs.flatMap Report.usedNames := by
  simp only [Uses, hlists, mem_flatMap]
  constructor
  · rintro ⟨_, ⟨x, hx, hg, rfl⟩, hused⟩
    exact ⟨x, hx, hg, hused⟩
  · rintro ⟨x, hx, hg, hused⟩
    exact ⟨x.fullName, ⟨x, hx, hg, rfl⟩, hused⟩

theorem exists_empty_iff : (∃ g, ∀ name, ¬ Lists s g name) ↔ ∃ g, ∀ x ∈ xs, x.group ≠ g := by
  refine exists_congr fun g => ?_
  simp only [hlists]
  constructor
  · intro h x hx hg
    exact h x.fullName ⟨x, hx, hg, rfl⟩
  · rintro h name ⟨x, hx, hg, -⟩
    exact h x hx hg

theorem verdictWith_config {rs : List Report} (hrs : ∀ r ∈ rs, r.NamesInFull) : ((∀ g, ∃ name, Lists s g name) →
      ∃ b, verdictWith (form.config xs) rs = .ok (.bool b) ∧ (b = true ↔ Suspicious s rs)) ∧
    ((∃ g, ∀ name, ¬ Lists s g name) → verdictWith (form.config xs) rs = .error (.cause .wrongType)) := by
  have hvalue : verdictWith (form.config xs) rs =
      evalText (usedIds (form.config xs) (rs.flatMap Report.usedNames)) (form.config xs).formula := by
    rw [verdictWith, usedInAll_eq hrs, ok_bind]
  have hformula := evalText_formulaText (usedIds (form.config xs) (rs.flatMap Report.usedNames))
    (idsIn xs .sources) (idsIn xs .sinks) (form.others.map (idsIn xs))
  constructor
  · intro hall
    have hfull : [] ∉ idsIn xs .sources :: idsIn xs .sinks :: form.others.map (idsIn xs) := by
      rw [empty_mem_groups, ← exists_empty_iff hlists]
      rintro ⟨g, hg⟩
      obtain ⟨name, hname⟩ := hall g
      exact hg name hname
    refine ⟨_, hvalue.trans (hformula.trans (if_neg hfull)), ?_⟩
    simp only [formulaValue, others_form, map_cons, map_nil, any_cons, any_nil,
      Bool.or_false, Bool.or_eq_true, Bool.and_eq_true, hits_usedIds, Suspicious, uses_iff hlists]
  · intro hnone
    exact hvalue.trans (hformula.trans (if_pos ((empty_mem_groups xs).2 ((exists_empty_iff hlists).1 hnone))))

end Sheet

end Dotted

section Pieces

variable {path : String} {ps : List Piece} {h h' : Host}

theorem exists_runOn_writePieces (hps : haltOf ps = none) (hpath : h.CanWrite path) :
    ∃ h', (writePieces path ps).runOn h = (.ok (), h') := by
  rw [writePieces, writeText, runOn_bind (runOn_write hpath _), hps]
  exact ⟨_, rfl⟩

theorem entry?_of_runOn_writePieces (hrun : (writePieces path ps).runOn h = (.ok (), h')) :
    haltOf ps = none ∧ h'.entry? path = some (.file (.text (textOf ps))) := by
  rw [writePieces] at hrun
  obtain ⟨_, h₁, hwrite, hrest⟩ := exists_of_runOn_bind hrun
  cases hps : haltOf ps with
  | some e =>
    simp only [hps, stopFor] at hrest
    obtain ⟨_, _, -, hstop⟩ := exists_of_runOn_bind hrest
    cases hstop
  | none =>
    simp only [hps] at hrest
    obtain rfl : h₁ = h' := congrArg Prod.snd hrest
    exact ⟨rfl, entry?_written hwrite⟩

end Pieces

theorem runOn_verdictOf {rs : List Api.Report} (hrs : rs ≠ []) {host : Host} {path : String}
    {c : Content} (hc : host.entry? path = some (.file c)) :
    (Analysis.verdictOf rs (some path)).runOn host =
      (Api.Config.ofDoc <$> message "AstLookupConfig" c >>= fun config =>
        verdictWith config rs, host) := by
  have hpath : path.isEmpty = false := by
    rw [Bool.eq_false_iff]
    intro hempty
    simp [Host.entry?, hempty] at hc
  have hread := runOn_readMessage hc "AstLookupConfig"
  simp only [Analysis.verdictOf, Option.filter, hpath, Bool.not_false, if_true,
    isEmpty_eq_false_iff.2 hrs, Bool.false_eq_true, if_false]
  rw [Analysis.readConfig, bind_assoc]
  cases hmessage : message "AstLookupConfig" c with
  | error e =>
    rw [hmessage] at hread
    exact runOn_bind_error hread _
  | ok d =>
    rw [hmessage] at hread
    exact runOn_bind hread _

namespace Dotted

open Api (Report)

/-- The settings of a clean sheet are written to the end just if it is complete. By these, wherever the file is,
reports with full names get the verdict that the sheet gives. If it lists no function of some group, or more
functions than the field for their numbers can tell apart, every verdict fails. -/
theorem verdictOf_writeSettings {h : Host} {c : Content} {s : Sheet}
    (hfile : h.entry? "sensitive_apis.csv" = some (.file c))
    (hs : (Job.Content.text? c).map Sheet.ofText = some s) (hclean : Clean s)
    (htarget : h.CanWrite "../astgen_python_smt.config") :
    ((∃ h', writeSettings.runOn h = (.ok (), h')) ↔ Complete s) ∧
    ∀ h', writeSettings.runOn h = (.ok (), h') → ∀ (host : Host) (path : String),
      host.entry? path = h'.entry? "../astgen_python_smt.config" →
      ∀ rs : List Report, rs ≠ [] → (∀ r ∈ rs, r.NamesInFull) →
        let verdict := (Analysis.verdictOf rs (some path)).runOn host
        ((form.functions s).length < 2 ^ 31 → ((∀ g, ∃ name, Lists s g name) →
            ∃ b, verdict = (.ok (.bool b), host) ∧ (b = true ↔ Suspicious s rs)) ∧
          ((∃ g, ∀ name, ¬ Lists s g name) → verdict = (.error (.cause .wrongType), host))) ∧
        (2 ^ 31 ≤ (form.functions s).length → verdict = (.error (.cause .badMessageText), host)) := by
  obtain ⟨text, htext, rfl⟩ := Option.map_eq_some_iff.1 hs
  rw [writeSettings, Form.writeSettings, Job.runOn_bind (Job.runOn_readText hfile htext)]
  constructor
  · constructor
    · rintro ⟨h', hrun⟩
      exact complete_of_haltOf (entry?_of_runOn_writePieces hrun).1
    · intro hcomplete
      obtain ⟨ps, hfunctions, hps, -⟩ := exists_functions hclean hcomplete
      have hwrites := writes_settings hfunctions fun p hp => (hps p hp).1
      exact exists_runOn_writePieces hwrites.1 htarget
  intro h' hrun host path hhost rs hne hrs
  obtain ⟨hhalt, hentry⟩ := entry?_of_runOn_writePieces hrun
  obtain ⟨ps, hfunctions, hps, hlists⟩ := exists_functions hclean (complete_of_haltOf hhalt)
  have hconfig := message_settings hfunctions (fun p hp => (hps p hp).1) fun p hp => (hps p hp).2
  have hverdict := runOn_verdictOf hne (hhost.trans hentry)
  obtain ⟨hall, hnone⟩ := verdictWith_config hlists hrs
  simp only [hverdict, hconfig, hfunctions, length_map]
  refine ⟨fun hlt => ?_, fun hge => ?_⟩
  · rw [if_pos hlt]
    refine ⟨fun hlisted => ?_, fun hempty => congrArg (·, host) (hnone hempty)⟩
    obtain ⟨b, hb, hiff⟩ := hall hlisted
    exact ⟨b, congrArg (·, host) hb, hiff⟩
  · rw [if_neg (by omega), error_bind]

/-- Of a sheet with a function in each group, one report uses the source and another the sink. -/
theorem verdictOf_writeSettings_two_reports :
    let text := "Sources,SourceType,Sinks,SinkType," ++ "SourceSinks,SourceSinkType,Dangers,DangerType\n"
      ++ "os.getenv,SOURCE_FILE,f.send(x),SINK_LOG," ++ "f,SOURCE_NFC,eval,SINK_LOG\n"
    let host : Host :=
      { root := "/w", cwd := "/w/api"
        files := [("/w/api", .directory), ("/w/api/sensitive_apis.csv", .file (.text text))] }
    let first : Report := { packages := [{ uses := [{ fullName := "os.getenv" }] }] }
    let second : Report := { packages := [{ uses := [{ fullName := "f.send" }] }] }
    ∃ h', writeSettings.runOn host = (.ok (), h') ∧
      (Analysis.verdictOf [first, second] (some "../astgen_python_smt.config")).runOn h' =
        (.ok (.bool true), h') := by
  intro text host first second
  let s : Sheet :=
    { header := some ["Sources", "SourceType", "Sinks", "SinkType", "SourceSinks", "SourceSinkType",
        "Dangers", "DangerType"]
      rows := [{ cells := [("Sources", some "os.getenv"), ("SourceType", some "SOURCE_FILE"),
        ("Sinks", some "f.send(x)"), ("SinkType", some "SINK_LOG"), ("SourceSinks", some "f"),
        ("SourceSinkType", some "SOURCE_NFC"), ("Dangers", some "eval"),
        ("DangerType", some "SINK_LOG")] }] }
  have hsheet : (Job.Content.text? (.text text)).map Sheet.ofText = some s := by
    simp only [Job.Content.text?, Option.map_some, Sheet.ofText, Sheet.lines, String.toList_ofList,
      text, String.toList_append]
    decide +kernel
  have hfile : host.entry? "sensitive_apis.csv" = some (.file (.text text)) := by decide +kernel
  have htarget : host.CanWrite "../astgen_python_smt.config" := by decide +kernel
  have hclean : Clean s := by decide +kernel
  have hcomplete : Complete s := by decide +kernel
  have hfew : (form.functions s).length < 2 ^ 31 := by decide +kernel
  have hlists : Lists s .sources "os.getenv" ∧ Lists s .sinks "f.send" ∧ Lists s .sourceSinks "f" ∧
      Lists s .dangers "eval" := by decide +kernel
  obtain ⟨hsource, hsink, hboth, hdanger⟩ := hlists
  have hall : ∀ g, ∃ name, Lists s g name := by
    intro g
    cases g <;> exact ⟨_, by assumption⟩
  have hsuspicious : Suspicious s [first, second] :=
    .inl ⟨⟨_, hsource, first, by simp, by decide⟩, ⟨_, hsink, second, by simp, by decide⟩⟩
  obtain ⟨hwritten, hverdict⟩ := verdictOf_writeSettings hfile hsheet hclean htarget
  obtain ⟨h', hrun⟩ := hwritten.2 hcomplete
  obtain ⟨b, hb, hiff⟩ :=
    ((hverdict h' hrun h' _ rfl [first, second] (by simp) (by decide)).1 hfew).1 hall
  exact ⟨h', hrun, by rw [hb, hiff.2 hsuspicious]⟩

end Dotted

end Vetting.Listing
