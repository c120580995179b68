import Vetting.Proofs.Similarity.Matrix

/-!
# Pairs of near names

A run gives the pairs of near names just if there are none because a list is empty: else it stops at the first
table, and only the header of the pairs is written.
-/

namespace Vetting

open List Host Job

namespace Host

/-- From one host to another, only files at some paths were written. -/
structure Rewrites (ps : String → Prop) (g g' : Host) : Prop where
  only : g.OnlyFiles g'
  canWrite : ∀ p, ps p → g'.CanWrite p
  other : ∀ q, (∀ p, ps p → q ≠ g.absolutePath p) → entryAt g' q = entryAt g q

namespace Rewrites

variable {ps : String → Prop} {g g' : Host}

theorem refl (hg : ∀ p, ps p → g.CanWrite p) : g.Rewrites ps g := ⟨.refl g, hg, fun _ _ => rfl⟩

variable (hg : g.Rewrites ps g')

include hg

theorem put {p : String} (hp : ps p) (s : String) : g.Rewrites ps (g'.put p s) := by
  refine ⟨hg.only.trans (.put g' p s), fun q hq => (hg.canWrite p hp).put (hg.canWrite q hq) s, fun q hq => ?_⟩
  rw [entryAt_put (hg.canWrite p hp), hg.only.absolutePath_eq, if_neg (hq p hp).symm, hg.other q hq]

theorem entry?_eq {q : String} (hq : ∀ p, ps p → g.absolutePath q ≠ g.absolutePath p) : g'.entry? q = g.entry? q := by
  rw [Host.entry?, Host.entry?, hg.only.absolutePath_eq, hg.other _ hq]

end Rewrites

end Host

namespace Similarity

variable {h : Host} {S T l : PackageList} {file : String}

theorem runOn_removeMade {d : Option String} (hd : ∀ x ∈ d, h.entry? x = some .directory) :
    ∃ h', (removeMade d).runOn h = (.ok (), h') ∧ h'.absolutePath = h.absolutePath ∧
      ∀ q, (∀ x ∈ d, ¬ h.Within q x) → h'.entry? q = h.entry? q := by
  cases d with
  | none => exact ⟨h, rfl, rfl, fun _ _ => rfl⟩
  | some d =>
    obtain ⟨h', hrun⟩ := runOn_removeTree (hd d rfl)
    exact ⟨h', hrun, (stays_removeTree d).absolutePath_eq hrun,
      fun q hq => entry?_of_runOn_removeTree hrun (hq d rfl)⟩

namespace Request

variable {q : Request} {t : Int} {p : String}

/-- Whether a run may write a table to a file. -/
def IsTable (q : Request) (f : String) : Prop := f = q.outfile ∨ ∃ s t, f = q.outFor s t

theorem isTable_outFor (q : Request) (s t : String) : q.IsTable (q.outFor s t) := .inr ⟨s, t, rfl⟩

/-- Whether some files are the parts of a list, and no table is written to them. -/
structure Parts (q : Request) (l : PackageList) (h : Host) (files : List String) : Prop where
  ne_nil : files ≠ []
  hasPart : ∀ f ∈ files, l.HasPartAt h f
  apart : ∀ f ∈ files, ∀ o, q.IsTable o → h.absolutePath f ≠ h.absolutePath o

/-- What a comparison of two lists comes to: a fault unless one of them is empty. -/
def outcome (S T : PackageList) : Except Fault Unit :=
  if S.names = [] ∨ T.names = [] then .ok () else .error (.cause .wrongType)

theorem outcome_congr {S' T' : PackageList} (hS : S'.names = [] ↔ S.names = [])
    (hT : T'.names = [] ↔ T.names = []) : outcome S' T' = outcome S T :=
  if_congr (or_congr hS hT) rfl rfl

section

variable {g g' : Host} {sources targets : List String} (hq : q.AsksPairs t p) (hS : q.Parts S g sources)
  (hT : q.Parts T g targets)

include hq hS hT

theorem runOn_compareAndPair_parts (hg : g.Rewrites q.IsTable g') {a b : String} (ha : a ∈ sources)
    (hb : b ∈ targets) :
    ∃ s, (q.compareAndPair a (some b) (q.outFor a b)).runOn g' = (outcome S T, g'.put (q.outFor a b) s) := by
  obtain ⟨A, hA, hAnames⟩ := hS.hasPart a ha
  obtain ⟨B, hB, hBnames⟩ := hT.hasPart b hb
  have hA' : A.At g' a := hA.of_entry? fun e he => by rw [hg.entry?_eq (hS.apart a ha), he]
  have hB' : B.At g' b := hB.of_entry? fun e he => by rw [hg.entry?_eq (hT.apart b hb), he]
  have htarget : targetFile a (some b) = b := by
    rw [targetFile, Option.filter_some, if_pos (by simpa using hB'.ne_empty), Option.getD_some]
  have hrun := runOn_compareAndPair hq hA' (htarget ▸ hB') (hg.canWrite _ (q.isTable_outFor a b))
  rw [← outcome_congr hAnames hBnames]
  exact ⟨_, hrun⟩

theorem runOn_compareParts (hcan : ∀ o, q.IsTable o → g.CanWrite o) :
    ∃ g', (q.compareParts sources targets).runOn g = (outcome S T, g') ∧ g.Rewrites q.IsTable g' := by
  by_cases hempty : S.names = [] ∨ T.names = []
  · have hround : ∀ a ∈ sources, ∀ g₁, g.Rewrites q.IsTable g₁ → ∃ g₂, (forIn targets ⟨⟩ fun b _ => do
          q.compareAndPair a (some b) (q.outFor a b)
          return .yield ⟨⟩ : Job PUnit).runOn g₁ = (.ok ⟨⟩, g₂) ∧ g.Rewrites q.IsTable g₂ := by
      intro a ha g₁ hg₁
      refine runOn_for_invariant (fun _ g₂ => g.Rewrites q.IsTable g₂) (fun _ b hb g₂ hg₂ => ?_) hg₁
      obtain ⟨s, hs⟩ := runOn_compareAndPair_parts hq hS hT hg₂ ha hb
      rw [outcome, if_pos hempty] at hs
      exact ⟨_, hs, hg₂.put (q.isTable_outFor a b) s⟩
    obtain ⟨g', hrun, hg'⟩ := runOn_for_invariant (fun _ g₁ => g.Rewrites q.IsTable g₁)
      (fun _ a ha g₁ hg₁ => hround a ha g₁ hg₁) (.refl hcan)
    rw [outcome, if_pos hempty]
    exact ⟨g', runOn_bind hrun _, hg'⟩
  · -- the first parts are compared, and there it ends
    obtain ⟨a, sources, rfl⟩ := exists_cons_of_ne_nil hS.ne_nil
    obtain ⟨b, targets, rfl⟩ := exists_cons_of_ne_nil hT.ne_nil
    have hrefl : g.Rewrites q.IsTable g := .refl hcan
    obtain ⟨s, hs⟩ := runOn_compareAndPair_parts hq hS hT hrefl mem_cons_self mem_cons_self
    rw [outcome, if_neg hempty] at hs ⊢
    refine ⟨_, ?_, hrefl.put (q.isTable_outFor a b) s⟩
    rw [compareParts, forIn_cons, forIn_cons]
    simp only [bind_assoc]
    rw [runOn_bind_error hs]

end

/-! ## Runs -/

/-- Whether a run may write a file: a table or the pairs. -/
def Writes (q : Request) (p f : String) : Prop := q.IsTable f ∨ f = p

/-- The lists are there, the temporary directories are not, and the files that a run writes are none of them and
can be written. -/
structure Ready (q : Request) (S T : PackageList) (p : String) (h : Host) : Prop where
  source : S.At h q.source
  target : T.At h (targetFile q.source q.target)
  temporary : h.HasTemporary
  fresh : ∀ n, h.temporary ≤ n → h.FreshAt (h.temporaryPath "edit_dist-" n)
  canWrite : ∀ f, q.Writes p f → h.CanWrite f
  notTemporary : ∀ f, q.Writes p f → ∀ n, ¬ Host.AtOrBelow (h.absolutePath f) (h.temporaryPath "edit_dist-" n)
  notList : ∀ f, q.Writes p f → ∀ l ∈ [q.source, targetFile q.source q.target], h.absolutePath l ≠ h.absolutePath f
  notPairs : ∀ f, q.IsTable f → h.absolutePath p ≠ h.absolutePath f

variable {h' : Host} {n : Nat} {f : String}

theorem Parts.filled {dir : String} {files : List String} (hl : q.Parts l h files) (hfresh : h.FreshAt dir)
    (hfilled : h.Filled dir h') : q.Parts l h' files := by
  refine ⟨hl.ne_nil, fun f hf => ?_, ?_⟩
  · obtain ⟨m, hm, hnames⟩ := hl.hasPart f hf
    exact ⟨m, hm.of_entry? fun e => (hfilled.keeps hfresh).entry?_eq, hnames⟩
  · rw [hfilled.absolutePath_eq]
    exact hl.apart

namespace Ready

variable (hr : q.Ready S T p h)

include hr

theorem put (s : String) : q.Ready S T p (h.put p s) := by
  have hp := hr.canWrite p (.inr rfl)
  have hlist : ∀ {l file}, file ∈ [q.source, targetFile q.source q.target] → PackageList.At l h file →
      PackageList.At l (h.put p s) file := fun hmem hl => hl.of_entry? fun e he => by
    rw [entry?_put_of_ne hp (hr.notList p (.inr rfl) _ hmem), he]
  refine ⟨hlist (by simp) hr.source, hlist (by simp) hr.target, hr.temporary.put hp s, ?_, ?_,
    hr.notTemporary, hr.notList, hr.notPairs⟩
  · intro n hn q hq
    rw [entryAt_put hp, if_neg, hr.fresh n hn q hq]
    rintro rfl
    exact hr.notTemporary p (.inr rfl) n hq
  · exact fun f hf => hp.put (hr.canWrite f hf) s

theorem filled (hfilled : h.Filled (h.temporaryPath "edit_dist-" h.temporary) h') : q.Ready S T p h' := by
  have hfresh := hr.fresh h.temporary le_rfl
  have hlist : ∀ {l file}, PackageList.At l h file → PackageList.At l h' file :=
    fun hl => hl.of_entry? fun e => (hfilled.keeps hfresh).entry?_eq
  refine ⟨hlist hr.source, hlist hr.target, hfilled.hasTemporary hfresh hr.temporary, ?_, ?_, ?_, ?_, ?_⟩
  · intro n hn q hq
    rw [hfilled.temporary_eq] at hn
    rw [hfilled.temporaryPath_eq] at hq
    rw [hfilled.other q (not_atOrBelow_temporaryPath hr.temporary (by decide) (by omega) hq),
      hr.fresh n (by omega) q hq]
  · exact fun f hf => hfilled.canWrite hfresh (hr.canWrite f hf) (hr.notTemporary f hf _)
  · rw [hfilled.absolutePath_eq, hfilled.temporaryPath_eq]
    exact hr.notTemporary
  · rw [hfilled.absolutePath_eq]
    exact hr.notList
  · rw [hfilled.absolutePath_eq]
    exact hr.notPairs

theorem within_iff {g : Host} (hg : g.absolutePath = h.absolutePath) (f : String) (n : Nat) :
    g.Within f (h.temporaryPath "edit_dist-" n) ↔
      Host.AtOrBelow (h.absolutePath f) (h.temporaryPath "edit_dist-" n) := by
  rw [Host.Within, hg, hr.temporary.absolutePath_temporaryPath (by decide), Host.AtOrBelow]

theorem entry?_temporaryPath {g : Host} (hg : h.Rewrites q.IsTable g)
    (hn : entryAt h (h.temporaryPath "edit_dist-" n) = some .directory) :
    g.entry? (h.temporaryPath "edit_dist-" n) = some .directory := by
  have hstart : '/' ∉ "edit_dist-".toList := by decide
  have hpath := hr.temporary.absolutePath_temporaryPath hstart n
  have hne := Path.ne_empty_of_isAbsolute (hr.temporary.plain_temporaryPath hstart n).isAbsolute
  rw [hg.entry?_eq fun o ho heq => hr.notTemporary o (.inl ho) n (.inl (by rw [← heq, hpath])),
    entry?, if_neg (by simpa using hne), hpath, hn]

/-- Two temporary directories are removed, and the pairs stay as they are. -/
theorem runOn_removeMade {g : Host} (hg : h.Rewrites q.IsTable g) {m n : Nat} (hmn : m ≠ n) {d e : Option String}
    (hd : ∀ x ∈ d, x = h.temporaryPath "edit_dist-" n ∧ entryAt h x = some .directory)
    (he : ∀ x ∈ e, x = h.temporaryPath "edit_dist-" m ∧ entryAt h x = some .directory) :
    ∃ g', (do removeMade d; removeMade e : Job Unit).runOn g = (.ok (), g') ∧ g'.entry? p = g.entry? p := by
  have hpath := hg.only.absolutePath_eq
  have hmade : ∀ k x, x = h.temporaryPath "edit_dist-" k ∧ entryAt h x = some .directory →
      g.entry? x = some .directory := by
    rintro k _ ⟨rfl, hdir⟩
    exact hr.entry?_temporaryPath hg hdir
  obtain ⟨g₁, hrun₁, hpath₁, hother₁⟩ := Similarity.runOn_removeMade fun x hx => hmade n x (hd x hx)
  have he₁ : ∀ x ∈ e, g₁.entry? x = some .directory := by
    intro x hx
    rw [hother₁ x, hmade m x (he x hx)]
    intro y hy
    rw [(hd y hy).1, (he x hx).1, hr.within_iff hpath, hr.temporary.absolutePath_temporaryPath (by decide)]
    exact not_atOrBelow_temporaryPath hr.temporary (by decide) hmn (.inl rfl)
  obtain ⟨g', hrun, -, hother⟩ := Similarity.runOn_removeMade he₁
  refine ⟨g', by rw [runOn_bind hrun₁, hrun], ?_⟩
  rw [hother p, hother₁ p]
  · intro x hx
    rw [(hd x hx).1, hr.within_iff hpath]
    exact hr.notTemporary p (.inr rfl) n
  · intro x hx
    rw [(he x hx).1, hr.within_iff (hpath₁.trans hpath)]
    exact hr.notTemporary p (.inr rfl) m

variable {batch : Int} (hbatch : 0 < batch)

include hbatch

theorem runOn_splitList (hl : l.At h file) (hfile : file ∈ [q.source, targetFile q.source q.target]) :
    ∃ d files h', (splitList file batch).runOn h = (.ok (d, files), h') ∧
      h.Filled (h.temporaryPath "edit_dist-" h.temporary) h' ∧
      (∀ dir ∈ d, dir = h.temporaryPath "edit_dist-" h.temporary) ∧ q.Parts l h' files := by
  obtain ⟨d, files, h', hrun, hfilled, hd, hne, hfiles⟩ :=
    Similarity.runOn_splitList hr.temporary (hr.fresh _ le_rfl) hl hbatch
  refine ⟨d, files, h', hrun, hfilled, hd, hne, fun f hf => (hfiles f hf).1, fun f hf o ho heq => ?_⟩
  rw [hfilled.absolutePath_eq] at heq
  rcases (hfiles f hf).2 with rfl | hin
  · exact hr.notList o (.inl ho) f hfile heq
  · exact hr.notTemporary o (.inl ho) _ (heq ▸ hin)

/-- The second list is split after the first, unless it is the first. -/
theorem runOn_splitTarget {sources : List String} (hS : q.Parts S h sources) :
    ∃ d targets h', (q.splitTarget sources batch).runOn h = (.ok (d, targets), h') ∧
      q.Ready S T p h' ∧ q.Parts S h' sources ∧ q.Parts T h' targets ∧
      h.Keeps h' ∧ ∀ x ∈ d, x = h.temporaryPath "edit_dist-" h.temporary ∧ entryAt h' x = some .directory := by
  have hfresh := hr.fresh h.temporary le_rfl
  have htarget := hr.target
  rw [splitTarget]
  cases hfilter : q.target.filter fun t => !t.isEmpty with
  | none =>
    rw [targetFile, hfilter, Option.getD_none] at htarget
    have hsame := (runOn_namesIn hr.source).symm.trans (runOn_namesIn htarget)
    have hnames : S.names = T.names := Option.some.inj (Except.ok.inj (congrArg Prod.fst hsame))
    refine ⟨none, sources, h, rfl, hr, hS, ⟨hS.ne_nil, fun f hf => ?_, hS.apart⟩, .refl h, by simp⟩
    obtain ⟨m, hm, hm'⟩ := hS.hasPart f hf
    exact ⟨m, hm, by rw [hm', hnames]⟩
  | some b =>
    have hb : targetFile q.source q.target = b := by rw [targetFile, hfilter, Option.getD_some]
    obtain ⟨d, targets, h', hrun, hfilled, hd, hT⟩ := hr.runOn_splitList hbatch (hb ▸ htarget) (by simp [hb])
    refine ⟨d, targets, h', hrun, hr.filled hfilled, hS.filled hfresh hfilled, hT, hfilled.keeps hfresh,
      fun x hx => ?_⟩
    obtain rfl := hd x hx
    exact ⟨rfl, hfilled.made⟩

theorem runOn_runInParts (hq : q.AsksPairs t p) : ∃ h', (q.runInParts batch).runOn h = (outcome S T, h') ∧
      ∀ e, h.entry? p = some e → h'.entry? p = some e := by
  obtain ⟨d₁, sources, h₁, hrun₁, hfilled₁, hd₁, hS₁⟩ := hr.runOn_splitList hbatch hr.source (by simp)
  have hr₁ := hr.filled hfilled₁
  obtain ⟨d₂, targets, h₂, hrun₂, hr₂, hS, hT, hkeeps, hd₂⟩ := hr₁.runOn_splitTarget hbatch hS₁
  obtain ⟨h₃, hrun₃, hwritten⟩ := runOn_compareParts hq hS hT fun o ho => hr₂.canWrite o (.inl ho)
  have hp₃ : ∀ e, h.entry? p = some e → h₃.entry? p = some e := by
    intro e he
    rw [hwritten.entry?_eq hr₂.notPairs]
    exact ((hfilled₁.keeps (hr.fresh _ le_rfl)).trans hkeeps).entry?_eq he
  rw [runInParts, runOn_bind hrun₁, runOn_bind hrun₂]
  by_cases hempty : S.names = [] ∨ T.names = []
  · rw [outcome, if_pos hempty] at hrun₃ ⊢
    have hd : ∀ x ∈ d₁, x = h₂.temporaryPath "edit_dist-" h.temporary ∧ entryAt h₂ x = some .directory := by
      intro x hx
      obtain rfl := hd₁ x hx
      exact ⟨by rw [hkeeps.temporaryPath_eq, hfilled₁.temporaryPath_eq], hkeeps.entryAt_eq hfilled₁.made⟩
    rw [hfilled₁.temporary_eq, ← hkeeps.temporaryPath_eq] at hd₂
    obtain ⟨h', hrun, hp⟩ := hr₂.runOn_removeMade hwritten (by omega) hd₂ hd
    exact ⟨h', by rw [← hrun]; exact runOn_bind hrun₃ _, fun e he => by rw [hp, hp₃ e he]⟩
  · rw [outcome, if_neg hempty] at hrun₃ ⊢
    exact ⟨h₃, runOn_bind_error hrun₃ _, hp₃⟩

end Ready

/-- The lines for the pairs of names that are at most so far apart. -/
def nearPairs (t : Int) (sources targets : List String) : List (List String) :=
  (sources.product targets).filterMap fun (a, b) =>
    let d := tableDistance a.toList b.toList
    if d ≤ t then some [a, b, Text.ofNat d] else none

/-- Whether a file is a list of some pairs, in any order. -/
def HoldsPairs (h : Host) (p : String) (pairs : List (List String)) : Prop :=
  ∃ lines, lines.Perm pairs ∧ h.entry? p = some (.file (.text (Sheet.written (pairColumns :: lines))))

theorem nearPairs_eq_nil {sources targets : List String} (hempty : sources = [] ∨ targets = []) (t : Int) :
    nearPairs t sources targets = [] := by
  have hproduct : sources.product targets = [] := by
    rcases hempty with rfl | rfl
    · exact nil_product _
    · exact product_nil _
  rw [nearPairs, hproduct, filterMap_nil]

theorem runOn_run (hq : q.AsksPairs t p) {batch : Int} (hbatch : q.batch = some batch) (hr : q.Ready S T p h) :
    ∃ h', q.run.runOn h = (outcome S T, h') ∧ HoldsPairs h' p [] := by
  have hp := hr.canWrite p (.inr rfl)
  have hr' := hr.put (Sheet.writeLine pairColumns)
  have hheader := entry?_put_self hp (Sheet.writeLine pairColumns)
  have hpairs : ∀ {h'}, entry? h' p = some (.file (.text (Sheet.writeLine pairColumns))) →
      HoldsPairs h' p [] := fun he => ⟨[], .nil, by rw [he, Sheet.written, Sheet.written, String.append_empty]⟩
  rw [run, hq.filter_pairFile, hbatch]
  simp only [runOn_bind (runOn_writeText hp (Sheet.writeLine pairColumns))]
  by_cases hsmall : batch ≤ 0
  · rw [if_pos hsmall]
    have hout := hr'.canWrite q.outfile (.inl (.inl rfl))
    refine ⟨_, runOn_compareAndPair hq hr'.source hr'.target hout, hpairs ?_⟩
    rw [entry?_put_of_ne hout (hr'.notPairs _ (.inl rfl)), hheader]
  · rw [if_neg hsmall]
    obtain ⟨h', hrun, hkept⟩ := hr'.runOn_runInParts (Int.not_le.1 hsmall) hq
    exact ⟨h', hrun, hpairs (hkept _ hheader)⟩

/-- A run ends without a fault just if one of its lists is empty, and then there are no pairs. Whatever
the size of its parts, it writes no pair, so that near names are never found. -/
theorem run_holdsPairs_iff (hq : q.AsksPairs t p) {batch : Int} (hbatch : q.batch = some batch)
    (hr : q.Ready S T p h) :
    ∃ r h', q.run.runOn h = (r, h') ∧ r = outcome S T ∧ HoldsPairs h' p [] ∧
      (r = .ok () ∧ HoldsPairs h' p (nearPairs t S.names T.names) ↔ S.names = [] ∨ T.names = []) := by
  obtain ⟨h', hrun, hnone⟩ := runOn_run hq hbatch hr
  refine ⟨_, h', hrun, rfl, hnone, fun hall => ?_, fun hempty => ?_⟩
  · by_contra hne
    rw [outcome, if_neg hne] at hall
    cases hall.1
  · rw [nearPairs_eq_nil hempty]
    exact ⟨if_pos hempty, hnone⟩

/-! A list of two names is compared with itself, name by name. -/

def twoNames : PackageList where
  header := ["package name"]
  rows := [["a"], ["b"]]
  nodup_header := by decide
  mem_header := by decide
  length_row := by decide
  return_notMem := by decide
  isText := by
    intro r hr
    rw [mem_pair] at hr
    rcases hr with rfl | rfl
    all_goals exact ⟨by decide +kernel, by decide +kernel, by decide +kernel, by decide +kernel, by decide +kernel⟩
  nodup_names := by decide
  notMem_names := by decide

def twoNamesHost : Host where
  root := "/r"
  cwd := "/r/tmp"
  files := [("/r/tmp", .directory), ("/r/tmp/s.csv", .file (.text "package name\na\nb\n"))]

def twoNamesRequest : Request where
  source := "s.csv"
  method := some .table
  outfile := "o.csv"
  pairFile := some "p.csv"
  batch := some 1
  threshold := some 1

theorem hasTemporary_twoNamesHost : twoNamesHost.HasTemporary := by
  have hr : Path.IsName "r" := ⟨by decide, by decide, by decide, by decide⟩
  have hancestors : ancestors "/r/tmp" = ["/r", "/r/tmp"] := by decide +kernel
  refine ⟨⟨["r"], by simp, by simpa using hr, rfl⟩, by decide +kernel, fun q hq => ?_⟩
  rw [show twoNamesHost.root ++ "/tmp" = "/r/tmp" from rfl, hancestors, mem_pair] at hq
  rcases hq with rfl | rfl
  · rfl
  · rfl

theorem absolutePath_twoNamesHost (hf : Path.IsName f) : twoNamesHost.absolutePath f = "/r/tmp" ++ "/" ++ f := by
  have ht := hasTemporary_twoNamesHost
  have htmp : Path.IsPlain "/r/tmp" := ht.plain_tmp
  have hplain : Path.IsPlain ("/r/tmp" ++ "/" ++ f) := htmp.below hf
  have hpath := ht.absolutePath_eq hplain (by rw [String.append_assoc]; exact Text.startsWith_append _ _)
  have hjoin : Path.join "/r/tmp" f = Path.join "/r/tmp" ("/r/tmp" ++ "/" ++ f) := by
    rw [htmp.join_eq hf.notMem, Path.join, if_pos hplain.isAbsolute]
  rw [← hpath, absolutePath, absolutePath, show twoNamesHost.cwd = "/r/tmp" from rfl, hjoin]

/-- The character by which the files of the host are told apart. -/
def initial (q : String) : Option Char := q.toList[7]?

theorem initial_of_entryAt {q : String} {e : Entry} (hq : entryAt twoNamesHost q = some e) :
    initial q = none ∨ initial q = some 's' := by
  have hmem : q ∈ ["/", "/r", "/r/tmp", "/r/tmp/s.csv"] := by
    by_contra hne
    simp only [mem_cons, not_mem_nil, or_false, not_or] at hne
    obtain ⟨h₁, h₂, h₃, h₄⟩ := hne
    simp [entryAt, twoNamesHost, Table.get?, h₁, h₂, Ne.symm h₃, Ne.symm h₄] at hq
  have hall : ∀ q ∈ ["/", "/r", "/r/tmp", "/r/tmp/s.csv"], initial q = none ∨ initial q = some 's' := by decide
  exact hall q hmem

theorem initial_absolutePath (hf : Path.IsName f) : initial (twoNamesHost.absolutePath f) = f.toList.head? := by
  rw [absolutePath_twoNamesHost hf, initial, String.toList_append]
  cases f.toList with
  | nil => rfl
  | cons c cs => rfl

theorem initial_of_atOrBelow {q : String} (hq : Host.AtOrBelow q (twoNamesHost.temporaryPath "edit_dist-" n)) :
    initial q = some 'e' := by
  obtain ⟨cs, hcs, -⟩ := hq.exists_append (hasTemporary_twoNamesHost.plain_temporaryPath (by decide) n)
  rw [initial, hcs, temporaryPath, temporaryName]
  simp [twoNamesHost]

theorem isName_of_isTable (hf : twoNamesRequest.IsTable f) : Path.IsName f ∧ f.toList.head? = some 'o' := by
  have hfile : ∃ s, '/' ∉ s.toList ∧ f = "o.csv" ++ s := by
    rcases hf with rfl | ⟨s, t, rfl⟩
    · exact ⟨"", by decide, rfl⟩
    · refine ⟨"." ++ Path.base s ++ "-" ++ Path.base t, by simp [Path.slash_notMem_base], ?_⟩
      simp only [outFor, String.append_assoc]
      rfl
  obtain ⟨s, hs, rfl⟩ := hfile
  have hchars : ("o.csv" ++ s).toList = 'o' :: '.' :: 'c' :: 's' :: 'v' :: s.toList := by simp
  refine ⟨⟨by simp [hs], ?_, ?_, ?_⟩, by rw [hchars, head?_cons]⟩
  all_goals
    intro heq
    rw [heq] at hchars
    simp at hchars

theorem isName_of_writes (hf : twoNamesRequest.Writes "p.csv" f) :
    Path.IsName f ∧ (f.toList.head? = some 'o' ∨ f.toList.head? = some 'p') := by
  rcases hf with hf | rfl
  · exact ⟨(isName_of_isTable hf).1, .inl (isName_of_isTable hf).2⟩
  · exact ⟨⟨by decide, by decide, by decide, by decide⟩, .inr rfl⟩

theorem initial_of_writes (hf : twoNamesRequest.Writes "p.csv" f) :
    initial (twoNamesHost.absolutePath f) = some 'o' ∨ initial (twoNamesHost.absolutePath f) = some 'p' := by
  rw [initial_absolutePath (isName_of_writes hf).1]
  exact (isName_of_writes hf).2

theorem ready_twoNamesRequest : twoNamesRequest.Ready twoNames twoNames "p.csv" twoNamesHost := by
  have hat : twoNames.At twoNamesHost "s.csv" :=
    ⟨.text "package name\na\nb\n", "package name\na\nb\n", by rfl, by rfl, [["a"], ["b"]], by decide +kernel,
      by decide⟩
  have hlist : initial (twoNamesHost.absolutePath "s.csv") = some 's' := by decide +kernel
  have hpairs : initial (twoNamesHost.absolutePath "p.csv") = some 'p' := by decide +kernel
  refine ⟨hat, hat, hasTemporary_twoNamesHost, ?_, ?_, ?_, ?_, ?_⟩
  · intro n _ q hq
    cases hentry : entryAt twoNamesHost q with
    | none => rfl
    | some e => simpa [initial_of_atOrBelow hq] using initial_of_entryAt hentry
  · intro f hf
    have hname := (isName_of_writes hf).1
    have htmp : Path.IsPlain "/r/tmp" := hasTemporary_twoNamesHost.plain_tmp
    refine ⟨hname.ne_empty, fun hdir => ?_, ?_⟩
    · rcases initial_of_writes hf with hinitial | hinitial <;> simpa [hinitial] using initial_of_entryAt hdir
    · rw [absolutePath_twoNamesHost hname, htmp.parent_below hname.notMem]
      rfl
  · intro f hf n hin
    simpa [initial_of_atOrBelow hin] using initial_of_writes hf
  · intro f hf l hl heq
    have hl : l = "s.csv" := by simpa [twoNamesRequest, targetFile] using hl
    rw [hl] at heq
    simpa [← heq, hlist] using initial_of_writes hf
  · intro f hf heq
    have hname := isName_of_isTable hf
    rw [heq, initial_absolutePath hname.1, hname.2] at hpairs
    exact absurd hpairs (by decide)

/-- Of the four near pairs of two names none is written. -/
theorem run_twoNamesRequest : twoNamesRequest.AsksPairs 1 "p.csv" ∧ twoNamesRequest.batch = some 1 ∧
      twoNamesRequest.Ready twoNames twoNames "p.csv" twoNamesHost ∧
      nearPairs 1 twoNames.names twoNames.names =
        [["a", "a", "0"], ["a", "b", "1"], ["b", "a", "1"], ["b", "b", "0"]] ∧
      ∃ h', twoNamesRequest.run.runOn twoNamesHost = (.error (.cause .wrongType), h') ∧ HoldsPairs h' "p.csv" [] := by
  have hq : twoNamesRequest.AsksPairs 1 "p.csv" := ⟨rfl, rfl, by decide, rfl, by decide⟩
  obtain ⟨r, h', hrun, hr, hnone, -⟩ := run_holdsPairs_iff hq rfl ready_twoNamesRequest
  have houtcome : outcome twoNames twoNames = .error (.cause .wrongType) := if_neg (by decide)
  exact ⟨hq, rfl, ready_twoNamesRequest, by decide +kernel, h', by rw [hrun, hr, houtcome], hnone⟩

end Request

end Similarity

end Vetting
