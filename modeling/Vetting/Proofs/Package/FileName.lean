import Vetting.Proofs.Package.Name

/-!
# Names of files tell what is in them

A package's name in files and a version have no colon, so that the colons of a file's name show where its
parts begin; and of all endings only that of traces ends another one.
-/

namespace Vetting.Package

open List FileKind

/-! ## The parts of a file name -/

theorem fileName_fileName (cs : List Char) : fileName (fileName cs) = fileName cs := by
  rw [fileName_eq_dotInvalid (fileName cs)]
  exact dotInvalid_eq_self isNameChar_of_mem_dotInvalid

theorem dropExt_strace {cs : List Char} (hslash : '/' ∉ cs) (hcolon : ':' ∈ cs) :
    dropExt (cs ++ ".strace".toList) = cs := by
  have hbase : (cs ++ ".strace".toList).reverse.takeWhile (· != '/') = (cs ++ ".strace".toList).reverse := by
    rw [takeWhile_eq_self_iff]
    intro c hc
    rw [mem_reverse, mem_append] at hc
    refine bne_iff_ne.2 ?_
    rintro rfl
    exact hc.elim hslash (by decide)
  have hcut : Text.cutLast '.' (cs ++ ".strace".toList) = some (cs, "strace".toList) :=
    Text.cutLast_append_cons (by decide) cs
  have hdots : cs.all (· = '.') = false := by
    rw [all_eq_false]
    exact ⟨':', hcolon, by decide⟩
  simp only [dropExt, hbase, reverse_reverse, hcut, hdots]
  simp

variable {k k' : FileKind}

namespace FileKind

instance : Fintype FileKind :=
  .ofList [.trace, .traceDep, .versions, .versionHashes, .compareVersions, .metadata, .dep, .flattenDep,
    .astgen, .astfilter, .taint, .danger, .static, .result, .dynamic, .concolic]
    (by intro k; cases k <;> simp)

/-- The kind under whose name a file is kept: exploring shares it with running. -/
def stored : FileKind → FileKind
  | .concolic => .dynamic
  | k => k

def hasVersion : FileKind → Bool
  | .versions | .versionHashes | .compareVersions => false
  | _ => true

/-- Whether the files of runs with the rights of the administrator are kept apart. -/
def hasRights : FileKind → Bool
  | .trace | .traceDep | .metadata | .dep | .flattenDep | .dynamic | .concolic => true
  | _ => false

/-- Whether there is a form in text and one in bytes. -/
def hasForm : FileKind → Bool
  | .astgen | .astfilter | .taint | .danger | .static | .result | .dynamic | .concolic => true
  | _ => false

/-- What the names of all files of a kind and form end in. -/
def ending (k : FileKind) (binary : Bool) : List Char :=
  match k with
  | .trace => ".strace".toList
  | .traceDep => ".dep.strace".toList
  | .versions => ".versions.json".toList
  | .versionHashes => ".version2hash.json".toList
  | .compareVersions => ".compare_versions.json".toList
  | .metadata => ".metadata.json".toList
  | .dep => ".dep.json".toList
  | .flattenDep => ".flatten_dep.json".toList
  | .astgen => ".astgen.".toList ++ (messageExt binary).toList
  | .astfilter => ".astfilter.".toList ++ (messageExt binary).toList
  | .taint => ".taint.".toList ++ (messageExt binary).toList
  | .danger => ".danger.".toList ++ (messageExt binary).toList
  | .static => ".static.".toList ++ (messageExt binary).toList
  | .result => ".result.".toList ++ (messageExt binary).toList
  | .dynamic | .concolic => ".dynamic.".toList ++ (messageExt binary).toList

/-- What stands before the ending: the version and the rights, where they count. -/
def middle (k : FileKind) (r : FileRequest) : List Char :=
  if k.hasVersion then
    ':' :: ((versionLabel r.version).toList ++ if k.hasRights then (sudoMark r.asRoot).toList else [])
  else []

theorem middle_eq {r r' : FileRequest} (hversion : k.hasVersion = true → r.version = r'.version)
    (hrights : k.hasRights = true → r.asRoot = r'.asRoot) : k.middle r = k.middle r' := by
  rw [middle, middle]
  by_cases hv : k.hasVersion = true
  · by_cases hr : k.hasRights = true
    · rw [hversion hv, hrights hr]
    · rw [hversion hv, if_neg hr, if_neg hr]
  · rw [if_neg hv, if_neg hv]

theorem ending_cases : ∀ (k k' : FileKind) (b b' : Bool), k.ending b <:+ k'.ending b' →
    (k.stored = k'.stored ∧ (k.hasForm = true → b = b')) ∨ (k = .trace ∧ k' = .traceDep) := by
  decide +kernel

theorem ending_congr : ∀ (k k' : FileKind) (b b' : Bool), k.stored = k'.stored →
    (k.hasForm = true → b = b') → k.ending b = k'.ending b' := by
  decide +kernel

theorem has_congr : ∀ k k' : FileKind, k.stored = k'.stored →
    k.hasVersion = k'.hasVersion ∧ k.hasRights = k'.hasRights ∧ k.hasForm = k'.hasForm := by
  decide +kernel

theorem hasVersion_of_hasRights : ∀ k : FileKind, k.hasRights = true → k.hasVersion = true := by
  decide

theorem middle_congr (h : k.stored = k'.stored) (r : FileRequest) : k.middle r = k'.middle r := by
  obtain ⟨hversion, hrights, -⟩ := has_congr k k' h
  rw [middle, middle, hversion, hrights]

end FileKind

/-- A usual request, whose version is not mistaken for another part of a file name. -/
structure FileRequest.IsUsual (r : FileRequest) : Prop where
  format : r.format = some "json"
  sanitized : r.sanitized = false
  version : ∀ v, r.version = some v →
    v ≠ "" ∧ ':' ∉ v.toList ∧ '/' ∉ v.toList ∧ v ≠ "latest" ∧ ¬ ".dep".toList <:+ v.toList

namespace FileRequest.IsUsual

variable {r r' : FileRequest}

theorem versionLabel_cases (h : r.IsUsual) : (r.version = none ∧ versionLabel r.version = "latest") ∨
      ∃ v, r.version = some v ∧ versionLabel r.version = v ∧ v ≠ "latest" := by
  cases hv : r.version with
  | none => exact .inl ⟨rfl, rfl⟩
  | some v =>
    obtain ⟨hne, -, -, hlatest, -⟩ := h.version v hv
    exact .inr ⟨v, rfl, by simp [versionLabel, hne], hlatest⟩

theorem versionLabel_of {P : List Char → Prop} (h : r.IsUsual) (hlatest : P "latest".toList)
    (hversion : ∀ v, r.version = some v → P v.toList) : P (versionLabel r.version).toList := by
  obtain ⟨-, hlabel⟩ | ⟨v, hv, hlabel, -⟩ := h.versionLabel_cases
  · rwa [hlabel]
  · rw [hlabel]
    exact hversion v hv

theorem colon_notMem (h : r.IsUsual) : ':' ∉ (versionLabel r.version).toList :=
  h.versionLabel_of (P := (':' ∉ ·)) (by decide) fun v hv => (h.version v hv).2.1

theorem slash_notMem (h : r.IsUsual) : '/' ∉ (versionLabel r.version).toList :=
  h.versionLabel_of (P := ('/' ∉ ·)) (by decide) fun v hv => (h.version v hv).2.2.1

theorem not_dep_suffix (h : r.IsUsual) : ¬ ".dep".toList <:+ (versionLabel r.version).toList :=
  h.versionLabel_of (P := (¬ ".dep".toList <:+ ·)) (by decide) fun v hv => (h.version v hv).2.2.2.2

theorem version_eq (h : r.IsUsual) (h' : r'.IsUsual)
    (heq : versionLabel r.version = versionLabel r'.version) : r.version = r'.version := by
  obtain ⟨hv, hlabel⟩ | ⟨v, hv, hlabel, hne⟩ := h.versionLabel_cases <;>
    obtain ⟨hv', hlabel'⟩ | ⟨v', hv', hlabel', hne'⟩ := h'.versionLabel_cases
  · rw [hv, hv']
  · exact absurd (hlabel'.symm.trans (heq.symm.trans hlabel)) hne'
  · exact absurd (hlabel.symm.trans (heq.trans hlabel')) hne
  · rw [hv, hv', ← hlabel, ← hlabel', heq]

theorem rights_inj (h : r.IsUsual) (h' : r'.IsUsual)
    (heq : (versionLabel r.version).toList ++ (sudoMark r.asRoot).toList =
      (versionLabel r'.version).toList ++ (sudoMark r'.asRoot).toList) :
    versionLabel r.version = versionLabel r'.version ∧ r.asRoot = r'.asRoot := by
  have hmark : (sudoMark true).toList = ':' :: "sudo".toList := rfl
  have hnone : (sudoMark false).toList = [] := rfl
  cases hr : r.asRoot <;> cases hr' : r'.asRoot <;> rw [hr, hr'] at heq
  · exact ⟨String.toList_injective (append_cancel_right heq), rfl⟩
  · rw [hnone, append_nil, hmark] at heq
    exact absurd (heq ▸ by simp) h.colon_notMem
  · rw [hnone, append_nil, hmark] at heq
    exact absurd (heq ▸ by simp) h'.colon_notMem
  · exact ⟨String.toList_injective (append_cancel_right heq), rfl⟩

theorem toList_traceDepFile (h : r.IsUsual) : (traceDepFile r.name r.version r.asRoot).toList =
      fileName r.name.toList ++ (traceDep.middle r ++ ".dep.strace".toList) := by
  have htrace : (traceFile (forFile r.name) r.version r.asRoot).toList =
      (fileName r.name.toList ++ traceDep.middle r) ++ ".strace".toList := by
    simp only [traceFile, versioned_eq, forFile, String.toList_append, String.toList_ofList,
      fileName_fileName, middle, hasVersion, hasRights, if_true,
      append_assoc, cons_append]
    rfl
  have hslash : '/' ∉ fileName r.name.toList ++ traceDep.middle r := by
    have hmark : '/' ∉ (sudoMark r.asRoot).toList := by cases r.asRoot <;> decide
    simp only [middle, hasVersion, hasRights, if_true, mem_append, mem_cons, not_or]
    exact ⟨notMem_dotInvalid (by decide) _, by decide, h.slash_notMem, hmark⟩
  have hcolon : ':' ∈ fileName r.name.toList ++ traceDep.middle r :=
    mem_append_right _ (mem_cons_self ..)
  rw [traceDepFile, htrace, dropExt_strace hslash hcolon, String.toList_append, String.toList_ofList, append_assoc]

theorem toList_file (h : r.IsUsual) (k : FileKind) :
    (k.file r).toList = fileName r.name.toList ++ (k.middle r ++ k.ending r.binary) := by
  cases k
  case traceDep => exact h.toList_traceDepFile
  all_goals
    simp only [file, traceFile, packageFile, cacheFile, messageFile, dynamicFile, versioned_eq,
      forFile, h.format, h.sanitized, Bool.false_eq_true, if_false, if_true, String.toList_append,
      String.toList_ofList, middle, hasVersion, hasRights, append_assoc,
      cons_append, append_nil]
    rfl

theorem file_trace_ne (h : r.IsUsual) (h' : r'.IsUsual) : trace.file r ≠ traceDep.file r' := by
  intro heq
  have hending : traceDep.ending r'.binary = ".dep".toList ++ trace.ending r.binary := rfl
  have hfile := congrArg String.toList heq
  rw [h.toList_file, h'.toList_file, hending] at hfile
  simp only [← append_assoc] at hfile
  replace hfile := append_cancel_right hfile
  simp only [middle, hasVersion, hasRights, if_true, append_assoc, cons_append] at hfile
  have hcolon : isNameChar ':' = false := by decide
  obtain ⟨-, htail⟩ :=
    (Text.append_cons_inj (notMem_dotInvalid hcolon _) (notMem_dotInvalid hcolon _)).1 hfile
  have hdep : ".dep".toList <:+ (versionLabel r.version).toList ++ (sudoMark r.asRoot).toList :=
    ⟨_, (htail.trans (append_assoc ..).symm).symm⟩
  cases hr : r.asRoot with
  | false =>
    rw [hr] at hdep
    exact h.not_dep_suffix (by simpa [sudoMark] using hdep)
  | true =>
    rw [hr] at hdep
    obtain hsudo | hsudo := suffix_or_suffix_of_suffix hdep (suffix_append _ _)
    · exact absurd hsudo (by decide)
    · exact absurd hsudo (by decide)

theorem middle_inj (h : r.IsUsual) (h' : r'.IsUsual)
    (heq : fileName r.name.toList ++ k.middle r = fileName r'.name.toList ++ k.middle r') :
    fileName r.name.toList = fileName r'.name.toList ∧ (k.hasVersion = true → r.version = r'.version) ∧
      (k.hasRights = true → r.asRoot = r'.asRoot) := by
  have hcolon : isNameChar ':' = false := by decide
  cases hv : k.hasVersion with
  | false =>
    have hrights : k.hasRights = true → r.asRoot = r'.asRoot := by
      intro hr
      rw [hasVersion_of_hasRights k hr] at hv
      cases hv
    simp only [middle, hv, Bool.false_eq_true, if_false, append_nil] at heq
    exact ⟨heq, fun hf => absurd hf Bool.false_ne_true, hrights⟩
  | true =>
    simp only [middle, hv, if_true] at heq
    obtain ⟨hname, htail⟩ :=
      (Text.append_cons_inj (notMem_dotInvalid hcolon _) (notMem_dotInvalid hcolon _)).1 heq
    refine ⟨hname, ?_⟩
    cases hr : k.hasRights with
    | false =>
      simp only [hr, Bool.false_eq_true, if_false, append_nil] at htail
      exact ⟨fun _ => h.version_eq h' (String.toList_injective htail), fun hf => absurd hf Bool.false_ne_true⟩
    | true =>
      simp only [hr, if_true] at htail
      obtain ⟨hlabel, hroot⟩ := h.rights_inj h' htail
      exact ⟨fun _ => h.version_eq h' hlabel, fun _ => hroot⟩

theorem kind_eq (h : r.IsUsual) (h' : r'.IsUsual) (heq : k.file r = k'.file r') :
    k.stored = k'.stored ∧ (k.hasForm = true → r.binary = r'.binary) := by
  have hends : k.ending r.binary <:+ (k.file r).toList := by
    rw [h.toList_file, ← append_assoc]
    exact suffix_append _ _
  have hends' : k'.ending r'.binary <:+ (k.file r).toList := by
    rw [heq, h'.toList_file, ← append_assoc]
    exact suffix_append _ _
  obtain hsuffix | hsuffix := suffix_or_suffix_of_suffix hends hends'
  · obtain hsame | ⟨rfl, rfl⟩ := ending_cases _ _ _ _ hsuffix
    · exact hsame
    · exact absurd heq (h.file_trace_ne h')
  · obtain ⟨hkind, hform⟩ | ⟨rfl, rfl⟩ := ending_cases _ _ _ _ hsuffix
    · rw [(has_congr _ _ hkind).2.2] at hform
      exact ⟨hkind.symm, fun hk => (hform hk).symm⟩
    · exact absurd heq.symm (h'.file_trace_ne h)

end FileRequest.IsUsual

/-- Two names of files are equal just if the files are of one kind, about one package, and agree in
the version, the rights and the form wherever these tell files of the kind apart. -/
theorem FileKind.file_eq_file_iff (k k' : FileKind) {r r' : FileRequest} (h : r.IsUsual) (h' : r'.IsUsual) :
    k.file r = k'.file r' ↔ k.stored = k'.stored ∧ forFile r.name = forFile r'.name ∧
        (k.hasVersion = true → r.version = r'.version) ∧ (k.hasRights = true → r.asRoot = r'.asRoot) ∧
          (k.hasForm = true → r.binary = r'.binary) := by
  constructor
  · intro heq
    obtain ⟨hkind, hform⟩ := h.kind_eq h' heq
    have hfile := congrArg String.toList heq
    rw [h.toList_file, h'.toList_file, ← middle_congr hkind, ← ending_congr k k' _ _ hkind hform,
      ← append_assoc, ← append_assoc] at hfile
    obtain ⟨hname, hversion, hrights⟩ := h.middle_inj h' (append_cancel_right hfile)
    exact ⟨hkind, congrArg String.ofList hname, hversion, hrights, hform⟩
  · rintro ⟨hkind, hname, hversion, hrights, hform⟩
    apply String.toList_injective
    rw [h.toList_file, h'.toList_file, ← middle_congr hkind, ← ending_congr k k' _ _ hkind hform,
      String.ofList_injective hname, middle_eq hversion hrights]

theorem FileKind.file_concolic_eq_file_dynamic :
    FileRequest.IsUsual { name := "a/b", version := some "1.0.strace", asRoot := true } ∧
      FileRequest.IsUsual { name := "a@b", version := some "1.0.strace", asRoot := true } ∧
        FileKind.concolic.file { name := "a/b", version := some "1.0.strace", asRoot := true } =
          FileKind.dynamic.file { name := "a@b", version := some "1.0.strace", asRoot := true } := by
  have hversion : ∀ v, some "1.0.strace" = some v →
      v ≠ "" ∧ ':' ∉ v.toList ∧ '/' ∉ v.toList ∧ v ≠ "latest" ∧ ¬ ".dep".toList <:+ v.toList := by
    rintro v ⟨⟩
    decide
  have hslash : FileRequest.IsUsual { name := "a/b", version := some "1.0.strace", asRoot := true } :=
    ⟨rfl, rfl, hversion⟩
  have hscope : FileRequest.IsUsual { name := "a@b", version := some "1.0.strace", asRoot := true } :=
    ⟨rfl, rfl, hversion⟩
  exact ⟨hslash, hscope, (FileKind.file_eq_file_iff .concolic .dynamic hslash hscope).2
    ⟨rfl, by decide +kernel, fun _ => rfl, fun _ => rfl, fun _ => rfl⟩⟩

end Vetting.Package
