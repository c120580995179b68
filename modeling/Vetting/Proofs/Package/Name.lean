import Vetting.Package.Name
import Vetting.Proofs.Text

/-!
# Names of containers and names of files

The name in containers must start with a letter or a digit, so that it agrees with the name in files only for
packages whose own name starts with one.
-/

namespace Vetting.Package

open List

/-! ## Parts of container names -/

/-- A text that can stand as the version or the job in a container's name without being cut. -/
def IsPart (s : String) : Prop := Text.contains s ".." = false ∧ Text.startsWith s "." = false

instance (s : String) : Decidable (IsPart s) := inferInstanceAs (Decidable (_ ∧ _))

theorem isPart_iff {s : String} : IsPart s ↔ ¬ "..".toList <:+: '.' :: s.toList := by
  rw [infix_cons_iff, not_or, IsPart, ← Bool.not_eq_true, ← Bool.not_eq_true, and_comm]
  refine and_congr (not_congr ?_) (not_congr Text.contains_eq_true_iff)
  rw [Text.startsWith_iff]
  exact (prefix_cons_inj '.').symm

variable {cs n : List Char} {c : Char}

theorem exists_last_separator (h : "..".toList <:+: cs) :
    ∃ xs y, cs = xs ++ ("..".toList ++ y.toList) ∧ IsPart y := by
  induction cs with
  | nil => exact absurd h (by decide)
  | cons c cs ih =>
    by_cases hin : "..".toList <:+: cs
    · obtain ⟨xs, y, rfl, hy⟩ := ih hin
      exact ⟨c :: xs, y, rfl, hy⟩
    · obtain ⟨ys, hys⟩ := (infix_cons_iff.1 h).resolve_right hin
      have htail : '.' :: ys = cs := (List.cons.inj (hys : '.' :: '.' :: ys = c :: cs)).2
      refine ⟨[], String.ofList ys, by simpa using hys.symm, isPart_iff.2 ?_⟩
      have htext : (String.ofList ys).toList = ys := String.toList_ofList
      rwa [htext, htail]

theorem prefix_of_last_separator {xs as bs : List Char} {y : String} (hy : IsPart y)
    (h : xs ++ ("..".toList ++ y.toList) = as ++ ("..".toList ++ bs)) : as <+: xs := by
  obtain ⟨t, ha, hrest⟩ | ⟨t, hx, -⟩ := append_eq_append_iff.1 h
  · cases t with
    | nil => rw [ha, append_nil]
    | cons c t =>
      -- the other separator would start in the part, or one character before it
      have hpart : '.' :: y.toList = t ++ ("..".toList ++ bs) := (List.cons.inj hrest).2
      refine absurd ?_ (isPart_iff.1 hy)
      rw [hpart]
      exact infix_append' t "..".toList bs
  · exact hx ▸ prefix_append as t

theorem last_separator_inj {xs as : List Char} {y b : String} (hy : IsPart y) (hb : IsPart b)
    (h : xs ++ ("..".toList ++ y.toList) = as ++ ("..".toList ++ b.toList)) : xs = as ∧ y = b := by
  have hle : as <+: xs := prefix_of_last_separator hy h
  have hge : xs <+: as := prefix_of_last_separator hb h.symm
  obtain rfl : xs = as := hge.eq_of_length_le hle.length_le
  exact ⟨rfl, String.toList_injective (append_cancel_left (append_cancel_left h))⟩

theorem exists_mem_dotSlashes (h : ∃ c ∈ cs, c ≠ '@') : ∃ c ∈ dotSlashes cs, c ≠ '@' := by
  obtain ⟨c, hc, hne⟩ := h
  by_cases hs : c = '/'
  · exact ⟨'.', mem_flatMap.2 ⟨c, hc, by simp [hs]⟩, by decide⟩
  · exact ⟨c, mem_flatMap.2 ⟨c, hc, by simp [hs]⟩, hne⟩

theorem dropScope_ne_nil (h : ∃ c ∈ cs, c ≠ '@') : dropScope cs ≠ [] := by
  obtain ⟨c, hc, hne⟩ := h
  rw [dropScope]
  split
  · rw [Ne, Text.stripChars_eq_nil_iff]
    exact fun hall => hne (by simpa using hall c hc)
  · exact ne_nil_of_mem hc

theorem exists_containerName (h : ∃ c ∈ cs, c ≠ '@') : ∃ n, containerName cs = .ok n := by
  have hne := dropScope_ne_nil (exists_mem_dotSlashes h)
  cases cs with
  | nil => exact ⟨[], rfl⟩
  | cons c cs =>
    rw [containerName]
    · cases hd : dropScope (dotSlashes (c :: cs)) with
      | nil => exact absurd hd hne
      | cons d ds => exact ⟨_, rfl⟩
    · exact cons_ne_nil c cs

theorem isNameChar_of_mem_dotInvalid : ∀ c ∈ dotInvalid cs, isNameChar c = true := by
  intro c hc
  obtain ⟨d, -, hd⟩ := mem_flatMap.1 hc
  split at hd
  case isTrue hvalid =>
    rw [mem_singleton] at hd
    rwa [hd]
  case isFalse =>
    have hdot : c = '.' := by simpa using hd
    rw [hdot]
    decide

theorem notMem_dotInvalid (hc : isNameChar c = false) (cs : List Char) : c ∉ dotInvalid cs := by
  intro hmem
  rw [isNameChar_of_mem_dotInvalid c hmem] at hc
  cases hc

theorem slash_notMem_forFile (name : String) : '/' ∉ (forFile name).toList := by
  rw [forFile, String.toList_ofList]
  exact notMem_dotInvalid (by decide) _

theorem fileName_eq_dotInvalid (cs : List Char) : fileName cs = dotInvalid cs := by
  rw [fileName, dotSlashes, dotInvalid, flatMap_assoc, dotInvalid]
  refine flatMap_congr fun c _ => ?_
  by_cases hc : c = '/'
  · rw [hc]
    decide
  · rw [if_neg hc, flatMap_singleton]

theorem dotInvalid_cons (c : Char) (cs : List Char) :
    dotInvalid (c :: cs) = (if isNameChar c then [c] else ['.', '.']) ++ dotInvalid cs := flatMap_cons

theorem dotInvalid_eq_self (h : ∀ c ∈ cs, isNameChar c = true) : dotInvalid cs = cs := by
  rw [dotInvalid, flatMap_congr fun c hc => if_pos (h c hc), flatMap_singleton']

def versionLabel (version : Option String) : String :=
  match version with
  | some v => if v.isEmpty then "latest" else v
  | none => "latest"

theorem versioned_eq (n : String) (version : Option String) :
    versioned n version = n ++ ":" ++ versionLabel version := by
  cases version with
  | none => rw [String.append_assoc]; rfl
  | some v =>
    by_cases hv : v.isEmpty = true
    · simp only [versioned, versionLabel, hv, if_true, String.append_assoc]
      rfl
    · simp only [versioned, versionLabel, hv, if_false, Bool.false_eq_true]

theorem dotInvalid_append (xs ys : List Char) :
    dotInvalid (xs ++ ys) = dotInvalid xs ++ dotInvalid ys := flatMap_append

theorem length_dotInvalid_scope (h : ∀ c ∈ cs, c = '@') : (dotInvalid cs).length = 2 * cs.length := by
  induction cs with
  | nil => rfl
  | cons c cs ih =>
    rw [forall_mem_cons] at h
    have hc : isNameChar '@' = false := by decide
    have hstep : dotInvalid (c :: cs) = ['.', '.'] ++ dotInvalid cs := by
      simp [dotInvalid, h.1, hc]
    rw [hstep, length_append, ih h.2, length_cons]
    simp only [length_cons, length_nil]
    omega

theorem containerName_of_isAlphanum (hc : c.isAlphanum = true) (cs : List Char) :
    containerName (c :: cs) = .ok (fileName (c :: cs)) := by
  have hslash : c ≠ '/' := by rintro rfl; revert hc; decide
  have hscope : c ≠ '@' := by rintro rfl; revert hc; decide
  have hdots : dotSlashes (c :: cs) = c :: dotSlashes cs := by simp [dotSlashes, hslash]
  have hdrop : dropScope (c :: dotSlashes cs) = c :: dotSlashes cs := by simp [dropScope, hscope]
  simp [containerName, fileName, hdots, hdrop, hc]

theorem exists_dropScope (cs : List Char) :
    ∃ as bs, cs = as ++ (dropScope cs ++ bs) ∧ (∀ c ∈ as, c = '@') ∧ (∀ c ∈ bs, c = '@') ∧
      (as = [] → dropScope cs = cs) := by
  rw [dropScope]
  split
  case isTrue h =>
    obtain ⟨as, bs, hcs, has, hbs, hne⟩ := Text.exists_stripChars (· = '@') cs
    refine ⟨as, bs, hcs, by simpa using has, by simpa using hbs, fun he => ?_⟩
    exact absurd he (hne (by simp [h]))
  case isFalse => exact ⟨[], [], by simp, by simp, by simp, fun _ => rfl⟩

theorem containerName_cases (h : containerName (c :: cs) = .ok n) :
    ∃ d ds, dropScope (dotSlashes (c :: cs)) = d :: ds ∧ ((d.isAlphanum = true ∧ n = dotInvalid (d :: ds)) ∨
        (d.isAlphanum = false ∧ n = "san..".toList ++ dotInvalid (d :: ds))) := by
  have hsan : dotInvalid "san..".toList = "san..".toList := by decide +kernel
  rw [containerName] at h
  · cases hd : dropScope (dotSlashes (c :: cs)) with
    | nil => simp [hd] at h
    | cons d ds =>
      refine ⟨d, ds, rfl, ?_⟩
      cases hc : d.isAlphanum with
      | true =>
        refine .inl ⟨rfl, ?_⟩
        simpa [hd, hc] using h.symm
      | false =>
        refine .inr ⟨rfl, ?_⟩
        rw [← hsan, ← dotInvalid_append]
        simpa [hd, hc] using h.symm
  · exact cons_ne_nil c cs

theorem head?_dotSlashes (c : Char) (cs : List Char) :
    (dotSlashes (c :: cs)).head? = some (if c = '/' then '.' else c) := by
  by_cases hc : c = '/' <;> simp [dotSlashes, hc]

theorem containerName_eq_fileName_iff (h : containerName cs = .ok n) :
    n = fileName cs ↔ cs.head?.all Char.isAlphanum = true := by
  cases cs with
  | nil => simpa [fileName, dotSlashes, dotInvalid, containerName] using h.symm
  | cons c cs =>
    constructor
    · intro heq
      by_contra hc
      have hc : c.isAlphanum = false := by simpa using hc
      obtain ⟨d, ds, hdrop, hcases⟩ := containerName_cases h
      obtain ⟨as, bs, hsplit, has, hbs, hnil⟩ := exists_dropScope (dotSlashes (c :: cs))
      have hlen : n.length = 2 * as.length + ((dotInvalid (d :: ds)).length + 2 * bs.length) := by
        rw [heq, fileName, hsplit, hdrop, dotInvalid_append, dotInvalid_append, length_append,
          length_append, length_dotInvalid_scope has, length_dotInvalid_scope hbs]
      rcases hcases with ⟨hd, rfl⟩ | ⟨hd, rfl⟩
      · -- nothing was dropped, so the name starts as it does in containers
        have hzero : as = [] := eq_nil_of_length_eq_zero (by omega)
        have hhead := head?_dotSlashes c cs
        rw [← hnil hzero, hdrop, head?_cons, Option.some_inj] at hhead
        split at hhead
        · rw [hhead] at hd
          revert hd
          decide
        · rw [hhead, hc] at hd
          cases hd
      · -- five characters were added and an even number dropped
        have : "san..".toList.length = 5 := rfl
        rw [length_append, this] at hlen
        omega
    · intro hc
      exact Except.ok.inj (h.symm.trans (containerName_of_isAlphanum (by simpa using hc) cs))

theorem dotSlashes_eq_self (h : '/' ∉ cs) : dotSlashes cs = cs := by
  rw [dotSlashes, flatMap_congr fun c hc => if_neg (ne_of_mem_of_not_mem hc h), flatMap_singleton']

theorem containerName_scope (hne : cs ≠ []) (h : ∀ c ∈ cs, c = '@') :
    containerName cs = .error (.cause .outOfRange) := by
  have hslash : '/' ∉ cs := fun hmem => absurd (h _ hmem) (by decide)
  have hhead : cs.head? = some '@' := by
    rw [head?_eq_some_head hne, h _ (head_mem hne)]
  have hdrop : dropScope (dotSlashes cs) = [] := by
    rw [dotSlashes_eq_self hslash, dropScope, if_pos hhead, Text.stripChars_eq_nil_iff]
    simpa using h
  rw [containerName]
  · rw [hdrop]
  · exact hne

theorem exists_cons_of_containerName (hne : cs ≠ []) (h : containerName cs = .ok n) :
    ∃ c rest, n = c :: rest ∧ c.isAlphanum = true ∧ ∀ d ∈ n, isNameChar d = true := by
  obtain ⟨c, cs, rfl⟩ := exists_cons_of_ne_nil hne
  obtain ⟨d, ds, -, ⟨hd, rfl⟩ | ⟨hd, rfl⟩⟩ := containerName_cases h
  · have hname : isNameChar d = true := by simp [isNameChar, hd]
    exact ⟨d, dotInvalid ds, by rw [dotInvalid_cons, if_pos hname]; rfl, hd, isNameChar_of_mem_dotInvalid⟩
  · have hstart : ∀ c ∈ "san..".toList, isNameChar c = true := all_eq_true.1 (by decide)
    refine ⟨'s', "an..".toList ++ dotInvalid (d :: ds), rfl, by decide, ?_⟩
    rw [forall_mem_append]
    exact ⟨hstart, isNameChar_of_mem_dotInvalid⟩

theorem containerName_containerName (hne : cs ≠ []) (h : containerName cs = .ok n) : containerName n = .ok n := by
  obtain ⟨c, rest, rfl, hc, hall⟩ := exists_cons_of_containerName hne h
  rw [containerName_of_isAlphanum hc, fileName_eq_dotInvalid, dotInvalid_eq_self hall]

/-- Making a name fit for containers fails just for names of scope signs only. Every other name gets one that
starts with a letter or a digit, has letters, digits, underscores, dots and dashes only, and is fit already;
it is the name in files just if the name itself starts with a letter or a digit. -/
theorem containerName_fits (name : String) (hne : name ≠ "") :
    ((∃ f, containerName name.toList = .error f) ↔ ∀ c ∈ name.toList, c = '@') ∧
    (∀ f, containerName name.toList = .error f → f = .cause .outOfRange) ∧
    ∀ n, containerName name.toList = .ok n → (∃ c rest, n = c :: rest ∧ c.isAlphanum = true ∧
        ∀ d ∈ rest, d.isAlphanum = true ∨ d = '_' ∨ d = '.' ∨ d = '-') ∧
      containerName n = .ok n ∧
      (String.ofList n = forFile name ↔ ∃ c rest, name.toList = c :: rest ∧ c.isAlphanum = true) := by
  have hchars : name.toList ≠ [] := by simpa using hne
  have herror : (∃ f, containerName name.toList = .error f) → ∀ c ∈ name.toList, c = '@' := by
    rintro ⟨f, hf⟩ c hc
    by_contra hscope
    obtain ⟨n, hn⟩ := exists_containerName ⟨c, hc, hscope⟩
    rw [hn] at hf
    cases hf
  refine ⟨⟨herror, fun h => ⟨_, containerName_scope hchars h⟩⟩, fun f hf => ?_, fun n hn => ⟨?_, ?_, ?_⟩⟩
  · have hscope := containerName_scope hchars (herror ⟨f, hf⟩)
    exact Except.error.inj (hf.symm.trans hscope)
  · obtain ⟨c, rest, rfl, hc, hall⟩ := exists_cons_of_containerName hchars hn
    refine ⟨c, rest, rfl, hc, fun d hd => ?_⟩
    simpa [isNameChar, or_assoc] using hall d (mem_cons_of_mem c hd)
  · exact containerName_containerName hchars hn
  · rw [forFile, String.ofList_inj, containerName_eq_fileName_iff hn]
    obtain ⟨c, cs, hcs⟩ := exists_cons_of_ne_nil hchars
    simp [hcs]

/-- A scoped name, in which every step of the making has something to do. -/
theorem containerName_fits_scoped : "@-a/b c@" ≠ "" ∧ containerName "@-a/b c@".toList = .ok "san..-a..b..c".toList ∧
      containerName "san..-a..b..c".toList = .ok "san..-a..b..c".toList ∧
      String.ofList "san..-a..b..c".toList ≠ forFile "@-a/b c@" ∧
      ∀ f, containerName "@-a/b c@".toList ≠ .error f := by
  have hn : containerName "@-a/b c@".toList = .ok "san..-a..b..c".toList := by decide +kernel
  obtain ⟨herror, -, hok⟩ := containerName_fits "@-a/b c@" (by decide)
  obtain ⟨-, hagain, hfile⟩ := hok _ hn
  refine ⟨by decide, hn, hagain, fun heq => ?_, fun f hf => ?_⟩
  · obtain ⟨c, rest, hcons, hc⟩ := hfile.1 heq
    obtain ⟨rfl, -⟩ := List.cons.inj (hcons : '@' :: "-a/b c@".toList = c :: rest)
    exact absurd hc (by decide)
  · exact absurd (herror.1 ⟨f, hf⟩ '-' (by decide)) (by decide)

theorem exists_of_containerFor {name : String} {version : Option String} {job s : String}
    (h : containerFor name version (some job) = .ok s) :
    ∃ n, containerName name.toList = .ok n ∧ s = String.ofList n ++ ".." ++ shown version ++ ".." ++ job := by
  cases hn : containerName name.toList with
  | error f =>
    rw [containerFor, containerPrefix, hn] at h
    cases h
  | ok n =>
    rw [containerFor, containerPrefix, hn] at h
    exact ⟨n, rfl, (Except.ok.inj h).symm⟩

end Vetting.Package
