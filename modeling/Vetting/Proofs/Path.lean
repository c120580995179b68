import Vetting.Proofs.Effects
import Vetting.Proofs.Text

/-!
# Paths

The normal form of a path is a walk over its parts. A plain name at the end stays there, so files of different
names in one directory are different files.
-/

namespace Vetting

open List Job Text

variable {f : String} {names : List String} {start : String}

namespace Path

/-- A name that a file can have in its directory. -/
structure IsName (f : String) : Prop where
  notMem : '/' ∉ f.toList
  ne_empty : f ≠ ""
  ne_dot : f ≠ "."
  ne_dots : f ≠ ".."

def LeadsTo (p f : String) : Prop := p = f ∨ ∃ e, p = e ++ "/" ++ f

theorem LeadsTo.refl (f : String) : LeadsTo f f := .inl rfl

theorem exists_leadsTo_append (a s : String) : ∃ f, '/' ∉ f.toList ∧ LeadsTo (a ++ s) (f ++ s) := by
  by_cases hslash : '/' ∈ a.toList
  · obtain ⟨fs, es, hreverse, hfs⟩ := eq_append_cons_of_mem (mem_reverse.2 hslash)
    have ha : a.toList = es.reverse ++ '/' :: fs.reverse := by
      simpa using congrArg List.reverse hreverse
    refine ⟨String.ofList fs.reverse, by simpa using hfs, .inr ⟨String.ofList es.reverse, ?_⟩⟩
    apply String.toList_injective
    simp [ha]
  · exact ⟨a, hslash, .refl _⟩

theorem LeadsTo.exists_splitOn {p f : String} (h : LeadsTo p f) (hf : IsName f) :
    ∃ ps, Text.splitOn p "/" = ps ++ [f] := by
  rcases h with rfl | ⟨e, rfl⟩
  · exact ⟨[], splitOn_of_notMem rfl hf.notMem⟩
  · exact ⟨Text.splitOn e "/", by rw [splitOn_append rfl, splitOn_of_notMem rfl hf.notMem]⟩

theorem LeadsTo.unique {p f g : String} (hpf : LeadsTo p f) (hpg : LeadsTo p g) (hf : IsName f)
    (hg : IsName g) : f = g := by
  obtain ⟨ps, hps⟩ := hpf.exists_splitOn hf
  obtain ⟨qs, hqs⟩ := hpg.exists_splitOn hg
  exact append_inj_right' (hps.symm.trans hqs) rfl |> singleton_inj.1

theorem LeadsTo.below {p f : String} (h : LeadsTo p f) (e : String) : LeadsTo (e ++ "/" ++ p) f := by
  rcases h with rfl | ⟨d, rfl⟩
  · exact .inr ⟨e, rfl⟩
  · exact .inr ⟨e ++ "/" ++ d, by simp only [String.append_assoc]⟩

/-- A path with a slash behind it, so that a relative path can follow. -/
def asDirectory (a : String) : String := if a.isEmpty || endsWith a "/" then a else a ++ "/"

theorem join_of_relative (a : String) {b : String} (hb : isAbsolute b = false) : join a b = asDirectory a ++ b := by
  rw [join, hb, asDirectory]
  split
  case isTrue h => cases h
  split <;> rfl

theorem asDirectory_cases (a : String) :
    (a = "" ∧ asDirectory a = "") ∨ ∃ d, asDirectory a = d ++ "/" ∧ (a = d ∨ a = d ++ "/") := by
  rw [asDirectory]
  split
  case isFalse => exact .inr ⟨a, rfl, .inl rfl⟩
  case isTrue ha =>
    rw [Bool.or_eq_true, endsWith_iff] at ha
    rcases ha with ha | ⟨d, hd⟩
    · have hempty : a = "" := by simpa using ha
      exact .inl ⟨hempty, hempty⟩
    · have hslash : a = String.ofList d ++ "/" := by
        apply String.toList_injective
        rw [String.toList_append, String.toList_ofList, hd]
      exact .inr ⟨_, hslash, .inr hslash⟩

theorem LeadsTo.join {p f : String} (h : LeadsTo p f) (a : String) : LeadsTo (join a p) f := by
  cases hp : isAbsolute p with
  | true => rwa [Path.join, if_pos hp]
  | false =>
    rw [join_of_relative a hp]
    obtain ⟨-, ha⟩ | ⟨d, ha, -⟩ := asDirectory_cases a
    · rwa [ha, String.empty_append]
    · rw [ha]
      exact h.below d

theorem LeadsTo.ne_empty {p f : String} (h : LeadsTo p f) (hf : IsName f) : p ≠ "" := by
  rcases h with rfl | ⟨e, rfl⟩
  · exact hf.ne_empty
  · intro hp
    have hslash : '/' ∈ (e ++ "/" ++ f).toList := by simp
    rw [hp] at hslash
    exact absurd hslash (by decide)

theorem IsName.step_eq (hf : IsName f) (absolute : Bool) (parts : List String) :
    step absolute parts f = f :: parts := by
  simp [step, hf.ne_empty, hf.ne_dot, hf.ne_dots]

theorem LeadsTo.below_root {p f : String} (h : LeadsTo p f)
    (hstart : start ∈ ["", "/", "//"]) : LeadsTo (start ++ p) f := by
  simp only [mem_cons, not_mem_nil, or_false] at hstart
  rcases hstart with rfl | rfl | rfl
  · rwa [String.empty_append]
  · exact h.below ""
  · exact h.below "/"

theorem LeadsTo.normal {p f : String} (h : LeadsTo p f) (hf : IsName f) : LeadsTo (normal p) f := by
  obtain ⟨ps, hps⟩ := h.exists_splitOn hf
  have hp : p.isEmpty = false := by simpa using h.ne_empty hf
  have hparts : LeadsTo (Text.join "/" ((Text.splitOn p "/").foldl (step (isAbsolute p)) []).reverse) f := by
    rw [hps, foldl_append, foldl_cons, foldl_nil, hf.step_eq, reverse_cons, join_concat]
    split
    · exact .inl rfl
    · exact .inr ⟨_, rfl⟩
  have hstart : (if isAbsolute p then
      (if startsWith p "//" && !startsWith p "///" then "//" else "/") else "") ∈
      ["", "/", "//"] := by
    split_ifs <;> simp
  have hempty := (hparts.below_root hstart).ne_empty hf
  simp only [Path.normal, hp, Bool.false_eq_true, if_false, String.isEmpty_iff, hempty]
  exact hparts.below_root hstart

/-! ## Directories and what is directly in them -/

theorem isAbsolute_iff {p : String} : isAbsolute p = true ↔ p.toList.head? = some '/' := by
  rw [isAbsolute, startsWith_iff, head?_eq_some_iff]
  exact ⟨fun ⟨cs, h⟩ => ⟨cs, h.symm⟩, fun ⟨cs, h⟩ => ⟨cs, h.symm⟩⟩

theorem endsWith_slash_iff {p : String} : endsWith p "/" = true ↔ p.toList.getLast? = some '/' := by
  rw [endsWith_iff, getLast?_eq_some_iff]
  exact ⟨fun ⟨cs, h⟩ => ⟨cs, h.symm⟩, fun ⟨cs, h⟩ => ⟨cs, h.symm⟩⟩

theorem isAbsolute_of_notMem (hf : '/' ∉ f.toList) : isAbsolute f = false := by
  rw [← Bool.not_eq_true, isAbsolute_iff]
  exact fun h => hf (mem_of_head? h)

theorem isAbsolute_append {a : String} (ha : a ≠ "") (b : String) : isAbsolute (a ++ b) = isAbsolute a := by
  have ha : a.toList ≠ [] := by simpa using ha
  rw [Bool.eq_iff_iff, isAbsolute_iff, isAbsolute_iff, String.toList_append, head?_append_of_ne_nil _ ha]

theorem asDirectory_append (a : String) {b : String} (hb : b ≠ "") : asDirectory (a ++ b) = a ++ asDirectory b := by
  have hends : endsWith (a ++ b) "/" = endsWith b "/" := by
    have hb : b.toList ≠ [] := by simpa using hb
    rw [Bool.eq_iff_iff, endsWith_slash_iff, endsWith_slash_iff, String.toList_append, getLast?_append_of_ne_nil _ hb]
  have hab : (a ++ b).isEmpty = false := by simp [hb]
  have hb : b.isEmpty = false := by simpa using hb
  rw [asDirectory, asDirectory, hends, hab, hb]
  split
  · rfl
  · rw [String.append_assoc]

theorem asDirectory_asDirectory (a : String) : asDirectory (asDirectory a) = asDirectory a := by
  obtain ⟨-, ha⟩ | ⟨d, ha, -⟩ := asDirectory_cases a
  · rw [ha]
    rfl
  · rw [ha, asDirectory_append d (by decide)]
    rfl

theorem isAbsolute_asDirectory_append {a : String} (ha : a ≠ "") (b : String) :
    isAbsolute (asDirectory a ++ b) = isAbsolute a := by
  rw [asDirectory]
  split
  · exact isAbsolute_append ha b
  · rw [String.append_assoc, isAbsolute_append ha]

theorem ne_empty_of_isAbsolute {a : String} (ha : isAbsolute a = true) : a ≠ "" := by
  rintro rfl
  revert ha
  decide

theorem isAbsolute_join {a b : String} (h : isAbsolute a = true ∨ isAbsolute b = true) :
    isAbsolute (join a b) = true := by
  cases hb : isAbsolute b with
  | true => rwa [join, if_pos hb]
  | false =>
    have ha := h.resolve_right (by simp [hb])
    rwa [join_of_relative a hb, isAbsolute_asDirectory_append (ne_empty_of_isAbsolute ha)]

theorem join_join (a b : String) {c : String} (hc : isAbsolute c = false) :
    join a (join b c) = join (join a b) c := by
  cases hb : isAbsolute b with
  | true =>
    have hbc : isAbsolute (join b c) = true := isAbsolute_join (.inl hb)
    have hab : join a b = b := by rw [join, if_pos hb]
    rw [join, if_pos hbc, hab]
  | false =>
    rw [join_of_relative a hb, join_of_relative b hc, join_of_relative _ hc]
    by_cases hempty : b = ""
    · rw [hempty, String.append_empty, asDirectory_asDirectory, show asDirectory "" = "" from rfl,
        String.empty_append, join_of_relative a hc]
    · have hbc : isAbsolute (asDirectory b ++ c) = false := by
        rwa [isAbsolute_asDirectory_append hempty]
      rw [join_of_relative a hbc, asDirectory_append _ hempty, String.append_assoc]

/-- The parts of a path after those that come before it, last first. -/
def walk (absolute : Bool) (parts : List String) (p : String) : List String :=
  (Text.splitOn p "/").foldl (step absolute) parts

theorem walk_empty (absolute : Bool) (parts : List String) : walk absolute parts "" = parts := rfl

theorem walk_append (absolute : Bool) (parts : List String) (d b : String) :
    walk absolute parts (d ++ "/" ++ b) = walk absolute (walk absolute parts d) b := by
  rw [walk, splitOn_append rfl, foldl_append]
  rfl

theorem walk_join (absolute : Bool) (parts : List String) (a : String) {b : String} (hb : isAbsolute b = false) :
    walk absolute parts (join a b) = walk absolute (walk absolute parts a) b := by
  rw [join_of_relative a hb]
  obtain ⟨rfl, ha⟩ | ⟨d, ha, rfl | rfl⟩ := asDirectory_cases a
  · rw [ha, String.empty_append, walk_empty]
  · rw [ha, walk_append]
  · have hslash := walk_append absolute parts d ""
    rw [String.append_empty, walk_empty] at hslash
    rw [ha, walk_append, hslash]

theorem walk_of_notMem (absolute : Bool) (parts : List String) (hf : '/' ∉ f.toList) :
    walk absolute parts f = step absolute parts f := by
  rw [walk, splitOn_of_notMem rfl hf]
  rfl

theorem step_dots {parts : List String} (hparts : ∀ f ∈ parts, IsName f) : step true parts ".." = parts.tail := by
  cases parts with
  | nil => rfl
  | cons f fs =>
    have hf := (hparts f (mem_cons_self ..)).ne_dots
    rw [step.eq_def, if_neg (by decide), if_pos rfl]
    split
    case h_1 heq => cases heq
    case h_2 heq => exact absurd (List.cons.inj heq).1 hf
    case h_3 heq => rw [(List.cons.inj heq).2, tail_cons]

theorem isName_of_mem_step {parts : List String} {part : String} (hparts : ∀ f ∈ parts, IsName f)
    (hpart : '/' ∉ part.toList) : ∀ f ∈ step true parts part, IsName f := by
  by_cases hdot : part = "" ∨ part = "."
  · have hstay : step true parts part = parts := by rw [step.eq_def, if_pos (by simpa using hdot)]
    rwa [hstay]
  · rw [not_or] at hdot
    by_cases hdots : part = ".."
    · rw [hdots, step_dots hparts]
      exact fun f hf => hparts f (mem_of_mem_tail hf)
    · have hname : IsName part := ⟨hpart, hdot.1, hdot.2, hdots⟩
      rw [hname.step_eq, forall_mem_cons]
      exact ⟨hname, hparts⟩

theorem isName_of_mem_walk {parts : List String} (hparts : ∀ f ∈ parts, IsName f) (p : String) :
    ∀ f ∈ walk true parts p, IsName f := by
  have hpieces : ∀ part ∈ Text.splitOn p "/", '/' ∉ part.toList := by
    intro part hpart
    obtain ⟨cs, hcs, rfl⟩ := mem_map.1 hpart
    rw [String.toList_ofList]
    exact notMem_of_mem_splitGo not_mem_nil hcs
  rw [walk]
  generalize Text.splitOn p "/" = pieces at hpieces
  induction pieces generalizing parts with
  | nil => exact hparts
  | cons part pieces ih =>
    rw [forall_mem_cons] at hpieces
    exact ih (isName_of_mem_step hparts hpieces.1) hpieces.2

def startOf (p : String) : String :=
  if startsWith p "//" && !startsWith p "///" then "//" else "/"

theorem startOf_cases (p : String) : startOf p = "/" ∨ startOf p = "//" := by
  rw [startOf]
  split <;> simp

theorem normal_of_isAbsolute {p : String} (hp : isAbsolute p = true) :
    normal p = startOf p ++ Text.join "/" (walk true [] p).reverse := by
  have hempty : ¬ p.isEmpty = true := by simpa using ne_empty_of_isAbsolute hp
  have hs : ¬ (startOf p ++ Text.join "/" (walk true [] p).reverse).isEmpty = true := by
    rw [String.isEmpty_iff, String.append_eq_empty_iff]
    rcases startOf_cases p with h | h <;> simp [h]
  rw [normal, if_neg hempty, hp]
  exact if_neg hs

theorem startsWith_join {a b p : String} (ha : isAbsolute a = true) (hb : isAbsolute b = false)
    (hp : ∀ c ∈ p.toList, c = '/') : startsWith (join a b) p = startsWith a p := by
  rw [join_of_relative a hb, Bool.eq_iff_iff, startsWith_iff, startsWith_iff, String.toList_append]
  have hstarts : a.toList <+: (asDirectory a).toList := by
    rw [asDirectory]
    split
    · exact prefix_rfl
    · rw [String.toList_append]
      exact prefix_append _ _
  refine ⟨fun h => ?_, fun h => h.trans (hstarts.trans (prefix_append _ _))⟩
  have hdir : p.toList <+: (asDirectory a).toList := by
    obtain hle | ⟨s, hs⟩ := prefix_or_prefix_of_prefix h (prefix_append _ _)
    · exact hle
    · -- what goes on behind the directory would be slashes, but what is put there has none in front
      rw [← hs, prefix_append_right_inj] at h
      cases s with
      | nil => rw [← hs, append_nil]
      | cons c s =>
        have hc : c = '/' := hp c (hs ▸ by simp)
        obtain ⟨cs, hcs⟩ := h
        have : isAbsolute b = true := isAbsolute_iff.2 (by rw [← hcs, hc]; rfl)
        rw [hb] at this
        cases this
  rw [asDirectory] at hdir
  split at hdir
  case isTrue => exact hdir
  case isFalse hslash =>
    rw [String.toList_append, show "/".toList = ['/'] from rfl, prefix_concat_iff] at hdir
    refine hdir.resolve_left fun heq => hslash ?_
    have hne : a.toList ≠ [] := by simpa using ne_empty_of_isAbsolute ha
    have hlast : a.toList.getLast hne = '/' := hp _ (heq ▸ mem_append_left _ (getLast_mem hne))
    rw [Bool.or_eq_true, endsWith_slash_iff, getLast?_eq_some_getLast hne, hlast]
    exact .inr rfl

theorem startOf_join {a b : String} (ha : isAbsolute a = true) (hb : isAbsolute b = false) :
    startOf (join a b) = startOf a := by
  have htwo : ∀ c ∈ "//".toList, c = '/' := by simp
  have hthree : ∀ c ∈ "///".toList, c = '/' := by simp
  rw [startOf, startOf, startsWith_join ha hb htwo, startsWith_join ha hb hthree]

theorem normal_join {a f : String} (ha : isAbsolute a = true) (hf : '/' ∉ f.toList) :
    normal (join a f) = startOf a ++ Text.join "/" (step true (walk true [] a) f).reverse := by
  have hrel := isAbsolute_of_notMem hf
  rw [normal_of_isAbsolute (isAbsolute_join (.inl ha)), startOf_join ha hrel, walk_join _ _ _ hrel,
    walk_of_notMem _ _ hf]

theorem startsWith_parent (p : String) : startsWith p (parent p) = true := by
  rw [startsWith_iff, parent, split]
  cases hcut : cutLast '/' p.toList with
  | none => exact nil_prefix
  | some parts =>
    obtain ⟨head, tail⟩ := parts
    rw [append_of_cutLast hcut]
    simp only [String.toList_ofList]
    split
    · exact ⟨tail, by simp⟩
    · have hstrip : stripEnd (· = '/') head <+: head := rdropWhile_prefix _ _
      exact hstrip.trans (prefix_append _ _)

theorem parent_append (d : String) (hf : '/' ∉ f.toList) :
    parent (d ++ "/" ++ f) = String.ofList (if d.toList.all (· = '/') then d.toList ++ ['/']
      else stripEnd (· = '/') d.toList) := by
  have hchars : (d ++ "/" ++ f).toList = d.toList ++ '/' :: f.toList := by simp
  rw [parent, split, hchars, cutLast_append_cons hf]

theorem parent_below_start {s f : String} (hs : s = "/" ∨ s = "//") (hf : '/' ∉ f.toList) : parent (s ++ f) = s := by
  rcases hs with rfl | rfl
  · exact (parent_append "" hf).trans (by decide)
  · exact (parent_append "/" hf).trans (by decide)

theorem parent_below {d f : String} (hd : ¬ endsWith d "/" = true) (hne : d ≠ "")
    (hf : '/' ∉ f.toList) : parent (d ++ "/" ++ f) = d := by
  have hne : d.toList ≠ [] := by simpa using hne
  have hlast : d.toList.getLast hne ≠ '/' := by
    rw [endsWith_slash_iff, getLast?_eq_some_getLast hne] at hd
    exact fun h => hd (by rw [h])
  have hall : ¬ d.toList.all (· = '/') = true := by
    rw [all_eq_true]
    exact fun h => hlast (by simpa using h _ (getLast_mem hne))
  have hstrip : stripEnd (· = '/') d.toList = d.toList :=
    rdropWhile_eq_self_iff.2 fun _ => by simpa using hlast
  rw [parent_append d hf, if_neg hall, hstrip, String.ofList_toList]

theorem not_endsWith_join {s : String} {ns : List String} (hns : ∀ f ∈ ns, IsName f) (hne : ns ≠ []) :
    ¬ endsWith (s ++ Text.join "/" ns) "/" = true := by
  obtain ⟨ms, g, rfl⟩ := (eq_nil_or_concat' ns).resolve_left hne
  have hg := hns g (by simp)
  have hchars : ∃ cs, (s ++ Text.join "/" (ms ++ [g])).toList = cs ++ g.toList := by
    rw [join_concat]
    split
    · exact ⟨s.toList, String.toList_append ..⟩
    · exact ⟨(s ++ Text.join "/" ms ++ "/").toList, by simp⟩
  obtain ⟨cs, hcs⟩ := hchars
  have hgne : g.toList ≠ [] := by simpa using hg.ne_empty
  rw [endsWith_slash_iff, hcs, getLast?_append_of_ne_nil _ hgne]
  exact fun hlast => hg.notMem (mem_of_getLast? hlast)

theorem parent_start_join {s f : String} {ns : List String} (hs : s = "/" ∨ s = "//")
    (hns : ∀ g ∈ ns, IsName g) (hf : '/' ∉ f.toList) :
    parent (s ++ Text.join "/" (ns ++ [f])) = s ++ Text.join "/" ns := by
  rw [join_concat]
  split
  case isTrue hnil =>
    obtain rfl : ns = [] := by simpa using hnil
    rw [parent_below_start hs hf]
    exact (String.append_empty ..).symm
  case isFalse hne =>
    have hne : ns ≠ [] := by simpa using hne
    have hstart : s ++ Text.join "/" ns ≠ "" := by
      rcases hs with rfl | rfl <;> simp
    rw [← String.append_assoc, ← String.append_assoc, parent_below (not_endsWith_join hns hne) hstart hf]

section

variable {a : String} (ha : isAbsolute a = true)

include ha

theorem normal_join_dot : normal (join a ".") = normal a := by
  rw [normal_join ha (by decide), normal_of_isAbsolute ha]
  rfl

theorem normal_join_dots : normal (join a "..") = parent (normal a) := by
  have hnames : ∀ f ∈ walk true [] a, IsName f := isName_of_mem_walk (by simp) a
  rw [normal_join ha (by decide), normal_of_isAbsolute ha, step_dots hnames]
  cases hparts : walk true [] a with
  | nil =>
    have hroot := parent_below_start (startOf_cases a) (show '/' ∉ "".toList by decide)
    rw [String.append_empty] at hroot
    change startOf a ++ "" = parent (startOf a ++ "")
    rw [String.append_empty, hroot]
  | cons f fs =>
    rw [hparts, forall_mem_cons] at hnames
    rw [tail_cons, reverse_cons, parent_start_join (startOf_cases a) _ hnames.1.notMem]
    exact fun g hg => hnames.2 g (mem_reverse.1 hg)

theorem parent_normal_join (hf : IsName f) : parent (normal (join a f)) = normal a := by
  rw [normal_join ha hf.notMem, normal_of_isAbsolute ha, hf.step_eq, reverse_cons,
    parent_start_join (startOf_cases a) _ hf.notMem]
  exact fun g hg => isName_of_mem_walk (by simp) a g (mem_reverse.1 hg)

theorem normal_join_ne (hf : IsName f) : normal (join a f) ≠ normal a := by
  rw [normal_join ha hf.notMem, normal_of_isAbsolute ha, hf.step_eq, reverse_cons, join_concat]
  intro heq
  have hcancel := String.append_right_inj _ |>.1 heq
  split at hcancel
  case isTrue hnil =>
    rw [hnil] at hcancel
    exact hf.ne_empty hcancel
  case isFalse =>
    have hlength := congrArg String.length hcancel
    simp only [String.length_append] at hlength
    have : "/".length = 1 := by decide
    omega

end

theorem slash_notMem_base (p : String) : '/' ∉ (base p).toList := by
  have hcut := notMem_of_cutLast '/' p.toList
  rw [base, split]
  split
  case h_1 hnone => rwa [hnone] at hcut
  case h_2 hsome =>
    rw [hsome] at hcut
    rw [String.toList_ofList]
    exact hcut

/-! ## Paths of names -/

/-- A path that names every directory from the root on. -/
def IsPlain (p : String) : Prop :=
  ∃ names, names ≠ [] ∧ (∀ f ∈ names, IsName f) ∧ p = "/" ++ Text.join "/" names

theorem splitOn_join (hne : names ≠ []) (hnames : ∀ f ∈ names, IsName f) :
    Text.splitOn (Text.join "/" names) "/" = names :=
  Text.splitOn_join rfl hne fun f hf => (hnames f hf).notMem

theorem splitOn_plain (hne : names ≠ []) (hnames : ∀ f ∈ names, IsName f) :
    Text.splitOn ("/" ++ Text.join "/" names) "/" = "" :: names := by
  have hsplit := @Text.splitOn_append "/" _ rfl "" (Text.join "/" names)
  rw [String.empty_append] at hsplit
  rw [hsplit, splitOn_join hne hnames]
  rfl

theorem parts_plain (hne : names ≠ []) (hnames : ∀ f ∈ names, IsName f) :
    parts ("/" ++ Text.join "/" names) = names := by
  rw [parts, splitOn_plain hne hnames, filter_cons_of_neg (by decide), filter_eq_self]
  exact fun f hf => by simpa using (hnames f hf).ne_empty

theorem foldl_step_names (hnames : ∀ f ∈ names, IsName f) (absolute : Bool)
    (parts : List String) : names.foldl (step absolute) parts = names.reverse ++ parts := by
  induction names generalizing parts with
  | nil => rfl
  | cons f names ih =>
    rw [forall_mem_cons] at hnames
    rw [foldl_cons, hnames.1.step_eq, ih hnames.2]
    simp

theorem plain_concat (hne : names ≠ []) (f : String) :
    "/" ++ Text.join "/" (names ++ [f]) = "/" ++ Text.join "/" names ++ "/" ++ f := by
  rw [join_concat, if_neg hne]
  simp only [String.append_assoc]

theorem startOf_plain (hne : names ≠ []) (hnames : ∀ f ∈ names, IsName f) :
    startOf ("/" ++ Text.join "/" names) = "/" := by
  obtain ⟨f, names, rfl⟩ := exists_cons_of_ne_nil hne
  have hf := hnames f mem_cons_self
  have hone : ¬ startsWith ("/" ++ Text.join "/" (f :: names)) "//" = true := by
    rw [startsWith_iff, String.toList_append, toList_join_cons]
    obtain ⟨c, cs, hchars⟩ := exists_cons_of_ne_nil (show f.toList ≠ [] by simpa using hf.ne_empty)
    have hc : '/' ≠ c := fun h => hf.notMem (hchars ▸ h ▸ mem_cons_self)
    simp [hchars, hc]
  rw [startOf, Bool.eq_false_of_not_eq_true hone]
  rfl

namespace IsPlain

variable {p : String}

theorem isAbsolute (hp : IsPlain p) : isAbsolute p = true := by
  obtain ⟨names, -, -, rfl⟩ := hp
  rw [isAbsolute_append (by decide)]
  decide

theorem normal_eq (hp : IsPlain p) : normal p = p := by
  have habs := hp.isAbsolute
  obtain ⟨names, hne, hnames, rfl⟩ := hp
  rw [normal_of_isAbsolute habs, startOf_plain hne hnames, walk, splitOn_plain hne hnames, foldl_cons,
    show step true [] "" = [] from rfl, foldl_step_names hnames]
  simp

theorem not_endsWith (hp : IsPlain p) : ¬ endsWith p "/" = true := by
  obtain ⟨names, hne, hnames, rfl⟩ := hp
  exact not_endsWith_join hnames hne

theorem below (hp : IsPlain p) (hf : IsName f) : IsPlain (p ++ "/" ++ f) := by
  obtain ⟨names, hne, hnames, rfl⟩ := hp
  refine ⟨names ++ [f], by simp, ?_, ?_⟩
  · simpa [or_imp, forall_and] using ⟨hnames, hf⟩
  · rw [plain_concat hne]

theorem join_eq (hp : IsPlain p) (hf : '/' ∉ f.toList) : join p f = p ++ "/" ++ f := by
  rw [join_of_relative p (isAbsolute_of_notMem hf), asDirectory, if_neg]
  rw [Bool.or_eq_true, not_or]
  exact ⟨by simpa using ne_empty_of_isAbsolute hp.isAbsolute, hp.not_endsWith⟩

theorem parent_below (hp : IsPlain p) (hf : '/' ∉ f.toList) : parent (p ++ "/" ++ f) = p :=
  Path.parent_below hp.not_endsWith (ne_empty_of_isAbsolute hp.isAbsolute) hf

theorem isBelow_iff (hp : IsPlain p) {q : String} : isBelow q p = true ↔ ∃ cs, q.toList = p.toList ++ '/' :: cs := by
  have hne : p ≠ "/" := by
    rintro rfl
    exact hp.not_endsWith (by decide)
  have hchars : (p ++ "/").toList = p.toList ++ ['/'] := String.toList_append
  rw [isBelow, if_neg hne, startsWith_iff, hchars]
  constructor
  · rintro ⟨cs, hcs⟩
    exact ⟨cs, by rw [← hcs, append_assoc, singleton_append]⟩
  · rintro ⟨cs, hcs⟩
    exact ⟨cs, by rw [hcs, append_assoc, singleton_append]⟩

theorem isBelow_below (hp : IsPlain p) (f : String) : isBelow (p ++ "/" ++ f) p = true :=
  hp.isBelow_iff.2 ⟨f.toList, by simp⟩

theorem ne_of_isBelow (hp : IsPlain p) {q : String} (hq : isBelow q p = true) : q ≠ p := by
  obtain ⟨cs, hcs⟩ := hp.isBelow_iff.1 hq
  rintro rfl
  simp at hcs

theorem ancestors_below (hp : IsPlain p) (hf : IsName f) :
    ancestors (p ++ "/" ++ f) = ancestors p ++ [p ++ "/" ++ f] := by
  obtain ⟨names, hne, hnames, rfl⟩ := hp
  have hconcat : ∀ g ∈ names ++ [f], IsName g := by
    simpa [or_imp, forall_and] using ⟨hnames, hf⟩
  rw [← plain_concat hne, ancestors, ancestors, parts_plain (by simp) hconcat,
    parts_plain hne hnames, length_append, length_singleton, range_succ,
    drop_append_of_le_length (by simp), map_append, map_singleton]
  congr 1
  · refine map_congr_left fun n hn => ?_
    have hle : n ≤ names.length := by
      have := mem_range.1 (mem_of_mem_drop hn)
      omega
    rw [take_append_of_le_length hle]
  · rw [take_of_length_le (by simp)]

end IsPlain

end Path

namespace Host

theorem leadsTo_absolutePath_of_leadsTo (h : Host) {p f : String} (hp : Path.LeadsTo p f)
    (hf : Path.IsName f) : Path.LeadsTo (h.absolutePath p) f := by
  have hpath := (hp.join h.cwd).normal hf
  rw [absolutePath]
  split
  case isFalse => exact hpath
  case isTrue hfixed =>
    obtain ⟨d, hd, hstart⟩ := any_eq_true.1 hfixed
    rcases hpath with hpath | ⟨e, he⟩
    · -- a name has no slash, the fixed directories have
      have hslash : '/' ∈ d.toList := by
        simp only [fixedDirectories, mem_cons, not_mem_nil, or_false] at hd
        rcases hd with rfl | rfl | rfl <;> decide
      rw [startsWith_iff, hpath] at hstart
      exact absurd (hstart.subset hslash) hf.notMem
    · exact .inr ⟨h.root ++ e, by simp only [he, String.append_assoc]⟩

theorem leadsTo_absolutePath (h : Host) (dir : String) (hf : Path.IsName f) :
    Path.LeadsTo (h.absolutePath (Path.join dir f)) f :=
  h.leadsTo_absolutePath_of_leadsTo ((Path.LeadsTo.refl f).join dir) hf

theorem exists_leadsTo_absolutePath (h : Host) (dir a : String) {s : String} (hslash : '/' ∉ s.toList)
    (hlong : 2 < s.length) :
    ∃ f, Path.IsName (f ++ s) ∧ Path.LeadsTo (h.absolutePath (Path.join dir (a ++ s))) (f ++ s) := by
  obtain ⟨f, hf, hleads⟩ := Path.exists_leadsTo_append a s
  have hne : ∀ g : String, g.length ≤ 2 → f ++ s ≠ g := by
    rintro g hg rfl
    rw [String.length_append] at hg
    omega
  have hname : Path.IsName (f ++ s) :=
    ⟨by simp [hf, hslash], hne _ (by decide), hne _ (by decide), hne _ (by decide)⟩
  exact ⟨f, hname, h.leadsTo_absolutePath_of_leadsTo (hleads.join dir) hname⟩

theorem absolutePath_join_inj (h : Host) (dir : String) {f g : String} (hf : Path.IsName f)
    (hg : Path.IsName g) (heq : h.absolutePath (Path.join dir f) = h.absolutePath (Path.join dir g)) :
    f = g :=
  (heq ▸ h.leadsTo_absolutePath dir hf).unique (h.leadsTo_absolutePath dir hg) hf hg

/-! ## Temporary directories -/

/-- Temporary directories can be made: the place for them is there. -/
structure HasTemporary (h : Host) : Prop where
  plain : Path.IsPlain h.root
  notFixed : ∀ d ∈ fixedDirectories, ¬ startsWith (h.root ++ "/tmp") d = true
  directories : ∀ q ∈ ancestors (h.root ++ "/tmp"), entryAt h q = some .directory

def temporaryName (start : String) (n : Nat) : String := start ++ "t" ++ ofNat n

def temporaryPath (h : Host) (start : String) (n : Nat) : String :=
  h.root ++ "/tmp" ++ "/" ++ temporaryName start n

theorem isName_temporaryName (hstart : '/' ∉ start.toList) (n : Nat) :
    Path.IsName (temporaryName start n) := by
  have hslash : '/' ∉ (temporaryName start n).toList := by
    simp [temporaryName, hstart, notMem_ofNat]
  have ht : 't' ∈ (temporaryName start n).toList := by simp [temporaryName]
  refine ⟨hslash, ?_, ?_, ?_⟩
  all_goals
    intro heq
    rw [heq] at ht
    exact absurd ht (by decide)

namespace HasTemporary

variable {h : Host} (ht : h.HasTemporary)

include ht

theorem plain_tmp : Path.IsPlain (h.root ++ "/tmp") := by
  have hname : Path.IsName "tmp" := ⟨by decide, by decide, by decide, by decide⟩
  have hplain := ht.plain.below hname
  rwa [String.append_assoc] at hplain

theorem absolutePath_eq {p : String} (hp : Path.IsPlain p)
    (hbelow : startsWith p (h.root ++ "/tmp") = true) : h.absolutePath p = p := by
  have hjoin : Path.join h.cwd p = p := by rw [Path.join, if_pos hp.isAbsolute]
  have hfixed : ¬ startsWithAny p fixedDirectories = true := by
    rw [startsWithAny, any_eq_true]
    rintro ⟨d, hd, hstarts⟩
    rw [startsWith_iff] at hstarts hbelow
    obtain hle | hle := prefix_or_prefix_of_prefix hstarts hbelow
    · exact ht.notFixed d hd (startsWith_iff.2 hle)
    · have htmp : "/tmp".toList <:+: d.toList := by
        rw [String.toList_append] at hle
        exact (suffix_append _ _).isInfix.trans hle.isInfix
      have hnone : ∀ d ∈ fixedDirectories, ¬ "/tmp".toList <:+: d.toList := by decide +kernel
      exact hnone d hd htmp
  simp only [absolutePath, hjoin, hp.normal_eq]
  rw [if_neg hfixed]

theorem put {p : String} (hp : h.CanWrite p) (s : String) : (h.put p s).HasTemporary := by
  refine ⟨ht.plain, ht.notFixed, fun q hq => ?_⟩
  have hdir : entryAt h q = some .directory := ht.directories q hq
  rw [entryAt_put hp, if_neg, hdir]
  rintro rfl
  exact hp.2.1 hdir

variable {start : String} (hstart : '/' ∉ start.toList)

include hstart

theorem plain_temporaryPath (n : Nat) : Path.IsPlain (h.temporaryPath start n) :=
  ht.plain_tmp.below (isName_temporaryName hstart n)

theorem absolutePath_temporaryPath (n : Nat) :
    h.absolutePath (h.temporaryPath start n) = h.temporaryPath start n := by
  refine ht.absolutePath_eq (ht.plain_temporaryPath hstart n) ?_
  rw [temporaryPath, String.append_assoc]
  exact startsWith_append _ _

theorem ancestors_temporaryPath (n : Nat) : ancestors (h.temporaryPath start n) =
      ancestors (h.root ++ "/tmp") ++ [h.temporaryPath start n] :=
  ht.plain_tmp.ancestors_below (isName_temporaryName hstart n)

theorem absolutePath_join_temporaryPath (n : Nat) (hf : Path.IsName f) :
    h.absolutePath (Path.join (h.temporaryPath start n) f) = h.temporaryPath start n ++ "/" ++ f := by
  have hplain := ht.plain_temporaryPath hstart n
  rw [hplain.join_eq hf.notMem]
  refine ht.absolutePath_eq (hplain.below hf) ?_
  rw [temporaryPath, String.append_assoc, String.append_assoc, String.append_assoc]
  exact startsWith_append _ _

end HasTemporary

end Host

namespace Job

theorem runOn_makeTemporary {h : Host} (ht : h.HasTemporary)
    (hstart : '/' ∉ start.toList) {n : Nat} (habsent : entryAt h (h.temporaryPath start n) = none) :
    ∃ h', (makeDirectories (h.temporaryPath start n) true).runOn h = (.ok (), h') ∧ h.OnlyFiles h' ∧
      ∀ q, entryAt h' q = if q = h.temporaryPath start n then some .directory else entryAt h q := by
  have hplain := ht.plain_temporaryPath hstart n
  have hpath := ht.absolutePath_temporaryPath hstart n
  have hancestors := ht.ancestors_temporaryPath hstart n
  have hfree : h.Free (ancestors (h.absolutePath (h.temporaryPath start n))) := by
    intro q hq c
    rw [hpath, hancestors, mem_append, mem_singleton] at hq
    rcases hq with hq | rfl
    · simp [ht.directories q hq]
    · simp [habsent]
  have hnone : entryAt h (h.absolutePath (h.temporaryPath start n)) = none := by
    rw [hpath]
    exact habsent
  obtain ⟨h', hrun, honly, hentry⟩ :=
    runOn_makeDirectories (Path.ne_empty_of_isAbsolute hplain.isAbsolute) hnone hfree true
  refine ⟨h', hrun, honly, fun q => ?_⟩
  rw [hentry, hpath, hancestors]
  by_cases hq : q = h.temporaryPath start n
  · rw [if_pos (by simp [hq]), if_pos hq]
  · rw [if_neg hq]
    split
    case isTrue hmem =>
      rw [mem_append, mem_singleton] at hmem
      rw [ht.directories q (hmem.resolve_right hq)]
    case isFalse => rfl

theorem runOn_temporaryDir {h : Host} (ht : h.HasTemporary) (hstart : '/' ∉ start.toList)
    (habsent : entryAt h (h.temporaryPath start h.temporary) = none) :
    ∃ h', (temporaryDir start).runOn h = (.ok (h.temporaryPath start h.temporary), h') ∧
      Host.OnlyFiles { h with temporary := h.temporary + 1 } h' ∧
      ∀ q, entryAt h' q =
        if q = h.temporaryPath start h.temporary then some .directory else entryAt h q := by
  have htmp : Path.join (h.root ++ "/tmp") (start ++ "t" ++ ofNat h.temporary ++ "") =
      h.temporaryPath start h.temporary := by
    rw [String.append_empty]
    exact ht.plain_tmp.join_eq (Host.isName_temporaryName hstart _).notMem
  have hfresh : (freshName start).runOn h =
      (.ok (h.temporaryPath start h.temporary), { h with temporary := h.temporary + 1 }) := by
    rw [← htmp]
    rfl
  have ht' : Host.HasTemporary { h with temporary := h.temporary + 1 } :=
    ⟨ht.plain, ht.notFixed, ht.directories⟩
  obtain ⟨h', hrun, honly, hentry⟩ := runOn_makeTemporary ht' hstart habsent
  refine ⟨h', ?_, honly, hentry⟩
  rw [temporaryDir, runOn_bind hfresh]
  exact runOn_bind hrun _

end Job

namespace Host

/-- Whether a place is a directory or below it. -/
def AtOrBelow (q dir : String) : Prop := q = dir ∨ Path.isBelow q dir = true

/-- Whether nothing is at a place or below it. -/
def FreshAt (h : Host) (dir : String) : Prop := ∀ q, AtOrBelow q dir → entryAt h q = none

/-- What a host has is there in another one, at the same paths. -/
structure Keeps (h h' : Host) : Prop where
  absolutePath_eq : h'.absolutePath = h.absolutePath
  temporaryPath_eq : h'.temporaryPath = h.temporaryPath
  entryAt_eq : ∀ {q e}, entryAt h q = some e → entryAt h' q = some e

namespace Keeps

variable {h h' h'' : Host}

theorem refl (h : Host) : h.Keeps h := ⟨rfl, rfl, id⟩

theorem trans (hh' : h.Keeps h') (hh'' : h'.Keeps h'') : h.Keeps h'' :=
  ⟨hh''.absolutePath_eq.trans hh'.absolutePath_eq, hh''.temporaryPath_eq.trans hh'.temporaryPath_eq,
    fun hq => hh''.entryAt_eq (hh'.entryAt_eq hq)⟩

theorem entry?_eq (hh' : h.Keeps h') {q : String} {e : Entry} (hq : h.entry? q = some e) : h'.entry? q = some e := by
  rw [Host.entry?] at hq ⊢
  split at hq
  case isTrue => cases hq
  case isFalse hne =>
    rw [if_neg hne, hh'.absolutePath_eq]
    exact hh'.entryAt_eq hq

end Keeps

/-- From one host to another, a temporary directory was made and filled. -/
structure Filled (h : Host) (dir : String) (h' : Host) : Prop where
  only : OnlyFiles { h with temporary := h.temporary + 1 } h'
  made : entryAt h' dir = some .directory
  other : ∀ q, ¬ AtOrBelow q dir → entryAt h' q = entryAt h q

theorem not_atOrBelow_of_fresh {h : Host} {dir q : String} {e : Entry} (hfresh : h.FreshAt dir)
    (hq : entryAt h q = some e) : ¬ AtOrBelow q dir := by
  intro hin
  rw [hfresh q hin] at hq
  cases hq

namespace Filled

variable {h h' : Host} {dir : String} (hf : h.Filled dir h')

include hf

theorem absolutePath_eq : h'.absolutePath = h.absolutePath := hf.only.absolutePath_eq

theorem root_eq : h'.root = h.root := by rw [hf.only]

theorem temporary_eq : h'.temporary = h.temporary + 1 := by rw [hf.only]

theorem temporaryPath_eq : h'.temporaryPath = h.temporaryPath := by
  funext start n
  rw [temporaryPath, temporaryPath, hf.root_eq]

theorem keeps (hfresh : h.FreshAt dir) : h.Keeps h' :=
  ⟨hf.absolutePath_eq, hf.temporaryPath_eq, fun hq => by
    rw [hf.other _ (not_atOrBelow_of_fresh hfresh hq), hq]⟩

theorem canWrite (hfresh : h.FreshAt dir) {q : String} (hq : h.CanWrite q)
    (hout : ¬ AtOrBelow (h.absolutePath q) dir) : h'.CanWrite q := by
  obtain ⟨hne, hfile, hparent⟩ := hq
  rw [CanWrite, hf.absolutePath_eq, hf.other _ hout]
  exact ⟨hne, hfile, (hf.keeps hfresh).entryAt_eq hparent⟩

theorem hasTemporary (hfresh : h.FreshAt dir) (ht : h.HasTemporary) : h'.HasTemporary := by
  refine ⟨?_, ?_, ?_⟩
  · rw [hf.root_eq]
    exact ht.plain
  · rw [hf.root_eq]
    exact ht.notFixed
  · rw [hf.root_eq]
    exact fun q hq => (hf.keeps hfresh).entryAt_eq (ht.directories q hq)

end Filled

theorem AtOrBelow.exists_append {q dir : String} (hdir : Path.IsPlain dir) (hq : AtOrBelow q dir) :
    ∃ cs, q.toList = dir.toList ++ cs ∧ (cs = [] ∨ ∃ ds, cs = '/' :: ds) := by
  rcases hq with rfl | hq
  · exact ⟨[], (append_nil _).symm, .inl rfl⟩
  · obtain ⟨ds, hds⟩ := hdir.isBelow_iff.1 hq
    exact ⟨'/' :: ds, hds, .inr ⟨ds, rfl⟩⟩

theorem not_atOrBelow_temporaryPath {h : Host} (ht : h.HasTemporary)
    (hstart : '/' ∉ start.toList) {m n : Nat} (hmn : m ≠ n) {q : String}
    (hm : AtOrBelow q (h.temporaryPath start m)) : ¬ AtOrBelow q (h.temporaryPath start n) := by
  intro hn
  obtain ⟨cs, hcs, hcases⟩ := hm.exists_append (ht.plain_temporaryPath hstart m)
  obtain ⟨ds, hds, hdcases⟩ := hn.exists_append (ht.plain_temporaryPath hstart n)
  have hslash := fun k => (isName_temporaryName hstart k).notMem
  have hsame : (temporaryName start m).toList ++ cs = (temporaryName start n).toList ++ ds := by
    rw [hcs] at hds
    simpa [temporaryPath] using hds
  have hnames : temporaryName start m = temporaryName start n → False := by
    intro heq
    have : (ofNat m).toList = (ofNat n).toList := by
      simpa [temporaryName] using congrArg String.toList heq
    exact hmn (ofNat_injective (String.toList_injective this))
  rcases hcases with rfl | ⟨cs, rfl⟩ <;> rcases hdcases with rfl | ⟨ds, rfl⟩
  · rw [append_nil, append_nil] at hsame
    exact hnames (String.toList_injective hsame)
  · rw [append_nil] at hsame
    exact hslash m (hsame ▸ by simp)
  · rw [append_nil] at hsame
    exact hslash n (hsame ▸ by simp)
  · exact hnames (String.toList_injective ((append_cons_inj (hslash m) (hslash n)).1 hsame).1)

end Host

end Vetting
