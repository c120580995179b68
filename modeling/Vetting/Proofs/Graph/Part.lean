import Vetting.Proofs.Effects
import Vetting.Proofs.Fault
import Vetting.Proofs.Graph.Closure
import Vetting.Survey.Dependencies

/-!
# Parts of graphs

A graph can be cut down to some seeds and everything that they depend on, found by a breadth-first search from
each seed.
-/

namespace Vetting

open List Job Package.Row

namespace Graph

/-- Each node is there once, no two of them count as the same, and edges join nodes. -/
structure IsProper (g : Graph) : Prop where
  same_iff : ∀ a ∈ g.names, ∀ b ∈ g.names, Literal.same a b = true ↔ a = b
  nodup : g.names.Nodup
  ends : ∀ e ∈ g.edges, e.1 ∈ g.names ∧ e.2 ∈ g.names

namespace IsProper

variable {g : Graph} (hg : g.IsProper) {a b : Literal}

include hg

theorem isIn_iff (ha : a ∈ g.names) {bs : List Literal} (hbs : ∀ b ∈ bs, b ∈ g.names) :
    Literal.isIn a bs = true ↔ a ∈ bs := by
  rw [Literal.isIn, any_eq_true]
  constructor
  · rintro ⟨b, hb, hsame⟩
    exact (hg.same_iff a ha b (hbs b hb)).1 hsame ▸ hb
  · intro hmem
    exact ⟨a, hmem, (hg.same_iff a ha a ha).2 rfl⟩

theorem hasNode (ha : a ∈ g.names) : g.hasNode a = true := by
  obtain ⟨p, hp, rfl⟩ := mem_map.1 ha
  exact any_eq_true.2 ⟨p, hp, (hg.same_iff _ ha _ ha).2 rfl⟩

theorem mem_successors (ha : a ∈ g.names) : b ∈ g.successors a ↔ (a, b) ∈ g.edges := by
  simp only [successors, mem_map, mem_filter]
  constructor
  · rintro ⟨e, ⟨he, hsame⟩, rfl⟩
    exact (hg.same_iff _ (hg.ends e he).1 a ha).1 hsame ▸ he
  · intro he
    exact ⟨(a, b), ⟨he, (hg.same_iff a ha a ha).2 rfl⟩, rfl⟩

theorem mem_names_of_mem_successors (ha : a ∈ g.names) (hb : b ∈ g.successors a) : b ∈ g.names :=
  (hg.ends _ ((hg.mem_successors ha).1 hb)).2

theorem mem_names_of_reachable (ha : a ∈ g.names) (h : Reachable g.successors a b) : b ∈ g.names :=
  h.mem_of_closed (S := {n | n ∈ g.names}) (fun _ hv _ hw => hg.mem_names_of_mem_successors hv hw) ha

end IsProper

theorem isProper_of_texts {g : Graph} (ns : List String) (hnames : g.names = ns.map .text)
    (hnodup : ns.Nodup) (hends : ∀ e ∈ g.edges, e.1 ∈ g.names ∧ e.2 ∈ g.names) : g.IsProper := by
  refine ⟨fun a ha b hb => ?_, ?_, hends⟩
  · rw [hnames] at ha hb
    obtain ⟨s, -, rfl⟩ := mem_map.1 ha
    obtain ⟨t, -, rfl⟩ := mem_map.1 hb
    simp [Literal.same]
  · rw [hnames]
    exact hnodup.map fun s t heq => Literal.text.inj heq

theorem Frontier.take {α : Type} {next : α → List α} {start v : α} {done queue new : List α}
    (hf : Frontier next start done (v :: queue)) (hnodup : (done ++ v :: queue ++ new).Nodup)
    (hnew : ∀ w ∈ new, w ∈ next v) (hall : ∀ w ∈ next v, w ∈ done ++ v :: queue ++ new) :
    Frontier next start (done ++ [v]) (queue ++ new) := by
  have hmem : ∀ w, w ∈ done ++ [v] ++ (queue ++ new) ↔ w ∈ done ++ v :: queue ++ new := by simp
  refine ⟨?_, fun w hw => ?_, (hmem _).2 (mem_append_left _ hf.covers), fun u hu w hw => ?_⟩
  · have hsub : (done ++ [v]).Sublist (done ++ v :: queue ++ new) := by simp
    exact hnodup.sublist hsub
  · rcases mem_append.1 ((hmem w).1 hw) with hw | hw
    · exact hf.reachable w hw
    · exact .step (hf.reachable v (by simp)) (hnew w hw)
  · rw [hmem]
    rcases mem_append.1 hu with hu | hu
    · exact mem_append_left _ (hf.closed u hu w hw)
    · obtain rfl := mem_singleton.1 hu
      exact hall w hw

namespace IsProper

variable {g : Graph} (hg : g.IsProper)

include hg

/-- The new nodes of a list are added to those seen and to the queue. -/
theorem exists_new {ms : List Literal} (hms : ∀ m ∈ ms, m ∈ g.names) {seen : List Literal}
    (hseen : ∀ m ∈ seen, m ∈ g.names) (hnodup : seen.Nodup) (queue : List Literal) :
    ∃ new, ms.foldl (fun p m => if Literal.isIn m p.1 then p else (p.1 ++ [m], p.2 ++ [m]))
        (seen, queue) = (seen ++ new, queue ++ new) ∧
      (seen ++ new).Nodup ∧ (∀ m ∈ new, m ∈ ms) ∧ ∀ m ∈ ms, m ∈ seen ++ new := by
  induction ms generalizing seen queue with
  | nil => exact ⟨[], by simp, by simpa using hnodup, by simp, by simp⟩
  | cons m ms ih =>
    have hm := hms m mem_cons_self
    have hrest := fun x hx => hms x (mem_cons_of_mem m hx)
    rw [foldl_cons]
    by_cases hin : m ∈ seen
    · rw [if_pos ((hg.isIn_iff hm hseen).2 hin)]
      obtain ⟨new, heq, hnd, hsub, hall⟩ := ih hrest hseen hnodup queue
      refine ⟨new, heq, hnd, fun x hx => mem_cons_of_mem m (hsub x hx), fun x hx => ?_⟩
      rcases mem_cons.1 hx with rfl | hx
      · exact mem_append_left _ hin
      · exact hall x hx
    · rw [if_neg fun h => hin ((hg.isIn_iff hm hseen).1 h)]
      have hseen' : ∀ x ∈ seen ++ [m], x ∈ g.names := by
        intro x hx
        rcases mem_append.1 hx with hx | hx
        · exact hseen x hx
        · exact mem_singleton.1 hx ▸ hm
      have hnodup' : (seen ++ [m]).Nodup := by
        rw [← concat_eq_append, nodup_concat]
        exact ⟨hin, hnodup⟩
      obtain ⟨new, heq, hnd, hsub, hall⟩ := ih hrest hseen' hnodup' (queue ++ [m])
      refine ⟨m :: new, by simpa using heq, by simpa using hnd, fun x hx => ?_, fun x hx => ?_⟩
      · rcases mem_cons.1 hx with rfl | hx
        · exact mem_cons_self
        · exact mem_cons_of_mem m (hsub x hx)
      · rcases mem_cons.1 hx with rfl | hx
        · simp
        · simpa using hall x hx

/-- A search with enough steps left adds the rest of what can be reached to what was seen. -/
theorem exists_reachGo {start : Literal} (hstart : start ∈ g.names) (fuel : Nat)
    {done queue : List Literal} (hf : Frontier g.successors start done queue)
    (hnodup : (done ++ queue).Nodup) (hfuel : g.names.length < fuel + done.length) :
    ∃ rest, g.reachGo fuel (done ++ queue) queue = done ++ queue ++ rest ∧
      ∀ x, x ∈ done ++ queue ++ rest ↔ Reachable g.successors start x := by
  have hseen : ∀ x ∈ done ++ queue, x ∈ g.names := fun x hx =>
    hg.mem_names_of_reachable hstart (hf.reachable x hx)
  induction fuel generalizing done queue with
  | zero =>
    -- more nodes would be done than there are
    have hdone : done.length ≤ g.names.length :=
      (hf.nodup.subperm fun x hx => hseen x (mem_append_left _ hx)).length_le
    omega
  | succ fuel ih =>
    cases queue with
    | nil => exact ⟨[], by simp [reachGo], fun x => by simpa using hf.mem_iff x⟩
    | cons v queue =>
      have hv := hseen v (by simp)
      obtain ⟨new, heq, hnd, hsub, hall⟩ := hg.exists_new
        (fun m hm => hg.mem_names_of_mem_successors hv hm) hseen hnodup queue
      have hassoc : done ++ v :: queue ++ new = done ++ [v] ++ (queue ++ new) := by simp
      have hf' := hf.take hnd hsub hall
      rw [hassoc] at hnd
      obtain ⟨rest, hgo, hmem⟩ := ih hf' hnd (by simp; omega) fun x hx =>
        hg.mem_names_of_reachable hstart (hf'.reachable x hx)
      have hstep : g.reachGo (fuel + 1) (done ++ v :: queue) (v :: queue) =
          g.reachGo fuel (done ++ v :: queue ++ new) (queue ++ new) :=
        congrArg (fun p : List Literal × List Literal => g.reachGo fuel p.1 p.2) heq
      refine ⟨new ++ rest, ?_, fun x => ?_⟩
      · rw [hstep, hassoc, hgo, ← hassoc, append_assoc]
      · rw [← append_assoc, hassoc, hmem x]

theorem exists_reach {a : Literal} (ha : a ∈ g.names) :
    ∃ rest, g.reach a = a :: rest ∧ ∀ x, x ∈ a :: rest ↔ Reachable g.successors a x :=
  hg.exists_reachGo ha (g.nodes.length + 1) (.begin g.successors a) (by simp) (by simp [names])

end IsProper

/-! ## The part below some nodes -/

/-- What can be reached from some nodes, themselves included. -/
def Below (g : Graph) (seeds : List Literal) (n : Literal) : Prop :=
  ∃ s ∈ seeds, Reachable g.successors s n

/-- The part of a graph below some seeds: the seeds and everything that can be reached from them, in the same
order and with the same attributes, and the edges between these. -/
structure IsPart (g : Graph) (seeds : List Literal) (part : Graph) : Prop where
  nodes : part.nodes.Sublist g.nodes
  mem_names : ∀ n, n ∈ part.names ↔ g.Below seeds n
  edges : part.edges.Sublist g.edges
  mem_edges : ∀ e, e ∈ part.edges ↔ e ∈ g.edges ∧ e.1 ∈ part.names ∧ e.2 ∈ part.names

theorem Below.step {g : Graph} {seeds : List Literal} {a b : Literal} (ha : g.Below seeds a)
    (hb : b ∈ g.successors a) : g.Below seeds b := by
  obtain ⟨s, hs, hreach⟩ := ha
  exact ⟨s, hs, .step hreach hb⟩

theorem Reachable.congr {α : Type} {next next' : α → List α} {a b : α} (h : Reachable next a b)
    (hnext : ∀ v, Reachable next a v → next' v = next v) : Reachable next' a b := by
  induction h with
  | refl => exact .refl a
  | step hv hw ih => exact .step ih (hnext _ hv ▸ hw)

namespace IsProper

variable {g : Graph} (hg : g.IsProper) {seeds keep : List Literal}

include hg

theorem restrict (keep : List Literal) : (g.restrict keep).IsProper := by
  have hnodes : (g.restrict keep).nodes.Sublist g.nodes := filter_sublist
  have hnames : ∀ n ∈ (g.restrict keep).names, n ∈ g.names := (hnodes.map Prod.fst).subset
  have hkept : ∀ n ∈ g.names, Literal.isIn n keep = true → n ∈ (g.restrict keep).names := by
    intro n hn hin
    obtain ⟨p, hp, rfl⟩ := mem_map.1 hn
    exact mem_map_of_mem (mem_filter.2 ⟨hp, hin⟩)
  refine ⟨fun a ha b hb => hg.same_iff a (hnames a ha) b (hnames b hb),
    hg.nodup.sublist (hnodes.map Prod.fst), fun e he => ?_⟩
  obtain ⟨he, hin⟩ := mem_filter.1 he
  rw [Bool.and_eq_true] at hin
  exact ⟨hkept _ (hg.ends e he).1 hin.1, hkept _ (hg.ends e he).2 hin.2⟩

section

variable (hseeds : ∀ s ∈ seeds, s ∈ g.names) (hkeep : ∀ n, n ∈ keep ↔ g.Below seeds n)

include hseeds

theorem mem_names_of_below {n : Literal} (hn : g.Below seeds n) : n ∈ g.names := by
  obtain ⟨s, hs, hreach⟩ := hn
  exact hg.mem_names_of_reachable (hseeds s hs) hreach

include hkeep

theorem isIn_keep_iff {n : Literal} (hn : n ∈ g.names) : Literal.isIn n keep = true ↔ g.Below seeds n := by
  rw [hg.isIn_iff hn fun b hb => hg.mem_names_of_below hseeds ((hkeep b).1 hb), hkeep]

theorem mem_names_restrict (n : Literal) : n ∈ (g.restrict keep).names ↔ g.Below seeds n := by
  constructor
  · intro hn
    obtain ⟨p, hp, rfl⟩ := mem_map.1 hn
    obtain ⟨hp, hkept⟩ := mem_filter.1 hp
    exact (hg.isIn_keep_iff hseeds hkeep (mem_map_of_mem hp)).1 hkept
  · intro hn
    obtain ⟨p, hp, rfl⟩ := mem_map.1 (hg.mem_names_of_below hseeds hn)
    have hkept := (hg.isIn_keep_iff hseeds hkeep (mem_map_of_mem hp)).2 hn
    exact mem_map_of_mem (mem_filter.2 ⟨hp, hkept⟩)

theorem isPart_restrict : g.IsPart seeds (g.restrict keep) := by
  refine ⟨filter_sublist, hg.mem_names_restrict hseeds hkeep, filter_sublist, fun e => ?_⟩
  rw [hg.mem_names_restrict hseeds hkeep, hg.mem_names_restrict hseeds hkeep, Graph.restrict,
    mem_filter, Bool.and_eq_true]
  refine and_congr_right fun he => ?_
  rw [hg.isIn_keep_iff hseeds hkeep (hg.ends e he).1, hg.isIn_keep_iff hseeds hkeep (hg.ends e he).2]

theorem successors_restrict {n : Literal} (hn : g.Below seeds n) :
    (g.restrict keep).successors n = g.successors n := by
  rw [successors, successors, Graph.restrict, filter_filter]
  refine congrArg (List.map Prod.snd) (filter_congr fun e he => ?_)
  obtain ⟨hfrom, hto⟩ := hg.ends e he
  by_cases hsame : Literal.same e.1 n = true
  · have heq := (hg.same_iff _ hfrom n (hg.mem_names_of_below hseeds hn)).1 hsame
    have hbelow : g.Below seeds e.2 := hn.step ((hg.mem_successors (heq ▸ hfrom)).2 (heq ▸ he))
    rw [hsame, (hg.isIn_keep_iff hseeds hkeep hfrom).2 (heq ▸ hn), (hg.isIn_keep_iff hseeds hkeep hto).2 hbelow]
    rfl
  · rw [Bool.not_eq_true] at hsame
    rw [hsame, Bool.false_and]

theorem below_restrict_iff (n : Literal) : (g.restrict keep).Below seeds n ↔ g.Below seeds n := by
  have hnext : ∀ s ∈ seeds, ∀ v, Reachable g.successors s v →
      (g.restrict keep).successors v = g.successors v := fun s hs v hv =>
    hg.successors_restrict hseeds hkeep ⟨s, hs, hv⟩
  constructor
  · rintro ⟨s, hs, hreach⟩
    -- what is reached in the part stays below the seeds, where both graphs have the same successors
    have hstay : Reachable g.successors s n := by
      induction hreach with
      | refl => exact .refl s
      | step _ hw ih => exact .step ih (hnext s hs _ ih ▸ hw)
    exact ⟨s, hs, hstay⟩
  · rintro ⟨s, hs, hreach⟩
    exact ⟨s, hs, hreach.congr (hnext s hs)⟩

theorem restrict_restrict {again : List Literal} (hagain : ∀ n, n ∈ again ↔ (g.restrict keep).Below seeds n) :
    (g.restrict keep).restrict again = g.restrict keep := by
  have hpart := hg.restrict keep
  have hkept : ∀ n ∈ (g.restrict keep).names, Literal.isIn n again = true := by
    intro n hn
    have hbelow := (hg.mem_names_restrict hseeds hkeep n).1 hn
    have hseeds' : ∀ s ∈ seeds, s ∈ (g.restrict keep).names := fun s hs =>
      (hg.mem_names_restrict hseeds hkeep s).2 ⟨s, hs, .refl s⟩
    exact (hpart.isIn_keep_iff hseeds' hagain hn).2 ((hg.below_restrict_iff hseeds hkeep n).2 hbelow)
  have hnodes : (g.restrict keep).nodes.filter (fun p => Literal.isIn p.1 again) = (g.restrict keep).nodes :=
    filter_eq_self.2 fun p hp => hkept p.1 (mem_map_of_mem hp)
  have hedges : (g.restrict keep).edges.filter (fun e => Literal.isIn e.1 again && Literal.isIn e.2 again) =
      (g.restrict keep).edges := by
    refine filter_eq_self.2 fun e he => ?_
    rw [hkept _ (hpart.ends e he).1, hkept _ (hpart.ends e he).2]
    rfl
  rw [Graph.restrict, hnodes, hedges]

end

end IsProper

end Graph

namespace Survey

theorem exists_partOf {g : Graph} (hg : g.IsProper) {seeds : List Literal} (hseeds : ∀ s ∈ seeds, s ∈ g.names) :
    ∃ keep, partOf g seeds = .ok (g.restrict keep) ∧ ∀ n, n ∈ keep ↔ g.Below seeds n := by
  have hbelow : seeds.mapM (descendants g) = .ok (seeds.map fun s => (g.reach s).drop 1) :=
    mapM_eq_ok fun s hs => by rw [descendants, if_pos (hg.hasNode (hseeds s hs))]
  refine ⟨seeds ++ (seeds.map fun s => (g.reach s).drop 1).flatten, ?_, fun n => ?_⟩
  · rw [partOf, hbelow]
    rfl
  have hreach : ∀ s ∈ seeds, (n = s ∨ n ∈ (g.reach s).drop 1) ↔ Graph.Reachable g.successors s n := by
    intro s hs
    obtain ⟨rest, heq, hmem⟩ := hg.exists_reach (hseeds s hs)
    rw [heq, ← hmem, mem_cons]
    rfl
  rw [mem_append, mem_flatten]
  constructor
  · rintro (hn | ⟨below, hb, hn⟩)
    · exact ⟨n, hn, .refl n⟩
    · obtain ⟨s, hs, rfl⟩ := mem_map.1 hb
      exact ⟨s, hs, (hreach s hs).1 (.inr hn)⟩
  · rintro ⟨s, hs, hsn⟩
    rcases (hreach s hs).2 hsn with rfl | hn
    · exact .inl hs
    · exact .inr ⟨_, mem_map_of_mem hs, hn⟩

/-! ## Cutting a stored graph -/

namespace Cut

/-- A graph can be cut along a list on a host: it is stored where the cut looks for it, the list names the seeds,
and the part can be written. -/
structure Applies (c : Cut) (h : Host) (seedFile : String) (g : Graph) (seeds : List String) : Prop where
  parts : c.parts.filter (· != 0) = none
  seeded : c.seedFile = some seedFile
  ne_empty : seedFile ≠ ""
  named : Text.endsWith c.infile ".tgz" = true ∨ Text.endsWith c.infile ".pickle" = true
  stored : h.entry? c.infile = some (.file (.graph g (Text.endsWith c.infile ".tgz")))
  listed : ∃ text, (readText seedFile).runOn h = (.ok text, h) ∧
    (Sheet.ofText text).rows.map (·.cells.get? "package name") = seeds.map fun s => some (some s)
  writable : ∃ made, (ensureDirectory c.directory).runOn h = (.ok (), made) ∧ made.CanWrite (c.partFile seedFile)
  apart : ∀ p, c.program = some p → h.absolutePath (c.programFile seedFile p) ≠ h.absolutePath (c.partFile seedFile)

/-- A cut leaves a graph in the file of the part, and ends well if there is no program to write. -/
def Leaves (c : Cut) (h : Host) (seedFile : String) (part : Graph) : Prop :=
  ∃ r after, c.run.runOn h = (r, after) ∧ after.entry? (c.partFile seedFile) = some (.file (.graph part false)) ∧
    (c.program = none → r = .ok ())

variable {c : Cut} {h : Host} {seedFile : String} {g part : Graph} {seeds : List String}

theorem entry?_of_runOn_writeProgram {file program q : String} {r : Except Fault Unit} {after : Host}
    (hrun : (c.writeProgram file seedFile program).runOn h = (r, after))
    (hq : h.absolutePath (c.programFile seedFile program) ≠ h.absolutePath q) :
    after.entry? q = h.entry? q := by
  have hread := readsOnly_readText program h
  rcases htext : (readText program).runOn h with ⟨f | text, h₁⟩
  · rw [htext] at hread
    obtain rfl : h₁ = h := hread
    rw [writeProgram, runOn_bind_error htext] at hrun
    obtain ⟨-, rfl⟩ := Prod.mk.inj hrun
    rfl
  · rw [htext] at hread
    obtain rfl : h₁ = h := hread
    rw [writeProgram, runOn_bind htext] at hrun
    rcases r with f | _
    · rcases runOn_write_cases _ _ h₁ with hw | ⟨f', hw⟩
      · cases hw.symm.trans hrun
      · obtain ⟨-, rfl⟩ := Prod.mk.inj (hw.symm.trans hrun)
        rfl
    · rw [entry?_of_runOn_write hrun q, if_neg fun hsame => hq hsame.2.symm]

theorem runOn_seeds {rows : List Sheet.Line}
    (hcells : rows.map (·.cells.get? "package name") = seeds.map fun s => some (some s)) :
    (rows.mapM fun r => do
      return (← cell r.cells "package name").elim Literal.none .text : Job _).runOn h =
      (.ok (seeds.map .text), h) := by
  induction rows generalizing seeds with
  | nil =>
    obtain rfl : seeds = [] := by simpa using hcells.symm
    rfl
  | cons r rows ih =>
    obtain ⟨s, rest, rfl, hr, hrest⟩ := map_eq_cons_iff.1 hcells.symm
    have hname : r.cells.get? "package name" = some (some s) := hr.symm
    have hcell : cell r.cells "package name" = .ok (some s) := by
      rw [cell, hname]
    have hrow : (do return (← cell r.cells "package name").elim Literal.none .text : Job _).runOn h =
        (.ok (.text s), h) := by
      rw [hcell]
      rfl
    rw [mapM_cons, runOn_bind hrow, runOn_bind (ih hrest.symm), runOn_pure, map_cons]

theorem Applies.runOn_seedsIn (ha : c.Applies h seedFile g seeds) :
    (seedsIn seedFile).runOn h = (.ok (seeds.map .text), h) := by
  obtain ⟨text, htext, hcells⟩ := ha.listed
  have hsheet : (readSheet seedFile).runOn h = (.ok (Sheet.ofText text), h) := by
    rw [readSheet, runOn_bind htext, runOn_pure]
  rw [seedsIn, runOn_bind hsheet]
  exact runOn_seeds hcells

theorem Applies.runOn_graph (ha : c.Applies h seedFile g seeds) : ∃ file, c.graph.runOn h = (.ok (g, file), h) := by
  have hcontent := runOn_content ha.stored
  rw [graph]
  cases htgz : Text.endsWith c.infile ".tgz" with
  | true =>
    rw [htgz] at hcontent
    refine ⟨(Path.splitExt c.infile).1, ?_⟩
    rw [if_pos rfl, readPackedGraph, bind_assoc, runOn_bind hcontent]
    rfl
  | false =>
    have hpickle := ha.named.resolve_left (by simp [htgz])
    have hgraph : (readGraph c.infile).runOn h = (.ok g, h) :=
      runOn_readGraph (by rw [ha.stored, htgz])
    refine ⟨c.infile, ?_⟩
    rw [if_neg (by simp), if_pos hpickle, runOn_bind hgraph, runOn_pure]

theorem Applies.leaves (ha : c.Applies h seedFile g seeds)
    (hpart : partOf g (seeds.map .text) = .ok part) : c.Leaves h seedFile part := by
  obtain ⟨file, hgraph⟩ := ha.runOn_graph
  obtain ⟨made, hmade, hcan⟩ := ha.writable
  obtain ⟨left, hwrite⟩ : ∃ left,
      (writeGraph (c.partFile seedFile) part).runOn made = (.ok (), left) := ⟨_, runOn_write hcan (.graph part false)⟩
  have hseed : c.seedFile.filter (fun s => !s.isEmpty) = some seedFile := by
    simp [ha.seeded, ha.ne_empty]
  have hlift : (liftM (partOf g (seeds.map .text)) : Job _).runOn made = (.ok part, made) := by
    rw [runOn_lift, hpart]
  rw [Leaves, run, runOn_bind hgraph]
  dsimp only
  rw [ha.parts, hseed]
  dsimp only
  rw [writePart, runOn_bind ha.runOn_seedsIn, runOn_bind hmade, runOn_bind hlift, runOn_bind hwrite]
  have hleft := entry?_written hwrite
  have hpaths : left.absolutePath = h.absolutePath :=
    ((along_write _ _).stays.absolutePath_eq hwrite).trans ((along_ensureDirectory c.directory).stays.absolutePath_eq hmade)
  cases hprogram : c.program with
  | none => exact ⟨.ok (), left, rfl, hleft, fun _ => rfl⟩
  | some p =>
    dsimp only
    rw [runOn_bind (runOn_exists? p left)]
    split
    · rcases hrun : (c.writeProgram file seedFile p).runOn left with ⟨r, after⟩
      have hkeep := entry?_of_runOn_writeProgram hrun (by rw [hpaths]; exact ha.apart p hprogram)
      exact ⟨r, after, rfl, hkeep.trans hleft, by simp⟩
    · exact ⟨.ok (), left, rfl, hleft, by simp⟩

/-- A cut along a list whose packages are all in the graph writes the part below them. There a package
needs what it needed before, and a cut of the part along the same list writes the part again. -/
theorem leaves_part_below {g : Graph} (hg : g.IsProper) {seeds : List String}
    (hseeds : ∀ s ∈ seeds, Literal.text s ∈ g.names) :
    ∃ part, g.IsPart (seeds.map .text) part ∧ (∀ n ∈ part.names, part.successors n = g.successors n) ∧
      (∀ c h seedFile, Applies c h seedFile g seeds → c.Leaves h seedFile part) ∧
      ∀ c h seedFile, Applies c h seedFile part seeds → c.Leaves h seedFile part := by
  have hnames : ∀ s ∈ seeds.map Literal.text, s ∈ g.names := by simpa using hseeds
  obtain ⟨keep, hpart, hkeep⟩ := exists_partOf hg hnames
  have hbelow := hg.mem_names_restrict hnames hkeep
  have hkept : ∀ s ∈ seeds.map Literal.text, s ∈ (g.restrict keep).names := fun s hs =>
    (hbelow s).2 ⟨s, hs, .refl s⟩
  obtain ⟨again, hpartAgain, hagain⟩ := exists_partOf (hg.restrict keep) hkept
  rw [hg.restrict_restrict hnames hkeep hagain] at hpartAgain
  exact ⟨g.restrict keep, hg.isPart_restrict hnames hkeep,
    fun n hn => hg.successors_restrict hnames hkeep ((hbelow n).1 hn),
    fun _ _ _ ha => ha.leaves hpart, fun _ _ _ ha => ha.leaves hpartAgain⟩

/-- Two packages that need each other, one that needs them and one that needs it. -/
def loopGraph : Graph where
  nodes := [(.text "a", []), (.text "b", []), (.text "c", []), (.text "d", [])]
  edges := [(.text "a", .text "b"), (.text "b", .text "c"), (.text "c", .text "b"), (.text "d", .text "a")]

/-- A host with the graph and a list that names one of its packages. -/
def loopHost : Host where
  root := "/w"
  cwd := "/w"
  files := [
    ("/w/o", .directory), ("/w/g.pickle", .file (.graph loopGraph false)),
    ("/w/s.csv", .file (.text "package name\na\n"))]

def loopCut : Cut where
  infile := "g.pickle"
  outdir := "o"
  seedFile := some "s.csv"

theorem leaves_part_of_loop : loopGraph.IsProper ∧ (∀ s ∈ ["a"], Literal.text s ∈ loopGraph.names) ∧
      loopCut.Applies loopHost "s.csv" loopGraph ["a"] ∧
      ∃ part, loopGraph.IsPart [.text "a"] part ∧ loopCut.Leaves loopHost "s.csv" part := by
  have hg : loopGraph.IsProper :=
    Graph.isProper_of_texts ["a", "b", "c", "d"] rfl (by decide) (by simp [loopGraph, Graph.names])
  have hseeds : ∀ s ∈ ["a"], Literal.text s ∈ loopGraph.names := by simp [loopGraph, Graph.names]
  have hentry : loopHost.entry? "o" = some .directory := by decide +kernel
  have hmade : (Job.ensureDirectory "o").runOn loopHost = (.ok (), loopHost) := by
    rw [Job.ensureDirectory, Job.runOn_bind (Job.runOn_exists? "o" loopHost), hentry]
    rfl
  have ha : loopCut.Applies loopHost "s.csv" loopGraph ["a"] := by
    refine ⟨rfl, rfl, by decide, .inr (by decide +kernel), ?_, ?_, ⟨loopHost, hmade, by decide +kernel⟩,
      by simp [loopCut]⟩
    · have hat : loopHost.absolutePath loopCut.infile = "/w/g.pickle" := by decide +kernel
      rw [Host.entry?, hat]
      rfl
    · have hstored : loopHost.entry? "s.csv" = some (.file (.text "package name\na\n")) := by decide +kernel
      exact ⟨_, Job.runOn_readText hstored rfl, by decide +kernel⟩
  obtain ⟨part, hpart, -, hleaves, -⟩ := leaves_part_below hg hseeds
  exact ⟨hg, hseeds, ha, part, hpart, hleaves _ _ _ ha⟩

end Cut

end Survey

end Vetting
