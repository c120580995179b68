import Vetting.Proofs.Host

/-!
# What the search for everything reachable finds

The invariant is `Frontier`. The queue can hold a node several times; what gets smaller is the number of
reachable nodes that were not asked yet.
-/

namespace Vetting.Graph

open List

variable {α : Type} {next : α → List α} {start : α} {visited queue : List α} {v : α}

theorem Reachable.mem_of_closed {S : Set α} (hclosed : ∀ v ∈ S, ∀ w ∈ next v, w ∈ S) {v w : α}
    (h : Reachable next v w) (hv : v ∈ S) : w ∈ S := by
  induction h with
  | refl => exact hv
  | step _ hx ih => exact hclosed _ ih _ hx

/-- What was asked is reachable and was asked once, and each successor of it was asked or waits. -/
structure Frontier (next : α → List α) (start : α) (visited queue : List α) : Prop where
  nodup : visited.Nodup
  reachable : ∀ v ∈ visited ++ queue, Reachable next start v
  covers : start ∈ visited ++ queue
  closed : ∀ v ∈ visited, ∀ w ∈ next v, w ∈ visited ++ queue

namespace Frontier

theorem begin (next : α → List α) (start : α) : Frontier next start [] [start] where
  nodup := nodup_nil
  reachable v hv := by
    obtain rfl : v = start := by simpa using hv
    exact .refl v
  covers := by simp
  closed := by simp

theorem pass (hf : Frontier next start visited (v :: queue)) (hv : v ∈ visited) :
    Frontier next start visited queue := by
  have hdrop : ∀ w ∈ visited ++ v :: queue, w ∈ visited ++ queue := by
    intro w hw
    rcases mem_append.1 hw with hw | hw
    · exact mem_append_left _ hw
    · rcases mem_cons.1 hw with rfl | hw
      · exact mem_append_left _ hv
      · exact mem_append_right _ hw
  refine ⟨hf.nodup, fun w hw => hf.reachable w ?_, hdrop _ hf.covers, fun u hu w hw => hdrop w (hf.closed u hu w hw)⟩
  simp only [mem_append, mem_cons] at hw ⊢
  tauto

theorem ask [BEq α] [LawfulBEq α] (hf : Frontier next start visited (v :: queue)) (hv : v ∉ visited) :
    Frontier next start (visited ++ [v]) (queue ++ (next v).filter fun w => !(visited ++ [v]).contains w) := by
  have hkeep : ∀ w ∈ visited ++ v :: queue, w ∈ visited ++ [v] ++
      (queue ++ (next v).filter fun w => !(visited ++ [v]).contains w) := by
    intro w hw
    simp only [mem_append, mem_cons, not_mem_nil, or_false] at hw ⊢
    tauto
  refine ⟨?_, ?_, hkeep _ hf.covers, ?_⟩
  · exact hf.nodup.append (nodup_singleton v) (by simpa using hv)
  · intro w hw
    have hrv : Reachable next start v := hf.reachable v (by simp)
    have hw' : w ∈ visited ++ v :: queue ∨ w ∈ next v := by
      simp only [mem_append, mem_cons, not_mem_nil, or_false, mem_filter] at hw ⊢
      tauto
    exact hw'.elim (hf.reachable w) (.step hrv)
  · intro u hu w hw
    rcases mem_append.1 hu with hu | hu
    · exact hkeep w (hf.closed u hu w hw)
    · obtain rfl : u = v := mem_singleton.1 hu
      by_cases hmet : w ∈ visited ++ [u]
      · exact mem_append_left _ hmet
      · refine mem_append_right _ (mem_append_right _ (mem_filter.2 ⟨hw, ?_⟩))
        simpa using hmet

theorem mem_iff (hf : Frontier next start visited []) (w : α) : w ∈ visited ↔ Reachable next start w := by
  constructor
  · intro hw
    exact hf.reachable w (by simpa using hw)
  · intro hw
    refine hw.mem_of_closed (S := {u | u ∈ visited}) (fun u hu x hx => ?_) ?_
    · simpa using hf.closed u hu x hx
    · simpa using hf.covers

theorem length_le (hf : Frontier next start visited queue)
    (hfin : {w | Reachable next start w}.Finite) : visited.length ≤ hfin.toFinset.card := by
  classical
  rw [← toFinset_card_of_nodup hf.nodup]
  refine Finset.card_le_card fun w hw => ?_
  exact hfin.mem_toFinset.2 (hf.reachable w (mem_append_left _ (mem_toFinset.1 hw)))

end Frontier

/-- Wherever the search can come, asking gives the successors, on whatever host. -/
def Answers (ask : α → Job (List α)) (next : α → List α) (start : α) : Prop :=
  ∀ v, Reachable next start v → ∀ h, ((ask v).runOn h).1 = .ok (next v)

/-- Asks nodes one after another, for what asking does to the host. -/
def askEach (ask : α → Job (List α)) : List α → Job Unit
  | [] => pure ()
  | v :: vs => do
    let _ ← ask v
    askEach ask vs

section Search

variable [BEq α] [LawfulBEq α] {ask : α → Job (List α)} {h : Host}

theorem runOn_closureStep_pass (hv : v ∈ visited) :
    (closureStep ask (visited, v :: queue)).runOn h = (.ok (.inl (visited, queue)), h) := by
  rw [closureStep, if_pos (by simpa using hv), Job.runOn_pure]

theorem runOn_closureStep_ask (hv : v ∉ visited) {ws : List α} {h' : Host} (hask : (ask v).runOn h = (.ok ws, h')) :
    (closureStep ask (visited, v :: queue)).runOn h = (.ok (.inl (visited ++ [v],
        queue ++ ws.filter fun w => !(visited ++ [v]).contains w)), h') := by
  rw [closureStep, if_neg (by simpa using hv), Job.runOn_bind hask, Job.runOn_pure]

/-- From each state a search goes on to its end, asking further nodes in turn. -/
theorem runsTo_of_frontier (hask : Answers ask next start)
    (hfin : {w | Reachable next start w}.Finite) {visited queue : List α}
    (hf : Frontier next start visited queue) (h : Host) :
    ∃ asked h', Job.RunsTo (closureStep ask) (visited, queue) h (visited ++ asked) h' ∧
      (askEach ask asked).runOn h = (.ok (), h') ∧ Frontier next start (visited ++ asked) [] := by
  match queue, hf with
  | [], hf =>
    refine ⟨[], h, ?_, rfl, by simpa using hf⟩
    rw [append_nil]
    exact .done rfl
  | v :: queue, hf =>
    by_cases hv : v ∈ visited
    · obtain ⟨asked, h', hrun, hrest⟩ := runsTo_of_frontier hask hfin (hf.pass hv) h
      exact ⟨asked, h', .again (runOn_closureStep_pass hv) hrun, hrest⟩
    · have hanswer : (ask v).runOn h = (.ok (next v), ((ask v).runOn h).2) :=
        Prod.ext (hask v (hf.reachable v (by simp)) h) rfl
      obtain ⟨asked, h', hrun, heach, hend⟩ :=
        runsTo_of_frontier hask hfin (hf.ask hv) ((ask v).runOn h).2
      rw [append_assoc, singleton_append] at hrun hend
      refine ⟨v :: asked, h', .again (runOn_closureStep_ask hv hanswer) hrun, ?_, hend⟩
      rw [askEach, Job.runOn_bind hanswer, heach]
-- a round asks a reachable node that was not asked, or makes the queue shorter
termination_by (hfin.toFinset.card - visited.length, queue.length)
decreasing_by
  · exact Prod.Lex.right _ (by simp)
  · have hle := (hf.ask hv).length_le hfin
    simp only [length_append, length_singleton] at hle ⊢
    exact Prod.Lex.left _ _ (by omega)

theorem runsTo_closure (hask : Answers ask next start) (hfin : {w | Reachable next start w}.Finite) (h : Host) :
    ∃ asked h', Job.RunsTo (closureStep ask) ([], [start]) h asked h' ∧ (askEach ask asked).runOn h = (.ok (), h') ∧
      asked.Nodup ∧ ∀ w, w ∈ asked ↔ Reachable next start w := by
  obtain ⟨asked, h', hrun, heach, hend⟩ :=
    runsTo_of_frontier hask hfin (Frontier.begin next start) h
  exact ⟨asked, h', hrun, heach, hend.nodup, hend.mem_iff⟩

end Search

end Vetting.Graph
