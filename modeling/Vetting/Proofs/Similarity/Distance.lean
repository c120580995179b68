import Mathlib
import Vetting.Similarity.Distance

/-!
# Distances from a table and from one row

The least number of edits is described by what it is on an empty sequence and by what one more element at the
end of both adds. In that form it is the invariant of the program that keeps one row: the cells it has passed
hold distances to one byte more than the cells above.
-/

namespace Vetting.Similarity

open List Option

variable {d i j y : Nat} {cells : Cells}

section

variable {α : Type} {s t u : List α} {n : Nat}

/-! ## Edits one after the other -/

/-- One insertion, deletion or substitution, at any place. -/
inductive EditStep : List α → List α → Prop where
  | insert (xs ys : List α) (a : α) : EditStep (xs ++ ys) (xs ++ a :: ys)
  | delete (xs ys : List α) (a : α) : EditStep (xs ++ a :: ys) (xs ++ ys)
  | substitute (xs ys : List α) (a b : α) : EditStep (xs ++ a :: ys) (xs ++ b :: ys)

/-- `EditPath s t n`: a sequence of `n` edits turns `s` into `t`. -/
inductive EditPath (s : List α) : List α → Nat → Prop where
  | refl : EditPath s s 0
  | step {t u : List α} {n : Nat} : EditPath s t n → EditStep t u → EditPath s u (n + 1)

theorem EditStep.cons (a : α) (h : EditStep s t) : EditStep (a :: s) (a :: t) := by
  cases h with
  | insert xs ys b => exact .insert (a :: xs) ys b
  | delete xs ys b => exact .delete (a :: xs) ys b
  | substitute xs ys b c => exact .substitute (a :: xs) ys b c

theorem EditPath.cons (a : α) (h : EditPath s t n) : EditPath (a :: s) (a :: t) n := by
  induction h with
  | refl => exact .refl
  | step _ hstep ih => exact ih.step (hstep.cons a)

namespace Edits

theorem editPath (h : Edits s t n) : EditPath s t n := by
  induction h with
  | nil => exact .refl
  | keep a _ ih => exact ih.cons a
  | insert a _ ih => exact ih.step (.insert [] _ a)
  | delete a _ ih => exact (ih.cons a).step (.delete [] _ a)
  | substitute a b _ ih => exact (ih.cons a).step (.substitute [] _ a b)

theorem refl (s : List α) : Edits s s 0 := by
  induction s with
  | nil => exact .nil
  | cons a s ih => exact ih.keep a

theorem append {s' t' : List α} {m : Nat} (h : Edits s t n) (h' : Edits s' t' m) :
    Edits (s ++ s') (t ++ t') (n + m) := by
  induction h with
  | nil => simpa using h'
  | keep a _ ih => exact ih.keep a
  | insert a _ ih => simpa [Nat.add_right_comm] using ih.insert a
  | delete a _ ih => simpa [Nat.add_right_comm] using ih.delete a
  | substitute a b _ ih => simpa [Nat.add_right_comm] using ih.substitute a b

theorem exists_of_append {xs ys : List α} (h : Edits s (xs ++ ys) n) :
    ∃ s₁ s₂ m₁ m₂, s = s₁ ++ s₂ ∧ n = m₁ + m₂ ∧ Edits s₁ xs m₁ ∧ Edits s₂ ys m₂ := by
  generalize ht : xs ++ ys = t at h
  induction h generalizing xs with
  | nil =>
    obtain ⟨rfl, rfl⟩ := append_eq_nil_iff.1 ht
    exact ⟨[], [], 0, 0, rfl, rfl, .nil, .nil⟩
  | keep a h ih =>
    rcases append_eq_cons_iff.1 ht with ⟨rfl, rfl⟩ | ⟨xs, rfl, rfl⟩
    · exact ⟨[], _, 0, _, rfl, (Nat.zero_add _).symm, .nil, h.keep a⟩
    · obtain ⟨s₁, s₂, m₁, m₂, rfl, rfl, h₁, h₂⟩ := ih rfl
      exact ⟨a :: s₁, s₂, m₁, m₂, rfl, rfl, h₁.keep a, h₂⟩
  | insert a h ih =>
    rcases append_eq_cons_iff.1 ht with ⟨rfl, rfl⟩ | ⟨xs, rfl, rfl⟩
    · exact ⟨[], _, 0, _, rfl, (Nat.zero_add _).symm, .nil, h.insert a⟩
    · obtain ⟨s₁, s₂, m₁, m₂, rfl, rfl, h₁, h₂⟩ := ih rfl
      exact ⟨s₁, s₂, m₁ + 1, m₂, rfl, Nat.add_right_comm m₁ m₂ 1, h₁.insert a, h₂⟩
  | delete a h ih =>
    obtain ⟨s₁, s₂, m₁, m₂, rfl, rfl, h₁, h₂⟩ := ih ht
    exact ⟨a :: s₁, s₂, m₁ + 1, m₂, rfl, Nat.add_right_comm m₁ m₂ 1, h₁.delete a, h₂⟩
  | substitute a b h ih =>
    rcases append_eq_cons_iff.1 ht with ⟨rfl, rfl⟩ | ⟨xs, rfl, rfl⟩
    · exact ⟨[], _, 0, _, rfl, (Nat.zero_add _).symm, .nil, h.substitute a b⟩
    · obtain ⟨s₁, s₂, m₁, m₂, rfl, rfl, h₁, h₂⟩ := ih rfl
      exact ⟨a :: s₁, s₂, m₁ + 1, m₂, rfl, Nat.add_right_comm m₁ m₂ 1, h₁.substitute a b, h₂⟩

theorem exists_of_cons {a : α} (h : Edits s (a :: t) n) :
    (∃ m ≤ n + 1, Edits s t m) ∧ ∀ b, ∃ m ≤ n + 1, Edits s (b :: t) m := by
  generalize ht : a :: t = t' at h
  induction h with
  | nil => cases ht
  | @keep s t' n c h _ =>
    obtain ⟨rfl, rfl⟩ := List.cons.inj ht
    exact ⟨⟨n + 1, le_rfl, h.delete a⟩, fun b => ⟨n + 1, le_rfl, h.substitute a b⟩⟩
  | @insert s t' n c h _ =>
    obtain ⟨rfl, rfl⟩ := List.cons.inj ht
    exact ⟨⟨n, by omega, h⟩, fun b => ⟨n + 1, by omega, h.insert b⟩⟩
  | delete c h ih =>
    obtain ⟨⟨m, hm, hdrop⟩, hother⟩ := ih ht
    refine ⟨⟨m + 1, by omega, hdrop.delete c⟩, fun b => ?_⟩
    obtain ⟨k, hk, hb⟩ := hother b
    exact ⟨k + 1, by omega, hb.delete c⟩
  | @substitute s t' n c d h _ =>
    obtain ⟨rfl, rfl⟩ := List.cons.inj ht
    exact ⟨⟨n + 1, by omega, h.delete c⟩, fun b => ⟨n + 1, by omega, h.substitute c b⟩⟩

theorem exists_of_editStep (h : Edits s t n) (hstep : EditStep t u) : ∃ m ≤ n + 1, Edits s u m := by
  cases hstep with
  | insert xs ys a =>
    obtain ⟨s₁, s₂, m₁, m₂, rfl, rfl, h₁, h₂⟩ := h.exists_of_append
    exact ⟨m₁ + (m₂ + 1), by omega, h₁.append (h₂.insert a)⟩
  | delete xs ys a =>
    obtain ⟨s₁, s₂, m₁, m₂, rfl, rfl, h₁, h₂⟩ := h.exists_of_append
    obtain ⟨m, hm, hdrop⟩ := h₂.exists_of_cons.1
    exact ⟨m₁ + m, by omega, h₁.append hdrop⟩
  | substitute xs ys a b =>
    obtain ⟨s₁, s₂, m₁, m₂, rfl, rfl, h₁, h₂⟩ := h.exists_of_append
    obtain ⟨m, hm, hother⟩ := h₂.exists_of_cons.2 b
    exact ⟨m₁ + m, by omega, h₁.append hother⟩

end Edits

theorem EditPath.exists_edits (h : EditPath s t n) : ∃ m ≤ n, Edits s t m := by
  induction h with
  | refl => exact ⟨0, le_rfl, .refl s⟩
  | step _ hstep ih =>
    obtain ⟨m, hm, hedits⟩ := ih
    obtain ⟨k, hk, hstep⟩ := hedits.exists_of_editStep hstep
    exact ⟨k, by omega, hstep⟩

theorem isLeast_editPath (h : IsLeast {n | Edits s t n} d) : IsLeast {n | EditPath s t n} d := by
  refine ⟨h.1.editPath, fun n hn => ?_⟩
  obtain ⟨m, hm, hedits⟩ := EditPath.exists_edits hn
  exact (h.2 hedits).trans hm

theorem isLeast_edits_nil_left (t : List α) : IsLeast {n | Edits [] t n} t.length := by
  have hlength : ∀ n, Edits [] t n ↔ n = t.length := by
    induction t with
    | nil =>
      intro n
      exact ⟨fun h => by cases h; rfl, fun h => h ▸ .nil⟩
    | cons a t ih =>
      intro n
      constructor
      · intro h
        cases h with
        | insert _ h => rw [(ih _).1 h, length_cons]
      · rintro rfl
        exact ((ih _).2 rfl).insert a
  exact ⟨(hlength _).2 rfl, fun n hn => ((hlength n).1 hn).ge⟩

theorem isLeast_edits_nil_right (s : List α) : IsLeast {n | Edits s [] n} s.length := by
  have hlength : ∀ n, Edits s [] n ↔ n = s.length := by
    induction s with
    | nil =>
      intro n
      exact ⟨fun h => by cases h; rfl, fun h => h ▸ .nil⟩
    | cons a s ih =>
      intro n
      constructor
      · intro h
        cases h with
        | delete _ h => rw [(ih _).1 h, length_cons]
      · rintro rfl
        exact ((ih _).2 rfl).delete a
  exact ⟨(hlength _).2 rfl, fun n hn => ((hlength n).1 hn).ge⟩

theorem Edits.reverse (h : Edits s t n) : Edits s.reverse t.reverse n := by
  induction h with
  | nil => exact .nil
  | keep a _ ih => simpa using ih.append (.refl [a])
  | insert a _ ih => simpa using ih.append (Edits.nil.insert a)
  | delete a _ ih => simpa using ih.append (Edits.nil.delete a)
  | substitute a b _ ih => simpa using ih.append (Edits.nil.substitute a b)

theorem Edits.concat_cases {a b : α} (h : Edits (s ++ [a]) (t ++ [b]) n) :
    (∃ m, n = m + 1 ∧ (Edits (s ++ [a]) t m ∨ Edits s (t ++ [b]) m ∨ Edits s t m)) ∨ a = b ∧ Edits s t n := by
  have hreverse : Edits (a :: s.reverse) (b :: t.reverse) n := by simpa using h.reverse
  cases hreverse with
  | keep _ hm => exact .inr ⟨rfl, by simpa using hm.reverse⟩
  | insert _ hm => exact .inl ⟨_, rfl, .inl (by simpa using hm.reverse)⟩
  | delete _ hm => exact .inl ⟨_, rfl, .inr (.inl (by simpa using hm.reverse))⟩
  | substitute _ _ hm => exact .inl ⟨_, rfl, .inr (.inr (by simpa using hm.reverse))⟩

variable [BEq α] [LawfulBEq α]

theorem isLeast_edits_concat {a b : α} {x y z : Nat} (hx : IsLeast {n | Edits (s ++ [a]) t n} x)
    (hy : IsLeast {n | Edits s (t ++ [b]) n} y) (hz : IsLeast {n | Edits s t n} z) :
    IsLeast {n | Edits (s ++ [a]) (t ++ [b]) n} (min (min (x + 1) (y + 1)) (z + if a == b then 0 else 1)) := by
  have hinsert : Edits (s ++ [a]) (t ++ [b]) (x + 1) := by
    simpa using hx.1.append (Edits.nil.insert b)
  have hdelete : Edits (s ++ [a]) (t ++ [b]) (y + 1) := by
    simpa using hy.1.append (Edits.nil.delete a)
  have hlast : Edits (s ++ [a]) (t ++ [b]) (z + if a == b then 0 else 1) := by
    by_cases hab : a = b
    · subst hab
      simpa using hz.1.append (.refl [a])
    · simpa [hab] using hz.1.append (Edits.nil.substitute a b)
  constructor
  · rcases min_choice (min (x + 1) (y + 1)) (z + if a == b then 0 else 1) with hmin | hmin
    · rw [hmin]
      rcases min_choice (x + 1) (y + 1) with hmin | hmin
      · rwa [hmin]
      · rwa [hmin]
    · rwa [hmin]
  · intro n hn
    have hcost : (if a == b then 0 else 1) ≤ 1 := by split <;> omega
    rcases Edits.concat_cases hn with ⟨m, rfl, hm | hm | hm⟩ | ⟨rfl, hm⟩
    · have := hx.2 hm
      omega
    · have := hy.2 hm
      omega
    · have := hz.2 hm
      omega
    · have := hz.2 hm
      simp only [beq_self_eq_true, if_true]
      omega

end

section

variable {α : Type} {s t : List α} {f : Filling}

/-! ## Filling the table -/

namespace Cells

/-- A cell of the table, written or not. -/
def Has (cells : Cells) (i j : Nat) : Prop := ∃ row, cells[i]? = some row ∧ j < row.size

theorem has_write {i' j' : Nat} (h : cells.Has i' j') (i j n : Nat) : (cells.write i j n).Has i' j' := by
  obtain ⟨row, hrow, hj⟩ := h
  rw [Has, write, Array.getElem?_modify, hrow]
  split
  · exact ⟨_, rfl, by simpa using hj⟩
  · exact ⟨row, rfl, hj⟩

theorem read?_write (h : cells.Has i j) (n i' j' : Nat) :
    (cells.write i j n).read? i' j' = if i = i' ∧ j = j' then some n else cells.read? i' j' := by
  obtain ⟨row, hrow, hj⟩ := h
  rw [read?, write, Array.getElem?_modify, read?]
  by_cases hi : i = i'
  · subst hi
    by_cases hj' : j = j'
    · subst hj'
      simp [hrow, hj]
    · simp [hrow, hj']
  · simp [hi]

end Cells

namespace Filling

/-- There is a cell for every two beginnings, and those in a region are right. -/
structure Knows (s t : List α) (region : Nat → Nat → Prop) (f : Filling) : Prop where
  has : ∀ i ≤ s.length, ∀ j ≤ t.length, f.cells.Has i j
  cell : ∀ i ≤ s.length, ∀ j ≤ t.length, region i j →
    ∃ d, f.cells.read? i j = some d ∧ IsLeast {n | Edits (s.take i) (t.take j) n} d

/-- The cells that are written when the loops have come to row `i` and column `j`. -/
def reached (i j : Nat) (i' j' : Nat) : Prop := i' < i ∨ i' = i ∧ j' ≤ j ∨ j' = 0

theorem knows_blank (s t : List α) : Knows s t (fun _ _ => False) (blank s.length t.length) where
  has i hi j hj := by
    have hi' : i < s.length + 1 := by omega
    have hj' : j < t.length + 1 := by omega
    exact ⟨Array.replicate (t.length + 1) none, by simp [blank, hi'], by simpa using hj'⟩
  cell _ _ _ _ h := h.elim

variable {region region' : Nat → Nat → Prop} {k i : Nat}

/-- A number that is right for its cell can be written there, and the loops may be anywhere. -/
theorem Knows.write (h : Knows s t region f) (hi : i ≤ s.length) (hj : j ≤ t.length)
    (hd : IsLeast {n | Edits (s.take i) (t.take j) n} d)
    (hregion : ∀ i' ≤ s.length, ∀ j' ≤ t.length, region' i' j' → region i' j' ∨ i = i' ∧ j = j') (row column : Nat) :
    Knows s t region' ⟨f.cells.write i j d, row, column⟩ where
  has i' hi' j' hj' := Cells.has_write (h.has i' hi' j' hj') i j d
  cell i' hi' j' hj' hin := by
    rw [Cells.read?_write (h.has i hi j hj)]
    split
    case isTrue heq =>
      obtain ⟨rfl, rfl⟩ := heq
      exact ⟨d, rfl, hd⟩
    case isFalse hne =>
      exact h.cell i' hi' j' hj' ((hregion i' hi' j' hj' hin).resolve_right hne)

theorem Knows.mono (h : Knows s t region f) (hregion : ∀ i ≤ s.length, ∀ j ≤ t.length, region' i j → region i j)
    (row column : Nat) :
    Knows s t region' ⟨f.cells, row, column⟩ where
  has := h.has
  cell i hi j hj hin := h.cell i hi j hj (hregion i hi j hj hin)

theorem knows_countRows (s t : List α) (hk : k ≤ s.length) : Knows s t (fun i j => i ≤ k ∧ j = 0)
        ((List.range (k + 1)).foldl countRow (blank s.length t.length)) ∧
      ((List.range (k + 1)).foldl countRow (blank s.length t.length)).row = k := by
  have hcell : ∀ i ≤ s.length, IsLeast {n | Edits (s.take i) (t.take 0) n} i := by
    intro i hi
    simpa [length_take_of_le hi] using isLeast_edits_nil_right (s.take i)
  induction k with
  | zero => exact ⟨(knows_blank s t).write hk (Nat.zero_le _) (hcell 0 hk) (by omega) 0 0, rfl⟩
  | succ k ih =>
    rw [range_succ, foldl_append]
    exact ⟨(ih (by omega)).1.write hk (Nat.zero_le _) (hcell (k + 1) hk) (by omega) _ _, rfl⟩

theorem knows_countColumns (h : Knows s t (fun i j => i ≤ s.length ∧ j = 0) f) (hk : k ≤ t.length) :
    Knows s t (fun i j => j = 0 ∨ i = 0 ∧ j ≤ k) ((List.range (k + 1)).foldl countColumn f) ∧
      ((List.range (k + 1)).foldl countColumn f).row = f.row ∧
      ((List.range (k + 1)).foldl countColumn f).column = k := by
  have hcell : ∀ j ≤ t.length, IsLeast {n | Edits (s.take 0) (t.take j) n} j := by
    intro j hj
    simpa [length_take_of_le hj] using isLeast_edits_nil_left (t.take j)
  induction k with
  | zero => exact ⟨h.write (Nat.zero_le _) hk (hcell 0 hk) (by omega) _ _, rfl, rfl⟩
  | succ k ih =>
    obtain ⟨hknows, hrow, -⟩ := ih (by omega)
    rw [range_succ, foldl_append]
    exact ⟨hknows.write (Nat.zero_le _) hk (hcell (k + 1) hk) (by omega) _ _, hrow, rfl⟩

theorem knows_edges (s t : List α) : Knows s t (reached 0 t.length) (edges s.length t.length) ∧
      (edges s.length t.length).row = s.length ∧ (edges s.length t.length).column = t.length := by
  obtain ⟨hrows, hrow⟩ := knows_countRows s t (le_refl s.length)
  obtain ⟨hknows, hrow', hcolumn⟩ := knows_countColumns hrows (le_refl t.length)
  exact ⟨hknows.mono (by simp only [reached]; omega) _ _, hrow'.trans hrow, hcolumn⟩

theorem take_length_succ {xs ys : List α} {a : α} (h : xs ++ [a] <+: ys) :
    ys.take (xs.length + 1) = ys.take xs.length ++ [a] := by
  obtain ⟨rest, rfl⟩ := h
  simp [take_append]

variable [BEq α] [LawfulBEq α]

/-- The three cells that are read have been written, and what is made of them is right. -/
theorem exists_fillCell {a b : α} (h : Knows s t (reached (i + 1) j) f) (hs : s.take (i + 1) = s.take i ++ [a])
    (ht : t.take (j + 1) = t.take j ++ [b]) (hi : i < s.length) (hj : j < t.length) :
    ∃ f', fillCell (i + 1) a f (j + 1) b = some f' ∧ Knows s t (reached (i + 1) (j + 1)) f' ∧
      f'.row = f.row ∧ f'.column = j + 1 := by
  obtain ⟨x, hleft, hx⟩ := h.cell (i + 1) hi j hj.le (by simp [reached])
  obtain ⟨y, habove, hy⟩ := h.cell i hi.le (j + 1) hj (by simp [reached])
  obtain ⟨z, hdiagonal, hz⟩ := h.cell i hi.le j hj.le (by simp [reached])
  have hd : IsLeast {n | Edits (s.take (i + 1)) (t.take (j + 1)) n}
      (min (min (x + 1) (y + 1)) (z + if a == b then 0 else 1)) := by
    rw [hs] at hx ⊢
    rw [ht] at hy ⊢
    exact isLeast_edits_concat hx hy hz
  refine ⟨_, ?_, h.write hi hj hd ?_ f.row (j + 1), rfl, rfl⟩
  · simp only [fillCell, Nat.add_sub_cancel, hleft, habove, hdiagonal]
    rfl
  · simp only [reached]
    omega

theorem exists_fillCells {a : α} (h : Knows s t (reached (i + 1) 0) f) (hs : s.take (i + 1) = s.take i ++ [a])
    (hi : i < s.length) {t' : List α} (ht : t' <+: t) :
    ∃ f', (t'.zipIdx 1).foldlM (fun f p => fillCell (i + 1) a f p.2 p.1) f = some f' ∧
      Knows s t (reached (i + 1) t'.length) f' ∧ f'.row = f.row ∧
      f'.column = if t' = [] then f.column else t'.length := by
  induction t' using List.reverseRecOn with
  | nil => exact ⟨f, rfl, h, rfl, rfl⟩
  | append_singleton t' b ih =>
    obtain ⟨f', hf', hknows, hrow, -⟩ := ih ((prefix_append t' [b]).trans ht)
    have hj : t'.length < t.length := by simpa using ht.length_le
    obtain ⟨f'', hf'', hknows', hrow', hcolumn⟩ :=
      exists_fillCell hknows hs (take_length_succ ht) hi hj
    refine ⟨f'', ?_, by simpa using hknows', hrow'.trans hrow, by simpa using hcolumn⟩
    rw [zipIdx_append, foldlM_append, hf']
    simpa [Nat.add_comm] using hf''

theorem exists_fillRow {a : α} (h : Knows s t (reached i t.length) f) (hs : s.take (i + 1) = s.take i ++ [a])
    (hi : i < s.length) (hcolumn : f.column = t.length) :
    ∃ f', fillRow t f (i + 1) a = some f' ∧ Knows s t (reached (i + 1) t.length) f' ∧
      f'.row = i + 1 ∧ f'.column = t.length := by
  have hstart : Knows s t (reached (i + 1) 0) { f with row := i + 1 } :=
    h.mono (by simp only [reached]; omega) _ _
  obtain ⟨f', hf', hknows, hrow, hcolumn'⟩ := exists_fillCells hstart hs hi (prefix_refl t)
  refine ⟨f', hf', hknows, hrow, ?_⟩
  rw [hcolumn']
  split
  · exact hcolumn
  · rfl

theorem exists_fillRows_upTo (h : Knows s t (reached 0 t.length) f) (hcolumn : f.column = t.length)
    {s' : List α} (hs : s' <+: s) :
    ∃ f', fillRows s' t f = some f' ∧ Knows s t (reached s'.length t.length) f' ∧
      f'.row = (if s' = [] then f.row else s'.length) ∧ f'.column = t.length := by
  induction s' using List.reverseRecOn with
  | nil => exact ⟨f, rfl, h, rfl, hcolumn⟩
  | append_singleton s' a ih =>
    have hs' : s' <+: s := (prefix_append s' [a]).trans hs
    obtain ⟨f', hf', hknows, -, hcolumn'⟩ := ih hs'
    obtain ⟨f'', hf'', hknows', hrow, hcolumn''⟩ :=
      exists_fillRow hknows (take_length_succ hs) (by simpa using hs.length_le) hcolumn'
    refine ⟨f'', ?_, by simpa using hknows', by simpa using hrow, hcolumn''⟩
    rw [fillRows, zipIdx_append, foldlM_append, ← fillRows, hf']
    simpa [Nat.add_comm] using hf''

theorem exists_fillRows (s t : List α) :
    ∃ f, fillRows s t (edges s.length t.length) = some f ∧ f.row = s.length ∧ f.column = t.length ∧
      Knows s t (fun _ _ => True) f := by
  obtain ⟨hedges, hrow, hcolumn⟩ := knows_edges s t
  obtain ⟨f, hf, hknows, hrow', hcolumn'⟩ := exists_fillRows_upTo hedges hcolumn (prefix_refl s)
  refine ⟨f, hf, ?_, hcolumn', hknows.mono (by simp only [reached]; omega) _ _⟩
  rw [hrow']
  split
  · exact hrow
  · rfl

end Filling

variable [BEq α] [LawfulBEq α]

theorem exists_tableDistance? (s t : List α) : ∃ d, tableDistance? s t = some d ∧ IsLeast {n | Edits s t n} d := by
  obtain ⟨f, hf, hrow, hcolumn, hknows⟩ := Filling.exists_fillRows s t
  obtain ⟨d, hread, hd⟩ := hknows.cell s.length le_rfl t.length le_rfl trivial
  rw [take_length, take_length] at hd
  refine ⟨d, ?_, hd⟩
  rw [tableDistance?, hf, ← hread, ← hrow, ← hcolumn]
  rfl

theorem tableDistance?_eq_some (s t : List α) : tableDistance? s t = some (tableDistance s t) := by
  obtain ⟨d, hd, -⟩ := exists_tableDistance? s t
  rw [tableDistance, hd, getD_some]

theorem isLeast_tableDistance (s t : List α) : IsLeast {n | Edits s t n} (tableDistance s t) := by
  obtain ⟨d, hd, hleast⟩ := exists_tableDistance? s t
  rwa [tableDistance, hd, getD_some]

@[simp]
theorem tableDistance_nil_left (t : List α) : tableDistance [] t = t.length :=
  (isLeast_tableDistance [] t).unique (isLeast_edits_nil_left t)

@[simp]
theorem tableDistance_nil_right (s : List α) : tableDistance s [] = s.length :=
  (isLeast_tableDistance s []).unique (isLeast_edits_nil_right s)

theorem tableDistance_concat (s t : List α) (a b : α) : tableDistance (s ++ [a]) (t ++ [b]) =
      min (min (tableDistance (s ++ [a]) t + 1) (tableDistance s (t ++ [b]) + 1))
        (tableDistance s t + if a == b then 0 else 1) :=
  (isLeast_tableDistance _ _).unique (isLeast_edits_concat (isLeast_tableDistance _ _)
    (isLeast_tableDistance _ _) (isLeast_tableDistance _ _))

theorem tableDistance_le (s t : List α) : tableDistance s t ≤ max s.length t.length := by
  induction s using List.reverseRecOn generalizing t with
  | nil => simp
  | append_singleton s a ih =>
    rcases eq_nil_or_concat' t with rfl | ⟨t, b, rfl⟩
    · simp
    · have hpair := ih t
      have hcost : (if a == b then 0 else 1) ≤ 1 := by split <;> omega
      rw [tableDistance_concat]
      simp only [length_append, length_singleton]
      omega

/-- The table program ends with a distance on all texts: the least length of a sequence of single insertions,
deletions and substitutions that turns the first text into the second. -/
theorem isLeast_editPath_tableDistance (s t : String) :
    (∃ f, Filling.fillRows s.toList t.toList (Filling.edges s.length t.length) = some f ∧
        f.row = s.length ∧ f.column = t.length ∧
        f.last? = some (tableDistance s.toList t.toList)) ∧
      tableDistance? s.toList t.toList = some (tableDistance s.toList t.toList) ∧
      IsLeast {n | EditPath s.toList t.toList n} (tableDistance s.toList t.toList) := by
  have hsome := tableDistance?_eq_some s.toList t.toList
  obtain ⟨f, hf, hrow, hcolumn, -⟩ := Filling.exists_fillRows s.toList t.toList
  refine ⟨⟨f, hf, hrow, hcolumn, ?_⟩, hsome, isLeast_editPath (isLeast_tableDistance _ _)⟩
  rwa [tableDistance?, hf] at hsome

end

/-! ## The walk along the row -/

theorem write?_of_lt {row : Row} (h : i < row.size) (word : UInt32) :
    row.write? i word = some (row.setIfInBounds i (some word)) := if_pos h

theorem read?_setIfInBounds {row : Row} (h : i < row.size) (word : UInt32) (j : Nat) :
    Row.read? (row.setIfInBounds i (some word)) j = if i = j then some word else row.read? j := by
  rw [Row.read?, Row.read?, Array.getElem?_setIfInBounds, if_pos h]
  split <;> rfl

theorem read?_counting {n y : Nat} (h : y ≤ n) (hy : 0 < y) : (Row.counting n).read? y = some (UInt32.ofNat y) := by
  have hlt : y < n + 1 := by omega
  have hne : y ≠ 0 := by omega
  simp [Row.read?, Row.counting, hlt, hne]

theorem leastOf_ofNat {a b c : Nat} (ha : a < 2 ^ 32) (hb : b < 2 ^ 32) (hc : c < 2 ^ 32) :
    leastOf (.ofNat a) (.ofNat b) (.ofNat c) = .ofNat (min (min a b) c) := by
  have hlt : ∀ {m n : Nat}, m < 2 ^ 32 → n < 2 ^ 32 → (UInt32.ofNat m < UInt32.ofNat n ↔ m < n) := by
    intro m n hm hn
    rw [UInt32.lt_iff_toNat_lt, UInt32.toNat_ofNat_of_lt' hm, UInt32.toNat_ofNat_of_lt' hn]
  simp only [leastOf, hlt ha hb, hlt ha hc, hlt hb hc]
  split <;> split <;> congr 1 <;> omega

/-- The row holds the distances of every beginning of `s` from `t`, once anything was read. -/
structure IsColumn (s t : List UInt8) (row : Row) : Prop where
  size : row.size = s.length + 1
  cell : ∀ i ≤ s.length, 0 < i ∨ t ≠ [] → row.read? i = some (.ofNat (tableDistance (s.take i) t))

/-- Up to cell `y` the row holds distances from `t ++ [b]`, above that still from `t`. -/
structure IsWalked (s t : List UInt8) (b : UInt8) (y : Nat) (row : Row) : Prop where
  size : row.size = s.length + 1
  cell : ∀ i ≤ s.length, row.read? i = some (.ofNat (tableDistance (s.take i) (if i ≤ y then t ++ [b] else t)))

section

variable {s t : List UInt8} {b : UInt8} {row : Row}

theorem isColumn_counting (s : List UInt8) : IsColumn s [] (Row.counting s.length) where
  size := Array.size_ofFn
  cell i hi hpos := by
    rw [read?_counting hi (hpos.resolve_right (by simp)), tableDistance_nil_right, length_take_of_le hi]

theorem IsColumn.isWalked (h : IsColumn s t row) (b : UInt8) :
    IsWalked s t b 0 (row.setIfInBounds 0 (some (.ofNat t.length + 1))) where
  size := by rw [Array.size_setIfInBounds, h.size]
  cell i hi := by
    rw [read?_setIfInBounds (by rw [h.size]; omega)]
    rcases Nat.eq_zero_or_pos i with rfl | hpos
    · simp
    · rw [if_neg (by omega), if_neg (by omega), h.cell i hi (.inl hpos)]

theorem IsWalked.isColumn (h : IsWalked s t b s.length row) : IsColumn s (t ++ [b]) row where
  size := h.size
  cell i hi _ := by rw [h.cell i hi, if_pos hi]

/-- A step computes the next cell from those to the left, below and on the diagonal. -/
theorem leastOf_tableDistance (hy : y < s.length) (hs : s.length < 2 ^ 31) (ht : t.length < 2 ^ 31) (b : UInt8) :
    leastOf (.ofNat (tableDistance (s.take (y + 1)) t) + 1) (.ofNat (tableDistance (s.take y) (t ++ [b])) + 1)
        (.ofNat (tableDistance (s.take y) t) + if s[y] == b then 0 else 1) =
      .ofNat (tableDistance (s.take (y + 1)) (t ++ [b])) := by
  have hleft := tableDistance_le (s.take (y + 1)) t
  have hbelow := tableDistance_le (s.take y) (t ++ [b])
  have hdiagonal := tableDistance_le (s.take y) t
  have hcost : (if s[y] == b then 0 else 1 : UInt32) = .ofNat (if s[y] == b then 0 else 1) := by
    split <;> rfl
  have hle : (if s[y] == b then 0 else 1) ≤ 1 := by split <;> omega
  simp only [length_take, length_append, length_singleton] at hleft hbelow hdiagonal
  rw [hcost, ← UInt32.ofNat_one, ← UInt32.ofNat_add, ← UInt32.ofNat_add, ← UInt32.ofNat_add,
    leastOf_ofNat (by omega) (by omega) (by omega), take_succ_eq_append_getElem hy,
    tableDistance_concat]

theorem IsWalked.step (h : IsWalked s t b y row) (hy : y < s.length) :
    IsWalked s t b (y + 1) (row.setIfInBounds (y + 1)
      (some (.ofNat (tableDistance (s.take (y + 1)) (t ++ [b]))))) where
  size := by rw [Array.size_setIfInBounds, h.size]
  cell i hi := by
    rw [read?_setIfInBounds (by rw [h.size]; omega)]
    rcases eq_or_ne (y + 1) i with rfl | hne
    · simp
    · have hiff : i ≤ y ↔ i ≤ y + 1 := by omega
      simp only [if_neg hne, h.cell i hi, hiff]

theorem exists_walkRow (h : IsWalked s t b y row) (hy : y ≤ s.length) (hs : s.length < 2 ^ 31)
    (ht : t.length < 2 ^ 31) :
    ∃ row', walkRow b (s.drop y) y (.ofNat (tableDistance (s.take y) t)) row = some row' ∧
      IsWalked s t b s.length row' := by
  -- the bytes still to be walked get fewer as the cell index grows
  induction hn : s.length - y generalizing y row with
  | zero =>
    obtain rfl : y = s.length := by omega
    exact ⟨row, by rw [drop_length, walkRow], h⟩
  | succ n ih =>
    have hlt : y < s.length := by omega
    have hold : row.read? (y + 1) = some (.ofNat (tableDistance (s.take (y + 1)) t)) := by
      rw [h.cell (y + 1) hlt, if_neg (by omega)]
    have hbelow : row.read? y = some (.ofNat (tableDistance (s.take y) (t ++ [b]))) := by
      rw [h.cell y hy, if_pos le_rfl]
    obtain ⟨row', hrow', hwalked⟩ := ih (h.step hlt) hlt (by omega)
    refine ⟨row', ?_, hwalked⟩
    rw [drop_eq_getElem_cons hlt, walkRow, hold, hbelow]
    simp only [bind_eq_bind, bind_some, leastOf_tableDistance hlt hs ht]
    rw [write?_of_lt (by rw [h.size]; omega), bind_some, hrow']

theorem exists_walkRows (h : IsColumn s t row) (hs : s.length < 2 ^ 31) (rest : List UInt8)
    (ht : (t ++ rest).length < 2 ^ 31) :
    ∃ row', walkRows s (.ofNat t.length) rest row = some row' ∧ IsColumn s (t ++ rest) row' := by
  induction rest generalizing t row with
  | nil => exact ⟨row, rfl, by rwa [append_nil]⟩
  | cons b rest ih =>
    have hlength : t.length < 2 ^ 31 := by
      rw [length_append] at ht
      omega
    have hassoc : t ++ b :: rest = t ++ [b] ++ rest := by simp
    obtain ⟨walked, hwalked, hall⟩ := exists_walkRow (h.isWalked b) (Nat.zero_le _) hs hlength
    rw [hassoc] at ht ⊢
    obtain ⟨row', hrow', hcolumn⟩ := ih hall.isColumn ht
    refine ⟨row', ?_, hcolumn⟩
    have hcount : UInt32.ofNat t.length + 1 = .ofNat (t ++ [b]).length := by simp
    have hback : UInt32.ofNat t.length + 1 - 1 = .ofNat t.length := by simp
    simp only [drop_zero, take_zero, tableDistance_nil_left] at hwalked
    rw [walkRows, write?_of_lt (by rw [h.size]; omega)]
    simp only [bind_eq_bind, bind_some, hback, hwalked]
    rw [hcount, hrow']

end

theorem bytesToZero_of_notMem {bytes : List UInt8} (h : 0 ∉ bytes) : bytesToZero bytes = bytes := by
  rw [bytesToZero, takeWhile_eq_self_iff]
  intro byte hbyte
  exact bne_iff_ne.mpr fun h0 => h (h0 ▸ hbyte)

theorem rowDistance_eq_some {s t : List UInt8} (hs : 0 ∉ s) (ht : 0 ∉ t) (hs' : s.length < 2 ^ 31)
    (ht' : t.length < 2 ^ 31) (h : s ≠ [] ∨ t ≠ []) :
    rowDistance s t = some (.ofNat (tableDistance s t)) := by
  obtain ⟨row, hrow, hcolumn⟩ := exists_walkRows (isColumn_counting s) hs' t ht'
  have htop := hcolumn.cell s.length le_rfl (h.imp_left length_pos_iff.mpr)
  rw [rowDistance, bytesToZero_of_notMem hs, bytesToZero_of_notMem ht]
  rw [nil_append, take_length] at htop
  exact bind_eq_some_iff.mpr ⟨row, hrow, htop⟩

theorem toNat_of_walkRows {s t : List UInt8} (hs : s.length < 2 ^ 31) (ht : t.length < 2 ^ 31) :
    ∃ row, walkRows s 0 t (Row.counting s.length) = some row ∧ ∀ i ≤ s.length, 0 < i ∨ t ≠ [] →
        (row.read? i).map UInt32.toNat = some (tableDistance (s.take i) t) := by
  obtain ⟨row, hrow, hcolumn⟩ := exists_walkRows (isColumn_counting s) hs t ht
  refine ⟨row, hrow, fun i hi hpos => ?_⟩
  have hle := tableDistance_le (s.take i) t
  have hlength := length_take_le i s
  rw [nil_append] at hcolumn
  rw [hcolumn.cell i hi hpos, map_some, UInt32.toNat_ofNat_of_lt']
  exact Nat.lt_trans (m := 2 ^ 31) (by omega) (by decide)

theorem toList_writeDistances (t : List UInt8) (sequences : List (List UInt8))
    (written : List (Option UInt32)) (free : List (Option UInt32))
    (h : free.length = sequences.length) :
    (writeDistances t sequences written.length (written ++ free).toArray).toList =
      written ++ sequences.map (rowDistance · t) := by
  induction sequences generalizing written free with
  | nil =>
    obtain rfl := length_eq_zero_iff.mp h
    rfl
  | cons s sequences ih =>
    cases free with
    | nil => simp at h
    | cons cell free =>
      have hset : (written ++ cell :: free).toArray.setIfInBounds written.length (rowDistance s t) =
          (written ++ [rowDistance s t] ++ free).toArray := by
        simp
      have hlength : written.length + 1 = (written ++ [rowDistance s t]).length := by simp
      rw [writeDistances, hset, hlength, ih _ _ (by simpa using h)]
      simp

theorem toList_rowDistances (sequences : List (List UInt8)) (t : List UInt8) :
    (rowDistances sequences t).toList = sequences.map (rowDistance · t) := by
  have h := toList_writeDistances t sequences [] (List.replicate sequences.length (some 0)) length_replicate
  simpa [rowDistances] using h

/-- On byte sequences without a zero the row that is walked in place gives the distance of the table, as a word
and also as a signed word; only for two empty sequences does it read a cell that was never written. The
distances of several sequences from one are the distances one by one. -/
theorem rowDistance_eq_tableDistance (s t : List UInt8) (hs : 0 ∉ s) (ht : 0 ∉ t)
    (hs' : s.length < 2 ^ 31) (ht' : t.length < 2 ^ 31) :
    (s ≠ [] ∨ t ≠ [] → ∃ d, rowDistance s t = some d ∧ d.toNat = tableDistance s t ∧
      d.toInt32.toInt = tableDistance s t) ∧
      (rowDistance s t = none ↔ s = [] ∧ t = []) ∧
      (∀ read, read <+: t → ∃ row, walkRows s 0 read (Row.counting s.length) = some row ∧
        ∀ i ≤ s.length, 0 < i ∨ read ≠ [] → (row.read? i).map UInt32.toNat = some (tableDistance (s.take i) read)) ∧
      ∀ sequences, (rowDistances sequences t).toList = sequences.map (rowDistance · t) := by
  have hbound : tableDistance s t < 2 ^ 31 := by
    have := tableDistance_le s t
    omega
  refine ⟨fun h => ⟨_, rowDistance_eq_some hs ht hs' ht' h, ?_, ?_⟩, ⟨?_, ?_⟩,
    fun read hread => toNat_of_walkRows hs' (hread.length_le.trans_lt ht'),
    fun sequences => toList_rowDistances sequences t⟩
  · exact UInt32.toNat_ofNat_of_lt' (Nat.lt_trans hbound (by decide))
  · simpa using Int32.toInt_ofNat_of_lt hbound
  · intro hnone
    by_contra hne
    have hsome := rowDistance_eq_some hs ht hs' ht' (not_and_or.mp hne)
    rw [hnone] at hsome
    cases hsome
  · rintro ⟨rfl, rfl⟩
    rfl

/-- The bytes of `kitten` and `sitting`, and a batch with no bytes at all. -/
theorem rowDistance_eq_tableDistance_kitten :
    let kitten := [107, 105, 116, 116, 101, 110]
    let sitting := [115, 105, 116, 116, 105, 110, 103]
    (∃ d, rowDistance kitten sitting = some d ∧ d.toNat = 3 ∧ d.toInt32.toInt = 3) ∧
      (rowDistances [kitten, [], sitting] sitting).toList = [some 3, some 7, some 0] := by
  intro kitten sitting
  have h := rowDistance_eq_tableDistance kitten sitting (by decide) (by decide) (by decide) (by decide)
  have htable : tableDistance kitten sitting = 3 := by decide
  rw [htable] at h
  refine ⟨h.1 (.inl (by decide)), ?_⟩
  rw [h.2.2.2]
  decide +kernel

end Vetting.Similarity
