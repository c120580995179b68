import Mathlib
import Vetting.Fault

/-!
# Steps that may stop with a fault
-/

namespace Vetting

open List Except

variable {α β : Type}

@[simp] theorem ok_bind (a : α) (k : α → Except Fault β) : (ok a >>= k) = k a := rfl

@[simp] theorem error_bind (f : Fault) (k : α → Except Fault β) :
    ((error f : Except Fault α) >>= k) = .error f := rfl

theorem bind_eq_ok_iff {x : Except Fault α} {k : α → Except Fault β} {b : β} :
    (x >>= k) = .ok b ↔ ∃ a, x = .ok a ∧ k a = .ok b := by
  cases x <;> simp

theorem bind_isOk_iff {x : Except Fault α} {k : α → Except Fault β} (hk : ∀ a, ∃ b, k a = .ok b) :
    (∃ b, (x >>= k) = .ok b) ↔ ∃ a, x = .ok a := by
  cases x <;> simp [hk]

theorem map_eq_ok_iff {x : Except Fault α} {g : α → β} {b : β} : g <$> x = .ok b ↔ ∃ a, x = .ok a ∧ g a = b := by
  cases x <;> simp [Functor.map, Except.map]

theorem eq_ok_of_toOption {x : Except Fault α} {a : α} (h : x.toOption = some a) : x = .ok a := by
  cases x with
  | error f => cases h
  | ok b => rw [Option.some.inj h]

/-! ## Steps over a list -/

variable {f : β → α → Except Fault β} {xs : List α} {b : β}

theorem foldlM_isOk_iff {P : α → Prop} (hf : ∀ b a, (∃ b', f b a = .ok b') ↔ P a) :
    (∃ b', xs.foldlM f b = .ok b') ↔ ∀ a ∈ xs, P a := by
  induction xs generalizing b with
  | nil => simp [pure, Except.pure]
  | cons a xs ih =>
    simp only [foldlM_cons, bind_eq_ok_iff, forall_mem_cons, ← hf b a]
    constructor
    · rintro ⟨b', b₁, hstep, hrest⟩
      exact ⟨⟨b₁, hstep⟩, ih.1 ⟨b', hrest⟩⟩
    · rintro ⟨⟨b₁, hstep⟩, hall⟩
      obtain ⟨b', hrest⟩ := ih.2 hall
      exact ⟨b', b₁, hstep, hrest⟩

theorem eq_of_foldlM_eq_error {e e₀ : Fault} (hf : ∀ b a e, f b a = .error e → e = e₀)
    (h : xs.foldlM f b = .error e) : e = e₀ := by
  induction xs generalizing b with
  | nil => cases h
  | cons a xs ih =>
    rw [foldlM_cons] at h
    cases hstep : f b a with
    | error e' =>
      rw [hstep, error_bind] at h
      exact Except.error.inj h ▸ hf b a e' hstep
    | ok b₁ =>
      rw [hstep, ok_bind] at h
      exact ih h

theorem foldlM_invariant (Inv : β → Prop) {b' : β}
    (hstep : ∀ a ∈ xs, ∀ b b', Inv b → f b a = .ok b' → Inv b') (hb : Inv b)
    (h : xs.foldlM f b = .ok b') : Inv b' := by
  induction xs generalizing b with
  | nil =>
    cases h
    exact hb
  | cons a xs ih =>
    rw [foldlM_cons, bind_eq_ok_iff] at h
    obtain ⟨b₁, ha, hrest⟩ := h
    have hb₁ : Inv b₁ := hstep a mem_cons_self b b₁ hb ha
    exact ih (fun a' ha' => hstep a' (mem_cons_of_mem a ha')) hb₁ hrest

theorem foldlM_invariant_from (Inv : List α → β → Prop) {b' : β}
    (hstep : ∀ before a b b', Inv before b → f b a = .ok b' → Inv (before ++ [a]) b')
    (before : List α) (hb : Inv before b) (h : xs.foldlM f b = .ok b') : Inv (before ++ xs) b' := by
  induction xs generalizing before b with
  | nil =>
    cases h
    rwa [append_nil]
  | cons a xs ih =>
    rw [foldlM_cons, bind_eq_ok_iff] at h
    obtain ⟨b₁, ha, hrest⟩ := h
    have hxs := ih (before ++ [a]) (hstep before a b b₁ hb ha) hrest
    rwa [append_assoc, singleton_append] at hxs

theorem foldlM_map {γ : Type} {g : γ → α → Except Fault γ} (r : β → γ)
    (hstep : ∀ b a, g (r b) a = (f b a).map r) (xs : List α) (b : β) :
    xs.foldlM g (r b) = (xs.foldlM f b).map r := by
  induction xs generalizing b with
  | nil => rfl
  | cons a xs ih =>
    rw [foldlM_cons, foldlM_cons, hstep]
    cases f b a with
    | error e => rfl
    | ok b' => exact ih b'

theorem mapM_eq_ok {k : α → Except Fault β} {r : α → β} (h : ∀ a ∈ xs, k a = .ok (r a)) :
    xs.mapM k = .ok (xs.map r) := by
  induction xs with
  | nil => rfl
  | cons a xs ih =>
    have hrest := ih fun a' ha' => h a' (mem_cons_of_mem a ha')
    rw [mapM_cons, h a mem_cons_self, hrest]
    rfl

theorem foldlM_eq_ok {g : β → α → β} (h : ∀ a ∈ xs, ∀ b, f b a = .ok (g b a)) :
    xs.foldlM f b = .ok (xs.foldl g b) := by
  induction xs generalizing b with
  | nil => rfl
  | cons a xs ih =>
    rw [foldlM_cons, h a mem_cons_self, ok_bind, ih fun a' ha' => h a' (mem_cons_of_mem a ha')]
    rfl

theorem filterM_eq_ok {k : α → Except Fault Bool} {p : α → Bool} (h : ∀ a ∈ xs, k a = .ok (p a)) :
    xs.filterM k = .ok (xs.filter p) := by
  have haux : ∀ acc, xs.filterAuxM k acc = .ok ((xs.filter p).reverse ++ acc) := by
    induction xs with
    | nil => exact fun acc => rfl
    | cons a xs ih =>
      intro acc
      rw [List.filterAuxM, h a mem_cons_self, ok_bind, ih fun a' ha' => h a' (mem_cons_of_mem a ha')]
      cases hp : p a <;> simp [hp]
  rw [List.filterM, haux, ok_bind, append_nil, reverse_reverse]
  rfl

theorem mapM_isOk_iff {k : α → Except Fault β} : (∃ ys, xs.mapM k = .ok ys) ↔ ∀ x ∈ xs, ∃ y, k x = .ok y := by
  induction xs with
  | nil => simp [pure, Except.pure]
  | cons x xs ih =>
    simp only [mapM_cons, forall_mem_cons, ← ih, bind_eq_ok_iff]
    constructor
    · rintro ⟨ys, y, hy, zs, hzs, -⟩
      exact ⟨⟨y, hy⟩, zs, hzs⟩
    · rintro ⟨⟨y, hy⟩, zs, hzs⟩
      exact ⟨y :: zs, y, hy, zs, hzs, rfl⟩

theorem mapM_eq_ok_iff {k : α → Except Fault β} {ys : List β} :
    xs.mapM k = .ok ys ↔ List.Forall₂ (fun x y => k x = .ok y) xs ys := by
  induction xs generalizing ys with
  | nil => simp [pure, Except.pure, eq_comm]
  | cons x xs ih =>
    simp only [mapM_cons, bind_eq_ok_iff, forall₂_cons_left_iff, ← ih]
    constructor
    · rintro ⟨y, hy, zs, hzs, heq⟩
      exact ⟨y, zs, hy, hzs, (ok.inj heq).symm⟩
    · rintro ⟨y, zs, hy, hzs, rfl⟩
      exact ⟨y, hy, zs, hzs, rfl⟩

theorem mapM_eq_error {k : α → Except Fault β} {e : Fault}
    (hall : ∀ x ∈ xs, (∃ y, k x = .ok y) ∨ k x = .error e) (h : ∃ x ∈ xs, k x = .error e) :
    xs.mapM k = .error e := by
  induction xs with
  | nil =>
    obtain ⟨x, hx, -⟩ := h
    cases hx
  | cons x xs ih =>
    rw [forall_mem_cons] at hall
    rcases hall.1 with ⟨y, hy⟩ | herror
    · have hrest : ∃ x ∈ xs, k x = .error e := by
        obtain ⟨x', hx', herror⟩ := h
        rcases mem_cons.1 hx' with rfl | hx'
        · rw [hy] at herror
          cases herror
        · exact ⟨x', hx', herror⟩
      rw [mapM_cons, hy, ok_bind, ih hall.2 hrest, error_bind]
    · rw [mapM_cons, herror, error_bind]

theorem mem_of_mapM {k : α → Except Fault β} {ys : List β} (h : xs.mapM k = .ok ys) {y : β} :
    y ∈ ys ↔ ∃ x ∈ xs, k x = .ok y := by
  induction xs generalizing ys with
  | nil =>
    obtain rfl : [] = ys := ok.inj h
    simp
  | cons x xs ih =>
    rw [mapM_cons] at h
    obtain ⟨z, hz, h⟩ := bind_eq_ok_iff.1 h
    obtain ⟨zs, hzs, h⟩ := bind_eq_ok_iff.1 h
    obtain rfl := ok.inj h
    simp [ih hzs, hz, eq_comm]

end Vetting
