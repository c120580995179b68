import Vetting.Calls.JavaScript
import Mathlib.Data.List.Basic

/-!
# Texts at positions

A text is taken out of a script by its positions, but with the lines that texts have, which end at more
characters than a script's.
-/

namespace Vetting.Calls.JavaScript

open List Text

def endsScriptLine (c : Char) : Bool := c = '\n' || c = '\r' || c.toNat = 0x2028 || c.toNat = 0x2029

/-- The position that characters lead to; a carriage return takes a line feed with it. -/
def advance (ends : Char → Bool) : Position → List Char → Position
  | p, [] => p
  | p, '\r' :: '\n' :: cs => advance ends ⟨p.row + 1, 0⟩ cs
  | p, c :: cs => advance ends (if ends c then ⟨p.row + 1, 0⟩ else ⟨p.row, p.column + 1⟩) cs

variable (cs acc : List Char)

/-- The position in a script after its first characters. -/
def positionAfter : Position := advance endsScriptLine ⟨1, 0⟩ cs

/-- A place where a text is cut in two, but no line end is. -/
def IsCut (before after : List Char) : Prop := ¬ (before.getLast? = some '\r' ∧ after.head? = some '\n')

instance (before after : List Char) : Decidable (IsCut before after) := inferInstanceAs (Decidable (¬ (_ ∧ _)))

theorem advance_congr {ends ends' : Char → Bool} {cs : List Char} (h : ∀ c ∈ cs, ends c = ends' c) (p : Position) :
    advance ends p cs = advance ends' p cs := by
  fun_induction advance ends p cs with
  | case1 p => rfl
  | case2 p cs ih => exact ih fun c hc => h c (mem_cons_of_mem _ (mem_cons_of_mem _ hc))
  | case3 p c cs hcs ih =>
    rw [ih fun d hd => h d (mem_cons_of_mem _ hd), h c mem_cons_self, advance]
    exact hcs

variable {c : Char}

theorem isLineEnd_of_endsScriptLine (h : endsScriptLine c = true) : isLineEnd c = true := by
  simp only [endsScriptLine, Bool.or_eq_true, decide_eq_true_eq] at h
  rcases h with ((rfl | rfl) | h) | h
  · decide
  · decide
  · simp [isLineEnd, h]
  · simp [isLineEnd, h]

/-! ## Lines -/

theorem linesGo_eq_nil_iff {acc cs : List Char} : linesGo acc cs = [] ↔ acc = [] ∧ cs = [] := by
  fun_induction linesGo acc cs <;> simp_all

theorem nil_notMem_linesGo (cs : List Char) : [] ∉ linesGo acc cs := by
  fun_induction linesGo acc cs <;> simp_all

theorem isPrefix_head_linesGo (cs : List Char) : ∀ l ∈ (linesGo acc cs).head?, acc.reverse <+: l := by
  fun_induction linesGo acc cs with
  | case1 acc h => simp
  | case2 acc h => simp
  | case3 acc cs ih => simp
  | case4 acc c cs hcs hc ih => simp
  | case5 acc c cs hcs hc ih =>
    intro l hl
    exact (prefix_append acc.reverse [c]).trans (by simpa using ih l hl)

theorem IsCut.tail {cs rest : List Char} (h : IsCut (c :: cs) rest) : IsCut cs rest := by
  rintro ⟨hlast, hhead⟩
  exact h ⟨by cases cs <;> simp_all, hhead⟩

theorem IsCut.of_append {before cs rest : List Char} (h : IsCut (before ++ cs) rest) : IsCut cs rest := by
  rintro ⟨hlast, hhead⟩
  exact h ⟨by rw [getLast?_append, hlast]; rfl, hhead⟩

theorem IsCut.left {before cs rest : List Char} (h : IsCut before (cs ++ rest)) : IsCut before cs := by
  rintro ⟨hlast, hhead⟩
  exact h ⟨hlast, by rw [head?_append, hhead]; rfl⟩

theorem IsCut.head_ne {cs rest : List Char} (h : IsCut (c :: cs) rest)
    (hcs : ∀ ds, c = '\r' → cs = '\n' :: ds → False) : c = '\r' → (cs ++ rest).head? ≠ some '\n' := by
  rintro rfl hhead
  cases cs with
  | nil => exact h ⟨rfl, hhead⟩
  | cons d ds =>
    obtain rfl : d = '\n' := Option.some.inj hhead
    exact hcs ds rfl rfl

theorem advance_append {ends : Char → Bool} {cs ds : List Char} (hcut : IsCut cs ds) (p : Position) :
    advance ends p (cs ++ ds) = advance ends (advance ends p cs) ds := by
  fun_induction advance ends p cs with
  | case1 p => rfl
  | case2 p cs ih => exact ih hcut.tail.tail
  | case3 p c cs hcs ih =>
    rw [cons_append, advance, ih hcut.tail]
    rintro es rfl hes
    exact hcut.head_ne hcs rfl (by rw [hes]; rfl)

theorem linesGo_cons {cs : List Char} (h : c = '\r' → cs.head? ≠ some '\n') :
    linesGo acc (c :: cs) = if isLineEnd c then (c :: acc).reverse :: linesGo [] cs else linesGo (c :: acc) cs := by
  rw [linesGo]
  rintro ds rfl rfl
  exact h rfl rfl

theorem exists_linesGo_append {cs rest : List Char} (hcut : IsCut cs rest) (row : Int) :
    ∃ ls acc', linesGo acc (cs ++ rest) = ls ++ linesGo acc' rest ∧ ls.flatten ++ acc'.reverse = acc.reverse ++ cs ∧
      advance isLineEnd ⟨row, acc.length⟩ cs = ⟨row + ls.length, acc'.length⟩ := by
  fun_induction linesGo acc cs generalizing row with
  | case1 acc hacc => exact ⟨[], acc, by simp, by simp, by simp [advance]⟩
  | case2 acc hacc => exact ⟨[], acc, by simp, by simp, by simp [advance]⟩
  | case3 acc cs ih =>
    obtain ⟨ls, acc', hlines, hchars, hpos⟩ := ih hcut.tail.tail (row + 1)
    refine ⟨('\n' :: '\r' :: acc).reverse :: ls, acc', ?_, ?_, ?_⟩
    · rw [cons_append, cons_append, linesGo, hlines, cons_append]
    · simpa using hchars
    · rw [advance]
      simpa [Int.add_assoc, Int.add_comm 1] using hpos
  | case4 acc c cs hcs hc ih =>
    obtain ⟨ls, acc', hlines, hchars, hpos⟩ := ih hcut.tail (row + 1)
    refine ⟨(c :: acc).reverse :: ls, acc', ?_, ?_, ?_⟩
    · rw [cons_append, linesGo_cons acc (hcut.head_ne hcs), if_pos hc, hlines, cons_append]
    · simpa using hchars
    · rw [advance, if_pos hc]
      · simpa [Int.add_assoc, Int.add_comm 1] using hpos
      · exact hcs
  | case5 acc c cs hcs hc ih =>
    obtain ⟨ls, acc', hlines, hchars, hpos⟩ := ih hcut.tail row
    refine ⟨ls, acc', ?_, ?_, ?_⟩
    · rw [cons_append, linesGo_cons acc (hcut.head_ne hcs), if_neg hc, hlines]
    · simpa using hchars
    · rw [advance, if_neg hc]
      · simpa using hpos
      · exact hcs

/-! ## Texts between positions -/

theorem slice_natCast {α : Type} (xs : List α) (m n : Nat) : slice xs m n = (xs.take n).drop m := by
  have hnot (k : Nat) : ¬ (k : Int) < 0 := by omega
  simp only [slice, if_neg (hnot _), Int.toNat_natCast]

theorem before_natCast (n : Nat) : before cs n = cs.take n := by
  exact (slice_natCast cs 0 n).trans drop_zero

theorem after_natCast (n : Nat) : after cs n = cs.drop n := by
  rw [after, slice_natCast, take_length]

theorem trimLast_concat (ls : List (List Char)) (l : List Char) (n : Nat) :
    trimLast n (ls ++ [l]) = .ok (ls ++ [l.take n]) := by
  induction ls with
  | nil => rw [nil_append, trimLast, before_natCast, nil_append]
  | cons k ls ih =>
    rw [cons_append, trimLast, ih]
    · rfl
    · simp

/-- What is left of lines if the last ends at one column and the first begins at another. -/
theorem sourceText_of_slice {source : List Char} {start finish : Position} {n k : Nat} {ls : List (List Char)}
    {l : List Char} (hstart : start.column = n) (hfinish : finish.column = k)
    (hlines : slice (linesGo [] source) (start.row - 1) finish.row = ls ++ [l])
    (hfirst : ∀ f ∈ ls.head?, n ≤ f.length) :
    sourceText source start finish = .ok ((ls.flatten ++ l.take k).drop n) := by
  rw [sourceText, hlines, hfinish, trimLast_concat, hstart]
  cases ls with
  | nil => simp [after_natCast, bind, Except.bind, pure, Except.pure]
  | cons f ls =>
    have hn : n ≤ f.length := hfirst f rfl
    simp [after_natCast, bind, Except.bind, pure, Except.pure, drop_append, Nat.sub_eq_zero_of_le hn]

section Positions

variable {before middle after : List Char} (hstart : IsCut before (middle ++ after))
  (hfinish : IsCut (before ++ middle) after)
  (hends : ∀ c ∈ before ++ middle, isLineEnd c = true → endsScriptLine c = true)

include hstart hfinish hends

/-- The lines between two positions, and how much of the first and the last is part of the text. -/
theorem exists_slice_positions : ∃ (head tail : List Char) (ls : List (List Char)),
    (positionAfter before).column = head.length ∧ (positionAfter (before ++ middle)).column = tail.length ∧
    slice (linesGo [] (before ++ (middle ++ after))) ((positionAfter before).row - 1)
      (positionAfter (before ++ middle)).row = ls ++ (linesGo tail after).take 1 ∧
    ls.flatten ++ tail.reverse = head.reverse ++ middle ∧ (∀ f ∈ ls.head?, head.length ≤ f.length) ∧
    [] ∉ ls ∧ (middle = [] → ls = []) := by
  have hsame : ∀ c ∈ before ++ middle, endsScriptLine c = isLineEnd c := fun c hc =>
    Bool.eq_iff_iff.2 ⟨isLineEnd_of_endsScriptLine, hends c hc⟩
  obtain ⟨ls₁, head, hlines₁, -, hpos₁⟩ := exists_linesGo_append [] hstart 1
  obtain ⟨ls, tail, hlines, hchars, hpos⟩ := exists_linesGo_append head hfinish.of_append (1 + ls₁.length)
  have hfirst : positionAfter before = ⟨1 + ls₁.length, head.length⟩ := by
    rw [positionAfter, advance_congr fun c hc => hsame c (mem_append_left _ hc)]
    exact hpos₁
  have hlast : positionAfter (before ++ middle) = ⟨1 + ls₁.length + ls.length, tail.length⟩ := by
    rw [positionAfter, advance_congr hsame, advance_append hstart.left]
    exact (congrArg (advance isLineEnd · middle) hpos₁).trans hpos
  refine ⟨head, tail, ls, congrArg Position.column hfirst, congrArg Position.column hlast, ?_, hchars, ?_, ?_, ?_⟩
  · have hsub : (1 + ls₁.length : Int) - 1 = (ls₁.length : Nat) := by omega
    have hadd : (1 + ls₁.length + ls.length : Int) = (ls₁.length + (ls.length + 1) : Nat) := by omega
    rw [hfirst, hlast, hlines₁, hlines, hsub, hadd, slice_natCast, take_length_add_append, drop_left,
      take_length_add_append]
  · intro f hf
    have hprefix := isPrefix_head_linesGo head (middle ++ after) f (by
      rw [hlines, head?_append, Option.mem_def.1 hf]
      rfl)
    simpa using hprefix.length_le
  · intro hnil
    exact nil_notMem_linesGo head (middle ++ after) (hlines ▸ mem_append_left _ hnil)
  · rintro rfl
    have hrow : (1 + ls₁.length : Int) = 1 + ls₁.length + ls.length := congrArg Position.row hpos
    exact length_eq_zero_iff.1 (by omega)

/-- Where no character before its end ends a line of texts only, a text is taken out by its positions, unless it
ends with the script and right after a line. -/
theorem sourceText_eq_iff :
    sourceText (before ++ (middle ++ after)) (positionAfter before) (positionAfter (before ++ middle)) = .ok middle ↔
      after ≠ [] ∨ (positionAfter (before ++ middle)).column ≠ 0 := by
  obtain ⟨head, tail, ls, hcolumn, hcolumn', hrows, hchars, hfirst, hnil, hempty⟩ :=
    exists_slice_positions hstart hfinish hends
  cases hrest : linesGo tail after with
  | nil =>
    obtain ⟨rfl, rfl⟩ := linesGo_eq_nil_iff.1 hrest
    refine iff_of_false (fun htext => ?_) (by simp [hcolumn'])
    rw [hrest, take_nil, append_nil ls] at hrows
    rcases eq_nil_or_concat' ls with rfl | ⟨ls, l, rfl⟩
    · rw [sourceText, hrows] at htext
      cases htext
    · -- the last of the lines is cut off as a whole, although all of it belongs to the text
      rw [sourceText_of_slice hcolumn hcolumn' hrows fun f hf => hfirst f (by
        rw [head?_append, Option.mem_def.1 hf]
        rfl)] at htext
      have hmiddle : 0 < middle.length := length_pos_of_ne_nil fun h => by simpa using hempty h
      have hl : 0 < l.length := length_pos_of_ne_nil fun h => by simp [h] at hnil
      have hlength := congrArg List.length hchars
      have htaken := congrArg List.length (Except.ok.inj htext)
      simp at hlength htaken
      omega
  | cons l more =>
    have hprefix := isPrefix_head_linesGo tail after l (by rw [hrest]; rfl)
    have htake : l.take tail.length = tail.reverse := by simpa using (prefix_iff_eq_take.1 hprefix).symm
    rw [hrest] at hrows
    refine iff_of_true ?_ ?_
    · rw [sourceText_of_slice hcolumn hcolumn' hrows hfirst, htake, hchars, drop_left' (by simp)]
    · rw [hcolumn', ← not_and_or]
      rintro ⟨rfl, htail⟩
      rw [linesGo_eq_nil_iff.2 ⟨by simpa using htail, rfl⟩] at hrest
      cases hrest

end Positions

/-- The second line of a script follows a separator of lines, and its call is taken out. -/
theorem sourceText_second_line :
    let before := ['a', Char.ofNat 0x2028, ' ']
    IsCut before (['f', '(', ')'] ++ ['\r', '\n']) ∧ IsCut (before ++ ['f', '(', ')']) ['\r', '\n'] ∧
    (∀ c ∈ before ++ ['f', '(', ')'], isLineEnd c = true → endsScriptLine c = true) ∧
    sourceText (before ++ (['f', '(', ')'] ++ ['\r', '\n'])) ⟨2, 1⟩ ⟨2, 4⟩ = .ok ['f', '(', ')'] := by
  intro before
  have hstart : IsCut before (['f', '(', ')'] ++ ['\r', '\n']) := by decide
  have hfinish : IsCut (before ++ ['f', '(', ')']) ['\r', '\n'] := by decide
  have hends : ∀ c ∈ before ++ ['f', '(', ')'], isLineEnd c = true → endsScriptLine c = true := by
    simp [before, isLineEnd, endsScriptLine]
  exact ⟨hstart, hfinish, hends, (sourceText_eq_iff hstart hfinish hends).2 (.inl (by simp))⟩

/-- A form feed ends a line of texts, so a call on the second line is looked for on the first. -/
theorem sourceText_after_form_feed :
    positionAfter ['\x0c', '\n'] = ⟨2, 0⟩ ∧ positionAfter ['\x0c', '\n', 'f', '(', ')'] = ⟨2, 3⟩ ∧
    sourceText ['\x0c', '\n', 'f', '(', ')'] ⟨2, 0⟩ ⟨2, 3⟩ = .ok ['\n'] := ⟨rfl, rfl, rfl⟩

end Vetting.Calls.JavaScript
