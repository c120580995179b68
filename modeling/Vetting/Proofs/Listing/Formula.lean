import Vetting.Listing.Group
import Vetting.Proofs.Formula.Verdict

/-!
# The value of the formula in settings

The formula asks for a source together with a sink, or for one of any other group. The parentheses of an empty
group hold no truth value, so that evaluating the formula fails.
-/

namespace Vetting.Listing

open Api List Lexeme Text

/-! ## Spelling -/

/-- The pieces of the numbers of a group. -/
def idLexemes : List Nat → List Lexeme
  | [] => []
  | n :: ns => .number n :: ns.flatMap fun m => [.operator .bitOr, .number m]

def groupLexemes (ids : List Nat) : List Lexeme := .leftParen :: (idLexemes ids ++ [.rightParen])

variable (first second : List Nat) (others : List (List Nat))

def formulaText : String :=
  join " | " (("((" ++ alternatives first ++ ") & (" ++ alternatives second ++ "))") ::
    others.map fun ids => "(" ++ alternatives ids ++ ")")

/-- The pieces of groups after the first. -/
def otherLexemes : List Lexeme :=
  others.flatMap fun ids => .operator .bitOr :: groupLexemes ids

def formulaLexemes : List Lexeme :=
  .leftParen :: (groupLexemes first ++ .operator .bitAnd ::
    (groupLexemes second ++ .rightParen :: otherLexemes others))

section Spelling

variable {xs : List Lexeme} {cs : List Char}

theorem spelled_moreIds (ns : List Nat) (h : Lexeme.Spelled xs cs) (hcs : endsWord cs = true) :
    let more := ns.flatMap fun m => " | ".toList ++ (ofNat m).toList
    Lexeme.Spelled ((ns.flatMap fun m => [.operator .bitOr, .number m]) ++ xs) (more ++ cs) ∧
      endsWord (more ++ cs) = true := by
  induction ns with
  | nil => exact ⟨h, hcs⟩
  | cons n ns ih =>
    have hnumber := ih.1.cons (.number n) fun _ => ih.2
    have hall := (hnumber.space.sign (x := .operator .bitOr) rfl).space
    refine ⟨?_, by simp [endsWord, separators]⟩
    simpa [text, Operator.text, ofNat] using hall

theorem spelled_alternatives (ids : List Nat) (h : Lexeme.Spelled xs cs) (hcs : endsWord cs = true) :
    Lexeme.Spelled (idLexemes ids ++ xs) ((alternatives ids).toList ++ cs) := by
  cases ids with
  | nil => simpa [idLexemes, alternatives, join] using h
  | cons n ns =>
    have hmore := spelled_moreIds ns h hcs
    have hall := hmore.1.cons (.number n) fun _ => hmore.2
    rw [alternatives, map_cons, toList_join_cons, flatMap_map]
    simpa [idLexemes, text, ofNat] using hall

theorem spelled_group (ids : List Nat) (h : Lexeme.Spelled xs cs) :
    Lexeme.Spelled (groupLexemes ids ++ xs) (("(" ++ alternatives ids ++ ")").toList ++ cs) := by
  have hclose : Lexeme.Spelled (.rightParen :: xs) (')' :: cs) := h.sign rfl
  have hids := spelled_alternatives ids hclose (by simp [endsWord, separators])
  have hall := hids.sign (x := .leftParen) rfl
  simpa [groupLexemes, text] using hall

theorem spelled_others (others : List (List Nat)) : Lexeme.Spelled (otherLexemes others)
      (others.flatMap fun ids => " | ".toList ++ ("(" ++ alternatives ids ++ ")").toList) := by
  induction others with
  | nil => exact .nil
  | cons ids others ih =>
    have hall := ((spelled_group ids ih).space.sign (x := .operator .bitOr) rfl).space
    simpa [otherLexemes, text, Operator.text] using hall

theorem spelled_formulaText (first second : List Nat) (others : List (List Nat)) :
    Lexeme.Spelled (formulaLexemes first second others) (formulaText first second others).toList := by
  have hclose := (spelled_others others).sign (x := .rightParen) rfl
  have hsecond := ((spelled_group second hclose).space.sign (x := .operator .bitAnd) rfl).space
  have hall := (spelled_group first hsecond).sign (x := .leftParen) rfl
  rw [formulaText, toList_join_cons, flatMap_map]
  simpa [formulaLexemes, text, Operator.text] using hall

end Spelling

section Depth

variable (d : Nat) (xs : List Lexeme)

variable (ids : List Nat)

theorem depth_idLexemes : depth d (idLexemes ids ++ xs) ≤ max (d + 1) (depth d xs) := by
  have hmore : ∀ ns : List Nat, depth d ((ns.flatMap fun m => [.operator .bitOr, .number m]) ++ xs) ≤
        max (d + 1) (depth d xs) := by
    intro ns
    induction ns with
    | nil => exact Nat.le_max_right _ _
    | cons n ns ih =>
      simp only [flatMap_cons, cons_append, nil_append, depth]
      omega
  cases ids with
  | nil => exact Nat.le_max_right _ _
  | cons n ns =>
    have hns := hmore ns
    simp only [idLexemes, cons_append, depth]
    omega

theorem depth_groupLexemes : depth d (groupLexemes ids ++ xs) ≤ max (d + 2) (depth d xs) := by
  have hids := depth_idLexemes (d + 1) (.rightParen :: xs) ids
  simp only [groupLexemes, cons_append, append_assoc, nil_append, depth, Nat.add_sub_cancel] at hids ⊢
  omega

theorem depth_formulaLexemes (first second : List Nat) (others : List (List Nat)) :
    depth 0 (formulaLexemes first second others) ≤ 3 := by
  have hothers : depth 0 (otherLexemes others) ≤ 2 := by
    induction others with
    | nil => decide
    | cons ids others ih =>
      have hgroup := depth_groupLexemes 0 (otherLexemes others) ids
      rw [otherLexemes, flatMap_cons, ← otherLexemes, cons_append]
      simp only [depth]
      omega
  have hsecond := depth_groupLexemes 1 (.rightParen :: otherLexemes others) second
  have hfirst := depth_groupLexemes 1
    (.operator .bitAnd :: (groupLexemes second ++ .rightParen :: otherLexemes others)) first
  simp only [formulaLexemes, depth, Nat.zero_add, Nat.sub_self] at hfirst hsecond ⊢
  omega

end Depth

/-! ## Value -/

def groupExpr : List Nat → Expr
  | [] => .tuple []
  | n :: ns => ns.foldl (fun e m => .binary .bitOr e (.member m)) (.member n)

def formulaExpr : Expr :=
  others.foldl (fun e ids => .binary .bitOr e (groupExpr ids)) (.binary .bitAnd (groupExpr first) (groupExpr second))

theorem written_member (n : Nat) : Expr.Written .primary (.member n) (number n).tokens :=
  .parens (.operand (.operand (.member n)))

theorem written_group (ids : List Nat) :
    Expr.Written .primary (groupExpr ids) ((groupLexemes ids).flatMap tokens) := by
  cases ids with
  | nil => exact .empty
  | cons n ns =>
    have hfirst : Expr.Written (.chain .bitOr) (.member n) (number n).tokens :=
      .operand (.operand (.operand (written_member n)))
    have hchain := hfirst.chain (ns.map fun m => (.member m, (number m).tokens)) (by
      simp only [forall_mem_map]
      exact fun m _ => .operand (.operand (written_member m)))
    have hparens := Expr.Written.parens (.operand (.operand (.bits hchain)))
    simpa [groupExpr, groupLexemes, idLexemes, tokens, foldl_map, flatMap_map, flatMap_assoc] using hparens

theorem written_formula : Expr.Written (.chain .or) (formulaExpr first second others)
      ((formulaLexemes first second others).flatMap tokens) := by
  have hfirst : Expr.Written (.chain .bitAnd) _ _ := .operand (written_group first)
  have hand := hfirst.operator (written_group second)
  have hparens := Expr.Written.parens (.operand (.operand (.bits (.operand (.operand hand)))))
  have hpair : Expr.Written (.chain .bitOr) _ _ := .operand (.operand (.operand hparens))
  have hchain := hpair.chain (others.map fun ids => (groupExpr ids, (groupLexemes ids).flatMap tokens)) (by
      simp only [forall_mem_map]
      exact fun ids _ => .operand (.operand (written_group ids)))
  have hall : Expr.Written (.chain .or) _ _ := .operand (.operand (.bits hchain))
  simpa [formulaExpr, formulaLexemes, otherLexemes, tokens, foldl_map, flatMap_map, flatMap_assoc] using hall

/-- Whether the function of some number of a group is used. -/
def hits (used : List Int) (ids : List Nat) : Bool := ids.any fun n => used.contains (n : Int)

/-- What a formula over groups without an empty one comes to. -/
def formulaValue (used : List Int) (first second : List Nat) (others : List (List Nat)) : Bool :=
  hits used first && hits used second || others.any (hits used)

section Value

variable {used : List Int} {e : Expr} {b : Bool} {α : Type} {f : α → Expr} {g : α → Bool}

theorem means_alternatives (he : Expr.Means used e b) {xs : List α} (hxs : ∀ x ∈ xs, Expr.Means used (f x) (g x)) :
    Expr.Means used (xs.foldl (fun e x => .binary .bitOr e (f x)) e) (b || xs.any g) := by
  induction xs generalizing e b with
  | nil => simpa using he
  | cons x xs ih =>
    have hx : Expr.Means used (.binary .bitOr e (f x)) (b || g x) :=
      he.binary (hxs x mem_cons_self)
    simpa [Bool.or_assoc] using ih hx fun y hy => hxs y (mem_cons_of_mem x hy)

theorem means_group {ids : List Nat} (h : ids ≠ []) : Expr.Means used (groupExpr ids) (hits used ids) := by
  cases ids with
  | nil => exact absurd rfl h
  | cons n ns => exact means_alternatives (.member n) fun m _ => .member m

theorem eval_binary_empty {op : Operator} (hop : op = .bitAnd ∨ op = .bitOr) {a : Expr}
    {v : Expr.Value} (ha : a.eval used = .ok v) :
    (Expr.binary op a (groupExpr [])).eval used = .error (.cause .wrongType) ∧
      (Expr.binary op (groupExpr []) a).eval used = .error (.cause .wrongType) := by
  have hempty : (groupExpr []).eval used = .ok (.tuple []) := rfl
  obtain rfl | rfl := hop <;> cases v <;> simp [Expr.eval, ha, hempty, bind, Except.bind, Expr.bitwise]

theorem eval_alternatives_error {c : Fault} (he : e.eval used = .error c) (xs : List α) :
    (xs.foldl (fun e x => .binary .bitOr e (f x)) e).eval used = .error c := by
  induction xs generalizing e with
  | nil => exact he
  | cons x xs ih => exact ih (by simp [Expr.eval, he, bind, Except.bind])

theorem eval_alternatives_empty {others : List (List Nat)} (he : Expr.Means used e b) (hempty : [] ∈ others) :
    (others.foldl (fun e ids => .binary .bitOr e (groupExpr ids)) e).eval used = .error (.cause .wrongType) := by
  induction others generalizing e b with
  | nil => cases hempty
  | cons ids others ih =>
    rw [foldl_cons]
    by_cases hids : ids = []
    · rw [hids]
      exact eval_alternatives_error (eval_binary_empty (.inr rfl) he.eval).1 others
    · exact ih (he.binary (means_group hids)) ((mem_cons.1 hempty).resolve_left (Ne.symm hids))

theorem eval_formulaExpr (used : List Int) (first second : List Nat) (others : List (List Nat)) :
    (formulaExpr first second others).eval used =
      if [] ∈ first :: second :: others then .error (.cause .wrongType)
      else .ok (.bool (formulaValue used first second others)) := by
  have hgroup (ids : List Nat) : ∃ v, (groupExpr ids).eval used = .ok v := by
    by_cases hids : ids = []
    · exact ⟨.tuple [], hids ▸ rfl⟩
    · exact ⟨_, (means_group hids).eval⟩
  obtain ⟨v, hv⟩ := hgroup first
  obtain ⟨w, hw⟩ := hgroup second
  by_cases hfirst : first = []
  · subst hfirst
    rw [if_pos mem_cons_self]
    exact eval_alternatives_error (eval_binary_empty (.inl rfl) hw).2 others
  by_cases hsecond : second = []
  · subst hsecond
    rw [if_pos (by simp)]
    exact eval_alternatives_error (eval_binary_empty (.inl rfl) hv).1 others
  have hand : Expr.Means used (.binary .bitAnd (groupExpr first) (groupExpr second))
      (hits used first && hits used second) := (means_group hfirst).binary (means_group hsecond)
  by_cases hothers : [] ∈ others
  · rw [if_pos (by simp [hothers])]
    exact eval_alternatives_empty hand hothers
  · rw [if_neg (by simp [Ne.symm hfirst, Ne.symm hsecond, hothers])]
    refine (means_alternatives hand fun ids hids => means_group ?_).eval
    exact fun h => hothers (h ▸ hids)

end Value

theorem evalText_formulaText (used : List Int) (first second : List Nat) (others : List (List Nat)) :
    evalText used (formulaText first second others) =
      if [] ∈ first :: second :: others then .error (.cause .wrongType)
      else .ok (.bool (formulaValue used first second others)) := by
  have hdepth : depth 0 (formulaLexemes first second others) ≤ FormulaToken.maxDepth :=
    (depth_formulaLexemes first second others).trans (by decide)
  have hscan := (spelled_formulaText first second others).scan_stateNumbers hdepth
  simp only [evalText, hscan, (written_formula first second others).parse?, eval_formulaExpr]

end Vetting.Listing
