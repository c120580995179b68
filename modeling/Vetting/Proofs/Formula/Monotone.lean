import Vetting.Analysis.Input
import Vetting.Proofs.Fault
import Vetting.Proofs.Formula.Verdict
import Vetting.Proofs.Host

/-!
# More uses never clear a package

A formula without negation can only become true when more functions are used. Its text may be ill formed: none
of its characters can write a negation.
-/

namespace Vetting.Api

open List

variable {ts : List FormulaToken}

/-- The signs of a text without negation. -/
def positiveSigns : List Char := ['(', ')', '&', '|', ' ', '\t', '\n', '\r', '\x0c']

/-- Whether a text is made of numbers, `and`, `or`, `&`, `|`, parentheses and blanks only. -/
def isPositiveText : List Char → Bool
  | [] => true
  | 'a' :: 'n' :: 'd' :: cs => isPositiveText cs
  | 'o' :: 'r' :: cs => isPositiveText cs
  | c :: cs => (Text.isDecimal c || positiveSigns.contains c) && isPositiveText cs

/-- Characters one of which stands in each of `not`, `^`, `==`, `!=` and `,`. -/
def negativeChars : List Char := ['t', '^', '=', '!', ',']

/-- Whether a character can belong to a text without negation. -/
def isPositiveChar (c : Char) : Bool := !negativeChars.contains c

variable {c : Char} {text : String} {op : Operator} {p q : PackageReport}

theorem isPositiveChar_of_isDecimal (h : Text.isDecimal c = true) : isPositiveChar c = true := by
  have table : (negativeChars.all fun c => !Text.isDecimal c) = true := by decide +kernel
  by_contra hneg
  have hmem : c ∈ negativeChars := by simpa [isPositiveChar] using hneg
  have hdecimal := all_eq_true.1 table c hmem
  simp [h] at hdecimal

variable {cs : List Char} {t : FormulaToken} {ns ms : List String} {xs xs' : List Report}

theorem isPositiveChar_of_isPositiveText (h : isPositiveText cs = true) : ∀ c ∈ cs, isPositiveChar c = true := by
  have hsigns : ∀ c ∈ positiveSigns, isPositiveChar c = true :=
    all_eq_true.1 (by decide : positiveSigns.all isPositiveChar = true)
  fun_induction isPositiveText cs with
  | case1 => simp
  | case2 cs ih =>
    simp only [forall_mem_cons]
    exact ⟨by decide, by decide, by decide, ih h⟩
  | case3 cs ih =>
    simp only [forall_mem_cons]
    exact ⟨by decide, by decide, ih h⟩
  | case4 c cs _ _ ih =>
    rw [Bool.and_eq_true, Bool.or_eq_true] at h
    rw [forall_mem_cons]
    refine ⟨?_, ih h.2⟩
    rcases h.1 with hdecimal | hsign
    · exact isPositiveChar_of_isDecimal hdecimal
    · exact hsigns c (by simpa using hsign)

theorem isPositiveChar_stateGo (h : ∀ c ∈ cs, isPositiveChar c = true) (isOpen : Bool) :
    ∀ c ∈ stateGo isOpen cs, isPositiveChar c = true := by
  have hend : ∀ c ∈ statementEnd, isPositiveChar c = true :=
    all_eq_true.1 (by decide : statementEnd.all isPositiveChar = true)
  have hparen : isPositiveChar '(' = true := by decide
  induction cs generalizing isOpen with
  | nil =>
    cases isOpen
    · simp [stateGo]
    · exact hend
  | cons c cs ih =>
    rw [forall_mem_cons] at h
    have hrest := ih h.2
    rw [stateGo]
    intro d hd
    split at hd
    · rcases mem_append.1 hd with hd | hd
      · cases isOpen <;> simp at hd
        · rcases hd with rfl | rfl
          exacts [hparen, h.1]
        · exact hd ▸ h.1
      · exact hrest true d hd
    · rcases mem_append.1 hd with hd | hd
      · cases isOpen <;> simp at hd
        exact hend d hd
      · rcases mem_cons.1 hd with rfl | hd
        exacts [h.1, hrest false d hd]

namespace FormulaToken

/-- Whether a token can belong to a formula without negation. -/
def isPositive : FormulaToken → Bool
  | .comma | .not | .equal | .notEqual | .operator .bitXor => false
  | _ => true

theorem isPositive_ofWord {w : List Char} (hw : ∀ c ∈ w, isPositiveChar c = true) (h : ofWord w = some t) :
    t.isPositive = true := by
  have hnot : String.ofList w ≠ "not" := by
    intro heq
    have hchars : w = ['n', 'o', 't'] := by
      rw [← String.toList_ofList (l := w), heq]
      rfl
    have ht : isPositiveChar 't' = true := hw 't' (by simp [hchars])
    exact absurd ht (by decide)
  simp only [ofWord, hnot, if_false] at h
  split_ifs at h <;> (obtain rfl := Option.some.inj h; rfl)

theorem isPositive_ofDigits {ds : List Char} (h : ofDigits ds = some t) : t.isPositive = true := by
  rw [ofDigits] at h
  split_ifs at h
  obtain rfl := Option.some.inj h
  rfl

theorem isPositive_sign {cs rest : List Char} {t : Option FormulaToken} (hc : isPositiveChar c = true)
    (h : sign c cs = some (t, rest)) : (∀ u ∈ t, u.isPositive = true) ∧ rest ⊆ cs := by
  unfold sign at h
  split at h
  case h_1 | h_2 | h_5 | h_8 => exact absurd hc (by decide)
  case h_3 | h_4 | h_6 | h_7 =>
    obtain ⟨rfl, rfl⟩ := Prod.mk.inj (Option.some.inj h)
    exact ⟨by rintro u ⟨⟩; rfl, List.Subset.refl _⟩
  case h_9 =>
    split_ifs at h
    all_goals obtain ⟨rfl, rfl⟩ := Prod.mk.inj (Option.some.inj h)
    · exact ⟨nofun, List.Subset.refl _⟩
    · exact ⟨nofun, (dropWhile_sublist _).subset⟩
    · exact ⟨nofun, nil_subset _⟩

theorem isPositive_scanGo {fuel : Nat} (hcs : ∀ c ∈ cs, isPositiveChar c = true)
    (h : scanGo fuel cs = some ts) : ∀ t ∈ ts, t.isPositive = true := by
  induction fuel generalizing cs ts with
  | zero => simp [scanGo] at h
  | succ fuel ih =>
    cases cs with
    | nil =>
      obtain rfl : [] = ts := by simpa [scanGo] using h
      simp
    | cons c cs =>
      have htake : ∀ p : Char → Bool, ∀ d ∈ (c :: cs).takeWhile p, isPositiveChar d = true :=
        fun p d hd => hcs d ((takeWhile_sublist p).subset hd)
      have hdrop : ∀ p : Char → Bool, ∀ d ∈ (c :: cs).dropWhile p, isPositiveChar d = true :=
        fun p d hd => hcs d ((dropWhile_sublist p).subset hd)
      rw [scanGo] at h
      split at h
      · split at h
        · cases h
        · rename_i u hu
          obtain ⟨us, hus, rfl⟩ := Option.map_eq_some_iff.1 h
          rw [forall_mem_cons]
          exact ⟨isPositive_ofDigits hu, ih (hdrop _) hus⟩
      · split at h
        · split at h
          · cases h
          · rename_i u hu
            obtain ⟨us, hus, rfl⟩ := Option.map_eq_some_iff.1 h
            rw [forall_mem_cons]
            exact ⟨isPositive_ofWord (htake _) hu, ih (hdrop _) hus⟩
        · split at h
          · cases h
          · rename_i u rest hu
            obtain ⟨us, hus, rfl⟩ := Option.map_eq_some_iff.1 h
            rw [forall_mem_cons] at hcs
            obtain ⟨hsign, hrest⟩ := isPositive_sign hcs.1 hu
            intro t ht
            rcases mem_append.1 ht with ht | ht
            · exact hsign t (Option.mem_toList.1 ht)
            · exact ih (fun d hd => hcs.2 d (hrest hd)) hus t ht

theorem isPositive_scan (htext : isPositiveText text.toList = true)
    (h : scan (stateNumbers text.toList) = some ts) : ∀ t ∈ ts, t.isPositive = true := by
  have hchars := isPositiveChar_stateGo (isPositiveChar_of_isPositiveText htext) false
  simp only [scan] at h
  split at h
  · rename_i us hus
    split_ifs at h
    obtain rfl := Option.some.inj h
    exact isPositive_scanGo (fun c hc => hchars c ((dropWhile_sublist _).subset hc)) hus
  · cases h

end FormulaToken

/-! ## Expressions without negation -/

namespace Expr

/-- Expressions without negation. What is called does not matter: a call has no value. -/
inductive Positive : Expr → Prop
  | member (n : Nat) : Positive (.member n)
  | name (cs : List Char) : Positive (.name cs)
  | empty : Positive (.tuple [])
  | call (f : Expr) (args : List Expr) : Positive (.call f args)
  | binary {op : Operator} {a b : Expr} : op ≠ .bitXor → Positive a → Positive b → Positive (.binary op a b)

/-- All tokens can belong to a formula without negation. -/
def AllPositive (ts : List FormulaToken) : Prop := ∀ t ∈ ts, t.isPositive = true

theorem allPositive_cons :
    AllPositive (t :: ts) ↔ t.isPositive = true ∧ AllPositive ts := forall_mem_cons

/-- What the parts of the reader make of tokens without negation. -/
structure ReadsPositive (fuel : Nat) : Prop where
  place : ∀ {l ts e rest}, AllPositive ts → readAt fuel l ts = some (e, rest) → e.Positive ∧ AllPositive rest
  more : ∀ {op a ts e rest}, AllPositive ts → a.Positive → readMore fuel op a ts = some (e, rest) →
    e.Positive ∧ AllPositive rest
  compare : ∀ {ts cs rest}, AllPositive ts → readCompare fuel ts = some (cs, rest) → cs = [] ∧ rest = ts
  calls : ∀ {a ts e rest}, AllPositive ts → a.Positive → readCalls fuel a ts = some (e, rest) →
    e.Positive ∧ AllPositive rest
  items : ∀ {ts es rest}, AllPositive ts → readItems fuel ts = some (es, rest) → AllPositive rest

namespace ReadsPositive

variable {fuel : Nat} {ts rest : List FormulaToken} {a e : Expr}

theorem more_succ (ih : ReadsPositive fuel) (hts : AllPositive ts) (ha : a.Positive)
    (h : readMore (fuel + 1) op a ts = some (e, rest)) : e.Positive ∧ AllPositive rest := by
  cases ts with
  | nil =>
    obtain ⟨rfl, rfl⟩ : a = e ∧ [] = rest := by simpa [readMore] using h
    exact ⟨ha, hts⟩
  | cons t ts =>
    rw [readMore] at h
    split at h
    case isFalse =>
      obtain ⟨rfl, rfl⟩ : a = e ∧ t :: ts = rest := by simpa using h
      exact ⟨ha, hts⟩
    case isTrue hop =>
      obtain ⟨ht, hts⟩ := allPositive_cons.1 hts
      have hxor : op ≠ .bitXor := by
        rintro rfl
        rw [hop] at ht
        exact absurd ht (by decide)
      split at h
      · cases h
      · rename_i b us hb
        obtain ⟨hb, hus⟩ := ih.place hts hb
        exact ih.more hus (.binary hxor ha hb) h

theorem compare_succ {cs : List (Bool × Expr)} (hts : AllPositive ts)
    (h : readCompare (fuel + 1) ts = some (cs, rest)) : cs = [] ∧ rest = ts := by
  cases ts with
  | nil => simpa [readCompare, eq_comm] using h
  | cons t ts =>
    have ht := (allPositive_cons.1 hts).1
    cases t <;> simp_all [readCompare, FormulaToken.isPositive]

theorem calls_succ (ih : ReadsPositive fuel) (hts : AllPositive ts) (ha : a.Positive)
    (h : readCalls (fuel + 1) a ts = some (e, rest)) : e.Positive ∧ AllPositive rest := by
  unfold readCalls at h
  split at h
  case h_1 => cases h
  case h_2 n us hn =>
    cases hn
    split at h
    · rename_i es vs hus
      have hvs := ih.items (allPositive_cons.1 hts).2 hus
      exact ih.calls (allPositive_cons.1 hvs).2 (.call _ es) h
    · cases h
  case h_3 =>
    obtain ⟨rfl, rfl⟩ := Prod.mk.inj (Option.some.inj h)
    exact ⟨ha, hts⟩

theorem items_succ (ih : ReadsPositive fuel) {es : List Expr} (hts : AllPositive ts)
    (h : readItems (fuel + 1) ts = some (es, rest)) : AllPositive rest := by
  unfold readItems at h
  split at h
  case h_1 => cases h
  case h_2 | h_3 =>
    obtain ⟨rfl, rfl⟩ := Prod.mk.inj (Option.some.inj h)
    exact hts
  case h_4 n hn _ _ =>
    cases hn
    split at h
    · cases h
    · rename_i hus
      have hcomma := (allPositive_cons.1 (ih.place hts hus).2).1
      exact absurd hcomma (by decide)
    · rename_i hus
      obtain ⟨rfl, rfl⟩ := Prod.mk.inj (Option.some.inj h)
      exact (ih.place hts hus).2

theorem place_succ (ih : ReadsPositive fuel) {l : Level} (hts : AllPositive ts)
    (h : readAt (fuel + 1) l ts = some (e, rest)) : e.Positive ∧ AllPositive rest := by
  unfold readAt at h
  split at h
  case h_1 | h_9 => cases h
  case h_2 n op hn =>
    cases hn
    split at h
    · cases h
    · rename_i hus
      obtain ⟨ha, hus⟩ := ih.place hts hus
      exact ih.more hus ha h
  case h_3 => exact absurd (allPositive_cons.1 hts).1 (by decide)
  case h_4 m cs us hn =>
    split_ifs at h
    obtain ⟨rfl, rfl⟩ := Prod.mk.inj (Option.some.inj h)
    simp only [allPositive_cons] at hts
    exact ⟨.member m, hts.2.2.2⟩
  case h_5 n hn _ _ =>
    cases hn
    split at h
    · cases h
    · rename_i b us hus
      obtain ⟨hb, hus⟩ := ih.place hts hus
      split at h
      · cases h
      · rename_i vs hvs
        obtain ⟨-, rfl⟩ := ih.compare hus hvs
        obtain ⟨rfl, rfl⟩ := Prod.mk.inj (Option.some.inj h)
        exact ⟨hb, hus⟩
      · rename_i cs vs hne hvs
        exact absurd (ih.compare hus hvs).1 hne
  case h_6 n cs us hn =>
    cases hn
    exact ih.calls (allPositive_cons.1 hts).2 (.name cs) h
  case h_7 n us hn =>
    cases hn
    exact ih.calls (allPositive_cons.1 (allPositive_cons.1 hts).2).2 .empty h
  case h_8 n us _ hn =>
    cases hn
    have hus := (allPositive_cons.1 hts).2
    split at h
    · rename_i b vs hvs
      obtain ⟨hb, hvs⟩ := ih.place hus hvs
      exact ih.calls (allPositive_cons.1 hvs).2 hb h
    · rename_i hvs
      have hcomma := (allPositive_cons.1 (ih.place hus hvs).2).1
      exact absurd hcomma (by decide)
    · cases h

end ReadsPositive

theorem readsPositive (fuel : Nat) : ReadsPositive fuel := by
  induction fuel with
  | zero =>
    constructor <;> intros <;> simp_all [readAt, readMore, readCompare, readCalls, readItems]
  | succ fuel ih =>
    exact ⟨ih.place_succ, ih.more_succ, ReadsPositive.compare_succ, ih.calls_succ, ih.items_succ⟩

theorem positive_parse? {e : Expr} (hts : AllPositive ts)
    (h : parse? ts = some e) : e.Positive := by
  simp only [parse?] at h
  split at h
  · rename_i hread
    obtain rfl := Option.some.inj h
    exact ((readsPositive _).place hts hread).1
  · rename_i hread
    have hcomma := (allPositive_cons.1 ((readsPositive _).place hts hread).2).1
    exact absurd hcomma (by decide)
  · cases h

section

variable {used : List Int} {a b : Expr} {v : Value}

theorem eval_and (h : eval used (.binary .and a b) = .ok v) : ∃ x, eval used a = .ok x ∧
      (x.truthy = true ∧ eval used b = .ok v ∨ x.truthy = false ∧ v = x) := by
  rw [eval] at h
  obtain ⟨x, hx, h⟩ := bind_eq_ok_iff.1 h
  refine ⟨x, hx, ?_⟩
  split at h
  case isTrue ht => exact .inl ⟨ht, h⟩
  case isFalse ht => exact .inr ⟨by simpa using ht, (Except.ok.inj h).symm⟩

theorem eval_or (h : eval used (.binary .or a b) = .ok v) : ∃ x, eval used a = .ok x ∧
      (x.truthy = true ∧ v = x ∨ x.truthy = false ∧ eval used b = .ok v) := by
  rw [eval] at h
  obtain ⟨x, hx, h⟩ := bind_eq_ok_iff.1 h
  refine ⟨x, hx, ?_⟩
  split at h
  case isTrue ht => exact .inl ⟨ht, (Except.ok.inj h).symm⟩
  case isFalse ht => exact .inr ⟨by simpa using ht, h⟩

theorem eval_bits (hand : op ≠ .and) (hor : op ≠ .or) (h : eval used (.binary op a b) = .ok v) :
    ∃ x y, eval used a = .ok (.bool x) ∧ eval used b = .ok (.bool y) ∧ v = .bool (op.apply x y) := by
  rw [eval] at h
  · obtain ⟨x, hx, h⟩ := bind_eq_ok_iff.1 h
    obtain ⟨y, hy, h⟩ := bind_eq_ok_iff.1 h
    cases x <;> cases y <;> simp_all [bitwise]
  all_goals simp_all

end

namespace Positive

variable {used used' : List Int} {e : Expr} {v w : Value}

theorem value_cases (he : e.Positive) (h : e.eval used = .ok v) : (∃ b, v = .bool b) ∨ v.truthy = false := by
  induction he generalizing v with
  | member n =>
    obtain rfl := Except.ok.inj h
    exact .inl ⟨_, rfl⟩
  | name cs =>
    simp only [eval, nameValue] at h
    split_ifs at h
    all_goals obtain rfl := Except.ok.inj h
    · exact .inl ⟨_, rfl⟩
    · exact .inl ⟨_, rfl⟩
    · exact .inr rfl
  | empty =>
    obtain rfl : Value.tuple [] = v := by simpa [eval, evalAll, Except.map] using h
    exact .inr rfl
  | call f args =>
    rw [eval] at h
    obtain ⟨-, -, h⟩ := bind_eq_ok_iff.1 h
    obtain ⟨-, -, h⟩ := bind_eq_ok_iff.1 h
    cases h
  | @binary op a b hop _ _ iha ihb =>
    by_cases hand : op = .and
    · subst hand
      obtain ⟨x, hx, ⟨-, hv⟩ | ⟨-, rfl⟩⟩ := eval_and h
      exacts [ihb hv, iha hx]
    by_cases hor : op = .or
    · subst hor
      obtain ⟨x, hx, ⟨-, rfl⟩ | ⟨-, hv⟩⟩ := eval_or h
      exacts [iha hx, ihb hv]
    obtain ⟨x, y, -, -, rfl⟩ := eval_bits hand hor h
    exact .inl ⟨_, rfl⟩

theorem eq_true (he : e.Positive) (h : e.eval used = .ok v) (ht : v.truthy = true) : v = .bool true := by
  obtain ⟨b, rfl⟩ | hf := he.value_cases h
  · exact congrArg Value.bool ht
  · rw [hf] at ht
    cases ht

theorem eval_mono (hsub : used ⊆ used') (he : e.Positive) (hv : e.eval used = .ok v)
    (hw : e.eval used' = .ok w) (ht : v.truthy = true) : w.truthy = true := by
  induction he generalizing v w with
  | member n =>
    obtain rfl := Except.ok.inj hv
    obtain rfl := Except.ok.inj hw
    have hmem : (n : Int) ∈ used := by simpa [Value.truthy] using ht
    simpa [Value.truthy] using hsub hmem
  | name cs =>
    rw [eval] at hv hw
    obtain rfl := Except.ok.inj (hv.symm.trans hw)
    exact ht
  | empty =>
    obtain rfl : Value.tuple [] = v := by simpa [eval, evalAll, Except.map] using hv
    cases ht
  | call f args =>
    rw [eval] at hv
    obtain ⟨-, -, hv⟩ := bind_eq_ok_iff.1 hv
    obtain ⟨-, -, hv⟩ := bind_eq_ok_iff.1 hv
    cases hv
  | @binary op a b hop _ _ iha ihb =>
    by_cases hand : op = .and
    · subst hand
      obtain ⟨x, hx, ⟨hxt, hbv⟩ | ⟨hxf, rfl⟩⟩ := eval_and hv
      · obtain ⟨y, hy, ⟨-, hbw⟩ | ⟨hyf, -⟩⟩ := eval_and hw
        · exact ihb hbv hbw ht
        · have hyt := iha hx hy hxt
          rw [hyf] at hyt
          cases hyt
      · rw [hxf] at ht
        cases ht
    by_cases hor : op = .or
    · subst hor
      obtain ⟨y, hy, ⟨hyt, rfl⟩ | ⟨hyf, hbw⟩⟩ := eval_or hw
      · exact hyt
      · obtain ⟨x, hx, ⟨hxt, -⟩ | ⟨-, hbv⟩⟩ := eval_or hv
        · have hyt := iha hx hy hxt
          rw [hyf] at hyt
          cases hyt
        · exact ihb hbv hbw ht
    obtain ⟨x, y, hx, hy, rfl⟩ := eval_bits hand hor hv
    obtain ⟨x', y', hx', hy', rfl⟩ := eval_bits hand hor hw
    have hxx : x = true → x' = true := iha hx hx'
    have hyy : y = true → y' = true := ihb hy hy'
    cases op <;> simp_all [Operator.apply, Value.truthy]
    exact ht.imp hxx hyy

end Positive

end Expr

theorem evalText_mono {used used' : List Int} (hsub : used ⊆ used') (htext : isPositiveText text.toList = true)
    {v w : Expr.Value} (hv : evalText used text = .ok v) (hw : evalText used' text = .ok w) (ht : v.truthy = true) :
    w = .bool true := by
  unfold evalText at hv hw
  split at hv
  · cases hv
  · rename_i ts hts
    rw [hts] at hw
    dsimp only at hw
    split at hv
    · cases hv
    · rename_i e hparse
      rw [hparse] at hw
      have he := Expr.positive_parse? (FormulaToken.isPositive_scan htext hts) hparse
      exact he.eq_true hw (he.eval_mono hsub hv hw ht)

/-! ## More uses in reports -/

/-- A package's report with the settings of another and at least its uses. -/
def PackageReport.Extends (p q : PackageReport) : Prop := q.config = p.config ∧ p.uses ⊆ q.uses

/-- A report in which uses may have been added to any package of another. -/
def Report.Extends (r s : Report) : Prop := List.Forall₂ PackageReport.Extends r.packages s.packages

theorem PackageReport.Extends.settings_eq (h : p.Extends q) : q.settings = p.settings := by
  rw [settings, h.1, settings]

theorem Report.Extends.exists_first {r s : Report} (h : r.Extends s) (hp : r.first = .ok p) :
    ∃ q, s.first = .ok q ∧ p.Extends q := by
  unfold Report.first at hp ⊢
  unfold Report.Extends at h
  cases hr : r.packages with
  | nil => simp [hr] at hp
  | cons p' ps =>
    rw [hr] at h hp
    obtain rfl : p' = p := Except.ok.inj hp
    obtain ⟨q, qs, hq, -, hs⟩ := forall₂_cons_left_iff.1 h
    exact ⟨q, by rw [hs], hq⟩

theorem usedBy_subset (h : p.Extends q) (hns : usedBy p = .ok ns) (hms : usedBy q = .ok ms) : ns ⊆ ms := by
  simp only [usedBy, h.settings_eq] at hns hms
  split at hns
  case isTrue hmode =>
    rw [if_pos hmode] at hms
    obtain ⟨nss, hnss, hns⟩ := bind_eq_ok_iff.1 hns
    obtain ⟨mss, hmss, hms⟩ := bind_eq_ok_iff.1 hms
    obtain rfl := Except.ok.inj hns
    obtain rfl := Except.ok.inj hms
    intro s hs
    obtain ⟨names, hnames, hs⟩ := mem_flatten.1 hs
    obtain ⟨u, hu, hget⟩ := (mem_of_mapM hnss).1 hnames
    exact mem_flatten.2 ⟨names, (mem_of_mapM hmss).2 ⟨u, h.2 hu, hget⟩, hs⟩
  case isFalse hmode =>
    rw [if_neg hmode] at hms
    obtain rfl := Except.ok.inj hns
    obtain rfl := Except.ok.inj hms
    exact map_subset _ h.2

def Report.UsesAmong (r : Report) (ns : List String) : Prop :=
  ∃ p us, r.first = .ok p ∧ usedBy p = .ok us ∧ us ⊆ ns

theorem usedInAll_spec {rs : List Report} (h : usedInAll rs = .ok ns) : (∀ r ∈ rs, r.UsesAmong ns) ∧
      ∀ s ∈ ns, ∃ r ∈ rs, ∃ p us, r.first = .ok p ∧ usedBy p = .ok us ∧ s ∈ us := by
  have hfold : ∀ acc, rs.foldlM (fun acc r => do return acc ++ (← usedBy (← r.first))) acc =
      (.ok ns : Except Fault (List String)) → acc ⊆ ns ∧ (∀ r ∈ rs, r.UsesAmong ns) ∧
      ∀ s ∈ ns, s ∈ acc ∨ ∃ r ∈ rs, ∃ p us, r.first = .ok p ∧ usedBy p = .ok us ∧ s ∈ us := by
    clear h
    induction rs with
    | nil =>
      intro acc h
      obtain rfl := Except.ok.inj h
      exact ⟨List.Subset.refl _, by simp, fun s hs => .inl hs⟩
    | cons r rs ih =>
      intro acc h
      rw [foldlM_cons] at h
      obtain ⟨acc', hstep, h⟩ := bind_eq_ok_iff.1 h
      obtain ⟨p, hp, hstep⟩ := bind_eq_ok_iff.1 hstep
      obtain ⟨us, hus, hstep⟩ := bind_eq_ok_iff.1 hstep
      obtain rfl := Except.ok.inj hstep
      obtain ⟨hacc, hall, hfrom⟩ := ih _ h
      rw [append_subset] at hacc
      refine ⟨hacc.1, forall_mem_cons.2 ⟨⟨p, us, hp, hus, hacc.2⟩, hall⟩, fun s hs => ?_⟩
      rcases hfrom s hs with hs | ⟨q, hq, hs⟩
      · rcases mem_append.1 hs with hs | hs
        · exact .inl hs
        · exact .inr ⟨r, mem_cons_self, p, us, hp, hus, hs⟩
      · exact .inr ⟨q, mem_cons_of_mem r hq, hs⟩
  obtain ⟨-, hall, hfrom⟩ := hfold [] h
  exact ⟨hall, fun s hs => (hfrom s hs).resolve_left (by simp)⟩

theorem exists_extends_of_mem (h : List.Forall₂ Report.Extends xs xs') {r : Report} (hr : r ∈ xs) :
    ∃ s ∈ xs', r.Extends s := by
  induction h with
  | nil => cases hr
  | @cons r₀ s₀ xs xs' hrs _ ih =>
    rcases mem_cons.1 hr with rfl | hr
    · exact ⟨s₀, mem_cons_self, hrs⟩
    · obtain ⟨s, hs, hext⟩ := ih hr
      exact ⟨s, mem_cons_of_mem s₀ hs, hext⟩

theorem usedInAll_subset (h : List.Forall₂ Report.Extends xs xs') (ys : List Report) (hns : usedInAll xs = .ok ns)
    (hms : usedInAll (xs' ++ ys) = .ok ms) : ns ⊆ ms := by
  intro s hs
  obtain ⟨r, hr, p, us, hp, hus, hs⟩ := (usedInAll_spec hns).2 s hs
  obtain ⟨r', hr', hext⟩ := exists_extends_of_mem h hr
  obtain ⟨q, vs, hq, hvs, hsub⟩ := (usedInAll_spec hms).1 r' (mem_append_left ys hr')
  obtain ⟨q', hq', hpq⟩ := hext.exists_first hp
  obtain rfl : q' = q := Except.ok.inj (hq'.symm.trans hq)
  exact hsub (usedBy_subset hpq hus hvs hs)

theorem usedIds_subset (c : Config) (h : ns ⊆ ms) : usedIds c ns ⊆ usedIds c ms := by
  refine map_subset _ fun n hn => ?_
  rw [mem_filter, contains_iff_mem] at hn ⊢
  exact ⟨hn.1, h hn.2⟩

theorem verdictWith_mono {c : Config} (hc : isPositiveText c.formula.toList = true)
    (h : List.Forall₂ Report.Extends xs xs') (ys : List Report) {v w : Expr.Value} (hv : verdictWith c xs = .ok v)
    (hw : verdictWith c (xs' ++ ys) = .ok w) (ht : v.truthy = true) : w = .bool true := by
  obtain ⟨ns, hns, hv⟩ := bind_eq_ok_iff.1 hv
  obtain ⟨ms, hms, hw⟩ := bind_eq_ok_iff.1 hw
  exact evalText_mono (usedIds_subset c (usedInAll_subset h ys hns hms)) hc hv hw ht

end Vetting.Api

namespace Vetting.Analysis

open Api

/-- The settings that decide: those in a file if one is named, else those of the first report. -/
def Decides (h : Host) (config : Option String) (rs : List Report) (c : Config) : Prop :=
  match config.filter fun s => !s.isEmpty with
  | some p => (readConfig (some p)).runOn h = (.ok c, h)
  | none => ∃ r p, rs.head? = some r ∧ r.first = .ok p ∧ c = p.settings

theorem readsOnly_readConfig (p : String) : (readConfig (some p)).ReadsOnly :=
  (Job.readsOnly_readMessage _ p).bind fun _ => Job.readsOnly_pure _

theorem exists_decides {rs : List Report} (hne : rs ≠ []) {config : Option String} {h h' : Host}
    {v : Expr.Value} (hv : (verdictOf rs config).runOn h = (.ok v, h')) :
    ∃ c, Decides h config rs c ∧ verdictWith c rs = .ok v := by
  cases hconfig : config.filter fun s => !s.isEmpty with
  | some p =>
    simp only [verdictOf, hconfig, List.isEmpty_eq_false_iff.2 hne, Bool.false_eq_true, if_false] at hv
    simp only [Decides, hconfig]
    obtain ⟨c, h₁, hread, hverdict⟩ := Job.exists_of_runOn_bind hv
    have hkeep := readsOnly_readConfig p h
    rw [hread] at hkeep
    obtain rfl : h₁ = h := hkeep
    exact ⟨c, hread, congrArg Prod.fst hverdict⟩
  | none =>
    simp only [verdictOf, hconfig] at hv
    simp only [Decides, hconfig]
    cases rs with
    | nil => exact absurd rfl hne
    | cons r rs =>
      have hverdict : verdict (r :: rs) = .ok v := congrArg Prod.fst hv
      obtain ⟨p, hp, hverdict⟩ := bind_eq_ok_iff.1 hverdict
      exact ⟨p.settings, ⟨r, p, rfl, hp, rfl⟩, hverdict⟩

theorem Decides.unique {xs xs' : List Report} (hmore : List.Forall₂ Report.Extends xs xs')
    (ys : List Report) {h : Host} {config : Option String} {c d : Config}
    (hc : Decides h config xs c) (hd : Decides h config (xs' ++ ys) d) : d = c := by
  unfold Decides at hc hd
  split at hc
  · rename_i p hp
    rw [hp] at hd
    exact Except.ok.inj (congrArg Prod.fst (hd.symm.trans hc))
  · rename_i hnone
    rw [hnone] at hd
    obtain ⟨r, p, hr, hp, rfl⟩ := hc
    obtain ⟨s, q, hs, hq, rfl⟩ := hd
    cases hmore with
    | nil => cases hr
    | @cons r₀ s₀ _ _ hext _ =>
      obtain rfl : r₀ = r := Option.some.inj hr
      obtain rfl : s₀ = s := Option.some.inj hs
      obtain ⟨q', hq', hpq⟩ := hext.exists_first hp
      obtain rfl : q' = q := Except.ok.inj (hq'.symm.trans hq)
      exact hpq.settings_eq

/-- If the formula that decides has no negation and the reports were found suspicious, they are so with any uses
and reports added, whenever there is a verdict on these. -/
theorem verdictOf_of_more_uses {xs xs' ys : List Report} {config : Option String} {h h₁ h₂ : Host} {v w : Expr.Value}
    (hpositive : ∀ c, Decides h config xs c → isPositiveText c.formula.toList = true)
    (hmore : List.Forall₂ Report.Extends xs xs')
    (hv : (verdictOf xs config).runOn h = (.ok v, h₁)) (htrue : v.truthy = true)
    (hw : (verdictOf (xs' ++ ys) config).runOn h = (.ok w, h₂)) : w = .bool true := by
  cases xs with
  | nil =>
    have hfalse : (verdictOf [] config).runOn h = (.ok (.bool false), h) := by
      unfold verdictOf
      split <;> rfl
    obtain rfl : .bool false = v := Except.ok.inj (congrArg Prod.fst (hfalse.symm.trans hv))
    cases htrue
  | cons r xs =>
    have hne : xs' ++ ys ≠ [] := by
      cases hmore
      simp
    obtain ⟨c, hc, hvc⟩ := exists_decides (by simp) hv
    obtain ⟨d, hd, hwd⟩ := exists_decides hne hw
    obtain rfl := hc.unique hmore ys hd
    exact verdictWith_mono (hpositive _ hc) hmore ys hvc hwd htrue

/-- A package that uses `f`, which may be either of two functions, stays suspicious when it uses another one and
when a second package is added. -/
theorem verdictOf_of_more_uses_partial :
    let settings : Config :=
      { apis := [{ name := "f", fullName := "a.f", id := 1 }, { name := "f", fullName := "b.f", id := 2 },
          { name := "g", fullName := "a.g", id := 10 }]
        formula := "1 & (2|10)", funcOnly := true }
    let first : Report := { packages := [{ config := some settings, uses := [{ name := "f" }] }] }
    let more : Report :=
      { packages := [{ config := some settings, uses := [{ name := "g" }, { name := "f" }] }] }
    let second : Report := { packages := [{ uses := [{ fullName := "h" }] }] }
    first.Extends more ∧ ∃ v, (verdictOf [first] none).runOn default = (.ok v, default) ∧ v.truthy = true ∧
        (verdictOf [more, second] none).runOn default = (.ok (.bool true), default) := by
  intro settings first more second
  have hext : first.Extends more := .cons ⟨rfl, by simp⟩ .nil
  have hfirst : (verdict [first]).toOption.map Expr.Value.truthy = some true := by decide +kernel
  have hmore : ((verdict [more, second]).toOption).isSome = true := by decide +kernel
  obtain ⟨v, hv, htrue⟩ := Option.map_eq_some_iff.1 hfirst
  obtain ⟨w, hw⟩ := Option.isSome_iff_exists.1 hmore
  have hv : (verdictOf [first] none).runOn default = (.ok v, default) :=
    congrArg (·, default) (eq_ok_of_toOption hv)
  have hw : (verdictOf ([more] ++ [second]) none).runOn default = (.ok w, default) :=
    congrArg (·, default) (eq_ok_of_toOption hw)
  have hpositive : ∀ c, Decides default none [first] c → isPositiveText c.formula.toList = true := by
    rintro c ⟨r, p, hr, hp, rfl⟩
    obtain rfl : first = r := Option.some.inj hr
    obtain rfl := Except.ok.inj hp
    decide +kernel
  refine ⟨hext, v, hv, htrue, ?_⟩
  obtain rfl := verdictOf_of_more_uses hpositive (.cons hext .nil) hv htrue hw
  exact hw

end Vetting.Analysis
