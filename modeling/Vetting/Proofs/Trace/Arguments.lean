import Vetting.Proofs.Fault
import Vetting.Trace

/-!
# Reading back the arguments of a system call

Arguments are ordinary characters, and groups in quotes, brackets or braces that nest to any depth. Inside an
argument the scanner waits for the closing characters on its stack. `ArgumentScan.reading` is that state; every
lemma below says what a piece of an argument does to it.
-/

namespace Vetting.Trace

open ArgumentScan List

/-! ## Arguments -/

/-- Whether a character means nothing to the scanner, neither in a group nor outside. -/
def isOrdinary (c : Char) : Bool := !isDelimiter c && c != ',' && c != '\\'

inductive Quote where
  | single
  | double

/-- The character that opens and closes a quoted text. -/
def Quote.char : Quote → Char
  | .single => '\''
  | .double => '"'

inductive Bracket where
  | square
  | curly

def Bracket.opener : Bracket → Char
  | .square => '['
  | .curly => '\x7b'

def Bracket.closer : Bracket → Char
  | .square => ']'
  | .curly => '\x7d'

/-- Any character but the quote and the backslash, or a backslash with any character after it. -/
inductive QuotedPart (q : Quote) where
  | free (c : Char) (h : c ≠ q.char ∧ c ≠ '\\')
  | escaped (c : Char)

def QuotedPart.text {q : Quote} : QuotedPart q → List Char
  | .free c _ => [c]
  | .escaped c => ['\\', c]

mutual

/-- A quoted text, or a body in brackets. -/
inductive Group where
  | quoted (q : Quote) (parts : List (QuotedPart q))
  | bracketed (b : Bracket) (body : Body)

/-- Ordinary characters, commas, backslashes with any character after them, and groups. -/
inductive Body where
  | nil
  | ordinary (c : Char) (h : isOrdinary c = true) (rest : Body)
  | comma (rest : Body)
  | escaped (c : Char) (rest : Body)
  | group (g : Group) (rest : Body)

end

namespace Group

def opener : Group → Char
  | .quoted q _ => q.char
  | .bracketed b _ => b.opener

def closer : Group → Char
  | .quoted q _ => q.char
  | .bracketed b _ => b.closer

end Group

mutual

/-- What stands between the two ends of a group. -/
def Group.inner : Group → List Char
  | .quoted _ parts => parts.flatMap QuotedPart.text
  | .bracketed _ body => body.text

def Body.text : Body → List Char
  | .nil => []
  | .ordinary c _ rest => c :: rest.text
  | .comma rest => ',' :: rest.text
  | .escaped c rest => '\\' :: c :: rest.text
  | .group g rest => g.opener :: (g.inner ++ g.closer :: rest.text)

end

variable (g : Group) (a : Argument)

def Group.text : List Char := g.opener :: (g.inner ++ [g.closer])

/-- What the scanner keeps of a group: all of it, or all but the character that opens it. -/
def Group.kept (quotes : Bool) (g : Group) : List Char :=
  (if quotes then [g.opener] else []) ++ (g.inner ++ [g.closer])

/-- The characters of an argument: ordinary ones, and perhaps a group and dots. -/
def argumentText (lead : List Char) : Option (Group × Nat) → List Char
  | none => lead
  | some (g, dots) => lead ++ (g.text ++ List.replicate dots '.')

/-- An argument as a tracer prints it, not empty and without a blank before it. -/
structure Argument where
  lead : List Char
  /-- A group after the ordinary characters, with the number of dots behind it. -/
  group : Option (Group × Nat) := none
  ordinary : ∀ c ∈ lead, isOrdinary c = true := by decide
  begins : (argumentText lead group).head?.any (fun c => !isGap c) = true := by decide

def Argument.text : List Char := argumentText a.lead a.group

/-- The characters of an argument whose group is shown in some way, with or without the dots. -/
def Argument.shown (group : Group → List Char) (ellipsis : Bool) (a : Argument) : List Char :=
  a.lead ++ a.group.elim [] fun g => group g.1 ++ if ellipsis then List.replicate g.2 '.' else []

theorem Argument.shown_kept_true : a.shown (Group.kept true) true = a.text := by
  obtain ⟨lead, _ | ⟨g, dots⟩, _, _⟩ := a
  · simp [shown, text, argumentText]
  · rfl

/-! ## Steps of the scanner -/

namespace ArgumentScan

variable {o : ArgumentOptions} {done : List (List Char)} {current nest : List Char} {c : Char}

/-- The state inside an argument, outside of an escape. -/
def reading (done : List (List Char)) (current nest : List Char) : ArgumentScan :=
  { done, current, nest, awaited := nest.head? }

/-- The state after the groups of an argument. -/
def closing (done : List (List Char)) (current : List Char) (expectComma : Bool) : ArgumentScan :=
  { reading done current [] with expectComma }

def waiting (done : List (List Char)) (between : Bool) : ArgumentScan :=
  { reading done [] [] with between }

theorem step_reading (o : ArgumentOptions) (done : List (List Char)) (current nest : List Char)
    (c : Char) : step o (reading done current nest) c = stepInside o (reading done current nest) c := by
  simp [step, reading]

theorem step_ordinary (h : isOrdinary c = true) :
    step o (reading done current nest) c = .ok (reading done (c :: current) nest) := by
  simp only [isOrdinary, Bool.and_eq_true, Bool.not_eq_true', bne_iff_ne] at h
  rw [step_reading]
  simp [stepInside, reading, push, h]

theorem step_comma_inside {w : Char} :
    step o (reading done current (w :: nest)) ',' = .ok (reading done (',' :: current) (w :: nest)) := by
  rw [step_reading]
  simp [stepInside, reading, push, isDelimiter, isQuote]

theorem foldlM_escaped : ['\\', c].foldlM (step o) (reading done current nest) =
      .ok (reading done (c :: '\\' :: current) nest) := by
  have hslash : step o (reading done current nest) '\\' =
      .ok { reading done ('\\' :: current) nest with escaped := true } := by
    rw [step_reading]
    simp [stepInside, reading, push]
  rw [foldlM_cons, hslash]
  simp [step, stepInside, reading, push]

theorem step_free {q : Quote} (h : c ≠ q.char ∧ c ≠ '\\') : step o (reading done current (q.char :: nest)) c =
      .ok (reading done (c :: current) (q.char :: nest)) := by
  have hquote : isQuote q.char = true := by cases q <;> rfl
  rw [step_reading]
  simp only [stepInside, reading, head?_cons, Option.isNone_some, Bool.and_false,
    Bool.false_eq_true, if_false, if_neg h.2]
  split
  · simp [stepDelimiter, push, hquote, h.1.symm]
  · simp [push]

variable (g : Group)

theorem opener_spec : g.opener ≠ '\\' ∧ isDelimiter g.opener = true ∧ (g.opener ≠ ']' ∧ g.opener ≠ '\x7d') ∧
      closerOf g.opener = g.closer := by
  cases g with
  | quoted q _ =>
    rw [Group.opener, Group.closer]
    cases q <;> decide
  | bracketed b _ =>
    rw [Group.opener, Group.closer]
    cases b <;> decide

theorem closer_spec : g.closer ≠ '\\' ∧ isDelimiter g.closer = true := by
  cases g with
  | quoted q _ =>
    rw [Group.closer]
    cases q <;> decide
  | bracketed b _ =>
    rw [Group.closer]
    cases b <;> decide

theorem step_opener (hquote : nest.head?.any isQuote = false) (hnest : nest.head? ≠ some g.opener) :
    step o (reading done current nest) g.opener =
      .ok (reading done (if o.quotes || !nest.isEmpty then g.opener :: current else current) (g.closer :: nest)) := by
  obtain ⟨hslash, hdelimiter, hend, hcloser⟩ := opener_spec g
  rw [step_reading]
  cases hkeep : o.quotes || !nest.isEmpty <;>
    simp only [stepInside, stepDelimiter, reading, Bool.false_eq_true, if_false, if_neg hslash,
      if_pos hdelimiter, hquote, Bool.false_and, if_neg hnest, hend, decide_false, Bool.or_self,
      hkeep, if_true, push, enter, hcloser, head?_cons]

/-- Whether a character is waited for in brackets, where groups can open. -/
def IsBracketEnd (w : Char) : Prop := ∃ b : Bracket, w = b.closer

theorem step_opener_inside {w : Char} (hw : IsBracketEnd w) : step o (reading done current (w :: nest)) g.opener =
      .ok (reading done (g.opener :: current) (g.closer :: w :: nest)) := by
  obtain ⟨b, rfl⟩ := hw
  obtain ⟨-, -, hend, -⟩ := opener_spec g
  have hquote : (b.closer :: nest).head?.any isQuote = false := by cases b <;> rfl
  have hnest : (b.closer :: nest).head? ≠ some g.opener := by
    cases b
    · simpa [Bracket.closer] using hend.1.symm
    · simpa [Bracket.closer] using hend.2.symm
  rw [step_opener g hquote hnest]
  simp

theorem step_opener_outside : step o (reading done current []) g.opener =
      .ok (reading done (if o.quotes then g.opener :: current else current) [g.closer]) := by
  rw [step_opener g rfl (by simp)]
  simp

theorem step_closer : step o (reading done current (g.closer :: nest)) g.closer =
      (reading done (g.closer :: current) (g.closer :: nest)).leave := by
  rw [step_reading]
  simp [stepInside, stepDelimiter, reading, push, closer_spec g]

theorem step_closer_inside {w : Char} : step o (reading done current (g.closer :: w :: nest)) g.closer =
      .ok (reading done (g.closer :: current) (w :: nest)) := by
  rw [step_closer]
  rfl

theorem step_closer_outside : step o (reading done current [g.closer]) g.closer =
      .ok (closing done (g.closer :: current) ((g.closer :: current).reverse != ['[', '?', ']'])) := by
  rw [step_closer]
  simp [leave, closing, reading]

theorem step_dot {e : Bool} (h : o.ellipsis = true ∨ e = true) : step o (closing done current e) '.' =
      .ok (closing done (if o.ellipsis then '.' :: current else current) e) := by
  cases e with
  | false =>
    have ho : o.ellipsis = true := by simpa using h
    simp [step, stepInside, closing, reading, push, isDelimiter, isQuote, ho]
  | true =>
    simp only [step, stepAfterGroup, closing, reading, push]
    cases o.ellipsis <;> rfl

theorem step_comma {e : Bool} : step o (closing done current e) ',' = .ok (waiting (current :: done) true) := by
  cases e <;> simp [step, stepInside, stepAfterGroup, closing, waiting, reading, finish, isDelimiter, isQuote]

theorem step_gap (hc : isGap c = true) : step o (waiting done true) c = .ok (waiting done true) := by
  simp [step, waiting, hc]

theorem foldlM_waiting {cs : List Char} (h : cs.head?.any (fun c => !isGap c) = true) (b : Bool) :
    cs.foldlM (step o) (waiting done b) = cs.foldlM (step o) (reading done [] []) := by
  cases cs with
  | nil => simp at h
  | cons c cs =>
    have hc : isGap c = false := by simpa using h
    rw [foldlM_cons, foldlM_cons]
    simp [step, waiting, reading, hc]

end ArgumentScan

/-! ## Groups and arguments -/

variable {o : ArgumentOptions}

theorem foldlM_quotedParts {q : Quote} (parts : List (QuotedPart q)) (done : List (List Char))
    (current nest : List Char) :
    (parts.flatMap QuotedPart.text).foldlM (step o) (reading done current (q.char :: nest)) =
      .ok (reading done ((parts.flatMap QuotedPart.text).reverse ++ current) (q.char :: nest)) := by
  induction parts generalizing current with
  | nil => rfl
  | cons p parts ih =>
    cases p with
    | free c h =>
      rw [flatMap_cons, QuotedPart.text, singleton_append, foldlM_cons, step_free h, ok_bind, ih]
      simp
    | escaped c =>
      rw [flatMap_cons, QuotedPart.text, foldlM_append, foldlM_escaped, ok_bind, ih]
      simp

mutual

theorem Group.foldlM_inner (g : Group) (done : List (List Char)) (current nest : List Char) :
    g.inner.foldlM (step o) (reading done current (g.closer :: nest)) =
      .ok (reading done (g.inner.reverse ++ current) (g.closer :: nest)) := by
  cases g with
  | quoted q parts =>
    simp only [Group.inner, Group.closer]
    exact foldlM_quotedParts parts done current nest
  | bracketed b body =>
    simp only [Group.inner, Group.closer]
    exact Body.foldlM_text body ⟨b, rfl⟩ done current nest

theorem Body.foldlM_text (body : Body) {w : Char} (hw : IsBracketEnd w) (done : List (List Char))
    (current nest : List Char) :
    body.text.foldlM (step o) (reading done current (w :: nest)) =
      .ok (reading done (body.text.reverse ++ current) (w :: nest)) := by
  cases body with
  | nil => rfl
  | ordinary c h rest =>
    rw [Body.text, foldlM_cons, step_ordinary h, ok_bind, Body.foldlM_text rest hw]
    simp
  | comma rest =>
    rw [Body.text, foldlM_cons, step_comma_inside, ok_bind, Body.foldlM_text rest hw]
    simp
  | escaped c rest =>
    have hsplit : (Body.escaped c rest).text = ['\\', c] ++ rest.text := by simp [Body.text]
    rw [hsplit, foldlM_append, foldlM_escaped, ok_bind, Body.foldlM_text rest hw]
    simp
  | group g rest =>
    rw [Body.text, foldlM_cons, step_opener_inside g hw, ok_bind, foldlM_append,
      Group.foldlM_inner g, ok_bind, foldlM_cons, step_closer_inside, ok_bind,
      Body.foldlM_text rest hw]
    simp

end

theorem foldlM_ordinary {cs : List Char} (h : ∀ c ∈ cs, isOrdinary c = true)
    (done : List (List Char)) (current nest : List Char) :
    cs.foldlM (step o) (reading done current nest) = .ok (reading done (cs.reverse ++ current) nest) := by
  induction cs generalizing current with
  | nil => rfl
  | cons c cs ih =>
    rw [foldlM_cons, step_ordinary (h c mem_cons_self), ok_bind, ih fun d hd => h d (mem_cons_of_mem _ hd)]
    simp

theorem foldlM_dots {e : Bool} (h : o.ellipsis = true ∨ e = true) (n : Nat) (done : List (List Char))
    (current : List Char) :
    (List.replicate n '.').foldlM (step o) (closing done current e) =
      .ok (closing done ((if o.ellipsis then List.replicate n '.' else []).reverse ++ current) e) := by
  induction n generalizing current with
  | zero => cases o.ellipsis <;> rfl
  | succ n ih =>
    rw [replicate_succ, foldlM_cons, step_dot h, ok_bind, ih]
    cases o.ellipsis <;> simp

theorem Group.foldlM_text (done : List (List Char)) (current : List Char) :
    g.text.foldlM (step o) (reading done current []) = .ok (closing done ((g.kept o.quotes).reverse ++ current)
        (current.reverse ++ g.kept o.quotes != ['[', '?', ']'])) := by
  rw [Group.text, foldlM_cons, step_opener_outside g, ok_bind, foldlM_append,
    Group.foldlM_inner, ok_bind, foldlM_cons, step_closer_outside, ok_bind, foldlM_nil]
  cases o.quotes <;> simp [Group.kept, pure, Except.pure]

theorem Body.text_ne_placeholder (body : Body) : body.text ≠ ['[', '?'] := by
  cases body with
  | nil => simp [Body.text]
  | ordinary c h rest =>
    rintro heq
    obtain rfl : c = '[' := by
      rw [Body.text] at heq
      exact (List.cons.inj heq).1
    exact absurd h (by decide)
  | comma rest => simp [Body.text]
  | escaped c rest => simp [Body.text]
  | group g rest =>
    rintro heq
    rw [Body.text] at heq
    have hrest := (List.cons.inj heq).2
    obtain ⟨-, hdelimiter⟩ := closer_spec g
    have hcloser : g.closer = '?' := by
      rcases hinner : g.inner with _ | ⟨c, cs⟩
      · rw [hinner] at hrest
        exact (List.cons.inj hrest).1
      · rw [hinner] at hrest
        simp at hrest
    rw [hcloser] at hdelimiter
    exact absurd hdelimiter (by decide)

theorem kept_ne_placeholder {lead : List Char} (h : ∀ c ∈ lead, isOrdinary c = true) (g : Group) :
    lead ++ g.kept false ≠ ['[', '?', ']'] := by
  intro heq
  rcases lead with _ | ⟨c, lead⟩
  · have hend : g.inner ++ [g.closer] = ['[', '?'] ++ [']'] := heq
    obtain ⟨hinner, hcloser⟩ := append_inj' hend rfl
    rcases g with ⟨q, parts⟩ | ⟨b, body⟩
    · cases q <;> simp [Group.closer, Quote.char] at hcloser
    · rw [Group.inner] at hinner
      exact body.text_ne_placeholder hinner
  · obtain rfl : c = '[' := (List.cons.inj heq).1
    exact absurd (h '[' mem_cons_self) (by decide)

theorem Argument.foldlM_text (ho : o.ellipsis = true ∨ o.quotes = false) (a : Argument)
    (done : List (List Char)) (between : Bool) :
    ∃ e, a.text.foldlM (step o) (waiting done between) =
      .ok (closing done (a.shown (Group.kept o.quotes) o.ellipsis).reverse e) := by
  obtain ⟨lead, _ | ⟨g, dots⟩, hlead, hbegins⟩ := a
  · refine ⟨false, ?_⟩
    simp only [Argument.text, foldlM_waiting hbegins]
    rw [argumentText, foldlM_ordinary hlead, append_nil, Argument.shown, Option.elim, append_nil]
    rfl
  · refine ⟨lead ++ g.kept o.quotes != ['[', '?', ']'], ?_⟩
    have hdots : o.ellipsis = true ∨ (lead ++ g.kept o.quotes != ['[', '?', ']']) = true :=
      ho.imp_right fun hq => by
        rw [hq, bne_iff_ne]
        exact kept_ne_placeholder hlead g
    simp only [Argument.text, foldlM_waiting hbegins]
    rw [argumentText, foldlM_append, foldlM_ordinary hlead, ok_bind, foldlM_append,
      g.foldlM_text, ok_bind, append_nil, reverse_reverse, foldlM_dots hdots]
    simp [Argument.shown]

/-! ## Lists of arguments -/

theorem Argument.text_ne_nil : a.text ≠ [] := by
  intro h
  have hbegins := a.begins
  rw [← Argument.text, h] at hbegins
  simp at hbegins

theorem result_closing {done : List (List Char)} {current : List Char} (h : current ≠ []) (e : Bool) :
    (closing done current e).result = done.reverse.map List.reverse ++ [current.reverse] := by
  simp [result, closing, reading, h]

theorem Argument.shown_kept_ne_nil (quotes ellipsis : Bool) (a : Argument) :
    a.shown (Group.kept quotes) ellipsis ≠ [] := by
  have hne := a.text_ne_nil
  obtain ⟨lead, _ | ⟨g, dots⟩, _, _⟩ := a
  · simpa [Argument.shown, Argument.text, argumentText] using hne
  · simp [Argument.shown, Group.kept]

/-- Printed arguments are read one after another, behind those that were read before. -/
theorem foldlM_printed (ho : o.ellipsis = true ∨ o.quotes = false) (a : Argument) (args : List Argument)
    (done : List (List Char)) (between : Bool) :
    ∃ s, (List.intercalate [',', ' '] ((a :: args).map Argument.text)).foldlM (step o)
        (waiting done between) = .ok s ∧
      s.result = done.reverse.map List.reverse ++
        (a :: args).map (Argument.shown (Group.kept o.quotes) o.ellipsis) := by
  obtain ⟨e, hread⟩ := a.foldlM_text ho done between
  induction args generalizing a done between e with
  | nil =>
    refine ⟨_, by simpa [List.intercalate] using hread, ?_⟩
    rw [result_closing (reverse_ne_nil_iff.2 (a.shown_kept_ne_nil _ _))]
    simp
  | cons b args ih =>
    obtain ⟨e', hread'⟩ :=
      b.foldlM_text ho ((a.shown (Group.kept o.quotes) o.ellipsis).reverse :: done) true
    obtain ⟨s, hrest, hresult⟩ := ih b _ true e' hread'
    have htext : List.intercalate [',', ' '] ((a :: b :: args).map Argument.text) =
        a.text ++ (',' :: ' ' :: List.intercalate [',', ' '] ((b :: args).map Argument.text)) := by
      simp [List.intercalate]
    refine ⟨s, ?_, by simpa using hresult⟩
    rw [htext, foldlM_append, hread, ok_bind, foldlM_cons, step_comma, ok_bind,
      foldlM_cons, step_gap (by decide), ok_bind, hrest]

theorem parseArguments_printed (ho : o.ellipsis = true ∨ o.quotes = false) (args : List Argument) :
    parseArguments o (List.intercalate [',', ' '] (args.map Argument.text)) =
      .ok (args.map (Argument.shown (Group.kept o.quotes) o.ellipsis)) := by
  cases args with
  | nil => rfl
  | cons a args =>
    obtain ⟨s, hread, hresult⟩ := foldlM_printed ho a args [] false
    have hstart : waiting [] false = {} := rfl
    rw [parseArguments, ← hstart, hread, Except.map, hresult]
    simp

/-- Arguments that are printed with a comma and a blank between two are read back as they were. -/
theorem parseArguments_intercalate (args : List Argument) : parseArguments { quotes := true, ellipsis := true }
        (List.intercalate [',', ' '] (args.map Argument.text)) =
      .ok (args.map Argument.text) := by
  have hprinted := parseArguments_printed (o := { quotes := true, ellipsis := true }) (.inl rfl) args
  rwa [funext Argument.shown_kept_true] at hprinted

example : parseArguments {} "3, [\x7bfd=\"a, ]\"\x7d, \\]]..., [?]".toList =
    .ok ["3".toList, "[\x7bfd=\"a, ]\"\x7d, \\]]...".toList, "[?]".toList] := by decide

theorem Argument.shown_kept_eq_shown_inner_iff (ellipsis : Bool) (a : Argument) :
    a.shown (Group.kept false) ellipsis = a.shown Group.inner ellipsis ↔ a.group = none := by
  rcases hgroup : a.group with _ | ⟨g, dots⟩
  · simp [Argument.shown, hgroup]
  · simp [Argument.shown, Group.kept, hgroup]

/-- If quotes are left out, printed arguments lose the character that opens their group, and keep the one that
closes it. So what is read is the arguments without both ends of their groups exactly if there are no groups. -/
theorem parseArguments_without_quotes (ellipsis : Bool) (args : List Argument) :
    parseArguments { quotes := false, ellipsis } (List.intercalate [',', ' '] (args.map Argument.text)) =
        .ok (args.map (Argument.shown (Group.kept false) ellipsis)) ∧
      (parseArguments { quotes := false, ellipsis } (List.intercalate [',', ' '] (args.map Argument.text)) =
          .ok (args.map (Argument.shown Group.inner ellipsis)) ↔
        ∀ a ∈ args, a.group = none) := by
  have hread := parseArguments_printed (o := { quotes := false, ellipsis }) (.inr rfl) args
  refine ⟨hread, ?_⟩
  rw [hread, Except.ok.injEq, map_inj_left]
  simp only [Argument.shown_kept_eq_shown_inner_iff]

def quotedLetter : Argument where
  lead := []
  group := some (.quoted .double [.free 'a' (by simp [Quote.char])], 0)
  ordinary := by simp
  begins := by simp [argumentText, Group.text, Group.opener, Quote.char, isGap]

/-- The closing quote of a quoted letter is kept, although quotes are left out. -/
theorem parseArguments_quotedLetter :
    parseArguments { quotes := false } quotedLetter.text = .ok [['a', '"']] ∧
      quotedLetter.shown Group.inner true = ['a'] := by
  decide

/-! ## The scanner reads any text -/

namespace ArgumentScan

variable {o : ArgumentOptions} {s : ArgumentScan}

/-- The scanner waits for the closing character on top of its stack, for none if that is empty, and a comma is due
only where it waits for none. -/
structure Sound (s : ArgumentScan) : Prop where
  awaited : s.awaited = s.nest.head?
  comma : s.expectComma = true → s.awaited = none

theorem Sound.push (h : s.Sound) (c : Char) : (s.push c).Sound := ⟨h.awaited, h.comma⟩

theorem Sound.finish (h : s.Sound) : s.finish.Sound := ⟨h.awaited, by simp [ArgumentScan.finish]⟩

theorem Sound.enter (hcomma : s.expectComma = false) (c : Char) : (s.enter c).Sound :=
  ⟨rfl, by simp [ArgumentScan.enter, hcomma]⟩

theorem Sound.exists_leave (h : s.Sound) (hcomma : s.expectComma = false) {w : Char}
    (hw : s.awaited = some w) : ∃ s', s.leave = .ok s' ∧ s'.Sound := by
  have htop : s.nest.head? = some w := h.awaited ▸ hw
  rw [leave]
  split
  case h_1 hnest => simp [hnest] at htop
  case h_2 => exact ⟨_, rfl, rfl, fun _ => rfl⟩
  case h_3 => exact ⟨_, rfl, rfl, by simp [hcomma]⟩

theorem Sound.exists_stepDelimiter (h : s.Sound) (hcomma : s.expectComma = false) (o : ArgumentOptions)
    (c : Char) : ∃ s', s.stepDelimiter o c = .ok s' ∧ s'.Sound := by
  -- whether the delimiter is kept changes the argument only
  obtain ⟨t, ht, hsound, hcomma', hawaited⟩ : ∃ t,
      (if o.quotes || !s.nest.isEmpty then s.push c else s) = t ∧ t.Sound ∧ t.expectComma = false ∧
        t.awaited = s.awaited := by
    split
    · exact ⟨_, rfl, h.push c, hcomma, rfl⟩
    · exact ⟨_, rfl, h, hcomma, rfl⟩
  rw [stepDelimiter, ht]
  split
  · exact ⟨_, rfl, h.push c⟩
  split
  case isTrue hclose => exact hsound.exists_leave hcomma' (hawaited.trans hclose)
  split
  · exact ⟨_, rfl, h.push c⟩
  · exact ⟨_, rfl, .enter hcomma' c⟩

theorem Sound.exists_stepInside (h : s.Sound) (hcomma : s.expectComma = false) (o : ArgumentOptions)
    (c : Char) : ∃ s', s.stepInside o c = .ok s' ∧ s'.Sound := by
  rw [stepInside]
  split
  · exact ⟨_, rfl, h.awaited, h.comma⟩
  split
  · exact ⟨_, rfl, h.awaited, h.comma⟩
  split
  · exact h.exists_stepDelimiter hcomma o c
  split
  · exact ⟨_, rfl, h.finish⟩
  · exact ⟨_, rfl, h.push c⟩

theorem Sound.exists_stepAfterGroup (h : s.Sound) (hcomma : s.expectComma = true) (o : ArgumentOptions)
    (c : Char) : ∃ s', s.stepAfterGroup o c = .ok s' ∧ s'.Sound := by
  rw [stepAfterGroup, h.comma hcomma]
  split
  case isTrue hsome => cases hsome
  split
  · refine ⟨_, rfl, ?_⟩
    split
    · exact h.push c
    · exact h
  split
  · exact ⟨_, rfl, h.finish⟩
  · exact ⟨_, rfl, h⟩

theorem Sound.exists_step (h : s.Sound) (o : ArgumentOptions) (c : Char) : ∃ s', s.step o c = .ok s' ∧ s'.Sound := by
  have hmoved : { s with between := false }.Sound := ⟨h.awaited, h.comma⟩
  rw [step]
  split
  · exact ⟨s, rfl, h⟩
  dsimp only
  split
  case isTrue hcomma => exact hmoved.exists_stepAfterGroup hcomma o c
  case isFalse hcomma => exact hmoved.exists_stepInside (by simpa using hcomma) o c

theorem Sound.exists_foldlM (h : s.Sound) (o : ArgumentOptions) (cs : List Char) :
    ∃ s', cs.foldlM (step o) s = .ok s' ∧ s'.Sound := by
  induction cs generalizing s with
  | nil => exact ⟨s, rfl, h⟩
  | cons c cs ih =>
    obtain ⟨s', hstep, hsound⟩ := h.exists_step o c
    rw [foldlM_cons, hstep, ok_bind]
    exact ih hsound

theorem sound_start : Sound {} := ⟨rfl, fun _ => rfl⟩

end ArgumentScan

/-- Every text is read as a list of arguments: no character is met with a comma due and a group open, and no group
is left where none is open. After any number of characters the scanner waits for what is on top of its stack,
and for nothing if that is empty or a comma is due. -/
theorem parseArguments_isOk (o : ArgumentOptions) (cs : List Char) : (∃ args, parseArguments o cs = .ok args) ∧
      ∀ n, ∃ s, (cs.take n).foldlM (step o) {} = .ok s ∧ s.Sound := by
  refine ⟨?_, fun n => sound_start.exists_foldlM o (cs.take n)⟩
  obtain ⟨s, hs, -⟩ := sound_start.exists_foldlM o cs
  exact ⟨s.result, by rw [parseArguments, hs]; rfl⟩

/-! ## With and without dots -/

namespace ArgumentScan

variable {s s' : ArgumentScan} {quotes : Bool} {done : List (List Char)} {c : Char}

/-- A text in reverse that has more dots at its end than another. -/
def MoreDots (full plain : List Char) : Prop := ∃ n, full = List.replicate n '.' ++ plain

theorem MoreDots.refl (cs : List Char) : MoreDots cs cs := ⟨0, rfl⟩

/-- Of two scanners of one text the first keeps dots after a group. Inside of an argument they differ only in the
arguments before; after a group the first may have more dots. -/
structure InStep (full plain : ArgumentScan) : Prop where
  same : full = { plain with done := full.done, current := full.current }
  done : List.Forall₂ MoreDots full.done plain.done
  inside : plain.expectComma = false → full.current = plain.current
  after : plain.expectComma = true → MoreDots full.current plain.current ∧ plain.current ≠ []

variable {full plain : ArgumentScan}

theorem InStep.of_current_eq (hsame : full = { plain with done := full.done, current := full.current })
    (hdone : List.Forall₂ MoreDots full.done plain.done) (hcurrent : full.current = plain.current)
    (hplain : plain.expectComma = false ∨ plain.current ≠ []) : InStep full plain where
  same := hsame
  done := hdone
  inside _ := hcurrent
  after hcomma := by
    rw [hcurrent]
    exact ⟨.refl _, hplain.resolve_left (by simp [hcomma])⟩

theorem inStep_leave (hdone : List.Forall₂ MoreDots done s.done) (hne : s.current ≠ [])
    (h : s.leave = .ok s') : ∃ f, { s with done }.leave = .ok f ∧ InStep f s' := by
  rw [leave] at h ⊢
  rcases hnest : s.nest with _ | ⟨w, _ | ⟨inner, rest⟩⟩ <;> rw [hnest] at h
  · cases h
  all_goals
    obtain rfl := Except.ok.inj h
    exact ⟨_, rfl, .of_current_eq rfl hdone rfl (.inr hne)⟩

theorem inStep_stepDelimiter (hs : s.Sound) (hdone : List.Forall₂ MoreDots done s.done)
    (hcomma : s.expectComma = false)
    (h : s.stepDelimiter { quotes, ellipsis := false } c = .ok s') :
    ∃ f, { s with done }.stepDelimiter { quotes, ellipsis := true } c = .ok f ∧ InStep f s' := by
  rw [stepDelimiter] at h ⊢
  dsimp only at h ⊢
  split at h
  case isTrue hquote =>
    obtain rfl := Except.ok.inj h
    exact ⟨_, if_pos hquote, .of_current_eq rfl hdone rfl (.inl hcomma)⟩
  case isFalse hquote =>
  rw [if_neg hquote]
  split at h
  case isTrue hclose =>
    -- what is waited for is on the stack, so the closing character is kept
    have hnest : s.nest.isEmpty = false := by
      have htop : s.nest.head? = some c := hs.awaited ▸ hclose
      rw [isEmpty_eq_false_iff]
      rintro hnil
      simp [hnil] at htop
    rw [if_pos hclose, hnest]
    rw [hnest] at h
    simp only [Bool.not_false, Bool.or_true, if_true] at h ⊢
    exact inStep_leave (s := s.push c) hdone (by simp [push]) h
  case isFalse hclose =>
  rw [if_neg hclose]
  split at h
  case isTrue hstray =>
    obtain rfl := Except.ok.inj h
    exact ⟨_, if_pos hstray, .of_current_eq rfl hdone rfl (.inl hcomma)⟩
  case isFalse hstray =>
  rw [if_neg hstray]
  obtain rfl := Except.ok.inj h
  refine ⟨_, rfl, ?_⟩
  split <;> exact .of_current_eq rfl hdone rfl (.inl hcomma)

theorem inStep_stepInside (hs : s.Sound) (hdone : List.Forall₂ MoreDots done s.done)
    (hcomma : s.expectComma = false) (h : s.stepInside { quotes, ellipsis := false } c = .ok s') :
    ∃ f, { s with done }.stepInside { quotes, ellipsis := true } c = .ok f ∧ InStep f s' := by
  rw [stepInside] at h ⊢
  dsimp only at h ⊢
  split at h
  case isTrue hescaped =>
    obtain rfl := Except.ok.inj h
    exact ⟨_, if_pos hescaped, .of_current_eq rfl hdone rfl (.inl hcomma)⟩
  case isFalse hescaped =>
  rw [if_neg hescaped]
  split at h
  case isTrue hslash =>
    obtain rfl := Except.ok.inj h
    exact ⟨_, if_pos hslash, .of_current_eq rfl hdone rfl (.inl hcomma)⟩
  case isFalse hslash =>
  rw [if_neg hslash]
  split at h
  case isTrue hdelimiter =>
    rw [if_pos hdelimiter]
    exact inStep_stepDelimiter hs hdone hcomma h
  case isFalse hdelimiter =>
  rw [if_neg hdelimiter]
  split at h
  case isTrue hend =>
    obtain rfl := Except.ok.inj h
    exact ⟨_, if_pos hend, .of_current_eq rfl (.cons (.refl _) hdone) rfl (.inl rfl)⟩
  case isFalse hend =>
    obtain rfl := Except.ok.inj h
    exact ⟨_, if_neg hend, .of_current_eq rfl hdone rfl (.inl hcomma)⟩

theorem inStep_stepAfterGroup {current : List Char} (hdone : List.Forall₂ MoreDots done s.done)
    (hcomma : s.expectComma = true) (hcurrent : MoreDots current s.current) (hne : s.current ≠ [])
    (h : s.stepAfterGroup { quotes, ellipsis := false } c = .ok s') :
    ∃ f, { s with done, current }.stepAfterGroup { quotes, ellipsis := true } c = .ok f ∧ InStep f s' := by
  have hkeep : ∀ current', MoreDots current' s.current → InStep { s with done, current := current' } s :=
    fun _ hcurrent' => ⟨rfl, hdone, by simp [hcomma], fun _ => ⟨hcurrent', hne⟩⟩
  rw [stepAfterGroup] at h ⊢
  dsimp only at h ⊢
  split at h
  case isTrue => cases h
  case isFalse hawaited =>
  rw [if_neg hawaited]
  split at h
  case isTrue hdot =>
    obtain rfl := Except.ok.inj h
    obtain ⟨n, rfl⟩ := hcurrent
    refine ⟨_, if_pos hdot, hkeep _ ⟨n + 1, ?_⟩⟩
    rw [hdot, replicate_succ, cons_append]
  case isFalse hdot =>
  rw [if_neg hdot]
  split at h
  case isTrue hend =>
    obtain rfl := Except.ok.inj h
    exact ⟨_, if_pos hend, .of_current_eq rfl (.cons hcurrent hdone) rfl (.inl rfl)⟩
  case isFalse hend =>
    obtain rfl := Except.ok.inj h
    exact ⟨_, if_neg hend, hkeep _ hcurrent⟩

theorem InStep.exists_step (h : InStep full plain) (hs : plain.Sound) (quotes : Bool) (c : Char) :
    ∃ full' plain', full.step { quotes, ellipsis := true } c = .ok full' ∧
      plain.step { quotes, ellipsis := false } c = .ok plain' ∧ plain'.Sound ∧ InStep full' plain' := by
  obtain ⟨plain', hstep, hsound⟩ := hs.exists_step { quotes, ellipsis := false } c
  suffices hfull : ∃ full', full.step { quotes, ellipsis := true } c = .ok full' ∧ InStep full' plain' by
    obtain ⟨full', hfull, hinStep⟩ := hfull
    exact ⟨full', plain', hfull, hstep, hsound, hinStep⟩
  have hmoved : { plain with between := false }.Sound := ⟨hs.awaited, hs.comma⟩
  rw [h.same]
  rw [step] at hstep ⊢
  dsimp only at hstep ⊢
  split at hstep
  case isTrue hgap =>
    obtain rfl := Except.ok.inj hstep
    exact ⟨_, if_pos hgap, h.same ▸ h⟩
  case isFalse hgap =>
  rw [if_neg hgap]
  split at hstep
  case isTrue hcomma =>
    obtain ⟨hcurrent, hne⟩ := h.after hcomma
    rw [if_pos hcomma]
    exact inStep_stepAfterGroup (s := { plain with between := false }) h.done hcomma hcurrent hne hstep
  case isFalse hcomma =>
    rw [if_neg hcomma, h.inside (by simpa using hcomma)]
    exact inStep_stepInside hmoved h.done (by simpa using hcomma) hstep

theorem InStep.exists_foldlM (h : InStep full plain) (hs : plain.Sound) (quotes : Bool) (cs : List Char) :
    ∃ full' plain', cs.foldlM (step { quotes, ellipsis := true }) full = .ok full' ∧
      cs.foldlM (step { quotes, ellipsis := false }) plain = .ok plain' ∧ InStep full' plain' := by
  induction cs generalizing full plain with
  | nil => exact ⟨full, plain, rfl, rfl, h⟩
  | cons c cs ih =>
    obtain ⟨full', plain', hfull, hplain, hs', h'⟩ := h.exists_step hs quotes c
    rw [foldlM_cons, foldlM_cons, hfull, hplain, ok_bind, ok_bind]
    exact ih h' hs'

theorem InStep.forall₂_result (h : InStep full plain) :
    List.Forall₂ (fun f p => ∃ n, f = p ++ List.replicate n '.') full.result plain.result := by
  have hfound : List.Forall₂ MoreDots (if full.current.isEmpty then full.done else full.current :: full.done)
      (if plain.current.isEmpty then plain.done else plain.current :: plain.done) := by
    rcases hcomma : plain.expectComma with _ | _
    · rw [h.inside hcomma]
      split
      · exact h.done
      · exact .cons (.refl _) h.done
    · obtain ⟨hcurrent, hne⟩ := h.after hcomma
      have hne' : full.current ≠ [] := by
        obtain ⟨n, heq⟩ := hcurrent
        simp [heq, hne]
      rw [if_neg (by simpa using hne'), if_neg (by simpa using hne)]
      exact .cons hcurrent h.done
  rw [result, result, forall₂_map_left_iff, forall₂_map_right_iff, forall₂_reverse_iff]
  refine hfound.imp fun f p hmore => ?_
  obtain ⟨n, rfl⟩ := hmore
  exact ⟨n, by simp⟩

end ArgumentScan

/-- Leaving out the dots after groups changes nothing else: every text is read as the same number of
arguments with them and without, and each argument with them is the one without, followed by dots. -/
theorem parseArguments_with_dots (quotes : Bool) (cs : List Char) :
    ∃ full plain, parseArguments { quotes, ellipsis := true } cs = .ok full ∧
      parseArguments { quotes, ellipsis := false } cs = .ok plain ∧ full.length = plain.length ∧
      List.Forall₂ (fun f p => ∃ n, f = p ++ List.replicate n '.') full plain := by
  have hstart : InStep {} {} := .of_current_eq rfl .nil rfl (.inl rfl)
  obtain ⟨full, plain, hfull, hplain, hinStep⟩ := hstart.exists_foldlM sound_start quotes cs
  have hdots := hinStep.forall₂_result
  exact ⟨full.result, plain.result, by rw [parseArguments, hfull]; rfl,
    by rw [parseArguments, hplain]; rfl, hdots.length_eq, hdots⟩

example : parseArguments { ellipsis := false } "[1, 2]... , [?]..".toList =
    .ok ["[1, 2]".toList, "[?]..".toList] := by decide

end Vetting.Trace
