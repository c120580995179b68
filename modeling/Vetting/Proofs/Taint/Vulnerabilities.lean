import Vetting.Taint.Flow
import Vetting.Proofs.Table
import Vetting.Proofs.Text
import Vetting.Proofs.Fault
import Vetting.Proofs.Document
import Vetting.Proofs.Host

/-!
# Flows from vulnerabilities

Of the functions whose full names have the reported name as a part, the last one is taken. Whether that is the
function the word was written for depends on the functions after it.
-/

namespace Vetting

open List Text Doc

theorem Text.replace_of_notMem {s old new : String} {c : Char} (hold : old.toList = [c]) (hc : c ∉ s.toList) :
    replace s old new = s := by
  rw [replace, hold, replaceChars, splitChars, splitGo_of_notMem hc]
  simp

theorem Text.replace_append_self {s old : String} {c : Char} (hold : old.toList = [c]) (hc : c ∉ s.toList) :
    replace (s ++ old) old "" = s := by
  rw [replace, String.toList_append, hold, replaceChars, splitChars, splitGo_append not_mem_nil, splitGo_of_notMem hc]
  simp [List.intercalate]

namespace Taint.Vulnerabilities

open Calls.Python (ModuleTree kindOf textOf)

/-- Functions have numbers of their own, and full names by which words can be made. -/
structure IsPlain (c : Api.Config) : Prop where
  fullNames : c.funcOnly = false
  ids : (c.apis.map Api.Node.id).Nodup
  plain : ∀ a ∈ c.apis, '(' ∉ a.fullName.toList ∧ '[' ∉ a.fullName.toList

variable {c : Api.Config} {apis : List Api.Node} {a : Api.Node} {p : Api.Role → Bool}

theorem IsPlain.nameOf_wordOf (hc : IsPlain c) (ha : a ∈ c.apis) : nameOf (wordOf c a) = a.fullName := by
  obtain ⟨hopen, hbracket⟩ := hc.plain a ha
  rw [nameOf, wordOf, hc.fullNames, if_neg Bool.false_ne_true, replace_append_self rfl hopen,
    replace_of_notMem rfl hbracket]

theorem foldl_fst_eq {α β : Type} (d : α) (xs : List (α × β)) :
    xs.foldl (fun _ p => p.1) d = (xs.getLast?.map Prod.fst).getD d := by
  induction xs using List.reverseRecOn with
  | nil => rfl
  | append_singleton xs x _ => simp

/-- The functions of a kind whose full names have a name as a part. -/
def hits (p : Api.Role → Bool) (name : String) (apis : List Api.Node) : List Api.Node :=
  apis.filter fun b => contains b.fullName name && p b.role

theorem hits_eq_nil_iff {name : String} :
    hits p name apis = [] ↔ ∀ b ∈ apis, p b.role = true → ¬ name.toList <:+: b.fullName.toList := by
  simp only [hits, filter_eq_nil_iff, Bool.and_eq_true, contains_eq_true_iff, not_and']

theorem idOf_idsOf (hids : (apis.map Api.Node.id).Nodup) (name : String) :
    idOf (idsOf apis p) name = ((hits p name apis).getLast?.map Api.Node.id).getD (-1) := by
  have hkeys : (((apis.filter fun a => p a.role).map fun a => (a.id, a.fullName)).map Prod.fst).Nodup := by
    rw [map_map]
    exact (filter_sublist.map _).nodup hids
  rw [idOf, idsOf, Table.ofPairs_eq_self hkeys, foldl_fst_eq, filter_map, filter_filter, getLast?_map,
    Option.map_map, hits]
  rfl

theorem find?_id (hids : (apis.map Api.Node.id).Nodup) (ha : a ∈ apis) :
    apis.find? (fun b => b.id = a.id) = some a := by
  induction apis with
  | nil => cases ha
  | cons b apis ih =>
    rw [map_cons, nodup_cons] at hids
    rcases mem_cons.1 ha with rfl | ha
    · simp
    · have hne : b.id ≠ a.id := fun h => hids.1 (h ▸ mem_map_of_mem ha)
      rw [find?_cons_of_neg (by simpa using hne), ih hids.2 ha]

variable {before after : List Api.Node} {k : Known} {vs : List Vulnerability} {path : String}

theorem IsPlain.find?_wordOf (hc : IsPlain c) (hapis : c.apis = before ++ a :: after) (ha : p a.role = true) :
    c.apis.find? (fun b => b.id = idOf (idsOf c.apis p) (nameOf (wordOf c a))) =
      some ((hits p a.fullName after).getLastD a) := by
  have hmem : a ∈ c.apis := by simp [hapis]
  have hself : contains a.fullName a.fullName = true := contains_eq_true_iff.2 infix_rfl
  have hhits : (hits p a.fullName c.apis).getLast? = some ((hits p a.fullName after).getLastD a) := by
    rw [hits, hapis, filter_append, filter_cons_of_pos (by simp [ha, hself]), getLast?_append_of_ne_nil _ (by simp),
      getLast?_cons, hits, getLastD_eq_getLast?]
  have hlast : (hits p a.fullName after).getLastD a ∈ c.apis := filter_subset_self _ (mem_of_getLast? hhits)
  rw [hc.nameOf_wordOf hmem, idOf_idsOf hc.ids, hhits]
  exact find?_id hc.ids hlast

variable {ss : Sources} {e : End} {v : Vulnerability} (detail : Api.Node → Api.Detail)

theorem endNode_eq {ids : Table Int String} {word path : String} {row : Int} {source : List Char}
    {tree : ModuleTree} (hword : e.word = .str word) (hpath : e.path = .str path)
    (hrow : Message.wholeValue e.line = .ok row) (hsource : sourceOf ss e.path = .ok (source, tree))
    (hfind : apis.find? (fun b => b.id = idOf ids (nameOf word)) = some a) :
    endNode apis ids detail ss e = (argumentsAt source tree e.line word).map fun arguments =>
      calledNode a word (detail a) arguments (spanAt path row) := by
  rw [endNode, hword, text, ok_bind, hfind, hsource]
  cases harguments : argumentsAt source tree e.line word with
  | error f => simp [harguments, Except.map]
  | ok arguments => simp [harguments, Except.map, hpath, asText, hrow, pure, Except.pure]

/-- A word stands on a line of a file that was read, whose calls on the line can be looked into. -/
structure IsLocated (ss : Sources) (word : String) (e : End) : Prop where
  word_eq : e.word = .str word
  path : ∃ path, e.path = .str path
  row : ∃ row, Message.wholeValue e.line = .ok row
  arguments : ∃ source tree arguments, sourceOf ss e.path = .ok (source, tree) ∧
    argumentsAt source tree e.line word = .ok arguments

/-- What is told is the number, the full name, the type and the class of a function. -/
def Describes (detail : Api.Node → Api.Detail) (n a : Api.Node) : Prop :=
  n.id = a.id ∧ n.fullName = a.fullName ∧ n.baseType = a.baseType ∧ n.detail = some (detail a)

theorem exists_endNode (hc : IsPlain c) (hapis : c.apis = before ++ a :: after) (ha : p a.role = true)
    (he : IsLocated ss (wordOf c a) e) :
    ∃ n, endNode c.apis (idsOf c.apis p) detail ss e = .ok n ∧
      Describes detail n ((hits p a.fullName after).getLastD a) ∧
      (Describes detail n a ↔ hits p a.fullName after = []) := by
  obtain ⟨path, hpath⟩ := he.path
  obtain ⟨row, hrow⟩ := he.row
  obtain ⟨source, tree, arguments, hsource, harguments⟩ := he.arguments
  have hnode := endNode_eq detail he.word_eq hpath hrow hsource (hc.find?_wordOf hapis ha)
  rw [harguments] at hnode
  refine ⟨_, hnode, ⟨rfl, rfl, rfl, rfl⟩, fun hdescribes => ?_, fun hnone => ?_⟩
  · -- another function would have the number of its own
    by_contra hsome
    obtain ⟨b, hb⟩ := Option.isSome_iff_exists.1 (getLast?_isSome.2 hsome)
    have hid : b.id = a.id := by simpa [calledNode, getLastD_eq_getLast?, hb] using hdescribes.1
    have hids := hc.ids
    rw [hapis, map_append, map_cons, nodup_append, nodup_cons] at hids
    exact hids.2.1.1 (hid ▸ mem_map_of_mem (filter_subset_self _ (mem_of_getLast? hb)))
  · rw [hnone]
    exact ⟨rfl, rfl, rfl, rfl⟩

/-- The word of a source is traced back to the last of the sources whose full names have its name as a part,
and the word of a sink to the last of the sinks: to the function itself just if there is none such after it. -/
theorem sourceNode_sinkNode_describes_iff (hc : IsPlain c) {before after : List Api.Node}
    (hapis : c.apis = before ++ a :: after) :
    (a.role = .source → IsLocated ss (wordOf c a) v.source → ∃ n, sourceNode (.ofConfig c) ss v = .ok n ∧
        Describes sourceDetail n ((hits (· = .source) a.fullName after).getLastD a) ∧
        (Describes sourceDetail n a ↔ ∀ b ∈ after, b.role = .source → ¬ a.fullName.toList <:+: b.fullName.toList)) ∧
    (a.role = .sink ∨ a.role = .danger → IsLocated ss (wordOf c a) v.sink → ∃ n, sinkNode (.ofConfig c) ss v = .ok n ∧
        Describes sinkDetail n ((hits (fun r => r = .sink || r = .danger) a.fullName after).getLastD a) ∧
        (Describes sinkDetail n a ↔
          ∀ b ∈ after, b.role = .sink ∨ b.role = .danger → ¬ a.fullName.toList <:+: b.fullName.toList)) := by
  constructor
  · intro ha he
    obtain ⟨n, hnode, hlast, hself⟩ := exists_endNode sourceDetail (p := (· = .source))
      hc hapis (by simpa using ha) he
    refine ⟨n, hnode, hlast, hself.trans ?_⟩
    simp only [hits_eq_nil_iff, decide_eq_true_eq]
  · intro ha he
    obtain ⟨n, hnode, hlast, hself⟩ := exists_endNode sinkDetail (p := fun r => r = .sink || r = .danger)
      hc hapis (by simpa using ha) he
    refine ⟨n, hnode, hlast, hself.trans ?_⟩
    simp only [hits_eq_nil_iff, Bool.or_eq_true, decide_eq_true_eq]

/-- The full name of a sink after a source does not matter for the word of the source. -/
theorem sourceNode_describes_source :
    let a : Api.Node := { fullName := "f", id := 1, role := .source }
    let c : Api.Config := { apis := [a, { fullName := "xf", id := 2, role := .sink }] }
    let e : End := { word := .str "f(", line := .int 1, path := .str "p" }
    IsPlain c ∧ IsLocated [(.str "p", [], .empty)] "f(" e ∧
    ∃ n, sourceNode (.ofConfig c) [(.str "p", [], .empty)] ⟨e, e, .null⟩ = .ok n ∧ Describes sourceDetail n a := by
  intro a c e
  have hc : IsPlain c := ⟨rfl, by decide, by decide⟩
  have he : IsLocated [(.str "p", [], .empty)] (wordOf c a) e := ⟨rfl, ⟨_, rfl⟩, ⟨_, rfl⟩, ⟨_, _, _, rfl, rfl⟩⟩
  have hapis : c.apis = [] ++ a :: [{ fullName := "xf", id := 2, role := .sink }] := rfl
  obtain ⟨n, hn, -, hself⟩ := (sourceNode_sinkNode_describes_iff (v := ⟨e, e, .null⟩) hc hapis).1 rfl he
  exact ⟨hc, he, n, hn, hself.2 (by simp)⟩

/-- The word of a source is taken for another source whose full name only ends in the same way. -/
theorem sourceNode_describes_other :
    let c : Api.Config := { apis := [{ fullName := "f", id := 1, role := .source },
      { fullName := "xf", id := 2, role := .source }] }
    let e : End := { word := .str "f(", line := .int 1, path := .str "p" }
    (sourceNode (.ofConfig c) [(.str "p", [], .empty)] ⟨e, e, .null⟩).toOption.map
      (fun n => (n.name, n.id, n.fullName)) = some ("f", 2, "xf") := by decide +kernel

def CallsMembers (tree : ModuleTree) (line : Doc) : Prop :=
  ∀ t ∈ tree.nodes, kindOf t = "Call" → isOn line t = true → (memberOf? t).isSome = true

variable {source : List Char} {tree : ModuleTree} {line : Doc} {word : String}

theorem argumentsAt_of_callsMembers (hword : ∀ t ∈ tree.nodes, memberOf? t ≠ some word)
    (hcalls : CallsMembers tree line) : argumentsAt source tree line word = .ok [] := by
  have hnone : ∀ t ∈ tree.nodes.filter (fun t => kindOf t = "Call" && isOn line t),
      argumentsOf source word t = .ok [] := by
    intro t ht
    simp only [mem_filter, Bool.and_eq_true, decide_eq_true_eq] at ht
    obtain ⟨m, hm⟩ := Option.isSome_iff_exists.1 (hcalls t ht.1 ht.2.1 ht.2.2)
    have hne : m ≠ word := fun h => hword t ht.1 (h ▸ hm)
    rw [argumentsOf, hm]
    simp [hne]
  simp [argumentsAt, mapM_eq_ok hnone, pure, Except.pure]

theorem argumentsAt_of_not_callsMembers (hcalls : ¬ CallsMembers tree line) :
    argumentsAt source tree line word = .error (.cause .noMember) := by
  simp only [CallsMembers, not_forall, Bool.not_eq_true, Option.isSome_eq_false_iff,
    Option.isNone_iff_eq_none] at hcalls
  obtain ⟨t, ht, hkind, hline, hmember⟩ := hcalls
  rw [argumentsAt, mapM_eq_error (e := .cause .noMember), error_bind]
  · intro t _
    rw [argumentsOf]
    cases memberOf? t with
    | none => exact .inr rfl
    | some m => exact .inl ⟨_, rfl⟩
  · exact ⟨t, mem_filter.2 ⟨ht, by simp [hkind, hline]⟩, by rw [argumentsOf, hmember]⟩

/-! ## Reports -/

/-- An end of a vulnerability has the word of a function, and a line of a file. -/
structure IsMarked (c : Api.Config) (p : Api.Role → Bool) (e : End) : Prop where
  word : ∃ a ∈ c.apis, p a.role = true ∧ e.word = .str (wordOf c a)
  path : ∃ path, e.path = .str path
  row : ∃ row, Message.wholeValue e.line = .ok row

/-- A vulnerability leads from the word of a source over places to the word of a sink. -/
structure IsReported (c : Api.Config) (v : Vulnerability) : Prop where
  source : IsMarked c (· = .source) v.source
  sink : IsMarked c (fun r => r = .sink || r = .danger) v.sink
  hops : ∃ ds hops, v.assignments.items = .ok ds ∧ ds.mapM hopNode = .ok hops

/-- The file of an end was read, and the members of its calls have names without brackets. -/
def IsRead (ss : Sources) (tree : ModuleTree) (e : End) : Prop :=
  (∃ source, sourceOf ss e.path = .ok (source, tree)) ∧ ∀ t ∈ tree.nodes, ∀ m, memberOf? t = some m → '(' ∉ m.toList

/-- What is told of an end is its word, a function, its place, and no arguments. -/
def Tells (c : Api.Config) (detail : Api.Node → Api.Detail) (e : End) (n : Option Api.Node) : Prop :=
  ∃ a ∈ c.apis, ∃ word path row, e.word = .str word ∧ e.path = .str path ∧ Message.wholeValue e.line = .ok row ∧
    n = some (calledNode a word (detail a) [] (spanAt path row))

theorem endNode_of_isMarked (hc : IsPlain c) (he : IsMarked c p e) (hread : IsRead ss tree e) :
    (CallsMembers tree e.line →
      ∃ n, endNode c.apis (idsOf c.apis p) detail ss e = .ok n ∧ Tells c detail e (some n)) ∧
    (¬ CallsMembers tree e.line → endNode c.apis (idsOf c.apis p) detail ss e = .error (.cause .noMember)) := by
  obtain ⟨a, hmem, ha, hword⟩ := he.word
  obtain ⟨path, hpath⟩ := he.path
  obtain ⟨row, hrow⟩ := he.row
  obtain ⟨⟨source, hsource⟩, hnames⟩ := hread
  obtain ⟨before, after, hapis⟩ := append_of_mem hmem
  have hfind := hc.find?_wordOf hapis ha
  have hnode := endNode_eq detail hword hpath hrow hsource hfind
  constructor
  · intro hcalls
    have hnone : ∀ t ∈ tree.nodes, memberOf? t ≠ some (wordOf c a) := by
      intro t ht hmember
      exact hnames t ht _ hmember (by simp [wordOf])
    rw [argumentsAt_of_callsMembers hnone hcalls] at hnode
    exact ⟨_, hnode, _, mem_of_find?_eq_some hfind, _, path, row, hword, hpath, hrow, rfl⟩
  · intro hcalls
    rw [hnode, argumentsAt_of_not_callsMembers hcalls]
    rfl

/-- The calls on the lines of a vulnerability are calls of members. -/
def CallsMembersAt (ss : Sources) (v : Vulnerability) : Prop :=
  ∀ e ∈ [v.source, v.sink], ∀ source tree, sourceOf ss e.path = .ok (source, tree) → CallsMembers tree e.line

theorem addGates_flows {n m : Api.Node} {path path' : String} (hpath : v.source.path = .str path)
    (hpath' : v.sink.path = .str path') (hread : sourceOf ss v.source.path = .ok (source, tree))
    (hsource : sourceNode k ss v = .ok n) (hsink : sinkNode k ss v = .ok m) (r : FlowReport) :
    ∃ r', addGates k ss r v = .ok r' ∧ r'.flows = r.flows := by
  rw [addGates, hread, hsource, hsink, hpath, hpath']
  simp only [asText, ok_bind, pure_bind]
  split
  · exact ⟨r, rfl, rfl⟩
  rcases functionAt source tree v.source.line with ⟨name, parameters⟩
  cases name with
  | none => exact ⟨r, rfl, rfl⟩
  | some name =>
    simp only
    split
    · exact ⟨r, rfl, rfl⟩
    rcases functionAt source tree v.sink.line with ⟨name', parameters'⟩
    cases name' with
    | none => exact ⟨_, rfl, rfl⟩
    | some name' =>
      simp only
      split
      · exact ⟨_, rfl, rfl⟩
      · exact ⟨_, rfl, rfl⟩

section Report

variable (hc : IsPlain c) (hv : IsReported c v) {tree' : ModuleTree} (hsource : IsRead ss tree v.source)
  (hsink : IsRead ss tree' v.sink)

include hc hv hsource hsink

theorem flowOf_of_callsMembers (hcalls : CallsMembers tree v.source.line) (hcalls' : CallsMembers tree' v.sink.line) :
    ∃ n m hops, sourceNode (.ofConfig c) ss v = .ok n ∧ sinkNode (.ofConfig c) ss v = .ok m ∧
      Tells c sourceDetail v.source (some n) ∧ Tells c sinkDetail v.sink (some m) ∧
      flowOf (.ofConfig c) ss v = .ok { source := some n, hops, sink := some m } := by
  obtain ⟨n, hn, htells⟩ := (endNode_of_isMarked sourceDetail hc hv.source hsource).1 hcalls
  obtain ⟨m, hm, htells'⟩ := (endNode_of_isMarked sinkDetail hc hv.sink hsink).1 hcalls'
  obtain ⟨ds, hops, hitems, hhops⟩ := hv.hops
  refine ⟨n, m, hops, hn, hm, htells, htells', ?_⟩
  rw [flowOf, sourceNode, sinkNode, Known.ofConfig, hn, ok_bind, hm, ok_bind, hitems, ok_bind, hhops]
  rfl

theorem flowOf_of_not_callsMembers (hcalls : ¬ (CallsMembers tree v.source.line ∧ CallsMembers tree' v.sink.line)) :
    flowOf (.ofConfig c) ss v = .error (.cause .noMember) := by
  rw [flowOf, sourceNode, sinkNode, Known.ofConfig]
  by_cases hfirst : CallsMembers tree v.source.line
  · obtain ⟨n, hn, -⟩ := (endNode_of_isMarked sourceDetail hc hv.source hsource).1 hfirst
    have hm := (endNode_of_isMarked sinkDetail hc hv.sink hsink).2 fun h => hcalls ⟨hfirst, h⟩
    rw [hn, ok_bind, hm, error_bind]
  · rw [(endNode_of_isMarked sourceDetail hc hv.source hsource).2 hfirst, error_bind]

end Report

theorem foldlM_addGates (hall : ∀ v ∈ vs, ∀ r, ∃ r', addGates k ss r v = .ok r' ∧ r'.flows = r.flows)
    (r : FlowReport) : ∃ r', vs.foldlM (addGates k ss) r = .ok r' ∧ r'.flows = r.flows := by
  induction vs generalizing r with
  | nil => exact ⟨r, rfl, rfl⟩
  | cons v vs ih =>
    rw [forall_mem_cons] at hall
    obtain ⟨r₁, hr₁, hflows₁⟩ := hall.1 r
    obtain ⟨r₂, hr₂, hflows₂⟩ := ih hall.2 r₁
    exact ⟨r₂, by rw [foldlM_cons, hr₁, ok_bind, hr₂], hflows₂.trans hflows₁⟩

/-- One flow for each vulnerability, in order, unless a call on a line is no call of a member. -/
theorem reportOf_eq (hc : IsPlain c) (hvs : ∀ v ∈ vs, IsReported c v)
    (hread : ∀ v ∈ vs, ∀ e ∈ [v.source, v.sink], ∃ tree, IsRead ss tree e) :
    ((∀ v ∈ vs, CallsMembersAt ss v) → ∃ r, reportOf (.ofConfig c) ss vs = .ok r ∧
      Forall₂ (fun v f => Tells c sourceDetail v.source f.source ∧ Tells c sinkDetail v.sink f.sink) vs r.flows) ∧
    ((∃ v ∈ vs, ¬ CallsMembersAt ss v) → reportOf (.ofConfig c) ss vs = .error (.cause .noMember)) := by
  have hflow : ∀ v ∈ vs, (CallsMembersAt ss v → ∃ n m hops, sourceNode (.ofConfig c) ss v = .ok n ∧
      sinkNode (.ofConfig c) ss v = .ok m ∧ Tells c sourceDetail v.source (some n) ∧
      Tells c sinkDetail v.sink (some m) ∧
      flowOf (.ofConfig c) ss v = .ok { source := some n, hops, sink := some m }) ∧
      (¬ CallsMembersAt ss v → flowOf (.ofConfig c) ss v = .error (.cause .noMember)) := by
    intro v hv
    obtain ⟨tree, hsource⟩ := hread v hv v.source (by simp)
    obtain ⟨tree', hsink⟩ := hread v hv v.sink (by simp)
    have hcalls : CallsMembersAt ss v ↔ CallsMembers tree v.source.line ∧ CallsMembers tree' v.sink.line := by
      obtain ⟨⟨source, hs⟩, -⟩ := hsource
      obtain ⟨⟨source', hs'⟩, -⟩ := hsink
      simp [CallsMembersAt, hs, hs']
    rw [hcalls]
    exact ⟨fun h => flowOf_of_callsMembers hc (hvs v hv) hsource hsink h.1 h.2,
      flowOf_of_not_callsMembers hc (hvs v hv) hsource hsink⟩
  constructor
  · intro hcalls
    choose! n m hops hn hm htells htells' hok using fun v hv => (hflow v hv).1 (hcalls v hv)
    have hgates : ∀ v ∈ vs, ∀ r, ∃ r', addGates (.ofConfig c) ss r v = .ok r' ∧ r'.flows = r.flows := by
      intro v hv
      obtain ⟨path, hpath⟩ := (hvs v hv).source.path
      obtain ⟨path', hpath'⟩ := (hvs v hv).sink.path
      obtain ⟨tree, ⟨source, hs⟩, -⟩ := hread v hv v.source (by simp)
      exact addGates_flows hpath hpath' hs (hn v hv) (hm v hv)
    obtain ⟨r, hr, hflows⟩ := foldlM_addGates hgates
      { flows := vs.map fun v => { source := some (n v), hops := hops v, sink := some (m v) } }
    refine ⟨r, by rw [reportOf, mapM_eq_ok hok, ok_bind, hr], ?_⟩
    rw [hflows, forall₂_map_right_iff, forall₂_same]
    exact fun v hv => ⟨htells v hv, htells' v hv⟩
  · rintro ⟨v, hv, hcalls⟩
    rw [reportOf, mapM_eq_error (e := .cause .noMember), error_bind]
    · intro v hv
      by_cases h : CallsMembersAt ss v
      · obtain ⟨n, m, hops, -, -, -, -, hok⟩ := (hflow v hv).1 h
        exact .inl ⟨_, hok⟩
      · exact .inr ((hflow v hv).2 h)
    · exact ⟨v, hv, (hflow v hv).2 hcalls⟩

theorem files_of_vulnerabilityOf {d : Doc} {files : List Doc} (h : vulnerabilityOf d = .ok (v, files)) :
    files = [v.source.path, v.sink.path] := by
  have hkey : ∀ {d d' : Doc}, d.asKey = .ok d' → d' = d := by
    intro d d' hd
    rw [asKey] at hd
    split at hd
    · exact (Except.ok.inj hd).symm
    · cases hd
  simp only [vulnerabilityOf, endOf, bind_eq_ok_iff, pure, Except.pure, Except.ok.injEq] at h
  obtain ⟨source, -, _, -, sink, -, _, -, _, -, _, -, path, hpath, _, hpathKey, path', hpath', _, hpathKey', _,
    ⟨_, -, _, -, _, hsource, rfl⟩, _, ⟨_, -, _, -, _, hsink, rfl⟩, heq⟩ := h
  obtain ⟨rfl, rfl⟩ := Prod.mk.inj heq
  rw [hkey hpathKey, hkey hpathKey', Except.ok.inj (hsource.symm.trans hpath),
    Except.ok.inj (hsink.symm.trans hpath')]

theorem eq_of_same_str {d : Doc} (h : same (.str path) d = true) : d = .str path := by
  cases d with
  | str s => exact congrArg Doc.str (eq_of_beq h).symm
  | _ => cases h

theorem mem_filesOf {found : List (Vulnerability × List Doc)} (h : .str path ∈ found.flatMap Prod.snd) :
    .str path ∈ filesOf found := by
  have hfold : ∀ fs acc : List Doc, .str path ∈ acc ∨ .str path ∈ fs →
      .str path ∈ fs.foldl (fun fs f => if fs.any (same f) then fs else fs ++ [f]) acc := by
    intro fs
    induction fs with
    | nil => simp
    | cons f fs ih =>
      intro acc hmem
      refine ih _ ?_
      rw [mem_cons, ← or_assoc] at hmem
      refine hmem.imp_left fun hmem => ?_
      dsimp only
      split
      · rename_i hany
        rcases hmem with hmem | rfl
        · exact hmem
        · obtain ⟨g, hg, hsame⟩ := any_eq_true.1 hany
          exact eq_of_same_str hsame ▸ hg
      · exact mem_append.2 (hmem.imp_right mem_singleton.2)
  exact hfold _ _ (.inr h)

theorem keys_of_readSources {ds : List Doc} {h h' : Host} (hread : (readSources ds).runOn h = (.ok ss, h')) :
    ss.map Prod.fst = ds := by
  induction ds generalizing ss h with
  | nil =>
    cases hread
    rfl
  | cons d ds ih =>
    obtain ⟨path, h₁, -, hread⟩ := Job.exists_of_runOn_bind hread
    obtain ⟨text, h₂, -, hread⟩ := Job.exists_of_runOn_bind hread
    obtain ⟨tree, h₃, -, hread⟩ := Job.exists_of_runOn_bind hread
    obtain ⟨rest, h₄, hrest, hread⟩ := Job.exists_of_runOn_bind hread
    cases hread
    rw [map_cons, ih hrest]

theorem exists_sourceOf (h : .str path ∈ ss.map Prod.fst) : ∃ p ∈ ss, sourceOf ss (.str path) = .ok p.2 := by
  obtain ⟨q, hq, hpath⟩ := mem_map.1 h
  have hsome : (ss.find? fun p => same p.1 (.str path)).isSome = true :=
    find?_isSome.2 ⟨q, hq, by simp [hpath, same]⟩
  obtain ⟨p, hp⟩ := Option.isSome_iff_exists.1 hsome
  exact ⟨p, mem_of_find?_eq_some hp, by rw [sourceOf, hp]⟩

/-- A report whose vulnerabilities have the words of functions of the settings is written with one flow for each,
in order, whose ends have no arguments, unless a call on one of their lines is no call of a member. -/
theorem reformat_runOn (hc : IsPlain c) {config : Option String} {resultFile outfile : String} {h : Host}
    {result : Doc} {found : List (Vulnerability × List Doc)}
    (hresult : (readResult resultFile).runOn h = (.ok (some result), h))
    (hconfig : (Analysis.readConfig config).runOn h = (.ok c, h))
    (hfound : vulnerabilitiesOf result = .ok found) (hvs : ∀ p ∈ found, IsReported c p.1)
    (hsources : (readSources (filesOf found)).runOn h = (.ok ss, h))
    (hnames : ∀ p ∈ ss, ∀ t ∈ p.2.2.nodes, ∀ m, memberOf? t = some m → '(' ∉ m.toList)
    (hout : h.CanWrite outfile) :
    ((∀ p ∈ found, CallsMembersAt ss p.1) → ∃ r : FlowReport, (reformat config (some resultFile) outfile).runOn h =
        (.ok (), h.put outfile (Message.toText "ModuleStatic" r.toDoc)) ∧
      Forall₂ (fun p f => Tells c sourceDetail p.1.source f.source ∧ Tells c sinkDetail p.1.sink f.sink)
        found r.flows) ∧
    ((∃ p ∈ found, ¬ CallsMembersAt ss p.1) →
      (reformat config (some resultFile) outfile).runOn h = (.error (.cause .noMember), h)) := by
  have hfiles : ∀ p ∈ found, p.2 = [p.1.source.path, p.1.sink.path] := by
    intro p hp
    simp only [vulnerabilitiesOf, bind_eq_ok_iff] at hfound
    obtain ⟨_, -, ds, -, hds⟩ := hfound
    obtain ⟨d, -, hd⟩ := (mem_of_mapM hds).1 hp
    exact files_of_vulnerabilityOf hd
  have hread : ∀ v ∈ found.map Prod.fst, ∀ e ∈ [v.source, v.sink], ∃ tree, IsRead ss tree e := by
    intro v hv e he
    obtain ⟨p, hp, rfl⟩ := mem_map.1 hv
    have hpath : ∃ path, e.path = .str path := by
      rcases mem_pair.1 he with rfl | rfl
      · exact (hvs p hp).source.path
      · exact (hvs p hp).sink.path
    obtain ⟨path, hpath⟩ := hpath
    have hmem : .str path ∈ found.flatMap Prod.snd := by
      refine mem_flatMap.2 ⟨p, hp, ?_⟩
      rw [hfiles p hp, ← hpath]
      exact mem_map_of_mem (f := End.path) he
    obtain ⟨q, hq, hsource⟩ := exists_sourceOf (keys_of_readSources hsources ▸ mem_filesOf hmem)
    exact ⟨q.2.2, ⟨q.2.1, hpath ▸ hsource⟩, hnames q hq⟩
  have hrun : (reformat config (some resultFile) outfile).runOn h =
      (do FlowReport.write (← reportOf (.ofConfig c) ss (found.map Prod.fst)) outfile : Job Unit).runOn h := by
    rw [reformat, Job.runOn_bind hresult, Job.runOn_bind hconfig, hfound]
    exact Job.runOn_bind hsources _
  obtain ⟨hok, herror⟩ := reportOf_eq hc (forall_mem_map.2 hvs) hread
  constructor
  · intro hcalls
    obtain ⟨r, hr, hflows⟩ := hok (forall_mem_map.2 hcalls)
    refine ⟨r, ?_, forall₂_map_left_iff.1 hflows⟩
    rw [hrun, hr]
    exact Job.runOn_writeText hout _
  · rintro ⟨p, hp, hcalls⟩
    rw [hrun, herror ⟨p.1, mem_map_of_mem hp, hcalls⟩]
    rfl

/-- The call of a source by its name alone makes a report fail as a whole. -/
theorem reformat_name_call :
    ∃ (c : Api.Config) (h : Host), IsPlain c ∧ (Analysis.readConfig (some "c")).runOn h = (.ok c, h) ∧
      (reformat (some "c") (some "r") "o").runOn h = (.error (.cause .noMember), h) := by
  let config : Doc := .obj [("apis", .arr [
    .obj [("full_name", .str "f"), ("id", .int 1), ("functionality", .str "SOURCE")],
    .obj [("full_name", .str "g"), ("id", .int 2), ("functionality", .str "SINK")]])]
  let place : Doc := .obj [("label", .int 0), ("line_number", .int 1), ("path", .str "a")]
  let result : Doc := .obj [("vulnerabilities", .arr [.obj [("source", place), ("source_trigger_word", .str "f("),
    ("sink", place), ("sink_trigger_word", .str "g("), ("type", .int 0), ("reassignment_nodes", .arr [])]])]
  let placeText := "\x7b\"label\":0,\"line_number\":1," ++ "\"path\":\"a\"\x7d,"
  let resultText := "\x7b\"vulnerabilities\":[\x7b\"source\":" ++ placeText ++ "\"source_trigger_word\":\"f(\"," ++
    "\"sink\":" ++ placeText ++ "\"sink_trigger_word\":\"g(\"," ++ "\"type\":0,\"reassignment_nodes\":[]\x7d]\x7d"
  let call : Doc := .obj [("t", .str "Call"), ("line", .int 1)]
  obtain ⟨h, hresult, hmessage, hread, htree, hout⟩ : ∃ h : Host, (readResult "r").runOn h = (.ok (some result), h) ∧
      (Job.readMessage "AstLookupConfig" "c").runOn h = (.ok config, h) ∧
      (Job.readText "a").runOn h = (.ok "f()", h) ∧
      (Analysis.moduleTree "f()").runOn h = (.ok (.ofDoc call), h) ∧ h.CanWrite "o" := by
    let configText := "apis\x7bfull_name:'f' id:1 functionality:" ++ "SOURCE\x7d" ++
      "apis\x7bfull_name:'g' id:2 functionality:" ++ "SINK\x7d"
    let h : Host := { root := "/", cwd := "/", trees := [("f()", call)], files := [("/", .directory),
      ("/a", .file (.text "f()")), ("/c", .file (.text configText)), ("/r", .file (.text resultText))] }
    have hc : h.entry? "c" = some (.file (.text configText)) := by decide +kernel
    have hr : h.entry? "r" = some (.file (.text resultText)) := by decide +kernel
    have hdoc : (Job.readDoc "r").runOn h = (.ok result, h) := by
      refine Job.runOn_readDoc hr rfl ?_
      simp only [resultText, placeText, parse?, String.toList_ofList, String.toList_append]
      decide +kernel
    have hattempt : (Job.attempt (Job.readDoc "r")).runOn h = (.ok (.ok result), h) :=
      Job.runOn_orElse (Job.runOn_bind hdoc _) _
    refine ⟨h, Job.runOn_bind hattempt _, (Job.runOn_readMessage hc _).trans ?_,
      Job.runOn_readText (c := .text "f()") (by decide +kernel) rfl, rfl, by decide +kernel⟩
    · simp only [configText, Job.Content.message, Job.Content.text?, Message.ofText?, String.toList_ofList,
        String.toList_append]
      decide +kernel
  have hconfig : (Analysis.readConfig (some "c")).runOn h = (.ok (.ofDoc config), h) := Job.runOn_bind hmessage _
  have hsources : (readSources [.str "a"]).runOn h = (.ok [(.str "a", "f()".toList, .ofDoc call)], h) := by
    rw [readSources, Doc.asText, Job.runOn_bind (Job.runOn_lift (.ok "a") h), Job.runOn_bind hread,
      Job.runOn_bind htree]
    rfl
  have hc : IsPlain (.ofDoc config) := ⟨rfl, by decide, by decide⟩
  let v : Vulnerability := ⟨⟨.str "f(", .int 1, .str "a"⟩, ⟨.str "g(", .int 1, .str "a"⟩, .arr []⟩
  have hmarked : ∀ p ∈ [(v, [Doc.str "a", .str "a"])], IsReported (.ofDoc config) p.1 := by
    simp only [mem_singleton, forall_eq]
    exact ⟨⟨⟨_, mem_cons_self, rfl, rfl⟩, ⟨_, rfl⟩, ⟨_, rfl⟩⟩,
      ⟨⟨_, mem_cons_of_mem _ mem_cons_self, rfl, rfl⟩, ⟨_, rfl⟩, ⟨_, rfl⟩⟩, ⟨_, _, rfl, rfl⟩⟩
  refine ⟨.ofDoc config, h, hc, hconfig, ?_⟩
  refine (reformat_runOn hc hresult hconfig rfl hmarked hsources ?_ hout).2 ?_
  · have hnone : ∀ t ∈ (Calls.Python.ModuleTree.ofDoc call).nodes, memberOf? t = none := by decide
    rintro p hp t ht m hm
    obtain rfl := mem_singleton.1 hp
    rw [hnone t ht] at hm
    cases hm
  · refine ⟨_, mem_singleton_self _, fun hcalls => ?_⟩
    exact absurd (hcalls _ mem_cons_self _ _ rfl _ mem_cons_self rfl rfl) (by decide)

end Taint.Vulnerabilities
end Vetting
