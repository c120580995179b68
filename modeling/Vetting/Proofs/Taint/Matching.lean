import Vetting.Proofs.Fault
import Vetting.Proofs.Text
import Vetting.Taint.Entries

/-!
# Which name a report is about

A reported name is looked up among the functions of the settings and among the entries.
-/

namespace Vetting.Taint

open List

variable {α : Type}

theorem longest_map (f : α → Nat) (xs : List α) : longest (xs.map fun x => (f x, x)) = xs.argmax f := by
  induction xs with
  | nil => rfl
  | cons x xs ih =>
    rw [map_cons, longest, ih, argmax_cons, find?_map]
    cases hmax : xs.argmax f with
    | none => simp [argmax_eq_none.1 hmax]
    | some c =>
      have hc := argmax_mem hmax
      by_cases hlt : f x < f c
      · have hsome : (xs.find? fun y => decide (f x < f y)).isSome :=
          find?_isSome.2 ⟨c, hc, decide_eq_true hlt⟩
        obtain ⟨y, hy⟩ := Option.isSome_iff_exists.1 hsome
        simp [hy, hlt]
      · have hnone : xs.find? (fun y => decide (f x < f y)) = none := by
          refine find?_eq_none.2 fun y hy => ?_
          have hle := le_of_mem_argmax hy hmax
          simp only [decide_eq_true_eq]
          omega
        simp [hnone, hlt]

theorem argmax_map {β : Type} (f : β → Nat) (g : α → β) (xs : List α) :
    (xs.map g).argmax f = (xs.argmax fun x => f (g x)).map g := by
  induction xs with
  | nil => rfl
  | cons x xs ih =>
    rw [map_cons, argmax_cons, argmax_cons, ih]
    cases xs.argmax fun x => f (g x) with
    | none => rfl
    | some c =>
      simp only [Option.map_some]
      split <;> rfl

theorem argmax_filter {f : α → Nat} {keep : α → Bool} {xs : List α} {x : α} (hx : xs.argmax f = some x)
    (hkeep : keep x = true) : (xs.filter keep).argmax f = some x := by
  induction xs generalizing x with
  | nil => cases hx
  | cons y ys ih =>
    rw [argmax_cons] at hx
    cases hmax : ys.argmax f with
    | none =>
      obtain rfl := argmax_eq_none.1 hmax
      obtain rfl : y = x := by simpa using hx
      simp [hkeep]
    | some c =>
      simp only [hmax] at hx
      split at hx
      case isTrue hlt =>
        obtain rfl := Option.some.inj hx
        have hrest := ih hmax hkeep
        rw [filter_cons]
        split
        · simp [argmax_cons, hrest, hlt]
        · exact hrest
      case isFalse hle =>
        obtain rfl := Option.some.inj hx
        rw [filter_cons, if_pos hkeep, argmax_cons]
        cases hrest : (ys.filter keep).argmax f with
        | none => rfl
        | some d =>
          have hd := le_of_mem_argmax (mem_of_mem_filter (argmax_mem hrest)) hmax
          exact if_neg (by omega)

/-! ## Names in a table -/

/-- Things with different names, by name. -/
def tableOf (key : α → String) (xs : List α) : ByName α := xs.map fun x => (.str (key x), x)

theorem same_str (s t : String) : Doc.same (.str s) (.str t) = (s == t) := by rw [Doc.same]

theorem set_tableOf {key : α → String} {xs : List α} {x : α} (hx : key x ∉ xs.map key) :
    ByName.set (.str (key x)) x (tableOf key xs) = tableOf key (xs ++ [x]) := by
  induction xs with
  | nil => rfl
  | cons y ys ih =>
    rw [map_cons, mem_cons, not_or] at hx
    have hset := ih hx.2
    simp only [tableOf, cons_append, map_cons] at hset ⊢
    rw [ByName.set, same_str, if_neg (by simpa using hx.1), hset]

theorem foldl_set {key : α → String} {xs : List α} (hxs : (xs.map key).Nodup) :
    xs.foldl (fun t x => ByName.set (.str (key x)) x t) [] = tableOf key xs := by
  induction xs using List.reverseRecOn with
  | nil => rfl
  | append_singleton xs x ih =>
    rw [map_append, map_singleton, ← concat_eq_append, nodup_concat] at hxs
    rw [foldl_append, ih hxs.2, foldl_cons, foldl_nil, set_tableOf hxs.1]

theorem get?_tableOf (key : α → String) (xs : List α) (name : String) :
    (tableOf key xs).get? (.str name) = xs.find? fun x => key x == name := by
  simp only [ByName.get?, tableOf, find?_map, Option.map_map, Function.comp_def, same_str, Option.map_id']

theorem ok_str_injective : Function.Injective fun s => (.ok (.str s) : Except Fault Doc) := fun s t h => by
  simpa using h

theorem nameLength_str (s : String) : nameLength (.str s) = .ok s.length := by
  simp [nameLength, Doc.size, Doc.items, Except.map, String.length_toList]

/-- The equal name, or the first of the longest ones that fit where those may be taken. -/
def chosen (ns : List String) (name : String) (fuzzy : Bool) (fits : String → Bool) : Option String :=
  if name ∈ ns then some name else if fuzzy then (ns.filter fits).argmax String.length else none

theorem exists_pick (key : α → String) {xs : List α} (name : String) (fuzzy : Bool)
    (fits : Doc × α → Except Fault Bool) (fit : String → Bool)
    (hfits : ∀ x ∈ xs, fits (.str (key x), x) = .ok (fit (key x))) :
    ∃ found, pick (tableOf key xs) (.str name) fuzzy fits = .ok found ∧ (∀ x ∈ found, x ∈ xs) ∧
      found.map key = chosen (xs.map key) name fuzzy fit := by
  rw [pick, get?_tableOf, chosen]
  cases hfind : xs.find? fun x => key x == name with
  | some x =>
    have hname : key x = name := by simpa using find?_some hfind
    have hx := mem_of_find?_eq_some hfind
    refine ⟨some x, rfl, by simpa using hx, ?_⟩
    rw [if_pos (hname ▸ mem_map_of_mem hx), Option.map_some, hname]
  | none =>
    have hnone : name ∉ xs.map key := by simpa using hfind
    rw [if_neg hnone]
    cases fuzzy with
    | false => exact ⟨none, rfl, by simp, rfl⟩
    | true =>
      have hfilter : (tableOf key xs).filterM fits = .ok (tableOf key (xs.filter fun x => fit (key x))) := by
        rw [filterM_eq_ok (p := fun p => fit (key p.2)) (by simpa [tableOf] using hfits)]
        simp only [tableOf, filter_map, Function.comp_def]
      have hlengths : (tableOf key (xs.filter fun x => fit (key x))).mapM
          (fun p => do return (← nameLength p.1, p.2)) =
          .ok ((xs.filter fun x => fit (key x)).map fun x => ((key x).length, x)) := by
        rw [mapM_eq_ok (r := fun p => ((key p.2).length, p.2)), tableOf, map_map]
        · rfl
        · intro p hp
          obtain ⟨x, -, rfl⟩ := mem_map.1 hp
          rw [nameLength_str, ok_bind]
          rfl
      refine ⟨(xs.filter fun x => fit (key x)).argmax fun x => (key x).length, ?_, fun x hx => ?_, ?_⟩
      · rw [← longest_map]
        simp only [Bool.not_true, hfilter, ok_bind, hlengths]
        rfl
      · exact mem_of_mem_filter (argmax_mem hx)
      · rw [if_pos rfl, ← argmax_map, filter_map]
        rfl

theorem chosen_eq_iff {ns : List String} {name : String} {fuzzy : Bool} {fit : String → Bool} :
    chosen ns name fuzzy (fun _ => true) = chosen ns name fuzzy fit ↔
      name ∈ ns ∨ fuzzy = false ∨ ∀ n ∈ ns.argmax String.length, fit n = true := by
  rw [chosen, chosen, filter_true]
  by_cases hin : name ∈ ns
  · simp [hin]
  cases fuzzy with
  | false => simp
  | true =>
    simp only [hin, if_false, if_true, false_or, Bool.true_eq_false]
    cases hmax : ns.argmax String.length with
    | none => simp [argmax_eq_none.1 hmax]
    | some n =>
      constructor
      · intro heq m hm
        obtain rfl : n = m := Option.some.inj hm
        exact (mem_filter.1 (argmax_mem heq.symm)).2
      · intro hfit
        exact (argmax_filter hmax (hfit n rfl)).symm

/-- The functions take the equal name, or else in fuzzy mode a longest one that occurs in the reported name; the
entries take the equal name, or else in fuzzy mode a longest one of all. So both take the same name, or none,
unless in fuzzy mode no name is equal and the longest does not occur. -/
theorem matchingEntry_agrees_iff {node : Doc} {name : String} (hnode : node.at "name" = .ok (.str name))
    {ns : List String} (hns : ns.Nodup) {apis : List Api.Node} (hapis : apis.map Api.Node.name = ns)
    {entries : List Doc} (hentries : entries.map (·.at "name") = ns.map fun n => .ok (.str n)) (fuzzy : Bool) :
    ∃ a e, matchingApi node apis fuzzy = .ok a ∧ matchingEntry node entries fuzzy = .ok e ∧
      (∀ x ∈ a, x ∈ apis) ∧ (∀ x ∈ e, x ∈ entries) ∧
      a.map Api.Node.name = chosen ns name fuzzy (Text.contains name) ∧
      e.map (·.at "name") = (chosen ns name fuzzy fun _ => true).map (fun n => .ok (.str n)) ∧
      (e.map (·.at "name") = a.map (fun x => .ok (.str x.name)) ↔
        name ∈ ns ∨ fuzzy = false ∨ ∀ n ∈ ns.argmax String.length, Text.contains name n = true) := by
  have hname : ∀ e ∈ entries, ∃ n, e.at "name" = .ok (.str n) := by
    intro e he
    obtain ⟨n, -, hn⟩ := mem_map.1 (hentries ▸ mem_map_of_mem he)
    exact ⟨n, hn.symm⟩
  choose! key hkey using hname
  have hkeys : entries.map key = ns := by
    rw [map_congr_left hkey] at hentries
    exact map_injective_iff.2 ok_str_injective (by rw [map_map]; exact hentries)
  have hapi : ∀ x ∈ apis, nameOccurs (.str x.name) (.str name) = .ok (Text.contains name x.name) := fun _ _ => rfl
  have hentry : ∀ e ∈ entries, (do nameOccurs (.str (key e)) (← e.at "name")) = .ok true := fun e he => by
    rw [hkey e he, ok_bind, nameOccurs, Text.contains_eq_true_iff.2 infix_rfl]
  obtain ⟨a, ha, hain, haname⟩ := exists_pick Api.Node.name name fuzzy
    (fun p => nameOccurs p.1 (.str name)) (Text.contains name) hapi
  obtain ⟨e, he, hein, hename⟩ := exists_pick key name fuzzy
    (fun p => do nameOccurs p.1 (← p.2.at "name")) (fun _ => true) hentry
  rw [hapis] at haname
  rw [hkeys] at hename
  have hshown : e.map (·.at "name") = (e.map key).map fun n => .ok (.str n) := by
    cases e with
    | none => rfl
    | some e => rw [Option.map_some, hkey e (hein e rfl)]; rfl
  refine ⟨a, e, ?_, ?_, hain, hein, haname, hename ▸ hshown, ?_⟩
  · rw [matchingApi, foldl_set (hapis ▸ hns), hnode, ok_bind]
    exact ha
  · have htable : entries.foldlM (fun (t : ByName Doc) e => do
        return ByName.set (← (← e.at "name").asKey) e t) [] = .ok (tableOf key entries) := by
      rw [← foldl_set (hkeys ▸ hns)]
      exact foldlM_eq_ok fun e he t => by rw [hkey e he]; rfl
    rw [matchingEntry, htable, ok_bind, hnode, ok_bind]
    exact he
  · have hnames : a.map (fun x => (.ok (.str x.name) : Except Fault Doc)) =
        (a.map Api.Node.name).map fun n => .ok (.str n) := by cases a <;> rfl
    rw [hshown, hnames, (Option.map_injective ok_str_injective).eq_iff, haname, hename]
    exact chosen_eq_iff

/-- Only a part of a reported call is named, next to a longer name that has nothing to do with it. -/
theorem matchingEntry_differs_for_call :
    (Doc.obj [("name", .str "f(x)")]).at "name" = .ok (.str "f(x)") ∧ ["f", "other"].Nodup ∧
    ∃ a e, matchingApi (.obj [("name", .str "f(x)")]) [{ name := "f" }, { name := "other" }] true = .ok a ∧
      matchingEntry (.obj [("name", .str "f(x)")])
        [.obj [("name", .str "f")], .obj [("name", .str "other")]] true = .ok e ∧
      a.map Api.Node.name = some "f" ∧ e.map (·.at "name") = some (.ok (.str "other")) := by
  obtain ⟨a, e, ha, he, -, -, haname, hename, -⟩ := @matchingEntry_agrees_iff
    (.obj [("name", .str "f(x)")]) "f(x)" rfl ["f", "other"] (by decide)
    [{ name := "f" }, { name := "other" }] rfl
    [.obj [("name", .str "f")], .obj [("name", .str "other")]] rfl true
  refine ⟨rfl, by decide, a, e, ha, he, haname.trans (by decide +kernel), hename.trans ?_⟩
  rw [show chosen ["f", "other"] "f(x)" true (fun _ => true) = some "other" by decide +kernel]
  rfl

end Vetting.Taint
