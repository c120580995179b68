import Vetting.Api.Report
import Vetting.Listing.Group
import Vetting.Proofs.Message.Normal
import Vetting.Proofs.Message.Text

/-!
# Settings read back

Settings read as a message are the functions with their numbers, in order, as long as the numbers fit into the
field for them, and the formula that was written.
-/

namespace Vetting.Listing

open List Message Message.Atom Api

open Message (Line Item blockChars putLine putItem putBlock)

theorem haltOf_eq_none_iff {ps : List Piece} : haltOf ps = none ↔ ∀ e, .error e ∉ ps := by
  induction ps with
  | nil => simp [haltOf]
  | cons p ps ih =>
    cases p with
    | error e =>
      have hmem : ¬ ∀ e', .error e' ∉ (.error e :: ps : List Piece) :=
        fun h => h e mem_cons_self
      simpa [haltOf] using hmem
    | ok t => simp [haltOf, ih]

/-- Pieces that can all be made, and the text that they come to. -/
def Writes (ps : List Piece) (cs : List Char) : Prop := haltOf ps = none ∧ (textOf ps).toList = cs

namespace Writes

variable {ps qs : List Piece} {cs ds : List Char}

theorem nil : Writes [] [] := ⟨rfl, by simp [textOf]⟩

theorem ok (s : String) : Writes [.ok s] s.toList := ⟨rfl, by simp [textOf]⟩

theorem append (h : Writes ps cs) (h' : Writes qs ds) : Writes (ps ++ qs) (cs ++ ds) := by
  induction ps generalizing cs with
  | nil =>
    obtain rfl : [] = cs := by simpa [textOf] using h.2
    exact h'
  | cons p ps ih =>
    cases p with
    | error e => cases h.1
    | ok s =>
      obtain ⟨hhalt, rfl⟩ := h
      obtain ⟨hhalt', htext⟩ := ih ⟨hhalt, rfl⟩
      exact ⟨hhalt', by simp [textOf, htext]⟩

theorem flatMap {α : Type} {f : α → List Piece} {g : α → List Char} {xs : List α}
    (h : ∀ x ∈ xs, Writes (f x) (g x)) : Writes (xs.flatMap f) (xs.flatMap g) := by
  induction xs with
  | nil => exact nil
  | cons x xs ih =>
    exact (h x mem_cons_self).append (ih fun y hy => h y (mem_cons_of_mem x hy))

end Writes

/-! ## Functions in settings -/

/-- A function as settings list it. -/
structure Grouped where
  group : Group
  /-- What the function belongs to; empty if there is nothing. -/
  base : String
  name : String
  fullName : String
  type : String
  /-- The numbers of the arguments that matter. -/
  arguments : List Nat := []
deriving DecidableEq

namespace Group

def enumeration : Group → String
  | .sources => "SourceType"
  | .sinks => "SinkType"
  | .sourceSinks => "SourceType"
  | .dangers => "SinkType"

/-- The part that a function of a group plays. -/
def role : Group → Api.Role
  | .sources => .source
  | .sinks => .sink
  | .sourceSinks => .source
  | .dangers => .danger

/-- What a type tells about a function of a group. -/
def detail (type : String) : Group → Api.Detail
  | .sources => .source type
  | .sinks => .sink type
  | .sourceSinks => .source type
  | .dangers => .sink type

theorem column_injective {g h : Group} (hgh : g.column = h.column) : g = h := by
  cases g <;> cases h <;> first | rfl | simp [column] at hgh

end Group

namespace Grouped

def argument (n : Nat) : Item := .block "arg_nodes" [⟨"id", .number n⟩]

/-- What the block of a function consists of. -/
def items (x : Grouped) (id : Nat) : List Item :=
  [Item.line ⟨"type", .word "FUNCTION_DECL_REF_EXPR"⟩, .line ⟨"name", .text x.name⟩, .line ⟨"full_name", .text x.fullName⟩]
  ++ (if x.base.isEmpty then [] else [Item.line ⟨"base_type", .text x.base⟩])
  ++ x.arguments.map argument
  ++ [Item.line ⟨"id", .number id⟩, .line ⟨"functionality", .word x.group.functionality⟩,
    .line ⟨x.group.typeField, .word x.type⟩]

/-- The message of an argument in normal form. -/
def argNode (n : Nat) : Doc := normal "AstNode" (.obj [("id", .int n)])

/-- The node that stands for a function. -/
def node (x : Grouped) (id : Nat) : Api.Node :=
  { kind := .functionRef, name := x.name, fullName := x.fullName, baseType := x.base, id := id
    argNodes := x.arguments.map argNode, role := x.group.role, detail := some (x.group.detail x.type) }

/-- A function that can be written without escapes, with a type of its group. -/
structure Valid (x : Grouped) : Prop where
  base : ∀ c ∈ x.base.toList, isPlain c = true
  name : ∀ c ∈ x.name.toList, isPlain c = true
  fullName : ∀ c ∈ x.fullName.toList, isPlain c = true
  type : (numberOf? x.group.enumeration x.type).isSome = true
  arguments : ∀ n ∈ x.arguments, n < 2 ^ 31

end Grouped

/-- A function in a sheet is one that settings list. -/
structure Form.Matches (f : Form) (l : Listed) (x : Grouped) : Prop where
  group : f.group? l.column = some x.group
  base : l.named.base.getD "" = x.base
  name : l.named.name = x.name
  fullName : l.named.fullName = x.fullName
  arguments : l.named.arguments.map Text.intOf? = x.arguments.map fun n : Nat => some (n : Int)
  type : ∃ t, l.cells.get? x.group.typeColumn = some (some t) ∧ Text.strip t = x.type

variable {f : Form} {l : Listed} {ns : List Nat}

theorem functionPieces_eq {x : Grouped} (h : f.Matches l x) (id : Nat) :
    functionPieces f l id = .ok (headText x.name x.fullName) ::
      ((if x.base.isEmpty then [] else [.ok (baseText x.base)] : List Piece) ++
        (l.named.arguments.flatMap argumentPieces ++
          [Except.ok (idText id), .ok ("\tfunctionality: " ++ x.group.functionality ++ "\n"),
            .ok ("\t" ++ x.group.typeField ++ ": " ++ x.type ++ "\n"), .ok endText])) := by
  obtain ⟨t, hcell, htype⟩ := h.type
  have hbase := h.base
  rw [functionPieces, groupPieces, h.group, h.name, h.fullName]
  simp only [typePiece, hcell, htype]
  cases hb : l.named.base with
  | none =>
    have hx : x.base = "" := by simpa [hb] using hbase.symm
    simp [hx]
  | some b =>
    have hx : x.base = b := by simpa [hb] using hbase.symm
    simp [hx]

/-! Each piece of a function is one or several lines of its block. -/

theorem toList_wordLine (key word : String) :
    ("\t" ++ key ++ ": " ++ word ++ "\n").toList = Line.inBlock ⟨key, .word word⟩ := by
  simp [Line.inBlock, Line.chars, chars]

theorem toList_textLine (key text : String) :
    ("\t" ++ key ++ ": \"" ++ text ++ "\"\n").toList = Line.inBlock ⟨key, .text text⟩ := by
  simp [Line.inBlock, Line.chars, chars]

theorem toList_headText (name fullName : String) : (headText name fullName).toList = "apis \x7b\n".toList
      ++ (Line.inBlock ⟨"type", .word "FUNCTION_DECL_REF_EXPR"⟩ ++ Line.inBlock ⟨"name", .text name⟩
        ++ Line.inBlock ⟨"full_name", .text fullName⟩) := by
  have hhead : "apis \x7b\n\ttype: FUNCTION_DECL_REF_EXPR\n\tname: \"" =
      "apis \x7b\n" ++ ("\t" ++ "type" ++ ": " ++ "FUNCTION_DECL_REF_EXPR" ++ "\n")
        ++ ("\t" ++ "name" ++ ": \"") := by decide
  have hfull : "\"\n\tfull_name: \"" = "\"\n" ++ ("\t" ++ "full_name" ++ ": \"") := by decide
  unfold headText
  rw [hhead, hfull, ← toList_wordLine, ← toList_textLine, ← toList_textLine]
  simp only [String.toList_append, append_assoc]

theorem toList_baseText (base : String) : (baseText base).toList = Line.inBlock ⟨"base_type", .text base⟩ := by
  have hkey : "\tbase_type: \"" = "\t" ++ "base_type" ++ ": \"" := by decide
  unfold baseText
  rw [hkey, toList_textLine]

theorem toList_roleText (role : String) :
    ("\tfunctionality: " ++ role ++ "\n").toList = Line.inBlock ⟨"functionality", .word role⟩ := by
  have hkey : "\tfunctionality: " = "\t" ++ "functionality" ++ ": " := by decide
  rw [hkey, toList_wordLine]

theorem toList_idText (id : Nat) : (idText id).toList = Line.inBlock ⟨"id", .number id⟩ := by
  simp [idText, Line.inBlock, Line.chars, chars, Text.ofNat]

theorem writes_argumentPieces {ss : List String} (h : ss.map Text.intOf? = ns.map fun n : Nat => some (n : Int)) :
    Writes (ss.flatMap argumentPieces) ((ns.map Grouped.argument).flatMap Item.inBlock) := by
  induction ss generalizing ns with
  | nil =>
    obtain rfl : ns = [] := by simpa using h.symm
    exact .nil
  | cons s ss ih =>
    obtain ⟨n, ns, rfl⟩ : ∃ n rest, ns = n :: rest := by
      cases ns with
      | nil => simp at h
      | cons n ns => exact ⟨n, ns, rfl⟩
    simp only [map_cons, cons.injEq] at h
    have hchars : "\targ_nodes \x7b\n".toList ++ ("\t\tid: " ++ Text.ofInt n ++ "\n\t\x7d\n").toList =
        (Grouped.argument n).inBlock := by
      simp [Grouped.argument, Item.inBlock, Line.inBlock, Line.chars, chars, Text.ofInt, Text.ofNat]
    have hfirst := (Writes.ok "\targ_nodes \x7b\n").append (Writes.ok ("\t\tid: " ++ Text.ofInt n ++ "\n\t\x7d\n"))
    rw [hchars] at hfirst
    have hpieces : argumentPieces s = [.ok "\targ_nodes \x7b\n"] ++
        [.ok ("\t\tid: " ++ Text.ofInt n ++ "\n\t\x7d\n")] := by
      rw [argumentPieces, h.1]
      rfl
    rw [flatMap_cons, map_cons, flatMap_cons, hpieces]
    exact hfirst.append (ih h.2)

theorem writes_functionPieces {x : Grouped} (h : f.Matches l x) (id : Nat) :
    Writes (functionPieces f l id) (blockChars "apis" (x.items id)) := by
  have hhead := Writes.ok (headText x.name x.fullName)
  have hbase : Writes (if x.base.isEmpty then [] else [.ok (baseText x.base)])
      (if x.base.isEmpty then [] else Line.inBlock ⟨"base_type", .text x.base⟩) := by
    split
    · exact .nil
    · rw [← toList_baseText]
      exact .ok (baseText x.base)
  have hid := Writes.ok (idText id)
  have hrole := Writes.ok ("\tfunctionality: " ++ x.group.functionality ++ "\n")
  have htype := Writes.ok ("\t" ++ x.group.typeField ++ ": " ++ x.type ++ "\n")
  have hend := Writes.ok endText
  rw [toList_headText] at hhead
  rw [toList_idText] at hid
  rw [toList_roleText] at hrole
  rw [toList_wordLine] at htype
  have hall := (hhead.append hbase).append ((writes_argumentPieces h.arguments).append
    (hid.append (hrole.append (htype.append hend))))
  have hitems : (x.items id).flatMap Item.inBlock =
      Line.inBlock ⟨"type", .word "FUNCTION_DECL_REF_EXPR"⟩ ++ Line.inBlock ⟨"name", .text x.name⟩
        ++ Line.inBlock ⟨"full_name", .text x.fullName⟩
        ++ (if x.base.isEmpty then [] else Line.inBlock ⟨"base_type", .text x.base⟩)
        ++ ((x.arguments.map Grouped.argument).flatMap Item.inBlock ++ (Line.inBlock ⟨"id", .number id⟩
          ++ (Line.inBlock ⟨"functionality", .word x.group.functionality⟩
            ++ Line.inBlock ⟨x.group.typeField, .word x.type⟩))) := by
    rw [Grouped.items]
    split <;> simp [Item.inBlock]
  rw [functionPieces_eq h, blockChars, hitems]
  simpa [endText] using hall


def Group.field (g : Group) : Message.Field :=
  { number := if g.typeField = "source_type" then 14 else 15, name := g.typeField
    kind := .choice g.enumeration, alternative := true }

theorem field?_typeField (g : Group) : field? "AstNode" g.typeField = some g.field := by
  cases g <;> rfl

namespace Grouped

/-- The fields of the message of a function that come before its arguments. -/
def head (x : Grouped) : List (String × Doc) :=
  ("type", .str "FUNCTION_DECL_REF_EXPR") :: ("name", .str x.name) :: ("full_name", .str x.fullName) ::
    textField "base_type" x.base

def argDocs (x : Grouped) : List Doc := x.arguments.map fun n : Nat => .obj [("id", .int n)]

/-- The fields of the message of a function. -/
def fields (x : Grouped) (id : Nat) : List (String × Doc) :=
  x.head ++ (listField "arg_nodes" x.argDocs ++
    [("id", Doc.int id), ("functionality", .str x.group.functionality), (x.group.typeField, .str x.type)])

end Grouped

theorem putLine_eq {shape : String} {f : Message.Field} {e : Line} {d : Doc}
    (hf : field? shape e.key = some f) (hd : e.value.doc? f = some d)
    (fs : List (String × Doc)) : putLine shape fs e = some (put shape f d fs) := by
  rw [putLine, hf, Option.bind_some, hd, Option.map_some]

theorem putLine_id (id : Nat) (fs : List (String × Doc)) : putLine "AstNode" fs ⟨"id", .number id⟩ =
      if id < 2 ^ 31 then some (put "AstNode" ⟨12, "id", .int32, false, false⟩ (.int id) fs)
      else none := by
  have hfield : field? "AstNode" "id" = some ⟨12, "id", .int32, false, false⟩ := rfl
  rw [putLine, hfield, Option.bind_some, doc?_int32 rfl]
  split <;> rfl

theorem foldlM_arguments (x : Grouped) (hns : ∀ n ∈ ns, n < 2 ^ 31) (ds : List Doc) :
    (ns.map Grouped.argument).foldlM (putItem "AstNode") (x.head ++ listField "arg_nodes" ds) =
      some (x.head ++ listField "arg_nodes" (ds ++ ns.map fun n : Nat => Doc.obj [("id", .int n)])) := by
  induction ns generalizing ds with
  | nil => simp
  | cons n ns ih =>
    rw [forall_mem_cons] at hns
    have hput : putItem "AstNode" (x.head ++ listField "arg_nodes" ds) (Grouped.argument n) =
        some (x.head ++ listField "arg_nodes" (ds ++ [.obj [("id", .int n)]])) := by
      have hfield : ∃ m, field? "AstNode" "arg_nodes" =
          some ⟨m, "arg_nodes", .message "AstNode", true, false⟩ := ⟨_, rfl⟩
      obtain ⟨m, hfield⟩ := hfield
      simp only [Grouped.argument, putItem, putBraced, hfield, Option.bind_some, foldlM_cons, foldlM_nil,
        putLine_id, if_pos hns.1, Option.bind_eq_bind, Option.pure_def, Option.map_some, Grouped.head, textField]
      by_cases hx : x.base.isEmpty = true <;> simp only [hx, if_true, if_false, Bool.false_eq_true] <;>
        cases ds <;> rfl
    rw [map_cons, foldlM_cons, hput, Option.bind_eq_bind, Option.bind_some, ih hns.2, append_assoc]
    rfl

theorem foldlM_items {x : Grouped} (h : x.Valid) (id : Nat) : (x.items id).foldlM (putItem "AstNode") [] =
      if id < 2 ^ 31 then some (x.fields id) else none := by
  have htype : ∀ fs, putLine "AstNode" fs ⟨"type", .word "FUNCTION_DECL_REF_EXPR"⟩ = some _ :=
    putLine_eq (f := ⟨1, "type", .choice "NodeType", false, false⟩) rfl (doc?_choice rfl (by decide))
  have hname : ∀ fs, putLine "AstNode" fs ⟨"name", .text x.name⟩ = some _ :=
    putLine_eq (f := ⟨2, "name", .text, false, false⟩) rfl (doc?_text rfl x.name)
  have hfull : ∀ fs, putLine "AstNode" fs ⟨"full_name", .text x.fullName⟩ = some _ :=
    putLine_eq (f := ⟨3, "full_name", .text, false, false⟩) rfl (doc?_text rfl x.fullName)
  have hbase : ∀ fs, putLine "AstNode" fs ⟨"base_type", .text x.base⟩ = some _ :=
    putLine_eq (f := ⟨4, "base_type", .text, false, false⟩) rfl (doc?_text rfl x.base)
  have hrole : ∀ fs, putLine "AstNode" fs ⟨"functionality", .word x.group.functionality⟩ = some _ :=
    putLine_eq (f := ⟨13, "functionality", .choice "Functionality", false, false⟩) rfl
      (doc?_choice rfl (by cases x.group <;> decide))
  have hdetail : ∀ fs, putLine "AstNode" fs ⟨x.group.typeField, .word x.type⟩ = some _ :=
    putLine_eq (field?_typeField x.group) (doc?_choice rfl h.type)
  have hhead : ([.line ⟨"type", .word "FUNCTION_DECL_REF_EXPR"⟩, .line ⟨"name", .text x.name⟩,
      .line ⟨"full_name", .text x.fullName⟩] ++ if x.base.isEmpty then [] else [.line ⟨"base_type", .text x.base⟩]
        : List Item).foldlM (putItem "AstNode") [] = some (x.head ++ listField "arg_nodes" []) := by
    rw [Grouped.head, textField]
    by_cases hx : x.base.isEmpty = true <;>
      simp only [hx, if_true, if_false, Bool.false_eq_true, append_nil, cons_append, nil_append, foldlM_cons,
        foldlM_nil, putItem, htype, hname, hfull, hbase, Option.bind_eq_bind, Option.bind_some, Option.pure_def]
    all_goals rfl
  have harguments := foldlM_arguments x h.arguments []
  rw [Grouped.items, foldlM_append, foldlM_append, hhead, Option.bind_eq_bind, Option.bind_some, harguments,
    nil_append, Option.bind_some, Grouped.fields, Grouped.head, textField, ← Grouped.argDocs]
  by_cases hx : x.base.isEmpty = true <;> by_cases hn : id < 2 ^ 31 <;>
    simp only [hx, hn, if_true, if_false, Bool.false_eq_true, foldlM_cons, foldlM_nil, putItem, putLine_id, hrole,
      hdetail, Option.bind_eq_bind, Option.bind_some, Option.bind_none, Option.pure_def]
  all_goals cases x.group <;> cases x.argDocs <;> rfl

namespace Grouped

variable (x : Grouped) (id : Nat)

def message : Doc := normal "AstNode" (.obj (x.fields id))

theorem keys_fields : (x.fields id).map Prod.fst <+
    ["type", "name", "full_name", "base_type", "arg_nodes", "id", "functionality", x.group.typeField] := by
  have hbase : (textField "base_type" x.base).map Prod.fst <+ ["base_type"] := by
    rw [textField]
    split <;> simp
  have hlist : (listField "arg_nodes" x.argDocs).map Prod.fst <+ ["arg_nodes"] := by
    rw [listField]
    split <;> simp
  have hrest := hbase.append (hlist.append (.refl ["id", "functionality", x.group.typeField]))
  rw [fields, head, map_append, map_append]
  exact ((hrest.cons_cons "full_name").cons_cons "name").cons_cons "type"

theorem nodup_fields : ((x.fields id).map Prod.fst).Nodup :=
  (x.keys_fields id).nodup (by cases x.group <;> decide)

variable {k : String} {f : Message.Field}

theorem field?_message (hf : field? "AstNode" k = some f) :
    (x.message id).field? k = ((x.fields id).lookup k).bind (normalField f) :=
  field?_normal hf (x.nodup_fields id)

theorem textOf_message {k s : String} (hf : field? "AstNode" k = some f) (hkind : f.kind = .text)
    (hs : (x.fields id).lookup k = some (.str s)) : Api.textOf (x.message id) k = s :=
  textOf_normal hf (x.nodup_fields id) hkind hs

def usedFields : List String :=
  ["type", "name", "full_name", "base_type", "arg_nodes", "id", "functionality", "source_type", "sink_type"]

def unusedFields : List String :=
  ["module", "value", "definition", "arguments", "source", "range", "danger_type",
   "propagate_type", "child_nodes", "instantiatable"]

theorem field?_message_unused (hk : k ∈ unusedFields) : (x.message id).field? k = none := by
  have hkeys : (x.fields id).map Prod.fst ⊆ usedFields :=
    Subset.trans (x.keys_fields id).subset (by cases x.group <;> decide)
  have hdisjoint : ∀ j ∈ unusedFields, (field? "AstNode" j).isSome = true ∧ j ∉ usedFields := by decide
  have hlookup : (x.fields id).lookup k = none := by
    rw [lookup_eq_none_iff]
    intro p hp
    have hne : k ≠ p.1 := fun h => (hdisjoint k hk).2 (h ▸ hkeys (mem_map_of_mem hp))
    simpa using hne
  obtain ⟨f, hf⟩ := Option.isSome_iff_exists.1 (hdisjoint k hk).1
  rw [field?_message x id hf, hlookup, Option.bind_none]

theorem baseType_message : Api.textOf (x.message id) "base_type" = x.base := by
  by_cases hempty : x.base = ""
  · have hnone : (x.fields id).lookup "base_type" = none := by
      rw [fields, head, textField, hempty]
      cases x.group <;> cases x.argDocs <;> rfl
    rw [Api.textOf, field?_message x id rfl, hnone, hempty]
    rfl
  · refine textOf_message x id rfl rfl ?_
    rw [fields, head, textField, if_neg (by simpa using hempty)]
    rfl

theorem id_message : intOf (x.message id) "id" = id := by
  have hlookup : (x.fields id).lookup "id" = some (.int id) := by
    rw [fields, head, textField]
    split <;> cases x.argDocs <;> rfl
  rw [intOf, field?_message x id rfl, hlookup]
  by_cases h : id = 0 <;> simp [normalField, normalPlain, normalAtom, isDefault, wholeOf, h]

theorem role_message : Api.Role.ofLabel (Api.textOf (x.message id) "functionality") = x.group.role := by
  rw [Api.textOf, field?_message x id rfl, fields, head, textField]
  cases x.group <;> cases x.argDocs <;> split <;> rfl

theorem type_message {g : Group} : (x.message id).field? g.typeField =
      if x.group.typeField = g.typeField then some (.str x.type) else none := by
  have hlookup : (x.fields id).lookup g.typeField =
      if x.group.typeField = g.typeField then some (.str x.type) else none := by
    rw [fields, head, textField]
    cases g <;> cases x.group <;> cases x.argDocs <;> split <;> rfl
  rw [field?_message x id (field?_typeField g), hlookup]
  split
  · exact normalField_alternative (f := g.field) rfl rfl x.type
  · rfl

theorem detail_message : Api.Detail.ofDoc? (x.message id) = some (x.group.detail x.type) := by
  have hsource := x.type_message id (g := .sources)
  have hsink := x.type_message id (g := .sinks)
  simp only [Group.typeField] at hsource hsink
  rw [Api.Detail.ofDoc?, hsource, hsink]
  cases x.group <;> rfl

theorem argNodes_message : listOf (x.message id) "arg_nodes" = x.arguments.map argNode := by
  have hlookup : (x.fields id).lookup "arg_nodes" = if x.argDocs.isEmpty then none else some (.arr x.argDocs) := by
    rw [fields, head, textField]
    cases x.group <;> cases x.argDocs <;> split <;> rfl
  have hnormal : x.argDocs.map (normal "AstNode") = x.arguments.map argNode := by
    rw [argDocs, map_map]
    rfl
  rw [listOf, field?_message x id rfl, hlookup, ← hnormal,
    ← normalItems_eq (f := ⟨8, "arg_nodes", .message "AstNode", true, false⟩) rfl]
  cases x.argDocs <;> rfl

theorem ofDoc_message : Api.Node.ofDoc (x.message id) = x.node id := by
  have hkind : (x.message id).field? "type" = some (.str "FUNCTION_DECL_REF_EXPR") := by
    rw [field?_message x id rfl]
    rfl
  have hname : Api.textOf (x.message id) "name" = x.name := textOf_message x id rfl rfl rfl
  have hfull : Api.textOf (x.message id) "full_name" = x.fullName := textOf_message x id rfl rfl rfl
  have hunused {k : String} (hk : k ∈ unusedFields) := field?_message_unused x id hk
  rw [Api.Node.ofDoc, hkind, hname, hfull, baseType_message, argNodes_message, id_message, role_message, detail_message]
  simp only [Api.textOf, listOf, flagOf, hunused (k := "module") (by decide),
    hunused (k := "value") (by decide), hunused (k := "definition") (by decide),
    hunused (k := "arguments") (by decide),
    hunused (k := "source") (by decide), hunused (k := "range") (by decide),
    hunused (k := "child_nodes") (by decide), hunused (k := "instantiatable") (by decide)]
  rfl

theorem isWord_type {x : Grouped} (h : x.Valid) : isWord x.type.toList = true := by
  have hwords : ∀ e ∈ ["SourceType", "SinkType"], (valuesOf e).all (fun p => isWord p.1.toList) = true := by
    decide +kernel
  have hall := hwords x.group.enumeration (by cases x.group <;> decide)
  obtain ⟨n, hn⟩ := Option.isSome_iff_exists.1 h.type
  obtain ⟨before, after, hvalues, -⟩ := lookup_eq_some_iff.1 hn
  exact all_eq_true.1 hall (x.type, n) (by simp [hvalues])

theorem isPlain_items {x : Grouped} (h : x.Valid) (id : Nat) : ∀ i ∈ x.items id, i.isPlain = true := by
  have hkeys : ∀ g : Group, isWord g.typeField.toList = true ∧ isWord g.functionality.toList = true := by
    intro g
    cases g <;> decide
  have hplain {k s : String} (hk : isWord k.toList = true)
      (hs : ∀ c ∈ s.toList, isPlain c = true) : Line.isPlain ⟨k, .text s⟩ = true :=
    Line.isPlain_of hk (all_eq_true.2 hs)
  intro i hi
  simp only [items, mem_append, mem_cons, not_mem_nil, or_false] at hi
  obtain (((rfl | rfl | rfl) | hbase) | hargument) | rfl | rfl | rfl := hi
  · decide
  · exact hplain (by decide) h.name
  · exact hplain (by decide) h.fullName
  · split at hbase
    · cases hbase
    · obtain rfl := mem_singleton.1 hbase
      exact hplain (by decide) h.base
  · obtain ⟨n, -, rfl⟩ := mem_map.1 hargument
    have hid : Line.isPlain ⟨"id", .number n⟩ = true := Line.isPlain_of (by decide) rfl
    have hkey : isWord "arg_nodes".toList = true := by decide
    rw [argument, Item.isPlain, hkey, all_cons, hid]
    rfl
  · exact Line.isPlain_of (by decide) rfl
  · exact Line.isPlain_of (by decide) (hkeys x.group).2
  · exact Line.isPlain_of (hkeys x.group).1 (isWord_type h)

end Grouped

/-! ## Messages of settings -/

/-- The functions of settings, read one after another. -/
theorem foldlM_blocks {ps : List (Grouped × Nat)} (hps : ∀ p ∈ ps, p.1.Valid) (ds : List Doc) :
    (ps.map fun p => p.1.items p.2).foldlM (putBlock "AstLookupConfig" "apis") (listField "apis" ds) =
      if ∀ p ∈ ps, p.2 < 2 ^ 31 then
        some (listField "apis" (ds ++ ps.map fun p => Doc.obj (p.1.fields p.2)))
      else none := by
  induction ps generalizing ds with
  | nil => simp
  | cons p ps ih =>
    have hblock : putBlock "AstLookupConfig" "apis" (listField "apis" ds) (p.1.items p.2) =
        if p.2 < 2 ^ 31 then some (listField "apis" (ds ++ [.obj (p.1.fields p.2)]))
        else none := by
      have hfield : field? "AstLookupConfig" "apis" = some ⟨1, "apis", .message "AstNode", true, false⟩ := rfl
      simp only [putBlock, putBraced, hfield, Option.bind_some, foldlM_items (hps p mem_cons_self)]
      split
      · cases ds <;> rfl
      · rfl
    rw [map_cons, foldlM_cons, hblock]
    by_cases hp : p.2 < 2 ^ 31
    · have hrest := ih (fun q hq => hps q (mem_cons_of_mem p hq)) (ds ++ [.obj (p.1.fields p.2)])
      rw [append_assoc, singleton_append] at hrest
      simpa only [forall_mem_cons, hp, true_and, if_true, map_cons, Option.bind_eq_bind, Option.bind_some] using hrest
    · simp only [forall_mem_cons, hp, false_and, if_false]
      rfl

/-- The fields of the message of settings, from messages of functions and the formula. -/
def settingsFields (ds : List Doc) (formula : String) : List (String × Doc) :=
  listField "apis" ds ++ [("smt_formula", Doc.str formula)]

theorem nodup_settingsFields (ds : List Doc) (formula : String) :
    ((settingsFields ds formula).map Prod.fst).Nodup := by
  cases ds <;> simp [settingsFields, listField]

theorem ofDoc_settings (ps : List (Grouped × Nat)) (formula : String) : Api.Config.ofDoc (normal "AstLookupConfig"
      (.obj (settingsFields (ps.map fun p => .obj (p.1.fields p.2)) formula))) =
      { apis := ps.map fun p => p.1.node p.2, formula } := by
  generalize hds : (ps.map fun p => Doc.obj (p.1.fields p.2)) = ds
  generalize hd : normal "AstLookupConfig" (.obj (settingsFields ds formula)) = d
  have hfield {k : String} {f : Message.Field} (hf : field? "AstLookupConfig" k = some f) :
      d.field? k = ((settingsFields ds formula).lookup k).bind (normalField f) := by
    rw [← hd, field?_normal hf (nodup_settingsFields ds formula)]
  have hflag {k : String} {f : Message.Field} (hf : field? "AstLookupConfig" k = some f)
      (hk : (settingsFields ds formula).lookup k = none) : flagOf d k = false := by
    rw [flagOf, hfield hf, hk]
    rfl
  have hformula : Api.textOf d "smt_formula" = formula := by
    rw [← hd]
    exact textOf_normal rfl (nodup_settingsFields ds formula) rfl (by cases ds <;> rfl)
  have hapis : listOf d "apis" = ds.map (normal "AstNode") := by
    rw [listOf, hfield rfl, ← normalItems_eq (f := ⟨1, "apis", .message "AstNode", true, false⟩) rfl]
    cases ds <;> rfl
  rw [Api.Config.ofDoc, hapis, hformula, hflag rfl (by cases ds <;> rfl),
    hflag rfl (by cases ds <;> rfl), hflag rfl (by cases ds <;> rfl), ← hds, map_map,
    map_map]
  congr 1
  exact map_congr_left fun p _ => p.1.ofDoc_message p.2

def settingsChars (ps : List (Grouped × Nat)) (formula : String) : List Char :=
  (ps.map fun p => p.1.items p.2).flatMap (blockChars "apis") ++ Line.chars ⟨"smt_formula", .text formula⟩

section Text

variable {ps : List (Grouped × Nat)} {formula : String} (hps : ∀ p ∈ ps, p.1.Valid)
  (hformula : ∀ c ∈ formula.toList, isPlain c = true)

include hps in
theorem isPlain_functions : ∀ is ∈ ps.map (fun p => p.1.items p.2), ∀ i ∈ is, i.isPlain = true := by
  rw [forall_mem_map]
  exact fun p hp => Grouped.isPlain_items (hps p hp) p.2

include hformula in
theorem isPlain_formula : Line.isPlain ⟨"smt_formula", .text formula⟩ = true :=
  Line.isPlain_of (by decide) (all_eq_true.2 hformula)

include hps hformula

theorem notMem_return_settings : '\r' ∉ settingsChars ps formula := by
  rw [settingsChars, mem_append, mem_flatMap, not_or]
  refine ⟨?_, Line.notMem_return (isPlain_formula hformula)⟩
  rintro ⟨es, hes, hmem⟩
  exact notMem_return_blockChars (by decide) (isPlain_functions hps es hes) hmem

theorem ofText?_settings : (ofText? "AstLookupConfig" (String.ofList (settingsChars ps formula))).map
        Api.Config.ofDoc =
      if ∀ p ∈ ps, p.2 < 2 ^ 31 then some { apis := ps.map fun p => p.1.node p.2, formula }
      else none := by
  have hput (ds : List Doc) : putLine "AstLookupConfig" (listField "apis" ds)
      ⟨"smt_formula", .text formula⟩ = some (settingsFields ds formula) := by
    rw [putLine_eq (f := ⟨3, "smt_formula", .text, false, false⟩) rfl (doc?_text rfl formula)]
    cases ds <;> rfl
  rw [settingsChars, ofText?_blocks "AstLookupConfig" "apis" (by decide)
    (isPlain_functions hps) (isPlain_formula hformula)]
  have hblocks : (ps.map fun p => p.1.items p.2).foldlM (putBlock "AstLookupConfig" "apis") [] =
      _ := foldlM_blocks hps []
  rw [hblocks, nil_append]
  split
  · rw [Option.bind_some, hput, Option.map_some, Option.map_some, ofDoc_settings]
  · rfl

end Text

end Vetting.Listing
