import Flavoring.Tree.Decode
import Flavoring.Tree.Encode

/-!
Encoding: a tree is read back from its JSON value, whatever its nodes are, as long as its numbers are
of the sizes that they are read with.
-/

namespace Flavoring

/-! Numbers of these sizes -/

structure Place.Fits (p : Place) : Prop where
  line_lt : p.line < UInt32.size
  column_lt : p.column < UInt32.size

structure Extent.Fits (e : Extent) : Prop where
  start_lt : e.start < UInt64.size
  stop_lt : e.stop < UInt64.size

structure Node.Fits (n : Node) : Prop where
  children_lt : ∀ id ∈ n.content.children, id < UInt64.size
  parent_lt : ∀ id, n.parent = some id → id < UInt64.size
  place : n.place.Fits
  extent : n.extent.Fits

/-- The numbers of nodes and bytes have 64 bits, those of lines and columns 32. -/
structure Tree.Fits (t : Tree) : Prop where
  root_lt : t.root < UInt64.size
  nodes : ∀ node ∈ t.nodes, node.Fits

/-! Numbers and lists -/

theorem Json.toNat?_ofNat {bits n : Nat} (h : n < Nat.pow 2 bits) : (Json.ofNat n).toNat? bits = some n :=
  if_pos h

theorem mapM_map_eq_some {α β : Type} {read : β → Option α} {write : α → β} {list : List α}
    (h : ∀ a ∈ list, read (write a) = some a) : (list.map write).mapM read = some list := by
  induction list with
  | nil => rfl
  | cons a list ih =>
    rw [List.forall_mem_cons] at h
    rw [List.map_cons, List.mapM_cons, h.1, ih h.2]
    rfl

theorem NodeId.listOfJson?_idsToJson {ids : List NodeId} (h : ∀ id ∈ ids, id < UInt64.size) :
    NodeId.listOfJson? (Content.idsToJson ids) = some ids :=
  mapM_map_eq_some fun id hid => Json.toNat?_ofNat (h id hid)

theorem NodeId.toOption?_ofNat {id : NodeId} (h : id < UInt64.size) :
    (Json.ofNat id).toOption? NodeId.ofJson? = some (some id) :=
  congrArg (Option.map some) (Json.toNat?_ofNat h)

/-! What nodes are made of -/

theorem Literal.ofJson?_toJson (l : Literal) : Literal.ofJson? l.toJson = some l := by
  obtain ⟨value, raw⟩ := l
  cases raw with
  | none => rfl
  | some raw => rfl

theorem Specifier.ofJson?_toJson (s : Specifier) : Specifier.ofJson? s.toJson = some s := by
  cases s with
  | defaultImport localName => rfl
  | namespaceImport localName => rfl
  | namedImport imported localName => rfl

theorem Place.ofJson?_toJson {p : Place} (h : p.Fits) : Place.ofJson? p.toJson = some p := by
  have hline : (Json.ofNat p.line).toNat? 32 = some p.line := Json.toNat?_ofNat h.line_lt
  have hcolumn : (Json.ofNat p.column).toNat? 32 = some p.column := Json.toNat?_ofNat h.column_lt
  simp [Place.ofJson?, Place.toJson, Json.toRecord?, Json.field?, hline, hcolumn]

theorem Extent.ofJson?_toJson {e : Extent} (h : e.Fits) : Extent.ofJson? e.toJson = some e := by
  have hstart : (Json.ofNat e.start).toNat? 64 = some e.start := Json.toNat?_ofNat h.start_lt
  have hstop : (Json.ofNat e.stop).toNat? 64 = some e.stop := Json.toNat?_ofNat h.stop_lt
  simp [Extent.ofJson?, Extent.toJson, Json.toRecord?, Json.field?, hstart, hstop]

theorem Content.ofJson?_toJson {content : Content} (h : ∀ id ∈ content.children, id < UInt64.size) :
    Content.ofJson? content.toJson = some content := by
  cases content with
  | program body =>
    have hbody : NodeId.listOfJson? (idsToJson body) = some body := NodeId.listOfJson?_idsToJson h
    show (do return program (← NodeId.listOfJson? (idsToJson body))) = some (program body)
    rw [hbody]
    rfl
  | importDeclaration specifiers source =>
    have hsource : NodeId.ofJson? (.ofNat source) = some source :=
      Json.toNat?_ofNat (h source (List.mem_singleton.mpr rfl))
    have hspecifiers : (specifiers.map Specifier.toJson).mapM Specifier.ofJson? = some specifiers :=
      mapM_map_eq_some fun s _ => Specifier.ofJson?_toJson s
    show (do
      let specifiers ← (specifiers.map Specifier.toJson).mapM Specifier.ofJson?
      return importDeclaration specifiers (← NodeId.ofJson? (.ofNat source))) = _
    rw [hspecifiers, hsource]
    rfl
  | expressionStatement expression =>
    have hexpression : NodeId.ofJson? (.ofNat expression) = some expression :=
      Json.toNat?_ofNat (h expression (List.mem_singleton.mpr rfl))
    show (do return expressionStatement (← NodeId.ofJson? (.ofNat expression))) = _
    rw [hexpression]
    rfl
  | block body =>
    have hbody : NodeId.listOfJson? (idsToJson body) = some body := NodeId.listOfJson?_idsToJson h
    show (do return block (← NodeId.listOfJson? (idsToJson body))) = some (block body)
    rw [hbody]
    rfl
  | call callee arguments =>
    have hcallee : NodeId.ofJson? (.ofNat callee) = some callee :=
      Json.toNat?_ofNat (h callee List.mem_cons_self)
    have harguments : NodeId.listOfJson? (idsToJson arguments) = some arguments :=
      NodeId.listOfJson?_idsToJson fun id hid => h id (List.mem_cons_of_mem callee hid)
    show (do
      return call (← NodeId.ofJson? (.ofNat callee)) (← NodeId.listOfJson? (idsToJson arguments))) = _
    rw [hcallee, harguments]
    rfl
  | identifier name => rfl
  | binding name => rfl
  | literal l =>
    show (do return literal (← Literal.ofJson? l.toJson)) = some (literal l)
    rw [Literal.ofJson?_toJson]
    rfl
  | statement grammarType children =>
    have hchildren : NodeId.listOfJson? (idsToJson children) = some children :=
      NodeId.listOfJson?_idsToJson h
    show (do return statement grammarType (← NodeId.listOfJson? (idsToJson children))) =
      some (statement grammarType children)
    rw [hchildren]
    rfl
  | construct grammarType children =>
    have hchildren : NodeId.listOfJson? (idsToJson children) = some children :=
      NodeId.listOfJson?_idsToJson h
    show (do return construct grammarType (← NodeId.listOfJson? (idsToJson children))) =
      some (construct grammarType children)
    rw [hchildren]
    rfl

/-! Nodes and trees -/

theorem Node.ofJson?_toJson {n : Node} (h : n.Fits) : Node.ofJson? n.toJson = some n := by
  have hcontent := Content.ofJson?_toJson h.children_lt
  have hplace := Place.ofJson?_toJson h.place
  have hextent := Extent.ofJson?_toJson h.extent
  obtain ⟨content, parent, place, extent, removed⟩ := n
  cases parent with
  | none =>
    cases removed <;> simp [Node.ofJson?, toJson, Json.toRecord?, Json.field?, Json.optional?,
      Json.toOption?, Json.toBool?, hcontent, hplace, hextent]
  | some parent =>
    have hparent := NodeId.toOption?_ofNat (h.parent_lt parent rfl)
    cases removed <;> simp [Node.ofJson?, toJson, Json.toRecord?, Json.field?, Json.optional?,
      Json.toBool?, hcontent, hplace, hextent, hparent]

namespace Tree

theorem ofJson?_toJson {t : Tree} (h : t.Fits) :
    ofJson? t.toJson = some { nodes := t.nodes, root := t.root, source := "", edits := [] } := by
  have hroot : NodeId.ofJson? (.ofNat t.root) = some t.root := Json.toNat?_ofNat h.root_lt
  have hnodes : (t.nodes.toList.map Node.toJson).mapM Node.ofJson? = some t.nodes.toList :=
    mapM_map_eq_some fun node hnode => Node.ofJson?_toJson (h.nodes node (Array.mem_toList_iff.mp hnode))
  simp [ofJson?, toJson, Json.toRecord?, Json.field?, Json.toList?, hroot, hnodes]

/-- A tree's value is read back as the tree without its text and its edits, whether or not its nodes
make up a tree. Trees that differ in more than these two have different values. -/
theorem read_back_from_json {t : Tree} (h : t.Fits) :
    ofJson? t.toJson = some { nodes := t.nodes, root := t.root, source := "", edits := [] } ∧
      ∀ u : Tree, u.Fits → u.toJson = t.toJson → u.nodes = t.nodes ∧ u.root = t.root := by
  refine ⟨ofJson?_toJson h, fun u hu heq => ?_⟩
  have hsame := (ofJson?_toJson hu).symm.trans (heq ▸ ofJson?_toJson h)
  rw [Option.some.injEq, Tree.mk.injEq] at hsame
  exact ⟨hsame.1, hsame.2.1⟩

/-- Two nodes that are parts of each other, with numbers as large as they get. The root is no node. -/
theorem read_back_from_json_of_circle :
    let nodes : Array Node := #[
      { content := .call 1 [0, UInt64.size - 1], parent := some 1, place := ⟨UInt32.size - 1, 0⟩
        extent := ⟨UInt64.size - 1, 0⟩, removed := true },
      { content := .importDeclaration [.namedImport "" "Named", .namespaceImport "null"] 0 },
      { content := .literal { value := "null" }, parent := some (UInt64.size - 1) }]
    let t : Tree := { nodes, root := 7, source := "f()", edits := [⟨⟨0, 1⟩, "g"⟩] }
    t.Fits ∧ ofJson? t.toJson = some { nodes, root := 7, source := "", edits := [] } := by
  intro nodes t
  have ht : t.Fits := by
    refine ⟨by decide, fun node hnode => ?_⟩
    simp only [t, nodes, List.mem_toArray, List.mem_cons, List.not_mem_nil, or_false] at hnode
    rcases hnode with rfl | rfl | rfl
    all_goals
      constructor
      · decide
      · decide
      · exact ⟨by decide, by decide⟩
      · exact ⟨by decide, by decide⟩
  exact ⟨ht, (read_back_from_json ht).1⟩

end Tree

end Flavoring
