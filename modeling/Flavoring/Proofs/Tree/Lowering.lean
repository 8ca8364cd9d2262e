import Flavoring.Proofs.Tree.Building

/-!
Lowering: the tree of a module is its concrete tree with some nodes erased, unless a construct is
nested too deep.

What is left of a concrete tree and how deep its constructs are nested are each told by a recursion
of their own, without failures and without numbers of nodes. The outlines of a module agree with the
two of them, and its tree holds the outlines and nothing else.
-/

namespace Flavoring

namespace Outline

open JavaScript (Concrete Label)

/-! What is left -/

/-- Nothing below the construct is looked into: names, string literals and imports that name their
module by one. -/
def isClosed (l : Label) (cs : List Concrete) : Bool :=
  ["identifier", "shorthand_property_identifier", "string"].contains l.kind
    || l.kind == "import_statement" && (source? cs).isSome

/-- What is left of such a construct. Of an import only its source is. -/
def closed (parent : String) (l : Label) (cs : List Concrete) : Outline :=
  match l.kind with
  | "import_statement" =>
    node (.importing (specifiers cs)) l.extent l.place ((source? cs).map ofLiteral).toList
  | "string" => node (.literal (.ofText l.text)) l.extent l.place []
  | "identifier" =>
    node (if isBinding parent l.role then .binding l.text else .identifier l.text) l.extent l.place []
  | _ => node (.identifier l.text) l.extent l.place []

/-- The brackets around the arguments of a construct are erased. -/
def isOpened (l : Label) (cs : List Concrete) : Bool :=
  l.kind == "call_expression" && isPlainCall cs

def shapeOf (l : Label) (cs : List Concrete) : Shape :=
  match l.kind with
  | "call_expression" => if isPlainCall cs then .call else .generic l.kind
  | "statement_block" => .block
  | "expression_statement" => .expression
  | kind => .generic kind

mutual

/-- What is left of a construct: it keeps its extent and place, and its parts are what is left of the
constructs below it. Parentheses around a single construct are erased. -/
def residue (parent : String) : Concrete → Outline
  | .node l cs =>
    if isClosed l cs then closed parent l cs
    else
      match l.kind == "parenthesized_expression", residueParts (isOpened l cs) l.kind cs with
      | true, [inside] => inside
      | _, parts => node (shapeOf l cs) l.extent l.place parts

/-- What is left of a node's children: neither comments nor punctuation, and of the brackets around
arguments, if they are `opened`, what is left within them. -/
def residueParts (opened : Bool) (parent : String) : List Concrete → List Outline
  | [] => []
  | .node l cs :: more =>
    (if opened && l.role == some .arguments then residueParts false l.kind cs
      else if l.standing == .named then [residue parent (.node l cs)] else [])
      ++ residueParts opened parent more

end

/-- What is left of a module. -/
def residueModule (statements : List Concrete) : List Outline :=
  residueParts false "program" (statements.filter (·.kind != "hash_bang_line"))

/-! Depths -/

/-- A construct that is lowered, by its place and how deep it is nested. -/
structure Visit where
  depth : Nat
  place : Place
deriving DecidableEq, Repr

def Visit.isTooDeep (v : Visit) : Bool := decide (maxDepth < v.depth)

mutual

/-- The construct at a depth and those below it, in the order of the text. Constructs are one level
deeper than what they are part of, also in parentheses. -/
def visits (depth : Nat) : Concrete → List Visit
  | .node l cs =>
    ⟨depth, l.place⟩ :: if isClosed l cs then [] else visitsParts (isOpened l cs) depth cs

/-- The constructs among and below the children of a node at a depth. Brackets that are `opened` count
as a level. -/
def visitsParts (opened : Bool) (depth : Nat) : List Concrete → List Visit
  | [] => []
  | .node l cs :: more =>
    (if opened && l.role == some .arguments then visitsParts false (depth + 1) cs
      else if l.standing == .named then visits (depth + 1) (.node l cs) else [])
      ++ visitsParts opened depth more

end

/-- The constructs of a module. -/
def moduleVisits (statements : List Concrete) : List Visit :=
  visitsParts false 0 (statements.filter (·.kind != "hash_bang_line"))

/-! Outcomes -/

variable {α β : Type} {vs ws : List Visit} {a : α} {b : β} {f : α → Except Place β}

/-- A result, unless one of the constructs visited is nested too deep. The first that is fails. -/
def outcome (vs : List Visit) (a : α) : Except Place α :=
  match vs.find? Visit.isTooDeep with
  | some v => .error v.place
  | none => .ok a

theorem outcome_nil (a : α) : outcome [] a = .ok a := rfl

theorem outcome_cons_of_le {depth : Nat} (h : ¬ maxDepth < depth) (place : Place) (vs : List Visit)
    (a : α) : outcome (⟨depth, place⟩ :: vs) a = outcome vs a := by
  rw [outcome, List.find?_cons_of_neg (by simpa [Visit.isTooDeep] using h), outcome]

theorem outcome_cons_of_lt {depth : Nat} (h : maxDepth < depth) (place : Place) (vs : List Visit)
    (a : α) : outcome (⟨depth, place⟩ :: vs) a = .error place := by
  rw [outcome, List.find?_cons_of_pos (by simpa [Visit.isTooDeep] using h)]

theorem outcome_bind (h : f a = outcome ws b) : (outcome vs a >>= f) = outcome (vs ++ ws) b := by
  unfold outcome at h ⊢
  rw [List.find?_append]
  cases vs.find? Visit.isTooDeep with
  | some v => rfl
  | none => exact h

theorem outcome_bind_ok (h : f a = .ok b) : (outcome vs a >>= f) = outcome vs b := by
  have hnone : f a = outcome [] b := h
  rw [outcome_bind hnone, List.append_nil]

section cases

variable {parent : String} {l : Label} {cs : List Concrete}

theorem residue_of_not_isClosed (h : isClosed l cs = false)
    (hkind : l.kind ≠ "parenthesized_expression") :
    residue parent (.node l cs) =
      node (shapeOf l cs) l.extent l.place (residueParts (isOpened l cs) l.kind cs) := by
  rw [residue, if_neg (by simp [h]), beq_false_of_ne hkind]

theorem outcome_of_isClosed {depth : Nat} (h : isClosed l cs = true) :
    outcome (if isClosed l cs then [] else visitsParts (isOpened l cs) depth cs)
      (residue parent (.node l cs)) = .ok (closed parent l cs) := by
  rw [if_pos h, outcome_nil, residue, if_pos h]

-- A construct with parts of its own is too deep if one of these is.
theorem outcome_of_not_isClosed {depth : Nat} {shape : Shape} {opened : Bool}
    (hparts : ofParts opened depth l.kind cs =
      outcome (visitsParts opened depth cs) (residueParts opened l.kind cs))
    (h : isClosed l cs = false) (hkind : l.kind ≠ "parenthesized_expression")
    (hopened : isOpened l cs = opened) (hshape : shapeOf l cs = shape) :
    (do return node shape l.extent l.place (← ofParts opened depth l.kind cs)) =
      outcome (if isClosed l cs then [] else visitsParts (isOpened l cs) depth cs)
        (residue parent (.node l cs)) := by
  rw [residue_of_not_isClosed h hkind, if_neg (by simp [h]), hopened, hshape, hparts]
  exact outcome_bind_ok rfl

theorem outcome_parenthesized {depth : Nat}
    (hparts : ofParts false depth l.kind cs =
      outcome (visitsParts false depth cs) (residueParts false l.kind cs))
    (hkind : l.kind = "parenthesized_expression") :
    (do
      match ← ofParts false depth l.kind cs with
      | [inside] => return inside
      | parts => return node (.generic l.kind) l.extent l.place parts) =
      outcome (if isClosed l cs then [] else visitsParts (isOpened l cs) depth cs)
        (residue parent (.node l cs)) := by
  have hclosed : isClosed l cs = false := by simp [isClosed, hkind]
  have hopened : isOpened l cs = false := by simp [isOpened, hkind]
  have hshape : shapeOf l cs = .generic l.kind := by simp [shapeOf, hkind]
  rw [residue, if_neg (by simp [hclosed]), if_neg (by simp [hclosed]), hopened, hshape,
    beq_iff_eq.mpr hkind, hparts]
  refine outcome_bind_ok ?_
  rcases residueParts false l.kind cs with - | ⟨inside, - | ⟨second, rest⟩⟩ <;> rfl

end cases

mutual

theorem ofConcrete_eq (depth : Nat) (parent : String) : (c : Concrete) →
    ofConcrete depth parent c = outcome (visits depth c) (residue parent c)
  | .node l cs => by
    have hparts (opened : Bool) := ofParts_eq opened depth l.kind cs
    unfold ofConcrete visits
    by_cases hdepth : maxDepth < depth
    · rw [if_pos hdepth, outcome_cons_of_lt hdepth]
      rfl
    · rw [if_neg hdepth, outcome_cons_of_le hdepth]
      dsimp only
      split
      · next hkind =>
        cases hsource : source? cs with
        | some source =>
          rw [outcome_of_isClosed (by simp [isClosed, hkind, hsource]), closed, hkind, hsource]
          rfl
        | none =>
          exact outcome_of_not_isClosed (hparts false) (by simp [isClosed, hkind, hsource])
            (by simp [hkind]) (by simp [isOpened, hkind]) (by simp [shapeOf, hkind])
      · next hkind =>
        exact outcome_of_not_isClosed (hparts _) (by simp [isClosed, hkind]) (by simp [hkind])
          (by simp [isOpened, hkind]) (by simp [shapeOf, hkind])
      · next hkind => exact outcome_parenthesized (hparts false) hkind
      · next hkind =>
        exact outcome_of_not_isClosed (hparts false) (by simp [isClosed, hkind]) (by simp [hkind])
          (by simp [isOpened, hkind]) (by simp [shapeOf, hkind])
      · next hkind =>
        exact outcome_of_not_isClosed (hparts false) (by simp [isClosed, hkind]) (by simp [hkind])
          (by simp [isOpened, hkind]) (by simp [shapeOf, hkind])
      · next hkind =>
        rw [outcome_of_isClosed (by simp [isClosed, hkind]), closed, hkind]
        rfl
      · next hkind =>
        rw [outcome_of_isClosed (by simp [isClosed, hkind]), closed, hkind]
        rfl
      · next hkind =>
        rw [outcome_of_isClosed (by simp [isClosed, hkind]), closed, hkind]
        rfl
      · exact outcome_of_not_isClosed (hparts false) (by simp_all [isClosed]) ‹_›
          (by simp_all [isOpened]) (by simp_all [shapeOf])

theorem ofParts_eq (opened : Bool) (depth : Nat) (parent : String) : (cs : List Concrete) →
    ofParts opened depth parent cs =
      outcome (visitsParts opened depth cs) (residueParts opened parent cs)
  | [] => by
    rw [ofParts, visitsParts, residueParts]
    rfl
  | .node l cs :: more => by
    have hmore := ofParts_eq opened depth parent more
    rw [ofParts, visitsParts, residueParts]
    split
    · rw [ofParts_eq false (depth + 1) l.kind cs]
      refine outcome_bind ?_
      rw [hmore]
      exact outcome_bind_ok rfl
    · split
      · rw [ofConcrete_eq (depth + 1) parent (.node l cs)]
        refine outcome_bind ?_
        rw [hmore]
        exact outcome_bind_ok rfl
      · exact hmore

end

theorem ofModule_eq (statements : List Concrete) :
    ofModule statements = outcome (moduleVisits statements) (residueModule statements) :=
  ofParts_eq false 0 "program" _

end Outline

namespace Tree

open JavaScript (Concrete)

variable {T : Tree} {source : String} {statements : List Concrete}

/-- The tree of a module that was read as these statements. -/
def lower (source : String) (statements : List Concrete) : Except Rejection Tree :=
  match Outline.ofModule statements with
  | .error place => .error (.tooDeep place)
  | .ok outlines => .ok (ofOutlines source outlines)

theorem parse_eq_lower (h : JavaScript.parse? source = some statements) :
    parse source = lower source statements := by
  unfold parse
  rw [h]
  rfl

/-- The tree holds these outlines as its statements and nothing besides. Parts have smaller numbers
than what they are part of, but for the program, which is the first node. -/
structure ReadsAs (T : Tree) (outlines : List Outline) : Prop where
  root_eq : T.root = 0
  program : T.content? T.root = some (.program T.statements)
  statements : T.RepresentsAll T.statements outlines
  reachable {id : NodeId} : id < T.nodes.size → T.Reachable id
  part_lt {owner part : NodeId} : part ∈ T.parts owner → owner ≠ T.root → part < owner

theorem readsAs_ofOutlines (source : String) (outlines : List Outline) :
    (ofOutlines source outlines).ReadsAs outlines := by
  obtain ⟨hbuilt, hall⟩ := built_ofOutlines source outlines
  constructor
  case root_eq => exact hbuilt.root_eq
  case program =>
    obtain ⟨body, hbody⟩ := hbuilt.program
    rw [statements_of_content? hbody, hbody]
  case statements => exact hall
  case reachable => exact fun hid => hbuilt.toLinked.reachable_of_isLive (hbuilt.isLive_of_lt hid)
  case part_lt =>
    intro owner part hmem hne
    rw [hbuilt.root_eq] at hne
    exact hbuilt.part_lt hmem (Nat.pos_of_ne_zero hne)

open Outline (maxDepth moduleVisits residueModule)

/-- Lowering against its specification, for every concrete tree. It fails just if a construct is
nested too deep, at the first that is, and else the tree reads as what is left of the module. -/
theorem lower_refines_erasure (source : String) (statements : List Concrete) :
    ((∃ rejection, lower source statements = .error rejection) ↔
      ∃ v ∈ moduleVisits statements, maxDepth < v.depth) ∧
    (∀ v, (moduleVisits statements).find? Outline.Visit.isTooDeep = some v →
      lower source statements = .error (.tooDeep v.place)) ∧
    (∀ T, lower source statements = .ok T → T.ReadsAs (residueModule statements)) ∧
    (JavaScript.parse? source = some statements → parse source = lower source statements) := by
  have hmodule := Outline.ofModule_eq statements
  rw [Outline.outcome] at hmodule
  cases hfirst : (moduleVisits statements).find? Outline.Visit.isTooDeep with
  | some v =>
    have hlower : lower source statements = .error (.tooDeep v.place) := by
      rw [lower, hmodule, hfirst]
    have hdeep : v.isTooDeep = true := List.find?_some hfirst
    refine ⟨iff_of_true ⟨_, hlower⟩ ⟨v, List.mem_of_find?_eq_some hfirst, of_decide_eq_true hdeep⟩,
      ?_, ?_, parse_eq_lower⟩
    · intro w hw
      rw [hlower, Option.some.inj hw]
    · intro T hT
      rw [hlower] at hT
      cases hT
  | none =>
    have hlower : lower source statements = .ok (ofOutlines source (residueModule statements)) := by
      rw [lower, hmodule, hfirst]
    refine ⟨iff_of_false ?_ ?_, nofun, ?_, parse_eq_lower⟩
    · rintro ⟨rejection, hrejection⟩
      rw [hlower] at hrejection
      cases hrejection
    · rintro ⟨v, hv, hdeep⟩
      exact List.find?_eq_none.mp hfirst v hv (decide_eq_true hdeep)
    · intro T hT
      rw [hlower] at hT
      cases hT
      exact readsAs_ofOutlines source _

/-- Its statement and the parentheses take up all levels, so the name within is one too deep. -/
theorem name_in_parentheses_too_deep :
    lower "" [.node ⟨"expression_statement", .named, none, ⟨0, 1023⟩, ⟨1, 1⟩, ""⟩
      [(List.range 511).foldr (fun i c =>
          .node ⟨"parenthesized_expression", .named, none, ⟨i, 1023 - i⟩, ⟨1, i + 1⟩, ""⟩ [c])
        (.node ⟨"identifier", .named, none, ⟨511, 512⟩, ⟨1, 512⟩, "x"⟩ [])]] =
      .error (.tooDeep ⟨1, 512⟩) :=
  (lower_refines_erasure _ _).2.1 ⟨513, ⟨1, 512⟩⟩ (by decide +kernel)

/-- With its clause an import loses its attribute, which is a construct of another kind. The program is
numbered before its statement. -/
theorem import_attribute_without_node :
    ∃ statements T,
      JavaScript.parse? "import a from 'b' with \x7btype: 'json'\x7d;" = some statements ∧
      parse "import a from 'b' with \x7btype: 'json'\x7d;" = .ok T ∧
      (∃ statement ∈ statements, ∃ child ∈ statement.constructs, child.kind = "import_attribute" ∧
        ∀ id < T.nodes.size, T.extent id ≠ child.label.extent) ∧
      ∃ part ∈ T.parts T.root, T.root < part := by
  have hcheck : (JavaScript.parse? "import a from 'b' with \x7btype: 'json'\x7d;").any
      (fun statements => (lower "import a from 'b' with \x7btype: 'json'\x7d;" statements).toOption.any
        fun T => statements.any (fun statement => statement.constructs.any fun child =>
            child.kind == "import_attribute" &&
              (List.range T.nodes.size).all fun id => T.extent id != child.label.extent)
          && (T.parts T.root).any fun part => decide (T.root < part)) = true := by
    decide +kernel
  obtain ⟨statements, hparse, hcheck⟩ := (Option.any_eq_true _ _).mp hcheck
  obtain ⟨T, hT, hcheck⟩ := exists_ok_of_any _ hcheck
  simp only [Bool.and_eq_true, List.any_eq_true, List.all_eq_true, List.mem_range, beq_iff_eq,
    bne_iff_ne, decide_eq_true_eq] at hcheck
  exact ⟨statements, T, hparse, (parse_eq_lower hparse).trans hT, hcheck⟩

end Tree

end Flavoring
