import Flavoring.Proofs.Expansion.Sites
import Flavoring.Proofs.Tree.Layout
import Flavoring.Proofs.Tree.Lowering
import Flavoring.Proofs.Tree.Walks

/-!
Declarations: which names a module declares, and what is taken for a reading of one.

The names of a concrete tree come in the same order in its lowered tree. A name that is declared
becomes a binding there, unless it is the variable of a loop through a collection.
-/

namespace Flavoring

namespace Outline

open JavaScript (Concrete Label Role)

/-! Where names are declared -/

/-- A construct declares what it has in a role: a name or a pattern. A loop through a collection does
so only with a keyword before its variable. -/
def declares (l : Label) (cs : List Concrete) (role : Option Role) : Bool :=
  match l.kind with
  | "variable_declarator" | "function_declaration" | "function_expression"
  | "generator_function_declaration" | "generator_function" | "class_declaration" | "class" =>
    role == some .name
  | "formal_parameters" => true
  | "arrow_function" | "catch_clause" => role == some .parameter
  | "for_in_statement" => role == some .left && cs.any (·.label.role == some .kind)
  | _ => false

/-- A declared pattern declares its part, which is neither a key nor a default. The parts in braces are
listed by their kinds: the grammar has no identifier among them, but a kind for a name there. -/
def passesOn (parent : String) (part : Label) : Bool :=
  match parent with
  | "array_pattern" | "rest_pattern" => true
  | "object_pattern" =>
    ["pair_pattern", "rest_pattern", "object_assignment_pattern",
      "shorthand_property_identifier_pattern"].contains part.kind
  | "assignment_pattern" => part.role == some .left
  | "object_assignment_pattern" =>
    part.role == some .left &&
      ["shorthand_property_identifier_pattern", "array_pattern", "object_pattern"].contains part.kind
  | "pair_pattern" => part.role == some .value
  | _ => false

/-- Whether a child is declared, of a construct that may be declared itself. -/
def declaresChild (l : Label) (cs : List Concrete) (declared : Bool) (child : Label) : Bool :=
  declares l cs child.role || declared && passesOn l.kind child

/-- A name in a concrete tree. -/
structure Name where
  label : Label
  /-- the kind of the construct that it is a child of -/
  parent : String
  declared : Bool
deriving DecidableEq, Repr

/-- The variable of a loop through a collection that declares it. -/
def Name.isLoopVariable (n : Name) : Bool :=
  n.declared && n.parent == "for_in_statement" && n.label.kind == "identifier"

/-- The kind of a name in the braces of a pattern. -/
def shorthandPattern : String := "shorthand_property_identifier_pattern"

mutual

/-- The names of a construct in the order of the text. What is lowered without being looked into has
none but itself, and a shorthand in an object literal declares nothing. -/
def names (parent : String) (declared : Bool) : Concrete → List Name
  | .node l cs =>
    if l.kind = "identifier" then [⟨l, parent, declared⟩]
    else if l.kind = "shorthand_property_identifier" then [⟨l, parent, false⟩]
    else if isClosed l cs then []
    else
      (if l.kind = shorthandPattern then [⟨l, parent, declared⟩] else [])
        ++ namesParts (isOpened l cs) l.kind (declaresChild l cs declared) cs

/-- The names of a node's children. -/
def namesParts (opened : Bool) (parent : String) (declared : Label → Bool) :
    List Concrete → List Name
  | [] => []
  | .node l cs :: more =>
    (if opened && l.role == some .arguments then
        namesParts false l.kind (declaresChild l cs false) cs
      else if l.standing == .named then names parent (declared l) (.node l cs) else [])
      ++ namesParts opened parent declared more

end

/-- The names of a module. -/
def moduleNames (statements : List Concrete) : List Name :=
  namesParts false "program" (fun _ => false) (statements.filter (·.kind != "hash_bang_line"))

section declared

variable {l child : Label} {cs : List Concrete} {declared : Bool}

theorem isBinding_of_declares {role : Option Role} (h : declares l cs role = true)
    (hkind : l.kind ≠ "for_in_statement") : isBinding l.kind role = true := by
  unfold declares at h
  split at h
  all_goals simp_all [isBinding]

theorem isBinding_of_passesOn {parent : String} (h : passesOn parent child = true)
    (hkind : child.kind = "identifier") : isBinding parent child.role = true := by
  unfold passesOn at h
  split at h
  all_goals simp_all [isBinding]

/-- An identifier that is declared is taken for a declaration unless it is the variable of a loop. -/
theorem isBinding_of_declaresChild (h : declaresChild l cs declared child = true)
    (hkind : child.kind = "identifier") :
    isBinding l.kind child.role = (l.kind != "for_in_statement") := by
  by_cases hloop : l.kind = "for_in_statement"
  · rw [hloop]
    rfl
  · rw [bne_iff_ne.mpr hloop]
    rcases Bool.or_eq_true _ _ |>.mp h with hdeclares | hpasses
    · exact isBinding_of_declares hdeclares hloop
    · exact isBinding_of_passesOn (Bool.and_eq_true _ _ |>.mp hpasses).2 hkind

end declared

/-! What is left of names -/

section residue

variable {parent : String} {l : Label} {cs : List Concrete}

theorem residue_of_identifier (h : l.kind = "identifier") : residue parent (.node l cs) =
    node (if isBinding parent l.role then .binding l.text else .identifier l.text)
      l.extent l.place [] := by
  simp [residue, isClosed, closed, h]

theorem residue_of_shorthand (h : l.kind = "shorthand_property_identifier") :
    residue parent (.node l cs) = node (.identifier l.text) l.extent l.place [] := by
  simp [residue, isClosed, closed, h]

/-- A closed construct that is no name is a literal or an import. -/
theorem residue_of_isClosed (h : isClosed l cs = true) (hidentifier : l.kind ≠ "identifier")
    (hshorthand : l.kind ≠ "shorthand_property_identifier") :
    (∃ literal, residue parent (.node l cs) = node (.literal literal) l.extent l.place []) ∨
      ∃ specifiers source, residue parent (.node l cs) =
        node (.importing specifiers) l.extent l.place [ofLiteral source] := by
  rw [residue, if_pos h]
  simp only [isClosed, Bool.or_eq_true, Bool.and_eq_true, List.contains_iff_mem, beq_iff_eq] at h
  rcases h with hmem | ⟨himport, hsource⟩
  · have hstring : l.kind = "string" := by simpa [hidentifier, hshorthand] using hmem
    left
    rw [closed, hstring]
    exact ⟨_, rfl⟩
  · obtain ⟨source, hsource⟩ := Option.isSome_iff_exists.mp hsource
    right
    rw [closed, himport, hsource]
    exact ⟨_, source, rfl⟩

theorem residue_of_open (parent : String) (h : isClosed l cs = false) :
    (l.kind = "parenthesized_expression" ∧
      residueParts (isOpened l cs) l.kind cs = [residue parent (.node l cs)]) ∨
    residue parent (.node l cs) =
      node (shapeOf l cs) l.extent l.place (residueParts (isOpened l cs) l.kind cs) := by
  rw [residue, if_neg (by simp [h])]
  split
  next hkind heq => exact .inl ⟨beq_iff_eq.mp hkind, heq⟩
  next => exact .inr rfl

end residue

end Outline

/-! Names of a tree -/

namespace Content

def isName : Content → Bool
  | identifier _ | binding _ => true
  | construct grammarType _ => grammarType == Outline.shorthandPattern
  | _ => false

theorem isName_genericContent (grammarType : String) (parts : List NodeId) :
    (Shape.genericContent grammarType parts).isName = (grammarType == Outline.shorthandPattern) := by
  unfold Shape.genericContent
  split
  next hstatement =>
    have hne : grammarType ≠ Outline.shorthandPattern := by
      rintro rfl
      revert hstatement
      decide
    exact (beq_false_of_ne hne).symm
  next => rfl

/-- What is no name by its shape may still be one by its grammatical type. -/
theorem isName_content {shape : Shape} (h : ∀ name, shape ≠ .identifier name ∧ shape ≠ .binding name)
    (parts : List NodeId) :
    (shape.content parts).isName = (shape.grammarType == Outline.shorthandPattern) := by
  unfold Shape.content
  split
  case h_5 name => exact absurd rfl (h name).1
  case h_6 name => exact absurd rfl (h name).2
  case h_8 => exact isName_genericContent _ _
  all_goals rfl

end Content

theorem Outline.shapeOf_spec (l : JavaScript.Label) (cs : List JavaScript.Concrete) :
    (shapeOf l cs).grammarType = l.kind ∧
      ∀ name, shapeOf l cs ≠ .identifier name ∧ shapeOf l cs ≠ .binding name := by
  unfold shapeOf
  split
  next hkind =>
    rw [hkind]
    split
    next => exact ⟨rfl, by simp⟩
    next => exact ⟨rfl, by simp⟩
  next hkind => exact ⟨hkind.symm, by simp⟩
  next hkind => exact ⟨hkind.symm, by simp⟩
  next => exact ⟨rfl, by simp⟩

namespace Tree

open Outline (Name)
open JavaScript (Concrete Label)

def isName (t : Tree) (id : NodeId) : Bool := (t.content? id).any Content.isName

/-- The nodes of a tree that are names, in the order of the text. -/
def names (t : Tree) : List NodeId := (t.descendants t.root).filter t.isName

/-- A node reads a name. -/
def Reads (t : Tree) (id : NodeId) : Prop := ∃ name, t.content? id = some (.identifier name)

/-- The node of a name. If the name is declared, the node reads it just if it is that of a loop
variable. -/
structure StandsFor (t : Tree) (id : NodeId) (name : Name) : Prop where
  extent_eq : t.extent id = name.label.extent
  place_eq : t.place id = name.label.place
  content : t.content? id = some (.identifier name.label.text) ∨
    t.content? id = some (.binding name.label.text) ∨
    t.content? id = some (.construct Outline.shorthandPattern (t.parts id))
  reads_iff : name.declared = true → (t.Reads id ↔ name.isLoopVariable = true)

variable {T : Tree} {source : String} {id : NodeId} {shape : Shape} {extent : Extent} {place : Place}
  {parts os os' : List Outline} {ids : List NodeId}

/-- The nodes below one that stands for an outline. -/
theorem Represents.descendants (hT : T.Built source []) (hid : T.isLive id = true)
    (h : T.Represents id (.node shape extent place parts)) :
    T.extent id = extent ∧ T.place id = place ∧ T.content? id = some (shape.content (T.parts id)) ∧
      T.RepresentsAll (T.parts id) parts ∧ (∀ part ∈ T.parts id, T.isLive part = true) ∧
      T.descendants id = id :: (T.parts id).flatMap T.descendants := by
  rw [Represents] at h
  obtain ⟨-, hextent, hplace, ids, hcontent, hparts⟩ := h
  have hids : T.parts id = ids := by rw [parts_of_content? hcontent, Shape.children_content]
  rw [hids]
  refine ⟨hextent, hplace, hcontent, hparts, fun part hpart => ?_, ?_⟩
  · exact hT.isLive_of_lt (hT.part_lt_size (hids ▸ hpart))
  · rw [hT.descendants_eq hid, hids]

theorem RepresentsAll.nil (h : T.RepresentsAll ids []) : ids = [] := by
  cases ids with
  | nil => rfl
  | cons id ids => exact h.elim

theorem RepresentsAll.of_append (h : T.RepresentsAll ids (os ++ os')) :
    ∃ front back, ids = front ++ back ∧ T.RepresentsAll front os ∧ T.RepresentsAll back os' := by
  induction os generalizing ids with
  | nil => exact ⟨[], ids, rfl, trivial, h⟩
  | cons o os ih =>
    cases ids with
    | nil => exact h.elim
    | cons id ids =>
      obtain ⟨front, back, rfl, hfront, hback⟩ := ih h.2
      exact ⟨id :: front, back, rfl, ⟨h.1, hfront⟩, hback⟩

variable {parent : String} {declared : Bool} {l : Label} {cs : List Concrete}

theorem isName_of_content? {content : Content} (h : T.content? id = some content) :
    T.isName id = content.isName := by
  rw [isName, h, Option.any_some]

theorem Represents.filter_leaf (hT : T.Built source []) (hid : T.isLive id = true)
    (h : T.Represents id (.node shape extent place [])) :
    T.extent id = extent ∧ T.place id = place ∧ T.content? id = some (shape.content []) ∧
      (T.descendants id).filter T.isName = if (shape.content []).isName then [id] else [] := by
  obtain ⟨hextent, hplace, hcontent, hparts, -, hdescendants⟩ := h.descendants hT hid
  rw [hparts.nil] at hcontent hdescendants
  refine ⟨hextent, hplace, hcontent, ?_⟩
  rw [hdescendants, List.flatMap_nil, List.filter_cons, List.filter_nil, isName_of_content? hcontent]

theorem RepresentsAll.singleton {o : Outline} (h : T.RepresentsAll ids [o]) :
    ∃ id, ids = [id] ∧ T.Represents id o := by
  match ids, h with
  | [id], ⟨hid, _⟩ => exact ⟨id, rfl, hid⟩

theorem standsFor_identifier (hextent : T.extent id = l.extent) (hplace : T.place id = l.place)
    (hcontent : T.content? id = some ((if Outline.isBinding parent l.role then Shape.binding l.text
      else .identifier l.text).content [])) (hkind : l.kind = "identifier")
    (hdeclared : declared = true → Outline.isBinding parent l.role = (parent != "for_in_statement")) :
    T.StandsFor id ⟨l, parent, declared⟩ := by
  refine ⟨hextent, hplace, ?_, ?_⟩
  · rw [hcontent]
    split
    next => exact .inr (.inl rfl)
    next => exact .inl rfl
  · rintro rfl
    rw [hdeclared rfl] at hcontent
    by_cases hloop : parent = "for_in_statement"
    · simp [Reads, hcontent, Name.isLoopVariable, hkind, hloop, Shape.content]
    · simp [Reads, hcontent, Name.isLoopVariable, hloop, Shape.content]

theorem standsFor_shorthandPattern (hextent : T.extent id = l.extent)
    (hplace : T.place id = l.place)
    (hcontent : T.content? id = some (.construct Outline.shorthandPattern (T.parts id)))
    (hkind : l.kind = Outline.shorthandPattern) : T.StandsFor id ⟨l, parent, declared⟩ := by
  refine ⟨hextent, hplace, .inr (.inr hcontent), fun _ => ?_⟩
  simp [Reads, hcontent, Name.isLoopVariable, hkind, Outline.shorthandPattern]

theorem filter_of_isClosed (hT : T.Built source []) (hid : T.isLive id = true)
    (h : T.Represents id (Outline.residue parent (.node l cs))) (hclosed : Outline.isClosed l cs = true)
    (hidentifier : l.kind ≠ "identifier") (hshorthand : l.kind ≠ "shorthand_property_identifier") :
    (T.descendants id).filter T.isName = [] := by
  rcases Outline.residue_of_isClosed hclosed hidentifier hshorthand with
    ⟨literal, heq⟩ | ⟨specifiers, source, heq⟩
  · rw [heq] at h
    exact (h.filter_leaf hT hid).2.2.2
  · rw [heq] at h
    obtain ⟨-, -, hcontent, hparts, hlive, hdescendants⟩ := h.descendants hT hid
    obtain ⟨part, hpart, hsource⟩ := hparts.singleton
    rw [hpart] at hcontent hlive hdescendants
    have hleaf := (hsource.filter_leaf hT (hlive part List.mem_cons_self)).2.2.2
    rw [hdescendants, List.flatMap_singleton, List.filter_cons_of_neg, hleaf]
    · rfl
    · rw [isName_of_content? hcontent]
      exact Bool.false_ne_true

mutual

theorem names_of_residue (hT : T.Built source []) {parent : String} {declared : Bool} {id : NodeId} :
    (c : Concrete) → (declared = true → c.kind = "identifier" →
      Outline.isBinding parent c.label.role = (parent != "for_in_statement")) →
    T.isLive id = true → T.Represents id (Outline.residue parent c) →
    List.Forall₂ (fun name id => T.StandsFor id name) (Outline.names parent declared c)
      ((T.descendants id).filter T.isName)
  | .node l cs => by
    intro hdeclared hid h
    rw [Outline.names]
    by_cases hidentifier : l.kind = "identifier"
    · rw [Outline.residue_of_identifier hidentifier] at h
      obtain ⟨hextent, hplace, hcontent, hfilter⟩ := h.filter_leaf hT hid
      rw [if_pos hidentifier, hfilter, if_pos (by split <;> rfl)]
      exact .cons (standsFor_identifier hextent hplace hcontent hidentifier
        (hdeclared · hidentifier)) .nil
    rw [if_neg hidentifier]
    by_cases hshorthand : l.kind = "shorthand_property_identifier"
    · rw [Outline.residue_of_shorthand hshorthand] at h
      obtain ⟨hextent, hplace, hcontent, hfilter⟩ := h.filter_leaf hT hid
      rw [if_pos hshorthand, hfilter]
      exact .cons ⟨hextent, hplace, .inl hcontent, nofun⟩ .nil
    rw [if_neg hshorthand]
    by_cases hclosed : Outline.isClosed l cs = true
    · rw [if_pos hclosed, filter_of_isClosed hT hid h hclosed hidentifier hshorthand]
      exact .nil
    rw [if_neg hclosed]
    rw [Bool.not_eq_true] at hclosed
    have hinner : ∀ child, Outline.declaresChild l cs declared child = true →
        child.kind = "identifier" → _ := fun child => Outline.isBinding_of_declaresChild
    rcases Outline.residue_of_open parent hclosed with ⟨hkind, hparts⟩ | hnode
    · -- parentheses have no node, and what is in them has the only one
      have hall : T.RepresentsAll [id] (Outline.residueParts (Outline.isOpened l cs) l.kind cs) := by
        rw [hparts]
        exact ⟨h, trivial⟩
      have hnames := names_of_residueParts hT cs hinner (List.forall_mem_singleton.mpr hid) hall
      rw [List.flatMap_singleton] at hnames
      rw [if_neg (by rw [hkind]; decide)]
      exact hnames
    · rw [hnode] at h
      obtain ⟨hextent, hplace, hcontent, hparts, hlive, hdescendants⟩ := h.descendants hT hid
      -- it is a name itself only as a shorthand in a pattern
      obtain ⟨htype, hshape⟩ := Outline.shapeOf_spec l cs
      have hname : T.isName id = (l.kind == Outline.shorthandPattern) := by
        rw [isName_of_content? hcontent, Content.isName_content hshape, htype]
      have hnames := names_of_residueParts hT cs hinner hlive hparts
      rw [hdescendants]
      by_cases hpattern : l.kind = Outline.shorthandPattern
      · have hconstruct : (Outline.shapeOf l cs).content (T.parts id) =
            .construct Outline.shorthandPattern (T.parts id) := by
          simp [Outline.shapeOf, hpattern, Outline.shorthandPattern, Shape.content,
            Shape.genericContent, Shape.grammarType, Shape.statementTypes]
        rw [if_pos hpattern, List.filter_cons_of_pos (by simp [hname, hpattern]), List.singleton_append]
        exact .cons (standsFor_shorthandPattern hextent hplace (hconstruct ▸ hcontent) hpattern) hnames
      · rw [if_neg hpattern, List.filter_cons_of_neg (by simp [hname, hpattern])]
        exact hnames

theorem names_of_residueParts (hT : T.Built source []) {opened : Bool} {parent : String}
    {declared : Label → Bool} {ids : List NodeId} : (cs : List Concrete) →
    (∀ child, declared child = true → child.kind = "identifier" →
      Outline.isBinding parent child.role = (parent != "for_in_statement")) →
    (∀ id ∈ ids, T.isLive id = true) →
    T.RepresentsAll ids (Outline.residueParts opened parent cs) →
    List.Forall₂ (fun name id => T.StandsFor id name) (Outline.namesParts opened parent declared cs)
      ((ids.flatMap T.descendants).filter T.isName)
  | [] => by
    intro hdeclared hids h
    rw [Outline.residueParts] at h
    rw [Outline.namesParts, h.nil]
    exact .nil
  | .node l cs :: more => by
    intro hdeclared hids h
    rw [Outline.residueParts] at h
    obtain ⟨front, back, rfl, hfront, hback⟩ := h.of_append
    rw [List.forall_mem_append] at hids
    rw [Outline.namesParts, List.flatMap_append, List.filter_append]
    refine List.rel_append ?_ (names_of_residueParts hT more hdeclared hids.2 hback)
    split
    next hopened =>
      -- brackets have no node either, but they declare nothing of what is in them
      rw [if_pos hopened] at hfront
      exact names_of_residueParts hT cs
        (fun child => Outline.isBinding_of_declaresChild) hids.1 hfront
    next hopened =>
      rw [if_neg hopened] at hfront
      split
      next hnamed =>
        rw [if_pos hnamed] at hfront
        obtain ⟨first, rfl, hfirst⟩ := hfront.singleton
        rw [List.flatMap_singleton]
        exact names_of_residue hT (.node l cs) (hdeclared l) (hids.1 first List.mem_cons_self) hfirst
      next hnamed =>
        rw [if_neg hnamed] at hfront
        rw [hfront.nil]
        exact .nil

end

theorem lower_eq_ok {statements : List Concrete} (h : lower source statements = .ok T) :
    T = ofOutlines source (Outline.residueModule statements) := by
  rw [lower, Outline.ofModule_eq, Outline.outcome] at h
  cases hdeep : (Outline.moduleVisits statements).find? Outline.Visit.isTooDeep with
  | some v =>
    rw [hdeep] at h
    cases h
  | none =>
    rw [hdeep] at h
    exact (Except.ok.inj h).symm

theorem standsFor_names {statements : List Concrete} (h : lower source statements = .ok T) :
    List.Forall₂ (fun name id => T.StandsFor id name) (Outline.moduleNames statements) T.names := by
  rw [lower_eq_ok h]
  obtain ⟨hT, hall⟩ := built_ofOutlines source (Outline.residueModule statements)
  generalize ofOutlines source (Outline.residueModule statements) = T at hT hall
  obtain ⟨body, hbody⟩ := hT.program
  have hroot : T.isName T.root = false := isName_of_content? hbody
  rw [names, hT.descendants_eq hT.root_isLive, List.filter_cons_of_neg (by simp [hroot]),
    hT.parts_root]
  exact names_of_residueParts hT _ nofun (fun id => hT.isLive_of_mem_statements) hall

end Tree

namespace Expansion

open Flavoring.JavaScript (Concrete)
open Flavoring.Outline (moduleNames)
open Flavoring.Tree (lower)

/-- The names of a module are those of its tree, in the same order, and one that is declared is read
in the tree just if it is the variable of a loop. So no reference is declared but as such a
variable. -/
theorem declared_names_lowered {T : Tree} {source : String} {statements : List Concrete}
    (h : lower source statements = .ok T) :
    List.Forall₂ (fun name id => T.StandsFor id name) (moduleNames statements) T.names ∧
    ∀ markerModule imported, ∀ site ∈ (References.collect T markerModule).get imported,
      site ∈ T.names ∧ ∀ name, (name, site) ∈ (moduleNames statements).zip T.names →
        name.declared = true → name.isLoopVariable = true := by
  have hnames := Tree.standsFor_names h
  refine ⟨hnames, fun markerModule imported site hsite => ?_⟩
  have hT : T.Linked [] := by
    rw [Tree.lower_eq_ok h]
    exact (Tree.built_ofOutlines source _).1.toLinked
  have hreads := References.content?_of_mem_get hsite
  constructor
  · obtain ⟨read, hread⟩ := hreads
    have hname : T.isName site = true := Tree.isName_of_content? hread
    have hlive := hT.mem_descendants_iff.mpr (References.isLive_of_mem_get hT hsite)
    exact List.mem_filter.mpr ⟨hlive, hname⟩
  · intro name hpair hdeclared
    have hstands := (List.forall₂_iff_zip.mp hnames).2 hpair
    exact (hstands.reads_iff hdeclared).mp hreads

/-- An imported name is declared again in a parameter and by a loop. Only a default and what the loop
runs through read it. -/
theorem declared_names_lowered_of_patterns :
    let text := "import fl from 'flavors.macro';\nfunction f(\x7b fl, a: [b = fl] \x7d) \x7b\x7d\n" ++
      "for (const [fl] of fl) \x7b\x7d\n"
    ∃ statements T, JavaScript.parse? text = some statements ∧ lower text statements = .ok T ∧
      List.Forall₂ (fun name id => T.StandsFor id name) (moduleNames statements) T.names ∧
      (moduleNames statements).map (fun name => (name.label.text, name.declared)) =
        [("f", true), ("fl", true), ("b", true), ("fl", false), ("fl", true), ("fl", false)] ∧
      ((References.collect T "flavors.macro").get "default").length = 2 := by
  intro text
  have hcheck : (JavaScript.parse? text).any (fun statements =>
      decide ((moduleNames statements).map (fun name => (name.label.text, name.declared)) =
        [("f", true), ("fl", true), ("b", true), ("fl", false), ("fl", true), ("fl", false)]) &&
      (lower text statements).toOption.any fun T =>
        decide (((References.collect T "flavors.macro").get "default").length = 2)) = true := by
    decide +kernel
  obtain ⟨statements, hparse, hcheck⟩ := (Option.any_eq_true _ _).mp hcheck
  obtain ⟨hnames, hcheck⟩ := Bool.and_eq_true _ _ |>.mp hcheck
  obtain ⟨T, hT, hsites⟩ := Tree.exists_ok_of_any _ hcheck
  exact ⟨statements, T, hparse, hT, (declared_names_lowered hT).1, of_decide_eq_true hnames,
    of_decide_eq_true hsites⟩

/-- The variable that a loop declares is collected as a reading of the imported name. -/
theorem loop_variable_collected :
    let text := "import fl from \"flavors.macro\";\nfor (const fl of xs) \x7b\x7d\n"
    ∃ statements T, JavaScript.parse? text = some statements ∧ lower text statements = .ok T ∧
      ∃ name ∈ moduleNames statements, name.declared = true ∧
        ∃ site ∈ (References.collect T "flavors.macro").get "default",
          (name, site) ∈ (moduleNames statements).zip T.names ∧
            T.content? site = some (.identifier "fl") := by
  intro text
  have hcheck : (JavaScript.parse? text).any (fun statements =>
      (lower text statements).toOption.any fun T =>
        (moduleNames statements).any fun name => name.declared &&
          ((References.collect T "flavors.macro").get "default").any fun site =>
            decide ((name, site) ∈ (moduleNames statements).zip T.names ∧
              T.content? site = some (.identifier "fl"))) = true := by
    decide +kernel
  obtain ⟨statements, hparse, hcheck⟩ := (Option.any_eq_true _ _).mp hcheck
  obtain ⟨T, hT, hcheck⟩ := Tree.exists_ok_of_any _ hcheck
  obtain ⟨name, hname, hcheck⟩ := List.any_eq_true.mp hcheck
  obtain ⟨hdeclared, hcheck⟩ := Bool.and_eq_true _ _ |>.mp hcheck
  obtain ⟨site, hsite, hcheck⟩ := List.any_eq_true.mp hcheck
  exact ⟨statements, T, hparse, hT, name, hname, hdeclared, site, hsite, of_decide_eq_true hcheck⟩

end Expansion

end Flavoring
