import Flavoring.Proofs.Tree.Building

/-! Reduction of concrete trees to outlines, case by case, and what follows for imports. -/

namespace Flavoring

namespace Outline

open JavaScript (Concrete Label)

/-- How a construct at a depth is reduced to its outline. -/
inductive Reduces (depth : Nat) (l : Label) (cs : List Concrete) : Outline → Prop
  | importing {source : Concrete} : source? cs = some source →
    Reduces depth l cs (node (.importing (specifiers cs)) l.extent l.place [ofLiteral source])
  | name {shape : Shape} : shape = .identifier l.text ∨ shape = .binding l.text →
    Reduces depth l cs (node shape l.extent l.place [])
  | literal : l.kind = "string" →
    Reduces depth l cs (node (.literal (.ofText l.text)) l.extent l.place [])
  | inside {o : Outline} : l.kind = "parenthesized_expression" →
    ofParts false depth l.kind cs = .ok [o] → Reduces depth l cs o
  | call {parts : List Outline} : l.kind = "call_expression" → isPlainCall cs = true →
    ofParts true depth l.kind cs = .ok parts →
    Reduces depth l cs (node .call l.extent l.place parts)
  | other {shape : Shape} {parts : List Outline} :
    shape = .block ∨ shape = .expression ∨ shape = .generic l.kind →
    ofParts false depth l.kind cs = .ok parts → Reduces depth l cs (node shape l.extent l.place parts)

variable {depth : Nat} {parent : String} {l : Label} {cs more : List Concrete} {o : Outline}
  {os : List Outline} {opened : Bool}

theorem eq_ok_of_bind {α β : Type} {x : Except Place α} {f : α → Except Place β} {b : β}
    (h : (x >>= f) = .ok b) : ∃ a, x = .ok a ∧ f a = .ok b := by
  cases x with
  | error place => cases h
  | ok a => exact ⟨a, rfl, h⟩

theorem reduces_of_ofConcrete (h : ofConcrete depth parent (.node l cs) = .ok o) :
    Reduces depth l cs o := by
  unfold ofConcrete at h
  by_cases hdepth : maxDepth < depth
  · rw [if_pos hdepth] at h
    cases h
  · rw [if_neg hdepth] at h
    dsimp only at h
    split at h
    · split at h
      · cases h
        exact .importing ‹_›
      · obtain ⟨parts, hparts, ho⟩ := eq_ok_of_bind h
        cases ho
        exact .other (Or.inr (Or.inr rfl)) hparts
    · obtain ⟨parts, hparts, ho⟩ := eq_ok_of_bind h
      cases ho
      cases hplain : isPlainCall cs with
      | true => exact .call ‹_› hplain (hplain ▸ hparts)
      | false => exact .other (Or.inr (Or.inr rfl)) (hplain ▸ hparts)
    · obtain ⟨parts, hparts, ho⟩ := eq_ok_of_bind h
      split at ho
      · cases ho
        exact .inside ‹_› hparts
      · cases ho
        exact .other (Or.inr (Or.inr rfl)) hparts
    · obtain ⟨parts, hparts, ho⟩ := eq_ok_of_bind h
      cases ho
      exact .other (Or.inl rfl) hparts
    · obtain ⟨parts, hparts, ho⟩ := eq_ok_of_bind h
      cases ho
      exact .other (Or.inr (Or.inl rfl)) hparts
    · cases h
      refine .name ?_
      split
      · exact Or.inr rfl
      · exact Or.inl rfl
    · cases h
      exact .name (Or.inl rfl)
    · cases h
      exact .literal ‹_›
    · obtain ⟨parts, hparts, ho⟩ := eq_ok_of_bind h
      cases ho
      exact .other (Or.inr (Or.inr rfl)) hparts

-- Brackets around arguments are opened, constructs are reduced, and all else is left out.
theorem ofParts_cons (h : ofParts opened depth parent (.node l cs :: more) = .ok os) :
    (opened = true ∧ l.role = some .arguments ∧ ∃ here rest,
      ofParts false (depth + 1) l.kind cs = .ok here ∧
      ofParts opened depth parent more = .ok rest ∧ os = here ++ rest) ∨
    (l.standing = .named ∧ ∃ here rest, ofConcrete (depth + 1) parent (.node l cs) = .ok here ∧
      ofParts opened depth parent more = .ok rest ∧ os = here :: rest) ∨
    ofParts opened depth parent more = .ok os := by
  rw [ofParts] at h
  split at h
  · rename_i hopened
    simp only [Bool.and_eq_true, beq_iff_eq] at hopened
    obtain ⟨here, hhere, h⟩ := eq_ok_of_bind h
    obtain ⟨rest, hrest, h⟩ := eq_ok_of_bind h
    exact Or.inl ⟨hopened.1, hopened.2, here, rest, hhere, hrest, (Except.ok.inj h).symm⟩
  · split at h
    · rename_i hnamed
      obtain ⟨here, hhere, h⟩ := eq_ok_of_bind h
      obtain ⟨rest, hrest, h⟩ := eq_ok_of_bind h
      exact Or.inr (Or.inl ⟨by simpa using hnamed, here, rest, hhere, hrest, (Except.ok.inj h).symm⟩)
    · exact Or.inr (Or.inr h)

/-! Imports -/

/-- If it is an import, its one part is a literal. -/
def IsSourced : Outline → Prop
  | node (.importing _) _ _ parts => ∃ l extent place, parts = [node (.literal l) extent place []]
  | _ => True

mutual

theorem isSourced_ofConcrete {depth : Nat} {parent : String} {o : Outline} :
    (c : Concrete) → ofConcrete depth parent c = .ok o → o.IsSourced
  | .node l cs => by
    intro h
    cases reduces_of_ofConcrete h with
    | importing => exact ⟨_, _, _, rfl⟩
    | name hshape => rcases hshape with rfl | rfl <;> trivial
    | literal => trivial
    | inside _ hinside => exact isSourced_ofParts cs hinside _ List.mem_cons_self
    | call => trivial
    | other hshape => rcases hshape with rfl | rfl | rfl <;> trivial

theorem isSourced_ofParts {opened : Bool} {depth : Nat} {parent : String} {os : List Outline} :
    (cs : List Concrete) → ofParts opened depth parent cs = .ok os → ∀ o ∈ os, o.IsSourced
  | [] => by
    intro h
    rw [ofParts] at h
    cases h
    exact fun _ ho => absurd ho List.not_mem_nil
  | .node l cs :: more => by
    intro h o ho
    rcases ofParts_cons h with ⟨-, -, here, rest, hhere, hrest, rfl⟩ |
      ⟨-, here, rest, hhere, hrest, rfl⟩ | hrest
    · rcases List.mem_append.mp ho with ho | ho
      · exact isSourced_ofParts cs hhere o ho
      · exact isSourced_ofParts more hrest o ho
    · rcases List.mem_cons.mp ho with rfl | ho
      · exact isSourced_ofConcrete (.node l cs) hhere
      · exact isSourced_ofParts more hrest o ho
    · exact isSourced_ofParts more hrest o ho

end

end Outline

namespace Tree

variable {t : Tree}

theorem RepresentsAll.exists_of_mem {ids : List NodeId} {os : List Outline}
    (h : t.RepresentsAll ids os) {id : NodeId} (hid : id ∈ ids) : ∃ o ∈ os, t.Represents id o := by
  induction ids generalizing os with
  | nil => exact absurd hid List.not_mem_nil
  | cons first ids ih =>
    cases os with
    | nil => exact h.elim
    | cons o os =>
      rcases List.mem_cons.mp hid with rfl | hid
      · exact ⟨o, List.mem_cons_self, h.1⟩
      · obtain ⟨o', ho', hrep⟩ := ih h.2 hid
        exact ⟨o', List.mem_cons_of_mem o ho', hrep⟩

-- What holds of outlines and passes to their parts holds of an outline for every node below.
theorem RepresentsAll.exists_of_below {P : Outline → Prop}
    (hP : ∀ shape extent place parts, P (.node shape extent place parts) → ∀ o ∈ parts, P o)
    {ids : List NodeId} {os : List Outline} (h : t.RepresentsAll ids os) (hos : ∀ o ∈ os, P o)
    {top x : NodeId} (htop : top ∈ ids) (hx : t.Below top x) : ∃ o, t.Represents x o ∧ P o := by
  induction hx with
  | refl =>
    obtain ⟨o, ho, hrep⟩ := h.exists_of_mem htop
    exact ⟨o, hrep, hos o ho⟩
  | part _ hmem ih =>
    obtain ⟨⟨shape, extent, place, parts⟩, hrep, hown⟩ := ih
    rw [Represents] at hrep
    obtain ⟨-, -, -, own, hcontent, hparts⟩ := hrep
    rw [parts_of_content? hcontent, Shape.children_content] at hmem
    obtain ⟨o, ho, hrep⟩ := hparts.exists_of_mem hmem
    exact ⟨o, hrep, hP _ _ _ _ hown o ho⟩

theorem importing_of_content {shape : Shape} {ids : List NodeId} {specifiers : List Specifier}
    {node : NodeId} (h : shape.content ids = .importDeclaration specifiers node) :
    shape = .importing specifiers ∧ ids = [node] := by
  unfold Shape.content at h
  split at h
  all_goals first | cases h | skip
  · exact ⟨rfl, rfl⟩
  · unfold Shape.genericContent at h
    split at h <;> cases h

/-- The source of an import of the program is a literal. -/
theorem exists_literal_of_importDeclaration {source : String} (h : parse source = .ok t)
    {s node : NodeId} {specifiers : List Specifier} (hs : s ∈ t.statements)
    (hcontent : t.content? s = some (.importDeclaration specifiers node)) :
    ∃ l, t.content? node = some (.literal l) := by
  obtain ⟨statements, outlines, -, houtlines, rfl⟩ := parse_eq_ok h
  obtain ⟨o, ho, hrep⟩ := (built_ofOutlines source outlines).2.exists_of_mem hs
  have hsourced := Outline.isSourced_ofParts _ houtlines o ho
  obtain ⟨shape, extent, place, parts⟩ := o
  rw [Represents] at hrep
  obtain ⟨-, -, -, ids, hids, hparts⟩ := hrep
  rw [hcontent, Option.some.injEq] at hids
  obtain ⟨rfl, rfl⟩ := importing_of_content hids.symm
  obtain ⟨l, extent', place', rfl⟩ := hsourced
  have hnode := hparts.1
  rw [Represents] at hnode
  obtain ⟨-, -, -, ids, hids, hparts⟩ := hnode
  cases ids with
  | nil => exact ⟨l, hids⟩
  | cons id ids => exact hparts.elim

end Tree

end Flavoring
