import Flavoring.Proofs.Tree.Building

/-!
Forms: what a tree says, whatever the numbers and places of its nodes and the spelling of its
literals.

A module's text and its tree describe the same program if reading the text gives a tree of the same
form.
-/

namespace Flavoring

/-- The content without the numbers of its parts and without the spelling of a literal. -/
def Content.outer : Content → Content
  | program _ => program []
  | importDeclaration specifiers _ => importDeclaration specifiers 0
  | expressionStatement _ => expressionStatement 0
  | block _ => block []
  | call _ _ => call 0 []
  | identifier name => identifier name
  | binding name => binding name
  | literal l => literal { value := l.value }
  | statement grammarType _ => statement grammarType []
  | construct grammarType _ => construct grammarType []

inductive Form where
  /-- what a node is by its outer content, and its parts -/
  | node (content : Content) (parts : List Form)

namespace Tree

mutual

/-- The live node `id` and all below it have a form. -/
def Shows (t : Tree) (id : NodeId) : Form → Prop
  | .node content parts => t.isLive id = true ∧
      ∃ own, t.content? id = some own ∧ own.outer = content ∧ t.ShowsAll own.children parts

/-- Nodes have forms, one for each in their order. -/
def ShowsAll (t : Tree) : List NodeId → List Form → Prop
  | [], [] => True
  | id :: ids, f :: fs => t.Shows id f ∧ t.ShowsAll ids fs
  | _, _ => False

end

/-- The text of the tree is the text of a module, and that module has the form of the tree. -/
def ReadsBack (t : Tree) : Prop :=
  ∃ form u, t.Shows t.root form ∧ parse t.render = .ok u ∧ u.Shows u.root form

mutual

/-- A node has one form only. -/
theorem Shows.unique (t : Tree) (id : NodeId) : (f g : Form) → t.Shows id f → t.Shows id g → f = g
  | .node content parts, .node content' parts' => by
    rw [Shows, Shows]
    rintro ⟨-, own, hown, hcontent, hparts⟩ ⟨-, own', hown', hcontent', hparts'⟩
    obtain rfl : own = own' := Option.some.inj (hown.symm.trans hown')
    rw [← hcontent, ← hcontent', ShowsAll.unique t own.children parts parts' hparts hparts']

theorem ShowsAll.unique (t : Tree) : (ids : List NodeId) → (fs gs : List Form) →
    t.ShowsAll ids fs → t.ShowsAll ids gs → fs = gs
  | [], [], [], _, _ => rfl
  | id :: ids, f :: fs, g :: gs, hf, hg => by
    rw [Shows.unique t id f g hf.1 hg.1, ShowsAll.unique t ids fs gs hf.2 hg.2]

end

theorem ShowsAll.append {t : Tree} : {ids ids' : List NodeId} → {fs fs' : List Form} →
    t.ShowsAll ids fs → t.ShowsAll ids' fs' → t.ShowsAll (ids ++ ids') (fs ++ fs')
  | [], _, [], _, _, h' => h'
  | _ :: _, _, _ :: _, _, h, h' => ⟨h.1, h.2.append h'⟩

/-! Comparing forms -/

/-- Whether the nodes `x` and `y` of two trees have one form, down to the given depth. -/
def sameForm (t u : Tree) : Nat → NodeId → NodeId → Bool
  | 0, _, _ => false
  | depth + 1, x, y =>
    t.isLive x && u.isLive y &&
      match t.content? x, u.content? y with
      | some own, some other =>
        own.outer == other.outer && own.children.length == other.children.length &&
          (own.children.zip other.children).all fun (part, part') => sameForm t u depth part part'
      | _, _ => false

theorem exists_shows_of_sameForm (t u : Tree) (depth : Nat) (x y : NodeId)
    (h : sameForm t u depth x y = true) : ∃ f, t.Shows x f ∧ u.Shows y f := by
  induction depth generalizing x y with
  | zero => cases h
  | succ depth ih =>
    have hall (ids ids' : List NodeId) (hlength : ids.length = ids'.length)
        (hzip : ∀ pair ∈ ids.zip ids', sameForm t u depth pair.1 pair.2 = true) :
        ∃ fs, t.ShowsAll ids fs ∧ u.ShowsAll ids' fs := by
      induction ids generalizing ids' with
      | nil =>
        obtain rfl := List.length_eq_zero_iff.mp hlength.symm
        exact ⟨[], trivial, trivial⟩
      | cons id ids ihs =>
        cases ids' with
        | nil => cases hlength
        | cons id' ids' =>
          obtain ⟨f, hf, hf'⟩ := ih id id' (hzip (id, id') List.mem_cons_self)
          obtain ⟨fs, hfs, hfs'⟩ := ihs ids' (Nat.succ.inj hlength) fun pair hpair =>
            hzip pair (List.mem_cons_of_mem _ hpair)
          exact ⟨f :: fs, ⟨hf, hfs⟩, hf', hfs'⟩
    rw [sameForm, Bool.and_eq_true, Bool.and_eq_true] at h
    obtain ⟨⟨hx, hy⟩, h⟩ := h
    split at h
    · next own other hown hother =>
      simp only [Bool.and_eq_true, beq_iff_eq, List.all_eq_true] at h
      obtain ⟨⟨houter, hlength⟩, hzip⟩ := h
      obtain ⟨fs, hfs, hfs'⟩ := hall own.children other.children hlength hzip
      exact ⟨.node own.outer fs, ⟨hx, own, hown, rfl, hfs⟩, hy, other, hother, houter.symm, hfs'⟩
    · cases h

-- Reading the text shows whether it reads back.
theorem readsBack_of_sameForm {t : Tree} {out : String} (hrender : t.render = out)
    (h : (parse out).toOption.any (fun u => sameForm t u t.nodes.size t.root u.root) = true) :
    t.ReadsBack := by
  obtain ⟨u, hu, hsame⟩ := exists_parse _ h
  obtain ⟨f, hf, hf'⟩ := exists_shows_of_sameForm _ _ _ _ _ hsame
  exact ⟨f, u, hf, hrender ▸ hu, hf'⟩

end Tree

end Flavoring
