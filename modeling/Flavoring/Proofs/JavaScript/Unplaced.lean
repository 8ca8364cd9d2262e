import Flavoring.JavaScript.Parser.Function

/-!
Concrete trees without the places of their nodes.

Two trees that were read from the same text in different places differ at most in these. Whatever
the grammar asks about a tree, it asks about the tree without places.
-/

namespace Flavoring.JavaScript

namespace Concrete

mutual

/-- The tree without places. -/
def unplaced : Concrete → Concrete
  | node l cs => node { l with extent := {}, place := {} } (unplacedAll cs)

def unplacedAll : List Concrete → List Concrete
  | [] => []
  | c :: cs => unplaced c :: unplacedAll cs

end

theorem unplacedAll_eq (cs : List Concrete) : unplacedAll cs = cs.map unplaced := by
  induction cs with
  | nil => rfl
  | cons c cs ih => rw [unplacedAll, ih, List.map_cons]

@[simp] theorem unplaced_node (l : Label) (cs : List Concrete) :
    (node l cs).unplaced = node { l with extent := {}, place := {} } (cs.map unplaced) := by
  rw [unplaced, unplacedAll_eq]

variable {t t' first first' : Concrete} {ts ts' more more' : List Concrete}

/-! Building trees -/

@[simp] theorem unplaced_inRole (t : Concrete) (role : Role) :
    (t.inRole role).unplaced = t.unplaced.inRole role := by
  cases t
  simp [inRole, label, children]

@[simp] theorem unplaced_called (t : Concrete) (kind : String) :
    (t.called kind).unplaced = t.unplaced.called kind := by
  cases t
  simp [called, label, children]

@[simp] theorem unplaced_asKeyword (t : Concrete) :
    t.asKeyword.unplaced = t.unplaced.asKeyword := by
  cases t
  simp [asKeyword, label, children]

@[simp] theorem unplaced_branch (kind : String) (first : Concrete) (more : List Concrete) :
    (branch kind first more).unplaced =
      node { kind, standing := .named, extent := {}, place := {} }
        (first.unplaced :: more.map unplaced) := by
  simp [branch]

/-! Asking about trees -/

@[simp] theorem kind_unplaced (t : Concrete) : t.unplaced.kind = t.kind := by
  cases t
  simp [kind, label]

@[simp] theorem standing_unplaced (t : Concrete) : t.unplaced.label.standing = t.label.standing := by
  cases t
  simp [label]

@[simp] theorem role_unplaced (t : Concrete) : t.unplaced.label.role = t.label.role := by
  cases t
  simp [label]

@[simp] theorem text_unplaced (t : Concrete) : t.unplaced.label.text = t.label.text := by
  cases t
  simp [label]

@[simp] theorem children_unplaced (t : Concrete) : t.unplaced.children = t.children.map unplaced := by
  cases t
  simp [children]

theorem kind_congr (h : t'.unplaced = t.unplaced) : t'.kind = t.kind := by
  rw [← kind_unplaced t', h, kind_unplaced]

theorem standing_congr (h : t'.unplaced = t.unplaced) : t'.label.standing = t.label.standing := by
  rw [← standing_unplaced t', h, standing_unplaced]

theorem children_congr (h : t'.unplaced = t.unplaced) :
    t'.children.map unplaced = t.children.map unplaced := by
  rw [← children_unplaced, h, children_unplaced]

mutual

theorem isSettled_unplaced : (t : Concrete) → t.unplaced.isSettled = t.isSettled
  | node l cs => by
    rw [unplaced, isSettled, isSettled, allSettled_unplacedAll cs]

theorem allSettled_unplacedAll : (cs : List Concrete) → allSettled (unplacedAll cs) = allSettled cs
  | [] => rfl
  | c :: cs => by
    rw [unplacedAll, allSettled, allSettled, isSettled_unplaced c, allSettled_unplacedAll cs]

end

theorem isSettled_congr (h : t'.unplaced = t.unplaced) : t'.isSettled = t.isSettled := by
  rw [← isSettled_unplaced t', h, isSettled_unplaced]

theorem allSettled_congr (h : ts'.map unplaced = ts.map unplaced) :
    allSettled ts' = allSettled ts := by
  rw [← allSettled_unplacedAll ts', unplacedAll_eq, h, ← unplacedAll_eq, allSettled_unplacedAll]

theorem isPrimary_congr (h : t'.unplaced = t.unplaced) : t'.isPrimary = t.isPrimary := by
  rw [isPrimary, isPrimary, kind_congr h]

theorem isUpdatable_congr (h : t'.unplaced = t.unplaced) : t'.isUpdatable = t.isUpdatable := by
  rw [isUpdatable, isUpdatable, kind_congr h]

-- A question about kinds is answered for a list as for the list without places.
theorem map_kind_congr (h : ts'.map unplaced = ts.map unplaced) : ts'.map kind = ts.map kind := by
  have hkinds (us : List Concrete) : us.map kind = (us.map unplaced).map kind := by
    rw [List.map_map]
    exact List.map_congr_left fun t _ => (kind_unplaced t).symm
  rw [hkinds ts', h, ← hkinds]

theorem any_kind_congr (p : String → Bool) (h : ts'.map unplaced = ts.map unplaced) :
    (ts'.any fun t => p t.kind) = ts.any fun t => p t.kind := by
  have hany (us : List Concrete) : (us.any fun t => p t.kind) = (us.map kind).any p := by
    rw [List.any_map]
    rfl
  rw [hany, hany, map_kind_congr h]

theorem all_kind_congr (p : String → Bool) (h : ts'.map unplaced = ts.map unplaced) :
    (ts'.all fun t => p t.kind) = ts.all fun t => p t.kind := by
  have hall (us : List Concrete) : (us.all fun t => p t.kind) = (us.map kind).all p := by
    rw [List.all_map]
    rfl
  rw [hall, hall, map_kind_congr h]

theorem isEmpty_congr (h : ts'.map unplaced = ts.map unplaced) : ts'.isEmpty = ts.isEmpty := by
  rw [← List.isEmpty_map (f := unplaced), h, List.isEmpty_map]

/-! Patterns -/

mutual

theorem pattern?_unplaced (slot : Slot) :
    (t : Concrete) → (t.unplaced).pattern? slot = (t.pattern? slot).map unplaced
  | node l cs => by
    rw [unplaced, pattern?, pattern?, patterns?_unplacedAll l.kind cs]
    cases slot.kind? l.kind <;> cases patterns? l.kind cs <;> simp [unplacedAll_eq]

theorem patterns?_unplacedAll (parent : String) :
    (cs : List Concrete) → patterns? parent (unplacedAll cs) = (patterns? parent cs).map unplacedAll
  | [] => rfl
  | c :: cs => by
    have hslot : Slot.ofChild? parent c.unplaced.label = Slot.ofChild? parent c.label := by
      cases c
      simp [Slot.ofChild?, label]
    rw [unplacedAll, patterns?, patterns?, hslot, patterns?_unplacedAll parent cs]
    cases Slot.ofChild? parent c.label with
    | none => cases patterns? parent cs <;> simp [unplacedAll]
    | some slot =>
      dsimp only
      rw [pattern?_unplaced slot c]
      cases c.pattern? slot <;> cases patterns? parent cs <;> simp [unplacedAll]

end

theorem cases_of_map_eq {α β : Type} {f : α → β} {o o' : Option α} (h : o'.map f = o.map f) :
    o = none ∧ o' = none ∨ ∃ a a', o = some a ∧ o' = some a' ∧ f a' = f a := by
  cases o with
  | none => exact Or.inl ⟨rfl, Option.map_eq_none_iff.mp h⟩
  | some a =>
    obtain ⟨a', hsome, ha⟩ := Option.map_eq_some_iff.mp h
    exact Or.inr ⟨a, a', rfl, hsome, ha⟩

theorem pattern?_cases (slot : Slot) (h : t'.unplaced = t.unplaced) :
    t.pattern? slot = none ∧ t'.pattern? slot = none ∨ ∃ p p', t.pattern? slot = some p ∧
      t'.pattern? slot = some p' ∧ p'.unplaced = p.unplaced :=
  cases_of_map_eq (by rw [← pattern?_unplaced, h, pattern?_unplaced])

theorem patterns?_cases (parent : String) (h : ts'.map unplaced = ts.map unplaced) :
    patterns? parent ts = none ∧ patterns? parent ts' = none ∨ ∃ ps ps',
      patterns? parent ts = some ps ∧ patterns? parent ts' = some ps' ∧
        ps'.map unplaced = ps.map unplaced := by
  rw [← unplacedAll_eq, ← unplacedAll_eq] at h
  simp only [← unplacedAll_eq]
  exact cases_of_map_eq (by rw [← patterns?_unplacedAll, h, patterns?_unplacedAll])

theorem assignee?_cases (h : t'.unplaced = t.unplaced) :
    t.assignee? = none ∧ t'.assignee? = none ∨ ∃ p p', t.assignee? = some p ∧
      t'.assignee? = some p' ∧ p'.unplaced = p.unplaced := by
  rw [assignee?, assignee?, kind_congr h]
  split
  · exact Or.inr ⟨t, t', rfl, rfl, h⟩
  · exact pattern?_cases .target h

end Concrete

theorem Parser.startsWithSeveral_unplaced (t : Concrete) :
    startsWithSeveral t.unplaced = startsWithSeveral t := by
  induction t using startsWithSeveral.induct with
  | case1 l => simp [startsWithSeveral]
  | case2 l first more hkind =>
    rw [Concrete.unplaced_node, List.map_cons, startsWithSeveral, startsWithSeveral, if_pos hkind,
      if_pos hkind, List.any_map]
    exact congrArg more.any (funext fun t => by simp)
  | case3 l first more hkind ih =>
    rw [Concrete.unplaced_node, List.map_cons, startsWithSeveral, startsWithSeveral, if_neg hkind,
      if_neg hkind, ih]

end Flavoring.JavaScript
