import Flavoring.Proofs.Expansion.Alterations
import Flavoring.Proofs.Expansion.Redirection
import Flavoring.Proofs.Expansion.Sites
import Flavoring.Proofs.Tree.Runs

/-!
Atomicity: a rule that fails has done nothing.

What a rule looks at before its first edit rules out that a later edit is refused. Redirection
puts a literal in the place of a literal, so the nodes that are live, their parents and the lists of
statements stay as they were, and the marker's statement can still be taken out. This holds of every
tree that edits and rules lead to, not only of a module that was just read.
-/

namespace Flavoring

theorem Content.statementList?_withStatements {content : Content} {list body : List NodeId}
    (h : content.statementList? = some list) :
    (content.withStatements body).statementList? = some body := by
  cases content <;> simp_all [statementList?, withStatements]

namespace Tree

variable {t u v : Tree} {s x owner : NodeId}

/-- Taking out a statement of the program takes it off the program's list. -/
theorem Removal.statements (hr : Removal t s t.root u) : u.statements = t.statements.erase s := by
  obtain ⟨content, list, hcontent, hlist, -⟩ := hr.listed
  have hold : t.statements = list := by
    rw [Tree.statements, hcontent]
    simp [hlist]
  rw [hold, Tree.statements, hr.root, hr.content?, if_pos rfl, hcontent]
  simp [hlist, Content.statementList?_withStatements hlist]

/-! Literals in the place of literals -/

/-- `u` is `t`, with other literals where `t` has literals. -/
structure Respelled (t u : Tree) : Prop where
  linked : u.Linked []
  root : u.root = t.root
  parent? (x : NodeId) : u.parent? x = t.parent? x
  isLive (x : NodeId) : u.isLive x = t.isLive x
  content? (x : NodeId) : u.content? x = t.content? x ∨
    ∃ l l', t.content? x = some (.literal l) ∧ u.content? x = some (.literal l')

namespace Respelled

theorem refl (ht : t.Linked []) : Respelled t t where
  linked := ht
  root := rfl
  parent? _ := rfl
  isLive _ := rfl
  content? _ := Or.inl rfl

theorem trans (htu : Respelled t u) (huv : Respelled u v) : Respelled t v where
  linked := huv.linked
  root := huv.root.trans htu.root
  parent? x := (huv.parent? x).trans (htu.parent? x)
  isLive x := (huv.isLive x).trans (htu.isLive x)
  content? x := by
    rcases huv.content? x with hx | ⟨l, l', hu, hv⟩
    · rw [hx]
      exact htu.content? x
    · rcases htu.content? x with ht | ⟨l₀, -, ht, -⟩
      · exact Or.inr ⟨l, l', ht ▸ hu, hv⟩
      · exact Or.inr ⟨l₀, l', ht, hv⟩

theorem of_replace {l l' : Literal} (ht : t.Linked []) (hx : t.content? x = some (.literal l))
    (h : t.replace x (.literal l') = .ok u) : Respelled t u := by
  have hr := ht.replacement h
  -- a literal has no parts, so nothing goes with it
  have hnone (y : NodeId) : ¬ t.StrictlyBelow x y := by
    rintro ⟨part, hpart, -⟩
    rw [parts_of_content? hx] at hpart
    exact List.not_mem_nil hpart
  constructor
  case linked => exact hr.linked ht
  case root => exact hr.root
  case parent? => exact hr.parent?
  case isLive =>
    intro y
    rw [Bool.eq_iff_iff, hr.isLive_iff, and_iff_left (hnone y)]
  case content? =>
    intro y
    rw [hr.content?]
    by_cases hy : y = x
    · exact Or.inr ⟨l, l', hy ▸ hx, if_pos hy⟩
    · exact Or.inl (if_neg hy)

/-- Statements stand on the lists that they stood on. -/
theorem position? (h : Respelled t u) (s : NodeId) : u.position? s = t.position? s := by
  unfold Tree.position?
  rw [h.parent? s]
  cases t.parent? s with
  | none => rfl
  | some owner =>
    rcases h.content? owner with hsame | ⟨l, l', ht, hu⟩
    · simp [hsame]
    · simp [ht, hu, Content.statementList?]

end Respelled

end Tree

namespace Expansion

open Flavoring.Tree

variable {T t u : Tree} {source : String} {s site call : NodeId}

/-! Rules -/

/-- No import refuses to be redirected, whichever nodes are listed. -/
theorem redirectImports_ok (config : Config) (ht : t.Linked []) (ids : List NodeId) :
    ∃ count u, redirectImports config t ids = (.ok count, u) ∧ Respelled t u := by
  induction ids generalizing t with
  | nil => exact ⟨0, t, rfl, .refl ht⟩
  | cons id ids ih =>
    cases hsource : t.importSource? id with
    | none =>
      obtain ⟨count, u, hrun, hu⟩ := ih ht
      exact ⟨count, u, by simp [redirectImports, hsource, hrun], hu⟩
    | some found =>
      obtain ⟨node, l⟩ := found
      cases hpath : config.importPath? l.value with
      | none =>
        obtain ⟨count, u, hrun, hu⟩ := ih ht
        exact ⟨count, u, by simp [redirectImports, hsource, hpath, hrun], hu⟩
      | some path =>
        obtain ⟨hlive, -, hnode⟩ := importSource?_eq_some.mp hsource
        have hnodeLive := ht.part_isLive hlive (mem_parts_of_importSource? hsource)
        obtain ⟨v, hv⟩ := Revision.exists_replace hnodeLive (l.setValue path)
        have hstep := Respelled.of_replace ht hnode hv
        obtain ⟨count, u, hrun, hu⟩ := ih hstep.linked
        refine ⟨count + 1, u, ?_, hstep.trans hu⟩
        simp [redirectImports, hsource, hpath, hv, hrun, Except.map]

/-- Either the marker's statement is found, live and on the list of the program, or the misuse is not
one of an edit. -/
theorem markerStatement_cases (t : Tree) (site : NodeId) (limit : Nat) (marker : String) :
    (∃ s above index, markerStatement t site limit marker = .ok (s, above) ∧ t.isLive s = true ∧
      t.position? s = some (t.root, index)) ∨
    ∃ misuse, markerStatement t site limit marker = .error misuse ∧
      ∀ fault, misuse ≠ .tree fault := by
  unfold markerStatement expressionStatement
  cases hsearch : searchStatement t limit site with
  | tooFar => exact Or.inr ⟨_, rfl, nofun⟩
  | absent => exact Or.inr ⟨_, rfl, nofun⟩
  | found s =>
    simp only [bind, Except.bind, pure, Except.pure, throw, throwThe, MonadExceptOf.throw]
    split
    · exact Or.inr ⟨_, rfl, nofun⟩
    · next parent hparent =>
      split
      · exact Or.inr ⟨_, rfl, nofun⟩
      · next body hbody =>
        split
        · exact Or.inr ⟨_, rfl, nofun⟩
        · next hroot =>
          split
          · exact Or.inr ⟨_, rfl, nofun⟩
          · next index hindex =>
            obtain ⟨content, hcontent, hlist⟩ := Option.bind_eq_some_iff.mp hbody
            obtain rfl := Classical.not_not.mp hroot
            refine Or.inl ⟨s, _, index, rfl, (encloses_of_searchStatement hsearch).1, ?_⟩
            simp [position?, hparent, hcontent, hlist, hindex]

/-- Either the site's parent is its call, or the misuse is not one of an edit. -/
theorem flavorCall_cases (t : Tree) (site : NodeId) (marker : String) :
    (∃ call key, flavorCall t site marker = .ok (call, key) ∧ t.parent? site = some call) ∨
    ∃ misuse, flavorCall t site marker = .error misuse ∧ ∀ fault, misuse ≠ .tree fault := by
  unfold flavorCall
  split
  · exact Or.inr ⟨_, rfl, nofun⟩
  · next call hparent =>
    split
    · split
      · exact Or.inr ⟨_, rfl, nofun⟩
      · split
        · split
          · split
            · exact Or.inl ⟨call, _, rfl, hparent⟩
            · exact Or.inr ⟨_, rfl, nofun⟩
          · exact Or.inr ⟨_, rfl, nofun⟩
        · exact Or.inr ⟨_, rfl, nofun⟩
    · exact Or.inr ⟨_, rfl, nofun⟩

theorem redirectAbove_error (ht : t.Linked []) {options : Options} {config : Config}
    {misuse : Misuse} (h : redirectAbove options config t site = (.error misuse, u)) :
    (∀ fault, misuse ≠ .tree fault) ∧ u = t := by
  by_cases hdangling : t.isDangling (some site) = true
  · simp only [redirectAbove, hdangling, if_true] at h
    cases h
    exact ⟨fun _ => Misuse.noConfusion, rfl⟩
  · rcases markerStatement_cases t site options.traverseLimit
        (spelling t site Rule.importRedirection.marker) with
      ⟨s, above, index, hstatement, hlive, hposition⟩ | ⟨misuse', hmisuse, hno⟩
    · -- from here on nothing is refused
      obtain ⟨count, v, hrun, hv⟩ := redirectImports_ok config ht above
      obtain ⟨w, hw⟩ := exists_remove_of_position? ((hv.isLive s).trans hlive)
        ((hv.position? s).trans hposition)
      simp [redirectAbove, hdangling, hstatement, hrun, hw] at h
    · simp only [redirectAbove, hdangling, hmisuse] at h
      cases h
      exact ⟨hno, rfl⟩

theorem substituteLiteral_error (ht : t.Linked []) {config : Config} {misuse : Misuse}
    (h : substituteLiteral config t site = (.error misuse, u)) :
    (∀ fault, misuse ≠ .tree fault) ∧ u = t := by
  by_cases hdangling : t.isDangling (some site) = true
  · simp only [substituteLiteral, hdangling, if_true] at h
    cases h
    exact ⟨fun _ => Misuse.noConfusion, rfl⟩
  · rcases flavorCall_cases t site (spelling t site Rule.literalSubstitution.marker) with
      ⟨call, key, hcall, hparent⟩ | ⟨misuse', hmisuse, hno⟩
    · have hsite : t.isLive site = true := by simpa [isDangling] using hdangling
      obtain ⟨v, hv⟩ := Revision.exists_replace (ht.owner_of_parent? hsite hparent).1
        { value := config.flavor key }
      simp [substituteLiteral, hdangling, hcall, hv] at h
    · simp only [substituteLiteral, hdangling, hmisuse] at h
      cases h
      exact ⟨hno, rfl⟩

/-- A rule that fails leaves a linked tree as it was, and it never fails because an edit is
refused. -/
theorem apply_error (ht : t.Linked []) {rule : Rule} {options : Options} {config : Config}
    {misuse : Misuse} (h : rule.apply options config t site = (.error misuse, u)) :
    (∀ fault, misuse ≠ .tree fault) ∧ u = t := by
  cases rule with
  | importRedirection => exact redirectAbove_error ht h
  | literalSubstitution => exact substituteLiteral_error ht h

/-! Imports of the marker module -/

/-- Statements of the program are removed one after the other, each of them. -/
theorem removeImports_ok (ht : t.Linked []) {ids : List NodeId} (hsub : ids ⊆ t.statements)
    (hnodup : ids.Nodup) :
    ∃ u, References.removeImports t ids = (.ok ids.length, u) ∧
      (∀ x, u.isLive x = true → t.isLive x = true ∧ x ∉ ids) ∧
      u.statements = t.statements.filter (· ∉ ids) := by
  induction ids generalizing t with
  | nil => exact ⟨t, rfl, fun x hx => ⟨hx, List.not_mem_nil⟩, by simp⟩
  | cons s ids ih =>
    have hs := hsub List.mem_cons_self
    obtain ⟨hsIds, hnodupIds⟩ := List.nodup_cons.mp hnodup
    obtain ⟨-, -, -, hparts⟩ := program_of_mem_statements hs
    have hmem : s ∈ t.parts t.root := hparts ▸ hs
    have hlive := ht.part_isLive ht.root_isLive hmem
    obtain ⟨v, hv⟩ := ht.exists_remove hs
    obtain ⟨owner, hr⟩ := ht.removal hv
    obtain rfl : owner = t.root :=
      Option.some.inj (hr.id_parent.symm.trans (ht.part_parent ht.root_isLive hmem))
    have hsubIds : ids ⊆ v.statements := by
      intro x hx
      rw [hr.statements]
      refine (List.mem_erase_of_ne ?_).mpr (hsub (List.mem_cons_of_mem s hx))
      rintro rfl
      exact hsIds hx
    obtain ⟨u, hrun, hgone, hrest⟩ := ih (hr.linked ht) hsubIds hnodupIds
    refine ⟨u, by simp [References.removeImports, hlive, hv, hrun, Except.map], ?_, ?_⟩
    · intro x hx
      obtain ⟨hxv, hxIds⟩ := hgone x hx
      obtain ⟨hxt, hbelow⟩ := (hr.isLive_iff x).mp hxv
      refine ⟨hxt, fun hmem => ?_⟩
      rcases List.mem_cons.mp hmem with rfl | hmem
      · exact hbelow .refl
      · exact hxIds hmem
    · rw [hrest, hr.statements, ht.nodup_statements.erase_eq_filter, List.filter_filter]
      refine List.filter_congr fun y _ => ?_
      by_cases hy : y = s <;> simp [hy]

/-- The imports that are found in a linked tree can all be removed. -/
theorem removeImports_collect (ht : t.Linked []) (markerModule : String) :
    ∃ u, References.removeImports t (References.collect t markerModule).imports =
        (.ok (References.collect t markerModule).imports.length, u) ∧
      (∀ s ∈ (References.collect t markerModule).imports, u.isLive s = false) ∧
      u.statements =
        t.statements.filter (· ∉ (References.collect t markerModule).imports) := by
  have hnodup : (References.collect t markerModule).imports.Nodup :=
    References.nodup_imports ht.nodup_statements
  obtain ⟨u, hrun, hgone, hrest⟩ := removeImports_ok ht
    (fun _ hs => References.mem_statements_of_mem_imports hs) hnodup
  refine ⟨u, hrun, fun s hs => ?_, hrest⟩
  exact Bool.eq_false_iff.mpr fun hlive => (hgone s hlive).2 hs

/-! Moves -/

/-- What can be done to a tree: a change, or a rule applied to a node. -/
inductive Move where
  | change (c : Change)
  | apply (rule : Rule) (options : Options) (config : Config) (site : NodeId)

/-- The tree after a move, which may have failed. -/
def Move.after (t : Tree) : Move → Tree
  | change c => t.attempt c
  | apply rule options config site => (rule.apply options config t site).2

theorem Move.linked_after (ht : t.Linked []) (move : Move) : (move.after t).Linked [] := by
  cases move with
  | change c => exact (ht.attempt c).1
  | apply rule options config site => exact (altered_apply rule options config t site).linked ht

theorem linked_after_moves (ht : t.Linked []) (moves : List Move) :
    (moves.foldl Move.after t).Linked [] := by
  induction moves generalizing t with
  | nil => exact ht
  | cons move moves ih => exact ih (move.linked_after ht)

/-- In every tree that moves lead to from a module's tree: a rule that fails, at whatever node, leaves
nodes and edits as they are and does not fail by an edit, and the imports of a marker module are all
removed. -/
theorem rules_atomic_after_moves (h : parse source = .ok T) (moves : List Move)
    (hreached : t = moves.foldl Move.after T) :
    (∀ (rule : Rule) options config site misuse u,
      rule.apply options config t site = (.error misuse, u) →
        (∀ fault, misuse ≠ .tree fault) ∧ u = t) ∧
    ∀ markerModule, ∃ u,
      References.removeImports t (References.collect t markerModule).imports =
        (.ok (References.collect t markerModule).imports.length, u) ∧
      (∀ s ∈ (References.collect t markerModule).imports, u.isLive s = false) ∧
      u.statements =
        t.statements.filter (· ∉ (References.collect t markerModule).imports) := by
  have ht : t.Linked [] := hreached ▸ linked_after_moves (built_of_parse h).toLinked moves
  exact ⟨fun rule options config site misuse u herr => apply_error ht herr,
    removeImports_collect ht⟩

/-- A literal is put, a marker is applied and a removal is refused. After that a name that is not
called is misused, and the import of the marker module is still found. -/
theorem rules_atomic_after_three_moves :
    ∃ T t misuse u, parse ("import a from 'x';\nimport fl, \x7b getFlavor \x7d from " ++
        "'flavors.macro';\nfl();\nf(getFlavor);\n") = .ok T ∧
      t = [Move.change (.replace 1 (.literal { value := "y" })),
        Move.apply .importRedirection {} ⟨⟨[("y", "z")]⟩, {}⟩ 5,
        Move.change (.remove 1)].foldl Move.after T ∧
      Rule.literalSubstitution.apply {} {} t 9 = (.error misuse, t) ∧
      (∀ fault, misuse ≠ .tree fault) ∧
      References.removeImports t [4] = (.ok 1, u) ∧ u.isLive 4 = false := by
  obtain ⟨T, hT, hcheck⟩ := exists_parse
    (fun T =>
      let t := [Move.change (.replace 1 (.literal { value := "y" })),
        Move.apply .importRedirection {} ⟨⟨[("y", "z")]⟩, {}⟩ 5,
        Move.change (.remove 1)].foldl Move.after T
      !(Rule.literalSubstitution.apply {} {} t 9).1.toBool
        && (References.collect t "flavors.macro").imports == [4])
    (by decide +kernel : (parse
      ("import a from 'x';\nimport fl, \x7b getFlavor \x7d from " ++
        "'flavors.macro';\nfl();\nf(getFlavor);\n")).toOption.any _ = true)
  rw [Bool.and_eq_true, Bool.not_eq_true', beq_iff_eq] at hcheck
  obtain ⟨herror, himports⟩ := hcheck
  obtain ⟨hatomic, hremoved⟩ := rules_atomic_after_moves hT _ rfl
  obtain ⟨u, hu, hgone, -⟩ := hremoved "flavors.macro"
  rw [himports] at hu hgone
  have hfailed {r : Except Misuse Summary} (h : r.toBool = false) : ∃ misuse, r = .error misuse := by
    cases r with
    | error misuse => exact ⟨misuse, rfl⟩
    | ok summary => cases h
  obtain ⟨misuse, hmisuse⟩ := hfailed herror
  obtain ⟨hno, hsame⟩ := hatomic _ _ _ _ misuse _ (Prod.ext hmisuse rfl)
  exact ⟨T, _, misuse, u, hT, rfl, Prod.ext hmisuse hsame, hno, hu, hgone 4 List.mem_cons_self⟩

end Expansion

end Flavoring
