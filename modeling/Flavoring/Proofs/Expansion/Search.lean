import Flavoring.Proofs.Expansion.Steps
import Flavoring.Proofs.Tree.Building

/-!
Search: how far above a marker its statement is looked for.

The search follows parent links, whichever they are. It finds the first statement on its way if that
is an expression statement and no more links away than the limit, and it gives up if all nodes up to
the limit let it pass. So a larger limit changes no search that has found something, and no pass that
has succeeded.
-/

namespace Flavoring

/-- The node that `n` parent links lead to. -/
def Tree.ancestor? (t : Tree) (id : NodeId) : Nat → Option NodeId
  | 0 => some id
  | n + 1 => (t.ancestor? id n).bind t.parent?

theorem Tree.ancestor?_succ (t : Tree) (id : NodeId) (n : Nat) :
    t.ancestor? id (n + 1) = (t.parent? id).bind fun parent => t.ancestor? parent n := by
  induction n with
  | zero => cases h : t.parent? id <;> simp [ancestor?, h]
  | succ n ih =>
    rw [ancestor?, ih, Option.bind_assoc]
    rfl

namespace Expansion

variable {t u : Tree} {id parent s s' : NodeId} {limit limit' k m n : Nat}

/-- The node `k` links up lets a search pass: it is there, it is live, and it is no statement. -/
def Passes (t : Tree) (id : NodeId) (k : Nat) : Prop :=
  ∃ x content, t.ancestor? id k = some x ∧ t.isLive x = true ∧ t.content? x = some content ∧
    content.isStatement = false

/-- The first statement on the way up is `s`, an expression statement `n` links away, and all nodes up
to it are live. -/
structure StandsIn (t : Tree) (id : NodeId) (n : Nat) (s : NodeId) : Prop where
  reached : t.ancestor? id n = some s
  isLive : t.isLive s = true
  expression : ∃ e, t.content? s = some (.expressionStatement e)
  passes : ∀ k < n, Passes t id k

/-! One link up -/

theorem passes_zero_iff : Passes t id 0 ↔
    t.isLive id = true ∧ ∃ content, t.content? id = some content ∧ content.isStatement = false := by
  constructor
  · rintro ⟨x, content, hx, hlive, hcontent, hno⟩
    cases hx
    exact ⟨hlive, content, hcontent, hno⟩
  · rintro ⟨hlive, content, hcontent, hno⟩
    exact ⟨id, content, rfl, hlive, hcontent, hno⟩

theorem passes_succ_iff (h : t.parent? id = some parent) :
    Passes t id (k + 1) ↔ Passes t parent k := by
  simp only [Passes, Tree.ancestor?_succ, h, Option.bind_some]

theorem not_passes_succ (h : t.parent? id = none) : ¬ Passes t id (k + 1) := by
  rintro ⟨x, content, hx, -⟩
  rw [Tree.ancestor?_succ, h] at hx
  cases hx

theorem StandsIn.up (h : StandsIn t parent n s) (hparent : t.parent? id = some parent)
    (hpasses : Passes t id 0) : StandsIn t id (n + 1) s where
  reached := by
    rw [Tree.ancestor?_succ, hparent]
    exact h.reached
  isLive := h.isLive
  expression := h.expression
  passes := by
    intro k hk
    cases k with
    | zero => exact hpasses
    | succ k => exact (passes_succ_iff hparent).mpr (h.passes k (Nat.lt_of_succ_lt_succ hk))

/-- A node that stands in a statement is the statement, or it passes and its parent stands in it. -/
theorem StandsIn.cases (h : StandsIn t id n s) :
    (n = 0 ∧ s = id) ∨ ∃ m parent, n = m + 1 ∧ t.parent? id = some parent ∧ Passes t id 0 ∧
      StandsIn t parent m s := by
  cases n with
  | zero =>
    have hreached := h.reached
    cases hreached
    exact Or.inl ⟨rfl, rfl⟩
  | succ m =>
    have hreached := h.reached
    rw [Tree.ancestor?_succ, Option.bind_eq_some_iff] at hreached
    obtain ⟨parent, hparent, hs⟩ := hreached
    refine Or.inr ⟨m, parent, rfl, hparent, h.passes 0 (Nat.succ_pos m), hs, h.isLive, h.expression,
      fun k hk => ?_⟩
    exact (passes_succ_iff hparent).mp (h.passes (k + 1) (Nat.succ_lt_succ hk))

-- An expression statement is a statement, so no search passes it.
theorem StandsIn.not_passes (h : StandsIn t id n s) : ¬ Passes t id n := by
  rintro ⟨x, content, hx, -, hcontent, hno⟩
  obtain ⟨e, he⟩ := h.expression
  rw [h.reached, Option.some.injEq] at hx
  rw [← hx, he, Option.some.injEq] at hcontent
  rw [← hcontent] at hno
  cases hno

theorem StandsIn.unique (h : StandsIn t id n s) (h' : StandsIn t id m s') : s = s' := by
  rcases Nat.lt_trichotomy n m with hlt | rfl | hlt
  · exact absurd (h'.passes n hlt) h.not_passes
  · exact Option.some.inj (h.reached.symm.trans h'.reached)
  · exact absurd (h.passes m hlt) h'.not_passes

/-! The search -/

/-- A node that neither passes nor is the statement itself ends the way. -/
theorem absent_of_blocked (hpasses : ¬ Passes t id 0) (hstands : ∀ s, ¬ StandsIn t id 0 s) :
    (∀ n ≤ limit, ∀ s, ¬ StandsIn t id n s) ∧ ¬ ∀ k ≤ limit, Passes t id k := by
  refine ⟨fun n _ s h => ?_, fun hall => hpasses (hall 0 (Nat.zero_le _))⟩
  rcases h.cases with ⟨rfl, -⟩ | ⟨m, parent, -, -, hpasses', -⟩
  · exact hstands s h
  · exact hpasses hpasses'

/-- What a search ends in says what stands on its way. -/
theorem searchStatement_outcome (t : Tree) (limit : Nat) (id : NodeId) :
    match searchStatement t limit id with
    | .found s => ∃ n ≤ limit, StandsIn t id n s
    | .tooFar => ∀ k ≤ limit, Passes t id k
    | .absent => (∀ n ≤ limit, ∀ s, ¬ StandsIn t id n s) ∧ ¬ ∀ k ≤ limit, Passes t id k := by
  fun_induction searchStatement t limit id with
  | case1 limit id hlive hnone =>
    refine absent_of_blocked (fun hpasses => ?_) fun s hstands => ?_
    · obtain ⟨-, content, hcontent, -⟩ := passes_zero_iff.mp hpasses
      rw [hnone] at hcontent
      cases hcontent
    · obtain ⟨e, he⟩ := hstands.expression
      cases hstands.reached
      rw [hnone] at he
      cases he
  | case2 limit id hlive content hcontent hexpression =>
    cases content with
    | expressionStatement e =>
      exact ⟨0, Nat.zero_le _, rfl, hlive, ⟨e, hcontent⟩, fun k hk => absurd hk (Nat.not_lt_zero k)⟩
    | _ => cases hexpression
  | case3 limit id hlive content hcontent hexpression hstatement =>
    refine absent_of_blocked (fun hpasses => ?_) fun s hstands => ?_
    · obtain ⟨-, content', hcontent', hno⟩ := passes_zero_iff.mp hpasses
      rw [hcontent, Option.some.injEq] at hcontent'
      rw [← hcontent', hstatement] at hno
      cases hno
    · obtain ⟨e, he⟩ := hstands.expression
      cases hstands.reached
      rw [hcontent, Option.some.injEq] at he
      exact hexpression (he ▸ rfl)
  | case4 id hlive content hcontent hexpression hstatement =>
    intro k hk
    rw [Nat.le_zero.mp hk]
    exact passes_zero_iff.mpr ⟨hlive, content, hcontent, Bool.eq_false_iff.mpr hstatement⟩
  | case5 id hlive content hcontent hexpression hstatement limit parent hparent ih =>
    have hpasses : Passes t id 0 :=
      passes_zero_iff.mpr ⟨hlive, content, hcontent, Bool.eq_false_iff.mpr hstatement⟩
    have hall : (∀ k ≤ limit + 1, Passes t id k) ↔ ∀ k ≤ limit, Passes t parent k := by
      constructor
      · exact fun h k hk => (passes_succ_iff hparent).mp (h (k + 1) (Nat.succ_le_succ hk))
      · intro h k hk
        cases k with
        | zero => exact hpasses
        | succ k => exact (passes_succ_iff hparent).mpr (h k (Nat.le_of_succ_le_succ hk))
    split at ih
    · obtain ⟨n, hn, hstands⟩ := ih
      exact ⟨n + 1, Nat.succ_le_succ hn, hstands.up hparent hpasses⟩
    · exact hall.mpr ih
    · refine ⟨fun n hn s hstands => ?_, mt hall.mp ih.2⟩
      rcases hstands.cases with ⟨rfl, rfl⟩ | ⟨m, parent', rfl, hparent', -, hrest⟩
      · exact hstands.not_passes hpasses
      · rw [hparent, Option.some.injEq] at hparent'
        exact ih.1 m (Nat.le_of_succ_le_succ hn) s (hparent' ▸ hrest)
  | case6 id hlive content hcontent hexpression hstatement limit hparent =>
    have hpasses : Passes t id 0 :=
      passes_zero_iff.mpr ⟨hlive, content, hcontent, Bool.eq_false_iff.mpr hstatement⟩
    refine ⟨fun n hn s hstands => ?_, fun hall => ?_⟩
    · rcases hstands.cases with ⟨rfl, rfl⟩ | ⟨m, parent, rfl, hparent', -⟩
      · exact hstands.not_passes hpasses
      · rw [hparent] at hparent'
        cases hparent'
    · exact not_passes_succ hparent (hall 1 (Nat.succ_le_succ (Nat.zero_le limit)))
  | case7 limit id hdead =>
    refine absent_of_blocked (fun hpasses => ?_) fun s hstands => ?_
    · exact hdead (passes_zero_iff.mp hpasses).1
    · cases hstands.reached
      exact hdead hstands.isLive

theorem searchStatement_eq_found_iff :
    searchStatement t limit id = .found s ↔ ∃ n ≤ limit, StandsIn t id n s := by
  have houtcome := searchStatement_outcome t limit id
  constructor
  · intro h
    rwa [h] at houtcome
  · rintro ⟨n, hn, hstands⟩
    split at houtcome
    · next s' h =>
      obtain ⟨m, -, hstands'⟩ := houtcome
      rw [h, hstands.unique hstands']
    · exact absurd (houtcome n hn) hstands.not_passes
    · exact absurd hstands (houtcome.1 n hn s)

theorem searchStatement_eq_tooFar_iff :
    searchStatement t limit id = .tooFar ↔ ∀ k ≤ limit, Passes t id k := by
  have houtcome := searchStatement_outcome t limit id
  constructor
  · intro h
    rwa [h] at houtcome
  · intro hall
    split at houtcome
    · obtain ⟨n, hn, hstands⟩ := houtcome
      exact absurd (hall n hn) hstands.not_passes
    · assumption
    · exact absurd hall houtcome.2

section expressionStatement

variable {site : NodeId} {marker : String}

theorem expressionStatement_eq_ok_iff :
    expressionStatement t site limit marker = .ok s ↔ ∃ n ≤ limit, StandsIn t site n s := by
  rw [← searchStatement_eq_found_iff]
  unfold expressionStatement
  split <;> simp_all

theorem expressionStatement_eq_unbounded_iff :
    expressionStatement t site limit marker =
        .error (.unboundedNesting marker limit (t.place site)) ↔
      ∀ k ≤ limit, Passes t site k := by
  rw [← searchStatement_eq_tooFar_iff]
  unfold expressionStatement
  split <;> simp_all

theorem expressionStatement_eq_not_iff :
    expressionStatement t site limit marker =
        .error (.notAnExpressionStatement marker (t.place site)) ↔
      (¬ ∃ n s, n ≤ limit ∧ StandsIn t site n s) ∧ ¬ ∀ k ≤ limit, Passes t site k := by
  rw [← searchStatement_eq_tooFar_iff]
  have hfound : (∃ n s, n ≤ limit ∧ StandsIn t site n s) ↔
      ∃ s, searchStatement t limit site = .found s := by
    simp only [searchStatement_eq_found_iff]
    exact exists_comm
  rw [hfound]
  unfold expressionStatement
  split <;> simp_all

end expressionStatement

/-! Passes with a larger limit -/

section larger

variable (options : Options) (config : Config)

/-- The options with another limit. -/
def Options.withLimit (limit : Nat) : Options := { options with traverseLimit := limit }

variable {options config} {applied summary : Summary} {found : NodeId × List NodeId} {marker : String}
  {site : NodeId} {w w' : Work} {sites : List NodeId} {rule : Rule}

theorem markerStatement_mono (h : markerStatement t site limit marker = .ok found)
    (hle : limit ≤ limit') : markerStatement t site limit' marker = .ok found := by
  unfold markerStatement at h ⊢
  cases hs : expressionStatement t site limit marker with
  | error misuse =>
    rw [hs] at h
    cases h
  | ok s =>
    obtain ⟨n, hn, hstands⟩ := expressionStatement_eq_ok_iff.mp hs
    have hs' : expressionStatement t site limit' marker = .ok s :=
      expressionStatement_eq_ok_iff.mpr ⟨n, Nat.le_trans hn hle, hstands⟩
    rw [hs] at h
    rw [hs']
    exact h

theorem redirectAbove_mono (h : redirectAbove options config t site = (.ok applied, u))
    (hle : options.traverseLimit ≤ limit) :
    redirectAbove (options.withLimit limit) config t site = (.ok applied, u) := by
  obtain ⟨hlive, statement, above, count, v, hstatement, hrest⟩ := redirectAbove_eq_ok_iff.mp h
  exact redirectAbove_eq_ok_iff.mpr
    ⟨hlive, statement, above, count, v, markerStatement_mono hstatement hle, hrest⟩

theorem apply_mono (h : rule.apply options config t site = (.ok applied, u))
    (hle : options.traverseLimit ≤ limit) :
    rule.apply (options.withLimit limit) config t site = (.ok applied, u) := by
  cases rule with
  | importRedirection => exact redirectAbove_mono h hle
  | literalSubstitution => exact h

theorem applyRule_mono (h : applyRule rule options config w sites = (.ok summary, w'))
    (hle : options.traverseLimit ≤ limit) :
    applyRule rule (options.withLimit limit) config w sites = (.ok summary, w') := by
  induction sites generalizing w summary with
  | nil => exact h
  | cons site sites ih =>
    by_cases hskip : rule.skipsDetached = true ∧ w.tree.isLive site = false
    · rw [applyRule_cons_of_skip hskip.1 hskip.2] at h ⊢
      exact ih h
    · have hlive : rule.skipsDetached = true → w.tree.isLive site = true := by
        simpa using hskip
      cases hrun : rule.apply options config w.tree site with
      | mk result tree =>
        cases result with
        | error misuse =>
          rw [applyRule_cons_of_error hlive hrun] at h
          cases h
        | ok applied =>
          rw [applyRule_cons_of_ok hlive hrun, Prod.mk.injEq] at h
          obtain ⟨rest, hrest, rfl⟩ := eq_ok_of_map_merge h.1
          rw [applyRule_cons_of_ok hlive (apply_mono hrun hle), ih (Prod.ext hrest h.2)]
          rfl

theorem applyRules_mono {refs : References} {rules : List Rule}
    (h : applyRules options config refs w rules = (.ok summary, w'))
    (hle : options.traverseLimit ≤ limit) :
    applyRules (options.withLimit limit) config refs w rules = (.ok summary, w') := by
  induction rules generalizing w summary with
  | nil => exact h
  | cons rule rules ih =>
    rw [applyRules] at h ⊢
    cases hrun : applyRule rule options config w (refs.get rule.marker) with
    | mk result w₁ =>
      rw [hrun] at h
      cases result with
      | error misuse => cases h
      | ok applied =>
        rw [applyRule_mono hrun hle]
        dsimp only at h ⊢
        rw [Prod.mk.injEq] at h
        obtain ⟨rest, hrest, rfl⟩ := eq_ok_of_map_merge h.1
        rw [ih (Prod.ext hrest h.2)]
        rfl

theorem eq_of_restore_eq_ok {tree : Tree} {r : Except Misuse Summary × Work}
    (h : restore tree r = (.ok summary, w')) : r = (.ok summary, w') := by
  unfold restore at h
  split at h
  · cases h
  · exact h

/-- A pass that succeeds with one limit does the same with a larger one. -/
theorem expand_withLimit (h : expand options config w = (.ok summary, w'))
    (hle : options.traverseLimit ≤ limit) :
    expand (options.withLimit limit) config w = (.ok summary, w') := by
  rw [expand] at h ⊢
  have hmodule : (options.withLimit limit).markerModule = options.markerModule := rfl
  rw [hmodule]
  split
  · next hempty => rwa [if_pos hempty] at h
  · next hempty =>
    rw [if_neg hempty] at h
    have hdrop := eq_of_restore_eq_ok h
    cases hrun : applyRules options config (References.collect w.tree options.markerModule) w
        Rule.all with
    | mk result w₁ =>
      cases result with
      | error misuse =>
        rw [hrun] at hdrop
        cases hdrop
      | ok rules =>
        rw [hrun] at h
        rw [applyRules_mono hrun hle]
        exact h

end larger

/-- The search for a marker's statement, on trees whose parent links may lead anywhere: what it finds,
when it gives up, and that nothing that is found or done is lost with a larger limit. -/
theorem search_exact (t : Tree) (site : NodeId) (limit : Nat) (marker : String) :
    (∀ s, expressionStatement t site limit marker = .ok s ↔ ∃ n ≤ limit, StandsIn t site n s) ∧
    (expressionStatement t site limit marker =
        .error (.unboundedNesting marker limit (t.place site)) ↔ ∀ k ≤ limit, Passes t site k) ∧
    (expressionStatement t site limit marker =
        .error (.notAnExpressionStatement marker (t.place site)) ↔
      (¬ ∃ n s, n ≤ limit ∧ StandsIn t site n s) ∧ ¬ ∀ k ≤ limit, Passes t site k) ∧
    ∀ (options : Options) (config : Config) (w w' : Work) (summary : Summary),
      expand options config w = (.ok summary, w') → options.traverseLimit ≤ limit →
        expand { options with traverseLimit := limit } config w = (.ok summary, w') :=
  ⟨fun _ => expressionStatement_eq_ok_iff, expressionStatement_eq_unbounded_iff,
    expressionStatement_eq_not_iff, fun _ _ _ _ _ hrun hle => expand_withLimit hrun hle⟩

/-- Two nodes, each the parent of the other. -/
def circle : Tree where
  nodes := #[{ content := .program [] }, { content := .construct "a" [2], parent := some 2 },
    { content := .construct "b" [1], parent := some 1 }]

/-- On a circle the search gives up at its limit. A module whose marker stands two levels below its
statement is expanded with a limit of two and, in the same way, with one of seven. -/
theorem search_exact_on_circle :
    expressionStatement circle 1 7 "fl" = .error (.unboundedNesting "fl" 7 (circle.place 1)) ∧
    (∀ k ≤ 7, Passes circle 1 k) ∧
    ∃ T summary w, Tree.parse
        "import a from 'x';\nimport fl from \"flavors.macro\";\nfl();\n" = .ok T ∧
      expand { traverseLimit := 2 } ⟨⟨[("x", "y")]⟩, {}⟩ ⟨T, {}⟩ = (.ok summary, w) ∧
      expand { traverseLimit := 7 } ⟨⟨[("x", "y")]⟩, {}⟩ ⟨T, {}⟩ = (.ok summary, w) := by
  have hcircle : expressionStatement circle 1 7 "fl" =
      .error (.unboundedNesting "fl" 7 (circle.place 1)) := rfl
  obtain ⟨-, hgivesUp, -, hlarger⟩ := search_exact circle 1 7 "fl"
  obtain ⟨T, hT, hrun⟩ := Tree.exists_parse
    (fun T => (expand { traverseLimit := 2 } ⟨⟨[("x", "y")]⟩, {}⟩ ⟨T, {}⟩).1.toBool)
    (by decide +kernel : (Tree.parse
      "import a from 'x';\nimport fl from \"flavors.macro\";\nfl();\n").toOption.any _ = true)
  cases hdone : expand { traverseLimit := 2 } ⟨⟨[("x", "y")]⟩, {}⟩ ⟨T, {}⟩ with
  | mk result w =>
    cases result with
    | error misuse =>
      rw [hdone] at hrun
      cases hrun
    | ok summary =>
      have hseven := hlarger { traverseLimit := 2 } ⟨⟨[("x", "y")]⟩, {}⟩ ⟨T, {}⟩ w summary hdone
        (by decide)
      exact ⟨hcircle, hgivesUp.mp hcircle, T, summary, w, hT, hdone, hseven⟩

end Expansion

end Flavoring
