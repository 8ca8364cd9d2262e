import Flavoring.Expansion.Pass

/-! Steps of a rule from site to site: where a run goes on, and where it stops. -/

namespace Flavoring.Expansion

theorem Summary.empty_merge (s : Summary) : Summary.merge {} s = s := by
  simp [Summary.merge]

theorem Summary.map_empty_merge (result : Except Misuse Summary) :
    result.map (Summary.merge {}) = result := by
  cases result with
  | error misuse => rfl
  | ok summary => exact congrArg _ summary.empty_merge

/-! Where a rule succeeds -/

theorem redirectAbove_eq_ok_iff {options : Options} {config : Config} {t u : Tree} {site : NodeId}
    {applied : Summary} : redirectAbove options config t site = (.ok applied, u) ↔
      t.isDangling (some site) = false ∧ ∃ statement above count v,
        markerStatement t site options.traverseLimit
          (spelling t site Rule.importRedirection.marker) = .ok (statement, above) ∧
        redirectImports config t above = (.ok count, v) ∧ v.remove statement = .ok u ∧
        applied = { importsRedirected := count, markersRemoved := 1 } := by
  constructor
  · intro h
    unfold redirectAbove at h
    dsimp only at h
    split at h
    · cases h
    · next hdangling =>
      split at h
      · cases h
      · next statement above hstatement =>
        split at h
        · cases h
        · next count v hrun =>
          split at h
          · cases h
          · next hremove =>
            cases h
            exact ⟨Bool.eq_false_iff.mpr hdangling, statement, above, count, v, hstatement, hrun,
              hremove, rfl⟩
  · rintro ⟨hdangling, statement, above, count, v, hstatement, hrun, hremove, rfl⟩
    simp [redirectAbove, hdangling, hstatement, hrun, hremove]

theorem substituteLiteral_eq_ok_iff {config : Config} {t u : Tree} {site : NodeId}
    {applied : Summary} : substituteLiteral config t site = (.ok applied, u) ↔
      t.isDangling (some site) = false ∧ ∃ call key,
        flavorCall t site (spelling t site Rule.literalSubstitution.marker) = .ok (call, key) ∧
        t.replace call (.literal { value := config.flavor key }) = .ok u ∧
        applied = { literalsSubstituted := 1 } := by
  constructor
  · intro h
    unfold substituteLiteral at h
    dsimp only at h
    split at h
    · cases h
    · next hdangling =>
      split at h
      · cases h
      · next call key hcall =>
        split at h
        · cases h
        · next hreplace =>
          cases h
          exact ⟨Bool.eq_false_iff.mpr hdangling, call, key, hcall, hreplace, rfl⟩
  · rintro ⟨hdangling, call, key, hcall, hreplace, rfl⟩
    simp [substituteLiteral, hdangling, hcall, hreplace]

/-! What a run counts at one site -/

namespace RuleStats

def skip (s : RuleStats) : RuleStats := { s with skipped := s.skipped + 1 }

def succeed (edits : Nat) (s : RuleStats) : RuleStats :=
  { s with applications := s.applications + 1, edits := s.edits + edits }

def fail (s : RuleStats) : RuleStats :=
  { s with applications := s.applications + 1, errors := s.errors + 1 }

end RuleStats

section equations

variable {rule : Rule} {options : Options} {config : Config} {w : Work} {tree : Tree}
  {site : NodeId} {applied : Summary} {misuse : Misuse}

theorem applyRule_cons_of_skip (hskip : rule.skipsDetached = true)
    (hdead : w.tree.isLive site = false) (sites : List NodeId) :
    applyRule rule options config w (site :: sites) =
      applyRule rule options config ⟨w.tree, w.stats.update rule .skip⟩ sites := by
  rw [applyRule, hskip, hdead]
  rfl

theorem applyRule_cons_of_ok (hlive : rule.skipsDetached = true → w.tree.isLive site = true)
    (h : rule.apply options config w.tree site = (.ok applied, tree)) (sites : List NodeId) :
    applyRule rule options config w (site :: sites) =
      ((applyRule rule options config
          ⟨tree, w.stats.update rule (.succeed applied.edits)⟩ sites).1.map applied.merge,
        (applyRule rule options config
          ⟨tree, w.stats.update rule (.succeed applied.edits)⟩ sites).2) := by
  have hskip : (rule.skipsDetached && !w.tree.isLive site) = false := by
    cases hs : rule.skipsDetached <;> simp_all
  rw [applyRule, hskip, h]
  cases rule <;> rfl

theorem applyRule_cons_of_error (hlive : rule.skipsDetached = true → w.tree.isLive site = true)
    (h : rule.apply options config w.tree site = (.error misuse, tree)) (sites : List NodeId) :
    applyRule rule options config w (site :: sites) =
      (.error misuse, ⟨tree, w.stats.update rule .fail⟩) := by
  have hskip : (rule.skipsDetached && !w.tree.isLive site) = false := by
    cases hs : rule.skipsDetached <;> simp_all
  rw [applyRule, hskip, h]
  cases rule <;> rfl

/-- A run passes over its first site, goes on from what the rule makes of it, or ends there. -/
theorem applyRule_cons_cases (rule : Rule) (options : Options) (config : Config) (w : Work)
    (site : NodeId) (sites : List NodeId) :
    (rule.skipsDetached = true ∧
      applyRule rule options config w (site :: sites) =
        applyRule rule options config ⟨w.tree, w.stats.update rule .skip⟩ sites) ∨
    (∃ applied tree rest w', rule.apply options config w.tree site = (.ok applied, tree) ∧
      applyRule rule options config ⟨tree, w.stats.update rule (.succeed applied.edits)⟩ sites =
        (rest, w') ∧
      applyRule rule options config w (site :: sites) = (rest.map applied.merge, w')) ∨
    ∃ misuse tree, rule.apply options config w.tree site = (.error misuse, tree) ∧
      applyRule rule options config w (site :: sites) =
        (.error misuse, ⟨tree, w.stats.update rule .fail⟩) := by
  by_cases hskip : rule.skipsDetached = true ∧ w.tree.isLive site = false
  · exact Or.inl ⟨hskip.1, applyRule_cons_of_skip hskip.1 hskip.2 sites⟩
  · have hlive : rule.skipsDetached = true → w.tree.isLive site = true := by
      simpa using hskip
    cases hrun : rule.apply options config w.tree site with
    | mk result tree =>
      cases result with
      | ok applied =>
        exact Or.inr (Or.inl ⟨applied, tree, _, _, rfl, rfl, applyRule_cons_of_ok hlive hrun sites⟩)
      | error misuse =>
        exact Or.inr (Or.inr ⟨misuse, tree, rfl, applyRule_cons_of_error hlive hrun sites⟩)

end equations

theorem eq_ok_of_map_merge {result : Except Misuse Summary} {applied summary : Summary}
    (h : result.map applied.merge = .ok summary) :
    ∃ rest, result = .ok rest ∧ summary = applied.merge rest := by
  cases result with
  | error misuse => cases h
  | ok rest =>
    cases h
    exact ⟨rest, rfl, rfl⟩

/-! What a rule keeps of a tree wherever it succeeds, runs that succeed keep as well -/

section invariant

variable {options : Options} {config : Config} {summary : Summary} {P : Tree → Prop}

theorem applyRule_invariant {rule : Rule} (hstep : ∀ t site applied u, P t →
      rule.apply options config t site = (.ok applied, u) → P u) {w w' : Work}
    {sites : List NodeId} (hw : P w.tree)
    (h : applyRule rule options config w sites = (.ok summary, w')) : P w'.tree := by
  induction sites generalizing w summary with
  | nil =>
    cases h
    exact hw
  | cons site sites ih =>
    rcases applyRule_cons_cases rule options config w site sites with
      ⟨-, hcons⟩ | ⟨applied, tree, rest, w₁, hsite, hrest, hcons⟩ | ⟨misuse, tree, -, hcons⟩
    · refine ih ?_ (hcons ▸ h)
      exact hw
    · rw [hcons, Prod.mk.injEq] at h
      obtain ⟨hmap, rfl⟩ := h
      obtain ⟨rest, rfl, -⟩ := eq_ok_of_map_merge hmap
      exact ih (hstep w.tree site applied tree hw hsite) hrest
    · rw [hcons] at h
      cases h

theorem applyRules_invariant (hstep : ∀ (rule : Rule) t site applied u, P t →
      rule.apply options config t site = (.ok applied, u) → P u) {refs : References}
    {rules : List Rule} {w w' : Work} (hw : P w.tree)
    (h : applyRules options config refs w rules = (.ok summary, w')) : P w'.tree := by
  induction rules generalizing w summary with
  | nil =>
    cases h
    exact hw
  | cons rule rules ih =>
    rw [applyRules] at h
    cases hrun : applyRule rule options config w (refs.get rule.marker) with
    | mk result w₁ =>
      rw [hrun] at h
      cases result with
      | error misuse => cases h
      | ok applied =>
        dsimp only at h
        rw [Prod.mk.injEq] at h
        obtain ⟨rest, hrest, -⟩ := eq_ok_of_map_merge h.1
        exact ih (applyRule_invariant (hstep rule) hw hrun) (Prod.ext hrest h.2)

end invariant

/-- The run changes what `applied` counts at its first site and goes on from `w'`. -/
structure GoesOn (rule : Rule) (options : Options) (config : Config) (w : Work) (site : NodeId)
    (applied : Summary) (w' : Work) : Prop where
  work (sites : List NodeId) : (applyRule rule options config w (site :: sites)).2 =
    (applyRule rule options config w' sites).2
  ok {sites : List NodeId} {summary : Summary} :
    (applyRule rule options config w' sites).1 = .ok summary →
      (applyRule rule options config w (site :: sites)).1 = .ok (applied.merge summary)
  error {sites : List NodeId} {misuse : Misuse} :
    (applyRule rule options config w' sites).1 = .error misuse →
      (applyRule rule options config w (site :: sites)).1 = .error misuse

/-- The run ends in a misuse, which the rule raises at `site`, in the tree that the sites before it
have left. -/
structure StopsAt (rule : Rule) (options : Options) (config : Config) (w : Work)
    (sites before : List NodeId) (site : NodeId) (misuse : Misuse) : Prop where
  split : ∃ after, sites = before ++ site :: after
  run : (applyRule rule options config w sites).1 = .error misuse
  raised : (rule.apply options config (applyRule rule options config w before).2.tree site).1 =
    .error misuse

variable (rule : Rule) (options : Options) {config : Config} {w w' : Work} {tree : Tree}
  {site x : NodeId} {sites before : List NodeId} {misuse : Misuse} {applied : Summary}

theorem goesOn_of_ok
    (hlive : rule.skipsDetached = true → w.tree.isLive site = true)
    (h : rule.apply options config w.tree site = (.ok applied, tree)) :
    ∃ stats, GoesOn rule options config w site applied ⟨tree, stats⟩ := by
  have hcons := applyRule_cons_of_ok hlive h
  refine ⟨w.stats.update rule (.succeed applied.edits), fun sites => by rw [hcons], ?_, ?_⟩
  · intro sites summary hok
    rw [hcons, hok]
    rfl
  · intro sites misuse herr
    rw [hcons, herr]
    rfl

theorem goesOn_of_skip (hskip : rule.skipsDetached = true) (hdead : w.tree.isLive site = false) :
    ∃ stats, GoesOn rule options config w site {} ⟨w.tree, stats⟩ := by
  have hcons (sites : List NodeId) : applyRule rule options config w (site :: sites) =
      applyRule rule options config ⟨w.tree, w.stats.update rule .skip⟩ sites :=
    applyRule_cons_of_skip hskip hdead sites
  refine ⟨w.stats.update rule .skip, fun sites => by rw [hcons], ?_, ?_⟩
  · intro sites summary hok
    rw [hcons, hok, Summary.empty_merge]
  · intro sites misuse herr
    rw [hcons, herr]

theorem stopsAt_of_error (hlive : rule.skipsDetached = true → w.tree.isLive site = true)
    (h : rule.apply options config w.tree site = (.error misuse, tree)) (sites : List NodeId) :
    StopsAt rule options config w (site :: sites) [] site misuse where
  split := ⟨sites, rfl⟩
  run := by rw [applyRule_cons_of_error hlive h]
  raised := congrArg Prod.fst h

variable {rule options}

theorem StopsAt.cons (hgo : GoesOn rule options config w x applied w')
    (h : StopsAt rule options config w' sites before site misuse) :
    StopsAt rule options config w (x :: sites) (x :: before) site misuse where
  split := by
    obtain ⟨after, rfl⟩ := h.split
    exact ⟨after, rfl⟩
  run := hgo.error h.run
  raised := by
    rw [hgo.work]
    exact h.raised

end Flavoring.Expansion
