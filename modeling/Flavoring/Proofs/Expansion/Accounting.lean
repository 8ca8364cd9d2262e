import Flavoring.Proofs.Expansion.Removals
import Flavoring.Proofs.Expansion.Retention

/-!
Accounting: calls of one macro report every reference of their modules, and its statistics agree with
what they report.

A rule counts at each reference it comes to, and what is counted stays counted where a call fails. So
the account is kept site by site: each site is handled, passed over, or the one at which the call
ends.
-/

namespace Flavoring.Expansion

open Flavoring.Tree

/-! Calls -/

/-- A module to expand, and the configuration for it. -/
structure Call where
  tree : Tree
  config : Config

/-- The outcomes of calls made one after the other, and the statistics after the last. -/
def expandAll (options : Options) (stats : Statistics) :
    List Call → List (Except Misuse Summary) × Statistics
  | [] => ([], stats)
  | call :: calls =>
    let (result, w) := expand options call.config ⟨call.tree, stats⟩
    let (results, stats) := expandAll options w.stats calls
    (result :: results, stats)

theorem expandAll_concat (options : Options) (stats : Statistics) (calls : List Call) (call : Call) :
    expandAll options stats (calls ++ [call]) =
      let done := expandAll options stats calls
      let last := expand options call.config ⟨call.tree, done.2⟩
      (done.1 ++ [last.1], last.2.stats) := by
  induction calls generalizing stats with
  | nil => rfl
  | cons first calls ih =>
    simp only [List.cons_append, expandAll, ih]

/-- The tree of a module's text, or what passes have made of one. -/
def IsModule (t : Tree) : Prop := ∃ source T, parse source = .ok T ∧ Altered T t

theorem IsModule.linked {t : Tree} (h : IsModule t) : t.Linked [] := by
  obtain ⟨source, T, hT, haltered⟩ := h
  exact haltered.linked (built_of_parse hT).toLinked

/-- How many of the calls failed. -/
def failures (results : List (Except Misuse Summary)) : Nat :=
  results.countP fun result => !result.toBool

theorem failures_cons (result : Except Misuse Summary) (results : List (Except Misuse Summary)) :
    failures (result :: results) = failures [result] + failures results := by
  simp only [failures, List.countP_cons, List.countP_nil]
  omega

theorem failures_map (result : Except Misuse Summary) (f : Summary → Summary) :
    failures [result.map f] = failures [result] := by
  cases result <;> rfl

/-! What a rule counts -/

namespace Statistics

variable {s : Statistics} {rule other : Rule} {f : RuleStats → RuleStats}

theorem get_update : (s.update rule f).get rule = f (s.get rule) := by
  cases rule <;> rfl

theorem get_update_of_ne (h : other ≠ rule) : (s.update rule f).get other = s.get other := by
  cases rule <;> cases other <;> first | rfl | exact absurd rfl h

/-- The errors of both rules. -/
def errors (s : Statistics) : Nat := s.importRedirection.errors + s.literalSubstitution.errors

theorem errors_update {n : Nat} (h : (f (s.get rule)).errors = (s.get rule).errors + n) :
    (s.update rule f).errors = s.errors + n := by
  cases rule <;> simp only [errors, update, get] at h ⊢ <;> omega

end Statistics

namespace Rule

/-- How a rule's counts hang together. An application that does not fail is one edit of a literal; it
is at least one edit, the removal of the marker, where imports are redirected. -/
def Balances : Rule → RuleStats → Prop
  | importRedirection, s =>
    s.skipped = 0 ∧ s.errors ≤ s.applications ∧ s.applications ≤ s.edits + s.errors
  | literalSubstitution, s => s.applications = s.edits + s.errors

/-- The references that a rule has handled, by what it reports. -/
def handled : Rule → Summary → Nat
  | importRedirection, summary => summary.markersRemoved
  | literalSubstitution, summary => summary.literalsSubstituted

theorem handled_merge (rule : Rule) (a b : Summary) :
    rule.handled (a.merge b) = rule.handled a + rule.handled b := by
  cases rule <;> rfl

/-- What a rule reports of one reference that it has handled. -/
inductive Yields : Rule → Summary → Prop
  | redirected (count : Nat) :
    Yields importRedirection { importsRedirected := count, markersRemoved := 1 }
  | substituted : Yields literalSubstitution { literalsSubstituted := 1 }

end Rule

variable {rule other : Rule} {s s' s'' : Statistics} {m n : Rule → Nat} {applied : Summary}
  {result : Except Misuse Summary} {misuse : Misuse}

theorem Rule.Yields.handled (h : rule.Yields applied) : rule.handled applied = 1 := by
  cases h <;> rfl

theorem Rule.Yields.handled_of_ne (h : rule.Yields applied) (hne : other ≠ rule) :
    other.handled applied = 0 := by
  cases h <;> cases other <;> first | rfl | exact absurd rfl hne

theorem Rule.Balances.skip {stats : RuleStats} (hskips : rule.skipsDetached = true)
    (h : rule.Balances stats) : rule.Balances stats.skip := by
  cases rule with
  | importRedirection => cases hskips
  | literalSubstitution => exact h

theorem Rule.Balances.succeed {stats : RuleStats} (hyields : rule.Yields applied)
    (h : rule.Balances stats) : rule.Balances (stats.succeed applied.edits) := by
  cases hyields with
  | redirected count =>
    obtain ⟨hskipped, herrors, hedits⟩ := h
    simp only [Rule.Balances, RuleStats.succeed, Summary.edits]
    omega
  | substituted =>
    simp only [Rule.Balances, RuleStats.succeed, Summary.edits] at h ⊢
    omega

theorem Rule.Balances.fail {stats : RuleStats} (h : rule.Balances stats) :
    rule.Balances stats.fail := by
  cases rule <;> simp only [Rule.Balances, RuleStats.fail] at h ⊢ <;> omega

/-- Between `s` and `s'` rules have gone through references, `sites rule` of each rule, with this
outcome. Where it is a success, each of them was handled or passed over. -/
structure Accounted (sites : Rule → Nat) (s : Statistics) (result : Except Misuse Summary)
    (s' : Statistics) : Prop where
  balances (rule : Rule) : rule.Balances (s.get rule) → rule.Balances (s'.get rule)
  errors : s'.errors = s.errors + failures [result]
  skipped_le (rule : Rule) : (s.get rule).skipped ≤ (s'.get rule).skipped
  handled {summary : Summary} : result = .ok summary → ∀ rule : Rule,
    rule.handled summary + (s'.get rule).skipped = (s.get rule).skipped + sites rule

namespace Accounted

theorem nothing (s : Statistics) : Accounted (fun _ => 0) s (.ok {}) s where
  balances _ h := h
  errors := rfl
  skipped_le _ := Nat.le_refl _
  handled := by
    rintro summary ⟨⟩ rule
    cases rule <;> exact Nat.zero_add _

/-- One site after others. -/
theorem merge (h : Accounted m s (.ok applied) s') (h' : Accounted n s' result s'') :
    Accounted (fun rule => m rule + n rule) s (result.map applied.merge) s'' where
  balances rule hs := h'.balances rule (h.balances rule hs)
  errors := by
    rw [failures_map, h'.errors, h.errors]
    rfl
  skipped_le rule := Nat.le_trans (h.skipped_le rule) (h'.skipped_le rule)
  handled := by
    intro summary hsummary rule
    obtain ⟨rest, hrest, rfl⟩ := eq_ok_of_map_merge hsummary
    have hfirst := h.handled rfl rule
    have hsecond := h'.handled hrest rule
    rw [rule.handled_merge]
    omega

theorem congr (h : Accounted m s result s') (hmn : ∀ rule, m rule = n rule) :
    Accounted n s result s' := funext hmn ▸ h

/-- A failure accounts for no site behind it. -/
theorem stop (h : Accounted m s (.error misuse) s') : Accounted n s (.error misuse) s' where
  balances := h.balances
  errors := h.errors
  skipped_le := h.skipped_le
  handled := nofun

theorem markerImports (h : Accounted m s (.ok applied) s') (count : Nat) :
    Accounted m s (.ok { applied with markerImportsRemoved := count }) s' where
  balances := h.balances
  errors := h.errors
  skipped_le := h.skipped_le
  handled := by
    rintro summary ⟨⟩ rule
    rw [← h.handled rfl rule]
    cases rule <;> rfl

/-- One site of a rule. -/
theorem of_update {f : RuleStats → RuleStats}
    (hbalances : rule.Balances (s.get rule) → rule.Balances (f (s.get rule)))
    (herrors : (f (s.get rule)).errors = (s.get rule).errors + failures [result])
    (hskipped : (s.get rule).skipped ≤ (f (s.get rule)).skipped)
    (hhandled : ∀ summary, result = .ok summary →
      rule.handled summary + (f (s.get rule)).skipped = (s.get rule).skipped + 1)
    (hothers : ∀ summary, result = .ok summary → ∀ other ≠ rule, other.handled summary = 0) :
    Accounted (fun other => if other = rule then 1 else 0) s result (s.update rule f) where
  balances other hs := by
    by_cases hother : other = rule
    · subst hother
      rw [Statistics.get_update]
      exact hbalances hs
    · rwa [Statistics.get_update_of_ne hother]
  errors := Statistics.errors_update herrors
  skipped_le other := by
    by_cases hother : other = rule
    · subst hother
      rwa [Statistics.get_update]
    · exact Nat.le_of_eq (congrArg _ (Statistics.get_update_of_ne hother).symm)
  handled := by
    intro summary hsummary other
    by_cases hother : other = rule
    · subst hother
      rw [Statistics.get_update, if_pos rfl]
      exact hhandled summary hsummary
    · rw [Statistics.get_update_of_ne hother, if_neg hother, hothers summary hsummary other hother,
        Nat.zero_add, Nat.add_zero]

theorem skip (hskips : rule.skipsDetached = true) :
    Accounted (fun other => if other = rule then 1 else 0) s (.ok {}) (s.update rule .skip) := by
  refine of_update (Rule.Balances.skip hskips) rfl (Nat.le_succ _) ?_ ?_
  · rintro summary ⟨⟩
    cases rule <;> exact Nat.zero_add _
  · rintro summary ⟨⟩ other -
    cases other <;> rfl

theorem succeed (hyields : rule.Yields applied) :
    Accounted (fun other => if other = rule then 1 else 0) s (.ok applied)
      (s.update rule (.succeed applied.edits)) := by
  refine of_update (Rule.Balances.succeed hyields) rfl (Nat.le_refl _) ?_ ?_
  · rintro summary ⟨⟩
    rw [hyields.handled, Nat.add_comm]
    rfl
  · rintro summary ⟨⟩ other hother
    exact hyields.handled_of_ne hother

theorem fail : Accounted n s (.error misuse) (s.update rule .fail) := by
  have hsite : Accounted (fun other => if other = rule then 1 else 0) s (.error misuse)
      (s.update rule .fail) := of_update Rule.Balances.fail rfl (Nat.le_refl _) nofun nofun
  exact hsite.stop

end Accounted

/-! Passes -/

theorem yields_of_apply {t u : Tree} {site : NodeId} {options : Options} {config : Config}
    (h : rule.apply options config t site = (.ok applied, u)) : rule.Yields applied := by
  cases rule with
  | importRedirection =>
    obtain ⟨-, -, -, count, -, -, -, -, rfl⟩ := redirectAbove_eq_ok_iff.mp h
    exact .redirected count
  | literalSubstitution =>
    obtain ⟨-, -, -, -, -, rfl⟩ := substituteLiteral_eq_ok_iff.mp h
    exact .substituted

section passes

variable (options : Options) (config : Config)

theorem accounted_applyRule (rule : Rule) (w : Work) (sites : List NodeId) :
    Accounted (fun other => if other = rule then sites.length else 0) w.stats
      (applyRule rule options config w sites).1
      (applyRule rule options config w sites).2.stats := by
  induction sites generalizing w with
  | nil => exact (Accounted.nothing w.stats).congr fun other => (ite_self 0).symm
  | cons site sites ih =>
    -- the first site and the others
    have hcount (other : Rule) :
        (if other = rule then 1 else 0) + (if other = rule then sites.length else 0) =
          if other = rule then (site :: sites).length else 0 := by
      split
      · exact Nat.add_comm _ _
      · rfl
    rcases applyRule_cons_cases rule options config w site sites with
      ⟨hskips, hcons⟩ | ⟨applied, tree, rest, w', hsite, hrest, hcons⟩ | ⟨misuse, tree, -, hcons⟩
    · have h := (Accounted.skip hskips).merge (ih ⟨w.tree, w.stats.update rule .skip⟩)
      rw [Summary.map_empty_merge] at h
      rw [hcons]
      exact h.congr hcount
    · have h := ih ⟨tree, w.stats.update rule (.succeed applied.edits)⟩
      rw [hrest] at h
      rw [hcons]
      exact ((Accounted.succeed (yields_of_apply hsite)).merge h).congr hcount
    · rw [hcons]
      exact .fail

theorem accounted_applyRules (refs : References) (w : Work) (rules : List Rule) :
    Accounted (fun rule => rules.count rule * (refs.get rule.marker).length) w.stats
      (applyRules options config refs w rules).1
      (applyRules options config refs w rules).2.stats := by
  induction rules generalizing w with
  | nil => exact (Accounted.nothing w.stats).congr fun rule => (Nat.zero_mul _).symm
  | cons rule rules ih =>
    have hcount (other : Rule) : (if other = rule then (refs.get rule.marker).length else 0) +
        rules.count other * (refs.get other.marker).length =
          (rule :: rules).count other * (refs.get other.marker).length := by
      rw [List.count_cons]
      by_cases hother : other = rule
      · subst hother
        simp [Nat.add_mul, Nat.add_comm]
      · simp [hother, Ne.symm hother]
    have hrule := accounted_applyRule options config rule w (refs.get rule.marker)
    rw [applyRules]
    cases hrun : applyRule rule options config w (refs.get rule.marker) with
    | mk result w₁ =>
      rw [hrun] at hrule
      cases result with
      | error misuse => exact hrule.stop
      | ok applied => exact (hrule.merge (ih w₁)).congr hcount

theorem accounted_rules (refs : References) (w : Work) :
    Accounted (fun rule => (refs.get rule.marker).length) w.stats
      (applyRules options config refs w Rule.all).1
      (applyRules options config refs w Rule.all).2.stats := by
  refine (accounted_applyRules options config refs w Rule.all).congr fun rule => ?_
  cases rule <;> exact Nat.one_mul _

/-- A pass accounts for the references and for the imports of the marker module. -/
theorem accounted_expand (w : Work) (ht : w.tree.Linked []) :
    Accounted (fun rule =>
        ((References.collect w.tree options.markerModule).get rule.marker).length) w.stats
      (expand options config w).1 (expand options config w).2.stats ∧
    ∀ summary, (expand options config w).1 = .ok summary → summary.markerImportsRemoved =
      (References.collect w.tree options.markerModule).imports.length := by
  by_cases himports : (References.collect w.tree options.markerModule).imports = []
  · have hexpand : expand options config w = (.ok {}, w) := by simp [expand, himports]
    rw [hexpand, himports]
    refine ⟨(Accounted.nothing w.stats).congr fun rule => ?_, ?_⟩
    · rw [References.get_eq_nil himports]
      rfl
    · rintro summary ⟨⟩
      rfl
  · have hexpand : expand options config w =
        restore w.tree (dropImports (References.collect w.tree options.markerModule)
          (applyRules options config (References.collect w.tree options.markerModule) w
            Rule.all)) := by
      simp [expand, himports]
    have hrules := accounted_rules options config
      (References.collect w.tree options.markerModule) w
    rw [hexpand]
    cases hrun : applyRules options config (References.collect w.tree options.markerModule) w
        Rule.all with
    | mk result w' =>
      rw [hrun] at hrules
      cases result with
      | error misuse =>
        refine ⟨hrules, ?_⟩
        rintro summary ⟨⟩
      | ok summary =>
        obtain ⟨tree, hdrop⟩ := dropImports_ok ht hrun
        rw [hdrop]
        refine ⟨hrules.markerImports _, ?_⟩
        rintro _ ⟨⟩
        rfl

end passes

/-! Sequences of calls -/

/-- How the statistics of a macro hang together after calls of which `failed` returned an error. -/
structure Accounts (s : Statistics) (failed : Nat) : Prop where
  /-- The success rate is taken of no more errors than applications. -/
  errors_le (rule : Rule) : (s.get rule).errors ≤ (s.get rule).applications
  errors_eq : s.importRedirection.errors + s.literalSubstitution.errors = failed
  literal_edits : s.literalSubstitution.edits =
    s.literalSubstitution.applications - s.literalSubstitution.errors
  import_skipped : s.importRedirection.skipped = 0
  import_edits :
    s.importRedirection.applications - s.importRedirection.errors ≤ s.importRedirection.edits

/-- What a call that succeeds reports of the references of its module. -/
structure Reports (refs : References) (before after : Statistics) (summary : Summary) : Prop where
  markersRemoved : summary.markersRemoved = (refs.get "default").length
  markerImportsRemoved : summary.markerImportsRemoved = refs.imports.length
  skipped_le : before.literalSubstitution.skipped ≤ after.literalSubstitution.skipped
  literalsSubstituted : summary.literalsSubstituted +
    (after.literalSubstitution.skipped - before.literalSubstitution.skipped) =
      (refs.get "getFlavor").length

theorem accounts_of_balances {failed : Nat} (h : ∀ rule : Rule, rule.Balances (s.get rule))
    (herrors : s.errors = failed) : Accounts s failed := by
  obtain ⟨hskipped, hle, hedits⟩ := h .importRedirection
  have hliteral := h .literalSubstitution
  simp only [Rule.Balances, Statistics.get] at hskipped hle hedits hliteral
  constructor
  case errors_le =>
    intro rule
    cases rule with
    | importRedirection => exact hle
    | literalSubstitution =>
      simp only [Statistics.get]
      omega
  case errors_eq => exact herrors
  case literal_edits => omega
  case import_skipped => exact hskipped
  case import_edits => omega

theorem Accounted.reports {refs : References} {summary : Summary}
    (h : Accounted (fun rule => (refs.get rule.marker).length) s (.ok summary) s')
    (hs : Rule.importRedirection.Balances (s.get .importRedirection))
    (himports : summary.markerImportsRemoved = refs.imports.length) : Reports refs s s' summary := by
  have hmarkers := h.handled rfl .importRedirection
  have hliterals := h.handled rfl .literalSubstitution
  have hle := h.skipped_le .literalSubstitution
  -- markers are never passed over
  rw [hs.1, (h.balances .importRedirection hs).1] at hmarkers
  simp only [Rule.handled, Rule.marker, Nat.add_zero, Nat.zero_add] at hmarkers
  simp only [Rule.handled, Rule.marker, Statistics.get] at hliterals hle
  exact ⟨hmarkers, himports, hle, by omega⟩

theorem balances_expandAll (options : Options) {calls : List Call}
    (hmodules : ∀ call ∈ calls, IsModule call.tree)
    (hs : ∀ rule : Rule, rule.Balances (s.get rule)) :
    (∀ rule : Rule, rule.Balances ((expandAll options s calls).2.get rule)) ∧
    (expandAll options s calls).2.errors = s.errors + failures (expandAll options s calls).1 := by
  induction calls generalizing s with
  | nil => exact ⟨hs, rfl⟩
  | cons call calls ih =>
    obtain ⟨hcall, hrest⟩ := List.forall_mem_cons.mp hmodules
    obtain ⟨haccounted, -⟩ := accounted_expand options call.config ⟨call.tree, s⟩ hcall.linked
    obtain ⟨hbalances, herrors⟩ := ih hrest fun rule => haccounted.balances rule (hs rule)
    have hfailures := failures_cons (expand options call.config ⟨call.tree, s⟩).1
      (expandAll options (expand options call.config ⟨call.tree, s⟩).2.stats calls).1
    refine ⟨hbalances, herrors.trans ?_⟩
    rw [haccounted.errors, Nat.add_assoc, ← hfailures]
    rfl

/-- After any calls of one macro on modules its statistics agree with each other and with the number of
calls that failed. Each call that succeeded has reported every reference of its module: a marker as
removed, a lookup as substituted or, in the statistics, as skipped, an import as removed. -/
theorem calls_accounted (options : Options) (calls : List Call)
    (hmodules : ∀ call ∈ calls, IsModule call.tree) :
    Accounts (expandAll options {} calls).2 (failures (expandAll options {} calls).1) ∧
    ∀ before call after summary, calls = before ++ call :: after →
      (expandAll options {} (before ++ [call])).1 =
        (expandAll options {} before).1 ++ [.ok summary] →
      Reports (References.collect call.tree options.markerModule) (expandAll options {} before).2
        (expandAll options {} (before ++ [call])).2 summary := by
  have hstart (rule : Rule) : rule.Balances (({} : Statistics).get rule) := by
    cases rule with
    | importRedirection => exact ⟨rfl, Nat.le_refl _, Nat.le_refl _⟩
    | literalSubstitution => rfl
  constructor
  · obtain ⟨hbalances, herrors⟩ := balances_expandAll options hmodules hstart
    refine accounts_of_balances hbalances ?_
    rw [herrors]
    exact Nat.zero_add _
  · rintro before call after summary rfl hresult
    have hbefore : ∀ call ∈ before, IsModule call.tree :=
      fun call hcall => hmodules call (List.mem_append_left _ hcall)
    have hmodule := hmodules call (List.mem_append_right _ List.mem_cons_self)
    obtain ⟨hbalances, -⟩ := balances_expandAll options hbefore hstart
    rw [expandAll_concat] at hresult ⊢
    simp only [List.append_cancel_left_eq, List.cons.injEq, and_true] at hresult
    obtain ⟨haccounted, himports⟩ := accounted_expand options call.config
      ⟨call.tree, (expandAll options {} before).2⟩ hmodule.linked
    rw [hresult] at haccounted
    exact haccounted.reports (hbalances .importRedirection) (himports summary hresult)

/-- A lookup that is not called fails its module. The next module has a lookup in a marker's statement,
which is skipped, and one outside of it. -/
theorem calls_accounted_of_failure_and_skip :
    ∃ T T', parse "import \x7b getFlavor \x7d from 'flavors.macro';\nf(getFlavor);\n" = .ok T ∧
      parse ("import fl, \x7b getFlavor \x7d from 'flavors.macro';\n" ++
        "fl(getFlavor('a'));\nf(getFlavor('a'));\n") = .ok T' ∧
      (expandAll {} {} [⟨T, {}⟩, ⟨T', {}⟩]).2 =
        ⟨{ applications := 1, edits := 1 },
          { applications := 2, edits := 1, skipped := 1, errors := 1 }⟩ ∧
      Accounts (expandAll {} {} [⟨T, {}⟩, ⟨T', {}⟩]).2 1 ∧
      Reports (References.collect T' "flavors.macro") (expandAll {} {} [⟨T, {}⟩]).2
        (expandAll {} {} [⟨T, {}⟩, ⟨T', {}⟩]).2
        { literalsSubstituted := 1, markersRemoved := 1, markerImportsRemoved := 1 } := by
  obtain ⟨T, hT, hfirst⟩ := exists_parse
    (fun T => (expand {} {} ⟨T, {}⟩).2.stats = ⟨{}, { applications := 1, errors := 1 }⟩)
    (by decide +kernel : (parse
      "import \x7b getFlavor \x7d from 'flavors.macro';\nf(getFlavor);\n").toOption.any _ = true)
  obtain ⟨T', hT', hsecond⟩ := exists_parse
    (fun T' =>
      let done := expand {} {} ⟨T', ⟨{}, { applications := 1, errors := 1 }⟩⟩
      done.1 = .ok { literalsSubstituted := 1, markersRemoved := 1, markerImportsRemoved := 1 } ∧
        done.2.stats = ⟨{ applications := 1, edits := 1 },
          { applications := 2, edits := 1, skipped := 1, errors := 1 }⟩)
    (by decide +kernel : (parse ("import fl, \x7b getFlavor \x7d from 'flavors.macro';\n" ++
      "fl(getFlavor('a'));\nf(getFlavor('a'));\n")).toOption.any _ = true)
  have hbetween : (expandAll {} {} [⟨T, {}⟩]).2 = ⟨{}, { applications := 1, errors := 1 }⟩ :=
    of_decide_eq_true hfirst
  obtain ⟨hsummary, hafter⟩ := of_decide_eq_true hsecond
  have hlast := expandAll_concat {} {} [⟨T, {}⟩] ⟨T', {}⟩
  simp only [hbetween, hsummary, hafter] at hlast
  have hmodules : ∀ call ∈ [(⟨T, {}⟩ : Call), ⟨T', {}⟩], IsModule call.tree := by
    intro call hcall
    rcases List.mem_pair.mp hcall with rfl | rfl
    · exact ⟨_, T, hT, .refl⟩
    · exact ⟨_, T', hT', .refl⟩
  obtain ⟨haccounts, hreports⟩ := calls_accounted {} [⟨T, {}⟩, ⟨T', {}⟩] hmodules
  have hstats : (expandAll {} {} [⟨T, {}⟩, ⟨T', {}⟩]).2 = _ := congrArg Prod.snd hlast
  have hone : failures (expandAll {} {} [⟨T, {}⟩, ⟨T', {}⟩]).1 = 1 := by
    rw [← haccounts.errors_eq, hstats]
    rfl
  exact ⟨T, T', hT, hT', hstats, hone ▸ haccounts,
    hreports [⟨T, {}⟩] ⟨T', {}⟩ [] _ rfl (congrArg Prod.fst hlast)⟩

end Flavoring.Expansion
