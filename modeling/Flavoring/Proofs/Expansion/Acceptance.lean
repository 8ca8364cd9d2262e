import Flavoring.Proofs.Expansion.Substitution

/-!
Acceptance: which modules can be expanded, told by the tree of the module alone, and at which site
the others fail.
-/

namespace Flavoring.Expansion

open Flavoring.Tree

variable {T t : Tree} {source : String} {gone markers : List NodeId}
  {put base : NodeId → Option Literal} {config : Config} {options : Options} {stats : Statistics}

/-- What a module needs to be expanded: each use of the default marker has a statement of its own,
and each use of `getFlavor` outside these statements is called with a key. -/
def Acceptable (T : Tree) (limit : Nat) (refs : References) : Prop :=
  ∃ markers, List.Forall₂ (IsMarker T limit) (refs.get "default") markers ∧ markers.Nodup ∧
    ∀ site ∈ refs.get "getFlavor", (∀ m ∈ markers, ¬ T.Below m site) →
      ∃ call key, CalledWith T site call key

/-- The first site that lacks what it needs, and the misuse that its rule raises there: uses of the
default marker come first, in the order of the text, and then uses of `getFlavor`. -/
inductive FirstMisuse (T : Tree) (options : Options) (config : Config) (stats : Statistics)
    (refs : References) : Misuse → Prop
  | marker {before markers : List NodeId} {site : NodeId} {misuse : Misuse} :
    StopsAt .importRedirection options config ⟨T, stats⟩ (refs.get "default") before site misuse →
    List.Forall₂ (IsMarker T options.traverseLimit) before markers → markers.Nodup →
    Unmarked T options config markers site misuse → FirstMisuse T options config stats refs misuse
  | key {before markers : List NodeId} {site : NodeId} {misuse : Misuse} :
    List.Forall₂ (IsMarker T options.traverseLimit) (refs.get "default") markers → markers.Nodup →
    StopsAt .literalSubstitution options config
      (applyRule .importRedirection options config ⟨T, stats⟩ (refs.get "default")).2
      (refs.get "getFlavor") before site misuse →
    (∀ x ∈ before, (∀ m ∈ markers, ¬ T.Below m x) → ∃ call key, CalledWith T x call key) →
    Unkeyed T config markers site misuse → FirstMisuse T options config stats refs misuse

/-! Marker statements of sites -/

theorem forall₂_isMarker_unique {limit : Nat} {sites markers' : List NodeId}
    (h : List.Forall₂ (IsMarker T limit) sites markers)
    (h' : List.Forall₂ (IsMarker T limit) sites markers') : markers = markers' := by
  induction h generalizing markers' with
  | nil =>
    cases h'
    rfl
  | cons hs _ ih =>
    cases h' with
    | cons hs' hrest => rw [hs.unique hs', ih hrest]

theorem exists_next_marker {limit : Nat} {before after markers' : List NodeId} {site : NodeId}
    (hbefore : List.Forall₂ (IsMarker T limit) before markers)
    (h : List.Forall₂ (IsMarker T limit) (before ++ site :: after) markers') :
    ∃ m rest, markers' = markers ++ m :: rest ∧ IsMarker T limit site m := by
  induction hbefore generalizing markers' with
  | nil =>
    cases h with
    | cons hm _ => exact ⟨_, _, rfl, hm⟩
  | cons hs _ ih =>
    cases h with
    | cons hs' hrest =>
      obtain ⟨m, rest, rfl, hm⟩ := ih hrest
      exact ⟨m, rest, by rw [hs.unique hs']; rfl, hm⟩

theorem not_acceptable {refs : References} {misuse : Misuse}
    (h : FirstMisuse T options config stats refs misuse) :
    ¬ Acceptable T options.traverseLimit refs := by
  rintro ⟨markers, hall, hnodup, hkeyed⟩
  cases h with
  | marker hstop hbefore _ hun =>
    obtain ⟨after, hsplit⟩ := hstop.split
    rw [hsplit] at hall
    obtain ⟨m, rest, rfl, hm⟩ := exists_next_marker hbefore hall
    -- the next marker statement would have to be one of the earlier ones
    exact (List.nodup_append.mp hnodup).2.2 m (hun.shared hm).1 m List.mem_cons_self rfl
  | key hall' _ hstop _ hun =>
    obtain ⟨after, hsplit⟩ := hstop.split
    have hmem := hkeyed _ (hsplit ▸ List.mem_append_right _ List.mem_cons_self)
    rw [forall₂_isMarker_unique hall hall'] at hmem
    obtain ⟨call, key, hkey⟩ := hmem hun.free
    exact hun.unkeyed call key hkey

/-! A pass -/

-- Statements of the program can be taken out one after the other.
theorem removeImports_spec (hT : T.Built source []) (h : Edited T gone put t)
    {imports : List NodeId} (hsub : ∀ s ∈ imports, s ∈ t.statements) (hnodup : imports.Nodup) :
    ∃ count t', References.removeImports t imports = (.ok count, t') ∧
      Edited T (gone ++ imports) put t' := by
  induction imports generalizing gone t with
  | nil => exact ⟨0, t, rfl, by rwa [List.append_nil]⟩
  | cons s imports ih =>
    have hrev := h.revision hT
    have hs := hsub s List.mem_cons_self
    obtain ⟨hsNew, hnodup'⟩ := List.nodup_cons.mp hnodup
    obtain ⟨u, hu⟩ := hrev.exists_remove hs
    have hedited := h.remove hs hu
    have hsub' : ∀ x ∈ imports, x ∈ u.statements := by
      intro x hx
      obtain ⟨hxT, hxGone⟩ := hrev.mem_statements.mp (hsub x (List.mem_cons_of_mem s hx))
      refine (hedited.revision hT).mem_statements.mpr ⟨hxT, fun hmem => ?_⟩
      rcases List.mem_append.mp hmem with hmem | hmem
      · exact hxGone hmem
      · exact hsNew (List.mem_singleton.mp hmem ▸ hx)
    obtain ⟨count, t', hrun, hedited'⟩ := ih hedited hsub' hnodup'
    refine ⟨count + 1, t', ?_, by rwa [List.append_cons]⟩
    simp [References.removeImports, hrev.isLive_of_mem_statements hs, hu, hrun, Except.map]

/-- What a pass leaves of a module: the markers were expanded, then the sites, and then the imports
of the marker module were taken out. -/
structure Expanded (T : Tree) (options : Options) (config : Config) (refs : References)
    (markers : List NodeId) (put : NodeId → Option Literal) (t : Tree) : Prop where
  marked : List.Forall₂ (IsMarker T options.traverseLimit) (refs.get "default") markers
  nodup : markers.Nodup
  substituted : ∃ base t₁ t₂, Redirected T config markers base t₁ ∧
    Substituted T config markers base (refs.get "getFlavor") put t₂
  edited : Edited T (markers ++ refs.imports) put t

section pass

variable {refs : References} {w w₁ w₂ : Work} {misuse : Misuse} {first second : Summary}

theorem applyRules_error_at_marker
    (h : applyRule .importRedirection options config w (refs.get "default") = (.error misuse, w₁)) :
    applyRules options config refs w Rule.all = (.error misuse, w₁) := by
  simp only [Rule.all, applyRules, Rule.marker, h]

theorem applyRules_error_at_key
    (h₁ : applyRule .importRedirection options config w (refs.get "default") = (.ok first, w₁))
    (h₂ : applyRule .literalSubstitution options config w₁ (refs.get "getFlavor") =
      (.error misuse, w₂)) :
    applyRules options config refs w Rule.all = (.error misuse, w₂) := by
  simp only [Rule.all, applyRules, Rule.marker, h₁, h₂, Except.map]

theorem applyRules_ok
    (h₁ : applyRule .importRedirection options config w (refs.get "default") = (.ok first, w₁))
    (h₂ : applyRule .literalSubstitution options config w₁ (refs.get "getFlavor") =
      (.ok second, w₂)) :
    applyRules options config refs w Rule.all = (.ok (first.merge (second.merge {})), w₂) := by
  simp only [Rule.all, applyRules, Rule.marker, h₁, h₂, Except.map]

end pass

theorem exists_ok_of_toBool {result : Except Misuse Summary} (h : result.toBool = true) :
    ∃ summary, result = .ok summary := by
  cases result with
  | error _ => cases h
  | ok summary => exact ⟨summary, rfl⟩

/-- Both rules over references: each site has what it needs, or they end at the first that lacks
it. -/
theorem applyRules_outcome (options : Options) (config : Config) (stats : Statistics)
    (hT : T.Built source []) {refs : References}
    (hmarkerSites : References.SitesOf T (refs.get "default"))
    (hkeySites : References.SitesOf T (refs.get "getFlavor")) :
    (∃ markers base put t₁ summary,
      (applyRules options config refs ⟨T, stats⟩ Rule.all).1 = .ok summary ∧
      List.Forall₂ (IsMarker T options.traverseLimit) (refs.get "default") markers ∧ markers.Nodup ∧
      Redirected T config markers base t₁ ∧
      Substituted T config markers base (refs.get "getFlavor") put
        (applyRules options config refs ⟨T, stats⟩ Rule.all).2.tree) ∨
    ∃ misuse, (applyRules options config refs ⟨T, stats⟩ Rule.all).1 = .error misuse ∧
      FirstMisuse T options config stats refs misuse := by
  rcases applyRule_importRedirection options hT (refs.get "default")
    (fun x hx => ⟨hmarkerSites.isLive hx, hmarkerSites.name hx⟩) (w := ⟨T, stats⟩)
    (Redirected.start T config) with
    ⟨markers, base, count, hall, hfirst, -, hred⟩ | ⟨misuse, before, site, markers, hstop, hall, hdup, hun⟩
  · rw [List.nil_append] at hred
    have hmarkers := (hred.edited.revision hT).gone_nodup
    rcases applyRule_literalSubstitution options hT hred.onSources (refs.get "getFlavor")
      (Substituted.start hred.edited) hkeySites with
      ⟨put, second, hsecond, hsubst⟩ | ⟨misuse, before, site, hstop, hbefore, hun⟩
    · rw [List.nil_append] at hsubst
      have hdone := applyRules_ok (Prod.ext hfirst rfl) (Prod.ext hsecond rfl)
      rw [hdone]
      exact Or.inl ⟨markers, base, put, _, _, rfl, hall, hmarkers, hred, hsubst⟩
    · have hdone := applyRules_error_at_key (Prod.ext hfirst rfl) (Prod.ext hstop.run rfl)
      rw [hdone]
      exact Or.inr ⟨misuse, rfl, .key hall hmarkers hstop hbefore hun⟩
  · rw [List.nil_append] at hdup hun
    rw [applyRules_error_at_marker (Prod.ext hstop.run rfl)]
    exact Or.inr ⟨misuse, rfl, .marker hstop hall hdup hun⟩

/-- A pass over a module that imports the marker module. -/
theorem expand_outcome (options : Options) (config : Config) (stats : Statistics)
    (hT : T.Built source [])
    (himports : (References.collect T options.markerModule).imports ≠ []) :
    (∃ markers put summary, (expand options config ⟨T, stats⟩).1 = .ok summary ∧
      Expanded T options config (References.collect T options.markerModule) markers put
        (expand options config ⟨T, stats⟩).2.tree) ∨
    ∃ misuse, (expand options config ⟨T, stats⟩).1 = .error misuse ∧
      FirstMisuse T options config stats (References.collect T options.markerModule) misuse := by
  have hempty : (References.collect T options.markerModule).imports.isEmpty = false :=
    List.isEmpty_eq_false_iff.mpr himports
  have hmarkerSites := References.sitesOf_get hT.toLinked options.markerModule "default"
  have hkeySites := References.sitesOf_get hT.toLinked options.markerModule "getFlavor"
  have hsub {s : NodeId} (hs : s ∈ (References.collect T options.markerModule).imports) :=
    References.mem_statements_of_mem_imports hs
  have hcontent {s : NodeId} (hs : s ∈ (References.collect T options.markerModule).imports) :=
    References.content?_of_mem_imports hs
  have hnodup : (References.collect T options.markerModule).imports.Nodup :=
    References.nodup_imports hT.nodup_statements
  have hexpand : expand options config ⟨T, stats⟩ =
      restore T (dropImports (References.collect T options.markerModule)
        (applyRules options config (References.collect T options.markerModule) ⟨T, stats⟩
          Rule.all)) := by
    simp only [expand, hempty]
    rfl
  rw [hexpand]
  have houtcome := applyRules_outcome options config stats hT hmarkerSites hkeySites
  generalize References.collect T options.markerModule = refs at *
  generalize applyRules options config refs ⟨T, stats⟩ Rule.all = done at houtcome
  obtain ⟨result, w⟩ := done
  rcases houtcome with ⟨markers, base, put, t₁, summary, rfl, hall, hmarkers, hred, hsubst⟩ |
    ⟨misuse, rfl, hfirst⟩
  · -- the imports of the marker module are still there
    have hthere : ∀ s ∈ refs.imports, s ∈ w.tree.statements := by
      intro s hs
      refine (hsubst.edited.revision hT).mem_statements.mpr ⟨hsub hs, fun hmem => ?_⟩
      obtain ⟨e, he⟩ := hred.expression hmem
      obtain ⟨specifiers, node, hnode⟩ := hcontent hs
      rw [he] at hnode
      cases hnode
    obtain ⟨count, t', hrun, hedited⟩ := removeImports_spec hT hsubst.edited hthere hnodup
    simp only [dropImports, hrun, restore]
    exact Or.inl ⟨markers, put, _, rfl, hall, hmarkers, ⟨base, _, _, hred, hsubst⟩, hedited⟩
  · exact Or.inr ⟨misuse, rfl, hfirst⟩

/-- A pass succeeds on a module that does not import the marker module or that has what every site
needs, and on no other. Otherwise it ends with the misuse that the first site raises. -/
theorem expand_accepts_iff (h : parse source = .ok T) (options : Options) (config : Config)
    (stats : Statistics) :
    ((∃ summary, (expand options config ⟨T, stats⟩).1 = .ok summary) ↔
      (References.collect T options.markerModule).imports = [] ∨
        Acceptable T options.traverseLimit (References.collect T options.markerModule)) ∧
    ∀ misuse, (expand options config ⟨T, stats⟩).1 = .error misuse →
      FirstMisuse T options config stats (References.collect T options.markerModule) misuse := by
  have hT := built_of_parse h
  by_cases himports : (References.collect T options.markerModule).imports = []
  · have hexpand : expand options config ⟨T, stats⟩ = (.ok {}, ⟨T, stats⟩) := by
      simp [expand, himports]
    rw [hexpand]
    exact ⟨⟨fun _ => Or.inl himports, fun _ => ⟨{}, rfl⟩⟩, nofun⟩
  · rcases expand_outcome options config stats hT himports with
      ⟨markers, put, summary, hok, hexp⟩ | ⟨misuse, herr, hfirst⟩
    · obtain ⟨base, t₁, t₂, -, hsubst⟩ := hexp.substituted
      refine ⟨⟨fun _ => Or.inr ⟨markers, hexp.marked, hexp.nodup, fun _ => hsubst.keyed⟩,
        fun _ => ⟨summary, hok⟩⟩, fun misuse herr => ?_⟩
      rw [hok] at herr
      cases herr
    · refine ⟨⟨fun ⟨summary, hok⟩ => ?_, fun hor => ?_⟩, fun misuse' herr' => ?_⟩
      · rw [hok] at herr
        cases herr
      · exact absurd (hor.resolve_left himports) (not_acceptable hfirst)
      · rw [herr, Except.error.injEq] at herr'
        exact herr' ▸ hfirst

/-- The second marker stands in the statement of the first, which is gone when its turn comes. -/
theorem expand_rejects_nested_marker :
    ∃ T, parse "import fl from \"flavors.macro\";\nfl(function () \x7b fl(); \x7d);\n" = .ok T ∧
      ¬ Acceptable T 10 (References.collect T "flavors.macro") ∧
      FirstMisuse T {} {} {} (References.collect T "flavors.macro") (.invalidReference "fl" 5) := by
  obtain ⟨T, hT, hrun⟩ := exists_parse
    (fun T => (expand {} {} ⟨T, {}⟩).1 = .error (.invalidReference "fl" 5))
    (by decide +kernel : (parse
      "import fl from \"flavors.macro\";\nfl(function () \x7b fl(); \x7d);\n").toOption.any _ = true)
  have herr := of_decide_eq_true hrun
  obtain ⟨hiff, hfirst⟩ := expand_accepts_iff hT {} {} {}
  refine ⟨T, hT, fun hacc => ?_, hfirst _ herr⟩
  obtain ⟨summary, hok⟩ := hiff.mpr (Or.inr hacc)
  rw [herr] at hok
  cases hok

end Flavoring.Expansion
