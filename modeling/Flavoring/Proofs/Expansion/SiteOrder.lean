import Mathlib.Data.List.Perm.Basic
import Flavoring.Proofs.Expansion.Acceptance
import Flavoring.Proofs.Tree.Orders
import Flavoring.Proofs.Tree.Outlines

/-!
The order of sites: rules that succeed on sites in the order of the text succeed on them in any
order, and leave the same nodes and the same text.

Success in the order of the text gives every marker a statement of its own and every other site a
key. Then no site takes away what another one needs. How often an import is redirected depends on how
many markers stand below it, and not on which of them comes first.
-/

namespace Flavoring.Expansion

open Flavoring.Tree

variable {T t t' : Tree} {source : String} {markers markers' done sites sites' : List NodeId}
  {put put' base base' : NodeId → Option Literal} {config : Config} {options : Options}
  {stats : Statistics} {refs : References} {site call x : NodeId} {key : Literal} {w : Work}

/-! Sites that are called with a key, in any order -/

/-- A site stands in the statement of no marker. -/
def isFree (T : Tree) (markers : List NodeId) (site : NodeId) : Bool :=
  markers.all fun m => !(T.walk (fun _ => true) T.nodes.size m).contains site

theorem isFree_iff (hT : T.Built source []) (hmarkers : ∀ m ∈ markers, m ∈ T.statements) :
    isFree T markers site = true ↔ ∀ m ∈ markers, ¬ T.Below m site := by
  simp only [isFree, List.all_eq_true, Bool.not_eq_true', ← Bool.not_eq_true,
    List.contains_iff_mem]
  refine forall₂_congr fun m hm => not_congr ?_
  have hs := hmarkers m hm
  have hlive := hT.isLive_of_mem_statements hs
  rw [← hT.parts_root] at hs
  exact mem_walk_all_iff hT.toDescending (hT.part_pos hs) (lt_size_of_isLive hlive)

-- The key of a site is never replaced: it is no call, and it is in no import.
theorem Substituted.key_eq_none (hT : T.Built source []) (hbase : OnSources T base)
    (h : Substituted T config markers base done put t) (hkey : CalledWith T site call key)
    {call' argument : NodeId} (hcall : T.content? call' = some (.call site [argument])) :
    put argument = none := by
  have hmem : site ∈ T.parts call' := by
    rw [parts_of_content? hcall]
    exact List.mem_cons_self
  have hsame : call' = call := hT.owner_unique (hT.isLive_of_mem_parts hmem)
    (hT.isLive_of_mem_parts hkey.site_mem_parts) hmem hkey.site_mem_parts
  obtain ⟨argument', hcall', hargument'⟩ := hkey
  have hargument : T.content? argument = some (.literal key) := by
    rw [← hsame, hcall] at hcall'
    cases hcall'
    exact hargument'
  refine Option.not_isSome_iff_eq_none.mp fun hsome => ?_
  rcases h.cases hbase hsome with ⟨s, -, l, hl⟩ | ⟨site', -, -, key', a, hcontent, -⟩
  · exact importSource?_ne_argument hT hcall hl
  · rw [hargument] at hcontent
    cases hcontent

/-- A run over sites of which each is called with a key or stands in the statement of a marker: it
substitutes all that stand in none. -/
theorem applyRule_literalSubstitution_of_keyed (options : Options) (sites : List NodeId)
    (hT : T.Built source []) (hbase : OnSources T base)
    (hmarkers : ∀ m ∈ markers, m ∈ T.statements)
    (h : Substituted T config markers base done put w.tree)
    (hsites : ∀ x ∈ done ++ sites, T.isLive x = true ∧
      ∃ name, T.content? x = some (.identifier name))
    (hnodup : (done ++ sites).Nodup)
    (hkeyed : ∀ site ∈ sites, (∀ m ∈ markers, ¬ T.Below m site) →
      ∃ call key, CalledWith T site call key) :
    ∃ put', (applyRule .literalSubstitution options config w sites).1 =
        .ok { literalsSubstituted := sites.countP (isFree T markers) } ∧
      Substituted T config markers base (done ++ sites) put'
        (applyRule .literalSubstitution options config w sites).2.tree := by
  induction sites generalizing done put w with
  | nil => exact ⟨put, rfl, by rw [List.append_nil]; exact h⟩
  | cons site sites ih =>
    obtain ⟨hlive, name, hname⟩ := hsites site (List.mem_append_right _ List.mem_cons_self)
    have hnew : site ∉ done := fun hdone =>
      (List.nodup_append.mp hnodup).2.2 site hdone site List.mem_cons_self rfl
    have hstays := h.isLive_iff hT hbase hname hlive
      (fun x hx => (hsites x (List.mem_append_left _ hx)).2) hnew
    have hrest := fun site' hsite' => hkeyed site' (List.mem_cons_of_mem site hsite')
    by_cases hfree : ∀ m ∈ markers, ¬ T.Below m site
    · obtain ⟨call, key, hkey⟩ := hkeyed site List.mem_cons_self hfree
      have hsiteLive := hstays.mpr hfree
      rcases substituteLiteral_of_isLive hT h hname hsiteLive
        (fun _ _ => h.key_eq_none hT hbase hkey) with ⟨t', put', hok, h'⟩ | ⟨misuse, hno, -, -⟩
      · obtain ⟨stats, hgo⟩ := goesOn_of_ok .literalSubstitution options (fun _ => hsiteLive) hok
        obtain ⟨put'', hsum, hsub⟩ := ih (w := ⟨t', stats⟩) h' (by rwa [← List.append_cons])
          (by rwa [← List.append_cons]) hrest
        refine ⟨put'', ?_, ?_⟩
        · rw [hgo.ok hsum, List.countP_cons_of_pos ((isFree_iff hT hmarkers).mpr hfree)]
          simp only [Summary.merge, Nat.add_comm]
        · rw [hgo.work, List.append_cons]
          exact hsub
      · exact absurd hkey (hno call key)
    · have hdead : w.tree.isLive site = false := Bool.eq_false_iff.mpr (mt hstays.mp hfree)
      obtain ⟨stats, hgo⟩ := goesOn_of_skip .literalSubstitution options rfl hdead
      obtain ⟨put', hsum, hsub⟩ := ih (w := ⟨w.tree, stats⟩) (h.skip hfree)
        (by rwa [← List.append_cons]) (by rwa [← List.append_cons]) hrest
      refine ⟨put', ?_, ?_⟩
      · rw [hgo.ok hsum, Summary.empty_merge,
          List.countP_cons_of_neg (mt (isFree_iff hT hmarkers).mp hfree)]
      · rw [hgo.work, List.append_cons]
        exact hsub

/-! Markers with statements of their own, in any order -/

/-- A run over markers that have a statement each. -/
theorem applyRule_importRedirection_of_marked (options : Options) (config : Config)
    (stats : Statistics) (hT : T.Built source [])
    (hsites : ∀ x ∈ sites, T.isLive x = true ∧ ∃ name, T.content? x = some (.identifier name))
    (hmarked : List.Forall₂ (IsMarker T options.traverseLimit) sites markers)
    (hnodup : markers.Nodup) :
    ∃ base, (applyRule .importRedirection options config ⟨T, stats⟩ sites).1 =
        .ok { importsRedirected := redirections T config markers, markersRemoved := markers.length } ∧
      Redirected T config markers base
        (applyRule .importRedirection options config ⟨T, stats⟩ sites).2.tree := by
  rcases applyRule_importRedirection options hT sites hsites (w := ⟨T, stats⟩)
    (Redirected.start T config) with
    ⟨more, base, count, hall, hok, hcount, hred⟩ | ⟨misuse, before, site, more, hstop, hall, -, hun⟩
  · rw [List.nil_append] at hcount hred
    rw [forall₂_isMarker_unique hall hmarked] at hok hcount hred
    refine ⟨base, ?_, hred⟩
    rw [hok, hcount, redirections_nil, Nat.zero_add]
  · -- the statement of the marker where the run stops would be that of an earlier one
    obtain ⟨after, hsplit⟩ := hstop.split
    rw [hsplit] at hmarked
    obtain ⟨m, rest, rfl, hm⟩ := exists_next_marker hall hmarked
    rw [List.nil_append] at hun
    exact absurd rfl ((List.nodup_append.mp hnodup).2.2 m (hun.shared hm).1 m List.mem_cons_self)

/-- What both rules do to a module that has what every site needs. -/
theorem run_of_acceptable (options : Options) (config : Config) (stats : Statistics)
    (hT : T.Built source [])
    (hmarkerSites : ∀ x ∈ refs.get "default", T.isLive x = true ∧
      ∃ name, T.content? x = some (.identifier name))
    (hkeySites : ∀ x ∈ refs.get "getFlavor", T.isLive x = true ∧
      ∃ name, T.content? x = some (.identifier name))
    (hdistinct : (refs.get "getFlavor").Nodup)
    (hmarked : List.Forall₂ (IsMarker T options.traverseLimit) (refs.get "default") markers)
    (hnodup : markers.Nodup)
    (hkeyed : ∀ site ∈ refs.get "getFlavor", (∀ m ∈ markers, ¬ T.Below m site) →
      ∃ call key, CalledWith T site call key) :
    ∃ base put t₁, (run options config refs ⟨T, stats⟩).1 =
        .ok { importsRedirected := redirections T config markers
              literalsSubstituted := (refs.get "getFlavor").countP (isFree T markers)
              markersRemoved := markers.length } ∧
      Redirected T config markers base t₁ ∧
      Substituted T config markers base (refs.get "getFlavor") put
        (run options config refs ⟨T, stats⟩).2.tree := by
  obtain ⟨base, hfirst, hred⟩ := applyRule_importRedirection_of_marked options config stats hT
    hmarkerSites hmarked hnodup
  have hmarkers := fun m hm => (hred.edited.revision hT).gone_mem (g := m) hm
  obtain ⟨put, hsecond, hsub⟩ := applyRule_literalSubstitution_of_keyed options
    (refs.get "getFlavor") hT hred.onSources hmarkers (Substituted.start hred.edited) hkeySites
    hdistinct hkeyed
  rw [List.nil_append] at hsub
  have hdone := applyRules_ok (Prod.ext hfirst rfl) (Prod.ext hsecond rfl)
  refine ⟨base, put, _, ?_, hred, ?_⟩
  · rw [run, hdone]
    simp [restore, Summary.merge]
  · rw [run, hdone]
    exact hsub

/-! What was put does not depend on the order -/

theorem Redirected.put_eq (h : Redirected T config markers base t)
    (h' : Redirected T config markers' base' t') (hperm : markers.Perm markers') : base = base' := by
  funext x
  by_cases hx : ∃ s ∈ T.statements, ∃ l, T.importSource? s = some (x, l)
  · obtain ⟨s, -, l, hl⟩ := hx
    have hsame : (base x).getD l = (base' x).getD l := by
      rw [h.source hl, h'.source hl, hperm.countP_eq]
    have hsome : (base x).isSome = (base' x).isSome := by
      rw [Bool.eq_iff_iff, h.isSome hl, h'.isSome hl]
      simp only [hperm.mem_iff]
    cases hbase : base x <;> cases hbase' : base' x <;> simp_all
  · have hnone := Option.not_isSome_iff_eq_none.mp (mt (h.onSources x) hx)
    have hnone' := Option.not_isSome_iff_eq_none.mp (mt (h'.onSources x) hx)
    rw [hnone, hnone']

theorem Substituted.put_eq (h : Substituted T config markers base sites put t)
    (h' : Substituted T config markers' base sites' put' t') (hmarkers : markers.Perm markers')
    (hsites : sites.Perm sites') : put = put' := by
  funext x
  by_cases hx : ∃ site ∈ sites, (∀ m ∈ markers, ¬ T.Below m site) ∧ ∃ key, CalledWith T site x key
  · obtain ⟨site, hsite, hfree, key, hkey⟩ := hx
    have hfree' : ∀ m ∈ markers', ¬ T.Below m site := fun m hm => hfree m (hmarkers.mem_iff.mpr hm)
    rw [h.call hsite hfree hkey, h'.call (hsites.mem_iff.mp hsite) hfree' hkey]
  · rw [h.other fun site hsite hfree key hkey => hx ⟨site, hsite, hfree, key, hkey⟩, h'.other]
    intro site hsite hfree key hkey
    exact hx ⟨site, hsites.mem_iff.mpr hsite, fun m hm => hfree m (hmarkers.mem_iff.mp hm), key, hkey⟩

/-- If the rules succeed on the sites of a module in the order of the text, they succeed on them in
any order, count the same changes and leave the same nodes. The edits may be recorded in another
order, but the text that they make is the same. -/
theorem run_perm {summary : Summary} {refs' : References} (h : parse source = .ok T)
    (hok : (run options config (References.collect T options.markerModule) ⟨T, stats⟩).1 =
      .ok summary)
    (hdefault : ((References.collect T options.markerModule).get "default").Perm
      (refs'.get "default"))
    (hkey : ((References.collect T options.markerModule).get "getFlavor").Perm
      (refs'.get "getFlavor")) :
    (run options config refs' ⟨T, stats⟩).1 = .ok summary ∧
      (run options config refs' ⟨T, stats⟩).2.tree.nodes =
        (run options config (References.collect T options.markerModule) ⟨T, stats⟩).2.tree.nodes ∧
      (run options config refs' ⟨T, stats⟩).2.tree.edits.Perm
        (run options config (References.collect T options.markerModule) ⟨T, stats⟩).2.tree.edits ∧
      (run options config refs' ⟨T, stats⟩).2.tree.render =
        (run options config (References.collect T options.markerModule) ⟨T, stats⟩).2.tree.render := by
  have hT := built_of_parse h
  have hL := laid_of_parse h
  have hmarkerSites := References.sitesOf_get hT.toLinked options.markerModule "default"
  have hkeySites := References.sitesOf_get hT.toLinked options.markerModule "getFlavor"
  have houtcome := applyRules_outcome options config stats hT hmarkerSites hkeySites
  generalize References.collect T options.markerModule = refs at *
  -- success gives every site what it needs
  obtain ⟨markers, hmarked, hnodup, hkeyed⟩ : Acceptable T options.traverseLimit refs := by
    rcases houtcome with ⟨markers, base, put, t₁, -, -, hall, hmarkers, -, hsub⟩ | ⟨misuse, herr, -⟩
    · exact ⟨markers, hall, hmarkers, fun _ => hsub.keyed⟩
    · rw [run] at hok
      generalize applyRules options config refs ⟨T, stats⟩ Rule.all = done at hok herr
      obtain ⟨result, w⟩ := done
      subst herr
      cases hok
  obtain ⟨base, put, t₁, hrun, hred, hsub⟩ := run_of_acceptable options config stats hT
    (fun x hx => ⟨hmarkerSites.isLive hx, hmarkerSites.name hx⟩)
    (fun x hx => ⟨hkeySites.isLive hx, hkeySites.name hx⟩) hkeySites.nodup hmarked hnodup hkeyed
  obtain ⟨markers', hmarked', hmarkers⟩ := List.perm_comp_forall₂ hdefault.symm hmarked
  obtain ⟨base', put', t₁', hrun', hred', hsub'⟩ := run_of_acceptable options config stats hT
    (fun x hx => have hx := hdefault.mem_iff.mpr hx
      ⟨hmarkerSites.isLive hx, hmarkerSites.name hx⟩)
    (fun x hx => have hx := hkey.mem_iff.mpr hx
      ⟨hkeySites.isLive hx, hkeySites.name hx⟩)
    (hkey.nodup_iff.mp hkeySites.nodup) hmarked' (hmarkers.nodup_iff.mpr hnodup)
    fun site hsite hfree => hkeyed site (hkey.mem_iff.mpr hsite)
      fun m hm => hfree m (hmarkers.mem_iff.mpr hm)
  have hbase := hred'.put_eq hred hmarkers
  subst hbase
  have hput := hsub'.put_eq hsub hmarkers hkey.symm
  subst hput
  have hgone (x : NodeId) : x ∈ markers' ↔ x ∈ markers := hmarkers.mem_iff
  refine ⟨?_, ?_, hsub'.edited.edits_perm hL hT hsub.edited hgone,
    hsub'.edited.render_eq hL hT hsub.edited hgone⟩
  · have hfree : isFree T markers' = isFree T markers := by
      funext site
      exact hmarkers.all_eq
    rw [hrun', ← hok, hrun, redirections_perm T config hmarkers, hmarkers.length_eq, hfree,
      hkey.countP_eq]
  · exact (hsub'.edited.revision hT).nodes_eq (hsub.edited.revision hT) hgone

/-- Two markers below an import that is redirected twice, and two keys, each pair taken in the other
order. -/
theorem run_perm_reversed :
    ∃ T summary, parse ("import x from 'a';\nimport fl, \x7b getFlavor \x7d from 'flavors.macro';\n" ++
        "fl();\nimport y from 'a';\nfl();\nuse(getFlavor('k'), getFlavor('m'));\n") = .ok T ∧
      References.collect T "flavors.macro" = ⟨[("default", [5, 10]), ("getFlavor", [14, 17])], [4]⟩ ∧
      (run {} ⟨⟨[("a", "b"), ("b", "c")]⟩, ⟨[("k", "v")]⟩⟩
        ⟨[("default", [10, 5]), ("getFlavor", [17, 14])], [4]⟩ ⟨T, {}⟩).1 = .ok summary ∧
      (run {} ⟨⟨[("a", "b"), ("b", "c")]⟩, ⟨[("k", "v")]⟩⟩
        ⟨[("default", [10, 5]), ("getFlavor", [17, 14])], [4]⟩ ⟨T, {}⟩).2.tree.render =
      (run {} ⟨⟨[("a", "b"), ("b", "c")]⟩, ⟨[("k", "v")]⟩⟩
        (References.collect T "flavors.macro") ⟨T, {}⟩).2.tree.render := by
  obtain ⟨T, hT, hcheck⟩ := exists_parse
    (fun T => decide (References.collect T "flavors.macro" =
        ⟨[("default", [5, 10]), ("getFlavor", [14, 17])], [4]⟩) &&
      (run {} ⟨⟨[("a", "b"), ("b", "c")]⟩, ⟨[("k", "v")]⟩⟩
        (References.collect T "flavors.macro") ⟨T, {}⟩).1.toBool)
    (by decide +kernel : (parse
      ("import x from 'a';\nimport fl, \x7b getFlavor \x7d from 'flavors.macro';\n" ++
        "fl();\nimport y from 'a';\nfl();\nuse(getFlavor('k'), getFlavor('m'));\n")).toOption.any _ =
          true)
  obtain ⟨hrefs, hrun⟩ := Bool.and_eq_true_iff.mp hcheck
  have hrefs := of_decide_eq_true hrefs
  obtain ⟨summary, hok⟩ := exists_ok_of_toBool hrun
  have hdefault : ((References.collect T "flavors.macro").get "default").Perm
      (References.get ⟨[("default", [10, 5]), ("getFlavor", [17, 14])], [4]⟩ "default") := by
    rw [hrefs]
    exact List.Perm.swap _ _ _
  have hkey : ((References.collect T "flavors.macro").get "getFlavor").Perm
      (References.get ⟨[("default", [10, 5]), ("getFlavor", [17, 14])], [4]⟩ "getFlavor") := by
    rw [hrefs]
    exact List.Perm.swap _ _ _
  obtain ⟨hok', -, -, hrender⟩ := run_perm hT hok hdefault hkey
  exact ⟨T, summary, hT, hrefs, hok', hrender⟩

end Flavoring.Expansion
