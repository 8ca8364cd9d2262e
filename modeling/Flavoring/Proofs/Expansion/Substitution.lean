import Flavoring.Proofs.Expansion.Redirection
import Flavoring.Proofs.Expansion.Sites

/-! Substitution: calls of a marker with a key become the key's text, told by the unedited tree. -/

namespace Flavoring.Expansion

open Flavoring.Tree

/-- A site is what `call` calls, with one argument, the literal `key`. -/
def CalledWith (t : Tree) (site call : NodeId) (key : Literal) : Prop :=
  ∃ argument, t.content? call = some (.call site [argument]) ∧
    t.content? argument = some (.literal key)

variable {T t : Tree} {source : String} {gone markers : List NodeId}
  {put base : NodeId → Option Literal} {site call x : NodeId} {key : Literal} {config : Config}

theorem CalledWith.parts (h : CalledWith T site call key) :
    ∃ argument, T.parts call = [site, argument] ∧ T.content? argument = some (.literal key) := by
  obtain ⟨argument, hcall, hargument⟩ := h
  exact ⟨argument, parts_of_content? hcall, hargument⟩

theorem CalledWith.site_mem_parts (h : CalledWith T site call key) : site ∈ T.parts call := by
  obtain ⟨argument, hparts, -⟩ := h.parts
  rw [hparts]
  exact List.mem_cons_self

-- A call has one callee and one key.
theorem CalledWith.inj {site' : NodeId} {key' : Literal} (h : CalledWith T site call key)
    (h' : CalledWith T site' call key') : site = site' ∧ key = key' := by
  obtain ⟨argument, hcall, hargument⟩ := h
  obtain ⟨argument', hcall', hargument'⟩ := h'
  rw [hcall] at hcall'
  simp only [Option.some.injEq, Content.call.injEq, List.cons.injEq, and_true] at hcall'
  rw [hcall'.2, hargument'] at hargument
  simp only [Option.some.injEq, Content.literal.injEq] at hargument
  exact ⟨hcall'.1, hargument.symm⟩

-- A site is called by one call.
theorem CalledWith.unique (hT : T.Built source []) {call' : NodeId} {key' : Literal}
    (h : CalledWith T site call key) (h' : CalledWith T site call' key') : call = call' :=
  hT.owner_unique (hT.isLive_of_mem_parts h.site_mem_parts)
    (hT.isLive_of_mem_parts h'.site_mem_parts) h.site_mem_parts h'.site_mem_parts

/-! The call of a site -/

-- A site that is still live is called as it was, if its argument was not replaced before.
theorem flavorCall_eq (hT : T.Built source []) (h : Revision T gone put t)
    (hsite : t.isLive site = true)
    (hput : ∀ call argument, T.content? call = some (.call site [argument]) → put argument = none)
    (marker : String) : flavorCall t site marker = flavorCall T site marker := by
  unfold flavorCall
  rw [parent?_of_isLive h hsite, h.place]
  cases hparent : T.parent? site with
  | none => rfl
  | some call =>
    obtain ⟨hcallLive, hmem⟩ := h.owner_of_parent? hsite ((parent?_of_isLive h hsite).trans hparent)
    by_cases hroot : call = T.root
    · obtain ⟨body, hbody⟩ := hT.program
      have hprogram := h.program
      rw [h.root] at hprogram
      simp only [hroot, hbody, hprogram]
    · have hcall := h.content?_of_put_eq_none hroot
        (h.put_eq_none_of_isLive_part hsite (h.parts_subset hT _ hmem))
      simp only [hcall, h.place]
      split
      · rename_i callee arguments hcontent
        split
        · rfl
        · rename_i hcallee
          have hcallee : callee = site := Classical.not_not.mp hcallee
          subst hcallee
          split
          · rename_i argument
            have hpart : argument ∈ t.parts call := by
              rw [parts_of_content? (hcall.trans hcontent)]
              exact List.mem_cons_of_mem _ List.mem_cons_self
            have hlive := h.part_isLive hcallLive hpart
            have hne : argument ≠ T.root := by
              rw [hT.root_eq]
              exact Nat.ne_of_gt (h.part_pos hpart)
            rw [h.content?_of_put_eq_none hne (hput call argument hcontent), hlive,
              ((h.isLive_iff argument).mp hlive).1]
          · rfl
      · rfl

theorem flavorCall_of_calledWith (hT : T.Built source []) (h : CalledWith T site call key)
    (marker : String) : flavorCall T site marker = .ok (call, key.value) := by
  have hcallLive := hT.isLive_of_mem_parts h.site_mem_parts
  obtain ⟨argument, hcall, hargument⟩ := h
  have hparts := parts_of_content? hcall
  have hparent : T.parent? site = some call :=
    hT.part_parent hcallLive (by rw [hparts]; exact List.mem_cons_self)
  have hlive : T.isLive argument = true :=
    hT.part_isLive hcallLive (by rw [hparts]; exact List.mem_cons_of_mem _ List.mem_cons_self)
  simp [flavorCall, hparent, hcall, hargument, hlive]

theorem calledWith_of_flavorCall {marker value : String}
    (h : flavorCall T site marker = .ok (call, value)) :
    ∃ key, CalledWith T site call key ∧ key.value = value := by
  unfold flavorCall at h
  split at h
  · cases h
  · split at h
    · rename_i callee arguments hcall
      split at h
      · cases h
      · rename_i hcallee
        split at h
        · rename_i argument
          split at h
          · rename_i l hargument
            split at h
            · cases h
              exact ⟨l, ⟨argument, Classical.not_not.mp hcallee ▸ hcall, hargument⟩, rfl⟩
            · cases h
          · cases h
        · cases h
    · cases h

/-! One site -/

/-- After sites were expanded: those outside the markers' statements were called with a key, and
their calls have become the text of that key. Elsewhere is what the markers left. -/
structure Substituted (T : Tree) (config : Config) (markers : List NodeId)
    (base : NodeId → Option Literal) (done : List NodeId) (put : NodeId → Option Literal)
    (t : Tree) : Prop where
  edited : Edited T markers put t
  keyed {site : NodeId} : site ∈ done → (∀ m ∈ markers, ¬ T.Below m site) →
    ∃ call key, CalledWith T site call key
  call {site call : NodeId} {key : Literal} : site ∈ done → (∀ m ∈ markers, ¬ T.Below m site) →
    CalledWith T site call key → put call = some { value := config.flavor key.value }
  other {x : NodeId} : (∀ site ∈ done, (∀ m ∈ markers, ¬ T.Below m site) →
    ∀ key, ¬ CalledWith T site x key) → put x = base x

variable {done : List NodeId}

theorem Substituted.start (h : Edited T markers base t) :
    Substituted T config markers base [] base t where
  edited := h
  keyed := nofun
  call := nofun
  other _ := rfl

-- What was replaced is the source of an import or the call of a site.
theorem Substituted.cases (hbase : OnSources T base)
    (h : Substituted T config markers base done put t) (hx : (put x).isSome = true) :
    (∃ s ∈ T.statements, ∃ l, T.importSource? s = some (x, l)) ∨
      ∃ site ∈ done, (∀ m ∈ markers, ¬ T.Below m site) ∧ ∃ key, CalledWith T site x key := by
  by_cases hcall : ∃ site ∈ done, (∀ m ∈ markers, ¬ T.Below m site) ∧ ∃ key, CalledWith T site x key
  · exact Or.inr hcall
  · have heq : put x = base x := h.other fun site hsite hfree key hk =>
      hcall ⟨site, hsite, hfree, key, hk⟩
    rw [heq] at hx
    exact Or.inl (hbase x hx)

theorem eq_of_below_leaf {y : NodeId} (h : T.parts x = []) (hb : T.Below x y) : y = x := by
  rcases hb.cases_first with rfl | ⟨part, hpart, -⟩
  · rfl
  · rw [h] at hpart
    exact absurd hpart List.not_mem_nil

-- A site that was not expanded is lost only with the statement of a marker: below a call that was
-- replaced there are just its site and its key.
theorem Substituted.isLive_iff (hT : T.Built source []) (hbase : OnSources T base)
    (h : Substituted T config markers base done put t) {name : String}
    (hname : T.content? site = some (.identifier name)) (hsite : T.isLive site = true)
    (hdone : ∀ x ∈ done, ∃ name, T.content? x = some (.identifier name)) (hnew : site ∉ done) :
    t.isLive site = true ↔ ∀ m ∈ markers, ¬ T.Below m site := by
  rw [(h.edited.revision hT).isLive_iff]
  refine ⟨fun hlive => hlive.2.1, fun hfree => ⟨hsite, hfree, ?_⟩⟩
  rintro r hr ⟨part, hpart, hb⟩
  rcases h.cases hbase hr with ⟨s, -, l, hl⟩ | ⟨site', hsite', -, key, hkey⟩
  · rw [parts_of_content? (importSource?_eq_some.mp hl).2.2] at hpart
    exact List.not_mem_nil hpart
  · obtain ⟨argument, hparts, hargument⟩ := hkey.parts
    obtain ⟨name', hname'⟩ := hdone site' hsite'
    simp only [hparts, List.mem_cons, List.not_mem_nil, or_false] at hpart
    rcases hpart with rfl | rfl
    · exact hnew (eq_of_below_leaf (parts_of_content? hname') hb ▸ hsite')
    · rw [eq_of_below_leaf (parts_of_content? hargument) hb, hargument] at hname
      cases hname

-- A site below the statement of a marker is passed over.
theorem Substituted.skip (h : Substituted T config markers base done put t)
    (hlost : ¬ ∀ m ∈ markers, ¬ T.Below m site) :
    Substituted T config markers base (done ++ [site]) put t where
  edited := h.edited
  keyed := by
    intro site' hsite' hfree
    rcases List.mem_append.mp hsite' with hmem | hmem
    · exact h.keyed hmem hfree
    · exact absurd (List.mem_singleton.mp hmem ▸ hfree) hlost
  call := by
    intro site' call key hsite' hfree
    rcases List.mem_append.mp hsite' with hmem | hmem
    · exact h.call hmem hfree
    · exact absurd (List.mem_singleton.mp hmem ▸ hfree) hlost
  other hno := h.other fun site' hsite' => hno site' (List.mem_append_left _ hsite')

-- A site outside the markers' statements is expanded.
theorem Substituted.substitute (hT : T.Built source [])
    (h : Substituted T config markers base done put t) {t' : Tree}
    (hfree : ∀ m ∈ markers, ¬ T.Below m site) (hkey : CalledWith T site call key)
    (hr : t.replace call (.literal { value := config.flavor key.value }) = .ok t') :
    Substituted T config markers base (done ++ [site])
      (fun y => if y = call then some { value := config.flavor key.value } else put y) t' where
  edited := by
    obtain ⟨argument, hcall, -⟩ := hkey
    exact h.edited.replace hcall rfl hr
  keyed := by
    intro site' hsite' hfree'
    rcases List.mem_append.mp hsite' with hmem | hmem
    · exact h.keyed hmem hfree'
    · exact ⟨call, key, List.mem_singleton.mp hmem ▸ hkey⟩
  call := by
    intro site' call' key' hsite' hfree' hkey'
    by_cases hsame : call' = call
    · subst hsame
      rw [if_pos rfl, (hkey.inj hkey').2]
    · rw [if_neg hsame]
      rcases List.mem_append.mp hsite' with hmem | hmem
      · exact h.call hmem hfree' hkey'
      · have hsite := List.mem_singleton.mp hmem
        subst hsite
        exact absurd (hkey'.unique hT hkey) hsame
  other := by
    intro x hno
    have hne : x ≠ call := by
      rintro rfl
      exact hno site (List.mem_append_right _ List.mem_cons_self) hfree key hkey
    rw [if_neg hne]
    exact h.other fun site' hsite' => hno site' (List.mem_append_left _ hsite')

theorem substituteLiteral_of_isLive (hT : T.Built source [])
    (h : Substituted T config markers base done put t) {name : String}
    (hname : T.content? site = some (.identifier name)) (hlive : t.isLive site = true)
    (hput : ∀ call argument, T.content? call = some (.call site [argument]) → put argument = none) :
    (∃ t' put', substituteLiteral config t site = (.ok { literalsSubstituted := 1 }, t') ∧
      Substituted T config markers base (done ++ [site]) put' t') ∨
    ∃ misuse, (∀ call key, ¬ CalledWith T site call key) ∧
      substituteLiteral config t site = (.error misuse, t) ∧
      (substituteLiteral config T site).1 = .error misuse := by
  have hrev := h.edited.revision hT
  obtain ⟨hliveT, hfree, -⟩ := (hrev.isLive_iff site).mp hlive
  have hspelling := spelling_eq hT hrev hname Rule.literalSubstitution.marker
  have hcall := flavorCall_eq hT hrev hlive hput
    (spelling T site Rule.literalSubstitution.marker)
  cases hT' : flavorCall T site (spelling T site Rule.literalSubstitution.marker) with
  | ok found =>
    obtain ⟨call, value⟩ := found
    obtain ⟨key, hkey, rfl⟩ := calledWith_of_flavorCall hT'
    have hcallLive := hrev.isLive_of_above hT hlive (Below.of_mem_parts hkey.site_mem_parts)
    obtain ⟨t', ht'⟩ := Revision.exists_replace hcallLive { value := config.flavor key.value }
    refine Or.inl ⟨t', _, ?_, h.substitute hT hfree hkey ht'⟩
    simp [substituteLiteral, isDangling, hlive, hspelling, hcall, hT', ht']
  | error misuse =>
    refine Or.inr ⟨misuse, fun call key hkey => ?_, ?_, ?_⟩
    · rw [flavorCall_of_calledWith hT hkey] at hT'
      cases hT'
    · simp [substituteLiteral, isDangling, hlive, hspelling, hcall, hT']
    · simp [substituteLiteral, isDangling, hliveT, hT']

/-! Runs -/

theorem not_mem_of_sublist {a b : NodeId} {before after : List NodeId}
    (hnodup : (before ++ a :: after).Nodup) (h : [a, b].Sublist (before ++ a :: after)) :
    b ∉ before := by
  intro hb
  obtain ⟨-, -, hdisjoint⟩ := List.nodup_append.mp hnodup
  obtain ⟨l₁, l₂, heq, h₁, h₂⟩ := List.sublist_append_iff.mp h
  cases l₁ with
  | nil =>
    rw [List.nil_append] at heq
    have hb' : b ∈ a :: after := h₂.subset (heq ▸ List.mem_cons_of_mem a List.mem_cons_self)
    exact hdisjoint b hb b hb' rfl
  | cons c l₁ =>
    rw [List.cons_append, List.cons.injEq] at heq
    have ha : a ∈ before := h₁.subset (heq.1 ▸ List.mem_cons_self)
    exact hdisjoint a ha a List.mem_cons_self rfl

/-- How a site outside the markers' statements is misused that is not called with a key. -/
structure Unkeyed (T : Tree) (config : Config) (markers : List NodeId) (site : NodeId)
    (misuse : Misuse) : Prop where
  free : ∀ m ∈ markers, ¬ T.Below m site
  unkeyed (call : NodeId) (key : Literal) : ¬ CalledWith T site call key
  raised : (substituteLiteral config T site).1 = .error misuse

-- The argument of a call is not the source of an import.
theorem importSource?_ne_argument (hT : T.Built source []) {callee argument s : NodeId} {l : Literal}
    (hcall : T.content? call = some (.call callee [argument])) :
    T.importSource? s ≠ some (argument, l) := by
  intro hl
  have hmem : argument ∈ T.parts call := by
    rw [parts_of_content? hcall]
    exact List.mem_cons_of_mem _ List.mem_cons_self
  have heq := hT.owner_unique (hT.isLive_of_mem_parts hmem) (isLive_of_importSource? hl) hmem
    (mem_parts_of_importSource? hl)
  obtain ⟨-, ⟨specifiers, hs⟩, -⟩ := importSource?_eq_some.mp hl
  rw [← heq, hcall] at hs
  cases hs

-- The argument of a site was not replaced before it: what stands in an argument comes after the
-- callee, and a source belongs to an import.
theorem Substituted.argument_eq_none (hT : T.Built source []) (hbase : OnSources T base)
    (h : Substituted T config markers base done put t) {rest : List NodeId}
    (hsites : References.SitesOf T (done ++ site :: rest)) {argument : NodeId}
    (hcall : T.content? call = some (.call site [argument])) : put argument = none := by
  refine Option.not_isSome_iff_eq_none.mp fun hsome => ?_
  have hparts : T.parts call = [site, argument] := parts_of_content? hcall
  rcases h.cases hbase hsome with ⟨s, -, l, hl⟩ | ⟨site', hsite', -, key, hkey⟩
  · exact importSource?_ne_argument hT hcall hl
  · have hcallLive : T.isLive call = true := hT.isLive_of_mem_parts (hparts ▸ List.mem_cons_self)
    have horder := hsites.order hcallLive (by rw [hparts]) .refl
      (Below.of_mem_parts hkey.site_mem_parts)
      (List.mem_append_right _ List.mem_cons_self) (List.mem_append_left _ hsite')
    exact not_mem_of_sublist hsites.nodup horder hsite'

/-- A run over sites: each is called with a key or stands in the statement of a marker, or it ends at
the first of which neither holds. -/
theorem applyRule_literalSubstitution (options : Options) (hT : T.Built source [])
    (hbase : OnSources T base) (sites : List NodeId) {w : Work}
    (h : Substituted T config markers base done put w.tree)
    (hsites : References.SitesOf T (done ++ sites)) :
    (∃ put' summary, (applyRule .literalSubstitution options config w sites).1 = .ok summary ∧
      Substituted T config markers base (done ++ sites) put'
        (applyRule .literalSubstitution options config w sites).2.tree) ∨
    ∃ misuse before site, StopsAt .literalSubstitution options config w sites before site misuse ∧
      (∀ x ∈ before, (∀ m ∈ markers, ¬ T.Below m x) → ∃ call key, CalledWith T x call key) ∧
      Unkeyed T config markers site misuse := by
  induction sites generalizing done put w with
  | nil => exact Or.inl ⟨put, {}, rfl, by rw [List.append_nil]; exact h⟩
  | cons site sites ih =>
    have hmem : site ∈ done ++ site :: sites := List.mem_append_right _ List.mem_cons_self
    obtain ⟨name, hname⟩ := hsites.name hmem
    have hnew : site ∉ done := fun hdone =>
      (List.nodup_append.mp hsites.nodup).2.2 site hdone site List.mem_cons_self rfl
    have hlive := h.isLive_iff hT hbase hname (hsites.isLive hmem)
      (fun x hx => hsites.name (List.mem_append_left _ hx)) hnew
    -- the run goes on after this site
    have hgoes {put' : NodeId → Option Literal} {applied : Summary} {w' : Work}
        (hgo : GoesOn .literalSubstitution options config w site applied w')
        (h' : Substituted T config markers base (done ++ [site]) put' w'.tree) :
        (∃ put' summary,
          (applyRule .literalSubstitution options config w (site :: sites)).1 = .ok summary ∧
          Substituted T config markers base (done ++ site :: sites) put'
            (applyRule .literalSubstitution options config w (site :: sites)).2.tree) ∨
        ∃ misuse before site',
          StopsAt .literalSubstitution options config w (site :: sites) before site' misuse ∧
          (∀ x ∈ before, (∀ m ∈ markers, ¬ T.Below m x) → ∃ call key, CalledWith T x call key) ∧
          Unkeyed T config markers site' misuse := by
      rcases ih h' (by rwa [← List.append_cons]) with ⟨put'', summary, hsum, hsub⟩ |
        ⟨misuse, before, site', hstop, hbefore, hun⟩
      · refine Or.inl ⟨put'', _, hgo.ok hsum, ?_⟩
        rw [hgo.work, List.append_cons]
        exact hsub
      · refine Or.inr ⟨misuse, site :: before, site', hstop.cons hgo, fun x hx => ?_, hun⟩
        rcases List.mem_cons.mp hx with rfl | hx
        · exact h'.keyed (List.mem_append_right _ List.mem_cons_self)
        · exact hbefore x hx
    by_cases hfree : ∀ m ∈ markers, ¬ T.Below m site
    · have hsiteLive := hlive.mpr hfree
      rcases substituteLiteral_of_isLive hT h hname hsiteLive
        (fun _ _ => h.argument_eq_none hT hbase hsites) with
        ⟨t', put', hok, h'⟩ | ⟨misuse, hno, herr, herrT⟩
      · obtain ⟨stats, hgo⟩ := goesOn_of_ok .literalSubstitution options (fun _ => hsiteLive) hok
        exact hgoes hgo h'
      · have hstop := stopsAt_of_error .literalSubstitution options (fun _ => hsiteLive) herr sites
        exact Or.inr ⟨misuse, [], site, hstop, nofun, hfree, hno, herrT⟩
    · have hdead : w.tree.isLive site = false := Bool.eq_false_iff.mpr (mt hlive.mp hfree)
      obtain ⟨stats, hgo⟩ := goesOn_of_skip .literalSubstitution options rfl hdead
      exact hgoes hgo (h.skip hfree)

end Flavoring.Expansion
