import Flavoring.Proofs.Expansion.Acceptance
import Flavoring.Proofs.Tree.Reduction

/-! Results: the tree that a successful pass leaves, node by node. -/

namespace Flavoring.Expansion

open Flavoring.Tree

variable {T t : Tree} {source : String} {markers : List NodeId} {put : NodeId → Option Literal}
  {config : Config} {options : Options} {stats : Statistics} {refs : References} {x s : NodeId}

/-- The path that stands for a path after one look-up. -/
def lookedUp (config : Config) (path : String) : String := (config.importPath? path).getD path

/-- A literal after `k` look-ups of its value. It is written anew if there was an entry for it. -/
def lookedUpTimes (config : Config) (k : Nat) (l : Literal) : Literal where
  value := (lookedUp config)^[k] l.value
  raw :=
    if 1 ≤ k ∧ (config.importPath? l.value).isSome = true then
      some (String.ofList (Text.Quoted.quote '\'' ((lookedUp config)^[k] l.value).toList))
    else l.raw

/-- `call` is a use of `getFlavor` outside the markers' statements, with its key. -/
def IsSubstituted (T : Tree) (refs : References) (markers : List NodeId) (call : NodeId)
    (key : Literal) : Prop :=
  ∃ site ∈ refs.get "getFlavor", (∀ m ∈ markers, ¬ T.Below m site) ∧ CalledWith T site call key

/-- The tree of an expanded module. -/
structure ExpandsTo (T : Tree) (config : Config) (refs : References) (markers : List NodeId)
    (t : Tree) : Prop where
  root : t.root = T.root
  program : t.content? t.root =
    some (.program (T.statements.filter fun s => s ∉ markers ∧ s ∉ refs.imports))
  source {p : Nat} {s node : NodeId} {specifiers : List Specifier} : T.statements[p]? = some s →
    s ∈ t.statements → T.content? s = some (.importDeclaration specifiers node) →
      ∃ l, T.content? node = some (.literal l) ∧ t.content? node = some (.literal
        (lookedUpTimes config (markers.countP (· ∈ T.statements.drop (p + 1))) l))
  call {call : NodeId} {key : Literal} : IsSubstituted T refs markers call key →
    t.isLive call = true ∧ t.content? call = some (.literal { value := config.flavor key.value })
  isLive_iff (x : NodeId) : t.isLive x = true ↔ T.isLive x = true ∧
    (∀ s ∈ markers ++ refs.imports, ¬ T.Below s x) ∧
    ∀ call key, IsSubstituted T refs markers call key → ¬ T.StrictlyBelow call x
  content? {x : NodeId} : t.isLive x = true → x ≠ T.root →
    (∀ s ∈ T.statements, ∀ specifiers, T.content? s ≠ some (.importDeclaration specifiers x)) →
    (∀ key, ¬ IsSubstituted T refs markers x key) → t.content? x = T.content? x
  parent? {x : NodeId} : t.isLive x = true → t.parent? x = T.parent? x
  place (x : NodeId) : t.place x = T.place x
  extent (x : NodeId) : t.extent x = T.extent x

/-! Look-ups -/

theorem redirect_iterate (config : Config) (k : Nat) (l : Literal) :
    (redirect config)^[k] l = lookedUpTimes config k l := by
  induction k with
  | zero => simp [lookedUpTimes]
  | succ k ih =>
    rw [Function.iterate_succ_apply', ih]
    have hstep : (lookedUp config)^[k + 1] l.value = lookedUp config ((lookedUp config)^[k] l.value) :=
      Function.iterate_succ_apply' _ _ _
    cases hkey : config.importPath? l.value with
    | none =>
      -- a path without an entry stays
      have hfix : lookedUp config l.value = l.value := by simp [lookedUp, hkey]
      have hiter (n : Nat) : (lookedUp config)^[n] l.value = l.value :=
        Function.iterate_fixed hfix n
      simp [redirect, lookedUpTimes, hiter, hkey]
    | some path =>
      cases hpath : config.importPath? ((lookedUp config)^[k] l.value) with
      | none =>
        have hsame : lookedUp config ((lookedUp config)^[k] l.value) = (lookedUp config)^[k] l.value := by
          simp [lookedUp, hpath]
        have hk : 1 ≤ k := by
          cases k with
          | zero =>
            rw [Function.iterate_zero, id_eq, hkey] at hpath
            cases hpath
          | succ k => exact Nat.succ_le_succ (Nat.zero_le k)
        simp [redirect, hpath, lookedUpTimes, hstep, hsame, hkey, hk]
      | some next =>
        simp [redirect, hpath, lookedUpTimes, hstep, hkey, lookedUp, Literal.setValue]

-- In a list without repetitions one element comes before another if the other is found behind it.
theorem mem_takeWhile_iff_mem_drop {list : List NodeId} (hnodup : list.Nodup) {p : Nat} {m : NodeId}
    (hs : list[p]? = some s) (hm : m ∈ list) :
    s ∈ list.takeWhile (· ≠ m) ↔ m ∈ list.drop (p + 1) := by
  induction list generalizing p with
  | nil => cases hm
  | cons y list ih =>
    obtain ⟨hy, hnodup'⟩ := List.nodup_cons.mp hnodup
    by_cases hym : y = m
    · subst hym
      simp only [ne_eq, not_true_eq_false, decide_false, List.takeWhile_cons_of_neg,
        Bool.false_eq_true, not_false_eq_true, List.not_mem_nil, List.drop_succ_cons, false_iff]
      exact fun hmem => hy (List.mem_of_mem_drop hmem)
    · have hm' : m ∈ list := (List.mem_cons.mp hm).resolve_left (Ne.symm hym)
      cases p with
      | zero =>
        simp only [List.getElem?_cons_zero, Option.some.injEq] at hs
        subst hs
        simp [hym, hm']
      | succ p =>
        rw [List.getElem?_cons_succ] at hs
        have hsy : s ≠ y := by
          rintro rfl
          exact hy (List.mem_of_getElem? hs)
        have hrest := ih hnodup' hs hm'
        simpa [hym, hsy] using hrest

/-! The expanded tree -/

-- Below the call of a site are just its site and its key.
theorem CalledWith.eq_of_strictlyBelow {site call : NodeId} {key : Literal} {name : String}
    (h : CalledWith T site call key) (hname : T.content? site = some (.identifier name))
    (hx : T.StrictlyBelow call x) :
    T.content? x = some (.identifier name) ∨ T.content? x = some (.literal key) := by
  obtain ⟨part, hpart, hb⟩ := hx
  obtain ⟨argument, hparts, hargument⟩ := h.parts
  simp only [hparts, List.mem_cons, List.not_mem_nil, or_false] at hpart
  rcases hpart with rfl | rfl
  · rw [eq_of_below_leaf (parts_of_content? hname) hb]
    exact Or.inl hname
  · rw [eq_of_below_leaf (parts_of_content? hargument) hb]
    exact Or.inr hargument

theorem not_strictlyBelow_literal {r : NodeId} {l : Literal}
    (h : T.content? r = some (.literal l)) : ¬ T.StrictlyBelow r x := by
  rintro ⟨part, hpart, -⟩
  rw [parts_of_content? h] at hpart
  exact List.not_mem_nil hpart

-- A call of a site outlives the pass: it stands in no import and below no other such call.
theorem IsSubstituted.isLive (h : parse source = .ok T)
    (hsites : References.SitesOf T (refs.get "getFlavor"))
    (himports : ∀ s ∈ refs.imports, s ∈ T.statements ∧
      ∃ specifiers node, T.content? s = some (.importDeclaration specifiers node))
    (hrev : Revision T (markers ++ refs.imports) put t)
    (hput : ∀ x, (put x).isSome = true → (∃ l, T.content? x = some (.literal l)) ∨
      ∃ key, IsSubstituted T refs markers x key)
    {call : NodeId} {key : Literal} (hcall : IsSubstituted T refs markers call key) :
    t.isLive call = true := by
  have hT := built_of_parse h
  obtain ⟨site, hsite, hfree, hkey⟩ := hcall
  obtain ⟨argument, hcontent, -⟩ := id hkey
  refine (hrev.isLive_iff call).mpr ⟨hT.isLive_of_mem_parts hkey.site_mem_parts, ?_, ?_⟩
  · intro g hg hb
    rcases List.mem_append.mp hg with hg | hg
    · exact hfree g hg (hb.part hkey.site_mem_parts)
    · obtain ⟨hgs, specifiers, node, hg⟩ := himports g hg
      obtain ⟨l, hl⟩ := exists_literal_of_importDeclaration h hgs hg
      rcases hb.cases_first with rfl | ⟨part, hpart, hb⟩
      · rw [hcontent] at hg
        cases hg
      · rw [parts_of_content? hg] at hpart
        rw [List.mem_singleton.mp hpart] at hb
        rw [eq_of_below_leaf (parts_of_content? hl) hb, hl] at hcontent
        cases hcontent
  · intro r hr hb
    rcases hput r hr with ⟨l, hl⟩ | ⟨key', site', hsite', -, hkey'⟩
    · exact not_strictlyBelow_literal hl hb
    · obtain ⟨name, hname⟩ := hsites.name hsite'
      rcases hkey'.eq_of_strictlyBelow hname hb with h' | h' <;> rw [hcontent] at h' <;> cases h'

-- The source of an import is no call, so it is as the markers left it.
theorem Substituted.put_source {base : NodeId → Option Literal} {sites : List NodeId}
    (hsub : Substituted T config markers base sites put t) {node : NodeId} {l : Literal}
    (hsource : T.importSource? s = some (node, l)) : put node = base node := by
  refine hsub.other fun site _ _ key ⟨argument, hcall, _⟩ => ?_
  rw [(importSource?_eq_some.mp hsource).2.2] at hcall
  cases hcall

-- What the pass has put in the source of an import that is left.
theorem Substituted.source_eq (hT : T.Built source []) {base : NodeId → Option Literal} {t₁ : Tree}
    {sites : List NodeId} (hred : Redirected T config markers base t₁)
    (hsub : Substituted T config markers base sites put t) {p : Nat} {node : NodeId} {l : Literal}
    (hp : T.statements[p]? = some s) (hsource : T.importSource? s = some (node, l))
    (hmarkers : ∀ m ∈ markers, m ∈ T.statements) :
    (put node).getD l =
      lookedUpTimes config (markers.countP (· ∈ T.statements.drop (p + 1))) l := by
  have hcount : (markers.countP fun m => s ∈ T.statements.takeWhile (· ≠ m)) =
      markers.countP (· ∈ T.statements.drop (p + 1)) := by
    refine List.countP_congr fun m hm => ?_
    have hiff := mem_takeWhile_iff_mem_drop hT.nodup_statements hp (hmarkers m hm)
    rw [decide_eq_true_iff, decide_eq_true_iff]
    exact hiff
  rw [hsub.put_source hsource, hred.source hsource, redirect_iterate, hcount]

theorem Expanded.expandsTo {markerModule : String} (h : parse source = .ok T)
    (hexp : Expanded T options config (References.collect T markerModule) markers put t) :
    ExpandsTo T config (References.collect T markerModule) markers t := by
  have hT := built_of_parse h
  have hrev := hexp.edited.revision hT
  obtain ⟨base, t₁, t₂, hred, hsub⟩ := hexp.substituted
  have hsites := References.sitesOf_get hT.toLinked markerModule "getFlavor"
  have himports : ∀ s ∈ (References.collect T markerModule).imports, s ∈ T.statements ∧
      ∃ specifiers node, T.content? s = some (.importDeclaration specifiers node) := fun s hs =>
    ⟨References.mem_statements_of_mem_imports hs, References.content?_of_mem_imports hs⟩
  have hmarkers : ∀ m ∈ markers, m ∈ T.statements := fun m hm =>
    hrev.gone_mem (List.mem_append_left _ hm)
  have hput {x : NodeId} (hx : (put x).isSome = true) :
      (∃ s ∈ T.statements, ∃ l, T.importSource? s = some (x, l)) ∨
        ∃ key, IsSubstituted T (References.collect T markerModule) markers x key := by
    refine (hsub.cases hred.onSources hx).imp id ?_
    rintro ⟨site, hsite, hfree, key, hkey⟩
    exact ⟨key, site, hsite, hfree, hkey⟩
  have hcalls {call : NodeId} {key : Literal}
      (hcall : IsSubstituted T (References.collect T markerModule) markers call key) :
      put call = some { value := config.flavor key.value } := by
    obtain ⟨site, hsite, hfree, hkey⟩ := hcall
    exact hsub.call hsite hfree hkey
  constructor
  case root => exact hrev.root
  case program =>
    rw [hrev.program]
    congr 2
    refine List.filter_congr fun s _ => ?_
    simp [not_or]
  case source =>
    intro p s node specifiers hp hs hcontent
    obtain ⟨hsT, -⟩ := hrev.mem_statements.mp hs
    obtain ⟨l, hl⟩ := exists_literal_of_importDeclaration h hsT hcontent
    have hsLive := ((hrev.isLive_iff s).mp (hrev.isLive_of_mem_statements hs)).1
    have hsource := importSource?_eq_some.mpr ⟨hsLive, ⟨specifiers, hcontent⟩, hl⟩
    refine ⟨l, hl, ?_⟩
    rw [hrev.content? (Revision.ne_root_of_content? hT hl (by simp)), hl,
      ← hsub.source_eq hT hred hp hsource hmarkers]
    cases put node <;> rfl
  case call =>
    intro call key hcall
    have hlive := hcall.isLive h hsites himports hrev fun x hx =>
      (hput hx).imp (fun ⟨s, _, l, hl⟩ => ⟨l, (importSource?_eq_some.mp hl).2.2⟩) id
    obtain ⟨site, -, -, argument, hcontent, -⟩ := id hcall
    refine ⟨hlive, ?_⟩
    rw [hrev.content? (Revision.ne_root_of_content? hT hcontent (by simp)), hcalls hcall]
    rfl
  case isLive_iff =>
    intro x
    rw [hrev.isLive_iff]
    refine and_congr_right fun _ => and_congr_right fun _ => ⟨fun hall call key hcall => ?_, ?_⟩
    · exact hall call (by rw [hcalls hcall]; rfl)
    · intro hall r hr
      rcases hput hr with ⟨s, -, l, hl⟩ | ⟨key, hkey⟩
      · exact not_strictlyBelow_literal (importSource?_eq_some.mp hl).2.2
      · exact hall r key hkey
  case content? =>
    intro x hx hne hnoSource hnoCall
    refine hrev.content?_of_put_eq_none hne (Option.not_isSome_iff_eq_none.mp fun hsome => ?_)
    rcases hput hsome with ⟨s, hs, l, hl⟩ | ⟨key, hkey⟩
    · obtain ⟨-, ⟨specifiers, hcontent⟩, -⟩ := importSource?_eq_some.mp hl
      exact hnoSource s hs specifiers hcontent
    · exact hnoCall key hkey
  case parent? => exact fun hx => parent?_of_isLive hrev hx
  case place => exact hrev.place
  case extent => exact hrev.extent

end Flavoring.Expansion
