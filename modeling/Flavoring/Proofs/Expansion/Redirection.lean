import Mathlib.Algebra.GroupWithZero.Nat
import Mathlib.Logic.Function.Iterate
import Flavoring.Proofs.Expansion.Markers
import Flavoring.Proofs.Expansion.Steps

/-!
Redirection: what the markers of the program make of its imports.

A marker redirects the imports that stand above it in the program as it is then. An import that
several markers stand below is redirected once by each of them, so its path is looked up again and
again, from its own path on.
-/

namespace Flavoring.Expansion

open Flavoring.Tree

/-- A literal after one look-up of its value; one whose value has no entry keeps its own text. -/
def redirect (config : Config) (l : Literal) : Literal :=
  match config.importPath? l.value with
  | none => l
  | some path => l.setValue path

variable {T t : Tree} {source : String} {gone : List NodeId} {put : NodeId → Option Literal}
  {s node : NodeId} {l : Literal} {config : Config}

theorem importSource?_eq_some :
    t.importSource? s = some (node, l) ↔ t.isLive s = true ∧
      (∃ specifiers, t.content? s = some (.importDeclaration specifiers node)) ∧
      t.content? node = some (.literal l) := by
  unfold Tree.importSource?
  constructor
  · intro h
    split at h
    · split at h
      · split at h
        · simp only [Option.some.injEq, Prod.mk.injEq] at h
          obtain ⟨rfl, rfl⟩ := h
          exact ⟨‹_›, ⟨_, ‹_›⟩, ‹_›⟩
        · cases h
      · cases h
    · cases h
  · rintro ⟨hlive, ⟨specifiers, hs⟩, hnode⟩
    simp [hlive, hs, hnode]

theorem mem_parts_of_importSource? (h : T.importSource? s = some (node, l)) : node ∈ T.parts s := by
  obtain ⟨-, ⟨specifiers, hs⟩, -⟩ := importSource?_eq_some.mp h
  rw [parts_of_content? hs]
  exact List.mem_cons_self

/-- Literals were put only in the place of the sources of the program's imports. -/
def OnSources (T : Tree) (put : NodeId → Option Literal) : Prop :=
  ∀ x, (put x).isSome = true → ∃ s ∈ T.statements, ∃ l, T.importSource? s = some (x, l)

/-- The source of an import is the one it had, with the literal that was put there, if one was. -/
theorem importSource?_revised (hT : T.Built source []) (h : Revision T gone put t)
    (hput : OnSources T put) (hs : t.isLive s = true) :
    t.importSource? s = (T.importSource? s).map fun (node, l) => (node, (put node).getD l) := by
  have hsT := ((h.isLive_iff s).mp hs).1
  have hprogram := h.program
  rw [h.root] at hprogram
  cases hsource : T.importSource? s with
  | some found =>
    obtain ⟨node, l⟩ := found
    obtain ⟨-, ⟨specifiers, hcontent⟩, hnode⟩ := importSource?_eq_some.mp hsource
    have hne := Revision.ne_root_of_content? hT hcontent (by simp)
    have hneNode := Revision.ne_root_of_content? hT hnode (by simp)
    refine importSource?_eq_some.mpr ⟨hs, ⟨specifiers, ?_⟩, ?_⟩
    · rw [h.content?_of_put_eq_none hne (h.put_eq_none_of_not_isTerm hcontent rfl), hcontent]
    · rw [h.content? hneNode, hnode]
      cases put node <;> rfl
  | none =>
    -- what reads as an import now was one before, and its source was a literal before
    refine Option.eq_none_iff_forall_ne_some.mpr fun found hfound => ?_
    obtain ⟨node, l⟩ := found
    obtain ⟨-, ⟨specifiers, hcontent⟩, hnode⟩ := importSource?_eq_some.mp hfound
    have hne : s ≠ T.root := by
      rintro rfl
      rw [hprogram] at hcontent
      cases hcontent
    have hneNode : node ≠ T.root := by
      rintro rfl
      rw [hprogram] at hnode
      cases hnode
    have hcontentT : T.content? s = some (.importDeclaration specifiers node) := by
      rw [h.content? hne] at hcontent
      cases hp : put s with
      | none => rwa [hp] at hcontent
      | some l' =>
        rw [hp] at hcontent
        cases hcontent
    have hnodeT : ∃ l, T.content? node = some (.literal l) := by
      cases hp : put node with
      | none => exact ⟨l, by rw [← h.content?_of_put_eq_none hneNode hp, hnode]⟩
      | some l' =>
        obtain ⟨s', -, l, hl⟩ := hput node (by rw [hp]; rfl)
        exact ⟨l, (importSource?_eq_some.mp hl).2.2⟩
    obtain ⟨l, hl⟩ := hnodeT
    rw [importSource?_eq_some.mpr ⟨hsT, ⟨specifiers, hcontentT⟩, hl⟩] at hsource
    cases hsource

theorem isLive_of_importSource? (h : T.importSource? s = some (node, l)) : T.isLive s = true :=
  (importSource?_eq_some.mp h).1

/-- Imports do not share a source. -/
theorem eq_of_importSource? (hT : T.Linked []) {s' : NodeId} {l' : Literal}
    (h : T.importSource? s = some (node, l)) (h' : T.importSource? s' = some (node, l')) : s = s' :=
  hT.owner_unique (isLive_of_importSource? h) (isLive_of_importSource? h')
    (mem_parts_of_importSource? h) (mem_parts_of_importSource? h')

/-- The path of an import has an entry, after what was put in the place of its source. -/
def hasEntry (T : Tree) (config : Config) (put : NodeId → Option Literal) (s : NodeId) : Bool :=
  match T.importSource? s with
  | some (node, l) => (config.importPath? ((put node).getD l).value).isSome
  | none => false

theorem hasEntry_of_importSource? (config : Config) (put : NodeId → Option Literal)
    (h : T.importSource? s = some (node, l)) :
    hasEntry T config put s = (config.importPath? ((put node).getD l).value).isSome := by
  rw [hasEntry, h]

/-- From `put` to `put'` the path of each import listed was looked up once. -/
structure Redirects (T : Tree) (config : Config) (gone : List NodeId)
    (put : NodeId → Option Literal) (above : List NodeId) (put' : NodeId → Option Literal)
    (t' : Tree) : Prop where
  edited : Edited T gone put' t'
  onSources : OnSources T put'
  source {s node : NodeId} {l : Literal} : T.importSource? s = some (node, l) →
    (put' node).getD l =
      if s ∈ above then redirect config ((put node).getD l) else (put node).getD l
  isSome {s node : NodeId} {l : Literal} : T.importSource? s = some (node, l) →
    ((put' node).isSome = true ↔
      (put node).isSome = true ∨ s ∈ above ∧ hasEntry T config put s = true)

/-- An import without an entry is passed over, and to look its path up would change nothing. -/
theorem Redirects.pass {above : List NodeId} {put' : NodeId → Option Literal}
    (h : Redirects T config gone put above put' t) (hno : hasEntry T config put s = false) :
    Redirects T config gone put (s :: above) put' t where
  edited := h.edited
  onSources := h.onSources
  source {s' node l} hs' := by
    rw [h.source hs']
    by_cases hss : s' = s
    · subst hss
      rw [hasEntry_of_importSource? config put hs', Option.isSome_eq_false_iff,
        Option.isNone_iff_eq_none] at hno
      have hsame : redirect config ((put node).getD l) = (put node).getD l := by rw [redirect, hno]
      rw [hsame, ite_self, ite_self]
    · simp [hss]
  isSome {s' node l} hs' := by
    rw [h.isSome hs']
    by_cases hss : s' = s
    · subst hss
      simp [hno]
    · simp [hss]

/-- What was put, and a path in the literal of one more node, which was `l`. -/
def withPath (put : NodeId → Option Literal) (node : NodeId) (l : Literal) (path : String) :
    NodeId → Option Literal :=
  fun y => if y = node then some (((put node).getD l).setValue path) else put y

theorem withPath_self (put : NodeId → Option Literal) (node : NodeId) (l : Literal) (path : String) :
    withPath put node l path node = some (((put node).getD l).setValue path) := if_pos rfl

theorem withPath_of_ne {x : NodeId} (h : x ≠ node) (put : NodeId → Option Literal) (l : Literal)
    (path : String) : withPath put node l path x = put x := if_neg h

theorem OnSources.withPath (hput : OnSources T put) (hs : s ∈ T.statements)
    (hfound : T.importSource? s = some (node, l)) (path : String) :
    OnSources T (withPath put node l path) := by
  intro x hx
  by_cases hxn : x = node
  · exact ⟨s, hs, l, hxn ▸ hfound⟩
  · rw [withPath_of_ne hxn] at hx
    exact hput x hx

theorem ne_of_importSource? (hT : T.Linked []) (hfound : T.importSource? s = some (node, l))
    {s' node' : NodeId} {l' : Literal} (hs' : T.importSource? s' = some (node', l')) (hss : s' ≠ s) :
    node' ≠ node := by
  rintro rfl
  exact hss (eq_of_importSource? hT hs' hfound)

/-- A path put into one import leaves the others as they were. -/
theorem hasEntry_withPath (hT : T.Linked []) (hfound : T.importSource? s = some (node, l))
    {s' : NodeId} (hss : s' ≠ s) (path : String) :
    hasEntry T config (withPath put node l path) s' = hasEntry T config put s' := by
  cases hs' : T.importSource? s' with
  | none => simp only [hasEntry, hs']
  | some found =>
    obtain ⟨node', l'⟩ := found
    simp only [hasEntry, hs', withPath_of_ne (ne_of_importSource? hT hfound hs' hss)]

/-- An import with an entry is redirected, and then those that come after it. -/
theorem Redirects.cons (hT : T.Linked []) {above : List NodeId} {put' : NodeId → Option Literal}
    {path : String} (hfound : T.importSource? s = some (node, l))
    (hpath : config.importPath? ((put node).getD l).value = some path) (hs : s ∉ above)
    (h : Redirects T config gone (withPath put node l path) above put' t) :
    Redirects T config gone put (s :: above) put' t where
  edited := h.edited
  onSources := h.onSources
  source {s' node' l'} hs' := by
    rw [h.source hs']
    by_cases hss : s' = s
    · subst hss
      rw [hfound, Option.some.injEq, Prod.mk.injEq] at hs'
      obtain ⟨rfl, rfl⟩ := hs'
      rw [if_neg hs, if_pos List.mem_cons_self, withPath_self, redirect, hpath]
      rfl
    · rw [withPath_of_ne (ne_of_importSource? hT hfound hs' hss)]
      simp only [List.mem_cons, hss, false_or]
  isSome {s' node' l'} hs' := by
    rw [h.isSome hs']
    by_cases hss : s' = s
    · subst hss
      rw [hfound, Option.some.injEq, Prod.mk.injEq] at hs'
      obtain ⟨rfl, rfl⟩ := hs'
      simp [withPath_self, hasEntry_of_importSource? config put hfound, hpath]
    · rw [withPath_of_ne (ne_of_importSource? hT hfound hs' hss)]
      simp only [List.mem_cons, hss, false_or, hasEntry_withPath hT hfound hss]

/-- Redirecting imports of the program does not fail, and counts those whose path has an entry. -/
theorem redirectImports_spec (config : Config) (hT : T.Built source []) {above : List NodeId}
    (h : Edited T gone put t) (hput : OnSources T put) (hsub : ∀ s ∈ above, s ∈ t.statements)
    (hnodup : above.Nodup) :
    ∃ t' put', redirectImports config t above =
        (.ok (above.countP (hasEntry T config put)), t') ∧
      Redirects T config gone put above put' t' := by
  induction above generalizing t put with
  | nil => exact ⟨t, put, rfl, h, hput, fun _ => by simp, fun _ => by simp⟩
  | cons s above ih =>
    have hr := h.revision hT
    rw [List.forall_mem_cons] at hsub
    obtain ⟨hs, hsubAbove⟩ := hsub
    obtain ⟨hsAbove, hnodupAbove⟩ := List.nodup_cons.mp hnodup
    have hlive := hr.isLive_of_mem_statements hs
    have hsource := importSource?_revised hT hr hput hlive
    have hpass (heq : redirectImports config t (s :: above) = redirectImports config t above)
        (hno : hasEntry T config put s = false) :
        ∃ t' put', redirectImports config t (s :: above) =
            (.ok ((s :: above).countP (hasEntry T config put)), t') ∧
          Redirects T config gone put (s :: above) put' t' := by
      obtain ⟨t', put', hrun, hspec⟩ := ih h hput hsubAbove hnodupAbove
      refine ⟨t', put', ?_, hspec.pass hno⟩
      rw [heq, hrun, List.countP_cons_of_neg (by simp [hno])]
    cases hfound : T.importSource? s with
    | none =>
      rw [hfound] at hsource
      refine hpass ?_ (by rw [hasEntry, hfound])
      simp [redirectImports, hsource]
    | some found =>
      obtain ⟨node, l⟩ := found
      rw [hfound, Option.map_some] at hsource
      have hentry := hasEntry_of_importSource? config put hfound
      cases hpath : config.importPath? ((put node).getD l).value with
      | none =>
        rw [hpath] at hentry
        exact hpass (by simp [redirectImports, hsource, hpath]) hentry
      | some path =>
        rw [hpath] at hentry
        have hnodeLive := hr.part_isLive hlive (mem_parts_of_importSource? hsource)
        obtain ⟨u, hu⟩ := Revision.exists_replace hnodeLive (((put node).getD l).setValue path)
        have hedited : Edited T gone (withPath put node l path) u :=
          h.replace (importSource?_eq_some.mp hfound).2.2 rfl hu
        have hstatements : u.statements = t.statements :=
          ((hedited.revision hT).statements).trans hr.statements.symm
        -- the rest of the imports is redirected in the tree that this one has been redirected in
        obtain ⟨t', put', hrun, hspec⟩ :=
          ih hedited (hput.withPath (hr.mem_statements.mp hs).1 hfound path)
            (hstatements ▸ hsubAbove) hnodupAbove
        refine ⟨t', put', ?_, hspec.cons hT.toLinked hfound hpath hsAbove⟩
        have hcount : above.countP (hasEntry T config (withPath put node l path)) =
            above.countP (hasEntry T config put) := by
          refine List.countP_congr fun s' hs' => ?_
          rw [hasEntry_withPath hT.toLinked hfound fun heq => hsAbove (heq ▸ hs')]
        rw [List.countP_cons_of_pos hentry]
        simp only [redirectImports, hsource, hpath, hu, hrun, Except.map, hcount]

/-! One marker -/

/-- After markers were expanded: their statements are gone, and the path of each import was looked
up once for every marker below it. -/
structure Redirected (T : Tree) (config : Config) (markers : List NodeId)
    (put : NodeId → Option Literal) (t : Tree) : Prop where
  edited : Edited T markers put t
  onSources : OnSources T put
  expression {m : NodeId} : m ∈ markers → ∃ e, T.content? m = some (.expressionStatement e)
  source {s node : NodeId} {l : Literal} : T.importSource? s = some (node, l) →
    (put node).getD l =
      (redirect config)^[markers.countP fun m => s ∈ T.statements.takeWhile (· ≠ m)] l
  isSome {s node : NodeId} {l : Literal} : T.importSource? s = some (node, l) →
    ((put node).isSome = true ↔ (∃ m ∈ markers, s ∈ T.statements.takeWhile (· ≠ m)) ∧
      (config.importPath? l.value).isSome = true)

theorem Redirected.start (T : Tree) (config : Config) :
    Redirected T config [] (fun _ => none) T where
  edited := .start
  onSources := by simp [OnSources]
  expression := by simp
  source _ := rfl
  isSome _ := by simp

variable {markers : List NodeId} {x m site : NodeId} {options : Options}

/-- While markers are expanded a node is lost only with the statement of a marker. -/
theorem Redirected.isLive_iff (hT : T.Built source []) (h : Redirected T config markers put t)
    (hx : T.isLive x = true) : t.isLive x = true ↔ ∀ m ∈ markers, ¬ T.Below m x := by
  rw [(h.edited.revision hT).isLive_iff]
  refine ⟨fun hlive => hlive.2.1, fun hgone => ⟨hx, hgone, ?_⟩⟩
  -- literals were put in the place of literals only, which have no parts
  rintro r hr ⟨part, hpart, -⟩
  obtain ⟨s, -, l, hl⟩ := h.onSources r hr
  rw [parts_of_content? (importSource?_eq_some.mp hl).2.2] at hpart
  exact List.not_mem_nil hpart

theorem takeWhile_filter {list : List NodeId} {p : NodeId → Bool} (hm : p m = true) :
    (list.filter p).takeWhile (· ≠ m) = (list.takeWhile (· ≠ m)).filter p := by
  induction list with
  | nil => rfl
  | cons y list ih =>
    by_cases hy : y = m
    · simp [hy, hm]
    · by_cases hp : p y = true
      · simpa [hp, hy] using ih
      · simpa [hp, hy] using ih

theorem spelling_eq (hT : T.Built source []) (h : Revision T gone put t) {name : String}
    (hsite : T.content? site = some (.identifier name)) (marker : String) :
    spelling t site marker = spelling T site marker := by
  have hne := Revision.ne_root_of_content? hT hsite (by simp)
  have hput := h.put_eq_none_of_not_isTerm hsite rfl
  rw [spelling, h.content?_of_put_eq_none hne hput, spelling]

theorem redirectAbove_of_not_isLive (options : Options) (config : Config)
    (hT : T.Built source []) (h : Revision T gone put t)
    {name : String} (hsite : T.content? site = some (.identifier name))
    (hdead : t.isLive site = false) :
    redirectAbove options config t site = (.error (.invalidReference name site), t) := by
  have hspelling := spelling_eq hT h hsite Rule.importRedirection.marker
  have hname : spelling T site Rule.importRedirection.marker = name := by rw [spelling, hsite]
  simp [redirectAbove, isDangling, hdead, hspelling, hname]

-- The imports above a marker stand above it in the unedited program too.
theorem Redirected.mem_above_iff (hT : T.Built source []) (h : Redirected T config markers put t)
    (hm : m ∈ t.statements) (hs : T.importSource? s = some (node, l)) :
    s ∈ t.statements.takeWhile (· ≠ m) ↔ s ∈ T.statements.takeWhile (· ≠ m) := by
  have hrev := h.edited.revision hT
  have hmGone := (hrev.mem_statements.mp hm).2
  -- an import is not the statement of a marker
  have hsGone : s ∉ markers := by
    intro hmem
    obtain ⟨e', he'⟩ := h.expression hmem
    obtain ⟨-, ⟨specifiers, hcontent⟩, -⟩ := importSource?_eq_some.mp hs
    rw [he'] at hcontent
    cases hcontent
  rw [hrev.statements, takeWhile_filter (by simp [hmGone]), List.mem_filter]
  simp [hsGone]

/-- One more marker, whose statement is still there: the imports above it are redirected and its
statement goes. -/
theorem Redirected.marker (hT : T.Built source []) (h : Redirected T config markers put t)
    {put' : NodeId → Option Literal} {t' t'' : Tree} {e : NodeId}
    (hm : m ∈ t.statements) (he : T.content? m = some (.expressionStatement e))
    (hr : Redirects T config markers put (t.statements.takeWhile (· ≠ m)) put' t')
    (hremove : t'.remove m = .ok t'') : Redirected T config (markers ++ [m]) put' t'' where
  edited := by
    refine hr.edited.remove ?_ hremove
    rw [(hr.edited.revision hT).statements, ← (h.edited.revision hT).statements]
    exact hm
  onSources := hr.onSources
  expression := by
    intro g hg
    rcases List.mem_append.mp hg with hg | hg
    · exact h.expression hg
    · exact ⟨e, List.mem_singleton.mp hg ▸ he⟩
  source := by
    intro s node l hs
    have habove := h.mem_above_iff hT hm hs
    rw [hr.source hs, h.source hs, List.countP_append, List.countP_singleton]
    by_cases hs' : s ∈ T.statements.takeWhile (· ≠ m)
    · rw [if_pos (habove.mpr hs'), if_pos (decide_eq_true hs'), Function.iterate_succ_apply']
    · rw [if_neg (mt habove.mp hs'), if_neg (by simpa using hs'), Nat.add_zero]
  isSome := by
    intro s node l hs
    rw [hr.isSome hs, h.mem_above_iff hT hm hs, hasEntry_of_importSource? config put hs]
    have hold := h.isSome hs
    cases hput : put node with
    | some l' =>
      rw [hput] at hold
      obtain ⟨⟨m', hm', hs'⟩, hentry⟩ := hold.mp rfl
      simp only [Option.isSome_some, true_or, true_iff]
      exact ⟨⟨m', List.mem_append_left _ hm', hs'⟩, hentry⟩
    | none =>
      -- no look-up has found an entry yet
      rw [hput] at hold
      simp only [Option.isSome_none, Bool.false_eq_true, false_or, Option.getD_none, List.mem_append,
        List.mem_singleton]
      simp only [Option.isSome_none, Bool.false_eq_true, false_iff, not_and] at hold
      constructor
      · rintro ⟨hs', hentry⟩
        exact ⟨⟨m, Or.inr rfl, hs'⟩, hentry⟩
      · rintro ⟨⟨m', hm' | rfl, hs'⟩, hentry⟩
        · exact absurd hentry (hold ⟨m', hm', hs'⟩)
        · exact ⟨hs', hentry⟩

/-! Counts of redirections -/

/-- How many of `k` look-ups of a literal's path, one after the other, find an entry. -/
def entriesFound (config : Config) (k : Nat) (l : Literal) : Nat :=
  (List.range k).countP fun j => (config.importPath? ((redirect config)^[j] l).value).isSome

theorem entriesFound_succ (config : Config) (k : Nat) (l : Literal) :
    entriesFound config (k + 1) l = entriesFound config k l +
      if (config.importPath? ((redirect config)^[k] l).value).isSome then 1 else 0 := by
  rw [entriesFound, List.range_succ, List.countP_append, List.countP_singleton, entriesFound]

/-- How many redirections markers make of a program, in whichever order they are expanded. -/
def redirections (T : Tree) (config : Config) (markers : List NodeId) : Nat :=
  (T.statements.map fun s =>
    match T.importSource? s with
    | some (_, l) =>
      entriesFound config (markers.countP fun m => s ∈ T.statements.takeWhile (· ≠ m)) l
    | none => 0).sum

theorem redirections_nil (T : Tree) (config : Config) : redirections T config [] = 0 := by
  refine List.sum_eq_zero_iff_forall_eq_nat.mpr fun n hn => ?_
  obtain ⟨s, -, rfl⟩ := List.mem_map.mp hn
  split <;> rfl

theorem redirections_perm (T : Tree) (config : Config) {markers markers' : List NodeId}
    (h : markers.Perm markers') : redirections T config markers = redirections T config markers' := by
  simp only [redirections, h.countP_eq]

theorem sum_map_eq_add_countP {list : List NodeId} {f g : NodeId → Nat} {p : NodeId → Bool}
    (h : ∀ s ∈ list, g s = f s + if p s then 1 else 0) :
    (list.map g).sum = (list.map f).sum + list.countP p := by
  induction list with
  | nil => rfl
  | cons s list ih =>
    rw [List.map_cons, List.sum_cons, List.map_cons, List.sum_cons, List.countP_cons,
      h s List.mem_cons_self, ih fun s hs => h s (List.mem_cons_of_mem _ hs)]
    omega

-- The statements of earlier markers do not count among those above a marker.
theorem Redirected.countP_above (hT : T.Built source []) (h : Redirected T config markers put t)
    (hm : m ∈ t.statements) :
    (t.statements.takeWhile (· ≠ m)).countP (hasEntry T config put) =
      (T.statements.takeWhile (· ≠ m)).countP (hasEntry T config put) := by
  have hrev := h.edited.revision hT
  have hmGone := (hrev.mem_statements.mp hm).2
  rw [hrev.statements, takeWhile_filter (by simp [hmGone]), List.countP_filter]
  refine List.countP_congr fun s _ => ?_
  rw [Bool.and_eq_true, decide_eq_true_iff]
  refine and_iff_left_of_imp fun hentry hmem => ?_
  obtain ⟨e, he⟩ := h.expression hmem
  unfold hasEntry at hentry
  split at hentry
  · rename_i hs
    obtain ⟨-, ⟨specifiers, hcontent⟩, -⟩ := importSource?_eq_some.mp hs
    rw [he] at hcontent
    cases hcontent
  · cases hentry

-- Only what stands above `m` counts, and each of it once.
theorem countP_and_mem_takeWhile {list : List NodeId} (hnodup : list.Nodup) (p : NodeId → Bool) :
    list.countP (fun s => decide (s ∈ list.takeWhile (· ≠ m)) && p s) =
      (list.takeWhile (· ≠ m)).countP p := by
  have hsplit := List.takeWhile_append_dropWhile (p := (· ≠ m)) (l := list)
  rw [← hsplit] at hnodup
  have hapart := (List.nodup_append.mp hnodup).2.2
  have hfront : (list.takeWhile (· ≠ m)).countP
      (fun s => decide (s ∈ list.takeWhile (· ≠ m)) && p s) = (list.takeWhile (· ≠ m)).countP p :=
    List.countP_congr fun s hs => by simp only [decide_eq_true hs, Bool.true_and]
  have hback : (list.dropWhile (· ≠ m)).countP
      (fun s => decide (s ∈ list.takeWhile (· ≠ m)) && p s) = 0 := by
    refine List.countP_eq_zero.mpr fun s hs => ?_
    rw [decide_eq_false fun hmem => hapart s hmem s hs rfl]
    simp
  calc list.countP (fun s => decide (s ∈ list.takeWhile (· ≠ m)) && p s)
      = (list.takeWhile (· ≠ m) ++ list.dropWhile (· ≠ m)).countP
          (fun s => decide (s ∈ list.takeWhile (· ≠ m)) && p s) := by rw [hsplit]
    _ = (list.takeWhile (· ≠ m)).countP p := by
      rw [List.countP_append, hfront, hback, Nat.add_zero]

-- One more marker redirects the imports above it whose path has an entry by then.
theorem Redirected.redirections_append (hT : T.Built source [])
    (h : Redirected T config markers put t) (m : NodeId) :
    redirections T config (markers ++ [m]) = redirections T config markers +
      (T.statements.takeWhile (· ≠ m)).countP (hasEntry T config put) := by
  have hnodup : T.statements.Nodup := by
    rw [← hT.parts_root]
    exact hT.parts_nodup hT.root_isLive
  rw [← countP_and_mem_takeWhile hnodup]
  refine sum_map_eq_add_countP fun s _ => ?_
  cases hs : T.importSource? s with
  | none => simp [hasEntry, hs]
  | some found =>
    obtain ⟨node, l⟩ := found
    rw [hasEntry_of_importSource? config put hs, h.source hs]
    dsimp only
    rw [List.countP_append, List.countP_singleton]
    by_cases hs' : s ∈ T.statements.takeWhile (· ≠ m)
    · rw [decide_eq_true hs', if_pos rfl, Bool.true_and, entriesFound_succ]
    · rw [decide_eq_false hs', Bool.false_and]
      rfl

/-- A marker that is still live is expanded if the unedited tree gives it a statement, and else it is
misused as it would be there. -/
theorem redirectAbove_of_isLive (options : Options) (hT : T.Built source [])
    (h : Redirected T config markers put t)
    {name : String} (hsite : T.content? site = some (.identifier name))
    (hlive : t.isLive site = true) :
    (∃ s t' put', IsMarker T options.traverseLimit site s ∧
      redirectAbove options config t site = (.ok
        { importsRedirected := (T.statements.takeWhile (· ≠ s)).countP (hasEntry T config put)
          markersRemoved := 1 }, t') ∧
      Redirected T config (markers ++ [s]) put' t') ∨
    ∃ misuse, (∀ s, ¬ IsMarker T options.traverseLimit site s) ∧
      redirectAbove options config t site = (.error misuse, t) ∧
      (redirectAbove options config T site).1 = .error misuse := by
  have hrev := h.edited.revision hT
  have hliveT := ((hrev.isLive_iff site).mp hlive).1
  have hspelling := spelling_eq hT hrev hsite Rule.importRedirection.marker
  rcases markerStatement_of_isLive hT hrev hlive options.traverseLimit
    (spelling T site Rule.importRedirection.marker) with ⟨s, hs, hmem, hok⟩ | ⟨misuse, hno, herr, herrT⟩
  · have hnodup : t.statements.Nodup := by
      rw [← hrev.parts_root, ← hrev.root]
      exact hrev.parts_nodup hrev.root_isLive
    obtain ⟨t', put', hrun, hredirects⟩ := redirectImports_spec config hT h.edited h.onSources
      (fun s hs => (List.takeWhile_sublist _).subset hs)
      ((List.takeWhile_sublist (· ≠ s)).nodup hnodup)
    have hmem' : s ∈ t'.statements := by
      rw [(hredirects.edited.revision hT).statements, ← hrev.statements]
      exact hmem
    obtain ⟨t'', hremove⟩ := (hredirects.edited.revision hT).exists_remove hmem'
    obtain ⟨e, he⟩ := hs.expression
    refine Or.inl ⟨s, t'', put', hs, ?_, h.marker hT hmem he hredirects hremove⟩
    rw [← h.countP_above hT hmem]
    simp only [redirectAbove, isDangling, hlive, hspelling, hok, hrun, hremove]
    rfl
  · refine Or.inr ⟨misuse, hno, ?_, ?_⟩
    · simp [redirectAbove, isDangling, hlive, hspelling, herr]
    · simp [redirectAbove, isDangling, hliveT, herrT]

/-! Runs -/

/-- How a site is misused that has no statement of its own after those of earlier markers. -/
structure Unmarked (T : Tree) (options : Options) (config : Config) (earlier : List NodeId)
    (site : NodeId) (misuse : Misuse) : Prop where
  shared {s : NodeId} : IsMarker T options.traverseLimit site s → s ∈ earlier ∧
    misuse = .invalidReference (spelling T site Rule.importRedirection.marker) site
  lost : (∃ m ∈ earlier, T.Below m site) →
    misuse = .invalidReference (spelling T site Rule.importRedirection.marker) site
  live : (∀ m ∈ earlier, ¬ T.Below m site) →
    (redirectAbove options config T site).1 = .error misuse

/-- A site that is lost to an earlier marker shares its statement, if it has one. -/
theorem Redirected.unmarked_of_not_isLive (options : Options) (hT : T.Built source [])
    (h : Redirected T config markers put t) {name : String} (hsite : T.isLive site = true)
    (hname : T.content? site = some (.identifier name)) (hdead : t.isLive site = false) :
    Unmarked T options config markers site (.invalidReference name site) := by
  have hspelling : spelling T site Rule.importRedirection.marker = name := by
    rw [spelling, hname]
  have hlost : ¬ ∀ m ∈ markers, ¬ T.Below m site := by
    rw [← h.isLive_iff hT hsite, hdead]
    exact Bool.false_ne_true
  refine ⟨fun {s} hs => ⟨?_, by rw [hspelling]⟩, fun _ => by rw [hspelling],
    fun hall => absurd hall hlost⟩
  obtain ⟨m, hm, hb⟩ : ∃ m ∈ markers, T.Below m site := by
    simpa using hlost
  have hgone := (h.edited.revision hT).gone_mem hm
  have heq := hT.eq_of_below_parts hT.root_isLive (hT.parts_root ▸ hs.listed)
    (hT.parts_root ▸ hgone) (hs.isBelow hT.toLinked hsite) hb
  exact heq ▸ hm

/-- A run over markers: each has a statement of its own, or it ends at the first that has none. -/
theorem applyRule_importRedirection (options : Options) (hT : T.Built source [])
    (sites : List NodeId)
    (hsites : ∀ x ∈ sites, T.isLive x = true ∧ ∃ name, T.content? x = some (.identifier name))
    {w : Work} (h : Redirected T config markers put w.tree) :
    (∃ more put' count, List.Forall₂ (IsMarker T options.traverseLimit) sites more ∧
      (applyRule .importRedirection options config w sites).1 =
        .ok { importsRedirected := count, markersRemoved := more.length } ∧
      redirections T config (markers ++ more) = redirections T config markers + count ∧
      Redirected T config (markers ++ more) put'
        (applyRule .importRedirection options config w sites).2.tree) ∨
    ∃ misuse before site more, StopsAt .importRedirection options config w sites before site misuse ∧
      List.Forall₂ (IsMarker T options.traverseLimit) before more ∧ (markers ++ more).Nodup ∧
      Unmarked T options config (markers ++ more) site misuse := by
  induction sites generalizing markers put w with
  | nil =>
    refine Or.inl ⟨[], put, 0, .nil, rfl, ?_, ?_⟩
    · rw [List.append_nil, Nat.add_zero]
    · rw [List.append_nil]
      exact h
  | cons site sites ih =>
    have hrev := h.edited.revision hT
    have hnodup : (markers ++ []).Nodup := by
      rw [List.append_nil]
      exact hrev.gone_nodup
    obtain ⟨hsiteLive, name, hname⟩ := hsites site List.mem_cons_self
    have hrest : ∀ x ∈ sites, T.isLive x = true ∧ ∃ name, T.content? x = some (.identifier name) :=
      fun x hx => hsites x (List.mem_cons_of_mem site hx)
    -- this rule skips no site
    have hskips : Rule.importRedirection.skipsDetached = true → w.tree.isLive site = true :=
      fun hskip => absurd hskip Bool.false_ne_true
    cases hlive : w.tree.isLive site with
    | false =>
      have hstop := stopsAt_of_error .importRedirection options hskips
        (redirectAbove_of_not_isLive options config hT hrev hname hlive) sites
      refine Or.inr ⟨_, [], site, [], hstop, .nil, hnodup, ?_⟩
      rw [List.append_nil]
      exact h.unmarked_of_not_isLive options hT hsiteLive hname hlive
    | true =>
      have hfree := (h.isLive_iff hT hsiteLive).mp hlive
      rcases redirectAbove_of_isLive options hT h hname hlive with
        ⟨s, t', put', hs, hok, h'⟩ | ⟨misuse, hno, herr, herrT⟩
      · obtain ⟨stats, hgo⟩ := goesOn_of_ok .importRedirection options hskips hok
        rcases ih hrest (w := ⟨t', stats⟩) h' with ⟨more, put'', count, hall, hsum, hcount, hred⟩ |
          ⟨misuse, before, site', more, hstop, hall, hnodup', hun⟩
        · refine Or.inl ⟨s :: more, put'',
            (T.statements.takeWhile (· ≠ s)).countP (hasEntry T config put) + count,
            .cons hs hall, ?_, ?_, ?_⟩
          · rw [hgo.ok hsum]
            simp only [Summary.merge, List.length_cons, Nat.add_comm]
          · rw [List.append_cons, hcount, h.redirections_append hT, Nat.add_assoc]
          · rw [hgo.work, List.append_cons]
            exact hred
        · rw [← List.append_cons] at hnodup' hun
          exact Or.inr ⟨misuse, site :: before, site', s :: more, hstop.cons hgo, .cons hs hall,
            hnodup', hun⟩
      · have hstop := stopsAt_of_error .importRedirection options hskips herr sites
        refine Or.inr ⟨misuse, [], site, [], hstop, .nil, hnodup, ?_⟩
        rw [List.append_nil]
        refine ⟨fun hs => absurd hs (hno _), ?_, fun _ => herrT⟩
        rintro ⟨m, hm, hb⟩
        exact absurd hb (hfree m hm)

end Flavoring.Expansion
