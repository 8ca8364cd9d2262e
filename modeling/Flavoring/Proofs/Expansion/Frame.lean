import Flavoring.Proofs.Expansion.Removals
import Flavoring.Proofs.Expansion.Result
import Flavoring.Proofs.Text.Exchanging

/-!
The frame of a pass: which parts of a module's text it touches, and that it leaves the rest.

A pass redirects sources of imports, substitutes calls and takes out statements. Each edit that it
leaves has one of these causes, and each cause that still stands in the tree has its edit: where a
statement is taken out, what was edited below it does not count any more.
-/

namespace Flavoring

namespace Tree

variable {T t : Tree} {source : String} {gone : List NodeId} {put : NodeId → Option Literal}
  {x y s g : NodeId}

/-! Extents of edits -/

section extents

variable (hL : T.Laid) (hT : T.Built source []) (h : Edited T gone put t)

include hL hT h

-- Nothing was put below a node that was replaced, so two such nodes stand apart.
theorem Edited.eq_of_extent_eq (hx : (put x).isSome = true) (hxlive : t.isLive x = true)
    (hy : (put y).isSome = true) (hylive : t.isLive y = true) (heq : T.extent x = T.extent y) :
    x = y := by
  have hrev := h.revision hT
  by_contra hne
  obtain ⟨hxT, -, hxput⟩ := (hrev.isLive_iff x).mp hxlive
  obtain ⟨hyT, -, hyput⟩ := (hrev.isLive_iff y).mp hylive
  have hxy : ¬ T.Below x y := fun hb => hyput x hx (hb.cases_first.resolve_left (Ne.symm hne))
  have hyx : ¬ T.Below y x := fun hb => hxput y hy (hb.cases_first.resolve_left hne)
  obtain ⟨content, hcontent, hterm⟩ := hrev.put_isTerm hx
  have hlt := hL.nonempty hxT (Revision.ne_root_of_isTerm hT hcontent hterm)
  have hapart := hL.apart_of_unrelated hT hxT hyT hxy hyx
  rw [← heq] at hapart
  omega

theorem Edited.eq_of_deletionOf_eq (hs : s ∈ gone) (hg : g ∈ gone)
    (heq : T.deletionOf s = T.deletionOf g) : s = g := by
  have hrev := h.revision hT
  by_contra hne
  have hno := hL.not_contains_deletionOf hT (hrev.gone_mem hs) (hrev.gone_mem hg) hne
  rw [heq] at hno
  simp [Extent.contains] at hno

theorem Edited.deletionOf_ne_extent (hs : s ∈ gone) (hx : (put x).isSome = true)
    (hlive : t.isLive x = true) : T.deletionOf s ≠ T.extent x := by
  intro heq
  have hrev := h.revision hT
  obtain ⟨hxT, hout, -⟩ := (hrev.isLive_iff x).mp hlive
  obtain ⟨content, hcontent, hterm⟩ := hrev.put_isTerm hx
  have hno := hL.deletionOf_not_contains hT (hrev.gone_mem hs) hxT hcontent hterm (hout s hs)
  rw [heq] at hno
  simp [Extent.contains] at hno

end extents

end Tree

namespace Expansion

open Flavoring.Tree

variable {T t : Tree} {source : String} {markers : List NodeId} {put : NodeId → Option Literal}
  {config : Config} {options : Options} {stats : Statistics} {refs : References} {x s : NodeId}

/-- Why a pass edits the text. -/
inductive Cause where
  /-- the literal that names an imported module was redirected -/
  | redirection (literal : NodeId)
  | substitution (call : NodeId)
  | removal (statement : NodeId)
deriving DecidableEq

namespace Cause

/-- The edit that a cause leaves, with the text of what stands in the tree now. -/
def edit (T t : Tree) : Cause → Text.Edit
  | redirection x | substitution x =>
    ⟨T.extent x, ((t.content? x).bind (·.leafText?)).getD ""⟩
  | removal s => ⟨T.deletionOf s, ""⟩

/-- What a pass with these marker statements gives cause for: imports that stay, with a path that has
an entry and a marker below them; uses of `getFlavor` outside the markers' statements; the markers'
statements and the imports of the marker module. -/
def Arises (T : Tree) (config : Config) (refs : References) (markers : List NodeId) : Cause → Prop
  | redirection node => ∃ s ∈ T.statements, s ∉ refs.imports ∧
    ∃ l, T.importSource? s = some (node, l) ∧ (config.importPath? l.value).isSome = true ∧
      ∃ m ∈ markers, s ∈ T.statements.takeWhile (· ≠ m)
  | substitution call => ∃ key, IsSubstituted T refs markers call key
  | removal s => s ∈ markers ∨ s ∈ refs.imports

end Cause

/-! Causes and edits -/

section expanded

variable {markerModule : String} {e : Text.Edit} {c c' : Cause} (h : parse source = .ok T)
  (hexp : Expanded T options config (References.collect T markerModule) markers put t)

include h hexp

/-- The source of an import that stays was replaced if the import was redirected. -/
theorem Expanded.put_of_redirection
    (hx : (Cause.redirection x).Arises T config (References.collect T markerModule) markers) :
    (put x).isSome = true ∧ t.isLive x = true := by
  have hT := built_of_parse h
  have hrev := hexp.edited.revision hT
  obtain ⟨base, t₁, t₂, hred, hsub⟩ := hexp.substituted
  obtain ⟨s, hs, himports, l, hl, hentry, hbelow⟩ := hx
  obtain ⟨-, ⟨specifiers, hcontent⟩, -⟩ := importSource?_eq_some.mp hl
  have hmarkers : s ∉ markers := by
    intro hmem
    obtain ⟨e, he⟩ := hred.expression hmem
    rw [hcontent] at he
    cases he
  have hstays : s ∈ t.statements := hrev.mem_statements.mpr
    ⟨hs, fun hmem => (List.mem_append.mp hmem).elim hmarkers himports⟩
  have hsame : t.content? s = some (.importDeclaration specifiers x) := by
    rw [hrev.content?_of_put_eq_none (hT.ne_root_of_mem_statements hs)
      (hrev.put_eq_none_of_not_isTerm hcontent rfl), hcontent]
  constructor
  · rw [hsub.put_source hl]
    exact (hred.isSome hl).mpr ⟨hbelow, hentry⟩
  · refine hrev.part_isLive (hrev.isLive_of_mem_statements hstays) ?_
    rw [parts_of_content? hsame]
    exact List.mem_cons_self

theorem Expanded.cases_of_put (hx : (put x).isSome = true) (hlive : t.isLive x = true) :
    (Cause.redirection x).Arises T config (References.collect T markerModule) markers ∨
      (Cause.substitution x).Arises T config (References.collect T markerModule) markers := by
  obtain ⟨base, t₁, t₂, hred, hsub⟩ := hexp.substituted
  rcases hsub.cases hred.onSources hx with ⟨s, hs, l, hl⟩ | ⟨site, hsite, hfree, key, hkey⟩
  · rw [hsub.put_source hl] at hx
    obtain ⟨hbelow, hentry⟩ := (hred.isSome hl).mp hx
    refine Or.inl ⟨s, hs, fun himports => ?_, l, hl, hentry, hbelow⟩
    -- below an import that was taken out nothing is live
    obtain ⟨-, hout, -⟩ := ((hexp.edited.revision (built_of_parse h)).isLive_iff x).mp hlive
    exact hout s (List.mem_append_right _ himports)
      (Below.of_mem_parts (mem_parts_of_importSource? hl))
  · exact Or.inr ⟨key, site, hsite, hfree, hkey⟩

theorem Expanded.put_of_substitution
    (hx : (Cause.substitution x).Arises T config (References.collect T markerModule) markers) :
    (put x).isSome = true ∧ t.isLive x = true := by
  have hT := built_of_parse h
  obtain ⟨base, t₁, t₂, hred, hsub⟩ := hexp.substituted
  obtain ⟨key, hcall⟩ := hx
  constructor
  · obtain ⟨site, hsite, hfree, hkey⟩ := hcall
    rw [hsub.call hsite hfree hkey]
    rfl
  · refine hcall.isLive h (References.sitesOf_get hT.toLinked markerModule "getFlavor")
      (fun s hs => ⟨References.mem_statements_of_mem_imports hs,
        References.content?_of_mem_imports hs⟩) (hexp.edited.revision hT) fun r hr => ?_
    rcases hsub.cases hred.onSources hr with ⟨s, -, l, hl⟩ | ⟨site, hsite, hfree, key, hkey⟩
    · exact Or.inl ⟨l, (importSource?_eq_some.mp hl).2.2⟩
    · exact Or.inr ⟨key, site, hsite, hfree, hkey⟩

/-- A cause that arises takes out a statement, or it replaces a node that stays. -/
theorem Expanded.cases_of_arises
    (hc : c.Arises T config (References.collect T markerModule) markers) :
    (∃ s ∈ markers ++ (References.collect T markerModule).imports,
      c = .removal s ∧ (c.edit T t).extent = T.deletionOf s) ∨
      ∃ x, (c = .redirection x ∨ c = .substitution x) ∧ (c.edit T t).extent = T.extent x ∧
        (put x).isSome = true ∧ t.isLive x = true := by
  cases c with
  | redirection x => exact Or.inr ⟨x, Or.inl rfl, rfl, hexp.put_of_redirection h hc⟩
  | substitution x => exact Or.inr ⟨x, Or.inr rfl, rfl, hexp.put_of_substitution h hc⟩
  | removal s => exact Or.inl ⟨s, List.mem_append.mpr hc, rfl, by rw [Cause.edit]⟩

/-- The edits that a pass leaves are those of the causes that arise. -/
theorem Expanded.mem_edits_iff : e ∈ t.edits ↔
    ∃ c : Cause, c.Arises T config (References.collect T markerModule) markers ∧
      c.edit T t = e := by
  have hT := built_of_parse h
  have hrev := hexp.edited.revision hT
  have hrec := hexp.edited.recorded (laid_of_parse h) hT
  -- what a replaced node is written as
  have htext {x : NodeId} {l : Literal} (hput : put x = some l) :
      ((t.content? x).bind (·.leafText?)).getD "" = l.text := by
    obtain ⟨content, hcontent, hterm⟩ := hrev.put_isTerm (by rw [hput]; rfl)
    rw [hrev.content? (Revision.ne_root_of_isTerm hT hcontent hterm), hput]
    rfl
  constructor
  · intro he
    rcases hrec.edit he with ⟨g, hg, rfl⟩ | ⟨x, l, hput, hlive, rfl⟩
    · exact ⟨.removal g, List.mem_append.mp hg, rfl⟩
    · rcases hexp.cases_of_put h (by rw [hput]; rfl) hlive with hcause | hcause
      · exact ⟨.redirection x, hcause, by rw [Cause.edit, htext hput]⟩
      · exact ⟨.substitution x, hcause, by rw [Cause.edit, htext hput]⟩
  · rintro ⟨c, hc, rfl⟩
    rcases hexp.cases_of_arises h hc with ⟨s, hs, rfl, -⟩ | ⟨x, hkind, -, hsome, hlive⟩
    · exact hrec.deletion hs
    · obtain ⟨l, hput⟩ := Option.isSome_iff_exists.mp hsome
      have hedit : c.edit T t = ⟨T.extent x, l.text⟩ := by
        rcases hkind with rfl | rfl <;> rw [Cause.edit, htext hput]
      rw [hedit]
      exact hrec.replacement hput hlive

/-- No two causes share an extent. -/
theorem Expanded.cause_unique
    (hc : c.Arises T config (References.collect T markerModule) markers)
    (hc' : c'.Arises T config (References.collect T markerModule) markers)
    (heq : (c.edit T t).extent = (c'.edit T t).extent) : c = c' := by
  have hT := built_of_parse h
  have hL := laid_of_parse h
  have hedited := hexp.edited
  -- a literal is no call
  have hkinds {x : NodeId}
      (hx : (Cause.redirection x).Arises T config (References.collect T markerModule) markers) :
      ¬ (Cause.substitution x).Arises T config (References.collect T markerModule) markers := by
    rintro ⟨key, site, -, -, argument, hcall, -⟩
    obtain ⟨s, -, -, l, hl, -⟩ := hx
    rw [(importSource?_eq_some.mp hl).2.2] at hcall
    cases hcall
  rcases hexp.cases_of_arises h hc with ⟨s, hs, rfl, hextent⟩ | ⟨x, hkind, hextent, hx, hxlive⟩
  all_goals rw [hextent] at heq
  · rcases hexp.cases_of_arises h hc' with ⟨g, hg, rfl, hextent'⟩ | ⟨y, -, hextent', hy, hylive⟩
    all_goals rw [hextent'] at heq
    · rw [hedited.eq_of_deletionOf_eq hL hT hs hg heq]
    · exact absurd heq (hedited.deletionOf_ne_extent hL hT hs hy hylive)
  · rcases hexp.cases_of_arises h hc' with ⟨g, hg, rfl, hextent'⟩ | ⟨y, hkind', hextent', hy, hylive⟩
    all_goals rw [hextent'] at heq
    · exact absurd heq.symm (hedited.deletionOf_ne_extent hL hT hg hx hxlive)
    · obtain rfl := hedited.eq_of_extent_eq hL hT hx hxlive hy hylive heq
      rcases hkind with rfl | rfl <;> rcases hkind' with rfl | rfl
      · rfl
      · exact absurd hc' (hkinds hc)
      · exact absurd hc (hkinds hc')
      · rfl

end expanded

/-- The text frame of a successful pass. Its edits are those of redirected imports that stay, of
substituted calls and of statements taken out, each extent that of just one of these; the module is
printed with some of these extents exchanged; and each byte outside all of them is copied once, in
the order of the text. -/
theorem expanded_text_frame {summary : Summary} {w : Work} (h : parse source = .ok T)
    (hrun : expand options config ⟨T, stats⟩ = (.ok summary, w)) :
    ∃ markers, List.Forall₂ (IsMarker T options.traverseLimit)
        ((References.collect T options.markerModule).get "default") markers ∧
      (∀ e, e ∈ w.tree.edits ↔ ∃ c : Cause,
        c.Arises T config (References.collect T options.markerModule) markers ∧
          c.edit T w.tree = e) ∧
      (∀ c c' : Cause, c.Arises T config (References.collect T options.markerModule) markers →
        c'.Arises T config (References.collect T options.markerModule) markers →
          (c.edit T w.tree).extent = (c'.edit T w.tree).extent → c = c') ∧
      ∃ applied origins, applied ⊆ w.tree.edits ∧
        Text.Exchanges 0 applied source.toList w.tree.render.toList ∧
        Text.Traced (Text.bytes source.toList) (Text.bytes w.tree.render.toList) origins ∧
        ∀ i < (Text.bytes source.toList).length, Text.Outside w.tree.edits i →
          origins.reduceOption.count i = 1 := by
  have hT := built_of_parse h
  obtain ⟨markers, put, hexp⟩ := expanded_of_expand hT hrun
  have hrev := hexp.edited.revision hT
  have hsource : w.tree.source = source := hrev.source.trans hT.source_eq
  have hexchanges : Text.Exchanges 0 w.tree.applied source.toList w.tree.render.toList := by
    rw [Tree.applied, Tree.render, hsource]
    exact Text.exchanges_splice source w.tree.edits
  have hsub : w.tree.applied ⊆ w.tree.edits := fun e he => Text.mem_of_mem_applied he
  obtain ⟨origins, htraced, honce⟩ := hexchanges.exists_traced
  refine ⟨markers, hexp.marked, fun e => hexp.mem_edits_iff h,
    fun c c' hc hc' => hexp.cause_unique h hc hc', _, origins, hsub, hexchanges, htraced, ?_⟩
  exact fun i hi hout => honce i hi fun e he => hout e (hsub he)

/-- All three causes, among comments. The source of the import of the marker module is redirected as
well, and that edit goes when the import is taken out. Byte 32 is the line break behind
the second comment. -/
theorem expanded_text_frame_among_comments :
    ∃ T w markers applied origins,
      parse ("/* é */ import x from 'a'; // x\nimport fl, \x7b getFlavor \x7d from " ++
        "'flavors.macro';\nfl();\nuse(getFlavor(/* k */ 'k')); // end\n") = .ok T ∧
      w = (expand {} ⟨⟨[("a", "b"), ("flavors.macro", "m")]⟩, ⟨[("k", "v")]⟩⟩ ⟨T, {}⟩).2 ∧
      w.tree.edits = [⟨⟨23, 26⟩, "'b'"⟩, ⟨⟨80, 86⟩, ""⟩, ⟨⟨90, 112⟩, "\"v\""⟩, ⟨⟨33, 80⟩, ""⟩] ∧
      (∀ e, e ∈ w.tree.edits ↔ ∃ c : Cause,
        c.Arises T ⟨⟨[("a", "b"), ("flavors.macro", "m")]⟩, ⟨[("k", "v")]⟩⟩
          (References.collect T "flavors.macro") markers ∧ c.edit T w.tree = e) ∧
      Text.Exchanges 0 applied T.source.toList w.tree.render.toList ∧
      Text.Traced (Text.bytes T.source.toList) (Text.bytes w.tree.render.toList) origins ∧
      origins.reduceOption.count 32 = 1 := by
  obtain ⟨T, hT, hcheck⟩ := exists_parse
    (fun T =>
      let run := expand {} ⟨⟨[("a", "b"), ("flavors.macro", "m")]⟩, ⟨[("k", "v")]⟩⟩ ⟨T, {}⟩
      run.1.toBool && run.2.tree.edits ==
        [⟨⟨23, 26⟩, "'b'"⟩, ⟨⟨80, 86⟩, ""⟩, ⟨⟨90, 112⟩, "\"v\""⟩, ⟨⟨33, 80⟩, ""⟩])
    (by decide +kernel : (parse
      ("/* é */ import x from 'a'; // x\nimport fl, \x7b getFlavor \x7d from " ++
        "'flavors.macro';\nfl();\nuse(getFlavor(/* k */ 'k')); // end\n")).toOption.any _ = true)
  rw [Bool.and_eq_true, beq_iff_eq] at hcheck
  obtain ⟨hbool, hedits⟩ := hcheck
  obtain ⟨summary, hok⟩ := exists_ok_of_toBool hbool
  obtain ⟨markers, -, hcauses, -, applied, origins, -, hexchanges, htraced, honce⟩ :=
    expanded_text_frame hT (Prod.ext hok rfl)
  have hline := honce 32 (by decide +kernel) (by rw [hedits]; decide)
  rw [← (built_of_parse hT).source_eq] at hexchanges htraced
  exact ⟨T, _, markers, applied, origins, hT, rfl, hedits, hcauses, hexchanges, htraced, hline⟩

end Expansion

end Flavoring
