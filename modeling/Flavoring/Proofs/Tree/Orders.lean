import Flavoring.Proofs.Tree.Layout
import Flavoring.Proofs.Text.Splicing

/-!
Orders: one revision of a tree made in two ways.

The nodes of a revised tree are told by what is gone and by what was put where. The edits are
recorded as they are made, but no two have one extent, so that they are applied in one order.
-/

namespace Flavoring.Tree

variable {T t t' : Tree} {source : String} {gone gone' : List NodeId}
  {put : NodeId → Option Literal}

theorem nodes_eq_of_lookups (hcontent : ∀ x, t.content? x = t'.content? x)
    (hparent : ∀ x, t.parent? x = t'.parent? x) (hplace : ∀ x, t.place x = t'.place x)
    (hextent : ∀ x, t.extent x = t'.extent x) (hlive : ∀ x, t.isLive x = t'.isLive x) :
    t.nodes = t'.nodes := by
  apply Array.ext_getElem?
  intro x
  show t.node? x = t'.node? x
  have hcontent := hcontent x
  have hparent := hparent x
  have hplace := hplace x
  have hextent := hextent x
  have hlive := hlive x
  unfold content? at hcontent
  unfold parent? at hparent
  unfold place at hplace
  unfold extent at hextent
  unfold isLive at hlive
  cases hnode : t.node? x with
  | none =>
    rw [hnode] at hcontent
    cases hnode' : t'.node? x with
    | none => rfl
    | some node' =>
      rw [hnode'] at hcontent
      cases hcontent
  | some node =>
    cases hnode' : t'.node? x with
    | none =>
      rw [hnode, hnode'] at hcontent
      cases hcontent
    | some node' =>
      rw [hnode, hnode'] at hcontent hparent hplace hextent hlive
      obtain ⟨content, parent, place, extent, removed⟩ := node
      obtain ⟨content', parent', place', extent', removed'⟩ := node'
      simp_all

theorem Revision.isLive_eq (h : Revision T gone put t) (h' : Revision T gone' put t')
    (hgone : ∀ x, x ∈ gone ↔ x ∈ gone') (x : NodeId) : t.isLive x = t'.isLive x := by
  rw [Bool.eq_iff_iff, h.isLive_iff, h'.isLive_iff]
  simp only [hgone]

theorem Revision.nodes_eq (h : Revision T gone put t) (h' : Revision T gone' put t')
    (hgone : ∀ x, x ∈ gone ↔ x ∈ gone') : t.nodes = t'.nodes := by
  apply nodes_eq_of_lookups
  · intro x
    by_cases hx : x = T.root
    · have hprogram := h.program
      have hprogram' := h'.program
      rw [h.root] at hprogram
      rw [h'.root] at hprogram'
      rw [hx, hprogram, hprogram']
      simp only [hgone]
    · rw [h.content? hx, h'.content? hx]
  · intro x
    rw [h.parent? x, h'.parent? x]
    simp only [hgone]
  · exact fun x => (h.place x).trans (h'.place x).symm
  · exact fun x => (h.extent x).trans (h'.extent x).symm
  · exact h.isLive_eq h' hgone

-- What is recorded does not depend on the order either.
theorem Recorded.subset (h : Recorded T gone put t) (h' : Recorded T gone' put t')
    (hgone : ∀ x, x ∈ gone → x ∈ gone') (hlive : ∀ x, t.isLive x = t'.isLive x) :
    t.edits ⊆ t'.edits := by
  intro e he
  rcases h.edit he with ⟨g, hg, rfl⟩ | ⟨x, l, hput, hx, rfl⟩
  · exact h'.deletion (hgone g hg)
  · exact h'.replacement hput (hlive x ▸ hx)

theorem Edited.edits_perm (hL : T.Laid) (hT : T.Built source []) (h : Edited T gone put t)
    (h' : Edited T gone' put t') (hgone : ∀ x, x ∈ gone ↔ x ∈ gone') :
    t.edits.Perm t'.edits := by
  have hlive := (h.revision hT).isLive_eq (h'.revision hT) hgone
  refine (List.perm_ext_iff_of_nodup (h.nodup_extents hT).of_map (h'.nodup_extents hT).of_map).mpr
    fun e => ⟨fun he => ?_, fun he => ?_⟩
  · exact (h.recorded hL hT).subset (h'.recorded hL hT) (fun x => (hgone x).mp) hlive he
  · exact (h'.recorded hL hT).subset (h.recorded hL hT) (fun x => (hgone x).mpr)
      (fun x => (hlive x).symm) he

theorem Edited.render_eq (hL : T.Laid) (hT : T.Built source []) (h : Edited T gone put t)
    (h' : Edited T gone' put t') (hgone : ∀ x, x ∈ gone ↔ x ∈ gone') : t.render = t'.render := by
  rw [render, render, (h.revision hT).source, (h'.revision hT).source]
  exact Text.splice_perm (h.edits_perm hL hT h' hgone) (h.nodup_extents hT)

end Flavoring.Tree
