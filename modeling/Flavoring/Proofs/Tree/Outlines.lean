import Flavoring.Proofs.JavaScript.Modules
import Flavoring.Proofs.Tree.Layout
import Flavoring.Proofs.Tree.Reduction

/-!
The layout of outlines, and that every tree read from a text is laid out.

A construct's outline covers what the construct covers, or stands within its parentheses.
-/

namespace Flavoring

open JavaScript (Concrete Label EndsTight tightKinds)
open Text (IsCut)

namespace Shape

def isTerm : Shape → Bool
  | call | literal _ => true
  | _ => false

theorem isTerm_of_content {shape : Shape} {ids : List NodeId}
    (h : (shape.content ids).isTerm = true) : shape.isTerm = true := by
  unfold content at h
  split at h
  all_goals first | rfl | cases h | skip
  unfold genericContent at h
  split at h <;> cases h

end Shape

namespace Outline

variable {text : List Char} {lo mid hi : Nat} {shape : Shape} {l : Label} {o : Outline}
  {os os' : List Outline}

def extent : Outline → Extent
  | node _ extent _ _ => extent

structure Fits (text : List Char) (shape : Shape) (e : Extent) : Prop where
  isCut_start : IsCut text e.start
  isCut_stop : IsCut text e.stop
  nonempty : e.start < e.stop
  tight : shape.isTerm = true → EndsTight text e

mutual

-- The node covers its parts, and these are laid out.
def Laid (text : List Char) : Outline → Prop
  | node shape extent _ parts =>
    Fits text shape extent ∧ Chain text extent.start parts extent.stop

-- The nodes stand one behind the other between `lo` and `hi`.
def Chain (text : List Char) : Nat → List Outline → Nat → Prop
  | lo, [], hi => lo ≤ hi
  | lo, o :: os, hi => lo ≤ o.extent.start ∧ Laid text o ∧ Chain text o.extent.stop os hi

end

theorem laid_node {extent : Extent} {place : Place} {parts : List Outline} :
    Laid text (node shape extent place parts) ↔
      Fits text shape extent ∧ Chain text extent.start parts extent.stop := by
  rw [Laid]

theorem chain_nil : Chain text lo [] hi ↔ lo ≤ hi := by
  rw [Chain]

theorem chain_cons : Chain text lo (o :: os) hi ↔
    lo ≤ o.extent.start ∧ o.Laid text ∧ Chain text o.extent.stop os hi := by
  rw [Chain]

theorem Laid.start_lt (h : o.Laid text) : o.extent.start < o.extent.stop := by
  cases o
  exact (laid_node.mp h).1.nonempty

namespace Chain

theorem le (h : Chain text lo os hi) : lo ≤ hi := by
  induction os generalizing lo with
  | nil => exact chain_nil.mp h
  | cons o os ih =>
    obtain ⟨hlo, hlaid, hrest⟩ := chain_cons.mp h
    have hstart := hlaid.start_lt
    have hstop := ih hrest
    omega

theorem lower (h : Chain text mid os hi) (hlo : lo ≤ mid) : Chain text lo os hi := by
  cases os with
  | nil => exact chain_nil.mpr (Nat.le_trans hlo (chain_nil.mp h))
  | cons o os =>
    obtain ⟨hmid, hrest⟩ := chain_cons.mp h
    exact chain_cons.mpr ⟨Nat.le_trans hlo hmid, hrest⟩

theorem append (h : Chain text lo os mid) (h' : Chain text mid os' hi) :
    Chain text lo (os ++ os') hi := by
  induction os generalizing lo with
  | nil => exact h'.lower (chain_nil.mp h)
  | cons o os ih =>
    obtain ⟨hlo, hlaid, hrest⟩ := chain_cons.mp h
    exact chain_cons.mpr ⟨hlo, hlaid, ih hrest⟩

end Chain

/-! Outlines of laid out constructs -/

theorem fits_of_label (h : l.Fits text) (hnamed : l.standing = .named)
    (htight : shape.isTerm = true → l.kind ∈ tightKinds) : Fits text shape l.extent :=
  ⟨h.isCut_start, h.isCut_stop, h.nonempty hnamed, fun hterm => h.tight (htight hterm)⟩

-- The literal that an import names its module by.
theorem chain_source? {cs : List Concrete} {source : Concrete} (h : source? cs = some source)
    (hcs : JavaScript.Chain text lo cs hi) : Chain text lo [ofLiteral source] hi := by
  obtain ⟨hfind, hkind⟩ := Option.filter_eq_some_iff.mp h
  have hmem : source ∈ cs := List.mem_of_find?_eq_some hfind
  obtain ⟨hlo, hlaid, hrest⟩ :=
    JavaScript.chain_cons.mp (hcs.sublist (List.singleton_sublist.mpr hmem))
  have hfits := hlaid.fits
  have hstring : source.label.kind = "string" := beq_iff_eq.mp hkind
  have hend : EndsTight text source.label.extent := hfits.tight (by rw [hstring]; decide)
  refine chain_cons.mpr ⟨hlo, laid_node.mpr ⟨⟨hfits.isCut_start, hfits.isCut_stop, ?_, fun _ => hend⟩,
    chain_nil.mpr hfits.start_le⟩, chain_nil.mpr (JavaScript.chain_nil.mp hrest)⟩
  -- what ends in a byte is not empty
  obtain ⟨n, b, hn, hstop, -⟩ := hend
  omega

mutual

-- The outline of a construct stands within it.
theorem laid_ofConcrete {depth : Nat} {parent : String} {o : Outline} :
    (c : Concrete) → ofConcrete depth parent c = .ok o → c.Laid text →
      c.label.standing = .named →
      o.Laid text ∧ c.label.extent.start ≤ o.extent.start ∧ o.extent.stop ≤ c.label.extent.stop
  | .node l cs => by
    intro h hlaid hnamed
    obtain ⟨hfits, hchain⟩ := JavaScript.laid_node.mp hlaid
    cases reduces_of_ofConcrete h with
    | importing hsource =>
      exact ⟨laid_node.mpr ⟨fits_of_label hfits hnamed nofun, chain_source? hsource hchain⟩,
        Nat.le_refl _, Nat.le_refl _⟩
    | name hshape =>
      refine ⟨laid_node.mpr ⟨fits_of_label hfits hnamed ?_, chain_nil.mpr hfits.start_le⟩,
        Nat.le_refl _, Nat.le_refl _⟩
      rcases hshape with rfl | rfl <;> exact nofun
    | literal hkind =>
      refine ⟨laid_node.mpr ⟨fits_of_label hfits hnamed fun _ => ?_, chain_nil.mpr hfits.start_le⟩,
        Nat.le_refl _, Nat.le_refl _⟩
      rw [hkind]
      decide
    | inside _ hinside =>
      obtain ⟨hlo, hinner, hhi⟩ := chain_cons.mp (chain_ofParts cs hinside hchain)
      exact ⟨hinner, hlo, chain_nil.mp hhi⟩
    | call hkind _ hparts =>
      refine ⟨laid_node.mpr ⟨fits_of_label hfits hnamed fun _ => ?_, chain_ofParts cs hparts hchain⟩,
        Nat.le_refl _, Nat.le_refl _⟩
      rw [hkind]
      decide
    | other hshape hparts =>
      refine ⟨laid_node.mpr ⟨fits_of_label hfits hnamed ?_, chain_ofParts cs hparts hchain⟩,
        Nat.le_refl _, Nat.le_refl _⟩
      rcases hshape with rfl | rfl | rfl <;> exact nofun

theorem chain_ofParts {opened : Bool} {depth : Nat} {parent : String} {os : List Outline}
    {lo hi : Nat} :
    (cs : List Concrete) → ofParts opened depth parent cs = .ok os →
      JavaScript.Chain text lo cs hi → Chain text lo os hi
  | [] => by
    intro h hchain
    rw [ofParts] at h
    cases h
    exact chain_nil.mpr (JavaScript.chain_nil.mp hchain)
  | .node l cs :: more => by
    intro h hchain
    obtain ⟨hlo, hlaid, hmore⟩ := JavaScript.chain_cons.mp hchain
    have hle := hlaid.fits.start_le
    rcases ofParts_cons h with ⟨-, -, here, rest, hhere, hrest, rfl⟩ |
      ⟨hnamed, here, rest, hhere, hrest, rfl⟩ | hrest
    · have hinner := chain_ofParts cs hhere (JavaScript.laid_node.mp hlaid).2
      exact (hinner.lower hlo).append (chain_ofParts more hrest hmore)
    · obtain ⟨hinner, hstart, hstop⟩ := laid_ofConcrete (.node l cs) hhere hlaid hnamed
      exact chain_cons.mpr ⟨Nat.le_trans hlo hstart, hinner,
        (chain_ofParts more hrest hmore).lower hstop⟩
    · exact (chain_ofParts more hrest hmore).lower (Nat.le_trans hlo hle)

end

-- Only what stands in parentheses gets another extent.
theorem extent_of_reduces {depth : Nat} {cs : List Concrete} (h : Reduces depth l cs o)
    (hkind : l.kind ≠ "parenthesized_expression") : o.extent = l.extent := by
  cases h with
  | inside hparenthesized => exact absurd hparenthesized hkind
  | _ => rfl

theorem exists_of_mem_ofParts {depth : Nat} {parent : String} {cs : List Concrete}
    (h : ofParts false depth parent cs = .ok os) (ho : o ∈ os) :
    ∃ c ∈ cs, ofConcrete (depth + 1) parent c = .ok o := by
  induction cs generalizing os with
  | nil =>
    rw [ofParts] at h
    cases h
    exact absurd ho List.not_mem_nil
  | cons c cs ih =>
    cases c with
    | node l children =>
      rcases ofParts_cons h with ⟨hopened, -⟩ | ⟨-, here, rest, hhere, hrest, rfl⟩ | hrest
      · cases hopened
      · rcases List.mem_cons.mp ho with rfl | ho
        · exact ⟨_, List.mem_cons_self, hhere⟩
        · obtain ⟨c, hc, heq⟩ := ih hrest ho
          exact ⟨c, List.mem_cons_of_mem _ hc, heq⟩
      · obtain ⟨c, hc, heq⟩ := ih hrest ho
        exact ⟨c, List.mem_cons_of_mem _ hc, heq⟩

-- Statements start with something else than space.
theorem isSolid_of_mem_ofModule {statements : List Concrete} (hbody : JavaScript.Parser.Body text lo
      (statements.filter (·.kind != "hash_bang_line")) hi)
    (h : ofModule statements = .ok os) (ho : o ∈ os) :
    Text.IsSolid (Text.bytes text) o.extent.start := by
  obtain ⟨c, hc, hof⟩ := exists_of_mem_ofParts h ho
  obtain ⟨⟨-, hopens⟩, hkind⟩ := hbody.2 c hc
  cases c with
  | node l cs =>
    rw [extent_of_reduces (reduces_of_ofConcrete hof) hkind]
    exact hopens.isSolid

end Outline

namespace Tree

variable {T : Tree} {source : String} {text : List Char} {lo hi : Nat} {id s x : NodeId}
  {ids : List NodeId} {o : Outline} {os : List Outline}

/-! Trees that represent laid out outlines -/

theorem Represents.extent_eq (h : T.Represents id o) : T.extent id = o.extent := by
  cases o
  rw [Represents] at h
  exact h.2.1

theorem RepresentsAll.within (h : T.RepresentsAll ids os) (hos : Outline.Chain text lo os hi)
    (hid : id ∈ ids) : lo ≤ (T.extent id).start ∧ (T.extent id).stop ≤ hi := by
  induction ids generalizing os lo with
  | nil => exact absurd hid List.not_mem_nil
  | cons first ids ih =>
    cases os with
    | nil => exact h.elim
    | cons o os =>
      obtain ⟨hlo, hlaid, hrest⟩ := Outline.chain_cons.mp hos
      have hlt := hlaid.start_lt
      have hle := hrest.le
      rcases List.mem_cons.mp hid with rfl | hid
      · rw [h.1.extent_eq]
        exact ⟨hlo, hle⟩
      · have hinner := ih h.2 hrest hid
        omega

theorem RepresentsAll.pairwise (h : T.RepresentsAll ids os) (hos : Outline.Chain text lo os hi) :
    ids.Pairwise fun x y => (T.extent x).stop ≤ (T.extent y).start := by
  induction ids generalizing os lo with
  | nil => exact .nil
  | cons first ids ih =>
    cases os with
    | nil => exact h.elim
    | cons o os =>
      obtain ⟨-, -, hrest⟩ := Outline.chain_cons.mp hos
      refine .cons (fun y hy => ?_) (ih h.2 hrest)
      rw [h.1.extent_eq]
      exact (h.2.within hrest hy).1

theorem RepresentsAll.laid (h : T.RepresentsAll ids os) (hos : Outline.Chain text lo os hi)
    (hid : id ∈ ids) : ∃ o, T.Represents id o ∧ o.Laid text := by
  induction ids generalizing os lo with
  | nil => exact absurd hid List.not_mem_nil
  | cons first ids ih =>
    cases os with
    | nil => exact h.elim
    | cons o os =>
      obtain ⟨-, hlaid, hrest⟩ := Outline.chain_cons.mp hos
      rcases List.mem_cons.mp hid with rfl | hid
      · exact ⟨o, h.1, hlaid⟩
      · exact ih h.2 hrest hid

-- What a node that represents a laid out outline is like.
theorem Represents.inv (h : T.Represents id o) (ho : o.Laid text) : ∃ shape parts,
    Outline.Fits text shape (T.extent id) ∧ T.content? id = some (shape.content (T.parts id)) ∧
      T.RepresentsAll (T.parts id) parts ∧
      Outline.Chain text (T.extent id).start parts (T.extent id).stop := by
  obtain ⟨shape, extent, place, parts⟩ := o
  rw [Represents] at h
  obtain ⟨-, rfl, -, ids, hcontent, hparts⟩ := h
  obtain ⟨hfits, hchain⟩ := Outline.laid_node.mp ho
  have hids : T.parts id = ids := by
    unfold Tree.parts
    rw [hcontent, Option.map_some, Option.getD_some, Shape.children_content]
  rw [← hids] at hcontent hparts
  exact ⟨shape, parts, hfits, hcontent, hparts, hchain⟩

theorem RepresentsAll.laid_of_below (h : T.RepresentsAll ids os)
    (hos : Outline.Chain text lo os hi) (hs : s ∈ ids) (hb : T.Below s x) :
    ∃ o, T.Represents x o ∧ o.Laid text := by
  induction hb with
  | refl => exact h.laid hos hs
  | part _ hmem ih =>
    obtain ⟨o, ho, hlaid⟩ := ih
    obtain ⟨shape, parts, -, -, hparts, hchain⟩ := ho.inv hlaid
    exact hparts.laid hchain hmem

-- Every tree that a text is read as is laid out in it.
theorem laid_of_parse (h : parse source = .ok T) : T.Laid := by
  obtain ⟨statements, outlines, hparse, hmodule, rfl⟩ := parse_eq_ok h
  obtain ⟨hT, hall⟩ := built_ofOutlines source outlines
  generalize ofOutlines source outlines = T at hT hall
  obtain ⟨hi, hbody⟩ := JavaScript.body_of_parse? hparse
  have hchain := Outline.chain_ofParts _ hmodule hbody.1
  have hinv {x : NodeId} (hx : T.isLive x = true) (hroot : x ≠ T.root) : ∃ shape parts,
      Outline.Fits source.toList shape (T.extent x) ∧
      T.content? x = some (shape.content (T.parts x)) ∧ T.RepresentsAll (T.parts x) parts ∧
      Outline.Chain source.toList (T.extent x).start parts (T.extent x).stop := by
    obtain ⟨s, hs, hb⟩ := hT.exists_statement_above hx hroot
    obtain ⟨o, ho, hlaid⟩ := hall.laid_of_below hchain hs hb
    exact ho.inv hlaid
  rw [← hT.source_eq] at hinv hbody
  constructor
  case nonempty =>
    intro x hx hroot
    obtain ⟨_, _, hfits, -⟩ := hinv hx hroot
    exact hfits.nonempty
  case isCut =>
    intro x hx hroot
    obtain ⟨_, _, hfits, -⟩ := hinv hx hroot
    exact ⟨hfits.isCut_start, hfits.isCut_stop⟩
  case within =>
    intro owner part hx hroot hpart
    obtain ⟨_, _, -, -, hparts, hchain⟩ := hinv hx hroot
    exact hparts.within hchain hpart
  case ordered =>
    intro owner hx
    by_cases hroot : owner = T.root
    · rw [hroot, hT.parts_root]
      exact hall.pairwise hchain
    · obtain ⟨_, _, -, -, hparts, hchain⟩ := hinv hx hroot
      exact hparts.pairwise hchain
  case isSolid =>
    intro s hs
    obtain ⟨o, ho, hrep⟩ := hall.exists_of_mem hs
    rw [hrep.extent_eq]
    exact Outline.isSolid_of_mem_ofModule hbody hmodule ho
  case term_last =>
    intro x content hx hcontent hterm
    have hroot := Revision.ne_root_of_isTerm hT hcontent hterm
    obtain ⟨shape, _, hfits, hshape, -⟩ := hinv hx hroot
    rw [hshape, Option.some.injEq] at hcontent
    rw [← hcontent] at hterm
    obtain ⟨n, b, -, hstop, hb, hblank⟩ := hfits.tight (Shape.isTerm_of_content hterm)
    refine ⟨b, ?_, hblank⟩
    rwa [hstop, Nat.add_sub_cancel]

end Tree

end Flavoring
