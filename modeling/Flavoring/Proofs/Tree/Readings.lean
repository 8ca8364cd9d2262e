import Flavoring.Proofs.JavaScript.Agreement.Modules
import Flavoring.Proofs.JavaScript.Endings
import Flavoring.Proofs.JavaScript.Imports
import Flavoring.Proofs.Tree.Forms
import Flavoring.Proofs.Tree.Outlines

/-!
Readings: the forms of the statements that a text is read as.

They can be told from the concrete trees without places. So a list of statements has the same forms
wherever its text stands, and a text that is read as some statements whatever follows it can be put
before any other.
-/

namespace Flavoring

open JavaScript (Concrete Label)

/-! Outlines without places -/

namespace Outline

mutual

/-- The outline without places. -/
def unplaced : Outline → Outline
  | node shape _ _ parts => node shape {} {} (unplacedAll parts)

def unplacedAll : List Outline → List Outline
  | [] => []
  | o :: os => unplaced o :: unplacedAll os

end

theorem unplacedAll_append (os os' : List Outline) :
    unplacedAll (os ++ os') = unplacedAll os ++ unplacedAll os' := by
  induction os with
  | nil => rfl
  | cons o os ih => rw [List.cons_append, unplacedAll, unplacedAll, ih, List.cons_append]

-- A result without places; also the place of a failure is left out.
def erased {α : Type} (g : α → α) : Except Place α → Except Place α
  | .error _ => .error {}
  | .ok a => .ok (g a)

theorem erased_bind {α β : Type} {g : α → α} {g' : β → β} {x y : Except Place α}
    {f f' : α → Except Place β} (hx : y = erased g x) (hf : ∀ a, f' (g a) = erased g' (f a)) :
    (y >>= f') = erased g' (x >>= f) := by
  subst hx
  cases x with
  | error place => rfl
  | ok a => exact hf a

/-! What an import binds -/

theorem constructs_unplaced (t : Concrete) :
    t.unplaced.constructs = t.constructs.map Concrete.unplaced := by
  rw [Concrete.constructs, Concrete.children_unplaced, List.filter_map, Concrete.constructs]
  congr 2
  exact funext fun c => by simp

theorem child?_unplaced (t : Concrete) (role : JavaScript.Role) :
    t.unplaced.child? role = (t.child? role).map Concrete.unplaced := by
  rw [Concrete.child?, Concrete.children_unplaced, List.find?_map, Concrete.child?]
  congr 2
  exact funext fun c => by simp

theorem specifier?_unplaced (t : Concrete) : specifier? t.unplaced = specifier? t := by
  unfold specifier?
  rw [Concrete.kind_unplaced, child?_unplaced, child?_unplaced]
  split
  · cases t.child? .name with
    | none => rfl
    | some name => cases t.child? .localName <;> simp
  · rfl

theorem specifiersOf_unplaced (t : Concrete) : specifiersOf t.unplaced = specifiersOf t := by
  unfold specifiersOf
  rw [Concrete.kind_unplaced, Concrete.text_unplaced, constructs_unplaced, List.find?_map,
    List.filterMap_map]
  split
  · rfl
  · have hkind : ((fun c : Concrete => c.kind == "identifier") ∘ Concrete.unplaced) =
        fun c => c.kind == "identifier" := funext fun c => by simp
    rw [hkind]
    cases t.constructs.find? (·.kind == "identifier") <;> simp
  · congr 1
    exact funext fun c => specifier?_unplaced c
  · rfl

theorem specifiers_unplaced (cs : List Concrete) :
    specifiers (Concrete.unplacedAll cs) = specifiers cs := by
  have hclause : ((fun c : Concrete => c.label.standing == .named && c.kind == "import_clause") ∘
      Concrete.unplaced) = fun c => c.label.standing == .named && c.kind == "import_clause" :=
    funext fun c => by simp
  rw [specifiers, Concrete.unplacedAll_eq, List.filter_map, hclause, List.flatMap_map, specifiers]
  congr 1
  refine funext fun clause => ?_
  rw [constructs_unplaced, List.flatMap_map]
  congr 1
  exact funext fun c => specifiersOf_unplaced c

theorem source?_unplaced (cs : List Concrete) :
    source? (Concrete.unplacedAll cs) = (source? cs).map Concrete.unplaced := by
  have hrole : ((fun c : Concrete => c.label.role == some .source) ∘ Concrete.unplaced) =
      fun c => c.label.role == some .source := funext fun c => by simp
  rw [source?, Concrete.unplacedAll_eq, List.find?_map, hrole, source?]
  cases cs.find? fun c => c.label.role == some .source with
  | none => rfl
  | some c => by_cases hkind : c.kind = "string" <;> simp [Option.filter, hkind]

theorem isPlainCall_unplaced (cs : List Concrete) :
    isPlainCall (Concrete.unplacedAll cs) = isPlainCall cs := by
  have hrole (role : JavaScript.Role) : ((fun c : Concrete => c.label.role == some role) ∘
      Concrete.unplaced) = fun c => c.label.role == some role := funext fun c => by simp
  rw [isPlainCall, Concrete.unplacedAll_eq, List.any_map, List.any_map, List.find?_map, hrole, hrole,
    hrole, Option.any_map, isPlainCall]
  congr 3
  exact funext fun c => by simp

theorem ofLiteral_unplaced (t : Concrete) : ofLiteral t.unplaced = (ofLiteral t).unplaced := by
  cases t
  simp [ofLiteral, Concrete.label, unplaced, unplacedAll]

/-! Reduction without places -/

mutual

theorem ofConcrete_unplaced (depth : Nat) (parent : String) :
    (c : Concrete) → ofConcrete depth parent c.unplaced = erased unplaced (ofConcrete depth parent c)
  | .node l cs => by
    have hparts (opened : Bool) := ofParts_unplacedAll opened depth l.kind cs
    rw [Concrete.unplaced, ofConcrete, ofConcrete, source?_unplaced, specifiers_unplaced,
      isPlainCall_unplaced]
    by_cases hdepth : maxDepth < depth
    · rw [if_pos hdepth, if_pos hdepth]
      rfl
    rw [if_neg hdepth, if_neg hdepth]
    dsimp only
    split
    · cases source? cs with
      | none => exact erased_bind (hparts false) fun parts => rfl
      | some source =>
        simp only [Option.map_some, ofLiteral_unplaced]
        rfl
    · exact erased_bind (hparts _) fun parts => rfl
    · refine erased_bind (hparts false) fun parts => ?_
      match parts with
      | [] => rfl
      | [inside] => rfl
      | _ :: _ :: _ => rfl
    · exact erased_bind (hparts false) fun parts => rfl
    · exact erased_bind (hparts false) fun parts => rfl
    · rfl
    · rfl
    · rfl
    · exact erased_bind (hparts false) fun parts => rfl

theorem ofParts_unplacedAll (opened : Bool) (depth : Nat) (parent : String) :
    (cs : List Concrete) → ofParts opened depth parent (Concrete.unplacedAll cs) =
      erased unplacedAll (ofParts opened depth parent cs)
  | [] => rfl
  | .node l cs :: more => by
    have hmore := ofParts_unplacedAll opened depth parent more
    have hhere := ofConcrete_unplaced (depth + 1) parent (.node l cs)
    rw [Concrete.unplaced] at hhere
    rw [Concrete.unplacedAll, Concrete.unplaced, ofParts, ofParts]
    dsimp only
    split
    · refine erased_bind (ofParts_unplacedAll false (depth + 1) l.kind cs) fun here => ?_
      refine erased_bind hmore fun rest => ?_
      rw [← unplacedAll_append]
      rfl
    split
    · exact erased_bind hhere fun here => erased_bind hmore fun rest => rfl
    · exact hmore

end

theorem ofParts_append {opened : Bool} {depth : Nat} {parent : String} {cs cs' : List Concrete}
    {os os' : List Outline} (h : ofParts opened depth parent cs = .ok os)
    (h' : ofParts opened depth parent cs' = .ok os') :
    ofParts opened depth parent (cs ++ cs') = .ok (os ++ os') := by
  induction cs generalizing os with
  | nil =>
    rw [ofParts] at h
    cases h
    exact h'
  | cons c cs ih =>
    cases c with
    | node l children =>
      rw [ofParts] at h
      rw [List.cons_append, ofParts]
      split at h
      · next hopened =>
        obtain ⟨here, hhere, h⟩ := eq_ok_of_bind h
        obtain ⟨rest, hrest, h⟩ := eq_ok_of_bind h
        cases h
        rw [if_pos hopened, hhere, ih hrest, List.append_assoc]
        rfl
      · next hopened =>
        rw [if_neg hopened]
        split at h
        · next hnamed =>
          obtain ⟨here, hhere, h⟩ := eq_ok_of_bind h
          obtain ⟨rest, hrest, h⟩ := eq_ok_of_bind h
          cases h
          rw [if_pos hnamed, hhere, ih hrest, List.cons_append]
          rfl
        · next hnamed =>
          rw [if_neg hnamed]
          exact ih h

theorem ofModule_append {ts ts' : List Concrete} {os os' : List Outline} (h : ofModule ts = .ok os)
    (h' : ofModule ts' = .ok os') : ofModule (ts ++ ts') = .ok (os ++ os') := by
  unfold ofModule at h h' ⊢
  rw [List.filter_append]
  exact ofParts_append h h'

-- Where the outlines of statements are divided, the statements can be.
theorem exists_of_ofModule {ts : List Concrete} {front os : List Outline} {o : Outline}
    (h : ofModule ts = .ok (front ++ o :: os)) : ∃ before t after, ts = before ++ t :: after ∧
      t.kind ≠ "hash_bang_line" ∧ ofConcrete 1 "program" t = .ok o ∧ ofModule after = .ok os := by
  induction ts generalizing front with
  | nil =>
    unfold ofModule at h
    rw [List.filter_nil, ofParts] at h
    cases front <;> cases h
  | cons t ts ih =>
    have hmore (front : List Outline) (h : ofModule ts = .ok (front ++ o :: os)) :
        ∃ before t' after, t :: ts = before ++ t' :: after ∧ t'.kind ≠ "hash_bang_line" ∧
          ofConcrete 1 "program" t' = .ok o ∧ ofModule after = .ok os := by
      obtain ⟨before, t', after, rfl, hkind, ht', hafter⟩ := ih h
      exact ⟨t :: before, t', after, rfl, hkind, ht', hafter⟩
    by_cases hkind : t.kind = "hash_bang_line"
    · refine hmore front ?_
      unfold ofModule at h ⊢
      rwa [List.filter_cons_of_neg (by simp [hkind])] at h
    unfold ofModule at h
    rw [List.filter_cons_of_pos (by simp [hkind])] at h
    cases t with
    | node l cs =>
      rcases ofParts_cons h with ⟨hopened, -⟩ | ⟨-, here, rest, hhere, hrest, heq⟩ | hrest
      · cases hopened
      · cases front with
        | nil =>
          cases heq
          exact ⟨[], .node l cs, ts, rfl, hkind, hhere, hrest⟩
        | cons o' front =>
          cases heq
          exact hmore front hrest
      · exact hmore front hrest

-- The outlines of a module's statements can be told without places.
theorem exists_ofModule {ts ts' : List Concrete} {os : List Outline}
    (hts : ts'.map Concrete.unplaced = ts.map Concrete.unplaced) (h : ofModule ts = .ok os) :
    ∃ os', ofModule ts' = .ok os' ∧ unplacedAll os' = unplacedAll os := by
  have hfilter (us : List Concrete) : Concrete.unplacedAll (us.filter (·.kind != "hash_bang_line")) =
      (us.map Concrete.unplaced).filter (·.kind != "hash_bang_line") := by
    rw [Concrete.unplacedAll_eq, List.filter_map]
    congr 2
    exact funext fun c => by simp
  have hsame : erased unplacedAll (ofModule ts') = erased unplacedAll (ofModule ts) := by
    rw [ofModule, ofModule, ← ofParts_unplacedAll, ← ofParts_unplacedAll, hfilter, hfilter, hts]
  rw [h] at hsame
  cases hts' : ofModule ts' with
  | error place =>
    rw [hts'] at hsame
    cases hsame
  | ok os' =>
    rw [hts'] at hsame
    exact ⟨os', rfl, Except.ok.inj hsame⟩

/-! Forms of outlines -/

mutual

/-- The form of the nodes that represent an outline. -/
def form : Outline → Form
  | node shape _ _ parts => .node (shape.content (List.replicate parts.length 0)).outer (forms parts)

def forms : List Outline → List Form
  | [] => []
  | o :: os => form o :: forms os

end

theorem forms_append (os os' : List Outline) : forms (os ++ os') = forms os ++ forms os' := by
  induction os with
  | nil => rfl
  | cons o os ih => rw [List.cons_append, forms, forms, ih, List.cons_append]

theorem length_unplacedAll (os : List Outline) : (unplacedAll os).length = os.length := by
  induction os with
  | nil => rfl
  | cons o os ih => rw [unplacedAll, List.length_cons, ih, List.length_cons]

mutual

theorem form_unplaced : (o : Outline) → o.unplaced.form = o.form
  | node shape extent place parts => by
    rw [unplaced, form, form, length_unplacedAll, forms_unplacedAll parts]

theorem forms_unplacedAll : (os : List Outline) → forms (unplacedAll os) = forms os
  | [] => rfl
  | o :: os => by
    rw [unplacedAll, forms, forms, form_unplaced o, forms_unplacedAll os]

end

theorem forms_congr {os os' : List Outline} (h : unplacedAll os' = unplacedAll os) :
    forms os' = forms os := by
  rw [← forms_unplacedAll os', h, forms_unplacedAll]

end Outline

-- The outer content depends on how many parts there are, and not on their numbers.
theorem Shape.outer_content (shape : Shape) (ids : List NodeId) :
    (shape.content ids).outer = (shape.content (List.replicate ids.length 0)).outer := by
  have hgeneric (type : String) (ids ids' : List NodeId) :
      (genericContent type ids).outer = (genericContent type ids').outer := by
    unfold genericContent
    split <;> rfl
  match ids with
  | [] => rfl
  | [id] => cases shape <;> first | rfl | exact hgeneric _ _ _
  | id :: id' :: ids =>
    rw [List.length_cons, List.length_cons, List.replicate_succ, List.replicate_succ]
    cases shape <;> first | rfl | exact hgeneric _ _ _

namespace Tree

variable {T t : Tree} {source : String} {id : NodeId} {gone : List NodeId}
  {put : NodeId → Option Literal}

theorem RepresentsAll.length : {ids : List NodeId} → {os : List Outline} → T.RepresentsAll ids os →
    ids.length = os.length
  | [], [], _ => rfl
  | _ :: _, _ :: _, h => by rw [List.length_cons, List.length_cons, RepresentsAll.length h.2]

-- The node is live in the revised tree, and nothing was put below it.
def Untouched (T t : Tree) (put : NodeId → Option Literal) (id : NodeId) : Prop :=
  id ≠ T.root ∧ t.isLive id = true ∧ ∀ x, T.Below id x → t.isLive x = true → put x = none

theorem Untouched.part (hT : T.Built source []) (hrev : Revision T gone put t) {x : NodeId}
    (h : Untouched T t put id) (hx : x ∈ T.parts id) : Untouched T t put x := by
  obtain ⟨hroot, hlive, hnone⟩ := h
  have hparts : x ∈ t.parts id := by
    rwa [hrev.parts_of_ne hroot, hnone id .refl hlive]
  refine ⟨hT.ne_root_of_mem_parts hx, hrev.part_isLive hlive hparts, fun y hy => ?_⟩
  exact hnone y ((Below.of_mem_parts hx).trans hy)

mutual

-- What was not touched by a revision still has the form that it was read with.
theorem Represents.shows (hT : T.Built source []) (hrev : Revision T gone put t) {id : NodeId}
    (hid : Untouched T t put id) : (o : Outline) → T.Represents id o → t.Shows id o.form
  | .node shape extent place parts => by
    intro h
    rw [Represents] at h
    obtain ⟨-, -, -, ids, hcontent, hparts⟩ := h
    have hsame := hrev.content?_of_put_eq_none hid.1 (hid.2.2 id .refl hid.2.1)
    refine ⟨hid.2.1, _, hsame.trans hcontent, ?_, ?_⟩
    · rw [Shape.outer_content, RepresentsAll.length hparts]
    · rw [Shape.children_content]
      refine RepresentsAll.showsAll hT hrev ids (fun x hx => hid.part hT hrev ?_) parts hparts
      rwa [parts_of_content? hcontent, Shape.children_content]

theorem RepresentsAll.showsAll (hT : T.Built source []) (hrev : Revision T gone put t) :
    (ids : List NodeId) → (∀ id ∈ ids, Untouched T t put id) → (os : List Outline) →
      T.RepresentsAll ids os → t.ShowsAll ids (Outline.forms os)
  | [], _, [], _ => trivial
  | id :: ids, hids, o :: os, h =>
    ⟨Represents.shows hT hrev (hids id List.mem_cons_self) o h.1,
      RepresentsAll.showsAll hT hrev ids (fun x hx => hids x (List.mem_cons_of_mem id hx)) os h.2⟩

end

end Tree

/-! Texts -/

namespace JavaScript

open Flavoring.JavaScript.Parser

variable {cs : List Char} {ts : List Concrete} {cur last : Cursor} {a k : Nat}

/-- The cursor before a text. -/
def Cursor.start (cs : List Char) : Cursor := { rest := cs, size := cs.length }

/-- The statements of a text without an interpreter line. -/
def statements? (cs : List Char) : Option (List Concrete) :=
  (many (next? (nested (cs.length + 1)))).run' (Cursor.start cs)

theorem skipTrivia_start_of_space {v : List Char} (hv : ∀ c ∈ v, isAsciiSpace c = true)
    (hrest : cur.rest = v ++ cs) (hsize : cur.rest.length ≤ cur.size) :
    (Cursor.start cs).skipTrivia.rest = cur.skipTrivia.rest := by
  obtain ⟨hforward, hsame, -⟩ := Cursor.forward_spec v.length cur
  rw [hrest, List.drop_left] at hforward
  rw [← skipTrivia_forward_of_space hv hrest]
  have hlength : cs.length ≤ cur.size := by
    rw [hrest, List.length_append] at hsize
    omega
  have hbefore : Cursor.Before (cs.length + 1) (cur.forward v.length) (Cursor.start cs) :=
    ⟨hforward.symm, by rw [hforward]; omega, by rw [hforward, hsame]; exact hlength,
      by rw [hforward]; exact Nat.le_refl _⟩
  exact hbefore.facing.rest

theorem length_skipTrivia_start_le (cs : List Char) :
    (Cursor.start cs).skipTrivia.rest.length ≤ cs.length := by
  have hself := facing_of_rest (Nat.le_refl cs.length) (Nat.le_refl cs.length)
    (rfl : (Cursor.start cs).skipTrivia.rest = (Cursor.start cs).skipTrivia.rest)
  have hfits := hself.fits
  rwa [Cursor.skipTrivia, (Cursor.skipTriviaWithin_spec ..).1] at hfits

-- Statements that were read in another place, from the same token on.
theorem exists_statements? (hsize : cur.rest.length ≤ cur.size)
    (hrest : (Cursor.start cs).skipTrivia.rest = cur.skipTrivia.rest)
    (ha : cur.skipTrivia.rest.length < a)
    (hrun : manyWithin (next? (nested a)) k cur = some (ts, last)) :
    ∃ ts', statements? cs = some ts' ∧
      ts'.map Concrete.unplaced = ts.map Concrete.unplaced := by
  have hlength : cur.skipTrivia.rest.length < cs.length + 1 :=
    hrest ▸ Nat.lt_succ_of_le (length_skipTrivia_start_le cs)
  obtain ⟨ts', last', hrun', hts⟩ :=
    exists_manyWithin _ _ hsize (Nat.le_refl _) hrest ha hlength hlength hrun
  refine ⟨ts', ?_, hts⟩
  change (manyWithin _ (cs.length + 1) (Cursor.start cs)).map _ = _
  rw [hrun']
  rfl

-- One step of a list of statements.
theorem exists_of_manyWithin {t : Concrete}
    (h : manyWithin (next? (nested a)) k cur = some (t :: ts, last)) :
    ∃ k next, nested a (.statement false) cur = some (t, next) ∧
      manyWithin (next? (nested a)) k next = some (ts, last) := by
  cases k with
  | zero => cases h
  | succ k =>
    obtain ⟨⟨o, next⟩, hstep, hrest⟩ := Option.bind_eq_some_iff.mp h
    cases o with
    | none => cases hrest
    | some t' =>
      obtain ⟨⟨us, c⟩, hmany, heq⟩ := Option.bind_eq_some_iff.mp hrest
      cases heq
      refine ⟨k, next, ?_, hmany⟩
      have hstep : Yields (next? (nested a)) cur fun o c => ∀ t, o = some t →
          nested a (.statement false) cur = some (t, c) := by
        refine looks_peek.bind fun cs => ?_
        split
        · exact Yields.pure nofun
        · refine Yields.map fun t c ht t' ht' => ?_
          cases ht'
          exact ht
      exact hstep _ _ ‹_› t rfl

theorem statements?_cons {t : Concrete} {next : Cursor}
    (hne : (Cursor.start cs).skipTrivia.rest ≠ [])
    (ht : nested (cs.length + 1) (.statement false) (Cursor.start cs) = some (t, next))
    (hrun : manyWithin (next? (nested (cs.length + 1))) cs.length next = some (ts, last)) :
    statements? cs = some (t :: ts) := by
  have hstep : next? (nested (cs.length + 1)) (Cursor.start cs) = some (some t, next) := by
    change (if (Cursor.start cs).skipTrivia.rest.isEmpty then pure none
      else some <$> nested (cs.length + 1) (.statement false) : Parser (Option Concrete)) _ = _
    rw [if_neg (by rwa [List.isEmpty_iff]), map_eq_pure_bind]
    exact Option.bind_eq_some_iff.mpr ⟨(t, next), ht, rfl⟩
  refine Option.map_eq_some_iff.mpr ⟨(t :: ts, last), ?_, rfl⟩
  change manyWithin _ (cs.length + 1) (Cursor.start cs) = _
  unfold manyWithin
  refine Option.bind_eq_some_iff.mpr ⟨(some t, next), hstep, ?_⟩
  exact Option.bind_eq_some_iff.mpr ⟨(ts, last), hrun, rfl⟩

-- A list of statements, from behind one of them on.
theorem exists_run_behind {text : List Char} {front : List Concrete} {t : Concrete}
    (hcur : cur.In text)
    (h : manyWithin (next? (nested a)) k cur = some (front ++ t :: ts, last)) :
    ∃ k next, next.In text ∧ EndsAt t next ∧
      manyWithin (next? (nested a)) k next = some (ts, last) := by
  induction front generalizing k cur with
  | nil =>
    obtain ⟨k, next, hstep, hrun⟩ := exists_of_manyWithin h
    obtain ⟨hin, -⟩ := serves_nested a (.statement false) cur hcur t next hstep
    exact ⟨k, next, hin, (closing_nested a).statement false cur t next hstep, hrun⟩
  | cons t' front ih =>
    obtain ⟨k, next, hstep, hrun⟩ := exists_of_manyWithin h
    exact ih (serves_nested a (.statement false) cur hcur t' next hstep).1 hrun

-- A text that has statements does not start with an interpreter line.
theorem interpreterLine_of_statements? (h : statements? cs = some ts) :
    Token.interpreterLine (Cursor.start cs).skipTrivia.rest = 0 := by
  obtain ⟨⟨ts', last⟩, hrun, rfl⟩ := Option.map_eq_some_iff.mp h
  unfold Token.interpreterLine
  split
  · next rest hrest =>
    obtain ⟨⟨o, next⟩, hstep, -⟩ := Option.bind_eq_some_iff.mp hrun
    have hstep : Parser.Yields (next? (nested (cs.length + 1))) (Cursor.start cs) fun _ _ => False := by
      refine Yields.peek ?_
      rw [hrest]
      exact Yields.map (yields_statement_of_interpreterLine false hrest)
    exact (hstep o next ‹_›).elim
  · rfl

theorem program_of_interpreterLine {read : Reader}
    (h : Token.interpreterLine cur.skipTrivia.rest = 0) :
    program read cur = many (next? read) cur := by
  have hget (f : Cursor → Parser (List Concrete)) : (get >>= f) cur = f cur cur := rfl
  unfold program
  rw [hget, h]
  change ((many (next? read) >>= fun body => pure ([] ++ body)) cur) = _
  simp only [List.nil_append, bind_pure]

theorem parse?_eq (text : String) : parse? text =
    (program (nested (text.toList.length + 1)) (Cursor.start text.toList)).map Prod.fst := rfl

theorem parse?_of_statements? {text : String} (h : statements? text.toList = some ts) :
    parse? text = some ts := by
  rw [parse?_eq, program_of_interpreterLine (interpreterLine_of_statements? h)]
  exact h

end JavaScript

/-! Texts and the forms of their statements -/

namespace Tree

open JavaScript.Parser (manyWithin next? nested)

variable {u v : List Char} {fs gs : List Form} {ts : List Concrete} {os : List Outline}

/-- The text is read as statements of these forms. -/
def Describes (cs : List Char) (fs : List Form) : Prop :=
  ∃ ts os, JavaScript.statements? cs = some ts ∧ Outline.ofModule ts = .ok os ∧
    Outline.forms os = fs

/-- The text is read as statements of these forms, whatever statements follow it in a text that
starts with `v`. -/
def Separate (u v : List Char) (fs : List Form) : Prop :=
  ∀ w gs, v <+: w → Describes w gs → Describes (u ++ w) (fs ++ gs)

/-- The text is the start of a module and is read as statements of these forms there, whatever
statements follow it in a text that starts with `v`. -/
def Opening (u v : List Char) (fs : List Form) : Prop :=
  ∀ w gs, v <+: w → Describes w gs → ∃ t, parse (String.ofList (u ++ w)) = .ok t ∧
    t.Shows t.root (.node (.program []) (fs ++ gs))

theorem shows_of_ofOutlines (source : String) (os : List Outline) :
    (ofOutlines source os).Shows (ofOutlines source os).root
      (.node (.program []) (Outline.forms os)) := by
  obtain ⟨hT, hall⟩ := built_ofOutlines source os
  obtain ⟨body, hbody⟩ := hT.program
  refine ⟨hT.root_isLive, .program body, hbody, rfl, ?_⟩
  rw [statements_of_content? hbody] at hall
  refine RepresentsAll.showsAll hT (.start hT) body (fun id hid => ?_) os hall
  rw [← statements_of_content? hbody] at hid
  exact ⟨hT.ne_root_of_mem_statements hid, hT.isLive_of_mem_statements hid, fun _ _ _ => rfl⟩

theorem Describes.parse {cs : List Char} (h : Describes cs fs) : ∃ t,
    parse (String.ofList cs) = .ok t ∧ t.Shows t.root (.node (.program []) fs) := by
  obtain ⟨ts, os, hts, hos, rfl⟩ := h
  have hparse : JavaScript.parse? (String.ofList cs) = some ts :=
    JavaScript.parse?_of_statements? (by rwa [String.toList_ofList])
  refine ⟨ofOutlines (String.ofList cs) os, ?_, shows_of_ofOutlines _ os⟩
  unfold Tree.parse
  rw [hparse]
  dsimp only
  rw [hos]

theorem Separate.opening (h : Separate u v fs) : Opening u v fs :=
  fun w gs hv hw => (h w gs hv hw).parse

theorem Separate.append {u' v' : List Char} (h : Separate u v fs) (h' : Separate u' v' gs)
    (hv : v <+: u' ++ v') : Separate (u ++ u') v' (fs ++ gs) := by
  intro w hs hw hdescribes
  rw [List.append_assoc, List.append_assoc]
  refine h _ _ (hv.trans ?_) (h' w hs hw hdescribes)
  obtain ⟨more, rfl⟩ := hw
  exact ⟨more, List.append_assoc ..⟩

-- Statements that were read elsewhere, from the same token on.
theorem describes_of_run {cs : List Char} {cur last : JavaScript.Cursor} {a k : Nat}
    (hsize : cur.rest.length ≤ cur.size)
    (hrest : (JavaScript.Cursor.start cs).skipTrivia.rest = cur.skipTrivia.rest)
    (ha : cur.skipTrivia.rest.length < a)
    (hrun : manyWithin (next? (nested a)) k cur = some (ts, last))
    (hos : Outline.ofModule ts = .ok os) : Describes cs (Outline.forms os) := by
  obtain ⟨ts', hts', hmap⟩ := JavaScript.exists_statements? hsize hrest ha hrun
  obtain ⟨os', hos', hsame⟩ := Outline.exists_ofModule hmap hos
  exact ⟨ts', os', hts', hos', Outline.forms_congr hsame⟩

-- Space is read as no statement.
theorem separate_of_space (hu : ∀ c ∈ u, JavaScript.isAsciiSpace c = true) : Separate u [] [] := by
  rintro w gs - ⟨ts, os, hts, hos, rfl⟩
  obtain ⟨⟨ts', last⟩, hrun, rfl⟩ := Option.map_eq_some_iff.mp hts
  have hrest : (JavaScript.Cursor.start w).skipTrivia.rest =
      (JavaScript.Cursor.start (u ++ w)).skipTrivia.rest :=
    JavaScript.skipTrivia_start_of_space hu rfl (Nat.le_refl _)
  exact describes_of_run (Nat.le_refl _) hrest.symm
    (Nat.lt_succ_of_le (JavaScript.length_skipTrivia_start_le w)) hrun hos

-- A statement that stops at its own end whatever follows it.
theorem separate_of_statement (h : ∀ w, v <+: w → ∃ t next os,
    nested ((u ++ w).length + 1) (.statement false) (JavaScript.Cursor.start (u ++ w)) =
      some (t, next) ∧ next.rest = w ∧ Outline.ofModule [t] = .ok os ∧ Outline.forms os = fs) :
    Separate u v fs := by
  rintro w gs hv ⟨ts, os, hts, hos, rfl⟩
  obtain ⟨⟨ts, last⟩, hrun, rfl⟩ := Option.map_eq_some_iff.mp hts
  obtain ⟨t, next, ot, ht, hnext, hot, rfl⟩ := h w hv
  have hlength := JavaScript.length_skipTrivia_start_le (u ++ w)
  have hshort := JavaScript.Parser.length_lt_of_statement (Nat.le_refl _)
    (Nat.lt_succ_of_le hlength) ht
  have hsize : next.size = (u ++ w).length := by
    have hin : JavaScript.Cursor.In (u ++ w) (JavaScript.Cursor.start (u ++ w)) :=
      ⟨rfl, [], rfl, rfl⟩
    exact (JavaScript.Parser.serves_nested _ (.statement false) _ hin t next ht).1.size
  rw [hnext] at hshort
  have hfacing : JavaScript.Cursor.Facing (w.length + 1) (JavaScript.Cursor.start w) next :=
    JavaScript.Cursor.Before.facing ⟨hnext, Nat.lt_succ_self _, Nat.le_refl _, by
      show w.length ≤ next.size
      omega⟩
  have hstart := JavaScript.length_skipTrivia_start_le w
  -- the statements behind are read as they are read alone
  obtain ⟨ts', last', hrun', hmap⟩ := JavaScript.Parser.exists_manyWithin ((u ++ w).length + 1)
    (u ++ w).length (Nat.le_refl w.length) (by rw [hnext, hsize]; omega) hfacing.rest
    (Nat.lt_succ_of_le hstart) (by omega) (by omega) hrun
  obtain ⟨os', hos', hsame⟩ := Outline.exists_ofModule hmap hos
  refine ⟨t :: ts', ot ++ os', ?_, Outline.ofModule_append hot hos', ?_⟩
  · exact JavaScript.statements?_cons (by rintro hnil; rw [hnil] at hshort; cases hshort) ht hrun'
  · rw [Outline.forms_append, Outline.forms_congr hsame]

/-- A default import that a semicolon closes. -/
theorem separate_import {c quote : Char} {more inside : List Char}
    (hname : JavaScript.Parser.IsName c more) (hstring : JavaScript.Parser.IsString quote inside) :
    Separate ("import".toList ++ ' ' :: (c :: more ++ ' ' :: "from".toList ++
        ' ' :: (quote :: inside ++ [';']))) []
      [.node (.importDeclaration [.defaultImport (String.ofList (c :: more))] 0)
        [.node (.literal { value := (Literal.ofText (String.ofList (quote :: inside))).value }) []]] := by
  refine separate_of_statement fun w _ => ?_
  generalize htext : "import".toList ++ ' ' :: (c :: more ++ ' ' :: "from".toList ++
    ' ' :: (quote :: inside ++ [';'])) ++ w = text
  have hrest : (JavaScript.Cursor.start text).rest = "import".toList ++ ' ' :: (c :: more ++
      ' ' :: "from".toList ++ ' ' :: (quote :: inside ++ ';' :: w)) := by
    simp [← htext, JavaScript.Cursor.start]
  obtain ⟨_, _, _, _, _, next, hrun, hnext, ⟨_, _, rfl⟩, ⟨_, _, rfl⟩, ⟨_, _, rfl⟩, ⟨_, _, rfl⟩,
    ⟨_, _, rfl⟩⟩ :=
      JavaScript.Parser.statement_of_import (nested text.length) false hname hstring hrest
  exact ⟨_, next, _, hrun, hnext, rfl, rfl⟩

/-! The rest of a module -/

theorem RepresentsAll.split {T : Tree} {head tail : List NodeId} {os : List Outline}
    (h : T.RepresentsAll (head ++ tail) os) : ∃ front back, os = front ++ back ∧
      T.RepresentsAll head front ∧ T.RepresentsAll tail back := by
  induction head generalizing os with
  | nil => exact ⟨[], os, rfl, trivial, h⟩
  | cons id head ih =>
    cases os with
    | nil => exact h.elim
    | cons o os =>
      obtain ⟨front, back, rfl, hfront, hback⟩ := ih h.2
      exact ⟨o :: front, back, rfl, ⟨h.1, hfront⟩, hback⟩

-- What stands behind a statement of a module is read from the end of that statement on.
theorem exists_run_of_parse {T : Tree} {source : String} {head tail : List NodeId} {s : NodeId}
    (h : parse source = .ok T) (hsplit : T.statements = head ++ s :: tail) :
    ∃ (cur last : JavaScript.Cursor) (k : Nat) (ts : List Concrete) (os : List Outline),
      cur.In source.toList ∧ cur.offset = (T.extent s).stop ∧
      manyWithin (next? (nested (source.toList.length + 1))) k cur = some (ts, last) ∧
      Outline.ofModule ts = .ok os ∧ T.RepresentsAll tail os := by
  obtain ⟨statements, outlines, hparse, hmodule, rfl⟩ := parse_eq_ok h
  obtain ⟨-, hall⟩ := built_ofOutlines source outlines
  generalize ofOutlines source outlines = T at hsplit hall
  rw [hsplit] at hall
  obtain ⟨front, back, rfl, -, hback⟩ := hall.split
  cases back with
  | nil => exact hback.elim
  | cons o os =>
    obtain ⟨hi, hbody⟩ := JavaScript.body_of_parse? hparse
    rw [JavaScript.parse?_eq] at hparse
    obtain ⟨⟨ts, last⟩, hrun, rfl⟩ := Option.map_eq_some_iff.mp hparse
    obtain ⟨start, body, hstart, -, hmany, hfilter⟩ :=
      JavaScript.Parser.yields_program _ ⟨rfl, [], rfl, rfl⟩ ts last hrun
    have hmodule' : Outline.ofModule body = .ok (front ++ o :: os) := by
      unfold Outline.ofModule at hmodule ⊢
      rwa [← hfilter]
    obtain ⟨before, t, after, rfl, hkind, ht, hafter⟩ := Outline.exists_of_ofModule hmodule'
    obtain ⟨k, cur, hcur, hends, hrun'⟩ := JavaScript.exists_run_behind hstart hmany
    refine ⟨cur, last, k, after, os, hcur, ?_, hrun', hafter, hback.2⟩
    -- a statement is in no parentheses, so that its node has its extent
    have hmem : t ∈ ts.filter (·.kind != "hash_bang_line") := by
      rw [hfilter, List.mem_filter]
      exact ⟨List.mem_append_right _ List.mem_cons_self, by simp [hkind]⟩
    have hextent : o.extent = t.label.extent := by
      cases t with
      | node l cs => exact Outline.extent_of_reduces (Outline.reduces_of_ofConcrete ht) (hbody.2 _ hmem).2
    rw [hback.1.extent_eq, hextent]
    exact hends.symm

-- The text from the end of a deletion on is read as the statements behind the deleted one.
theorem exists_describes_behind {T : Tree} {source : String} {head tail : List NodeId} {s : NodeId}
    (h : parse source = .ok T) (hsplit : T.statements = head ++ s :: tail) {behind : List Char}
    (hbehind : Text.drop? (T.deletionOf s).stop source.toList = some behind) :
    ∃ os, T.RepresentsAll tail os ∧ Describes behind (Outline.forms os) := by
  have hT := built_of_parse h
  have hwidens := (laid_of_parse h).widens hT (s := s) (by rw [hsplit]; simp)
  rw [hT.source_eq] at hwidens
  obtain ⟨cur, last, k, ts, os, hcur, hoffset, hrun, hos, hall⟩ := exists_run_of_parse h hsplit
  obtain ⟨before, hsource, hbefore⟩ := hcur.split
  obtain ⟨front, hsource', hfront⟩ := Text.drop?_eq_some_iff.mp hbehind
  obtain ⟨space, rfl, hrest⟩ := Text.exists_append_of_byteLength_le (hsource.symm.trans hsource')
    (by rw [hbefore, hoffset, hfront]; exact hwidens.stop_le)
  -- space only stands between the two
  have hspace : ∀ c ∈ space, JavaScript.isAsciiSpace c = true := by
    intro c hc
    obtain ⟨left, right, rfl⟩ := List.append_of_mem hc
    have hat := Text.getElem?_bytes (before ++ left) (right ++ behind) c.utf8Size_pos
    have htext : source.toList = (before ++ left) ++ c :: (right ++ behind) := by
      rw [hsource']
      simp
    simp only [Text.byteLength_append, Text.byteLength_cons] at hfront
    have hpos := c.utf8Size_pos
    rw [← htext, Text.byteLength_append, Nat.add_zero, hbefore, hoffset] at hat
    obtain ⟨b, hb, hor⟩ := hwidens.space_behind (i := (T.extent s).stop + Text.byteLength left)
      (Nat.le_add_right _ _) (by omega)
    exact JavaScript.isAsciiSpace_of_mem (List.mem_of_getElem? (hat.symm.trans hb)) hor
  have hsame := JavaScript.skipTrivia_start_of_space hspace hrest hcur.length_le
  have hlength := JavaScript.length_skipTrivia_start_le behind
  have hle := hcur.length_le
  rw [hcur.size, hrest, List.length_append] at hle
  rw [hsame] at hlength
  exact ⟨os, hall, describes_of_run hcur.length_le hsame (by omega) hrun hos⟩

end Tree

end Flavoring
