import Flavoring.Proofs.Expansion.SecondPass
import Flavoring.Proofs.Tree.Readings

/-!
Reading back: whether the printed module is read as the statements that the tree keeps.

Behind the last change nothing can go wrong. In front of it a statement that stays may read on past
the place of one that was taken out.
-/

namespace Flavoring.Expansion

open Flavoring.Tree

variable {T : Tree} {source : String} {config : Config} {options : Options} {stats : Statistics}
  {front kept rear : List NodeId} {p : NodeId} {fs : List Form} {next : List Char}

-- A statement behind the last change was neither taken out nor changed within.
theorem untouched_of_behind {gone : List NodeId} {put : NodeId → Option Literal} {t : Tree}
    {s : NodeId} (h : parse source = .ok T) (hedited : Edited T gone put t)
    (hsplit : T.statements = front ++ p :: rear) (hs : s ∈ rear)
    (hlast : ∀ e ∈ t.edits, e.extent.stop ≤ (T.deletionOf p).stop) (hstays : s ∈ t.statements) :
    Untouched T t put s := by
  have hT := built_of_parse h
  have hL := laid_of_parse h
  have hrev := hedited.revision hT
  have hsT : s ∈ T.statements := by
    rw [hsplit]
    simp [hs]
  have hps : (T.deletionOf p).stop ≤ (T.extent s).start := by
    have hpairs := hL.ordered hT.root_isLive
    rw [hT.parts_root, hsplit, List.pairwise_append, List.pairwise_cons] at hpairs
    exact hL.deletionOf_stop_le hT (by rw [hsplit]; simp) hsT (hpairs.2.1.1 s hs)
  refine ⟨hT.ne_root_of_mem_statements hsT, hrev.isLive_of_mem_statements hstays, fun x hx hlive => ?_⟩
  by_contra hput
  obtain ⟨l, hput⟩ := Option.ne_none_iff_exists'.mp hput
  obtain ⟨content, hcontent, hterm⟩ := hrev.put_isTerm (by rw [hput]; rfl)
  have hstop := hlast _ ((hedited.recorded hL hT).replacement hput hlive)
  have hwithin := hL.within_of_below hT hsT hx
  have hlt := hL.nonempty ((hrev.isLive_iff x).mp hlive).1
    (Revision.ne_root_of_isTerm hT hcontent hterm)
  dsimp only at hstop
  omega

/-- The printed text is read back if its front, to the end of the lines of the last change, is read
as the statements that the tree keeps there, whatever follows that starts as the text behind does. -/
theorem readsBack_of_opening {summary : Summary} {w : Work} (h : parse source = .ok T)
    (hrun : expand options config ⟨T, stats⟩ = (.ok summary, w))
    (hsplit : T.statements = front ++ p :: rear) (hkept : w.tree.statements = kept ++ rear)
    (hlast : ∀ e ∈ w.tree.edits, e.extent.stop ≤ (T.deletionOf p).stop)
    (hshows : w.tree.ShowsAll kept fs)
    (hnext : next <+: (Text.drop? (T.deletionOf p).stop source.toList).getD [])
    (hopening : Opening (w.tree.printedTo (T.deletionOf p).stop) next fs) : w.tree.ReadsBack := by
  have hT := built_of_parse h
  have hL := laid_of_parse h
  obtain ⟨markers, put, -, hedited⟩ := edited_of_expand hT hrun
  have hrev := hedited.revision hT
  have hpT : p ∈ T.statements := by
    rw [hsplit]
    simp
  have hcuts := hL.isCut (hT.isLive_of_mem_statements hpT) (hT.ne_root_of_mem_statements hpT)
  obtain ⟨before, behind, hcut, hbefore⟩ :=
    (Text.isCut_deletionIn (Nat.le_of_lt (hL.start_lt_stop hT hpT)) hcuts.1 hcuts.2).2
  have hbehind : Text.drop? (T.deletionOf p).stop T.source.toList = some behind :=
    Text.drop?_eq_some_iff.mpr ⟨before, hcut, hbefore⟩
  have hrender := hedited.render_eq_printedTo hL hT hlast hbehind
  rw [hT.source_eq] at hbehind
  rw [hbehind, Option.getD_some] at hnext
  obtain ⟨os, hall, hdescribes⟩ := exists_describes_behind h hsplit hbehind
  obtain ⟨u, hu, hform⟩ := hopening behind _ hnext hdescribes
  have hrear : w.tree.ShowsAll rear (Outline.forms os) :=
    RepresentsAll.showsAll hT hrev rear (fun s hs => untouched_of_behind h hedited hsplit hs hlast
      (hkept ▸ List.mem_append_right _ hs)) os hall
  refine ⟨.node (.program []) (fs ++ Outline.forms os), u,
    ⟨hrev.root_isLive, _, hrev.program, rfl, ?_⟩, hrender ▸ hu, hform⟩
  rw [← hrev.statements, hkept]
  exact hshows.append hrear

/-- A redirected import in front of the last change, which takes out a marker. -/
theorem readsBack_behind_redirection :
    ∃ T, parse "import fl from 'flavors.macro';\nimport x from 'a';\nfl();\nuse(x);\n" = .ok T ∧
      T.statements = [2, 4, 7, 11] ∧ T.deletionOf 7 = ⟨51, 57⟩ ∧
      (expand {} ⟨⟨[("a", "b")]⟩, {}⟩ ⟨T, {}⟩).2.tree.edits =
        [⟨⟨46, 49⟩, "'b'"⟩, ⟨⟨51, 57⟩, ""⟩, ⟨⟨0, 32⟩, ""⟩] ∧
      (expand {} ⟨⟨[("a", "b")]⟩, {}⟩ ⟨T, {}⟩).2.tree.ReadsBack := by
  obtain ⟨T, h, hcheck⟩ := exists_parse
    (fun T =>
      let run := expand {} ⟨⟨[("a", "b")]⟩, {}⟩ ⟨T, {}⟩
      run.1.toBool && T.statements == [2, 4, 7, 11] && T.deletionOf 7 == ⟨51, 57⟩ &&
        run.2.tree.edits == [⟨⟨46, 49⟩, "'b'"⟩, ⟨⟨51, 57⟩, ""⟩, ⟨⟨0, 32⟩, ""⟩] &&
        run.2.tree.statements == [4, 11] && run.2.tree.isLive 4 && run.2.tree.isLive 3 &&
        run.2.tree.content? 4 == some (.importDeclaration [.defaultImport "x"] 3) &&
        run.2.tree.content? 3 == some (.literal { value := "b", raw := some "'b'" }) &&
        run.2.tree.source ==
          "import fl from 'flavors.macro';\nimport x from 'a';\nfl();\nuse(x);\n")
    (by decide +kernel : (parse
      "import fl from 'flavors.macro';\nimport x from 'a';\nfl();\nuse(x);\n").toOption.any _
        = true)
  simp only [Bool.and_eq_true, beq_iff_eq] at hcheck
  obtain ⟨⟨⟨⟨⟨⟨⟨⟨⟨hbool, hstatements⟩, hdeletion⟩, hedits⟩, hkept⟩, hlive⟩, hlive'⟩, himport⟩,
    hliteral⟩, hsource⟩ := hcheck
  obtain ⟨summary, hok⟩ := exists_ok_of_toBool hbool
  have hshows : (expand {} ⟨⟨[("a", "b")]⟩, {}⟩ ⟨T, {}⟩).2.tree.ShowsAll [4]
      [.node (.importDeclaration [.defaultImport "x"] 0) [.node (.literal { value := "b" }) []]] :=
    ⟨⟨hlive, _, himport, rfl, ⟨hlive', _, hliteral, rfl, trivial⟩, trivial⟩, trivial⟩
  refine ⟨T, h, hstatements, hdeletion, hedits, readsBack_of_opening h (Prod.ext hok rfl)
    (show T.statements = [2, 4] ++ 7 :: [11] from hstatements)
    (show _ = [4] ++ [11] from hkept) ?_ hshows (List.nil_prefix : [] <+: _) ?_⟩
  · rw [hedits, hdeletion]
    decide
  · have hname : JavaScript.Parser.IsName 'x' [] := ⟨List.all_eq_true.mp rfl, rfl⟩
    have hstring : JavaScript.Parser.IsString '\'' ['b', '\''] := ⟨Or.inr rfl, fun cs => rfl⟩
    have hseparate := (separate_import hname hstring).append
      (separate_of_space (u := ['\n']) (List.all_eq_true.mp rfl)) List.nil_prefix
    have hvalue : (Literal.ofText (String.ofList ['\'', 'b', '\''])).value = "b" := by decide +kernel
    have hordered : [⟨⟨46, 49⟩, "'b'"⟩, ⟨⟨51, 57⟩, ""⟩, ⟨⟨0, 32⟩, ""⟩].Perm
        [(⟨⟨0, 32⟩, ""⟩ : Text.Edit), ⟨⟨46, 49⟩, "'b'"⟩, ⟨⟨51, 57⟩, ""⟩] := by
      decide
    have hprinted : (expand {} ⟨⟨[("a", "b")]⟩, {}⟩ ⟨T, {}⟩).2.tree.printedTo 57 =
        "import x from 'b';\n".toList := by
      rw [Tree.printedTo, hsource, hedits, Text.written_of_ordered hordered (by decide)]
      decide +kernel
    rw [hvalue] at hseparate
    rw [hdeletion, hprinted]
    exact hseparate.opening

/-- Only blanks stand beside the statement on its lines. -/
def FillsLines (T : Tree) (s : NodeId) : Prop :=
  Text.FillsLines (Text.bytes T.source.toList) (T.extent s)

instance (T : Tree) (s : NodeId) : Decidable (FillsLines T s) :=
  inferInstanceAs (Decidable (Text.FillsLines _ _))

theorem not_readsBack_before_regex :
    ∃ T, parse "import fl from \"flavors.macro\";\nconst x = 1\nfl();\n/re/.test(x);\n" = .ok T ∧
      (expand {} {} ⟨T, {}⟩).1.toBool = true ∧
      (∀ s ∈ T.statements, s ∉ (expand {} {} ⟨T, {}⟩).2.tree.statements → FillsLines T s) ∧
      (expand {} {} ⟨T, {}⟩).2.tree.render = "const x = 1\n/re/.test(x);\n" ∧
      ¬ (expand {} {} ⟨T, {}⟩).2.tree.ReadsBack := by
  obtain ⟨T, hT, hcheck⟩ := exists_parse
    (fun T => (expand {} {} ⟨T, {}⟩).1.toBool &&
      decide (∀ s ∈ T.statements, s ∉ (expand {} {} ⟨T, {}⟩).2.tree.statements → FillsLines T s) &&
      (expand {} {} ⟨T, {}⟩).2.tree.edits == [⟨⟨44, 50⟩, ""⟩, ⟨⟨0, 32⟩, ""⟩])
    (by decide +kernel : (parse
      "import fl from \"flavors.macro\";\nconst x = 1\nfl();\n/re/.test(x);\n").toOption.any _ = true)
  simp only [Bool.and_eq_true, beq_iff_eq, decide_eq_true_eq] at hcheck
  obtain ⟨⟨hbool, hfills⟩, hedits⟩ := hcheck
  obtain ⟨summary, hok⟩ := exists_ok_of_toBool hbool
  have hrender : (expand {} {} ⟨T, {}⟩).2.tree.render = "const x = 1\n/re/.test(x);\n" := by
    rw [render_of_edits hT hok [⟨⟨0, 32⟩, ""⟩, ⟨⟨44, 50⟩, ""⟩] (by rw [hedits]; decide) (by decide)]
    decide +kernel
  refine ⟨T, hT, hbool, hfills, hrender, ?_⟩
  rintro ⟨form, u, -, hu, -⟩
  have hreject : (parse "const x = 1\n/re/.test(x);\n").toBool = false := by decide +kernel
  rw [hrender] at hu
  rw [hu] at hreject
  cases hreject

end Flavoring.Expansion
