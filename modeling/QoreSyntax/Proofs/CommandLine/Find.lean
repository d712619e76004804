import QoreSyntax.CommandLine.Run
import QoreSyntax.Proofs.Grammar.Extent.Script
import QoreSyntax.Proofs.Tree.Outline

namespace QoreSyntax.CommandLine

/-- The tree of a file that is read from the first line on. A file that cannot be read has none. -/
def treeOf (files : Files) (startLine : Nat) (path : String) : Tree :=
  match files path with
  | .ok bytes => (QoreSyntax.parse (Text.decode bytes) (sessionFor startLine path).options).1
  | .error _ => Tree.empty

theorem isWellFormed_treeOf (files : Files) (startLine : Nat) (path : String) :
    (treeOf files startLine path).isWellFormed = true := by
  rw [treeOf]
  split
  · exact (Grammar.isOrderly_script _ (Grammar.State.ordered_start _ _) le_rfl).isWellFormed
  · exact Tree.isWellFormed_empty

theorem stdout_tree (files : Files) (startLine : Nat) (path : String) :
    (tree files startLine path false).stdout = (treeOf files startLine path).outline := by
  rw [tree, treeOf, Session.parseFile]
  cases files path <;> rfl

theorem stdout_find (files : Files) (startLine : Nat) (path : String) (p : Position) :
    (find files startLine path p).stdout = (treeOf files startLine path).outlineAt p := by
  rw [find, treeOf, Session.parseFile]
  cases files path with
  | error fault => rfl
  | ok bytes =>
      dsimp only
      split
      · rename_i hnone
        exact hnone.symm
      · rfl

/-- The command ends with 1 where it prints no entry and with 0 where it prints some. -/
theorem exit_find (files : Files) (startLine : Nat) (path : String) (p : Position) :
    let outcome := find files startLine path p
    outcome.stdout = [] ∧ outcome.exit = 1 ∨ outcome.stdout ≠ [] ∧ outcome.exit = 0 := by
  intro outcome
  rw [show outcome = find files startLine path p from rfl, find]
  rcases (sessionFor startLine path).parseFile files path with ⟨_ | _, session⟩
  · exact Or.inl ⟨rfl, rfl⟩
  · dsimp only
    cases (session.tree?.getD Tree.empty).outlineAt p with
    | nil => exact Or.inl ⟨rfl, rfl⟩
    | cons entry entries => exact Or.inr ⟨List.cons_ne_nil entry entries, rfl⟩

/-- Of any file the command for a position prints those entries of the tree of which the node
contains the position, with the indentation that they have in the tree and in the same order. It
ends with 1 if there are none and with 0 otherwise. -/
theorem find_prints_entries_of_tree (files : Files) (startLine : Nat) (path : String)
    (p : Position) :
    let parsed := treeOf files startLine path
    let entry := fun (level : Nat × Node) => level.2.entry level.1
    let shown := parsed.levels.filter fun level => level.2.range.contains p
    (tree files startLine path false).stdout = parsed.levels.map entry ∧
      (find files startLine path p).stdout = shown.map entry ∧
      ((find files startLine path p).exit = 1 ↔ shown = []) ∧
      ((find files startLine path p).exit = 0 ↔ shown ≠ []) := by
  intro parsed entry shown
  have hstdout : (find files startLine path p).stdout = shown.map entry := by
    rw [stdout_find]
    exact Tree.outlineAt_eq (isWellFormed_treeOf files startLine path) p
  have hempty : (find files startLine path p).stdout = [] ↔ shown = [] := by
    rw [hstdout, List.map_eq_nil_iff]
  refine ⟨stdout_tree files startLine path, hstdout, ?_⟩
  rw [ne_eq, ← hempty]
  rcases exit_find files startLine path p with ⟨hnone, hexit⟩ | ⟨hsome, hexit⟩
  · simp [hnone, hexit]
  · simp [hsome, hexit]

end QoreSyntax.CommandLine
