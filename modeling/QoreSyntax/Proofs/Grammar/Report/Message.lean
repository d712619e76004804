import Mathlib.Tactic.Common
import QoreSyntax.Diagnostic

namespace QoreSyntax

/-- The message begins with the letters in which messages about unmatched braces differ from all
others. -/
def saysUnmatched (message : String) : Bool :=
  message.toList.take 3 == ['U', 'n', 'm']

theorem saysUnmatched_append {first : String} (h : 3 ≤ first.toList.length) (rest : String) :
    saysUnmatched (first ++ rest) = saysUnmatched first := by
  rw [saysUnmatched, String.toList_append, List.take_append_of_le_length h]
  rfl

theorem Fault.saysUnmatched_message (fault : Fault) : saysUnmatched fault.message = false := by
  cases fault with
  | unterminated enclosure => exact (saysUnmatched_append (by simp) _).trans (by decide +kernel)
  | missingVariable => decide +kernel
  | missingDigits => decide +kernel
  | integerRange spelling => exact (saysUnmatched_append (by simp) _).trans (by decide +kernel)
  | unexpected text =>
      rw [message.eq_def]
      dsimp only
      rw [String.append_assoc]
      split_ifs
      · exact (saysUnmatched_append (by simp) _).trans (by decide +kernel)
      · exact (saysUnmatched_append (by simp) _).trans (by decide +kernel)

theorem Problem.saysUnmatched_message {problem : Problem} (h : problem ≠ .unmatchedBrace) :
    saysUnmatched problem.message = false := by
  cases problem with
  | expected wanted found =>
      rw [message.eq_def]
      dsimp only
      rw [String.append_assoc, String.append_assoc]
      exact (saysUnmatched_append (by simp) _).trans (by decide +kernel)
  | unexpected found => exact (saysUnmatched_append (by simp) _).trans (by decide +kernel)
  | unmatchedBrace => exact absurd rfl h
  | tooDeep limit =>
      rw [message.eq_def]
      dsimp only
      rw [String.append_assoc]
      exact (saysUnmatched_append (by simp) _).trans (by decide +kernel)

/-- No other report says that a brace is unmatched. -/
theorem Cause.message_eq_unmatched_iff {cause : Cause} :
    cause.message = "Unmatched '\x7d'" ↔ cause = .syntactic .unmatchedBrace := by
  refine ⟨fun h => ?_, fun h => h ▸ rfl⟩
  have hletters : saysUnmatched cause.message = true := by
    rw [h]
    decide +kernel
  cases cause with
  | lexical fault => exact Bool.noConfusion (fault.saysUnmatched_message.symm.trans hletters)
  | syntactic problem =>
      by_contra hne
      have hother := Problem.saysUnmatched_message fun hproblem => hne (congrArg _ hproblem)
      exact Bool.noConfusion (hother.symm.trans hletters)

end QoreSyntax
