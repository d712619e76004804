import Mathlib.Data.List.DropRight
import Mathlib.Data.List.TakeWhile
import QoreSyntax.Text.Whitespace

namespace QoreSyntax.Text

/-- A number that is found by halving lies in a block of the table. -/
theorem Blocks.exists_of_search {blocks : Blocks} {n fuel low high : Nat}
    (h : blocks.search n fuel low high = true) :
    ∃ block ∈ blocks.toList, block.1 ≤ n ∧ n ≤ block.2 := by
  induction fuel generalizing low high with
  | zero => cases h
  | succ fuel ih =>
      simp only [Blocks.search] at h
      split_ifs at h
      split at h
      · cases h
      · rename_i first last hblock
        split_ifs at h with hbelow habove
        · exact ih h
        · exact ih h
        · refine ⟨(first, last), ?_, Nat.not_lt.mp hbelow, Nat.not_lt.mp habove⟩
          exact Array.mem_toList_iff.mpr (Array.mem_of_getElem? hblock)

/-- All white-space characters. -/
def whitespaceCharacters : List Char :=
  ((32, 32) :: (9, 13) :: whitespaceBlocks.toList).flatMap fun block =>
    (List.range' block.1 (block.2 + 1 - block.1)).map Char.ofNat

theorem mem_whitespaceCharacters {c : Char} (h : isWhitespace c = true) :
    c ∈ whitespaceCharacters := by
  obtain ⟨block, hblock, hfirst, hlast⟩ :
      ∃ block ∈ (32, 32) :: (9, 13) :: whitespaceBlocks.toList,
        block.1 ≤ c.toNat ∧ c.toNat ≤ block.2 := by
    rw [isWhitespace] at h
    split_ifs at h
    · rw [Bool.or_eq_true, beq_iff_eq, Bool.and_eq_true, decide_eq_true_iff,
        decide_eq_true_iff] at h
      rcases h with rfl | hcontrol
      · exact ⟨(32, 32), by simp, by decide, by decide⟩
      · exact ⟨(9, 13), by simp, hcontrol⟩
    · obtain ⟨block, hblock, hrange⟩ := Blocks.exists_of_search h
      exact ⟨block, by simp [hblock], hrange⟩
  apply List.mem_flatMap.mpr
  refine ⟨block, hblock, List.mem_map.mpr ⟨c.toNat, ?_, Char.ofNat_toNat c⟩⟩
  rw [List.mem_range'_1]
  omega

/-- The characters left out at the beginning go as far as they can. -/
theorem head?_dropWhile (p : Char → Bool) (text : List Char) :
    ∀ c ∈ (text.dropWhile p).head?, p c = false := by
  intro c hmem
  have hnot := List.head?_dropWhile_not p text
  rw [Option.mem_def.mp hmem] at hnot
  simpa using hnot

theorem trimEnd_eq_rdropWhile (text : List Char) :
    trimEnd text = text.rdropWhile isWhitespace := by
  induction text with
  | nil => rfl
  | cons c cs ih =>
      rw [trimEnd, ih, List.rdropWhile, List.rdropWhile, List.reverse_cons, List.dropWhile_append]
      cases cs.reverse.dropWhile isWhitespace with
      | nil => exact (List.rdropWhile_singleton isWhitespace c).symm
      | cons d ds => simp

theorem isPrefix_trimEnd (text : List Char) : trimEnd text <+: text := by
  rw [trimEnd_eq_rdropWhile]
  exact List.rdropWhile_prefix _ text

/-- Neither the first nor the last character of the text is white space. -/
def IsTrimmed (text : List Char) : Prop :=
  (∀ c ∈ text.head?, isWhitespace c = false) ∧ ∀ c ∈ text.getLast?, isWhitespace c = false

theorem getLast?_trimEnd (text : List Char) :
    ∀ c ∈ (trimEnd text).getLast?, isWhitespace c = false := by
  rw [trimEnd_eq_rdropWhile]
  intro c hlast
  obtain ⟨hne, rfl⟩ := List.mem_getLast?_eq_getLast hlast
  simpa using List.rdropWhile_last_not isWhitespace text hne

/-- What stands on either side of the trimmed text is white space. There is none before it if
nothing is left. -/
theorem exists_of_trim (text : List Char) :
    ∃ lead blanks, text = lead ++ trim text ++ blanks ∧ trimEnd text = lead ++ trim text ∧
      (∀ c ∈ lead, isWhitespace c = true) ∧ (∀ c ∈ blanks, isWhitespace c = true) ∧
      IsTrimmed (trim text) ∧ (trim text = [] → lead = []) := by
  have hfront : (trimEnd text).takeWhile isWhitespace ++ trim text = trimEnd text :=
    List.takeWhile_append_dropWhile
  have hback : trimEnd text ++ text.rtakeWhile isWhitespace = text := by
    rw [trimEnd_eq_rdropWhile]
    exact List.rdropWhile_append_rtakeWhile
  have hlast := getLast?_trimEnd text
  refine ⟨(trimEnd text).takeWhile isWhitespace, text.rtakeWhile isWhitespace, ?_, hfront.symm,
    fun c hmem => List.mem_takeWhile_imp hmem, fun c hmem => List.mem_rtakeWhile_imp hmem,
    ⟨?_, ?_⟩, ?_⟩
  · rw [hfront, hback]
  · exact head?_dropWhile isWhitespace (trimEnd text)
  · intro c hmem
    apply hlast
    rw [← hfront, List.getLast?_append, Option.mem_def.mp hmem]
    rfl
  · intro hnil
    rw [hnil, List.append_nil] at hfront
    -- The last character of the text without white space at its end would be white space.
    cases hend : (trimEnd text).getLast? with
    | none => rw [List.getLast?_eq_none_iff.mp hend, List.takeWhile_nil]
    | some c =>
        have hmem : c ∈ (trimEnd text).takeWhile isWhitespace := by
          rw [hfront]
          exact List.mem_of_getLast? hend
        have hnot := hlast c hend
        rw [List.mem_takeWhile_imp hmem] at hnot
        cases hnot

end QoreSyntax.Text
