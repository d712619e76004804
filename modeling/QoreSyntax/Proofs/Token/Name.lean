import Mathlib.Data.List.TakeWhile
import QoreSyntax.Proofs.Token.Written

namespace QoreSyntax.Token

/-- If the token is a name it is written like one and is no reserved word. -/
def Kind.IsGenuine : Kind → Prop
  | .identifier name => isName name.toList = true ∧ Keyword.ofWord? name = none
  | _ => True

theorem Kind.IsQuoted.isGenuine {kind : Kind} (h : kind.IsQuoted) : kind.IsGenuine := by
  cases h <;> trivial

theorem Kind.IsNumeral.isGenuine {kind : Kind} (h : kind.IsNumeral) : kind.IsGenuine := by
  cases h <;> trivial

theorem Kind.IsDollarForm.isGenuine {kind : Kind} (h : kind.IsDollarForm) : kind.IsGenuine := by
  cases h <;> trivial

theorem isName_leadingName {c : Char} (hc : beginsName c = true) (cs : List Char) :
    isName (leadingName (c :: cs)) = true := by
  have hname : leadingName (c :: cs) = c :: cs.takeWhile isNameChar := by
    rw [leadingName, List.takeWhile_cons_of_pos (isNameChar_of_beginsName hc)]
  rw [hname, isName, hc, Bool.true_and, List.all_eq_true]
  exact fun d hmem => List.mem_takeWhile_imp hmem

theorem isGenuine_word {c : Char} (hc : beginsName c = true) (cs : List Char) :
    (word (c :: cs)).kind.IsGenuine := by
  rw [word]
  cases hword : Keyword.ofWord? (String.ofList (leadingName (c :: cs))) with
  | some keyword => trivial
  | none =>
      refine ⟨?_, hword⟩
      rw [String.toList_ofList]
      exact isName_leadingName hc cs

theorem isGenuine_plainLexeme (lineStart : Bool) (text : List Char) :
    (plainLexeme lineStart text).kind.IsGenuine := by
  rcases text with - | ⟨c, cs⟩
  · trivial
  obtain ⟨read, hread, htext⟩ := exists_readBy c
  rw [htext]
  cases hread with
  | doubleQuoted => exact (doubleQuoted_isQuoted cs).isGenuine
  | singleQuoted => exact (singleQuoted_isQuoted cs).isGenuine
  | backquoted => exact (backquoted_isQuoted cs).isGenuine
  | dollarForm => exact (dollarForm_isDollarForm cs).isGenuine
  | numeral => exact (numeral_isNumeral (c :: cs)).isGenuine
  | word hname => exact isGenuine_word hname cs
  | mark =>
      rw [markLexeme]
      split_ifs
      · trivial
      · split <;> trivial

theorem isGenuine_regexLiteral (purpose : Regex.Purpose) (opening : Nat) (rest : List Char) :
    (regexLiteral purpose opening rest).kind.IsGenuine := by
  simp only [regexLiteral]
  split
  · trivial
  · split_ifs
    · split <;> trivial
    · trivial

theorem isGenuine_leadingLexeme (lineStart afterMatch : Bool) (text : List Char) :
    (leadingLexeme lineStart afterMatch text).kind.IsGenuine := by
  rw [leadingLexeme]
  split
  · trivial
  · split
    · exact isGenuine_regexLiteral _ _ _
    · exact isGenuine_plainLexeme lineStart text

/-- The names of a text are names. -/
theorem Stream.isGenuine_of_mem {text : List Char} {line : Nat} {t : Token}
    (hmem : t ∈ (ofText text line).tokens) : t.kind.IsGenuine := by
  rw [ofText_eq_stream] at hmem
  generalize Reader.ofText text line = r at hmem
  induction r using Reader.stream_induction with
  | atEnd r hend =>
      rw [Reader.stream_of_isEof hend] at hmem
      cases hmem
  | before r hnot ih =>
      rw [Reader.stream_of_not_isEof hnot] at hmem
      rcases List.mem_cons.mp hmem with rfl | hrest
      · rw [Reader.next_kind]
        exact isGenuine_leadingLexeme _ _ _
      · exact ih hrest

end QoreSyntax.Token
