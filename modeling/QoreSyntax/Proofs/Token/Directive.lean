import QoreSyntax.Proofs.Token.Alone
import QoreSyntax.Proofs.Token.LineBreak
import QoreSyntax.Proofs.Token.Unterminated

namespace QoreSyntax

open Text

namespace Token

/-- The line of a directive behind the percent sign, with the rest of the text `after` it: a name
as long as it can be, white space, the argument, and white space that the directive leaves. -/
structure IsDirectiveLine (name lead argument blanks after : List Char) : Prop where
  name_ne_nil : name ≠ []
  name_chars : ∀ c ∈ name, isDirectiveChar c = true
  name_end : ∀ c ∈ (lead ++ argument ++ (blanks ++ after)).head?, isDirectiveChar c = false
  lead_chars : ∀ c ∈ lead, isWhitespace c = true
  argument_trimmed : IsTrimmed argument
  lead_eq_nil : argument = [] → lead = []
  blanks_chars : ∀ c ∈ blanks, isWhitespace c = true
  line_chars : ∀ c ∈ lead ++ argument ++ blanks, isLineEnd c = false
  line_end : ∀ c ∈ after.head?, isLineEnd c = true

/-- What the token behind a directive is, where the directive leaves the white space `blanks`. -/
def FollowsDirective (blanks : List Char) (t : Token) : Prop :=
  match blanks.find? (!isBlank ·) with
  | none => t.isEof = true ∨ t.newlineBefore = true
  | some c => t.kind = .invalid (.unexpected (String.ofList [c])) ∧ t.newlineBefore = false

theorem exists_of_plainLexeme_directive {lineStart : Bool} {text : List Char}
    {name argument : String} (h : (plainLexeme lineStart text).kind = .directive name argument) :
    ∃ c cs, text = '%' :: c :: cs ∧ c.isAlpha = true ∧
      plainLexeme lineStart text = directive (c :: cs) := by
  rcases text with - | ⟨c, cs⟩
  · cases h
  obtain ⟨read, hread, htext⟩ := exists_readBy c
  rw [htext] at h ⊢
  cases hread with
  | doubleQuoted => exact nomatch h ▸ doubleQuoted_isQuoted cs
  | singleQuoted => exact nomatch h ▸ singleQuoted_isQuoted cs
  | backquoted => exact nomatch h ▸ backquoted_isQuoted cs
  | dollarForm => exact nomatch h ▸ dollarForm_isDollarForm cs
  | numeral => exact nomatch h ▸ numeral_isNumeral (c :: cs)
  | word =>
      simp only [word] at h
      split at h <;> cases h
  | mark =>
      rw [markLexeme] at h ⊢
      split_ifs at h ⊢ with hdirective
      · obtain ⟨d, ds, hopens, hd⟩ :=
          exists_of_opensDirective (Bool.and_eq_true_iff.mp hdirective).2
        refine ⟨d, ds, hopens, hd, ?_⟩
        rw [hopens, List.drop_succ_cons, List.drop_zero]
      · split at h <;> cases h

theorem regexLiteral_ne_directive (purpose : Regex.Purpose) (opening : Nat) (rest : List Char)
    (name argument : String) :
    (regexLiteral purpose opening rest).kind ≠ .directive name argument := by
  simp only [regexLiteral]
  split
  · simp [unterminated]
  · split_ifs
    · split <;> simp [unterminated]
    · simp

theorem exists_of_leadingLexeme_directive {lineStart afterMatch : Bool} {text : List Char}
    {name argument : String}
    (h : (leadingLexeme lineStart afterMatch text).kind = .directive name argument) :
    ∃ c cs, text = '%' :: c :: cs ∧ c.isAlpha = true ∧
      leadingLexeme lineStart afterMatch text = directive (c :: cs) := by
  rw [leadingLexeme] at h ⊢
  split_ifs at h ⊢ with hcomment hafter
  · cases h
  · split at h
    · exact absurd h (regexLiteral_ne_directive _ _ _ _ _)
    · exact exists_of_plainLexeme_directive h
  · exact exists_of_plainLexeme_directive h

/-- What a directive takes of its line, and what it leaves. -/
theorem exists_directiveLine {c : Char} (hc : c.isAlpha = true) (cs : List Char) :
    ∃ name lead argument blanks after, IsDirectiveLine name lead argument blanks after ∧
      c :: cs = name ++ (lead ++ argument ++ (blanks ++ after)) ∧
      directive (c :: cs) = ⟨.directive (String.ofList name) (String.ofList argument),
        1 + (name ++ (lead ++ argument)).length⟩ := by
  obtain ⟨name, hname⟩ : ∃ name, (c :: cs).takeWhile isDirectiveChar = name := ⟨_, rfl⟩
  obtain ⟨behind, hbehind⟩ : ∃ behind, (c :: cs).dropWhile isDirectiveChar = behind := ⟨_, rfl⟩
  obtain ⟨line, hline⟩ : ∃ line, behind.takeWhile (!isLineEnd ·) = line := ⟨_, rfl⟩
  obtain ⟨after, hafter⟩ : ∃ after, behind.dropWhile (!isLineEnd ·) = after := ⟨_, rfl⟩
  obtain ⟨lead, blanks, htrim, htrimEnd, hlead, hblanks, htrimmed, hnil⟩ := exists_of_trim line
  have hsplit : name ++ behind = c :: cs := by
    rw [← hname, ← hbehind, List.takeWhile_append_dropWhile]
  have hrest : behind = lead ++ trim line ++ (blanks ++ after) := by
    rw [← List.append_assoc, ← htrim, ← hline, ← hafter, List.takeWhile_append_dropWhile]
  refine ⟨name, lead, trim line, blanks, after, ?_, ?_, ?_⟩
  · constructor
    case name_ne_nil =>
      have hdirective : isDirectiveChar c = true := by
        rw [isDirectiveChar, Char.isAlphanum, hc]
        rfl
      rw [← hname, List.takeWhile_cons_of_pos hdirective]
      exact List.cons_ne_nil _ _
    case name_chars =>
      rw [← hname]
      exact fun d hmem => List.mem_takeWhile_imp hmem
    case name_end =>
      rw [← hrest, ← hbehind]
      exact head?_dropWhile isDirectiveChar (c :: cs)
    case line_chars =>
      intro d hmem
      rw [← htrim, ← hline] at hmem
      simpa using List.mem_takeWhile_imp hmem
    case line_end =>
      rw [← hafter]
      exact lineComment_end behind
    all_goals assumption
  · rw [← hrest, hsplit]
  · have hdrop : (c :: cs).drop name.length = behind := by rw [← hsplit, List.drop_left]
    simp only [directive, hname, hdrop, hline, htrimEnd, List.length_append, Nat.add_assoc]

namespace Reader

variable {r : Reader}

/-- The token of a directive is what it takes of its line. -/
theorem ReadsIn.exists_of_directive {text : List Char} {line : Nat} (hr : r.ReadsIn text line)
    {name argument : String} (h : r.next.1.kind = .directive name argument) :
    ∃ lead blanks after,
      r.next.1.span.Cuts text ('%' :: name.toList ++ lead ++ argument.toList) (blanks ++ after) ∧
      IsDirectiveLine name.toList lead argument.toList blanks after ∧
      r.next.2.cursor.rest = blanks ++ after := by
  rw [next_kind] at h
  obtain ⟨c, cs, htext, hc, hdirective⟩ : ∃ c cs, r.gapEnd.rest = '%' :: c :: cs ∧
      c.isAlpha = true ∧ r.lexeme = directive (c :: cs) := exists_of_leadingLexeme_directive h
  obtain ⟨nameChars, lead, argumentChars, blanks, after, hline, hsplit, hlexeme⟩ :=
    exists_directiveLine hc cs
  have hread := hdirective.trans hlexeme
  obtain ⟨rfl, rfl⟩ : String.ofList nameChars = name ∧ String.ofList argumentChars = argument := by
    rw [hread] at h
    exact Kind.directive.inj h
  simp only [String.toList_ofList]
  have hrest : r.gapEnd.rest
      = ('%' :: nameChars ++ lead ++ argumentChars) ++ (blanks ++ after) := by
    rw [htext, hsplit]
    simp
  have hlength : r.lexeme.length = ('%' :: nameChars ++ lead ++ argumentChars).length := by
    rw [hread]
    simp
    omega
  refine ⟨lead, blanks, after, ?_, hline, ?_⟩
  · obtain ⟨n, hgapEnd⟩ := hr.gapEnd
    have hcuts := Cursor.cuts_skip text line n r.lexeme.length
    rw [← hgapEnd, hrest, hlength, List.take_left, List.drop_left] at hcuts
    rw [next_span, hlength]
    exact hcuts
  · rw [next_cursor, Cursor.rest_skip, hrest, hlength, List.drop_left]

end Reader

theorem isGap_of_isBlank {blanks : List Char} (h : ∀ c ∈ blanks, isBlank c = true)
    (rest : List Char) : IsGap blanks rest := by
  induction blanks with
  | nil => exact IsGap.nil rest
  | cons c blanks ih =>
      obtain ⟨hc, hblanks⟩ := List.forall_mem_cons.mp h
      exact IsGap.blank (mem_blanks_of_isBlank hc) (ih hblanks)

theorem gapLength_blanks {blanks : List Char} (h : ∀ c ∈ blanks, isBlank c = true)
    (rest : List Char) : gapLength (blanks ++ rest) = blanks.length + gapLength rest := by
  have hgap := (isGap_of_isBlank h _).trans (isGap_gapLength rest)
  have hlength := hgap.gapLength_eq (pieceLength_drop_gapLength rest)
  rwa [List.append_assoc, List.take_append_drop, List.length_append, length_take_gapLength]
    at hlength

theorem any_head?_characters (mark : Symbol) :
    mark.characters.head?.any tokenMarks.contains = true := by
  cases mark <;> decide

theorem leading?_of_not_mem {c : Char} (hc : c ∉ tokenMarks) (rest : List Char) :
    Symbol.leading? (c :: rest) = none := by
  rw [Option.eq_none_iff_forall_ne_some]
  intro mark hmark
  obtain ⟨d, ds, hchars⟩ := List.exists_cons_of_length_pos (Symbol.characters_length_pos mark)
  obtain ⟨more, hprefix⟩ := isPrefixOf_of_leading? hmark
  have hmem := any_head?_characters mark
  rw [hchars, List.head?_cons, Option.any_some, List.contains_iff_mem] at hmem
  rw [hchars] at hprefix
  obtain rfl : d = c := (List.cons.inj hprefix).1
  exact hc hmem

section Whitespace

variable {c : Char} (hc : isWhitespace c = true)
include hc

/-- No white-space character begins a token. -/
theorem begins_no_token : c.isDigit = false ∧ beginsName c = false ∧ c ∉ tokenMarks := by
  have hall : whitespaceCharacters.all fun d =>
      !d.isDigit && !beginsName d && !tokenMarks.contains d := by decide +kernel
  simpa [and_assoc] using List.all_eq_true.mp hall c (mem_whitespaceCharacters hc)

variable (hblank : isBlank c = false)
include hblank

theorem not_mem_gapMarks : c ∉ gapMarks := by
  intro hmem
  have hall : gapMarks.all fun d => isBlank d || tokenMarks.contains d := by decide
  have hmark := List.all_eq_true.mp hall c hmem
  rw [hblank, Bool.false_or, List.contains_iff_mem] at hmark
  exact (begins_no_token hc).2.2 hmark

theorem leadingLexeme_of_isWhitespace (lineStart : Bool) (rest : List Char) :
    leadingLexeme lineStart false (c :: rest)
      = ⟨.invalid (.unexpected (String.ofList [c])), 1⟩ := by
  obtain ⟨hdigit, hname, hmark⟩ := begins_no_token hc
  have hopens := opensComment_of_not_mem (not_mem_gapMarks hc hblank) rest
  have hne : ∀ d ∈ tokenMarks, c ≠ d := fun d hmem heq => hmark (heq ▸ hmem)
  have hunexpected : isUnexpected c = false := by rw [isUnexpected, hc]; simp
  rw [leadingLexeme, if_neg (Bool.eq_false_iff.mp hopens)]
  change plainLexeme lineStart (c :: rest) = _
  obtain ⟨read, hread, htext⟩ := exists_readBy c
  rw [htext]
  cases hread with
  | doubleQuoted => exact absurd rfl (hne '"' (by decide))
  | singleQuoted => exact absurd rfl (hne '\'' (by decide))
  | backquoted => exact absurd rfl (hne '\x60' (by decide))
  | dollarForm => exact absurd rfl (hne '$' (by decide))
  | numeral h => exact absurd h (Bool.eq_false_iff.mp hdigit)
  | word h => exact absurd h (Bool.eq_false_iff.mp hname)
  | mark =>
      have hpercent := beq_eq_false_iff_ne.mpr (hne '%' (by decide))
      rw [markLexeme, opensDirective_of_ne hpercent, Bool.and_false, leading?_of_not_mem hmark]
      simp [unexpected, hunexpected]

end Whitespace

namespace Reader

variable {r : Reader} {blanks after : List Char} (hrest : r.cursor.rest = blanks ++ after)
include hrest

/-- Where only blanks stand before a line end, the next token is on another line. -/
theorem newlineBefore_next_of_blanks (hblanks : ∀ c ∈ blanks, isBlank c = true)
    (hafter : ∀ c ∈ after.head?, isLineEnd c = true) :
    r.next.1.isEof = true ∨ r.next.1.newlineBefore = true := by
  -- From behind the blanks, where the line end is, the same token is read.
  obtain ⟨behind, hbehind⟩ : ∃ behind : Reader,
      { r with cursor := r.cursor.skip blanks.length } = behind := ⟨_, rfl⟩
  have hrest' : behind.cursor.rest = after := by
    rw [← hbehind, Cursor.rest_skip, hrest, List.drop_left]
  have hgapEnd : behind.gapEnd = r.gapEnd := by
    rw [gapEnd, gapEnd, hrest', hrest, gapLength_blanks hblanks, ← Cursor.skip_skip, ← hbehind]
  have hle : r.cursor.position.line ≤ behind.cursor.position.line := by
    have hle := Cursor.position_le_skip blanks.length r.cursor
    rw [← hbehind]
    rcases Position.le_iff.mp hle with hlt | ⟨heq, -⟩
    · exact hlt.le
    · exact heq.le
  rcases newlineBefore_next (r := behind) (by rwa [hrest']) with hend | hline
  · left
    rw [isEof_next_iff] at hend ⊢
    rwa [← hgapEnd]
  · right
    have hlt : behind.cursor.position.line < behind.gapEnd.position.line := of_decide_eq_true hline
    rw [hgapEnd] at hlt
    exact decide_eq_true (hle.trans_lt hlt)

/-- The first white-space character that is no blank is a token on the same line. -/
theorem next_of_whitespace {front back : List Char} {c : Char}
    (hblanks : blanks = front ++ c :: back) (hfront : ∀ d ∈ front, isBlank d = true)
    (hblank : isBlank c = false) (hc : isWhitespace c = true)
    (hline : ∀ d ∈ blanks, isLineEnd d = false) (hmatch : r.afterMatch = false) :
    r.next.1.kind = .invalid (.unexpected (String.ofList [c])) ∧
      r.next.1.newlineBefore = false := by
  have hgap : IsGap front ([c] ++ (back ++ after)) := isGap_of_isBlank hfront _
  have htext : r.cursor.rest = front ++ ([c] ++ (back ++ after)) := by
    rw [hrest, hblanks]
    simp
  have hpiece : pieceLength ([c] ++ (back ++ after)) = 0 :=
    pieceLength_of_not_mem (not_mem_gapMarks hc hblank) _
  constructor
  · refine (next_of_gap hgap htext hpiece fun newline => ?_).1
    rw [hmatch]
    exact leadingLexeme_of_isWhitespace hc hblank _ _
  · -- The gap is part of the line, so that no line ends in it.
    rw [Bool.eq_false_iff, Ne, newlineBefore_iff, htext, hgap.gapLength_eq hpiece, List.take_left]
    rintro ⟨before, d, behind, hsplit, hd⟩
    have hmem : d ∈ blanks := by
      rw [hblanks, hsplit]
      simp
    have hnot := hline d hmem
    rcases hd with rfl | ⟨rfl, -⟩
    · cases hnot
    · cases hnot

end Reader

theorem IsDirectiveLine.followsDirective {name lead argument blanks after : List Char}
    (h : IsDirectiveLine name lead argument blanks after) {r : Reader}
    (hrest : r.cursor.rest = blanks ++ after) (hmatch : r.afterMatch = false) :
    FollowsDirective blanks r.next.1 := by
  rw [FollowsDirective]
  split
  · rename_i hnone
    have hblanks : ∀ c ∈ blanks, isBlank c = true := by simpa using hnone
    exact Reader.newlineBefore_next_of_blanks hrest hblanks h.line_end
  · rename_i c hsome
    obtain ⟨hblank, front, back, hblanks, hfront⟩ := List.find?_eq_some_iff_append.mp hsome
    have hc : isWhitespace c = true := h.blanks_chars c (by rw [hblanks]; simp)
    apply Reader.next_of_whitespace hrest hblanks _ _ hc _ hmatch
    · simpa using hfront
    · simpa using hblank
    · intro d hmem
      exact h.line_chars d (List.mem_append_right _ hmem)

/-- In any text a directive is the percent sign, its name and its argument, which is what stands
behind the name on the line without the white space at its ends. The next token stands on another
line or is the end marker, unless white space that no gap is made of is left on the line. -/
theorem directives_end_their_lines (text : List Char) (line : Nat) :
    (Stream.ofText text line).toList.IsChain fun t u =>
      ∀ name argument, t.kind = .directive name argument →
        ∃ lead blanks after,
          t.span.Cuts text ('%' :: name.toList ++ lead ++ argument.toList) (blanks ++ after) ∧
          IsDirectiveLine name.toList lead argument.toList blanks after ∧
          FollowsDirective blanks u := by
  have hI : ∀ r, Reader.ReadsIn text (max line 1) r → r.next.2.ReadsIn text (max line 1) :=
    fun _ h => h.next
  refine Reader.isChain_toList hI ?_ (Reader.readsIn_ofText text line)
  intro r hr name argument hkind
  obtain ⟨lead, blanks, after, hcuts, hline, hrest⟩ := hr.exists_of_directive hkind
  have hmatch : r.next.2.afterMatch = false := by
    rw [Reader.afterMatch_next, hkind]
    rfl
  exact ⟨lead, blanks, after, hcuts, hline, hline.followsDirective hrest hmatch⟩

/-- A no-break space behind a directive is a token on the line of the directive. -/
theorem directive_leaves_no_break_space :
    ∃ t u rest, (Stream.ofText ['%', 'a', '\u00a0'] 1).toList = t :: u :: rest ∧
      t.kind = .directive "a" "" ∧ u.isEof = false ∧ u.newlineBefore = false := by
  refine ⟨⟨.directive "a" "", ⟨0, 2⟩, ⟨⟨1, 1⟩, ⟨1, 3⟩⟩, false⟩,
    ⟨.invalid (.unexpected "\u00a0"), ⟨2, 4⟩, ⟨⟨1, 3⟩, ⟨1, 4⟩⟩, false⟩,
    [⟨.eof, ⟨4, 4⟩, ⟨⟨1, 4⟩, ⟨1, 4⟩⟩, false⟩], ?_, rfl, rfl, rfl⟩
  decide +kernel

end Token

end QoreSyntax
