import QoreSyntax.Proofs.Token.Ending
import QoreSyntax.Proofs.Token.Tiling

namespace QoreSyntax.Token

/-- No character of a name follows. -/
def EndsWord (after : List Char) : Prop :=
  ∀ c ∈ after.head?, isNameChar c = false

/-- The number `text` of any precision is written as `piece`. Its text is what stands before the
letter `n`, but for the letter of the exponent, which may be a capital one where it is written. -/
inductive SpellsNumber : (text piece : List Char) → Prop where
  | same (text : List Char) : SpellsNumber text (text ++ ['n'])
  | capital {front : List Char} (hfront : ∀ c ∈ front, c.isDigit = true ∨ c = '.')
      (back : List Char) : SpellsNumber (front ++ 'e' :: back) (front ++ 'E' :: back ++ ['n'])

/-- A token of the kind is written as `piece` where the text goes on with `after`. The kinds that do
not tell how they are written are left out. -/
def Kind.IsSpelled : (kind : Kind) → (piece after : List Char) → Prop
  | .identifier name, piece, after =>
      piece = name.toList ∧ EndsWord after ∧ ∀ word : Keyword, word.spelling ≠ name
  | .keyword word, piece, after => piece = word.spelling.toList ∧ EndsWord after
  | .variable name, piece, after => piece = '$' :: name.toList ∧ EndsWord after
  | .selfMember name, piece, after => piece = '$' :: '.' :: name.toList ∧ EndsWord after
  | .symbol mark, piece, after =>
      piece = mark.spelling.toList ∧
        ∀ longer : Symbol, mark.spelling.toList.length < longer.spelling.toList.length →
          ¬longer.spelling.toList <+: piece ++ after
  | .number text, piece, _ => SpellsNumber text.toList piece
  | .date text, piece, _ => piece = text.toList
  | .backquote text, piece, _ => piece = '\x60' :: text.toList ++ ['\x60']
  | _, _, _ => True

/-- The characters that the lexeme takes of the text are the spelling of its kind. -/
def Lexeme.IsSpelled (lexeme : Lexeme) (text : List Char) : Prop :=
  lexeme.kind.IsSpelled (text.take lexeme.length) (text.drop lexeme.length)

theorem Kind.IsSpelled.lexeme {kind : Kind} {piece after text : List Char} {length : Nat}
    (h : kind.IsSpelled piece after) (htext : text = piece ++ after)
    (hlength : length = piece.length) : Lexeme.IsSpelled ⟨kind, length⟩ text := by
  subst htext hlength
  simpa [Lexeme.IsSpelled] using h

/-- The mark at which a literal is closed stands in the text. -/
theorem exists_of_closing? {close : Char} {escapes : Bool} {count n : Nat} {text : List Char}
    (h : closing? close escapes count text = some n) :
    ∃ body after, text = body ++ close :: after ∧ n = count + body.length := by
  fun_induction closing? close escapes count text with
  | case1 => cases h
  | case2 count c cs hclose =>
      refine ⟨[], cs, ?_, ?_⟩
      · rw [beq_iff_eq.mp hclose, List.nil_append]
      · simpa using h.symm
  | case3 => cases h
  | case4 count c hclose hescape d cs ih =>
      obtain ⟨body, after, rfl, rfl⟩ := ih h
      refine ⟨c :: d :: body, after, rfl, ?_⟩
      simp
      omega
  | case5 count c cs hclose hescape ih =>
      obtain ⟨body, after, rfl, rfl⟩ := ih h
      refine ⟨c :: body, after, rfl, ?_⟩
      simp
      omega

theorem isSpelled_backquoted (rest : List Char) :
    (backquoted rest).IsSpelled ('\x60' :: rest) := by
  rw [backquoted]
  split
  · trivial
  · rename_i n hclosing
    obtain ⟨body, after, rfl, hlength⟩ := exists_of_closing? hclosing
    obtain rfl : n = body.length := by simpa using hlength
    have hspelled : (Kind.backquote (String.ofList body)).IsSpelled
        ('\x60' :: body ++ ['\x60']) after := by
      simp [Kind.IsSpelled]
    rw [List.take_left]
    exact hspelled.lexeme (by simp) (by simp)

theorem isSpelled_doubleQuoted (rest : List Char) : (doubleQuoted rest).IsSpelled ('"' :: rest) := by
  rw [doubleQuoted]
  split <;> trivial

theorem isSpelled_singleQuoted (rest : List Char) :
    (singleQuoted rest).IsSpelled ('\'' :: rest) := by
  rw [singleQuoted]
  split <;> trivial

theorem isSpelled_regexLiteral (purpose : Regex.Purpose) (opening : Nat) (rest text : List Char) :
    (regexLiteral purpose opening rest).IsSpelled text := by
  simp only [regexLiteral]
  split
  · trivial
  · split_ifs
    · split <;> trivial
    · trivial

theorem isSpelled_integerKind (value : Nat) (spelling piece after : List Char) :
    (integerKind value spelling).IsSpelled piece after := by
  rw [integerKind]
  split_ifs <;> trivial

theorem isSpelled_hexadecimal (rest text : List Char) : (hexadecimal rest).IsSpelled text := by
  rw [hexadecimal]
  split_ifs
  · trivial
  · exact isSpelled_integerKind _ _ _ _

theorem isSpelled_absoluteDate (text : List Char) : (absoluteDate text).IsSpelled text := by
  simp [absoluteDate, Lexeme.IsSpelled, Kind.IsSpelled]

theorem isDigit_of_mem_leadingDigits {text : List Char} {c : Char} (h : c ∈ leadingDigits text) :
    c.isDigit = true :=
  List.mem_takeWhile_imp h

theorem mem_fraction {text : List Char} {c : Char} (h : c ∈ fraction text) :
    c.isDigit = true ∨ c = '.' := by
  rw [fraction.eq_def] at h
  split at h
  · split_ifs at h
    · cases h
    · rcases List.mem_cons.mp h with rfl | hdigit
      · exact Or.inr rfl
      · exact Or.inl (isDigit_of_mem_leadingDigits hdigit)
  · cases h

theorem head_of_exponent {text : List Char} {e : Char} {more : List Char}
    (h : exponent text = e :: more) : e = 'e' ∨ e = 'E' := by
  cases text with
  | nil => cases h
  | cons c text =>
      simp only [exponent] at h
      split_ifs at h with hletter
      obtain ⟨rfl, -⟩ := List.cons.inj h
      simpa using hletter

/-- The text of a number writes the exponent with a small letter. -/
theorem spellsNumber {whole places : List Char} (hwhole : ∀ c ∈ whole, c.isDigit = true)
    (hplaces : ∀ c ∈ places, c.isDigit = true ∨ c = '.') {power : List Char}
    (hpower : ∀ e ∈ power.head?, e = 'e' ∨ e = 'E') :
    SpellsNumber (whole ++ places ++ if power.isEmpty then [] else 'e' :: power.drop 1)
      (whole ++ places ++ power ++ ['n']) := by
  cases power with
  | nil => simpa using SpellsNumber.same (whole ++ places)
  | cons e more =>
      rcases hpower e rfl with rfl | rfl
      · exact SpellsNumber.same _
      · refine SpellsNumber.capital ?_ more
        intro c hmem
        rcases List.mem_append.mp hmem with hmem | hmem
        · exact Or.inl (hwhole c hmem)
        · exact hplaces c hmem

theorem isSpelled_suffixed {whole places power : List Char}
    (hwhole : ∀ c ∈ whole, c.isDigit = true) (hplaces : ∀ c ∈ places, c.isDigit = true ∨ c = '.')
    (hpower : ∀ e ∈ power.head?, e = 'e' ∨ e = 'E') (rest : List Char) :
    (suffixed whole places power rest).IsSpelled (whole ++ places ++ power ++ rest) := by
  simp only [suffixed]
  split
  · rename_i hsuffix
    obtain ⟨after, rfl⟩ : ∃ after, rest = 'n' :: after :=
      List.head?_eq_some_iff.mp (beq_iff_eq.mp (Bool.and_eq_true_iff.mp hsuffix).1)
    have hspelled : (Kind.number (String.ofList (whole ++ places ++
        if power.isEmpty then [] else 'e' :: power.drop 1))).IsSpelled
          (whole ++ places ++ power ++ ['n']) after := by
      rw [Kind.IsSpelled, String.toList_ofList]
      exact spellsNumber hwhole hplaces hpower
    exact hspelled.lexeme (by simp) (by simp; omega)
  · split
    · rename_i hplain
      obtain ⟨rfl, rfl⟩ : places = [] ∧ power = [] := by simpa using hplain
      split
      · rename_i unit hunit
        obtain ⟨after, rfl⟩ := (prefix_of_durationUnit? hunit).2
        have hspelled : (Kind.date (String.ofList (whole ++ unit))).IsSpelled (whole ++ unit)
            after := String.toList_ofList.symm
        exact hspelled.lexeme (by simp) (by simp)
      · exact isSpelled_integerKind _ _ _ _
    · trivial

/-- What a part takes of the text, and what is left behind it. -/
theorem Local.append_drop {part : List Char → List Char} (h : Local part) (text : List Char) :
    part text ++ text.drop (part text).length = text :=
  List.prefix_iff_eq_append.mp (h.isPrefix text)

theorem isSpelled_decimal (text : List Char) : (decimal text).IsSpelled text := by
  obtain ⟨whole, hwhole⟩ : ∃ whole, leadingDigits text = whole := ⟨_, rfl⟩
  obtain ⟨places, hplaces⟩ : ∃ places, fraction (text.drop whole.length) = places := ⟨_, rfl⟩
  obtain ⟨power, hpower⟩ :
    ∃ power, exponent (text.drop (whole.length + places.length)) = power := ⟨_, rfl⟩
  have hbehind := hwhole ▸ local_leadingDigits.append_drop text
  have hbehind' := hplaces ▸ local_fraction.append_drop (text.drop whole.length)
  have hrest := hpower ▸ local_exponent.append_drop (text.drop (whole.length + places.length))
  have htext : whole ++ places ++ power ++
      text.drop (whole.length + places.length + power.length) = text := by
    rw [List.drop_drop] at hbehind' hrest
    rw [List.append_assoc, hrest, List.append_assoc, hbehind', hbehind]
  have hdigits : ∀ c ∈ whole, c.isDigit = true := by
    intro c hmem
    rw [← hwhole] at hmem
    exact isDigit_of_mem_leadingDigits hmem
  have hpoint : ∀ c ∈ places, c.isDigit = true ∨ c = '.' := by
    intro c hmem
    rw [← hplaces] at hmem
    exact mem_fraction hmem
  have hletter : ∀ e ∈ power.head?, e = 'e' ∨ e = 'E' := by
    intro e hmem
    obtain ⟨more, rfl⟩ := List.head?_eq_some_iff.mp hmem
    exact head_of_exponent hpower
  have hspelled := isSpelled_suffixed hdigits hpoint hletter
    (text.drop (whole.length + places.length + power.length))
  rw [htext] at hspelled
  rw [decimal_eq, hwhole, hplaces, hpower]
  exact hspelled

theorem isSpelled_numeral (text : List Char) : (numeral text).IsSpelled text := by
  rw [numeral_eq]
  split_ifs
  · exact isSpelled_hexadecimal _ _
  · exact isSpelled_absoluteDate text
  · exact isSpelled_decimal text

theorem exists_of_leadingName (text : List Char) :
    ∃ after, text = leadingName text ++ after ∧ EndsWord after := by
  refine ⟨text.dropWhile isNameChar, List.takeWhile_append_dropWhile.symm, ?_⟩
  exact Text.head?_dropWhile isNameChar text

theorem isSpelled_word (text : List Char) : (word text).IsSpelled text := by
  obtain ⟨after, htext, hafter⟩ := exists_of_leadingName text
  rw [word]
  cases hword : Keyword.ofWord? (String.ofList (leadingName text)) with
  | some keyword =>
      have hspelled : (Kind.keyword keyword).IsSpelled (leadingName text) after := by
        refine ⟨?_, hafter⟩
        rw [spelling_of_ofWord? hword, String.toList_ofList]
      exact hspelled.lexeme htext rfl
  | none =>
      have hspelled : (Kind.identifier (String.ofList (leadingName text))).IsSpelled
          (leadingName text) after := by
        refine ⟨String.toList_ofList.symm, hafter, ?_⟩
        intro word hspelling
        rw [← hspelling, ofWord?_spelling] at hword
        cases hword
      exact hspelled.lexeme htext rfl

theorem isSpelled_dollarForm (rest : List Char) : (dollarForm rest).IsSpelled ('$' :: rest) := by
  rcases rest with - | ⟨c, cs⟩
  · trivial
  rw [dollarForm]
  split_ifs with hindex hdigit hself hname
  · trivial
  · trivial
  · obtain ⟨after, htext, hafter⟩ := exists_of_leadingName cs
    obtain rfl : c = '.' := beq_iff_eq.mp (Bool.and_eq_true_iff.mp hself).1
    have hspelled : (Kind.selfMember (String.ofList (leadingName cs))).IsSpelled
        ('$' :: '.' :: leadingName cs) after := ⟨by rw [String.toList_ofList], hafter⟩
    apply hspelled.lexeme
    · simpa using htext
    · simp
      omega
  · obtain ⟨after, htext, hafter⟩ := exists_of_leadingName (c :: cs)
    have hspelled : (Kind.variable (String.ofList (leadingName (c :: cs)))).IsSpelled
        ('$' :: leadingName (c :: cs)) after := ⟨by rw [String.toList_ofList], hafter⟩
    apply hspelled.lexeme
    · simpa using htext
    · simp
      omega
  · trivial

theorem Symbol.mem_longestFirst (mark : Symbol) : mark ∈ Symbol.longestFirst := by
  cases mark <;> decide

theorem Symbol.pairwise_longestFirst :
    Symbol.longestFirst.Pairwise fun mark next =>
      next.characters.length ≤ mark.characters.length := by
  decide

/-- No longer symbol begins the text than the one that is found. -/
theorem Symbol.not_prefix_of_leading? {text : List Char} {mark longer : Symbol}
    (h : Symbol.leading? text = some mark)
    (hlonger : mark.characters.length < longer.characters.length) :
    ¬longer.characters <+: text := by
  intro hprefix
  obtain ⟨-, front, back, hsplit, hfront⟩ := List.find?_eq_some_iff_append.mp h
  have hpairwise := Symbol.pairwise_longestFirst
  have hmem := Symbol.mem_longestFirst longer
  rw [hsplit] at hpairwise hmem
  rcases List.mem_append.mp hmem with hmem | hmem
  · have hnot := hfront longer hmem
    rw [List.isPrefixOf_iff_prefix.mpr hprefix] at hnot
    cases hnot
  · rcases List.mem_cons.mp hmem with rfl | hmem
    · exact Nat.lt_irrefl _ hlonger
    · have hle := (List.pairwise_cons.mp (List.pairwise_append.mp hpairwise).2.1).1 longer hmem
      exact absurd hlonger (Nat.not_lt.mpr hle)

theorem isSpelled_markLexeme (lineStart : Bool) (text : List Char) :
    (markLexeme lineStart text).IsSpelled text := by
  rw [markLexeme]
  split_ifs
  · trivial
  · split
    · rename_i mark hmark
      obtain ⟨after, rfl⟩ := isPrefixOf_of_leading? hmark
      have hspelled : (Kind.symbol mark).IsSpelled mark.characters after := by
        constructor
        · rw [Symbol.spelling, String.toList_ofList]
        · intro longer hlonger
          simp only [Symbol.spelling, String.toList_ofList] at hlonger ⊢
          exact Symbol.not_prefix_of_leading? hmark hlonger
      exact hspelled.lexeme rfl rfl
    · trivial

theorem isSpelled_plainLexeme (lineStart : Bool) (text : List Char) :
    (plainLexeme lineStart text).IsSpelled text := by
  rcases text with - | ⟨c, cs⟩
  · trivial
  obtain ⟨read, hread, htext⟩ := exists_readBy c
  rw [htext]
  cases hread with
  | doubleQuoted => exact isSpelled_doubleQuoted cs
  | singleQuoted => exact isSpelled_singleQuoted cs
  | backquoted => exact isSpelled_backquoted cs
  | dollarForm => exact isSpelled_dollarForm cs
  | numeral => exact isSpelled_numeral (c :: cs)
  | word => exact isSpelled_word (c :: cs)
  | mark => exact isSpelled_markLexeme lineStart (c :: cs)

theorem isSpelled_leadingLexeme (lineStart afterMatch : Bool) (text : List Char) :
    (leadingLexeme lineStart afterMatch text).IsSpelled text := by
  rw [leadingLexeme]
  split
  · trivial
  · split
    · exact isSpelled_regexLiteral _ _ _ _
    · exact isSpelled_plainLexeme lineStart text

theorem Reader.ReadsIn.isSpelled_next {text : List Char} {line : Nat} {r : Reader}
    (h : r.ReadsIn text line) :
    ∃ piece after, r.next.1.span.Cuts text piece after ∧ r.next.1.kind.IsSpelled piece after := by
  obtain ⟨n, hgapEnd⟩ := h.gapEnd
  have hcuts := Cursor.cuts_skip text line n r.lexeme.length
  rw [← hgapEnd] at hcuts
  exact ⟨_, _, hcuts, isSpelled_leadingLexeme _ _ _⟩

/-- Each token of a text stands in it as its kind is spelled. No character of a name follows a name
or a reserved word, no identifier is spelled like a reserved word, and where a symbol begins no
longer one does. -/
theorem tokens_are_spelled_out {text : List Char} {line : Nat} {t : Token}
    (h : t ∈ (Stream.ofText text line).toList) :
    ∃ piece after, t.span.Cuts text piece after ∧ t.kind.IsSpelled piece after := by
  have hI : ∀ r, Reader.ReadsIn text (max line 1) r → r.next.2.ReadsIn text (max line 1) :=
    fun _ h => h.next
  have hstart := Reader.readsIn_ofText text line
  rcases List.mem_append.mp h with hmem | hmem
  · obtain ⟨r, hr, rfl⟩ := Reader.exists_of_mem_stream hI hstart hmem
    exact hr.isSpelled_next
  · obtain rfl := List.mem_singleton.mp hmem
    obtain ⟨r, hr, hfinal⟩ := Reader.exists_stream_final hI hstart
    rw [Stream.ofText_eq_stream, ← hfinal]
    exact hr.isSpelled_next

/-- In `x<=1E5n` the last token is a number whose text has a small letter before the exponent. -/
theorem tokens_are_spelled_out_number :
    let text := ['x', '<', '=', '1', 'E', '5', 'n']
    let t : Token := ⟨.number "1e5", ⟨3, 7⟩, ⟨⟨1, 4⟩, ⟨1, 8⟩⟩, false⟩
    t ∈ (Stream.ofText text 1).toList ∧
      ∃ piece after, t.span.Cuts text piece after ∧ t.kind.IsSpelled piece after := by
  intro text t
  have hmem : t ∈ (Stream.ofText text 1).toList := by decide
  constructor
  · exact hmem
  · exact tokens_are_spelled_out hmem

end QoreSyntax.Token
