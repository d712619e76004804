import QoreSyntax.Proofs.Expression.Chain
import QoreSyntax.Proofs.Token.Line

namespace QoreSyntax

open Token (Kind Legible)

/-- The name of a member, which may be a reserved word. -/
structure MemberName where
  text : String
  isName : Token.isName text.toList = true

def MemberName.kind (title : MemberName) : Kind :=
  Expression.wordKind title.text

/-- An operator that may stand before an operand. -/
structure PrefixOperator where
  mark : Symbol
  mayLead : mark.mayLead = true

/-- An operator that may stand between two operands. -/
structure InfixOperator where
  mark : Symbol
  hasLevel : mark.level?.isSome = true

/-- An integer that a token can hold. -/
structure SmallInteger where
  value : Nat
  isSmall : value < Nat.pow 2 63

inductive Phrase where
  | name (path : ScopedName)
  | integer (value : SmallInteger)
  | paren (inner : Phrase)
  | list (first second : Phrase) (rest : List Phrase)
  | hash (key value : Phrase) (rest : List (Phrase × Phrase))
  | member (object : Phrase) (title : MemberName)
  | index (object key : Phrase)
  | call (function : Phrase) (arguments : List Phrase)
  | leading (operator : PrefixOperator) (operand : Phrase)
  | binary (left : Phrase) (operator : InfixOperator) (right : Phrase)
  | conditional (test yes no : Phrase)

namespace Phrase

mutual

/-- The tokens of the expression. -/
def kinds : Phrase → List Kind
  | name path => path.kinds
  | integer value => [.integer value.value]
  | paren inner => .symbol .lParen :: (inner.kinds ++ [.symbol .rParen])
  | list first second rest =>
      .symbol .lParen :: (first.kinds ++ .symbol .comma :: (second.kinds ++
        (itemsBehind rest ++ [.symbol .rParen])))
  | hash key value rest =>
      .symbol .lBrace :: (key.kinds ++ .symbol .colon :: (value.kinds ++
        (entriesBehind rest ++ [.symbol .rBrace])))
  | member object title => object.kinds ++ [.symbol .dot, title.kind]
  | index object key =>
      object.kinds ++ .symbol .lBracket :: (key.kinds ++ [.symbol .rBracket])
  | call function arguments =>
      function.kinds ++ .symbol .lParen :: (itemKinds arguments ++ [.symbol .rParen])
  | leading operator operand => .symbol operator.mark :: operand.kinds
  | binary left operator right => left.kinds ++ .symbol operator.mark :: right.kinds
  | conditional test yes no =>
      test.kinds ++ .symbol .question :: (yes.kinds ++ .symbol .colon :: no.kinds)

/-- The tokens of items, with commas between them. -/
def itemKinds : List Phrase → List Kind
  | [] => []
  | first :: rest => first.kinds ++ itemsBehind rest

/-- The tokens of further items, each behind a comma. -/
def itemsBehind : List Phrase → List Kind
  | [] => []
  | next :: rest => .symbol .comma :: (next.kinds ++ itemsBehind rest)

/-- The tokens of further entries of a hash, each behind a comma. -/
def entriesBehind : List (Phrase × Phrase) → List Kind
  | [] => []
  | (key, value) :: rest =>
      .symbol .comma :: (key.kinds ++ .symbol .colon :: (value.kinds ++ entriesBehind rest))

end

open Expression

theorem namesMember_kind (title : MemberName) : namesMember title.kind = true := by
  rw [MemberName.kind, wordKind]
  split <;> rfl

theorem isChain_of_append_nil {ks : List Kind} (h : IsChain (ks ++ [])) : IsChain ks := by
  rwa [List.append_nil] at h

mutual

/-- An expression with what may stand behind it is an expression. -/
theorem isChain_append : ∀ (e : Phrase) {ts : List Kind}, IsTail ts → IsChain (e.kinds ++ ts)
  | name path, _, hts => IsChain.operand (IsOperand.name path) hts
  | integer value, _, hts => IsChain.operand (IsOperand.integer value.value) hts
  | paren inner, _, hts => by
      have hinner := isChain_of_append_nil (isChain_append inner IsTail.nil)
      exact IsChain.operand (IsOperand.paren hinner) hts
  | list first second rest, _, hts => by
      have hfirst := isChain_of_append_nil (isChain_append first IsTail.nil)
      have hsecond := isChain_of_append_nil (isChain_append second IsTail.nil)
      have hlist := IsOperand.list hfirst (isItems_behind rest hsecond)
      rw [List.append_assoc] at hlist
      exact IsChain.operand hlist hts
  | hash key value rest, _, hts => by
      have hkey := isChain_of_append_nil (isChain_append key IsTail.nil)
      have hvalue := isChain_of_append_nil (isChain_append value IsTail.nil)
      have hhash := IsOperand.hash (isEntries_behind rest hkey hvalue)
      rw [List.append_assoc, List.cons_append, List.append_assoc] at hhash
      exact IsChain.operand hhash hts
  | member object title, _, hts => by
      rw [kinds, List.append_assoc]
      exact isChain_append object (IsTail.member (namesMember_kind title) hts)
  | index object key, _, hts => by
      have hkey := isChain_of_append_nil (isChain_append key IsTail.nil)
      rw [kinds, List.append_assoc, List.cons_append, List.append_assoc]
      exact isChain_append object (IsTail.index hkey hts)
  | call function [], _, hts => by
      rw [kinds, List.append_assoc]
      exact isChain_append function (IsTail.callEmpty hts)
  | call function (first :: rest), _, hts => by
      have hfirst := isChain_of_append_nil (isChain_append first IsTail.nil)
      rw [kinds, List.append_assoc, List.cons_append, List.append_assoc]
      exact isChain_append function (IsTail.call (isItems_behind rest hfirst) hts)
  | leading operator operand, _, hts =>
      IsChain.leading (isPrefixSymbol_of_mayLead operator.mayLead) (isChain_append operand hts)
  | binary left operator right, _, hts => by
      rw [kinds, List.append_assoc]
      exact isChain_append left (IsTail.operator operator.hasLevel (isChain_append right hts))
  | conditional test yes no, _, hts => by
      have hyes := isChain_of_append_nil (isChain_append yes IsTail.nil)
      rw [kinds, List.append_assoc, List.cons_append, List.append_assoc]
      exact isChain_append test (IsTail.conditional hyes (isChain_append no hts))

theorem isItems_behind : ∀ (rest : List Phrase) {ks : List Kind}, IsChain ks →
    IsItems (ks ++ itemsBehind rest)
  | [], _, hks => by
      rw [itemsBehind, List.append_nil]
      exact IsItems.single hks
  | next :: rest, _, hks => by
      have hnext := isChain_of_append_nil (isChain_append next IsTail.nil)
      exact IsItems.cons hks (isItems_behind rest hnext)

theorem isEntries_behind : ∀ (rest : List (Phrase × Phrase)) {ks ls : List Kind}, IsChain ks →
    IsChain ls → IsEntries (ks ++ .symbol .colon :: (ls ++ entriesBehind rest))
  | [], _, _, hks, hls => by
      rw [entriesBehind, List.append_nil]
      exact IsEntries.single hks hls
  | (key, value) :: rest, _, _, hks, hls => by
      have hkey := isChain_of_append_nil (isChain_append key IsTail.nil)
      have hvalue := isChain_of_append_nil (isChain_append value IsTail.nil)
      exact IsEntries.cons hks hls (isEntries_behind rest hkey hvalue)

end

/-- The tokens of an expression are operands and operators by turns. -/
theorem isChain (e : Phrase) : IsChain e.kinds :=
  isChain_of_append_nil (isChain_append e IsTail.nil)

theorem beginsWithSlash_eq_false {kind : Kind} (h : opensOperand kind = true) :
    kind.beginsWithSlash = false := by
  cases kind with
  | symbol mark =>
      revert h
      cases mark <;> decide
  | _ => rfl

theorem isMatch_eq_false_of_mayLead {mark : Symbol} (h : mark.mayLead = true) :
    (Kind.symbol mark).isMatch = false := by
  revert h
  cases mark <;> decide

theorem legible_scopeKinds_append : ∀ (parts : List Identifier) {ks : List Kind}, Legible ks →
    Legible (ScopedName.scopeKinds parts ++ ks)
  | [], _, hks => hks
  | part :: parts, _, hks => by
      have hrest := legible_scopeKinds_append parts hks
      have hpart : Legible (part.kind :: _) :=
        hrest.cons_of_isMatch_eq ⟨part.isName, part.isFree⟩ rfl
      exact hpart.symbol .doubleColon rfl

theorem legible_name_append (path : ScopedName) {ks : List Kind} (hks : Legible ks) :
    Legible (path.kinds ++ ks) := by
  obtain ⟨isRooted, first, rest⟩ := path
  have hrest := legible_scopeKinds_append rest hks
  have hname : Legible (first.kind :: _) :=
    hrest.cons_of_isMatch_eq ⟨first.isName, first.isFree⟩ rfl
  cases isRooted with
  | true => exact hname.symbol .doubleColon rfl
  | false => exact hname

mutual

/-- Legible tokens stay so with an expression in front of them. -/
theorem legible_append : ∀ (e : Phrase) {ks : List Kind}, Legible ks → Legible (e.kinds ++ ks)
  | name path, _, hks => legible_name_append path hks
  | integer value, _, hks => hks.cons_of_isMatch_eq value.isSmall rfl
  | paren inner, _, hks => by
      have hinner := legible_append inner (hks.symbol .rParen rfl)
      rw [kinds, List.cons_append, List.append_assoc]
      exact hinner.symbol .lParen rfl
  | list first second rest, _, hks => by
      have hrest := legible_items_append rest (hks.symbol .rParen rfl)
      have hsecond := (legible_append second hrest).symbol .comma rfl
      have hlist := (legible_append first hsecond).symbol .lParen rfl
      simp only [kinds, List.cons_append, List.append_assoc, List.nil_append]
      exact hlist
  | hash key value rest, _, hks => by
      have hrest := legible_entries_append rest (hks.symbol .rBrace rfl)
      have hvalue := (legible_append value hrest).symbol .colon rfl
      have hhash := (legible_append key hvalue).symbol .lBrace rfl
      simp only [kinds, List.cons_append, List.append_assoc, List.nil_append]
      exact hhash
  | member object title, _, hks => by
      have htitle := hks.cons_of_isMatch_eq (isPlain_wordKind title.isName)
        (isMatch_wordKind title.text)
      rw [kinds, List.append_assoc]
      exact legible_append object (htitle.symbol .dot rfl)
  | index object key, _, hks => by
      have hkey := (legible_append key (hks.symbol .rBracket rfl)).symbol .lBracket rfl
      rw [kinds, List.append_assoc, List.cons_append, List.append_assoc]
      exact legible_append object hkey
  | call function [], _, hks => by
      rw [kinds, List.append_assoc]
      exact legible_append function ((hks.symbol .rParen rfl).symbol .lParen rfl)
  | call function (first :: rest), _, hks => by
      have hrest := legible_items_append rest (hks.symbol .rParen rfl)
      have hitems := (legible_append first hrest).symbol .lParen rfl
      simp only [kinds, itemKinds, List.cons_append, List.append_assoc, List.nil_append]
      exact legible_append function hitems
  | leading operator operand, _, hks =>
      (legible_append operand hks).symbol operator.mark
        (isMatch_eq_false_of_mayLead operator.mayLead)
  | binary left operator right, _, hks => by
      obtain ⟨kind, rest, hkinds, hopens⟩ := right.isChain.exists_cons
      have hright := legible_append right hks
      rw [kinds, List.append_assoc]
      refine legible_append left (hright.cons trivial fun _ next hnext => ?_)
      rw [hkinds] at hnext
      obtain rfl : kind = next := Option.some.inj hnext
      exact beginsWithSlash_eq_false hopens
  | conditional test yes no, _, hks => by
      have hno := (legible_append no hks).symbol .colon rfl
      have hyes := (legible_append yes hno).symbol .question rfl
      rw [kinds, List.append_assoc, List.cons_append, List.append_assoc]
      exact legible_append test hyes

theorem legible_items_append : ∀ (rest : List Phrase) {ks : List Kind}, Legible ks →
    Legible (itemsBehind rest ++ ks)
  | [], _, hks => hks
  | next :: rest, _, hks => by
      have hnext := legible_append next (legible_items_append rest hks)
      rw [itemsBehind, List.cons_append, List.append_assoc]
      exact hnext.symbol .comma rfl

theorem legible_entries_append : ∀ (rest : List (Phrase × Phrase)) {ks : List Kind}, Legible ks →
    Legible (entriesBehind rest ++ ks)
  | [], _, hks => hks
  | (key, value) :: rest, _, hks => by
      have hvalue := legible_append value (legible_entries_append rest hks)
      have hkey := legible_append key (hvalue.symbol .colon rfl)
      simp only [entriesBehind, List.cons_append, List.append_assoc]
      exact hkey.symbol .comma rfl

end

/-- The tokens of an expression are read back when they are written. -/
theorem legible (e : Phrase) : Legible e.kinds := by
  have happend := legible_append e Legible.nil
  rwa [List.append_nil] at happend

theorem exists_last_scopeKinds : ∀ (parts : List Identifier) (first : Identifier),
    ∃ front last, first.kind :: ScopedName.scopeKinds parts = front ++ [last] ∧
      last.endsBefore ';' = true
  | [], first => ⟨[], first.kind, rfl, by simp only [Identifier.kind, Kind.endsBefore]; decide⟩
  | part :: parts, first => by
      obtain ⟨front, last, hlast, hends⟩ := exists_last_scopeKinds parts part
      refine ⟨first.kind :: .symbol .doubleColon :: front, last, ?_, hends⟩
      rw [ScopedName.scopeKinds, hlast]
      rfl

theorem endsBefore_wordKind (text : String) : (wordKind text).endsBefore ';' = true := by
  rw [wordKind]
  split <;> exact (by decide : (!Token.isNameChar ';' && ';' != '/') = true)

/-- A semicolon may stand directly behind an expression. -/
theorem exists_last : ∀ e : Phrase, ∃ front last, e.kinds = front ++ [last] ∧
    last.endsBefore ';' = true
  | name ⟨isRooted, first, rest⟩ => by
      obtain ⟨front, last, hlast, hends⟩ := exists_last_scopeKinds rest first
      refine ⟨ScopedName.rootKinds isRooted ++ front, last, ?_, hends⟩
      rw [List.append_assoc, ← hlast]
      rfl
  | integer value => ⟨[], .integer value.value, rfl, by simp only [Kind.endsBefore]; decide⟩
  | paren inner => ⟨.symbol .lParen :: inner.kinds, .symbol .rParen, rfl, by decide⟩
  | list first second rest => ⟨.symbol .lParen :: (first.kinds ++ .symbol .comma ::
      (second.kinds ++ itemsBehind rest)), .symbol .rParen, by simp [kinds], by decide⟩
  | hash key value rest => ⟨.symbol .lBrace :: (key.kinds ++ .symbol .colon ::
      (value.kinds ++ entriesBehind rest)), .symbol .rBrace, by simp [kinds], by decide⟩
  | member object title =>
      ⟨object.kinds ++ [.symbol .dot], title.kind, by simp [kinds], endsBefore_wordKind title.text⟩
  | index object key => ⟨object.kinds ++ .symbol .lBracket :: key.kinds, .symbol .rBracket,
      by simp [kinds], by decide⟩
  | call function arguments => ⟨function.kinds ++ .symbol .lParen :: itemKinds arguments,
      .symbol .rParen, by simp [kinds], by decide⟩
  | leading operator operand => by
      obtain ⟨front, last, hlast, hends⟩ := exists_last operand
      exact ⟨.symbol operator.mark :: front, last, by rw [kinds, hlast]; rfl, hends⟩
  | binary left operator right => by
      obtain ⟨front, last, hlast, hends⟩ := exists_last right
      exact ⟨left.kinds ++ .symbol operator.mark :: front, last, by simp [kinds, hlast], hends⟩
  | conditional test yes no => by
      obtain ⟨front, last, hlast, hends⟩ := exists_last no
      exact ⟨test.kinds ++ .symbol .question :: (yes.kinds ++ .symbol .colon :: front), last,
        by simp [kinds, hlast], hends⟩

end Phrase

end QoreSyntax
