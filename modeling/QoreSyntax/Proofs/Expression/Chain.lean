import QoreSyntax.Proofs.Expression.Part
import QoreSyntax.Proofs.Grammar.Construct
import QoreSyntax.Proofs.TypeName.Tree

/-!
Expressions as they are written: operands and operators by turns. How tightly the operators bind
tells which of them are read first, but not where an operand may stand.
-/

namespace QoreSyntax

open Grammar
open Token (Kind)

namespace Expression

/-- The token may be the name of a member. -/
def namesMember : Kind → Bool
  | .identifier _ | .keyword _ => true
  | _ => false

mutual

/-- The tokens of an expression: operands, with operators between them. -/
inductive IsChain : List Kind → Prop where
  | leading {mark : Symbol} {ks : List Kind} (h : isPrefixSymbol mark = true)
      (hrest : IsChain ks) : IsChain (.symbol mark :: ks)
  | operand {ks ts : List Kind} (h : IsOperand ks) (hrest : IsTail ts) : IsChain (ks ++ ts)

/-- The tokens of an operand without what may widen it. -/
inductive IsOperand : List Kind → Prop where
  | name (path : ScopedName) : IsOperand path.kinds
  | integer (value : Nat) : IsOperand [.integer value]
  | paren {ks : List Kind} (h : IsChain ks) :
      IsOperand (.symbol .lParen :: (ks ++ [.symbol .rParen]))
  | list {ks ls : List Kind} (h : IsChain ks) (hrest : IsItems ls) :
      IsOperand (.symbol .lParen :: (ks ++ .symbol .comma :: (ls ++ [.symbol .rParen])))
  | hash {ks : List Kind} (h : IsEntries ks) :
      IsOperand (.symbol .lBrace :: (ks ++ [.symbol .rBrace]))

/-- The tokens behind an operand, up to the end of the expression. -/
inductive IsTail : List Kind → Prop where
  | nil : IsTail []
  | member {title : Kind} {ts : List Kind} (h : namesMember title = true) (hrest : IsTail ts) :
      IsTail (.symbol .dot :: title :: ts)
  | index {ks ts : List Kind} (h : IsChain ks) (hrest : IsTail ts) :
      IsTail (.symbol .lBracket :: (ks ++ .symbol .rBracket :: ts))
  | callEmpty {ts : List Kind} (hrest : IsTail ts) :
      IsTail (.symbol .lParen :: .symbol .rParen :: ts)
  | call {ks ts : List Kind} (h : IsItems ks) (hrest : IsTail ts) :
      IsTail (.symbol .lParen :: (ks ++ .symbol .rParen :: ts))
  | operator {mark : Symbol} {ks : List Kind} (h : mark.level?.isSome = true)
      (hrest : IsChain ks) : IsTail (.symbol mark :: ks)
  | conditional {ks ls : List Kind} (h : IsChain ks) (hrest : IsChain ls) :
      IsTail (.symbol .question :: (ks ++ .symbol .colon :: ls))

/-- The tokens of expressions with commas between them. -/
inductive IsItems : List Kind → Prop where
  | single {ks : List Kind} (h : IsChain ks) : IsItems ks
  | cons {ks ls : List Kind} (h : IsChain ks) (hrest : IsItems ls) :
      IsItems (ks ++ .symbol .comma :: ls)

/-- The tokens of the entries of a hash, with commas between them. -/
inductive IsEntries : List Kind → Prop where
  | single {ks ls : List Kind} (h : IsChain ks) (hvalue : IsChain ls) :
      IsEntries (ks ++ .symbol .colon :: ls)
  | cons {ks ls ms : List Kind} (h : IsChain ks) (hvalue : IsChain ls) (hrest : IsEntries ms) :
      IsEntries (ks ++ .symbol .colon :: (ls ++ .symbol .comma :: ms))

end

/-- An operand, or an operator before it, may begin with the token. -/
def opensOperand : Kind → Bool
  | .identifier _ | .integer _ => true
  | .symbol mark =>
      mark == .doubleColon || mark == .lParen || mark == .lBrace || isPrefixSymbol mark
  | _ => false

theorem exists_kinds_cons_of_name (path : ScopedName) :
    ∃ kind rest, path.kinds = kind :: rest ∧ opensOperand kind = true := by
  obtain ⟨isRooted, first, rest⟩ := path
  cases isRooted with
  | true => exact ⟨_, _, rfl, rfl⟩
  | false => exact ⟨_, _, rfl, rfl⟩

theorem IsOperand.exists_cons {ks : List Kind} (h : IsOperand ks) :
    ∃ kind rest, ks = kind :: rest ∧ opensOperand kind = true := by
  cases h with
  | name path => exact exists_kinds_cons_of_name path
  | integer value => exact ⟨_, _, rfl, rfl⟩
  | paren h => exact ⟨_, _, rfl, rfl⟩
  | list h hrest => exact ⟨_, _, rfl, rfl⟩
  | hash h => exact ⟨_, _, rfl, rfl⟩

theorem IsChain.exists_cons {ks : List Kind} (h : IsChain ks) :
    ∃ kind rest, ks = kind :: rest ∧ opensOperand kind = true := by
  cases h with
  | leading h hrest => exact ⟨_, _, rfl, by rw [opensOperand, h, Bool.or_true]⟩
  | operand h hrest =>
      obtain ⟨kind, rest, rfl, hopens⟩ := h.exists_cons
      exact ⟨kind, _, rfl, hopens⟩

theorem IsItems.exists_cons {ks : List Kind} (h : IsItems ks) :
    ∃ kind rest, ks = kind :: rest ∧ opensOperand kind = true := by
  cases h with
  | single h => exact h.exists_cons
  | cons h hrest =>
      obtain ⟨kind, rest, rfl, hopens⟩ := h.exists_cons
      exact ⟨kind, _, rfl, hopens⟩

theorem IsEntries.exists_cons {ks : List Kind} (h : IsEntries ks) :
    ∃ kind rest, ks = kind :: rest ∧ opensOperand kind = true := by
  cases h with
  | single h hvalue =>
      obtain ⟨kind, rest, rfl, hopens⟩ := h.exists_cons
      exact ⟨kind, _, rfl, hopens⟩
  | cons h hvalue hrest =>
      obtain ⟨kind, rest, rfl, hopens⟩ := h.exists_cons
      exact ⟨kind, _, rfl, hopens⟩

theorem isPassed_scopeKinds (depth : Nat) (parts : List Identifier) :
    IsPassed depth (ScopedName.scopeKinds parts) := by
  induction parts with
  | nil => exact IsPassed.nil
  | cons part parts ih => exact (ih.cons rfl rfl fun _ => rfl).cons rfl rfl fun _ => rfl

theorem isPassed_name (depth : Nat) (path : ScopedName) : IsPassed depth path.kinds := by
  have hname := (isPassed_scopeKinds depth path.rest).cons
    (show opensBracket path.first.kind = false from rfl) rfl fun _ => rfl
  rw [ScopedName.kinds, ScopedName.rootKinds]
  split_ifs
  · exact hname.cons rfl rfl fun _ => rfl
  · exact hname

theorem opensBracket_eq_of_isPrefixSymbol {mark : Symbol} (h : isPrefixSymbol mark = true) :
    opensBracket (.symbol mark) = false ∧ endsConstruct (.symbol mark) = false := by
  revert h
  cases mark <;> decide

theorem opensBracket_eq_of_level {mark : Symbol} (h : mark.level?.isSome = true) :
    opensBracket (.symbol mark) = false ∧ endsConstruct (.symbol mark) = false := by
  revert h
  cases mark <;> decide

theorem opensBracket_eq_of_namesMember {kind : Kind} (h : namesMember kind = true) :
    opensBracket kind = false ∧ endsConstruct kind = false := by
  cases kind <;> first | exact ⟨rfl, rfl⟩ | cases h

mutual

/-- However many brackets are open, an expression is passed over whole. -/
theorem IsChain.isPassed : ∀ {ks : List Kind}, IsChain ks → ∀ depth, IsPassed depth ks
  | _, .leading h hrest, depth =>
      have hmark := opensBracket_eq_of_isPrefixSymbol h
      (hrest.isPassed depth).cons_of_endsConstruct hmark.1 hmark.2
  | _, .operand h hrest, depth => (h.isPassed depth).append (hrest.isPassed depth)

theorem IsOperand.isPassed : ∀ {ks : List Kind}, IsOperand ks → ∀ depth, IsPassed depth ks
  | _, .name path, depth => isPassed_name depth path
  | _, .integer _, _ => IsPassed.nil.cons rfl rfl fun _ => rfl
  | _, .paren h, depth => IsPassed.enclosed rfl rfl (h.isPassed (depth + 1)) IsPassed.nil
  | _, .list h hrest, depth => by
      have hitems := (h.isPassed (depth + 1)).append (hrest.isPassed depth).comma
      have hlist : IsPassed depth (.symbol .lParen :: ((_ ++ _) ++ [.symbol .rParen])) :=
        IsPassed.enclosed rfl rfl hitems IsPassed.nil
      rwa [List.append_assoc] at hlist
  | _, .hash h, depth => IsPassed.enclosed rfl rfl (h.isPassed depth) IsPassed.nil

theorem IsTail.isPassed : ∀ {ks : List Kind}, IsTail ks → ∀ depth, IsPassed depth ks
  | _, .nil, _ => IsPassed.nil
  | _, .member h hrest, depth => by
      have htitle := opensBracket_eq_of_namesMember h
      have hmember := (hrest.isPassed depth).cons_of_endsConstruct htitle.1 htitle.2
      exact hmember.cons rfl rfl fun _ => rfl
  | _, .index h hrest, depth =>
      IsPassed.enclosed rfl rfl (h.isPassed (depth + 1)) (hrest.isPassed depth)
  | _, .callEmpty hrest, depth => IsPassed.enclosed rfl rfl IsPassed.nil (hrest.isPassed depth)
  | _, .call h hrest, depth => IsPassed.enclosed rfl rfl (h.isPassed depth) (hrest.isPassed depth)
  | _, .operator h hrest, depth =>
      have hmark := opensBracket_eq_of_level h
      (hrest.isPassed depth).cons_of_endsConstruct hmark.1 hmark.2
  | _, .conditional h hrest, depth => by
      have hrest : IsPassed depth (.symbol .colon :: _) :=
        (hrest.isPassed depth).cons_of_endsConstruct rfl rfl
      exact ((h.isPassed depth).append hrest).cons rfl rfl fun _ => rfl

/-- Within brackets commas are passed over as well. -/
theorem IsItems.isPassed : ∀ {ks : List Kind}, IsItems ks → ∀ depth, IsPassed (depth + 1) ks
  | _, .single h, depth => h.isPassed (depth + 1)
  | _, .cons h hrest, depth =>
      (h.isPassed (depth + 1)).append (hrest.isPassed depth).comma

theorem IsEntries.isPassed : ∀ {ks : List Kind}, IsEntries ks → ∀ depth, IsPassed (depth + 1) ks
  | _, .single h hvalue, depth =>
      (h.isPassed (depth + 1)).append ((hvalue.isPassed (depth + 1)).cons rfl rfl fun _ => rfl)
  | _, .cons h hvalue hrest, depth => by
      have hvalue := (hvalue.isPassed (depth + 1)).append (hrest.isPassed depth).comma
      exact (h.isPassed (depth + 1)).append (hvalue.cons rfl rfl fun _ => rfl)

end

end Expression

end QoreSyntax
