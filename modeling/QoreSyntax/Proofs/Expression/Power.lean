import QoreSyntax.Proofs.Expression.Tree

namespace QoreSyntax

open Grammar (Power power? symbolPower?)
open Token (Kind)

/-- The power with which an operator of the level binds to its left. What is not between two
operands binds more tightly than all operators that are. -/
def leftPower (level : Nat) : Nat :=
  if leansRight level then 2 * level + 2 else min (2 * level + 1) Grammar.prefixPower

/-- The power with which an operator of the level binds to its right. -/
def rightPower (level : Nat) : Nat :=
  if leansRight level then 2 * level + 1 else min (2 * level + 2) Grammar.prefixPower

theorem leftPower_mono {level inner : Nat} (h : level ≤ inner) :
    leftPower level ≤ leftPower inner := by
  simp only [leftPower, leansRight, Grammar.prefixPower, decide_eq_true_eq]
  split_ifs <;> omega

theorem leftPower_lt_rightPower_of_lt {level inner : Nat} (h : leftPower level < leftPower inner) :
    leftPower level < rightPower inner := by
  simp only [leftPower, rightPower, leansRight, Grammar.prefixPower, decide_eq_true_eq] at *
  split_ifs at * <;> omega

/-- What is in the left operand of an operator binds more tightly than the operator. -/
theorem Admits.leftPower_lt {level left right : Nat} (h : Admits level left right)
    (hlevel : level < prefixLevel) : leftPower level < rightPower left := by
  simp only [Admits, leftPower, rightPower, leansRight, Grammar.prefixPower, decide_eq_true_eq,
    prefixLevel] at *
  split_ifs at * <;> omega

/-- The right operand of an operator is all that binds tightly enough behind it. -/
theorem Admits.rightPower_le {level left right : Nat} (h : Admits level left right) :
    rightPower level ≤ leftPower right := by
  simp only [Admits, leftPower, rightPower, leansRight, Grammar.prefixPower,
    decide_eq_true_eq] at *
  split_ifs at * <;> omega

theorem Admits.le_left {level left right : Nat} (h : Admits level left right) : level ≤ left := by
  rw [Admits] at h
  split_ifs at h <;> omega

theorem symbolPower?_of_level {mark : Symbol} {level : Nat} (h : mark.level? = some level) :
    symbolPower? mark = some ⟨leftPower level, rightPower level⟩ := by
  revert h
  cases mark <;> rintro ⟨⟩ <;> rfl

theorem lt_of_level {mark : Symbol} {level : Nat} (h : mark.level? = some level) :
    level < prefixLevel := by
  revert h
  cases mark <;> rintro ⟨⟩ <;> decide

theorem isAssignment_eq {mark : Symbol} {level : Nat} (h : mark.level? = some level) :
    Grammar.isAssignment mark = decide (mark.level? = some 0) := by
  revert h
  cases mark <;> rintro ⟨⟩ <;> decide

/-- Each operator between two operands is of a level below that of the operators before one. -/
theorem exists_level_of_power? {kind : Kind} {power : Power} (h : power? kind = some power) :
    ∃ level < prefixLevel, power = ⟨leftPower level, rightPower level⟩ := by
  cases kind with
  | symbol mark =>
      change symbolPower? mark = some power at h
      cases hlevel : mark.level? with
      | some level =>
          rw [symbolPower?_of_level hlevel] at h
          exact ⟨level, lt_of_level hlevel, (Option.some.inj h).symm⟩
      | none =>
          have hquestion : mark = .question := by
            revert h hlevel
            cases mark <;> rintro ⟨⟩ ⟨⟩
            rfl
          subst hquestion
          exact ⟨1, by decide, (Option.some.inj h).symm⟩
  | keyword word =>
      have hword : word = .instanceof := by
        revert h
        cases word <;> rintro ⟨⟩
        rfl
      subst hword
      exact ⟨8, by decide, (Option.some.inj h).symm⟩
  | _ => cases h

/-- The token may stand behind an operand and belong to it. -/
def beginsSuffix : Kind → Bool
  | .symbol .dot | .symbol .lBracket | .symbol .lBrace | .symbol .lParen | .symbol .plusPlus
  | .symbol .minusMinus => true
  | _ => false

/-- Before the token ends an expression whose operators bind at least as tightly as `power`. -/
structure Stops (power : Nat) (kind : Kind) : Prop where
  ne_doubleColon : kind ≠ .symbol .doubleColon
  beginsSuffix_eq : beginsSuffix kind = false
  left_lt {binding : Power} (h : power? kind = some binding) : binding.left < power

/-- Before the token ends the last operand of an expression of the level. -/
structure Ends (level : Nat) (kind : Kind) : Prop where
  ne_doubleColon : kind ≠ .symbol .doubleColon
  stops (h : level < suffixLevel) : Stops (rightPower level) kind

/-- What ends an expression ends what stands last in it. -/
theorem Stops.ends {power level : Nat} {kind : Kind} (h : Stops power kind)
    (hpower : power ≤ leftPower level) : Ends level kind := by
  refine ⟨h.ne_doubleColon, fun _ => ⟨h.ne_doubleColon, h.beginsSuffix_eq, ?_⟩⟩
  intro binding hbinding
  have hlt := h.left_lt hbinding
  obtain ⟨below, -, rfl⟩ := exists_level_of_power? hbinding
  exact leftPower_lt_rightPower_of_lt (Nat.lt_of_lt_of_le hlt hpower)

theorem beginsSuffix_of_power? {kind : Kind} {power : Power} (h : power? kind = some power) :
    kind ≠ .symbol .doubleColon ∧ beginsSuffix kind = false := by
  cases kind with
  | symbol mark =>
      revert h
      cases mark <;> rintro ⟨⟩ <;> decide
  | _ => exact ⟨ne_of_beq_false rfl, rfl⟩

/-- Before an operator its left operand ends. -/
theorem Admits.ends {kind : Kind} {level left right : Nat} (h : Admits level left right)
    (hpower : power? kind = some ⟨leftPower level, rightPower level⟩)
    (hlevel : level < prefixLevel) : Ends left kind := by
  obtain ⟨hcolon, hsuffix⟩ := beginsSuffix_of_power? hpower
  refine ⟨hcolon, fun _ => ⟨hcolon, hsuffix, ?_⟩⟩
  intro binding hbinding
  obtain rfl := Option.some.inj (hpower.symm.trans hbinding)
  exact h.leftPower_lt hlevel

theorem ends_of_suffixLevel_le {level : Nat} {kind : Kind} (h : suffixLevel ≤ level)
    (hcolon : kind ≠ .symbol .doubleColon) : Ends level kind :=
  ⟨hcolon, fun hlt => absurd hlt (Nat.not_lt.mpr h)⟩

/-- Before a token that neither belongs to an operand nor is an operator between two ends every
expression. -/
theorem stops_of_power?_eq_none {kind : Kind} (power : Nat) (hcolon : kind ≠ .symbol .doubleColon)
    (hsuffix : beginsSuffix kind = false) (h : power? kind = none) : Stops power kind :=
  ⟨hcolon, hsuffix, fun hbinding => by rw [h] at hbinding; cases hbinding⟩

/-- Before the token every expression ends. -/
def Token.Kind.endsExpression (kind : Kind) : Bool :=
  kind != .symbol .doubleColon && !beginsSuffix kind && (power? kind).isNone

theorem stops_of_endsExpression {kind : Kind} (h : kind.endsExpression = true) (power : Nat) :
    Stops power kind := by
  simp only [Kind.endsExpression, Bool.and_eq_true, bne_iff_ne, Bool.not_eq_true',
    Option.isNone_iff_eq_none] at h
  exact stops_of_power?_eq_none power h.1.1 h.1.2 h.2

end QoreSyntax
