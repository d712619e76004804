import QoreSyntax.Grammar.Recovery
import QoreSyntax.Proofs.Grammar.State

namespace QoreSyntax.Grammar

open Token (Kind)

/-- The token ends a construct, unless it stands in brackets. -/
def endsConstruct (kind : Kind) : Bool :=
  closesBracket kind || kind == .symbol .semicolon || kind == .symbol .comma

/-- The tokens behind the construct that the tokens begin, in which `depth` brackets are open. -/
def afterConstruct : (depth : Nat) → List Kind → List Kind
  | _, [] => []
  | depth, kind :: rest =>
      if opensBracket kind then afterConstruct (depth + 1) rest
      else if depth = 0 && endsConstruct kind then kind :: rest
      else if closesBracket kind then afterConstruct (depth - 1) rest
      else afterConstruct depth rest

theorem le_constructLength (depth count : Nat) (tokens : List Token) :
    count ≤ constructLength depth count tokens := by
  induction tokens generalizing depth count with
  | nil => exact Nat.le_refl count
  | cons t rest ih =>
      rw [constructLength]
      split_ifs
      · exact Nat.le_of_succ_le (ih _ _)
      · exact Nat.le_refl count
      · exact Nat.le_of_succ_le (ih _ _)
      · exact Nat.le_refl count
      · exact Nat.le_of_succ_le (ih _ _)

/-- What is passed over is known from the kinds of the tokens. -/
theorem map_kind_drop_constructLength (depth count : Nat) (tokens : List Token) :
    (tokens.drop (constructLength depth count tokens - count)).map Token.kind
      = afterConstruct depth (tokens.map Token.kind) := by
  induction tokens generalizing depth count with
  | nil => rw [List.drop_nil]; rfl
  | cons t rest ih =>
      have hstep : ∀ depth', (List.drop (constructLength depth' (count + 1) rest - count)
          (t :: rest)).map Token.kind = afterConstruct depth' (rest.map Token.kind) := by
        intro depth'
        have hle := le_constructLength depth' (count + 1) rest
        have hsucc : constructLength depth' (count + 1) rest - count
            = constructLength depth' (count + 1) rest - (count + 1) + 1 := by omega
        rw [hsucc, List.drop_succ_cons]
        exact ih depth' (count + 1)
      rw [constructLength, List.map_cons, afterConstruct, endsConstruct]
      cases hopens : opensBracket t.kind with
      | true => exact hstep _
      | false =>
          cases hcloses : closesBracket t.kind with
          | true =>
              by_cases hzero : depth = 0
              · simp [hzero]
              · simpa [hzero] using hstep (depth - 1)
          | false =>
              by_cases hends : (depth = 0 && (t.kind == .symbol .semicolon
                || t.kind == .symbol .comma)) = true
              · simp [hends]
              · simpa [hends] using hstep depth

/-- The tokens begin with none that belongs to a construct. -/
def BeginsNone (kinds : List Kind) : Prop :=
  ∀ kind ∈ kinds.head?, endsConstruct kind = true

theorem opensBracket_of_endsConstruct {kind : Kind} (h : endsConstruct kind = true) :
    opensBracket kind = false := by
  cases kind with
  | symbol mark =>
      revert h
      cases mark <;> decide
  | _ => rfl

theorem beginsNone_afterConstruct (depth : Nat) (kinds : List Kind) :
    BeginsNone (afterConstruct depth kinds) := by
  induction kinds generalizing depth with
  | nil => exact fun _ h => nomatch h
  | cons kind rest ih =>
      rw [afterConstruct]
      split_ifs with hopens hends
      · exact ih _
      · rw [Bool.and_eq_true] at hends
        rintro _ ⟨⟩
        exact hends.2
      · exact ih _
      · exact ih _

theorem BeginsNone.afterConstruct_eq {kinds : List Kind} (h : BeginsNone kinds) :
    afterConstruct 0 kinds = kinds := by
  cases kinds with
  | nil => rfl
  | cons kind rest =>
      have hends := h kind rfl
      rw [afterConstruct, opensBracket_of_endsConstruct hends, hends]
      rfl

theorem BeginsNone.headD_ne {kinds : List Kind} (h : BeginsNone kinds) {kind : Kind}
    (hkind : endsConstruct kind = false) (heof : kind ≠ .eof) : kinds.headD .eof ≠ kind := by
  cases kinds with
  | nil => exact heof.symm
  | cons first rest =>
      rintro rfl
      exact Bool.noConfusion (hkind.symm.trans (h first rfl))

theorem beginsNone_cons {kind : Kind} (h : endsConstruct kind = true) (rest : List Kind) :
    BeginsNone (kind :: rest) := by
  rintro _ ⟨⟩
  exact h

/-- Where `depth` brackets are open, the tokens are passed over whatever stands behind them. -/
def IsPassed (depth : Nat) (kinds : List Kind) : Prop :=
  ∀ more, afterConstruct depth (kinds ++ more) = afterConstruct depth more

namespace IsPassed

variable {depth : Nat} {kinds more : List Kind}

theorem nil : IsPassed depth [] :=
  fun _ => rfl

theorem append (h : IsPassed depth kinds) (hmore : IsPassed depth more) :
    IsPassed depth (kinds ++ more) := by
  intro rest
  rw [List.append_assoc, h, hmore]

/-- A token that is no bracket is passed over, if it does not end the construct. -/
theorem cons {kind : Kind} (hopens : opensBracket kind = false)
    (hcloses : closesBracket kind = false)
    (hends : depth = 0 → endsConstruct kind = false) (h : IsPassed depth kinds) :
    IsPassed depth (kind :: kinds) := by
  intro rest
  have hstays : (depth = 0 && endsConstruct kind) = false := by
    rw [Bool.and_eq_false_iff, decide_eq_false_iff_not]
    by_cases hzero : depth = 0
    · exact Or.inr (hends hzero)
    · exact Or.inl hzero
  rw [List.cons_append, afterConstruct, hopens, hstays, hcloses]
  exact h rest

theorem cons_of_endsConstruct {kind : Kind} (hopens : opensBracket kind = false)
    (hends : endsConstruct kind = false) (h : IsPassed depth kinds) :
    IsPassed depth (kind :: kinds) := by
  refine h.cons hopens ?_ fun _ => hends
  rw [endsConstruct, Bool.or_assoc, Bool.or_eq_false_iff] at hends
  exact hends.1

/-- In brackets a comma does not end the construct. -/
theorem comma (h : IsPassed (depth + 1) kinds) :
    IsPassed (depth + 1) (.symbol .comma :: kinds) :=
  h.cons rfl rfl fun hzero => absurd hzero depth.succ_ne_zero

/-- What stands in brackets is passed over with them. -/
theorem enclosed {opening closing : Kind} (hopens : opensBracket opening = true)
    (hcloses : closesBracket closing = true) (h : IsPassed (depth + 1) kinds)
    (hmore : IsPassed depth more) : IsPassed depth (opening :: (kinds ++ closing :: more)) := by
  intro rest
  have hshut : opensBracket closing = false :=
    opensBracket_of_endsConstruct (by rw [endsConstruct, hcloses]; rfl)
  rw [List.cons_append, List.append_assoc, afterConstruct, hopens, if_pos rfl, h, List.cons_append,
    afterConstruct, hshut, hcloses]
  exact hmore rest

end IsPassed

end QoreSyntax.Grammar
