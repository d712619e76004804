import QoreSyntax.Proofs.Grammar.Halves
import QoreSyntax.Proofs.TypeName.Ahead

/-!
Types whose closing brackets stand side by side. To look ahead past a type is to look past the same
type with each `>>` in its halves, as long as no third bracket follows where the type ends.
-/

namespace QoreSyntax

open Grammar
open Token (Kind halved)

namespace TypeName

/-- With each `>>` in its halves the same tokens are left, or else a closing bracket is. -/
def Agree (whole inHalves : Option (List Token)) : Prop :=
  match whole with
  | some left => inHalves = some (halved left)
  | none => ∀ left, inHalves = some left → ∃ t rest, left = t :: rest ∧ t.kind = .symbol .gt

theorem Agree.none : Agree none none :=
  fun _ h => nomatch h

theorem Agree.eq_some {whole inHalves : Option (List Token)} (h : Agree whole inHalves)
    {t : Token} {rest : List Token} (hhalves : inHalves = some (t :: rest))
    (ht : t.kind ≠ .symbol .gt) : ∃ left, whole = some left ∧ halved left = t :: rest := by
  cases whole with
  | none =>
      obtain ⟨u, more, hcons, hu⟩ := h _ hhalves
      obtain ⟨rfl, -⟩ := List.cons.inj hcons
      exact absurd hu ht
  | some left =>
      have hleft : inHalves = some (halved left) := h
      exact ⟨left, rfl, Option.some.inj (hleft.symm.trans hhalves)⟩

/-- What a token does to the brackets that are open. -/
theorem afterArguments?_cases (t : Token) :
    (∀ depth rest, afterArguments? (depth + 1) (t :: rest) = afterArguments? (depth + 2) rest) ∨
    (∀ depth rest, afterArguments? (depth + 1) (t :: rest) =
      if depth = 0 then some rest else afterArguments? depth rest) ∨
    t.kind = .symbol .shr ∨
    (∀ depth rest, afterArguments? (depth + 1) (t :: rest) = afterArguments? (depth + 1) rest) ∨
    (∀ depth rest, afterArguments? (depth + 1) (t :: rest) = none) := by
  simp only [afterArguments?]
  split
  case h_1 => exact Or.inl fun _ _ => rfl
  case h_2 =>
      refine Or.inr (Or.inl fun depth rest => ?_)
      rw [Nat.add_sub_cancel]
      exact if_congr (by omega) rfl rfl
  case h_3 hshr => exact Or.inr (Or.inr (Or.inl hshr))
  case h_8 word _ =>
      cases word.isBuiltinType with
      | true => exact Or.inr (Or.inr (Or.inr (Or.inl fun _ _ => rfl)))
      | false => exact Or.inr (Or.inr (Or.inr (Or.inr fun _ _ => rfl)))
  case h_9 => exact Or.inr (Or.inr (Or.inr (Or.inr fun _ _ => rfl)))
  all_goals exact Or.inr (Or.inr (Or.inr (Or.inl fun _ _ => rfl)))

theorem afterArguments?_of_shr {t : Token} (h : t.kind = .symbol .shr) (depth : Nat)
    (rest : List Token) : afterArguments? (depth + 1) (t :: rest) =
      if depth = 0 then none else if depth = 1 then some rest
      else afterArguments? (depth - 1) rest := by
  rw [afterArguments?, h]
  exact if_congr (by omega) rfl (if_congr (by omega) rfl rfl)

theorem afterArguments?_of_gt {t : Token} (h : t.kind = .symbol .gt) (depth : Nat)
    (rest : List Token) : afterArguments? (depth + 1) (t :: rest) =
      if depth = 0 then some rest else afterArguments? depth rest := by
  rw [afterArguments?, h]
  exact if_congr (by omega) rfl rfl

theorem agree_afterArguments? (depth : Nat) (tokens : List Token) :
    Agree (afterArguments? (depth + 1) tokens) (afterArguments? (depth + 1) (halved tokens)) := by
  induction tokens generalizing depth with
  | nil => exact Agree.none
  | cons t rest ih =>
      by_cases hshr : t.kind = .symbol .shr
      · rw [Token.halved_cons_of_shr hshr, afterArguments?_of_shr hshr, afterArguments?_of_gt rfl]
        -- both halves are inside of the brackets, or the second one is behind them
        rcases depth with - | - | depth
        · intro left hleft
          obtain rfl := Option.some.inj hleft
          exact ⟨_, _, rfl, rfl⟩
        · exact afterArguments?_of_gt (t := t.secondHalf) rfl 0 _
        · rw [if_neg (Nat.succ_ne_zero _), if_neg (by omega), if_neg (Nat.succ_ne_zero _),
            afterArguments?_of_gt (t := t.secondHalf) rfl, if_neg (Nat.succ_ne_zero _)]
          exact ih depth
      · rw [Token.halved_cons_of_ne hshr]
        rcases afterArguments?_cases t with h | h | h | h | h
        · rw [h, h]
          exact ih (depth + 1)
        · rw [h, h]
          cases depth with
          | zero => rfl
          | succ depth => exact ih depth
        · exact absurd h hshr
        · rw [h, h]
          exact ih depth
        · rw [h, h]
          exact Agree.none

/-- The tokens go on with a part of a name. -/
def goOnWithScope : List Token → Bool
  | colons :: name :: _ => colons.kind == .symbol .doubleColon && isIdentifier name.kind
  | _ => false

theorem afterScopes_of_not_goOn {tokens : List Token} (h : goOnWithScope tokens = false) :
    afterScopes tokens = tokens := by
  rw [afterScopes.eq_def]
  split
  · rename_i colons name rest
    have hnot : (colons.kind == .symbol .doubleColon && isIdentifier name.kind) = false := h
    rw [if_neg (by rw [hnot]; exact Bool.false_ne_true)]
  · rfl

theorem goOnWithScope_halved (tokens : List Token) :
    goOnWithScope (halved tokens) = goOnWithScope tokens := by
  rcases tokens with - | ⟨colons, rest⟩
  · rfl
  · by_cases hcolons : colons.kind = .symbol .shr
    · have hwhole : goOnWithScope (colons :: rest) = false := by
        cases rest with
        | nil => rfl
        | cons name rest =>
            rw [goOnWithScope, hcolons]
            rfl
      rw [Token.halved_cons_of_shr hcolons, hwhole]
      rfl
    · rw [Token.halved_cons_of_ne hcolons]
      rcases rest with - | ⟨name, rest⟩
      · rfl
      · by_cases hname : name.kind = .symbol .shr
        · rw [Token.halved_cons_of_shr hname, goOnWithScope, goOnWithScope, hname]
          rfl
        · rw [Token.halved_cons_of_ne hname]
          rfl

theorem afterScopes_halved (tokens : List Token) :
    afterScopes (halved tokens) = halved (afterScopes tokens) := by
  induction tokens using afterScopes.induct with
  | case1 colons name rest hscope ih =>
      obtain ⟨hcolons, hname⟩ := Bool.and_eq_true_iff.mp hscope
      have hfirst : colons.kind ≠ .symbol .shr := by
        rw [eq_of_beq hcolons]
        exact ne_of_beq_false rfl
      have hsecond : name.kind ≠ .symbol .shr := by
        intro hshr
        rw [hshr] at hname
        cases hname
      rw [Token.halved_cons_of_ne hfirst, Token.halved_cons_of_ne hsecond, afterScopes, afterScopes,
        if_pos hscope, if_pos hscope]
      exact ih
  | case2 colons name rest hscope =>
      have hnot : goOnWithScope (colons :: name :: rest) = false := Bool.eq_false_iff.mpr hscope
      rw [afterScopes_of_not_goOn hnot]
      exact afterScopes_of_not_goOn ((goOnWithScope_halved _).trans hnot)
  | case3 tokens hshort =>
      have hnot : goOnWithScope tokens = false := by
        rcases tokens with - | ⟨colons, - | ⟨name, rest⟩⟩
        · rfl
        · rfl
        · exact absurd rfl (hshort colons name rest)
      rw [afterScopes_of_not_goOn hnot]
      exact afterScopes_of_not_goOn ((goOnWithScope_halved _).trans hnot)

theorem afterTypeName?_halved (tokens : List Token) :
    afterTypeName? (halved tokens) = (afterTypeName? tokens).map halved := by
  rcases tokens with - | ⟨t, rest⟩
  · rfl
  · by_cases hshr : t.kind = .symbol .shr
    · have hwhole : afterTypeName? (t :: rest) = none := by
        rw [afterTypeName?.eq_def]
        dsimp only
        rw [hshr]
        rfl
      rw [Token.halved_cons_of_shr hshr, hwhole]
      rfl
    · rw [Token.halved_cons_of_ne hshr, afterTypeName?.eq_def, afterTypeName?.eq_def (t :: rest)]
      dsimp only
      by_cases hname : (isIdentifier t.kind || isBuiltinType t.kind) = true
      · rw [if_pos hname, if_pos hname, afterScopes_halved]
        rfl
      · rw [if_neg hname, if_neg hname]
        by_cases hcolons : (t.kind == .symbol .doubleColon) = true
        · rw [if_pos hcolons, if_pos hcolons]
          rcases rest with - | ⟨name, rest⟩
          · rfl
          · by_cases hpart : name.kind = .symbol .shr
            · rw [Token.halved_cons_of_shr hpart]
              dsimp only
              rw [hpart]
              rfl
            · rw [Token.halved_cons_of_ne hpart]
              dsimp only
              rw [afterScopes_halved]
              split_ifs <;> rfl
        · rw [if_neg hcolons, if_neg hcolons]
          rfl

theorem agree_afterBrackets? (tokens : List Token) :
    Agree (afterBrackets? tokens) (afterBrackets? (halved tokens)) := by
  rcases tokens with - | ⟨t, rest⟩
  · rfl
  · by_cases hshr : t.kind = .symbol .shr
    · rw [Token.halved_cons_of_shr hshr, afterBrackets?, afterBrackets?, hshr]
      exact congrArg some (Token.halved_cons_of_shr hshr rest).symm
    · rw [Token.halved_cons_of_ne hshr, afterBrackets?, afterBrackets?]
      split_ifs
      · exact agree_afterArguments? 0 rest
      · exact congrArg some (Token.halved_cons_of_ne hshr rest).symm

/-- To look past a type is to look past the type with each `>>` in its halves. -/
theorem agree_afterType? (tokens : List Token) :
    Agree (afterType? tokens) (afterType? (halved tokens)) := by
  have hstar : (if (halved tokens).head?.any (·.kind == .symbol .star) then (halved tokens).drop 1
        else halved tokens)
      = halved (if tokens.head?.any (·.kind == .symbol .star) then tokens.drop 1 else tokens) := by
    rcases tokens with - | ⟨t, rest⟩
    · rfl
    · by_cases hshr : t.kind = .symbol .shr
      · rw [Token.halved_cons_of_shr hshr, List.head?_cons, List.head?_cons, Option.any_some,
          Option.any_some, hshr]
        exact (Token.halved_cons_of_shr hshr rest).symm
      · rw [Token.halved_cons_of_ne hshr, List.head?_cons, List.head?_cons]
        split_ifs
        · rfl
        · exact (Token.halved_cons_of_ne hshr rest).symm
  rw [afterType?_eq_bind, afterType?_eq_bind, hstar, afterTypeName?_halved]
  cases afterTypeName? (if tokens.head?.any (·.kind == .symbol .star) then tokens.drop 1
    else tokens) with
  | none => exact Agree.none
  | some named => exact agree_afterBrackets? named

end TypeName

end QoreSyntax
