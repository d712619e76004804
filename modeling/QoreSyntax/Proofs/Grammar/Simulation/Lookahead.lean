import Mathlib.Data.List.Forall2
import QoreSyntax.Grammar.Parameter
import QoreSyntax.Grammar.Recovery
import QoreSyntax.Proofs.Grammar.State

namespace QoreSyntax

namespace Token

open Grammar (isIdentifier isVariableName isBuiltinType)

/-- A statement or a declaration may end with the token. -/
def Kind.closes : Kind → Bool
  | .symbol .semicolon | .symbol .rBrace | .directive _ _ => true
  | _ => false

theorem Kind.closes_iff {kind : Kind} :
    kind.closes = true ↔ kind = .symbol .semicolon ∨ kind = .symbol .rBrace ∨
      ∃ name argument, kind = .directive name argument := by
  constructor
  · intro h
    rw [closes.eq_def] at h
    split at h
    · exact Or.inl rfl
    · exact Or.inr (Or.inl rfl)
    · exact Or.inr (Or.inr ⟨_, _, rfl⟩)
    · cases h
  · rintro (rfl | rfl | ⟨name, argument, rfl⟩) <;> rfl

/-- What is none of the tokens that close a statement does not close one. -/
theorem Kind.closes_eq_false {p : Kind → Bool} (hsemicolon : p (.symbol .semicolon) = false)
    (hbrace : p (.symbol .rBrace) = false)
    (hdirective : ∀ name argument, p (.directive name argument) = false) {kind : Kind}
    (h : p kind = true) : kind.closes = false := by
  rw [← Bool.not_eq_true]
  intro hcloses
  rcases closes_iff.mp hcloses with rfl | rfl | ⟨name, argument, rfl⟩
  · exact Bool.noConfusion (hsemicolon.symm.trans h)
  · exact Bool.noConfusion (hbrace.symm.trans h)
  · exact Bool.noConfusion ((hdirective name argument).symm.trans h)

theorem Kind.closes_of_isIdentifier {kind : Kind} (h : isIdentifier kind = true) :
    kind.closes = false :=
  closes_eq_false rfl rfl (fun _ _ => rfl) h

theorem Kind.closes_of_isVariableName {kind : Kind} (h : isVariableName kind = true) :
    kind.closes = false :=
  closes_eq_false rfl rfl (fun _ _ => rfl) h

theorem Kind.closes_of_isBuiltinType {kind : Kind} (h : isBuiltinType kind = true) :
    kind.closes = false :=
  closes_eq_false rfl rfl (fun _ _ => rfl) h

/-- The tokens are the same to a parser, wherever they stand. -/
structure Alike (t u : Token) : Prop where
  kind_eq : u.kind = t.kind
  newlineBefore_eq : u.newlineBefore = t.newlineBefore

/-- The tokens are the same to a parser that passes none over: whether a line ends before a token
makes a difference only to what a brace belongs to. -/
structure Akin (t u : Token) : Prop where
  kind_eq : u.kind = t.kind
  newlineBefore_eq (h : t.kind = .symbol .lBrace) : u.newlineBefore = t.newlineBefore

theorem Alike.akin {t u : Token} (h : t.Alike u) : t.Akin u :=
  ⟨h.kind_eq, fun _ => h.newlineBefore_eq⟩

theorem akin_self (t : Token) : t.Akin t :=
  ⟨rfl, fun _ => rfl⟩

/-- The tokens are akin one by one, as far as the first one that closes a statement or beyond. -/
inductive AlikeAhead : List Token → List Token → Prop where
  | nil : AlikeAhead [] []
  | cons {t u : Token} {ts us : List Token} (h : t.Akin u) (hrest : AlikeAhead ts us) :
      AlikeAhead (t :: ts) (u :: us)
  | closing {t u : Token} (h : t.Akin u) (hcloses : t.kind.closes = true) (ts us : List Token) :
      AlikeAhead (t :: ts) (u :: us)

namespace AlikeAhead

variable {t : Token} {ts us : List Token}

theorem of_forall₂ (h : List.Forall₂ Akin ts us) : AlikeAhead ts us := by
  induction h with
  | nil => exact nil
  | cons h _ ih => exact cons h ih

theorem exists_cons (h : AlikeAhead (t :: ts) us) :
    ∃ u us', us = u :: us' ∧ t.Akin u ∧ (t.kind.closes = false → AlikeAhead ts us') := by
  cases h with
  | cons h hrest => exact ⟨_, _, rfl, h, fun _ => hrest⟩
  | closing h hcloses =>
      exact ⟨_, _, rfl, h, fun hopen => Bool.noConfusion (hopen.symm.trans hcloses)⟩

theorem isEmpty_eq (h : AlikeAhead ts us) : us.isEmpty = ts.isEmpty := by
  cases h <;> rfl

/-- A token is of the same kind, unless one before it closes a statement. -/
theorem kind_getElem? (h : AlikeAhead ts us) (n : Nat)
    (hopen : ∀ m < n, ∀ t, ts[m]? = some t → t.kind.closes = false) :
    us[n]?.map Token.kind = ts[n]?.map Token.kind := by
  induction h generalizing n with
  | nil => rfl
  | cons h _ ih =>
      rcases n with - | n
      · exact congrArg some h.kind_eq
      · exact ih n fun m hm => hopen (m + 1) (Nat.succ_lt_succ hm)
  | closing h hcloses ts us =>
      rcases n with - | n
      · exact congrArg some h.kind_eq
      · have hfirst := hopen 0 (Nat.succ_pos n) _ rfl
        exact Bool.noConfusion (hfirst.symm.trans hcloses)

theorem afterScopes (h : AlikeAhead ts us) :
    AlikeAhead (Grammar.afterScopes ts) (Grammar.afterScopes us) := by
  fun_induction Grammar.afterScopes ts generalizing us with
  | case1 colons name rest hscope ih =>
      have hboth := hscope
      rw [Bool.and_eq_true, beq_iff_eq] at hboth
      obtain ⟨u, us, rfl, hu, hrest⟩ := h.exists_cons
      obtain ⟨v, us, rfl, hv, hrest⟩ := (hrest (hboth.1 ▸ rfl)).exists_cons
      rw [Grammar.afterScopes, hu.kind_eq, hv.kind_eq, if_pos hscope]
      exact ih (hrest (Kind.closes_of_isIdentifier hboth.2))
  | case2 colons name rest hscope =>
      obtain ⟨u, us, rfl, hu, hrest⟩ := h.exists_cons
      suffices hsame : Grammar.afterScopes (u :: us) = u :: us by rwa [hsame]
      rcases us with - | ⟨v, us⟩
      · rfl
      · refine (Grammar.afterScopes.eq_1 u v us).trans (if_neg fun hboth => hscope ?_)
        rw [Bool.and_eq_true, beq_iff_eq, hu.kind_eq] at hboth
        obtain ⟨w, _, hw, hv, -⟩ := (hrest (hboth.1 ▸ rfl)).exists_cons
        obtain ⟨rfl, -⟩ := List.cons.inj hw
        rw [Bool.and_eq_true, beq_iff_eq]
        exact ⟨hboth.1, hv.kind_eq ▸ hboth.2⟩
  | case3 tokens hshort =>
      rcases tokens with - | ⟨t, - | ⟨name, rest⟩⟩
      · cases h
        exact nil
      · obtain ⟨u, us, rfl, hu, hrest⟩ := h.exists_cons
        suffices hsame : Grammar.afterScopes (u :: us) = u :: us by rwa [hsame]
        rcases us with - | ⟨v, us⟩
        · rfl
        · refine (Grammar.afterScopes.eq_1 u v us).trans (if_neg fun hboth => ?_)
          rw [Bool.and_eq_true, beq_iff_eq, hu.kind_eq] at hboth
          cases hrest (hboth.1 ▸ rfl)
      · exact absurd rfl (hshort t name rest)

theorem afterArguments? (h : AlikeAhead ts us) (depth : Nat) :
    Option.Rel AlikeAhead (Grammar.afterArguments? depth ts)
      (Grammar.afterArguments? depth us) := by
  induction h generalizing depth with
  | nil => exact .none
  | @cons t u ts us h hrest ih =>
      rw [Grammar.afterArguments?, Grammar.afterArguments?, h.kind_eq]
      split <;> (try split_ifs) <;> first | exact ih _ | exact .none | exact .some hrest
  | @closing t u h hcloses ts us =>
      rw [Grammar.afterArguments?, Grammar.afterArguments?, h.kind_eq]
      rcases Kind.closes_iff.mp hcloses with hkind | hkind | ⟨_, _, hkind⟩ <;> rw [hkind] <;>
        exact .none

theorem afterTypeName? (h : AlikeAhead ts us) :
    Option.Rel AlikeAhead (Grammar.afterTypeName? ts) (Grammar.afterTypeName? us) := by
  rcases ts with - | ⟨t, ts⟩
  · cases h
    exact .none
  · obtain ⟨u, us, rfl, hu, hrest⟩ := h.exists_cons
    simp only [Grammar.afterTypeName?, hu.kind_eq]
    split_ifs with hname hroot
    · refine .some (hrest ?_).afterScopes
      rcases (Bool.or_eq_true _ _).mp hname with hidentifier | hbuiltin
      · exact Kind.closes_of_isIdentifier hidentifier
      · exact Kind.closes_of_isBuiltinType hbuiltin
    · have hopen : t.kind.closes = false := by
        rw [eq_of_beq hroot]
        rfl
      rcases ts with - | ⟨name, ts⟩
      · cases hrest hopen
        exact .none
      · obtain ⟨v, us, rfl, hv, hrest⟩ := (hrest hopen).exists_cons
        dsimp only
        rw [hv.kind_eq]
        split_ifs with hidentifier
        · exact .some (hrest (Kind.closes_of_isIdentifier hidentifier)).afterScopes
        · exact .none
    · exact .none

theorem afterType? (h : AlikeAhead ts us) :
    Option.Rel AlikeAhead (Grammar.afterType? ts) (Grammar.afterType? us) := by
  have hstar : us.head?.any (·.kind == .symbol .star) = ts.head?.any (·.kind == .symbol .star) := by
    cases h with
    | nil => rfl
    | cons h => simp [h.kind_eq]
    | closing h => simp [h.kind_eq]
  have hname : AlikeAhead (if ts.head?.any (·.kind == .symbol .star) then ts.drop 1 else ts)
      (if us.head?.any (·.kind == .symbol .star) then us.drop 1 else us) := by
    rw [hstar]
    split_ifs with hat
    · rcases ts with - | ⟨t, ts⟩
      · cases hat
      · obtain ⟨u, us, rfl, hu, hrest⟩ := h.exists_cons
        have hkind : t.kind = .symbol .star := by simpa using hat
        exact hrest (hkind ▸ rfl)
    · exact h
  have hafter := hname.afterTypeName?
  simp only [Grammar.afterType?]
  generalize Grammar.afterTypeName? (if ts.head?.any _ then _ else _) = one at hafter ⊢
  generalize Grammar.afterTypeName? (if us.head?.any _ then _ else _) = other at hafter ⊢
  cases hafter with
  | none => exact .none
  | some hrest =>
      rename_i ts us
      rcases ts with - | ⟨t, ts⟩
      · cases hrest
        exact .some nil
      · obtain ⟨u, us, rfl, hu, hopen⟩ := hrest.exists_cons
        dsimp only
        rw [hu.kind_eq]
        split_ifs with hlt
        · exact (hopen (by rw [eq_of_beq hlt]; rfl)).afterArguments? 1
        · exact .some hrest

end AlikeAhead

end Token

namespace Grammar

open Token (AlikeAhead)

/-- The states are the same to a parser. When tokens are to be passed over, it may go beyond one
that closes a statement. -/
structure State.Resembles (s t : State) : Prop where
  pending : AlikeAhead s.pending t.pending
  isEof_left : s.final.isEof = true
  isEof_right : t.final.isEof = true
  recovering_eq : t.recovering = s.recovering
  skipped : s.recovering = true → List.Forall₂ Token.Alike s.pending t.pending

namespace State

/-- States with the same tokens ahead, wherever they stand, are the same to a parser. -/
theorem resembles_of_alike {s t : State} (hpending : List.Forall₂ Token.Alike s.pending t.pending)
    (hs : s.final.isEof = true) (ht : t.final.isEof = true) (h : t.recovering = s.recovering) :
    s.Resembles t :=
  ⟨.of_forall₂ (hpending.imp fun _ _ => Token.Alike.akin), hs, ht, h, fun _ => hpending⟩

theorem resembles_self {s : State} (h : s.final.isEof = true) : s.Resembles s :=
  resembles_of_alike (List.forall₂_same.mpr fun _ _ => ⟨rfl, rfl⟩) h h rfl

theorem kindAt_eq {s : State} (hfinal : s.final.isEof = true) (n : Nat) :
    s.kindAt n = (s.pending[n]?.map Token.kind).getD .eof := by
  rw [kindAt]
  cases s.pending[n]? with
  | none => exact eq_of_beq hfinal
  | some t => rfl

theorem kind_eq_of_keyword? {s : State} {word : Keyword} (h : s.keyword? = some word) :
    s.kind = .keyword word := by
  rw [keyword?] at h
  split at h
  · rename_i hkind
    rw [hkind, Option.some.inj h]
  · cases h

/-- A method with a type begins with the name of the type. -/
theorem closes_of_isTypedMethod {s : State} (h : s.isTypedMethod = true) :
    s.kind.closes = false := by
  rcases hpending : s.pending with - | ⟨t, rest⟩
  · rw [isTypedMethod, hpending] at h
    cases h
  · rw [kind, current, hpending]
    by_contra hcloses
    rw [Bool.not_eq_false] at hcloses
    have hnone : afterType? s.pending = none := by
      rcases Token.Kind.closes_iff.mp hcloses with hkind | hkind | ⟨_, _, hkind⟩ <;>
        simp_all [afterType?, afterTypeName?, isIdentifier, isBuiltinType]
    rw [isTypedMethod, hnone] at h
    cases h

namespace Resembles

variable {s t : State} (h : s.Resembles t)
include h

theorem kindAt (n : Nat) (hopen : ∀ m < n, (s.kindAt m).closes = false) :
    t.kindAt n = s.kindAt n := by
  rw [kindAt_eq h.isEof_left, kindAt_eq h.isEof_right, h.pending.kind_getElem? n]
  intro m hm u hu
  have hkind := hopen m hm
  rwa [kindAt_eq h.isEof_left, hu] at hkind

theorem kind_eq : t.kind = s.kind := by
  rw [kind_eq_kindAt, kind_eq_kindAt]
  exact h.kindAt 0 fun m hm => absurd hm (Nat.not_lt_zero m)

theorem kindAt_one (hopen : s.kind.closes = false) : t.kindAt 1 = s.kindAt 1 := by
  refine h.kindAt 1 fun m hm => ?_
  obtain rfl : m = 0 := Nat.lt_one_iff.mp hm
  rwa [← kind_eq_kindAt]

theorem isAt (symbol : Symbol) : t.isAt symbol = s.isAt symbol := by
  rw [State.isAt, State.isAt, h.kind_eq]

theorem isAtKeyword (word : Keyword) : t.isAtKeyword word = s.isAtKeyword word := by
  rw [State.isAtKeyword, State.isAtKeyword, h.kind_eq]

theorem keyword? : t.keyword? = s.keyword? := by
  rw [State.keyword?, State.keyword?, h.kind_eq]

theorem isAtEnd : t.isAtEnd = s.isAtEnd :=
  h.pending.isEmpty_eq

theorem newlineBefore_eq (hpending : s.pending ≠ []) (hbrace : s.kind = .symbol .lBrace) :
    t.current.newlineBefore = s.current.newlineBefore := by
  obtain ⟨u, rest, hcons⟩ := List.exists_cons_of_ne_nil hpending
  have hahead := h.pending
  rw [hcons] at hahead
  obtain ⟨v, _, hother, hakin, -⟩ := hahead.exists_cons
  rw [kind, current, hcons] at hbrace
  rw [current, current, hcons, hother]
  exact hakin.newlineBefore_eq hbrace

theorem isTypeBefore (follows : Token.Kind → Bool) :
    t.isTypeBefore follows = s.isTypeBefore follows := by
  have hafter := h.pending.afterType?
  rw [State.isTypeBefore, State.isTypeBefore]
  generalize afterType? s.pending = one at hafter ⊢
  generalize afterType? t.pending = other at hafter ⊢
  cases hafter with
  | none => rfl
  | some hrest =>
      cases hrest with
      | nil => rfl
      | cons hakin _ => exact congrArg follows hakin.kind_eq
      | closing hakin => exact congrArg follows hakin.kind_eq

theorem isTypedVariable : t.isTypedVariable = s.isTypedVariable :=
  h.isTypeBefore isVariableName

theorem isTypedFunction : t.isTypedFunction = s.isTypedFunction :=
  h.isTypeBefore (· == .keyword .sub)

theorem isTypedMethod : t.isTypedMethod = s.isTypedMethod := by
  have hafter := h.pending.afterType?
  rw [State.isTypedMethod, State.isTypedMethod]
  generalize afterType? s.pending = one at hafter ⊢
  generalize afterType? t.pending = other at hafter ⊢
  cases hafter with
  | none => rfl
  | some hrest =>
      cases hrest with
      | nil => rfl
      | cons hakin hrest =>
          cases hrest with
          | nil => rfl
          | cons hparen _ => simp only [hakin.kind_eq, hparen.kind_eq]
          | closing hparen _ => simp only [hakin.kind_eq, hparen.kind_eq]
      | closing hakin hcloses ts us =>
          have hname : ¬isIdentifier _ = true := fun hidentifier =>
            Bool.noConfusion ((Token.Kind.closes_of_isIdentifier hidentifier).symm.trans hcloses)
          rcases ts with - | ⟨paren, ts⟩ <;> rcases us with - | ⟨paren', us⟩ <;>
            simp [hakin.kind_eq, hname]

theorem isVariable : t.isVariable = s.isVariable := by
  rw [State.isVariable, State.isVariable, h.isAtKeyword, h.isAtKeyword, h.isTypedVariable]

theorem isDeclaration : t.isDeclaration = s.isDeclaration := by
  rw [State.isDeclaration, State.isDeclaration, h.keyword?, h.isTypedFunction]
  split
  any_goals rfl
  rename_i hkeyword
  rw [h.kindAt_one]
  rw [kind_eq_of_keyword? hkeyword]
  rfl

theorem isMemberBlock : t.isMemberBlock = s.isMemberBlock := by
  rw [State.isMemberBlock, State.isMemberBlock, h.isAtKeyword, h.isAtKeyword]
  cases haccess : s.isAtKeyword .private || s.isAtKeyword .public with
  | false => rfl
  | true =>
      have hfirst : (s.kindAt 0).closes = false := by
        rw [← kind_eq_kindAt]
        rcases (Bool.or_eq_true _ _).mp haccess with hat | hat <;> rw [eq_of_beq hat] <;> rfl
      have hopen : ∀ {n}, (∀ m < n, (s.kindAt (m + 1)).closes = false) →
          t.kindAt (n + 1) = s.kindAt (n + 1) := by
        intro n hn
        refine h.kindAt (n + 1) fun m hm => ?_
        rcases m with - | m
        · exact hfirst
        · exact hn m (Nat.lt_of_succ_lt_succ hm)
      have hone : t.kindAt 1 = s.kindAt 1 := hopen nofun
      rw [hone]
      cases hcolon : s.kindAt 1 == .symbol .colon with
      | false => rfl
      | true =>
          have hone : (s.kindAt 1).closes = false := by
            rw [eq_of_beq hcolon]
            rfl
          have htwo : t.kindAt 2 = s.kindAt 2 := hopen fun m hm => by
            rwa [Nat.lt_one_iff.mp hm]
          rw [htwo]
          cases hscope : isIdentifier (s.kindAt 2) with
          | false => rfl
          | true =>
              have htwo := Token.Kind.closes_of_isIdentifier hscope
              have hthree : t.kindAt 3 = s.kindAt 3 := hopen fun m hm => by
                rcases Nat.lt_succ_iff_lt_or_eq.mp hm with hm | rfl
                · rwa [Nat.lt_one_iff.mp hm]
                · exact htwo
              rw [hthree]

theorem isUntypedParameter : t.isUntypedParameter = s.isUntypedParameter := by
  rw [State.isUntypedParameter, State.isUntypedParameter, h.kind_eq]
  cases hname : isVariableName s.kind with
  | false => rfl
  | true => rw [h.kindAt_one (Token.Kind.closes_of_isVariableName hname)]

end Resembles

end State

end Grammar

end QoreSyntax
