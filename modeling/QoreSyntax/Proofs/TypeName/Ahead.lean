import QoreSyntax.Proofs.Grammar.Reading
import QoreSyntax.Proofs.TypeName.Tree

namespace QoreSyntax

open Grammar
open Token (Kind)

namespace TypeName

/-- Within brackets the tokens of the kinds are passed over. -/
def Passes (kinds : List Kind) : Prop :=
  ∀ (depth : Nat) (rest : List Kind) (tokens : List Token),
    tokens.map Token.kind = kinds ++ rest →
      ∃ left : List Token, left.map Token.kind = rest ∧
        afterArguments? (depth + 1) tokens = afterArguments? (depth + 1) left

namespace Passes

variable {kinds more : List Kind}

theorem nil : Passes [] :=
  fun _ _ tokens htokens => ⟨tokens, htokens, rfl⟩

theorem append (h : Passes kinds) (hmore : Passes more) : Passes (kinds ++ more) := by
  intro depth rest tokens htokens
  rw [List.append_assoc] at htokens
  obtain ⟨middle, hmiddle, hfirst⟩ := h depth _ tokens htokens
  obtain ⟨left, hleft, hsecond⟩ := hmore depth rest middle hmiddle
  exact ⟨left, hleft, hfirst.trans hsecond⟩

/-- A token of a name or between two arguments leaves the brackets as they are. -/
theorem cons {kind : Kind} (hkind : ∀ (depth : Nat) (token : Token) (rest : List Token),
      token.kind = kind →
        afterArguments? (depth + 1) (token :: rest) = afterArguments? (depth + 1) rest)
    (h : Passes kinds) : Passes (kind :: kinds) := by
  intro depth rest tokens htokens
  obtain ⟨token, tail, rfl, htoken, htail⟩ := List.map_eq_cons_iff.mp htokens
  obtain ⟨left, hleft, hrest⟩ := h depth rest tail htail
  exact ⟨left, hleft, (hkind depth token tail htoken).trans hrest⟩

theorem identifier (x : Identifier) (h : Passes kinds) : Passes (x.kind :: kinds) :=
  h.cons fun _ token _ htoken => by rw [afterArguments?, htoken, Identifier.kind]

theorem doubleColon (h : Passes kinds) : Passes (.symbol .doubleColon :: kinds) :=
  h.cons fun _ token _ htoken => by rw [afterArguments?, htoken]

theorem star (h : Passes kinds) : Passes (.symbol .star :: kinds) :=
  h.cons fun _ token _ htoken => by rw [afterArguments?, htoken]

theorem comma (h : Passes kinds) : Passes (.symbol .comma :: kinds) :=
  h.cons fun _ token _ htoken => by rw [afterArguments?, htoken]

theorem builtin {word : Keyword} (hword : word.isBuiltinType = true) (h : Passes kinds) :
    Passes (.keyword word :: kinds) := by
  refine h.cons fun depth token rest htoken => ?_
  rw [afterArguments?, htoken]
  dsimp only
  rw [if_pos hword]

theorem commas {items : List (List Kind)} (h : ∀ item ∈ items, Passes item) :
    Passes (Token.commas items) := by
  induction items with
  | nil => exact nil
  | cons item items ih =>
      obtain ⟨hitem, hitems⟩ := List.forall_mem_cons.mp h
      cases items with
      | nil => rwa [Token.commas_singleton]
      | cons next items =>
          rw [Token.commas_cons_cons]
          exact hitem.append (ih hitems).comma

/-- Brackets within brackets are passed over with what is in them. -/
theorem brackets (h : Passes kinds) :
    Passes (.symbol .lt :: (kinds ++ [.symbol .gt])) := by
  intro depth rest tokens htokens
  rw [List.cons_append, List.append_assoc] at htokens
  obtain ⟨opening, inner, rfl, hopening, hinner⟩ := List.map_eq_cons_iff.mp htokens
  obtain ⟨behind, hbehind, hpassed⟩ := h (depth + 1) _ inner hinner
  obtain ⟨closing, left, rfl, hclosing, hleft⟩ := List.map_eq_cons_iff.mp hbehind
  refine ⟨left, hleft, ?_⟩
  have hopen : afterArguments? (depth + 1) (opening :: inner)
      = afterArguments? (depth + 1 + 1) inner := by
    rw [afterArguments?, hopening]
  have hclose : afterArguments? (depth + 1 + 1) (closing :: left)
      = afterArguments? (depth + 1) left := by
    rw [afterArguments?, hclosing]
    dsimp only
    rw [if_neg (by omega), Nat.add_sub_cancel]
  rw [hopen, hpassed, hclose]

theorem bracketed {arguments : List (List Kind)} (h : ∀ item ∈ arguments, Passes item) :
    Passes (bracketed arguments) := by
  cases arguments with
  | nil => exact nil
  | cons first rest => exact (commas h).brackets

end Passes

theorem passes_scopeKinds (parts : List Identifier) : Passes (ScopedName.scopeKinds parts) := by
  induction parts with
  | nil => exact Passes.nil
  | cons part parts ih => exact (ih.identifier part).doubleColon

theorem passes_head (head : TypeHead) : Passes head.kinds := by
  cases head with
  | builtin word isBuiltin => exact Passes.nil.builtin isBuiltin
  | named name =>
      obtain ⟨isRooted, first, rest⟩ := name
      have hname := (passes_scopeKinds rest).identifier first
      cases isRooted with
      | true => exact hname.doubleColon
      | false => exact hname

mutual

theorem passes : ∀ T : TypeName, Passes T.kinds
  | mk isOptional head arguments => by
      have harguments := Passes.bracketed (passes_each arguments)
      have htype := (passes_head head).append harguments
      rw [kinds]
      cases isOptional with
      | true => exact htype.star
      | false => exact htype

theorem passes_each : ∀ types : List TypeName, ∀ item ∈ kindsEach types, Passes item
  | [], _, hitem => nomatch hitem
  | T :: rest, item, hitem => by
      rw [kindsEach] at hitem
      rcases List.mem_cons.mp hitem with rfl | hmem
      · exact passes T
      · exact passes_each rest item hmem

end

theorem exists_afterScopes (parts : List Identifier) {tokens : List Token} {rest : List Kind}
    (htokens : tokens.map Token.kind = ScopedName.scopeKinds parts ++ rest)
    (hrest : rest.headD .eof ≠ .symbol .doubleColon) :
    ∃ left : List Token, left.map Token.kind = rest ∧ afterScopes tokens = left := by
  induction parts generalizing tokens with
  | nil =>
      refine ⟨tokens, htokens, ?_⟩
      rw [afterScopes.eq_def]
      split
      · rename_i colons name more
        have hcolons : ¬colons.kind = .symbol .doubleColon := by
          obtain rfl : (colons :: name :: more).map Token.kind = rest := htokens
          exact hrest
        rw [beq_eq_false_iff_ne.mpr hcolons]
        rfl
      · rfl
  | cons part parts ih =>
      obtain ⟨colons, tail, rfl, hcolons, htail⟩ := List.map_eq_cons_iff.mp htokens
      obtain ⟨name, more, rfl, hname, hmore⟩ := List.map_eq_cons_iff.mp htail
      obtain ⟨left, hleft, hafter⟩ := ih hmore
      refine ⟨left, hleft, ?_⟩
      rw [afterScopes, hcolons, hname, Identifier.kind]
      exact hafter

theorem afterTypeName?_of_name {token : Token} {rest : List Token}
    (h : (isIdentifier token.kind || isBuiltinType token.kind) = true) :
    afterTypeName? (token :: rest) = some (afterScopes rest) := by
  rw [afterTypeName?.eq_def]
  exact if_pos h

theorem afterTypeName?_of_root {colons name : Token} {rest : List Token}
    (hcolons : colons.kind = .symbol .doubleColon) (hname : isIdentifier name.kind = true) :
    afterTypeName? (colons :: name :: rest) = some (afterScopes rest) := by
  have hfirst : (isIdentifier colons.kind || isBuiltinType colons.kind) = false := by
    rw [hcolons]
    rfl
  rw [afterTypeName?.eq_def]
  dsimp only
  rw [hfirst, hcolons, hname]
  rfl

/-- Before a token that does not go on with it a name is passed over. -/
theorem exists_afterTypeName? (head : TypeHead) {tokens : List Token} {rest : List Kind}
    (htokens : tokens.map Token.kind = head.kinds ++ rest)
    (hrest : rest.headD .eof ≠ .symbol .doubleColon) :
    ∃ left : List Token, left.map Token.kind = rest ∧ afterTypeName? tokens = some left := by
  cases head with
  | builtin word isBuiltin =>
      obtain ⟨token, tail, rfl, htoken, htail⟩ := List.map_eq_cons_iff.mp htokens
      obtain ⟨left, hleft, rfl⟩ := exists_afterScopes [] htail hrest
      refine ⟨_, hleft, afterTypeName?_of_name ?_⟩
      rw [htoken]
      exact isBuiltin
  | named name =>
      obtain ⟨isRooted, first, parts⟩ := name
      cases isRooted with
      | true =>
          obtain ⟨colons, tail, rfl, hcolons, htail⟩ := List.map_eq_cons_iff.mp htokens
          obtain ⟨name, more, rfl, hname, hmore⟩ := List.map_eq_cons_iff.mp htail
          obtain ⟨left, hleft, rfl⟩ := exists_afterScopes parts hmore hrest
          refine ⟨_, hleft, afterTypeName?_of_root hcolons ?_⟩
          rw [hname]
          rfl
      | false =>
          obtain ⟨name, more, rfl, hname, hmore⟩ := List.map_eq_cons_iff.mp htokens
          obtain ⟨left, hleft, rfl⟩ := exists_afterScopes parts hmore hrest
          refine ⟨_, hleft, afterTypeName?_of_name ?_⟩
          rw [hname]
          rfl

theorem head_ne_star (head : TypeHead) (behind : List Kind) :
    (head.kinds ++ behind).headD .eof ≠ .symbol .star := by
  cases head with
  | builtin word isBuiltin => exact ne_of_beq_false rfl
  | named name =>
      obtain ⟨isRooted, first, rest⟩ := name
      cases isRooted <;> exact ne_of_beq_false rfl

/-- The tokens behind the star of a type, if there is one. -/
theorem map_behindStar (isOptional : Bool) (head : TypeHead) {tokens : List Token}
    {rest : List Kind}
    (htokens : tokens.map Token.kind = starKinds isOptional ++ (head.kinds ++ rest)) :
    (if tokens.head?.any (·.kind == .symbol .star) then tokens.drop 1 else tokens).map Token.kind
      = head.kinds ++ rest := by
  cases isOptional with
  | true =>
      obtain ⟨star, tail, rfl, hstar, htail⟩ := List.map_eq_cons_iff.mp htokens
      rw [List.head?_cons, Option.any_some, hstar, beq_self_eq_true, if_pos rfl]
      exact htail
  | false =>
      have hother : tokens.head?.any (·.kind == .symbol .star) = false := by
        have hhead := head_ne_star head rest
        have hkinds : tokens.map Token.kind = head.kinds ++ rest := htokens
        rw [← hkinds] at hhead
        cases tokens with
        | nil => rfl
        | cons token tokens => exact beq_eq_false_iff_ne.mpr hhead
      rw [hother, if_neg Bool.false_ne_true]
      exact htokens

/-- What is behind the arguments of a type, if it has any. -/
def afterBrackets? : List Token → Option (List Token)
  | [] => some []
  | token :: rest =>
      if token.kind == .symbol .lt then afterArguments? 1 rest else some (token :: rest)

theorem afterType?_eq_bind (tokens : List Token) :
    afterType? tokens = (afterTypeName? (if tokens.head?.any (·.kind == .symbol .star)
      then tokens.drop 1 else tokens)).bind afterBrackets? := by
  rw [afterType?]
  cases afterTypeName? _ with
  | none => rfl
  | some left => cases left <;> rfl

theorem exists_afterBrackets? (arguments : List TypeName) {named : List Token} {rest : List Kind}
    (hnamed : named.map Token.kind = bracketed (kindsEach arguments) ++ rest)
    (hangle : rest.headD .eof ≠ .symbol .lt) :
    ∃ left : List Token, left.map Token.kind = rest ∧ afterBrackets? named = some left := by
  have hpasses := Passes.commas (passes_each arguments)
  cases harguments : kindsEach arguments with
  | nil =>
      rw [harguments] at hnamed
      obtain rfl : named.map Token.kind = rest := hnamed
      refine ⟨named, rfl, ?_⟩
      cases named with
      | nil => rfl
      | cons token more => exact if_neg (mt eq_of_beq hangle)
  | cons first others =>
      rw [harguments] at hnamed hpasses
      obtain ⟨opening, inner, rfl, hopening, hinner⟩ := List.map_eq_cons_iff.mp hnamed
      rw [List.append_eq, List.append_assoc] at hinner
      obtain ⟨behind, hbehind, hpassed⟩ := hpasses 0 _ inner hinner
      obtain ⟨closing, left, rfl, hclosing, hleft⟩ := List.map_eq_cons_iff.mp hbehind
      refine ⟨left, hleft, ?_⟩
      have hopen : (opening.kind == .symbol .lt) = true := beq_iff_eq.mpr hopening
      refine (if_pos hopen).trans (hpassed.trans ?_)
      rw [afterArguments?, hclosing]
      rfl

/-- Before a token that does not go on with it a type is passed over. -/
theorem exists_afterType? (T : TypeName) {tokens : List Token} {rest : List Kind}
    (htokens : tokens.map Token.kind = T.kinds ++ rest)
    (hends : endsType (rest.headD .eof) = true) :
    ∃ left : List Token, left.map Token.kind = rest ∧ afterType? tokens = some left := by
  obtain ⟨isOptional, head, arguments⟩ := T
  obtain ⟨hscope, hangle⟩ := ne_of_endsType hends
  rw [kinds, List.append_assoc, List.append_assoc] at htokens
  have hbehind := map_behindStar isOptional head htokens
  have hscope' : (bracketed (kindsEach arguments) ++ rest).headD .eof ≠ .symbol .doubleColon := by
    cases kindsEach arguments with
    | nil => exact hscope
    | cons first others => exact ne_of_beq_false rfl
  obtain ⟨named, hnamed, hname⟩ := exists_afterTypeName? head hbehind hscope'
  obtain ⟨left, hleft, hbrackets⟩ := exists_afterBrackets? arguments hnamed hangle
  refine ⟨left, hleft, ?_⟩
  rw [afterType?_eq_bind, hname, Option.bind_some, hbrackets]

/-- The second of the tokens that a type begins is within the type or the one behind it. -/
theorem second_cases (T : TypeName) (kind : Kind) (behind : List Kind) :
    let second := (T.kinds ++ kind :: behind)[1]?.getD .eof
    second = kind ∨ second = .symbol .lt ∨ beginsType second = true := by
  obtain ⟨isOptional, head, arguments⟩ := T
  rw [kinds]
  -- behind a name of one token stand the arguments, if there are any
  have hlast (first : Kind) :
      let second := (first :: (bracketed (kindsEach arguments) ++ kind :: behind))[1]?.getD .eof
      second = kind ∨ second = .symbol .lt ∨ beginsType second = true := by
    cases kindsEach arguments with
    | nil => exact Or.inl rfl
    | cons first others => exact Or.inr (Or.inl rfl)
  cases isOptional with
  | true =>
      refine Or.inr (Or.inr ?_)
      cases head with
      | builtin word isBuiltin => exact isBuiltin
      | named name =>
          obtain ⟨isRooted, first, parts⟩ := name
          cases isRooted <;> rfl
  | false =>
      cases head with
      | builtin word isBuiltin => exact hlast (.keyword word)
      | named name =>
          obtain ⟨isRooted, first, parts⟩ := name
          cases isRooted with
          | true => exact Or.inr (Or.inr rfl)
          | false =>
              cases parts with
              | nil => exact hlast first.kind
              | cons part parts => exact Or.inr (Or.inr rfl)

end TypeName

namespace Grammar.State.Clear

variable {kinds : List Kind} {depth : Nat} {o : State}

/-- What follows a type can be told before the type is read. -/
theorem isTypeBefore_eq (T : TypeName) (ho : o.Clear (T.kinds ++ kinds) depth)
    (hends : TypeName.endsType (kinds.headD .eof) = true) {follows : Kind → Bool}
    (heof : follows .eof = false) : o.isTypeBefore follows = follows (kinds.headD .eof) := by
  obtain ⟨left, rfl, hafter⟩ := T.exists_afterType? ho.kinds_eq hends
  rw [State.isTypeBefore, hafter]
  cases left with
  | nil => exact heof.symm
  | cons token rest => rfl

section Method

variable (T : TypeName) {x : Identifier} (ho : o.Clear (T.kinds ++ x.kind :: kinds) depth)
include ho

/-- A name with a type before it is that of a method if a parenthesis follows. -/
theorem isTypedMethod_eq : o.isTypedMethod = (kinds.headD .eof == .symbol .lParen) := by
  obtain ⟨left, hleft, hafter⟩ := T.exists_afterType? ho.kinds_eq rfl
  obtain ⟨name, behind, rfl, hname, rfl⟩ := List.map_eq_cons_iff.mp hleft
  rw [State.isTypedMethod, hafter]
  cases behind with
  | nil => rfl
  | cons paren more =>
      dsimp only
      rw [hname]
      rfl

/-- No parenthesis is the second token of a type and a name. -/
theorem kindAt_one_ne : o.kindAt 1 ≠ .symbol .lParen := by
  rw [ho.kindAt_eq]
  rcases T.second_cases x.kind kinds with hkind | hkind | hkind
  · rw [hkind]
    exact ne_of_beq_false rfl
  · rw [hkind]
    exact ne_of_beq_false rfl
  · exact Token.ne_of_holds hkind rfl

end Method

end Grammar.State.Clear

end QoreSyntax
