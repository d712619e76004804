import QoreSyntax.Proofs.Expression.Chain
import QoreSyntax.Proofs.Grammar.Quiet

/-!
Reading expressions where constructs may nest too deeply. An operand beyond the limit is passed over
with all that stands behind it, colons and operators included, as far as the bracket that encloses
it. What encloses it still finds that bracket, and stays silent about all that is missing.
-/

namespace QoreSyntax

open Grammar
open Grammar.Parser (Moves)
open Token (Kind)

namespace Expression

variable {limit power : Nat} {all : List Token} {ks more : List Kind}

theorem endsExpression_of_endsConstruct {kind : Kind} (h : endsConstruct kind = true) :
    kind.endsExpression = true := by
  cases kind with
  | symbol mark =>
      revert h
      cases mark <;> decide
  | _ => cases h

theorem endsExpression_headD (h : BeginsNone more) :
    (more.headD .eof).endsExpression = true := by
  cases more with
  | nil => rfl
  | cons kind rest => exact endsExpression_of_endsConstruct (h kind rfl)

/-- Before an operator that binds less tightly an expression ends. -/
theorem stops_of_left_lt {kind : Kind} {binding : Power} (h : power? kind = some binding)
    (hlt : binding.left < power) : Stops power kind := by
  obtain ⟨hcolon, hsuffix⟩ := beginsSuffix_of_power? h
  refine ⟨hcolon, hsuffix, fun hbinding => ?_⟩
  obtain rfl := Option.some.inj (h.symm.trans hbinding)
  exact hlt

/-- No tail begins with a token before which every expression ends. -/
theorem IsTail.eq_nil (h : IsTail ks) (hstops : Stops 0 ((ks ++ more).headD .eof)) : ks = [] := by
  cases h with
  | nil => rfl
  | member h hrest => cases hstops.beginsSuffix_eq
  | index h hrest => cases hstops.beginsSuffix_eq
  | callEmpty hrest => cases hstops.beginsSuffix_eq
  | call h hrest => cases hstops.beginsSuffix_eq
  | operator h hrest =>
      obtain ⟨level, hlevel⟩ := Option.isSome_iff_exists.mp h
      exact absurd (hstops.left_lt (symbolPower?_of_level hlevel)) (Nat.not_lt_zero _)
  | conditional h hrest => exact absurd (hstops.left_lt rfl) (Nat.not_lt_zero _)

/-- An operand has been read, and what widens it is ahead; or the construct that it belongs to has
been passed over. -/
def Amid (limit : Nat) (all : List Token) (more : List Kind) (s : State) : Prop :=
  (∃ ts, IsTail ts ∧ s.Quiet limit all (ts ++ more)) ∨ s.Muted limit all (afterConstruct 0 more)

/-- An expression has been read whose operators bind at least as tightly as `power`; or the
construct that it belongs to has been passed over. -/
def Behind (limit : Nat) (all : List Token) (power : Nat) (more : List Kind) (s : State) : Prop :=
  (∃ ts, IsTail ts ∧ Stops power ((ts ++ more).headD .eof) ∧ s.Quiet limit all (ts ++ more)) ∨
    s.Muted limit all (afterConstruct 0 more)

theorem Behind.amid {s : State} (h : Behind limit all power more s) : Amid limit all more s :=
  h.imp_left fun ⟨ts, hts, _, hquiet⟩ => ⟨ts, hts, hquiet⟩

/-- Behind an expression with all its operators there is nothing left of it. -/
theorem Behind.cases_zero {s : State} (h : Behind limit all 0 more s) :
    s.Quiet limit all more ∨ s.Muted limit all (afterConstruct 0 more) := by
  refine h.imp_left fun ⟨ts, hts, hstops, hquiet⟩ => ?_
  rwa [hts.eq_nil hstops] at hquiet

theorem Behind.nest {s : State} (h : Behind limit all power more s) (depth : Nat) :
    Behind limit all power more { s with depth := depth } :=
  h.imp (fun ⟨ts, hts, hstops, hquiet⟩ => ⟨ts, hts, hstops, hquiet.nest depth⟩)
    fun hmuted => hmuted.nest depth

/-- The expressions that are called for are read or passed over. Where there is none, nothing is
taken if reports are dropped. -/
structure Orderly (nested : Goal → State → Node × State) (limit : Nat) (all : List Token) :
    Prop where
  onlyTakes : OnlyTakes nested
  quiet (power : Nat) {ks more : List Kind} (h : IsChain ks)
    (hmore : (more.headD .eof).endsExpression = true) :
    Moves nested (State.Quiet limit all (ks ++ more)) (expressionFrom power) (fun _ => True)
      (Behind limit all power more)
  muted (power : Nat) {kinds : List Kind} (h : BeginsNone kinds) :
    Moves nested (State.Muted limit all kinds) (expressionFrom power) (fun _ => True)
      (State.Muted limit all kinds)

/-- Where an operand begins the symbol does not. -/
theorem headD_ne_of_opens (h : ∃ kind rest, ks = kind :: rest ∧ opensOperand kind = true)
    {mark : Symbol} (hmark : opensOperand (.symbol mark) = false) :
    (ks ++ more).headD .eof ≠ .symbol mark := by
  obtain ⟨kind, rest, rfl, hopens⟩ := h
  exact Token.ne_of_holds hopens hmark

theorem isAt_eq_false {kind : Kind} (h : opensOperand kind = true) {mark : Symbol}
    (hmark : opensOperand (.symbol mark) = false) {s : State}
    (hs : s.Quiet limit all (kind :: ks)) : s.isAt mark = false := by
  rw [hs.isAt_eq, beq_eq_false_iff_ne]
  exact Token.ne_of_holds h hmark

section Nested

variable {nested : Goal → State → Node × State} (h : Orderly nested limit all)
include h

/-- An expression in brackets, or before a comma, is read up to there. -/
theorem moves_expression (hchain : IsChain ks) (hmore : BeginsNone more) :
    Moves nested (State.Quiet limit all (ks ++ more)) expression (fun _ => True)
      (State.Quiet limit all more) := by
  refine (h.quiet 0 hchain (endsExpression_headD hmore)).weaken fun s hs => ?_
  rcases hs.cases_zero with hquiet | hmuted
  · exact hquiet
  · rw [hmore.afterConstruct_eq] at hmuted
    exact hmuted.2

/-- The items of a list are read up to what stands behind the last one. -/
theorem moves_separated {L : List Kind → Prop} {stop : State → Bool} {item : Parser Node}
    (hstop : ∀ {ks}, L ks → ∀ o : State, o.Quiet limit all (ks ++ more) → stop o = false)
    (hitem : ∀ {ks}, L ks →
      Moves nested (State.Quiet limit all (ks ++ more)) item (fun _ => True)
        (State.Quiet limit all more) ∨
      ∃ ls, L ls ∧ Moves nested (State.Quiet limit all (ks ++ more)) item (fun _ => True)
        (State.Quiet limit all (.symbol .comma :: (ls ++ more))))
    (hmore : more.headD .eof ≠ .symbol .comma) (hlist : L ks) :
    Moves nested (State.Quiet limit all (ks ++ more)) (separated stop item) (fun _ => True)
      (State.Quiet limit all more) := by
  let Left : State → Prop := fun s => ∃ ks, L ks ∧ s.Quiet limit all (ks ++ more)
  have hstep : ∀ items, Parser.Ensures nested Left (separatedStep stop item items)
      (Step.Keeps Left (State.Quiet limit all more)) := by
    rintro items s ⟨ls, hls, hs⟩
    have hopen : ∀ o : State, o.Quiet limit all (ls ++ more) → ¬stop o = true := by
      intro o ho
      rw [hstop hls o ho]
      exact Bool.false_ne_true
    revert s
    change Parser.Ensures nested (State.Quiet limit all (ls ++ more)) _ _
    rcases hitem hls with hlast | ⟨ms, hms, hnext⟩
    · refine Moves.keeps_done (Moves.look fun o ho => ?_)
      rw [if_neg (hopen o ho)]
      refine hlast.skip fun node => (Moves.eat_miss hmore).bind ?_
      rintro _ rfl
      exact Moves.done ⟨_, rfl⟩
    · refine Moves.keeps_again (Moves.look fun o ho => ?_)
      rw [if_neg (hopen o ho)]
      refine (hnext.skip fun node => (Moves.eat .comma).bind ?_).weaken
        fun s hs => ⟨ms, hms, hs⟩
      rintro _ rfl
      exact Moves.done ⟨_, rfl⟩
  have hloop : Moves nested Left (loop (separatedStep stop item) []) (fun _ => True)
      (State.Quiet limit all more) :=
    Moves.loop (Parser.shrinks_separatedStep h.onlyTakes stop item) h.onlyTakes
      (fun _ hs => hs.choose_spec.2.isEof_final) hstep []
  refine Moves.skip (hloop.strengthen fun s hs => ⟨ks, hlist, hs⟩) fun _ => ?_
  exact Moves.done trivial

/-- Where the list ends there is no item. -/
theorem moves_separated_nil {stop : State → Bool} {item : Parser Node}
    (hstop : ∀ o : State, o.Quiet limit all more → stop o = true) :
    Moves nested (State.Quiet limit all more) (separated stop item) (fun _ => True)
      (State.Quiet limit all more) := by
  have hstep : ∀ items, Parser.Ensures nested (State.Quiet limit all more)
      (separatedStep stop item items)
      (Step.Keeps (State.Quiet limit all more) (State.Quiet limit all more)) := by
    intro items
    refine Moves.keeps_done (Moves.look fun o ho => ?_)
    rw [if_pos (hstop o ho)]
    exact Moves.done ⟨_, rfl⟩
  refine Moves.skip (Moves.loop (Parser.shrinks_separatedStep h.onlyTakes stop item) h.onlyTakes
    (fun _ hs => hs.isEof_final) hstep []) fun _ => Moves.done trivial

/-- Items are read up to what stands behind the last one. -/
theorem moves_items {stop : State → Bool}
    (hstop : ∀ {kind rest}, opensOperand kind = true →
      ∀ o : State, o.Quiet limit all (kind :: rest) → stop o = false)
    (hmore : BeginsNone more) (hcomma : more.headD .eof ≠ .symbol .comma) (hitems : IsItems ks) :
    Moves nested (State.Quiet limit all (ks ++ more)) (separated stop expression) (fun _ => True)
      (State.Quiet limit all more) := by
  refine moves_separated h (L := IsItems) ?_ ?_ hcomma hitems
  · intro ks hks o ho
    obtain ⟨kind, rest, rfl, hopens⟩ := hks.exists_cons
    exact hstop hopens o ho
  · intro ks hks
    cases hks with
    | single hchain => exact Or.inl (moves_expression h hchain hmore)
    | cons hchain hrest =>
        refine Or.inr ⟨_, hrest, ?_⟩
        rw [List.append_assoc]
        exact moves_expression h hchain (beginsNone_cons rfl _)

/-- Behind the key of an entry stands the colon, unless the entry has been passed over with it. -/
theorem moves_key {ls : List Kind} (hkey : IsChain ks) (hvalue : IsChain ls)
    (hmore : BeginsNone more) :
    Moves nested (State.Quiet limit all (ks ++ .symbol .colon :: (ls ++ more))) expression
      (fun _ => True) fun s => s.Quiet limit all (.symbol .colon :: (ls ++ more)) ∨
        s.Muted limit all more := by
  refine (h.quiet 0 hkey rfl).weaken fun s hs => ?_
  have hpassed : afterConstruct 0 (.symbol .colon :: (ls ++ more)) = more :=
    (hvalue.isPassed 0 more).trans hmore.afterConstruct_eq
  have hcases := hs.cases_zero
  rwa [hpassed] at hcases

theorem moves_hashEntry {ls : List Kind} (m : Mark) (key : Node) (hvalue : IsChain ls)
    (hmore : BeginsNone more) :
    Moves nested (fun s => s.Quiet limit all (.symbol .colon :: (ls ++ more)) ∨
        s.Muted limit all more) (hashEntry m key) (fun _ => True)
      (State.Quiet limit all more) := by
  apply Moves.or
  · refine (Moves.expect rfl).skip fun _ => ?_
    refine (moves_expression h hvalue hmore).skip fun _ => ?_
    exact Moves.close _ _ _ _
  · refine (Moves.muted_expect_miss (hmore.headD_ne rfl nofun)).skip fun _ => ?_
    refine (h.muted 0 hmore).skip fun _ => ?_
    exact (Moves.close _ _ _ _).weaken fun _ hs => hs.2

theorem moves_keyAndValue {ls : List Kind} (hkey : IsChain ks) (hvalue : IsChain ls)
    (hmore : BeginsNone more) :
    Moves nested (State.Quiet limit all (ks ++ .symbol .colon :: (ls ++ more))) keyAndValue
      (fun _ => True) (State.Quiet limit all more) := by
  refine Moves.mark.skip fun m => ?_
  exact (moves_key h hkey hvalue hmore).skip fun key => moves_hashEntry h m key hvalue hmore

/-- The entries of a hash are read up to the brace behind them. -/
theorem moves_entries (hentries : IsEntries ks) :
    Moves nested (State.Quiet limit all (ks ++ .symbol .rBrace :: more))
      (separated (·.isAt .rBrace) keyAndValue) (fun _ => True)
      (State.Quiet limit all (.symbol .rBrace :: more)) := by
  have hcomma : (Kind.symbol .rBrace :: more).headD .eof ≠ .symbol .comma := nofun
  refine moves_separated h (L := IsEntries) ?_ ?_ hcomma hentries
  · intro ks hks o ho
    obtain ⟨kind, rest, rfl, hopens⟩ := hks.exists_cons
    exact isAt_eq_false hopens rfl ho
  · intro ks hks
    cases hks with
    | single hkey hvalue =>
        left
        rw [List.append_assoc]
        exact moves_keyAndValue h hkey hvalue (beginsNone_cons rfl _)
    | cons hkey hvalue hrest =>
        refine Or.inr ⟨_, hrest, ?_⟩
        rw [List.append_assoc, List.cons_append, List.append_assoc]
        exact moves_keyAndValue h hkey hvalue (beginsNone_cons rfl _)

theorem moves_braceHash (hentries : IsEntries ks) :
    Moves nested (State.Quiet limit all (.symbol .lBrace :: (ks ++ .symbol .rBrace :: more)))
      braceHash (fun _ => True) (State.Quiet limit all more) := by
  have hclose : ∀ (m : Mark) (entries : List Node),
      Moves nested (State.Quiet limit all (.symbol .rBrace :: more))
        (expectClosing .rBrace >>= fun _ => close m .hashLiteral .none entries)
        (fun _ => True) (State.Quiet limit all more) := fun m entries =>
    (Moves.expectClosing .rBrace).skip fun _ => Moves.close _ _ _ _
  have hne : (ks ++ .symbol .rBrace :: more).headD .eof ≠ .symbol .rBrace :=
    headD_ne_of_opens hentries.exists_cons rfl
  refine Moves.mark.skip fun m => Moves.advance.skip fun _ => (Moves.eat_miss hne).bind ?_
  rintro _ rfl
  refine Moves.mark.skip fun first => ?_
  cases hentries with
  | single hkey hvalue =>
      rw [List.append_assoc]
      refine (moves_key h hkey hvalue (beginsNone_cons rfl more)).skip fun key => ?_
      refine (moves_hashEntry h first key hvalue (beginsNone_cons rfl more)).skip fun entry => ?_
      refine (Moves.eat_miss (by simp)).bind ?_
      rintro _ rfl
      exact hclose m [entry]
  | cons hkey hvalue hrest =>
      rw [List.append_assoc, List.cons_append, List.append_assoc]
      refine (moves_key h hkey hvalue (beginsNone_cons rfl _)).skip fun key => ?_
      refine (moves_hashEntry h first key hvalue (beginsNone_cons rfl _)).skip fun entry => ?_
      refine (Moves.eat .comma).bind ?_
      rintro _ rfl
      exact (moves_entries h hrest).skip fun rest => hclose m (entry :: rest)

theorem moves_parenthesised (hchain : IsChain ks) :
    Moves nested (State.Quiet limit all (.symbol .lParen :: (ks ++ .symbol .rParen :: more)))
      parenthesised (fun _ => True) (State.Quiet limit all more) := by
  have hne : (ks ++ .symbol .rParen :: more).headD .eof ≠ .symbol .rParen :=
    headD_ne_of_opens hchain.exists_cons rfl
  refine Moves.mark.skip fun m => Moves.advance.skip fun _ => (Moves.eat_miss hne).bind ?_
  rintro _ rfl
  refine Moves.mark.skip fun start => ?_
  refine (moves_expression h hchain (beginsNone_cons rfl _)).skip fun first => ?_
  refine Moves.look_cons fun o ho => ?_
  rw [State.isAt, State.isAt, ho]
  exact (Moves.expect rfl).skip fun _ => Moves.close _ _ _ _

theorem moves_parenthesised_list {ls : List Kind} (hchain : IsChain ks) (hitems : IsItems ls) :
    Moves nested (State.Quiet limit all
        (.symbol .lParen :: (ks ++ .symbol .comma :: (ls ++ .symbol .rParen :: more))))
      parenthesised (fun _ => True) (State.Quiet limit all more) := by
  have hne : (ks ++ .symbol .comma :: (ls ++ .symbol .rParen :: more)).headD .eof
      ≠ .symbol .rParen :=
    headD_ne_of_opens hchain.exists_cons rfl
  refine Moves.mark.skip fun m => Moves.advance.skip fun _ => (Moves.eat_miss hne).bind ?_
  rintro _ rfl
  refine Moves.mark.skip fun start => ?_
  refine (moves_expression h hchain (beginsNone_cons rfl _)).skip fun first => ?_
  refine Moves.look_cons fun o ho => ?_
  rw [State.isAt, State.isAt, ho]
  refine Moves.advance.skip fun _ => ?_
  have hlist : Moves nested (State.Quiet limit all (ls ++ .symbol .rParen :: more))
      (separated (·.isAt .rParen) expression) (fun _ => True)
      (State.Quiet limit all (.symbol .rParen :: more)) :=
    moves_items h (fun hopens _ => isAt_eq_false hopens rfl) (beginsNone_cons rfl more) (by simp)
      hitems
  refine hlist.skip fun rest => ?_
  exact (Moves.expectClosing .rParen).skip fun _ => Moves.close _ _ _ _

theorem moves_scopes (parts : List Identifier) (hmore : more.headD .eof ≠ .symbol .doubleColon)
    (text : String) :
    Moves nested (State.Quiet limit all (ScopedName.scopeKinds parts ++ more))
      (loop scopeStep text) (fun _ => True) (State.Quiet limit all more) := by
  let Left : State → Prop := fun s =>
    ∃ parts, s.Quiet limit all (ScopedName.scopeKinds parts ++ more)
  have hstep : ∀ text, Parser.Ensures nested Left (scopeStep text)
      (Step.Keeps Left (State.Quiet limit all more)) := by
    rintro text s ⟨parts, hs⟩
    revert s
    change Parser.Ensures nested (State.Quiet limit all (ScopedName.scopeKinds parts ++ more)) _ _
    cases parts with
    | nil =>
        refine Moves.keeps_done (Moves.look fun o ho => ?_)
        split
        · rename_i hcolon _
          exact absurd (ho.kind_eq.symm.trans hcolon) hmore
        · exact Moves.done ⟨_, rfl⟩
    | cons part parts =>
        have hbefore : ScopedName.scopeKinds (part :: parts) ++ more
            = .symbol .doubleColon :: part.kind :: (ScopedName.scopeKinds parts ++ more) := rfl
        rw [hbefore]
        refine Moves.keeps_again (Moves.weaken (Q := State.Quiet limit all
          (ScopedName.scopeKinds parts ++ more)) ?_ fun s hs => ⟨parts, hs⟩)
        refine Moves.look fun o ho => ?_
        rw [ho.kind_eq, ho.kindAt_eq]
        exact Moves.advance.skip fun _ => Moves.advance.skip fun _ => Moves.done ⟨_, rfl⟩
  have hloop : Moves nested Left (loop scopeStep text) (fun _ => True)
      (State.Quiet limit all more) :=
    Moves.loop (Parser.shrinks_scopeStep h.onlyTakes) h.onlyTakes
      (fun _ hs => hs.choose_spec.isEof_final) hstep text
  exact hloop.strengthen fun s hs => ⟨parts, hs⟩

theorem moves_nameOperand (path : ScopedName) (hmore : more.headD .eof ≠ .symbol .doubleColon) :
    Moves nested (State.Quiet limit all (path.kinds ++ more)) nameOperand (fun _ => True)
      (State.Quiet limit all more) := by
  obtain ⟨isRooted, first, rest⟩ := path
  have hfirst : ∀ isRooted : Bool, Moves nested
      (State.Quiet limit all (first.kind :: (ScopedName.scopeKinds rest ++ more)))
      (optionalIdentifier >>= fun name =>
        loop scopeStep ((if isRooted then "::" else "") ++ name))
      (fun _ => True) (State.Quiet limit all more) := by
    intro isRooted
    refine Moves.bind (p := fun _ => True) (Q := State.Quiet limit all
      (ScopedName.scopeKinds rest ++ more)) ?_ fun name _ => moves_scopes h rest hmore _
    refine Moves.look_cons fun o ho => ?_
    rw [ho]
    exact Moves.advance.skip fun _ => Moves.done trivial
  refine Moves.mark.skip fun m => Moves.skip (Q := State.Quiet limit all more)
    (p := fun _ => True) ?_ fun name => Moves.close _ _ _ _
  cases isRooted with
  | true =>
      refine (Moves.eat .doubleColon).bind ?_
      rintro _ rfl
      exact hfirst true
  | false =>
      have hne : (first.kind :: (ScopedName.scopeKinds rest ++ more)).headD .eof
          ≠ .symbol .doubleColon := nofun
      refine (Moves.eat_miss hne).bind ?_
      rintro _ rfl
      exact hfirst false

omit h in
/-- What begins with no operator is an operand. -/
theorem moves_prefixed_of_none {kind : Kind} {Q : State → Prop} (hnone : prefixNode? kind = none)
    (hoperand : Moves nested (State.Quiet limit all (kind :: ks)) operand (fun _ => True) Q) :
    Moves nested (State.Quiet limit all (kind :: ks)) prefixed (fun _ => True) Q := by
  refine Moves.look_cons fun o ho => ?_
  rw [ho, hnone]
  exact hoperand

/-- An operand is read up to what widens it. -/
theorem moves_operand (hoperand : IsOperand ks) (hmore : more.headD .eof ≠ .symbol .doubleColon) :
    Moves nested (State.Quiet limit all (ks ++ more)) prefixed (fun _ => True)
      (State.Quiet limit all more) := by
  cases hoperand with
  | name path =>
      have hname := moves_nameOperand h path hmore
      obtain ⟨isRooted, first, rest⟩ := path
      cases isRooted
      all_goals
        refine moves_prefixed_of_none rfl (Moves.look_cons fun o ho => ?_)
        rw [ho]
        exact hname
  | integer value =>
      refine moves_prefixed_of_none rfl (Moves.look_cons fun o ho => ?_)
      rw [ho]
      exact Moves.mark.skip fun m => Moves.advance.skip fun _ => Moves.close _ _ _ _
  | paren hchain =>
      rw [List.cons_append, List.append_assoc]
      refine moves_prefixed_of_none rfl (Moves.look_cons fun o ho => ?_)
      rw [ho]
      exact moves_parenthesised h hchain
  | list hchain hitems =>
      rw [List.cons_append, List.append_assoc, List.cons_append, List.append_assoc]
      refine moves_prefixed_of_none rfl (Moves.look_cons fun o ho => ?_)
      rw [ho]
      exact moves_parenthesised_list h hchain hitems
  | hash hentries =>
      rw [List.cons_append, List.append_assoc]
      refine moves_prefixed_of_none rfl (Moves.look_cons fun o ho => ?_)
      rw [ho]
      exact moves_braceHash h hentries

omit h in
/-- No name goes on with what stands behind an operand. -/
theorem headD_ne_doubleColon {ts : List Kind} (hts : IsTail ts)
    (hmore : (more.headD .eof).endsExpression = true) :
    (ts ++ more).headD .eof ≠ .symbol .doubleColon := by
  cases hts with
  | nil => exact (stops_of_endsExpression hmore 0).ne_doubleColon
  | operator hlevel hrest =>
      rintro ⟨⟩
      cases hlevel
  | _ => exact nofun

theorem moves_prefixed (hchain : IsChain ks) (hmore : (more.headD .eof).endsExpression = true) :
    Moves nested (State.Quiet limit all (ks ++ more)) prefixed (fun _ => True)
      (Amid limit all more) := by
  cases hchain with
  | @leading mark _ hprefix hrest =>
      refine Moves.look_cons fun o ho => ?_
      rw [ho, prefixNode?, hprefix, if_pos rfl]
      refine Moves.mark.skip fun m => Moves.advance.skip fun _ => ?_
      refine (h.quiet prefixPower hrest hmore).skip fun inner => ?_
      exact (Moves.close _ _ _ _).strengthen fun _ => Behind.amid
  | operand hoperand hrest =>
      rw [List.append_assoc]
      refine (moves_operand h hoperand (headD_ne_doubleColon hrest hmore)).weaken ?_
      exact fun s hs => Or.inl ⟨_, hrest, hs⟩

omit h in
theorem moves_memberSuffix (m : Mark) (object : Node) {title : Kind}
    (htitle : namesMember title = true) :
    Moves nested (State.Quiet limit all (.symbol .dot :: title :: more)) (memberSuffix m object)
      (fun _ => True) (State.Quiet limit all more) := by
  refine Moves.advance.skip fun _ => Moves.skip (Q := State.Quiet limit all more)
    (p := fun _ => True) ?_ fun name => Moves.close _ _ _ _
  refine Moves.look_cons fun o ho => ?_
  rw [ho]
  cases title with
  | identifier name => exact Moves.advance.skip fun _ => Moves.done trivial
  | keyword word => exact Moves.advance.skip fun _ => Moves.done trivial
  | _ => cases htitle

theorem moves_indexSuffix (m : Mark) (object : Node) (hchain : IsChain ks) :
    Moves nested (State.Quiet limit all (.symbol .lBracket :: (ks ++ .symbol .rBracket :: more)))
      (indexSuffix m object) (fun _ => True) (State.Quiet limit all more) := by
  refine Moves.advance.skip fun _ => ?_
  refine (moves_expression h hchain (beginsNone_cons rfl _)).skip fun index => ?_
  exact (Moves.expect rfl).skip fun _ => Moves.close _ _ _ _

theorem moves_callSuffix (m : Mark) (function : Node) (hitems : ks = [] ∨ IsItems ks) :
    Moves nested (State.Quiet limit all (.symbol .lParen :: (ks ++ .symbol .rParen :: more)))
      (callSuffix m function) (fun _ => True) (State.Quiet limit all more) := by
  refine Moves.skip (Q := State.Quiet limit all more) (p := fun _ => True) ?_ fun values =>
    Moves.close _ _ _ _
  refine Moves.mark.skip fun m => (Moves.expect rfl).bind ?_
  rintro _ rfl
  refine Moves.skip (Q := State.Quiet limit all (.symbol .rParen :: more)) (p := fun _ => True)
    ?_ fun items => (Moves.expectClosing .rParen).skip fun _ => Moves.close _ _ _ _
  rcases hitems with rfl | hitems
  · refine moves_separated_nil h fun o ho => ?_
    rw [ho.isAt_eq]
    rfl
  · refine moves_items h (fun hopens o ho => ?_) (beginsNone_cons rfl more) (by simp) hitems
    rw [isAt_eq_false hopens rfl ho, ho.isAtEnd_eq]
    rfl

theorem moves_rightOperand (m : Mark) (left : Node) {mark : Symbol} {level : Nat}
    (hlevel : mark.level? = some level) (hchain : IsChain ks)
    (hmore : (more.headD .eof).endsExpression = true) :
    Moves nested (State.Quiet limit all (.symbol mark :: (ks ++ more))) (rightOperand m left power)
      (fun _ => True) (Amid limit all more) := by
  refine Moves.advance.bind fun token htoken => ?_
  rw [htoken]
  split
  · rename_i hquestion
    obtain rfl : mark = .question := Kind.symbol.inj hquestion
    cases hlevel
  · refine (h.quiet power hchain hmore).skip fun right => ?_
    exact (Moves.close _ _ _ _).strengthen fun _ => Behind.amid
  · rename_i hother
    exact absurd rfl (hother mark)

/-- Where the middle operand is passed over, the colon and the last operand are so as well. -/
theorem moves_conditional (m : Mark) (left : Node) {ls : List Kind} (hchain : IsChain ks)
    (hlast : IsChain ls) (hmore : (more.headD .eof).endsExpression = true) :
    Moves nested
      (State.Quiet limit all (.symbol .question :: (ks ++ .symbol .colon :: (ls ++ more))))
      (rightOperand m left power) (fun _ => True) (Amid limit all more) := by
  refine Moves.advance.bind fun token htoken => ?_
  rw [htoken]
  have hpassed : afterConstruct 0 (.symbol .colon :: (ls ++ more)) = afterConstruct 0 more :=
    hlast.isPassed 0 more
  have hmiddle : Moves nested (State.Quiet limit all (ks ++ .symbol .colon :: (ls ++ more)))
      expression (fun _ => True) fun s => s.Quiet limit all (.symbol .colon :: (ls ++ more)) ∨
        s.Muted limit all (afterConstruct 0 more) := by
    refine (h.quiet 0 hchain rfl).weaken fun s hs => ?_
    have hcases := hs.cases_zero
    rwa [hpassed] at hcases
  refine hmiddle.skip fun middle => Moves.or ?_ ?_
  · refine (Moves.expect rfl).skip fun _ => (h.quiet power hlast hmore).skip fun right => ?_
    exact (Moves.close _ _ _ _).strengthen fun _ => Behind.amid
  · have hnone := beginsNone_afterConstruct 0 more
    refine (Moves.muted_expect_miss (hnone.headD_ne rfl nofun)).skip fun _ => ?_
    refine (h.muted power hnone).skip fun right => ?_
    exact (Moves.close _ _ _ _).weaken fun _ hs => Or.inr hs

omit h in
/-- Before a token that ends every expression a step widens the operand no more. -/
theorem moves_expressionStep_ends {P : State → Prop} {kinds : List Kind} (m : Mark) (left : Node)
    (hquiet : ∀ s, P s → s.Quiet limit all kinds)
    (hends : Stops power (kinds.headD .eof)) :
    Moves nested P (expressionStep m power left) (fun result => ∃ last, result = .done last) P := by
  refine Moves.look fun o ho => ?_
  have hkind : o.current.kind = kinds.headD .eof := (hquiet o ho).kind_eq
  dsimp only
  rw [suffix?_eq_none (hkind ▸ hends.beginsSuffix_eq), hkind]
  cases hbinding : power? (kinds.headD .eof) with
  | none => exact Moves.done ⟨_, rfl⟩
  | some binding =>
      dsimp only
      rw [if_pos (hends.left_lt hbinding)]
      exact Moves.done ⟨_, rfl⟩

omit h in
theorem moves_expressionStep_suffix {kind : Kind} {Q : State → Prop} (m : Mark) (left : Node)
    {suffix : Parser Node}
    (hsuffix : ∀ token : Token, token.kind = kind → suffix? m left token = some suffix)
    (hmoves : Moves nested (State.Quiet limit all (kind :: ks)) suffix (fun _ => True) Q) :
    Moves nested (State.Quiet limit all (kind :: ks)) (expressionStep m power left)
      (fun result => ∃ next, result = .again next) Q := by
  refine Moves.look_cons fun o ho => ?_
  dsimp only
  rw [hsuffix o.current ho]
  exact hmoves.skip fun node => Moves.done ⟨_, rfl⟩

omit h in
theorem moves_expressionStep_operator {kind : Kind} {Q : State → Prop} (m : Mark) (left : Node)
    {binding : Power} (hbinding : power? kind = some binding) (hpower : power ≤ binding.left)
    (hmoves : Moves nested (State.Quiet limit all (kind :: ks)) (rightOperand m left binding.right)
      (fun _ => True) Q) :
    Moves nested (State.Quiet limit all (kind :: ks)) (expressionStep m power left)
      (fun result => ∃ next, result = .again next) Q := by
  refine Moves.look_cons fun o (ho : o.current.kind = kind) => ?_
  dsimp only
  rw [suffix?_eq_none (ho ▸ (beginsSuffix_of_power? hbinding).2), ho, hbinding]
  dsimp only
  rw [if_neg (Nat.not_lt.mpr hpower)]
  exact hmoves.skip fun node => Moves.done ⟨_, rfl⟩

/-- Whatever widens an operand, a step takes the whole of it, or leaves what binds less tightly. -/
theorem keeps_expressionStep_tail (m : Mark) (left : Node) {ts : List Kind} (hts : IsTail ts)
    (hmore : (more.headD .eof).endsExpression = true) :
    Parser.Ensures nested (State.Quiet limit all (ts ++ more)) (expressionStep m power left)
      (Step.Keeps (Amid limit all more) (Behind limit all power more)) := by
  have hrest : ∀ {ts}, IsTail ts → ∀ s : State, s.Quiet limit all (ts ++ more) →
      Amid limit all more s := fun hts s hs => Or.inl ⟨_, hts, hs⟩
  have hstays : Stops power ((ts ++ more).headD .eof) →
      Parser.Ensures nested (State.Quiet limit all (ts ++ more)) (expressionStep m power left)
        (Step.Keeps (Amid limit all more) (Behind limit all power more)) := by
    intro hstops
    refine Moves.keeps_done ((moves_expressionStep_ends m left (fun _ => id) hstops).weaken
      fun s hs => ?_)
    exact Or.inl ⟨ts, hts, hstops, hs⟩
  cases hts with
  | nil => exact hstays (stops_of_endsExpression hmore power)
  | member htitle htail =>
      refine Moves.keeps_again (moves_expressionStep_suffix m left
        (fun token hkind => by rw [suffix?, hkind]) ?_)
      exact (moves_memberSuffix m left htitle).weaken (hrest htail)
  | index hchain htail =>
      rw [List.cons_append, List.append_assoc]
      refine Moves.keeps_again (moves_expressionStep_suffix m left
        (fun token hkind => by rw [suffix?, hkind]) ?_)
      exact (moves_indexSuffix h m left hchain).weaken (hrest htail)
  | callEmpty htail =>
      refine Moves.keeps_again (moves_expressionStep_suffix m left
        (fun token hkind => by rw [suffix?, hkind]) ?_)
      exact (moves_callSuffix h m left (Or.inl rfl)).weaken (hrest htail)
  | call hitems htail =>
      rw [List.cons_append, List.append_assoc]
      refine Moves.keeps_again (moves_expressionStep_suffix m left
        (fun token hkind => by rw [suffix?, hkind]) ?_)
      exact (moves_callSuffix h m left (Or.inr hitems)).weaken (hrest htail)
  | operator hoperator hchain =>
      obtain ⟨level, hlevel⟩ := Option.isSome_iff_exists.mp hoperator
      have hbinding : power? (.symbol _) = some ⟨leftPower level, rightPower level⟩ :=
        symbolPower?_of_level hlevel
      by_cases hpower : power ≤ leftPower level
      · exact Moves.keeps_again (moves_expressionStep_operator m left hbinding hpower
          (moves_rightOperand h m left hlevel hchain hmore))
      · exact hstays (stops_of_left_lt hbinding (Nat.lt_of_not_le hpower))
  | conditional hchain hlast =>
      have hbinding : power? (.symbol .question) = some ⟨4, 3⟩ := rfl
      by_cases hpower : power ≤ 4
      · rw [List.cons_append, List.append_assoc]
        exact Moves.keeps_again (moves_expressionStep_operator m left hbinding hpower
          (moves_conditional h m left hchain hlast hmore))
      · exact hstays (stops_of_left_lt hbinding (Nat.lt_of_not_le hpower))

/-- An operand is widened until what is left binds less tightly, or is passed over. -/
theorem moves_widen (m : Mark) (left : Node) (hmore : (more.headD .eof).endsExpression = true) :
    Moves nested (Amid limit all more) (loop (expressionStep m power) left) (fun _ => True)
      (Behind limit all power more) := by
  have hstep : ∀ left, Parser.Ensures nested (Amid limit all more) (expressionStep m power left)
      (Step.Keeps (Amid limit all more) (Behind limit all power more)) := by
    rintro left s (⟨ts, hts, hs⟩ | hs)
    · exact keeps_expressionStep_tail h m left hts hmore s hs
    · have hends := endsExpression_headD (beginsNone_afterConstruct 0 more)
      refine Moves.keeps_done ((moves_expressionStep_ends m left (fun _ hs => hs.2)
        (stops_of_endsExpression hends power)).weaken fun _ => Or.inr) s hs
  refine Moves.loop (Parser.shrinks_expressionStep h.onlyTakes m power) h.onlyTakes ?_ hstep left
  rintro s (⟨ts, -, hs⟩ | hs)
  · exact hs.isEof_final
  · exact hs.2.isEof_final

theorem moves_expressionRule (power : Nat) (hchain : IsChain ks)
    (hmore : (more.headD .eof).endsExpression = true) :
    Moves nested (State.Quiet limit all (ks ++ more)) (expressionRule power) (fun _ => True)
      (Behind limit all power more) := by
  refine Moves.mark.skip fun m => ?_
  exact (moves_prefixed h hchain hmore).skip fun first => moves_widen h m first hmore

omit h in
/-- Where no operand begins nothing is taken, and no report is made if reports are dropped. -/
theorem muted_prefixed {kinds : List Kind} (hnone : BeginsNone kinds) :
    Moves nested (State.Muted limit all kinds) prefixed (fun _ => True)
      (State.Muted limit all kinds) := by
  have hmissing : Moves nested (State.Muted limit all kinds) missingExpression (fun _ => True)
      (State.Muted limit all kinds) := by
    refine (Moves.reportExpected _).skip fun _ => ?_
    exact fun _ hs => ⟨trivial, hs⟩
  refine Moves.look fun o ho => ?_
  have hkind := ho.2.kind_eq
  rw [hkind]
  cases kinds with
  | nil =>
      refine Moves.look fun o ho => ?_
      rw [ho.2.kind_eq]
      exact hmissing
  | cons kind rest =>
      have hends := hnone kind rfl
      rw [List.headD_cons]
      cases kind with
      | symbol mark =>
          cases mark <;> first
            | exact Bool.noConfusion hends
            | refine Moves.look fun o ho => ?_
              rw [ho.2.kind_eq]
              exact hmissing
      | _ => cases hends

omit h in
/-- Where no expression begins nothing is taken, and no report is made if reports are dropped. -/
theorem muted_expressionRule (power : Nat) (honly : OnlyTakes nested) {kinds : List Kind}
    (hnone : BeginsNone kinds) :
    Moves nested (State.Muted limit all kinds) (expressionRule power) (fun _ => True)
      (State.Muted limit all kinds) := by
  have hends := endsExpression_headD hnone
  refine Moves.mark.skip fun m => (muted_prefixed hnone).skip fun first => ?_
  · have hstep : ∀ left, Parser.Ensures nested (State.Muted limit all kinds)
        (expressionStep m power left)
        (Step.Keeps (State.Muted limit all kinds) (State.Muted limit all kinds)) :=
      fun left => Moves.keeps_done (moves_expressionStep_ends m left (fun _ hs => hs.2)
        (stops_of_endsExpression hends power))
    exact Moves.loop (Parser.shrinks_expressionStep honly m power) honly
      (fun _ hs => hs.2.isEof_final) hstep first

end Nested

/-- However deeply constructs may nest, the expressions that are called for are read or passed
over. -/
theorem orderly_parse (limit room : Nat) (all : List Token) :
    Orderly (Grammar.parse limit room) limit all := by
  have hrefused : ∀ {ks more : List Kind}, IsChain ks → ∀ s : State,
      s.Quiet limit all (ks ++ more) →
        (s.refuse limit).2.Muted limit all (afterConstruct 0 more) := by
    intro ks more hchain s hs
    have hmuted := hs.refuse
    rwa [hchain.isPassed 0 more] at hmuted
  have hnothing : ∀ {kinds : List Kind}, BeginsNone kinds → ∀ s : State,
      s.Muted limit all kinds → (s.refuse limit).2.Muted limit all kinds := by
    intro kinds hnone s hs
    have hmuted := hs.2.refuse
    rwa [hnone.afterConstruct_eq] at hmuted
  induction room with
  | zero =>
      refine ⟨onlyTakes_parse limit 0, ?_, ?_⟩
      · exact fun power ks more hchain _ s hs => ⟨trivial, Or.inr (hrefused hchain s hs)⟩
      · exact fun power kinds hnone s hs => ⟨trivial, hnothing hnone s hs⟩
  | succ room ih =>
      refine ⟨onlyTakes_parse limit (room + 1), ?_, ?_⟩
      · intro power ks more hchain hmore s hs
        refine ⟨trivial, ?_⟩
        change Behind limit all power more (Grammar.parse limit (room + 1) (.expression power) s).2
        rw [Grammar.parse]
        split_ifs
        · exact Or.inr (hrefused hchain s hs)
        · have hrule := moves_expressionRule ih power hchain hmore _ (hs.nest (s.depth + 1))
          exact hrule.2.nest _
      · intro power kinds hnone s hs
        refine ⟨trivial, ?_⟩
        change (Grammar.parse limit (room + 1) (.expression power) s).2.Muted limit all kinds
        rw [Grammar.parse]
        split_ifs
        · exact hnothing hnone s hs
        · have hrule := muted_expressionRule power (onlyTakes_parse limit room) hnone _
            (hs.nest (s.depth + 1))
          exact hrule.2.nest _

end Expression

end QoreSyntax
