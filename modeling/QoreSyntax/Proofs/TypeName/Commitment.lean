import QoreSyntax.Proofs.Grammar.Leading
import QoreSyntax.Proofs.TypeName.RoundTrip

/-!
To tell a declaration from an expression a parser counts brackets only. If what is in the brackets
is a list of types, the type that is called for then takes just the tokens that have been passed
over.
-/

namespace QoreSyntax

open Grammar
open Token (Kind halved)

theorem Token.isGenuine_of_mem_halved {tokens : List Token}
    (h : ∀ t ∈ tokens, t.kind.IsGenuine) : ∀ t ∈ halved tokens, t.kind.IsGenuine := by
  intro t hmem
  obtain ⟨u, hu, hhalf⟩ := List.mem_flatMap.mp hmem
  rw [halves] at hhalf
  split_ifs at hhalf
  · rcases List.mem_cons.mp hhalf with rfl | hhalf
    · trivial
    · obtain rfl := List.mem_singleton.mp hhalf
      trivial
  · obtain rfl := List.mem_singleton.mp hhalf
    exact h t hu

namespace TypeName

theorem exists_scopes {tokens : List Token} (hgenuine : ∀ t ∈ tokens, t.kind.IsGenuine) :
    ∃ parts : List Identifier, tokens.map Token.kind
      = ScopedName.scopeKinds parts ++ (afterScopes tokens).map Token.kind := by
  induction tokens using afterScopes.induct with
  | case1 colons name rest hscope ih =>
      obtain ⟨-, hname, hrest⟩ := by
        simpa only [List.forall_mem_cons] using hgenuine
      obtain ⟨hcolons, hidentifier⟩ := Bool.and_eq_true_iff.mp hscope
      obtain ⟨x, hx⟩ := exists_identifier hname hidentifier
      obtain ⟨parts, hparts⟩ := ih hrest
      refine ⟨x :: parts, ?_⟩
      rw [afterScopes, if_pos hscope, List.map_cons, List.map_cons, hparts, hx, eq_of_beq hcolons]
      rfl
  | case2 colons name rest hscope =>
      have hnot : goOnWithScope (colons :: name :: rest) = false := Bool.eq_false_iff.mpr hscope
      exact ⟨[], by rw [afterScopes_of_not_goOn hnot]; rfl⟩
  | case3 tokens hshort =>
      have hnot : goOnWithScope tokens = false := by
        rcases tokens with - | ⟨colons, - | ⟨name, rest⟩⟩
        · rfl
        · rfl
        · exact absurd rfl (hshort colons name rest)
      exact ⟨[], by rw [afterScopes_of_not_goOn hnot]; rfl⟩

/-- No scope stands behind a built-in type. -/
def BuiltinsStandAlone (kinds : List Kind) : Prop :=
  kinds.IsChain fun kind next => isBuiltinType kind = true → next ≠ .symbol .doubleColon

/-- What is passed over as the name of a type is one, or a built-in type with a scope behind it. -/
theorem exists_head {tokens left : List Token} (hgenuine : ∀ t ∈ tokens, t.kind.IsGenuine)
    (h : afterTypeName? tokens = some left) :
    ∃ passed : List Kind, tokens.map Token.kind = passed ++ left.map Token.kind ∧
      (BuiltinsStandAlone passed → ∃ head : TypeHead, passed = head.kinds) := by
  rcases tokens with - | ⟨t, rest⟩
  · cases h
  · obtain ⟨hfirst, hrest⟩ := List.forall_mem_cons.mp hgenuine
    rw [afterTypeName?.eq_def] at h
    dsimp only at h
    split_ifs at h with hname hcolons
    · obtain rfl := Option.some.inj h
      obtain ⟨parts, hparts⟩ := exists_scopes hrest
      refine ⟨t.kind :: ScopedName.scopeKinds parts, congrArg (t.kind :: ·) hparts,
        fun halone => ?_⟩
      rcases Bool.or_eq_true_iff.mp hname with hidentifier | hword
      · obtain ⟨x, hx⟩ := exists_identifier hfirst hidentifier
        exact ⟨.named ⟨false, x, parts⟩, hx ▸ rfl⟩
      · cases parts with
        | nil =>
            cases hkind : t.kind with
            | keyword word =>
                rw [hkind] at hword
                exact ⟨.builtin word hword, rfl⟩
            | _ =>
                rw [hkind] at hword
                cases hword
        | cons part parts => exact absurd rfl ((List.isChain_cons_cons.mp halone).1 hword)
    · rcases rest with - | ⟨name, rest⟩
      · cases h
      · dsimp only at h
        split_ifs at h with hidentifier
        obtain rfl := Option.some.inj h
        obtain ⟨hpart, hothers⟩ := List.forall_mem_cons.mp hrest
        obtain ⟨x, hx⟩ := exists_identifier hpart hidentifier
        obtain ⟨parts, hparts⟩ := exists_scopes hothers
        refine ⟨t.kind :: name.kind :: ScopedName.scopeKinds parts,
          congrArg (t.kind :: name.kind :: ·) hparts, fun _ => ⟨.named ⟨true, x, parts⟩, ?_⟩⟩
        rw [hx, eq_of_beq hcolons]
        rfl

theorem isSuffix_afterArguments? (depth : Nat) {tokens left : List Token}
    (h : afterArguments? (depth + 1) tokens = some left) : left <:+ tokens := by
  induction tokens generalizing depth with
  | nil => cases h
  | cons t rest ih =>
      have hbehind := List.suffix_cons t rest
      rcases afterArguments?_cases t with heq | heq | hshr | heq | heq
      · rw [heq] at h
        exact (ih _ h).trans hbehind
      · rw [heq] at h
        rcases depth with - | depth
        · obtain rfl := Option.some.inj h
          exact hbehind
        · exact (ih _ h).trans hbehind
      · rw [afterArguments?_of_shr hshr] at h
        rcases depth with - | - | depth
        · cases h
        · obtain rfl := Option.some.inj h
          exact hbehind
        · exact (ih _ h).trans hbehind
      · rw [heq] at h
        exact (ih _ h).trans hbehind
      · rw [heq] at h
        cases h

/-- Behind the name of a type nothing is passed over, or what begins with a bracket. -/
theorem exists_passed {named left : List Token} (h : afterBrackets? named = some left) :
    ∃ passed, named = passed ++ left ∧
      ∀ t, passed.head? = some t → t.kind = .symbol .lt := by
  rcases named with - | ⟨t, rest⟩
  · obtain rfl := Option.some.inj h
    exact ⟨[], rfl, fun _ h => nomatch h⟩
  · rw [afterBrackets?] at h
    split_ifs at h with hangle
    · obtain ⟨passed, rfl⟩ := isSuffix_afterArguments? 0 h
      refine ⟨t :: passed, rfl, ?_⟩
      rintro u ⟨⟩
      exact eq_of_beq hangle
    · obtain rfl := Option.some.inj h
      exact ⟨[], rfl, fun _ h => nomatch h⟩

theorem ne_lt_of_mem_scopeKinds (parts : List Identifier) :
    ∀ kind ∈ ScopedName.scopeKinds parts, (kind != .symbol .lt) = true := by
  induction parts with
  | nil => exact fun _ hmem => nomatch hmem
  | cons part parts ih =>
      exact List.forall_mem_cons.mpr ⟨rfl, List.forall_mem_cons.mpr ⟨rfl, ih⟩⟩

/-- In front of the arguments of a type stands no bracket. -/
theorem ne_lt_of_mem_head (isOptional : Bool) (head : TypeHead) :
    ∀ kind ∈ starKinds isOptional ++ head.kinds, (kind != .symbol .lt) = true := by
  have hhead : ∀ kind ∈ head.kinds, (kind != .symbol .lt) = true := by
    cases head with
    | builtin word _ => exact List.forall_mem_singleton.mpr rfl
    | named name =>
        obtain ⟨isRooted, first, parts⟩ := name
        have hname : ∀ kind ∈ first.kind :: ScopedName.scopeKinds parts,
            (kind != .symbol .lt) = true :=
          List.forall_mem_cons.mpr ⟨rfl, ne_lt_of_mem_scopeKinds parts⟩
        cases isRooted with
        | true => exact List.forall_mem_cons.mpr ⟨rfl, hname⟩
        | false => exact hname
  cases isOptional with
  | true => exact List.forall_mem_cons.mpr ⟨rfl, hhead⟩
  | false => exact hhead

/-- What is passed over is a type if what is in its brackets is a list of types. -/
theorem exists_type {taken left : List Token} (hgenuine : ∀ t ∈ taken ++ left, t.kind.IsGenuine)
    (h : afterType? (taken ++ left) = some left)
    (halone : BuiltinsStandAlone (taken.map Token.kind)) {arguments : List TypeName}
    (harguments : (taken.map Token.kind).dropWhile (· != .symbol .lt)
      = bracketed (kindsEach arguments)) :
    ∃ isOptional head, taken.map Token.kind = (mk isOptional head arguments).kinds := by
  generalize hall : taken ++ left = tokens at hgenuine h
  rw [afterType?_eq_bind] at h
  generalize hbehind : (if tokens.head?.any (·.kind == .symbol .star) then tokens.drop 1
    else tokens) = behind at h
  obtain ⟨isOptional, hstar⟩ : ∃ isOptional,
      tokens.map Token.kind = starKinds isOptional ++ behind.map Token.kind := by
    subst hbehind
    split_ifs with hstar
    · cases tokens with
      | nil => cases hstar
      | cons t rest =>
          refine ⟨true, ?_⟩
          rw [List.map_cons, eq_of_beq hstar]
          rfl
    · exact ⟨false, rfl⟩
  have hnames : ∀ t ∈ behind, t.kind.IsGenuine := by
    intro t hmem
    refine hgenuine t ?_
    subst hbehind
    split_ifs at hmem
    · exact List.mem_of_mem_drop hmem
    · exact hmem
  obtain ⟨named, hname, hbrackets⟩ := Option.bind_eq_some_iff.mp h
  obtain ⟨front, hfront, hhead⟩ := exists_head hnames hname
  obtain ⟨passed, rfl, hangle⟩ := exists_passed hbrackets
  have htaken : taken.map Token.kind
      = starKinds isOptional ++ (front ++ passed.map Token.kind) := by
    refine (List.append_left_inj (left.map Token.kind)).mp ?_
    rw [← List.map_append, hall, hstar, hfront, List.map_append, List.append_assoc,
      List.append_assoc]
  rw [htaken] at halone
  have hinner := (List.isChain_append.mp halone).2.1
  obtain ⟨head, rfl⟩ := hhead (List.isChain_append.mp hinner).1
  refine ⟨isOptional, head, ?_⟩
  have hpassed : passed.map Token.kind = bracketed (kindsEach arguments) := by
    rw [htaken, ← List.append_assoc,
      List.dropWhile_append_of_pos (ne_lt_of_mem_head isOptional head)] at harguments
    rw [← harguments]
    cases passed with
    | nil => rfl
    | cons t rest =>
        rw [List.map_cons, List.dropWhile_cons_of_neg]
        rw [hangle t rfl]
        exact Bool.false_ne_true
  rw [htaken, hpassed, kinds]

theorem eq_nil_of_halved_eq_nil {tokens : List Token} (h : halved tokens = []) : tokens = [] := by
  cases tokens with
  | nil => rfl
  | cons t rest =>
      have hlength := Token.halved_length (t :: rest)
      rw [h, Token.weights, Token.weight] at hlength
      split_ifs at hlength <;> simp only [List.length_nil] at hlength <;> omega

/-- The last ones of the same tokens are the same if their halves are. -/
theorem eq_of_halved_eq {tokens left right : List Token} (hleft : left <:+ tokens)
    (hright : right <:+ tokens) (h : halved left = halved right) : left = right := by
  have heq {short long : List Token} (hlong : short <:+ long) (h : halved long = halved short) :
      long = short := by
    obtain ⟨front, rfl⟩ := hlong
    rw [Token.halved_append] at h
    rw [eq_nil_of_halved_eq_nil (List.self_eq_append_left.mp h.symm), List.nil_append]
  rcases List.suffix_or_suffix_of_suffix hleft hright with hlong | hlong
  · exact (heq hlong h.symm).symm
  · exact heq hlong h

/-- What is left is known from its halves if it does not begin with a symbol. -/
theorem eq_of_leavesOf {tokens left rest : List Token} {next : Token}
    (hleft : State.LeavesOf tokens left) (hright : next :: rest <:+ tokens)
    (hnext : ∀ mark, next.kind ≠ .symbol mark) (h : halved left = halved (next :: rest)) :
    left = next :: rest := by
  cases hleft with
  | @whole passed _ heq => exact eq_of_halved_eq ⟨passed, heq.symm⟩ hright h
  | @half _ _ t _ =>
      rw [Token.halved_cons_of_ne (ne_of_beq_false rfl), Token.halved_cons_of_ne (hnext .shr)] at h
      obtain ⟨rfl, -⟩ := List.cons.inj h
      exact absurd rfl (hnext .gt)

/-- Before a token of the kind what has been passed over is taken for a type. -/
def commits (kind : Kind) : Bool :=
  isVariableName kind || kind == .keyword .sub

theorem ne_symbol_of_commits {kind : Kind} (h : commits kind = true) (mark : Symbol) :
    kind ≠ .symbol mark :=
  Token.ne_of_holds h rfl

/-- Where the tokens ahead are taken for a type with a name or the word `sub` behind it, a type takes
just these tokens and reports nothing, provided that what is in the brackets is a list of types
and that no scope stands behind a built-in type. -/
theorem commitment_is_exact {text : List Char} {options : Options} {s : State}
    (hs : (start text options).Leads s) {taken rest : List Token} {next : Token}
    (hpending : s.pending = taken ++ next :: rest)
    (hpassed : afterType? s.pending = some (next :: rest))
    (hnext : commits next.kind = true)
    {arguments : List TypeName}
    (harguments : ((halved taken).map Token.kind).dropWhile (· != .symbol .lt)
      = bracketed (kindsEach arguments))
    (halone : BuiltinsStandAlone ((halved taken).map Token.kind)) {room : Nat}
    (hroom : options.limit ≤ s.depth + room)
    (hlimit : s.depth + nestingEach arguments < options.limit) :
    ∃ T : TypeName, T.kinds = (halved taken).map Token.kind ∧
      let read := Grammar.parse options.limit room .type s
      read.1.shape = T.shape ∧ read.2.pending = next :: rest ∧
        read.2.reported = s.reported ∧ read.2.recovering = s.recovering := by
  have hshr := ne_symbol_of_commits hnext .shr
  have hhalves : halved s.pending = halved taken ++ next :: halved rest := by
    rw [hpending, Token.halved_append, Token.halved_cons_of_ne hshr]
  have hgenuine : ∀ t ∈ halved taken ++ next :: halved rest, t.kind.IsGenuine := by
    rw [← hhalves]
    exact Token.isGenuine_of_mem_halved hs.isGenuine
  have hover : afterType? (halved taken ++ next :: halved rest) = some (next :: halved rest) := by
    have hagree := agree_afterType? s.pending
    rw [hpassed, hhalves] at hagree
    rw [← Token.halved_cons_of_ne hshr]
    rwa [← Token.halved_cons_of_ne hshr] at hagree
  obtain ⟨isOptional, head, hkinds⟩ := exists_type hgenuine hover halone harguments
  refine ⟨mk isOptional head arguments, hkinds.symm, ?_⟩
  generalize hT : mk isOptional head arguments = T at hkinds
  have hahead : s.halved.Faces (T.kinds ++ next.kind :: (halved rest).map Token.kind) := by
    refine ⟨?_, ?_⟩
    · rw [← hkinds]
      exact (congrArg (List.map Token.kind) hhalves).trans List.map_append
    · exact (congrArg Token.isEof hs.reaches.final_eq).trans (Token.Stream.isEof_ofText_final _ _)
  have hends : endsType next.kind = true :=
    Bool.and_eq_true_iff.mpr ⟨bne_iff_ne.mpr (ne_symbol_of_commits hnext _),
      bne_iff_ne.mpr (ne_symbol_of_commits hnext _)⟩
  have hnesting : T.nesting = nestingEach arguments + 1 := by
    rw [← hT, nesting]
  have hroomy : T.nesting ≤ room := by omega
  have hopen : s.depth + T.nesting ≤ options.limit := by omega
  obtain ⟨hnode, hafter⟩ := runsWithin_parse hroomy hopen T s.halved _ (Nat.le_refl _) rfl hahead
    hends s rfl
  have hsilent := hahead.advanceMany_silent fun kind hmem =>
    (T.portable.plain kind hmem).isValid_eq
  change (Grammar.parse options.limit room .type s).1 = _ at hnode
  change (Grammar.parse options.limit room .type s).2.halved = _ at hafter
  have hleads := State.isTrail_leads.parse options.limit room .type s
  generalize Grammar.parse options.limit room .type s = read at hnode hafter hleads ⊢
  refine ⟨?_, ?_, (congrArg State.reported hafter).trans hsilent.1,
    (congrArg State.recovering hafter).trans hsilent.2⟩
  · rw [hnode]
    exact T.shape_nodeAt _
  · have hleft : halved read.2.pending = next :: halved rest := by
      have hpendings := congrArg State.pending hafter
      rw [State.advanceMany_pending] at hpendings
      refine hpendings.trans ?_
      rw [← hkinds, List.length_map]
      exact (congrArg (List.drop _) hhalves).trans List.drop_left
    rw [← Token.halved_cons_of_ne hshr] at hleft
    exact eq_of_leavesOf hleads.leavesOf ⟨taken, hpending.symm⟩ (ne_symbol_of_commits hnext) hleft

/-- The brackets of both lists are closed by one token, of which each type takes its half. -/
theorem list_of_lists_is_taken :
    let s := start "list<list<a>> x;".toList Options.standard
    let x : Token := ⟨.identifier "x", ⟨14, 15⟩, ⟨⟨1, 15⟩, ⟨1, 16⟩⟩, false⟩
    s.pending = s.pending.take 6 ++ x :: s.pending.drop 7 ∧
      afterType? s.pending = some (x :: s.pending.drop 7) ∧ commits x.kind = true ∧
        ∃ T : TypeName, T.kinds = (halved (s.pending.take 6)).map Token.kind ∧
          let read := Grammar.parse Options.standard.limit Options.standard.limit .type s
          read.1.shape = T.shape ∧ read.2.pending = x :: s.pending.drop 7 ∧
            read.2.reported = s.reported ∧ read.2.recovering = s.recovering := by
  intro s x
  have hpending : s.pending = s.pending.take 6 ++ x :: s.pending.drop 7 := by decide +kernel
  have hpassed : afterType? s.pending = some (x :: s.pending.drop 7) := by decide +kernel
  have harguments : ((halved (s.pending.take 6)).map Token.kind).dropWhile (· != .symbol .lt)
      = bracketed (kindsEach
        [.mk false (.builtin .list rfl) [.ofName ⟨"a", by decide, by decide⟩]]) := by
    decide +kernel
  have halone : BuiltinsStandAlone ((halved (s.pending.take 6)).map Token.kind) := by
    unfold BuiltinsStandAlone
    decide +kernel
  exact ⟨hpending, hpassed, rfl, commitment_is_exact (State.Leads.refl s) hpending hpassed rfl
    harguments halone (by decide) (by decide)⟩

/-- Two comparisons with a product between them are taken for a type and the name of a variable,
though no argument of a type has a star behind its name. -/
theorem comparisons_are_taken_for_a_type :
    let text := "a < b * c > d;".toList
    let s : State := { start text Options.standard with depth := 1 }
    let d : Token := ⟨.identifier "d", ⟨12, 13⟩, ⟨⟨1, 13⟩, ⟨1, 14⟩⟩, false⟩
    let report : Diagnostic :=
      ⟨.syntactic (.expected (.symbol .gt) (.symbol .star)), ⟨⟨1, 7⟩, ⟨1, 8⟩⟩⟩
    (start text Options.standard).Leads s ∧ afterType? s.pending = some (d :: s.pending.drop 7) ∧
      commits d.kind = true ∧
      (Grammar.parse Options.standard.limit (Options.standard.limit - 1) .type s).2.reported
        = [report] ∧
      (QoreSyntax.parse text Options.standard).2 = [report] :=
  ⟨(State.Leads.refl _).nest 1, by decide +kernel, rfl, by decide +kernel, by decide +kernel⟩

end TypeName

end QoreSyntax
