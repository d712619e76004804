import QoreSyntax.Proofs.Grammar.Concatenation
import QoreSyntax.Proofs.Grammar.Resumption
import QoreSyntax.Proofs.TypeName.Located

namespace QoreSyntax

open Grammar
open Grammar.Parser (Runs)
open Token (Kind laidOut places place halved)

variable {nested : Goal → State → Node × State} {h : State} {rest : List Kind}

namespace Grammar.Parser.Runs

variable {h' : State} {item : Parser Node} {node : Node}

theorem expect_semicolon (hkind : h.kind = .symbol .semicolon) :
    Runs nested h (Grammar.expect .semicolon) true h.advance.resume :=
  bind (eat hkind (ne_of_beq_false rfl) (ne_of_beq_false rfl)) (bind resume done)

/-- An item behind which nothing is to be passed over. -/
theorem sequenceStep_again (hitem : Runs nested h item node h') (hopen : h.isAtEnd = false)
    (hbrace : h.kind ≠ .symbol .rBrace) (hrecovering : h'.recovering = false)
    (hconsumed : h.consumed < h'.consumed) (items : List Node) :
    Runs nested h (sequenceStep .endOfInput item items) (.again (node :: items)) h' := by
  rintro s rfl
  have hholds : Terminator.endOfInput.holds s = false := by
    rw [Terminator.holds, ← s.isAtEnd_halved, hopen]
    rfl
  have hat : s.isAt .rBrace = false :=
    beq_eq_false_iff_ne.mpr (State.kind_ne_of_halved rfl hbrace (ne_of_beq_false rfl))
  obtain ⟨hnode, hafter⟩ := hitem s rfl
  have hnot : (item.run nested s).2.recovering = false :=
    (congrArg State.recovering hafter).trans hrecovering
  have hlt : s.consumed < (item.run nested s).2.consumed :=
    hconsumed.trans_eq (congrArg State.consumed hafter).symm
  rw [run_sequenceStep_of_settled hholds hat hnot hlt]
  exact ⟨congrArg (fun node => Step.again (node :: items)) hnode, hafter⟩

theorem sequenceStep_done (hend : h.isAtEnd = true) (items : List Node) :
    Runs nested h (sequenceStep .endOfInput item items) (.done items) h := by
  rintro s rfl
  have hholds : Terminator.endOfInput.holds s = true := by
    rw [Terminator.holds, ← s.isAtEnd_halved, hend]
    rfl
  rw [run_sequenceStep_of_holds hholds]
  exact ⟨rfl, rfl⟩

end Grammar.Parser.Runs

namespace Grammar.State

/-- What follows a type can be told from the halves of the tokens ahead. -/
theorem isTypeBefore_of_halved {s : State} (T : TypeName) {next : Kind} (hs : s.halved = h)
    (hahead : h.Faces (T.kinds ++ next :: rest)) (hends : TypeName.endsType next = true)
    (hgt : next ≠ .symbol .gt) (follows : Kind → Bool) :
    s.isTypeBefore follows = follows next := by
  subst hs
  obtain ⟨left, hleft, hafter⟩ := T.exists_afterType? hahead.kinds_eq hends
  obtain ⟨t, more, rfl, ht, -⟩ := List.map_eq_cons_iff.mp hleft
  obtain ⟨whole, hwhole, hhalves⟩ := (TypeName.agree_afterType? s.pending).eq_some hafter
    (by rw [ht]; exact hgt)
  rw [isTypeBefore, hwhole]
  rcases whole with - | ⟨u, behind⟩
  · cases hhalves
  · by_cases hshr : u.kind = .symbol .shr
    · rw [Token.halved_cons_of_shr hshr] at hhalves
      obtain ⟨rfl, -⟩ := List.cons.inj hhalves
      exact absurd ht.symm hgt
    · rw [Token.halved_cons_of_ne hshr] at hhalves
      obtain ⟨rfl, -⟩ := List.cons.inj hhalves
      exact congrArg follows ht

theorem isDeclaration_of_beginsType {s : State} (hbegins : TypeName.beginsType s.kind = true) :
    s.isDeclaration = s.isTypedFunction := by
  rw [isDeclaration, keyword?]
  cases hkind : s.kind with
  | keyword word =>
      have hbuiltin : word.isBuiltinType = true := by rwa [hkind] at hbegins
      cases word <;> first | rfl | cases hbuiltin
  | _ => rfl

end Grammar.State

theorem wordStatement_of_isBuiltinType {word : Keyword} (h : word.isBuiltinType = true) :
    wordStatement word = openStatement := by
  cases word <;> first | rfl | cases h

/-- Where a type may begin an open statement is read. -/
theorem runs_statementRule {node : Node} {h' : State}
    (hbegins : TypeName.beginsType h.kind = true) (hopen : Runs nested h openStatement node h') :
    Runs nested h statementRule node h' := by
  refine Runs.look fun o ho => ?_
  have hkind : o.kind = h.kind := by
    refine State.kind_eq_of_halved ho rfl ?_
    intro hgt
    rw [hgt] at hbegins
    cases hbegins
  rw [hkind]
  cases hfirst : h.kind with
  | keyword word =>
      rw [hfirst] at hbegins
      exact (wordStatement_of_isBuiltinType hbegins).symm ▸ hopen
  | symbol mark =>
      rw [hfirst] at hbegins
      cases mark <;> first | exact hopen | cases hbegins
  | identifier name => exact hopen
  | _ =>
      rw [hfirst] at hbegins
      cases hbegins

/-- The tokens of a variable with a type and without a value, and the semicolon behind them. -/
def TypeName.declarationKinds (T : TypeName) (x : Identifier) : List Kind :=
  T.kinds ++ [x.kind, .symbol .semicolon]

namespace TypeName

variable {T : TypeName} {x : Identifier} (hahead : h.Faces (T.declarationKinds x))
include hahead

theorem beginsType_kind : beginsType h.kind = true := by
  rw [hahead.kind_eq, declarationKinds]
  exact T.beginsType_head _

theorem kind_of_halved {o : State} (ho : o.halved = h) : o.kind = h.kind := by
  refine State.kind_eq_of_halved ho rfl ?_
  intro hgt
  have hbegins := beginsType_kind hahead
  rw [hgt] at hbegins
  cases hbegins

theorem runs_variableModifier : Runs nested h variableModifier [] h := by
  refine Runs.look fun o ho => ?_
  have hbegins := beginsType_kind hahead
  rw [← kind_of_halved hahead ho] at hbegins
  cases hkind : o.kind with
  | keyword word =>
      rw [hkind] at hbegins
      have hword : (word == .my || word == .our) = false := by
        cases word <;> first | rfl | cases hbegins
      dsimp only
      rw [hword, if_neg Bool.false_ne_true]
      exact Runs.done
  | _ => exact Runs.done

variable {depth bound : Nat} (hnested : RunsWithin nested depth bound)
  (hT : T.nesting ≤ bound) (hdepth : h.depth = depth)
include hnested hT hdepth

theorem runs_declared : Runs nested h declared (some x.text, [T.nodeAt h])
    (h.advanceMany T.kinds.length).advance := by
  have htype : Runs nested h Grammar.type (T.nodeAt h) (h.advanceMany T.kinds.length) :=
    hnested T h _ hT hdepth hahead rfl
  have htypes : Runs nested h variableType [T.nodeAt h] (h.advanceMany T.kinds.length) := by
    refine Runs.look fun o ho => ?_
    have htyped : o.isTypedVariable = true :=
      State.isTypeBefore_of_halved T ho hahead rfl (ne_of_beq_false rfl) isVariableName
    rw [htyped]
    exact Runs.bind htype Runs.done
  have hname : Runs nested (h.advanceMany T.kinds.length) (variableName? .variableName)
      (some x.text) (h.advanceMany T.kinds.length).advance := by
    have hkind := hahead.advanceMany.kind_eq
    refine Runs.look fun o ho => ?_
    rw [State.kind_eq_of_halved ho hkind (ne_of_beq_false rfl)]
    exact Runs.advance hkind (ne_of_beq_false rfl) (ne_of_beq_false rfl) fun _ => Runs.done
  refine Runs.look fun o ho => ?_
  have hparen : o.isAt .lParen = false := by
    have hbegins := beginsType_kind hahead
    rw [← kind_of_halved hahead ho] at hbegins
    exact beq_eq_false_iff_ne.mpr (Token.ne_of_holds hbegins rfl)
  rw [hparen, if_neg Bool.false_ne_true]
  exact Runs.bind htypes (Runs.bind hname Runs.done)

theorem runs_variableDeclaration :
    Runs nested h (variableDeclaration true)
      ((h.advanceMany (T.kinds.length + 2)).resume.close h.mark .varDecl (.name x.text)
        [T.nodeAt h])
      (h.advanceMany (T.kinds.length + 2)).resume := by
  have hbehind : (h.advanceMany T.kinds.length).advance.Faces [.symbol .semicolon] :=
    hahead.advanceMany.advance
  have hlast : (h.advanceMany T.kinds.length).advance.advance
      = h.advanceMany (T.kinds.length + 2) := (State.advanceMany_add T.kinds.length 2 h).symm
  have hvalue : Runs nested (h.advanceMany T.kinds.length).advance initialiser []
      (h.advanceMany T.kinds.length).advance := by
    refine Runs.bind (Runs.eat_miss ?_ (ne_of_beq_false rfl)) Runs.done
    rw [hbehind.kind_eq]
    exact ne_of_beq_false rfl
  have hend : Runs nested (h.advanceMany T.kinds.length).advance (endOfDeclaration true) ()
      (h.advanceMany (T.kinds.length + 2)).resume := by
    rw [← hlast]
    exact Runs.bind (Runs.expect_semicolon hbehind.kind_eq) Runs.done
  refine Runs.bind Runs.mark (Runs.bind (runs_variableModifier hahead) ?_)
  refine Runs.bind (runs_declared hahead hnested hT hdepth) ?_
  refine Runs.bind hvalue (Runs.bind hend ?_)
  exact Runs.close h.mark .varDecl (.name x.text) [T.nodeAt h]

theorem runs_openStatement :
    Runs nested h openStatement
      ((h.advanceMany (T.kinds.length + 2)).resume.close h.mark .varDecl (.name x.text)
        [T.nodeAt h])
      (h.advanceMany (T.kinds.length + 2)).resume := by
  refine Runs.look fun o ho => ?_
  have hdeclaration : o.isDeclaration = false := by
    have hbegins := beginsType_kind hahead
    rw [← kind_of_halved hahead ho] at hbegins
    rw [State.isDeclaration_of_beginsType hbegins]
    exact State.isTypeBefore_of_halved T ho hahead rfl (ne_of_beq_false rfl) _
  have htyped : o.isTypedVariable = true :=
    State.isTypeBefore_of_halved T ho hahead rfl (ne_of_beq_false rfl) isVariableName
  rw [hdeclaration, htyped, if_neg Bool.false_ne_true, if_pos rfl]
  exact runs_variableDeclaration hahead hnested hT hdepth

end TypeName

namespace Grammar.State

/-- Tokens that are not at fault are taken without a report. -/
theorem Faces.advanceMany_silent {kinds more : List Kind} {s : State}
    (h : s.Faces (kinds ++ more)) (hvalid : ∀ kind ∈ kinds, kind.isValid = true) :
    (s.advanceMany kinds.length).reported = s.reported ∧
      (s.advanceMany kinds.length).recovering = s.recovering := by
  induction kinds generalizing s with
  | nil => exact ⟨rfl, rfl⟩
  | cons kind kinds ih =>
      obtain ⟨hkind, hkinds⟩ := List.forall_mem_cons.mp hvalid
      obtain ⟨t, rest, hpending, ht, -⟩ := h.exists_pending
      have herror : LexicalError.ofToken? t = none :=
        LexicalError.ofToken?_eq_none_iff.mpr (ht ▸ hkind)
      obtain ⟨hreported, hrecovering⟩ := ih h.advance hkinds
      refine ⟨hreported.trans ?_, hrecovering.trans ?_⟩
      · rw [advance_cons hpending, herror]
        rfl
      · rw [advance_cons hpending, herror]
        exact Bool.or_false _

end Grammar.State

namespace TypeName

/-- The kinds of the tokens that stand in types. -/
def standsInType : Kind → Bool
  | .symbol mark =>
      mark == .star || mark == .doubleColon || mark == .lt || mark == .gt || mark == .comma
  | .identifier _ | .keyword _ => true
  | _ => false

theorem standsInType_scopeKinds (parts : List Identifier) :
    ∀ kind ∈ ScopedName.scopeKinds parts, standsInType kind = true := by
  induction parts with
  | nil => exact fun _ hmem => nomatch hmem
  | cons part parts ih =>
      exact List.forall_mem_cons.mpr ⟨rfl, List.forall_mem_cons.mpr ⟨rfl, ih⟩⟩

theorem standsInType_head (head : TypeHead) : ∀ kind ∈ head.kinds, standsInType kind = true := by
  cases head with
  | builtin word _ => exact List.forall_mem_singleton.mpr rfl
  | named name =>
      obtain ⟨isRooted, first, parts⟩ := name
      have hname : ∀ kind ∈ first.kind :: ScopedName.scopeKinds parts, standsInType kind = true :=
        List.forall_mem_cons.mpr ⟨rfl, standsInType_scopeKinds parts⟩
      cases isRooted with
      | true => exact List.forall_mem_cons.mpr ⟨rfl, hname⟩
      | false => exact hname

theorem standsInType_bracketed {arguments : List (List Kind)}
    (h : ∀ argument ∈ arguments, ∀ kind ∈ argument, standsInType kind = true) :
    ∀ kind ∈ bracketed arguments, standsInType kind = true := by
  have hcommas : ∀ kind ∈ Token.commas arguments, standsInType kind = true := by
    induction arguments with
    | nil => exact fun _ hmem => nomatch hmem
    | cons first others ih =>
        obtain ⟨hfirst, hothers⟩ := List.forall_mem_cons.mp h
        cases others with
        | nil => rwa [Token.commas_singleton]
        | cons next others =>
            rw [Token.commas_cons_cons]
            exact List.forall_mem_append.mpr
              ⟨hfirst, List.forall_mem_cons.mpr ⟨rfl, ih hothers⟩⟩
  cases arguments with
  | nil => exact fun _ hmem => nomatch hmem
  | cons first others =>
      exact List.forall_mem_cons.mpr ⟨rfl, List.forall_mem_append.mpr
        ⟨hcommas, List.forall_mem_singleton.mpr rfl⟩⟩

mutual

theorem standsInType_kinds : ∀ T : TypeName, ∀ kind ∈ T.kinds, standsInType kind = true
  | mk isOptional head arguments => by
      have harguments := standsInType_bracketed (standsInType_kindsEach arguments)
      rw [kinds]
      refine List.forall_mem_append.mpr
        ⟨?_, List.forall_mem_append.mpr ⟨standsInType_head head, harguments⟩⟩
      cases isOptional with
      | true => exact List.forall_mem_singleton.mpr rfl
      | false => exact fun _ hmem => nomatch hmem

theorem standsInType_kindsEach : ∀ types : List TypeName, ∀ argument ∈ kindsEach types,
    ∀ kind ∈ argument, standsInType kind = true
  | [], _, hmem => nomatch hmem
  | T :: rest, argument, hmem => by
      rw [kindsEach] at hmem
      rcases List.mem_cons.mp hmem with rfl | hrest
      · exact standsInType_kinds T
      · exact standsInType_kindsEach rest argument hrest

end

/-- The items of a variable with a type, and the semicolon behind them. -/
def declarationItems (T : TypeName) (x : Identifier) : List (Option Kind) :=
  T.items ++ [none, some x.kind, some (.symbol .semicolon)]

theorem tokensOf_declarationItems (T : TypeName) (x : Identifier) :
    tokensOf (T.declarationItems x) = T.declarationKinds x := by
  rw [declarationItems, tokensOf_append, tokensOf_items]
  rfl

theorem laidOut_declarationItems (T : TypeName) (x : Identifier) :
    laidOut (T.declarationItems x) = (T.text ++ " " ++ x.text ++ ";").toList := by
  rw [declarationItems, Token.laidOut_append, laidOut_items, String.toList_append,
    String.toList_append, String.toList_append, List.append_assoc, List.append_assoc]
  rfl

theorem isChain_declarationItems (T : TypeName) (x : Identifier) :
    (T.declarationItems x).IsChain Token.MayAdjoin := by
  have hpart := isPart_items T
  refine List.isChain_append.mpr ⟨hpart.chain, ?_, ?_⟩
  · refine List.isChain_cons_cons.mpr ⟨Or.inl rfl, List.isChain_cons_cons.mpr ⟨Or.inl ?_, ?_⟩⟩
    · exact x.isWord.mayFollow rfl
    · exact List.isChain_singleton _
  · rintro last hlast _ ⟨⟩
    exact (hpart.ends last hlast).mayAdjoin (Or.inl rfl)

theorem mem_tokensOf {kind : Kind} {items : List (Option Kind)} (h : some kind ∈ items) :
    kind ∈ tokensOf items :=
  List.mem_filterMap.mpr ⟨some kind, h, rfl⟩

theorem isPlain_declarationKinds (T : TypeName) (x : Identifier) :
    ∀ kind ∈ T.declarationKinds x, kind.IsPlain :=
  List.forall_mem_append.mpr ⟨T.portable.plain, List.forall_mem_cons.mpr
    ⟨⟨x.isName, x.isFree⟩, List.forall_mem_singleton.mpr trivial⟩⟩

theorem isMatch_declarationKinds (T : TypeName) (x : Identifier) :
    ∀ kind ∈ T.declarationKinds x, kind.isMatch = false ∧ kind ≠ .symbol .shr := by
  refine List.forall_mem_append.mpr ⟨fun kind hmem => ?_, List.forall_mem_cons.mpr
    ⟨⟨rfl, ne_of_beq_false rfl⟩, List.forall_mem_singleton.mpr ⟨rfl, ne_of_beq_false rfl⟩⟩⟩
  have hstands := T.standsInType_kinds kind hmem
  refine ⟨?_, Token.ne_of_holds hstands rfl⟩
  rw [Token.Kind.isMatch, Bool.or_eq_false_iff]
  exact ⟨beq_false_of_ne (Token.ne_of_holds hstands rfl),
    beq_false_of_ne (Token.ne_of_holds hstands rfl)⟩

/-- The halves of the tokens of the declaration stand at the columns of its spelling. -/
theorem places_declaration (T : TypeName) (x : Identifier) (options : Options) :
    (start (T.text ++ " " ++ x.text ++ ";").toList options).halved.pending.map place
      = places options.firstLine 1 (T.declarationItems x) := by
  have hkinds : ∀ kind, some kind ∈ T.declarationItems x → kind ∈ T.declarationKinds x :=
    fun kind hmem => tokensOf_declarationItems T x ▸ mem_tokensOf hmem
  have hread := Token.Stream.places_halved_ofText
    (fun kind hmem => ⟨isPlain_declarationKinds T x kind (hkinds kind hmem),
      (isMatch_declarationKinds T x kind (hkinds kind hmem)).1⟩)
    (fun hmem => (isMatch_declarationKinds T x _ (hkinds _ hmem)).2 rfl)
    (isChain_declarationItems T x) options.firstLine
  rw [laidOut_declarationItems] at hread
  have hline : max options.firstLine 1 = options.firstLine := max_eq_left (le_max_right _ _)
  rwa [hline] at hread

/-- The node of the declaration. -/
def declaration (T : TypeName) (x : Identifier) (line : Nat) : Node :=
  ⟨.varDecl, ⟨⟨line, 1⟩, ⟨line, 1 + (T.text.length + x.text.length + 2)⟩⟩, .name x.text,
    [T.located line 1]⟩

section Text

variable {T : TypeName} {x : Identifier} {line : Nat}
  (hplaces : h.pending.map place = places line 1 (T.declarationItems x))
include hplaces

theorem faces_of_places (hfinal : h.final.isEof = true) : h.Faces (T.declarationKinds x) := by
  refine ⟨?_, hfinal⟩
  rw [← tokensOf_declarationItems, tokensOf, ← Token.map_fst_places line 1, ← hplaces,
    List.map_map]
  rfl

theorem length_pending : h.pending.length = T.kinds.length + 2 := by
  rw [← List.length_map (f := place), hplaces, length_places, tokensOf_declarationItems,
    declarationKinds, List.length_append]
  rfl

/-- The declaration is closed at the columns of its spelling. -/
theorem close_eq_declaration :
    (h.advanceMany (T.kinds.length + 2)).resume.close h.mark .varDecl (.name x.text)
      [T.nodeAt h] = T.declaration x line := by
  have htype : T.nodeAt h = T.located line 1 := by
    rw [declarationItems, Token.places_append] at hplaces
    exact T.nodeAt_eq_located hplaces
  have hpart := isPart_items T
  obtain ⟨first, hfirst, hstart⟩ : ∃ first, h.pending.head? = some first ∧
      first.range.start = ⟨line, 1⟩ := by
    obtain ⟨item, items, hitems⟩ := List.exists_cons_of_ne_nil hpart.ne_nil
    obtain ⟨kind, rfl⟩ := (hpart.begins item (congrArg List.head? hitems)).exists_kind
    have hhead : (T.declarationItems x).head? = some (some kind) := by
      rw [declarationItems, hitems]
      rfl
    exact exists_first hplaces hhead
  obtain ⟨last, hlast, hstop⟩ : ∃ last, h.pending.getLast? = some last ∧
      last.range.stop = ⟨line, 1 + (laidOut (T.declarationItems x)).length⟩ := by
    have hend : (T.declarationItems x).getLast? = some (some (.symbol .semicolon)) := by
      rw [declarationItems, List.getLast?_append]
      rfl
    exact exists_last hplaces hend
  have hlength : (laidOut (T.declarationItems x)).length
      = T.text.length + x.text.length + 2 := by
    rw [laidOut_declarationItems, String.length_toList, String.length_append,
      String.length_append, String.length_append]
    change T.text.length + 1 + x.text.length + 1 = _
    omega
  have hown := State.own_advanceMany (List.append_nil h.pending).symm hfirst hlast
  rw [hstart, hstop, length_pending hplaces, hlength] at hown
  rw [htype]
  refine close_eq_of_bounds hown _ _ (List.forall_mem_singleton.mpr ?_)
  have hbounds := bounds_of_mem_locatedEach
    (show T.located line 1 ∈ locatedEach [T] line 1 from List.mem_cons_self)
  rw [widthEach_singleton] at hbounds
  refine ⟨hbounds.1, hbounds.2.trans ?_⟩
  rw [Position.le_iff]
  dsimp only
  omega

/-- The statement is read up to the end of the text, and nothing is reported. -/
theorem runs_statement {limit : Nat} (hlimit : T.nesting < limit) (hfinal : h.final.isEof = true)
    (hdepth : h.depth = 0) :
    Runs (Grammar.parse limit limit) h statement (T.declaration x line)
      (h.advanceMany (T.kinds.length + 2)).resume := by
  obtain ⟨room, rfl⟩ := Nat.exists_eq_succ_of_ne_zero (Nat.ne_zero_of_lt hlimit)
  have hahead : State.Faces (T.declarationKinds x) { h with depth := 1 } :=
    (faces_of_places hplaces hfinal).nest 1
  have hnested : RunsWithin (Grammar.parse (room + 1) room) 1 T.nesting :=
    runsWithin_parse (Nat.le_of_lt_succ hlimit) (by omega)
  have hopen := runs_openStatement hahead hnested (Nat.le_refl _) rfl
  have hplaces' : ({ h with depth := 1 } : State).pending.map place
      = places line 1 (T.declarationItems x) := hplaces
  rw [close_eq_declaration hplaces'] at hopen
  have hrule := runs_statementRule (beginsType_kind hahead) hopen
  rw [State.advanceMany_nest] at hrule
  have hopened : h.depth < room + 1 := by omega
  have hsame : { (h.advanceMany (T.kinds.length + 2)).resume with depth := 0 }
      = (h.advanceMany (T.kinds.length + 2)).resume := by
    have hback : (h.advanceMany (T.kinds.length + 2)).resume.depth = 0 :=
      (State.advanceMany_depth _ h).trans hdepth
    rw [← hback]
  rw [← hsame]
  refine Runs.call .statement 0 hopened ?_
  rw [hdepth]
  exact hrule

/-- The statement is the only one of the text. -/
theorem runs_sequence {limit : Nat} (hlimit : T.nesting < limit) (hfinal : h.final.isEof = true)
    (hdepth : h.depth = 0) :
    Runs (Grammar.parse limit limit) h (sequence .endOfInput statement) [T.declaration x line]
      (h.advanceMany (T.kinds.length + 2)).resume := by
  have hahead := faces_of_places hplaces hfinal
  have honly : OnlyTakes (Grammar.parse limit limit) := onlyTakes_parse limit limit
  have hstep : Shrinks (Grammar.parse limit limit) (sequenceStep .endOfInput statement) :=
    Parser.shrinks_sequenceStep honly .endOfInput statement
  have hlength := length_pending hplaces
  have hopen : h.isAtEnd = false := by
    rw [Bool.eq_false_iff]
    intro hend
    rw [State.isAtEnd_iff.mp hend] at hlength
    cases hlength
  have hbrace : h.kind ≠ .symbol .rBrace :=
    Token.ne_of_holds (beginsType_kind hahead) rfl
  have hconsumed : h.consumed < (h.advanceMany (T.kinds.length + 2)).resume.consumed := by
    have htaken := State.advanceMany_consumed (List.append_nil h.pending).symm
    rw [hlength] at htaken
    refine lt_of_lt_of_eq ?_ htaken.symm
    omega
  have hend : (h.advanceMany (T.kinds.length + 2)).resume.isAtEnd = true := by
    have hnil : (h.advanceMany (T.kinds.length + 2)).pending = [] := by
      rw [State.advanceMany_pending, ← hlength, List.drop_length]
    exact State.isAtEnd_iff.mpr hnil
  have hagain := Runs.sequenceStep_again (runs_statement hplaces hlimit hfinal hdepth) hopen hbrace
    rfl hconsumed []
  have hfinal' : (h.advanceMany (T.kinds.length + 2)).resume.final.isEof = true := by
    have hrest : h.Faces (h.pending.map Token.kind ++ []) := ⟨(List.append_nil _).symm, hfinal⟩
    have hlast := hrest.advanceMany.isEof_final
    rwa [List.length_map, hlength] at hlast
  have hdone := Runs.loop_done hstep honly hfinal'
    (Runs.sequenceStep_done hend [T.declaration x line])
  exact Runs.bind (Runs.loop_again hstep honly hfinal hagain hdone) Runs.done

end Text

/-- A variable with a type that is declared in the shortest spelling of the type is read without a
report, with the type at the columns of its spelling. -/
theorem declaration_round_trip (T : TypeName) (x : Identifier) {options : Options}
    (hlimit : T.nesting < options.limit) :
    let read := QoreSyntax.parse (T.text ++ " " ++ x.text ++ ";").toList options
    read.1.topLevel = [T.declaration x options.firstLine] ∧ read.2 = [] := by
  have hplaces := places_declaration T x options
  rw [QoreSyntax.parse]
  generalize hstart : start (T.text ++ " " ++ x.text ++ ";").toList options = s at hplaces
  have hfinal : s.halved.final.isEof = true := by
    rw [← hstart]
    exact Token.Stream.isEof_ofText_final _ _
  have hdepth : s.halved.depth = 0 := by
    rw [← hstart]
    rfl
  have hreported : s.halved.reported = [] := by
    rw [← hstart]
    rfl
  have hlength := length_pending hplaces
  have hopen : s.isAtEnd = false := by
    rw [← s.isAtEnd_halved, Bool.eq_false_iff]
    intro hend
    rw [State.isAtEnd_iff.mp hend] at hlength
    cases hlength
  obtain ⟨hitems, hafter⟩ := runs_sequence hplaces hlimit hfinal hdepth s rfl
  have hahead : s.halved.Faces (T.declarationKinds x ++ []) := by
    rw [List.append_nil]
    exact faces_of_places hplaces hfinal
  have hsilent := (hahead.advanceMany_silent fun kind hmem =>
    (isPlain_declarationKinds T x kind hmem).isValid_eq).1
  have hlast : (s.halved.advanceMany (T.kinds.length + 2)).reported = [] := by
    rw [← hreported, ← hsilent, declarationKinds, List.length_append]
    rfl
  rw [script, if_neg (by rw [hopen]; exact Bool.false_ne_true)]
  change ((sequence .endOfInput statement).runWithin options.limit s).1 = _ ∧
    ((sequence .endOfInput statement).runWithin options.limit s).2.reported.reverse = []
  refine ⟨hitems, ?_⟩
  have hnone := (congrArg State.reported hafter).trans hlast
  exact congrArg List.reverse hnone

/-- A hash of lists of lists: the brackets behind it are read in pairs, and one of them is left. -/
theorem nestedLists_round_trip :
    let x : Identifier := ⟨"x", by decide, by decide⟩
    let lists : TypeName := .mk false (.builtin .list rfl) [.mk false (.builtin .list rfl) [.ofName x]]
    let T : TypeName := .mk true (.builtin .hash rfl) [.mk false (.builtin .stringType rfl) [], lists]
    T.nesting < Options.standard.limit ∧
      (let read := QoreSyntax.parse (T.text ++ " " ++ x.text ++ ";").toList .standard
      read.1.topLevel = [T.declaration x 1] ∧ read.2 = []) := by
  intro x lists T
  exact ⟨by decide, declaration_round_trip T x (by decide)⟩

end TypeName

end QoreSyntax
