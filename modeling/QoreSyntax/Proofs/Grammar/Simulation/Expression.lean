import QoreSyntax.Grammar.Expression
import QoreSyntax.Proofs.Grammar.Simulation.Variable

namespace QoreSyntax.Grammar.Simulation.Nesting

variable {M : Simulation} (N : M.Nesting)

theorem matches_expressionList : N.Matches expressionList expressionList M.Nodes := by
  refine N.mark fun m m' hm => ?_
  refine (N.call _).bind fun first first' hfirst => ?_
  refine (N.matches_eat .comma).skip fun comma => ?_
  split_ifs
  · exact (N.call _).commaList.bind fun _ _ hrest => N.close hm (.cons hfirst hrest)
  · exact N.done hfirst

theorem matches_hashEntry {m m' : Mark} (hm : M.Marks m m') {key key' : Node}
    (hkey : M.Nodes key key') : N.Matches (hashEntry m key) (hashEntry m' key') M.Nodes := by
  refine (N.matches_expect .colon).skip fun _ => ?_
  exact (N.call _).bind fun _ _ hvalue => N.close hm (.cons hkey (.cons hvalue .nil))

theorem matches_keyAndValue : N.Matches keyAndValue keyAndValue M.Nodes :=
  N.mark fun _ _ hm => (N.call _).bind fun _ _ hkey => N.matches_hashEntry hm hkey

theorem matches_hashEntries {m m' first first' : Mark} (hm : M.Marks m m')
    (hfirst : M.Marks first first') {key key' : Node} (hkey : M.Nodes key key')
    (closing : Symbol) :
    N.Matches (hashEntries m first key closing) (hashEntries m' first' key' closing)
      M.Nodes := by
  refine (N.matches_hashEntry hfirst hkey).bind fun entry entry' hentry => ?_
  refine (N.matches_eat .comma).skip fun comma => ?_
  have hrest := N.matches_keyAndValue.separated fun _ _ hlike => hlike.isAt closing
  refine (hrest.optionally comma).bind fun rest rest' hrest => ?_
  refine (N.matches_expectClosing closing).skip fun _ => ?_
  exact N.close hm (.cons hentry hrest)

theorem matches_braceHash : N.Matches braceHash braceHash M.Nodes := by
  refine N.mark fun m m' hm => N.take fun _ _ _ => ?_
  refine (N.matches_eat .rBrace).skip fun closed => ?_
  split_ifs
  · exact N.close hm .nil
  · refine N.mark fun first first' hfirst => ?_
    exact (N.call _).bind fun _ _ hkey => N.matches_hashEntries hm hfirst hkey .rBrace

theorem matches_parenthesised : N.Matches parenthesised parenthesised M.Nodes := by
  refine N.mark fun m m' hm => N.take fun _ _ _ => ?_
  refine (N.matches_eat .rParen).skip fun closed => ?_
  split_ifs
  · exact N.close hm .nil
  · refine N.mark fun start start' hstart => ?_
    refine (N.call _).bind fun first first' hfirst => ?_
    refine N.look fun s t hst hlike => ?_
    rw [hlike.isAt, hlike.isAt]
    split_ifs
    · exact N.matches_hashEntries hm hstart hfirst .rParen s t hst
    · refine N.take (fun _ _ _ => ?_) s t hst
      have hrest := (N.call (.expression 0)).separated fun _ _ hlike => hlike.isAt .rParen
      refine hrest.bind fun rest rest' hrest => ?_
      refine (N.matches_expectClosing .rParen).skip fun _ => ?_
      exact N.close hm (.cons hfirst hrest)
    · refine (N.matches_expect .rParen).skip (fun _ => ?_) s t hst
      exact N.close hm (.cons hfirst .nil)

theorem matches_listOperator (word : Keyword) :
    N.Matches (listOperator word) (listOperator word) M.Nodes := by
  refine N.mark fun m m' hm => N.take fun _ _ _ => ?_
  exact (N.call _).commaList.bind fun _ _ hoperands => N.close hm hoperands

theorem matches_thirdOperand (word : Keyword) :
    N.Matches (thirdOperand word) (thirdOperand word) (List.Forall₂ M.Nodes) := by
  rw [thirdOperand]
  split_ifs
  · exact (N.matches_eat .comma).skip fun comma => (N.call _).single.optionally comma
  · exact N.done .nil

theorem matches_itemOperator (word : Keyword) :
    N.Matches (itemOperator word) (itemOperator word) M.Nodes := by
  refine N.mark fun m m' hm => N.take fun _ _ _ => ?_
  refine (N.call _).bind fun first first' hfirst => ?_
  refine (N.matches_expect .comma).skip fun _ => ?_
  refine (N.call _).bind fun second second' hsecond => ?_
  refine (N.matches_thirdOperand word).bind fun third third' hthird => ?_
  exact N.close hm (.cons hfirst (.cons hsecond hthird))

theorem matches_newObject : N.Matches newObject newObject M.Nodes := by
  refine N.mark fun m m' hm => N.take fun _ _ _ => ?_
  refine (N.call _).bind fun node node' hnode => ?_
  refine N.look fun s t hst hlike => ?_
  rw [hlike.isAt, M.name?_eq hnode]
  refine (N.matches_arguments.single.optionally _).bind (fun values values' hvalues => ?_) s t hst
  exact N.close hm (.cons hnode hvalues)

theorem matches_castType : N.Matches castType castType (List.Forall₂ M.Nodes) := by
  refine (N.matches_expect .lt).skip fun opened => ?_
  split_ifs
  · refine (N.call _).bind fun node node' hnode => ?_
    exact N.matches_expectAngle.skip fun _ => N.done (.cons hnode .nil)
  · exact N.done .nil

theorem matches_cast : N.Matches cast cast M.Nodes := by
  refine N.mark fun m m' hm => N.take fun _ _ _ => ?_
  refine N.matches_castType.bind fun types types' htypes => ?_
  refine (N.matches_expect .lParen).skip fun _ => ?_
  refine (N.call _).bind fun value value' hvalue => ?_
  refine (N.matches_expect .rParen).skip fun _ => ?_
  exact N.close hm (List.rel_append htypes (.cons hvalue .nil))

theorem matches_closure : N.Matches closure closure M.Nodes := by
  refine N.mark fun m m' hm => N.look fun s t hst hlike => ?_
  rw [hlike.isAtKeyword]
  refine Matches.bind ((N.call .type).single.optionally _) (fun types types' htypes => ?_) s t hst
  refine (N.matches_expectKeyword .sub).skip fun _ => ?_
  refine N.matches_parameters.bind fun params params' hparams => ?_
  refine N.matches_resultType.bind fun result result' hresult => ?_
  refine N.matches_block.bind fun body body' hbody => ?_
  have hhead := List.rel_append htypes (.cons hparams hresult)
  exact N.close hm (List.rel_append hhead (.cons hbody .nil))

theorem matches_nameOperand : N.Matches nameOperand nameOperand M.Nodes :=
  N.mark fun _ _ hm => N.matches_scopedName.skip fun _ => N.close hm .nil

theorem matches_conversionName (word : Keyword) :
    N.Matches (conversionName word) (conversionName word) M.Nodes :=
  N.mark fun _ _ hm => N.take fun _ _ _ => N.close hm .nil

theorem matches_missingExpression :
    N.Matches missingExpression missingExpression M.Nodes :=
  (N.matches_reportExpected .expression).skip fun _ => N.placeholder .missing

/-- A closure and a conversion are told by the token after the reserved word. -/
theorem matchesAt_wordOperand {word : Keyword} {s t : State} (hst : M.Related s t)
    (hlike : s.Resembles t) (hword : s.kind = .keyword word) :
    N.MatchesAt s t (wordOperand word) (wordOperand word) M.Nodes := by
  refine MatchesAt.look ?_
  rw [hlike.kindAt_one (hword ▸ rfl)]
  dsimp only
  split
  · exact N.matches_newObject s t hst
  · exact N.matches_cast s t hst
  · split_ifs
    · exact N.matches_closure s t hst
    · exact N.matches_missingExpression s t hst
  · exact N.matches_itemOperator _ s t hst
  · exact N.matches_itemOperator _ s t hst
  · exact N.matches_itemOperator _ s t hst
  · exact N.matches_itemOperator _ s t hst
  · exact N.matches_listOperator _ s t hst
  · exact N.matches_listOperator _ s t hst
  · exact N.matches_listOperator _ s t hst
  · exact N.matches_listOperator _ s t hst
  · split_ifs
    · exact N.matches_conversionName _ s t hst
    · exact N.matches_closure s t hst
    · exact N.matches_missingExpression s t hst

theorem matches_operand : N.Matches operand operand M.Nodes := by
  refine N.look fun s t hst hlike => ?_
  rw [hlike.kind_eq]
  dsimp only
  split
  · exact N.mark (fun _ _ hm => N.take fun _ _ _ => N.close hm .nil) s t hst
  · split
    · exact N.matches_nameOperand s t hst
    · exact N.matches_nameOperand s t hst
    · exact N.matches_parenthesised s t hst
    · exact N.matches_braceHash s t hst
    · rename_i hword
      exact N.matchesAt_wordOperand hst hlike hword
    · exact N.matches_missingExpression s t hst

theorem matches_prefixed : N.Matches prefixed prefixed M.Nodes := by
  refine N.look fun s t hst hlike => ?_
  rw [hlike.kind_eq]
  split
  · refine N.mark (fun m m' hm => N.take fun _ _ _ => ?_) s t hst
    exact (N.call _).bind fun _ _ hinner => N.close hm (.cons hinner .nil)
  · exact N.matches_operand s t hst

theorem matches_memberName? : N.Matches memberName? memberName? Eq := by
  refine N.look fun s t hst hlike => ?_
  rw [hlike.kind_eq]
  split
  · exact N.take (fun _ _ _ => N.done rfl) s t hst
  · exact N.take (fun _ _ _ => N.done rfl) s t hst
  · exact (N.matches_reportExpected _).skip (fun _ => N.done rfl) s t hst

section Suffixes

variable {m m' : Mark} (hm : M.Marks m m') {inner inner' : Node} (hinner : M.Nodes inner inner')
include hm hinner

theorem matches_memberSuffix :
    N.Matches (memberSuffix m inner) (memberSuffix m' inner') M.Nodes :=
  N.take fun _ _ _ => N.matches_memberName?.skip fun _ => N.close hm (.cons hinner .nil)

theorem matches_indexSuffix :
    N.Matches (indexSuffix m inner) (indexSuffix m' inner') M.Nodes := by
  refine N.take fun _ _ _ => ?_
  refine (N.call _).bind fun index index' hindex => ?_
  refine (N.matches_expect .rBracket).skip fun _ => ?_
  exact N.close hm (.cons hinner (.cons hindex .nil))

theorem matches_sliceSuffix :
    N.Matches (sliceSuffix m inner) (sliceSuffix m' inner') M.Nodes := by
  refine N.take fun _ _ _ => ?_
  refine ((N.call _).separated (stop_eq .rBrace)).bind fun items items' hitems => ?_
  refine (N.matches_expectClosing .rBrace).skip fun _ => ?_
  exact N.close hm (.cons hinner hitems)

theorem matches_callSuffix : N.Matches (callSuffix m inner) (callSuffix m' inner') M.Nodes :=
  N.matches_arguments.bind fun _ _ hvalues => N.close hm (.cons hinner (.cons hvalues .nil))

theorem matches_operatorSuffix (symbol : Symbol) :
    N.Matches (operatorSuffix m symbol inner) (operatorSuffix m' symbol inner') M.Nodes :=
  N.take fun _ _ _ => N.close hm (.cons hinner .nil)

/-- Both parses begin the same suffix or none. -/
theorem matches_suffix? {s t : State} (hlike : s.Resembles t) :
    Option.Rel (fun suffix suffix' => N.Matches suffix suffix' M.Nodes)
      (suffix? m inner s.current) (suffix? m' inner' t.current) := by
  have hkind : t.current.kind = s.current.kind := hlike.kind_eq
  rw [suffix?, suffix?, hkind]
  split
  · exact .some (N.matches_memberSuffix hm hinner)
  · exact .some (N.matches_indexSuffix hm hinner)
  · rename_i hbrace
    have hpending : s.pending ≠ [] :=
      State.pending_ne_nil_of_isAt hlike.isEof_left (beq_iff_eq.mpr hbrace)
    rw [hlike.newlineBefore_eq hpending hbrace]
    split_ifs
    · exact .none
    · exact .some (N.matches_sliceSuffix hm hinner)
  · exact .some (N.matches_callSuffix hm hinner)
  · exact .some (N.matches_operatorSuffix hm hinner .plusPlus)
  · exact .some (N.matches_operatorSuffix hm hinner .minusMinus)
  · exact .none

theorem matches_rightOperand (power : Nat) :
    N.Matches (rightOperand m inner power) (rightOperand m' inner' power) M.Nodes := by
  refine N.take fun token token' hkind => ?_
  rw [hkind]
  split
  · refine (N.call _).bind fun middle middle' hmiddle => ?_
    refine (N.matches_expect .colon).skip fun _ => ?_
    refine (N.call _).bind fun right right' hright => ?_
    exact N.close hm (.cons hinner (.cons hmiddle (.cons hright .nil)))
  · exact (N.call _).bind fun _ _ hright => N.close hm (.cons hinner (.cons hright .nil))
  · exact (N.call _).bind fun _ _ hright => N.close hm (.cons hinner (.cons hright .nil))

theorem matches_expressionStep (power : Nat) :
    N.Matches (expressionStep m power inner) (expressionStep m' power inner')
      (Step.Both M.Nodes) := by
  refine N.look fun s t hst hlike => ?_
  have hkind : t.current.kind = s.current.kind := hlike.kind_eq
  have hsuffix := N.matches_suffix? hm hinner hlike
  dsimp only
  rw [hkind]
  generalize suffix? m inner s.current = one at hsuffix ⊢
  generalize suffix? m' inner' t.current = other at hsuffix ⊢
  cases hsuffix with
  | some hsuffix => exact hsuffix.bind (fun _ _ hnode => N.done (.again hnode)) s t hst
  | none =>
      dsimp only
      split
      · exact N.done (.done hinner) s t hst
      · split_ifs
        · exact N.done (.done hinner) s t hst
        · refine (N.matches_rightOperand hm hinner _).bind (fun _ _ hnode => ?_) s t hst
          exact N.done (.again hnode)

end Suffixes

theorem matches_expressionRule (power : Nat) :
    N.Matches (expressionRule power) (expressionRule power) M.Nodes := by
  refine N.mark fun m m' hm => N.matches_prefixed.bind fun first first' hfirst => ?_
  exact N.loop (Parser.shrinks_expressionStep N.onlyTakes_one m power)
    (Parser.shrinks_expressionStep N.onlyTakes_other m' power)
    (fun _ _ hleft => N.matches_expressionStep hm hleft power) hfirst

end QoreSyntax.Grammar.Simulation.Nesting
