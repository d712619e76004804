import QoreSyntax.Proofs.TypeName.Halves
import QoreSyntax.Proofs.TypeName.Reading

namespace QoreSyntax

open Grammar
open Token (Kind)

namespace Grammar.State

/-- The tokens ahead are of the given kinds. -/
structure Faces (kinds : List Kind) (s : State) : Prop where
  kinds_eq : s.pending.map Token.kind = kinds
  isEof_final : s.final.isEof = true

namespace Faces

variable {kinds more : List Kind} {kind : Kind} {s : State}

theorem exists_pending (h : s.Faces (kind :: kinds)) :
    ∃ t rest, s.pending = t :: rest ∧ t.kind = kind ∧ rest.map Token.kind = kinds := by
  obtain ⟨t, rest, hpending, hkind, hrest⟩ := List.map_eq_cons_iff.mp h.kinds_eq
  exact ⟨t, rest, hpending, hkind, hrest⟩

theorem kind_eq (h : s.Faces kinds) : s.kind = kinds.headD .eof := by
  rw [← h.kinds_eq, State.kind, current]
  cases s.pending with
  | nil => exact eq_of_beq h.isEof_final
  | cons t rest => rfl

theorem advance (h : s.Faces (kind :: kinds)) : s.advance.Faces kinds := by
  refine ⟨?_, ?_⟩
  · rw [advance_pending, List.map_tail, h.kinds_eq, List.tail_cons]
  · rw [advance_final]
    exact h.isEof_final

theorem advanceMany (h : s.Faces (kinds ++ more)) : (s.advanceMany kinds.length).Faces more := by
  induction kinds generalizing s with
  | nil => exact h
  | cons kind kinds ih => exact ih h.advance

theorem nest (h : s.Faces kinds) (depth : Nat) : State.Faces kinds { s with depth := depth } :=
  ⟨h.kinds_eq, h.isEof_final⟩

end Faces

end Grammar.State

open Grammar.Parser (Runs)

variable {nested : Goal → State → Node × State} {h : State} {rest : List Kind}

theorem Identifier.runs_optionalIdentifier (x : Identifier) (hahead : h.Faces (x.kind :: rest)) :
    Runs nested h optionalIdentifier x.text h.advance := by
  refine Runs.look fun o ho => ?_
  have hkind := State.kind_eq_of_halved ho hahead.kind_eq (ne_of_beq_false rfl)
  rw [hkind]
  exact Runs.advance hahead.kind_eq (ne_of_beq_false rfl) (ne_of_beq_false rfl) fun _ => Runs.done

namespace ScopedName

variable (honly : OnlyTakes nested)
include honly

theorem runs_scopes (parts : List Identifier) (hahead : h.Faces (scopeKinds parts ++ rest))
    (hrest : rest.headD .eof ≠ .symbol .doubleColon) (text : String) :
    Runs nested h (loop scopeStep text) ("::".intercalate (text :: parts.map (·.text)))
      (h.advanceMany (scopeKinds parts).length) := by
  have hstep := Parser.shrinks_scopeStep honly
  induction parts generalizing text h with
  | nil =>
      refine Runs.loop_done hstep honly hahead.isEof_final (Runs.look fun o ho => ?_)
      have hne : o.kind ≠ .symbol .doubleColon := by
        refine State.kind_ne_of_halved ho ?_ (ne_of_beq_false rfl)
        rw [hahead.kind_eq]
        exact hrest
      rw [List.map_nil, String.intercalate_singleton]
      split
      · exact absurd ‹_› hne
      · exact Runs.done
  | cons part parts ih =>
      have hname : h.advance.Faces (part.kind :: (scopeKinds parts ++ rest)) := hahead.advance
      have hagain : Runs nested h (scopeStep text) (.again (text ++ "::" ++ part.text))
          h.advance.advance := by
        refine Runs.look fun o ho => ?_
        have hcolons := State.kind_eq_of_halved ho hahead.kind_eq (ne_of_beq_false rfl)
        have hnot : o.kind ≠ .symbol .shr := by
          rw [hcolons]
          exact ne_of_beq_false rfl
        have hbehind : o.advance.halved = h.advance := by
          rw [State.advance_halved hnot, ho]
        have hpart : o.kindAt 1 = .identifier part.text := by
          rw [o.kindAt_one]
          exact State.kind_eq_of_halved hbehind hname.kind_eq (ne_of_beq_false rfl)
        rw [hcolons, hpart]
        refine Runs.advance hahead.kind_eq (ne_of_beq_false rfl) (ne_of_beq_false rfl) fun _ => ?_
        exact Runs.advance hname.kind_eq (ne_of_beq_false rfl) (ne_of_beq_false rfl) fun _ =>
          Runs.done
      refine Runs.loop_again hstep honly hahead.isEof_final hagain ?_
      have hmore := ih hname.advance (text ++ "::" ++ part.text)
      rwa [String.intercalate_cons_append, ← String.intercalate_cons_cons] at hmore

theorem runs_scopedName (name : ScopedName) (hahead : h.Faces (name.kinds ++ rest))
    (hrest : rest.headD .eof ≠ .symbol .doubleColon) :
    Runs nested h scopedName name.text (h.advanceMany name.kinds.length) := by
  obtain ⟨isRooted, first, parts⟩ := name
  have hname (root : Bool) {h : State}
      (hahead : h.Faces (first.kind :: (scopeKinds parts ++ rest))) :
      Runs nested h
        (optionalIdentifier >>= fun text => loop scopeStep ((if root then "::" else "") ++ text))
        (text ⟨root, first, parts⟩) (h.advanceMany (scopeKinds parts).length.succ) :=
    Runs.bind (first.runs_optionalIdentifier hahead)
      (runs_scopes honly parts hahead.advance hrest _)
  cases isRooted with
  | true =>
      refine Runs.bind (Runs.eat hahead.kind_eq (ne_of_beq_false rfl) (ne_of_beq_false rfl)) ?_
      exact hname true hahead.advance
  | false =>
      refine Runs.bind (Runs.eat_miss ?_ (ne_of_beq_false rfl)) (hname false hahead)
      rw [hahead.kind_eq]
      exact ne_of_beq_false rfl

end ScopedName

theorem TypeHead.runs_typeName? (honly : OnlyTakes nested) (head : TypeHead)
    (hahead : h.Faces (head.kinds ++ rest)) (hrest : rest.headD .eof ≠ .symbol .doubleColon) :
    Runs nested h typeName? (some head.text) (h.advanceMany head.kinds.length) := by
  refine Runs.look fun o ho => ?_
  cases head with
  | builtin word isBuiltin =>
      have hkind : o.kind = .keyword word :=
        State.kind_eq_of_halved ho hahead.kind_eq (ne_of_beq_false rfl)
      rw [hkind]
      dsimp only
      rw [if_pos isBuiltin]
      exact Runs.advance hahead.kind_eq (ne_of_beq_false rfl) (ne_of_beq_false rfl) fun _ =>
        Runs.done
  | named name =>
      have hname : Runs nested h (scopedName >>= fun text => pure (some text)) (some name.text)
          (h.advanceMany name.kinds.length) :=
        Runs.bind (name.runs_scopedName honly hahead hrest) Runs.done
      have hfirst : o.kind = name.first.kind ∨ o.kind = .symbol .doubleColon := by
        obtain ⟨isRooted, first, parts⟩ := name
        cases isRooted with
        | true => exact Or.inr (State.kind_eq_of_halved ho hahead.kind_eq (ne_of_beq_false rfl))
        | false => exact Or.inl (State.kind_eq_of_halved ho hahead.kind_eq (ne_of_beq_false rfl))
      rcases hfirst with hkind | hkind
      · rw [hkind]
        exact hname
      · rw [hkind]
        exact hname

namespace TypeName

mutual

/-- How deep types nest in the type, itself included. -/
def nesting : TypeName → Nat
  | mk _ _ arguments => nestingEach arguments + 1

def nestingEach : List TypeName → Nat
  | [] => 0
  | T :: rest => max T.nesting (nestingEach rest)

end

mutual

/-- The node that the type is read as where its tokens are next. -/
def nodeAt : TypeName → State → Node
  | mk isOptional head arguments, h =>
      (h.advanceMany (mk isOptional head arguments).kinds.length).close h.mark .type
        (.name (mk isOptional head arguments).text)
        (nodesAt arguments
          (h.advanceMany ((starKinds isOptional).length + head.kinds.length + 1)))

/-- The nodes of types that stand behind one another, with a comma between two of them. -/
def nodesAt : List TypeName → State → List Node
  | [], _ => []
  | T :: rest, h => T.nodeAt h :: nodesAt rest (h.advanceMany (T.kinds.length + 1))

end

theorem nesting_le_of_mem {T : TypeName} {arguments : List TypeName} (h : T ∈ arguments) :
    T.nesting ≤ nestingEach arguments := by
  induction arguments with
  | nil => cases h
  | cons U rest ih =>
      rw [nestingEach]
      rcases List.mem_cons.mp h with rfl | hmem
      · exact Nat.le_max_left _ _
      · exact (ih hmem).trans (Nat.le_max_right _ _)

mutual

/-- How deep constructs nest around a type is of no matter to its nodes. -/
theorem nodeAt_nest : ∀ (T : TypeName) (h : State) (depth : Nat),
    T.nodeAt { h with depth := depth } = T.nodeAt h
  | mk isOptional head arguments, h, depth => by
      have hlast := State.advanceMany_nest (mk isOptional head arguments).kinds.length h depth
      have hinner := State.advanceMany_nest
        ((starKinds isOptional).length + head.kinds.length + 1) h depth
      rw [nodeAt, nodeAt, hlast, hinner, nodesAt_nest]
      rfl

theorem nodesAt_nest : ∀ (types : List TypeName) (h : State) (depth : Nat),
    nodesAt types { h with depth := depth } = nodesAt types h
  | [], _, _ => rfl
  | T :: rest, h, depth => by
      have hrest := State.advanceMany_nest (T.kinds.length + 1) h depth
      rw [nodesAt, nodesAt, nodeAt_nest, hrest, nodesAt_nest]

end

mutual

theorem shape_nodeAt : ∀ (T : TypeName) (h : State), (T.nodeAt h).shape = T.shape
  | mk isOptional head arguments, h => by
      rw [nodeAt, shape]
      exact congrArg (Node.Shape.mk _ _) (shapes_nodesAt arguments _)

theorem shapes_nodesAt : ∀ (types : List TypeName) (h : State),
    Node.shapes (nodesAt types h) = shapeEach types
  | [], _ => rfl
  | T :: rest, h => by rw [nodesAt, Node.shapes, shapeEach, shape_nodeAt, shapes_nodesAt]

end

/-- Types in which no more than `bound` types nest are read where they are called for. -/
def RunsWithin (nested : Goal → State → Node × State) (depth bound : Nat) : Prop :=
  ∀ (T : TypeName) (h : State) (rest : List Kind), T.nesting ≤ bound → h.depth = depth →
    h.Faces (T.kinds ++ rest) → endsType (rest.headD .eof) = true →
      Runs nested h Grammar.type (T.nodeAt h) (h.advanceMany T.kinds.length)

section Rule

variable {depth bound : Nat} (hnested : RunsWithin nested depth bound) (honly : OnlyTakes nested)
include hnested honly

/-- The arguments of a type up to the bracket behind them; some have been read before. -/
theorem runs_argumentSteps {arguments : List TypeName} (hne : arguments ≠ [])
    (hbound : ∀ T ∈ arguments, T.nesting ≤ bound) (hdepth : h.depth = depth)
    (hahead : h.Faces (Token.commas (kindsEach arguments) ++ .symbol .gt :: rest))
    (items : List Node) :
    Runs nested h (loop (separatedStep (fun _ => false) Grammar.type) items)
      ((nodesAt arguments h).reverse ++ items)
      (h.advanceMany (Token.commas (kindsEach arguments)).length) := by
  have hstep := Parser.shrinks_separatedStep honly (fun _ => false) Grammar.type
  induction arguments generalizing h items with
  | nil => exact absurd rfl hne
  | cons T others ih =>
      obtain ⟨hT, hothers⟩ := List.forall_mem_cons.mp hbound
      cases others with
      | nil =>
          rw [kindsEach, kindsEach, Token.commas_singleton] at hahead ⊢
          have hitem := hnested T h _ hT hdepth hahead rfl
          refine Runs.loop_done hstep honly hahead.isEof_final (Runs.look fun _ _ => ?_)
          refine Runs.bind hitem (Runs.bind (Runs.eat_miss ?_ (ne_of_beq_false rfl)) Runs.done)
          rw [hahead.advanceMany.kind_eq]
          exact ne_of_beq_false rfl
      | cons next others =>
          rw [kindsEach, kindsEach, Token.commas_cons_cons, ← kindsEach, List.append_assoc,
            List.cons_append] at hahead
          have hitem := hnested T h _ hT hdepth hahead rfl
          have hcomma := hahead.advanceMany
          have hagain : Runs nested h (separatedStep (fun _ => false) Grammar.type items)
              (.again (T.nodeAt h :: items)) (h.advanceMany T.kinds.length).advance := by
            refine Runs.look fun _ _ => Runs.bind hitem ?_
            exact Runs.bind (Runs.eat hcomma.kind_eq (ne_of_beq_false rfl) (ne_of_beq_false rfl))
              Runs.done
          refine Runs.loop_again hstep honly hahead.isEof_final hagain ?_
          have hplace : (h.advanceMany T.kinds.length).advance
              = h.advanceMany (T.kinds.length + 1) :=
            (State.advanceMany_add T.kinds.length 1 h).symm
          have hopen : (h.advanceMany T.kinds.length).advance.depth = depth := by
            rw [hplace, State.advanceMany_depth, hdepth]
          have hmore := ih (List.cons_ne_nil next others) hothers hopen hcomma.advance
            (T.nodeAt h :: items)
          rw [hplace] at hmore ⊢
          rw [nodesAt, List.reverse_cons, List.append_assoc, List.singleton_append]
          rw [← State.advanceMany_add] at hmore
          have hlength : (Token.commas (kindsEach (T :: next :: others))).length
              = T.kinds.length + 1 + (Token.commas (kindsEach (next :: others))).length := by
            rw [kindsEach, kindsEach, Token.commas_cons_cons, ← kindsEach, List.length_append,
              List.length_cons]
            omega
          rwa [hlength]

theorem runs_behindName {m : Mark} {name : String} {arguments : List TypeName}
    (hdepth : h.depth = depth) (hbound : ∀ T ∈ arguments, T.nesting ≤ bound)
    (hahead : h.Faces (bracketed (kindsEach arguments) ++ rest))
    (hangle : rest.headD .eof ≠ .symbol .lt) :
    Runs nested h
      (do
        if ← eat .lt then
          let nodes ← commaList Grammar.type
          let closed ← expectAngle
          close m .type (.name (name ++ argumentsText nodes closed)) nodes
        else close m .type (.name name) [])
      ((h.advanceMany (bracketed (kindsEach arguments)).length).close m .type
        (.name (name ++ bracketedText (textEach arguments))) (nodesAt arguments h.advance))
      (h.advanceMany (bracketed (kindsEach arguments)).length) := by
  cases arguments with
  | nil =>
      refine Runs.bind (Runs.eat_miss ?_ (ne_of_beq_false rfl)) ?_
      · rw [hahead.kind_eq]
        exact hangle
      · rw [textEach, bracketedText, String.append_empty]
        exact Runs.close m .type (.name name) []
  | cons first others =>
      have hne := List.cons_ne_nil first others
      have hbracket : bracketed (kindsEach (first :: others))
          = .symbol .lt :: (Token.commas (kindsEach (first :: others)) ++ [.symbol .gt]) := by
        rw [kindsEach, bracketed]
        exact List.cons_ne_nil _ _
      rw [hbracket, List.cons_append, List.append_assoc] at hahead
      rw [hbracket]
      have hlast : h.advanceMany (.symbol .lt :: (Token.commas (kindsEach (first :: others))
          ++ [.symbol .gt])).length
          = (h.advance.advanceMany
            (Token.commas (kindsEach (first :: others))).length).advance := by
        rw [List.length_cons, List.length_append]
        exact State.advanceMany_add _ 1 h.advance
      have hopen : h.advance.depth = depth := h.advance_depth.trans hdepth
      have hitems := runs_argumentSteps hnested honly hne hbound hopen hahead.advance []
      have hclosing := hahead.advance.advanceMany
      rw [hlast]
      refine Runs.bind (Runs.eat hahead.kind_eq (ne_of_beq_false rfl) (ne_of_beq_false rfl)) ?_
      refine Runs.bind (Runs.bind hitems Runs.done) ?_
      rw [List.append_nil, List.reverse_reverse]
      refine Runs.bind (Runs.expectAngle hclosing.isEof_final hclosing.kind_eq) ?_
      have htexts : argumentsText (nodesAt (first :: others) h.advance) true
          = bracketedText (textEach (first :: others)) := by
        have hshapes := shapes_nodesAt (first :: others) h.advance
        rw [shapeEach_eq_map] at hshapes
        rw [argumentsText, names_of_shapes hshapes, textEach_eq_map]
        rfl
      rw [htexts]
      exact Runs.close m .type _ _

/-- What stands behind the star of a type. -/
theorem runs_behindStar (m : Mark) (star : String) {head : TypeHead} {arguments : List TypeName}
    (hdepth : h.depth = depth) (hbound : ∀ T ∈ arguments, T.nesting ≤ bound)
    (hahead : h.Faces (head.kinds ++ (bracketed (kindsEach arguments) ++ rest)))
    (hends : endsType (rest.headD .eof) = true) :
    Runs nested h
      (do
        match ← typeName? with
        | none => close m (if star.isEmpty then .missing else .type) (.name star) []
        | some name =>
            if ← eat .lt then
              let nodes ← commaList Grammar.type
              let closed ← expectAngle
              close m .type (.name (star ++ name ++ argumentsText nodes closed)) nodes
            else close m .type (.name (star ++ name)) [])
      ((h.advanceMany (head.kinds ++ bracketed (kindsEach arguments)).length).close m .type
        (.name (star ++ head.text ++ bracketedText (textEach arguments)))
        (nodesAt arguments (h.advanceMany (head.kinds.length + 1))))
      (h.advanceMany (head.kinds ++ bracketed (kindsEach arguments)).length) := by
  obtain ⟨hscope, hangle⟩ := ne_of_endsType hends
  have hscope' : (bracketed (kindsEach arguments) ++ rest).headD .eof ≠ .symbol .doubleColon := by
    cases kindsEach arguments with
    | nil => exact hscope
    | cons first others => exact ne_of_beq_false rfl
  have hopen : (h.advanceMany head.kinds.length).depth = depth :=
    (State.advanceMany_depth _ h).trans hdepth
  rw [List.length_append, State.advanceMany_add, State.advanceMany_add]
  exact Runs.bind (head.runs_typeName? honly hahead hscope')
    (runs_behindName hnested honly hopen hbound hahead.advanceMany hangle)

/-- The rule for types reads one up to where it ends. -/
theorem runs_typeRule (T : TypeName) (hT : T.nesting ≤ bound + 1) (hdepth : h.depth = depth)
    (hahead : h.Faces (T.kinds ++ rest)) (hends : endsType (rest.headD .eof) = true) :
    Runs nested h typeRule (T.nodeAt h) (h.advanceMany T.kinds.length) := by
  obtain ⟨isOptional, head, arguments⟩ := T
  have hbound : ∀ T ∈ arguments, T.nesting ≤ bound := fun T hmem =>
    (nesting_le_of_mem hmem).trans (Nat.le_of_succ_le_succ hT)
  rw [kinds, List.append_assoc, List.append_assoc] at hahead
  rw [nodeAt, text, kinds]
  refine Runs.bind Runs.mark ?_
  cases isOptional with
  | true =>
      have hopen : h.advance.depth = depth := h.advance_depth.trans hdepth
      have hlast (n : Nat) : h.advance.advanceMany n = h.advanceMany (1 + n) :=
        (State.advanceMany_add 1 n h).symm
      have hbehind := runs_behindStar hnested honly h.mark "*" hopen hbound hahead.advance hends
      rw [hlast, hlast] at hbehind
      refine Runs.bind (Runs.eat hahead.kind_eq (ne_of_beq_false rfl) (ne_of_beq_false rfl)) ?_
      rw [List.length_append, Nat.add_assoc]
      exact hbehind
  | false =>
      have hbehind := runs_behindStar hnested honly h.mark "" hdepth hbound hahead hends
      refine Runs.bind (Runs.eat_miss ?_ (ne_of_beq_false rfl)) ?_
      · rw [hahead.kind_eq]
        exact head_ne_star head _
      · have hnone : starKinds false = [] := rfl
        rw [hnone, List.nil_append, List.length_nil, Nat.zero_add]
        exact hbehind

end Rule

/-- With enough room for nesting a type is read where it is called for. -/
theorem runsWithin_parse {limit room depth bound : Nat} (hroom : bound ≤ room)
    (hlimit : depth + bound ≤ limit) : RunsWithin (Grammar.parse limit room) depth bound := by
  refine Parser.parse_induction (P := RunsWithin) ?_ ?_ hroom hlimit
  · intro nested depth T h rest hT
    obtain ⟨isOptional, head, arguments⟩ := T
    exact absurd hT (Nat.not_succ_le_zero _)
  · intro limit room depth bound hdepth _ _ hnested T h rest hT hopen hahead hends
    have hrule := runs_typeRule hnested (onlyTakes_parse limit room) T hT
      (congrArg (· + 1) hopen) (hahead.nest (h.depth + 1)) hends
    rw [nodeAt_nest, State.advanceMany_nest] at hrule
    have hcall := Runs.call .type h.depth (hopen ▸ hdepth) hrule
    have hsame : { h.advanceMany T.kinds.length with depth := h.depth }
        = h.advanceMany T.kinds.length := by
      rw [← State.advanceMany_depth T.kinds.length h]
    rw [hsame] at hcall
    exact hcall

end TypeName

end QoreSyntax
