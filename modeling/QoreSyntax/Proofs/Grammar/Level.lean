import Mathlib.Logic.Relation
import QoreSyntax.Grammar.Level
import QoreSyntax.Proofs.Grammar.Concatenation

/-!
The levels of a run. Each construct leaves the level that it enters on each of its ways out, so that
a construct ends on the level on which it begins, and what lies outside of all constructs is on
level zero.
-/

namespace QoreSyntax.Grammar

open Relation (ReflTransGen)

variable {α β γ : Type} {limit : Nat}

/-- A run goes on from one moment to the other. -/
def Moment.LeadsTo (limit : Nat) : Moment α → Moment α → Prop :=
  ReflTransGen fun m after => m.next? limit = some after

namespace Routine

theorem bind_assoc (routine : Routine α) (f : α → Routine β) (g : β → Routine γ) :
    routine >>= f >>= g = routine >>= fun result => f result >>= g := by
  change (routine.bind f).bind g = routine.bind fun result => (f result).bind g
  induction routine with
  | done result => rfl
  | look next ih => exact congrArg _ (funext ih)
  | advance next ih => exact congrArg _ (funext ih)
  | splitShift next ih => exact congrArg _ ih
  | report problem next ih => exact congrArg _ ih
  | resume next ih => exact congrArg _ ih
  | enter next ih => exact congrArg _ ih
  | leave next ih => exact congrArg _ ih
  | call goal next ih => exact congrArg _ (funext ih)

theorem bind_done (routine : Routine α) : routine >>= Routine.done = routine := by
  change routine.bind Routine.done = routine
  induction routine with
  | done result => rfl
  | look next ih => exact congrArg _ (funext ih)
  | advance next ih => exact congrArg _ (funext ih)
  | splitShift next ih => exact congrArg _ ih
  | report problem next ih => exact congrArg _ ih
  | resume next ih => exact congrArg _ ih
  | enter next ih => exact congrArg _ ih
  | leave next ih => exact congrArg _ ih
  | call goal next ih => exact congrArg _ (funext ih)

/-- From a state on, the routine enters no level beyond the limit and leaves none that it has not
entered, and comes out on the level `exit`, if the constructs that it calls for end on the level on
which they begin. -/
def Tracks (limit : Nat) (exit : α → Nat) : Routine α → State → Prop
  | .done result, s => s.depth = exit result
  | .look next, s => (next s).Tracks limit exit s
  | .advance next, s => (next s.current).Tracks limit exit s.advance
  | .splitShift next, s => next.Tracks limit exit s.splitShift
  | .report problem next, s => next.Tracks limit exit (s.report problem)
  | .resume next, s => next.Tracks limit exit s.resume
  | .enter next, s => s.depth < limit ∧ next.Tracks limit exit s.enter
  | .leave next, s => 0 < s.depth ∧ next.Tracks limit exit s.leave
  | .call _ next, s => ∀ node after, after.depth = s.depth → (next node).Tracks limit exit after

theorem Tracks.bind {middle : α → Nat} {exit : β → Nat} {routine : Routine α}
    {f : α → Routine β} {s : State} (h : routine.Tracks limit middle s)
    (hf : ∀ result after, after.depth = middle result → (f result).Tracks limit exit after) :
    (routine >>= f).Tracks limit exit s := by
  change (routine.bind f).Tracks limit exit s
  induction routine generalizing s with
  | done result => exact hf result s h
  | look next ih => exact ih s h
  | advance next ih => exact ih s.current h
  | splitShift next ih => exact ih h
  | report problem next ih => exact ih h
  | resume next ih => exact ih h
  | enter next ih => exact ⟨h.1, ih h.2⟩
  | leave next ih => exact ⟨h.1, ih h.2⟩
  | call goal next ih => exact fun node after hafter => ih node (h node after hafter)

end Routine

namespace Parser

open Routine

variable {depth : Nat} {s : State}

/-- A parser has no level to leave. -/
theorem tracks_routine_iff (parser : Parser α) :
    parser.routine.Tracks limit (fun _ => depth) s ↔ s.depth = depth := by
  induction parser generalizing s with
  | done result => exact Iff.rfl
  | look next ih => exact ih s
  | advance next ih => exact (ih s.current).trans (by rw [s.advance_depth])
  | splitShift next ih => exact ih.trans (by rw [s.splitShift_depth])
  | report problem next ih => exact ih (s := s.report problem)
  | resume next ih => exact ih (s := s.resume)
  | call goal next ih =>
      constructor
      · exact fun h => (ih (s.placeholder .missing)).mp (h _ s rfl)
      · exact fun hs node after hafter => (ih node).mpr (hafter.trans hs)

/-- A step of a routine that a parser takes, and what is done afterwards. -/
theorem tracks_bind (parser : Parser α) {exit : β → Nat} {f : α → Routine β} (hs : s.depth = depth)
    (hf : ∀ result after, after.depth = depth → (f result).Tracks limit exit after) :
    (parser.routine >>= f).Tracks limit exit s :=
  (parser.tracks_routine_iff.mpr hs).bind hf

end Parser

namespace Routine

variable {depth : Nat} {s : State}

theorem tracks_enterLevel (hs : s.depth = depth) :
    (enterLevel limit).Tracks limit (fun entered => if entered then depth + 1 else depth) s := by
  change Tracks limit _ (if limit ≤ s.depth then (refusal limit).routine >>= fun _ => .done false
    else .enter (.done true)) s
  split_ifs with hlimit
  · exact (refusal limit).tracks_bind hs fun _ after hafter => hafter
  · exact ⟨by omega, congrArg (· + 1) hs⟩

theorem tracks_onLevel {body : Mark → Routine Node} (hs : s.depth = depth)
    (hbody : ∀ m after, after.depth = depth + 1 → (body m).Tracks limit (fun _ => depth) after) :
    (onLevel limit body).Tracks limit (fun _ => depth) s := by
  refine mark.tracks_bind hs fun m marked hmarked => (tracks_enterLevel hmarked).bind ?_
  rintro (_ | _) after hafter
  · exact (close m .error .none []).tracks_routine_iff.mpr hafter
  · exact hbody m after hafter

/-- The routine does what the parser does, and leaves a level on each of its ways out. -/
inductive Leaves : Routine Node → Parser Node → Prop
  | last (parser : Parser Node) :
      Leaves (parser.routine >>= fun node => leaveLevel >>= fun _ => pure node) parser
  | close (m : Mark) (kind : Node.Kind) (payload : Payload) (children : List Node) :
      Leaves (leaveLevel >>= fun _ => (Grammar.close m kind payload children).routine)
        (Grammar.close m kind payload children)
  | bind {α : Type} (parser : Parser α) {f : α → Routine Node} {g : α → Parser Node}
      (h : ∀ result, Leaves (f result) (g result)) : Leaves (parser.routine >>= f) (parser >>= g)

theorem Leaves.tracks {routine : Routine Node} {parser : Parser Node}
    (h : routine.Leaves parser) (hs : s.depth = depth + 1) :
    routine.Tracks limit (fun _ => depth) s := by
  have hleave {after : State} (hafter : after.depth = depth + 1) :
      0 < after.depth ∧ after.leave.depth = depth :=
    ⟨by omega, congrArg (· - 1) hafter⟩
  induction h generalizing s with
  | last parser => exact parser.tracks_bind hs fun node after hafter => hleave hafter
  | close m kind payload children => exact hleave hs
  | bind parser _ ih => exact parser.tracks_bind hs fun result after hafter => ih result hafter

end Routine

namespace Goal

/-- The body of a construct is the part of its rule behind the mark, with a level to leave. -/
theorem exists_leaves_body (goal : Goal) :
    ∃ rest : Mark → Parser Node, (∀ nested, goal.rule.run nested = (mark >>= rest).run nested) ∧
      ∀ m, (goal.body m).Leaves (rest m) := by
  cases goal with
  | statement => exact ⟨fun _ => statementRule, fun _ => rfl, fun _ => .last statementRule⟩
  | expression power =>
      exact ⟨_, fun _ => rfl, fun m => .bind prefixed fun first => .last _⟩
  | type =>
      refine ⟨_, fun _ => rfl, fun m => .bind (eat .star) fun starred =>
        .bind typeName? fun name? => ?_⟩
      cases name? with
      | none => exact .close ..
      | some name =>
          refine .bind (eat .lt) fun opened => ?_
          cases opened with
          | false => exact .close ..
          | true => exact .bind _ fun arguments => .bind expectAngle fun closed => .close ..

/-- Each construct ends on the level on which it begins, on each of its ways out. -/
theorem tracks_routine (goal : Goal) {depth : Nat} {s : State} (hs : s.depth = depth) :
    (goal.routine limit).Tracks limit (fun _ => depth) s :=
  have ⟨_, _, hleaves⟩ := goal.exists_leaves_body
  Routine.tracks_onLevel hs fun m _ hentered => (hleaves m).tracks hentered

end Goal

namespace Moment

variable {depth : Nat} {m after : Moment α}

/-- The limit is kept, and what is still to be done comes out on the level `depth`. -/
structure IsSound (limit depth : Nat) (m : Moment α) : Prop where
  depth_le : m.state.depth ≤ limit
  tracks : m.rest.Tracks limit (fun _ => depth) m.state

theorem IsSound.next (h : m.IsSound limit depth) (hnext : m.next? limit = some after) :
    after.IsSound limit depth := by
  obtain ⟨rest, s⟩ := m
  obtain ⟨hle, htracks⟩ := h
  cases rest <;> cases hnext
  case look next => exact ⟨hle, htracks⟩
  case advance next => exact ⟨s.advance_depth.trans_le hle, htracks⟩
  case splitShift next => exact ⟨s.splitShift_depth.trans_le hle, htracks⟩
  case report problem next => exact ⟨hle, htracks⟩
  case resume next => exact ⟨hle, htracks⟩
  case enter next => exact ⟨htracks.1, htracks.2⟩
  case leave next => exact ⟨(Nat.sub_le _ 1).trans hle, htracks.2⟩
  -- What follows the construct begins on the level of the call, whatever is read before.
  case call goal next => exact ⟨hle, (goal.tracks_routine rfl).bind htracks⟩

theorem IsSound.leadsTo (h : m.IsSound limit depth) (hrun : m.LeadsTo limit after) :
    after.IsSound limit depth := by
  induction hrun with
  | refl => exact h
  | tail _ hnext ih => exact ih.next hnext

end Moment

namespace Routine

/-- From the state `s` the routine comes to its end with `result`, in the state `after`, whatever is
to be done afterwards. -/
def EndsIn (limit : Nat) (routine : Routine α) (s : State) (result : α) (after : State) : Prop :=
  ∀ (β : Type) (next : α → Routine β),
    Moment.LeadsTo limit ⟨routine >>= next, s⟩ ⟨next result, after⟩

theorem endsIn_done (result : α) (s : State) : (done result).EndsIn limit s result s :=
  fun _ _ => .refl

theorem EndsIn.of_next {routine following : Routine α} {s t after : State} {result : α}
    (h : following.EndsIn limit t result after)
    (hnext : ∀ {β : Type} (next : α → Routine β),
      Moment.next? limit ⟨routine >>= next, s⟩ = some ⟨following >>= next, t⟩) :
    routine.EndsIn limit s result after :=
  fun _ next => .head (hnext next) (h _ next)

theorem EndsIn.bind {routine : Routine α} {f : α → Routine β} {s middle after : State}
    {first : α} {result : β} (h : routine.EndsIn limit s first middle)
    (hf : (f first).EndsIn limit middle result after) :
    (routine >>= f).EndsIn limit s result after := by
  intro γ next
  rw [bind_assoc]
  exact (h γ _).trans (hf γ next)

end Routine

/-- From a state on the level `depth`, the constructs are read as their routines read them. -/
def Realises (limit depth : Nat) (nested : Goal → State → Node × State) : Prop :=
  ∀ (goal : Goal) (s : State), s.depth = depth →
    (goal.routine limit).EndsIn limit s (nested goal s).1 (nested goal s).2

section Realises

open Routine

variable {depth room : Nat} {s : State}

theorem Realises.endsIn (h : Realises limit depth (parse limit room)) (parser : Parser α)
    (hs : s.depth = depth) :
    parser.routine.EndsIn limit s (parser.run (parse limit room) s).1
      (parser.run (parse limit room) s).2 := by
  induction parser generalizing s with
  | done result => exact endsIn_done result s
  | look next ih => exact (ih s hs).of_next fun _ => rfl
  | advance next ih => exact (ih s.current (s.advance_depth.trans hs)).of_next fun _ => rfl
  | splitShift next ih => exact (ih (s.splitShift_depth.trans hs)).of_next fun _ => rfl
  | report problem next ih => exact (ih (s := s.report problem) hs).of_next fun _ => rfl
  | resume next ih => exact (ih (s := s.resume) hs).of_next fun _ => rfl
  | call goal next ih =>
      have hnode := h goal s hs
      have hrest := ih (parse limit room goal s).1 ((parse_depth limit room goal s).trans hs)
      refine (hnode.bind (f := fun node => (next node).routine) hrest).of_next fun following => ?_
      rw [bind_assoc]
      rfl

theorem Realises.endsIn_of_leaves (h : Realises limit depth (parse limit room))
    {routine : Routine Node} {parser : Parser Node} (hleaves : routine.Leaves parser)
    (hs : s.depth = depth) :
    routine.EndsIn limit s (parser.run (parse limit room) s).1
      (parser.run (parse limit room) s).2.leave := by
  induction hleaves generalizing s with
  | last parser => exact (h.endsIn parser hs).bind ((endsIn_done _ _).of_next fun _ => rfl)
  | close m kind payload children =>
      exact ((endsIn_done _ s.leave).of_next (s := s.leave) fun _ => rfl).of_next fun _ => rfl
  | bind parser _ ih =>
      rw [Parser.run_bind]
      have hdepth := (run_depth (parse_depth limit room) parser s).trans hs
      exact (h.endsIn parser hs).bind (ih _ hdepth)

theorem endsIn_advanceMany (n : Nat) (s : State) :
    (advanceMany n).routine.EndsIn limit s () (s.advanceMany n) := by
  induction n generalizing s with
  | zero => exact endsIn_done () s
  | succ n ih => exact (ih s.advance).of_next fun _ => rfl

theorem endsIn_refusal (s : State) :
    (refusal limit).routine.EndsIn limit s () (s.report (.tooDeep limit)).skipConstruct :=
  EndsIn.of_next (t := s.report (.tooDeep limit))
    ((endsIn_advanceMany _ _).of_next fun _ => rfl) fun _ => rfl

theorem endsIn_enterLevel_of_le (hlimit : limit ≤ s.depth) :
    (enterLevel limit).EndsIn limit s false (s.refuse limit).2 := by
  have hrefused : (if limit ≤ s.depth then (refusal limit).routine >>= fun _ => pure false
      else Routine.enter (.done true)).EndsIn limit s false (s.refuse limit).2 := by
    rw [if_pos hlimit]
    exact (endsIn_refusal s).bind (endsIn_done false _)
  exact hrefused.of_next fun _ => rfl

theorem endsIn_enterLevel_of_lt (hlimit : s.depth < limit) :
    (enterLevel limit).EndsIn limit s true s.enter := by
  have hentered : (if limit ≤ s.depth then (refusal limit).routine >>= fun _ => pure false
      else Routine.enter (.done true)).EndsIn limit s true s.enter := by
    rw [if_neg hlimit.not_ge]
    exact (endsIn_done true s.enter).of_next fun _ => rfl
  exact hentered.of_next fun _ => rfl

theorem endsIn_onLevel {body : Mark → Routine Node} {entered : Bool} {middle after : State}
    {node : Node} (henter : (enterLevel limit).EndsIn limit s entered middle)
    (h : (if entered then body s.mark else (close s.mark .error .none []).routine).EndsIn limit
      middle node after) : (onLevel limit body).EndsIn limit s node after :=
  (henter.bind (f := fun entered => if entered then body s.mark
    else (close s.mark .error .none []).routine) h).of_next fun _ => rfl

theorem endsIn_refuse (goal : Goal) (hlimit : limit ≤ s.depth) :
    (goal.routine limit).EndsIn limit s (s.refuse limit).1 (s.refuse limit).2 :=
  endsIn_onLevel (endsIn_enterLevel_of_le hlimit) ((endsIn_done _ _).of_next fun _ => rfl)

/-- Where there is room for all the levels up to the limit, the constructs are read as their
routines read them. -/
theorem realises_parse (hroom : limit ≤ depth + room) :
    Realises limit depth (parse limit room) := by
  -- What nests in a construct has less room and is a level deeper, so that the sum stays the same.
  induction room generalizing depth with
  | zero => exact fun goal s hs => endsIn_refuse goal (by omega)
  | succ room ih =>
      intro goal s hs
      rw [parse]
      split_ifs with hlimit
      · exact endsIn_refuse goal hlimit
      · obtain ⟨rest, hrun, hleaves⟩ := goal.exists_leaves_body
        have hbody := (ih (by omega)).endsIn_of_leaves (s := s.enter) (hleaves s.mark)
          (congrArg (· + 1) hs)
        rw [hrun]
        exact endsIn_onLevel (endsIn_enterLevel_of_lt (by omega)) hbody

/-- The routine of a parser ends as the parser does. -/
theorem endsIn_runWithin (parser : Parser α) (s : State) :
    parser.routine.EndsIn limit s (parser.runWithin limit s).1 (parser.runWithin limit s).2 :=
  (realises_parse (Nat.le_add_left limit s.depth)).endsIn parser rfl

end Realises

theorem Moment.eq_of_done_leadsTo {result : α} {s : State} {m : Moment α}
    (h : Moment.LeadsTo limit ⟨.done result, s⟩ m) : m = ⟨.done result, s⟩ := by
  obtain heq | ⟨_, hnext, _⟩ := h.cases_head
  · exact heq.symm
  · cases hnext

/-- A routine comes to its end in one way. -/
theorem Routine.EndsIn.eq_of_leadsTo {routine : Routine α} {s after other : State}
    {result last : α} (h : routine.EndsIn limit s result after)
    (hrun : Moment.LeadsTo limit ⟨routine, s⟩ ⟨.done last, other⟩) : other = after := by
  have hend := h α .done
  rw [bind_done] at hend
  have hunique : Relator.RightUnique fun m next : Moment α => m.next? limit = some next :=
    fun _ _ _ hone hother => Option.some.inj (hone.symm.trans hother)
  obtain hto | hto := hend.total_of_right_unique hunique hrun
  · exact congrArg Moment.state (Moment.eq_of_done_leadsTo hto)
  · exact (congrArg Moment.state (Moment.eq_of_done_leadsTo hto)).symm

/-- The routine comes to an end from each state, and each end of it is on the level on which it has
begun. -/
structure Routine.KeepsLevel (limit : Nat) (routine : Routine α) : Prop where
  endsIn : ∀ s, ∃ result after, routine.EndsIn limit s result after
  depth_eq : ∀ s result after, Moment.LeadsTo limit ⟨routine, s⟩ ⟨.done result, after⟩ →
    after.depth = s.depth

theorem Routine.keepsLevel_of_endsIn {routine : Routine α} {run : State → α × State}
    (h : ∀ s, routine.EndsIn limit s (run s).1 (run s).2)
    (hdepth : ∀ s, (run s).2.depth = s.depth) : routine.KeepsLevel limit where
  endsIn s := ⟨(run s).1, (run s).2, h s⟩
  depth_eq s _ _ hrun := by rw [(h s).eq_of_leadsTo hrun, hdepth s]

theorem Goal.keepsLevel (goal : Goal) : (goal.routine limit).KeepsLevel limit :=
  Routine.keepsLevel_of_endsIn
    (fun s => realises_parse (Nat.le_add_left limit s.depth) goal s rfl)
    (parse_depth limit limit goal)

theorem Parser.keepsLevel (parser : Parser α) : parser.routine.KeepsLevel limit :=
  Routine.keepsLevel_of_endsIn (endsIn_runWithin parser)
    (run_depth (parse_depth limit limit) parser)

/-- The level is within the limit, no level is left where there is none, and outside of all
constructs, where what is still to be done is what a parser does, the level is zero. -/
structure Moment.IsCounted (limit : Nat) (m : Moment α) : Prop where
  depth_le : m.state.depth ≤ limit
  depth_pos : ∀ next, m.rest = .leave next → 0 < m.state.depth
  depth_eq_zero : ∀ parser : Parser α, m.rest = parser.routine → m.state.depth = 0

/-- The constructs that the parser itself calls for, with the states in which it does. -/
def Parser.calls (limit : Nat) : Parser α → State → List (Goal × State)
  | .done _, _ => []
  | .look next, s => (next s).calls limit s
  | .advance next, s => (next s.current).calls limit s.advance
  | .splitShift next, s => next.calls limit s.splitShift
  | .report problem next, s => next.calls limit (s.report problem)
  | .resume next, s => next.calls limit s.resume
  | .call goal next, s =>
      let (node, after) := parse limit limit goal s
      (goal, s) :: (next node).calls limit after

/-- A parser calls for its constructs outside of all constructs. -/
theorem Parser.leadsTo_of_mem_calls {parser : Parser α} {s t : State} {goal : Goal}
    (h : (goal, t) ∈ parser.calls limit s) :
    ∃ next, Moment.LeadsTo limit ⟨parser.routine, s⟩ ⟨(Parser.call goal next).routine, t⟩ := by
  induction parser generalizing s with
  | done result => cases h
  | look next ih => exact (ih s h).imp fun _ hrun => .head rfl hrun
  | advance next ih => exact (ih s.current h).imp fun _ hrun => .head rfl hrun
  | splitShift next ih => exact (ih h).imp fun _ hrun => .head rfl hrun
  | report problem next ih => exact (ih (s := s.report problem) h).imp fun _ hrun => .head rfl hrun
  | resume next ih => exact (ih (s := s.resume) h).imp fun _ hrun => .head rfl hrun
  | call inner next ih =>
      obtain heq | hlater := List.mem_cons.mp h
      · cases heq
        exact ⟨next, .refl⟩
      · have hinner := realises_parse (Nat.le_add_left limit s.depth) inner s rfl
        exact (ih _ hlater).imp fun _ hrun =>
          .head rfl ((hinner _ fun node => (next node).routine).trans hrun)

theorem Moment.IsSound.isCounted {m : Moment α} (h : m.IsSound limit 0) : m.IsCounted limit where
  depth_le := h.depth_le
  depth_pos next hrest := by
    have htracks := h.tracks
    rw [hrest] at htracks
    exact htracks.1
  depth_eq_zero parser hrest := by
    have htracks := h.tracks
    rw [hrest] at htracks
    exact parser.tracks_routine_iff.mp htracks

section Calls

variable {parser : Parser α} {s : State}

theorem Parser.isCounted_of_leadsTo (hs : s.depth = 0) {m : Moment α}
    (hrun : Moment.LeadsTo limit ⟨parser.routine, s⟩ m) : m.IsCounted limit := by
  have hstart : Moment.IsSound limit 0 ⟨parser.routine, s⟩ :=
    ⟨hs.trans_le limit.zero_le, parser.tracks_routine_iff.mpr hs⟩
  exact (hstart.leadsTo hrun).isCounted

theorem Parser.depth_of_mem_calls (hs : s.depth = 0) {call : Goal × State}
    (hcall : call ∈ parser.calls limit s) : call.2.depth = 0 := by
  obtain ⟨next, hrun⟩ := Parser.leadsTo_of_mem_calls hcall
  exact (Parser.isCounted_of_leadsTo hs hrun).depth_eq_zero (.call call.1 next) rfl

end Calls

/-- Constructs, and all that parsers do, keep the level. In the run of a parser over a text, such as
the one that reads a script or an expression, the limit is kept at each moment, each level that is
left has been entered, and the level is zero where the parser itself calls for a construct, as a
script does for its statements. The run of a script ends with the tree of the text and its
diagnostics. -/
theorem levels_are_kept (text : List Char) (options : Options) :
    (∀ goal : Goal, (goal.routine options.limit).KeepsLevel options.limit) ∧
    (∀ {α : Type} (parser : Parser α), parser.routine.KeepsLevel options.limit ∧
      parser.routine.EndsIn options.limit (start text options)
        (parser.runWithin options.limit (start text options)).1
        (parser.runWithin options.limit (start text options)).2 ∧
      (∀ m, Moment.LeadsTo options.limit ⟨parser.routine, start text options⟩ m →
        m.IsCounted options.limit) ∧
      ∀ call ∈ parser.calls options.limit (start text options), call.2.depth = 0) ∧
    ∃ items after, (sequence .endOfInput statement).routine.EndsIn options.limit
        (start text options) items after ∧
      QoreSyntax.parse text options =
        if (start text options).isAtEnd then (Tree.empty, (start text options).diagnostics)
        else
          (⟨some ⟨.script, ⟨⟨options.firstLine, 1⟩, after.current.range.start⟩, .none, items⟩⟩,
            after.diagnostics) := by
  refine ⟨Goal.keepsLevel, fun parser => ⟨parser.keepsLevel, endsIn_runWithin parser _, ?_, ?_⟩,
    _, _, endsIn_runWithin (sequence .endOfInput statement) (start text options), rfl⟩
  · exact fun m hrun => Parser.isCounted_of_leadsTo rfl hrun
  · exact fun call hcall => Parser.depth_of_mem_calls rfl hcall

end QoreSyntax.Grammar
