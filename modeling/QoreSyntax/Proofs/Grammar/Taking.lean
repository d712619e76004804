import QoreSyntax.Proofs.Grammar.Iteration
import QoreSyntax.Proofs.Grammar.Machine

namespace QoreSyntax

namespace Token

/-- Behind an end marker there are none but end markers. -/
def EndsOnce (tokens : List Token) : Prop :=
  tokens.Pairwise fun t u => t.isEof = true → u.isEof = true

theorem Reader.isEof_next_next {r : Reader} (h : r.next.1.isEof = true) :
    r.next.2.next.1.isEof = true := by
  rw [isEof_next_iff] at h ⊢
  rw [gapEnd, Cursor.rest_skip, next_cursor, Cursor.rest_skip, h, List.drop_nil, List.drop_nil]

theorem EndsOnce.append_next {tokens : List Token} {r : Reader}
    (h : EndsOnce (tokens ++ [r.next.1])) :
    EndsOnce (tokens ++ [r.next.1] ++ [r.next.2.next.1]) := by
  refine List.pairwise_append.mpr ⟨h, List.pairwise_singleton _ _, ?_⟩
  intro t hmem u hu heof
  obtain rfl := List.mem_singleton.mp hu
  apply Reader.isEof_next_next
  rcases List.mem_append.mp hmem with hmem | hmem
  · exact (List.pairwise_append.mp h).2.2 t hmem _ List.mem_cons_self heof
  · rwa [← List.mem_singleton.mp hmem]

theorem Stream.kind_prepend (stream : Stream) {tokens : List Token} (h : EndsOnce tokens) {n : Nat}
    {t : Token} (ht : tokens[n]? = some t) :
    ((stream.prepend tokens).tokens[n]?.getD (stream.prepend tokens).final).kind = t.kind := by
  induction tokens generalizing n with
  | nil => cases ht
  | cons first rest ih =>
      obtain ⟨hfirst, hrest⟩ := List.pairwise_cons.mp h
      rw [prepend]
      split_ifs with heof
      · rcases n with - | n
        · obtain rfl : first = t := Option.some.inj ht
          rfl
        · have hlater := hfirst t (List.mem_of_getElem? ht) heof
          exact (eq_of_beq heof).trans (eq_of_beq hlater).symm
      · rcases n with - | n
        · obtain rfl : first = t := Option.some.inj ht
          rfl
        · exact ih hrest ht

end Token

namespace Grammar

/-- The property is kept by whatever a machine does at once. -/
structure Machine.IsInvariant (I : Machine → Prop) : Prop where
  fill (n : Nat) (m : Machine) : I m → I (m.fill n)
  advance (m : Machine) : I m → I m.advance
  splitShift (m : Machine) : I m → I m.splitShift
  report (problem : Problem) (m : Machine) : I m → I (m.report problem)
  resume (m : Machine) : I m → I m.resume
  nest (depth : Nat) (m : Machine) : I m → I { m with depth := depth }

namespace Machine.IsInvariant

variable {I : Machine → Prop} {peek : Machine → Nat}

theorem runOn (hI : IsInvariant I) {nested : Goal → Machine → Node × Machine}
    (hnested : ∀ goal m, I m → I (nested goal m).2) {α : Type} (parser : Parser α) {m : Machine}
    (hm : I m) : I (parser.runOn peek nested m).2 := by
  induction parser generalizing m with
  | done result => exact hm
  | look next ih => exact ih _ (hI.fill _ m hm)
  | advance next ih => exact ih _ (hI.advance m hm)
  | splitShift next ih => exact ih (hI.splitShift m hm)
  | report problem next ih => exact ih (hI.report problem m hm)
  | resume next ih => exact ih (hI.resume m hm)
  | call goal next ih => exact ih _ (hnested goal m hm)

theorem advanceMany (hI : IsInvariant I) (n : Nat) {m : Machine} (hm : I m) :
    I (m.advanceMany n) := by
  induction n generalizing m with
  | zero => exact hm
  | succ n ih => exact ih (hI.advance m hm)

theorem refuse (hI : IsInvariant I) (limit : Nat) {m : Machine} (hm : I m) :
    I (m.refuse limit).2 :=
  hI.advanceMany _ (hI.report _ m hm)

theorem parseOn (hI : IsInvariant I) (limit room : Nat) (goal : Goal) {m : Machine} (hm : I m) :
    I (parseOn peek limit room goal m).2 := by
  induction room generalizing goal m with
  | zero => exact hI.refuse limit hm
  | succ room ih =>
      rw [Grammar.parseOn]
      split_ifs
      · exact hI.refuse limit hm
      · exact hI.nest _ _ (hI.runOn (fun goal m => ih goal) goal.rule (hI.nest _ m hm))

theorem scriptOn (hI : IsInvariant I) (text : List Char) (options : Options)
    (hm : I (Machine.ofText text options)) : I (scriptOn peek text options).2 := by
  rw [Grammar.scriptOn]
  dsimp only
  split_ifs
  · exact hm
  · exact hI.runOn (fun goal m => hI.parseOn _ _ goal) _ hm

end Machine.IsInvariant

/-- The machines that come about from `m` by what machines do at once, one after the other. -/
inductive Machine.Reaches (m : Machine) : Machine → Prop where
  | refl : Reaches m m
  | fill {seen : Machine} (n : Nat) (h : Reaches m seen) : Reaches m (seen.fill n)
  | advance {seen : Machine} (h : Reaches m seen) : Reaches m seen.advance
  | splitShift {seen : Machine} (h : Reaches m seen) : Reaches m seen.splitShift
  | report {seen : Machine} (problem : Problem) (h : Reaches m seen) :
      Reaches m (seen.report problem)
  | resume {seen : Machine} (h : Reaches m seen) : Reaches m seen.resume
  | nest {seen : Machine} (depth : Nat) (h : Reaches m seen) :
      Reaches m { seen with depth := depth }

theorem Machine.isInvariant_reaches (m : Machine) : IsInvariant m.Reaches where
  fill n _ h := h.fill n
  advance _ h := h.advance
  splitShift _ h := h.splitShift
  report problem _ h := h.report problem
  resume _ h := h.resume
  nest depth _ h := h.nest depth

theorem Machine.IsInvariant.of_reaches {I : Machine → Prop} (hI : IsInvariant I) {m seen : Machine}
    (hm : I m) (h : m.Reaches seen) : I seen := by
  induction h with
  | refl => exact hm
  | fill n _ ih => exact hI.fill n _ ih
  | advance _ ih => exact hI.advance _ ih
  | splitShift _ ih => exact hI.splitShift _ ih
  | report problem _ ih => exact hI.report problem _ ih
  | resume _ ih => exact hI.resume _ ih
  | nest depth _ ih => exact hI.nest depth _ ih

/-- The tokens are taken one after the other, each of them whole or, if it is the symbol `>>`, in
two halves. -/
inductive Covers : List Taking → List Token → Prop where
  | nil : Covers [] []
  | whole {takings : List Taking} {tokens : List Token} (t : Token) (h : Covers takings tokens) :
      Covers (.whole t :: takings) (t :: tokens)
  | halves {takings : List Taking} {tokens : List Token} (t : Token)
      (hshr : t.kind = .symbol .shr) (h : Covers takings tokens) :
      Covers (.firstHalf t :: .whole t.secondHalf :: takings) (t :: tokens)

namespace Covers

theorem map_whole (tokens : List Token) : Covers (tokens.map .whole) tokens := by
  induction tokens with
  | nil => exact nil
  | cons t tokens ih => exact whole t ih

/-- The symbol `>>` may as well be taken in two halves. -/
theorem split {before after : List Taking} {t : Token} {tokens : List Token}
    (hshr : t.kind = .symbol .shr) (h : Covers (before ++ .whole t :: after) tokens) :
    Covers (before ++ .firstHalf t :: .whole t.secondHalf :: after) tokens := by
  generalize hlist : before ++ .whole t :: after = takings at h
  induction h generalizing before with
  | nil => simp at hlist
  | whole u h ih =>
      rcases before with - | ⟨first, before⟩
      · obtain ⟨hsame, rfl⟩ := List.cons.inj hlist
        obtain rfl := Taking.whole.inj hsame
        exact halves t hshr h
      · obtain ⟨rfl, hrest⟩ := List.cons.inj hlist
        exact whole u (ih hrest)
  | halves u hu h ih =>
      rcases before with - | ⟨first, - | ⟨second, before⟩⟩
      · obtain ⟨hsame, -⟩ := List.cons.inj hlist
        cases hsame
      · -- The second half of a symbol is never the symbol itself.
        obtain ⟨-, hrest⟩ := List.cons.inj hlist
        obtain ⟨hsame, -⟩ := List.cons.inj hrest
        obtain rfl := Taking.whole.inj hsame
        cases hshr
      · obtain ⟨rfl, hrest⟩ := List.cons.inj hlist
        obtain ⟨rfl, htail⟩ := List.cons.inj hrest
        exact halves u hu (ih htail)

end Covers

namespace Machine

/-- What has been taken, and what will be if no other token is split. -/
def plan (m : Machine) : List Taking :=
  m.taken.reverse ++ m.view.pending.map .whole

theorem plan_of_same {m m' : Machine} (htaken : m'.taken = m.taken)
    (hpending : m'.view.pending = m.view.pending) : m'.plan = m.plan := by
  rw [plan, plan, htaken, hpending]

theorem plan_advance (m : Machine) : m.advance.plan = m.plan := by
  cases h : m.buffer.current.isEof with
  | true => rw [advance, if_pos h]
  | false =>
      have htaken : m.advance.taken = .whole m.buffer.current :: m.taken := by
        rw [advance, if_neg (by simp [h])]
      rw [plan, plan, htaken, view_advance, State.advance_pending, view_of_not_isEof h]
      simp

theorem plan_report (problem : Problem) (m : Machine) : (m.report problem).plan = m.plan := by
  refine plan_of_same rfl ?_
  rw [view_report, State.report_pending]

/-- If a symbol is split it changes the plan, and otherwise nothing changes. -/
theorem splitShift_cases (m : Machine) :
    (∃ t rest, m.view.pending = t :: rest ∧ t.kind = .symbol .shr ∧
      m.splitShift.taken = .firstHalf t :: m.taken) ∨ m.splitShift = m := by
  by_cases hshr : m.buffer.current.kind = .symbol .shr
  · left
    have h : m.buffer.current.isEof = false := by
      rw [Token.isEof, hshr]
      rfl
    refine ⟨m.buffer.current, _, congrArg State.pending (view_of_not_isEof h), hshr, ?_⟩
    rw [splitShift, if_pos (beq_iff_eq.mpr hshr)]
  · right
    rw [splitShift, if_neg (by simpa using hshr)]

theorem isInvariant_covers (tokens : List Token) :
    IsInvariant fun m => Covers m.plan tokens where
  fill n m h := by
    have hplan : (m.fill n).plan = m.plan :=
      plan_of_same rfl (congrArg State.pending (view_fill n m))
    rwa [hplan]
  advance m h := by rwa [plan_advance]
  splitShift m h := by
    rcases splitShift_cases m with ⟨t, rest, hpending, hshr, htaken⟩ | hsame
    · rw [plan, hpending, List.map_cons] at h
      rw [plan, htaken, view_splitShift, State.splitShift_of_shr hpending hshr]
      simpa using h.split hshr
    · rwa [hsame]
  report problem m h := by rwa [plan_report]
  resume m h := h
  nest depth m h := h

theorem covers_scriptOn (peek : Machine → Nat) (text : List Char) (options : Options) :
    Covers (scriptOn peek text options).2.plan
      (Token.Stream.ofText text options.firstLine).tokens := by
  apply (isInvariant_covers _).scriptOn text options
  rw [plan, view_ofText]
  exact Covers.map_whole _

end Machine

/-- At the end of a parse the end marker is next. -/
theorem isEof_scriptOn (peek : Machine → Nat) (text : List Char) (options : Options) :
    (scriptOn peek text options).2.buffer.current.isEof = true := by
  rw [scriptOn]
  dsimp only
  split_ifs with h
  · exact h
  · rw [← Machine.isAtEnd_view]
    have hmirrors := Parser.runOn_mirrors peek
      (parseOn_mirrors peek options.limit options.limit) (sequence .endOfInput statement)
      (Machine.ofText text options)
    rw [hmirrors.2, Machine.view_ofText]
    apply Parser.ensures_sequence_endOfInput (onlyTakes_parse _ _)
    exact Token.Stream.isEof_ofText_final text options.firstLine

namespace Buffer

open Token

/-- Nothing but end markers comes behind an end marker, among the tokens that have been read and the
one that will be read next. -/
def IsSettled (b : Buffer) : Prop :=
  EndsOnce (b.current :: b.ahead ++ [b.reader.next.1])

variable {b : Buffer}

theorem isSettled_ofReader (r : Reader) : (ofReader r).IsSettled := by
  have hfirst : EndsOnce ([] ++ [r.next.1]) := List.pairwise_singleton _ _
  exact hfirst.append_next

theorem IsSettled.extend (h : b.IsSettled) : b.extend.IsSettled :=
  EndsOnce.append_next h

theorem IsSettled.extendMany (h : b.IsSettled) (n : Nat) : (b.extendMany n).IsSettled := by
  induction n generalizing b with
  | zero => exact h
  | succ n ih => exact ih h.extend

theorem IsSettled.fill (h : b.IsSettled) (n : Nat) : (b.fill n).IsSettled :=
  h.extendMany _

theorem IsSettled.advance (h : b.IsSettled) : b.advance.IsSettled := by
  rcases b with ⟨current, - | ⟨next, ahead⟩, reader⟩
  · exact isSettled_ofReader reader
  · exact (List.pairwise_cons.mp h).2

theorem ahead_length_extendMany (n : Nat) (b : Buffer) :
    (b.extendMany n).ahead.length = b.ahead.length + n := by
  induction n generalizing b with
  | zero => rfl
  | succ n ih =>
      rw [extendMany, ih, extend, List.length_append, List.length_singleton]
      omega

/-- To look ahead always finds a token, and one of the kind that the parse of all tokens finds. -/
theorem IsSettled.nth? (h : b.IsSettled) (n : Nat) :
    ∃ t, b.nth? n = some t ∧ (b.stream.tokens[n]?.getD b.stream.final).kind = t.kind := by
  have hlength : n < ((b.fill n).current :: (b.fill n).ahead).length := by
    rw [List.length_cons, Buffer.fill, ahead_length_extendMany]
    omega
  have hfound : b.nth? n = some _ := List.getElem?_eq_getElem hlength
  have hsettled : EndsOnce ((b.fill n).current :: (b.fill n).ahead) :=
    (List.pairwise_append.mp (h.fill n)).1
  refine ⟨_, hfound, ?_⟩
  rw [← stream_fill n b]
  exact Stream.kind_prepend _ hsettled hfound

end Buffer

namespace Machine

theorem isInvariant_isSettled : IsInvariant fun m => m.buffer.IsSettled where
  fill n _ h := h.fill n
  advance m h := by
    rw [advance]
    split_ifs
    · exact h
    · exact h.advance
  splitShift m h := by
    rw [splitShift]
    dsimp only
    split_ifs with hshr
    · obtain ⟨-, hrest⟩ := List.pairwise_cons.mp h
      refine List.pairwise_cons.mpr ⟨fun u hu heof => ?_, hrest⟩
      cases heof
    · exact h
  report _ _ h := h
  resume _ h := h
  nest _ _ h := h

end Machine

/-- Every step after which one of the repetitions goes on leaves less to be taken, whatever the
items are and wherever the repetition may stop. -/
structure RepetitionsShrink (nested : Goal → State → Node × State) : Prop where
  sequence (terminator : Terminator) (item : Parser Node) :
    Shrinks nested (sequenceStep terminator item)
  arms : Shrinks nested armStep
  list (stop : State → Bool) (item : Parser Node) : Shrinks nested (separatedStep stop item)
  suffixes (m : Mark) (power : Nat) : Shrinks nested (expressionStep m power)
  scopes : Shrinks nested scopeStep
  modifiers : Shrinks nested modifierStep

/-- The repetitions of a parse end, and at its end every token of the text has been taken once, in
their order, however far the machine looks ahead. Wherever it does, it finds a token, and one of the
kind that a parse of all tokens finds there. -/
theorem tokens_are_taken_once (text : List Char) (options : Options) (peek : Machine → Nat) :
    let stream := Token.Stream.ofText text options.firstLine
    let begun := Machine.ofText text options
    let m := (scriptOn peek text options).2
    (∀ room, RepetitionsShrink (parse options.limit room)) ∧
      (scriptOn peek text options).1 = QoreSyntax.parse text options ∧
      m.buffer.current.isEof = true ∧ Covers m.taken.reverse stream.tokens ∧
      stream.final.isEof = true ∧ (∀ t ∈ stream.tokens, t.isEof = false) ∧
      begun.Reaches m ∧ ∀ seen, begun.Reaches seen →
        ∀ n, ∃ t, seen.buffer.nth? n = some t ∧ seen.view.kindAt n = t.kind := by
  intro stream begun m
  have hend : m.buffer.current.isEof = true := isEof_scriptOn peek text options
  refine ⟨fun room => ?_, scriptOn_fst peek text options, hend, ?_, ?_, ?_, ?_, ?_⟩
  · have h := onlyTakes_parse options.limit room
    exact ⟨Parser.shrinks_sequenceStep h, Parser.shrinks_armStep h,
      Parser.shrinks_separatedStep h, Parser.shrinks_expressionStep h,
      Parser.shrinks_scopeStep h, Parser.shrinks_modifierStep h⟩
  · have hcovers : Covers m.plan stream.tokens := Machine.covers_scriptOn peek text options
    rwa [Machine.plan, Machine.view_of_isEof hend, List.map_nil, List.append_nil] at hcovers
  · exact Token.Stream.isEof_ofText_final text options.firstLine
  · exact fun t hmem => Token.Stream.isEof_of_mem_ofText hmem
  · exact begun.isInvariant_reaches.scriptOn text options .refl
  · intro seen hseen
    have hsettled : begun.buffer.IsSettled := Buffer.isSettled_ofReader _
    exact (Machine.isInvariant_isSettled.of_reaches hsettled hseen).nth?

end Grammar

end QoreSyntax
