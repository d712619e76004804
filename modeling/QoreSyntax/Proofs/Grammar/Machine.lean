import QoreSyntax.Grammar.Machine
import QoreSyntax.Proofs.Grammar.State
import QoreSyntax.Proofs.Token.Stream

namespace QoreSyntax

namespace Token.Stream

/-- A token can be read at any time. -/
theorem prepend_append_next (tokens : List Token) (r : Reader) :
    r.next.2.stream.prepend (tokens ++ [r.next.1]) = r.stream.prepend tokens := by
  induction tokens with
  | nil =>
      cases h : r.next.1.isEof with
      | true => simp [prepend, h, Reader.stream_of_isEof h]
      | false => simp [prepend, h, Reader.stream_of_not_isEof h]
  | cons token tokens ih => simp only [List.cons_append, prepend, ih]

end Token.Stream

namespace Grammar

open Token

namespace Buffer

variable {b : Buffer}

theorem stream_ofReader (r : Reader) : (ofReader r).stream = r.stream :=
  Stream.prepend_append_next [] r

@[simp] theorem stream_extend (b : Buffer) : b.extend.stream = b.stream :=
  Stream.prepend_append_next (b.current :: b.ahead) b.reader

@[simp] theorem stream_extendMany (n : Nat) (b : Buffer) : (b.extendMany n).stream = b.stream := by
  induction n generalizing b with
  | zero => rfl
  | succ n ih => rw [extendMany, ih, stream_extend]

@[simp] theorem stream_fill (n : Nat) (b : Buffer) : (b.fill n).stream = b.stream :=
  stream_extendMany _ b

theorem stream_of_isEof (h : b.current.isEof = true) : b.stream = ⟨[], b.current⟩ := by
  simp [stream, Stream.prepend, h]

theorem stream_of_not_isEof (h : b.current.isEof = false) :
    b.stream = ⟨b.current :: b.advance.stream.tokens, b.advance.stream.final⟩ := by
  have hadvance : b.advance.stream = b.reader.stream.prepend b.ahead := by
    rw [advance]
    split
    · rename_i hahead
      rw [hahead]
      exact stream_ofReader b.reader
    · rename_i hahead
      rw [hahead]
      rfl
  simp [stream, Stream.prepend, h, ← hadvance]

end Buffer

namespace Machine

@[simp] theorem view_fill (n : Nat) (m : Machine) : (m.fill n).view = m.view := by
  simp [view, fill]

@[simp] theorem view_current (m : Machine) : m.view.current = m.buffer.current := by
  rw [State.current, view]
  cases h : m.buffer.current.isEof with
  | true => simp [Buffer.stream_of_isEof h]
  | false => simp [Buffer.stream_of_not_isEof h]

theorem view_of_isEof {m : Machine} (h : m.buffer.current.isEof = true) :
    m.view.pending = [] := by
  rw [view, Buffer.stream_of_isEof h]

theorem view_of_not_isEof {m : Machine} (h : m.buffer.current.isEof = false) :
    m.view =
      { pending := m.buffer.current :: m.buffer.advance.stream.tokens
        final := m.buffer.advance.stream.final
        previousEnd := m.previousEnd
        consumed := m.consumed
        reported := m.reported
        recovering := m.recovering
        depth := m.depth } := by
  rw [view, Buffer.stream_of_not_isEof h]

/-- The machine is at the end marker when the parse is. -/
theorem isAtEnd_view (m : Machine) : m.view.isAtEnd = m.buffer.current.isEof := by
  cases h : m.buffer.current.isEof with
  | true => exact State.isAtEnd_iff.mpr (view_of_isEof h)
  | false =>
      rw [view_of_not_isEof h]
      rfl

@[simp] theorem view_advance (m : Machine) : m.advance.view = m.view.advance := by
  cases h : m.buffer.current.isEof with
  | true => rw [State.advance_nil (view_of_isEof h), advance, if_pos h]
  | false =>
      have hpending := congrArg State.pending (view_of_not_isEof h)
      rw [State.advance_cons hpending, view_of_not_isEof h, advance, if_neg (by simp [h])]
      rfl

@[simp] theorem view_advanceMany (n : Nat) (m : Machine) :
    (m.advanceMany n).view = m.view.advanceMany n := by
  induction n generalizing m with
  | zero => rfl
  | succ n ih => rw [advanceMany, ih, view_advance, State.advanceMany]

@[simp] theorem view_splitShift (m : Machine) : m.splitShift.view = m.view.splitShift := by
  by_cases hshr : m.buffer.current.kind = .symbol .shr
  · have h : m.buffer.current.isEof = false := by
      rw [isEof, hshr]
      rfl
    have hsplit :
        m.splitShift.buffer = { m.buffer with current := m.buffer.current.secondHalf } := by
      rw [splitShift, if_pos (beq_iff_eq.mpr hshr)]
    rw [State.splitShift_of_shr (congrArg State.pending (view_of_not_isEof h)) hshr,
      view_of_not_isEof h, view_of_not_isEof (hsplit ▸ rfl), hsplit, splitShift,
      if_pos (beq_iff_eq.mpr hshr)]
    rfl
  · have hsame : m.splitShift = m := by
      rw [splitShift, if_neg (by simpa using hshr)]
    rw [hsame]
    rcases State.splitShift_cases m.view with ⟨t, rest, hpending, hkind⟩ | hview
    · have hcurrent : m.buffer.current = t := by
        rw [← view_current, State.current, hpending]
        rfl
      exact absurd (hcurrent ▸ hkind) hshr
    · exact hview.symm

@[simp] theorem view_report (problem : Problem) (m : Machine) :
    (m.report problem).view = m.view.report problem := by
  rw [report, State.report, view_current]
  rfl

@[simp] theorem view_resume (m : Machine) : m.resume.view = m.view.resume :=
  rfl

/-- The machine ends as the parse does. -/
def Mirrors {α : Type} (ofMachine : α × Machine) (ofState : α × State) : Prop :=
  ofMachine.1 = ofState.1 ∧ ofMachine.2.view = ofState.2

theorem refuse_mirrors (limit : Nat) (m : Machine) :
    Mirrors (m.refuse limit) (m.view.refuse limit) := by
  have hafter : (m.refuse limit).2.view = (m.view.refuse limit).2 := by
    rw [refuse, State.refuse, view_advanceMany, view_report, State.skipConstruct]
  exact ⟨congrArg (State.close · m.view.mark .error .none []) hafter, hafter⟩

theorem Mirrors.leave {α : Type} {ofMachine : α × Machine} {ofState : α × State}
    (h : Mirrors ofMachine ofState) :
    Mirrors (ofMachine.1, { ofMachine.2 with depth := ofMachine.2.depth - 1 })
      (ofState.1, { ofState.2 with depth := ofState.2.depth - 1 }) := by
  rcases ofState with ⟨result, s⟩
  obtain ⟨rfl, rfl⟩ := h
  exact ⟨rfl, rfl⟩

theorem view_ofText (text : List Char) (options : Options) :
    (ofText text options).view = start text options := by
  rw [view, ofText, Buffer.stream_ofReader]
  rfl

end Machine

section Mirror

variable (peek : Machine → Nat) {nestedOn : Goal → Machine → Node × Machine}
  {nested : Goal → State → Node × State}

theorem Parser.runOn_mirrors
    (hnested : ∀ goal m, Machine.Mirrors (nestedOn goal m) (nested goal m.view)) {α : Type}
    (parser : Parser α) (m : Machine) :
    Machine.Mirrors (parser.runOn peek nestedOn m) (parser.run nested m.view) := by
  induction parser generalizing m with
  | done result => exact ⟨rfl, rfl⟩
  | look next ih =>
      have hseen := ih m.view (m.fill (peek m))
      rw [runOn, run]
      simp only [Machine.view_fill] at hseen ⊢
      exact hseen
  | advance next ih =>
      rw [runOn, run, ← Machine.view_advance, Machine.view_current]
      exact ih _ m.advance
  | splitShift next ih =>
      rw [runOn, run, ← Machine.view_splitShift]
      exact ih m.splitShift
  | report problem next ih =>
      rw [runOn, run, ← Machine.view_report]
      exact ih (m.report problem)
  | resume next ih =>
      rw [runOn, run, ← Machine.view_resume]
      exact ih m.resume
  | call goal next ih =>
      obtain ⟨hnode, hafter⟩ := hnested goal m
      change Machine.Mirrors (runOn peek nestedOn (next (nestedOn goal m).1) (nestedOn goal m).2)
        (run nested (next (nested goal m.view).1) (nested goal m.view).2)
      rw [← hnode, ← hafter]
      exact ih _ _

theorem parseOn_mirrors (limit room : Nat) (goal : Goal) (m : Machine) :
    Machine.Mirrors (parseOn peek limit room goal m) (parse limit room goal m.view) := by
  induction room generalizing goal m with
  | zero => exact m.refuse_mirrors limit
  | succ room ih =>
      have hdepth : m.view.depth = m.depth := rfl
      rw [parseOn, parse, hdepth]
      split_ifs
      · exact m.refuse_mirrors limit
      · exact (Parser.runOn_mirrors peek ih goal.rule { m with depth := m.depth + 1 }).leave

/-- A machine reads the same tree as a parse and makes the same reports, however far it looks
ahead. -/
theorem scriptOn_fst (text : List Char) (options : Options) :
    (scriptOn peek text options).1 = QoreSyntax.parse text options := by
  rw [QoreSyntax.parse, scriptOn, script, ← Machine.view_ofText, Machine.isAtEnd_view]
  split_ifs
  · rfl
  · obtain ⟨hitems, hafter⟩ := Parser.runOn_mirrors peek
      (parseOn_mirrors peek options.limit options.limit) (sequence .endOfInput statement)
      (Machine.ofText text options)
    simp only [Parser.runWithin, ← hitems, ← hafter, Machine.view_current]

end Mirror

end Grammar

end QoreSyntax
