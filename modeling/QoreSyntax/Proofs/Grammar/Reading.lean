import QoreSyntax.Proofs.Grammar.Iteration
import QoreSyntax.Proofs.Node.Shape

namespace QoreSyntax

namespace Grammar

open Token (Kind)

namespace State

/-- Nothing has been reported, and the tokens ahead are of the given kinds. -/
structure Clear (kinds : List Kind) (depth : Nat) (s : State) : Prop where
  kinds_eq : s.pending.map Token.kind = kinds
  isEof_final : s.final.isEof = true
  reported_eq : s.reported = []
  recovering_eq : s.recovering = false
  depth_eq : s.depth = depth

namespace Clear

variable {kinds : List Kind} {kind : Kind} {depth : Nat} {s : State}

/-- Behind the last token the end marker is next. -/
theorem kind_eq (h : s.Clear kinds depth) : s.kind = kinds.headD .eof := by
  rw [← h.kinds_eq, State.kind, current]
  cases s.pending with
  | nil => exact eq_of_beq h.isEof_final
  | cons t rest => rfl

theorem exists_pending (h : s.Clear (kind :: kinds) depth) :
    ∃ t rest, s.pending = t :: rest ∧ t.kind = kind ∧ rest.map Token.kind = kinds := by
  cases hpending : s.pending with
  | nil => simpa [hpending] using h.kinds_eq
  | cons t rest =>
      have hkinds := h.kinds_eq
      rw [hpending, List.map_cons] at hkinds
      obtain ⟨hkind, hrest⟩ := List.cons.inj hkinds
      exact ⟨t, rest, rfl, hkind, hrest⟩

theorem isAtEnd_eq (h : s.Clear (kind :: kinds) depth) : s.isAtEnd = false := by
  obtain ⟨t, rest, hpending, -⟩ := h.exists_pending
  rw [isAtEnd, hpending, List.isEmpty_cons]

theorem isAtEnd_eq_false (h : s.Clear kinds depth) (hne : kinds.headD .eof ≠ .eof) :
    s.isAtEnd = false := by
  cases kinds with
  | nil => exact absurd rfl hne
  | cons kind kinds => exact h.isAtEnd_eq

theorem isAt_eq (h : s.Clear kinds depth) (mark : Symbol) :
    s.isAt mark = (kinds.headD .eof == .symbol mark) := by
  rw [isAt, h.kind_eq]

theorem isAtKeyword_eq (h : s.Clear kinds depth) (word : Keyword) :
    s.isAtKeyword word = (kinds.headD .eof == .keyword word) := by
  rw [isAtKeyword, h.kind_eq]

theorem kindAt_eq (h : s.Clear kinds depth) (n : Nat) : s.kindAt n = kinds[n]?.getD .eof := by
  rw [kindAt, ← h.kinds_eq, List.getElem?_map]
  cases s.pending[n]? with
  | none => exact eq_of_beq h.isEof_final
  | some t => rfl

end Clear

end State

namespace Parser

variable {α β : Type} {nested : Goal → State → Node × State} {depth : Nat}
  {before middle after : List Kind}

/-- With tokens of the kinds `before` ahead and nothing reported, the parser gets to a result of
which `p` holds, and tokens of the kinds `after` are ahead. -/
def Reads (nested : Goal → State → Node × State) (depth : Nat) (before : List Kind)
    (parser : Parser α) (p : α → Prop) (after : List Kind) : Prop :=
  Ensures nested (State.Clear before depth) parser fun value s => p value ∧ s.Clear after depth

namespace Reads

variable {p : α → Prop} {q : β → Prop} {parser : Parser α}

theorem done {value : α} (h : p value) : Reads nested depth before (pure value) p before :=
  Ensures.done fun _ hs => ⟨h, hs⟩

theorem bind {next : α → Parser β} (h : Reads nested depth before parser p middle)
    (hnext : ∀ value, p value → Reads nested depth middle (next value) q after) :
    Reads nested depth before (parser >>= next) q after :=
  Ensures.bind h fun value s hs => hnext value hs.1 s hs.2

theorem weaken {p' : α → Prop} (h : Reads nested depth before parser p after)
    (hp : ∀ value, p value → p' value) : Reads nested depth before parser p' after :=
  Ensures.weaken h fun value _ hs => ⟨hp value hs.1, hs.2⟩

/-- To look at the tokens is to know their kinds. -/
theorem look {next : State → Parser β}
    (h : ∀ o : State, o.Clear before depth → Reads nested depth before (next o) q after) :
    Reads nested depth before (Grammar.state >>= next) q after :=
  Ensures.look fun o ho => Ensures.at_state ho (h o ho)

theorem look_cons {kind : Kind} {next : State → Parser β}
    (h : ∀ o : State, o.kind = kind → Reads nested depth (kind :: before) (next o) q after) :
    Reads nested depth (kind :: before) (Grammar.state >>= next) q after :=
  look fun o ho => h o ho.kind_eq

theorem mark : Reads nested depth before Grammar.mark (fun _ => True) before :=
  fun _ hs => ⟨trivial, hs⟩

theorem close (m : Mark) (kind : Node.Kind) (payload : Payload) (children : List Node) :
    Reads nested depth before (Grammar.close m kind payload children)
      (fun node => node.shape = ⟨kind, payload, Node.shapes children⟩) before :=
  fun _ hs => ⟨rfl, hs⟩

theorem advance {kind : Kind} (h : kind.isValid = true) :
    Reads nested depth (kind :: after) Grammar.advance (fun token => token.kind = kind) after := by
  intro s hs
  obtain ⟨t, rest, hpending, hkind, hrest⟩ := hs.exists_pending
  have herror : LexicalError.ofToken? t = none :=
    LexicalError.ofToken?_eq_none_iff.mpr (hkind ▸ h)
  have hcurrent : s.current = t := by
    rw [State.current, hpending]
    rfl
  change s.current.kind = kind ∧ s.advance.Clear after depth
  rw [hcurrent, State.advance_cons hpending, herror]
  refine ⟨hkind, hrest, hs.isEof_final, hs.reported_eq, ?_, hs.depth_eq⟩
  simpa using hs.recovering_eq

theorem eat (mark : Symbol) :
    Reads nested depth (.symbol mark :: after) (Grammar.eat mark) (· = true) after := by
  refine look fun o ho => ?_
  rw [ho.isAt_eq, List.headD_cons, if_pos (beq_self_eq_true _)]
  exact bind (advance rfl) fun _ _ => done rfl

theorem eat_miss {mark : Symbol} (h : before.headD .eof ≠ .symbol mark) :
    Reads nested depth before (Grammar.eat mark) (· = false) before := by
  refine look fun o ho => ?_
  rw [ho.isAt_eq, if_neg (by rwa [beq_iff_eq])]
  exact done rfl

theorem eatKeyword (word : Keyword) :
    Reads nested depth (.keyword word :: after) (Grammar.eatKeyword word) (· = true) after := by
  refine look fun o ho => ?_
  rw [ho.isAtKeyword_eq, List.headD_cons, if_pos (beq_self_eq_true _)]
  exact bind (advance rfl) fun _ _ => done rfl

theorem eatKeyword_miss {word : Keyword} (h : before.headD .eof ≠ .keyword word) :
    Reads nested depth before (Grammar.eatKeyword word) (· = false) before := by
  refine look fun o ho => ?_
  rw [ho.isAtKeyword_eq, if_neg (by rwa [beq_iff_eq])]
  exact done rfl

theorem resume : Reads nested depth before Grammar.resume (fun _ => True) before :=
  fun _ hs => ⟨trivial, hs.kinds_eq, hs.isEof_final, hs.reported_eq, rfl, hs.depth_eq⟩

theorem expect (mark : Symbol) :
    Reads nested depth (.symbol mark :: after) (Grammar.expect mark) (· = true) after := by
  refine bind (eat mark) ?_
  rintro _ rfl
  rw [if_pos rfl]
  split_ifs
  · exact bind resume fun _ _ => done rfl
  · exact done rfl

theorem expectClosing (mark : Symbol) :
    Reads nested depth (.symbol mark :: after) (Grammar.expectClosing mark) (fun _ => True)
      after := by
  refine bind (eat mark) ?_
  rintro _ rfl
  exact done trivial

theorem expectKeyword (word : Keyword) :
    Reads nested depth (.keyword word :: after) (Grammar.expectKeyword word) (fun _ => True)
      after := by
  refine bind (eatKeyword word) ?_
  rintro _ rfl
  exact done trivial

theorem placeholder (kind : Node.Kind) :
    Reads nested depth before (Grammar.placeholder kind)
      (fun node => node.shape = ⟨kind, .none, []⟩) before :=
  fun _ hs => ⟨rfl, hs⟩

/-- The node that is closed is of the shape that is to be read. -/
theorem closes {m : Mark} {kind : Node.Kind} {payload : Payload} {children : List Node}
    {shape : Node.Shape} (h : ⟨kind, payload, Node.shapes children⟩ = shape) :
    Reads nested depth before (Grammar.close m kind payload children)
      (fun node => node.shape = shape) before :=
  (close m kind payload children).weaken fun _ hnode => hnode.trans h

/-- A construct is read by its rule where there is room for it. -/
theorem call {limit room : Nat} {goal : Goal} {p : Node → Prop} (hlimit : depth < limit)
    (h : Reads (parse limit room) (depth + 1) before goal.rule p after) :
    Reads (parse limit (room + 1)) depth before (.call goal .done) p after := by
  intro s hs
  have hopen : ¬limit ≤ s.depth := by
    rw [hs.depth_eq]
    exact Nat.not_le.mpr hlimit
  change p (parse limit (room + 1) goal s).1 ∧
    (parse limit (room + 1) goal s).2.Clear after depth
  rw [parse, if_neg hopen]
  obtain ⟨hp, hclear⟩ := h { s with depth := s.depth + 1 }
    { hs with depth_eq := congrArg (· + 1) hs.depth_eq }
  exact ⟨hp, { hclear with depth_eq := congrArg (· - 1) hclear.depth_eq }⟩

section Repetition

variable {step : α → Parser (Step α)} {r : α → Prop} {value : α}
  (h : Shrinks nested step) (hnested : OnlyTakes nested)
include h hnested

/-- A repetition that goes on. -/
theorem loop_again
    (hstep : Reads nested depth before (step value) (fun result => ∃ next, result = .again next ∧
      p next) middle)
    (hnext : ∀ next, p next → Reads nested depth middle (loop step next) r after) :
    Reads nested depth before (loop step value) r after := by
  intro s hs
  obtain ⟨⟨next, hresult, hp⟩, hclear⟩ := hstep s hs
  rw [h.run_loop hnested value hs.isEof_final]
  rcases hrun : (step value).run nested s with ⟨result, t⟩
  rw [hrun] at hresult hclear
  obtain rfl : result = .again next := hresult
  exact hnext next hp t hclear

/-- A repetition that ends. -/
theorem loop_done
    (hstep : Reads nested depth before (step value) (fun result => ∃ last, result = .done last ∧
      r last) after) :
    Reads nested depth before (loop step value) r after := by
  intro s hs
  obtain ⟨⟨last, hresult, hr⟩, hclear⟩ := hstep s hs
  rw [h.run_loop hnested value hs.isEof_final]
  rcases hrun : (step value).run nested s with ⟨result, t⟩
  rw [hrun] at hresult hclear
  obtain rfl : result = .done last := hresult
  exact ⟨hr, hclear⟩

end Repetition

section List

variable {stop : State → Bool} {item : Parser Node} {items : List Node} {p : Node → Prop}

theorem separatedStep_stop (hstop : ∀ o : State, o.Clear before depth → stop o = true) :
    Reads nested depth before (separatedStep stop item items)
      (fun result => ∃ last, result = .done last ∧ last = items) before := by
  refine look fun o ho => ?_
  rw [if_pos (hstop o ho)]
  exact done ⟨items, rfl, rfl⟩

theorem separatedStep_again (hopen : ∀ o : State, o.Clear before depth → stop o = false)
    (hitem : Reads nested depth before item p (.symbol .comma :: after)) :
    Reads nested depth before (separatedStep stop item items)
      (fun result => ∃ next, result = .again next ∧ ∃ node, p node ∧ next = node :: items)
      after := by
  refine look fun o ho => ?_
  rw [if_neg (by rw [hopen o ho]; exact Bool.false_ne_true)]
  refine bind hitem fun node hnode => bind (eat .comma) ?_
  rintro _ rfl
  exact done ⟨_, rfl, node, hnode, rfl⟩

theorem separatedStep_last (hopen : ∀ o : State, o.Clear before depth → stop o = false)
    (hitem : Reads nested depth before item p after)
    (hcomma : after.headD .eof ≠ .symbol .comma) :
    Reads nested depth before (separatedStep stop item items)
      (fun result => ∃ last, result = .done last ∧ ∃ node, p node ∧ last = node :: items)
      after := by
  refine look fun o ho => ?_
  rw [if_neg (by rw [hopen o ho]; exact Bool.false_ne_true)]
  refine bind hitem fun node hnode => bind (eat_miss hcomma) ?_
  rintro _ rfl
  exact done ⟨_, rfl, node, hnode, rfl⟩

end List

end Reads

/-- What can be read within a construct can be read where the construct is called for; so with room
for `bound` constructs in one another all is read that needs no more. -/
theorem parse_induction {P : (Goal → State → Node × State) → Nat → Nat → Prop}
    (hzero : ∀ nested depth, P nested depth 0)
    (hsucc : ∀ {limit room depth bound : Nat}, depth < limit → bound ≤ room →
      depth + 1 + bound ≤ limit → P (parse limit room) (depth + 1) bound →
        P (parse limit (room + 1)) depth (bound + 1))
    {limit room depth bound : Nat} (hroom : bound ≤ room) (hlimit : depth + bound ≤ limit) :
    P (parse limit room) depth bound := by
  induction room generalizing depth bound with
  | zero =>
      obtain rfl : bound = 0 := Nat.le_zero.mp hroom
      exact hzero _ depth
  | succ room ih =>
      cases bound with
      | zero => exact hzero _ depth
      | succ bound =>
          have hnested : P (parse limit room) (depth + 1) bound := ih (by omega) (by omega)
          exact hsucc (by omega) (by omega) (by omega) hnested

end Parser

end Grammar

end QoreSyntax
