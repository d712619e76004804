import QoreSyntax.Proofs.Grammar.Resumption

/-!
Braces and recovery. What is kept along a parse may depend on how many braces are open, and on the
places where the parse goes on after a mistake. A bracing says what it is, for the instructions and
for the steps of a sequence; then every rule of the grammar keeps it, because a rule closes the
braces that it opens.
-/

namespace QoreSyntax

/-- By how much a token changes the number of open braces. -/
def Token.Kind.braces : Token.Kind → Int
  | .symbol .lBrace => 1
  | .symbol .rBrace => -1
  | _ => 0

namespace Grammar

/-- What leads from a state to those after it: `Leads k s t` if `k` more braces have been opened
than closed between the states `s` and `t`. A report makes up for any number of braces. Between the
items of a sequence `Rests` is known instead, which a report at a closing brace or at the end of the
text does not spoil. -/
structure Bracing where
  Leads : Int → State → State → Prop
  Rests : Int → State → State → Prop
  reaches {k : Int} {s t : State} : Leads k s t → s.Reaches t
  refl (s : State) : Leads 0 s s
  trans {j k : Int} {s t u : State} : Leads j s t → Leads k t u → Leads (j + k) s u
  advance (s : State) : Leads s.kind.braces s s.advance
  /-- A semicolon or a brace that is expected ends the recovery. -/
  proceed {symbol : Symbol} {s : State} : endsRecovery symbol = true → s.isAt symbol = true →
    Leads (Token.Kind.symbol symbol).braces s s.advance.resume
  splitShift (s : State) : Leads 0 s s.splitShift
  report {problem : Problem} : problem ≠ .unmatchedBrace → ∀ (k : Int) (s : State),
    Leads k s (s.report problem)
  nest (depth : Nat) (s : State) : Leads 0 s { s with depth := depth }
  reaches_rests {k : Int} {s t : State} : Rests k s t → s.Reaches t
  rests {k : Int} {s t : State} : Leads k s t → s.consumed < t.consumed → Rests k s t
  leave {j k : Int} {s t u : State} : Rests j s t → t.isAtEnd = false → t.isAt .rBrace = false →
    Leads k t u → t.consumed < u.consumed → Leads (j + k) s u
  settle {k : Int} {s t u : State} : Rests k s t → t.isAtEnd = false → t.isAt .rBrace = false →
    Leads 0 t u → Rests k s (u.settle.ensureProgress t)
  skipToArm {k : Int} {s t : State} : Rests k s t → t.isAtEnd = false → t.isAt .rBrace = false →
    Rests k s t.skipToArm
  close {k : Int} {s t : State} : Rests k s t → t.isAt .rBrace = true →
    Leads (k - 1) s t.advance.resume
  unclosed {j : Int} {s t : State} : Rests j s t → t.isAtEnd = true → ∀ k,
    Leads k s (t.report (.expected (.symbol .rBrace) t.kind))

namespace Bracing

open Grammar.Parser (Ensures)

variable {α β : Type} (B : Bracing) (nested : Goal → State → Node × State)

/-- The parser opens `k` more braces than it closes. -/
def Takes (k : Int) (parser : Parser α) : Prop :=
  ∀ s : State, s.final.isEof = true → B.Leads k s (parser.run nested s).2

/-- The parser closes the braces that it opens. -/
abbrev Keeps (parser : Parser α) : Prop :=
  B.Takes nested 0 parser

/-- The same from a state in which no brace is next: the parser may begin by taking a token. -/
def Opens (parser : Parser α) : Prop :=
  ∀ s : State, s.final.isEof = true → s.kind.braces = 0 → B.Leads 0 s (parser.run nested s).2

/-- From the state `s` the parser opens `k` more braces than it closes. -/
def RunsFrom (s : State) (k : Int) (parser : Parser α) : Prop :=
  B.Leads k s (parser.run nested s).2

/-- The parser closes a brace that has been opened, with other tokens between. -/
def Closes (parser : Parser α) : Prop :=
  ∀ (k : Int) (s t : State), s.final.isEof = true → B.Leads k s t → s.consumed < t.consumed →
    B.Leads (k - 1) s (parser.run nested t).2

/-- What is called for closes the braces that it opens. -/
structure Sound : Prop where
  onlyTakes : OnlyTakes nested
  keeps (goal : Goal) : B.Keeps nested (.call goal .done)

variable {B nested}

section Rules

variable {j k : Int} {s : State} {parser : Parser α} {next : α → Parser β}

theorem Takes.final (h : B.Takes nested k parser) {s : State} (hs : s.final.isEof = true) :
    (parser.run nested s).2.final.isEof = true := by
  rw [(B.reaches (h s hs)).final_eq]
  exact hs

theorem Takes.bind (h : B.Takes nested j parser) (hnext : ∀ value, B.Takes nested k (next value)) :
    B.Takes nested (j + k) (parser >>= next) := by
  intro s hs
  rw [Parser.run_bind]
  exact B.trans (h s hs) (hnext _ _ (h.final hs))

theorem Keeps.bind (h : B.Keeps nested parser) (hnext : ∀ value, B.Takes nested k (next value)) :
    B.Takes nested k (parser >>= next) := by
  have htakes := Takes.bind h hnext
  rwa [Int.zero_add] at htakes

theorem Takes.followed (h : B.Takes nested k parser)
    (hnext : ∀ value, B.Keeps nested (next value)) : B.Takes nested k (parser >>= next) := by
  have htakes := Takes.bind h hnext
  rwa [Int.add_zero] at htakes

theorem keeps_pure (value : α) : B.Keeps nested (pure value) :=
  fun s _ => B.refl s

theorem Takes.ite {condition : Prop} [Decidable condition] {yes no : Parser α}
    (hyes : B.Takes nested k yes) (hno : B.Takes nested k no) :
    B.Takes nested k (if condition then yes else no) := by
  split_ifs
  · exact hyes
  · exact hno

theorem Takes.state {next : State → Parser β} (h : ∀ s, B.Takes nested k (next s)) :
    B.Takes nested k (Grammar.state >>= next) :=
  fun s hs => h s s hs

theorem Takes.mark {next : Mark → Parser β} (h : ∀ m, B.Takes nested k (next m)) :
    B.Takes nested k (Grammar.mark >>= next) :=
  fun s hs => h s.mark s hs

/-- What the parser does may depend on the state. -/
theorem Takes.look {next : State → Parser β}
    (h : ∀ s : State, s.final.isEof = true → B.RunsFrom nested s k (next s)) :
    B.Takes nested k (Grammar.state >>= next) :=
  h

theorem Takes.runsFrom (h : B.Takes nested k parser) (hs : s.final.isEof = true) :
    B.RunsFrom nested s k parser :=
  h s hs

theorem Takes.opens (h : B.Keeps nested parser) : B.Opens nested parser :=
  fun s hs _ => h s hs

theorem RunsFrom.bind (h : B.RunsFrom nested s 0 parser) (hs : s.final.isEof = true)
    (hnext : ∀ value, B.Takes nested k (next value)) : B.RunsFrom nested s k (parser >>= next) := by
  rw [RunsFrom, Parser.run_bind]
  have hnext := hnext (parser.run nested s).1 _ (by rwa [(B.reaches h).final_eq])
  exact Int.zero_add k ▸ B.trans h hnext

/-- Takes a token that may be a brace. -/
theorem RunsFrom.take {next : Token → Parser β} (hs : s.final.isEof = true)
    (hnext : ∀ token, B.Takes nested k (next token)) :
    B.RunsFrom nested s (s.kind.braces + k) (Grammar.advance >>= next) :=
  B.trans (B.advance s) (hnext _ _ (by rwa [State.advance_final]))

/-- Takes a token that is no brace. -/
theorem RunsFrom.take_level {next : Token → Parser β} (hs : s.final.isEof = true)
    (hlevel : s.kind.braces = 0) (hnext : ∀ token, B.Takes nested k (next token)) :
    B.RunsFrom nested s k (Grammar.advance >>= next) := by
  have htake := RunsFrom.take hs hnext
  rwa [hlevel, Int.zero_add] at htake

theorem RunsFrom.take_of_kind {kind : Token.Kind} {next : Token → Parser β}
    (hs : s.final.isEof = true) (hkind : s.kind = kind) (hlevel : kind.braces = 0)
    (hnext : ∀ token, B.Takes nested k (next token)) :
    B.RunsFrom nested s k (Grammar.advance >>= next) :=
  RunsFrom.take_level hs (hkind ▸ hlevel) hnext

/-- Takes a brace that is closed in what follows. -/
theorem RunsFrom.take_brace {next : Token → Parser β} (hs : s.final.isEof = true)
    (hkind : s.kind = .symbol .lBrace) (hnext : ∀ token, B.Takes nested (-1) (next token)) :
    B.RunsFrom nested s 0 (Grammar.advance >>= next) := by
  have htake := RunsFrom.take hs hnext
  rwa [hkind] at htake

/-- Takes two tokens that are no braces. -/
theorem RunsFrom.take_two {next : Parser β} (hs : s.final.isEof = true)
    (hfirst : s.kind.braces = 0) (hsecond : (s.kindAt 1).braces = 0)
    (hnext : B.Takes nested k next) :
    B.RunsFrom nested s k (Grammar.advance >>= fun _ => Grammar.advance >>= fun _ => next) := by
  have hadvanced : s.advance.kind.braces = 0 := by
    rcases hpending : s.pending with - | ⟨t, rest⟩
    · rwa [State.advance_nil hpending]
    · rw [State.kindAt, hpending] at hsecond
      rw [State.kind, State.current, State.advance_pending, State.advance_final, hpending]
      cases rest <;> exact hsecond
  have hlast := RunsFrom.take_level (s := s.advance) (by rwa [State.advance_final]) hadvanced
    fun _ => hnext
  have hstep := B.advance s
  rw [hfirst] at hstep
  exact Int.zero_add k ▸ B.trans hstep hlast

theorem Opens.take {next : Token → Parser β} (hnext : ∀ token, B.Keeps nested (next token)) :
    B.Opens nested (Grammar.advance >>= next) :=
  fun _ hs hlevel => RunsFrom.take_level hs hlevel hnext

theorem Opens.mark_take {next : Mark → Token → Parser β}
    (hnext : ∀ m token, B.Keeps nested (next m token)) :
    B.Opens nested (Grammar.mark >>= fun m => Grammar.advance >>= next m) :=
  fun s hs hlevel => RunsFrom.take_level hs hlevel (hnext s.mark)

theorem Opens.state {next : State → Parser β} (h : ∀ s, B.Opens nested (next s)) :
    B.Opens nested (Grammar.state >>= next) :=
  fun s hs hlevel => h s s hs hlevel

theorem Opens.of_kind {kind : Token.Kind} (h : B.Opens nested parser) (hs : s.final.isEof = true)
    (hkind : s.kind = kind) (hlevel : kind.braces = 0) : B.RunsFrom nested s 0 parser :=
  h s hs (hkind ▸ hlevel)

theorem Opens.of_isAtKeyword {word : Keyword} (h : B.Opens nested parser)
    (hs : s.final.isEof = true) (hat : s.isAtKeyword word = true) : B.RunsFrom nested s 0 parser :=
  h.of_kind hs (eq_of_beq hat) rfl

theorem keeps_close (m : Mark) (kind : Node.Kind) (payload : Payload) (children : List Node) :
    B.Keeps nested (Grammar.close m kind payload children) :=
  fun s _ => B.refl s

theorem keeps_placeholder (kind : Node.Kind) : B.Keeps nested (Grammar.placeholder kind) :=
  fun s _ => B.refl s

theorem keeps_missing : B.Keeps nested Grammar.missing :=
  keeps_placeholder .missing

theorem takes_reportExpected (wanted : Wanted) (k : Int) :
    B.Takes nested k (reportExpected wanted) :=
  fun s _ => B.report (by simp) k s

/-- A mark that closes is not open any longer, and where it is missing this is reported. -/
theorem takes_expectClosing (closing : Symbol) :
    B.Takes nested (Token.Kind.symbol closing).braces (expectClosing closing) := by
  intro s hs
  rw [expectClosing, Parser.run_bind, run_eat]
  cases hat : s.isAt closing with
  | true =>
      have hstep := B.advance s
      rwa [eq_of_beq hat] at hstep
  | false => exact takes_reportExpected _ _ s hs

theorem takes_expect (symbol : Symbol) :
    B.Takes nested (Token.Kind.symbol symbol).braces (expect symbol) := by
  intro s hs
  rw [run_expect]
  split_ifs with hat hends
  · exact B.proceed hends hat
  · have hstep := B.advance s
    rwa [eq_of_beq hat] at hstep
  · exact B.report (by simp) _ s

theorem keeps_reportExpected (wanted : Wanted) : B.Keeps nested (reportExpected wanted) :=
  takes_reportExpected wanted 0

theorem keeps_expectClosing (closing : Symbol) (hlevel : (Token.Kind.symbol closing).braces = 0) :
    B.Keeps nested (expectClosing closing) := by
  rw [Keeps, ← hlevel]
  exact takes_expectClosing closing

theorem keeps_expect (symbol : Symbol) (hlevel : (Token.Kind.symbol symbol).braces = 0) :
    B.Keeps nested (expect symbol) := by
  rw [Keeps, ← hlevel]
  exact takes_expect symbol

/-- What follows on a symbol that may be there. -/
theorem Takes.eat (symbol : Symbol) {yes no : Parser β} (hyes : B.Takes nested j yes)
    (hno : B.Takes nested ((Token.Kind.symbol symbol).braces + j) no) :
    B.Takes nested ((Token.Kind.symbol symbol).braces + j)
      (Grammar.eat symbol >>= fun eaten => if eaten then yes else no) := by
  intro s hs
  rw [Parser.run_bind, run_eat]
  cases hat : s.isAt symbol with
  | true =>
      have hstep := B.advance s
      rw [eq_of_beq hat] at hstep
      exact B.trans hstep (hyes _ (by rwa [State.advance_final]))
  | false => exact hno s hs

theorem keeps_eat (symbol : Symbol) (hlevel : (Token.Kind.symbol symbol).braces = 0) :
    B.Keeps nested (eat symbol) := by
  intro s hs
  rw [run_eat]
  split_ifs with hat
  · have hstep := B.advance s
    rwa [eq_of_beq hat, hlevel] at hstep
  · exact B.refl s

theorem keeps_eatKeyword (word : Keyword) : B.Keeps nested (eatKeyword word) := by
  intro s hs
  rw [run_eatKeyword]
  split_ifs with hat
  · have hstep := B.advance s
    rwa [eq_of_beq hat] at hstep
  · exact B.refl s

theorem keeps_expectKeyword (word : Keyword) : B.Keeps nested (expectKeyword word) :=
  (keeps_eatKeyword word).bind fun _ => Takes.ite (keeps_pure _) (keeps_reportExpected _)

theorem keeps_missed (wanted : Wanted) (value : α) :
    B.Keeps nested (reportExpected wanted >>= fun _ => pure value) :=
  (keeps_reportExpected wanted).bind fun _ => keeps_pure value

theorem keeps_expectAngle : B.Keeps nested expectAngle := by
  refine Takes.look fun s hs => ?_
  split
  · rename_i hkind
    exact RunsFrom.take_of_kind hs hkind rfl fun _ => keeps_pure true
  · exact B.splitShift s
  · exact (keeps_missed _ false).runsFrom hs

/-- The parser takes a token that is a name, or reports that it is missing. -/
theorem RunsFrom.name {kind : Token.Kind} (hs : s.final.isEof = true) (hkind : s.kind = kind)
    (hlevel : kind.braces = 0) (value : α) :
    B.RunsFrom nested s 0 (Grammar.advance >>= fun _ => pure value) :=
  RunsFrom.take_of_kind hs hkind hlevel fun _ => keeps_pure value

theorem keeps_loop {step : α → Parser (Step α)} (hstep : ∀ value, B.Keeps nested (step value))
    (value : α) : B.Keeps nested (loop step value) := by
  intro s hs
  have hloop : Ensures nested (fun t => t.final.isEof = true ∧ B.Leads 0 s t) (loop step value)
      fun _ t => t.final.isEof = true ∧ B.Leads 0 s t :=
    Ensures.loop (I := fun _ t => t.final.isEof = true ∧ B.Leads 0 s t)
      (fun value t ht => ⟨(hstep value).final ht.1, B.trans ht.2 (hstep value t ht.1)⟩) value
  exact (hloop s ⟨hs, B.refl s⟩).2

variable {item : Parser Node}

theorem Keeps.separated (hitem : B.Keeps nested item) (stop : State → Bool) :
    B.Keeps nested (separated stop item) := by
  refine Keeps.bind (keeps_loop (fun items => ?_) []) fun items => keeps_pure _
  refine Takes.state fun s => Takes.ite (keeps_pure _) (hitem.bind fun node => ?_)
  exact (keeps_eat .comma rfl).bind fun _ => Takes.ite (keeps_pure _) (keeps_pure _)

theorem Keeps.commaList (hitem : B.Keeps nested item) : B.Keeps nested (commaList item) :=
  hitem.separated fun _ => false

theorem Keeps.single (hitem : B.Keeps nested item) : B.Keeps nested (single item) :=
  hitem.bind fun _ => keeps_pure _

theorem Keeps.optionally {items : Parser (List Node)} (h : B.Keeps nested items)
    (condition : Bool) : B.Keeps nested (optionally condition items) :=
  Takes.ite h (keeps_pure _)

end Rules

section Sequences

variable {k : Int} {s t : State} {parser : Parser α} {next : α → Parser β} {item : Parser Node}

theorem Closes.bind (h : B.Closes nested parser) (hnext : ∀ value, B.Keeps nested (next value)) :
    B.Closes nested (parser >>= next) := by
  intro k s t hs hst hlt
  have hclosed := h k s t hs hst hlt
  rw [Parser.run_bind]
  have hlast := hnext (parser.run nested t).1 _ (by rwa [(B.reaches hclosed).final_eq])
  exact Int.add_zero (k - 1) ▸ B.trans hclosed hlast

/-- What stands in braces. -/
theorem Closes.inBraces {other : Parser α} (h : B.Closes nested parser)
    (hother : B.Keeps nested other) :
    B.Keeps nested (expect .lBrace >>= fun opened => if opened then parser else other) := by
  intro s hs
  rw [Parser.run_bind, run_expect]
  cases hat : s.isAt .lBrace with
  | true =>
      have hbeyond := State.beyond_advance (State.pending_ne_nil_of_isAt hs hat)
      exact h 1 s s.advance.resume hs (B.proceed rfl hat) hbeyond.consumed_lt
  | false =>
      have hreport : B.Leads 0 s (s.report (.expected (.symbol .lBrace) s.kind)) :=
        B.report (by simp) 0 s
      exact B.trans hreport (hother _ (by rwa [State.report_final]))

variable (h : B.Sound nested)
include h

/-- A sequence ends where its terminator holds. An item that stands there is read as a whole, up to
the place where the parse goes on behind it. -/
theorem rests_sequence (hitem : B.Keeps nested item) (terminator : Terminator)
    (hterminator : terminator ≠ .endOfInput) (hs : t.final.isEof = true) (hst : B.Rests k s t) :
    let after := ((sequence terminator item).run nested t).2
    B.Rests k s after ∧ terminator.holds after = true := by
  have hloop := (Parser.shrinks_sequenceStep h.onlyTakes terminator item).ensures_loop h.onlyTakes
    (I := fun _ u => u.final.isEof = true ∧ B.Rests k s u)
    (Q := fun _ u => B.Rests k s u ∧ terminator.holds u = true) (fun _ _ hu => hu.1)
    (fun items u hu => ?_) [] t ⟨hs, hst⟩
  · rw [sequence, Parser.run_bind]
    exact hloop
  · obtain ⟨hu, hsu⟩ := hu
    cases hholds : terminator.holds u with
    | true =>
        rw [run_sequenceStep_of_holds hholds]
        exact ⟨hsu, hholds⟩
    | false =>
        have hopen : u.isAtEnd = false ∧ u.isAt .rBrace = false := by
          cases terminator with
          | endOfInput => exact absurd rfl hterminator
          | brace => simpa [Terminator.holds] using hholds
          | caseArm =>
              rw [Terminator.holds.eq_def, Bool.or_eq_false_iff] at hholds
              exact ⟨hholds.1, (Bool.or_eq_false_iff.mp (Bool.or_eq_false_iff.mp hholds.2).1).1⟩
        rw [run_sequenceStep_of_open hholds hopen.2]
        have hrests := B.settle hsu hopen.1 hopen.2 (hitem u hu)
        refine ⟨?_, hrests⟩
        dsimp only
        rw [(B.reaches_rests hrests).final_eq, ← (B.reaches_rests hsu).final_eq]
        exact hu

omit h in
/-- The brace behind a sequence closes what has been opened; where it is missing this is
reported. -/
theorem leads_expect (hst : B.Rests k s t) (hend : t.isAtEnd = true ∨ t.isAt .rBrace = true)
    (value : α) :
    B.Leads (k - 1) s ((expect .rBrace >>= fun _ => pure value).run nested t).2 := by
  rw [Parser.run_bind, Parser.run_pure, run_expect]
  cases hat : t.isAt .rBrace with
  | true => exact B.close hst hat
  | false =>
      exact B.unclosed hst (hend.resolve_right (by rw [hat]; exact Bool.false_ne_true)) (k - 1)

theorem closes_braced (hitem : B.Keeps nested item) : B.Closes nested (braced item) := by
  intro k s t hs hst hlt
  rw [← (B.reaches hst).final_eq] at hs
  have hseq := rests_sequence h hitem .brace (by decide) hs (B.rests hst hlt)
  rw [braced, Parser.run_bind]
  exact leads_expect hseq.1 (Bool.or_eq_true_iff.mp hseq.2) _

theorem keeps_block : B.Keeps nested block :=
  Takes.mark fun _ => Closes.inBraces
    ((closes_braced h (h.keeps .statement)).bind fun _ => keeps_close _ _ _ _) keeps_missing

end Sequences

end Bracing

end Grammar

end QoreSyntax
