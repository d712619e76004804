import QoreSyntax.Proofs.Grammar.Reading.Script
import QoreSyntax.Proofs.Grammar.Report.Order

namespace QoreSyntax.Grammar

open Token (Kind)

namespace Parser

variable {α β : Type} {nested : Goal → State → Node × State} {depth : Nat}
  {before middle : List Kind}

/-- What is called for takes no report back. -/
def KeepsReports (nested : Goal → State → Node × State) : Prop :=
  ∀ goal s, s.reported <:+ (nested goal s).2.reported

theorem keepsReports_parse (limit room : Nat) : KeepsReports (parse limit room) :=
  State.isTrail_reported.parse limit room

/-- What has been reported stays so. -/
theorem KeepsReports.ensures_reported (hkeeps : KeepsReports nested) (parser : Parser α) :
    Ensures nested (fun s => s.reported ≠ []) parser fun _ s => s.reported ≠ [] := by
  intro s hs hnil
  have hsuffix := State.isTrail_reported.run hkeeps parser s
  rw [hnil] at hsuffix
  exact hs (List.suffix_nil.mp hsuffix)

/-- With tokens of the kinds `before` ahead and nothing reported, the parser reports something. -/
def Errs (nested : Goal → State → Node × State) (depth : Nat) (before : List Kind)
    (parser : Parser α) : Prop :=
  Ensures nested (State.Clear before depth) parser fun _ s => s.reported ≠ []

namespace Errs

variable {p : α → Prop} {parser : Parser α}

theorem look {next : State → Parser β}
    (h : ∀ o : State, o.Clear before depth → Errs nested depth before (next o)) :
    Errs nested depth before (Grammar.state >>= next) :=
  Ensures.look fun o ho => Ensures.at_state ho (h o ho)

theorem look_cons {kind : Kind} {next : State → Parser β}
    (h : ∀ o : State, o.kind = kind → Errs nested depth (kind :: before) (next o)) :
    Errs nested depth (kind :: before) (Grammar.state >>= next) :=
  look fun o ho => h o ho.kind_eq

/-- The mistake is in what is read first. -/
theorem bind (hkeeps : KeepsReports nested) (h : Errs nested depth before parser)
    (next : α → Parser β) : Errs nested depth before (parser >>= next) :=
  Ensures.bind h fun value => hkeeps.ensures_reported (next value)

/-- The mistake is behind what is read first. -/
theorem behind {next : α → Parser β} (h : Reads nested depth before parser p middle)
    (hnext : ∀ value, p value → Errs nested depth middle (next value)) :
    Errs nested depth before (parser >>= next) :=
  Ensures.bind h fun value s hs => hnext value hs.1 s hs.2

/-- A mark that has to be there is not. -/
theorem expect {mark : Symbol} (h : before.headD .eof ≠ .symbol mark)
    (hvalid : (before.headD .eof).isValid = true) :
    Errs nested depth before (Grammar.expect mark) := by
  refine behind (Reads.eat_miss h) ?_
  rintro _ rfl s hs
  have hfault : LexicalError.ofToken? s.current = none := by
    rw [LexicalError.ofToken?_eq_none_iff, ← State.kind, hs.kind_eq]
    exact hvalid
  change (s.report _).reported ≠ []
  rw [State.report, hs.recovering_eq, hfault]
  exact List.cons_ne_nil _ _

/-- A construct with a mistake is met where there is room for it. -/
theorem call {limit room : Nat} {goal : Goal} (hlimit : depth < limit)
    (h : Errs (parse limit room) (depth + 1) before goal.rule) :
    Errs (parse limit (room + 1)) depth before (.call goal .done) := by
  intro s hs
  have hopen : ¬limit ≤ s.depth := by
    rw [hs.depth_eq]
    exact Nat.not_le.mpr hlimit
  change (parse limit (room + 1) goal s).2.reported ≠ []
  rw [parse, if_neg hopen]
  exact h { s with depth := s.depth + 1 } { hs with depth_eq := congrArg (· + 1) hs.depth_eq }

/-- The first item of a sequence has the mistake. -/
theorem sequence (hkeeps : KeepsReports nested) {terminator : Terminator} {item : Parser Node}
    (hbegins : (before.headD .eof).beginsItem = true) (hitem : Errs nested depth before item) :
    Errs nested depth before (sequence terminator item) := by
  have hstep : Errs nested depth before (sequenceStep terminator item []) := by
    refine look fun o ho => ?_
    obtain ⟨hopen, hbrace⟩ := Reads.goes_on ho hbegins terminator
    rw [hopen, if_neg Bool.false_ne_true, hbrace, if_neg Bool.false_ne_true]
    exact bind hkeeps hitem _
  have hloop : Errs nested depth before (loop (sequenceStep terminator item) []) := by
    refine look fun o _ => ?_
    rw [repeated]
    exact bind hkeeps hstep _
  exact bind hkeeps hloop _

end Errs

end Parser

/-- A text that begins with a statement with a mistake in it is reported. -/
theorem reports_written_ne_nil {kinds : List Kind} (hlegible : Token.Legible kinds)
    (hbegins : (kinds.headD .eof).beginsItem = true) (options : Options)
    (h : Parser.Errs (parse options.limit options.limit) 0 kinds statement) :
    (QoreSyntax.parse (Token.written kinds) options).2 ≠ [] := by
  have hstart := clear_start hlegible options
  have hopen := hstart.isAtEnd_eq_false (Token.ne_of_holds hbegins rfl)
  rw [QoreSyntax.parse, script_of_not_isAtEnd options hopen]
  have hsequence : Parser.Errs (parse options.limit options.limit) 0 kinds
      (sequence .endOfInput statement) :=
    Parser.Errs.sequence (Parser.keepsReports_parse options.limit options.limit) hbegins h
  exact mt List.reverse_eq_nil_iff.mp (hsequence _ hstart)

end QoreSyntax.Grammar
