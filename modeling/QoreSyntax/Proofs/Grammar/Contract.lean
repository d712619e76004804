import QoreSyntax.Proofs.Grammar.Run

namespace QoreSyntax.Grammar.Parser

variable {α β : Type} {nested : Goal → State → Node × State}

/-- From every state of which `P` holds the parser gets to a result and a state of which `Q`
holds. -/
def Ensures (nested : Goal → State → Node × State) (P : State → Prop) (parser : Parser α)
    (Q : α → State → Prop) : Prop :=
  ∀ s, P s → Q (parser.run nested s).1 (parser.run nested s).2

namespace Ensures

variable {P : State → Prop} {Q : α → State → Prop}

theorem done {result : α} (h : ∀ s, P s → Q result s) :
    Ensures nested P (pure result) Q :=
  h

theorem bind {parser : Parser α} {next : α → Parser β} {T : β → State → Prop}
    (hparser : Ensures nested P parser Q)
    (hnext : ∀ result, Ensures nested (Q result) (next result) T) :
    Ensures nested P (parser >>= next) T := by
  intro s hs
  rw [run_bind]
  exact hnext _ _ (hparser s hs)

theorem look {next : State → Parser α}
    (h : ∀ o, P o → Ensures nested (fun s => s = o) (next o) Q) :
    Ensures nested P (Grammar.state >>= next) Q :=
  fun s hs => h s hs s rfl

theorem look_at {o : State} {next : State → Parser α}
    (h : Ensures nested (fun s => s = o) (next o) Q) :
    Ensures nested (fun s => s = o) (Grammar.state >>= next) Q := by
  rintro s rfl
  exact h s rfl

theorem strengthen {parser : Parser α} {P' : State → Prop} (h : Ensures nested P parser Q)
    (hpre : ∀ s, P' s → P s) : Ensures nested P' parser Q :=
  fun s hs => h s (hpre s hs)

theorem at_state {parser : Parser α} {o : State} (ho : P o) (h : Ensures nested P parser Q) :
    Ensures nested (fun s => s = o) parser Q :=
  h.strengthen fun _ hs => hs ▸ ho

theorem weaken {parser : Parser α} {Q' : α → State → Prop} (h : Ensures nested P parser Q)
    (hpost : ∀ result s, Q result s → Q' result s) : Ensures nested P parser Q' :=
  fun s hs => hpost _ _ (h s hs)

theorem ite {condition : Prop} [Decidable condition] {yes no : Parser α}
    (hyes : condition → Ensures nested P yes Q) (hno : ¬condition → Ensures nested P no Q) :
    Ensures nested P (if condition then yes else no) Q := by
  split_ifs with h
  · exact hyes h
  · exact hno h

end Ensures

end Parser

namespace Step

/-- The value that the repetition has come to. -/
def value {α : Type} : Step α → α
  | .again value => value
  | .done value => value

end Step

namespace Parser.Ensures

variable {α : Type} {nested : Goal → State → Node × State} {step : α → Parser (Step α)}
  {I : α → State → Prop}

/-- What each step of a repetition keeps, the repetition keeps. -/
theorem repeated (hstep : ∀ value, Ensures nested (I value) (step value) fun r => I r.value)
    (bound : List Token) (value : α) :
    Ensures nested (I value) (repeated step bound value) I := by
  induction bound generalizing value with
  | nil => exact done fun _ h => h
  | cons _ bound ih =>
      refine bind (hstep value) fun first => ?_
      cases first with
      | done last => exact done fun _ h => h
      | again next =>
          refine bind (hstep next) fun second => ?_
          cases second with
          | done last => exact done fun _ h => h
          | again next => exact ih next

theorem loop (hstep : ∀ value, Ensures nested (I value) (step value) fun r => I r.value)
    (value : α) : Ensures nested (I value) (loop step value) I := by
  intro s hs
  exact repeated hstep _ value s hs

end Parser.Ensures

end QoreSyntax.Grammar
