import QoreSyntax.Proofs.Grammar.Reading

/-!
The symbol `>>` as two symbols `>`. Closing brackets that stand side by side are read in pairs, and
a parser of types takes such a pair in two halves. What it does follows from the tokens with each
pair in its halves: `Runs` says that from every state with the same halves it gets to the same
result.
-/

namespace QoreSyntax

namespace Token

/-- The first half of the symbol `>>`, as a token of its own. -/
def firstHalf (t : Token) : Token :=
  { kind := .symbol .gt
    span := ⟨t.span.start, t.span.start + 1⟩
    range := ⟨t.range.start, t.middle⟩
    newlineBefore := t.newlineBefore }

def halves (t : Token) : List Token :=
  if t.kind = .symbol .shr then [t.firstHalf, t.secondHalf] else [t]

/-- The tokens, each symbol `>>` in its halves. -/
def halved (tokens : List Token) : List Token :=
  tokens.flatMap halves

theorem halved_cons (t : Token) (rest : List Token) :
    halved (t :: rest) = t.halves ++ halved rest :=
  List.flatMap_cons

theorem halved_append (tokens more : List Token) :
    halved (tokens ++ more) = halved tokens ++ halved more :=
  List.flatMap_append

theorem halved_cons_of_shr {t : Token} (h : t.kind = .symbol .shr) (rest : List Token) :
    halved (t :: rest) = t.firstHalf :: t.secondHalf :: halved rest := by
  rw [halved_cons, halves, if_pos h]
  rfl

theorem halved_cons_of_ne {t : Token} (h : t.kind ≠ .symbol .shr) (rest : List Token) :
    halved (t :: rest) = t :: halved rest := by
  rw [halved_cons, halves, if_neg h]
  rfl

theorem halves_length (t : Token) : t.halves.length = t.weight := by
  rw [halves, weight]
  split_ifs <;> rfl

/-- The halves are the times that something can be taken of the tokens. -/
theorem halved_length (tokens : List Token) : (halved tokens).length = weights tokens := by
  induction tokens with
  | nil => rfl
  | cons t tokens ih => rw [halved_cons, List.length_append, halves_length, ih, weights]

end Token

namespace Grammar

open Token (Kind)

namespace State

def halved (s : State) : State :=
  { s with pending := Token.halved s.pending }

variable {s h : State}

/-- The next token stays what it is, but for the symbol `>>`. -/
theorem kind_halved (s : State) :
    s.halved.kind = s.kind ∨ (s.kind = .symbol .shr ∧ s.halved.kind = .symbol .gt) := by
  cases hpending : s.pending with
  | nil =>
      left
      rw [kind, kind, current, current, halved, hpending]
      rfl
  | cons t rest =>
      have hcurrent : s.kind = t.kind := by rw [kind, current_of_pending hpending]
      by_cases hshr : t.kind = .symbol .shr
      · right
        refine ⟨hcurrent.trans hshr, ?_⟩
        rw [kind, current, halved, hpending, Token.halved_cons_of_shr hshr]
        rfl
      · left
        rw [hcurrent, kind, current, halved, hpending, Token.halved_cons_of_ne hshr]
        rfl

theorem kind_eq_of_halved (hs : s.halved = h) {kind : Kind} (hkind : h.kind = kind)
    (hgt : kind ≠ .symbol .gt) : s.kind = kind := by
  rcases s.kind_halved with hsame | ⟨-, hhalf⟩
  · rw [← hsame, hs, hkind]
  · rw [hs, hkind] at hhalf
    exact absurd hhalf hgt

theorem kind_ne_of_halved (hs : s.halved = h) {kind : Kind} (hkind : h.kind ≠ kind)
    (hshr : kind ≠ .symbol .shr) : s.kind ≠ kind := by
  rcases s.kind_halved with hsame | ⟨hwhole, -⟩
  · rw [← hsame, hs]
    exact hkind
  · rw [hwhole]
    exact hshr.symm

theorem mark_halved (s : State) : s.halved.mark = s.mark := by
  cases hpending : s.pending with
  | nil =>
      rw [mark, mark, current, current, halved, hpending]
      rfl
  | cons t rest =>
      rw [mark, mark, current, current, halved, hpending]
      by_cases hshr : t.kind = .symbol .shr
      · rw [Token.halved_cons_of_shr hshr]
        rfl
      · rw [Token.halved_cons_of_ne hshr]
        rfl

theorem isAtEnd_halved (s : State) : s.halved.isAtEnd = s.isAtEnd := by
  rw [isAtEnd, isAtEnd, halved]
  cases s.pending with
  | nil => rfl
  | cons t rest =>
      by_cases hshr : t.kind = .symbol .shr
      · rw [Token.halved_cons_of_shr hshr]
        rfl
      · rw [Token.halved_cons_of_ne hshr]
        rfl

theorem advance_halved (hshr : s.kind ≠ .symbol .shr) : s.advance.halved = s.halved.advance := by
  cases hpending : s.pending with
  | nil =>
      have hnil : s.halved.pending = [] := by
        rw [halved, hpending]
        rfl
      rw [advance_nil hpending, advance_nil hnil]
  | cons t rest =>
      rw [kind, current_of_pending hpending] at hshr
      have hcons : s.halved.pending = t :: Token.halved rest := by
        rw [halved, hpending, Token.halved_cons_of_ne hshr]
      rw [advance_cons hpending, advance_cons hcons]
      rfl

/-- To take the first half of `>>` is to take the first `>` of two. -/
theorem splitShift_halved (hpending : s.pending ≠ []) (hshr : s.kind = .symbol .shr) :
    s.splitShift.halved = s.halved.advance := by
  obtain ⟨t, rest, hcons⟩ := List.exists_cons_of_ne_nil hpending
  rw [kind, current_of_pending hcons] at hshr
  have hhalves : s.halved.pending = t.firstHalf :: t.secondHalf :: Token.halved rest := by
    rw [halved, hcons, Token.halved_cons_of_shr hshr]
  have hsecond : Token.halved (t.secondHalf :: rest) = t.secondHalf :: Token.halved rest :=
    Token.halved_cons_of_ne (ne_of_beq_false rfl) rest
  rw [splitShift_of_shr hcons hshr, advance_cons hhalves]
  change { s with pending := _, previousEnd := _, consumed := _ } = _
  rw [hsecond]
  simp only [halved, Token.firstHalf, LexicalError.ofToken?, Option.map_none, Option.toList_none,
    List.nil_append, Option.isSome_none, Bool.or_false]

end State

namespace Parser

variable {α β : Type} {nested : Goal → State → Node × State} {h h' h'' : State}

/-- From every state whose tokens have the halves of `h` the parser gets to the value, and to a
state whose tokens have the halves of `h'`. -/
def Runs (nested : Goal → State → Node × State) (h : State) (parser : Parser α) (value : α)
    (h' : State) : Prop :=
  Ensures nested (fun s => s.halved = h) parser fun result s => result = value ∧ s.halved = h'

namespace Runs

variable {parser : Parser α} {value : α} {result : β}

theorem done : Runs nested h (pure value) value h :=
  Ensures.done fun _ hs => ⟨rfl, hs⟩

theorem bind {next : α → Parser β} (hparser : Runs nested h parser value h')
    (hnext : Runs nested h' (next value) result h'') : Runs nested h (parser >>= next) result h'' :=
  Ensures.bind hparser fun _ => by
    rintro s ⟨rfl, hs⟩
    exact hnext s hs

theorem look {next : State → Parser β}
    (hnext : ∀ o : State, o.halved = h → Runs nested h (next o) result h') :
    Runs nested h (Grammar.state >>= next) result h' :=
  Ensures.look fun o ho => Ensures.at_state ho (hnext o ho)

theorem mark : Runs nested h Grammar.mark h.mark h := by
  rintro s rfl
  exact ⟨s.mark_halved.symm, rfl⟩

theorem close (m : Mark) (kind : Node.Kind) (payload : Payload) (children : List Node) :
    Runs nested h (Grammar.close m kind payload children) (h.close m kind payload children) h := by
  rintro s rfl
  exact ⟨rfl, rfl⟩

/-- A token is taken that is neither `>` nor `>>`. -/
theorem advance {kind : Kind} (hkind : h.kind = kind) (hgt : kind ≠ .symbol .gt)
    (hshr : kind ≠ .symbol .shr) {next : Token → Parser β}
    (hnext : ∀ token, Runs nested h.advance (next token) result h') :
    Runs nested h (Grammar.advance >>= next) result h' := by
  rintro s rfl
  have hs := State.kind_eq_of_halved rfl hkind hgt
  have hnot : s.kind ≠ .symbol .shr := by
    rw [hs]
    exact hshr
  exact hnext s.current s.advance (State.advance_halved hnot)

theorem eat {symbol : Symbol} (hkind : h.kind = .symbol symbol) (hgt : symbol ≠ .gt)
    (hshr : symbol ≠ .shr) : Runs nested h (Grammar.eat symbol) true h.advance := by
  have hne (other : Symbol) (hother : symbol ≠ other) : Kind.symbol symbol ≠ .symbol other :=
    fun heq => hother (Kind.symbol.inj heq)
  refine look fun o ho => ?_
  have hat : o.isAt symbol = true := beq_iff_eq.mpr (State.kind_eq_of_halved ho hkind (hne _ hgt))
  rw [if_pos hat]
  exact advance hkind (hne _ hgt) (hne _ hshr) fun _ => done

theorem eat_miss {symbol : Symbol} (hkind : h.kind ≠ .symbol symbol) (hshr : symbol ≠ .shr) :
    Runs nested h (Grammar.eat symbol) false h := by
  refine look fun o ho => ?_
  have hne : o.kind ≠ .symbol symbol :=
    State.kind_ne_of_halved ho hkind fun heq => hshr (Kind.symbol.inj heq)
  have hat : ¬o.isAt symbol = true := mt eq_of_beq hne
  rw [if_neg hat]
  exact done

theorem resume : Runs nested h Grammar.resume () h.resume := by
  rintro s rfl
  exact ⟨rfl, rfl⟩

/-- A closing bracket is taken, be it one half of the symbol `>>`. -/
theorem expectAngle (hfinal : h.final.isEof = true) (hkind : h.kind = .symbol .gt) :
    Runs nested h Grammar.expectAngle true h.advance := by
  rintro s rfl
  suffices Ensures nested (fun o => o = s) Grammar.expectAngle fun result o =>
      result = true ∧ o.halved = s.halved.advance from this s rfl
  refine Ensures.look_at ?_
  rcases s.kind_halved with hsame | ⟨hshr, -⟩
  · have hgt : s.kind = .symbol .gt := hsame.symm.trans hkind
    have hnot : s.kind ≠ .symbol .shr := by
      rw [hgt]
      exact ne_of_beq_false rfl
    rw [hgt]
    rintro _ rfl
    exact ⟨rfl, State.advance_halved hnot⟩
  · have hpending : s.pending ≠ [] := by
      refine State.pending_ne_nil hfinal ?_
      rw [hshr]
      exact ne_of_beq_false rfl
    rw [hshr]
    rintro _ rfl
    exact ⟨rfl, State.splitShift_halved hpending hshr⟩

/-- A construct is read by its rule where there is room for it. -/
theorem call {limit room : Nat} {node : Node} (goal : Goal) (depth : Nat) (hlimit : h.depth < limit)
    (hrule : Runs (parse limit room) { h with depth := h.depth + 1 } goal.rule node
      { h' with depth := depth + 1 }) :
    Runs (parse limit (room + 1)) h (.call goal .done) node { h' with depth := depth } := by
  rintro s rfl
  change (parse limit (room + 1) goal s).1 = node ∧
    (parse limit (room + 1) goal s).2.halved = { h' with depth := depth }
  have hopen : ¬limit ≤ s.depth := Nat.not_le.mpr hlimit
  rw [parse, if_neg hopen]
  obtain ⟨hnode, hafter⟩ := hrule { s with depth := s.depth + 1 } rfl
  refine ⟨hnode, ?_⟩
  have hlast : ∀ t : State, t.halved = { h' with depth := depth + 1 } →
      State.halved { t with depth := t.depth - 1 } = { h' with depth := depth } := by
    intro t ht
    have hdepth : t.depth = depth + 1 := congrArg State.depth ht
    have hrest : State.halved { t with depth := t.depth - 1 }
        = { t.halved with depth := t.depth - 1 } := rfl
    rw [hrest, ht, hdepth, Nat.add_sub_cancel]
  exact hlast _ hafter

section Repetition

variable {step : α → Parser (Step α)} {next last : α} (hstep : Shrinks nested step)
  (hnested : OnlyTakes nested) (hfinal : h.final.isEof = true)
include hstep hnested hfinal

theorem loop_again (hagain : Runs nested h (step value) (.again next) h')
    (hnext : Runs nested h' (loop step next) last h'') :
    Runs nested h (loop step value) last h'' := by
  rintro s rfl
  obtain ⟨hresult, hafter⟩ := hagain s rfl
  rw [hstep.run_loop hnested value (s := s) hfinal]
  rcases hrun : (step value).run nested s with ⟨result, t⟩
  rw [hrun] at hresult hafter
  obtain rfl : result = .again next := hresult
  exact hnext t hafter

theorem loop_done (hdone : Runs nested h (step value) (.done last) h') :
    Runs nested h (loop step value) last h' := by
  rintro s rfl
  obtain ⟨hresult, hafter⟩ := hdone s rfl
  rw [hstep.run_loop hnested value (s := s) hfinal]
  rcases hrun : (step value).run nested s with ⟨result, t⟩
  rw [hrun] at hresult hafter
  obtain rfl : result = .done last := hresult
  exact ⟨rfl, hafter⟩

end Repetition

end Runs

end Parser

end Grammar

end QoreSyntax
