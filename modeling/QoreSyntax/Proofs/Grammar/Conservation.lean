import QoreSyntax.Grammar.Parameter
import QoreSyntax.Proofs.Grammar.Blame
import QoreSyntax.Proofs.Grammar.Report.Order
import QoreSyntax.Proofs.Node.Literal

/-!
Literals are kept. Between two states of a parse the literals of some tokens have been taken; those
that the nodes read since then give back are among them, in the same order, and they are all of them
unless something can be blamed.

A token that is taken in passing must therefore be no literal, or there must be something to blame:
what a rule of the grammar takes besides the nodes that it reads is looked at here, which is more
than an account of nodes asks for.
-/

namespace QoreSyntax.Grammar

open Node (literals)

namespace State

/-- The literals that are still to be taken. -/
def literals (s : State) : List Literal :=
  s.pending.filterMap Literal.ofToken?

/-- The next token is no literal. -/
def IsPlain (s : State) : Prop :=
  s.kind.literal? = none

theorem IsPlain.of_isAt {s : State} {symbol : Symbol} (h : s.isAt symbol = true) : s.IsPlain := by
  rw [IsPlain, eq_of_beq h]
  rfl

theorem IsPlain.of_isAtKeyword {s : State} {word : Keyword} (h : s.isAtKeyword word = true) :
    s.IsPlain := by
  rw [IsPlain, eq_of_beq h]
  rfl

theorem IsPlain.of_keyword? {s : State} {word : Keyword} (h : s.keyword? = some word) :
    s.IsPlain := by
  rw [keyword?] at h
  split at h
  · rename_i hkind
    exact congrArg Token.Kind.literal? hkind
  · cases h

theorem literals_of_pending {s t : State} (h : t.pending = s.pending) :
    t.literals = s.literals := by
  rw [literals, literals, h]

theorem literals_advance {s : State} (hfinal : s.final.isEof = true) :
    s.literals = (Literal.ofToken? s.current).toList ++ s.advance.literals := by
  rcases hpending : s.pending with - | ⟨t, rest⟩
  · have hnone : Literal.ofToken? s.current = none := by
      rw [current, hpending, List.head?_nil, Option.getD_none]
      exact Literal.ofToken?_eq_none (congrArg Token.Kind.literal? (eq_of_beq hfinal))
    rw [hnone, advance_nil hpending]
    rfl
  · rw [literals, literals, advance_pending, current, hpending, List.filterMap_cons]
    change _ = (Literal.ofToken? t).toList ++ rest.filterMap Literal.ofToken?
    cases Literal.ofToken? t <;> rfl

/-- Neither half of the symbol `>>` is a literal. -/
theorem literals_splitShift (s : State) : s.splitShift.literals = s.literals := by
  rcases splitShift_cases s with ⟨t, rest, hpending, hshr⟩ | hsame
  · have hwhole : Literal.ofToken? t = none := Literal.ofToken?_eq_none (by rw [hshr]; rfl)
    have hhalf : Literal.ofToken? t.secondHalf = none := Literal.ofToken?_eq_none rfl
    rw [splitShift_of_shr hpending hshr, literals, literals, hpending,
      List.filterMap_cons_none hhalf, List.filterMap_cons_none hwhole]
  · rw [hsame]

/-- The second state comes after the first one: what has been blamed or reported stays so, and no
literal comes back. -/
structure Passes (s t : State) : Prop where
  upholds : s.Upholds t
  literals : t.literals <:+ s.literals
  reported : s.reported <:+ t.reported

theorem Passes.trans {s t u : State} (hst : s.Passes t) (htu : t.Passes u) : s.Passes u :=
  ⟨hst.upholds.trans htu.upholds, htu.literals.trans hst.literals, hst.reported.trans htu.reported⟩

theorem isTrail_passes : IsTrail fun s t => s.Honest → s.Passes t where
  refl _ h := ⟨Upholds.refl h, List.suffix_rfl, List.suffix_rfl⟩
  trans hst htu h := (hst h).trans (htu (hst h).upholds.honest)
  advance s h :=
    ⟨Upholds.advance h, ⟨_, (literals_advance h.isEof_final).symm⟩, isTrail_reported.advance s⟩
  splitShift s h :=
    ⟨Upholds.splitShift h, (literals_splitShift s).symm ▸ List.suffix_rfl,
      isTrail_reported.splitShift s⟩
  report problem s h :=
    ⟨Upholds.report h problem, List.suffix_rfl, isTrail_reported.report problem s⟩
  resume s h := ⟨isTrail_upholds.resume s h, List.suffix_rfl, isTrail_reported.resume s⟩
  nest depth s h :=
    ⟨isTrail_upholds.nest depth s h, List.suffix_rfl, isTrail_reported.nest depth s⟩

/-- Of the literals taken between the two states those in `kept` are kept, and these are all of them
unless something can be blamed. -/
structure Carries (o : State) (kept : List Literal) (s : State) : Prop where
  passes : o.Passes s
  exists_taken : ∃ taken, o.literals = taken ++ s.literals ∧ kept.Sublist taken ∧
    (kept = taken ∨ s.Blamed)

namespace Carries

variable {o s t : State} {kept more : List Literal}

theorem honest (h : o.Carries kept s) : s.Honest :=
  h.passes.upholds.honest

theorem of_literals_eq (h : s.Passes t) (hliterals : t.literals = s.literals) : s.Carries [] t :=
  ⟨h, [], hliterals.symm, List.Sublist.refl _, Or.inl rfl⟩

theorem nil (h : o.Honest) : o.Carries [] o :=
  of_literals_eq (isTrail_passes.refl o h) rfl

theorem append (h : o.Carries kept s) (hmore : s.Carries more t) : o.Carries (kept ++ more) t := by
  obtain ⟨taken, htaken, hkept, hall⟩ := h.exists_taken
  obtain ⟨next, hnext, hmorekept, hmoreall⟩ := hmore.exists_taken
  refine ⟨h.passes.trans hmore.passes, taken ++ next, ?_, hkept.append hmorekept, ?_⟩
  · rw [htaken, hnext, List.append_assoc]
  · rcases hall with rfl | hblamed
    · exact hmoreall.imp_left (congrArg _)
    · exact Or.inr (hmore.passes.upholds.blamed hblamed)

/-- With something to blame, literals may be passed over. -/
theorem of_blamed (h : s.Passes t) (hblamed : t.Blamed) : s.Carries [] t := by
  obtain ⟨taken, htaken⟩ := h.literals
  exact ⟨h, taken, htaken.symm, List.nil_sublist taken, Or.inr hblamed⟩

theorem pass (h : o.Carries kept s) (hnext : s.Carries [] t) : o.Carries kept t :=
  List.append_nil kept ▸ h.append hnext

theorem advance (h : s.Honest) : s.Carries (Literal.ofToken? s.current).toList s.advance :=
  ⟨isTrail_passes.advance s h, _, literals_advance h.isEof_final, List.Sublist.refl _, Or.inl rfl⟩

theorem advance_of_isPlain (h : s.Honest) (hplain : s.IsPlain) : s.Carries [] s.advance := by
  have hcarries := advance h
  rwa [Literal.ofToken?_eq_none hplain] at hcarries

/-- Where no token has been taken there is no literal. -/
theorem kept_eq_nil (h : o.Carries kept s) (hconsumed : s.consumed = o.consumed) : kept = [] := by
  obtain ⟨taken, htaken, hkept, -⟩ := h.exists_taken
  rw [literals_of_pending (h.passes.upholds.reaches.pending_eq hconsumed)] at htaken
  exact List.sublist_nil.mp (List.self_eq_append_left.mp htaken ▸ hkept)

theorem sublist (h : o.Carries kept s) : kept.Sublist o.literals := by
  obtain ⟨taken, htaken, hkept, -⟩ := h.exists_taken
  rw [htaken]
  exact hkept.trans (List.sublist_append_left taken s.literals)

/-- At the end of a text without a report all literals have been kept. -/
theorem eq_of_isAtEnd (h : o.Carries kept s) (hend : s.isAtEnd = true)
    (hclean : s.diagnostics = []) : kept = o.literals := by
  obtain ⟨taken, htaken, -, hall⟩ := h.exists_taken
  have hnil : s.literals = [] := by
    rw [literals, isAtEnd_iff.mp hend, List.filterMap_nil]
  rw [htaken, hnil, List.append_nil]
  exact hall.resolve_right (not_blamed_of_isAtEnd hend hclean)

end Carries

end State

namespace Conservation

open Grammar.Parser (Ensures)

variable {α β : Type} {nested : Goal → State → Node × State}

/-- The parser keeps the literals of the nodes that it reads, and takes no others. -/
def Keeps (nested : Goal → State → Node × State) (parser : Parser α) (read : α → List Node) :
    Prop :=
  ∀ s : State, s.Honest →
    s.Carries (literals (read (parser.run nested s).1)) (parser.run nested s).2

/-- The same where the next token is no literal: the parser may begin by taking it. -/
def Opens (nested : Goal → State → Node × State) (parser : Parser α) (read : α → List Node) :
    Prop :=
  ∀ s : State, s.Honest → s.IsPlain →
    s.Carries (literals (read (parser.run nested s).1)) (parser.run nested s).2

/-- With `nodes` read since the state `o`, the parser gets to `result`. -/
def Continues (nested : Goal → State → Node × State) (o : State) (nodes : List Node)
    (parser : Parser α) (result : α → List Node) : Prop :=
  Ensures nested (o.Carries (literals nodes)) parser
    fun value => o.Carries (literals (result value))

/-- From the state `s` the parser gets to `result`, which has been read since the state `o`. -/
def RunsTo (nested : Goal → State → Node × State) (o s : State) (parser : Parser α)
    (result : α → List Node) : Prop :=
  Ensures nested (fun t => t = s) parser fun value => o.Carries (literals (result value))

/-- What is called for keeps its literals. -/
def Sound (nested : Goal → State → Node × State) : Prop :=
  ∀ goal, Keeps nested (.call goal .done) ([·])

section Rules

variable {o s : State} {nodes : List Node} {parser : Parser α} {next : α → Parser β}
  {read : α → List Node} {result : β → List Node}

theorem Keeps.continues (h : Keeps nested parser read) (o : State) (nodes : List Node) :
    Continues nested o nodes parser fun value => nodes ++ read value := by
  intro s hs
  rw [Node.literals_append]
  exact hs.append (h s hs.honest)

theorem Keeps.opens (h : Keeps nested parser read) : Opens nested parser read :=
  fun s hs _ => h s hs

theorem Continues.keeps (h : ∀ o, Continues nested o [] parser read) : Keeps nested parser read :=
  fun s hs => h s s (State.Carries.nil hs)

theorem Keeps.at_state (h : Keeps nested parser read) (hs : s.Honest) :
    RunsTo nested s s parser read := by
  rintro t rfl
  exact h t hs

theorem Opens.at_state (h : Opens nested parser read) (hs : s.Honest) (hplain : s.IsPlain) :
    RunsTo nested s s parser read := by
  rintro t rfl
  exact h t hs hplain

theorem Continues.at_state (h : Continues nested o nodes parser read)
    (hs : o.Carries (literals nodes) s) : RunsTo nested o s parser read :=
  Ensures.at_state hs h

/-- What begins with a token of its own goes on from what has been read. -/
theorem Opens.continues_at (h : Opens nested parser read) (hs : o.Carries (literals nodes) s)
    (hplain : s.IsPlain) :
    RunsTo nested o s parser fun value => nodes ++ read value := by
  refine Ensures.weaken (h.at_state hs.honest hplain) fun value t ht => ?_
  rw [Node.literals_append]
  exact hs.append ht

theorem Keeps.look {next : State → Parser β}
    (h : ∀ o : State, o.Honest → RunsTo nested o o (next o) result) :
    Keeps nested (Grammar.state >>= next) result :=
  fun s hs => h s hs s rfl

theorem Opens.look {next : State → Parser β} (h : ∀ s, Opens nested (next s) result) :
    Opens nested (Grammar.state >>= next) result :=
  fun s hs hplain => h s s hs hplain

theorem Continues.look {next : State → Parser β}
    (h : ∀ s, o.Carries (literals nodes) s → RunsTo nested o s (next s) result) :
    Continues nested o nodes (Grammar.state >>= next) result :=
  Ensures.look h

theorem Keeps.done {value : α} (h : read value = []) : Keeps nested (pure value) read := by
  intro s hs
  rw [Parser.run_pure, h]
  exact State.Carries.nil hs

theorem Continues.done {value : α} (h : read value = nodes) :
    Continues nested o nodes (pure value) read :=
  Ensures.done fun _ hs => h ▸ hs

theorem Keeps.ite {condition : Prop} [Decidable condition] {yes no : Parser α}
    (hyes : Keeps nested yes read) (hno : Keeps nested no read) :
    Keeps nested (if condition then yes else no) read := by
  split_ifs
  · exact hyes
  · exact hno

theorem Continues.node (hparser : Keeps nested parser read)
    (hnext : ∀ value, Continues nested o (nodes ++ read value) (next value) result) :
    Continues nested o nodes (parser >>= next) result :=
  Ensures.bind (hparser.continues o nodes) hnext

/-- What reads no node takes no literal. -/
theorem Keeps.ensures (h : Keeps nested parser fun _ => []) (o : State) (nodes : List Node) :
    Ensures nested (o.Carries (literals nodes)) parser fun _ => o.Carries (literals nodes) :=
  fun s hs => hs.pass (h s hs.honest)

theorem Continues.skip (hparser : Keeps nested parser fun _ => [])
    (hnext : ∀ value, Continues nested o nodes (next value) result) :
    Continues nested o nodes (parser >>= next) result :=
  Ensures.bind (hparser.ensures o nodes) hnext

theorem Keeps.skip (hparser : Keeps nested parser fun _ => [])
    (hnext : ∀ value, Keeps nested (next value) result) :
    Keeps nested (parser >>= next) result :=
  Continues.keeps fun o => Continues.skip hparser fun value => (hnext value).continues o []

/-- Where a node begins does not matter to its literals. -/
theorem Keeps.mark {next : Mark → Parser β} (hnext : ∀ m, Keeps nested (next m) result) :
    Keeps nested (Grammar.mark >>= next) result :=
  fun s hs => hnext s.mark s hs

theorem Keeps.mark_continues {next : Mark → Parser β}
    (hnext : ∀ m o, Continues nested o [] (next m) result) :
    Keeps nested (Grammar.mark >>= next) result :=
  Keeps.mark fun m => Continues.keeps fun o => hnext m o

/-- Takes a token that is no literal. -/
theorem Continues.take {next : Token → Parser β} (hs : o.Carries (literals nodes) s)
    (hplain : s.IsPlain) (hnext : ∀ token, Continues nested o nodes (next token) result) :
    RunsTo nested o s (Grammar.advance >>= next) result := by
  refine Ensures.bind (Q := fun _ => o.Carries (literals nodes)) ?_ hnext
  rintro t rfl
  exact hs.pass (State.Carries.advance_of_isPlain hs.honest hplain)

theorem Opens.take {next : Token → Parser β} (hnext : ∀ token, Keeps nested (next token) result) :
    Opens nested (Grammar.advance >>= next) result :=
  fun s hs hplain => Continues.take (State.Carries.nil hs) hplain
    (fun token => (hnext token).continues s []) s rfl

theorem Opens.mark_take {next : Mark → Token → Parser β}
    (hnext : ∀ m token o, Continues nested o [] (next m token) result) :
    Opens nested (Grammar.mark >>= fun m => Grammar.advance >>= next m) result :=
  fun s hs hplain => Continues.take (State.Carries.nil hs) hplain
    (fun token => hnext s.mark token s) s rfl

/-- A node begins here, and its first token is no literal. -/
theorem RunsTo.mark_take {next : Mark → Token → Parser β} (hs : s.Honest) (hplain : s.IsPlain)
    (hnext : ∀ m token o, Continues nested o [] (next m token) result) :
    RunsTo nested s s (Grammar.mark >>= fun m => Grammar.advance >>= next m) result :=
  (Opens.mark_take hnext).at_state hs hplain

theorem Continues.close {m : Mark} {children : List Node} (h : children = nodes)
    {kind : Node.Kind} {payload : Payload} (hkind : kind.isVerbatim = false) :
    Continues nested o nodes (Grammar.close m kind payload children) ([·]) := by
  subst h
  intro s hs
  have hliterals : literals [s.close m kind payload children] = literals children :=
    Node.literals_of_not_isVerbatim hkind
  exact hliterals.symm ▸ hs

/-- To make a node takes no token. -/
theorem keeps_close_apart {m : Mark} {kind : Node.Kind} {payload : Payload}
    {children : List Node} : Keeps nested (Grammar.close m kind payload children) fun _ => [] :=
  fun _ hs => State.Carries.nil hs

theorem keeps_placeholder {kind : Node.Kind} (hkind : kind.isVerbatim = false) :
    Keeps nested (Grammar.placeholder kind) ([·]) := by
  intro s hs
  have hliterals : literals [s.placeholder kind] = [] := Node.literals_of_not_isVerbatim hkind
  exact hliterals.symm ▸ State.Carries.nil hs

theorem keeps_missing : Keeps nested Grammar.missing ([·]) :=
  keeps_placeholder rfl

theorem keeps_state : Keeps nested Grammar.state fun _ => [] :=
  fun _ hs => State.Carries.nil hs

theorem keeps_mark : Keeps nested Grammar.mark fun _ => [] :=
  fun _ hs => State.Carries.nil hs

theorem keeps_report (problem : Problem) : Keeps nested (Grammar.report problem) fun _ => [] :=
  fun s hs => State.Carries.of_literals_eq (State.isTrail_passes.report problem s hs) rfl

theorem keeps_reportExpected (wanted : Wanted) :
    Keeps nested (reportExpected wanted) fun _ => [] :=
  Keeps.skip keeps_state fun _ => keeps_report _

theorem keeps_resume : Keeps nested Grammar.resume fun _ => [] :=
  fun s hs => State.Carries.of_literals_eq (State.isTrail_passes.resume s hs) rfl

theorem Keeps.single {item : Parser Node} (h : Keeps nested item ([·])) :
    Keeps nested (Grammar.single item) id :=
  Continues.keeps fun _ => Continues.node h fun _ => Continues.done rfl

theorem Keeps.optionally {items : Parser (List Node)} (h : Keeps nested items id)
    (condition : Bool) : Keeps nested (Grammar.optionally condition items) id :=
  Keeps.ite h (Keeps.done rfl)

/-- Literals are kept, and there is something to blame for those that are not. -/
def Excused (o : State) (nodes : List Node) (s : State) : Prop :=
  o.Carries (literals nodes) s ∧ s.Blamed

theorem ensures_report (problem : Problem) :
    Ensures nested (o.Carries (literals nodes)) (Grammar.report problem)
      fun _ => Excused o nodes :=
  fun s hs => ⟨hs.pass (keeps_report problem s hs.honest), hs.honest.blamed_report problem⟩

theorem ensures_reportExpected (wanted : Wanted) :
    Ensures nested (o.Carries (literals nodes)) (reportExpected wanted) fun _ => Excused o nodes :=
  Ensures.bind (keeps_state.ensures o nodes) fun _ => ensures_report _

section Sound

variable (hsound : Sound nested)
include hsound

theorem passes_run (parser : Parser α) (hs : s.Honest) : s.Passes (parser.run nested s).2 :=
  State.isTrail_passes.run (fun goal s h => (hsound goal s h).passes) parser s hs

/-- With something to blame a parser may take what it likes. -/
theorem ensures_excused (parser : Parser α) :
    Ensures nested (Excused o nodes) parser fun _ => Excused o nodes := by
  intro s hs
  have hpasses := passes_run hsound parser hs.1.honest
  have hblamed := hpasses.upholds.blamed hs.2
  exact ⟨hs.1.pass (State.Carries.of_blamed hpasses hblamed), hblamed⟩

end Sound

end Rules

end Conservation

end QoreSyntax.Grammar
