import QoreSyntax.Proofs.Grammar.Reading
import QoreSyntax.Proofs.Token.Legible

namespace QoreSyntax

open Token (Kind)

/-- An item of a sequence may begin with the token: it neither ends the sequence nor goes on with
the item before. -/
def Token.Kind.beginsItem : Kind → Bool
  | .symbol .rBrace | .keyword .case | .keyword .default | .keyword .else | .eof => false
  | _ => true

namespace Grammar.Parser

variable {α : Type} {nested : Goal → State → Node × State} {depth : Nat}

/-- The parser takes tokens of the given kinds, wherever a token that `follows` allows stands behind
them. -/
def ReadsUpTo (nested : Goal → State → Node × State) (depth : Nat) (kinds : List Kind)
    (follows : Kind → Prop) (parser : Parser α) (p : α → Prop) : Prop :=
  ∀ rest, follows (rest.headD .eof) → Reads nested depth (kinds ++ rest) parser p rest

namespace Reads

section Part

variable {before middle after : List Kind} {item : Parser Node} {shape : Node.Shape}

theorem single (h : Reads nested depth before item (fun node => node.shape = shape) after) :
    Reads nested depth before (single item) (fun nodes => Node.shapes nodes = [shape]) after := by
  refine bind h fun node hnode => done ?_
  rw [Node.shapes, Node.shapes, hnode]

theorem optionally_false {parser : Parser (List Node)} :
    Reads nested depth before (optionally false parser) (fun nodes => Node.shapes nodes = [])
      before :=
  done rfl

/-- A token that has been met is taken, and what it announces is read. -/
theorem optionally_eat {mark : Symbol} {parser : Parser (List Node)} {p : List Node → Prop}
    (h : Reads nested depth middle parser p after) :
    Reads nested depth (.symbol mark :: middle)
      (Grammar.eat mark >>= fun eaten => optionally eaten parser) p after := by
  refine bind (eat mark) ?_
  rintro _ rfl
  exact h

theorem optionally_eat_miss {mark : Symbol} {parser : Parser (List Node)}
    (h : before.headD .eof ≠ .symbol mark) :
    Reads nested depth before (Grammar.eat mark >>= fun eaten => optionally eaten parser)
      (fun nodes => Node.shapes nodes = []) before := by
  refine bind (eat_miss h) ?_
  rintro _ rfl
  exact optionally_false

end Part

section Items

variable {ι : Type} {kinds : ι → List Kind} {shape : ι → Node.Shape} {follows : Kind → Prop}
  {rest : List Kind} {items : List ι}

/-- A token that may follow an item stands before what is left of a sequence. -/
theorem follows_flatten (hbegins : ∀ x ∈ items, ∀ behind, follows ((kinds x ++ behind).headD .eof))
    (hrest : follows (rest.headD .eof)) :
    follows (((items.map kinds).flatten ++ rest).headD .eof) := by
  cases items with
  | nil => exact hrest
  | cons x items =>
      rw [List.map_cons, List.flatten_cons, List.append_assoc]
      exact hbegins x List.mem_cons_self _

/-- A repetition each step of which reads an item reads all of them. -/
theorem loop_items {step : List Node → Parser (Step (List Node))} (hstep : Shrinks nested step)
    (honly : OnlyTakes nested)
    (hagain : ∀ x ∈ items, ∀ nodes, ReadsUpTo nested depth (kinds x) follows (step nodes)
      fun result => ∃ next, result = .again next ∧ ∃ node : Node, node.shape = shape x ∧
        next = node :: nodes)
    (hdone : ∀ nodes, Reads nested depth rest (step nodes)
      (fun result => ∃ last, result = .done last ∧ last = nodes) rest)
    (hbegins : ∀ x ∈ items, ∀ behind, follows ((kinds x ++ behind).headD .eof))
    (hrest : follows (rest.headD .eof)) (nodes : List Node) :
    Reads nested depth ((items.map kinds).flatten ++ rest) (loop step nodes)
      (fun all => Node.shapes all.reverse = Node.shapes nodes.reverse ++ items.map shape) rest := by
  induction items generalizing nodes with
  | nil =>
      refine (loop_done hstep honly (hdone nodes)).weaken ?_
      rintro _ rfl
      rw [List.map_nil, List.append_nil]
  | cons x items ih =>
      obtain ⟨hagain, hagains⟩ := List.forall_mem_cons.mp hagain
      obtain ⟨hbegin, hbegins⟩ := List.forall_mem_cons.mp hbegins
      have hnext := hagain nodes _ (follows_flatten hbegins hrest)
      rw [List.map_cons, List.flatten_cons, List.append_assoc]
      refine loop_again hstep honly hnext ?_
      rintro _ ⟨node, hnode, rfl⟩
      refine (ih hagains hbegins (node :: nodes)).weaken fun all hall => ?_
      rw [hall, List.reverse_cons, Node.shapes_append, Node.shapes, Node.shapes, hnode,
        List.append_assoc, List.map_cons, List.singleton_append]

/-- Items behind those that have been read, where no item begins with what stops the list. -/
theorem separatedLoop {stop : State → Bool} {item : Parser Node} (honly : OnlyTakes nested)
    (hitems : ∀ x ∈ items, ReadsUpTo nested depth (kinds x) follows item
      fun node => node.shape = shape x)
    (hopen : ∀ x ∈ items, ∀ behind, ∀ o : State, o.Clear (kinds x ++ behind) depth → stop o = false)
    (hne : items ≠ []) (hcomma : follows (.symbol .comma)) (hrest : follows (rest.headD .eof))
    (hlast : rest.headD .eof ≠ .symbol .comma) (nodes : List Node) :
    Reads nested depth (Token.commas (items.map kinds) ++ rest)
      (loop (separatedStep stop item) nodes)
      (fun all => Node.shapes all.reverse = Node.shapes nodes.reverse ++ items.map shape) rest := by
  have hstep := shrinks_separatedStep honly stop item
  induction items generalizing nodes with
  | nil => exact absurd rfl hne
  | cons x items ih =>
      obtain ⟨hitem, hitems⟩ := List.forall_mem_cons.mp hitems
      obtain ⟨hfirst, hothers⟩ := List.forall_mem_cons.mp hopen
      cases items with
      | nil =>
          rw [List.map_singleton, Token.commas_singleton]
          refine loop_done hstep honly ?_
          refine (separatedStep_last (hfirst rest) (hitem rest hrest) hlast).weaken ?_
          rintro _ ⟨_, rfl, node, hnode, rfl⟩
          refine ⟨_, rfl, ?_⟩
          rw [List.reverse_cons, Node.shapes_append, Node.shapes, Node.shapes, hnode]
          rfl
      | cons y items =>
          rw [List.map_cons, List.map_cons, Token.commas_cons_cons, List.append_assoc]
          refine loop_again hstep honly (separatedStep_again (hfirst _) (hitem _ hcomma)) ?_
          rintro _ ⟨node, hnode, rfl⟩
          have hmore := ih hitems hothers (List.cons_ne_nil y items) (node :: nodes)
          refine hmore.weaken fun all hall => ?_
          rw [hall, List.reverse_cons, Node.shapes_append, Node.shapes, Node.shapes, hnode,
            List.append_assoc]
          rfl

/-- The items of a list that is not empty. -/
theorem commaList {item : Parser Node} (honly : OnlyTakes nested)
    (hitems : ∀ x ∈ items, ReadsUpTo nested depth (kinds x) follows item
      fun node => node.shape = shape x)
    (hne : items ≠ []) (hcomma : follows (.symbol .comma)) (hrest : follows (rest.headD .eof))
    (hlast : rest.headD .eof ≠ .symbol .comma) :
    Reads nested depth (Token.commas (items.map kinds) ++ rest) (commaList item)
      (fun nodes => Node.shapes nodes = items.map shape) rest := by
  have hloop := separatedLoop honly hitems (fun _ _ _ _ _ => rfl) hne hcomma hrest hlast []
  exact bind hloop fun all hall => done hall

/-- The arguments of a call, which there may be none of. -/
theorem arguments (honly : OnlyTakes nested)
    (hitems : ∀ x ∈ items, ReadsUpTo nested depth (kinds x) follows expression
      fun node => node.shape = shape x)
    (hbegins : ∀ x ∈ items, ∀ behind, (kinds x ++ behind).headD .eof ≠ .symbol .rParen ∧
      (kinds x ++ behind).headD .eof ≠ .eof)
    (hcomma : follows (.symbol .comma)) (hclosing : follows (.symbol .rParen)) :
    Reads nested depth
      (.symbol .lParen :: (Token.commas (items.map kinds) ++ .symbol .rParen :: rest)) arguments
      (fun node => node.shape = ⟨.argList, .none, items.map shape⟩) rest := by
  have hloop : Reads nested depth (Token.commas (items.map kinds) ++ .symbol .rParen :: rest)
      (loop (separatedStep (fun s => s.isAt .rParen || s.isAtEnd) expression) [])
      (fun all => Node.shapes all.reverse = items.map shape) (.symbol .rParen :: rest) := by
    by_cases hne : items = []
    · subst hne
      refine loop_done (shrinks_separatedStep honly _ _) honly ?_
      refine (separatedStep_stop fun o ho => ?_).weaken ?_
      · rw [ho.isAt_eq]
        rfl
      · rintro _ ⟨_, rfl, rfl⟩
        exact ⟨_, rfl, rfl⟩
    · have hrest : follows ((Kind.symbol .rParen :: rest).headD .eof) := hclosing
      refine separatedLoop honly hitems ?_ hne hcomma hrest (ne_of_beq_false rfl) []
      intro x hx behind o ho
      obtain ⟨hparen, heof⟩ := hbegins x hx behind
      rw [ho.isAt_eq, beq_eq_false_iff_ne.mpr hparen, ho.isAtEnd_eq_false heof, Bool.or_self]
  refine bind mark fun m _ => bind (expect .lParen) ?_
  rintro _ rfl
  rw [if_pos rfl]
  refine bind (p := fun nodes => Node.shapes nodes = items.map shape)
    (bind hloop fun all hall => done hall) fun nodes hnodes => ?_
  refine bind (expectClosing .rParen) fun _ _ => closes ?_
  rw [hnodes]

end Items

section Sequence

variable {before after : List Kind} {item : Parser Node} {p : Node → Prop}

/-- If not all tokens are left, some have been taken. -/
theorem ensures_consumed {parser : Parser α} {q : α → Prop} (honly : OnlyTakes nested)
    (h : Reads nested depth before parser q after) (hne : after ≠ before) {o : State}
    (ho : o.Clear before depth) :
    Ensures nested (fun s => s = o) parser fun value s =>
      q value ∧ s.Clear after depth ∧ o.consumed < s.consumed := by
  rintro s rfl
  obtain ⟨hvalue, hclear⟩ := h s ho
  have hreaches := State.isTrail_reaches.run honly parser s
  refine ⟨hvalue, hclear, Nat.lt_of_le_of_ne hreaches.consumed_le fun hsame => hne ?_⟩
  rw [← hclear.kinds_eq, hreaches.pending_eq hsame.symm, ho.kinds_eq]

/-- Without a mistake there is nothing to be settled. -/
theorem ensures_settle {s : State} (hrecovering : s.recovering = false) :
    Ensures nested (fun t => t = s) settle fun _ t => t = s := by
  refine Ensures.look_at ?_
  rw [hrecovering, if_neg Bool.false_ne_true]
  exact Ensures.done fun _ ht => ht

/-- Where there has been progress nothing is passed over. -/
theorem ensures_progress {o s : State} (hconsumed : o.consumed < s.consumed) :
    Ensures nested (fun t => t = s) (ensureProgress o) fun _ t => t = s := by
  refine Ensures.look_at ?_
  have hother : (s.consumed == o.consumed) = false :=
    beq_eq_false_iff_ne.mpr (Nat.ne_of_gt hconsumed)
  dsimp only
  rw [hother, if_neg Bool.false_ne_true]
  exact Ensures.done fun _ ht => ht

/-- Before an item of a sequence the sequence goes on. -/
theorem goes_on {o : State} (ho : o.Clear before depth)
    (hbegins : (before.headD .eof).beginsItem = true) (terminator : Terminator) :
    terminator.holds o = false ∧ o.isAt .rBrace = false := by
  have hother : ∀ kind : Kind, kind.beginsItem = false → (before.headD .eof == kind) = false := by
    intro kind hkind
    exact beq_eq_false_iff_ne.mpr (Token.ne_of_holds hbegins hkind)
  have hbrace : o.isAt .rBrace = false := (ho.isAt_eq _).trans (hother _ rfl)
  refine ⟨?_, hbrace⟩
  have hend : o.isAtEnd = false := ho.isAtEnd_eq_false (Token.ne_of_holds hbegins rfl)
  rw [Terminator.holds.eq_def, hend, Bool.false_or]
  cases terminator with
  | endOfInput => rfl
  | brace => exact hbrace
  | caseArm =>
      dsimp only
      rw [hbrace, ho.isAtKeyword_eq, ho.isAtKeyword_eq, hother _ rfl, hother _ rfl]
      rfl

theorem sequenceStep_again {terminator : Terminator} (honly : OnlyTakes nested)
    (hbegins : (before.headD .eof).beginsItem = true)
    (hitem : Reads nested depth before item p after) (hne : after ≠ before) (nodes : List Node) :
    Reads nested depth before (sequenceStep terminator item nodes)
      (fun result => ∃ next, result = .again next ∧ ∃ node, p node ∧ next = node :: nodes)
      after := by
  refine Ensures.look fun o ho => ?_
  obtain ⟨hopen, hbrace⟩ := goes_on ho hbegins terminator
  rw [hopen, if_neg Bool.false_ne_true, hbrace, if_neg Bool.false_ne_true]
  refine Ensures.bind (ensures_consumed honly hitem hne ho) fun node => ?_
  refine Ensures.look fun s hs => ?_
  obtain ⟨hnode, hclear, hconsumed⟩ := hs
  refine Ensures.bind (ensures_settle hclear.recovering_eq) fun _ => ?_
  refine Ensures.bind (ensures_progress hconsumed) fun _ => Ensures.done ?_
  rintro t rfl
  rw [if_pos hconsumed]
  exact ⟨⟨_, rfl, node, hnode, rfl⟩, hclear⟩

theorem sequenceStep_done {terminator : Terminator}
    (hstop : ∀ o : State, o.Clear before depth → terminator.holds o = true) (nodes : List Node) :
    Reads nested depth before (sequenceStep terminator item nodes)
      (fun result => ∃ last, result = .done last ∧ last = nodes) before := by
  refine look fun o ho => ?_
  rw [hstop o ho, if_pos rfl]
  exact done ⟨nodes, rfl, rfl⟩

variable {ι : Type} {kinds : ι → List Kind} {shape : ι → Node.Shape} {follows : Kind → Prop}
  {rest : List Kind} {items : List ι}

/-- A sequence is read up to where it ends. -/
theorem sequence {terminator : Terminator} (honly : OnlyTakes nested)
    (hitems : ∀ x ∈ items, ReadsUpTo nested depth (kinds x) follows item
      fun node => node.shape = shape x)
    (hbegins : ∀ x ∈ items, ∀ behind, follows ((kinds x ++ behind).headD .eof) ∧
      ((kinds x ++ behind).headD .eof).beginsItem = true)
    (hrest : follows (rest.headD .eof))
    (hstop : ∀ o : State, o.Clear rest depth → terminator.holds o = true) :
    Reads nested depth ((items.map kinds).flatten ++ rest) (sequence terminator item)
      (fun nodes => Node.shapes nodes = items.map shape) rest := by
  have hagain : ∀ x ∈ items, ∀ nodes, ReadsUpTo nested depth (kinds x) follows
      (sequenceStep terminator item nodes) fun result => ∃ next, result = .again next ∧
        ∃ node : Node, node.shape = shape x ∧ next = node :: nodes := by
    intro x hx nodes behind hfollows
    have hne : behind ≠ kinds x ++ behind := by
      intro hsame
      have hnil : kinds x = [] := List.append_left_eq_self.mp hsame.symm
      have hempty := (hbegins x hx []).2
      rw [hnil] at hempty
      cases hempty
    exact sequenceStep_again honly (hbegins x hx behind).2 (hitems x hx behind hfollows) hne nodes
  have hloop := loop_items (shrinks_sequenceStep honly terminator item) honly hagain
    (sequenceStep_done hstop) (fun x hx behind => (hbegins x hx behind).1) hrest []
  exact bind hloop fun all hall => done hall

/-- The items of a block, up to the brace that closes it. -/
theorem braced (honly : OnlyTakes nested)
    (hitems : ∀ x ∈ items, ReadsUpTo nested depth (kinds x) follows item
      fun node => node.shape = shape x)
    (hbegins : ∀ x ∈ items, ∀ behind, follows ((kinds x ++ behind).headD .eof) ∧
      ((kinds x ++ behind).headD .eof).beginsItem = true)
    (hbrace : follows (.symbol .rBrace)) :
    Reads nested depth ((items.map kinds).flatten ++ .symbol .rBrace :: rest) (braced item)
      (fun nodes => Node.shapes nodes = items.map shape) rest := by
  refine bind (sequence honly hitems hbegins hbrace fun o ho => ?_) fun nodes hnodes => ?_
  · rw [Terminator.holds.eq_def]
    dsimp only
    rw [ho.isAt_eq, List.headD_cons, beq_self_eq_true, Bool.or_true]
  · exact bind (expect .rBrace) fun _ _ => done hnodes

end Sequence

end Reads

end Grammar.Parser

end QoreSyntax
