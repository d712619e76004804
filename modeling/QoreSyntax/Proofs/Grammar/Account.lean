import QoreSyntax.Proofs.Grammar.Contract

/-!
Keeping account of the nodes that a parser reads. An account says what holds of the nodes that have
been read since some place; what holds of the nodes that are put together holds of the node that is
made of them. An account that is kept by the few ways to make a node is kept by all rules of the
grammar.

A node that stands for a mistake is made only where there is an excuse for it, which is what an
account makes of a report or of a token at fault. A node with a name has one that has been read, or
there is an excuse for it as well.
-/

namespace QoreSyntax

namespace Node.Kind

/-- A node of the kind is given a name that may be in a scope. -/
def bearsName : Kind → Bool
  | .name | .namespace | .class | .superclass | .hashdecl | .constant | .baseConstructorCall => true
  | _ => false

/-- A node of the kind needs no excuse and no name. -/
def isOrdinary (kind : Kind) : Bool :=
  !kind.isRecovery && !kind.bearsName

end Node.Kind

namespace Grammar

/-- A scoped name may begin with the token. -/
def beginsName (kind : Token.Kind) : Bool :=
  isIdentifier kind || kind == .symbol .doubleColon

structure Account where
  /-- The states in which nodes are read. -/
  Ready : State → Prop
  /-- The second state may come after the first one. -/
  Follows : State → State → Prop
  /-- A node may be made that stands for a mistake. -/
  Excuses : State → Prop
  /-- The node has the name that has been read for it. -/
  Names : Node → Prop
  /-- The nodes have been read since the first state and up to the second one. -/
  Holds : State → List Node → State → Prop
  isTrail : IsTrail fun s t => Ready s → Follows s t
  ready {s t : State} : Follows s t → Ready t
  excuses_follows {s t : State} : Excuses s → Follows s t → Excuses t
  excuses_report (problem : Problem) {s : State} : Ready s → Excuses (s.report problem)
  excuses_invalid {s : State} {fault : Fault} : Ready s → s.kind = .invalid fault → Excuses s
  names_scoped {nested : Goal → State → Node × State} {s : State} {node : Node} :
    Ready s → beginsName s.kind = true → node.kind.bearsName = true →
      node.payload = .name (scopedName.run nested s).1 → Names node
  names_conversion {s : State} {word : Keyword} :
    Ready s → s.kind = .keyword word → word.isBuiltinType = true → s.kindAt 1 = .symbol .lParen →
      Names (s.advance.close s.mark .name (.name word.spelling) [])
  nil {o : State} : Ready o → Holds o [] o
  follows {o s : State} {nodes : List Node} : Holds o nodes s → Follows o s
  /-- Text without a node may follow. -/
  extend {o s t : State} {nodes : List Node} : Holds o nodes s → Follows s t → Holds o nodes t
  append {o s t : State} {nodes more : List Node} :
    Holds o nodes s → Holds s more t → Holds o (nodes ++ more) t
  /-- The last nodes may be left out. -/
  of_append {o s : State} {nodes more : List Node} : Holds o (nodes ++ more) s → Holds o nodes s
  /-- A node takes in the nodes that have been read since its mark. -/
  close {o s : State} {nodes : List Node} {kind : Node.Kind} (payload : Payload) :
    Holds o nodes s → (kind.isRecovery = true → kind = .error ∧ Excuses s) →
      (kind.bearsName = true → Names (s.close o.mark kind payload nodes) ∨ Excuses s) →
        Holds o [s.close o.mark kind payload nodes] s
  /-- Where nothing has been taken a node may stand for what is missing. -/
  close_missing {o s : State} (payload : Payload) :
    Holds o [] s → s.consumed = o.consumed → Excuses s →
      Holds o [s.close o.mark .missing payload []] s
  /-- A node without text stands behind the nodes that have been read. -/
  placeholder {o s : State} {nodes : List Node} (kind : Node.Kind) :
    Holds o nodes s → (kind.isRecovery = true → Excuses s) → kind.bearsName = false →
      Holds o (nodes ++ [s.placeholder kind]) s

namespace Account

open Grammar.Parser (Ensures)

variable {A : Account} {α β : Type} {nested : Goal → State → Node × State}

/-- Nodes have been read, and there is an excuse for a mistake. -/
def Excused (A : Account) (o : State) (nodes : List Node) (s : State) : Prop :=
  A.Holds o nodes s ∧ A.Excuses s

/-- The account is kept of each construct that is called for. -/
def Sound (A : Account) (nested : Goal → State → Node × State) : Prop :=
  ∀ goal s, A.Ready s → A.Holds s [(nested goal s).1] (nested goal s).2

/-- The account is kept of the nodes that the parser reads. -/
def Lays (A : Account) (nested : Goal → State → Node × State) (parser : Parser α)
    (nodes : α → List Node) : Prop :=
  ∀ s, A.Ready s → A.Holds s (nodes (parser.run nested s).1) (parser.run nested s).2

/-- With `nodes` read since the state `o`, the parser gets to `result`. -/
def Continues (A : Account) (nested : Goal → State → Node × State) (o : State) (nodes : List Node)
    (parser : Parser α) (result : α → List Node) : Prop :=
  Parser.Ensures nested (A.Holds o nodes) parser fun value => A.Holds o (result value)

section Rules

variable {o : State} {nodes : List Node} {parser : Parser α} {next : α → Parser β}
  {read : α → List Node} {result : β → List Node}

theorem holds_ready {s : State} (h : A.Holds o nodes s) : A.Ready s :=
  A.ready (A.follows h)

theorem Continues.lays (h : ∀ o, A.Continues nested o [] parser read) : A.Lays nested parser read :=
  fun s hs => h s s (A.nil hs)

theorem Lays.continues (h : A.Lays nested parser read) (o : State) (nodes : List Node) :
    A.Continues nested o nodes parser fun value => nodes ++ read value :=
  fun s hs => A.append hs (h s (holds_ready hs))

theorem Lays.at_state (h : A.Lays nested parser read) (ho : A.Ready o) :
    Ensures nested (fun s => s = o) parser fun value => A.Holds o (read value) := by
  rintro s rfl
  exact h s ho

theorem Lays.look {next : State → Parser β}
    (h : ∀ o, A.Ready o →
      Ensures nested (fun s => s = o) (next o) fun value => A.Holds o (result value)) :
    A.Lays nested (Grammar.state >>= next) result :=
  fun s hs => h s hs s rfl

theorem Lays.done {value : α} (h : read value = []) : A.Lays nested (pure value) read := by
  intro s hs
  rw [Parser.run_pure, h]
  exact A.nil hs

theorem Continues.done {value : α} (h : read value = nodes) :
    A.Continues nested o nodes (pure value) read :=
  Ensures.done fun _ hs => h ▸ hs

theorem follows_run (hsound : A.Sound nested) (parser : Parser α) {s : State} (hs : A.Ready s) :
    A.Follows s (parser.run nested s).2 := by
  have hnested : ∀ goal (s : State), A.Ready s → A.Follows s (nested goal s).2 :=
    fun goal s h => A.follows (hsound goal s h)
  exact A.isTrail.run hnested parser s hs

/-- What a parser does besides reading nodes is of no account. -/
theorem continues_silent (hsound : A.Sound nested) (o : State) (nodes : List Node)
    (parser : Parser α) : A.Continues nested o nodes parser fun _ => nodes :=
  fun _ hs => A.extend hs (follows_run hsound parser (holds_ready hs))

theorem Continues.skip (hsound : A.Sound nested)
    (hnext : ∀ value, A.Continues nested o nodes (next value) result) :
    A.Continues nested o nodes (parser >>= next) result :=
  Ensures.bind (continues_silent hsound o nodes parser) hnext

theorem Continues.node (hparser : A.Lays nested parser read)
    (hnext : ∀ value, A.Continues nested o (nodes ++ read value) (next value) result) :
    A.Continues nested o nodes (parser >>= next) result :=
  Ensures.bind (hparser.continues o nodes) hnext

theorem Lays.skip (hsound : A.Sound nested) (hnext : ∀ value, A.Lays nested (next value) result) :
    A.Lays nested (parser >>= next) result :=
  Continues.lays fun o => Continues.skip hsound fun value => (hnext value).continues o []

theorem Lays.ite {condition : Prop} [Decidable condition] {yes no : Parser α}
    (hyes : A.Lays nested yes read) (hno : A.Lays nested no read) :
    A.Lays nested (if condition then yes else no) read := by
  split_ifs
  · exact hyes
  · exact hno

/-- At a mark a node begins, and nothing has been taken for it. -/
theorem Lays.mark_at {next : Mark → Parser β}
    (hnext : ∀ o : State, A.Ready o →
      Ensures nested (fun s => s = o) (next o.mark) fun value => A.Holds o (result value)) :
    A.Lays nested (Grammar.mark >>= next) result :=
  fun s hs => hnext s hs s rfl

theorem Lays.mark {next : Mark → Parser β}
    (hnext : ∀ o : State, A.Continues nested o [] (next o.mark) result) :
    A.Lays nested (Grammar.mark >>= next) result :=
  Lays.mark_at fun o ho => (hnext o).at_state (A.nil ho)

/-- A mark among the nodes that are read for another one. -/
theorem Continues.mark {next : Mark → Parser β}
    (hnext : ∀ inner : State, A.Holds o nodes inner →
      Ensures nested (A.Holds inner []) (next inner.mark) fun value => A.Holds o (result value)) :
    A.Continues nested o nodes (Grammar.mark >>= next) result :=
  fun s hs => hnext s hs s (A.nil (holds_ready hs))

theorem kinds_of_isOrdinary {kind : Node.Kind} (h : kind.isOrdinary = true) :
    kind.isRecovery = false ∧ kind.bearsName = false := by
  simpa [Node.Kind.isOrdinary] using h

theorem Continues.close {m : Mark} {children : List Node} (hm : m = o.mark)
    (h : children = nodes) {kind : Node.Kind} {payload : Payload}
    (hkind : kind.isOrdinary = true) :
    A.Continues nested o nodes (Grammar.close m kind payload children) ([·]) := by
  subst hm h
  obtain ⟨hrecovery, hname⟩ := kinds_of_isOrdinary hkind
  intro s hs
  apply A.close payload hs
  · intro htrue
    exact Bool.noConfusion (hrecovery.symm.trans htrue)
  · intro htrue
    exact Bool.noConfusion (hname.symm.trans htrue)

theorem lays_placeholder (kind : Node.Kind) (hkind : kind.isOrdinary = true) :
    A.Lays nested (Grammar.placeholder kind) ([·]) := by
  obtain ⟨hrecovery, hname⟩ := kinds_of_isOrdinary hkind
  intro s hs
  refine A.placeholder kind (A.nil hs) ?_ hname
  intro htrue
  exact Bool.noConfusion (hrecovery.symm.trans htrue)

theorem lays_call (hsound : A.Sound nested) (goal : Goal) :
    A.Lays nested (.call goal .done) ([·]) :=
  hsound goal

theorem Lays.single {parser : Parser Node} (h : A.Lays nested parser ([·])) :
    A.Lays nested (Grammar.single parser) id :=
  Continues.lays fun _ => Continues.node h fun _ => Continues.done rfl

theorem Lays.optionally {parser : Parser (List Node)} (h : A.Lays nested parser id)
    (condition : Bool) : A.Lays nested (Grammar.optionally condition parser) id :=
  Lays.ite h (Lays.done rfl)

theorem excused_report {s : State} (h : A.Holds o nodes s) (problem : Problem) :
    A.Excused o nodes (s.report problem) :=
  ⟨A.extend h (A.isTrail.report problem s (holds_ready h)),
    A.excuses_report problem (holds_ready h)⟩

theorem Continues.report {wanted : Wanted} {next : Unit → Parser β}
    (hnext : Ensures nested (A.Excused o nodes) (next ()) fun value => A.Holds o (result value)) :
    A.Continues nested o nodes (reportExpected wanted >>= next) result :=
  fun _ hs => hnext _ (excused_report hs _)

theorem Continues.expect (hsound : A.Sound nested) {symbol : Symbol} {next : Bool → Parser β}
    (hyes : A.Continues nested o nodes (next true) result)
    (hno : Ensures nested (A.Excused o nodes) (next false) fun value => A.Holds o (result value)) :
    A.Continues nested o nodes (Grammar.expect symbol >>= next) result := by
  have hexpect : Ensures nested (A.Holds o nodes) (Grammar.expect symbol) fun found s =>
      A.Holds o nodes s ∧ (found = false → A.Excuses s) := by
    refine Ensures.bind (continues_silent hsound o nodes _) fun eaten => ?_
    refine Ensures.ite (fun _ => ?_) (fun _ => ?_)
    · refine Ensures.ite (fun _ => ?_) (fun _ => Ensures.done fun _ hs => ⟨hs, nofun⟩)
      refine Ensures.bind (continues_silent hsound o nodes _) fun _ => ?_
      exact Ensures.done fun _ hs => ⟨hs, nofun⟩
    · exact fun s hs => ⟨(excused_report hs _).1, fun _ => (excused_report hs _).2⟩
  refine Ensures.bind hexpect fun found => ?_
  cases found with
  | true => exact hyes.strengthen fun _ hs => hs.1
  | false => exact hno.strengthen fun _ hs => ⟨hs.1, hs.2 rfl⟩

/-- With an excuse what is missing is stood for by a node. -/
theorem excused_missing :
    Ensures nested (A.Excused o nodes) missing fun node => A.Holds o (nodes ++ [node]) :=
  fun _ hs => A.placeholder .missing hs.1 (fun _ => hs.2) rfl

/-- With an excuse what cannot be read is stood for by a node. -/
theorem excused_error {m : Mark} (hm : m = o.mark) (payload : Payload) :
    Ensures nested (A.Excused o nodes) (Grammar.close m .error payload nodes)
      fun node => A.Holds o [node] := by
  subst hm
  exact fun _ hs => A.close payload hs.1 (fun _ => ⟨rfl, hs.2⟩) nofun

/-- The name has been read for nodes of its kind, or there is an excuse for it. -/
def Bears (A : Account) (kind : Node.Kind) (name : Option String) (s : State) : Prop :=
  (∀ node : Node, node.kind = kind → node.payload = namePayload name → A.Names node) ∨ A.Excuses s

/-- With `nodes` read since the state `o`, and a name for the node that takes them in, the parser
gets to that node. -/
def ContinuesNamed (A : Account) (nested : Goal → State → Node × State) (o : State)
    (nodes : List Node) (kind : Node.Kind) (name : Option String) (parser : Parser Node) : Prop :=
  Ensures nested (fun s => A.Holds o nodes s ∧ A.Bears kind name s) parser
    fun node => A.Holds o [node]

section Named

variable {kind : Node.Kind} {name : Option String} {next : α → Parser Node}

theorem Bears.follows {s t : State} (h : A.Bears kind name s) (hst : A.Follows s t) :
    A.Bears kind name t :=
  h.imp_right fun hs => A.excuses_follows hs hst

theorem ContinuesNamed.skip (hsound : A.Sound nested)
    (hnext : ∀ value, A.ContinuesNamed nested o nodes kind name (next value)) :
    A.ContinuesNamed nested o nodes kind name (parser >>= next) := by
  refine Ensures.bind (fun s hs => ?_) hnext
  have hfollows := follows_run hsound parser (holds_ready hs.1)
  exact ⟨A.extend hs.1 hfollows, hs.2.follows hfollows⟩

theorem ContinuesNamed.node (hparser : A.Lays nested parser read)
    (hnext : ∀ value, A.ContinuesNamed nested o (nodes ++ read value) kind name (next value)) :
    A.ContinuesNamed nested o nodes kind name (parser >>= next) := by
  refine Ensures.bind (fun s hs => ?_) hnext
  have hread := hparser s (holds_ready hs.1)
  exact ⟨A.append hs.1 hread, hs.2.follows (A.follows hread)⟩

theorem ContinuesNamed.close {m : Mark} {children : List Node} (hm : m = o.mark)
    (h : children = nodes) (hkind : kind.isRecovery = false) :
    A.ContinuesNamed nested o nodes kind name
      (Grammar.close m kind (namePayload name) children) := by
  subst hm h
  rintro s ⟨hs, hname⟩
  apply A.close _ hs
  · intro htrue
    exact Bool.noConfusion (hkind.symm.trans htrue)
  · intro _
    exact hname.imp_left fun h => h _ rfl rfl

/-- A scoped name that is read, or reported to be missing, is one for the node to bear. -/
theorem Continues.scopedName? (hsound : A.Sound nested) (kind : Node.Kind)
    (hkind : kind.bearsName = true) {wanted : Wanted} {next : Option String → Parser Node}
    (hnext : ∀ name, A.ContinuesNamed nested o nodes kind name (next name)) :
    A.Continues nested o nodes (Grammar.scopedName? wanted >>= next) ([·]) := by
  refine Ensures.bind (fun s hs => ?_) hnext
  suffices Ensures nested (fun t => t = s) (Grammar.scopedName? wanted)
      fun name t => A.Holds o nodes t ∧ A.Bears kind name t from this s rfl
  have hread (hbegins : beginsName s.kind = true) :
      Ensures nested (fun t => t = s) (scopedName >>= fun text => pure (some text))
        fun name t => A.Holds o nodes t ∧ A.Bears kind name t := by
    refine Ensures.bind (Q := fun text t => A.Holds o nodes t ∧ A.Bears kind (some text) t) ?_
      fun text => Ensures.done fun t ht => ht
    rintro t rfl
    refine ⟨continues_silent hsound o nodes scopedName t hs, Or.inl fun node hnode hpayload => ?_⟩
    exact A.names_scoped (holds_ready hs) hbegins (hnode ▸ hkind) hpayload
  refine Ensures.look_at ?_
  split
  · exact hread (by simp [beginsName, isIdentifier, *])
  · exact hread (by simp [beginsName, *])
  · rintro t rfl
    exact (excused_report hs _).imp_right Or.inr

end Named

end Rules

section Lists

variable {item : Parser Node}

theorem Continues.separatedStep (hsound : A.Sound nested) (hitem : A.Lays nested item ([·]))
    (o : State) (stop : State → Bool) (items : List Node) :
    A.Continues nested o items.reverse (separatedStep stop item items)
      fun step => step.value.reverse := by
  refine Continues.skip hsound fun s => Ensures.ite (fun _ => Continues.done rfl) fun _ => ?_
  refine Continues.node hitem fun node => Continues.skip hsound fun comma => ?_
  refine Ensures.ite (fun _ => Continues.done ?_) (fun _ => Continues.done ?_)
  · exact List.reverse_cons
  · exact List.reverse_cons

theorem Lays.separated (hsound : A.Sound nested) (hitem : A.Lays nested item ([·]))
    (stop : State → Bool) : A.Lays nested (separated stop item) id := by
  refine Continues.lays fun o => Ensures.bind ?_ fun items => Continues.done rfl
  exact Ensures.loop (Continues.separatedStep hsound hitem o stop) []

theorem Lays.commaList (hsound : A.Sound nested) (hitem : A.Lays nested item ([·])) :
    A.Lays nested (commaList item) id :=
  Lays.separated hsound hitem fun _ => false

/-- An item that is left out has taken no text, or its text is passed over. -/
theorem Continues.sequenceStep (hsound : A.Sound nested) (hitem : A.Lays nested item ([·]))
    (o : State) (terminator : Terminator) (items : List Node) :
    A.Continues nested o items.reverse (sequenceStep terminator item items)
      fun step => step.value.reverse := by
  refine Continues.skip hsound fun before => ?_
  refine Ensures.ite (fun _ => Continues.done rfl) fun _ => Ensures.ite (fun _ => ?_) fun _ => ?_
  · refine Continues.skip hsound fun _ => Continues.skip hsound fun _ => ?_
    exact Continues.skip hsound fun _ => Continues.done rfl
  · refine Continues.node hitem fun node => Continues.skip hsound fun after => ?_
    refine Continues.skip hsound fun _ => Continues.skip hsound fun _ => ?_
    split_ifs
    · exact Continues.done List.reverse_cons
    · exact Ensures.done fun s hs => A.of_append hs

theorem Lays.sequence (hsound : A.Sound nested) (hitem : A.Lays nested item ([·]))
    (terminator : Terminator) : A.Lays nested (sequence terminator item) id := by
  refine Continues.lays fun o => Ensures.bind ?_ fun items => Continues.done rfl
  exact Ensures.loop (Continues.sequenceStep hsound hitem o terminator) []

end Lists

end Account

end Grammar

end QoreSyntax
