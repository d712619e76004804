import QoreSyntax.Proofs.Grammar.Blame
import QoreSyntax.Proofs.Grammar.Leading
import QoreSyntax.Proofs.TypeName.Tree

namespace QoreSyntax

open Grammar
open Grammar.Parser (Ensures)

namespace Token

/-- One of the tokens is a symbol `::` with no identifier behind it. -/
def HasOpenScope (tokens : List Token) : Prop :=
  ∃ front t rest, tokens = front ++ t :: rest ∧ t.kind = .symbol .doubleColon ∧
    rest.head?.any (isIdentifier ·.kind) = false

end Token

/-- The text is a scoped name, or one without a first part from an open scope of the tokens. -/
def IsScopedText (tokens : List Token) (text : String) : Prop :=
  (∃ name : ScopedName, text = name.text) ∨
    (Token.HasOpenScope tokens ∧
      ∃ parts : List Identifier, text = "::".intercalate ("::" :: parts.map (·.text)))

theorem intercalate_concat (base : String) (texts : List String) (last : String) :
    "::".intercalate (base :: (texts ++ [last]))
      = "::".intercalate (base :: texts) ++ "::" ++ last := by
  induction texts generalizing base with
  | nil =>
      rw [List.nil_append, String.intercalate_cons_cons, String.intercalate_singleton,
        String.intercalate_singleton]
  | cons first texts ih =>
      rw [List.cons_append, String.intercalate_cons_cons, String.intercalate_cons_cons, ih]
      simp [String.append_assoc]

namespace Grammar

variable {text : List Char} {options : Options} {nested : Goal → State → Node × State}

namespace State

theorem isEof_final_of_leads {s : State} (h : (start text options).Leads s) :
    s.final.isEof = true :=
  (congrArg Token.isEof h.reaches.final_eq).trans (Token.Stream.isEof_ofText_final _ _)

/-- A token ahead that is no end marker. -/
theorem Leads.exists_getElem? {s : State} (h : (start text options).Leads s) {n : Nat}
    (hkind : s.kindAt n ≠ .eof) : ∃ t, s.pending[n]? = some t ∧ s.kindAt n = t.kind := by
  rw [kindAt] at hkind ⊢
  cases hpending : s.pending[n]? with
  | none =>
      rw [hpending] at hkind
      exact absurd (eq_of_beq (isEof_final_of_leads h)) hkind
  | some t => exact ⟨t, rfl, rfl⟩

theorem Leads.exists_identifierAt {s : State} (h : (start text options).Leads s) {n : Nat}
    {name : String} (hkind : s.kindAt n = .identifier name) : ∃ x : Identifier, name = x.text := by
  obtain ⟨t, ht, hsame⟩ := h.exists_getElem? (n := n) (by rw [hkind]; exact ne_of_beq_false rfl)
  have hgenuine := h.isGenuine t (List.mem_of_getElem? ht)
  rw [← hsame, hkind] at hgenuine
  exact ⟨⟨name, hgenuine.1, hgenuine.2⟩, rfl⟩

/-- The tokens ahead are the last ones of the text if they do not begin with half a symbol. -/
theorem Leads.exists_split {s : State} (h : (start text options).Leads s) {t : Token}
    {rest : List Token} (hpending : s.pending = t :: rest) (ht : t.kind ≠ .symbol .gt) :
    ∃ front, (start text options).pending = front ++ t :: rest := by
  have hleaves := hpending ▸ h.leavesOf
  cases hleaves with
  | @whole passed _ heq => exact ⟨passed, heq⟩
  | half heq => exact absurd rfl ht

theorem Leads.hasOpenScope {s : State} (h : (start text options).Leads s)
    (hcolons : s.kind = .symbol .doubleColon) (hopen : isIdentifier (s.kindAt 1) = false) :
    Token.HasOpenScope (start text options).pending := by
  have hpending : s.pending ≠ [] :=
    pending_ne_nil (isEof_final_of_leads h) (by rw [hcolons]; exact ne_of_beq_false rfl)
  obtain ⟨t, rest, hcons⟩ := List.exists_cons_of_ne_nil hpending
  have ht : t.kind = .symbol .doubleColon := by
    rw [← hcolons, kind, current_of_pending hcons]
  obtain ⟨front, hfront⟩ := h.exists_split hcons (by rw [ht]; exact ne_of_beq_false rfl)
  refine ⟨front, t, rest, hfront, ht, ?_⟩
  rw [kindAt, hcons] at hopen
  cases rest with
  | nil => rfl
  | cons next rest => exact hopen

end State

/-- The scopes behind the beginning of a name are read one by one. -/
theorem ensures_scopes (base : String) :
    Ensures nested (start text options).Leads (loop scopeStep base) fun read _ =>
      ∃ parts : List Identifier, read = "::".intercalate (base :: parts.map (·.text)) := by
  let I (read : String) (s : State) : Prop := (start text options).Leads s ∧
    ∃ parts : List Identifier, read = "::".intercalate (base :: parts.map (·.text))
  have hstep (read : String) : Ensures nested (I read) (scopeStep read) fun r => I r.value := by
    refine Ensures.look fun o ho => ?_
    split
    · rename_i part _ hpart
      obtain ⟨hleads, parts, rfl⟩ := ho
      obtain ⟨x, rfl⟩ := hleads.exists_identifierAt hpart
      rintro s rfl
      refine ⟨hleads.advance.advance, parts ++ [x], ?_⟩
      rw [List.map_append, List.map_singleton, intercalate_concat]
      rfl
    · exact Ensures.done fun s hs => hs ▸ ho
  have hloop := Ensures.loop (I := I) hstep base
  intro s hs
  refine (hloop s ⟨hs, [], ?_⟩).2
  rw [List.map_nil, String.intercalate_singleton]

/-- The first part of a name is read, or nothing is where there is no identifier. -/
theorem ensures_optionalIdentifier {o : State} (ho : (start text options).Leads o) :
    Ensures nested (fun s => s = o) optionalIdentifier fun read s =>
      (start text options).Leads s ∧
        ((∃ x : Identifier, read = x.text) ∨ (read = "" ∧ isIdentifier o.kind = false)) := by
  refine Ensures.look_at ?_
  split
  · rename_i name hkind
    rw [State.kind_eq_kindAt] at hkind
    obtain ⟨x, rfl⟩ := ho.exists_identifierAt hkind
    rintro s rfl
    exact ⟨ho.advance, Or.inl ⟨x, rfl⟩⟩
  · rename_i hkind
    rintro s rfl
    refine ⟨ho, Or.inr ⟨rfl, ?_⟩⟩
    cases hname : s.kind with
    | identifier name => exact absurd hname (hkind name)
    | _ => rfl

theorem ensures_scopedName {o : State} (ho : (start text options).Leads o)
    (hbegins : beginsName o.kind = true) :
    Ensures nested (fun s => s = o) scopedName fun read _ =>
      IsScopedText (start text options).pending read := by
  refine Ensures.bind (Q := fun root s => (start text options).Leads s ∧
    (root = false → isIdentifier s.kind = true) ∧
    (root = true → isIdentifier s.kind = false →
      Token.HasOpenScope (start text options).pending)) ?_ fun root => ?_
  · refine Ensures.look_at (Ensures.ite (fun hat => ?_) (fun hat => ?_))
    · rintro s rfl
      refine ⟨ho.advance, nofun, fun _ hopen => ho.hasOpenScope (eq_of_beq hat) ?_⟩
      rwa [State.kindAt_one]
    · rintro s rfl
      exact ⟨ho, fun _ => (Bool.or_eq_true_iff.mp hbegins).resolve_right hat, nofun⟩
  · rintro s ⟨hs, hidentifier, hopen⟩
    refine Ensures.bind (T := fun read _ => IsScopedText (start text options).pending read)
      (ensures_optionalIdentifier hs) (fun first => ?_) s rfl
    rintro t ⟨ht, hfirst⟩
    obtain ⟨parts, hread⟩ := ensures_scopes ((if root then "::" else "") ++ first) t ht
    rw [hread]
    rcases hfirst with ⟨x, rfl⟩ | ⟨rfl, hnone⟩
    · exact Or.inl ⟨⟨root, x, parts⟩, rfl⟩
    · cases root with
      | false => exact Bool.noConfusion (hnone.symm.trans (hidentifier rfl))
      | true => exact Or.inr ⟨hopen rfl hnone, parts, rfl⟩

/-- The node is the name of a built-in type in the place of a function: its token, behind which the
arguments begin that are to be converted. -/
def IsConversion (tokens : List Token) (node : Node) : Prop :=
  ∃ front t paren rest, tokens = front ++ t :: paren :: rest ∧ paren.kind = .symbol .lParen ∧
    ∃ word : Keyword, t.kind = .keyword word ∧ word.isBuiltinType = true ∧
      node = ⟨.name, t.range, .name word.spelling, []⟩

/-- The node has the name that a node of its kind is to have. -/
def IsNamed (tokens : List Token) (node : Node) : Prop :=
  (∃ read, node.payload = .name read ∧ IsScopedText tokens read) ∨ IsConversion tokens node

theorem isConversion_close {s : State} (hs : (start text options).Leads s) {word : Keyword}
    (hword : s.kind = .keyword word) (hbuiltin : word.isBuiltinType = true)
    (hparen : s.kindAt 1 = .symbol .lParen) :
    IsConversion (start text options).pending
      (s.advance.close s.mark .name (.name word.spelling) []) := by
  have hpending : s.pending ≠ [] :=
    State.pending_ne_nil (State.isEof_final_of_leads hs) (by rw [hword]; exact ne_of_beq_false rfl)
  obtain ⟨t, behind, hcons⟩ := List.exists_cons_of_ne_nil hpending
  obtain ⟨paren, hsecond, hkind⟩ :=
    hs.exists_getElem? (n := 1) (by rw [hparen]; exact ne_of_beq_false rfl)
  obtain ⟨rest, rfl⟩ : ∃ rest, behind = paren :: rest := by
    rw [hcons] at hsecond
    cases behind with
    | nil => cases hsecond
    | cons next rest =>
        obtain rfl := Option.some.inj hsecond
        exact ⟨rest, rfl⟩
  have ht : t.kind = .keyword word := by
    rw [← hword, State.kind, State.current_of_pending hcons]
  obtain ⟨front, hfront⟩ := hs.exists_split hcons (by rw [ht]; exact ne_of_beq_false rfl)
  refine ⟨front, t, paren, rest, hfront, hkind.symm.trans hparen, word, ht, hbuiltin, ?_⟩
  have hmark : s.mark = ⟨t.range.start, s.consumed⟩ := by
    rw [State.mark, State.current_of_pending hcons]
  rw [State.advance_cons hcons, hmark]
  simp [State.close]

/-- A state of the parse in which reports are dropped only if there is one. -/
structure Sincere (text : List Char) (options : Options) (s : State) : Prop where
  honest : s.Honest
  leads : (start text options).Leads s

/-- Each node that bears a name and has been read from the state `o` to the state `s` is named, or
there is something to blame. -/
structure AreNamed (text : List Char) (options : Options) (o : State) (nodes : List Node)
    (s : State) : Prop where
  upholds : o.Upholds s
  leads : (start text options).Leads s
  named : ∀ node ∈ Node.preorders nodes, node.kind.bearsName = true →
    IsNamed (start text options).pending node ∨ s.Blamed

namespace AreNamed

variable {o s t : State} {nodes more : List Node}

theorem nil (h : Sincere text options o) : AreNamed text options o [] o :=
  ⟨State.Upholds.refl h.honest, h.leads, fun _ hmem => absurd hmem List.not_mem_nil⟩

theorem extend (h : AreNamed text options o nodes s) (hst : s.Upholds t)
    (ht : (start text options).Leads t) : AreNamed text options o nodes t :=
  ⟨h.upholds.trans hst, ht, fun node hmem hkind => (h.named node hmem hkind).imp_right hst.blamed⟩

theorem append (h : AreNamed text options o nodes s) (hmore : AreNamed text options s more t) :
    AreNamed text options o (nodes ++ more) t := by
  have hnodes := h.extend hmore.upholds hmore.leads
  refine ⟨hnodes.upholds, hnodes.leads, ?_⟩
  intro node hmem
  rw [Node.preorders_append, List.mem_append] at hmem
  rcases hmem with hmem | hmem
  · exact hnodes.named node hmem
  · exact hmore.named node hmem

theorem of_append (h : AreNamed text options o (nodes ++ more) s) :
    AreNamed text options o nodes s := by
  refine ⟨h.upholds, h.leads, fun node hmem => h.named node ?_⟩
  rw [Node.preorders_append]
  exact List.mem_append_left _ hmem

/-- A node that takes others in has to be named itself. -/
theorem singleton {node : Node} (h : AreNamed text options o node.children s)
    (hnode : node.kind.bearsName = true →
      IsNamed (start text options).pending node ∨ s.Blamed) :
    AreNamed text options o [node] s := by
  refine ⟨h.upholds, h.leads, ?_⟩
  intro below hmem
  rw [Node.preorders_cons, Node.preorders_nil, List.append_nil, Node.preorder_eq] at hmem
  rcases List.mem_cons.mp hmem with rfl | hmem
  · exact hnode
  · exact h.named below hmem

theorem isTrail : IsTrail fun s t => Sincere text options s →
    s.Upholds t ∧ (start text options).Leads t where
  refl _ h := ⟨State.Upholds.refl h.honest, h.leads⟩
  trans hst htu h :=
    have hs := hst h
    have ht := htu ⟨hs.1.honest, hs.2⟩
    ⟨hs.1.trans ht.1, ht.2⟩
  advance _ h := ⟨State.Upholds.advance h.honest, h.leads.advance⟩
  splitShift _ h := ⟨State.Upholds.splitShift h.honest, h.leads.splitShift⟩
  report problem _ h := ⟨State.Upholds.report h.honest problem, h.leads.report problem⟩
  resume s h := ⟨State.isTrail_upholds.resume s h.honest, h.leads.resume⟩
  nest depth s h := ⟨State.isTrail_upholds.nest depth s h.honest, h.leads.nest depth⟩

/-- Nodes bear names on the account of what has been read for them. -/
def account (text : List Char) (options : Options) : Account where
  Ready := Sincere text options
  Follows s t := s.Upholds t ∧ (start text options).Leads t
  Excuses := State.Blamed
  Names := IsNamed (start text options).pending
  Holds := AreNamed text options
  isTrail := isTrail
  ready h := ⟨h.1.honest, h.2⟩
  excuses_follows h hst := hst.1.blamed h
  excuses_report problem _ h := h.honest.blamed_report problem
  excuses_invalid h hkind := Answered.account.excuses_invalid h.honest hkind
  names_scoped h hbegins _ hpayload :=
    Or.inl ⟨_, hpayload, ensures_scopedName h.leads hbegins _ rfl⟩
  names_conversion h hword hbuiltin hparen :=
    Or.inr (isConversion_close h.leads hword hbuiltin hparen)
  nil := nil
  follows h := ⟨h.upholds, h.leads⟩
  extend h hst := h.extend hst.1 hst.2
  append := append
  of_append := of_append
  close _ h _ hname := singleton h hname
  close_missing _ h _ _ := singleton h nofun
  placeholder _ h _ hname := h.append
    (singleton (nil ⟨h.upholds.honest, h.leads⟩) fun hbears =>
      Bool.noConfusion (hname.symm.trans hbears))

end AreNamed

theorem named_of_mem_parse (text : List Char) (options : Options) :
    ∃ s : State, (QoreSyntax.parse text options).2 = s.diagnostics ∧ s.isAtEnd = true ∧
      ∀ node ∈ (QoreSyntax.parse text options).1.walk, node.kind.bearsName = true →
        IsNamed (start text options).pending node ∨ s.Blamed := by
  have hstart : Sincere text options (start text options) :=
    ⟨State.honest_start text options, State.Leads.refl _⟩
  rw [QoreSyntax.parse, script]
  split_ifs with hend
  · exact ⟨_, rfl, hend, fun node hmem => absurd hmem List.not_mem_nil⟩
  · have hnamed := (AreNamed.account text options).holds_statements options.limit hstart
    have hafter := Parser.ensures_sequence_endOfInput (onlyTakes_parse options.limit options.limit)
      statement _ hstart.honest.isEof_final
    refine ⟨_, rfl, hafter, ?_⟩
    intro node hmem hbears
    change node ∈ Node.walk _ at hmem
    rw [Node.walk_eq_preorder, Node.preorder_eq] at hmem
    rcases List.mem_cons.mp hmem with rfl | hmem
    · cases hbears
    · exact hnamed.named node hmem hbears

/-- In the tree of a text without a report each node that bears a name has one of identifiers in
scopes, but for the names of conversions, provided that behind each symbol `::` of the text there is
an identifier. Without that a name may lack its first part. -/
theorem clean_names_are_names (text : List Char) (options : Options)
    (hclean : (QoreSyntax.parse text options).2 = []) :
    let tokens := (Token.Stream.ofText text options.firstLine).tokens
    ∀ node ∈ (QoreSyntax.parse text options).1.walk, node.kind.bearsName = true →
      IsNamed tokens node ∧ (¬Token.HasOpenScope tokens →
        (∃ name : ScopedName, node.payload = .name name.text) ∨ IsConversion tokens node) := by
  intro tokens node hmem hbears
  obtain ⟨s, hdiagnostics, hend, hnamed⟩ := named_of_mem_parse text options
  have hblameless := State.not_blamed_of_isAtEnd hend (hdiagnostics ▸ hclean)
  have hnode : IsNamed tokens node := (hnamed node hmem hbears).resolve_right hblameless
  refine ⟨hnode, fun hclosed => ?_⟩
  rcases hnode with ⟨read, hpayload, ⟨name, rfl⟩ | ⟨hopen, -⟩⟩ | hconversion
  · exact Or.inl ⟨name, hpayload⟩
  · exact absurd hopen hclosed
  · exact Or.inr hconversion

/-- All kinds of nodes that bear names, and a conversion. -/
theorem names_of_declarations_are_names :
    let text := ("namespace a::b \x7b class ::c inherits d \x7b e() : f::g(int(1)) \x7b \x7d \x7d "
      ++ "const h = ::i; hashdecl j \x7b \x7d \x7d").toList
    let tokens := (Token.Stream.ofText text Options.standard.firstLine).tokens
    (QoreSyntax.parse text Options.standard).2 = [] ∧
      ∀ node ∈ (QoreSyntax.parse text Options.standard).1.walk, node.kind.bearsName = true →
        IsNamed tokens node ∧ (¬Token.HasOpenScope tokens →
          (∃ name : ScopedName, node.payload = .name name.text) ∨ IsConversion tokens node) := by
  intro text tokens
  have hclean : (QoreSyntax.parse text Options.standard).2 = [] := by decide +kernel
  exact ⟨hclean, clean_names_are_names text Options.standard hclean⟩

/-- No scoped name is a symbol `::` alone. -/
theorem text_ne_colons (name : ScopedName) : name.text ≠ "::" := by
  obtain ⟨isRooted, first, parts⟩ := name
  obtain ⟨c, hmem, hc⟩ : ∃ c ∈ first.text.toList, Token.beginsName c = true := by
    have hname := first.isName
    cases hchars : first.text.toList with
    | nil =>
        rw [hchars] at hname
        cases hname
    | cons c cs =>
        rw [hchars] at hname
        exact ⟨c, List.mem_cons_self, (Bool.and_eq_true_iff.mp hname).1⟩
  -- the first part stands in the text, and no character of `::` begins a part
  have htext : ScopedName.text ⟨isRooted, first, parts⟩ = (if isRooted then "::" else "")
      ++ (first.text ++ "::".intercalate ("" :: parts.map (·.text))) := by
    rw [← String.intercalate_cons_append, String.append_empty, ← String.intercalate_cons_append]
    rfl
  rw [htext]
  intro hcolons
  have hcolon : c ∈ "::".toList := by
    rw [← hcolons]
    simp [hmem]
  obtain rfl : c = ':' := by simpa using hcolon
  cases hc

/-- A symbol `::` alone is read as a name without a report. -/
theorem scope_is_a_name :
    let read := QoreSyntax.parse "::;".toList Options.standard
    read.2 = [] ∧ ∃ node ∈ read.1.walk, node.kind = .name ∧ node.name? = some "::" ∧
      ∀ name : ScopedName, node.name? ≠ some name.text := by
  intro read
  have hany :
      read.1.walk.any (fun node => node.kind == .name && node.name? == some "::") = true := by
    decide +kernel
  obtain ⟨node, hmem, hnode⟩ := List.any_eq_true.mp hany
  obtain ⟨hkind, hname⟩ := Bool.and_eq_true_iff.mp hnode
  refine ⟨by decide +kernel, node, hmem, eq_of_beq hkind, eq_of_beq hname, ?_⟩
  intro name hsome
  exact text_ne_colons name (Option.some.inj (hsome.symm.trans (eq_of_beq hname)))

end Grammar

end QoreSyntax
