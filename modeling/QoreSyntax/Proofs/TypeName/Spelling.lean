import QoreSyntax.Proofs.Token.Layout
import QoreSyntax.Proofs.TypeName.Exact

namespace QoreSyntax

open Token (Kind laidOut places MayFollow MayAdjoin)

namespace Token

/-- The kind is one of a name or of a reserved word. -/
def Kind.IsWord : Kind → Prop
  | .identifier name => isName name.toList = true
  | .keyword _ => True
  | _ => False

/-- The symbols that may stand directly behind a word, among those that stand in types. -/
def endsWord : Symbol → Bool
  | .lt | .gt | .comma | .doubleColon | .semicolon => true
  | _ => false

namespace Kind.IsWord

variable {kind : Kind} (h : kind.IsWord)
include h

theorem isNameChar_eq : ∀ c ∈ kind.characters.head?, isNameChar c = true := by
  intro c hc
  cases kind with
  | identifier name => exact isNameChar_of_mem h c (List.mem_of_mem_head? hc)
  | keyword word => exact isNameChar_of_mem (isName_keyword word) c (List.mem_of_mem_head? hc)
  | _ => exact h.elim

theorem mayFollow {mark : Symbol} (hmark : endsWord mark = true) :
    MayFollow (some kind) (some (.symbol mark)) := by
  have hends : ∀ c ∈ (Kind.symbol mark).characters.head?, (!isNameChar c && c != '/') = true := by
    intro c hc
    cases mark <;> first | (cases hc; decide) | cases hmark
  cases kind with
  | identifier name => exact hends
  | keyword word => exact hends
  | _ => exact h.elim

theorem mayFollow_symbol {mark : Symbol} (hslash : mark ≠ .slash) (hpercent : mark ≠ .percent) :
    MayFollow (some (.symbol mark)) (some kind) := by
  intro c hc
  rw [Kind.endsBefore, Symbol.goesOnWith_eq_false (h.isNameChar_eq c hc)]
  simp [hslash, hpercent]

end Kind.IsWord

end Token

theorem Identifier.isWord (x : Identifier) : x.kind.IsWord :=
  x.isName

namespace TypeName

/-- The arguments of a type in angle brackets, with a blank behind each comma. -/
def bracketedItems : List (List (Option Kind)) → List (Option Kind)
  | [] => []
  | arguments =>
      some (.symbol .lt) :: ([some (.symbol .comma), none].intercalate arguments
        ++ [some (.symbol .gt)])

mutual

def items : TypeName → List (Option Kind)
  | mk isOptional head arguments =>
      (starKinds isOptional ++ head.kinds).map some ++ bracketedItems (itemsEach arguments)

def itemsEach : List TypeName → List (List (Option Kind))
  | [] => []
  | T :: rest => T.items :: itemsEach rest

end

theorem itemsEach_eq_map (types : List TypeName) : itemsEach types = types.map items := by
  induction types with
  | nil => rfl
  | cons T types ih => rw [itemsEach, ih, List.map_cons]

theorem bracketedItems_eq {arguments : List (List (Option Kind))} (hne : arguments ≠ []) :
    bracketedItems arguments = some (.symbol .lt) ::
      ([some (.symbol .comma), none].intercalate arguments ++ [some (.symbol .gt)]) :=
  bracketedItems.eq_2 arguments hne

/-- The items without the blanks. -/
def tokensOf (items : List (Option Kind)) : List Kind :=
  items.filterMap id

theorem tokensOf_append (items more : List (Option Kind)) :
    tokensOf (items ++ more) = tokensOf items ++ tokensOf more :=
  List.filterMap_append

theorem tokensOf_map_some (kinds : List Kind) : tokensOf (kinds.map some) = kinds := by
  rw [tokensOf, List.filterMap_map]
  exact List.filterMap_some

theorem tokensOf_intercalate (items : List (List (Option Kind))) :
    tokensOf ([some (.symbol .comma), none].intercalate items)
      = Token.commas (items.map tokensOf) := by
  induction items with
  | nil => rfl
  | cons item items ih =>
      cases items with
      | nil => rw [List.intercalate_singleton, List.map_singleton, Token.commas_singleton]
      | cons next items =>
          rw [List.map_cons, List.map_cons, Token.commas_cons_cons, ← List.map_cons, ← ih,
            List.intercalate_cons_cons, tokensOf_append, tokensOf_append, List.append_assoc]
          rfl

theorem tokensOf_bracketedItems (arguments : List (List (Option Kind))) :
    tokensOf (bracketedItems arguments) = bracketed (arguments.map tokensOf) := by
  cases arguments with
  | nil => rfl
  | cons first others =>
      rw [bracketedItems_eq (List.cons_ne_nil first others)]
      change .symbol .lt :: tokensOf (_ ++ _) = _
      rw [tokensOf_append, tokensOf_intercalate]
      rfl

mutual

theorem tokensOf_items : ∀ T : TypeName, tokensOf T.items = T.kinds
  | mk isOptional head arguments => by
      rw [items, kinds, tokensOf_append, tokensOf_map_some, tokensOf_bracketedItems,
        tokensOf_itemsEach arguments, List.append_assoc]

theorem tokensOf_itemsEach : ∀ types : List TypeName,
    (itemsEach types).map tokensOf = kindsEach types
  | [] => rfl
  | T :: rest => by rw [itemsEach, List.map_cons, kindsEach, tokensOf_items, tokensOf_itemsEach]

end

theorem laidOut_map_some (kinds : List Kind) :
    laidOut (kinds.map some) = kinds.flatMap Kind.characters := by
  rw [laidOut, List.flatMap_map]
  rfl

theorem characters_scopeKinds (parts : List Identifier) (text : String) :
    text.toList ++ (ScopedName.scopeKinds parts).flatMap Kind.characters
      = ("::".intercalate (text :: parts.map (·.text))).toList := by
  induction parts generalizing text with
  | nil =>
      rw [List.map_nil, String.intercalate_singleton]
      exact List.append_nil _
  | cons part parts ih =>
      have hmore := ih (text ++ "::" ++ part.text)
      rw [String.toList_append, String.toList_append, String.intercalate_cons_append,
        ← String.intercalate_cons_cons, List.append_assoc, List.append_assoc] at hmore
      exact hmore

theorem characters_head (head : TypeHead) :
    head.kinds.flatMap Kind.characters = head.text.toList := by
  cases head with
  | builtin word _ => exact List.append_nil _
  | named name =>
      obtain ⟨isRooted, first, parts⟩ := name
      cases isRooted with
      | true =>
          have hscopes := characters_scopeKinds parts ("::" ++ first.text)
          rw [String.toList_append, List.append_assoc] at hscopes
          exact hscopes
      | false =>
          have hscopes := characters_scopeKinds parts ("" ++ first.text)
          rw [String.toList_append] at hscopes
          exact hscopes

theorem laidOut_intercalate (items : List (List (Option Kind))) :
    laidOut ([some (.symbol .comma), none].intercalate items)
      = ", ".toList.intercalate (items.map laidOut) := by
  induction items with
  | nil => rfl
  | cons item items ih =>
      cases items with
      | nil => rw [List.intercalate_singleton, List.map_singleton, List.intercalate_singleton]
      | cons next items =>
          rw [List.intercalate_cons_cons, Token.laidOut_append, Token.laidOut_append, ih]
          simp only [List.map_cons]
          rw [List.intercalate_cons_cons]
          rfl

theorem laidOut_bracketedItems (arguments : List (List (Option Kind))) (texts : List String)
    (h : arguments.map laidOut = texts.map String.toList) :
    laidOut (bracketedItems arguments) = (bracketedText texts).toList := by
  cases arguments with
  | nil =>
      obtain rfl := List.map_eq_nil_iff.mp h.symm
      rfl
  | cons first others =>
      obtain ⟨text, more, rfl, -, -⟩ := List.map_eq_cons_iff.mp h.symm
      rw [bracketedItems_eq (List.cons_ne_nil first others)]
      change '<' :: laidOut (_ ++ _) = _
      rw [Token.laidOut_append, laidOut_intercalate, h, ← String.toList_intercalate, bracketedText,
        String.toList_append, String.toList_append]
      · rfl
      · exact List.cons_ne_nil _ _

mutual

/-- The characters of a type are those of its spelling. -/
theorem laidOut_items : ∀ T : TypeName, laidOut T.items = T.text.toList
  | mk isOptional head arguments => by
      have hbrackets := laidOut_bracketedItems _ _ (map_laidOut_items arguments)
      rw [items, text, Token.laidOut_append, laidOut_map_some, List.flatMap_append,
        characters_head, hbrackets, String.toList_append, String.toList_append]
      cases isOptional <;> rfl

theorem map_laidOut_items : ∀ types : List TypeName,
    (itemsEach types).map laidOut = (textEach types).map String.toList
  | [] => rfl
  | T :: rest => by
      rw [itemsEach, textEach, List.map_cons, List.map_cons, laidOut_items, map_laidOut_items]

end

/-- A type begins with the item. -/
def Begins (item : Option Kind) : Prop :=
  item = some (.symbol .star) ∨ item = some (.symbol .doubleColon) ∨
    ∃ kind : Kind, item = some kind ∧ kind.IsWord

/-- A type ends with the item. -/
def Ends (item : Option Kind) : Prop :=
  item = some (.symbol .gt) ∨ ∃ kind : Kind, item = some kind ∧ kind.IsWord

/-- What may stand behind a type or the name of one. -/
def Behind (item : Option Kind) : Prop :=
  item = none ∨ item = some (.symbol .gt) ∨ item = some (.symbol .comma) ∨
    item = some (.symbol .lt)

theorem Ends.mayAdjoin {item next : Option Kind} (h : Ends item) (hnext : Behind next) :
    MayAdjoin item next := by
  rcases h with rfl | ⟨kind, rfl, hkind⟩
  · rcases hnext with rfl | rfl | rfl | rfl
    · exact Or.inl trivial
    · exact Or.inr ⟨rfl, rfl⟩
    all_goals
      refine Or.inl ?_
      rintro c ⟨⟩
      decide
  · rcases hnext with rfl | rfl | rfl | rfl
    · exact Or.inl trivial
    all_goals exact Or.inl (hkind.mayFollow rfl)

theorem Begins.mayFollow_lt {item : Option Kind} (h : Begins item) :
    MayFollow (some (.symbol .lt)) item := by
  rcases h with rfl | rfl | ⟨kind, rfl, hkind⟩
  · rintro c ⟨⟩
    decide
  · rintro c ⟨⟩
    decide
  · exact hkind.mayFollow_symbol (by decide) (by decide)

theorem Begins.isSome {item : Option Kind} (h : Begins item) : item.isSome = true := by
  rcases h with rfl | rfl | ⟨kind, rfl, -⟩ <;> rfl

/-- The items may stand side by side, and a type begins and ends with them. -/
structure IsPart (items : List (Option Kind)) : Prop where
  chain : items.IsChain MayAdjoin
  ne_nil : items ≠ []
  begins : ∀ item ∈ items.head?, Begins item
  ends : ∀ item ∈ items.getLast?, Ends item

theorem IsPart.intercalate {parts : List (List (Option Kind))} (hne : parts ≠ [])
    (h : ∀ part ∈ parts, IsPart part) :
    IsPart ([some (.symbol .comma), none].intercalate parts) := by
  induction parts with
  | nil => exact absurd rfl hne
  | cons part parts ih =>
      obtain ⟨hpart, hparts⟩ := List.forall_mem_cons.mp h
      cases parts with
      | nil => rwa [List.intercalate_singleton]
      | cons next parts =>
          have hrest := ih (List.cons_ne_nil next parts) hparts
          rw [List.intercalate_cons_cons, List.append_assoc]
          refine ⟨?_, ?_, ?_, ?_⟩
          · refine List.isChain_append.mpr ⟨hpart.chain, ?_, ?_⟩
            · refine List.isChain_cons.mpr ⟨?_, List.isChain_cons.mpr ⟨?_, hrest.chain⟩⟩
              · rintro _ ⟨⟩
                exact Or.inl trivial
              · exact fun item hitem => Or.inl (hrest.begins item hitem).isSome
            · rintro last hlast _ ⟨⟩
              exact (hpart.ends last hlast).mayAdjoin (Or.inr (Or.inr (Or.inl rfl)))
          · exact List.append_ne_nil_of_left_ne_nil hpart.ne_nil _
          · intro item hitem
            rw [List.head?_append_of_ne_nil _ hpart.ne_nil] at hitem
            exact hpart.begins item hitem
          · intro item hitem
            rw [← List.append_assoc, List.getLast?_append_of_ne_nil _ hrest.ne_nil] at hitem
            exact hrest.ends item hitem

theorem IsPart.singleton {kind : Kind} (h : kind.IsWord) : IsPart [some kind] where
  chain := List.isChain_singleton _
  ne_nil := List.cons_ne_nil _ _
  begins := by
    rintro _ ⟨⟩
    exact Or.inr (Or.inr ⟨kind, rfl, h⟩)
  ends := by
    rintro _ ⟨⟩
    exact Or.inr ⟨kind, rfl, h⟩

theorem IsPart.cons {item : Option Kind} {items : List (Option Kind)} (h : IsPart items)
    (hbegins : Begins item) (hnext : ∀ next ∈ items.head?, MayFollow item next) :
    IsPart (item :: items) where
  chain := List.isChain_cons.mpr ⟨fun next hmem => Or.inl (hnext next hmem), h.chain⟩
  ne_nil := List.cons_ne_nil _ _
  begins := by
    rintro _ ⟨⟩
    exact hbegins
  ends last hlast := by
    rw [List.getLast?_cons_of_ne_nil h.ne_nil] at hlast
    exact h.ends last hlast

theorem isPart_scopes (first : Identifier) (parts : List Identifier) :
    IsPart ((first.kind :: ScopedName.scopeKinds parts).map some) := by
  induction parts generalizing first with
  | nil => exact IsPart.singleton first.isWord
  | cons part parts ih =>
      have hscope : IsPart ((.symbol .doubleColon :: part.kind :: ScopedName.scopeKinds parts).map
          some) := by
        refine (ih part).cons (Or.inr (Or.inl rfl)) ?_
        rintro _ ⟨⟩
        exact part.isWord.mayFollow_symbol (by decide) (by decide)
      refine hscope.cons (Or.inr (Or.inr ⟨_, rfl, first.isWord⟩)) ?_
      rintro _ ⟨⟩
      exact first.isWord.mayFollow rfl

theorem isPart_head (head : TypeHead) : IsPart (head.kinds.map some) := by
  cases head with
  | builtin word _ => exact IsPart.singleton trivial
  | named name =>
      obtain ⟨isRooted, first, parts⟩ := name
      have hname := isPart_scopes first parts
      cases isRooted with
      | false => exact hname
      | true =>
          refine hname.cons (Or.inr (Or.inl rfl)) ?_
          rintro _ ⟨⟩
          exact first.isWord.mayFollow_symbol (by decide) (by decide)

theorem isPart_name (isOptional : Bool) (head : TypeHead) :
    IsPart ((starKinds isOptional ++ head.kinds).map some) := by
  cases isOptional with
  | false => exact isPart_head head
  | true =>
      refine (isPart_head head).cons (Or.inl rfl) ?_
      cases head with
      | builtin word _ =>
          have hword : Kind.IsWord (.keyword word) := trivial
          rintro _ ⟨⟩
          exact hword.mayFollow_symbol (by decide) (by decide)
      | named name =>
          obtain ⟨isRooted, first, parts⟩ := name
          cases isRooted with
          | false =>
              rintro _ ⟨⟩
              exact first.isWord.mayFollow_symbol (by decide) (by decide)
          | true =>
              rintro _ ⟨⟩
              rintro c ⟨⟩
              decide

theorem IsPart.bracketed {name : List (Option Kind)} {arguments : List (List (Option Kind))}
    (hname : IsPart name) (h : ∀ part ∈ arguments, IsPart part) :
    IsPart (name ++ bracketedItems arguments) := by
  cases arguments with
  | nil => rwa [bracketedItems, List.append_nil]
  | cons first others =>
      have hne := List.cons_ne_nil first others
      have hinner := IsPart.intercalate hne h
      rw [bracketedItems_eq hne]
      refine ⟨?_, ?_, ?_, ?_⟩
      · refine List.isChain_append.mpr ⟨hname.chain, List.isChain_cons.mpr ⟨?_, ?_⟩, ?_⟩
        · intro next hnext
          rw [List.head?_append_of_ne_nil _ hinner.ne_nil] at hnext
          exact Or.inl (hinner.begins next hnext).mayFollow_lt
        · refine List.isChain_append.mpr ⟨hinner.chain, List.isChain_singleton _, ?_⟩
          rintro last hlast _ ⟨⟩
          exact (hinner.ends last hlast).mayAdjoin (Or.inr (Or.inl rfl))
        · rintro last hlast _ ⟨⟩
          exact (hname.ends last hlast).mayAdjoin (Or.inr (Or.inr (Or.inr rfl)))
      · exact List.append_ne_nil_of_left_ne_nil hname.ne_nil _
      · intro item hitem
        rw [List.head?_append_of_ne_nil _ hname.ne_nil] at hitem
        exact hname.begins item hitem
      · intro item hitem
        rw [← List.cons_append, ← List.append_assoc, List.getLast?_concat] at hitem
        obtain rfl := Option.some.inj hitem
        exact Or.inl rfl

mutual

/-- Of the items of a type each may stand where it stands. -/
theorem isPart_items : ∀ T : TypeName, IsPart T.items
  | mk isOptional head arguments => by
      rw [items]
      exact (isPart_name isOptional head).bracketed (isPart_itemsEach arguments)

theorem isPart_itemsEach : ∀ types : List TypeName, ∀ part ∈ itemsEach types, IsPart part
  | [], _, hpart => nomatch hpart
  | T :: rest, part, hpart => by
      rw [itemsEach] at hpart
      rcases List.mem_cons.mp hpart with rfl | hmem
      · exact isPart_items T
      · exact isPart_itemsEach rest part hmem

end

end TypeName

end QoreSyntax
