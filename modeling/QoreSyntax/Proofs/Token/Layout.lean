import Mathlib.Data.List.Find
import QoreSyntax.Proofs.Grammar.Halves
import QoreSyntax.Proofs.Token.Written

namespace QoreSyntax

namespace Symbol

/-- A longer symbol goes on with the character where this one ends. -/
def goesOnWith (mark : Symbol) (c : Char) : Bool :=
  longestFirst.any fun longer => (mark.characters ++ [c]).isPrefixOf longer.characters

theorem exists_longer {mark : Symbol} {c : Char} (h : mark.goesOnWith c = true) :
    ∃ longer : Symbol, mark.characters ++ [c] <+: longer.characters := by
  obtain ⟨longer, -, hlonger⟩ := List.any_eq_true.mp h
  exact ⟨longer, List.isPrefixOf_iff_prefix.mp hlonger⟩

/-- No symbol goes on with a character of a name. -/
theorem goesOnWith_eq_false {mark : Symbol} {c : Char} (hc : Token.isNameChar c = true) :
    mark.goesOnWith c = false := by
  rw [← Bool.not_eq_true]
  intro hgoes
  obtain ⟨longer, hlonger⟩ := exists_longer hgoes
  have hmem : c ∈ longer.characters := hlonger.subset (by simp)
  have hnone : longer.characters.all (! Token.isNameChar ·) = true := by
    cases longer <;> rfl
  have hnot := List.all_eq_true.mp hnone c hmem
  rw [hc] at hnot
  cases hnot

theorem leading?_characters (mark : Symbol) : leading? mark.characters = some mark := by
  cases mark <;> rfl

theorem leading?_append {mark : Symbol} {c : Char} (h : mark.goesOnWith c = false)
    (rest : List Char) : leading? (mark.characters ++ c :: rest) = some mark := by
  refine (List.find?_congr fun other hmem => ?_).trans mark.leading?_characters
  have hlonger : ¬mark.characters ++ [c] <+: other.characters := fun hlong =>
    List.any_eq_false.mp h other hmem (List.isPrefixOf_iff_prefix.mpr hlong)
  have hnext : mark.characters ++ [c] <+: mark.characters ++ c :: rest :=
    List.prefix_append_right_inj _ |>.mpr (by simp)
  rw [Bool.eq_iff_iff, List.isPrefixOf_iff_prefix, List.isPrefixOf_iff_prefix]
  refine ⟨fun hother => ?_, fun hother => hother.trans (List.prefix_append _ _)⟩
  rcases List.prefix_or_prefix_of_prefix hother hnext with hshort | hlong
  · rcases List.prefix_concat_iff.mp hshort with heq | hprefix
    · exact absurd (heq ▸ List.prefix_refl _) hlonger
    · exact hprefix
  · exact absurd hlong hlonger

end Symbol

namespace Token

namespace Kind

/-- The characters of a token of the kind. -/
def characters (kind : Kind) : List Char :=
  kind.spelling?.getD []

/-- A token of the kind ends before the character, even without a blank between. -/
def endsBefore (kind : Kind) (c : Char) : Bool :=
  match kind with
  | .identifier _ | .keyword _ => !isNameChar c && c != '/'
  | .integer _ => !c.isDigit && !isNameChar c && c != '.' && c != '-' && c != '/'
  | .symbol mark => !mark.goesOnWith c && mark != .slash && mark != .percent
  | _ => false

end Kind

/-- What begins with a symbol other than `%` is no directive and no literal. -/
theorem plainLexeme_characters {mark : Symbol} (hpercent : mark ≠ .percent) (lineStart : Bool)
    (rest : List Char) : plainLexeme lineStart (mark.characters ++ rest) =
      match Symbol.leading? (mark.characters ++ rest) with
      | some symbol => ⟨.symbol symbol, symbol.characters.length⟩
      | none => unexpected (mark.characters ++ rest) := by
  cases lineStart <;> cases mark <;> first | exact absurd rfl hpercent | rfl

theorem lexesBefore_symbol {mark : Symbol} {c : Char}
    (h : Kind.endsBefore (.symbol mark) c = true) (rest : List Char) :
    LexesBefore (c :: rest) mark.characters (.symbol mark) := by
  simp only [Kind.endsBefore, Bool.and_eq_true, Bool.not_eq_true', bne_iff_ne] at h
  obtain ⟨⟨hends, hslash⟩, hpercent⟩ := h
  refine ⟨(lexes_symbol mark).ne_nil, ?_, ?_, fun lineStart => ?_⟩
  · cases mark <;> first | exact absurd rfl hslash | rfl
  · cases mark <;> first | exact absurd rfl hslash | rfl
  · rw [plainLexeme_characters hpercent, Symbol.leading?_append hends]

/-- A symbol begins with none of the letters before the mark of a regular expression. -/
theorem regexOpening?_characters {mark : Symbol} (hslash : '/' ∉ mark.characters)
    (rest : List Char) : regexOpening? (mark.characters ++ rest) = none := by
  cases mark <;> first | exact absurd (by decide) hslash | rfl

namespace Kind.IsPlain

variable {kind : Kind} (h : kind.IsPlain)
include h

/-- A token that ends before the next character is read back. -/
theorem lexesBefore {c : Char} (hends : kind.endsBefore c = true) (rest : List Char) :
    LexesBefore (c :: rest) kind.characters kind := by
  cases kind with
  | identifier name =>
      simp only [endsBefore, Bool.and_eq_true, Bool.not_eq_true', bne_iff_ne] at hends
      have hhead : ∀ d ∈ (c :: rest).head?, isNameChar d = false := by
        rintro _ ⟨⟩
        exact hends.1
      have hname := lexesBefore_name h.1 hhead
      rw [String.ofList_toList, h.2] at hname
      exact hname
  | keyword word =>
      simp only [endsBefore, Bool.and_eq_true, Bool.not_eq_true', bne_iff_ne] at hends
      have hhead : ∀ d ∈ (c :: rest).head?, isNameChar d = false := by
        rintro _ ⟨⟩
        exact hends.1
      have hname := lexesBefore_name (isName_keyword word) hhead
      rw [String.ofList_toList, ofWord?_spelling] at hname
      exact hname
  | integer value =>
      simp only [endsBefore, Bool.and_eq_true, Bool.not_eq_true', bne_iff_ne] at hends
      obtain ⟨⟨⟨⟨hdigit, hname⟩, hpoint⟩, hminus⟩, -⟩ := hends
      exact lexesBefore_integer h (by rintro _ ⟨⟩; exact ⟨hdigit, hname, hpoint, hminus⟩)
  | symbol mark => exact lexesBefore_symbol hends rest
  | _ => exact h.elim

theorem regexOpening?_eq (hslash : '/' ∉ kind.characters) {c : Char}
    (hends : kind.endsBefore c = true) (rest : List Char) :
    regexOpening? (kind.characters ++ c :: rest) = none := by
  cases kind with
  | symbol mark => exact regexOpening?_characters hslash (c :: rest)
  | identifier _ | keyword _ | integer _ =>
      simp only [endsBefore, Bool.and_eq_true, Bool.not_eq_true', bne_iff_ne] at hends
      exact regexOpening?_eq_of_ends (by rintro _ ⟨⟩; tauto) hslash
  | _ => exact h.elim

theorem isValid_eq : kind.isValid = true := by
  cases kind with
  | invalid fault => exact h.elim
  | _ => rfl

end Kind.IsPlain

/-- The text of tokens and of blanks, which stand as `none` between them. -/
def laidOut (items : List (Option Kind)) : List Char :=
  items.flatMap fun item => item.elim [' '] Kind.characters

/-- The places of the tokens in the line that begins at the column. -/
def places (line : Nat) : (column : Nat) → List (Option Kind) → List (Kind × Range)
  | _, [] => []
  | column, none :: items => places line (column + 1) items
  | column, some kind :: items =>
      let stop := column + kind.characters.length
      (kind, ⟨⟨line, column⟩, ⟨line, stop⟩⟩) :: places line stop items

theorem map_fst_places (line column : Nat) (items : List (Option Kind)) :
    (places line column items).map Prod.fst = items.filterMap id := by
  induction items generalizing column with
  | nil => rfl
  | cons item items ih =>
      cases item with
      | none => exact ih (column + 1)
      | some kind => exact congrArg (kind :: ·) (ih (column + kind.characters.length))

/-- The second item may stand directly behind the first one. -/
def MayFollow : Option Kind → Option Kind → Prop
  | some kind, some next => ∀ c ∈ next.characters.head?, kind.endsBefore c = true
  | none, next => next.isSome = true
  | some _, none => True

def place (t : Token) : Kind × Range :=
  (t.kind, t.range)

theorem laidOut_append (items more : List (Option Kind)) :
    laidOut (items ++ more) = laidOut items ++ laidOut more :=
  List.flatMap_append

theorem places_append (line column : Nat) (items more : List (Option Kind)) :
    places line column (items ++ more)
      = places line column items ++ places line (column + (laidOut items).length) more := by
  induction items generalizing column with
  | nil => rfl
  | cons item items ih =>
      have hwidth : (laidOut (item :: items)).length
          = (item.elim [' '] Kind.characters).length + (laidOut items).length := by
        rw [laidOut, List.flatMap_cons, List.length_append]
        rfl
      cases item with
      | none => rw [List.cons_append, places, places, ih, hwidth, Nat.add_assoc]; rfl
      | some kind =>
          rw [List.cons_append, places, places, ih, hwidth, List.cons_append, Nat.add_assoc]
          rfl

theorem Kind.IsPlain.ne_nil {kind : Kind} (h : kind.IsPlain) : kind.characters ≠ [] := by
  obtain ⟨chars, hspelling, hlexes, -⟩ := h.exists_lexes
  rw [Kind.characters, hspelling]
  exact hlexes.ne_nil

theorem Kind.IsPlain.not_mem_of_beginsWithSlash {kind : Kind} (h : kind.IsPlain)
    (hslash : kind.beginsWithSlash = false) : '/' ∉ kind.characters := by
  obtain ⟨chars, hspelling, -, hchars⟩ := h.exists_lexes
  rw [Kind.characters, hspelling]
  exact hchars hslash

/-- A token of a line is read back from what the line goes on with. -/
theorem lexes_laidOut {kind : Kind} {items : List (Option Kind)} (hkind : kind.IsPlain)
    (hplain : ∀ next, some next ∈ items → next.IsPlain)
    (hfollow : ∀ next ∈ items.head?, MayFollow (some kind) next) :
    LexesBefore (laidOut items) kind.characters kind ∧ (kind.beginsWithSlash = false →
      regexOpening? (kind.characters ++ laidOut items) = none) := by
  have hapart : IsApart (laidOut items) → LexesBefore (laidOut items) kind.characters kind ∧
      (kind.beginsWithSlash = false →
        regexOpening? (kind.characters ++ laidOut items) = none) := by
    intro hrest
    obtain ⟨chars, hspelling, hlexes, hchars⟩ := hkind.exists_lexes
    rw [Kind.characters, hspelling]
    exact ⟨hlexes.before hrest, fun hslash => hrest.regexOpening?_eq (hchars hslash)⟩
  rcases items with - | ⟨- | next, items⟩
  · exact hapart (Or.inl rfl)
  · exact hapart (Or.inr ⟨_, rfl⟩)
  · obtain ⟨c, more, hnext⟩ :=
      List.exists_cons_of_ne_nil (hplain next List.mem_cons_self).ne_nil
    have hends : kind.endsBefore c = true := hfollow _ rfl c (by rw [hnext]; rfl)
    have hrest : laidOut (some next :: items) = c :: (more ++ laidOut items) := by
      change next.characters ++ laidOut items = _
      rw [hnext, List.cons_append]
    rw [hrest]
    exact ⟨hkind.lexesBefore hends _, fun hslash =>
      hkind.regexOpening?_eq (hkind.not_mem_of_beginsWithSlash hslash) hends _⟩

theorem Kind.IsPlain.isLineEnd_eq {kind : Kind} (h : kind.IsPlain) :
    ∀ c ∈ kind.characters, isLineEnd c = false := by
  have hlineEnd {p : Char → Bool} (hnewline : p '\n' = false) (hreturn : p '\r' = false) {c : Char}
      (hc : p c = true) : isLineEnd c = false := by
    rw [isLineEnd, Bool.or_eq_false_iff, beq_eq_false_iff_ne, beq_eq_false_iff_ne]
    constructor
    · rintro rfl
      exact Bool.noConfusion (hnewline.symm.trans hc)
    · rintro rfl
      exact Bool.noConfusion (hreturn.symm.trans hc)
  cases kind with
  | identifier name =>
      exact fun c hc => hlineEnd (by decide) (by decide) (isNameChar_of_mem h.1 c hc)
  | keyword word =>
      exact fun c hc =>
        hlineEnd (by decide) (by decide) (isNameChar_of_mem (isName_keyword word) c hc)
  | integer value =>
      exact fun c hc => hlineEnd (by decide) (by decide) (isDigit_of_mem_toDigits c hc)
  | symbol mark =>
      have hnone : mark.characters.all (! isLineEnd ·) = true := by
        cases mark <;> rfl
      intro c hc
      simpa using List.all_eq_true.mp hnone c hc
  | _ => exact h.elim

end Token

/-- Characters that end no line are passed over column by column. -/
theorem Cursor.position_skip {chars : List Char} (hchars : ∀ c ∈ chars, isLineEnd c = false)
    {cursor : Cursor} {rest : List Char} (htext : cursor.rest = chars ++ rest) :
    (cursor.skip chars.length).position
      = ⟨cursor.position.line, cursor.position.column + chars.length⟩ := by
  induction chars generalizing cursor with
  | nil => rfl
  | cons c chars ih =>
      obtain ⟨hc, hchars⟩ := List.forall_mem_cons.mp hchars
      obtain ⟨_, offset, position⟩ := cursor
      obtain rfl := htext
      have hnot : endsLine c (chars ++ rest) = false := by
        rw [isLineEnd, Bool.or_eq_false_iff] at hc
        rw [endsLine, hc.1, hc.2]
        rfl
      have hskip : (Cursor.skip chars.length ⟨chars ++ rest, offset + c.utf8Size,
          position.next c (chars ++ rest)⟩).position = _ := ih hchars rfl
      rw [Position.next_of_not_endsLine hnot] at hskip
      rw [List.length_cons, List.cons_append, skip, Position.next_of_not_endsLine hnot, hskip,
        Nat.add_assoc, Nat.add_comm 1]

namespace Token

/-- The tokens of a line are read back, each at its place. -/
theorem Reader.places_stream {items : List (Option Kind)}
    (hplain : ∀ kind, some kind ∈ items → kind.IsPlain) (hfollow : items.IsChain MayFollow)
    (hmatch : (items.filterMap id).IsChain fun k l => k.isMatch = true → l.beginsWithSlash = false)
    {r : Reader} {gap : List Char} (hgap : gap = [] ∨ gap = [' '] ∧ items.head? ≠ some none)
    (htext : r.cursor.rest = gap ++ laidOut items)
    (hslash : ∀ kind ∈ (items.filterMap id).head?, r.afterMatch = true →
      kind.beginsWithSlash = false) :
    r.stream.tokens.map place
      = places r.cursor.position.line (r.cursor.position.column + gap.length) items := by
  induction items generalizing r gap with
  | nil =>
      have hend : r.next.1.isEof = true := by
        rw [isEof_next_iff, gapEnd, Cursor.rest_skip, htext]
        rcases hgap with rfl | ⟨rfl, -⟩ <;> rfl
      rw [stream_of_isEof hend]
      rfl
  | cons item items ih =>
      have hplain' : ∀ kind, some kind ∈ items → kind.IsPlain := fun kind hmem =>
        hplain kind (List.mem_cons_of_mem _ hmem)
      obtain ⟨hnext, hrest⟩ := List.isChain_cons.mp hfollow
      cases item with
      | none =>
          rcases hgap with rfl | ⟨-, hnone⟩
          · have hhead : items.head? ≠ some none := by
              intro hhead
              exact Bool.noConfusion (hnext none hhead)
            exact ih hplain' hrest hmatch (Or.inr ⟨rfl, hhead⟩) htext hslash
          · exact absurd rfl hnone
      | some kind =>
          have hkind : kind.IsPlain := hplain kind List.mem_cons_self
          have hgap' : gap = [] ∨ gap = [' '] := hgap.imp_right And.left
          have htext' : r.cursor.rest = gap ++ (kind.characters ++ laidOut items) := htext
          obtain ⟨hmatch', hkinds⟩ := List.isChain_cons.mp hmatch
          obtain ⟨hlexes, hregex⟩ := lexes_laidOut hkind hplain' hnext
          have hopens : r.afterMatch = true →
              regexOpening? (kind.characters ++ laidOut items) = none :=
            fun hafter => hregex (hslash kind rfl hafter)
          have hlexeme := fun newline =>
            hlexes.leadingLexeme_eq (r.fresh || newline) hopens
          obtain ⟨hend, hbehind⟩ :=
            gapEnd_of_gap (isGap_of_blank hgap' _) htext' hlexes.pieceLength_eq
          obtain ⟨hread, hcursor, hafter⟩ :=
            next_of_gap (isGap_of_blank hgap' _) htext' hlexes.pieceLength_eq hlexeme
          have hnot : r.next.1.isEof = false := by
            rw [isEof, hread, beq_eq_false_iff_ne]
            exact hkind.ne_eof
          have hslash' : ∀ next ∈ (items.filterMap id).head?, r.next.2.afterMatch = true →
              next.beginsWithSlash = false :=
            fun next hmem h => hmatch' next hmem (hafter ▸ h)
          have hstart : r.gapEnd.position
              = ⟨r.cursor.position.line, r.cursor.position.column + gap.length⟩ := by
            rw [hend]
            refine Cursor.position_skip ?_ htext
            rcases hgap' with rfl | rfl
            · intro c hc
              cases hc
            · exact List.forall_mem_singleton.mpr rfl
          have hstop : r.next.2.cursor.position = ⟨r.cursor.position.line,
              r.cursor.position.column + gap.length + kind.characters.length⟩ := by
            rw [next_cursor,
              lexeme_of_gap (isGap_of_blank hgap' _) htext' hlexes.pieceLength_eq hlexeme]
            have hskip := Cursor.position_skip hkind.isLineEnd_eq hbehind
            rwa [hstart] at hskip
          have hmore := ih hplain' hrest hkinds (Or.inl rfl) hcursor hslash'
          rw [hstop] at hmore
          rw [stream_of_not_isEof hnot, List.map_cons, hmore, places, place, hread, next_range,
            hstart, ← next_cursor, hstop]
          rfl

theorem Stream.places_ofText {items : List (Option Kind)}
    (hplain : ∀ kind, some kind ∈ items → kind.IsPlain) (hfollow : items.IsChain MayFollow)
    (hmatch : (items.filterMap id).IsChain fun k l => k.isMatch = true → l.beginsWithSlash = false)
    (line : Nat) : (ofText (laidOut items) line).tokens.map place = places (max line 1) 1 items :=
  Reader.places_stream hplain hfollow hmatch (Or.inl rfl) rfl fun _ _ h => Bool.noConfusion h

/-- The items with two symbols `>` that stand side by side as one symbol `>>`. -/
def glued : List (Option Kind) → List (Option Kind)
  | some (.symbol .gt) :: some (.symbol .gt) :: items => some (.symbol .shr) :: glued items
  | item :: items => item :: glued items
  | [] => []

/-- The second item may stand directly behind the first one, or both are closing brackets. -/
def MayAdjoin (item next : Option Kind) : Prop :=
  MayFollow item next ∨ (item = some (.symbol .gt) ∧ next = some (.symbol .gt))

theorem laidOut_glued (items : List (Option Kind)) : laidOut (glued items) = laidOut items := by
  induction items using glued.induct with
  | case1 items ih =>
      rw [glued]
      exact congrArg (['>', '>'] ++ ·) ih
  | case2 item items hnot ih =>
      rw [glued.eq_2 _ _ hnot]
      exact congrArg (item.elim [' '] Kind.characters ++ ·) ih
  | case3 => rfl

theorem mem_of_mem_glued {kind : Kind} {items : List (Option Kind)}
    (h : some kind ∈ glued items) : some kind ∈ items ∨ kind = .symbol .shr := by
  induction items using glued.induct with
  | case1 items ih =>
      rw [glued] at h
      rcases List.mem_cons.mp h with hsame | hmem
      · exact Or.inr (Option.some.inj hsame)
      · exact (ih hmem).imp_left fun hmem =>
          List.mem_cons_of_mem _ (List.mem_cons_of_mem _ hmem)
  | case2 item items hnot ih =>
      rw [glued.eq_2 _ _ hnot] at h
      rcases List.mem_cons.mp h with hsame | hmem
      · exact Or.inl (hsame ▸ List.mem_cons_self)
      · exact (ih hmem).imp_left (List.mem_cons_of_mem _)
  | case3 => exact nomatch h

/-- The first of the items stays, or it is the first half of the symbol `>>`. -/
theorem head?_glued (items : List (Option Kind)) : (glued items).head? = items.head? ∨
    (items.head? = some (some (.symbol .gt)) ∧
      (glued items).head? = some (some (.symbol .shr))) := by
  induction items using glued.induct with
  | case1 items => exact Or.inr ⟨rfl, rfl⟩
  | case2 item items hnot =>
      left
      rw [glued.eq_2 _ _ hnot]
      rfl
  | case3 => exact Or.inl rfl

theorem MayFollow.shr_of_gt {item : Option Kind} (h : MayFollow item (some (.symbol .gt))) :
    MayFollow item (some (.symbol .shr)) := by
  cases item with
  | none => rfl
  | some kind => exact h

theorem endsBefore_shr {c : Char} (hc : c ≠ '=') : Kind.endsBefore (.symbol .shr) c = true := by
  have hends : Symbol.goesOnWith .shr c = false := by
    rw [← Bool.not_eq_true]
    intro hgoes
    obtain ⟨longer, hlonger⟩ := Symbol.exists_longer hgoes
    have hsame : c = '=' := by
      revert hlonger
      cases longer <;> simp [Symbol.characters]
    exact hc hsame
  rw [Kind.endsBefore, hends]
  rfl

/-- What may stand behind one closing bracket may stand behind two. -/
theorem MayAdjoin.shr_of_gt {next : Option Kind} (h : MayAdjoin (some (.symbol .gt)) next) :
    MayFollow (some (.symbol .shr)) next := by
  rcases h with hfollow | ⟨-, rfl⟩
  · cases next with
    | none => trivial
    | some kind =>
        refine fun c hc => endsBefore_shr ?_
        rintro rfl
        exact Bool.noConfusion (hfollow _ hc)
  · rintro c ⟨⟩
    exact endsBefore_shr (by decide)

/-- What may adjoin may follow when closing brackets are read in pairs. -/
theorem isChain_glued {items : List (Option Kind)} (h : items.IsChain MayAdjoin) :
    (glued items).IsChain MayFollow := by
  induction items using glued.induct with
  | case1 items ih =>
      obtain ⟨-, hrest⟩ := List.isChain_cons.mp h
      obtain ⟨hnext, hitems⟩ := List.isChain_cons.mp hrest
      rw [glued]
      refine List.isChain_cons.mpr ⟨fun next hmem => ?_, ih hitems⟩
      rcases head?_glued items with hsame | ⟨hgt, hshr⟩
      · exact (hnext next (hsame ▸ hmem)).shr_of_gt
      · obtain rfl := Option.some.inj (hshr.symm.trans hmem)
        exact (hnext _ hgt).shr_of_gt.shr_of_gt
  | case2 item items hnot ih =>
      obtain ⟨hnext, hitems⟩ := List.isChain_cons.mp h
      have hfollow {next : Option Kind} (hhead : items.head? = some next) :
          MayFollow item next := by
        rcases hnext next hhead with hfollow | ⟨rfl, rfl⟩
        · exact hfollow
        · obtain ⟨rest, rfl⟩ := List.head?_eq_some_iff.mp hhead
          exact (hnot rest rfl rfl).elim
      rw [glued.eq_2 _ _ hnot]
      refine List.isChain_cons.mpr ⟨fun next hmem => ?_, ih hitems⟩
      rcases head?_glued items with hsame | ⟨hgt, hshr⟩
      · exact hfollow (hsame ▸ hmem)
      · obtain rfl := Option.some.inj (hshr.symm.trans hmem)
        exact (hfollow hgt).shr_of_gt
  | case3 => exact List.IsChain.nil

/-- The halves of tokens that stand where two `>` are one symbol stand where each is a symbol. -/
theorem places_halved {items : List (Option Kind)} (hshr : some (.symbol .shr) ∉ items)
    {line column : Nat} {tokens : List Token}
    (h : tokens.map place = places line column (glued items)) :
    (halved tokens).map place = places line column items := by
  induction items using glued.induct generalizing column tokens with
  | case1 items ih =>
      rw [glued, places] at h
      obtain ⟨t, rest, rfl, ht, hrest⟩ := List.map_eq_cons_iff.mp h
      obtain ⟨hkind, hrange⟩ := Prod.mk.inj ht
      have hitems : some (.symbol .shr) ∉ items := fun hmem =>
        hshr (List.mem_cons_of_mem _ (List.mem_cons_of_mem _ hmem))
      rw [halved_cons_of_shr hkind, List.map_cons, List.map_cons, ih hitems hrest, place, place,
        firstHalf, secondHalf, middle, hrange]
      rfl
  | case2 item items hnot ih =>
      have hitems : some (.symbol .shr) ∉ items := fun hmem => hshr (List.mem_cons_of_mem _ hmem)
      rw [glued.eq_2 _ _ hnot] at h
      cases item with
      | none => exact ih hitems h
      | some kind =>
          obtain ⟨t, rest, rfl, ht, hrest⟩ := List.map_eq_cons_iff.mp h
          have hkind : t.kind ≠ .symbol .shr := by
            intro hsame
            have hsame' : kind = .symbol .shr := (congrArg Prod.fst ht).symm.trans hsame
            exact hshr (hsame' ▸ List.mem_cons_self)
          rw [halved_cons_of_ne hkind, List.map_cons, ih hitems hrest, ht]
          rfl
  | case3 =>
      obtain rfl := List.map_eq_nil_iff.mp h
      rfl

/-- Of a line whose closing brackets may stand side by side the halves of the tokens are read back,
each at its place. -/
theorem Stream.places_halved_ofText {items : List (Option Kind)}
    (hplain : ∀ kind, some kind ∈ items → kind.IsPlain ∧ kind.isMatch = false)
    (hshr : some (.symbol .shr) ∉ items) (hadjoin : items.IsChain MayAdjoin) (line : Nat) :
    (halved (ofText (laidOut items) line).tokens).map place = places (max line 1) 1 items := by
  have hplain' : ∀ kind, some kind ∈ glued items → kind.IsPlain ∧ kind.isMatch = false := by
    intro kind hmem
    rcases mem_of_mem_glued hmem with hmem | rfl
    · exact hplain kind hmem
    · exact ⟨trivial, rfl⟩
  have hmatch : ((glued items).filterMap id).IsChain fun k l =>
      k.isMatch = true → l.beginsWithSlash = false := by
    refine List.Pairwise.isChain (List.pairwise_of_forall_mem_list fun k hk l _ h => ?_)
    obtain ⟨item, hmem, hitem⟩ := List.mem_filterMap.mp hk
    obtain rfl : item = some k := hitem
    exact Bool.noConfusion ((hplain' k hmem).2.symm.trans h)
  have hread := places_ofText (fun kind hmem => (hplain' kind hmem).1) (isChain_glued hadjoin)
    hmatch line
  rw [laidOut_glued] at hread
  exact places_halved hshr hread

end Token

end QoreSyntax
