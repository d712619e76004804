import QoreSyntax.Proofs.Grammar.Extent
import QoreSyntax.Proofs.TypeName.Spelling

namespace QoreSyntax

open Grammar
open Token (Kind laidOut places place)

theorem Range.cover_eq_left {r s : Range} (hstart : r.start ≤ s.start) (hstop : s.stop ≤ r.stop) :
    r.cover s = r := by
  have hmin : r.start.earlier s.start = r.start := min_eq_left hstart
  have hmax : r.stop.later s.stop = r.stop := max_eq_left hstop
  rw [Range.cover, hmin, hmax]

namespace Grammar.State

theorem advanceMany_consumed {tokens rest : List Token} {s : State}
    (h : s.pending = tokens ++ rest) :
    (s.advanceMany tokens.length).consumed = s.consumed + tokens.length := by
  induction tokens generalizing s with
  | nil => rfl
  | cons t tokens ih =>
      have hnext : s.advance.pending = tokens ++ rest := by rw [advance_pending, h]; rfl
      refine (ih hnext).trans ?_
      rw [advance_consumed h, List.length_cons]
      omega

theorem advanceMany_previousEnd {tokens rest : List Token} {last : Token} {s : State}
    (h : s.pending = tokens ++ rest) (hlast : tokens.getLast? = some last) :
    (s.advanceMany tokens.length).previousEnd = last.range.stop := by
  induction tokens generalizing s with
  | nil => cases hlast
  | cons t tokens ih =>
      have hnext : s.advance.pending = tokens ++ rest := by rw [advance_pending, h]; rfl
      cases tokens with
      | nil =>
          obtain rfl := Option.some.inj hlast
          exact advance_previousEnd h
      | cons u tokens => exact ih hnext (by rwa [List.getLast?_cons_cons] at hlast)

/-- A node that is closed behind some tokens reaches from the first of them to the last. -/
theorem own_advanceMany {tokens rest : List Token} {first last : Token} {s : State}
    (h : s.pending = tokens ++ rest) (hfirst : tokens.head? = some first)
    (hlast : tokens.getLast? = some last) :
    (s.advanceMany tokens.length).own s.mark = ⟨first.range.start, last.range.stop⟩ := by
  obtain ⟨more, rfl⟩ := List.head?_eq_some_iff.mp hfirst
  have hconsumed : s.mark.consumed < (s.advanceMany (first :: more).length).consumed := by
    rw [advanceMany_consumed h, List.length_cons]
    exact Nat.lt_add_of_pos_right (Nat.succ_pos _)
  rw [own, if_pos hconsumed, advanceMany_previousEnd h hlast, mark, current_of_pending h]

end Grammar.State

namespace TypeName

mutual

/-- The node of a type whose spelling begins in the column. -/
def located : TypeName → (line column : Nat) → Node
  | mk isOptional head arguments, line, column =>
      let text := (mk isOptional head arguments).text
      ⟨.type, ⟨⟨line, column⟩, ⟨line, column + text.length⟩⟩, .name text,
        locatedEach arguments line
          (column + (if isOptional then 1 else 0) + head.text.length + 1)⟩

/-- The nodes of types with a comma and a blank between two of them. -/
def locatedEach : List TypeName → (line column : Nat) → List Node
  | [], _, _ => []
  | T :: rest, line, column =>
      T.located line column :: locatedEach rest line (column + T.text.length + 2)

end

/-- The number of characters of types with a comma and a blank between two of them. -/
def widthEach (types : List TypeName) : Nat :=
  (laidOut ([some (.symbol .comma), none].intercalate (itemsEach types))).length

theorem length_laidOut_items (T : TypeName) : (laidOut T.items).length = T.text.length := by
  rw [laidOut_items, String.length_toList]

theorem widthEach_cons_cons (T U : TypeName) (rest : List TypeName) :
    widthEach (T :: U :: rest) = T.text.length + 2 + widthEach (U :: rest) := by
  rw [widthEach, widthEach, itemsEach, itemsEach, List.intercalate_cons_cons, ← itemsEach,
    Token.laidOut_append, Token.laidOut_append, List.length_append, List.length_append,
    length_laidOut_items]
  rfl

theorem widthEach_singleton (T : TypeName) : widthEach [T] = T.text.length := by
  rw [widthEach, itemsEach, itemsEach, List.intercalate_singleton, length_laidOut_items]

theorem length_laidOut_name (isOptional : Bool) (head : TypeHead) :
    (laidOut ((starKinds isOptional ++ head.kinds).map some)).length
      = (if isOptional then 1 else 0) + head.text.length := by
  rw [laidOut_map_some, List.flatMap_append, List.length_append, characters_head,
    String.length_toList]
  cases isOptional <;> rfl

theorem length_text {isOptional : Bool} {head : TypeHead} {arguments : List TypeName}
    (hne : arguments ≠ []) : (mk isOptional head arguments).text.length
      = (if isOptional then 1 else 0) + head.text.length + 1 + widthEach arguments + 1 := by
  have hitems : itemsEach arguments ≠ [] := by
    rw [itemsEach_eq_map]
    exact mt List.map_eq_nil_iff.mp hne
  rw [← length_laidOut_items, items, Token.laidOut_append, List.length_append, length_laidOut_name,
    bracketedItems_eq hitems]
  change _ + (laidOut (_ ++ _)).length.succ = _
  have hlast : (laidOut [some (.symbol .gt)]).length = 1 := rfl
  rw [Token.laidOut_append, List.length_append, ← widthEach, hlast]
  omega

/-- The nodes stand within the columns of their types. -/
theorem bounds_of_mem_locatedEach {types : List TypeName} {line column : Nat} {node : Node}
    (h : node ∈ locatedEach types line column) :
    (⟨line, column⟩ : Position) ≤ node.range.start ∧
      node.range.stop ≤ (⟨line, column + widthEach types⟩ : Position) := by
  simp only [Position.le_iff]
  induction types generalizing column with
  | nil => cases h
  | cons T rest ih =>
      rw [locatedEach] at h
      rcases List.mem_cons.mp h with rfl | hmem
      · obtain ⟨isOptional, head, arguments⟩ := T
        refine ⟨Or.inr ⟨rfl, Nat.le_refl _⟩, Or.inr ⟨rfl, ?_⟩⟩
        cases rest with
        | nil =>
            rw [widthEach_singleton]
            exact Nat.le_refl _
        | cons U rest =>
            rw [widthEach_cons_cons, Nat.add_assoc]
            exact Nat.add_le_add_left (Nat.le_add_right _ _) _
      · cases rest with
        | nil => cases hmem
        | cons U rest =>
            rw [widthEach_cons_cons]
            have hbounds := ih hmem
            omega

section Places

variable {line column : Nat} {items : List (Option Kind)} {tokens : List Token}

theorem length_places (line column : Nat) (items : List (Option Kind)) :
    (places line column items).length = (tokensOf items).length := by
  rw [tokensOf, ← Token.map_fst_places line column, List.length_map]

variable (h : tokens.map place = places line column items)
include h

theorem exists_first {kind : Kind} (hfirst : items.head? = some (some kind)) :
    ∃ first, tokens.head? = some first ∧ first.range.start = ⟨line, column⟩ := by
  obtain ⟨more, rfl⟩ := List.head?_eq_some_iff.mp hfirst
  obtain ⟨first, rest, rfl, hplace, -⟩ := List.map_eq_cons_iff.mp h
  exact ⟨first, rfl, congrArg (·.2.start) hplace⟩

theorem exists_last {kind : Kind} (hlast : items.getLast? = some (some kind)) :
    ∃ last, tokens.getLast? = some last ∧
      last.range.stop = ⟨line, column + (laidOut items).length⟩ := by
  obtain ⟨front, rfl⟩ := List.getLast?_eq_some_iff.mp hlast
  rw [Token.places_append] at h
  obtain ⟨before, behind, rfl, -, hbehind⟩ := List.map_eq_append_iff.mp h
  obtain ⟨last, rest, rfl, hplace, hrest⟩ := List.map_eq_cons_iff.mp hbehind
  obtain rfl := List.map_eq_nil_iff.mp hrest
  refine ⟨last, List.getLast?_concat, (congrArg (·.2.stop) hplace).trans ?_⟩
  have hwidth : (laidOut (front ++ [some kind])).length
      = (laidOut front).length + kind.characters.length := by
    rw [Token.laidOut_append, List.length_append]
    congr 2
    exact List.append_nil _
  rw [hwidth, ← Nat.add_assoc]

end Places

theorem Begins.exists_kind {item : Option Kind} (h : Begins item) : ∃ kind, item = some kind := by
  rcases h with rfl | rfl | ⟨kind, rfl, -⟩ <;> exact ⟨_, rfl⟩

theorem Ends.exists_kind {item : Option Kind} (h : Ends item) : ∃ kind, item = some kind := by
  rcases h with rfl | ⟨kind, rfl, -⟩ <;> exact ⟨_, rfl⟩

/-- A node with children within its own text reaches no further. -/
theorem close_eq_of_bounds {s : State} {m : Mark} {range : Range} (hown : s.own m = range)
    (kind : Node.Kind) (payload : Payload) {children : List Node}
    (h : ∀ node ∈ children, range.start ≤ node.range.start ∧ node.range.stop ≤ range.stop) :
    s.close m kind payload children = ⟨kind, range, payload, children⟩ := by
  cases children with
  | nil => rw [State.close_childless, hown]
  | cons first rest =>
      obtain ⟨last, hlast⟩ : ∃ last, (first :: rest).getLast? = some last := ⟨_, List.getLast?_cons⟩
      have hfirst := h first List.mem_cons_self
      have hend := h last (List.mem_of_getLast? hlast)
      have hrange : (s.close m kind payload (first :: rest)).range
          = ((s.own m).cover first.range).cover last.range := State.close_range rfl hlast
      rw [hown, Range.cover_eq_left hfirst.1 hfirst.2, Range.cover_eq_left hend.1 hend.2] at hrange
      rw [← hrange]
      rfl

mutual

/-- A type whose spelling is next is read as the node at the columns of the spelling. -/
theorem nodeAt_eq_located : ∀ (T : TypeName) {h : State} {line column : Nat}
    {more : List (Kind × Range)}, h.pending.map place = places line column T.items ++ more →
      T.nodeAt h = T.located line column
  | mk isOptional head arguments, h, line, column, more, hplaces => by
      obtain ⟨tokens, rest, hpending, htokens, hrest⟩ := List.map_eq_append_iff.mp hplaces
      have hpart := isPart_items (mk isOptional head arguments)
      have hlength : tokens.length = (mk isOptional head arguments).kinds.length := by
        rw [← tokensOf_items, ← length_places line column, ← htokens, List.length_map]
      obtain ⟨first, hfirst, hstart⟩ : ∃ first, tokens.head? = some first ∧
          first.range.start = ⟨line, column⟩ := by
        obtain ⟨item, items, hitems⟩ := List.exists_cons_of_ne_nil hpart.ne_nil
        have hhead := congrArg List.head? hitems
        obtain ⟨kind, rfl⟩ := (hpart.begins item hhead).exists_kind
        exact exists_first htokens hhead
      obtain ⟨last, hlast, hstop⟩ : ∃ last, tokens.getLast? = some last ∧ last.range.stop
          = ⟨line, column + (laidOut (mk isOptional head arguments).items).length⟩ := by
        have hend := List.getLast?_eq_some_getLast hpart.ne_nil
        obtain ⟨kind, hkind⟩ := (hpart.ends _ hend).exists_kind
        rw [hkind] at hend
        exact exists_last htokens hend
      have hown := State.own_advanceMany hpending hfirst hlast
      rw [hstart, hstop, hlength, length_laidOut_items] at hown
      have hchildren : nodesAt arguments
          (h.advanceMany ((starKinds isOptional).length + head.kinds.length + 1))
          = locatedEach arguments line
            (column + (if isOptional then 1 else 0) + head.text.length + 1) := by
        cases arguments with
        | nil => rfl
        | cons T others =>
            have hne : itemsEach (T :: others) ≠ [] := List.cons_ne_nil _ _
            rw [items, bracketedItems_eq hne, Token.places_append, length_laidOut_name,
              List.append_assoc] at hplaces
            have hname : (places line column
                ((starKinds isOptional ++ head.kinds).map some)).length
                  = (starKinds isOptional).length + head.kinds.length := by
              rw [length_places, tokensOf_map_some, List.length_append]
            have hbehind : (h.advanceMany
                ((starKinds isOptional).length + head.kinds.length + 1)).pending.map place
                = places line (column + (if isOptional then 1 else 0) + head.text.length + 1)
                  ([some (.symbol .comma), none].intercalate (itemsEach (T :: others))
                    ++ [some (.symbol .gt)]) ++ more := by
              rw [State.advanceMany_pending, List.map_drop, hplaces, ← hname, ← List.drop_drop,
                List.drop_left, ← Nat.add_assoc]
              rfl
            rw [Token.places_append, List.append_assoc] at hbehind
            exact nodesAt_eq_locatedEach (T :: others) hbehind
      rw [nodeAt, hchildren, located]
      refine close_eq_of_bounds hown _ _ fun node hmem => ?_
      have hne : arguments ≠ [] := by
        rintro rfl
        cases hmem
      have hbounds := bounds_of_mem_locatedEach hmem
      simp only [Position.le_iff] at hbounds ⊢
      rw [length_text hne]
      omega

theorem nodesAt_eq_locatedEach : ∀ (types : List TypeName) {h : State} {line column : Nat}
    {more : List (Kind × Range)}, h.pending.map place =
      places line column ([some (.symbol .comma), none].intercalate (itemsEach types)) ++ more →
        nodesAt types h = locatedEach types line column
  | [], _, _, _, _, _ => rfl
  | [T], h, line, column, more, hplaces => by
      rw [itemsEach, itemsEach, List.intercalate_singleton] at hplaces
      rw [nodesAt, nodesAt, locatedEach, locatedEach, nodeAt_eq_located T hplaces]
  | T :: U :: rest, h, line, column, more, hplaces => by
      rw [itemsEach, itemsEach, List.intercalate_cons_cons, ← itemsEach, List.append_assoc,
        Token.places_append, length_laidOut_items, List.append_assoc] at hplaces
      have hbehind : (h.advanceMany (T.kinds.length + 1)).pending.map place
          = places line (column + T.text.length + 2)
            ([some (.symbol .comma), none].intercalate (itemsEach (U :: rest))) ++ more := by
        have hlength : (places line column T.items).length = T.kinds.length := by
          rw [length_places, tokensOf_items]
        rw [State.advanceMany_pending, List.map_drop, hplaces, ← hlength, ← List.drop_drop,
          List.drop_left]
        rfl
      rw [nodesAt, locatedEach, nodeAt_eq_located T hplaces, nodesAt_eq_locatedEach _ hbehind]

end

end TypeName

end QoreSyntax
