import QoreSyntax.Proofs.Token.Written

/-!
Token lists that can be written and read back, and how larger ones are made of smaller ones. Only a
match operator restricts what is written behind it, since a slash would begin a regular expression
there; lists that begin with no slash can be put one behind the other.
-/

namespace QoreSyntax.Token

/-- The tokens are read back when they are written. -/
structure Legible (kinds : List Kind) : Prop where
  plain : ∀ kind ∈ kinds, kind.IsPlain
  chain : kinds.IsChain fun k l => k.isMatch = true → l.beginsWithSlash = false

theorem Legible.nil : Legible [] :=
  ⟨fun _ hmem => absurd hmem List.not_mem_nil, List.isChain_nil⟩

theorem Legible.cons {kind : Kind} {kinds : List Kind} (hplain : kind.IsPlain)
    (hslash : kind.isMatch = true → ∀ next ∈ kinds.head?, next.beginsWithSlash = false)
    (h : Legible kinds) : Legible (kind :: kinds) :=
  ⟨List.forall_mem_cons.mpr ⟨hplain, h.plain⟩,
    List.isChain_cons.mpr ⟨fun next hnext hmatch => hslash hmatch next hnext, h.chain⟩⟩

/-- Any token can follow one that is no match operator. -/
theorem Legible.cons_of_isMatch_eq {kind : Kind} {kinds : List Kind} (hplain : kind.IsPlain)
    (hmatch : kind.isMatch = false) (h : Legible kinds) : Legible (kind :: kinds) :=
  h.cons hplain fun htrue => Bool.noConfusion (hmatch.symm.trans htrue)

theorem Legible.symbol {kinds : List Kind} (h : Legible kinds) (mark : Symbol)
    (hmatch : (Kind.symbol mark).isMatch = false) : Legible (.symbol mark :: kinds) :=
  h.cons_of_isMatch_eq trivial hmatch

/-- The tokens are read back when they are written, whatever is written before them. -/
structure Portable (kinds : List Kind) : Prop extends Legible kinds where
  beginsWithSlash_eq : ∀ next ∈ kinds.head?, next.beginsWithSlash = false

/-- The tokens of several items, with a comma between two of them. -/
def commas (items : List (List Kind)) : List Kind :=
  [.symbol .comma].intercalate items

theorem commas_singleton (item : List Kind) : commas [item] = item :=
  List.intercalate_singleton

theorem commas_cons_cons (item next : List Kind) (items : List (List Kind)) :
    commas (item :: next :: items) = item ++ .symbol .comma :: commas (next :: items) := by
  rw [commas, List.intercalate_cons_cons, List.append_assoc]
  rfl

/-- A list begins with its first item. -/
theorem exists_commas_cons (item : List Kind) (items : List (List Kind)) :
    ∃ tail, commas (item :: items) = item ++ tail := by
  cases items with
  | nil => exact ⟨[], (commas_singleton item).trans (List.append_nil item).symm⟩
  | cons next items => exact ⟨_, commas_cons_cons item next items⟩

theorem length_le_commas {item : List Kind} {items : List (List Kind)} (h : item ∈ items) :
    item.length ≤ (commas items).length := by
  induction items with
  | nil => cases h
  | cons first items ih =>
      cases items with
      | nil =>
          obtain rfl := List.mem_singleton.mp h
          rw [commas_singleton]
      | cons next items =>
          rw [commas_cons_cons, List.length_append, List.length_cons]
          rcases List.mem_cons.mp h with rfl | hmem
          · omega
          · have hrest := ih hmem
            omega

theorem length_le_flatten {item : List Kind} {items : List (List Kind)} (h : item ∈ items) :
    item.length ≤ items.flatten.length :=
  (List.sublist_flatten_of_mem h).length_le

namespace Portable

variable {kind : Kind} {kinds more : List Kind}

theorem nil : Portable [] :=
  ⟨Legible.nil, fun _ hnext => nomatch hnext⟩

theorem append (h : Portable kinds) (hmore : Portable more) : Portable (kinds ++ more) := by
  refine ⟨⟨?_, ?_⟩, ?_⟩
  · intro kind hmem
    rcases List.mem_append.mp hmem with hmem | hmem
    · exact h.plain kind hmem
    · exact hmore.plain kind hmem
  · refine List.isChain_append.mpr ⟨h.chain, hmore.chain, ?_⟩
    intro last _ next hnext _
    exact hmore.beginsWithSlash_eq next hnext
  · intro next hnext
    cases kinds with
    | nil => exact hmore.beginsWithSlash_eq next hnext
    | cons kind kinds => exact h.beginsWithSlash_eq next hnext

theorem singleton (hplain : kind.IsPlain) (hslash : kind.beginsWithSlash = false) :
    Portable [kind] := by
  refine ⟨Legible.nil.cons hplain ?_, ?_⟩
  · intro _ next hnext
    cases hnext
  · intro next hnext
    obtain rfl := Option.some.inj hnext
    exact hslash

theorem cons (hplain : kind.IsPlain) (hslash : kind.beginsWithSlash = false)
    (h : Portable kinds) : Portable (kind :: kinds) :=
  (singleton hplain hslash).append h

theorem keyword (word : Keyword) (h : Portable kinds) : Portable (.keyword word :: kinds) :=
  h.cons trivial rfl

theorem symbol (mark : Symbol) (h : Portable kinds)
    (hslash : (Kind.symbol mark).beginsWithSlash = false) : Portable (.symbol mark :: kinds) :=
  h.cons trivial hslash

theorem flatten {items : List (List Kind)} (h : ∀ item ∈ items, Portable item) :
    Portable items.flatten := by
  induction items with
  | nil => exact nil
  | cons item items ih =>
      obtain ⟨hitem, hitems⟩ := List.forall_mem_cons.mp h
      exact hitem.append (ih hitems)

theorem commas {items : List (List Kind)} (h : ∀ item ∈ items, Portable item) :
    Portable (Token.commas items) := by
  induction items with
  | nil => exact nil
  | cons item items ih =>
      obtain ⟨hitem, hitems⟩ := List.forall_mem_cons.mp h
      cases items with
      | nil => rwa [commas_singleton]
      | cons next items =>
          rw [commas_cons_cons]
          exact hitem.append ((ih hitems).symbol .comma rfl)

theorem of_map {α : Type} {kinds : α → List Kind} (h : ∀ x, Portable (kinds x)) (items : List α) :
    ∀ item ∈ items.map kinds, Portable item :=
  List.forall_mem_map.mpr fun x _ => h x

end Portable

end QoreSyntax.Token
