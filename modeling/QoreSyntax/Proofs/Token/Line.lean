import QoreSyntax.Proofs.Token.Layout

namespace QoreSyntax.Token

/-- The tokens with a blank between two of them. -/
def spaced (kinds : List Kind) : List (Option Kind) :=
  (kinds.map some).intersperse none

theorem spaced_cons_cons (kind next : Kind) (kinds : List Kind) :
    spaced (kind :: next :: kinds) = some kind :: none :: spaced (next :: kinds) :=
  rfl

theorem filterMap_spaced (kinds : List Kind) : (spaced kinds).filterMap id = kinds := by
  induction kinds with
  | nil => rfl
  | cons kind kinds ih =>
      cases kinds with
      | nil => rfl
      | cons next kinds =>
          rw [spaced_cons_cons]
          exact congrArg (kind :: ·) ih

theorem mem_of_some_mem_spaced {kinds : List Kind} {kind : Kind} (h : some kind ∈ spaced kinds) :
    kind ∈ kinds := by
  have hmem : kind ∈ (spaced kinds).filterMap id := List.mem_filterMap.mpr ⟨some kind, h, rfl⟩
  rwa [filterMap_spaced] at hmem

theorem Kind.IsPlain.spelling?_eq {kind : Kind} (h : kind.IsPlain) :
    kind.spelling? = some kind.characters := by
  obtain ⟨chars, hspelling, -⟩ := h.exists_lexes
  rw [characters, hspelling, Option.getD_some]

/-- Tokens that are written are laid out with blanks between them. -/
theorem laidOut_spaced {kinds : List Kind} (h : ∀ kind ∈ kinds, kind.IsPlain) :
    laidOut (spaced kinds) = written kinds := by
  induction kinds with
  | nil => rfl
  | cons kind kinds ih =>
      obtain ⟨hkind, hkinds⟩ := List.forall_mem_cons.mp h
      have hspelling := hkind.spelling?_eq
      cases kinds with
      | nil =>
          rw [written, List.filterMap_cons_some hspelling, List.filterMap_nil,
            List.intercalate_singleton]
          exact List.append_nil kind.characters
      | cons next kinds =>
          have hnext := (hkinds next List.mem_cons_self).spelling?_eq
          have hrest := ih hkinds
          rw [written, List.filterMap_cons_some hnext] at hrest
          rw [written, List.filterMap_cons_some hspelling, List.filterMap_cons_some hnext,
            List.intercalate_cons_cons, ← hrest, List.append_assoc]
          rfl

theorem isChain_spaced {kinds : List Kind} {last : Kind}
    (h : ∀ kind ∈ kinds.getLast?, MayFollow (some kind) (some last)) :
    (spaced kinds ++ [some last]).IsChain MayFollow := by
  induction kinds with
  | nil => exact List.isChain_singleton _
  | cons kind kinds ih =>
      cases kinds with
      | nil => exact List.isChain_cons_cons.mpr ⟨h kind rfl, List.isChain_singleton _⟩
      | cons next kinds =>
          have hrest := ih fun last hlast => h last (by rwa [List.getLast?_cons_cons])
          rw [spaced_cons_cons, List.cons_append, List.cons_append]
          refine List.isChain_cons_cons.mpr ⟨trivial, List.isChain_cons.mpr ⟨?_, hrest⟩⟩
          intro item hitem
          cases kinds <;> cases hitem <;> rfl

/-- The tokens of a line are read back with the semicolon behind them. -/
theorem Stream.kinds_ofText_line {kinds : List Kind} (hplain : ∀ kind ∈ kinds, kind.IsPlain)
    (hchain : kinds.IsChain fun k l => k.isMatch = true → l.beginsWithSlash = false)
    (hlast : ∀ kind ∈ kinds.getLast?, kind.endsBefore ';' = true) (line : Nat) :
    (ofText (written kinds ++ [';']) line).tokens.map Token.kind
      = kinds ++ [.symbol .semicolon] := by
  have htext : laidOut (spaced kinds ++ [some (Kind.symbol .semicolon)])
      = written kinds ++ [';'] := by
    rw [laidOut_append, laidOut_spaced hplain]
    rfl
  have hkinds : (spaced kinds ++ [some (Kind.symbol .semicolon)]).filterMap id
      = kinds ++ [.symbol .semicolon] := by
    rw [List.filterMap_append, filterMap_spaced]
    rfl
  have hfollow : (spaced kinds ++ [some (Kind.symbol .semicolon)]).IsChain MayFollow :=
    isChain_spaced fun kind hkind => by
      rintro c ⟨⟩
      exact hlast kind hkind
  have hread := places_ofText ?_ hfollow ?_ line
  · rw [htext] at hread
    rw [← hkinds, ← map_fst_places (max line 1) 1, ← hread, List.map_map]
    rfl
  · intro kind hmem
    rcases List.mem_append.mp hmem with hmem | hmem
    · exact hplain kind (mem_of_some_mem_spaced hmem)
    · obtain rfl := Option.some.inj (List.mem_singleton.mp hmem)
      trivial
  · rw [hkinds]
    refine List.isChain_append.mpr ⟨hchain, List.isChain_singleton _, ?_⟩
    rintro k - l ⟨⟩ -
    rfl

end QoreSyntax.Token
