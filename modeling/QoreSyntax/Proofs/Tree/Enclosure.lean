import QoreSyntax.Proofs.Node.Preorder
import QoreSyntax.Proofs.Source.Order
import QoreSyntax.Tree.Check

namespace QoreSyntax

namespace Node

mutual

/-- No range ends before it starts, and the children of every node stand in it one after the
other. -/
def WellFormed : Node → Prop
  | ⟨_, range, _, children⟩ =>
      range.start ≤ range.stop ∧ WellPlaced children range.start range.stop

/-- The trees stand one after the other between the positions and are well formed. -/
def WellPlaced : List Node → Position → Position → Prop
  | [], p, q => p ≤ q
  | node :: rest, p, q =>
      p ≤ node.range.start ∧ node.WellFormed ∧ WellPlaced rest node.range.stop q

end

theorem wellFormed_iff {node : Node} :
    node.WellFormed ↔ node.range.start ≤ node.range.stop ∧
      WellPlaced node.children node.range.start node.range.stop := by
  cases node
  rfl

theorem WellFormed.start_le_stop {node : Node} (h : node.WellFormed) :
    node.range.start ≤ node.range.stop :=
  (wellFormed_iff.mp h).1

theorem WellFormed.children {node : Node} (h : node.WellFormed) :
    WellPlaced node.children node.range.start node.range.stop :=
  (wellFormed_iff.mp h).2

theorem WellPlaced.le {nodes : List Node} {p q : Position} (h : WellPlaced nodes p q) :
    p ≤ q := by
  induction nodes generalizing p with
  | nil => exact h
  | cons node rest ih =>
      obtain ⟨hstart, hnode, hrest⟩ := h
      exact hstart.trans (hnode.start_le_stop.trans (ih hrest))

theorem WellPlaced.widen {nodes : List Node} {p p' q q' : Position} (h : WellPlaced nodes p q)
    (hp : p' ≤ p) (hq : q ≤ q') : WellPlaced nodes p' q' := by
  induction nodes generalizing p p' with
  | nil => exact hp.trans (le_trans h hq)
  | cons node rest ih =>
      obtain ⟨hstart, hnode, hrest⟩ := h
      exact ⟨hp.trans hstart, hnode, ih hrest le_rfl⟩

theorem WellPlaced.append {nodes rest : List Node} {p q r : Position}
    (h : WellPlaced nodes p q) (hrest : WellPlaced rest q r) :
    WellPlaced (nodes ++ rest) p r := by
  induction nodes generalizing p with
  | nil => exact hrest.widen h le_rfl
  | cons node nodes ih =>
      obtain ⟨hstart, hnode, hnodes⟩ := h
      exact ⟨hstart, hnode, ih hnodes⟩

theorem WellPlaced.of_append {nodes rest : List Node} {p r : Position}
    (h : WellPlaced (nodes ++ rest) p r) :
    ∃ q, WellPlaced nodes p q ∧ WellPlaced rest q r := by
  induction nodes generalizing p with
  | nil => exact ⟨p, le_rfl, h⟩
  | cons node nodes ih =>
      obtain ⟨hstart, hnode, hnodes⟩ := h
      obtain ⟨q, hleft, hright⟩ := ih hnodes
      exact ⟨q, ⟨hstart, hnode, hleft⟩, hright⟩

theorem wellPlaced_singleton {node : Node} {p q : Position} :
    WellPlaced [node] p q ↔
      p ≤ node.range.start ∧ node.WellFormed ∧ node.range.stop ≤ q :=
  Iff.rfl

/-- Each of the trees stands between the positions. -/
theorem WellPlaced.mem {nodes : List Node} {p q : Position} (h : WellPlaced nodes p q)
    {node : Node} (hmem : node ∈ nodes) :
    p ≤ node.range.start ∧ node.WellFormed ∧ node.range.stop ≤ q := by
  obtain ⟨left, right, rfl⟩ := List.append_of_mem hmem
  obtain ⟨r, hleft, hstart, hnode, hright⟩ := h.of_append
  exact ⟨hleft.le.trans hstart, hnode, hright.le⟩

/-- Of two of the trees the left one ends before the right one starts. -/
theorem WellPlaced.pairwise {nodes : List Node} {p q : Position} (h : WellPlaced nodes p q) :
    nodes.Pairwise fun left right => left.range.stop ≤ right.range.start := by
  induction nodes generalizing p with
  | nil => exact List.Pairwise.nil
  | cons node rest ih =>
      obtain ⟨_, _, hrest⟩ := h
      exact List.Pairwise.cons (fun right hmem => (hrest.mem hmem).1) (ih hrest)

/-- How far the trees reach is a matter of the first and the last of them. -/
theorem WellPlaced.narrow {first last : Node} {rest : List Node} {p p' q q' : Position}
    (h : WellPlaced (first :: rest) p q) (hlast : (first :: rest).getLast? = some last)
    (hp : p' ≤ first.range.start) (hq : last.range.stop ≤ q') :
    WellPlaced (first :: rest) p' q' := by
  induction rest generalizing first p p' with
  | nil =>
      obtain rfl : first = last := Option.some.inj hlast
      exact ⟨hp, h.2.1, hq⟩
  | cons second rest ih =>
      obtain ⟨_, hfirst, hrest⟩ := h
      rw [List.getLast?_cons_cons] at hlast
      exact ⟨hp, hfirst, ih hrest hlast hrest.1⟩

mutual

/-- Every node below a well-formed one is well formed and lies in it. -/
theorem WellFormed.mem_preorder : (root : Node) → root.WellFormed → ∀ node ∈ root.preorder,
    node.WellFormed ∧ root.range.start ≤ node.range.start ∧ node.range.stop ≤ root.range.stop
  | ⟨kind, range, payload, children⟩, hroot, node, hmem => by
      rcases List.mem_cons.mp hmem with rfl | hbelow
      · exact ⟨hroot, le_rfl, le_rfl⟩
      · exact WellPlaced.mem_preorders children hroot.children node hbelow

theorem WellPlaced.mem_preorders : (nodes : List Node) → {p q : Position} →
    WellPlaced nodes p q → ∀ node ∈ preorders nodes,
    node.WellFormed ∧ p ≤ node.range.start ∧ node.range.stop ≤ q
  | [], _, _, _, node, hmem => by simp at hmem
  | root :: rest, p, q, ⟨hstart, hroot, hrest⟩, node, hmem => by
      rcases List.mem_append.mp hmem with hmem | hmem
      · obtain ⟨hnode, hleft, hright⟩ := WellFormed.mem_preorder root hroot node hmem
        exact ⟨hnode, hstart.trans hleft, hright.trans hrest.le⟩
      · obtain ⟨hnode, hleft, hright⟩ := WellPlaced.mem_preorders rest hrest node hmem
        exact ⟨hnode, hstart.trans (hroot.start_le_stop.trans hleft), hright⟩

end

end Node

namespace Tree

open Node

theorem overlap?_cons_cons (first second : Node) (rest : List Node) :
    overlap? (first :: second :: rest) = none ↔
      first.range.stop ≤ second.range.start ∧ overlap? (second :: rest) = none := by
  rw [overlap?]
  split_ifs with h
  · simp [not_le.mpr h]
  · simp [not_lt.mp h]

theorem WellPlaced.overlap?_eq_none {nodes : List Node} {p q : Position}
    (h : WellPlaced nodes p q) : overlap? nodes = none := by
  induction nodes generalizing p with
  | nil => rfl
  | cons first rest ih =>
      cases rest with
      | nil => rfl
      | cons second rest =>
          obtain ⟨_, _, hrest⟩ := h
          exact (overlap?_cons_cons ..).mpr ⟨hrest.1, ih hrest⟩

/-- Well-formed trees of which no neighbours overlap stand one after the other. -/
theorem wellPlaced_of_overlap?_eq_none {nodes : List Node} {p q : Position} (hpq : p ≤ q)
    (hformed : ∀ node ∈ nodes, node.WellFormed)
    (hstart : ∀ node ∈ nodes.head?, p ≤ node.range.start)
    (hstop : ∀ node ∈ nodes, node.range.stop ≤ q) (hoverlap : overlap? nodes = none) :
    WellPlaced nodes p q := by
  induction nodes generalizing p with
  | nil => exact hpq
  | cons first rest ih =>
      refine ⟨hstart first rfl, hformed first List.mem_cons_self, ?_⟩
      apply ih (hstop first List.mem_cons_self)
      · exact fun node hmem => hformed node (List.mem_cons_of_mem _ hmem)
      · intro second hsecond
        obtain ⟨rest, rfl⟩ := List.head?_eq_some_iff.mp hsecond
        exact ((overlap?_cons_cons ..).mp hoverlap).1
      · exact fun node hmem => hstop node (List.mem_cons_of_mem _ hmem)
      · cases rest with
        | nil => rfl
        | cons second rest => exact ((overlap?_cons_cons ..).mp hoverlap).2

/-- What the check of one node says about it and its children. -/
theorem faultAt?_eq_none_iff {node : Node} :
    faultAt? node = none ↔ node.range.start ≤ node.range.stop ∧
      (∀ child ∈ node.children, node.range.start ≤ child.range.start ∧
        child.range.stop ≤ node.range.stop) ∧ overlap? node.children = none := by
  rw [faultAt?]
  split_ifs with hinverted
  · simp [not_le.mpr hinverted]
  · have hle := not_lt.mp hinverted
    split
    · rename_i child hchild
      have hmem := List.mem_of_find?_eq_some hchild
      have houtside := List.find?_some hchild
      simp only [reduceCtorEq, false_iff, not_and]
      rintro - hinside
      have := Range.encloses_iff.mpr (hinside child hmem)
      simp [this] at houtside
    · rename_i hinside
      simp only [List.find?_eq_none, Bool.not_eq_true', Bool.not_eq_false] at hinside
      simp only [Option.map_eq_none_iff, hle, true_and]
      exact ⟨fun h => ⟨fun child hmem => Range.encloses_iff.mp (hinside child hmem), h⟩,
        fun h => h.2⟩

mutual

theorem wellFormed_of_faultAt? : (root : Node) →
    (∀ node ∈ root.preorder, faultAt? node = none) → root.WellFormed
  | ⟨kind, range, payload, children⟩, h => by
      obtain ⟨hle, hinside, hoverlap⟩ := faultAt?_eq_none_iff.mp (h _ (self_mem_preorder _))
      refine ⟨hle, wellPlaced_of_overlap?_eq_none hle ?_ ?_ ?_ hoverlap⟩
      · apply wellFormed_of_faultAt?_preorders
        exact fun node hmem => h node (List.mem_cons_of_mem _ hmem)
      · exact fun child hchild => (hinside child (List.mem_of_mem_head? hchild)).1
      · exact fun child hchild => (hinside child hchild).2

theorem wellFormed_of_faultAt?_preorders : (nodes : List Node) →
    (∀ node ∈ preorders nodes, faultAt? node = none) → ∀ root ∈ nodes, root.WellFormed
  | [], _, _, hmem => by simp at hmem
  | first :: rest, h, root, hmem => by
      rcases List.mem_cons.mp hmem with heq | hmem
      · rw [heq]
        apply wellFormed_of_faultAt? first
        exact fun node hnode => h node (List.mem_append_left _ hnode)
      · apply wellFormed_of_faultAt?_preorders rest _ root hmem
        exact fun node hnode => h node (List.mem_append_right _ hnode)

end

theorem WellFormed.faultAt?_eq_none {node : Node} (h : node.WellFormed) :
    faultAt? node = none :=
  faultAt?_eq_none_iff.mpr ⟨h.start_le_stop,
    fun _ hmem => ⟨(h.children.mem hmem).1, (h.children.mem hmem).2.2⟩,
    WellPlaced.overlap?_eq_none h.children⟩

/-- A tree passes the check when its root is well formed. -/
theorem isWellFormed_iff {root : Node} :
    (⟨some root⟩ : Tree).isWellFormed = true ↔ root.WellFormed := by
  have hwalk : (⟨some root⟩ : Tree).walk = root.preorder := walk_eq_preorder root
  rw [isWellFormed, Option.isNone_iff_eq_none, fault?, hwalk, List.findSome?_eq_none_iff]
  constructor
  · exact wellFormed_of_faultAt? root
  · intro hroot node hmem
    exact WellFormed.faultAt?_eq_none (hroot.mem_preorder root node hmem).1

theorem isWellFormed_empty : empty.isWellFormed = true :=
  rfl

end Tree

end QoreSyntax
