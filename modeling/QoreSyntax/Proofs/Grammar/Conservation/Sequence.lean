import QoreSyntax.Proofs.Grammar.Conservation.Token

namespace QoreSyntax.Grammar.Conservation

open Grammar.Parser (Ensures)
open Node (literals)

variable {α : Type} {nested : Goal → State → Node × State} {item : Parser Node}

theorem continues_separatedStep (hitem : Keeps nested item ([·])) (o : State) (stop : State → Bool)
    (items : List Node) :
    Continues nested o items.reverse (separatedStep stop item items)
      fun step => step.value.reverse := by
  refine Continues.skip keeps_state fun s => Ensures.ite (fun _ => Continues.done rfl) fun _ => ?_
  refine Continues.node hitem fun node => Continues.skip (keeps_eat _) fun comma => ?_
  refine Ensures.ite (fun _ => Continues.done ?_) (fun _ => Continues.done ?_)
  · exact List.reverse_cons
  · exact List.reverse_cons

theorem Keeps.separated (hitem : Keeps nested item ([·])) (stop : State → Bool) :
    Keeps nested (separated stop item) id := by
  refine Continues.keeps fun o => Ensures.bind ?_ fun items => Continues.done rfl
  exact Ensures.loop (continues_separatedStep hitem o stop) []

theorem Keeps.commaList (hitem : Keeps nested item ([·])) : Keeps nested (commaList item) id :=
  hitem.separated fun _ => false

section Sequences

variable (hsound : Sound nested)
include hsound

/-- The parse recovers only where there is something to blame. -/
theorem keeps_settle : Keeps nested settle fun _ => [] := by
  refine Keeps.look fun o ho => Ensures.ite (fun hrecovering => ?_) (fun _ => ?_)
  · have hexcused : Excused o [] o := ⟨State.Carries.nil ho, ho.blamed hrecovering⟩
    exact ((ensures_excused hsound _).at_state hexcused).weaken fun _ _ hs => hs.1
  · exact (Keeps.done rfl).at_state ho

/-- A token is passed over only after a report. -/
theorem ensures_ensureProgress (o : State) (nodes : List Node) :
    Ensures nested (o.Carries (literals nodes)) (ensureProgress o)
      fun _ => o.Carries (literals nodes) := by
  refine Ensures.look fun s hs => Ensures.ite (fun _ => ?_)
    (fun _ => Ensures.at_state hs (Ensures.done fun _ ht => ht))
  have hpass : Ensures nested (Excused o nodes) (Grammar.advance >>= fun _ => Grammar.resume)
      fun _ => o.Carries (literals nodes) :=
    (ensures_excused hsound _).weaken fun _ _ ht => ht.1
  refine Ensures.ite (fun _ => ?_) (fun hother => ?_)
  · exact Ensures.at_state hs (Ensures.bind (ensures_report _) fun _ => hpass)
  · refine Ensures.at_state ⟨hs, Or.inl fun hnil => hother ?_⟩ hpass
    have hbefore := hs.passes.reported
    rw [hnil, List.suffix_nil] at hbefore
    rw [hnil, hbefore]
    rfl

theorem continues_sequenceStep (hitem : Keeps nested item ([·])) (o : State)
    (terminator : Terminator) (items : List Node) :
    Continues nested o items.reverse (sequenceStep terminator item items)
      fun step => step.value.reverse := by
  refine Continues.look fun before hbefore => ?_
  refine Ensures.ite (fun _ => (Continues.done rfl).at_state hbefore) fun _ => ?_
  refine Ensures.ite (fun _ => ?_) (fun _ => ?_)
  · refine Ensures.at_state hbefore (Ensures.bind (ensures_report _) fun _ => ?_)
    refine Ensures.bind (ensures_excused hsound _) fun _ => ?_
    refine Ensures.bind (ensures_excused hsound _) fun _ => ?_
    exact Ensures.done fun s hs => hs.1
  · refine Ensures.bind (hitem.at_state hbefore.honest) fun node => ?_
    refine Ensures.look fun after hafter => ?_
    have hread : before.Carries
        (literals (if before.consumed < after.consumed then [node] else [])) after := by
      split_ifs with htaken
      · exact hafter
      · have hconsumed := hafter.passes.upholds.reaches.consumed_le
        rw [hafter.kept_eq_nil (by omega)] at hafter
        exact hafter
    refine Ensures.at_state hread ?_
    refine Ensures.bind ((keeps_settle hsound).ensures before _) fun _ => ?_
    refine Ensures.bind (ensures_ensureProgress hsound before _) fun _ => ?_
    refine Ensures.done fun s hs => ?_
    have hall := hbefore.append hs
    rw [← Node.literals_append] at hall
    change o.Carries
      (literals (if before.consumed < after.consumed then node :: items else items).reverse) s
    split_ifs at hall ⊢
    · rwa [List.reverse_cons]
    · rwa [List.append_nil] at hall

theorem Keeps.sequence (hitem : Keeps nested item ([·])) (terminator : Terminator) :
    Keeps nested (sequence terminator item) id := by
  refine Continues.keeps fun o => Ensures.bind ?_ fun items => Continues.done rfl
  exact Ensures.loop (continues_sequenceStep hsound hitem o terminator) []

theorem Keeps.braced (hitem : Keeps nested item ([·])) : Keeps nested (braced item) id := by
  refine Continues.keeps fun o => ?_
  refine Continues.node (Keeps.sequence hsound hitem .brace) fun items => ?_
  exact Continues.skip (keeps_expect _) fun _ => Continues.done rfl

theorem keeps_block : Keeps nested block ([·]) := by
  refine Keeps.mark fun m => Keeps.skip (keeps_expect _) fun opened => Keeps.ite ?_ keeps_missing
  refine Continues.keeps fun o => Continues.node (Keeps.braced hsound (hsound _)) fun items => ?_
  exact Continues.close rfl rfl

end Sequences

end QoreSyntax.Grammar.Conservation
