import QoreSyntax.Proofs.Expression.Term
import QoreSyntax.Proofs.Grammar.Run
import QoreSyntax.Proofs.Token.Name

namespace QoreSyntax

open Grammar

namespace Grammar.State

/-- The second state comes after the first one by instructions of a parser. -/
inductive Leads : State → State → Prop where
  | refl (s : State) : Leads s s
  | advance {s t : State} (h : Leads s t) : Leads s t.advance
  | splitShift {s t : State} (h : Leads s t) : Leads s t.splitShift
  | report {s t : State} (problem : Problem) (h : Leads s t) : Leads s (t.report problem)
  | resume {s t : State} (h : Leads s t) : Leads s t.resume
  | nest {s t : State} (depth : Nat) (h : Leads s t) : Leads s { t with depth := depth }

theorem Leads.trans {s t u : State} (hst : s.Leads t) (htu : t.Leads u) : s.Leads u := by
  induction htu with
  | refl => exact hst
  | advance _ ih => exact ih.advance
  | splitShift _ ih => exact ih.splitShift
  | report problem _ ih => exact ih.report problem
  | resume _ ih => exact ih.resume
  | nest depth _ ih => exact ih.nest depth

/-- All states of a run come after the state in which it begins. -/
theorem isTrail_leads : IsTrail Leads where
  refl := Leads.refl
  trans := Leads.trans
  advance s := (Leads.refl s).advance
  splitShift s := (Leads.refl s).splitShift
  report problem s := (Leads.refl s).report problem
  resume s := (Leads.refl s).resume
  nest depth s := (Leads.refl s).nest depth

theorem Leads.reaches {s t : State} (h : s.Leads t) : s.Reaches t := by
  induction h with
  | refl => exact Reaches.refl s
  | advance _ ih => exact ih.trans (Reaches.advance _)
  | splitShift _ ih => exact ih.trans (Reaches.splitShift _)
  | report problem _ ih => exact ih.trans (Reaches.report problem _)
  | resume _ ih => exact ih.trans (Reaches.resume _)
  | nest depth _ ih => exact ih.trans (Reaches.nest depth _)

/-- The tokens ahead are the last ones of the others, but for a symbol `>>` whose second half may be
the first of them. -/
inductive LeavesOf (tokens : List Token) : List Token → Prop where
  | whole {passed rest : List Token} (h : tokens = passed ++ rest) : LeavesOf tokens rest
  | half {passed rest : List Token} {t : Token} (h : tokens = passed ++ t :: rest) :
      LeavesOf tokens (t.secondHalf :: rest)

theorem LeavesOf.tail {tokens rest : List Token} (h : LeavesOf tokens rest) :
    LeavesOf tokens rest.tail := by
  cases h with
  | @whole passed _ heq =>
      cases rest with
      | nil => exact .whole heq
      | cons t rest => exact .whole (heq.trans (List.append_cons passed t rest))
  | @half passed rest t heq => exact .whole (heq.trans (List.append_cons passed t rest))

theorem Leads.leavesOf {s t : State} (h : s.Leads t) : LeavesOf s.pending t.pending := by
  induction h with
  | refl => exact .whole (List.nil_append _).symm
  | @advance t _ ih =>
      rw [advance_pending]
      exact ih.tail
  | @splitShift t _ ih =>
      rcases splitShift_cases t with ⟨u, rest, hpending, hshr⟩ | hsame
      · rw [splitShift_of_shr hpending hshr]
        rw [hpending] at ih
        cases ih with
        | whole heq => exact .half heq
        | half heq => cases hshr
      · rwa [hsame]
  | report _ _ ih => exact ih
  | resume _ ih => exact ih
  | nest _ _ ih => exact ih

theorem Leads.isGenuine {text : List Char} {options : Options} {s : State}
    (h : (start text options).Leads s) : ∀ t ∈ s.pending, t.kind.IsGenuine := by
  have hall : ∀ t ∈ (start text options).pending, t.kind.IsGenuine := fun _ hmem =>
    Token.Stream.isGenuine_of_mem hmem
  intro t hmem
  generalize hrest : s.pending = rest at hmem
  have hleaves := hrest ▸ h.leavesOf
  cases hleaves with
  | whole heq => exact hall t (heq ▸ List.mem_append_right _ hmem)
  | half heq =>
      rcases List.mem_cons.mp hmem with rfl | hrest
      · trivial
      · exact hall t (heq ▸ List.mem_append_right _ (List.mem_cons_of_mem _ hrest))

end Grammar.State

theorem exists_identifier {t : Token} (hgenuine : t.kind.IsGenuine)
    (h : isIdentifier t.kind = true) : ∃ x : Identifier, t.kind = x.kind := by
  cases hkind : t.kind with
  | identifier name =>
      rw [hkind] at hgenuine
      exact ⟨⟨name, hgenuine.1, hgenuine.2⟩, rfl⟩
  | _ =>
      rw [hkind] at h
      cases h

end QoreSyntax
