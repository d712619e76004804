import QoreSyntax.Grammar.Variable
import QoreSyntax.Proofs.Grammar.Account

namespace QoreSyntax.Grammar.Account

open Grammar.Parser (Ensures)

variable {A : Account} {nested : Goal → State → Node × State} (h : A.Sound nested)
include h

omit h in
/-- Where no name of a type can be read, nothing is taken and a report is made. -/
theorem ensures_typeName? (o : State) :
    Ensures nested (fun s => s = o) typeName? fun name s =>
      name = none → ∃ problem, s = o.report problem := by
  have htaken : ∀ {α : Type} (parser : Parser α) (name : α → String),
      Ensures nested (fun s => s = o) (parser >>= fun value => pure (some (name value)))
        fun name s => name = none → ∃ problem, s = o.report problem :=
    fun parser name => Ensures.bind (Q := fun _ _ => True) (fun _ _ => trivial) fun _ =>
      Ensures.done fun _ _ => nofun
  have hmissed : Ensures nested (fun s => s = o)
      (reportExpected .typeName >>= fun _ => pure (none : Option String)) fun name s =>
        name = none → ∃ problem, s = o.report problem := by
    rintro s rfl _
    exact ⟨_, rfl⟩
  refine Ensures.look_at ?_
  split
  · exact htaken scopedName id
  · exact htaken scopedName id
  · exact Ensures.ite (fun _ => htaken Grammar.advance fun _ => _) (fun _ => hmissed)
  · exact hmissed

omit h in
theorem ensures_eat_miss (o : State) (symbol : Symbol) :
    Ensures nested (fun s => s = o) (eat symbol) fun eaten s => eaten = false → s = o := by
  refine Ensures.look_at (Ensures.ite (fun _ => ?_) (fun _ => Ensures.done fun _ hs _ => hs))
  exact Ensures.bind (Q := fun _ _ => True) (fun _ _ => trivial) fun _ =>
    Ensures.done fun _ _ => nofun

theorem lays_typeRule : A.Lays nested typeRule ([·]) := by
  refine Lays.mark_at fun o ho => ?_
  refine Ensures.bind (Q := fun star s => A.Holds o [] s ∧ (star = false → s = o)) ?_ fun star => ?_
  · rintro s rfl
    exact ⟨continues_silent h s [] (eat .star) s (A.nil ho), ensures_eat_miss s .star s rfl⟩
  refine Ensures.bind (Q := fun name s => A.Holds o [] s ∧
    (name = none → A.Excuses s ∧ (star = false → s.consumed = o.consumed))) ?_ fun name => ?_
  · rintro s ⟨hs, hsame⟩
    refine ⟨continues_silent h o [] typeName? s hs, fun hnone => ?_⟩
    obtain ⟨problem, hreport⟩ := ensures_typeName? s s rfl hnone
    rw [hreport]
    exact ⟨(excused_report hs problem).2, fun hstar => by rw [hsame hstar, State.report_consumed]⟩
  cases name with
  | none =>
      cases star with
      | true => exact (Continues.close rfl rfl rfl).strengthen fun _ hs => hs.1
      | false => exact fun s hs => A.close_missing _ hs.1 ((hs.2 rfl).2 rfl) (hs.2 rfl).1
  | some name =>
      refine Ensures.strengthen ?_ fun _ hs => hs.1
      refine Continues.skip h fun opened => Ensures.ite (fun _ => ?_) (fun _ => ?_)
      · refine Continues.node (Lays.commaList h (lays_call h _)) fun arguments => ?_
        refine Continues.skip h fun closed => ?_
        exact Continues.close rfl rfl rfl
      · exact Continues.close rfl rfl rfl

theorem lays_initialiser : A.Lays nested initialiser id := by
  refine Lays.skip h fun found => ?_
  exact Lays.optionally (Lays.single (lays_call h _)) found

theorem lays_parameter : A.Lays nested parameter ([·]) := by
  refine Lays.mark fun o => ?_
  refine Continues.skip h fun ellipsis => Ensures.ite (fun _ => ?_) (fun _ => ?_)
  · exact Continues.close rfl rfl rfl
  · refine Continues.skip h fun s => ?_
    refine Continues.node (Lays.optionally (Lays.single (lays_call h _)) _) fun types => ?_
    refine Continues.skip h fun name => ?_
    refine Continues.node (lays_initialiser h) fun value => ?_
    exact Continues.close rfl rfl rfl

theorem lays_parameters : A.Lays nested parameters ([·]) := by
  refine Lays.mark fun o => ?_
  refine Continues.skip h fun opened => Ensures.ite (fun _ => ?_) (fun _ => ?_)
  · refine Continues.skip h fun s => ?_
    have hitems := Lays.commaList h (lays_parameter h)
    refine Continues.node (Lays.optionally hitems _) fun items => ?_
    refine Continues.skip h fun _ => ?_
    exact Continues.close rfl rfl rfl
  · exact Continues.close rfl rfl rfl

theorem lays_arguments : A.Lays nested arguments ([·]) := by
  refine Lays.mark fun o => ?_
  refine Continues.skip h fun opened => Ensures.ite (fun _ => ?_) (fun _ => ?_)
  · refine Continues.node (Lays.separated h (lays_call h _) _) fun items => ?_
    refine Continues.skip h fun _ => ?_
    exact Continues.close rfl rfl rfl
  · exact Continues.close rfl rfl rfl

theorem lays_resultType : A.Lays nested resultType id := by
  refine Lays.skip h fun found => ?_
  exact Lays.optionally (Lays.single (lays_call h _)) found

theorem lays_braced {item : Parser Node} (hitem : A.Lays nested item ([·])) :
    A.Lays nested (braced item) id := by
  refine Continues.lays fun o => ?_
  refine Continues.node (Lays.sequence h hitem .brace) fun items => ?_
  refine Continues.skip h fun _ => ?_
  exact Continues.done rfl

theorem lays_block : A.Lays nested block ([·]) := by
  refine Lays.mark fun o => ?_
  refine Continues.expect h ?_ ?_
  · refine Continues.node (lays_braced h (lays_call h _)) fun items => ?_
    exact Continues.close rfl rfl rfl
  · exact excused_missing

theorem lays_variableType : A.Lays nested variableType id := by
  refine Lays.skip h fun s => ?_
  exact Lays.optionally (Lays.single (lays_call h _)) _

theorem lays_variableModifier : A.Lays nested variableModifier id := by
  refine Lays.skip h fun s => ?_
  split
  · refine Lays.ite ?_ (Lays.done rfl)
    refine Lays.mark fun o => ?_
    refine Continues.skip h fun _ => ?_
    refine Ensures.bind (Continues.close rfl rfl rfl) fun node => ?_
    exact Continues.done rfl
  · exact Lays.done rfl

theorem lays_declarator : A.Lays nested declarator ([·]) := by
  refine Lays.mark fun o => ?_
  refine Continues.node (lays_variableType h) fun types => ?_
  refine Continues.skip h fun name => ?_
  exact Continues.close rfl rfl rfl

theorem lays_declaratorList : A.Lays nested declaratorList id := by
  refine Lays.skip h fun _ => Continues.lays fun o => ?_
  refine Continues.node (Lays.commaList h (lays_declarator h)) fun items => ?_
  refine Continues.skip h fun _ => ?_
  exact Continues.done rfl

theorem lays_declared : A.Lays nested declared Prod.snd := by
  refine Lays.skip h fun s => Lays.ite ?_ ?_
  · refine Continues.lays fun o => ?_
    refine Continues.node (lays_declaratorList h) fun items => ?_
    exact Continues.done rfl
  · refine Continues.lays fun o => ?_
    refine Continues.node (lays_variableType h) fun types => ?_
    refine Continues.skip h fun name => ?_
    exact Continues.done rfl

theorem lays_variableDeclaration (isStatement : Bool) :
    A.Lays nested (variableDeclaration isStatement) ([·]) := by
  refine Lays.mark fun o => ?_
  refine Continues.node (lays_variableModifier h) fun modifier => ?_
  refine Continues.node (lays_declared h) fun parts => ?_
  refine Continues.node (lays_initialiser h) fun value => ?_
  refine Continues.skip h fun _ => ?_
  exact Continues.close rfl rfl rfl

end QoreSyntax.Grammar.Account
