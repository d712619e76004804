import QoreSyntax.Proofs.Grammar.Reading.Items
import QoreSyntax.Proofs.Grammar.Root

namespace QoreSyntax

open Grammar.Parser (Reads ReadsUpTo)
open Token (Kind Portable)

namespace Grammar

/-- Before a parse the tokens that have been written are ahead. -/
theorem clear_start {kinds : List Kind} (h : Token.Legible kinds) (options : Options) :
    (start (Token.written kinds) options).Clear kinds 0 :=
  ⟨Token.Stream.kinds_ofText_written h.plain h.chain _, Token.Stream.isEof_ofText_final _ _, rfl,
    rfl, rfl⟩

/-- Statements that are written one behind the other are the children of a script, and nothing is
reported. -/
theorem parse_written {ι : Type} {kinds : ι → List Kind} {shape : ι → Node.Shape}
    {follows : Kind → Prop} {items : List ι} (options : Options) (hne : items ≠ [])
    (hportable : ∀ x ∈ items, Portable (kinds x))
    (hitems : ∀ x ∈ items, ReadsUpTo (parse options.limit options.limit) 0 (kinds x) follows
      statement fun node => node.shape = shape x)
    (hbegins : ∀ x ∈ items, ∀ behind, follows ((kinds x ++ behind).headD .eof) ∧
      ((kinds x ++ behind).headD .eof).beginsItem = true)
    (heof : follows .eof) :
    ∃ root : Node,
      QoreSyntax.parse (Token.written (items.map kinds).flatten) options = (⟨some root⟩, []) ∧
        root.shape = ⟨.script, .none, items.map shape⟩ := by
  have hflatten : Portable (items.map kinds).flatten := by
    refine Portable.flatten fun item hitem => ?_
    obtain ⟨x, hx, rfl⟩ := List.mem_map.mp hitem
    exact hportable x hx
  have hstart := clear_start hflatten.toLegible options
  have hopen : (start (Token.written (items.map kinds).flatten) options).isAtEnd = false := by
    obtain ⟨x, items, rfl⟩ := List.exists_cons_of_ne_nil hne
    have hfirst := (hbegins x List.mem_cons_self (items.map kinds).flatten).2
    rw [List.map_cons, List.flatten_cons] at hstart ⊢
    exact hstart.isAtEnd_eq_false (Token.ne_of_holds hfirst rfl)
  have hsequence : Reads (parse options.limit options.limit) 0 (items.map kinds).flatten
      (sequence .endOfInput statement) (fun nodes => Node.shapes nodes = items.map shape) [] := by
    have hstop : ∀ o : State, o.Clear [] 0 → Terminator.endOfInput.holds o = true := by
      intro o ho
      rw [Terminator.holds.eq_def, Bool.or_false]
      exact State.isAtEnd_iff.mpr (List.map_eq_nil_iff.mp ho.kinds_eq)
    have honly := onlyTakes_parse options.limit options.limit
    rw [← List.append_nil (items.map kinds).flatten]
    exact Reads.sequence honly hitems hbegins heof hstop
  obtain ⟨hnodes, hclear⟩ := hsequence _ hstart
  rw [QoreSyntax.parse, script_of_not_isAtEnd options hopen]
  refine ⟨_, Prod.ext rfl ?_, ?_⟩
  · exact congrArg List.reverse hclear.reported_eq
  · rw [Node.shape]
    exact congrArg (Node.Shape.mk .script .none) hnodes

/-- A statement that is written alone is the only child of a script. -/
theorem parse_written_single {ι : Type} {kinds : ι → List Kind} {shape : ι → Node.Shape}
    {follows : Kind → Prop} (x : ι) (options : Options) (hportable : Portable (kinds x))
    (hreads : ReadsUpTo (parse options.limit options.limit) 0 (kinds x) follows statement
      fun node => node.shape = shape x)
    (hbegins : ∀ behind, follows ((kinds x ++ behind).headD .eof) ∧
      ((kinds x ++ behind).headD .eof).beginsItem = true)
    (heof : follows .eof) :
    ∃ root : Node, QoreSyntax.parse (Token.written (kinds x)) options = (⟨some root⟩, []) ∧
      root.shape = ⟨.script, .none, [shape x]⟩ := by
  have hscript := parse_written options (List.cons_ne_nil x [])
    (List.forall_mem_singleton.mpr hportable) (List.forall_mem_singleton.mpr hreads)
    (List.forall_mem_singleton.mpr hbegins) heof
  rwa [List.map_singleton, List.flatten_singleton] at hscript

end Grammar

end QoreSyntax
