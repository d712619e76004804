import QoreSyntax.Proofs.Grammar.Construct
import QoreSyntax.Proofs.Grammar.Resumption

/-!
What is passed over. Whether a parse looks for a place where it can go on or leaves out a construct
that is nested too deeply, it never passes over the end of a group that it has not entered, and it
stops at the first token outside of all groups at which it can.
-/

namespace QoreSyntax.Grammar

open Token (Kind)

/-- A way of passing over tokens: those that begin a group, those that end one, and those at which
it stops outside of all groups. The end of a group that has not been entered is one of these. -/
structure Skip where
  opens : Kind → Bool
  closes : Kind → Bool
  stops : Token → Bool
  stops_of_closes (t : Token) (h : closes t.kind = true) : stops t = true
  stops_eq_false (t : Token) (h : opens t.kind = true) : stops t = false

namespace Skip

variable (k : Skip)

/-- The number of groups that the tokens begin. -/
def opened (tokens : List Token) : Nat :=
  tokens.countP fun t => k.opens t.kind

/-- The number of groups that the tokens end. -/
def closed (tokens : List Token) : Nat :=
  tokens.countP fun t => k.closes t.kind

def IsBalanced (tokens : List Token) : Prop :=
  k.closed tokens = k.opened tokens

/-- No beginning of the tokens ends more groups than it begins. -/
def IsContained (tokens : List Token) : Prop :=
  ∀ before, before <+: tokens → k.closed before ≤ k.opened before

/-- Where `depth` groups are open the tokens `taken` are passed over, up to the first one outside of
all groups at which to stop, or else up to the last one. -/
inductive Passes : (depth : Nat) → (taken rest : List Token) → Prop where
  | atEnd (depth : Nat) : Passes depth [] []
  | stop {t : Token} (rest : List Token) (h : k.stops t = true) : Passes 0 [] (t :: rest)
  | opening {depth : Nat} {t : Token} {taken rest : List Token} (hopens : k.opens t.kind = true)
      (h : Passes (depth + 1) taken rest) : Passes depth (t :: taken) rest
  | closing {depth : Nat} {t : Token} {taken rest : List Token} (hcloses : k.closes t.kind = true)
      (h : Passes depth taken rest) : Passes (depth + 1) (t :: taken) rest
  | plain {depth : Nat} {t : Token} {taken rest : List Token} (hopens : k.opens t.kind = false)
      (hcloses : k.closes t.kind = false) (hstays : depth = 0 → k.stops t = false)
      (h : Passes depth taken rest) : Passes depth (t :: taken) rest

variable {k}

theorem closes_eq_false {t : Token} (h : k.opens t.kind = true) : k.closes t.kind = false := by
  rw [← Bool.not_eq_true]
  intro hcloses
  exact Bool.noConfusion ((k.stops_eq_false t h).symm.trans (k.stops_of_closes t hcloses))

theorem opens_eq_false {t : Token} (h : k.closes t.kind = true) : k.opens t.kind = false := by
  rw [← Bool.not_eq_true]
  intro hopens
  exact Bool.noConfusion ((closes_eq_false hopens).symm.trans h)

theorem opened_cons (t : Token) (tokens : List Token) :
    k.opened (t :: tokens) = k.opened tokens + (k.opens t.kind).toNat := by
  rw [opened, List.countP_cons]
  cases k.opens t.kind <;> rfl

theorem closed_cons (t : Token) (tokens : List Token) :
    k.closed (t :: tokens) = k.closed tokens + (k.closes t.kind).toNat := by
  rw [closed, List.countP_cons]
  cases k.closes t.kind <;> rfl

/-- A token that neither begins nor ends a group makes no difference. -/
theorem isBalanced_append_singleton {tokens : List Token} {t : Token}
    (hopens : k.opens t.kind = false) (hcloses : k.closes t.kind = false) :
    k.IsBalanced (tokens ++ [t]) ↔ k.IsBalanced tokens := by
  rw [IsBalanced, IsBalanced, opened, opened, closed, closed, List.countP_append,
    List.countP_append, List.countP_singleton, List.countP_singleton, hopens, hcloses]
  rfl

theorem IsBalanced.isContained_append {tokens : List Token} {t : Token}
    (h : k.IsBalanced (tokens ++ [t])) (hcontained : k.IsContained tokens) :
    k.IsContained (tokens ++ [t]) := by
  intro before hbefore
  rcases List.prefix_concat_iff.mp hbefore with rfl | hbefore
  · exact Nat.le_of_eq h
  · exact hcontained before hbefore

namespace Passes

variable {depth : Nat} {before after taken rest : List Token}

/-- Behind some of the tokens the others are passed over. As many groups are open there as the
tokens before have begun and not ended. -/
theorem behind (h : k.Passes depth (before ++ after) rest) :
    ∃ inside, k.closed before + inside = depth + k.opened before ∧
      k.Passes inside after rest := by
  induction before generalizing depth with
  | nil => exact ⟨depth, Nat.add_comm _ _, h⟩
  | cons t before ih =>
      rw [opened_cons, closed_cons]
      cases h with
      | opening hopens h =>
          obtain ⟨inside, hinside, hafter⟩ := ih h
          rw [hopens, closes_eq_false hopens, Bool.toNat_true, Bool.toNat_false]
          exact ⟨inside, by omega, hafter⟩
      | closing hcloses h =>
          obtain ⟨inside, hinside, hafter⟩ := ih h
          rw [hcloses, opens_eq_false hcloses, Bool.toNat_true, Bool.toNat_false]
          exact ⟨inside, by omega, hafter⟩
      | plain hopens hcloses hstays h =>
          rw [hopens, hcloses]
          exact ih h

theorem isContained (h : k.Passes 0 taken rest) : k.IsContained taken := by
  rintro before ⟨after, rfl⟩
  obtain ⟨inside, hinside, -⟩ := h.behind
  omega

/-- A token outside of all groups is passed over only if it is none to stop at. -/
theorem stops_eq_false (h : k.Passes 0 taken rest) {t : Token} (hbefore : before ++ [t] <+: taken)
    (hbalanced : k.IsBalanced before) : k.stops t = false := by
  obtain ⟨after, rfl⟩ := hbefore
  rw [List.append_assoc] at h
  obtain ⟨inside, hinside, hafter⟩ := h.behind
  obtain rfl : inside = 0 := by
    rw [IsBalanced] at hbalanced
    omega
  cases hafter with
  | opening hopens h => exact k.stops_eq_false t hopens
  | plain hopens hcloses hstays h => exact hstays rfl

/-- Where tokens are left, all groups have been ended and the next token is one to stop at. -/
theorem isBalanced (h : k.Passes 0 taken rest) {t : Token} (hrest : rest.head? = some t) :
    k.IsBalanced taken ∧ k.stops t = true := by
  rw [← List.append_nil taken] at h
  obtain ⟨inside, hinside, hafter⟩ := h.behind
  cases hafter with
  | atEnd depth => cases hrest
  | stop rest hstop =>
      cases hrest
      rw [IsBalanced]
      exact ⟨by omega, hstop⟩

end Passes

variable (k)

/-- The number of tokens that are passed over where `depth` groups are open. -/
def length (k : Skip) : (depth : Nat) → List Token → Nat
  | _, [] => 0
  | depth, t :: rest =>
      if k.opens t.kind then length k (depth + 1) rest + 1
      else if depth = 0 && k.stops t then 0
      else if k.closes t.kind then length k (depth - 1) rest + 1
      else length k depth rest + 1

section Length

variable {k} {depth : Nat} {t : Token} {tokens : List Token}

theorem length_of_opens (h : k.opens t.kind = true) :
    k.length depth (t :: tokens) = k.length (depth + 1) tokens + 1 :=
  if_pos h

theorem length_of_stops (h : k.stops t = true) : k.length 0 (t :: tokens) = 0 := by
  have hopens : ¬k.opens t.kind = true := fun hopens =>
    Bool.noConfusion ((k.stops_eq_false t hopens).symm.trans h)
  rw [length, if_neg hopens, h]
  rfl

theorem length_of_closes (h : k.closes t.kind = true) :
    k.length (depth + 1) (t :: tokens) = k.length depth tokens + 1 := by
  rw [length, opens_eq_false h, h]
  rfl

theorem length_of_plain (hopens : k.opens t.kind = false) (hcloses : k.closes t.kind = false)
    (hstays : depth = 0 → k.stops t = false) :
    k.length depth (t :: tokens) = k.length depth tokens + 1 := by
  have hgo : (depth = 0 && k.stops t) = false := by simpa using hstays
  rw [length, hopens, hgo, hcloses]
  rfl

end Length

theorem passes_length (depth : Nat) (tokens : List Token) :
    k.Passes depth (tokens.take (k.length depth tokens)) (tokens.drop (k.length depth tokens)) := by
  induction tokens generalizing depth with
  | nil => exact .atEnd depth
  | cons t tokens ih =>
      cases hopens : k.opens t.kind with
      | true =>
          rw [length_of_opens hopens]
          exact .opening hopens (ih _)
      | false =>
          by_cases hstop : depth = 0 ∧ k.stops t = true
          · obtain ⟨rfl, hstop⟩ := hstop
            rw [length_of_stops hstop]
            exact .stop tokens hstop
          · cases hcloses : k.closes t.kind with
            | true =>
                rcases depth with - | depth
                · exact absurd ⟨rfl, k.stops_of_closes t hcloses⟩ hstop
                · rw [length_of_closes hcloses]
                  exact .closing hcloses (ih depth)
            | false =>
                have hstays : depth = 0 → k.stops t = false := by simpa using hstop
                rw [length_of_plain hopens hcloses hstays]
                exact .plain hopens hcloses hstays (ih depth)

/-- A construct that is nested too deeply reaches to a semicolon, a comma or the end of a group. -/
def construct : Skip where
  opens := opensBracket
  closes := closesBracket
  stops t := endsConstruct t.kind
  stops_of_closes t h := by
    rw [endsConstruct, h]
    rfl
  stops_eq_false t h := by
    rw [← Bool.not_eq_true]
    intro hends
    exact Bool.noConfusion ((opensBracket_of_endsConstruct hends).symm.trans h)

/-- Behind a mistake only braces count as groups; a parse can go on behind a semicolon, before a
closing brace and at a recovery point. -/
def mistake : Skip where
  opens kind := kind == .symbol .lBrace
  closes kind := kind == .symbol .rBrace
  stops t := t.kind == .symbol .semicolon || (t.kind == .symbol .rBrace || isRecoveryPoint t)
  stops_of_closes t h := by
    rw [h, Bool.true_or, Bool.or_true]
  stops_eq_false t h := by
    rw [isRecoveryPoint, beq_iff_eq.mp h]
    rfl

theorem constructLength_eq (depth count : Nat) (tokens : List Token) :
    constructLength depth count tokens = count + construct.length depth tokens := by
  induction tokens generalizing depth count with
  | nil => rfl
  | cons t tokens ih =>
      have hstep (inside : Nat) : constructLength inside (count + 1) tokens
          = count + (construct.length inside tokens + 1) := by
        rw [ih, Nat.add_right_comm, Nat.add_assoc]
      rw [constructLength]
      split_ifs with hopens hcloses hdepth hends
      · rw [length_of_opens hopens, hstep]
      · subst hdepth
        rw [length_of_stops (construct.stops_of_closes t hcloses), Nat.add_zero]
      · obtain ⟨depth, rfl⟩ := Nat.exists_eq_succ_of_ne_zero hdepth
        rw [length_of_closes hcloses]
        exact hstep depth
      · rw [Bool.and_eq_true, decide_eq_true_eq] at hends
        obtain ⟨rfl, hends⟩ := hends
        have hstops : construct.stops t = true := by
          change endsConstruct t.kind = true
          rw [endsConstruct, Bool.or_assoc, hends, Bool.or_true]
        rw [length_of_stops hstops, Nat.add_zero]
      · have hstays (hdepth : depth = 0) : construct.stops t = false := by
          change endsConstruct t.kind = false
          simpa [endsConstruct, hcloses, hdepth] using hends
        rw [length_of_plain (Bool.eq_false_iff.mpr hopens) (Bool.eq_false_iff.mpr hcloses) hstays,
          hstep]

/-- A semicolon at which the search for a place to go on stops is taken. -/
theorem recoveryLength_eq (depth count : Nat) (tokens : List Token) :
    recoveryLength depth count tokens = count + mistake.length depth tokens
      + (tokens[mistake.length depth tokens]?.any (·.kind == .symbol .semicolon)).toNat := by
  induction tokens generalizing depth count with
  | nil => rfl
  | cons t tokens ih =>
      have hstep (inside : Nat) : recoveryLength inside (count + 1) tokens
          = count + (mistake.length inside tokens + 1)
            + ((t :: tokens)[mistake.length inside tokens + 1]?.any
                (·.kind == .symbol .semicolon)).toNat := by
        rw [ih, List.getElem?_cons_succ]
        omega
      have hstops (h : (t.kind == .symbol .semicolon || (t.kind == .symbol .rBrace
          || isRecoveryPoint t)) = true) : mistake.length 0 (t :: tokens) = 0 :=
        length_of_stops (k := mistake) h
      rw [recoveryLength]
      split_ifs with hsemicolon hends hopens hcloses
      · rw [Bool.and_eq_true, decide_eq_true_eq] at hsemicolon
        obtain ⟨rfl, hsemicolon⟩ := hsemicolon
        rw [hstops (by rw [hsemicolon, Bool.true_or]), List.getElem?_cons_zero, Option.any_some,
          hsemicolon]
        rfl
      · rw [Bool.and_eq_true, decide_eq_true_eq] at hends
        obtain ⟨rfl, hends⟩ := hends
        have hother : (t.kind == .symbol .semicolon) = false := by simpa using hsemicolon
        rw [hstops (by rw [hends, Bool.or_true]), List.getElem?_cons_zero, Option.any_some, hother]
        rfl
      · rw [length_of_opens (k := mistake) hopens, hstep]
      · have hdepth : depth ≠ 0 := by
          rintro rfl
          rw [hcloses] at hends
          exact hends rfl
        obtain ⟨depth, rfl⟩ := Nat.exists_eq_succ_of_ne_zero hdepth
        rw [length_of_closes (k := mistake) hcloses]
        exact hstep depth
      · have hstays (hdepth : depth = 0) : mistake.stops t = false := by
          subst hdepth
          have hother : (t.kind == .symbol .semicolon) = false := by simpa using hsemicolon
          have hgo : (t.kind == .symbol .rBrace || isRecoveryPoint t) = false := by
            simpa using hends
          exact Bool.or_eq_false_iff.mpr ⟨hother, hgo⟩
        rw [length_of_plain (k := mistake) (Bool.eq_false_iff.mpr hopens)
          (Bool.eq_false_iff.mpr hcloses) hstays, hstep]

end Skip

theorem isRecoveryPoint_iff {t : Token} :
    isRecoveryPoint t = true ↔ (∃ name argument, t.kind = .directive name argument) ∨
      ∃ word, t.kind = .keyword word ∧
        (beginsDeclaration word = true ∨ t.newlineBefore = true ∧ beginsStatement word = true) := by
  rw [isRecoveryPoint]
  cases t.kind with
  | directive name argument => simp
  | keyword word => simp
  | _ => simp

namespace State

open Skip

variable (s : State)

theorem exists_pending_skipConstruct :
    ∃ taken, s.pending = taken ++ s.skipConstruct.pending ∧
      construct.Passes 0 taken s.skipConstruct.pending := by
  have hpasses := construct.passes_length 0 s.pending
  rw [skipConstruct, advanceMany_pending, constructLength_eq, Nat.zero_add]
  exact ⟨_, (List.take_append_drop _ _).symm, hpasses⟩

/-- A semicolon at which the search for a place to go on stops is taken as well. -/
theorem exists_pending_synchronize :
    ∃ taken rest, s.pending = taken ++ rest ∧ mistake.Passes 0 taken rest ∧
      ((rest = s.synchronize.pending ∧
          (s.synchronize.isAtEnd = true ∨ s.synchronize.kind ≠ .symbol .semicolon)) ∨
        ∃ t, t.kind = .symbol .semicolon ∧ rest = t :: s.synchronize.pending) := by
  have hpasses := mistake.passes_length 0 s.pending
  refine ⟨_, _, (List.take_append_drop _ _).symm, hpasses, ?_⟩
  have hpending : s.synchronize.pending = s.pending.drop (recoveryLength 0 0 s.pending) :=
    advanceMany_pending _ s
  rw [recoveryLength_eq, Nat.zero_add, ← List.head?_drop] at hpending
  generalize mistake.length 0 s.pending = n at hpending ⊢
  cases hrest : s.pending.drop n with
  | nil =>
      rw [hrest, List.head?_nil, Option.any_none, Bool.toNat_false, Nat.add_zero, hrest] at hpending
      exact Or.inl ⟨hpending.symm, Or.inl (isAtEnd_iff.mpr hpending)⟩
  | cons t more =>
      rw [hrest, List.head?_cons, Option.any_some] at hpending
      cases hsemicolon : t.kind == .symbol .semicolon with
      | true =>
          rw [hsemicolon, Bool.toNat_true, ← List.drop_drop, hrest] at hpending
          exact Or.inr ⟨t, beq_iff_eq.mp hsemicolon, congrArg (t :: ·) hpending.symm⟩
      | false =>
          rw [hsemicolon, Bool.toNat_false, Nat.add_zero, hrest] at hpending
          refine Or.inl ⟨hpending.symm, Or.inr ?_⟩
          rw [kind, current_of_pending hpending]
          exact ne_of_beq_false hsemicolon

/-- Behind the tokens that have been passed over is one to stop at, unless they are the last. -/
theorem isAtEnd_or_stops {k : Skip} {s : State} {taken : List Token}
    (h : k.Passes 0 taken s.pending) :
    s.isAtEnd = true ∨ k.IsBalanced taken ∧ k.stops s.current = true := by
  cases hpending : s.pending with
  | nil => exact Or.inl (isAtEnd_iff.mpr hpending)
  | cons t more =>
      rw [hpending] at h
      rw [current_of_pending hpending]
      exact Or.inr (h.isBalanced rfl)

theorem passes_synchronize :
    ∃ taken, s.pending = taken ++ s.synchronize.pending ∧ mistake.IsContained taken ∧
      (∀ before t, before ++ [t] <+: taken → mistake.IsBalanced before →
        mistake.stops t = true → t.kind = .symbol .semicolon ∧ before ++ [t] = taken) ∧
      (s.synchronize.isAtEnd = true ∨ mistake.IsBalanced taken ∧
        ((∃ before t, taken = before ++ [t] ∧ mistake.IsBalanced before ∧
            t.kind = .symbol .semicolon) ∨
          s.synchronize.kind = .symbol .rBrace ∨
          isRecoveryPoint s.synchronize.current = true)) := by
  obtain ⟨taken, rest, hpending, hpasses, ⟨rfl, hother⟩ | ⟨semicolon, hkind, rfl⟩⟩ :=
    s.exists_pending_synchronize
  · refine ⟨taken, hpending, hpasses.isContained, fun before t hbefore hbalanced hstops => ?_, ?_⟩
    · rw [hpasses.stops_eq_false hbefore hbalanced] at hstops
      cases hstops
    · rcases isAtEnd_or_stops hpasses with hend | ⟨hbalanced, hstops⟩
      · exact Or.inl hend
      · refine hother.imp id fun hkind => ⟨hbalanced, Or.inr ?_⟩
        rw [mistake, Bool.or_eq_true, Bool.or_eq_true, beq_iff_eq, beq_iff_eq] at hstops
        exact hstops.resolve_left hkind
  · -- The semicolon belongs to no group, and the tokens before it are balanced.
    obtain ⟨hbalanced, -⟩ := hpasses.isBalanced rfl
    have hopens : mistake.opens semicolon.kind = false := by rw [hkind]; rfl
    have hcloses : mistake.closes semicolon.kind = false := by rw [hkind]; rfl
    have hall := (isBalanced_append_singleton hopens hcloses).mpr hbalanced
    refine ⟨taken ++ [semicolon], by rw [hpending, List.append_assoc]; rfl,
      hall.isContained_append hpasses.isContained, fun before t hbefore hbefore' hstops => ?_,
      Or.inr ⟨hall, Or.inl ⟨taken, semicolon, rfl, hbalanced, hkind⟩⟩⟩
    rcases List.prefix_concat_iff.mp hbefore with heq | hinside
    · obtain ⟨-, htail⟩ := List.append_inj' heq rfl
      obtain rfl : t = semicolon := List.singleton_inj.mp htail
      exact ⟨hkind, heq⟩
    · rw [hpasses.stops_eq_false hinside hbefore'] at hstops
      cases hstops

theorem passes_skipConstruct :
    ∃ taken, s.pending = taken ++ s.skipConstruct.pending ∧ construct.IsContained taken ∧
      (∀ before t, before ++ [t] <+: taken → construct.IsBalanced before →
        endsConstruct t.kind = false) ∧
      (s.skipConstruct.isAtEnd = true ∨
        construct.IsBalanced taken ∧ endsConstruct s.skipConstruct.kind = true) := by
  obtain ⟨taken, hpending, hpasses⟩ := s.exists_pending_skipConstruct
  exact ⟨taken, hpending, hpasses.isContained,
    fun before t hbefore hbalanced => hpasses.stops_eq_false hbefore hbalanced,
    isAtEnd_or_stops hpasses⟩

end State

open Skip

/-- Behind a mistake the tokens that are passed over never end more braces than they begin, and as
many unless this goes to the end of the text. It goes to the first place outside of their braces
that is behind a semicolon, or before a closing brace, a directive, the word of a declaration or, at
the beginning of a line, the word of a statement. Likewise a construct that is nested too deeply is
passed over with its brackets to the first semicolon, comma or closing bracket outside of them. -/
theorem groups_are_passed_over_whole (nested : Goal → State → Node × State) (s : State) :
    (let after := (synchronize.run nested s).2
      ∃ taken, s.pending = taken ++ after.pending ∧ mistake.IsContained taken ∧
        (∀ before t, before ++ [t] <+: taken → mistake.IsBalanced before →
          mistake.stops t = true → t.kind = .symbol .semicolon ∧ before ++ [t] = taken) ∧
        (after.isAtEnd = true ∨ mistake.IsBalanced taken ∧
          ((∃ before t, taken = before ++ [t] ∧ mistake.IsBalanced before ∧
              t.kind = .symbol .semicolon) ∨
            after.kind = .symbol .rBrace ∨
            (∃ name argument, after.kind = .directive name argument) ∨
            ∃ word, after.kind = .keyword word ∧
              (beginsDeclaration word = true ∨
                after.current.newlineBefore = true ∧ beginsStatement word = true)))) ∧
    (let after := s.skipConstruct
      ∃ taken, s.pending = taken ++ after.pending ∧ construct.IsContained taken ∧
        (∀ before t, before ++ [t] <+: taken → construct.IsBalanced before →
          endsConstruct t.kind = false) ∧
        (after.isAtEnd = true ∨
          construct.IsBalanced taken ∧ endsConstruct after.kind = true)) := by
  refine ⟨?_, s.passes_skipConstruct⟩
  rw [run_synchronize]
  obtain ⟨taken, hpending, hcontained, hstays, hend⟩ := s.passes_synchronize
  rw [isRecoveryPoint_iff] at hend
  exact ⟨taken, hpending, hcontained, hstays, hend⟩

end QoreSyntax.Grammar
