import QoreSyntax.Proofs.Grammar.Bracing.Statement
import QoreSyntax.Proofs.Grammar.Report.Order

namespace QoreSyntax

namespace Token

/-- The number of braces that the tokens open and do not close. It is negative if they close more
than they open. -/
def openBraces : List Token → Int
  | [] => 0
  | t :: rest => t.kind.braces + openBraces rest

theorem openBraces_cons (t : Token) (rest : List Token) :
    openBraces (t :: rest) = t.kind.braces + openBraces rest :=
  rfl

theorem openBraces_append (tokens rest : List Token) :
    openBraces (tokens ++ rest) = openBraces tokens + openBraces rest := by
  induction tokens with
  | nil => exact (Int.zero_add _).symm
  | cons t tokens ih => rw [List.cons_append, openBraces, openBraces, ih, Int.add_assoc]

end Token

namespace Grammar

open Token (openBraces openBraces_cons)

namespace State

/-- Besides the first `n` reports there is another one, or there will be when the next token is
taken. -/
def Excused (n : Nat) (s : State) : Prop :=
  n < s.reported.length ∨
    s.recovering = true ∧ (LexicalError.ofToken? s.current).isSome = true

/-- Reports are dropped only because of another report than the first `n`. -/
structure HonestSince (n : Nat) (s : State) : Prop where
  isEof_final : s.final.isEof = true
  length_le : n ≤ s.reported.length
  excused (h : s.recovering = true) : s.Excused n

/-- From the first state to the second `k` more braces have been opened than closed, unless there is
an excuse. None has been found to be unmatched. -/
structure Balances (n : Nat) (k : Int) (s t : State) : Prop where
  honest : t.HonestSince n
  reported : ∃ more, t.reported = more ++ s.reported ∧
    ∀ d ∈ more, d.cause ≠ .syntactic .unmatchedBrace
  excused (h : s.Excused n) : t.Excused n
  balance : t.Excused n ∨ openBraces s.pending = k + openBraces t.pending

theorem length_reported_advance {s : State} (h : s.pending ≠ []) :
    s.advance.reported.length
      = s.reported.length + if (LexicalError.ofToken? s.current).isSome then 1 else 0 := by
  obtain ⟨t, rest, hpending⟩ := List.exists_cons_of_ne_nil h
  rw [advance_reported hpending, current_of_pending hpending, List.length_append, Nat.add_comm]
  cases LexicalError.ofToken? t <;> rfl

theorem recovering_advance {s : State} (h : s.pending ≠ []) :
    s.advance.recovering = (s.recovering || (LexicalError.ofToken? s.current).isSome) := by
  obtain ⟨t, rest, hpending⟩ := List.exists_cons_of_ne_nil h
  rw [advance_cons hpending, current_of_pending hpending]

/-- The end marker is not at fault. -/
theorem exists_pending_of_fault {s : State} (hfinal : s.final.isEof = true)
    (hfault : (LexicalError.ofToken? s.current).isSome = true) :
    ∃ t rest, s.pending = t :: rest := by
  refine List.exists_cons_of_ne_nil (pending_ne_nil hfinal fun hkind => ?_)
  rw [LexicalError.ofToken?, show s.current.kind = .eof from hkind] at hfault
  cases hfault

/-- A token at fault is passed over. -/
theorem recoveryLength_of_fault {s : State} {t : Token} {rest : List Token}
    (hpending : s.pending = t :: rest)
    (hfault : (LexicalError.ofToken? s.current).isSome = true) :
    0 < recoveryLength 0 0 s.pending := by
  rw [current_of_pending hpending, LexicalError.ofToken?.eq_def] at hfault
  rw [hpending]
  split at hfault
  · rename_i fault hkind
    refine recoveryLength_pos rest ?_ ?_
    · rw [hkind]
      exact fun hbrace => by cases hbrace
    · rw [isRecoveryPoint, hkind]
  · cases hfault

section

variable {n : Nat} {s : State}

/-- With the next token the excuse is among the reports. -/
theorem Excused.lt_advance (h : s.Excused n) (hs : n ≤ s.reported.length) (hopen : s.pending ≠ []) :
    n < s.advance.reported.length := by
  rw [length_reported_advance hopen]
  rcases h with hlt | ⟨-, hfault⟩
  · exact Nat.lt_add_right _ hlt
  · rw [if_pos hfault]
    exact Nat.lt_succ_of_le hs

/-- What reports are dropped for behind a token is among the reports. -/
theorem HonestSince.lt_advance (h : s.HonestSince n) (hopen : s.pending ≠ [])
    (hrecovering : s.advance.recovering = true) : n < s.advance.reported.length := by
  rw [recovering_advance hopen, Bool.or_eq_true] at hrecovering
  rcases hrecovering with hrecovering | hfault
  · exact (h.excused hrecovering).lt_advance h.length_le hopen
  · rw [length_reported_advance hopen, if_pos hfault]
    exact Nat.lt_succ_of_le h.length_le

theorem HonestSince.excused_report (h : s.HonestSince n) (problem : Problem) :
    (s.report problem).Excused n := by
  by_cases hdropped : (s.recovering || (LexicalError.ofToken? s.current).isSome) = true
  · have hreported : (s.report problem).reported = s.reported := if_pos hdropped
    rw [Bool.or_eq_true] at hdropped
    rcases hdropped with hrecovering | hfault
    · refine (h.excused hrecovering).imp (fun hlt => ?_) fun hfault => ⟨rfl, hfault.2⟩
      rwa [hreported]
    · exact Or.inr ⟨rfl, hfault⟩
  · left
    rw [State.report, if_neg hdropped]
    exact Nat.lt_succ_of_le h.length_le

end

namespace Balances

variable {n : Nat} {j k : Int} {s t u : State}

theorem refl (h : s.HonestSince n) : Balances n 0 s s :=
  ⟨h, ⟨[], rfl, List.forall_mem_nil _⟩, id, Or.inr (Int.zero_add _).symm⟩

theorem trans (hst : Balances n j s t) (htu : Balances n k t u) : Balances n (j + k) s u := by
  obtain ⟨first, hfirst, hmatched⟩ := hst.reported
  obtain ⟨more, hmore, hmatched'⟩ := htu.reported
  refine ⟨htu.honest, ⟨more ++ first, ?_, ?_⟩, fun h => htu.excused (hst.excused h), ?_⟩
  · rw [hmore, hfirst, List.append_assoc]
  · exact List.forall_mem_append.mpr ⟨hmatched', hmatched⟩
  · rcases hst.balance with hexcused | hbalance
    · exact Or.inl (htu.excused hexcused)
    · refine htu.balance.imp_right fun hbalance' => ?_
      rw [hbalance, hbalance', Int.add_assoc]

/-- Where there is an excuse the braces do not matter. -/
theorem of_excused (h : Balances n j s t) (hexcused : t.Excused n) (k : Int) : Balances n k s t :=
  ⟨h.honest, h.reported, h.excused, Or.inl hexcused⟩

theorem resume_of_lt (h : Balances n j s t) (hlt : n < t.reported.length) (k : Int) :
    Balances n k s t.resume :=
  ⟨⟨h.honest.isEof_final, h.honest.length_le, fun h => Bool.noConfusion h⟩, h.reported,
    fun _ => Or.inl hlt, Or.inl (Or.inl hlt)⟩

theorem advance (h : s.HonestSince n) : Balances n s.kind.braces s s.advance := by
  rcases hpending : s.pending with - | ⟨t, rest⟩
  · have hkind : s.kind = .eof := by
      rw [kind, current, hpending]
      exact eq_of_beq h.isEof_final
    rw [advance_nil hpending, hkind]
    exact refl h
  · have hopen : s.pending ≠ [] := hpending ▸ List.cons_ne_nil t rest
    have hle : n ≤ s.advance.reported.length := by
      rw [length_reported_advance hopen]
      exact Nat.le_add_right_of_le h.length_le
    refine ⟨⟨?_, hle, fun hrecovering => Or.inl (h.lt_advance hopen hrecovering)⟩,
      ⟨_, advance_reported hpending, ?_⟩,
      fun hexcused => Or.inl (hexcused.lt_advance h.length_le hopen), Or.inr ?_⟩
    · rw [advance_final]
      exact h.isEof_final
    · intro d hmem
      obtain ⟨e, -, rfl⟩ := Option.map_eq_some_iff.mp (Option.mem_toList.mp hmem)
      exact fun hcause => by cases hcause
    · rw [advance_pending, kind, current_of_pending hpending, hpending]
      exact openBraces_cons t rest

/-- A token that is taken, after which the parse goes on. -/
theorem advance_resume (h : s.HonestSince n) (hopen : s.pending ≠ []) :
    Balances n s.kind.braces s s.advance.resume := by
  have hstep := advance h
  by_cases hexcused : s.advance.Excused n
  · exact hstep.resume_of_lt (hexcused.elim id fun hdropped => h.lt_advance hopen hdropped.1) _
  · exact ⟨⟨hstep.honest.isEof_final, hstep.honest.length_le, fun h => Bool.noConfusion h⟩,
      hstep.reported,
      fun hs => absurd (hstep.excused hs) hexcused, Or.inr (hstep.balance.resolve_left hexcused)⟩

theorem splitShift (h : s.HonestSince n) : Balances n 0 s s.splitShift := by
  rcases splitShift_cases s with ⟨t, rest, hpending, hshr⟩ | hsame
  · have hwhole : LexicalError.ofToken? s.current = none := by
      rw [current_of_pending hpending, LexicalError.ofToken?, hshr]
    have hlt : s.Excused n → n < s.reported.length := fun hexcused =>
      hexcused.resolve_right fun hfault => by rw [hwhole] at hfault; cases hfault.2
    rw [splitShift_of_shr hpending hshr]
    refine ⟨⟨h.isEof_final, h.length_le, fun hs => Or.inl (hlt (h.excused hs))⟩,
      ⟨[], rfl, List.forall_mem_nil _⟩, fun hs => Or.inl (hlt hs), Or.inr ?_⟩
    rw [hpending, openBraces_cons, hshr, openBraces_cons]
    exact (Int.zero_add _).symm
  · rw [hsame]
    exact refl h

/-- A report is an excuse, even if it is dropped. -/
theorem report (h : s.HonestSince n) {problem : Problem} (hproblem : problem ≠ .unmatchedBrace)
    (k : Int) : Balances n k s (s.report problem) := by
  have hexcused := h.excused_report problem
  by_cases hdropped : (s.recovering || (LexicalError.ofToken? s.current).isSome) = true
  · have hreported : (s.report problem).reported = s.reported := if_pos hdropped
    exact ⟨⟨h.isEof_final, hreported ▸ h.length_le, fun _ => hexcused⟩,
      ⟨[], hreported, List.forall_mem_nil _⟩, fun _ => hexcused, Or.inl hexcused⟩
  · have hreported : (s.report problem).reported
        = ⟨.syntactic problem, s.current.range⟩ :: s.reported := if_neg hdropped
    refine ⟨⟨h.isEof_final, ?_, fun _ => hexcused⟩, ⟨[_], hreported, ?_⟩, fun _ => hexcused,
      Or.inl hexcused⟩
    · rw [hreported]
      exact Nat.le_succ_of_le h.length_le
    · intro d hmem
      obtain rfl := List.mem_singleton.mp hmem
      exact fun hcause => hproblem (Cause.syntactic.inj hcause)

theorem nest (depth : Nat) (h : s.HonestSince n) : Balances n 0 s { s with depth := depth } :=
  ⟨⟨h.isEof_final, h.length_le, h.excused⟩, ⟨[], rfl, List.forall_mem_nil _⟩, id,
    Or.inr (Int.zero_add _).symm⟩

theorem exists_advanceMany (h : s.HonestSince n) (m : Nat) :
    ∃ k, Balances n k s (s.advanceMany m) := by
  induction m generalizing s with
  | zero => exact ⟨0, refl h⟩
  | succ m ih =>
      have hstep := advance h
      obtain ⟨k, hrest⟩ := ih hstep.honest
      exact ⟨_, hstep.trans hrest⟩

theorem length_le (h : Balances n k s t) : s.reported.length ≤ t.reported.length := by
  obtain ⟨more, hmore, -⟩ := h.reported
  rw [hmore, List.length_append]
  exact Nat.le_add_left _ _

/-- Behind the tokens that are passed over the excuse is among the reports. -/
theorem synchronize (h : s.HonestSince n) (hrecovering : s.recovering = true) (k : Int) :
    Balances n k s s.synchronize := by
  obtain ⟨j, hpassed⟩ := exists_advanceMany h (recoveryLength 0 0 s.pending)
  refine hpassed.resume_of_lt ?_ k
  rcases h.excused hrecovering with hlt | ⟨-, hfault⟩
  · exact Nat.lt_of_lt_of_le hlt hpassed.length_le
  · obtain ⟨t, rest, hpending⟩ := exists_pending_of_fault h.isEof_final hfault
    have hopen : s.pending ≠ [] := hpending ▸ List.cons_ne_nil t rest
    obtain ⟨m, hm⟩ := Nat.exists_eq_succ_of_ne_zero (recoveryLength_of_fault hpending hfault).ne'
    obtain ⟨i, hrest⟩ := exists_advanceMany (advance h).honest m
    rw [hm]
    refine Nat.lt_of_lt_of_le ?_ hrest.length_le
    exact (h.excused hrecovering).lt_advance h.length_le hopen

theorem settle (h : Balances n 0 s t) : Balances n 0 s t.settle := by
  rw [State.settle]
  split_ifs with hrecovering
  · exact h.trans (synchronize h.honest hrecovering 0)
  · exact h

/-- If no token has been taken, then either a report has been made or one is made now. -/
theorem ensureProgress (h : Balances n 0 s t) (hs : s.HonestSince n) (hst : s.Reaches t)
    (hopen : s.pending ≠ []) : Balances n 0 s (t.ensureProgress s) := by
  rw [State.ensureProgress]
  split_ifs with hconsumed hlength
  · have hreport : Balances n 0 t (t.report (.unexpected t.kind)) := report h.honest (by simp) 0
    have hpending : (t.report (.unexpected t.kind)).pending ≠ [] := by
      rw [report_pending, hst.pending_eq hconsumed]
      exact hopen
    have hexcused := h.honest.excused_report (.unexpected t.kind)
    have hall := (h.trans hreport).trans (advance hreport.honest)
    exact hall.resume_of_lt (hexcused.lt_advance hreport.honest.length_le hpending) 0
  · have hpending : t.pending ≠ [] := by
      rw [hst.pending_eq hconsumed]
      exact hopen
    have hlt : n < t.reported.length :=
      Nat.lt_of_le_of_lt hs.length_le (Nat.lt_of_le_of_ne h.length_le (Ne.symm hlength))
    have hall := h.trans (advance h.honest)
    exact hall.resume_of_lt (Excused.lt_advance (Or.inl hlt) h.honest.length_le hpending) 0
  · exact h

theorem skipToArm (h : s.HonestSince n) : Balances n 0 s s.skipToArm := by
  have hreport : Balances n 0 s (s.report (.expected .caseOrDefault s.kind)) :=
    report h (by simp) 0
  have hfound := hreport.trans (synchronize hreport.honest rfl 0)
  have hexcused := (synchronize hreport.honest rfl 0).excused (h.excused_report _)
  rw [State.skipToArm]
  split_ifs
  · have hnext := advance hfound.honest
    exact (hfound.trans hnext).of_excused (hnext.excused hexcused) 0
  · exact hfound

end Balances

/-- What comes after a state, and how many more braces have been opened than closed by then. -/
structure Counts (n : Nat) (k : Int) (s t : State) : Prop where
  reaches : s.Reaches t
  balances (h : s.HonestSince n) : Balances n k s t

namespace Counts

variable {n : Nat} {j k : Int} {s t u : State}

theorem trans (hst : Counts n j s t) (htu : Counts n k t u) : Counts n (j + k) s u :=
  ⟨hst.reaches.trans htu.reaches,
    fun h => (hst.balances h).trans (htu.balances (hst.balances h).honest)⟩

theorem followed (hst : Counts n k s t) (htu : Counts n 0 t u) : Counts n k s u := by
  have hsu := hst.trans htu
  rwa [Int.add_zero] at hsu

/-- A symbol that is taken, after which the parse goes on. -/
theorem proceed {symbol : Symbol} (hat : s.isAt symbol = true) :
    Counts n (Token.Kind.symbol symbol).braces s s.advance.resume := by
  refine ⟨(Reaches.advance s).trans (Reaches.resume _), fun h => ?_⟩
  have hstep := Balances.advance_resume h (pending_ne_nil_of_isAt h.isEof_final hat)
  rwa [eq_of_beq hat] at hstep

theorem report {problem : Problem} (hproblem : problem ≠ .unmatchedBrace) (k : Int) (s : State) :
    Counts n k s (s.report problem) :=
  ⟨Reaches.report problem s, fun h => Balances.report h hproblem k⟩

theorem settle (hopen : s.isAtEnd = false) (h : Counts n 0 s t) :
    Counts n 0 s (t.settle.ensureProgress s) := by
  have hreaches := h.reaches.trans (isTrail_reaches.settle t)
  refine ⟨hreaches.trans (isTrail_reaches.ensureProgress s _), fun hs => ?_⟩
  exact (h.balances hs).settle.ensureProgress hs hreaches (List.isEmpty_eq_false_iff.mp hopen)

end Counts

end State

open State

/-- The balance of the braces, where the first `n` reports are left out of account. -/
def Bracing.balance (n : Nat) : Bracing where
  Leads := Counts n
  Rests := Counts n
  reaches := Counts.reaches
  refl s := ⟨Reaches.refl s, Balances.refl⟩
  trans := Counts.trans
  advance s := ⟨Reaches.advance s, Balances.advance⟩
  proceed _ := Counts.proceed
  splitShift s := ⟨Reaches.splitShift s, Balances.splitShift⟩
  report := Counts.report
  nest depth s := ⟨Reaches.nest depth s, Balances.nest depth⟩
  reaches_rests := Counts.reaches
  rests h _ := h
  leave hst _ _ htu _ := hst.trans htu
  settle hst hopen _ htu := hst.followed (htu.settle hopen)
  skipToArm hst _ _ := hst.followed ⟨isTrail_reaches.skipToArm _, Balances.skipToArm⟩
  close hst hat := hst.trans (Counts.proceed hat)
  unclosed {j s t} hst _ k := by
    have hreport : Counts n (k - j) t (t.report (.expected (.symbol .rBrace) t.kind)) :=
      Counts.report (by simp) (k - j) t
    rw [← show j + (k - j) = k by omega]
    exact hst.trans hreport

end Grammar

end QoreSyntax
