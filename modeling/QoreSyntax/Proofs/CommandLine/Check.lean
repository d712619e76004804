import QoreSyntax.CommandLine.Run
import QoreSyntax.Proofs.Session.Encoding

namespace QoreSyntax.CommandLine

/-- What is reported about a file that is read from the first line on. Nothing is reported about one
that cannot be read. -/
def reportsOf (files : Files) (startLine : Nat) (path : String) : List Diagnostic :=
  match files path with
  | .ok bytes => (QoreSyntax.parse (Text.decode bytes) (sessionFor startLine path).options).2
  | .error _ => []

/-- The lines that are printed about a file. -/
def reportLines (files : Files) (startLine : Nat) (path : String) : List String :=
  (reportsOf files startLine path).map fun d =>
    path ++ ":" ++ toString d.range.start.line ++ ":" ++ toString d.range.start.column
      ++ ": error: " ++ d.message

/-- The line that is printed about a file that cannot be read. -/
def failure? (files : Files) (path : String) : Option String :=
  match files path with
  | .ok _ => none
  | .error fault => some ("Error: failed to read " ++ path ++ ": " ++ fault.message)

/-- The file cannot be read, or there is something to report about it. -/
def Fails (files : Files) (startLine : Nat) (path : String) : Prop :=
  (∃ fault, files path = .error fault) ∨ reportsOf files startLine path ≠ []

/-- What the run has done before it comes to the paths, and behind them. -/
structure Checks (files : Files) (startLine : Nat) (before : Outcome) (paths : List String)
    (after : Outcome) : Prop where
  stdout_eq : after.stdout = before.stdout ++ paths.flatMap (reportLines files startLine)
  stderr_eq : after.stderr = before.stderr ++ paths.filterMap (failure? files)
  exit_eq_one_iff : after.exit = 1 ↔ before.exit = 1 ∨ ∃ path ∈ paths, Fails files startLine path
  exit_eq_zero_iff :
    after.exit = 0 ↔ before.exit = 0 ∧ ∀ path ∈ paths, ¬Fails files startLine path

variable {files : Files} {startLine : Nat}

theorem checks_nil (outcome : Outcome) : Checks files startLine outcome [] outcome := by
  constructor <;> simp

theorem Checks.append {before middle after : Outcome} {front back : List String}
    (hfront : Checks files startLine before front middle)
    (hback : Checks files startLine middle back after) :
    Checks files startLine before (front ++ back) after where
  stdout_eq := by
    rw [hback.stdout_eq, hfront.stdout_eq, List.flatMap_append, List.append_assoc]
  stderr_eq := by
    rw [hback.stderr_eq, hfront.stderr_eq, List.filterMap_append, List.append_assoc]
  exit_eq_one_iff := by
    rw [hback.exit_eq_one_iff, hfront.exit_eq_one_iff]
    simp only [List.mem_append, or_and_right, exists_or, or_assoc]
  exit_eq_zero_iff := by
    rw [hback.exit_eq_zero_iff, hfront.exit_eq_zero_iff]
    simp only [List.mem_append, or_imp, forall_and, and_assoc]

theorem reportLine_eq (path : String) (d : Diagnostic) :
    reportLine path d = path ++ ":" ++ toString d.range.start.line ++ ":"
      ++ toString d.range.start.column ++ ": error: " ++ d.message := by
  simp only [reportLine, Position.text, String.append_assoc]

/-- One path adds its lines, and the run goes on to fail once it has failed. -/
theorem checks_checkNext (before : Outcome) (path : String) :
    Checks files startLine before [path] (checkNext files startLine before path) := by
  rw [checkNext]
  cases hfile : files path with
  | error fault =>
      have hreports : reportsOf files startLine path = [] := by rw [reportsOf, hfile]
      have hfails : Fails files startLine path := Or.inl ⟨fault, hfile⟩
      have hline : failureLine (.read path fault)
          = "Error: failed to read " ++ path ++ ": " ++ fault.message := by
        change "Error: " ++ ("failed to read " ++ path ++ ": " ++ fault.message) = _
        simp only [← String.append_assoc]
        rfl
      rw [Session.parseFile_of_error _ hfile]
      constructor
      · simp [reportLines, hreports]
      · simp [failure?, hfile, hline]
      · simp [hfails]
      · simp [hfails]
  | ok bytes =>
      obtain ⟨session, hsession⟩ :
          ∃ session, ((sessionFor startLine path).parseBytes bytes).2 = session := ⟨_, rfl⟩
      have hreports : session.errors = reportsOf files startLine path := by
        rw [← hsession, reportsOf, hfile]
        rfl
      have hfails : Fails files startLine path ↔ session.errors ≠ [] := by
        simp [Fails, hfile, hreports]
      rw [Session.parseFile_of_ok _ hfile, hsession]
      dsimp only
      constructor
      · simp [reportLines, hreports, funext (reportLine_eq path)]
      · simp [failure?, hfile]
      · cases herrors : session.errors <;> simp [Session.errorCount, hfails, herrors]
      · cases herrors : session.errors <;> simp [Session.errorCount, hfails, herrors]

/-- Behind each number of paths the run has done what is asked for these. -/
theorem checks_foldl (paths : List String) (before : Outcome) :
    Checks files startLine before paths (paths.foldl (checkNext files startLine) before) := by
  induction paths generalizing before with
  | nil => exact checks_nil before
  | cons path paths ih => exact (checks_checkNext before path).append (ih _)

/-- Of any files the command prints in the order of the paths a line for each report about each
file that can be read and, apart from these, a line for each path that cannot be read. What is
printed for a path follows from that path and its file. The command ends with 1 if there is a path
that cannot be read or a report about a file, and with 0 otherwise. -/
theorem check_prints_for_every_path (files : Files) (startLine : Nat) (paths : List String) :
    let outcome := check files startLine paths
    outcome.stdout = paths.flatMap (reportLines files startLine) ∧
      outcome.stderr = paths.filterMap (failure? files) ∧
      (outcome.exit = 1 ↔ ∃ path ∈ paths, Fails files startLine path) ∧
      (outcome.exit = 0 ↔ ∀ path ∈ paths, ¬Fails files startLine path) := by
  intro outcome
  have hchecks : Checks files startLine ⟨0, [], []⟩ paths outcome :=
    checks_foldl paths ⟨0, [], []⟩
  refine ⟨hchecks.stdout_eq, hchecks.stderr_eq, ?_, ?_⟩
  · simpa using hchecks.exit_eq_one_iff
  · simpa using hchecks.exit_eq_zero_iff

end QoreSyntax.CommandLine
