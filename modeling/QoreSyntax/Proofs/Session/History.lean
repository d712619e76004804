import Mathlib.Data.List.Induction
import QoreSyntax.Proofs.Session.Encoding
import QoreSyntax.Session.Holder

namespace QoreSyntax

namespace Session

inductive Request where
  | parseString (text : String)
  | parseBytes (bytes : List UInt8)
  | parseFile (path : String)
  | releaseTree
  | tree
  | findNode (p : Position)
  | errorCount
  | errors
  | error (index : Nat)

/-- A request, and the files as they are when it is made. -/
structure Call (ρ : Type) where
  files : Files
  request : ρ

inductive Answer where
  | status (status : Status)
  | fileStatus (result : Except SessionError Status)
  | tree (tree? : Option Tree)
  | node (result : Except SessionError (Option Node))
  | count (count : Nat)
  | errors (errors : List Diagnostic)
  | error (result : Except SessionError Diagnostic)

/-- What the session answers to the call, and the session after it. -/
def answer (s : Session) (call : Call Request) : Answer × Session :=
  match call.request with
  | .parseString text => (.status (s.parseString text).1, (s.parseString text).2)
  | .parseBytes bytes => (.status (s.parseBytes bytes).1, (s.parseBytes bytes).2)
  | .parseFile path =>
      (.fileStatus (s.parseFile call.files path).1, (s.parseFile call.files path).2)
  | .releaseTree => (.tree s.releaseTree.1, s.releaseTree.2)
  | .tree => (.tree s.tree?, s)
  | .findNode p => (.node (s.findNode p), s)
  | .errorCount => (.count s.errorCount, s)
  | .errors => (.errors s.errors, s)
  | .error index => (.error (s.error index), s)

section Answers

variable {σ κ : Type}

/-- The answers to calls that are made one after the other. -/
def answers (step : σ → κ → Answer × σ) : σ → List κ → List Answer
  | _, [] => []
  | s, call :: calls => (step s call).1 :: answers step (step s call).2 calls

def after (step : σ → κ → Answer × σ) (s : σ) (calls : List κ) : σ :=
  calls.foldl (fun s call => (step s call).2) s

theorem after_concat (step : σ → κ → Answer × σ) (s : σ) (calls : List κ) (call : κ) :
    after step s (calls ++ [call]) = (step (after step s calls) call).2 := by
  rw [after, List.foldl_append]
  rfl

end Answers

/-- The text that the call has parsed. A file that cannot be read has none. -/
def Call.text? (call : Call Request) : Option (List Char) :=
  match call.request with
  | .parseString text => some text.toList
  | .parseBytes bytes => some (Text.decode bytes)
  | .parseFile path => (call.files path).toOption.map Text.decode
  | _ => none

def Call.asksForRelease (call : Call Request) : Bool :=
  match call.request with
  | .releaseTree => true
  | _ => false

/-- The text that was parsed last, and whether the tree has been asked to be released since. -/
structure History where
  text? : Option (List Char)
  released : Bool

namespace History

def ofCalls (calls : List (Call Request)) : History :=
  { text? := (calls.filterMap Call.text?).getLast?
    released := (calls.reverse.takeWhile (·.text?.isNone)).any Call.asksForRelease }

def tree? (h : History) (options : Options) : Option Tree :=
  if h.released then none else h.text?.map fun text => (parse text options).1

def errors (h : History) (options : Options) : List Diagnostic :=
  match h.text? with
  | none => []
  | some text => (parse text options).2

/-- A parse fails if there is anything to report. -/
def parsed (text : List Char) (options : Options) : Status :=
  if (parse text options).2 = [] then .success else .failed

/-- What is to be answered to the call. -/
def answer (h : History) (options : Options) (call : Call Request) : Answer :=
  match call.request with
  | .parseString text => .status (parsed text.toList options)
  | .parseBytes bytes => .status (parsed (Text.decode bytes) options)
  | .parseFile path =>
      match call.files path with
      | .ok bytes => .fileStatus (.ok (parsed (Text.decode bytes) options))
      | .error fault => .fileStatus (.error (.read path fault))
  | .releaseTree | .tree => .tree (h.tree? options)
  | .findNode p =>
      match h.text? with
      | none => .node (.error .notParsed)
      | some text =>
          if h.released then .node (.error .treeReleased)
          else .node (.ok ((parse text options).1.findAt? p))
  | .errorCount => .count (h.errors options).length
  | .errors => .errors (h.errors options)
  | .error index =>
      if hindex : index < (h.errors options).length then .error (.ok (h.errors options)[index])
      else .error (.error (.indexOutOfRange index (h.errors options).length))

/-- The session in which the history results. -/
def session (h : History) (options : Options) : Session :=
  match h.text? with
  | none => Session.new options
  | some text =>
      { options := options
        slot := if h.released then .released else .present (parse text options).1
        errors := (parse text options).2 }

end History

theorem text?_parseFile (files : Files) (path : String) :
    Call.text? ⟨files, .parseFile path⟩ = (files path).toOption.map Text.decode :=
  rfl

theorem answer_of_text? (s : Session) {call : Call Request} {text : List Char}
    (h : call.text? = some text) : (s.answer call).2 = (s.parseText text).2 := by
  obtain ⟨files, request⟩ := call
  cases request with
  | parseString source =>
      cases h
      rfl
  | parseBytes bytes =>
      cases h
      rfl
  | parseFile path =>
      change (s.parseFile files path).2 = _
      cases hread : files path with
      | ok bytes =>
          rw [text?_parseFile, hread] at h
          cases h
          rw [s.parseFile_of_ok hread]
          rfl
      | error fault =>
          rw [text?_parseFile, hread] at h
          cases h
  | _ => cases h

/-- A call that parses nothing changes the session only if it releases the tree. -/
theorem answer_of_no_text (s : Session) {call : Call Request} (h : call.text? = none) :
    (s.answer call).2 = if call.asksForRelease then s.releaseTree.2 else s := by
  obtain ⟨files, request⟩ := call
  cases request with
  | parseString source => cases h
  | parseBytes bytes => cases h
  | parseFile path =>
      change (s.parseFile files path).2 = s
      cases hread : files path with
      | ok bytes =>
          rw [text?_parseFile, hread] at h
          cases h
      | error fault => rw [s.parseFile_of_error hread]
  | _ => rfl

theorem History.ofCalls_of_text? (calls : List (Call Request)) {call : Call Request}
    {text : List Char} (h : call.text? = some text) :
    ofCalls (calls ++ [call]) = ⟨some text, false⟩ := by
  rw [ofCalls, List.filterMap_append, List.filterMap_cons_some h, List.filterMap_nil,
    List.getLast?_concat, List.reverse_concat, List.takeWhile_cons, h]
  rfl

theorem History.ofCalls_of_no_text (calls : List (Call Request)) {call : Call Request}
    (h : call.text? = none) :
    ofCalls (calls ++ [call])
      = ⟨(ofCalls calls).text?, call.asksForRelease || (ofCalls calls).released⟩ := by
  rw [ofCalls, List.filterMap_append, List.filterMap_cons_none h, List.filterMap_nil,
    List.append_nil, List.reverse_concat, List.takeWhile_cons, h]
  rfl

theorem status_parseText (s : Session) (text : List Char) :
    (s.parseText text).1 = History.parsed text s.options := by
  rw [History.parsed]
  change (if (parse text s.options).2.isEmpty then Status.success else Status.failed) = _
  simp only [List.isEmpty_iff]

namespace History

theorem options_session (h : History) (options : Options) :
    (h.session options).options = options := by
  rw [session]
  split <;> rfl

theorem errors_session (h : History) (options : Options) :
    (h.session options).errors = h.errors options := by
  rw [session, errors]
  split <;> rfl

theorem tree?_session (h : History) (options : Options) :
    (h.session options).tree? = h.tree? options := by
  rcases h with ⟨- | text, - | -⟩ <;> rfl

theorem releaseTree_session (h : History) (options : Options) :
    (h.session options).releaseTree
      = (h.tree? options, (⟨h.text?, true⟩ : History).session options) := by
  rcases h with ⟨- | text, - | -⟩ <;> rfl

/-- A session answers as its history says. -/
theorem answer_session (h : History) (options : Options) (call : Call Request) :
    ((h.session options).answer call).1 = h.answer options call := by
  obtain ⟨files, request⟩ := call
  have hstatus : ∀ text, ((h.session options).parseText text).1 = parsed text options := by
    intro text
    rw [status_parseText, options_session]
  cases request with
  | parseString text => exact congrArg Answer.status (hstatus _)
  | parseBytes bytes => exact congrArg Answer.status (hstatus _)
  | parseFile path =>
      change Answer.fileStatus ((h.session options).parseFile files path).1 = _
      rw [answer]
      dsimp only
      cases hread : files path with
      | ok bytes =>
          rw [parseFile_of_ok _ hread]
          exact congrArg (Answer.fileStatus ∘ Except.ok) (hstatus _)
      | error fault => rw [parseFile_of_error _ hread]
  | releaseTree => exact congrArg Answer.tree (congrArg Prod.fst (h.releaseTree_session options))
  | tree => exact congrArg Answer.tree (h.tree?_session options)
  | findNode p => rcases h with ⟨- | text, - | -⟩ <;> rfl
  | errorCount => exact congrArg (Answer.count ∘ List.length) (h.errors_session options)
  | errors => exact congrArg Answer.errors (h.errors_session options)
  | error index =>
      change Answer.error ((h.session options).error index) = _
      rw [Session.error, errorCount, errors_session, answer]
      dsimp only
      split_ifs with hindex
      · rw [List.getElem?_eq_getElem hindex]
      · rw [List.getElem?_eq_none (Nat.le_of_not_lt hindex)]

end History

/-- The calls before have left the session as their history says. -/
theorem after_eq_session (options : Options) (calls : List (Call Request)) :
    after answer (new options) calls = (History.ofCalls calls).session options := by
  induction calls using List.reverseRecOn with
  | nil => rfl
  | append_singleton calls call ih =>
      rw [after_concat, ih]
      cases htext : call.text? with
      | some text =>
          rw [answer_of_text? _ htext, History.ofCalls_of_text? calls htext, parseText,
            History.options_session]
          rfl
      | none =>
          rw [answer_of_no_text _ htext, History.ofCalls_of_no_text calls htext]
          cases call.asksForRelease with
          | false => rfl
          | true => exact congrArg Prod.snd ((History.ofCalls calls).releaseTree_session options)

theorem answers_getElem? {σ κ : Type} (step : σ → κ → Answer × σ) (s : σ) (calls : List κ)
    (i : Nat) :
    (answers step s calls)[i]? = calls[i]?.map fun call =>
      (step (after step s (calls.take i)) call).1 := by
  induction calls generalizing s i with
  | nil => rfl
  | cons call calls ih =>
      cases i with
      | zero => rfl
      | succ i => exact ih _ i

/-- The trees that the session gives away in the course of the calls. -/
def releasedTrees : Session → List (Call Request) → List Tree
  | _, [] => []
  | s, call :: calls =>
      (if call.asksForRelease then s.releaseTree.1.toList else [])
        ++ releasedTrees (s.answer call).2 calls

theorem releaseTree_fst (s : Session) : s.releaseTree.1 = s.tree? := by
  rw [releaseTree, tree?]
  cases s.slot <;> rfl

theorem tree?_releaseTree (s : Session) : s.releaseTree.2.tree? = none := by
  obtain ⟨options, - | tree | -, errors⟩ := s <;> rfl

theorem errors_releaseTree (s : Session) : s.releaseTree.2.errors = s.errors := by
  obtain ⟨options, - | tree | -, errors⟩ := s <;> rfl

/-- As long as no text is parsed the tree is given away the first time that it is asked for, and
then no more. -/
theorem releasedTrees_eq (s : Session) {calls : List (Call Request)}
    (h : ∀ call ∈ calls, call.text? = none) :
    s.releasedTrees calls = if calls.any Call.asksForRelease then s.tree?.toList else [] := by
  induction calls generalizing s with
  | nil => rfl
  | cons call calls ih =>
      rw [releasedTrees, answer_of_no_text s (h call List.mem_cons_self),
        ih _ fun call hmem => h call (List.mem_cons_of_mem _ hmem), List.any_cons]
      cases call.asksForRelease with
      | false => rfl
      | true =>
          simp only [Bool.true_or, if_true, releaseTree_fst, tree?_releaseTree, Option.toList_none,
            ite_self, List.append_nil]

end Session

namespace SessionHolder

open Session (Answer Call answers after)

/-- What can be asked of a holder, or of the session in it. -/
inductive Request where
  | parseString (text : String)
  | parseFile (path : String)
  | findNode (p : Position)
  | tree
  | releaseTree
  | errorCount
  | errors
  | error (index : Nat)

def Request.toSession : Request → Session.Request
  | .parseString text => .parseString text
  | .parseFile path => .parseFile path
  | .findNode p => .findNode p
  | .tree => .tree
  | .releaseTree => .releaseTree
  | .errorCount => .errorCount
  | .errors => .errors
  | .error index => .error index

def toSession (call : Call Request) : Call Session.Request :=
  ⟨call.files, call.request.toSession⟩

def answer (h : SessionHolder) (call : Call Request) : Answer × SessionHolder :=
  match call.request with
  | .parseString text => (.status (h.parseString text).1, (h.parseString text).2)
  | .parseFile path =>
      (.fileStatus (h.parseFile call.files path).1, (h.parseFile call.files path).2)
  | .findNode p => (.node (h.findNode p), h)
  | .tree => (.tree h.tree?, h)
  | .releaseTree => (.tree h.releaseTree.1, h.releaseTree.2)
  | .errorCount => (.count h.errorCount, h)
  | .errors => (.errors h.session.errors, h)
  | .error index => (.error (h.error index), h)

/-- A holder passes each call on to its session. -/
theorem answer_eq (h : SessionHolder) (call : Call Request) :
    h.answer call
      = ((h.session.answer (toSession call)).1, ⟨(h.session.answer (toSession call)).2⟩) := by
  obtain ⟨files, request⟩ := call
  cases request <;> rfl

theorem answers_eq (h : SessionHolder) (calls : List (Call Request)) :
    answers answer h calls = answers Session.answer h.session (calls.map toSession) := by
  induction calls generalizing h with
  | nil => rfl
  | cons call calls ih =>
      rw [List.map_cons, answers, answers, ih, answer_eq]

end SessionHolder

namespace Session

/-- What sessions with the options do, one call after the other. -/
structure FollowsHistory (options : Options) : Prop where
  /-- Each answer follows from the text that was parsed last, and from whether the tree has been
  asked to be released since. -/
  answers (calls : List (Call Request)) (i : Nat) :
    (answers answer (new options) calls)[i]?
      = calls[i]?.map ((History.ofCalls (calls.take i)).answer options)
  /-- A parse replaces the tree and the errors, and fails if there are any. -/
  parse (before : List (Call Request)) {call : Call Request} {text : List Char}
    (h : call.text? = some text) :
    after answer (new options) (before ++ [call])
      = ⟨options, .present (parse text options).1, (parse text options).2⟩
  /-- A file that cannot be read leaves everything as it is. -/
  unreadable (before : List (Call Request)) {files : Files} {path : String} {fault : ReadFault}
    (h : files path = .error fault) :
    (after answer (new options) before).answer ⟨files, .parseFile path⟩
      = (.fileStatus (.error (.read path fault)), after answer (new options) before)
  /-- The tree of a text is released once until the next text is parsed. -/
  releasedTrees (before : List (Call Request)) {call : Call Request} {text : List Char}
    {calls : List (Call Request)} (h : call.text? = some text)
    (hcalls : ∀ call ∈ calls, call.text? = none) :
    (after answer (new options) (before ++ [call])).releasedTrees calls
      = if calls.any Call.asksForRelease then [(QoreSyntax.parse text options).1] else []
  /-- Releasing the tree leaves the errors as they are. -/
  errors_releaseTree (before : List (Call Request)) :
    (after answer (new options) before).releaseTree.2.errors
      = (after answer (new options) before).errors
  /-- A holder answers like a session. -/
  holder (calls : List (Call SessionHolder.Request)) :
    Session.answers SessionHolder.answer (SessionHolder.new options) calls
      = Session.answers answer (new options) (calls.map SessionHolder.toSession)

theorem after_of_text? (options : Options) (before : List (Call Request)) {call : Call Request}
    {text : List Char} (h : call.text? = some text) :
    after answer (new options) (before ++ [call])
      = ⟨options, .present (parse text options).1, (parse text options).2⟩ := by
  rw [after_eq_session, History.ofCalls_of_text? before h]
  rfl

/-- Of all that has been asked of a session before only the last text matters, and whether its tree
has been released. -/
theorem answers_follow_from_history (options : Options) : FollowsHistory options where
  answers calls i := by
    simp only [answers_getElem?, after_eq_session, History.answer_session]
  parse before _ _ h := after_of_text? options before h
  unreadable _ _ _ _ h :=
    congrArg (fun read => (Answer.fileStatus read.1, read.2)) (parseFile_of_error _ h)
  releasedTrees before _ _ _ h hcalls := by
    rw [after_of_text? options before h, releasedTrees_eq _ hcalls]
    rfl
  errors_releaseTree _ := errors_releaseTree _
  holder calls := SessionHolder.answers_eq (SessionHolder.new options) calls

end Session

end QoreSyntax
