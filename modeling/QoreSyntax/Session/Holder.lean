import QoreSyntax.Session.Basic

namespace QoreSyntax

structure SessionHolder where
  session : Session

namespace SessionHolder

def new (options : Options) : SessionHolder :=
  ⟨Session.new options⟩

def parseString (h : SessionHolder) (text : String) : Status × SessionHolder :=
  let (status, session) := h.session.parseString text
  (status, ⟨session⟩)

def parseFile (h : SessionHolder) (files : Files) (path : String) :
    Except SessionError Status × SessionHolder :=
  let (status, session) := h.session.parseFile files path
  (status, ⟨session⟩)

def findNode (h : SessionHolder) (p : Position) : Except SessionError (Option Node) :=
  h.session.findNode p

def tree? (h : SessionHolder) : Option Tree :=
  h.session.tree?

def releaseTree (h : SessionHolder) : Option Tree × SessionHolder :=
  let (tree, session) := h.session.releaseTree
  (tree, ⟨session⟩)

def errorCount (h : SessionHolder) : Nat :=
  h.session.errorCount

def error (h : SessionHolder) (index : Nat) : Except SessionError Diagnostic :=
  h.session.error index

end SessionHolder

end QoreSyntax
