import ScriptTree.RoundTrip

namespace ScriptTree

structure Session where
  document : Document
  settings : Settings

namespace Session

def start (text : Text) (settings : Settings) : Session := ⟨Document.parse text, settings⟩

/-- Apply a batch of edits; a batch with an error changes nothing. -/
def edit (s : Session) (edits : List Edit) : Except Edit.BatchError (Update × Session) := do
  let update ← Update.apply s.settings s.document edits
  return (update, { s with document := update.document })

def reparse (s : Session) (edits : List Edit) : Except Edit.BatchError (Update × Session) := do
  let update ← Update.apply {} s.document edits
  return (update, { s with document := update.document })

def validate (s : Session) (edits : List Edit) : Except Edit.BatchError Validation :=
  Validation.update s.settings s.document edits

def configure (s : Session) (settings : Settings) : Session := { s with settings := settings }

def load (s : Session) (text : Text) : Session := { s with document := Document.parse text }

end Session

end ScriptTree
