import ForeignBindings.Editor.Document
import ForeignBindings.Text.Catalog

/-! The analyses that a server keeps of the documents that an editor has open, and what each message
of the editor leads to.  The texts of the documents are not kept by the server but by the workspace
that it is given, which takes in a message before the server does. -/

namespace ForeignBindings.Editor

def serverName : Text := "bindcheck-lsp".toList

def serverVersion : Text := "v0.1.0".toList

/-- What an editor can say or ask about the document of a name. -/
inductive Message
  | opened (uri text : Text)
  | changed (uri text : Text)
  | saved (uri : Text)
  | closed (uri : Text)
  | hover (uri : Text) (place : Place)
  | symbols (uri : Text)

/-- What is answered to a message. -/
inductive Answer
  | nothing
  | hover (hover : Option Hover)
  | symbols (symbols : List Symbol)

/-- The warnings of a document, as they are sent to an editor. -/
structure Publication where
  uri : Text
  notices : List Notice
  deriving DecidableEq

/-- What a message leads to: what is published, and the answer. -/
structure Reaction where
  published : List Publication
  answer : Answer

/-- The texts of documents by name, as the workspace has them. -/
abbrev Workspace := Text → Option Text

/-- What the last analysis of each open document found, by name. -/
abbrev Session := Catalog Document

namespace Session

/-- A text is analyzed, what is found is kept under its name, and its warnings are published. -/
def analyze (session : Session) (uri text : Text) : Session × Reaction :=
  let document := Document.ofSource uri text
  (session.insert uri document, ⟨[⟨uri, document.warnings⟩], .nothing⟩)

/-- A text of the workspace is analyzed, if there is one. -/
def analyzeFrom (session : Session) (workspace : Workspace) (uri : Text) : Session × Reaction :=
  match workspace uri with
  | some text => analyze session uri text
  | none => (session, ⟨[], .nothing⟩)

/-- The analyses after a message, and what it leads to, in a workspace that has taken it in. -/
def handle (session : Session) (workspace : Workspace) : Message → Session × Reaction
  | .opened uri text => analyze session uri text
  | .changed uri _ | .saved uri => analyzeFrom session workspace uri
  | .closed uri => (session.erase uri, ⟨[⟨uri, []⟩], .nothing⟩)
  | .hover uri place =>
    (session, ⟨[], .hover ((session.lookup uri).bind fun document =>
      document.hover? place.line)⟩)
  | .symbols uri =>
    (session, ⟨[], match session.lookup uri with
      | some document => .symbols document.symbols
      | none => .nothing⟩)

end Session

end ForeignBindings.Editor
