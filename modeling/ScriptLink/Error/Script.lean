import ScriptLink.Host.Display

/-! # Errors of scripts

    Whatever a script throws arrives as a report: a name, a message and a stack. The names of six standard errors
    have a kind of their own; any other error is of the plain kind and keeps its name. A report without a name and a
    message that are strings is itself the message of a plain error. -/

namespace ScriptLink

/-- The kinds of script errors that a caller can tell apart. -/
inductive ScriptErrorKind where
  | plain
  | syntaxError
  | referenceError
  | typeError
  | rangeError
  | evalError
  | uriError
deriving DecidableEq, Inhabited

/-- The name that errors of a kind have unless they bring their own. -/
def ScriptErrorKind.standardName : ScriptErrorKind → Text
  | .plain => .ofString "Error"
  | .syntaxError => .ofString "SyntaxError"
  | .referenceError => .ofString "ReferenceError"
  | .typeError => .ofString "TypeError"
  | .rangeError => .ofString "RangeError"
  | .evalError => .ofString "EvalError"
  | .uriError => .ofString "URIError"

/-- The kinds that are known by their name. -/
def ScriptErrorKind.named : List ScriptErrorKind :=
  [.syntaxError, .referenceError, .typeError, .rangeError, .evalError, .uriError]

/-- The kind of the errors with this name. -/
def ScriptErrorKind.ofName (name : Text) : ScriptErrorKind :=
  (named.find? fun kind => kind.standardName = name).getD .plain

/-- An error of a script. -/
structure ScriptError where
  kind : ScriptErrorKind
  name : Text
  message : Text
  stack : Text
deriving DecidableEq, Inhabited

namespace ScriptError

/-- An error of a kind; an empty name stands for the kind's own. -/
def make (kind : ScriptErrorKind) (message stack name : Text) : ScriptError where
  kind := kind
  name := if name = [] then kind.standardName else name
  message := message
  stack := stack

/-- The message of an error that was given none. -/
def defaultMessage : Text :=
  .ofString "unknown error"

/-- The whole text of an error: the message, and the stack below it if there is one. -/
def text (error : ScriptError) : Text :=
  if error.stack = [] then error.message else error.message ++ .ofString ":\n" ++ error.stack

/-- The error that a report with these entries describes, if name and message are strings. -/
def ofEntries? (entries : List (Host.Value × Host.Value)) : Option ScriptError := do
  let name ← (← Host.lookup? entries (.ofString "name")).text?
  let message ← (← Host.lookup? entries (.ofString "message")).text?
  let stack := ((Host.lookup? entries (.ofString "stack")).bind Host.Value.text?).getD []
  return make (.ofName name) message stack name

/-- The plain error that stands for a report that describes none. -/
def malformed (report : Host.Value) : ScriptError :=
  make .plain (.ofString "malformed error: " ++ report.display) [] []

/-- The calls that the stack has room for where a report is translated. -/
def reportRoom : Nat := 995

/-- What keeps a report from becoming an error, if anything: one that describes none has to be shown. -/
def unshown? (report : Host.Value) : Option Host.Unshown :=
  match report with
  | .mapping _ entries => if (ofEntries? entries).isSome then none else report.unshown? reportRoom
  | _ => report.unshown? reportRoom

/-- The error that a report describes. -/
def ofReport (report : Host.Value) : ScriptError :=
  match report with
  | .mapping _ entries => (ofEntries? entries).getD (malformed report)
  | _ => malformed report

end ScriptError

end ScriptLink
