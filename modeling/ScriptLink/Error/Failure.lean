import ScriptLink.Error.Script
import ScriptLink.Error.System
import ScriptLink.Wire.Decode
import ScriptLink.Wire.Encode

/-! # How an operation fails

    Every failure of the link belongs to the family of the link's own errors, and some belong to narrower families
    too. What the operating system reports while the environment is prepared passes through unchanged and belongs to
    none of them. -/

namespace ScriptLink

/-- Why an operation gives no value. -/
inductive Failure where
  /-- A value of the caller has no image; nothing was sent. -/
  | refused (refusal : Refusal)
  /-- The engine cannot be prepared, started or understood. -/
  | engine (message : Text)
  /-- The engine is gone. -/
  | closed (message : Text)
  /-- The result is no value. -/
  | unreadable (reason : Unreadable)
  /-- The script threw. -/
  | script (error : ScriptError)
  /-- The operating system refused something that the engine needs. -/
  | system (fault : SystemFault)
  /-- A path of the environment cannot be used. -/
  | file (fault : FileFault)
  /-- The program cannot be named to the system. -/
  | program (fault : NameFault)
deriving DecidableEq

/-- The wording of a failure; that of a script's error is without the stack. -/
def Failure.message : Failure → Text
  | .refused refusal => refusal.message
  | .engine message => message
  | .closed message => message
  | .unreadable reason => reason.message
  | .script error => error.message
  | .system fault => fault.message
  | .file fault => fault.message
  | .program fault => fault.message

/-- The classes of errors that the link raises. -/
inductive ErrorClass where
  | root
  | refusal
  | engine
  | closed
  | script (kind : ScriptErrorKind)
deriving DecidableEq

/-- The class of the error that tells of a failure, if it is one of the link's own. What cannot be shown, read to its
    end or made a float, and what the operating system refuses, is told by errors of others. -/
def Failure.errorClass? : Failure → Option ErrorClass
  | .refused (.unshownKey _) => none
  | .refused _ => some .refusal
  | .engine _ | .unreadable (.unexpected _) => some .engine
  | .closed _ => some .closed
  | .script error => some (.script error.kind)
  | .unreadable _ | .system _ | .file _ | .program _ => none

/-- The families to which errors may belong. The last two are families of the caller's own. -/
inductive ErrorFamily where
  | link
  | refusal
  | engine
  | closed
  | script
  | type
  | value
deriving DecidableEq

/-- The family of the caller's own errors to which the script errors of a kind belong. -/
def ScriptErrorKind.hostFamily : ScriptErrorKind → Option ErrorFamily
  | .typeError => some .type
  | .rangeError | .uriError => some .value
  | .plain | .syntaxError | .referenceError | .evalError => none

/-- The families to which the errors of a class belong. -/
def ErrorClass.families : ErrorClass → List ErrorFamily
  | .root => [.link]
  | .refusal => [.link, .refusal, .type]
  | .engine => [.link, .engine]
  | .closed => [.link, .engine, .closed]
  | .script kind => [.link, .script] ++ kind.hostFamily.toList

end ScriptLink
