import ScriptLink.Script.Handler
import ScriptLink.Session

/-! # Sessions with a runtime

    Here the peer of a session is the runtime itself: the lines that the session sends are handled in a realm, and
    the answers come back over the connection before the caller goes on. -/

namespace ScriptLink

/-- A session and the realm at its other end. -/
structure Live where
  session : Session
  realm : Script.Realm

namespace Live

/-- The lines that a session has sent. -/
def sentLines (s : Session) : List (List UInt8) :=
  s.engine.connection.elim [] Connection.written

/-- The lines that a session has sent since an earlier state of it. -/
def sentSince (before after : Session) : List (List UInt8) :=
  (sentLines after).drop (sentLines before).length

/-- The session after it has heard the answers to what it sent since an earlier state. -/
def hearAnswers (scripts : Script.Scripts) (live : Live) (s : Session) : Session :=
  s.happen (.written (Script.answerLines scripts (sentSince live.session s) live.realm).1)

/-- The live session after its session has gone on to a later state. -/
def advance (scripts : Script.Scripts) (live : Live) (s : Session) : Live :=
  ⟨s, (Script.answerLines scripts (sentSince live.session s) live.realm).2⟩

/-- An operation from its beginning to its end. -/
def perform (scripts : Script.Scripts) (live : Live) (g : Host.Graph) (operation : Operation) :
    Option Outcome × Live :=
  let (outcome, s) := live.session.perform g operation (live.hearAnswers scripts)
  (outcome, live.advance scripts s)

/-- A request from its beginning to its end. -/
def ask (scripts : Script.Scripts) (live : Live) (operation payload : Host.Value) : Option Outcome × Live :=
  let (outcome, s) := live.session.ask operation payload (live.hearAnswers scripts)
  (outcome, live.advance scripts s)

/-- The session closed. -/
def close (live : Live) : Live := { live with session := live.session.close }

end Live

end ScriptLink
