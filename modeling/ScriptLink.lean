import ScriptLink.Host.Foreign
import ScriptLink.Live
import ScriptLink.Marker
import ScriptLink.Script.Program
import ScriptLink.Proofs.Addressee
import ScriptLink.Proofs.Answering
import ScriptLink.Proofs.Belongings
import ScriptLink.Proofs.Chunking
import ScriptLink.Proofs.Conversation
import ScriptLink.Proofs.Finality
import ScriptLink.Proofs.Installing
import ScriptLink.Proofs.LastWord
import ScriptLink.Proofs.Listening
import ScriptLink.Proofs.LoopOutcome
import ScriptLink.Proofs.LoopSurvival
import ScriptLink.Proofs.Nearest
import ScriptLink.Proofs.Rejection
import ScriptLink.Proofs.Reporting
import ScriptLink.Proofs.RequestLines
import ScriptLink.Proofs.Results
import ScriptLink.Proofs.Returning
import ScriptLink.Proofs.SharedMarker
import ScriptLink.Proofs.Starting
import ScriptLink.Proofs.Stream
import ScriptLink.Proofs.TaggedForm
