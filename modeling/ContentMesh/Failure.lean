/-!
# ContentMesh.Failure — why an operation failed

A failure is its cause; the wording, whether another attempt may succeed, and the status a peer is answered with
are functions of it.
-/

namespace ContentMesh

/-- What is wrong with a message. -/
inductive MessageFault where
  | consumed
  | malformedEntity (text : String)
  | noReceiver (kind : String)
  | noQuestionId
  | unknownQuestion (id : String)
  | unexpectedAnswer (source id : String)
  | questionPending (id : String)
  | incomplete
  | badDate (text fault : String)
  | opaqueValue (name : String)
  | undecodable (text : String)
  | topologyWithoutEntity
  | other (text : String)
  deriving DecidableEq, Repr

/-- The wording of a message fault. -/
def MessageFault.message : MessageFault → String
  | consumed => "payload already consumed"
  | malformedEntity s => "malformed entity reference '" ++ s ++ "'"
  | noReceiver kind => "no receiver for message type '" ++ kind ++ "'"
  | noQuestionId => "answer without question id"
  | unknownQuestion id => "unknown question " ++ id
  | unexpectedAnswer r id => "unexpected answer from " ++ r ++ " to question " ++ id
  | questionPending id => "question " ++ id ++ " is already pending"
  | incomplete => "message id and type are required"
  | badDate t f => "bad date '" ++ t ++ "': " ++ f
  | opaqueValue name => "metadata '" ++ name ++ "' is not text"
  | undecodable t => "metadata '" ++ t ++ "' is not UTF-8"
  | topologyWithoutEntity => "topology message without entity"
  | other s => s

/-- What is wrong with a signature. -/
inductive SignatureFault where
  | noKeyForTarget
  | noKeyForSender
  | missing
  | notHex
  | mismatch (id : String)
  | other (text : String)
  deriving DecidableEq, Repr

/-- The wording of a signature fault. -/
def SignatureFault.message : SignatureFault → String
  | noKeyForTarget => "no link key for target"
  | noKeyForSender => "no link key for sender"
  | missing => "missing signature"
  | notHex => "signature is not hex"
  | mismatch id => "signature mismatch for message " ++ id
  | other s => s

/-- Why an operation failed. -/
inductive Failure where
  | invalid (fault : MessageFault)
  | unknownInstance (name : String)
  | notFound (what : String)
  | network (text : String)
  | rejected (uri : String) (status : Nat)
  | store (text : String)
  | signature (fault : SignatureFault)
  | queueFull
  | timeout (ms : Nat)
  | config (text : String)
  | serialization
  | io
  | shutdown
  deriving DecidableEq, Repr

namespace Failure

/-- The wording of a failure. -/
def message : Failure → String
  | invalid f => "invalid message: " ++ f.message
  | unknownInstance n => "unknown instance: " ++ n
  | notFound w => "not found: " ++ w
  | network t => "network error: " ++ t
  | rejected uri status => "rejected by peer " ++ uri ++ ": status " ++ toString status
  | store t => "store error: " ++ t
  | signature f => "signature error: " ++ f.message
  | queueFull => "receive queue full"
  | timeout ms => "timed out after " ++ toString ms ++ " ms"
  | config t => "configuration error: " ++ t
  | serialization => "serialization error"
  | io => "I/O error"
  | shutdown => "replication node shut down"

/-- Whether another attempt may succeed. -/
def retryable : Failure → Bool
  | network _ | timeout _ | queueFull | io => true
  | rejected _ status => status == 429
  | _ => false

/-- The status that a peer is answered with. -/
def httpStatus : Failure → Nat
  | invalid _ | serialization => 400
  | unknownInstance _ | signature _ => 403
  | notFound _ => 404
  | queueFull | shutdown => 503
  | network _ | rejected .. => 502
  | timeout _ => 504
  | store _ | config _ | io => 500

/-- The failure that a peer's error status stands for: a server error may pass, any other is final. -/
def ofStatus (uri : String) (status : Nat) : Failure :=
  if 500 ≤ status then network (uri ++ " answered " ++ toString status) else rejected uri status

/-- What the caller sees of a failure at the peer `uri`. -/
def seenFrom (uri : String) (f : Failure) : Failure := ofStatus uri f.httpStatus

end Failure

end ContentMesh
