/-
# Signing.Broker -- the broker between a client and its external signers

The loop of `serveBroker` after its initialization: each request of the client is
checked and answered, a signing request by an exchange with the signer of its scope.
An error of that exchange ends the loop.
-/
import AxiomEncode.Signing.Signer

namespace AxiomEncode.Signing

open Theory

set_option autoImplicit false

def protocolVersion : Int := 4

/-- An Ed25519 key, with what its holder and its verifier rely on. -/
structure KeyPair where
  sign : Bytes → Bytes
  verify : Bytes → Bytes → Bool
  publicKey : Bytes
  length_sign : ∀ message, (sign message).length = 64
  verify_sign : ∀ message, verify message (sign message) = true

/-- `int64` arithmetic. -/
def wrapInt64 (value : Int) : Int := (value + 2 ^ 63) % 2 ^ 64 - 2 ^ 63

/-! ## The exchange with a signer -/

/-- The request that the broker encodes; an empty payload is left out. -/
def signRequestJson (id : Int) (scope : Text) (payload : Bytes) : Json :=
  omitEmpty [("version", some (.int signerProtocolVersion)), ("id", some (.int id)),
    ("op", some (.str "sign".toList)), ("scope", some (.str scope)), ("challenge", none),
    ("payload", if payload.isEmpty then none else some (bytesJson payload))]

structure ReceivedResponse where
  version : Int
  id : Int
  ok : Bool
  error : Text
  publicKey : Option Bytes
  signature : Option Bytes
  presentFields : List Text

def signerResponseFields : List String :=
  ["version", "id", "ok", "error", "public_key", "signature"]

def unmarshalSignerResponse (value : Json) : Except Text ReceivedResponse := do
  let members ← knownFields signerResponseFields value
  let version ← intField members "version"
  let id ← intField members "id"
  let ok ← boolField members "ok"
  let error ← textField members "error"
  let publicKey ← bytesField members "public_key"
  let signature ← bytesField members "signature"
  pure { version, id, ok, error, publicKey, signature,
         presentFields := members.map Prod.fst }

def receiveSignerResponse (frame : Frame) : Except Text ReceivedResponse := do
  let value ← receiveFrame frame
  unmarshalSignerResponse value

/-- A signer of one scope, behind its connection. -/
structure ExternalSigner where
  key : KeyPair
  nextID : Int
  server : SignerServer

namespace ExternalSigner

/-- What comes back for a request, and the state of the signer behind. -/
def exchange (signer : ExternalSigner) (id : Int) (request : Json) :
    Except Text (ReceivedResponse × SignerServer) := do
  match sendFrame request with
  | none => .error "signing broker frame exceeds its size limit".toList
  | some frame => do
    -- a frame that the signer cannot read closes the connection
    let received ← receiveSignerRequest frame
    let reply := handle signer.key.sign signer.server received
    match sendFrame reply.response.json with
    | none => .error "EOF".toList
    | some frame => do
      let response ← receiveSignerResponse frame
      require (response.version = signerProtocolVersion && response.id = id)
        "external signer response identity is invalid".toList
      require (response.ok || (exactFields response.presentFields ["version", "id", "ok", "error"] &&
          !response.error.isEmpty)) "external signer error response is malformed".toList
      pure (response, reply.server)

/-- `sign`: the signature over a payload, checked before it is handed on. -/
def signPayload (signer : ExternalSigner) (payload : Bytes) :
    Except Text (Bytes × ExternalSigner) := do
  let message := signedMessage signerSignatureDomain signer.server.scope payload
  let (response, server) ← signer.exchange signer.nextID
    (signRequestJson signer.nextID signer.server.scope payload)
  require response.ok ("external signer rejected the request: ".toList ++ response.error)
  let signature := response.signature.getD []
  require (exactFields response.presentFields ["version", "id", "ok", "signature"] &&
    signature.length == 64 && signer.key.verify message signature)
    "external signer returned an invalid signature".toList
  pure (signature, { signer with nextID := wrapInt64 (signer.nextID + 1), server })

end ExternalSigner

/-! ## The requests of the client -/

structure BrokerRequest where
  version : Int
  id : Int
  operation : Text
  payload : Option Bytes
  presentFields : List Text

def initializationFields : List String :=
  ["apply_public_key", "eval_public_key", "corpus_release_public_key",
    "corpus_release_public_keys"]

def brokerRequestFields : List String := ["version", "id", "op", "payload"] ++ initializationFields

/-- A field of byte arrays. -/
def byteArraysField (members : Members) (name : String) : Except Text Unit :=
  match Json.get? members name with
  | none | some .null => .ok ()
  | some (.arr items) => do
    let _ ← items.mapM fun item => bytesField [("item".toList, item)] "item"
    pure ()
  | some _ => .error "json: cannot unmarshal into [][]uint8".toList

/-- After the initialization the key fields are read only to be refused. -/
def unmarshalBrokerRequest (value : Json) : Except Text BrokerRequest := do
  let members ← knownFields brokerRequestFields value
  let version ← intField members "version"
  let id ← intField members "id"
  let operation ← textField members "op"
  let payload ← bytesField members "payload"
  let _ ← bytesField members "apply_public_key"
  let _ ← bytesField members "eval_public_key"
  let _ ← bytesField members "corpus_release_public_key"
  byteArraysField members "corpus_release_public_keys"
  pure { version, id, operation, payload, presentFields := members.map Prod.fst }

def receiveBrokerRequest (frame : Frame) : Except Text BrokerRequest := do
  let value ← receiveFrame frame
  unmarshalBrokerRequest value

/-- `validateBrokerRequestEnvelope`: the identifier that was last once it passes. -/
def validateBrokerRequestEnvelope (request : BrokerRequest) (lastRequestID : Int) :
    Except Text Int := do
  require (request.version = protocolVersion && hasField request.presentFields "version" &&
    hasField request.presentFields "id" && hasField request.presentFields "op")
    "Signing broker request is malformed".toList
  require (0 < request.id && lastRequestID < request.id)
    "Signing broker request ID must be positive and strictly increasing".toList
  pure request.id

inductive Capability where
  | apply
  | eval
  deriving DecidableEq

def Capability.scope : Capability → Text
  | .apply => scopeApply
  | .eval => scopeEval

def Capability.operation (capability : Capability) : Text := capability.scope ++ "_sign".toList

inductive Operation where
  | shutdown
  | status
  | sign (capability : Capability)

def validateBrokerRequestOperation (request : BrokerRequest) : Except Text Operation := do
  require (!initializationFields.any fun name => hasField request.presentFields name)
    "Signing broker request contains forbidden initialization fields".toList
  let plain := exactFields request.presentFields ["version", "id", "op"]
  let signs := exactFields request.presentFields ["version", "id", "op", "payload"] &&
    request.payload.isSome
  if request.operation = "shutdown".toList then do
    require plain "Signing broker shutdown request is malformed".toList
    pure .shutdown
  else if request.operation = "status".toList then do
    require plain "Signing broker status request is malformed".toList
    pure .status
  else if request.operation = Capability.apply.operation then do
    require signs "Signing broker signing request is malformed".toList
    pure (.sign .apply)
  else if request.operation = Capability.eval.operation then do
    require signs "Signing broker signing request is malformed".toList
    pure (.sign .eval)
  else do
    require plain "Signing broker request is malformed".toList
    .error "Signing broker operation is not supported".toList

/-! ## The loop -/

structure BrokerStatus where
  capabilities : List Text
  applyPublicKey : Bytes
  evalPublicKey : Bytes
  corpusReleasePublicKey : Bytes
  corpusReleasePublicKeys : List Bytes

def BrokerStatus.json (status : BrokerStatus) : Json :=
  .obj [("capabilities".toList, .arr (status.capabilities.map .str)),
    ("apply_public_key".toList, bytesJson status.applyPublicKey),
    ("eval_public_key".toList, bytesJson status.evalPublicKey),
    ("corpus_release_public_key".toList, bytesJson status.corpusReleasePublicKey),
    ("corpus_release_public_keys".toList,
      .arr (status.corpusReleasePublicKeys.map bytesJson))]

structure Broker where
  status : BrokerStatus
  applySigner : Option ExternalSigner
  evalSigner : Option ExternalSigner
  lastRequestID : Int

def Broker.signer (broker : Broker) : Capability → Option ExternalSigner
  | .apply => broker.applySigner
  | .eval => broker.evalSigner

def Broker.withSigner (broker : Broker) (signer : ExternalSigner) : Capability → Broker
  | .apply => { broker with applySigner := some signer }
  | .eval => { broker with evalSigner := some signer }

def Capability.unprovisioned : Capability → Text
  | .apply => "Apply manifest signer is not provisioned".toList
  | .eval => "Eval evidence signer is not provisioned".toList

def Capability.failed : Capability → Text
  | .apply => "External apply signer failed".toList
  | .eval => "External eval signer failed".toList

def brokerResponse (id : Int) (result : Json) : Json :=
  .obj [("version".toList, .int protocolVersion), ("id".toList, .int id), ("ok".toList, .bool true),
    ("result".toList, result)]

def brokerError (id : Int) (message : Text) : Json :=
  .obj [("version".toList, .int protocolVersion), ("id".toList, .int id), ("ok".toList, .bool false),
    ("error".toList, .str message), ("result".toList, .obj [])]

/-- What a turn of the loop leaves: the frame it sent, if any, and the broker, while it
still serves. -/
structure BrokerTurn where
  sent : Option Frame
  broker : Option Broker

/-- Send an answer and go on, or end with an answer that cannot be sent. -/
def Broker.answer (broker : Broker) (payload : Json) : BrokerTurn :=
  match sendFrame payload with
  | none => { sent := none, broker := none }
  | some frame => { sent := some frame, broker := some broker }

def Broker.perform (broker : Broker) (request : BrokerRequest) : Operation → BrokerTurn
  | .shutdown => { sent := none, broker := none }
  | .status => broker.answer (brokerResponse request.id broker.status.json)
  | .sign capability =>
    match broker.signer capability with
    | none => broker.answer (brokerError request.id capability.unprovisioned)
    | some signer =>
      match signer.signPayload (request.payload.getD []) with
      | .error _ =>
        { sent := sendFrame (brokerError request.id capability.failed), broker := none }
      | .ok (signature, signer) =>
        (broker.withSigner signer capability).answer (brokerResponse request.id
          (.obj [("signature".toList, bytesJson signature)]))

/-- One turn of `serveBroker`. -/
def Broker.serve (broker : Broker) (frame : Frame) : BrokerTurn :=
  match receiveBrokerRequest frame with
  | .error _ => { sent := none, broker := none }
  | .ok request =>
    match validateBrokerRequestEnvelope request broker.lastRequestID with
    | .error message => broker.answer (brokerError request.id message)
    | .ok last =>
      let broker := { broker with lastRequestID := last }
      match validateBrokerRequestOperation request with
      | .error message => broker.answer (brokerError request.id message)
      | .ok operation => broker.perform request operation

/-! ## The client -/

mutual

/-- No object lists a name twice. -/
def uniqueNames : Json → Bool
  | .arr items => uniqueNamesItems items
  | .obj members => decide (members.map Prod.fst).Nodup && uniqueNamesMembers members
  | _ => true

def uniqueNamesItems : List Json → Bool
  | [] => true
  | item :: items => uniqueNames item && uniqueNamesItems items

def uniqueNamesMembers : Members → Bool
  | [] => true
  | (_, value) :: members => uniqueNames value && uniqueNamesMembers members

end

/-- The calls of a client. -/
inductive Call where
  | status
  | sign (capability : Capability) (payload : Bytes)

/-- The request of a call, its members in the order of their names. -/
def Call.requestJson (id : Int) : Call → Json
  | .status =>
    .obj [("id".toList, .int id), ("op".toList, .str "status".toList),
      ("version".toList, .int protocolVersion)]
  | .sign capability payload =>
    .obj [("id".toList, .int id), ("op".toList, .str capability.operation),
      ("payload".toList, bytesJson payload), ("version".toList, .int protocolVersion)]

def connectionFailed {α : Type} : Except Text α :=
  .error "Signing broker connection failed".toList

/-- The member is this integer. -/
def isMember (members : Members) (name : String) (value : Int) : Bool :=
  match Json.get? members name with
  | some (.int found) => found == value
  | _ => false

/-- `_receive_frame`: the members of the object in a frame. -/
def receiveObject (frame : Frame) : Except Text Members :=
  if maxFrameBytes < frame.length then
    .error "Signing broker frame exceeds its size limit".toList
  else
    match frame.value with
    | none => .error "Signing broker frame is malformed".toList
    | some (.obj members) => if uniqueNames (.obj members) then .ok members else connectionFailed
    | some _ => .error "Signing broker frame must be an object".toList

/-- The result of a response to request `id` that says `ok`. -/
def readResponse (id : Int) (frame : Frame) : Except Text Members := do
  let members ← receiveObject frame
  require (isMember members "version" protocolVersion)
    "Signing broker protocol version mismatch".toList
  require (isMember members "id" id) "Signing broker response identity mismatch".toList
  let names := members.map Prod.fst
  match Json.get? members "ok" with
  | some (.bool true) => do
    require (exactFields names ["version", "id", "ok", "result"])
      "Signing broker returned a malformed response".toList
    match Json.get? members "result" with
    | some (.obj result) => pure result
    | _ => .error "Signing broker returned a malformed response".toList
  | _ => do
    require (exactFields names ["version", "id", "ok", "error", "result"])
      "Signing broker returned a malformed error response".toList
    match Json.get? members "error" with
    | some (.str (c :: detail)) => .error (c :: detail)
    | _ => .error "Signing failed".toList

/-- The signature in the result of a signing request. -/
def readSignature (result : Members) : Except Text Bytes :=
  match exactFields (result.map Prod.fst) ["signature"], Json.get? result "signature" with
  | true, some (.str text) =>
    match Base64.decode text with
    | some signature => do
      require (signature.length == 64)
        "Signing broker returned a malformed Ed25519 signature".toList
      pure signature
    | none => .error "Signing broker returned a malformed Ed25519 signature".toList
  | _, _ => .error "Signing broker returned a malformed Ed25519 signature".toList

/-- The client and, while it serves, its broker. -/
structure Relay where
  nextRequestID : Int
  broker : Option Broker

/-- `_request`: one request and the response to it. -/
def Relay.request (relay : Relay) (call : Call) : Except Text Members × Relay :=
  let id := relay.nextRequestID
  let relay := { relay with nextRequestID := id + 1 }
  match sendFrame (call.requestJson id) with
  | none => (.error "Signing broker frame exceeds its size limit".toList, relay)
  | some frame =>
    match relay.broker with
    | none => (connectionFailed, relay)
    | some broker =>
      let turn := broker.serve frame
      let relay := { relay with broker := turn.broker }
      match turn.sent with
      | none => (connectionFailed, relay)
      | some frame => (readResponse id frame, relay)

/-- What a call returns: the signature of a signing call, nothing of a status call. -/
def Relay.call (relay : Relay) (call : Call) : Except Text Bytes × Relay :=
  let (result, relay) := relay.request call
  match call with
  | .status => (result.map fun _ => [], relay)
  | .sign _ _ => (result >>= readSignature, relay)

/-- A sequence of calls, one after another. -/
def Relay.run (relay : Relay) : List Call → List (Except Text Bytes) × Relay
  | [] => ([], relay)
  | call :: calls =>
    let (result, relay) := relay.call call
    let (results, relay) := relay.run calls
    (result :: results, relay)

end AxiomEncode.Signing
