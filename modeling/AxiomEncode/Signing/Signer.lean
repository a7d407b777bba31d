/-
# Signing.Signer -- the external signer and what it ever signs

`signerServer` answers one frame after another.  Every turn of its loop is kept
with the state it began in, so that a run can be spoken of as a whole: what was
signed, for which request, and which requests had been accepted before.
-/
import AxiomEncode.Signing.Wire

namespace AxiomEncode.Signing

open Theory

set_option autoImplicit false

structure SignerRequest where
  version : Int
  id : Int
  operation : Text
  scope : Text
  challenge : Option Bytes
  payload : Option Bytes
  presentFields : List Text

def signerRequestFields : List String := ["version", "id", "op", "scope", "challenge", "payload"]

def unmarshalSignerRequest (value : Json) : Except Text SignerRequest := do
  let members ← knownFields signerRequestFields value
  let version ← intField members "version"
  let id ← intField members "id"
  let operation ← textField members "op"
  let scope ← textField members "scope"
  let challenge ← bytesField members "challenge"
  let payload ← bytesField members "payload"
  pure { version, id, operation, scope, challenge, payload,
         presentFields := members.map Prod.fst }

def receiveSignerRequest (frame : Frame) : Except Text SignerRequest := do
  let value ← receiveFrame frame
  unmarshalSignerRequest value

inductive SignerResponse where
  | challenge (id : Int) (publicKey signature : Bytes)
  | sign (id : Int) (signature : Bytes)
  | error (id : Int) (message : Text)

namespace SignerResponse

def id : SignerResponse → Int
  | .challenge id _ _ => id
  | .sign id _ => id
  | .error id _ => id

def ok : SignerResponse → Bool
  | .error _ _ => false
  | _ => true

def json : SignerResponse → Json
  | .challenge id publicKey signature =>
    .obj [("version".toList, .int signerProtocolVersion), ("id".toList, .int id),
      ("ok".toList, .bool true), ("public_key".toList, bytesJson publicKey),
      ("signature".toList, bytesJson signature)]
  | .sign id signature =>
    .obj [("version".toList, .int signerProtocolVersion), ("id".toList, .int id),
      ("ok".toList, .bool true), ("signature".toList, bytesJson signature)]
  | .error id message =>
    .obj [("version".toList, .int signerProtocolVersion), ("id".toList, .int id),
      ("ok".toList, .bool false), ("error".toList, .str message)]

end SignerResponse

structure SignerServer where
  scope : Text
  known : isKnownScope scope = true
  publicKey : Bytes
  lastID : Int := 0
  signed : Nat := 0

/-- What a request is answered with, and the message that was signed for it. -/
structure Reply where
  response : SignerResponse
  message : Option Bytes := none
  server : SignerServer

section

variable (sign : Bytes → Bytes)

def answerChallenge (server : SignerServer) (request : SignerRequest) : Reply :=
  let message := signedMessage signerChallengeDomain server.scope (request.challenge.getD [])
  { response := .challenge request.id server.publicKey (sign message)
    message := some message
    server }

def answerSign (server : SignerServer) (request : SignerRequest) : Reply :=
  let message := signedMessage signerSignatureDomain server.scope (request.payload.getD [])
  { response := .sign request.id (sign message)
    message := some message
    server := { server with signed := server.signed + 1 } }

def reject (server : SignerServer) (request : SignerRequest) (message : Text) : Reply :=
  { response := .error request.id message, server }

/-- The second half of `handle`: the scope and the operation of a request that is next. -/
def handleOperation (server : SignerServer) (request : SignerRequest) : Reply :=
  if request.scope ≠ server.scope then
    reject server request
      ("external signer only serves scope ".toList ++ Json.printString server.scope)
  else if request.operation = "challenge".toList then
    if !exactFields request.presentFields ["version", "id", "op", "scope", "challenge"] then
      reject server request "external signer challenge is malformed".toList
    else answerChallenge sign server request
  else if request.operation = "sign".toList then
    if !exactFields request.presentFields ["version", "id", "op", "scope", "payload"] then
      reject server request "external signer sign request is malformed".toList
    else answerSign sign server request
  else reject server request "external signer operation is not supported".toList

/-- `handle`: validate and answer exactly one request. -/
def handle (server : SignerServer) (request : SignerRequest) : Reply :=
  if request.version ≠ signerProtocolVersion || !hasField request.presentFields "version" ||
      !hasField request.presentFields "id" || !hasField request.presentFields "op" then
    reject server request "external signer request is malformed".toList
  else if request.id ≤ 0 || request.id ≤ server.lastID then
    reject server request
      "external signer request ID must be positive and strictly increasing".toList
  else handleOperation sign { server with lastID := request.id } request

/-- One turn of the loop: the state before it, the request and its reply. -/
structure Turn where
  before : SignerServer
  request : SignerRequest
  reply : Reply

/-- The loop: it ends with a frame that cannot be read or an answer that cannot be sent. -/
def serveConnection (server : SignerServer) : List Frame → List Turn
  | [] => []
  | frame :: frames =>
    match receiveSignerRequest frame with
    | .error _ => []
    | .ok request =>
      let reply := handle sign server request
      match sendFrame reply.response.json with
      | none => [⟨server, request, reply⟩]
      | some _ => ⟨server, request, reply⟩ :: serveConnection reply.server frames

end

/-- The request got past the checks of version and id. -/
def Turn.accepted (turn : Turn) : Prop :=
  turn.request.version = signerProtocolVersion ∧
    (∀ name ∈ ["version", "id", "op"], hasField turn.request.presentFields name = true) ∧
    0 < turn.request.id ∧ turn.before.lastID < turn.request.id

/-- A request of the scope for one operation, with exactly the fields of that operation. -/
structure Asks (scope : Text) (operation field : String) (request : SignerRequest) : Prop where
  version : request.version = signerProtocolVersion
  scope : request.scope = scope
  operation : request.operation = operation.toList
  fields : exactFields request.presentFields ["version", "id", "op", "scope", field] = true

/-! ## One request -/

section

variable {sign : Bytes → Bytes} {server : SignerServer} {request : SignerRequest}

/-- What is signed for a request that is next: nothing, or a message of its own. -/
theorem handleOperation_cases (version : request.version = signerProtocolVersion) :
    (handleOperation sign server request).server.lastID = server.lastID ∧
      (handleOperation sign server request).server.scope = server.scope ∧
      (handleOperation sign server request).response.id = request.id ∧
      ((handleOperation sign server request).message = none ∧
          (handleOperation sign server request).response.ok = false ∨
        Asks server.scope "challenge" "challenge" request ∧
          (handleOperation sign server request).message =
            some (signedMessage signerChallengeDomain server.scope (request.challenge.getD [])) ∨
        Asks server.scope "sign" "payload" request ∧
          (handleOperation sign server request).message =
            some (signedMessage signerSignatureDomain server.scope (request.payload.getD []))) := by
  unfold handleOperation
  split_ifs with scope challenge fields signs fields
  · exact ⟨rfl, rfl, rfl, .inl ⟨rfl, rfl⟩⟩
  · exact ⟨rfl, rfl, rfl, .inl ⟨rfl, rfl⟩⟩
  · exact ⟨rfl, rfl, rfl,
      .inr (.inl ⟨⟨version, not_not.mp scope, challenge, by simpa using fields⟩, rfl⟩)⟩
  · exact ⟨rfl, rfl, rfl, .inl ⟨rfl, rfl⟩⟩
  · exact ⟨rfl, rfl, rfl,
      .inr (.inr ⟨⟨version, not_not.mp scope, signs, by simpa using fields⟩, rfl⟩)⟩
  · exact ⟨rfl, rfl, rfl, .inl ⟨rfl, rfl⟩⟩

/-- A request is refused with the state unchanged, or it is the next one. -/
theorem handle_cases :
    (¬ Turn.accepted ⟨server, request, handle sign server request⟩ ∧
      (handle sign server request).server = server ∧
      (handle sign server request).message = none ∧
      (handle sign server request).response.ok = false) ∨
    (Turn.accepted ⟨server, request, handle sign server request⟩ ∧
      handle sign server request = handleOperation sign { server with lastID := request.id } request) := by
  unfold handle
  split_ifs with malformed stale
  · refine .inl ⟨fun accepted => ?_, rfl, rfl, rfl⟩
    obtain ⟨version, fields, -⟩ := accepted
    simp only [List.mem_cons, List.not_mem_nil, or_false, forall_eq_or_imp, forall_eq] at fields
    simp only [fields, Bool.not_true, Bool.or_false, decide_eq_true_eq] at malformed
    exact malformed version
  · refine .inl ⟨fun accepted => ?_, rfl, rfl, rfl⟩
    obtain ⟨-, -, positive, greater⟩ := accepted
    simp only [Bool.or_eq_true, decide_eq_true_eq] at stale
    dsimp only at positive greater
    omega
  · simp only [ne_eq, decide_not, Bool.or_eq_true, Bool.not_eq_true', decide_eq_false_iff_not,
      not_or, not_not, Bool.not_eq_false, decide_eq_true_eq] at malformed stale
    obtain ⟨⟨⟨version, hasVersion⟩, hasId⟩, hasOp⟩ := malformed
    refine .inr ⟨⟨version, by simp [hasVersion, hasId, hasOp], ?_, ?_⟩, rfl⟩
    · show 0 < request.id
      omega
    · show server.lastID < request.id
      omega

end

end AxiomEncode.Signing
