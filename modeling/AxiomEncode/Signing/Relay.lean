/-
# Signing.Relay -- what a signing call returns, and when the broker survives it

A call is one request of the client, one turn of the broker and, for a provisioned
scope, one exchange with the signer.  The signer's counter, the broker's and the
client's move together; a call that the signer does not admit ends the broker, and
with it every later call.
-/
import AxiomEncode.Signing.Broker

namespace AxiomEncode.Signing

open Theory
open Theory.Json (compact compactItems compactMembers)

set_option autoImplicit false

/-! ## Frames that fit -/

theorem sendFrame_eq_some_iff {payload : Json} {frame : Frame} :
    sendFrame payload = some frame ↔
      (compact payload).length ≤ maxFrameBytes ∧
        frame = ⟨(compact payload).length, some payload⟩ := by
  unfold sendFrame
  by_cases long : maxFrameBytes < (compact payload).length
  · simp only [if_pos long]
    constructor
    · intro sent
      cases sent
    · intro fits
      omega
  · simp only [if_neg long, Option.some.injEq]
    exact ⟨fun sent => ⟨by omega, sent.symm⟩, fun fits => fits.2.symm⟩

theorem sendFrame_of_le {payload : Json} (fits : (compact payload).length ≤ maxFrameBytes) :
    sendFrame payload = some ⟨(compact payload).length, some payload⟩ :=
  sendFrame_eq_some_iff.mpr ⟨fits, rfl⟩

theorem sendFrame_eq_none_iff {payload : Json} :
    sendFrame payload = none ↔ maxFrameBytes < (compact payload).length := by
  by_cases fits : (compact payload).length ≤ maxFrameBytes
  · rw [sendFrame_of_le fits]
    simp [fits]
  · have long : maxFrameBytes < (compact payload).length := by omega
    simp only [sendFrame, long, if_true]

variable {value : Int} {members : Members} {name : String} {allowed : List String}
  {server : SignerServer} {request : SignerRequest} {signature : Bytes}
  {response : ReceivedResponse}

theorem length_printInt_le (small : isInt64 value = true) :
    (Json.printInt value).length ≤ 20 := by
  simp only [isInt64, Bool.and_eq_true, decide_eq_true_eq] at small
  have digits : (Nat.toDigits 10 value.natAbs).length ≤ 19 :=
    (Nat.length_toDigits_le_iff (by decide) (by decide)).mpr (by omega)
  unfold Json.printInt
  split
  · rw [List.length_cons]
    omega
  · omega

/-- Text without escapes is printed as it is. -/
theorem printString_encode (bytes : Bytes) :
    Json.printString (Base64.encode bytes) = '"' :: Base64.encode bytes ++ ['"'] := by
  have plain : (Base64.encode bytes).flatMap Json.escapeChar = Base64.encode bytes := by
    have escape : ∀ c ∈ Base64.encode bytes, Json.escapeChar c = [c] := by
      intro c member
      obtain ⟨low, high, quote, backslash⟩ := Base64.plain_of_mem_encode member
      have newline : c ≠ '\n' := by rintro rfl; exact absurd low (by decide)
      have carriage : c ≠ '\r' := by rintro rfl; exact absurd low (by decide)
      have tab : c ≠ '\t' := by rintro rfl; exact absurd low (by decide)
      rw [Json.escapeChar, if_neg quote, if_neg backslash, if_neg newline, if_neg carriage,
        if_neg tab, if_neg (by omega), if_neg (by omega), if_pos (by omega)]
    rw [List.flatMap_congr escape, List.flatMap_singleton']
  rw [Json.printString, plain]

theorem length_bytesJson (bytes : Bytes) :
    (compact (bytesJson bytes)).length = (bytes.length + 2) / 3 * 4 + 2 := by
  rw [bytesJson, compact, printString_encode]
  simp [Base64.length_encode]

/-! ## Fields that are read back -/

/-- A field of bytes is read as it was written. -/
theorem bytesField_bytesJson {bytes : Bytes}
    (found : Json.get? members name = some (bytesJson bytes)) :
    bytesField members name = .ok (some bytes) := by
  have kept : (Base64.encode bytes).filter (fun c => c != '\r' && c != '\n') =
      Base64.encode bytes := by
    refine List.filter_eq_self.mpr fun c member => ?_
    obtain ⟨low, -, -, -⟩ := Base64.plain_of_mem_encode member
    have newline : c ≠ '\n' := by rintro rfl; exact absurd low (by decide)
    have carriage : c ≠ '\r' := by rintro rfl; exact absurd low (by decide)
    simp [newline, carriage]
  simp only [bytesField, found, bytesJson, kept, Base64.decode_encode]

theorem receiveFrame_of_le {length : Nat} {value : Json} (fits : length ≤ maxFrameBytes)
    (unique : rejectDuplicateJSONKeys 0 value = true) :
    receiveFrame ⟨length, some value⟩ = .ok value := by
  have short : ¬ maxFrameBytes < length := by omega
  simp only [receiveFrame, if_neg short, unique, require, if_true]
  rfl

theorem knownFields_obj
    (known : (members.all fun member => allowed.any fun name => member.1 == name.toList) = true) :
    knownFields allowed (.obj members) = .ok members := by
  simp only [knownFields, known, require, if_true]
  rfl

theorem knownFields_eq_ok {found : Members}
    (known : knownFields allowed (.obj members) = .ok found) : found = members := by
  obtain ⟨_, -, same⟩ := bind_eq_ok_iff.mp known
  exact (Except.ok.inj same).symm

theorem intField_of_get? (found : Json.get? members name = some (.int value))
    (small : isInt64 value = true) :
    intField members name = .ok value := by
  simp only [intField, found, small, require, if_true]
  rfl

theorem textField_of_get? {text : Text} (found : Json.get? members name = some (.str text)) :
    textField members name = .ok text := by
  simp only [textField, found]

theorem bytesField_of_get? (absent : Json.get? members name = none) :
    bytesField members name = .ok none := by
  simp only [bytesField, absent]

/-! ## The signer behind the broker -/

def signRequest (id : Int) (scope : Text) (payload : Bytes) : SignerRequest :=
  { version := signerProtocolVersion, id, operation := "sign".toList, scope, challenge := none
    payload := some payload
    presentFields := ["version", "id", "op", "scope", "payload"].map String.toList }

theorem signRequestJson_of_ne {id : Int} {scope : Text} {payload : Bytes} (ne : payload ≠ []) :
    signRequestJson id scope payload =
      .obj [("version".toList, .int signerProtocolVersion), ("id".toList, .int id),
        ("op".toList, .str "sign".toList), ("scope".toList, .str scope),
        ("payload".toList, bytesJson payload)] := by
  cases payload with
  | nil => exact absurd rfl ne
  | cons byte rest => rfl

/-- A request that fits and carries a payload arrives as it was meant. -/
theorem receiveSignerRequest_sign {id : Int} {scope : Text} {payload : Bytes} {frame : Frame}
    (small : isInt64 id = true) (ne : payload ≠ [])
    (sent : sendFrame (signRequestJson id scope payload) = some frame) :
    receiveSignerRequest frame = .ok (signRequest id scope payload) := by
  obtain ⟨fits, rfl⟩ := sendFrame_eq_some_iff.mp sent
  rw [signRequestJson_of_ne ne] at fits ⊢
  rw [receiveSignerRequest, bind_eq_ok_iff]
  refine ⟨_, receiveFrame_of_le fits rfl, ?_⟩
  simp only [unmarshalSignerRequest, bind_eq_ok_iff]
  exact ⟨_, knownFields_obj rfl, _, intField_of_get? rfl rfl, _, intField_of_get? rfl small,
    _, textField_of_get? rfl, _, textField_of_get? rfl, _, bytesField_of_get? rfl,
    _, bytesField_bytesJson rfl, rfl⟩

theorem signRequest_asks (id : Int) (scope : Text) (payload : Bytes) :
    Asks scope "sign" "payload" (signRequest id scope payload) where
  version := rfl
  scope := rfl
  operation := rfl
  fields := rfl

/-- A request of the scope that has exactly the fields of a signing request is signed. -/
theorem handleOperation_of_asks {sign : Bytes → Bytes}
    (asks : Asks server.scope "sign" "payload" request) :
    handleOperation sign server request = answerSign sign server request := by
  have other : request.operation ≠ "challenge".toList := by
    rw [asks.operation]
    decide
  rw [handleOperation, if_neg (not_not.mpr asks.scope), if_neg other, if_pos asks.operation,
    asks.fields]
  rfl

/-- A request of the next identifier, with a payload, is signed. -/
theorem handle_signRequest {sign : Bytes → Bytes} {server : SignerServer} {id : Int}
    {payload : Bytes} (positive : 0 < id) (later : server.lastID < id) :
    handle sign server (signRequest id server.scope payload) =
      answerSign sign { server with lastID := id } (signRequest id server.scope payload) := by
  have accepted : Turn.accepted ⟨server, signRequest id server.scope payload,
      handle sign server (signRequest id server.scope payload)⟩ :=
    ⟨rfl, by simp only [List.mem_cons, List.not_mem_nil, or_false, forall_eq_or_imp, forall_eq]
             exact ⟨rfl, rfl, rfl⟩, positive, later⟩
  rcases @handle_cases sign server (signRequest id server.scope payload) with
    ⟨refused, -⟩ | ⟨-, operated⟩
  · exact absurd accepted refused
  · rw [operated]
    exact handleOperation_of_asks (signRequest_asks id server.scope payload)

/-- Only a request with exactly the fields of its operation is answered with `ok`. -/
theorem asks_of_ok {sign : Bytes → Bytes} {server : SignerServer} {request : SignerRequest}
    (signs : request.operation = "sign".toList)
    (ok : (handle sign server request).response.ok = true) :
    Asks server.scope "sign" "payload" request := by
  rcases @handle_cases sign server request with
    ⟨-, -, -, refused⟩ | ⟨accepted, operated⟩
  · rw [refused] at ok
    cases ok
  · rw [operated] at ok
    obtain ⟨-, -, -, ⟨-, refused⟩ | ⟨challenge, -⟩ | ⟨asks, -⟩⟩ := @handleOperation_cases sign
      { server with lastID := request.id } request accepted.1
    · rw [refused] at ok
      cases ok
    · have other := challenge.operation
      rw [signs] at other
      exact absurd other (by decide)
    · exact asks

theorem length_signResponse_le {id : Int} (small : isInt64 id = true)
    (length : signature.length = 64) :
    (compact (SignerResponse.sign id signature).json).length ≤ maxFrameBytes := by
  have digits := length_printInt_le small
  have letters := length_bytesJson signature
  rw [length] at letters
  have version : (Json.printInt signerProtocolVersion).length = 1 := by decide
  have names : (Json.printString "version".toList).length = 9 ∧
      (Json.printString "id".toList).length = 4 ∧ (Json.printString "ok".toList).length = 4 ∧
      (Json.printString "signature".toList).length = 11 := by decide
  simp only [SignerResponse.json, compact, compactMembers, List.length_cons, List.length_append,
    letters, List.length_nil, version, names, maxFrameBytes]
  have true_ : "true".toList.length = 4 := by decide
  omega

theorem receiveSignerResponse_sign {id : Int} {frame : Frame} (small : isInt64 id = true)
    (sent : sendFrame (SignerResponse.sign id signature).json = some frame) :
    receiveSignerResponse frame = .ok
      { version := signerProtocolVersion, id, ok := true, error := [], publicKey := none
        signature := some signature
        presentFields := ["version", "id", "ok", "signature"].map String.toList } := by
  obtain ⟨fits, rfl⟩ := sendFrame_eq_some_iff.mp sent
  rw [receiveSignerResponse, bind_eq_ok_iff]
  refine ⟨_, receiveFrame_of_le fits rfl, ?_⟩
  simp only [unmarshalSignerResponse, bind_eq_ok_iff]
  exact ⟨_, knownFields_obj rfl, _, intField_of_get? rfl rfl, _, intField_of_get? rfl small,
    _, rfl, _, rfl, _, bytesField_of_get? rfl, _, bytesField_bytesJson rfl, rfl⟩

theorem receiveFrame_eq_ok {frame : Frame} {value : Json} (received : receiveFrame frame = .ok value) :
    frame.value = some value := by
  unfold receiveFrame at received
  split_ifs at received
  split at received
  · cases received
  next found =>
    obtain ⟨_, -, same⟩ := bind_eq_ok_iff.mp received
    rw [found, Except.ok.inj same]

/-- A refusal is read as a refusal. -/
theorem not_ok_of_error {id : Int} {message : Text} {answer : Frame}
    (sent : sendFrame (SignerResponse.error id message).json = some answer)
    (read : receiveSignerResponse answer = .ok response) : response.ok = false := by
  obtain ⟨-, rfl⟩ := sendFrame_eq_some_iff.mp sent
  obtain ⟨value, received, unmarshalled⟩ := bind_eq_ok_iff.mp read
  cases receiveFrame_eq_ok received
  simp only [unmarshalSignerResponse, bind_eq_ok_iff] at unmarshalled
  obtain ⟨members, known, version, -, number, -, ok, ok_eq, error, -, publicKey, -, signature, -, same⟩ :=
    unmarshalled
  cases knownFields_eq_ok known
  cases same
  exact (Except.ok.inj ok_eq).symm

theorem signRequestJson_nil (id : Int) (scope : Text) :
    signRequestJson id scope [] =
      .obj [("version".toList, .int signerProtocolVersion), ("id".toList, .int id),
        ("op".toList, .str "sign".toList), ("scope".toList, .str scope)] := rfl

/-- Without a payload the signer reads a request with too few fields. -/
theorem receiveSignerRequest_empty {id : Int} {scope : Text} {frame : Frame}
    (sent : sendFrame (signRequestJson id scope []) = some frame)
    (arrived : receiveSignerRequest frame = .ok request) :
    request.operation = "sign".toList ∧
      request.presentFields = ["version", "id", "op", "scope"].map String.toList := by
  obtain ⟨-, rfl⟩ := sendFrame_eq_some_iff.mp sent
  obtain ⟨value, received, unmarshalled⟩ := bind_eq_ok_iff.mp arrived
  rw [signRequestJson_nil] at received
  cases receiveFrame_eq_ok received
  simp only [unmarshalSignerRequest, bind_eq_ok_iff] at unmarshalled
  obtain ⟨members, known, version, -, number, -, operation, operation_eq, text, -, challenge, -,
    payload, -, same⟩ := unmarshalled
  cases knownFields_eq_ok known
  cases same
  have signs : Except.ok (ε := Text) "sign".toList = .ok operation := operation_eq
  exact ⟨(Except.ok.inj signs).symm, rfl⟩

/-- A signer that answers for the key of a scope, and whose next identifier is its next
to be answered. -/
structure Linked (scope : Text) (key : KeyPair) (served : Int) (signer : ExternalSigner) : Prop where
  key : signer.key = key
  scope : signer.server.scope = scope
  next : signer.nextID = wrapInt64 served
  nonnegative : 0 ≤ signer.server.lastID
  later : signer.server.lastID < served

theorem wrapInt64_of_small (nonnegative : 0 ≤ value) (small : value < 2 ^ 63) :
    wrapInt64 value = value := by
  unfold wrapInt64
  omega

section

variable {scope : Text} {key : KeyPair} {served : Int} {signer : ExternalSigner} {payload : Bytes}

/-- An exchange that comes back was answered by the signer, and the answer read. -/
theorem exchange_eq_ok_iff {id : Int} {request : Json} :
    signer.exchange id request = .ok (response, server) ↔
      ∃ frame received answer, sendFrame request = some frame ∧
        receiveSignerRequest frame = .ok received ∧
        sendFrame (handle signer.key.sign signer.server received).response.json = some answer ∧
        receiveSignerResponse answer = .ok response ∧
        (response.version = signerProtocolVersion ∧ response.id = id) ∧
        (response.ok = true ∨ exactFields response.presentFields ["version", "id", "ok", "error"] = true ∧
          response.error ≠ []) ∧
        (handle signer.key.sign signer.server received).server = server := by
  constructor
  · intro exchanged
    unfold ExternalSigner.exchange at exchanged
    split at exchanged
    · cases exchanged
    next frame sent =>
      obtain ⟨received, arrived, exchanged⟩ := bind_eq_ok_iff.mp exchanged
      dsimp only at exchanged
      split at exchanged
      · cases exchanged
      next answer answered =>
        obtain ⟨found, read, exchanged⟩ := bind_eq_ok_iff.mp exchanged
        obtain ⟨_, identity, exchanged⟩ := bind_eq_ok_iff.mp exchanged
        obtain ⟨_, formed, exchanged⟩ := bind_eq_ok_iff.mp exchanged
        obtain ⟨rfl, rfl⟩ := Prod.mk.inj (Except.ok.inj exchanged)
        exact ⟨frame, received, answer, sent, arrived, answered, read, by simpa using identity,
          by simpa using formed, rfl⟩
  · rintro ⟨frame, received, answer, sent, arrived, answered, read, identity, formed, rfl⟩
    unfold ExternalSigner.exchange
    rw [sent]
    refine bind_eq_ok_iff.mpr ⟨received, arrived, ?_⟩
    dsimp only
    rw [answered]
    refine bind_eq_ok_iff.mpr ⟨response, read, ?_⟩
    refine bind_eq_ok_iff.mpr ⟨(), by simpa using identity, ?_⟩
    exact bind_eq_ok_iff.mpr ⟨(), by simpa using formed, rfl⟩

/-- A payload that the signer admits is signed, and the signer is ready for the next. -/
theorem Linked.signPayload (linked : Linked scope key served signer) (small : served < 2 ^ 63)
    (ne : payload ≠ [])
    (fits : (compact (signRequestJson served scope payload)).length ≤ maxFrameBytes) :
    ∃ after, signer.signPayload payload =
        .ok (key.sign (signedMessage signerSignatureDomain scope payload), after) ∧
      Linked scope key (served + 1) after := by
  obtain ⟨rfl, rfl, next, nonnegative, later⟩ := linked
  rw [wrapInt64_of_small (by omega) small] at next
  have int64 : isInt64 served = true := by
    simp only [isInt64, Bool.and_eq_true, decide_eq_true_eq]
    omega
  have sent := sendFrame_of_le fits
  have handled := @handle_signRequest signer.key.sign signer.server served payload
    (show 0 < served by omega) later
  have length := signer.key.length_sign
    (signedMessage signerSignatureDomain signer.server.scope payload)
  have answered := sendFrame_of_le (length_signResponse_le int64 length)
  have exchanged := exchange_eq_ok_iff.mpr ⟨_, _, _, sent, receiveSignerRequest_sign int64 ne sent,
    by rw [handled]; exact answered, receiveSignerResponse_sign int64 answered, ⟨rfl, rfl⟩,
    .inl rfl, congrArg Reply.server handled⟩
  refine ⟨{ signer with
    nextID := wrapInt64 (signer.nextID + 1)
    server := { signer.server with lastID := served, signed := signer.server.signed + 1 } }, ?_, ?_⟩
  · unfold ExternalSigner.signPayload
    rw [next]
    refine bind_eq_ok_iff.mpr ⟨_, exchanged, ?_⟩
    refine bind_eq_ok_iff.mpr ⟨(), rfl, ?_⟩
    refine bind_eq_ok_iff.mpr ⟨(), ?_, rfl⟩
    simp only [require_eq_ok_iff, Option.getD_some, length, signer.key.verify_sign]
    rfl
  · exact ⟨rfl, rfl, by rw [next], by show 0 ≤ served; omega, by show served < served + 1; omega⟩

/-- A payload that is empty or too long is refused. -/
theorem Linked.refuses (linked : Linked scope key served signer)
    (refused : payload = [] ∨
      maxFrameBytes < (compact (signRequestJson served scope payload)).length)
    (small : served < 2 ^ 63) :
    ∃ message, signer.signPayload payload = .error message := by
  obtain ⟨rfl, rfl, next, nonnegative, later⟩ := linked
  rw [wrapInt64_of_small (by omega) small] at next
  cases signed : signer.signPayload payload with
  | error message => exact ⟨message, rfl⟩
  | ok result =>
    exfalso
    unfold ExternalSigner.signPayload at signed
    obtain ⟨⟨response, server⟩, exchanged, signed⟩ := bind_eq_ok_iff.mp signed
    obtain ⟨_, ok, -⟩ := bind_eq_ok_iff.mp signed
    rw [next] at exchanged
    obtain ⟨frame, received, answer, sent, arrived, answered, read, -, -, -⟩ :=
      exchange_eq_ok_iff.mp exchanged
    rcases refused with rfl | long
    · obtain ⟨signs, fields⟩ := receiveSignerRequest_empty sent arrived
      cases reply : (handle signer.key.sign signer.server received).response with
      | error id message =>
        rw [reply] at answered
        rw [not_ok_of_error answered read] at ok
        cases ok
      | challenge id publicKey signature =>
        have asks := @asks_of_ok _ signer.server _ signs (congrArg SignerResponse.ok reply)
        have listed := asks.fields
        rw [fields] at listed
        cases listed
      | sign id signature =>
        have asks := @asks_of_ok _ signer.server _ signs (congrArg SignerResponse.ok reply)
        have listed := asks.fields
        rw [fields] at listed
        cases listed
    · rw [sendFrame_eq_none_iff.mpr long] at sent
      cases sent

end

/-! ## One turn of the broker -/

/-- The request of a call as the broker reads it. -/
def Call.brokerRequest (id : Int) : Call → BrokerRequest
  | .status =>
    { version := protocolVersion, id, operation := "status".toList, payload := none
      presentFields := ["id", "op", "version"].map String.toList }
  | .sign capability payload =>
    { version := protocolVersion, id, operation := capability.operation, payload := some payload
      presentFields := ["id", "op", "payload", "version"].map String.toList }

def Call.performed : Call → Operation
  | .status => .status
  | .sign capability _ => .sign capability

section

variable {call : Call} {id : Int} {frame : Frame}

theorem receiveBrokerRequest_call (small : isInt64 id = true)
    (sent : sendFrame (call.requestJson id) = some frame) :
    receiveBrokerRequest frame = .ok (call.brokerRequest id) := by
  obtain ⟨fits, rfl⟩ := sendFrame_eq_some_iff.mp sent
  rw [receiveBrokerRequest, bind_eq_ok_iff]
  cases call with
  | status =>
    refine ⟨_, receiveFrame_of_le fits rfl, ?_⟩
    simp only [unmarshalBrokerRequest, bind_eq_ok_iff]
    exact ⟨_, knownFields_obj rfl, _, intField_of_get? rfl rfl, _, intField_of_get? rfl small,
      _, textField_of_get? rfl, _, bytesField_of_get? rfl, _, bytesField_of_get? rfl,
      _, bytesField_of_get? rfl, _, bytesField_of_get? rfl, _, rfl, rfl⟩
  | sign capability payload =>
    refine ⟨_, receiveFrame_of_le fits rfl, ?_⟩
    simp only [unmarshalBrokerRequest, bind_eq_ok_iff]
    exact ⟨_, knownFields_obj rfl, _, intField_of_get? rfl rfl, _, intField_of_get? rfl small,
      _, textField_of_get? rfl, _, bytesField_bytesJson rfl, _, bytesField_of_get? rfl,
      _, bytesField_of_get? rfl, _, bytesField_of_get? rfl, _, rfl, rfl⟩

/-- An identifier that is no `int64` is not read. -/
theorem receiveBrokerRequest_overflow (large : isInt64 id = false)
    (sent : sendFrame (call.requestJson id) = some frame) :
    ∃ message, receiveBrokerRequest frame = .error message := by
  obtain ⟨-, rfl⟩ := sendFrame_eq_some_iff.mp sent
  cases arrived : receiveBrokerRequest _ with
  | error message => exact ⟨message, rfl⟩
  | ok request =>
    exfalso
    obtain ⟨value, received, unmarshalled⟩ := bind_eq_ok_iff.mp arrived
    cases receiveFrame_eq_ok received
    simp only [unmarshalBrokerRequest, bind_eq_ok_iff] at unmarshalled
    obtain ⟨members, known, version, -, number, number_eq, -⟩ := unmarshalled
    have found : Json.get? members "id" = some (.int id) := by
      cases call with
      | status => cases knownFields_eq_ok known; rfl
      | sign capability payload => cases knownFields_eq_ok known; rfl
    simp [intField, found, large, require, bind, Except.bind] at number_eq

theorem validate_call (broker : Broker) (positive : 0 < id) (later : broker.lastRequestID < id) :
    validateBrokerRequestEnvelope (call.brokerRequest id) broker.lastRequestID = .ok id ∧
      validateBrokerRequestOperation (call.brokerRequest id) = .ok call.performed := by
  constructor
  · simp only [validateBrokerRequestEnvelope, bind_eq_ok_iff, require_eq_ok_iff]
    cases call <;> exact ⟨(), rfl, (), by simp [Call.brokerRequest, positive, later], rfl⟩
  · cases call with
    | status => rfl
    | sign capability payload => cases capability <;> rfl

/-- A request that is read, next and well formed is performed. -/
theorem Broker.serve_call {broker : Broker} (small : isInt64 id = true) (positive : 0 < id)
    (later : broker.lastRequestID < id) (sent : sendFrame (call.requestJson id) = some frame) :
    broker.serve frame =
      { broker with lastRequestID := id }.perform (call.brokerRequest id) call.performed := by
  obtain ⟨envelope, operation⟩ := @validate_call call id broker positive later
  rw [Broker.serve, receiveBrokerRequest_call small sent]
  simp only [envelope, operation]

end

/-! ## What the client reads -/

theorem length_brokerResponse_le {id : Int} (small : isInt64 id = true)
    (length : signature.length = 64) :
    (compact (brokerResponse id (.obj [("signature".toList, bytesJson signature)]))).length ≤
      maxFrameBytes := by
  have digits := length_printInt_le small
  have letters := length_bytesJson signature
  rw [length] at letters
  have version : (Json.printInt protocolVersion).length = 1 := by decide
  have names : (Json.printString "version".toList).length = 9 ∧
      (Json.printString "id".toList).length = 4 ∧ (Json.printString "ok".toList).length = 4 ∧
      (Json.printString "result".toList).length = 8 ∧
      (Json.printString "signature".toList).length = 11 := by decide
  have true_ : "true".toList.length = 4 := by decide
  simp only [brokerResponse, compact, compactMembers, List.length_cons, List.length_append,
    letters, List.length_nil, version, names, true_, maxFrameBytes]
  omega

theorem length_unprovisioned_le {id : Int} (small : isInt64 id = true) (capability : Capability) :
    (compact (brokerError id capability.unprovisioned)).length ≤ maxFrameBytes := by
  have digits := length_printInt_le small
  have version : (Json.printInt protocolVersion).length = 1 := by decide
  have names : (Json.printString "version".toList).length = 9 ∧
      (Json.printString "id".toList).length = 4 ∧ (Json.printString "ok".toList).length = 4 ∧
      (Json.printString "error".toList).length = 7 ∧
      (Json.printString "result".toList).length = 8 := by decide
  have detail : (Json.printString capability.unprovisioned).length ≤ 50 := by
    cases capability <;> decide
  have false_ : "false".toList.length = 5 := by decide
  simp only [brokerError, compact, compactMembers, List.length_cons, List.length_append,
    List.length_nil, version, names, false_, maxFrameBytes]
  omega

/-- The client reads the signature that the broker sent for its request. -/
theorem readResponse_signature {id : Int} {frame : Frame} (length : signature.length = 64)
    (sent : sendFrame (brokerResponse id (.obj [("signature".toList, bytesJson signature)])) =
      some frame) : (readResponse id frame >>= readSignature) = .ok signature := by
  obtain ⟨fits, rfl⟩ := sendFrame_eq_some_iff.mp sent
  have short : ¬ maxFrameBytes <
      (compact (brokerResponse id (.obj [("signature".toList, bytesJson signature)]))).length := by
    omega
  have read : readResponse id ⟨(compact (brokerResponse id
        (.obj [("signature".toList, bytesJson signature)]))).length,
      some (brokerResponse id (.obj [("signature".toList, bytesJson signature)]))⟩ =
      .ok [("signature".toList, bytesJson signature)] := by
    have members : receiveObject ⟨(compact (brokerResponse id
          (.obj [("signature".toList, bytesJson signature)]))).length,
        some (brokerResponse id (.obj [("signature".toList, bytesJson signature)]))⟩ =
        Except.ok [("version".toList, .int protocolVersion), ("id".toList, .int id),
          ("ok".toList, .bool true),
          ("result".toList, .obj [("signature".toList, bytesJson signature)])] := by
      simp only [receiveObject, if_neg short]
      rfl
    refine bind_eq_ok_iff.mpr ⟨_, members, ?_⟩
    refine bind_eq_ok_iff.mpr ⟨(), rfl, bind_eq_ok_iff.mpr ⟨(), ?_, rfl⟩⟩
    rw [require_eq_ok_iff]
    exact beq_self_eq_true id
  rw [read, bind_eq_ok_iff]
  refine ⟨_, rfl, ?_⟩
  have found : Json.get? [("signature".toList, bytesJson signature)] "signature" =
      some (.str (Base64.encode signature)) := rfl
  have names : exactFields ([("signature".toList, bytesJson signature)].map Prod.fst) ["signature"] =
      true := rfl
  rw [readSignature, names, found]
  simp only [Base64.decode_encode, length, require]
  rfl

end AxiomEncode.Signing
