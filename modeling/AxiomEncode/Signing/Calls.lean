/-
# Signing.Calls -- whole runs of calls over the relay

A run of calls is served to its end exactly when every call of it is admitted by the
party it reaches: its identifier is an `int64`, a status fits its frame, and a payload
to be signed is not empty and still fits when the broker frames it for the signer.
-/
import AxiomEncode.Signing.Relay

namespace AxiomEncode.Signing

open Theory
open Theory.Json (compact)

set_option autoImplicit false

/-! ## The relay after its handshakes -/

theorem Capability.known (capability : Capability) : isKnownScope capability.scope = true := by
  cases capability <;> decide

/-- A signer whose challenge was answered. -/
def ExternalSigner.connected (capability : Capability) (key : KeyPair) : ExternalSigner :=
  { key, nextID := 2
    server := { scope := capability.scope, known := capability.known, publicKey := key.publicKey
                lastID := 1, signed := 0 } }

/-- The relay of a client that has asked for the status once. -/
def Relay.connected (status : BrokerStatus) (keys : Capability → Option KeyPair) : Relay :=
  { nextRequestID := 2
    broker := some
      { status
        applySigner := (keys .apply).map (ExternalSigner.connected .apply)
        evalSigner := (keys .eval).map (ExternalSigner.connected .eval)
        lastRequestID := 1 } }

/-! ## The condition -/

/-- The frames of the client stay within its limit. -/
def Sendable : Int → List Call → Prop
  | _, [] => True
  | next, call :: calls =>
    (compact (call.requestJson next)).length ≤ maxFrameBytes ∧ Sendable (next + 1) calls

/-- The identifiers used up with the signers. -/
def Call.count (served : Capability → Int) : Call → Capability → Int
  | .status => served
  | .sign capability _ => fun other => if other = capability then served other + 1 else served other

section

variable (status : BrokerStatus) (keys : Capability → Option KeyPair)

/-- The call is admitted by the party that it reaches. -/
def Call.Admitted (next : Int) (served : Capability → Int) : Call → Prop
  | .status => (compact (brokerResponse next status.json)).length ≤ maxFrameBytes
  | .sign capability payload =>
    (keys capability).isSome = true → payload ≠ [] ∧
      (compact (signRequestJson (served capability) capability.scope payload)).length ≤
        maxFrameBytes

/-- Every call is admitted when it is made. -/
def Admissible : Int → (Capability → Int) → List Call → Prop
  | _, _, [] => True
  | next, served, call :: calls =>
    (next < 2 ^ 63 ∧ call.Admitted status keys next served) ∧
      Admissible (next + 1) (call.count served) calls

/-- A signing call for a provisioned scope returns the signature of its own payload. -/
def Granted : Call → Except Text Bytes → Prop
  | .status, _ => True
  | .sign capability payload, result =>
    ∀ key, keys capability = some key → ∃ message,
      canonicalSigningMessage capability.scope payload = .ok message ∧
        result = .ok (key.sign message)

end

/-! ## One call -/

/-- A broker that serves, behind a client and before its signers. -/
structure Serving (status : BrokerStatus) (keys : Capability → Option KeyPair) (next : Int)
    (served : Capability → Int) (broker : Broker) : Prop where
  status : broker.status = status
  positive : 0 < next
  fresh : broker.lastRequestID < next
  counted : ∀ capability, served capability ≤ next
  linked : ∀ capability key, keys capability = some key →
    ∃ signer, broker.signer capability = some signer ∧
      Linked capability.scope key (served capability) signer
  unprovisioned : ∀ capability, keys capability = none → broker.signer capability = none

section

variable {status : BrokerStatus} {keys : Capability → Option KeyPair} {id : Int}
  {served : Capability → Int} {broker : Broker} {call : Call}

theorem serving_connected (status : BrokerStatus) (keys : Capability → Option KeyPair) :
    ∃ broker, (Relay.connected status keys).broker = some broker ∧
      Serving status keys 2 (fun _ => 2) broker := by
  refine ⟨_, rfl, rfl, by decide, by show (1 : Int) < 2; decide, fun _ => Int.le_refl 2, ?_, ?_⟩
  · intro capability key provisioned
    have linked : Linked capability.scope key 2 (ExternalSigner.connected capability key) :=
      ⟨rfl, rfl, rfl, by show (0 : Int) ≤ 1; decide, by show (1 : Int) < 2; decide⟩
    cases capability with
    | apply => exact ⟨_, congrArg (Option.map _) provisioned, linked⟩
    | eval => exact ⟨_, congrArg (Option.map _) provisioned, linked⟩
  · intro capability absent
    cases capability with
    | apply => exact congrArg (Option.map _) absent
    | eval => exact congrArg (Option.map _) absent

theorem Broker.signer_lastRequestID (broker : Broker) (id : Int) (capability : Capability) :
    ({ broker with lastRequestID := id } : Broker).signer capability = broker.signer capability := by
  cases capability <;> rfl

/-- The broker of the next turn, when no signer was asked. -/
theorem Serving.passed {after : Capability → Int} (serving : Serving status keys id served broker)
    (counted : ∀ capability, after capability ≤ served capability + 1)
    (kept : ∀ capability, keys capability ≠ none → after capability = served capability) :
    Serving status keys (id + 1) after { broker with lastRequestID := id } where
  status := serving.status
  positive := by
    have := serving.positive
    omega
  fresh := by
    show id < id + 1
    omega
  counted capability := by
    have before := serving.counted capability
    have now := counted capability
    omega
  linked capability key provisioned := by
    obtain ⟨signer, found, linked⟩ := serving.linked capability key provisioned
    rw [kept capability (by rw [provisioned]; exact Option.some_ne_none key)]
    exact ⟨signer, (broker.signer_lastRequestID id capability).trans found, linked⟩
  unprovisioned capability absent :=
    (broker.signer_lastRequestID id capability).trans (serving.unprovisioned capability absent)

variable {capability : Capability}

/-- The broker of the next turn, after a signer was asked. -/
theorem Serving.signed {key : KeyPair} {after : ExternalSigner}
    (serving : Serving status keys id served broker) (payload : Bytes)
    (provisioned : keys capability = some key)
    (ready : Linked capability.scope key (served capability + 1) after) :
    Serving status keys (id + 1) ((Call.sign capability payload).count served)
      ({ broker with lastRequestID := id }.withSigner after capability) where
  status := by
    cases capability <;> exact serving.status
  positive := by
    have := serving.positive
    omega
  fresh := by
    have last : (({ broker with lastRequestID := id } : Broker).withSigner after
        capability).lastRequestID = id := by cases capability <;> rfl
    omega
  counted other := by
    have before := serving.counted other
    simp only [Call.count]
    split <;> omega
  linked other key' provisioned' := by
    by_cases same : other = capability
    · subst same
      cases provisioned.symm.trans provisioned'
      refine ⟨after, by cases other <;> rfl, ?_⟩
      simpa only [Call.count, if_true] using ready
    · obtain ⟨signer, found, linked⟩ := serving.linked other key' provisioned'
      refine ⟨signer, ?_, by simpa only [Call.count, if_neg same] using linked⟩
      cases other <;> cases capability <;> first | exact absurd rfl same | exact found
  unprovisioned other absent := by
    have before := serving.unprovisioned other absent
    have ne : other ≠ capability := by
      rintro rfl
      rw [provisioned] at absent
      cases absent
    cases other <;> cases capability <;> first | exact absurd rfl ne | exact before

theorem isInt64_of_serving (serving : Serving status keys id served broker) (small : id < 2 ^ 63) :
    isInt64 id = true := by
  have := serving.positive
  simp only [isInt64, Bool.and_eq_true, decide_eq_true_eq]
  omega

/-- What is left of a call is left by its request. -/
theorem Relay.call_snd (relay : Relay) (call : Call) :
    (relay.call call).2 = (relay.request call).2 := by
  cases call <;> rfl

/-- A request that is sent is one turn of the broker. -/
theorem Relay.request_eq {frame : Frame} (sent : sendFrame (call.requestJson id) = some frame) :
    Relay.request { nextRequestID := id, broker := some broker } call =
      (match (broker.serve frame).sent with
        | none => connectionFailed
        | some answer => readResponse id answer,
      { nextRequestID := id + 1, broker := (broker.serve frame).broker }) := by
  simp only [Relay.request, sent]
  cases (broker.serve frame).sent <;> rfl

theorem Broker.answer_of_le {payload : Json} (fits : (compact payload).length ≤ maxFrameBytes) :
    broker.answer payload =
      { sent := some ⟨(compact payload).length, some payload⟩, broker := some broker } := by
  simp only [Broker.answer, sendFrame_of_le fits]

theorem Broker.perform_unprovisioned {request : BrokerRequest} {capability : Capability}
    (small : isInt64 request.id = true) (absent : broker.signer capability = none) :
    ∃ sent, broker.perform request (.sign capability) = { sent, broker := some broker } := by
  simp only [Broker.perform, absent]
  exact ⟨_, Broker.answer_of_le (length_unprovisioned_le small capability)⟩

theorem Broker.perform_signed {request : BrokerRequest} {capability : Capability}
    {signer after : ExternalSigner} {signature : Bytes} (small : isInt64 request.id = true)
    (found : broker.signer capability = some signer)
    (signed : signer.signPayload (request.payload.getD []) = .ok (signature, after))
    (length : signature.length = 64) :
    ∃ frame, sendFrame (brokerResponse request.id
        (.obj [("signature".toList, bytesJson signature)])) = some frame ∧
      broker.perform request (.sign capability) =
        { sent := some frame, broker := some (broker.withSigner after capability) } := by
  have fits := length_brokerResponse_le small length
  simp only [Broker.perform, found, signed]
  exact ⟨_, sendFrame_of_le fits, Broker.answer_of_le fits⟩

theorem Broker.perform_failed {request : BrokerRequest} {signer : ExternalSigner} {message : Text}
    (found : broker.signer capability = some signer)
    (failed : signer.signPayload (request.payload.getD []) = .error message) :
    (broker.perform request (.sign capability)).broker = none := by
  simp only [Broker.perform, found, failed]

/-- **A call that is admitted.** It is granted, and the broker serves the next. -/
theorem Serving.granted (serving : Serving status keys id served broker)
    (sendable : (compact (call.requestJson id)).length ≤ maxFrameBytes) (small : id < 2 ^ 63)
    (admitted : call.Admitted status keys id served) :
    ∃ after, (Relay.call { nextRequestID := id, broker := some broker } call).2 =
        { nextRequestID := id + 1, broker := some after } ∧
      Serving status keys (id + 1) (call.count served) after ∧
      Granted keys call (Relay.call { nextRequestID := id, broker := some broker } call).1 := by
  have int64 := isInt64_of_serving serving small
  have sent := sendFrame_of_le sendable
  have turn := @Broker.serve_call _ _ _ broker int64 serving.positive serving.fresh sent
  have requested := @Relay.request_eq _ broker _ _ sent
  rw [turn] at requested
  rw [Relay.call_snd]
  cases call with
  | status =>
    obtain rfl := serving.status
    have answered := @Broker.answer_of_le { broker with lastRequestID := id } _ admitted
    refine ⟨{ broker with lastRequestID := id }, ?_, ?_, trivial⟩
    · rw [requested]
      exact congrArg (fun turn : BrokerTurn => Relay.mk (id + 1) turn.broker) answered
    · exact serving.passed (fun capability => by simp only [Call.count]; omega) fun _ _ => rfl
  | sign capability payload =>
    cases provisioned : keys capability with
    | none =>
      obtain ⟨answer, performed⟩ := @Broker.perform_unprovisioned _
        ((Call.sign capability payload).brokerRequest id) _ int64
        ((broker.signer_lastRequestID id capability).trans
          (serving.unprovisioned capability provisioned))
      refine ⟨{ broker with lastRequestID := id }, ?_, ?_, ?_⟩
      · rw [requested]
        exact congrArg (fun turn : BrokerTurn => Relay.mk (id + 1) turn.broker) performed
      · refine serving.passed (fun other => ?_) fun other present => ?_
        · simp only [Call.count]
          split <;> omega
        · have ne : other ≠ capability := by
            rintro rfl
            exact present provisioned
          simp only [Call.count, if_neg ne]
      · intro key given
        rw [provisioned] at given
        cases given
    | some key =>
      obtain ⟨signer, found, linked⟩ := serving.linked capability key provisioned
      obtain ⟨ne, fits⟩ := admitted (by rw [provisioned]; rfl)
      have counted := serving.counted capability
      obtain ⟨after, signed, ready⟩ := linked.signPayload (by omega) ne fits
      obtain ⟨frame, framed, performed⟩ := @Broker.perform_signed
        { broker with lastRequestID := id } ((Call.sign capability payload).brokerRequest id) _ _ _ _
        int64
        ((broker.signer_lastRequestID id capability).trans found) signed (key.length_sign _)
      refine ⟨_, ?_, serving.signed payload provisioned ready, ?_⟩
      · rw [requested]
        exact congrArg (fun turn : BrokerTurn => Relay.mk (id + 1) turn.broker) performed
      · intro key' given
        cases provisioned.symm.trans given
        refine ⟨signedMessage signerSignatureDomain capability.scope payload, ?_, ?_⟩
        · rw [canonicalSigningMessage, capability.known]
          rfl
        · have read := readResponse_signature (key.length_sign _) framed
          have result : (Relay.request { nextRequestID := id, broker := some broker }
              (.sign capability payload)).1 = readResponse id frame := by
            rw [requested]
            show (match (Broker.perform { broker with lastRequestID := id } _
              (.sign capability)).sent with | none => _ | some answer => _) = _
            rw [performed]
          show ((Relay.request { nextRequestID := id, broker := some broker }
            (.sign capability payload)).1 >>= readSignature) = _
          rw [result]
          exact read

/-- **A call that is not admitted.** It ends the broker. -/
theorem Serving.ended (serving : Serving status keys id served broker)
    (sendable : (compact (call.requestJson id)).length ≤ maxFrameBytes)
    (refused : ¬ (id < 2 ^ 63 ∧ call.Admitted status keys id served)) :
    (Relay.call { nextRequestID := id, broker := some broker } call).2.broker = none := by
  have sent := sendFrame_of_le sendable
  rw [Relay.call_snd, Relay.request_eq sent]
  by_cases small : id < 2 ^ 63
  · have int64 := isInt64_of_serving serving small
    rw [@Broker.serve_call _ _ _ broker int64 serving.positive serving.fresh sent]
    cases call with
    | status =>
      obtain rfl := serving.status
      have long : maxFrameBytes < (compact (brokerResponse id broker.status.json)).length := by
        by_contra short
        exact refused ⟨small, by simpa [Call.Admitted] using short⟩
      have unsent := sendFrame_eq_none_iff.mpr long
      show (Broker.answer _ (brokerResponse id broker.status.json)).broker = none
      simp only [Broker.answer, unsent]
    | sign capability payload =>
      have refusal : ∃ key, keys capability = some key ∧ (payload = [] ∨ maxFrameBytes <
          (compact (signRequestJson (served capability) capability.scope payload)).length) := by
        cases provisioned : keys capability with
        | none => exact absurd ⟨small, fun present => by rw [provisioned] at present; cases present⟩ refused
        | some key =>
          refine ⟨key, rfl, ?_⟩
          by_contra admitted
          rw [not_or, not_lt] at admitted
          exact refused ⟨small, fun _ => admitted⟩
      obtain ⟨key, provisioned, refusal⟩ := refusal
      obtain ⟨signer, found, linked⟩ := serving.linked capability key provisioned
      have counted := serving.counted capability
      obtain ⟨message, failed⟩ := linked.refuses refusal (by omega)
      exact Broker.perform_failed ((broker.signer_lastRequestID id capability).trans found) failed
  · have large : isInt64 id = false := by
      simp only [isInt64, Bool.and_eq_false_imp, decide_eq_false_iff_not]
      omega
    obtain ⟨message, failed⟩ := receiveBrokerRequest_overflow large sent
    simp only [Broker.serve, failed]

/-! ## Runs of calls -/

/-- A broker that ended stays so. -/
theorem Relay.run_ended {relay : Relay} (calls : List Call) (ended : relay.broker = none) :
    (relay.run calls).2.broker = none := by
  induction calls generalizing relay with
  | nil => exact ended
  | cons call calls ih =>
    have after : (relay.call call).2.broker = none := by
      rw [Relay.call_snd, Relay.request]
      dsimp only
      cases sendFrame (call.requestJson relay.nextRequestID) with
      | none => exact ended
      | some frame => rw [ended]
    exact ih after

/-- From a broker that serves, a run is granted and the broker left serving exactly when
every call of it is admitted. -/
theorem Serving.run (serving : Serving status keys id served broker) {calls : List Call}
    (sendable : Sendable id calls) :
    (List.Forall₂ (Granted keys) calls
        (Relay.run { nextRequestID := id, broker := some broker } calls).1 ∧
      (Relay.run { nextRequestID := id, broker := some broker } calls).2.broker.isSome = true) ↔
      Admissible status keys id served calls := by
  induction calls generalizing id served broker with
  | nil =>
    exact ⟨fun _ => trivial, fun _ => ⟨.nil, rfl⟩⟩
  | cons call calls ih =>
    obtain ⟨fits, rest⟩ := sendable
    have unrolled : Relay.run { nextRequestID := id, broker := some broker } (call :: calls) =
        ((Relay.call { nextRequestID := id, broker := some broker } call).1 ::
            ((Relay.call { nextRequestID := id, broker := some broker } call).2.run calls).1,
          ((Relay.call { nextRequestID := id, broker := some broker } call).2.run calls).2) := rfl
    rw [unrolled, List.forall₂_cons]
    by_cases admitted : id < 2 ^ 63 ∧ call.Admitted status keys id served
    · obtain ⟨after, next, ready, granted⟩ := serving.granted fits admitted.1 admitted.2
      rw [next]
      have later := ih ready rest
      constructor
      · rintro ⟨⟨-, results⟩, left⟩
        exact ⟨admitted, later.mp ⟨results, left⟩⟩
      · rintro ⟨-, admissible⟩
        obtain ⟨results, left⟩ := later.mpr admissible
        exact ⟨⟨granted, results⟩, left⟩
    · have ended := Relay.run_ended calls (serving.ended fits admitted)
      constructor
      · rintro ⟨-, left⟩
        rw [ended] at left
        cases left
      · rintro ⟨head, -⟩
        exact absurd head admitted

end

/-- **The relay serves exactly the admissible runs.** Over a connected relay, every signing
call of a run for a provisioned scope returns the signature of its own payload, and the
broker is still serving afterwards, if and only if every call is admitted. -/
theorem Relay.serves_iff (status : BrokerStatus) (keys : Capability → Option KeyPair)
    (calls : List Call) (sendable : Sendable 2 calls) :
    (List.Forall₂ (Granted keys) calls ((Relay.connected status keys).run calls).1 ∧
      ((Relay.connected status keys).run calls).2.broker.isSome = true) ↔
      Admissible status keys 2 (fun _ => 2) calls := by
  obtain ⟨broker, started, serving⟩ := serving_connected status keys
  have relay : Relay.connected status keys = { nextRequestID := 2, broker := some broker } := by
    rw [← started]
    rfl
  rw [relay]
  exact serving.run sendable

/-! ## An empty payload -/

def samplePublicKey : Bytes :=
  [61, 64, 23, 195, 232, 67, 137, 90, 146, 183, 10, 167, 77, 27, 126, 188, 156, 152, 44, 207, 46,
    196, 150, 140, 192, 205, 85, 241, 42, 244, 102, 12]

def sampleStatus : BrokerStatus :=
  { capabilities := [scopeApply], applyPublicKey := samplePublicKey
    evalPublicKey := List.replicate 32 2, corpusReleasePublicKey := List.replicate 32 3
    corpusReleasePublicKeys := [List.replicate 32 3] }

/-- The Ed25519 signature of the one byte 1 under the apply scope, by the private key whose
seed begins with `4ccd089b`. -/
def sampleSignature : Bytes :=
  [105, 228, 203, 149, 152, 77, 10, 176, 63, 150, 48, 85, 53, 53, 228, 211, 148, 191, 207, 163,
    67, 144, 4, 135, 186, 85, 117, 86, 137, 229, 226, 41, 213, 81, 44, 18, 45, 171, 106, 50, 224,
    166, 183, 87, 146, 119, 33, 106, 111, 13, 25, 156, 12, 245, 202, 234, 103, 253, 110, 94, 98,
    50, 24, 13]

/-- The key with this seed, as far as that one message goes. -/
def sampleKey : KeyPair where
  sign message := if message = signedMessage signerSignatureDomain scopeApply [1]
    then sampleSignature else List.replicate 64 0
  verify message signature := signature == if message =
      signedMessage signerSignatureDomain scopeApply [1] then sampleSignature
    else List.replicate 64 0
  publicKey := samplePublicKey
  length_sign message := by
    split_ifs
    · rfl
    · rfl
  verify_sign message := beq_self_eq_true _

def sampleKeys (capability : Capability) : Option KeyPair :=
  if capability = .apply then some sampleKey else none

/-- A payload of one byte is signed and the broker goes on. -/
theorem Relay.serves_one_byte :
    List.Forall₂ (Granted sampleKeys) [.sign .apply [1]]
        ((Relay.connected sampleStatus sampleKeys).run [.sign .apply [1]]).1 ∧
      ((Relay.connected sampleStatus sampleKeys).run [.sign .apply [1]]).2.broker.isSome = true := by
  refine (Relay.serves_iff sampleStatus sampleKeys [.sign .apply [1]] ⟨?_, True.intro⟩).mpr ?_
  · decide
  · refine ⟨⟨by decide, fun _ => ⟨List.cons_ne_nil 1 [], ?_⟩⟩, True.intro⟩
    decide

/-- The empty payload, which the client sends and the broker accepts, ends the broker. -/
theorem Relay.empty_payload_ends :
    Sendable 2 [.sign .apply []] ∧
      ((Relay.connected sampleStatus sampleKeys).run [.sign .apply []]).1.map Except.toOption =
        [none] ∧
      ((Relay.connected sampleStatus sampleKeys).run [.sign .apply []]).2.broker.isNone = true := by
  refine ⟨⟨?_, True.intro⟩, ?_, ?_⟩
  · decide
  · decide
  · decide

end AxiomEncode.Signing
