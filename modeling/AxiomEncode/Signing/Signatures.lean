/-
# Signing.Signatures -- what a signer signs in a whole run

The messages of one operation and one scope are never those of another, and the
turns of a run are in the order of their request identifiers, so that a signature
belongs to one request of the signer's own scope.
-/
import AxiomEncode.Signing.Signer

namespace AxiomEncode.Signing

open Theory

set_option autoImplicit false

/-! ## Messages -/

/-- Texts without a zero byte before the first one are told apart. -/
theorem split_at_zero {first second tail rest : Bytes} (firstPlain : 0 ∉ first)
    (secondPlain : 0 ∉ second) (same : first ++ 0 :: tail = second ++ 0 :: rest) :
    first = second ∧ tail = rest := by
  induction first generalizing second with
  | nil =>
    cases second with
    | nil => exact ⟨rfl, (List.cons.inj same).2⟩
    | cons byte second =>
      have := (List.cons.inj same).1
      exact absurd (this ▸ List.mem_cons_self) secondPlain
  | cons byte first ih =>
    cases second with
    | nil =>
      have := (List.cons.inj same).1
      exact absurd (this ▸ List.mem_cons_self) firstPlain
    | cons other second =>
      obtain ⟨rfl, rest⟩ := List.cons.inj same
      obtain ⟨rfl, tails⟩ := ih (List.not_mem_of_not_mem_cons firstPlain)
        (List.not_mem_of_not_mem_cons secondPlain) rest
      exact ⟨rfl, tails⟩

/-- The two operations of the protocol, as the domains of their messages. -/
def IsDomain (domain : Bytes) : Prop :=
  domain = signerChallengeDomain ∨ domain = signerSignatureDomain

theorem IsDomain.plain {domain : Bytes} (isDomain : IsDomain domain) :
    ∃ name, domain = name ++ [0] ∧ 0 ∉ name := by
  rcases isDomain with rfl | rfl
  · refine ⟨utf8 "axiom-encode/external-signer-challenge/v2".toList, ?_, by decide⟩
    rw [signerChallengeDomain]
  · refine ⟨utf8 "axiom-encode/external-signer-sign/v2".toList, ?_, by decide⟩
    rw [signerSignatureDomain]

/-- A scope whose bytes hold no zero. -/
def PlainScope (scope : Text) : Prop := 0 ∉ utf8 scope

theorem plainScope_of_known {scope : Text} (known : isKnownScope scope = true) :
    PlainScope scope := by
  unfold isKnownScope at known
  rw [Bool.or_eq_true, beq_iff_eq, beq_iff_eq] at known
  unfold PlainScope
  rcases known with rfl | rfl
  · decide
  · decide

/-- A message tells its operation, its scope and its content. -/
theorem signedMessage_injective {domain other : Bytes} {scope otherScope : Text}
    {content otherContent : Bytes} (isDomain : IsDomain domain) (isOther : IsDomain other)
    (plain : PlainScope scope) (otherPlain : PlainScope otherScope)
    (same : signedMessage domain scope content = signedMessage other otherScope otherContent) :
    domain = other ∧ scope = otherScope ∧ content = otherContent := by
  obtain ⟨name, rfl, plainName⟩ := isDomain.plain
  obtain ⟨otherName, rfl, plainOther⟩ := isOther.plain
  unfold signedMessage at same
  simp only [List.append_assoc, List.singleton_append] at same
  obtain ⟨rfl, rest⟩ := split_at_zero plainName plainOther same
  obtain ⟨scopes, contents⟩ := split_at_zero plain otherPlain rest
  exact ⟨rfl, utf8_injective scopes, contents⟩

/-! ## Runs -/

section

variable {sign : Bytes → Bytes}

/-- What one turn of the loop does. -/
structure Turn.Sound (sign : Bytes → Bytes) (scope : Text) (turn : Turn) : Prop where
  reply : turn.reply = handle sign turn.before turn.request
  began : turn.before.scope = scope
  served : turn.reply.server.scope = scope
  signs : ∀ message ∈ turn.reply.message, turn.accepted ∧
    (Asks scope "challenge" "challenge" turn.request ∧
        message = signedMessage signerChallengeDomain scope (turn.request.challenge.getD []) ∨
      Asks scope "sign" "payload" turn.request ∧
        message = signedMessage signerSignatureDomain scope (turn.request.payload.getD []))
  ok : turn.reply.response.ok = true → turn.accepted ∧ turn.reply.response.id = turn.request.id
  last : turn.before.lastID ≤ turn.reply.server.lastID ∧
    (turn.accepted → turn.reply.server.lastID = turn.request.id)

theorem sound_turn (server : SignerServer) (request : SignerRequest) :
    Turn.Sound sign server.scope ⟨server, request, handle sign server request⟩ := by
  rcases @handle_cases sign server request with
    ⟨refused, same, message, ok⟩ | ⟨accepted, reply⟩
  · refine ⟨rfl, rfl, by dsimp only; rw [same], ?_, ?_, ⟨?_, ?_⟩⟩
    · rw [message]
      exact nofun
    · intro here
      rw [show _ = false from ok] at here
      cases here
    · show server.lastID ≤ (handle sign server request).server.lastID
      exact Int.le_of_eq (congrArg SignerServer.lastID same).symm
    · exact fun accepted => absurd accepted refused
  · obtain ⟨last, scope, id, signs⟩ := @handleOperation_cases sign
      { server with lastID := request.id } _ accepted.1
    rw [← reply] at last scope id signs
    refine ⟨rfl, rfl, scope, fun message signed => ⟨accepted, ?_⟩, fun ok => ⟨accepted, id⟩,
      ⟨?_, fun _ => last⟩⟩
    · rcases signs with ⟨none_, -⟩ | ⟨asks, here⟩ | ⟨asks, here⟩
      · rw [show (handle sign server request).message = some message from signed] at none_
        cases none_
      · rw [show (handle sign server request).message = some message from signed] at here
        exact .inl ⟨asks, Option.some.inj here⟩
      · rw [show (handle sign server request).message = some message from signed] at here
        exact .inr ⟨asks, Option.some.inj here⟩
    · show server.lastID ≤ _
      rw [last]
      exact Int.le_of_lt accepted.2.2.2

/-- Every turn is sound, and no request is accepted after one with a later identifier. -/
theorem serveConnection_turns (frames : List Frame) (server : SignerServer) :
    (∀ turn ∈ serveConnection sign server frames,
      turn.Sound sign server.scope ∧ server.lastID ≤ turn.before.lastID) ∧
      (serveConnection sign server frames).Pairwise fun earlier later =>
        earlier.accepted → later.accepted → earlier.request.id < later.request.id := by
  induction frames generalizing server with
  | nil => exact ⟨List.forall_mem_nil _, .nil⟩
  | cons frame frames ih =>
    unfold serveConnection
    cases receiveSignerRequest frame with
    | error => exact ⟨List.forall_mem_nil _, .nil⟩
    | ok request =>
      have here := @sound_turn sign server request
      dsimp only
      split
      · exact ⟨List.forall_mem_singleton.mpr ⟨here, Int.le_refl _⟩, List.pairwise_singleton _ _⟩
      · obtain ⟨sound, ordered⟩ := ih (handle sign server request).server
        rw [show (handle sign server request).server.scope = server.scope from here.served]
          at sound
        refine ⟨List.forall_mem_cons.mpr ⟨⟨here, Int.le_refl _⟩, fun turn member => ?_⟩,
          List.pairwise_cons.mpr ⟨fun turn member accepted later => ?_, ordered⟩⟩
        · exact ⟨(sound turn member).1, Int.le_trans here.last.1 (sound turn member).2⟩
        · have bound := (sound turn member).2
          rw [here.last.2 accepted] at bound
          exact Int.lt_of_le_of_lt bound later.2.2.2

/-- The requests of the turns are those of the frames, in order. -/
theorem serveConnection_requests (frames : List Frame) (server : SignerServer) :
    ((serveConnection sign server frames).map fun turn =>
      (Except.ok turn.request : Except Text SignerRequest)) <+: frames.map receiveSignerRequest := by
  induction frames generalizing server with
  | nil => exact List.prefix_rfl
  | cons frame frames ih =>
    unfold serveConnection
    rw [List.map_cons]
    cases receiveSignerRequest frame with
    | error => exact List.nil_prefix
    | ok request =>
      dsimp only
      split
      · exact List.cons_prefix_cons.mpr ⟨rfl, List.nil_prefix⟩
      · exact List.cons_prefix_cons.mpr ⟨rfl, ih _⟩

/-- **Signatures never cross scope, operation or payload.**  In every run of a signer,
under whatever frames: what is signed is the message of a request of its scope, with
exactly the fields of its operation and an identifier beyond those of all requests
accepted before; no two good answers carry the same identifier; and no message of
another scope is ever signed. -/
theorem signatures_never_cross (sign : Bytes → Bytes) (server : SignerServer)
    (frames : List Frame) :
    ((serveConnection sign server frames).map fun turn =>
        (Except.ok turn.request : Except Text SignerRequest)) <+: frames.map receiveSignerRequest ∧
      (∀ turn ∈ serveConnection sign server frames, ∀ message ∈ turn.reply.message, turn.accepted ∧
        (Asks server.scope "challenge" "challenge" turn.request ∧
            message = signedMessage signerChallengeDomain server.scope
              (turn.request.challenge.getD []) ∨
          Asks server.scope "sign" "payload" turn.request ∧
            message = signedMessage signerSignatureDomain server.scope
              (turn.request.payload.getD []))) ∧
      ((serveConnection sign server frames).Pairwise fun earlier later =>
        earlier.accepted → later.reply.message ≠ none → earlier.request.id < later.request.id) ∧
      (((serveConnection sign server frames).filter fun turn => turn.reply.response.ok).map
        fun turn => turn.reply.response.id).Nodup ∧
      (∀ other, PlainScope other → other ≠ server.scope → ∀ turn ∈ serveConnection sign server frames,
        ∀ content, turn.reply.message ≠ some (signedMessage signerChallengeDomain other content) ∧
          turn.reply.message ≠ some (signedMessage signerSignatureDomain other content)) ∧
      (∀ other payload message, canonicalSigningMessage other payload = .ok message →
        other ≠ server.scope → ∀ turn ∈ serveConnection sign server frames,
          turn.reply.message ≠ some message) ∧
      ∀ domain scope content domain' scope' content', IsDomain domain → IsDomain domain' →
        PlainScope scope → PlainScope scope' →
          signedMessage domain scope content = signedMessage domain' scope' content' →
            domain = domain' ∧ scope = scope' ∧ content = content' := by
  obtain ⟨sound, ordered⟩ := @serveConnection_turns sign frames server
  have crossing : ∀ other, PlainScope other → other ≠ server.scope →
      ∀ turn ∈ serveConnection sign server frames, ∀ domain, IsDomain domain → ∀ content,
        turn.reply.message ≠ some (signedMessage domain other content) := by
    intro other plain apart turn member domain isDomain content signed
    have own := plainScope_of_known server.known
    rcases ((sound turn member).1.signs _ signed).2 with ⟨-, same⟩ | ⟨-, same⟩
    · exact apart (signedMessage_injective isDomain (.inl rfl) plain own same).2.1
    · exact apart (signedMessage_injective isDomain (.inr rfl) plain own same).2.1
  refine ⟨serveConnection_requests frames server, fun turn member => (sound turn member).1.signs, ?_,
    ?_, ?_, ?_, fun _ _ _ _ _ _ => signedMessage_injective⟩
  · refine ordered.imp_of_mem fun _ member later accepted signed => later accepted ?_
    obtain ⟨message, here⟩ := Option.ne_none_iff_exists'.mp signed
    exact ((sound _ member).1.signs message here).1
  · refine List.Pairwise.map _ (R := fun earlier later : Turn =>
      earlier.reply.response.id ≠ later.reply.response.id) (fun _ _ apart => apart) ?_
    refine (ordered.filter _).imp_of_mem fun first second later => ?_
    obtain ⟨firstMember, firstOk⟩ := List.mem_filter.mp first
    obtain ⟨secondMember, secondOk⟩ := List.mem_filter.mp second
    obtain ⟨firstAccepted, firstId⟩ := (sound _ firstMember).1.ok firstOk
    obtain ⟨secondAccepted, secondId⟩ := (sound _ secondMember).1.ok secondOk
    rw [firstId, secondId]
    exact Int.ne_of_lt (later firstAccepted secondAccepted)
  · exact fun other plain apart turn member content =>
      ⟨crossing other plain apart turn member _ (.inl rfl) content,
        crossing other plain apart turn member _ (.inr rfl) content⟩
  · intro other payload message canonical apart turn member
    unfold canonicalSigningMessage at canonical
    split_ifs at canonical with known
    rw [← Except.ok.inj canonical]
    exact crossing other (plainScope_of_known known) apart turn member _ (.inr rfl) payload

end

end AxiomEncode.Signing
