/-
# Signing.Wire -- the frames of the signing protocols

A frame is the text of one JSON object behind its length.  Of a frame only the
length and the decoded value are kept: `Json.compact` is the text that every encoder
of the three programs writes, so that a sent frame has the length of that text.
Decoding follows `encoding/json`: a field that is absent or null keeps its zero
value, and the names that were present are recorded.
-/
import AxiomEncode.Theory.Base64
import AxiomEncode.Theory.Checks
import AxiomEncode.Theory.JsonText

namespace AxiomEncode.Signing

open Theory
open Theory.Json (compact compactItems compactMembers)

set_option autoImplicit false

abbrev Text := List Char
abbrev Bytes := List UInt8

def signerProtocolVersion : Int := 2
def maxFrameBytes : Nat := 64 * 1024 * 1024
def maxJSONDepth : Nat := 32
def maxJSONKeyBytes : Nat := 256

def scopeApply : Text := "apply_ed25519".toList
def scopeEval : Text := "eval_ed25519".toList

def isKnownScope (scope : Text) : Bool := scope == scopeApply || scope == scopeEval

/-! ## Frames -/

structure Frame where
  length : Nat
  value : Option Json

/-- The frame of a value, or nothing when it is too long to be sent. -/
def sendFrame (payload : Json) : Option Frame :=
  let length := (compact payload).length
  if maxFrameBytes < length then none else some { length, value := some payload }

mutual

/-- No object lists a key twice or a key that is too long, and none lies too deep. -/
def rejectDuplicateJSONKeys (depth : Nat) : Json → Bool
  | .arr items => decide (depth ≤ maxJSONDepth) && rejectDuplicateItems (depth + 1) items
  | .obj members =>
    decide (depth ≤ maxJSONDepth) && decide (members.map Prod.fst).Nodup &&
      rejectDuplicateMembers (depth + 1) members
  | _ => decide (depth ≤ maxJSONDepth)

def rejectDuplicateItems (depth : Nat) : List Json → Bool
  | [] => true
  | item :: items => rejectDuplicateJSONKeys depth item && rejectDuplicateItems depth items

def rejectDuplicateMembers (depth : Nat) : List (Text × Json) → Bool
  | [] => true
  | (key, value) :: members =>
    decide ((Json.printString key).length ≤ maxJSONKeyBytes) &&
      rejectDuplicateJSONKeys depth value && rejectDuplicateMembers depth members

end

/-- The value of a frame that was received. -/
def receiveFrame (frame : Frame) : Except Text Json :=
  if maxFrameBytes < frame.length then
    .error "frame exceeds its size limit".toList
  else
    match frame.value with
    | none => .error "frame is not valid JSON or contains trailing JSON".toList
    | some value => do
      require (rejectDuplicateJSONKeys 0 value) "frame is malformed".toList
      pure value

/-! ## Fields -/

abbrev Members := List (Text × Json)

/-- The members of an object with no unknown field. -/
def knownFields (allowed : List String) (value : Json) : Except Text Members :=
  match value with
  | .obj members => do
    require (members.all fun member => allowed.any fun name => member.1 == name.toList)
      "json: unknown field".toList
    pure members
  | _ => .error "must be a JSON object".toList

def isInt64 (value : Int) : Bool := decide (-2 ^ 63 ≤ value) && decide (value < 2 ^ 63)

def intField (members : Members) (name : String) : Except Text Int :=
  match Json.get? members name with
  | none | some .null => .ok 0
  | some (.int value) => do
    require (isInt64 value) "json: cannot unmarshal number".toList
    pure value
  | some _ => .error "json: cannot unmarshal into int".toList

def textField (members : Members) (name : String) : Except Text Text :=
  match Json.get? members name with
  | none | some .null => .ok []
  | some (.str text) => .ok text
  | some _ => .error "json: cannot unmarshal into string".toList

def boolField (members : Members) (name : String) : Except Text Bool :=
  match Json.get? members name with
  | none | some .null => .ok false
  | some (.bool value) => .ok value
  | some _ => .error "json: cannot unmarshal into bool".toList

/-- One element of a byte array that is written as numbers. -/
def byteItem : Json → Except Text UInt8
  | .null => .ok 0
  | .int value => do
    require (decide (0 ≤ value) && decide (value < 256)) "json: cannot unmarshal number".toList
    pure (UInt8.ofNat value.toNat)
  | _ => .error "json: cannot unmarshal into uint8".toList

/-- A field of bytes: nothing for the nil slice of a field that is absent or null. -/
def bytesField (members : Members) (name : String) : Except Text (Option Bytes) :=
  match Json.get? members name with
  | none | some .null => .ok none
  | some (.str text) =>
    match Base64.decode (text.filter fun c => c != '\r' && c != '\n') with
    | some bytes => .ok (some bytes)
    | none => .error "illegal base64 data".toList
  | some (.arr items) => some <$> items.mapM byteItem
  | some _ => .error "json: cannot unmarshal into []uint8".toList

/-- The names of the fields are exactly these. -/
def exactFields (present : List Text) (expected : List String) : Bool :=
  present.length == expected.length && expected.all fun name => present.contains name.toList

def hasField (present : List Text) (name : String) : Bool := present.contains name.toList

/-- A list of members, leaving out the empty byte fields as `omitempty` does. -/
def omitEmpty (members : List (String × Option Json)) : Json :=
  .obj (members.filterMap fun member => member.2.map fun value => (member.1.toList, value))

def bytesJson (bytes : Bytes) : Json := .str (Base64.encode bytes)

/-! ## What is signed -/

def signerChallengeDomain : Bytes := utf8 "axiom-encode/external-signer-challenge/v2".toList ++ [0]
def signerSignatureDomain : Bytes := utf8 "axiom-encode/external-signer-sign/v2".toList ++ [0]

/-- The message of a domain: domain, scope, a zero byte and the content. -/
def signedMessage (domain : Bytes) (scope : Text) (content : Bytes) : Bytes :=
  domain ++ utf8 scope ++ 0 :: content

/-- The Python side of the message of a signature. -/
def canonicalSigningMessage (scope : Text) (payload : Bytes) : Except Text Bytes :=
  if isKnownScope scope then .ok (signedMessage signerSignatureDomain scope payload)
  else .error ("Unsupported signing scope: ".toList ++ scope)

end AxiomEncode.Signing
