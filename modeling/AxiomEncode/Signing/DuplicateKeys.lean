/-
# Signing.DuplicateKeys -- the scanner of a frame for duplicate keys

Before a frame is decoded, `rejectDuplicateJSONKeys` walks its bytes once and refuses
a key that an object lists twice, a key that is too long and a value that lies too
deep.  `json.Valid` has run before; the scanner relies on it and indexes the buffer
without a test in five places.  Such an index beyond the buffer is a panic of the
program, `ScanFailure.outOfRange` here, apart from the errors it returns.

The apply signer and the signing supervisor have the same scanner.
-/
import AxiomEncode.Signing.Wire
import AxiomEncode.Theory.JsonGrammar

namespace AxiomEncode.Signing.JsonKeyScanner

open Theory

set_option autoImplicit false

/-! ## Decoding a key -/

def ascii (c : Char) : UInt8 := UInt8.ofNat c.toNat

/-- `utf8.RuneError` -/
def runeError : Nat := 0xFFFD

def isTail (low high : Nat) (b : UInt8) : Bool := low ≤ b.toNat && b.toNat ≤ high

/-- The range of the second byte of a rune: neither overlong forms nor surrogates. -/
def secondLow (first : Nat) : Nat :=
  if first = 0xE0 then 0xA0 else if first = 0xF0 then 0x90 else 0x80

def secondHigh (first : Nat) : Nat :=
  if first = 0xED then 0x9F else if first = 0xF4 then 0x8F else 0xBF

/-- `utf8.DecodeRune`: a rune and how many bytes it takes; a byte that begins no rune is a
`RuneError` of one byte. -/
def decodeRune : Bytes → Nat × Nat
  | [] => (runeError, 0)
  | a :: rest =>
    let first := a.toNat
    let two := rest.headD 0
    let three := (rest.drop 1).headD 0
    let four := (rest.drop 2).headD 0
    if first < 0x80 then (first, 1)
    else if 0xC2 ≤ first ∧ first ≤ 0xDF then
      if isTail 0x80 0xBF two then ((first - 0xC0) * 64 + (two.toNat - 0x80), 2)
      else (runeError, 1)
    else if 0xE0 ≤ first ∧ first ≤ 0xEF then
      if isTail (secondLow first) (secondHigh first) two && isTail 0x80 0xBF three then
        (((first - 0xE0) * 64 + (two.toNat - 0x80)) * 64 + (three.toNat - 0x80), 3)
      else (runeError, 1)
    else if 0xF0 ≤ first ∧ first ≤ 0xF4 then
      if isTail (secondLow first) (secondHigh first) two && isTail 0x80 0xBF three &&
          isTail 0x80 0xBF four then
        ((((first - 0xF0) * 64 + (two.toNat - 0x80)) * 64 + (three.toNat - 0x80)) * 64 +
          (four.toNat - 0x80), 4)
      else (runeError, 1)
    else (runeError, 1)

def hexDigitValue (b : UInt8) : Option Nat :=
  let code := b.toNat
  if 48 ≤ code ∧ code ≤ 57 then some (code - 48)
  else if 97 ≤ code ∧ code ≤ 102 then some (code - 87)
  else if 65 ≤ code ∧ code ≤ 70 then some (code - 55)
  else none

/-- `getu4`: the code of `\uXXXX` at the start of the bytes. -/
def getu4 : Bytes → Option Nat
  | backslash :: u :: a :: b :: c :: d :: _ =>
    if backslash = ascii '\\' ∧ u = ascii 'u' then do
      let a ← hexDigitValue a
      let b ← hexDigitValue b
      let c ← hexDigitValue c
      let d ← hexDigitValue d
      some (((a * 16 + b) * 16 + c) * 16 + d)
    else none
  | _ => none

def isSurrogate (rune : Nat) : Bool := 0xD800 ≤ rune && rune < 0xE000

/-- `utf16.DecodeRune` of two surrogates that make a pair. -/
def surrogatePair (high low : Nat) : Option Nat :=
  if 0xD800 ≤ high ∧ high < 0xDC00 ∧ 0xDC00 ≤ low ∧ low < 0xE000 then
    some ((high - 0xD800) * 1024 + (low - 0xDC00) + 0x10000)
  else none

/-- The rune of a two-byte escape. -/
def escapedRune (b : UInt8) : Option Nat :=
  if b = ascii '"' ∨ b = ascii '\\' ∨ b = ascii '/' ∨ b = ascii '\'' then some b.toNat
  else if b = ascii 'b' then some 8
  else if b = ascii 'f' then some 12
  else if b = ascii 'n' then some 10
  else if b = ascii 'r' then some 13
  else if b = ascii 't' then some 9
  else none

/-- The loop of `unquoteBytes` over what stands between the quotes; each round takes at least
one byte. -/
def unquoteFrom : Nat → Bytes → Option (List Nat)
  | _, [] => some []
  | 0, _ => none
  | fuel + 1, b :: rest =>
    if b = ascii '\\' then
      match rest with
      | [] => none
      | c :: after =>
        if c = ascii 'u' then
          match getu4 (b :: rest) with
          | none => none
          | some rune =>
            let after := after.drop 4
            if isSurrogate rune then
              match (getu4 after).bind (surrogatePair rune) with
              | some pair => (unquoteFrom fuel (after.drop 6)).map (pair :: ·)
              | none => (unquoteFrom fuel after).map (runeError :: ·)
            else (unquoteFrom fuel after).map (rune :: ·)
        else
          match escapedRune c with
          | none => none
          | some rune => (unquoteFrom fuel after).map (rune :: ·)
    else if b = ascii '"' ∨ b.toNat < 32 then none
    else if b.toNat < 0x80 then (unquoteFrom fuel rest).map (b.toNat :: ·)
    else
      let (rune, size) := decodeRune (b :: rest)
      (unquoteFrom fuel ((b :: rest).drop size)).map (rune :: ·)

/-- `json.Unmarshal(encodedKey, &key)`: the runes of an encoded key. -/
def unmarshalKey (encodedKey : Bytes) : Option (List Nat) :=
  let body := (encodedKey.drop 1).dropLast
  unquoteFrom body.length body

/-! ## The scanner -/

inductive ScanError where
  | text (detail : String)
  /-- `duplicate object key %q` -/
  | duplicateKey (key : List Nat)
  /-- The error of `json.Unmarshal` on a key. -/
  | unmarshal
  deriving DecidableEq

inductive ScanFailure where
  /-- An error that the scanner returns, and the offset it has then. -/
  | rejected (error : ScanError) (offset : Nat)
  /-- `scanner.raw[scanner.offset]` with the offset not below the length. -/
  | outOfRange
  /-- The bound of a modelled recursion, which a valid text never reaches. -/
  | exhausted
  deriving DecidableEq

section Scanner

variable (raw : Bytes)

def reject {α : Type} (detail : String) (offset : Nat) : Except ScanFailure α :=
  .error (.rejected (.text detail) offset)

/-- A read without a test of the offset. -/
def byteAt (offset : Nat) : Except ScanFailure UInt8 :=
  match raw[offset]? with
  | some b => .ok b
  | none => .error .outOfRange

def isJSONSpace (b : UInt8) : Bool :=
  b == ascii ' ' || b == ascii '\t' || b == ascii '\n' || b == ascii '\r'

/-- The offset behind the bytes from `offset` on that satisfy `keep`. -/
def skipWhile (keep : UInt8 → Bool) (offset : Nat) : Nat :=
  offset + ((raw.drop offset).takeWhile keep).length

def skipWhitespace (offset : Nat) : Nat := skipWhile raw isJSONSpace offset

/-- A byte that ends a number or a literal. -/
def endsPlain (b : UInt8) : Bool :=
  isJSONSpace b || b == ascii ',' || b == ascii ']' || b == ascii '}'

/-- A number or a literal. -/
def scanPlain (offset : Nat) : Except ScanFailure Nat :=
  let stop := skipWhile raw (fun b => !endsPlain b) offset
  if stop = offset then reject "JSON value is malformed" offset else .ok stop

/-- The loop of `scanString`: an escape is passed two bytes at a time. -/
def scanStringFrom : Nat → Nat → Except ScanFailure Nat
  | 0, _ => .error .exhausted
  | fuel + 1, offset =>
    match raw[offset]? with
    | none => reject "JSON string is not terminated" offset
    | some b =>
      if b = ascii '"' then .ok (offset + 1)
      else if b = ascii '\\' then scanStringFrom fuel (offset + 2)
      else scanStringFrom fuel (offset + 1)

/-- A string with its quotes, and the offset behind it. -/
def scanString (offset : Nat) : Except ScanFailure (Bytes × Nat) := do
  let stop ← scanStringFrom raw (raw.length + 1) (offset + 1)
  pure ((raw.take stop).drop offset, stop)

mutual

def scanValue : (fuel depth offset : Nat) → Except ScanFailure Nat
  | 0, _, _ => .error .exhausted
  | fuel + 1, depth, offset =>
    if maxJSONDepth < depth then reject "JSON nesting exceeds the 32-level limit" offset
    else
      let offset := skipWhitespace raw offset
      match raw[offset]? with
      | none => reject "unexpected EOF" offset
      | some b =>
        if b = ascii '{' then scanObject fuel depth offset
        else if b = ascii '[' then scanArray fuel depth offset
        else if b = ascii '"' then do
          let (_, offset) ← scanString raw offset
          pure offset
        else scanPlain raw offset

def scanObject : (fuel depth offset : Nat) → Except ScanFailure Nat
  | 0, _, _ => .error .exhausted
  | fuel + 1, depth, offset => do
    let offset := skipWhitespace raw (offset + 1)
    let b ← byteAt raw offset
    if b = ascii '}' then pure (offset + 1)
    else scanMembers fuel depth [] offset

/-- The loop of `scanObject`, with the keys seen so far. -/
def scanMembers : (fuel depth : Nat) → (seen : List (List Nat)) → (offset : Nat) →
    Except ScanFailure Nat
  | 0, _, _, _ => .error .exhausted
  | fuel + 1, depth, seen, offset => do
    let offset := skipWhitespace raw offset
    require (raw[offset]? = some (ascii '"')) (.rejected (.text "object key is not a string") offset)
    let (encodedKey, offset) ← scanString raw offset
    require (encodedKey.length ≤ maxJSONKeyBytes)
      (.rejected (.text "object key exceeds 256 bytes") offset)
    match unmarshalKey encodedKey with
    | none => .error (.rejected .unmarshal offset)
    | some key => do
      require (!seen.contains key) (.rejected (.duplicateKey key) offset)
      let offset := skipWhitespace raw offset
      let colon ← byteAt raw offset
      require (colon = ascii ':')
        (.rejected (.text "object key is missing its value separator") offset)
      let offset ← scanValue fuel (depth + 1) (offset + 1)
      let offset := skipWhitespace raw offset
      let b ← byteAt raw offset
      if b = ascii '}' then pure (offset + 1)
      else if b = ascii ',' then scanMembers fuel depth (key :: seen) (offset + 1)
      else reject "object is not terminated" offset

def scanArray : (fuel depth offset : Nat) → Except ScanFailure Nat
  | 0, _, _ => .error .exhausted
  | fuel + 1, depth, offset => do
    let offset := skipWhitespace raw (offset + 1)
    let b ← byteAt raw offset
    if b = ascii ']' then pure (offset + 1)
    else scanItems fuel depth offset

/-- The loop of `scanArray`. -/
def scanItems : (fuel depth offset : Nat) → Except ScanFailure Nat
  | 0, _, _ => .error .exhausted
  | fuel + 1, depth, offset => do
    let offset ← scanValue fuel (depth + 1) offset
    let offset := skipWhitespace raw offset
    let b ← byteAt raw offset
    if b = ascii ']' then pure (offset + 1)
    else if b = ascii ',' then scanItems fuel depth (offset + 1)
    else reject "array is not terminated" offset

end

/-- `rejectDuplicateJSONKeys` on what `json.Valid` admits: where the scanner ends. -/
def rejectDuplicateKeys (jsonValid : Bytes → Bool) : Except ScanFailure Nat := do
  require (jsonValid raw)
    (.rejected (.text "frame is not valid JSON or contains trailing JSON") 0)
  let offset ← scanValue raw (2 * raw.length + 1) 0 0
  let offset := skipWhitespace raw offset
  require (offset = raw.length) (.rejected (.text "frame contains trailing JSON") offset)
  pure offset

end Scanner

end AxiomEncode.Signing.JsonKeyScanner
