/-
# Theory.Base64 -- the standard base64 encoding

`encode` is `base64.StdEncoding` of Go and `b64encode` of Python; `decode` reads a
padded text back, three bytes at a time.
-/
import Mathlib.Tactic.Common

namespace AxiomEncode.Theory

set_option autoImplicit false

namespace Base64

/-- The letter of a six-bit value. -/
def letter (value : Nat) : Char :=
  if value < 26 then Char.ofNat (65 + value)
  else if value < 52 then Char.ofNat (71 + value)
  else if value < 62 then Char.ofNat (value - 4)
  else if value = 62 then '+' else '/'

def value? (c : Char) : Option Nat :=
  let code := c.toNat
  if 65 ≤ code ∧ code ≤ 90 then some (code - 65)
  else if 97 ≤ code ∧ code ≤ 122 then some (code - 71)
  else if 48 ≤ code ∧ code ≤ 57 then some (code + 4)
  else if c = '+' then some 62
  else if c = '/' then some 63
  else none

def encode : List UInt8 → List Char
  | [] => []
  | [a] => [letter (a.toNat / 4), letter (a.toNat % 4 * 16), '=', '=']
  | [a, b] =>
    [letter (a.toNat / 4), letter (a.toNat % 4 * 16 + b.toNat / 16),
      letter (b.toNat % 16 * 4), '=']
  | a :: b :: c :: rest =>
    letter (a.toNat / 4) :: letter (a.toNat % 4 * 16 + b.toNat / 16) ::
      letter (b.toNat % 16 * 4 + c.toNat / 64) :: letter (c.toNat % 64) :: encode rest

def decode : List Char → Option (List UInt8)
  | [] => some []
  | [a, b, '=', '='] => do
    let a ← value? a
    let b ← value? b
    some [UInt8.ofNat (a * 4 + b / 16)]
  | [a, b, c, '='] => do
    let a ← value? a
    let b ← value? b
    let c ← value? c
    some [UInt8.ofNat (a * 4 + b / 16), UInt8.ofNat (b % 16 * 16 + c / 4)]
  | a :: b :: c :: d :: rest => do
    let a ← value? a
    let b ← value? b
    let c ← value? c
    let d ← value? d
    let bytes ← decode rest
    some (UInt8.ofNat (a * 4 + b / 16) :: UInt8.ofNat (b % 16 * 16 + c / 4) ::
      UInt8.ofNat (c % 4 * 64 + d) :: bytes)
  | _ => none

theorem letter_spec : ∀ value < 64, value? (letter value) = some value ∧ letter value ≠ '=' ∧
    33 ≤ (letter value).toNat ∧ (letter value).toNat ≤ 122 ∧ letter value ≠ '"' ∧
      letter value ≠ '\\' := by
  decide

theorem value_letter {value : Nat} (small : value < 64) : value? (letter value) = some value :=
  (letter_spec value small).1

theorem letter_ne {value : Nat} (small : value < 64) : letter value ≠ '=' :=
  (letter_spec value small).2.1

/-- A byte is put together again from the values of two letters. -/
theorem ofNat_eq (byte : UInt8) {value : Nat} (same : value = byte.toNat) :
    UInt8.ofNat value = byte := by
  rw [same, UInt8.ofNat_toNat]

/-- **Decoding undoes encoding.** -/
theorem decode_encode (bytes : List UInt8) : decode (encode bytes) = some bytes := by
  induction bytes using encode.induct with
  | case1 => rfl
  | case2 a =>
    have := a.toNat_lt
    rw [encode, decode, value_letter (by omega), value_letter (by omega)]
    simp only [Option.bind_eq_bind, Option.bind_some]
    rw [ofNat_eq a (by omega)]
  | case3 a b =>
    have := a.toNat_lt
    have := b.toNat_lt
    have third : letter (b.toNat % 16 * 4) ≠ '=' := letter_ne (by omega)
    rw [encode, decode, value_letter (by omega), value_letter (by omega), value_letter (by omega)]
    · simp only [Option.bind_eq_bind, Option.bind_some]
      rw [ofNat_eq a (by omega), ofNat_eq b (by omega)]
    · exact third
  | case4 a b c rest ih =>
    have := a.toNat_lt
    have := b.toNat_lt
    have := c.toNat_lt
    have last : letter (c.toNat % 64) ≠ '=' := letter_ne (by omega)
    rw [encode, decode, value_letter (by omega), value_letter (by omega), value_letter (by omega),
      value_letter (by omega), ih]
    · simp only [Option.bind_eq_bind, Option.bind_some]
      rw [ofNat_eq a (by omega), ofNat_eq b (by omega),
        ofNat_eq c (by omega)]
    · intro _ end_
      exact absurd end_ last
    · intro end_
      exact absurd end_ last

theorem length_encode (bytes : List UInt8) : (encode bytes).length = (bytes.length + 2) / 3 * 4 := by
  induction bytes using encode.induct with
  | case1 => rfl
  | case2 a => simp [encode]
  | case3 a b => simp [encode]
  | case4 a b c rest ih =>
    rw [encode]
    simp only [List.length_cons, ih]
    omega

/-- No letter needs an escape in a JSON string. -/
theorem plain_of_mem_encode {bytes : List UInt8} {c : Char} (member : c ∈ encode bytes) :
    33 ≤ c.toNat ∧ c.toNat ≤ 122 ∧ c ≠ '"' ∧ c ≠ '\\' := by
  have plain : ∀ value, value < 64 → 33 ≤ (letter value).toNat ∧ (letter value).toNat ≤ 122 ∧
      letter value ≠ '"' ∧ letter value ≠ '\\' := fun value small => (letter_spec value small).2.2
  have pad : 33 ≤ '='.toNat ∧ '='.toNat ≤ 122 ∧ '=' ≠ '"' ∧ '=' ≠ '\\' := by decide
  induction bytes using encode.induct with
  | case1 => cases member
  | case2 a =>
    have := a.toNat_lt
    simp only [encode, List.mem_cons, List.not_mem_nil, or_false] at member
    rcases member with rfl | rfl | rfl | rfl
    · exact plain _ (by omega)
    · exact plain _ (by omega)
    · exact pad
    · exact pad
  | case3 a b =>
    have := a.toNat_lt
    have := b.toNat_lt
    simp only [encode, List.mem_cons, List.not_mem_nil, or_false] at member
    rcases member with rfl | rfl | rfl | rfl
    · exact plain _ (by omega)
    · exact plain _ (by omega)
    · exact plain _ (by omega)
    · exact pad
  | case4 a b c rest ih =>
    have := a.toNat_lt
    have := b.toNat_lt
    have := c.toNat_lt
    rw [encode] at member
    simp only [List.mem_cons] at member
    rcases member with rfl | rfl | rfl | rfl | later
    · exact plain _ (by omega)
    · exact plain _ (by omega)
    · exact plain _ (by omega)
    · exact plain _ (by omega)
    · exact ih later

end Base64

end AxiomEncode.Theory
