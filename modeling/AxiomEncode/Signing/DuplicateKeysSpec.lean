/-
# Signing.DuplicateKeysSpec -- the duplicate-key scanner on valid JSON

The scanner is followed over the concrete syntax of a text (`Grammar.Tree`).  At
every position the bytes ahead are the text of a subtree, so each unguarded index
falls on a byte the grammar puts there, and each call ends behind its subtree unless
it returns an error.  `Tree.Clean` is what the scanner checks, in its order; it says
of the whole text that no object repeats a key, no key is too long and nothing lies
too deep (`clean_iff`).
-/
import AxiomEncode.Signing.DuplicateKeys

namespace AxiomEncode.Signing.JsonKeyScanner

open Theory
open Theory.Grammar hiding isDigit
open Theory.Alphabet (code letter code_letter)

set_option autoImplicit false

variable {raw : Bytes} {offset : Nat}

/-! ## Reading from an offset -/

theorem drop_length_add {text rest : Bytes} (here : raw.drop offset = text ++ rest) :
    raw.drop (offset + text.length) = rest := by
  rw [← List.drop_drop, here, List.drop_left]

variable {x : UInt8} {rest text : Bytes} {space : Blanks UInt8} {fuel depth : Nat}
  {parts : List (StringPart UInt8)} {names : List Bytes} {seen : List (List Nat)}

theorem getElem?_of_drop (here : raw.drop offset = x :: rest) :
    raw[offset]? = some x := by
  have first := congrArg List.head? here
  rwa [List.head?_drop, List.head?_cons] at first

theorem drop_succ_of_drop (here : raw.drop offset = x :: rest) :
    raw.drop (offset + 1) = rest := @drop_length_add _ _ [x] _ here

theorem byteAt_of_drop (here : raw.drop offset = x :: rest) :
    byteAt raw offset = .ok x := by
  unfold byteAt
  rw [getElem?_of_drop here]

theorem skipWhile_of_drop {keep : UInt8 → Bool} {text rest : Bytes}
    (here : raw.drop offset = text ++ rest) (kept : ∀ x ∈ text, keep x = true)
    (stop : ∀ x ∈ rest.head?, keep x = false) :
    skipWhile raw keep offset = offset + text.length := by
  unfold skipWhile
  have none_ : rest.takeWhile keep = [] := by
    cases rest with
    | nil => rfl
    | cons x rest => exact List.takeWhile_cons_of_neg (by simpa using stop x rfl)
  rw [here, List.takeWhile_append_of_pos kept, none_, List.append_nil]

theorem eq_ascii_iff {c : Char} (small : c.toNat < 256) :
    x = ascii c ↔ code x = c.toNat := by
  unfold ascii
  rw [← UInt8.toNat_inj, UInt8.toNat_ofNat_of_lt' small]
  exact Iff.rfl

theorem isJSONSpace_eq (x : UInt8) : isJSONSpace x = isBlank x := by
  have same : ∀ c : Char, c.toNat < 256 → (x == ascii c) = (code x == c.toNat) := by
    intro c small
    rw [Bool.eq_iff_iff, beq_iff_eq, beq_iff_eq, eq_ascii_iff small]
  unfold isJSONSpace isBlank
  rw [same ' ' (by decide), same '\t' (by decide), same '\n' (by decide), same '\r' (by decide)]
  rfl

/-- Blanks are skipped up to a symbol that is none. -/
theorem skipWhitespace_of_drop (here : raw.drop offset = space.text ++ x :: rest)
    (visible : isBlank x = false) :
    skipWhitespace raw offset = offset + space.text.length := by
  apply skipWhile_of_drop here
  · intro y member
    rw [isJSONSpace_eq]
    exact List.all_eq_true.mp space.blank y member
  · intro y first
    cases first
    rw [isJSONSpace_eq, visible]

/-! ## Strings -/

theorem scanStringFrom_plain (here : raw.drop offset = x :: rest) (quote : x ≠ ascii '"')
    (backslash : x ≠ ascii '\\') :
    scanStringFrom raw (fuel + 1) offset = scanStringFrom raw fuel (offset + 1) := by
  rw [scanStringFrom, getElem?_of_drop here]
  simp only [quote, backslash, if_false]

theorem isHex_ne (hex : isHex x = true) : x ≠ ascii '"' ∧ x ≠ ascii '\\' := by
  simp only [isHex, Grammar.isDigit, Bool.or_eq_true, Bool.and_eq_true, decide_eq_true_eq] at hex
  rw [ne_eq, ne_eq, eq_ascii_iff (by decide), eq_ascii_iff (by decide)]
  show ¬ code x = 34 ∧ ¬ code x = 92
  omega

theorem scanStringFrom_closedText (parts : List (StringPart UInt8)) (rest : Bytes) (fuel offset : Nat)
    (here : raw.drop offset = closedText parts ++ rest) (enough : (closedText parts).length ≤ fuel) :
    scanStringFrom raw fuel offset = .ok (offset + (closedText parts).length) := by
  induction parts generalizing fuel offset with
  | nil =>
    obtain ⟨fuel, rfl⟩ : ∃ n, fuel = n + 1 := Nat.exists_eq_add_one_of_ne_zero (by
      simp [closedText] at enough
      omega)
    rw [scanStringFrom, @getElem?_of_drop _ _ (letter 34) rest here]
    exact if_pos rfl
  | cons part parts ih =>
    have split : closedText (part :: parts) = part.text ++ closedText parts := by
      simp [closedText]
    rw [split, List.append_assoc] at here
    rw [split, List.length_append] at enough ⊢
    have behind := drop_length_add here
    cases part with
    | plain x free =>
      have one : (StringPart.plain x free).text.length = 1 := rfl
      obtain ⟨fuel, rfl⟩ : ∃ n, fuel = n + 1 := Nat.exists_eq_add_one_of_ne_zero (by omega)
      simp only [isFree, Bool.and_eq_true, decide_eq_true_eq, bne_iff_ne, ne_eq] at free
      rw [scanStringFrom_plain here
        (by rw [ne_eq, eq_ascii_iff (by decide)]; exact free.1.2)
        (by rw [ne_eq, eq_ascii_iff (by decide)]; exact free.2),
        ih fuel (offset + 1) behind (by omega), one, Nat.add_assoc]
    | short x named =>
      have two : (StringPart.short x named).text.length = 2 := rfl
      obtain ⟨fuel, rfl⟩ : ∃ n, fuel = n + 1 := Nat.exists_eq_add_one_of_ne_zero (by omega)
      rw [scanStringFrom, getElem?_of_drop here]
      dsimp only
      rw [if_neg (by decide), if_pos (by decide), ih fuel (offset + 2) behind (by omega), two,
        Nat.add_assoc]
    | unicode a b c d hex =>
      have six : (StringPart.unicode a b c d hex).text.length = 6 := rfl
      obtain ⟨fuel, rfl⟩ : ∃ n, fuel = n + 5 := ⟨fuel - 5, by omega⟩
      simp only [List.all_cons, List.all_nil, Bool.and_true, Bool.and_eq_true] at hex
      -- past `\u`, then one digit after the other
      have first : raw.drop (offset + 2) = a :: b :: c :: d :: (closedText parts ++ rest) :=
        @drop_length_add _ _ [letter 92, letter 117] _ here
      have second := drop_succ_of_drop first
      have third := drop_succ_of_drop second
      have fourth := drop_succ_of_drop third
      rw [scanStringFrom, getElem?_of_drop here]
      dsimp only
      rw [if_neg (by decide), if_pos (by decide),
        scanStringFrom_plain first (isHex_ne hex.1).1 (isHex_ne hex.1).2,
        scanStringFrom_plain second (isHex_ne hex.2.1).1 (isHex_ne hex.2.1).2,
        scanStringFrom_plain third (isHex_ne hex.2.2.1).1 (isHex_ne hex.2.2.1).2,
        scanStringFrom_plain fourth (isHex_ne hex.2.2.2).1 (isHex_ne hex.2.2.2).2]
      show scanStringFrom raw fuel (offset + 6) = _
      rw [ih fuel (offset + 6) behind (by omega), six, Nat.add_assoc]

theorem length_le_of_drop (here : raw.drop offset = text ++ rest) :
    text.length ≤ raw.length := by
  have := congrArg List.length here
  simp only [List.length_drop, List.length_append] at this
  omega

theorem scanString_of_drop (here : raw.drop offset = stringText parts ++ rest) :
    scanString raw offset = .ok (stringText parts, offset + (stringText parts).length) := by
  have behind : raw.drop (offset + 1) = closedText parts ++ rest := drop_succ_of_drop here
  have short := length_le_of_drop behind
  unfold scanString
  rw [scanStringFrom_closedText parts rest _ _ behind (by omega)]
  have slice : (raw.take (offset + 1 + (closedText parts).length)).drop offset = stringText parts := by
    rw [List.drop_take, here, Nat.add_assoc, Nat.add_sub_cancel_left]
    exact List.take_left' (by simp [stringText, Nat.add_comm])
  show Except.ok (_, _) = _
  rw [slice]
  simp only [stringText, List.length_cons]
  congr 2
  omega

/-! ## Every string of the grammar can be decoded -/

/-- What stands between the quotes. -/
def bodyText (parts : List (StringPart UInt8)) : Bytes := parts.flatMap StringPart.text

theorem bodyText_cons (part : StringPart UInt8) (parts : List (StringPart UInt8)) :
    bodyText (part :: parts) = part.text ++ bodyText parts := rfl

theorem exists_hexDigitValue (hex : isHex x = true) :
    ∃ value, hexDigitValue x = some value := by
  simp only [isHex, Grammar.isDigit, Bool.or_eq_true, Bool.and_eq_true, decide_eq_true_eq] at hex
  unfold hexDigitValue
  simp only [show x.toNat = code x from rfl]
  split_ifs with digit lower upper
  · exact ⟨_, rfl⟩
  · exact ⟨_, rfl⟩
  · exact ⟨_, rfl⟩
  · omega

theorem exists_getu4 {a b c d : UInt8} (hex : [a, b, c, d].all isHex = true) (rest : Bytes) :
    ∃ rune, getu4 (letter 92 :: letter 117 :: a :: b :: c :: d :: rest) = some rune := by
  simp only [List.all_cons, List.all_nil, Bool.and_true, Bool.and_eq_true] at hex
  obtain ⟨first, isFirst⟩ := exists_hexDigitValue hex.1
  obtain ⟨second, isSecond⟩ := exists_hexDigitValue hex.2.1
  obtain ⟨third, isThird⟩ := exists_hexDigitValue hex.2.2.1
  obtain ⟨fourth, isFourth⟩ := exists_hexDigitValue hex.2.2.2
  refine ⟨((first * 16 + second) * 16 + third) * 16 + fourth, ?_⟩
  unfold getu4
  dsimp only
  rw [if_pos (by decide), isFirst, isSecond, isThird, isFourth]
  rfl

/-- Where a second surrogate is read, the next part is an escape of six bytes. -/
theorem exists_parts_of_getu4 {rune : Nat} (read : getu4 (bodyText parts) = some rune) :
    ∃ others, (bodyText parts).drop 6 = bodyText others := by
  cases parts with
  | nil => cases read
  | cons part others =>
    cases part with
    | plain x free =>
      exfalso
      simp only [isFree, Bool.and_eq_true, bne_iff_ne, ne_eq] at free
      have notBackslash : x ≠ ascii '\\' := by
        rw [ne_eq, eq_ascii_iff (by decide)]
        exact free.2
      rw [bodyText_cons] at read
      unfold getu4 at read
      split at read
      · rename_i same
        rw [← (List.cons.inj same).1] at read
        simp [notBackslash] at read
      · cases read
    | short x named =>
      exfalso
      have notU : x ≠ ascii 'u' := by
        rintro rfl
        exact absurd named (by decide)
      rw [bodyText_cons] at read
      unfold getu4 at read
      split at read
      · rename_i same
        rw [← (List.cons.inj (List.cons.inj same).2).1] at read
        simp [notU] at read
      · cases read
    | unicode a b c d hex => exact ⟨others, rfl⟩

/-- Bytes beyond ASCII are parts of their own. -/
theorem exists_parts_drop (n : Nat) (parts : List (StringPart UInt8))
    (high : ∀ b ∈ (bodyText parts).take n, 0x80 ≤ b.toNat) :
    ∃ others, (bodyText parts).drop n = bodyText others := by
  induction n generalizing parts with
  | zero => exact ⟨parts, rfl⟩
  | succ n ih =>
    cases parts with
    | nil => exact ⟨[], rfl⟩
    | cons part parts =>
      cases part with
      | plain x free =>
        exact ih parts fun b member => high b (List.mem_cons_of_mem _ member)
      | short x named => exact absurd (high (letter 92) List.mem_cons_self) (by decide)
      | unicode a b c d hex => exact absurd (high (letter 92) List.mem_cons_self) (by decide)

/-- A decoded rune takes a byte and, behind it, bytes beyond ASCII only. -/
theorem decodeRune_size (x : UInt8) (rest : Bytes) :
    ∃ n, (decodeRune (x :: rest)).2 = n + 1 ∧ ∀ b ∈ rest.take n, 0x80 ≤ b.toNat := by
  have tail : ∀ low high (b : UInt8), 0x80 ≤ low → isTail low high b = true → 0x80 ≤ b.toNat := by
    intro low high b above inside
    simp only [isTail, Bool.and_eq_true, decide_eq_true_eq] at inside
    omega
  have second : ∀ first, 0x80 ≤ secondLow first := by
    intro first
    unfold secondLow
    split_ifs <;> decide
  have lone : ∃ n, 1 = n + 1 ∧ ∀ b ∈ rest.take n, 0x80 ≤ b.toNat := ⟨0, rfl, by simp⟩
  unfold decodeRune
  dsimp only
  split_ifs with ascii two isTwo three isThree four isFour
  · exact lone
  · refine ⟨1, rfl, ?_⟩
    match rest with
    | [] => simp
    | a :: _ => simpa using tail _ _ a (by decide) isTwo
  · exact lone
  · simp only [Bool.and_eq_true] at isThree
    refine ⟨2, rfl, ?_⟩
    match rest with
    | [] => simp
    | [a] => simpa using tail _ _ a (second _) isThree.1
    | a :: b :: _ =>
      have middle := tail _ _ a (second _) isThree.1
      have last := tail _ _ b (by decide) isThree.2
      simpa using ⟨middle, last⟩
  · exact lone
  · simp only [Bool.and_eq_true] at isFour
    refine ⟨3, rfl, ?_⟩
    match rest with
    | [] => simp
    | [a] => simpa using tail _ _ a (second _) isFour.1.1
    | [a, b] =>
      have middle := tail _ _ a (second _) isFour.1.1
      have last := tail _ _ b (by decide) isFour.1.2
      simpa using ⟨middle, last⟩
    | a :: b :: c :: _ =>
      have middle := tail _ _ a (second _) isFour.1.1
      have later := tail _ _ b (by decide) isFour.1.2
      have last := tail _ _ c (by decide) isFour.2
      simpa using ⟨middle, later, last⟩
  · exact lone
  · exact lone

theorem exists_escapedRune (named : isEscapeLetter x = true) :
    ∃ rune, escapedRune x = some rune := by
  simp only [isEscapeLetter, List.contains_eq_mem, List.mem_cons, List.not_mem_nil, or_false,
    decide_eq_true_eq] at named
  rcases named with h | h | h | h | h | h | h | h <;> rw [eq_letter (by decide) h] <;>
    exact ⟨_, rfl⟩

theorem exists_map {α β : Type} {found : Option α} {f : α → β} (some_ : ∃ a, found = some a) :
    ∃ b, found.map f = some b := by
  obtain ⟨a, rfl⟩ := some_
  exact ⟨f a, rfl⟩

theorem exists_unquoteFrom (fuel : Nat) (parts : List (StringPart UInt8))
    (enough : (bodyText parts).length ≤ fuel) :
    ∃ key, unquoteFrom fuel (bodyText parts) = some key := by
  induction fuel generalizing parts with
  | zero =>
    have empty : bodyText parts = [] := List.length_eq_zero_iff.mp (Nat.le_zero.mp enough)
    exact ⟨[], by rw [empty]; rfl⟩
  | succ fuel ih =>
    cases parts with
    | nil => exact ⟨[], rfl⟩
    | cons part parts =>
      rw [bodyText_cons, List.length_append] at enough
      cases part with
      | plain x free =>
        have one : (StringPart.plain x free).text.length = 1 := rfl
        simp only [isFree, Bool.and_eq_true, decide_eq_true_eq, bne_iff_ne, ne_eq] at free
        have backslash : x ≠ ascii '\\' := by
          rw [ne_eq, eq_ascii_iff (by decide)]
          exact free.2
        have quote : ¬ (x = ascii '"' ∨ x.toNat < 32) := by
          rw [eq_ascii_iff (by decide)]
          show ¬ (code x = 34 ∨ code x < 32)
          omega
        show ∃ key, unquoteFrom (fuel + 1) (x :: bodyText parts) = some key
        unfold unquoteFrom
        rw [if_neg backslash, if_neg quote]
        split_ifs with low
        · exact exists_map (ih parts (by omega))
        · obtain ⟨n, size, high⟩ := decodeRune_size x (bodyText parts)
          obtain ⟨others, rest⟩ := exists_parts_drop n parts high
          dsimp only
          rw [size, List.drop_succ_cons, rest]
          apply exists_map
          apply ih
          rw [← rest, List.length_drop]
          omega
      | short x named =>
        have two : (StringPart.short x named).text.length = 2 := rfl
        obtain ⟨rune, escaped⟩ := exists_escapedRune named
        have notU : x ≠ ascii 'u' := by
          rintro rfl
          exact absurd named (by decide)
        show ∃ key, unquoteFrom (fuel + 1) (letter 92 :: x :: bodyText parts) = some key
        unfold unquoteFrom
        rw [if_pos (by decide)]
        dsimp only
        rw [if_neg notU, escaped]
        exact exists_map (ih parts (by omega))
      | unicode a b c d hex =>
        have six : (StringPart.unicode a b c d hex).text.length = 6 := rfl
        obtain ⟨rune, read⟩ := exists_getu4 hex (bodyText parts)
        show ∃ key, unquoteFrom (fuel + 1)
          (letter 92 :: letter 117 :: a :: b :: c :: d :: bodyText parts) = some key
        unfold unquoteFrom
        rw [if_pos (by decide)]
        dsimp only
        rw [if_pos (by decide), read]
        dsimp only [List.drop]
        split_ifs with surrogate
        · split
          · rename_i pair found
            obtain ⟨low, second, -⟩ := Option.bind_eq_some_iff.mp found
            obtain ⟨others, rest⟩ := exists_parts_of_getu4 second
            rw [rest]
            apply exists_map
            apply ih
            rw [← rest, List.length_drop]
            omega
          · exact exists_map (ih parts (by omega))
        · exact exists_map (ih parts (by omega))

/-- `json.Unmarshal` decodes every key that the grammar admits. -/
theorem exists_unmarshalKey (parts : List (StringPart UInt8)) :
    ∃ key, unmarshalKey (stringText parts) = some key := by
  have body : ((stringText parts).drop 1).dropLast = bodyText parts := by
    simp [stringText, closedText, bodyText]
  unfold unmarshalKey
  rw [body]
  exact exists_unquoteFrom _ parts le_rfl

/-! ## What the scanner checks, in its order -/

/-- The decoded name of a member. -/
def keyOf (key : Key UInt8) : List Nat := (unmarshalKey (stringText key.name)).getD []

def CleanKey (seen : List (List Nat)) (key : Key UInt8) : Prop :=
  (stringText key.name).length ≤ maxJSONKeyBytes ∧ keyOf key ∉ seen

mutual

/-- A value at a depth that the scanner lets through. -/
def Clean : Nat → Grammar.Tree UInt8 → Prop
  | depth, .array items => depth ≤ maxJSONDepth ∧ CleanItems (depth + 1) items
  | depth, .object members => depth ≤ maxJSONDepth ∧ CleanMembers (depth + 1) [] members
  | depth, _ => depth ≤ maxJSONDepth

def CleanItems : Nat → Items UInt8 → Prop
  | depth, .last _ item _ => Clean depth item
  | depth, .more _ item _ rest => Clean depth item ∧ CleanItems depth rest

/-- Members behind others whose names are `seen`. -/
def CleanMembers : Nat → List (List Nat) → Grammar.Members UInt8 → Prop
  | depth, seen, .last key _ item _ => CleanKey seen key ∧ Clean depth item
  | depth, seen, .more key _ item _ rest =>
    CleanKey seen key ∧ Clean depth item ∧ CleanMembers depth (keyOf key :: seen) rest

end

mutual

/-- The fuel that scanning takes. -/
def fuelOf : Grammar.Tree UInt8 → Nat
  | .emptyArray _ => 2
  | .array items => itemsFuel items + 2
  | .emptyObject _ => 2
  | .object members => membersFuel members + 2
  | _ => 1

def itemsFuel : Items UInt8 → Nat
  | .last _ item _ => fuelOf item + 1
  | .more _ item _ rest => max (fuelOf item) (itemsFuel rest) + 1

def membersFuel : Grammar.Members UInt8 → Nat
  | .last _ _ item _ => fuelOf item + 1
  | .more _ _ item _ rest => max (fuelOf item) (membersFuel rest) + 1

end

/-- The call ends at `stop` when all is `good`, and returns an error when it is not. -/
def Ends (result : Except ScanFailure Nat) (good : Prop) (stop : Nat) : Prop :=
  (good → result = .ok stop) ∧ (¬ good → ∃ error last, result = .error (.rejected error last))

namespace Ends

variable {result : Except ScanFailure Nat} {good later : Prop} {stop next : Nat}

theorem ok (holds : good) : Ends (.ok stop) good stop :=
  ⟨fun _ => rfl, fun fails => absurd holds fails⟩

theorem of_iff (ends : Ends result good stop) (same : good ↔ later) : Ends result later stop := by
  rwa [Ends, ← same]

theorem rejected_iff {error : ScanError} {last : Nat} :
    Ends (.error (.rejected error last)) good stop ↔ ¬ good :=
  ⟨fun ends holds => (nomatch ends.1 holds), fun fails =>
    ⟨fun holds => absurd holds fails, fun _ => ⟨error, last, rfl⟩⟩⟩

theorem bind {k : Nat → Except ScanFailure Nat} (first : Ends result good next)
    (second : Ends (k next) later stop) : Ends (result >>= k) (good ∧ later) stop := by
  by_cases holds : good
  · rw [first.1 holds]
    exact second.of_iff (by simp [holds])
  · obtain ⟨error, last, failed⟩ := first.2 holds
    rw [failed]
    exact ⟨fun both => absurd both.1 holds, fun _ => ⟨error, last, rfl⟩⟩

theorem require {condition : Bool} {error : ScanError} {last : Nat}
    {k : Unit → Except ScanFailure Nat} (second : Ends (k ()) later stop) :
    Ends (Theory.require condition (.rejected error last) >>= k) (condition = true ∧ later)
      stop := by
  cases condition with
  | true => exact second.of_iff (by simp)
  | false => exact ⟨fun both => absurd both.1 (by decide), fun _ => ⟨error, last, rfl⟩⟩

end Ends

/-! ## Numbers and literals -/

theorem endsPlain_eq (x : UInt8) : endsPlain x = isStop x := by
  have same : ∀ c : Char, c.toNat < 256 → (x == ascii c) = (code x == c.toNat) := by
    intro c small
    rw [Bool.eq_iff_iff, beq_iff_eq, beq_iff_eq, eq_ascii_iff small]
  unfold endsPlain isStop
  rw [isJSONSpace_eq, same ',' (by decide), same ']' (by decide), same '}' (by decide)]
  rfl

theorem scanPlain_of_drop (here : raw.drop offset = text ++ rest) (some_ : text ≠ [])
    (visible : ∀ x ∈ text, isStop x = false) (stops : Stops rest) :
    scanPlain raw offset = .ok (offset + text.length) := by
  have stop : skipWhile raw (fun b => !endsPlain b) offset = offset + text.length := by
    apply skipWhile_of_drop here
    · intro x member
      rw [endsPlain_eq, visible x member, Bool.not_false]
    · intro x first
      rw [endsPlain_eq, stops x first, Bool.not_true]
  have positive : 0 < text.length := List.length_pos_iff.mpr some_
  unfold scanPlain
  rw [stop]
  exact if_neg (by omega)

theorem isStop_of_isNumeric (numeric : isNumeric x = true) : isStop x = false := by
  simp only [isNumeric, Grammar.isDigit, Bool.or_eq_true, Bool.and_eq_true, decide_eq_true_eq,
    List.contains_eq_mem, List.mem_cons, List.not_mem_nil, or_false] at numeric
  simp only [isStop, isBlank, Bool.or_eq_false_iff, beq_eq_false_iff_ne, ne_eq]
  omega

/-! ## Values -/

/-- The first byte of a value decides how it is scanned. -/
theorem scanValue_of_drop (here : raw.drop offset = space.text ++ x :: rest)
    (visible : isBlank x = false) (shallow : depth ≤ maxJSONDepth) :
    scanValue raw (fuel + 1) depth offset =
      if x = ascii '{' then scanObject raw fuel depth (offset + space.text.length)
      else if x = ascii '[' then scanArray raw fuel depth (offset + space.text.length)
      else if x = ascii '"' then do
        let (_, offset) ← scanString raw (offset + space.text.length)
        pure offset
      else scanPlain raw (offset + space.text.length) := by
  have ahead := drop_length_add here
  unfold scanValue
  rw [if_neg (by omega), skipWhitespace_of_drop here visible]
  dsimp only
  rw [getElem?_of_drop ahead]

theorem scanValue_deep (deep : ¬ depth ≤ maxJSONDepth) :
    ∃ error last, scanValue raw (fuel + 1) depth offset = .error (.rejected error last) := by
  unfold scanValue
  exact ⟨_, _, if_pos (by omega)⟩

/-- A number or a literal. -/
theorem scanValue_plain {text rest : Bytes} {fuel depth : Nat} {space : Blanks UInt8}
    (here : raw.drop offset = space.text ++ (text ++ rest)) (some_ : text ≠ [])
    (visible : ∀ x ∈ text, isStop x = false)
    (kind : ∀ x ∈ text.head?, x ≠ ascii '{' ∧ x ≠ ascii '[' ∧ x ≠ ascii '"')
    (stops : Stops rest) (shallow : depth ≤ maxJSONDepth) :
    scanValue raw (fuel + 1) depth offset = .ok (offset + space.text.length + text.length) := by
  have ahead := drop_length_add here
  cases text with
  | nil => exact absurd rfl some_
  | cons x tail =>
    obtain ⟨brace, bracket, quote⟩ := kind x rfl
    have notBlank : isBlank x = false := by
      have := visible x List.mem_cons_self
      simp only [isStop, Bool.or_eq_false_iff] at this
      exact this.1.1.1
    rw [scanValue_of_drop here notBlank shallow, if_neg brace, if_neg bracket, if_neg quote]
    exact scanPlain_of_drop ahead some_ visible stops

theorem scanValue_number (n : Number UInt8)
    (here : raw.drop offset = space.text ++ (n.text ++ rest)) (stops : Stops rest)
    (shallow : depth ≤ maxJSONDepth) :
    scanValue raw (fuel + 1) depth offset = .ok (offset + space.text.length + n.text.length) := by
  obtain ⟨x, tail, split, -⟩ := (Grammar.Tree.number n).exists_head
  replace split : n.text = x :: tail := split
  refine scanValue_plain here (by rw [split]; exact List.cons_ne_nil _ _)
    (fun y member => isStop_of_isNumeric (isNumeric_of_mem_number n member)) ?_ stops shallow
  intro y first
  have numeric := isNumeric_of_mem_number n (List.mem_of_mem_head? first)
  have ne : ∀ c : Char, isNumeric (ascii c) = false → y ≠ ascii c := by
    rintro c other rfl
    rw [numeric] at other
    cases other
  exact ⟨ne '{' (by decide), ne '[' (by decide), ne '"' (by decide)⟩

theorem scanValue_word (w : Word)
    (here : raw.drop offset = space.text ++ ((w.text : Bytes) ++ rest)) (stops : Stops rest)
    (shallow : depth ≤ maxJSONDepth) :
    scanValue raw (fuel + 1) depth offset =
      .ok (offset + space.text.length + (w.text : Bytes).length) := by
  refine scanValue_plain here ?_ ?_ ?_ stops shallow
  · cases w <;> decide
  · cases w <;> exact List.forall_iff_forall_mem.mp (by decide)
  · cases w <;>
      · rintro x ⟨⟩
        decide

theorem scanValue_string (parts : List (StringPart UInt8))
    (here : raw.drop offset = space.text ++ (stringText parts ++ rest))
    (shallow : depth ≤ maxJSONDepth) :
    scanValue raw (fuel + 1) depth offset =
      .ok (offset + space.text.length + (stringText parts).length) := by
  rw [scanValue_of_drop (x := letter 34) here (by decide) shallow, if_neg (by decide),
    if_neg (by decide), if_pos (by decide), scanString_of_drop (drop_length_add here)]
  rfl

/-- Behind an item or a member: blanks, then a symbol that is none. -/
theorem byteAt_behind (here : raw.drop offset = space.text ++ x :: rest)
    (visible : isBlank x = false) :
    skipWhitespace raw offset = offset + space.text.length ∧
      byteAt raw (offset + space.text.length) = .ok x ∧
      raw.drop (offset + space.text.length + 1) = rest := by
  have ahead := drop_length_add here
  exact ⟨skipWhitespace_of_drop here visible, byteAt_of_drop ahead, drop_succ_of_drop ahead⟩

/-! ## Blanks are skipped once -/

theorem skipWhile_skipWhile (keep : UInt8 → Bool) (offset : Nat) :
    skipWhile raw keep (skipWhile raw keep offset) = skipWhile raw keep offset := by
  have split : raw.drop offset =
      (raw.drop offset).takeWhile keep ++ (raw.drop offset).dropWhile keep :=
    (List.takeWhile_append_dropWhile).symm
  have ahead := drop_length_add split
  have stopped : ((raw.drop offset).dropWhile keep).takeWhile keep = [] := by
    rw [List.takeWhile_eq_nil_iff]
    exact List.dropWhile_get_zero_not keep _
  conv_lhs => rw [skipWhile]
  unfold skipWhile
  rw [ahead, stopped, List.length_nil, Nat.add_zero]

/-- Blanks ahead of a value change at most the offset that an error reports. -/
theorem scanValue_skip {k : Nat → Except ScanFailure Nat} {good : Prop} {stop : Nat}
    (fuel depth offset : Nat) :
    Ends (scanValue raw fuel depth (skipWhitespace raw offset) >>= k) good stop ↔
      Ends (scanValue raw fuel depth offset >>= k) good stop := by
  cases fuel with
  | zero => simp only [scanValue]
  | succ fuel =>
    unfold scanValue skipWhitespace
    rw [skipWhile_skipWhile]
    by_cases deep : maxJSONDepth < depth
    · rw [if_pos deep, if_pos deep]
      exact Ends.rejected_iff.trans Ends.rejected_iff.symm
    · rw [if_neg deep, if_neg deep]

theorem scanItems_skip {good : Prop} {stop : Nat} (fuel depth offset : Nat) :
    Ends (scanItems raw fuel depth (skipWhitespace raw offset)) good stop ↔
      Ends (scanItems raw fuel depth offset) good stop := by
  cases fuel with
  | zero => simp only [scanItems]
  | succ fuel =>
    unfold scanItems
    exact scanValue_skip fuel (depth + 1) offset

theorem scanMembers_skip (fuel depth : Nat) (seen : List (List Nat)) (offset : Nat) :
    scanMembers raw fuel depth seen (skipWhitespace raw offset) =
      scanMembers raw fuel depth seen offset := by
  cases fuel with
  | zero => simp only [scanMembers]
  | succ fuel =>
    unfold scanMembers skipWhitespace
    rw [skipWhile_skipWhile]

/-! ## Arrays and objects -/

theorem visible_of_isStop (other : isStop x = false) :
    isBlank x = false ∧ x ≠ ascii ']' ∧ x ≠ ascii '}' := by
  refine ⟨?_, ?_, ?_⟩
  · simp only [isStop, Bool.or_eq_false_iff] at other
    exact other.1.1.1
  · rintro rfl
    exact absurd other (by decide)
  · rintro rfl
    exact absurd other (by decide)

theorem ok_bind {α β : Type} (a : α) (k : α → Except ScanFailure β) :
    ((Except.ok a : Except ScanFailure α) >>= k) = k a := rfl

theorem scanArray_empty (here : raw.drop offset = (Grammar.Tree.emptyArray space).text ++ rest) :
    scanArray raw (fuel + 1) depth offset = .ok (offset + (Grammar.Tree.emptyArray space).text.length) := by
  have behind : raw.drop (offset + 1) = space.text ++ letter 93 :: rest := by
    rw [Grammar.Tree.text, List.cons_append, List.append_assoc] at here
    exact drop_succ_of_drop here
  obtain ⟨skipped, closing, -⟩ := byteAt_behind behind (by decide)
  unfold scanArray
  simp only [skipped, closing]
  rw [ok_bind, if_pos (by decide)]
  simp only [Grammar.Tree.text, List.length_cons, List.length_append, List.length_nil, pure, Except.pure]
  congr 1
  omega

theorem scanObject_empty (here : raw.drop offset = (Grammar.Tree.emptyObject space).text ++ rest) :
    scanObject raw (fuel + 1) depth offset =
      .ok (offset + (Grammar.Tree.emptyObject space).text.length) := by
  have behind : raw.drop (offset + 1) = space.text ++ letter 125 :: rest := by
    rw [Grammar.Tree.text, List.cons_append, List.append_assoc] at here
    exact drop_succ_of_drop here
  obtain ⟨skipped, closing, -⟩ := byteAt_behind behind (by decide)
  unfold scanObject
  simp only [skipped, closing]
  rw [ok_bind, if_pos (by decide)]
  simp only [Grammar.Tree.text, List.length_cons, List.length_append, List.length_nil, pure, Except.pure]
  congr 1
  omega

/-- A bracket with an item behind it. -/
theorem scanArray_items {bracket : UInt8} {good : Prop} {stop : Nat}
    (here : raw.drop offset = bracket :: (space.text ++ x :: rest)) (other : isStop x = false)
    (items : Ends (scanItems raw fuel depth (offset + 1)) good stop) :
    Ends (scanArray raw (fuel + 1) depth offset) good stop := by
  obtain ⟨visible, notClosing, -⟩ := visible_of_isStop other
  obtain ⟨skipped, first, -⟩ := byteAt_behind (drop_succ_of_drop here) visible
  rw [← scanItems_skip] at items
  unfold scanArray
  simp only [skipped, first] at items ⊢
  rw [ok_bind, if_neg notClosing]
  exact items

/-- A brace with a member behind it. -/
theorem scanObject_members {brace : UInt8}
    (here : raw.drop offset = brace :: (space.text ++ x :: rest)) (other : isStop x = false) :
    scanObject raw (fuel + 1) depth offset = scanMembers raw fuel depth [] (offset + 1) := by
  obtain ⟨visible, -, notClosing⟩ := visible_of_isStop other
  obtain ⟨skipped, first, -⟩ := byteAt_behind (drop_succ_of_drop here) visible
  rw [← scanMembers_skip]
  unfold scanObject
  simp only [skipped, first]
  exact if_neg notClosing

/-- What the loop of an object does up to the value of a member. -/
theorem scanMembers_key {key : Key UInt8} {rest : Bytes} {fuel depth : Nat} {seen : List (List Nat)}
    {good : Prop} {stop : Nat}
    (here : raw.drop offset = key.text ++ letter 58 :: rest)
    (value : Ends (do
      let offset ← scanValue raw fuel (depth + 1) (offset + key.text.length + 1)
      let offset := skipWhitespace raw offset
      let b ← byteAt raw offset
      if b = ascii '}' then pure (offset + 1)
      else if b = ascii ',' then scanMembers raw fuel depth (keyOf key :: seen) (offset + 1)
      else reject "object is not terminated" offset) good stop) :
    Ends (scanMembers raw (fuel + 1) depth seen offset) (CleanKey seen key ∧ good) stop := by
  obtain ⟨decoded, decodes⟩ := exists_unmarshalKey key.name
  have named : keyOf key = decoded := by rw [keyOf, decodes, Option.getD_some]
  rw [Key.text, List.append_assoc, List.append_assoc] at here
  have atName := drop_length_add here
  have atColon := drop_length_add atName
  obtain ⟨skipped, -⟩ := byteAt_behind (x := letter 34) here (by decide)
  obtain ⟨skippedColon, colon, -⟩ := byteAt_behind (x := letter 58) atColon (by decide)
  have length : offset + key.before.text.length + (stringText key.name).length +
      key.after.text.length = offset + key.text.length := by
    simp only [Key.text, List.length_append]
    omega
  rw [length] at colon
  unfold scanMembers
  simp only [skipped, getElem?_of_drop (x := letter 34) atName, scanString_of_drop atName, ok_bind,
    decodes]
  have checks : Ends (do
      require (!seen.contains decoded) (.rejected (.duplicateKey decoded)
        (offset + key.before.text.length + (stringText key.name).length))
      let colon ← byteAt raw (skipWhitespace raw
        (offset + key.before.text.length + (stringText key.name).length))
      require (colon = ascii ':') (.rejected (.text "object key is missing its value separator")
        (skipWhitespace raw (offset + key.before.text.length + (stringText key.name).length)))
      let offset ← scanValue raw fuel (depth + 1) (skipWhitespace raw
        (offset + key.before.text.length + (stringText key.name).length) + 1)
      let offset := skipWhitespace raw offset
      let b ← byteAt raw offset
      if b = ascii '}' then pure (offset + 1)
      else if b = ascii ',' then scanMembers raw fuel depth (decoded :: seen) (offset + 1)
      else reject "object is not terminated" offset) ((!seen.contains decoded) = true ∧ good) stop := by
    apply Ends.require
    rw [skippedColon, length, colon, ok_bind]
    rw [named] at value
    exact value
  have bounded := @Ends.require _ _ (decide ((stringText key.name).length ≤ maxJSONKeyBytes))
    (.text "object key exceeds 256 bytes")
    (offset + key.before.text.length + (stringText key.name).length) (fun _ => _) checks
  refine Ends.of_iff bounded ?_
  simp only [CleanKey, named, decide_eq_true_eq, Bool.not_eq_true', List.contains_eq_mem,
    decide_eq_false_iff_not, and_assoc]

theorem exists_visible (items : Items UInt8) :
    ∃ (space : Blanks UInt8) (x : UInt8) (rest : Bytes),
      items.text = space.text ++ x :: rest ∧ isStop x = false := by
  cases items with
  | last before item after =>
    obtain ⟨x, tail, split, visible⟩ := item.exists_head
    exact ⟨before, x, _, by rw [Items.text, split, List.cons_append], visible⟩
  | more before item after rest =>
    obtain ⟨x, tail, split, visible⟩ := item.exists_head
    exact ⟨before, x, _, by rw [Items.text, split, List.cons_append], visible⟩

theorem exists_visible_members (members : Grammar.Members UInt8) :
    ∃ (space : Blanks UInt8) (x : UInt8) (rest : Bytes),
      members.text = space.text ++ x :: rest ∧ isStop x = false := by
  cases members with
  | last key before item after =>
    exact ⟨key.before, letter 34, _, by
      rw [Grammar.Members.text, Key.text, stringText, List.append_assoc, List.cons_append]
      rfl, by decide⟩
  | more key before item after rest =>
    exact ⟨key.before, letter 34, _, by
      rw [Grammar.Members.text, Key.text, stringText, List.append_assoc, List.cons_append]
      rfl, by decide⟩

mutual

/-- **A value is scanned to its end, or refused** -/
theorem scanValue_ends (tree : Grammar.Tree UInt8) (fuel depth offset : Nat) (space : Blanks UInt8)
    (rest : Bytes) (here : raw.drop offset = space.text ++ (tree.text ++ rest))
    (stops : Stops rest) (enough : fuelOf tree ≤ fuel) :
    Ends (scanValue raw fuel depth offset) (Clean depth tree)
      (offset + space.text.length + tree.text.length) := by
  by_cases shallow : depth ≤ maxJSONDepth
  · match tree with
    | .word w =>
      obtain ⟨fuel, rfl⟩ : ∃ n, fuel = n + 1 := ⟨fuel - 1, by simp only [fuelOf] at enough; omega⟩
      rw [show scanValue raw (fuel + 1) depth offset = _ from scanValue_word w here stops shallow]
      exact Ends.ok (by simpa only [Clean] using shallow)
    | .number n =>
      obtain ⟨fuel, rfl⟩ : ∃ n, fuel = n + 1 := ⟨fuel - 1, by simp only [fuelOf] at enough; omega⟩
      rw [show scanValue raw (fuel + 1) depth offset = _ from scanValue_number n here stops shallow]
      exact Ends.ok (by simpa only [Clean] using shallow)
    | .string parts =>
      obtain ⟨fuel, rfl⟩ : ∃ n, fuel = n + 1 := ⟨fuel - 1, by simp only [fuelOf] at enough; omega⟩
      rw [show scanValue raw (fuel + 1) depth offset = _ from scanValue_string parts here shallow]
      exact Ends.ok (by simpa only [Clean] using shallow)
    | .emptyArray inner =>
      obtain ⟨fuel, rfl⟩ : ∃ n, fuel = n + 2 := ⟨fuel - 2, by simp only [fuelOf] at enough; omega⟩
      rw [scanValue_of_drop (x := letter 91) here (by decide) shallow, if_neg (by decide),
        if_pos (by decide), scanArray_empty (drop_length_add here)]
      exact Ends.ok (by simpa only [Clean] using shallow)
    | .emptyObject inner =>
      obtain ⟨fuel, rfl⟩ : ∃ n, fuel = n + 2 := ⟨fuel - 2, by simp only [fuelOf] at enough; omega⟩
      rw [scanValue_of_drop (x := letter 123) here (by decide) shallow, if_pos (by decide),
        scanObject_empty (drop_length_add here)]
      exact Ends.ok (by simpa only [Clean] using shallow)
    | .array items =>
      obtain ⟨fuel, rfl⟩ : ∃ n, fuel = n + 2 := ⟨fuel - 2, by simp only [fuelOf] at enough; omega⟩
      have ahead : raw.drop (offset + space.text.length) = letter 91 :: (items.text ++ rest) :=
        drop_length_add here
      obtain ⟨inner, x, tail, split, visible⟩ := exists_visible items
      have first := ahead
      rw [split, List.append_assoc] at first
      rw [scanValue_of_drop (x := letter 91) here (by decide) shallow, if_neg (by decide),
        if_pos (by decide)]
      have inside := scanItems_ends items fuel depth _ rest (drop_succ_of_drop ahead)
        (by simp only [fuelOf] at enough; omega)
      rw [Clean, Grammar.Tree.text, List.length_cons, Nat.add_comm items.text.length 1, ← Nat.add_assoc]
      exact scanArray_items first visible (inside.of_iff (by simp [shallow]))
    | .object members =>
      obtain ⟨fuel, rfl⟩ : ∃ n, fuel = n + 2 := ⟨fuel - 2, by simp only [fuelOf] at enough; omega⟩
      have ahead : raw.drop (offset + space.text.length) = letter 123 :: (members.text ++ rest) :=
        drop_length_add here
      obtain ⟨inner, x, tail, split, visible⟩ := exists_visible_members members
      have first := ahead
      rw [split, List.append_assoc] at first
      rw [scanValue_of_drop (x := letter 123) here (by decide) shallow, if_pos (by decide),
        scanObject_members first visible]
      have inside := scanMembers_ends members fuel depth [] _ rest (drop_succ_of_drop ahead)
        (by simp only [fuelOf] at enough; omega)
      rw [Clean, Grammar.Tree.text, List.length_cons, Nat.add_comm members.text.length 1, ← Nat.add_assoc]
      exact inside.of_iff (by simp [shallow])
  · obtain ⟨fuel, rfl⟩ : ∃ n, fuel = n + 1 := by
      refine ⟨fuel - 1, ?_⟩
      cases tree <;> (simp only [fuelOf] at enough; omega)
    refine ⟨fun clean => absurd ?_ shallow, fun _ => scanValue_deep shallow⟩
    cases tree <;> first
      | exact clean
      | exact clean.1

theorem scanItems_ends (items : Items UInt8) (fuel depth offset : Nat) (rest : Bytes)
    (here : raw.drop offset = items.text ++ rest) (enough : itemsFuel items ≤ fuel) :
    Ends (scanItems raw fuel depth offset) (CleanItems (depth + 1) items)
      (offset + items.text.length) := by
  match items with
  | .last before item after =>
    obtain ⟨fuel, rfl⟩ : ∃ n, fuel = n + 1 := ⟨fuel - 1, by simp only [itemsFuel] at enough; omega⟩
    have atItem : raw.drop offset =
        before.text ++ (item.text ++ (after.text ++ letter 93 :: rest)) := by
      simpa [Items.text] using here
    have value := scanValue_ends item fuel (depth + 1) offset before _ atItem
      (stops_blanks after (by simpa using isStop_bracket))
      (by simp only [itemsFuel] at enough; omega)
    obtain ⟨skipped, closing, -⟩ :=
      byteAt_behind (drop_length_add (drop_length_add atItem)) (by decide)
    unfold scanItems
    refine (@Ends.bind _ _ True _ _ _ value ?_).of_iff (by rw [CleanItems, and_true])
    simp only [skipped, closing, ok_bind]
    rw [if_pos (by decide)]
    have length : offset + (Items.last before item after).text.length =
        offset + before.text.length + item.text.length + after.text.length + 1 := by
      simp only [Items.text, List.length_append, List.length_cons, List.length_nil]
      omega
    rw [length]
    exact Ends.ok trivial
  | .more before item after others =>
    obtain ⟨fuel, rfl⟩ : ∃ n, fuel = n + 1 := ⟨fuel - 1, by simp only [itemsFuel] at enough; omega⟩
    have atItem : raw.drop offset =
        before.text ++ (item.text ++ (after.text ++ letter 44 :: (others.text ++ rest))) := by
      simpa [Items.text] using here
    have value := scanValue_ends item fuel (depth + 1) offset before _ atItem
      (stops_blanks after (by simpa using isStop_comma))
      (by simp only [itemsFuel] at enough; omega)
    obtain ⟨skipped, comma, behind⟩ :=
      byteAt_behind (drop_length_add (drop_length_add atItem)) (by decide)
    have later := scanItems_ends others fuel depth _ rest behind
      (by simp only [itemsFuel] at enough; omega)
    unfold scanItems
    refine (@Ends.bind _ _ (CleanItems (depth + 1) others) _ _ _ value ?_).of_iff (by rw [CleanItems])
    simp only [skipped, comma, ok_bind]
    rw [if_neg (by decide), if_pos (by decide)]
    have length : offset + (Items.more before item after others).text.length =
        offset + before.text.length + item.text.length + after.text.length + 1 +
          others.text.length := by
      simp only [Items.text, List.length_append, List.length_cons]
      omega
    rw [length]
    exact later

theorem scanMembers_ends (members : Grammar.Members UInt8) (fuel depth : Nat)
    (seen : List (List Nat)) (offset : Nat) (rest : Bytes)
    (here : raw.drop offset = members.text ++ rest) (enough : membersFuel members ≤ fuel) :
    Ends (scanMembers raw fuel depth seen offset) (CleanMembers (depth + 1) seen members)
      (offset + members.text.length) := by
  match members with
  | .last key before item after =>
    obtain ⟨fuel, rfl⟩ : ∃ n, fuel = n + 1 := ⟨fuel - 1, by simp only [membersFuel] at enough; omega⟩
    have atKey : raw.drop offset = key.text ++ letter 58 ::
        (before.text ++ (item.text ++ (after.text ++ letter 125 :: rest))) := by
      simpa [Grammar.Members.text] using here
    have atItem := drop_succ_of_drop (drop_length_add atKey)
    have value := scanValue_ends item fuel (depth + 1) _ before _ atItem
      (stops_blanks after (by simpa using isStop_brace))
      (by simp only [membersFuel] at enough; omega)
    obtain ⟨skipped, closing, -⟩ :=
      byteAt_behind (drop_length_add (drop_length_add atItem)) (by decide)
    rw [CleanMembers]
    refine scanMembers_key atKey ((@Ends.bind _ _ True _ _ _ value ?_).of_iff (by rw [and_true]))
    simp only [skipped, closing, ok_bind]
    rw [if_pos (by decide)]
    have length : offset + (Grammar.Members.last key before item after).text.length =
        offset + key.text.length + 1 + before.text.length + item.text.length +
          after.text.length + 1 := by
      simp only [Grammar.Members.text, List.length_append, List.length_cons, List.length_nil]
      omega
    rw [length]
    exact Ends.ok trivial
  | .more key before item after others =>
    obtain ⟨fuel, rfl⟩ : ∃ n, fuel = n + 1 := ⟨fuel - 1, by simp only [membersFuel] at enough; omega⟩
    have atKey : raw.drop offset = key.text ++ letter 58 ::
        (before.text ++ (item.text ++ (after.text ++ letter 44 :: (others.text ++ rest)))) := by
      simpa [Grammar.Members.text] using here
    have atItem := drop_succ_of_drop (drop_length_add atKey)
    have value := scanValue_ends item fuel (depth + 1) _ before _ atItem
      (stops_blanks after (by simpa using isStop_comma))
      (by simp only [membersFuel] at enough; omega)
    obtain ⟨skipped, comma, behind⟩ :=
      byteAt_behind (drop_length_add (drop_length_add atItem)) (by decide)
    have later := scanMembers_ends others fuel depth (keyOf key :: seen) _ rest behind
      (by simp only [membersFuel] at enough; omega)
    rw [CleanMembers]
    refine scanMembers_key atKey (value.bind ?_)
    simp only [skipped, comma, ok_bind]
    rw [if_neg (by decide), if_pos (by decide)]
    have length : offset + (Grammar.Members.more key before item after others).text.length =
        offset + key.text.length + 1 + before.text.length + item.text.length +
          after.text.length + 1 + others.text.length := by
      simp only [Grammar.Members.text, List.length_append, List.length_cons]
      omega
    rw [length]
    exact later

end

/-! ## The whole text -/

theorem text_positive (tree : Grammar.Tree UInt8) : 0 < tree.text.length := by
  obtain ⟨x, rest, split, -⟩ := tree.exists_head
  rw [split]
  exact Nat.succ_pos _

mutual

/-- Two steps for each symbol are enough. -/
theorem fuelOf_le (tree : Grammar.Tree UInt8) : fuelOf tree ≤ 2 * tree.text.length := by
  match tree with
  | .word w | .number w | .string w =>
    exact Nat.le_trans (text_positive _) (Nat.le_mul_of_pos_left _ (by decide))
  | .emptyArray space | .emptyObject space =>
    simp only [fuelOf, Grammar.Tree.text, List.length_cons]
    omega
  | .array items =>
    have inside := itemsFuel_le items
    simp only [fuelOf, Grammar.Tree.text, List.length_cons]
    omega
  | .object members =>
    have inside := membersFuel_le members
    simp only [fuelOf, Grammar.Tree.text, List.length_cons]
    omega

theorem itemsFuel_le (items : Items UInt8) : itemsFuel items ≤ 2 * items.text.length := by
  match items with
  | .last before item after =>
    have first := fuelOf_le item
    simp only [itemsFuel, Items.text, List.length_append, List.length_cons]
    omega
  | .more before item after rest =>
    have first := fuelOf_le item
    have others := itemsFuel_le rest
    simp only [itemsFuel, Items.text, List.length_append, List.length_cons]
    omega

theorem membersFuel_le (members : Grammar.Members UInt8) :
    membersFuel members ≤ 2 * members.text.length := by
  match members with
  | .last key before item after =>
    have first := fuelOf_le item
    simp only [membersFuel, Grammar.Members.text, List.length_append, List.length_cons]
    omega
  | .more key before item after rest =>
    have first := fuelOf_le item
    have others := membersFuel_le rest
    simp only [membersFuel, Grammar.Members.text, List.length_append, List.length_cons]
    omega

end

/-- The encoded names of an object that the scanner lets through. -/
structure DistinctNames (names : List Bytes) : Prop where
  short : ∀ name ∈ names, name.length ≤ maxJSONKeyBytes
  distinct : (names.map unmarshalKey).Nodup

theorem unmarshalKey_stringText (key : Key UInt8) :
    unmarshalKey (stringText key.name) = some (keyOf key) := by
  obtain ⟨decoded, decodes⟩ := exists_unmarshalKey key.name
  rw [keyOf, decodes, Option.getD_some]

/-- The names of an object behind others that are `seen`. -/
def NewNames (seen : List (List Nat)) (names : List Bytes) : Prop :=
  DistinctNames names ∧ ∀ name ∈ names, ∀ key ∈ seen, unmarshalKey name ≠ some key

theorem newNames_nil : NewNames [] names ↔ DistinctNames names :=
  ⟨fun new => new.1, fun distinct => ⟨distinct, fun _ _ _ absent => nomatch absent⟩⟩

theorem newNames_empty : NewNames seen [] :=
  ⟨⟨fun _ absent => (nomatch absent), List.nodup_nil⟩, fun _ absent => (nomatch absent)⟩

theorem newNames_cons {key : Key UInt8} :
    NewNames seen (stringText key.name :: names) ↔
      CleanKey seen key ∧ NewNames (keyOf key :: seen) names := by
  have decodes := unmarshalKey_stringText key
  constructor
  · rintro ⟨⟨short, distinct⟩, new⟩
    rw [List.map_cons, List.nodup_cons, decodes] at distinct
    refine ⟨⟨short _ List.mem_cons_self, fun member => ?_⟩, ⟨?_, distinct.2⟩, ?_⟩
    · exact new _ List.mem_cons_self _ member decodes
    · exact fun name member => short name (List.mem_cons_of_mem _ member)
    · intro name member other inSeen same
      rcases List.mem_cons.mp inSeen with rfl | older
      · exact distinct.1 (List.mem_map.mpr ⟨name, member, same⟩)
      · exact new name (List.mem_cons_of_mem _ member) other older same
  · rintro ⟨⟨short, fresh⟩, ⟨shorts, distinct⟩, new⟩
    refine ⟨⟨?_, ?_⟩, ?_⟩
    · exact List.forall_mem_cons.mpr ⟨short, shorts⟩
    · rw [List.map_cons, List.nodup_cons, decodes]
      refine ⟨fun member => ?_, distinct⟩
      obtain ⟨name, inNames, same⟩ := List.mem_map.mp member
      exact new name inNames _ List.mem_cons_self same
    · refine List.forall_mem_cons.mpr ⟨fun other inSeen same => ?_, fun name member other inSeen =>
        new name member other (List.mem_cons_of_mem _ inSeen)⟩
      rw [decodes, Option.some.injEq] at same
      exact fresh (same ▸ inSeen)

mutual

theorem clean_iff (depth : Nat) (tree : Grammar.Tree UInt8) :
    Clean depth tree ↔
      depth + tree.nesting ≤ maxJSONDepth ∧ ∀ names ∈ tree.objects, DistinctNames names := by
  match tree with
  | .word w | .number w | .string w => simp [Clean, Grammar.Tree.nesting, Grammar.Tree.objects]
  | .emptyArray space | .emptyObject space => simp [Clean, Grammar.Tree.nesting, Grammar.Tree.objects]
  | .array items =>
    rw [Clean, cleanItems_iff (depth + 1) items, Grammar.Tree.nesting, Grammar.Tree.objects, ← and_assoc]
    exact and_congr_left' (by omega)
  | .object members =>
    rw [Clean, cleanMembers_iff (depth + 1) [] members, Grammar.Tree.nesting, Grammar.Tree.objects,
      List.forall_mem_cons, newNames_nil, ← and_assoc]
    exact and_congr_left' (by omega)

theorem cleanItems_iff (depth : Nat) (items : Items UInt8) :
    CleanItems depth items ↔
      depth + items.nesting ≤ maxJSONDepth ∧ ∀ names ∈ items.objects, DistinctNames names := by
  match items with
  | .last before item after => rw [CleanItems, clean_iff depth item, Items.nesting, Items.objects]
  | .more before item after rest =>
    rw [CleanItems, clean_iff depth item, cleanItems_iff depth rest, Items.nesting,
      Items.objects, List.forall_mem_append, and_and_and_comm]
    exact and_congr_left' (by omega)

theorem cleanMembers_iff (depth : Nat) (seen : List (List Nat)) (members : Grammar.Members UInt8) :
    CleanMembers depth seen members ↔
      depth + members.nesting ≤ maxJSONDepth ∧ NewNames seen members.names ∧
        ∀ names ∈ members.objects, DistinctNames names := by
  match members with
  | .last key before item after =>
    rw [CleanMembers, clean_iff depth item, Grammar.Members.nesting, Grammar.Members.objects,
      Grammar.Members.names, newNames_cons, and_iff_left newNames_empty, and_left_comm]
  | .more key before item after rest =>
    rw [CleanMembers, clean_iff depth item, cleanMembers_iff depth (keyOf key :: seen) rest,
      Grammar.Members.nesting, Grammar.Members.objects, Grammar.Members.names, newNames_cons,
      List.forall_mem_append]
    have deepest : depth + max item.nesting rest.nesting ≤ maxJSONDepth ↔
        depth + item.nesting ≤ maxJSONDepth ∧ depth + rest.nesting ≤ maxJSONDepth := by
      omega
    rw [deepest]
    tauto

end

/-- How many brackets `json.Valid` keeps open. -/
def maxNestingDepth : Nat := 10000

/-- The scanner on a whole text. -/
theorem rejectDuplicateKeys_ends (document : Document UInt8) (jsonValid : Bytes → Bool)
    (valid : jsonValid document.text = true) :
    Ends (rejectDuplicateKeys document.text jsonValid) (Clean 0 document.value)
      document.text.length := by
  have stops : Stops (document.after.text ++ ([] : Bytes)) := stops_blanks _ stops_nil
  rw [List.append_nil] at stops
  have fuel : fuelOf document.value ≤ 2 * document.text.length + 1 := by
    have bound := fuelOf_le document.value
    simp only [Document.text, List.length_append]
    omega
  have value := scanValue_ends document.value (2 * document.text.length + 1) 0 0 document.before
    document.after.text rfl stops fuel
  have behind : skipWhitespace document.text
      (0 + document.before.text.length + document.value.text.length) = document.text.length := by
    have here : document.text.drop (0 + document.before.text.length + document.value.text.length) =
        document.after.text ++ [] := by
      rw [List.append_nil]
      exact drop_length_add (drop_length_add (List.drop_zero (l := document.text)))
    have skipped := @skipWhile_of_drop _ _ isJSONSpace _ _ here
      (fun x member => by
        rw [isJSONSpace_eq]
        exact List.all_eq_true.mp document.after.blank x member)
      (fun x first => nomatch first)
    rw [skipWhitespace, skipped]
    simp only [Document.text, List.length_append]
    omega
  unfold rejectDuplicateKeys
  rw [valid]
  refine (@Ends.bind _ _ True _ _ _ value ?_).of_iff (by rw [and_true])
  rw [behind]
  exact (Ends.require (Ends.ok trivial)).of_iff (by simp)

/-- **The scanner reads inside the buffer, and stands behind the text when it returns nil, which
it does exactly when no object repeats a key, no key is too long and no value lies too deep.** -/
theorem rejectDuplicateKeys_exact (jsonValid : Bytes → Bool)
    (validates : ∀ document : Document UInt8, document.value.nesting < maxNestingDepth →
      jsonValid document.text = true) (document : Document UInt8) :
    (rejectDuplicateKeys document.text jsonValid = .ok document.text.length ∨
      ∃ error last, rejectDuplicateKeys document.text jsonValid = .error (.rejected error last)) ∧
    ((∃ last, rejectDuplicateKeys document.text jsonValid = .ok last) ↔
      (∀ names ∈ document.value.objects, (names.map unmarshalKey).Nodup ∧
        ∀ name ∈ names, name.length ≤ maxJSONKeyBytes) ∧
      document.value.nesting ≤ maxJSONDepth) := by
  have clean : Clean 0 document.value ↔
      (∀ names ∈ document.value.objects, (names.map unmarshalKey).Nodup ∧
        ∀ name ∈ names, name.length ≤ maxJSONKeyBytes) ∧
      document.value.nesting ≤ maxJSONDepth := by
    rw [clean_iff, Nat.zero_add, and_comm]
    apply and_congr_left'
    apply forall₂_congr
    exact fun names _ => ⟨fun ok => ⟨ok.distinct, ok.short⟩, fun ok => ⟨ok.2, ok.1⟩⟩
  have ends : Ends (rejectDuplicateKeys document.text jsonValid) (Clean 0 document.value)
      document.text.length := by
    cases valid : jsonValid document.text with
    | true => exact rejectDuplicateKeys_ends document jsonValid valid
    | false =>
      -- a text that `json.Valid` refuses is nested far deeper than the scanner allows
      have deep : ¬ document.value.nesting < maxNestingDepth := by
        intro shallow
        rw [validates document shallow] at valid
        cases valid
      refine ⟨fun good => ?_, fun _ => ⟨_, _, by rw [rejectDuplicateKeys, valid]; rfl⟩⟩
      have shallow : document.value.nesting ≤ 32 := (clean.mp good).2
      have := not_lt.mp deep
      have : maxNestingDepth = 10000 := rfl
      omega
  rw [← clean]
  by_cases good : Clean 0 document.value
  · have done := ends.1 good
    exact ⟨Or.inl done, fun _ => good, fun _ => ⟨_, done⟩⟩
  · obtain ⟨error, last, failed⟩ := ends.2 good
    refine ⟨Or.inr ⟨error, last, failed⟩, ?_, fun holds => absurd holds good⟩
    rintro ⟨last, done⟩
    rw [failed] at done
    cases done

def noBlanks : Blanks UInt8 := ⟨[], rfl⟩

def keyA : Key UInt8 := ⟨noBlanks, [.plain 97 rfl], noBlanks⟩

def keyB : Key UInt8 := ⟨noBlanks, [.plain 98 rfl], noBlanks⟩

/-- `{"a":0}` -/
def oneMember : Grammar.Tree UInt8 :=
  .object (.last keyA noBlanks (.number ⟨false, [48], [], [], rfl, rfl, rfl⟩) noBlanks)

/-- `{"a":{"a":0},"b":[{"a":0}]}`: the key stands in three objects, in each once. -/
def nestedMembers : Document UInt8 where
  before := noBlanks
  value := .object (.more keyA noBlanks oneMember noBlanks
    (.last keyB noBlanks (.array (.last noBlanks oneMember noBlanks)) noBlanks))
  after := noBlanks

theorem rejectDuplicateKeys_nestedMembers :
    nestedMembers.value.objects =
        [[[34, 97, 34], [34, 98, 34]], [[34, 97, 34]], [[34, 97, 34]]] ∧
      ∃ last, rejectDuplicateKeys nestedMembers.text (fun _ => true) = .ok last :=
  ⟨by decide, (rejectDuplicateKeys_exact (fun _ => true) (fun _ _ => rfl) nestedMembers).2.mpr (by decide)⟩

/-- `{"a":0,"a":0}` -/
def repeatedMember : Document UInt8 where
  before := ⟨[], rfl⟩
  value := .object (.more ⟨⟨[], rfl⟩, [.plain 97 rfl], ⟨[], rfl⟩⟩ ⟨[], rfl⟩
    (.number ⟨false, [48], [], [], rfl, rfl, rfl⟩) ⟨[], rfl⟩
    (.last ⟨⟨[], rfl⟩, [.plain 97 rfl], ⟨[], rfl⟩⟩ ⟨[], rfl⟩
      (.number ⟨false, [48], [], [], rfl, rfl, rfl⟩) ⟨[], rfl⟩))
  after := ⟨[], rfl⟩

/-- The scanner returns where the key stands a second time, inside the value. -/
theorem repeatedMember_stops_inside :
    rejectDuplicateKeys repeatedMember.text (fun _ => true) =
      .error (.rejected (.duplicateKey [97]) 10) ∧ 10 < repeatedMember.text.length := by
  decide +kernel

end AxiomEncode.Signing.JsonKeyScanner
