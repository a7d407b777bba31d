/-
# Theory.JsonRoundTrip -- what `dumps` prints, `loads` reads back

The reader is run after the printer, token by token and with a rest that no
number can run on into.  The value is followed by structural recursion, and the
fuel that reading it takes is bounded by the length of its text.
-/
import AxiomEncode.Theory.JsonText

namespace AxiomEncode.Theory

set_option autoImplicit false

namespace Json

/-! ## Strings -/

theorem hexValue_hexDigit : ∀ value < 16, hexValue (hexDigit value) = some value := by decide

variable {code n : Nat} {rest text : List Char}

theorem hexFour_hexDigit (small : code < 0x10000) :
    hexFour (hexDigit (code / 4096 % 16)) (hexDigit (code / 256 % 16)) (hexDigit (code / 16 % 16))
      (hexDigit (code % 16)) = some code := by
  unfold hexFour
  rw [hexValue_hexDigit _ (by omega), hexValue_hexDigit _ (by omega),
    hexValue_hexDigit _ (by omega), hexValue_hexDigit _ (by omega)]
  have digits : 4096 * (code / 4096 % 16) + 256 * (code / 256 % 16) + 16 * (code / 16 % 16) +
      code % 16 = code := by omega
  exact congrArg some digits

theorem scanString_unicodeEscape (rest : List Char) (scalar : code < 0xD800 ∨ 0xE000 ≤ code)
    (small : code < 0x10000) :
    scanString (unicodeEscape code ++ rest) =
      (scanString rest).map fun found => (Char.ofNat code :: found.1, found.2) := by
  unfold unicodeEscape
  simp only [List.cons_append, List.nil_append]
  rw [scanString, hexFour_hexDigit small]
  exact if_pos scalar

/-- A character beyond the basic plane is escaped as a pair of surrogates. -/
theorem scanString_surrogates {offset : Nat} (rest : List Char) (small : offset < 0x100000) :
    scanString (unicodeEscape (0xD800 + offset / 1024) ++
        (unicodeEscape (0xDC00 + offset % 1024) ++ rest)) =
      (scanString rest).map fun found => (Char.ofNat (0x10000 + offset) :: found.1, found.2) := by
  have high : 0xD800 + offset / 1024 < 0x10000 := by omega
  have low : 0xDC00 + offset % 1024 < 0x10000 := by omega
  unfold unicodeEscape
  simp only [List.cons_append, List.nil_append]
  rw [scanString, hexFour_hexDigit high]
  dsimp only
  rw [if_neg (by omega), if_neg (by omega)]
  simp only []
  rw [hexFour_hexDigit low]
  dsimp only
  rw [if_pos (by omega)]
  have whole : 0x10000 + (0xD800 + offset / 1024 - 0xD800) * 1024 +
      (0xDC00 + offset % 1024 - 0xDC00) = 0x10000 + offset := by omega
  rw [whole]

theorem scanString_escapeChar (c : Char) (rest : List Char) :
    scanString (escapeChar c ++ rest) =
      (scanString rest).map fun found => (c :: found.1, found.2) := by
  have letter : ∀ escape, simpleEscape escape = some c → escape ≠ 'u' →
      scanString ('\\' :: escape :: rest) =
        (scanString rest).map fun found => (c :: found.1, found.2) := by
    intro escape simple notUnicode
    rw [scanString, simple]
    rintro _ _ _ _ _ rfl
    exact absurd rfl notUnicode
  have back : Char.ofNat c.toNat = c := Char.ofNat_toNat c
  unfold escapeChar
  split_ifs with quote slash newline return_ tab feed backspace plain basic
  · exact letter '"' (by rw [quote]; rfl) (by decide)
  · exact letter '\\' (by rw [slash]; rfl) (by decide)
  · exact letter 'n' (by rw [newline]; rfl) (by decide)
  · exact letter 'r' (by rw [return_]; rfl) (by decide)
  · exact letter 't' (by rw [tab]; rfl) (by decide)
  · rw [feed] at back
    exact letter 'f' (back ▸ rfl) (by decide)
  · rw [backspace] at back
    exact letter 'b' (back ▸ rfl) (by decide)
  · rw [List.singleton_append, scanString, if_neg (by omega)]
    · exact quote
    · rintro _ _ _ _ _ rfl
      exact absurd rfl slash
    · rintro _ _ rfl
      exact absurd rfl slash
  · have scalar : c.toNat < 0xD800 ∨ 0xE000 ≤ c.toNat := by
      rcases c.valid with low | high
      · exact .inl low
      · exact .inr high.1
    rw [scanString_unicodeEscape rest scalar basic, back]
  · have small : c.toNat < 0x110000 := by
      rcases c.valid with low | high
      · exact Nat.lt_trans low (by decide)
      · exact high.2
    rw [List.append_assoc, scanString_surrogates rest (by omega)]
    rw [Nat.add_sub_cancel' (by omega), back]

/-- A printed string is read back. -/
theorem scanString_printString (text rest : List Char) :
    scanString (text.flatMap escapeChar ++ '"' :: rest) = some (text, rest) := by
  induction text with
  | nil => rw [List.flatMap_nil, List.nil_append, scanString]
  | cons c text ih =>
    rw [List.flatMap_cons, List.append_assoc, scanString_escapeChar, ih]
    rfl

theorem printString_append (text rest : List Char) :
    printString text ++ rest = '"' :: (text.flatMap escapeChar ++ '"' :: rest) := by
  simp [printString]


/-! ## Numbers -/

/-- Nothing that a number would run on into. -/
def Bounded (rest : List Char) : Prop := rest = [] ∨ ∃ tail, rest = ',' :: tail ∨ rest = '\n' :: tail

theorem isDigit_of_mem_toDigits {c : Char} (member : c ∈ Nat.toDigits 10 n) :
    isDigit c = true := by
  have digit := Nat.isDigit_of_mem_toDigits (by decide) (by decide) member
  unfold Char.isDigit at digit
  rw [Bool.and_eq_true, decide_eq_true_eq, decide_eq_true_eq] at digit
  unfold isDigit
  rw [Bool.and_eq_true, decide_eq_true_eq, decide_eq_true_eq]
  exact digit

theorem takeWhile_digits {digits : List Char} (all : ∀ c ∈ digits, isDigit c = true)
    (bounded : Bounded rest) : (digits ++ rest).takeWhile isDigit = digits := by
  have stop : rest.takeWhile isDigit = [] := by
    rcases bounded with rfl | ⟨tail, rfl | rfl⟩
    · rfl
    · rfl
    · rfl
  rw [List.takeWhile_append_of_pos all, stop, List.append_nil]

theorem scanFraction_bounded (bounded : Bounded rest) :
    scanFraction rest = ([], rest) := by
  rcases bounded with rfl | ⟨tail, rfl | rfl⟩
  · rfl
  · rfl
  · rfl

/-- The digits of a positive number do not start with a zero. -/
theorem toDigits_head_ne_zero (positive : 0 < n) :
    ∀ first more, Nat.toDigits 10 n = first :: more → first ≠ '0' := by
  induction n using Nat.strongRecOn with
  | ind n ih =>
    intro first more digits
    rw [Nat.toDigits_eq_if (by decide)] at digits
    split_ifs at digits with small
    · have leading : ∀ k < 10, 0 < k → k.digitChar ≠ '0' := by decide
      rw [← (List.cons.inj digits).1]
      exact leading n small positive
    · cases head : Nat.toDigits 10 (n / 10) with
      | nil => exact absurd head Nat.toDigits_ne_nil
      | cons c cs =>
        rw [head, List.cons_append] at digits
        rw [← (List.cons.inj digits).1]
        exact ih (n / 10) (by omega) (by omega) c cs head

theorem scanUnsigned_toDigits (negative : Bool) (n : Nat) (bounded : Bounded rest) :
    scanUnsigned negative (Nat.toDigits 10 n ++ rest) =
      some (.int (if negative then -n else n), rest) := by
  obtain ⟨first, more, digits⟩ : ∃ first more, Nat.toDigits 10 n = first :: more :=
    List.exists_cons_of_ne_nil Nat.toDigits_ne_nil
  have run : (Nat.toDigits 10 n ++ rest).takeWhile isDigit = Nat.toDigits 10 n :=
    takeWhile_digits (fun c member => isDigit_of_mem_toDigits member) bounded
  have whole : (if first = '0' then ['0'] else first :: more) = Nat.toDigits 10 n := by
    rw [digits]
    split_ifs with zero
    · rcases Nat.eq_zero_or_pos n with rfl | positive
      · rw [← digits, Nat.toDigits_zero]
      · exact absurd zero (toDigits_head_ne_zero positive first more digits)
    · rfl
  unfold scanUnsigned
  rw [run]
  rw [digits] at run whole ⊢
  dsimp only
  rw [whole, List.drop_left, scanFraction_bounded bounded, ← digits,
    Nat.ofDigitChars_ten_toDigits]
  rfl

theorem scanNumber_printInt (value : Int) (bounded : Bounded rest) :
    scanNumber (printInt value ++ rest) = some (.int value, rest) := by
  unfold printInt
  split_ifs with negative
  · rw [List.cons_append, scanNumber, scanUnsigned_toDigits true _ bounded]
    have : -((value.natAbs : Nat) : Int) = value := by omega
    rw [if_pos rfl, this]
  · obtain ⟨first, more, digits⟩ : ∃ first more, Nat.toDigits 10 value.natAbs = first :: more :=
      List.exists_cons_of_ne_nil Nat.toDigits_ne_nil
    have notSign : first ≠ '-' := by
      rintro rfl
      have := isDigit_of_mem_toDigits (n := value.natAbs) (digits ▸ List.mem_cons_self)
      exact absurd this (by decide)
    have unsigned : scanNumber (Nat.toDigits 10 value.natAbs ++ rest) =
        scanUnsigned false (Nat.toDigits 10 value.natAbs ++ rest) := by
      rw [digits, List.cons_append, scanNumber]
      rintro _ ⟨rfl, _⟩
      exact absurd rfl notSign
    rw [unsigned, scanUnsigned_toDigits false _ bounded]
    have : ((value.natAbs : Nat) : Int) = value := by omega
    rw [if_neg (by decide), this]

/-! ## Values -/

mutual

/-- The value holds no float. -/
def isPlain : Json → Bool
  | .float _ => false
  | .arr items => arePlain items
  | .obj members => membersArePlain members
  | _ => true

def arePlain : List Json → Bool
  | [] => true
  | item :: items => isPlain item && arePlain items

def membersArePlain : List (List Char × Json) → Bool
  | [] => true
  | (_, value) :: members => isPlain value && membersArePlain members

end

mutual

/-- The fuel that reading a value takes. -/
def fuel : Json → Nat
  | .arr items => itemsFuel items + 1
  | .obj members => membersFuel members + 1
  | _ => 1

def itemsFuel : List Json → Nat
  | [] => 1
  | item :: items => fuel item + itemsFuel items + 1

def membersFuel : List (List Char × Json) → Nat
  | [] => 1
  | (_, value) :: members => fuel value + membersFuel members + 2

end

/-- What a printed value starts with. -/
def Opens (text : List Char) : Prop :=
  ∃ c tail, text = c :: tail ∧ isJsonSpace c = false ∧ c ≠ ']' ∧ c ≠ '}'

theorem Opens.append (opens : Opens text) (rest : List Char) :
    Opens (text ++ rest) := by
  obtain ⟨c, tail, rfl, visible⟩ := opens
  exact ⟨c, tail ++ rest, rfl, visible⟩

theorem skipSpaces_opens (opens : Opens text) : skipSpaces text = text := by
  obtain ⟨c, tail, rfl, visible, -⟩ := opens
  exact List.dropWhile_cons_of_neg (by rw [visible]; decide)

theorem skipSpaces_newline (level : Nat) (text : List Char) :
    skipSpaces (newline level ++ text) = skipSpaces text := by
  unfold skipSpaces newline
  rw [List.cons_append, List.dropWhile_cons_of_pos (by decide),
    List.dropWhile_append_of_pos fun c member => by rw [List.eq_of_mem_replicate member]; rfl]

theorem printInt_head (value : Int) :
    ∃ c tail, printInt value = c :: tail ∧ (c = '-' ∨ isDigit c = true) := by
  unfold printInt
  split_ifs
  · exact ⟨'-', _, rfl, .inl rfl⟩
  · obtain ⟨first, more, digits⟩ : ∃ first more, Nat.toDigits 10 value.natAbs = first :: more :=
      List.exists_cons_of_ne_nil Nat.toDigits_ne_nil
    exact ⟨first, more, digits,
      .inr (isDigit_of_mem_toDigits (n := value.natAbs) (digits ▸ List.mem_cons_self))⟩

/-- A character that a number never starts with. -/
theorem ne_of_number {c d : Char} (number : c = '-' ∨ isDigit c = true) (sign : d ≠ '-')
    (other : isDigit d = false) : c ≠ d := by
  rintro rfl
  rcases number with minus | digit
  · exact sign minus
  · rw [digit] at other
    cases other

theorem opens_printInt (value : Int) : Opens (printInt value) := by
  obtain ⟨c, tail, shape, number⟩ := printInt_head value
  have ne : ∀ d, d ≠ '-' → isDigit d = false → c ≠ d := fun _ => ne_of_number number
  refine ⟨c, tail, shape, ?_, ne ']' (by decide) rfl, ne '}' (by decide) rfl⟩
  simp [isJsonSpace, ne ' ' (by decide) rfl, ne '\t' (by decide) rfl, ne '\n' (by decide) rfl,
    ne '\r' (by decide) rfl]

theorem opens_printValue (level : Nat) (value : Json) (plain : isPlain value = true) :
    Opens (printValue level value) := by
  match value with
  | .null => exact ⟨'n', _, rfl, by decide⟩
  | .bool true => exact ⟨'t', _, rfl, by decide⟩
  | .bool false => exact ⟨'f', _, rfl, by decide⟩
  | .int value => exact opens_printInt value
  | .float _ => cases plain
  | .str text => exact ⟨'"', _, rfl, by decide⟩
  | .arr [] => exact ⟨'[', _, rfl, by decide⟩
  | .arr (_ :: _) => exact ⟨'[', _, rfl, by decide⟩
  | .obj [] => exact ⟨'{', _, rfl, by decide⟩
  | .obj ((_, _) :: _) => exact ⟨'{', _, rfl, by decide⟩

/-- Nothing that a printed integer starts with opens a literal. -/
theorem scanPlain_printInt (value : Int) (bounded : Bounded rest) :
    scanPlain (printInt value ++ rest) = some (.int value, rest) := by
  obtain ⟨first, more, digits⟩ : ∃ first more, Nat.toDigits 10 value.natAbs = first :: more :=
    List.exists_cons_of_ne_nil Nat.toDigits_ne_nil
  have digit := isDigit_of_mem_toDigits (n := value.natAbs) (digits ▸ List.mem_cons_self)
  have noLiteral : literals.find? (fun literal => literal.1.isPrefixOf (printInt value ++ rest)) =
      none := by
    have other : ∀ c, isDigit c = false → c ≠ first := by
      rintro c notDigit rfl
      rw [digit] at notDigit
      cases notDigit
    rw [List.find?_eq_none]
    unfold printInt
    rw [digits]
    split_ifs
    · simp [literals, other 'I' rfl]
    · simp [literals, other 'n' rfl, other 't' rfl, other 'f' rfl, other 'N' rfl, other 'I' rfl,
        other '-' rfl]
  unfold scanPlain
  rw [noLiteral]
  exact scanNumber_printInt value bounded

theorem scanValue_scanPlain {c : Char} (n : Nat) (tail : List Char) (string : c ≠ '"')
    (array : c ≠ '[') (object : c ≠ '{') :
    scanValue (n + 1) (c :: tail) = scanPlain (c :: tail) := by
  rw [scanValue]
  · rintro _ ⟨⟩
    exact string rfl
  · rintro _ ⟨⟩
    exact array rfl
  · rintro _ ⟨⟩
    exact object rfl

/-- An array that is not empty: an item, then what follows it. -/
theorem scanValue_array (n : Nat) (opens : Opens (skipSpaces text)) :
    scanValue (n + 1) ('[' :: text) = (scanValue n (skipSpaces text)).bind fun item =>
      (scanItems n item.2).bind fun items => some (.arr (item.1 :: items.1), items.2) := by
  obtain ⟨c, tail, shape, -, bracket, -⟩ := opens
  rw [scanValue, shape]
  dsimp only
  split
  · next rest same => exact absurd (List.cons.inj same).1 bracket
  · rfl

theorem scanValue_object (n : Nat) (opens : Opens (skipSpaces text)) :
    scanValue (n + 1) ('{' :: text) = (scanMember n (skipSpaces text)).bind fun member =>
      (scanMembers n member.2).bind fun members =>
        some (.obj (member.1 :: members.1), members.2) := by
  obtain ⟨c, tail, shape, -, -, brace⟩ := opens
  rw [scanValue, shape]
  dsimp only
  split
  · next rest same => exact absurd (List.cons.inj same).1 brace
  · rfl

theorem scanItems_comma (n : Nat) (text : List Char) :
    scanItems (n + 1) (',' :: text) = (scanValue n (skipSpaces text)).bind fun item =>
      (scanItems n item.2).bind fun items => some (item.1 :: items.1, items.2) := by
  rw [scanItems, show skipSpaces (',' :: text) = ',' :: text from rfl]
  rfl

theorem scanMembers_comma (n : Nat) (text : List Char) :
    scanMembers (n + 1) (',' :: text) = (scanMember n (skipSpaces text)).bind fun member =>
      (scanMembers n member.2).bind fun members => some (member.1 :: members.1, members.2) := by
  rw [scanMembers, show skipSpaces (',' :: text) = ',' :: text from rfl]
  rfl

/-- What follows an item or a member is no part of a number. -/
theorem bounded_printItems (level : Nat) (items : List Json) (rest : List Char) :
    Bounded (printItems level items ++ rest) := by
  cases items with
  | nil => exact .inr ⟨_, .inr rfl⟩
  | cons => exact .inr ⟨_, .inl rfl⟩

theorem bounded_printMembers (level : Nat) (members : List (List Char × Json))
    (rest : List Char) : Bounded (printMembers level members ++ rest) := by
  match members with
  | [] => exact .inr ⟨_, .inr rfl⟩
  | (_, _) :: _ => exact .inr ⟨_, .inl rfl⟩

theorem scanMember_printed {level : Nat} (key : List Char) (value : Json) (rest : List Char)
    (plain : isPlain value = true)
    (scanned : scanValue n (printValue level value ++ rest) = some (value, rest)) :
    scanMember (n + 1) (printString key ++ (':' :: ' ' :: (printValue level value ++ rest))) =
      some ((key, value), rest) := by
  have colon : ∀ text, skipSpaces (':' :: text) = ':' :: text := fun _ => rfl
  have space : ∀ text, skipSpaces (' ' :: text) = skipSpaces text := fun _ => rfl
  rw [printString_append, scanMember, scanString_printString]
  simp only [Option.bind_eq_bind, Option.bind_some]
  rw [colon]
  simp only
  rw [space, skipSpaces_opens ((opens_printValue level value plain).append rest), scanned]
  rfl

mutual

theorem scanValue_printValue (value : Json) (level n : Nat) (rest : List Char)
    (plain : isPlain value = true) (enough : fuel value ≤ n) (bounded : Bounded rest) :
    scanValue n (printValue level value ++ rest) = some (value, rest) := by
  obtain ⟨n, rfl⟩ : ∃ m, n = m + 1 := by
    refine Nat.exists_eq_add_one_of_ne_zero ?_
    rintro rfl
    cases value <;> simp [fuel] at enough
  match value with
  | .null => rfl
  | .bool true => rfl
  | .bool false => rfl
  | .int value =>
    obtain ⟨c, tail, shape, number⟩ := printInt_head value
    have ne : ∀ d, d ≠ '-' → isDigit d = false → c ≠ d := fun _ => ne_of_number number
    rw [printValue, shape, List.cons_append,
      scanValue_scanPlain n _ (ne '"' (by decide) rfl) (ne '[' (by decide) rfl)
        (ne '{' (by decide) rfl), ← List.cons_append, ← shape]
    exact scanPlain_printInt value bounded
  | .float _ => cases plain
  | .str text =>
    rw [printValue, printString_append, scanValue, scanString_printString]
    rfl
  | .arr [] => rfl
  | .arr (item :: items) =>
    rw [isPlain, arePlain, Bool.and_eq_true] at plain
    rw [fuel, itemsFuel] at enough
    have opens := opens_printValue (level + 1) item plain.1
    rw [printValue, List.cons_append, List.append_assoc, List.append_assoc, scanValue_array,
      skipSpaces_newline, skipSpaces_opens (opens.append _),
      scanValue_printValue item (level + 1) n _ plain.1 (by omega)
        (bounded_printItems level items rest), Option.bind_some,
      scanItems_printItems items level n rest plain.2 (by omega)]
    · rfl
    · rw [skipSpaces_newline, skipSpaces_opens (opens.append _)]
      exact opens.append _
  | .obj [] => rfl
  | .obj ((key, value) :: members) =>
    rw [isPlain, membersArePlain, Bool.and_eq_true] at plain
    rw [fuel, membersFuel] at enough
    obtain ⟨n, rfl⟩ : ∃ m, n = m + 1 := Nat.exists_eq_add_one_of_ne_zero (by omega)
    have opens : ∀ rest, Opens (printString key ++ rest) := fun rest =>
      ⟨'"', _, printString_append key rest, by decide⟩
    have member := scanMember_printed key value (printMembers level members ++ rest) plain.1
      (scanValue_printValue value (level + 1) n _ plain.1 (by omega)
        (bounded_printMembers level members rest))
    rw [printValue, List.cons_append, List.append_assoc, List.append_assoc, scanValue_object,
      skipSpaces_newline, skipSpaces_opens (opens _), List.cons_append, List.cons_append,
      List.append_assoc, member, Option.bind_some,
      scanMembers_printMembers members level (n + 1) rest plain.2 (by omega)]
    · rfl
    · rw [skipSpaces_newline, skipSpaces_opens (opens _)]
      exact opens _

theorem scanItems_printItems (items : List Json) (level n : Nat) (rest : List Char)
    (plain : arePlain items = true) (enough : itemsFuel items ≤ n) :
    scanItems n (printItems level items ++ rest) = some (items, rest) := by
  match items with
  | [] =>
    obtain ⟨n, rfl⟩ : ∃ m, n = m + 1 := Nat.exists_eq_add_one_of_ne_zero (by
      rw [itemsFuel] at enough
      omega)
    rw [printItems, List.append_assoc, scanItems, skipSpaces_newline]
    rfl
  | item :: items =>
    rw [arePlain, Bool.and_eq_true] at plain
    rw [itemsFuel] at enough
    obtain ⟨n, rfl⟩ : ∃ m, n = m + 1 := Nat.exists_eq_add_one_of_ne_zero (by omega)
    rw [printItems, List.cons_append, List.append_assoc, List.append_assoc, scanItems_comma,
      skipSpaces_newline,
      skipSpaces_opens ((opens_printValue (level + 1) item plain.1).append _),
      scanValue_printValue item (level + 1) n _ plain.1 (by omega)
        (bounded_printItems level items rest), Option.bind_some,
      scanItems_printItems items level n rest plain.2 (by omega)]
    rfl

theorem scanMembers_printMembers (members : List (List Char × Json)) (level n : Nat)
    (rest : List Char) (plain : membersArePlain members = true) (enough : membersFuel members ≤ n) :
    scanMembers n (printMembers level members ++ rest) = some (members, rest) := by
  match members with
  | [] =>
    obtain ⟨n, rfl⟩ : ∃ m, n = m + 1 := Nat.exists_eq_add_one_of_ne_zero (by
      rw [membersFuel] at enough
      omega)
    rw [printMembers, List.append_assoc, scanMembers, skipSpaces_newline]
    rfl
  | (key, value) :: members =>
    rw [membersArePlain, Bool.and_eq_true] at plain
    rw [membersFuel] at enough
    obtain ⟨n, rfl⟩ : ∃ m, n = m + 2 := ⟨n - 2, by omega⟩
    have opens : ∀ rest, Opens (printString key ++ rest) := fun rest =>
      ⟨'"', _, printString_append key rest, by decide⟩
    have member := scanMember_printed key value (printMembers level members ++ rest) plain.1
      (scanValue_printValue value (level + 1) n _ plain.1 (by omega)
        (bounded_printMembers level members rest))
    rw [printMembers, List.cons_append, List.append_assoc, List.append_assoc, scanMembers_comma,
      skipSpaces_newline, skipSpaces_opens (opens _), List.cons_append, List.cons_append,
      List.append_assoc, member, Option.bind_some,
      scanMembers_printMembers members level (n + 1) rest plain.2 (by omega)]
    rfl

end

/-! ## The round trip -/

theorem length_printInt_pos (value : Int) : 0 < (printInt value).length := by
  obtain ⟨c, tail, shape, -⟩ := printInt_head value
  rw [shape]
  exact Nat.succ_pos _

mutual

/-- A value takes no more fuel to read than it is long. -/
theorem fuel_le_length (value : Json) (level : Nat) (plain : isPlain value = true) :
    fuel value ≤ (printValue level value).length := by
  match value with
  | .null => simp [fuel, printValue]
  | .bool true => simp [fuel, printValue]
  | .bool false => simp [fuel, printValue]
  | .int value => exact length_printInt_pos value
  | .float _ => cases plain
  | .str text => simp [fuel, printValue, printString]
  | .arr [] => simp [fuel, itemsFuel, printValue]
  | .arr (item :: items) =>
    rw [isPlain, arePlain, Bool.and_eq_true] at plain
    have first := fuel_le_length item (level + 1) plain.1
    have later := itemsFuel_le_length items level plain.2
    simp only [fuel, itemsFuel, printValue, newline, List.length_cons, List.length_append]
    omega
  | .obj [] => simp [fuel, membersFuel, printValue]
  | .obj ((key, value) :: members) =>
    rw [isPlain, membersArePlain, Bool.and_eq_true] at plain
    have first := fuel_le_length value (level + 1) plain.1
    have later := membersFuel_le_length members level plain.2
    simp only [fuel, membersFuel, printValue, newline, List.length_cons, List.length_append]
    omega

theorem itemsFuel_le_length (items : List Json) (level : Nat) (plain : arePlain items = true) :
    itemsFuel items ≤ (printItems level items).length := by
  match items with
  | [] => simp [itemsFuel, printItems]
  | item :: items =>
    rw [arePlain, Bool.and_eq_true] at plain
    have first := fuel_le_length item (level + 1) plain.1
    have later := itemsFuel_le_length items level plain.2
    simp only [itemsFuel, printItems, List.length_cons, List.length_append]
    omega

theorem membersFuel_le_length (members : List (List Char × Json)) (level : Nat)
    (plain : membersArePlain members = true) :
    membersFuel members ≤ (printMembers level members).length := by
  match members with
  | [] => simp [membersFuel, printMembers]
  | (key, value) :: members =>
    rw [membersArePlain, Bool.and_eq_true] at plain
    have first := fuel_le_length value (level + 1) plain.1
    have later := membersFuel_le_length members level plain.2
    simp only [membersFuel, printMembers, List.length_cons, List.length_append]
    omega

end

/-- A printed text that goes on after a line break shows where the value ends. -/
theorem dumps_append_inj {a b : Json} {rest' : List Char} (plain : isPlain a = true)
    (plain' : isPlain b = true) (same : dumps a ++ '\n' :: rest = dumps b ++ '\n' :: rest') :
    a = b := by
  have first := scanValue_printValue a 0 (fuel a + fuel b) ('\n' :: rest) plain (by omega)
    (.inr ⟨rest, .inr rfl⟩)
  have second := scanValue_printValue b 0 (fuel a + fuel b) ('\n' :: rest') plain' (by omega)
    (.inr ⟨rest', .inr rfl⟩)
  unfold dumps at same
  rw [same, second] at first
  exact (Prod.mk.inj (Option.some.inj first)).1.symm

/-- **What was printed is read back**, with any line breaks after it. -/
theorem loads_dumps (value : Json) (plain : isPlain value = true) :
    loads (dumps value ++ ['\n']) = some value := by
  have opens := (opens_printValue 0 value plain).append ['\n']
  have enough := fuel_le_length value 0 plain
  have scanned := scanValue_printValue value 0 (2 * (dumps value ++ ['\n']).length + 2) ['\n'] plain
    (by
      unfold dumps
      rw [List.length_append]
      omega)
    (.inr ⟨[], .inr rfl⟩)
  unfold loads
  rw [show skipSpaces (dumps value ++ ['\n']) = dumps value ++ ['\n'] from skipSpaces_opens opens]
  unfold dumps at scanned ⊢
  rw [scanned]
  rfl

end Json
end AxiomEncode.Theory
