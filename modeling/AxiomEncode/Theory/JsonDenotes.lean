/-
# Theory.JsonDenotes -- what a JSON text of characters denotes

`Tree.value` gives the value of a concrete syntax tree; an escape that leaves a lone
surrogate denotes no text of Unicode scalar values.  The reader of `Theory.JsonText`
is complete: it reads every text to its value and stops where the text does
(`scanValue_text`).  What it has read of a text it also reads when more follows
(`scanValue_extend`), so no proper prefix of an object loads.
-/
import AxiomEncode.Theory.JsonRoundTrip
import AxiomEncode.Theory.JsonGrammar
import Mathlib.Data.List.Find

namespace AxiomEncode.Theory

set_option autoImplicit false

namespace Json

open Grammar hiding isDigit Stops isStop
open Alphabet

/-! ## Denotation -/

/-- The characters of a string. -/
def partsText : List (StringPart Char) → Option (List Char)
  | [] => some []
  | .plain c _ :: parts => (partsText parts).map (c :: ·)
  | .short c _ :: parts => do
    let c ← simpleEscape c
    let text ← partsText parts
    some (c :: text)
  | .unicode a b c d _ :: parts => do
    let code ← hexFour a b c d
    if code < 0xD800 ∨ 0xE000 ≤ code then (partsText parts).map (Char.ofNat code :: ·)
    else if 0xDC00 ≤ code then none
    else
      match parts with
      | .unicode e f g h _ :: parts => do
        let low ← hexFour e f g h
        if 0xDC00 ≤ low ∧ low < 0xE000 then
          (partsText parts).map
            (Char.ofNat (0x10000 + (code - 0xD800) * 1024 + (low - 0xDC00)) :: ·)
        else none
      | _ => none

/-- An integer, or the text of a float. -/
def numberValue (n : Number Char) : Json :=
  if (n.fraction ++ n.exponent).isEmpty then
    let value : Int := Nat.ofDigitChars 10 n.whole 0
    .int (if n.negative then -value else value)
  else .float n.text

def wordValue : Word → Json
  | .null => .null
  | .false => .bool false
  | .true => .bool true

mutual

def treeValue : Grammar.Tree Char → Option Json
  | .word w => some (wordValue w)
  | .number n => some (numberValue n)
  | .string parts => (partsText parts).map .str
  | .emptyArray _ => some (.arr [])
  | .array items => (itemsValue items).map .arr
  | .emptyObject _ => some (.obj [])
  | .object members => (membersValue members).map .obj

def itemsValue : Items Char → Option (List Json)
  | .last _ item _ => (treeValue item).map fun value => [value]
  | .more _ item _ rest => do
    let value ← treeValue item
    let values ← itemsValue rest
    some (value :: values)

def membersValue : Grammar.Members Char → Option (List (List Char × Json))
  | .last key _ item _ => do
    let name ← partsText key.name
    let value ← treeValue item
    some [(name, value)]
  | .more key _ item _ rest => do
    let name ← partsText key.name
    let value ← treeValue item
    let members ← membersValue rest
    some ((name, value) :: members)

end

/-! ## Blanks -/

theorem isJsonSpace_eq (c : Char) : isJsonSpace c = isBlank c := by
  have same : ∀ d : Char, (c == d) = (code c == code d) := by
    intro d
    rw [Bool.eq_iff_iff, beq_iff_eq, beq_iff_eq]
    exact ⟨congrArg code, fun equal => code_injective equal⟩
  unfold isJsonSpace isBlank
  rw [same ' ', same '\t', same '\n', same '\r']
  rfl

theorem isSpace_of_isBlank {c : Char} (blank : isBlank c = true) : isSpace c = true := by
  simp only [isBlank, Bool.or_eq_true, beq_iff_eq] at blank
  have code : c.toNat = 32 ∨ c.toNat = 9 ∨ c.toNat = 10 ∨ c.toNat = 13 := by
    rcases blank with ((space | tab) | feed) | carriage
    · exact .inl space
    · exact .inr (.inl tab)
    · exact .inr (.inr (.inl feed))
    · exact .inr (.inr (.inr carriage))
  unfold isSpace
  rcases code with same | same | same | same <;> rw [same] <;> decide

theorem skipSpaces_blanks (space : Blanks Char) (text : List Char) :
    skipSpaces (space.text ++ text) = skipSpaces text := by
  apply List.dropWhile_append_of_pos
  intro c member
  rw [isJsonSpace_eq]
  exact List.all_eq_true.mp space.blank c member

theorem skipSpaces_cons {c : Char} {text : List Char} (visible : isBlank c = false) :
    skipSpaces (c :: text) = c :: text := by
  apply List.dropWhile_cons_of_neg
  rw [isJsonSpace_eq, visible]
  decide

theorem skipSpaces_tree (tree : Grammar.Tree Char) (rest : List Char) :
    skipSpaces (tree.text ++ rest) = tree.text ++ rest := by
  obtain ⟨c, tail, split, other⟩ := tree.exists_head
  rw [split, List.cons_append]
  simp only [Grammar.isStop, Bool.or_eq_false_iff] at other
  exact skipSpaces_cons other.1.1.1

/-! ## Strings -/

theorem scanString_plain {c : Char} (free : isFree c = true) (rest : List Char) :
    scanString (c :: rest) = (scanString rest).map fun found => (c :: found.1, found.2) := by
  simp only [isFree, Bool.and_eq_true, decide_eq_true_eq, bne_iff_ne, ne_eq] at free
  have quote : c ≠ '"' := fun same => free.1.2 (by rw [same]; rfl)
  have slash : c ≠ '\\' := fun same => free.2 (by rw [same]; rfl)
  rw [scanString, if_neg (by have := free.1.1; change ¬ code c < 32; omega)]
  · exact quote
  · rintro _ _ _ _ _ rfl
    exact absurd rfl slash
  · rintro _ _ rfl
    exact absurd rfl slash

theorem scanString_short {letter c : Char} (rest : List Char)
    (simple : simpleEscape letter = some c) :
    scanString ('\\' :: letter :: rest) =
      (scanString rest).map fun found => (c :: found.1, found.2) := by
  have notUnicode : letter ≠ 'u' := by
    rintro rfl
    cases simple
  rw [scanString, simple]
  rintro _ _ _ _ _ rfl
  exact absurd rfl notUnicode

theorem closedText_cons (part : StringPart Char) (parts : List (StringPart Char))
    (rest : List Char) :
    closedText (part :: parts) ++ rest = part.text ++ (closedText parts ++ rest) := by
  simp [closedText]

/-- A string is read to its closing quote. -/
theorem scanString_closedText (parts : List (StringPart Char)) (rest text : List Char)
    (denotes : partsText parts = some text) :
    scanString (closedText parts ++ rest) = some (text, rest) := by
  match parts with
  | [] =>
    cases denotes
    rfl
  | .plain c free :: parts =>
    obtain ⟨tail, tailText, rfl⟩ := Option.map_eq_some_iff.mp denotes
    rw [closedText_cons]
    show scanString (c :: (closedText parts ++ rest)) = _
    rw [scanString_plain free, scanString_closedText parts rest tail tailText]
    rfl
  | .short letter named :: parts =>
    obtain ⟨c, simple, later⟩ := Option.bind_eq_some_iff.mp denotes
    obtain ⟨tail, tailText, same⟩ := Option.bind_eq_some_iff.mp later
    cases same
    rw [closedText_cons]
    show scanString ('\\' :: letter :: (closedText parts ++ rest)) = _
    rw [scanString_short _ simple, scanString_closedText parts rest tail tailText]
    rfl
  | .unicode a b c d hex :: parts =>
    rw [partsText.eq_def] at denotes
    obtain ⟨code, read, later⟩ := Option.bind_eq_some_iff.mp denotes
    rw [closedText_cons]
    show scanString ('\\' :: 'u' :: a :: b :: c :: d :: (closedText parts ++ rest)) = _
    rw [scanString, read]
    dsimp only
    split_ifs at later ⊢ with scalar low
    · obtain ⟨tail, tailText, rfl⟩ := Option.map_eq_some_iff.mp later
      rw [scanString_closedText parts rest tail tailText]
      rfl
    · -- a high surrogate: the next part has to be the low one
      cases parts with
      | nil => cases later
      | cons part parts =>
        cases part with
        | plain => cases later
        | short => cases later
        | unicode e f g h hex' =>
          obtain ⟨low, readLow, pair⟩ := Option.bind_eq_some_iff.mp later
          rw [closedText_cons, show (StringPart.unicode e f g h hex').text =
            ['\\', 'u', e, f, g, h] from rfl]
          simp only [List.cons_append, List.nil_append]
          rw [readLow]
          dsimp only
          split_ifs at pair ⊢ with isLow
          obtain ⟨tail, tailText, rfl⟩ := Option.map_eq_some_iff.mp pair
          rw [scanString_closedText parts rest tail tailText]
          rfl

/-! ## Numbers and words -/

variable {rest exponent : List Char} {space : Blanks Char} {value : Json}
  {found : List (List Char × Json) × List Char}

/-- A run of digits ends where no digit follows. -/
theorem span_digits {digits : List Char} (all : digits.all Grammar.isDigit = true)
    (stop : ∀ c ∈ rest.head?, isDigit c = false) :
    (digits ++ rest).takeWhile isDigit = digits ∧ (digits ++ rest).dropWhile isDigit = rest := by
  have inside : ∀ c ∈ digits, isDigit c = true := fun c member => List.all_eq_true.mp all c member
  have outside : rest.takeWhile isDigit = [] ∧ rest.dropWhile isDigit = rest := by
    cases rest with
    | nil => exact ⟨rfl, rfl⟩
    | cons c rest =>
      have other : ¬ isDigit c = true := by
        rw [stop c rfl]
        decide
      exact ⟨List.takeWhile_cons_of_neg other, List.dropWhile_cons_of_neg other⟩
  refine ⟨?_, ?_⟩
  · rw [List.takeWhile_append_of_pos inside, outside.1, List.append_nil]
  · rw [List.dropWhile_append_of_pos inside, outside.2]

/-- The fraction of `scanFraction`, and what follows it. -/
def scanPoint (text : List Char) : List Char × List Char :=
  match text with
  | '.' :: rest =>
    let digits := rest.takeWhile isDigit
    if digits.isEmpty then ([], text) else ('.' :: digits, rest.dropWhile isDigit)
  | _ => ([], text)

/-- The exponent of `scanFraction`. -/
def scanExponent (fraction text : List Char) : List Char × List Char :=
  match text with
  | e :: rest =>
    if e = 'e' ∨ e = 'E' then
      let sign := rest.takeWhile fun c => c == '-' || c == '+'
      let after := rest.drop sign.length
      let digits := after.takeWhile isDigit
      if digits.isEmpty ∨ 1 < sign.length then (fraction, text)
      else (fraction ++ e :: sign ++ digits, after.dropWhile isDigit)
    else (fraction, text)
  | [] => (fraction, text)

theorem scanFraction_eq (text : List Char) :
    scanFraction text = scanExponent (scanPoint text).1 (scanPoint text).2 := rfl

/-- A character that neither a digit nor anything else of a number is. -/
theorem other_of_isStop {c : Char} (stop : Grammar.isStop c = true) :
    isDigit c = false ∧ c ≠ '.' ∧ ¬ (c = 'e' ∨ c = 'E') ∧ (c == '-' || c == '+') = false := by
  refine ⟨?_, ?_, ?_, ?_⟩
  · show Grammar.isDigit c = false
    simp only [Grammar.isStop, isBlank, Grammar.isDigit, Bool.or_eq_true, beq_iff_eq,
      Bool.and_eq_false_iff, decide_eq_false_iff_not] at stop ⊢
    omega
  · rintro rfl
    cases stop
  · rintro (rfl | rfl) <;> cases stop
  · rw [Bool.or_eq_false_iff, beq_eq_false_iff_ne, beq_eq_false_iff_ne]
    refine ⟨?_, ?_⟩ <;> (rintro rfl; cases stop)

theorem scanPoint_fraction {fraction : List Char} (isFraction : isFraction fraction = true)
    (stop : ∀ c ∈ rest.head?, isDigit c = false ∧ c ≠ '.') :
    scanPoint (fraction ++ rest) = (fraction, rest) := by
  cases fraction with
  | nil =>
    cases rest with
    | nil => rfl
    | cons c rest =>
      have other := (stop c rfl).2
      rw [List.nil_append]
      unfold scanPoint
      split
      · next same => exact absurd (List.cons.inj same).1 other
      · rfl
  | cons point digits =>
    simp only [Grammar.isFraction, Bool.and_eq_true, beq_iff_eq, Bool.not_eq_true',
      List.isEmpty_eq_false_iff] at isFraction
    obtain ⟨⟨isPoint, some_⟩, all⟩ := isFraction
    obtain rfl : point = '.' := code_injective isPoint
    obtain ⟨run, behind⟩ := span_digits all fun c first => (stop c first).1
    rw [List.cons_append, scanPoint, run, behind]
    exact if_neg (by simpa using some_)

theorem scanExponent_exponent (fraction : List Char) (isExponent : isExponent exponent = true)
    (stops : Grammar.Stops rest) :
    scanExponent fraction (exponent ++ rest) = (fraction ++ exponent, rest) := by
  have stop : ∀ c ∈ rest.head?, isDigit c = false := fun c first =>
    (other_of_isStop (stops c first)).1
  match exponent with
  | [] =>
    rw [List.append_nil, List.nil_append]
    cases rest with
    | nil => rfl
    | cons c rest => exact if_neg (other_of_isStop (stops c rfl)).2.2.1
  | [e] => simp [Grammar.isExponent] at isExponent
  | e :: sign :: digits =>
    simp only [Grammar.isExponent, Bool.and_eq_true, Bool.or_eq_true, beq_iff_eq] at isExponent
    obtain ⟨marker, tail⟩ := isExponent
    have letter : e = 'e' ∨ e = 'E' := marker.imp (fun same => code_injective same)
      (fun same => code_injective same)
    rw [List.cons_append]
    unfold scanExponent
    dsimp only
    rw [if_pos letter]
    split_ifs at tail with signed
    · simp only [Bool.and_eq_true, Bool.not_eq_true', List.isEmpty_eq_false_iff] at tail
      obtain ⟨run, behind⟩ := span_digits tail.2 stop
      have isSign : (sign == '-' || sign == '+') = true := by
        rcases signed with plus | minus
        · rw [show sign = '+' from code_injective plus]
          rfl
        · rw [show sign = '-' from code_injective minus]
          rfl
      have one : ((sign :: digits) ++ rest).takeWhile (fun c => c == '-' || c == '+') = [sign] := by
        obtain ⟨first, more, rfl⟩ := List.exists_cons_of_ne_nil tail.1
        have digit : isDigit first = true := List.all_eq_true.mp tail.2 first List.mem_cons_self
        rw [List.cons_append,
          List.takeWhile_cons_of_pos (p := fun c => c == '-' || c == '+') isSign,
          List.cons_append, List.takeWhile_cons_of_neg]
        rw [Bool.or_eq_true, beq_iff_eq, beq_iff_eq]
        rintro (rfl | rfl) <;> cases digit
      rw [one]
      simp only [List.length_singleton, List.cons_append, List.drop_succ_cons, List.drop_zero,
        run, behind]
      rw [if_neg (by simp [tail.1])]
      simp
    · obtain ⟨run, behind⟩ := span_digits tail stop
      have none_ : ((sign :: digits) ++ rest).takeWhile (fun c => c == '-' || c == '+') = [] := by
        have digit : isDigit sign = true := List.all_eq_true.mp tail sign List.mem_cons_self
        rw [List.cons_append, List.takeWhile_cons_of_neg]
        rw [Bool.or_eq_true, beq_iff_eq, beq_iff_eq]
        rintro (rfl | rfl) <;> cases digit
      rw [none_]
      simp only [List.length_nil, List.drop_zero, run, behind]
      rw [if_neg (by simp)]
      simp

/-- The first character behind a fraction: the marker of an exponent or a stop. -/
theorem head_exponent (isExponent : isExponent exponent = true) (stops : Grammar.Stops rest) :
    ∀ c ∈ (exponent ++ rest).head?, isDigit c = false ∧ c ≠ '.' := by
  intro c first
  cases exponent with
  | nil => exact ⟨(other_of_isStop (stops c first)).1, (other_of_isStop (stops c first)).2.1⟩
  | cons e tail =>
    cases first
    simp only [Grammar.isExponent, Bool.and_eq_true, Bool.or_eq_true, beq_iff_eq] at isExponent
    rcases isExponent.1 with lower | upper
    · rw [show c = 'e' from code_injective lower]
      decide
    · rw [show c = 'E' from code_injective upper]
      decide

/-- A number is read to its end. -/
theorem scanUnsigned_number {n : Number Char} (stops : Grammar.Stops rest) :
    scanUnsigned n.negative (n.whole ++ (n.fraction ++ (n.exponent ++ rest))) =
      some (numberValue n, rest) := by
  obtain ⟨negative, whole, fraction, exponent, isWhole, isFraction, isExponent⟩ := n
  have behind : ∀ c ∈ (fraction ++ (exponent ++ rest)).head?, isDigit c = false := by
    intro c first
    cases fraction with
    | nil => exact (head_exponent isExponent stops c first).1
    | cons point digits =>
      cases first
      simp only [Grammar.isFraction, Bool.and_eq_true, beq_iff_eq] at isFraction
      rw [show c = '.' from code_injective isFraction.1.1]
      decide
  cases whole with
  | nil => cases isWhole
  | cons first more =>
    simp only [Grammar.isWhole, Bool.and_eq_true, Bool.or_eq_true, bne_iff_ne, ne_eq] at isWhole
    have run := (span_digits isWhole.1 behind).1
    have digits : (if first = '0' then ['0'] else first :: more) = first :: more := by
      split_ifs with zero
      · subst zero
        rcases isWhole.2 with other | alone
        · exact absurd rfl other
        · rw [List.isEmpty_iff.mp alone]
      · rfl
    unfold scanUnsigned
    rw [run]
    dsimp only
    rw [digits, List.drop_left, scanFraction_eq,
      scanPoint_fraction isFraction (head_exponent isExponent stops),
      scanExponent_exponent fraction isExponent stops]
    unfold numberValue Number.text
    dsimp only
    split_ifs
    · rfl
    · rfl
    · rw [List.append_assoc]
      rfl
    · rw [List.append_assoc]

/-- A number starts with a digit, or with a sign and a digit. -/
theorem number_head (n : Number Char) :
    ∃ first more tail, n.whole = first :: more ∧ isDigit first = true ∧
      n.text = (if n.negative then ['-'] else []) ++ first :: tail := by
  obtain ⟨negative, whole, fraction, exponent, isWhole, isFraction, isExponent⟩ := n
  cases whole with
  | nil => cases isWhole
  | cons first more =>
    simp only [Grammar.isWhole, List.all_cons, Bool.and_eq_true] at isWhole
    exact ⟨first, more, _, rfl, isWhole.1.1, rfl⟩

/-- A character that no digit is. -/
theorem ne_of_isDigit {c d : Char} (digit : isDigit c = true) (other : isDigit d = false) :
    d ≠ c := by
  rintro rfl
  rw [digit] at other
  cases other

theorem scanNumber_number (n : Number Char) (stops : Grammar.Stops rest) :
    scanNumber (n.text ++ rest) = some (numberValue n, rest) := by
  have unsigned := scanUnsigned_number (n := n) stops
  have assoc : n.text ++ rest = (if n.negative then ['-'] else []) ++
      (n.whole ++ (n.fraction ++ (n.exponent ++ rest))) := by
    simp only [Number.text, List.append_assoc]
    rfl
  rw [assoc]
  cases sign : n.negative with
  | true =>
    rw [sign] at unsigned
    exact unsigned
  | false =>
    rw [sign] at unsigned
    rw [if_neg (by decide), List.nil_append]
    obtain ⟨first, more, -, digits, digit, -⟩ := number_head n
    rw [digits] at unsigned ⊢
    rw [List.cons_append, scanNumber]
    · exact unsigned
    · rintro _ ⟨⟩
      exact absurd digit (by decide)

/-- No literal begins like a number. -/
theorem scanPlain_number (n : Number Char) (stops : Grammar.Stops rest) :
    scanPlain (n.text ++ rest) = some (numberValue n, rest) := by
  have noLiteral : literals.find? (fun literal => literal.1.isPrefixOf (n.text ++ rest)) = none := by
    obtain ⟨first, more, tail, -, digit, text⟩ := number_head n
    have other : ∀ c, isDigit c = false → c ≠ first := fun c => ne_of_isDigit digit
    rw [List.find?_eq_none, text]
    cases n.negative
    · simp [literals, other 'n' rfl, other 't' rfl, other 'f' rfl, other 'N' rfl, other 'I' rfl,
        other '-' rfl]
    · simp [literals, other 'I' rfl]
  unfold scanPlain
  rw [noLiteral]
  exact scanNumber_number n stops

theorem scanPlain_word (w : Word) (rest : List Char) :
    scanPlain (w.text ++ rest) = some (wordValue w, rest) := by
  cases w <;> rfl

/-! ## Values -/

/-- What starts neither a string nor an array nor an object is a literal or a number. -/
theorem scanValue_plain {text rest : List Char} {value : Json} {fuel : Nat}
    (first : ∀ c ∈ text.head?, c ≠ '"' ∧ c ≠ '[' ∧ c ≠ '{') (some_ : text ≠ [])
    (scanned : scanPlain (text ++ rest) = some (value, rest)) :
    scanValue (fuel + 1) (text ++ rest) = some (value, rest) := by
  obtain ⟨c, tail, rfl⟩ := List.exists_cons_of_ne_nil some_
  obtain ⟨string, array, object⟩ := first c rfl
  rw [List.cons_append, scanValue_scanPlain fuel _ string array object]
  exact scanned

/-- The loop of an array, from its first item on. -/
def scanArrayFrom (fuel : Nat) (text : List Char) : Option (List Json × List Char) := do
  let (item, rest) ← scanValue fuel (skipSpaces text)
  let (items, rest) ← scanItems fuel rest
  some (item :: items, rest)

/-- The loop of an object, from its first member on. -/
def scanObjectFrom (fuel : Nat) (text : List Char) :
    Option (List (List Char × Json) × List Char) := do
  let (member, rest) ← scanMember fuel (skipSpaces text)
  let (members, rest) ← scanMembers fuel rest
  some (member :: members, rest)

theorem scanItems_blanks {fuel : Nat} :
    scanItems (fuel + 1) (space.text ++ ',' :: rest) = scanArrayFrom fuel rest := by
  rw [scanItems, skipSpaces_blanks, skipSpaces_cons (by decide)]
  rfl

theorem scanItems_end {fuel : Nat} :
    scanItems (fuel + 1) (space.text ++ ']' :: rest) = some ([], rest) := by
  rw [scanItems, skipSpaces_blanks, skipSpaces_cons (by decide)]
  rfl

theorem scanMembers_blanks {fuel : Nat} :
    scanMembers (fuel + 1) (space.text ++ ',' :: rest) = scanObjectFrom fuel rest := by
  rw [scanMembers, skipSpaces_blanks, skipSpaces_cons (by decide)]
  rfl

theorem scanMembers_end {fuel : Nat} :
    scanMembers (fuel + 1) (space.text ++ '}' :: rest) = some ([], rest) := by
  rw [scanMembers, skipSpaces_blanks, skipSpaces_cons (by decide)]
  rfl

/-- A key up to its value. -/
theorem scanMember_key {key : Key Char} {item : Grammar.Tree Char} {name : List Char} {fuel : Nat}
    (named : partsText key.name = some name)
    (scanned : scanValue fuel (item.text ++ rest) = some (value, rest)) :
    scanMember (fuel + 1) (skipSpaces (key.text ++ ':' :: (space.text ++ (item.text ++ rest)))) =
      some ((name, value), rest) := by
  have text : skipSpaces (key.text ++ ':' :: (space.text ++ (item.text ++ rest))) =
      '"' :: (closedText key.name ++
        (key.after.text ++ ':' :: (space.text ++ (item.text ++ rest)))) := by
    rw [Key.text, List.append_assoc, skipSpaces_blanks, List.append_assoc, stringText,
      List.cons_append]
    exact skipSpaces_cons (by decide)
  rw [text, scanMember, scanString_closedText _ _ _ named]
  have colon : isBlank ':' = false := by decide
  simp only [Option.bind_eq_bind, Option.bind_some, skipSpaces_blanks, skipSpaces_cons colon,
    skipSpaces_tree, scanned]

theorem scanValue_openArray {fuel : Nat} {text : List Char}
    (opens : ∀ c ∈ (skipSpaces text).head?, c ≠ ']') :
    scanValue (fuel + 1) ('[' :: text) = (scanArrayFrom fuel text).map fun found =>
      (.arr found.1, found.2) := by
  have other : ∀ rest, skipSpaces text ≠ ']' :: rest := by
    intro rest same
    rw [same] at opens
    exact opens ']' rfl rfl
  rw [scanValue]
  split
  · next rest same => exact absurd same (other rest)
  · unfold scanArrayFrom
    cases scanValue fuel (skipSpaces text) with
    | none => rfl
    | some found =>
      simp only [Option.bind_eq_bind, Option.bind_some]
      cases scanItems fuel found.2 <;> rfl

theorem scanValue_openObject {fuel : Nat} {text : List Char}
    (opens : ∀ c ∈ (skipSpaces text).head?, c ≠ '}') :
    scanValue (fuel + 1) ('{' :: text) = (scanObjectFrom fuel text).map fun found =>
      (.obj found.1, found.2) := by
  have other : ∀ rest, skipSpaces text ≠ '}' :: rest := by
    intro rest same
    rw [same] at opens
    exact opens '}' rfl rfl
  rw [scanValue]
  split
  · next rest same => exact absurd same (other rest)
  · unfold scanObjectFrom
    cases scanMember fuel (skipSpaces text) with
    | none => rfl
    | some found =>
      simp only [Option.bind_eq_bind, Option.bind_some]
      cases scanMembers fuel found.2 <;> rfl

theorem opens_items (items : Items Char) (rest : List Char) :
    ∀ c ∈ (skipSpaces (items.text ++ rest)).head?, c ≠ ']' := by
  have opens : ∀ (space : Blanks Char) (item : Grammar.Tree Char) (tail : List Char),
      ∀ c ∈ (skipSpaces (space.text ++ (item.text ++ tail))).head?, c ≠ ']' := by
    intro space item tail c first
    rw [skipSpaces_blanks, skipSpaces_tree] at first
    obtain ⟨d, more, split, other⟩ := item.exists_head
    rw [split] at first
    cases first
    rintro rfl
    cases other
  cases items <;> simpa [Items.text] using opens _ _ _

theorem opens_members (members : Grammar.Members Char) (rest : List Char) :
    ∀ c ∈ (skipSpaces (members.text ++ rest)).head?, c ≠ '}' := by
  have opens : ∀ (key : Key Char) (tail : List Char),
      ∀ c ∈ (skipSpaces (key.text ++ tail)).head?, c ≠ '}' := by
    intro key tail c first
    rw [Key.text, List.append_assoc, skipSpaces_blanks, List.append_assoc, stringText,
      List.cons_append, skipSpaces_cons (by decide)] at first
    cases first
    decide
  cases members <;> simpa [Grammar.Members.text] using opens _ _

mutual

/-- **Every text of the grammar that denotes a value is read to it, up to where it ends.** -/
theorem scanValue_text (tree : Grammar.Tree Char) (value : Json) (fuel : Nat) (rest : List Char)
    (denotes : treeValue tree = some value) (enough : tree.text.length ≤ fuel)
    (stops : Grammar.Stops rest) : scanValue fuel (tree.text ++ rest) = some (value, rest) := by
  obtain ⟨fuel, rfl⟩ : ∃ n, fuel = n + 1 := by
    obtain ⟨c, tail, split, -⟩ := tree.exists_head
    rw [split, List.length_cons] at enough
    exact ⟨fuel - 1, by omega⟩
  match tree with
  | .word w =>
    cases denotes
    apply scanValue_plain
    · cases w <;>
        · rintro x ⟨⟩
          decide
    · cases w <;> decide
    · exact scanPlain_word w rest
  | .number n =>
    cases denotes
    obtain ⟨first, more, tail, -, digit, text⟩ := number_head n
    have other : ∀ c, isDigit c = false → first ≠ c := fun c no => (ne_of_isDigit digit no).symm
    apply scanValue_plain
    · intro c head
      rw [Grammar.Tree.text, text] at head
      cases sign : n.negative with
      | false =>
        rw [sign] at head
        cases head
        exact ⟨other '"' rfl, other '[' rfl, other '{' rfl⟩
      | true =>
        rw [sign] at head
        cases head
        decide
    · rw [Grammar.Tree.text, text]
      simp
    · exact scanPlain_number n stops
  | .string parts =>
    obtain ⟨text, named, rfl⟩ := Option.map_eq_some_iff.mp denotes
    show scanValue (fuel + 1) ('"' :: (closedText parts ++ rest)) = _
    rw [scanValue, scanString_closedText parts rest text named]
    rfl
  | .emptyArray space =>
    cases denotes
    show scanValue (fuel + 1) ('[' :: ((space.text ++ [']']) ++ rest)) = _
    rw [scanValue, List.append_assoc, skipSpaces_blanks, List.singleton_append,
      skipSpaces_cons (by decide)]
    rfl
  | .emptyObject space =>
    cases denotes
    show scanValue (fuel + 1) ('{' :: ((space.text ++ ['}']) ++ rest)) = _
    rw [scanValue, List.append_assoc, skipSpaces_blanks, List.singleton_append,
      skipSpaces_cons (by decide)]
    rfl
  | .array items =>
    obtain ⟨values, listed, rfl⟩ := Option.map_eq_some_iff.mp denotes
    show scanValue (fuel + 1) ('[' :: (items.text ++ rest)) = _
    rw [Grammar.Tree.text, List.length_cons] at enough
    rw [scanValue_openArray (opens_items items rest),
      scanArrayFrom_text items values fuel rest listed (by omega)]
    rfl
  | .object members =>
    obtain ⟨values, listed, rfl⟩ := Option.map_eq_some_iff.mp denotes
    show scanValue (fuel + 1) ('{' :: (members.text ++ rest)) = _
    rw [Grammar.Tree.text, List.length_cons] at enough
    rw [scanValue_openObject (opens_members members rest),
      scanObjectFrom_text members values fuel rest listed (by omega)]
    rfl

theorem scanArrayFrom_text (items : Items Char) (values : List Json) (fuel : Nat)
    (rest : List Char) (denotes : itemsValue items = some values)
    (enough : items.text.length ≤ fuel) :
    scanArrayFrom fuel (items.text ++ rest) = some (values, rest) := by
  match items with
  | .last before item after =>
    obtain ⟨value, valued, rfl⟩ := Option.map_eq_some_iff.mp denotes
    obtain ⟨fuel, rfl⟩ : ∃ n, fuel = n + 1 := ⟨fuel - 1, by simp [Items.text] at enough; omega⟩
    have scanned := scanValue_text item value (fuel + 1) (after.text ++ ']' :: rest) valued
      (by simp [Items.text] at enough; omega) (stops_blanks after (by simp; rfl))
    have text : (Items.last before item after).text ++ rest =
        before.text ++ (item.text ++ (after.text ++ ']' :: rest)) := by
      simp [Items.text]
      rfl
    rw [text]
    unfold scanArrayFrom
    rw [skipSpaces_blanks, skipSpaces_tree, scanned]
    simp only [Option.bind_eq_bind, Option.bind_some, scanItems_end]
  | .more before item after others =>
    obtain ⟨value, valued, later⟩ := Option.bind_eq_some_iff.mp denotes
    obtain ⟨values, listed, same⟩ := Option.bind_eq_some_iff.mp later
    cases same
    obtain ⟨fuel, rfl⟩ : ∃ n, fuel = n + 1 := ⟨fuel - 1, by simp [Items.text] at enough; omega⟩
    have scanned := scanValue_text item value (fuel + 1)
      (after.text ++ ',' :: (others.text ++ rest)) valued
      (by simp [Items.text] at enough; omega) (stops_blanks after (by simp; rfl))
    have tail := scanArrayFrom_text others values fuel rest listed
      (by simp [Items.text] at enough; omega)
    have text : (Items.more before item after others).text ++ rest =
        before.text ++ (item.text ++ (after.text ++ ',' :: (others.text ++ rest))) := by
      simp [Items.text]
      rfl
    rw [text]
    unfold scanArrayFrom
    rw [skipSpaces_blanks, skipSpaces_tree, scanned]
    simp only [Option.bind_eq_bind, Option.bind_some, scanItems_blanks, tail]

theorem scanObjectFrom_text (members : Grammar.Members Char) (values : List (List Char × Json))
    (fuel : Nat) (rest : List Char) (denotes : membersValue members = some values)
    (enough : members.text.length ≤ fuel) :
    scanObjectFrom fuel (members.text ++ rest) = some (values, rest) := by
  match members with
  | .last key before item after =>
    obtain ⟨name, named, later⟩ := Option.bind_eq_some_iff.mp denotes
    obtain ⟨value, valued, same⟩ := Option.bind_eq_some_iff.mp later
    cases same
    obtain ⟨fuel, rfl⟩ : ∃ n, fuel = n + 1 :=
      ⟨fuel - 1, by simp [Grammar.Members.text] at enough; omega⟩
    have scanned := scanValue_text item value fuel (after.text ++ '}' :: rest) valued
      (by simp [Grammar.Members.text] at enough; omega) (stops_blanks after (by simp; rfl))
    have text : (Grammar.Members.last key before item after).text ++ rest =
        key.text ++ ':' :: (before.text ++ (item.text ++ (after.text ++ '}' :: rest))) := by
      simp [Grammar.Members.text]
      exact ⟨rfl, rfl⟩
    rw [text]
    unfold scanObjectFrom
    rw [scanMember_key named scanned]
    simp only [Option.bind_eq_bind, Option.bind_some, scanMembers_end]
  | .more key before item after others =>
    obtain ⟨name, named, later⟩ := Option.bind_eq_some_iff.mp denotes
    obtain ⟨value, valued, later⟩ := Option.bind_eq_some_iff.mp later
    obtain ⟨values, listed, same⟩ := Option.bind_eq_some_iff.mp later
    cases same
    obtain ⟨fuel, rfl⟩ : ∃ n, fuel = n + 1 :=
      ⟨fuel - 1, by simp [Grammar.Members.text] at enough; omega⟩
    have scanned := scanValue_text item value fuel
      (after.text ++ ',' :: (others.text ++ rest)) valued
      (by simp [Grammar.Members.text] at enough; omega) (stops_blanks after (by simp; rfl))
    have tail := scanObjectFrom_text others values fuel rest listed
      (by simp [Grammar.Members.text] at enough; omega)
    have text : (Grammar.Members.more key before item after others).text ++ rest =
        key.text ++ ':' :: (before.text ++ (item.text ++
          (after.text ++ ',' :: (others.text ++ rest)))) := by
      simp [Grammar.Members.text]
      exact ⟨rfl, rfl⟩
    rw [text]
    unfold scanObjectFrom
    rw [scanMember_key named scanned]
    simp only [Option.bind_eq_bind, Option.bind_some, scanMembers_blanks, tail]

end

/-- A whole text, with blanks around the value, loads. -/
theorem loads_text (before after : Blanks Char) (tree : Grammar.Tree Char) (value : Json)
    (denotes : treeValue tree = some value) :
    loads (before.text ++ (tree.text ++ after.text)) = some value := by
  have stops : Grammar.Stops (after.text ++ ([] : List Char)) := stops_blanks _ stops_nil
  rw [List.append_nil] at stops
  have blank : skipSpaces after.text = [] := by
    rw [← List.append_nil after.text, skipSpaces_blanks]
    rfl
  unfold loads
  rw [skipSpaces_blanks, skipSpaces_tree, scanValue_text tree value _ after.text denotes
    (by simp only [List.length_append]; omega) stops]
  dsimp only
  rw [blank]
  rfl

/-! ## More text behind -/

theorem map_extend {α β : Type} {first second : Option (α × List Char)} {f : α → β}
    {more : List Char} {found : β}
    (extends_ : ∀ value left, first = some (value, left) → second = some (value, left ++ more))
    (mapped : first.map (fun x => (f x.1, x.2)) = some (found, rest)) :
    second.map (fun x => (f x.1, x.2)) = some (found, rest ++ more) := by
  obtain ⟨⟨value, left⟩, same, shown⟩ := Option.map_eq_some_iff.mp mapped
  cases shown
  rw [extends_ value left same]
  rfl

/-- A string that has been closed stays as it was read. -/
theorem scanString_extend (text more found rest : List Char)
    (scanned : scanString text = some (found, rest)) :
    scanString (text ++ more) = some (found, rest ++ more) := by
  induction text using scanString.induct generalizing found rest with
  | case1 => cases scanned
  | case2 tail =>
    cases scanned
    rfl
  | case3 a b c d tail bad =>
    rw [scanString, bad] at scanned
    cases scanned
  | case4 a b c d tail code read scalar ih =>
    simp only [List.cons_append]
    rw [scanString, read] at scanned ⊢
    simp only [if_pos scalar] at scanned ⊢
    exact map_extend ih scanned
  | case5 a b c d tail code read other low =>
    rw [scanString, read] at scanned
    simp only [if_neg other, if_pos low] at scanned
    cases scanned
  | case6 a b c d code read other high e f g h tail bad =>
    rw [scanString, read] at scanned
    simp only [if_neg other, if_neg high, bad] at scanned
    cases scanned
  | case7 a b c d code read other high e f g h tail low readLow isLow ih =>
    simp only [List.cons_append]
    rw [scanString, read] at scanned ⊢
    simp only [if_neg other, if_neg high, readLow, if_pos isLow] at scanned ⊢
    exact map_extend ih scanned
  | case8 a b c d code read other high e f g h tail low readLow notLow =>
    rw [scanString, read] at scanned
    simp only [if_neg other, if_neg high, readLow, if_neg notLow] at scanned
    cases scanned
  | case9 a b c d tail code read other high alone =>
    rw [scanString, read] at scanned
    simp only [if_neg other, if_neg high] at scanned
    cases scanned
  | case10 c tail short bad =>
    rw [scanString, bad] at scanned
    · cases scanned
    · exact short
  | case11 c tail short decoded simple ih =>
    simp only [List.cons_append]
    rw [scanString_short _ simple] at scanned ⊢
    exact map_extend ih scanned
  | case12 c tail quote unicode escape control =>
    rw [scanString, if_pos control] at scanned
    · cases scanned
    · exact quote
    · exact unicode
    · exact escape
  | case13 c tail quote unicode escape free ih =>
    by_cases slash : c = '\\'
    · -- a backslash at the very end
      subst slash
      cases tail with
      | nil => cases scanned
      | cons d tail => exact absurd rfl (escape d tail rfl)
    · have isFree : isFree c = true := by
        simp only [Grammar.isFree, Bool.and_eq_true, decide_eq_true_eq, bne_iff_ne, ne_eq]
        exact ⟨⟨by change ¬ code c < 32 at free; omega, fun same => quote (code_injective same)⟩,
          fun same => slash (code_injective same)⟩
      rw [List.cons_append, scanString_plain isFree]
      rw [scanString_plain isFree] at scanned
      exact map_extend ih scanned

/-- A run that a character of the text ends is not changed by more text. -/
theorem span_extend {p : Char → Bool} {c : Char} {text : List Char} (more : List Char)
    (inside : c ∈ text) (ends : p c = false) :
    (text ++ more).takeWhile p = text.takeWhile p ∧
      (text ++ more).dropWhile p = text.dropWhile p ++ more ∧ c ∈ text.dropWhile p := by
  induction text with
  | nil => cases inside
  | cons d text ih =>
    cases kept : p d with
    | true =>
      have later : c ∈ text := by
        rcases List.mem_cons.mp inside with rfl | later
        · rw [ends] at kept
          cases kept
        · exact later
      obtain ⟨run, behind, left⟩ := ih later
      simp only [List.cons_append, List.takeWhile_cons, List.dropWhile_cons, kept, if_true]
      exact ⟨by rw [run], behind, left⟩
    | false => simpa [kept] using inside

theorem drop_takeWhile (p : Char → Bool) (text : List Char) :
    text.drop (text.takeWhile p).length = text.dropWhile p := by
  conv_lhs => rw [← List.takeWhile_append_dropWhile (p := p) (l := text)]
  rw [List.drop_left' (by rw [List.takeWhile_append_dropWhile])]

section Stopped

variable {c : Char} {text : List Char} (more : List Char) (stop : Grammar.isStop c = true)
include stop

theorem scanPoint_extend (inside : c ∈ text) :
    scanPoint (text ++ more) = ((scanPoint text).1, (scanPoint text).2 ++ more) ∧
      c ∈ (scanPoint text).2 := by
  obtain ⟨notDigit, notPoint, -, -⟩ := other_of_isStop stop
  match text with
  | [] => cases inside
  | d :: rest =>
    by_cases point : d = '.'
    · subst point
      have later : c ∈ rest := (List.mem_cons.mp inside).resolve_left notPoint
      obtain ⟨run, behind, left⟩ := span_extend more later notDigit
      simp only [List.cons_append, scanPoint, run, behind]
      split_ifs
      · exact ⟨rfl, inside⟩
      · exact ⟨rfl, left⟩
    · have same : ∀ tail, scanPoint (d :: tail) = ([], d :: tail) := by
        intro tail
        unfold scanPoint
        split
        · next equal => exact absurd (List.cons.inj equal).1 point
        · rfl
      rw [List.cons_append, same, same]
      exact ⟨rfl, inside⟩

theorem scanExponent_extend (fraction : List Char) (inside : c ∈ text) :
    scanExponent fraction (text ++ more) =
      ((scanExponent fraction text).1, (scanExponent fraction text).2 ++ more) := by
  obtain ⟨notDigit, -, notMarker, notSign⟩ := other_of_isStop stop
  match text with
  | [] => cases inside
  | e :: rest =>
    by_cases marker : e = 'e' ∨ e = 'E'
    · have later : c ∈ rest := by
        rcases List.mem_cons.mp inside with rfl | later
        · exact absurd marker notMarker
        · exact later
      obtain ⟨signs, after, left⟩ :=
        span_extend (p := fun c => c == '-' || c == '+') more later notSign
      obtain ⟨run, behind, -⟩ := span_extend more left notDigit
      have digits : (rest ++ more).drop
          (rest.takeWhile fun c => c == '-' || c == '+').length =
            (rest.dropWhile fun c => c == '-' || c == '+') ++ more := by
        rw [← signs, drop_takeWhile, after]
      simp only [List.cons_append, scanExponent, if_pos marker, signs, digits, drop_takeWhile,
        run, behind]
      split_ifs <;> rfl
    · simp only [List.cons_append, scanExponent, if_neg marker]

theorem scanUnsigned_extend (negative : Bool) (inside : c ∈ text) :
    scanUnsigned negative (text ++ more) =
      (scanUnsigned negative text).map fun found => (found.1, found.2 ++ more) := by
  obtain ⟨notDigit, -, -, -⟩ := other_of_isStop stop
  obtain ⟨run, behind, left⟩ := span_extend more inside notDigit
  unfold scanUnsigned
  rw [run]
  cases digits : text.takeWhile isDigit with
  | nil => rfl
  | cons first others =>
    dsimp only
    have whole : ∃ n, text.drop (if first = '0' then ['0'] else first :: others).length =
        text.drop n ∧ n ≤ (text.takeWhile isDigit).length ∧
        n = (if first = '0' then ['0'] else first :: others).length := by
      refine ⟨_, rfl, ?_, rfl⟩
      rw [digits]
      split_ifs <;> simp
    obtain ⟨n, -, short, length⟩ := whole
    rw [← length]
    have tail : c ∈ text.drop n := by
      have := drop_takeWhile isDigit text
      rw [← this] at left
      exact List.mem_of_mem_drop (i := (text.takeWhile isDigit).length - n) (by
        rw [List.drop_drop, Nat.add_sub_cancel' short]
        exact left)
    have split : (text ++ more).drop n = text.drop n ++ more := by
      apply List.drop_append_of_le_length
      exact le_trans short (List.takeWhile_prefix isDigit).length_le
    obtain ⟨point, rest⟩ := scanPoint_extend more stop tail
    rw [split, scanFraction_eq, scanFraction_eq, point, scanExponent_extend more stop _ rest]
    dsimp only
    split_ifs <;> rfl

theorem scanNumber_extend (inside : c ∈ text) :
    scanNumber (text ++ more) =
      (scanNumber text).map fun found => (found.1, found.2 ++ more) := by
  match text with
  | [] => cases inside
  | d :: rest =>
    by_cases sign : d = '-'
    · subst sign
      have later : c ∈ rest := by
        rcases List.mem_cons.mp inside with rfl | later
        · cases stop
        · exact later
      exact scanUnsigned_extend more stop true later
    · have unsigned : ∀ tail, scanNumber (d :: tail) = scanUnsigned false (d :: tail) := by
        intro tail
        unfold scanNumber
        split
        · next equal => exact absurd (List.cons.inj equal).1 sign
        · rfl
      rw [List.cons_append, unsigned, unsigned, ← List.cons_append]
      exact scanUnsigned_extend more stop false inside

omit stop in
theorem isPrefixOf_extend (word : List Char) (inside : c ∈ text) (other : c ∉ word) :
    word.isPrefixOf (text ++ more) = word.isPrefixOf text := by
  induction word generalizing text with
  | nil => simp
  | cons d word ih =>
    cases text with
    | nil => cases inside
    | cons e text =>
      rw [List.cons_append, List.isPrefixOf_cons_cons, List.isPrefixOf_cons_cons]
      by_cases same : d = e
      · have later : c ∈ text := by
          rcases List.mem_cons.mp inside with rfl | later
          · exact absurd (same ▸ List.mem_cons_self) other
          · exact later
        rw [ih later fun member => other (List.mem_cons_of_mem _ member)]
      · rw [beq_false_of_ne same, Bool.false_and, Bool.false_and]

/-- A literal or a number before a stop stays as it was read. -/
theorem scanPlain_extend (inside : c ∈ text) :
    scanPlain (text ++ more) = (scanPlain text).map fun found => (found.1, found.2 ++ more) := by
  have words : ∀ literal ∈ literals, c ∉ literal.1 := by
    have visible : ∀ literal ∈ literals, literal.1.all (fun d => !Grammar.isStop d) = true := by decide
    intro literal listed member
    have quiet := List.all_eq_true.mp (visible literal listed) c member
    rw [Bool.not_eq_true'] at quiet
    rw [quiet] at stop
    cases stop
  have same : literals.find? (fun literal => literal.1.isPrefixOf (text ++ more)) =
      literals.find? (fun literal => literal.1.isPrefixOf text) := by
    apply List.find?_congr
    intro literal listed
    exact isPrefixOf_extend more literal.1 inside (words literal listed)
  unfold scanPlain
  rw [same]
  cases found : literals.find? (fun literal => literal.1.isPrefixOf text) with
  | none => exact scanNumber_extend more stop inside
  | some literal =>
    have begins := List.find?_some found
    have short : literal.1.length ≤ text.length :=
      (List.isPrefixOf_iff_prefix.mp begins).length_le
    simp [List.drop_append_of_le_length short]

end Stopped

/-- A text whose value is told by its first character: it closes itself. -/
def Closes (text : List Char) : Prop := ∀ c ∈ text.head?, c = '"' ∨ c = '[' ∨ c = '{'

/-- A symbol that ends a value stands in the text. -/
def HasStop (text : List Char) : Prop := ∃ c ∈ text, Grammar.isStop c = true

theorem skipSpaces_extend {text : List Char} (more : List Char) (some_ : skipSpaces text ≠ []) :
    skipSpaces (text ++ more) = skipSpaces text ++ more := by
  unfold skipSpaces at some_ ⊢
  rw [List.dropWhile_append, if_neg (by simpa using some_)]

/-- A scanner keeps what it has read of a text when more text follows and it may go deeper. -/
def Keeps {α : Type} (scan : Nat → List Char → Option (α × List Char)) (fuel : Nat)
    (stopped : List Char → Prop) : Prop :=
  ∀ text more found rest larger, scan fuel text = some (found, rest) → stopped rest →
    fuel ≤ larger → scan larger (text ++ more) = some (found, rest ++ more)

theorem hasStop_of_scanItems {fuel : Nat} {text : List Char} {found : List Json × List Char}
    (scanned : scanItems fuel text = some found) : HasStop text := by
  cases fuel with
  | zero => cases scanned
  | succ fuel =>
    rw [scanItems] at scanned
    split at scanned
    · next rest same => exact ⟨']', (List.dropWhile_sublist _).subset (same ▸ List.mem_cons_self), rfl⟩
    · next rest same => exact ⟨',', (List.dropWhile_sublist _).subset (same ▸ List.mem_cons_self), rfl⟩
    · cases scanned

theorem hasStop_of_scanMembers {fuel : Nat} {text : List Char}
    (scanned : scanMembers fuel text = some found) : HasStop text := by
  cases fuel with
  | zero => cases scanned
  | succ fuel =>
    rw [scanMembers] at scanned
    split at scanned
    · next rest same => exact ⟨'}', (List.dropWhile_sublist _).subset (same ▸ List.mem_cons_self), rfl⟩
    · next rest same => exact ⟨',', (List.dropWhile_sublist _).subset (same ▸ List.mem_cons_self), rfl⟩
    · cases scanned

theorem scanPoint_subset (text : List Char) : (scanPoint text).2 ⊆ text := by
  unfold scanPoint
  split
  · dsimp only
    split_ifs
    · exact List.Subset.refl _
    · exact List.subset_cons_of_subset _ (List.dropWhile_sublist _).subset
  · exact List.Subset.refl _

theorem scanExponent_subset (fraction text : List Char) :
    (scanExponent fraction text).2 ⊆ text := by
  unfold scanExponent
  split
  · dsimp only
    split_ifs
    · exact List.Subset.refl _
    · exact List.subset_cons_of_subset _
        ((List.dropWhile_sublist _).trans (List.drop_sublist _ _)).subset
    · exact List.Subset.refl _
  · exact List.nil_subset _

theorem scanUnsigned_subset {negative : Bool} {text : List Char}
    (scanned : scanUnsigned negative text = some (value, rest)) : rest ⊆ text := by
  have inside : ∀ n, (scanFraction (text.drop n)).2 ⊆ text := by
    intro n
    rw [scanFraction_eq]
    intro c member
    exact List.mem_of_mem_drop (scanPoint_subset _ (scanExponent_subset _ _ member))
  unfold scanUnsigned at scanned
  cases digits : text.takeWhile isDigit with
  | nil =>
    rw [digits] at scanned
    cases scanned
  | cons first others =>
    rw [digits] at scanned
    dsimp only at scanned
    split_ifs at scanned <;> (cases scanned; exact inside _)

/-- What is left of a text is part of it. -/
theorem scanPlain_subset {text : List Char} (scanned : scanPlain text = some (value, rest)) :
    rest ⊆ text := by
  unfold scanPlain at scanned
  split at scanned
  · cases scanned
    exact (List.drop_sublist _ _).subset
  · unfold scanNumber at scanned
    split at scanned
    · exact List.subset_cons_of_subset _ (scanUnsigned_subset scanned)
    · exact scanUnsigned_subset scanned

theorem scanValue_nil (fuel : Nat) : scanValue fuel [] = none := by
  cases fuel <;> rfl

theorem visible_of_scanArrayFrom {fuel : Nat} {text : List Char} {found : List Json × List Char}
    (scanned : scanArrayFrom fuel text = some found) : skipSpaces text ≠ [] := by
  intro empty
  rw [scanArrayFrom, empty, scanValue_nil] at scanned
  cases scanned

theorem visible_of_scanObjectFrom {fuel : Nat} {text : List Char}
    (scanned : scanObjectFrom fuel text = some found) : skipSpaces text ≠ [] := by
  intro empty
  rw [scanObjectFrom, empty] at scanned
  cases fuel <;> cases scanned

/-- More text leaves the first visible character as it is. -/
theorem head_extend {text : List Char} {c : Char} (more : List Char)
    (visible : skipSpaces text ≠ []) (opens : ∀ d ∈ (skipSpaces text).head?, d ≠ c) :
    ∀ d ∈ (skipSpaces (text ++ more)).head?, d ≠ c := by
  rw [skipSpaces_extend more visible, List.head?_append_of_ne_nil _ visible]
  exact opens

section Keep

variable {fuel : Nat}

/-- Reading a value keeps what it has read before a stop, or of a value that closes itself. -/
def KeepsValue (fuel : Nat) : Prop :=
  ∀ text more found rest larger, scanValue fuel text = some (found, rest) →
    HasStop rest ∨ Closes text → fuel ≤ larger →
    scanValue larger (text ++ more) = some (found, rest ++ more)

theorem scanArrayFrom_keeps (value : KeepsValue fuel) (items : Keeps scanItems fuel fun _ => True) :
    Keeps scanArrayFrom fuel fun _ => True := by
  intro text more found rest larger scanned _ deeper
  obtain ⟨⟨item, behind⟩, first, later⟩ := Option.bind_eq_some_iff.mp scanned
  obtain ⟨⟨others, left⟩, second, same⟩ := Option.bind_eq_some_iff.mp later
  cases same
  unfold scanArrayFrom
  rw [skipSpaces_extend more (visible_of_scanArrayFrom scanned),
    value _ more _ _ larger first (.inl (hasStop_of_scanItems second)) deeper]
  simp only [Option.bind_eq_bind, Option.bind_some]
  rw [items _ more _ _ larger second trivial deeper]
  rfl

theorem scanObjectFrom_keeps (member : Keeps scanMember fuel HasStop)
    (members : Keeps scanMembers fuel fun _ => True) :
    Keeps scanObjectFrom fuel fun _ => True := by
  intro text more found rest larger scanned _ deeper
  obtain ⟨⟨held, behind⟩, first, later⟩ := Option.bind_eq_some_iff.mp scanned
  obtain ⟨⟨others, left⟩, second, same⟩ := Option.bind_eq_some_iff.mp later
  cases same
  unfold scanObjectFrom
  rw [skipSpaces_extend more (visible_of_scanObjectFrom scanned),
    member _ more _ _ larger first (hasStop_of_scanMembers second) deeper]
  simp only [Option.bind_eq_bind, Option.bind_some]
  rw [members _ more _ _ larger second trivial deeper]
  rfl

theorem scanValue_keeps (array : Keeps scanArrayFrom fuel fun _ => True)
    (object : Keeps scanObjectFrom fuel fun _ => True) : KeepsValue (fuel + 1) := by
  intro text more found rest larger scanned stopped deeper
  obtain ⟨larger, rfl⟩ : ∃ n, larger = n + 1 := ⟨larger - 1, by omega⟩
  match text with
  | [] => cases scanned
  | c :: tail =>
    rw [List.cons_append]
    by_cases string : c = '"'
    · subst string
      rw [scanValue] at scanned ⊢
      exact map_extend (fun value left => scanString_extend tail more value left) scanned
    by_cases bracket : c = '['
    · subst bracket
      by_cases empty : ∃ left, skipSpaces tail = ']' :: left
      · obtain ⟨left, same⟩ := empty
        have longer := @skipSpaces_extend tail more (by rw [same]; exact List.cons_ne_nil _ _)
        rw [scanValue, same] at scanned
        rw [scanValue, longer, same]
        cases scanned
        rfl
      · have opens : ∀ d ∈ (skipSpaces tail).head?, d ≠ ']' := by
          rintro d head rfl
          exact empty (List.head?_eq_some_iff.mp head)
        rw [scanValue_openArray opens] at scanned
        obtain ⟨⟨items, left⟩, listed, shown⟩ := Option.map_eq_some_iff.mp scanned
        cases shown
        rw [scanValue_openArray (head_extend more (visible_of_scanArrayFrom listed) opens),
          array tail more items left larger listed trivial (by omega)]
        rfl
    by_cases brace : c = '{'
    · subst brace
      by_cases empty : ∃ left, skipSpaces tail = '}' :: left
      · obtain ⟨left, same⟩ := empty
        have longer := @skipSpaces_extend tail more (by rw [same]; exact List.cons_ne_nil _ _)
        rw [scanValue, same] at scanned
        rw [scanValue, longer, same]
        cases scanned
        rfl
      · have opens : ∀ d ∈ (skipSpaces tail).head?, d ≠ '}' := by
          rintro d head rfl
          exact empty (List.head?_eq_some_iff.mp head)
        rw [scanValue_openObject opens] at scanned
        obtain ⟨⟨members, left⟩, listed, shown⟩ := Option.map_eq_some_iff.mp scanned
        cases shown
        rw [scanValue_openObject (head_extend more (visible_of_scanObjectFrom listed) opens),
          object tail more members left larger listed trivial (by omega)]
        rfl
    have other : ∀ fuel tail, scanValue (fuel + 1) (c :: tail) = scanPlain (c :: tail) :=
      fun fuel tail => scanValue_scanPlain fuel tail string bracket brace
    rw [other] at scanned ⊢
    have hasStop : HasStop rest := by
      rcases stopped with hasStop | closes
      · exact hasStop
      · rcases closes c rfl with one | two | three
        · exact absurd one string
        · exact absurd two bracket
        · exact absurd three brace
    obtain ⟨d, member, stop⟩ := hasStop
    rw [← List.cons_append, scanPlain_extend more stop (scanPlain_subset scanned member), scanned]
    rfl

theorem scanItems_keeps (array : Keeps scanArrayFrom fuel fun _ => True) :
    Keeps scanItems (fuel + 1) fun _ => True := by
  intro text more found rest larger scanned _ deeper
  obtain ⟨larger, rfl⟩ : ∃ n, larger = n + 1 := ⟨larger - 1, by omega⟩
  rw [scanItems] at scanned
  split at scanned
  · next left same =>
      cases scanned
      rw [scanItems, skipSpaces_extend more (by rw [same]; exact List.cons_ne_nil _ _), same]
      rfl
  · next left same =>
      rw [scanItems, skipSpaces_extend more (by rw [same]; exact List.cons_ne_nil _ _), same]
      exact array left more found rest larger scanned trivial (by omega)
  · cases scanned

theorem scanMembers_keeps (object : Keeps scanObjectFrom fuel fun _ => True) :
    Keeps scanMembers (fuel + 1) fun _ => True := by
  intro text more found rest larger scanned _ deeper
  obtain ⟨larger, rfl⟩ : ∃ n, larger = n + 1 := ⟨larger - 1, by omega⟩
  rw [scanMembers] at scanned
  split at scanned
  · next left same =>
      cases scanned
      rw [scanMembers, skipSpaces_extend more (by rw [same]; exact List.cons_ne_nil _ _), same]
      rfl
  · next left same =>
      rw [scanMembers, skipSpaces_extend more (by rw [same]; exact List.cons_ne_nil _ _), same]
      exact object left more found rest larger scanned trivial (by omega)
  · cases scanned

theorem scanMember_keeps (value : KeepsValue fuel) : Keeps scanMember (fuel + 1) HasStop := by
  intro text more found rest larger scanned hasStop deeper
  obtain ⟨larger, rfl⟩ : ∃ n, larger = n + 1 := ⟨larger - 1, by omega⟩
  unfold scanMember at scanned
  split at scanned
  · next tail =>
      obtain ⟨⟨key, behind⟩, named, later⟩ := Option.bind_eq_some_iff.mp scanned
      dsimp only at later
      split at later
      · next left same =>
          obtain ⟨⟨item, last⟩, first, shown⟩ := Option.bind_eq_some_iff.mp later
          cases shown
          have visible : skipSpaces left ≠ [] := by
            intro empty
            rw [empty, scanValue_nil] at first
            cases first
          rw [List.cons_append, scanMember, scanString_extend tail more key behind named]
          simp only [Option.bind_eq_bind, Option.bind_some]
          rw [skipSpaces_extend more (by rw [same]; exact List.cons_ne_nil _ _), same]
          simp only [List.cons_append]
          rw [skipSpaces_extend more visible,
            value _ more item last larger first (.inl hasStop) (by omega)]
          rfl
      · cases later
  · cases scanned

end Keep

theorem scan_keeps (fuel : Nat) : KeepsValue fuel ∧ Keeps scanItems fuel (fun _ => True) ∧
    Keeps scanMember fuel HasStop ∧ Keeps scanMembers fuel fun _ => True := by
  induction fuel with
  | zero =>
    refine ⟨?_, ?_, ?_, ?_⟩ <;> (intro _ _ _ _ _ scanned; cases scanned)
  | succ fuel ih =>
    obtain ⟨value, items, member, members⟩ := ih
    have array := scanArrayFrom_keeps value items
    have object := scanObjectFrom_keeps member members
    exact ⟨scanValue_keeps array object, scanItems_keeps array, scanMember_keeps value,
      scanMembers_keeps object⟩

/-- What has been read of a string, an array or an object stays when more text follows. -/
theorem scanValue_extend {fuel larger : Nat} {text : List Char} (more : List Char) {value : Json}
    {rest : List Char} (scanned : scanValue fuel text = some (value, rest)) (closes : Closes text)
    (deeper : fuel ≤ larger) : scanValue larger (text ++ more) = some (value, rest ++ more) :=
  (scan_keeps fuel).1 text more value rest larger scanned (.inr closes) deeper

/-- **No proper prefix of an object loads.** -/
theorem loads_prefix (before : Blanks Char) (tree : Grammar.Tree Char) (value : Json) (part more : List Char)
    (denotes : treeValue tree = some value) (object : tree.text.head? = some '{')
    (split : tree.text = part ++ more) (proper : more ≠ []) (some_ : part ≠ []) :
    loads (before.text ++ part) = none := by
  obtain ⟨c, tail, rfl⟩ := List.exists_cons_of_ne_nil some_
  have brace : c = '{' := by
    rw [split] at object
    exact Option.some.inj object
  subst brace
  unfold loads
  rw [skipSpaces_blanks, skipSpaces_cons (by decide)]
  split
  · next found left scanned =>
      -- the whole text would be read to the same end
      exfalso
      have whole := scanValue_text tree value
        (max (2 * (before.text ++ '{' :: tail).length + 2) tree.text.length) [] denotes
        (le_max_right _ _) stops_nil
      have extended := scanValue_extend more scanned (by simp [Closes]) (le_max_left _ tree.text.length)
      rw [List.append_nil, split] at whole
      rw [split, whole] at extended
      have empty := (Prod.mk.inj (Option.some.inj extended)).2
      exact proper (List.append_eq_nil_iff.mp empty.symm).2
  · rfl

/-- Nothing visible may follow an object. -/
theorem loads_more (tree : Grammar.Tree Char) (value : Json) {c : Char} {more : List Char}
    (denotes : treeValue tree = some value) (object : tree.text.head? = some '{')
    (visible : isBlank c = false) : loads (tree.text ++ c :: more) = none := by
  have whole := scanValue_text tree value tree.text.length [] denotes le_rfl stops_nil
  rw [List.append_nil] at whole
  have closes : Closes tree.text := by
    intro d first
    rw [object] at first
    cases first
    exact .inr (.inr rfl)
  have extended := @scanValue_extend _ (2 * (tree.text ++ c :: more).length + 2) _ (c :: more) _ _
    whole closes (by simp only [List.length_append]; omega)
  unfold loads
  rw [skipSpaces_tree, extended]
  dsimp only
  rw [List.nil_append, skipSpaces_cons visible]
  rfl

/-! ## Dictionaries -/

/-- `dict[key] = value` -/
def setMember (dict : List (List Char × Json)) (key : List Char) (value : Json) :
    List (List Char × Json) :=
  if (dict.lookup key).isSome then
    dict.map fun member => if member.1 = key then (key, value) else member
  else dict ++ [(key, value)]

mutual

/-- The value with its objects as dictionaries: of a repeated key the last value stays. -/
def asDict : Json → Json
  | .arr items => .arr (itemsAsDict items)
  | .obj members => .obj ((membersAsDict members).foldl (fun dict member =>
    setMember dict member.1 member.2) [])
  | value => value

def itemsAsDict : List Json → List Json
  | [] => []
  | item :: items => asDict item :: itemsAsDict items

def membersAsDict : List (List Char × Json) → List (List Char × Json)
  | [] => []
  | (key, value) :: members => (key, asDict value) :: membersAsDict members

end

end Json

end AxiomEncode.Theory
