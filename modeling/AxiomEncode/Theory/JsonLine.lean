/-
# Theory.JsonLine -- a value on one line of text

`dumpsLine` is `json.dumps(value, sort_keys=True)`: one line of printable ASCII.  A
`Payload` is a value that this text gives back: its floats are written as JSON
numbers and its objects are dictionaries, listed in the order of their keys.  The
text of a payload is one of the grammar (`exists_tree_line`), so what is known of
those texts holds of it.
-/
import AxiomEncode.Theory.JsonCanonical
import AxiomEncode.Theory.JsonDenotes
import AxiomEncode.Theory.PyValue

namespace AxiomEncode.Theory

set_option autoImplicit false

namespace Json

open Grammar hiding isDigit Stops isStop
open Alphabet

/-! ## Printing -/

mutual

/-- The text of a value with `", "` and `": "` between its parts. -/
def line : Json → List Char
  | .null => "null".toList
  | .bool true => "true".toList
  | .bool false => "false".toList
  | .int value => printInt value
  | .float text => text
  | .str text => printString text
  | .arr [] => ['[', ']']
  | .arr (item :: items) => '[' :: (line item ++ lineItems items)
  | .obj [] => ['{', '}']
  | .obj ((key, value) :: members) =>
    '{' :: (printString key ++ ':' :: ' ' :: (line value ++ lineMembers members))

/-- What follows an item. -/
def lineItems : List Json → List Char
  | [] => [']']
  | item :: items => ',' :: ' ' :: (line item ++ lineItems items)

/-- What follows a member. -/
def lineMembers : List (List Char × Json) → List Char
  | [] => ['}']
  | (key, value) :: members =>
    ',' :: ' ' :: (printString key ++ ':' :: ' ' :: (line value ++ lineMembers members))

end

def dumpsLine (value : Json) : List Char := line (sortKeys value)

/-! ## Payloads -/

/-- The text of a number that is no integer. -/
def IsFloat (text : List Char) : Prop :=
  ∃ n : Number Char, n.text = text ∧ (n.fraction ++ n.exponent).isEmpty = false

mutual

def Payload : Json → Prop
  | .float text => IsFloat text
  | .arr items => PayloadItems items
  | .obj members => Ordered members ∧ PayloadMembers members
  | _ => True

def PayloadItems : List Json → Prop
  | [] => True
  | item :: items => Payload item ∧ PayloadItems items

def PayloadMembers : List (List Char × Json) → Prop
  | [] => True
  | (_, value) :: members => Payload value ∧ PayloadMembers members

end

variable {members dict : List (List Char × Json)} {value : Json} {parts : List (StringPart Char)}
  {text : List Char}

theorem insertionSort_ordered (ordered : Ordered members) :
    (members.insertionSort fun a b => a.1 ≤ b.1) = members := by
  apply List.Pairwise.insertionSort_eq
  exact ordered.imp le_of_lt

mutual

theorem sortKeys_payload (value : Json) (payload : Payload value) : sortKeys value = value := by
  match value with
  | .null | .bool _ | .int _ | .float _ | .str _ => rfl
  | .arr items => rw [sortKeys, sortItems_payload items payload]
  | .obj members =>
    rw [sortKeys, sortMembers_payload members payload.2, insertionSort_ordered payload.1]

theorem sortItems_payload (items : List Json) (payload : PayloadItems items) :
    sortKeysItems items = items := by
  match items with
  | [] => rfl
  | item :: items =>
    rw [sortKeysItems, sortKeys_payload item payload.1, sortItems_payload items payload.2]

theorem sortMembers_payload (members : List (List Char × Json)) (payload : PayloadMembers members) :
    sortKeysMembers members = members := by
  match members with
  | [] => rfl
  | (key, value) :: members =>
    rw [sortKeysMembers, sortKeys_payload value payload.1, sortMembers_payload members payload.2]

end

theorem setMember_new {key : List Char} (new : ∀ member ∈ dict, member.1 ≠ key) :
    setMember dict key value = dict ++ [(key, value)] := by
  have absent : dict.lookup key = none := by
    rw [List.lookup_eq_none_iff]
    intro member inside
    simpa using (new member inside).symm
  rw [setMember, absent]
  rfl

/-- Members with ordered keys make a dictionary as they are. -/
theorem foldl_setMember (ordered : Ordered (dict ++ members)) :
    members.foldl (fun dict member => setMember dict member.1 member.2) dict = dict ++ members := by
  induction members generalizing dict with
  | nil => rw [List.foldl_nil, List.append_nil]
  | cons member members ih =>
    have new : ∀ other ∈ dict, other.1 ≠ member.1 := fun other inside =>
      ne_of_lt ((List.pairwise_append.mp ordered).2.2 other inside member List.mem_cons_self)
    rw [List.foldl_cons, setMember_new new, ih]
    · rw [List.append_assoc]
      rfl
    · rwa [List.append_assoc]

mutual

theorem asDict_payload (value : Json) (payload : Payload value) : asDict value = value := by
  match value with
  | .null | .bool _ | .int _ | .float _ | .str _ => rfl
  | .arr items => rw [asDict, itemsAsDict_payload items payload]
  | .obj members =>
    rw [asDict, membersAsDict_payload members payload.2, foldl_setMember (by simpa using payload.1),
      List.nil_append]

theorem itemsAsDict_payload (items : List Json) (payload : PayloadItems items) :
    itemsAsDict items = items := by
  match items with
  | [] => rfl
  | item :: items =>
    rw [itemsAsDict, asDict_payload item payload.1, itemsAsDict_payload items payload.2]

theorem membersAsDict_payload (members : List (List Char × Json)) (payload : PayloadMembers members) :
    membersAsDict members = members := by
  match members with
  | [] => rfl
  | (key, value) :: members =>
    rw [membersAsDict, asDict_payload value payload.1, membersAsDict_payload members payload.2]

end

/-! ## The syntax of a line -/

theorem isHex_hexDigit {value : Nat} (small : value < 16) : isHex (hexDigit value) = true := by
  revert value
  decide

/-- `\uXXXX` as a part of a string. -/
def unicodePart (code : Nat) : StringPart Char :=
  .unicode (hexDigit (code / 4096 % 16)) (hexDigit (code / 256 % 16)) (hexDigit (code / 16 % 16))
    (hexDigit (code % 16)) (by
      have hex : ∀ n, isHex (hexDigit (n % 16)) = true := fun n =>
        isHex_hexDigit (Nat.mod_lt n (by decide))
      simp [hex])

theorem unicodePart_text (code : Nat) : (unicodePart code).text = unicodeEscape code := rfl

theorem partsText_short {letter c : Char} {named : isEscapeLetter letter = true}
    (simple : simpleEscape letter = some c) (denotes : partsText parts = some text) :
    partsText (.short letter named :: parts) = some (c :: text) := by
  rw [partsText, simple, denotes]
  rfl

theorem partsText_unicode {code : Nat} (scalar : code < 0xD800 ∨ 0xE000 ≤ code)
    (small : code < 0x10000) (denotes : partsText parts = some text) :
    partsText (unicodePart code :: parts) = some (Char.ofNat code :: text) := by
  unfold unicodePart
  rw [partsText.eq_def]
  simp only [hexFour_hexDigit small, Option.bind_eq_bind, Option.bind_some, if_pos scalar, denotes,
    Option.map_some]

/-- Two surrogates are one character beyond the basic plane. -/
theorem partsText_surrogates {offset : Nat} {parts : List (StringPart Char)} {text : List Char}
    (small : offset < 0x100000) (denotes : partsText parts = some text) :
    partsText (unicodePart (0xD800 + offset / 1024) :: unicodePart (0xDC00 + offset % 1024) :: parts) =
      some (Char.ofNat (0x10000 + offset) :: text) := by
  have high : 0xD800 + offset / 1024 < 0x10000 := by omega
  have low : 0xDC00 + offset % 1024 < 0x10000 := by omega
  unfold unicodePart
  rw [partsText.eq_def]
  simp only [hexFour_hexDigit high, hexFour_hexDigit low, Option.bind_eq_bind, Option.bind_some]
  rw [if_neg (by omega), if_neg (by omega), if_pos (by omega), denotes]
  have whole : 0x10000 + (0xD800 + offset / 1024 - 0xD800) * 1024 +
      (0xDC00 + offset % 1024 - 0xDC00) = 0x10000 + offset := by omega
  rw [whole]
  rfl

/-- Each character has parts that print as its escape and denote it. -/
theorem exists_parts_char (c : Char) (parts : List (StringPart Char)) (text : List Char)
    (denotes : partsText parts = some text) :
    ∃ more : List (StringPart Char), more.flatMap StringPart.text = escapeChar c ∧
      partsText (more ++ parts) = some (c :: text) := by
  have back : Char.ofNat c.toNat = c := Char.ofNat_toNat c
  have short : ∀ letter, (named : isEscapeLetter letter = true) → simpleEscape letter = some c →
      ∃ more : List (StringPart Char), more.flatMap StringPart.text = ['\\', letter] ∧
        partsText (more ++ parts) = some (c :: text) :=
    fun letter named simple => ⟨[.short letter named], rfl, partsText_short simple denotes⟩
  unfold escapeChar
  split_ifs with quote slash newline return_ tab feed backspace plain basic
  · exact short '"' rfl (by rw [quote]; rfl)
  · exact short '\\' rfl (by rw [slash]; rfl)
  · exact short 'n' rfl (by rw [newline]; rfl)
  · exact short 'r' rfl (by rw [return_]; rfl)
  · exact short 't' rfl (by rw [tab]; rfl)
  · rw [feed] at back
    exact short 'f' rfl (back ▸ rfl)
  · rw [backspace] at back
    exact short 'b' rfl (back ▸ rfl)
  · have free : isFree c = true := by
      simp only [isFree, Bool.and_eq_true, decide_eq_true_eq, bne_iff_ne, ne_eq]
      exact ⟨⟨plain.1, fun same => quote (code_injective same)⟩,
        fun same => slash (code_injective same)⟩
    exact ⟨[.plain c free], rfl, by rw [List.singleton_append, partsText, denotes]; rfl⟩
  · have scalar : c.toNat < 0xD800 ∨ 0xE000 ≤ c.toNat := by
      rcases c.valid with low | high
      · exact .inl low
      · exact .inr high.1
    refine ⟨[unicodePart c.toNat], by simp [unicodePart_text], ?_⟩
    have one := partsText_unicode scalar basic denotes
    rwa [back] at one
  · have small : c.toNat < 0x110000 := by
      rcases c.valid with low | high
      · exact Nat.lt_trans low (by decide)
      · exact high.2
    refine ⟨[unicodePart (0xD800 + (c.toNat - 0x10000) / 1024),
      unicodePart (0xDC00 + (c.toNat - 0x10000) % 1024)], by simp [unicodePart_text], ?_⟩
    have pair := @partsText_surrogates (c.toNat - 0x10000) _ _ (by omega) denotes
    rwa [Nat.add_sub_cancel' (by omega), back] at pair

theorem exists_parts (text : List Char) :
    ∃ parts : List (StringPart Char), stringText parts = printString text ∧
      partsText parts = some text := by
  suffices found : ∃ parts : List (StringPart Char),
      parts.flatMap StringPart.text = text.flatMap escapeChar ∧ partsText parts = some text by
    obtain ⟨parts, shown, denotes⟩ := found
    refine ⟨parts, ?_, denotes⟩
    rw [stringText, closedText, shown]
    rfl
  induction text with
  | nil => exact ⟨[], rfl, rfl⟩
  | cons c text ih =>
    obtain ⟨parts, shown, denotes⟩ := ih
    obtain ⟨more, escaped, extended⟩ := exists_parts_char c parts text denotes
    exact ⟨more ++ parts, by rw [List.flatMap_append, escaped, shown, List.flatMap_cons], extended⟩

/-- An integer as a number of the grammar. -/
theorem exists_number (value : Int) :
    ∃ n : Number Char, n.text = printInt value ∧ numberValue n = .int value := by
  have digits : isWhole (Nat.toDigits 10 value.natAbs) = true := by
    cases shape : Nat.toDigits 10 value.natAbs with
    | nil => exact absurd shape Nat.toDigits_ne_nil
    | cons first more =>
      simp only [isWhole, Bool.and_eq_true, List.all_eq_true, Bool.or_eq_true, bne_iff_ne, ne_eq]
      refine ⟨fun c member => isDigit_of_mem_toDigits (n := value.natAbs) (shape ▸ member), ?_⟩
      rcases Nat.eq_zero_or_pos value.natAbs with zero | positive
      · rw [zero, Nat.toDigits_zero] at shape
        cases shape
        exact .inr rfl
      · left
        exact fun same => toDigits_head_ne_zero positive first more shape (code_injective same)
  refine ⟨⟨decide (value < 0), Nat.toDigits 10 value.natAbs, [], [], digits, rfl, rfl⟩, ?_, ?_⟩
  · unfold printInt
    by_cases negative : value < 0
    · simp [Number.text, negative]
      rfl
    · simp [Number.text, negative]
  · simp only [numberValue, List.append_nil, List.isEmpty_nil, if_true, decide_eq_true_eq,
      Nat.ofDigitChars_ten_toDigits]
    congr 1
    split_ifs <;> omega

def oneBlank : Blanks Char := ⟨[' '], rfl⟩

mutual

/-- The line of a payload is a text of the grammar. -/
theorem exists_tree_line (value : Json) (payload : Payload value) :
    ∃ tree : Grammar.Tree Char, tree.text = line value ∧ treeValue tree = some value := by
  match value with
  | .null => exact ⟨.word .null, rfl, rfl⟩
  | .bool true => exact ⟨.word .true, rfl, rfl⟩
  | .bool false => exact ⟨.word .false, rfl, rfl⟩
  | .int value =>
    obtain ⟨n, text, denotes⟩ := exists_number value
    exact ⟨.number n, text, congrArg some denotes⟩
  | .float text =>
    obtain ⟨n, shown, some_⟩ := payload
    refine ⟨.number n, shown, ?_⟩
    rw [treeValue, numberValue, some_, shown]
    rfl
  | .str text =>
    obtain ⟨parts, shown, denotes⟩ := exists_parts text
    exact ⟨.string parts, shown, by rw [treeValue, denotes]; rfl⟩
  | .arr [] => exact ⟨.emptyArray noBlanks, rfl, rfl⟩
  | .arr (item :: items) =>
    obtain ⟨tree, shown, denotes⟩ := exists_tree_line item payload.1
    obtain ⟨others, text, listed⟩ := exists_items_line noBlanks tree item items shown denotes payload.2
    exact ⟨.array others, by rw [Grammar.Tree.text, text]; rfl, by rw [treeValue, listed]; rfl⟩
  | .obj [] => exact ⟨.emptyObject noBlanks, rfl, rfl⟩
  | .obj ((key, value) :: members) =>
    obtain ⟨tree, shown, denotes⟩ := exists_tree_line value payload.2.1
    obtain ⟨others, text, listed⟩ :=
      exists_members_line noBlanks key tree value members shown denotes payload.2.2
    exact ⟨.object others, by rw [Grammar.Tree.text, text]; rfl, by rw [treeValue, listed]; rfl⟩

theorem exists_items_line (before : Blanks Char) (tree : Grammar.Tree Char) (item : Json)
    (items : List Json) (shown : tree.text = line item) (denotes : treeValue tree = some item)
    (payload : PayloadItems items) :
    ∃ others : Items Char, others.text = before.text ++ (line item ++ lineItems items) ∧
      itemsValue others = some (item :: items) := by
  match items with
  | [] =>
    refine ⟨.last before tree noBlanks, ?_, ?_⟩
    · rw [Items.text, shown]
      rfl
    · rw [itemsValue, denotes]
      rfl
  | next :: items =>
    obtain ⟨tree', shown', denotes'⟩ := exists_tree_line next payload.1
    obtain ⟨others, text, listed⟩ :=
      exists_items_line oneBlank tree' next items shown' denotes' payload.2
    refine ⟨.more before tree noBlanks others, ?_, ?_⟩
    · rw [Items.text, shown, text]
      rfl
    · rw [itemsValue, denotes, listed]
      rfl

theorem exists_members_line (before : Blanks Char) (key : List Char) (tree : Grammar.Tree Char)
    (value : Json) (members : List (List Char × Json)) (shown : tree.text = line value)
    (denotes : treeValue tree = some value) (payload : PayloadMembers members) :
    ∃ others : Grammar.Members Char,
      others.text = before.text ++ (printString key ++ ':' :: ' ' ::
        (line value ++ lineMembers members)) ∧
      membersValue others = some ((key, value) :: members) := by
  obtain ⟨parts, name, named⟩ := exists_parts key
  match members with
  | [] =>
    refine ⟨.last ⟨before, parts, noBlanks⟩ oneBlank tree noBlanks, ?_, ?_⟩
    · simp only [Grammar.Members.text, Key.text, name, shown, List.append_assoc]
      rfl
    · rw [membersValue, named, denotes]
      rfl
  | (next, held) :: members =>
    obtain ⟨tree', shown', denotes'⟩ := exists_tree_line held payload.1
    obtain ⟨others, text, listed⟩ :=
      exists_members_line oneBlank next tree' held members shown' denotes' payload.2
    refine ⟨.more ⟨before, parts, noBlanks⟩ oneBlank tree noBlanks others, ?_, ?_⟩
    · simp only [Grammar.Members.text, Key.text, name, shown, text, List.append_assoc]
      rfl
    · rw [membersValue, named, denotes, listed]
      rfl

end

/-- A payload is read back from its line. -/
theorem loads_line (payload : Payload value) : loads (line value) = some value := by
  obtain ⟨tree, shown, denotes⟩ := exists_tree_line value payload
  have loaded := loads_text noBlanks noBlanks tree value denotes
  rw [← shown]
  simpa [noBlanks] using loaded

theorem exists_lineMembers (members : List (List Char × Json)) :
    ∃ inside, lineMembers members = inside ++ ['}'] := by
  induction members with
  | nil => exact ⟨[], rfl⟩
  | cons member members ih =>
    obtain ⟨inside, closed⟩ := ih
    refine ⟨',' :: ' ' :: (printString member.1 ++ ':' :: ' ' :: (line member.2 ++ inside)), ?_⟩
    rw [lineMembers, closed]
    simp

/-- The line of an object stands between its braces. -/
theorem exists_line_obj (members : List (List Char × Json)) :
    ∃ inside, line (.obj members) = '{' :: (inside ++ ['}']) := by
  match members with
  | [] => exact ⟨[], rfl⟩
  | (key, value) :: members =>
    obtain ⟨inside, closed⟩ := exists_lineMembers members
    refine ⟨printString key ++ ':' :: ' ' :: (line value ++ inside), ?_⟩
    rw [line, closed]
    simp

/-! ## Printable text -/

/-- A character of printable ASCII. -/
def Printable (c : Char) : Prop := 32 ≤ c.toNat ∧ c.toNat ≤ 126

instance (c : Char) : Decidable (Printable c) :=
  inferInstanceAs (Decidable (32 ≤ c.toNat ∧ c.toNat ≤ 126))

theorem printable_hexDigit {value : Nat} (small : value < 16) : Printable (hexDigit value) := by
  have all : ∀ n < 16, 32 ≤ (hexDigit n).toNat ∧ (hexDigit n).toNat ≤ 126 := by decide
  exact all value small

theorem printable_unicodeEscape (code : Nat) : ∀ c ∈ unicodeEscape code, Printable c := by
  have digit : ∀ n, Printable (hexDigit (n % 16)) := fun n =>
    printable_hexDigit (Nat.mod_lt n (by decide))
  intro c member
  simp only [unicodeEscape, List.mem_cons, List.not_mem_nil, or_false] at member
  rcases member with rfl | rfl | rfl | rfl | rfl | rfl
  · decide
  · decide
  · exact digit _
  · exact digit _
  · exact digit _
  · exact digit _

theorem printable_escapeChar (c : Char) : ∀ d ∈ escapeChar c, Printable d := by
  have two : ∀ letter, Printable letter → ∀ d ∈ ['\\', letter], Printable d := by
    intro letter printable d member
    simp only [List.mem_cons, List.not_mem_nil, or_false] at member
    rcases member with rfl | rfl
    · decide
    · exact printable
  unfold escapeChar
  split_ifs with quote slash newline return_ tab feed backspace plain basic
  · exact two _ (by decide)
  · exact two _ (by decide)
  · exact two _ (by decide)
  · exact two _ (by decide)
  · exact two _ (by decide)
  · exact two _ (by decide)
  · exact two _ (by decide)
  · intro d member
    cases List.mem_singleton.mp member
    exact plain
  · exact printable_unicodeEscape _
  · exact List.forall_mem_append.mpr ⟨printable_unicodeEscape _, printable_unicodeEscape _⟩

theorem printable_printString (text : List Char) : ∀ c ∈ printString text, Printable c := by
  intro c member
  simp only [printString, List.cons_append, List.mem_cons, List.mem_append, List.mem_flatMap,
    List.not_mem_nil, or_false] at member
  rcases member with rfl | ⟨d, -, escaped⟩ | rfl
  · decide
  · exact printable_escapeChar d c escaped
  · decide

theorem printable_number (n : Number Char) : ∀ c ∈ n.text, Printable c := by
  intro c member
  have numeric := isNumeric_of_mem_number n member
  simp only [isNumeric, Grammar.isDigit, Bool.or_eq_true, Bool.and_eq_true, decide_eq_true_eq,
    List.contains_eq_mem, List.mem_cons, List.not_mem_nil, or_false] at numeric
  change 32 ≤ code c ∧ code c ≤ 126
  omega

theorem printable_cons {c : Char} (first : Printable c) (rest : ∀ d ∈ text, Printable d) :
    ∀ d ∈ c :: text, Printable d :=
  List.forall_mem_cons.mpr ⟨first, rest⟩

mutual

/-- A line is printable ASCII: it holds no line feed and is encoded byte by byte. -/
theorem printable_line (value : Json) (payload : Payload value) : ∀ c ∈ line value, Printable c := by
  have two : ∀ c d : Char, Printable c → Printable d → ∀ e ∈ [c, d], Printable e :=
    fun c d first second => printable_cons first (printable_cons second nofun)
  match value with
  | .null => exact List.forall_iff_forall_mem.mp (by decide)
  | .bool true => exact List.forall_iff_forall_mem.mp (by decide)
  | .bool false => exact List.forall_iff_forall_mem.mp (by decide)
  | .int value =>
    obtain ⟨n, text, -⟩ := exists_number value
    rw [line, ← text]
    exact printable_number n
  | .float text =>
    obtain ⟨n, rfl, -⟩ := payload
    exact printable_number n
  | .str text => exact printable_printString text
  | .arr [] => exact two _ _ (by decide) (by decide)
  | .arr (item :: items) =>
    rw [line]
    exact printable_cons (by decide) (List.forall_mem_append.mpr
      ⟨printable_line item payload.1, printable_lineItems items payload.2⟩)
  | .obj [] => exact two _ _ (by decide) (by decide)
  | .obj ((key, value) :: members) =>
    rw [line]
    refine printable_cons (by decide) (List.forall_mem_append.mpr
      ⟨printable_printString key, ?_⟩)
    exact printable_cons (by decide) (printable_cons (by decide)
      (List.forall_mem_append.mpr
        ⟨printable_line value payload.2.1, printable_lineMembers members payload.2.2⟩))

theorem printable_lineItems (items : List Json) (payload : PayloadItems items) :
    ∀ c ∈ lineItems items, Printable c := by
  match items with
  | [] => exact printable_cons (by decide) nofun
  | item :: items =>
    rw [lineItems]
    exact printable_cons (by decide) (printable_cons (by decide)
      (List.forall_mem_append.mpr
        ⟨printable_line item payload.1, printable_lineItems items payload.2⟩))

theorem printable_lineMembers (members : List (List Char × Json))
    (payload : PayloadMembers members) : ∀ c ∈ lineMembers members, Printable c := by
  match members with
  | [] => exact printable_cons (by decide) nofun
  | (key, value) :: members =>
    rw [lineMembers]
    refine printable_cons (by decide) (printable_cons (by decide)
      (List.forall_mem_append.mpr ⟨printable_printString key, ?_⟩))
    exact printable_cons (by decide) (printable_cons (by decide)
      (List.forall_mem_append.mpr
        ⟨printable_line value payload.1, printable_lineMembers members payload.2⟩))

end

end Json

end AxiomEncode.Theory
