/-
# Theory.JsonCanonical -- a canonical text belongs to one value

The compact text of a value ends where the value does: what follows is a comma, a
bracket or nothing, and no value runs on into those.  So two texts that agree are
texts of one value.  With the members of every object in the order of their names,
agreement still shows in every member.
-/
import AxiomEncode.Theory.JsonRoundTrip
import Mathlib.Data.Char
import Mathlib.Data.List.Lex
import Mathlib.Data.List.Sort

namespace AxiomEncode.Theory

set_option autoImplicit false

namespace Json

/-! ## Values that a text can hold -/

def isFloatChar (c : Char) : Bool :=
  isDigit c || ['+', '-', '.', 'E', 'I', 'N', 'a', 'e', 'f', 'i', 'n', 't', 'y'].contains c

/-- The text of a float: no comma, quote or bracket, and more than an integer has. -/
def isFloatText (text : List Char) : Bool :=
  text.all isFloatChar && text.any fun c => !(isDigit c || c == '-')

mutual

/-- Every float has the text of a float. -/
def isWritten : Json → Bool
  | .float text => isFloatText text
  | .arr items => areWritten items
  | .obj members => membersAreWritten members
  | _ => true

def areWritten : List Json → Bool
  | [] => true
  | item :: items => isWritten item && areWritten items

def membersAreWritten : List (List Char × Json) → Bool
  | [] => true
  | (_, value) :: members => isWritten value && membersAreWritten members

end

variable {members others : List (List Char × Json)} {items : List Json}
  {text rest rest' : List Char} {value a b : Json}

theorem membersAreWritten_iff :
    membersAreWritten members = true ↔ ∀ entry ∈ members, isWritten entry.2 = true := by
  induction members with
  | nil => simp [membersAreWritten]
  | cons entry rest ih => simp [membersAreWritten, ih]

theorem areWritten_iff : areWritten items = true ↔ ∀ item ∈ items, isWritten item = true := by
  induction items with
  | nil => simp [areWritten]
  | cons item rest ih => simp [areWritten, ih]

/-! ## Atoms -/

/-- What ends a value in an array or an object. -/
def isStop (c : Char) : Bool := c == ',' || c == ']' || c == '}'

/-- What a value may be followed by. -/
def Stops (rest : List Char) : Prop := rest = [] ∨ ∃ c tail, rest = c :: tail ∧ isStop c = true

/-- A character of an atom: it ends nothing and opens nothing. -/
def isAtomChar (c : Char) : Bool := !(isStop c || c == '"' || c == '[' || c == '{')

/-- Neither a text nor an array nor an object. -/
def isAtom : Json → Bool
  | .str _ => false
  | .arr _ => false
  | .obj _ => false
  | _ => true

/-- The atom of a text. -/
def readAtom (text : List Char) : Option Json :=
  if text = "null".toList then some .null
  else if text = "true".toList then some (.bool true)
  else if text = "false".toList then some (.bool false)
  else if text.all fun c => isDigit c || c == '-' then (scanNumber text).map Prod.fst
  else some (.float text)

theorem isNumeral_printInt (value : Int) :
    ((printInt value).all fun c => isDigit c || c == '-') = true := by
  have digits : ∀ c ∈ Nat.toDigits 10 value.natAbs, (isDigit c || c == '-') = true := by
    intro c member
    rw [isDigit_of_mem_toDigits member, Bool.true_or]
  unfold printInt
  split_ifs
  · rw [List.all_cons, List.all_eq_true.mpr digits]
    rfl
  · exact List.all_eq_true.mpr digits

/-- A literal is no numeral and no text of a float. -/
theorem ne_of_all {p : Char → Bool} (all : text.all p = true) (word : String)
    (odd : word.toList.all p = false) : text ≠ word.toList := by
  rintro rfl
  rw [odd] at all
  cases all

theorem readAtom_compact (atom : isAtom value = true) (written : isWritten value = true) :
    readAtom (compact value) = some value := by
  match value with
  | .null => rfl
  | .bool true => rfl
  | .bool false => rfl
  | .int value =>
    have numeral := isNumeral_printInt value
    have scanned := scanNumber_printInt value (.inl rfl)
    rw [List.append_nil] at scanned
    rw [readAtom, compact, if_neg (ne_of_all numeral "null" (by decide)),
      if_neg (ne_of_all numeral "true" (by decide)),
      if_neg (ne_of_all numeral "false" (by decide)), if_pos numeral, scanned]
    rfl
  | .float text =>
    rw [isWritten, isFloatText, Bool.and_eq_true] at written
    obtain ⟨chars, more⟩ := written
    have notNumeral : ¬ (text.all fun c => isDigit c || c == '-') = true := by
      intro numeral
      obtain ⟨c, member, other⟩ := List.any_eq_true.mp more
      rw [List.all_eq_true.mp numeral c member] at other
      cases other
    rw [readAtom, compact, if_neg (ne_of_all chars "null" (by decide)),
      if_neg (ne_of_all chars "true" (by decide)),
      if_neg (ne_of_all chars "false" (by decide)), if_neg notNumeral]
  | .str _ => cases atom
  | .arr _ => cases atom
  | .obj _ => cases atom

theorem isAtomChar_of_isDigit {c : Char} (digit : isDigit c = true) : isAtomChar c = true := by
  have ne : ∀ d, isDigit d = false → (c == d) = false := by
    intro d other
    rw [beq_eq_false_iff_ne]
    rintro rfl
    rw [other] at digit
    cases digit
  simp [isAtomChar, isStop, ne ',' rfl, ne ']' rfl, ne '}' rfl, ne '"' rfl, ne '[' rfl,
    ne '{' rfl]

theorem isAtomChar_of_isFloatChar {c : Char} (number : isFloatChar c = true) :
    isAtomChar c = true := by
  rcases Bool.or_eq_true _ _ ▸ number with digit | sign
  · exact isAtomChar_of_isDigit digit
  · have each : ['+', '-', '.', 'E', 'I', 'N', 'a', 'e', 'f', 'i', 'n', 't', 'y'].all isAtomChar =
        true := by decide
    exact List.all_eq_true.mp each c (List.contains_iff_mem.mp sign)

theorem isAtomChar_of_mem_compact (atom : isAtom value = true) (written : isWritten value = true) :
    ∀ c ∈ compact value, isAtomChar c = true := by
  match value with
  | .null => exact List.all_eq_true.mp (by decide)
  | .bool true => exact List.all_eq_true.mp (by decide)
  | .bool false => exact List.all_eq_true.mp (by decide)
  | .int value =>
    intro c member
    rcases Bool.or_eq_true _ _ ▸ List.all_eq_true.mp (isNumeral_printInt value) c member
      with digit | minus
    · exact isAtomChar_of_isDigit digit
    · rw [beq_iff_eq] at minus
      rw [minus]
      decide
  | .float text =>
    intro c member
    rw [isWritten, isFloatText, Bool.and_eq_true] at written
    exact isAtomChar_of_isFloatChar (List.all_eq_true.mp written.1 c member)
  | .str _ => cases atom
  | .arr _ => cases atom
  | .obj _ => cases atom

theorem takeWhile_atom (atoms : ∀ c ∈ text, isAtomChar c = true) (stops : Stops rest) :
    (text ++ rest).takeWhile isAtomChar = text := by
  rw [List.takeWhile_append_of_pos atoms]
  rcases stops with rfl | ⟨c, tail, rfl, stop⟩
  · rw [List.takeWhile_nil, List.append_nil]
  · rw [List.takeWhile_cons_of_neg (by simp [isAtomChar, stop]), List.append_nil]

/-- Two atoms whose texts agree up to what stops them. -/
theorem atom_append_inj (atom : isAtom a = true) (atom' : isAtom b = true)
    (written : isWritten a = true) (written' : isWritten b = true) (stops : Stops rest)
    (stops' : Stops rest') (equal : compact a ++ rest = compact b ++ rest') :
    a = b ∧ rest = rest' := by
  have texts := congrArg (List.takeWhile isAtomChar) equal
  rw [takeWhile_atom (isAtomChar_of_mem_compact atom written) stops,
    takeWhile_atom (isAtomChar_of_mem_compact atom' written') stops'] at texts
  have values := congrArg readAtom texts
  rw [readAtom_compact atom written, readAtom_compact atom' written'] at values
  exact ⟨Option.some.inj values, List.append_cancel_left (texts ▸ equal)⟩

/-! ## What a text opens with -/

/-- The character that tells texts, arrays and objects from atoms. -/
def opener : Json → Option Char
  | .str _ => some '"'
  | .arr _ => some '['
  | .obj _ => some '{'
  | _ => none

theorem compact_ne_nil (written : isWritten value = true) : compact value ≠ [] := by
  match value with
  | .null => decide
  | .bool true => decide
  | .bool false => decide
  | .int value =>
    obtain ⟨c, tail, shape, -⟩ := printInt_head value
    rw [compact, shape]
    exact List.cons_ne_nil _ _
  | .float text =>
    rw [isWritten, isFloatText, Bool.and_eq_true] at written
    rintro none_
    rw [compact] at none_
    rw [none_] at written
    exact absurd written.2 (by decide)
  | .str _ => exact List.cons_ne_nil _ _
  | .arr _ => exact List.cons_ne_nil _ _
  | .obj _ => exact List.cons_ne_nil _ _

theorem head_compact (written : isWritten value = true) :
    ∃ c tail, compact value = c :: tail ∧ isStop c = false ∧
      opener value = if isAtomChar c then none else some c := by
  by_cases atom : isAtom value = true
  · obtain ⟨c, tail, shape⟩ := List.exists_cons_of_ne_nil (compact_ne_nil written)
    have char := isAtomChar_of_mem_compact atom written c (shape ▸ List.mem_cons_self)
    refine ⟨c, tail, shape, ?_, ?_⟩
    · rw [isAtomChar, Bool.not_eq_true', Bool.or_eq_false_iff, Bool.or_eq_false_iff,
        Bool.or_eq_false_iff] at char
      exact char.1.1.1
    · rw [if_pos char]
      cases value with
      | str _ => cases atom
      | arr _ => cases atom
      | obj _ => cases atom
      | _ => rfl
  · cases value with
    | str _ => exact ⟨'"', _, rfl, by decide, rfl⟩
    | arr _ => exact ⟨'[', _, rfl, by decide, rfl⟩
    | obj _ => exact ⟨'{', _, rfl, by decide, rfl⟩
    | _ => exact absurd rfl atom

/-- Texts that agree open alike. -/
theorem opener_eq (written : isWritten a = true) (written' : isWritten b = true)
    (equal : compact a ++ rest = compact b ++ rest') :
    opener a = opener b := by
  obtain ⟨c, tail, shape, -, opens⟩ := head_compact written
  obtain ⟨d, tail', shape', -, opens'⟩ := head_compact written'
  rw [shape, shape', List.cons_append, List.cons_append] at equal
  rw [opens, opens', (List.cons.inj equal).1]

theorem isAtom_iff : isAtom value = true ↔ opener value = none := by
  cases value <;> simp [isAtom, opener]

/-! ## Values -/

theorem printString_append_inj {text' : List Char}
    (equal : printString text ++ rest = printString text' ++ rest') :
    text = text' ∧ rest = rest' := by
  rw [printString_append, printString_append] at equal
  have scanned := congrArg scanString (List.cons.inj equal).2
  rw [scanString_printString, scanString_printString, Option.some.injEq, Prod.mk.injEq] at scanned
  exact scanned

/-- What follows an item of an array. -/
def itemsAfter : List Json → List Char
  | [] => [']']
  | item :: items => ',' :: compactItems (item :: items)

def membersAfter : List (List Char × Json) → List Char
  | [] => ['}']
  | member :: members => ',' :: compactMembers (member :: members)

theorem compactItems_cons (item : Json) (items : List Json) :
    compactItems (item :: items) = compact item ++ itemsAfter items := by
  cases items with
  | nil => rw [compactItems, itemsAfter]
  | cons next items =>
    rw [compactItems, itemsAfter]
    exact List.cons_ne_nil _ _

theorem compactMembers_cons (key : List Char) (value : Json) (members : List (List Char × Json)) :
    compactMembers ((key, value) :: members) =
      printString key ++ (':' :: (compact value ++ membersAfter members)) := by
  cases members with
  | nil => rw [compactMembers, membersAfter, List.append_assoc, List.cons_append]
  | cons next members =>
    rw [compactMembers, membersAfter, List.append_assoc, List.cons_append]
    exact List.cons_ne_nil _ _

theorem stops_itemsAfter (items : List Json) (rest : List Char) :
    Stops (itemsAfter items ++ rest) := by
  cases items with
  | nil => exact .inr ⟨']', rest, rfl, rfl⟩
  | cons => exact .inr ⟨',', _, rfl, rfl⟩

theorem stops_membersAfter (members : List (List Char × Json)) (rest : List Char) :
    Stops (membersAfter members ++ rest) := by
  cases members with
  | nil => exact .inr ⟨'}', rest, rfl, rfl⟩
  | cons => exact .inr ⟨',', _, rfl, rfl⟩

/-- Items do not start with the end of the array. -/
theorem compactItems_ne_end {item : Json} (written : isWritten item = true)
    (rest rest' : List Char) : compactItems (item :: items) ++ rest ≠ ']' :: rest' := by
  obtain ⟨c, tail, shape, stop, -⟩ := head_compact written
  rw [compactItems_cons, shape]
  rintro equal
  rw [(List.cons.inj equal).1] at stop
  cases stop

mutual

/-- **Texts that agree up to what stops them are texts of one value.** -/
theorem compact_append_inj (a b : Json) (rest rest' : List Char) (written : isWritten a = true)
    (written' : isWritten b = true) (stops : Stops rest) (stops' : Stops rest')
    (equal : compact a ++ rest = compact b ++ rest') : a = b ∧ rest = rest' := by
  have opens := opener_eq written written' equal
  by_cases atom : isAtom a = true
  · have atom' := isAtom_iff.mpr (opens ▸ isAtom_iff.mp atom)
    exact atom_append_inj atom atom' written written' stops stops' equal
  · match a, b with
    | .str text, .str text' =>
      obtain ⟨rfl, ends⟩ := printString_append_inj equal
      exact ⟨rfl, ends⟩
    | .arr items, .arr items' =>
      obtain ⟨rfl, ends⟩ := compactItems_append_inj items items' rest rest' written written'
        (List.cons.inj equal).2
      exact ⟨rfl, ends⟩
    | .obj members, .obj members' =>
      obtain ⟨rfl, ends⟩ := compactMembers_append_inj members members' rest rest' written
        written' (List.cons.inj equal).2
      exact ⟨rfl, ends⟩

theorem compactItems_append_inj (items items' : List Json) (rest rest' : List Char)
    (written : areWritten items = true) (written' : areWritten items' = true)
    (equal : compactItems items ++ rest = compactItems items' ++ rest') :
    items = items' ∧ rest = rest' := by
  match items, items' with
  | [], [] => exact ⟨rfl, (List.cons.inj equal).2⟩
  | [], item :: _ =>
    rw [areWritten, Bool.and_eq_true] at written'
    exact absurd equal.symm (compactItems_ne_end written'.1 _ _)
  | item :: _, [] =>
    rw [areWritten, Bool.and_eq_true] at written
    exact absurd equal (compactItems_ne_end written.1 _ _)
  | item :: items, item' :: items' =>
    rw [areWritten, Bool.and_eq_true] at written written'
    rw [compactItems_cons, compactItems_cons, List.append_assoc, List.append_assoc] at equal
    obtain ⟨rfl, after⟩ := compact_append_inj item item' _ _ written.1 written'.1
      (stops_itemsAfter _ _) (stops_itemsAfter _ _) equal
    match items, items' with
    | [], [] => exact ⟨rfl, (List.cons.inj after).2⟩
    | [], _ :: _ => exact absurd (List.cons.inj after).1 (by decide)
    | _ :: _, [] => exact absurd (List.cons.inj after).1 (by decide)
    | next :: items, next' :: items' =>
      obtain ⟨tails, ends⟩ := compactItems_append_inj (next :: items) (next' :: items') rest
        rest' written.2 written'.2 (List.cons.inj after).2
      exact ⟨congrArg _ tails, ends⟩

theorem compactMembers_append_inj (members members' : List (List Char × Json))
    (rest rest' : List Char) (written : membersAreWritten members = true)
    (written' : membersAreWritten members' = true)
    (equal : compactMembers members ++ rest = compactMembers members' ++ rest') :
    members = members' ∧ rest = rest' := by
  match members, members' with
  | [], [] => exact ⟨rfl, (List.cons.inj equal).2⟩
  | [], (_, _) :: _ =>
    rw [compactMembers_cons] at equal
    exact absurd (List.cons.inj equal).1 (by decide)
  | (_, _) :: _, [] =>
    rw [compactMembers_cons] at equal
    exact absurd (List.cons.inj equal).1 (by decide)
  | (key, value) :: members, (key', value') :: members' =>
    rw [membersAreWritten, Bool.and_eq_true] at written written'
    rw [compactMembers_cons, compactMembers_cons, List.append_assoc, List.append_assoc,
      List.cons_append, List.cons_append, List.append_assoc, List.append_assoc] at equal
    obtain ⟨rfl, colon⟩ := printString_append_inj equal
    obtain ⟨rfl, after⟩ := compact_append_inj value value' _ _ written.1 written'.1
      (stops_membersAfter _ _) (stops_membersAfter _ _) (List.cons.inj colon).2
    match members, members' with
    | [], [] => exact ⟨rfl, (List.cons.inj after).2⟩
    | [], _ :: _ => exact absurd (List.cons.inj after).1 (by decide)
    | _ :: _, [] => exact absurd (List.cons.inj after).1 (by decide)
    | next :: members, next' :: members' =>
      obtain ⟨tails, ends⟩ := compactMembers_append_inj (next :: members) (next' :: members')
        rest rest' written.2 written'.2 (List.cons.inj after).2
      exact ⟨congrArg _ tails, ends⟩

end

theorem compact_inj (written : isWritten a = true) (written' : isWritten b = true)
    (equal : compact a = compact b) : a = b := by
  have texts : compact a ++ [] = compact b ++ [] := by rw [List.append_nil, List.append_nil, equal]
  exact (compact_append_inj a b [] [] written written' (.inl rfl) (.inl rfl) texts).1

/-! ## Members in the order of their names -/

mutual

/-- The members of every object in the order of their names. -/
def sortKeys : Json → Json
  | .arr items => .arr (sortKeysItems items)
  | .obj members =>
    .obj ((sortKeysMembers members).insertionSort fun a b => a.1 ≤ b.1)
  | value => value

def sortKeysItems : List Json → List Json
  | [] => []
  | item :: items => sortKeys item :: sortKeysItems items

def sortKeysMembers : List (List Char × Json) → List (List Char × Json)
  | [] => []
  | (key, value) :: members => (key, sortKeys value) :: sortKeysMembers members

end

mutual

theorem isWritten_sortKeys (value : Json) (written : isWritten value = true) :
    isWritten (sortKeys value) = true := by
  match value with
  | .arr items => exact areWritten_sortKeysItems items written
  | .obj members =>
    rw [sortKeys, isWritten, membersAreWritten_iff]
    intro entry member
    rw [List.mem_insertionSort] at member
    exact membersAreWritten_iff.mp (membersAreWritten_sortKeysMembers members written) entry member
  | .null => rfl
  | .bool _ => rfl
  | .int _ => rfl
  | .float _ => exact written
  | .str _ => rfl

theorem areWritten_sortKeysItems (items : List Json) (written : areWritten items = true) :
    areWritten (sortKeysItems items) = true := by
  match items with
  | [] => rfl
  | item :: items =>
    rw [areWritten, Bool.and_eq_true] at written
    rw [sortKeysItems, areWritten, isWritten_sortKeys item written.1,
      areWritten_sortKeysItems items written.2]
    rfl

theorem membersAreWritten_sortKeysMembers (members : List (List Char × Json))
    (written : membersAreWritten members = true) :
    membersAreWritten (sortKeysMembers members) = true := by
  match members with
  | [] => rfl
  | (key, value) :: members =>
    rw [membersAreWritten, Bool.and_eq_true] at written
    rw [sortKeysMembers, membersAreWritten, isWritten_sortKeys value written.1,
      membersAreWritten_sortKeysMembers members written.2]
    rfl

end

theorem membersArePlain_iff :
    membersArePlain members = true ↔ ∀ entry ∈ members, isPlain entry.2 = true := by
  induction members with
  | nil => simp [membersArePlain]
  | cons entry members ih =>
    obtain ⟨key, value⟩ := entry
    simp [membersArePlain, ih]

mutual

theorem isPlain_sortKeys (value : Json) (plain : isPlain value = true) :
    isPlain (sortKeys value) = true := by
  match value with
  | .arr items => exact arePlain_sortKeysItems items plain
  | .obj members =>
    rw [sortKeys, isPlain, membersArePlain_iff]
    intro entry member
    rw [List.mem_insertionSort] at member
    exact membersArePlain_iff.mp (membersArePlain_sortKeysMembers members plain) entry member
  | .null => rfl
  | .bool _ => rfl
  | .int _ => rfl
  | .float _ => exact plain
  | .str _ => rfl

theorem arePlain_sortKeysItems (items : List Json) (plain : arePlain items = true) :
    arePlain (sortKeysItems items) = true := by
  match items with
  | [] => rfl
  | item :: items =>
    rw [arePlain, Bool.and_eq_true] at plain
    rw [sortKeysItems, arePlain, isPlain_sortKeys item plain.1,
      arePlain_sortKeysItems items plain.2]
    rfl

theorem membersArePlain_sortKeysMembers (members : List (List Char × Json))
    (plain : membersArePlain members = true) :
    membersArePlain (sortKeysMembers members) = true := by
  match members with
  | [] => rfl
  | (key, value) :: members =>
    rw [membersArePlain, Bool.and_eq_true] at plain
    rw [sortKeysMembers, membersArePlain, isPlain_sortKeys value plain.1,
      membersArePlain_sortKeysMembers members plain.2]
    rfl

end

/-- An entry put in its place is found first of its name. -/
theorem lookup_orderedInsert (entry : List Char × Json) (key : List Char)
    (members : List (List Char × Json)) :
    (members.orderedInsert (fun a b => a.1 ≤ b.1) entry).lookup key =
      (entry :: members).lookup key := by
  induction members with
  | nil => rfl
  | cons other rest ih =>
    rw [List.orderedInsert_cons]
    split_ifs with before
    · rfl
    · have apart : entry.1 ≠ other.1 := fun same => before (same ▸ le_refl _)
      rw [List.lookup_cons, ih, List.lookup_cons, List.lookup_cons, List.lookup_cons]
      by_cases here : key = entry.1
      · subst here
        rw [beq_self_eq_true, beq_eq_false_iff_ne.mpr apart]
      · rw [beq_eq_false_iff_ne.mpr here]

theorem lookup_insertionSort (key : List Char) (members : List (List Char × Json)) :
    (members.insertionSort fun a b => a.1 ≤ b.1).lookup key = members.lookup key := by
  induction members with
  | nil => rfl
  | cons entry rest ih =>
    rw [List.insertionSort_cons, lookup_orderedInsert, List.lookup_cons, List.lookup_cons, ih]

theorem lookup_sortKeysMembers (key : List Char) (members : List (List Char × Json)) :
    (sortKeysMembers members).lookup key = (members.lookup key).map sortKeys := by
  induction members with
  | nil => rfl
  | cons entry rest ih =>
    rw [sortKeysMembers, List.lookup_cons, List.lookup_cons, ih]
    by_cases here : key = entry.1
    · rw [here, beq_self_eq_true]
      rfl
    · rw [beq_eq_false_iff_ne.mpr here]

theorem sortKeys_obj_inj (equal : sortKeys (.obj members) = sortKeys (.obj others)) (key : String) :
    (get? members key).map sortKeys = (get? others key).map sortKeys := by
  have lists := congrArg (List.lookup key.toList) (Json.obj.inj equal)
  rwa [lookup_insertionSort, lookup_insertionSort, lookup_sortKeysMembers,
    lookup_sortKeysMembers] at lists

/-- **The canonical text of an object shows every member.** -/
theorem get?_of_canonical_eq (written : isWritten (.obj members) = true)
    (written' : isWritten (.obj others) = true)
    (equal : compact (sortKeys (.obj members)) = compact (sortKeys (.obj others))) (key : String) :
    (get? members key).map sortKeys = (get? others key).map sortKeys :=
  sortKeys_obj_inj (compact_inj (isWritten_sortKeys _ written) (isWritten_sortKeys _ written')
    equal) key

end Json

end AxiomEncode.Theory
