/-
# Theory.PyText -- the text functions of Python

Texts are lists of Unicode scalar values.  `isSpace` is `str.isspace` of one
character, and `strip`, `stripChars` and `splitlines` are the methods of `str`;
`split` on one separator is `List.splitOn`.  `Json` is what `json.loads` returns
`utf8` is `str.encode` and `decodeUtf8` is `bytes.decode`.
-/
import Mathlib.Algebra.Ring.Int.Defs
import Mathlib.Algebra.Ring.Nat
import Mathlib.Data.Char
import Mathlib.Data.List.DropRight
import Mathlib.Data.List.Infix
import Mathlib.Data.List.Lex
import Mathlib.Tactic.Common

namespace AxiomEncode.Theory

set_option autoImplicit false

instance lawfulBEqText : LawfulBEq (List Char) := List.instLawfulBEq

/-- The whitespace of `str.isspace` and `str.strip`. -/
def isSpace (c : Char) : Bool :=
  let code := c.toNat
  (9 ≤ code && code ≤ 13) || (28 ≤ code && code ≤ 32) || code == 0x85 || code == 0xA0 ||
    code == 0x1680 || (0x2000 ≤ code && code ≤ 0x200A) || code == 0x2028 || code == 0x2029 ||
    code == 0x202F || code == 0x205F || code == 0x3000

/-- `text.strip(chars)` for the characters that satisfy `drop`. -/
def stripChars (drop : Char → Bool) (text : List Char) : List Char :=
  text.dropWhile drop |>.rdropWhile drop

def strip (text : List Char) : List Char := stripChars isSpace text

/-- Dropping at the end does not bare what is dropped at the start. -/
theorem dropWhile_rdropWhile {α : Type} (drop : α → Bool) (list : List α) :
    ((list.dropWhile drop).rdropWhile drop).dropWhile drop = (list.dropWhile drop).rdropWhile drop := by
  rw [List.dropWhile_eq_self_iff]
  intro nonempty
  have isPrefix := List.rdropWhile_prefix drop (list.dropWhile drop)
  have longer : 0 < (list.dropWhile drop).length := lt_of_lt_of_le nonempty isPrefix.length_le
  rw [isPrefix.getElem nonempty]
  exact List.dropWhile_get_zero_not drop list longer

theorem dropWhile_stripChars (drop : Char → Bool) (text : List Char) :
    (stripChars drop text).dropWhile drop = stripChars drop text :=
  dropWhile_rdropWhile drop text

variable {drop : Char → Bool}

theorem stripChars_eq_self {text : List Char} (first : ∀ c, text.head? = some c → drop c = false)
    (last : ∀ c, text.getLast? = some c → drop c = false) : stripChars drop text = text := by
  have front : text.dropWhile drop = text := by
    cases text with
    | nil => rfl
    | cons c rest => rw [List.dropWhile_cons_of_neg (by simpa using first c rfl)]
  unfold stripChars
  rw [front, List.rdropWhile_eq_self_iff]
  intro nonempty
  simpa using last _ (List.getLast?_eq_getLast_of_ne_nil nonempty)

@[simp] theorem stripChars_stripChars (drop : Char → Bool) (text : List Char) :
    stripChars drop (stripChars drop text) = stripChars drop text := by
  have once := dropWhile_stripChars drop text
  unfold stripChars at once ⊢
  rw [once, List.rdropWhile_idempotent]

theorem length_stripChars_le (drop : Char → Bool) (text : List Char) :
    (stripChars drop text).length ≤ text.length := by
  unfold stripChars
  exact le_trans (List.rdropWhile_prefix drop _).length_le (List.dropWhile_suffix drop).length_le

/-- A text that ends in what is stripped gets shorter. -/
theorem length_stripChars_lt {drop : Char → Bool} {text : List Char} {c : Char}
    (last : text.getLast? = some c) (dropped : drop c = true) :
    (stripChars drop text).length < text.length := by
  obtain ⟨start, rfl⟩ : ∃ start, text = start ++ [c] := List.getLast?_eq_some_iff.mp last
  have shorter : (stripChars drop (start ++ [c])).length ≤ start.length := by
    unfold stripChars
    rw [List.dropWhile_append]
    split_ifs with all
    · simp [dropped]
    · rw [List.rdropWhile_concat_pos drop _ c dropped]
      exact le_trans (List.rdropWhile_prefix drop _).length_le (List.dropWhile_suffix drop).length_le
  simp only [List.length_append, List.length_singleton]
  omega

/-- Stripped text is stripped. -/
@[simp] theorem strip_strip (text : List Char) : strip (strip text) = strip text :=
  stripChars_stripChars isSpace text

/-- The line boundaries of `str.splitlines`. -/
def isLineBreak (c : Char) : Bool :=
  let code := c.toNat
  (10 ≤ code && code ≤ 13) || (28 ≤ code && code ≤ 30) || code == 0x85 || code == 0x2028 ||
    code == 0x2029

/-- `text.splitlines()`; `line` holds what was read of the current line. -/
def splitlinesFrom (line : List Char) : List Char → List (List Char)
  | [] => if line.isEmpty then [] else [line]
  | '\r' :: '\n' :: rest => line :: splitlinesFrom [] rest
  | c :: rest =>
    if isLineBreak c then line :: splitlinesFrom [] rest else splitlinesFrom (line ++ [c]) rest

def splitlines (text : List Char) : List (List Char) := splitlinesFrom [] text

section Lines

variable {line part rest : List Char} {c : Char}

/-- Characters that no line ends at. -/
def Unbroken (text : List Char) : Prop := ∀ c ∈ text, isLineBreak c = false

instance (text : List Char) : Decidable (Unbroken text) := List.decidableBAll _ text

theorem splitlinesFrom_unbroken (unbroken : Unbroken part) :
    splitlinesFrom line (part ++ rest) = splitlinesFrom (line ++ part) rest := by
  induction part generalizing line with
  | nil => rw [List.nil_append, List.append_nil]
  | cons c part ih =>
    have kept := unbroken c List.mem_cons_self
    rw [List.cons_append, splitlinesFrom, if_neg (by rw [kept]; decide),
      ih fun d member => unbroken d (List.mem_cons_of_mem _ member), List.append_assoc]
    · rfl
    · rintro _ rfl
      cases kept

/-- A line ends at the first line break; CR LF is one. -/
theorem splitlines_break (unbroken : Unbroken part) (ends : isLineBreak c = true)
    (single : c ≠ '\r' ∨ rest.head? ≠ some '\n') :
    splitlines (part ++ c :: rest) = part :: splitlines rest := by
  unfold splitlines
  rw [splitlinesFrom_unbroken unbroken, List.nil_append, splitlinesFrom, if_pos ends]
  rintro tail rfl rfl
  rcases single with other | other
  · exact other rfl
  · exact other rfl

theorem splitlines_crlf (unbroken : Unbroken part) :
    splitlines (part ++ '\r' :: '\n' :: rest) = part :: splitlines rest := by
  unfold splitlines
  rw [splitlinesFrom_unbroken unbroken, List.nil_append, splitlinesFrom]

theorem exists_splitlines_break (unbroken : Unbroken part) (ends : isLineBreak c = true) :
    ∃ later, splitlines (part ++ c :: rest) = part :: splitlines later := by
  by_cases pair : c = '\r' ∧ rest.head? = some '\n'
  · obtain ⟨rfl, first⟩ := pair
    obtain ⟨tail, rfl⟩ := List.head?_eq_some_iff.mp first
    exact ⟨tail, splitlines_crlf unbroken⟩
  · exact ⟨rest, splitlines_break unbroken ends (not_and_or.mp pair)⟩

theorem exists_first_break {text : List Char} (broken : ¬ Unbroken text) :
    ∃ part c rest, text = part ++ c :: rest ∧ Unbroken part ∧ isLineBreak c = true := by
  induction text with
  | nil => exact absurd (fun _ member => (nomatch member)) broken
  | cons c text ih =>
    cases ends : isLineBreak c with
    | true => exact ⟨[], c, text, rfl, fun _ member => (nomatch member), ends⟩
    | false =>
      have later : ¬ Unbroken text := fun unbroken =>
        broken (List.forall_mem_cons.mpr ⟨ends, unbroken⟩)
      obtain ⟨part, d, rest, rfl, unbroken, breaks⟩ := ih later
      exact ⟨c :: part, d, rest, rfl, List.forall_mem_cons.mpr ⟨ends, unbroken⟩, breaks⟩

theorem mem_of_mem_splitlinesFrom {text : List Char} (member : part ∈ splitlinesFrom line text) :
    ∀ d ∈ part, d ∈ line ∨ d ∈ text := by
  intro d inside
  induction line, text using splitlinesFrom.induct with
  | case1 line empty =>
    rw [splitlinesFrom, if_pos empty] at member
    cases member
  | case2 line some_ =>
    rw [splitlinesFrom, if_neg some_] at member
    cases List.mem_singleton.mp member
    exact .inl inside
  | case3 line text ih =>
    rw [splitlinesFrom] at member
    rcases List.mem_cons.mp member with rfl | later
    · exact .inl inside
    · have tail := (ih later).resolve_left (by simp)
      exact .inr (List.mem_cons_of_mem _ (List.mem_cons_of_mem _ tail))
  | case4 line c text pair ends ih =>
    rw [splitlinesFrom, if_pos ends] at member
    · rcases List.mem_cons.mp member with rfl | later
      · exact .inl inside
      · exact .inr (List.mem_cons_of_mem _ ((ih later).resolve_left (by simp)))
    · exact pair
  | case5 line c text pair kept ih =>
    rw [splitlinesFrom, if_neg kept] at member
    · rcases ih member with earlier | later
      · rcases List.mem_append.mp earlier with older | last
        · exact .inl older
        · rw [List.mem_singleton.mp last]
          exact .inr List.mem_cons_self
      · exact .inr (List.mem_cons_of_mem _ later)
    · exact pair

/-- The characters of a line stand in the text. -/
theorem mem_of_mem_splitlines {text : List Char} (member : part ∈ splitlines text) : part ⊆ text :=
  fun d inside => (mem_of_mem_splitlinesFrom member d inside).resolve_left (by simp)

theorem strip_of_all {text : List Char} (blank : ∀ d ∈ text, isSpace d = true) :
    strip text = [] := by
  unfold strip stripChars
  rw [List.dropWhile_eq_nil_iff.mpr blank]
  rfl

theorem strip_ne_nil {text : List Char} (member : c ∈ text) (visible : isSpace c = false) :
    strip text ≠ [] := by
  have kept : ∀ {text : List Char}, c ∈ text → c ∈ text.dropWhile isSpace := by
    intro text member
    rw [← List.takeWhile_append_dropWhile (p := isSpace) (l := text), List.mem_append] at member
    refine member.resolve_left fun taken => ?_
    cases (List.mem_takeWhile_imp taken).symm.trans visible
  apply List.ne_nil_of_mem (a := c)
  unfold strip stripChars List.rdropWhile
  rw [List.mem_reverse]
  exact kept (List.mem_reverse.mpr (kept member))

end Lines

/-- `text.encode("utf-8")` -/
def utf8 (text : List Char) : List UInt8 := text.flatMap String.utf8EncodeChar

/-- `raw.decode("utf-8")`, nothing if the bytes are no UTF-8. -/
def decodeUtf8 (raw : List UInt8) : Option (List Char) :=
  raw.toByteArray.utf8Decode?.map Array.toList

theorem decodeUtf8_utf8 (text : List Char) : decodeUtf8 (utf8 text) = some text := by
  unfold decodeUtf8 utf8
  have decoded := List.utf8Decode?_utf8Encode (l := text)
  unfold List.utf8Encode at decoded
  rw [decoded]
  rfl

theorem utf8_injective : Function.Injective utf8 := by
  intro first second same
  have := congrArg decodeUtf8 same
  rwa [decodeUtf8_utf8, decodeUtf8_utf8, Option.some.injEq] at this

theorem utf8EncodeChar_append_inj {c d : Char} {rest rest' : List UInt8}
    (same : String.utf8EncodeChar c ++ rest = String.utf8EncodeChar d ++ rest') : c = d := by
  have first := ByteArray.utf8DecodeChar?_utf8EncodeChar_append (b := rest.toByteArray) (c := c)
  have second := ByteArray.utf8DecodeChar?_utf8EncodeChar_append (b := rest'.toByteArray) (c := d)
  rw [← List.toByteArray_append, same, List.toByteArray_append, second] at first
  exact (Option.some.inj first).symm

/-- A text whose bytes begin another's begins it. -/
theorem exists_append_of_utf8 {text whole : List Char} {rest : List UInt8}
    (same : utf8 text ++ rest = utf8 whole) : ∃ more, whole = text ++ more := by
  induction text generalizing whole with
  | nil => exact ⟨whole, rfl⟩
  | cons c text ih =>
    cases whole with
    | nil =>
      have shown := congrArg List.length same
      have := String.length_utf8EncodeChar c
      have := Char.utf8Size_pos c
      simp [utf8] at shown
      omega
    | cons d whole =>
      rw [utf8, utf8, List.flatMap_cons, List.flatMap_cons, List.append_assoc] at same
      obtain rfl := utf8EncodeChar_append_inj same
      obtain ⟨more, rfl⟩ := ih (List.append_cancel_left same)
      exact ⟨more, rfl⟩

/-! ## Joining and splitting at a separator -/

theorem mem_intercalate_of {α : Type} {sep : List α} {x : α} {parts : List (List α)}
    (member : x ∈ sep.intercalate parts) : x ∈ sep ∨ ∃ part ∈ parts, x ∈ part := by
  induction parts with
  | nil => simp at member
  | cons part rest ih =>
    cases rest with
    | nil =>
      rw [List.intercalate_singleton] at member
      exact .inr ⟨part, List.mem_cons_self, member⟩
    | cons next rest =>
      rw [List.intercalate_cons_cons, List.mem_append, List.mem_append] at member
      rcases member with (here | separator) | later
      · exact .inr ⟨part, List.mem_cons_self, here⟩
      · exact .inl separator
      · rcases ih later with separator | ⟨other, member, inside⟩
        · exact .inl separator
        · exact .inr ⟨other, List.mem_cons_of_mem _ member, inside⟩

theorem mem_intercalate {α : Type} {sep x : α} {parts : List (List α)}
    (member : x ∈ [sep].intercalate parts) : x = sep ∨ ∃ part ∈ parts, x ∈ part :=
  (mem_intercalate_of member).imp_left List.mem_singleton.mp

theorem exists_intercalate_cons {α : Type} (sep : α) (part : List α) (rest : List (List α)) :
    ∃ tail, [sep].intercalate (part :: rest) = part ++ tail := by
  cases rest with
  | nil => exact ⟨[], by rw [List.intercalate_singleton, List.append_nil]⟩
  | cons next rest =>
    exact ⟨_, by rw [List.intercalate_cons_cons, List.append_assoc]⟩

theorem not_mem_of_mem_splitOnPPrepend {α : Type} {p : α → Bool} {xs acc part : List α}
    (before : ∀ x ∈ acc, p x = false) (member : part ∈ List.splitOnPPrepend p xs acc) :
    ∀ x ∈ part, p x = false := by
  induction xs generalizing acc with
  | nil =>
    rw [List.splitOnPPrepend_nil, List.mem_singleton] at member
    rw [member]
    exact fun x inside => before x (List.mem_reverse.mp inside)
  | cons x xs ih =>
    rw [List.splitOnPPrepend_cons_eq_if] at member
    split_ifs at member with sep
    · rcases List.mem_cons.mp member with rfl | later
      · exact fun x inside => before x (List.mem_reverse.mp inside)
      · exact @ih [] (by simp) later
    · refine @ih (x :: acc) ?_ member
      intro y inside
      rcases List.mem_cons.mp inside with rfl | earlier
      · simpa using sep
      · exact before y earlier

/-- No part holds the separator. -/
theorem not_mem_of_mem_splitOn {α : Type} [BEq α] [LawfulBEq α] {sep : α} {xs part : List α}
    (member : part ∈ xs.splitOn sep) : sep ∉ part := by
  intro inside
  have := @not_mem_of_mem_splitOnPPrepend _ (· == sep) _ [] _ (by simp) member sep inside
  simp at this

/-- What `json.loads` returns.  Of a float only its text is kept. -/
inductive Json where
  | null
  | bool (value : Bool)
  | int (value : Int)
  | float (text : List Char)
  | str (text : List Char)
  | arr (items : List Json)
  | obj (members : List (List Char × Json))

namespace Json

/-- `isinstance(value, str)` -/
def text? : Json → Option (List Char)
  | .str text => some text
  | _ => none

/-- `mapping.get(key)` -/
def get? (members : List (List Char × Json)) (key : String) : Option Json :=
  members.lookup key.toList

end Json

end AxiomEncode.Theory
