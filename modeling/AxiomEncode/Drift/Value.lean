/-
# Drift.Value -- documents and their JSON

What `yaml.safe_load` returns, with texts of code points.  `toJson` is the value that
`json.dumps(value, sort_keys=True, default=str)` writes, `Json.dumps` its text, and `Json.reload` what
`json.loads` makes of the text: dictionaries again, with the two halves of a surrogate pair read as
one character.
-/
import AxiomEncode.Theory.Checks
import AxiomEncode.Theory.CodePoints
import AxiomEncode.Theory.Tree
import AxiomEncode.Theory.TypedYaml
import Mathlib.Data.List.Lex
import Mathlib.Data.List.Sort

namespace AxiomEncode.Drift

set_option autoImplicit false

open Theory CodePoints
open Typed (Double)

inductive Scalar where
  | null
  | bool (value : Bool)
  | int (value : Int)
  | float (value : Double)
  | text (chars : Text)
  | bytes (octets : List Nat)
  | date (date : Date)
  /-- The microseconds of a timestamp in its day, and how far it is ahead if a zone is given. -/
  | time (date : Date) (clock : Int) (ahead : Option Int)
  deriving DecidableEq

abbrev Value := Theory.Tree Scalar

abbrev Members := List (Scalar × Value)

/-- What the interpreter writes of a value: `str(value)` of a float, of bytes, a date or a set, none
where it raises, and the message of the error with which it refuses one. -/
structure Interpreter where
  str : Value → Option Text
  refusal : Value → Text

/-! ## Texts of scalars -/

/-- `str(value)` of an integer: 4300 digits at most. -/
def intText (value : Int) : Option Text :=
  if value.natAbs < 10 ^ 4300 then some (codes (toString value)) else none

/-- `str(value)` -/
def Scalar.str (interpreter : Interpreter) : Scalar → Option Text
  | .null => some (codes "None")
  | .bool value => some (codes (if value then "True" else "False"))
  | .int value => intText value
  | .text chars => some chars
  | value => interpreter.str (.leaf value)

/-- A float in JSON. -/
def floatText (interpreter : Interpreter) : Double → Option Text
  | .inf => some (codes "Infinity")
  | .negInf => some (codes "-Infinity")
  | .nan => some (codes "NaN")
  | value => interpreter.str (.leaf (.float value))

/-- A key in JSON. -/
def keyText (interpreter : Interpreter) : Scalar → Option Text
  | .null => some (codes "null")
  | .bool value => some (codes (if value then "true" else "false"))
  | .int value => intText value
  | .float value => floatText interpreter value
  | .text chars => some chars
  | _ => none

/-! ## The order of keys -/

/-- Keys of one of these kinds can be ordered. -/
inductive KeyKind where
  | number | text | bytes | date | naiveTime | awareTime
  deriving DecidableEq

def Scalar.keyKind : Scalar → Option KeyKind
  | .null => none
  | .bool _ | .int _ | .float _ => some .number
  | .text _ => some .text
  | .bytes _ => some .bytes
  | .date _ => some .date
  | .time _ _ none => some .naiveTime
  | .time _ _ (some _) => some .awareTime

/-- `sorted(keys)` raises no error. -/
def sortable : List Scalar → Bool
  | [] => true
  | [_] => true
  | key :: keys => key.keyKind.isSome && keys.all fun other => other.keyKind = key.keyKind

/-- The place of a number: below all, at a value, above all. -/
def Scalar.place : Scalar → Option (Int × ℚ)
  | .bool value => some (0, if value then 1 else 0)
  | .int value => some (0, value)
  | .float (.finite value) => some (0, value)
  | .float .negZero => some (0, 0)
  | .float .inf => some (1, 0)
  | .float .negInf => some (-1, 0)
  | _ => none

/-- `key < other`, of numbers and of texts -/
def Scalar.before : Scalar → Scalar → Bool
  | .text chars, .text chars' => chars < chars'
  | key, other =>
    match key.place, other.place with
    | some (side, value), some (side', value') => side < side' || (side = side' && value < value')
    | _, _ => false

/-! ## JSON -/

inductive Json where
  | null
  | bool (value : Bool)
  | int (value : Int)
  | float (text : Text)
  | str (text : Text)
  | arr (items : List Json)
  | obj (members : List (Text × Json))

/-- The value of a scalar: what is neither text, number, truth value nor null is written as a text. -/
def Scalar.toJson (interpreter : Interpreter) (value : Scalar) : Except Text Json :=
  let refused : Except Text Json := .error (interpreter.refusal (.leaf value))
  match value with
  | .null => .ok .null
  | .bool value => .ok (.bool value)
  | .int value => if (intText value).isSome then .ok (.int value) else refused
  | .float value => ((floatText interpreter value).map fun text => .ok (.float text)).getD refused
  | .text chars => .ok (.str chars)
  | _ => ((interpreter.str (.leaf value)).map fun text => .ok (.str text)).getD refused

mutual

/-- The value that `json.dumps(value, sort_keys=True, default=str)` writes. -/
def toJson (interpreter : Interpreter) : Value → Except Text Json
  | .leaf value => value.toJson interpreter
  | .seq items => do
    let items ← itemsToJson interpreter items
    .ok (.arr items)
  | .map members => do
    let entries ← membersToJson interpreter members
    if sortable (members.map Prod.fst) then
      .ok (.obj ((entries.insertionSort fun a b => !b.1.before a.1).map Prod.snd))
    else .error (interpreter.refusal (.map members))
  | .set members =>
    match interpreter.str (.set members) with
    | some text => .ok (.str text)
    | none => .error (interpreter.refusal (.set members))
  | .tuple first second => do
    let first ← toJson interpreter first
    let second ← toJson interpreter second
    .ok (.arr [first, second])

def itemsToJson (interpreter : Interpreter) : List Value → Except Text (List Json)
  | [] => .ok []
  | item :: items => do
    let item ← toJson interpreter item
    let items ← itemsToJson interpreter items
    .ok (item :: items)

/-- The members under their keys, with the keys as they are written. -/
def membersToJson (interpreter : Interpreter) : Members → Except Text (List (Scalar × Text × Json))
  | [] => .ok []
  | (key, value) :: members => do
    let text ← match keyText interpreter key with
      | some text => .ok text
      | none => .error (interpreter.refusal (.leaf key))
    let value ← toJson interpreter value
    let members ← membersToJson interpreter members
    .ok ((key, text, value) :: members)

end

namespace Json

/-- A digit of a `\u` escape. -/
def hexChar (digit : Nat) : Nat := if digit < 10 then 48 + digit else 87 + digit

/-- `\uXXXX` -/
def unicodeEscape (code : Nat) : Text :=
  codes "\\u" ++ (List.range 4).reverse.map fun i => hexChar (code / 16 ^ i % 16)

/-- A character of a string, in ASCII. -/
def escape (c : Nat) : Text :=
  if c = 34 then codes "\\\""
  else if c = 92 then codes "\\\\"
  else if c = 10 then codes "\\n"
  else if c = 13 then codes "\\r"
  else if c = 9 then codes "\\t"
  else if c = 12 then codes "\\f"
  else if c = 8 then codes "\\b"
  else if 32 ≤ c ∧ c ≤ 126 then [c]
  else if c < 0x10000 then unicodeEscape c
  else unicodeEscape (0xD800 + (c - 0x10000) / 0x400) ++
    unicodeEscape (0xDC00 + (c - 0x10000) % 0x400)

def dumpsString (text : Text) : Text := codes "\"" ++ text.flatMap escape ++ codes "\""

mutual

/-- `json.dumps(value)` -/
def dumps : Json → Text
  | .null => codes "null"
  | .bool value => codes (if value then "true" else "false")
  | .int value => codes (toString value)
  | .float text => text
  | .str text => dumpsString text
  | .arr items => codes "[" ++ (codes ", ").intercalate (dumpsItems items) ++ codes "]"
  | .obj members => codes "\x7b" ++ (codes ", ").intercalate (dumpsMembers members) ++ codes "\x7d"

def dumpsItems : List Json → List Text
  | [] => []
  | item :: items => dumps item :: dumpsItems items

def dumpsMembers : List (Text × Json) → List Text
  | [] => []
  | (key, value) :: members =>
    (dumpsString key ++ codes ": " ++ dumps value) :: dumpsMembers members

end

/-! ## Reading a text back -/

/-- The halves of surrogate pairs, joined. -/
def joinSurrogates : Text → Text
  | high :: low :: text =>
    if 0xD800 ≤ high ∧ high < 0xDC00 ∧ 0xDC00 ≤ low ∧ low < 0xE000 then
      (0x10000 + (high - 0xD800) * 0x400 + (low - 0xDC00)) :: joinSurrogates text
    else high :: joinSurrogates (low :: text)
  | text => text

/-- A dictionary with a key set: where the key stands, or at the end. -/
def setMember (members : List (Text × Json)) (key : Text) (value : Json) : List (Text × Json) :=
  if members.any fun member => member.1 = key then
    members.map fun member => if member.1 = key then (key, value) else member
  else members ++ [(key, value)]

mutual

/-- `json.loads(json.dumps(value))` -/
def reload : Json → Json
  | .str text => .str (joinSurrogates text)
  | .arr items => .arr (reloadItems items)
  | .obj members =>
    .obj ((reloadMembers members).foldl (fun dict member => setMember dict member.1 member.2) [])
  | value => value

def reloadItems : List Json → List Json
  | [] => []
  | item :: items => reload item :: reloadItems items

def reloadMembers : List (Text × Json) → List (Text × Json)
  | [] => []
  | (key, value) :: members => (joinSurrogates key, reload value) :: reloadMembers members

end

mutual

/-- The value that `json.dumps(value, sort_keys=True)` writes. -/
def sortKeys : Json → Json
  | .arr items => .arr (sortKeysItems items)
  | .obj members => .obj ((sortKeysMembers members).insertionSort fun a b => a.1 ≤ b.1)
  | value => value

def sortKeysItems : List Json → List Json
  | [] => []
  | item :: items => sortKeys item :: sortKeysItems items

def sortKeysMembers : List (Text × Json) → List (Text × Json)
  | [] => []
  | (key, value) :: members => (key, sortKeys value) :: sortKeysMembers members

end

mutual

/-- `json.dumps` raises no error: no integer has more digits than `str` writes. -/
def encodable : Json → Bool
  | .int value => (intText value).isSome
  | .arr items => encodableItems items
  | .obj members => encodableMembers members
  | _ => true

def encodableItems : List Json → Bool
  | [] => true
  | item :: items => encodable item && encodableItems items

def encodableMembers : List (Text × Json) → Bool
  | [] => true
  | (_, value) :: members => encodable value && encodableMembers members

end

mutual

/-- What `json.loads` returns: the keys of an object are different, the halves of surrogate pairs are
joined, and numbers are in ASCII. -/
def isLoaded : Json → Bool
  | .float text => text.all (· < 0x80)
  | .str text => joinSurrogates text = text
  | .arr items => isLoadedItems items
  | .obj members => decide (members.map Prod.fst).Nodup && isLoadedMembers members
  | _ => true

def isLoadedItems : List Json → Bool
  | [] => true
  | item :: items => isLoaded item && isLoadedItems items

def isLoadedMembers : List (Text × Json) → Bool
  | [] => true
  | (key, value) :: members =>
    joinSurrogates key = key && isLoaded value && isLoadedMembers members

end

/-- `mapping.get(name)`, where a missing member is none -/
def get? (members : List (Text × Json)) (name : String) : Option Json :=
  members.lookup (codes name)

/-! ## What is kept -/

/-- Induction with all values of an array or object at once. -/
theorem induction {motive : Json → Prop} (null : motive .null) (bool : ∀ value, motive (.bool value))
    (int : ∀ value, motive (.int value)) (float : ∀ text, motive (.float text))
    (str : ∀ text, motive (.str text)) (arr : ∀ items, (∀ item ∈ items, motive item) → motive (.arr items))
    (obj : ∀ members : List (Text × Json), (∀ member ∈ members, motive member.2) →
      motive (.obj members)) : ∀ value, motive value := by
  intro value
  refine Json.rec (motive_1 := motive) (motive_2 := fun items => ∀ item ∈ items, motive item)
    (motive_3 := fun members => ∀ member ∈ members, motive member.2)
    (motive_4 := fun member => motive member.2)
    null bool int float str arr obj ?_ ?_ ?_ ?_ ?_ value
  · simp
  · intro item items holds rest
    exact List.forall_mem_cons.mpr ⟨holds, rest⟩
  · simp
  · intro member members holds rest
    exact List.forall_mem_cons.mpr ⟨holds, rest⟩
  · intro key value holds
    exact holds

section Kept

variable {text key : Text} {value : Json} {items : List Json} {members dict : List (Text × Json)}

theorem encodableItems_iff : encodableItems items = true ↔ ∀ item ∈ items, item.encodable = true := by
  induction items with
  | nil => simp [encodableItems]
  | cons item items ih => rw [encodableItems, Bool.and_eq_true, ih, List.forall_mem_cons]

theorem encodableMembers_iff :
    encodableMembers members = true ↔ ∀ member ∈ members, member.2.encodable = true := by
  induction members with
  | nil => simp [encodableMembers]
  | cons member members ih => rw [encodableMembers, Bool.and_eq_true, ih, List.forall_mem_cons]

theorem reloadItems_eq_map : reloadItems items = items.map reload := by
  induction items with
  | nil => rfl
  | cons item items ih => rw [reloadItems, ih, List.map_cons]

theorem reloadMembers_eq_map : reloadMembers members =
    members.map fun member => (joinSurrogates member.1, reload member.2) := by
  induction members with
  | nil => rfl
  | cons member members ih => rw [reloadMembers, ih, List.map_cons]

theorem sortKeysItems_eq_map : sortKeysItems items = items.map sortKeys := by
  induction items with
  | nil => rfl
  | cons item items ih => rw [sortKeysItems, ih, List.map_cons]

theorem sortKeysMembers_eq_map : sortKeysMembers members =
    members.map fun member => (member.1, sortKeys member.2) := by
  induction members with
  | nil => rfl
  | cons member members ih => rw [sortKeysMembers, ih, List.map_cons]

variable {member : Text × Json} {name : String}

theorem mem_setMember (isMember : member ∈ setMember dict key value) :
    member = (key, value) ∨ member ∈ dict := by
  unfold setMember at isMember
  split_ifs at isMember with held
  · obtain ⟨before, listed, rfl⟩ := List.mem_map.mp isMember
    split_ifs
    · exact .inl rfl
    · exact .inr listed
  · rcases List.mem_append.mp isMember with before | isLast
    · exact .inr before
    · exact .inl (List.mem_singleton.mp isLast)

/-- A dictionary holds only members that were set. -/
theorem mem_foldl_setMember
    (isMember : member ∈ members.foldl (fun dict member => setMember dict member.1 member.2) dict) :
    member ∈ members ∨ member ∈ dict := by
  induction members generalizing dict with
  | nil => exact .inr isMember
  | cons first members ih =>
    rw [List.foldl_cons] at isMember
    rcases ih isMember with later | before
    · exact .inl (List.mem_cons_of_mem _ later)
    · rcases mem_setMember before with rfl | before
      · exact .inl List.mem_cons_self
      · exact .inr before

theorem encodable_reload (value : Json) (encodes : value.encodable = true) :
    value.reload.encodable = true := by
  induction value using induction with
  | null | bool value | int value | float text => exact encodes
  | str text => rfl
  | arr items ih =>
    rw [encodable, encodableItems_iff] at encodes
    rw [reload, encodable, reloadItems_eq_map, encodableItems_iff, List.forall_mem_map]
    exact fun item listed => ih item listed (encodes item listed)
  | obj members ih =>
    rw [encodable, encodableMembers_iff] at encodes
    rw [reload, encodable, reloadMembers_eq_map, encodableMembers_iff]
    intro member isMember
    rcases mem_foldl_setMember isMember with listed | none
    · obtain ⟨before, isBefore, rfl⟩ := List.mem_map.mp listed
      exact ih before isBefore (encodes before isBefore)
    · exact absurd none List.not_mem_nil

theorem encodable_sortKeys (value : Json) (encodes : value.encodable = true) :
    value.sortKeys.encodable = true := by
  induction value using induction with
  | null | bool value | int value | float text | str text => exact encodes
  | arr items ih =>
    rw [encodable, encodableItems_iff] at encodes
    rw [sortKeys, encodable, sortKeysItems_eq_map, encodableItems_iff, List.forall_mem_map]
    exact fun item listed => ih item listed (encodes item listed)
  | obj members ih =>
    rw [encodable, encodableMembers_iff] at encodes
    rw [sortKeys, encodable, sortKeysMembers_eq_map, encodableMembers_iff]
    intro member isMember
    obtain ⟨before, isBefore, rfl⟩ := List.mem_map.mp ((List.mem_insertionSort _).mp isMember)
    exact ih before isBefore (encodes before isBefore)

/-! ## Objects that stay -/

/-- No half of a surrogate pair. -/
def Joined (text : Text) : Prop := ∀ c ∈ text, c < 0xD800 ∨ 0xDFFF < c

instance (text : Text) : Decidable (Joined text) := inferInstanceAs (Decidable (∀ c ∈ text, _))

theorem joinSurrogates_of_joined (joined : Joined text) : joinSurrogates text = text := by
  induction text using joinSurrogates.induct with
  | case1 high low text pair ih =>
    have apart := joined high List.mem_cons_self
    omega
  | case2 high low text notPair ih =>
    rw [joinSurrogates, if_neg notPair, ih fun c listed => joined c (List.mem_cons_of_mem _ listed)]
  | case3 text short => rw [joinSurrogates.eq_2 text short]

theorem foldl_setMember_of_nodup (distinct : (dict.map Prod.fst ++ members.map Prod.fst).Nodup) :
    members.foldl (fun dict member => setMember dict member.1 member.2) dict = dict ++ members := by
  induction members generalizing dict with
  | nil => rw [List.append_nil, List.foldl_nil]
  | cons member members ih =>
    have fresh : dict.any (fun before => before.1 = member.1) = false := by
      rw [List.any_eq_false]
      intro before listed
      rw [decide_eq_true_eq]
      exact fun same => (List.nodup_append.mp distinct).2.2 before.1
        (List.mem_map_of_mem listed) member.1 (by simp) same
    have appended : setMember dict member.1 member.2 = dict ++ [member] := by
      rw [setMember, fresh]
      rfl
    rw [List.foldl_cons, appended, ih (by simpa using distinct), List.append_assoc]
    rfl

/-- An object stays an object with its keys. -/
theorem reload_obj {keys : List Text} (named : members.map Prod.fst = keys) (distinct : keys.Nodup)
    (joined : ∀ key ∈ keys, Joined key) :
    reload (.obj members) = .obj (members.map fun member => (member.1, reload member.2)) := by
  subst named
  have reloaded : reloadMembers members = members.map fun member => (member.1, reload member.2) := by
    rw [reloadMembers_eq_map]
    refine List.map_congr_left fun member listed => ?_
    rw [joinSurrogates_of_joined (joined member.1 (List.mem_map_of_mem listed))]
  have still : ((([] : List (Text × Json)).map Prod.fst) ++
      (members.map fun member => (member.1, reload member.2)).map Prod.fst).Nodup := by
    rw [List.map_map]
    exact distinct
  rw [reload, reloaded, foldl_setMember_of_nodup still, List.nil_append]

theorem reload_str (joined : Joined text) : reload (.str text) = .str text := by
  rw [reload, joinSurrogates_of_joined joined]

/-! ## Members by their names -/

theorem get?_cons_self (name : String) (value : Json) (members : List (Text × Json)) :
    get? ((codes name, value) :: members) name = some value :=
  List.lookup_cons_self

theorem get?_cons_of_ne {other : String} (different : codes name ≠ codes other) (value : Json)
    (members : List (Text × Json)) :
    get? ((codes other, value) :: members) name = get? members name := by
  rw [get?, List.lookup_cons, beq_eq_false_iff_ne.mpr different]
  rfl

/-! ## Values that `json.loads` returned -/

end Kept

end Json

section Written

variable {interpreter : Interpreter} {written : Json}

theorem exists_of_getD {text : Option Text} {f : Text → Json} {refusal : Text}
    (equation : ((text.map fun chars => .ok (f chars)).getD (.error refusal) : Except Text Json) =
      .ok written) : ∃ chars, written = f chars := by
  cases text with
  | none => cases equation
  | some chars => exact ⟨chars, (Except.ok.inj equation).symm⟩

theorem Scalar.encodable_toJson {value : Scalar} (equation : value.toJson interpreter = .ok written) :
    written.encodable = true := by
  cases value with
  | null | bool value | text chars =>
    cases equation
    rfl
  | int value =>
    unfold Scalar.toJson at equation
    dsimp only at equation
    split_ifs at equation with short
    cases equation
    exact short
  | float value | bytes value | date value | time date clock ahead =>
    obtain ⟨chars, rfl⟩ := exists_of_getD equation
    rfl

theorem exists_of_itemsToJson {items : List Value} {jsons : List Json}
    (equation : itemsToJson interpreter items = .ok jsons) :
    ∀ json ∈ jsons, ∃ item ∈ items, toJson interpreter item = .ok json := by
  induction items generalizing jsons with
  | nil =>
    cases equation
    exact fun _ none => absurd none List.not_mem_nil
  | cons item items ih =>
    obtain ⟨json, first, equation⟩ := bind_eq_ok_iff.mp equation
    obtain ⟨rest, later, equation⟩ := bind_eq_ok_iff.mp equation
    cases equation
    refine List.forall_mem_cons.mpr ⟨⟨item, List.mem_cons_self, first⟩, fun json listed => ?_⟩
    obtain ⟨item, isItem, same⟩ := ih later json listed
    exact ⟨item, List.mem_cons_of_mem _ isItem, same⟩

theorem exists_of_membersToJson {members : Members} {entries : List (Scalar × Text × Json)}
    (equation : membersToJson interpreter members = .ok entries) :
    ∀ entry ∈ entries, ∃ member ∈ members, toJson interpreter member.2 = .ok entry.2.2 := by
  induction members generalizing entries with
  | nil =>
    cases equation
    exact fun _ none => absurd none List.not_mem_nil
  | cons member members ih =>
    obtain ⟨key, value⟩ := member
    rw [membersToJson] at equation
    cases written : keyText interpreter key with
    | none =>
      rw [written] at equation
      cases equation
    | some text =>
      rw [written] at equation
      obtain ⟨chars, -, equation⟩ := bind_eq_ok_iff.mp equation
      obtain ⟨json, first, equation⟩ := bind_eq_ok_iff.mp equation
      obtain ⟨rest, later, equation⟩ := bind_eq_ok_iff.mp equation
      cases equation
      refine List.forall_mem_cons.mpr ⟨⟨(key, value), List.mem_cons_self, first⟩, ?_⟩
      intro entry listed
      obtain ⟨member, isMember, same⟩ := ih later entry listed
      exact ⟨member, List.mem_cons_of_mem _ isMember, same⟩

/-- What is written can be written again. -/
theorem encodable_toJson (value : Value) (equation : toJson interpreter value = .ok written) :
    written.encodable = true := by
  induction value using Tree.induction generalizing written with
  | leaf value =>
    rw [toJson] at equation
    exact Scalar.encodable_toJson equation
  | seq items ih =>
    obtain ⟨jsons, each, equation⟩ := bind_eq_ok_iff.mp equation
    cases equation
    rw [Json.encodable, Json.encodableItems_iff]
    intro json listed
    obtain ⟨item, isItem, same⟩ := exists_of_itemsToJson each json listed
    exact ih item isItem same
  | map members ih =>
    obtain ⟨entries, each, equation⟩ := bind_eq_ok_iff.mp equation
    split_ifs at equation with ordered
    cases equation
    rw [Json.encodable, Json.encodableMembers_iff]
    intro json listed
    obtain ⟨entry, isEntry, rfl⟩ := List.mem_map.mp listed
    obtain ⟨member, isMember, same⟩ :=
      exists_of_membersToJson each entry ((List.mem_insertionSort _).mp isEntry)
    exact ih member isMember same
  | set members =>
    rw [toJson] at equation
    cases text : interpreter.str (.set members) with
    | none =>
      rw [text] at equation
      cases equation
    | some chars =>
      rw [text] at equation
      cases equation
      rfl
  | tuple first second ihFirst ihSecond =>
    obtain ⟨json, one, equation⟩ := bind_eq_ok_iff.mp equation
    obtain ⟨other, two, equation⟩ := bind_eq_ok_iff.mp equation
    cases equation
    rw [Json.encodable, Json.encodableItems_iff, List.forall_mem_cons, List.forall_mem_singleton]
    exact ⟨ihFirst one, ihSecond two⟩

end Written

end AxiomEncode.Drift
