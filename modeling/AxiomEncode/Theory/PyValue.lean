/-
# Theory.PyValue -- decoded values as Python compares and updates them

A dictionary is the list of its members, the first of a name counts.  `Json.same` is
`==` of two decoded values: dictionaries are compared by what they hold under each
name, a truth value and a whole float as the integer they equal.  `Json.set` and
`Json.pop` are item assignment and `pop`, and `Json.value` is `get`, where a missing
member and `null` are both `None`.
-/
import AxiomEncode.Theory.PyText
import Mathlib.Data.Char
import Mathlib.Data.List.Lex

namespace AxiomEncode.Theory

set_option autoImplicit false

namespace Json

/-! ## Equality of values is decided -/

mutual

def beq : Json → Json → Bool
  | .null, .null => true
  | .bool a, .bool b => a == b
  | .int a, .int b => a == b
  | .float a, .float b => a == b
  | .str a, .str b => a == b
  | .arr a, .arr b => beqItems a b
  | .obj a, .obj b => beqMembers a b
  | _, _ => false

def beqItems : List Json → List Json → Bool
  | [], [] => true
  | a :: as, b :: bs => beq a b && beqItems as bs
  | _, _ => false

def beqMembers : List (List Char × Json) → List (List Char × Json) → Bool
  | [], [] => true
  | (key, a) :: as, (key', b) :: bs => key == key' && beq a b && beqMembers as bs
  | _, _ => false

end

mutual

theorem beq_iff : ∀ a b : Json, beq a b = true ↔ a = b
  | .null, b => by cases b <;> simp [beq]
  | .bool _, b => by cases b <;> simp [beq]
  | .int _, b => by cases b <;> simp [beq]
  | .float _, b => by cases b <;> simp [beq]
  | .str _, b => by cases b <;> simp [beq]
  | .arr items, b => by cases b <;> simp [beq, beqItems_iff items]
  | .obj members, b => by cases b <;> simp [beq, beqMembers_iff members]

theorem beqItems_iff : ∀ as bs : List Json, beqItems as bs = true ↔ as = bs
  | [], bs => by cases bs <;> simp [beqItems]
  | a :: as, bs => by cases bs <;> simp [beqItems, beq_iff a, beqItems_iff as]

theorem beqMembers_iff : ∀ as bs : List (List Char × Json), beqMembers as bs = true ↔ as = bs
  | [], bs => by cases bs <;> simp [beqMembers]
  | (key, a) :: as, bs => by
    rcases bs with _ | ⟨⟨key', b⟩, bs⟩
    · simp [beqMembers]
    · simp [beqMembers, beq_iff a, beqMembers_iff as, and_assoc]

end

instance : DecidableEq Json := fun a b => decidable_of_iff _ (beq_iff a b)

/-! ## The normal form of a value -/

/-- Insertion into members in the order of their names; a name is written over. -/
def insertMember (key : List Char) (value : Json) :
    List (List Char × Json) → List (List Char × Json)
  | [] => [(key, value)]
  | (other, held) :: rest =>
    if key < other then (key, value) :: (other, held) :: rest
    else if key = other then (key, value) :: rest
    else (other, held) :: insertMember key value rest

/-- The digits of a numeral. -/
def wholeDigits (text : List Char) : Option Nat :=
  if text.isEmpty || !(text.all fun c => '0' ≤ c && c ≤ '9') then none
  else some (text.foldl (fun value c => 10 * value + (c.toNat - 48)) 0)

/-- The integer that a float equals, read off its `repr`. -/
def wholeFloat (text : List Char) : Option Int :=
  if ['.', '0'].isSuffixOf text then
    match text.take (text.length - 2) with
    | '-' :: digits => (wholeDigits digits).map fun value => -Int.ofNat value
    | digits => (wholeDigits digits).map Int.ofNat
  else none

mutual

def normal : Json → Json
  | .bool value => .int (if value then 1 else 0)
  | .float text => ((wholeFloat text).map Json.int).getD (.float text)
  | .arr items => .arr (normalItems items)
  | .obj members => .obj (normalMembers members)
  | value => value

def normalItems : List Json → List Json
  | [] => []
  | item :: items => normal item :: normalItems items

def normalMembers : List (List Char × Json) → List (List Char × Json)
  | [] => []
  | (key, value) :: members => insertMember key (normal value) (normalMembers members)

end

/-- `a == b` -/
def same (a b : Json) : Bool := decide (normal a = normal b)

variable {a : Json} {text : List Char}

theorem same_iff {b : Json} : same a b = true ↔ normal a = normal b := decide_eq_true_iff

@[simp] theorem same_refl (a : Json) : same a a = true := same_iff.mpr rfl

theorem same_trans {b c : Json} (first : same a b = true) (second : same b c = true) :
    same a c = true :=
  same_iff.mpr ((same_iff.mp first).trans (same_iff.mp second))

/-- Only a text equals a text. -/
@[simp] theorem normal_eq_str : normal a = .str text ↔ a = .str text := by
  cases a with
  | float number =>
    simp only [normal, reduceCtorEq, iff_false]
    cases wholeFloat number <;> simp
  | _ => simp [normal]

@[simp] theorem same_str : same a (.str text) = true ↔ a = .str text := by
  rw [same_iff, ← normal_eq_str]
  exact Iff.rfl

@[simp] theorem normal_eq_null : normal a = .null ↔ a = .null := by
  cases a with
  | float number =>
    simp only [normal, reduceCtorEq, iff_false]
    cases wholeFloat number <;> simp
  | _ => simp [normal]

@[simp] theorem normal_int (value : Int) : normal (.int value) = .int value := by simp [normal]

/-! ## Dictionaries are equal when they hold equal values -/

section Members

variable {key name : List Char} {value : Json} {members others : List (List Char × Json)}

theorem lookup_insertMember :
    (insertMember key value members).lookup name =
      if name = key then some value else members.lookup name := by
  induction members with
  | nil =>
    rw [insertMember]
    by_cases here : name = key
    · simp [here]
    · have apart : (name == key) = false := by simpa using here
      simp [List.lookup_cons, apart, here]
  | cons member rest ih =>
    obtain ⟨other, held⟩ := member
    rw [insertMember]
    by_cases here : name = key
    · subst here
      rw [if_pos rfl]
      split_ifs with before equal
      · simp
      · simp
      · have apart : (name == other) = false := by simpa using equal
        rw [List.lookup_cons, apart, ih, if_pos rfl]
    · have apart : (name == key) = false := by simpa using here
      rw [if_neg here]
      split_ifs with before equal
      · rw [List.lookup_cons, apart]
      · subst equal
        rw [List.lookup_cons, apart, List.lookup_cons, apart]
      · rw [List.lookup_cons, List.lookup_cons]
        cases name == other
        · rw [ih, if_neg here]
        · rfl

/-- The members in strict order of their names. -/
def Ordered (members : List (List Char × Json)) : Prop :=
  members.Pairwise fun a b => a.1 < b.1

theorem mem_insertMember {member : List Char × Json}
    (inside : member ∈ insertMember key value members) :
    member = (key, value) ∨ member ∈ members := by
  induction members with
  | nil => exact .inl (List.mem_singleton.mp inside)
  | cons head rest ih =>
    obtain ⟨other, held⟩ := head
    rw [insertMember] at inside
    split_ifs at inside with before equal
    · exact List.mem_cons.mp inside
    · rcases List.mem_cons.mp inside with rfl | later
      · exact .inl rfl
      · exact .inr (List.mem_cons_of_mem _ later)
    · rcases List.mem_cons.mp inside with rfl | later
      · exact .inr List.mem_cons_self
      · exact (ih later).imp id (List.mem_cons_of_mem _)

theorem ordered_insertMember (ordered : Ordered members) :
    Ordered (insertMember key value members) := by
  induction members with
  | nil => exact List.pairwise_singleton _ _
  | cons head rest ih =>
    obtain ⟨other, held⟩ := head
    obtain ⟨first, tail⟩ := List.pairwise_cons.mp ordered
    rw [insertMember]
    split_ifs with before equal
    · refine List.pairwise_cons.mpr ⟨fun member inside => ?_, ordered⟩
      rcases List.mem_cons.mp inside with rfl | later
      · exact before
      · exact lt_trans before (first member later)
    · subst equal
      exact List.pairwise_cons.mpr ⟨first, tail⟩
    · refine List.pairwise_cons.mpr ⟨fun member inside => ?_, ih tail⟩
      rcases mem_insertMember inside with rfl | later
      · exact lt_of_le_of_ne (not_lt.mp before) (Ne.symm equal)
      · exact first member later

theorem lookup_normalMembers :
    (normalMembers members).lookup name = (members.lookup name).map normal := by
  induction members with
  | nil => rw [normalMembers]; rfl
  | cons member rest ih =>
    obtain ⟨key, value⟩ := member
    rw [normalMembers, lookup_insertMember, ih, List.lookup_cons]
    by_cases here : name = key
    · simp [here]
    · have apart : (name == key) = false := by simpa using here
      rw [if_neg here, apart]

theorem ordered_normalMembers : Ordered (normalMembers members) := by
  induction members with
  | nil => rw [normalMembers]; exact .nil
  | cons member rest ih =>
    obtain ⟨key, value⟩ := member
    rw [normalMembers]
    exact ordered_insertMember ih

theorem lookup_head {entry : List Char × Json} {rest : List (List Char × Json)} :
    (entry :: rest).lookup entry.1 = some entry.2 := List.lookup_cons_self

theorem lookup_eq_none_of_lt (least : ∀ member ∈ members, name < member.1) :
    members.lookup name = none := by
  induction members with
  | nil => rfl
  | cons member rest ih =>
    have apart : (name == member.1) = false := by
      simpa using (least member List.mem_cons_self).ne
    rw [List.lookup_cons, apart]
    exact ih fun other inside => least other (List.mem_cons_of_mem _ inside)

/-- Ordered members are known by what they hold under each name. -/
theorem Ordered.ext (ordered : Ordered members) (ordered' : Ordered others)
    (holds : ∀ name, members.lookup name = others.lookup name) : members = others := by
  induction members generalizing others with
  | nil =>
    cases others with
    | nil => rfl
    | cons other rest => simpa [lookup_head] using holds other.1
  | cons member rest ih =>
    obtain ⟨least, tail⟩ := List.pairwise_cons.mp ordered
    cases others with
    | nil => simpa [lookup_head] using holds member.1
    | cons other rest' =>
      obtain ⟨least', tail'⟩ := List.pairwise_cons.mp ordered'
      -- each head is the least name of the other list
      have names : member.1 = other.1 := by
        rcases lt_trichotomy member.1 other.1 with before | equal | after
        · have none_ : (other :: rest').lookup member.1 = none := by
            refine lookup_eq_none_of_lt fun entry inside => ?_
            rcases List.mem_cons.mp inside with rfl | later
            · exact before
            · exact lt_trans before (least' entry later)
          have found := holds member.1
          rw [none_, lookup_head] at found
          cases found
        · exact equal
        · have none_ : (member :: rest).lookup other.1 = none := by
            refine lookup_eq_none_of_lt fun entry inside => ?_
            rcases List.mem_cons.mp inside with rfl | later
            · exact after
            · exact lt_trans after (least entry later)
          have found := holds other.1
          rw [none_, lookup_head] at found
          cases found
      have values : member.2 = other.2 := by
        have found := holds member.1
        rw [lookup_head, names, lookup_head] at found
        exact Option.some.inj found
      have rests : rest = rest' := by
        refine ih tail tail' fun name => ?_
        have found := holds name
        rw [List.lookup_cons, List.lookup_cons, names] at found
        by_cases here : name = other.1
        · rw [lookup_eq_none_of_lt fun entry inside => ?_,
            lookup_eq_none_of_lt fun entry inside => ?_]
          · exact here ▸ least' entry inside
          · exact here ▸ names ▸ least entry inside
        · have apart : (name == other.1) = false := by simpa using here
          rwa [apart] at found
      rw [rests, Prod.ext names values]

/-- **Two dictionaries are equal when they hold equal values under every name.** -/
theorem same_obj_iff :
    same (.obj members) (.obj others) = true ↔
      ∀ name, (members.lookup name).map normal = (others.lookup name).map normal := by
  rw [same_iff, normal, normal, Json.obj.injEq]
  constructor
  · intro equal name
    rw [← lookup_normalMembers, equal, lookup_normalMembers]
  · intro holds
    refine ordered_normalMembers.ext ordered_normalMembers fun name => ?_
    rw [lookup_normalMembers, lookup_normalMembers, holds]

end Members

/-! ## Reading and updating members -/

/-- `mapping.get(key)`, where `null` is `None` too. -/
def value (members : List (List Char × Json)) (key : String) : Json :=
  (get? members key).getD .null

/-- `mapping[key] = value` -/
def set (members : List (List Char × Json)) (key : String) (value : Json) :
    List (List Char × Json) :=
  if (get? members key).isSome then
    members.map fun member => if member.1 = key.toList then (member.1, value) else member
  else members ++ [(key.toList, value)]

/-- `mapping.pop(key, None)` -/
def pop (members : List (List Char × Json)) (key : String) : List (List Char × Json) :=
  members.filter fun member => member.1 ≠ key.toList

theorem same_obj_iff_get? {members others : List (List Char × Json)} :
    same (.obj members) (.obj others) = true ↔
      ∀ key, (get? members key).map normal = (get? others key).map normal := by
  rw [same_obj_iff]
  constructor
  · exact fun holds key => holds key.toList
  · intro holds name
    have here := holds (String.ofList name)
    rwa [get?, get?, String.toList_ofList] at here

section Update

variable {members others : List (List Char × Json)} {key name : String} {held : Json}

theorem lookup_map_replace {key name : List Char} :
    (members.map fun member => if member.1 = key then (member.1, held) else member).lookup name =
      if name = key then (members.lookup key).map fun _ => held else members.lookup name := by
  induction members with
  | nil => simp
  | cons member rest ih =>
    obtain ⟨other, own⟩ := member
    simp only [List.map_cons]
    by_cases replaced : other = key
    · subst replaced
      by_cases here : name = other
      · simp [here]
      · have apart : (name == other) = false := by simpa using here
        rw [if_pos rfl, List.lookup_cons, apart, ih, if_neg here, if_neg here, List.lookup_cons, apart]
    · have apart : (key == other) = false := by simpa using Ne.symm replaced
      rw [if_neg replaced, List.lookup_cons, ih]
      by_cases here : name = key
      · subst here
        simp [List.lookup_cons, apart]
      · rw [if_neg here, if_neg here, List.lookup_cons]

theorem lookup_append_single {key name : List Char} (fresh : members.lookup key = none) :
    (members ++ [(key, held)]).lookup name =
      if name = key then some held else members.lookup name := by
  induction members with
  | nil =>
    rw [List.nil_append]
    by_cases here : name = key
    · simp [here]
    · have apart : (name == key) = false := by simpa using here
      simp [List.lookup_cons, apart, here]
  | cons member rest ih =>
    obtain ⟨other, own⟩ := member
    rw [List.lookup_cons] at fresh
    by_cases equal : key = other
    · simp [equal] at fresh
    · have apart : (key == other) = false := by simpa using equal
      rw [apart] at fresh
      rw [List.cons_append, List.lookup_cons, ih fresh, List.lookup_cons]
      by_cases here : name = key
      · subst here
        simp [apart]
      · simp [here]

theorem get?_set :
    get? (set members key held) name = if name = key then some held else get? members name := by
  have names : name.toList = key.toList ↔ name = key := String.toList_inj
  unfold set get?
  cases found : members.lookup key.toList with
  | none =>
    rw [Option.isSome_none, if_neg Bool.false_ne_true, lookup_append_single found]
    simp only [names]
  | some old =>
    rw [Option.isSome_some, if_pos rfl, lookup_map_replace, found]
    simp only [names, Option.map_some]

@[simp] theorem get?_set_self : get? (set members key held) key = some held := by
  rw [get?_set, if_pos rfl]

theorem get?_set_ne (other : name ≠ key) : get? (set members key held) name = get? members name := by
  rw [get?_set, if_neg other]

theorem lookup_filter_ne {key name : List Char} :
    (members.filter fun member => member.1 ≠ key).lookup name =
      if name = key then none else members.lookup name := by
  induction members with
  | nil => simp
  | cons member rest ih =>
    obtain ⟨other, own⟩ := member
    by_cases dropped : other = key
    · subst dropped
      rw [List.filter_cons_of_neg (by simp), ih, List.lookup_cons]
      by_cases here : name = other
      · simp [here]
      · have apart : (name == other) = false := by simpa using here
        rw [apart]
    · rw [List.filter_cons_of_pos (by simpa using dropped), List.lookup_cons, ih, List.lookup_cons]
      by_cases here : name = key
      · subst here
        have apart : (name == other) = false := by simpa using Ne.symm dropped
        simp [apart]
      · simp [here]

theorem get?_pop :
    get? (pop members key) name = if name = key then none else get? members name := by
  have names : name.toList = key.toList ↔ name = key := String.toList_inj
  unfold pop get?
  rw [lookup_filter_ne]
  simp only [names]

@[simp] theorem get?_pop_self : get? (pop members key) key = none := by
  rw [get?_pop, if_pos rfl]

theorem get?_pop_ne (other : name ≠ key) : get? (pop members key) name = get? members name := by
  rw [get?_pop, if_neg other]

theorem value_congr (found : get? members name = get? others name) :
    value members name = value others name := by
  rw [value, value, found]

theorem value_set_self : value (set members key held) key = held := by
  rw [value, get?_set_self, Option.getD_some]

theorem value_set_ne (other : name ≠ key) : value (set members key held) name = value members name :=
  value_congr (get?_set_ne other)

theorem value_pop_self : value (pop members key) key = .null := by
  rw [value, get?_pop_self, Option.getD_none]

theorem value_pop_ne (other : name ≠ key) : value (pop members key) name = value members name :=
  value_congr (get?_pop_ne other)

/-- Equal dictionaries hold equal values. -/
theorem same_value (equal : same (.obj members) (.obj others) = true) :
    normal (value members name) = normal (value others name) := by
  have holds := same_obj_iff.mp equal name.toList
  unfold value get?
  cases found : members.lookup name.toList <;> cases found' : others.lookup name.toList <;>
    simp_all

end Update

end Json

end AxiomEncode.Theory
