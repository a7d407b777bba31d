/-
# Theory.TypedYaml -- decoded YAML with the type of every value

What `yaml.safe_load` returns, exactly.  `Value.alike f` compares two values where scalars count
as `f` of them: with `Scalar.key` it is `==`, which takes `1`, `1.0` and `True` for one another, and with
`id` it is the comparison of the typed values (`Value.Same`).  The members of a mapping have no
order for it.
-/
import AxiomEncode.Theory.IsoDate
import Mathlib.Data.Rat.Defs
import Mathlib.Data.List.Nodup
import Mathlib.Tactic.Common

namespace AxiomEncode.Theory.Typed

set_option autoImplicit false

/-- A float. -/
inductive Double where
  | finite (value : ℚ)
  | negZero
  | inf
  | negInf
  | nan
  deriving DecidableEq

inductive Scalar where
  | null
  | bool (value : Bool)
  | int (value : Int)
  | float (value : Double)
  | text (chars : List Char)
  | bytes (octets : List Nat)
  | date (date : Date)
  /-- The microseconds of a timestamp in its day, and how far it is ahead if a zone is given. -/
  | time (date : Date) (clock : Int) (ahead : Option Int)
  deriving DecidableEq

/-- What `==` and `hash` see of a scalar. -/
inductive Key where
  | null
  | number (value : ℚ)
  | inf
  | negInf
  | nan
  | text (chars : List Char)
  | bytes (octets : List Nat)
  | date (date : Date)
  | clock (date : Date) (clock : Int)
  | instant (time : Int)
  deriving DecidableEq

def Scalar.key : Scalar → Key
  | null => .null
  | bool value => .number (if value then 1 else 0)
  | int value => .number value
  | float (.finite value) => .number value
  | float .negZero => .number 0
  | float .inf => .inf
  | float .negInf => .negInf
  | float .nan => .nan
  | text chars => .text chars
  | bytes octets => .bytes octets
  | date day => .date day
  | time day clock none => .clock day clock
  | time day clock (some ahead) =>
    .instant (toOrdinal day.year day.month day.day * 86400000000 + clock - ahead)

@[simp] theorem Scalar.key_text (chars : List Char) : (Scalar.text chars).key = .text chars := rfl

theorem Scalar.key_eq_text {key : Scalar} {chars : List Char} :
    key.key = .text chars ↔ key = .text chars := by
  constructor
  · intro same
    cases key with
    | text held => exact congrArg Scalar.text (Key.text.inj same)
    | float value => cases value <;> cases same
    | time date clock ahead => cases ahead <;> cases same
    | _ => cases same
  · rintro rfl
    rfl

inductive Value where
  | scalar (value : Scalar)
  | seq (items : List Value)
  | map (members : List (Scalar × Value))
  /-- `!!set` -/
  | set (members : List Scalar)
  /-- An entry of `!!omap` or `!!pairs`. -/
  | tuple (first second : Value)

abbrev Members := List (Scalar × Value)

/-- The types of the values. -/
inductive Kind where
  | none | bool | int | float | str | bytes | date | datetime | list | dict | set | tuple
  deriving DecidableEq

/-- `type(value)` -/
def Value.kind : Value → Kind
  | .scalar .null => .none
  | .scalar (.bool _) => .bool
  | .scalar (.int _) => .int
  | .scalar (.float _) => .float
  | .scalar (.text _) => .str
  | .scalar (.bytes _) => .bytes
  | .scalar (.date _) => .date
  | .scalar (.time _ _ _) => .datetime
  | .seq _ => .list
  | .map _ => .dict
  | .set _ => .set
  | .tuple _ _ => .tuple

namespace Value

/-- Induction with all values of a list or mapping at once. -/
theorem induction {motive : Value → Prop} (scalar : ∀ value, motive (.scalar value))
    (seq : ∀ items, (∀ item ∈ items, motive item) → motive (.seq items))
    (map : ∀ members : Members, (∀ member ∈ members, motive member.2) → motive (.map members))
    (set : ∀ members, motive (.set members))
    (tuple : ∀ first second, motive first → motive second → motive (.tuple first second)) :
    ∀ value, motive value := by
  intro value
  refine Value.rec (motive_1 := motive) (motive_2 := fun items => ∀ item ∈ items, motive item)
    (motive_3 := fun members => ∀ member ∈ members, motive member.2)
    (motive_4 := fun member => motive member.2)
    scalar seq map set tuple ?_ ?_ ?_ ?_ ?_ value
  · simp
  · intro item items holds rest
    simpa using ⟨holds, rest⟩
  · simp
  · intro member members holds rest
    exact List.forall_mem_cons.mpr ⟨holds, rest⟩
  · intro key value holds
    exact holds

variable {a b c : Value}

section Alike

variable {κ : Type} [DecidableEq κ] (f : Scalar → κ)

/-- The value under the first key that counts as `key`. -/
def lookupBy (key : Scalar) (members : Members) : Option Value :=
  (members.find? fun member => f member.1 = f key).map Prod.snd

/-- The keys of a list all count as keys of another. -/
def keysWithin (keys others : List Scalar) : Bool :=
  keys.all fun key => others.any fun other => f other = f key

mutual

def alike : Value → Value → Bool
  | .scalar a, .scalar b => f a = f b
  | .seq as, .seq bs => alikeItems as bs
  | .map as, .map bs => keysWithin f (bs.map Prod.fst) (as.map Prod.fst) && alikeMembers as bs
  | .set as, .set bs => keysWithin f as bs && keysWithin f bs as
  | .tuple a a', .tuple b b' => alike a b && alike a' b'
  | _, _ => false

def alikeItems : List Value → List Value → Bool
  | [], [] => true
  | a :: as, b :: bs => alike a b && alikeItems as bs
  | _, _ => false

/-- Every member has an alike one in a mapping. -/
def alikeMembers : Members → Members → Bool
  | [], _ => true
  | (key, a) :: as, bs =>
    (match lookupBy f key bs with
      | some b => alike a b
      | none => false) && alikeMembers as bs

end

variable {f}

/-! ## The comparison, by the members -/

theorem lookupBy_congr {key other : Scalar} (members : Members) (same : f key = f other) :
    lookupBy f key members = lookupBy f other members := by
  rw [lookupBy, lookupBy, same]

variable {members : Members} {value : Value}

theorem lookupBy_eq_some {key : Scalar} (found : lookupBy f key members = some value) :
    ∃ other, (other, value) ∈ members ∧ f other = f key := by
  obtain ⟨member, isMember, rfl⟩ := Option.map_eq_some_iff.mp found
  exact ⟨member.1, List.mem_of_find?_eq_some isMember, by simpa using List.find?_some isMember⟩

theorem lookupBy_isSome {key : Scalar} :
    (lookupBy f key members).isSome ↔ ∃ member ∈ members, f member.1 = f key := by
  simp [lookupBy]

theorem lookupBy_of_mem {key : Scalar} (distinct : (members.map fun member => f member.1).Nodup)
    (isMember : (key, value) ∈ members) :
    lookupBy f key members = some value := by
  induction members with
  | nil => cases isMember
  | cons member members ih =>
    rw [List.map_cons, List.nodup_cons] at distinct
    rcases List.mem_cons.mp isMember with rfl | isLater
    · simp [lookupBy]
    · have other : f member.1 ≠ f key := by
        intro same
        refine distinct.1 ?_
        rw [same]
        exact List.mem_map_of_mem (f := fun member => f member.1) isLater
      rw [lookupBy, List.find?_cons_of_neg (by simpa using other)]
      exact ih distinct.2 isLater

theorem keysWithin_iff {keys others : List Scalar} :
    keysWithin f keys others = true ↔ ∀ key ∈ keys, ∃ other ∈ others, f other = f key := by
  simp [keysWithin]

theorem alikeItems_iff : ∀ {as bs : List Value},
    alikeItems f as bs = true ↔ List.Forall₂ (fun a b => alike f a b = true) as bs
  | [], [] => by simp [alikeItems]
  | [], _ :: _ => by simp [alikeItems]
  | _ :: _, [] => by simp [alikeItems]
  | a :: as, b :: bs => by simp [alikeItems, alikeItems_iff]

theorem alikeMembers_iff {bs : Members} : ∀ {as : Members},
    alikeMembers f as bs = true
      ↔ ∀ member ∈ as, ∃ b, lookupBy f member.1 bs = some b ∧ alike f member.2 b = true
  | [] => by simp [alikeMembers]
  | (key, a) :: as => by
    rw [alikeMembers, Bool.and_eq_true, alikeMembers_iff, List.forall_mem_cons]
    refine and_congr_left' ?_
    cases lookupBy f key bs <;> simp

theorem keysWithin_trans {as bs cs : List Scalar} (first : keysWithin f as bs = true)
    (second : keysWithin f bs cs = true) : keysWithin f as cs = true := by
  rw [keysWithin_iff] at first second ⊢
  intro key declared
  obtain ⟨other, isOther, same⟩ := first key declared
  obtain ⟨third, isThird, same'⟩ := second other isOther
  exact ⟨third, isThird, same'.trans same⟩

theorem forall₂_trans {holds : Value → Value → Prop} {as : List Value}
    (trans : ∀ a ∈ as, ∀ b c, holds a b → holds b c → holds a c) :
    ∀ {bs cs : List Value}, List.Forall₂ holds as bs → List.Forall₂ holds bs cs →
      List.Forall₂ holds as cs := by
  induction as with
  | nil =>
    intro bs cs first second
    cases first
    exact second
  | cons a as ih =>
    intro bs cs first second
    cases first with
    | cons first rest =>
      cases second with
      | cons second rest' =>
        exact .cons (trans a List.mem_cons_self _ _ first second)
          (ih (fun a declared => trans a (List.mem_cons_of_mem _ declared)) rest rest')

/-- **The comparison is transitive.** -/
theorem alike_trans (first : alike f a b = true) (second : alike f b c = true) :
    alike f a c = true := by
  induction a using induction generalizing b c with
  | scalar a =>
    cases b <;> cases c <;> simp_all [alike]
  | seq as ih =>
    cases b <;> try cases first
    cases c <;> try cases second
    rw [alike, alikeItems_iff] at first second ⊢
    exact forall₂_trans (fun a declared b c => ih a declared) first second
  | map as ih =>
    cases b <;> try cases first
    cases c <;> try cases second
    rw [alike, Bool.and_eq_true, alikeMembers_iff] at first second ⊢
    refine ⟨keysWithin_trans second.1 first.1, fun member declared => ?_⟩
    obtain ⟨b, found, alike⟩ := first.2 member declared
    obtain ⟨key, isMember, same⟩ := lookupBy_eq_some found
    obtain ⟨c, found', alike'⟩ := second.2 (key, b) isMember
    exact ⟨c, (lookupBy_congr _ same.symm).trans found', ih member declared alike alike'⟩
  | set as =>
    cases b <;> try cases first
    cases c <;> try cases second
    rw [alike, Bool.and_eq_true] at first second ⊢
    exact ⟨keysWithin_trans first.1 second.1, keysWithin_trans second.2 first.2⟩
  | tuple a a' ih ih' =>
    cases b <;> try cases first
    cases c <;> try cases second
    rw [alike, Bool.and_eq_true] at first second ⊢
    exact ⟨ih first.1 second.1, ih' first.2 second.2⟩

end Alike

/-- `mapping[name]` -/
def get? (members : Members) (name : String) : Option Value :=
  lookupBy Scalar.key (.text name.toList) members

/-- `mapping.get(name)` -/
def field (members : Members) (name : String) : Value := (get? members name).getD (.scalar .null)

/-! ## Decoded values -/

/-- No two keys of a mapping, and no two members of a set, are equal. -/
inductive WellFormed : Value → Prop
  | scalar (value : Scalar) : WellFormed (.scalar value)
  | seq {items : List Value} (each : ∀ item ∈ items, WellFormed item) : WellFormed (.seq items)
  | map {members : Members} (distinct : (members.map fun member => member.1.key).Nodup)
      (each : ∀ member ∈ members, WellFormed member.2) : WellFormed (.map members)
  | set {members : List Scalar} (distinct : (members.map Scalar.key).Nodup) : WellFormed (.set members)
  | tuple {first second : Value} (left : WellFormed first) (right : WellFormed second) :
      WellFormed (.tuple first second)

/-- The same typed value, in whatever order mappings are written. -/
def Same (a b : Value) : Prop := alike id a b = true ∧ alike id b a = true

instance (a b : Value) : Decidable (Same a b) := inferInstanceAs (Decidable (_ ∧ _))

theorem Same.symm (same : Same a b) : Same b a := ⟨same.2, same.1⟩

theorem Same.trans (first : Same a b) (second : Same b c) : Same a c :=
  ⟨alike_trans first.1 second.1, alike_trans second.2 first.2⟩

theorem alike_refl (wellFormed : WellFormed a) : alike id a a = true := by
  induction wellFormed with
  | scalar value => simp [alike]
  | seq each ih =>
    rw [alike, alikeItems_iff, List.forall₂_same]
    exact ih
  | map distinct each ih =>
    rw [alike, Bool.and_eq_true, keysWithin_iff, alikeMembers_iff]
    refine ⟨fun key declared => ⟨key, declared, rfl⟩, fun member declared => ?_⟩
    refine ⟨member.2, lookupBy_of_mem ?_ declared, ih member declared⟩
    exact List.Nodup.of_map Scalar.key (by rwa [List.map_map])
  | set distinct => simp [alike, keysWithin]
  | tuple left right ih ih' => simp [alike, ih, ih']

theorem same_refl (wellFormed : WellFormed a) : Same a a :=
  ⟨alike_refl wellFormed, alike_refl wellFormed⟩

end Value

end AxiomEncode.Theory.Typed
