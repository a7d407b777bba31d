/-
# Numbers.CardinalSpec -- strict phrases are spellings, up to "zero"

`spell` writes a number below `10 ^ 12` in words.  `Phrase` is what the strict parser
accepts: groups below a thousand with strictly decreasing scales, where a group may be the
word "zero" or end in it.  A phrase without that word is the spelling of its value
(`Phrase.eq_spell`) and the lenient parser agrees on it (`Phrase.lenient`); with that word
it is no spelling at all.  A spelling that is written with spaces and hyphens has its own
words (`words_of_spelling`).
-/
import AxiomEncode.Numbers.Cardinal

namespace AxiomEncode.Numbers

open Theory

set_option autoImplicit false

/-! ## Spelling -/

def zero : Text := "zero".toList

/-- The word of a number that has one. -/
def wordOf (value : Nat) : Text :=
  ((cardinalWordValues.find? fun entry => entry.2 == value).map fun entry => entry.1.toList).getD []

def spellUnderHundred (n : Nat) : List Text :=
  if n = 0 then [] else if n < 20 ∨ n % 10 = 0 then [wordOf n] else [wordOf (n - n % 10), wordOf (n % 10)]

def spellUnderThousand (n : Nat) : List Text :=
  (if n / 100 = 0 then [] else [wordOf (n / 100), hundred]) ++ spellUnderHundred (n % 100)

/-- The scales, greatest first. -/
def scales : List (Nat × Text) :=
  [(1000000000, "billion".toList), (1000000, "million".toList), (1000, "thousand".toList)]

/-- The spelling of a number, with the scales that may be used. -/
def spellWith : List (Nat × Text) → Nat → List Text
  | [], n => spellUnderThousand n
  | (scale, word) :: smaller, n =>
    (if n / scale = 0 then [] else spellUnderThousand (n / scale) ++ [word]) ++
      spellWith smaller (n % scale)

/-- The conventional spelling of a number below `10 ^ 12`. -/
def spell (n : Nat) : List Text := spellWith scales n

example : spell 1005012 = ["one", "million", "five", "thousand", "twelve"].map String.toList := by
  decide

/-! ## Words -/

/-- The numbers that have a word. -/
def HasWord (value : Nat) : Prop := value < 20 ∨ isTens value = true

/-- What holds of every entry of the table of words. -/
theorem word_table : ∀ entry ∈ cardinalWordValues, entry.1.toList = wordOf entry.2 ∧ HasWord entry.2 ∧
    (entry.2 ≠ 0 → entry.1.toList ≠ zero) := by
  unfold HasWord
  decide

/-- Every number that has a word is read from it, and its word is no scale. -/
theorem words_read : ∀ value ∈ List.range 20 ++ [20, 30, 40, 50, 60, 70, 80, 90],
    cardinalValue (wordOf value) = some value ∧ scaleValue (wordOf value) = none := by
  decide

/-- What holds of every entry of the table of scales, of every scale, and of "hundred". -/
theorem scale_table :
    (∀ entry ∈ cardinalScaleWordValues, entry.2 ≠ 100 → (entry.2, entry.1.toList) ∈ scales) ∧
      (∀ entry ∈ scales, scaleValue entry.2 = some entry.1 ∧ cardinalValue entry.2 = none ∧
        entry.1 ≠ 100) ∧
      scaleValue hundred = some 100 ∧ cardinalValue hundred = none := by
  decide

variable {value scale total n current : Nat} {token word text : Text} {group tokens : List Text}
  {previous : Option Nat} {smaller larger : List (Nat × Text)}

theorem mem_of_hasWord (hasWord : HasWord value) :
    value ∈ List.range 20 ++ [20, 30, 40, 50, 60, 70, 80, 90] := by
  rcases hasWord with less | isTens_
  · exact List.mem_append_left _ (List.mem_range.mpr less)
  · exact List.mem_append_right _ (List.contains_iff_mem.mp isTens_)

theorem cardinalValue_eq_some (known : cardinalValue token = some value) :
    token = wordOf value ∧ HasWord value := by
  obtain ⟨entry, found, rfl⟩ := Option.map_eq_some_iff.mp known
  have spelled : entry.1.toList = token := by simpa using List.find?_some found
  obtain ⟨same, hasWord, -⟩ := word_table entry (List.mem_of_find?_eq_some found)
  exact ⟨spelled.symm.trans same, hasWord⟩

theorem mem_tens : isTens value = true ↔
    20 ≤ value ∧ value ≤ 90 ∧ value % 10 = 0 := by
  simp only [isTens, List.contains_cons, List.contains_nil, Bool.or_false, Bool.or_eq_true,
    beq_iff_eq]
  omega

theorem cardinalValue_wordOf {value : Nat} (hasWord : HasWord value) :
    cardinalValue (wordOf value) = some value :=
  (words_read value (mem_of_hasWord hasWord)).1

/-- No number word is a scale. -/
theorem scaleValue_of_cardinalValue (known : cardinalValue token = some value) :
    scaleValue token = none := by
  obtain ⟨rfl, hasWord⟩ := cardinalValue_eq_some known
  exact (words_read value (mem_of_hasWord hasWord)).2

theorem scaleValue_eq_some (known : scaleValue token = some scale) (notHundred : scale ≠ 100) :
    (scale, token) ∈ scales := by
  obtain ⟨entry, found, rfl⟩ := Option.map_eq_some_iff.mp known
  have spelled : entry.1.toList = token := by simpa using List.find?_some found
  rw [← spelled]
  exact scale_table.1 entry (List.mem_of_find?_eq_some found) notHundred

theorem scaleValue_of_mem (member : (scale, token) ∈ scales) :
    scaleValue token = some scale ∧ cardinalValue token = none ∧ scale ≠ 100 :=
  scale_table.2.1 (scale, token) member

theorem hundred_facts : scaleValue hundred = some 100 ∧ cardinalValue hundred = none :=
  scale_table.2.2

/-! ## The phrases of the strict parser -/

/-- What may stand behind the hundreds of a group, or alone: a word, "zero" among them, or
tens and units. -/
inductive UnderHundred : List Text → Nat → Prop
  | word {token : Text} {value : Nat} (known : cardinalValue token = some value) :
      UnderHundred [token] value
  | pair {first second : Text} {tens units : Nat} (knownTens : cardinalValue first = some tens)
      (knownUnits : cardinalValue second = some units) (isTens_ : isTens tens = true)
      (isUnits : 1 ≤ units ∧ units ≤ 9) : UnderHundred [first, second] (tens + units)

inductive UnderThousand : List Text → Nat → Prop
  | small {group : List Text} {value : Nat} (under : UnderHundred group value) :
      UnderThousand group value
  | hundreds {first : Text} {count : Nat} (known : cardinalValue first = some count)
      (isUnits : 1 ≤ count ∧ count ≤ 9) : UnderThousand [first, hundred] (count * 100)
  | hundredsAnd {first : Text} {rest : List Text} {count value : Nat}
      (known : cardinalValue first = some count) (isUnits : 1 ≤ count ∧ count ≤ 9)
      (under : UnderHundred rest value) :
      UnderThousand (first :: hundred :: rest) (count * 100 + value)

/-- Groups with strictly decreasing scales below the previous one. -/
inductive Phrase : Option Nat → List Text → Nat → Prop
  | done {previous : Option Nat} : Phrase previous [] 0
  | last {previous : Option Nat} {group : List Text} {value : Nat}
      (under : UnderThousand group value) : Phrase previous group value
  | scaled {previous : Option Nat} {group rest : List Text} {token : Text}
      {value scale restValue : Nat} (under : UnderThousand group value)
      (isScale : (scale, token) ∈ scales) (below : ∀ bound ∈ previous, scale < bound)
      (others : Phrase (some scale) rest restValue) :
      Phrase previous (group ++ token :: rest) (value * scale + restValue)

theorem parseUnderHundred_iff :
    parseUnderHundred total group = some value ↔
      ∃ part, value = total + part ∧ UnderHundred group part := by
  constructor
  · intro parsed
    match group with
    | [] => cases parsed
    | [word] =>
      obtain ⟨part, known, rfl⟩ := Option.map_eq_some_iff.mp parsed
      exact ⟨part, rfl, .word known⟩
    | [first, second] =>
      simp only [parseUnderHundred, Option.bind_eq_bind, Option.bind_eq_some_iff] at parsed
      obtain ⟨tens, knownTens, units, knownUnits, parsed⟩ := parsed
      split at parsed
      · next fits =>
          simp only [Bool.and_eq_true, decide_eq_true_eq] at fits
          cases parsed
          exact ⟨tens + units, by omega, .pair knownTens knownUnits fits.1 fits.2⟩
      · cases parsed
    | _ :: _ :: _ :: _ => cases parsed
  · rintro ⟨part, rfl, under⟩
    cases under with
    | word known =>
      rw [parseUnderHundred, known]
      rfl
    | pair knownTens knownUnits isTens_ isUnits =>
      rw [parseUnderHundred, knownTens, knownUnits]
      simp [isTens_, isUnits.1, isUnits.2, Nat.add_assoc]

/-- A group below a hundred has no second word that is "hundred". -/
theorem UnderHundred.second_ne {first second : Text} {rest : List Text}
    (under : UnderHundred (first :: second :: rest) value) : second ≠ hundred := by
  cases under with
  | pair knownTens knownUnits isTens_ isUnits =>
    rintro rfl
    rw [hundred_facts.2] at knownUnits
    cases knownUnits

theorem UnderHundred.ne_nil (under : UnderHundred group value) :
    group ≠ [] := by
  cases under <;> exact List.cons_ne_nil _ _

theorem parseUnderThousand_iff :
    parseUnderThousand group = some value ↔ UnderThousand group value := by
  have small : ∀ {group : List Text}, parseUnderHundred 0 group = some value ↔
      UnderHundred group value := by
    intro group
    simp only [parseUnderHundred_iff, Nat.zero_add]
    exact ⟨fun ⟨_, same, under⟩ => same ▸ under, fun under => ⟨_, rfl, under⟩⟩
  match group with
  | [] =>
    refine iff_of_false (by rintro ⟨⟩) ?_
    rintro (under | _ | _)
    exact under.ne_nil rfl
  | [word] =>
    rw [show parseUnderThousand [word] = parseUnderHundred 0 [word] from rfl, small]
    constructor
    · exact .small
    · rintro (under | _ | _)
      exact under
  | first :: second :: rest =>
    by_cases isHundred : second = hundred
    · subst isHundred
      simp only [parseUnderThousand, if_true, Option.bind_eq_bind, Option.bind_eq_some_iff]
      constructor
      · rintro ⟨count, known, parsed⟩
        split at parsed
        · next units =>
            simp only [Bool.and_eq_true, decide_eq_true_eq] at units
            cases rest with
            | nil =>
              cases parsed
              exact .hundreds known units
            | cons third rest =>
              obtain ⟨part, rfl, under⟩ := parseUnderHundred_iff.mp parsed
              exact .hundredsAnd known units under
        · cases parsed
      · intro under
        cases under with
        | small under => exact absurd rfl under.second_ne
        | hundreds known units =>
          refine ⟨_, known, ?_⟩
          rw [if_pos (by simp [units.1, units.2])]
          rfl
        | hundredsAnd known units under =>
          refine ⟨_, known, ?_⟩
          rw [if_pos (by simp [units.1, units.2]),
            if_neg (by simpa using under.ne_nil)]
          exact parseUnderHundred_iff.mpr ⟨_, rfl, under⟩
    · rw [parseUnderThousand, if_neg isHundred, small]
      constructor
      · exact .small
      · intro under
        cases under with
        | small under => exact under
        | hundreds _ _ => exact absurd rfl isHundred
        | hundredsAnd _ _ _ => exact absurd rfl isHundred

/-! ## The loop of the strict parser -/

/-- A token that stays in its group. -/
def IsPlain (token : Text) : Prop := ∀ scale, (scale, token) ∉ scales

theorem UnderHundred.plain {group : List Text} {value : Nat} (under : UnderHundred group value) :
    ∀ token ∈ group, IsPlain token := by
  have number : ∀ {token : Text} {value : Nat}, cardinalValue token = some value →
      IsPlain token := by
    intro token value known scale member
    rw [(scaleValue_of_mem member).2.1] at known
    cases known
  cases under with
  | word known => exact List.forall_mem_singleton.mpr (number known)
  | pair knownTens knownUnits _ _ =>
    exact List.forall_mem_cons.mpr
      ⟨number knownTens, List.forall_mem_singleton.mpr (number knownUnits)⟩

theorem isPlain_hundred : IsPlain hundred := by
  intro scale member
  obtain ⟨known, -, notHundred⟩ := scaleValue_of_mem member
  rw [hundred_facts.1] at known
  exact notHundred (Option.some.inj known).symm

theorem UnderThousand.plain {group : List Text} {value : Nat} (under : UnderThousand group value) :
    ∀ token ∈ group, IsPlain token := by
  cases under with
  | small under => exact under.plain
  | hundreds known units =>
    have first := (UnderHundred.word known).plain _ List.mem_cons_self
    exact List.forall_mem_cons.mpr ⟨first, List.forall_mem_singleton.mpr isPlain_hundred⟩
  | hundredsAnd known units under =>
    have first := (UnderHundred.word known).plain _ List.mem_cons_self
    exact List.forall_mem_cons.mpr ⟨first, List.forall_mem_cons.mpr ⟨isPlain_hundred, under.plain⟩⟩

theorem UnderThousand.ne_nil (under : UnderThousand group value) : group ≠ [] := by
  cases under with
  | small under => exact under.ne_nil
  | hundreds _ _ => exact List.cons_ne_nil _ _
  | hundredsAnd _ _ _ => exact List.cons_ne_nil _ _

/-- The first scale of a text of plain tokens and scales. -/
theorem append_scale_inj {group' rest rest' : List Text} {token' : Text} {scale' : Nat}
    (plain : ∀ token ∈ group, IsPlain token) (plain' : ∀ token ∈ group', IsPlain token)
    (isScale : (scale, token) ∈ scales) (isScale' : (scale', token') ∈ scales)
    (same : group ++ token :: rest = group' ++ token' :: rest') :
    group = group' ∧ token = token' ∧ rest = rest' := by
  induction group generalizing group' with
  | nil =>
    cases group' with
    | nil => exact ⟨rfl, List.cons.inj same⟩
    | cons other group' =>
      have := (List.cons.inj same).1
      exact absurd isScale (this ▸ plain' other List.mem_cons_self scale)
  | cons first group ih =>
    cases group' with
    | nil =>
      have := (List.cons.inj same).1
      exact absurd isScale' (this ▸ plain first List.mem_cons_self scale')
    | cons other group' =>
      obtain ⟨rfl, same'⟩ := List.cons.inj same
      rw [List.forall_mem_cons] at plain plain'
      obtain ⟨rfl, rest⟩ := ih plain.2 plain'.2 same'
      exact ⟨rfl, rest⟩

/-- A phrase of plain tokens only is a group, or empty. -/
theorem phrase_plain_iff (plain : ∀ token ∈ group, IsPlain token) :
    Phrase previous group value ↔ group = [] ∧ value = 0 ∨ UnderThousand group value := by
  constructor
  · intro phrase
    cases phrase with
    | done => exact .inl ⟨rfl, rfl⟩
    | last under => exact .inr under
    | scaled under isScale below others =>
      exact absurd isScale (plain _ (by simp) _)
  · rintro (⟨rfl, rfl⟩ | under)
    · exact .done
    · exact .last under

/-- A phrase up to its first scale. -/
theorem phrase_scale_iff {rest : List Text} (plain : ∀ token ∈ group, IsPlain token)
    (isScale : (scale, token) ∈ scales) :
    Phrase previous (group ++ token :: rest) value ↔
      (∀ bound ∈ previous, scale < bound) ∧ ∃ count restValue, UnderThousand group count ∧
        Phrase (some scale) rest restValue ∧ value = count * scale + restValue := by
  constructor
  · intro phrase
    generalize whole : group ++ token :: rest = tokens at phrase
    cases phrase with
    | done => simp at whole
    | last under =>
      rw [← whole] at under
      exact absurd isScale (under.plain token (by simp) scale)
    | scaled under isScale' below others =>
      obtain ⟨rfl, rfl, rfl⟩ := append_scale_inj plain under.plain isScale isScale' whole
      have same := (scaleValue_of_mem isScale).1.symm.trans (scaleValue_of_mem isScale').1
      obtain rfl := Option.some.inj same
      exact ⟨below, _, _, under, others, rfl⟩
  · rintro ⟨below, count, restValue, under, others, rfl⟩
    exact .scaled under isScale below others

/-- **The strict loop accepts exactly the phrases.**  The group holds what was read since the
last scale. -/
theorem strictLoop_iff (plain : ∀ token ∈ group, IsPlain token) :
    strictLoop total group previous tokens = some value ↔
      ∃ part, value = total + part ∧ Phrase previous (group ++ tokens) part := by
  induction tokens generalizing total group previous with
  | nil =>
    rw [strictLoop, List.append_nil]
    simp only [phrase_plain_iff plain]
    cases group with
    | nil =>
      have none_ : ∀ part, ¬ UnderThousand [] part := fun part under => under.ne_nil rfl
      simp [none_, eq_comm]
    | cons first rest =>
      simp only [List.isEmpty_cons, Bool.false_eq_true, if_false, Option.map_eq_some_iff,
        parseUnderThousand_iff, reduceCtorEq, false_and, false_or]
      exact ⟨fun ⟨part, under, same⟩ => ⟨part, same.symm, under⟩,
        fun ⟨part, same, under⟩ => ⟨part, under, same.symm⟩⟩
  | cons token rest ih =>
    have joins : IsPlain token → (strictLoop total (group ++ [token]) previous rest =
        some value ↔ ∃ part, value = total + part ∧
          Phrase previous (group ++ token :: rest) part) := by
      intro isPlain
      rw [ih (List.forall_mem_append.mpr ⟨plain, List.forall_mem_singleton.mpr isPlain⟩),
        List.append_assoc]
      rfl
    rw [strictLoop]
    cases known : scaleValue token with
    | none =>
      refine joins fun scale member => ?_
      rw [(scaleValue_of_mem member).1] at known
      cases known
    | some scale =>
      by_cases isHundred : scale = 100
      · dsimp only
        rw [if_pos isHundred]
        refine joins fun scale' member => ?_
        obtain ⟨known', -, notHundred⟩ := scaleValue_of_mem member
        rw [known', isHundred] at known
        exact notHundred (Option.some.inj known)
      · have isScale := scaleValue_eq_some known isHundred
        dsimp only
        rw [if_neg isHundred]
        simp only [phrase_scale_iff plain isScale]
        by_cases above : previous.any (· ≤ scale) = true
        · rw [if_pos above]
          obtain ⟨bound, isBound, least⟩ := Option.any_eq_true _ _ |>.mp above
          refine iff_of_false (nomatch ·) ?_
          rintro ⟨_, _, below, -⟩
          exact absurd (below bound isBound) (not_lt_of_ge (by simpa using least))
        · rw [if_neg above]
          have below : ∀ bound ∈ previous, scale < bound := by
            intro bound isBound
            by_contra least
            exact above (Option.any_eq_true _ _ |>.mpr ⟨bound, isBound, by simpa using least⟩)
          simp only [Option.bind_eq_bind, Option.bind_eq_some_iff, parseUnderThousand_iff,
            ih (List.forall_mem_nil _), List.nil_append]
          constructor
          · rintro ⟨count, under, part, rfl, others⟩
            exact ⟨_, by omega, below, count, part, under, others, rfl⟩
          · rintro ⟨_, rfl, -, count, part, under, others, rfl⟩
            exact ⟨count, under, part, by omega, others⟩

/-! ## Phrases without "zero" -/

theorem wordOf_ne_zero (positive : value ≠ 0) : wordOf value ≠ zero := by
  unfold wordOf
  cases found : cardinalWordValues.find? fun entry => entry.2 == value with
  | none => exact nofun
  | some entry =>
    have held : entry.2 = value := by simpa using List.find?_some found
    exact (word_table entry (List.mem_of_find?_eq_some found)).2.2 (by rw [held]; exact positive)

/-- A number that is not written "zero". -/
theorem positive_of_ne_zero (known : cardinalValue token = some value) (notZero : token ≠ zero) :
    1 ≤ value := by
  obtain ⟨rfl, -⟩ := cardinalValue_eq_some known
  by_contra none_
  refine notZero ?_
  rw [show value = 0 by omega]
  rfl

theorem UnderHundred.eq_spell (under : UnderHundred group value) (noZero : zero ∉ group) :
    1 ≤ value ∧ value < 100 ∧ group = spellUnderHundred value := by
  cases under with
  | word known =>
    have positive := positive_of_ne_zero known fun same => noZero (by simp [same])
    obtain ⟨rfl, hasWord⟩ := cardinalValue_eq_some known
    rw [HasWord, mem_tens] at hasWord
    refine ⟨positive, by omega, ?_⟩
    rw [spellUnderHundred, if_neg (by omega), if_pos (by omega)]
  | @pair first second tens units knownTens knownUnits isTens_ isUnits =>
    obtain ⟨rfl, -⟩ := cardinalValue_eq_some knownTens
    obtain ⟨rfl, -⟩ := cardinalValue_eq_some knownUnits
    rw [mem_tens] at isTens_
    refine ⟨by omega, by omega, ?_⟩
    rw [spellUnderHundred, if_neg (by omega), if_neg (by omega),
      show (tens + units) % 10 = units by omega, show tens + units - units = tens by omega]

theorem UnderThousand.eq_spell (under : UnderThousand group value) (noZero : zero ∉ group) :
    1 ≤ value ∧ value < 1000 ∧ group = spellUnderThousand value := by
  cases under with
  | small under =>
    obtain ⟨positive, less, rfl⟩ := under.eq_spell noZero
    refine ⟨positive, by omega, ?_⟩
    rw [spellUnderThousand, if_pos (by omega), Nat.mod_eq_of_lt less, List.nil_append]
  | @hundreds first count known units =>
    obtain ⟨rfl, -⟩ := cardinalValue_eq_some known
    refine ⟨by omega, by omega, ?_⟩
    rw [spellUnderThousand, if_neg (by omega), show count * 100 / 100 = count by omega,
      show count * 100 % 100 = 0 by omega]
    rfl
  | @hundredsAnd first rest count value known units under =>
    obtain ⟨rfl, -⟩ := cardinalValue_eq_some known
    obtain ⟨positive, less, rfl⟩ := under.eq_spell fun member => noZero (by simp [member])
    refine ⟨by omega, by omega, ?_⟩
    rw [spellUnderThousand, if_neg (by omega), show (count * 100 + value) / 100 = count by omega,
      show (count * 100 + value) % 100 = value by omega]
    rfl

/-- The scales below the previous one. -/
def scalesBelow (previous : Option Nat) : List (Nat × Text) :=
  scales.filter fun entry => previous.all (entry.1 < ·)

/-- A scale that is too great for the number is passed over. -/
theorem spellWith_cons_of_lt (less : n < scale) :
    spellWith ((scale, word) :: smaller) n = spellWith smaller n := by
  rw [spellWith, Nat.div_eq_of_lt less, Nat.mod_eq_of_lt less, if_pos rfl, List.nil_append]

theorem spellWith_cons_of_group {count part : Nat} (positive : 1 ≤ count) (less : part < scale) :
    spellWith ((scale, word) :: smaller) (count * scale + part) =
      spellUnderThousand count ++ word :: spellWith smaller part := by
  have quotient : (count * scale + part) / scale = count := by
    rw [Nat.mul_comm, Nat.mul_add_div (by omega), Nat.div_eq_of_lt less, Nat.add_zero]
  have remainder : (count * scale + part) % scale = part := by
    rw [Nat.mul_comm, Nat.mul_add_mod, Nat.mod_eq_of_lt less]
  rw [spellWith, quotient, remainder, if_neg (by omega), List.append_assoc]
  rfl

theorem spellWith_of_lt (less : ∀ entry ∈ larger, n < entry.1) :
    spellWith larger n = spellUnderThousand n := by
  induction larger with
  | nil => rfl
  | cons entry larger ih =>
    rw [List.forall_mem_cons] at less
    rw [spellWith_cons_of_lt less.1, ih less.2]

theorem spellWith_append_of_lt (less : ∀ entry ∈ larger, n < entry.1) :
    spellWith (larger ++ smaller) n = spellWith smaller n := by
  induction larger with
  | nil => rfl
  | cons entry larger ih =>
    rw [List.forall_mem_cons] at less
    rw [List.cons_append, spellWith_cons_of_lt less.1, ih less.2]

/-- Nothing, or a scale. -/
def IsBound (previous : Option Nat) : Prop := previous ∈ none :: scales.map fun entry => some entry.1

/-- What holds below every bound. -/
theorem bound_table : ∀ previous ∈ none :: scales.map (fun entry => some entry.1),
    (∀ bound ∈ previous, 1000 ≤ bound) ∧ (∀ entry ∈ scalesBelow previous, 1000 ≤ entry.1) ∧
      [] = spellWith (scalesBelow previous) 0 ∧
      ∀ entry ∈ scales, (∀ bound ∈ previous, entry.1 < bound) →
        (scalesBelow previous = (scalesBelow previous).filter (entry.1 < ·.1) ++
          entry :: scalesBelow (some entry.1)) ∧
        (∀ greater ∈ (scalesBelow previous).filter (entry.1 < ·.1), 1000 * entry.1 ≤ greater.1) ∧
        (∀ bound ∈ previous, 1000 * entry.1 ≤ bound) ∧ 1000 * entry.1 ≤ 10 ^ 12 := by
  decide

/-- The scales below a bound, cut at one of them: the greater ones are a thousand times as
great, and so is the bound. -/
theorem scalesBelow_cut (isBound : IsBound previous) (isScale : (scale, token) ∈ scales)
    (below : ∀ bound ∈ previous, scale < bound) :
    ∃ larger, scalesBelow previous = larger ++ (scale, token) :: scalesBelow (some scale) ∧
      (∀ entry ∈ larger, 1000 * scale ≤ entry.1) ∧ (∀ bound ∈ previous, 1000 * scale ≤ bound) ∧
      1000 * scale ≤ 10 ^ 12 :=
  ⟨_, (bound_table previous isBound).2.2.2 (scale, token) isScale below⟩

theorem isBound_some (isScale : (scale, token) ∈ scales) :
    IsBound (some scale) :=
  List.mem_cons_of_mem _ (List.mem_map.mpr ⟨_, isScale, rfl⟩)

/-- **A phrase without "zero" is the spelling of its value.**  What follows a scale is smaller
than it. -/
theorem Phrase.eq_spell (phrase : Phrase previous tokens value) (noZero : zero ∉ tokens)
    (isBound : IsBound previous) :
    (∀ bound ∈ previous, value < bound) ∧ value < 10 ^ 12 ∧
      tokens = spellWith (scalesBelow previous) value := by
  induction phrase with
  | @done previous =>
    obtain ⟨bounds, -, empty, -⟩ := bound_table previous isBound
    exact ⟨fun bound member => Nat.lt_of_lt_of_le (by omega) (bounds bound member), by omega, empty⟩
  | @last previous group value under =>
    obtain ⟨positive, less, spelled⟩ := under.eq_spell noZero
    obtain ⟨bounds, entries, -⟩ := bound_table previous isBound
    refine ⟨fun bound member => less.trans_le (bounds bound member), by omega, ?_⟩
    rw [spellWith_of_lt fun entry member => less.trans_le (entries entry member)]
    exact spelled
  | @scaled previous group rest token count scale part under isScale below others ih =>
    obtain ⟨positive, small, rfl⟩ := under.eq_spell fun member => noZero (by simp [member])
    obtain ⟨less, -, rfl⟩ := ih (fun member => noZero (by simp [member])) (isBound_some isScale)
    have less := less scale rfl
    obtain ⟨larger, cut, greater, bounds, most⟩ := scalesBelow_cut isBound isScale below
    have total : count * scale + part < 1000 * scale := by
      have : count * scale ≤ 999 * scale := Nat.mul_le_mul_right scale (by omega)
      omega
    refine ⟨fun bound member => total.trans_le (bounds bound member), total.trans_le most, ?_⟩
    rw [cut, spellWith_append_of_lt fun entry member => total.trans_le (greater entry member),
      spellWith_cons_of_group positive less]

/-! ## Spellings are phrases -/

theorem underHundred_spell (positive : 1 ≤ n) (less : n < 100) :
    UnderHundred (spellUnderHundred n) n := by
  rw [spellUnderHundred, if_neg (by omega)]
  split
  · next oneWord =>
      refine .word (cardinalValue_wordOf ?_)
      rw [HasWord, mem_tens]
      omega
  · next twoWords =>
      have tens : isTens (n - n % 10) = true := by
        rw [mem_tens]
        omega
      have pair := UnderHundred.pair (cardinalValue_wordOf (.inr tens))
        (@cardinalValue_wordOf (n % 10) (.inl (by omega))) tens (by omega)
      rwa [show n - n % 10 + n % 10 = n by omega] at pair

theorem underThousand_spell (positive : 1 ≤ n) (less : n < 1000) :
    UnderThousand (spellUnderThousand n) n := by
  rw [spellUnderThousand]
  split
  · next small =>
      rw [List.nil_append, Nat.mod_eq_of_lt (by omega)]
      exact .small (underHundred_spell positive (by omega))
  · next large =>
      have known : cardinalValue (wordOf (n / 100)) = some (n / 100) :=
        cardinalValue_wordOf (.inl (by omega))
      have units : 1 ≤ n / 100 ∧ n / 100 ≤ 9 := by omega
      by_cases round : n % 100 = 0
      · rw [round]
        have phrase := UnderThousand.hundreds known units
        rwa [show n / 100 * 100 = n by omega] at phrase
      · have phrase := UnderThousand.hundredsAnd known units
          (underHundred_spell (n := n % 100) (by omega) (by omega))
        rwa [show n / 100 * 100 + n % 100 = n by omega] at phrase

/-- Every number below the bound is a phrase with these scales. -/
def Spells (usable : List (Nat × Text)) (bound : Nat) : Prop :=
  ∀ n < bound, ∀ previous : Option Nat, (∀ entry ∈ usable, ∀ limit ∈ previous, entry.1 < limit) →
    Phrase previous (spellWith usable n) n

theorem spells_nil : Spells [] 1000 := by
  intro n less previous _
  by_cases isZero : n = 0
  · subst isZero
    exact .done
  · exact .last (underThousand_spell (by omega) less)

/-- One more scale. -/
theorem spells_cons {usable : List (Nat × Text)} {scale : Nat} {token : Text}
    (isScale : (scale, token) ∈ scales) (smaller : ∀ entry ∈ usable, entry.1 < scale)
    (spells : Spells usable scale) : Spells ((scale, token) :: usable) (1000 * scale) := by
  intro n less previous allowed
  rw [List.forall_mem_cons] at allowed
  have positive : 0 < scale := by
    have table : ∀ entry ∈ scales, 0 < entry.1 := by decide
    exact table _ isScale
  have part : n % scale < scale := Nat.mod_lt n positive
  by_cases small : n / scale = 0
  · have same : n < scale := (Nat.div_eq_zero_iff_lt positive).mp small
    rw [spellWith_cons_of_lt same]
    exact spells n same previous allowed.2
  · have count : n / scale < 1000 := Nat.div_lt_of_lt_mul (by rwa [Nat.mul_comm] at less)
    have whole : n / scale * scale + n % scale = n := Nat.div_add_mod' n scale
    have phrase := @Phrase.scaled previous _ _ _ _ _ _
      (underThousand_spell (Nat.pos_of_ne_zero small) count) isScale allowed.1
      (spells (n % scale) part (some scale) fun entry member limit isLimit => by
        rw [← Option.some.inj isLimit]
        exact smaller entry member)
    rw [whole] at phrase
    rw [← whole, spellWith_cons_of_group (Nat.pos_of_ne_zero small) part, whole]
    exact phrase

theorem phrase_spell (less : n < 10 ^ 12) : Phrase none (spell n) n := by
  have thousands := @spells_cons _ 1000 ("thousand".toList) (by decide) (by decide)
    spells_nil
  have millions := @spells_cons _ 1000000 ("million".toList) (by decide)
    (by decide) thousands
  have billions := @spells_cons _ 1000000000 ("billion".toList) (by decide)
    (by decide) millions
  exact billions n (by omega) none fun _ _ _ => nofun

/-! ## The word "zero" -/

theorem zero_notMem_spellUnderHundred (n : Nat) : zero ∉ spellUnderHundred n := by
  unfold spellUnderHundred
  split_ifs with none_ oneWord
  · exact List.not_mem_nil
  · rw [List.mem_singleton]
    exact (wordOf_ne_zero none_).symm
  · rw [not_or] at oneWord
    simp only [List.mem_cons, List.not_mem_nil, or_false, not_or]
    exact ⟨(wordOf_ne_zero (by omega)).symm, (wordOf_ne_zero oneWord.2).symm⟩

theorem zero_notMem_spellUnderThousand (n : Nat) : zero ∉ spellUnderThousand n := by
  unfold spellUnderThousand
  rw [List.mem_append, not_or]
  refine ⟨?_, zero_notMem_spellUnderHundred _⟩
  split_ifs with none_
  · exact List.not_mem_nil
  · simp only [List.mem_cons, List.not_mem_nil, or_false, not_or]
    exact ⟨(wordOf_ne_zero none_).symm, by decide⟩

/-- No spelling has it. -/
theorem zero_notMem_spellWith {usable : List (Nat × Text)} (known : ∀ entry ∈ usable, entry ∈ scales)
    (n : Nat) : zero ∉ spellWith usable n := by
  induction usable generalizing n with
  | nil => exact zero_notMem_spellUnderThousand n
  | cons entry usable ih =>
    rw [List.forall_mem_cons] at known
    rw [spellWith, List.mem_append, not_or]
    refine ⟨?_, ih known.2 _⟩
    have scaleWord : ∀ entry ∈ scales, zero ≠ entry.2 := by decide
    split_ifs
    · exact List.not_mem_nil
    · rw [List.mem_append, not_or, List.mem_singleton]
      exact ⟨zero_notMem_spellUnderThousand _, scaleWord entry known.1⟩

/-! ## The lenient parsers -/

theorem lenientLoop_number {rest : List Text} (known : cardinalValue token = some value) :
    lenientLoop total current (token :: rest) = lenientLoop total (current + value) rest := by
  rw [lenientLoop, known]

theorem lenientLoop_hundred {rest : List Text} :
    lenientLoop total current (hundred :: rest) = lenientLoop total (orOne current * 100) rest := by
  rw [lenientLoop, hundred_facts.2, hundred_facts.1]
  rfl

theorem lenientLoop_scale {rest : List Text} (isScale : (scale, token) ∈ scales) :
    lenientLoop total current (token :: rest) =
      lenientLoop (total + orOne current * scale) 0 rest := by
  obtain ⟨known, notNumber, notHundred⟩ := scaleValue_of_mem isScale
  rw [lenientLoop, notNumber, known]
  exact if_neg notHundred

theorem orOne_of_pos (positive : 1 ≤ value) : orOne value = value :=
  if_neg (by omega)

theorem UnderHundred.lenient {group rest : List Text} {value : Nat}
    (under : UnderHundred group value) (total current : Nat) :
    lenientLoop total current (group ++ rest) = lenientLoop total (current + value) rest := by
  cases under with
  | word known => exact lenientLoop_number known
  | pair knownTens knownUnits _ _ =>
    rw [List.cons_append, List.cons_append, lenientLoop_number knownTens,
      lenientLoop_number knownUnits, Nat.add_assoc]
    rfl

theorem UnderThousand.lenient {group rest : List Text} {value : Nat}
    (under : UnderThousand group value) (total : Nat) :
    lenientLoop total 0 (group ++ rest) = lenientLoop total value rest := by
  cases under with
  | small under => rw [under.lenient, Nat.zero_add]
  | hundreds known units =>
    rw [List.cons_append, List.cons_append, lenientLoop_number known, lenientLoop_hundred,
      Nat.zero_add, orOne_of_pos units.1]
    rfl
  | hundredsAnd known units under =>
    rw [List.cons_append, List.cons_append, lenientLoop_number known, lenientLoop_hundred,
      Nat.zero_add, orOne_of_pos units.1, under.lenient]

/-- **The lenient loop agrees on a phrase without "zero".**  Without that word no group is
empty, so nothing is taken for one. -/
theorem Phrase.lenient {previous : Option Nat} {tokens : List Text} {value : Nat}
    (phrase : Phrase previous tokens value) (noZero : zero ∉ tokens) (total : Nat) :
    lenientLoop total 0 tokens = some (total + value) := by
  induction phrase generalizing total with
  | done => rfl
  | last under =>
    have read := @UnderThousand.lenient _ [] _ under total
    rwa [List.append_nil] at read
  | scaled under isScale below others ih =>
    have positive := (under.eq_spell fun member => noZero (by simp [member])).1
    rw [under.lenient, lenientLoop_scale isScale, orOne_of_pos positive,
      ih (fun member => noZero (by simp [member])), Nat.add_assoc]

/-- Words without a scale are added up. -/
theorem lenientLoop_of_mapM {values : List Nat} (known : tokens.mapM cardinalValue = some values)
    (total current : Nat) :
    lenientLoop total current tokens = some (total + (current + values.sum)) := by
  induction tokens generalizing values current with
  | nil =>
    cases known
    rfl
  | cons token tokens ih =>
    simp only [List.mapM_cons, Option.bind_eq_bind, Option.bind_eq_some_iff, Option.pure_def,
      Option.some.injEq] at known
    obtain ⟨value, isValue, rest, others, rfl⟩ := known
    rw [lenientLoop_number isValue, ih others, List.sum_cons, Nat.add_assoc]

/-- The special case of a lone word changes nothing. -/
theorem parseCardinalNumberWords_eq (some_ : withoutAnd (words text) ≠ []) :
    parseCardinalNumberWords text = lenientLoop 0 0 (withoutAnd (words text)) := by
  unfold parseCardinalNumberWords
  split
  · next none_ => exact absurd none_ some_
  · next first rest held =>
      rw [held]
      cases rest with
      | cons second rest =>
        cases lenientLoop 0 0 (first :: second :: rest) <;> rfl
      | nil =>
        cases known : cardinalValue first with
        | some value =>
          rw [lenientLoop_number known, scaleValue_of_cardinalValue known]
          simp [lenientLoop]
        | none =>
          cases isScale : scaleValue first with
          | none => simp [lenientLoop, known, isScale]
          | some scale =>
            cases lenientLoop 0 0 [first] <;> rfl

theorem mem_withoutAnd (notAnd : token ≠ and_) :
    token ∈ withoutAnd tokens ↔ token ∈ tokens := by
  rw [withoutAnd, List.mem_filter]
  exact and_iff_left (by simpa using notAnd)

/-! ## Written phrases -/

/-- Words behind one another, with a space or a hyphen between two of them. -/
def writeWords (first : Text) : List (Char × Text) → Text
  | [] => first
  | (joint, word) :: rest => first ++ joint :: writeWords word rest

def IsJoint (c : Char) : Prop := c = ' ' ∨ c = '-'

/-- A word that stays one: small letters and no joint. -/
def IsPlainWord (word : Text) : Prop :=
  word ≠ [] ∧ ∀ c ∈ word, c.toLower = c ∧ c ≠ '-' ∧ isSpace c = false

theorem IsPlainWord.not_joint (plain : IsPlainWord word) :
    ∀ c ∈ word, (c == '-' || isSpace c) = false := by
  intro c member
  obtain ⟨-, notHyphen, notSpace⟩ := plain.2 c member
  simp [notHyphen, notSpace]

section Written

variable {first : Text} {rest : List (Char × Text)} {c : Char}

theorem mem_writeWords (member : c ∈ writeWords first rest) :
    (∃ word ∈ first :: rest.map Prod.snd, c ∈ word) ∨ ∃ entry ∈ rest, c = entry.1 := by
  induction rest generalizing first with
  | nil => exact .inl ⟨first, List.mem_cons_self, member⟩
  | cons entry rest ih =>
    rw [writeWords, List.mem_append, List.mem_cons] at member
    rcases member with here | rfl | later
    · exact .inl ⟨first, List.mem_cons_self, here⟩
    · exact .inr ⟨entry, List.mem_cons_self, rfl⟩
    · rcases ih later with ⟨word, written, inside⟩ | ⟨other, listed, same⟩
      · exact .inl ⟨word, List.mem_cons_of_mem _ written, inside⟩
      · exact .inr ⟨other, List.mem_cons_of_mem _ listed, same⟩

variable (plain : ∀ word ∈ first :: rest.map Prod.snd, IsPlainWord word)

include plain

theorem writeWords_ne_nil : writeWords first rest ≠ [] := by
  cases rest with
  | nil => exact (plain first List.mem_cons_self).1
  | cons entry rest => exact List.append_ne_nil_of_right_ne_nil _ (List.cons_ne_nil _ _)

theorem head_writeWords (head : (writeWords first rest).head? = some c) : c ∈ first := by
  cases rest with
  | nil => exact List.mem_of_head? head
  | cons entry rest =>
    rw [writeWords, List.head?_append_of_ne_nil _ (plain first List.mem_cons_self).1] at head
    exact List.mem_of_head? head

theorem getLast_writeWords (last : (writeWords first rest).getLast? = some c) :
    ∃ word ∈ first :: rest.map Prod.snd, c ∈ word := by
  induction rest generalizing first with
  | nil => exact ⟨first, List.mem_cons_self, List.mem_of_getLast? last⟩
  | cons entry rest ih =>
    have later : ∀ word ∈ entry.2 :: rest.map Prod.snd, IsPlainWord word := fun word listed =>
      plain word (List.mem_cons_of_mem _ listed)
    rw [writeWords, List.getLast?_append_cons, List.getLast?_cons,
      List.getLast?_eq_getLast_of_ne_nil (writeWords_ne_nil later)] at last
    obtain ⟨word, listed, inside⟩ := ih later
      ((List.getLast?_eq_getLast_of_ne_nil (writeWords_ne_nil later)).trans last)
    exact ⟨word, List.mem_cons_of_mem _ listed, inside⟩

theorem strip_writeWords : strip (writeWords first rest) = writeWords first rest := by
  refine stripChars_eq_self (fun c head => ?_) fun c last => ?_
  · exact ((plain first List.mem_cons_self).2 c (head_writeWords plain head)).2.2
  · obtain ⟨word, listed, inside⟩ := getLast_writeWords plain last
    exact ((plain word listed).2 c inside).2.2

theorem lower_writeWords (joints : ∀ entry ∈ rest, IsJoint entry.1) :
    lower (writeWords first rest) = writeWords first rest := by
  have small : ∀ c ∈ writeWords first rest, c.toLower = id c := by
    intro c member
    rcases mem_writeWords member with ⟨word, listed, inside⟩ | ⟨entry, listed, rfl⟩
    · exact ((plain word listed).2 c inside).1
    · rcases joints entry listed with space | hyphen
      · rw [space]
        rfl
      · rw [hyphen]
        rfl
  rw [lower, List.map_congr_left small, List.map_id]

theorem splitOnP_writeWords (joints : ∀ entry ∈ rest, IsJoint entry.1) :
    (writeWords first rest).splitOnP (fun c => c == '-' || isSpace c) = first :: rest.map Prod.snd := by
  have whole := (plain first List.mem_cons_self).not_joint
  induction rest generalizing first with
  | nil => exact List.splitOnP_eq_singleton whole
  | cons entry rest ih =>
    have later : ∀ word ∈ entry.2 :: rest.map Prod.snd, IsPlainWord word := fun word listed =>
      plain word (List.mem_cons_of_mem _ listed)
    have joint : (entry.1 == '-' || isSpace entry.1) = true := by
      rcases joints entry List.mem_cons_self with space | hyphen
      · rw [space]
        rfl
      · rw [hyphen]
        rfl
    rw [writeWords, List.splitOnP_append_cons_of_forall_mem whole _ joint,
      ih later (fun other listed => joints other (List.mem_cons_of_mem _ listed))
        (later entry.2 List.mem_cons_self).not_joint]
    rfl

/-- The words of a phrase are those it was written with. -/
theorem words_writeWords (joints : ∀ entry ∈ rest, IsJoint entry.1) :
    words (writeWords first rest) = first :: rest.map Prod.snd := by
  rw [words, strip_writeWords plain, lower_writeWords plain joints, splitOnP_writeWords plain joints]
  refine List.filter_eq_self.mpr fun word member => ?_
  simpa using (plain word member).1

end Written

/-- The words of numbers, and of scales. -/
def IsNumberWord (word : Text) : Prop := (cardinalValue word).isSome ∨ (scaleValue word).isSome

theorem isPlainWord_of_mem {table : List (String × Nat)} {word : Text}
    (letters : (table.all fun entry => !entry.1.toList.isEmpty && entry.1.toList.all fun c =>
      c.toLower == c && c != '-' && !isSpace c) = true)
    (known : (lookUp table word).isSome = true) : IsPlainWord word := by
  obtain ⟨value, found⟩ := Option.isSome_iff_exists.mp known
  obtain ⟨entry, found, -⟩ := Option.map_eq_some_iff.mp found
  have spelled : entry.1.toList = word := by simpa using List.find?_some found
  have own := List.all_eq_true.mp letters entry (List.mem_of_find?_eq_some found)
  rw [spelled] at own
  simp only [Bool.and_eq_true, Bool.not_eq_true', List.isEmpty_eq_false_iff, List.all_eq_true,
    beq_iff_eq, bne_iff_ne] at own
  exact ⟨own.1, fun c member => ⟨(own.2 c member).1.1, (own.2 c member).1.2, (own.2 c member).2⟩⟩

theorem IsNumberWord.isPlainWord (known : IsNumberWord word) : IsPlainWord word := by
  rcases known with cardinal | scale
  · exact isPlainWord_of_mem (by decide) cardinal
  · exact isPlainWord_of_mem (by decide) scale

theorem isNumberWord_of_cardinal (known : cardinalValue word = some value) :
    IsNumberWord word := .inl (Option.isSome_of_eq_some known)

theorem isNumberWord_of_scale (known : scaleValue word = some value) :
    IsNumberWord word := .inr (Option.isSome_of_eq_some known)

theorem UnderHundred.isNumberWord (under : UnderHundred group value) :
    ∀ word ∈ group, IsNumberWord word := by
  cases under with
  | word known => exact List.forall_mem_singleton.mpr (isNumberWord_of_cardinal known)
  | pair tens units _ _ =>
    exact List.forall_mem_cons.mpr ⟨isNumberWord_of_cardinal tens,
      List.forall_mem_singleton.mpr (isNumberWord_of_cardinal units)⟩

theorem UnderThousand.isNumberWord (under : UnderThousand group value) :
    ∀ word ∈ group, IsNumberWord word := by
  have hundreds := isNumberWord_of_scale hundred_facts.1
  cases under with
  | small under => exact under.isNumberWord
  | hundreds known _ =>
    exact List.forall_mem_cons.mpr ⟨isNumberWord_of_cardinal known,
      List.forall_mem_singleton.mpr hundreds⟩
  | hundredsAnd known _ under =>
    exact List.forall_mem_cons.mpr ⟨isNumberWord_of_cardinal known,
      List.forall_mem_cons.mpr ⟨hundreds, under.isNumberWord⟩⟩

theorem Phrase.isNumberWord (phrase : Phrase previous tokens value) :
    ∀ word ∈ tokens, IsNumberWord word := by
  induction phrase with
  | done => exact List.forall_mem_nil _
  | last under => exact under.isNumberWord
  | scaled under isScale _ _ ih =>
    exact List.forall_mem_append.mpr ⟨under.isNumberWord,
      List.forall_mem_cons.mpr ⟨isNumberWord_of_scale (scaleValue_of_mem isScale).1, ih⟩⟩

/-- **A spelling, written with spaces or hyphens and with "and" anywhere, has the words of
the spelling.** -/
theorem words_of_spelling (less : n < 10 ^ 12) {first : Text} {rest : List (Char × Text)}
    (spelled : withoutAnd (first :: rest.map Prod.snd) = spell n)
    (joints : ∀ entry ∈ rest, IsJoint entry.1) :
    words (writeWords first rest) = first :: rest.map Prod.snd := by
  refine words_writeWords (fun word listed => ?_) joints
  by_cases isAnd : word = and_
  · rw [isAnd]
    exact @isPlainWord_of_mem [("and", 0)] _ (by decide) (by decide)
  · have written := (mem_withoutAnd isAnd).mpr listed
    rw [spelled] at written
    exact ((phrase_spell less).isNumberWord word written).isPlainWord

/-! ## Strict parsing -/

theorem nonzero_eq_some_iff {value' : Nat} :
    nonzero value = some value' ↔ value = value' ∧ value' ≠ 0 := by
  unfold nonzero
  split
  · next isZero => simp [isZero, eq_comm]
  · next positive => exact ⟨fun same => ⟨Option.some.inj same, Option.some.inj same ▸ positive⟩,
      fun same => congrArg some same.1⟩

/-- The strict parser, as phrases. -/
theorem parseStrict_iff :
    parseStrictCardinalNumberWords text = some value ↔
      words text ≠ [] ∧ (words text).head? ≠ some and_ ∧ (words text).getLast? ≠ some and_ ∧
        Phrase none (withoutAnd (words text)) value ∧ value ≠ 0 := by
  have ends : ((words text).head?.all (· = and_) || (words text).getLast? = some and_) = true ↔
      ¬ (words text ≠ [] ∧ (words text).head? ≠ some and_ ∧
        (words text).getLast? ≠ some and_) := by
    rw [Bool.or_eq_true, decide_eq_true_eq, not_and_or, not_and_or, not_not, not_not, not_not, ← or_assoc]
    refine or_congr_left ?_
    cases words text <;> simp
  unfold parseStrictCardinalNumberWords
  dsimp only
  rw [ite_cond_congr (propext ends)]
  by_cases plain : words text ≠ [] ∧ (words text).head? ≠ some and_ ∧
      (words text).getLast? ≠ some and_
  · rw [if_neg (not_not_intro plain)]
    simp only [Option.bind_eq_some_iff, strictLoop_iff (List.forall_mem_nil _), List.nil_append,
      Nat.zero_add, nonzero_eq_some_iff]
    constructor
    · rintro ⟨_, ⟨_, rfl, phrase⟩, rfl, positive⟩
      exact ⟨plain.1, plain.2.1, plain.2.2, phrase, positive⟩
    · rintro ⟨-, -, -, phrase, positive⟩
      exact ⟨value, ⟨value, rfl, phrase⟩, rfl, positive⟩
  · rw [if_pos plain]
    refine iff_of_false (nomatch ·) ?_
    rintro ⟨some_, first, last, -⟩
    exact plain ⟨some_, first, last⟩

/-- What a strictly parsed phrase is: the spelling of its value, and of that value for the
lenient parsers. -/
def StrictMeans (text : Text) : Prop :=
  ∀ value, parseStrictCardinalNumberWords text = some value →
    1 ≤ value ∧ value < 10 ^ 12 ∧ withoutAnd (words text) = spell value ∧
      parseCardinalNumberWords text = some value ∧
      ∀ sum, parseCardinalWordSequence text = some sum → sum = value

/-- A phrase with the word "zero" for a group, or behind the hundreds of one. -/
def IsZeroPadded (text : Text) : Prop :=
  zero ∈ words text ∧ (words text).head? ≠ some and_ ∧ (words text).getLast? ≠ some and_ ∧
    ∃ value, value ≠ 0 ∧ Phrase none (withoutAnd (words text)) value

theorem isBound_none : IsBound none := List.mem_cons_self

theorem strictMeans_of_noZero (noZero : zero ∉ words text) : StrictMeans text := by
  intro value parsed
  obtain ⟨some_, -, -, phrase, positive⟩ := parseStrict_iff.mp parsed
  have noZero' : zero ∉ withoutAnd (words text) := fun member =>
    noZero ((mem_withoutAnd (by decide)).mp member)
  have read := phrase.lenient noZero' 0
  rw [Nat.zero_add] at read
  have tokens : withoutAnd (words text) ≠ [] := by
    intro none_
    rw [none_] at read
    exact positive (Option.some.inj read).symm
  obtain ⟨-, less, spelled⟩ := phrase.eq_spell noZero' isBound_none
  refine ⟨by omega, less, spelled, ?_, fun sum added => ?_⟩
  · rw [parseCardinalNumberWords_eq tokens, read]
  · unfold parseCardinalWordSequence at added
    split at added
    · cases added
    · obtain ⟨values, known, rfl⟩ := Option.map_eq_some_iff.mp added
      rw [lenientLoop_of_mapM known, Nat.zero_add, Nat.zero_add] at read
      exact Option.some.inj read

/-- Every spelling, with "and" at any inner place, is read as its number. -/
theorem parseStrict_of_words (positive : 1 ≤ n) (less : n < 10 ^ 12)
    (spelled : withoutAnd (words text) = spell n) (first : (words text).head? ≠ some and_)
    (last : (words text).getLast? ≠ some and_) : parseStrictCardinalNumberWords text = some n := by
  have phrase := phrase_spell less
  rw [← spelled] at phrase
  refine parseStrict_iff.mpr ⟨?_, first, last, phrase, by omega⟩
  intro none_
  rw [none_] at phrase
  have := phrase.lenient (List.not_mem_nil) 0
  rw [Nat.zero_add] at this
  have := Option.some.inj this
  omega

/-- The same of a text that writes the spelling with spaces and hyphens. -/
theorem parseStrict_writeWords (positive : 1 ≤ n) (less : n < 10 ^ 12) {first : Text}
    {rest : List (Char × Text)} (spelled : withoutAnd (first :: rest.map Prod.snd) = spell n)
    (joints : ∀ entry ∈ rest, IsJoint entry.1) (head : first ≠ and_)
    (last : (first :: rest.map Prod.snd).getLast? ≠ some and_) :
    parseStrictCardinalNumberWords (writeWords first rest) = some n := by
  have read := words_of_spelling less spelled joints
  refine parseStrict_of_words positive less (by rw [read, spelled]) ?_ (by rwa [read])
  rw [read]
  exact fun same => head (Option.some.inj same)

example : parseStrictCardinalNumberWords "one hundred and twenty-five".toList = some 125 := by decide

/-- **Spelling and strict parsing are inverse, but for "zero".**  Every spelling, with "and" at
any inner place, is read as its number.  What the strict parser reads is a spelling, and the
lenient parsers read the same, exactly if the phrase is not padded with "zero". -/
theorem strictMeans_iff (text : List Char) :
    (∀ n, 1 ≤ n → n < 10 ^ 12 → withoutAnd (words text) = spell n →
      (words text).head? ≠ some and_ → (words text).getLast? ≠ some and_ →
      parseStrictCardinalNumberWords text = some n) ∧
    (StrictMeans text ↔ ¬ IsZeroPadded text) := by
  refine ⟨fun n positive less spelled first last => ?_, ⟨?_, fun plain => ?_⟩⟩
  · exact parseStrict_of_words positive less spelled first last
  · rintro means ⟨hasZero, first, last, value, positive, phrase⟩
    obtain ⟨-, less, spelled, -⟩ := means value (parseStrict_iff.mpr
      ⟨List.ne_nil_of_mem hasZero, first, last, phrase, positive⟩)
    have member := (mem_withoutAnd (by decide)).mpr hasZero
    rw [spelled] at member
    exact zero_notMem_spellWith (fun _ => id) value member
  · intro value parsed
    obtain ⟨some_, first, last, phrase, positive⟩ := parseStrict_iff.mp parsed
    exact strictMeans_of_noZero (fun hasZero => plain ⟨hasZero, first, last, value, positive, phrase⟩)
      value parsed

/-- A zero group is dropped by the strict parser and taken for one by the lenient one. -/
theorem zeroThousand_is_read :
    parseStrictCardinalNumberWords "zero thousand five".toList = some 5 ∧
      parseCardinalNumberWords "zero thousand five".toList = some 1005 ∧
      ¬ StrictMeans "zero thousand five".toList := by
  obtain ⟨strict, lenient⟩ : parseStrictCardinalNumberWords "zero thousand five".toList = some 5 ∧
      parseCardinalNumberWords "zero thousand five".toList = some 1005 := by
    decide
  refine ⟨strict, lenient, fun means => ?_⟩
  have read := (means 5 strict).2.2.2.1
  rw [lenient] at read
  exact absurd (Option.some.inj read) (by decide)

end AxiomEncode.Numbers
