/-
# Repair.NeverWeakens -- accepted test files say what the original says

An evaluator gives each period and input its outputs, and does not see in which order mappings are
written.  An accepted file repeats every assertion of the original whose typed values its comparison
tells apart (`exists_repeated`).  `neverWeakens_iff`: every original case passes where those of an
accepted file pass, and its new cases are those of the contracts, if and only if no assertion is lost
of which a typed value is taken for another one, and none of a new case for one of its contract.
-/
import AxiomEncode.Repair.TestCasesSpec
import Mathlib.Data.List.Pairwise

namespace AxiomEncode.Repair

open Theory.Typed Value

set_option autoImplicit false

/-- A function from a period and an input to named output values. -/
structure Evaluator where
  output : Value → Value → Scalar → Option Value
  respects : ∀ period period' input input' name, Same period period' → Same input input' →
    output period input name = output period' input' name

/-- One output that a case asserts. -/
structure Assertion where
  period : Value
  input : Value
  name : Scalar
  value : Value

def Evaluator.Meets (evaluator : Evaluator) (assertion : Assertion) : Prop :=
  ∃ value, evaluator.output assertion.period assertion.input assertion.name = some value
    ∧ Same value assertion.value

/-- What a case asserts. -/
def assertions (case : Members) : List Assertion :=
  match field case "output" with
  | .map output => output.map fun member => ⟨field case "period", field case "input", member.1, member.2⟩
  | _ => []

def Evaluator.Passes (evaluator : Evaluator) (case : Members) : Prop :=
  ∀ assertion ∈ assertions case, evaluator.Meets assertion

/-- Two assertions are about the same output of the same call. -/
def SameCall (a b : Assertion) : Prop :=
  Same a.period b.period ∧ Same a.input b.input ∧ a.name = b.name

instance (a b : Assertion) : Decidable (SameCall a b) := inferInstanceAs (Decidable (_ ∧ _ ∧ _))

/-- Two assertions that no evaluator meets. -/
def Contradicts (given : List Assertion) : Prop :=
  ∃ a ∈ given, ∃ b ∈ given, SameCall a b ∧ ¬ Same a.value b.value

/-- Every assertion is among the given ones. -/
def Repeats (given wanted : List Assertion) : Prop :=
  ∀ a ∈ wanted, ∃ b ∈ given, SameCall b a ∧ Same b.value a.value

instance (given : List Assertion) : Decidable (Contradicts given) :=
  inferInstanceAs (Decidable (∃ a ∈ given, ∃ b ∈ given, SameCall a b ∧ ¬ Same a.value b.value))

instance (given wanted : List Assertion) : Decidable (Repeats given wanted) :=
  inferInstanceAs (Decidable (∀ a ∈ wanted, ∃ b ∈ given, SameCall b a ∧ Same b.value a.value))

/-- Equal to the code, though the typed values differ. -/
def Conflated (a b : Value) : Prop := valuesEqual a b = true ∧ ¬ Same a b

section Files

variable (load : List Char → Option Document) (contracts : List Contract)

/-- The cases of a file under their names. -/
def casesOf (content : List Char) : Indexed := (indexedCases load content).getD []

/-- What a file asserts. -/
def assertionsOf (content : List Char) : List Assertion :=
  (casesOf load content).flatMap fun case => assertions case.2

/-- The cases that the other file lacks. -/
def addedCases (o p : List Char) : Indexed :=
  (casesOf load p).filter fun case => ((casesOf load o).lookup case.1).isNone

/-- A case has the period and the input of a contract and asserts its outputs. -/
structure Fulfils (contract : Contract) (case : Members) : Prop where
  period : Same (field case "period") (field contract.members "period")
  input : Same (field case "input") (field contract.members "input")
  outputs : ∃ output required, field case "output" = .map output
    ∧ field contract.members "required_output" = .map required
    ∧ ∀ member ∈ required, ∃ value, (member.1, value) ∈ output ∧ Same value member.2

/-- A tests-only repair does not weaken the tests. -/
structure NeverWeakens (o p : List Char) : Prop where
  evaluated : ∀ evaluator : Evaluator, (∀ case ∈ casesOf load p, evaluator.Passes case.2) →
    ∀ case ∈ casesOf load o, evaluator.Passes case.2
  added : ∀ case ∈ addedCases load o p, ∃ contract ∈ contracts,
    field contract.members "name" = .scalar (.text case.1) ∧ Fulfils contract case.2
  composed : ∀ q, preservesCompanionTestCases load p q contracts = some true →
    preservesCompanionTestCases load o q contracts = some true

/-- A new case and its contract differ in no value that the code takes for equal. -/
structure Distinguished (contract : Contract) (case : Members) : Prop where
  period : ¬ Conflated (field case "period") (field contract.members "period")
  input : ¬ Conflated (field case "input") (field contract.members "input")
  outputs : ∀ output required, field case "output" = .map output →
    field contract.members "required_output" = .map required →
    ∀ member ∈ required, ∀ found ∈ output, found.1.key = member.1.key →
      found.1 = member.1 ∧ ¬ Conflated found.2 member.2

/-- In the place of an assertion of an original case, a proposed one has another period, input, output
name or value that the code takes for equal. -/
structure Retyped (original proposed : Members) (assertion : Assertion) : Prop where
  asserted : assertion ∈ assertions original
  other : Conflated (field proposed "period") (field original "period") ∨
    Conflated (field proposed "input") (field original "input") ∨
    ∃ output, field proposed "output" = .map output ∧ ∃ found ∈ output,
      found.1.key = assertion.name.key ∧
        (found.1 ≠ assertion.name ∨ Conflated found.2 assertion.value)

/-- An assertion of a file that the other file has retyped, in the case of the same name. -/
def RetypedIn (o p : List Char) (assertion : Assertion) : Prop :=
  ∃ case ∈ casesOf load o, ∃ proposed, (casesOf load p).lookup case.1 = some proposed ∧
    Retyped case.2 proposed assertion

/-- No retyped assertion is lost, and no contract is met by other values. -/
structure TellsApart (o p : List Char) : Prop where
  assertions : Contradicts (assertionsOf load p) ∨ ∀ a, RetypedIn load o p a →
    ∃ b ∈ assertionsOf load p, SameCall b a ∧ Same b.value a.value
  contracts : ∀ case ∈ addedCases load o p, ∀ contract, contractOf contracts case.1 = some contract →
    Distinguished contract case.2

end Files

/-! ## Evaluators -/

section Evaluators

variable {given wanted : List Assertion}

theorem SameCall.symm {a b : Assertion} (same : SameCall a b) : SameCall b a :=
  ⟨same.1.symm, same.2.1.symm, same.2.2.symm⟩

theorem output_sameCall (evaluator : Evaluator) {a b : Assertion} (same : SameCall a b) :
    evaluator.output a.period a.input a.name = evaluator.output b.period b.input b.name := by
  rw [same.2.2]
  exact evaluator.respects _ _ _ _ _ same.1 same.2.1

/-- The evaluator that knows the given assertions only. -/
def tabulated (given : List Assertion) : Evaluator where
  output period input name :=
    (given.find? fun a => Same a.period period ∧ Same a.input input ∧ a.name = name).map Assertion.value
  respects := by
    intro period period' input input' name samePeriod sameInput
    have isSame : (fun a : Assertion => decide (Same a.period period ∧ Same a.input input ∧ a.name = name))
        = fun a => decide (Same a.period period' ∧ Same a.input input' ∧ a.name = name) := by
      funext a
      refine decide_eq_decide.mpr (and_congr ?_ (and_congr_left' ?_))
      · exact ⟨fun same => same.trans samePeriod, fun same => same.trans samePeriod.symm⟩
      · exact ⟨fun same => same.trans sameInput, fun same => same.trans sameInput.symm⟩
    rw [isSame]

theorem sameCall_of_find {a found : Assertion}
    (isFound : (given.find? fun b => Same b.period a.period ∧ Same b.input a.input ∧ b.name = a.name)
      = some found) : SameCall found a := by
  have holds := List.find?_some isFound
  exact of_decide_eq_true holds

/-- **Every evaluator that meets the given assertions meets the wanted ones if and only if the given
ones contradict each other or repeat the wanted ones.** -/
theorem meets_all_iff (sound : ∀ a ∈ given, SameCall a a) :
    (∀ evaluator : Evaluator, (∀ a ∈ given, evaluator.Meets a) → ∀ a ∈ wanted, evaluator.Meets a)
      ↔ Contradicts given ∨ Repeats given wanted := by
  constructor
  · intro follows
    by_cases contradicts : Contradicts given
    · exact .inl contradicts
    · refine .inr fun a isWanted => ?_
      have knows : ∀ a ∈ given, (tabulated given).Meets a := by
        intro a isGiven
        obtain ⟨found, isFound⟩ : ∃ found, (given.find? fun b =>
            Same b.period a.period ∧ Same b.input a.input ∧ b.name = a.name) = some found := by
          refine Option.isSome_iff_exists.mp (List.find?_isSome.mpr ⟨a, isGiven, ?_⟩)
          exact decide_eq_true (sound a isGiven)
        refine ⟨found.value, congrArg (Option.map Assertion.value) isFound, ?_⟩
        by_contra differs
        have same : SameCall found a := sameCall_of_find isFound
        exact contradicts ⟨found, List.mem_of_find?_eq_some isFound, a, isGiven, same, differs⟩
      obtain ⟨value, isValue, same⟩ := follows (tabulated given) knows a isWanted
      obtain ⟨b, isFound, rfl⟩ := Option.map_eq_some_iff.mp isValue
      exact ⟨b, List.mem_of_find?_eq_some isFound, sameCall_of_find isFound, same⟩
  · rintro (⟨a, isGiven, b, isGiven', sameCall, differs⟩ | repeats) evaluator meets wish isWanted
    · obtain ⟨value, isValue, same⟩ := meets a isGiven
      obtain ⟨value', isValue', same'⟩ := meets b isGiven'
      rw [output_sameCall evaluator sameCall, isValue'] at isValue
      cases isValue
      exact absurd (same.symm.trans same') differs
    · obtain ⟨b, isGiven, sameCall, same⟩ := repeats wish isWanted
      obtain ⟨value, isValue, same'⟩ := meets b isGiven
      exact ⟨value, (output_sameCall evaluator sameCall).symm.trans isValue, same'.trans same⟩

end Evaluators

/-! ## Decoded cases -/

section WellFormed

variable {load : List Char → Option Document} {content name : List Char} {case : Members}

theorem wellFormed_get? {field : String} {value : Value} (wellFormed : WellFormed (.map case))
    (isValue : get? case field = some value) : WellFormed value := by
  obtain ⟨key, isMember, -⟩ := lookupBy_eq_some isValue
  cases wellFormed with
  | map distinct each => exact each _ isMember

theorem wellFormed_field (field : String) (wellFormed : WellFormed (.map case)) :
    WellFormed (Value.field case field) := by
  rw [Value.field]
  cases isValue : get? case field with
  | none => exact .scalar _
  | some value => exact wellFormed_get? wellFormed isValue

theorem wellFormed_caseList {value : Value} {cases : List Value} (wellFormed : WellFormed value)
    (isList : caseList value = some cases) : ∀ case ∈ cases, WellFormed case := by
  cases wellFormed with
  | seq each =>
    cases isList
    exact each
  | map distinct each =>
    rw [caseList] at isList
    split at isList
    · split at isList
      · next isCases =>
          cases isList
          cases wellFormed_get? (.map distinct each) isCases with
          | seq each => exact each
      · cases isList
    · cases isList
  | _ => cases isList

theorem wellFormed_byName : ∀ (cases : List Value) {indexed result : Indexed},
    (∀ case ∈ cases, WellFormed case) → (∀ case ∈ indexed, WellFormed (.map case.2)) →
    byName cases indexed = some result → ∀ case ∈ result, WellFormed (.map case.2) := by
  intro cases
  induction cases with
  | nil =>
    intro indexed result _ before isResult
    cases isResult
    exact before
  | cons case cases ih =>
    intro indexed result each before isResult
    rw [List.forall_mem_cons] at each
    cases case with
    | map members =>
      rw [byName] at isResult
      split at isResult
      · next name isName =>
          obtain ⟨-, isResult⟩ := Option.ite_none_left_eq_some.mp isResult
          refine ih each.2 ?_ isResult
          rintro case isCase
          rcases List.mem_append.mp isCase with isBefore | isLast
          · exact before case isBefore
          · rw [List.mem_singleton.mp isLast]
            exact each.1
      · cases isResult
    | _ => cases isResult

theorem wellFormed_case (isCase : (name, case) ∈ casesOf load content) : WellFormed (.map case) := by
  rw [casesOf] at isCase
  cases isIndexed : indexedCases load content with
  | none => simp [isIndexed] at isCase
  | some indexed =>
    rw [isIndexed, Option.getD_some] at isCase
    obtain ⟨document, isDocument, isIndexed⟩ := Option.bind_eq_some_iff.mp isIndexed
    obtain ⟨cases, isCases, isIndexed⟩ := Option.bind_eq_some_iff.mp isIndexed
    exact wellFormed_byName cases (wellFormed_caseList document.wellFormed isCases)
      (by simp) isIndexed _ isCase

theorem sameCall_refl {a : Assertion} (declared : a ∈ assertionsOf load content) : SameCall a a := by
  obtain ⟨⟨name, case⟩, isCase, asserted⟩ := List.mem_flatMap.mp declared
  have wellFormed := wellFormed_case isCase
  rw [assertions] at asserted
  split at asserted
  · obtain ⟨member, -, rfl⟩ := List.mem_map.mp asserted
    exact ⟨same_refl (wellFormed_field _ wellFormed), same_refl (wellFormed_field _ wellFormed), rfl⟩
  · cases asserted

end WellFormed

/-! ## New cases -/

section Contracts

variable {contracts : List Contract} {contract other : Contract} {name : List Char} {case : Members}

theorem contractOf_eq_some (isContract : contractOf contracts name = some contract) :
    contract ∈ contracts ∧ field contract.members "name" = .scalar (.text name) := by
  refine ⟨List.mem_of_find?_eq_some isContract, ?_⟩
  have named := List.find?_some isContract
  cases isName : field contract.members "name" with
  | scalar value =>
    rw [isName, alike, decide_eq_true_eq, Scalar.key_text] at named
    exact congrArg Value.scalar (Scalar.key_eq_text.mp named.symm)
  | _ => simp [isName, alike] at named

theorem eq_of_name (indexed : contractsIndexed contracts = true) (declared : contract ∈ contracts)
    (declared' : other ∈ contracts) (isName : field contract.members "name" = .scalar (.text name))
    (isName' : field other.members "name" = .scalar (.text name)) : contract = other := by
  rw [contractsIndexed, Bool.and_eq_true] at indexed
  have distinct := List.pairwise_map.mp (of_decide_eq_true indexed.2)
  by_contra differs
  let Apart (a b : Contract) : Prop :=
    ¬ (field a.members "name" = .scalar (.text name) ∧ field b.members "name" = .scalar (.text name))
  have unnamed : contracts.Pairwise Apart := by
    refine distinct.imp fun {a b} apart ⟨isA, isB⟩ => ?_
    simp [isA, isB, alike] at apart
  have symmetric : Std.Symm Apart := ⟨fun a b apart both => apart both.symm⟩
  exact unnamed.forall declared declared' differs ⟨isName, isName'⟩

theorem same_of_not_conflated {a b : Value} (equal : valuesEqual a b = true)
    (apart : ¬ Conflated a b) : Same a b :=
  not_not.mp fun differs => apart ⟨equal, differs⟩

theorem fulfils_iff (isContract : contractOf contracts name = some contract)
    (wellFormed : WellFormed (.map case)) (meets : meetsContract contracts name case = true) :
    Fulfils contract case ↔ Distinguished contract case := by
  obtain ⟨_, isContract', -, -, samePeriod, sameInput, output, required, isOutput, isRequired, holds⟩ :=
    meetsContract_iff.mp meets
  cases isContract.symm.trans isContract'
  have isOutputField : field case "output" = .map output := by rw [field, isOutput, Option.getD_some]
  have isRequiredField : field contract.members "required_output" = .map required := by
    rw [field, isRequired, Option.getD_some]
  constructor
  · rintro ⟨period, input, output', required', isOutput', isRequired', fulfilled⟩
    refine ⟨fun conflated => conflated.2 period, fun conflated => conflated.2 input, ?_⟩
    intro _ _ isOutput'' isRequired'' member declared found isFound sameKey
    cases isOutput'.symm.trans isOutput''
    cases isRequired'.symm.trans isRequired''
    obtain ⟨value, isMember, same⟩ := fulfilled member declared
    have isWellFormed := wellFormed_field "output" wellFormed
    rw [isOutput'] at isWellFormed
    cases isWellFormed with
    | map distinct each =>
      cases List.inj_on_of_nodup_map distinct isFound isMember sameKey
      exact ⟨rfl, fun conflated => conflated.2 same⟩
  · rintro ⟨period, input, outputs⟩
    refine ⟨same_of_not_conflated samePeriod period, same_of_not_conflated sameInput input,
      output, required, isOutputField, isRequiredField, fun member declared => ?_⟩
    obtain ⟨value, found, equal⟩ := asserts_iff.mp holds member declared
    obtain ⟨key, isMember, sameKey⟩ := lookupBy_eq_some found
    obtain ⟨isKey, apart⟩ := outputs output required isOutputField isRequiredField member declared
      (key, value) isMember sameKey
    cases isKey
    exact ⟨value, isMember, same_of_not_conflated equal apart⟩

end Contracts

/-! ## Old cases -/

section Kept

variable {load : List Char → Option Document} {contracts : List Contract} {o p name : List Char}
  {original proposed : Members} {a : Assertion}

/-- A field besides the output is in both cases or in none. -/
theorem same_field {field : String} (other : field ≠ "output")
    (same : valuesEqual (.map (withoutOutput proposed)) (.map (withoutOutput original)) = true)
    (apart : ¬ Conflated (Value.field proposed field) (Value.field original field)) :
    Same (Value.field proposed field) (Value.field original field) := by
  by_cases present : (get? proposed field).isSome
  · exact same_of_not_conflated (valuesEqual_field other present same) apart
  · have absent : ¬ (get? original field).isSome := by
      rw [← get?_withoutOutput other, get?, lookupBy_isSome] at present ⊢
      rintro ⟨member, isMember, isKey⟩
      obtain ⟨key, isProposed, sameKey⟩ := keysWithin_iff.mp (valuesEqual_map.mp same).1.2 member.1
        (List.mem_map_of_mem isMember)
      obtain ⟨member', isMember', rfl⟩ := List.mem_map.mp isProposed
      exact present ⟨member', isMember', sameKey.trans isKey⟩
    rw [Option.not_isSome_iff_eq_none] at present absent
    rw [Value.field, Value.field, present, absent]
    exact same_refl (.scalar _)

/-- **What is not retyped is repeated**, in the case of the same name. -/
theorem exists_repeated (kept : keepsCase contracts name original proposed = true)
    (asserted : a ∈ assertions original) (apart : ¬ Retyped original proposed a) :
    ∃ b ∈ assertions proposed, SameCall b a ∧ Same b.value a.value := by
  obtain ⟨same, output, output', -, isOutput, isOutput', -, -, keeps, -⟩ := keepsCase_iff.mp kept
  have isField : field original "output" = .map output := by rw [field, isOutput, Option.getD_some]
  have isField' : field proposed "output" = .map output' := by rw [field, isOutput', Option.getD_some]
  obtain ⟨period, told⟩ := not_or.mp fun other => apart ⟨asserted, other⟩
  obtain ⟨input, outputs⟩ := not_or.mp told
  rw [assertions, isField] at asserted
  obtain ⟨member, declared, rfl⟩ := List.mem_map.mp asserted
  obtain ⟨value, found, equal⟩ := asserts_iff.mp keeps member declared
  obtain ⟨key, isMember, sameKey⟩ := lookupBy_eq_some found
  obtain ⟨isKey, notConflated⟩ := not_or.mp fun other =>
    outputs ⟨output', isField', (key, value), isMember, sameKey, other⟩
  obtain rfl := not_ne_iff.mp isKey
  refine ⟨⟨field proposed "period", field proposed "input", member.1, value⟩, ?_,
    ⟨same_field (by decide) same period, same_field (by decide) same input, rfl⟩,
    same_of_not_conflated equal notConflated⟩
  rw [assertions, isField']
  exact List.mem_map.mpr ⟨(member.1, value), isMember, rfl⟩

/-- An accepted file repeats the original if it repeats what is retyped. -/
theorem repeats_iff (accepted : preservesCompanionTestCases load o p contracts = some true) :
    Repeats (assertionsOf load p) (assertionsOf load o) ↔ ∀ a, RetypedIn load o p a →
      ∃ b ∈ assertionsOf load p, SameCall b a ∧ Same b.value a.value := by
  obtain ⟨document, document', originals, proposals, -, -, -, isOriginals, isProposals, -, -, keeps⟩ :=
    accepted_iff.mp accepted
  have isCases : casesOf load o = originals := by rw [casesOf, isOriginals, Option.getD_some]
  have isCases' : casesOf load p = proposals := by rw [casesOf, isProposals, Option.getD_some]
  constructor
  · rintro repeats a ⟨case, isCase, proposed, -, retyped⟩
    exact repeats a (List.mem_flatMap.mpr ⟨case, isCase, retyped.asserted⟩)
  · intro retypedRepeats a declared
    obtain ⟨case, isCase, asserted⟩ := List.mem_flatMap.mp declared
    obtain ⟨proposed, isProposed, kept⟩ := keeps.kept case (isCases ▸ isCase)
    rw [← isCases'] at isProposed
    by_cases retyped : Retyped case.2 proposed a
    · exact retypedRepeats a ⟨case, isCase, proposed, isProposed, retyped⟩
    · obtain ⟨b, isAsserted, same⟩ := exists_repeated kept asserted retyped
      exact ⟨b, List.mem_flatMap.mpr ⟨(case.1, proposed), mem_of_lookup isProposed, isAsserted⟩, same⟩

end Kept

/-! ## The result -/

section Files

variable {load : List Char → Option Document} {contracts : List Contract} {o p : List Char}

theorem evaluated_iff :
    (∀ evaluator : Evaluator, (∀ case ∈ casesOf load p, evaluator.Passes case.2) →
        ∀ case ∈ casesOf load o, evaluator.Passes case.2)
      ↔ Contradicts (assertionsOf load p) ∨ Repeats (assertionsOf load p) (assertionsOf load o) := by
  rw [← meets_all_iff fun a => sameCall_refl]
  have passes (evaluator : Evaluator) (content : List Char) :
      (∀ case ∈ casesOf load content, evaluator.Passes case.2)
        ↔ ∀ a ∈ assertionsOf load content, evaluator.Meets a := by
    simp only [assertionsOf, List.mem_flatMap, Evaluator.Passes]
    constructor
    · rintro each a ⟨case, isCase, asserted⟩
      exact each case isCase a asserted
    · intro each case isCase a asserted
      exact each a ⟨case, isCase, asserted⟩
  simp only [passes]

/-- **An accepted file weakens no test if and only if the comparison tells its typed values apart.** -/
theorem neverWeakens_iff (accepted : preservesCompanionTestCases load o p contracts = some true) :
    NeverWeakens load contracts o p ↔ TellsApart load contracts o p := by
  obtain ⟨original, proposed, originals, proposals, isOriginal, isProposed, shape, isOriginals,
    isProposals, hashed, indexed, keeps⟩ := accepted_iff.mp accepted
  have isCases : casesOf load o = originals := by rw [casesOf, isOriginals, Option.getD_some]
  have isCases' : casesOf load p = proposals := by rw [casesOf, isProposals, Option.getD_some]
  have met : ∀ case ∈ addedCases load o p, meetsContract contracts case.1 case.2 = true
      ∧ WellFormed (.map case.2) := by
    intro case isAdded
    obtain ⟨isCase, isNew⟩ := List.mem_filter.mp isAdded
    refine ⟨?_, wellFormed_case isCase⟩
    rw [isCases'] at isCase
    rw [isCases] at isNew
    exact keeps.met case isCase (Option.isNone_iff_eq_none.mp isNew)
  constructor
  · intro never
    refine ⟨(evaluated_iff.mp never.evaluated).imp_right (repeats_iff accepted).mp,
      fun case isAdded contract isContract => ?_⟩
    obtain ⟨meets, wellFormed⟩ := met case isAdded
    obtain ⟨other, declared, isName, fulfils⟩ := never.added case isAdded
    obtain ⟨declared', isName'⟩ := contractOf_eq_some isContract
    cases eq_of_name indexed declared declared' isName isName'
    exact (fulfils_iff isContract wellFormed meets).mp fulfils
  · intro apart
    refine ⟨evaluated_iff.mpr (apart.assertions.imp_right (repeats_iff accepted).mpr),
      fun case isAdded => ?_, fun q => preserves_trans accepted⟩
    obtain ⟨meets, wellFormed⟩ := met case isAdded
    obtain ⟨contract, isContract, -⟩ := meetsContract_iff.mp meets
    obtain ⟨declared, isName⟩ := contractOf_eq_some isContract
    exact ⟨contract, declared, isName, (fulfils_iff isContract wellFormed meets).mpr
      (apart.contracts case isAdded contract isContract)⟩

end Files

/-! ## A key of another type -/

/-- One case with an input that is keyed by `key`. -/
def sampleFile (key : Scalar) : Value :=
  .seq [.map [(.text "name".toList, .scalar (.text "a".toList)),
    (.text "input".toList, .map [(key, .scalar (.int 5))]),
    (.text "output".toList, .map [(.text "x".toList, .scalar (.int 1))])]]

theorem wellFormed_sampleFile (key : Scalar) : WellFormed (sampleFile key) := by
  have distinct : ([.text "name".toList, .text "input".toList, .text "output".toList] : List Key).Nodup := by
    decide
  refine .seq (List.forall_mem_singleton.mpr (.map distinct ?_))
  rw [List.forall_mem_cons, List.forall_mem_cons, List.forall_mem_singleton]
  refine ⟨.scalar _, .map (List.nodup_singleton _) ?_, .map (List.nodup_singleton _) ?_⟩
  · exact List.forall_mem_singleton.mpr (.scalar _)
  · exact List.forall_mem_singleton.mpr (.scalar _)

def sampleOriginal : List Char := "- {name: a, input: {1: 5}, output: {x: 1}}".toList

def sampleProposed : List Char := "- {name: a, input: {true: 5}, output: {x: 1}}".toList

/-- The values of the two sample files. -/
def sampleLoad (content : List Char) : Option Document :=
  if content = sampleOriginal then some ⟨_, wellFormed_sampleFile (.int 1)⟩
  else if content = sampleProposed then some ⟨_, wellFormed_sampleFile (.bool true)⟩
  else none

def sampleContract : Contract where
  members := [(.text "name".toList, .scalar (.text "b".toList))]
  wellFormed := .map (List.nodup_singleton _) (List.forall_mem_singleton.mpr (.scalar _))

theorem preserves_sample :
    preservesCompanionTestCases sampleLoad sampleOriginal sampleProposed [sampleContract] = some true := by
  decide

/-- The key `1` of an input may be replaced by `true`. -/
theorem neverWeakens_of_other_key :
    preservesCompanionTestCases sampleLoad sampleOriginal sampleProposed [sampleContract] = some true
      ∧ ¬ NeverWeakens sampleLoad [sampleContract] sampleOriginal sampleProposed := by
  refine ⟨preserves_sample, fun never => ?_⟩
  have neither : ¬ (Contradicts (assertionsOf sampleLoad sampleProposed)
      ∨ Repeats (assertionsOf sampleLoad sampleProposed) (assertionsOf sampleLoad sampleOriginal)) := by
    decide
  exact neither (evaluated_iff.mp never.evaluated)

/-- The unchanged file weakens nothing. -/
theorem neverWeakens_unchanged :
    NeverWeakens sampleLoad [sampleContract] sampleOriginal sampleOriginal := by
  have accepted : preservesCompanionTestCases sampleLoad sampleOriginal sampleOriginal
      [sampleContract] = some true := by decide
  refine (neverWeakens_iff accepted).mpr ⟨.inr ((repeats_iff accepted).mp (by decide)), ?_⟩
  have nothing : (addedCases sampleLoad sampleOriginal sampleOriginal).length = 0 := by decide
  intro case isAdded
  rw [List.length_eq_zero_iff.mp nothing] at isAdded
  cases isAdded

end AxiomEncode.Repair
