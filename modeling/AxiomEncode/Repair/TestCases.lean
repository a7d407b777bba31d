/-
# Repair.TestCases -- which test files a repair may propose

`_preserves_companion_test_cases` compares an original test file with a proposed one, case by
case under the names, and lets in what the contracts ask for.  `yaml.safe_load` is a parameter that
gives nothing where it raises; a contract whose name has no hash makes the call raise.
-/
import AxiomEncode.Theory.TypedYaml

namespace AxiomEncode.Repair

open Theory.Typed Value

set_option autoImplicit false

/-- What `yaml.safe_load` returns. -/
structure Document where
  value : Value
  wellFormed : WellFormed value

/-- A contract for a test case. -/
structure Contract where
  members : Members
  wellFormed : WellFormed (.map members)

/-- `set(mapping) == names` -/
def keysAre (members : Members) (names : List String) : Bool :=
  keysWithin Scalar.key (members.map Prod.fst) (names.map fun name => .text name.toList)
    && keysWithin Scalar.key (names.map fun name => .text name.toList) (members.map Prod.fst)

def isNan : Value → Bool
  | .scalar (.float .nan) => true
  | _ => false

/-- `a == b` of values that are no lists or dictionaries; a NaN is not itself. -/
def equal (a b : Value) : Bool := !isNan a && alike Scalar.key a b

mutual

/-- `values_equal` -/
def valuesEqual : Value → Value → Bool
  | .map left, .map right =>
    keysWithin Scalar.key (left.map Prod.fst) (right.map Prod.fst)
      && keysWithin Scalar.key (right.map Prod.fst) (left.map Prod.fst)
      && membersEqual left right
  | .seq left, .seq right => itemsEqual left right
  | left, right => left.kind = right.kind && equal left right

def itemsEqual : List Value → List Value → Bool
  | [], [] => true
  | left :: lefts, right :: rights => valuesEqual left right && itemsEqual lefts rights
  | _, _ => false

def membersEqual : Members → Members → Bool
  | [], _ => true
  | (key, left) :: lefts, rights =>
    (match lookupBy Scalar.key key rights with
      | some right => valuesEqual left right
      | none => false) && membersEqual lefts rights

end

/-- `case_list` -/
def caseList : Value → Option (List Value)
  | .seq items => some items
  | .map members =>
    if keysAre members ["cases"] then
      match get? members "cases" with
      | some (.seq items) => some items
      | _ => none
    else none
  | _ => none

/-- `isinstance(value, dict)` -/
def isDict : Value → Bool
  | .map _ => true
  | _ => false

/-- The cases under their names. -/
abbrev Indexed := List (List Char × Members)

/-- `by_name`, of the cases that follow the indexed ones. -/
def byName : List Value → Indexed → Option Indexed
  | [], indexed => some indexed
  | .map case :: cases, indexed =>
    match get? case "name" with
    | some (.scalar (.text name)) =>
      if name = [] ∨ name ∈ indexed.map Prod.fst then none
      else byName cases (indexed ++ [(name, case)])
    | _ => none
  | _ :: _, _ => none

/-- What has a hash. -/
def hashable : Value → Bool
  | .scalar _ => true
  | .tuple first second => hashable first && hashable second
  | _ => false

/-- The names of the contracts. -/
def contractNames (contracts : List Contract) : List Value :=
  contracts.map fun contract => field contract.members "name"

/-- `contracts_by_name.get(name)` -/
def contractOf (contracts : List Contract) (name : List Char) : Option Contract :=
  contracts.find? fun contract =>
    alike Scalar.key (.scalar (.text name)) (field contract.members "name")

/-- `contracts_by_name` has an entry for every contract, and none under `None`. -/
def contractsIndexed (contracts : List Contract) : Bool :=
  !contracts.isEmpty
    && (contractNames contracts).all (fun name => !alike Scalar.key (.scalar .null) name)
    && decide ((contractNames contracts).Pairwise fun a b => alike Scalar.key a b = false)

/-- Every required output is in the output. -/
def asserts (output required : Members) : Bool :=
  required.all fun member =>
    match lookupBy Scalar.key member.1 output with
    | some value => valuesEqual value member.2
    | none => false

/-- A case without its output. -/
def withoutOutput (case : Members) : Members :=
  case.filter fun member => member.1.key ≠ .text "output".toList

/-- `contract.get("required_output", {})`, if it is a dictionary; nothing is required without a contract. -/
def requiredOutput : Option Contract → Option Members
  | none => some []
  | some contract =>
    match (get? contract.members "required_output").getD (.map []) with
    | .map required => some required
    | _ => none

/-- The case of the original is kept, with more outputs only under a contract. -/
def keepsCase (contracts : List Contract) (name : List Char) (original proposed : Members) : Bool :=
  valuesEqual (.map (withoutOutput proposed)) (.map (withoutOutput original))
    && match get? original "output", get? proposed "output",
        requiredOutput (contractOf contracts name) with
      | some (.map originalOutput), some (.map proposedOutput), some required =>
        ((contractOf contracts name).isSome
            || keysWithin Scalar.key (proposedOutput.map Prod.fst) (originalOutput.map Prod.fst))
          && asserts proposedOutput originalOutput
          && asserts proposedOutput required
      | _, _, _ => false

/-- The new case is the one that the contract asks for. -/
def meetsContract (contracts : List Contract) (name : List Char) (case : Members) : Bool :=
  match contractOf contracts name with
  | none => false
  | some contract =>
    keysAre case ["name", "period", "input", "output"]
      && valuesEqual (field case "name") (.scalar (.text name))
      && valuesEqual (field case "period") (field contract.members "period")
      && valuesEqual (field case "input") (field contract.members "input")
      && match field case "output", field contract.members "required_output" with
        | .map output, .map required => asserts output required
        | _, _ => false

section Load

variable (load : List Char → Option Document)

/-- The cases of a file under their names. -/
def indexedCases (content : List Char) : Option Indexed :=
  (load content).bind fun document => (caseList document.value).bind fun cases => byName cases []

/-- `_preserves_companion_test_cases` -/
def preservesCompanionTestCases (originalContent proposedContent : List Char)
    (contracts : List Contract) : Option Bool :=
  match load originalContent, load proposedContent with
  | some original, some proposed =>
    if caseList original.value = none ∨ caseList proposed.value = none then some false
    else if isDict original.value ≠ isDict proposed.value then some false
    else
      match indexedCases load originalContent, indexedCases load proposedContent with
      | some originalByName, some proposedByName =>
        if (contractNames contracts).any fun name => !hashable name then none
        else if !contractsIndexed contracts then some false
        else
          some (proposedByName.all (fun case =>
                (originalByName.lookup case.1).isSome || (contractOf contracts case.1).isSome)
            && originalByName.all (fun case =>
                match proposedByName.lookup case.1 with
                | some proposed => keepsCase contracts case.1 case.2 proposed
                | none => false)
            && (proposedByName.filter fun case => (originalByName.lookup case.1).isNone).all
                fun case => meetsContract contracts case.1 case.2)
      | _, _ => some false
  | _, _ => some false

end Load

end AxiomEncode.Repair
