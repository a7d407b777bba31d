/-
# Validator.TemporalCoverage -- derived versions and the local rules they name

`findLocalDependencyTemporalCoverageIssues` reads the rules of a document, derives the
interval of every dated version from its end or from the start of the next version, and
reports a derived version that names a local rule whose intervals leave a part of it out.
The sorting of the intervals raises where one without an end starts with one that has an
end, and then nothing is reported at all.
-/
import AxiomEncode.Theory.PyDate
import AxiomEncode.Theory.PyYaml
import AxiomEncode.Theory.Regex
import Mathlib.Data.List.Sort
import Mathlib.Data.Prod.Lex
import Mathlib.Order.WithBot
import Mathlib.Data.Char
import Mathlib.Data.List.Lex

namespace AxiomEncode.Validator

open Theory

set_option autoImplicit false

abbrev Text := List Char

/-- What the check takes from PyYAML and from the language's library. -/
structure Library where
  /-- `yaml.safe_load`, nothing where it raises -/
  safeLoad : Text → Option Yaml
  /-- `repr` of a list or a mapping -/
  repr : Yaml → Text
  /-- `date.fromisoformat`, nothing where it raises `ValueError` -/
  fromIsoFormat : Text → Option Date
  /-- a character of `\w` -/
  isWord : Char → Bool

section

variable (library : Library)

/-! ## Identifiers of a formula -/

/-- `_QUOTED_STRING_PATTERN` -/
def quotedStringPattern : Regex :=
  .alt (.sequence [.char '\'', .star (.set (· != '\'')), .char '\''])
    (.sequence [.char '"', .star (.set (· != '"')), .char '"'])

def isIdentifierStart (c : Char) : Bool := c.isAlpha || c == '_'

def isIdentifierChar (c : Char) : Bool := c.isAlphanum || c == '_'

/-- `_RULESPEC_IDENTIFIER` -/
def rulespecIdentifier : Regex :=
  .sequence [.boundary library.isWord, .set isIdentifierStart, .star (.set isIdentifierChar),
    .boundary library.isWord]

/-- `_RULESPEC_FORMULA_BUILTINS` -/
def rulespecFormulaBuiltins : List String :=
  ["False", "None", "True", "abs", "all", "and", "any", "ceil", "count", "count_where",
    "date_add_days", "days_between", "elif", "else", "floor", "if", "len", "match", "max", "min",
    "not", "or", "period_end", "period_start", "round", "sum", "sum_where", "true", "false"]

/-- `_formula_local_identifiers` -/
def formulaLocalIdentifiers (formula : Text) : List Text :=
  let scrubbed := quotedStringPattern.sub [' '] formula
  (((rulespecIdentifier library).finditer scrubbed).map fun found =>
    Regex.slice scrubbed found.start found.finish).filter fun name =>
      !(rulespecFormulaBuiltins.any fun builtin => builtin.toList == name)

/-! ## Intervals -/

/-- From a date through another one, or without an end. -/
structure Interval where
  start : Date
  stop : Option Date
  deriving DecidableEq

/-- A version with a start date, at its place in the list of versions. -/
structure DatedVersion where
  index : Nat
  version : Yaml.Mapping
  start : Date

/-- A version with the interval in which it is in force. -/
structure EffectiveVersion extends DatedVersion where
  stop : Option Date

def EffectiveVersion.interval (version : EffectiveVersion) : Interval :=
  ⟨version.start, version.stop⟩

/-- `date.fromisoformat(str(raw).strip())` -/
def readDate (raw : Yaml) : Option Date := library.fromIsoFormat (strip (raw.str library.repr))

/-- One element of `versions`, if it is a mapping with a start date. -/
def datedVersion (entry : Yaml × Nat) : Option DatedVersion :=
  match entry.1 with
  | .map version => do
    let raw ← Yaml.get? version "effective_from"
    let start ← readDate library raw
    pure ⟨entry.2, version, start⟩
  | _ => none

/-- By start date, and by place for one date. -/
def DatedVersion.key (version : DatedVersion) : Date ×ₗ Nat := toLex (version.start, version.index)

def datedVersions (rule : Yaml.Mapping) : List DatedVersion :=
  match Yaml.value rule "versions" with
  | .seq versions =>
    (versions.zipIdx.filterMap (datedVersion library)).insertionSort fun a b => a.key ≤ b.key
  | _ => []

/-- `version.get("effective_to") in (None, "")` -/
def isOpenEnded (version : Yaml.Mapping) : Bool :=
  match Yaml.value version "effective_to" with
  | .null => true
  | .text text => text.isEmpty
  | _ => false

/-- The end of a version, given the next one; nothing for a version that is left out. -/
def effectiveStop (version : DatedVersion) (next : Option DatedVersion) : Option (Option Date) :=
  if !isOpenEnded version.version then
    (readDate library (Yaml.value version.version "effective_to")).map some
  else
    match next with
    | none => some none
    | some next =>
      if next.start ≤ version.start then none else (next.start.subDay).map some

/-- The version with its interval, unless that is empty. -/
def effectiveVersion (version : DatedVersion) (next : Option DatedVersion) :
    Option EffectiveVersion := do
  let stop ← effectiveStop library version next
  if stop.any (· < version.start) then none else pure ⟨version, stop⟩

def closeVersions : List DatedVersion → List EffectiveVersion
  | [] => []
  | version :: rest => (effectiveVersion library version rest.head?).toList ++ closeVersions rest

/-- `_rule_effective_intervals` -/
def ruleEffectiveIntervals (rule : Yaml.Mapping) : List EffectiveVersion :=
  closeVersions library (datedVersions library rule)

/-- The intervals of a rule. -/
def intervalsOf (rule : Yaml.Mapping) : List Interval :=
  (ruleEffectiveIntervals library rule).map EffectiveVersion.interval

/-- The place of an interval in a sorted list; no end comes after every end. -/
def Interval.key (interval : Interval) : Date ×ₗ WithTop Date :=
  toLex (interval.start, interval.stop.elim ⊤ fun stop => ↑stop)

/-- Two intervals start on one day, and only one has an end: their ends are a date and
`None`, which `<` does not compare. -/
def cannotCompare (a b : Interval) : Bool :=
  a.start = b.start && a.stop.isNone && b.stop.isSome

/-- `sorted(intervals)`, nothing where it raises `TypeError`. -/
def sortIntervals (intervals : List Interval) : Option (List Interval) :=
  if intervals.any fun a => intervals.any fun b => cannotCompare a b then none
  else some (intervals.insertionSort fun a b => a.key ≤ b.key)

/-- The loop of `_interval_is_covered`, with its cursor. -/
def isCoveredFrom (requiredTo : Option Date) : Date → List Interval → Bool
  | _, [] => false
  | cursor, available :: rest =>
    if available.stop.any (· < cursor) then isCoveredFrom requiredTo cursor rest
    else if cursor < available.start then false
    else
      match available.stop with
      | none => true
      | some stop =>
        if requiredTo.any (· ≤ stop) then true
        else if stop = Date.max then requiredTo.any (· ≤ stop)
        else
          match stop.addDay with
          | some next => isCoveredFrom requiredTo next rest
          | none => false

/-- `_interval_is_covered` -/
def intervalIsCovered (requiredFrom : Date) (requiredTo : Option Date)
    (available : List Interval) : Bool :=
  isCoveredFrom requiredTo requiredFrom available

/-! ## The rules of a document -/

/-- A dictionary by name, in the order of first assignment. -/
abbrev ByName (α : Type) := List (Text × α)

/-- `mapping[name] = value` -/
def assign {α : Type} (mapping : ByName α) (name : Text) (value : α) : ByName α :=
  if mapping.any fun entry => entry.1 == name then
    mapping.map fun entry => if entry.1 == name then (name, value) else entry
  else mapping ++ [(name, value)]

/-- The list of rules, of a document of the format. -/
def rawRules (content : Text) : List Yaml :=
  match library.safeLoad content with
  | some (.map payload) =>
    if (Yaml.value payload "format").isText "rulespec/v1" then
      match Yaml.value payload "rules" with
      | .seq rules => rules
      | _ => []
    else []
  | _ => []

/-- One turn of the comprehension: a mapping with a name is kept under it. -/
def addRule (rules : ByName Yaml.Mapping) (raw : Yaml) : ByName Yaml.Mapping :=
  match raw with
  | .map rule =>
    let name := (Yaml.value rule "name").stripped library.repr
    if name.isEmpty then rules else assign rules name rule
  | _ => rules

/-- The rules by name, of a repeated name the last one. -/
def localRules (content : Text) : ByName Yaml.Mapping :=
  (rawRules library content).foldl (addRule library) []

/-- `kind.strip().lower() in {"derived", "derived_relation"}` -/
def isDerived (rule : Yaml.Mapping) : Bool :=
  let kind := ((Yaml.value rule "kind").stripped library.repr).map Char.toLower
  kind == "derived".toList || kind == "derived_relation".toList

/-- `coverage_by_rule` -/
def coverageByRule (rules : ByName Yaml.Mapping) : Option (ByName (List Interval)) :=
  (rules.filter fun entry => !(intervalsOf library entry.2).isEmpty).mapM fun entry =>
    (sortIntervals (intervalsOf library entry.2)).map fun sorted => (entry.1, sorted)

/-! ## Issues -/

/-- A derived version and a local rule that does not cover it. -/
structure Issue where
  rule : Text
  version : EffectiveVersion
  dependency : Text
  available : List Interval

def showStop (stop : Option Date) : Text := stop.elim "unbounded".toList Date.isoFormat

/-- `_format_effective_intervals` -/
def formatEffectiveIntervals (intervals : List Interval) : Text :=
  List.intercalate ", ".toList (intervals.map fun interval =>
    interval.start.isoFormat ++ " through ".toList ++ showStop interval.stop)

def Issue.message (issue : Issue) : Text :=
  "[temporal-dependency-coverage] Derived rule `".toList ++ issue.rule ++ "` version ".toList ++
    (toString (issue.version.index + 1)).toList ++ " covers ".toList ++
    issue.version.start.isoFormat ++ " through ".toList ++ showStop issue.version.stop ++
    " but directly references local rule `".toList ++ issue.dependency ++
    "`, whose version intervals (".toList ++ formatEffectiveIntervals issue.available ++
    (") do not cover that entire period. Align the derived interval, extend the dependency " ++
      "with authoritative coverage, or add a later derived version.").toList

/-- `sorted(_formula_local_identifiers(formula) & coverage_by_rule.keys())` -/
def dependenciesOf (coverage : ByName (List Interval)) (formula : Text) :
    ByName (List Interval) :=
  (coverage.filter fun entry => (formulaLocalIdentifiers library formula).contains
    entry.1).insertionSort fun a b => a.1 ≤ b.1

/-- The issues of one version of a derived rule. -/
def versionIssues (coverage : ByName (List Interval)) (name : Text) (version : EffectiveVersion) :
    List Issue :=
  match Yaml.value version.version "formula" with
  | .text formula =>
    ((dependenciesOf library coverage formula).filter fun entry =>
      !intervalIsCovered version.start version.stop entry.2).map fun entry =>
        ⟨name, version, entry.1, entry.2⟩
  | _ => []

/-- The issues, nothing where the sorting raises. -/
def temporalCoverageIssues (content : Text) : Option (List Issue) := do
  let rules := localRules library content
  let coverage ← coverageByRule library rules
  pure ((rules.filter fun entry => isDerived library entry.2).flatMap fun entry =>
    (ruleEffectiveIntervals library entry.2).flatMap (versionIssues library coverage entry.1))

/-- `find_local_dependency_temporal_coverage_issues` -/
def findLocalDependencyTemporalCoverageIssues (content : Text) : Option (List Text) :=
  (temporalCoverageIssues library content).map (List.map Issue.message)

end

end AxiomEncode.Validator
