/-
# Drift.Report -- the report that the publisher reads

`DriftReport.toDict` writes a report with its texts and values bounded, and
`DriftReport.fromDict` reads one that it does not trust.  `DriftReport.WellFormed` is what a
reader may rely on: reading makes no other reports (`wellFormed_of_fromDict`).
-/
import AxiomEncode.Drift.Display
import AxiomEncode.Drift.Value

namespace AxiomEncode.Drift

set_option autoImplicit false

open Theory CodePoints

def maxSample : Nat := 5
def maxRetainedDiffs : Nat := 50
def maxDiffValueChars : Nat := 2048

/-- A recorded difference. -/
structure Diff where
  path : Text
  change : Text
  merged : Json
  regenerated : Json

structure DriftResult where
  module : Text
  drifted : Bool
  diffs : List Diff
  error : Option Text
  totalDiffs : Option Nat

def DriftResult.diffCount (result : DriftResult) : Nat := result.totalDiffs.getD result.diffs.length

structure DriftReport where
  checked : List DriftResult

def DriftReport.drifted (report : DriftReport) : List DriftResult := report.checked.filter (·.drifted)

def DriftReport.errors (report : DriftReport) : List DriftResult :=
  report.checked.filter fun result => result.error.any (· ≠ [])

/-! ## Writing -/

/-- What is kept of a value that `json.dumps` writes. -/
def keptValue (sha256 : Sha256) (written : Json) : Json :=
  let safe := written.reload
  let serialized := safe.sortKeys.dumps
  if serialized.length ≤ maxDiffValueChars then safe
  else .str (bounded sha256 maxDiffValueChars (codes "…[truncated; sha256:") serialized)

/-- `_bounded_diff_value`, of a value of a report -/
def boundedReportValue (sha256 : Sha256) (value : Json) : Except Text Json := do
  require value.encodable (codes "Exceeds the limit (4300 digits) for integer string conversion")
  .ok (keptValue sha256 value.sortKeys)

def Diff.toDict (sha256 : Sha256) (diff : Diff) : Except Text Json := do
  let merged ← boundedReportValue sha256 diff.merged
  let regenerated ← boundedReportValue sha256 diff.regenerated
  .ok (.obj [(codes "path", .str (boundedDiffPath sha256 diff.path)), (codes "change", .str diff.change),
    (codes "merged", merged), (codes "regenerated", regenerated)])

/-- `_bounded_error(error) if error else None` -/
def writtenError (sha256 : Sha256) : Option Text → Json
  | none => .null
  | some error => if error = [] then .null else .str (boundedError sha256 error)

def DriftResult.toDict (sha256 : Sha256) (result : DriftResult) : Except Text Json := do
  let diffs ← (result.diffs.take maxRetainedDiffs).mapM (Diff.toDict sha256)
  .ok (.obj [(codes "module", .str result.module), (codes "drifted", .bool result.drifted),
    (codes "error", writtenError sha256 result.error),
    (codes "n_diffs", .int (max result.diffCount result.diffs.length : Nat)), (codes "diffs", .arr diffs)])

def DriftReport.toDict (sha256 : Sha256) (report : DriftReport) : Except Text Json := do
  let results ← report.checked.mapM (DriftResult.toDict sha256)
  .ok (.obj [(codes "n_checked", .int report.checked.length),
    (codes "n_drifted", .int report.drifted.length), (codes "n_errors", .int report.errors.length),
    (codes "results", .arr results)])

/-! ## Paths of modules -/

def isAlphanumeric (c : Nat) : Bool :=
  (48 ≤ c && c ≤ 57) || (65 ≤ c && c ≤ 90) || (97 ≤ c && c ≤ 122)

/-- `_SAFE_PATH_PART` -/
def isSafePathPart (part : Text) : Bool :=
  part.head?.any isAlphanumeric && part.all fun c => isAlphanumeric c || (codes "._:-").contains c

/-- `PurePosixPath(path).parts` of a relative path -/
def pathParts (path : Text) : List Text :=
  (path.splitOn 47).filter fun part => part ≠ [] ∧ part ≠ codes "."

/-- The suffix of a name, with its dot. -/
def suffix (name : Text) : Text :=
  let extension := name.reverse.takeWhile (· ≠ 46)
  if extension ≠ [] ∧ extension.length + 1 < name.length then 46 :: extension.reverse else []

/-- `as_posix()` of a relative path -/
def asPosix (parts : List Text) : Text := if parts = [] then codes "." else [47].intercalate parts

/-- The path checks of a report's module. -/
def isSafeModule (module : Text) : Bool :=
  let parts := pathParts module
  module.head? ≠ some 47 && suffix (parts.getLastD []) = codes ".yaml" && asPosix parts = module &&
    parts.all (fun part => part ∉ [[], codes ".", codes ".."]) && parts.all isSafePathPart

/-! ## Reading -/

def changes : List Text :=
  [codes "added", codes "removed", codes "list_changed", codes "value_changed"]

def Diff.fromDict : Json → Except Text Diff
  | .obj members =>
    match Json.get? members "path", Json.get? members "change", Json.get? members "merged",
      Json.get? members "regenerated" with
    | some (.str path), some (.str change), some merged, some regenerated => do
      require (path ≠ [] && path.length ≤ maxDiffPathChars &&
          !containsUnsafeDisplayCharacters false path && changes.contains change)
        (codes "drift report diff has invalid required fields")
      .ok ⟨path, change, merged, regenerated⟩
    | _, _, _, _ => .error (codes "drift report diff has invalid required fields")
  | _ => .error (codes "drift report diff must be an object")

def moduleOf (members : List (Text × Json)) : Except Text Text :=
  match Json.get? members "module" with
  | some (.str module) => do
    require (module ≠ [] && module.length ≤ maxDiffPathChars)
      (codes "drift report result has an invalid module")
    .ok module
  | _ => .error (codes "drift report result has an invalid module")

def driftedOf (members : List (Text × Json)) : Except Text Bool :=
  match Json.get? members "drifted" with
  | some (.bool drifted) => .ok drifted
  | _ => .error (codes "drift report result has a non-boolean drifted field")

def errorOf (members : List (Text × Json)) : Except Text (Option Text) :=
  match Json.get? members "error" with
  | none | some .null => .ok none
  | some (.str error) => do
    require (error ≠ [] && error.length ≤ maxErrorChars &&
        !containsUnsafeDisplayCharacters true error)
      (codes "drift report result has an invalid error")
    .ok (some error)
  | _ => .error (codes "drift report result has an invalid error")

def diffsOf (members : List (Text × Json)) : Except Text (List Json) :=
  match Json.get? members "diffs" with
  | some (.arr diffs) => .ok diffs
  | _ => .error (codes "drift report result has an invalid diffs list")

/-- `n_diffs`, the number of differences that are listed if it is missing. -/
def countOf (members : List (Text × Json)) (listed : Nat) : Except Text Nat :=
  match (Json.get? members "n_diffs").getD (.int listed) with
  | .int count => do
    require (listed ≤ count && listed ≤ maxRetainedDiffs)
      (codes "drift report result has an invalid diff count")
    .ok count.toNat
  | _ => .error (codes "drift report result has an invalid diff count")

def checkFlag (error : Option Text) (drifted : Bool) (listed count : Nat) : Except Text Unit :=
  if error.isSome then
    require (!(drifted || listed ≠ 0 || count ≠ 0))
      (codes "drift report error result also claims drift")
  else
    require (drifted = decide (count ≠ 0))
      (codes "drift report drift flag does not match its diffs")

/-- One turn of the loop over the results, after the modules that were seen. -/
def DriftResult.fromDict (seen : List Text) : Json → Except Text DriftResult
  | .obj members => do
    let module ← moduleOf members
    require (isSafeModule module && !seen.contains module)
      (codes "drift report result has an unsafe or duplicate module")
    let drifted ← driftedOf members
    let error ← errorOf members
    let listed ← diffsOf members
    let count ← countOf members listed.length
    let diffs ← listed.mapM Diff.fromDict
    checkFlag error drifted listed.length count
    .ok ⟨module, drifted, diffs, error, some count⟩
  | _ => .error (codes "drift report result must be an object")

def resultsFromDict (seen : List Text) : List Json → Except Text (List DriftResult)
  | [] => .ok []
  | raw :: raws => do
    let result ← DriftResult.fromDict seen raw
    let results ← resultsFromDict (result.module :: seen) raws
    .ok (result :: results)

def hasCount (members : List (Text × Json)) (name : String) (value : Nat) : Bool :=
  match Json.get? members name with
  | some (.int count) => count = value
  | _ => false

def DriftReport.fromDict : Json → Except Text DriftReport
  | .obj members =>
    match Json.get? members "results" with
    | some (.arr raws) => do
      require (raws.length ≤ maxSample) (codes "drift report contains more than 5 results")
      let checked ← resultsFromDict [] raws
      let report : DriftReport := ⟨checked⟩
      require (hasCount members "n_checked" report.checked.length &&
          hasCount members "n_drifted" report.drifted.length &&
          hasCount members "n_errors" report.errors.length)
        (codes "drift report summary counts do not match its results")
      .ok report
    | _ => .error (codes "drift report must contain a results list")
  | _ => .error (codes "drift report must contain a results list")

/-- `json.loads(json.dumps(value))` -/
def throughJson (value : Json) : Except Text Json := do
  require value.encodable (codes "Exceeds the limit (4300 digits) for integer string conversion")
  .ok value.reload

/-- A report that is written and read. -/
def republished (sha256 : Sha256) (report : DriftReport) : Except Text DriftReport := do
  let written ← report.toDict sha256
  let read ← throughJson written
  DriftReport.fromDict read

/-! ## What a reader may rely on -/

/-- A difference under a path that shows. -/
structure Diff.WellFormed (diff : Diff) : Prop where
  nonempty : diff.path ≠ []
  short : diff.path.length ≤ maxDiffPathChars
  sanitized : Sanitized false diff.path
  change : diff.change ∈ changes

/-- What did not end in an error has drifted if it differs, and an error has no differences. -/
structure DriftResult.WellFormed (result : DriftResult) : Prop where
  safe : isSafeModule result.module = true
  short : result.module.length ≤ maxDiffPathChars
  retained : result.diffs.length ≤ maxRetainedDiffs
  counted : result.diffs.length ≤ result.diffCount
  diffs : ∀ diff ∈ result.diffs, diff.WellFormed
  error : ∀ error ∈ result.error, error ≠ [] ∧ error.length ≤ maxErrorChars ∧ Sanitized true error ∧
    result.diffCount = 0
  flag : result.drifted = decide (result.diffCount ≠ 0)

/-- Few results for different modules. -/
structure DriftReport.WellFormed (report : DriftReport) : Prop where
  few : report.checked.length ≤ maxSample
  distinct : (report.checked.map (·.module)).Nodup
  results : ∀ result ∈ report.checked, result.WellFormed

/-! ## Reading members -/

variable {listed : List Json}

section Members

variable {members : List (Text × Json)} {diff : Diff} {result : DriftResult} {sha256 : Sha256}

theorem moduleOf_eq_ok_iff {module : Text} :
    moduleOf members = .ok module ↔ Json.get? members "module" = some (.str module) ∧
      module ≠ [] ∧ module.length ≤ maxDiffPathChars := by
  unfold moduleOf
  split
  · rename_i held found
    simp only [bind_eq_ok_iff, require_eq_ok_iff, Bool.and_eq_true, decide_eq_true_eq, found,
      Option.some.injEq, Json.str.injEq, Except.ok.injEq, exists_const]
    constructor
    · rintro ⟨checks, rfl⟩
      exact ⟨rfl, checks⟩
    · rintro ⟨rfl, checks⟩
      exact ⟨checks, rfl⟩
  · rename_i other
    refine ⟨fun failed => (by cases failed), fun found => absurd found.1 (other module)⟩

theorem driftedOf_eq_ok_iff {drifted : Bool} :
    driftedOf members = .ok drifted ↔ Json.get? members "drifted" = some (.bool drifted) := by
  unfold driftedOf
  split
  · rename_i held found
    simp only [found, Except.ok.injEq, Option.some.injEq, Json.bool.injEq]
  · rename_i other
    exact ⟨fun failed => (by cases failed), fun found => absurd found (other drifted)⟩

theorem diffsOf_eq_ok_iff :
    diffsOf members = .ok listed ↔ Json.get? members "diffs" = some (.arr listed) := by
  unfold diffsOf
  split
  · rename_i held found
    simp only [found, Except.ok.injEq, Option.some.injEq, Json.arr.injEq]
  · rename_i other
    exact ⟨fun failed => (by cases failed), fun found => absurd found (other listed)⟩

variable {error : Option Text} {count : Nat}

theorem errorOf_eq_ok_iff :
    errorOf members = .ok error ↔
      (error = none ∧ (Json.get? members "error" = none ∨ Json.get? members "error" = some .null)) ∨
      ∃ chars, error = some chars ∧ Json.get? members "error" = some (.str chars) ∧ chars ≠ [] ∧
        chars.length ≤ maxErrorChars ∧ Sanitized true chars := by
  unfold errorOf
  split
  · rename_i found
    simp [found, eq_comm]
  · rename_i found
    simp [found, eq_comm]
  · rename_i held found
    simp only [bind_eq_ok_iff, require_eq_ok_iff, Bool.and_eq_true, decide_eq_true_eq, found,
      Bool.not_eq_true', Option.some.injEq, Json.str.injEq, Except.ok.injEq, exists_const]
    constructor
    · rintro ⟨⟨⟨nonempty, short⟩, sanitized⟩, rfl⟩
      exact .inr ⟨held, rfl, rfl, nonempty, short, sanitized⟩
    · rintro (⟨-, absent | null⟩ | ⟨chars, rfl, rfl, nonempty, short, sanitized⟩)
      · cases absent
      · cases null
      · exact ⟨⟨⟨nonempty, short⟩, sanitized⟩, rfl⟩
  · rename_i noneNot nullNot strNot
    refine ⟨fun failed => (by cases failed), ?_⟩
    rintro (⟨-, absent | null⟩ | ⟨chars, -, found, -⟩)
    · exact absurd absent noneNot
    · exact absurd null nullNot
    · exact absurd found (strNot chars)

theorem countOf_eq_ok_iff {listed : Nat} :
    countOf members listed = .ok count ↔
      (Json.get? members "n_diffs").getD (.int listed) = .int count ∧ listed ≤ count ∧
        listed ≤ maxRetainedDiffs := by
  unfold countOf
  split
  · rename_i held found
    simp only [bind_eq_ok_iff, require_eq_ok_iff, Bool.and_eq_true, decide_eq_true_eq, found,
      Json.int.injEq, Except.ok.injEq, exists_const]
    omega
  · rename_i other
    exact ⟨fun failed => (by cases failed), fun found => absurd found.1 (other count)⟩

theorem hasCount_iff {name : String} {value : Nat} :
    hasCount members name value = true ↔ Json.get? members name = some (.int value) := by
  unfold hasCount
  split
  · rename_i count found
    simp only [found, decide_eq_true_eq, Option.some.injEq, Json.int.injEq]
  · rename_i other
    exact ⟨fun failed => (by cases failed), fun found => absurd found (other value)⟩

theorem Diff.fromDict_eq_ok_iff :
    Diff.fromDict (.obj members) = .ok diff ↔
      Json.get? members "path" = some (.str diff.path) ∧
      Json.get? members "change" = some (.str diff.change) ∧
      Json.get? members "merged" = some diff.merged ∧
      Json.get? members "regenerated" = some diff.regenerated ∧ diff.WellFormed := by
  unfold Diff.fromDict
  dsimp only
  split
  · rename_i path change merged regenerated isPath isChange isMerged isRegenerated
    simp only [bind_eq_ok_iff, require_eq_ok_iff, Bool.and_eq_true, decide_eq_true_eq,
      Bool.not_eq_true', isPath, isChange, isMerged, isRegenerated, Option.some.injEq,
      Json.str.injEq, Except.ok.injEq, exists_const, List.contains_iff_mem]
    constructor
    · rintro ⟨⟨⟨⟨nonempty, short⟩, sanitized⟩, change⟩, rfl⟩
      exact ⟨rfl, rfl, rfl, rfl, nonempty, short, sanitized, change⟩
    · rintro ⟨rfl, rfl, rfl, rfl, nonempty, short, sanitized, change⟩
      exact ⟨⟨⟨⟨nonempty, short⟩, sanitized⟩, change⟩, rfl⟩
  · rename_i other
    refine ⟨fun failed => (by cases failed), ?_⟩
    rintro ⟨isPath, isChange, isMerged, isRegenerated, -⟩
    exact absurd isRegenerated (other _ _ _ _ isPath isChange isMerged)

/-- An error claims no drift. -/
theorem checkFlag_eq_ok_iff {drifted : Bool} {listed : Nat} (counted : listed ≤ count) :
    checkFlag error drifted listed count = .ok () ↔
      drifted = decide (count ≠ 0) ∧ (error.isSome = true → count = 0) := by
  unfold checkFlag
  split_ifs with isError
  · rw [require_eq_ok_iff]
    cases drifted <;> simp [isError]
    omega
  · rw [require_eq_ok_iff, decide_eq_true_eq]
    exact ⟨fun flag => ⟨flag, fun claimed => absurd claimed isError⟩, fun flags => flags.1⟩

theorem DriftResult.fromDict_eq_ok_iff {seen : List Text} :
    DriftResult.fromDict seen (.obj members) = .ok result ↔
      ∃ listed count, moduleOf members = .ok result.module ∧
        (isSafeModule result.module = true ∧ result.module ∉ seen) ∧
        driftedOf members = .ok result.drifted ∧ errorOf members = .ok result.error ∧
        diffsOf members = .ok listed ∧ countOf members listed.length = .ok count ∧
        listed.mapM Diff.fromDict = .ok result.diffs ∧ result.totalDiffs = some count ∧
        checkFlag result.error result.drifted listed.length count = .ok () := by
  obtain ⟨module, drifted, diffs, error, totalDiffs⟩ := result
  simp only [DriftResult.fromDict, bind_eq_ok_iff, require_eq_ok_iff, Bool.and_eq_true,
    Bool.not_eq_true', List.contains_eq_mem, decide_eq_false_iff_not, Except.ok.injEq,
    DriftResult.mk.injEq, exists_const]
  constructor
  · rintro ⟨module, isModule, fresh, drifted, isDrifted, error, isError, listed, isListed, count,
      isCount, diffs, isDiffs, ⟨⟩, flag, rfl, rfl, rfl, rfl, rfl⟩
    exact ⟨listed, count, isModule, fresh, isDrifted, isError, isListed, isCount, isDiffs, rfl, flag⟩
  · rintro ⟨listed, count, isModule, fresh, isDrifted, isError, isListed, isCount, isDiffs, rfl, flag⟩
    exact ⟨module, isModule, fresh, drifted, isDrifted, error, isError, listed, isListed, count,
      isCount, diffs, isDiffs, (), flag, rfl, rfl, rfl, rfl, rfl⟩

end Members

/-! ## What is read -/

section Read

variable {json : Json} {raws : List Json} {seen : List Text} {diff : Diff} {result : DriftResult}
  {results : List DriftResult} {report : DriftReport}

theorem Diff.wellFormed_of_fromDict (read : Diff.fromDict json = .ok diff) : diff.WellFormed := by
  cases json with
  | obj members => exact (Diff.fromDict_eq_ok_iff.mp read).2.2.2.2
  | _ => cases read

theorem length_of_mapM {diffs : List Diff} (read : listed.mapM Diff.fromDict = .ok diffs) :
    diffs.length = listed.length := by
  induction listed generalizing diffs with
  | nil =>
    cases read
    rfl
  | cons json listed ih =>
    obtain ⟨diff, rest, -, later, rfl⟩ := mapM_cons_eq_ok_iff.mp read
    rw [List.length_cons, List.length_cons, ih later]

theorem DriftResult.wellFormed_of_fromDict (read : DriftResult.fromDict seen json = .ok result) :
    result.WellFormed ∧ result.module ∉ seen := by
  cases json with
  | obj members =>
    obtain ⟨listed, count, isModule, ⟨safe, fresh⟩, -, isError, -, isCount, isDiffs, total, flag⟩ :=
      DriftResult.fromDict_eq_ok_iff.mp read
    obtain ⟨-, -, short⟩ := moduleOf_eq_ok_iff.mp isModule
    obtain ⟨-, counted, retained⟩ := countOf_eq_ok_iff.mp isCount
    obtain ⟨drifted, noDrift⟩ := (checkFlag_eq_ok_iff counted).mp flag
    have length := length_of_mapM isDiffs
    have whole : result.diffCount = count := by rw [diffCount, total, Option.getD_some]
    refine ⟨⟨safe, short, length ▸ retained, length ▸ whole ▸ counted, ?_, ?_,
      whole ▸ drifted⟩, fresh⟩
    · intro diff listed
      obtain ⟨raw, -, isDiff⟩ := (mapM_answers isDiffs).2 diff listed
      exact Diff.wellFormed_of_fromDict isDiff
    · intro error isSome
      rw [Option.mem_def] at isSome
      rcases errorOf_eq_ok_iff.mp isError with ⟨none, -⟩ | ⟨chars, same, -, nonempty, short, shows⟩
      · rw [none] at isSome
        cases isSome
      · rw [same, Option.some.injEq] at isSome
        subst isSome
        exact ⟨nonempty, short, shows, whole ▸ noDrift (by rw [same]; rfl)⟩
  | _ => cases read

theorem wellFormed_of_resultsFromDict (read : resultsFromDict seen raws = .ok results) :
    results.length = raws.length ∧ (results.map (·.module)).Nodup ∧
      ∀ result ∈ results, result.WellFormed ∧ result.module ∉ seen := by
  induction raws generalizing seen results with
  | nil =>
    cases read
    exact ⟨rfl, List.nodup_nil, fun _ none => absurd none List.not_mem_nil⟩
  | cons raw raws ih =>
    obtain ⟨result, first, read⟩ := bind_eq_ok_iff.mp read
    obtain ⟨rest, later, read⟩ := bind_eq_ok_iff.mp read
    cases read
    obtain ⟨length, distinct, each⟩ := ih later
    refine ⟨congrArg (· + 1) length, List.nodup_cons.mpr ⟨?_, distinct⟩, ?_⟩
    · intro again
      obtain ⟨other, listed, same⟩ := List.mem_map.mp again
      exact (each other listed).2 (List.mem_cons.mpr (.inl same))
    · refine List.forall_mem_cons.mpr ⟨DriftResult.wellFormed_of_fromDict first, fun other listed => ?_⟩
      exact ⟨(each other listed).1, fun held => (each other listed).2 (List.mem_cons_of_mem _ held)⟩

/-- **Only well-formed reports are read.** -/
theorem wellFormed_of_fromDict (read : DriftReport.fromDict json = .ok report) :
    report.WellFormed := by
  cases json with
  | obj members =>
    unfold DriftReport.fromDict at read
    dsimp only at read
    split at read
    · obtain ⟨passed, few, read⟩ := bind_eq_ok_iff.mp read
      obtain ⟨checked, isChecked, read⟩ := bind_eq_ok_iff.mp read
      obtain ⟨-, -, read⟩ := bind_eq_ok_iff.mp read
      cases read
      obtain ⟨length, distinct, each⟩ := wellFormed_of_resultsFromDict isChecked
      have bound := require_eq_ok_iff.mp few
      rw [decide_eq_true_eq, ← length] at bound
      exact ⟨bound, distinct, fun result listed => (each result listed).1⟩
    · cases read
  | _ => cases read

end Read

end AxiomEncode.Drift
