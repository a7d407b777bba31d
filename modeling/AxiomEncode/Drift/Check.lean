/-
# Drift.Check -- sampled modules are regenerated and compared

`checkModule` regenerates a module and records how the result differs, and `runDriftCheck` does so
for a sample of the modules.  The walk over the two documents is a parameter: it is known by the
calls of `recordDiff` that it makes.  Whatever it records and whatever fails, the publisher reads the
report (`runDriftCheck_republished`).
-/
import AxiomEncode.Drift.Republish

namespace AxiomEncode.Drift

set_option autoImplicit false

open Theory CodePoints

def minSample : Nat := 3

inductive Change where
  | added | removed | listChanged | valueChanged

def Change.text : Change → Text
  | .added => codes "added"
  | .removed => codes "removed"
  | .listChanged => codes "list_changed"
  | .valueChanged => codes "value_changed"

/-- The arguments of a call of `_record_diff`. -/
structure Difference where
  path : Text
  change : Change
  merged : Value
  regenerated : Value

/-- What the walk over two documents records, and the error that ends it.  The number of differences
can be written. -/
structure Walk where
  differences : List Difference
  failure : Option Text
  few : differences.length < 10 ^ 4300

/-- `rng.sample`: different places of the population. -/
structure Sampler where
  sample : List Text → Nat → List Text
  picks : ∀ population count, count ≤ population.length →
    (sample population count).Subperm population ∧ (sample population count).length = count

def boundedDiffValue (sha256 : Sha256) (interpreter : Interpreter) (value : Value) :
    Except Text Json := do
  let written ← toJson interpreter value
  .ok (keptValue sha256 written)

/-- `_record_diff`, on the differences that are kept and the count of all -/
def recordDiff (sha256 : Sha256) (interpreter : Interpreter) (out : List Diff × Nat)
    (difference : Difference) : Except Text (List Diff × Nat) :=
  if maxRetainedDiffs ≤ out.1.length then .ok (out.1, out.2 + 1)
  else do
    let merged ← boundedDiffValue sha256 interpreter difference.merged
    let regenerated ← boundedDiffValue sha256 interpreter difference.regenerated
    .ok (out.1 ++ [⟨boundedDiffPath sha256 difference.path, difference.change.text, merged, regenerated⟩],
      out.2 + 1)

def semanticDiffWithCount (sha256 : Sha256) (interpreter : Interpreter) (walk : Walk) :
    Except Text (List Diff × Nat) := do
  let out ← walk.differences.foldlM (recordDiff sha256 interpreter) ([], 0)
  match walk.failure with
  | some error => .error error
  | none => .ok out

/-- A result that ended in an error. -/
def failedResult (sha256 : Sha256) (module error : Text) : DriftResult where
  module := module
  drifted := false
  diffs := []
  error := some (boundedError sha256 error)
  totalDiffs := none

section Check

variable (sha256 : Sha256) (interpreter : Interpreter) (regenerate : Text → Text → Except Text Text)
  (walk : Text → Text → Walk)

def checkModule (module merged : Text) : DriftResult :=
  match regenerate module merged with
  | .error error => failedResult sha256 module (codes "regeneration failed: " ++ error)
  | .ok regenerated =>
    match semanticDiffWithCount sha256 interpreter (walk merged regenerated) with
    | .error error => failedResult sha256 module (codes "diff failed: " ++ error)
    | .ok (diffs, total) =>
      { module := module, drifted := total ≠ 0, diffs := diffs, error := none, totalDiffs := some total }

/-- The number of modules that are sampled. -/
def sampleSize (k : Int) (population : Nat) : Nat :=
  min (max (minSample : Int) (min (maxSample : Int) k)).toNat population

def sampleModules (sampler : Sampler) (paths : List Text) (k : Int) : List Text :=
  if paths = [] then [] else sampler.sample paths (sampleSize k paths.length)

/-- A sampled module that is no key of the modules would be an error. -/
def runDriftCheck (sampler : Sampler) (modules : List (Text × Text)) (k : Int) : Option DriftReport := do
  let checked ← (sampleModules sampler (modules.map Prod.fst) k).mapM fun module =>
    (modules.lookup module).map (checkModule sha256 interpreter regenerate walk module)
  some ⟨checked⟩

end Check

/-! ## What is recorded -/

/-- The first differences are kept and all are counted. -/
structure Recorded (out : List Diff × Nat) : Prop where
  kept : out.1.length = min out.2 maxRetainedDiffs
  wellFormed : ∀ diff ∈ out.1, diff.WellFormed
  encodable : ∀ diff ∈ out.1, diff.Encodable

section Recorded

variable {sha256 : Sha256} {interpreter : Interpreter} {out next : List Diff × Nat}
  {difference : Difference} {value : Value} {kept : Json}

theorem Change.text_mem (change : Change) : change.text ∈ changes := by
  cases change <;> decide

theorem encodable_boundedDiffValue (bounded : boundedDiffValue sha256 interpreter value = .ok kept) :
    kept.encodable = true := by
  obtain ⟨written, isWritten, equation⟩ := bind_eq_ok_iff.mp bounded
  cases equation
  exact encodable_keptValue sha256 (encodable_toJson value isWritten)

/-- One call counts one difference. -/
theorem Recorded.recordDiff (recorded : Recorded out)
    (called : recordDiff sha256 interpreter out difference = .ok next) :
    Recorded next ∧ next.2 = out.2 + 1 := by
  unfold Drift.recordDiff at called
  split_ifs at called with full
  · cases called
    have kept := recorded.kept
    exact ⟨⟨by dsimp only; omega, recorded.wellFormed, recorded.encodable⟩, rfl⟩
  · obtain ⟨merged, isMerged, called⟩ := bind_eq_ok_iff.mp called
    obtain ⟨regenerated, isRegenerated, called⟩ := bind_eq_ok_iff.mp called
    cases called
    have kept := recorded.kept
    refine ⟨⟨?_, ?_, ?_⟩, rfl⟩
    · rw [List.length_append, List.length_singleton]
      omega
    · refine List.forall_mem_append.mpr ⟨recorded.wellFormed, List.forall_mem_singleton.mpr ?_⟩
      exact ⟨boundedDiffPath_ne_nil _, length_boundedDiffPath_le _, sanitized_boundedDiffPath _,
        Change.text_mem _⟩
    · refine List.forall_mem_append.mpr ⟨recorded.encodable, List.forall_mem_singleton.mpr ?_⟩
      exact ⟨encodable_boundedDiffValue isMerged, encodable_boundedDiffValue isRegenerated⟩

theorem Recorded.foldlM {differences : List Difference} (recorded : Recorded out)
    (called : differences.foldlM (Drift.recordDiff sha256 interpreter) out = .ok next) :
    Recorded next ∧ next.2 = out.2 + differences.length := by
  induction differences generalizing out with
  | nil =>
    cases called
    exact ⟨recorded, rfl⟩
  | cons difference differences ih =>
    rw [List.foldlM_cons] at called
    obtain ⟨after, first, rest⟩ := bind_eq_ok_iff.mp called
    obtain ⟨isRecorded, one⟩ := recorded.recordDiff first
    obtain ⟨isLast, all⟩ := ih isRecorded rest
    refine ⟨isLast, ?_⟩
    rw [all, one, List.length_cons]
    omega

theorem recorded_of_semanticDiffWithCount {walk : Walk}
    (diffed : semanticDiffWithCount sha256 interpreter walk = .ok out) :
    Recorded out ∧ out.2 = walk.differences.length := by
  obtain ⟨last, folded, equation⟩ := bind_eq_ok_iff.mp diffed
  have empty : Recorded ([], 0) :=
    ⟨rfl, fun _ none => absurd none List.not_mem_nil, fun _ none => absurd none List.not_mem_nil⟩
  obtain ⟨recorded, counted⟩ := empty.foldlM folded
  cases failure : walk.failure with
  | some error =>
    rw [failure] at equation
    cases equation
  | none =>
    rw [failure] at equation
    cases equation
    exact ⟨recorded, counted.trans (Nat.zero_add _)⟩

end Recorded

/-! ## Results -/

section Results

variable {sha256 : Sha256} {interpreter : Interpreter} {regenerate : Text → Text → Except Text Text}
  {walk : Text → Text → Walk} {module merged error : Text}

theorem wellFormed_failedResult (safe : isSafeModule module = true)
    (short : module.length ≤ maxDiffPathChars) (nonempty : error ≠ []) :
    (failedResult sha256 module error).WellFormed ∧ (failedResult sha256 module error).Encodable where
  left :=
    { safe := safe
      short := short
      retained := Nat.zero_le _
      counted := Nat.zero_le _
      diffs := fun _ none => absurd none List.not_mem_nil
      error := by
        rintro _ ⟨⟩
        exact ⟨boundedError_ne_nil nonempty, length_boundedError_le error, sanitized_boundedError error, rfl⟩
      flag := rfl }
  right := ⟨isSome_intText (show 0 < 10 ^ 5 by decide), fun _ none => absurd none List.not_mem_nil⟩

theorem module_checkModule :
    (checkModule sha256 interpreter regenerate walk module merged).module = module := by
  unfold checkModule
  split
  · rfl
  · split <;> rfl

/-- **Every result is one that a reader accepts**, whatever was regenerated. -/
theorem wellFormed_checkModule (safe : isSafeModule module = true)
    (short : module.length ≤ maxDiffPathChars) :
    (checkModule sha256 interpreter regenerate walk module merged).WellFormed ∧
      (checkModule sha256 interpreter regenerate walk module merged).Encodable := by
  unfold checkModule
  split
  · exact wellFormed_failedResult safe short (List.append_ne_nil_of_left_ne_nil (by decide) _)
  · split
    · exact wellFormed_failedResult safe short (List.append_ne_nil_of_left_ne_nil (by decide) _)
    · rename_i regenerated _ _ diffs total diffed
      obtain ⟨recorded, counted⟩ := recorded_of_semanticDiffWithCount diffed
      have kept := recorded.kept
      dsimp only at kept counted
      refine ⟨⟨safe, short, ?_, ?_, recorded.wellFormed, ?_, rfl⟩, ?_, recorded.encodable⟩
      · dsimp only
        omega
      · change diffs.length ≤ total
        omega
      · rintro _ ⟨⟩
      · refine isSome_intText_of_digits ?_
        rw [DriftResult.diffCount, Option.getD_some, counted]
        exact (walk merged regenerated).few

theorem subperm_sampleModules (sampler : Sampler) (paths : List Text) (k : Int) :
    (sampleModules sampler paths k).Subperm paths ∧
      (sampleModules sampler paths k).length = sampleSize k paths.length := by
  unfold sampleModules
  split_ifs with none
  · rw [none]
    exact ⟨List.nil_subperm, (Nat.min_zero _).symm⟩
  · exact sampler.picks paths _ (Nat.min_le_right _ _)

theorem sampleSize_le (k : Int) (population : Nat) : sampleSize k population ≤ maxSample := by
  unfold sampleSize minSample maxSample
  omega

/-- A result for every module that is sampled. -/
theorem exists_checked {modules : List (Text × Text)} {sampled : List Text}
    (keys : ∀ module ∈ sampled, module ∈ modules.map Prod.fst)
    (safe : ∀ module ∈ sampled, isSafeModule module = true ∧ module.length ≤ maxDiffPathChars) :
    ∃ checked, (sampled.mapM fun module =>
        (modules.lookup module).map (checkModule sha256 interpreter regenerate walk module)) =
          some checked ∧ checked.map (·.module) = sampled ∧
      ∀ result ∈ checked, result.WellFormed ∧ result.Encodable := by
  induction sampled with
  | nil => exact ⟨[], rfl, rfl, fun _ none => absurd none List.not_mem_nil⟩
  | cons module sampled ih =>
    rw [List.forall_mem_cons] at keys safe
    obtain ⟨checked, isChecked, named, each⟩ := ih keys.2 safe.2
    obtain ⟨merged, found⟩ : ∃ merged, modules.lookup module = some merged := by
      rw [← Option.isSome_iff_exists, List.lookup_isSome_iff]
      obtain ⟨member, listed, same⟩ := List.mem_map.mp keys.1
      exact ⟨member, listed, beq_iff_eq.mpr same.symm⟩
    refine ⟨checkModule sha256 interpreter regenerate walk module merged :: checked, ?_, ?_, ?_⟩
    · rw [List.mapM_cons, found, isChecked]
      rfl
    · rw [List.map_cons, named, module_checkModule]
    · exact List.forall_mem_cons.mpr ⟨wellFormed_checkModule safe.1.1 safe.1.2, each⟩

end Results

/-- **The publisher reads every report that is made.**  Whatever is regenerated, recorded or raised
for modules under safe paths, a result is reported for each of the sample, and a report that is
written and read keeps every module, flag, error, count and path. -/
theorem runDriftCheck_republished (sha256 : Sha256) (interpreter : Interpreter)
    (regenerate : Text → Text → Except Text Text) (walk : Text → Text → Walk) (sampler : Sampler)
    (modules : List (Text × Text)) (k : Int) (distinct : (modules.map Prod.fst).Nodup)
    (safe : ∀ module ∈ modules.map Prod.fst,
      isSafeModule module = true ∧ module.length ≤ maxDiffPathChars) :
    ∃ report, runDriftCheck sha256 interpreter regenerate walk sampler modules k = some report ∧
      report.checked.map (·.module) = sampleModules sampler (modules.map Prod.fst) k ∧
      report.WellFormed ∧ ∃ read, republished sha256 report = .ok read ∧ read.WellFormed ∧
        List.Forall₂ (DriftResult.SameAs sha256) report.checked read.checked := by
  obtain ⟨picked, size⟩ := subperm_sampleModules sampler (modules.map Prod.fst) k
  obtain ⟨checked, isChecked, named, each⟩ :=
    @exists_checked sha256 interpreter regenerate walk modules _ (fun _ listed => picked.subset listed)
      fun module listed => safe module (picked.subset listed)
  have different : (checked.map (·.module)).Nodup := by
    rw [named]
    obtain ⟨permuted, perm, sublist⟩ := picked
    exact perm.nodup_iff.mp (distinct.sublist sublist)
  have few : checked.length ≤ maxSample := by
    rw [← List.length_map (·.module), named, size]
    exact sampleSize_le k _
  have well : (DriftReport.mk checked).WellFormed :=
    ⟨few, different, fun result listed => (each result listed).1⟩
  obtain ⟨read, isRead, same⟩ :=
    republished_of_wellFormed sha256 well fun result listed => (each result listed).2
  obtain ⟨written, -, rest⟩ := bind_eq_ok_iff.mp isRead
  obtain ⟨reloaded, -, accepted⟩ := bind_eq_ok_iff.mp rest
  refine ⟨⟨checked⟩, ?_, named, well, read, isRead, wellFormed_of_fromDict accepted, same⟩
  rw [runDriftCheck, isChecked]
  rfl

def firstSampler : Sampler where
  sample population count := population.take count
  picks _ _ enough := ⟨(List.take_sublist _ _).subperm, List.length_take_of_le enough⟩

/-- Two texts that differ, as documents. -/
def textWalk (merged regenerated : Text) : Walk where
  differences := [⟨[], .valueChanged, .leaf (.text merged), .leaf (.text regenerated)⟩]
  failure := none
  few := lt_digits_of_small (show 1 < 10 ^ 5 by decide)

def sampleModulesDict : List (Text × Text) :=
  [(codes "us/statutes/7.yaml", codes "six"), (codes "us/statutes/9.yaml", codes "ten")]

theorem runDriftCheck_republished_sample :
    ∃ report, runDriftCheck (fun _ _ => 0) ⟨fun _ => none, fun _ => []⟩ (fun _ _ => .ok (codes "seven"))
        textWalk firstSampler sampleModulesDict 4 = some report ∧
      report.checked.map (·.module) =
        sampleModules firstSampler (sampleModulesDict.map Prod.fst) 4 ∧
      report.WellFormed ∧ ∃ read, republished (fun _ _ => 0) report = .ok read ∧ read.WellFormed ∧
        List.Forall₂ (DriftResult.SameAs fun _ _ => 0) report.checked read.checked :=
  runDriftCheck_republished (fun _ _ => 0) ⟨fun _ => none, fun _ => []⟩
    (fun _ _ => .ok (codes "seven")) textWalk firstSampler sampleModulesDict 4 (by decide) (by decide)

end AxiomEncode.Drift
