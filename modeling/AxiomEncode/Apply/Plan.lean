/-
# Apply.Plan -- what one transaction is about to do

A `Plan` is the tree in which a transaction begins, the admitted targets and the
directories that will be made.  Its journal and the node that each target is to
become are read off it.
-/
import AxiomEncode.Apply.TargetNames
import Mathlib.Data.List.Dedup

namespace AxiomEncode.Apply

open Theory Crash

set_option autoImplicit false

/-! ## Missing directories -/

section Missing

variable {checkout : Checkout} {complaint : String}

/-- Every directory on the way up is there or missing, and what is missing is not there. -/
theorem missingFrom_spec {names : List Text} {missing : List Path}
    (read : missingFrom complaint checkout names = .ok missing) :
    (∀ path ∈ missing, path ≠ [] ∧ checkout.node path = none ∧ path <+: names.reverse) ∧
      ∀ path, path <+: names.reverse → checkout.isDirectory path = true ∨ path ∈ missing := by
  induction names generalizing missing with
  | nil =>
    cases read
    refine ⟨nofun, fun path above => .inl ?_⟩
    rw [List.prefix_nil.mp above]
    rfl
  | cons name parents ih =>
    have nonempty : (name :: parents).reverse ≠ [] := by simp
    rw [missingFrom] at read
    split at read
    · cases read
    · next looked =>
        obtain ⟨rest, here, rfl⟩ := map_eq_ok_iff.mp read
        obtain ⟨absent, covered⟩ := ih here
        have up : parents.reverse <+: (name :: parents).reverse := by
          rw [List.reverse_cons]
          exact List.prefix_append _ _
        constructor
        · rintro path (_ | ⟨_, later⟩)
          · exact ⟨nonempty, Checkout.node_of_lookup nonempty looked, List.prefix_rfl⟩
          · obtain ⟨some_, none_, above⟩ := absent path later
            exact ⟨some_, none_, above.trans up⟩
        · intro path above
          rw [List.reverse_cons] at above ⊢
          rcases List.prefix_concat_iff.mp above with rfl | higher
          · exact .inr List.mem_cons_self
          · exact (covered path higher).imp_right (List.mem_cons_of_mem _)
    · next looked =>
        cases read
        refine ⟨nofun, fun path above => .inl ?_⟩
        refine Checkout.isDirectory_of_prefix ?_ above
        exact Checkout.isDirectory_iff.mpr (.inr ⟨_, Checkout.node_of_lookup nonempty looked⟩)
    · cases read

theorem shallowPath_trans (a b c : Path) (first : shallowPath a b = true)
    (second : shallowPath b c = true) : shallowPath a c = true := by
  unfold shallowPath at *
  simp only [Bool.or_eq_true, Bool.and_eq_true, decide_eq_true_iff, beq_iff_eq] at *
  rcases first with first | ⟨sameAB, first⟩ <;> rcases second with second | ⟨sameBC, second⟩
  · exact .inl (by omega)
  · exact .inl (by omega)
  · exact .inl (by omega)
  · exact .inr ⟨by omega, le_trans first second⟩

theorem shallowPath_total (a b : Path) : (shallowPath a b || shallowPath b a) = true := by
  unfold shallowPath
  simp only [Bool.or_eq_true, Bool.and_eq_true, decide_eq_true_iff, beq_iff_eq]
  rcases Nat.lt_trichotomy a.length b.length with shorter | same | longer
  · exact .inl (.inl shorter)
  · exact (le_total (posix a) (posix b)).imp (fun below => .inr ⟨same, below⟩)
      fun above => .inr ⟨same.symm, above⟩
  · exact .inr (.inl longer)

/-- What the planned directories are. -/
structure PlannedDirectories (original : Checkout) (files : List (Path × Option Bytes))
    (directories : List Path) : Prop where
  absent : ∀ path ∈ directories, path ≠ [] ∧ original.node path = none
  needed : ∀ path ∈ directories, ∃ file ∈ files, file.2.isSome = true ∧ path <+: file.1.dropLast
  enough : ∀ file ∈ files, file.2.isSome = true → ∀ path, path <+: file.1.dropLast →
    original.isDirectory path = true ∨ path ∈ directories
  distinct : directories.Nodup
  ordered : directories.Pairwise fun a b => shallowPath a b = true
  few : directories.length ≤ maxApplyTransactionDirectories

theorem plannedApplyTransactionDirectories_spec {files : List (Path × Option Bytes)}
    {directories : List Path}
    (read : plannedApplyTransactionDirectories files checkout = .ok directories) :
    PlannedDirectories checkout files directories := by
  unfold plannedApplyTransactionDirectories at read
  obtain ⟨missing, each, read⟩ := bind_eq_ok_iff.mp read
  obtain ⟨_, few, sorted⟩ := bind_eq_ok_iff.mp read
  have few := require_eq_ok_iff.mp few
  have perm : directories.Perm missing.flatten.dedup := by
    cases sorted
    exact List.mergeSort_perm _ _
  have listed : ∀ path, path ∈ directories ↔ ∃ paths ∈ missing, path ∈ paths := by
    intro path
    rw [perm.mem_iff, List.mem_dedup, List.mem_flatten]
  obtain ⟨answered, asked⟩ := mapM_answers each
  -- what was found missing for a file that is written
  have spec : ∀ file ∈ files, ∀ raw, file.2 = some raw → ∃ paths ∈ missing,
      missingDirectories "Apply target path contains a non-directory" file.1.dropLast checkout =
        .ok paths := by
    intro file member raw written
    obtain ⟨paths, listed, here⟩ := answered file member
    rw [written] at here
    exact ⟨paths, listed, here⟩
  have back : ∀ path ∈ directories, ∃ file ∈ files, file.2.isSome = true ∧ ∃ paths, path ∈ paths ∧
      missingDirectories "Apply target path contains a non-directory" file.1.dropLast checkout =
        .ok paths := by
    intro path member
    obtain ⟨paths, listed, inside⟩ := (listed path).mp member
    obtain ⟨file, asked, here⟩ := asked paths listed
    split at here
    · cases here
      cases inside
    · next raw written => exact ⟨file, asked, by rw [written]; rfl, paths, inside, here⟩
  have reversed : ∀ path : Path, path.reverse.reverse = path := List.reverse_reverse
  refine ⟨?_, ?_, ?_, perm.nodup_iff.mpr (List.nodup_dedup _), ?_, ?_⟩
  · intro path member
    obtain ⟨file, -, -, paths, inside, here⟩ := back path member
    obtain ⟨nonempty, absent, -⟩ := (missingFrom_spec here).1 path inside
    exact ⟨nonempty, absent⟩
  · intro path member
    obtain ⟨file, listed, written, paths, inside, here⟩ := back path member
    have above := ((missingFrom_spec here).1 path inside).2.2
    rw [reversed] at above
    exact ⟨file, listed, written, above⟩
  · intro file member written path above
    obtain ⟨raw, written⟩ := Option.isSome_iff_exists.mp written
    obtain ⟨paths, found, here⟩ := spec file member raw written
    rw [← reversed file.1.dropLast] at above
    exact ((missingFrom_spec here).2 path above).imp_right fun inside =>
      (listed path).mpr ⟨paths, found, inside⟩
  · cases sorted
    exact List.pairwise_mergeSort shallowPath_trans shallowPath_total _
  · rw [perm.length_eq]
    exact of_decide_eq_true few

end Missing

/-! ## Plans -/

/-- Nothing lies in a transaction directory that is not there. -/
theorem Checkout.node_inside {checkout : Checkout} {path : Path}
    (gone : checkout.node transactionDirectory = none) (inside : transactionDirectory <+: path) :
    checkout.node path = none := by
  by_contra found
  obtain ⟨node, found⟩ := Option.ne_none_iff_exists'.mp found
  by_cases same : path = transactionDirectory
  · rw [same, gone] at found
    cases found
  · have parent : transactionDirectory <+: path.dropLast := by
      obtain ⟨tail, rfl⟩ := inside
      have some_ : tail ≠ [] := by
        rintro rfl
        exact same (List.append_nil _)
      rw [List.dropLast_append_of_ne_nil some_]
      exact List.prefix_append _ _
    have := Checkout.isDirectory_of_prefix (Checkout.isDirectory_dropLast found) parent
    rcases Checkout.isDirectory_iff.mp this with empty | ⟨mode, here⟩
    · cases empty
    · rw [gone] at here
      cases here

/-- What the code reads of a target. -/
def nodeSnapshot (host : Host) : Option Node → Option Snapshot
  | some (.file raw mode) => some { raw, digest := host.sha256 raw, mode }
  | _ => none

/-- What the code can take a snapshot of: nothing, or a plain file of a plain size. -/
def Readable (node : Option Node) : Prop :=
  node = none ∨ ∃ raw mode, node = some (.file raw mode) ∧ mode ≤ 0o777 ∧
    raw.length ≤ maxApplyTransactionFileBytes

/-- One transaction, from the tree in which it begins. -/
structure Plan (host : Host) where
  original : Checkout
  files : List (Path × Option Bytes)
  directories : List Path
  anchored : original.isDirectory axiomDirectory = true
  quiet : original.node transactionDirectory = none
  distinct : (files.map Prod.fst).Nodup
  clean : ∀ file ∈ files, Clean file.1
  sanctioned : ∀ file ∈ files,
    file.1 ≠ [] ∧ ¬ IsTemporary file.1 ∧ ¬ transactionDirectory <+: file.1
  planned : PlannedDirectories original files directories

namespace Plan

variable {host : Host} (plan : Plan host)

/-- What the code reads of a target before it touches it. -/
def old (path : Path) : Option Snapshot := nodeSnapshot host (plan.original.node path)

/-- The mode of a target, before and after. -/
def mode (path : Path) : Nat := ((plan.old path).map Snapshot.mode).getD 0o644

/-- What a target is to become. -/
def goal (file : Path × Option Bytes) : Option Node :=
  file.2.map fun raw => .file raw (plan.mode file.1)

/-- The entry of a target. -/
def entry (item : (Path × Option Bytes) × Nat) : Entry :=
  entryOf host item.2 item.1.1 item.1.2 (plan.old item.1.1)

def entries : List Entry := plan.files.zipIdx.map plan.entry

def journal (state : JournalState) : Journal where
  state := state
  entries := plan.entries
  createdDirectories := plan.directories.map posix

/-- The path is that of a target. -/
def Targets (path : Path) : Prop := path ∈ plan.files.map Prod.fst

/-- What the code found when it looked at every target: a plain file or nothing, and
something where a deletion is planned. -/
structure Checked : Prop where
  target : ∀ file ∈ plan.files, Readable (plan.original.node file.1)
  deletes : ∀ file ∈ plan.files, file.2 = none → plan.original.node file.1 ≠ none

variable {plan} {path : Path} {file : Path × Option Bytes}

theorem targets_of_mem (member : file ∈ plan.files) : plan.Targets file.1 :=
  List.mem_map_of_mem member

theorem Targets.listed (target : plan.Targets path) : ∃ raw, (path, raw) ∈ plan.files := by
  obtain ⟨⟨_, raw⟩, member, rfl⟩ := List.mem_map.mp target
  exact ⟨raw, member⟩

theorem Targets.sanctioned (target : plan.Targets path) :
    path ≠ [] ∧ ¬ IsTemporary path ∧ ¬ transactionDirectory <+: path := by
  obtain ⟨raw, member⟩ := target.listed
  exact plan.sanctioned _ member

/-- A target is planned once. -/
theorem eq_of_mem {other : Path × Option Bytes} (member : file ∈ plan.files)
    (listed : other ∈ plan.files) (same : file.1 = other.1) : file = other :=
  List.inj_on_of_nodup_map plan.distinct member listed same

theorem old_of_file {raw : Bytes} {mode : Nat}
    (found : plan.original.node path = some (.file raw mode)) :
    plan.old path = some ⟨raw, host.sha256 raw, mode⟩ := by
  rw [old, found]
  rfl

theorem old_of_missing (missing : plan.original.node path = none) : plan.old path = none := by
  rw [old, missing]
  rfl

theorem mode_of_file {raw : Bytes} {mode : Nat}
    (found : plan.original.node path = some (.file raw mode)) : plan.mode path = mode := by
  unfold Plan.mode
  rw [old_of_file found]
  rfl

/-- Nothing lies in the transaction directory before it is made. -/
theorem original_inside (inside : transactionDirectory <+: path) :
    plan.original.node path = none := Checkout.node_inside plan.quiet inside

/-- A planned directory lies outside the transaction directory. -/
theorem directory_outside (member : path ∈ plan.directories) : ¬ transactionDirectory <+: path := by
  obtain ⟨file, listed, -, above⟩ := plan.planned.needed path member
  intro inside
  exact (plan.sanctioned file listed).2.2
    (inside.trans (above.trans (List.dropLast_prefix _)))

theorem directory_clean (member : path ∈ plan.directories) : Clean path := by
  obtain ⟨file, listed, -, above⟩ := plan.planned.needed path member
  exact (plan.clean file listed).of_isPrefix (above.trans (List.dropLast_prefix _))

theorem pathParts_directory (member : path ∈ plan.directories) : pathParts (posix path) = path :=
  pathParts_posix (directory_clean member)

theorem pathParts_entry {item : (Path × Option Bytes) × Nat} (member : item.1 ∈ plan.files) :
    pathParts (plan.entry item).path = item.1.1 :=
  pathParts_posix (plan.clean item.1 member)

theorem anchor : ∃ mode, plan.original.node axiomDirectory = some (.directory mode) :=
  (Checkout.isDirectory_iff.mp plan.anchored).resolve_left (by decide)

end Plan

end AxiomEncode.Apply
