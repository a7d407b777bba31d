/-
# Cascade.BuildPlan -- planning a cascade

`buildProofHashCascadePlan` scans every module of the checkout for proof imports.  One
whose hash is the one its target had at the base is a candidate of the cascade; one that
already holds the hash its target has now must not be made stale by it; the others are
reported and left alone.
-/
import AxiomEncode.Apply.Targets
import AxiomEncode.Cascade.ProofImports
import AxiomEncode.Cascade.Resolve

namespace AxiomEncode.Cascade

open Theory

set_option autoImplicit false

/-- An entry of a git tree. -/
structure TreeEntry where
  mode : Text
  objectType : Text
  objectId : Text
  deriving DecidableEq

inductive WorktreeFile where
  | missing
  | symlink
  | irregular
  | file (raw : Bytes)
  deriving DecidableEq

/-- What git, the worktree and the YAML parser answer while a plan is made. -/
structure Repository where
  sha256 : Bytes → Text
  /-- `checkout.name` -/
  name : Text
  baseCommit : Text
  headCommit : Text
  /-- `git merge-base --is-ancestor` -/
  isAncestor : Bool
  /-- `git ls-files` -/
  tracked : List Text
  /-- `_git_tree_entries` of HEAD, in the order of the tree -/
  headEntries : List (Text × TreeEntry)
  /-- `git cat-file` -/
  blob : Text → Bytes
  worktree : Text → WorktreeFile
  /-- `_git_file` at the base commit -/
  baseFile : Text → Except CascadeError (Option Bytes)
  /-- `yaml.scan` -/
  yamlTokens : Text → Except CascadeError (List YamlToken)
  /-- `yaml.compose` -/
  compose : Text → Except CascadeError (Option YamlDocument)
  /-- `repr` of a text -/
  repr : Text → Text

/-! ## Targets -/

/-- `[a-z]{2}(?:-[a-z0-9-]+)*` -/
def isModuleJurisdiction (name : Text) : Bool :=
  let rest := name.drop 2
  2 ≤ name.length && (name.take 2).all Corpus.isAsciiLower &&
    (rest.isEmpty || rest.head? == some '-' && 2 ≤ rest.length &&
      rest.all fun c => Corpus.isAsciiLower c || Corpus.isAsciiDigit c || c == '-')

/-- `_is_atomic_module_path` -/
def isAtomicModulePath (path : Text) : Bool :=
  let parts := Apply.pathParts path
  match parts with
  | jurisdiction :: root :: _ :: _ =>
    isModuleJurisdiction jurisdiction && Apply.atomicModuleRoots.contains root &&
      Apply.fileSuffix parts == ".yaml".toList
  | _ => false

namespace Repository

variable (repo : Repository)

def country : Text :=
  if "rulespec-".toList.isPrefixOf repo.name then repo.name.drop 9 else repo.name

/-- A module of the checkout's country. -/
def isModule (path : Text) : Bool :=
  isAtomicModulePath path &&
    Apply.jurisdictionCountry ((Apply.pathParts path).headD []) == repo.country

end Repository

/-! ## The scan -/

/-- What the scan of the importers collects. -/
structure ImportScan where
  baseTargetBytes : List (Text × Option Bytes)
  currentTargetBytes : List (Text × Option Bytes)
  importerHashes : List (Text × Text)
  moduleBytes : List (Text × Bytes)
  candidates : List ProofImportScan
  currentNonBase : List ProofImportScan
  ignored : List HashOccurrence
  deriving DecidableEq

/-- `module_bytes.get(path)` -/
def ImportScan.modules (scan : ImportScan) : Files := fun path => scan.moduleBytes.lookup path

/-- `current_target_bytes.get(path)` -/
def ImportScan.targets (scan : ImportScan) : Files := fun path =>
  (scan.currentTargetBytes.lookup path).join

section

variable (repo : Repository) (expected : List (Text × Bytes))

/-- The eligible occurrence of a candidate whose hash changes. -/
def eligibleOccurrence (scan : ImportScan) (resolved : Files) (found : ProofImportScan) :
    Except CascadeError (List HashOccurrence) := do
  let replacement ← targetHashForVirtualFiles repo.sha256 scan.targets found.targetPath resolved
  if replacement ≠ found.declaredHash then pure [found.occurrence .eligible (some replacement)]
  else pure []

/-- An import that holds the hash of its target goes on to. -/
def checkNotStale (scan : ImportScan) (resolved : Files) (found : ProofImportScan) :
    Except CascadeError Unit := do
  let final ← targetHashForVirtualFiles repo.sha256 scan.targets found.targetPath resolved
  check (final = found.currentTargetHash)
    ("base-bound cascade would stale a non-base-authorized proof import: ".toList ++
      found.importerPath ++ ":".toList ++ (toString found.line).toList ++ " -> ".toList ++
        found.targetPath)

/-- The plan over what was scanned. -/
def planOf (scan : ImportScan) (resolved : Files) : Except CascadeError CascadePlan := do
  let eligible ← collect (eligibleOccurrence repo scan resolved) scan.candidates
  scan.currentNonBase.forM (checkNotStale repo scan resolved)
  pure {
    baseCommit := repo.baseCommit
    headCommit := repo.headCommit
    occurrences := eligible ++ scan.ignored
    importerSha256 := scan.importerHashes.dedup.insertionSort fun a b => a.1 ≤ b.1 }

end

end AxiomEncode.Cascade
