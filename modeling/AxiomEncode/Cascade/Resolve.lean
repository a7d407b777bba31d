/-
# Cascade.Resolve -- the hashes of a cascade, in rounds

A replaced hash changes the bytes of its importer, and with them the hash that importers
of the importer have to hold.  `resolveBaseBoundCascade` rewrites every importer from its
original text in rounds, with the hashes of the files of the round before, until a round
changes nothing.
-/
import AxiomEncode.Cascade.Plan
import Mathlib.Logic.Function.Basic

namespace AxiomEncode.Cascade

open Theory

set_option autoImplicit false

/-- A hash scalar of a proof import whose target is there, now and at the base. -/
structure ProofImportScan where
  importerPath : Text
  target : Text
  targetPath : Text
  line : Int
  declaredHash : Text
  baseTargetHash : Text
  currentTargetHash : Text
  startIndex : Nat
  endIndex : Nat
  scalarStyle : Option Char
  deriving DecidableEq

def ProofImportScan.occurrence (scan : ProofImportScan) (status : OccurrenceStatus)
    (replacement : Option Text) : HashOccurrence where
  importerPath := scan.importerPath
  target := scan.target
  targetPath := scan.targetPath
  line := scan.line
  declaredHash := scan.declaredHash
  baseTargetHash := some scan.baseTargetHash
  currentTargetHash := some scan.currentTargetHash
  replacementHash := replacement
  status := status
  startIndex := scan.startIndex
  endIndex := scan.endIndex
  scalarStyle := scan.scalarStyle

/-- The bytes of files, by path: `dict[str, bytes]`. -/
abbrev Files := Text → Option Bytes

/-- `candidates_by_importer`, the paths in order. -/
def importersOf (candidates : List ProofImportScan) : List Text :=
  (candidates.map ProofImportScan.importerPath).dedup.insertionSort (· ≤ ·)

/-- `candidates_by_importer[path]`, the last scalar first. -/
def scansOf (candidates : List ProofImportScan) (path : Text) : List ProofImportScan :=
  (candidates.filter fun scan => scan.importerPath = path).insertionSort
    fun a b => b.startIndex ≤ a.startIndex

section

variable (sha256 : Bytes → Text) (moduleBytes : Files) (candidates : List ProofImportScan)
  (currentTargetBytes : Files)

/-- `f"sha256:{_sha256(content)}"` -/
def hashOf (content : Bytes) : Text := "sha256:".toList ++ sha256 content

/-- `_target_hash_for_virtual_files` -/
def targetHashForVirtualFiles (targetPath : Text) (virtual : Files) : Except CascadeError Text :=
  match (virtual targetPath).or (currentTargetBytes targetPath) with
  | some content => .ok (hashOf sha256 content)
  | none =>
    .error (.value ("proof import target disappeared during planning: ".toList ++ targetPath))

/-- One turn of the loop over the scans of an importer. -/
def replaceScan (virtual : Files) (text : Text) (scan : ProofImportScan) :
    Except CascadeError Text := do
  let replacement ← targetHashForVirtualFiles sha256 currentTargetBytes scan.targetPath virtual
  let rendered ← renderScalar replacement scan.scalarStyle
  pure (spliceText text scan.startIndex scan.endIndex rendered)

/-- What a round makes of an importer. -/
def rewriteImporter (virtual : Files) (path : Text) : Except CascadeError Bytes :=
  match moduleBytes path with
  | none => .error (.value ("KeyError: ".toList ++ path))
  | some raw =>
    match decodeUtf8 raw with
    | none => .error (.value "UnicodeDecodeError".toList)
    | some original => do
      let updated ← (scansOf candidates path).foldlM
        (replaceScan sha256 currentTargetBytes virtual) original
      pure (utf8 updated)

/-- One round: every importer from the files of the round before. -/
def cascadeRound (virtual : Files) : Except CascadeError Files :=
  (importersOf candidates).foldlM (fun updated path => do
    let raw ← rewriteImporter sha256 moduleBytes candidates currentTargetBytes virtual path
    pure (Function.update updated path (some raw))) virtual

/-- At most so many rounds, until one changes nothing. -/
def resolveRounds : Nat → Files → Except CascadeError Files
  | 0, _ =>
    .error (.value ("base-bound proof hash cascade did not converge; candidate imports " ++
      "contain a dependency cycle").toList)
  | limit + 1, virtual => do
    let updated ← cascadeRound sha256 moduleBytes candidates currentTargetBytes virtual
    if (importersOf candidates).all fun path => updated path = virtual path then pure updated
    else resolveRounds limit updated

/-- `_resolve_base_bound_cascade` -/
def resolveBaseBoundCascade : Except CascadeError Files :=
  resolveRounds sha256 moduleBytes candidates currentTargetBytes
    ((importersOf candidates).length + 2) moduleBytes

end

end AxiomEncode.Cascade
