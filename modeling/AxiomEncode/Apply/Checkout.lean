/-
# Apply.Checkout -- the tree of files and directories of one checkout

A `Checkout` maps the paths below its root to files and directories.  Its field
says that every node lies in a directory, so a tree with a dangling path cannot
be built.  The steps of the file system that the transaction takes are `FileOp`,
with what the system leaves open (the name of a temporary file, the order of a
recursive removal, how much of a write reached the disk) left to a `FileChoice`.
A checkout holds no symbolic links, one hard link to each file and one owner.
-/
import AxiomEncode.Theory.Crash
import AxiomEncode.Corpus.Markers
import Mathlib.Data.List.AList

namespace AxiomEncode.Apply

open Theory

set_option autoImplicit false

abbrev Text := List Char
abbrev Bytes := List UInt8

/-- A path relative to the checkout root, part by part. -/
abbrev Path := List Text

inductive Node where
  | file (raw : Bytes) (mode : Nat)
  | directory (mode : Nat)
  deriving DecidableEq

def Node.isDirectory : Node → Bool
  | .directory _ => true
  | .file _ _ => false

/-- The path is the root or a directory among the nodes. -/
def directoryIn (nodes : AList fun _ : Path => Node) (path : Path) : Bool :=
  path.isEmpty || (nodes.lookup path).any Node.isDirectory

structure Checkout where
  nodes : AList fun _ : Path => Node
  rooted : ∀ path node, nodes.lookup path = some node →
    path ≠ [] ∧ directoryIn nodes path.dropLast = true

namespace Checkout

def node (checkout : Checkout) (path : Path) : Option Node := checkout.nodes.lookup path

def isDirectory (checkout : Checkout) (path : Path) : Bool := directoryIn checkout.nodes path

/-- Some node lies directly in `path`. -/
def hasChild (checkout : Checkout) (path : Path) : Bool :=
  checkout.nodes.keys.any fun other => other.dropLast = path

/-- The paths at and below `root`. -/
def below (checkout : Checkout) (root : Path) : List Path :=
  checkout.nodes.keys.filter fun path => root.isPrefixOf path

variable {path : Path}

theorem isDirectory_iff {checkout : Checkout} :
    checkout.isDirectory path = true ↔
      path = [] ∨ ∃ mode, checkout.node path = some (.directory mode) := by
  unfold isDirectory directoryIn node
  rw [Bool.or_eq_true, List.isEmpty_iff]
  refine or_congr_right ?_
  cases checkout.nodes.lookup path with
  | none => simp
  | some node => cases node <;> simp [Node.isDirectory]

theorem node_nil (checkout : Checkout) : checkout.node [] = none := by
  cases found : checkout.node [] with
  | none => rfl
  | some node => exact absurd rfl (checkout.rooted [] node found).1

theorem node_eq_some_mem_keys {checkout : Checkout} {node : Node}
    (found : checkout.node path = some node) : path ∈ checkout.nodes.keys := by
  have : (checkout.nodes.lookup path).isSome = true := by
    rw [show checkout.nodes.lookup path = some node from found]
    rfl
  exact AList.lookup_isSome.mp this

theorem mem_keys_iff {checkout : Checkout} :
    path ∈ checkout.nodes.keys ↔ ∃ node, checkout.node path = some node := by
  constructor
  · intro member
    exact Option.isSome_iff_exists.mp (AList.lookup_isSome.mpr member)
  · rintro ⟨node, found⟩
    exact node_eq_some_mem_keys found

/-- The directory of a node. -/
theorem isDirectory_dropLast {checkout : Checkout} {node : Node}
    (found : checkout.node path = some node) : checkout.isDirectory path.dropLast = true :=
  (checkout.rooted path node found).2

/-! ## Putting and removing nodes -/

/-- Where a node may be put: in a directory, and never a file over a directory. -/
def Fits (checkout : Checkout) (path : Path) (node : Node) : Prop :=
  path ≠ [] ∧ checkout.isDirectory path.dropLast = true ∧
    (checkout.isDirectory path = true → node.isDirectory = true)

instance (checkout : Checkout) (path : Path) (node : Node) : Decidable (checkout.Fits path node) :=
  inferInstanceAs (Decidable (_ ∧ _ ∧ _))

theorem dropLast_ne_self (nonempty : path ≠ []) : path.dropLast ≠ path := by
  intro same
  have length := congrArg List.length same
  rw [List.length_dropLast] at length
  have := List.length_pos_iff.mpr nonempty
  omega

/-- Put a node where it fits. -/
def put (checkout : Checkout) (path : Path) (node : Node) (fits : checkout.Fits path node) :
    Checkout where
  nodes := checkout.nodes.insert path node
  rooted := by
    have keeps : ∀ other, directoryIn checkout.nodes other = true →
        directoryIn (checkout.nodes.insert path node) other = true := by
      intro other directory
      by_cases same : other = path
      · subst same
        unfold directoryIn
        rw [AList.lookup_insert]
        have := fits.2.2 directory
        simp [this]
      · unfold directoryIn at directory ⊢
        rwa [AList.lookup_insert_ne same]
    intro other found lookup
    by_cases same : other = path
    · subst same
      exact ⟨fits.1, keeps _ fits.2.1⟩
    · rw [AList.lookup_insert_ne same] at lookup
      have rooted := checkout.rooted other found lookup
      exact ⟨rooted.1, keeps _ rooted.2⟩

theorem node_put {checkout : Checkout} {node : Node} (fits : checkout.Fits path node)
    (other : Path) :
    (checkout.put path node fits).node other =
      if other = path then some node else checkout.node other := by
  unfold put Checkout.node
  by_cases same : other = path
  · subst same
    rw [if_pos rfl, AList.lookup_insert]
  · rw [if_neg same, AList.lookup_insert_ne same]

/-- Remove a node that nothing lies in. -/
def remove (checkout : Checkout) (path : Path) (childless : checkout.hasChild path = false) :
    Checkout where
  nodes := checkout.nodes.erase path
  rooted := by
    intro other node lookup
    have ne : other ≠ path := by
      rintro rfl
      rw [AList.lookup_erase] at lookup
      cases lookup
    rw [AList.lookup_erase_ne ne] at lookup
    obtain ⟨nonempty, directory⟩ := checkout.rooted other node lookup
    refine ⟨nonempty, ?_⟩
    have parent : other.dropLast ≠ path := by
      intro same
      have := List.any_eq_false.mp childless other (node_eq_some_mem_keys lookup)
      exact this (decide_eq_true same)
    unfold directoryIn at directory ⊢
    rwa [AList.lookup_erase_ne parent]

theorem node_remove {checkout : Checkout} (childless : checkout.hasChild path = false)
    (other : Path) :
    (checkout.remove path childless).node other =
      if other = path then none else checkout.node other := by
  unfold remove Checkout.node
  by_cases same : other = path
  · subst same
    rw [if_pos rfl, AList.lookup_erase]
  · rw [if_neg same, AList.lookup_erase_ne same]

theorem keys_perm_remove {checkout : Checkout} (childless : checkout.hasChild path = false)
    (member : path ∈ checkout.nodes.keys) :
    checkout.nodes.keys.Perm (path :: (checkout.remove path childless).nodes.keys) := by
  unfold remove
  rw [AList.keys_erase]
  exact @List.perm_cons_erase _ instBEqOfDecidableEq _ _ _ member

/-- Nothing lies in a file. -/
theorem file_childless {checkout : Checkout} {raw : Bytes} {mode : Nat}
    (file : checkout.node path = some (.file raw mode)) : checkout.hasChild path = false := by
  refine List.any_eq_false.mpr fun other member => ?_
  intro inside
  obtain ⟨node, found⟩ := mem_keys_iff.mp member
  have directory := isDirectory_dropLast found
  rw [of_decide_eq_true inside] at directory
  rcases isDirectory_iff.mp directory with rfl | ⟨_, here⟩
  · rw [node_nil] at file
    cases file
  · rw [here] at file
    cases file

end Checkout

/-! ## The steps of the file system -/

/-- The errors of the operating system that the code tells apart or can meet. -/
inductive OsError where
  | fileNotFound
  | fileExists
  | notADirectory
  | isADirectory
  | notEmpty
  deriving DecidableEq, Repr

inductive ApplyError where
  | os (error : OsError) (path : Path)
  /-- `RuntimeError`, with the path its message names. -/
  | runtime (detail : String) (path : Option Path)
  /-- Any exception that a step was made to raise. -/
  | injected
  /-- The error of the transaction: what failed, and what failed in undoing it. -/
  | transactionFailed (cause : ApplyError) (recovery : Option ApplyError)

inductive FileOp where
  /-- Look at the tree: `lstat`, `exists`, an open that only reads, a listing, a
  check of the caller.  Between two writes the tree stays as it is, so that one
  look stands for every call of one function that reads. -/
  | inspect (what : String)
  | mkdir (path : Path) (mode : Nat)
  /-- `tempfile.mkstemp(dir=..., prefix=...)` -/
  | mkstemp (directory : Path) (stem : Text)
  /-- Part of a write. -/
  | writeSome (path : Path) (raw : Bytes)
  | write (path : Path) (raw : Bytes)
  | chmod (path : Path) (mode : Nat)
  | fsync (path : Path)
  | fsyncDirectory (path : Path)
  | replace (source target : Path)
  | unlink (path : Path)
  | rmdir (path : Path)
  /-- One deletion of a recursive removal. -/
  | removeBelow (root : Path)
  /-- Take or give back the lock of the checkout. -/
  | lock
  | unlock
  deriving DecidableEq

/-- What a step answers: the tree after it, and the file that `mkstemp` made. -/
structure FileRes where
  seen : Checkout
  made : Path := []

/-- What a step leaves open. -/
structure FileChoice where
  /-- The random part of a temporary file's name. -/
  name : Text := []
  /-- Which of the removable nodes goes next, or how many bytes are written. -/
  number : Nat := 0

/-- The alphabet of `tempfile`. -/
def isTemporaryChar (c : Char) : Bool :=
  Corpus.isAsciiLower c || Corpus.isAsciiDigit c || c == '_'

/-- The numbers from 10000000 on, eight characters and more. -/
def numberedPart (number : Nat) : Text := Nat.toDigits 10 (10000000 + number)

/-- The random part that `mkstemp` ends up with: the proposed one when it can be
used, otherwise the first number that can. -/
def temporaryPart (taken : Text → Bool) (attempts : Nat) (proposed : Text) : Option Text :=
  if proposed.length = 8 ∧ proposed.all isTemporaryChar = true ∧ taken proposed = false then
    some proposed
  else ((List.range attempts).map numberedPart).find? fun part => !taken part

namespace Checkout

variable (checkout : Checkout)

/-- A proper ancestor of the path is a file. -/
def throughFile (path : Path) : Bool :=
  path.dropLast.inits.any fun ancestor =>
    (checkout.node ancestor).any fun node => !node.isDirectory

/-- What looking a path up says of it. -/
def lookup (path : Path) : Except ApplyError (Option Node) :=
  if checkout.throughFile path then .error (.os .notADirectory path)
  else .ok (if path.isEmpty then some (.directory 0o755) else checkout.node path)

/-- The nodes at and below `root` that nothing lies in. -/
def removable (root : Path) : List Path :=
  (checkout.below root).filter fun path => !checkout.hasChild path

/-- Put a node, or say why it cannot be put. -/
def putOr (path : Path) (node : Node) (error : OsError) : Except ApplyError Checkout :=
  if fits : checkout.Fits path node then .ok (checkout.put path node fits)
  else .error (.os error path)

/-- Remove a node, or say why it cannot be removed. -/
def removeOr (path : Path) (error : OsError) : Except ApplyError Checkout :=
  if childless : checkout.hasChild path = false then .ok (checkout.remove path childless)
  else .error (.os error path)

/-- `mkdir` -/
def mkdir (path : Path) (mode : Nat) : Except ApplyError Checkout :=
  if checkout.throughFile path then .error (.os .notADirectory path)
  else if (checkout.node path).isSome || path.isEmpty then .error (.os .fileExists path)
  else checkout.putOr path (.directory mode) .fileNotFound

/-- `mkstemp`: a new empty file, private to its owner. -/
def mkstemp (directory : Path) (stem proposed : Text) : Except ApplyError (Path × Checkout) :=
  if !checkout.isDirectory directory then .error (.os .fileNotFound directory)
  else
    let taken := fun part => (checkout.node (directory ++ [stem ++ part])).isSome
    match temporaryPart taken (checkout.nodes.keys.length + 1) proposed with
    | none => .error (.os .fileExists directory)
    | some part => do
      let path := directory ++ [stem ++ part]
      let after ← checkout.putOr path (.file [] 0o600) .fileNotFound
      pure (path, after)

/-- Write to an open file. -/
def write (path : Path) (raw : Bytes) : Except ApplyError Checkout :=
  match checkout.node path with
  | some (.file _ mode) => checkout.putOr path (.file raw mode) .fileNotFound
  | _ => .error (.os .fileNotFound path)

def chmod (path : Path) (mode : Nat) : Except ApplyError Checkout :=
  match checkout.node path with
  | some (.file raw _) => checkout.putOr path (.file raw mode) .fileNotFound
  | _ => .error (.os .fileNotFound path)

/-- `os.unlink` -/
def unlink (path : Path) : Except ApplyError Checkout :=
  if checkout.throughFile path then .error (.os .notADirectory path)
  else
    match checkout.node path with
    | some (.file _ _) => checkout.removeOr path .notEmpty
    | some (.directory _) => .error (.os .isADirectory path)
    | none => .error (.os .fileNotFound path)

/-- `os.replace` of a file: the target is gone and the source is at its place in
one step. -/
def replace (source target : Path) : Except ApplyError Checkout :=
  match checkout.node source with
  | some (.file raw mode) =>
    if checkout.isDirectory target then .error (.os .isADirectory target)
    else if source = target then .ok checkout
    else do
      let after ← checkout.putOr target (.file raw mode) .fileNotFound
      after.removeOr source .notEmpty
  | _ => .error (.os .fileNotFound source)

/-- `os.rmdir` -/
def rmdir (path : Path) : Except ApplyError Checkout :=
  match checkout.node path with
  | some (.directory _) => checkout.removeOr path .notEmpty
  | some (.file _ _) => .error (.os .notADirectory path)
  | none => .error (.os .fileNotFound path)

/-- Remove one of the removable nodes at or below `root`. -/
def removeBelow (root : Path) (number : Nat) : Except ApplyError Checkout :=
  let leaves := checkout.removable root
  match leaves[number % leaves.length]? with
  | some path => checkout.removeOr path .notEmpty
  | none => .error (.os .fileNotFound root)

end Checkout

/-- A step that changes the tree and answers nothing else. -/
def changing (result : Except ApplyError Checkout) : Except ApplyError (FileRes × Checkout) := do
  let after ← result
  pure (⟨after, []⟩, after)

/-- One step of the file system. -/
def fileAct (op : FileOp) (choice : FileChoice) (checkout : Checkout) :
    Except ApplyError (FileRes × Checkout) :=
  match op with
  | .inspect _ => changing (.ok checkout)
  | .mkdir path mode => changing (checkout.mkdir path mode)
  | .mkstemp directory stem => do
    let (made, after) ← checkout.mkstemp directory stem choice.name
    pure (⟨after, made⟩, after)
  | .writeSome path raw => changing (checkout.write path (raw.take choice.number))
  | .write path raw => changing (checkout.write path raw)
  | .chmod path mode => changing (checkout.chmod path mode)
  | .fsync path =>
    if (checkout.node path).isSome then changing (.ok checkout)
    else .error (.os .fileNotFound path)
  | .fsyncDirectory path =>
    if checkout.isDirectory path then changing (.ok checkout)
    else .error (.os .fileNotFound path)
  | .replace source target => changing (checkout.replace source target)
  | .unlink path => changing (checkout.unlink path)
  | .rmdir path => changing (checkout.rmdir path)
  | .removeBelow root => changing (checkout.removeBelow root choice.number)
  | .lock => changing (.ok checkout)
  | .unlock => changing (.ok checkout)

/-- The file system of one checkout, for one process at a time. -/
abbrev fileMachine : Machine where
  State := Checkout
  Op := FileOp
  Res := FileRes
  Choice := FileChoice
  Err := ApplyError
  idle := {}
  injected _ := .injected
  act := fileAct

end AxiomEncode.Apply
