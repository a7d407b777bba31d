/-
# Cascade.Disk -- the files that a hash cascade rewrites

A `Disk` holds the files of a checkout by their paths below its root.  Every call that
touches it is one step of `diskMachine`: the environment may make any of them raise, and
it chooses the names of temporary files and how much of a write got through before the
rest of it.
-/
import AxiomEncode.Theory.Crash
import AxiomEncode.Theory.PyText

namespace AxiomEncode.Cascade

open Theory Crash

set_option autoImplicit false

abbrev Text := List Char
abbrev Bytes := List UInt8

structure File where
  raw : Bytes
  mode : Nat
  deriving DecidableEq

structure Disk where
  files : List (Text × File)
  directories : List Text

namespace Disk

def file (disk : Disk) (path : Text) : Option File := disk.files.lookup path

/-- The bytes at a path. -/
def raw (disk : Disk) (path : Text) : Option Bytes := (disk.file path).map File.raw

def put (disk : Disk) (path : Text) (file : File) : Disk :=
  { disk with files := (path, file) :: disk.files.filter fun entry => entry.1 ≠ path }

def remove (disk : Disk) (path : Text) : Disk :=
  { disk with files := disk.files.filter fun entry => entry.1 ≠ path }

/-- The root, or a directory below it. -/
def isDirectory (disk : Disk) (path : Text) : Bool :=
  path.isEmpty || disk.directories.contains path

def holds (disk : Disk) (path : Text) : Bool := (disk.file path).isSome || disk.isDirectory path

/-- Something lies in the directory. -/
def isOccupied (disk : Disk) (path : Text) : Bool :=
  (disk.files.any fun entry => (path ++ ['/']).isPrefixOf entry.1) ||
    disk.directories.any fun directory => (path ++ ['/']).isPrefixOf directory

theorem lookup_filter_ne {files : List (Text × File)} (path other : Text) :
    (files.filter fun entry => entry.1 ≠ path).lookup other =
      if other = path then none else files.lookup other := by
  induction files with
  | nil => simp
  | cons entry rest ih =>
    by_cases dropped : entry.1 = path
    · rw [List.filter_cons_of_neg (by simpa using dropped), ih, List.lookup_cons]
      by_cases here : other = path
      · rw [if_pos here, if_pos here]
      · have apart : (other == entry.1) = false := by simpa [dropped] using here
        rw [if_neg here, if_neg here, apart]
    · rw [List.filter_cons_of_pos (by simpa using dropped), List.lookup_cons, ih,
        List.lookup_cons]
      by_cases here : other = path
      · have apart : (other == entry.1) = false := by simpa [here] using Ne.symm dropped
        rw [if_pos here, if_pos here, apart]
      · rw [if_neg here, if_neg here]

theorem file_put (disk : Disk) (path : Text) (file : File) (other : Text) :
    (disk.put path file).file other = if other = path then some file else disk.file other := by
  rw [put, Disk.file, List.lookup_cons]
  by_cases here : other = path
  · rw [if_pos here, here, beq_self_eq_true]
  · rw [if_neg here, beq_eq_false_iff_ne.mpr here]
    exact (lookup_filter_ne path other).trans (if_neg here)

theorem file_remove (disk : Disk) (path other : Text) :
    (disk.remove path).file other = if other = path then none else disk.file other :=
  lookup_filter_ne path other

theorem raw_put (disk : Disk) (path : Text) (file : File) (other : Text) :
    (disk.put path file).raw other = if other = path then some file.raw else disk.raw other := by
  rw [raw, file_put]
  split_ifs <;> rfl

theorem raw_remove (disk : Disk) (path other : Text) :
    (disk.remove path).raw other = if other = path then none else disk.raw other := by
  rw [raw, file_remove]
  split_ifs <;> rfl

end Disk

/-! ## Paths -/

/-- The directory of a path, the root as an empty text. -/
def parentOf (path : Text) : Text := ((path.reverse.dropWhile (· ≠ '/')).drop 1).reverse

def nameOf (path : Text) : Text := (path.reverse.takeWhile (· ≠ '/')).reverse

def joinPath (directory name : Text) : Text :=
  if directory.isEmpty then name else directory ++ '/' :: name

/-! ## Steps -/

inductive CascadeError where
  /-- `ValueError` -/
  | value (message : Text)
  /-- `OSError`, by the name of its class. -/
  | os (kind : String) (path : Text)
  /-- Whatever a step was made to raise. -/
  | injected
  /-- The `RuntimeError` of a rollback that failed. -/
  | rollbackFailed (detail : Text)
  deriving DecidableEq

/-- How a stream was opened: a path of its own, or a temporary file. -/
inductive Opened where
  | created
  | temporary
  deriving DecidableEq

/-- What an entry of a directory went through before the directory is synced. -/
inductive Change where
  | made
  | removed
  | created
  | replaced
  deriving DecidableEq

inductive DiskOp where
  /-- Look: a read, a `stat`, a git command, a plan.  Between two writes the disk stays
  as it is. -/
  | inspect (what : String)
  | mkdir (path : Text)
  | rmdir (path : Text)
  /-- `os.open` with `O_CREAT | O_EXCL` -/
  | create (path : Text) (mode : Nat)
  /-- `tempfile.mkstemp`, beside a path -/
  | mkstemp (path : Text)
  /-- Part of a write. -/
  | writeSome (opened : Opened) (path : Text) (raw : Bytes)
  | write (opened : Opened) (path : Text) (raw : Bytes)
  | fsync (opened : Opened) (path : Text)
  | chmod (path : Text) (mode : Nat)
  | replace (source target : Text)
  | unlink (path : Text)
  /-- `_fsync_directory` -/
  | fsyncDirectory (change : Change) (path : Text)
  deriving DecidableEq

/-- What a step answers: the disk after it, and the file that `mkstemp` made. -/
structure DiskRes where
  seen : Disk
  made : Text := []

/-- What a step leaves open. -/
structure DiskChoice where
  /-- The random part of a temporary file's name. -/
  name : Text := []
  /-- How many bytes of a write got through. -/
  written : Nat := 0

def temporaryPath (path name : Text) : Text :=
  joinPath (parentOf path) ('.' :: (nameOf path ++ '.' :: (name ++ ".tmp".toList)))

/-- Change the file at a path. -/
def Disk.edit (disk : Disk) (path : Text) (change : File → File) : Except CascadeError Disk :=
  match disk.file path with
  | some file => .ok (disk.put path (change file))
  | none => .error (.os "FileNotFoundError" path)

/-- A new file in a directory that is there. -/
def Disk.create (disk : Disk) (path : Text) (mode : Nat) : Except CascadeError Disk :=
  if disk.holds path then .error (.os "FileExistsError" path)
  else if !disk.isDirectory (parentOf path) then .error (.os "FileNotFoundError" path)
  else .ok (disk.put path ⟨[], mode⟩)

def Disk.mkdir (disk : Disk) (path : Text) : Except CascadeError Disk :=
  if disk.holds path then .error (.os "FileExistsError" path)
  else if !disk.isDirectory (parentOf path) then .error (.os "FileNotFoundError" path)
  else .ok { disk with directories := path :: disk.directories }

def Disk.rmdir (disk : Disk) (path : Text) : Except CascadeError Disk :=
  if !disk.directories.contains path then .error (.os "FileNotFoundError" path)
  else if disk.isOccupied path then .error (.os "OSError" path)
  else .ok { disk with directories := disk.directories.filter (· ≠ path) }

/-- `os.replace`: the target is gone and the source is in its place in one step. -/
def Disk.replace (disk : Disk) (source target : Text) : Except CascadeError Disk :=
  match disk.file source with
  | none => .error (.os "FileNotFoundError" source)
  | some file =>
    if disk.isDirectory target then .error (.os "IsADirectoryError" target)
    else .ok ((disk.remove source).put target file)

def Disk.unlink (disk : Disk) (path : Text) : Except CascadeError Disk :=
  if (disk.file path).isSome then .ok (disk.remove path)
  else .error (.os "FileNotFoundError" path)

/-- A step that answers nothing but the disk. -/
def changing (result : Except CascadeError Disk) : Except CascadeError (DiskRes × Disk) :=
  match result with
  | .ok after => .ok (⟨after, []⟩, after)
  | .error error => .error error

def diskAct (op : DiskOp) (choice : DiskChoice) (disk : Disk) :
    Except CascadeError (DiskRes × Disk) :=
  match op with
  | .inspect _ => changing (.ok disk)
  | .mkdir path => changing (disk.mkdir path)
  | .rmdir path => changing (disk.rmdir path)
  | .create path mode => changing (disk.create path mode)
  | .mkstemp path =>
    let made := temporaryPath path choice.name
    match disk.create made 0o600 with
    | .ok after => .ok (⟨after, made⟩, after)
    | .error error => .error error
  | .writeSome _ path raw =>
    changing (disk.edit path fun file => { file with raw := raw.take choice.written })
  | .write _ path raw => changing (disk.edit path fun file => { file with raw := raw })
  | .fsync _ path => changing (disk.edit path id)
  | .chmod path mode => changing (disk.edit path fun file => { file with mode := mode })
  | .replace source target => changing (disk.replace source target)
  | .unlink path => changing (disk.unlink path)
  | .fsyncDirectory _ path =>
    if disk.isDirectory path then changing (.ok disk)
    else .error (.os "FileNotFoundError" path)

abbrev diskMachine : Machine where
  State := Disk
  Op := DiskOp
  Res := DiskRes
  Choice := DiskChoice
  Err := CascadeError
  idle := {}
  injected _ := .injected
  act := diskAct

abbrev Run (α : Type) := Prog diskMachine α

def step (op : DiskOp) : Run Unit := Prog.bind (Prog.perform op) fun _ => Prog.pure ()

/-- Call a function that reads. -/
def reading {α : Type} (what : String) (read : Disk → Except CascadeError α) : Run α :=
  Prog.bind (Prog.perform (.inspect what)) fun res =>
    match read res.seen with
    | .ok value => Prog.pure value
    | .error error => Prog.raise error

/-- Run a program and keep what it raises. -/
def attempt {α : Type} (p : Run α) : Run (Except CascadeError α) :=
  Prog.tryCatch (Prog.bind p fun value => Prog.pure (.ok value)) fun error => Prog.pure (.error error)

end AxiomEncode.Cascade
