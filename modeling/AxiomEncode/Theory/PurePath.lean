/-
# Theory.PurePath -- paths and the names on them

An absolute path is the list of the names on it.  Joining a name makes a child
(`join_of_isName`), and paths that part at some depth are `Apart`.
-/
import AxiomEncode.Theory.PathCover
import Mathlib.Data.List.Induction

namespace AxiomEncode.Theory

set_option autoImplicit false

/-- The names on an absolute path. -/
abbrev PurePath := List (List Char)

/-- The names in a text, without empty ones and `.`. -/
def pathParts (text : List Char) : PurePath :=
  (text.splitOn '/').filter fun part => part ≠ [] ∧ part ≠ ['.']

/-- `path / text` -/
def PurePath.join (path : PurePath) (text : List Char) : PurePath :=
  if text.head? = some '/' then pathParts text else path ++ pathParts text

/-- `os.path.abspath` -/
def PurePath.abspath (path : PurePath) : PurePath :=
  path.foldl (fun above part => if part = ['.', '.'] then above.dropLast else above ++ [part]) []

/-- A text that is one name of a path. -/
structure IsName (text : List Char) : Prop where
  nonempty : text ≠ []
  oneName : '/' ∉ text
  notHere : text ≠ ['.']
  notAbove : text ≠ ['.', '.']

/-- Neither path is the other or lies on the way to it. -/
def Apart (p q : PurePath) : Prop := ¬ p <+: q ∧ ¬ q <+: p

section Join

variable {path p q : PurePath} {name other text : List Char}

theorem pathParts_of_isName (isName : IsName name) : pathParts name = [name] := by
  rw [pathParts, List.splitOn_eq_singleton isName.oneName]
  simp [isName.nonempty, isName.notHere]

theorem join_of_isName (isName : IsName name) : path.join name = path ++ [name] := by
  have relative : name.head? ≠ some '/' := by
    intro isHead
    exact isName.oneName (List.mem_of_mem_head? isHead)
  rw [PurePath.join, if_neg relative, pathParts_of_isName isName]

/-- Names stay where they are below an absolute path. -/
theorem abspath_append (path : PurePath) {names : PurePath} (all : ∀ name ∈ names, IsName name) :
    PurePath.abspath (path ++ names) = path.abspath ++ names := by
  induction names using List.reverseRecOn with
  | nil => rw [List.append_nil, List.append_nil]
  | append_singleton names name ih =>
    have isName : IsName name := all name (by simp)
    have before := ih fun name isBefore => all name (by simp [isBefore])
    rw [PurePath.abspath, ← List.append_assoc, List.foldl_append, List.foldl_cons, List.foldl_nil,
      if_neg isName.notAbove]
    rw [PurePath.abspath] at before
    rw [before, List.append_assoc]

theorem apart_heads (different : name ≠ other) : Apart (name :: p) (other :: q) := by
  constructor
  · intro covers
    exact different (List.cons_prefix_cons.mp covers).1
  · intro covers
    exact different (List.cons_prefix_cons.mp covers).1.symm

theorem Apart.cons (apart : Apart p q) (name : List Char) : Apart (name :: p) (name :: q) :=
  ⟨fun covers => apart.1 (List.cons_prefix_cons.mp covers).2,
    fun covers => apart.2 (List.cons_prefix_cons.mp covers).2⟩

/-- Apart paths stay apart below any path. -/
theorem Apart.below (apart : Apart p q) (path : PurePath) : Apart (path ++ p) (path ++ q) :=
  ⟨fun covers => apart.1 ((List.prefix_append_right_inj path).mp covers),
    fun covers => apart.2 ((List.prefix_append_right_inj path).mp covers)⟩

theorem Apart.symm (apart : Apart p q) : Apart q p := ⟨apart.2, apart.1⟩

/-- What lies below one of two apart paths does not lie below the other. -/
theorem Apart.ne {first second : PurePath} (apart : Apart p q) (below : p <+: first)
    (below' : q <+: second) : first ≠ second := by
  rintro rfl
  rcases List.prefix_or_prefix_of_prefix below below' with covers | covers
  · exact apart.1 covers
  · exact apart.2 covers

end Join

end AxiomEncode.Theory
