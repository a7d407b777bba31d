/-
# Apply.Steps -- what each step of the file system does to the tree

One lemma says what a step did when it went through, one when it does go through.
All of them speak of the tree as a function from paths to nodes, so that nothing
later depends on how a checkout lists its nodes.
-/
import AxiomEncode.Apply.Transaction
import Mathlib.Data.List.Infix
import Mathlib.Data.List.MinMax
import Mathlib.Logic.Function.Basic

namespace AxiomEncode.Apply

open Theory Crash

set_option autoImplicit false

/-- What lies at each path. -/
abbrev Tree := Path → Option Node

/-- The root, or a directory of the tree. -/
def Tree.IsDirectory (tree : Tree) (path : Path) : Prop :=
  path = [] ∨ ∃ mode, tree path = some (.directory mode)

namespace Checkout

variable {checkout after : Checkout} {path : Path}

theorem isDirectory_iff_tree : checkout.isDirectory path = true ↔ Tree.IsDirectory checkout.node path :=
  isDirectory_iff

variable {node : Node} {error : OsError}

theorem putOr_eq_ok_iff :
    checkout.putOr path node error = .ok after ↔
      ∃ fits : checkout.Fits path node, checkout.put path node fits = after := by
  unfold putOr
  split_ifs with fits
  · exact ⟨fun done => ⟨fits, Except.ok.inj done⟩, fun ⟨_, done⟩ => congrArg _ done⟩
  · exact ⟨nofun, fun ⟨here, _⟩ => absurd here fits⟩

theorem removeOr_eq_ok_iff :
    checkout.removeOr path error = .ok after ↔
      ∃ childless : checkout.hasChild path = false, checkout.remove path childless = after := by
  unfold removeOr
  split_ifs with childless
  · exact ⟨fun done => ⟨childless, Except.ok.inj done⟩, fun ⟨_, done⟩ => congrArg _ done⟩
  · exact ⟨nofun, fun ⟨here, _⟩ => absurd here childless⟩

theorem node_put_eq (fits : checkout.Fits path node) :
    (checkout.put path node fits).node = Function.update checkout.node path (some node) :=
  funext fun other => by rw [node_put, Function.update_apply]

theorem node_remove_eq (childless : checkout.hasChild path = false) :
    (checkout.remove path childless).node = Function.update checkout.node path none :=
  funext fun other => by rw [node_remove, Function.update_apply]

theorem isDirectory_of_prefix {other : Path} (directory : checkout.isDirectory path = true)
    (above : other <+: path) : checkout.isDirectory other = true := by
  induction path using List.reverseRecOn with
  | nil =>
    rw [List.prefix_nil.mp above]
    exact directory
  | append_singleton parents name ih =>
    rcases List.prefix_concat_iff.mp above with rfl | higher
    · exact directory
    · refine ih ?_ higher
      rcases isDirectory_iff.mp directory with empty | ⟨mode, here⟩
      · simp at empty
      · have := isDirectory_dropLast here
        rwa [List.dropLast_concat] at this

/-- Below directories no path leads through a file. -/
theorem throughFile_eq_false (parent : checkout.isDirectory path.dropLast = true) :
    checkout.throughFile path = false := by
  refine List.any_eq_false.mpr fun ancestor member => ?_
  have directory := isDirectory_of_prefix parent ((List.mem_inits _ _).mp member)
  rcases isDirectory_iff.mp directory with rfl | ⟨mode, here⟩
  · simp [node_nil]
  · simp [here, Node.isDirectory]

theorem lookup_of_node (found : checkout.node path = some node) :
    checkout.lookup path = .ok (some node) := by
  have nonempty : path ≠ [] := by
    rintro rfl
    rw [node_nil] at found
    cases found
  unfold lookup
  rw [throughFile_eq_false (isDirectory_dropLast found), found]
  simp [nonempty]

/-- What a lookup finds is there. -/
theorem node_of_lookup {found : Option Node} (nonempty : path ≠ [])
    (looked : checkout.lookup path = .ok found) : checkout.node path = found := by
  unfold lookup at looked
  split_ifs at looked with through empty
  · exact absurd (List.isEmpty_iff.mp empty) nonempty
  · exact Except.ok.inj looked

end Checkout

/-! ## What a step does -/

section Acts

variable {checkout after : Checkout} {choice : FileChoice} {res : FileRes} {path : Path}
variable {result : Except ApplyError Checkout} {mode : Nat} {raw old : Bytes}

theorem changing_eq_ok_iff :
    changing result = .ok (res, after) ↔ result = .ok after ∧ res = ⟨after, []⟩ := by
  unfold changing
  constructor
  · intro done
    obtain ⟨x, here, last⟩ := bind_eq_ok_iff.mp done
    cases last
    exact ⟨here, rfl⟩
  · rintro ⟨rfl, rfl⟩
    rfl

theorem exists_changing (done : result = .ok after) :
    ∃ res, changing result = .ok (res, after) :=
  ⟨_, changing_eq_ok_iff.mpr ⟨done, rfl⟩⟩

/-- A step that only looks. -/
def FileOp.Looks : FileOp → Prop
  | .inspect _ | .lock | .unlock => True
  | _ => False

theorem act_looks {op : FileOp} (looks : op.Looks) :
    fileAct op choice checkout = .ok (⟨checkout, []⟩, checkout) := by
  cases op <;> first | rfl | exact looks.elim

theorem act_fsyncDirectory : fileAct (.fsyncDirectory path) choice checkout =
    if checkout.isDirectory path then .ok (⟨checkout, []⟩, checkout)
    else .error (.os .fileNotFound path) := rfl

theorem act_fsyncDirectory_same
    (done : fileAct (.fsyncDirectory path) choice checkout = .ok (res, after)) :
    checkout = after := by
  rw [act_fsyncDirectory] at done
  split at done
  · exact (Prod.mk.inj (Except.ok.inj done)).2
  · cases done

theorem act_fsync : fileAct (.fsync path) choice checkout =
    if (checkout.node path).isSome then .ok (⟨checkout, []⟩, checkout)
    else .error (.os .fileNotFound path) := rfl

theorem act_mkdir (done : fileAct (.mkdir path mode) choice checkout = .ok (res, after)) :
    path ≠ [] ∧ checkout.node path = none ∧ checkout.isDirectory path.dropLast = true ∧
      after.node = Function.update checkout.node path (some (.directory mode)) := by
  have made := (changing_eq_ok_iff.mp done).1
  unfold Checkout.mkdir at made
  split_ifs at made with through taken
  obtain ⟨fits, rfl⟩ := Checkout.putOr_eq_ok_iff.mp made
  refine ⟨fits.1, ?_, fits.2.1, Checkout.node_put_eq fits⟩
  rw [Bool.or_eq_true, not_or] at taken
  exact Option.not_isSome_iff_eq_none.mp taken.1

theorem act_rewrite (done : changing (checkout.write path raw) = .ok (res, after)) :
    ∃ old mode, checkout.node path = some (.file old mode) ∧
      after.node = Function.update checkout.node path (some (.file raw mode)) := by
  have made := (changing_eq_ok_iff.mp done).1
  unfold Checkout.write at made
  split at made
  · next old mode here =>
      obtain ⟨fits, rfl⟩ := Checkout.putOr_eq_ok_iff.mp made
      exact ⟨old, mode, here, Checkout.node_put_eq fits⟩
  · cases made

/-- A file can be put over a file. -/
theorem fits_of_file {oldMode : Nat} (file : checkout.node path = some (.file old oldMode))
    (raw : Bytes) (mode : Nat) :
    checkout.Fits path (.file raw mode) := by
  refine ⟨(checkout.rooted path _ file).1, (checkout.rooted path _ file).2, fun directory => ?_⟩
  rcases Checkout.isDirectory_iff.mp directory with rfl | ⟨_, here⟩
  · exact absurd rfl (checkout.rooted _ _ file).1
  · rw [file] at here
    cases here

theorem exists_act_rewrite (file : checkout.node path = some (.file old mode)) :
    ∃ res after, changing (checkout.write path raw) = .ok (res, after) := by
  have made : checkout.write path raw = .ok (checkout.put path _ (fits_of_file file raw mode)) := by
    unfold Checkout.write Checkout.putOr
    rw [file]
    exact dif_pos _
  obtain ⟨res, done⟩ := exists_changing made
  exact ⟨res, _, done⟩

theorem act_chmod (done : fileAct (.chmod path mode) choice checkout = .ok (res, after)) :
    ∃ raw old, checkout.node path = some (.file raw old) ∧
      after.node = Function.update checkout.node path (some (.file raw mode)) := by
  have made := (changing_eq_ok_iff.mp done).1
  unfold Checkout.chmod at made
  split at made
  · next raw old here =>
      obtain ⟨fits, rfl⟩ := Checkout.putOr_eq_ok_iff.mp made
      exact ⟨raw, old, here, Checkout.node_put_eq fits⟩
  · cases made

theorem exists_act_chmod {old : Nat} (file : checkout.node path = some (.file raw old)) :
    ∃ res after, fileAct (.chmod path mode) choice checkout = .ok (res, after) := by
  have made : checkout.chmod path mode = .ok (checkout.put path _ (fits_of_file file raw mode)) := by
    unfold Checkout.chmod Checkout.putOr
    rw [file]
    exact dif_pos _
  obtain ⟨res, done⟩ := exists_changing made
  exact ⟨res, _, done⟩

theorem act_unlink (done : fileAct (.unlink path) choice checkout = .ok (res, after)) :
    ∃ raw mode, checkout.node path = some (.file raw mode) ∧
      after.node = Function.update checkout.node path none := by
  have made := (changing_eq_ok_iff.mp done).1
  unfold Checkout.unlink at made
  split_ifs at made
  split at made
  · next raw mode here =>
      obtain ⟨childless, rfl⟩ := Checkout.removeOr_eq_ok_iff.mp made
      exact ⟨raw, mode, here, Checkout.node_remove_eq childless⟩
  · cases made
  · cases made

theorem exists_act_unlink {raw : Bytes} {mode : Nat}
    (file : checkout.node path = some (.file raw mode)) :
    ∃ res after, fileAct (.unlink path) choice checkout = .ok (res, after) := by
  have childless := Checkout.file_childless file
  have made : checkout.unlink path = .ok (checkout.remove path childless) := by
    unfold Checkout.unlink Checkout.removeOr
    rw [Checkout.throughFile_eq_false (Checkout.isDirectory_dropLast file), file]
    exact dif_pos childless
  obtain ⟨res, done⟩ := exists_changing made
  exact ⟨res, _, done⟩

theorem act_unlink_missing (missing : checkout.node path = none)
    (parent : checkout.isDirectory path.dropLast = true) :
    fileAct (.unlink path) choice checkout = .error (.os .fileNotFound path) := by
  have made : checkout.unlink path = .error (.os .fileNotFound path) := by
    unfold Checkout.unlink
    rw [Checkout.throughFile_eq_false parent, missing]
    rfl
  show changing (checkout.unlink path) = _
  unfold changing
  rw [made]
  rfl

theorem act_replace {source target : Path} (apart : source ≠ target)
    (done : fileAct (.replace source target) choice checkout = .ok (res, after)) :
    ∃ raw mode, checkout.node source = some (.file raw mode) ∧
      checkout.isDirectory target = false ∧
      after.node = Function.update (Function.update checkout.node target (some (.file raw mode)))
        source none := by
  have made := (changing_eq_ok_iff.mp done).1
  unfold Checkout.replace at made
  split at made
  · next raw mode here =>
      split_ifs at made with directory
      obtain ⟨middle, put, removed⟩ := bind_eq_ok_iff.mp made
      obtain ⟨fits, rfl⟩ := Checkout.putOr_eq_ok_iff.mp put
      obtain ⟨childless, rfl⟩ := Checkout.removeOr_eq_ok_iff.mp removed
      refine ⟨raw, mode, here, by simpa using directory, ?_⟩
      rw [Checkout.node_remove_eq childless, Checkout.node_put_eq fits]
  · cases made

theorem exists_act_replace {source target : Path} {raw : Bytes} {mode : Nat} (apart : source ≠ target)
    (file : checkout.node source = some (.file raw mode)) (nonempty : target ≠ [])
    (parent : checkout.isDirectory target.dropLast = true)
    (free : checkout.isDirectory target = false) :
    ∃ res after, fileAct (.replace source target) choice checkout = .ok (res, after) := by
  have fits : checkout.Fits target (.file raw mode) :=
    ⟨nonempty, parent, fun directory => by rw [free] at directory; cases directory⟩
  have kept : (checkout.put target _ fits).node source = some (.file raw mode) := by
    rw [Checkout.node_put, if_neg apart, file]
  have childless := Checkout.file_childless kept
  have put : checkout.putOr target (.file raw mode) .fileNotFound =
      .ok (checkout.put target _ fits) := dif_pos fits
  have made : checkout.replace source target =
      .ok ((checkout.put target _ fits).remove source childless) := by
    unfold Checkout.replace
    rw [file]
    dsimp only
    rw [if_neg (by rw [free]; decide), if_neg apart, put]
    exact dif_pos childless
  obtain ⟨res, done⟩ := exists_changing made
  exact ⟨res, _, done⟩

theorem act_rmdir (done : fileAct (.rmdir path) choice checkout = .ok (res, after)) :
    (∃ mode, checkout.node path = some (.directory mode)) ∧
      after.node = Function.update checkout.node path none := by
  have made := (changing_eq_ok_iff.mp done).1
  unfold Checkout.rmdir at made
  split at made
  · next mode here =>
      obtain ⟨childless, rfl⟩ := Checkout.removeOr_eq_ok_iff.mp made
      exact ⟨⟨mode, here⟩, Checkout.node_remove_eq childless⟩
  · cases made
  · cases made

/-! ### Temporary files -/

/-- What `mkstemp` may append: long enough, and without a dot. -/
def IsTemporaryPart (part : Text) : Prop := 8 ≤ part.length ∧ '.' ∉ part

theorem isTemporaryPart_numberedPart (number : Nat) : IsTemporaryPart (numberedPart number) := by
  refine ⟨?_, fun dot => ?_⟩
  · by_contra short
    have small := (Nat.length_toDigits_le_iff (b := 10) (n := 10000000 + number) (k := 7) (by decide)
      (by decide)).mp (by unfold numberedPart at short; omega)
    omega
  · have digit := Nat.isDigit_of_mem_toDigits (by decide) (by decide) dot
    exact absurd digit (by decide)

theorem numberedPart_injective : Function.Injective numberedPart := by
  intro first second same
  have values := congrArg (fun digits => Nat.ofDigitChars 10 digits 0) same
  simp only [numberedPart, Nat.ofDigitChars_ten_toDigits] at values
  omega

theorem temporaryPart_spec {taken : Text → Bool} {attempts : Nat} {proposed part : Text}
    (found : temporaryPart taken attempts proposed = some part) :
    IsTemporaryPart part ∧ taken part = false := by
  unfold temporaryPart at found
  split_ifs at found with usable
  · obtain ⟨length, chars, free⟩ := usable
    cases found
    refine ⟨⟨length.ge, fun dot => ?_⟩, free⟩
    exact absurd (List.all_eq_true.mp chars _ dot) (by decide)
  · have free := List.find?_some found
    obtain ⟨number, -, rfl⟩ := List.mem_map.mp (List.mem_of_find?_eq_some found)
    exact ⟨isTemporaryPart_numberedPart number, by simpa using free⟩

theorem act_mkstemp {directory : Path} {stem : Text}
    (done : fileAct (.mkstemp directory stem) choice checkout = .ok (res, after)) :
    checkout.isDirectory directory = true ∧ ∃ part, IsTemporaryPart part ∧
      res.made = directory ++ [stem ++ part] ∧ checkout.node res.made = none ∧
      after.node = Function.update checkout.node res.made (some (.file [] 0o600)) := by
  obtain ⟨made, here, last⟩ := bind_eq_ok_iff.mp done
  cases last
  unfold Checkout.mkstemp at here
  split_ifs at here with directoryMissing
  dsimp only at here
  split at here
  · cases here
  · next part found =>
      obtain ⟨temporary, free⟩ := temporaryPart_spec found
      obtain ⟨middle, put, last⟩ := bind_eq_ok_iff.mp here
      cases last
      obtain ⟨fits, rfl⟩ := Checkout.putOr_eq_ok_iff.mp put
      refine ⟨by simpa using directoryMissing, part, temporary, rfl, ?_, Checkout.node_put_eq fits⟩
      simpa using free

/-- Some number is still free: there are more numbers than nodes. -/
theorem exists_act_mkstemp {directory : Path} (stem : Text)
    (parent : checkout.isDirectory directory = true) :
    ∃ res after, fileAct (.mkstemp directory stem) choice checkout = .ok (res, after) := by
  let taken := fun part => (checkout.node (directory ++ [stem ++ part])).isSome
  have some_ : ∃ part, temporaryPart taken (checkout.nodes.keys.length + 1) choice.name =
      some part := by
    unfold temporaryPart
    split_ifs
    · exact ⟨_, rfl⟩
    · by_contra none_
      have all := List.find?_eq_none.mp (Option.eq_none_iff_forall_ne_some.mpr fun part found =>
        none_ ⟨part, found⟩)
      let paths := (List.range (checkout.nodes.keys.length + 1)).map fun number =>
        directory ++ [stem ++ numberedPart number]
      have distinct : paths.Nodup := by
        refine List.Nodup.map ?_ List.nodup_range
        intro first second same
        have names := List.cons.inj (List.append_cancel_left same)
        exact numberedPart_injective (List.append_cancel_left names.1)
      have subset : paths ⊆ checkout.nodes.keys := by
        intro path member
        obtain ⟨number, listed, rfl⟩ := List.mem_map.mp member
        have occupied : taken (numberedPart number) = true := by
          simpa using all _ (List.mem_map_of_mem listed)
        exact Checkout.mem_keys_iff.mpr (Option.isSome_iff_exists.mp occupied)
      have := (List.subperm_of_subset distinct subset).length_le
      rw [List.length_map, List.length_range] at this
      omega
  obtain ⟨part, found⟩ := some_
  have free := (temporaryPart_spec found).2
  have missing : checkout.node (directory ++ [stem ++ part]) = none := by
    simpa [taken] using free
  have fits : checkout.Fits (directory ++ [stem ++ part]) (.file [] 0o600) := by
    refine ⟨by simp, by rwa [List.dropLast_concat], fun directory => ?_⟩
    rcases Checkout.isDirectory_iff.mp directory with empty | ⟨_, here⟩
    · simp at empty
    · rw [missing] at here
      cases here
  have put : checkout.putOr (directory ++ [stem ++ part]) (.file [] 0o600) .fileNotFound =
      .ok (checkout.put _ _ fits) := dif_pos fits
  have made : checkout.mkstemp directory stem choice.name =
      .ok (directory ++ [stem ++ part], checkout.put _ _ fits) := by
    unfold Checkout.mkstemp
    rw [parent]
    simp only [Bool.not_true, Bool.false_eq_true, if_false]
    rw [show temporaryPart _ _ _ = some part from found]
    dsimp only
    rw [put]
    rfl
  refine ⟨⟨checkout.put _ _ fits, directory ++ [stem ++ part]⟩, checkout.put _ _ fits, ?_⟩
  show (checkout.mkstemp directory stem choice.name >>= _) = _
  rw [made]
  rfl

/-! ### Recursive removal -/

theorem act_removeBelow (done : fileAct (.removeBelow path) choice checkout = .ok (res, after)) :
    ∃ leaf, path <+: leaf ∧ checkout.node leaf ≠ none ∧
      after.node = Function.update checkout.node leaf none ∧
      (checkout.below path).length = (after.below path).length + 1 := by
  have made := (changing_eq_ok_iff.mp done).1
  unfold Checkout.removeBelow at made
  dsimp only at made
  split at made
  · next leaf chosen =>
      obtain ⟨childless, rfl⟩ := Checkout.removeOr_eq_ok_iff.mp made
      have listed := List.mem_filter.mp (List.mem_of_getElem? chosen)
      have below := List.mem_filter.mp listed.1
      refine ⟨leaf, List.isPrefixOf_iff_prefix.mp below.2, ?_, Checkout.node_remove_eq childless, ?_⟩
      · obtain ⟨node, found⟩ := Checkout.mem_keys_iff.mp below.1
        rw [found]
        exact Option.some_ne_none node
      · have perm := (Checkout.keys_perm_remove childless below.1).filter
          fun other => path.isPrefixOf other
        rw [List.filter_cons_of_pos below.2] at perm
        exact perm.length_eq
  · cases made

/-- While something is left below a path, something can be removed. -/
theorem exists_act_removeBelow (left : checkout.below path ≠ []) :
    ∃ res after, fileAct (.removeBelow path) choice checkout = .ok (res, after) := by
  -- the deepest node has nothing in it
  have leaf : ∃ leaf ∈ checkout.below path, checkout.hasChild leaf = false := by
    cases deepest : (checkout.below path).argmax List.length with
    | none => exact absurd (List.argmax_eq_none.mp deepest) left
    | some leaf =>
      refine ⟨leaf, List.argmax_mem deepest, List.any_eq_false.mpr fun child member => ?_⟩
      intro inside
      have above : child.dropLast = leaf := of_decide_eq_true inside
      obtain ⟨node, found⟩ := Checkout.mem_keys_iff.mp member
      have nonempty : child ≠ [] := (checkout.rooted child node found).1
      have leafBelow := (List.mem_filter.mp (List.argmax_mem deepest)).2
      have childBelow : child ∈ checkout.below path := by
        refine List.mem_filter.mpr ⟨member, List.isPrefixOf_iff_prefix.mpr ?_⟩
        refine (List.isPrefixOf_iff_prefix.mp leafBelow).trans ?_
        rw [← above]
        exact List.dropLast_prefix child
      have := List.le_of_mem_argmax childBelow deepest
      rw [← above, List.length_dropLast] at this
      have := List.length_pos_iff.mpr nonempty
      omega
  obtain ⟨leaf, listed, childless⟩ := leaf
  have removable : checkout.removable path ≠ [] :=
    List.ne_nil_of_mem (List.mem_filter.mpr ⟨listed, by rw [childless]; rfl⟩)
  have inside : choice.number % (checkout.removable path).length <
      (checkout.removable path).length :=
    Nat.mod_lt _ (List.length_pos_iff.mpr removable)
  let chosen := (checkout.removable path)[choice.number % (checkout.removable path).length]
  have chosenChildless : checkout.hasChild chosen = false := by
    have := (List.mem_filter.mp (List.getElem_mem inside)).2
    simpa using this
  have made : checkout.removeBelow path choice.number =
      .ok (checkout.remove chosen chosenChildless) := by
    unfold Checkout.removeBelow
    dsimp only
    rw [List.getElem?_eq_getElem inside]
    exact dif_pos chosenChildless
  obtain ⟨res, done⟩ := exists_changing made
  exact ⟨res, _, done⟩

theorem below_eq_nil (empty : checkout.below path = []) : checkout.node path = none := by
  by_contra found
  have member : path ∈ checkout.below path := by
    refine List.mem_filter.mpr ⟨Checkout.mem_keys_iff.mpr (Option.ne_none_iff_exists'.mp found), ?_⟩
    exact List.isPrefixOf_iff_prefix.mpr List.prefix_rfl
  rw [empty] at member
  cases member

end Acts

end AxiomEncode.Apply
