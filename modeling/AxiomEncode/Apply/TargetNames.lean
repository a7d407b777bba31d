/-
# Apply.TargetNames -- what the name of a target tells

A sanctioned target ends in a known suffix, so no temporary file has its name; it
never lies in the transaction directory; and its path is read back from its text.
-/
import AxiomEncode.Apply.Rules

namespace AxiomEncode.Apply

open Theory Crash

set_option autoImplicit false

variable {suffix : Text}

theorem splitSuffix_append {name : Text} (split : (splitSuffix name).2 = suffix)
    (nonempty : suffix ≠ []) : ∃ stem, name = stem ++ suffix := by
  unfold splitSuffix at split
  dsimp only at split
  split_ifs at split with short
  · exact absurd split.symm nonempty
  · rw [Bool.or_eq_true, not_or, List.isEmpty_iff, List.isEmpty_iff] at short
    have parts := List.takeWhile_append_dropWhile (p := fun c => c != '.') (l := name.reverse)
    cases rest : name.reverse.dropWhile fun c => c != '.' with
    | nil =>
      -- without a dot the stem is empty
      rw [rest, List.append_nil] at parts
      rw [parts, List.reverse_reverse] at short
      exact absurd (by simp) short.1
    | cons c before =>
      have dot : c = '.' := by
        have := List.head?_dropWhile_not (fun c => c != '.') name.reverse
        rw [rest] at this
        simpa using this
      rw [rest, dot] at parts
      refine ⟨before.reverse, ?_⟩
      have whole := congrArg List.reverse parts
      rw [List.reverse_reverse, List.reverse_append, List.reverse_cons] at whole
      refine whole.symm.trans ?_
      rw [← split, List.append_assoc]
      rfl

/-- The name of a path with a suffix. -/
theorem getLast?_of_fileSuffix {path : Path} (here : fileSuffix path = suffix)
    (nonempty : suffix ≠ []) : ∃ stem, path.getLast? = some (stem ++ suffix) := by
  obtain ⟨stem, name⟩ := splitSuffix_append here nonempty
  unfold fileName at name
  cases last : path.getLast? with
  | none =>
    rw [last] at name
    have := congrArg List.length name
    have := List.length_pos_iff.mpr nonempty
    simp at *
    omega
  | some found =>
    rw [last] at name
    exact ⟨stem, congrArg some name⟩

/-- A path with one of the suffixes of a target is no temporary file. -/
theorem not_isTemporary_of_fileSuffix {path : Path} {suffix : Text}
    (here : fileSuffix path = suffix) (dot : '.' ∈ suffix) (short : suffix.length ≤ 8) :
    ¬ IsTemporary path := by
  obtain ⟨stem, name⟩ := getLast?_of_fileSuffix here (List.ne_nil_of_mem dot)
  exact not_isTemporary name short dot

section Targets

variable {host : Host} {checkout : Checkout} {path : Path}

/-- A module or manifest lies in a jurisdiction, never in a hidden directory. -/
theorem canonicalTail_spec (canonical : canonicalTail host checkout path suffix = true) :
    fileSuffix path = suffix ∧ ∃ jurisdiction rest, path = jurisdiction :: rest ∧
      isJurisdictionName
        (fun c => Corpus.isAsciiLower c || Corpus.isAsciiDigit c || c == '_') jurisdiction = true := by
  unfold canonicalTail at canonical
  split at canonical
  · simp only [Bool.and_eq_true, beq_iff_eq] at canonical
    exact ⟨canonical.1.1.1.1, _, _, rfl, canonical.1.1.1.2⟩
  · cases canonical

/-- What every sanctioned target is like. -/
theorem canonical_spec (canonical : isCanonicalApplyTransactionTarget host checkout path = true) :
    path ≠ [] ∧ ¬ IsTemporary path ∧ ¬ transactionDirectory <+: path := by
  unfold isCanonicalApplyTransactionTarget at canonical
  split at canonical
  · next module =>
      obtain ⟨suffix, jurisdiction, rest, rfl, name⟩ := canonicalTail_spec module
      refine ⟨List.cons_ne_nil _ _, not_isTemporary_of_fileSuffix suffix (by decide) (by decide), ?_⟩
      intro inside
      rw [← (List.cons_prefix_cons.mp inside).1] at name
      cases name
  split at canonical
  · next metadata =>
      have each : ∀ path ∈ metadataRewritePaths, path ≠ [] ∧ '.' ∈ fileSuffix path ∧
          (fileSuffix path).length ≤ 8 ∧ ¬ transactionDirectory <+: path := by decide
      obtain ⟨nonempty, dot, short, outside⟩ := each path (List.contains_iff_mem.mp metadata)
      exact ⟨nonempty, not_isTemporary_of_fileSuffix rfl dot short, outside⟩
  · split at canonical
    · next directory found =>
        have inside : directory <+: path := by
          simpa using List.find?_some found
        have listed := List.mem_of_find?_eq_some found
        obtain ⟨tail, rfl⟩ := inside
        rw [List.drop_left] at canonical
        unfold isReceiptTail at canonical
        split at canonical
        · next name =>
            rw [Bool.and_eq_true, beq_iff_eq] at canonical
            refine ⟨by simp, ?_, ?_⟩
            · refine @not_isTemporary_of_fileSuffix _ ".json".toList ?_ (by decide) (by decide)
              rw [← canonical.1]
              unfold fileSuffix fileName
              rw [List.getLast?_concat]
              rfl
            · have each : ∀ directory ∈ receiptDirectories, directory.length = 2 ∧
                  ¬ transactionDirectory <+: directory := by decide
              intro inside
              have prefix_ := List.prefix_of_prefix_length_le inside (List.prefix_append directory _)
              exact (each directory listed).2
                (prefix_ (by rw [(each directory listed).1]; decide))
        · cases canonical
    · split_ifs at canonical with inside
      rw [Bool.and_eq_true] at canonical
      obtain ⟨tail, rfl⟩ : manifestDirectory <+: path := by simpa using inside
      rw [List.drop_left] at canonical
      obtain ⟨suffix, jurisdiction, rest, rfl, name⟩ := canonicalTail_spec canonical.1
      refine ⟨by simp [manifestDirectory], ?_, by simp [transactionDirectory, manifestDirectory]⟩
      refine @not_isTemporary_of_fileSuffix _ ".json".toList ?_ (by decide) (by decide)
      rw [← suffix]
      unfold fileSuffix fileName
      rw [List.getLast?_append_of_ne_nil _ (List.cons_ne_nil _ _)]

end Targets

/-! ## Paths as texts -/

/-- Every part can stand between two slashes. -/
def Clean (path : Path) : Prop :=
  ∀ part ∈ path, part ≠ [] ∧ part ≠ ['.'] ∧ part ≠ ['.', '.'] ∧ '/' ∉ part

theorem Clean.of_isPrefix {path above : Path} (clean : Clean path) (inside : above <+: path) :
    Clean above :=
  fun part member => clean part (inside.subset member)

theorem pathParts_posix {path : Path} (clean : Clean path) : pathParts (posix path) = path := by
  unfold pathParts posix
  cases path with
  | nil => rfl
  | cons part rest =>
    rw [List.splitOn_intercalate '/' (fun part member => (clean part member).2.2.2)
      (List.cons_ne_nil _ _), List.filter_eq_self]
    intro part member
    obtain ⟨nonempty, dot, -⟩ := clean part member
    simp [nonempty, dot]

theorem clean_absoluteParts (text : Text) : Clean (absoluteParts text) := by
  have each : ∀ (parts : List Text) (done : Path), Clean done → (∀ part ∈ parts, '/' ∉ part) →
      Clean (parts.foldl (fun parts part =>
        if part.isEmpty || part == ['.'] then parts
        else if part == ['.', '.'] then parts.dropLast
        else parts ++ [part]) done) := by
    intro parts
    induction parts with
    | nil => exact fun done clean _ => clean
    | cons part parts ih =>
      intro done clean noSlash
      refine ih _ ?_ fun other member => noSlash other (List.mem_cons_of_mem _ member)
      dsimp only
      split_ifs with skip up
      · exact clean
      · exact clean.of_isPrefix (List.dropLast_prefix done)
      · intro other member
        rcases List.mem_append.mp member with earlier | here
        · exact clean other earlier
        · rw [List.mem_singleton.mp here]
          simp only [Bool.or_eq_true, List.isEmpty_iff, beq_iff_eq, not_or] at skip up
          exact ⟨skip.1, skip.2, up, noSlash part List.mem_cons_self⟩
  exact each _ [] (by simp [Clean]) fun part member => not_mem_of_mem_splitOn member

/-! ## Admitted targets -/

/-- The directory of the transaction directory is no target. -/
theorem not_canonical_axiomDirectory {host : Host} {checkout : Checkout} :
    isCanonicalApplyTransactionTarget host checkout axiomDirectory = false := rfl

/-- What every admitted list of targets is like. -/
structure Admissible (files : List (Path × Option Bytes)) : Prop where
  distinct : (files.map Prod.fst).Nodup
  clean : ∀ file ∈ files, Clean file.1
  sanctioned : ∀ file ∈ files,
    file.1 ≠ [] ∧ ¬ IsTemporary file.1 ∧ ¬ transactionDirectory <+: file.1
  inside : ∀ file ∈ files, file.1 ≠ axiomDirectory

theorem targetRelativePath_spec {host : Host} {checkout : Checkout} {target relative : Path}
    (read : targetRelativePath host target checkout = .ok relative) :
    target = host.root ++ relative ∧
      isCanonicalApplyTransactionTarget host checkout relative = true := by
  unfold targetRelativePath at read
  split_ifs at read with outside
  rw [Bool.not_eq_true, Bool.not_eq_false', List.isPrefixOf_iff_prefix] at outside
  obtain ⟨rest, rfl⟩ := outside
  dsimp only at read
  split_ifs at read with empty canonical
  rw [Bool.not_eq_true, Bool.not_eq_false'] at canonical
  cases read
  rw [List.drop_left] at canonical ⊢
  exact ⟨rfl, canonical⟩

theorem targetRelativePaths_spec {host : Host} {checkout : Checkout} {targets relative : List Path}
    (read : targets.mapM (fun target => targetRelativePath host target checkout) = .ok relative) :
    targets = relative.map (host.root ++ ·) ∧
      ∀ path ∈ relative, isCanonicalApplyTransactionTarget host checkout path = true := by
  induction targets generalizing relative with
  | nil =>
    cases Except.ok.inj (show Except.ok [] = Except.ok relative from read)
    exact ⟨rfl, fun _ absent => absurd absent List.not_mem_nil⟩
  | cons target targets ih =>
    obtain ⟨path, paths, head, tail, rfl⟩ := mapM_cons_eq_ok_iff.mp read
    obtain ⟨rfl, canonical⟩ := targetRelativePath_spec head
    obtain ⟨rfl, rest⟩ := ih tail
    exact ⟨rfl, List.forall_mem_cons.mpr ⟨canonical, rest⟩⟩

theorem admitTargets_spec {host : Host} {request : Request} {checkout : Checkout}
    {files : List (Path × Option Bytes)}
    (admitted : admitTargets host request checkout = .ok files) : Admissible files := by
  unfold admitTargets at admitted
  obtain ⟨_, -, admitted⟩ := bind_eq_ok_iff.mp admitted
  obtain ⟨_, -, admitted⟩ := bind_eq_ok_iff.mp admitted
  obtain ⟨_, distinct, admitted⟩ := bind_eq_ok_iff.mp admitted
  obtain ⟨relative, read, last⟩ := bind_eq_ok_iff.mp admitted
  cases last
  obtain ⟨targets, canonical⟩ := targetRelativePaths_spec read
  have same : (relative.zip (request.files.map Prod.snd)).map Prod.fst = relative := by
    refine List.map_fst_zip ?_
    have lengths := congrArg List.length targets
    rw [List.length_map, List.length_map] at lengths
    rw [List.length_map, lengths]
  have listed : ∀ file ∈ relative.zip (request.files.map Prod.snd), file.1 ∈ relative :=
    fun file member => (List.of_mem_zip member).1
  refine ⟨?_, fun file member => ?_, fun file member => canonical_spec (canonical _ (listed _ member)),
    fun file member here => ?_⟩
  · have nodup := of_decide_eq_true (require_eq_ok_iff.mp distinct)
    rw [targets] at nodup
    rw [same]
    exact nodup.of_map _
  · have asked : host.root ++ file.1 ∈ request.files.map fun file => absoluteParts file.1 :=
      targets ▸ List.mem_map_of_mem (listed _ member)
    obtain ⟨wanted, -, here⟩ := List.mem_map.mp asked
    have clean := clean_absoluteParts wanted.1
    rw [here] at clean
    exact fun part inside => clean part (List.mem_append_right _ inside)
  · have bad := canonical _ (listed _ member)
    rw [here, not_canonical_axiomDirectory] at bad
    cases bad

/-! ## Backup names -/

theorem ofDigitChars_replicate_zero (count : Nat) (digits : Text) :
    Nat.ofDigitChars 10 (List.replicate count '0' ++ digits) 0 = Nat.ofDigitChars 10 digits 0 := by
  induction count with
  | zero => rfl
  | succ count ih =>
    rw [List.replicate_succ, List.cons_append, Nat.ofDigitChars_cons]
    exact ih

theorem backupName_injective : Function.Injective backupName := by
  intro first second same
  have digits := List.append_cancel_right same
  have values := congrArg (fun digits => Nat.ofDigitChars 10 digits 0) digits
  simpa only [ofDigitChars_replicate_zero, Nat.ofDigitChars_ten_toDigits] using values

end AxiomEncode.Apply
