/-
# Cascade.ResolveSpec -- when the rounds of a cascade come to an end

`Scanned` is what the scan of the importers guarantees of the candidates.  Under it a
round is a total function of the files (`cascadeRound_eq_ok_iff`), and one in the sense
of `Theory.Rounds`: an importer is made from its original text and the files it imports.
`resolveBaseBoundCascade_spec`: the rounds end when no importer imports itself, directly
or not, and the files they end with are the only ones in which every candidate is the
hash of its target.  If they end although there is a cycle, then the files of the cycle
hold each other's hashes.
-/
import AxiomEncode.Cascade.Resolve
import AxiomEncode.Theory.Rounds
import AxiomEncode.Theory.Splice

namespace AxiomEncode.Cascade

open Theory
open Theory.Rounds
open Relation

set_option autoImplicit false

/-! ## Scalars -/

/-- A style in which a hash can be written. -/
def Renderable (style : Option Char) : Prop :=
  style = none ∨ style = some '\'' ∨ style = some '"'

/-- The scalar, for a style in which it can be written. -/
def rendered (value : Text) (style : Option Char) : Text :=
  match renderScalar value style with
  | .ok text => text
  | .error _ => []

theorem renderScalar_eq_ok_iff {value text : Text} {style : Option Char} :
    renderScalar value style = .ok text ↔ Renderable style ∧ text = rendered value style := by
  unfold Renderable rendered renderScalar
  split
  · simp [eq_comm]
  · simp [eq_comm]
  · simp [eq_comm]
  · next style notSingle notDouble =>
      refine iff_of_false nofun ?_
      rintro ⟨none_ | single | double, -⟩
      · cases none_
      · exact notSingle (Option.some.inj single)
      · exact notDouble (Option.some.inj double)

section

variable (sha256 : Bytes → Text) (moduleBytes : Files) (candidates : List ProofImportScan)
  (currentTargetBytes : Files)

/-! ## What the scan guarantees -/

/-- The text of a module. -/
def originalText (path : Text) : Option Text := (moduleBytes path).bind decodeUtf8

/-- The importers of the candidates are texts in which the scalars have places of their
own, and their targets are there. -/
structure Scanned : Prop where
  importer : ∀ scan ∈ candidates, ∃ text, originalText moduleBytes scan.importerPath = some text ∧
    scan.startIndex < scan.endIndex ∧ scan.endIndex ≤ text.length
  apart : candidates.Pairwise fun scan other => scan.importerPath = other.importerPath →
    scan.endIndex ≤ other.startIndex ∨ other.endIndex ≤ scan.startIndex
  target : ∀ scan ∈ candidates,
    ((moduleBytes scan.targetPath).or (currentTargetBytes scan.targetPath)).isSome

/-- An importer has a candidate for a file. -/
def Imports (importer target : Text) : Prop :=
  ∃ scan ∈ candidates, scan.importerPath = importer ∧ scan.targetPath = target

/-! ## What the files have to be -/

/-- The hash of a file, among these files. -/
def fileHash (virtual : Files) (path : Text) : Text :=
  hashOf sha256 (((virtual path).or (currentTargetBytes path)).getD [])

/-- The scalar of a scan, with the hash its target has among these files. -/
def ProofImportScan.splice (virtual : Files) (scan : ProofImportScan) : Splice Char where
  start := scan.startIndex
  stop := scan.endIndex
  inserted := rendered (fileHash sha256 currentTargetBytes virtual scan.targetPath) scan.scalarStyle

/-- The text of an importer, with the hashes its targets have among these files. -/
def rewrittenText (virtual : Files) (path original : Text) : Text :=
  assemble original 0 ((scansOf candidates path).reverse.map
    (ProofImportScan.splice sha256 currentTargetBytes virtual))

/-- In these files every candidate is the hash of its target, and nothing else is new. -/
structure Consistent (resolved : Files) : Prop where
  others : ∀ path ∉ importersOf candidates, resolved path = moduleBytes path
  importers : ∀ path ∈ importersOf candidates, resolved path =
    (originalText moduleBytes path).map fun original =>
      utf8 (rewrittenText sha256 candidates currentTargetBytes resolved path original)

/-- The file of an importer holds the hash of the file of its target. -/
def HoldsHash (resolved : Files) (importer target : Text) : Prop :=
  ∃ scan ∈ candidates, scan.importerPath = importer ∧ scan.targetPath = target ∧
    ∃ text, resolved importer = some (utf8 text) ∧
      rendered (fileHash sha256 currentTargetBytes resolved target) scan.scalarStyle <:+: text

/-- A round, where nothing fails. -/
def roundOf (virtual : Files) : Files := fun path =>
  if path ∈ importersOf candidates then
    (originalText moduleBytes path).map fun original =>
      utf8 (rewrittenText sha256 candidates currentTargetBytes virtual path original)
  else virtual path

end

/-! ## Scans of an importer -/

section

variable {sha256 : Bytes → Text} {moduleBytes currentTargetBytes virtual updated resolved : Files}
  {candidates : List ProofImportScan} {path original : Text} {scan : ProofImportScan}

theorem mem_importersOf :
    path ∈ importersOf candidates ↔ ∃ scan ∈ candidates, scan.importerPath = path := by
  unfold importersOf
  rw [(List.perm_insertionSort _ _).mem_iff, List.mem_dedup, List.mem_map]

theorem nodup_importersOf (candidates : List ProofImportScan) : (importersOf candidates).Nodup :=
  (List.perm_insertionSort _ _).nodup_iff.mpr (List.nodup_dedup _)

theorem mem_scansOf : scan ∈ scansOf candidates path ↔ scan ∈ candidates ∧ scan.importerPath = path := by
  unfold scansOf
  rw [(List.perm_insertionSort _ _).mem_iff, List.mem_filter, decide_eq_true_iff]

/-- Scans with places of their own, by their places, stand one after the other. -/
theorem inOrder_of_sorted {scans : List ProofImportScan} {length : Nat} {offset : Nat}
    (splice : ProofImportScan → Splice Char) (start : ∀ scan, (splice scan).start = scan.startIndex)
    (stop : ∀ scan, (splice scan).stop = scan.endIndex) (inside : offset ≤ length)
    (places : ∀ scan ∈ scans, offset ≤ scan.startIndex ∧ scan.startIndex < scan.endIndex ∧
      scan.endIndex ≤ length)
    (sorted : scans.Pairwise fun a b => a.endIndex ≤ b.startIndex) :
    InOrder length offset (scans.map splice) := by
  induction scans generalizing offset with
  | nil => exact .nil inside
  | cons scan scans ih =>
    obtain ⟨after, forward, within⟩ := places scan List.mem_cons_self
    obtain ⟨first, rest⟩ := List.pairwise_cons.mp sorted
    refine .cons (by rw [start]; exact after) (by rw [start, stop]; omega) ?_
    rw [stop]
    refine ih within (fun other later => ?_) rest
    obtain ⟨-, place⟩ := places other (List.mem_cons_of_mem _ later)
    exact ⟨first other later, place⟩

/-- The places of the scans of an importer, from the first on. -/
theorem Scanned.pairwise (scanned : Scanned moduleBytes candidates currentTargetBytes)
    (path : Text) :
    (scansOf candidates path).reverse.Pairwise fun a b => a.endIndex ≤ b.startIndex := by
  have sorted : (scansOf candidates path).Pairwise fun a b => b.startIndex ≤ a.startIndex :=
    List.pairwise_insertionSort (fun a b : ProofImportScan => b.startIndex ≤ a.startIndex) _
  have apart : (scansOf candidates path).Pairwise fun a b => a.importerPath = b.importerPath →
      a.endIndex ≤ b.startIndex ∨ b.endIndex ≤ a.startIndex :=
    (List.perm_insertionSort _ _).symm.pairwise (scanned.apart.filter _)
      fun apart same => (apart same.symm).symm
  rw [List.pairwise_reverse]
  refine (sorted.and apart).imp_of_mem fun {a b} memberA memberB ⟨later, apart⟩ => ?_
  obtain ⟨listedA, ofA⟩ := mem_scansOf.mp memberA
  obtain ⟨listedB, ofB⟩ := mem_scansOf.mp memberB
  obtain ⟨-, -, forward, -⟩ := scanned.importer a listedA
  obtain ⟨-, -, forwardB, -⟩ := scanned.importer b listedB
  have places := apart (ofA.trans ofB.symm)
  omega

theorem Scanned.inOrder (sha256 : Bytes → Text)
    (scanned : Scanned moduleBytes candidates currentTargetBytes)
    (text : originalText moduleBytes path = some original) (virtual : Files) :
    InOrder original.length 0 ((scansOf candidates path).reverse.map
      (ProofImportScan.splice sha256 currentTargetBytes virtual)) := by
  refine inOrder_of_sorted _ (fun _ => rfl) (fun _ => rfl) (Nat.zero_le _) (fun scan member => ?_)
    (scanned.pairwise path)
  obtain ⟨listed, ofPath⟩ := mem_scansOf.mp (List.mem_reverse.mp member)
  obtain ⟨found, here, forward, inside⟩ := scanned.importer scan listed
  rw [ofPath, text] at here
  exact ⟨Nat.zero_le _, forward, Option.some.inj here ▸ inside⟩

/-! ## A round -/

/-- The targets of the candidates are there. -/
def Available (candidates : List ProofImportScan) (currentTargetBytes virtual : Files) : Prop :=
  ∀ scan ∈ candidates, ((virtual scan.targetPath).or (currentTargetBytes scan.targetPath)).isSome

theorem targetHash_eq_ok (there : ((virtual path).or (currentTargetBytes path)).isSome) :
    targetHashForVirtualFiles sha256 currentTargetBytes path virtual =
      .ok (fileHash sha256 currentTargetBytes virtual path) := by
  obtain ⟨content, found⟩ := Option.isSome_iff_exists.mp there
  unfold targetHashForVirtualFiles fileHash
  rw [found]
  rfl

theorem rewriteImporter_eq_ok_iff (scanned : Scanned moduleBytes candidates currentTargetBytes)
    (available : Available candidates currentTargetBytes virtual)
    (text : originalText moduleBytes path = some original) {raw : Bytes} :
    rewriteImporter sha256 moduleBytes candidates currentTargetBytes virtual path = .ok raw ↔
      (∀ scan ∈ scansOf candidates path, Renderable scan.scalarStyle) ∧
        raw = utf8 (rewrittenText sha256 candidates currentTargetBytes virtual path original) := by
  have turn : ∀ scan ∈ scansOf candidates path, ∀ text after : Text,
      replaceScan sha256 currentTargetBytes virtual text scan = .ok after ↔
        Renderable scan.scalarStyle ∧
          after = (scan.splice sha256 currentTargetBytes virtual).apply text := by
    intro scan member text after
    have there := available scan (mem_scansOf.mp member).1
    simp only [replaceScan, targetHash_eq_ok there, bind_eq_ok_iff, renderScalar_eq_ok_iff,
      Except.ok.injEq, exists_eq_left', and_assoc, pure, Except.pure]
    constructor
    · rintro ⟨rendered_, style, rfl, rfl⟩
      exact ⟨style, rfl⟩
    · rintro ⟨style, rfl⟩
      exact ⟨_, style, rfl, rfl⟩
  have folded : (scansOf candidates path).foldl
      (fun text scan => (scan.splice sha256 currentTargetBytes virtual).apply text) original =
        rewrittenText sha256 candidates currentTargetBytes virtual path original := by
    have whole := foldr_apply (scanned.inOrder sha256 text virtual)
    rw [List.take_zero, List.nil_append, List.foldr_map, List.foldr_reverse] at whole
    exact whole
  obtain ⟨bytes, present, decoded⟩ := Option.bind_eq_some_iff.mp text
  unfold rewriteImporter
  rw [present]
  dsimp only
  rw [decoded]
  dsimp only
  simp only [bind_eq_ok_iff, foldlM_eq_ok_iff turn, folded]
  constructor
  · rintro ⟨after, ⟨styles, rfl⟩, done⟩
    exact ⟨styles, (Except.ok.inj done).symm⟩
  · rintro ⟨styles, rfl⟩
    exact ⟨_, ⟨styles, rfl⟩, rfl⟩

theorem Scanned.originalText_of_mem (scanned : Scanned moduleBytes candidates currentTargetBytes)
    (member : path ∈ importersOf candidates) :
    ∃ original, originalText moduleBytes path = some original := by
  obtain ⟨scan, listed, rfl⟩ := mem_importersOf.mp member
  obtain ⟨text, here, -⟩ := scanned.importer scan listed
  exact ⟨text, here⟩

theorem roundOf_of_mem (member : path ∈ importersOf candidates)
    (text : originalText moduleBytes path = some original) (virtual : Files) :
    roundOf sha256 moduleBytes candidates currentTargetBytes virtual path =
      some (utf8 (rewrittenText sha256 candidates currentTargetBytes virtual path original)) := by
  rw [roundOf, if_pos member, text]
  rfl

theorem roundOf_of_not_mem (absent : path ∉ importersOf candidates) (virtual : Files) :
    roundOf sha256 moduleBytes candidates currentTargetBytes virtual path = virtual path :=
  if_neg absent

theorem foldl_update_apply (paths : List Text) (new : Files) (virtual : Files) (path : Text) :
    paths.foldl (fun updated path => Function.update updated path (new path)) virtual path =
      if path ∈ paths then new path else virtual path := by
  induction paths generalizing virtual with
  | nil => rfl
  | cons first paths ih =>
    rw [List.foldl_cons, ih]
    by_cases same : path = first
    · subst same
      simp
    · simp [same]

/-- **A round** is made if every candidate can be written. -/
theorem cascadeRound_eq_ok_iff (scanned : Scanned moduleBytes candidates currentTargetBytes)
    (available : Available candidates currentTargetBytes virtual) :
    cascadeRound sha256 moduleBytes candidates currentTargetBytes virtual = .ok updated ↔
      (∀ scan ∈ candidates, Renderable scan.scalarStyle) ∧
        updated = roundOf sha256 moduleBytes candidates currentTargetBytes virtual := by
  have turn : ∀ path ∈ importersOf candidates, ∀ files after : Files,
      (do
        let raw ← rewriteImporter sha256 moduleBytes candidates currentTargetBytes virtual path
        pure (Function.update files path (some raw)) : Except CascadeError Files) = .ok after ↔
      (∀ scan ∈ scansOf candidates path, Renderable scan.scalarStyle) ∧
        after = Function.update files path
          (roundOf sha256 moduleBytes candidates currentTargetBytes virtual path) := by
    intro path member files after
    obtain ⟨original, text⟩ := scanned.originalText_of_mem member
    rw [roundOf_of_mem member text]
    simp only [bind_eq_ok_iff, rewriteImporter_eq_ok_iff scanned available text]
    constructor
    · rintro ⟨raw, ⟨styles, rfl⟩, done⟩
      exact ⟨styles, (Except.ok.inj done).symm⟩
    · rintro ⟨styles, rfl⟩
      exact ⟨_, ⟨styles, rfl⟩, rfl⟩
  have whole : (importersOf candidates).foldl (fun files path => Function.update files path
      (roundOf sha256 moduleBytes candidates currentTargetBytes virtual path)) virtual =
        roundOf sha256 moduleBytes candidates currentTargetBytes virtual := by
    funext path
    rw [foldl_update_apply]
    split
    · rfl
    · next absent => exact (roundOf_of_not_mem absent virtual).symm
  unfold cascadeRound
  rw [foldlM_eq_ok_iff turn, whole]
  refine and_congr_left fun _ => ⟨fun each scan listed => ?_, fun each path _ scan member => ?_⟩
  · exact each _ (mem_importersOf.mpr ⟨scan, listed, rfl⟩) scan (mem_scansOf.mpr ⟨listed, rfl⟩)
  · exact each scan (mem_scansOf.mp member).1

theorem Available.roundOf (scanned : Scanned moduleBytes candidates currentTargetBytes)
    (available : Available candidates currentTargetBytes virtual) :
    Available candidates currentTargetBytes
      (roundOf sha256 moduleBytes candidates currentTargetBytes virtual) := by
  intro scan listed
  by_cases member : scan.targetPath ∈ importersOf candidates
  · obtain ⟨original, text⟩ := scanned.originalText_of_mem member
    rw [roundOf_of_mem member text]
    rfl
  · rw [roundOf_of_not_mem member]
    exact available scan listed

/-- **A round makes an importer from the files it imports.** -/
theorem isRound_roundOf (sha256 : Bytes → Text)
    (scanned : Scanned moduleBytes candidates currentTargetBytes) :
    IsRound (importersOf candidates).toFinset (Imports candidates)
      (roundOf sha256 moduleBytes candidates currentTargetBytes) where
  outside virtual path absent :=
    roundOf_of_not_mem (fun member => absent (List.mem_toFinset.mpr member)) virtual
  reads virtual others outside path member below := by
    obtain ⟨original, text⟩ := scanned.originalText_of_mem (List.mem_toFinset.mp member)
    rw [roundOf_of_mem (List.mem_toFinset.mp member) text,
      roundOf_of_mem (List.mem_toFinset.mp member) text]
    unfold rewrittenText
    congr 3
    refine List.map_congr_left fun scan inside => ?_
    obtain ⟨listed, ofPath⟩ := mem_scansOf.mp (List.mem_reverse.mp inside)
    have same : virtual scan.targetPath = others scan.targetPath := by
      by_cases importer : scan.targetPath ∈ (importersOf candidates).toFinset
      · exact below _ importer ⟨scan, listed, ofPath, rfl⟩
      · exact outside _ importer
    unfold ProofImportScan.splice fileHash
    rw [same]

/-! ## The rounds -/

/-- The rounds end with files that a round leaves as they are. -/
theorem resolveRounds_eq_ok (scanned : Scanned moduleBytes candidates currentTargetBytes)
    {limit : Nat} (available : Available candidates currentTargetBytes virtual)
    (resolves : resolveRounds sha256 moduleBytes candidates currentTargetBytes limit virtual =
      .ok resolved) :
    (∀ scan ∈ candidates, Renderable scan.scalarStyle) ∧
      roundOf sha256 moduleBytes candidates currentTargetBytes resolved = resolved ∧
        ∀ path ∉ importersOf candidates, resolved path = virtual path := by
  induction limit generalizing virtual with
  | zero => cases resolves
  | succ limit ih =>
    rw [resolveRounds] at resolves
    obtain ⟨updated, made, resolves⟩ := bind_eq_ok_iff.mp resolves
    obtain ⟨styles, rfl⟩ := (cascadeRound_eq_ok_iff scanned available).mp made
    split at resolves
    · next unchanged =>
        have settled : roundOf sha256 moduleBytes candidates currentTargetBytes virtual =
            virtual := by
          funext path
          by_cases member : path ∈ importersOf candidates
          · exact decide_eq_true_iff.mp (List.all_eq_true.mp unchanged path member)
          · exact roundOf_of_not_mem member virtual
        cases resolves
        rw [settled]
        exact ⟨styles, settled, fun _ _ => rfl⟩
    · obtain ⟨-, settled, others⟩ := ih (available.roundOf scanned) resolves
      refine ⟨styles, settled, fun path absent => ?_⟩
      rw [others path absent, roundOf_of_not_mem absent]

/-- The rounds end if they settle early enough. -/
theorem exists_resolveRounds (scanned : Scanned moduleBytes candidates currentTargetBytes)
    (styles : ∀ scan ∈ candidates, Renderable scan.scalarStyle) {limit count : Nat}
    (available : Available candidates currentTargetBytes virtual) (early : count < limit)
    (settled : roundOf sha256 moduleBytes candidates currentTargetBytes
      ((roundOf sha256 moduleBytes candidates currentTargetBytes)^[count] virtual) =
        (roundOf sha256 moduleBytes candidates currentTargetBytes)^[count] virtual) :
    ∃ resolved, resolveRounds sha256 moduleBytes candidates currentTargetBytes limit virtual =
      .ok resolved := by
  induction limit generalizing virtual count with
  | zero => cases early
  | succ limit ih =>
    rw [resolveRounds, (cascadeRound_eq_ok_iff scanned available).mpr ⟨styles, rfl⟩]
    simp only [bind, Except.bind]
    split
    · exact ⟨_, rfl⟩
    · next changed =>
        cases count with
        | zero =>
          refine absurd (List.all_eq_true.mpr fun path _ => ?_) changed
          exact decide_eq_true_iff.mpr (congrFun settled path)
        | succ count => exact ih (available.roundOf scanned) (by omega) settled

/-- What a round leaves as it is, is consistent. -/
theorem consistent_iff :
    Consistent sha256 moduleBytes candidates currentTargetBytes resolved ↔
      roundOf sha256 moduleBytes candidates currentTargetBytes resolved = resolved ∧
        ∀ path ∉ importersOf candidates, resolved path = moduleBytes path := by
  constructor
  · intro consistent
    refine ⟨funext fun path => ?_, consistent.others⟩
    by_cases member : path ∈ importersOf candidates
    · rw [roundOf, if_pos member, ← consistent.importers path member]
    · exact roundOf_of_not_mem member resolved
  · rintro ⟨settled, others⟩
    refine ⟨others, fun path member => ?_⟩
    conv_lhs => rw [← settled, roundOf, if_pos member]

/-- Consistent files hold the hashes of their targets. -/
theorem Consistent.holdsHash (scanned : Scanned moduleBytes candidates currentTargetBytes)
    (consistent : Consistent sha256 moduleBytes candidates currentTargetBytes resolved)
    {importer target : Text} (imports : Imports candidates importer target) :
    HoldsHash sha256 candidates currentTargetBytes resolved importer target := by
  obtain ⟨scan, listed, rfl, rfl⟩ := imports
  have member := mem_importersOf.mpr ⟨scan, listed, rfl⟩
  obtain ⟨original, text⟩ := scanned.originalText_of_mem member
  have here := consistent.importers _ member
  rw [text] at here
  refine ⟨scan, listed, rfl, rfl, _, here, ?_⟩
  have inside : scan.splice sha256 currentTargetBytes resolved ∈
      (scansOf candidates scan.importerPath).reverse.map
        (ProofImportScan.splice sha256 currentTargetBytes resolved) :=
    List.mem_map_of_mem (List.mem_reverse.mpr (mem_scansOf.mpr ⟨listed, rfl⟩))
  exact inserted_infix inside 0

end

section

variable (sha256 : Bytes → Text) (moduleBytes : Files) (candidates : List ProofImportScan)
  (currentTargetBytes : Files)

/-- Without a cycle the rounds end. -/
theorem exists_resolveBaseBoundCascade
    (scanned : Scanned moduleBytes candidates currentTargetBytes)
    (styles : ∀ scan ∈ candidates, Renderable scan.scalarStyle) (acyclic : Acyclic (Imports candidates)) :
    ∃ resolved, resolveBaseBoundCascade sha256 moduleBytes candidates currentTargetBytes =
      .ok resolved := by
  have settled := (isRound_roundOf sha256 scanned).iterate_settled acyclic moduleBytes
  rw [List.toFinset_card_of_nodup (nodup_importersOf candidates)] at settled
  exact exists_resolveRounds scanned styles scanned.target (by omega) settled

/-- **The rounds of a cascade.**  They end if every candidate can be written and no
importer imports itself, directly or not.  What they end with is consistent, without a
cycle the only consistent files, and with one a cycle of files that hold each other's
hashes. -/
theorem resolveBaseBoundCascade_spec (scanned : Scanned moduleBytes candidates currentTargetBytes) :
    ((∀ scan ∈ candidates, Renderable scan.scalarStyle) → Acyclic (Imports candidates) →
      ∃ resolved, resolveBaseBoundCascade sha256 moduleBytes candidates currentTargetBytes =
        .ok resolved) ∧
    ∀ resolved, resolveBaseBoundCascade sha256 moduleBytes candidates currentTargetBytes =
        .ok resolved →
      (∀ scan ∈ candidates, Renderable scan.scalarStyle) ∧
        Consistent sha256 moduleBytes candidates currentTargetBytes resolved ∧
        (Acyclic (Imports candidates) →
          ∀ other, Consistent sha256 moduleBytes candidates currentTargetBytes other →
            other = resolved) ∧
        (¬ Acyclic (Imports candidates) → ∃ path,
          TransGen (HoldsHash sha256 candidates currentTargetBytes resolved) path path) := by
  have isRound := isRound_roundOf sha256 scanned
  refine ⟨exists_resolveBaseBoundCascade sha256 moduleBytes candidates currentTargetBytes scanned,
    fun resolved resolves => ?_⟩
  · obtain ⟨styles, settled, others⟩ := resolveRounds_eq_ok scanned scanned.target resolves
    have consistent := consistent_iff.mpr ⟨settled, others⟩
    refine ⟨styles, consistent, fun acyclic other consistent' => ?_, fun cyclic => ?_⟩
    · obtain ⟨settled', others'⟩ := consistent_iff.mp consistent'
      refine isRound.settled_unique acyclic settled' settled fun path absent => ?_
      have notImporter : path ∉ importersOf candidates := fun member =>
        absent (List.mem_toFinset.mpr member)
      rw [others path notImporter, others' path notImporter]
    · obtain ⟨path, cycle⟩ := not_forall.mp cyclic
      exact ⟨path, TransGen.mono (fun _ _ imports => consistent.holdsHash scanned imports) _ _
        (not_not.mp cycle)⟩

end

/-! ## Three files, each with the hash of the next -/

def chainModules : Files := fun path =>
  if path = ['a'] ∨ path = ['b'] then some (utf8 "old".toList) else none

def chainTargets : Files := fun path => if path = ['c'] then some [99] else none

def chainScan (importer target : Text) : ProofImportScan :=
  ⟨importer, target, target, 1, "old".toList, "old".toList, "new".toList, 0, 3, none⟩

def chainScans : List ProofImportScan := [chainScan ['a'] ['b'], chainScan ['b'] ['c']]

def chainDigest (raw : Bytes) : Text := raw.map fun byte => Char.ofNat byte.toNat

theorem scanned_chain : Scanned chainModules chainScans chainTargets where
  importer scan member := by
    refine ⟨"old".toList, ?_, ?_⟩
    · have here : chainModules scan.importerPath = some (utf8 "old".toList) := by
        rcases List.mem_cons.mp member with rfl | member
        · exact if_pos (.inl rfl)
        · rw [List.mem_singleton.mp member]
          exact if_pos (.inr rfl)
      rw [originalText, here]
      exact decodeUtf8_utf8 _
    · rcases List.mem_cons.mp member with rfl | member
      · decide
      · rw [List.mem_singleton.mp member]
        decide
  apart := by
    refine List.pairwise_pair.mpr fun same => ?_
    exact absurd same (by decide)
  target scan member := by
    rcases List.mem_cons.mp member with rfl | member
    · rfl
    · rw [List.mem_singleton.mp member]
      rfl

theorem acyclic_chain : Acyclic (Imports chainScans) := by
  refine acyclic_of_lt ?_
  rintro importer target ⟨scan, member, rfl, rfl⟩
  rcases List.mem_cons.mp member with rfl | member
  · decide
  · rw [List.mem_singleton.mp member]
    decide

theorem resolveBaseBoundCascade_chain :
    ∃ resolved, resolveBaseBoundCascade chainDigest chainModules chainScans chainTargets =
      .ok resolved :=
  (resolveBaseBoundCascade_spec chainDigest chainModules chainScans chainTargets
    scanned_chain).1 (fun scan member => .inl (by
      rcases List.mem_cons.mp member with rfl | member
      · rfl
      · rw [List.mem_singleton.mp member]
        rfl)) acyclic_chain

end AxiomEncode.Cascade
