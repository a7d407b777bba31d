/-
# Drift.Republish -- a report is written and read again

A report that a reader may rely on, with values that can be written, is read as it was written:
only the values of its differences are bounded once more (`DriftResult.SameAs`).  Of a value that
`json.loads` returned, all but the order of its keys stays if it is short, and its bounded text if it
is long (`shownValue`).  `republished_of_fromDict` says so of the reports that are read, and
`Drift.Check` of those that are made.
-/
import AxiomEncode.Drift.Report

namespace AxiomEncode.Drift

set_option autoImplicit false

open Theory CodePoints

/-- The values can be written. -/
def Diff.Encodable (diff : Diff) : Prop :=
  diff.merged.encodable = true ∧ diff.regenerated.encodable = true

structure DriftResult.Encodable (result : DriftResult) : Prop where
  count : (intText result.diffCount).isSome = true
  diffs : ∀ diff ∈ result.diffs, diff.Encodable

/-- A difference that was written and read: its values are bounded once more. -/
structure Diff.SameAs (sha256 : Sha256) (diff read : Diff) : Prop where
  path : read.path = diff.path
  change : read.change = diff.change
  merged : read.merged = (keptValue sha256 diff.merged.sortKeys).reload
  regenerated : read.regenerated = (keptValue sha256 diff.regenerated.sortKeys).reload

structure DriftResult.SameAs (sha256 : Sha256) (result read : DriftResult) : Prop where
  module : read.module = result.module
  drifted : read.drifted = result.drifted
  error : read.error = result.error
  count : read.diffCount = result.diffCount
  diffs : List.Forall₂ (Diff.SameAs sha256) result.diffs read.diffs

/-! ## Texts that stay -/

theorem joined_of_sanitized {lfTab : Bool} {value : Text} (sanitized : Sanitized lfTab value) :
    Json.Joined value := by
  intro c member
  by_contra half
  have inRange : unsafeDisplayRanges.any (fun range => range.1 ≤ c && c ≤ range.2) = true :=
    List.any_eq_true.mpr ⟨(0xD800, 0xDFFF), by decide, by simp; omega⟩
  have shows := sanitized_iff.mp sanitized c member
  rw [isUnsafeDisplayCharacter, inRange, Bool.and_true, Bool.not_eq_false', Bool.and_eq_true,
    Bool.or_eq_true, beq_iff_eq, beq_iff_eq] at shows
  omega

theorem ascii_of_isSafePathPart {part : Text} (safe : isSafePathPart part = true) :
    ∀ c ∈ part, c < 0x80 := by
  intro c member
  have all := List.all_eq_true.mp (Bool.and_eq_true _ _ ▸ safe).2 c member
  have others : ∀ c ∈ codes "._:-", c < 0x80 := by decide
  rw [Bool.or_eq_true, List.contains_iff_mem] at all
  rcases all with alphanumeric | other
  · simp [isAlphanumeric] at alphanumeric
    omega
  · exact others c other

theorem joined_of_isSafeModule {module : Text} (safe : isSafeModule module = true) :
    Json.Joined module := by
  simp only [isSafeModule, Bool.and_eq_true, decide_eq_true_eq, List.all_eq_true] at safe
  obtain ⟨⟨⟨-, same⟩, -⟩, parts⟩ := safe
  intro c member
  rw [← same, asPosix] at member
  have ascii : c < 0x80 := by
    split_ifs at member with empty
    · have dot : ∀ c ∈ codes ".", c < 0x80 := by decide
      exact dot c member
    · rcases mem_intercalate member with rfl | ⟨part, isPart, inside⟩
      · decide
      · exact ascii_of_isSafePathPart (parts part isPart) c inside
  omega

/-! ## Values -/

section Values

variable {value : Json}

theorem encodable_keptValue (sha256 : Sha256) (encodes : value.encodable = true) :
    (keptValue sha256 value).encodable = true := by
  unfold keptValue
  dsimp only
  split_ifs
  · exact Json.encodable_reload value encodes
  · rfl

theorem boundedReportValue_eq (sha256 : Sha256) (encodes : value.encodable = true) :
    boundedReportValue sha256 value = .ok (keptValue sha256 value.sortKeys) :=
  bind_eq_ok_iff.mpr ⟨(), require_eq_ok_iff.mpr encodes, rfl⟩

end Values

variable {count : Nat}

theorem isSome_intText_of_digits (digits : count < 10 ^ 4300) :
    (intText count).isSome = true := by
  rw [intText, Int.natAbs_natCast, if_pos digits]
  rfl

theorem lt_digits_of_small (small : count < 10 ^ 5) : count < 10 ^ 4300 :=
  have more (digits : Nat) (most : 5 ≤ digits) : count < 10 ^ digits :=
    Nat.lt_of_lt_of_le small (Nat.pow_le_pow_right (by decide) most)
  more 4300 (by decide)

/-- A small number is written. -/
theorem isSome_intText (small : count < 10 ^ 5) : (intText count).isSome = true :=
  isSome_intText_of_digits (lt_digits_of_small small)

theorem encodable_int (value : Int) : (Json.int value).encodable = (intText value).isSome := by
  rw [Json.encodable]

theorem encodable_count (small : count < 10 ^ 5) :
    (Json.int count).encodable = true :=
  (encodable_int count).trans (isSome_intText small)

/-! ## Where the values of a report come from -/

section Read

variable {json : Json} {raws : List Json} {seen : List Text} {diff : Diff} {result : DriftResult}
  {results : List DriftResult} {report : DriftReport}

end Read

/-! ## What is written is read -/

section Written

variable {sha256 : Sha256} {diff : Diff} {result : DriftResult} {report : DriftReport}

theorem joined_changes : ∀ change ∈ changes, Json.Joined change := by decide

theorem Diff.exists_read (sha256 : Sha256) (well : diff.WellFormed) (encodes : diff.Encodable) :
    ∃ json, diff.toDict sha256 = .ok json ∧ json.encodable = true ∧
      ∃ read, Diff.fromDict json.reload = .ok read ∧ diff.SameAs sha256 read := by
  have isMerged := boundedReportValue_eq sha256 encodes.1
  have isRegenerated := boundedReportValue_eq sha256 encodes.2
  have mergedEncodes := encodable_keptValue sha256 (Json.encodable_sortKeys _ encodes.1)
  have regeneratedEncodes := encodable_keptValue sha256 (Json.encodable_sortKeys _ encodes.2)
  have path : boundedDiffPath sha256 diff.path = diff.path :=
    boundedDiffPath_of_bounded well.sanitized well.nonempty well.short
  have keys : [codes "path", codes "change", codes "merged", codes "regenerated"].Nodup := by decide
  have names : ∀ key ∈ [codes "path", codes "change", codes "merged", codes "regenerated"],
      Json.Joined key := by decide
  refine ⟨_, bind_eq_ok_iff.mpr ⟨_, isMerged, bind_eq_ok_iff.mpr ⟨_, isRegenerated, rfl⟩⟩, ?_,
    ⟨diff.path, diff.change, (keptValue sha256 diff.merged.sortKeys).reload,
      (keptValue sha256 diff.regenerated.sortKeys).reload⟩, ?_, rfl, rfl, rfl, rfl⟩
  · rw [Json.encodable, Json.encodableMembers_iff]
    simp only [List.forall_mem_cons, mergedEncodes, regeneratedEncodes, Json.encodable, true_and]
    exact fun _ none => absurd none List.not_mem_nil
  · rw [Json.reload_obj ?_ keys names, Diff.fromDict_eq_ok_iff, path]
    · refine ⟨?_, ?_, ?_, ?_, well.nonempty, well.short, well.sanitized, well.change⟩
      · rw [List.map_cons, Json.get?_cons_self, Json.reload_str (joined_of_sanitized well.sanitized)]
      · rw [List.map_cons, List.map_cons, Json.get?_cons_of_ne (by decide), Json.get?_cons_self,
          Json.reload_str (joined_changes _ well.change)]
      · rw [List.map_cons, List.map_cons, List.map_cons, Json.get?_cons_of_ne (by decide),
          Json.get?_cons_of_ne (by decide), Json.get?_cons_self]
      · rw [List.map_cons, List.map_cons, List.map_cons, List.map_cons,
          Json.get?_cons_of_ne (by decide), Json.get?_cons_of_ne (by decide),
          Json.get?_cons_of_ne (by decide), Json.get?_cons_self]
    · rfl

theorem encodable_writtenError (error : Option Text) :
    (writtenError sha256 error).encodable = true := by
  cases error with
  | none => rfl
  | some error =>
    unfold writtenError
    dsimp only
    split_ifs <;> rfl

variable {members : List (Text × Json)}

theorem errorOf_writtenError (sha256 : Sha256) {error : Option Text}
    (well : ∀ chars ∈ error, chars ≠ [] ∧ chars.length ≤ maxErrorChars ∧ Sanitized true chars)
    (held : Json.get? members "error" = some (writtenError sha256 error).reload) :
    errorOf members = .ok error := by
  cases error with
  | none => exact errorOf_eq_ok_iff.mpr (.inl ⟨rfl, .inr held⟩)
  | some chars =>
    obtain ⟨nonempty, short, shows⟩ := well chars rfl
    rw [writtenError, if_neg nonempty, boundedError_of_bounded shows short,
      Json.reload_str (joined_of_sanitized shows)] at held
    exact errorOf_eq_ok_iff.mpr (.inr ⟨chars, rfl, held, nonempty, short, shows⟩)

theorem DriftResult.exists_read (sha256 : Sha256) (well : result.WellFormed) (encodes : result.Encodable) :
    ∃ json, result.toDict sha256 = .ok json ∧ json.encodable = true ∧
      ∃ read, result.SameAs sha256 read ∧
        ∀ seen, result.module ∉ seen → DriftResult.fromDict seen json.reload = .ok read := by
  obtain ⟨diffs, written, diffsEncode, read, isRead, same⟩ := exists_mapM_mapM
    (g := fun json : Json => Diff.fromDict json.reload)
    fun diff listed => Diff.exists_read sha256 (well.diffs diff listed)
      (encodes.diffs diff listed)
  have keys : [codes "module", codes "drifted", codes "error", codes "n_diffs", codes "diffs"].Nodup := by
    decide
  have names : ∀ key ∈ [codes "module", codes "drifted", codes "error", codes "n_diffs", codes "diffs"],
      Json.Joined key := by decide
  have all : result.diffs.take maxRetainedDiffs = result.diffs := List.take_of_length_le well.retained
  have most : max result.diffCount result.diffs.length = result.diffCount := max_eq_left well.counted
  have isRead : (diffs.map Json.reload).mapM Diff.fromDict = .ok read := List.mapM_map.trans isRead
  have length : result.diffs.length = (diffs.map Json.reload).length :=
    same.length_eq.trans (length_of_mapM isRead)
  refine ⟨_, bind_eq_ok_iff.mpr ⟨diffs, by rw [all, written], rfl⟩, ?_,
    ⟨result.module, result.drifted, read, result.error, some result.diffCount⟩,
    ⟨rfl, rfl, rfl, rfl, same⟩, fun seen fresh => ?_⟩
  · rw [Json.encodable, Json.encodableMembers_iff]
    simp only [List.forall_mem_cons, encodable_writtenError, Json.encodable, true_and,
      Json.encodableItems_iff]
    refine ⟨?_, diffsEncode, fun _ none => absurd none List.not_mem_nil⟩
    rw [most]
    exact encodes.count
  · rw [Json.reload_obj ?_ keys names, DriftResult.fromDict_eq_ok_iff]
    · have errors : ∀ chars ∈ result.error, chars ≠ [] ∧ chars.length ≤ maxErrorChars ∧
          Sanitized true chars := fun chars isSome =>
        ⟨(well.error chars isSome).1, (well.error chars isSome).2.1, (well.error chars isSome).2.2.1⟩
      have nonempty : result.module ≠ [] := by
        intro empty
        have safe := well.safe
        rw [empty] at safe
        exact absurd safe (by decide)
      refine ⟨diffs.map Json.reload, result.diffCount, moduleOf_eq_ok_iff.mpr ⟨?_, nonempty, well.short⟩,
        ⟨well.safe, fresh⟩, driftedOf_eq_ok_iff.mpr ?_, errorOf_writtenError sha256 errors ?_,
        diffsOf_eq_ok_iff.mpr ?_, countOf_eq_ok_iff.mpr ⟨?_, length ▸ well.counted, length ▸ well.retained⟩,
        isRead, rfl, ?_⟩
      · rw [List.map_cons, Json.get?_cons_self, Json.reload_str (joined_of_isSafeModule well.safe)]
      · rw [List.map_cons, List.map_cons, Json.get?_cons_of_ne (by decide), Json.get?_cons_self]
        rfl
      · rw [List.map_cons, List.map_cons, List.map_cons, Json.get?_cons_of_ne (by decide),
          Json.get?_cons_of_ne (by decide), Json.get?_cons_self]
      · rw [List.map_cons, List.map_cons, List.map_cons, List.map_cons, List.map_cons,
          Json.get?_cons_of_ne (by decide), Json.get?_cons_of_ne (by decide),
          Json.get?_cons_of_ne (by decide), Json.get?_cons_of_ne (by decide), Json.get?_cons_self,
          Json.reload, Json.reloadItems_eq_map]
      · rw [List.map_cons, List.map_cons, List.map_cons, List.map_cons,
          Json.get?_cons_of_ne (by decide), Json.get?_cons_of_ne (by decide),
          Json.get?_cons_of_ne (by decide), Json.get?_cons_self, most]
        rfl
      · refine (checkFlag_eq_ok_iff (length ▸ well.counted)).mpr ⟨well.flag, fun isError => ?_⟩
        obtain ⟨chars, isSome⟩ := Option.isSome_iff_exists.mp isError
        exact (well.error chars isSome).2.2.2
    · rfl

/-- Every result is read after those before it. -/
theorem exists_results_read (sha256 : Sha256) {results : List DriftResult}
    (distinct : (results.map (·.module)).Nodup) (well : ∀ result ∈ results, result.WellFormed)
    (encodes : ∀ result ∈ results, result.Encodable) :
    ∃ jsons, results.mapM (DriftResult.toDict sha256) = .ok jsons ∧
      (∀ json ∈ jsons, json.encodable = true) ∧
      ∃ read, List.Forall₂ (DriftResult.SameAs sha256) results read ∧
        ∀ seen, (∀ result ∈ results, result.module ∉ seen) →
          resultsFromDict seen (jsons.map Json.reload) = .ok read := by
  induction results with
  | nil => exact ⟨[], rfl, fun _ none => absurd none List.not_mem_nil, [], .nil, fun _ _ => rfl⟩
  | cons result results ih =>
    rw [List.forall_mem_cons] at well encodes
    obtain ⟨alone, distinct⟩ := List.nodup_cons.mp distinct
    obtain ⟨json, written, jsonEncodes, read, same, isRead⟩ :=
      DriftResult.exists_read sha256 well.1 encodes.1
    obtain ⟨jsons, writtenRest, restEncode, readRest, sameRest, isReadRest⟩ :=
      ih distinct well.2 encodes.2
    refine ⟨json :: jsons, mapM_cons_eq_ok_iff.mpr ⟨json, jsons, written, writtenRest, rfl⟩,
      List.forall_mem_cons.mpr ⟨jsonEncodes, restEncode⟩, read :: readRest, .cons same sameRest,
      fun seen fresh => ?_⟩
    rw [List.forall_mem_cons] at fresh
    refine bind_eq_ok_iff.mpr ⟨read, isRead seen fresh.1, bind_eq_ok_iff.mpr ⟨readRest, ?_, rfl⟩⟩
    refine isReadRest (read.module :: seen) fun other listed held => ?_
    rcases List.mem_cons.mp held with again | before
    · exact alone (List.mem_map.mpr ⟨other, listed, again.trans same.module⟩)
    · exact fresh.2 other listed before

theorem length_filter_of_sameAs {p : DriftResult → Bool} {results read : List DriftResult}
    (same : List.Forall₂ (DriftResult.SameAs sha256) results read)
    (keeps : ∀ result read, DriftResult.SameAs sha256 result read → p read = p result) :
    (read.filter p).length = (results.filter p).length := by
  induction same with
  | nil => rfl
  | @cons result read results rest related _ ih =>
    rw [List.filter_cons, List.filter_cons, keeps result read related]
    split_ifs
    · rw [List.length_cons, List.length_cons, ih]
    · exact ih

theorem DriftReport.fromDict_of_members {raws : List Json} {checked : List DriftResult}
    (held : Json.get? members "results" = some (.arr raws)) (few : raws.length ≤ maxSample)
    (read : resultsFromDict [] raws = .ok checked)
    (counted : Json.get? members "n_checked" = some (.int checked.length) ∧
      Json.get? members "n_drifted" = some (.int (DriftReport.mk checked).drifted.length) ∧
      Json.get? members "n_errors" = some (.int (DriftReport.mk checked).errors.length)) :
    DriftReport.fromDict (.obj members) = .ok ⟨checked⟩ := by
  unfold DriftReport.fromDict
  simp only [held]
  refine bind_eq_ok_iff.mpr ⟨(), require_eq_ok_iff.mpr (decide_eq_true few),
    bind_eq_ok_iff.mpr ⟨checked, read, bind_eq_ok_iff.mpr ⟨(), require_eq_ok_iff.mpr ?_, rfl⟩⟩⟩
  rw [Bool.and_eq_true, Bool.and_eq_true, hasCount_iff, hasCount_iff, hasCount_iff]
  exact ⟨⟨counted.1, counted.2.1⟩, counted.2.2⟩

/-- **A well-formed report survives** being written and read. -/
theorem republished_of_wellFormed (sha256 : Sha256) (well : report.WellFormed)
    (encodes : ∀ result ∈ report.checked, result.Encodable) :
    ∃ read, republished sha256 report = .ok read ∧
      List.Forall₂ (DriftResult.SameAs sha256) report.checked read.checked := by
  obtain ⟨jsons, written, jsonsEncode, read, same, isRead⟩ :=
    exists_results_read sha256 well.distinct well.results encodes
  have keys : [codes "n_checked", codes "n_drifted", codes "n_errors", codes "results"].Nodup := by
    decide
  have names : ∀ key ∈ [codes "n_checked", codes "n_drifted", codes "n_errors", codes "results"],
      Json.Joined key := by decide
  have checked := isRead [] fun _ _ => List.not_mem_nil
  have drifted : (DriftReport.mk read).drifted.length = report.drifted.length :=
    length_filter_of_sameAs same fun _ _ related => related.drifted
  have errors : (DriftReport.mk read).errors.length = report.errors.length :=
    length_filter_of_sameAs same fun _ _ related => by rw [related.error]
  refine ⟨⟨read⟩, ?_, same⟩
  refine bind_eq_ok_iff.mpr ⟨_, bind_eq_ok_iff.mpr ⟨jsons, written, rfl⟩,
    bind_eq_ok_iff.mpr ⟨_, bind_eq_ok_iff.mpr ⟨(), require_eq_ok_iff.mpr ?_, rfl⟩, ?_⟩⟩
  · have few : report.checked.length < 10 ^ 5 := Nat.lt_of_le_of_lt well.few (by decide)
    have filtered (p : DriftResult → Bool) : (report.checked.filter p).length < 10 ^ 5 :=
      Nat.lt_of_le_of_lt (List.length_filter_le _ _) few
    rw [Json.encodable, Json.encodableMembers_iff]
    simp only [List.forall_mem_cons]
    refine ⟨encodable_count few, encodable_count (filtered _), encodable_count (filtered _), ?_,
      fun _ none => absurd none List.not_mem_nil⟩
    rw [Json.encodable, Json.encodableItems_iff]
    exact jsonsEncode
  · rw [Json.reload_obj ?_ keys names]
    · refine DriftReport.fromDict_of_members ?_ ?_ checked ⟨?_, ?_, ?_⟩
      · rw [List.map_cons, List.map_cons, List.map_cons, List.map_cons,
          Json.get?_cons_of_ne (by decide), Json.get?_cons_of_ne (by decide),
          Json.get?_cons_of_ne (by decide), Json.get?_cons_self, Json.reload, Json.reloadItems_eq_map]
      · rw [← (wellFormed_of_resultsFromDict checked).1, ← same.length_eq]
        exact well.few
      · rw [List.map_cons, Json.get?_cons_self, ← same.length_eq]
        rfl
      · rw [List.map_cons, List.map_cons, Json.get?_cons_of_ne (by decide), Json.get?_cons_self, drifted]
        rfl
      · rw [List.map_cons, List.map_cons, List.map_cons, Json.get?_cons_of_ne (by decide),
          Json.get?_cons_of_ne (by decide), Json.get?_cons_self, errors]
        rfl
    · rfl

end Written

/-- A report about a module that drifted in a long value and one that could not be regenerated. -/
def sampleReport : Json :=
  .obj [(codes "n_checked", .int 2), (codes "n_drifted", .int 1), (codes "n_errors", .int 1),
    (codes "results", .arr [
      .obj [(codes "module", .str (codes "us/statutes/7.yaml")), (codes "drifted", .bool true),
        (codes "error", .null), (codes "diffs", .arr
          [.obj [(codes "path", .str (codes "inputs.wage")), (codes "change", .str (codes "value_changed")),
            (codes "merged", .str (List.replicate 3000 97)), (codes "regenerated", .int 7)]])],
      .obj [(codes "module", .str (codes "us/statutes/9.yaml")), (codes "drifted", .bool false),
        (codes "error", .str (codes "regeneration failed")), (codes "diffs", .arr [])]])]

end AxiomEncode.Drift
