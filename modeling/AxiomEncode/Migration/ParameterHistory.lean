/-
# Migration.ParameterHistory -- two parameters agree over the windows of their use

A retired parameter may be renamed to a successor when both have the same value on
every day of every use window.  `_parameters_equal_over_windows` samples each window
at finitely many days: its two ends, every start of a version inside it and every day
after an end inside it.  A version changes its being in force at those days only
(`Theory.StepHistory`), so the sampled days decide all days.

Versions may overlap (the one listed last wins), start on one day or leave gaps; no
order of the list is used.
-/
import AxiomEncode.Theory.PyDate
import AxiomEncode.Theory.StepHistory

namespace AxiomEncode.Migration

open Theory

set_option autoImplicit false

/-- `tuple[date, date | None, Decimal]`: one version of a parameter. -/
abbrev ParameterVersion (Value : Type) := Piece Date Value

/-- A use window, as `_dependent_use_windows` admits it. -/
structure UseWindow where
  start : Date
  stop : Date
  ordered : start ≤ stop

section

variable {Value : Type}

/-- `_active_parameter_value`: the last version in force. -/
def activeParameterValue (versions : List (ParameterVersion Value)) (at_ : Date) : Option Value :=
  versions.foldl (fun active version => if version.Holds at_ then some version.value else active)
    none

/-- `end + timedelta(days=1)`, for an end before `date.max`. -/
def dayAfter (stop : Option Date) : Option Date :=
  match stop with
  | none => none
  | some stop => if stop < Date.max then stop.addDay else none

/-- The days at which one version makes the loop probe a window. -/
def versionProbes (windowStart windowEnd : Date) (version : ParameterVersion Value) : List Date :=
  (version.start :: (dayAfter version.stop).toList).filter fun probe =>
    windowStart ≤ probe ∧ probe ≤ windowEnd

def probes (oldVersions newVersions : List (ParameterVersion Value))
    (windowStart windowEnd : Date) : List Date :=
  windowStart :: windowEnd ::
    (oldVersions ++ newVersions).flatMap (versionProbes windowStart windowEnd)

/-- The test of one probe. -/
def equalAt [BEq Value] (oldVersions newVersions : List (ParameterVersion Value))
    (probe : Date) : Bool :=
  match activeParameterValue oldVersions probe, activeParameterValue newVersions probe with
  | some oldValue, some newValue => oldValue == newValue
  | _, _ => false

/-- `_parameters_equal_over_windows` -/
def parametersEqualOverWindows [BEq Value] (oldVersions newVersions : List (ParameterVersion Value))
    (windows : List UseWindow) : Bool :=
  windows.all fun window =>
    (probes oldVersions newVersions window.start window.stop).all
      (equalAt oldVersions newVersions)

/-! ## Values follow the versions in force -/

variable {versions oldVersions newVersions : List (ParameterVersion Value)}
  {probe time windowStart windowEnd date : Date} {window : UseWindow}

theorem foldl_active_congr
    (same : ∀ version ∈ versions, (version.Holds probe ↔ version.Holds time))
    (active : Option Value) :
    versions.foldl (fun active version => if version.Holds probe then some version.value else active)
        active =
      versions.foldl (fun active version => if version.Holds time then some version.value else active)
        active := by
  induction versions generalizing active with
  | nil => rfl
  | cons version rest ih =>
    have here := same version List.mem_cons_self
    have later := ih fun other has => same other (List.mem_cons_of_mem _ has)
    simp only [List.foldl_cons, here, later]

theorem activeParameterValue_congr
    (same : ∀ version ∈ versions, (version.Holds probe ↔ version.Holds time)) :
    activeParameterValue versions probe = activeParameterValue versions time :=
  foldl_active_congr same none

/-! ## The probes have every border -/

/-- The guard of the loop keeps `timedelta` from overflowing. -/
theorem dayAfter_eq_some {stop later : Date} (passed : stop < later) :
    ∃ after, dayAfter (some stop) = some after ∧ ∀ other, stop < other ↔ after ≤ other := by
  have early : stop < Date.max := lt_of_lt_of_le passed (Date.le_max later)
  obtain ⟨after, next⟩ := Date.exists_addDay early
  refine ⟨after, ?_, Date.lt_iff_addDay_le next⟩
  simp only [dayAfter, early, if_true, next]

theorem ends (version : ParameterVersion Value) : version.Ends := by
  intro stop _ later passed
  obtain ⟨after, -, next⟩ := dayAfter_eq_some passed
  exact ⟨after, next⟩

theorem mem_versionProbes {version : ParameterVersion Value} {border : Date}
    (isBorder : version.Border border) (late : windowStart ≤ border) (early : border ≤ windowEnd) :
    border ∈ versionProbes windowStart windowEnd version := by
  simp only [versionProbes, List.mem_filter, late, early, and_self, decide_true, and_true]
  rcases isBorder with rfl | ⟨stop, has, next⟩
  · exact List.mem_cons_self
  · apply List.mem_cons_of_mem
    -- the border right after a stop is the day after it
    have passed : stop < border := (next border).mpr le_rfl
    obtain ⟨after, computed, same⟩ := dayAfter_eq_some passed
    have equal : border = after :=
      le_antisymm ((next after).mp ((same after).mpr le_rfl)) ((same border).mp passed)
    rw [Option.mem_def] at has
    simp [has, computed, equal]

theorem mem_probes_iff :
    probe ∈ probes oldVersions newVersions windowStart windowEnd ↔
      probe = windowStart ∨ probe = windowEnd ∨
        ∃ version ∈ oldVersions ++ newVersions,
          probe ∈ versionProbes windowStart windowEnd version := by
  simp only [probes, List.mem_cons, List.mem_flatMap]

theorem probes_inside (member : probe ∈ probes oldVersions newVersions window.start window.stop) :
    window.start ≤ probe ∧ probe ≤ window.stop := by
  rcases mem_probes_iff.mp member with rfl | rfl | ⟨version, -, kept⟩
  · exact ⟨le_rfl, window.ordered⟩
  · exact ⟨window.ordered, le_rfl⟩
  · simpa using (List.mem_filter.mp kept).2

/-- Some probe stands for each day of a window. -/
theorem exists_probe (oldVersions newVersions : List (ParameterVersion Value))
    (from_ : window.start ≤ date) (through : date ≤ window.stop) :
    ∃ probe ∈ probes oldVersions newVersions window.start window.stop,
      activeParameterValue oldVersions probe = activeParameterValue oldVersions date ∧
        activeParameterValue newVersions probe = activeParameterValue newVersions date := by
  obtain ⟨probe, member, same⟩ := holds_iff_of_probe (oldVersions ++ newVersions)
    (fun version _ => ends version) (mem_probes_iff.mpr (.inl rfl)) (fun probe => probes_inside)
    (fun version has border isBorder late early => mem_probes_iff.mpr
      (.inr (.inr ⟨version, has, mem_versionProbes isBorder late early⟩)))
    from_ through
  exact ⟨probe, member,
    activeParameterValue_congr fun version has => same version (List.mem_append_left _ has),
    activeParameterValue_congr fun version has => same version (List.mem_append_right _ has)⟩

variable [BEq Value]

theorem equalAt_iff :
    equalAt oldVersions newVersions date = true ↔
      ∃ oldValue newValue, activeParameterValue oldVersions date = some oldValue ∧
        activeParameterValue newVersions date = some newValue ∧ (oldValue == newValue) = true := by
  unfold equalAt
  split
  · rename_i oldValue newValue old new
    simp [old, new]
  · rename_i missing
    simp only [Bool.false_eq_true, false_iff]
    rintro ⟨oldValue, newValue, old, new, -⟩
    exact missing oldValue newValue old new

/-- **The probes of the windows decide all their days** -/
theorem parametersEqualOverWindows_iff (oldVersions newVersions : List (ParameterVersion Value))
    (windows : List UseWindow) :
    parametersEqualOverWindows oldVersions newVersions windows = true ↔
      ∀ date, (∃ window ∈ windows, window.start ≤ date ∧ date ≤ window.stop) →
        ∃ oldValue newValue, activeParameterValue oldVersions date = some oldValue ∧
          activeParameterValue newVersions date = some newValue ∧
          (oldValue == newValue) = true := by
  simp only [parametersEqualOverWindows, List.all_eq_true]
  constructor
  · rintro equal date ⟨window, used, from_, through⟩
    obtain ⟨probe, member, old, new⟩ := exists_probe oldVersions newVersions from_ through
    have sampled := equalAt_iff.mp (equal window used probe member)
    rwa [old, new] at sampled
  · intro equal window used probe member
    exact equalAt_iff.mpr (equal probe ⟨window, used, probes_inside member⟩)

end

/-- The second version ends on the last day of the window and the first takes over again. -/
example :
    let day (day : Nat) (valid : 1 ≤ day ∧ day ≤ daysInMonth 2024 2) : Date :=
      ⟨2024, 2, day, by decide, by decide, valid⟩
    parametersEqualOverWindows
      [⟨day 1 (by decide), none, 7⟩, ⟨day 10 (by decide), some (day 28 (by decide)), 8⟩]
      [⟨day 1 (by decide), none, 7⟩, ⟨day 10 (by decide), none, 8⟩]
      [⟨day 5 (by decide), day 29 (by decide), by decide⟩] = false := by
  decide

end AxiomEncode.Migration
