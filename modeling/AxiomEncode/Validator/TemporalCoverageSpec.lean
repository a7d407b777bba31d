/-
# Validator.TemporalCoverageSpec -- when coverage is reported exactly

The cursor of `_interval_is_covered` walks from the first day that is not yet covered to
the next (`isCoveredFrom_iff`).  It stops short in one case: an interval ends on
`date.max`, which has no day after it, and a version without an end is taken for uncovered
although a later interval may have no end either.  And the sorting before it raises for a
last version without an end that starts with one that has an end.  Apart from these two
the issues are the derived versions with a day outside all intervals of a rule they name.
-/
import AxiomEncode.Validator.TemporalCoverage
import AxiomEncode.Theory.Checks
import Mathlib.Data.List.Sort
import Mathlib.Data.List.Nodup

namespace AxiomEncode.Validator

open Theory

set_option autoImplicit false

/-! ## Days -/

/-- A date, or the time after `date.max`, which only an interval without an end has. -/
abbrev Day := WithTop Date

def Interval.Has (interval : Interval) (day : Day) : Prop :=
  ↑interval.start ≤ day ∧ ∀ stop ∈ interval.stop, day ≤ ↑stop

/-- Every day of the required interval that counts has an available interval. -/
def Covers (counts : Day → Prop) (cursor : Date) (requiredTo : Option Date)
    (available : List Interval) : Prop :=
  ∀ day, counts day → ↑cursor ≤ day → (∀ stop ∈ requiredTo, day ≤ ↑stop) →
    ∃ interval ∈ available, interval.Has day

/-- No interval runs into the end of time before a version without an end is covered. -/
def AvoidsMax (requiredTo : Option Date) (available : List Interval) : Prop :=
  requiredTo = none → ∀ interval ∈ available, interval.stop ≠ some Date.max

/-- By start, and only the last one may have no end. -/
def InOrder (available : List Interval) : Prop :=
  available.Pairwise fun a b => a.start ≤ b.start ∧ a.stop.isSome = true

variable {stop : Date}

section

variable {counts : Day → Prop} {requiredTo : Option Date} {cursor : Date} {a : Interval}
  {rest : List Interval}

/-- A day before every start is a gap. -/
theorem not_covers_of_lt (dates : ∀ date : Date, counts ↑date)
    (inside : ∀ stop ∈ requiredTo, cursor ≤ stop) (ordered : InOrder (a :: rest))
    (early : cursor < a.start) : ¬ Covers counts cursor requiredTo (a :: rest) := by
  intro covers
  obtain ⟨interval, member, started, -⟩ := covers ↑cursor (dates cursor) (le_refl _)
    fun stop isStop => WithTop.coe_le_coe.mpr (inside stop isStop)
  have later : a.start ≤ interval.start := by
    rcases List.mem_cons.mp member with rfl | member
    · exact le_refl _
    · exact ((List.pairwise_cons.mp ordered).1 interval member).1
  exact absurd (WithTop.coe_le_coe.mp started) (not_le_of_gt (early.trans_le later))

/-- An interval that is over plays no part. -/
theorem covers_cons_of_over (isStop : a.stop = some stop) (exceeds : stop < cursor) :
    Covers counts cursor requiredTo (a :: rest) ↔ Covers counts cursor requiredTo rest := by
  have misses : ∀ day : Day, ↑cursor ≤ day → ¬ a.Has day := by
    rintro day after ⟨-, running⟩
    have := after.trans (running stop isStop)
    exact absurd (WithTop.coe_le_coe.mp this) (not_le_of_gt exceeds)
  constructor
  · intro covers day counted after within
    obtain ⟨interval, member, has⟩ := covers day counted after within
    rcases List.mem_cons.mp member with rfl | member
    · exact absurd has (misses day after)
    · exact ⟨interval, member, has⟩
  · intro covers day counted after within
    obtain ⟨interval, member, has⟩ := covers day counted after within
    exact ⟨interval, List.mem_cons_of_mem _ member, has⟩

/-- An interval that has the cursor takes it to the day after its end. -/
theorem covers_cons_of_step {next : Date} (isStop : a.stop = some stop)
    (started : a.start ≤ cursor) (running : cursor ≤ stop) (isNext : stop.addDay = some next) :
    Covers counts cursor requiredTo (a :: rest) ↔ Covers counts next requiredTo rest := by
  have passes : ∀ day : Day, ↑next ≤ day ↔ ¬ day ≤ ↑stop := by
    intro day
    induction day using WithTop.recTopCoe with
    | top => simp
    | coe day =>
      rw [WithTop.coe_le_coe, WithTop.coe_le_coe, not_le]
      exact (Date.lt_iff_addDay_le isNext day).symm
  constructor
  · intro covers day counted after within
    have later : (↑cursor : Day) ≤ day := by
      have : (↑stop : Day) < day := lt_of_not_ge ((passes day).mp after)
      exact (WithTop.coe_le_coe.mpr running).trans this.le
    obtain ⟨interval, member, has⟩ := covers day counted later within
    rcases List.mem_cons.mp member with rfl | member
    · exact absurd (has.2 stop isStop) ((passes day).mp after)
    · exact ⟨interval, member, has⟩
  · intro covers day counted after within
    by_cases reached : day ≤ ↑stop
    · refine ⟨a, List.mem_cons_self, (WithTop.coe_le_coe.mpr started).trans after, ?_⟩
      intro end_ isEnd
      obtain rfl := Option.some.inj (isStop.symm.trans isEnd)
      exact reached
    · obtain ⟨interval, member, has⟩ := covers day counted ((passes day).mpr reached) within
      exact ⟨interval, List.mem_cons_of_mem _ member, has⟩

theorem avoidsMax_cons : AvoidsMax requiredTo (a :: rest) ↔
    (requiredTo = none → a.stop ≠ some Date.max) ∧ AvoidsMax requiredTo rest := by
  simp only [AvoidsMax, List.forall_mem_cons]
  exact ⟨fun h => ⟨fun isNone => (h isNone).1, fun isNone => (h isNone).2⟩,
    fun h isNone => ⟨h.1 isNone, h.2 isNone⟩⟩

end

/-- **The sweep decides coverage, up to the end of time.**  The cursor is the first day
that is not known to be covered. -/
theorem isCoveredFrom_iff {counts : Day → Prop} (dates : ∀ date : Date, counts ↑date)
    {requiredTo : Option Date} {available : List Interval} (ordered : InOrder available)
    {cursor : Date} (inside : ∀ stop ∈ requiredTo, cursor ≤ stop) :
    isCoveredFrom requiredTo cursor available = true ↔
      Covers counts cursor requiredTo available ∧ AvoidsMax requiredTo available := by
  induction available generalizing cursor with
  | nil =>
    refine iff_of_false Bool.false_ne_true ?_
    rintro ⟨covers, -⟩
    obtain ⟨interval, member, -⟩ := covers ↑cursor (dates cursor) (le_refl _)
      fun stop isStop => WithTop.coe_le_coe.mpr (inside stop isStop)
    cases member
  | cons a rest ih =>
    obtain ⟨first, ordered'⟩ := List.pairwise_cons.mp ordered
    rw [isCoveredFrom]
    by_cases early : cursor < a.start
    · -- nothing from here on has the cursor
      have gap := not_covers_of_lt dates inside ordered early
      cases isStop : a.stop with
      | none => simp [early, gap]
      | some stop =>
        by_cases exceeds : stop < cursor
        · rw [if_pos (by simpa using exceeds), ih ordered' inside,
            ← covers_cons_of_over isStop exceeds]
          exact iff_of_false (gap ·.1) (gap ·.1)
        · simp [exceeds, early, gap]
    have started : a.start ≤ cursor := le_of_not_gt early
    cases isStop : a.stop with
    | none =>
      rw [if_neg (by simp), if_neg early]
      refine iff_of_true rfl ⟨fun day _ after _ => ?_, fun _ interval member => ?_⟩
      · refine ⟨a, List.mem_cons_self, (WithTop.coe_le_coe.mpr started).trans after, ?_⟩
        rw [isStop]
        exact nofun
      · rcases List.mem_cons.mp member with rfl | member
        · rw [isStop]
          exact nofun
        · have := (first interval member).2
          rw [isStop] at this
          cases this
    | some stop =>
      by_cases exceeds : stop < cursor
      · have notMax : a.stop ≠ some Date.max := by
          rw [isStop]
          rintro ⟨⟩
          exact absurd (Date.le_max cursor) (not_le_of_gt exceeds)
        rw [if_pos (by simpa using exceeds), ih ordered' inside, covers_cons_of_over isStop exceeds,
          avoidsMax_cons]
        exact and_congr_right fun _ => (and_iff_right fun _ => notMax).symm
      have running : cursor ≤ stop := le_of_not_gt exceeds
      rw [if_neg (by simpa using running), if_neg early]
      dsimp only
      by_cases reached : requiredTo.any (· ≤ stop) = true
      · rw [if_pos reached]
        obtain ⟨end_, isEnd, before⟩ := Option.any_eq_true _ _ |>.mp reached
        refine iff_of_true rfl ⟨fun day _ after within => ?_, fun isNone => ?_⟩
        · refine ⟨a, List.mem_cons_self, (WithTop.coe_le_coe.mpr started).trans after, ?_⟩
          intro stop' isStop'
          obtain rfl := Option.some.inj (isStop.symm.trans isStop')
          exact (within end_ isEnd).trans (WithTop.coe_le_coe.mpr (by simpa using before))
        · rw [isNone] at isEnd
          cases isEnd
      rw [if_neg reached]
      by_cases last : stop = Date.max
      · rw [if_pos last]
        have unbounded : requiredTo = none := by
          cases isEnd : requiredTo with
          | none => rfl
          | some end_ =>
            refine absurd ?_ reached
            rw [isEnd, last]
            simpa using Date.le_max end_
        refine iff_of_false reached fun both => ?_
        exact both.2 unbounded a List.mem_cons_self (by rw [isStop, last])
      · rw [if_neg last]
        obtain ⟨next, isNext⟩ :=
          Date.exists_addDay (lt_of_le_of_ne (Date.le_max stop) last)
        have ahead : ∀ end_ ∈ requiredTo, next ≤ end_ := by
          intro end_ isEnd
          rw [← Date.lt_iff_addDay_le isNext]
          by_contra before
          refine reached ?_
          rw [isEnd]
          simpa using before
        have notMax : a.stop ≠ some Date.max := by
          rw [isStop]
          exact fun same => last (Option.some.inj same)
        rw [isNext, ih ordered' ahead, covers_cons_of_step isStop started running isNext,
          avoidsMax_cons]
        exact and_congr_right fun _ => (and_iff_right fun _ => notMax).symm

/-! ## Versions in order -/

section

variable {library : Library} {rule : Yaml.Mapping}

theorem index_datedVersion {entry : Yaml × Nat} {version : DatedVersion}
    (dated : datedVersion library entry = some version) : version.index = entry.2 := by
  unfold datedVersion at dated
  split at dated
  · simp only [Option.bind_eq_bind, Option.bind_eq_some_iff, Option.pure_def,
      Option.some.injEq] at dated
    obtain ⟨_, _, _, _, rfl⟩ := dated
    rfl
  · cases dated

theorem sublist_indices (entries : List (Yaml × Nat)) :
    ((entries.filterMap (datedVersion library)).map DatedVersion.index).Sublist
      (entries.map Prod.snd) := by
  induction entries with
  | nil => exact List.Sublist.refl _
  | cons entry entries ih =>
    cases dated : datedVersion library entry with
    | none =>
      rw [List.filterMap_cons_none dated, List.map_cons]
      exact ih.cons _
    | some version =>
      rw [List.filterMap_cons_some dated, List.map_cons, List.map_cons,
        index_datedVersion dated]
      exact ih.cons_cons _

/-- No two versions have one place. -/
theorem nodup_index_datedVersions :
    ((datedVersions library rule).map DatedVersion.index).Nodup := by
  unfold datedVersions
  split
  · next versions _ =>
      have plain : (versions.zipIdx.map Prod.snd).Nodup := by
        rw [List.zipIdx_map_snd]
        exact List.nodup_range'
      exact ((List.perm_insertionSort (fun a b : DatedVersion => a.key ≤ b.key) _).map
        DatedVersion.index).nodup_iff.mpr (plain.sublist (sublist_indices _))
  · exact List.nodup_nil

theorem sorted_datedVersions : (datedVersions library rule).Pairwise fun a b => a.key ≤ b.key := by
  unfold datedVersions
  split
  · exact List.pairwise_insertionSort (fun a b : DatedVersion => a.key ≤ b.key) _
  · exact List.Pairwise.nil

/-- The dated versions, in strict order. -/
theorem strict_datedVersions : (datedVersions library rule).Pairwise fun a b => a.key < b.key := by
  refine (sorted_datedVersions.and (List.pairwise_map.mp nodup_index_datedVersions)).imp ?_
  rintro a b ⟨before, different⟩
  refine lt_of_le_of_ne before fun same => different ?_
  exact (Prod.mk.inj (toLex.injective same)).2

/-! ## Intervals of versions -/

variable {effective version : EffectiveVersion} {b : Interval} {last : DatedVersion}
  {intervals : List Interval} {name content dependency : Text} {coverage : ByName (List Interval)}
  {rules : ByName Yaml.Mapping} {target : Yaml.Mapping} {issue : Issue} {issues : List Issue}

theorem effectiveVersion_eq_some_iff {version : DatedVersion} {next : Option DatedVersion} :
    effectiveVersion library version next = some effective ↔
      effective.toDatedVersion = version ∧
        effectiveStop library version next = some effective.stop ∧
        ∀ stop ∈ effective.stop, version.start ≤ stop := by
  obtain ⟨dated, stop⟩ := effective
  simp only [effectiveVersion, Option.bind_eq_bind, Option.bind_eq_some_iff, Option.pure_def]
  constructor
  · rintro ⟨stop', isStop, made⟩
    split at made
    · cases made
    · next valid =>
        cases made
        refine ⟨rfl, isStop, fun end_ isEnd => ?_⟩
        rw [isEnd] at valid
        simpa using valid
  · rintro ⟨rfl, isStop, valid⟩
    refine ⟨stop, isStop, ?_⟩
    rw [if_neg]
    rw [Option.any_eq_true]
    rintro ⟨end_, isEnd, before⟩
    exact absurd (valid end_ isEnd) (not_le_of_gt (by simpa using before))

/-- Only the last version has no end. -/
theorem stop_isSome_of_next {version next : DatedVersion} {stop : Option Date}
    (found : effectiveStop library version (some next) = some stop) : stop.isSome = true := by
  unfold effectiveStop at found
  split at found
  · obtain ⟨end_, -, rfl⟩ := Option.map_eq_some_iff.mp found
    rfl
  · dsimp only at found
    split at found
    · cases found
    · obtain ⟨end_, -, rfl⟩ := Option.map_eq_some_iff.mp found
      rfl

/-- The versions in force are some of the dated ones, in their order. -/
theorem sublist_closeVersions (versions : List DatedVersion) :
    ((closeVersions library versions).map EffectiveVersion.toDatedVersion).Sublist versions := by
  induction versions with
  | nil => exact List.Sublist.refl _
  | cons version rest ih =>
    rw [closeVersions, List.map_append]
    cases found : effectiveVersion library version rest.head? with
    | none => exact ih.cons _
    | some effective =>
      have same := (effectiveVersion_eq_some_iff.mp found).1
      simp only [Option.toList_some, List.map_cons, List.map_nil, same]
      exact ih.cons_cons _

theorem mem_closeVersions {versions : List DatedVersion} :
    effective ∈ closeVersions library versions ↔
      ∃ before version after, versions = before ++ version :: after ∧
        effectiveVersion library version after.head? = some effective := by
  induction versions with
  | nil => simp [closeVersions]
  | cons version rest ih =>
    rw [closeVersions, List.mem_append, ih, Option.mem_toList]
    constructor
    · rintro (found | ⟨before, other, after, rfl, found⟩)
      · exact ⟨[], version, rest, rfl, found⟩
      · exact ⟨version :: before, other, after, rfl, found⟩
    · rintro ⟨before, other, after, cut, found⟩
      rcases List.cons_eq_append_iff.mp cut with ⟨rfl, same⟩ | ⟨before, rfl, rfl⟩
      · obtain ⟨rfl, rfl⟩ := List.cons.inj same
        exact .inl found
      · exact .inr ⟨before, other, after, rfl, found⟩

/-- Every version in force but the last has an end. -/
theorem ended_closeVersions (versions : List DatedVersion) :
    (closeVersions library versions).Pairwise fun a _ => a.stop.isSome = true := by
  induction versions with
  | nil => exact List.Pairwise.nil
  | cons version rest ih =>
    rw [closeVersions]
    cases found : effectiveVersion library version rest.head? with
    | none => exact ih
    | some effective =>
      refine List.pairwise_cons.mpr ⟨fun later member => ?_, ih⟩
      cases rest with
      | nil => cases member
      | cons next rest =>
        exact stop_isSome_of_next (effectiveVersion_eq_some_iff.mp found).2.1

theorem strict_ruleEffectiveIntervals :
    (ruleEffectiveIntervals library rule).Pairwise fun a b => a.key < b.key := by
  have strict := (@strict_datedVersions library rule).sublist
    (@sublist_closeVersions library _)
  rw [List.pairwise_map] at strict
  exact strict

/-- A version in force is known by its place. -/
theorem eq_of_index {a b : EffectiveVersion} (here : a ∈ ruleEffectiveIntervals library rule)
    (there : b ∈ ruleEffectiveIntervals library rule) (same : a.index = b.index) : a = b := by
  have indices := (@nodup_index_datedVersions library rule).sublist
    ((@sublist_closeVersions library _).map DatedVersion.index)
  rw [List.map_map] at indices
  exact List.inj_on_of_nodup_map indices here there same

theorem inOrder_intervalsOf : InOrder (intervalsOf library rule) := by
  refine List.pairwise_map.mpr ((strict_ruleEffectiveIntervals.and
    (ended_closeVersions _)).imp ?_)
  rintro a b ⟨before, ended⟩
  exact ⟨(Prod.Lex.le_iff.mp before.le).elim le_of_lt (·.1.le), ended⟩

/-! ## Sorting -/

/-- The last version of a rule has no end, and another one that starts with it has one. -/
structure IsOpenTwin (library : Library) (rule : Yaml.Mapping) (last other : DatedVersion) :
    Prop where
  last_mem : last ∈ datedVersions library rule
  other_mem : other ∈ datedVersions library rule
  latest : ∀ version ∈ datedVersions library rule, version.key ≤ last.key
  openEnded : isOpenEnded last.version = true
  sameStart : other.start = last.start
  closed : isOpenEnded other.version = false
  ends : ∃ stop, readDate library (Yaml.value other.version "effective_to") = some stop ∧
    other.start ≤ stop

theorem cannotCompare_iff {a : Interval} : cannotCompare a b = true ↔
    a.start = b.start ∧ a.stop = none ∧ ∃ stop, b.stop = some stop := by
  simp [cannotCompare, Option.isSome_iff_exists, and_assoc]

theorem start_le_of_key_le {a b : DatedVersion} (before : a.key ≤ b.key) : a.start ≤ b.start :=
  (Prod.Lex.le_iff.mp before).elim le_of_lt (·.1.le)

/-- A version in force without an end is the last one, and says nothing of an end. -/
theorem last_of_stop_none (member : effective ∈ ruleEffectiveIntervals library rule)
    (isNone : effective.stop = none) :
    isOpenEnded effective.version = true ∧
      ∀ version ∈ datedVersions library rule, version.key ≤ effective.key := by
  obtain ⟨before, version, after, cut, found⟩ := mem_closeVersions.mp member
  obtain ⟨rfl, isStop, -⟩ := effectiveVersion_eq_some_iff.mp found
  cases after with
  | cons next after =>
    have := stop_isSome_of_next isStop
    rw [isNone] at this
    cases this
  | nil =>
    refine ⟨?_, fun other otherMember => ?_⟩
    · rw [isNone] at isStop
      unfold effectiveStop at isStop
      split at isStop
      · obtain ⟨_, -, impossible⟩ := Option.map_eq_some_iff.mp isStop
        cases impossible
      · next opened => simpa using opened
    · have sorted := @strict_datedVersions library rule
      rw [cut] at sorted otherMember
      rcases List.mem_append.mp otherMember with earlier | same
      · exact ((List.pairwise_append.mp sorted).2.2 other earlier _ List.mem_cons_self).le
      · rw [List.mem_singleton.mp same]

/-- A version that starts with the last one and has an end says so itself. -/
theorem closed_of_sameStart (member : effective ∈ ruleEffectiveIntervals library rule)
    (isStop : effective.stop = some stop)
    (latest : ∀ version ∈ datedVersions library rule, version.key ≤ last.key)
    (sameStart : effective.start = last.start) :
    isOpenEnded effective.version = false ∧
      readDate library (Yaml.value effective.version "effective_to") = some stop ∧
      effective.start ≤ stop := by
  obtain ⟨before, version, after, cut, found⟩ := mem_closeVersions.mp member
  obtain ⟨rfl, given, valid⟩ := effectiveVersion_eq_some_iff.mp found
  rw [isStop] at given
  unfold effectiveStop at given
  split at given
  · next closed =>
      obtain ⟨read, isRead, same⟩ := Option.map_eq_some_iff.mp given
      rw [Option.some.inj same] at isRead
      exact ⟨by simpa using closed, isRead, valid stop isStop⟩
  · -- the next version starts later than the last one
    cases after with
    | nil => cases given
    | cons next after =>
      dsimp only [List.head?_cons] at given
      split at given
      · cases given
      · next later =>
          have nextMember : next ∈ datedVersions library rule := by
            rw [cut]
            simp
          have := start_le_of_key_le (latest next nextMember)
          rw [← sameStart] at this
          exact absurd this later

theorem cannotCompare_intervalsOf_iff :
    (∃ a ∈ intervalsOf library rule, ∃ b ∈ intervalsOf library rule, cannotCompare a b = true) ↔
      ∃ last other, IsOpenTwin library rule last other := by
  constructor
  · rintro ⟨_, first, _, second, twins⟩
    obtain ⟨a, here, rfl⟩ := List.mem_map.mp first
    obtain ⟨b, there, rfl⟩ := List.mem_map.mp second
    obtain ⟨sameStart, isNone, stop, isStop⟩ := cannotCompare_iff.mp twins
    obtain ⟨opened, latest⟩ := last_of_stop_none here isNone
    obtain ⟨closed, read, valid⟩ := closed_of_sameStart there isStop latest sameStart.symm
    refine ⟨a.toDatedVersion, b.toDatedVersion, ?_, ?_, latest, opened, sameStart.symm, closed,
      stop, read, valid⟩
    · exact (sublist_closeVersions _).subset (List.mem_map_of_mem here)
    · exact (sublist_closeVersions _).subset (List.mem_map_of_mem there)
  · rintro ⟨last, other, twin⟩
    obtain ⟨stop, read, valid⟩ := twin.ends
    have lastHere : (⟨last, none⟩ : EffectiveVersion) ∈ ruleEffectiveIntervals library rule := by
      obtain ⟨before, after, cut⟩ := List.append_of_mem twin.last_mem
      refine mem_closeVersions.mpr ⟨before, last, after, cut, ?_⟩
      have noneAfter : after = [] := by
        by_contra some_
        obtain ⟨next, after, rfl⟩ := List.exists_cons_of_ne_nil some_
        have sorted := @strict_datedVersions library rule
        have latest := twin.latest next (by rw [cut]; simp)
        rw [cut] at sorted
        have later := (List.pairwise_cons.mp (List.pairwise_append.mp sorted).2.1).1 next
          List.mem_cons_self
        exact absurd latest (not_le_of_gt later)
      rw [effectiveVersion_eq_some_iff, noneAfter]
      refine ⟨rfl, ?_, nofun⟩
      unfold effectiveStop
      rw [twin.openEnded]
      rfl
    have otherHere : (⟨other, some stop⟩ : EffectiveVersion) ∈
        ruleEffectiveIntervals library rule := by
      obtain ⟨before, after, cut⟩ := List.append_of_mem twin.other_mem
      refine mem_closeVersions.mpr ⟨before, other, after, cut, ?_⟩
      rw [effectiveVersion_eq_some_iff]
      refine ⟨rfl, ?_, ?_⟩
      · unfold effectiveStop
        rw [twin.closed, read]
        rfl
      · rintro _ ⟨⟩
        exact valid
    exact ⟨_, List.mem_map_of_mem lastHere, _, List.mem_map_of_mem otherHere,
      cannotCompare_iff.mpr ⟨twin.sameStart.symm, rfl, stop, rfl⟩⟩

theorem sortIntervals_eq_some_iff {sorted : List Interval} :
    sortIntervals (intervalsOf library rule) = some sorted ↔
      (¬ ∃ last other, IsOpenTwin library rule last other) ∧
        sorted = (intervalsOf library rule).insertionSort fun a b => a.key ≤ b.key := by
  rw [← cannotCompare_intervalsOf_iff, sortIntervals]
  simp only [List.any_eq_true]
  split
  · next twins => exact iff_of_false (nomatch ·) fun both => both.1 twins
  · next none_ =>
      rw [and_iff_right none_]
      exact ⟨fun same => (Option.some.inj same).symm, fun same => congrArg some same.symm⟩

/-- An interval without an end starts last. -/
theorem start_le_of_stop_none (ordered : InOrder intervals) {a : Interval} (here : a ∈ intervals)
    (there : b ∈ intervals) (isNone : a.stop = none) :
    b.start ≤ a.start := by
  have forward : intervals.Pairwise fun a b => a.stop = none → b.start ≤ a.start := by
    refine ordered.imp fun before isNone => ?_
    rw [isNone] at before
    cases before.2
  have backward : intervals.Pairwise fun a b => b.stop = none → a.start ≤ b.start :=
    ordered.imp fun before _ => before.1
  exact List.Pairwise.forall_of_forall_of_flip (fun _ _ _ => le_refl _) forward backward here there
    isNone

/-- Sorting keeps the order by start, and the interval without an end last. -/
theorem inOrder_sorted (ordered : InOrder intervals) :
    InOrder (intervals.insertionSort fun a b => a.key ≤ b.key) := by
  have perm := List.perm_insertionSort (fun a b : Interval => a.key ≤ b.key) intervals
  have sorted := List.pairwise_insertionSort (fun a b : Interval => a.key ≤ b.key) intervals
  -- of two intervals one has an end, in either order
  have oneEnds : intervals.Pairwise fun a b => a.stop.isSome = true ∨ b.stop.isSome = true :=
    ordered.imp fun both => .inl both.2
  have oneEnds' := (perm.pairwise_iff fun either => either.symm).mpr oneEnds
  refine (List.Pairwise.and_mem.mp (sorted.and oneEnds')).imp ?_
  rintro a b ⟨aMember, bMember, before, ends⟩
  have starts : a.start ≤ b.start := (Prod.Lex.le_iff.mp before).elim le_of_lt (·.1.le)
  refine ⟨starts, ?_⟩
  by_contra open_
  have isNone : a.stop = none := by simpa using open_
  -- the other one starts with it, and its end would come first
  have same : a.start = b.start := le_antisymm starts (start_le_of_stop_none ordered
    (perm.mem_iff.mp aMember) (perm.mem_iff.mp bMember) isNone)
  obtain ⟨stop, isStop⟩ := Option.isSome_iff_exists.mp (ends.resolve_left open_)
  rcases Prod.Lex.le_iff.mp before with earlier | ⟨-, stops⟩
  · exact absurd same earlier.ne
  · rw [Interval.key, Interval.key, isNone, isStop] at stops
    exact absurd stops (by simp)

/-! ## Rules by name -/

theorem keys_assign {α : Type} (mapping : ByName α) (name : Text) (value : α) :
    (assign mapping name value).map Prod.fst =
      if mapping.any (fun entry => entry.1 == name) then mapping.map Prod.fst
      else mapping.map Prod.fst ++ [name] := by
  unfold assign
  split
  · rw [List.map_map]
    refine List.map_congr_left fun entry _ => ?_
    simp only [Function.comp_apply]
    split
    · next same => exact (eq_of_beq same).symm
    · rfl
  · rw [List.map_append]
    rfl

theorem nodup_keys_assign {α : Type} {mapping : ByName α} {value : α}
    (nodup : (mapping.map Prod.fst).Nodup) : ((assign mapping name value).map Prod.fst).Nodup := by
  rw [keys_assign]
  split
  · exact nodup
  · next fresh =>
      refine List.nodup_append.mpr ⟨nodup, List.nodup_singleton name, ?_⟩
      rintro other listed _ isName rfl
      rw [List.mem_singleton] at isName
      obtain ⟨entry, member, rfl⟩ := List.mem_map.mp listed
      exact fresh (List.any_eq_true.mpr ⟨entry, member, by simp [isName]⟩)

/-- A name is given to one rule. -/
theorem nodup_localRules (content : Text) :
    ((localRules library content).map Prod.fst).Nodup := by
  unfold localRules
  generalize rawRules library content = raws
  suffices ∀ rules : ByName Yaml.Mapping, (rules.map Prod.fst).Nodup →
      ((raws.foldl (addRule library) rules).map Prod.fst).Nodup from this [] List.nodup_nil
  induction raws with
  | nil => exact fun rules nodup => nodup
  | cons raw raws ih =>
    intro rules nodup
    refine ih _ ?_
    unfold addRule
    split
    · dsimp only
      split
      · exact nodup
      · exact nodup_keys_assign nodup
    · exact nodup

theorem rule_unique {rule rule' : Yaml.Mapping} (here : (name, rule) ∈ localRules library content)
    (there : (name, rule') ∈ localRules library content) : rule = rule' :=
  (Prod.mk.inj (List.inj_on_of_nodup_map (nodup_localRules content) here there rfl)).2

/-! ## Coverage by rule -/

/-- A rule with intervals, under its name with the intervals sorted. -/
def sortedEntry (library : Library) (entry : Text × Yaml.Mapping) : Text × List Interval :=
  (entry.1, (intervalsOf library entry.2).insertionSort fun a b => a.key ≤ b.key)

theorem not_isEmpty_of_isOpenTwin {other : DatedVersion}
    (twin : IsOpenTwin library rule last other) : (intervalsOf library rule).isEmpty = false := by
  obtain ⟨a, here, -⟩ := cannotCompare_intervalsOf_iff.mpr ⟨last, other, twin⟩
  cases held : intervalsOf library rule with
  | nil =>
    rw [held] at here
    cases here
  | cons _ _ => rfl

theorem mapM_sortIntervals_iff {entries : ByName Yaml.Mapping} :
    (entries.mapM fun entry => (sortIntervals (intervalsOf library entry.2)).map fun sorted =>
        (entry.1, sorted)) = some coverage ↔
      (∀ entry ∈ entries, ¬ ∃ last other, IsOpenTwin library entry.2 last other) ∧
        coverage = entries.map (sortedEntry library) := by
  induction entries generalizing coverage with
  | nil => simp [eq_comm]
  | cons entry entries ih =>
    simp only [List.mapM_cons, Option.bind_eq_bind, Option.bind_eq_some_iff, Option.pure_def,
      Option.map_eq_some_iff, sortIntervals_eq_some_iff, ih, List.forall_mem_cons]
    constructor
    · rintro ⟨_, ⟨_, ⟨first, rfl⟩, rfl⟩, _, ⟨others, rfl⟩, made⟩
      exact ⟨⟨first, others⟩, (Option.some.inj made).symm⟩
    · rintro ⟨⟨first, others⟩, rfl⟩
      exact ⟨_, ⟨_, ⟨first, rfl⟩, rfl⟩, _, ⟨others, rfl⟩, rfl⟩

theorem coverageByRule_eq_some_iff :
    coverageByRule library rules = some coverage ↔
      (∀ entry ∈ rules, ¬ ∃ last other, IsOpenTwin library entry.2 last other) ∧
        coverage = (rules.filter fun entry => !(intervalsOf library entry.2).isEmpty).map
          (sortedEntry library) := by
  rw [coverageByRule, mapM_sortIntervals_iff]
  refine and_congr_left fun _ => ⟨fun free entry member => ?_, fun free entry member => ?_⟩
  · rintro ⟨last, other, twin⟩
    refine free entry (List.mem_filter.mpr ⟨member, ?_⟩) ⟨last, other, twin⟩
    rw [not_isEmpty_of_isOpenTwin twin]
    rfl
  · exact free entry (List.mem_filter.mp member).1

/-! ## Issues -/

/-- A version of a derived rule whose formula names a local rule with intervals. -/
structure Names (library : Library) (content name : Text) (version : EffectiveVersion)
    (dependency : Text) (target : Yaml.Mapping) : Prop where
  derived : ∃ rule, (name, rule) ∈ localRules library content ∧ isDerived library rule = true ∧
    version ∈ ruleEffectiveIntervals library rule
  formula : ∃ formula, Yaml.value version.version "formula" = .text formula ∧
    dependency ∈ formulaLocalIdentifiers library formula
  isLocal : (dependency, target) ∈ localRules library content
  dated : intervalsOf library target ≠ []

/-- Some day of the version lies in no interval of the rule. -/
def LeavesOut (library : Library) (counts : Day → Prop) (version : EffectiveVersion)
    (target : Yaml.Mapping) : Prop :=
  ∃ day, counts day ∧ version.interval.Has day ∧
    ∀ interval ∈ intervalsOf library target, ¬ interval.Has day

/-- The check ends, and reports exactly the versions that a named rule leaves out. -/
def ReportsExactly (library : Library) (counts : Day → Prop) (content : Text) : Prop :=
  ∃ issues, temporalCoverageIssues library content = some issues ∧
    ∀ name index dependency,
      (∃ issue ∈ issues, issue.rule = name ∧ issue.version.index = index ∧
        issue.dependency = dependency) ↔
      ∃ version target, Names library content name version dependency target ∧
        version.index = index ∧ LeavesOut library counts version target

/-- The sweep, for a version of the document. -/
theorem intervalIsCovered_eq_false_iff {counts : Day → Prop} (dates : ∀ date : Date, counts ↑date)
    (valid : ∀ stop ∈ version.stop, version.start ≤ stop) :
    intervalIsCovered version.start version.stop
        ((intervalsOf library target).insertionSort fun a b => a.key ≤ b.key) = false ↔
      LeavesOut library counts version target ∨
        version.stop = none ∧ ∃ interval ∈ intervalsOf library target,
          interval.stop = some Date.max := by
  rw [← Bool.not_eq_true, intervalIsCovered,
    isCoveredFrom_iff dates (inOrder_sorted inOrder_intervalsOf) valid, not_and_or]
  refine or_congr ?_ ?_
  · simp only [Covers, LeavesOut, Interval.Has, EffectiveVersion.interval,
      List.mem_insertionSort, not_forall, not_exists, not_and]
    constructor
    · rintro ⟨day, counted, after, within, out⟩
      exact ⟨day, counted, ⟨after, within⟩, out⟩
    · rintro ⟨day, counted, ⟨after, within⟩, out⟩
      exact ⟨day, counted, after, within, out⟩
  · simp only [AvoidsMax, List.mem_insertionSort, not_forall, not_not, exists_prop]

theorem valid_of_mem (member : version ∈ ruleEffectiveIntervals library rule) :
    ∀ stop ∈ version.stop, version.start ≤ stop := by
  obtain ⟨before, dated, after, -, found⟩ := mem_closeVersions.mp member
  obtain ⟨rfl, -, valid⟩ := effectiveVersion_eq_some_iff.mp found
  exact valid

/-- The issues of a version, against the rules that have intervals. -/
theorem mem_versionIssues :
    issue ∈ versionIssues library ((rules.filter fun entry =>
        !(intervalsOf library entry.2).isEmpty).map (sortedEntry library)) name version ↔
      ∃ target formula, Yaml.value version.version "formula" = .text formula ∧
        issue.dependency ∈ formulaLocalIdentifiers library formula ∧
        (issue.dependency, target) ∈ rules ∧ intervalsOf library target ≠ [] ∧
        intervalIsCovered version.start version.stop
          (sortedEntry library (issue.dependency, target)).2 = false ∧
        issue = ⟨name, version, issue.dependency,
          (sortedEntry library (issue.dependency, target)).2⟩ := by
  unfold versionIssues
  split
  · next formula held =>
      simp only [dependenciesOf, List.mem_map, List.mem_filter, List.mem_insertionSort,
        List.contains_iff_mem, Bool.not_eq_true', List.isEmpty_eq_false_iff]
      constructor
      · rintro ⟨_, ⟨⟨⟨⟨dependency, target⟩, ⟨member, dated⟩, rfl⟩, named⟩, gap⟩, rfl⟩
        exact ⟨target, formula, held, named, member, dated, gap, rfl⟩
      · rintro ⟨target, formula', held', named, member, dated, gap, made⟩
        rw [held] at held'
        obtain rfl := Yaml.text.inj held'
        exact ⟨_, ⟨⟨⟨(issue.dependency, target), ⟨member, dated⟩, rfl⟩, named⟩, gap⟩, made.symm⟩
  · next other =>
      refine iff_of_false (nomatch ·) ?_
      rintro ⟨-, formula, held, -⟩
      exact other formula held

/-- The issues, when the sorting does not raise. -/
theorem mem_temporalCoverageIssues (found : temporalCoverageIssues library content = some issues) :
    issue ∈ issues ↔ ∃ target, Names library content issue.rule issue.version issue.dependency
        target ∧ issue.available = (sortedEntry library (issue.dependency, target)).2 ∧
      intervalIsCovered issue.version.start issue.version.stop issue.available = false := by
  simp only [temporalCoverageIssues, Option.bind_eq_bind, Option.bind_eq_some_iff, Option.pure_def,
    Option.some.injEq, coverageByRule_eq_some_iff] at found
  obtain ⟨coverage, ⟨-, rfl⟩, rfl⟩ := found
  simp only [List.mem_flatMap, List.mem_filter, mem_versionIssues]
  constructor
  · rintro ⟨⟨name, rule⟩, ⟨member, derived⟩, version, inForce, target, formula, held, named, isLocal,
      dated, gap, made⟩
    rw [made]
    exact ⟨target, ⟨⟨rule, member, derived, inForce⟩, ⟨formula, held, named⟩, isLocal, dated⟩, rfl,
      gap⟩
  · rintro ⟨target, ⟨⟨rule, member, derived, inForce⟩, ⟨formula, held, named⟩, isLocal, dated⟩,
      available, gap⟩
    rw [available] at gap
    refine ⟨(issue.rule, rule), ⟨member, derived⟩, issue.version, inForce, target, formula, held,
      named, isLocal, dated, gap, ?_⟩
    rw [← available]

/-- A named version, with what tells it: its rule and its place. -/
theorem Names.version_unique {version' : EffectiveVersion} {target' : Yaml.Mapping}
    (names : Names library content name version dependency target)
    (names' : Names library content name version' dependency target')
    (same : version.index = version'.index) : version = version' ∧ target = target' := by
  obtain ⟨rule, member, -, inForce⟩ := names.derived
  obtain ⟨rule', member', -, inForce'⟩ := names'.derived
  obtain rfl := rule_unique member member'
  exact ⟨eq_of_index inForce inForce' same, rule_unique names.isLocal names'.isLocal⟩

theorem Names.valid (names : Names library content name version dependency target) :
    ∀ stop ∈ version.stop, version.start ≤ stop := by
  obtain ⟨rule, -, -, inForce⟩ := names.derived
  exact valid_of_mem inForce

/-- A named version is reported when the sweep finds a gap. -/
theorem exists_issue_iff (found : temporalCoverageIssues library content = some issues)
    {index : Nat} :
    (∃ issue ∈ issues, issue.rule = name ∧ issue.version.index = index ∧
        issue.dependency = dependency) ↔
      ∃ version target, Names library content name version dependency target ∧
        version.index = index ∧ intervalIsCovered version.start version.stop
          (sortedEntry library (dependency, target)).2 = false := by
  constructor
  · rintro ⟨issue, member, rfl, rfl, rfl⟩
    obtain ⟨target, names, available, gap⟩ := (mem_temporalCoverageIssues found).mp member
    rw [available] at gap
    exact ⟨issue.version, target, names, rfl, gap⟩
  · rintro ⟨version, target, names, rfl, gap⟩
    exact ⟨⟨name, version, dependency, _⟩, (mem_temporalCoverageIssues found).mpr
      ⟨target, names, rfl, gap⟩, rfl, rfl, rfl⟩

/-- **When coverage is reported exactly.**  The sorting raises exactly when some rule ends in
a version without an end that starts on one day with a version that has an end.  Otherwise
the only versions that are reported without a gap have no end and name a rule with an
interval that ends on `date.max`.  The days that count are all dates, with or without the
time after `date.max`. -/
theorem reportsExactly_iff (library : Library) (counts : Day → Prop)
    (dates : ∀ date : Date, counts ↑date) (content : Text) :
    ReportsExactly library counts content ↔
      (∀ entry ∈ localRules library content,
        ¬ ∃ last other, IsOpenTwin library entry.2 last other) ∧
      ∀ name version dependency target, Names library content name version dependency target →
        version.stop = none →
        (∃ interval ∈ intervalsOf library target, interval.stop = some Date.max) →
        LeavesOut library counts version target := by
  constructor
  · rintro ⟨issues, found, exact_⟩
    have free := found
    simp only [temporalCoverageIssues, Option.bind_eq_bind, Option.bind_eq_some_iff,
      coverageByRule_eq_some_iff] at free
    obtain ⟨_, ⟨free, -⟩, -⟩ := free
    refine ⟨free, fun name version dependency target names isNone reachesMax => ?_⟩
    have gap := (intervalIsCovered_eq_false_iff dates names.valid).mpr (.inr ⟨isNone, reachesMax⟩)
    obtain ⟨version', target', names', same, out⟩ := (exact_ name version.index dependency).mp
      ((exists_issue_iff found).mpr ⟨version, target, names, rfl, gap⟩)
    obtain ⟨rfl, rfl⟩ := names'.version_unique names same
    exact out
  · rintro ⟨free, noMax⟩
    obtain ⟨issues, found⟩ : ∃ issues, temporalCoverageIssues library content = some issues := by
      rw [temporalCoverageIssues, coverageByRule_eq_some_iff.mpr ⟨free, rfl⟩]
      exact ⟨_, rfl⟩
    refine ⟨issues, found, fun name index dependency => ?_⟩
    rw [exists_issue_iff found]
    refine exists_congr fun version => exists_congr fun target => and_congr_right fun names =>
      and_congr_right fun _ => ?_
    rw [sortedEntry, intervalIsCovered_eq_false_iff dates names.valid]
    refine ⟨fun either => either.elim id fun both => ?_, .inl⟩
    exact noMax name version dependency target names both.1 both.2

end

/-! ## Documents -/

/-- PyYAML has read this document. -/
def sampleLibrary (document : Yaml) : Library :=
  ⟨fun _ => some document, fun _ => [], Date.fromIsoFormat, isIdentifierChar⟩

def yamlText (text : String) : Yaml := .text text.toList

def sampleVersion (start : String) (stop : Option String) (formula : String) : Yaml :=
  .map ([(yamlText "effective_from", yamlText start), (yamlText "formula", yamlText formula)] ++
    (stop.map fun stop => (yamlText "effective_to", yamlText stop)).toList)

def sampleRule (name : String) (versions : List Yaml) : Yaml :=
  .map [(yamlText "name", yamlText name), (yamlText "kind", yamlText "derived"),
    (yamlText "versions", .seq versions)]

def sampleDocument (rules : List Yaml) : Yaml :=
  .map [(yamlText "format", yamlText "rulespec/v1"), (yamlText "rules", .seq rules)]

/-- A year, and from the same day on for good. -/
def twinDocument : Yaml :=
  sampleDocument [sampleRule "rate" [sampleVersion "2024-01-01" (some "2024-12-31") "1",
    sampleVersion "2024-01-01" none "2"]]

/-- Two versions of one start date, one of them without an end, and the sorting raises. -/
theorem equalStarts_raise :
    findLocalDependencyTemporalCoverageIssues (sampleLibrary twinDocument) [] = none ∧
      ¬ ReportsExactly (sampleLibrary twinDocument) (fun _ => True) [] := by
  have raises : temporalCoverageIssues (sampleLibrary twinDocument) [] = none := by
    rw [← Option.isNone_iff_eq_none]
    decide
  refine ⟨?_, ?_⟩
  · rw [findLocalDependencyTemporalCoverageIssues, raises]
    rfl
  · rintro ⟨issues, found, -⟩
    rw [raises] at found
    cases found

/-- A benefit from 2024 on, of a rate that is left open in 2025. -/
def gapDocument : Yaml :=
  sampleDocument [sampleRule "rate" [sampleVersion "2024-01-01" (some "2024-12-31") "1",
    sampleVersion "2026-01-01" none "2"],
    sampleRule "benefit" [sampleVersion "2024-01-01" none "rate * 2"]]

theorem reportsExactly_gap :
    ((temporalCoverageIssues (sampleLibrary gapDocument) []).map List.length) = some 1 ∧
      ReportsExactly (sampleLibrary gapDocument) (fun _ => True) [] := by
  refine ⟨by decide, ?_⟩
  refine (reportsExactly_iff (sampleLibrary gapDocument) (fun _ => True) (fun _ => trivial) []).mpr
    ⟨fun entry member => ?_, ?_⟩
  · rw [← cannotCompare_intervalsOf_iff]
    revert entry
    decide
  · rintro name version dependency target names - ⟨interval, member, reaches⟩
    have bounded : ∀ entry ∈ localRules (sampleLibrary gapDocument) [],
        ∀ interval ∈ intervalsOf (sampleLibrary gapDocument) entry.2,
          interval.stop ≠ some Date.max := by
      decide
    exact absurd reaches (bounded _ names.isLocal interval member)

end AxiomEncode.Validator
