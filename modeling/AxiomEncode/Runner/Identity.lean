/-
# Runner.Identity -- an evaluation runs under the identity it is recorded with

A launched item is to hold the digests and the citation path of the current
manifest candidate of its name, so that the record of its evaluation pairs the
manifest with the corpus source it was run on (`IsCurrent`).  The sync makes this so
for an item it refreshes, but it passes over a running item whose identity has
changed and over an item that shares its name with a later one; the stale
reconciliation then makes the first launchable under the identity it was started
with.

`Fits` is the condition on the queue before the sync, and `launches_current_iff` the
result: in every run, each launch is under the current identity iff each launched
item fitted.  Every other pass keeps the identity of an item (`identity_…`).
-/
import AxiomEncode.Runner.OneEval

namespace AxiomEncode.Runner

open Theory

set_option autoImplicit false

/-! ## Identities -/

/-- What an item says about its source. -/
structure Identity where
  name : Option Text
  manifest : Option Text
  corpusCitationPath : Option Text
  manifestSha256 : Option Text
  corpusSourceSha256 : Option (Option Text)

def QueueItem.identity (item : QueueItem) : Identity :=
  { name := item.name
    manifest := item.manifest
    corpusCitationPath := item.corpusCitationPath
    manifestSha256 := item.manifestSha256
    corpusSourceSha256 := item.corpusSourceSha256 }

/-- The digests and the citation path of a candidate, and its manifest's file under the
item's own path. -/
structure Identity.Matches (sources : Sources) (identity : Identity) (candidate : Candidate) : Prop where
  manifestSha256 : identity.manifestSha256 = sources.sha256File candidate.manifest
  corpusSourceSha256 : identity.corpusSourceSha256 = some (some candidate.corpusSourceSha256)
  corpusCitationPath : identity.corpusCitationPath = some candidate.corpusCitationPath
  manifestFile : (truthy identity.manifest).bind sources.sha256File =
    sources.sha256File candidate.manifest

/-- A launch is under the current identity: its name has a candidate, and for each
candidate of that name the item and the record hold its digests. -/
structure IsCurrent (sources : Sources) (launch : Launch) : Prop where
  listed : ∃ candidate ∈ sources.candidates, candidate.name = launch.name
  item : ∀ candidate ∈ sources.candidates, candidate.name = launch.name →
    launch.item.manifestSha256 = sources.sha256File candidate.manifest ∧
      launch.item.corpusSourceSha256 = some (some candidate.corpusSourceSha256) ∧
      launch.item.corpusCitationPath = some candidate.corpusCitationPath
  record : ∀ candidate ∈ sources.candidates, candidate.name = launch.name →
    ∃ record, launch.record = some record ∧
      record.manifestSha256 = sources.sha256File candidate.manifest ∧
      record.corpusSourceSha256 = some candidate.corpusSourceSha256

/-- Two candidates with one identity. -/
def Candidate.Same (sources : Sources) (first second : Candidate) : Prop :=
  sources.sha256File first.manifest = sources.sha256File second.manifest ∧
    first.corpusSourceSha256 = second.corpusSourceSha256 ∧
    first.corpusCitationPath = second.corpusCitationPath

/-- The candidates of a name have one identity. -/
def OneIdentity (sources : Sources) (name : Text) : Prop :=
  ∀ first ∈ sources.candidates, ∀ second ∈ sources.candidates,
    first.name = name → second.name = name → first.Same sources second

/-- The condition on the queue before a sync, for the item at a place.  Its name has
candidates, all of one identity; and an item that was in the queue is the last of its
name and not a running one whose identity has changed, or holds the identity already. -/
structure Fits (sources : Sources) (items : List QueueItem) (place : Nat) (name : Text) : Prop where
  listed : ∃ candidate ∈ sources.candidates, candidate.name = name
  same : OneIdentity sources name
  fresh : ∀ item, items[place]? = some item →
    (byName items name = some place ∧
      (item.status = .running → ∀ candidate ∈ sources.candidates, candidate.name = name →
        identityChanged sources item candidate = false)) ∨
    ∀ candidate ∈ sources.candidates, candidate.name = name →
      item.identity.Matches sources candidate

/-! ## The passes that keep the identity -/

section Passes

variable {sources : Sources} {allReady : Text → Bool} {now : Text} {item : QueueItem}
  {items : List QueueItem} {turn : Turn}

theorem identity_retire : (retire sources now item).identity = item.identity := by
  unfold retire
  split
  · split_ifs <;> rfl
  · rfl

theorem identity_reconcileReadyItem :
    (reconcileReadyItem allReady now item).identity = item.identity := by
  unfold reconcileReadyItem
  split_ifs <;> rfl

theorem identity_reconcileStaleItem :
    (reconcileStaleItem allReady now item).identity = item.identity := by
  unfold reconcileStaleItem
  split_ifs <;> rfl

theorem identity_started : (started turn item).identity = item.identity := rfl

/-- A pass over the items, as far as identities go. -/
theorem map_identity_map {pass : QueueItem → QueueItem}
    (keeps : ∀ item, (pass item).identity = item.identity) :
    (items.map pass).map QueueItem.identity = items.map QueueItem.identity := by
  rw [List.map_map]
  exact List.map_congr_left fun item _ => keeps item

theorem identities_reconcileStale {active : List Text} :
    (reconcileStaleRunningItems allReady now active items).map QueueItem.identity =
      items.map QueueItem.identity := by
  unfold reconcileStaleRunningItems
  split
  · rfl
  · exact map_identity_map fun _ => identity_reconcileStaleItem

end Passes

/-! ## The sync -/

section Sync

variable {sources : Sources} {item : QueueItem} {candidate other : Candidate}

theorem name_refresh : (refresh sources item candidate).name = item.name := by
  unfold refresh
  dsimp only
  split_ifs <;> rfl

variable {candidates : List Candidate}

theorem name_foldl_refresh : (candidates.foldl (refresh sources) item).name = item.name := by
  induction candidates generalizing item with
  | nil => rfl
  | cons candidate rest ih => exact ih.trans name_refresh

/-- A candidate is adopted unless the item is running under another identity. -/
theorem matches_refresh (free : ¬ (item.status = .running ∧
    identityChanged sources item candidate = true)) :
    (refresh sources item candidate).identity.Matches sources candidate := by
  have file : (truthy (some candidate.manifest)).bind sources.sha256File =
      sources.sha256File candidate.manifest := by
    simp [truthy, Option.filter, candidate.located]
  unfold refresh
  simp only [if_neg free]
  split_ifs <;> exact ⟨rfl, rfl, rfl, file⟩

theorem refresh_of_held (held : item.status = .running ∧
    identityChanged sources item candidate = true) : refresh sources item candidate = item := by
  unfold refresh
  simp only [if_pos held]

theorem Identity.Matches.congr {identity : Identity} (held : identity.Matches sources candidate)
    (same : candidate.Same sources other) : identity.Matches sources other := by
  obtain ⟨digest, source, path⟩ := same
  refine ⟨held.manifestSha256.trans digest, ?_, ?_, held.manifestFile.trans digest⟩
  · rw [held.corpusSourceSha256, source]
  · rw [held.corpusCitationPath, path]

theorem Identity.Matches.same {identity : Identity} (held : identity.Matches sources candidate)
    (held' : identity.Matches sources other) : candidate.Same sources other := by
  refine ⟨held.manifestSha256.symm.trans held'.manifestSha256, ?_, ?_⟩
  · have equal := held.corpusSourceSha256.symm.trans held'.corpusSourceSha256
    exact Option.some.inj (Option.some.inj equal)
  · exact Option.some.inj (held.corpusCitationPath.symm.trans held'.corpusCitationPath)

theorem identityChanged_congr (same : candidate.Same sources other) :
    identityChanged sources item candidate = identityChanged sources item other := by
  unfold identityChanged
  rw [same.1, same.2.1]

/-- An item that has the identity keeps it. -/
theorem Identity.Matches.refresh (held : item.identity.Matches sources candidate)
    (same : other.Same sources candidate) :
    (refresh sources item other).identity.Matches sources candidate := by
  by_cases passed : item.status = .running ∧ identityChanged sources item other = true
  · rw [refresh_of_held passed]
    exact held
  · exact (matches_refresh passed).congr same

theorem Identity.Matches.foldl (same : ∀ other ∈ candidates, other.Same sources candidate)
    (held : item.identity.Matches sources candidate) :
    (candidates.foldl (Runner.refresh sources) item).identity.Matches sources candidate := by
  induction candidates generalizing item with
  | nil => exact held
  | cons other rest ih =>
    rw [List.foldl_cons]
    exact ih (fun other later => same other (List.mem_cons_of_mem _ later))
      (held.refresh (same other List.mem_cons_self))

/-- Refreshed by candidates of one identity, an item has that identity iff it was free
to take it or had it before. -/
theorem matches_foldl_refresh (some_ : candidates ≠ [])
    (same : ∀ other ∈ candidates, other.Same sources candidate) :
    (candidates.foldl (refresh sources) item).identity.Matches sources candidate ↔
      (item.status = .running → identityChanged sources item candidate = false) ∨
        item.identity.Matches sources candidate := by
  by_cases held : item.status = .running ∧ identityChanged sources item candidate = true
  · have stays : candidates.foldl (refresh sources) item = item := by
      clear some_
      induction candidates with
      | nil => rfl
      | cons other rest ih =>
        have passed : item.status = .running ∧ identityChanged sources item other = true :=
          ⟨held.1, (identityChanged_congr (same other List.mem_cons_self)).trans held.2⟩
        rw [List.foldl_cons, refresh_of_held passed]
        exact ih fun other later => same other (List.mem_cons_of_mem _ later)
    rw [stays]
    simp [held.1, held.2]
  · have free : item.status = .running → identityChanged sources item candidate = false := by
      intro running
      cases changed : identityChanged sources item candidate with
      | false => rfl
      | true => exact absurd ⟨running, changed⟩ held
    refine iff_of_true ?_ (Or.inl free)
    cases candidates with
    | nil => exact absurd rfl some_
    | cons first rest =>
      have one := same first List.mem_cons_self
      rw [List.foldl_cons]
      refine Identity.Matches.foldl (fun other later => same other (List.mem_cons_of_mem _ later)) ?_
      refine (matches_refresh ?_).congr one
      rw [identityChanged_congr one]
      exact held

/-! ### The index of the sync -/

variable {items others : List QueueItem} {index : Text → Option Nat} {name : Text} {place : Nat}

theorem named_of_byName (found : byName items name = some place) :
    ∃ item, items[place]? = some item ∧ item.name = some name := by
  unfold byName at found
  obtain ⟨entry, last, rfl⟩ := Option.map_eq_some_iff.mp found
  obtain ⟨inside, named⟩ := List.mem_filter.mp (List.mem_of_getLast? last)
  exact ⟨entry.1, List.mem_zipIdx_iff_getElem?.mp inside, of_decide_eq_true named⟩

theorem length_syncCandidate : others.length ≤ (syncCandidate sources index others candidate).length := by
  unfold syncCandidate
  cases index candidate.name with
  | none => simp
  | some place => simp

theorem getElem?_syncCandidate (inside : place < others.length) :
    (syncCandidate sources index others candidate)[place]? =
      others[place]?.map fun item =>
        if index candidate.name = some place then refresh sources item candidate else item := by
  unfold syncCandidate
  cases index candidate.name with
  | none => simp [List.getElem?_append_left inside]
  | some found =>
    rw [List.getElem?_modify]
    by_cases here : found = place
    · simp [here]
    · simp [here]

/-- An item that was in the queue is refreshed by the candidates that the index sends
to its place. -/
theorem getElem?_foldl_sync (inside : place < others.length) :
    (candidates.foldl (syncCandidate sources index) others)[place]? =
      others[place]?.map fun item =>
        (candidates.filter fun candidate => index candidate.name = some place).foldl
          (refresh sources) item := by
  induction candidates generalizing others with
  | nil => simp
  | cons candidate rest ih =>
    rw [List.foldl_cons, ih (Nat.lt_of_lt_of_le inside length_syncCandidate),
      getElem?_syncCandidate inside, Option.map_map]
    congr 1
    funext item
    by_cases here : index candidate.name = some place
    · simp [here]
    · simp [here]

/-- An item behind the old queue was queued from a candidate. -/
theorem queuedFrom_of_foldl_sync {all : List Candidate} (size : Nat)
    (bounded : ∀ name place, index name = some place → place < size)
    (among : ∀ candidate ∈ candidates, candidate ∈ all) (long : size ≤ others.length)
    (added : ∀ place item, size ≤ place → others[place]? = some item →
      ∃ candidate ∈ all, item = queuedFrom sources candidate) (behind : size ≤ place)
    (held : (candidates.foldl (syncCandidate sources index) others)[place]? = some item) :
    ∃ candidate ∈ all, item = queuedFrom sources candidate := by
  induction candidates generalizing others with
  | nil => exact added place item behind held
  | cons candidate rest ih =>
    refine ih (fun other later => among other (List.mem_cons_of_mem _ later))
      (Nat.le_trans long length_syncCandidate) ?_ held
    intro place item behind held
    unfold syncCandidate at held
    cases found : index candidate.name with
    | none =>
      simp only [found, List.getElem?_append] at held
      split_ifs at held with old
      · exact added place item behind held
      · obtain ⟨last, rfl⟩ : place - others.length = 0 ∧ queuedFrom sources candidate = item := by
          rw [List.getElem?_singleton] at held
          split_ifs at held with last
          exact ⟨last, Option.some.inj held⟩
        exact ⟨candidate, among candidate List.mem_cons_self, rfl⟩
    | some touched =>
      have elsewhere : touched ≠ place := by
        have inside := bounded _ _ found
        omega
      simp only [found, List.getElem?_modify_ne _ _ elsewhere] at held
      exact added place item behind held

/-- What an item holds of every candidate of a name makes these one identity. -/
theorem same_of_matches {identity : Identity}
    (holds : ∀ candidate ∈ sources.candidates, candidate.name = name →
      identity.Matches sources candidate) : OneIdentity sources name :=
  fun first here second here' named named' =>
    (holds first here named).same (holds second here' named')

/-- The candidates sent to a place are of the name of the item there. -/
theorem name_of_sent (before : items[place]? = some item) (named : item.name = some name)
    {sent : Text} (found : byName items sent = some place) : sent = name := by
  obtain ⟨held, there, heldNamed⟩ := named_of_byName found
  rw [before, Option.some.injEq] at there
  rw [← there, named] at heldNamed
  exact (Option.some.inj heldNamed).symm

/-- The sync and an item that no later one shadows. -/
theorem matches_last_iff (before : items[place]? = some item) (last : byName items name = some place) :
    ((∃ candidate ∈ sources.candidates, candidate.name = name) ∧
      ∀ candidate ∈ sources.candidates, candidate.name = name →
        ((sources.candidates.filter fun candidate => candidate.name = name).foldl
          (refresh sources) item).identity.Matches sources candidate) ↔
      Fits sources items place name := by
  have refreshed : ∀ candidate ∈ sources.candidates, candidate.name = name →
      OneIdentity sources name →
      (((sources.candidates.filter fun candidate => candidate.name = name).foldl
        (refresh sources) item).identity.Matches sources candidate ↔
        (item.status = .running → identityChanged sources item candidate = false) ∨
          item.identity.Matches sources candidate) := by
    intro candidate here candidateNamed same
    apply matches_foldl_refresh
    · exact List.ne_nil_of_mem (List.mem_filter.mpr ⟨here, decide_eq_true candidateNamed⟩)
    · intro other there
      obtain ⟨there, otherNamed⟩ := List.mem_filter.mp there
      exact same other there candidate here (of_decide_eq_true otherNamed) candidateNamed
  constructor
  · rintro ⟨⟨candidate, here, candidateNamed⟩, holds⟩
    have same := same_of_matches holds
    refine ⟨⟨candidate, here, candidateNamed⟩, same, fun held there => ?_⟩
    rw [before, Option.some.injEq] at there
    subst there
    rcases (refreshed candidate here candidateNamed same).mp (holds candidate here candidateNamed) with
      free | already
    · exact Or.inl ⟨last, fun running other there otherNamed =>
        (identityChanged_congr (same other there candidate here otherNamed candidateNamed)).trans
          (free running)⟩
    · exact Or.inr fun other there otherNamed =>
        already.congr (same candidate here other there candidateNamed otherNamed)
  · intro fits
    refine ⟨fits.listed, fun candidate here candidateNamed => ?_⟩
    apply (refreshed candidate here candidateNamed fits.same).mpr
    rcases fits.fresh item before with ⟨-, free⟩ | already
    · exact Or.inl fun running => free running candidate here candidateNamed
    · exact Or.inr (already candidate here candidateNamed)

/-- The sync and an item that a later one of its name shadows. -/
theorem matches_shadowed_iff (before : items[place]? = some item)
    (shadowed : byName items name ≠ some place) :
    ((∃ candidate ∈ sources.candidates, candidate.name = name) ∧
      ∀ candidate ∈ sources.candidates, candidate.name = name →
        item.identity.Matches sources candidate) ↔ Fits sources items place name := by
  constructor
  · rintro ⟨listed, holds⟩
    refine ⟨listed, same_of_matches holds, fun held there => ?_⟩
    rw [before, Option.some.injEq] at there
    subst there
    exact Or.inr holds
  · intro fits
    refine ⟨fits.listed, ?_⟩
    rcases fits.fresh item before with ⟨last, -⟩ | already
    · exact absurd last shadowed
    · exact already

/-- The sync and an item it queued itself. -/
theorem matches_queued_iff (behind : items.length ≤ place)
    (here : candidate ∈ sources.candidates) (named : candidate.name = name) :
    ((∃ candidate ∈ sources.candidates, candidate.name = name) ∧
      ∀ other ∈ sources.candidates, other.name = name →
        (queuedFrom sources candidate).identity.Matches sources other) ↔
      Fits sources items place name := by
  have own : (queuedFrom sources candidate).identity.Matches sources candidate :=
    ⟨rfl, rfl, rfl, by
      simp [queuedFrom, QueueItem.identity, truthy, Option.filter, candidate.located]⟩
  constructor
  · rintro ⟨listed, holds⟩
    refine ⟨listed, same_of_matches holds, fun item there => ?_⟩
    have inside := (List.getElem?_eq_some_iff.mp there).1
    omega
  · intro fits
    refine ⟨fits.listed, fun other there otherNamed => ?_⟩
    exact own.congr (fits.same candidate here other there named otherNamed)

/-- **The sync** leaves an item with the identity of every candidate of its name iff it
fitted. -/
theorem matches_synced_iff
    (held : (sources.candidates.foldl (syncCandidate sources (byName items)) items)[place]? = some item)
    (named : item.name = some name) :
    ((∃ candidate ∈ sources.candidates, candidate.name = name) ∧
      ∀ candidate ∈ sources.candidates, candidate.name = name →
        item.identity.Matches sources candidate) ↔ Fits sources items place name := by
  rcases Nat.lt_or_ge place items.length with inside | behind
  · rw [getElem?_foldl_sync inside] at held
    obtain ⟨old, before, rfl⟩ := Option.map_eq_some_iff.mp held
    rw [name_foldl_refresh] at named
    by_cases last : byName items name = some place
    · have sent : (sources.candidates.filter fun candidate =>
          byName items candidate.name = some place) =
          sources.candidates.filter fun candidate => candidate.name = name := by
        refine List.filter_congr fun candidate _ => decide_eq_decide.mpr ⟨?_, ?_⟩
        · exact name_of_sent before named
        · rintro rfl
          exact last
      rw [sent]
      exact matches_last_iff before last
    · have unsent : (sources.candidates.filter fun candidate =>
          byName items candidate.name = some place) = [] := by
        refine List.filter_eq_nil_iff.mpr fun candidate _ found => last ?_
        have found := of_decide_eq_true found
        rwa [name_of_sent before named found] at found
      rw [unsent]
      exact matches_shadowed_iff before last
  · obtain ⟨origin, here, rfl⟩ := queuedFrom_of_foldl_sync items.length
      (fun name place found => by
        obtain ⟨item, there, -⟩ := named_of_byName found
        exact (List.getElem?_eq_some_iff.mp there).1)
      (fun _ here => here) (Nat.le_refl _)
      (fun place item behind held => by
        have inside := (List.getElem?_eq_some_iff.mp held).1
        omega)
      behind held
    exact matches_queued_iff behind here (Option.some.inj named)

end Sync

/-! ## Launches -/

section Launches

variable {host : Host} {turn : Turn} {turns : List Turn} {state : State} {launch : Launch}
  {iteration : Iteration} {before : List QueueItem}

/-- What a launch says about the queue it was made from. -/
theorem launchNext_launches (launches : (launchNext host turn state).1.launch? = some launch) :
    ∃ item, state.items[launch.place]? = some item ∧ item.name = some launch.name ∧
      launch.item.identity = item.identity ∧
      launch.record = buildRunRecord host turn.sources (finished turn (started turn item))
        (classifyStatus turn.outcome).1 (classifyStatus turn.outcome).2 turn.outcome.archivePath
        false := by
  unfold launchNext at launches
  split at launches
  · exact nomatch launches
  · split at launches
    · exact nomatch launches
    · rename_i place _ item held
      split at launches
      · rename_i name manifest named located
        obtain rfl := Option.some.inj launches
        exact ⟨item, held, named, identity_started, rfl⟩
      · exact nomatch launches

/-- A launch is current iff the item it was made from has the candidates' identity. -/
theorem isCurrent_iff {item : QueueItem} (kept : launch.item.identity = item.identity)
    (built : launch.record = buildRunRecord host turn.sources (finished turn (started turn item))
        (classifyStatus turn.outcome).1 (classifyStatus turn.outcome).2 turn.outcome.archivePath
        false) :
    IsCurrent turn.sources launch ↔
      (∃ candidate ∈ turn.sources.candidates, candidate.name = launch.name) ∧
        ∀ candidate ∈ turn.sources.candidates, candidate.name = launch.name →
          item.identity.Matches turn.sources candidate := by
  constructor
  · intro current
    refine ⟨current.listed, fun candidate here named => ?_⟩
    obtain ⟨digest, source, path⟩ := current.item candidate here named
    obtain ⟨record, made, recorded, -⟩ := current.record candidate here named
    rw [built, buildRunRecord] at made
    obtain ⟨_, -, rfl⟩ := Option.map_eq_some_iff.mp made
    rw [← kept]
    refine ⟨digest, source, path, ?_⟩
    rw [kept]
    exact recorded
  · rintro ⟨listed, holds⟩
    refine ⟨listed, fun candidate here named => ?_, fun candidate here named => ?_⟩
    · have held := holds candidate here named
      rw [← kept] at held
      exact ⟨held.manifestSha256, held.corpusSourceSha256, held.corpusCitationPath⟩
    · have held := holds candidate here named
      have source : (finished turn (started turn item)).corpusSourceSha256 =
          some (some candidate.corpusSourceSha256) := held.corpusSourceSha256
      rw [buildRunRecord, source, Option.map_some] at built
      exact ⟨_, built, held.manifestFile, rfl⟩

theorem identities_sync {sources : Sources} {now : Text} {items : List QueueItem} :
    (syncQueueWithManifests sources now items).map QueueItem.identity =
      (sources.candidates.foldl (syncCandidate sources (byName items)) items).map
        QueueItem.identity :=
  map_identity_map fun _ => identity_retire

theorem items_appendRunRecord {record : RunRecord} :
    (appendRunRecord state record).items = state.items := by
  unfold appendRunRecord
  split <;> rfl

variable {next : State}

theorem items_backfillItem {sources : Sources} {item : QueueItem}
    (filled : backfillItem host sources state item = some next) : next.items = state.items := by
  unfold backfillItem at filled
  split_ifs at filled
  · rw [Option.some.inj filled]
  · rw [Option.some.inj filled]
  · obtain ⟨record, -, rfl⟩ := Option.map_eq_some_iff.mp filled
    exact items_appendRunRecord

theorem items_foldlM_backfill {sources : Sources} {items : List QueueItem}
    (filled : items.foldlM (backfillItem host sources) state = some next) :
    next.items = state.items := by
  induction items generalizing state with
  | nil => rw [Option.some.inj filled]
  | cons item rest ih =>
    rw [List.foldlM_cons] at filled
    obtain ⟨middle, first, later⟩ := Option.bind_eq_some_iff.mp filled
    exact (ih later).trans (items_backfillItem first)

/-- An iteration that launches has found no process and launches from the reconciled
queue. -/
theorem launch_of_iterate (launches : (iterate host turn before state).1.ending.launch? = some launch) :
    (launchNext host turn { state with
      items := reconcileStaleRunningItems turn.allReady turn.now
        (findActiveEvalProcesses turn.stdout) state.items }).1.launch? = some launch := by
  by_cases busy : findActiveEvalProcesses turn.stdout ≠ []
  · rw [(iterate_waits busy).2] at launches
    exact nomatch launches
  · unfold iterate at launches
    simpa only [if_neg busy] using launches

/-- **One iteration**: its launch is current iff the launched item fitted. -/
theorem current_iff_fits
    (synced : state.items.map QueueItem.identity =
      (turn.sources.candidates.foldl (syncCandidate turn.sources (byName before)) before).map
        QueueItem.identity)
    (launches : (iterate host turn before state).1.ending.launch? = some launch) :
    IsCurrent turn.sources launch ↔ Fits turn.sources before launch.place launch.name := by
  obtain ⟨item, held, named, kept, built⟩ := launchNext_launches (launch_of_iterate launches)
  -- the item the sync left at the place of the launch
  have place : ((turn.sources.candidates.foldl (syncCandidate turn.sources (byName before))
      before).map QueueItem.identity)[launch.place]? = some item.identity := by
    rw [← synced, ← identities_reconcileStale, List.getElem?_map, held, Option.map_some]
  rw [List.getElem?_map] at place
  obtain ⟨left, there, same⟩ := Option.map_eq_some_iff.mp place
  have leftNamed : left.name = some launch.name := (congrArg Identity.name same).trans named
  rw [isCurrent_iff kept built, ← same]
  exact matches_synced_iff there leftNamed

/-- **A run of the queue runner** launches every item under the current identity of its
name iff every launched item fitted. -/
theorem launches_current_iff (host : Host) (state : State) (turns : List Turn) :
    (∀ iteration ∈ processQueue host state turns, ∀ launch,
      iteration.ending.launch? = some launch → IsCurrent iteration.turn.sources launch) ↔
      ∀ iteration ∈ processQueue host state turns, ∀ launch,
        iteration.ending.launch? = some launch →
          Fits iteration.turn.sources iteration.before launch.place launch.name := by
  have each : ∀ iteration ∈ processQueue host state turns, ∀ launch,
      iteration.ending.launch? = some launch →
        (IsCurrent iteration.turn.sources launch ↔
          Fits iteration.turn.sources iteration.before launch.place launch.name) := by
    refine forall_processQueue (fun turn state filled backfilled launch => ?_)
      fun turn state launch => current_iff_fits identities_sync
    apply current_iff_fits
    rw [items_foldlM_backfill backfilled]
    exact (map_identity_map fun _ => identity_reconcileReadyItem).trans identities_sync
  constructor
  · intro current iteration here launch launches
    exact (each iteration here launch launches).mp (current iteration here launch launches)
  · intro fits iteration here launch launches
    exact (each iteration here launch launches).mpr (fits iteration here launch launches)

end Launches

/-! ## An orphaned evaluation -/

/-- One manifest, whose corpus source has the digest `new`. -/
def currentSources : Sources :=
  { candidates := [⟨['s'], ['m'], ['u', 's'], "new".toList, by decide, by decide⟩]
    sha256File := fun _ => some "manifest".toList
    fileExists := fun _ => true }

/-- Left in `running` by a runner that stopped, when the source had the digest `old`. -/
def orphanedQueue : List QueueItem :=
  [{ name := some ['s'], status := .running, manifest := some ['m']
     corpusCitationPath := some ['u', 's'], manifestSha256 := some "manifest".toList
     corpusSourceSha256 := some (some "old".toList), sourceTrackingVersion := some 2
     startedAt := none, finishedAt := none, outputDir := none, archivePath := none
     note := none }]

def orphanedTurn : Turn := { sampleTurn with sources := currentSources, stdout := [] }

/-- **An orphaned item is launched under its old source**, and recorded so. -/
theorem orphan_launched_stale :
    ∃ iteration ∈ processQueue sampleHost ⟨orphanedQueue, [], []⟩ [orphanedTurn],
      ∃ launch, iteration.ending.launch? = some launch ∧
        launch.record.map (fun record => (record.manifestSha256, record.corpusSourceSha256)) =
          some (some "manifest".toList, some "old".toList) ∧
        ¬ IsCurrent iteration.turn.sources launch := by
  obtain ⟨iteration, here, turn, launch, launches, name, record⟩ :
      ∃ iteration ∈ processQueue sampleHost ⟨orphanedQueue, [], []⟩ [orphanedTurn],
        iteration.turn = orphanedTurn ∧ ∃ launch, iteration.ending.launch? = some launch ∧
          launch.name = ['s'] ∧
          launch.record.map (fun record => (record.manifestSha256, record.corpusSourceSha256)) =
            some (some "manifest".toList, some "old".toList) :=
    ⟨_, List.mem_cons_self, rfl, _, rfl, by decide, by decide +kernel⟩
  refine ⟨iteration, here, launch, launches, record, fun current => ?_⟩
  rw [turn] at current
  obtain ⟨built, made, -, source⟩ := current.record _ List.mem_cons_self name.symm
  rw [made, Option.map_some] at record
  have recorded : some "new".toList = some "old".toList :=
    source.symm.trans (congrArg Prod.snd (Option.some.inj record))
  exact absurd recorded (by decide)

end AxiomEncode.Runner
