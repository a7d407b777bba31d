/-
# ProofEvidence.NumericParentsSpec -- the blocks of numeric parents are disjoint

Starts of events are distinct and increase.  A scan ends at a record separator, so a block holds none.  A
parent at the smallest indentation of its record ends the scan of every earlier one, so blocks of two
parents never meet.
-/
import AxiomEncode.ProofEvidence.NumericParents

namespace AxiomEncode.ProofEvidence.NumericParents

open Theory

set_option autoImplicit false

/-! ## Headers -/

theorem isDecimal_alpha {c : Char} (lower : 'a' ≤ c) (upper : c ≤ 'z') : isDecimal c = false := by
  have low : 97 ≤ c.toNat := lower
  have high : c.toNat ≤ 122 := upper
  have gap : ∀ start ∈ decimalZeros, start + 10 ≤ 97 ∨ 122 < start := by decide
  have missing : decimalZeros.find? (fun start => start ≤ c.toNat && c.toNat < start + 10) = none := by
    apply List.find?_eq_none.mpr
    intro start member
    have := gap start member
    simp only [Bool.and_eq_true, decide_eq_true_eq]
    omega
  simp [isDecimal, digit?, missing]

variable {markerOf : Text → Option (Text × Text)} {line : Text} {kind : EventKind} {event : Event}
  {index length parentIndent : Nat} {allowed : List Text} {events : List Event} {scan : Scan}
  {sequence : List (Char × Nat)} {collected : Collected}

/-- A header stands behind its blanks. -/
theorem headerOf_some {found : Text × Nat} (header : headerOf markerOf line = some found) :
    ∃ body rest, line.dropWhile isBlank = '(' :: body ∧ markerOf body = some (found.1, rest) := by
  unfold headerOf at header
  split at header
  · split at header
    · split at header
      · obtain rfl := Option.some.inj header
        exact ⟨_, _, ‹_›, ‹_›⟩
      · cases header
    · cases header
  · cases header

/-- A header starts with a blank or a bracket, never inside a separator. -/
theorem headerOf_first {found : Text × Nat} (header : headerOf markerOf line = some found) :
    ∃ c rest, line = c :: rest ∧ c ∉ segmentSeparator := by
  obtain ⟨body, _, shape, _⟩ := headerOf_some header
  cases line with
  | nil => simp at shape
  | cons c rest =>
    refine ⟨c, rest, rfl, fun inside => ?_⟩
    simp only [segmentSeparator, List.mem_cons, List.not_mem_nil, or_false] at inside
    rcases inside with rfl | rfl | rfl <;> simp [isBlank] at shape

/-- A numeric header is no alpha header. -/
theorem headerOf_kind {numeric alpha : Text × Nat}
    (first : headerOf numericMarker line = some numeric) :
    headerOf alphaMarker line ≠ some alpha := by
  intro second
  obtain ⟨body, rest, shape, digits⟩ := headerOf_some first
  obtain ⟨body', rest', shape', letter⟩ := headerOf_some second
  obtain rfl : body = body' := by simpa using shape.symm.trans shape'
  cases body with
  | nil => simp [alphaMarker] at letter
  | cons c rest =>
    simp only [alphaMarker] at letter
    split at letter
    · rename_i range
      simp [numericMarker, isDecimal_alpha range.1 range.2] at digits
    · cases letter

theorem mem_headers {text : Text} (member : event ∈ headers markerOf kind text) :
    event.kind = kind ∧ headerOf markerOf (text.drop event.start) = some (event.marker, event.indent) := by
  obtain ⟨index, _, found⟩ := List.mem_filterMap.mp member
  split at found
  · obtain ⟨⟨marker, indent⟩, header, rfl⟩ := Option.map_eq_some_iff.mp found
    exact ⟨rfl, header⟩
  · cases found

theorem headers_start {text : Text}
    (found : (if startsLine text index then
      (headerOf markerOf (text.drop index)).map fun found => Event.mk index kind found.1 found.2
      else none) = some event) : event.start = index := by
  split at found
  · obtain ⟨_, _, rfl⟩ := Option.map_eq_some_iff.mp found
    rfl
  · cases found

theorem headers_pairwise (markerOf : Text → Option (Text × Text)) (kind : EventKind) (text : Text) :
    (headers markerOf kind text).Pairwise fun a b => a.start < b.start := by
  apply List.pairwise_filterMap.mpr
  apply List.pairwise_lt_range.imp
  intro first second order a found b found'
  rw [headers_start found, headers_start found']
  exact order

/-! ## Separators -/

theorem separatorAt_iff {text : Text} :
    separatorAt text index = true ↔
      text[index]? = some '\n' ∧ text[index + 1]? = some '\x1e' ∧ text[index + 2]? = some '\n' := by
  have first : text[index]? = (text.drop index)[0]? := by simp
  have second : text[index + 1]? = (text.drop index)[1]? := by simp
  have third : text[index + 2]? = (text.drop index)[2]? := by simp
  rw [separatorAt, first, second, third]
  match text.drop index with
  | [] => simp [segmentSeparator]
  | [_] => simp [segmentSeparator]
  | [_, _] => simp [segmentSeparator]
  | _ :: _ :: _ :: _ => simp [segmentSeparator, List.isPrefixOf, @eq_comm _ '\n', @eq_comm _ '\x1e']

/-- No character of a separator is the first of a header. -/
theorem separatorAt_outside {text : Text} {position : Nat} {c : Char}
    (separator : separatorAt text index = true) (there : text[position]? = some c)
    (other : c ∉ segmentSeparator) : position < index ∨ index + 3 ≤ position := by
  obtain ⟨first, second, third⟩ := separatorAt_iff.mp separator
  by_contra inside
  have cases : position = index ∨ position = index + 1 ∨ position = index + 2 := by omega
  apply other
  rcases cases with rfl | rfl | rfl
  · obtain rfl : '\n' = c := by simpa [first] using there
    decide
  · obtain rfl : '\x1e' = c := by simpa [second] using there
    decide
  · obtain rfl : '\n' = c := by simpa [third] using there
    decide

/-- What `separatorsFrom` finds at and behind an index. -/
structure Separators (text : Text) (index : Nat) (found : List Nat) : Prop where
  lower : ∀ start ∈ found, index ≤ start
  increasing : found.Pairwise (· < ·)
  separator : ∀ start ∈ found, separatorAt text start = true
  covered : ∀ start, index ≤ start → separatorAt text start = true →
    ∃ other ∈ found, other ≤ start ∧ start < other + 3

theorem separatorsFrom_spec (text : Text) (index : Nat) (rest : Text) (here : text.drop index = rest) :
    Separators text index (separatorsFrom index rest) := by
  induction index, rest using separatorsFrom.induct with
  | case1 index rest ih =>
    have later : text.drop (index + 3) = rest := by
      rw [← List.drop_drop, here]
      rfl
    have found := ih later
    have atIndex : separatorAt text index = true := by simp [separatorAt, here, segmentSeparator]
    rw [separatorsFrom]
    refine ⟨?_, List.pairwise_cons.mpr ⟨?_, found.increasing⟩, ?_, ?_⟩
    · intro start member
      rcases List.mem_cons.mp member with rfl | member
      · exact le_refl _
      · have := found.lower start member
        omega
    · intro start member
      have := found.lower start member
      omega
    · intro start member
      rcases List.mem_cons.mp member with rfl | member
      · exact atIndex
      · exact found.separator start member
    · intro start lower separator
      by_cases near : start < index + 3
      · exact ⟨index, by simp, lower, near⟩
      · obtain ⟨other, member, bounds⟩ := found.covered start (by omega) separator
        exact ⟨other, List.mem_cons_of_mem _ member, bounds⟩
  | case2 index c rest other ih =>
    have later : text.drop (index + 1) = rest := by
      rw [← List.drop_drop, here]
      rfl
    have found := ih later
    have notHere : ¬ separatorAt text index = true := by
      intro separator
      obtain ⟨tail, shape⟩ := List.isPrefixOf_iff_prefix.mp separator
      rw [here] at shape
      simp only [segmentSeparator, List.cons_append, List.nil_append, List.cons.injEq] at shape
      exact other _ shape.1.symm shape.2.symm
    rw [separatorsFrom]
    · refine ⟨?_, found.increasing, found.separator, ?_⟩
      · intro start member
        have := found.lower start member
        omega
      · intro start lower separator
        have distinct : start ≠ index := by
          rintro rfl
          exact notHere separator
        exact found.covered start (by omega) separator
    · exact other
  | case3 index =>
    rw [separatorsFrom]
    refine ⟨by simp, by simp, by simp, ?_⟩
    intro start lower separator
    have short : text.length ≤ start := (List.drop_eq_nil_iff.mp here).trans lower
    simp [separatorAt, List.drop_eq_nil_of_le short, segmentSeparator] at separator

theorem mem_boundaries {text : Text} (member : event ∈ boundaries text) :
    event.kind = .boundary ∧ separatorAt text event.start = true := by
  obtain ⟨start, found, rfl⟩ := List.mem_map.mp member
  exact ⟨rfl, (separatorsFrom_spec text 0 text rfl).separator start found⟩

/-! ## Events -/

theorem mem_eventsOf {text : Text} :
    event ∈ eventsOf text ↔ event ∈ headers numericMarker .numeric text ∨
      event ∈ headers alphaMarker .alpha text ∨ event ∈ boundaries text := by
  rw [eventsOf, List.mem_insertionSort, List.mem_append, List.mem_append, or_assoc]

/-- A header starts at a character that no separator has. -/
theorem eventsOf_first {text : Text} (member : event ∈ eventsOf text)
    (header : event.kind ≠ .boundary) :
    ∃ c, text[event.start]? = some c ∧ c ∉ segmentSeparator := by
  have firstOf {markerOf : Text → Option (Text × Text)} {found : Text × Nat}
      (header : headerOf markerOf (text.drop event.start) = some found) :
      ∃ c, text[event.start]? = some c ∧ c ∉ segmentSeparator := by
    obtain ⟨c, rest, shape, outside⟩ := headerOf_first header
    refine ⟨c, ?_, outside⟩
    have first : text[event.start]? = (text.drop event.start)[0]? := by simp
    simp [first, shape]
  rcases mem_eventsOf.mp member with numeric | alpha | boundary
  · exact firstOf (mem_headers numeric).2
  · exact firstOf (mem_headers alpha).2
  · exact absurd (mem_boundaries boundary).1 header

theorem eventsOf_separator {text : Text} (member : event ∈ eventsOf text)
    (boundary : event.kind = .boundary) : separatorAt text event.start = true := by
  rcases mem_eventsOf.mp member with numeric | alpha | found
  · simp [(mem_headers numeric).1] at boundary
  · simp [(mem_headers alpha).1] at boundary
  · exact (mem_boundaries found).2

/-- A separator is an event, or overlaps one before it. -/
theorem eventsOf_covers {text : Text} (separator : separatorAt text index = true) :
    ∃ event ∈ eventsOf text, event.kind = .boundary ∧ event.start ≤ index ∧ index < event.start + 3 := by
  obtain ⟨start, found, bounds⟩ := (separatorsFrom_spec text 0 text rfl).covered index (Nat.zero_le _) separator
  exact ⟨⟨start, .boundary, [], 0⟩, mem_eventsOf.mpr (.inr (.inr (List.mem_map.mpr ⟨start, found, rfl⟩))),
    rfl, bounds⟩

theorem eventsOf_pairwise (text : Text) : (eventsOf text).Pairwise fun a b => a.start < b.start := by
  have sorted : (eventsOf text).Pairwise fun a b => a.start ≤ b.start :=
    List.pairwise_insertionSort (fun a b : Event => a.start ≤ b.start) _
  have outside {header boundary : Event} (first : header ∈ eventsOf text) (kind : header.kind ≠ .boundary)
      (second : boundary ∈ boundaries text) : header.start ≠ boundary.start := by
    obtain ⟨c, there, other⟩ := eventsOf_first first kind
    have := separatorAt_outside (mem_boundaries second).2 there other
    omega
  have separate : (headers numericMarker .numeric text ++ headers alphaMarker .alpha text ++
      boundaries text).Pairwise fun a b => a.start ≠ b.start := by
    refine List.pairwise_append.mpr ⟨List.pairwise_append.mpr ⟨?_, ?_, ?_⟩, ?_, ?_⟩
    · exact (headers_pairwise _ _ _).imp Nat.ne_of_lt
    · exact (headers_pairwise _ _ _).imp Nat.ne_of_lt
    · intro numeric first alpha second same
      have letter := (mem_headers second).2
      rw [← same] at letter
      exact headerOf_kind (mem_headers first).2 letter
    · exact List.pairwise_map.mpr ((separatorsFrom_spec text 0 text rfl).increasing.imp Nat.ne_of_lt)
    · intro header first boundary second
      rcases List.mem_append.mp first with numeric | alpha
      · exact outside (mem_eventsOf.mpr (.inl numeric)) (by simp [(mem_headers numeric).1]) second
      · exact outside (mem_eventsOf.mpr (.inr (.inl alpha))) (by simp [(mem_headers alpha).1]) second
  have distinct : (eventsOf text).Pairwise fun a b => a.start ≠ b.start :=
    (List.perm_insertionSort (fun a b : Event => a.start ≤ b.start) _).symm.pairwise separate Ne.symm
  exact sorted.imp₂ (fun _ _ => Nat.lt_of_le_of_ne) distinct

theorem eventsOf_inj {text : Text} {a b : Event} (first : a ∈ eventsOf text) (second : b ∈ eventsOf text)
    (same : a.start = b.start) : a = b := by
  have sorted := eventsOf_pairwise text
  have forward : (eventsOf text).Pairwise fun a b => a.start = b.start → a = b :=
    sorted.imp fun order same => absurd same (Nat.ne_of_lt order)
  have backward : (eventsOf text).Pairwise (flip fun a b => a.start = b.start → a = b) :=
    sorted.imp fun order same => absurd same (Nat.ne_of_gt order)
  exact List.Pairwise.forall_of_forall_of_flip (fun _ _ _ => rfl) forward backward first second same

/-! ## The scan of a parent -/

/-- What the scan did with an event that it passed. -/
inductive Passed (scan next : Scan) (event : Event) : Prop where
  | skipped (sequence : next.sequence = scan.sequence) (expected : next.expected = scan.expected)
  | taken (child : Char) (indent : Option Nat) (appended : next = scan.append child event.start indent)
      (letter : scan.sequence = [] ∨ child.toNat = scan.expected)

/-- An event ends the scan, or is passed. -/
theorem scanFrom_cons {stop : Nat}
    (scanned : scanFrom length allowed parentIndent (event :: events) scan = some (sequence, stop)) :
    (sequence = scan.sequence ∧ stop = event.start) ∨
      (event.kind ≠ .boundary ∧ (event.kind = .numeric → parentIndent < event.indent)) ∧
        ∃ next, Passed scan next event ∧
          scanFrom length allowed parentIndent events next = some (sequence, stop) := by
  have ends {sequence' : List (Char × Nat)} {stop' : Nat}
      (same : some (sequence', stop') = some (sequence, stop)) : sequence = sequence' ∧ stop = stop' := by
    cases same
    exact ⟨rfl, rfl⟩
  rw [scanFrom] at scanned
  split at scanned
  · exact .inl (ends scanned)
  · rename_i numeric
    split at scanned
    · exact .inl (ends scanned)
    · rename_i deeper
      refine .inr ⟨⟨by simp [numeric], fun _ => ?_⟩, { scan with insideNestedNumeric := true },
        .skipped rfl rfl, scanned⟩
      exact Nat.lt_of_not_le fun shallow => deeper (.inr shallow)
  · rename_i alpha
    have kind : event.kind ≠ .boundary ∧ (event.kind = .numeric → parentIndent < event.indent) := by
      simp [alpha]
    dsimp only at scanned
    split at scanned
    · rename_i first
      exact .inr ⟨kind, _, .taken _ _ rfl (.inl first.1), scanned⟩
    · split at scanned
      · cases scanned
      · split at scanned
        · exact .inr ⟨kind, scan, .skipped rfl rfl, scanned⟩
        · split at scanned
          · rename_i letter
            cases direct : scan.directAlphaIndent with
            | none =>
              simp only [direct] at scanned
              split at scanned
              · cases scanned
              · exact .inr ⟨kind, _, .taken _ _ rfl (.inr letter), scanned⟩
            | some column =>
              simp only [direct] at scanned
              split at scanned
              · cases scanned
              · exact .inr ⟨kind, _, .taken _ _ rfl (.inr letter), scanned⟩
          · exact .inl (ends scanned)

/-- The letters of a scan rise, below the one that it expects. -/
structure Rising (scan : Scan) : Prop where
  letters : (scan.sequence.map Prod.fst).Pairwise (· < ·)
  expected : ∀ held ∈ scan.sequence, held.1.toNat < scan.expected

theorem Rising.passed {next : Scan} (rising : Rising scan) (passed : Passed scan next event) :
    Rising next := by
  cases passed with
  | skipped sequence expected => exact ⟨sequence ▸ rising.letters, sequence ▸ expected ▸ rising.expected⟩
  | taken child indent appended letter =>
    subst appended
    have below : ∀ held ∈ scan.sequence, held.1.toNat < child.toNat := by
      intro held member
      rcases letter with empty | letter
      · simp [empty] at member
      · exact letter ▸ rising.expected held member
    refine ⟨?_, ?_⟩
    · simp only [Scan.append, List.map_append, List.map_cons, List.map_nil]
      refine List.pairwise_append.mpr ⟨rising.letters, by simp, ?_⟩
      intro first member second last
      obtain ⟨held, found, rfl⟩ := List.mem_map.mp member
      obtain rfl := List.mem_singleton.mp last
      exact below held found
    · intro held member
      rcases List.mem_append.mp member with found | last
      · exact Nat.lt_succ_of_lt (below held found)
      · obtain rfl := List.mem_singleton.mp last
        exact Nat.lt_succ_self _

theorem scanFrom_rising {stop : Nat} (rising : Rising scan)
    (scanned : scanFrom length allowed parentIndent events scan = some (sequence, stop)) :
    (sequence.map Prod.fst).Pairwise (· < ·) := by
  induction events generalizing scan with
  | nil =>
    cases scanned
    exact rising.letters
  | cons event events ih =>
    rcases scanFrom_cons scanned with ⟨rfl, -⟩ | ⟨-, next, passed, scanned⟩
    · exact rising.letters
    · exact ih (rising.passed passed) scanned

/-- The events that a scan passed, and where it ended. -/
structure Extent (length parentIndent : Nat) (events : List Event) (stop : Nat) (passed rest : List Event) :
    Prop where
  events : events = passed ++ rest
  stop : stop = (rest.head?.map Event.start).getD length
  within : ∀ event ∈ passed, event.kind ≠ .boundary ∧ (event.kind = .numeric → parentIndent < event.indent)

theorem scanFrom_extent {stop : Nat}
    (scanned : scanFrom length allowed parentIndent events scan = some (sequence, stop)) :
    ∃ passed rest added, Extent length parentIndent events stop passed rest ∧
      sequence = scan.sequence ++ added ∧ (added.map Prod.snd).Sublist (passed.map Event.start) := by
  induction events generalizing scan with
  | nil =>
    cases scanned
    exact ⟨[], [], [], ⟨rfl, rfl, by simp⟩, by simp, by simp⟩
  | cons event events ih =>
    rcases scanFrom_cons scanned with ⟨rfl, rfl⟩ | ⟨kind, next, step, scanned⟩
    · exact ⟨[], event :: events, [], ⟨rfl, rfl, by simp⟩, by simp, by simp⟩
    · obtain ⟨passed, rest, added, extent, shape, starts⟩ := ih scanned
      have longer : Extent length parentIndent (event :: events) stop (event :: passed) rest := by
        refine ⟨by rw [extent.events, List.cons_append], extent.stop, ?_⟩
        intro other member
        rcases List.mem_cons.mp member with rfl | member
        · exact kind
        · exact extent.within other member
      cases step with
      | skipped same _ => exact ⟨event :: passed, rest, added, longer, same ▸ shape, starts.cons _⟩
      | taken child indent appended _ =>
        subst appended
        refine ⟨event :: passed, rest, (child, event.start) :: added, longer, ?_, starts.cons_cons _⟩
        simp [shape, Scan.append]

/-- The scan ends at or before every event that it did not pass. -/
theorem Extent.stop_le {stop : Nat} {passed rest : List Event}
    (extent : Extent length parentIndent events stop passed rest)
    (sorted : events.Pairwise fun a b => a.start < b.start) (member : event ∈ rest) :
    stop ≤ event.start := by
  have later := (List.pairwise_append.mp (extent.events ▸ sorted)).2.1
  rw [extent.stop]
  cases rest with
  | nil => cases member
  | cons first rest =>
    rcases List.mem_cons.mp member with rfl | member
    · exact le_refl _
    · exact Nat.le_of_lt ((List.pairwise_cons.mp later).1 event member)

theorem Extent.lt_stop {stop : Nat} {passed rest : List Event}
    (extent : Extent length parentIndent events stop passed rest)
    (sorted : events.Pairwise fun a b => a.start < b.start) (member : event ∈ passed)
    (bounded : event.start < length) : event.start < stop := by
  have across := (List.pairwise_append.mp (extent.events ▸ sorted)).2.2
  rw [extent.stop]
  cases rest with
  | nil => exact bounded
  | cons first rest => exact across event member first (by simp)

/-- A separator behind a parent is behind the end of its scan. -/
theorem Extent.separator {stop : Nat} {passed rest : List Event}
    (extent : Extent length parentIndent events stop passed rest)
    (sorted : events.Pairwise fun a b => a.start < b.start) (member : event ∈ events)
    (boundary : event.kind = .boundary) : stop ≤ event.start := by
  rcases List.mem_append.mp (extent.events ▸ member) with passed | later
  · exact absurd boundary (extent.within event passed).1
  · exact extent.stop_le sorted later

/-! ## The blocks of a parent -/

/-- A block ends before another, which has a later letter. -/
def Before (a b : Block) : Prop := a.child < b.child ∧ a.stop ≤ b.start

theorem blocksOf_cons (parent : Text) (allowed : List Text) (boundary : Nat) (child : Char) (start : Nat)
    (rest : List (Char × Nat)) :
    blocksOf parent allowed boundary ((child, start) :: rest) =
      if [child] ∈ allowed then
        ⟨parent, child, start, (rest.head?.map Prod.snd).getD boundary⟩ :: blocksOf parent allowed boundary rest
      else blocksOf parent allowed boundary rest := by
  cases rest <;> rfl

theorem blocksOf_spec (parent : Text) (allowed : List Text) {boundary : Nat}
    (letters : (sequence.map Prod.fst).Pairwise (· < ·))
    (starts : (sequence.map Prod.snd).Pairwise (· < ·))
    (bounded : ∀ held ∈ sequence, held.2 < boundary) :
    (∀ block ∈ blocksOf parent allowed boundary sequence, block.parent = parent ∧
      (block.child, block.start) ∈ sequence ∧ block.start < block.stop ∧ block.stop ≤ boundary) ∧
      (blocksOf parent allowed boundary sequence).Pairwise Before := by
  induction sequence with
  | nil => exact ⟨by simp [blocksOf], by simp [blocksOf]⟩
  | cons held rest ih =>
    obtain ⟨child, start⟩ := held
    simp only [List.map_cons, List.pairwise_cons] at letters starts
    obtain ⟨inside, apart⟩ := ih letters.2 starts.2 fun held member =>
      bounded held (List.mem_cons_of_mem _ member)
    obtain ⟨stop, isStop, after, within, before⟩ : ∃ stop, stop = (rest.head?.map Prod.snd).getD boundary ∧
        start < stop ∧ stop ≤ boundary ∧ ∀ held ∈ rest, stop ≤ held.2 := by
      refine ⟨_, rfl, ?_⟩
      cases rest with
      | nil => exact ⟨bounded (child, start) (by simp), le_refl _, by simp⟩
      | cons next rest =>
        refine ⟨starts.1 _ (by simp), Nat.le_of_lt (bounded next (by simp)), ?_⟩
        intro held member
        rcases List.mem_cons.mp member with rfl | member
        · exact le_refl _
        · exact Nat.le_of_lt ((List.pairwise_cons.mp starts.2).1 _ (List.mem_map_of_mem member))
    rw [blocksOf_cons, ← isStop]
    split
    · refine ⟨?_, List.pairwise_cons.mpr ⟨?_, apart⟩⟩
      · intro block member
        rcases List.mem_cons.mp member with rfl | member
        · exact ⟨rfl, by simp, after, within⟩
        · obtain ⟨same, found, order⟩ := inside block member
          exact ⟨same, List.mem_cons_of_mem _ found, order⟩
      · intro block member
        obtain ⟨_, found, _⟩ := inside block member
        exact ⟨letters.1 _ (List.mem_map_of_mem found), before _ found⟩
    · refine ⟨?_, apart⟩
      intro block member
      obtain ⟨same, found, order⟩ := inside block member
      exact ⟨same, List.mem_cons_of_mem _ found, order⟩

/-- An occurrence of a parent: its header between the events before it and those after it. -/
structure Occurrence where
  before : List Event
  header : Event
  after : List Event

def Occurrence.candidate (text : Text) (scope : Text → List Text) (occurrence : Occurrence) :
    Option (List Block) :=
  candidateOf text scope occurrence.before occurrence.header occurrence.after

/-- The numeric header of a cited parent, none of its record less indented. -/
structure Parent (text : Text) (scope : Text → List Text) (occurrence : Occurrence) : Prop where
  events : eventsOf text = occurrence.before ++ occurrence.header :: occurrence.after
  numeric : occurrence.header.kind = .numeric
  cited : scope occurrence.header.marker ≠ []
  smallest : ∀ other ∈ eventsOf text, isHeader other = true →
    recordStart text occurrence.header.start ≤ other.start →
    other.start < recordEnd text occurrence.header.start → occurrence.header.indent ≤ other.indent

theorem recordStart_cases (text : Text) (index : Nat) :
    recordStart text index = 0 ∨
      ∃ start, separatorAt text start = true ∧ recordStart text index = start + 3 ∧ start + 3 ≤ index := by
  unfold recordStart
  split
  · rename_i start found
    have member := List.mem_of_find?_eq_some found
    have bound : start < index - 2 := List.mem_range.mp (List.mem_reverse.mp member)
    exact .inr ⟨start, List.find?_some found, rfl, by omega⟩
  · exact .inl rfl

theorem recordEnd_cases (text : Text) (index : Nat) :
    recordEnd text index = text.length ∨
      ∃ stop, separatorAt text stop = true ∧ recordEnd text index = stop ∧ index ≤ stop := by
  unfold recordEnd
  cases found : ((List.range text.length).drop index).find? (separatorAt text) with
  | none => exact .inl rfl
  | some stop =>
    obtain ⟨offset, shorter, there⟩ := List.mem_iff_getElem.mp (List.mem_of_find?_eq_some found)
    rw [List.getElem_drop, List.getElem_range] at there
    exact .inr ⟨stop, List.find?_some found, rfl, by omega⟩

theorem eventsOf_bounded {text : Text} (member : event ∈ eventsOf text) :
    event.start < text.length := by
  have atStart : ∃ c, text[event.start]? = some c := by
    by_cases boundary : event.kind = .boundary
    · exact ⟨_, (separatorAt_iff.mp (eventsOf_separator member boundary)).1⟩
    · obtain ⟨c, there, _⟩ := eventsOf_first member boundary
      exact ⟨c, there⟩
  obtain ⟨c, there⟩ := atStart
  exact (List.getElem?_eq_some_iff.mp there).1

section parents
variable {text : Text} {scope : Text → List Text} {occurrence : Occurrence}

theorem Parent.member (parent : Parent text scope occurrence) : occurrence.header ∈ eventsOf text := by
  rw [parent.events]
  simp

theorem Parent.sorted (parent : Parent text scope occurrence) :
    occurrence.after.Pairwise fun a b => a.start < b.start := by
  have sorted := eventsOf_pairwise text
  rw [parent.events] at sorted
  exact (List.pairwise_cons.mp (List.pairwise_append.mp sorted).2.1).2

theorem Parent.mem_after (parent : Parent text scope occurrence) :
    event ∈ occurrence.after ↔ event ∈ eventsOf text ∧ occurrence.header.start < event.start := by
  have sorted := eventsOf_pairwise text
  rw [parent.events] at sorted ⊢
  obtain ⟨_, tail, across⟩ := List.pairwise_append.mp sorted
  refine ⟨fun member => ⟨by simp [member], (List.pairwise_cons.mp tail).1 event member⟩, ?_⟩
  rintro ⟨member, later⟩
  rcases List.mem_append.mp member with earlier | member
  · have := across event earlier occurrence.header (by simp)
    omega
  · rcases List.mem_cons.mp member with rfl | member
    · omega
    · exact member

/-- No separator overlaps the start of a parent. -/
theorem Parent.outside (parent : Parent text scope occurrence)
    (separator : separatorAt text index = true) :
    occurrence.header.start < index ∨ index + 3 ≤ occurrence.header.start := by
  obtain ⟨c, there, other⟩ := eventsOf_first parent.member (by simp [parent.numeric])
  exact separatorAt_outside separator there other

variable {passed rest : List Event} {stop : Nat}

section Within

variable (parent : Parent text scope occurrence)
  (extent : Extent text.length occurrence.header.indent occurrence.after stop passed rest)

include parent extent

/-- A scan ends at the first separator behind its parent. -/
theorem Parent.stop_le_separator (separator : separatorAt text index = true)
    (behind : occurrence.header.start ≤ index) :
    stop ≤ index := by
  obtain ⟨event, member, boundary, lower, near⟩ := eventsOf_covers separator
  have later : occurrence.header.start < event.start := by
    rcases parent.outside separator with first | first
    · rcases parent.outside (eventsOf_separator member boundary) with second | second <;> omega
    · omega
  exact (extent.separator parent.sorted (parent.mem_after.mpr ⟨member, later⟩) boundary).trans lower

theorem Parent.stop_le_length : stop ≤ text.length := by
  rw [extent.stop]
  cases rest with
  | nil => exact le_refl _
  | cons event rest =>
    have member : event ∈ occurrence.after := by
      rw [extent.events]
      simp
    exact Nat.le_of_lt (eventsOf_bounded (parent.mem_after.mp member).1)

theorem Parent.stop_le_recordEnd : stop ≤ recordEnd text occurrence.header.start := by
  rcases recordEnd_cases text occurrence.header.start with same | ⟨index, separator, same, behind⟩
  · exact same ▸ parent.stop_le_length extent
  · exact same ▸ parent.stop_le_separator extent separator behind

/-- The scan of a parent ends at or before every later parent: a parent that it passed is more indented,
in the same record. -/
theorem Parent.stop_le_parent {later : Occurrence} (second : Parent text scope later)
    (order : occurrence.header.start < later.header.start) : stop ≤ later.header.start := by
  have member := parent.mem_after.mpr ⟨second.member, order⟩
  rw [extent.events] at member
  rcases List.mem_append.mp member with inside | behind
  · exfalso
    have deeper := (extent.within _ inside).2 second.numeric
    have before : later.header.start < stop :=
      extent.lt_stop parent.sorted inside (eventsOf_bounded second.member)
    have sameStart : recordStart text later.header.start ≤ occurrence.header.start := by
      rcases recordStart_cases text later.header.start with same | ⟨index, separator, same, bound⟩
      · omega
      · rcases parent.outside separator with first | first
        · have := parent.stop_le_separator extent separator (Nat.le_of_lt first)
          omega
        · omega
    have sameEnd : occurrence.header.start < recordEnd text later.header.start := by
      rcases recordEnd_cases text later.header.start with same | ⟨index, _, same, bound⟩
      · have := eventsOf_bounded parent.member
        omega
      · omega
    have shallow := second.smallest _ parent.member (by simp [isHeader, parent.numeric]) sameStart sameEnd
    omega
  · exact extent.stop_le parent.sorted behind

end Within

/-- The blocks of a parent that is not ambiguous. -/
structure Candidate (text : Text) (occurrence : Occurrence) (stop : Nat) (blocks : List Block) : Prop where
  inside : ∀ block ∈ blocks, block.parent = occurrence.header.marker ∧
    occurrence.header.start < block.start ∧ block.start < block.stop ∧ block.stop ≤ stop
  ordered : blocks.Pairwise Before

theorem Parent.candidate (parent : Parent text scope occurrence) {blocks : List Block}
    (found : occurrence.candidate text scope = some blocks) :
    ∃ passed rest stop, Extent text.length occurrence.header.indent occurrence.after stop passed rest ∧
      Candidate text occurrence stop blocks := by
  unfold Occurrence.candidate candidateOf at found
  split at found
  · cases found
  · obtain ⟨found, _⟩ := Option.filter_eq_some_iff.mp found
    obtain ⟨⟨sequence, stop⟩, scanned, rfl⟩ := Option.map_eq_some_iff.mp found
    obtain ⟨passed, rest, added, extent, shape, sublist⟩ := scanFrom_extent scanned
    obtain rfl : sequence = added := shape
    have letters := scanFrom_rising ⟨by simp, by simp⟩ scanned
    have mem_passed : ∀ held ∈ sequence, ∃ event ∈ passed, event.start = held.2 := by
      intro held member
      exact List.mem_map.mp (sublist.subset (List.mem_map_of_mem member))
    have mem_after : ∀ event ∈ passed, event ∈ occurrence.after := by
      intro event member
      rw [extent.events]
      exact List.mem_append_left _ member
    have starts : (sequence.map Prod.snd).Pairwise (· < ·) := by
      have sorted := parent.sorted
      rw [extent.events] at sorted
      exact (List.pairwise_map.mpr (List.pairwise_append.mp sorted).1).sublist sublist
    have bounded : ∀ held ∈ sequence, held.2 < stop := by
      intro held member
      obtain ⟨event, inside, same⟩ := mem_passed held member
      have below := eventsOf_bounded (parent.mem_after.mp (mem_after event inside)).1
      exact same ▸ extent.lt_stop parent.sorted inside below
    obtain ⟨inside, ordered⟩ := blocksOf_spec occurrence.header.marker
      (scope occurrence.header.marker) letters starts bounded
    refine ⟨passed, rest, stop, extent, ?_, ordered⟩
    intro block member
    obtain ⟨same, held, order⟩ := inside block member
    obtain ⟨event, there, start⟩ := mem_passed _ held
    have behind := (parent.mem_after.mp (mem_after event there)).2
    rw [start] at behind
    exact ⟨same, behind, order⟩

end parents

/-! ## The loop over the parents -/

/-- The occurrences of parents among the events that remain. -/
def occurrencesIn (text : Text) (scope : Text → List Text) (events : List Event) :
    List Event → List Event → List Occurrence
  | _, [] => []
  | before, event :: after =>
    (if isParent text scope events event then [⟨before, event, after⟩] else []) ++
      occurrencesIn text scope events (before ++ [event]) after

def markedBy (marker : Text) (occurrence : Occurrence) : Bool := occurrence.header.marker = marker

/-- The loop counts the occurrences of each parent and keeps their candidates. -/
structure Tracks (text : Text) (scope : Text → List Text) (seen : List Occurrence) (collected : Collected) :
    Prop where
  counts : ∀ marker, collected.occurrences marker = (seen.filter (markedBy marker)).length
  keys : (collected.candidates.map Prod.fst).Nodup
  entries : ∀ entry ∈ collected.candidates,
    entry.2 = (seen.filter (markedBy entry.1)).filterMap (Occurrence.candidate text scope)
  complete : ∀ occurrence ∈ seen, occurrence.candidate text scope ≠ none →
    occurrence.header.marker ∈ collected.candidates.map Prod.fst

section loop
variable {text : Text} {scope : Text → List Text}
variable {seen : List Occurrence}

theorem Tracks.count (tracks : Tracks text scope seen collected) (occurrence : Occurrence)
    (marker : Text) :
    Function.update collected.occurrences occurrence.header.marker
        (collected.occurrences occurrence.header.marker + 1) marker =
      ((seen ++ [occurrence]).filter (markedBy marker)).length := by
  rw [List.filter_append, List.length_append, ← tracks.counts]
  by_cases same : occurrence.header.marker = marker
  · subst same
    simp [markedBy]
  · rw [Function.update_of_ne (Ne.symm same)]
    simp [markedBy, same]

/-- An occurrence without a candidate is only counted. -/
theorem Tracks.pass (tracks : Tracks text scope seen collected) {occurrence : Occurrence}
    (missing : occurrence.candidate text scope = none) :
    Tracks text scope (seen ++ [occurrence]) { collected with
      occurrences := Function.update collected.occurrences occurrence.header.marker
        (collected.occurrences occurrence.header.marker + 1) } := by
  refine ⟨tracks.count occurrence, tracks.keys, ?_, ?_⟩
  · intro entry member
    rw [tracks.entries entry member, List.filter_append, List.filterMap_append, List.filter_singleton]
    cases markedBy entry.1 occurrence <;> simp [missing]
  · intro other member found
    rcases List.mem_append.mp member with member | last
    · exact tracks.complete other member found
    · obtain rfl := List.mem_singleton.mp last
      exact absurd missing found

/-- A candidate is kept under its parent. -/
theorem Tracks.keep {seen : List Occurrence} {collected : Collected} (tracks : Tracks text scope seen collected)
    {occurrence : Occurrence} {candidate : List Block} (found : occurrence.candidate text scope = some candidate) :
    Tracks text scope (seen ++ [occurrence])
      { candidates := addCandidate collected.candidates occurrence.header.marker candidate
        occurrences := Function.update collected.occurrences occurrence.header.marker
          (collected.occurrences occurrence.header.marker + 1) } := by
  have others {entry : Text × List (List Block)} (member : entry ∈ collected.candidates)
      (other : entry.1 ≠ occurrence.header.marker) :
      entry.2 = ((seen ++ [occurrence]).filter (markedBy entry.1)).filterMap (Occurrence.candidate text scope) := by
    rw [tracks.entries entry member, List.filter_append]
    simp [markedBy, Ne.symm other]
  have added : ((seen ++ [occurrence]).filter (markedBy occurrence.header.marker)).filterMap
      (Occurrence.candidate text scope) =
        (seen.filter (markedBy occurrence.header.marker)).filterMap (Occurrence.candidate text scope) ++
          [candidate] := by
    rw [List.filter_append, List.filterMap_append]
    simp [markedBy, found]
  by_cases known : occurrence.header.marker ∈ collected.candidates.map Prod.fst
  · have shape : addCandidate collected.candidates occurrence.header.marker candidate =
        collected.candidates.map fun entry =>
          if entry.1 = occurrence.header.marker then (entry.1, entry.2 ++ [candidate]) else entry := by
      rw [addCandidate, if_pos]
      obtain ⟨entry, member, same⟩ := List.mem_map.mp known
      exact List.any_eq_true.mpr ⟨entry, member, decide_eq_true same⟩
    have keys : (collected.candidates.map fun entry =>
        if entry.1 = occurrence.header.marker then (entry.1, entry.2 ++ [candidate]) else entry).map Prod.fst =
          collected.candidates.map Prod.fst := by
      rw [List.map_map]
      apply List.map_congr_left
      intro entry _
      by_cases same : entry.1 = occurrence.header.marker <;> simp [same]
    rw [shape]
    refine ⟨tracks.count occurrence, keys ▸ tracks.keys, ?_, ?_⟩
    · intro entry member
      obtain ⟨held, there, rfl⟩ := List.mem_map.mp member
      by_cases same : held.1 = occurrence.header.marker
      · rw [if_pos same, tracks.entries held there]
        dsimp only
        rw [same, added]
      · rw [if_neg same]
        exact others there same
    · intro other member candidate
      simp only [keys]
      rcases List.mem_append.mp member with member | last
      · exact tracks.complete other member candidate
      · exact List.mem_singleton.mp last ▸ known
  · have shape : addCandidate collected.candidates occurrence.header.marker candidate =
        collected.candidates ++ [(occurrence.header.marker, [candidate])] := by
      rw [addCandidate, if_neg]
      intro held
      obtain ⟨entry, member, same⟩ := List.any_eq_true.mp held
      exact known (List.mem_map.mpr ⟨entry, member, of_decide_eq_true same⟩)
    have first : (seen.filter (markedBy occurrence.header.marker)).filterMap
        (Occurrence.candidate text scope) = [] := by
      apply List.filterMap_eq_nil_iff.mpr
      intro other member
      obtain ⟨member, same⟩ := List.mem_filter.mp member
      by_contra candidate
      exact known (of_decide_eq_true same ▸ tracks.complete other member candidate)
    rw [shape]
    refine ⟨tracks.count occurrence, ?_, ?_, ?_⟩
    · rw [List.map_append]
      exact tracks.keys.append (List.nodup_singleton _) (by simpa using known)
    · intro entry member
      rcases List.mem_append.mp member with member | last
      · exact others member fun same => known (same ▸ List.mem_map_of_mem member)
      · obtain rfl := List.mem_singleton.mp last
        rw [added, first]
        rfl
    · intro other member candidate
      rw [List.map_append]
      rcases List.mem_append.mp member with member | last
      · exact List.mem_append_left _ (tracks.complete other member candidate)
      · obtain rfl := List.mem_singleton.mp last
        simp

theorem collect_tracks (before rest : List Event) (seen : List Occurrence) (collected : Collected)
    (tracks : Tracks text scope seen collected) :
    Tracks text scope (seen ++ occurrencesIn text scope events before rest)
      (collect text scope events before rest collected) := by
  induction rest generalizing before seen collected with
  | nil => simpa [occurrencesIn, collect] using tracks
  | cons event after ih =>
    rw [occurrencesIn, collect, ← List.append_assoc]
    apply ih
    split
    · split
      · exact tracks.keep ‹_›
      · exact tracks.pass ‹_›
    · simpa using tracks

theorem mem_occurrencesIn {before rest : List Event} {occurrence : Occurrence} :
    occurrence ∈ occurrencesIn text scope events before rest ↔
      isParent text scope events occurrence.header = true ∧
        ∃ middle, rest = middle ++ occurrence.header :: occurrence.after ∧
          occurrence.before = before ++ middle := by
  induction rest generalizing before with
  | nil => simp [occurrencesIn]
  | cons event after ih =>
    rw [occurrencesIn, List.mem_append, ih]
    constructor
    · rintro (here | ⟨parent, middle, rfl, shape⟩)
      · split at here
        · obtain rfl := List.mem_singleton.mp here
          exact ⟨‹_›, [], rfl, by simp⟩
        · cases here
      · exact ⟨parent, event :: middle, rfl, by simp [shape]⟩
    · rintro ⟨parent, middle, shape, same⟩
      cases middle with
      | nil =>
        obtain ⟨rfl, rfl⟩ := List.cons.inj shape
        obtain rfl : occurrence.before = before := by simpa using same
        rw [if_pos parent]
        exact .inl (List.mem_singleton_self _)
      | cons first middle =>
        obtain ⟨rfl, rfl⟩ := List.cons.inj shape
        exact .inr ⟨parent, middle, rfl, by simp [same]⟩

theorem isParent_iff {occurrence : Occurrence}
    (events : eventsOf text = occurrence.before ++ occurrence.header :: occurrence.after) :
    isParent text scope (eventsOf text) occurrence.header = true ↔ Parent text scope occurrence := by
  have inRecord : ∀ other, other ∈ (eventsOf text).filter (fun event => isHeader event &&
      (recordStart text occurrence.header.start ≤ event.start &&
        event.start < recordEnd text occurrence.header.start)) ↔
      other ∈ eventsOf text ∧ isHeader other = true ∧ recordStart text occurrence.header.start ≤ other.start ∧
        other.start < recordEnd text occurrence.header.start := by
    intro other
    simp only [List.mem_filter, Bool.and_eq_true, decide_eq_true_eq]
  rw [isParent, hasRecordIndent]
  simp only [Bool.and_eq_true, decide_eq_true_eq]
  constructor
  · rintro ⟨⟨numeric, cited⟩, smallest⟩
    refine ⟨events, numeric, cited, ?_⟩
    intro other member header lower upper
    have there := List.mem_map_of_mem (f := Event.indent) ((inRecord other).mpr ⟨member, header, lower, upper⟩)
    cases found : (((eventsOf text).filter fun event => isHeader event &&
        (recordStart text occurrence.header.start ≤ event.start &&
          event.start < recordEnd text occurrence.header.start)).map Event.indent).min? with
    | none => exact absurd (List.min?_eq_none_iff.mp found) (List.ne_nil_of_mem there)
    | some least =>
      rw [found] at smallest
      exact smallest ▸ (List.min?_eq_some_iff.mp found).2 _ there
  · intro parent
    refine ⟨⟨parent.numeric, parent.cited⟩, ?_⟩
    cases found : (((eventsOf text).filter fun event => isHeader event &&
        (recordStart text occurrence.header.start ≤ event.start &&
          event.start < recordEnd text occurrence.header.start)).map Event.indent).min? with
    | none => rfl
    | some least =>
      obtain ⟨member, below⟩ := List.min?_eq_some_iff.mp found
      obtain ⟨other, there, rfl⟩ := List.mem_map.mp member
      obtain ⟨there, header, lower, upper⟩ := (inRecord other).mp there
      apply Nat.le_antisymm (parent.smallest other there header lower upper)
      apply below
      apply List.mem_map_of_mem
      refine (inRecord _).mpr ⟨parent.member, by simp [isHeader, parent.numeric], ?_, ?_⟩
      · rcases recordStart_cases text occurrence.header.start with same | ⟨index, _, same, bound⟩ <;> omega
      · have bounded := eventsOf_bounded parent.member
        rcases recordEnd_cases text occurrence.header.start with same | ⟨index, separator, same, bound⟩
        · omega
        · rcases parent.outside separator with first | first <;> omega

/-- The occurrences of a text are those of its parents. -/
theorem mem_occurrences {occurrence : Occurrence} :
    occurrence ∈ occurrencesIn text scope (eventsOf text) [] (eventsOf text) ↔ Parent text scope occurrence := by
  rw [mem_occurrencesIn]
  constructor
  · rintro ⟨parent, middle, shape, same⟩
    rw [List.nil_append] at same
    subst same
    exact (isParent_iff shape).mp parent
  · intro parent
    exact ⟨(isParent_iff parent.events).mpr parent, occurrence.before, parent.events, rfl⟩

end loop

/-! ## Disjoint blocks -/

section blocks
variable {text : Text} {scope : Text → List Text}

/-- The blocks that an entry of the candidates contributes. -/
def kept (collected : Collected) (entry : Text × List (List Block)) : List Block :=
  match entry.2 with
  | [candidate] => if collected.occurrences entry.1 = 1 then candidate else []
  | _ => []

/-- The one occurrence of a parent, and its blocks. -/
structure Contributes (text : Text) (scope : Text → List Text) (occurrence : Occurrence)
    (blocks : List Block) : Prop where
  parent : Parent text scope occurrence
  only : ∀ other, Parent text scope other → other.header.marker = occurrence.header.marker → other = occurrence
  candidate : occurrence.candidate text scope = some blocks

variable {entry : Text × List (List Block)} {found found' : List Block} {block block' : Block}
  {first second : Occurrence}

theorem Tracks.kept
    (tracks : Tracks text scope (occurrencesIn text scope (eventsOf text) [] (eventsOf text)) collected)
    (member : entry ∈ collected.candidates)
    (contributes : NumericParents.kept collected entry ≠ []) :
    ∃ occurrence, occurrence.header.marker = entry.1 ∧
      Contributes text scope occurrence (NumericParents.kept collected entry) := by
  unfold NumericParents.kept at contributes ⊢
  split
  · rename_i candidate single
    simp only [single] at contributes
    split
    · rename_i once
      rw [tracks.counts] at once
      obtain ⟨occurrence, alone⟩ := List.length_eq_one_iff.mp once
      have entries := tracks.entries entry member
      rw [single, alone] at entries
      have held : occurrence ∈ [occurrence] := List.mem_singleton_self _
      rw [← alone] at held
      obtain ⟨found, marked⟩ := List.mem_filter.mp held
      have marker : occurrence.header.marker = entry.1 := of_decide_eq_true marked
      refine ⟨occurrence, marker, mem_occurrences.mp found, ?_, ?_⟩
      · intro other parent same
        have there : other ∈ [occurrence] := by
          rw [← alone]
          exact List.mem_filter.mpr ⟨mem_occurrences.mpr parent, decide_eq_true (same.trans marker)⟩
        exact List.mem_singleton.mp there
      · cases shape : occurrence.candidate text scope with
        | none => simp [shape] at entries
        | some blocks => simpa [shape, eq_comm] using entries
    · rename_i several
      simp [several] at contributes
  · rename_i other
    exfalso
    split at contributes
    · exact other _ ‹_›
    · exact contributes rfl

theorem Contributes.inside {occurrence : Occurrence}
    (contributes : Contributes text scope occurrence found) (member : block ∈ found) :
    block.parent = occurrence.header.marker ∧ block.start < block.stop ∧
      occurrence.header.start < block.start ∧ block.stop ≤ recordEnd text occurrence.header.start ∧
      ¬ segmentSeparator <:+: (text.take block.stop).drop block.start := by
  obtain ⟨passed, rest, stop, extent, candidate⟩ := contributes.parent.candidate contributes.candidate
  obtain ⟨same, behind, positive, within⟩ := candidate.inside block member
  refine ⟨same, positive, behind, within.trans (contributes.parent.stop_le_recordEnd extent), ?_⟩
  rintro ⟨before, after, shape⟩
  have separator : separatorAt text (block.start + before.length) = true := by
    have prefixed : segmentSeparator <+: ((text.take block.stop).drop block.start).drop before.length :=
      ⟨after, by rw [← shape, List.append_assoc, List.drop_left]⟩
    rw [List.drop_drop, List.drop_take] at prefixed
    exact List.isPrefixOf_iff_prefix.mpr (prefixed.trans (List.take_prefix _ _))
  have ends := contributes.parent.stop_le_separator extent separator (by omega)
  have room := congrArg List.length shape
  simp only [List.length_append, List.length_drop, List.length_take, segmentSeparator, List.length_cons,
    List.length_nil] at room
  omega

theorem Contributes.ordered {occurrence : Occurrence}
    (contributes : Contributes text scope occurrence found) : found.Pairwise Before := by
  obtain ⟨_, _, _, _, candidate⟩ := contributes.parent.candidate contributes.candidate
  exact candidate.ordered

/-- The blocks of a parent end before the blocks of a later one start. -/
theorem Contributes.separated (contributes : Contributes text scope first found)
    (contributes' : Contributes text scope second found')
    (order : first.header.start < second.header.start) (member : block ∈ found)
    (member' : block' ∈ found') : block.stop ≤ block'.start := by
  obtain ⟨passed, rest, stop, extent, candidate⟩ := contributes.parent.candidate contributes.candidate
  calc block.stop ≤ stop := (candidate.inside block member).2.2.2
    _ ≤ second.header.start := contributes.parent.stop_le_parent extent contributes'.parent order
    _ ≤ block'.start := Nat.le_of_lt (contributes'.inside member').2.2.1

def Disjoint (a b : Block) : Prop := a.stop ≤ b.start ∨ b.stop ≤ a.start

/-- Blocks of parents with different markers are disjoint. -/
theorem Contributes.disjoint (contributes : Contributes text scope first found)
    (contributes' : Contributes text scope second found')
    (other : first.header.marker ≠ second.header.marker) (member : block ∈ found)
    (member' : block' ∈ found') : Disjoint block block' := by
  rcases Nat.lt_trichotomy first.header.start second.header.start with order | same | order
  · exact .inl (contributes.separated contributes' order member member')
  · have equal := eventsOf_inj contributes.parent.member contributes'.parent.member same
    exact absurd (congrArg Event.marker equal) other
  · exact .inr (contributes'.separated contributes order member' member)

theorem kept_parent
    (tracks : Tracks text scope (occurrencesIn text scope (eventsOf text) [] (eventsOf text)) collected)
    (member : entry ∈ collected.candidates) (there : block ∈ kept collected entry) :
    block.parent = entry.1 := by
  obtain ⟨occurrence, marker, contributes⟩ := tracks.kept member (List.ne_nil_of_mem there)
  exact (contributes.inside there).1.trans marker

/-- The blocks of a parent are those of its entry. -/
theorem filter_flatMap_kept {entries : List (Text × List (List Block))}
    {blocksOf : Text × List (List Block) → List Block} (keys : (entries.map Prod.fst).Nodup)
    (named : ∀ entry ∈ entries, ∀ block ∈ blocksOf entry, block.parent = entry.1)
    (member : entry ∈ entries) :
    (entries.flatMap blocksOf).filter (fun block => block.parent = entry.1) = blocksOf entry := by
  induction entries with
  | nil => cases member
  | cons first rest ih =>
    rw [List.map_cons, List.nodup_cons] at keys
    have whole {other : Text × List (List Block)} (there : other ∈ first :: rest) (same : other.1 = entry.1) :
        (blocksOf other).filter (fun block => block.parent = entry.1) = blocksOf other := by
      apply List.filter_eq_self.mpr
      intro block found
      simpa [same] using named other there block found
    have empty {other : Text × List (List Block)} (there : other ∈ first :: rest) (apart : other.1 ≠ entry.1) :
        (blocksOf other).filter (fun block => block.parent = entry.1) = [] := by
      apply List.filter_eq_nil_iff.mpr
      intro block found
      simpa [named other there block found] using apart
    rw [List.flatMap_cons, List.filter_append]
    rcases List.mem_cons.mp member with rfl | later
    · rw [whole (by simp) rfl, List.filter_flatMap]
      apply List.append_right_eq_self.mpr
      apply List.flatMap_eq_nil_iff.mpr
      intro other there
      apply empty (List.mem_cons_of_mem _ there)
      intro same
      exact keys.1 (same ▸ List.mem_map_of_mem there)
    · rw [empty (by simp), List.nil_append]
      · exact ih keys.2 (fun other there => named other (List.mem_cons_of_mem _ there)) later
      · intro same
        exact keys.1 (same ▸ List.mem_map_of_mem later)

/-- **Blocks of numeric parents are disjoint.**  Each block is within one record of the text, no two blocks
meet, each parent contributes the blocks of its only occurrence, and its children are in the order of
their letters. -/
theorem sourceNumericParentAlphaRangeBlocks_disjoint (text : Text) (scope : Text → List Text) :
    (∀ block ∈ sourceNumericParentAlphaRangeBlocks text scope, block.start < block.stop) ∧
      (∀ block ∈ sourceNumericParentAlphaRangeBlocks text scope,
        ¬ segmentSeparator <:+: (text.take block.stop).drop block.start) ∧
      (sourceNumericParentAlphaRangeBlocks text scope).Pairwise Disjoint ∧
      (∀ block ∈ sourceNumericParentAlphaRangeBlocks text scope, ∃ occurrence,
        occurrence.header.marker = block.parent ∧ occurrence.header.start < block.start ∧
          block.stop ≤ recordEnd text occurrence.header.start ∧
          Contributes text scope occurrence ((sourceNumericParentAlphaRangeBlocks text scope).filter
            fun other => other.parent = block.parent)) ∧
      ∀ parent, ((sourceNumericParentAlphaRangeBlocks text scope).filter
        fun block => block.parent = parent).Pairwise fun a b => a.child < b.child := by
  obtain ⟨collected, tracks, shape⟩ : ∃ collected,
      Tracks text scope (occurrencesIn text scope (eventsOf text) [] (eventsOf text)) collected ∧
        sourceNumericParentAlphaRangeBlocks text scope = collected.candidates.flatMap (kept collected) := by
    refine ⟨collect text scope (eventsOf text) [] (eventsOf text) {}, ?_, rfl⟩
    exact collect_tracks [] (eventsOf text) [] {} ⟨by simp, by simp, by simp, by simp⟩
  have named : ∀ entry ∈ collected.candidates, ∀ block ∈ kept collected entry, block.parent = entry.1 :=
    fun entry member block there => kept_parent tracks member there
  have contributed : ∀ block ∈ sourceNumericParentAlphaRangeBlocks text scope, ∃ occurrence,
      occurrence.header.marker = block.parent ∧ Contributes text scope occurrence
        ((sourceNumericParentAlphaRangeBlocks text scope).filter fun other => other.parent = block.parent) := by
    intro block there
    rw [shape] at there ⊢
    obtain ⟨entry, member, there⟩ := List.mem_flatMap.mp there
    rw [named entry member block there, filter_flatMap_kept tracks.keys named member]
    exact tracks.kept member (List.ne_nil_of_mem there)
  have own : ∀ block ∈ sourceNumericParentAlphaRangeBlocks text scope,
      block ∈ (sourceNumericParentAlphaRangeBlocks text scope).filter fun other => other.parent = block.parent :=
    fun block there => List.mem_filter.mpr ⟨there, decide_eq_true rfl⟩
  refine ⟨?_, ?_, ?_, ?_, ?_⟩
  · intro block there
    obtain ⟨_, _, contributes⟩ := contributed block there
    exact (contributes.inside (own block there)).2.1
  · intro block there
    obtain ⟨_, _, contributes⟩ := contributed block there
    exact (contributes.inside (own block there)).2.2.2.2
  · rw [shape]
    refine List.pairwise_flatMap.mpr ⟨?_, ?_⟩
    · intro entry member
      by_cases empty : kept collected entry = []
      · simp [empty]
      · obtain ⟨_, _, contributes⟩ := tracks.kept member empty
        exact contributes.ordered.imp fun before => .inl before.2
    · refine (List.pairwise_map.mp tracks.keys).imp_of_mem ?_
      intro first second member member' other block there block' there'
      obtain ⟨_, marker, contributes⟩ := tracks.kept member (List.ne_nil_of_mem there)
      obtain ⟨_, marker', contributes'⟩ := tracks.kept member' (List.ne_nil_of_mem there')
      exact contributes.disjoint contributes' (marker.trans_ne (other.trans_eq marker'.symm)) there there'
  · intro block there
    obtain ⟨occurrence, marker, contributes⟩ := contributed block there
    obtain ⟨_, _, behind, within, _⟩ := contributes.inside (own block there)
    exact ⟨occurrence, marker, behind, within, contributes⟩
  · intro parent
    by_cases empty : (sourceNumericParentAlphaRangeBlocks text scope).filter
        (fun block => block.parent = parent) = []
    · simp [empty]
    · obtain ⟨block, member⟩ := List.exists_mem_of_ne_nil _ empty
      obtain ⟨there, same⟩ := List.mem_filter.mp member
      obtain rfl := of_decide_eq_true same
      obtain ⟨_, _, contributes⟩ := contributed block there
      exact contributes.ordered.imp And.left

end blocks

end AxiomEncode.ProofEvidence.NumericParents
