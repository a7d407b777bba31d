/-
# Numbers.EnvelopesSpec -- envelopes partition the digits of a text

Each scan ends behind a digit, an exponent marker or a sign, at most with an invalid run of separators
after it (`Tail`).  The walks to the left pass no digit; they enter an earlier envelope only by a sign of
its exponent (`Bridges`), and this is the one way in which two envelopes overlap.
-/
import AxiomEncode.Numbers.Envelopes

namespace AxiomEncode.Numbers.Envelopes

open Theory

set_option autoImplicit false

/-! ## Kinds of characters -/

theorem isDigitChar_of_decimal {c : Char} (decimal : isDecimal c = true) : isDigitChar c = true := by
  rw [isDigitChar, decimal, Bool.true_or]

/-- The marks of the grammar that are neither digits nor exponent markers. -/
def marks : List Char := ['.', ','] ++ groupingSpaces ++ unarySigns ++ joinerFormatCharacters

theorem marks_plain : ∀ c ∈ marks, isDigitChar c = false ∧ isExponent c = false := by
  exact List.forall_iff_forall_mem.mp (by decide)

namespace Source

variable (source : Source) {c : Char}

theorem mem_grouping (grouping : source.isGrouping c = true) : c ∈ groupingSpaces := by
  rw [isGrouping] at grouping
  split at grouping
  · have narrow : ∀ d ∈ danishGroupingSpaces, d ∈ groupingSpaces :=
      List.forall_iff_forall_mem.mp (by decide)
    exact narrow c (of_decide_eq_true grouping)
  · exact of_decide_eq_true grouping

theorem mem_joiner (joiner : source.isJoiner c = true) : c ∈ joinerFormatCharacters := by
  rw [isJoiner, Bool.and_eq_true] at joiner
  exact of_decide_eq_true joiner.2

theorem point_kind (point : isPoint c = true) :
    isSign c = false ∧ source.isGrouping c = false ∧ source.isJoiner c = false := by
  have plain : isSign c = false ∧ c ∉ groupingSpaces ∧ c ∉ joinerFormatCharacters := by
    simp only [isPoint, Bool.or_eq_true, decide_eq_true_eq] at point
    rcases point with rfl | rfl <;> decide
  refine ⟨plain.1, ?_, ?_⟩
  · exact Bool.eq_false_iff.mpr fun grouping => plain.2.1 (source.mem_grouping grouping)
  · exact Bool.eq_false_iff.mpr fun joiner => plain.2.2 (source.mem_joiner joiner)

theorem grouping_kind (grouping : source.isGrouping c = true) :
    isPoint c = false ∧ isSign c = false ∧ source.isJoiner c = false := by
  have plain : ∀ d ∈ groupingSpaces, isPoint d = false ∧ isSign d = false ∧ d ∉ joinerFormatCharacters :=
    List.forall_iff_forall_mem.mp (by decide)
  obtain ⟨point, sign, joiner⟩ := plain c (source.mem_grouping grouping)
  exact ⟨point, sign, Bool.eq_false_iff.mpr fun joins => joiner (source.mem_joiner joins)⟩

theorem sign_kind (sign : isSign c = true) :
    isPoint c = false ∧ source.isGrouping c = false ∧ source.isJoiner c = false := by
  have plain : ∀ d ∈ unarySigns, isPoint d = false ∧ d ∉ groupingSpaces ∧ d ∉ joinerFormatCharacters :=
    List.forall_iff_forall_mem.mp (by decide)
  obtain ⟨point, grouping, joiner⟩ := plain c (of_decide_eq_true sign)
  refine ⟨point, ?_, ?_⟩
  · exact Bool.eq_false_iff.mpr fun groups => grouping (source.mem_grouping groups)
  · exact Bool.eq_false_iff.mpr fun joins => joiner (source.mem_joiner joins)

/-- A mark of the grammar is no digit and no exponent marker. -/
theorem mark_kind (mark : isPoint c = true ∨ source.isGrouping c = true ∨ isSign c = true ∨
    source.isJoiner c = true) : isDigitChar c = false ∧ isExponent c = false := by
  apply marks_plain
  rw [marks, List.mem_append, List.mem_append, List.mem_append]
  rcases mark with point | grouping | sign | joiner
  · refine .inl (.inl (.inl ?_))
    simpa [isPoint] using point
  · exact .inl (.inl (.inr (source.mem_grouping grouping)))
  · exact .inl (.inr (of_decide_eq_true sign))
  · exact .inr (source.mem_joiner joiner)

/-! ## Positions -/

variable {source} {p q : Char → Bool} {i index : Nat}

theorem has_iff : source.has p i = true ↔ ∃ c, source.text[i]? = some c ∧ p c = true := by
  rw [has]
  cases source.text[i]? <;> simp

/-- Two properties that no character has together, at one position. -/
theorem has_apart (apart : ∀ c, p c = true → q c = false) (first : source.has p i = true) :
    source.has q i = false := by
  obtain ⟨c, there, holds⟩ := has_iff.mp first
  rw [has, there, Option.any_some, apart c holds]

/-- A digit or an exponent marker, which no walk to the left passes. -/
def isSolid (source : Source) (i : Nat) : Prop := source.has isDigitChar i = true ∨ source.has isExponent i = true

theorem not_solid_of_mark (mark : source.has isPoint i = true ∨ source.has source.isGrouping i = true ∨
    source.has isSign i = true ∨ source.has source.isJoiner i = true) : ¬ source.isSolid i := by
  obtain ⟨c, there, kind⟩ : ∃ c, source.text[i]? = some c ∧
      (isPoint c = true ∨ source.isGrouping c = true ∨ isSign c = true ∨
        source.isJoiner c = true) := by
    rcases mark with mark | mark | mark | mark <;> obtain ⟨c, there, holds⟩ := has_iff.mp mark
    · exact ⟨c, there, .inl holds⟩
    · exact ⟨c, there, .inr (.inl holds)⟩
    · exact ⟨c, there, .inr (.inr (.inl holds))⟩
    · exact ⟨c, there, .inr (.inr (.inr holds))⟩
  obtain ⟨digit, exponent⟩ := source.mark_kind kind
  rw [isSolid, has, has, there, Option.any_some, Option.any_some, digit, exponent]
  simp

theorem has_decimal (decimal : source.has isDecimal i = true) : source.has isDigitChar i = true := by
  obtain ⟨c, there, holds⟩ := has_iff.mp decimal
  exact has_iff.mpr ⟨c, there, isDigitChar_of_decimal holds⟩

theorem lt_of_has (holds : source.has p i = true) : i < source.text.length := by
  obtain ⟨c, there, _⟩ := has_iff.mp holds
  exact (List.getElem?_eq_some_iff.mp there).1

/-! ## Runs and walks -/

/-- A run to the right: it holds the property and ends where the property fails. -/
structure Run (source : Source) (p : Char → Bool) (index stop : Nat) : Prop where
  le : index ≤ stop
  inside : ∀ i, index ≤ i → i < stop → source.has p i = true
  ends : source.has p stop = false

theorem runFrom_run (source : Source) (p : Char → Bool) (index : Nat) :
    Run source p index (source.runFrom p index) := by
  have split (k : Nat) : source.text[index + k]? =
      ((source.text.drop index).takeWhile p ++ (source.text.drop index).dropWhile p)[k]? := by
    rw [List.takeWhile_append_dropWhile, List.getElem?_drop]
  refine ⟨Nat.le_add_right _ _, ?_, ?_⟩
  · intro i lower upper
    obtain ⟨k, rfl⟩ := Nat.exists_eq_add_of_le lower
    have short : k < ((source.text.drop index).takeWhile p).length := by
      rw [runFrom] at upper
      omega
    have holds := List.mem_takeWhile_imp (List.getElem_mem short)
    rw [has, split, List.getElem?_append_left short, List.getElem?_eq_getElem short, Option.any_some]
    exact holds
  · rw [has, runFrom, split, List.getElem?_append_right (le_refl _), Nat.sub_self, ← List.head?_eq_getElem?]
    have stops := List.head?_dropWhile_not p (source.text.drop index)
    cases shape : ((source.text.drop index).dropWhile p).head? with
    | none => rfl
    | some c =>
      rw [shape] at stops
      simpa using stops

variable {stop next digit start cursor group last dot : Nat} {state state' : State}
  {terminal : Bool} {scan : Scan}

theorem Run.eq_of_not (run : Run source p index stop) (fails : source.has p index = false) :
    stop = index := by
  by_contra other
  have := run.inside index (le_refl _) (lt_of_le_of_ne run.le (Ne.symm other))
  rw [fails] at this
  cases this

/-- The characters skipped to the left, down to `lower` or to one without the property. -/
structure Skipped (source : Source) (p : Char → Bool) (lower cursor stop : Nat) : Prop where
  le : stop ≤ cursor
  inside : ∀ i, stop ≤ i → i < cursor → source.has p i = true
  ends : lower < stop → source.has p (stop - 1) = false

theorem skipBack_skipped (source : Source) (p : Char → Bool) (lower cursor : Nat) :
    Skipped source p lower cursor (source.skipBack p lower cursor) := by
  induction cursor with
  | zero => exact ⟨le_refl _, fun i low high => by omega, fun order => by simp [skipBack] at order⟩
  | succ cursor ih =>
    rw [skipBack]
    split
    · rename_i skips
      rw [Bool.and_eq_true] at skips
      refine ⟨ih.le.trans (Nat.le_succ _), ?_, ih.ends⟩
      intro i low high
      rcases Nat.lt_succ_iff_lt_or_eq.mp high with before | rfl
      · exact ih.inside i low before
      · exact skips.2
    · rename_i stays
      refine ⟨le_refl _, fun i low high => by omega, fun order => ?_⟩
      rw [Nat.add_sub_cancel]
      simpa [show lower ≤ cursor by omega] using stays

/-- A walk to the left over characters of a property and joiners. -/
structure Walked (source : Source) (p : Char → Bool) (start stop : Nat) : Prop where
  le : stop ≤ start
  inside : ∀ i, stop ≤ i → i < start → source.has p i = true ∨ source.has source.isJoiner i = true
  first : stop < start → source.has p stop = true
  maximal : ∀ k < stop, source.has p k = true → ∃ i, k < i ∧ i < stop ∧ source.has source.isJoiner i = false

theorem walkBack_from (apart : ∀ c, p c = true → source.isJoiner c = false) (found cursor : Nat)
    (order : cursor ≤ found) (pending : ∀ i, cursor ≤ i → i < found → source.has source.isJoiner i = true) :
    Walked source p found (source.walkBack p found cursor) := by
  induction cursor generalizing found with
  | zero =>
    refine ⟨le_refl _, fun i low high => by simp [walkBack] at low; omega,
      fun less => by simp [walkBack] at less, ?_⟩
    intro k before holds
    have joiner := pending k (Nat.zero_le _) before
    rw [has_apart apart holds] at joiner
    cases joiner
  | succ cursor ih =>
    rw [walkBack]
    split
    · rename_i here
      have walked := ih cursor (le_refl _) (fun i low high => by omega)
      refine ⟨walked.le.trans (Nat.le_of_succ_le order), ?_, ?_, walked.maximal⟩
      · intro i low high
        rcases Nat.lt_trichotomy i cursor with before | rfl | after
        · exact walked.inside i low before
        · exact .inl here
        · exact .inr (pending i after high)
      · intro _
        rcases lt_or_eq_of_le walked.le with less | same
        · exact walked.first less
        · rw [same]
          exact here
    · rename_i notHere
      split
      · rename_i joiner
        apply ih found (Nat.le_of_succ_le order)
        intro i low high
        rcases Nat.eq_or_lt_of_le low with rfl | after
        · exact joiner
        · exact pending i after high
      · rename_i noJoiner
        refine ⟨le_refl _, fun i low high => by omega, fun less => absurd less (lt_irrefl _), ?_⟩
        intro k before holds
        rcases Nat.lt_trichotomy k cursor with less | rfl | after
        · exact ⟨cursor, less, order, by simpa using noJoiner⟩
        · exact absurd holds notHere
        · have joiner := pending k after before
          rw [has_apart apart holds] at joiner
          cases joiner

theorem walkBack_walked (apart : ∀ c, p c = true → source.isJoiner c = false) (start : Nat) :
    Walked source p start (source.walkBack p start start) :=
  walkBack_from apart start start (le_refl _) fun i low high => by omega

/-! ## The grammar -/

/-- The properties of separators. -/
def IsSeparator (source : Source) (p : Char → Bool) : Prop := p = isPoint ∨ p = source.isGrouping

theorem separator_joiner (separator : source.IsSeparator p) : ∀ c, p c = true → source.isJoiner c = false := by
  rcases separator with rfl | rfl
  · exact fun c point => (source.point_kind point).2.2
  · exact fun c grouping => (source.grouping_kind grouping).2.2

theorem separator_solid (separator : source.IsSeparator p)
    (here : source.has p i = true ∨ source.has source.isJoiner i = true) : ¬ source.isSolid i := by
  apply not_solid_of_mark
  rcases here with here | here
  · rcases separator with rfl | rfl
    · exact .inl here
    · exact .inr (.inl here)
  · exact .inr (.inr (.inr here))

theorem sign_joiner : ∀ c, isSign c = true → source.isJoiner c = false := fun c sign => (source.sign_kind sign).2.2

/-- A run of separators and joiners that `advanceRun` read. -/
structure SeparatorRun (source : Source) (p : Char → Bool) (index stop : Nat) : Prop where
  separator : source.IsSeparator p
  here : source.has p index = true
  run : Run source (fun c => p c || source.isJoiner c) index stop

/-- What one transition of the grammar did. -/
inductive Advanced (source : Source) (index : Nat) (state : State) : Nat → State → Bool → Prop where
  | digit (here : source.has isDigitChar index = true) (next : State)
      (seen : next.exponentSeen = true → next.exponentDigitsSeen = true) :
      Advanced source index state (index + 1) next false
  | separators {p : Char → Bool} {stop : Nat} (run : SeparatorRun source p index stop)
      (digit : source.has isDigitChar stop = true) : Advanced source index state stop state false
  | invalid {p : Char → Bool} {stop : Nat} (run : SeparatorRun source p index stop) (danish : source.danish = true)
      (noDigit : source.has isDigitChar stop = false) : Advanced source index state stop state true
  | exponent (here : source.has isExponent index = true) :
      Advanced source index state (index + 1) ⟨true, false⟩ false
  | sign (here : source.has isSign index = true) (open' : state = ⟨true, false⟩) :
      Advanced source index state (index + 1) ⟨true, false⟩ false

theorem advanceRun_advanced (separator : source.IsSeparator p) (here : source.has p index = true)
    (advanced : source.advanceRun p index state = some (next, state', terminal)) :
    Advanced source index state next state' terminal := by
  have run : SeparatorRun source p index (source.grammarRunEnd p index).1 :=
    ⟨separator, here, runFrom_run source _ index⟩
  rw [advanceRun] at advanced
  dsimp only at advanced
  split at advanced
  · cases advanced
    exact .separators run ‹_›
  · rename_i noDigit
    split at advanced
    · rename_i danish
      rw [Bool.and_eq_true] at danish
      cases advanced
      exact .invalid run danish.1 (Bool.eq_false_iff.mpr noDigit)
    · cases advanced

theorem advance_advanced (advanced : source.advance index state = some (next, state', terminal)) :
    Advanced source index state next state' terminal := by
  rw [advance] at advanced
  cases there : source.text[index]? with
  | none =>
    rw [there] at advanced
    cases advanced
  | some c =>
    have here {p : Char → Bool} (holds : p c = true) : source.has p index = true :=
      has_iff.mpr ⟨c, there, holds⟩
    rw [there] at advanced
    dsimp only at advanced
    split at advanced
    · cases advanced
    split at advanced
    · rename_i digit
      cases advanced
      refine .digit (here digit) _ fun seen => ?_
      dsimp only at seen ⊢
      rw [seen, Bool.or_true]
    split at advanced
    · cases advanced
    split at advanced
    · cases advanced
    split at advanced
    · rename_i point
      split at advanced
      · cases advanced
      · exact advanceRun_advanced (.inl rfl) (here point) advanced
    split at advanced
    · rename_i grouping
      exact advanceRun_advanced (.inr rfl) (here grouping) advanced
    split at advanced
    · rename_i exponent
      rw [Bool.and_eq_true] at exponent
      cases advanced
      exact .exponent (here exponent.1)
    split at advanced
    · rename_i sign
      obtain ⟨exponentSeen, digitsSeen⟩ := state
      simp only [Bool.and_eq_true, Bool.not_eq_true'] at sign
      obtain ⟨⟨sign, rfl⟩, rfl⟩ := sign
      cases advanced
      exact .sign (here sign) rfl
    · cases advanced

/-- The grammar always goes on over a digit. -/
theorem advance_digit (digit : source.has isDigitChar index = true) (state : State) :
    source.advance index state ≠ none := by
  obtain ⟨c, there, holds⟩ := has_iff.mp digit
  have accepted : source.accepts c = true := by simp [accepts, holds]
  simp [advance, there, accepted, holds]

/-- In an open exponent the grammar goes on over a sign. -/
theorem advance_sign (sign : source.has isSign index = true) : source.advance index ⟨true, false⟩ ≠ none := by
  obtain ⟨c, there, holds⟩ := has_iff.mp sign
  have accepted : source.accepts c = true := by simp [accepts, holds]
  obtain ⟨point, grouping, joiner⟩ := source.sign_kind holds
  obtain ⟨digit, exponent⟩ := source.mark_kind (.inr (.inr (.inl holds)))
  have noMarker : source.markerEnd index = none := by
    have other : source.text[index]? ≠ some '.' := by
      intro dot
      rw [there, Option.some_inj] at dot
      subst dot
      cases point
    rw [markerEnd, gluedMarkerEnd, if_neg other, ite_self]
  simp [advance, there, accepted, holds, point, grouping, joiner, digit, exponent, noMarker]

/-! ## Scans to the right -/

theorem joinerEnd_run (source : Source) (index : Nat) : Run source source.isJoiner index (source.joinerEnd index) :=
  runFrom_run source _ index

theorem digit_joiner (digit : source.has isDigitChar i = true) : source.has source.isJoiner i = false := by
  by_contra joiner
  exact not_solid_of_mark (.inr (.inr (.inr (by simpa using joiner)))) (.inl digit)

/-- A sign or an exponent marker before a sign, with only joiners between them. -/
def Prior (source : Source) (sign : Nat) : Prop :=
  ∃ k < sign, (source.has isExponent k = true ∨ source.has isSign k = true) ∧
    ∀ i, k < i → i < sign → source.has source.isJoiner i = true

/-- What the loop to the right read last. -/
inductive Last (source : Source) (digit index : Nat) (state : State) : Prop where
  | pending (lower : digit ≤ index) (here : source.has isDigitChar index = true)
  | digit (lower : digit < index) (before : source.has isDigitChar (index - 1) = true)
      (seen : state.exponentSeen = true → state.exponentDigitsSeen = true)
  | exponent (lower : digit < index) (before : source.has isExponent (index - 1) = true)
      (open' : state = ⟨true, false⟩)
  | sign (lower : digit < index) (before : source.has isSign (index - 1) = true) (open' : state = ⟨true, false⟩)
      (prior : Prior source (index - 1))

theorem Last.lower (last : Last source digit index state) : digit ≤ index := by
  cases last <;> omega

/-- A transition that is not terminal keeps what was read last. -/
theorem Last.advanced (last : Last source digit index state)
    (advanced : Advanced source (source.joinerEnd index) state next state' false) :
    Last source digit next state' := by
  have run := joinerEnd_run source index
  have lower : digit ≤ source.joinerEnd index := last.lower.trans run.le
  cases advanced with
  | digit here next seen => exact .digit (Nat.lt_succ_of_le lower) here seen
  | separators separators digit => exact .pending (lower.trans separators.run.le) digit
  | exponent here => exact .exponent (Nat.lt_succ_of_le lower) here rfl
  | sign here open' =>
    refine .sign (Nat.lt_succ_of_le lower) here rfl ?_
    rw [Nat.add_sub_cancel]
    have between (i : Nat) (low : index - 1 < i) (high : i < source.joinerEnd index) :
        source.has source.isJoiner i = true := run.inside i (by omega) high
    have order := run.le
    cases last with
    | pending _ digitHere =>
      rw [run.eq_of_not (digit_joiner digitHere)] at here
      exact absurd (.inl digitHere) (not_solid_of_mark (.inr (.inr (.inl here))))
    | digit _ _ seen =>
      subst open'
      cases seen rfl
    | exponent _ before _ => exact ⟨index - 1, by omega, .inl before, between⟩
    | sign _ before _ _ => exact ⟨index - 1, by omega, .inr before, between⟩

/-- Where a scan ends: behind its last digit, exponent marker or sign, with an invalid run of separators
after it, if any. -/
structure Tail (source : Source) (scan : Scan) (last : Nat) : Prop where
  lower : scan.digit ≤ last
  upper : last < scan.stop
  kind : source.isSolid last ∨ source.has isSign last = true ∧ Prior source last
  trail : (scan.stop = last + 1 ∧ (source.has isSign last = true →
      ∀ i, scan.stop ≤ i → (∀ k, scan.stop ≤ k → k < i → source.has source.isJoiner k = true) →
        source.has isDigitChar i = false ∧ source.has isSign i = false)) ∨
    source.danish = true ∧ ∃ p, source.IsSeparator p ∧
      (∀ i, last < i → i < scan.stop → source.has p i = true ∨ source.has source.isJoiner i = true) ∧
      (∃ i, last < i ∧ i < scan.stop ∧ source.has p i = true) ∧
      source.has p scan.stop = false ∧ source.has source.isJoiner scan.stop = false ∧
      source.has isDigitChar scan.stop = false

/-- How a scan came to its end. -/
inductive Ended (source : Source) (scan : Scan) : Prop where
  | stuck (last : Last source scan.digit scan.stop scan.state) (noMarker : source.markerEnd scan.stop = none)
      (none : source.advanceOver scan.stop scan.state = none) (ending : scan.ending = .stuck)
  | marker (last : Last source scan.digit scan.stop scan.state) (stop : Nat)
      (found : source.markerEnd scan.stop = some stop) (ending : scan.ending = .marker stop)
  | invalid (index : Nat) (state : State) (last : Last source scan.digit index state)
      (advanced : Advanced source (source.joinerEnd index) state scan.stop scan.state true)
      (ending : scan.ending = .terminalInvalid)

theorem scanFrom_digit (digit fuel index : Nat) (state : State) :
    (source.scanFrom digit fuel index state).digit = digit := by
  induction fuel generalizing index state with
  | zero => rfl
  | succ fuel ih =>
    rw [scanFrom]
    split
    · rfl
    · split
      · rfl
      · rfl
      · exact ih _ _

/-- Every transition goes on to the right, so the fuel of a scan is never used up. -/
theorem Advanced.lt (advanced : Advanced source index state next state' terminal) :
    index < next ∧ index < source.text.length := by
  have longer {p : Char → Bool} {stop : Nat} (run : SeparatorRun source p index stop) : index < stop := by
    apply lt_of_le_of_ne run.run.le
    rintro rfl
    have ends := run.run.ends
    obtain ⟨c, there, holds⟩ := has_iff.mp run.here
    rw [has, there, Option.any_some, holds, Bool.true_or] at ends
    cases ends
  cases advanced with
  | digit here _ _ => exact ⟨Nat.lt_succ_self _, lt_of_has here⟩
  | separators run _ => exact ⟨longer run, lt_of_has run.here⟩
  | invalid run _ _ => exact ⟨longer run, lt_of_has run.here⟩
  | exponent here => exact ⟨Nat.lt_succ_self _, lt_of_has here⟩
  | sign here _ => exact ⟨Nat.lt_succ_self _, lt_of_has here⟩

theorem scanFrom_ended (digit fuel index : Nat) (state : State) (enough : source.text.length < index + fuel)
    (last : Last source digit index state) : Ended source (source.scanFrom digit fuel index state) := by
  induction fuel generalizing index state with
  | zero =>
    have beyond (p : Char → Bool) (i : Nat) (behind : index ≤ i) : source.has p i = false := by
      by_contra holds
      have := lt_of_has (by simpa using holds : source.has p i = true)
      omega
    have missing : source.text[index]? = none := List.getElem?_eq_none (by omega)
    have same : source.joinerEnd index = index := (joinerEnd_run source index).eq_of_not (beyond _ _ (le_refl _))
    refine .stuck last ?_ ?_ rfl
    · rw [scanFrom, markerEnd, gluedMarkerEnd, missing]
      simp
    · rw [scanFrom, advanceOver, same, advance, missing]
  | succ fuel ih =>
    rw [scanFrom]
    split
    · rename_i stop found
      exact .marker last stop found rfl
    · rename_i noMarker
      split
      · rename_i none
        exact .stuck last noMarker none rfl
      · rename_i next state' advances
        exact .invalid index state last (advance_advanced advances) rfl
      · rename_i next state' advances
        have advanced := advance_advanced advances
        have order := advanced.lt
        have run := joinerEnd_run source index
        exact ih next state' (by have := run.le; omega) (last.advanced advanced)

theorem scan_ended (here : source.has isDigitChar digit = true) :
    Ended source (source.scan digit) :=
  scanFrom_ended digit _ digit {} (by omega) (.pending (le_refl _) here)

theorem has_or : source.has (fun c => p c || q c) i = true ↔ source.has p i = true ∨ source.has q i = true := by
  rw [has, has, has]
  cases source.text[i]? <;> simp

theorem dot_of_marker (found : source.markerEnd index = some stop) :
    source.text[index]? = some '.' := by
  rw [markerEnd, gluedMarkerEnd] at found
  split at found
  · split at found
    · assumption
    · cases found
  · cases found

theorem Last.kind (last : Last source digit index state)
    (noDigit : source.has isDigitChar index = false) :
    digit < index ∧ (source.isSolid (index - 1) ∨
      source.has isSign (index - 1) = true ∧ Prior source (index - 1)) := by
  cases last with
  | pending _ here =>
    rw [noDigit] at here
    cases here
  | digit lower before _ => exact ⟨lower, .inl (.inl before)⟩
  | exponent lower before _ => exact ⟨lower, .inl (.inr before)⟩
  | sign lower before _ prior => exact ⟨lower, .inr ⟨before, prior⟩⟩

theorem Last.open' (last : Last source digit index state)
    (noDigit : source.has isDigitChar index = false) (sign : source.has isSign (index - 1) = true) :
    state = ⟨true, false⟩ := by
  have notSolid := not_solid_of_mark (.inr (.inr (.inl sign)))
  cases last with
  | pending _ here =>
    rw [noDigit] at here
    cases here
  | digit _ before _ => exact absurd (.inl before) notSolid
  | exponent _ before _ => exact absurd (.inr before) notSolid
  | sign _ _ open' _ => exact open'

/-- The index behind joiners is the first that is no joiner. -/
theorem joinerEnd_eq (order : index ≤ stop)
    (joiners : ∀ k, index ≤ k → k < stop → source.has source.isJoiner k = true)
    (other : source.has source.isJoiner stop = false) : source.joinerEnd index = stop := by
  have run := joinerEnd_run source index
  rcases Nat.lt_trichotomy (source.joinerEnd index) stop with less | same | greater
  · have := joiners _ run.le less
    rw [run.ends] at this
    cases this
  · exact same
  · have := run.inside stop order greater
    rw [other] at this
    cases this

/-- A scan that is stuck behind a sign stands before neither a digit nor a sign. -/
theorem stuck_sign (open' : state = ⟨true, false⟩) (none : source.advanceOver index state = none)
    {i : Nat} (order : index ≤ i)
    (joiners : ∀ k, index ≤ k → k < i → source.has source.isJoiner k = true) :
    source.has isDigitChar i = false ∧ source.has isSign i = false := by
  subst open'
  constructor
  · by_contra digit
    have digit : source.has isDigitChar i = true := by simpa using digit
    rw [advanceOver, joinerEnd_eq order joiners (digit_joiner digit)] at none
    exact advance_digit digit _ none
  · by_contra sign
    have sign : source.has isSign i = true := by simpa using sign
    rw [advanceOver, joinerEnd_eq order joiners (has_apart sign_joiner sign)] at none
    exact advance_sign sign none

theorem Ended.tail (ended : Ended source scan) : ∃ last, Tail source scan last := by
  cases ended with
  | stuck last noMarker none ending =>
    have noDigit : source.has isDigitChar scan.stop = false := by
      by_contra digit
      have digit : source.has isDigitChar scan.stop = true := by simpa using digit
      rw [advanceOver, (joinerEnd_run source _).eq_of_not (digit_joiner digit)] at none
      exact advance_digit digit _ none
    obtain ⟨lower, kind⟩ := last.kind noDigit
    refine ⟨scan.stop - 1, by omega, by omega, kind, .inl ⟨by omega, fun sign i order joiners => ?_⟩⟩
    exact stuck_sign (last.open' noDigit sign) none order joiners
  | marker last stop found ending =>
    have dot := dot_of_marker found
    have point : source.has isPoint scan.stop = true := has_iff.mpr ⟨'.', dot, rfl⟩
    have plain := not_solid_of_mark (.inl point)
    have noDigit : source.has isDigitChar scan.stop = false := by
      by_contra digit
      exact plain (.inl (by simpa using digit))
    obtain ⟨lower, kind⟩ := last.kind noDigit
    refine ⟨scan.stop - 1, by omega, by omega, kind, .inl ⟨by omega, fun _ i order joiners => ?_⟩⟩
    rcases Nat.eq_or_lt_of_le order with rfl | after
    · exact ⟨noDigit, has_apart (fun c holds => (source.point_kind holds).1) point⟩
    · have joiner := joiners _ (le_refl _) after
      rw [has_apart (fun c holds => (source.point_kind holds).2.2) point] at joiner
      cases joiner
  | invalid index state last advanced ending =>
    generalize isStop : scan.stop = stop at advanced
    generalize scan.state = final at advanced
    cases advanced with
    | @invalid p _ run danish noDigitAt =>
      have joiners := joinerEnd_run source index
      have noDigit : source.has isDigitChar index = false := by
        by_contra digit
        have digit : source.has isDigitChar index = true := by simpa using digit
        have here := run.here
        rw [joiners.eq_of_not (digit_joiner digit)] at here
        exact separator_solid run.separator (.inl here) (.inl digit)
      obtain ⟨lower, kind⟩ := last.kind noDigit
      have order := joiners.le
      have advanced : Advanced source _ state _ state true := .invalid run danish noDigitAt
      have longer := advanced.lt.1
      have ends := run.run.ends
      rw [Bool.eq_false_iff, ne_eq, has_or, not_or] at ends
      refine ⟨index - 1, by omega, by omega, kind, .inr ⟨danish, p, run.separator, ?_, ?_, ?_, ?_, ?_⟩⟩
      · intro i low high
        by_cases before : i < source.joinerEnd index
        · exact .inr (joiners.inside i (by omega) before)
        · exact has_or.mp (run.run.inside i (by omega) (by omega))
      · exact ⟨_, by omega, by omega, run.here⟩
      · exact isStop ▸ Bool.eq_false_iff.mpr ends.1
      · exact isStop ▸ Bool.eq_false_iff.mpr ends.2
      · exact isStop ▸ noDigitAt

/-! ## The left edge -/

/-- The walks of the left edge: over points and commas, over grouping spaces, then over joiners. -/
structure Walks (source : Source) (digit start group cursor : Nat) : Prop where
  points : Walked source isPoint digit start
  spaces : Walked source source.isGrouping start group
  joiners : Skipped source source.isJoiner 0 group cursor

theorem walks (source : Source) (digit : Nat) :
    ∃ start group cursor, Walks source digit start group cursor ∧
      start = source.walkBack isPoint digit digit ∧ group = source.walkBack source.isGrouping start start ∧
      cursor = source.skipBack source.isJoiner 0 group :=
  ⟨_, _, _, ⟨walkBack_walked (separator_joiner (.inl rfl)) digit,
    walkBack_walked (separator_joiner (.inr rfl)) _, skipBack_skipped _ _ _ _⟩, rfl, rfl, rfl⟩

/-- A position that is no separator and no joiner stops all the walks. -/
structure Stops (source : Source) (i : Nat) : Prop where
  point : source.has isPoint i = false
  grouping : source.has source.isGrouping i = false
  joiner : source.has source.isJoiner i = false

theorem stops_of_sign (sign : source.has isSign i = true) : Stops source i :=
  ⟨has_apart (fun c holds => (source.sign_kind holds).1) sign,
    has_apart (fun c holds => (source.sign_kind holds).2.1) sign, has_apart sign_joiner sign⟩

theorem stops_of_solid (solid : source.isSolid i) : Stops source i := by
  refine ⟨?_, ?_, ?_⟩ <;> by_contra mark
  · exact not_solid_of_mark (.inl (by simpa using mark)) solid
  · exact not_solid_of_mark (.inr (.inl (by simpa using mark))) solid
  · exact not_solid_of_mark (.inr (.inr (.inr (by simpa using mark)))) solid

theorem Stops.separator (stops : Stops source i) (separator : source.IsSeparator p) : source.has p i = false := by
  rcases separator with rfl | rfl
  · exact stops.point
  · exact stops.grouping

theorem Walked.beyond (walked : Walked source p start stop) (separator : source.IsSeparator p)
    (stops : Stops source i) (before : i < start) : i < stop := by
  by_contra crossed
  rcases walked.inside i (not_lt.mp crossed) before with here | here
  · rw [stops.separator separator] at here
    cases here
  · rw [stops.joiner] at here
    cases here

theorem Skipped.beyond (skipped : Skipped source source.isJoiner 0 cursor stop)
    (stops : Stops source i) (before : i < cursor) : i < stop := by
  by_contra crossed
  have here := skipped.inside i (not_lt.mp crossed) before
  rw [stops.joiner] at here
  cases here

theorem Walks.beyond (walks : Walks source digit start group cursor) (stops : Stops source i)
    (before : i < digit) : i < start ∧ i < group ∧ i < cursor := by
  have first := walks.points.beyond (.inl rfl) stops before
  have second := walks.spaces.beyond (.inr rfl) stops first
  exact ⟨first, second, walks.joiners.beyond stops second⟩

/-- A sign before a digit, with nothing but grouping spaces and then points and commas between them, that
the left edge of the digit takes: as the last of several signs, or as a unary one. -/
structure Bridges (source : Source) (position digit : Nat) : Prop where
  sign : source.has isSign position = true
  gap : ∃ middle, position < middle ∧ middle ≤ digit ∧
    (∀ i, position < i → i < middle →
      source.has source.isGrouping i = true ∨ source.has source.isJoiner i = true) ∧
    ∀ i, middle ≤ i → i < digit → source.has isPoint i = true ∨ source.has source.isJoiner i = true
  leading : if source.danish then source.has (· = '+') position = true ∧
      ∃ k < position, source.has isSign k = true ∧
        ∀ i, k < i → i < position → source.has source.isJoiner i = true
    else source.signIsUnary position = true

/-- A bridging sign is in the envelope of its digit. -/
theorem leftEdge_le {sign : Nat} (bridges : Bridges source sign digit) :
    source.leftEdge digit ≤ sign := by
  obtain ⟨start, group, cursor, walks, isStart, isGroup, isCursor⟩ := source.walks digit
  obtain ⟨middle, low, high, spaces, points⟩ := bridges.gap
  have stops := stops_of_sign bridges.sign
  obtain ⟨beyondStart, beyondGroup, beyondCursor⟩ := walks.beyond stops (by omega)
  have exactly : cursor = sign + 1 := by
    by_contra other
    have notJoiner := walks.joiners.ends (by omega)
    have within := walks.joiners.le
    have order := walks.spaces.le
    have order' := walks.points.le
    have joined (i : Nat) (lower : cursor - 1 < i) (upper : i < group) : source.has source.isJoiner i = true :=
      walks.joiners.inside i (by omega) upper
    have between : source.has source.isGrouping (cursor - 1) = true ∨ source.has isPoint (cursor - 1) = true := by
      by_cases before : cursor - 1 < middle
      · rcases spaces (cursor - 1) (by omega) before with here | here
        · exact .inl here
        · rw [notJoiner] at here
          cases here
      · rcases points (cursor - 1) (by omega) (by omega) with here | here
        · exact .inr here
        · rw [notJoiner] at here
          cases here
    rcases between with grouping | point
    · obtain ⟨i, lower, upper, other⟩ := walks.spaces.maximal (cursor - 1) (by omega) grouping
      rw [joined i lower upper] at other
      cases other
    · obtain ⟨i, lower, upper, other⟩ := walks.points.maximal (cursor - 1) (by omega) point
      have grouping : source.has source.isGrouping i = true := by
        by_cases inGroup : i < group
        · rw [joined i lower inGroup] at other
          cases other
        · rcases walks.spaces.inside i (by omega) upper with here | here
          · exact here
          · rw [other] at here
            cases here
      have beforeMiddle : i < middle := by
        by_contra behind
        rcases points i (by omega) (by omega) with here | here
        · rw [has_apart (fun c holds => (source.point_kind holds).2.1) here] at grouping
          cases grouping
        · rw [other] at here
          cases here
      rcases spaces (cursor - 1) (by omega) (by omega) with here | here
      · rw [has_apart (fun c holds => (source.point_kind holds).2.1) point] at here
        cases here
      · rw [notJoiner] at here
        cases here
  have leading := bridges.leading
  rw [leftEdge]
  simp only [← isStart, ← isGroup, ← isCursor, exactly, Nat.add_sub_cancel]
  split at leading
  · rename_i danish
    obtain ⟨plus, k, before, isSign', joiners⟩ := leading
    have run : source.walkBack isSign sign sign < sign := by
      have walked : Walked source isSign sign (source.walkBack isSign sign sign) := walkBack_walked sign_joiner sign
      by_contra stays
      have same : source.walkBack isSign sign sign = sign := le_antisymm walked.le (not_lt.mp stays)
      obtain ⟨i, lower, upper, other⟩ := walked.maximal k (by omega) isSign'
      rw [joiners i lower (by omega)] at other
      cases other
    simp only [bridges.sign, danish, plus, run, Nat.succ_pos, decide_true, Bool.and_self, Bool.not_true, Bool.or_true,
      Bool.true_or, if_true]
    exact run.le
  · rename_i other
    have notDanish : source.danish = false := by simpa using other
    simp [bridges.sign, notDanish, leading]

/-- The last sign of a scan, taken by a later digit that stands behind its joiners and separators. -/
theorem bridges_of_sign (tail : Tail source scan last)
    (here : source.has isDigitChar digit = true) (behind : scan.stop ≤ digit)
    (walks : Walks source digit start group cursor) (atLast : cursor = last + 1)
    (sign : source.has isSign last = true)
    (candidate : source.danish = true → source.has (· = '+') last = true ∨ source.joinerEnd cursor = digit)
    (taken : (source.danish = true ∧ source.walkBack isSign last last < last) ∨ source.signIsUnary last = true) :
    Bridges source last digit := by
  have stops := stops_of_sign sign
  have upper := tail.upper
  obtain ⟨beyondStart, beyondGroup, beyondCursor⟩ := walks.beyond stops (by omega)
  have prior : Prior source last := by
    rcases tail.kind with solid | ⟨_, prior⟩
    · exact absurd solid (not_solid_of_mark (.inr (.inr (.inl sign))))
    · exact prior
  refine ⟨sign, ⟨start, beyondStart, walks.points.le, ?_, walks.points.inside⟩, ?_⟩
  · intro i low high
    by_cases spaced : group ≤ i
    · exact walks.spaces.inside i spaced high
    · exact .inr (walks.joiners.inside i (by omega) (by omega))
  · split
    · rename_i danish
      have plus : source.has (· = '+') last = true := by
        rcases candidate danish with plus | joined
        · exact plus
        · exfalso
          have run := joinerEnd_run source cursor
          rw [joined, atLast] at run
          rcases tail.trail with ⟨isStop, stuck⟩ | ⟨_, p, separator, _, ⟨i, low, high, holds⟩, _, _, _⟩
          · have := (stuck sign digit behind fun k low high => run.inside k (by omega) high).1
            rw [here] at this
            cases this
          · have joiner := run.inside i (by omega) (by omega)
            rw [has_apart (separator_joiner separator) holds] at joiner
            cases joiner
      refine ⟨plus, ?_⟩
      obtain ⟨k, before, kind, joiners⟩ := prior
      refine ⟨k, before, ?_, joiners⟩
      rcases kind with exponent | isSign'
      · exfalso
        have solid := stops_of_solid (.inr exponent)
        have notSign : source.has isSign k = false := by
          by_contra other
          exact not_solid_of_mark (.inr (.inr (.inl (by simpa using other)))) (.inr exponent)
        rcases taken with ⟨_, repeated⟩ | unary
        · -- the run of signs would hold the exponent marker, or end at a joiner
          have walked : Walked source isSign last (source.walkBack isSign last last) := walkBack_walked sign_joiner last
          by_cases reaches : source.walkBack isSign last last ≤ k
          · rcases walked.inside k reaches before with other | other
            · rw [notSign] at other
              cases other
            · rw [solid.joiner] at other
              cases other
          · have first := walked.first repeated
            have joiner := joiners _ (not_le.mp reaches) repeated
            rw [has_apart sign_joiner first] at joiner
            cases joiner
        · -- an exponent marker is no prefix of a unary sign
          have notMinus : source.has (· ∈ minusSigns) last = false := by
            obtain ⟨c, there, isPlus⟩ := has_iff.mp plus
            rw [has, there, Option.any_some]
            rw [of_decide_eq_true isPlus]
            decide
          have marker : source.has (fun c => c ∈ groupingSpaces || source.isJoiner c) k = false := by
            obtain ⟨c, there, holds⟩ := has_iff.mp exponent
            have plain : ∀ d, isExponent d = true → d ∉ groupingSpaces := by
              intro d marker
              simp only [isExponent, Bool.or_eq_true, decide_eq_true_eq] at marker
              rcases marker with rfl | rfl <;> decide
            have joiner := solid.joiner
            rw [has, there, Option.any_some] at joiner ⊢
            rw [joiner, decide_eq_false (plain c holds)]
            rfl
          have noPrefix : source.has (fun c => isSpace c || c ∈ unaryPrefixes || isSign c) k = false := by
            obtain ⟨c, there, holds⟩ := has_iff.mp exponent
            rw [has, there, Option.any_some]
            simp only [isExponent, Bool.or_eq_true, decide_eq_true_eq] at holds
            rcases holds with rfl | rfl <;> decide
          rw [signIsUnary] at unary
          split at unary
          · cases unary
          · simp only [notMinus, Bool.and_false, if_false, Bool.false_eq_true] at unary
            generalize ((source.wallBefore last).map Prod.snd).getD 0 = lower at unary
            have skipped := skipBack_skipped source (fun c => c ∈ groupingSpaces || source.isJoiner c) lower last
            generalize source.skipBack (fun c => c ∈ groupingSpaces || source.isJoiner c) lower last
              = edge at unary skipped
            have beyond : k < edge := by
              by_contra crossed
              have := skipped.inside k (not_lt.mp crossed) before
              rw [marker] at this
              cases this
            split at unary
            · have := of_decide_eq_true unary
              omega
            · rename_i above
              have ends := skipped.ends (not_le.mp above)
              have exactly : edge - 1 = k := by
                by_contra other
                have order := skipped.le
                have joiner := joiners (edge - 1) (by omega) (by omega)
                rw [has_or.mpr (.inr joiner)] at ends
                cases ends
              rw [exactly, noPrefix] at unary
              cases unary
      · exact isSign'
    · rename_i other
      rcases taken with ⟨danish, _⟩ | unary
      · exact absurd danish other
      · exact unary

/-- **Only a bridging sign leads the left edge into an earlier scan.** -/
theorem bridges_of_crossing (tail : Tail source scan last)
    (here : source.has isDigitChar digit = true) (behind : scan.stop ≤ digit)
    (crosses : source.leftEdge digit < scan.stop) : Bridges source last digit := by
  obtain ⟨start, group, cursor, walks, isStart, isGroup, isCursor⟩ := source.walks digit
  have upper := tail.upper
  have stops : Stops source last := by
    rcases tail.kind with solid | ⟨sign, _⟩
    · exact stops_of_solid solid
    · exact stops_of_sign sign
  obtain ⟨beyondStart, beyondGroup, beyondCursor⟩ := walks.beyond stops (by omega)
  -- no point before the digit is in the scan
  have startBehind : scan.stop ≤ start := by
    by_contra crossed
    rcases tail.trail with ⟨isStop, _⟩ | ⟨_, p, separator, trail, _, notP, notJoiner, notDigit⟩
    · omega
    · have before : scan.stop < digit := by
        apply lt_of_le_of_ne behind
        rintro same
        rw [same, here] at notDigit
        cases notDigit
      have point := walks.points.first (by omega)
      rcases separator with rfl | rfl
      · rcases walks.points.inside scan.stop (by omega) before with other | other
        · rw [notP] at other
          cases other
        · rw [notJoiner] at other
          cases other
      · rcases trail start (by omega) (by omega) with other | other
        · rw [has_apart (fun c holds => (source.point_kind holds).2.1) point] at other
          cases other
        · rw [has_apart (fun c holds => (source.point_kind holds).2.2) point] at other
          cases other
  -- a sign behind the last character of the scan is behind the scan
  have signBehind {i : Nat} (after : last < i) (sign : source.has isSign i = true) : scan.stop ≤ i := by
    by_contra crossed
    rcases tail.trail with ⟨isStop, _⟩ | ⟨_, p, separator, trail, _, _, _, _⟩
    · omega
    · have plain := stops_of_sign sign
      rcases trail i after (not_le.mp crossed) with other | other
      · rw [plain.separator separator] at other
        cases other
      · rw [plain.joiner] at other
        cases other
  -- a run of signs from behind the scan does not reach its last character
  have runBehind {i : Nat} (after : last < i) (sign : source.has isSign i = true) :
      scan.stop ≤ source.walkBack isSign i i := by
    have walked : Walked source isSign i (source.walkBack isSign i i) := walkBack_walked sign_joiner i
    have iBehind := signBehind after sign
    have isSignAt : source.has isSign (source.walkBack isSign i i) = true := by
      rcases lt_or_eq_of_le walked.le with less | same
      · exact walked.first less
      · rw [same]
        exact sign
    by_cases beyond : last < source.walkBack isSign i i
    · exact signBehind beyond isSignAt
    · exfalso
      have within (k : Nat) (low : last ≤ k) (high : k < i) :
          source.has isSign k = true ∨ source.has source.isJoiner k = true := walked.inside k (by omega) high
      rcases tail.trail with ⟨isStop, stuck⟩ | ⟨_, p, separator, _, ⟨k, low, high, holds⟩, _, _, _⟩
      · have lastSign : source.has isSign last = true := by
          rcases within last (le_refl _) after with sign | joiner
          · exact sign
          · rw [stops.joiner] at joiner
            cases joiner
        have run := joinerEnd_run source scan.stop
        have notSign := (stuck lastSign _ run.le run.inside).2
        have reached : source.joinerEnd scan.stop ≤ i := by
          by_contra exceeds
          have joiner := run.inside i iBehind (not_le.mp exceeds)
          rw [has_apart sign_joiner sign] at joiner
          cases joiner
        rcases lt_or_eq_of_le reached with less | same
        · have low := run.le
          rcases within _ (by omega) less with other | other
          · rw [notSign] at other
            cases other
          · rw [run.ends] at other
            cases other
        · rw [same, sign] at notSign
          cases notSign
      · rcases within k (by omega) (by omega) with other | other
        · rw [(stops_of_sign other).separator separator] at holds
          cases holds
        · rw [has_apart (separator_joiner separator) holds] at other
          cases other
  rw [leftEdge] at crosses
  simp only [← isStart, ← isGroup, ← isCursor] at crosses
  split at crosses
  · rename_i candidate
    simp only [Bool.and_eq_true, Bool.or_eq_true, decide_eq_true_eq, Bool.not_eq_true'] at candidate
    obtain ⟨⟨_, sign⟩, shape⟩ := candidate
    have atLast : ¬ last < cursor - 1 := by
      intro after
      split at crosses
      · have := runBehind after sign
        omega
      · split at crosses
        · have := signBehind after sign
          omega
        · omega
    have exactly : cursor = last + 1 := by omega
    rw [exactly, Nat.add_sub_cancel] at crosses sign shape
    apply bridges_of_sign tail here behind walks exactly sign
    · intro danish
      rw [exactly]
      rcases shape with (notDanish | plus) | joined
      · rw [danish] at notDanish
        cases notDanish
      · exact .inl plus
      · exact .inr joined
    · split at crosses
      · rename_i repeated
        rw [Bool.and_eq_true, decide_eq_true_eq] at repeated
        exact .inl repeated
      · split at crosses
        · rename_i unary
          exact .inr unary
        · omega
  · omega

/-- The left edge is at or before its digit, and only marks stand between them. -/
theorem leftEdge_marks (source : Source) (digit : Nat) :
    source.leftEdge digit ≤ digit ∧ ∀ i, source.leftEdge digit ≤ i → i < digit → ¬ source.isSolid i := by
  obtain ⟨start, group, cursor, walks, isStart, isGroup, isCursor⟩ := source.walks digit
  have orders := And.intro walks.points.le (And.intro walks.spaces.le walks.joiners.le)
  have fromStart (i : Nat) (low : start ≤ i) (high : i < digit) : ¬ source.isSolid i :=
    separator_solid (.inl rfl) (walks.points.inside i low high)
  have fromCursor (i : Nat) (low : cursor ≤ i) (high : i < digit) : ¬ source.isSolid i := by
    by_cases behind : start ≤ i
    · exact fromStart i behind high
    by_cases spaced : group ≤ i
    · exact separator_solid (.inr rfl) (walks.spaces.inside i spaced (not_le.mp behind))
    · exact separator_solid (.inl rfl) (.inr (walks.joiners.inside i low (not_le.mp spaced)))
  rw [leftEdge]
  simp only [← isStart, ← isGroup, ← isCursor]
  split
  · rename_i candidate
    simp only [Bool.and_eq_true, decide_eq_true_eq] at candidate
    obtain ⟨⟨positive, sign⟩, _⟩ := candidate
    have fromSign (i : Nat) (low : cursor - 1 ≤ i) (high : i < digit) : ¬ source.isSolid i := by
      rcases Nat.eq_or_lt_of_le low with rfl | after
      · exact not_solid_of_mark (.inr (.inr (.inl sign)))
      · exact fromCursor i (by omega) high
    split
    · rename_i repeated
      have walked : Walked source isSign (cursor - 1) (source.walkBack isSign (cursor - 1) (cursor - 1)) :=
        walkBack_walked sign_joiner _
      refine ⟨walked.le.trans (by omega), fun i low high => ?_⟩
      by_cases before : i < cursor - 1
      · apply not_solid_of_mark
        rcases walked.inside i low before with here | here
        · exact .inr (.inr (.inl here))
        · exact .inr (.inr (.inr here))
      · exact fromSign i (not_lt.mp before) high
    · split
      · exact ⟨by omega, fromSign⟩
      · exact ⟨orders.1, fromStart⟩
  · exact ⟨orders.1, fromStart⟩

/-! ## Sentence markers -/

theorem markerDigits_inside (count index digits : Nat) :
    index ≤ (source.markerDigits count index digits).1 ∧
      ∀ i, index ≤ i → i < (source.markerDigits count index digits).1 →
        source.has isDecimal i = true ∨ source.has source.isJoiner i = true := by
  induction count generalizing index digits with
  | zero => exact ⟨le_refl _, fun i low high => absurd (lt_of_le_of_lt low high) (lt_irrefl _)⟩
  | succ count ih =>
    have run := joinerEnd_run source index
    rw [markerDigits]
    split
    · rename_i decimal
      obtain ⟨le, inside⟩ := ih (source.joinerEnd index + 1) (digits + 1)
      have order := run.le
      refine ⟨by omega, fun i low high => ?_⟩
      rcases Nat.lt_trichotomy i (source.joinerEnd index) with before | rfl | after
      · exact .inr (run.inside i low before)
      · exact .inl decimal
      · exact inside i after high
    · exact ⟨run.le, fun i low high => .inr (run.inside i low high)⟩

/-- A marker holds nothing but digits and joiners behind its point. -/
theorem marker_inside (found : source.markerEnd dot = some stop) (low : dot < i) (high : i < stop) :
    source.has isDecimal i = true ∨ source.has source.isJoiner i = true := by
  rw [markerEnd, gluedMarkerEnd, if_pos (dot_of_marker found)] at found
  split at found
  · dsimp only at found
    split at found
    · obtain rfl := Option.some.inj found
      have run := joinerEnd_run source (source.markerDigits 2 (dot + 1) 0).1
      by_cases before : i < (source.markerDigits 2 (dot + 1) 0).1
      · exact (markerDigits_inside 2 (dot + 1) 0).2 i low before
      · exact .inr (run.inside i (not_lt.mp before) high)
    · cases found
  · cases found

/-- The marker before a digit holds that digit. -/
theorem markerBefore_holds (decimal : source.has isDecimal digit = true)
    (found : source.markerBefore digit = some stop) :
    ∃ dot, source.markerEnd dot = some stop ∧ dot < digit ∧ digit < stop := by
  rw [markerBefore] at found
  have skipped := skipBack_skipped source source.isJoiner 0 digit
  generalize source.skipBack source.isJoiner 0 digit = cursor at found skipped
  split at found
  · rename_i positive
    have order := skipped.le
    refine ⟨cursor - 1, found, by omega, ?_⟩
    have joined : source.joinerEnd (cursor - 1 + 1) = digit := by
      rw [Nat.sub_add_cancel positive]
      exact joinerEnd_eq order skipped.inside (digit_joiner (has_decimal decimal))
    have first : source.markerDigits 2 (cursor - 1 + 1) 0 = source.markerDigits 1 (digit + 1) 1 := by
      rw [markerDigits, joined]
      exact if_pos decimal
    have beyond := (@markerDigits_inside source 1 (digit + 1) 1).1
    rw [markerEnd, gluedMarkerEnd, if_pos (dot_of_marker found), first] at found
    split at found
    · dsimp only at found
      split at found
      · obtain rfl := Option.some.inj found
        exact lt_of_lt_of_le beyond (joinerEnd_run source _).le
      · cases found
    · cases found
  · cases found

/-- A marker that holds a digit, and the only one. -/
theorem marker_unique (found : source.markerEnd dot = some stop) (low : dot < digit)
    (high : digit < stop) :
    ∃! dot, ∃ stop, source.markerEnd dot = some stop ∧ dot < digit ∧ digit < stop := by
  have earlier {first last stop : Nat} (order : first < last) (found : source.markerEnd first = some stop)
      (within : last < stop) : source.markerEnd last = none := by
    by_contra other
    obtain ⟨stop', found'⟩ := Option.ne_none_iff_exists'.mp other
    have point : source.has isPoint last = true := has_iff.mpr ⟨'.', dot_of_marker found', rfl⟩
    rcases marker_inside found order within with here | here
    · exact not_solid_of_mark (.inl point) (.inl (has_decimal here))
    · rw [has_apart (fun c holds => (source.point_kind holds).2.2) point] at here
      cases here
  refine ⟨dot, ⟨stop, found, low, high⟩, ?_⟩
  rintro other ⟨stop', found', low', high'⟩
  rcases Nat.lt_trichotomy other dot with before | same | after
  · rw [earlier before found' (by omega)] at found
    cases found
  · exact same
  · rw [earlier after found (by omega)] at found'
    cases found'

/-! ## The loop over the digits -/

/-- What the loop finds from an index on, in the digits that are left. -/
structure Found (source : Source) (occupied : Nat) (digits : List Nat) (scans : List Scan) : Prop where
  each : ∀ scan ∈ scans, ∃ digit ∈ digits, scan = source.scan digit ∧ occupied ≤ digit
  ordered : scans.Pairwise fun a b => a.occupiedUntil ≤ b.digit
  covered : ∀ x ∈ digits, occupied ≤ x → (∃ scan ∈ scans, scan.digit ≤ x ∧ x < scan.stop) ∨
    ∃ dot stop, source.markerEnd dot = some stop ∧ dot < x ∧ x < stop

theorem stop_le_occupied (scan : Scan) : scan.stop ≤ scan.occupiedUntil := by
  rw [Scan.occupiedUntil]
  split
  · exact le_max_left _ _
  · exact le_refl _

theorem scan_digit (digit : Nat) : (source.scan digit).digit = digit := scanFrom_digit _ _ _ _

theorem digit_lt_stop (ended : Ended source scan) : scan.digit < scan.stop := by
  obtain ⟨last, tail⟩ := ended.tail
  exact lt_of_le_of_lt tail.lower tail.upper

/-- Behind the end of a scan only a sentence marker is reserved. -/
theorem reserved (ended : Ended source scan) {x : Nat} (decimal : source.has isDecimal x = true)
    (low : scan.stop ≤ x) (high : x < scan.occupiedUntil) :
    ∃ dot stop, source.markerEnd dot = some stop ∧ dot < x ∧ x < stop := by
  rw [Scan.occupiedUntil] at high
  cases ended with
  | stuck _ _ _ ending =>
    rw [ending] at high
    exact absurd (lt_of_le_of_lt low high) (lt_irrefl _)
  | invalid _ _ _ _ ending =>
    rw [ending] at high
    exact absurd (lt_of_le_of_lt low high) (lt_irrefl _)
  | marker _ stop found ending =>
    rw [ending] at high
    dsimp only at high
    have point : source.has isPoint scan.stop = true := has_iff.mpr ⟨'.', dot_of_marker found, rfl⟩
    have other : scan.stop ≠ x := by
      rintro rfl
      exact not_solid_of_mark (.inl point) (.inl (has_decimal decimal))
    exact ⟨scan.stop, stop, found, by omega, by omega⟩

theorem scansFrom_found (digits : List Nat) (occupied : Nat) (sorted : digits.Pairwise (· < ·))
    (decimals : ∀ digit ∈ digits, source.has isDecimal digit = true) :
    Found source occupied digits (source.scansFrom occupied digits) := by
  induction digits generalizing occupied with
  | nil => exact ⟨by simp [scansFrom], by simp [scansFrom], by simp⟩
  | cons digit digits ih =>
    obtain ⟨first, sorted⟩ := List.pairwise_cons.mp sorted
    have decimal := decimals digit (by simp)
    have later (occupied : Nat) := ih occupied sorted fun other member =>
      decimals other (List.mem_cons_of_mem _ member)
    rw [scansFrom]
    split
    · rename_i inside
      have found := later occupied
      refine ⟨?_, found.ordered, ?_⟩
      · intro scan member
        obtain ⟨other, there, rest⟩ := found.each scan member
        exact ⟨other, List.mem_cons_of_mem _ there, rest⟩
      · intro x member order
        rcases List.mem_cons.mp member with rfl | member
        · omega
        · exact found.covered x member order
    · rename_i outside
      split
      · rename_i stop marker
        obtain ⟨dot, isMarker, low, high⟩ := markerBefore_holds decimal marker
        have found := later stop
        refine ⟨?_, found.ordered, ?_⟩
        · intro scan member
          obtain ⟨other, there, same, order⟩ := found.each scan member
          exact ⟨other, List.mem_cons_of_mem _ there, same, by omega⟩
        · intro x member order
          by_cases within : x < stop
          · rcases List.mem_cons.mp member with rfl | member
            · exact .inr ⟨dot, stop, isMarker, low, high⟩
            · exact .inr ⟨dot, stop, isMarker, low.trans (first x member), within⟩
          · rcases List.mem_cons.mp member with rfl | member
            · omega
            · exact found.covered x member (not_lt.mp within)
      · have ended := scan_ended (has_decimal decimal)
        have less := digit_lt_stop ended
        have reach := stop_le_occupied (source.scan digit)
        rw [scan_digit] at less
        have found := later (source.scan digit).occupiedUntil
        refine ⟨?_, List.pairwise_cons.mpr ⟨?_, found.ordered⟩, ?_⟩
        · intro scan member
          rcases List.mem_cons.mp member with rfl | member
          · exact ⟨digit, by simp, rfl, not_lt.mp outside⟩
          · obtain ⟨other, there, same, order⟩ := found.each scan member
            exact ⟨other, List.mem_cons_of_mem _ there, same, by omega⟩
        · intro scan member
          obtain ⟨other, _, same, order⟩ := found.each scan member
          rw [same, scan_digit]
          exact order
        · intro x member order
          have low : digit ≤ x := by
            rcases List.mem_cons.mp member with rfl | member
            · exact le_refl _
            · exact Nat.le_of_lt (first x member)
          by_cases inside : x < (source.scan digit).stop
          · exact .inl ⟨_, by simp, (scan_digit digit).trans_le low, inside⟩
          · by_cases within : x < (source.scan digit).occupiedUntil
            · exact .inr (reserved ended (decimals x member) (not_lt.mp inside) within)
            · rcases List.mem_cons.mp member with rfl | member
              · omega
              · rcases found.covered x member (not_lt.mp within) with ⟨scan, there, rest⟩ | marker
                · exact .inl ⟨scan, List.mem_cons_of_mem _ there, rest⟩
                · exact .inr marker

theorem mem_digits : i ∈ source.digits ↔ source.has isDecimal i = true := by
  rw [digits, List.mem_filter, List.mem_range]
  exact ⟨And.right, fun decimal => ⟨lt_of_has decimal, decimal⟩⟩

theorem scans_found (source : Source) : Found source 0 source.digits source.scans :=
  scansFrom_found _ _ (List.pairwise_lt_range.filter _) fun _ member => mem_digits.mp member

/-! ## The partition -/

theorem scans_ended (member : scan ∈ source.scans) :
    Ended source scan ∧ source.has isDigitChar scan.digit = true := by
  obtain ⟨digit, there, rfl, _⟩ := (scans_found source).each scan member
  have digit := has_decimal (mem_digits.mp there)
  exact ⟨scan_ended digit, (scan_digit _).symm ▸ digit⟩

/-- A decimal digit of an envelope is in its scan. -/
theorem mem_envelope {x : Nat} (decimal : source.has isDecimal x = true)
    (member : scan ∈ source.scans) :
    source.leftEdge scan.digit ≤ x ∧ x < scan.stop ↔ scan.digit ≤ x ∧ x < scan.stop := by
  obtain ⟨order, marks⟩ := source.leftEdge_marks scan.digit
  refine ⟨fun ⟨low, high⟩ => ⟨?_, high⟩, fun ⟨low, high⟩ => ⟨order.trans low, high⟩⟩
  by_contra before
  exact marks x low (not_le.mp before) (.inl (has_decimal decimal))

/-- The envelopes are disjoint spans in order, hold each decimal digit once or leave it to one sentence
marker, and end where the grammar does not go on. -/
structure Partition (source : Source) : Prop where
  positive : ∀ span ∈ source.envelopes, span.1 < span.2
  ordered : source.envelopes.IsChain fun a b => a.2 ≤ b.1
  digits : ∀ x, source.has isDecimal x = true →
    (∃! i : Nat, ∃ span : Nat × Nat, source.envelopes[i]? = some span ∧ span.1 ≤ x ∧ x < span.2) ∨
      (∀ span ∈ source.envelopes, ¬ (span.1 ≤ x ∧ x < span.2)) ∧
        ∃! dot, ∃ stop, source.markerEnd dot = some stop ∧ dot < x ∧ x < stop
  maximal : ∀ scan ∈ source.scans, scan.ending = .terminalInvalid ∨
    (source.markerEnd scan.stop).isSome = true ∨
    source.advance scan.stop scan.state = none ∧ source.advanceOver scan.stop scan.state = none

theorem envelopes_positive (source : Source) : ∀ span ∈ source.envelopes, span.1 < span.2 := by
  intro span member
  obtain ⟨scan, there, rfl⟩ := List.mem_map.mp member
  exact lt_of_le_of_lt (source.leftEdge_marks scan.digit).1 (digit_lt_stop (scans_ended there).1)

theorem envelopes_digits (source : Source) (x : Nat) (decimal : source.has isDecimal x = true) :
    (∃! i : Nat, ∃ span : Nat × Nat, source.envelopes[i]? = some span ∧ span.1 ≤ x ∧ x < span.2) ∨
      (∀ span ∈ source.envelopes, ¬ (span.1 ≤ x ∧ x < span.2)) ∧
        ∃! dot, ∃ stop, source.markerEnd dot = some stop ∧ dot < x ∧ x < stop := by
  have found := scans_found source
  by_cases inScan : ∃ scan ∈ source.scans, scan.digit ≤ x ∧ x < scan.stop
  · left
    have index {i : Nat} {span : Nat × Nat} (there : source.envelopes[i]? = some span) (low : span.1 ≤ x)
        (high : x < span.2) : ∃ scan, source.scans[i]? = some scan ∧ scan.digit ≤ x ∧ x < scan.stop := by
      rw [envelopes, List.getElem?_map] at there
      obtain ⟨scan, here, rfl⟩ := Option.map_eq_some_iff.mp there
      exact ⟨scan, here, (mem_envelope decimal (List.mem_of_getElem? here)).mp ⟨low, high⟩⟩
    have once {i j : Nat} {a b : Scan} (first : source.scans[i]? = some a) (second : source.scans[j]? = some b)
        (inFirst : x < a.stop) (inSecond : b.digit ≤ x) : ¬ i < j := by
      intro order
      obtain ⟨short, rfl⟩ := List.getElem?_eq_some_iff.mp first
      obtain ⟨short', rfl⟩ := List.getElem?_eq_some_iff.mp second
      have apart := List.pairwise_iff_getElem.mp found.ordered i j short short' order
      have reach := stop_le_occupied source.scans[i]
      omega
    obtain ⟨scan, member, low, high⟩ := inScan
    obtain ⟨i, there⟩ := List.mem_iff_getElem?.mp member
    refine ⟨i, ⟨source.envelopeOf scan, ?_, (mem_envelope decimal member).mpr ⟨low, high⟩⟩, ?_⟩
    · rw [envelopes, List.getElem?_map, there]
      rfl
    · rintro j ⟨span, there', low', high'⟩
      obtain ⟨other, there', low', high'⟩ := index there' low' high'
      have := once there there' high low'
      have := once there' there high' low
      omega
  · right
    rcases found.covered x (mem_digits.mpr decimal) (Nat.zero_le _) with covered | ⟨dot, stop, marker, low, high⟩
    · exact absurd covered inScan
    · refine ⟨?_, marker_unique marker low high⟩
      rintro span member ⟨low, high⟩
      obtain ⟨scan, there, rfl⟩ := List.mem_map.mp member
      exact inScan ⟨scan, there, (mem_envelope decimal there).mp ⟨low, high⟩⟩

theorem scans_maximal (member : scan ∈ source.scans) :
    scan.ending = .terminalInvalid ∨ (source.markerEnd scan.stop).isSome = true ∨
      source.advance scan.stop scan.state = none ∧ source.advanceOver scan.stop scan.state = none := by
  cases (scans_ended member).1 with
  | stuck _ _ none _ =>
    refine .inr (.inr ⟨?_, none⟩)
    by_cases joiner : source.has source.isJoiner scan.stop = true
    · obtain ⟨c, there, holds⟩ := has_iff.mp joiner
      have digit := (source.mark_kind (.inr (.inr (.inr holds)))).1
      simp [advance, there, holds, digit]
    · rw [advanceOver, (joinerEnd_run source _).eq_of_not (Bool.eq_false_iff.mpr joiner)] at none
      exact none
  | marker _ stop found _ => exact .inr (.inl (by rw [found]; rfl))
  | invalid _ _ _ _ ending => exact .inl ending

/-- No sign of the exponent of one number bridges to the next number. -/
def Unbridged (source : Source) : Prop :=
  source.scans.IsChain fun a b =>
    ∀ position, a.digit ≤ position → position < a.stop → ¬ Bridges source position b.digit

theorem isChain_congr {α : Type} {R S T : α → α → Prop} {l : List α} (related : l.Pairwise R)
    (same : ∀ a ∈ l, ∀ b ∈ l, R a b → (S a b ↔ T a b)) : l.IsChain S ↔ l.IsChain T := by
  induction l with
  | nil => simp
  | cons a l ih =>
    obtain ⟨first, related⟩ := List.pairwise_cons.mp related
    have rest := ih related fun b member c member' =>
      same b (List.mem_cons_of_mem _ member) c (List.mem_cons_of_mem _ member')
    cases l with
    | nil => simp
    | cons b l =>
      rw [List.isChain_cons_cons, List.isChain_cons_cons, rest,
        same a (by simp) b (by simp) (first b (by simp))]

theorem envelopes_ordered_iff (source : Source) :
    (source.envelopes.IsChain fun a b => a.2 ≤ b.1) ↔ source.Unbridged := by
  rw [envelopes, List.isChain_map, Unbridged]
  refine isChain_congr (scans_found source).ordered ?_
  intro a first b second order
  obtain ⟨last, tail⟩ := (scans_ended first).1.tail
  have behind : a.stop ≤ b.digit := (stop_le_occupied a).trans order
  constructor
  · intro apart position low high bridges
    have crossed := leftEdge_le bridges
    have apart : a.stop ≤ source.leftEdge b.digit := apart
    omega
  · intro unbridged
    by_contra crossed
    have bridges := bridges_of_crossing tail (scans_ended second).2 behind (not_le.mp crossed)
    exact unbridged last tail.lower tail.upper bridges

/-- **Envelopes partition the digits, unless a sign bridges two of them.**  All else holds of every text. -/
theorem partition_iff_unbridged (source : Source) : source.Partition ↔ source.Unbridged := by
  rw [← envelopes_ordered_iff]
  refine ⟨Partition.ordered, fun ordered => ⟨source.envelopes_positive, ordered, source.envelopes_digits, ?_⟩⟩
  exact fun scan member => scans_maximal member

/-- The second sign of `1e--` is also the sign of `.5`. -/
theorem repeated_exponent_sign_overlaps : ¬ ∀ source : Source, source.Partition := by
  intro claimed
  have ordered := (claimed ⟨"1e-- .5".toList, .legacy, [], fun _ => false, fun c => 'A' ≤ c && c ≤ 'Z'⟩).ordered
  have shape : (Source.mk "1e-- .5".toList .legacy [] (fun _ => false)
      (fun c => 'A' ≤ c && c ≤ 'Z')).envelopes = [(0, 4), (3, 7)] := by
    decide
  rw [shape] at ordered
  simp at ordered

end Source

end AxiomEncode.Numbers.Envelopes
