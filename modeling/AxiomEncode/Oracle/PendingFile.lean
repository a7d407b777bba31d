/-
# Oracle.PendingFile -- what is written is what is parsed

`parseEntries_clean`: a parsed entry is clean, and its id occurs once.  `parsePendingPayload_written`:
parsing the payload of clean entries gives them back, with empty notes dropped.
-/
import AxiomEncode.Oracle.Pending
import AxiomEncode.Theory.Checks
import Mathlib.Tactic.IntervalCases

namespace AxiomEncode.Oracle

open Theory Theory.Typed Value

set_option autoImplicit false

/-- An entry as the parser gives it. -/
structure PendingEntry.Clean (entry : PendingEntry) : Prop where
  legalId : strip entry.legalId = entry.legalId
  named : entry.legalId ≠ []
  source : entry.source ∈ allowedSources
  since : strip entry.since = entry.since
  isDate : isIsoDate entry.since = true
  note : entry.note.map strip = entry.note

/-- The entry when it is read from the file at `path`. -/
def PendingEntry.reread (path repo : Text) (entry : PendingEntry) : PendingEntry :=
  { entry with note := entry.shownNote, repo, file := path }

section Parsed

variable {repr : Text → Text} {path repo place since : Text} {entry : PendingEntry} {raw value : Value}
  {raws : List Value} {entries : List PendingEntry} {seen : List Text} {index : Nat}

/-! ## Dates -/

theorem not_isIsoDate_nil : isIsoDate [] = false := by decide

theorem strip_isoFormat (date : Date) : strip date.isoFormat = date.isoFormat := by
  have visible : ∀ c ∈ date.isoFormat, isSpace c = false := by
    intro c isChar
    rcases plain_isoFormat date c isChar with isDigit | rfl
    · obtain ⟨d, small, rfl⟩ := exists_digitChar isDigit
      interval_cases d <;> rfl
    · rfl
  exact stripChars_eq_self (fun c isHead => visible c (List.mem_of_mem_head? isHead))
    fun c isLast => visible c (List.mem_of_mem_getLast? isLast)

/-- A date that is read is written as it is. -/
theorem clean_of_coerceDate (read : coerceDate repr value place = .ok since) :
    strip since = since ∧ isIsoDate since = true := by
  unfold coerceDate at read
  split at read
  · cases read
    exact ⟨strip_isoFormat _, isIsoDate_isoFormat _⟩
  · cases read
    exact ⟨strip_isoFormat _, isIsoDate_isoFormat _⟩
  · split_ifs at read with blank isDate
    cases read
    exact ⟨strip_strip _, isDate⟩
  · cases read

theorem coerceDate_text (trimmed : strip since = since) (isDate : isIsoDate since = true) :
    coerceDate repr (.scalar (.text since)) place = .ok since := by
  have named : since ≠ [] := by
    rintro rfl
    rw [not_isIsoDate_nil] at isDate
    cases isDate
  rw [coerceDate, trimmed, if_neg named, if_pos isDate]

theorem strip_source {source : Text} (allowed : source ∈ allowedSources) :
    strip source = source ∧ source ≠ [] := by
  have each : ∀ source ∈ allowedSources, strip source = source ∧ source ≠ [] := by decide
  exact each source allowed

/-! ## Entries -/

/-- A parsed entry is clean, and was not seen before. -/
theorem clean_of_parseEntry (parsed : parseEntry repr path repo place seen raw = .ok entry) :
    entry.Clean ∧ entry.legalId ∉ seen := by
  unfold parseEntry at parsed
  split at parsed
  · split at parsed
    · next legalId _ =>
        by_cases blank : strip legalId = []
        · rw [if_pos blank] at parsed
          cases parsed
        rw [if_neg blank] at parsed
        by_cases known : strip legalId ∈ seen
        · rw [if_pos known] at parsed
          cases parsed
        rw [if_neg known] at parsed
        split at parsed
        · next source _ =>
            by_cases unsourced : strip source = []
            · rw [if_pos unsourced] at parsed
              cases parsed
            rw [if_neg unsourced] at parsed
            by_cases foreign : strip source ∉ allowedSources
            · rw [if_pos foreign] at parsed
              cases parsed
            rw [if_neg foreign] at parsed
            split at parsed
            · cases parsed
            · next since isSince =>
                obtain ⟨trimmed, isDate⟩ := clean_of_coerceDate isSince
                split at parsed
                · cases parsed
                  exact ⟨⟨strip_strip _, blank, not_not.mp foreign, trimmed, isDate, rfl⟩, known⟩
                · next note _ =>
                    cases parsed
                    exact ⟨⟨strip_strip _, blank, not_not.mp foreign, trimmed, isDate,
                      congrArg some (strip_strip note)⟩, known⟩
                · cases parsed
        · cases parsed
    · cases parsed
  · cases parsed

/-- **Parsed entries are clean, and no id occurs twice.** -/
theorem parseEntries_clean : ∀ {raws : List Value} {index : Nat} {seen : List Text}
    {entries : List PendingEntry}, parseEntries repr path repo index seen raws = .ok entries →
      (∀ entry ∈ entries, entry.Clean ∧ entry.legalId ∉ seen)
        ∧ (entries.map PendingEntry.legalId).Nodup := by
  intro raws
  induction raws with
  | nil =>
    intro index seen entries parsed
    cases parsed
    exact ⟨fun entry declared => (nomatch declared), List.nodup_nil⟩
  | cons raw raws ih =>
    intro index seen entries parsed
    unfold parseEntries at parsed
    simp only at parsed
    split at parsed
    · cases parsed
    · next entry isEntry =>
        split at parsed
        · cases parsed
        · next rest isRest =>
            cases parsed
            obtain ⟨clean, fresh⟩ := clean_of_parseEntry isEntry
            obtain ⟨cleanRest, distinct⟩ := ih isRest
            refine ⟨?_, ?_⟩
            · intro other declared
              rcases List.mem_cons.mp declared with rfl | isLater
              · exact ⟨clean, fresh⟩
              · obtain ⟨clean', unseen⟩ := cleanRest other isLater
                exact ⟨clean', fun isSeen => unseen (List.mem_cons_of_mem _ isSeen)⟩
            · rw [List.map_cons, List.nodup_cons]
              refine ⟨fun repeated => ?_, distinct⟩
              obtain ⟨other, isLater, same⟩ := List.mem_map.mp repeated
              exact (cleanRest other isLater).2 (same ▸ List.mem_cons_self)

/-! ## Written entries -/

theorem lookupBy_cons {κ : Type} [DecidableEq κ] (f : Scalar → κ) (key other : Scalar) (value : Value)
    (members : Members) :
    lookupBy f key ((other, value) :: members)
      = if f other = f key then some value else lookupBy f key members := by
  by_cases same : f other = f key
  · simp [lookupBy, same]
  · simp [lookupBy, same]

theorem get?_cons (name : String) (key : String) (value : Value) (members : Members) :
    get? ((.text key.toList, value) :: members) name
      = if key = name then some value else get? members name := by
  rw [get?, lookupBy_cons]
  by_cases same : key = name
  · rw [if_pos same, if_pos (by rw [same])]
  · have differs : (Scalar.text key.toList).key ≠ (Scalar.text name.toList).key := fun keys =>
      same (String.toList_inj.mp (Key.text.inj keys))
    rw [if_neg same, if_neg differs, get?]

theorem get?_nil (name : String) : get? [] name = none := rfl

/-- The fields of a written entry. -/
theorem field_asDict (entry : PendingEntry) :
    ∃ members, entry.asDict = .map members
      ∧ field members "legal_id" = .scalar (.text entry.legalId)
      ∧ field members "source" = .scalar (.text entry.source)
      ∧ field members "since" = .scalar (.text entry.since)
      ∧ field members "note" = (entry.shownNote.elim (.scalar .null) fun note => .scalar (.text note)) := by
  refine ⟨_, rfl, ?_, ?_, ?_, ?_⟩
  · simp only [field, List.cons_append, get?_cons, if_true, Option.getD_some]
  · simp only [field, List.cons_append, get?_cons, String.reduceEq, if_true, if_false, Option.getD_some]
  · simp only [field, List.cons_append, get?_cons, String.reduceEq, if_true, if_false, Option.getD_some]
  · cases entry.shownNote <;>
      simp only [field, List.cons_append, List.nil_append, get?_cons, get?_nil, String.reduceEq,
        if_true, if_false, Option.toList_none, Option.toList_some, List.map_nil, List.map_cons,
        Option.getD_some, Option.getD_none, Option.elim_none, Option.elim_some]

theorem parseEntry_asDict (clean : entry.Clean) (fresh : entry.legalId ∉ seen) :
    parseEntry repr path repo place seen entry.asDict = .ok (entry.reread path repo) := by
  obtain ⟨sourceTrimmed, sourced⟩ := strip_source clean.source
  obtain ⟨members, isMap, isLegalId, isSource, isSince, isNote⟩ := field_asDict entry
  rw [isMap, parseEntry, isLegalId]
  simp only [clean.legalId, if_neg clean.named, if_neg fresh, isSource, sourceTrimmed, if_neg sourced,
    if_neg (not_not.mpr clean.source), isSince, coerceDate_text clean.since clean.isDate, isNote,
    PendingEntry.reread]
  cases isShown : entry.shownNote with
  | none => rfl
  | some note =>
    obtain ⟨held, -⟩ := Option.filter_eq_some_iff.mp isShown
    have trimmed := clean.note
    rw [held, Option.map_some] at trimmed
    simp only [Option.elim_some, Option.some.inj trimmed]

theorem parseEntries_asDict (index : Nat) (seen : List Text) (entries : List PendingEntry)
    (clean : ∀ entry ∈ entries, entry.Clean) (distinct : (entries.map PendingEntry.legalId).Nodup)
    (fresh : ∀ entry ∈ entries, entry.legalId ∉ seen) :
    parseEntries repr path repo index seen (entries.map PendingEntry.asDict)
      = .ok (entries.map (PendingEntry.reread path repo)) := by
  induction entries generalizing index seen with
  | nil => rfl
  | cons entry entries ih =>
    rw [List.forall_mem_cons] at clean fresh
    rw [List.map_cons, List.nodup_cons] at distinct
    have rest := ih (index + 1) (entry.legalId :: seen) clean.2 distinct.2 (by
      intro other declared isSeen
      rcases List.mem_cons.mp isSeen with same | isSeen
      · exact distinct.1 (same ▸ List.mem_map_of_mem declared)
      · exact fresh.2 other declared isSeen)
    simp only [List.map_cons, parseEntries, parseEntry_asDict clean.1 fresh.1]
    rw [PendingEntry.reread, rest]

theorem field_pendingPayload (entries : List PendingEntry) (ceiling : Nat) (issue : Option Text) :
    ∃ members, pendingPayload entries ceiling issue = .map members
      ∧ field members "version" = .scalar (.int 1)
      ∧ field members "ceiling" = .scalar (.int ceiling)
      ∧ field members "issue" = ((issue.filter fun issue => issue ≠ []).elim (.scalar .null)
          fun issue => .scalar (.text issue))
      ∧ field members "entries" = .seq ((entries.insertionSort fun a b => a.legalId ≤ b.legalId).map
          PendingEntry.asDict) := by
  refine ⟨_, rfl, ?_, ?_, ?_, ?_⟩ <;>
    cases issue.filter fun issue => issue ≠ [] <;>
      simp only [field, List.cons_append, List.nil_append, get?_cons, get?_nil, String.reduceEq,
        if_true, if_false, Option.toList_none, Option.toList_some, List.map_nil, List.map_cons,
        Option.getD_some, Option.getD_none, Option.elim_none, Option.elim_some]

/-- **Parsing the written payload gives the entries back.** -/
theorem parsePendingPayload_written (clean : ∀ entry ∈ entries, entry.Clean)
    (distinct : (entries.map PendingEntry.legalId).Nodup) {issue : Option Text} {ceiling : Nat} :
    parsePendingPayload repr (pendingPayload entries ceiling issue) path repo
      = .ok ⟨path, repo,
          (entries.insertionSort fun a b => a.legalId ≤ b.legalId).map (PendingEntry.reread path repo),
          some ceiling, issue.filter fun issue => issue ≠ []⟩ := by
  obtain ⟨members, isMap, isVersion, isCeiling, isIssue, isEntries⟩ :=
    field_pendingPayload entries ceiling issue
  have perm := List.perm_insertionSort (fun a b => a.legalId ≤ b.legalId) entries
  have parsed := @parseEntries_asDict repr path repo 0 []
    (entries.insertionSort fun a b => a.legalId ≤ b.legalId)
    (fun entry declared => clean entry (perm.mem_iff.mp declared))
    ((perm.map PendingEntry.legalId).nodup_iff.mpr distinct) (fun entry _ isSeen => nomatch isSeen)
  have version : alike Scalar.key (.scalar (.int 1)) (.scalar (.int 1)) = true := by decide
  have isCeiling' : parseCeiling path (.scalar (.int ceiling)) = .ok (some (ceiling : Int)) := by
    rw [parseCeiling, if_neg (by omega)]
  have isIssue' : parseIssue path ((issue.filter fun issue => issue ≠ []).elim (.scalar .null)
      fun issue => .scalar (.text issue)) = .ok (issue.filter fun issue => issue ≠ []) := by
    cases issue.filter fun issue => issue ≠ [] <;> rfl
  rw [parsePendingPayload, isMap]
  refine bind_eq_ok_iff.mpr ⟨members, rfl, ?_⟩
  rw [isVersion, version, if_neg (by decide), isCeiling, isIssue, isEntries]
  refine bind_eq_ok_iff.mpr ⟨_, isCeiling', ?_⟩
  refine bind_eq_ok_iff.mpr ⟨_, isIssue', ?_⟩
  exact bind_eq_ok_iff.mpr ⟨_, rfl, bind_eq_ok_iff.mpr ⟨_, parsed, rfl⟩⟩

/-- **The entries of a parsed file are clean, and no id occurs twice.** -/
theorem parsePendingPayload_clean {payload : Value} {file : PendingFile}
    (parsed : parsePendingPayload repr payload path repo = .ok file) :
    (∀ entry ∈ file.entries, entry.Clean) ∧ (file.entries.map PendingEntry.legalId).Nodup := by
  obtain ⟨members, -, parsed⟩ := bind_eq_ok_iff.mp parsed
  split at parsed
  · cases parsed
  · obtain ⟨ceiling, -, parsed⟩ := bind_eq_ok_iff.mp parsed
    obtain ⟨issue, -, parsed⟩ := bind_eq_ok_iff.mp parsed
    obtain ⟨raws, -, parsed⟩ := bind_eq_ok_iff.mp parsed
    obtain ⟨entries, isEntries, isFile⟩ := bind_eq_ok_iff.mp parsed
    cases isFile
    obtain ⟨clean, distinct⟩ := parseEntries_clean isEntries
    exact ⟨fun entry declared => (clean entry declared).1, distinct⟩

end Parsed

end AxiomEncode.Oracle
