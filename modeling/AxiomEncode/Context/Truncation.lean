/-
# Context.Truncation -- what is visible of a cut text

A rendered text that is cut by `trim` characters of its body and then by `cut` characters at its end
is read back exactly when the cut is `Spared`: no cut ends inside a marker, and no body goes on
with the first character of the marker it is cut for (`visible_iff`).
-/
import AxiomEncode.Context.Amendments
import AxiomEncode.Theory.CommonPrefix

namespace AxiomEncode.Context

open Theory

set_option autoImplicit false

/-- A body that exceeds the limit is omitted. -/
def Omitted (document : AmendmentDocument) : Prop := amendmentBodyLimit < document.body.length

instance (document : AmendmentDocument) : Decidable (Omitted document) :=
  inferInstanceAs (Decidable (_ < _))

/-- What is visible of a body is the longest prefix of it after the header, and nothing of a body
that is omitted. -/
structure Visible (document : AmendmentDocument) (renderedText visible : Text) : Prop where
  omitted : Omitted document → visible = []
  shown : ¬ Omitted document → ∀ rest, renderedText = header document ++ rest →
    LongestCommon visible document.body rest
  noHeader : ¬ header document <+: renderedText → visible = []

/-- The characters that can be trimmed from a shown body. -/
def slack (body : Text) : Nat :=
  if "[body omitted:".toList <+: body then 0 else body.length - bodyTruncatedMarker.length

/-- A body after `trim` characters are to go. -/
def trimmed (body : Text) (trim : Nat) : Text :=
  if trim = 0 ∨ slack body = 0 then body
  else body.take (body.length - trim - bodyTruncatedMarker.length) ++ bodyTruncatedMarker

/-- A text after `cut` characters are to go. -/
def cutText (text : Text) (cut : Nat) : Text :=
  if cut = 0 ∨ text.length ≤ contextTruncatedMarker.length then text
  else text.take (text.length - cut - contextTruncatedMarker.length) ++ contextTruncatedMarker

/-- The body does not go on with the first character of a marker. -/
def EndsAt (body : Text) (n : Nat) : Prop := body[n]? ≠ some '.'

instance (body : Text) (n : Nat) : Decidable (EndsAt body n) := inferInstanceAs (Decidable (_ ≠ _))

/-- The cuts of a document leave what can be read back. -/
def Spared (document : AmendmentDocument) (trim cut : Nat) : Prop :=
  let body := shownBody document
  trim = 0 ∨
    if slack body = 0 then
      cut = 0 ∨
        if Omitted document then bodyOmittedMarker.length ≤ cut + contextTruncatedMarker.length
        else body.length < cut + contextTruncatedMarker.length
          ∨ EndsAt body (body.length - cut - contextTruncatedMarker.length)
    else if cut = 0 then EndsAt body (body.length - trim - bodyTruncatedMarker.length)
    else
      bodyTruncatedMarker.length < cut + contextTruncatedMarker.length
        ∨ bodyTruncatedMarker.take (bodyTruncatedMarker.length - cut - contextTruncatedMarker.length)
            <+: body
          ∧ EndsAt body (bodyTruncatedMarker.length - cut - contextTruncatedMarker.length)

instance (document : AmendmentDocument) (trim cut : Nat) : Decidable (Spared document trim cut) := by
  unfold Spared
  infer_instance

section Read

variable {repr : Text → Text} {document : AmendmentDocument} {body rest kept text : Text} {trim cut : Nat}

theorem length_bodyTruncatedMarker : bodyTruncatedMarker.length = 63 := by decide

theorem length_contextTruncatedMarker : contextTruncatedMarker.length = 58 := by decide

theorem length_bodyOmittedMarker : bodyOmittedMarker.length = 61 := by decide

theorem length_fields {a b c d e f g h i text : Text} {fixed : Nat}
    (isText : text = a ++ b ++ c ++ d ++ e ++ f ++ g ++ h ++ i ++ ['\n'])
    (isFixed : a.length + c.length + e.length + g.length + i.length = fixed) :
    text.length = fixed + (b.length + d.length + f.length + h.length) + 1 := by
  rw [isText]
  simp only [List.length_append, List.length_singleton]
  omega

/-- The length of a header. -/
theorem length_header (document : AmendmentDocument) :
    (header document).length = 66 + (document.title.length + document.citationPath.length
      + ((document.expressionDate.filter fun date => date ≠ []).getD "unknown".toList).length
      + (renderBoundedMetadata document.metadata "amendment".toList).length) + 1 :=
  have isHeader : header document = _ := rfl
  length_fields isHeader (by decide)

/-- A header is longer than a marker and ends in a newline. -/
theorem exists_header (document : AmendmentDocument) :
    ∃ start, header document = start ++ ['\n'] ∧ contextTruncatedMarker.length ≤ start.length := by
  obtain ⟨start, isHeader⟩ : ∃ start, header document = start ++ ['\n'] := ⟨_, rfl⟩
  have long := length_header document
  rw [isHeader, List.length_append, List.length_singleton] at long
  rw [length_contextTruncatedMarker]
  exact ⟨start, isHeader, by omega⟩

theorem length_header_lt (document : AmendmentDocument) :
    contextTruncatedMarker.length < (header document).length := by
  obtain ⟨start, isHeader, long⟩ := exists_header document
  rw [isHeader, List.length_append, List.length_singleton]
  omega

/-- A text does not end in both markers. -/
theorem not_suffix_of_suffix (isSuffix : contextTruncatedMarker <:+ text) :
    ¬ bodyTruncatedMarker <:+ text := by
  intro isSuffix'
  have ends : contextTruncatedMarker <:+ bodyTruncatedMarker :=
    List.suffix_of_suffix_length_le isSuffix isSuffix' (by decide)
  have differs : ¬ contextTruncatedMarker <:+ bodyTruncatedMarker := by decide
  exact differs ends

/-- The header is read of any text that begins with it. -/
theorem visible_of_header (differs : rest ≠ document.body) (differs' : rest ≠ bodyOmittedMarker) :
    visibleAmendmentBody repr document (header document ++ rest)
      = visiblePrefix repr document rest [bodyTruncatedMarker, contextTruncatedMarker] := by
  rw [visibleAmendmentBody, renderAmendmentDocument, renderAmendmentDocument, if_neg (by simpa using differs),
    if_neg (by simpa using differs')]
  have isHeader : renderAmendmentDocument document [] = header document := List.append_nil _
  rw [isHeader, if_neg (not_not.mpr (List.prefix_append _ _)), List.drop_left]

variable {marker : Text}

/-- What is read before a marker at the end. -/
theorem visiblePrefix_append {markers : List Text} :
    visiblePrefix repr document (kept ++ marker) (marker :: markers)
      = if kept <+: document.body then .ok (if kept = [] then none else some kept)
        else
          .error ("Eval amendment context body does not match discovered corpus document ".toList
            ++ repr document.citationPath) := by
  have isKept : (kept ++ marker).take ((kept ++ marker).length - marker.length) = kept := by
    rw [List.length_append, Nat.add_sub_cancel, List.take_left]
  rw [visiblePrefix, if_pos (List.suffix_append _ _)]
  simp only [isKept]

/-- A text whose body ends in either marker. -/
theorem visible_of_marker (isMarker : marker ∈ [bodyTruncatedMarker, contextTruncatedMarker])
    (differs : kept ++ marker ≠ document.body) (differs' : kept ++ marker ≠ bodyOmittedMarker) :
    visibleAmendmentBody repr document (header document ++ (kept ++ marker))
      = if kept <+: document.body then .ok (if kept = [] then none else some kept)
        else
          .error ("Eval amendment context body does not match discovered corpus document ".toList
            ++ repr document.citationPath) := by
  rw [visible_of_header differs differs']
  rcases List.mem_cons.mp isMarker with rfl | isMarker
  · exact visiblePrefix_append
  · rw [List.mem_singleton] at isMarker
    subst isMarker
    rw [visiblePrefix, if_neg (not_suffix_of_suffix (List.suffix_append _ _))]
    exact visiblePrefix_append

/-- A text that is cut before its body. -/
theorem visible_of_noHeader (noHeader : ¬ header document <+: text)
    (isSuffix : contextTruncatedMarker <:+ text) :
    visibleAmendmentBody repr document text = .ok none := by
  have noBody : ∀ body, text ≠ renderAmendmentDocument document body := by
    rintro body rfl
    exact noHeader (List.prefix_append _ _)
  have isHeader : renderAmendmentDocument document [] = header document := List.append_nil _
  rw [visibleAmendmentBody, if_neg (noBody _), if_neg (noBody _), isHeader, if_pos noHeader, if_pos isSuffix]

/-! ## Reading back -/

/-- The text is read back, and what is read is what is visible. -/
def ReadsBack (repr : Text → Text) (document : AmendmentDocument) (text : Text) : Prop :=
  ∃ visible, visibleAmendmentBody repr document text = .ok visible
    ∧ Visible document text (visible.getD [])

theorem markers_start (isMarker : marker ∈ [bodyTruncatedMarker, contextTruncatedMarker]) :
    ∃ rest, marker = '.' :: rest := by
  rcases List.mem_cons.mp isMarker with rfl | isMarker
  · have isHead : '.' ∈ bodyTruncatedMarker.head? := by decide
    exact ⟨_, (List.cons_head?_tail isHead).symm⟩
  · have isHead : '.' ∈ contextTruncatedMarker.head? := by decide
    rw [List.mem_singleton.mp isMarker]
    exact ⟨_, (List.cons_head?_tail isHead).symm⟩

theorem append_marker_ne (isMarker : marker ∈ [bodyTruncatedMarker, contextTruncatedMarker]) :
    kept ++ marker ≠ bodyOmittedMarker := by
  intro same
  have isSuffix : marker <:+ bodyOmittedMarker := ⟨kept, same⟩
  have noSuffix : ∀ marker ∈ [bodyTruncatedMarker, contextTruncatedMarker], ¬ marker <:+ bodyOmittedMarker := by
    decide
  exact noSuffix marker isMarker isSuffix

/-- A shown body without a cut is read back. -/
theorem readsBack_shown : ReadsBack repr document (renderAmendmentDocument document (shownBody document)) := by
  by_cases omitted : Omitted document
  · have isShown : shownBody document = bodyOmittedMarker := if_neg (not_le.mpr omitted)
    have differs : renderAmendmentDocument document (shownBody document)
        ≠ renderAmendmentDocument document document.body := by
      intro same
      have sameLength := congrArg List.length (List.append_cancel_left same)
      rw [isShown, length_bodyOmittedMarker] at sameLength
      rw [Omitted, amendmentBodyLimit] at omitted
      omega
    refine ⟨none, ?_, fun _ => rfl, fun shown => absurd omitted shown, fun _ => rfl⟩
    rw [visibleAmendmentBody, if_neg differs, if_pos (by rw [isShown])]
  · have isShown : shownBody document = document.body := if_pos (not_lt.mp omitted)
    rw [isShown]
    refine ⟨some document.body, if_pos rfl, fun omitted' => absurd omitted' omitted, ?_, ?_⟩
    · intro _ rest same
      rw [← List.append_cancel_left same]
      exact longestCommon_self
    · intro noHeader
      exact absurd (List.prefix_append _ _) noHeader

/-- What is kept of a body before a marker. -/
theorem readsBack_marker_iff (isMarker : marker ∈ [bodyTruncatedMarker, contextTruncatedMarker])
    (shown : ¬ Omitted document) (differs : kept ++ marker ≠ document.body) :
    ReadsBack repr document (header document ++ (kept ++ marker))
      ↔ kept <+: document.body ∧ EndsAt document.body kept.length := by
  obtain ⟨rest, startsDot⟩ := markers_start isMarker
  have kept_getD : (if kept = [] then none else some kept).getD [] = kept := by
    split_ifs with empty
    · exact empty.symm
    · rfl
  rw [ReadsBack, visible_of_marker isMarker differs (append_marker_ne isMarker)]
  by_cases isPrefix : kept <+: document.body
  · rw [if_pos isPrefix]
    constructor
    · rintro ⟨visible, same, isVisible⟩
      rw [← Except.ok.inj same, kept_getD] at isVisible
      have longest := isVisible.shown shown _ rfl
      rw [startsDot] at longest
      exact ⟨isPrefix, (longestCommon_mark_iff isPrefix).mp longest⟩
    · rintro ⟨-, ends⟩
      refine ⟨_, rfl, ?_⟩
      rw [kept_getD]
      refine ⟨fun omitted => absurd omitted shown, ?_, fun noHeader => ?_⟩
      · intro _ rest' same
        rw [← List.append_cancel_left same, startsDot]
        exact (longestCommon_mark_iff isPrefix).mpr ends
      · exact absurd (List.prefix_append _ _) noHeader
  · rw [if_neg isPrefix]
    constructor
    · rintro ⟨visible, same, -⟩
      cases same
    · rintro ⟨isPrefix', -⟩
      exact absurd isPrefix' isPrefix

/-- What is kept of the marker of an omitted body. -/
theorem readsBack_omitted_iff (isMarker : marker ∈ [bodyTruncatedMarker, contextTruncatedMarker])
    (omitted : Omitted document) (differs : kept ++ marker ≠ document.body) :
    ReadsBack repr document (header document ++ (kept ++ marker)) ↔ kept = [] := by
  rw [ReadsBack, visible_of_marker isMarker differs (append_marker_ne isMarker)]
  split_ifs with isPrefix empty
  · refine ⟨fun _ => empty, fun _ => ⟨none, rfl, fun _ => rfl, fun shown => absurd omitted shown, ?_⟩⟩
    exact fun _ => rfl
  · constructor
    · rintro ⟨visible, same, isVisible⟩
      cases same
      exact isVisible.omitted omitted
    · exact fun empty' => absurd empty' empty
  · constructor
    · rintro ⟨visible, same, -⟩
      cases same
    · rintro rfl
      exact absurd List.nil_prefix isPrefix

theorem readsBack_noHeader (noHeader : ¬ header document <+: text) (isSuffix : contextTruncatedMarker <:+ text) :
    ReadsBack repr document text := by
  refine ⟨none, visible_of_noHeader noHeader isSuffix, fun _ => rfl, ?_, fun _ => rfl⟩
  rintro - rest rfl
  exact absurd (List.prefix_append _ _) noHeader

/-! ## Cuts -/

/-- A cut within the body. -/
theorem cutText_body (positive : 0 < cut) (inBody : cut + contextTruncatedMarker.length ≤ body.length) :
    cutText (header document ++ body) cut
      = header document
        ++ (body.take (body.length - cut - contextTruncatedMarker.length) ++ contextTruncatedMarker) := by
  have long := length_header_lt document
  have isCut : ¬ (cut = 0 ∨ (header document ++ body).length ≤ contextTruncatedMarker.length) := by
    rw [List.length_append]
    omega
  have place : (header document ++ body).length - cut - contextTruncatedMarker.length
      = (header document).length + (body.length - cut - contextTruncatedMarker.length) := by
    rw [List.length_append]
    omega
  rw [cutText, if_neg isCut, place, List.take_length_add_append, List.append_assoc]

/-- A line that is cut does not end in a marker without a newline. -/
theorem not_prefix_take {start : Text} (n : Nat) (noLine : '\n' ∉ marker) :
    ¬ start ++ ['\n'] <+: start.take n ++ marker := by
  intro covers
  have inMarker : start.drop n ++ ['\n'] <+: marker := by
    rw [← List.prefix_append_right_inj (start.take n), ← List.append_assoc, List.take_append_drop]
    exact covers
  exact noLine (inMarker.subset (by simp))

/-- A cut before the body. -/
theorem cutText_header (document : AmendmentDocument) (positive : 0 < cut)
    (before : body.length < cut + contextTruncatedMarker.length) :
    ¬ header document <+: cutText (header document ++ body) cut
      ∧ contextTruncatedMarker <:+ cutText (header document ++ body) cut := by
  have long := length_header_lt document
  have isCut : ¬ (cut = 0 ∨ (header document ++ body).length ≤ contextTruncatedMarker.length) := by
    rw [List.length_append]
    omega
  rw [cutText, if_neg isCut]
  refine ⟨?_, List.suffix_append _ _⟩
  obtain ⟨start, isHeader, longStart⟩ := exists_header document
  have place : (header document ++ body).length - cut - contextTruncatedMarker.length ≤ start.length := by
    rw [isHeader]
    simp only [List.length_append, List.length_singleton]
    omega
  have taken : (header document ++ body).take ((header document ++ body).length - cut - contextTruncatedMarker.length)
      = start.take ((header document ++ body).length - cut - contextTruncatedMarker.length) := by
    rw [isHeader, List.append_assoc, List.take_append_of_le_length]
    rwa [isHeader, List.append_assoc] at place
  rw [taken, isHeader]
  exact not_prefix_take _ (by decide)

/-! ## What is spared -/

theorem not_omitted_of_slack (positive : 0 < slack (shownBody document)) :
    ¬ Omitted document ∧ shownBody document = document.body
      ∧ bodyTruncatedMarker.length < document.body.length
      ∧ slack (shownBody document) = document.body.length - bodyTruncatedMarker.length := by
  have isMarker : "[body omitted:".toList <+: bodyOmittedMarker := by decide
  have shown : ¬ Omitted document := by
    intro omitted
    rw [shownBody, if_neg (not_le.mpr omitted), slack, if_pos isMarker] at positive
    omega
  have isShown : shownBody document = document.body := if_pos (not_lt.mp shown)
  rw [isShown] at positive ⊢
  rw [slack] at positive ⊢
  split_ifs at positive ⊢ with isPrefix
  · omega
  · exact ⟨shown, rfl, by omega, rfl⟩

/-- Only the end of the text is cut. -/
theorem readsBack_untrimmed_iff (positive : 0 < cut) :
    ReadsBack repr document (cutText (renderAmendmentDocument document (shownBody document)) cut)
      ↔ if Omitted document then bodyOmittedMarker.length ≤ cut + contextTruncatedMarker.length
        else (shownBody document).length < cut + contextTruncatedMarker.length
          ∨ EndsAt (shownBody document)
            ((shownBody document).length - cut - contextTruncatedMarker.length) := by
  have isMarker : contextTruncatedMarker ∈ [bodyTruncatedMarker, contextTruncatedMarker] := by simp
  have markerLength := length_contextTruncatedMarker
  have omittedLength := length_bodyOmittedMarker
  rcases Nat.lt_or_ge (shownBody document).length (cut + contextTruncatedMarker.length) with before | inBody
  · obtain ⟨noHeader, isSuffix⟩ := cutText_header document positive before
    refine iff_of_true (readsBack_noHeader noHeader isSuffix) ?_
    split_ifs with omitted
    · rw [shownBody, if_neg (not_le.mpr omitted)] at before
      exact before.le
    · exact .inl before
  rw [renderAmendmentDocument, cutText_body positive inBody]
  split_ifs with omitted
  · have isShown : shownBody document = bodyOmittedMarker := if_neg (not_le.mpr omitted)
    rw [isShown] at inBody ⊢
    rw [readsBack_omitted_iff isMarker omitted, List.take_eq_nil_iff]
    · have nonempty : bodyOmittedMarker ≠ [] := List.ne_nil_of_length_pos (by omega)
      simp only [nonempty, or_false]
      omega
    · intro same
      have sameLength := congrArg List.length same
      rw [Omitted, amendmentBodyLimit] at omitted
      rw [List.length_append, List.length_take] at sameLength
      omega
  · have isShown : shownBody document = document.body := if_pos (not_lt.mp omitted)
    rw [isShown] at inBody ⊢
    rw [readsBack_marker_iff isMarker omitted]
    · have keptLength : (document.body.take (document.body.length - cut - contextTruncatedMarker.length)).length
          = document.body.length - cut - contextTruncatedMarker.length := by
        rw [List.length_take]
        omega
      rw [keptLength, or_iff_right (not_lt.mpr inBody)]
      exact and_iff_right (List.take_prefix _ _)
    · intro same
      have sameLength := congrArg List.length same
      rw [List.length_append, List.length_take] at sameLength
      omega

/-- The body is trimmed, and the text is cut only if nothing is left of the body. -/
theorem readsBack_trimmed_iff (positive : 0 < slack (shownBody document)) (isTrim : 0 < trim)
    (exhausted : 0 < cut → slack (shownBody document) < trim) :
    ReadsBack repr document
        (cutText (renderAmendmentDocument document (trimmed (shownBody document) trim)) cut)
      ↔ if cut = 0 then
          EndsAt (shownBody document) ((shownBody document).length - trim - bodyTruncatedMarker.length)
        else bodyTruncatedMarker.length < cut + contextTruncatedMarker.length
          ∨ bodyTruncatedMarker.take (bodyTruncatedMarker.length - cut - contextTruncatedMarker.length)
              <+: shownBody document
            ∧ EndsAt (shownBody document)
              (bodyTruncatedMarker.length - cut - contextTruncatedMarker.length) := by
  have markerLength := length_contextTruncatedMarker
  have bodyLength := length_bodyTruncatedMarker
  have isTrimmed : ¬ (trim = 0 ∨ slack (shownBody document) = 0) := by omega
  obtain ⟨shown, isShown, longer, isSlack⟩ := not_omitted_of_slack positive
  rw [trimmed, if_neg isTrimmed]
  rw [isShown] at exhausted isSlack ⊢
  rcases Nat.eq_zero_or_pos cut with noCut | isCut
  · rw [if_pos noCut, noCut, cutText, if_pos (.inl rfl), renderAmendmentDocument,
      readsBack_marker_iff (by simp) shown]
    · have keptLength : (document.body.take (document.body.length - trim - bodyTruncatedMarker.length)).length
          = document.body.length - trim - bodyTruncatedMarker.length := by
        rw [List.length_take]
        omega
      rw [keptLength]
      exact and_iff_right (List.take_prefix _ _)
    · intro same
      have sameLength := congrArg List.length same
      rw [List.length_append, List.length_take] at sameLength
      omega
  · have nothingLeft : document.body.length - trim - bodyTruncatedMarker.length = 0 := by
      have := exhausted isCut
      omega
    rw [if_neg isCut.ne', nothingLeft, List.take_zero, List.nil_append]
    rcases Nat.lt_or_ge bodyTruncatedMarker.length (cut + contextTruncatedMarker.length) with before | inMarker
    · obtain ⟨noHeader, isSuffix⟩ := cutText_header document isCut before
      exact iff_of_true (readsBack_noHeader noHeader isSuffix) (.inl before)
    rw [renderAmendmentDocument, cutText_body isCut inMarker, readsBack_marker_iff (by simp) shown,
      or_iff_right (not_lt.mpr inMarker)]
    · have keptLength : (bodyTruncatedMarker.take
          (bodyTruncatedMarker.length - cut - contextTruncatedMarker.length)).length
          = bodyTruncatedMarker.length - cut - contextTruncatedMarker.length := by
        rw [List.length_take]
        omega
      rw [keptLength]
    · intro same
      have sameLength := congrArg List.length same
      rw [List.length_append, List.length_take] at sameLength
      omega

/-- **A cut text is read back exactly when its cuts are spared.** -/
theorem readsBack_cut_iff (exhausted : 0 < cut → slack (shownBody document) < trim) :
    ReadsBack repr document
        (cutText (renderAmendmentDocument document (trimmed (shownBody document) trim)) cut)
      ↔ Spared document trim cut := by
  rw [Spared]
  rcases Nat.eq_zero_or_pos trim with untouched | isTrim
  · have noCut : cut = 0 := by
      by_contra positive
      have := exhausted (Nat.pos_of_ne_zero positive)
      omega
    rw [noCut, cutText, if_pos (.inl rfl), trimmed, if_pos (.inl untouched)]
    exact iff_of_true readsBack_shown (.inl untouched)
  rw [or_iff_right isTrim.ne']
  rcases Nat.eq_zero_or_pos (slack (shownBody document)) with noSlack | positive
  · rw [if_pos noSlack, trimmed, if_pos (.inr noSlack)]
    rcases Nat.eq_zero_or_pos cut with noCut | isCut
    · rw [noCut, cutText, if_pos (.inl rfl)]
      exact iff_of_true readsBack_shown (.inl rfl)
    · rw [or_iff_right isCut.ne']
      exact readsBack_untrimmed_iff isCut
  · rw [if_neg positive.ne']
    exact readsBack_trimmed_iff positive isTrim exhausted

end Read

end AxiomEncode.Context
