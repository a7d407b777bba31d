/-
# Context.Loops -- what the loops over the documents do

The loops over the bodies and over the texts take from each document what the later ones have left
over (`trimBodies_spec`, `cutTexts_spec`), so that the whole always fits
(`renderLegacy_spec`).  The loop over the tiers drops a beginning of its order
(`dropUntilFits_spec`).
-/
import AxiomEncode.Context.Truncation

namespace AxiomEncode.Context

open Theory

set_option autoImplicit false

/-- The characters that can be trimmed from the bodies of documents. -/
def slackSum (entries : List (AmendmentDocument × Text)) : Nat :=
  (entries.map fun entry => slack entry.2).sum

/-- The characters that can be cut from texts. -/
def roomSum (texts : List Text) : Nat :=
  (texts.map fun text => text.length - contextTruncatedMarker.length).sum

def lengthSum (texts : List Text) : Int := (texts.map fun text => (text.length : Int)).sum

/-- The bodies after `trim` characters are to go from the last ones on. -/
def trimmedAll : List (AmendmentDocument × Text) → Nat → List (AmendmentDocument × Text)
  | [], _ => []
  | (document, body) :: rest, trim =>
    (document, trimmed body (trim - slackSum rest)) :: trimmedAll rest trim

/-- The texts after `cut` characters are to go from the last ones on. -/
def cutAll : List Text → Nat → List Text
  | [], _ => []
  | text :: rest, cut => cutText text (cut - roomSum rest) :: cutAll rest cut

/-- The texts of documents with bodies. -/
def renderAll (entries : List (AmendmentDocument × Text)) : List Text :=
  entries.map fun entry => renderAmendmentDocument entry.1 entry.2

section Bodies

variable {document : AmendmentDocument} {body : Text} {overflow : Int}
  {entries : List (AmendmentDocument × Text)}

theorem slack_of_omitted (isPrefix : "[body omitted:".toList <+: body) : slack body = 0 := if_pos isPrefix

theorem slack_of_not_omitted (noPrefix : ¬ "[body omitted:".toList <+: body) :
    slack body = body.length - bodyTruncatedMarker.length := if_neg noPrefix

theorem trimmed_zero (body : Text) : trimmed body 0 = body := if_pos (.inl rfl)

/-- One turn of the loop over the bodies. -/
theorem trimBody_spec (document : AmendmentDocument) (body : Text) (positive : 0 < overflow) :
    (trimBody document body overflow).1 = trimmed body overflow.toNat
      ∧ (trimBody document body overflow).2
        = overflow - (body.length - (trimBody document body overflow).1.length)
      ∧ (trimBody document body overflow).2.toNat = overflow.toNat - slack body := by
  rw [trimBody]
  by_cases isPrefix : "[body omitted:".toList <+: body
  · have noSlack := slack_of_omitted isPrefix
    rw [if_pos isPrefix, trimmed, if_pos (.inr noSlack), noSlack]
    exact ⟨rfl, by dsimp only; omega, rfl⟩
  rw [if_neg isPrefix]
  have isSlack := slack_of_not_omitted isPrefix
  by_cases short : (max (bodyTruncatedMarker.length : Int) (body.length - overflow)) ≥ body.length
  · have noSlack : slack body = 0 := by omega
    simp only [if_pos short]
    rw [trimmed, if_pos (.inr noSlack), noSlack]
    exact ⟨rfl, by omega, rfl⟩
  · simp only [if_neg short]
    have isTrimmed : ¬ (overflow.toNat = 0 ∨ slack body = 0) := by omega
    have place : (max (bodyTruncatedMarker.length : Int) (body.length - overflow)
        - bodyTruncatedMarker.length).toNat
          = body.length - overflow.toNat - bodyTruncatedMarker.length := by omega
    have taken : (body.take (body.length - overflow.toNat - bodyTruncatedMarker.length)).length
        = body.length - overflow.toNat - bodyTruncatedMarker.length := by
      rw [List.length_take]
      omega
    rw [trimmed, if_neg isTrimmed, place]
    refine ⟨rfl, ?_, ?_⟩
    · simp only [renderAmendmentDocument, List.length_append]
      push_cast
      omega
    · simp only [renderAmendmentDocument, List.length_append, taken]
      push_cast
      omega

theorem slackSum_cons : slackSum ((document, body) :: entries) = slack body + slackSum entries := by
  rw [slackSum, List.map_cons, List.sum_cons, slackSum]

theorem lengthSum_cons (text : Text) (texts : List Text) :
    lengthSum (text :: texts) = text.length + lengthSum texts := by
  rw [lengthSum, List.map_cons, List.sum_cons, lengthSum]

/-- The loop over the bodies. -/
theorem trimBodies_spec : ∀ (entries : List (AmendmentDocument × Text)) (overflow : Int),
    (trimBodies entries overflow).1 = trimmedAll entries overflow.toNat
      ∧ (trimBodies entries overflow).2.toNat = overflow.toNat - slackSum entries
      ∧ (trimBodies entries overflow).2
        = overflow - (lengthSum (renderAll entries) - lengthSum (renderAll (trimBodies entries overflow).1))
  | [], overflow => ⟨rfl, rfl, by simp [trimBodies]⟩
  | (document, body) :: rest, overflow => by
    obtain ⟨isRest, left, balance⟩ := trimBodies_spec rest overflow
    rw [trimBodies, trimmedAll, slackSum_cons]
    by_cases done : (trimBodies rest overflow).2 ≤ 0
    · have nothing : overflow.toNat - slackSum rest = 0 := by omega
      simp only [if_pos done]
      refine ⟨by rw [nothing, trimmed_zero, isRest], by omega, ?_⟩
      simp only [renderAll, List.map_cons, lengthSum_cons]
      simp only [renderAll] at balance
      omega
    · obtain ⟨isBody, balanceBody, leftBody⟩ := trimBody_spec document body (not_le.mp done)
      simp only [if_neg done]
      refine ⟨by rw [isBody, left, isRest], by omega, ?_⟩
      simp only [renderAll, List.map_cons, lengthSum_cons, renderAmendmentDocument, List.length_append]
      simp only [renderAll, renderAmendmentDocument] at balance
      push_cast
      omega

end Bodies

section Texts

variable {front overflow : Int} {texts : List Text} {text : Text} {cut : Nat}

theorem roomSum_cons : roomSum (text :: texts)
    = (text.length - contextTruncatedMarker.length) + roomSum texts := by
  rw [roomSum, List.map_cons, List.sum_cons, roomSum]

theorem cutText_zero (text : Text) : cutText text 0 = text := if_pos (.inl rfl)

theorem cutAll_zero : ∀ texts : List Text, cutAll texts 0 = texts
  | [] => rfl
  | text :: texts => by rw [cutAll, Nat.zero_sub, cutText_zero, cutAll_zero]

/-- The loop over the texts. -/
theorem cutTexts_spec : ∀ (texts : List Text) (front overflow : Int),
    overflow = front + lengthSum texts - injectedContextLimit →
    (cutTexts front texts overflow).1 = cutAll texts overflow.toNat
      ∧ (cutTexts front texts overflow).2.toNat = overflow.toNat - roomSum texts
      ∧ (cutTexts front texts overflow).2
        = front + lengthSum (cutTexts front texts overflow).1 - injectedContextLimit
  | [], front, overflow, balance => ⟨rfl, rfl, balance⟩
  | text :: rest, front, overflow, balance => by
    rw [lengthSum_cons] at balance
    obtain ⟨isRest, left, balanceRest⟩ := cutTexts_spec rest (front + text.length) overflow (by omega)
    rw [cutTexts, cutAll, roomSum_cons]
    by_cases done : (cutTexts (front + text.length) rest overflow).2 ≤ 0
    · have nothing : overflow.toNat - roomSum rest = 0 := by omega
      simp only [if_pos done]
      refine ⟨by rw [nothing, cutText_zero, isRest], by omega, ?_⟩
      rw [lengthSum_cons]
      omega
    · simp only [if_neg done]
      by_cases short : max (contextTruncatedMarker.length : Int)
          (text.length - (cutTexts (front + text.length) rest overflow).2) ≥ text.length
      · simp only [if_pos short]
        have noRoom : text.length ≤ contextTruncatedMarker.length := by omega
        refine ⟨?_, by omega, ?_⟩
        · rw [cutText, if_pos (.inr noRoom), isRest]
        · rw [lengthSum_cons]
          omega
      · simp only [if_neg short]
        have isCut : ¬ (overflow.toNat - roomSum rest = 0 ∨ text.length ≤ contextTruncatedMarker.length) := by
          omega
        have place : (max (contextTruncatedMarker.length : Int)
            (text.length - (cutTexts (front + text.length) rest overflow).2)
              - contextTruncatedMarker.length).toNat
            = text.length - (overflow.toNat - roomSum rest) - contextTruncatedMarker.length := by omega
        have taken : (text.take
            (text.length - (overflow.toNat - roomSum rest) - contextTruncatedMarker.length)).length
              = text.length - (overflow.toNat - roomSum rest) - contextTruncatedMarker.length := by
          rw [List.length_take]
          omega
        have isSum : ((cutTexts (front + text.length) rest overflow).1.map
            fun text => (text.length : Int)).sum
              = lengthSum (cutTexts (front + text.length) rest overflow).1 := rfl
        refine ⟨?_, ?_, ?_⟩
        · rw [cutText, if_neg isCut, isRest, place]
        · rw [place, isSum, List.length_append, taken]
          push_cast
          omega
        · rw [place, isSum, lengthSum_cons]
          omega

/-- What is longer than allowed after all cuts is made of markers only. -/
theorem lengthSum_cutAll_le : ∀ (texts : List Text) {cut : Nat}, roomSum texts < cut →
    lengthSum (cutAll texts cut) ≤ contextTruncatedMarker.length * texts.length
  | [], _, _ => by simp [cutAll, lengthSum]
  | text :: rest, cut, more => by
    rw [roomSum_cons] at more
    have ih : lengthSum (cutAll rest cut) ≤ contextTruncatedMarker.length * rest.length :=
      lengthSum_cutAll_le rest (by omega)
    have short : (cutText text (cut - roomSum rest)).length ≤ contextTruncatedMarker.length := by
      rw [cutText]
      split_ifs with untouched
      · omega
      · rw [List.length_append, List.length_take]
        omega
    rw [cutAll, lengthSum_cons, List.length_cons]
    push_cast
    rw [Int.mul_add, Int.mul_one]
    omega

end Texts

/-! ## Metadata -/

section Sizes

variable {value : Text}

theorem length_renderBoundedMetadata_le {metadata : List (Text × Json)} {label : Text}
    (short : label.length ≤ 100) : (renderBoundedMetadata metadata label).length ≤ provisionMetadataLimit := by
  have fixed : ("\n... [".toList).length + (" metadata truncated at 6000 characters]".toList).length ≤ 100 := by
    decide
  have limit : provisionMetadataLimit = 6000 := rfl
  rw [renderBoundedMetadata]
  by_cases empty : metadata.isEmpty
  · rw [if_pos empty]
    exact Nat.zero_le _
  rw [if_neg empty]
  dsimp only
  split_ifs with bounded
  · exact bounded
  · rw [List.length_append, List.length_take]
    simp only [List.length_append]
    omega

theorem length_renderProvisionMetadata_le (metadata : List (Text × Json)) :
    (renderProvisionMetadata metadata).length ≤ provisionMetadataLimit :=
  length_renderBoundedMetadata_le (by decide)

theorem utf8Size_le (value : Text) : utf8Size value ≤ 4 * value.length := by
  induction value with
  | nil => exact Nat.zero_le _
  | cons c value ih =>
    rw [utf8Size, utf8] at ih ⊢
    rw [List.flatMap_cons, List.length_append, List.length_cons, String.length_utf8EncodeChar]
    have atMost := c.utf8Size_le_four
    omega

end Sizes

/-! ## Name-tier context -/

section Legacy

variable {metadata : List (Text × Json)} {documents : List AmendmentDocument}

/-- The documents that are shown, each with its body. -/
def legacyEntries (documents : List AmendmentDocument) : List (AmendmentDocument × Text) :=
  (documents.take 2).map fun document => (document, shownBody document)

/-- By how much the texts exceed the cap. -/
def legacyOverflow (metadata : List (Text × Json)) (documents : List AmendmentDocument) : Nat :=
  (renderProvisionMetadata metadata).length
    + ((renderAll (legacyEntries documents)).map List.length).sum - injectedContextLimit

/-- The texts that are shown. -/
def legacyTexts (metadata : List (Text × Json)) (documents : List AmendmentDocument) : List Text :=
  let overflow := legacyOverflow metadata documents
  cutAll (renderAll (trimmedAll (legacyEntries documents) overflow))
    (overflow - slackSum (legacyEntries documents))

theorem lengthSum_eq (texts : List Text) : lengthSum texts = ((texts.map List.length).sum : Nat) := by
  induction texts with
  | nil => rfl
  | cons text texts ih =>
    rw [lengthSum_cons, ih, List.map_cons, List.sum_cons]
    push_cast
    rfl

theorem length_trimmedAll : ∀ (entries : List (AmendmentDocument × Text)) (trim : Nat),
    (trimmedAll entries trim).length = entries.length
  | [], _ => rfl
  | (_, _) :: rest, trim => by rw [trimmedAll, List.length_cons, List.length_cons, length_trimmedAll]

/-- **The name-tier context is what is left of the texts, and it fits.** -/
theorem renderLegacy_spec :
    ∃ dropReason, renderLegacyNameTierContext metadata documents
        = (renderProvisionMetadata metadata, legacyTexts metadata documents,
            (documents.drop 2).map (dropDocument dropReason))
      ∧ (renderProvisionMetadata metadata).length
          + ((legacyTexts metadata documents).map List.length).sum ≤ injectedContextLimit := by
  obtain ⟨overflow, isOverflow⟩ : ∃ overflow : Int, ((renderProvisionMetadata metadata).length : Int)
    + lengthSum (renderAll (legacyEntries documents)) - injectedContextLimit = overflow := ⟨_, rfl⟩
  have isNat : overflow.toNat = legacyOverflow metadata documents := by
    rw [lengthSum_eq] at isOverflow
    rw [legacyOverflow]
    omega
  obtain ⟨isBodies, left, balance⟩ := trimBodies_spec (legacyEntries documents) overflow
  obtain ⟨texts, isTexts⟩ : ∃ texts, renderAll (trimBodies (legacyEntries documents) overflow).1 = texts :=
    ⟨_, rfl⟩
  obtain ⟨first, isFirst⟩ : ∃ first, (trimBodies (legacyEntries documents) overflow).2 = first := ⟨_, rfl⟩
  rw [isTexts, isFirst] at balance
  rw [isFirst] at left
  obtain ⟨cut, isCut⟩ : ∃ cut, (if first > 0 then cutTexts (renderProvisionMetadata metadata).length texts first
    else (texts, first)) = cut := ⟨_, rfl⟩
  -- the loop over the texts is skipped when nothing is left to cut
  have cutSpec : cut.1 = cutAll texts first.toNat ∧ cut.2.toNat = first.toNat - roomSum texts
      ∧ cut.2 = (renderProvisionMetadata metadata).length + lengthSum cut.1 - injectedContextLimit := by
    have spec := cutTexts_spec texts (renderProvisionMetadata metadata).length first (by omega)
    rw [← isCut]
    split_ifs with more
    · exact spec
    · have nothing : first.toNat = 0 := by omega
      rw [nothing, cutAll_zero]
      exact ⟨rfl, by omega, by dsimp only; omega⟩
  have isResult : cut.1 = legacyTexts metadata documents := by
    rw [cutSpec.1, legacyTexts, left, isNat, ← isTexts, isBodies, isNat]
  have fewTexts : texts.length ≤ 2 := by
    rw [← isTexts, isBodies, renderAll, List.length_map, length_trimmedAll, legacyEntries, List.length_map,
      List.length_take]
    exact Nat.min_le_left _ _
  have fits : cut.2 ≤ 0 := by
    by_contra more
    have short := lengthSum_cutAll_le texts (show roomSum texts < first.toNat by omega)
    have bounded := length_renderProvisionMetadata_le metadata
    rw [← cutSpec.1, length_contextTruncatedMarker] at short
    have limits : provisionMetadataLimit = 6000 ∧ injectedContextLimit = 32000 := ⟨rfl, rfl⟩
    omega
  obtain ⟨reason, isReason⟩ : ∃ reason, (if overflow > 0 then "aggregate_context_limit".toList
    else "document_count_limit".toList) = reason := ⟨_, rfl⟩
  have isLegacy : renderLegacyNameTierContext metadata documents
      = (if cut.2 > 0 then
          (renderProvisionMetadata metadata).take
            (max 0 ((renderProvisionMetadata metadata).length - cut.2)).toNat
        else renderProvisionMetadata metadata, cut.1,
        (documents.drop 2).map (dropDocument reason)) := by
    rw [← isReason, ← isCut, ← isTexts, ← isFirst, ← isOverflow]
    rfl
  refine ⟨reason, ?_, ?_⟩
  · rw [isLegacy, if_neg (not_lt.mpr fits), isResult]
  · rw [isResult, lengthSum_eq] at cutSpec
    omega

end Legacy

/-! ## The loop over the tiers -/

section Tiers

/-- **The loop drops a beginning of its order until the rest fits.** -/
theorem dropUntilFits_spec (provisionText : Text) : ∀ (order : List AmendmentDocument)
    (retained : List (AmendmentDocument × Text)) (dropped : List DroppedDocument),
    ∃ gone rest, order = gone ++ rest
      ∧ dropUntilFits provisionText order retained dropped
        = (retained.filter fun item => item.1.citationPath ∉ gone.map AmendmentDocument.citationPath,
          dropped ++ gone.map (dropDocument "aggregate_context_limit".toList))
      ∧ (rest ≠ [] → retainedSize provisionText (dropUntilFits provisionText order retained dropped).1
        ≤ injectedContextLimit)
  | [], retained, dropped => ⟨[], [], rfl, by simp [dropUntilFits], fun more => absurd rfl more⟩
  | document :: order, retained, dropped => by
    rw [dropUntilFits]
    by_cases fits : retainedSize provisionText retained ≤ injectedContextLimit
    · rw [if_pos fits]
      exact ⟨[], document :: order, rfl, by simp, fun _ => fits⟩
    · rw [if_neg fits]
      obtain ⟨gone, rest, isOrder, isResult, isFitting⟩ := dropUntilFits_spec provisionText order
        (retained.filter fun item => item.1.citationPath ≠ document.citationPath)
        (dropped ++ [dropDocument "aggregate_context_limit".toList document])
      refine ⟨document :: gone, rest, by rw [isOrder, List.cons_append], ?_, isFitting⟩
      rw [isResult, List.filter_filter]
      simp only [List.map_cons, List.append_assoc, List.singleton_append]
      refine congrArg (Prod.mk · _) (List.filter_congr fun item _ => ?_)
      simp only [List.mem_cons, not_or, Bool.decide_and, ne_eq]
      exact Bool.and_comm _ _

end Tiers

end AxiomEncode.Context
