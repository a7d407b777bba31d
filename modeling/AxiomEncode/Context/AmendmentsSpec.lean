/-
# Context.AmendmentsSpec -- bounded, complete and honest context

The context of a provision with a structured amendment always is what it should be, and the
one of name-tier amendments is exactly when its cuts are spared (`honest_iff`).
-/
import AxiomEncode.Context.Loops
import AxiomEncode.Theory.Checks

namespace AxiomEncode.Context

open Theory

set_option autoImplicit false

/-- The context fits its cap, each document is shown or dropped, tiers are dropped in their order,
and what is reported of a shown body is what is visible of it. -/
structure Honest (documents : List AmendmentDocument) (context : RenderedInjectedContext) : Prop where
  bounded : if documents.all fun document => document.matchTier ≠ .structured then
      context.provisionText.length + (context.amendmentTexts.map List.length).sum ≤ injectedContextLimit
    else
      utf8Size context.provisionText + (context.amendmentTexts.map utf8Size).sum
        + (context.amendmentTexts.length - 1) * utf8Size contextSeparator ≤ injectedContextLimit
  complete : (context.amendmentDocuments.map AmendmentDocument.citationPath
      ++ context.droppedAmendmentDocuments.map DroppedDocument.citationPath).Perm
    (documents.map AmendmentDocument.citationPath)
  tiers : ∀ dropped ∈ context.droppedAmendmentDocuments, dropped.matchTier = .structured →
    ∀ document ∈ context.amendmentDocuments, document.matchTier = .structured
  paired : context.amendmentDocuments.length = context.amendmentTexts.length
  visible : ∀ shown ∈ context.amendmentDocuments.zip context.amendmentTexts, ∀ document ∈ documents,
    document.citationPath = shown.1.citationPath →
      shown.1 = { document with body := shown.1.body } ∧ Visible document shown.2 shown.1.body

/-- The characters that must stay of the text of a document. -/
def room (document : AmendmentDocument) : Nat :=
  (header document).length + ((shownBody document).length - slack (shownBody document))
    - contextTruncatedMarker.length

/-- The cuts of each document are spared, where the later ones are cut first. -/
def SparedFrom : List AmendmentDocument → Nat → Nat → Prop
  | [], _, _ => True
  | document :: rest, trim, cut =>
    Spared document (trim - (rest.map fun document => slack (shownBody document)).sum)
      (cut - (rest.map room).sum)
    ∧ SparedFrom rest trim cut

/-- By how much the texts exceed the cap. -/
def excess (provisionMetadata : List (Text × Json)) (documents : List AmendmentDocument) : Nat :=
  (renderProvisionMetadata provisionMetadata).length
    + (documents.map fun document => (header document).length + (shownBody document).length).sum
    - injectedContextLimit

section Shown

variable {repr : Text → Text} {documents visible : List AmendmentDocument}
  {shown : List (AmendmentDocument × Text)}

theorem visibleDocuments_cons {item : AmendmentDocument × Text} :
    visibleDocuments repr (item :: shown) = .ok visible
      ↔ ∃ body rest, visibleAmendmentBody repr item.1 item.2 = .ok body
        ∧ visibleDocuments repr shown = .ok rest
        ∧ visible = { item.1 with body := body.getD [] } :: rest := by
  rw [visibleDocuments, mapM_cons_eq_ok_iff]
  constructor
  · rintro ⟨document, rest, isDocument, isRest, rfl⟩
    obtain ⟨body, isBody, same⟩ := bind_eq_ok_iff.mp isDocument
    cases same
    exact ⟨body, rest, isBody, isRest, rfl⟩
  · rintro ⟨body, rest, isBody, isRest, rfl⟩
    exact ⟨_, rest, bind_eq_ok_iff.mpr ⟨body, isBody, rfl⟩, isRest, rfl⟩

/-- What is reported of the documents is visible exactly when each text is read back. -/
theorem visible_iff_readsBack (distinct : (documents.map AmendmentDocument.citationPath).Nodup) :
    ∀ {shown : List (AmendmentDocument × Text)}, (∀ item ∈ shown, item.1 ∈ documents) →
      ((∃ visible, visibleDocuments repr shown = .ok visible
          ∧ ∀ pair ∈ visible.zip (shown.map Prod.snd), ∀ document ∈ documents,
            document.citationPath = pair.1.citationPath →
              pair.1 = { document with body := pair.1.body } ∧ Visible document pair.2 pair.1.body)
        ↔ ∀ item ∈ shown, ReadsBack repr item.1 item.2)
  | [], _ => by
    refine iff_of_true ⟨[], rfl, fun pair isPair => ?_⟩ (fun item isItem => nomatch isItem)
    cases isPair
  | item :: shown, isShown => by
    rw [List.forall_mem_cons] at isShown
    have ih := visible_iff_readsBack distinct isShown.2
    rw [List.forall_mem_cons, ← ih]
    constructor
    · rintro ⟨visible, isVisible, pairs⟩
      obtain ⟨body, rest, isBody, isRest, rfl⟩ := visibleDocuments_cons.mp isVisible
      rw [List.map_cons, List.zip_cons_cons, List.forall_mem_cons] at pairs
      exact ⟨⟨body, isBody, (pairs.1 item.1 isShown.1 rfl).2⟩, rest, isRest, pairs.2⟩
    · rintro ⟨⟨body, isBody, isVisible⟩, rest, isRest, pairs⟩
      refine ⟨_, visibleDocuments_cons.mpr ⟨body, rest, isBody, isRest, rfl⟩, ?_⟩
      rw [List.map_cons, List.zip_cons_cons, List.forall_mem_cons]
      refine ⟨fun document isDocument same => ?_, pairs⟩
      have isItem : document = item.1 := List.inj_on_of_nodup_map distinct isDocument isShown.1 same
      rw [isItem]
      exact ⟨rfl, isVisible⟩

/-- The reported documents keep their paths and tiers. -/
theorem map_visibleDocuments {β : Type} (f : AmendmentDocument → β)
    (keeps : ∀ document body, f { document with body } = f document) :
    ∀ {shown : List (AmendmentDocument × Text)} {visible : List AmendmentDocument},
      visibleDocuments repr shown = .ok visible → visible.map f = (shown.map Prod.fst).map f
  | [], _, isVisible => by
    cases isVisible
    rfl
  | item :: shown, visible, isVisible => by
    obtain ⟨body, rest, -, isRest, rfl⟩ := visibleDocuments_cons.mp isVisible
    rw [List.map_cons, List.map_cons, List.map_cons, map_visibleDocuments f keeps isRest, keeps]

end Shown

/-! ## Name-tier context -/

section Legacy

variable {repr : Text → Text} {documents : List AmendmentDocument} {document : AmendmentDocument} {trim cut : Nat}

/-- Documents with what is shown of their bodies. -/
def withBodies (documents : List AmendmentDocument) : List (AmendmentDocument × Text) :=
  documents.map fun document => (document, shownBody document)

theorem slackSum_withBodies :
    slackSum (withBodies documents) = (documents.map fun document => slack (shownBody document)).sum := by
  rw [slackSum, withBodies, List.map_map]
  rfl

/-- The room of a text whose body is trimmed as far as it can be. -/
theorem length_trimmed_exhausted (body : Text) (exhausted : slack body < trim) :
    (trimmed body trim).length = body.length - slack body := by
  rw [trimmed]
  split_ifs with untouched
  · omega
  · have isSlack : slack body = body.length - bodyTruncatedMarker.length := by
      rw [slack] at untouched ⊢
      split_ifs at untouched ⊢ with isPrefix
      · omega
      · rfl
    rw [List.length_append, List.length_take]
    omega

theorem roomSum_trimmedAll : ∀ (documents : List AmendmentDocument),
    slackSum (withBodies documents) < trim →
    roomSum (renderAll (trimmedAll (withBodies documents) trim)) = (documents.map room).sum
  | [], _ => rfl
  | document :: rest, exhausted => by
    have isCons : withBodies (document :: rest) = (document, shownBody document) :: withBodies rest := rfl
    rw [isCons, slackSum_cons] at exhausted
    have ih := roomSum_trimmedAll rest (by omega)
    have isLength := length_trimmed_exhausted (shownBody document)
      (show slack (shownBody document) < trim - slackSum (withBodies rest) by omega)
    rw [isCons, trimmedAll, renderAll, List.map_cons, roomSum_cons, List.map_cons, List.sum_cons, room,
      renderAmendmentDocument, List.length_append, isLength]
    exact congrArg _ ih

/-- The texts of documents are read back exactly when their cuts are spared. -/
theorem readsBack_all_iff : ∀ (documents : List AmendmentDocument),
    (0 < cut → slackSum (withBodies documents) < trim) →
    ((∀ item ∈ documents.zip (cutAll (renderAll (trimmedAll (withBodies documents) trim)) cut),
        ReadsBack repr item.1 item.2) ↔ SparedFrom documents trim cut)
  | [], _ => iff_of_true (fun item isItem => nomatch isItem) trivial
  | document :: rest, exhausted => by
    have isCons : withBodies (document :: rest) = (document, shownBody document) :: withBodies rest := rfl
    rw [isCons, slackSum_cons] at exhausted
    have sameRoom : cut - roomSum (renderAll (trimmedAll (withBodies rest) trim))
        = cut - (rest.map room).sum := by
      rcases Nat.eq_zero_or_pos cut with noCut | positive
      · rw [noCut, Nat.zero_sub, Nat.zero_sub]
      · have := exhausted positive
        rw [roomSum_trimmedAll rest (by omega)]
    have ih := readsBack_all_iff rest (by omega)
    have here := @readsBack_cut_iff repr document (trim - slackSum (withBodies rest))
      (cut - (rest.map room).sum) (by omega)
    rw [isCons, trimmedAll, renderAll, List.map_cons, cutAll, List.zip_cons_cons, List.forall_mem_cons,
      SparedFrom, ← slackSum_withBodies]
    refine and_congr ?_ ih
    rw [← here, ← sameRoom]
    rfl

variable {provisionMetadata : List (Text × Json)}

theorem excess_eq :
    legacyOverflow provisionMetadata documents = excess provisionMetadata (documents.take 2) := by
  have lengths : (renderAll (legacyEntries documents)).map List.length
      = (documents.take 2).map fun document => (header document).length + (shownBody document).length := by
    rw [renderAll, legacyEntries, List.map_map, List.map_map]
    exact List.map_congr_left fun document _ => List.length_append
  rw [legacyOverflow, excess, lengths]

theorem length_cutAll : ∀ (texts : List Text) (cut : Nat), (cutAll texts cut).length = texts.length
  | [], _ => rfl
  | text :: rest, cut => by rw [cutAll, List.length_cons, List.length_cons, length_cutAll]

theorem length_legacyTexts : (legacyTexts provisionMetadata documents).length = (documents.take 2).length := by
  rw [legacyTexts, length_cutAll, renderAll, List.length_map, length_trimmedAll, legacyEntries, List.length_map]

/-- The name-tier context is honest exactly when its cuts are spared. -/
theorem honest_legacy_iff (distinct : (documents.map AmendmentDocument.citationPath).Nodup)
    (names : (documents.all fun document => document.matchTier ≠ .structured) = true) :
    (∃ context, renderInjectedContext repr provisionMetadata documents = .ok context
        ∧ Honest documents context)
      ↔ SparedFrom (documents.take 2) (excess provisionMetadata (documents.take 2))
          (excess provisionMetadata (documents.take 2)
            - ((documents.take 2).map fun document => slack (shownBody document)).sum) := by
  obtain ⟨reason, isLegacy, fits⟩ := @renderLegacy_spec provisionMetadata documents
  obtain ⟨texts, isTexts⟩ : ∃ texts, legacyTexts provisionMetadata documents = texts := ⟨_, rfl⟩
  have sameLength : (documents.take 2).length = texts.length := by rw [← isTexts, length_legacyTexts]
  have firsts : ((documents.take 2).zip texts).map Prod.fst = documents.take 2 :=
    List.map_fst_zip sameLength.le
  have seconds : ((documents.take 2).zip texts).map Prod.snd = texts := List.map_snd_zip sameLength.ge
  have members : ∀ item ∈ (documents.take 2).zip texts, item.1 ∈ documents :=
    fun item isItem => List.mem_of_mem_take (List.of_mem_zip isItem).1
  have spared := @readsBack_all_iff repr (excess provisionMetadata (documents.take 2))
    (excess provisionMetadata (documents.take 2)
      - ((documents.take 2).map fun document => slack (shownBody document)).sum) (documents.take 2)
    (by rw [slackSum_withBodies]; omega)
  have areTexts : cutAll (renderAll (trimmedAll (withBodies (documents.take 2))
      (excess provisionMetadata (documents.take 2))))
      (excess provisionMetadata (documents.take 2)
        - ((documents.take 2).map fun document => slack (shownBody document)).sum) = texts := by
    rw [← isTexts, legacyTexts, excess_eq, ← slackSum_withBodies]
    rfl
  rw [areTexts] at spared
  rw [← spared, ← visible_iff_readsBack distinct members, seconds]
  rw [isTexts] at isLegacy fits
  rw [renderInjectedContext, if_pos names, isLegacy]
  constructor
  · rintro ⟨context, isContext, honest⟩
    obtain ⟨visible, isVisible, same⟩ := bind_eq_ok_iff.mp isContext
    cases same
    exact ⟨visible, isVisible, honest.visible⟩
  · rintro ⟨visible, isVisible, pairs⟩
    refine ⟨_, bind_eq_ok_iff.mpr ⟨visible, isVisible, rfl⟩, ?_⟩
    have paths := map_visibleDocuments AmendmentDocument.citationPath (fun _ _ => rfl) isVisible
    rw [firsts] at paths
    refine
      { bounded := ?_
        complete := ?_
        tiers := ?_
        paired := ?_
        visible := pairs }
    · rw [if_pos names]
      exact fits
    · rw [paths, List.map_map]
      have sameDropped : (documents.drop 2).map (DroppedDocument.citationPath ∘ dropDocument reason)
          = (documents.drop 2).map AmendmentDocument.citationPath := rfl
      rw [sameDropped, ← List.map_append, List.take_append_drop]
    · intro dropped isDropped structured
      obtain ⟨document, isDocument, rfl⟩ := List.mem_map.mp isDropped
      have isName := List.all_eq_true.mp names document (List.mem_of_mem_drop isDocument)
      exact absurd structured (of_decide_eq_true isName)
    · have lengths := congrArg List.length paths
      rw [List.length_map, List.length_map] at lengths
      exact lengths.trans sameLength

end Legacy

/-! ## Structured context -/

section Structured

variable {repr : Text → Text} {documents : List AmendmentDocument}
  {provisionMetadata : List (Text × Json)}

instance : Std.Total fun a b : AmendmentDocument => dropKey a ≤ dropKey b := ⟨fun _ _ => le_total _ _⟩

instance : IsTrans AmendmentDocument fun a b => dropKey a ≤ dropKey b := ⟨fun _ _ _ => le_trans⟩

/-- After a structured document only structured ones are dropped. -/
theorem structured_of_dropKey_le {a b : AmendmentDocument} (ordered : dropKey a ≤ dropKey b)
    (structured : a.matchTier = .structured) : b.matchTier = .structured := by
  by_contra isName
  have first := Prod.Lex.monotone_fst _ _ ordered
  simp [dropKey, structured, isName] at first
  exact absurd first (by decide)

theorem retainedSize_nil_le :
    retainedSize (renderProvisionMetadata provisionMetadata) [] ≤ injectedContextLimit := by
  have size := utf8Size_le (renderProvisionMetadata provisionMetadata)
  have bounded := length_renderProvisionMetadata_le provisionMetadata
  have limits : provisionMetadataLimit = 6000 ∧ injectedContextLimit = 32000 := ⟨rfl, rfl⟩
  simp only [retainedSize, List.map_nil, List.sum_nil, List.length_nil, Nat.zero_sub, Nat.zero_mul]
  omega

/-- What is kept when a beginning of the order is gone is the rest. -/
theorem filter_gone_perm {gone rest : List AmendmentDocument}
    (distinct : (documents.map AmendmentDocument.citationPath).Nodup) (perm : (gone ++ rest).Perm documents) :
    (documents.filter fun document =>
      document.citationPath ∉ gone.map AmendmentDocument.citationPath).Perm rest := by
  have distinct' := (perm.map AmendmentDocument.citationPath).nodup_iff.mpr distinct
  rw [List.map_append, List.nodup_append] at distinct'
  have noGone : (gone.filter fun document =>
      document.citationPath ∉ gone.map AmendmentDocument.citationPath) = [] := by
    refine List.filter_eq_nil_iff.mpr fun document isGone => ?_
    simpa using ⟨document, isGone, rfl⟩
  have allRest : (rest.filter fun document =>
      document.citationPath ∉ gone.map AmendmentDocument.citationPath) = rest := by
    refine List.filter_eq_self.mpr fun document isRest => decide_eq_true ?_
    intro isGone
    exact distinct'.2.2 _ isGone _ (List.mem_map_of_mem isRest) rfl
  refine (perm.symm.filter _).trans ?_
  rw [List.filter_append, noGone, allRest, List.nil_append]

/-- The structured context is always honest. -/
theorem honest_structured (distinct : (documents.map AmendmentDocument.citationPath).Nodup)
    (structured : ¬ (documents.all fun document => document.matchTier ≠ .structured) = true) :
    ∃ context, renderInjectedContext repr provisionMetadata documents = .ok context
      ∧ Honest documents context := by
  obtain ⟨gone, rest, isOrder, isResult, isFitting⟩ := dropUntilFits_spec
    (renderProvisionMetadata provisionMetadata)
    (documents.insertionSort fun a b => dropKey a ≤ dropKey b)
    (documents.map fun document => (document, renderAmendmentDocument document (shownBody document))) []
  have perm := List.perm_insertionSort (fun a b => dropKey a ≤ dropKey b) documents
  have sorted := List.pairwise_insertionSort (fun a b => dropKey a ≤ dropKey b) documents
  rw [isOrder] at perm sorted
  obtain ⟨kept, isKept⟩ : ∃ kept, documents.filter
    (fun document => document.citationPath ∉ gone.map AmendmentDocument.citationPath) = kept := ⟨_, rfl⟩
  obtain ⟨retained, isRetained⟩ : ∃ retained, kept.map
    (fun document => (document, renderAmendmentDocument document (shownBody document))) = retained := ⟨_, rfl⟩
  have keptPerm : kept.Perm rest := by
    rw [← isKept]
    exact filter_gone_perm distinct perm
  rw [List.filter_map] at isResult
  have isLoop : dropUntilFits (renderProvisionMetadata provisionMetadata)
      (documents.insertionSort fun a b => dropKey a ≤ dropKey b)
      (documents.map fun document => (document, renderAmendmentDocument document (shownBody document))) []
        = (retained, gone.map (dropDocument "aggregate_context_limit".toList)) := by
    rw [isResult, List.nil_append, ← isRetained, ← isKept]
    rfl
  have fits : retainedSize (renderProvisionMetadata provisionMetadata) retained ≤ injectedContextLimit := by
    rcases List.eq_nil_or_concat rest with rfl | ⟨_, _, rfl⟩
    · rw [← isRetained, List.perm_nil.mp keptPerm]
      exact retainedSize_nil_le
    · rw [isLoop] at isFitting
      exact isFitting (by simp)
  have firsts : retained.map Prod.fst = kept := by
    rw [← isRetained, List.map_map]
    exact List.map_id kept
  have members : ∀ item ∈ retained, item.1 ∈ documents := by
    intro item isItem
    have inKept : item.1 ∈ kept := firsts ▸ List.mem_map_of_mem isItem
    rw [← isKept] at inKept
    exact (List.mem_filter.mp inKept).1
  have readsBack : ∀ item ∈ retained, ReadsBack repr item.1 item.2 := by
    intro item isItem
    rw [← isRetained] at isItem
    obtain ⟨document, -, rfl⟩ := List.mem_map.mp isItem
    exact readsBack_shown
  obtain ⟨visible, isVisible, pairs⟩ := (visible_iff_readsBack distinct members).mpr readsBack
  have paths := map_visibleDocuments AmendmentDocument.citationPath (fun _ _ => rfl) isVisible
  have tiers := map_visibleDocuments AmendmentDocument.matchTier (fun _ _ => rfl) isVisible
  rw [firsts] at paths tiers
  refine ⟨⟨renderProvisionMetadata provisionMetadata, visible, retained.map Prod.snd,
    gone.map (dropDocument "aggregate_context_limit".toList)⟩, ?_, ?_⟩
  · rw [renderInjectedContext, if_neg structured]
    simp only [isLoop, if_neg (not_lt.mpr fits), gt_iff_lt]
    exact bind_eq_ok_iff.mpr ⟨visible, isVisible, rfl⟩
  · refine
      { bounded := ?_
        complete := ?_
        tiers := ?_
        paired := ?_
        visible := pairs }
    · rw [if_neg structured, List.map_map, List.length_map]
      exact fits
    · rw [paths, List.map_map]
      have sameDropped : gone.map (DroppedDocument.citationPath ∘ dropDocument "aggregate_context_limit".toList)
          = gone.map AmendmentDocument.citationPath := rfl
      rw [sameDropped, ← List.map_append]
      exact (((keptPerm.append_right gone).trans List.perm_append_comm).trans perm).map _
    · intro dropped isDropped isStructured document isDocument
      obtain ⟨first, isFirst, rfl⟩ := List.mem_map.mp isDropped
      have inTiers : document.matchTier ∈ visible.map AmendmentDocument.matchTier :=
        List.mem_map_of_mem isDocument
      rw [tiers] at inTiers
      obtain ⟨second, isSecond, same⟩ := List.mem_map.mp inTiers
      have ordered := (List.pairwise_append.mp sorted).2.2 first isFirst second (keptPerm.mem_iff.mp isSecond)
      rw [← same]
      exact structured_of_dropKey_le ordered isStructured
    · have lengths := congrArg List.length paths
      rw [List.length_map, List.length_map] at lengths
      rw [List.length_map, lengths, ← firsts, List.length_map]

end Structured

/-- **The context is honest exactly when it has a structured amendment or its cuts are spared.** -/
theorem honest_iff {repr : Text → Text} {documents : List AmendmentDocument}
    {provisionMetadata : List (Text × Json)}
    (distinct : (documents.map AmendmentDocument.citationPath).Nodup) :
    (∃ context, renderInjectedContext repr provisionMetadata documents = .ok context
        ∧ Honest documents context)
      ↔ ((∀ document ∈ documents, document.matchTier = .name) →
          SparedFrom (documents.take 2) (excess provisionMetadata (documents.take 2))
            (excess provisionMetadata (documents.take 2)
              - ((documents.take 2).map fun document => slack (shownBody document)).sum)) := by
  have names : (documents.all fun document => document.matchTier ≠ .structured) = true
      ↔ ∀ document ∈ documents, document.matchTier = .name := by
    rw [List.all_eq_true]
    refine forall₂_congr fun document _ => ?_
    cases document.matchTier <;> simp
  by_cases structured : (documents.all fun document => document.matchTier ≠ .structured) = true
  · rw [honest_legacy_iff distinct structured]
    exact ⟨fun spared _ => spared, fun spared => spared (names.mp structured)⟩
  · exact iff_of_true (honest_structured distinct structured) fun all => absurd (names.mpr all) structured

/-! ## A cut within a marker -/

/-- A document whose title has `n` characters. -/
def titledDocument (n : Nat) : AmendmentDocument where
  citationPath := ['a']
  title := List.replicate n 'a'
  expressionDate := none
  metadata := []
  body := List.replicate 64 'a'
  matchTier := .name

theorem slack_titled (n : Nat) : shownBody (titledDocument n) = List.replicate 64 'a'
    ∧ slack (shownBody (titledDocument n)) = 1 := by
  have isShown : shownBody (titledDocument n) = List.replicate 64 'a' := rfl
  rw [isShown]
  exact ⟨rfl, by decide⟩

/-- The header of a document without a date and without metadata. -/
theorem length_header_plain {document : AmendmentDocument} (undated : document.expressionDate = none)
    (bare : document.metadata = []) :
    (header document).length = document.title.length + document.citationPath.length + 74 := by
  have unknown : "unknown".toList.length = 7 := by decide
  have noMetadata : (renderBoundedMetadata [] "amendment".toList).length = 0 := rfl
  rw [length_header, undated, bare, noMetadata, Option.filter_none, Option.getD_none, unknown]
  omega

theorem length_header_titled (n : Nat) : (header (titledDocument n)).length = n + 75 := by
  have title : (titledDocument n).title.length = n := List.length_replicate
  have path : (titledDocument n).citationPath.length = 1 := rfl
  rw [length_header_plain rfl rfl, title, path]

theorem nodup_titled (n : Nat) : ([titledDocument n].map AmendmentDocument.citationPath).Nodup :=
  List.nodup_singleton _

theorem excess_titled (n : Nat) : excess [] [titledDocument n] = n + 139 - 32000 := by
  have noMetadata : renderProvisionMetadata [] = [] := rfl
  rw [excess, noMetadata, List.map_singleton, List.sum_singleton, length_header_titled, (slack_titled n).1]
  simp only [List.length_nil, List.length_replicate, injectedContextLimit]
  omega

/-- A name-tier document of a long title and 64 characters cannot be read back. -/
theorem cut_within_marker :
    ¬ ∀ (repr : Text → Text) (documents : List AmendmentDocument) (provisionMetadata : List (Text × Json)),
      (documents.map AmendmentDocument.citationPath).Nodup →
      ∃ context, renderInjectedContext repr provisionMetadata documents = .ok context
        ∧ Honest documents context := by
  intro claim
  have honest := claim id [titledDocument 31863] [] (nodup_titled _)
  rw [honest_legacy_iff (nodup_titled _) (by decide)] at honest
  have one : [titledDocument 31863].take 2 = [titledDocument 31863] := rfl
  have isSpared : Spared (titledDocument 31863) 2 1 := by
    rw [one, excess_titled, List.map_singleton, List.sum_singleton, (slack_titled _).2] at honest
    exact honest.1
  have isNot : ¬ Spared (titledDocument 31863) 2 1 := by
    rw [Spared, (slack_titled _).2, (slack_titled _).1]
    decide
  exact isNot isSpared

/-- A document with a title of 5,000 characters and the longest body that is shown. -/
def longDocument (path : Char) : AmendmentDocument where
  citationPath := [path]
  title := List.replicate 5000 'a'
  expressionDate := none
  metadata := []
  body := List.replicate 12000 'a'
  matchTier := .name

theorem slack_long (path : Char) : shownBody (longDocument path) = List.replicate 12000 'a'
    ∧ slack (List.replicate 12000 'a') = 11937 := by
  have short : (longDocument path).body.length ≤ amendmentBodyLimit := by
    rw [longDocument, List.length_replicate, amendmentBodyLimit]
  have isShown : shownBody (longDocument path) = List.replicate 12000 'a' := if_pos short
  have plain : ¬ "[body omitted:".toList <+: List.replicate 12000 'a' := by
    intro isPrefix
    have bracket : '[' ∈ List.replicate 12000 'a' := isPrefix.subset (by decide)
    exact absurd (List.eq_of_mem_replicate bracket) (by decide)
  refine ⟨isShown, ?_⟩
  rw [slack, if_neg plain, List.length_replicate, length_bodyTruncatedMarker]

theorem excess_long (path other : Char) :
    excess [] [longDocument path, longDocument other] = 2150 := by
  have noMetadata : renderProvisionMetadata [] = [] := rfl
  have length (path : Char) : (header (longDocument path)).length = 5075 := by
    have title : (longDocument path).title.length = 5000 := List.length_replicate
    have one : (longDocument path).citationPath.length = 1 := rfl
    rw [length_header_plain rfl rfl, title, one]
  simp only [excess, noMetadata, List.map_cons, List.map_nil, List.sum_cons, List.sum_nil, length,
    (slack_long _).1, List.length_nil, List.length_replicate, injectedContextLimit, Nat.reduceAdd,
    Nat.reduceSub]

/-- The third document is not shown, and the body of the second one is cut. -/
theorem honest_sample :
    0 < excess [] ([longDocument 'a', longDocument 'b', longDocument 'c'].take 2) ∧
      ∃ context, renderInjectedContext id []
          [longDocument 'a', longDocument 'b', longDocument 'c'] = .ok context
        ∧ Honest [longDocument 'a', longDocument 'b', longDocument 'c'] context := by
  have two : [longDocument 'a', longDocument 'b', longDocument 'c'].take 2 =
      [longDocument 'a', longDocument 'b'] := rfl
  have distinct : ([longDocument 'a', longDocument 'b', longDocument 'c'].map
      AmendmentDocument.citationPath).Nodup := by
    change [['a'], ['b'], ['c']].Nodup
    decide
  have positive : 0 < 2150 := by decide
  refine ⟨by rwa [two, excess_long], (honest_iff distinct).mpr fun _ => ?_⟩
  simp only [two, excess_long, SparedFrom, Spared, List.map_cons, List.map_nil, List.sum_cons,
    List.sum_nil, (slack_long _).1, (slack_long 'a').2]
  -- the body of the second document is long enough for the whole excess
  refine ⟨.inl rfl, .inr ?_, trivial⟩
  rw [if_neg (by decide), if_pos (by decide), EndsAt, List.length_replicate, length_bodyTruncatedMarker,
    List.getElem?_replicate]
  decide

end AxiomEncode.Context
