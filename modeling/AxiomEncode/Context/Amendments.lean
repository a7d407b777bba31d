/-
# Context.Amendments -- the amendment context of a generation

What a model is shown of a provision and of its amendments, within a cap: bodies and then whole
texts are cut from the last document on (`renderLegacyNameTierContext`), or whole documents are
dropped (`renderInjectedContext`).  `visibleAmendmentBody` reads back what is shown of a body.
`repr` is a parameter; an error is its message.
-/
import AxiomEncode.Theory.JsonCanonical
import Mathlib.Data.Char
import Mathlib.Data.List.Lex
import Mathlib.Data.Prod.Lex
import Mathlib.Data.List.Sort
import Mathlib.Order.Basic

namespace AxiomEncode.Context

open Theory

set_option autoImplicit false

abbrev Text := List Char

/-- `_PROVISION_METADATA_LIMIT` -/
def provisionMetadataLimit : Nat := 6000

/-- `_AMENDMENT_BODY_LIMIT` -/
def amendmentBodyLimit : Nat := 12000

/-- `_INJECTED_CONTEXT_LIMIT` -/
def injectedContextLimit : Nat := 32000

/-- `_AMENDMENT_CONTEXT_SEPARATOR` -/
def contextSeparator : Text := ['\n', '\n']

/-- `_AMENDMENT_BODY_OMITTED_MARKER` -/
def bodyOmittedMarker : Text :=
  "[body omitted: exceeds 12000-character amendment context cap]".toList

/-- `_AMENDMENT_BODY_TRUNCATED_MARKER` -/
def bodyTruncatedMarker : Text :=
  "... [amendment body truncated to satisfy aggregate context cap]".toList

/-- `_AMENDMENT_CONTEXT_TRUNCATED_MARKER` -/
def contextTruncatedMarker : Text :=
  "... [amendment context truncated at aggregate context cap]".toList

inductive MatchTier where
  | structured | name
  deriving DecidableEq

/-- `CorpusAmendmentDocument` -/
structure AmendmentDocument where
  citationPath : Text
  title : Text
  expressionDate : Option Text
  metadata : List (Text × Json)
  body : Text
  matchTier : MatchTier

/-! ## Metadata -/

/-- One character of a string, with `ensure_ascii=False`. -/
def escapePlain (c : Char) : Text :=
  if c.toNat ≤ 31 ∨ c = '"' ∨ c = '\\' then Json.escapeChar c else [c]

def printPlainString (text : Text) : Text := '"' :: text.flatMap escapePlain ++ ['"']

mutual

/-- A value at a level of indentation. -/
def printPlain (level : Nat) : Json → Text
  | .null => "null".toList
  | .bool true => "true".toList
  | .bool false => "false".toList
  | .int value => Json.printInt value
  | .float text => text
  | .str text => printPlainString text
  | .arr [] => ['[', ']']
  | .arr (item :: items) =>
    '[' :: (Json.newline (level + 1) ++ (printPlain (level + 1) item ++ printPlainItems level items))
  | .obj [] => ['{', '}']
  | .obj ((key, value) :: members) =>
    '{' :: (Json.newline (level + 1) ++ (printPlainString key ++ (':' :: ' ' ::
      (printPlain (level + 1) value ++ printPlainMembers level members))))

def printPlainItems (level : Nat) : List Json → Text
  | [] => Json.newline level ++ [']']
  | item :: items =>
    ',' :: (Json.newline (level + 1) ++ (printPlain (level + 1) item ++ printPlainItems level items))

def printPlainMembers (level : Nat) : List (Text × Json) → Text
  | [] => Json.newline level ++ ['}']
  | (key, value) :: members =>
    ',' :: (Json.newline (level + 1) ++ (printPlainString key ++ (':' :: ' ' ::
      (printPlain (level + 1) value ++ printPlainMembers level members))))

end

/-- `_render_bounded_metadata` -/
def renderBoundedMetadata (metadata : List (Text × Json)) (label : Text) : Text :=
  if metadata.isEmpty then []
  else
    let rendered := printPlain 0 (Json.sortKeys (.obj metadata))
    if rendered.length ≤ provisionMetadataLimit then rendered
    else
      let marker := "\n... [".toList ++ label ++ " metadata truncated at 6000 characters]".toList
      rendered.take (provisionMetadataLimit - marker.length) ++ marker

/-- `_render_provision_metadata` -/
def renderProvisionMetadata (metadata : List (Text × Json)) : Text :=
  renderBoundedMetadata metadata "provision".toList

/-! ## Documents -/

/-- What stands before the body of a document. -/
def header (document : AmendmentDocument) : Text :=
  "Title: ".toList ++ document.title ++ "\nCorpus citation path: ".toList ++ document.citationPath
    ++ "\nExpression date: ".toList
    ++ (document.expressionDate.filter fun date => date ≠ []).getD "unknown".toList
    ++ "\nMetadata:\n".toList ++ renderBoundedMetadata document.metadata "amendment".toList
    ++ "\n\nBody:".toList ++ ['\n']

/-- `_render_amendment_document` with a body -/
def renderAmendmentDocument (document : AmendmentDocument) (body : Text) : Text := header document ++ body

/-- The body of a document, or the marker that it is omitted. -/
def shownBody (document : AmendmentDocument) : Text :=
  if document.body.length ≤ amendmentBodyLimit then document.body else bodyOmittedMarker

section Visible

variable (repr : Text → Text)

/-- The body before one of the markers at the end of `renderedBody`. -/
def visiblePrefix (document : AmendmentDocument) (renderedBody : Text) :
    List Text → Except Text (Option Text)
  | [] =>
    .error ("Eval amendment context body does not match discovered corpus document ".toList
      ++ repr document.citationPath)
  | marker :: markers =>
    if marker <:+ renderedBody then
      let visible := renderedBody.take (renderedBody.length - marker.length)
      if visible <+: document.body then .ok (if visible = [] then none else some visible)
      else
        .error ("Eval amendment context body does not match discovered corpus document ".toList
          ++ repr document.citationPath)
    else visiblePrefix document renderedBody markers

/-- `_visible_amendment_body_from_rendered_text` -/
def visibleAmendmentBody (document : AmendmentDocument) (renderedText : Text) :
    Except Text (Option Text) :=
  if renderedText = renderAmendmentDocument document document.body then .ok (some document.body)
  else if renderedText = renderAmendmentDocument document bodyOmittedMarker then .ok none
  else
    let bodyPrefix := renderAmendmentDocument document []
    if ¬ bodyPrefix <+: renderedText then
      if contextTruncatedMarker <:+ renderedText then .ok none
      else
        .error ("Eval amendment context header does not match discovered corpus document ".toList
          ++ repr document.citationPath)
    else
      visiblePrefix repr document (renderedText.drop bodyPrefix.length)
        [bodyTruncatedMarker, contextTruncatedMarker]

end Visible

/-- A document that is not shown. -/
structure DroppedDocument where
  citationPath : Text
  expressionDate : Option Text
  matchTier : MatchTier
  reason : Text
  deriving DecidableEq

def dropDocument (reason : Text) (document : AmendmentDocument) : DroppedDocument :=
  ⟨document.citationPath, document.expressionDate, document.matchTier, reason⟩

/-! ## Name-tier context -/

/-- One turn of the loop over the bodies, on a positive overflow. -/
def trimBody (document : AmendmentDocument) (body : Text) (overflow : Int) : Text × Int :=
  if "[body omitted:".toList <+: body then (body, overflow)
  else
    let targetLength := max (bodyTruncatedMarker.length : Int) (body.length - overflow)
    if targetLength ≥ body.length then (body, overflow)
    else
      let body' := body.take (targetLength - bodyTruncatedMarker.length).toNat ++ bodyTruncatedMarker
      (body', overflow - ((renderAmendmentDocument document body).length
        - (renderAmendmentDocument document body').length))

/-- The loop over the bodies, the last document first. -/
def trimBodies : List (AmendmentDocument × Text) → Int → List (AmendmentDocument × Text) × Int
  | [], overflow => ([], overflow)
  | (document, body) :: rest, overflow =>
    let (rest, overflow) := trimBodies rest overflow
    if overflow ≤ 0 then ((document, body) :: rest, overflow)
    else
      let (body, overflow) := trimBody document body overflow
      ((document, body) :: rest, overflow)

/-- The loop over the rendered texts, the last one first; `front` is what comes before them. -/
def cutTexts (front : Int) : List Text → Int → List Text × Int
  | [], overflow => ([], overflow)
  | text :: rest, overflow =>
    let (rest, overflow) := cutTexts (front + text.length) rest overflow
    if overflow ≤ 0 then (text :: rest, overflow)
    else
      let targetLength := max (contextTruncatedMarker.length : Int) (text.length - overflow)
      if targetLength ≥ text.length then (text :: rest, overflow)
      else
        let text := text.take (targetLength - contextTruncatedMarker.length).toNat
          ++ contextTruncatedMarker
        (text :: rest, front + text.length + (rest.map fun text => (text.length : Int)).sum
          - injectedContextLimit)

/-- `_render_legacy_name_tier_context` -/
def renderLegacyNameTierContext (provisionMetadata : List (Text × Json))
    (amendmentDocuments : List AmendmentDocument) : Text × List Text × List DroppedDocument :=
  let provisionText := renderProvisionMetadata provisionMetadata
  let documents := (amendmentDocuments.take 2).map fun document => (document, shownBody document)
  let rendered := documents.map fun shown => renderAmendmentDocument shown.1 shown.2
  let overflow : Int := provisionText.length + (rendered.map fun text => (text.length : Int)).sum
    - injectedContextLimit
  let dropReason := if overflow > 0 then "aggregate_context_limit".toList
    else "document_count_limit".toList
  let dropped := (amendmentDocuments.drop 2).map (dropDocument dropReason)
  let (documents, overflow) := trimBodies documents overflow
  let rendered := documents.map fun shown => renderAmendmentDocument shown.1 shown.2
  let (rendered, overflow) :=
    if overflow > 0 then cutTexts provisionText.length rendered overflow else (rendered, overflow)
  let provisionText := if overflow > 0 then
      provisionText.take (max 0 (provisionText.length - overflow)).toNat
    else provisionText
  (provisionText, rendered, dropped)

/-! ## Injected context -/

/-- `_RenderedInjectedContext` -/
structure RenderedInjectedContext where
  provisionText : Text
  amendmentDocuments : List AmendmentDocument
  amendmentTexts : List Text
  droppedAmendmentDocuments : List DroppedDocument

/-- `utf8_size` -/
def utf8Size (value : Text) : Nat := (utf8 value).length

/-- The order in which documents are dropped. -/
def dropKey (document : AmendmentDocument) : Bool ×ₗ Text ×ₗ Text :=
  toLex (document.matchTier = .structured, toLex (document.expressionDate.getD [], document.citationPath))

/-- `retained_size` -/
def retainedSize (provisionText : Text) (retained : List (AmendmentDocument × Text)) : Nat :=
  utf8Size provisionText + (retained.map fun item => utf8Size item.2).sum
    + (retained.length - 1) * utf8Size contextSeparator

/-- The loop that drops documents until the rest fits. -/
def dropUntilFits (provisionText : Text) : List AmendmentDocument → List (AmendmentDocument × Text) →
    List DroppedDocument → List (AmendmentDocument × Text) × List DroppedDocument
  | [], retained, dropped => (retained, dropped)
  | document :: rest, retained, dropped =>
    if retainedSize provisionText retained ≤ injectedContextLimit then (retained, dropped)
    else
      dropUntilFits provisionText rest
        (retained.filter fun item => item.1.citationPath ≠ document.citationPath)
        (dropped ++ [dropDocument "aggregate_context_limit".toList document])

section Injected

variable (repr : Text → Text)

/-- The documents with what is visible of their bodies. -/
def visibleDocuments (shown : List (AmendmentDocument × Text)) :
    Except Text (List AmendmentDocument) :=
  shown.mapM fun item => do
    let visible ← visibleAmendmentBody repr item.1 item.2
    pure { item.1 with body := visible.getD [] }

/-- `_render_injected_context` -/
def renderInjectedContext (provisionMetadata : List (Text × Json))
    (amendmentDocuments : List AmendmentDocument) : Except Text RenderedInjectedContext :=
  if amendmentDocuments.all fun document => document.matchTier ≠ .structured then do
    let (provisionText, amendmentTexts, dropped) :=
      renderLegacyNameTierContext provisionMetadata amendmentDocuments
    let visible ← visibleDocuments repr ((amendmentDocuments.take 2).zip amendmentTexts)
    pure ⟨provisionText, visible, amendmentTexts, dropped⟩
  else do
    let provisionText := renderProvisionMetadata provisionMetadata
    let retained := amendmentDocuments.map fun document =>
      (document, renderAmendmentDocument document (shownBody document))
    let dropOrder := amendmentDocuments.insertionSort fun a b => dropKey a ≤ dropKey b
    let (retained, dropped) := dropUntilFits provisionText dropOrder retained []
    if retainedSize provisionText retained > injectedContextLimit then
      .error "Structured amendment context cap was not enforced".toList
    else do
      let visible ← visibleDocuments repr retained
      pure ⟨provisionText, visible, retained.map Prod.snd, dropped⟩

end Injected

end AxiomEncode.Context
