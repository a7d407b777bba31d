/-
# ProofEvidence.Search -- looking for a quoted evidence text in a source

A source is a sequence of records with a separator between them.  Every record is searched
twice: as it stands, and with each run of whitespace collapsed to one space.
-/
import AxiomEncode.ProofEvidence.Bounded

namespace AxiomEncode.ProofEvidence

open Theory

set_option autoImplicit false

def proofEvidenceSegmentSeparator : Text := ['\n', '\u001E', '\n']

/-- `text.split(separator)`: `skip` characters of a separator are still to be passed, and
`piece` is the part read since the last one. -/
def splitFrom (separator : Text) : Nat → Text → Text → List Text
  | _, piece, [] => [piece]
  | skip + 1, piece, _ :: rest => splitFrom separator skip piece rest
  | 0, piece, c :: rest =>
    if separator.isPrefixOf (c :: rest) then
      piece :: splitFrom separator (separator.length - 1) [] rest
    else splitFrom separator 0 (piece ++ [c]) rest

def splitProofEvidenceText (sourceText : Text) : List Text :=
  splitFrom proofEvidenceSegmentSeparator 0 [] sourceText

def boundedSourceEvidenceMatch (unicode : UnicodeData) (evidenceText sourceText : Text) : Bool :=
  !evidenceText.isEmpty &&
    ((Regex.literal evidenceText).finditer sourceText).any fun m =>
      sourceEvidenceSpanIsBounded unicode evidenceText sourceText m.start m.finish

def sourceContainsProofEvidence (unicode : UnicodeData) (sourceText evidenceText : Text) : Bool :=
  let normalizedEvidence := normalizeSpaces evidenceText
  if normalizedEvidence.isEmpty then false
  else
    (splitProofEvidenceText sourceText).any fun segment =>
      boundedSourceEvidenceMatch unicode evidenceText segment ||
        boundedSourceEvidenceMatch unicode normalizedEvidence (normalizeSpaces segment)

end AxiomEncode.ProofEvidence
