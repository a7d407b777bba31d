/-
# Corpus.Records -- stored provision rows

What a reader keeps of one JSONL row: its identity inside the verified release
(`CorpusRowIdentity`) and the parts of it that resolution and composition read
(`StoredRecord`).
-/
import AxiomEncode.Corpus.Citation

namespace AxiomEncode.Corpus

set_option autoImplicit false

/-- One active jurisdiction, document class and version. -/
@[ext]
structure ReleaseScope where
  jurisdiction : Text
  documentClass : Text
  version : Text
  deriving DecidableEq, Repr

/-- Location and source metadata of one stored row. -/
structure CorpusRowIdentity where
  provisionFile : Text
  provisionFileSha256 : String
  lineNumber : Nat
  recordId : Text
  citationPath : CitationPath
  jurisdiction : Text
  documentClass : Text
  version : Text
  sourcePath : Option Text
  sourceAsOf : Option Text
  expressionDate : Option Text
  bodySha256 : Option String
  deriving DecidableEq

def CorpusRowIdentity.scope (row : CorpusRowIdentity) : ReleaseScope :=
  ⟨row.jurisdiction, row.documentClass, row.version⟩

structure StoredRecord where
  row : CorpusRowIdentity
  body : Option Text
  heading : Option Text
  /-- `some "repealed"` or `none`. -/
  repealed : Bool
  level : Option Nat
  ordinal : Option Nat
  fileSha256 : String
  sourceHistory : List Text
  deriving DecidableEq

namespace StoredRecord

def path (record : StoredRecord) : CitationPath := record.row.citationPath

def hasBody (record : StoredRecord) : Bool := record.body.isSome

/-- The text a body-bearing record contributes: its heading, when it has one,
over its body. -/
def chunk (record : StoredRecord) : Text :=
  let body := record.body.getD []
  match record.heading with
  | some heading => if heading.isEmpty then body else heading ++ "\n\n".toList ++ body
  | none => body

end StoredRecord

end AxiomEncode.Corpus
