/-
# Corpus.Compose -- the text of a bodyless provision, from its descendants

`composeDescendantText` walks the trie of the descendants' citation paths.  A
body-bearing record is the complete source of its subtree, so the walk stops
there; a repealed leaf contributes nothing; a bodyless leaf that nothing covers
is refused.  Siblings are taken in the order of `descendantSiblingOrderKey`.

The trie is kept as its list of edges, in the order in which the dictionary of
the source would have met them.  Both recursions carry a depth bound; the depth
of the trie is one (`visitBound`), so the bound is never met.
-/
import AxiomEncode.Corpus.Records
import AxiomEncode.Theory.Checks
import Mathlib.Data.List.Sort
import Mathlib.Data.Prod.Lex
import Mathlib.Data.List.Lex
import Mathlib.Data.Char

namespace AxiomEncode.Corpus

open Theory

set_option autoImplicit false

def maxComposedCorpusBytes : Nat := 64 * 1024 * 1024
def maxCompositionNodes : Nat := 100000
def maxCompositionPrefixBytes : Nat := 64 * 1024 * 1024

abbrev ComposeError := CorpusError CorpusRowIdentity

/-! ## The order of siblings -/

/-- `(0, int(part))` for a run of digits, `(1, part.casefold(), part)` for the
text between two runs.  `casefold` is ASCII lower-casing on segments. -/
abbrev NaturalPart := ℕ ×ₗ ℕ ×ₗ Text ×ₗ Text

def naturalPart (part : Text) : NaturalPart :=
  if part.all isAsciiDigit then toLex (0, toLex (decimalValue part, toLex ([], [])))
  else toLex (1, toLex (0, toLex (lowerAscii part, part)))

/-- The nonempty parts of `re.split(r"(\d+)", segment)`: maximal runs of digits
and of other characters. -/
def naturalSplit (segment : Text) : List Text :=
  segment.splitBy fun a b => isAsciiDigit a == isAsciiDigit b

/-- The sort key, compared field by field.  The ordinal is read only when every
sibling has one, so that keys that meet have the same shape. -/
abbrev SiblingKey := ℤ ×ₗ (ℤ ×ₗ ℤ) ×ₗ List NaturalPart ×ₗ Text

def descendantSiblingOrderKey (path : CitationPath) (record : Option StoredRecord)
    (useOrdinal : Bool) : SiblingKey :=
  let segment := (path.getLast?.map Subtype.val).getD []
  let natural := (naturalSplit segment).map naturalPart
  let legalOrder : ℤ ×ₗ ℤ :=
    match canonicalUsDescendantOrdinal path with
    | some ordinal => toLex (0, ordinal)
    | none => toLex (1, 0)
  let ordinal : ℤ :=
    match useOrdinal, record.bind StoredRecord.ordinal with
    | true, some ordinal => ordinal
    | _, _ => 0
  toLex (ordinal, toLex (legalOrder, toLex (natural, path.text)))

/-! ## The trie of descendants -/

structure CompositionIndex where
  /-- The pairs `(parent, child)`, without repetition. -/
  edges : List (CitationPath × CitationPath)
  nodes : Nat
  prefixBytes : Nat

namespace CompositionIndex

def childPaths (index : CompositionIndex) (parent : CitationPath) : List CitationPath :=
  index.edges.filterMap fun edge => if edge.1 = parent then some edge.2 else none

/-- Enter one child, under the node and byte limits. -/
def addChild (index : CompositionIndex) (parent child : CitationPath) :
    Except ComposeError CompositionIndex :=
  if child ∈ index.childPaths parent then .ok index
  else
    let nodes := index.nodes + 1
    let prefixBytes := index.prefixBytes + 4 * utf8Length child.text
    if maxCompositionNodes < nodes then
      .error (.descendantStructure
        "Corpus descendant composition exceeds the 100000-node safety limit")
    else if maxCompositionPrefixBytes < prefixBytes then
      .error (.descendantStructure
        "Corpus descendant composition exceeds the 67108864-byte prefix safety limit")
    else .ok { edges := index.edges ++ [(parent, child)], nodes, prefixBytes }

/-- Enter the chain from `parent` down the remaining segments. -/
def addChain (index : CompositionIndex) (parent : CitationPath) :
    List Segment → Except ComposeError CompositionIndex
  | [] => .ok index
  | segment :: rest => do
    let child := parent ++ [segment]
    let index ← index.addChild parent child
    addChain index child rest

end CompositionIndex

section Compose

variable (citationPath : CitationPath) (records : List StoredRecord)

/-- `by_path[path]` -/
def recordsAt (path : CitationPath) : List StoredRecord :=
  records.filter fun record => record.path = path

/-- `unique_by_path.get(path)` -/
def recordAt (path : CitationPath) : Option StoredRecord :=
  records.find? fun record => record.path = path

/-- Enter the chain from the parent down to one record. -/
def addRecord (index : CompositionIndex) (record : StoredRecord) :
    Except ComposeError CompositionIndex :=
  if citationPath <+: record.path ∧ citationPath ≠ record.path then
    index.addChain citationPath (record.path.drop citationPath.length)
  else
    .error (.descendantStructure ("Corpus descendant " ++ quoted record.path.text ++
      " is outside parent " ++ quoted citationPath.text))

def buildIndex : Except ComposeError CompositionIndex :=
  records.foldlM (addRecord citationPath)
    { edges := [], nodes := 1, prefixBytes := 4 * utf8Length citationPath.text }

/-- A node without a record, or with a bodyless one: some child contributes. -/
def contributesBelow (index : CompositionIndex) (contributes : CitationPath → Bool)
    (path : CitationPath) : Bool :=
  let childPaths := index.childPaths path
  -- an ordinary bodyless leaf is left for the visit to refuse
  if childPaths.isEmpty then true else childPaths.any contributes

/-- Whether the subtree at `path` holds current text, or a leaf without any. -/
def contributesCurrentText (index : CompositionIndex) : Nat → CitationPath → Bool
  | 0, _ => false
  | bound + 1, path =>
    match recordAt records path with
    | some record =>
      if record.repealed then false
      else if record.hasBody then true
      else contributesBelow index (contributesCurrentText index bound) path
    | none => contributesBelow index (contributesCurrentText index bound) path

/-- Ordinals are used when every contributing child has one. -/
def useOrdinals (childPaths : List CitationPath) : Bool :=
  !childPaths.isEmpty && childPaths.all fun child =>
    ((recordAt records child).bind StoredRecord.ordinal).isSome

/-- The contributing children of a node in the order of their keys. -/
def sortedChildren (childPaths : List CitationPath) : List CitationPath :=
  let key := fun child =>
    descendantSiblingOrderKey child (recordAt records child) (useOrdinals records childPaths)
  childPaths.insertionSort fun a b => key a ≤ key b

/-- A node without a record, or with a bodyless one: its contributing children
in order, or a refusal if nothing covers it. -/
def visitBelow (index : CompositionIndex) (contributes : CitationPath → Bool)
    (visit : CitationPath → Except ComposeError (List StoredRecord)) (path : CitationPath) :
    Except ComposeError (List StoredRecord) :=
  let rawChildPaths := index.childPaths path
  let childPaths := rawChildPaths.filter contributes
  if !rawChildPaths.isEmpty && childPaths.isEmpty then .ok []
  else if childPaths.isEmpty then
    .error (.descendantStructure ("Active corpus source " ++ quoted citationPath.text ++
      " has uncovered bodyless descendant " ++ quoted path.text))
  else do
    let parts ← (sortedChildren records childPaths).mapM visit
    pure parts.flatten

/-- The records whose text the subtree at `path` contributes, in order. -/
def visit (index : CompositionIndex) (contributes : CitationPath → Bool) :
    Nat → CitationPath → Except ComposeError (List StoredRecord)
  | 0, _ => .error .recursion
  | bound + 1, path =>
    match recordAt records path with
    | some record =>
      -- an explicit current-law tombstone
      if record.repealed then .ok []
      -- the shallowest complete source for its subtree
      else if record.hasBody then .ok [record]
      else visitBelow citationPath records index contributes (visit index contributes bound)
        path
    | none =>
      visitBelow citationPath records index contributes (visit index contributes bound) path

/-- No chain of the trie is longer than the longest path. -/
def visitBound : Nat := (records.map fun record => record.path.length).foldr max 0 + 1

/-- Join the chunks under the byte limit. -/
def joinChunks : List StoredRecord → Nat → Except ComposeError (List Text)
  | [], _ => .ok []
  | record :: rest, composedBytes =>
    let composedBytes := composedBytes + utf8Length record.chunk
    if maxComposedCorpusBytes < composedBytes then
      .error (.descendantStructure
        "Composed corpus source exceeds the 67108864-byte safety limit")
    else do
      let chunks ← joinChunks rest (composedBytes + 2)
      pure (record.chunk :: chunks)

def noBodyBearing : ComposeError :=
  .descendantStructure ("Active corpus source " ++ quoted citationPath.text ++
    " has no body-bearing descendants")

def composeDescendantText (expectedScope : ReleaseScope) :
    Except ComposeError (Text × List CorpusRowIdentity) := do
  require (!records.isEmpty) (noBodyBearing citationPath)
  require (records.all fun record => record.row.scope = expectedScope)
    (.descendantStructure ("Corpus descendants for " ++ quoted citationPath.text ++
      " cross active release scopes"))
  refuse (records.find? fun record => 1 < (recordsAt records record.path).length)
    fun record => .ambiguousSource record.path.text
      ((recordsAt records record.path).map StoredRecord.row)
  require (records.any StoredRecord.hasBody) (noBodyBearing citationPath)
  let index ← buildIndex citationPath records
  refuse (records.find? fun record =>
      record.repealed && (record.hasBody || !(index.childPaths record.path).isEmpty))
    fun record => .descendantStructure ("Active corpus source " ++ quoted citationPath.text ++
      " has malformed repealed descendant " ++ quoted record.path.text)
  let contributes := contributesCurrentText records index (visitBound records)
  let ordered ← visit citationPath records index contributes (visitBound records) citationPath
  require (!ordered.isEmpty) (noBodyBearing citationPath)
  let chunks ← joinChunks ordered 0
  pure (List.intercalate "\n\n".toList chunks, ordered.map StoredRecord.row)

end Compose

end AxiomEncode.Corpus
