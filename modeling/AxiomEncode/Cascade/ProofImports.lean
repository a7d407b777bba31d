/-
# Cascade.ProofImports -- the proof imports of a module

`proofImportScalarNodes` goes down a YAML document to the `target` and the `hash` of each
atom of kind import.  A document is a graph: an alias is the node of its anchor, so a place
that is reached through an alias has marks from elsewhere, and is refused.  The parser is
not modelled.
-/
import AxiomEncode.Cascade.Plan

namespace AxiomEncode.Cascade

open Theory

set_option autoImplicit false

/-- A scalar node of a document, with its marks. -/
structure ScalarNode where
  value : Text
  line : Nat
  startIndex : Nat
  endIndex : Nat
  style : Option Char
  deriving DecidableEq

/-- What is one node and what another: the identity of an object. -/
abbrev NodeId := Nat

/-- A node of a document, with its marks. -/
inductive YamlNode where
  | scalar (tag : Text) (node : ScalarNode)
  | sequence (items : List NodeId) (startIndex endIndex : Nat)
  | mapping (pairs : List (NodeId × NodeId)) (startIndex endIndex : Nat)

def YamlNode.startIndex : YamlNode → Nat
  | scalar _ node => node.startIndex
  | sequence _ startIndex _ => startIndex
  | mapping _ startIndex _ => startIndex

def YamlNode.endIndex : YamlNode → Nat
  | scalar _ node => node.endIndex
  | sequence _ _ endIndex => endIndex
  | mapping _ _ endIndex => endIndex

/-- What `yaml.compose` makes of a text. -/
structure YamlDocument where
  root : NodeId
  node : NodeId → YamlNode

/-- The tokens of `yaml.scan` that are told apart. -/
inductive TokenKind where
  | key
  | anchor
  | alias_
  | other
  deriving DecidableEq

structure YamlToken where
  kind : TokenKind
  startIndex : Nat

/-- Where the `marker_tokens` start. -/
def markers (tokens : List YamlToken) : List Nat :=
  (tokens.filter fun token => token.kind = .anchor || token.kind = .alias_).map YamlToken.startIndex

section

variable (repr : Text → Text) (document : YamlDocument)

/-- `seen_hash_spans` and `found` -/
structure FoundImports where
  spans : List (Nat × Nat)
  nodes : List (ScalarNode × ScalarNode)

/-- `(hash_node.start_mark.index, hash_node.end_mark.index)` -/
def ScalarNode.span (node : ScalarNode) : Nat × Nat := (node.startIndex, node.endIndex)

/-- `f"{context}[{index}]"` -/
def indexed (context : Text) (index : Nat) : Text :=
  context ++ "[".toList ++ (toString index).toList ++ "]".toList

end

end AxiomEncode.Cascade
