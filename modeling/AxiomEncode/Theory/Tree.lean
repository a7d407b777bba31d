/-
# Theory.Tree -- decoded documents

Scalars, sequences, mappings, sets of scalars and pairs.
-/
import Mathlib.Data.List.Basic
import Mathlib.Tactic.Common

namespace AxiomEncode.Theory

set_option autoImplicit false

inductive Tree (σ : Type) where
  | leaf (value : σ)
  | seq (items : List (Tree σ))
  | map (members : List (σ × Tree σ))
  /-- `!!set` -/
  | set (members : List σ)
  /-- An entry of `!!omap` or `!!pairs`. -/
  | tuple (first second : Tree σ)

namespace Tree

variable {σ : Type}

/-- Induction with all values of a sequence or mapping at once. -/
theorem induction {motive : Tree σ → Prop} (leaf : ∀ value, motive (.leaf value))
    (seq : ∀ items, (∀ item ∈ items, motive item) → motive (.seq items))
    (map : ∀ members : List (σ × Tree σ), (∀ member ∈ members, motive member.2) →
      motive (.map members)) (set : ∀ members, motive (.set members))
    (tuple : ∀ first second, motive first → motive second → motive (.tuple first second)) :
    ∀ tree, motive tree := by
  intro tree
  refine Tree.rec (motive_1 := motive) (motive_2 := fun items => ∀ item ∈ items, motive item)
    (motive_3 := fun members => ∀ member ∈ members, motive member.2)
    (motive_4 := fun member => motive member.2)
    leaf seq map set tuple ?_ ?_ ?_ ?_ ?_ tree
  · simp
  · intro item items holds rest
    exact List.forall_mem_cons.mpr ⟨holds, rest⟩
  · simp
  · intro member members holds rest
    exact List.forall_mem_cons.mpr ⟨holds, rest⟩
  · intro key value holds
    exact holds

/-! ## Size -/

mutual

/-- The nodes of a document, the keys of its mappings and the members of its sets among them. -/
def nodes : Tree σ → Nat
  | .leaf _ => 1
  | .seq items => nodesOfItems items + 1
  | .map members => nodesOfMembers members + 1
  | .set members => members.length + 1
  | .tuple first second => nodes first + nodes second + 1

def nodesOfItems : List (Tree σ) → Nat
  | [] => 0
  | item :: items => nodes item + nodesOfItems items

def nodesOfMembers : List (σ × Tree σ) → Nat
  | [] => 0
  | (_, value) :: members => nodes value + 1 + nodesOfMembers members

end

end Tree

end AxiomEncode.Theory
