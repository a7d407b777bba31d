/-
# Theory.LinkedMemo -- answers shared along a chain

Every element of a `Chain` is the last one or links to another of lower rank, and the last one has the
answer for all that lead to it (`resolve`).  `walk` follows the links with a cache: it stops at a link that
was answered before, and returns what it passed.  A cache is `Sound` if it holds answers of `resolve`
only, and stays so when a query fills in all it passed.
-/
import Mathlib.Tactic.Common

namespace AxiomEncode.Theory

set_option autoImplicit false

structure Chain (α β : Type) where
  link : α → Option α
  last : α → β
  rank : α → Nat
  descends : ∀ {a b}, link a = some b → rank b < rank a

namespace Chain

variable {α β : Type} (chain : Chain α β)

/-- The answer at the end of the chain. -/
def resolve (a : α) : β :=
  match linked : chain.link a with
  | none => chain.last a
  | some b => resolve b
termination_by chain.rank a
decreasing_by exact chain.descends linked

/-- The answer, and the elements passed on the way to it. -/
def walk (cache : α → Option β) (a : α) (passed : List α) : β × List α :=
  match linked : chain.link a with
  | none => (chain.last a, passed)
  | some b =>
    match cache b with
    | some answer => (answer, passed)
    | none => walk cache b (passed ++ [b])
termination_by chain.rank a
decreasing_by exact chain.descends linked

/-- A query answers from the cache, or walks and keeps the answer for all it passed. -/
def query [DecidableEq α] (cache : α → Option β) (a : α) : β × (α → Option β) :=
  match cache a with
  | some answer => (answer, cache)
  | none =>
    let (answer, passed) := chain.walk cache a [a]
    (answer, fun b => if b ∈ passed then some answer else cache b)

/-- The cache holds the answers of the chain. -/
def Sound (cache : α → Option β) : Prop := ∀ a answer, cache a = some answer → answer = chain.resolve a

variable {chain} {cache : α → Option β} {a b : α}

theorem resolve_of_link (linked : chain.link a = some b) : chain.resolve a = chain.resolve b := by
  rw [resolve]
  split
  next unlinked => rw [unlinked] at linked; cases linked
  next c linked' => rw [linked] at linked'; rw [Option.some.inj linked']

theorem resolve_of_last (unlinked : chain.link a = none) : chain.resolve a = chain.last a := by
  rw [resolve]
  split
  · rfl
  next c linked => rw [unlinked] at linked; cases linked

theorem walk_of_last (unlinked : chain.link a = none) (passed : List α) :
    chain.walk cache a passed = (chain.last a, passed) := by
  rw [walk]
  split
  · rfl
  next c linked => rw [unlinked] at linked; cases linked

theorem walk_of_link (linked : chain.link a = some b) (passed : List α) :
    chain.walk cache a passed =
      match cache b with
      | some answer => (answer, passed)
      | none => chain.walk cache b (passed ++ [b]) := by
  rw [walk]
  split
  next unlinked => rw [unlinked] at linked; cases linked
  next c linked' => rw [linked] at linked'; rw [Option.some.inj linked']

theorem sound_empty : chain.Sound fun _ => none := nofun

/-- **A walk comes to the answer of the chain, which is that of all it passes.** -/
theorem walk_spec (sound : chain.Sound cache) (a : α) (passed : List α) :
    (chain.walk cache a passed).1 = chain.resolve a ∧
      ∀ b ∈ (chain.walk cache a passed).2, b ∈ passed ∨
        chain.resolve b = chain.resolve a ∧ chain.rank b ≤ chain.rank a := by
  induction rank : chain.rank a using Nat.strongRecOn generalizing a passed with
  | ind n ih =>
    subst rank
    cases linked : chain.link a with
    | none =>
      rw [walk_of_last linked, resolve_of_last linked]
      exact ⟨rfl, fun b isPassed => .inl isPassed⟩
    | some next =>
      rw [walk_of_link linked, resolve_of_link linked]
      cases known : cache next with
      | some answer => exact ⟨sound next answer known, fun b isPassed => .inl isPassed⟩
      | none =>
        have lower := chain.descends linked
        obtain ⟨same, shared⟩ := ih _ lower next (passed ++ [next]) rfl
        refine ⟨same, fun b isPassed => ?_⟩
        rcases shared b isPassed with before | ⟨isSame, isLower⟩
        · rcases List.mem_append.mp before with before | isNext
          · exact .inl before
          · obtain rfl := List.mem_singleton.mp isNext
            exact .inr ⟨rfl, Nat.le_of_lt lower⟩
        · exact .inr ⟨isSame, by omega⟩

/-- **A query answers as the chain does, leaves a sound cache, and fills in nothing of higher rank.** -/
theorem query_spec [DecidableEq α] (sound : chain.Sound cache) (a : α) :
    (chain.query cache a).1 = chain.resolve a ∧ chain.Sound (chain.query cache a).2 ∧
      ∀ b, ((chain.query cache a).2 b).isSome → (cache b).isSome ∨ b = a ∨ chain.rank b ≤ chain.rank a := by
  rw [query]
  cases known : cache a with
  | some answer => exact ⟨sound a answer known, sound, fun b kept => .inl kept⟩
  | none =>
    obtain ⟨same, shared⟩ := walk_spec sound a [a]
    refine ⟨same, fun b answer kept => ?_, fun b kept => ?_⟩
    · dsimp only at kept
      split at kept
      next isPassed =>
        rw [← Option.some.inj kept, same]
        rcases shared b isPassed with isStart | ⟨isSame, -⟩
        · rw [List.mem_singleton.mp isStart]
        · exact isSame.symm
      next => exact sound b answer kept
    · dsimp only at kept
      split at kept
      next isPassed =>
        rcases shared b isPassed with isStart | ⟨-, isLower⟩
        · exact .inr (.inl (List.mem_singleton.mp isStart))
        · exact .inr (.inr isLower)
      next => exact .inl kept

end Chain

end AxiomEncode.Theory
