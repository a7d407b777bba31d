/-
# Theory.Checks -- fallible code that checks and then goes on

A function that validates before it acts is a sequence of checks in `Except`.
`require` is one check of a condition, `refuse` one that looks for an offender.
The lemmas say when such a sequence succeeds: every check passes, every step
does, and a map over a list succeeds element by element.
-/
import Mathlib.Data.List.Basic
import Mathlib.Data.List.Perm.Basic
import Mathlib.Tactic.Common

namespace AxiomEncode.Theory

set_option autoImplicit false

section

variable {ε α β γ κ : Type}

/-- Go on if the condition holds. -/
def require (condition : Bool) (error : ε) : Except ε Unit :=
  if condition then .ok () else .error error

/-- Go on if no offender was found. -/
def refuse (offender : Option α) (error : α → ε) : Except ε Unit :=
  match offender with
  | some x => .error (error x)
  | none => .ok ()

variable {error : ε} {u : Unit} {m : Except ε α} {f : α → Except ε β} {x : α} {xs : List α}
  {ys : List β} {P : β → Prop}

@[simp] theorem require_eq_ok_iff {condition : Bool} :
    require condition error = .ok u ↔ condition = true := by
  cases condition <;> simp [require]

@[simp] theorem refuse_eq_ok_iff {offender : Option α} {error : α → ε} :
    refuse offender error = .ok u ↔ offender = none := by
  cases offender <;> simp [refuse]

@[simp] theorem bind_eq_ok_iff {y : β} :
    (m >>= f) = .ok y ↔ ∃ x, m = .ok x ∧ f x = .ok y := by
  cases m <;> simp [bind, Except.bind]

@[simp] theorem map_eq_ok_iff {f : α → β} {y : β} :
    f <$> m = .ok y ↔ ∃ x, m = .ok x ∧ f x = y := by
  cases m <;> simp [Functor.map, Except.map]

theorem exists_of_isOk (returns : m.isOk = true) : ∃ x, m = .ok x := by
  cases m with
  | error error => cases returns
  | ok x => exact ⟨x, rfl⟩

theorem eq_ok_of_toOption (answer : m.toOption = some x) : m = .ok x := by
  cases m with
  | error error => cases answer
  | ok y => exact congrArg _ (Option.some.inj answer)

theorem bind_eq_error_iff :
    (m >>= f) = .error error ↔ m = .error error ∨ ∃ x, m = .ok x ∧ f x = .error error := by
  cases m <;> simp [bind, Except.bind]

theorem mapM_cons_eq_ok_iff {zs : List β} :
    (x :: xs).mapM f = .ok zs ↔ ∃ y ys, f x = .ok y ∧ xs.mapM f = .ok ys ∧ zs = y :: ys := by
  rw [List.mapM_cons, bind_eq_ok_iff]
  constructor
  · rintro ⟨y, head, rest⟩
    obtain ⟨ys, tail, last⟩ := bind_eq_ok_iff.mp rest
    exact ⟨y, ys, head, tail, (Except.ok.inj last).symm⟩
  · rintro ⟨y, ys, head, tail, rfl⟩
    exact ⟨y, head, bind_eq_ok_iff.mpr ⟨ys, tail, rfl⟩⟩

/-- In a monadic map that succeeded every element succeeded. -/
theorem eq_ok_of_mapM (mapped : xs.mapM f = .ok ys) : ∀ x ∈ xs, ∃ y, f x = .ok y := by
  induction xs generalizing ys with
  | nil => simp
  | cons x xs ih =>
    obtain ⟨y, ys, head, tail, -⟩ := mapM_cons_eq_ok_iff.mp mapped
    intro z hz
    rcases List.mem_cons.mp hz with rfl | hz
    · exact ⟨y, head⟩
    · exact ih tail z hz

/-- The error of a monadic map is the error of an element. -/
theorem exists_of_mapM_eq_error (failed : xs.mapM f = .error error) :
    ∃ x ∈ xs, f x = .error error := by
  induction xs with
  | nil => cases failed
  | cons x xs ih =>
    rw [List.mapM_cons, bind_eq_error_iff] at failed
    rcases failed with head | ⟨y, -, rest⟩
    · exact ⟨x, List.mem_cons_self, head⟩
    · rcases bind_eq_error_iff.mp rest with tail | ⟨ys, -, last⟩
      · obtain ⟨z, member, here⟩ := ih tail
        exact ⟨z, List.mem_cons_of_mem _ member, here⟩
      · cases last

/-- The answers of a monadic map and the elements they belong to. -/
theorem mapM_answers (mapped : xs.mapM f = .ok ys) :
    (∀ x ∈ xs, ∃ y ∈ ys, f x = .ok y) ∧ ∀ y ∈ ys, ∃ x ∈ xs, f x = .ok y := by
  induction xs generalizing ys with
  | nil =>
    cases Except.ok.inj (show Except.ok [] = Except.ok ys from mapped)
    exact ⟨nofun, nofun⟩
  | cons x xs ih =>
    obtain ⟨y, rest, head, tail, rfl⟩ := mapM_cons_eq_ok_iff.mp mapped
    obtain ⟨answered, asked⟩ := ih tail
    constructor
    · rintro z (_ | ⟨_, later⟩)
      · exact ⟨y, List.mem_cons_self, head⟩
      · obtain ⟨w, member, here⟩ := answered z later
        exact ⟨w, List.mem_cons_of_mem _ member, here⟩
    · rintro w (_ | ⟨_, later⟩)
      · exact ⟨x, List.mem_cons_self, head⟩
      · obtain ⟨z, member, here⟩ := asked w later
        exact ⟨z, List.mem_cons_of_mem _ member, here⟩

/-- Answers known up to order, concatenated. -/
theorem mapM_flatten_perm {f : α → Except ε (List β)} {g : α → List β} {parts : List (List β)}
    (mapped : xs.mapM f = .ok parts) (each : ∀ x ∈ xs, ∀ part, f x = .ok part → part.Perm (g x)) :
    parts.flatten.Perm (xs.flatMap g) := by
  induction xs generalizing parts with
  | nil =>
    cases Except.ok.inj (show Except.ok [] = Except.ok parts from mapped)
    exact .nil
  | cons x xs ih =>
    obtain ⟨part, rest, head, tail, rfl⟩ := mapM_cons_eq_ok_iff.mp mapped
    rw [List.flatten_cons, List.flatMap_cons]
    exact (each x List.mem_cons_self part head).append
      (ih tail fun z hz => each z (List.mem_cons_of_mem _ hz))

theorem exists_mapM_eq_ok (each : ∀ x ∈ xs, ∃ y, f x = .ok y) : ∃ ys, xs.mapM f = .ok ys := by
  induction xs with
  | nil => exact ⟨[], rfl⟩
  | cons x xs ih =>
    obtain ⟨y, hy⟩ := each x List.mem_cons_self
    obtain ⟨ys, hys⟩ := ih fun z hz => each z (List.mem_cons_of_mem _ hz)
    exact ⟨y :: ys, mapM_cons_eq_ok_iff.mpr ⟨y, ys, hy, hys, rfl⟩⟩

/-- Elements that are written and read one by one. -/
theorem exists_mapM_mapM {g : β → Except ε γ} {R : α → γ → Prop}
    (each : ∀ x ∈ xs, ∃ y, f x = .ok y ∧ P y ∧ ∃ z, g y = .ok z ∧ R x z) :
    ∃ ys, xs.mapM f = .ok ys ∧ (∀ y ∈ ys, P y) ∧
      ∃ zs, ys.mapM g = .ok zs ∧ List.Forall₂ R xs zs := by
  induction xs with
  | nil => exact ⟨[], rfl, nofun, [], rfl, .nil⟩
  | cons x xs ih =>
    obtain ⟨y, written, holds, z, read, related⟩ := each x List.mem_cons_self
    obtain ⟨ys, writtenRest, holdsRest, zs, readRest, relatedRest⟩ :=
      ih fun x later => each x (List.mem_cons_of_mem _ later)
    exact ⟨y :: ys, mapM_cons_eq_ok_iff.mpr ⟨y, ys, written, writtenRest, rfl⟩,
      List.forall_mem_cons.mpr ⟨holds, holdsRest⟩, z :: zs,
      mapM_cons_eq_ok_iff.mpr ⟨z, zs, read, readRest, rfl⟩, .cons related relatedRest⟩

/-- What every turn of a loop keeps, the loop keeps. -/
theorem foldlM_keeps {f : β → α → Except ε β}
    (turn : ∀ x ∈ xs, ∀ b b', P b → f b x = .ok b' → P b') {b b' : β} (start : P b)
    (folded : xs.foldlM f b = .ok b') : P b' := by
  induction xs generalizing b with
  | nil =>
    cases Except.ok.inj (show Except.ok b = Except.ok b' from folded)
    exact start
  | cons x xs ih =>
    rw [List.foldlM_cons] at folded
    obtain ⟨next, first, rest⟩ := bind_eq_ok_iff.mp folded
    exact ih (fun z later => turn z (List.mem_cons_of_mem _ later))
      (turn x List.mem_cons_self b next start first) rest

/-- A loop whose turns succeed or not whatever the turns before made. -/
theorem foldlM_eq_ok_iff {f : β → α → Except ε β} {g : β → α → β} {good : α → Prop} {xs : List α}
    (turn : ∀ x ∈ xs, ∀ b b', f b x = .ok b' ↔ good x ∧ b' = g b x) {b b' : β} :
    xs.foldlM f b = .ok b' ↔ (∀ x ∈ xs, good x) ∧ b' = xs.foldl g b := by
  induction xs generalizing b with
  | nil => exact ⟨fun done => ⟨nofun, (Except.ok.inj done).symm⟩, fun done => congrArg _ done.2.symm⟩
  | cons x xs ih =>
    have rest := @ih (fun y later => turn y (List.mem_cons_of_mem _ later))
    rw [List.foldlM_cons, bind_eq_ok_iff, List.forall_mem_cons, List.foldl_cons]
    constructor
    · rintro ⟨c, first, later⟩
      obtain ⟨goodFirst, rfl⟩ := (turn x List.mem_cons_self _ _).mp first
      obtain ⟨goodRest, same⟩ := rest.mp later
      exact ⟨⟨goodFirst, goodRest⟩, same⟩
    · rintro ⟨⟨goodFirst, goodRest⟩, same⟩
      exact ⟨_, (turn x List.mem_cons_self _ _).mpr ⟨goodFirst, rfl⟩, rest.mpr ⟨goodRest, same⟩⟩

/-- A loop of checks passes when each of them does. -/
theorem forM_eq_ok_iff {f : α → Except ε Unit} :
    xs.forM f = .ok u ↔ ∀ x ∈ xs, f x = .ok () := by
  induction xs with
  | nil => exact ⟨fun _ => nofun, fun _ => rfl⟩
  | cons x xs ih =>
    change (f x >>= fun _ => xs.forM f) = .ok u ↔ _
    rw [bind_eq_ok_iff, List.forall_mem_cons, ← ih]
    exact ⟨fun ⟨(), first, rest⟩ => ⟨first, rest⟩, fun ⟨first, rest⟩ => ⟨(), first, rest⟩⟩

/-! ## Collecting what each element yields -/

/-- Run over a list and append what each element yields; the first error wins. -/
def collect (f : α → Except ε (List β)) : List α → Except ε (List β)
  | [] => .ok []
  | x :: xs => do
    let here ← f x
    let rest ← collect f xs
    pure (here ++ rest)

/-- What a step yields, nothing when it fails. -/
def yields (result : Except ε (List β)) : List β :=
  match result with
  | .ok ys => ys
  | .error _ => []

@[simp] theorem yields_ok (ys : List β) : yields (.ok ys : Except ε (List β)) = ys := rfl

theorem collect_cons_eq_ok_iff {f : α → Except ε (List β)} :
    collect f (x :: xs) = .ok ys ↔
      ∃ here rest, f x = .ok here ∧ collect f xs = .ok rest ∧ ys = here ++ rest := by
  rw [collect, bind_eq_ok_iff]
  constructor
  · rintro ⟨here, first, later⟩
    obtain ⟨rest, tail, last⟩ := bind_eq_ok_iff.mp later
    exact ⟨here, rest, first, tail, (Except.ok.inj last).symm⟩
  · rintro ⟨here, rest, first, tail, rfl⟩
    exact ⟨here, first, bind_eq_ok_iff.mpr ⟨rest, tail, rfl⟩⟩

/-- A run succeeds when every element does, and then yields what they yield. -/
theorem collect_eq_ok_iff {f : α → Except ε (List β)} :
    collect f xs = .ok ys ↔
      (∀ x ∈ xs, ∃ part, f x = .ok part) ∧ ys = xs.flatMap fun x => yields (f x) := by
  induction xs generalizing ys with
  | nil => simp [collect, eq_comm]
  | cons x xs ih =>
    rw [collect_cons_eq_ok_iff]
    constructor
    · rintro ⟨here, rest, first, tail, rfl⟩
      obtain ⟨each, rfl⟩ := ih.mp tail
      refine ⟨fun z hz => ?_, by rw [List.flatMap_cons, first, yields_ok]⟩
      rcases List.mem_cons.mp hz with rfl | hz
      · exact ⟨here, first⟩
      · exact each z hz
    · rintro ⟨each, rfl⟩
      obtain ⟨here, first⟩ := each x List.mem_cons_self
      refine ⟨here, _, first, ih.mpr ⟨fun z hz => each z (List.mem_cons_of_mem _ hz), rfl⟩, ?_⟩
      rw [List.flatMap_cons, first, yields_ok]

theorem collect_map (f : α → Except ε (List β)) (g : γ → α) (xs : List γ) :
    collect f (xs.map g) = collect (fun x => f (g x)) xs := by
  induction xs with
  | nil => rfl
  | cons x xs ih => simp only [List.map_cons, collect, ih]

theorem collect_append (f : α → Except ε (List β)) (xs ys : List α) :
    collect f (xs ++ ys) =
      collect f xs >>= fun first => collect f ys >>= fun second => pure (first ++ second) := by
  induction xs with
  | nil => cases h : collect f ys <;> simp [collect, h, bind, Except.bind, pure, Except.pure]
  | cons x xs ih =>
    simp only [List.cons_append, collect, ih]
    cases f x with
    | error e => rfl
    | ok here =>
      cases collect f xs with
      | error e => rfl
      | ok rest =>
        cases collect f ys with
        | error e => rfl
        | ok more => simp [bind, Except.bind, pure, Except.pure]

/-- Collecting over groups is collecting over what they hold. -/
theorem collect_flatMap (f : γ → Except ε (List β)) (g : α → List γ) (xs : List α) :
    collect (fun x => collect f (g x)) xs = collect f (xs.flatMap g) := by
  induction xs with
  | nil => rfl
  | cons x xs ih => rw [List.flatMap_cons, collect_append, collect, ih]

/-- A step that skips what does not count and yields one answer for what does:
the answers are those of the elements that count, in order. -/
theorem collect_singles {f : α → Except ε (List β)} {counts : α → Bool}
    (skips : ∀ x part, counts x = false → f x = .ok part → part = [])
    (single : ∀ x part, counts x = true → f x = .ok part → ∃ y, part = [y])
    (done : collect f xs = .ok ys) :
    List.Forall₂ (fun x y => f x = .ok [y]) (xs.filter counts) ys := by
  induction xs generalizing ys with
  | nil =>
    cases Except.ok.inj (show Except.ok [] = Except.ok ys from done)
    exact .nil
  | cons x xs ih =>
    obtain ⟨here, rest, first, tail, rfl⟩ := collect_cons_eq_ok_iff.mp done
    cases counted : counts x with
    | false =>
      rw [List.filter_cons_of_neg (by simp [counted]), skips x here counted first]
      exact ih tail
    | true =>
      obtain ⟨y, rfl⟩ := single x here counted first
      rw [List.filter_cons_of_pos counted]
      exact .cons first (ih tail)

/-- Two lists that agree up to order once `forget` is applied collect answers
that agree up to order once `keep` is, when the step respects the two maps. -/
theorem collect_perm_map {f : α → Except ε (List β)} {forget : α → κ} {keep : β → γ}
    {xs' : List α}
    (respects : ∀ x x' part, forget x = forget x' → f x = .ok part →
      ∃ part', f x' = .ok part' ∧ part'.map keep = part.map keep)
    (perm : (xs.map forget).Perm (xs'.map forget)) (done : collect f xs = .ok ys) :
    ∃ ys', collect f xs' = .ok ys' ∧ (ys'.map keep).Perm (ys.map keep) := by
  obtain ⟨each, rfl⟩ := collect_eq_ok_iff.mp done
  -- reorder the first list so that the two agree element by element
  obtain ⟨zs, aligned, reordered⟩ : ∃ zs : List α, xs'.map forget = zs.map forget ∧ zs.Perm xs := by
    have : (xs'.map forget).Perm (xs.map forget) := perm.symm
    rwa [← congrFun (congrFun (List.eq_map_comp_perm forget) _) _] at this
  have each' : ∀ z ∈ zs, ∃ part, f z = .ok part := fun z hz => each z (reordered.mem_iff.mp hz)
  have pointwise : ∃ ys', collect f xs' = .ok ys' ∧
      ys'.map keep = (zs.flatMap fun z => yields (f z)).map keep := by
    clear reordered perm done each
    induction zs generalizing xs' with
    | nil =>
      cases List.map_eq_nil_iff.mp aligned
      exact ⟨[], rfl, rfl⟩
    | cons z zs ih =>
      obtain ⟨x, rest, rfl, same, later⟩ := List.map_eq_cons_iff.mp aligned
      obtain ⟨part, first⟩ := each' z List.mem_cons_self
      obtain ⟨part', first', kept⟩ := respects z x part same.symm first
      obtain ⟨ys', tail, keptRest⟩ := ih later fun w hw => each' w (List.mem_cons_of_mem _ hw)
      refine ⟨part' ++ ys', collect_cons_eq_ok_iff.mpr ⟨_, _, first', tail, rfl⟩, ?_⟩
      rw [List.map_append, kept, keptRest, List.flatMap_cons, first, yields_ok, List.map_append]
  obtain ⟨ys', done', kept⟩ := pointwise
  refine ⟨ys', done', ?_⟩
  rw [kept]
  exact (reordered.flatMap_right _).map keep

end

end AxiomEncode.Theory
