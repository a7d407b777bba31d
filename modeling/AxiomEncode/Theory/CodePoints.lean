/-
# Theory.CodePoints -- texts in which a surrogate may stand alone

A text is the list of its code points.  `takeUtf8` cuts it at a number of bytes, `bounded` at a
number of characters and closes it with a digest of the whole, and `replacePoint` writes an entity
for a character: what it replaces is gone (`not_mem_replacePoint`).
-/
import Mathlib.Algebra.Ring.Nat
import Mathlib.Data.List.Basic
import Mathlib.Tactic.Common

namespace AxiomEncode.Theory.CodePoints

set_option autoImplicit false

abbrev Text := List Nat

def codes (text : String) : Text := text.toList.map Char.toNat

/-! ## UTF-8 -/

/-- The bytes of a code point. -/
def width (c : Nat) : Nat :=
  if c < 0x80 then 1 else if c < 0x800 then 2 else if c < 0x10000 then 3 else 4

/-- `len(text.encode("utf-8"))` -/
def utf8Length (text : Text) : Nat := (text.map width).sum

/-- `text.encode("utf-8")[:budget].decode("utf-8", errors="ignore")` -/
def takeUtf8 : Nat → Text → Text
  | _, [] => []
  | budget, c :: text =>
    if width c ≤ budget then c :: takeUtf8 (budget - width c) text else []

theorem width_le (c : Nat) : width c ≤ 4 := by
  unfold width
  split_ifs <;> omega

variable {c : Nat} {hash : Fin 64 → Fin 16} {entity : Text} {entities : List (Nat × Text)}

theorem width_ascii (ascii : c < 0x80) : width c = 1 := if_pos ascii

@[simp] theorem utf8Length_nil : utf8Length [] = 0 := rfl

@[simp] theorem utf8Length_cons (c : Nat) (text : Text) :
    utf8Length (c :: text) = width c + utf8Length text := by
  simp [utf8Length]

@[simp] theorem utf8Length_append (text more : Text) :
    utf8Length (text ++ more) = utf8Length text + utf8Length more := by
  simp [utf8Length]

theorem utf8Length_ascii {text : Text} (ascii : ∀ c ∈ text, c < 0x80) :
    utf8Length text = text.length := by
  induction text with
  | nil => rfl
  | cons c text ih =>
    rw [List.forall_mem_cons] at ascii
    rw [utf8Length_cons, ih ascii.2, width_ascii ascii.1, List.length_cons, Nat.add_comm]

theorem utf8Length_flatMap_le {f : Nat → Text} {bound : Nat} (each : ∀ c, utf8Length (f c) ≤ bound)
    (text : Text) : utf8Length (text.flatMap f) ≤ bound * text.length := by
  induction text with
  | nil => simp
  | cons c text ih =>
    have first := each c
    rw [List.flatMap_cons, utf8Length_append, List.length_cons, Nat.mul_succ]
    omega

/-! ## Digests -/

/-- A hexadecimal digit in lower case. -/
def hexDigit (digit : Fin 16) : Nat := if digit < 10 then 48 + digit else 87 + digit

/-- `hexdigest()`, from the digits of the hash. -/
def hexdigest (hash : Fin 64 → Fin 16) : Text := List.ofFn fun i => hexDigit (hash i)

theorem hexDigit_mem (digit : Fin 16) : hexDigit digit ∈ codes "0123456789abcdef" := by
  revert digit
  decide

theorem mem_hexdigest (isDigit : c ∈ hexdigest hash) :
    c ∈ codes "0123456789abcdef" := by
  obtain ⟨i, rfl⟩ := List.mem_ofFn.mp isDigit
  exact hexDigit_mem _

@[simp] theorem length_hexdigest (hash : Fin 64 → Fin 16) : (hexdigest hash).length = 64 :=
  List.length_ofFn

/-! ## Cutting to a number of characters -/

/-- The first twelve digits of the digest after an opening, and a bracket. -/
def digestSuffix (hash : Fin 64 → Fin 16) (opening : Text) : Text :=
  opening ++ (hexdigest hash).take 12 ++ codes "]"

/-- A text of at most `limit` characters: a longer one is cut and ends with its digest. -/
def bounded (sha256 : Text → Fin 64 → Fin 16) (limit : Nat) (opening text : Text) : Text :=
  if text.length ≤ limit then text
  else text.take (limit - (digestSuffix (sha256 text) opening).length) ++
    digestSuffix (sha256 text) opening

section Bounded

variable {sha256 : Text → Fin 64 → Fin 16} {limit : Nat} {opening text : Text}

@[simp] theorem length_digestSuffix (hash : Fin 64 → Fin 16) (opening : Text) :
    (digestSuffix hash opening).length = opening.length + 13 := by
  simp [digestSuffix, codes]

theorem mem_digestSuffix (isMember : c ∈ digestSuffix hash opening) :
    c ∈ opening ∨ c ∈ codes "0123456789abcdef]" := by
  rw [digestSuffix, List.mem_append, List.mem_append] at isMember
  rcases isMember with (isOpening | isDigit) | isBracket
  · exact .inl isOpening
  · have digit := mem_hexdigest (List.mem_of_mem_take isDigit)
    exact .inr (List.mem_of_mem_take (i := 16) digit)
  · exact .inr (List.mem_of_mem_drop (i := 16) isBracket)

theorem bounded_of_length_le (short : text.length ≤ limit) :
    bounded sha256 limit opening text = text := if_pos short

theorem length_bounded_le (room : opening.length + 13 ≤ limit) :
    (bounded sha256 limit opening text).length ≤ limit := by
  unfold bounded
  split_ifs with short
  · exact short
  · rw [List.length_append, List.length_take, length_digestSuffix]
    omega

theorem bounded_ne_nil (nonempty : text ≠ []) : bounded sha256 limit opening text ≠ [] := by
  unfold bounded
  split_ifs with short
  · exact nonempty
  · intro empty
    have length := congrArg List.length empty
    rw [List.length_append, length_digestSuffix] at length
    simp at length

theorem mem_bounded (isMember : c ∈ bounded sha256 limit opening text) :
    c ∈ text ∨ c ∈ opening ∨ c ∈ codes "0123456789abcdef]" := by
  unfold bounded at isMember
  split_ifs at isMember with short
  · exact .inl isMember
  · rcases List.mem_append.mp isMember with kept | closing
    · exact .inl (List.mem_of_mem_take kept)
    · exact .inr (mem_digestSuffix closing)

end Bounded

/-! ## Entities -/

/-- `text.replace(c, entity)`, for one character -/
def replacePoint (c : Nat) (entity text : Text) : Text :=
  text.flatMap fun d => if d = c then entity else [d]

/-- Several characters, one after the other. -/
def replacePoints (entities : List (Nat × Text)) (text : Text) : Text :=
  entities.foldl (fun text entity => replacePoint entity.1 entity.2 text) text

theorem mem_replacePoint {d : Nat} {text : Text} :
    d ∈ replacePoint c entity text ↔ (d ∈ text ∧ d ≠ c) ∨ (c ∈ text ∧ d ∈ entity) := by
  rw [replacePoint, List.mem_flatMap]
  constructor
  · rintro ⟨held, isHeld, isMember⟩
    by_cases same : held = c
    · rw [if_pos same] at isMember
      exact .inr ⟨same ▸ isHeld, isMember⟩
    · rw [if_neg same, List.mem_singleton] at isMember
      exact .inl ⟨isMember ▸ isHeld, isMember ▸ same⟩
  · rintro (⟨isHeld, other⟩ | ⟨isHeld, isMember⟩)
    · exact ⟨d, isHeld, by simp [other]⟩
    · exact ⟨c, isHeld, by simpa using isMember⟩

theorem not_mem_replacePoint {text : Text} (apart : c ∉ entity) :
    c ∉ replacePoint c entity text := by
  rw [mem_replacePoint]
  rintro (⟨-, other⟩ | ⟨-, inside⟩)
  · exact other rfl
  · exact apart inside

theorem replacePoint_of_not_mem {text : Text} (absent : c ∉ text) :
    replacePoint c entity text = text := by
  have each : ∀ d ∈ text, (if d = c then entity else [d]) = [d] := by
    intro d isMember
    refine if_neg ?_
    rintro rfl
    exact absent isMember
  rw [replacePoint, List.flatMap_congr each]
  exact List.flatMap_singleton' text

theorem replacePoint_append (c : Nat) (entity text more : Text) :
    replacePoint c entity (text ++ more) = replacePoint c entity text ++ replacePoint c entity more :=
  List.flatMap_append

theorem replacePoints_nil (entities : List (Nat × Text)) : replacePoints entities [] = [] := by
  induction entities with
  | nil => rfl
  | cons entity entities ih => exact ih

theorem replacePoints_append (entities : List (Nat × Text)) (text more : Text) :
    replacePoints entities (text ++ more) =
      replacePoints entities text ++ replacePoints entities more := by
  induction entities generalizing text more with
  | nil => rfl
  | cons entity entities ih =>
    have first := replacePoint_append entity.1 entity.2 text more
    simp only [replacePoints, List.foldl_cons] at ih ⊢
    rw [first, ih]

/-- Every character is replaced by itself. -/
theorem replacePoints_eq_flatMap (entities : List (Nat × Text)) (text : Text) :
    replacePoints entities text = text.flatMap fun c => replacePoints entities [c] := by
  induction text with
  | nil => exact replacePoints_nil entities
  | cons c text ih =>
    rw [List.flatMap_cons, ← ih, ← replacePoints_append, List.singleton_append]

theorem replacePoints_of_not_mem {text : Text} (absent : ∀ entity ∈ entities, entity.1 ∉ text) :
    replacePoints entities text = text := by
  induction entities with
  | nil => rfl
  | cons entity entities ih =>
    rw [List.forall_mem_cons] at absent
    rw [replacePoints, List.foldl_cons, replacePoint_of_not_mem absent.1]
    exact ih absent.2

/-- No character that is replaced is left, if the entities hold none. -/
theorem not_mem_replacePoints {text : Text} (replaced : c ∈ entities.map Prod.fst ∨ c ∉ text)
    (apart : ∀ entity ∈ entities, c ∉ entity.2) : c ∉ replacePoints entities text := by
  induction entities generalizing text with
  | nil => exact replaced.resolve_left List.not_mem_nil
  | cons entity entities ih =>
    rw [List.forall_mem_cons] at apart
    rw [replacePoints, List.foldl_cons]
    refine ih ?_ apart.2
    by_cases same : c = entity.1
    · rw [same] at apart ⊢
      exact .inr (not_mem_replacePoint apart.1)
    · rcases replaced with listed | absent
      · rw [List.map_cons, List.mem_cons] at listed
        exact .inl (listed.resolve_left same)
      · refine .inr fun inside => ?_
        rcases mem_replacePoint.mp inside with ⟨held, -⟩ | ⟨-, inside⟩
        · exact absent held
        · exact apart.1 inside

end AxiomEncode.Theory.CodePoints
