/-
# Theory.Regex -- backtracking regular expressions with look-around

The matcher of a backtracking engine, read as the list of its answers in the
order in which the engine would try them.  A `Cursor` is a position in a text:
what lies before it (nearest character first), what lies after it, and the
groups captured so far.  `Regex.run r c` is every cursor at which `r` can end
when it starts at `c`, best first, so

* the engine's match is the head of that list (`matchAt`);
* an alternative is tried before the next one, and a greedy repetition prefers
  one more round (`alt`, `star`);
* a zero-width test looks at one character on either side (`look`), or at all
  that follows (`ahead`, `notAhead`).

`finditer` scans left to right and resumes behind each match, `fullMatch`
demands the whole text, `search` returns the first match.  Nothing here is about
a particular pattern.
-/
import Mathlib.Algebra.Ring.Nat
import Mathlib.Data.List.Basic
import Mathlib.Tactic.Common

namespace AxiomEncode.Theory

set_option autoImplicit false

/-- A position in a text with the groups captured on the way to it. -/
structure Cursor where
  /-- The characters already passed, nearest first. -/
  before : List Char
  after : List Char
  groups : List (Nat × Nat × Nat) := []
  deriving DecidableEq, Repr

namespace Cursor

def start (text : List Char) : Cursor := { before := [], after := text }

/-- The offset of the cursor in its text. -/
def offset (c : Cursor) : Nat := c.before.length

/-- The text the cursor stands in. -/
def text (c : Cursor) : List Char := c.before.reverse ++ c.after

def step (c : Cursor) : Option (Char × Cursor) :=
  match c.after with
  | [] => none
  | x :: rest => some (x, { c with before := x :: c.before, after := rest })

/-- The span last captured by group `n`. -/
def group? (c : Cursor) (n : Nat) : Option (Nat × Nat) := c.groups.lookup n

end Cursor

inductive Regex where
  | eps
  | set (p : Char → Bool)
  | seq (first second : Regex)
  | alt (first second : Regex)
  /-- Greedy repetition, any number of rounds. -/
  | star (r : Regex)
  | group (n : Nat) (r : Regex)
  /-- A zero-width test of the characters on either side. -/
  | look (p : Option Char → Option Char → Bool)
  | ahead (r : Regex)
  | notAhead (r : Regex)

namespace Regex

/-- Greedy rounds of `once`: every round must advance, and one more round is
preferred to stopping. -/
def rounds (once : Cursor → List Cursor) : Nat → Cursor → List Cursor
  | 0, c => [c]
  | fuel + 1, c =>
    ((once c).filter fun d => d.after.length < c.after.length).flatMap (rounds once fuel) ++ [c]

/-- Every cursor at which `r` can end, in the order of the engine. -/
def run : Regex → Cursor → List Cursor
  | .eps, c => [c]
  | .set p, c =>
    match c.step with
    | some (x, d) => if p x then [d] else []
    | none => []
  | .seq r s, c => (run r c).flatMap (run s)
  | .alt r s, c => run r c ++ run s c
  | .star r, c => rounds (run r) c.after.length c
  | .group n r, c =>
    (run r c).map fun d => { d with groups := (n, c.offset, d.offset) :: d.groups }
  | .look p, c => if p c.before.head? c.after.head? then [c] else []
  | .ahead r, c => if (run r c).isEmpty then [] else [c]
  | .notAhead r, c => if (run r c).isEmpty then [c] else []

/-! ## Derived forms -/

def char (x : Char) : Regex := .set (· == x)

def oneOf (xs : List Char) : Regex := .set (xs.contains ·)

def plus (r : Regex) : Regex := .seq r (.star r)

def opt (r : Regex) : Regex := .alt r .eps

/-- Exactly `n` rounds. -/
def times (r : Regex) : Nat → Regex
  | 0 => .eps
  | n + 1 => .seq r (times r n)

/-- At most `n` rounds, greedily. -/
def upTo (r : Regex) : Nat → Regex
  | 0 => .eps
  | n + 1 => .alt (.seq r (upTo r n)) .eps

/-- At least `n` rounds, greedily. -/
def atLeast (r : Regex) (n : Nat) : Regex := .seq (times r n) (.star r)

def between (r : Regex) (low high : Nat) : Regex := .seq (times r low) (upTo r (high - low))

def literal : List Char → Regex
  | [] => .eps
  | x :: rest => .seq (char x) (literal rest)

def anyOf : List Regex → Regex
  | [] => .set fun _ => false
  | [r] => r
  | r :: rest => .alt r (anyOf rest)

def sequence : List Regex → Regex
  | [] => .eps
  | [r] => r
  | r :: rest => .seq r (sequence rest)

def notBehind (p : Char → Bool) : Regex := .look fun b _ => !(b.any p)

def notNext (p : Char → Bool) : Regex := .look fun _ a => !(a.any p)

/-- The boundary between a `word` character and its absence. -/
def boundary (word : Char → Bool) : Regex := .look fun b a => b.any word != a.any word

def atStart : Regex := .look fun b _ => b.isNone

def atEnd : Regex := .look fun _ a => a.isNone

/-- `$`, which also matches before a final line break. -/
def dollar : Regex := .alt .atEnd (.ahead (.seq (.char '\n') .atEnd))

/-- A small letter under `re.IGNORECASE`, with the letters outside ASCII that fold to it. -/
def anyCase (c : Char) : Regex :=
  .set fun d => d = c || d = c.toUpper || (c = 's' && d = 'ſ') || (c = 'k' && d = '\u212A') ||
    (c = 'i' && (d = 'İ' || d = 'ı'))

def ignoringCase (word : String) : Regex := .sequence (word.toList.map anyCase)

/-! ## Matching -/

/-- The engine's match at a cursor. -/
def matchAt (r : Regex) (c : Cursor) : Option Cursor := (r.run { c with groups := [] }).head?

/-- The whole text matches: some way of matching ends at the end. -/
def fullMatch (r : Regex) (text : List Char) : Bool :=
  (r.run (.start text)).any fun c => c.after.isEmpty

/-- One match: where it starts and the cursor at its end. -/
structure Match where
  start : Nat
  stop : Cursor
  deriving DecidableEq, Repr

namespace Match

def finish (m : Match) : Nat := m.stop.offset

/-- The span of a group; group 0 is the whole match. -/
def span (m : Match) (n : Nat) : Option (Nat × Nat) :=
  if n = 0 then some (m.start, m.finish) else m.stop.group? n

end Match

/-- The first match at or after a cursor. -/
def findFrom (r : Regex) : Nat → Cursor → Option Match
  | 0, c => (r.matchAt c).map fun d => ⟨c.offset, d⟩
  | fuel + 1, c =>
    match r.matchAt c with
    | some d => some ⟨c.offset, d⟩
    | none =>
      match c.step with
      | some (_, next) => findFrom r fuel next
      | none => none

def search (r : Regex) (text : List Char) : Option Match :=
  r.findFrom text.length (.start text)

/-- Every match from a cursor on, left to right, each behind the one before; an
empty match is followed by a search one character further. -/
def findAllFrom (r : Regex) : Nat → Cursor → List Match
  | 0, _ => []
  | fuel + 1, c =>
    match r.findFrom c.after.length c with
    | none => []
    | some m =>
      m :: if m.start = m.finish then
        match m.stop.step with
        | some (_, next) => findAllFrom r fuel next
        | none => []
      else findAllFrom r fuel m.stop

def finditer (r : Regex) (text : List Char) : List Match :=
  r.findAllFrom (text.length + 1) (.start text)

/-- `text[a:b]`. -/
def slice (text : List Char) (a b : Nat) : List Char := (text.take b).drop a

/-- Replace every match by `replacement`. -/
def sub (r : Regex) (replacement text : List Char) : List Char :=
  let rec go : Nat → List Match → List Char
    | at_, [] => text.drop at_
    | at_, m :: rest => slice text at_ m.start ++ replacement ++ go m.finish rest
  go 0 (r.finditer text)

end Regex

end AxiomEncode.Theory
