/-
# Migration.References -- the durable references that a plan rewrites

Each move gives a rule for its path, one for its module identity and one for its companion
test, if there is one.  A file's text is rewritten by one pass a rule, longest token first.
-/
import AxiomEncode.Migration.PathPlan
import AxiomEncode.Theory.TokenRewrite

namespace AxiomEncode.Migration

open Theory

set_option autoImplicit false

/-- `_DURABLE_REFERENCE_CHARACTER`: ASCII letters and digits, `.`, `_`, `:`, `/` and `-`. -/
def isReferenceChar (c : Char) : Bool :=
  isLowerAlnum c || ('A' ≤ c && c ≤ 'Z') || c == '.' || c == '_' || c == ':' || c == '/' || c == '-'

/-- `path.with_name(name)` -/
def withName (path : Path) (name : Text) : Path := path.dropLast ++ [name]

/-- `companion_path` -/
def companionPath (primary : Path) : Path :=
  withName primary ((stemAndSuffix (nameOf primary)).1 ++ dotTestYaml)

/-- `path.with_suffix("")` -/
def withoutSuffix (path : Path) : Path := withName path (stemAndSuffix (nameOf path)).1

/-- `rulespec_identity` -/
def rulespecIdentity (path : Path) : Except PlanError Text := do
  validatePrimaryPath path "path"
  match withoutSuffix path with
  | jurisdiction :: contentRoot :: remainder =>
    pure (jurisdiction ++ ':' :: contentRoot ++ '/' :: ['/'].intercalate remainder)
  | _ => refuseWith "path must be jurisdiction-prefixed and under a content root"

/-- `add` -/
def addReplacement (replacements : List TokenRule) (old new : Text) :
    Except PlanError (List TokenRule) :=
  match replacements.find? fun rule => rule.old = old with
  | none => .ok (replacements ++ [⟨old, new⟩])
  | some prior => if prior.new = new then .ok replacements else .error (.conflict old)

/-- The rules of one move. -/
def addMove (existingCompanions : List Path) (replacements : List TokenRule) (move : PlannedMove) :
    Except PlanError (List TokenRule) := do
  let replacements ← addReplacement replacements (asPosix move.source) (asPosix move.destination)
  let oldIdentity ← rulespecIdentity move.source
  let newIdentity ← rulespecIdentity move.destination
  let replacements ← addReplacement replacements oldIdentity newIdentity
  if existingCompanions.contains (companionPath move.source) then
    addReplacement replacements (asPosix (companionPath move.source))
      (asPosix (companionPath move.destination))
  else pure replacements

/-- `exact_reference_replacements` -/
def exactReferenceReplacements (moves : List PlannedMove) (existingCompanions : List Path) :
    Except PlanError (List TokenRule) :=
  moves.foldlM (addMove existingCompanions) []

/-- `key=lambda item: (-len(item), item)` -/
def comesFirst (rule other : TokenRule) : Bool :=
  other.old.length < rule.old.length
    || (rule.old.length = other.old.length && decide (rule.old ≤ other.old))

/-- `sorted(replacements, key=lambda item: (-len(item), item))` -/
def turns (replacements : List TokenRule) : List TokenRule := replacements.mergeSort comesFirst

/-- The matches of `pattern.findall(text)` and what stands between them. -/
def passOf (rule : TokenRule) (text : Text) : List (TextPiece Char) :=
  scan id (chooseOne isReferenceChar rule) 0 none text

/-- `{"from": old, "to": new, "count": count}` -/
structure RewriteCount where
  rule : TokenRule
  count : Nat

/-- The loop over the sorted tokens: `pattern.findall` and `pattern.sub`. -/
def rewriteText (text : Text) (counts : List RewriteCount) :
    List TokenRule → Text × List RewriteCount
  | [] => (text, counts)
  | rule :: rules =>
    let pieces := passOf rule text
    let count := pieces.countP TextPiece.isSwap
    if count = 0 then rewriteText text counts rules
    else rewriteText (outputs id pieces) (counts ++ [⟨rule, count⟩]) rules

/-- `rewrite_exact_references` -/
def rewriteExactReferences (raw : List UInt8) (replacements : List TokenRule) :
    Except PlanError (List UInt8 × List RewriteCount) :=
  match decodeUtf8 raw with
  | none =>
    if replacements.any fun rule => raw.tails.any fun tail => (utf8 rule.old).isPrefixOf tail then
      refuseWith "a durable reference occurs in a non-UTF-8 tracked file"
    else .ok (raw, [])
  | some text =>
    let rewritten := rewriteText text [] (turns replacements)
    .ok (utf8 rewritten.1, rewritten.2)

end AxiomEncode.Migration
