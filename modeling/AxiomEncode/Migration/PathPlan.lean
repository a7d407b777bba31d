/-
# Migration.PathPlan -- the plan of a path migration

`load_plan_bytes` reads a plan and admits its moves one by one.  A path is the list of its
components; a source may hold any characters, its destination is the one canonical
normalization of it.

What Python's Unicode database says is a parameter (`Unicode`), with the facts that hold of
every version of it.
-/
import AxiomEncode.Theory.Checks
import AxiomEncode.Theory.JsonText

namespace AxiomEncode.Migration

open Theory

set_option autoImplicit false

abbrev Text := List Char

/-- A relative path, by its components. -/
abbrev Path := List Text

def isAscii (c : Char) : Bool := c.toNat < 128

/-- `_NON_ASCII_DASHES` -/
def nonAsciiDashes : List Char :=
  ['\u2010', '\u2011', '\u2012', '\u2013', '\u2014', '\u2015', '\ufe58', '\ufe63', '\uff0d']

/-- U+212A, the one character outside ASCII that `str.lower` maps into it. -/
def kelvinSign : Char := '\u212a'

/-- `unicodedata.normalize("NFKC", text)` and `str.lower`.  A normalized text that holds
nothing outside ASCII but dashes and spaces is composed nowhere, so it is the text with
each character expanded. -/
structure Unicode where
  nfkc : Text → Text
  lower : Text → Text
  /-- The compatibility decomposition of a character. -/
  expansion : Char → Text
  expansion_ne_nil : ∀ c, expansion c ≠ []
  expansion_ascii : ∀ c, isAscii c = true → expansion c = [c]
  nfkc_ascii : ∀ text, (∀ c ∈ text, isAscii c = true) → nfkc text = text
  nfkc_expands : ∀ text,
    (∀ c ∈ nfkc text, isAscii c = true ∨ c ∈ nonAsciiDashes ∨ isSpace c = true) →
      nfkc text = text.flatMap expansion
  nfkc_noKelvin : ∀ text, kelvinSign ∉ nfkc text
  lower_ascii : ∀ text, (∀ c ∈ text, isAscii c = true) → lower text = text.map Char.toLower
  lower_onlyAscii : ∀ text, kelvinSign ∉ text → (∀ c ∈ lower text, isAscii c = true) →
    ∀ c ∈ text, isAscii c = true

/-- `PathMigrationPlanError` -/
inductive PlanError where
  | plan (message : String)
  /-- "path component {component!r} cannot be normalized safely" -/
  | component (component : Text)
  /-- "conflicting replacement for {old!r}" -/
  | conflict (old : Text)
  deriving DecidableEq

/-- `if not condition: raise PathMigrationPlanError(message)` -/
def check (condition : Bool) (message : String) : Except PlanError Unit :=
  require condition (.plan message)

@[simp] theorem check_eq_ok_iff {condition : Bool} {message : String} {u : Unit} :
    check condition message = .ok u ↔ condition = true :=
  require_eq_ok_iff

def refuseWith {α : Type} (message : String) : Except PlanError α := .error (.plan message)

/-! ## Paths -/

/-- `path.as_posix()` -/
def asPosix (path : Path) : Text := if path = [] then ['.'] else ['/'].intercalate path

/-- `Path(raw)` for a relative path. -/
def pathOf (raw : Text) : Path := (raw.splitOn '/').filter fun part => part ≠ [] && part ≠ ['.']

/-- `_safe_repo_path` -/
def safeRepoPath (raw : Option Json) (field : String) : Except PlanError Path :=
  match raw.bind Json.text? with
  | none => refuseWith (field ++ " must be a non-empty string")
  | some text => do
    check (!text.isEmpty) (field ++ " must be a non-empty string")
    check (text.head? ≠ some '/' && asPosix (pathOf text) == text
        && !(pathOf text).contains ['.', '.'])
      (field ++ " is not a canonical repository path")
    pure (pathOf text)

def isLowerLetter (c : Char) : Bool := 'a' ≤ c && c ≤ 'z'

/-- `[a-z0-9]` -/
def isLowerAlnum (c : Char) : Bool := isLowerLetter c || c.isDigit

/-- `_SAFE_COMPONENT`: `[a-z0-9](?:[a-z0-9._-]*[a-z0-9])?` -/
def isSafeComponent (piece : Text) : Bool :=
  piece.head?.any isLowerAlnum && piece.getLast?.any isLowerAlnum
    && piece.all fun c => isLowerAlnum c || c == '.' || c == '_' || c == '-'

/-- `_JURISDICTION`: `[a-z]{2}(?:-[a-z0-9_]+)*` -/
def isJurisdiction (text : Text) : Bool :=
  match text.splitOn '-' with
  | [] => false
  | country :: parts =>
    country.length = 2 && country.all isLowerLetter
      && parts.all fun part => !part.isEmpty && part.all fun c => isLowerAlnum c || c == '_'

/-- `text.translate(_NON_ASCII_DASHES)` -/
def translateDashes (text : Text) : Text :=
  text.map fun c => if nonAsciiDashes.contains c then '-' else c

/-- `re.sub(r"\s+", "-", text)`; `within` says that the character before is a space. -/
def dashSpaces (within : Bool) : Text → Text
  | [] => []
  | c :: rest =>
    if isSpace c then
      if within then dashSpaces true rest else '-' :: dashSpaces true rest
    else c :: dashSpaces false rest

namespace Unicode

variable (unicode : Unicode)

/-- The text that `_normalize_component` splits into pieces. -/
def normalizedText (component : Text) : Text :=
  unicode.lower (dashSpaces false
    ((translateDashes (unicode.nfkc component)).map fun c => if c = ':' then '/' else c))

/-- `_normalize_component` -/
def normalizeComponent (component : Text) : Except PlanError (List Text) :=
  let pieces := ((unicode.normalizedText component).splitOn '/').filter fun piece => !piece.isEmpty
  if pieces.isEmpty || !pieces.all isSafeComponent then
    .error (.component component)
  else .ok pieces

/-- `canonical_destination` -/
def canonicalDestination (source : Path) : Except PlanError Path := do
  let parts ← source.mapM unicode.normalizeComponent
  pure parts.flatten

end Unicode

def dotYaml : Text := ".yaml".toList

def dotTestYaml : Text := ".test.yaml".toList

/-- `path.name` -/
def nameOf (path : Path) : Text := path.getLastD []

/-- `path.stem` and `path.suffix`: a dot that ends the name, or begins it, begins no suffix. -/
def stemAndSuffix (name : Text) : Text × Text :=
  let suffix := name.reverse.takeWhile (· ≠ '.') |>.reverse
  let stem := name.take (name.length - suffix.length - 1)
  if name.contains '.' && !stem.isEmpty && !suffix.isEmpty then (stem, '.' :: suffix)
  else (name, [])

/-- `_validate_primary_path` -/
def validatePrimaryPath (path : Path) (field : String) : Except PlanError Unit := do
  check (3 ≤ path.length) (field ++ " must be jurisdiction-prefixed and under a content root")
  check (path.head?.any isJurisdiction) (field ++ " has an invalid jurisdiction root")
  check (["forms", "policies", "regulations", "statutes"].any fun root =>
      path[1]? = some root.toList) (field ++ " is outside a protected RuleSpec root")
  check ((stemAndSuffix (nameOf path)).2 == dotYaml && !dotTestYaml.isSuffixOf (nameOf path))
    (field ++ " must name a primary .yaml RuleSpec")

/-! ## The plan -/

structure PlannedMove where
  source : Path
  destination : Path
  deriving DecidableEq

/-- `PathMigrationPlan`, without the serialization of its payload. -/
structure PathMigrationPlan where
  baseCommit : Text
  moves : List PlannedMove
  deriving DecidableEq

/-- The members of `json.loads`: the last one of a key counts. -/
def member (members : List (Text × Json)) (key : String) : Option Json :=
  members.reverse.lookup key.toList

/-- `set(mapping) == keys` -/
def hasKeys (members : List (Text × Json)) (keys : List String) : Bool :=
  (members.all fun entry => keys.any fun key => entry.1 = key.toList)
    && keys.all fun key => (member members key).isSome

/-- `[0-9a-f]{40}` -/
def isCommit (text : Text) : Bool :=
  text.length = 40 && text.all fun c => c.isDigit || ('a' ≤ c && c ≤ 'f')

namespace Unicode

variable (unicode : Unicode)

/-- The checks on one move of the list, before those on duplicates. -/
def admitMove (item : Json) (field : String) : Except PlanError PlannedMove :=
  match item with
  | .obj members => do
    check (hasKeys members ["from", "to"]) (field ++ " must contain exactly from and to")
    let source ← safeRepoPath (member members "from") (field ++ ".from")
    let destination ← safeRepoPath (member members "to") (field ++ ".to")
    validatePrimaryPath source (field ++ ".from")
    validatePrimaryPath destination (field ++ ".to")
    let canonical ← unicode.canonicalDestination source
    check (destination == canonical)
      (field ++ ".to is not the unique canonical normalization of "
        ++ String.ofList (asPosix source))
    check (source ≠ destination) (field ++ " is a no-op")
    pure ⟨source, destination⟩
  | _ => refuseWith (field ++ " must contain exactly from and to")

/-- The loop over the moves. -/
def admitMoves (moves : List PlannedMove) (index : Nat) :
    List Json → Except PlanError (List PlannedMove)
  | [] => .ok moves
  | item :: rest => do
    let field := "moves[" ++ toString index ++ "]"
    let move ← unicode.admitMove item field
    check (!(moves.any fun earlier => asPosix earlier.source == asPosix move.source))
      (field ++ ".from is duplicated")
    check (!(moves.any fun earlier => asPosix earlier.destination == asPosix move.destination))
      (field ++ ".to collides with another move")
    admitMoves (moves ++ [move]) (index + 1) rest

/-- `load_plan_bytes` -/
def loadPlanBytes (raw : List UInt8) : Except PlanError PathMigrationPlan := do
  check (raw.length ≤ 1024 * 1024) "migration plan exceeds 1 MiB"
  match (decodeUtf8 raw).bind Json.loads with
  | none => refuseWith "migration plan is not valid UTF-8 JSON"
  | some (.obj payload) => do
    check (hasKeys payload ["schema_version", "base_commit", "moves"])
      "migration plan must contain exactly schema_version, base_commit, moves"
    check ((member payload "schema_version").bind Json.text?
        == some "axiom-encode/rulespec-path-migration-plan/v1".toList)
      "migration plan schema_version is unsupported"
    match (member payload "base_commit").bind Json.text?, member payload "moves" with
    | some baseCommit, some (.arr rawMoves) => do
      check (isCommit baseCommit) "migration plan base_commit must be one full Git object ID"
      check (!rawMoves.isEmpty) "migration plan moves must be a non-empty list"
      check (rawMoves.length ≤ 256) "migration plan contains too many moves"
      let moves ← unicode.admitMoves [] 0 rawMoves
      check (!(moves.any fun move => moves.any fun other =>
          asPosix move.source == asPosix other.destination))
        "migration plan cannot chain or swap paths in one transaction"
      pure ⟨baseCommit, moves⟩
    | some baseCommit, _ =>
      if isCommit baseCommit then refuseWith "migration plan moves must be a non-empty list"
      else refuseWith "migration plan base_commit must be one full Git object ID"
    | none, _ => refuseWith "migration plan base_commit must be one full Git object ID"
  | some _ => refuseWith "migration plan must be a JSON object"

end Unicode

end AxiomEncode.Migration
