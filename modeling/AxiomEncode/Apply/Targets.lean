/-
# Apply.Targets -- the files that a transaction may touch

A target is a RuleSpec module or its manifest under an atomic root of a
canonical jurisdiction, a receipt, or one of a few metadata files
(`isCanonicalApplyTransactionTarget`).  Whether a jurisdiction is canonical is
read off the tree, and off the answers of the git probes, which no step of a
transaction changes.
-/
import AxiomEncode.Apply.Checkout
import AxiomEncode.Theory.PyText

namespace AxiomEncode.Apply

open Theory

set_option autoImplicit false

/-- What the code is given by its surroundings. -/
structure Host where
  /-- The absolute path of the resolved checkout root. -/
  root : Path
  /-- `hashlib.sha256(raw).hexdigest()` -/
  sha256 : Bytes → Text
  /-- The git probes find no boundary, or the checkout itself under its own name. -/
  gitAdmits : Bool

/-! ## Paths -/

/-- `path.as_posix()` of a relative path. -/
def posix (path : Path) : Text := ['/'].intercalate path

/-- `Path(text).parts` of a relative path. -/
def pathParts (text : Text) : Path :=
  (text.splitOn '/').filter fun part => !part.isEmpty && part != ['.']

/-- `path.name` -/
def fileName (path : Path) : Text := path.getLast?.getD []

/-- The name before its last dot, and the dot with what follows it: `stem` and
`suffix`.  A dot at either end of the name starts no suffix. -/
def splitSuffix (name : Text) : Text × Text :=
  let suffix := (name.reverse.takeWhile fun c => c != '.').reverse
  let stem := name.take (name.length - suffix.length - 1)
  if stem.isEmpty || suffix.isEmpty then (name, []) else (stem, '.' :: suffix)

def fileSuffix (path : Path) : Text := (splitSuffix (fileName path)).2

def fileStem (path : Path) : Text := (splitSuffix (fileName path)).1

/-! ## Canonical jurisdictions -/

def atomicModuleRoots : List Text :=
  ["legislation".toList, "policies".toList, "regulations".toList, "statutes".toList]

def compositionSpecRoot : Text := "programs".toList

/-- `[a-z]{2}(?:-[...]+)*` -/
def isJurisdictionName (inner : Char → Bool) (text : Text) : Bool :=
  match text.splitOn '-' with
  | [] => false
  | country :: rest =>
    country.length == 2 && country.all Corpus.isAsciiLower &&
      rest.all fun part => !part.isEmpty && part.all inner

def jurisdictionCountry (jurisdiction : Text) : Text := jurisdiction.takeWhile fun c => c != '-'

def monorepoCheckoutName (jurisdiction : Text) : Text :=
  "rulespec-".toList ++ jurisdictionCountry jurisdiction

section

variable (host : Host) (checkout : Checkout)

def checkoutName : Text := fileName host.root

/-- `_canonical_country_checkout_name(checkout, allow_composition_specs=True)` -/
def canonicalCountryCheckoutName : Option Text :=
  let name := checkoutName host
  let country := name.drop "rulespec-".length
  if !("rulespec-".toList.isPrefixOf name) then none
  else if !(country.length == 2 && country.all Corpus.isAsciiLower) then none
  else if (checkout.node [compositionSpecRoot]).any fun node => !node.isDirectory then none
  else if atomicModuleRoots.any fun root => (checkout.node [root]).isSome then none
  else if !host.gitAdmits then none
  else some name

/-- Whether `canonical_rulespec_root_identity(checkout_root / jurisdiction)` names
an identity. -/
def isCanonicalRulespecRoot (jurisdiction : Text) : Bool :=
  checkout.isDirectory [jurisdiction] &&
    checkoutName host == monorepoCheckoutName jurisdiction &&
    canonicalCountryCheckoutName host checkout == some (monorepoCheckoutName jurisdiction) &&
    isJurisdictionName (fun c => Corpus.isAsciiLower c || Corpus.isAsciiDigit c) jurisdiction

/-- `canonical_tail` -/
def canonicalTail (path : Path) (suffix : Text) : Bool :=
  match path with
  | jurisdiction :: root :: _ :: _ =>
    fileSuffix path == suffix &&
      isJurisdictionName
        (fun c => Corpus.isAsciiLower c || Corpus.isAsciiDigit c || c == '_') jurisdiction &&
      atomicModuleRoots.contains root &&
      monorepoCheckoutName jurisdiction == checkoutName host &&
      isCanonicalRulespecRoot host checkout jurisdiction
  | _ => false

end

def axiomDirectory : Path := [".axiom".toList]

def metadataRewritePaths : List Path :=
  [[".axiom".toList, "index".toList, "provisions_to_rules.json".toList],
    [".axiom".toList, "pending-validation-fingerprints.json".toList],
    [".axiom".toList, "retired-schema-freeze.json".toList],
    [".axiom".toList, "toolchain.toml".toList],
    ["known-validation-gaps.yaml".toList],
    ["oracle-coverage-pending.yaml".toList],
    ["tests".toList, "test_encoding_manifests.py".toList],
    ["tests".toList, "test_legacy_rulespec_freeze.py".toList]]

def receiptDirectories : List Path :=
  [[".axiom".toList, "path-migrations".toList], [".axiom".toList, "legacy-replacements".toList]]

def manifestDirectory : Path := [".axiom".toList, "encoding-manifests".toList]

/-- `[0-9a-f]{64}` -/
def isSha256Hex (text : Text) : Bool :=
  text.length == 64 && text.all fun c => Corpus.isAsciiDigit c || ('a' ≤ c && c ≤ 'f')

/-- A receipt, `<sha256>.json`. -/
def isReceiptTail (tail : Path) : Bool :=
  match tail with
  | [name] => fileSuffix [name] == ".json".toList && isSha256Hex (fileStem [name])
  | _ => false

/-- Whether a path is one sanctioned live mutation target. -/
def isCanonicalApplyTransactionTarget (host : Host) (checkout : Checkout) (relative : Path) : Bool :=
  if canonicalTail host checkout relative ".yaml".toList then true
  else if metadataRewritePaths.contains relative then true
  else
    match receiptDirectories.find? fun directory => directory.isPrefixOf relative with
    | some directory => isReceiptTail (relative.drop directory.length)
    | none =>
      if !manifestDirectory.isPrefixOf relative then false
      else
        let tail := relative.drop manifestDirectory.length
        canonicalTail host checkout tail ".json".toList &&
          !(".test.json".toList.isSuffixOf (fileName tail))

end AxiomEncode.Apply
