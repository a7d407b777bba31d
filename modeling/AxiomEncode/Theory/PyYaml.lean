/-
# Theory.PyYaml -- decoded YAML as Python sees it

What `yaml.safe_load` returns, with the reading of a mapping by a text key, truthiness
and `str`.  Of a float, a date, a time or bytes only these two are kept.
-/
import AxiomEncode.Theory.PyText

namespace AxiomEncode.Theory

set_option autoImplicit false

inductive Yaml where
  | null
  | bool (value : Bool)
  | int (value : Int)
  | text (chars : List Char)
  /-- Any other scalar: `str` of it, and whether it is truthy. -/
  | scalar (shown : List Char) (truthy : Bool)
  | seq (items : List Yaml)
  | map (members : List (Yaml × Yaml))

namespace Yaml

/-- The members of a mapping. -/
abbrev Mapping := List (Yaml × Yaml)

/-- `isinstance(value, str) and value == text` -/
def isText (text : String) : Yaml → Bool
  | .text chars => chars == text.toList
  | _ => false

/-- `mapping[key]`, nothing where it raises `KeyError`. -/
def get? (mapping : Mapping) (key : String) : Option Yaml :=
  (mapping.find? fun member => isText key member.1).map Prod.snd

/-- `mapping.get(key)` -/
def value (mapping : Mapping) (key : String) : Yaml := (get? mapping key).getD .null

def isTruthy : Yaml → Bool
  | .null => false
  | .bool value => value
  | .int value => value ≠ 0
  | .text chars => !chars.isEmpty
  | .scalar _ truthy => truthy
  | .seq items => !items.isEmpty
  | .map members => !members.isEmpty

/-- `str(value)`, with `repr` for a list or a mapping. -/
def str (repr : Yaml → List Char) : Yaml → List Char
  | .null => "None".toList
  | .bool true => "True".toList
  | .bool false => "False".toList
  | .int value => (toString value).toList
  | .text chars => chars
  | .scalar shown _ => shown
  | value => repr value

/-- `str(value or "").strip()` -/
def stripped (repr : Yaml → List Char) (value : Yaml) : List Char :=
  if value.isTruthy then strip (value.str repr) else []

end Yaml

end AxiomEncode.Theory
