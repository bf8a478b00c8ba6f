import Kvpack.Base.Bytes

/-!
# Canonical JSON

The compact rendering of a JSON value after the keys of every object in it have been sorted, so that the bytes do not
depend on the order in which fields were written.
-/

namespace Base

inductive Json where
  | null
  | bool (b : Bool)
  | number (n : Nat)
  | string (s : String)
  | array (items : List Json)
  | object (fields : List (String × Json))

namespace Json

mutual

def sorted : Json → Json
  | .null => .null
  | .bool b => .bool b
  | .number n => .number n
  | .string s => .string s
  | .array items => .array (sortedItems items)
  | .object fields => .object ((sortedFields fields).insertionSort fun a b => a.1 ≤ b.1)

def sortedItems : List Json → List Json
  | [] => []
  | item :: items => item.sorted :: sortedItems items

def sortedFields : List (String × Json) → List (String × Json)
  | [] => []
  | (key, value) :: fields => (key, value.sorted) :: sortedFields fields

end

def lowerHexDigit (n : Nat) : Char := Char.ofNat (if n < 10 then 48 + n else 87 + n)

/-- Quotes, backslashes and control characters are escaped. -/
def escapeChar (c : Char) : List Char :=
  if c = '"' then ['\\', '"']
  else if c = '\\' then ['\\', '\\']
  else if c = '\n' then ['\\', 'n']
  else if c = '\r' then ['\\', 'r']
  else if c = '\t' then ['\\', 't']
  else if c.toNat = 8 then ['\\', 'b']
  else if c.toNat = 12 then ['\\', 'f']
  else if c.toNat < 32 then ['\\', 'u', '0', '0', lowerHexDigit (c.toNat / 16), lowerHexDigit (c.toNat % 16)]
  else [c]

def renderString (s : String) : Bytes :=
  utf8 (String.ofList (['"'] ++ s.toList.flatMap escapeChar ++ ['"']))

mutual

def render : Json → Bytes
  | .null => utf8 "null"
  | .bool true => utf8 "true"
  | .bool false => utf8 "false"
  | .number n => utf8 (toString n)
  | .string s => renderString s
  | .array items => utf8 "[" ++ renderItems items ++ utf8 "]"
  | .object fields => utf8 "\x7b" ++ renderFields fields ++ utf8 "\x7d"

def renderItems : List Json → Bytes
  | [] => []
  | [item] => item.render
  | item :: items => item.render ++ utf8 "," ++ renderItems items

def renderFields : List (String × Json) → Bytes
  | [] => []
  | [(key, value)] => renderString key ++ utf8 ":" ++ value.render
  | (key, value) :: fields => renderString key ++ utf8 ":" ++ value.render ++ utf8 "," ++ renderFields fields

end

def canonical (value : Json) : Bytes := value.sorted.render

example : canonical (.object [("b", .number 1), ("a", .object [("d", .null), ("c", .array [.bool true])])]) =
    utf8 "\x7b\"a\":\x7b\"c\":[true],\"d\":null\x7d,\"b\":1\x7d" := by decide

end Json

end Base
