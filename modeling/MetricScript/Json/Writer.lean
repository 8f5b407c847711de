import MetricScript.Json.Basic
import MetricScript.Decimal.Plain

/-! Writing JSON values without space between tokens. -/

namespace MetricScript.Json

/-- The digit that denotes a number below sixteen. -/
def hexDigit (n : Nat) : Char :=
  if n < 10 then Char.ofNat ('0'.toNat + n) else Char.ofNat ('a'.toNat + (n - 10))

/-- A character inside quotes: the quote, the backslash and control characters are escaped. -/
def escape (c : Char) : List Char :=
  if c = '\x22' then ['\\', '\x22']
  else if c = '\\' then ['\\', '\\']
  else if c = '\x08' then ['\\', 'b']
  else if c = '\x0c' then ['\\', 'f']
  else if c = '\n' then ['\\', 'n']
  else if c = '\r' then ['\\', 'r']
  else if c = '\t' then ['\\', 't']
  else if c.toNat < 0x20 then
    ['\\', 'u', '0', '0', hexDigit (c.toNat / 16), hexDigit (c.toNat % 16)]
  else [c]

def quote (s : String) : List Char :=
  '\x22' :: s.toList.flatMap escape ++ ['\x22']

def renderInt (n : Int) : List Char :=
  if n < 0 then '-' :: Decimal.digitsOf n.natAbs else Decimal.digitsOf n.natAbs

/-- A finite double in positional digits, with at least one place. -/
def renderFloat (x : Float) : List Char :=
  let text := (Decimal.plain x).toList
  if text.contains '.' then text else text ++ ['.', '0']

mutual

/-- The text of a value. What has no text of its own is written as null. -/
def render : Json → List Char
  | .null => "null".toList
  | .bool true => "true".toList
  | .bool false => "false".toList
  | .int n => renderInt n
  | .float x => if x.isFinite then renderFloat x else "null".toList
  | .string s => quote s
  | .array items => '[' :: renderItems items ++ [']']
  | .object fields => '\x7b' :: renderFields fields ++ ['\x7d']
  | .unreadable => "null".toList
termination_by structural j => j

def renderItems : List Json → List Char
  | [] => []
  | [j] => j.render
  | j :: rest => j.render ++ ',' :: renderItems rest
termination_by structural items => items

def renderFields : List (String × Json) → List Char
  | [] => []
  | [(key, j)] => quote key ++ ':' :: j.render
  | (key, j) :: rest => quote key ++ ':' :: j.render ++ ',' :: renderFields rest
termination_by structural fields => fields

end

def toText (j : Json) : String :=
  String.ofList j.render

end MetricScript.Json
