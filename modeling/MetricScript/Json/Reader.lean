import MetricScript.Json.Basic
import MetricScript.Decimal.Read

/-!
Reading JSON text by the strict grammar: no byte order mark, no leading zeros, no bare point, no raw
control character in a string, nothing behind the value but space. How deep values are nested does
not matter here; `Json.nestingLimit` is a matter of those who read the value. Which double a numeral
denotes is a parameter, for which texts have `Numeral.quick`.
-/

namespace MetricScript.Json

/-- The four characters that may stand between tokens. -/
def isSpace (c : Char) : Bool :=
  c = ' ' || c = '\t' || c = '\n' || c = '\r'

/-- Drops the space in front of the next token. -/
def skipSpace (cs : List Char) : List Char :=
  cs.dropWhile isSpace

/-! ### Strings -/

/-- What one step through a string reads: a character, or a code unit given by `\u`. -/
inductive Piece where
  | char (c : Char)
  | unit (n : Nat)
  deriving DecidableEq

def hexDigit? (c : Char) : Option Nat :=
  if '0' ≤ c ∧ c ≤ '9' then some (c.toNat - '0'.toNat)
  else if 'a' ≤ c ∧ c ≤ 'f' then some (c.toNat - 'a'.toNat + 10)
  else if 'A' ≤ c ∧ c ≤ 'F' then some (c.toNat - 'A'.toNat + 10)
  else none

def hexUnit? (a b c d : Char) : Option Nat := do
  let a ← hexDigit? a
  let b ← hexDigit? b
  let c ← hexDigit? c
  let d ← hexDigit? d
  some (4096 * a + 256 * b + 16 * c + d)

/-- The character that a letter after a backslash stands for, `u` apart. -/
def escaped? (c : Char) : Option Char :=
  if c = '\x22' || c = '\\' || c = '/' then some c
  else if c = 'b' then some '\x08'
  else if c = 'f' then some '\x0c'
  else if c = 'n' then some '\n'
  else if c = 'r' then some '\r'
  else if c = 't' then some '\t'
  else none

/-- Reads a string up to and including its closing quote. -/
def pieces? : List Char → Option (List Piece × List Char)
  | [] => none
  | '\x22' :: rest => some ([], rest)
  | '\\' :: 'u' :: a :: b :: c :: d :: rest => do
    let n ← hexUnit? a b c d
    let (pieces, rest) ← pieces? rest
    some (.unit n :: pieces, rest)
  | '\\' :: c :: rest => do
    let c ← escaped? c
    let (pieces, rest) ← pieces? rest
    some (.char c :: pieces, rest)
  | c :: rest =>
    if c.toNat < 0x20 then none
    else do
      let (pieces, rest) ← pieces? rest
      some (.char c :: pieces, rest)

def isHighSurrogate (n : Nat) : Bool := 0xd800 ≤ n && n < 0xdc00

def isLowSurrogate (n : Nat) : Bool := 0xdc00 ≤ n && n < 0xe000

/-- The characters of a string, surrogate pairs joined; none if half a pair stands alone. -/
def joinPieces? : List Piece → Option (List Char)
  | [] => some []
  | .char c :: rest => (joinPieces? rest).map (c :: ·)
  | .unit n :: rest =>
    if isHighSurrogate n then
      match rest with
      | .unit m :: rest =>
        if isLowSurrogate m then
          (joinPieces? rest).map (Char.ofNat (0x10000 + 0x400 * (n - 0xd800) + (m - 0xdc00)) :: ·)
        else none
      | _ => none
    else if isLowSurrogate n then none
    else (joinPieces? rest).map (Char.ofNat n :: ·)

/-- Reads a string after its opening quote; the text is none if half a surrogate pair is in it. -/
def text? (cs : List Char) : Option (Option String × List Char) :=
  (pieces? cs).map fun (pieces, rest) => ((joinPieces? pieces).map String.ofList, rest)

/-! ### Numbers -/

/-- Splits a point and at least one digit off, if there is a point. -/
def fraction? : List Char → Option (Option (List Char) × List Char)
  | '.' :: rest =>
    let (digits, rest) := Decimal.spanDigits rest
    if digits.isEmpty then none else some (some digits, rest)
  | cs => some (none, cs)

/-- Splits off `e`, an optional sign and at least one digit, if there is an `e`. -/
def power? : List Char → Option (Option Int × List Char)
  | [] => some (none, [])
  | c :: rest =>
    if c = 'e' || c = 'E' then
      let (negative, rest) := Decimal.spanSign rest
      let (digits, rest) := Decimal.spanDigits rest
      if digits.isEmpty then none
      else
        let n : Int := Decimal.digitValue digits
        some (some (if negative then -n else n), rest)
    else some (none, c :: rest)

/-- The whole number that a row of digits denotes, if it fits 64 bits. Minus zero does not count as
one. -/
def whole? (negative : Bool) (digits : List Char) : Option Int :=
  let n := Decimal.digitValue digits
  if !negative && n ≤ Decimal.wordMax then some n
  else if negative && n ≠ 0 && n ≤ 0x8000000000000000 then some (-n)
  else none

/-- The double that a numeral denotes, which must be finite to be read. -/
def ofDouble (x : Float) : Json :=
  if x.isFinite then .float x else .unreadable

def number? (double : Numeral → Float) (cs : List Char) : Option (Json × List Char) := do
  let (negative, cs) :=
    match cs with
    | '-' :: rest => (true, rest)
    | _ => (false, cs)
  let (whole, cs) := Decimal.spanDigits cs
  if whole.isEmpty || (whole.head? == some '0' && whole.length != 1) then none
  else
    let (fraction, cs) ← fraction? cs
    let (power, cs) ← power? cs
    let exact := if fraction.isNone && power.isNone then whole? negative whole else none
    match exact with
    | some n => some (.int n, cs)
    | none =>
      some (ofDouble (double ⟨negative, whole, fraction.getD [], power.getD 0⟩), cs)

/-! ### Values -/

/-- An object, unreadable if one of its names is. -/
def ofFields (fields : List (Option String × Json)) : Json :=
  match fields.mapM fun (key, value) => key.map (·, value) with
  | some fields => .object fields
  | none => .unreadable

mutual

/-- Reads one value, in at most `fuel` steps down. -/
def value? (double : Numeral → Float) (fuel : Nat) (cs : List Char) : Option (Json × List Char) :=
  match fuel with
  | 0 => none
  | fuel + 1 =>
    match skipSpace cs with
    | 'n' :: 'u' :: 'l' :: 'l' :: rest => some (.null, rest)
    | 't' :: 'r' :: 'u' :: 'e' :: rest => some (.bool true, rest)
    | 'f' :: 'a' :: 'l' :: 's' :: 'e' :: rest => some (.bool false, rest)
    | '\x22' :: rest =>
      (text? rest).map fun (s, rest) => (s.elim .unreadable .string, rest)
    | '[' :: rest =>
      match skipSpace rest with
      | ']' :: rest => some (.array [], rest)
      | _ => (items? double fuel rest).map fun (items, rest) => (.array items, rest)
    | '\x7b' :: rest =>
      match skipSpace rest with
      | '\x7d' :: rest => some (.object [], rest)
      | _ => (fields? double fuel rest).map fun (fields, rest) => (ofFields fields, rest)
    | rest => number? double rest
termination_by structural fuel

/-- Reads the items of an array and its closing bracket. -/
def items? (double : Numeral → Float) (fuel : Nat) (cs : List Char) : Option (List Json × List Char) :=
  match fuel with
  | 0 => none
  | fuel + 1 => do
    let (item, rest) ← value? double fuel cs
    match skipSpace rest with
    | ',' :: rest =>
      let (items, rest) ← items? double fuel rest
      some (item :: items, rest)
    | ']' :: rest => some ([item], rest)
    | _ => none
termination_by structural fuel

/-- Reads the fields of an object and its closing brace. -/
def fields? (double : Numeral → Float) (fuel : Nat) (cs : List Char) :
    Option (List (Option String × Json) × List Char) :=
  match fuel with
  | 0 => none
  | fuel + 1 =>
    match skipSpace cs with
    | '\x22' :: rest => do
      let (key, rest) ← text? rest
      match skipSpace rest with
      | ':' :: rest =>
        let (value, rest) ← value? double fuel rest
        match skipSpace rest with
        | ',' :: rest =>
          let (fields, rest) ← fields? double fuel rest
          some ((key, value) :: fields, rest)
        | '\x7d' :: rest => some ([(key, value)], rest)
        | _ => none
      | _ => none
    | _ => none
termination_by structural fuel

end

/-- Reads characters that hold one value and nothing else. Every step down takes a character, so
their number is fuel enough. -/
def parseChars? (double : Numeral → Float) (cs : List Char) : Option Json :=
  match value? double (cs.length + 1) cs with
  | some (j, rest) => if (skipSpace rest).isEmpty then some j else none
  | none => none

/-- Reads a text that holds one value and nothing else. Its doubles are read quickly. -/
def parse? (text : String) : Option Json :=
  parseChars? Numeral.quick text.toList

end MetricScript.Json
