import MetricScript.Chart.NamedColor
import MetricScript.Text.Blank
import MetricScript.Text.Fold

/-!
Which texts name a color: a hexadecimal triple or quadruple, a color function with three or four
components, or a color name. Components are not looked into beyond the characters they are made of.
-/

namespace MetricScript.Color

/-! ### Hexadecimal -/

/-- A hexadecimal digit in either case. -/
def isHexDigit (c : Char) : Bool :=
  c.isDigit || ('a' ≤ c && c ≤ 'f') || ('A' ≤ c && c ≤ 'F')

/-- A number sign with one or two digits for each of three or four channels. -/
def isHex : List Char → Bool
  | '#' :: digits => digits.all isHexDigit && [3, 4, 6, 8].contains digits.length
  | _ => false

/-! ### Color functions -/

def functionNames : List String :=
  ["rgb", "rgba", "hsl", "hsla", "hwb", "lab", "lch", "oklab", "oklch"]

/-- The characters of a component: digits, letters, signs, the point and the percent sign. -/
def isComponentChar (c : Char) : Bool :=
  let folded := Text.foldLetter c
  folded.isDigit || ('a' ≤ folded && folded ≤ 'z') || ['-', '+', '.', '%'].contains c

/-- What may stand between two components: white space around one comma or slash, or white space
alone if there is an ordinary space in it. -/
def isGap (cs : List Char) : Bool :=
  match cs.filter fun c => !Text.isBlank c with
  | [] => cs.contains ' '
  | [c] => c = ',' || c = '/'
  | _ => false

/-- Cuts a text into the longest stretches inside and outside of components. -/
def stretches (cs : List Char) : List (List Char) :=
  cs.splitBy fun a b => isComponentChar a == isComponentChar b

/-- Three or four components with gaps between them. The stretches of a text alternate, so it
is enough that the first one is a component. -/
def isComponents (cs : List Char) : Bool :=
  match stretches cs with
  | [a, g, _, h, _] => a.all isComponentChar && isGap g && isGap h
  | [a, g, _, h, _, i, _] => a.all isComponentChar && isGap g && isGap h && isGap i
  | _ => false

/-- A color function: its name in any case, and components in brackets. The name and the bracket
touch, and nothing follows the closing bracket. -/
def isFunctional (cs : List Char) : Bool :=
  match cs.dropWhile (· != '(') with
  | [] => false
  | _ :: rest =>
    let name := String.ofList ((cs.takeWhile (· != '(')).map Text.foldLetter)
    functionNames.contains name && rest.getLast? == some ')'
      && isComponents (Text.trim rest.dropLast)

/-! ### Colors -/

/-- A color name in any case of `A` to `Z`. -/
def isNamed (cs : List Char) : Bool :=
  names.contains (Text.lowerAscii (String.ofList cs))

/-- Whether a text names a color. White space around it does not matter. -/
def isValid (text : String) : Bool :=
  let cs := Text.trim text.toList
  isHex cs || isFunctional cs || isNamed cs

end MetricScript.Color
