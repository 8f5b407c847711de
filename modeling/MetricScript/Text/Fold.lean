/-! Comparing texts without regard to case. -/

namespace MetricScript.Text

/-- A text with the letters `A` to `Z` in lower case; no other letter changes. -/
def lowerAscii (s : String) : String :=
  s.map Char.toLower

/-- A text with the letters `a` to `z` in upper case; no other letter changes. -/
def upperAscii (s : String) : String :=
  s.map Char.toUpper

/-- Equality of texts up to the case of `A` to `Z`. -/
def equalsFolded (s t : String) : Bool :=
  lowerAscii s == lowerAscii t

/-- Simple case folding restricted to what folds into `a` to `z`: besides the capitals these are
the Kelvin sign and the long s. -/
def foldLetter (c : Char) : Char :=
  if c = '\u212a' then 'k' else if c = '\u017f' then 's' else c.toLower

end MetricScript.Text
