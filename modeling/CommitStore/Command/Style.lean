/-!
# Styled text

Text on a terminal is styled by an escape sequence in front of it and a reset behind it.  A reset
that stands inside the text is followed by the style again, so that the whole text has it.
-/

namespace CommitStore

/-- How a text is shown. -/
inductive Style
  | bold
  | dimmed
  | green
  | yellow
  | cyan
  deriving DecidableEq

namespace Style

/-- The number that selects a style. -/
def code : Style → List Char
  | .bold => ['1']
  | .dimmed => ['2']
  | .green => ['3', '2']
  | .yellow => ['3', '3']
  | .cyan => ['3', '6']

/-- The escape sequence that begins a style. -/
def start (style : Style) : List Char := '\x1b' :: '[' :: style.code ++ ['m']

/-- The escape sequence that ends all styles. -/
def reset : List Char := ['\x1b', '[', '0', 'm']

/-- The text with the style begun anew behind each reset in it. -/
def resume (style : Style) : List Char → List Char
  | '\x1b' :: '[' :: '0' :: 'm' :: rest => reset ++ style.start ++ style.resume rest
  | c :: rest => c :: style.resume rest
  | [] => []

/-- A text in a style, or as it is if there is no colour. -/
def paint (style : Style) (color : Bool) (text : List Char) : List Char :=
  if color then style.start ++ style.resume text ++ reset else text

end Style

end CommitStore
