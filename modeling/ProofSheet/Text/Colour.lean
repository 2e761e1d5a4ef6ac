import ProofSheet.Text.Splice

/-!
Colours on a terminal.  A coloured text stands between the sequence that switches its colour on
and the reset sequence; where the text holds a reset of its own the colour is switched on again
behind it.
-/

namespace ProofSheet.Text

/-- The colours that the program writes in. -/
inductive Colour
  | red
  | green
  | blue
  | cyan
deriving DecidableEq

namespace Colour

/-- The sequence that switches a colour on. -/
def switch : Colour → String
  | red => "\x1b[31m"
  | green => "\x1b[32m"
  | blue => "\x1b[34m"
  | cyan => "\x1b[36m"

/-- The sequence that switches every colour off. -/
def reset : String := "\x1b[0m"

/-- The text in a colour. -/
def paint (colour : Colour) (text : String) : String :=
  colour.switch ++ replaceAll text reset (reset ++ colour.switch) ++ reset

/-- The text in a colour if colours are wanted, else the text itself. -/
def paintIf (wanted : Bool) (colour : Colour) (text : String) : String :=
  if wanted then colour.paint text else text

end Colour

end ProofSheet.Text
