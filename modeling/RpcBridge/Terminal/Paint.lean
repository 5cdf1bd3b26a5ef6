/-!
# Terminal/Paint — colours on a terminal

A painted text stands between an escape sequence that selects a rendition and one that resets it.
-/

namespace RpcBridge.Terminal

/-- A way to show a text. -/
inductive Rendition where
  | green
  | red
  | yellow
  | cyan
  | bold
  | gray
  | boldGreen

/-- The parameters that select a rendition. -/
def Rendition.code : Rendition → String
  | .green => "32"
  | .red => "31"
  | .yellow => "33"
  | .cyan => "36"
  | .bold => "1"
  | .gray => "90"
  | .boldGreen => "1;32"

/-- A text in a rendition. -/
def paint (r : Rendition) (s : String) : String := s!"\x1b[{r.code}m{s}\x1b[0m"

/-- A text with spaces before it up to a number of characters. -/
def alignRight (width : Nat) (s : String) : String :=
  String.ofList (List.replicate (width - s.length) ' ') ++ s

/-- The label of a step: right-aligned to twelve characters, bold and green. -/
def label (s : String) : String := paint .boldGreen (alignRight 12 s)

end RpcBridge.Terminal
