/-!
# Lines of a text

A line feed ends a line, together with one carriage return directly before it. What follows the
last line feed is a line too, unless it is empty; a carriage return at its end belongs to it.
-/
namespace Uninit.Text

def dropReturn : List Char → List Char
  | [] => []
  | ['\r'] => []
  | c :: rest => c :: dropReturn rest

/-- Cut a text at its line feeds. There is always one piece more than there are line feeds. -/
def splitFeeds : List Char → List (List Char)
  | [] => [[]]
  | c :: rest =>
    if c = '\n' then [] :: splitFeeds rest
    else match splitFeeds rest with
      | [] => [[c]]
      | line :: more => (c :: line) :: more

/-- The lines given by the pieces between line feeds. -/
def linesOfPieces : List (List Char) → List (List Char)
  | [] => []
  | [last] => if last.isEmpty then [] else [last]
  | piece :: rest => dropReturn piece :: linesOfPieces rest

/-- The lines of a text, without their line ends. -/
def lines (text : List Char) : List (List Char) :=
  linesOfPieces (splitFeeds text)

/-- Write lines one after the other, each ended by a line feed. -/
def unlines : List (List Char) → List Char
  | [] => []
  | line :: rest => line ++ '\n' :: unlines rest

end Uninit.Text
