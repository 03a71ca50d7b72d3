/-!
Blanks between the parts of a text.
-/
namespace PointStyle

namespace Text

/-- Space, tab, line feed and carriage return. -/
def isBlank (c : Char) : Bool :=
  c = ' ' || c = '\t' || c = '\n' || c = '\r'

def dropBlanks (text : List Char) : List Char :=
  text.dropWhile isBlank

end Text

end PointStyle
