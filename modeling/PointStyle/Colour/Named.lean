import PointStyle.Colour.Basic

/-!
The colours that have a name.
-/
namespace PointStyle

namespace Colour

/-- The named colours. Every name is in lower case. -/
def named : List (String × Colour) :=
  [("transparent", ⟨0, 0, 0, 0⟩),
   ("black", rgb 0 0 0),
   ("silver", rgb 192 192 192),
   ("gray", rgb 128 128 128),
   ("grey", rgb 128 128 128),
   ("white", rgb 255 255 255),
   ("maroon", rgb 128 0 0),
   ("red", rgb 255 0 0),
   ("purple", rgb 128 0 128),
   ("fuchsia", rgb 255 0 255),
   ("magenta", rgb 255 0 255),
   ("green", rgb 0 128 0),
   ("lime", rgb 0 255 0),
   ("olive", rgb 128 128 0),
   ("yellow", rgb 255 255 0),
   ("navy", rgb 0 0 128),
   ("blue", rgb 0 0 255),
   ("teal", rgb 0 128 128),
   ("aqua", rgb 0 255 255),
   ("cyan", rgb 0 255 255),
   ("orange", rgb 255 165 0),
   ("pink", rgb 255 192 203),
   ("brown", rgb 165 42 42),
   ("gold", rgb 255 215 0),
   ("indigo", rgb 75 0 130),
   ("violet", rgb 238 130 238),
   ("coral", rgb 255 127 80),
   ("crimson", rgb 220 20 60),
   ("salmon", rgb 250 128 114),
   ("tomato", rgb 255 99 71),
   ("khaki", rgb 240 230 140),
   ("beige", rgb 245 245 220),
   ("ivory", rgb 255 255 240),
   ("lavender", rgb 230 230 250),
   ("turquoise", rgb 64 224 208),
   ("tan", rgb 210 180 140),
   ("chocolate", rgb 210 105 30),
   ("orchid", rgb 218 112 214),
   ("plum", rgb 221 160 221),
   ("skyblue", rgb 135 206 235),
   ("steelblue", rgb 70 130 180),
   ("royalblue", rgb 65 105 225),
   ("darkblue", rgb 0 0 139),
   ("darkred", rgb 139 0 0),
   ("darkgreen", rgb 0 100 0),
   ("darkgray", rgb 169 169 169),
   ("darkgrey", rgb 169 169 169),
   ("lightgray", rgb 211 211 211),
   ("lightgrey", rgb 211 211 211),
   ("lightblue", rgb 173 216 230),
   ("lightgreen", rgb 144 238 144),
   ("forestgreen", rgb 34 139 34),
   ("seagreen", rgb 46 139 87),
   ("slategray", rgb 112 128 144),
   ("slategrey", rgb 112 128 144),
   ("whitesmoke", rgb 245 245 245)]

/-- The colour of a lower-case name. -/
def ofName? (name : String) : Option Colour :=
  named.lookup name

end Colour

end PointStyle
