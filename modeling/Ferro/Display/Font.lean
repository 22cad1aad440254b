import Ferro.Base.Arr

/-!
# The font (`font.rs`)

A glyph is a byte for each of its seven rows; bit 4 is the leftmost of five columns.
-/

namespace Ferro

namespace Display

/-- `glyph`. Lower case is drawn as upper case, and what the font lacks as blank. -/
def glyph (c : Char) : Bytes 7 :=
  match c.toUpper with
  | 'A' => .ofList [0x0E, 0x11, 0x11, 0x1F, 0x11, 0x11, 0x11]
  | 'B' => .ofList [0x1E, 0x11, 0x11, 0x1E, 0x11, 0x11, 0x1E]
  | 'C' => .ofList [0x0F, 0x10, 0x10, 0x10, 0x10, 0x10, 0x0F]
  | 'D' => .ofList [0x1E, 0x11, 0x11, 0x11, 0x11, 0x11, 0x1E]
  | 'E' => .ofList [0x1F, 0x10, 0x10, 0x1E, 0x10, 0x10, 0x1F]
  | 'F' => .ofList [0x1F, 0x10, 0x10, 0x1E, 0x10, 0x10, 0x10]
  | 'G' => .ofList [0x0F, 0x10, 0x10, 0x17, 0x11, 0x11, 0x0F]
  | 'H' => .ofList [0x11, 0x11, 0x11, 0x1F, 0x11, 0x11, 0x11]
  | 'I' => .ofList [0x0E, 0x04, 0x04, 0x04, 0x04, 0x04, 0x0E]
  | 'J' => .ofList [0x01, 0x01, 0x01, 0x01, 0x11, 0x11, 0x0E]
  | 'K' => .ofList [0x11, 0x12, 0x14, 0x18, 0x14, 0x12, 0x11]
  | 'L' => .ofList [0x10, 0x10, 0x10, 0x10, 0x10, 0x10, 0x1F]
  | 'M' => .ofList [0x11, 0x1B, 0x15, 0x11, 0x11, 0x11, 0x11]
  | 'N' => .ofList [0x11, 0x19, 0x15, 0x13, 0x11, 0x11, 0x11]
  | 'O' => .ofList [0x0E, 0x11, 0x11, 0x11, 0x11, 0x11, 0x0E]
  | 'P' => .ofList [0x1E, 0x11, 0x11, 0x1E, 0x10, 0x10, 0x10]
  | 'Q' => .ofList [0x0E, 0x11, 0x11, 0x11, 0x15, 0x12, 0x0D]
  | 'R' => .ofList [0x1E, 0x11, 0x11, 0x1E, 0x14, 0x12, 0x11]
  | 'S' => .ofList [0x0F, 0x10, 0x10, 0x0E, 0x01, 0x01, 0x1E]
  | 'T' => .ofList [0x1F, 0x04, 0x04, 0x04, 0x04, 0x04, 0x04]
  | 'U' => .ofList [0x11, 0x11, 0x11, 0x11, 0x11, 0x11, 0x0E]
  | 'V' => .ofList [0x11, 0x11, 0x11, 0x11, 0x11, 0x0A, 0x04]
  | 'W' => .ofList [0x11, 0x11, 0x11, 0x15, 0x15, 0x1B, 0x11]
  | 'X' => .ofList [0x11, 0x0A, 0x04, 0x04, 0x04, 0x0A, 0x11]
  | 'Y' => .ofList [0x11, 0x0A, 0x04, 0x04, 0x04, 0x04, 0x04]
  | 'Z' => .ofList [0x1F, 0x01, 0x02, 0x04, 0x08, 0x10, 0x1F]
  | '0' => .ofList [0x0E, 0x11, 0x13, 0x15, 0x19, 0x11, 0x0E]
  | '1' => .ofList [0x04, 0x0C, 0x04, 0x04, 0x04, 0x04, 0x0E]
  | '2' => .ofList [0x0E, 0x11, 0x01, 0x02, 0x04, 0x08, 0x1F]
  | '3' => .ofList [0x1E, 0x01, 0x06, 0x01, 0x01, 0x11, 0x0E]
  | '4' => .ofList [0x02, 0x06, 0x0A, 0x12, 0x1F, 0x02, 0x02]
  | '5' => .ofList [0x1F, 0x10, 0x1E, 0x01, 0x01, 0x11, 0x0E]
  | '6' => .ofList [0x0E, 0x10, 0x10, 0x1E, 0x11, 0x11, 0x0E]
  | '7' => .ofList [0x1F, 0x01, 0x02, 0x04, 0x04, 0x04, 0x04]
  | '8' => .ofList [0x0E, 0x11, 0x11, 0x0E, 0x11, 0x11, 0x0E]
  | '9' => .ofList [0x0E, 0x11, 0x11, 0x0F, 0x01, 0x01, 0x0E]
  | '-' => .ofList [0x00, 0x00, 0x00, 0x1F, 0x00, 0x00, 0x00]
  | ':' => .ofList [0x00, 0x04, 0x00, 0x00, 0x04, 0x00, 0x00]
  | '/' => .ofList [0x01, 0x02, 0x02, 0x04, 0x08, 0x08, 0x10]
  | '>' => .ofList [0x10, 0x08, 0x04, 0x02, 0x04, 0x08, 0x10]
  | '<' => .ofList [0x01, 0x02, 0x04, 0x08, 0x04, 0x02, 0x01]
  | '.' => .ofList [0x00, 0x00, 0x00, 0x00, 0x00, 0x0C, 0x0C]
  | ',' => .ofList [0x00, 0x00, 0x00, 0x00, 0x00, 0x0C, 0x08]
  | '\x27' => .ofList [0x0C, 0x04, 0x08, 0x00, 0x00, 0x00, 0x00]
  | '\x22' => .ofList [0x1B, 0x0A, 0x00, 0x00, 0x00, 0x00, 0x00]
  | '(' => .ofList [0x02, 0x04, 0x08, 0x08, 0x08, 0x04, 0x02]
  | ')' => .ofList [0x08, 0x04, 0x02, 0x02, 0x02, 0x04, 0x08]
  | '+' => .ofList [0x00, 0x04, 0x04, 0x1F, 0x04, 0x04, 0x00]
  | '_' => .ofList [0x00, 0x00, 0x00, 0x00, 0x00, 0x00, 0x1F]
  | '%' => .ofList [0x19, 0x19, 0x02, 0x04, 0x08, 0x13, 0x13]
  | _ => .fill 0

end Display

end Ferro
