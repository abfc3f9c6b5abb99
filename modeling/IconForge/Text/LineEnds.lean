set_option autoImplicit false

/-! # Line ends

A text file may end its lines with a line feed, a carriage return or both. A text that is read
from a file has line feeds only. -/

namespace IconForge.Text

/-- Replace each carriage return, together with a line feed right after it, by a line feed. -/
def toLineFeeds : List Char → List Char
  | [] => []
  | '\r' :: '\n' :: rest => '\n' :: toLineFeeds rest
  | '\r' :: rest => '\n' :: toLineFeeds rest
  | c :: rest => c :: toLineFeeds rest

end IconForge.Text
