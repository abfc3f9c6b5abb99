set_option autoImplicit false

/-! # Letter case

Two views of letter case that only concern the letters and digits of ASCII.

* Comparing with an ASCII pattern ignores case. Besides the ASCII letters, the long s counts as
  an `s`, the dotted capital I and the dotless i count as an `i` and the Kelvin sign as a `k`,
  because simple case folding takes them there and back.
* Writing a word in capital or small letters uses the full case mappings of Unicode. Of their
  results only the ASCII letters and digits are kept here, which some characters outside ASCII
  have too: the sharp s is written `SS` in capitals. -/

namespace IconForge.Text

/-- The letters and digits of ASCII. -/
def isAsciiAlphanumeric (c : Char) : Bool :=
  ('a' ≤ c && c ≤ 'z') || ('A' ≤ c && c ≤ 'Z') || ('0' ≤ c && c ≤ '9')

/-! ## Comparing without case -/

/-- The character that stands for all characters equal to it when case is ignored, as far as
ASCII letters are concerned. -/
def foldCase (c : Char) : Char :=
  match c with
  | 'ſ' => 's'
  | 'İ' => 'i'
  | 'ı' => 'i'
  | '\u212a' => 'k'
  | c => c.toLower

/-- Drop a pattern from the front of a text, ignoring case. The pattern is in small letters. -/
def dropFolded? : List Char → List Char → Option (List Char)
  | [], cs => some cs
  | _ :: _, [] => none
  | p :: pattern, c :: cs => if foldCase c = p then dropFolded? pattern cs else none

/-! ## Capital and small letters -/

/-- The ASCII letters and digits of a character's capital form. -/
def capitalForm (c : Char) : List Char :=
  match c with
  | 'ß' => ['S', 'S']
  | 'ı' => ['I']
  | 'ŉ' => ['N']
  | 'ſ' => ['S']
  | 'ǰ' => ['J']
  | 'ẖ' => ['H']
  | 'ẗ' => ['T']
  | 'ẘ' => ['W']
  | 'ẙ' => ['Y']
  | 'ẚ' => ['A']
  | 'ﬀ' => ['F', 'F']
  | 'ﬁ' => ['F', 'I']
  | 'ﬂ' => ['F', 'L']
  | 'ﬃ' => ['F', 'F', 'I']
  | 'ﬄ' => ['F', 'F', 'L']
  | 'ﬅ' => ['S', 'T']
  | 'ﬆ' => ['S', 'T']
  | c => if isAsciiAlphanumeric c then [c.toUpper] else []

/-- The ASCII letters and digits of a character's small form. -/
def smallForm (c : Char) : List Char :=
  match c with
  | 'İ' => ['i']
  | '\u212a' => ['k']
  | c => if isAsciiAlphanumeric c then [c.toLower] else []

end IconForge.Text
