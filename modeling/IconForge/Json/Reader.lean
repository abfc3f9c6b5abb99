import IconForge.Json.Basic
import IconForge.Json.Fault
import IconForge.Number.Decimal
import IconForge.Text.Hexadecimal

set_option autoImplicit false

/-! # Reading JSON

A reader of JSON texts by recursive descent. Beyond the standard it accepts `NaN`, `Infinity` and
`-Infinity`; of two members with one name the last counts. A number with a fraction or an
exponent is a binary64 number, every other number an integer, which may have up to 4300 digits.
Lists and objects may be nested in each other as far as there is room for them. -/

namespace IconForge.Json

open IconForge.Text

/-! ## Strings -/

/-- The white space between the parts of a text. -/
def isSpace (c : Char) : Bool :=
  c = ' ' || c = '\t' || c = '\n' || c = '\r'

/-- The rest of a text behind white space. -/
def skipSpace (cs : List Char) : List Char :=
  cs.dropWhile isSpace

/-- The character that a letter behind a backslash stands for. -/
def escaped? : Char → Option Char
  | '"' => some '"'
  | '\\' => some '\\'
  | '/' => some '/'
  | 'b' => some '\x08'
  | 'f' => some '\x0c'
  | 'n' => some '\n'
  | 'r' => some '\r'
  | 't' => some '\t'
  | _ => none

/-- The number that four hexadecimal digits stand for. -/
def unit? (a b c d : Char) : Option Nat := do
  let a ← hexValue? a
  let b ← hexValue? b
  let c ← hexValue? c
  let d ← hexValue? d
  return ((a * 16 + b) * 16 + c) * 16 + d

/-- The first half of a surrogate pair. -/
def isHighSurrogate (n : Nat) : Bool :=
  0xd800 ≤ n && n ≤ 0xdbff

/-- The second half of a surrogate pair. -/
def isLowSurrogate (n : Nat) : Bool :=
  0xdc00 ≤ n && n ≤ 0xdfff

/-- The code point of a code unit. -/
def pointOfUnit (n : Nat) : CodePoint :=
  if h : 0xd800 ≤ n ∧ n < 0xe000 then .surrogate ⟨n, h⟩ else .char (Char.ofNat n)

/-- The character of a surrogate pair. -/
def pointOfPair (high low : Nat) : CodePoint :=
  .char (Char.ofNat (0x10000 + (high - 0xd800) * 0x400 + (low - 0xdc00)))

/-- Read the escape of a code unit, behind its backslash and `u`. Half a surrogate pair takes the
escape of the other half along, if there is one; otherwise it stands alone. An escape has to be
followed by something. -/
def readUnit (cs : List Char) : Except Stop (CodePoint × List Char) :=
  match cs with
  | a :: b :: c :: d :: next :: rest =>
    match unit? a b c d with
    | none => .error ⟨.invalidUnicodeEscape, 'u' :: cs⟩
    | some high =>
      if isHighSurrogate high && next = '\\' then
        match rest with
        | 'u' :: e :: f :: g :: h :: behind :: rest' =>
          match unit? e f g h with
          | none => .error ⟨.invalidUnicodeEscape, rest⟩
          | some low =>
            if isLowSurrogate low then .ok (pointOfPair high low, behind :: rest')
            else .ok (pointOfUnit high, next :: rest)
        | _ => .ok (pointOfUnit high, next :: rest)
      else .ok (pointOfUnit high, next :: rest)
  | _ => .error ⟨.invalidUnicodeEscape, 'u' :: cs⟩

/-- Read an escape behind its backslash. The text from the opening quote on is kept for the case
that the text ends here. -/
def readEscape (opening cs : List Char) : Except Stop (CodePoint × List Char) :=
  match cs with
  | [] => .error ⟨.unterminatedString, opening⟩
  | 'u' :: rest => readUnit rest
  | e :: rest =>
    match escaped? e with
    | some c => .ok (.char c, rest)
    | none => .error ⟨.invalidEscape, '\\' :: cs⟩

theorem length_lt_of_readUnit {cs rest : List Char} {point : CodePoint}
    (h : readUnit cs = .ok (point, rest)) : rest.length < cs.length := by
  unfold readUnit at h
  split at h
  · split at h
    · cases h
    · split at h
      · split at h
        · split at h
          · cases h
          · split at h <;>
              (injection h with h; injection h with _ h; subst h; simp only [List.length_cons];
                omega)
        · injection h with h; injection h with _ h; subst h; simp only [List.length_cons]; omega
      · injection h with h; injection h with _ h; subst h; simp only [List.length_cons]; omega
  · cases h

theorem length_lt_of_readEscape {opening cs rest : List Char} {point : CodePoint}
    (h : readEscape opening cs = .ok (point, rest)) : rest.length < cs.length := by
  unfold readEscape at h
  split at h
  · cases h
  · have := length_lt_of_readUnit h
    simp only [List.length_cons]; omega
  · split at h
    · cases h; simp only [List.length_cons]; omega
    · cases h

/-- Read a string up to its closing quote, with the code points so far in reverse. -/
def readString (opening : List Char) (done : CodeText) (cs : List Char) :
    Except Stop (CodeText × List Char) :=
  match cs with
  | [] => .error ⟨.unterminatedString, opening⟩
  | '"' :: rest => .ok (done.reverse, rest)
  | '\\' :: rest =>
    match h : readEscape opening rest with
    | .error stop => .error stop
    | .ok (point, rest') =>
      have := length_lt_of_readEscape h
      readString opening (point :: done) rest'
  | c :: rest =>
    if c < ' ' then .error ⟨.invalidControl, c :: rest⟩
    else readString opening (.char c :: done) rest
termination_by cs.length

/-! ## Numbers -/

/-- The digits at the front of a text and the rest. -/
def takeDigits (cs : List Char) : List Char × List Char :=
  (cs.takeWhile Char.isDigit, cs.dropWhile Char.isDigit)

/-- The value of a string of digits. -/
def digitsValue (cs : List Char) : Nat :=
  cs.foldl (fun value c => value * 10 + (c.toNat - '0'.toNat)) 0

/-- The integer with the given digits. -/
def integerOfDigits (negative : Bool) (digits : List Char) : Int :=
  if negative then -(digitsValue digits : Int) else digitsValue digits

/-- The digits in front of the point: a lone zero, or digits of which the first is not zero. -/
def takeWhole? (cs : List Char) : Option (List Char × List Char) :=
  match cs with
  | '0' :: rest => some (['0'], rest)
  | c :: _ => if c.isDigit then some (takeDigits cs) else none
  | [] => none

/-- A point with digits behind it; `none` when there is no fraction. -/
def takeFraction? (cs : List Char) : Option (List Char × List Char) :=
  match cs with
  | '.' :: rest =>
    let (digits, rest) := takeDigits rest
    if digits.isEmpty then none else some (digits, rest)
  | _ => none

/-- An exponent; `none` when there is none. -/
def takeExponent? (cs : List Char) : Option (Int × List Char) :=
  match cs with
  | e :: behind =>
    if e = 'e' || e = 'E' then
      let (negative, unsigned) :=
        match behind with
        | '-' :: rest => (true, rest)
        | '+' :: rest => (false, rest)
        | rest => (false, rest)
      let (digits, rest) := takeDigits unsigned
      if digits.isEmpty then none
      else some (integerOfDigits negative digits, rest)
    else none
  | [] => none

/-- Split a minus sign off a text; the answer tells whether there was one. -/
def takeMinus : List Char → Bool × List Char
  | '-' :: rest => (true, rest)
  | cs => (false, cs)

/-- Read a number. -/
def readNumber (cs : List Char) : Except Stop (Json × List Char) :=
  let (negative, unsigned) := takeMinus cs
  match takeWhole? unsigned with
  | none => .error ⟨.expectedValue, cs⟩
  | some (whole, rest) =>
    match takeFraction? rest, takeExponent? ((takeFraction? rest).elim rest (·.2)) with
    | none, none =>
      if whole.length ≤ maxDigits then .ok (.integer (integerOfDigits negative whole), rest)
      else .error ⟨.tooManyDigits whole.length, cs⟩
    | some (fraction, rest), none =>
      .ok (.real (Decimal.toBinary64
        ⟨negative, digitsValue (whole ++ fraction), -(fraction.length : Int)⟩), rest)
    | none, some (exponent, rest) =>
      .ok (.real (Decimal.toBinary64 ⟨negative, digitsValue whole, exponent⟩), rest)
    | some (fraction, _), some (exponent, rest) =>
      .ok (.real (Decimal.toBinary64
        ⟨negative, digitsValue (whole ++ fraction), exponent - fraction.length⟩), rest)

/-! ## Values -/

/-- The values that are written as a word. -/
def words : List (String × Json) :=
  [("null", .null), ("true", .boolean true), ("false", .boolean false),
   ("NaN", .real .notANumber), ("Infinity", .real (.infinite false)),
   ("-Infinity", .real (.infinite true))]

/-- Drop a word from the front of a text. -/
def dropWord? : List Char → List Char → Option (List Char)
  | [], cs => some cs
  | _ :: _, [] => none
  | w :: word, c :: cs => if w = c then dropWord? word cs else none

/-- Read a value that is written as a word. -/
def readWord? (cs : List Char) : Option (Json × List Char) :=
  words.findSome? fun (word, value) => (dropWord? word.toList cs).map fun rest => (value, rest)

/-- Read a value that is written as a word or as a number. -/
def readPlain (cs : List Char) : Except Stop (Json × List Char) :=
  match readWord? cs with
  | some reading => .ok reading
  | none => readNumber cs

mutual

/-- Read a value with room for a number of lists and objects inside of each other. The first
argument bounds the steps of the descent. -/
def readValue : Nat → Nat → List Char → Except Stop (Json × List Char)
  | 0, _, cs => .error ⟨.expectedValue, cs⟩
  | fuel + 1, room, cs =>
    match cs with
    | '"' :: rest => do
      let (content, rest) ← readString cs [] rest
      .ok (.text content, rest)
    | '[' :: rest =>
      match room with
      | 0 => .error ⟨.listTooDeep, cs⟩
      | room + 1 =>
        match skipSpace rest with
        | ']' :: rest => .ok (.list [], rest)
        | rest => readItems fuel room [] rest
    | '\x7b' :: rest =>
      match room with
      | 0 => .error ⟨.objectTooDeep, cs⟩
      | room + 1 =>
        match skipSpace rest with
        | '\x7d' :: rest => .ok (.object [], rest)
        | rest => readMembers fuel room [] rest
    | cs => readPlain cs

/-- Read the items of a list from the next one on, with those read so far in reverse. -/
def readItems : Nat → Nat → List Json → List Char → Except Stop (Json × List Char)
  | 0, _, _, cs => .error ⟨.expectedValue, cs⟩
  | fuel + 1, room, done, cs => do
    let (item, rest) ← readValue fuel room cs
    match skipSpace rest with
    | ']' :: rest => .ok (.list (item :: done).reverse, rest)
    | ',' :: rest => readItems fuel room (item :: done) (skipSpace rest)
    | rest => .error ⟨.expectedComma, rest⟩

/-- Read the members of an object from the next one on, with those read so far. -/
def readMembers : Nat → Nat → List (CodeText × Json) → List Char →
    Except Stop (Json × List Char)
  | 0, _, _, cs => .error ⟨.expectedName, cs⟩
  | fuel + 1, room, done, cs =>
    match cs with
    | '"' :: rest => do
      let (name, rest) ← readString cs [] rest
      match skipSpace rest with
      | ':' :: rest => do
        let (value, rest) ← readValue fuel room (skipSpace rest)
        let done := KeyedList.set done name value
        match skipSpace rest with
        | '\x7d' :: rest => .ok (.object done, rest)
        | ',' :: rest => readMembers fuel room done (skipSpace rest)
        | rest => .error ⟨.expectedComma, rest⟩
      | rest => .error ⟨.expectedColon, rest⟩
    | cs => .error ⟨.expectedName, cs⟩

end

/-- Read a text that holds one value and white space around it. -/
def readDocument (room : Nat) (cs : List Char) : Except Stop Json :=
  match cs with
  | '\ufeff' :: _ => .error ⟨.byteOrderMark, cs⟩
  | _ => do
    let (value, rest) ← readValue (2 * cs.length + 2) room (skipSpace cs)
    match skipSpace rest with
    | [] => .ok value
    | rest => .error ⟨.extraData, rest⟩

/-- The value that a text holds, with room for a number of lists and objects inside of each
other. -/
def readWithin (room : Nat) (text : String) : Except SyntaxFault Json :=
  (readDocument room text.toList).mapError fun stop => stop.locate text.toList

end IconForge.Json
