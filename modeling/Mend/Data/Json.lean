import Mend.Data.Basic
import Mend.Text.Bytes

/-!
# Plain data as JSON text

`Json.compact` writes a tree on one line and `Json.pretty` with an indentation of two spaces;
`Json.read?` reads a whole text back. Between quotes only the quote, the backslash and the control
characters are escaped. The reader takes nothing but JSON: no leading zeros, no control character
inside quotes, nothing after the value. A whole number is read as such; one with a fraction or an
exponent, and the negative zero, keep their digits. What stands between quotes may be half of a
surrogate pair, or bytes that are no text; it is read as `garbled` data then.
-/

namespace Mend.Json

/-! ## Writing -/

/-- A digit of a number in base sixteen. -/
def hexDigit (n : Nat) : Char := (Nat.toDigits 16 (n % 16)).headD '0'

/-- One character between quotes. -/
def escape (c : Char) : List Char :=
  if c == '"' then ['\\', '"']
  else if c == '\\' then ['\\', '\\']
  else if c == '\n' then ['\\', 'n']
  else if c == '\r' then ['\\', 'r']
  else if c == '\t' then ['\\', 't']
  else if c.toNat == 8 then ['\\', 'b']
  else if c.toNat == 12 then ['\\', 'f']
  else if c.toNat < 32 then
    ['\\', 'u', '0', '0', hexDigit (c.toNat / 16), hexDigit c.toNat]
  else [c]

/-- A text between quotes. -/
def quote (s : String) : String :=
  "\"" ++ String.ofList (s.toList.flatMap escape) ++ "\""

mutual

/-- A tree on one line. -/
def compact : Data → String
  | .null => "null"
  | .bool b => if b then "true" else "false"
  | .int n => toString n
  | .real digits => digits
  | .moment digits => quote digits
  | .text s => quote s
  | .list items => "[" ++ compactItems items ++ "]"
  | .record fields => "\x7b" ++ compactFields fields ++ "\x7d"
  | .garbled => "null"

/-- The items of a list, with commas between them. -/
def compactItems : List Data → String
  | [] => ""
  | [d] => compact d
  | d :: ds => compact d ++ "," ++ compactItems ds

/-- The fields of a record, with commas between them. -/
def compactFields : List (String × Data) → String
  | [] => ""
  | [(k, d)] => quote k ++ ":" ++ compact d
  | (k, d) :: fs => quote k ++ ":" ++ compact d ++ "," ++ compactFields fs

end

/-- A new line, indented by `depth` levels. -/
def newLine (depth : Nat) : String := "\n" ++ String.ofList (List.replicate (2 * depth) ' ')

mutual

/-- A tree over several lines; what it holds is indented by `depth` levels and one more. -/
def prettyAt (depth : Nat) : Data → String
  | .null => "null"
  | .bool b => if b then "true" else "false"
  | .int n => toString n
  | .real digits => digits
  | .moment digits => quote digits
  | .text s => quote s
  | .list [] => "[]"
  | .list (d :: ds) =>
    "[" ++ newLine (depth + 1) ++ prettyAt (depth + 1) d ++ prettyItems (depth + 1) ds
      ++ newLine depth ++ "]"
  | .record [] => "\x7b\x7d"
  | .record ((k, d) :: fs) =>
    "\x7b" ++ newLine (depth + 1) ++ quote k ++ ": " ++ prettyAt (depth + 1) d
      ++ prettyFields (depth + 1) fs ++ newLine depth ++ "\x7d"
  | .garbled => "null"

/-- The items after the first. -/
def prettyItems (depth : Nat) : List Data → String
  | [] => ""
  | d :: ds => "," ++ newLine depth ++ prettyAt depth d ++ prettyItems depth ds

/-- The fields after the first. -/
def prettyFields (depth : Nat) : List (String × Data) → String
  | [] => ""
  | (k, d) :: fs =>
    "," ++ newLine depth ++ quote k ++ ": " ++ prettyAt depth d ++ prettyFields depth fs

end

/-- A tree over several lines. -/
def pretty (d : Data) : String := prettyAt 0 d

/-! ## Reading

The text is read byte by byte, each byte as a character of its own. -/

/-- The blanks between tokens. -/
def isSpace (c : Char) : Bool := c == ' ' || c == '\n' || c == '\t' || c == '\r'

/-- The text without the blanks it starts with. -/
def skip (s : List Char) : List Char := s.dropWhile isSpace

/-- The value of a digit in base sixteen. -/
def hexValue? (c : Char) : Option Nat :=
  if c.isDigit then some (c.toNat - '0'.toNat)
  else if 'a' ≤ c && c ≤ 'f' then some (c.toNat - 'a'.toNat + 10)
  else if 'A' ≤ c && c ≤ 'F' then some (c.toNat - 'A'.toNat + 10)
  else none

/-- Four digits in base sixteen. -/
def hex4? : List Char → Option (Nat × List Char)
  | a :: b :: c :: d :: s => do
    let a ← hexValue? a
    let b ← hexValue? b
    let c ← hexValue? c
    let d ← hexValue? d
    pure (((a * 16 + b) * 16 + c) * 16 + d, s)
  | _ => none

/-- The character of an escaped code unit, if it is one, and the text after it. The first half of a
surrogate pair needs the second half right behind it. -/
def codeUnit? (unit : Nat) (s : List Char) : Option (Option Char × List Char) :=
  if 0xD800 ≤ unit && unit < 0xDC00 then
    match s with
    | '\\' :: 'u' :: r => do
      let (low, r) ← hex4? r
      if 0xDC00 ≤ low && low < 0xE000 then
        pure (some (Char.ofNat (0x10000 + (unit - 0xD800) * 0x400 + (low - 0xDC00))), r)
      else pure (none, s)
    | _ => some (none, s)
  else if 0xDC00 ≤ unit && unit < 0xE000 then some (none, s)
  else some (some (Char.ofNat unit), s)

/-- The character that an escape stands for, if it stands for one; the text starts after the
backslash. -/
def unescape? : List Char → Option (Option Char × List Char)
  | '"' :: s => some ('"', s)
  | '\\' :: s => some ('\\', s)
  | '/' :: s => some ('/', s)
  | 'b' :: s => some (Char.ofNat 8, s)
  | 'f' :: s => some (Char.ofNat 12, s)
  | 'n' :: s => some ('\n', s)
  | 'r' :: s => some ('\r', s)
  | 't' :: s => some ('\t', s)
  | 'u' :: s => (hex4? s).bind fun (unit, s) => codeUnit? unit s
  | _ => none

/-- The rest of a quoted text; `front` holds, in reverse, the bytes that were read, and is missing
once something was no character. Each step takes at least one character, so the length of the text
is fuel enough. -/
def readQuoted : Nat → Option (List Char) → List Char → Option (Option String × List Char)
  | 0, _, _ => none
  | fuel + 1, front, s =>
    match s with
    | [] => none
    | '"' :: s => some (front.bind fun front => Text.decode? front.reverse, s)
    | '\\' :: s =>
      (unescape? s).bind fun (c, s) =>
        let longer := front.bind fun front => c.map fun c => (Text.encode [c]).reverse ++ front
        readQuoted fuel longer s
    | c :: s => if c.toNat < 32 then none else readQuoted fuel (front.map (c :: ·)) s

/-- A quoted text, after its opening quote; there may be no reading of it as text. -/
def quoted? (s : List Char) : Option (Option String × List Char) :=
  readQuoted (s.length + 1) (some []) s

/-- The data of a quoted text. -/
def textData : Option String → Data
  | some s => .text s
  | none => .garbled

/-- The data of fields, which all need a name to make a record. -/
def recordData (fields : List (Option String × Data)) : Data :=
  match fields.mapM fun (k, d) => k.map fun k => (k, d) with
  | some fields => .record fields
  | none => .garbled

/-- The value of a run of decimal digits. -/
def decimal (digits : List Char) : Nat :=
  digits.foldl (fun n c => n * 10 + (c.toNat - '0'.toNat)) 0

/-- A number that starts at the text's start. -/
def number? (s : List Char) : Option (Data × List Char) :=
  let (negative, body) := match s with
    | '-' :: s => (true, s)
    | s => (false, s)
  let whole := body.takeWhile Char.isDigit
  let rest := body.dropWhile Char.isDigit
  if whole.isEmpty || (1 < whole.length && whole.head? == some '0') then none
  else do
    let (fraction, rest) ← match rest with
      | '.' :: r =>
        let digits := r.takeWhile Char.isDigit
        if digits.isEmpty then none else some ('.' :: digits, r.dropWhile Char.isDigit)
      | r => some ([], r)
    let (exponent, rest) ← match rest with
      | e :: r =>
        if e == 'e' || e == 'E' then
          let (sign, r) := match r with
            | '+' :: r => (['+'], r)
            | '-' :: r => (['-'], r)
            | r => ([], r)
          let digits := r.takeWhile Char.isDigit
          if digits.isEmpty then none
          else some (e :: sign ++ digits, r.dropWhile Char.isDigit)
        else some ([], e :: r)
      | [] => some ([], [])
    let n := decimal whole
    if fraction.isEmpty && exponent.isEmpty && !(negative && n == 0) then
      pure (.int (if negative then -n else n), rest)
    else
      let sign := if negative then ['-'] else []
      pure (.real (String.ofList (sign ++ whole ++ fraction ++ exponent)), rest)

mutual

/-- A value at the start of the text. -/
def readValue : Nat → List Char → Option (Data × List Char)
  | 0, _ => none
  | fuel + 1, s =>
    match skip s with
    | 'n' :: 'u' :: 'l' :: 'l' :: s => some (.null, s)
    | 't' :: 'r' :: 'u' :: 'e' :: s => some (.bool true, s)
    | 'f' :: 'a' :: 'l' :: 's' :: 'e' :: s => some (.bool false, s)
    | '"' :: s => (quoted? s).map fun (t, s) => (textData t, s)
    | '[' :: s =>
      match skip s with
      | ']' :: s => some (.list [], s)
      | s => (readItems fuel s).map fun (items, s) => (.list items, s)
    | '\x7b' :: s =>
      match skip s with
      | '\x7d' :: s => some (.record [], s)
      | s => (readFields fuel s).map fun (fields, s) => (recordData fields, s)
    | s => number? s

/-- The items of a list up to its closing bracket. -/
def readItems : Nat → List Char → Option (List Data × List Char)
  | 0, _ => none
  | fuel + 1, s =>
    match readValue fuel s with
    | none => none
    | some (d, s) =>
      match skip s with
      | ']' :: s => some ([d], s)
      | ',' :: s => (readItems fuel s).map fun (ds, s) => (d :: ds, s)
      | _ => none

/-- The fields of a record up to its closing brace. -/
def readFields : Nat → List Char → Option (List (Option String × Data) × List Char)
  | 0, _ => none
  | fuel + 1, s =>
    match skip s with
    | '"' :: s =>
      match quoted? s with
      | none => none
      | some (k, s) =>
        match skip s with
        | ':' :: s =>
          match readValue fuel s with
          | none => none
          | some (d, s) =>
            match skip s with
            | '\x7d' :: s => some ([(k, d)], s)
            | ',' :: s => (readFields fuel s).map fun (fs, s) => ((k, d) :: fs, s)
            | _ => none
        | _ => none
    | _ => none

end

/-- The tree that a whole sequence of bytes is. -/
def readBytes? (bytes : ByteArray) : Option Data :=
  let s := Text.ofBytes bytes
  match readValue (2 * s.length + 2) s with
  | some (d, rest) => if (skip rest).isEmpty then some d else none
  | none => none

/-- The tree that a whole text is. -/
def read? (text : String) : Option Data := readBytes? text.toUTF8

end Mend.Json
