import Mend.Data.Json
import Mend.Time

/-!
# Plain data from TOML text

`Toml.read?` reads a whole document. Tables are made by headers, by the steps of a longer header
(`implied`) or by dotted keys (`dotted`); what was made by one header may not be made again, and a
key may be given once. Arrays may run over several lines and end in a comma, tables in braces may
not. Whole numbers have 64 bits; other numbers, dates and times keep their text. Paths of keys and
values inside each other go no deeper than `depthLimit`.
-/

namespace Mend.Toml

/-! ## Tables in the making -/

/-- What made a table. -/
inductive Made where
  | header | implied | dotted
  deriving Repr, DecidableEq

/-- What a key stands for. -/
inductive Item where
  | value (d : Data)
  | table (made : Made) (fields : List (String × Item))
  /-- A list of tables, each with a header. -/
  | tables (items : List (List (String × Item)))

/-- The fields of a table in the making. -/
abbrev Table := List (String × Item)

mutual

/-- The data of an item. -/
def Item.toData : Item → Data
  | .value d => d
  | .table _ fields => .record (fieldsData fields)
  | .tables items => .list (tablesData items)

/-- The data of fields. -/
def fieldsData : List (String × Item) → List (String × Data)
  | [] => []
  | (k, i) :: fs => (k, i.toData) :: fieldsData fs

/-- The data of a list of tables. -/
def tablesData : List (List (String × Item)) → List Data
  | [] => []
  | t :: ts => .record (fieldsData t) :: tablesData ts

end

/-- The item under a key. -/
def Table.find? (t : Table) (k : String) : Option Item :=
  (List.find? (fun f => f.1 == k) t).map (·.2)

/-- Put an item under a key that is there. -/
def Table.replace (t : Table) (k : String) (i : Item) : Table :=
  t.map fun f => if f.1 == k then (k, i) else f

/-- Change the table at the end of a path with `f`, which is told what made that table. Missing
tables on the way are made; a dotted path may not go through a table with a header. -/
def within (dotted : Bool) (f : Made → Table → Option Table) :
    Made → List String → Table → Option Table
  | made, [], t => f made t
  | _, k :: path, t =>
    match t.find? k with
    | none =>
      let made := if dotted then Made.dotted else Made.implied
      (within dotted f made path []).map fun sub => t ++ [(k, .table made sub)]
    | some (.table made sub) =>
      if dotted && made = .header then none
      else (within dotted f made path sub).map fun sub => t.replace k (.table made sub)
    | some (.tables items) =>
      match items.getLast? with
      | none => none
      | some last => (within dotted f .header path last).map fun last =>
          t.replace k (.tables (items.dropLast ++ [last]))
    | some (.value _) => none

/-- Give a key at the end of a dotted path a value. -/
def assign (keys : List String) (i : Item) (made : Made) (t : Table) : Option Table :=
  match keys.getLast? with
  | none => none
  | some k =>
    let path := keys.dropLast
    within true (fun made t =>
      if (made == Made.dotted) == path.isEmpty || (t.find? k).isSome then none
      else some (t ++ [(k, i)])) made path t

/-- Start the table of a header. -/
def startTable (k : String) (_ : Made) (t : Table) : Option Table :=
  match t.find? k with
  | none => some (t ++ [(k, .table .header [])])
  | some (.table .implied sub) => some (t.replace k (.table .header sub))
  | some _ => none

/-- Start another table of a list of tables. -/
def startTables (k : String) (_ : Made) (t : Table) : Option Table :=
  match t.find? k with
  | none => some (t ++ [(k, .tables [[]])])
  | some (.tables items) => some (t.replace k (.tables (items ++ [[]])))
  | some _ => none

/-! ## Blanks and comments -/

/-- A blank inside a line. -/
def isSpace (c : Char) : Bool := c == ' ' || c == '\t'

/-- The text without the blanks it starts with. -/
def skip (s : List Char) : List Char := s.dropWhile isSpace

/-- A character that may stand in a comment. -/
def isPrintable (c : Char) : Bool := c == '\t' || (0x20 ≤ c.toNat && c.toNat != 0x7F)

/-- What follows the end of a line, after blanks and a comment. -/
def lineEnd? (s : List Char) : Option (List Char) :=
  let s := match skip s with
    | '#' :: r => r.dropWhile isPrintable
    | r => r
  match s with
  | [] => some []
  | '\n' :: r | '\r' :: '\n' :: r => some r
  | _ => none

/-- The text after blanks, comments and ends of lines. -/
def skipLines : Nat → List Char → List Char
  | 0, s => s
  | fuel + 1, s =>
    match skip s with
    | '\n' :: r | '\r' :: '\n' :: r => skipLines fuel r
    | '#' :: r => skipLines fuel (r.dropWhile isPrintable)
    | r => r

/-! ## Texts -/

/-- The character of a number in base sixteen, if there is one. -/
def scalar? (digits : List Char) : Option Char := do
  let values ← digits.mapM Json.hexValue?
  let n := values.foldl (fun n d => n * 16 + d) 0
  if n < 0xD800 || (0xE000 ≤ n && n < 0x110000) then pure (Char.ofNat n) else none

/-- The character that an escape stands for; the text starts after the backslash. -/
def unescape? : List Char → Option (Char × List Char)
  | 'b' :: s => some (Char.ofNat 8, s)
  | 't' :: s => some ('\t', s)
  | 'n' :: s => some ('\n', s)
  | 'f' :: s => some (Char.ofNat 12, s)
  | 'r' :: s => some ('\r', s)
  | '"' :: s => some ('"', s)
  | '\\' :: s => some ('\\', s)
  | 'u' :: s =>
    if (s.take 4).length = 4 then (scalar? (s.take 4)).map fun c => (c, s.drop 4) else none
  | 'U' :: s =>
    if (s.take 8).length = 8 then (scalar? (s.take 8)).map fun c => (c, s.drop 8) else none
  | _ => none

/-- The rest of a text between double quotes on one line; `front` is in reverse. -/
def readBasic : Nat → List Char → List Char → Option (String × List Char)
  | 0, _, _ => none
  | fuel + 1, front, s =>
    match s with
    | '"' :: s => some (String.ofList front.reverse, s)
    | '\\' :: s => (unescape? s).bind fun (c, s) => readBasic fuel (c :: front) s
    | c :: s => if isPrintable c then readBasic fuel (c :: front) s else none
    | [] => none

/-- A text between single quotes on one line, after the opening quote. -/
def literal? (s : List Char) : Option (String × List Char) :=
  let isInside (c : Char) := isPrintable c && c != '\''
  match s.dropWhile isInside with
  | '\'' :: rest => some (String.ofList (s.takeWhile isInside), rest)
  | _ => none

/-- The text after blanks and ends of lines. A carriage return alone ends no line. -/
def skipBreaks : List Char → List Char
  | '\r' :: '\n' :: s => skipBreaks s
  | c :: s => if isSpace c || c == '\n' then skipBreaks s else c :: s
  | [] => []

/-- After a backslash at the end of a line: the text after the blanks and lines that follow. -/
def continuation? (s : List Char) : Option (List Char) :=
  match skip s with
  | '\n' :: r | '\r' :: '\n' :: r => some (skipBreaks r)
  | _ => none

/-- The rest of a text between three quotes; `quote` is the quote and `escapes` says whether a
backslash is special. -/
def readLong (quote : Char) (escapes : Bool) :
    Nat → List Char → List Char → Option (String × List Char)
  | 0, _, _ => none
  | fuel + 1, front, s =>
    let quotes := (s.takeWhile (· == quote)).length
    if 3 ≤ quotes then
      let n := min quotes 5
      some (String.ofList (front.reverse ++ List.replicate (n - 3) quote), s.drop n)
    else
      match s with
      | [] => none
      | '\n' :: s | '\r' :: '\n' :: s => readLong quote escapes fuel ('\n' :: front) s
      | c :: s =>
        if c == '\\' && escapes then
          match continuation? s with
          | some s => readLong quote escapes fuel front s
          | none => (unescape? s).bind fun (c, s) => readLong quote escapes fuel (c :: front) s
        else if isPrintable c then readLong quote escapes fuel (c :: front) s
        else none

/-- The text without an end of line at its start. -/
def dropLineEnd : List Char → List Char
  | '\n' :: s | '\r' :: '\n' :: s => s
  | s => s

/-- A quoted text of any kind. -/
def text? (s : List Char) : Option (String × List Char) :=
  match s with
  | '"' :: '"' :: '"' :: r => readLong '"' true (r.length + 1) [] (dropLineEnd r)
  | '\'' :: '\'' :: '\'' :: r => readLong '\'' false (r.length + 1) [] (dropLineEnd r)
  | '"' :: r => readBasic (r.length + 1) [] r
  | '\'' :: r => literal? r
  | _ => none

/-! ## Keys -/

/-- A character of a key without quotes. -/
def isBare (c : Char) : Bool := c.isAlphanum || c == '-' || c == '_'

/-- One key. -/
def key? (s : List Char) : Option (String × List Char) :=
  match s with
  | '"' :: r => readBasic (r.length + 1) [] r
  | '\'' :: r => literal? r
  | s =>
    let k := s.takeWhile isBare
    if k.isEmpty then none else some (String.ofList k, s.dropWhile isBare)

/-- Keys with dots between them, and the text after the blanks that follow. -/
def readKeys : Nat → List Char → Option (List String × List Char)
  | 0, _ => none
  | fuel + 1, s => do
    let (k, s) ← key? (skip s)
    match skip s with
    | '.' :: s =>
      let (ks, s) ← readKeys fuel s
      pure (k :: ks, s)
    | s => pure ([k], s)

/-- No more keys stand in a row, and no more values inside each other. -/
def depthLimit : Nat := 79

/-- A path of keys, and the text after the blanks that follow. -/
def keys? (s : List Char) : Option (List String × List Char) := do
  let (ks, s) ← readKeys (s.length + 1) s
  if ks.length ≤ depthLimit then pure (ks, s) else none

/-! ## Numbers, dates and times -/

/-- The digits of a number in which single low lines may stand between digits. -/
def digits? (isDigit : Char → Bool) (s : List Char) : Option (List Char) :=
  let ok := s.head?.any isDigit && s.getLast?.any isDigit
    && s.all (fun c => isDigit c || c == '_')
    && !(s.zip (s.drop 1)).any fun (a, b) => a == '_' && b == '_'
  if ok then some (s.filter (· != '_')) else none

/-- The number of digits in a base. -/
def inBase (base : Nat) (digits : List Char) : Nat :=
  digits.foldl (fun n c => n * base + (Json.hexValue? c).getD 0) 0

/-- A decimal number without leading zeros. -/
def plainDigits? (s : List Char) : Option (List Char) := do
  let digits ← digits? Char.isDigit s
  if 1 < digits.length && digits.head? == some '0' then none else pure digits

/-- A sign and what follows it. -/
def splitSign : List Char → Bool × List Char
  | '-' :: s => (true, s)
  | '+' :: s => (false, s)
  | s => (false, s)

/-- The whole number that a word is, if it has 64 bits. -/
def integer? (word : List Char) : Option Int :=
  let limit : Int := 9223372036854775808
  let positive (base : Nat) (isDigit : Char → Bool) (s : List Char) : Option Int := do
    let n : Int := inBase base (← digits? isDigit s)
    if n < limit then pure n else none
  match word with
  | '0' :: 'x' :: s => positive 16 (fun c => (Json.hexValue? c).isSome) s
  | '0' :: 'o' :: s => positive 8 (fun c => '0' ≤ c && c ≤ '7') s
  | '0' :: 'b' :: s => positive 2 (fun c => c == '0' || c == '1') s
  | word => do
    let (negative, s) := splitSign word
    let n : Int := inBase 10 (← plainDigits? s)
    let n := if negative then -n else n
    if -limit ≤ n && n < limit then pure n else none

/-- A number with a fraction or an exponent: its digits, and the power of ten that the last of them
counts. -/
structure Real where
  negative : Bool
  digits : List Char
  scale : Int

/-- The number with a fraction or an exponent that a word is. -/
def Real.ofWord? (word : List Char) : Option Real := do
  let (negative, s) := splitSign word
  let isExponent (c : Char) := c == 'e' || c == 'E'
  let mantissa := s.takeWhile fun c => !isExponent c
  let exponent := (s.dropWhile fun c => !isExponent c).drop 1
  let fraction := (mantissa.dropWhile (· != '.')).drop 1
  let whole ← plainDigits? (mantissa.takeWhile (· != '.'))
  let fraction ← if mantissa.contains '.' then digits? Char.isDigit fraction else some []
  let (below, exponent) := splitSign exponent
  let power ← if s.any isExponent then digits? Char.isDigit exponent else some ['0']
  if mantissa.contains '.' || s.any isExponent then
    let power : Int := inBase 10 power
    pure ⟨negative, whole ++ fraction, (if below then -power else power) - fraction.length⟩
  else none

/-- The number is at least half a step past the largest one of 64 bits. -/
def Real.isTooLarge (r : Real) : Bool :=
  let digits := r.digits.dropWhile (· == '0')
  let magnitude := (digits.length : Int) + r.scale
  if digits.isEmpty || magnitude < 308 then false
  else if 310 < magnitude then true
  else
    (Nat.pow 2 1024 - Nat.pow 2 970) * Nat.pow 10 (-r.scale).toNat
      ≤ inBase 10 digits * Nat.pow 10 r.scale.toNat

/-- The word is a number with a fraction or an exponent, or stands for one that has no digits. A
number above all others has to be written as such. -/
def isReal (word : List Char) : Bool :=
  let (_, s) := splitSign word
  s == "inf".toList || s == "nan".toList
    || (Real.ofWord? word).any fun r => r.negative || !r.isTooLarge

/-- A date: what follows it. -/
def date? (s : List Char) : Option (List Char) := do
  let (year, s) ← Time.digits? 4 s
  let s ← Time.mark? ['-'] s
  let (month, s) ← Time.digits? 2 s
  let s ← Time.mark? ['-'] s
  let (day, s) ← Time.digits? 2 s
  if 1 ≤ month && month ≤ 12 && 1 ≤ day && day ≤ Time.daysIn year month then pure s else none

/-- A time of day: what follows it. -/
def time? (s : List Char) : Option (List Char) := do
  let (hour, s) ← Time.digits? 2 s
  let s ← Time.mark? [':'] s
  let (minute, s) ← Time.digits? 2 s
  let s ← Time.mark? [':'] s
  let (second, s) ← Time.digits? 2 s
  let (_, s) ← Time.fraction? s
  if hour < 24 && minute < 60 && second ≤ 60 then pure s else none

/-- The offset of a time, or none: what follows it. -/
def zone? : List Char → Option (List Char)
  | [] => some []
  | 'Z' :: s | 'z' :: s => some s
  | c :: s =>
    if c == '+' || c == '-' then do
      let (hours, s) ← Time.digits? 2 s
      let s ← Time.mark? [':'] s
      let (minutes, s) ← Time.digits? 2 s
      if hours < 24 && minutes < 60 then pure s else none
    else none

/-- The word is a date, a time of day, or both. -/
def isMoment (word : List Char) : Bool :=
  match date? word with
  | some [] => true
  | some (c :: s) =>
    (c == 'T' || c == 't' || c == ' ') && ((time? s).bind zone?) == some []
  | none => time? word == some []

/-- A character of a number, a date or a time. -/
def isWordChar (c : Char) : Bool := c.isAlphanum || "_+-.:".toList.contains c

/-- A number, a date or a time. A space may stand between a date and a time. -/
def word? (s : List Char) : Option (Data × List Char) :=
  let first := s.takeWhile isWordChar
  let rest := s.dropWhile isWordChar
  let (word, rest) := match rest with
    | ' ' :: c :: r =>
      if date? first == some [] && c.isDigit then
        (first ++ ' ' :: (c :: r).takeWhile isWordChar, (c :: r).dropWhile isWordChar)
      else (first, rest)
    | _ => (first, rest)
  match integer? word with
  | some n => some (.int n, rest)
  | none =>
    if isReal word then some (.real (String.ofList word), rest)
    else if isMoment word then some (.moment (String.ofList word), rest)
    else none

/-! ## Values -/

mutual

/-- A value at the start of the text; `depth` more arrays and tables may open. -/
def value? : Nat → Nat → List Char → Option (Data × List Char)
  | 0, _, _ => none
  | fuel + 1, depth, s =>
    match s with
    | '"' :: _ | '\'' :: _ => (text? s).map fun (t, s) => (.text t, s)
    | '[' :: s =>
      match depth with
      | 0 => none
      | depth + 1 => (array? fuel depth s).map fun (items, s) => (.list items, s)
    | '\x7b' :: s =>
      match depth with
      | 0 => none
      | depth + 1 =>
        match skip s with
        | '\x7d' :: s => some (.record [], s)
        | s => (inline? fuel depth [] s).map fun (t, s) => (.record (fieldsData t), s)
    | 't' :: 'r' :: 'u' :: 'e' :: s => some (.bool true, s)
    | 'f' :: 'a' :: 'l' :: 's' :: 'e' :: s => some (.bool false, s)
    | s => word? s

/-- The items of an array up to its closing bracket. -/
def array? : Nat → Nat → List Char → Option (List Data × List Char)
  | 0, _, _ => none
  | fuel + 1, depth, s =>
    match skipLines (s.length + 1) s with
    | ']' :: s => some ([], s)
    | s =>
      match value? fuel depth s with
      | none => none
      | some (d, s) =>
        match skipLines (s.length + 1) s with
        | ']' :: s => some ([d], s)
        | ',' :: s => (array? fuel depth s).map fun (ds, s) => (d :: ds, s)
        | _ => none

/-- The fields of a table in braces up to the closing brace; `t` holds those before. -/
def inline? : Nat → Nat → Table → List Char → Option (Table × List Char)
  | 0, _, _, _ => none
  | fuel + 1, depth, t, s =>
    match keys? s with
    | some (ks, '=' :: s) =>
      match value? fuel depth (skip s) with
      | none => none
      | some (d, s) =>
        match assign ks (.value d) .header t with
        | none => none
        | some t =>
          match skip s with
          | '\x7d' :: s => some (t, s)
          | ',' :: s => inline? fuel depth t s
          | _ => none
    | _ => none

end

/-! ## Documents -/

/-- A document in the making. -/
structure Document where
  root : Table := []
  /-- The path of the header that keys belong to. -/
  path : List String := []

/-- Start what a header stands for. -/
def Document.start (d : Document) (keys : List String)
    (make : String → Made → Table → Option Table) : Option Document := do
  let k ← keys.getLast?
  let root ← within false (make k) .header keys.dropLast d.root
  pure ⟨root, keys⟩

/-- Read the lines of a document. Each takes at least one character, so the length of the text is
fuel enough. -/
def readLines : Nat → Document → List Char → Option Document
  | 0, _, _ => none
  | fuel + 1, d, s =>
    match skip s with
    | [] => some d
    | '\n' :: s | '\r' :: '\n' :: s => readLines fuel d s
    | '#' :: s => (lineEnd? ('#' :: s)).bind (readLines fuel d)
    | '[' :: '[' :: s => do
      match ← keys? s with
      | (ks, ']' :: ']' :: s) =>
        let d ← d.start ks startTables
        readLines fuel d (← lineEnd? s)
      | _ => none
    | '[' :: s => do
      match ← keys? s with
      | (ks, ']' :: s) =>
        let d ← d.start ks startTable
        readLines fuel d (← lineEnd? s)
      | _ => none
    | s => do
      match ← keys? s with
      | (ks, '=' :: s) =>
        let (v, s) ← value? (2 * s.length + 2) depthLimit (skip s)
        let root ← within false (assign ks (.value v)) .header d.path d.root
        readLines fuel { d with root } (← lineEnd? s)
      | _ => none

/-- The tree that a whole document is. A byte order mark at its start does not count. -/
def read? (text : String) : Option Data :=
  let s := match text.toList with
    | '\uFEFF' :: s => s
    | s => s
  (readLines (s.length + 1) {} s).map fun d => .record (fieldsData d.root)

end Mend.Toml
