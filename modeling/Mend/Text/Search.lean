import Mend.Text.Offset

/-!
# Finding one text in another
-/

namespace Mend.Text

/-- `needle` stands somewhere in the text. -/
def occurs (needle : List Char) : List Char → Bool
  | [] => needle.isEmpty
  | c :: s => needle.isPrefixOf (c :: s) || occurs needle s

/-- `occurs` for a literal. -/
def has (s : List Char) (needle : String) : Bool := occurs needle.toList s

/-- The text starts with a literal. -/
def startsWith (s : List Char) (start : String) : Bool := start.toList.isPrefixOf s

/-- The text ends with a literal. -/
def endsWith (s : List Char) (tail : String) : Bool := tail.toList.isSuffixOf s

/-- The offset of the first character that satisfies `p`. -/
def find? (p : Char → Bool) (s : List Char) : Option Nat := (offsetsOf p s).head?

/-- The offset of the last character that satisfies `p`. -/
def findLast? (p : Char → Bool) (s : List Char) : Option Nat := (offsetsOf p s).getLast?

/-- Every place where `old` stands, left to right and without overlaps, becomes `new`. An empty
`old` stands nowhere. -/
def replaceAll (old new : List Char) (s : List Char) : List Char := go 0 s
where
  /-- Skip `n` more characters of a place that was replaced. -/
  go : Nat → List Char → List Char
    | _, [] => []
    | n + 1, _ :: s => go n s
    | 0, c :: s =>
      if !old.isEmpty && old.isPrefixOf (c :: s) then new ++ go (old.length - 1) s
      else c :: go 0 s

/-- `replaceAll` on strings. -/
def replaced (s : String) (old new : String) : String :=
  String.ofList (replaceAll old.toList new.toList s.toList)

/-- The string has the literal somewhere in it. -/
def contains (s needle : String) : Bool := occurs needle.toList s.toList

/-- ASCII letters in lower case, all else as it is. -/
def asciiLower (s : String) : String := String.ofList (s.toList.map Char.toLower)

/-- ASCII letters in upper case, all else as it is. -/
def asciiUpper (s : String) : String := String.ofList (s.toList.map Char.toUpper)

/-- The text filled up with spaces at its end to `n` characters. -/
def padEnd (n : Nat) (s : String) : String :=
  s ++ String.ofList (List.replicate (n - s.length) ' ')

/-- The text filled up with spaces at its start to `n` characters. -/
def padStart (n : Nat) (s : String) : String :=
  String.ofList (List.replicate (n - s.length) ' ') ++ s

end Mend.Text
