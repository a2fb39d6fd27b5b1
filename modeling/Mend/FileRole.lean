import Mend.Path
import Mend.Data.Basic

/-!
# What a file is for

A file's role is read off its path by naming conventions. The first rule that fits wins: tests
before screens, screens before components, components before services.
-/

namespace Mend

/-- What a source file is for, as far as its path tells. -/
inductive FileRole where
  | screen | component | service | test | other
  deriving Repr, DecidableEq

namespace FileRole

/-- The name in records and reports. -/
def name : FileRole → String
  | screen => "screen"
  | component => "component"
  | service => "service"
  | test => "test"
  | other => "other"

/-- Every role. -/
def all : List FileRole := [screen, component, service, test, other]

/-- The role with exactly this name. -/
def ofName? (s : String) : Option FileRole := all.find? fun r => r.name == s

/-- Read a role of a record. -/
def ofData? (d : Data) : Option FileRole := (d.toName? .json).bind ofName?

/-- A character in lower case, as far as it can become a letter of the Latin alphabet: beside the
capital letters these are the Kelvin sign and the capital I with a dot, whose dot stays behind as a
combining mark. -/
def lowerChar (c : Char) : List Char :=
  if c == '\u212A' then ['k']
  else if c == '\u0130' then ['i', '\u0307']
  else [c.toLower]

/-- The text in lower case, for looking up words of Latin letters in it. -/
def lowered (s : String) : List Char := s.toList.flatMap lowerChar

/-- A file's path as the conventions see it. -/
structure View where
  /-- The whole path in lower case, with slashes only. -/
  whole : List Char
  /-- The file name without its extension. -/
  stem : List Char
  /-- The same in lower case. -/
  stemLower : List Char

/-- The view of a path. -/
def View.of (p : Path) : View :=
  let stem := p.fileStem?.getD ""
  { whole := lowered (Text.replaced p.text "\\" "/")
    stem := stem.toList
    stemLower := lowered stem }

/-- The path has one of these directories in it. -/
def View.inside (v : View) (dirs : List String) : Bool := dirs.any (Text.has v.whole)

/-- The file name ends in one of these words. -/
def View.endsIn (v : View) (tails : List String) : Bool := tails.any (Text.endsWith v.stem)

/-- The file name ends in one of these words, letter case aside. -/
def View.endsInLower (v : View) (tails : List String) : Bool :=
  tails.any (Text.endsWith v.stemLower)

/-- The path of a test. -/
def View.isTest (v : View) : Bool :=
  v.inside ["/__tests__/", "/androidtest/", "/test/", "/tests/"]
    || v.endsIn [".test", ".spec", "_test", "Test", "Tests"]

/-- The path of a screen. -/
def View.isScreen (v : View) : Bool :=
  v.endsIn ["Screen", "Page", "Activity", "Fragment", "ViewController"]
    || v.inside ["/screens/", "/pages/", "/app/routes/"]
    || v.endsInLower ["_screen", "_page"]

/-- The path of a component. -/
def View.isComponent (v : View) : Bool :=
  v.endsIn ["View", "Widget", "Component", "Cell", "Adapter"]
    || v.inside ["/components/", "/widgets/", "/views/", "/ui/"]
    || v.endsInLower ["_widget"]

/-- The path of a service. -/
def View.isService (v : View) : Bool :=
  ["service", "api", "client", "repository", "store"].any (Text.has v.stemLower)
    || v.inside ["/services/", "/api/", "/data/", "/network/"]

/-- The role of a file. -/
def ofPath (p : Path) : FileRole :=
  let v := View.of p
  if v.isTest then test
  else if v.isScreen then screen
  else if v.isComponent then component
  else if v.isService then service
  else other

end FileRole

end Mend
