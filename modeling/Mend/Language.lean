/-!
# Source languages

The languages whose files are read, told by the file name's extension, with what the lexer has to
know about each of them.
-/

namespace Mend

/-- The languages of the supported platforms. -/
inductive Language where
  | javaScript | typeScript | dart | swift | kotlin | java
  deriving Repr, DecidableEq

namespace Language

/-- The name in records and reports. -/
def name : Language → String
  | javaScript => "javascript"
  | typeScript => "typescript"
  | dart => "dart"
  | swift => "swift"
  | kotlin => "kotlin"
  | java => "java"

/-- The file name extensions of a language, without the dot. -/
def extensions : Language → List String
  | javaScript => ["js", "jsx", "mjs", "cjs"]
  | typeScript => ["ts", "tsx"]
  | dart => ["dart"]
  | swift => ["swift"]
  | kotlin => ["kt", "kts"]
  | java => ["java"]

/-- Every language. -/
def all : List Language := [javaScript, typeScript, dart, swift, kotlin, java]

/-- The language of an extension. Case counts. -/
def ofExtension? (extension : String) : Option Language :=
  all.find? fun l => l.extensions.contains extension

/-- The language with a name. -/
def ofName? (name : String) : Option Language := all.find? fun l => l.name == name

/-- What starts a comment that ends with its line. -/
def commentPrefix (_ : Language) : String := "//"

/-- Block comments nest. -/
def nestedBlockComments : Language → Bool
  | swift | kotlin | dart => true
  | _ => false

/-- A single quote starts a string. -/
def singleQuoteStrings : Language → Bool
  | javaScript | typeScript | dart => true
  | _ => false

/-- A backquote starts a template literal; three quotes in a row mean nothing special. -/
def templateLiterals : Language → Bool
  | javaScript | typeScript => true
  | _ => false

end Language

end Mend
