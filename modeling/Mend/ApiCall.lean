import Mend.Issue
import Mend.Pattern.Search
import Mend.Text.LineIndex

/-!
# Calls over the network

Each platform has its usual ways to call a server. They are looked for in the source as it is
written, comments included.
-/

namespace Mend

/-- A place where a file calls a server. -/
structure ApiCall where
  file : Path
  line : Nat
  /-- What is called, without a leading dot. -/
  callee : String
  deriving Repr, DecidableEq

namespace ApiCall

open Pattern

/-- The verbs of a request in lower case. -/
def verbs : List String := ["get", "post", "put", "patch", "delete"]

/-- What calls a server on a platform; group 1 is what is called. -/
def pattern : Platform → Pattern
  | .web | .reactNative =>
    boundary
      ++ group 1 (lit "fetch" <|> (lit "axios" ++ opt (lit "." ++ words (verbs ++ ["request"]))))
      ++ gap ++ lit "("
  | .flutter =>
    boundary ++ group 1
      ((lit "http" <|> (opt (lit "_") ++ lit "dio") <|> (opt (lit "_") ++ lit "client"))
        ++ lit "." ++ words verbs) ++ gap ++ lit "("
  | .ios =>
    group 1 (words [".dataTask", "AF.request", ".upload", ".download"]) ++ gap ++ lit "("
  | .android =>
    group 1 ((lit "@" ++ words (verbs.map Text.asciiUpper)) <|> words [".enqueue", ".newCall"])
      ++ gap ++ lit "("

/-- The calls of one file. -/
def findAll (file : Path) (content : String) (platform : Platform) : List ApiCall :=
  let source := content.toList
  let index := Text.LineIndex.of source
  ((pattern platform).findAll source).filterMap fun m => do
    let span ← m.group? 1
    let callee := (Text.cut span.start span.stop source).dropWhile (· == '.')
    pure ⟨file, index.lineOf span.start, String.ofList callee⟩

/-- The record of a call. -/
def toData (c : ApiCall) : Data :=
  .record [("file", .text c.file.text), ("line", .ofNat c.line), ("callee", .text c.callee)]

end ApiCall

end Mend
