import Mend.Synthesis.Draft

/-!
# Mending retain cycles

A closure is made to hold its owner weakly, and a delegate is declared weak.
-/

namespace Mend.Synthesis

open Pattern

/-! ## Closures -/

/-- The capture list that a closure's body starts with; group 1 is what it holds. -/
def captureList : Pattern :=
  textStart ++ gap ++ lit "[" ++ group 1 (many (noneOf "]")) ++ lit "]"

/-- The parameters and the result of a closure, up to the word that ends them. -/
def closureHead : Pattern :=
  textStart ++ gap
    ++ opt ((lit "(" ++ many (noneOf "()") ++ lit ")")
      <|> (word1 ++ many (gap ++ lit "," ++ gap ++ word1)))
    ++ gap
    ++ opt (lit "->" ++ gap
      ++ many1 (set fun c => Text.isWord c || ".?<>[]".toList.contains c) ++ gap)
    ++ lit "in" ++ boundary

/-- A use of the owner's members. -/
def selfMember : Pattern := boundary ++ lit "self."

/-- What makes a closure whose body starts at `start` hold its owner in the given way. -/
def capture (body : List Char) (start : Nat) (way : String) : Insertion :=
  match (captureList.find? body).bind fun m => (m.group? 1).map fun span =>
      (span.start, captured m body) with
  | some (at', listed) =>
    ⟨start + at', (way ++ " self").toList
      ++ (if (Text.trim listed).isEmpty then [] else [',', ' '])⟩
  | none =>
    ⟨start, ((" [" ++ way ++ " self]") ++ (if closureHead.isIn body then "" else " in")).toList⟩
where
  /-- What the capture list holds. -/
  captured (m : Match) (s : List Char) : List Char := (m.groupText? 1 s).getD []

/-- Hold the owner of a closure weakly. -/
def weakSelfCapture (column : Option Nat) (w : Window) : Attempt Draft := do
  let opening ← Attempt.of (offsetOf? column)
  let tail ← Attempt.of (w.tailFrom? w.focus)
  let masked := Text.Mask.mask .swift tail
  Attempt.require (((Text.from? opening masked).bind List.head?) == some '\x7b')
  let close ← Attempt.of (Text.matchingClose masked opening)
  let start := opening + 1
  let body ← Text.between start close masked
  let uses := (selfMember.findAll body).map Match.start
  Attempt.require (!uses.isEmpty && ((whole "self").findAll body).length == uses.length)
  let closeLine := (Text.LineIndex.of tail).lineOf close
  let linesOf (text : List Char) := (Text.rows text).take closeLine
  let chained := uses.map fun at' => (⟨start + at' + 4, ['?']⟩ : Insertion)
  let weak ← insertAll (chained ++ [capture body start "weak"]) tail
  let unowned ← insertAll [capture body start "unowned"] tail
  let replaced ← Attempt.of (w.span? w.focus (w.focus + closeLine - 1))
  let draft : Draft := {
    firstLine := w.focus
    replaced
    suggested := linesOf weak
    title := "Capture self weakly"
    description :=
      "The escaping closure no longer keeps its owner alive, breaking the retain cycle." }
  pure (draft.withAlternative "Capture self unowned"
    "No optional chaining, but crashes if the closure runs after self is gone" 55
    (some (Window.joined (linesOf unowned))))

/-! ## Delegates -/

/-- What a declaration of a variable starts with; group 1 is what comes before the word. -/
def variableStart : Pattern :=
  textStart ++ group 1 (gap ++ many
    (words ["public", "private", "internal", "fileprivate", "open", "final", "@objc"] ++ gap1))
    ++ lit "var" ++ blank

/-- A plain type at the end of a line. -/
def plainTypeEnd : Pattern :=
  lit ":" ++ gap ++ many1 (set fun c => Text.isWord c || c == '.') ++ textEnd

/-- The line with a question mark after the plain type that it ends in. -/
def optionalType (line : List Char) : Except Text.BadOffset (List Char) :=
  match plainTypeEnd.find? (Text.trimEnd line) with
  | none => .ok line
  | some m => replaceAt m.stop 0 ['?'] line

/-- Declare a delegate weak. -/
def weakDelegate (_ : Option Nat) (w : Window) : Attempt Draft := do
  let draft ← Draft.ofLine w "Declare the delegate weak"
    "Delegates normally point back at their owner; a strong reference forms a cycle."
    fun line => do
      Attempt.require (!(wholeOf ["weak", "unowned"]).isIn line)
      let m ← Attempt.of (variableStart.find? line)
      let span ← Attempt.of (m.group? 1)
      let declared ← replaceAt span.stop 0 "weak ".toList line
      optionalType declared
  pure (draft.withAlternative "Bind the protocol to classes"
    "Required before `weak` compiles when the protocol isn't AnyObject-bound" 40 none)

end Mend.Synthesis
