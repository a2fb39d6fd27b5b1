import Mend.Rule.Basic

/-!
# Rules for Flutter
-/

namespace Mend.Flutter

open Pattern

/-- Streams that are listened to for ever. -/
def streamSubscriptionLeak : Rule where
  id := "flutter/stream-subscription-leak"
  title := "Stream subscription never cancelled"
  description :=
    "A stream is listened to but the StreamSubscription is never cancelled, "
    ++ "so the callback keeps the State alive after dispose."
  platforms := [.flutter]
  category := .memoryLeak
  kind := .leak
  detect ctx := .ok <|
    let anyCancel := ctx.has (spaced [".cancel", "(", ")"])
    ((spaced [".listen", "("]).findAll ctx.masked).filterMap fun m =>
      let cancelled := (assignedName? (statementBefore ctx.masked m.start)).any fun name =>
        Text.occurs (name ++ ".cancel(".toList) ctx.masked
          || Text.occurs (name ++ "?.cancel(".toList) ctx.masked
      if cancelled then none
      else some ⟨m.start, if anyCancel then .medium else .high,
        "Stream subscription is never cancelled",
        "Store the StreamSubscription and cancel it in dispose()"⟩

/-- A variable (group 1) that gets a controller (group 2). -/
def newController : Pattern :=
  boundary ++ group 1 word1 ++ gap ++ lit "=" ++ gap
    ++ group 2 (words ["AnimationController", "TextEditingController", "ScrollController",
      "TabController", "PageController", "FocusNode", "StreamController"])
    ++ boundary ++ opt (lit "<" ++ many (noneOf ">\n") ++ lit ">") ++ opt (lit ".broadcast")
    ++ gap ++ lit "("

/-- Controllers that nothing disposes of. -/
def undisposedController : Rule where
  id := "flutter/undisposed-controller"
  title := "Controller never disposed"
  description :=
    "A controller that owns native or ticker resources is created but never "
    ++ "disposed or closed."
  platforms := [.flutter]
  category := .memoryLeak
  kind := .unclosedResource
  detect ctx := .ok <|
    let hasDispose := ctx.has (boundary ++ lit "void" ++ gap1 ++ spaced ["dispose", "(", ")"])
    (newController.findAll ctx.masked).filterMap fun m => do
      let variable' ← m.group? 1
      let name ← m.groupText? 1 ctx.masked
      let type ← m.groupText? 2 ctx.masked
      let closer := if type == "StreamController".toList then "close" else "dispose"
      if Text.occurs (name ++ ("." ++ closer ++ "(").toList) ctx.masked
          || Text.occurs (name ++ ("?." ++ closer ++ "(").toList) ctx.masked then none
      else
        let name := String.ofList name
        some ⟨variable'.start, if hasDispose then .medium else .high,
          String.ofList type ++ " `" ++ name ++ "` is never " ++ closer ++ "d",
          "Call " ++ name ++ "." ++ closer ++ "() in dispose()"⟩

/-! ## State after a pause -/

/-- A line that ends with the opening brace of a function. -/
def functionHeader : Pattern :=
  lit ")" ++ gap ++ opt (lit "async" ++ opt (lit "*") ++ gap) ++ lit "\x7b" ++ gap ++ textEnd

/-- A step that waits. -/
def suspension : Pattern := whole "await" <|> spaced [".then", "("]

/-- A call that sets state. -/
def setStateCall : Pattern := boundary ++ spaced ["setState", "("]

/-- What the walk over the lines remembers. -/
structure Waiting where
  /-- An earlier line of the function waited. -/
  waited : Bool := false
  /-- A line since then looked at `mounted`. -/
  guarded : Bool := false

/-- What is remembered when a line has been entered, before its calls are looked at. -/
def Waiting.enter (w : Waiting) (text : List Char) : Waiting :=
  let w := if functionHeader.isIn text && Text.has text "async" then {} else w
  if (whole "mounted").isIn text then { w with guarded := true } else w

/-- What is remembered when a line has been left. -/
def Waiting.leave (w : Waiting) (text : List Char) : Waiting :=
  if suspension.isIn text then { waited := true, guarded := false } else w

/-- The lines that set state after a pause, with the offset in the line. -/
def lateSetStates : Waiting → List (Nat × List Char) → List (Nat × Nat)
  | _, [] => []
  | w, (line, text) :: rest =>
    let w := w.enter text
    let later := lateSetStates (w.leave text) rest
    match setStateCall.find? text with
    | some m => if w.waited && !w.guarded then (line, m.start) :: later else later
    | none => later

/-- `setState` after an `await` with no look at `mounted` between them. -/
def setStateAfterAwait : Rule where
  id := "flutter/set-state-after-await"
  title := "setState after await"
  description :=
    "setState is called after an await without checking `mounted`; if the "
    ++ "widget was disposed meanwhile this throws."
  platforms := [.flutter]
  category := .raceCondition
  kind := .raceCondition
  detect ctx := .ok <|
    (lateSetStates {} ctx.maskedLines).map fun (line, at') =>
      ⟨ctx.index.lineStart line + at', .high, "setState after await without mounted check",
        "Return early with `if (!mounted) return;` after the await"⟩

/-! ## Operators -/

/-- A value that is asserted not to be null and then used. -/
def nullCheckAccess : Pattern :=
  set (fun c => Text.isWord c || c == ')' || c == ']') ++ lit "!."

/-- A value asserted not to be null. -/
def nullAssertion : Rule where
  id := "dart/null-assertion"
  title := "Null-check operator"
  description := "The null-check operator throws when the value is null at runtime."
  platforms := [.flutter]
  category := .nullSafety
  kind := .nullReference
  detect ctx := assertionDetections ctx (nullCheckAccess.findAll ctx.masked)
    "Null-check operator on a nullable value" "Use ?. and provide a fallback with ??"

/-- A cast to a named type, which is group 1. -/
def cast : Pattern := boundary ++ lit "as" ++ gap1 ++ group 1 (capital ++ many wordChar)

/-- Casts of a value whose type was not tested before. -/
def uncheckedCast : Rule where
  id := "dart/unchecked-cast"
  title := "Unchecked cast"
  description := "A cast with `as` throws a TypeError when the value has another type."
  platforms := [.flutter]
  category := .typeMismatch
  kind := .typeMismatch
  detect ctx := .ok <|
    (cast.findAll ctx.masked).filterMap fun m => do
      let type ← m.groupText? 1 ctx.masked
      let line := ctx.index.lineOf m.start
      let text := Text.trimStart (ctx.maskedLine line)
      if Text.startsWith text "import " || Text.startsWith text "export "
          || ctx.typeTested line 3 line type then none
      else some ⟨m.start, .low, "Unchecked cast to " ++ String.ofList type,
        "Check the type with `is` first, or use a pattern"⟩

/-- The rules, in the order in which they are tried. -/
def rules : List Rule :=
  [streamSubscriptionLeak, undisposedController, setStateAfterAwait, nullAssertion, uncheckedCast]

end Mend.Flutter
