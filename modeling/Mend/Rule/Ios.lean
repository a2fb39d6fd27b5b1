import Mend.Rule.Basic

/-!
# Rules for iOS
-/

namespace Mend.Ios

open Pattern

/-! ## Closures that capture self -/

/-- Calls whose closure is stored or outlives the call. -/
def escapingCalls : List String :=
  ["sink", "subscribe", "observe", "dataTask", "scheduledTimer", "addObserver", "async",
   "asyncAfter", "animate", "then", "done", "onChange", "completion", "completionHandler",
   "handler", "onComplete", "onCompletion", "onSuccess", "onFailure", "callback", "whenComplete",
   "receiveValue", "receiveCompletion"]

/-- Calls whose closure is let go once it has run. -/
def oneShotCalls : List String :=
  ["async", "asyncAfter", "animate", "dataTask", "then", "done", "completion",
   "completionHandler", "onComplete", "onCompletion", "whenComplete"]

/-- Calls whose closure does not outlive the call. -/
def nonEscapingCalls : List String :=
  ["map", "compactMap", "flatMap", "filter", "forEach", "reduce", "sorted", "sort", "first",
   "firstIndex", "contains", "allSatisfy", "min", "max", "removeAll", "sync", "withAnimation"]

/-- The head of a closure, from its brace to the word `in`; group 1 is the capture list. -/
def closureHeader : Pattern :=
  textStart ++ gap ++ opt (lit "[" ++ group 1 (many (noneOf "]")) ++ lit "]" ++ gap)
    ++ (lit "(" ++ many (noneOf ")") ++ lit ")" <|>
      fewest (set fun c => Text.isWord c || Text.isBlank c || c == ','))
    ++ gap ++ opt (lit "throws" ++ gap)
    ++ opt (lit "->" ++ gap
      ++ many1 (set fun c => Text.isWord c || "?<>[]".toList.contains c) ++ gap)
    ++ whole "in"

/-- A label before the brace, which is group 1. -/
def labelBefore : Pattern := boundary ++ group 1 word1 ++ gap ++ lit ":" ++ gap ++ textEnd

/-- A call before the brace; its name is group 1. -/
def callBefore : Pattern :=
  boundary ++ group 1 word1 ++ gap ++ opt (lit "(" ++ many (noneOf "()") ++ lit ")") ++ gap
    ++ textEnd

/-- A capture that does not keep self alive. -/
def weakCapture : Pattern :=
  boundary ++ words ["weak", "unowned"] ++ opt (lit "(" ++ word1 ++ lit ")") ++ gap1
    ++ lit "self" ++ boundary

/-- A use of self. -/
def selfUse : Pattern := boundary ++ spaced ["self", "."]

/-- The name of the call or the label that a brace belongs to. -/
def calleeOf (before : List Char) : String :=
  let named := match labelBefore.find? before with
    | some m => some m
    | none => callBefore.find? before
  match named.bind fun m => m.groupText? 1 before with
  | some name => String.ofList name
  | none => ""

/-- The closure at an opening brace keeps self alive: how bad that is. -/
def strongCapture? (ctx : Context) (opening : Nat) : Option Severity :=
  let line := ctx.index.lineOf opening
  let before := Text.cut (ctx.index.lineStart line) opening ctx.masked
  let head := Text.cut (opening + 1) (max (ctx.index.lineRange line).2 (opening + 1)) ctx.masked
  let params := closureHeader.find? head
  let callee := calleeOf before
  if Text.startsWith (Text.trimStart head) "for "
      || (params.isNone && !escapingCalls.contains callee)
      || nonEscapingCalls.contains callee
      || weakCapture.isIn ((params.bind fun m => m.groupText? 1 head).getD []) then none
  else
    match Text.matchingClose ctx.masked opening with
    | none => none
    | some close =>
      if selfUse.isIn (Text.cut (opening + 1) close ctx.masked) then
        some (if oneShotCalls.contains callee then .low else .high)
      else none

/-- Closures that outlive a call and keep self alive. -/
def strongSelfCapture : Rule where
  id := "swift/strong-self-capture"
  title := "Strong self capture"
  description :=
    "An escaping closure captures self strongly; if self also owns the closure "
    ++ "(directly or through a subscription) neither is ever freed."
  platforms := [.ios]
  category := .retainCycle
  kind := .retainCycle
  detect ctx := .ok <|
    -- A value type forms no cycle through self.
    if !ctx.has (boundary ++ lit "class" ++ gap1 ++ wordChar) then []
    else (Text.offsetsOf (· == '\x7b') ctx.masked).filterMap fun opening =>
      (strongCapture? ctx opening).map fun severity =>
        ⟨opening, severity, "Closure captures self strongly",
          "Capture [weak self] and unwrap it inside the closure"⟩

/-! ## Delegates -/

/-- The words that may stand before a property. -/
def propertyModifiers : Pattern :=
  many (words ["public", "private", "internal", "fileprivate", "open", "final", "@objc"] ++ gap1)

/-- A delegate or data source (group 1) with its type (group 2). -/
def delegateProperty : Pattern :=
  lineStart ++ many (anyOf " \t") ++ propertyModifiers ++ lit "var" ++ gap1
    ++ group 1 (many wordChar
      ++ (anyOf "dD" ++ lit "elegate" <|> anyOf "dD" ++ lit "ataSource"))
    ++ gap ++ lit ":" ++ gap ++ group 2 (many1 (set fun c => Text.isWord c || c == '.'))

/-- A protocol with a name that values can conform to. -/
def valueProtocol (name : List Char) : Pattern :=
  boundary ++ lit "protocol" ++ gap1 ++ litChars name ++ gap
    ++ (lit "\x7b" <|>
      lit ":" ++ gap ++ words ["Equatable", "Hashable", "Codable"] ++ boundary)

/-- Delegates that are kept alive. -/
def strongDelegate : Rule where
  id := "swift/strong-delegate"
  title := "Strong delegate reference"
  description :=
    "A delegate or data source property is a strong reference; the delegate "
    ++ "usually owns this object, which closes a retain cycle."
  platforms := [.ios]
  category := .retainCycle
  kind := .retainCycle
  detect ctx := .ok <|
    (delegateProperty.findAll ctx.masked).filterMap fun m => do
      let place ← m.group? 1
      let name ← m.groupText? 1 ctx.masked
      let type ← m.groupText? 2 ctx.masked
      pure ⟨place.start, if ctx.has (valueProtocol type) then .low else .medium,
        "Strong reference to `" ++ String.ofList name ++ "`", "Declare the property weak"⟩

/-! ## Observers and timers -/

/-- An observer is added; group 1 tells a block observer from a selector observer. -/
def addObserver : Pattern :=
  boundary ++ spaced ["NotificationCenter.default.addObserver", "("] ++ gap
    ++ opt (group 1 (lit "forName" ++ boundary <|> lit "self" ++ boundary))

/-- Observers and repeating timers that nothing stops. -/
def observerLeak : Rule where
  id := "swift/observer-leak"
  title := "Observer or timer never removed"
  description :=
    "A notification observer or repeating timer is registered and never "
    ++ "removed or invalidated."
  platforms := [.ios]
  category := .memoryLeak
  kind := .leak
  detect ctx := .ok <|
    let observers :=
      if ctx.has (boundary ++ spaced ["removeObserver", "("]) then []
      else (addObserver.findAll ctx.masked).map fun m =>
        -- The system lets go of selector observers by itself.
        let bySelector := m.groupText? 1 ctx.masked == some "self".toList
        ⟨m.start, if bySelector then .low else .high, "Notification observer is never removed",
          "Keep the token and remove it in deinit"⟩
    let timers :=
      if ctx.has (spaced [".invalidate", "(", ")"]) then []
      else
        let starts := (boundary ++ spaced ["Timer.scheduledTimer", "("]).findAll ctx.masked
        starts.filterMap fun m => do
          let opening := m.stop - 1
          let close ← Text.matchingClose ctx.masked opening
          if (spaced ["repeats", ":", "true"]).isIn (Text.cut opening close ctx.masked) then
            some ⟨m.start, .high, "Repeating timer is never invalidated",
              "Invalidate the timer in deinit or viewWillDisappear"⟩
          else none
    observers ++ timers

/-! ## Operators -/

/-- A value that is unwrapped by force and then used. -/
def forcedAccess : Pattern :=
  set (fun c => Text.isWord c || c == ')' || c == ']') ++ lit "!."

/-- Values unwrapped by force. -/
def forceUnwrap : Rule where
  id := "swift/force-unwrap"
  title := "Force unwrap"
  description := "Force-unwrapping an optional crashes the app when it is nil."
  platforms := [.ios]
  category := .nullSafety
  kind := .nullReference
  detect ctx :=
    let found := (forcedAccess.findAll ctx.masked).filter fun m =>
      !Text.endsWith (Text.cut 0 m.stop ctx.masked) "try!."
    assertionDetections ctx found "Force unwrap of an optional"
      "Use optional chaining or guard let"

/-- A forced cast; its type is group 1. -/
def castByForce : Pattern :=
  boundary ++ lit "as!" ++ gap ++ group 1 (many1 (set fun c => Text.isWord c || c == '.'))

/-- Forced casts. -/
def forcedCast : Rule where
  id := "swift/forced-cast"
  title := "Forced cast"
  description := "A forced downcast crashes when the value has a different runtime type."
  platforms := [.ios]
  category := .typeMismatch
  kind := .typeMismatch
  detect ctx := .ok <|
    (castByForce.findAll ctx.masked).filterMap fun m => do
      let type ← m.groupText? 1 ctx.masked
      let line := ctx.index.lineOf m.start
      pure ⟨m.start, if ctx.typeTested line 3 (line - 1) type then .low else .medium,
        "Forced cast to " ++ String.ofList type, "Use as? and handle the failed cast"⟩

/-! ## Threads -/

/-- Arguments in parentheses. -/
def arguments : Pattern := lit "(" ++ many (noneOf ")") ++ lit ")"

/-- Work that leaves the main thread. -/
def backgroundOpener : Pattern :=
  boundary ++ lit "DispatchQueue.global" ++ gap ++ arguments ++ gap ++ lit ".async" ++ gap
      ++ opt arguments ++ gap ++ lit "\x7b" <|>
    lit ".dataTask" ++ gap ++ arguments ++ gap ++ lit "\x7b"

/-- Work that comes back to the main thread. -/
def mainOpener : Pattern :=
  boundary ++ lit "DispatchQueue.main." ++ words ["async", "sync"] ++ many wordChar ++ gap
      ++ opt arguments ++ gap ++ lit "\x7b" <|>
    boundary ++ spaced ["MainActor.run", "\x7b"]

/-- A change to what is on the screen. -/
def screenUpdate : Pattern :=
  lit "." ++ words ["reloadData", "setNeedsLayout", "layoutIfNeeded", "setNeedsDisplay",
        "addSubview", "removeFromSuperview", "present", "dismiss", "pushViewController", "setTitle",
        "setImage"] ++ gap ++ lit "(" <|>
    lit "." ++ words ["text", "isHidden", "image", "alpha", "backgroundColor", "textColor",
        "isEnabled", "title", "attributedText"] ++ gap ++ lit "=" ++ noneOf "="

/-- Changes to the screen off the main thread. -/
def backgroundUiUpdate : Rule where
  id := "swift/background-ui-update"
  title := "UIKit update off the main thread"
  description :=
    "UIKit state is changed from a background queue. UIKit is main-thread "
    ++ "only; this races with layout and can crash."
  platforms := [.ios]
  category := .raceCondition
  kind := .raceCondition
  detect ctx := .ok <|
    let main := ctx.blocksAfter mainOpener 0
    let updates := (ctx.blocksAfter backgroundOpener 0).flatMap fun block =>
      (screenUpdate.findAll (ctx.bodyOf block)).map fun m => block.body.start + m.start
    (oncePerLine ctx.index 0 (updates.filter fun at' => !insideAny main at')).map fun at' =>
      ⟨at', .high, "UI updated off the main thread",
        "Wrap the UI update in DispatchQueue.main.async"⟩

/-- The rules, in the order in which they are tried. -/
def rules : List Rule :=
  [strongSelfCapture, strongDelegate, observerLeak, forceUnwrap, forcedCast, backgroundUiUpdate]

end Mend.Ios
