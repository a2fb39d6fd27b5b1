import Mend.Rule.Basic

/-!
# Rules for React and React Native

Most of these rules reason about effects: a `useEffect` whose function has a block for its body. A
`return` with a value at the top level of that block is taken for a cleanup function.
-/

namespace Mend.React

open Pattern

/-! ## Effects -/

/-- The start of an effect, up to the brace that opens its body. -/
def effectOpener : Pattern :=
  boundary ++ lit "use" ++ opt (lit "Layout") ++ lit "Effect" ++ gap ++ lit "(" ++ gap
    ++ opt (lit "async" ++ gap) ++ (spaced ["(", ")", "=>"] <|> spaced ["function", "(", ")"])
    ++ gap ++ lit "\x7b"

/-- The effects of a file. -/
def effects (ctx : Context) : List Block := ctx.blocksAfter effectOpener 0

/-- A brace, or a `return` with the first character of its value as group 1. -/
def braceOrReturn : Pattern :=
  anyOf "\x7b\x7d" <|>
    whole "return" ++ gap
      ++ opt (group 1 (set fun c => !Text.isBlank c && c != ';' && c != '\x7d'))

/-- Some match in the list is a `return` with a value at depth zero. -/
def returnsAtTop (body : List Char) : Int → List Match → Bool
  | _, [] => false
  | depth, m :: ms =>
    if m.text body == ['\x7b'] then returnsAtTop body (depth + 1) ms
    else if m.text body == ['\x7d'] then returnsAtTop body (depth - 1) ms
    else (depth == 0 && (m.group? 1).isSome) || returnsAtTop body depth ms

/-- The body of an effect returns something at its top level. -/
def hasCleanupReturn (body : List Char) : Bool :=
  returnsAtTop body 0 (braceOrReturn.findAll body)

/-- What starts something that has to be stopped. -/
def producer : Pattern :=
  oneOf [
    spaced [".subscribe", "("],
    boundary ++ spaced ["addEventListener", "("],
    boundary ++ spaced ["setInterval", "("],
    spaced [".addListener", "("],
    spaced [".on", "("] ++ gap ++ anyOf "'\"",
    boundary ++ lit "new" ++ gap1 ++ words ["WebSocket", "EventSource"] ++ gap ++ lit "(",
    spaced [".watchPosition", "("]]

/-- An effect that starts something and returns no cleanup. -/
def effectSubscriptionLeak : Rule where
  id := "react/effect-subscription-leak"
  title := "Effect without cleanup"
  description :=
    "An effect starts a subscription, listener or interval but returns no cleanup "
    ++ "function, so it keeps running after the component unmounts."
  platforms := Platform.react
  category := .memoryLeak
  kind := .leak
  detect ctx := .ok <|
    (effects ctx).filterMap fun block =>
      let body := ctx.bodyOf block
      if producer.isIn body && !hasCleanupReturn body then
        some ⟨block.start, if block.closed then .high else Severity.high.downgrade,
          "Effect subscribes without cleanup",
          "Return a cleanup function that unsubscribes or removes the listener"⟩
      else none

/-! ## State -/

/-- A step that waits. -/
def suspension : Pattern := whole "await" <|> spaced [".then", "("]

/-- A call that sets state. -/
def setter : Pattern := boundary ++ lit "set" ++ capital ++ many wordChar ++ gap ++ lit "("

/-- A word that shows that late results are looked after. -/
def mitigation : Pattern :=
  wholeOf ["AbortController", "signal", "cancelled", "canceled", "isMounted", "mounted",
    "unmounted", "ignore", "isActive", "active", "stale"]

/-- An effect that sets state after it has waited. -/
def unguardedAsyncState : Rule where
  id := "react/unguarded-async-state"
  title := "Unguarded async state update"
  description :=
    "An effect sets state after an asynchronous step without checking that the "
    ++ "component is still mounted or that the request is still current."
  platforms := Platform.react
  category := .raceCondition
  kind := .raceCondition
  detect ctx := .ok <|
    (effects ctx).filterMap fun block =>
      let body := ctx.bodyOf block
      match suspension.find? body with
      | none => none
      | some first =>
        if setter.isIn (Text.after first.stop body) && !mitigation.isIn body then
          some ⟨block.start, .medium, "State set after async work without a mounted guard",
            "Track a cancelled flag flipped in the effect cleanup, or abort the request"⟩
        else none

/-- The state of a component and one of its fields. -/
def stateField : Pattern := boundary ++ lit "this.state." ++ many1 nameChar

/-- An assignment into the state. -/
def stateAssignment : Pattern :=
  stateField ++ many (lit "." ++ many1 nameChar <|> lit "[" ++ many (noneOf "]\n") ++ lit "]")
    ++ gap ++ oneOf [opt (anyOf "-+*/") ++ lit "=" ++ noneOf "=", lit "++", lit "--"]

/-- A call that changes a list of the state in place. -/
def stateInPlace : Pattern :=
  stateField ++ lit "."
    ++ words ["push", "pop", "splice", "shift", "unshift", "sort", "reverse", "fill"]
    ++ gap ++ lit "("

/-- The start of a constructor, up to the brace that opens its body. -/
def constructorOpener : Pattern :=
  boundary ++ spaced ["constructor", "("] ++ many (noneOf ")") ++ spaced [")", "\x7b"]

/-- Sorted offsets without repetition. -/
def sortedOffsets (offsets : List Nat) : List Nat :=
  (offsets.mergeSort fun a b => a ≤ b).eraseReps

/-- State that is changed in place, outside the constructor. -/
def directStateMutation : Rule where
  id := "react/direct-state-mutation"
  title := "Direct state mutation"
  description :=
    "Component state is mutated in place instead of through setState, so React "
    ++ "does not re-render and later updates may overwrite the change."
  platforms := Platform.react
  category := .stateInconsistency
  kind := .stateInconsistency
  detect ctx := .ok <|
    let constructors := ctx.blocksAfter constructorOpener 0
    let starts := (stateAssignment.findAll ctx.masked ++ stateInPlace.findAll ctx.masked).map
      Match.start
    (sortedOffsets (starts.filter fun at' => !insideAny constructors at')).map fun at' =>
      ⟨at', .high, "State mutated directly", "Use this.setState with a new value"⟩

/-! ## Listeners -/

/-- A listener is added; group 1 is a target that outlives every component. -/
def addListener : Pattern :=
  boundary ++ opt (group 1 (words ["window", "document"]) ++ lit ".")
    ++ spaced ["addEventListener", "("]

/-- Listeners and intervals outside effects that nothing removes. -/
def listenerLeak : Rule where
  id := "react/listener-leak"
  title := "Listener never removed"
  description :=
    "A listener or interval is registered (typically in componentDidMount) and "
    ++ "never removed, so it outlives the component."
  platforms := Platform.react
  category := .memoryLeak
  kind := .leak
  detect ctx := .ok <|
    let effects := effects ctx
    let isComponent := ctx.has (whole "componentDidMount")
    let listeners :=
      if ctx.has (boundary ++ spaced ["removeEventListener", "("]) then []
      else (addListener.findAll ctx.masked).filterMap fun m =>
        if insideAny effects m.start then none
        else
          let severity := if (m.group? 1).isSome then Severity.high else Severity.medium
          some ⟨m.start, if isComponent then severity else severity.downgrade,
            "Event listener is never removed",
            "Call removeEventListener in componentWillUnmount"⟩
    let intervals :=
      if ctx.has (boundary ++ spaced ["clearInterval", "("]) then []
      else ((boundary ++ spaced ["setInterval", "("]).findAll ctx.masked).filterMap fun m =>
        if insideAny effects m.start then none
        else some ⟨m.start, if isComponent then .high else .medium, "Interval is never cleared",
          "Keep the interval id and clearInterval it on unmount"⟩
    listeners ++ intervals

/-- A module of the platform gets a listener. -/
def nativeListener : Pattern :=
  boundary
    ++ words ["Keyboard", "AppState", "Dimensions", "DeviceEventEmitter", "BackHandler", "Linking",
      "NetInfo", "AccessibilityInfo"]
    ++ lit "." ++ words ["addListener", "addEventListener"] ++ gap ++ lit "("

/-- Listeners of platform modules outside effects that nothing removes. -/
def nativeListenerLeak : Rule where
  id := "react-native/native-listener-leak"
  title := "Native listener never removed"
  description :=
    "A native module listener (Keyboard, AppState, Dimensions...) is added and "
    ++ "the returned subscription is never removed."
  platforms := [.reactNative]
  category := .memoryLeak
  kind := .leak
  detect ctx := .ok <|
    let effects := effects ctx
    let anyRemoval := ctx.has
      (spaced [".remove", "(", ")"] <|>
        boundary ++ lit "remove" ++ opt (lit "Event") ++ spaced ["Listener", "("])
    (nativeListener.findAll ctx.masked).filterMap fun m =>
      let removed := (assignedName? (statementBefore ctx.masked m.start)).any fun name =>
        Text.occurs (name ++ ".remove(".toList) ctx.masked
      if insideAny effects m.start || removed then none
      else some ⟨m.start, if anyRemoval then .medium else .high,
        "Native listener is never removed", "Keep the subscription and call .remove() on unmount"⟩

/-! ## Operators -/

/-- A value that is asserted not to be null and then used. -/
def nonNullAccess : Pattern :=
  set (fun c => Text.isWord c || c == '$' || c == ')' || c == ']') ++ lit "!."

/-- A value asserted not to be null. -/
def nonNullAssertion : Rule where
  id := "ts/non-null-assertion"
  title := "Non-null assertion"
  description :=
    "A non-null assertion dereferences a value the type system says may be null "
    ++ "or undefined; at runtime this throws a TypeError."
  platforms := Platform.react
  languages := some [.typeScript]
  category := .nullSafety
  kind := .nullReference
  detect ctx := assertionDetections ctx (nonNullAccess.findAll ctx.masked)
    "Non-null assertion on a possibly-null value"
    "Use optional chaining (?.) and handle the undefined case"

/-- A comparison that converts types; group 1 is the operator. -/
def looseOperator : Pattern :=
  (textStart <|> noneOf "=!<>") ++ group 1 (words ["==", "!="]) ++ (noneOf "=" <|> textEnd)

/-- What may follow a loose comparison on purpose. -/
def looseOnPurpose : Pattern :=
  textStart ++ gap ++ words ["null", "undefined"] ++ boundary <|>
    textStart ++ gap ++ lit "typeof" ++ boundary

/-- Comparisons that convert types. -/
def looseEquality : Rule where
  id := "js/loose-equality"
  title := "Loose equality"
  description :=
    "Loose equality coerces operand types before comparing, so values of "
    ++ "different types can compare equal."
  platforms := Platform.react
  category := .typeMismatch
  kind := .typeMismatch
  detect ctx := .ok <|
    (looseOperator.findAll ctx.masked).filterMap fun m => do
      let operator ← m.group? 1
      let left := Text.cut (ctx.index.lineStart (ctx.index.lineOf operator.start)) operator.start
        ctx.masked
      if looseOnPurpose.isIn (Text.after operator.stop ctx.masked) || Text.has left "typeof "
          || Text.endsWith (Text.trimEnd left) "null" then none
      else
        let written := String.ofList (Text.cut operator.start operator.stop ctx.masked)
        some ⟨operator.start, .low, "Loose equality `" ++ written ++ "`", "Use strict equality"⟩

/-- The rules, in the order in which they are tried. -/
def rules : List Rule :=
  [effectSubscriptionLeak, unguardedAsyncState, directStateMutation, listenerLeak,
   nonNullAssertion, looseEquality, nativeListenerLeak]

end Mend.React
