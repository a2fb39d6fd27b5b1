import Mend.Rule.React
import Mend.Synthesis.Draft

/-!
# Mending effects

These templates change an effect that starts on the focus line and ends inside the window. One adds
a cleanup function that undoes what the effect starts; the other adds a flag that keeps late results
from setting state.
-/

namespace Mend.Synthesis

open Pattern

/-- An effect that starts on the focus line. Offsets are into the window's text from that line
on. -/
structure Effect where
  tail : List Char
  masked : List Char
  /-- The offset of the brace that opens the body. -/
  opening : Nat
  /-- The offset of the brace that closes it. -/
  close : Nat
  /-- The line of the closing brace; the focus line is line one. -/
  closeLine : Nat

namespace Effect

/-- The effect on the focus line. -/
def at? (w : Window) : Attempt Effect := do
  let tail ← Attempt.of (w.tailFrom? w.focus)
  let masked := Text.Mask.mask w.language tail
  let opener ← Attempt.of (React.effectOpener.find? masked)
  let front ← Text.before opener.start masked
  Attempt.require (!front.contains '\n')
  let opening := opener.stop - 1
  let close ← Attempt.of (Text.matchingClose masked opening)
  pure { tail, masked, opening, close, closeLine := (Text.LineIndex.of tail).lineOf close }

/-- The masked text of the body. -/
def body (e : Effect) : Except Text.BadOffset (List Char) :=
  Text.between (e.opening + 1) e.close e.masked

/-- The source of the body. -/
def bodySource (e : Effect) : Except Text.BadOffset (List Char) :=
  Text.between (e.opening + 1) e.close e.tail

/-- The lines of the effect, from the focus line to the closing brace. -/
def lines? (e : Effect) (w : Window) : Option (List (List Char)) :=
  w.span? w.focus (w.focus + e.closeLine - 1)

/-- The lines of the effect, and the same lines with a statement before the closing brace: on a line
of its own where the brace starts its line, else on the brace's line. -/
def insertBeforeClose (e : Effect) (w : Window) (statement : List Char) :
    Attempt (List (List Char) × List (List Char)) := do
  let replaced ← Attempt.of (e.lines? w)
  let last ← Attempt.of replaced.getLast?
  let column := e.close - (Text.LineIndex.of e.tail).lineStart e.closeLine
  let front ← Text.before column last
  let back ← Text.onward column last
  if 1 < e.closeLine && front.all Text.isBlank then
    let indent := (bodyIndent? (replaced.dropLast.drop 1)).getD (front ++ [' ', ' '])
    pure (replaced, replaced.dropLast ++ [indent ++ statement, last])
  else
    pure (replaced,
      replaced.dropLast ++ [Text.trimEnd front ++ [' '] ++ statement ++ [' '] ++ back])

end Effect

/-! ## Cleanup -/

/-- A name or a chain of names. -/
def chain : Pattern := many1 (set fun c => Text.isWord c || c == '.')

/-- The start of a declaration, up to the value; group 1 is the name. -/
def declaration : Pattern :=
  boundary ++ words ["const", "let", "var"] ++ gap1 ++ group 1 word1 ++ gap ++ lit "=" ++ gap

/-- What is started and kept under a name, with the call that stops it given the text of groups 1
and 2. -/
def keptProducers : List (Pattern × (List Char → List Char → List Char)) :=
  [(declaration ++ fewest (noneOf ";=") ++ spaced [".subscribe", "("],
      fun name _ => name ++ ".unsubscribe()".toList),
    (declaration ++ spaced ["setInterval", "("],
      fun name _ => "clearInterval(".toList ++ name ++ [')']),
    (declaration ++ chain ++ spaced [".addListener", "("],
      fun name _ => name ++ ".remove()".toList),
    (declaration ++ lit "new" ++ gap1 ++ words ["WebSocket", "EventSource"] ++ gap ++ lit "(",
      fun name _ => name ++ ".close()".toList),
    (declaration ++ group 2 chain ++ spaced [".watchPosition", "("],
      fun name owner => owner ++ ".clearWatch(".toList ++ name ++ [')'])]

/-- The calls that stop what a body keeps under names, with the offsets of the declarations. -/
def keptCleanups (masked : List Char) : List (Nat × List Char) :=
  keptProducers.flatMap fun (producer, stop) =>
    (producer.findAll masked).map fun m =>
      (m.start, stop ((m.groupText? 1 masked).getD []) ((m.groupText? 2 masked).getD []))

/-- A listener that is added; group 1 is the target and group 2 the method. -/
def listener : Pattern :=
  group 1 chain ++ lit "." ++ group 2 (words ["addEventListener", "on"]) ++ gap ++ lit "("

/-- The call that removes a listener, with the offset of the match. A handler that is written on the
spot cannot be removed. -/
def listenerCleanup (masked source : List Char) (m : Match) : Attempt (Nat × List Char) := do
  let opening := m.stop - 1
  let close ← Attempt.of (Text.matchingClose masked opening)
  let arguments ← Text.between (opening + 1) close masked
  Attempt.require !(Text.has arguments "=>" || (whole "function").isIn arguments)
  let target ← Attempt.of (m.groupText? 1 masked)
  let method ← Attempt.of (m.groupText? 2 masked)
  let remover ←
    if method == "on".toList then do
      let rest ← Text.onward (opening + 1) source
      let first := (Text.trimStart rest).head?
      Attempt.require (first == some '\'' || first == some '"')
      pure ".off(".toList
    else pure ".removeEventListener(".toList
  let written ← Text.between (opening + 1) close source
  pure (m.start, target ++ remover ++ Text.trim written ++ [')'])

/-- The calls that undo what an effect starts, in the order of the starts and each once. -/
def cleanupCalls (e : Effect) : Except Text.BadOffset (List (List Char)) := do
  let masked ← e.body
  let source ← e.bodySource
  let removed ← (listener.findAll masked).filterMapM fun m => (listenerCleanup masked source m).run
  let found := (keptCleanups masked ++ removed).mergeSort fun a b => a.1 ≤ b.1
  pure (found.foldl (fun calls c => if calls.contains c.2 then calls else calls ++ [c.2]) [])

/-- The statement that returns a cleanup function. -/
def cleanupStatement? : List (List Char) → Option (List Char)
  | [] => none
  | [call] => some ("return () => ".toList ++ call ++ [';'])
  | calls =>
    some ("return () => \x7b ".toList ++ List.intercalate [';', ' '] calls ++ "; \x7d;".toList)

/-- Return a cleanup function from an effect. -/
def effectCleanup (_ : Option Nat) (w : Window) : Attempt Draft := do
  let effect ← Effect.at? w
  let calls ← cleanupCalls effect
  let statement ← Attempt.of (cleanupStatement? calls)
  let (replaced, suggested) ← effect.insertBeforeClose w statement
  let draft : Draft := {
    firstLine := w.focus, replaced, suggested
    title := "Return a cleanup function from the effect"
    description := "The effect's teardown now undoes what the effect started, so nothing keeps "
      ++ "firing after the component unmounts or the dependencies change." }
  pure (draft.withAlternative "Move the subscription into a custom hook"
    "Reusable and testable, but a larger refactor than a one-line cleanup" 40 none)

/-! ## Late results -/

/-- A call that sets state; group 1 is the call. -/
def setterCall : Pattern :=
  group 1 (lit "set" ++ capital ++ many wordChar ++ gap ++ lit "(")

/-- Where a line sets state, and what has to stand before that. -/
def setterAt? (masked : List Char) : Option (Nat × List Char) :=
  match (textStart ++ gap ++ setterCall).find? masked with
  | some m => (m.group? 1).map fun span => (span.start, "if (!cancelled) ".toList)
  | none =>
    ((spaced ["=>"] ++ gap ++ setterCall).find? masked).bind fun m =>
      (m.group? 1).map fun span => (span.start, "!cancelled && ".toList)

/-- Guard the setters of the lines after the first suspension. The lines come with their masked
text; the count is the number of guards. -/
def guardSetters : Bool → List (List Char × List Char) →
    Except Text.BadOffset (Nat × List (List Char))
  | _, [] => .ok (0, [])
  | waited, (line, masked) :: rest => do
    let waited := waited || React.suspension.isIn masked
    match waited, setterAt? masked with
    | true, some (at', guard) =>
      let front ← Text.before at' line
      let back ← Text.onward at' line
      let (n, lines) ← guardSetters waited rest
      pure (n + 1, (front ++ guard ++ back) :: lines)
    | _, _ =>
      let (n, lines) ← guardSetters waited rest
      pure (n, line :: lines)

/-- Ignore results that arrive after an effect was cleaned up. -/
def effectMountGuard (_ : Option Nat) (w : Window) : Attempt Draft := do
  let effect ← Effect.at? w
  let body ← effect.body
  Attempt.require (3 ≤ effect.closeLine && !React.hasCleanupReturn body)
  let replaced ← Attempt.of (effect.lines? w)
  let first ← Attempt.of replaced.head?
  let last ← Attempt.of replaced.getLast?
  Attempt.require (Text.startsWith (Text.trimStart last) "\x7d")
  let inner := replaced.dropLast.drop 1
  let indent := (bodyIndent? inner).getD (Text.indentation last ++ [' ', ' '])
  let masks := (Text.rows effect.masked).drop 1
  let (guards, lines) ← guardSetters false
    (inner.zipIdx.map fun (line, i) => (line, masks[i]?.getD []))
  Attempt.require (0 < guards)
  let suggested := [first, indent ++ "let cancelled = false;".toList] ++ lines
    ++ [indent ++ "return () => \x7b cancelled = true; \x7d;".toList, last]
  let draft : Draft := {
    firstLine := w.focus, replaced, suggested
    title := "Ignore results that arrive after unmount"
    description := "A `cancelled` flag flipped by the effect cleanup stops late async results "
      ++ "from setting state on an unmounted or re-rendered component." }
  pure (draft.withAlternative "Abort the request with an AbortController"
    "Also stops the network work, but only for APIs that accept a signal" 40 none)

end Mend.Synthesis
