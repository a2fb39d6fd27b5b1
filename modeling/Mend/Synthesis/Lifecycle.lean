import Mend.Synthesis.Draft

/-!
# Mending where and when an update runs

These templates change the focus line so that an update goes through the framework, runs on the
right thread, or stops with its owner.
-/

namespace Mend.Synthesis

open Pattern

/-- The text of a group, or nothing. -/
def captured (m : Match) (i : Nat) (s : List Char) : List Char := (m.groupText? i s).getD []

/-- A direct write to component state: indentation, field and value. -/
def stateWrite : Pattern :=
  textStart ++ group 1 gap ++ lit "this.state." ++ group 2 word1 ++ gap ++ lit "=" ++ gap
    ++ group 3 (noneOf "=" ++ fewest inLine) ++ gap ++ opt (lit ";") ++ gap ++ textEnd

/-- Write state through the component. -/
def setStateCall (_ : Option Nat) (w : Window) : Attempt Draft :=
  Draft.ofLine w "Update state through setState"
    ("Direct writes to `this.state` don't trigger a re-render and can be overwritten "
      ++ "by the next setState.")
    fun line => do
      let m ← Attempt.of (stateWrite.find? line)
      pure (captured m 1 line ++ "this.setState(\x7b ".toList ++ captured m 2 line ++ [':', ' ']
        ++ captured m 3 line ++ " \x7d);".toList)

/-- Set state only while the widget is there. -/
def mountedGuard (_ : Option Nat) (w : Window) : Attempt Draft := do
  let line ← Attempt.of w.focusText?
  let statement := Text.trimStart line
  Attempt.require (Text.startsWith statement "setState(")
  let indent := Text.indentation line
  let draft : Draft := {
    firstLine := w.focus
    replaced := [line]
    suggested := [indent ++ "if (!mounted) return;".toList, line]
    title := "Check mounted before setState"
    description := "The widget may have been disposed while the future was pending." }
  pure (draft.withAlternative "Guard only the setState call"
    "Lets the rest of the method run after dispose" 50
    (some (indent ++ "if (mounted) ".toList ++ statement)))

/-- An assignment to the value of live data: owner, value and semicolon. -/
def valueWrite : Pattern :=
  textStart ++ group 1 word1 ++ lit ".value" ++ gap ++ lit "=" ++ gap
    ++ group 2 (fewest1 inLine) ++ gap ++ group 3 (opt (lit ";")) ++ gap ++ textEnd

/-- A call that sets the value of live data; group 1 is the owner. -/
def valueCall : Pattern := textStart ++ group 1 word1 ++ lit ".setValue" ++ gap ++ lit "("

/-- Hand an update of live data to the main thread. -/
def liveDataPostValue (column : Option Nat) (w : Window) : Attempt Draft := do
  let at' ← Attempt.of (offsetOf? column)
  Draft.ofLine w "Use postValue off the main thread"
    ("`postValue` hands the update to the main thread; "
      ++ "`setValue` asserts it is already there.")
    fun line => do
      let rest ← Attempt.of (Text.from? at' line)
      let front ← Text.before at' line
      match valueWrite.find? rest with
      | some m =>
        pure (front ++ captured m 1 rest ++ ".postValue(".toList ++ captured m 2 rest ++ [')']
          ++ captured m 3 rest)
      | none =>
        let m ← Attempt.of (valueCall.find? rest)
        pure (front ++ captured m 1 rest ++ ".postValue(".toList ++ Text.after m.stop rest)

/-- Tie a coroutine to its owner. -/
def lifecycleScope (column : Option Nat) (w : Window) : Attempt Draft := do
  let at' ← Attempt.of (offsetOf? column)
  let line ← Attempt.of w.focusText?
  let rest ← Attempt.of (Text.from? at' line)
  Attempt.require (Text.startsWith rest "GlobalScope.")
  let front ← Text.before at' line
  let inScope (scope : String) := front ++ scope.toList ++ ['.'] ++ rest.drop "GlobalScope.".length
  let draft ← Draft.ofLine w "Launch in lifecycleScope"
    "The coroutine is cancelled when the owner is destroyed instead of outliving it."
    fun _ => pure (inScope "lifecycleScope")
  pure (draft.withAlternative "Launch in viewModelScope"
    "Survives configuration changes, but only inside a ViewModel" 65
    (some (inScope "viewModelScope")))

/-- A dispatcher for work off the main thread. -/
def backgroundDispatcher : Pattern := lit "Dispatchers." ++ words ["IO", "Default"]

/-- The statement wrapped so that it runs on the main thread. -/
def onMainThread? (w : Window) (statement : List Char) : Option (List Char) :=
  match w.language with
  | .swift => some ("DispatchQueue.main.async \x7b ".toList ++ statement ++ " \x7d".toList)
  | .kotlin =>
    let opener :=
      if w.lines.any backgroundDispatcher.isIn then "withContext(Dispatchers.Main) \x7b "
      else "runOnUiThread \x7b "
    some (opener.toList ++ statement ++ " \x7d".toList)
  | .java =>
    some ("runOnUiThread(() -> ".toList
      ++ Text.trimEnd (Text.dropEndWhile (· == ';') statement) ++ ");".toList)
  | _ => none

/-- Move an update of the screen to the main thread. -/
def mainThreadDispatch (_ : Option Nat) (w : Window) : Attempt Draft := do
  let line ← Attempt.of w.focusText?
  let statement := Text.trim line
  Attempt.require
    (!statement.isEmpty && !statement.contains '\x7b' && !statement.contains '\x7d')
  let wrapped ← Attempt.of (onMainThread? w statement)
  let draft : Draft := {
    firstLine := w.focus
    replaced := [line]
    suggested := [Text.indentation line ++ wrapped]
    title := "Hop to the main thread for the UI update"
    description := "UI toolkits are single-threaded; the update is posted to the main thread." }
  pure <|
    if w.language = .swift then
      draft.withAlternative "Annotate the method @MainActor"
        "Compiler-checked, but every caller must be async-aware" 45 none
    else draft

end Mend.Synthesis
