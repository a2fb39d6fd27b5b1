import Mend.Proofs.Checked.Draft
import Mend.Proofs.Synthesis.Brackets
import Mend.Proofs.Synthesis.Insertions
import Mend.Synthesis.Template

/-!
# Templates for one line, with every access checked

These templates cut the focus line at a column that was noted when the line may have been another
one, or where a pattern matched. A column is only used if the line has the operator there, which a
bad offset rules out, and matches start and stop at good offsets. So none of the cuts is refused.
Where a template takes part of a line without a cut, or the text of a group that may be missing,
it is written once more here with that access checked.
-/

namespace Mend

namespace Text

variable {s : List Char} {n lo hi : Nat}

theorem Good.mono {t : List Char} (h : Good s n) (hstart : s <+: t) : Good t n := by
  obtain ⟨front, back, rfl, hn⟩ := h
  obtain ⟨later, rfl⟩ := hstart
  exact ⟨front, back ++ later, List.append_assoc _ _ _, hn⟩

end Text

namespace Checked.Synthesis

open Mend.Synthesis
open Attempt (gives_of)
open Text (BadOffset Good)

variable (column : Option Nat) (w : Window)

/-! ## Operators -/

/-- Cast only if the value has the type, in Kotlin. -/
def conditionalCastKotlin (column : Option Nat) (w : Window) : Attempt Draft := do
  Attempt.require (w.language = .kotlin)
  let at' ← Attempt.of (offsetOf? column)
  let draft ← Draft.ofLine w "Use a safe cast"
    "`as?` yields null on a type mismatch instead of throwing ClassCastException."
    fun line => do
      let rest ← Attempt.of (Text.from? at' line)
      Attempt.require (Text.startsWith rest "as")
      let later ← Text.onward 2 rest
      Attempt.require (later.head?.any Text.isBlank)
      let front ← Text.before at' line
      pure (front ++ "as?".toList ++ later)
  pure (draft.withAlternative "Check with `is` and rely on the smart cast"
    "No nullable result, but the use has to move inside the check" 50 none)

/-- Write state through the component. -/
def setStateCall (_ : Option Nat) (w : Window) : Attempt Draft :=
  Draft.ofLine w "Update state through setState"
    ("Direct writes to `this.state` don't trigger a re-render and can be overwritten "
      ++ "by the next setState.")
    fun line => do
      let m ← Attempt.of (stateWrite.find? line)
      let indent ← captured m 1 line
      let field ← captured m 2 line
      let value ← captured m 3 line
      pure (indent ++ "this.setState(\x7b ".toList ++ field ++ [':', ' '] ++ value
        ++ " \x7d);".toList)

/-- Set state only while the widget is there. -/
def mountedGuard (_ : Option Nat) (w : Window) : Attempt Draft := do
  let line ← Attempt.of w.focusText?
  let statement := Text.trimStart line
  Attempt.require (Text.startsWith statement "setState(")
  let indent ← indentation line
  let draft : Draft := {
    firstLine := w.focus
    replaced := [line]
    suggested := [indent ++ "if (!mounted) return;".toList, line]
    title := "Check mounted before setState"
    description := "The widget may have been disposed while the future was pending." }
  pure (draft.withAlternative "Guard only the setState call"
    "Lets the rest of the method run after dispose" 50
    (some (indent ++ "if (mounted) ".toList ++ statement)))

/-- Hand an update of live data to the main thread. -/
def liveDataPostValue (column : Option Nat) (w : Window) : Attempt Draft := do
  let at' ← Attempt.of (offsetOf? column)
  Draft.ofLine w "Use postValue off the main thread"
    ("`postValue` hands the update to the main thread; "
      ++ "`setValue` asserts it is already there.")
    fun line => do
      let rest ← Attempt.of (Text.from? at' line)
      let front ← Text.before at' line
      match valueWrite.find? rest with
      | some m =>
        let owner ← captured m 1 rest
        let value ← captured m 2 rest
        let semicolon ← captured m 3 rest
        pure (front ++ owner ++ ".postValue(".toList ++ value ++ [')'] ++ semicolon)
      | none =>
        let m ← Attempt.of (valueCall.find? rest)
        let owner ← captured m 1 rest
        let later ← Text.onward m.stop rest
        pure (front ++ owner ++ ".postValue(".toList ++ later)

/-- Move an update of the screen to the main thread. -/
def mainThreadDispatch (_ : Option Nat) (w : Window) : Attempt Draft := do
  let line ← Attempt.of w.focusText?
  let statement := Text.trim line
  Attempt.require
    (!statement.isEmpty && !statement.contains '\x7b' && !statement.contains '\x7d')
  let indent ← indentation line
  let wrapped ← Attempt.of (onMainThread? w statement)
  let draft : Draft := {
    firstLine := w.focus
    replaced := [line]
    suggested := [indent ++ wrapped]
    title := "Hop to the main thread for the UI update"
    description := "UI toolkits are single-threaded; the update is posted to the main thread." }
  pure <|
    if w.language = .swift then
      draft.withAlternative "Annotate the method @MainActor"
        "Compiler-checked, but every caller must be async-aware" 45 none
    else draft

end Checked.Synthesis

end Mend
