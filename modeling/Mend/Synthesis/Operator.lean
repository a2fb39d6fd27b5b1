import Mend.Synthesis.Draft

/-!
# Mending operators

These templates put another operator in the place of the one at the issue's column and leave the
rest of the line alone.
-/

namespace Mend.Synthesis

/-- Compare without changing the types of the operands. -/
def strictEquality (column : Option Nat) (w : Window) : Attempt Draft := do
  let at' ← Attempt.of (offsetOf? column)
  Draft.ofLine w "Use strict equality" "Strict comparison skips JavaScript's type coercion."
    fun line => do
      let operator ← Attempt.of (Text.slice? at' (at' + 2) line)
      let strict ← Attempt.of <|
        if operator == "==".toList then some "===".toList
        else if operator == "!=".toList then some "!==".toList
        else none
      let rest ← Text.onward (at' + 2) line
      Attempt.require (rest.head? != some '=')
      replaceAt at' 2 strict line

/-- Access a member only if there is a value. -/
def optionalChaining (column : Option Nat) (w : Window) : Attempt Draft := do
  let at' ← Attempt.of (offsetOf? column)
  let (title, alternative, tradeoff) := match w.language with
    | .swift =>
      ("Use optional chaining instead of a force unwrap", "Unwrap with guard let",
        "Handles nil explicitly, but needs an early exit and a new binding")
    | .dart =>
      ("Use a null-aware access instead of the null-check operator", "Check for null first",
        "Keeps the non-nullable type after promotion, at the cost of a branch")
    | _ =>
      ("Use optional chaining instead of a non-null assertion", "Check for null first",
        "Makes the null path explicit, at the cost of a branch")
  let draft ← Draft.ofLine w title
    "The access short-circuits to null instead of crashing when the value is missing."
    fun line => do
      let operator ← Attempt.of (Text.slice? at' (at' + 2) line)
      Attempt.require (operator == "!.".toList)
      replaceAt at' 2 "?.".toList line
  pure (draft.withAlternative alternative tradeoff 60 none)

/-- Call only if there is a value. -/
def kotlinSafeCall (column : Option Nat) (w : Window) : Attempt Draft := do
  Attempt.require (w.language = .kotlin)
  let at' ← Attempt.of (offsetOf? column)
  let draft ← Draft.ofLine w "Use a safe call instead of !!"
    "The call evaluates to null instead of throwing a NullPointerException."
    fun line => do
      let operator ← Attempt.of (Text.slice? at' (at' + 3) line)
      Attempt.require (operator == "!!.".toList)
      replaceAt at' 3 "?.".toList line
  pure (draft.withAlternative "Elvis operator with an early return"
    "Keeps a non-null value downstream, but changes control flow" 60 none)

/-- Cast only if the value has the type, in Swift. -/
def conditionalCastSwift (column : Option Nat) (w : Window) : Attempt Draft := do
  let at' ← Attempt.of (offsetOf? column)
  let draft ← Draft.ofLine w "Use a conditional cast"
    "`as?` yields nil on a type mismatch instead of trapping."
    fun line => do
      let rest ← Attempt.of (Text.from? at' line)
      Attempt.require (Text.startsWith rest "as!")
      replaceAt at' 3 "as?".toList line
  pure (draft.withAlternative "guard let with as?"
    "Non-optional afterwards, but needs an else branch that exits" 55 none)

/-- Cast only if the value has the type, in Kotlin. -/
def conditionalCastKotlin (column : Option Nat) (w : Window) : Attempt Draft := do
  Attempt.require (w.language = .kotlin)
  let at' ← Attempt.of (offsetOf? column)
  let draft ← Draft.ofLine w "Use a safe cast"
    "`as?` yields null on a type mismatch instead of throwing ClassCastException."
    fun line => do
      let rest ← Attempt.of (Text.from? at' line)
      Attempt.require (Text.startsWith rest "as" && (rest.drop 2).head?.any Text.isBlank)
      replaceAt at' 2 "as?".toList line
  pure (draft.withAlternative "Check with `is` and rely on the smart cast"
    "No nullable result, but the use has to move inside the check" 50 none)

end Mend.Synthesis
