import Mend.Workspace

/-!
# Printing

A command works on a workspace and prints. What it printed before it failed stays printed. A failure
is a chain of reasons, the outermost first.
-/

namespace Mend.CommandLine

/-- What was printed. -/
structure Printed where
  out : String := ""
  err : String := ""
  deriving Repr, DecidableEq

/-- Why a command failed. -/
inductive Failure where
  | because (chain : List String)
  /-- A text was cut inside a character. -/
  | badOffset (offset : Nat)
  deriving Repr, DecidableEq

namespace Failure

/-- The reasons of a fault. That of a file stands in its message and once more by itself. -/
def ofFault : Fault → Failure
  | .io p e => because [(Fault.io p e).message, e.message]
  | .badOffset n => badOffset n
  | e => because [e.message]

/-- The failure in words. -/
def message : Failure → String
  | because chain => String.intercalate ": " chain
  | badOffset n => (Fault.badOffset n).message

/-- Put a reason in front. -/
def within (reason : String) : Failure → Failure
  | because chain => because (reason :: chain)
  | e => e

end Failure

/-- An operation that prints. -/
abbrev Console := ExceptT Failure (StateT Printed (StateM Workspace))

namespace Console

/-- An operation that prints nothing. -/
def work {α : Type} (w : Work α) : Console α :=
  ExceptT.mk do
    match ← (w.run : StateM Workspace (Except Fault α)) with
    | .ok a => pure (.ok a)
    | .error e => pure (.error (.ofFault e))

/-- The outcome of an operation, failures included. -/
def attempt {α : Type} (c : Console α) : Console (Except Failure α) :=
  ExceptT.mk do
    let r ← c.run
    pure (.ok r)

/-- Fail with one reason. -/
def fail {α : Type} (reason : String) : Console α := throw (.because [reason])

/-- Put a reason in front of those of a failure. -/
def within {α : Type} (reason : String) (c : Console α) : Console α := do
  match ← c.attempt with
  | .ok a => pure a
  | .error e => throw (e.within reason)

/-- Print lines. -/
def say (lines : List String) : Console Unit :=
  modifyThe Printed fun p => { p with out := p.out ++ String.join (lines.map (· ++ "\n")) }

/-- Print a line beside the answer. -/
def complain (line : String) : Console Unit :=
  modifyThe Printed fun p => { p with err := p.err ++ line ++ "\n" }

end Console

end Mend.CommandLine
