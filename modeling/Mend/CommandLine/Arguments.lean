import Mend.Data.Basic

/-!
# Reading arguments

A command has options and perhaps operands. An option is named with two hyphens, or with one hyphen
and one letter; its value follows it, or is attached to it. After two hyphens alone only operands
follow. An option may be given once unless it collects values.

A value that follows its option is looked at only when the next option or operand comes, or the
arguments end. So an argument that nothing is known about is found before the value in front of it
is found to be wrong, and so is a fault in the arguments of a command that follows.
-/

namespace Mend.CommandLine

/-- Why arguments make no command. -/
inductive UsageError where
  | missingArgument
  | missingCommand
  | unknownCommand
  | unknownArgument
  /-- An option has no value, or none of those that it can have. -/
  | invalidValue
  /-- A value cannot be read. -/
  | malformedValue
  /-- An option that takes no value was given one. -/
  | unwantedValue
  /-- Something was given twice, or beside something that excludes it. -/
  | conflict
  /-- There were no arguments at all. -/
  | nothingGiven
  /-- Help was asked for. -/
  | help
  /-- The version was asked for. -/
  | version
  deriving Repr, DecidableEq

namespace UsageError

/-- Only who asks for help or for the version gets what was wanted. -/
def exitCode : UsageError → Nat
  | help | version => 0
  | _ => 2

/-- The error in words. -/
def message : UsageError → String
  | missingArgument => "a required argument was not given"
  | missingCommand => "a command is required"
  | unknownCommand => "unknown command"
  | unknownArgument => "unknown argument"
  | invalidValue => "an option has no value or an invalid one"
  | malformedValue => "a value cannot be read"
  | unwantedValue => "an option that takes no value was given one"
  | conflict => "an argument cannot be given here, or not twice"
  | nothingGiven => "no arguments"
  | help => "help"
  | version => "version"

end UsageError

/-- What an option does to what the arguments say. -/
inductive Action (α : Type) where
  | flag (set : α → Except UsageError α)
  /-- The option takes a value; `many` options may be given again. -/
  | value (many : Bool) (set : String → α → Except UsageError α)

/-- An option of a command. -/
structure Opt (α : Type) where
  long : String
  short : Option Char := none
  action : Action α

/-- The arguments that are not options. -/
structure Operands (α : Type) where
  many : Bool
  add : String → α → α

/-- The arguments that a command takes. -/
structure Interface (α : Type) where
  options : List (Opt α)
  operands : Option (Operands α) := none
  /-- Names that end the arguments of this command and start those of another one. -/
  commands : List String := []

/-- How an argument looks. -/
inductive Form where
  | plain
  | long (name : String) (attached : Option String)
  | short (letters : List Char)
  deriving Repr, DecidableEq

/-- How an argument looks. A lone hyphen is plain, and two hyphens alone are looked at elsewhere. -/
def Form.of (arg : String) : Form :=
  match arg.toList with
  | '-' :: '-' :: [] => .plain
  | '-' :: '-' :: name =>
    match name.dropWhile (· ≠ '=') with
    | '=' :: value => .long (String.ofList (name.takeWhile (· ≠ '='))) (some (String.ofList value))
    | _ => .long (String.ofList name) none
  | '-' :: c :: letters => .short (c :: letters)
  | _ => .plain

/-- What was read so far. -/
structure Reader (α : Type) where
  value : α
  /-- The options that were given. -/
  seen : List String := []
  /-- The last option, while its value is to come or was not looked at. -/
  pending : Option (Opt α × Option String) := none
  /-- How many operands there were. -/
  operandCount : Nat := 0
  /-- Only operands follow. -/
  onlyOperands : Bool := false

namespace Reader

variable {α : Type}

/-- The last option still needs its value. -/
def awaitsValue (r : Reader α) : Bool :=
  match r.pending with
  | some (_, none) => true
  | _ => false

/-- Note that an option was given; one that was given before must collect values. -/
def mark (r : Reader α) (o : Opt α) (many : Bool) : Except UsageError (Reader α) :=
  if !many && r.seen.contains o.long then .error .conflict
  else .ok { r with seen := o.long :: r.seen }

/-- Give an option its value. -/
def give (r : Reader α) (o : Opt α) (text : String) : Except UsageError (Reader α) :=
  match o.action with
  | .flag _ => .error .unwantedValue
  | .value many set => do
    let r ← r.mark o many
    let value ← set text r.value
    pure { r with value }

/-- Look at the value of the last option. -/
def settle (r : Reader α) : Except UsageError (Reader α) :=
  match r.pending with
  | none => .ok r
  | some (_, none) => .error .invalidValue
  | some (o, some text) => { r with pending := none }.give o text

/-- An option, perhaps with a value attached. -/
def option (r : Reader α) (o : Opt α) (attached : Option String) :
    Except UsageError (Reader α) :=
  match o.action, attached with
  | .flag _, some _ => .error .unwantedValue
  | .flag set, none => do
    let r ← r.settle
    let r ← r.mark o false
    let value ← set r.value
    pure { r with value }
  | .value .., some text => do
    let r ← r.settle
    r.give o text
  | .value .., none => do
    let r ← r.settle
    pure { r with pending := some (o, none) }

end Reader

namespace Interface

variable {α : Type}

/-- An option by its name. -/
def long (i : Interface α) (r : Reader α) (name : String) (attached : Option String) :
    Except UsageError (Reader α) :=
  match i.options.find? fun o => o.long == name with
  | some o => r.option o attached
  | none => .error .unknownArgument

/-- Options by their letters. The letters after an option with a value are that value. -/
def shorts (i : Interface α) (r : Reader α) : List Char → Except UsageError (Reader α)
  | [] => .ok r
  | c :: letters =>
    match i.options.find? fun o => o.short == some c with
    | none => .error .unknownArgument
    | some o =>
      match o.action, letters with
      | .flag _, _ => do i.shorts (← r.option o none) letters
      | .value .., [] => r.option o none
      | .value .., '=' :: value => r.option o (some (String.ofList value))
      | .value .., value => r.option o (some (String.ofList value))

/-- What is wrong with an operand that has no place. -/
def stray (i : Interface α) (r : Reader α) (arg : String) : UsageError :=
  if i.commands.isEmpty || (r.onlyOperands && i.commands.contains arg) then .unknownArgument
  else .unknownCommand

/-- An argument that is no option. -/
def operand (i : Interface α) (r : Reader α) (arg : String) : Except UsageError (Reader α) :=
  match i.operands with
  | none => .error (i.stray r arg)
  | some o =>
    if !o.many && 0 < r.operandCount then .error (i.stray r arg)
    else do
      let r ← r.settle
      pure { r with value := o.add arg r.value, operandCount := r.operandCount + 1 }

/-- Read arguments up to their end, or up to the name of a command. -/
def scan (i : Interface α) (r : Reader α) :
    List String → Except UsageError (Reader α × Option (String × List String))
  | [] => .ok (r, none)
  | arg :: rest =>
    if r.onlyOperands then do i.scan (← i.operand r arg) rest
    else if !r.awaitsValue && i.commands.contains arg then .ok (r, some (arg, rest))
    else if arg == "--" then i.scan { r with onlyOperands := true } rest
    else
      match Form.of arg with
      | .long name attached => do i.scan (← i.long r name attached) rest
      | .short letters => do i.scan (← i.shorts r letters) rest
      | .plain =>
        match r.pending with
        | some (o, none) => i.scan { r with pending := some (o, some arg) } rest
        | _ => do i.scan (← i.operand r arg) rest

/-- Read the arguments of a command that no other one follows. -/
def read (i : Interface α) (start : α) (args : List String) : Except UsageError α := do
  let (r, _) ← i.scan { value := start } args
  return (← r.settle).value

end Interface

end Mend.CommandLine
