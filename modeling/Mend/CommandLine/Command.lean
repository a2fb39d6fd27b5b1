import Mend.CommandLine.Arguments
import Mend.Store.Records

/-!
# Commands

What can be asked for on the command line. Some options belong to every command and may stand before
its name or after it; where they stand in both places, the later one counts.
-/

namespace Mend.CommandLine

/-- How answers are printed. -/
inductive Format where
  | text | json
  deriving Repr, DecidableEq

/-- How a scan departs from the project's configuration. -/
structure ScanRequest where
  platform : Option Platform := none
  heuristics : Bool := false
  categories : List Category := []
  severity : Option Severity := none
  includeTests : Bool := false
  /-- Suggest fixes after the scan. -/
  suggest : Bool := false
  deriving Repr, DecidableEq

/-- Something to do. Issues and fixes are named by the start of their ids. -/
inductive Command where
  | init (force : Bool)
  | scan (request : ScanRequest)
  | issues (filter : IssueFilter) (top : Option Nat)
  | suggest (issue : String)
  | suggestAll
  | fixes (status : Option FixStatus) (issue : Option String) (orphaned : Bool)
  | display (fix : String)
  | confirm (fixes : List String)
  | reject (fixes : List String)
  | apply (fixes : List String) (allConfirmed : Bool)
  | rollback (fix : String)
  | retry (fix : String)
  | status
  deriving Repr, DecidableEq

/-! ## Values -/

/-- A whole number; a plus sign may stand in front. -/
def count? (s : String) : Option Nat :=
  let digits := match s.toList with
    | '+' :: digits => digits
    | digits => digits
  if !digits.isEmpty && digits.all Char.isDigit then
    let n := digits.foldl (fun n c => n * 10 + (c.toNat - '0'.toNat)) 0
    if n ≤ Data.countLimit then some n else none
  else none

/-- The name of a format. -/
def Format.ofName? (s : String) : Option Format :=
  match s with
  | "text" => some .text
  | "json" => some .json
  | _ => none

/-- How much is logged. -/
def logLevels : List String := ["error", "warn", "info", "debug", "trace"]

/-- The most workers that may be asked for. -/
def workerLimit : Nat := 64

/-- A path that is not empty. -/
def path? (s : String) : Option Path := if s.isEmpty then none else some ⟨s⟩

/-- What a reader accepts. -/
def accepted {ε α : Type} : Except ε α → Option α
  | .ok a => some a
  | .error _ => none

/-- An option whose value is read by `read?`. -/
def valued {α β : Type} (long : String) (short : Option Char) (wrong : UsageError)
    (read? : String → Option β) (set : β → α → α) : Opt α :=
  { long, short
    action := .value false fun text a =>
      match read? text with
      | some b => .ok (set b a)
      | none => .error wrong }

/-- An option without a value. -/
def flagged {α : Type} (long : String) (set : α → α) : Opt α :=
  { long, action := .flag fun a => .ok (set a) }

/-- An option that ends everything. -/
def ending {α : Type} (long : String) (short : Char) (e : UsageError) : Opt α :=
  { long, short := some short, action := .flag fun _ => .error e }

/-! ## Options of every command -/

/-- What the options of every command say. -/
structure Globals where
  path : Option Path := none
  store : Option Path := none
  format : Option Format := none
  deriving Repr, DecidableEq

/-- The later options count. -/
def Globals.followedBy (first later : Globals) : Globals :=
  { path := later.path.or first.path
    store := later.store.or first.store
    format := later.format.or first.format }

/-- The options of every command. The number of workers and how much is logged change no answer. -/
def globalOptions {α : Type} (on : (Globals → Globals) → α → α) : List (Opt α) :=
  [valued "path" (some 'C') .invalidValue path? fun p => on fun g => { g with path := some p },
   valued "store" none .invalidValue path? fun p => on fun g => { g with store := some p },
   valued "format" (some 'f') .invalidValue Format.ofName? fun f =>
     on fun g => { g with format := some f },
   valued "log-level" none .invalidValue (fun s => if logLevels.contains s then some s else none)
     fun _ => id,
   valued "workers" none .malformedValue
     (fun s => (count? s).filter fun n => 1 ≤ n && n ≤ workerLimit) fun _ => id,
   ending "help" 'h' .help]

/-! ## Options of one command -/

/-- What a command's own arguments say, of whichever command. -/
structure Request where
  globals : Globals := {}
  force : Bool := false
  scan : ScanRequest := {}
  filter : IssueFilter := {}
  top : Option Nat := none
  status : Option FixStatus := none
  issue : Option String := none
  orphaned : Bool := false
  all : Bool := false
  operands : List String := []

/-- Change what a scan is to be. -/
def Request.onScan (f : ScanRequest → ScanRequest) (r : Request) : Request :=
  { r with scan := f r.scan }

/-- Change which issues are listed. -/
def Request.onFilter (f : IssueFilter → IssueFilter) (r : Request) : Request :=
  { r with filter := f r.filter }

/-- Operands, one or many. -/
def named (many : Bool) : Operands Request :=
  { many, add := fun arg r => { r with operands := r.operands ++ [arg] } }

/-- The options that only one command has, and its operands. -/
def ownArguments (command : String) : List (Opt Request) × Option (Operands Request) :=
  match command with
  | "init" => ([flagged "force" fun r => { r with force := true }], none)
  | "scan" =>
    ([valued "platform" none .malformedValue (fun s => accepted (Platform.parse s))
        fun p => Request.onScan fun q => { q with platform := some p },
      flagged "heuristics" (Request.onScan fun q => { q with heuristics := true }),
      { long := "category"
        action := .value true fun text r =>
          match Category.parse text with
          | .ok c => .ok (r.onScan fun q => { q with categories := q.categories ++ [c] })
          | .error _ => .error .malformedValue },
      valued "severity" none .malformedValue (fun s => accepted (Severity.parse s))
        fun v => Request.onScan fun q => { q with severity := some v },
      flagged "include-tests" (Request.onScan fun q => { q with includeTests := true }),
      flagged "suggest" (Request.onScan fun q => { q with suggest := true })], none)
  | "issues" =>
    ([valued "severity" none .malformedValue (fun s => accepted (Severity.parse s))
        fun v => Request.onFilter fun f => { f with minSeverity := some v },
      valued "kind" none .invalidValue IssueKind.ofName?
        fun k => Request.onFilter fun f => { f with kind := some k },
      valued "rule" none .invalidValue some
        fun rule => Request.onFilter fun f => { f with rule := some rule },
      flagged "no-heuristics" (Request.onFilter fun f => { f with heuristic := some false }),
      valued "top" none .malformedValue count? fun n r => { r with top := some n }], none)
  | "suggest" => ([flagged "all" fun r => { r with all := true }], some (named false))
  | "fixes" =>
    ([valued "status" none .invalidValue FixStatus.ofName? fun s r => { r with status := some s },
      valued "issue" none .invalidValue some fun i r => { r with issue := some i },
      flagged "orphaned" fun r => { r with orphaned := true }], none)
  | "show" | "rollback" | "retry" => ([], some (named false))
  | "confirm" | "reject" => ([], some (named true))
  | "apply" =>
    ([flagged "all-confirmed" fun r => { r with all := true }], some (named true))
  | _ => ([], none)

/-- The arguments that a command takes after its name. -/
def interfaceOf (command : String) : Interface Request :=
  let (own, operands) := ownArguments command
  { options := own ++ globalOptions fun f r => { r with globals := f r.globals }
    operands }

/-- The one operand that has to be there. -/
def Request.single (r : Request) : Except UsageError String :=
  match r.operands with
  | name :: _ => .ok name
  | [] => .error .missingArgument

/-- The operands, of which there has to be one. -/
def Request.several (r : Request) : Except UsageError (List String) :=
  if r.operands.isEmpty then .error .missingArgument else .ok r.operands

/-- The command of a name with its arguments. -/
def Request.command (r : Request) (name : String) : Except UsageError Command :=
  match name with
  | "init" => .ok (.init r.force)
  | "scan" => .ok (.scan r.scan)
  | "issues" => .ok (.issues r.filter r.top)
  | "suggest" =>
    if r.all then if r.operands.isEmpty then .ok .suggestAll else .error .conflict
    else r.single.map .suggest
  | "fixes" => .ok (.fixes r.status r.issue r.orphaned)
  | "show" => r.single.map .display
  | "confirm" => r.several.map .confirm
  | "reject" => r.several.map .reject
  | "apply" => if r.all then .ok (.apply r.operands true) else r.several.map (Command.apply · false)
  | "rollback" => r.single.map .rollback
  | "retry" => r.single.map .retry
  | "status" => .ok .status
  | _ => .error .unknownCommand

/-! ## The whole line -/

/-- The names of the commands. -/
def commandNames : List String :=
  ["init", "scan", "issues", "suggest", "fixes", "show", "confirm", "reject", "apply", "rollback",
   "retry", "status", "help"]

/-- The arguments before a command's name. -/
def topInterface : Interface Globals :=
  { options := globalOptions (fun f => f) ++ [ending "version" 'V' .version]
    commands := commandNames }

/-- Help about everything or about one command; a command has no commands of its own. -/
def helpAbout : List String → UsageError
  | [] => .help
  | [name] => if commandNames.contains name then .help else .unknownCommand
  | _ => .unknownCommand

/-- What can be asked for, in brief. -/
def usage : String :=
  String.intercalate "\n" [
    "Usage: appmedic [OPTIONS] <COMMAND>",
    "",
    "Commands:",
    "  init                Write an appmedic.toml to start with",
    "  scan                Scan the project and store the issues found",
    "  issues              List stored issues",
    "  suggest <ISSUE>     Make a fix for an issue, or with --all for every one",
    "  fixes               List fixes",
    "  show <FIX>          Show a fix with its diff and alternatives",
    "  confirm <FIX>...    Approve fixes",
    "  reject <FIX>...     Decline fixes",
    "  apply <FIX>...      Write fixes, or with --all-confirmed every confirmed one",
    "  rollback <FIX>      Put a file back as it was before a fix",
    "  retry <FIX>         Make a new fix in place of a failed one",
    "  status              Count issues, fixes and attempts",
    "",
    "Options: -C/--path DIR, --store DIR, -f/--format text|json, --log-level LEVEL, --workers N",
    "Ids may be cut to any start that no other id has."]

/-- The version of the program. -/
def versionText : String := "appmedic 0.3.0"

/-- A command, where to run it, and how to print its answer. -/
structure Invocation where
  path : Path
  store : Option Path
  format : Format
  command : Command
  deriving Repr, DecidableEq

/-- Read a command line. Without options the command runs in the current directory and prints
text. -/
def Invocation.read (args : List String) : Except UsageError Invocation := do
  let (r, command) ← topInterface.scan { value := {} } args
  match command with
  | none =>
    let r ← r.settle
    .error (if r.seen.isEmpty then .nothingGiven else .missingCommand)
  | some ("help", rest) => .error (helpAbout rest)
  | some (name, rest) =>
    let request ← (interfaceOf name).read {} rest
    let command ← request.command name
    let top ← r.settle
    let globals := top.value.followedBy request.globals
    pure {
      path := globals.path.getD ⟨"."⟩
      store := globals.store
      format := globals.format.getD .text
      command }

end Mend.CommandLine
