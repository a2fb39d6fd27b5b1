import Mend.Rule.Basic

/-!
# Rules for Android
-/

namespace Mend.Android

open Pattern

/-! ## Threads -/

/-- Arguments in parentheses. -/
def arguments : Pattern := lit "(" ++ many (noneOf ")") ++ lit ")"

/-- Work that leaves the main thread. -/
def backgroundOpener : Pattern :=
  oneOf [
    boundary ++ words ["withContext", "launch", "async"] ++ gap ++ lit "(" ++ gap
      ++ lit "Dispatchers." ++ words ["IO", "Default"] ++ gap ++ lit ")" ++ gap ++ lit "\x7b",
    boundary ++ lit "thread" ++ gap ++ opt arguments ++ gap ++ lit "\x7b",
    boundary ++ spaced ["Thread", "\x7b"],
    boundary ++ lit "executor" ++ many wordChar ++ lit "." ++ words ["execute", "submit"] ++ gap
      ++ lit "\x7b",
    boundary ++ lit "new" ++ gap1 ++ spaced ["Thread", "("]]

/-- Work that leaves the main thread; the brace may come a little later. -/
def backgroundBlocks (ctx : Context) : List Block := ctx.blocksAfter backgroundOpener 120

/-- Work that comes back to the main thread. -/
def mainOpener : Pattern :=
  oneOf [
    boundary ++ spaced ["withContext", "(", "Dispatchers.Main"] ++ opt (lit ".immediate") ++ gap
      ++ spaced [")", "\x7b"],
    boundary ++ lit "runOnUiThread" ++ gap ++ opt (lit "(" ++ gap) ++ lit "\x7b",
    lit ".post" ++ gap ++ opt (lit "(" ++ gap) ++ lit "\x7b",
    boundary ++ spaced ["launch", "(", "Dispatchers.Main", ")", "\x7b"]]

/-- Work that comes back to the main thread. -/
def mainBlocks (ctx : Context) : List Block := ctx.blocksAfter mainOpener 0

/-! ## Leaks -/

/-- Receivers that nothing unregisters. -/
def receiverLeak : Rule where
  id := "android/receiver-leak"
  title := "Receiver never unregistered"
  description :=
    "A BroadcastReceiver is registered and never unregistered, leaking the "
    ++ "enclosing Context."
  platforms := [.android]
  category := .memoryLeak
  kind := .leak
  detect ctx := .ok <|
    if ctx.has (boundary ++ spaced ["unregisterReceiver", "("]) then []
    else ((boundary ++ spaced ["registerReceiver", "("]).findAll ctx.masked).map fun m =>
      ⟨m.start, .high, "Receiver is never unregistered",
        "Unregister in onStop/onDestroy matching where it was registered"⟩

/-- Coroutines that no lifecycle ends. -/
def globalScopeLaunch : Rule where
  id := "android/global-scope"
  title := "GlobalScope coroutine"
  description :=
    "A coroutine launched in GlobalScope is not tied to any lifecycle and "
    ++ "keeps running, holding whatever it captured."
  platforms := [.android]
  languages := some [.kotlin]
  category := .memoryLeak
  kind := .leak
  detect ctx := .ok <|
    -- Work of the whole application may outlive every screen.
    let wholeApp := ctx.has
      (lit ":" ++ gap ++ words ["Application", "Service"] ++ gap ++ spaced ["(", ")"])
    ((boundary ++ lit "GlobalScope." ++ words ["launch", "async"] ++ boundary).findAll
      ctx.masked).map fun m =>
        ⟨m.start, if wholeApp then .low else .medium, "Coroutine launched in GlobalScope",
          "Launch in lifecycleScope or viewModelScope"⟩

/-- The types that hold on to a screen. -/
def screenType : Pattern :=
  oneOf [words ["Context", "Activity", "View", "Fragment"], word1 ++ lit "Activity",
    word1 ++ lit "View"]

/-- A static field that holds on to a screen. -/
def staticField : Pattern :=
  boundary ++ lit "static" ++ gap1 ++ opt (lit "final" ++ gap1) ++ screenType ++ gap1 ++ word1

/-- The start of a companion object. -/
def companionOpener : Pattern :=
  boundary ++ lit "companion" ++ gap1 ++ lit "object" ++ boundary ++ many (noneOf "\x7b\n")
    ++ lit "\x7b"

/-- A property that holds on to a screen. -/
def screenProperty : Pattern :=
  boundary ++ opt (lit "lateinit" ++ gap1) ++ words ["var", "val"] ++ gap1 ++ word1 ++ gap
    ++ lit ":" ++ gap ++ screenType ++ boundary

/-- Static fields that hold on to a screen. -/
def staticContext : Rule where
  id := "android/static-context"
  title := "Static Context reference"
  description :=
    "A Context, Activity or View is stored in a static field; it outlives the "
    ++ "screen and leaks its whole view hierarchy."
  platforms := [.android]
  category := .memoryLeak
  kind := .leak
  detect ctx := .ok <|
    let offsets :=
      if ctx.language = .java then (staticField.findAll ctx.masked).map Match.start
      else
        let companions := ctx.blocksAfter companionOpener 0
        ((screenProperty.findAll ctx.masked).map Match.start).filter (insideAny companions)
    offsets.filterMap fun at' =>
      let text := ctx.maskedLine (ctx.index.lineOf at')
      if Text.has text "WeakReference" then none
      else some ⟨at', if Text.has text "applicationContext" then .low else .high,
        "Context held in a static field",
        "Hold applicationContext or a WeakReference instead"⟩

/-! ## Operators -/

/-- A value that is asserted not to be null. -/
def assertedValue : Pattern :=
  set (fun c => Text.isWord c || c == ')' || c == ']') ++ lit "!!"

/-- Values asserted not to be null. -/
def notNullAssertion : Rule where
  id := "kotlin/not-null-assertion"
  title := "Not-null assertion"
  description :=
    "The not-null assertion throws a NullPointerException when the value is null."
  platforms := [.android]
  languages := some [.kotlin]
  category := .nullSafety
  kind := .nullReference
  detect ctx := assertionDetections ctx (assertedValue.findAll ctx.masked)
    "Not-null assertion (!!)" "Use a safe call (?.) with an elvis fallback"

/-- A cast to a named type, which is group 1. -/
def cast : Pattern :=
  boundary ++ lit "as" ++ gap1
    ++ group 1 (capital ++ many (set fun c => Text.isWord c || c == '.'))

/-- Casts of a value whose type was not tested before. -/
def uncheckedCast : Rule where
  id := "kotlin/unsafe-cast"
  title := "Unsafe cast"
  description :=
    "An unsafe cast throws ClassCastException when the value has another type."
  platforms := [.android]
  languages := some [.kotlin]
  category := .typeMismatch
  kind := .typeMismatch
  detect ctx := .ok <|
    (cast.findAll ctx.masked).filterMap fun m => do
      let type ← m.groupText? 1 ctx.masked
      let line := ctx.index.lineOf m.start
      if Text.startsWith (Text.trimStart (ctx.maskedLine line)) "import "
          || ctx.typeTested line 3 line type then none
      else some ⟨m.start, .low, "Unsafe cast to " ++ String.ofList type,
        "Use as? and handle null"⟩

/-! ## Work off the main thread -/

/-- The value of an observable (group 1) is set. -/
def valueSet : Pattern :=
  boundary ++ group 1 word1 ++ lit "."
    ++ (lit "value" ++ gap ++ lit "=" ++ noneOf "=" <|> spaced ["setValue", "("])

/-- A declaration of a name with a type. -/
def declaration (name : List Char) (type : String) : Pattern :=
  boundary ++ litChars name ++ gap ++ (spaced [":", type] <|> spaced ["=", type])

/-- Observables set off the main thread. -/
def liveDataBackgroundSet : Rule where
  id := "android/livedata-background-set"
  title := "LiveData set off the main thread"
  description :=
    "LiveData.setValue is called off the main thread, which throws; updates "
    ++ "from background work must use postValue."
  platforms := [.android]
  category := .stateInconsistency
  kind := .stateInconsistency
  detect ctx := .ok <|
    let background := backgroundBlocks ctx
    let main := mainBlocks ctx
    (valueSet.findAll ctx.masked).filterMap fun m => do
      let name ← m.groupText? 1 ctx.masked
      if !insideAny background m.start || insideAny main m.start then none
      -- The value of a state flow may be set on any thread.
      else if ctx.has (declaration name "MutableStateFlow") then none
      else some ⟨m.start, if ctx.has (declaration name "MutableLiveData") then .high else .medium,
        "`" ++ String.ofList name ++ "` set from a background thread",
        "Use postValue from background work"⟩

/-- A change to what is on the screen. -/
def screenUpdate : Pattern :=
  oneOf [
    lit "." ++ words ["text", "visibility", "isVisible", "isEnabled", "adapter"] ++ gap
      ++ lit "=" ++ noneOf "=",
    lit "." ++ words ["setText", "setVisibility", "setImageResource", "setEnabled",
      "notifyDataSetChanged"] ++ gap ++ lit "(",
    boundary ++ spaced ["Toast.makeText", "("]]

/-- Changes to the screen off the main thread. -/
def backgroundUiUpdate : Rule where
  id := "android/background-ui-update"
  title := "View update off the main thread"
  description :=
    "A View is modified from a background thread; Android throws "
    ++ "CalledFromWrongThreadException or renders inconsistently."
  platforms := [.android]
  category := .raceCondition
  kind := .raceCondition
  detect ctx := .ok <|
    let background := backgroundBlocks ctx
    let main := mainBlocks ctx
    let updates := ((screenUpdate.findAll ctx.masked).map Match.start).filter fun at' =>
      insideAny background at' && !insideAny main at'
    (oncePerLine ctx.index 0 updates).map fun at' =>
      ⟨at', .high, "View updated off the main thread",
        "Switch to Dispatchers.Main before touching views"⟩

/-- The rules, in the order in which they are tried. -/
def rules : List Rule :=
  [receiverLeak, globalScopeLaunch, staticContext, notNullAssertion, uncheckedCast,
   liveDataBackgroundSet, backgroundUiUpdate]

end Mend.Android
