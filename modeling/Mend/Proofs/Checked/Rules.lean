import Mend.Proofs.Checked.Context
import Mend.Rule.Android
import Mend.Rule.ControlFlow
import Mend.Rule.Flutter
import Mend.Rule.Ios
import Mend.Rule.React

/-!
# The rules with every offset checked

Each rule is written once more with the checked helpers, platform by platform, and gives what its
unchecked form gives.
-/

/-! ## React -/

namespace Mend.Checked.React

open Mend.React
open Text (BadOffset)

variable {ctx : Context}

/-- An effect that starts something and returns no cleanup. -/
def effectSubscriptionLeak (ctx : Context) : Except BadOffset (List Detection) := do
  let effects ← blocksAfter ctx effectOpener 0
  effects.filterMapM fun block => do
    let body ← bodyOf ctx block
    pure <|
      if producer.isIn body && !hasCleanupReturn body then
        some ⟨block.start, if block.closed then .high else Severity.high.downgrade,
          "Effect subscribes without cleanup",
          "Return a cleanup function that unsubscribes or removes the listener"⟩
      else none

theorem effectSubscriptionLeak_eq (ctx : Context) :
    effectSubscriptionLeak ctx = Mend.React.effectSubscriptionLeak.detect ctx := by
  rw [effectSubscriptionLeak, blocksAfter_eq]
  refine filterMapM_eq_ok fun block hblock => ?_
  rw [bodyOf_eq hblock]
  rfl

/-- An effect that sets state after it has waited. -/
def unguardedAsyncState (ctx : Context) : Except BadOffset (List Detection) := do
  let effects ← blocksAfter ctx effectOpener 0
  effects.filterMapM fun block => do
    let body ← bodyOf ctx block
    match suspension.find? body with
    | none => pure none
    | some first =>
      let rest ← Text.onward first.stop body
      pure <|
        if setter.isIn rest && !mitigation.isIn body then
          some ⟨block.start, .medium, "State set after async work without a mounted guard",
            "Track a cancelled flag flipped in the effect cleanup, or abort the request"⟩
        else none

theorem unguardedAsyncState_eq (ctx : Context) :
    unguardedAsyncState ctx = Mend.React.unguardedAsyncState.detect ctx := by
  rw [unguardedAsyncState, blocksAfter_eq]
  refine filterMapM_eq_ok fun block hblock => ?_
  rw [bodyOf_eq hblock]
  simp only [bind, Except.bind]
  cases hfind : suspension.find? (ctx.bodyOf block) with
  | none => rfl
  | some first =>
    simp only [(Pattern.good_of_find? hfind).2.1.onward_eq]
    rfl

/-- Listeners of platform modules outside effects that nothing removes. -/
def nativeListenerLeak (ctx : Context) : Except BadOffset (List Detection) := do
  let effects ← blocksAfter ctx effectOpener 0
  let anyRemoval := ctx.has
    (.spaced [".remove", "(", ")"] <|>
      .boundary ++ .lit "remove" ++ .opt (.lit "Event") ++ .spaced ["Listener", "("])
  (nativeListener.findAll ctx.masked).filterMapM fun m => do
    let statement ← statementBefore ctx.masked m.start
    let removed := (assignedName? statement).any fun name =>
      Text.occurs (name ++ ".remove(".toList) ctx.masked
    pure <|
      if insideAny effects m.start || removed then none
      else some ⟨m.start, if anyRemoval then .medium else .high,
        "Native listener is never removed", "Keep the subscription and call .remove() on unmount"⟩

theorem nativeListenerLeak_eq (ctx : Context) :
    nativeListenerLeak ctx = Mend.React.nativeListenerLeak.detect ctx := by
  rw [nativeListenerLeak, blocksAfter_eq]
  refine filterMapM_eq_ok fun m hm => ?_
  rw [statementBefore_eq (Pattern.good_of_mem_findAll hm).1]
  rfl

/-- Values asserted not to be null. -/
def nonNullAssertion (ctx : Context) : Except BadOffset (List Detection) :=
  assertionDetections ctx (nonNullAccess.findAll ctx.masked)
    "Non-null assertion on a possibly-null value"
    "Use optional chaining (?.) and handle the undefined case"

theorem nonNullAssertion_eq (hctx : ctx.Fits) :
    nonNullAssertion ctx = Mend.React.nonNullAssertion.detect ctx :=
  assertionDetections_eq hctx _ _ _

/-- Comparisons that convert types. -/
def looseEquality (ctx : Context) : Except BadOffset (List Detection) :=
  (looseOperator.findAll ctx.masked).filterMapM fun m =>
    match m.group? 1 with
    | none => pure none
    | some operator => do
      let rest ← Text.onward operator.stop ctx.masked
      let start ← lineStart ctx.index (ctx.index.lineOf operator.start)
      let left ← Text.between start operator.start ctx.masked
      let written ← Text.between operator.start operator.stop ctx.masked
      pure <|
        if looseOnPurpose.isIn rest || Text.has left "typeof "
            || Text.endsWith (Text.trimEnd left) "null" then none
        else some ⟨operator.start, .low, "Loose equality `" ++ String.ofList written ++ "`",
          "Use strict equality"⟩

theorem looseEquality_eq (hctx : ctx.Fits) :
    looseEquality ctx = Mend.React.looseEquality.detect ctx := by
  refine filterMapM_eq_ok fun m hm => ?_
  cases hgroup : m.group? 1 with
  | none => rfl
  | some operator =>
    obtain ⟨hstart, hstop, hle⟩ :=
      Pattern.good_of_group? (by decide) (by decide) (by decide) hm hgroup
    have hline : Text.Good ctx.masked (ctx.index.lineStart (ctx.index.lineOf operator.start)) ∧
        ctx.index.lineStart (ctx.index.lineOf operator.start) ≤ operator.start := by
      rw [hctx.masked]
      exact ⟨Text.good_lineStart _ _, Text.LineIndex.lineStart_lineOf_le _ _⟩
    simp only [hstop.onward_eq, lineStart_eq, Text.between_eq_cut hline.1 hstart hline.2,
      Text.between_eq_cut hstart hstop hle, bind, Except.bind]
    rfl

end Mend.Checked.React

/-! ## Flutter -/

namespace Mend.Checked.Flutter

open Mend.Flutter
open Text (BadOffset)

variable {ctx : Context}

/-- Streams that are listened to for ever. -/
def streamSubscriptionLeak (ctx : Context) : Except BadOffset (List Detection) :=
  let anyCancel := ctx.has (.spaced [".cancel", "(", ")"])
  ((Pattern.spaced [".listen", "("]).findAll ctx.masked).filterMapM fun m => do
    let statement ← statementBefore ctx.masked m.start
    let cancelled := (assignedName? statement).any fun name =>
      Text.occurs (name ++ ".cancel(".toList) ctx.masked
        || Text.occurs (name ++ "?.cancel(".toList) ctx.masked
    pure <|
      if cancelled then none
      else some ⟨m.start, if anyCancel then .medium else .high,
        "Stream subscription is never cancelled",
        "Store the StreamSubscription and cancel it in dispose()"⟩

theorem streamSubscriptionLeak_eq (ctx : Context) :
    streamSubscriptionLeak ctx = Mend.Flutter.streamSubscriptionLeak.detect ctx := by
  refine filterMapM_eq_ok fun m hm => ?_
  rw [statementBefore_eq (Pattern.good_of_mem_findAll hm).1]
  rfl

/-- `setState` after an `await` with no look at `mounted` between them. -/
def setStateAfterAwait (ctx : Context) : Except BadOffset (List Detection) :=
  (lateSetStates {} ctx.maskedLines).mapM fun (line, at') => do
    let start ← lineStart ctx.index line
    pure ⟨start + at', .high, "setState after await without mounted check",
      "Return early with `if (!mounted) return;` after the await"⟩

theorem setStateAfterAwait_eq (ctx : Context) :
    setStateAfterAwait ctx = Mend.Flutter.setStateAfterAwait.detect ctx := by
  refine mapM_eq_ok fun ⟨line, at'⟩ _ => ?_
  simp only [lineStart_eq]
  rfl

/-- Values asserted not to be null. -/
def nullAssertion (ctx : Context) : Except BadOffset (List Detection) :=
  assertionDetections ctx (nullCheckAccess.findAll ctx.masked)
    "Null-check operator on a nullable value" "Use ?. and provide a fallback with ??"

theorem nullAssertion_eq (hctx : ctx.Fits) :
    nullAssertion ctx = Mend.Flutter.nullAssertion.detect ctx :=
  assertionDetections_eq hctx _ _ _

/-- Casts of a value whose type was not tested before. -/
def uncheckedCast (ctx : Context) : Except BadOffset (List Detection) :=
  (cast.findAll ctx.masked).filterMapM fun m =>
    match m.groupText? 1 ctx.masked with
    | none => pure none
    | some type => do
      let line := ctx.index.lineOf m.start
      let row ← lineOf ctx.index ctx.masked line
      let tested ← typeTested ctx line 3 line type
      let text := Text.trimStart row
      pure <|
        if Text.startsWith text "import " || Text.startsWith text "export " || tested then none
        else some ⟨m.start, .low, "Unchecked cast to " ++ String.ofList type,
          "Check the type with `is` first, or use a pattern"⟩

theorem uncheckedCast_eq (hctx : ctx.Fits) :
    uncheckedCast ctx = Mend.Flutter.uncheckedCast.detect ctx := by
  refine filterMapM_eq_ok fun m _ => ?_
  cases m.groupText? 1 ctx.masked with
  | none => rfl
  | some type =>
    simp only [lineOf_masked hctx, typeTested_eq hctx]
    rfl

end Mend.Checked.Flutter

/-! ## iOS -/

namespace Mend.Checked.Ios

open Mend.Ios
open Text (BadOffset)

variable {ctx : Context}

/-- The closure at an opening brace keeps self alive: how bad that is. -/
def strongCapture? (ctx : Context) (opening : Nat) : Except BadOffset (Option Severity) := do
  let line := ctx.index.lineOf opening
  let start ← lineStart ctx.index line
  let before ← Text.between start opening ctx.masked
  let range ← lineRange ctx.index line
  let head ← Text.between (opening + 1) (max range.2 (opening + 1)) ctx.masked
  let params := closureHeader.find? head
  let callee := calleeOf before
  if Text.startsWith (Text.trimStart head) "for "
      || (params.isNone && !escapingCalls.contains callee)
      || nonEscapingCalls.contains callee
      || weakCapture.isIn ((params.bind fun m => m.groupText? 1 head).getD []) then pure none
  else
    match ← matchingClose ctx.masked opening with
    | none => pure none
    | some close =>
      let inside ← Text.between (opening + 1) close ctx.masked
      pure <|
        if selfUse.isIn inside then some (if oneShotCalls.contains callee then .low else .high)
        else none

theorem strongCapture?_eq (hctx : ctx.Fits) {opening : Nat}
    (h : opening ∈ Text.offsetsOf (· == '\x7b') ctx.masked) :
    strongCapture? ctx opening = .ok (Mend.Ios.strongCapture? ctx opening) := by
  have hopening := Text.good_of_mem_offsetsOf h
  have hnext : Text.Good ctx.masked (opening + 1) :=
    Text.good_succ_of_mem_offsetsOf (fun c hc => by rw [beq_iff_eq.mp hc]; rfl) h
  have hline : Text.Good ctx.masked (ctx.index.lineStart (ctx.index.lineOf opening)) ∧
      ctx.index.lineStart (ctx.index.lineOf opening) ≤ opening := by
    rw [hctx.masked]
    exact ⟨Text.good_lineStart _ _, Text.LineIndex.lineStart_lineOf_le _ _⟩
  have hrange : Text.Good ctx.masked (ctx.index.lineRange (ctx.index.lineOf opening)).2 := by
    rw [hctx.masked]
    exact (Text.good_lineRange _ _).2.1
  simp only [strongCapture?, Mend.Ios.strongCapture?, lineStart_eq, lineRange_eq, bind, Except.bind,
    Text.between_eq_cut hline.1 hopening hline.2,
    Text.between_eq_cut hnext (hrange.max hnext) (Nat.le_max_right _ _)]
  split
  · rfl
  · rw [matchingClose_eq]
    cases hclose : Text.matchingClose ctx.masked opening with
    | none => rfl
    | some close =>
      obtain ⟨-, -, hstop, hle⟩ := Text.good_of_matchingClose hclose
      simp only [Text.between_eq_cut hnext hstop hle]
      rfl

/-- Closures that outlive a call and keep self alive. -/
def strongSelfCapture (ctx : Context) : Except BadOffset (List Detection) :=
  if !ctx.has (.boundary ++ .lit "class" ++ Pattern.gap1 ++ Pattern.wordChar) then pure []
  else (Text.offsetsOf (· == '\x7b') ctx.masked).filterMapM fun opening => do
    let severity? ← strongCapture? ctx opening
    pure <| severity?.map fun severity =>
      ⟨opening, severity, "Closure captures self strongly",
        "Capture [weak self] and unwrap it inside the closure"⟩

theorem strongSelfCapture_eq (hctx : ctx.Fits) :
    strongSelfCapture ctx = Mend.Ios.strongSelfCapture.detect ctx := by
  simp only [strongSelfCapture, Mend.Ios.strongSelfCapture]
  split
  · rfl
  · refine filterMapM_eq_ok fun opening hopening => ?_
    rw [strongCapture?_eq hctx hopening]
    rfl

/-- Observers and repeating timers that nothing stops. -/
def observerLeak (ctx : Context) : Except BadOffset (List Detection) := do
  let observers :=
    if ctx.has (.boundary ++ Pattern.spaced ["removeObserver", "("]) then []
    else (addObserver.findAll ctx.masked).map fun m =>
      let bySelector := m.groupText? 1 ctx.masked == some "self".toList
      ⟨m.start, if bySelector then .low else .high, "Notification observer is never removed",
        "Keep the token and remove it in deinit"⟩
  let timers ←
    if ctx.has (Pattern.spaced [".invalidate", "(", ")"]) then pure []
    else
      let starts := (.boundary ++ Pattern.spaced ["Timer.scheduledTimer", "("] : Pattern).findAll
        ctx.masked
      starts.filterMapM fun m => do
        let opening ← stepBack 1 m.stop
        match ← matchingClose ctx.masked opening with
        | none => pure none
        | some close =>
          let inside ← Text.between opening close ctx.masked
          pure <|
            if (Pattern.spaced ["repeats", ":", "true"]).isIn inside then
              some ⟨m.start, .high, "Repeating timer is never invalidated",
                "Invalidate the timer in deinit or viewWillDisappear"⟩
            else none
  pure (observers ++ timers)

theorem observerLeak_eq (ctx : Context) :
    observerLeak ctx = Mend.Ios.observerLeak.detect ctx := by
  rw [observerLeak, Mend.Ios.observerLeak]
  by_cases hinvalidated : ctx.has (Pattern.spaced [".invalidate", "(", ")"]) = true
  · simp only [if_pos hinvalidated]
    rfl
  · simp only [if_neg hinvalidated]
    refine (congrArg (· >>= _) (filterMapM_eq_ok fun m hm => ?_)).trans rfl
    have hlt := Pattern.start_lt_stop (by decide) hm
    simp only [stepBack_eq (Nat.one_le_of_lt hlt), matchingClose_eq, bind, Except.bind]
    cases hclose : Text.matchingClose ctx.masked (m.stop - 1) with
    | none => rfl
    | some close =>
      obtain ⟨hopening, -, hstop, hle⟩ := Text.good_of_matchingClose hclose
      simp only [Text.between_eq_cut hopening hstop (Nat.le_of_succ_le hle)]
      rfl

/-- Values unwrapped by force. -/
def forceUnwrap (ctx : Context) : Except BadOffset (List Detection) := do
  let found ← (forcedAccess.findAll ctx.masked).filterMapM fun m => do
    let front ← Text.before m.stop ctx.masked
    pure (if Text.endsWith front "try!." then none else some m)
  assertionDetections ctx found "Force unwrap of an optional"
    "Use optional chaining or guard let"

theorem forceUnwrap_eq (hctx : ctx.Fits) :
    forceUnwrap ctx = Mend.Ios.forceUnwrap.detect ctx := by
  rw [forceUnwrap, filterMapM_eq_ok (g := Option.guard fun m =>
    !Text.endsWith (Text.cut 0 m.stop ctx.masked) "try!.") fun m hm => ?_]
  · rw [List.filterMap_eq_filter]
    exact assertionDetections_eq hctx _ _ _
  · rw [(Pattern.good_of_mem_findAll hm).2.1.before_eq]
    simp only [bind, Except.bind, pure, Except.pure, Option.guard]
    by_cases htry : Text.endsWith (Text.cut 0 m.stop ctx.masked) "try!." = true <;> simp [htry]

/-- Forced casts. -/
def forcedCast (ctx : Context) : Except BadOffset (List Detection) :=
  (castByForce.findAll ctx.masked).filterMapM fun m =>
    match m.groupText? 1 ctx.masked with
    | none => pure none
    | some type => do
      let line := ctx.index.lineOf m.start
      let tested ← typeTested ctx line 3 (line - 1) type
      pure (some ⟨m.start, if tested then .low else .medium,
        "Forced cast to " ++ String.ofList type, "Use as? and handle the failed cast"⟩)

theorem forcedCast_eq (hctx : ctx.Fits) :
    forcedCast ctx = Mend.Ios.forcedCast.detect ctx := by
  refine filterMapM_eq_ok fun m _ => ?_
  cases m.groupText? 1 ctx.masked with
  | none => rfl
  | some type =>
    simp only [typeTested_eq hctx]
    rfl

/-- Changes to the screen off the main thread. -/
def backgroundUiUpdate (ctx : Context) : Except BadOffset (List Detection) := do
  let main ← blocksAfter ctx mainOpener 0
  let background ← blocksAfter ctx backgroundOpener 0
  let updates ← background.mapM fun block => do
    let body ← bodyOf ctx block
    pure ((screenUpdate.findAll body).map fun m => block.body.start + m.start)
  pure <|
    (oncePerLine ctx.index 0 (updates.flatten.filter fun at' => !insideAny main at')).map fun at' =>
      ⟨at', .high, "UI updated off the main thread",
        "Wrap the UI update in DispatchQueue.main.async"⟩

theorem backgroundUiUpdate_eq (ctx : Context) :
    backgroundUiUpdate ctx = Mend.Ios.backgroundUiUpdate.detect ctx := by
  rw [backgroundUiUpdate, blocksAfter_eq, blocksAfter_eq]
  simp only [bind, Except.bind]
  rw [mapM_eq_ok (g := fun block =>
    (screenUpdate.findAll (ctx.bodyOf block)).map fun m => block.body.start + m.start)
    fun block hblock => ?_]
  · simp only [← List.flatMap_def]
    rfl
  · rw [bodyOf_eq hblock]
    rfl

end Mend.Checked.Ios

/-! ## Android -/

namespace Mend.Checked.Android

open Mend.Android
open Text (BadOffset)

variable {ctx : Context}

/-- Static fields that hold on to a screen. -/
def staticContext (ctx : Context) : Except BadOffset (List Detection) := do
  let offsets ←
    if ctx.language = .java then pure ((staticField.findAll ctx.masked).map Match.start)
    else do
      let companions ← blocksAfter ctx companionOpener 0
      pure (((screenProperty.findAll ctx.masked).map Match.start).filter (insideAny companions))
  offsets.filterMapM fun at' => do
    let text ← lineOf ctx.index ctx.masked (ctx.index.lineOf at')
    pure <|
      if Text.has text "WeakReference" then none
      else some ⟨at', if Text.has text "applicationContext" then .low else .high,
        "Context held in a static field",
        "Hold applicationContext or a WeakReference instead"⟩

theorem staticContext_eq (hctx : ctx.Fits) :
    staticContext ctx = Mend.Android.staticContext.detect ctx := by
  simp only [staticContext, blocksAfter_eq, Mend.Android.staticContext]
  split
  all_goals
    refine filterMapM_eq_ok fun at' _ => ?_
    rw [lineOf_masked hctx]
    rfl

/-- Values asserted not to be null. -/
def notNullAssertion (ctx : Context) : Except BadOffset (List Detection) :=
  assertionDetections ctx (assertedValue.findAll ctx.masked)
    "Not-null assertion (!!)" "Use a safe call (?.) with an elvis fallback"

theorem notNullAssertion_eq (hctx : ctx.Fits) :
    notNullAssertion ctx = Mend.Android.notNullAssertion.detect ctx :=
  assertionDetections_eq hctx _ _ _

/-- Casts of a value whose type was not tested before. -/
def uncheckedCast (ctx : Context) : Except BadOffset (List Detection) :=
  (cast.findAll ctx.masked).filterMapM fun m =>
    match m.groupText? 1 ctx.masked with
    | none => pure none
    | some type => do
      let line := ctx.index.lineOf m.start
      let row ← lineOf ctx.index ctx.masked line
      let tested ← typeTested ctx line 3 line type
      pure <|
        if Text.startsWith (Text.trimStart row) "import " || tested then none
        else some ⟨m.start, .low, "Unsafe cast to " ++ String.ofList type,
          "Use as? and handle null"⟩

theorem uncheckedCast_eq (hctx : ctx.Fits) :
    uncheckedCast ctx = Mend.Android.uncheckedCast.detect ctx := by
  refine filterMapM_eq_ok fun m _ => ?_
  cases m.groupText? 1 ctx.masked with
  | none => rfl
  | some type =>
    simp only [lineOf_masked hctx, typeTested_eq hctx]
    rfl

end Mend.Checked.Android

/-! ## Guesses about control flow -/

namespace Mend.Checked.ControlFlow

open Mend.ControlFlow
open Text (BadOffset)

variable {ctx : Context}

/-- Loops without a visible exit. -/
def infiniteLoop (ctx : Context) : Except BadOffset (List Detection) :=
  (loopHead.findAll ctx.masked).filterMapM fun m => do
    let line := ctx.index.lineOf m.start
    let last := max (min (line + loopReach) ctx.index.lineCount) line
    let range ← lineRange ctx.index last
    let window ← Text.between m.stop (max range.2 m.stop) ctx.masked
    let head ← Text.between m.start m.stop ctx.masked
    let tailDecides := Text.startsWith head "repeat" || Text.startsWith head "do"
    pure <|
      if (tailDecides && !endlessTail.isIn window) || loopExit.isIn window then none
      else some ⟨m.start, .low, "Loop has no visible exit",
        "Add a termination condition or document the intended event loop"⟩

theorem infiniteLoop_eq (hctx : ctx.Fits) :
    infiniteLoop ctx = Mend.ControlFlow.infiniteLoop.detect ctx := by
  refine filterMapM_eq_ok fun m hm => ?_
  obtain ⟨hstart, hstop, hle⟩ := Pattern.good_of_mem_findAll hm
  have hrange (line : Nat) : Text.Good ctx.masked (ctx.index.lineRange line).2 := by
    rw [hctx.masked]
    exact (Text.good_lineRange _ _).2.1
  simp only [lineRange_eq, bind, Except.bind, Text.between_eq_cut hstart hstop hle,
    Text.between_eq_cut hstop ((hrange _).max hstop) (Nat.le_max_right _ _)]
  rfl

/-! ### Code that never runs -/

/-- The first line that is not empty. -/
def firstFull? (lines : List (Nat × List Char)) : Option (Nat × List Char) :=
  lines.find? fun l => !l.2.isEmpty

/-- The line never runs that follows one which leaves its block, if it goes on with the block. The
lines before the one that leaves are `earlier`, and those after it `later`. -/
def deadAfter? (text : List Char) (earlier later : List (Nat × List Char)) : Option Nat :=
  let balanced := text.countP (· == '(') == text.countP (· == ')')
  let previous := (firstFull? earlier.reverse).map Prod.snd
  if leavesBlock.isIn text && !goesOn.isIn text && balanced && !previous.any braceless.isIn then
    (firstFull? later).bind fun (line, next) => if endsBlock.isIn next then none else some line
  else none

/-- The lines that follow an unconditional exit from their block. -/
def deadLines (lines : List (Nat × List Char)) : Except BadOffset (List Nat) :=
  lines.zipIdx.filterMapM fun ((_, text), i) => do
    let earlier ← frontOf i lines
    let later ← restOf (i + 1) lines
    pure (deadAfter? text earlier later)

/-- The walk over the lines remembers of the earlier ones the last that is not empty. -/
theorem deadLines_append (earlier : List (Nat × List Char)) : ∀ lines : List (Nat × List Char),
    Mend.ControlFlow.deadLines ((firstFull? earlier.reverse).map Prod.snd) lines =
      (lines.zipIdx earlier.length).filterMap fun ((_, text), i) =>
        deadAfter? text ((earlier ++ lines).take i) ((earlier ++ lines).drop (i + 1))
  | [] => rfl
  | (line, text) :: rest => by
    have hprevious :
        (if text.isEmpty then (firstFull? earlier.reverse).map Prod.snd else some text) =
        (firstFull? (earlier ++ [(line, text)]).reverse).map Prod.snd := by
      cases htext : text.isEmpty <;> simp [firstFull?, htext]
    have hlater := deadLines_append (earlier ++ [(line, text)]) rest
    rw [← hprevious, List.append_assoc, List.singleton_append, List.length_append,
      List.length_singleton] at hlater
    have htake : (earlier ++ (line, text) :: rest).take earlier.length = earlier :=
      List.take_left' rfl
    have hdrop : (earlier ++ (line, text) :: rest).drop (earlier.length + 1) = rest := by
      simp [List.drop_append]
    rw [Mend.ControlFlow.deadLines, hlater, List.zipIdx_cons, List.filterMap_cons]
    generalize (rest.zipIdx (earlier.length + 1)).filterMap _ = later
    simp only [htake, hdrop, deadAfter?]
    split
    · rw [firstFull?]
      cases rest.find? fun l => !l.2.isEmpty with
      | none => rfl
      | some next =>
        simp only [Option.bind_some]
        split <;> rfl
    · rfl

theorem deadLines_eq (lines : List (Nat × List Char)) :
    deadLines lines = .ok (Mend.ControlFlow.deadLines none lines) := by
  rw [show (none : Option (List Char)) = (firstFull? [].reverse).map Prod.snd from rfl,
    deadLines_append [] lines]
  refine filterMapM_eq_ok fun ⟨⟨line, text⟩, i⟩ hi => ?_
  have hlt : i < lines.length := by
    have := List.mem_zipIdx hi
    omega
  simp only [frontOf_eq hlt.le, restOf_eq (Nat.succ_le_of_lt hlt), bind, Except.bind]
  rfl

/-- Code after an exit from its block. -/
def unreachableCode (ctx : Context) : Except BadOffset (List Detection) := do
  let dead ← deadLines (ctx.maskedLines.map fun (n, text) => (n, Text.trim text))
  dead.mapM fun line => do
    let row ← lineOf ctx.index ctx.masked line
    let indent ← stepBack (Text.width (Text.trimStart row)) (Text.width row)
    let start ← lineStart ctx.index line
    pure ⟨start + indent, .low, "Unreachable code",
      "Remove the dead statements or fix the early exit"⟩

theorem width_indentation (row : List Char) :
    Text.width (Text.indentation row) + Text.width (Text.trimStart row) = Text.width row := by
  rw [← Text.width_append, Text.indentation, Text.trimStart, List.takeWhile_append_dropWhile]

theorem unreachableCode_eq (hctx : ctx.Fits) :
    unreachableCode ctx = Mend.ControlFlow.unreachableCode.detect ctx := by
  rw [unreachableCode, deadLines_eq]
  refine mapM_eq_ok fun line _ => ?_
  have hindent := width_indentation (ctx.maskedLine line)
  have hle : Text.width (Text.trimStart (ctx.maskedLine line)) ≤
      Text.width (ctx.maskedLine line) := by
    omega
  have hsub : Text.width (ctx.maskedLine line) - Text.width (Text.trimStart (ctx.maskedLine line)) =
      Text.width (Text.indentation (ctx.maskedLine line)) := by
    omega
  simp only [lineOf_masked hctx, stepBack_eq hle, lineStart_eq, bind, Except.bind, hsub]
  rfl

end Mend.Checked.ControlFlow
