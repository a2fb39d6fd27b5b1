import Mend.Proofs.Checked.Basic
import Mend.Proofs.Rule.Basic
import Mend.Proofs.Text.Good

/-!
# What rules share, with every offset checked

The rules cut texts with `Text.cut` and `Text.after`, which take any offset. Here the helpers that
they share are written once more so that a cut at a bad offset is refused, with `Text.before`,
`Text.onward` and `Text.between`, and so is a step back over the start (`Checked.stepBack`). On a
file whose line index is that of both its texts (`Context.Fits`) nothing is refused, and each helper
gives what its unchecked form gives. Only the receiver of an operator may be asked for at a bad
offset, and there both forms refuse it (`Checked.receiverBefore_eq`).
-/

namespace Mend

open Text (BadOffset Good)

/-- The line index is the one of the source and of the masked text. -/
structure Context.Fits (ctx : Context) : Prop where
  masked : ctx.index = .of ctx.masked
  source : ctx.index = .of ctx.source

theorem Context.fits_of? {path : Path} {content : String} {platform : Platform} {ctx : Context}
    (h : of? path content platform = some ctx) : ctx.Fits := by
  refine ⟨indexed_of? h, ?_⟩
  obtain ⟨language, -, rfl⟩ := Option.map_eq_some_iff.mp h
  rfl

namespace Checked

/-! ## Lines -/

/-- The offset at which a line starts. -/
def lineStart (index : Text.LineIndex) (line : Nat) : Except BadOffset Nat :=
  if line ≤ 1 then .ok 0
  else do
    let place ← stepBack 2 line
    pure <| match index.newlines[place]? with
      | some nl => nl + 1
      | none => index.size

@[simp] theorem lineStart_eq (index : Text.LineIndex) (line : Nat) :
    lineStart index line = .ok (index.lineStart line) := by
  rw [lineStart, Text.LineIndex.lineStart]
  split
  · rfl
  · rw [stepBack_eq (by omega)]
    rfl

/-- The offsets of a line. -/
def lineRange (index : Text.LineIndex) (line : Nat) : Except BadOffset (Nat × Nat) := do
  let start ← lineStart index line
  let stop := index.newlines[line - 1]?.getD index.size
  pure (start, max stop start)

@[simp] theorem lineRange_eq (index : Text.LineIndex) (line : Nat) :
    lineRange index line = .ok (index.lineRange line) := by
  rw [lineRange, lineStart_eq]
  rfl

/-- The part of a text that its index gives to a line. -/
def lineOf (index : Text.LineIndex) (text : List Char) (line : Nat) :
    Except BadOffset (List Char) := do
  let (start, stop) ← lineRange index line
  let row ← Text.between start stop text
  pure (Context.withoutReturns row)

theorem lineOf_eq {index : Text.LineIndex} {text : List Char} (h : index = .of text) (line : Nat) :
    lineOf index text line = .ok (Context.withoutReturns
      (Text.cut (index.lineRange line).1 (index.lineRange line).2 text)) := by
  subst h
  obtain ⟨hstart, hstop, hle⟩ := Text.good_lineRange text line
  simp only [lineOf, lineRange_eq, bind, Except.bind, Text.between_eq_cut hstart hstop hle]
  rfl

variable {ctx : Context}

@[simp] theorem lineOf_source (hctx : ctx.Fits) (line : Nat) :
    lineOf ctx.index ctx.source line = .ok (ctx.lineText line) :=
  lineOf_eq hctx.source line

@[simp] theorem lineOf_masked (hctx : ctx.Fits) (line : Nat) :
    lineOf ctx.index ctx.masked line = .ok (ctx.maskedLine line) :=
  lineOf_eq hctx.masked line

/-- One of the lines before tests the name for null. -/
def guardedNearby (ctx : Context) (line : Nat) (name : List Char) (lookback : Nat) :
    Except BadOffset Bool :=
  if name.isEmpty then .ok false
  else
    let first := max (line - lookback) 1
    (List.range' first (line - first)).anyM fun l => do
      let text ← lineOf ctx.index ctx.masked l
      pure (Text.occurs name text &&
        (Context.nullTests.any (Text.has text) || Text.occurs ("if (".toList ++ name ++ [')']) text
          || Text.occurs ("if (".toList ++ name ++ [' ']) text))

theorem guardedNearby_eq (hctx : ctx.Fits) (line : Nat) (name : List Char) (lookback : Nat) :
    guardedNearby ctx line name lookback = .ok (ctx.guardedNearby line name lookback) := by
  rw [guardedNearby, Context.guardedNearby]
  split
  · rfl
  · refine anyM_eq_ok fun l _ => ?_
    rw [lineOf_masked hctx]
    rfl

/-- One of the lines has the word `is` and the type. -/
def typeTested (ctx : Context) (line back last : Nat) (type : List Char) : Except BadOffset Bool :=
  let first := max (line - back) 1
  (List.range' first (last + 1 - first)).anyM fun l => do
    let text ← lineOf ctx.index ctx.masked l
    pure (Text.occurs ("is ".toList ++ type) text)

theorem typeTested_eq (hctx : ctx.Fits) (line back last : Nat) (type : List Char) :
    typeTested ctx line back last type = .ok (ctx.typeTested line back last type) := by
  refine anyM_eq_ok fun l _ => ?_
  rw [lineOf_masked hctx]
  rfl

/-- What a rule says about a place, with its column and its line read with care. -/
def finding (r : Rule) (ctx : Context) (d : Detection) : Except BadOffset Finding := do
  let line := ctx.index.lineOf d.offset
  let start ← lineStart ctx.index line
  let text ← lineOf ctx.index ctx.source line
  pure { r.finding ctx d with
    line, column := some (d.offset - start + 1), evidence := String.ofList (Text.trim text) }

theorem finding_eq (hctx : ctx.Fits) (r : Rule) (d : Detection) :
    finding r ctx d = .ok (r.finding ctx d) := by
  rw [finding, lineStart_eq, lineOf_source hctx]
  rfl

/-! ## Blocks -/

/-- Where the brackets of a kind are all closed, with the count of open ones never below zero. -/
def closeFrom (kind : Text.Delimiter) : Nat → Nat → List Char → Except BadOffset (Option Nat)
  | _, _, [] => .ok none
  | depth, pos, c :: s =>
    if c = kind.opener then closeFrom kind (depth + 1) (pos + c.utf8Size) s
    else if c = kind.closer then do
      let depth ← stepBack 1 depth
      if depth = 0 then pure (some pos) else closeFrom kind depth (pos + c.utf8Size) s
    else closeFrom kind depth (pos + c.utf8Size) s

theorem closeFrom_eq (kind : Text.Delimiter) : ∀ {depth : Nat} (pos : Nat) (s : List Char),
    0 < depth → closeFrom kind depth pos s = .ok (Text.closeFrom kind depth pos s)
  | _, _, [], _ => rfl
  | depth, pos, c :: s, h => by
    rw [closeFrom, Text.closeFrom]
    split
    · exact closeFrom_eq kind _ s (Nat.succ_pos depth)
    split
    · rw [stepBack_eq h]
      simp only [bind, Except.bind]
      by_cases hdepth : depth = 1
      · rw [if_pos hdepth, if_pos (by omega)]
        rfl
      · rw [if_neg hdepth, if_neg (by omega), closeFrom_eq kind _ s (by omega)]
    · exact closeFrom_eq kind _ s h

/-- The closer that matches the opener at an offset. -/
def matchingClose (s : List Char) (opening : Nat) : Except BadOffset (Option Nat) :=
  match Text.from? opening s with
  | some (c :: rest) =>
    match Text.Delimiter.ofOpener? c with
    | some kind => closeFrom kind 0 opening (c :: rest)
    | none => .ok none
  | _ => .ok none

@[simp] theorem matchingClose_eq (s : List Char) (opening : Nat) :
    matchingClose s opening = .ok (Text.matchingClose s opening) := by
  unfold matchingClose Text.matchingClose
  cases Text.from? opening s with
  | none => rfl
  | some text =>
    cases text with
    | nil => rfl
    | cons c rest =>
      simp only
      cases hkind : Text.Delimiter.ofOpener? c with
      | none => rfl
      | some kind =>
        obtain ⟨rfl, -⟩ := Text.size_of_ofOpener? hkind
        simp only [Option.bind_some, closeFrom, Text.closeFrom, if_true]
        exact closeFrom_eq kind _ _ Nat.one_pos

/-- Where the block that a match opens has its brace. -/
def brace? (ctx : Context) (reach : Nat) (m : Match) : Option Nat :=
  if Text.endsWith (m.text ctx.masked) "\x7b" then some (m.stop - 1)
  else do
    let window ← Text.slice? m.stop (min (Count.wrapped (m.stop + reach)) (Text.width ctx.masked))
      ctx.masked
    let ahead ← Text.find? (· == '\x7b') window
    pure (m.stop + ahead)

/-- `brace?` with care. -/
def braceOf (ctx : Context) (reach : Nat) (m : Match) : Except BadOffset (Option Nat) := do
  let text ← Text.between m.start m.stop ctx.masked
  if Text.endsWith text "\x7b" then
    let opening ← stepBack 1 m.stop
    pure (some opening)
  else pure do
    let window ← Text.slice? m.stop (min (Count.wrapped (m.stop + reach)) (Text.width ctx.masked))
      ctx.masked
    let ahead ← Text.find? (· == '\x7b') window
    pure (m.stop + ahead)

theorem pos_of_endsWith {s : List Char} {lo hi : Nat} (hlo : Good s lo) (hhi : Good s hi)
    (hle : lo ≤ hi) (h : Text.endsWith (Text.cut lo hi s) "\x7b" = true) : 1 ≤ hi := by
  obtain ⟨front, mid, back, rfl, rfl, rfl⟩ := Text.exists_part hlo hhi hle
  rw [Text.cut_append, Text.endsWith, List.isSuffixOf_iff_suffix] at h
  obtain ⟨start, rfl⟩ := h
  have : Text.width "\x7b".toList = 1 := rfl
  rw [Text.width_append]
  omega

theorem braceOf_eq {p : Pattern} {m : Match} (hm : m ∈ p.findAll ctx.masked) (reach : Nat) :
    braceOf ctx reach m = .ok (brace? ctx reach m) := by
  obtain ⟨hstart, hstop, hle⟩ := Pattern.good_of_mem_findAll hm
  rw [braceOf, Text.between_eq_cut hstart hstop hle, brace?, Match.text]
  simp only [bind, Except.bind]
  split
  · next hends =>
    rw [stepBack_eq (pos_of_endsWith hstart hstop hle hends)]
    rfl
  · rfl

/-- After the brace comes a good offset. -/
theorem good_of_brace? {p : Pattern} {m : Match} (hm : m ∈ p.findAll ctx.masked)
    {reach opening : Nat} (h : brace? ctx reach m = some opening) :
    Good ctx.masked (opening + 1) := by
  obtain ⟨hstart, hstop, hle⟩ := Pattern.good_of_mem_findAll hm
  rw [brace?] at h
  split at h
  · next hends =>
    obtain rfl := Option.some.inj h
    rwa [Nat.sub_add_cancel (pos_of_endsWith hstart hstop hle hends)]
  · obtain ⟨window, hwindow, h⟩ := Option.bind_eq_some_iff.mp h
    obtain ⟨ahead, hahead, h⟩ := Option.bind_eq_some_iff.mp h
    obtain rfl := Option.some.inj h
    obtain ⟨rest, hfrom, -⟩ := Text.exists_from?_of_slice? hwindow
    obtain ⟨front, c, back, rfl, rfl, hc⟩ :=
      Text.exists_of_mem_offsetsOf (List.mem_of_head? hahead)
    obtain ⟨start, hmasked, hwidth⟩ := Text.exists_of_from? hfrom
    obtain rfl : c = '\x7b' := beq_iff_eq.mp hc
    have hgood : Good (start ++ front ++ '\x7b' :: (back ++ rest))
        (Text.width (start ++ front) + 1) := Text.good_succ rfl
    rw [Text.width_append, hwidth] at hgood
    rw [hmasked]
    simpa using hgood

/-- The blocks whose opening brace ends a match or comes soon after one. -/
def blocksAfter (ctx : Context) (opener : Pattern) (reach : Nat) : Except BadOffset (List Block) :=
  (opener.findAll ctx.masked).filterMapM fun m => do
    match ← braceOf ctx reach m with
    | none => pure none
    | some opening =>
      match ← matchingClose ctx.masked opening with
      | some close => pure (some ⟨m.start, opening, ⟨opening + 1, close⟩, true⟩)
      | none => pure (some ⟨m.start, opening, ⟨opening + 1, Text.width ctx.masked⟩, false⟩)

/-- The block that a match opens. -/
def blockAt (ctx : Context) (m : Match) (opening : Nat) : Block :=
  match Text.matchingClose ctx.masked opening with
  | some close => ⟨m.start, opening, ⟨opening + 1, close⟩, true⟩
  | none => ⟨m.start, opening, ⟨opening + 1, Text.width ctx.masked⟩, false⟩

theorem blocksAfter_def (ctx : Context) (opener : Pattern) (reach : Nat) :
    ctx.blocksAfter opener reach =
      (opener.findAll ctx.masked).filterMap fun m => (brace? ctx reach m).map (blockAt ctx m) := by
  refine List.filterMap_congr fun m _ => ?_
  rw [brace?]
  split
  · rfl
  · cases Text.slice? m.stop (min (Count.wrapped (m.stop + reach)) (Text.width ctx.masked))
        ctx.masked with
    | none => rfl
    | some window =>
      simp only [bind, pure, Option.bind_some]
      cases Text.find? (· == '\x7b') window <;> rfl

@[simp] theorem blocksAfter_eq (ctx : Context) (opener : Pattern) (reach : Nat) :
    blocksAfter ctx opener reach = .ok (ctx.blocksAfter opener reach) := by
  rw [blocksAfter_def]
  refine filterMapM_eq_ok fun m hm => ?_
  rw [braceOf_eq hm]
  cases brace? ctx reach m with
  | none => rfl
  | some opening =>
    simp only [bind, Except.bind, matchingClose_eq, Option.map_some, blockAt]
    cases Text.matchingClose ctx.masked opening <;> rfl

/-- The code between the braces of a block. -/
def bodyOf (ctx : Context) (b : Block) : Except BadOffset (List Char) :=
  Text.between b.body.start b.body.stop ctx.masked

theorem bodyOf_eq {opener : Pattern} {reach : Nat} {b : Block}
    (h : b ∈ ctx.blocksAfter opener reach) : bodyOf ctx b = .ok (ctx.bodyOf b) := by
  rw [blocksAfter_def] at h
  obtain ⟨m, hm, hb⟩ := List.mem_filterMap.mp h
  obtain ⟨opening, hopening, rfl⟩ := Option.map_eq_some_iff.mp hb
  have hgood := good_of_brace? hm hopening
  rw [blockAt]
  split
  · next close hclose =>
    obtain ⟨-, -, hstop, hle⟩ := Text.good_of_matchingClose hclose
    exact Text.between_eq_cut hgood hstop hle
  · exact Text.between_eq_cut hgood (Text.good_width _) hgood.le_width

/-- A rule that cuts the text for its blocks only: these are looked for with care. -/
def afterBlocks (openers : List (Pattern × Nat)) (r : Rule) (ctx : Context) :
    Except BadOffset (List Detection) := do
  let _ ← openers.mapM fun (opener, reach) => blocksAfter ctx opener reach
  r.detect ctx

theorem afterBlocks_eq (openers : List (Pattern × Nat)) (r : Rule) (ctx : Context) :
    afterBlocks openers r ctx = r.detect ctx := by
  rw [afterBlocks, mapM_eq_ok fun o _ => blocksAfter_eq ctx o.1 o.2]
  rfl

/-! ## Statements and receivers -/

/-- The part of a statement before an offset. -/
def statementBefore (s : List Char) (offset : Nat) : Except BadOffset (List Char) := do
  let start ← statementStart s offset
  Text.between start offset s

theorem good_lastStatementStart (front : List Char) : Good front (lastStatementStart front) := by
  have hsize : ∀ c, endsStatement c = true → c.utf8Size = 1 := by
    intro c hc
    rw [endsStatement, Bool.or_eq_true, Bool.or_eq_true, beq_iff_eq, beq_iff_eq, beq_iff_eq] at hc
    rcases hc with (rfl | rfl) | rfl <;> rfl
  rw [lastStatementStart]
  split
  · next at' hlast => exact Text.good_succ_of_mem_offsetsOf hsize (List.mem_of_getLast? hlast)
  · exact Text.good_zero front

theorem statementBefore_eq {s : List Char} {offset : Nat} (h : Good s offset) :
    statementBefore s offset = .ok (Mend.statementBefore s offset) := by
  obtain ⟨front, back, rfl, rfl⟩ := h
  have hgood : Good (front ++ back) (Text.width front) := ⟨front, back, rfl, rfl⟩
  obtain ⟨start, rest, hfront, hstart⟩ := good_lastStatementStart front
  have hcut := Text.cut_append start rest back
  rw [← Text.width_append, ← hfront, hstart] at hcut
  have hafter := Text.after_width start rest
  rw [← hfront, hstart] at hafter
  rw [statementBefore, statementStart, Mend.statementBefore, hgood.before_eq, Text.cut_width,
    hafter, ← hcut]
  exact Text.between_eq_cut ⟨start, rest ++ back, by rw [hfront, List.append_assoc], hstart⟩ hgood
    (good_lastStatementStart front).le_width

/-- The characters of a text that starts at `pos`, each with its offset. -/
def indices (pos : Nat) : List Char → List (Nat × Char)
  | [] => []
  | c :: s => (pos, c) :: indices (pos + c.utf8Size) s

/-- The chain of names that ends right before an offset. -/
def receiverBefore (s : List Char) (offset : Nat) : Except BadOffset (List Char) := do
  let front ← Text.before offset s
  let chain := (indices 0 front).reverse.takeWhile fun x => isChainChar x.2
  let start := match chain.getLast? with
    | some (at', _) => at'
    | none => offset
  let receiver ← Text.onward start front
  pure (receiver.dropWhile (· == '.'))

theorem indices_append : ∀ (pos : Nat) (s t : List Char),
    indices pos (s ++ t) = indices pos s ++ indices (pos + Text.width s) t
  | _, [], _ => rfl
  | pos, c :: s, t => by
    rw [List.cons_append, indices, indices, indices_append, Text.width, Nat.add_assoc]
    rfl

/-- The last character of a walk backwards over what satisfies `p` stands where the rest ends. -/
theorem getLast?_takeWhile_indices (p : Char → Bool) (front : List Char) :
    (match ((indices 0 front).reverse.takeWhile fun x => p x.2).getLast? with
      | some (at', _) => at'
      | none => Text.width front) = Text.width (front.reverse.dropWhile p).reverse := by
  induction front using List.reverseRecOn with
  | nil => rfl
  | append_singleton front c ih =>
    rw [indices_append, List.reverse_append, List.reverse_append]
    simp only [indices, Nat.zero_add, List.reverse_singleton, List.singleton_append,
      List.takeWhile_cons, List.dropWhile_cons]
    cases hc : p c with
    | false => simp
    | true =>
      rw [if_pos rfl, if_pos rfl, ← ih, List.getLast?_cons]
      cases ((indices 0 front).reverse.takeWhile fun x => p x.2).getLast? <;> rfl

theorem receiverBefore_eq (s : List Char) (offset : Nat) :
    receiverBefore s offset = Mend.receiverBefore s offset := by
  rw [receiverBefore, Mend.receiverBefore]
  cases hbefore : Text.before offset s with
  | error e => rfl
  | ok front =>
    obtain ⟨back, -, rfl⟩ := Text.exists_of_before hbefore
    have hsplit : (front.reverse.dropWhile isChainChar).reverse ++
        (front.reverse.takeWhile isChainChar).reverse = front := by
      rw [← List.reverse_append, List.takeWhile_append_dropWhile, List.reverse_reverse]
    have hstart := getLast?_takeWhile_indices isChainChar front
    have hgood : Good front (Text.width (front.reverse.dropWhile isChainChar).reverse) :=
      ⟨_, _, hsplit.symm, rfl⟩
    have hafter := Text.after_width (front.reverse.dropWhile isChainChar).reverse
      (front.reverse.takeWhile isChainChar).reverse
    rw [hsplit] at hafter
    simp only [bind, Except.bind, Except.map, hstart, hgood.onward_eq, hafter]
    rfl

/-- Detections of an operator one byte after the start of each match. -/
def assertionDetections (ctx : Context) (matches' : List Match) (title suggestion : String) :
    Except BadOffset (List Detection) :=
  matches'.mapM fun m => do
    let bang := m.start + 1
    let receiver ← receiverBefore ctx.masked bang
    let guarded ← guardedNearby ctx (ctx.index.lineOf bang) receiver 3
    pure ⟨bang, if guarded then .low else .medium, title, suggestion⟩

theorem assertionDetections_eq (hctx : ctx.Fits) (matches' : List Match)
    (title suggestion : String) : assertionDetections ctx matches' title suggestion =
      Mend.assertionDetections ctx matches' title suggestion := by
  simp only [assertionDetections, Mend.assertionDetections, receiverBefore_eq,
    guardedNearby_eq hctx]
  rfl

end Checked

end Mend
