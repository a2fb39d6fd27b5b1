import Mend.Proofs.Rule.Distinct
import Mend.Proofs.Text.Position
import Mend.Text.Balance

/-!
# State set after a pause

The rule walks over the lines and remembers that one of them waited, until a line ends with the
header of a function and says `async`, or looks at `mounted` (`Flutter.forgets`). What the walk
remembers comes to one bit (`Waiting.alert`), and what one line does to it adds up over all of them
(`mem_lateSetStates_iff`).

So a pause is carried into another function exactly where no such line stands between them. Where
each return to depth zero after a pause is followed by the header of an `async` function (`Headed`),
the rule keeps to one function (`setStateAfterAwait_within`); a function of another kind takes the
pause over from the one before it (`not_setStateAfterAwait_within`).
-/

namespace Mend

/-! ## Lines -/

namespace Context

variable {ctx : Context}

/-- A later line does not end before an earlier one. -/
theorem lineEnd_le (hctx : ctx.Indexed) {l l' : Nat × List Char} (hl : l ∈ ctx.maskedLines)
    (hl' : l' ∈ ctx.maskedLines) (hle : l.1 ≤ l'.1) :
    (ctx.index.lineRange l.1).2 ≤ (ctx.index.lineRange l'.1).2 := by
  obtain ⟨i, row, hi, hrow, -⟩ := exists_row_of_mem_maskedLines hl
  obtain ⟨j, row', hj, hrow', -⟩ := exists_row_of_mem_maskedLines hl'
  rw [hctx, hi, hj, Text.LineIndex.lineRange_eq hrow, Text.LineIndex.lineRange_eq hrow']
  rcases Nat.eq_or_lt_of_le hle with heq | hlt
  · obtain rfl : i = j := by omega
    obtain rfl := Option.some.inj (hrow.symm.trans hrow')
    exact Nat.le_refl _
  · have := Text.LineIndex.lineStart_add_lt hrow (Nat.le_refl _) (show i < j by omega)
      (List.getElem?_eq_some_iff.mp hrow').1
    simp only
    omega

end Context

namespace Flutter

open Pattern

/-! ## What one line does -/

/-- A line that ends with the header of a function and says `async`. -/
def isAsyncHeader (text : List Char) : Bool := functionHeader.isIn text && Text.has text "async"

/-- A line at which the walk forgets that another one waited. -/
def forgets (text : List Char) : Bool := isAsyncHeader text || (whole "mounted").isIn text

/-- The walk objects to the next call that sets state. -/
def Waiting.alert (w : Waiting) : Bool := w.waited && !w.guarded

theorem Waiting.alert_enter (w : Waiting) (text : List Char) :
    (w.enter text).alert = (w.alert && !forgets text) := by
  rw [Waiting.enter, forgets, isAsyncHeader, Waiting.alert, Waiting.alert]
  cases functionHeader.isIn text && Text.has text "async" <;>
    cases (whole "mounted").isIn text <;> simp

theorem Waiting.alert_leave (w : Waiting) (text : List Char) :
    (w.leave text).alert = (w.alert || suspension.isIn text) := by
  rw [Waiting.leave, Waiting.alert, Waiting.alert]
  cases suspension.isIn text <;> simp

/-! ## What all lines do -/

/-- A line before this one waited, and none since then made the walk forget it. -/
def Pending (lines : List (Nat × List Char)) (line : Nat) : Prop :=
  ∃ k ∈ lines, k.1 < line ∧ suspension.isIn k.2 ∧
    ∀ l ∈ lines, k.1 < l.1 → l.1 ≤ line → forgets l.2 = false

/-- The same, but what the walk knew at the start counts too. -/
def Waiting.PendingAt (w : Waiting) (lines : List (Nat × List Char)) (line : Nat) : Prop :=
  (w.alert ∧ ∀ l ∈ lines, l.1 ≤ line → forgets l.2 = false) ∨ Pending lines line

section

variable {w : Waiting} {line n at' : Nat} {text : List Char} {rest : List (Nat × List Char)}

theorem pending_cons (hn : ∀ l ∈ rest, n < l.1) (hlt : n < line) :
    Pending ((n, text) :: rest) line ↔
      (suspension.isIn text ∧ ∀ l ∈ rest, l.1 ≤ line → forgets l.2 = false) ∨ Pending rest line := by
  constructor
  · rintro ⟨k, hk, hbefore, hwaits, hkept⟩
    rcases List.mem_cons.mp hk with rfl | hk
    · exact .inl ⟨hwaits, fun l hl => hkept l (List.mem_cons_of_mem _ hl) (hn l hl)⟩
    · exact .inr ⟨k, hk, hbefore, hwaits, fun l hl => hkept l (List.mem_cons_of_mem _ hl)⟩
  · rintro (⟨hwaits, hkept⟩ | ⟨k, hk, hbefore, hwaits, hkept⟩)
    · refine ⟨(n, text), List.mem_cons_self, hlt, hwaits, fun l hl hafter => ?_⟩
      rcases List.mem_cons.mp hl with rfl | hl
      · exact absurd hafter (Nat.lt_irrefl _)
      · exact hkept l hl
    · refine ⟨k, List.mem_cons_of_mem _ hk, hbefore, hwaits, fun l hl hafter => ?_⟩
      rcases List.mem_cons.mp hl with rfl | hl
      · exact absurd hafter (Nat.not_lt.mpr (hn k hk).le)
      · exact hkept l hl hafter

/-- After a line the walk knows what was pending there. -/
theorem Waiting.pendingAt_cons (hn : ∀ l ∈ rest, n < l.1) (hlt : n < line) :
    w.PendingAt ((n, text) :: rest) line ↔ ((w.enter text).leave text).PendingAt rest line := by
  rw [PendingAt, PendingAt, pending_cons hn hlt, alert_leave, alert_enter]
  simp only [List.forall_mem_cons, hlt.le, Bool.or_eq_true, Bool.and_eq_true, Bool.not_eq_true',
    true_imp_iff]
  tauto

/-- On its first line the walk goes by what it knew at the start. -/
theorem Waiting.pendingAt_head (hn : ∀ l ∈ rest, n < l.1) :
    w.PendingAt ((n, text) :: rest) n ↔ (w.enter text).alert := by
  have hlater (l) (hl : l ∈ rest) : ¬ l.1 ≤ n := Nat.not_le.mpr (hn l hl)
  have hnone : ¬ Pending ((n, text) :: rest) n := by
    rintro ⟨k, hk, hbefore, -⟩
    rcases List.mem_cons.mp hk with rfl | hk
    · exact absurd hbefore (Nat.lt_irrefl _)
    · exact hlater k hk hbefore.le
  rw [PendingAt, alert_enter, Bool.and_eq_true, Bool.not_eq_true']
  simp only [hnone, or_false, List.forall_mem_cons, Nat.le_refl, true_imp_iff]
  exact and_congr_right fun _ => and_iff_left fun l hl hle => absurd hle (hlater l hl)

theorem mem_lateSetStates_cons : (line, at') ∈ lateSetStates w ((n, text) :: rest) ↔
    (line = n ∧ (w.enter text).alert ∧ ∃ m, setStateCall.find? text = some m ∧ m.start = at') ∨
      (line, at') ∈ lateSetStates ((w.enter text).leave text) rest := by
  rw [lateSetStates]
  cases hm : setStateCall.find? text with
  | none => simp
  | some m =>
    have halert : ((w.enter text).waited && !(w.enter text).guarded) = (w.enter text).alert := rfl
    simp only [halert, Option.some.injEq]
    cases (w.enter text).alert with
    | false => simp
    | true => simp [Prod.ext_iff, eq_comm]

end

/-- The walk finds the lines that set state while a pause is pending, each with its first such
call. -/
theorem mem_lateSetStates_iff {line at' : Nat} : ∀ {w : Waiting} {lines : List (Nat × List Char)},
    (lines.map Prod.fst).Pairwise (· < ·) → ((line, at') ∈ lateSetStates w lines ↔
      ∃ text m, (line, text) ∈ lines ∧ setStateCall.find? text = some m ∧ m.start = at' ∧
        w.PendingAt lines line)
  | w, [], _ => by simp [lateSetStates]
  | w, (n, text) :: rest, h => by
    rw [List.map_cons, List.pairwise_cons, List.forall_mem_map] at h
    obtain ⟨hn, hsorted⟩ := h
    rw [mem_lateSetStates_cons, mem_lateSetStates_iff hsorted]
    constructor
    · rintro (⟨rfl, halert, m, hm, rfl⟩ | ⟨text', m, hmem, hm, rfl, hpending⟩)
      · exact ⟨text, m, List.mem_cons_self, hm, rfl, (Waiting.pendingAt_head hn).mpr halert⟩
      · exact ⟨text', m, List.mem_cons_of_mem _ hmem, hm, rfl,
          (Waiting.pendingAt_cons hn (hn _ hmem)).mpr hpending⟩
    · rintro ⟨text', m, hmem, hm, rfl, hpending⟩
      rcases List.mem_cons.mp hmem with heq | hmem
      · obtain ⟨rfl, rfl⟩ := Prod.mk.inj heq
        exact .inl ⟨rfl, (Waiting.pendingAt_head hn).mp hpending, m, hm, rfl⟩
      · exact .inr ⟨text', m, hmem, hm, rfl, (Waiting.pendingAt_cons hn (hn _ hmem)).mp hpending⟩

/-! ## Functions -/

/-- How many braces are open at an offset. -/
def depthAt (s : List Char) (offset : Nat) : Int :=
  (Text.Balance.ofMasked (Text.cut 0 offset s)).braces

/-- Where no brace is open after a line that waited, the header of an `async` function ends a line
before the offset or the one with it. -/
def Headed (ctx : Context) (offset : Nat) : Prop :=
  ∀ p < offset + 1, depthAt ctx.masked p = 0 →
    (∃ k ∈ ctx.maskedLines, suspension.isIn k.2 ∧ (ctx.index.lineRange k.1).2 ≤ p) →
      ∃ l ∈ ctx.maskedLines, isAsyncHeader l.2 ∧ l.1 ≤ ctx.index.lineOf offset ∧
        p < (ctx.index.lineRange l.1).2

section

variable {ctx : Context}

theorem exists_mem_detect_iff (hctx : ctx.Indexed) {ds : List Detection}
    (h : setStateAfterAwait.detect ctx = .ok ds) {line : Nat} :
    (∃ d ∈ ds, ctx.index.lineOf d.offset = line) ↔
      ∃ text, (line, text) ∈ ctx.maskedLines ∧ setStateCall.isIn text ∧
        Pending ctx.maskedLines line := by
  obtain rfl := Except.ok.inj h
  have hfound {line at' : Nat} : (line, at') ∈ lateSetStates {} ctx.maskedLines ↔ _ :=
    mem_lateSetStates_iff ctx.pairwise_maskedLines
  have hline {line at' : Nat} (h : (line, at') ∈ lateSetStates {} ctx.maskedLines) :
      ctx.index.lineOf (ctx.index.lineStart line + at') = line := by
    obtain ⟨text, hmem, hle⟩ := exists_of_mem_lateSetStates h
    obtain ⟨i, row, rfl, hrow, rfl⟩ := Context.exists_row_of_mem_maskedLines hmem
    rw [hctx]
    exact Text.LineIndex.lineOf_lineStart_add hrow
      (hle.trans (Context.width_withoutReturns_le row))
  have hstart (line : Nat) : Waiting.PendingAt {} ctx.maskedLines line ↔
      Pending ctx.maskedLines line := or_iff_right fun hknown => by cases hknown.1
  constructor
  · rintro ⟨d, hd, rfl⟩
    obtain ⟨⟨line, at'⟩, hmem, rfl⟩ := List.mem_map.mp hd
    obtain ⟨text, m, htext, hm, rfl, hpending⟩ := hfound.mp hmem
    refine ⟨text, ?_, by rw [Pattern.isIn, hm]; rfl, ?_⟩
    · rwa [hline hmem]
    · rwa [hline hmem, ← hstart]
  · rintro ⟨text, htext, hcall, hpending⟩
    obtain ⟨m, hm⟩ := Option.isSome_iff_exists.mp hcall
    have hmem := hfound.mpr ⟨text, m, htext, hm, rfl, (hstart line).mpr hpending⟩
    exact ⟨_, List.mem_map_of_mem hmem, hline hmem⟩

/-- A pause that is pending is one of the same function. -/
theorem Headed.exists_of_pending {offset : Nat} (h : Headed ctx offset) (hctx : ctx.Indexed)
    (hpending : Pending ctx.maskedLines (ctx.index.lineOf offset)) :
    ∃ k ∈ ctx.maskedLines, suspension.isIn k.2 ∧ k.1 < ctx.index.lineOf offset ∧
      ∀ p, (ctx.index.lineRange k.1).2 ≤ p → p ≤ offset → depthAt ctx.masked p ≠ 0 := by
  obtain ⟨k, hk, hbefore, hwaits, hkept⟩ := hpending
  refine ⟨k, hk, hwaits, hbefore, fun p hafter hp hdepth => ?_⟩
  obtain ⟨l, hl, hheader, hle, hlt⟩ := h p (Nat.lt_succ_of_le hp) hdepth ⟨k, hk, hwaits, hafter⟩
  have hlater : k.1 < l.1 := by
    by_contra hnot
    have := Context.lineEnd_le hctx hl hk (Nat.le_of_not_lt hnot)
    omega
  have hforgets := hkept l hl hlater hle
  rw [forgets, hheader, Bool.true_or] at hforgets
  cases hforgets

end

/-- The rule objects to the lines that set state while a pause is pending. If each return to depth
zero after a pause is followed by the header of an `async` function, it objects only to a line that
follows a pause in the same function. -/
theorem setStateAfterAwait_within {path : Path} {content : String} {platform : Platform}
    {ctx : Context} (hctx : Context.of? path content platform = some ctx) :
    ∃ ds, setStateAfterAwait.detect ctx = .ok ds ∧
      (∀ line, (∃ d ∈ ds, ctx.index.lineOf d.offset = line) ↔
        ∃ text, (line, text) ∈ ctx.maskedLines ∧ setStateCall.isIn text ∧
          Pending ctx.maskedLines line) ∧
      ∀ d ∈ ds, Headed ctx d.offset → ∃ k ∈ ctx.maskedLines, suspension.isIn k.2 ∧
        k.1 < ctx.index.lineOf d.offset ∧
          ∀ p, (ctx.index.lineRange k.1).2 ≤ p → p ≤ d.offset → depthAt ctx.masked p ≠ 0 := by
  have hindexed := Context.indexed_of? hctx
  refine ⟨_, rfl, fun line => exists_mem_detect_iff hindexed rfl, fun d hd hheaded => ?_⟩
  obtain ⟨text, -, -, hpending⟩ := (exists_mem_detect_iff hindexed rfl).mp ⟨d, hd, rfl⟩
  exact hheaded.exists_of_pending hindexed hpending

/-- A file of Dart. -/
def dartFile (text : String) : Context where
  path := ⟨"page.dart"⟩
  source := text.toList
  masked := Text.Mask.mask .dart text.toList
  index := .of text.toList
  platform := .flutter
  language := .dart

theorem of?_dartFile (text : String) :
    Context.of? ⟨"page.dart"⟩ text .flutter = some (dartFile text) := rfl

/-- A file of one function, which sets state after a pause. -/
def loadingFile : Context := dartFile "load() async \x7b\n  await get();\n  setState(f);\n\x7d\n"

theorem setStateAfterAwait_within_load : ∃ ds, setStateAfterAwait.detect loadingFile = .ok ds ∧
    ∃ d ∈ ds, Headed loadingFile d.offset ∧ ∃ k ∈ loadingFile.maskedLines, suspension.isIn k.2 ∧
      k.1 < loadingFile.index.lineOf d.offset ∧ ∀ p, (loadingFile.index.lineRange k.1).2 ≤ p →
        p ≤ d.offset → depthAt loadingFile.masked p ≠ 0 := by
  obtain ⟨ds, hds, -, hwithin⟩ := setStateAfterAwait_within (of?_dartFile _ : _ = some loadingFile)
  obtain rfl := Except.ok.inj hds
  have hmem : (3, 2) ∈ lateSetStates {} loadingFile.maskedLines := by decide +kernel
  have hheaded : Headed loadingFile (loadingFile.index.lineStart 3 + 2) := by
    unfold Headed
    decide +kernel
  exact ⟨_, hds, _, List.mem_map_of_mem hmem, hheaded, hwithin _ (List.mem_map_of_mem hmem) hheaded⟩

/-- A pause in an `async` function is carried into the next one, which is of another kind. -/
theorem not_setStateAfterAwait_within : ¬ ∀ (path : Path) (content : String) (platform : Platform)
    (ctx : Context), Context.of? path content platform = some ctx →
    ∀ ds, setStateAfterAwait.detect ctx = .ok ds → ∀ d ∈ ds, ∃ k ∈ ctx.maskedLines,
      suspension.isIn k.2 ∧ k.1 < ctx.index.lineOf d.offset ∧
        ∀ p < d.offset + 1, (ctx.index.lineRange k.1).2 ≤ p → depthAt ctx.masked p ≠ 0 := by
  intro h
  let ctx := dartFile "load() async \x7b\n  await get();\n\x7d\nreset() \x7b\n  setState(f);\n\x7d\n"
  have hmem : (5, 2) ∈ lateSetStates {} ctx.maskedLines := by decide +kernel
  have hwithin := h _ _ _ ctx (of?_dartFile _) _ rfl _ (List.mem_map_of_mem hmem)
  exact absurd hwithin (by decide +kernel)

end Flutter

end Mend
