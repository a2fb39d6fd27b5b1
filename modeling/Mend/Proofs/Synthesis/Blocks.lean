import Mend.Proofs.Result
import Mend.Proofs.Synthesis.Draft
import Mend.Proofs.Text.Mask
import Mend.Synthesis.Capture
import Mend.Synthesis.Effect

/-!
# Templates for blocks

The templates that change an effect or a closure draft what fits the window, too. What they put in
is cut out of the window's text or of its mask, and the lines around it stay.
-/

namespace Mend.Synthesis

open Attempt Draft

variable {w : Window} (column : Option Nat) {d : Draft}

/-- The text from the focus on has a carriage return before a line feed only if the window does. -/
theorem crlf_of_tailFrom {tail : List Char} {n : Nat} (h : w.tailFrom? n = some tail)
    (hcrlf : ['\r', '\n'] <:+: tail) : ['\r', '\n'] <:+: Window.joined w.lines := by
  rw [Window.tailFrom?_eq h] at hcrlf
  exact hcrlf.trans (Window.joined_drop_suffix _ _).isInfix

/-- The rows of the text from the focus on are the lines of the window. -/
theorem rows_tailFrom {tail : List Char} (hw : w.Plain) (h : w.tailFrom? w.focus = some tail) :
    Text.rows tail = w.lines.drop (w.focus - w.firstLine) := by
  have hne : w.lines.drop (w.focus - w.firstLine) ≠ [] := by
    intro hnil
    rw [List.drop_eq_nil_iff] at hnil
    rw [Window.tailFrom?, if_pos (by simp [hnil])] at h
    cases h
  rw [Window.tailFrom?_eq h]
  exact Text.rows_intercalate hne fun l hl => hw l (List.drop_subset _ _ hl)

/-- The lines of a span from the focus on are the rows of the text from there on. -/
theorem take_rows_of_span {tail : List Char} {n : Nat} (hw : w.Plain) (hn : 1 ≤ n)
    (htail : w.tailFrom? w.focus = some tail) {ls : List (List Char)}
    (hls : w.span? w.focus (w.focus + n - 1) = some ls) : ls = (Text.rows tail).take n := by
  obtain ⟨hshows, hlength⟩ := Window.shows_span hn hls
  rw [rows_tailFrom hw htail, ← hlength, hshows.2]

/-! ## Effects -/

/-- The effect reads the window's text from the focus on. -/
structure Effect.Reads (w : Window) (e : Effect) : Prop where
  tail_eq : w.tailFrom? w.focus = some e.tail
  masked_eq : e.masked = Text.Mask.mask w.language e.tail
  one_le : 1 ≤ e.closeLine

theorem reads_of_at {e : Effect} (h : (Effect.at? w).Gives e) : e.Reads w := by
  simp only [Effect.at?, gives_bind, gives_of, gives_lift, gives_require, gives_pure] at h
  obtain ⟨tail, htail, opener, -, front, -, -, -, close, -, rfl⟩ := h
  exact ⟨htail, rfl, Nat.le_add_left 1 _⟩

namespace Effect

variable {e : Effect}

theorem Reads.crlf_of_masked (h : e.Reads w) (hcrlf : ['\r', '\n'] <:+: e.masked) :
    ['\r', '\n'] <:+: Window.joined w.lines := by
  rw [h.masked_eq] at hcrlf
  exact crlf_of_tailFrom h.tail_eq ((Text.Mask.veiled_mask _ _).crlf_kept hcrlf)

theorem Reads.shows_lines (h : e.Reads w) {ls : List (List Char)} (hls : e.lines? w = some ls) :
    w.Shows ls ∧ ls.length = e.closeLine :=
  Window.shows_span h.one_le hls

/-- A statement that is put before a closing brace: it has a carriage return before a line feed only
if the window does, and ends in a semicolon. -/
structure Statement (w : Window) (statement : List Char) : Prop where
  crlf : ['\r', '\n'] <:+: statement → ['\r', '\n'] <:+: Window.joined w.lines
  starts : statement.head? ≠ some '\n'
  ends : statement.getLast? = some ';'

/-- The indentation of a body, or another one, has no line feed. -/
theorem not_mem_bodyIndent {ls : List (List Char)} (hls : ∀ l ∈ ls, '\n' ∉ l) {other : List Char}
    (hother : '\n' ∉ other) : '\n' ∉ (bodyIndent? ls).getD other := by
  cases h : bodyIndent? ls with
  | none => exact hother
  | some indent =>
    obtain ⟨l, hl, rfl⟩ := Option.map_eq_some_iff.mp h
    exact fun hmem => hls l (List.mem_of_find?_eq_some hl) ((List.takeWhile_prefix _).subset hmem)

/-- A line of its own before the closing brace. -/
theorem Statement.inside_line {statement indent : List Char} (hs : Statement w statement)
    (hindent : '\n' ∉ indent) (h : ['\r', '\n'] <:+: indent ++ statement) :
    ['\r', '\n'] <:+: Window.joined w.lines := by
  rcases Text.crlf_infix_append.mp h with h | h | ⟨-, h⟩
  · exact absurd h (Text.no_crlf_of_not_mem hindent)
  · exact hs.crlf h
  · exact absurd h hs.starts

/-- The lines of an effect with a statement before the closing brace fit the window. -/
theorem fits_insertBeforeClose (hw : w.Plain) (he : e.Reads w) {statement : List Char}
    (hs : Statement w statement) (hfirst : d.firstLine = w.focus)
    (h : (e.insertBeforeClose w statement).Gives (d.replaced, d.suggested)) : d.Fits w := by
  simp only [insertBeforeClose, gives_bind, gives_of, gives_lift] at h
  obtain ⟨ls, hls, last, hlast, front, hfront, back, hback, h⟩ := h
  have hshows := (he.shows_lines hls).1
  have hplain : ∀ l ∈ ls, '\n' ∉ l := fun l hl => hw l (hshows.subset hl)
  have hlastPlain : '\n' ∉ last := hplain last (List.mem_of_getLast? hlast)
  have hfrontPlain : '\n' ∉ front :=
    fun hmem => hlastPlain ((Text.prefix_of_before hfront).subset hmem)
  have hbackSuffix := Text.suffix_of_onward hback
  have hbackPlain : '\n' ∉ back := fun hmem => hlastPlain (hbackSuffix.subset hmem)
  have hearlier : ∀ l ∈ ls.dropLast, '\n' ∉ l := fun l hl => hplain l (List.dropLast_subset ls hl)
  have hconcat : ls = ls.dropLast ++ [last] := (List.dropLast_append_getLast? last hlast).symm
  split at h
  · rw [gives_pure, Prod.mk.injEq] at h
    obtain ⟨hreplaced, hsuggested⟩ := h
    have hindent : '\n' ∉ (bodyIndent? (ls.dropLast.drop 1)).getD (front ++ [' ', ' ']) := by
      refine not_mem_bodyIndent (fun l hl => hearlier l (List.drop_subset _ _ hl)) ?_
      rw [List.mem_append, not_or]
      exact ⟨hfrontPlain, by decide⟩
    refine fits_lines hfirst (hreplaced.symm.trans hconcat)
      (hsuggested.symm.trans (List.append_assoc _ [_] [last]).symm) (hreplaced ▸ hshows)
      (by simp) ?_ ?_ id
    · intro l hl hcrlf
      simp only [List.mem_append, List.mem_singleton, or_assoc] at hl
      rcases hl with hl | rfl | rfl
      · exact absurd hcrlf (Text.no_crlf_of_not_mem (hearlier l hl))
      · exact hs.inside_line hindent hcrlf
      · exact absurd hcrlf (Text.no_crlf_of_not_mem hlastPlain)
    · intro l hl hend
      rcases List.mem_append.mp hl with hl | hl
      · exact hshows.crlf_of_mem hl hend
      · rw [List.mem_singleton] at hl
        rw [hl, List.getLast?_append, hs.ends, Option.some_or] at hend
        exact absurd hend (by decide)
  · rw [gives_pure, Prod.mk.injEq] at h
    obtain ⟨hreplaced, hsuggested⟩ := h
    have hfrontEnd : '\n' ∉ Text.trimEnd front ++ [' '] := by
      rw [List.mem_append, not_or]
      exact ⟨fun hmem => hfrontPlain ((Text.prefix_trimEnd _).subset hmem), by decide⟩
    refine fits_lines hfirst (hreplaced.symm.trans hconcat) hsuggested.symm (hreplaced ▸ hshows)
      (Nat.le_refl _) (fun l hl hcrlf => ?_) (fun l hl => hshows.crlf_of_mem hl)
      (getLast?_append_return (by decide) (by decide) hbackSuffix)
    rcases List.mem_append.mp hl with hl | hl
    · exact absurd hcrlf (Text.no_crlf_of_not_mem (hearlier l hl))
    · rw [List.mem_singleton] at hl
      rw [hl] at hcrlf
      exact hs.inside_line hfrontEnd (Text.crlf_infix_of_append_left (by decide)
        (Text.crlf_infix_of_append_left hbackPlain hcrlf))

end Effect

/-! ## Cleanup -/

/-- What stops what is kept under a name has a carriage return before a line feed only inside the
texts that it is made of. -/
theorem crlf_of_keptProducers {producer : Pattern} {stop : List Char → List Char → List Char}
    (h : (producer, stop) ∈ keptProducers) {name owner : List Char}
    (hcrlf : ['\r', '\n'] <:+: stop name owner) :
    ['\r', '\n'] <:+: name ∨ ['\r', '\n'] <:+: owner := by
  simp only [keptProducers, List.mem_cons, Prod.mk.injEq, List.not_mem_nil, or_false] at h
  rcases h with ⟨-, rfl⟩ | ⟨-, rfl⟩ | ⟨-, rfl⟩ | ⟨-, rfl⟩ | ⟨-, rfl⟩
  · exact Or.inl (Text.crlf_infix_of_append_left (by decide) hcrlf)
  · exact Or.inl (Text.crlf_infix_of_append_right (by decide)
      (Text.crlf_infix_of_append_left (by decide) hcrlf))
  · exact Or.inl (Text.crlf_infix_of_append_left (by decide) hcrlf)
  · exact Or.inl (Text.crlf_infix_of_append_left (by decide) hcrlf)
  · have hfront := Text.crlf_infix_of_append_left (by decide) hcrlf
    rcases Text.crlf_infix_append.mp hfront with hfront | hname | ⟨hlast, -⟩
    · exact Or.inr (Text.crlf_infix_of_append_left (by decide) hfront)
    · exact Or.inl hname
    · exact absurd hlast (getLast?_concat_ne (by decide) (by decide))

theorem infix_groupText (m : Match) (i : Nat) (s : List Char) :
    (m.groupText? i s).getD [] <:+: s := by
  unfold Match.groupText?
  cases m.group? i with
  | none => exact List.nil_infix
  | some span => exact Text.infix_cut span.start span.stop s

theorem crlf_of_mem_keptCleanups {masked : List Char} {call : Nat × List Char}
    (h : call ∈ keptCleanups masked) (hcrlf : ['\r', '\n'] <:+: call.2) :
    ['\r', '\n'] <:+: masked := by
  obtain ⟨⟨producer, stop⟩, hproducer, h⟩ := List.mem_flatMap.mp h
  obtain ⟨m, -, rfl⟩ := List.mem_map.mp h
  rcases crlf_of_keptProducers hproducer hcrlf with hname | howner
  · exact hname.trans (infix_groupText m 1 masked)
  · exact howner.trans (infix_groupText m 2 masked)

/-- The call that removes a listener has the arguments as they are written. -/
theorem exists_of_listenerCleanup {masked source : List Char} {m : Match} {call : Nat × List Char}
    (h : (listenerCleanup masked source m).Gives call) : ∃ close target remover written,
      Text.matchingClose masked (m.stop - 1) = some close ∧ m.groupText? 1 masked = some target ∧
      (remover = ".off(".toList ∨ remover = ".removeEventListener(".toList) ∧
      Text.between (m.stop - 1 + 1) close source = .ok written ∧
      call.2 = target ++ remover ++ Text.trim written ++ [')'] := by
  simp only [listenerCleanup, gives_bind, gives_of, gives_lift, gives_require] at h
  obtain ⟨close, hclose, arguments, -, -, -, target, htarget, method, -, h⟩ := h
  split at h
  · simp only [gives_bind, gives_lift, gives_require, gives_pure] at h
    obtain ⟨rest, -, -, -, -, rfl, written, hwritten, rfl⟩ := h
    exact ⟨close, target, _, written, hclose, htarget, Or.inl rfl, hwritten, rfl⟩
  · simp only [gives_bind, gives_lift, gives_pure] at h
    obtain ⟨-, rfl, written, hwritten, rfl⟩ := h
    exact ⟨close, target, _, written, hclose, htarget, Or.inr rfl, hwritten, rfl⟩

theorem crlf_of_listenerCleanup {masked source : List Char} {m : Match} {call : Nat × List Char}
    (h : (listenerCleanup masked source m).Gives call) (hcrlf : ['\r', '\n'] <:+: call.2) :
    ['\r', '\n'] <:+: masked ∨ ['\r', '\n'] <:+: source := by
  obtain ⟨close, target, remover, written, -, htarget, hremover, hwritten, hcall⟩ :=
    exists_of_listenerCleanup h
  obtain ⟨hplain, hends⟩ : '\n' ∉ remover ∧ remover.getLast? = some '(' := by
    rcases hremover with rfl | rfl <;> decide
  rw [hcall] at hcrlf
  have hfront := Text.crlf_infix_of_append_left (by decide) hcrlf
  rcases Text.crlf_infix_append.mp hfront with hfront | hinside | ⟨hlast, -⟩
  · left
    have hinfix := infix_groupText m 1 masked
    rw [htarget, Option.getD_some] at hinfix
    exact (Text.crlf_infix_of_append_left hplain hfront).trans hinfix
  · exact Or.inr ((hinside.trans (Text.infix_trim _)).trans (Text.infix_of_between hwritten))
  · rw [List.getLast?_append, hends, Option.some_or] at hlast
    exact absurd hlast (by decide)

/-- What a filter keeps comes from an item of the list. -/
theorem mem_filterMapM {α β ε : Type} {f : α → Except ε (Option β)} :
    ∀ {l : List α} {out : List β}, l.filterMapM f = .ok out → ∀ b ∈ out, ∃ a ∈ l, f a = .ok (some b)
  | [], out, h, b, hb => by
    obtain rfl := Except.ok.inj h
    exact absurd hb List.not_mem_nil
  | a :: l, out, h, b, hb => by
    rw [List.filterMapM_cons, bind_eq_ok] at h
    obtain ⟨kept, hkept, h⟩ := h
    cases kept with
    | none =>
      obtain ⟨a', ha', hf⟩ := mem_filterMapM h b hb
      exact ⟨a', List.mem_cons_of_mem a ha', hf⟩
    | some c =>
      rw [bind_eq_ok] at h
      obtain ⟨rest, hrest, h⟩ := h
      obtain rfl := Except.ok.inj h
      rcases List.mem_cons.mp hb with rfl | hb
      · exact ⟨a, List.mem_cons_self, hkept⟩
      · obtain ⟨a', ha', hf⟩ := mem_filterMapM hrest b hb
        exact ⟨a', List.mem_cons_of_mem a ha', hf⟩

/-- Calls that are listed once come from the calls that were found. -/
theorem mem_foldl_distinct (found : List (Nat × List Char)) : ∀ (calls : List (List Char)),
    ∀ c ∈ found.foldl (fun calls c => if calls.contains c.2 then calls else calls ++ [c.2]) calls,
      c ∈ calls ∨ c ∈ found.map Prod.snd := by
  induction found with
  | nil => exact fun calls c hc => Or.inl hc
  | cons x found ih =>
    intro calls c hc
    rw [List.foldl_cons] at hc
    rcases ih _ c hc with hc | hc
    · split at hc
      · exact Or.inl hc
      · rcases List.mem_append.mp hc with hc | hc
        · exact Or.inl hc
        · exact Or.inr (by simp [List.mem_singleton.mp hc])
    · exact Or.inr (List.mem_cons_of_mem _ hc)

/-- A call undoes what the body of the effect keeps under a name, or removes a listener. -/
theorem exists_of_cleanupCalls {e : Effect} {calls : List (List Char)}
    (h : cleanupCalls e = .ok calls) {call : List Char} (hcall : call ∈ calls) :
    ∃ masked source, e.body = .ok masked ∧ e.bodySource = .ok source ∧ ∃ place,
      ((place, call) ∈ keptCleanups masked ∨
        ∃ m ∈ listener.findAll masked, (listenerCleanup masked source m).Gives (place, call)) := by
  simp only [cleanupCalls, bind_eq_ok] at h
  obtain ⟨masked, hmasked, source, hsource, removed, hremoved, h⟩ := h
  obtain rfl := Except.ok.inj h
  refine ⟨masked, source, hmasked, hsource, ?_⟩
  rcases mem_foldl_distinct _ _ _ hcall with hnil | hcall
  · exact absurd hnil List.not_mem_nil
  · obtain ⟨⟨place, call⟩, hfound, rfl⟩ := List.mem_map.mp hcall
    rw [List.mem_mergeSort, List.mem_append] at hfound
    exact ⟨place, hfound.imp_right fun hfound => mem_filterMapM hremoved _ hfound⟩

theorem crlf_of_cleanupCalls {e : Effect} (he : e.Reads w) {calls : List (List Char)}
    (h : cleanupCalls e = .ok calls) {call : List Char} (hcall : call ∈ calls)
    (hcrlf : ['\r', '\n'] <:+: call) : ['\r', '\n'] <:+: Window.joined w.lines := by
  obtain ⟨masked, source, hmasked, hsource, place, hfound⟩ := exists_of_cleanupCalls h hcall
  have hmask : ['\r', '\n'] <:+: masked → ['\r', '\n'] <:+: Window.joined w.lines :=
    fun h => he.crlf_of_masked (h.trans (Text.infix_of_between hmasked))
  have hsrc : ['\r', '\n'] <:+: source → ['\r', '\n'] <:+: Window.joined w.lines :=
    fun h => crlf_of_tailFrom he.tail_eq (h.trans (Text.infix_of_between hsource))
  rcases hfound with hkept | ⟨m, -, hm⟩
  · exact hmask (crlf_of_mem_keptCleanups hkept hcrlf)
  · exact (crlf_of_listenerCleanup hm hcrlf).elim hmask hsrc

theorem crlf_infix_intercalate : ∀ {calls : List (List Char)},
    ['\r', '\n'] <:+: List.intercalate [';', ' '] calls → ∃ call ∈ calls, ['\r', '\n'] <:+: call
  | [], h => by simp [List.intercalate] at h
  | [call], h => ⟨call, List.mem_cons_self, by simpa [List.intercalate] using h⟩
  | call :: other :: calls, h => by
    have hsplit : List.intercalate [';', ' '] (call :: other :: calls) =
        call ++ [';', ' '] ++ List.intercalate [';', ' '] (other :: calls) := by
      simp [List.intercalate]
    rw [hsplit] at h
    rcases Text.crlf_infix_append.mp h with h | h | ⟨h, -⟩
    · exact ⟨call, List.mem_cons_self, Text.crlf_infix_of_append_left (by decide) h⟩
    · obtain ⟨c, hc, hcrlf⟩ := crlf_infix_intercalate h
      exact ⟨c, List.mem_cons_of_mem call hc, hcrlf⟩
    · exact absurd h (getLast?_concat_ne (by decide) (by decide))

theorem statement_of_calls {calls : List (List Char)} {statement : List Char}
    (h : cleanupStatement? calls = some statement)
    (hcalls : ∀ call ∈ calls, ['\r', '\n'] <:+: call → ['\r', '\n'] <:+: Window.joined w.lines) :
    Effect.Statement w statement := by
  unfold cleanupStatement? at h
  split at h
  · cases h
  · obtain rfl := Option.some.inj h
    refine ⟨fun hcrlf => ?_, by simp, List.getLast?_append_of_ne_nil _ (List.cons_ne_nil _ _)⟩
    exact hcalls _ List.mem_cons_self (Text.crlf_infix_of_append_right (by decide)
      (Text.crlf_infix_of_append_left (by decide) hcrlf))
  · obtain rfl := Option.some.inj h
    refine ⟨fun hcrlf => ?_, by simp, ?_⟩
    · obtain ⟨call, hcall, hcrlf⟩ := crlf_infix_intercalate (Text.crlf_infix_of_append_right
        (by decide) (Text.crlf_infix_of_append_left (by decide) hcrlf))
      exact hcalls call hcall hcrlf
    · rw [List.getLast?_append_of_ne_nil _ (by decide)]
      decide

theorem fits_effectCleanup (hw : w.Plain) (h : (effectCleanup column w).Gives d) : d.Fits w := by
  simp only [effectCleanup, gives_bind, gives_of, gives_lift, gives_pure] at h
  obtain ⟨e, he, calls, hcalls, statement, hstatement, ⟨replaced, suggested⟩, hlines, rfl⟩ := h
  have hreads := reads_of_at he
  have hstmt := statement_of_calls hstatement fun call => crlf_of_cleanupCalls hreads hcalls
  exact (Effect.fits_insertBeforeClose hw hreads hstmt rfl hlines).withAlternative _ _ _ _

/-! ## Late results -/

theorem setterAt?_guard {masked guard : List Char} {at' : Nat}
    (h : setterAt? masked = some (at', guard)) :
    guard = "if (!cancelled) ".toList ∨ guard = "!cancelled && ".toList := by
  unfold setterAt? at h
  split at h
  · obtain ⟨span, -, heq⟩ := Option.map_eq_some_iff.mp h
    exact Or.inl (Prod.mk.inj heq).2.symm
  · obtain ⟨m, -, h⟩ := Option.bind_eq_some_iff.mp h
    obtain ⟨span, -, heq⟩ := Option.map_eq_some_iff.mp h
    exact Or.inr (Prod.mk.inj heq).2.symm

/-- Guards are put into lines and change nothing else. -/
theorem grown_guardSetters : ∀ {waited : Bool} {lines : List (List Char × List Char)}
    {out : Nat × List (List Char)}, guardSetters waited lines = .ok out →
      List.Forall₂ Text.Grown (lines.map Prod.fst) out.2
  | waited, [], out, h => by
    obtain rfl := Except.ok.inj h
    exact .nil
  | waited, (line, masked) :: rest, out, h => by
    rw [guardSetters] at h
    split at h
    · next at' guard hwaited hsetter =>
      simp only [bind_eq_ok] at h
      obtain ⟨front, hfront, back, hback, ⟨n, ls⟩, hrest, h⟩ := h
      obtain rfl := Except.ok.inj h
      refine .cons ?_ (grown_guardSetters hrest)
      rw [← Text.before_append_onward hfront hback, List.append_assoc]
      rcases setterAt?_guard hsetter with rfl | rfl <;>
        exact (Text.Grown.refl front).append (.insert (by decide) (by decide) (.refl back))
    · simp only [bind_eq_ok] at h
      obtain ⟨⟨n, ls⟩, hrest, h⟩ := h
      obtain rfl := Except.ok.inj h
      exact .cons (.refl line) (grown_guardSetters hrest)

/-- What the template for late results makes of an effect: a flag is declared after the first line and
set in a cleanup before the last one, and the lines between them are guarded. -/
structure LateGuard (w : Window) (d : Draft) (e : Effect) (first : List Char)
    (inner guarded : List (List Char)) (last indent : List Char) : Prop where
  at_eq : (Effect.at? w).Gives e
  lines_eq : e.lines? w = some (first :: inner ++ [last])
  firstLine_eq : d.firstLine = w.focus
  replaced_eq : d.replaced = first :: inner ++ [last]
  suggested_eq : d.suggested = [first, indent ++ "let cancelled = false;".toList] ++ guarded
    ++ [indent ++ "return () => \x7b cancelled = true; \x7d;".toList, last]
  indent_eq : indent = (bodyIndent? inner).getD (Text.indentation last ++ [' ', ' '])
  guarded_eq : ∃ n, guardSetters false (inner.zipIdx.map fun (line, i) =>
    (line, ((Text.rows e.masked).drop 1)[i]?.getD [])) = .ok (n, guarded)

theorem exists_lateGuard (h : (effectMountGuard column w).Gives d) :
    ∃ e first inner guarded last indent, LateGuard w d e first inner guarded last indent := by
  simp only [effectMountGuard, gives_bind, gives_of, gives_lift, gives_require, gives_pure] at h
  obtain ⟨e, he, body, -, -, hlong, ls, hls, first, hfirst, last, hlast, -, -, ⟨n, guarded⟩,
    hguarded, -, -, rfl⟩ := h
  have hlen := ((reads_of_at he).shows_lines hls).2
  simp only [Bool.and_eq_true, decide_eq_true_eq] at hlong
  have hconcat : ls = ls.dropLast ++ [last] := (List.dropLast_append_getLast? last hlast).symm
  -- There are three lines or more, so the first one and the last one are two.
  obtain ⟨first', inner, hinner⟩ : ∃ first inner, ls.dropLast = first :: inner :=
    List.exists_cons_of_length_pos (by rw [List.length_dropLast]; omega)
  rw [hinner] at hconcat hguarded
  obtain rfl : first' = first := by
    rw [hconcat] at hfirst
    exact Option.some.inj hfirst
  refine ⟨e, first', inner, guarded, last, _, he, hconcat ▸ hls, rfl, hconcat, ?_, rfl, n, hguarded⟩
  rw [hinner]
  rfl

namespace LateGuard

variable {e : Effect} {first last indent : List Char} {inner guarded : List (List Char)}

theorem shows (h : LateGuard w d e first inner guarded last indent) : w.Shows d.replaced :=
  h.replaced_eq ▸ ((reads_of_at h.at_eq).shows_lines h.lines_eq).1

theorem plain (h : LateGuard w d e first inner guarded last indent) (hw : w.Plain) :
    ∀ l ∈ first :: inner ++ [last], '\n' ∉ l :=
  fun l hl => hw l (h.shows.subset (h.replaced_eq ▸ hl))

theorem plain_indent (h : LateGuard w d e first inner guarded last indent) (hw : w.Plain) :
    '\n' ∉ indent := by
  have hplain := h.plain hw
  rw [h.indent_eq]
  refine Effect.not_mem_bodyIndent (fun l hl => hplain l (by simp [hl])) ?_
  rw [List.mem_append, not_or]
  exact ⟨fun hmem => hplain last (by simp) ((List.takeWhile_prefix _).subset hmem), by decide⟩

theorem grown (h : LateGuard w d e first inner guarded last indent) :
    List.Forall₂ Text.Grown inner guarded := by
  obtain ⟨n, hguarded⟩ := h.guarded_eq
  have hgrown := grown_guardSetters hguarded
  rw [List.map_map] at hgrown
  have hinner : inner.zipIdx.map (Prod.fst ∘ fun x =>
      (x.1, ((Text.rows e.masked).drop 1)[x.2]?.getD [])) = inner := List.zipIdx_map_fst 0 _
  rwa [hinner] at hgrown

end LateGuard

theorem fits_effectMountGuard (hw : w.Plain) (h : (effectMountGuard column w).Gives d) :
    d.Fits w := by
  obtain ⟨e, first, inner, guarded, last, indent, hlate⟩ := exists_lateGuard column h
  have hplain := hlate.plain hw
  have hgrown := hlate.grown
  have hshows := hlate.shows
  have hearlier : ∀ l ∈ first :: inner, l ∈ d.replaced.dropLast := by
    rw [hlate.replaced_eq, List.dropLast_concat]
    exact fun l hl => hl
  have hadded : ∀ text : List Char, '\n' ∉ text → '\n' ∉ indent ++ text := by
    intro text htext
    rw [List.mem_append, not_or]
    exact ⟨hlate.plain_indent hw, htext⟩
  refine fits_lines hlate.firstLine_eq hlate.replaced_eq
    (hlate.suggested_eq.trans (List.append_assoc _ [_] [last]).symm) hshows ?_ ?_ ?_ id
  · have hcount := hgrown.length_eq
    simp only [List.length_append, List.length_cons, List.length_nil]
    omega
  · intro l hl hcrlf
    refine absurd hcrlf (Text.no_crlf_of_not_mem ?_)
    simp only [List.mem_append, List.mem_cons, List.not_mem_nil, or_false, or_assoc] at hl
    rcases hl with rfl | rfl | hl | rfl | rfl
    · exact hplain _ (by simp)
    · exact hadded _ (by decide)
    · obtain ⟨old, hold, hold'⟩ := exists_of_mem_right hgrown hl
      exact fun hmem => hplain old (by simp [hold]) (hold'.mem_newline hmem)
    · exact hadded _ (by decide)
    · exact hplain _ (by simp)
  · intro l hl hend
    simp only [List.mem_append, List.mem_cons, List.not_mem_nil, or_false, or_assoc] at hl
    rcases hl with rfl | rfl | hl | rfl
    · exact hshows.crlf_of_mem (hearlier _ (by simp)) hend
    · exact absurd hend (getLast?_concat_ne (by decide) (by decide))
    · obtain ⟨old, hold, hold'⟩ := exists_of_mem_right hgrown hl
      exact hshows.crlf_of_mem (hearlier old (by simp [hold])) (hold'.getLast?_return hend)
    · exact absurd hend (getLast?_concat_ne (by decide) (by decide))

/-! ## Closures -/

/-- Texts that are put in at offsets leave the text around them as it is. -/
theorem grown_insertFrom {s : List Char} : ∀ {cursor : Nat} {is : List Insertion} {r : List Char},
    insertFrom s cursor is = .ok r → (∀ i ∈ is, '\r' ∉ i.text ∧ '\n' ∉ i.text) →
      ∃ back, Text.onward cursor s = .ok back ∧ Text.Grown back r
  | cursor, [], r, h, _ => ⟨r, h, .refl r⟩
  | cursor, i :: is, r, h, his => by
    simp only [insertFrom, bind_eq_ok] at h
    obtain ⟨kept, hkept, rest, hrest, h⟩ := h
    obtain rfl := Except.ok.inj h
    obtain ⟨back, hback, hgrown⟩ :=
      grown_insertFrom hrest fun j hj => his j (List.mem_cons_of_mem i hj)
    obtain ⟨hr, hn⟩ := his i List.mem_cons_self
    refine ⟨kept ++ back, Text.onward_of_between hkept hback, ?_⟩
    rw [List.append_assoc]
    exact (Text.Grown.refl kept).append (.insert hr hn hgrown)

theorem grown_insertAll {s r : List Char} {is : List Insertion} (h : insertAll is s = .ok r)
    (his : ∀ i ∈ is, '\r' ∉ i.text ∧ '\n' ∉ i.text) : Text.Grown s r := by
  obtain ⟨back, hback, hgrown⟩ :=
    grown_insertFrom h fun i hi => his i (List.mem_mergeSort.mp hi)
  obtain rfl : s = back := by
    simpa [Text.onward, Text.splitAt?] using hback
  exact hgrown

theorem capture_text (body : List Char) (start : Nat) :
    '\r' ∉ (capture body start "weak").text ∧ '\n' ∉ (capture body start "weak").text := by
  unfold capture
  split
  · simp only []
    split <;> decide
  · simp only []
    split <;> decide

theorem fits_weakSelfCapture (hw : w.Plain) (h : (weakSelfCapture column w).Gives d) :
    d.Fits w := by
  simp only [weakSelfCapture, gives_bind, gives_of, gives_lift, gives_require, gives_pure] at h
  obtain ⟨opening, -, tail, htail, -, -, close, -, body, -, -, -, weak, hweak, unowned, -,
    replaced, hreplaced, rfl⟩ := h
  have hone : 1 ≤ (Text.LineIndex.of tail).lineOf close := Nat.le_add_left 1 _
  obtain ⟨hshows, hlen⟩ := Window.shows_span hone hreplaced
  have hne : replaced ≠ [] := List.ne_nil_of_length_pos (hlen ▸ hone)
  have hgrown : Text.Grown tail weak := by
    refine grown_insertAll hweak fun i hi => ?_
    rcases List.mem_append.mp hi with hi | hi
    · obtain ⟨place, -, rfl⟩ := List.mem_map.mp hi
      exact ⟨by simp, by simp⟩
    · rw [List.mem_singleton.mp hi]
      exact capture_text body (opening + 1)
  have hlines := List.forall₂_take replaced.length hgrown.rows
  rw [rows_tailFrom hw htail, hshows.2, hlen] at hlines
  exact Fits.withAlternative (fits_grown hw rfl hne hshows hlines) _ _ _ _

end Mend.Synthesis
