import Mend.Proofs.Synthesis.Capture
import Mend.Proofs.Synthesis.Shapes
import Mend.Proofs.Synthesis.Teardown

/-!
# Brackets in drafted blocks

What the templates for several lines put in closes what it opens. A cleanup comes before the brace
that closes the effect, and the capture after the one that opens the closure; the mask shows both
braces, so the lines around them count as before (`Draft.Retains`), if what a cleanup copies from the
effect is balanced code (`retains_effectCleanup`, `retains_weakSelfCapture`). The flag for late
results and its guards are quiet texts, and count nothing wherever they stand, if no backslash takes
the end of a line along (`harmless_effectMountGuard`).
-/

namespace Mend

open Attempt Text Balance
open Mask (InCode Ahead Covers)

/-! ## Drafts that keep the balance -/

/-- Where the lexer is in code before the lines, the new ones count like the old ones, if no bracket
of these or before them closes what was not open. -/
def Draft.Retains (language : Language) (d : Draft) : Prop :=
  ∀ (b : Balance) (r : List Char), b.Noted → Ahead r →
    (b.after (Mask.mask language (Window.joined d.replaced ++ r))).underflow = false →
      b.after (Mask.mask language (Window.joined d.suggested ++ r)) =
        b.after (Mask.mask language (Window.joined d.replaced ++ r))

/-- Up to a character that the mask shows in the old lines and in the new ones they count alike, and
from there on they are the same. -/
theorem Draft.retains_of_shown {language : Language} {d : Draft} {p p' s : List Char} {c : Char}
    (hc : Mask.isQuiet c = true) (hne : c ≠ ' ') (hold : Window.joined d.replaced = p ++ c :: s)
    (hnew : Window.joined d.suggested = p' ++ c :: s)
    (hshown : ∃ n, Mask.mask language (p ++ c :: s) = Mask.mask language p ++ c :: n)
    (hshown' : ∃ n, Mask.mask language (p' ++ c :: s) = Mask.mask language p' ++ c :: n)
    (h : ∀ b : Balance, b.Noted → (b.after (Mask.mask language p)).underflow = false →
      b.after (Mask.mask language p') = b.after (Mask.mask language p)) : d.Retains language := by
  intro b r hb hr hunder
  obtain ⟨n, hn⟩ := hshown
  obtain ⟨n', hn'⟩ := hshown'
  rw [hold, Mask.mask_shown hc hne hn hr, after_append] at hunder ⊢
  rw [hnew, Mask.mask_shown hc hne hn' hr, after_append, h b hb (underflow_of_after hunder)]

namespace Synthesis

variable {w : Window} {column : Option Nat} {d : Draft} {language : Language}

/-! ## Cleanup -/

/-- What stops what is kept under a name is closed. -/
theorem closed_of_keptProducers {producer : Pattern} {stop : List Char → List Char → List Char}
    (h : (producer, stop) ∈ keptProducers) {name owner : List Char} (hname : name.all isInert = true)
    (howner : owner.all isInert = true) : Closed language (stop name owner) := by
  have hquiet := quiet_of_inert hname
  have hquiet' := quiet_of_inert howner
  have hfilter := filter_of_inert hname
  have hfilter' := filter_of_inert howner
  have hclosed {u : List Char} (hu : u.all Mask.isQuiet = true)
      (hbrackets : u.filter isBracket = ['(', ')']) : Closed language u :=
    .of_quiet hu ((Encloses.blank .paren).of_filter hbrackets rfl)
  simp only [keptProducers, List.mem_cons, Prod.mk.injEq, List.not_mem_nil, or_false] at h
  rcases h with ⟨-, rfl⟩ | ⟨-, rfl⟩ | ⟨-, rfl⟩ | ⟨-, rfl⟩ | ⟨-, rfl⟩
  all_goals
    apply hclosed
    · simp only [List.all_append, hquiet, hquiet']
      rfl
    · simp only [List.filter_append, hfilter, hfilter']
      rfl

/-- What is matched by a group that avoids line feeds, marks and brackets is inert. -/
theorem inert_groupText {p : Pattern} {k : Nat} (hp : p.groupAvoids k ('\n' :: loud) = true)
    {masked : List Char} {m : Match} (hm : m ∈ p.findAll masked) :
    ((m.groupText? k masked).getD []).all isInert = true := by
  rw [List.all_eq_true]
  intro c hc
  have hnot := Pattern.not_mem_groupText hp hm c hc
  rw [List.mem_cons, not_or] at hnot
  exact isInert_of_not_mem hnot.2 hnot.1

theorem closed_of_mem_keptCleanups {masked : List Char} {call : Nat × List Char}
    (h : call ∈ keptCleanups masked) : Closed language call.2 := by
  obtain ⟨⟨producer, stop⟩, hproducer, h⟩ := List.mem_flatMap.mp h
  obtain ⟨m, hm, rfl⟩ := List.mem_map.mp h
  have havoids (k : Nat) (hk : k = 1 ∨ k = 2) : producer.groupAvoids k ('\n' :: loud) = true := by
    have hall : keptProducers.all (fun x => x.1.groupAvoids k ('\n' :: loud)) = true := by
      rcases hk with rfl | rfl <;> decide
    exact List.all_eq_true.mp hall _ hproducer
  exact closed_of_keptProducers hproducer (inert_groupText (havoids 1 (Or.inl rfl)) hm)
    (inert_groupText (havoids 2 (Or.inr rfl)) hm)

/-- The arguments of the listeners that an effect adds are balanced code, as they are copied. -/
def Effect.CopiesClosed (language : Language) (e : Effect) : Prop :=
  ∀ masked source, e.body = .ok masked → e.bodySource = .ok source →
    ∀ m ∈ listener.findAll masked, ∀ close, matchingClose masked (m.stop - 1) = some close →
      ∀ written, between (m.stop - 1 + 1) close source = .ok written →
        InCode language (trim written) ∧
          (Balance.of language (trim written)).isBalanced = true

/-- Copied arguments stand between a name and a bracket, and names are inert. -/
theorem closed_of_cleanupCalls {e : Effect} (hcopies : e.CopiesClosed language)
    {calls : List (List Char)} (h : cleanupCalls e = .ok calls) :
    ∀ call ∈ calls, Closed language call := by
  intro call hcall
  obtain ⟨masked, source, hmasked, hsource, place, hkept | ⟨m, hm, hgives⟩⟩ :=
    exists_of_cleanupCalls h hcall
  · exact closed_of_mem_keptCleanups hkept
  · obtain ⟨close, target, remover, written, hclose, htarget, hremover, hwritten, rfl⟩ :=
      exists_of_listenerCleanup hgives
    obtain ⟨hcode, hbalanced⟩ :=
      hcopies masked source hmasked hsource m hm close hclose written hwritten
    have hinert : target.all isInert = true := by
      have hinert := inert_groupText (k := 1) (by decide : listener.groupAvoids 1 ('\n' :: loud) = true) hm
      rwa [htarget, Option.getD_some] at hinert
    refine (Closed.of_isBalanced hcode hbalanced).enclose ?_ (by decide) ((Encloses.pair .paren).of_filter ?_ (by decide))
    · rw [List.all_append, quiet_of_inert hinert]
      rcases hremover with rfl | rfl <;> rfl
    · rw [List.filter_append, filter_of_inert hinert]
      rcases hremover with rfl | rfl <;> rfl

/-- Calls one after the other. -/
theorem closed_intercalate : ∀ {calls : List (List Char)}, calls ≠ [] →
    (∀ call ∈ calls, Closed language call) → Closed language (List.intercalate [';', ' '] calls)
  | [], hne, _ => absurd rfl hne
  | [call], _, h => by
    simpa [List.intercalate] using h call List.mem_cons_self
  | call :: other :: calls, _, h => by
    have ih := closed_intercalate (List.cons_ne_nil other calls)
      fun c hc => h c (List.mem_cons_of_mem call hc)
    have hjoined := (h call List.mem_cons_self).append (u := [';', ' ']) (by decide) (by decide) ih
    simpa [List.intercalate] using hjoined

/-- A cleanup of closed calls is closed. -/
theorem closed_cleanupStatement {calls : List (List Char)} {statement : List Char}
    (h : cleanupStatement? calls = some statement) (hcalls : ∀ call ∈ calls, Closed language call) :
    Closed language statement := by
  unfold cleanupStatement? at h
  split at h
  · cases h
  · obtain rfl := Option.some.inj h
    exact (hcalls _ List.mem_cons_self).enclose (by decide) (by decide)
      ((Encloses.blank .paren).of_filter (by decide) (by decide))
  · next hne _ =>
    obtain rfl := Option.some.inj h
    exact (closed_intercalate hne hcalls).enclose (by decide) (by decide)
      (((Encloses.blank .paren).nest (.pair .brace)).of_filter (by decide) (by decide))

/-- Blanks in code are shown as they are. -/
theorem mask_blanks : ∀ {s : List Char}, s.all isBlank = true → ∀ r : List Char,
    Mask.mask language (s ++ r) = s ++ Mask.mask language r
  | [], _, r => rfl
  | c :: s, h, r => by
    rw [List.all_cons, Bool.and_eq_true] at h
    have ih := mask_blanks h.2 r
    by_cases hc : c = '\n'
    · rw [hc, List.cons_append, Mask.mask_newline, ih, List.cons_append]
    · have hquiet : [c].all Mask.isQuiet = true :=
        quiet_of_blanks (s := [c]) (by simp [h.1]) (by simpa using fun hn => hc hn.symm)
      have hread := @Mask.mask_quiet language [c] hquiet (s ++ r)
      rw [ih] at hread
      exact hread

theorem after_blanks (b : Balance) {s : List Char} (h : s.all isBlank = true) : b.after s = b := by
  have hnone : s.filter isBracket = [] := List.filter_eq_nil_iff.mpr fun c hc hbracket => by
    have hblank := isBlank_of_isBracket hbracket
    rw [List.all_eq_true.mp h c hc] at hblank
    cases hblank
  rw [← after_filter, hnone, after_nil]

/-- No mark reaches over blanks. -/
theorem ahead_blanks {s r : List Char} (h : s.all isBlank = true) (hne : s ≠ [])
    (hr : r.head? ≠ some '\'') : Ahead (s ++ r) := by
  obtain ⟨c, s, rfl⟩ := List.exists_cons_of_ne_nil hne
  rw [List.all_cons, Bool.and_eq_true] at h
  by_cases hc : c = '\n'
  · rw [hc, List.cons_append]
    exact Mask.ahead_newline _
  · have hquiet : [c].all Mask.isQuiet = true :=
      quiet_of_blanks (s := [c]) (by simp [h.1]) (by simpa using fun hn => hc hn.symm)
    refine Mask.ahead_cons (by simpa using hquiet) ?_
    cases s with
    | nil => exact hr
    | cons b s =>
      rw [List.all_cons, Bool.and_eq_true] at h
      rintro ⟨⟩
      exact absurd h.2.1 (by decide)

/-- A closed statement between blanks counts like the blanks before it, and leaves the lexer in code
for what comes after the blanks. -/
theorem Effect.Texts.mask_eq {e : Effect} {statement : List Char} {replaced suggested : List (List Char)}
    {kept blanks gap gap' rest : List Char}
    (h : Effect.Texts w e statement replaced suggested kept blanks gap gap' rest)
    (hstatement : Closed w.language statement) (hstarts : ∃ later, statement = "return (".toList ++ later)
    {r : List Char} (hr : r.head? ≠ some '\'') :
    Mask.mask w.language (kept ++ gap ++ statement ++ gap' ++ r) =
      Mask.mask w.language kept ++ gap ++ Mask.mask w.language statement ++ gap'
        ++ Mask.mask w.language r := by
  have hblank := h.blank
  rw [List.all_append, Bool.and_eq_true] at hblank
  have hgap := all_isQuiet_of_lineBlank hblank.2
  have hfront := h.inCode.append_quiet hgap
  have hahead (s : List Char) : Ahead (statement ++ s) := by
    obtain ⟨later, rfl⟩ := hstarts
    rw [List.append_assoc]
    exact Mask.ahead_quiet (by decide) _ (Or.inl (by decide)) (by decide)
  have hcode : InCode w.language (kept ++ gap ++ statement) :=
    hfront.append hstatement.inCode (hahead _)
  have hmasked := hfront.mask_append (hahead [])
  rw [List.append_nil] at hmasked
  rw [List.append_assoc _ gap', hcode.mask_append (ahead_blanks h.blank_after h.after_ne_nil hr),
    mask_blanks h.blank_after, hmasked, h.inCode.mask_append_quiet hgap]
  simp only [List.append_assoc]

/-- A cleanup keeps the balance if what it copies is balanced code. -/
theorem retains_effectCleanup (hw : w.Plain) (h : (effectCleanup column w).Gives d)
    (hcopies : ∀ e, (Effect.at? w).Gives e → e.CopiesClosed w.language) :
    d.Retains w.language := by
  have hfits := fits_effectCleanup column hw h
  simp only [effectCleanup, gives_bind, gives_of, gives_lift, gives_pure] at h
  obtain ⟨e, he, calls, hfound, statement, hstatement, ⟨replaced, suggested⟩, hlines, rfl⟩ := h
  have hclosed := closed_cleanupStatement hstatement (closed_of_cleanupCalls (hcopies e he) hfound)
  have hstarts := starts_of_cleanupStatement? hstatement
  obtain ⟨kept, blanks, gap, gap', rest, htexts⟩ := Effect.exists_texts hw he hlines
  have hblank := htexts.blank
  rw [List.all_append, Bool.and_eq_true] at hblank
  obtain ⟨front, u, mid, later, hopens, -, -, hclose, -⟩ := Effect.exists_opens he
  have hmasked : e.masked = (front ++ (u ++ '\x7b' :: mid)) ++ '\x7d' :: later := by
    rw [hopens.text_eq]
    simp
  have hbefore := htexts.masked_eq
  rw [hmasked, ← hclose, cut_width] at hbefore
  obtain ⟨⟨n, hshown⟩, -⟩ := Effect.exists_masked he hfits.shows hfits.replaced_ne_nil hmasked (by
    have hpos := Nat.pos_of_ne_zero fun h => htexts.rest_ne_nil (eq_nil_of_width h)
    change _ < width (Window.joined replaced)
    rw [hclose, ← htexts.width_eq, htexts.replaced_eq, width_append _ rest]
    omega)
  change Mask.mask w.language (Window.joined replaced) = _ at hshown
  rw [hbefore, htexts.replaced_eq] at hshown
  obtain ⟨s, rfl⟩ := Mask.exists_of_masked (by decide) hshown rfl
    (Mask.aligned_mask w.language _).1
  have hbrace (s : List Char) : Mask.mask w.language ('\x7d' :: s) = '\x7d' :: Mask.mask w.language s :=
    @Mask.mask_quiet w.language ['\x7d'] (by decide) s
  refine Draft.retains_of_shown (by decide) (by decide) htexts.replaced_eq htexts.suggested_eq
    ⟨n, hshown⟩ ⟨Mask.mask w.language s, ?_⟩ fun b hb hunder => ?_
  · have hnil := htexts.mask_eq hclosed hstarts (r := []) (by simp)
    rw [Mask.mask_nil, List.append_nil, List.append_nil] at hnil
    rw [htexts.mask_eq hclosed hstarts (by simp), hbrace, hnil]
  · have hnil := htexts.mask_eq hclosed hstarts (r := []) (by simp)
    rw [Mask.mask_nil, List.append_nil, List.append_nil] at hnil
    rw [htexts.inCode.mask_append_quiet (all_isQuiet_of_lineBlank hblank.1), after_append,
      after_blanks _ (all_isBlank_of_lineBlank hblank.1)] at hunder ⊢
    rw [hnil, after_append, after_append, after_append,
      after_blanks _ (all_isBlank_of_lineBlank hblank.2), hclosed.after_eq _ (hb.after _) hunder,
      after_blanks _ htexts.blank_after]

/-! ## Late results -/

/-- A guard before a setter is harmless, wherever the line stands. -/
theorem harmless_guard {guard : List Char}
    (h : guard = "if (!cancelled) ".toList ∨ guard = "!cancelled && ".toList) :
    Harmless "set".toList (guard ++ "set".toList) := by
  rcases h with rfl | rfl
  · exact .of_quiet (by decide) (by decide) (by decide)
      ((Encloses.blank .paren).of_filter (by decide) rfl)
  · exact .of_quiet (by decide) (by decide) (by decide) (Encloses.empty.of_filter (by decide) rfl)

/-- Guarded lines count like the lines, and end as they do. -/
theorem harmless_guardSetters : ∀ {waited : Bool} {lines : List (List Char × List Char)}
    {out : Nat × List (List Char)}, guardSetters waited lines = .ok out →
      (∀ l ∈ lines, Covers l.1 l.2) →
        List.Forall₂ (fun old new => Harmless old new ∧ new.getLast? = old.getLast?)
          (lines.map Prod.fst) out.2
  | waited, [], out, h, _ => by
    obtain rfl := Except.ok.inj h
    exact .nil
  | waited, (line, masked) :: rest, out, h, hcovers => by
    obtain ⟨hline, hcovers⟩ := List.forall_mem_cons.mp hcovers
    rw [guardSetters] at h
    split at h
    · next at' guard hwaited hsetter =>
      simp only [bind_eq_ok] at h
      obtain ⟨front, hfront, back, hback, ⟨n, ls⟩, hrest, h⟩ := h
      obtain rfl := Except.ok.inj h
      refine .cons ?_ (harmless_guardSetters hrest hcovers)
      obtain ⟨front', later, rfl, rfl⟩ := exists_of_setterAt? hline hsetter
      rw [List.append_assoc] at hfront hback
      obtain rfl := before_eq rfl rfl hfront
      obtain rfl : "set".toList ++ later = back := Except.ok.inj ((onward_eq_of rfl rfl).symm.trans hback)
      constructor
      · have h := (harmless_guard (setterAt?_guard hsetter)).inside front later
        simpa only [List.append_assoc] using h
      · have hne : "set".toList ++ later ≠ [] := by simp
        rw [List.getLast?_append_of_ne_nil _ hne, List.append_assoc,
          List.getLast?_append_of_ne_nil _ hne]
    · simp only [bind_eq_ok] at h
      obtain ⟨⟨n, ls⟩, hrest, h⟩ := h
      obtain rfl := Except.ok.inj h
      exact .cons ⟨.refl line, rfl⟩ (harmless_guardSetters hrest hcovers)

/-- Lines one by one. -/
theorem harmless_ended {olds news : List (List Char)}
    (h : List.Forall₂ (fun old new => Harmless old new ∧ new.getLast? = old.getLast?) olds news) :
    Harmless (ended olds) (ended news) := by
  induction h with
  | nil => exact .refl _
  | cons h _ ih => exact (h.1.append (.refl _)).append ih

theorem ended_append (ls ms : List (List Char)) : ended (ls ++ ms) = ended ls ++ ended ms := by
  rw [ended, List.map_append, List.flatten_append]
  rfl

/-- A line that closes what it opens after other ones. -/
theorem harmless_line {earlier : List (List Char)} {l u : List Char} (hl : l ≠ [] ∨ earlier ≠ [])
    (hends : l.getLast? ≠ some '\\') (hu : u.all Mask.isQuiet = true) (hne : u ≠ [])
    (h : Encloses u []) : Harmless (ended (earlier ++ [l])) (ended (earlier ++ [l, u])) := by
  have hjoined : ended (earlier ++ [l]) = Window.joined (earlier ++ [l]) ++ ['\n'] := by
    rw [joined_concat, ended_append, List.append_assoc]
    simp [ended]
  have hadded : ended (earlier ++ [l, u]) = Window.joined (earlier ++ [l]) ++ ['\n'] ++ u ++ ['\n'] := by
    rw [← hjoined, ended_append, ended_append]
    simp [ended]
  rw [hjoined, hadded]
  refine .line ?_ ?_ hu hne h
  · rw [joined_concat]
    rcases hl with hl | hl
    · simp [hl]
    · obtain ⟨k, ks, rfl⟩ := List.exists_cons_of_ne_nil hl
      simp [ended]
  · rwa [ne_eq, getLast?_joined_concat (by decide)]

/-- The first line of an effect is not empty. -/
theorem LateGuard.first_ne_nil {e : Effect} {first last indent : List Char}
    {inner guarded : List (List Char)} (h : LateGuard w d e first inner guarded last indent) :
    first ≠ [] := by
  rintro rfl
  have hreads := reads_of_at h.at_eq
  obtain ⟨hshows, -⟩ := hreads.shows_lines h.lines_eq
  obtain ⟨t, htail, -⟩ := hshows.exists_tail (by simp) hreads.tail_eq
  obtain ⟨l, ls, hrest⟩ : ∃ l ls, inner ++ [last] = l :: ls := List.exists_cons_of_ne_nil (by simp)
  obtain ⟨front, u, mid, rest, hopens, hplain, -⟩ := Effect.exists_opens h.at_eq
  obtain ⟨name, rfl⟩ := hopens.opener.exists_tail
  have hmasked := hopens.text_eq
  rw [hreads.masked_eq, htail, List.cons_append, hrest, joined_cons_cons, List.nil_append,
    List.cons_append, Mask.mask_newline] at hmasked
  cases front with
  | nil => exact absurd (List.cons.inj hmasked).1 (by decide)
  | cons c front =>
    rw [← (List.cons.inj hmasked).1] at hplain
    exact hplain List.mem_cons_self

theorem LateGuard.blank_indent {e : Effect} {first last indent : List Char}
    {inner guarded : List (List Char)} (h : LateGuard w d e first inner guarded last indent) :
    indent.all isBlank = true := by
  rw [h.indent_eq]
  exact (Effect.blanks_of_bodyIndent inner List.all_takeWhile).1

/-- The flag and its guards are harmless, if no line of the effect but the last ends in a
backslash. -/
theorem harmless_effectMountGuard (hw : w.Plain) (h : (effectMountGuard column w).Gives d)
    (hends : ∀ l ∈ d.replaced.dropLast, l.getLast? ≠ some '\\') :
    Harmless (Window.joined d.replaced) (Window.joined d.suggested) := by
  obtain ⟨e, first, inner, guarded, last, indent, hlate⟩ := exists_lateGuard column h
  obtain ⟨n, hguarded⟩ := hlate.guarded_eq
  rw [hlate.replaced_eq, List.dropLast_concat] at hends
  have hlines := harmless_guardSetters hguarded (covers_inner hw hlate.at_eq hlate.lines_eq)
  have hinner : inner.zipIdx.map (Prod.fst ∘ fun x =>
      (x.1, ((rows e.masked).drop 1)[x.2]?.getD [])) = inner := List.zipIdx_map_fst 0 _
  rw [List.map_map, hinner] at hlines
  have hindent := quiet_of_blanks hlate.blank_indent (hlate.plain_indent hw)
  have hfilter : indent.filter isBracket = [] :=
    filter_of_inert (inert_of_blank hlate.blank_indent (hlate.plain_indent hw))
  have hquiet {text : List Char} (htext : text.all Mask.isQuiet = true) :
      (indent ++ text).all Mask.isQuiet = true := by rw [List.all_append, hindent, htext]; rfl
  have hcloses {text u : List Char} (h : Encloses u [])
      (htext : text.filter isBracket = u.filter isBracket) : Encloses (indent ++ text) [] :=
    h.of_filter (by rw [List.filter_append, hfilter, htext, List.nil_append]) rfl
  have hflag : Harmless (ended [first]) (ended [first, indent ++ "let cancelled = false;".toList]) :=
    @harmless_line [] _ _ (Or.inl hlate.first_ne_nil) (hends first (by simp))
      (hquiet (by decide)) (by simp) (hcloses .empty (by decide))
  have hbody := hflag.append (harmless_ended hlines)
  rw [← ended_append, ← ended_append, List.singleton_append] at hbody
  -- The cleanup comes after a line that ends as a line of the effect or as the flag.
  obtain ⟨earlier, l, hlast, hne, hl⟩ : ∃ earlier l,
      [first, indent ++ "let cancelled = false;".toList] ++ guarded = earlier ++ [l] ∧
        earlier ≠ [] ∧ l.getLast? ≠ some '\\' := by
    rcases List.eq_nil_or_concat guarded with rfl | ⟨ls, l, rfl⟩
    · exact ⟨[first], _, rfl, by simp, by
        rw [List.getLast?_append_of_ne_nil _ (by decide)]
        decide⟩
    · obtain ⟨old, hold, -, hsame⟩ := exists_of_mem_right hlines (show l ∈ ls.concat l by simp)
      exact ⟨_, l, by rw [List.concat_eq_append, ← List.append_assoc], by simp,
        hsame ▸ hends old (by simp [hold])⟩
  have hcleanup : Harmless (ended (earlier ++ [l]))
      (ended (earlier ++ [l, indent ++ "return () => \x7b cancelled = true; \x7d;".toList])) :=
    harmless_line (Or.inr hne) hl (hquiet (by decide)) (by simp)
      (hcloses ((Encloses.blank .paren).nest (.blank .brace)) (by decide))
  rw [hlast] at hbody
  have hall := (hbody.trans hcleanup).append (.refl last)
  rw [hlate.replaced_eq, hlate.suggested_eq, hlast, joined_concat]
  have hsplit {u : List Char} : earlier ++ [l] ++ [u, last] = earlier ++ [l, u] ++ [last] := by simp
  rwa [hsplit, joined_concat]

/-! ## Closures -/

/-- What captures the owner closes what it opens. -/
theorem encloses_capture (body : List Char) (start : Nat) :
    Encloses (capture body start "weak").text [] := by
  unfold capture
  split
  · refine Encloses.empty.of_filter ?_ rfl
    simp only []
    split <;> decide
  · refine (Encloses.blank .bracket).of_filter ?_ rfl
    simp only []
    split <;> decide

/-- What is put into a closure comes before its closing brace. -/
theorem offset_le_close {front body head later text : List Char} {glued : Bool}
    (hcap : Captures body head later text glued) {i : Insertion}
    (hi : i ∈ (placesFrom (Pattern.leads used) false 0 body).map
      (fun at' => (⟨width front + 1 + at' + 4, ['?']⟩ : Insertion)) ++
        [⟨width front + 1 + width head, text⟩]) : i.offset ≤ width (front ++ '\x7b' :: body) := by
  have hwidth : width (front ++ '\x7b' :: body) = width front + 1 + width body := by
    rw [width_append, width, Nat.add_assoc]
    rfl
  rw [hwidth]
  rcases List.mem_append.mp hi with hi | hi
  · obtain ⟨x, hx, rfl⟩ := List.mem_map.mp hi
    obtain ⟨before, c, back, rfl, rfl, hlead⟩ := mem_placesFrom.mp hx
    obtain ⟨t, ht⟩ := List.isPrefixOf_iff_prefix.mp (Bool.and_eq_true_iff.mp hlead).2
    have hused : width used = 5 := rfl
    rw [← ht, width_append, width_append, hused]
    simp only
    omega
  · rw [List.mem_singleton.mp hi, hcap.body_eq, width_append]
    simp only
    omega

/-- A closure that holds its owner weakly keeps the balance. -/
theorem retains_weakSelfCapture (hw : w.Plain) (h : (weakSelfCapture column w).Gives d) :
    d.Retains .swift := by
  obtain ⟨tail, front, body, rest, weak, -, hmask, -, halone, hweak, htail, hreplaced, hsuggested⟩ :=
    exists_of_weakSelfCapture h
  obtain ⟨head, later, text, glued, hcapture, hcap⟩ := exists_captures body (width front + 1)
  have htext := encloses_capture body (width front + 1)
  rw [hcapture] at hweak htext
  obtain ⟨later', hchained, hmask'⟩ := mask_captured hmask halone hcap hweak
  have hline := hcap.lineOf_eq hchained hmask hmask'
  have hsplit : Mask.mask .swift tail = (front ++ '\x7b' :: body) ++ '\x7d' :: rest := by
    rw [hmask]
    simp
  obtain ⟨p, r, rfl, hp⟩ := Mask.exists_source (by decide) hsplit
  obtain ⟨p', rfl⟩ := exists_of_insertFrom_append hweak (Nat.zero_le _) fun i hi =>
    hp ▸ offset_le_close hcap (List.mem_mergeSort.mp hi)
  have hsplit' : Mask.mask .swift (p' ++ '\x7d' :: r) =
      (front ++ '\x7b' :: (head ++ text ++ later')) ++ '\x7d' :: rest := by
    rw [hmask']
    simp
  have hp' : width (front ++ '\x7b' :: (head ++ text ++ later')) = width p' := by
    have hold := (Mask.aligned_mask .swift (p ++ '\x7d' :: r)).1
    have hnew := (Mask.aligned_mask .swift (p' ++ '\x7d' :: r)).1
    rw [hsplit, width_append, width_append (front ++ _)] at hold
    rw [hsplit', width_append, width_append (front ++ _)] at hnew
    omega
  have hwidth (s : List Char) : width front + 1 + width s = width (front ++ '\x7b' :: s) := by
    rw [width_append, width, Nat.add_assoc]
    rfl
  rw [hwidth, hwidth, hp', ← hp, LineIndex.lineOf_width, LineIndex.lineOf_width] at hline
  rw [hwidth, ← hp, LineIndex.lineOf_width] at hreplaced hsuggested
  have hrows := take_rows_of_span hw (List.length_pos_of_ne_nil (rows_ne_nil p)) htail hreplaced
  refine @Draft.retains_of_shown _ _ p p' (r.takeWhile (· ≠ '\n')) '\x7d'
    (by decide) (by decide) ?_ ?_ (Mask.exists_row_of_visible (by decide) (by decide) hsplit hp.symm)
    (Mask.exists_row_of_visible (by decide) (by decide) hsplit' hp') fun b hb hunder => ?_
  · rw [hrows, joined_take_rows]
    rfl
  · rw [hsuggested, ← hline, joined_take_rows]
    rfl
  · obtain ⟨-, hmasked, -⟩ := Mask.inCode_of_visible (by decide) (by decide) hsplit hp.symm
    obtain ⟨-, hmasked', -⟩ := Mask.inCode_of_visible (by decide) (by decide) hsplit' hp'
    have hfront (s : List Char) : front ++ '\x7b' :: (head ++ s) = (front ++ '\x7b' :: head) ++ s := by
      simp
    have hlater (b : Balance) : b.after later' = b.after later :=
      b.after_congr (hchained.filter_eq (by decide))
    rw [← hmasked, hcap.body_eq, hfront, after_append] at hunder ⊢
    have hclosed := htext _ later (hb.after _) hunder
    rw [List.append_nil, after_append] at hclosed
    rw [← hmasked', List.append_assoc, hfront, after_append, after_append, hlater, hclosed]

end Synthesis

end Mend
