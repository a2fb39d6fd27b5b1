import Mend.Proofs.Result
import Mend.Proofs.Text.Offset
import Mend.Proofs.Text.Returns
import Mend.Synthesis.Draft

/-!
# Drafts that fit their window

What an attempt gives is read off its parts (`Attempt.Gives`). A draft fits a window when it
replaces lines that the window shows from the focus on, has at least as many lines as it replaces,
and brings in no carriage return before a line feed (`Draft.Fits`).
-/

namespace Mend

/-! ## Trimmed texts -/

namespace Text

theorem prefix_dropEndWhile (p : Char → Bool) (s : List Char) : dropEndWhile p s <+: s := by
  rw [← List.reverse_suffix, dropEndWhile, List.reverse_reverse]
  exact List.dropWhile_suffix _

/-- What is taken off the end of a text satisfies the condition. -/
theorem dropEndWhile_append (p : Char → Bool) (s : List Char) :
    ∃ t, s = dropEndWhile p s ++ t ∧ t.all p = true := by
  refine ⟨(s.reverse.takeWhile p).reverse, ?_, ?_⟩
  · rw [dropEndWhile, ← List.reverse_append, List.takeWhile_append_dropWhile, List.reverse_reverse]
  · rw [List.all_reverse]
    exact List.all_takeWhile

theorem prefix_trimEnd (s : List Char) : trimEnd s <+: s :=
  prefix_dropEndWhile isBlank s

theorem infix_trim (s : List Char) : trim s <:+: s :=
  (prefix_trimEnd _).isInfix.trans (List.dropWhile_suffix _).isInfix

end Text

/-! ## Attempts -/

namespace Attempt

variable {α β : Type}

/-- The attempt succeeds with a result. -/
def Gives (x : Attempt α) (a : α) : Prop :=
  x.run = .ok (some a)

theorem gives_pure {a b : α} : (pure a : Attempt α).Gives b ↔ a = b := by
  simp [Gives, pure, OptionT.pure, OptionT.mk, OptionT.run, Except.pure]

theorem gives_bind {x : Attempt α} {f : α → Attempt β} {b : β} :
    (x >>= f).Gives b ↔ ∃ a, x.Gives a ∧ (f a).Gives b := by
  unfold Gives
  rw [OptionT.run_bind, Option.elimM]
  cases x.run with
  | error e => simp [bind, Except.bind]
  | ok v =>
    cases v with
    | none => simp [bind, Except.bind, pure, Except.pure]
    | some a => simp [bind, Except.bind]

theorem gives_of {v : Option α} {a : α} : (of v).Gives a ↔ v = some a := by
  simp [Gives, of]

theorem gives_require {c : Bool} {u : Unit} : (require c).Gives u ↔ c = true := by
  cases c <;> simp [Gives, require, of]

theorem gives_lift {x : Except Text.BadOffset α} {a : α} :
    (liftM x : Attempt α).Gives a ↔ x = .ok a := by
  cases x <;> simp [Gives, Functor.map, Except.map]

end Attempt

/-! ## What a window shows -/

namespace Window

/-- No line of the window has a line feed in it. -/
def Plain (w : Window) : Prop :=
  ∀ l ∈ w.lines, '\n' ∉ l

/-- The lines stand in the window from its focus on. -/
def Shows (w : Window) (ls : List (List Char)) : Prop :=
  w.firstLine ≤ w.focus ∧ (w.lines.drop (w.focus - w.firstLine)).take ls.length = ls

theorem shows_focusText {w : Window} {line : List Char} (h : w.focusText? = some line) :
    w.Shows [line] := by
  unfold focusText? line? at h
  split at h
  · cases h
  · next hfirst =>
    obtain ⟨hlt, hget⟩ := List.getElem?_eq_some_iff.mp h
    refine ⟨Nat.not_lt.mp hfirst, ?_⟩
    rw [List.length_singleton, List.drop_eq_getElem_cons hlt, hget]
    rfl

/-- The lines of a span from the focus on, as many as there are lines in the span. -/
theorem shows_span {w : Window} {n : Nat} (hn : 1 ≤ n) {ls : List (List Char)}
    (h : w.span? w.focus (w.focus + n - 1) = some ls) : w.Shows ls ∧ ls.length = n := by
  unfold span? at h
  rw [if_neg (by omega)] at h
  split at h
  · cases h
  · next hin =>
    simp only [Bool.or_eq_true, decide_eq_true_eq, not_or, Nat.not_lt, Nat.not_le] at hin
    obtain rfl := Option.some.inj h
    have hcount : w.focus + n - 1 + 1 - w.focus = n := by omega
    have hlen : ((w.lines.drop (w.focus - w.firstLine)).take n).length = n := by
      rw [List.length_take, List.length_drop]
      omega
    rw [hcount]
    exact ⟨⟨hin.1, by rw [hlen]⟩, hlen⟩

theorem Shows.subset {w : Window} {ls : List (List Char)} (h : w.Shows ls) : ls ⊆ w.lines := by
  rw [← h.2]
  exact List.Subset.trans (List.take_subset _ _) (List.drop_subset _ _)

/-- A line that is followed by another among the shown ones is followed by one in the window. -/
theorem Shows.dropLast_subset {w : Window} {ls : List (List Char)} (h : w.Shows ls) :
    ls.dropLast ⊆ w.lines.dropLast := by
  rcases List.eq_nil_or_concat ls with rfl | ⟨init, last, rfl⟩
  · simp
  · rw [List.concat_eq_append] at h ⊢
    have hlines := List.take_append_drop (w.focus - w.firstLine) w.lines
    have hsplit := List.take_append_drop (init ++ [last]).length
      (w.lines.drop (w.focus - w.firstLine))
    rw [h.2] at hsplit
    rw [← hlines, ← hsplit, List.dropLast_concat]
    intro l hl
    rw [List.append_assoc, List.dropLast_append_of_ne_nil (by simp),
      List.dropLast_append_of_ne_nil (by simp)]
    simp [hl]

/-- A carriage return before a line feed among the shown lines is one in the window. -/
theorem Shows.crlf_of_mem {w : Window} {ls : List (List Char)} (h : w.Shows ls) {l : List Char}
    (hl : l ∈ ls.dropLast) (hlast : l.getLast? = some '\r') : ['\r', '\n'] <:+: joined w.lines :=
  Text.crlf_infix_joined.mpr (Or.inr ⟨l, h.dropLast_subset hl, hlast⟩)

theorem joined_drop_suffix : ∀ (ls : List (List Char)) (n : Nat),
    joined (ls.drop n) <:+ joined ls
  | ls, 0 => List.suffix_refl _
  | [], n + 1 => List.suffix_refl _
  | [l], n + 1 => by simp [joined]
  | l :: m :: ls, n + 1 => by
    rw [List.drop_succ_cons, Text.joined_cons_cons]
    exact (joined_drop_suffix (m :: ls) n).trans
      ((List.suffix_cons _ _).trans (List.suffix_append _ _))

theorem tailFrom?_eq {w : Window} {n : Nat} {tail : List Char} (h : w.tailFrom? n = some tail) :
    tail = joined (w.lines.drop (n - w.firstLine)) := by
  unfold tailFrom? at h
  split at h
  · cases h
  · exact (Option.some.inj h).symm

end Window

/-! ## Drafts -/

namespace Draft

/-- The draft replaces lines that the window shows from its focus on. It has no fewer lines than it
replaces. It has a carriage return before a line feed only if the window has one, and ends in a
carriage return only if the lines that it replaces do. -/
structure Fits (w : Window) (d : Draft) : Prop where
  firstLine_eq : d.firstLine = w.focus
  replaced_ne_nil : d.replaced ≠ []
  shows : w.Shows d.replaced
  length_le : d.replaced.length ≤ (Text.rows (Window.joined d.suggested)).length
  crlf : ['\r', '\n'] <:+: Window.joined d.suggested → ['\r', '\n'] <:+: Window.joined w.lines
  last : (Window.joined d.suggested).getLast? = some '\r' →
    (Window.joined d.replaced).getLast? = some '\r'

/-- What is replaced has its lines as rows. -/
theorem Fits.rows_replaced {w : Window} {d : Draft} (h : d.Fits w) (hw : w.Plain) :
    Text.rows (Window.joined d.replaced) = d.replaced :=
  Text.rows_intercalate h.replaced_ne_nil fun l hl => hw l (h.shows.subset hl)

/-- A draft of several lines fits if each of them does. -/
theorem fits_lines {w : Window} {d : Draft} {olds news : List (List Char)} {old new : List Char}
    (hfirst : d.firstLine = w.focus) (hreplaced : d.replaced = olds ++ [old])
    (hsuggested : d.suggested = news ++ [new]) (hshows : w.Shows d.replaced)
    (hlen : olds.length ≤ news.length)
    (hinside : ∀ l ∈ news ++ [new], ['\r', '\n'] <:+: l → ['\r', '\n'] <:+: Window.joined w.lines)
    (hends : ∀ l ∈ news, l.getLast? = some '\r' → ['\r', '\n'] <:+: Window.joined w.lines)
    (hlast : new.getLast? = some '\r' → old.getLast? = some '\r') : d.Fits w where
  firstLine_eq := hfirst
  replaced_ne_nil := by simp [hreplaced]
  shows := hshows
  length_le := by
    refine Nat.le_trans ?_ (Text.length_le_rows_joined _)
    simpa [hreplaced, hsuggested] using hlen
  crlf hcrlf := by
    rw [hsuggested] at hcrlf
    rcases Text.crlf_infix_joined.mp hcrlf with ⟨l, hl, hin⟩ | ⟨l, hl, hend⟩
    · exact hinside l hl hin
    · rw [List.dropLast_concat] at hl
      exact hends l hl hend
  last h := by
    rw [hsuggested] at h
    rw [hreplaced]
    exact (Text.getLast?_joined_concat (by decide) old olds).mpr
      (hlast ((Text.getLast?_joined_concat (by decide) new news).mp h))

/-- A draft whose lines are the old ones with something put in fits. -/
theorem fits_grown {w : Window} {d : Draft} (hw : w.Plain) (hfirst : d.firstLine = w.focus)
    (hne : d.replaced ≠ []) (hshows : w.Shows d.replaced)
    (h : List.Forall₂ Text.Grown d.replaced d.suggested) : d.Fits w where
  firstLine_eq := hfirst
  replaced_ne_nil := hne
  shows := hshows
  length_le := h.length_eq ▸ Text.length_le_rows_joined d.suggested
  crlf hcrlf := by
    rcases Text.crlf_infix_joined.mp ((Text.Grown.joined h).crlf_kept hcrlf) with
      ⟨l, hl, hinside⟩ | ⟨l, hl, hlast⟩
    · exact absurd hinside (Text.no_crlf_of_not_mem (hw l (hshows.subset hl)))
    · exact hshows.crlf_of_mem hl hlast
  last := (Text.Grown.joined h).getLast?_return

/-- The new line has no line feed, and ends in a carriage return only if the old one does. -/
def Tidy (old new : List Char) : Prop :=
  '\n' ∉ new ∧ (new.getLast? = some '\r' → old.getLast? = some '\r')

theorem fits_line {w : Window} {line new : List Char} (h : w.focusText? = some line)
    (hnew : Tidy line new) (title description : String) :
    Fits w { firstLine := w.focus, replaced := [line], suggested := [new], title, description } := by
  refine fits_lines rfl (List.nil_append _).symm (List.nil_append _).symm
    (Window.shows_focusText h) (Nat.le_refl _) (fun l hl hcrlf => ?_) (by simp) hnew.2
  obtain rfl := List.mem_singleton.mp hl
  exact absurd hcrlf (Text.no_crlf_of_not_mem hnew.1)

theorem Fits.withAlternative {w : Window} {d : Draft} (h : d.Fits w) (title tradeoff : String)
    (confidence : Nat) (code : Option (List Char)) :
    (d.withAlternative title tradeoff confidence code).Fits w :=
  ⟨h.firstLine_eq, h.replaced_ne_nil, h.shows, h.length_le, h.crlf, h.last⟩

/-- What `ofLine` gives fits, if the change is tidy. -/
theorem fits_ofLine {w : Window} {d : Draft} {title description : String}
    {change : List Char → Attempt (List Char)} (h : (ofLine w title description change).Gives d)
    (hchange : ∀ {line new}, w.focusText? = some line → (change line).Gives new → Tidy line new) :
    d.Fits w := by
  simp only [ofLine, Attempt.gives_bind, Attempt.gives_of, Attempt.gives_pure] at h
  obtain ⟨line, hline, new, hnew, rfl⟩ := h
  exact fits_line hline (hchange hline hnew) title description

theorem fits_ofLine_withAlternative {w : Window} {d : Draft} {title description other : String}
    {tradeoff : String} {confidence : Nat} {code : Option (List Char)}
    {change : List Char → Attempt (List Char)}
    (h : (ofLine w title description change >>= fun draft =>
      pure (draft.withAlternative other tradeoff confidence code)).Gives d)
    (hchange : ∀ {line new}, w.focusText? = some line → (change line).Gives new → Tidy line new) :
    d.Fits w := by
  simp only [Attempt.gives_bind, Attempt.gives_pure] at h
  obtain ⟨draft, hdraft, rfl⟩ := h
  exact (fits_ofLine hdraft hchange).withAlternative _ _ _ _

/-! ## New lines made of parts of old ones -/

/-- A line that ends in plain text. -/
theorem getLast?_concat_ne {front new : List Char} (hnew : new ≠ [])
    (hr : new.getLast? ≠ some '\r') : (front ++ new).getLast? ≠ some '\r' := by
  rwa [List.getLast?_append_of_ne_nil _ hnew]

/-- A line that ends as an old one does, after plain text. -/
theorem getLast?_append_return {front new back old : List Char} (hnew : new ≠ [])
    (hr : new.getLast? ≠ some '\r') (hback : back <:+ old)
    (h : (front ++ new ++ back).getLast? = some '\r') : old.getLast? = some '\r' := by
  obtain ⟨rest, rfl⟩ := hback
  rw [List.getLast?_append] at h ⊢
  cases hb : back.getLast? with
  | some c =>
    rw [hb] at h
    exact h
  | none =>
    rw [hb] at h
    exact absurd h (getLast?_concat_ne hnew hr)

theorem tidy_concat {old front new : List Char} (hfront : '\n' ∉ front) (hnew : new ≠ [])
    (hn : '\n' ∉ new) (hr : new.getLast? ≠ some '\r') : Tidy old (front ++ new) := by
  refine ⟨?_, fun h => absurd h (getLast?_concat_ne hnew hr)⟩
  rw [List.mem_append, not_or]
  exact ⟨hfront, hn⟩

theorem tidy_append {old new back : List Char} (hnew : new ≠ []) (hn : '\n' ∉ new)
    (hr : new.getLast? ≠ some '\r') (hback : back <:+ old) (hold : '\n' ∉ old) {front : List Char}
    (hfront : '\n' ∉ front) : Tidy old (front ++ new ++ back) := by
  refine ⟨?_, getLast?_append_return hnew hr hback⟩
  simp only [List.mem_append, not_or]
  exact ⟨⟨hfront, hn⟩, fun hmem => hold (hback.subset hmem)⟩

end Draft

/-- A line with a part of it replaced. -/
theorem Synthesis.tidy_replaceAt {offset length : Nat} {new line result : List Char}
    (hline : '\n' ∉ line) (hnew : new ≠ []) (hn : '\n' ∉ new) (hr : new.getLast? ≠ some '\r')
    (h : replaceAt offset length new line = .ok result) : Draft.Tidy line result := by
  simp only [replaceAt, bind_eq_ok] at h
  obtain ⟨front, hfront, back, hback, h⟩ := h
  obtain rfl := Except.ok.inj h
  exact Draft.tidy_append hnew hn hr (Text.suffix_of_onward hback) hline
    fun hmem => hline ((Text.prefix_of_before hfront).subset hmem)

end Mend
