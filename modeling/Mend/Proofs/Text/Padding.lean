import Mend.Proofs.Text.Balance
import Mend.Proofs.Text.Closing

/-!
# Carriage returns at the ends of lines

A file may end its lines in carriage returns and line feeds while a window of it ends them in line
feeds alone. The two texts have the same lines (`SameLines`), and what the mask shows of them
differs only in blanks before line feeds (`SameLines.alike_mask`), if no line that gets a carriage
return ends in a backslash, which would take it along. Texts that differ so (`Alike`) have the same
characters other than blanks, and can be cut at the same ones.
-/

namespace Mend.Text

theorem Balance.isBlank_of_isBracket {c : Char} (h : isBracket c = true) : isBlank c = false := by
  rcases bracket_cases c with ⟨kind, rfl⟩ | ⟨kind, rfl⟩ | hnone
  · cases kind <;> decide
  · cases kind <;> decide
  · rw [h] at hnone
    cases hnone

/-! ## Blanks before line feeds -/

/-- The texts differ in blanks before line feeds at most. -/
inductive Alike : List Char → List Char → Prop
  | nil : Alike [] []
  | cons (c : Char) {s t : List Char} : Alike s t → Alike (c :: s) (c :: t)
  | left {b : Char} (hb : isBlank b = true) {s t : List Char} :
      Alike ('\n' :: s) ('\n' :: t) → Alike (b :: '\n' :: s) ('\n' :: t)
  | right {b : Char} (hb : isBlank b = true) {s t : List Char} :
      Alike ('\n' :: s) ('\n' :: t) → Alike ('\n' :: s) (b :: '\n' :: t)

namespace Alike

variable {s t u v w : List Char} {c : Char}

theorem refl : ∀ s : List Char, Alike s s
  | [] => nil
  | c :: s => cons c (refl s)

theorem symm (h : Alike s t) : Alike t s := by
  induction h with
  | nil => exact nil
  | cons c _ ih => exact ih.cons c
  | left hb _ ih => exact ih.right hb
  | right hb _ ih => exact ih.left hb

theorem append (h : Alike s t) (h' : Alike u v) : Alike (s ++ u) (t ++ v) := by
  induction h with
  | nil => exact h'
  | cons c _ ih => exact ih.cons c
  | left hb _ ih => exact ih.left hb
  | right hb _ ih => exact ih.right hb

theorem append_left (p : List Char) (h : Alike s t) : Alike (p ++ s) (p ++ t) := (refl p).append h

/-- In one line there is no difference. -/
theorem eq_of_not_mem (h : Alike s t) (hn : '\n' ∉ s) : s = t := by
  induction h with
  | nil => rfl
  | cons c _ ih => rw [ih fun hmem => hn (List.mem_cons_of_mem _ hmem)]
  | left => exact absurd (List.mem_cons_of_mem _ List.mem_cons_self) hn
  | right => exact absurd List.mem_cons_self hn

/-- The texts have the same characters other than blanks. -/
theorem filter_eq (h : Alike s t) {p : Char → Bool} (hp : ∀ c, p c = true → isBlank c = false) :
    s.filter p = t.filter p := by
  have hblank {b : Char} (hb : isBlank b = true) : ¬ p b = true := fun hpb => by
    rw [hp b hpb] at hb
    cases hb
  induction h with
  | nil => rfl
  | cons c _ ih => rw [List.filter_cons, List.filter_cons, ih]
  | left hb _ ih => rw [List.filter_cons_of_neg (hblank hb), ih]
  | right hb _ ih => rw [List.filter_cons_of_neg (hblank hb), ih]

/-- They count alike. -/
theorem after_eq (h : Alike s t) (b : Balance) : b.after s = b.after t :=
  b.after_congr (h.filter_eq fun _ => Balance.isBlank_of_isBracket)

theorem count_eq (h : Alike s t) (hc : isBlank c = false) : s.count c = t.count c := by
  rw [List.count_eq_length_filter, List.count_eq_length_filter, h.filter_eq fun d hd => ?_]
  rwa [beq_iff_eq.mp hd]

theorem all_isBlank (h : Alike s t) : s.all isBlank = t.all isBlank := by
  induction h with
  | nil => rfl
  | cons c _ ih => rw [List.all_cons, List.all_cons, ih]
  | left hb _ ih => rw [List.all_cons, hb, Bool.true_and, ih]
  | @right b hb s t _ ih => rw [ih, List.all_cons (a := b), hb, Bool.true_and]

/-- Brackets nest alike. -/
theorem nested_eq {kind : Delimiter} (h : Alike s t) (depth : Nat) :
    nested kind depth s = nested kind depth t := by
  refine nested_congr (h.filter_eq fun c hc => ?_) depth
  simp only [Delimiter.isOf, Bool.or_eq_true, beq_iff_eq] at hc
  rcases hc with rfl | rfl <;> cases kind <;> decide

theorem getLast?_eq (h : Alike s t) : s.getLast? = t.getLast? := by
  induction h with
  | nil => rfl
  | @cons c s t h ih =>
    cases h with
    | nil => rfl
    | cons | left | right => simpa only [List.getLast?_cons_cons] using ih
  | left hb _ ih => rwa [List.getLast?_cons_cons]
  | right hb _ ih => rwa [List.getLast?_cons_cons]

/-- What comes before a character in a text that starts with another one. -/
theorem eq_cons_of_append {d : Char} (h : d :: s = u ++ c :: v) :
    (u = [] ∧ d = c ∧ s = v) ∨ ∃ u', u = d :: u' ∧ s = u' ++ c :: v := by
  rcases List.append_eq_cons_iff.mp h.symm with ⟨rfl, hd⟩ | ⟨u', rfl, rfl⟩
  · obtain ⟨rfl, rfl⟩ := List.cons.inj hd
    exact Or.inl ⟨rfl, rfl, rfl⟩
  · exact Or.inr ⟨u', rfl, rfl⟩

/-- Where one text is cut at a character that is no blank, the other one can be cut at it, too. -/
theorem exists_cut (h : Alike s t) (hc : isBlank c = false) : ∀ {u v : List Char}, s = u ++ c :: v →
    ∃ u' v', t = u' ++ c :: v' ∧ Alike u u' ∧ Alike v v' := by
  have hnewline : c ≠ '\n' := by
    rintro rfl
    cases hc
  induction h with
  | nil => exact fun hs => by simp at hs
  | @cons d s t h ih =>
    intro u v hs
    rcases eq_cons_of_append hs with ⟨rfl, rfl, rfl⟩ | ⟨u, rfl, rfl⟩
    · exact ⟨[], t, rfl, nil, h⟩
    · obtain ⟨u', v', rfl, hu, hv⟩ := ih rfl
      exact ⟨d :: u', v', rfl, hu.cons d, hv⟩
  | @left b hb s t h ih =>
    intro u v hs
    rcases eq_cons_of_append hs with ⟨-, rfl, -⟩ | ⟨u, rfl, hs'⟩
    · rw [hc] at hb
      cases hb
    · obtain ⟨u', v', ht, hu, hv⟩ := ih hs'
      rcases eq_cons_of_append hs' with ⟨-, rfl, -⟩ | ⟨u, rfl, -⟩
      · exact absurd rfl hnewline
      rcases eq_cons_of_append ht with ⟨-, rfl, -⟩ | ⟨u', rfl, -⟩
      · exact absurd rfl hnewline
      exact ⟨'\n' :: u', v', ht, hu.left hb, hv⟩
  | @right b hb s t h ih =>
    intro u v hs
    obtain ⟨u', v', ht, hu, hv⟩ := ih hs
    rcases eq_cons_of_append hs with ⟨-, rfl, -⟩ | ⟨u, rfl, -⟩
    · exact absurd rfl hnewline
    rcases eq_cons_of_append ht with ⟨-, rfl, -⟩ | ⟨u', rfl, rfl⟩
    · exact absurd rfl hnewline
    exact ⟨b :: '\n' :: u', v', rfl, hu.right hb, hv⟩

/-- What starts one text without blanks starts the other one. -/
theorem exists_append : ∀ {w : List Char} {t v : List Char}, Alike (w ++ v) t →
    w.any isBlank = false → ∃ v', t = w ++ v' ∧ Alike v v'
  | [], t, _, h, _ => ⟨t, rfl, h⟩
  | c :: w, t, v, h, hw => by
    rw [List.any_cons, Bool.or_eq_false_iff] at hw
    obtain ⟨u', x, rfl, hu, hx⟩ := h.exists_cut hw.1 (List.nil_append _).symm
    obtain rfl := hu.eq_of_not_mem List.not_mem_nil
    obtain ⟨v', rfl, hv⟩ := exists_append hx hw.2
    exact ⟨v', rfl, hv⟩

/-- Where one text is cut at a word, the other one can be cut at it, too. -/
theorem exists_word (h : Alike (u ++ w ++ v) t) (hne : w ≠ []) (hw : w.any isBlank = false) :
    ∃ u' v', t = u' ++ w ++ v' ∧ Alike u u' ∧ Alike v v' := by
  obtain ⟨c, w, rfl⟩ := List.exists_cons_of_ne_nil hne
  rw [List.any_cons, Bool.or_eq_false_iff] at hw
  obtain ⟨u', x, rfl, hu, hx⟩ := h.exists_cut hw.1
    (show u ++ c :: w ++ v = u ++ c :: (w ++ v) by simp)
  obtain ⟨v', rfl, hv⟩ := hx.exists_append hw.2
  exact ⟨u', v', by simp, hu, hv⟩

end Alike

/-! ## The same lines -/

/-- The second text has the lines of the first one, but each of them ends in a line feed alone. No
line that ends in more ends in a backslash before that. -/
inductive SameLines : List Char → List Char → Prop
  | last {l : List Char} (hl : '\n' ∉ l) : SameLines l l
  | feed {l s t : List Char} : SameLines s t → SameLines (l ++ '\n' :: s) (l ++ '\n' :: t)
  | crlf {l s t : List Char} (hl : l.getLast? ≠ some '\\') : SameLines s t →
      SameLines (l ++ '\r' :: '\n' :: s) (l ++ '\n' :: t)

namespace SameLines

/-- Lines that end in either way, and the same lines joined by line feeds. -/
theorem of_ends {last : List Char} (hlast : '\n' ∉ last) : ∀ {ends : List (List Char × List Char)},
    (∀ x ∈ ends, x.2 = ['\n'] ∨ x.2 = ['\r', '\n'] ∧ x.1.getLast? ≠ some '\\') →
      SameLines ((ends.map fun x => x.1 ++ x.2).flatten ++ last)
        (Window.joined (ends.map Prod.fst ++ [last]))
  | [], _ => by
    show SameLines last (Window.joined [last])
    rw [joined_singleton]
    exact .last hlast
  | (l, eol) :: ends, h => by
    have ih := of_ends hlast fun x hx => h x (List.mem_cons_of_mem _ hx)
    obtain ⟨m, ms, hrest⟩ : ∃ m ms, ends.map Prod.fst ++ [last] = m :: ms :=
      List.exists_cons_of_ne_nil (by simp)
    rw [List.map_cons, List.map_cons, List.cons_append, hrest, joined_cons_cons, ← hrest,
      List.flatten_cons, List.append_assoc, List.append_assoc]
    rcases h _ List.mem_cons_self with heol | ⟨heol, hl⟩
    · simp only at heol
      rw [heol]
      exact .feed ih
    · simp only at heol
      rw [heol]
      exact .crlf hl ih

theorem refl (s : List Char) : SameLines s s := by
  by_cases h : '\n' ∈ s
  · obtain ⟨l, t, hs⟩ := List.append_of_mem h
    have hshorter : t.length < s.length := by
      rw [hs, List.length_append, List.length_cons]
      omega
    exact hs ▸ (refl t).feed
  · exact .last h
termination_by s.length

open Mask

variable {language : Language} {s t : List Char}

/-- What comes after the lines is the same. -/
theorem append (h : SameLines s t) (r : List Char) : SameLines (s ++ r) (t ++ r) := by
  induction h with
  | last => exact refl _
  | feed _ ih => simpa only [List.append_assoc, List.cons_append] using ih.feed
  | crlf hl _ ih => simpa only [List.append_assoc, List.cons_append] using ih.crlf hl

/-- Whole lines come before the lines. -/
theorem after_lines {ps : List (List Char)} (hps : ∀ p ∈ ps, Ended p) (h : SameLines s t) :
    SameLines (ps.flatten ++ s) (ps.flatten ++ t) := by
  induction ps with
  | nil => exact h
  | cons p ps ih =>
    obtain ⟨l, -, rfl⟩ := hps p List.mem_cons_self
    have hlater := ih fun q hq => hps q (List.mem_cons_of_mem _ hq)
    simpa only [List.flatten_cons, List.append_assoc, List.cons_append, List.nil_append] using
      hlater.feed

/-- A line feed does not come after a backslash any more once it is read. -/
theorem settled_next_newline (mode : Mode) (s : List Char) :
    (mode.next language '\n' s).mode.settled = (mode.next language '\n' s).mode :=
  settled_next mode (by decide) s

theorem exists_veil_return (mode : Mode) : ∃ b, isBlank b = true ∧ mode.veil ['\r'] = [b] := by
  cases mode with
  | code => exact ⟨'\r', by decide, rfl⟩
  | _ => exact ⟨' ', by decide, (by decide : hide ['\r'] = [' '])⟩

theorem ahead_return (s : List Char) : Ahead ('\r' :: '\n' :: s) := ahead_cons (by decide) (by simp)

/-- What is shown of the same lines, from any mode in which no character is taken along. -/
theorem alike_shown (h : SameLines s t) : ∀ {mode : Mode}, mode.settled = mode →
    Alike (mode.shown language s) (mode.shown language t) := by
  induction h with
  | last => exact fun _ => .refl _
  | @feed l s t _ ih =>
    intro mode _
    obtain ⟨mode', m, hm⟩ := exists_mode language mode l
    rw [hm _ (ahead_newline s), hm _ (ahead_newline t), shown_newline, shown_newline]
    exact (ih (settled_next_newline mode' _)).cons '\n' |>.append_left m
  | @crlf l s t hl _ ih =>
    intro mode hmode
    obtain ⟨mode', m, hsettled, hm⟩ := exists_mode_settled language mode l
    obtain ⟨b, hb, hveil⟩ := exists_veil_return mode'
    have hreturn := @shown_quiet language mode' ('\n' :: s) ['\r'] (by simp) (by decide)
    rw [List.singleton_append, hveil, hsettled (fun _ => hmode) hl, List.singleton_append] at hreturn
    rw [hm _ (ahead_return s), hm _ (ahead_newline t), hreturn, shown_newline, shown_newline]
    exact .append_left m (.left hb ((ih (settled_next_newline mode' _)).cons '\n'))

theorem alike_mask (h : SameLines s t) : Alike (mask language s) (mask language t) :=
  @alike_shown language s t h .code rfl

/-- The same lines have the same balance. -/
theorem of_eq (h : SameLines s t) : Balance.of language s = Balance.of language t :=
  h.alike_mask.after_eq {}

end SameLines

end Mend.Text
