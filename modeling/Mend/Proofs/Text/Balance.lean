import Mend.Proofs.Text.Lexing
import Mend.Text.Balance

/-!
# Counting brackets over changed texts

The balance after a text is counted on from the balance before it (`Balance.after`), and only
brackets count (`after_filter`). Texts around code that close what they open leave the balance after
it as it is, unless the code closes what was not open (`Encloses`).

A text is changed in three ways. One quiet text can be exchanged for another with the same brackets
wherever it stands (`Swappable.of_quiet`). A quiet text that closes what it opens can be put in before
another one (`Harmless.of_quiet`) or on a line of its own (`Harmless.line`). Code that is taken over
into other surroundings keeps its balance if it starts and ends in code (`wraps_of_parts`): else what
is put after it could become part of a comment. Code that is copied has to be closed (`Closed`).
-/

namespace Mend.Text

namespace Balance

/-! ## Counting on -/

/-- The balance after more code. -/
def after (b : Balance) (s : List Char) : Balance := s.foldl push b

@[simp] theorem after_nil (b : Balance) : b.after [] = b := rfl

@[simp] theorem after_cons (b : Balance) (c : Char) (s : List Char) :
    b.after (c :: s) = (b.push c).after s := rfl

@[simp] theorem after_append (b : Balance) (s t : List Char) :
    b.after (s ++ t) = (b.after s).after t :=
  List.foldl_append

/-- The character opens or closes a pair. -/
def isBracket (c : Char) : Bool :=
  (Delimiter.ofOpener? c).isSome || (Delimiter.ofCloser? c).isSome

theorem push_of_not_bracket (b : Balance) {c : Char} (h : isBracket c = false) : b.push c = b := by
  rw [isBracket, Bool.or_eq_false_iff, Option.isSome_eq_false_iff, Option.isSome_eq_false_iff,
    Option.isNone_iff_eq_none, Option.isNone_iff_eq_none] at h
  rw [push, h.1, h.2]

theorem of_eq_after (language : Language) (s : List Char) :
    Balance.of language s = ({} : Balance).after (Mask.mask language s) := rfl

/-- Only brackets count. -/
theorem after_filter (b : Balance) (s : List Char) : b.after (s.filter isBracket) = b.after s := by
  induction s generalizing b with
  | nil => rfl
  | cons c s ih =>
    cases h : isBracket c with
    | true => rw [List.filter_cons_of_pos h, after_cons, after_cons, ih]
    | false => rw [List.filter_cons_of_neg (by simp [h]), after_cons, push_of_not_bracket b h, ih]

theorem filter_hide (s : List Char) : (Mask.hide s).filter isBracket = [] := by
  rw [List.filter_eq_nil_iff]
  intro c hc
  obtain ⟨d, -, hd⟩ := List.mem_flatMap.mp hc
  rw [Mask.blank] at hd
  split at hd
  · next h =>
    rw [List.mem_singleton.mp hd, h]
    decide
  · rw [List.eq_of_mem_replicate hd]
    decide

theorem after_hide (b : Balance) (s : List Char) : b.after (Mask.hide s) = b := by
  rw [← after_filter, filter_hide, after_nil]

theorem push_opener (b : Balance) (kind : Delimiter) : b.push kind.opener = b.add kind 1 := by
  cases kind <;> rfl

theorem push_closer (b : Balance) (kind : Delimiter) : b.push kind.closer =
    if (b.add kind (-1)).count kind < 0 then { b.add kind (-1) with underflow := true }
    else b.add kind (-1) := by
  cases kind <;> rfl

@[simp] theorem count_add (b : Balance) (kind other : Delimiter) (n : Int) :
    (b.add kind n).count other = b.count other + if other = kind then n else 0 := by
  cases kind <;> cases other <;> simp [add, count]

@[simp] theorem underflow_add (b : Balance) (kind : Delimiter) (n : Int) :
    (b.add kind n).underflow = b.underflow := by
  cases kind <;> rfl

theorem add_add (b : Balance) (kind : Delimiter) (n m : Int) :
    (b.add kind n).add kind m = b.add kind (n + m) := by
  cases kind <;> simp [add, Int.add_assoc]

theorem add_comm (b : Balance) (kind other : Delimiter) (n m : Int) :
    (b.add kind n).add other m = (b.add other m).add kind n := by
  cases kind <;> cases other <;> simp [add, Int.add_assoc, Int.add_comm n m]

@[simp] theorem add_zero (b : Balance) (kind : Delimiter) : b.add kind 0 = b := by
  cases kind <;> simp [add]

/-- A bracket is one of three openers or closers, or no bracket. -/
theorem bracket_cases (c : Char) :
    (∃ kind : Delimiter, c = kind.opener) ∨ (∃ kind : Delimiter, c = kind.closer) ∨
      isBracket c = false := by
  cases hopen : Delimiter.ofOpener? c with
  | some kind =>
    have h := List.find?_some hopen
    exact Or.inl ⟨kind, (by simpa using h : kind.opener = c).symm⟩
  | none =>
    cases hclose : Delimiter.ofCloser? c with
    | some kind =>
      have h := List.find?_some hclose
      exact Or.inr (Or.inl ⟨kind, (by simpa using h : kind.closer = c).symm⟩)
    | none => exact Or.inr (Or.inr (by simp [isBracket, hopen, hclose]))

/-- No count is negative unless that was noted. -/
def Noted (b : Balance) : Prop :=
  b.underflow = true ∨ ∀ kind, 0 ≤ b.count kind

theorem noted_start : Noted {} :=
  Or.inr fun kind => by cases kind <;> decide

theorem underflow_push {b : Balance} (h : b.underflow = true) (c : Char) :
    (b.push c).underflow = true := by
  rcases bracket_cases c with ⟨kind, rfl⟩ | ⟨kind, rfl⟩ | hc
  · rw [push_opener, underflow_add, h]
  · rw [push_closer]
    split
    · rfl
    · rw [underflow_add, h]
  · rwa [push_of_not_bracket b hc]

theorem underflow_after {b : Balance} (h : b.underflow = true) (s : List Char) :
    (b.after s).underflow = true := by
  induction s generalizing b with
  | nil => exact h
  | cons c s ih => exact ih (underflow_push h c)

theorem underflow_of_after {b : Balance} {s : List Char} (h : (b.after s).underflow = false) :
    b.underflow = false := by
  by_contra hne
  rw [underflow_after (by simpa using hne)] at h
  cases h

theorem Noted.push {b : Balance} (h : b.Noted) (c : Char) : (b.push c).Noted := by
  rcases h with h | h
  · exact Or.inl (underflow_push h c)
  rcases bracket_cases c with ⟨kind, rfl⟩ | ⟨kind, rfl⟩ | hc
  · refine Or.inr fun other => ?_
    have := h other
    rw [push_opener, count_add]
    split <;> omega
  · rw [push_closer]
    split
    · exact Or.inl rfl
    · next hcount =>
      refine Or.inr fun other => ?_
      have := h other
      by_cases hother : other = kind
      · subst hother
        exact Int.not_lt.mp hcount
      · rw [count_add, if_neg hother]
        omega
  · rw [push_of_not_bracket b hc]
    exact Or.inr h

theorem Noted.after {b : Balance} (h : b.Noted) (s : List Char) : (b.after s).Noted := by
  induction s generalizing b with
  | nil => exact h
  | cons c s ih => exact ih (h.push c)

theorem isBalanced_iff {b : Balance} :
    b.isBalanced = true ↔ b.underflow = false ∧ ∀ kind, b.count kind = 0 := by
  constructor
  · intro h
    simp only [isBalanced, Bool.and_eq_true, Bool.not_eq_true', beq_iff_eq] at h
    exact ⟨h.1.1.1, fun kind => by cases kind <;> simp [count, h]⟩
  · rintro ⟨hunder, hcount⟩
    have hbraces : b.braces = 0 := hcount .brace
    have hparens : b.parens = 0 := hcount .paren
    have hbrackets : b.brackets = 0 := hcount .bracket
    simp [isBalanced, hunder, hbraces, hparens, hbrackets]

theorem underflow_of_isBalanced {b : Balance} (h : b.isBalanced = true) : b.underflow = false := by
  simp only [isBalanced, Bool.and_eq_true, Bool.not_eq_true'] at h
  exact h.1.1.1

/-! ## Pairs around code -/

theorem push_opener_closer {b : Balance} (h : b.Noted) (kind : Delimiter) :
    (b.add kind 1).push kind.closer = b := by
  rw [push_closer, add_add, Int.add_right_neg, add_zero]
  split
  · next hcount =>
    rcases h with h | h
    · rw [← h]
    · exact absurd (h kind) (Int.not_le.mpr hcount)
  · rfl

/-- One more open pair changes nothing in code that closes none it did not open. -/
theorem after_add {b : Balance} (kind : Delimiter) : ∀ {s : List Char},
    (b.after s).underflow = false → (b.add kind 1).after s = (b.after s).add kind 1 := by
  intro s h
  induction s generalizing b with
  | nil => rfl
  | cons c s ih =>
    have hpush : (b.push c).underflow = false := by
      by_contra hne
      rw [after_cons, underflow_after (Bool.not_eq_false _ ▸ hne)] at h
      cases h
    have hstep : (b.add kind 1).push c = (b.push c).add kind 1 := by
      rcases bracket_cases c with ⟨other, rfl⟩ | ⟨other, rfl⟩ | hc
      · rw [push_opener, push_opener, add_comm]
      · rw [push_closer] at hpush
        split at hpush
        · cases hpush
        · next hcount =>
          have hcount' : ¬((b.add kind 1).add other (-1)).count other < 0 := by
            rw [add_comm, count_add]
            split <;> omega
          rw [push_closer, push_closer, if_neg hcount, if_neg hcount', add_comm]
      · rw [push_of_not_bracket _ hc, push_of_not_bracket _ hc]
    rw [after_cons, after_cons, hstep, ih h]

/-- Texts that have the same brackets count alike. -/
theorem after_congr (b : Balance) {s t : List Char} (h : s.filter isBracket = t.filter isBracket) :
    b.after s = b.after t := by
  rw [← after_filter, h, after_filter]

/-- The two texts around code leave the balance after it as it is, if the code closes nothing that
was not open. -/
def Encloses (u v : List Char) : Prop :=
  ∀ (b : Balance) (s : List Char), b.Noted → (b.after s).underflow = false →
    b.after (u ++ s ++ v) = b.after s

namespace Encloses

theorem pair (kind : Delimiter) : Encloses [kind.opener] [kind.closer] := fun b s hb h => by
  have hopened : b.after ([kind.opener] ++ s) = (b.after s).add kind 1 := by
    rw [List.singleton_append, after_cons, push_opener, after_add kind h]
  rw [after_append, hopened, after_cons, after_nil, push_opener_closer (hb.after s)]

/-- Nothing at all. -/
theorem empty : Encloses [] [] := fun b s _ _ => by rw [List.nil_append, List.append_nil]

/-- A pair with nothing in it. -/
theorem blank (kind : Delimiter) : Encloses [kind.opener, kind.closer] [] := fun b s hb _ => by
  rw [List.append_nil, after_append, after_cons, after_cons, after_nil, push_opener,
    push_opener_closer hb]

theorem nest {u v u' v' : List Char} (h : Encloses u v) (h' : Encloses u' v') :
    Encloses (u ++ u') (v' ++ v) := fun b s hb hs => by
  have hinner : b.after (u' ++ s ++ v') = b.after s := h' b s hb hs
  have houter := h b (u' ++ s ++ v') hb (by rwa [hinner])
  rw [hinner] at houter
  rw [← houter]
  simp only [List.append_assoc]

/-- Only the brackets matter. -/
theorem of_filter {u v u' v' : List Char} (h : Encloses u' v')
    (hu : u.filter isBracket = u'.filter isBracket)
    (hv : v.filter isBracket = v'.filter isBracket) : Encloses u v := fun b s hb hs => by
  rw [← h b s hb hs]
  simp only [after_append]
  rw [b.after_congr hu, after_congr _ hv]

end Encloses

/-! ## Inert texts -/

/-- The character means nothing to the lexer and is no bracket. -/
def isInert (c : Char) : Bool := Mask.isQuiet c && !isBracket c

theorem quiet_of_inert {s : List Char} (h : s.all isInert = true) : s.all Mask.isQuiet = true := by
  rw [List.all_eq_true] at h ⊢
  exact fun c hc => (Bool.and_eq_true_iff.mp (h c hc)).1

theorem filter_of_inert {s : List Char} (h : s.all isInert = true) : s.filter isBracket = [] := by
  rw [List.filter_eq_nil_iff]
  intro c hc
  simpa using (Bool.and_eq_true_iff.mp (List.all_eq_true.mp h c hc)).2

theorem after_inert (b : Balance) {s : List Char} (h : s.all isInert = true) : b.after s = b := by
  rw [← after_filter, filter_of_inert h, after_nil]

/-- The characters that are not inert, a line feed aside. -/
def loud : List Char := Mask.marks ++ Delimiter.all.flatMap fun kind => [kind.opener, kind.closer]

theorem isInert_of_not_mem {c : Char} (hc : c ∉ loud) (hn : c ≠ '\n') : isInert c = true := by
  simp only [loud, Delimiter.all, List.flatMap_cons, List.flatMap_nil, List.mem_append,
    List.mem_cons, List.not_mem_nil, or_false, not_or] at hc
  have hbracket : isBracket c = false := by
    rcases bracket_cases c with ⟨kind, rfl⟩ | ⟨kind, rfl⟩ | h
    · cases kind <;> simp at hc
    · cases kind <;> simp at hc
    · exact h
  simp [isInert, Mask.isQuiet, hbracket, hn, hc.1]

/-- A text of characters of a kind that no mark and no bracket is of. -/
theorem inert_of_all {p : Char → Bool} (hp : loud.all (fun c => !p c) = true) {s : List Char}
    (hs : s.all p = true) (hn : '\n' ∉ s) : s.all isInert = true := by
  rw [List.all_eq_true] at hs hp ⊢
  intro c hc
  refine isInert_of_not_mem (fun hmem => ?_) fun h => hn (h ▸ hc)
  have := hp c hmem
  rw [hs c hc] at this
  cases this

/-! ## Exchanged texts -/

/-- The second text counts like the first wherever it stands in the first one's place. It has no
line feed unless the first has one. -/
structure Swappable (u v : List Char) : Prop where
  after_eq : ∀ (language : Language) (p r : List Char) (b : Balance), b.Noted →
    b.after (Mask.mask language (p ++ v ++ r)) = b.after (Mask.mask language (p ++ u ++ r))
  newline : '\n' ∈ v → '\n' ∈ u

namespace Swappable

theorem refl (u : List Char) : Swappable u u := ⟨fun _ _ _ _ _ => rfl, id⟩

theorem trans {u v x : List Char} (h : Swappable u v) (h' : Swappable v x) : Swappable u x :=
  ⟨fun language p r b hb => (h'.after_eq language p r b hb).trans (h.after_eq language p r b hb),
    fun hx => h.newline (h'.newline hx)⟩

/-- What stands around the texts does not matter. -/
theorem inside {u v : List Char} (h : Swappable u v) (f g : List Char) :
    Swappable (f ++ u ++ g) (f ++ v ++ g) where
  after_eq language p r b hb := by
    have hswap := h.after_eq language (p ++ f) (g ++ r) b hb
    simp only [List.append_assoc] at hswap ⊢
    exact hswap
  newline hmem := by
    simp only [List.mem_append] at hmem ⊢
    exact hmem.imp_left (Or.imp_right h.newline)

/-- Quiet texts with the same brackets can be exchanged anywhere: where the mask shows one it shows
the other, and the rest of the text does not tell them apart. -/
theorem of_quiet {u v : List Char} (h : u.all Mask.isQuiet = true ∧ v.all Mask.isQuiet = true ∧
    2 ≤ u.length ∧ 2 ≤ v.length ∧ u.filter isBracket = v.filter isBracket) : Swappable u v where
  after_eq language p r b _ := by
    obtain ⟨hu, hv, hul, hvl, h⟩ := h
    obtain ⟨mode, m, n, hveil⟩ := Mask.exists_veil language p r
    have hmode (b : Balance) : b.after (mode.veil v) = b.after (mode.veil u) := by
      cases mode with
      | code => exact b.after_congr h.symm
      | _ => simp only [Mask.Mode.veil, after_hide]
    rw [hveil u hu hul, hveil v hv hvl]
    simp only [after_append, hmode]
  newline hmem := absurd (List.all_eq_true.mp h.2.1 _ hmem) (by decide)

end Swappable

/-! ## Texts that are put in -/

/-- Where no bracket closes what was not open, the second text counts like the first wherever it
stands in the first one's place. -/
def Harmless (u v : List Char) : Prop :=
  ∀ (language : Language) (p r : List Char) (b : Balance), b.Noted →
    (b.after (Mask.mask language (p ++ u ++ r))).underflow = false →
      b.after (Mask.mask language (p ++ v ++ r)) = b.after (Mask.mask language (p ++ u ++ r))

namespace Harmless

theorem refl (u : List Char) : Harmless u u := fun _ _ _ _ _ _ => rfl

theorem trans {u v x : List Char} (h : Harmless u v) (h' : Harmless v x) : Harmless u x :=
  fun language p r b hb hunder => by
    have hsame := h language p r b hb hunder
    rw [← hsame] at hunder
    rw [h' language p r b hb hunder, hsame]

/-- What stands around the texts does not matter. -/
theorem inside {u v : List Char} (h : Harmless u v) (f g : List Char) :
    Harmless (f ++ u ++ g) (f ++ v ++ g) := fun language p r b hb hunder => by
  have hin := h language (p ++ f) (g ++ r) b hb
  simp only [List.append_assoc] at hin hunder ⊢
  exact hin hunder

theorem append {u v x y : List Char} (h : Harmless u v) (h' : Harmless x y) :
    Harmless (u ++ x) (v ++ y) := by
  have hback := h'.inside v []
  rw [List.append_nil, List.append_nil] at hback
  exact (h.inside [] x).trans hback

/-- A quiet text that closes what it opens may come right before a quiet text. -/
theorem of_quiet {f g : List Char} (hf : f.all Mask.isQuiet = true)
    (hg : g.all Mask.isQuiet = true) (hlen : 2 ≤ g.length) (h : Encloses f []) :
    Harmless g (f ++ g) := fun language p r b hb hunder => by
  obtain ⟨mode, m, n, hveil⟩ := Mask.exists_veil language p r
  rw [hveil g hg hlen] at hunder ⊢
  rw [hveil (f ++ g) (by rw [List.all_append, hf, hg]; rfl) (by rw [List.length_append]; omega)]
  cases mode with
  | code =>
    have hclosed := h (b.after m) (g ++ n) (hb.after m)
    simp only [Mask.Mode.veil, List.append_nil, List.append_assoc, after_append] at hclosed hunder ⊢
    exact hclosed hunder
  | _ => simp only [Mask.Mode.veil, after_append, after_hide]

/-- A quiet line that closes what it opens may come after a line that does not end in a backslash. -/
theorem line {l u : List Char} (hl : l ≠ []) (hlast : l.getLast? ≠ some '\\')
    (hu : u.all Mask.isQuiet = true) (hne : u ≠ []) (h : Encloses u []) :
    Harmless (l ++ ['\n']) (l ++ ['\n'] ++ u ++ ['\n']) := fun language p r b hb hunder => by
  have hend : (p ++ l).getLast? ≠ some '\\' := by rwa [List.getLast?_append_of_ne_nil _ hl]
  obtain ⟨mode, m, n, hshown, hveil⟩ := Mask.exists_veil_line language hend r
  have hold : p ++ (l ++ ['\n']) ++ r = p ++ l ++ ['\n'] ++ r := by simp
  have hnew : p ++ (l ++ ['\n'] ++ u ++ ['\n']) ++ r = p ++ l ++ ['\n'] ++ u ++ ['\n'] ++ r := by
    simp
  have hfeed (b : Balance) : b.after ['\n'] = b := b.push_of_not_bracket (c := '\n') (by decide)
  rw [hold, hshown] at hunder ⊢
  rw [hnew, hveil u hu hne]
  cases mode with
  | code =>
    have hclosed := h (b.after m) n (hb.after m)
    simp only [Mask.Mode.veil, List.append_nil, after_append, hfeed] at hclosed hunder ⊢
    exact hclosed hunder
  | _ => simp only [Mask.Mode.veil, after_append, after_hide, hfeed]

end Harmless

/-! ## Closed texts -/

/-- Read from code on, the text ends in code and has closed what it opens. -/
structure Closed (language : Language) (s : List Char) : Prop where
  inCode : Mask.InCode language s
  after_eq : ∀ b : Balance, b.Noted → b.underflow = false → b.after (Mask.mask language s) = b

/-- Any number of open pairs changes nothing in code that closes none it did not open. -/
theorem after_add_nat {b : Balance} (kind : Delimiter) (n : Nat) {s : List Char}
    (h : (b.after s).underflow = false) : (b.add kind n).after s = (b.after s).add kind n := by
  induction n with
  | zero => simp
  | succ n ih =>
    have hadd (b : Balance) : b.add kind ((n + 1 : Nat) : Int) = (b.add kind n).add kind 1 := by
      rw [add_add, Int.natCast_succ]
    rw [hadd, hadd, after_add kind (by rw [ih, underflow_add, h]), ih]

/-- Where no closer came first, some pairs are open and that is all. -/
theorem exists_add {b : Balance} (hb : b.Noted) (h : b.underflow = false) : ∃ n m k : Nat,
    b = ((({} : Balance).add .brace n).add .paren m).add .bracket k := by
  have hcount := hb.resolve_left (by simp [h])
  obtain ⟨n, hn⟩ := Int.eq_ofNat_of_zero_le (hcount .brace)
  obtain ⟨m, hm⟩ := Int.eq_ofNat_of_zero_le (hcount .paren)
  obtain ⟨k, hk⟩ := Int.eq_ofNat_of_zero_le (hcount .bracket)
  refine ⟨n, m, k, ?_⟩
  obtain ⟨braces, parens, brackets, underflow⟩ := b
  simp only [count] at hn hm hk
  simpa [add, hn, hm, hk] using h

namespace Closed

variable {language : Language} {s t : List Char}

/-- A quiet text that closes what it opens. -/
theorem of_quiet {u : List Char} (hu : u.all Mask.isQuiet = true) (h : Encloses u []) :
    Closed language u where
  inCode := Mask.inCode_nil.append_quiet hu
  after_eq b hb hunder := by
    have hclosed := h b [] hb hunder
    rwa [List.append_nil, List.append_nil, after_nil, ← Mask.mask_eq_of_quiet hu] at hclosed

/-- A balanced text has closed what it opens, whatever is open around it. -/
theorem of_isBalanced (hcode : Mask.InCode language s)
    (h : (Balance.of language s).isBalanced = true) : Closed language s where
  inCode := hcode
  after_eq b hb hunder := by
    have hstart : ({} : Balance).after (Mask.mask language s) = {} := by
      rw [isBalanced_iff, of_eq_after] at h
      obtain ⟨n, m, k, hadd⟩ := exists_add (noted_start.after (Mask.mask language s)) h.1
      have hcount := h.2
      simp only [hadd, count_add] at hcount
      rw [hadd]
      obtain ⟨rfl, rfl, rfl⟩ : n = 0 ∧ m = 0 ∧ k = 0 := by
        refine ⟨?_, ?_, ?_⟩
        · simpa [count] using hcount .brace
        · simpa [count] using hcount .paren
        · simpa [count] using hcount .bracket
      simp
    obtain ⟨n, m, k, rfl⟩ := exists_add hb hunder
    rw [after_add_nat .bracket, after_add_nat .paren, after_add_nat .brace, hstart] <;>
      simp [after_add_nat, hstart]

/-- Quiet texts around a closed one that close what they open. -/
theorem enclose {u v : List Char} (hs : Closed language s) (hu : u.all Mask.isQuiet = true)
    (hv : v.all Mask.isQuiet = true) (h : Encloses u v) : Closed language (u ++ s ++ v) := by
  have hfront : Mask.InCode language (u ++ s) :=
    (Mask.fresh_of_quiet hu).inCode_append_iff.mpr hs.inCode
  refine ⟨hfront.append_quiet hv, fun b hb hunder => ?_⟩
  have hinner := hs.after_eq b hb hunder
  rw [hfront.mask_append_quiet hv, Mask.mask_quiet hu, h b _ hb (by rw [hinner, hunder]), hinner]

/-- Closed texts with an inert one between them. -/
theorem append {u : List Char} (hs : Closed language s) (hu : u.all isInert = true)
    (hlen : 2 ≤ u.length) (ht : Closed language t) : Closed language (s ++ u ++ t) := by
  have hfresh := hs.inCode.fresh_append (quiet_of_inert hu) hlen
  refine ⟨hfresh.inCode_append_iff.mpr ht.inCode, fun b hb hunder => ?_⟩
  rw [hfresh, hs.inCode.mask_append_quiet (quiet_of_inert hu), after_append, after_append,
    hs.after_eq b hb hunder, after_inert b hu, ht.after_eq b hb hunder]

end Closed

/-! ## Wrapped texts -/

/-- The second text counts like the first where both stand in code, if no bracket of the first
closes what was not open. It leaves the lexer in code, and has no line feed, if the first does. -/
structure Wraps (language : Language) (u v : List Char) : Prop where
  inCode : Mask.InCode language v
  after_eq : ∀ b : Balance, b.Noted → (b.after (Mask.mask language u)).underflow = false →
    b.after (Mask.mask language v) = b.after (Mask.mask language u)
  newline : '\n' ∈ v → '\n' ∈ u

/-- Code that is taken over from one text to another counts alike in both, if what stands around it
in the second has the brackets of what stands before it in the first, and others that enclose it. -/
theorem wraps_of_parts {language : Language} {p f f' g q q' : List Char}
    (hcode : Mask.InCode language (p ++ f ++ g ++ q)) (hp : Mask.InCode language p)
    (hf : f.all isInert = true) (hf' : f'.all Mask.isQuiet = true)
    (hold : Mask.Fresh language (p ++ f)) (hnew : Mask.Fresh language (p ++ f'))
    (hq : q.all isInert = true) (hq' : q'.all Mask.isQuiet = true) (h : Encloses f' q') :
    Wraps language (p ++ f ++ g ++ q) (p ++ f' ++ g ++ q') := by
  have hquiet := quiet_of_inert hq
  have hfg := Mask.inCode_of_append_quiet hcode hquiet
  have hfg' : Mask.InCode language (p ++ f' ++ g) :=
    hnew.inCode_append_iff.mpr (hold.inCode_append_iff.mp hfg)
  refine ⟨hfg'.append_quiet hq', fun b hb hs => ?_, fun hmem => ?_⟩
  · have hmask : b.after (Mask.mask language (p ++ f ++ g ++ q)) =
        (b.after (Mask.mask language p)).after (Mask.mask language g) := by
      rw [hfg.mask_append_quiet hquiet, hold, hp.mask_append_quiet (quiet_of_inert hf),
        after_append, after_inert _ hq, after_append, after_append, after_inert _ hf]
    rw [hmask] at hs ⊢
    rw [hfg'.mask_append_quiet hq', hnew, hp.mask_append_quiet hf', ← h _ _ (hb.after _) hs]
    simp only [after_append]
  · simp only [List.mem_append] at hmem ⊢
    rcases hmem with ((hmem | hmem) | hmem) | hmem
    · exact Or.inl (Or.inl (Or.inl hmem))
    · exact absurd (List.all_eq_true.mp hf' _ hmem) (by decide)
    · exact Or.inl (Or.inr hmem)
    · exact absurd (List.all_eq_true.mp hq' _ hmem) (by decide)

/-- A whole line is wrapped, but for inert text at its ends. -/
theorem wraps_of_inert {language : Language} {f f' g q q' : List Char}
    (hcode : Mask.InCode language (f ++ g ++ q)) (hf : f.all isInert = true)
    (hf' : f'.all Mask.isQuiet = true) (hq : q.all isInert = true)
    (hq' : q'.all Mask.isQuiet = true) (h : Encloses f' q') :
    Wraps language (f ++ g ++ q) (f' ++ g ++ q') :=
  @wraps_of_parts language [] f f' g q q' hcode Mask.inCode_nil hf hf'
    (Mask.fresh_of_quiet (quiet_of_inert hf)) (Mask.fresh_of_quiet hf') hq hq' h

end Balance

theorem sanityCheck_of_eq {language : Language} {old new : List Char}
    (h : (Balance.of language old).isBalanced = true →
      Balance.of language new = Balance.of language old) :
    sanityCheck language old new = .ok () := by
  unfold sanityCheck
  cases hold : (Balance.of language old).isBalanced with
  | false => rfl
  | true => simp [h hold, hold]

end Mend.Text
