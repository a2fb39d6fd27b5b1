import Mend.Proofs.Pattern.Running
import Mend.Rule.React

/-!
# Effects that return a cleanup

The body of an effect returns a value at its top level (`React.ReturnsValue`) when the word `return`
stands where as many braces are open as closed and what follows it neither ends the statement nor
the block. The search that looks for it counts braces as it goes, but a `return` takes along the
first character of its value. So it finds exactly these returns where no brace is opened right after
a `return` further down (`React.hasCleanupReturn_iff`), and where one is, it may find none although
there is one, or one that is none (`React.not_hasCleanupReturn_iff`).
-/

namespace Mend.React

open Pattern

/-! ## Returns -/

/-- As many braces are opened as closed before a place of the text. -/
def AtTop (text : List Char) (n : Nat) : Prop :=
  (text.take n).count '\x7b' = (text.take n).count '\x7d'

/-- The word `return` stands at a place of the text, and the first character after it that is no
blank is `c`. -/
def ReturnsAt (text : List Char) (n : Nat) (c : Char) : Prop :=
  wordAt "return".toList text n ∧ (text.drop (n + 6)).find? (!Text.isBlank ·) = some c

/-- At a place of its top level the text returns something. -/
def ReturnsValueAt (text : List Char) (n : Nat) : Prop :=
  ∃ c, ReturnsAt text n c ∧ c ≠ ';' ∧ c ≠ '\x7d' ∧ AtTop text n

/-- At its top level the text returns something. -/
def ReturnsValue (text : List Char) : Prop := ∃ n, ReturnsValueAt text n

instance (text : List Char) (n : Nat) : Decidable (AtTop text n) :=
  inferInstanceAs (Decidable (_ = _))

instance (text : List Char) (n : Nat) (c : Char) : Decidable (ReturnsAt text n c) :=
  inferInstanceAs (Decidable (_ ∧ _))

/-- How many more braces are opened than closed before a place. -/
def level (text : List Char) (n : Nat) : Int :=
  (text.take n).count '\x7b' - (text.take n).count '\x7d'

@[simp] theorem level_zero (text : List Char) : level text 0 = 0 := rfl

theorem level_eq_zero {text : List Char} {n : Nat} : level text n = 0 ↔ AtTop text n := by
  rw [level, AtTop]
  omega

theorem level_succ {text : List Char} {n : Nat} {c : Char} (h : text[n]? = some c) :
    level text (n + 1) =
      level text n + (if c = '\x7b' then 1 else 0) - if c = '\x7d' then 1 else 0 := by
  obtain ⟨hlt, rfl⟩ := List.getElem?_eq_some_iff.mp h
  simp only [level, List.take_succ_eq_append_getElem hlt, List.count_append, List.count_singleton,
    beq_iff_eq]
  split <;> split <;> omega

/-- The level changes at braces only. -/
theorem level_eq_of_plain {text : List Char} {i : Nat} : ∀ {j : Nat}, i ≤ j → j ≤ text.length →
    (∀ k c, i ≤ k → k < j → text[k]? = some c → c ≠ '\x7b' ∧ c ≠ '\x7d') →
      level text j = level text i
  | 0, hij, _, _ => by rw [Nat.le_zero.mp hij]
  | j + 1, hij, hj, h => by
    rcases Nat.lt_or_eq_of_le hij with hlt | rfl
    · have hget : text[j]? = some text[j] := List.getElem?_eq_getElem hj
      obtain ⟨hopen, hclose⟩ := h j _ (Nat.lt_succ_iff.mp hlt) (Nat.lt_succ_self j) hget
      rw [level_succ hget, if_neg hopen, if_neg hclose,
        level_eq_of_plain (Nat.lt_succ_iff.mp hlt) (Nat.le_of_lt hj) fun k c hi hk =>
          h k c hi (Nat.lt_succ_of_lt hk)]
      omega
    · rfl

/-! ## What the search finds -/

/-- A brace. -/
def isBrace (c : Char) : Bool := "\x7b\x7d".toList.contains c

theorem isBrace_iff {c : Char} : isBrace c ↔ c = '\x7b' ∨ c = '\x7d' := by
  rw [isBrace, show "\x7b\x7d".toList = ['\x7b', '\x7d'] from rfl]
  simp

/-- A value may start with the character. -/
def startsValue (c : Char) : Bool := !Text.isBlank c && c != ';' && c != '\x7d'

/-- The place after a `return` and the blanks that follow it. -/
def valuePlace (text : List Char) (n : Nat) : Nat :=
  n + 6 + ((text.drop (n + 6)).takeWhile Text.isBlank).length

theorem find?_blank (text : List Char) (n : Nat) :
    (text.drop (n + 6)).find? (!Text.isBlank ·) = text[valuePlace text n]? := by
  rw [valuePlace, ← List.getElem?_drop]
  induction text.drop (n + 6) with
  | nil => rfl
  | cons c rest ih =>
    cases hc : Text.isBlank c <;> simp [hc, ih]

variable {text : List Char} {i : Nat}

theorem get_of_wordAt (h : wordAt "return".toList text i) {k : Nat} (hk : k < 6) :
    text[i + k]? = "return".toList[k]? := by
  obtain ⟨rest, hrest⟩ := exists_of_wordAt h
  rw [← List.getElem?_drop, hrest, List.getElem?_append_left hk]

theorem letter_of_wordAt (h : wordAt "return".toList text i) {k : Nat} (hk : k < 6) :
    ∃ c, text[i + k]? = some c ∧ Text.isWord c ∧ ¬ isBrace c := by
  have hletters : "return".toList.all (fun c => Text.isWord c && !isBrace c) = true := by decide
  have hletter := List.all_eq_true.mp hletters _ (List.getElem_mem hk)
  rw [Bool.and_eq_true, Bool.not_eq_true', ← Bool.not_eq_true] at hletter
  exact ⟨_, (get_of_wordAt h hk).trans (List.getElem?_eq_getElem hk), hletter⟩

theorem blank_of_lt_valuePlace {k : Nat} (h : i + 6 + k < valuePlace text i) :
    ∃ c, text[i + 6 + k]? = some c ∧ Text.isBlank c := by
  have hk : k < ((text.drop (i + 6)).takeWhile Text.isBlank).length := by
    rw [valuePlace] at h
    omega
  refine ⟨_, ?_, List.all_eq_true.mp List.all_takeWhile _ (List.getElem_mem hk)⟩
  rw [← List.getElem?_drop, ← List.getElem?_eq_getElem hk]
  conv_lhs => rw [← List.takeWhile_append_dropWhile (p := Text.isBlank) (l := text.drop (i + 6))]
  exact List.getElem?_append_left hk

theorem run_value (i : Nat) : ((opt (group 1 (set startsValue))).on (.of text) .done).run i =
    if (text[i]?).any startsValue then some ⟨i + 1, [.opened 1 i, .closed 1 (i + 1)]⟩
    else some ⟨i, []⟩ := by
  simp only [opt, Pattern.on, Subject.getElem?_of, Matcher.done]
  cases text[i]? with
  | none => rfl
  | some c => cases h : startsValue c <;> simp [h, Ending.marked]

/-- A match is a brace, or a `return` with the blanks after it and the first character of its
value. -/
theorem run_braceOrReturn : (braceOrReturn.on (.of text) .done).run i =
    if (text[i]?).any isBrace then some ⟨i + 1, []⟩
    else if wordAt "return".toList text i then
      if (text[valuePlace text i]?).any startsValue then
        some ⟨valuePlace text i + 1, [.opened 1 (valuePlace text i),
          .closed 1 (valuePlace text i + 1)]⟩
      else some ⟨valuePlace text i, []⟩
    else none := by
  show ((set isBrace <|> whole "return" ++ gap ++ opt (group 1 (set startsValue))).on (.of text)
    .done).run i = _
  rw [run_orElse, run_set, on_append, on_append, run_whole (by decide) (by decide), gap, blank,
    run_many_set fun j => by rw [run_value]; split <;> rfl, run_value]
  cases (text[i]?).any isBrace <;> rfl

theorem run_eq_none_iff : (braceOrReturn.on (.of text) .done).run i = none ↔
    ¬ (text[i]?).any isBrace ∧ ¬ wordAt "return".toList text i := by
  rw [run_braceOrReturn]
  by_cases hbrace : (text[i]?).any isBrace
  · rw [if_pos hbrace]
    exact ⟨nofun, fun h => absurd hbrace h.1⟩
  · rw [if_neg hbrace]
    by_cases hword : wordAt "return".toList text i
    · rw [if_pos hword]
      refine ⟨fun h => ?_, fun h => absurd hword h.2⟩
      split at h <;> cases h
    · rw [if_neg hword]
      exact ⟨fun _ => ⟨hbrace, hword⟩, fun _ => rfl⟩

theorem le_valuePlace (text : List Char) (i : Nat) : i + 6 ≤ valuePlace text i :=
  Nat.le_add_right _ _

theorem strict_braceOrReturn : (braceOrReturn.on (.of text) .done).Strict := by
  intro i e h
  have hplace := le_valuePlace text i
  rw [run_braceOrReturn] at h
  split at h
  · cases h
    exact Nat.lt_succ_self i
  · split at h
    · split at h <;> cases h <;> simp only <;> omega
    · cases h

theorem length_of_wordAt (h : wordAt "return".toList text i) : i + 6 ≤ text.length := by
  obtain ⟨rest, hrest⟩ := exists_of_wordAt h
  have hlength := congrArg List.length hrest
  rw [List.length_drop, List.length_append, show "return".toList.length = 6 from rfl] at hlength
  omega

theorem valuePlace_le (h : wordAt "return".toList text i) : valuePlace text i ≤ text.length := by
  have hlength := length_of_wordAt h
  have hblank := (List.takeWhile_prefix Text.isBlank (l := text.drop (i + 6))).length_le
  rw [List.length_drop] at hblank
  rw [valuePlace]
  omega

/-- At a place of the text there is neither a brace nor a `return`. -/
def Quiet (text : List Char) (n : Nat) : Prop :=
  ¬ (text[n]?).any isBrace ∧ ¬ wordAt "return".toList text n

theorem quiet_of_length_lt {n : Nat} (h : text.length < n) : Quiet text n := by
  refine ⟨by simp [List.getElem?_eq_none h.le], fun hword => ?_⟩
  have hlength := length_of_wordAt hword
  omega

/-- The matches of the search from a place on: every brace, and every `return` with the blanks after
it and the first character of its value. -/
inductive Found (text : List Char) : Nat → List Match → Prop
  | nothing {i : Nat} (hquiet : ∀ n, i ≤ n → Quiet text n) : Found text i []
  | brace {i k : Nat} {c : Char} {ms : List Match} (hik : i ≤ k)
      (hquiet : ∀ n, i ≤ n → n < k → Quiet text n) (hget : text[k]? = some c) (hc : isBrace c)
      (hrest : Found text (k + 1) ms) : Found text i (Match.of (.of text) (k, ⟨k + 1, []⟩) :: ms)
  | value {i k : Nat} {g : Char} {ms : List Match} (hik : i ≤ k)
      (hquiet : ∀ n, i ≤ n → n < k → Quiet text n) (hword : wordAt "return".toList text k)
      (hg : text[valuePlace text k]? = some g) (hstarts : startsValue g)
      (hrest : Found text (valuePlace text k + 1) ms) :
      Found text i (Match.of (.of text) (k, ⟨valuePlace text k + 1,
        [.opened 1 (valuePlace text k), .closed 1 (valuePlace text k + 1)]⟩) :: ms)
  | bare {i k : Nat} {ms : List Match} (hik : i ≤ k)
      (hquiet : ∀ n, i ≤ n → n < k → Quiet text n) (hword : wordAt "return".toList text k)
      (hvalue : ¬ (text[valuePlace text k]?).any startsValue)
      (hrest : Found text (valuePlace text k) ms) :
      Found text i (Match.of (.of text) (k, ⟨valuePlace text k, []⟩) :: ms)

theorem found_all : ∀ {fuel i : Nat} {previous : Option Nat}, text.length < fuel + i →
    i ≤ text.length → Found text i
      (((braceOrReturn.on (.of text) .done).all text.length fuel previous i).map
        (Match.of (.of text)))
  | 0, i, _, hfuel, hi => by omega
  | fuel + 1, i, previous, hfuel, hi => by
    cases hleft : (braceOrReturn.on (.of text) .done).leftmost? (text.length + 1 - i) i with
    | none =>
      rw [Matcher.all, hleft]
      refine .nothing fun n hin => ?_
      rcases Nat.lt_or_ge text.length n with hlt | hle
      · exact quiet_of_length_lt hlt
      · exact run_eq_none_iff.mp (Matcher.leftmost?_eq_none hleft n hin (by omega))
    | some found =>
      obtain ⟨k, e⟩ := found
      have hik : i ≤ k := (Matcher.leftmost?_range hleft).1
      have hquiet : ∀ n, i ≤ n → n < k → Quiet text n := fun n hin hnk =>
        run_eq_none_iff.mp (Matcher.run_of_lt_leftmost? hleft n hin hnk)
      have hrun : (braceOrReturn.on (.of text) .done).run k = some e := run_of_leftmost? hleft
      rw [Matcher.all_of_leftmost? strict_braceOrReturn hleft, List.map_cons]
      rw [run_braceOrReturn] at hrun
      split at hrun
      · next hbrace =>
        cases hrun
        obtain ⟨c, hget, hc⟩ := (Option.any_eq_true _ _).mp hbrace
        exact .brace hik hquiet hget hc
          (found_all (by omega) (List.getElem?_eq_some_iff.mp hget).1)
      split at hrun
      · next hword =>
        have hle := le_valuePlace text k
        split at hrun
        · next hvalue =>
          cases hrun
          obtain ⟨g, hg, hstarts⟩ := (Option.any_eq_true _ _).mp hvalue
          exact .value hik hquiet hword hg hstarts
            (found_all (by omega) (List.getElem?_eq_some_iff.mp hg).1)
        · next hvalue =>
          cases hrun
          exact .bare hik hquiet hword hvalue (found_all (by omega) (valuePlace_le hword))
      · cases hrun

/-! ## What is counted -/

/-- A brace changes the depth as it changes the level. -/
theorem returnsAtTop_brace {c : Char} {ms : List Match} (h : text[i]? = some c) (hc : isBrace c) :
    returnsAtTop text (level text i) (Match.of (.of text) (i, ⟨i + 1, []⟩) :: ms) =
      returnsAtTop text (level text (i + 1)) ms := by
  obtain ⟨hlt, rfl⟩ := List.getElem?_eq_some_iff.mp h
  have htext : (Match.of (.of text) (i, ⟨i + 1, []⟩)).text text = [text[i]] := by
    rw [Match.text, Match.of, Subject.cut_offset (Nat.le_succ i) hlt,
      List.take_succ_eq_append_getElem hlt, List.drop_left' (List.length_take_of_le hlt.le)]
  rw [returnsAtTop, htext, level_succ h]
  rcases isBrace_iff.mp hc with hbrace | hbrace <;> simp [hbrace]

/-- A `return` counts at depth zero if it has a value, and leaves the depth as it is. -/
theorem returnsAtTop_return {stop : Nat} {marks : List Mark} {depth : Int} {ms : List Match}
    (h : wordAt "return".toList text i) (hstop : i < stop) (hle : stop ≤ text.length) :
    returnsAtTop text depth (Match.of (.of text) (i, ⟨stop, marks⟩) :: ms) =
      ((depth == 0 && ((Match.of (.of text) (i, ⟨stop, marks⟩)).group? 1).isSome) ||
        returnsAtTop text depth ms) := by
  obtain ⟨rest, hrest⟩ := exists_of_wordAt h
  obtain ⟨n, rfl⟩ := Nat.exists_eq_add_of_lt hstop
  have htext : (Match.of (.of text) (i, ⟨i + n + 1, marks⟩)).text text =
      'r' :: ("eturn".toList ++ rest).take n := by
    rw [Match.text, Match.of, Subject.cut_offset hstop.le hle, List.drop_take, hrest,
      Nat.add_assoc, Nat.add_sub_cancel_left]
    rfl
  rw [returnsAtTop, htext]
  rfl

/-- Where nothing is found, the level stays. -/
theorem level_skip {k : Nat} (hik : i ≤ k) (hk : k ≤ text.length)
    (h : ∀ j, i ≤ j → j < k → Quiet text j) : level text k = level text i := by
  refine level_eq_of_plain hik hk fun j c hij hjk hc => ?_
  have hbrace := (h j hij hjk).1
  rw [hc, Option.any_some, isBrace_iff] at hbrace
  exact not_or.mp hbrace

/-- Between the start of a `return` and the start of its value there is no brace, and no other
`return`. -/
theorem plain_of_return (h : wordAt "return".toList text i) {n : Nat} (hn : i < n)
    (hplace : n < valuePlace text i) :
    ¬ wordAt "return".toList text n ∧ ∀ c, text[n]? = some c → ¬ isBrace c := by
  rcases Nat.lt_or_ge n (i + 6) with hlt | hge
  · obtain ⟨k, rfl⟩ := Nat.exists_eq_add_of_lt hn
    refine ⟨fun hword => ?_, fun c hc => ?_⟩
    · -- what stands before the place is a letter of the word
      obtain ⟨c, hc, hletter, _⟩ := letter_of_wordAt h (show k < 6 by omega)
      have hbefore : (text.take (i + k + 1)).getLast? = some c := by
        rw [List.getLast?_take, if_neg (by omega), Nat.add_sub_cancel, hc, Option.some_or]
      simp [wordAt, hbefore, hletter] at hword
    · obtain ⟨d, hd, _, hplain⟩ := letter_of_wordAt h (show k + 1 < 6 by omega)
      obtain rfl := Option.some.inj (hc.symm.trans hd)
      exact hplain
  · obtain ⟨k, rfl⟩ := Nat.exists_eq_add_of_le hge
    obtain ⟨d, hd, hblank⟩ := blank_of_lt_valuePlace hplace
    refine ⟨fun hword => ?_, fun c hc hbrace => ?_⟩
    · obtain rfl := Option.some.inj (hd.symm.trans (get_of_wordAt hword (show 0 < 6 by decide)))
      exact absurd hblank (by decide)
    · obtain rfl := Option.some.inj (hd.symm.trans hc)
      rcases isBrace_iff.mp hbrace with rfl | rfl <;> exact absurd hblank (by decide)

theorem returnsValueAt_iff : ReturnsValueAt text i ↔ wordAt "return".toList text i ∧
    (text[valuePlace text i]?).any startsValue ∧ AtTop text i := by
  constructor
  · rintro ⟨c, ⟨hword, hfind⟩, hstop, hclose, htop⟩
    have hblank := List.find?_some hfind
    rw [find?_blank] at hfind
    refine ⟨hword, ?_, htop⟩
    rw [hfind, Option.any_some, startsValue, hblank]
    simp [hstop, hclose]
  · rintro ⟨hword, hvalue, htop⟩
    obtain ⟨c, hc, hstarts⟩ := (Option.any_eq_true _ _).mp hvalue
    simp only [startsValue, Bool.and_eq_true, bne_iff_ne] at hstarts
    exact ⟨c, ⟨hword, (find?_blank text i).trans hc⟩, hstarts.1.2, hstarts.2, htop⟩

theorem level_of_wordAt (h : wordAt "return".toList text i) {n : Nat} (hn : i ≤ n)
    (hplace : n ≤ valuePlace text i) : level text n = level text i := by
  refine level_eq_of_plain hn (Nat.le_trans hplace (valuePlace_le h)) fun k c hik hkn hc => ?_
  rw [← not_or, ← isBrace_iff]
  rcases Nat.lt_or_eq_of_le hik with hlt | rfl
  · exact (plain_of_return h hlt (by omega)).2 c hc
  · obtain ⟨d, hd, _, hplain⟩ := letter_of_wordAt h (show 0 < 6 by decide)
    obtain rfl := Option.some.inj (hc.symm.trans hd)
    exact hplain

/-- After the first character of a value the level is that of its `return`, if that character opens no
brace. -/
theorem level_of_value {g : Char} (h : wordAt "return".toList text i)
    (hg : text[valuePlace text i]? = some g) (hstarts : startsValue g)
    (hopen : g = '\x7b' → AtTop text i) (htop : ¬ AtTop text i) :
    level text (valuePlace text i + 1) = level text i := by
  have hle := le_valuePlace text i
  have hclose : g ≠ '\x7d' := by
    rintro rfl
    exact absurd hstarts (by decide)
  rw [level_succ hg, level_of_wordAt h (by omega) le_rfl, if_neg fun heq => htop (hopen heq),
    if_neg hclose]
  omega

theorem returnsAt_of_value {g : Char} (h : wordAt "return".toList text i)
    (hg : text[valuePlace text i]? = some g) : ReturnsAt text i g :=
  ⟨h, (find?_blank text i).trans hg⟩

/-- A `return` with a value counts at the top level; further down, what is counted is what is
counted after the first character of the value, if that opens no brace. -/
theorem counted_value {g : Char} {ms : List Match} (h : wordAt "return".toList text i)
    (hg : text[valuePlace text i]? = some g) (hstarts : startsValue g)
    (hopen : ReturnsAt text i '\x7b' → AtTop text i) :
    returnsAtTop text (level text i) (Match.of (.of text) (i, ⟨valuePlace text i + 1,
        [.opened 1 (valuePlace text i), .closed 1 (valuePlace text i + 1)]⟩) :: ms) ↔
      AtTop text i ∨ returnsAtTop text (level text (valuePlace text i + 1)) ms := by
  have hle := le_valuePlace text i
  rw [returnsAtTop_return h (show i < valuePlace text i + 1 by omega)
      (List.getElem?_eq_some_iff.mp hg).1,
    show (Match.group? (Match.of (.of text) (i, ⟨valuePlace text i + 1,
      [.opened 1 (valuePlace text i), .closed 1 (valuePlace text i + 1)]⟩)) 1).isSome = true from rfl,
    Bool.and_true, Bool.or_eq_true, beq_iff_eq, level_eq_zero]
  by_cases htop : AtTop text i
  · simp [htop]
  · rw [level_of_value h hg hstarts (fun heq => hopen (heq ▸ returnsAt_of_value h hg)) htop]

/-- A `return` without a value does not count. -/
theorem counted_bare {ms : List Match} (h : wordAt "return".toList text i) :
    returnsAtTop text (level text i) (Match.of (.of text) (i, ⟨valuePlace text i, []⟩) :: ms) =
      returnsAtTop text (level text (valuePlace text i)) ms := by
  have hle := le_valuePlace text i
  rw [returnsAtTop_return h (show i < valuePlace text i by omega) (valuePlace_le h),
    show ((Match.of (.of text) (i, ⟨valuePlace text i, []⟩)).group? 1).isSome = false from rfl,
    Bool.and_false, Bool.false_or, ← level_of_wordAt h (show i ≤ valuePlace text i by omega) le_rfl]

namespace Found

variable {ms : List Match}

/-- What is counted is returned at the top level, if further down no brace is opened right after a
`return`. -/
theorem returnsValue (hfound : Found text i ms)
    (h : ∀ n, ReturnsAt text n '\x7b' → AtTop text n)
    (hcounted : returnsAtTop text (level text i) ms) : ReturnsValue text := by
  induction hfound with
  | nothing => exact absurd hcounted Bool.false_ne_true
  | brace hik hquiet hget hc _ ih =>
    rw [← level_skip hik (List.getElem?_eq_some_iff.mp hget).1.le hquiet,
      returnsAtTop_brace hget hc] at hcounted
    exact ih hcounted
  | @value i k g ms hik hquiet hword hg hstarts _ ih =>
    have hlength := length_of_wordAt hword
    rw [← level_skip hik (by omega) hquiet, counted_value hword hg hstarts (h k)] at hcounted
    rcases hcounted with htop | hcounted
    · exact ⟨k, returnsValueAt_iff.mpr ⟨hword, by rwa [hg, Option.any_some], htop⟩⟩
    · exact ih hcounted
  | bare hik hquiet hword _ _ ih =>
    have hlength := length_of_wordAt hword
    rw [← level_skip hik (by omega) hquiet, counted_bare hword] at hcounted
    exact ih hcounted

/-- A value that is returned at the top level is counted, if before it no brace is opened right after
a `return` further down. -/
theorem returnsAtTop {n : Nat} (hfound : Found text i ms) (hn : ReturnsValueAt text n)
    (h : ∀ k < n, ReturnsAt text k '\x7b' → AtTop text k) (hi : i ≤ n) :
    React.returnsAtTop text (level text i) ms := by
  obtain ⟨hreturn, hvalue, htop⟩ := returnsValueAt_iff.mp hn
  have hlength := length_of_wordAt hreturn
  induction hfound with
  | nothing hquiet => exact absurd hreturn (hquiet n hi).2
  | @brace i k c ms hik hquiet hget hc _ ih =>
    have hkn : k ≤ n := Nat.le_of_not_lt fun hlt => (hquiet n hi hlt).2 hreturn
    have hne : k ≠ n := by
      rintro rfl
      obtain ⟨d, hd, -, hplain⟩ := letter_of_wordAt hreturn (show 0 < 6 by decide)
      obtain rfl := Option.some.inj (hget.symm.trans hd)
      exact hplain hc
    rw [← level_skip hik (by omega) hquiet, returnsAtTop_brace hget hc]
    exact ih (by omega)
  | @value i k g ms hik hquiet hword hg hstarts _ ih =>
    have hkn : k ≤ n := Nat.le_of_not_lt fun hlt => (hquiet n hi hlt).2 hreturn
    rw [← level_skip hik (by omega) hquiet]
    rcases Nat.lt_or_eq_of_le hkn with hlt | rfl
    · refine (counted_value hword hg hstarts (h k hlt)).mpr (or_iff_not_imp_left.mpr fun hdeep => ih ?_)
      -- The `return` is further down, so that its value does not reach to the one at the top.
      by_contra hbefore
      rw [← level_eq_zero] at htop hdeep
      exact hdeep ((level_of_wordAt hword hkn (by omega)).symm.trans htop)
    · exact (counted_value hword hg hstarts fun _ => htop).mpr (Or.inl htop)
  | @bare i k ms hik hquiet hword hnone _ ih =>
    have hkn : k ≤ n := Nat.le_of_not_lt fun hlt => (hquiet n hi hlt).2 hreturn
    have hne : k ≠ n := by
      rintro rfl
      exact hnone hvalue
    rw [← level_skip hik (by omega) hquiet, counted_bare hword]
    exact ih (Nat.le_of_not_lt fun hbefore =>
      (plain_of_return hword (by omega) hbefore).1 hreturn)

end Found

theorem found_findAll (body : List Char) : Found body 0 (braceOrReturn.findAll body) := by
  rw [findAll, Subject.size_of]
  exact found_all (by omega) (Nat.zero_le _)

/-- A cleanup that is returned at the top level of a body is seen, if before it no brace is opened
right after a `return` further down. -/
theorem hasCleanupReturn_of_returnsValueAt {body : List Char} {n : Nat}
    (hn : ReturnsValueAt body n) (h : ∀ k < n, ReturnsAt body k '\x7b' → AtTop body k) :
    hasCleanupReturn body = true :=
  (found_findAll body).returnsAtTop hn h (Nat.zero_le n)

/-- A body returns a value at its top level exactly if the search says so, if further down no brace
is opened right after a `return`. -/
theorem hasCleanupReturn_iff {body : List Char}
    (h : ∀ n, ReturnsAt body n '\x7b' → AtTop body n) :
    hasCleanupReturn body = true ↔ ReturnsValue body := by
  refine ⟨(found_findAll body).returnsValue h, ?_⟩
  rintro ⟨n, hn⟩
  exact hasCleanupReturn_of_returnsValueAt hn fun k _ => h k

theorem forall_returnsAt_iff {c : Char} {p : Nat → Prop} :
    (∀ n, ReturnsAt text n c → p n) ↔ ∀ n < text.length, ReturnsAt text n c → p n := by
  refine ⟨fun h n _ => h n, fun h n hreturn => h n ?_ hreturn⟩
  have hlength := length_of_wordAt hreturn.1
  omega

instance (text : List Char) : Decidable (ReturnsValue text) :=
  decidable_of_iff (∃ n < text.length, wordAt "return".toList text n ∧
      (text[valuePlace text n]?).any startsValue ∧ AtTop text n) <| by
    constructor
    · rintro ⟨n, _, h⟩
      exact ⟨n, returnsValueAt_iff.mpr h⟩
    · rintro ⟨n, h⟩
      have hreturn := returnsValueAt_iff.mp h
      have hlength := length_of_wordAt hreturn.1
      exact ⟨n, by omega, hreturn⟩

/-- The body of an effect with an early return and a cleanup that returns an object. -/
def cleanupBody : List Char :=
  "if (x) \x7b return; \x7d return \x7b stop: () => \x7b return off(); \x7d \x7d;".toList

theorem hasCleanupReturn_iff_object :
    (∀ n, ReturnsAt cleanupBody n '\x7b' → AtTop cleanupBody n) ∧ ReturnsValue cleanupBody ∧
      hasCleanupReturn cleanupBody = true := by
  have h : ∀ n, ReturnsAt cleanupBody n '\x7b' → AtTop cleanupBody n :=
    forall_returnsAt_iff.mpr (by decide +kernel)
  have hvalue : ReturnsValue cleanupBody := by decide +kernel
  exact ⟨h, hvalue, (hasCleanupReturn_iff h).mpr hvalue⟩

/-- An effect that returns an object early and a cleanup at its end. -/
def earlyObject : String :=
  "useEffect(() => \x7b\n  if (x) \x7b return \x7b a: 1 \x7d; \x7d\n  return off;\n\x7d);\n"

/-- An effect that returns nothing but further down. -/
def lateObject : String :=
  "useEffect(() => \x7b\n  if (x) \x7b return \x7b a: 1 \x7d; return b; \x7d\n\x7d);\n"

/-- The brace of an object that is returned further down is taken along with the `return`, but the
one that closes it is counted. So the cleanup at the end is not seen, and a `return` further down is
taken for one. -/
theorem not_hasCleanupReturn_iff :
    (∃ ctx, Context.of? ⟨"a.jsx"⟩ earlyObject .web = some ctx ∧ ∃ block ∈ effects ctx,
      ReturnsValue (ctx.bodyOf block) ∧ hasCleanupReturn (ctx.bodyOf block) = false) ∧
    ∃ ctx, Context.of? ⟨"a.jsx"⟩ lateObject .web = some ctx ∧ ∃ block ∈ effects ctx,
      ¬ ReturnsValue (ctx.bodyOf block) ∧ hasCleanupReturn (ctx.bodyOf block) = true :=
  ⟨⟨_, rfl, by decide +kernel⟩, _, rfl, by decide +kernel⟩

end Mend.React
