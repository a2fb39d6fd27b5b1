import Mathlib.Data.List.Induction
import Mend.Proofs.Time.Calendar

/-!
# Moments as texts

A number is written with zeros in front and read back (`number?_padded`), so that the text of every
moment of the calendar can be read (`exists_read?_text`), and as that moment where its fraction is
one that clocks show (`read?_text`). No other moment is ever read (`regular_iff_exists_read?`). The
compact form of file names says the second and the millisecond: moments that are written alike lie in
one millisecond (`stamp_inj`).
-/

namespace Mend.Time

/-! ## Padded numbers -/

theorem toList_padded (n k : Nat) : (padded n k).toList =
    List.replicate (n - (Nat.toDigits 10 k).length) '0' ++ Nat.toDigits 10 k := by
  rw [padded, String.toList_append, String.toList_ofList, Nat.toString_eq_repr, Nat.toList_repr,
    ← String.length_toList, Nat.toList_repr]

theorem isDigit_padded {n k : Nat} : ∀ c ∈ (padded n k).toList, c.isDigit = true := by
  intro c hc
  rw [toList_padded, List.mem_append, List.mem_replicate] at hc
  rcases hc with ⟨-, rfl⟩ | hc
  · rfl
  · exact Nat.isDigit_of_mem_toDigits (by decide) (by decide) hc

theorem length_padded {n k : Nat} (hn : 0 < n) (hk : k < 10 ^ n) :
    (padded n k).toList.length = n := by
  have hlen := (Nat.length_toDigits_le_iff (by decide) hn).mpr hk
  rw [toList_padded, List.length_append, List.length_replicate]
  omega

theorem padded_ne_nil (n k : Nat) : (padded n k).toList ≠ [] := by
  rw [toList_padded]
  exact List.append_ne_nil_of_right_ne_nil _ Nat.toDigits_ne_nil

/-- The number that decimal digits spell. -/
def spelt (digits : List Char) : Nat := digits.foldl (fun k c => k * 10 + (c.toNat - '0'.toNat)) 0

theorem spelt_padded (n k : Nat) : spelt (padded n k).toList = k := by
  have h : spelt (padded n k).toList = Nat.ofDigitChars 10 (padded n k).toList 0 := by
    simp only [spelt, Nat.ofDigitChars_eq_foldl, Nat.mul_comm]
  rw [h, toList_padded, Nat.ofDigitChars_append, Nat.ofDigitChars_replicate_zero, Nat.mul_zero,
    Nat.ofDigitChars_ten_toDigits]

theorem padded_inj {n a b : Nat} (h : padded n a = padded n b) : a = b := by
  rw [← spelt_padded n a, h, spelt_padded]

/-! ## Reading numbers -/

theorem isBlank_of_isDigit {c : Char} (h : c.isDigit = true) : Text.isBlank c = false := by
  simp only [Char.isDigit, Bool.and_eq_true, decide_eq_true_eq] at h
  have hlow : 48 ≤ c.toNat := h.1
  have hhigh : c.toNat ≤ 57 := h.2
  simp only [Text.isBlank, Bool.or_eq_false_iff, Bool.and_eq_false_iff, decide_eq_false_iff_not,
    beq_eq_false_iff_ne]
  omega

theorem trimStart_cons {c : Char} (h : Text.isBlank c = false) (s : List Char) :
    Text.trimStart (c :: s) = c :: s := by
  rw [Text.trimStart, List.dropWhile_cons, h]
  rfl

theorem digits?_append {ds : List Char} (h : ∀ c ∈ ds, c.isDigit = true) (s : List Char) :
    digits? ds.length (ds ++ s) = some (spelt ds, s) := by
  have hall : ds.all Char.isDigit = true := List.all_eq_true.mpr h
  simp [digits?, hall, spelt]

/-- Digits are read as far as they go, or as far as there may be any. -/
theorem number?_append {ds : List Char} (hne : ds ≠ []) (h : ∀ c ∈ ds, c.isDigit = true)
    {most : Nat} (hmost : ds.length ≤ most) {s : List Char}
    (hs : ds.length = most ∨ ∀ c ∈ s.head?, c.isDigit = false) :
    number? most (ds ++ s) = some (spelt ds, s) := by
  have htrim : Text.trimStart (ds ++ s) = ds ++ s := by
    obtain ⟨c, ds, rfl⟩ := List.exists_cons_of_ne_nil hne
    exact trimStart_cons (isBlank_of_isDigit (h c List.mem_cons_self)) _
  have hcount : (((ds ++ s).take most).takeWhile Char.isDigit).length = ds.length := by
    rw [List.take_append, List.take_of_length_le hmost, List.takeWhile_append_of_pos h]
    rcases hs with hs | hs
    · simp [hs]
    · cases s with
      | nil => simp
      | cons c s =>
        have hc := hs c rfl
        cases most - ds.length <;> simp [hc]
  have hpos : ¬ ds.length = 0 := by simpa using hne
  simp only [number?, htrim, hcount, if_neg hpos, digits?_append h]

theorem number?_padded {n k : Nat} (hn : 0 < n) (hk : k < 10 ^ n) (s : List Char) :
    number? n ((padded n k).toList ++ s) = some (k, s) := by
  have hlen := length_padded hn hk
  rw [number?_append (padded_ne_nil n k) isDigit_padded (Nat.le_of_eq hlen) (Or.inl hlen),
    spelt_padded]

/-! ## Reading moments -/

theorem head_padded (n k : Nat) :
    ∃ c s, (padded n k).toList = c :: s ∧ c.isDigit = true := by
  obtain ⟨c, s, hs⟩ := List.exists_cons_of_ne_nil (padded_ne_nil n k)
  exact ⟨c, s, hs, isDigit_padded c (hs ▸ List.mem_cons_self)⟩

/-- A year with a sign. -/
theorem unbounded_padded (k : Nat) {c : Char} (hc : c.isDigit = false) (s : List Char) :
    number? ((padded 4 k).toList ++ c :: s).length ((padded 4 k).toList ++ c :: s) =
      some (k, c :: s) := by
  rw [number?_append (padded_ne_nil 4 k) isDigit_padded (by simp) (Or.inr (by simpa using hc)),
    spelt_padded]

theorem year?_yearText (y : Int) {c : Char} (hc : c.isDigit = false) (s : List Char) :
    year? ((yearText y).toList ++ c :: s) = some (y, c :: s) := by
  unfold yearText
  split
  · next hy =>
    obtain ⟨d, ds, hds, hd⟩ := head_padded 4 y.toNat
    have hread := number?_padded (n := 4) (k := y.toNat) (by decide) (by omega) (c :: s)
    rw [hds] at hread ⊢
    rw [List.cons_append] at hread ⊢
    rw [year?, trimStart_cons (isBlank_of_isDigit hd)]
    split
    · next heq =>
      rw [(List.cons.inj heq).1] at hd
      exact absurd hd (by decide)
    · next heq =>
      rw [(List.cons.inj heq).1] at hd
      exact absurd hd (by decide)
    · simp only [hread, Option.map_some, Int.toNat_of_nonneg hy.1]
  · next hy =>
    have hread := unbounded_padded y.natAbs hc s
    obtain ⟨d, ds, hds, hd⟩ := head_padded 4 y.natAbs
    have hhead : (((padded 4 y.natAbs).toList ++ c :: s).head?.any Char.isDigit) = true := by
      rw [hds]
      simpa using hd
    split
    · next hneg =>
      have hsign : Text.trimStart ('-' :: ((padded 4 y.natAbs).toList ++ c :: s)) =
          '-' :: ((padded 4 y.natAbs).toList ++ c :: s) := trimStart_cons (by decide) _
      have htext : ("-" ++ padded 4 y.natAbs).toList = '-' :: (padded 4 y.natAbs).toList := by
        simp
      rw [htext, List.cons_append, year?, hsign]
      simp only [hhead, if_true, hread, Option.map_some]
      rw [show -(y.natAbs : Int) = y by omega]
    · next hpos =>
      have hsign : Text.trimStart ('+' :: ((padded 4 y.natAbs).toList ++ c :: s)) =
          '+' :: ((padded 4 y.natAbs).toList ++ c :: s) := trimStart_cons (by decide) _
      have htext : ("+" ++ padded 4 y.natAbs).toList = '+' :: (padded 4 y.natAbs).toList := by
        simp
      rw [htext, List.cons_append, year?, hsign]
      simp only [hhead, if_true, hread, Option.map_some]
      rw [show (y.natAbs : Int) = y by omega]

theorem fraction?_padded (n k : Nat) :
    fraction? ('.' :: ((padded n k).toList ++ ['Z'])) =
      some (spelt (((padded n k).toList ++ List.replicate 9 '0').take 9), ['Z']) := by
  have hall : ∀ c ∈ (padded n k).toList, c.isDigit = true := isDigit_padded
  have htake : ((padded n k).toList ++ ['Z']).takeWhile Char.isDigit = (padded n k).toList := by
    rw [List.takeWhile_append_of_pos hall]
    simp
  have hdrop : ((padded n k).toList ++ ['Z']).dropWhile Char.isDigit = ['Z'] := by
    rw [List.dropWhile_append_of_pos hall]
    simp
  have hne : (padded n k).toList.isEmpty = false := by simpa using padded_ne_nil n k
  simp only [fraction?, htake, hdrop, hne]
  rfl

theorem toList_dot (s : String) : ("." ++ s).toList ++ ['Z'] = '.' :: (s.toList ++ ['Z']) := by
  simp

theorem exists_fraction?_fractionText (nanos : Nat) :
    ∃ n, fraction? ((fractionText nanos).toList ++ ['Z']) = some (n, ['Z']) := by
  unfold fractionText
  split
  · exact ⟨0, rfl⟩
  · split
    · rw [toList_dot]
      exact ⟨_, fraction?_padded 3 _⟩
    · split
      · rw [toList_dot]
        exact ⟨_, fraction?_padded 6 _⟩
      · rw [toList_dot]
        exact ⟨_, fraction?_padded 9 _⟩

theorem spelt_zeros (digits : List Char) (n : Nat) :
    spelt (digits ++ List.replicate n '0') = spelt digits * 10 ^ n := by
  induction n with
  | zero => simp
  | succ n ih =>
    rw [List.replicate_succ', ← List.append_assoc, spelt, List.foldl_append, ← spelt, ih, pow_succ,
      ← mul_assoc]
    rfl

/-- The digits of a fraction say how many units it has; nine of them count nanoseconds. -/
theorem fraction?_units {n k : Nat} (hn : 0 < n) (hnine : n ≤ 9) (hk : k < 10 ^ n) :
    fraction? (("." ++ padded n k).toList ++ ['Z']) = some (k * 10 ^ (9 - n), ['Z']) := by
  have hlen := length_padded hn hk
  have hzeros : ((padded n k).toList ++ List.replicate 9 '0').take 9 =
      (padded n k).toList ++ List.replicate (9 - n) '0' := by
    rw [List.take_append, hlen, List.take_of_length_le (by omega), List.take_replicate,
      Nat.min_eq_left (by omega)]
  rw [toList_dot, fraction?_padded, hzeros, spelt_zeros, spelt_padded]

theorem fraction?_fractionText {nanos : Nat} (h : nanos < 1000000000) :
    fraction? ((fractionText nanos).toList ++ ['Z']) = some (nanos, ['Z']) := by
  unfold fractionText
  split
  · next hzero =>
    rw [beq_iff_eq.mp hzero]
    rfl
  · split
    · next hmillis =>
      have hsplit : nanos / 1000000 * 10 ^ (9 - 3) = nanos :=
        Nat.div_mul_cancel (Nat.dvd_of_mod_eq_zero (beq_iff_eq.mp hmillis))
      rw [fraction?_units (by decide) (by decide) (by omega), hsplit]
    · split
      · next hmicros =>
        have hsplit : nanos / 1000 * 10 ^ (9 - 6) = nanos :=
          Nat.div_mul_cancel (Nat.dvd_of_mod_eq_zero (beq_iff_eq.mp hmicros))
        rw [fraction?_units (by decide) (by decide) (by omega), hsplit]
      · rw [fraction?_units (by decide) (by decide) (by omega), Nat.sub_self, pow_zero, mul_one]

/-- The moment is in a year that dates can have. -/
def InCalendar (t : Time) : Prop := isYear (dateOf (t.seconds.fdiv 86400)).1 = true

/-- The second of the day. -/
def secondOfDay (t : Time) : Nat := (t.seconds.fmod 86400).toNat

theorem secondOfDay_lt (t : Time) : t.secondOfDay < 86400 := by
  unfold secondOfDay
  rw [Int.fmod_eq_emod_of_nonneg _ (by decide)]
  omega

theorem daysIn_le (year : Int) (month : Nat) : daysIn year month ≤ 31 := by
  unfold daysIn
  repeat' split
  all_goals omega

/-- A text that is read number by number. -/
theorem read?_of_numbers {s : String} {year : Int} {month day hour minute second : Nat}
    {fraction : List Char} (hs : s.toList = (yearText year).toList ++ '-' ::
      ((padded 2 month).toList ++ '-' :: ((padded 2 day).toList ++ 'T' ::
        ((padded 2 hour).toList ++ ':' :: ((padded 2 minute).toList ++ ':' ::
          ((padded 2 second).toList ++ (fraction ++ ['Z'])))))))
    {nanos : Nat} (hfraction : fraction? (fraction ++ ['Z']) = some (nanos, ['Z']))
    (hyear : isYear year = true) (hmonth : 1 ≤ month ∧ month ≤ 12)
    (hday : 1 ≤ day ∧ day ≤ daysIn year month) (hdate : dateOf (dayNumber year month day) =
      (year, month, day)) (hhour : hour < 24) (hminute : minute < 60) (hsecond : second ≤ 60) :
    read? s = some ⟨dayNumber year month day * 86400 + hour * 3600 + minute * 60 + min second 59,
      nanos + if second = 60 then 1000000000 else 0⟩ := by
  have hdays := daysIn_le year month
  have hdash : ∀ r, Text.trimStart ('-' :: r) = '-' :: r := trimStart_cons (by decide)
  have hcolon : ∀ r, Text.trimStart (':' :: r) = ':' :: r := trimStart_cons (by decide)
  have hzulu : Text.trimStart ['Z'] = ['Z'] := trimStart_cons (by decide) []
  have hzone : zone? ['Z'] = some (0, []) := by decide
  have hmark : ∀ (c : Char) (r : List Char), mark? [c] (c :: r) = some r := by simp [mark?]
  have hmarkT : ∀ r, mark? ['T', 't', ' '] ('T' :: r) = some r := by simp [mark?]
  have hvalid : (([] : List Char).all Text.isBlank && isYear year && decide (1 ≤ month) &&
      decide (month ≤ 12) && decide (1 ≤ day) && decide (day ≤ daysIn year month) &&
      decide (hour < 24) && decide (minute < 60) && decide (second ≤ 60)) = true := by
    simp [hyear, hmonth, hday, hhour, hminute, hsecond]
  have hdayOf : (dayNumber year month day * 86400 + hour * 3600 + minute * 60 +
      min second 59 - 0 : Int).fdiv 86400 = dayNumber year month day := by
    rw [Int.fdiv_eq_ediv_of_nonneg _ (by decide)]
    omega
  have h6 := number?_padded (n := 2) (k := second) (by decide) (by omega) (fraction ++ ['Z'])
  generalize (padded 2 second).toList ++ (fraction ++ ['Z']) = r6 at hs h6
  have h5 := number?_padded (n := 2) (k := minute) (by decide) (by omega) (':' :: r6)
  generalize (padded 2 minute).toList ++ ':' :: r6 = r5 at hs h5
  have h4 := number?_padded (n := 2) (k := hour) (by decide) (by omega) (':' :: r5)
  generalize (padded 2 hour).toList ++ ':' :: r5 = r4 at hs h4
  have h3 := number?_padded (n := 2) (k := day) (by decide) (by omega) ('T' :: r4)
  generalize (padded 2 day).toList ++ 'T' :: r4 = r3 at hs h3
  have h2 := number?_padded (n := 2) (k := month) (by decide) (by omega) ('-' :: r3)
  generalize (padded 2 month).toList ++ '-' :: r3 = r2 at hs h2
  have h1 := year?_yearText year (c := '-') (by decide) r2
  unfold read?
  rw [hs, h1]
  dsimp only [bind, Option.bind]
  simp only [hdash, hmark, h2, h3, hmarkT, h4, hcolon, h5, h6, hfraction, hzulu, hzone]
  rw [if_pos hvalid]
  rw [hdayOf, hdate, if_pos hyear]
  simp

theorem toList_text (t : Time) : t.text.toList =
    (yearText (dateOf (t.seconds.fdiv 86400)).1).toList ++ '-' ::
      ((padded 2 (dateOf (t.seconds.fdiv 86400)).2.1).toList ++ '-' ::
        ((padded 2 (dateOf (t.seconds.fdiv 86400)).2.2).toList ++ 'T' ::
          ((padded 2 (t.secondOfDay / 3600)).toList ++ ':' ::
            ((padded 2 (t.secondOfDay / 60 % 60)).toList ++ ':' ::
              ((padded 2 (if t.nanos < 1000000000 then t.secondOfDay % 60
                else t.secondOfDay % 60 + 1)).toList ++
              ((fractionText (if t.nanos < 1000000000 then t.nanos
                else t.nanos - 1000000000)).toList ++ ['Z'])))))) := by
  by_cases h : t.nanos < 1000000000 <;> simp [text, secondOfDay, h]

/-- The text of a moment of the calendar is read as that moment, to the second. -/
theorem read?_text_of_fraction {t : Time} (h : t.InCalendar) {nanos : Nat}
    (hnanos : fraction? ((fractionText (if t.nanos < 1000000000 then t.nanos
      else t.nanos - 1000000000)).toList ++ ['Z']) = some (nanos, ['Z'])) :
    ∃ second, (second = if t.nanos < 1000000000 then t.secondOfDay % 60
        else t.secondOfDay % 60 + 1) ∧
      read? t.text = some ⟨t.seconds - t.secondOfDay % 60 + (min second 59 : Nat),
        nanos + if second = 60 then 1000000000 else 0⟩ := by
  obtain ⟨hmonth, hmonth', hday, hday'⟩ := dateOf_exists (t.seconds.fdiv 86400)
  have hsecond := t.secondOfDay_lt
  refine ⟨_, rfl, ?_⟩
  rw [read?_of_numbers t.toList_text hnanos h ⟨hmonth, hmonth'⟩ ⟨hday, hday'⟩
    (by rw [dayNumber_dateOf]) (by omega) (by omega) (by split <;> omega), dayNumber_dateOf]
  have hday : t.seconds = t.seconds.fdiv 86400 * 86400 + t.secondOfDay := by
    unfold secondOfDay
    rw [Int.fdiv_eq_ediv_of_nonneg _ (by decide), Int.fmod_eq_emod_of_nonneg _ (by decide)]
    omega
  congr 2
  omega

/-- The text of a moment of the calendar can be read. -/
theorem exists_read?_text {t : Time} (h : t.InCalendar) : ∃ t', read? t.text = some t' := by
  obtain ⟨nanos, hfraction⟩ := exists_fraction?_fractionText
    (if t.nanos < 1000000000 then t.nanos else t.nanos - 1000000000)
  obtain ⟨second, -, hread⟩ := read?_text_of_fraction h hfraction
  exact ⟨_, hread⟩

/-- The moment is one that a clock of the calendar can show: its fraction is less than a second, or
less than two seconds in the last second of a minute, which a second numbered sixty may follow. -/
def Regular (t : Time) : Prop :=
  t.InCalendar ∧ (t.nanos < 1000000000 ∨ (t.nanos < 2000000000 ∧ t.seconds % 60 = 59))

theorem secondOfDay_emod (t : Time) : (t.secondOfDay : Int) % 60 = t.seconds % 60 := by
  unfold secondOfDay
  rw [Int.fmod_eq_emod_of_nonneg _ (by decide)]
  omega

/-- A moment is read as it was written. -/
theorem read?_text {t : Time} (h : t.Regular) : read? t.text = some t := by
  obtain ⟨hyear, hnanos⟩ := h
  have hminute := t.secondOfDay_emod
  by_cases hwhole : t.nanos < 1000000000
  · obtain ⟨second, hsecond, hread⟩ := read?_text_of_fraction hyear
      (fraction?_fractionText (by rw [if_pos hwhole]; exact hwhole))
    rw [if_pos hwhole] at hsecond hread
    have hne : second ≠ 60 := by omega
    have hmin : min second 59 = t.secondOfDay % 60 := by omega
    rw [hread, if_neg hne, hmin]
    simp
  · obtain ⟨second, hsecond, hread⟩ := read?_text_of_fraction hyear
      (fraction?_fractionText (by rw [if_neg hwhole]; omega))
    rw [if_neg hwhole] at hsecond hread
    have hsixty : second = 60 := by omega
    have hmin : min second 59 = t.secondOfDay % 60 := by omega
    have hfull : t.nanos - 1000000000 + 1000000000 = t.nanos := by omega
    rw [hread, if_pos hsixty, hmin, hfull]
    simp

/-- A fraction of a second or more, within another second than the last one of a minute, is written
as one of the next second. -/
theorem read?_text_carry {t : Time} (h : t.InCalendar) (hsecond : t.seconds % 60 ≠ 59)
    (hnanos : 1000000000 ≤ t.nanos) (hless : t.nanos < 2000000000) :
    read? t.text = some ⟨t.seconds + 1, t.nanos - 1000000000⟩ := by
  have hminute := t.secondOfDay_emod
  have hwhole : ¬ t.nanos < 1000000000 := Nat.not_lt.mpr hnanos
  obtain ⟨second, hnext, hread⟩ := read?_text_of_fraction h
    (fraction?_fractionText (by rw [if_neg hwhole]; omega))
  rw [if_neg hwhole] at hnext hread
  have hne : second ≠ 60 := by omega
  have hmin : min second 59 = t.secondOfDay % 60 + 1 := by omega
  have hseconds : t.seconds - t.secondOfDay % 60 + (min second 59 : Nat) = t.seconds + 1 := by omega
  rw [hread, if_neg hne, hseconds, Nat.add_zero]

/-! ## Moments that texts can say -/

theorem spelt_lt {digits : List Char} (h : ∀ c ∈ digits, c.isDigit = true) :
    spelt digits < 10 ^ digits.length := by
  induction digits using List.reverseRecOn with
  | nil => decide
  | append_singleton digits c ih =>
    have hrest := ih fun d hd => h d (List.mem_append_left _ hd)
    have hc : c.toNat - '0'.toNat ≤ 9 := by
      have hdigit := h c (by simp)
      simp only [Char.isDigit, Bool.and_eq_true, decide_eq_true_eq] at hdigit
      have hhigh : c.toNat ≤ 57 := hdigit.2
      exact Nat.sub_le_sub_right hhigh 48
    rw [spelt, List.foldl_append, ← spelt, List.length_append, List.length_singleton, pow_succ]
    simp only [List.foldl_cons, List.foldl_nil]
    omega

/-- A fraction is less than a second. -/
theorem lt_of_fraction? {s rest : List Char} {nanos : Nat} (h : fraction? s = some (nanos, rest)) :
    nanos < 1000000000 := by
  unfold fraction? at h
  split at h
  · next s =>
    simp only [Option.ite_none_left_eq_some, Option.some.injEq, Prod.mk.injEq] at h
    obtain ⟨-, rfl, -⟩ := h
    have hdigits : ∀ c ∈ (s.takeWhile Char.isDigit ++ List.replicate 9 '0').take 9,
        c.isDigit = true := by
      intro c hc
      rcases List.mem_append.mp (List.mem_of_mem_take hc) with hc | hc
      · exact List.all_eq_true.mp List.all_takeWhile c hc
      · rw [(List.mem_replicate.mp hc).2]
        decide
    have hlt := spelt_lt hdigits
    rwa [List.length_take_of_le (by simp)] at hlt
  · obtain ⟨rfl, -⟩ := Prod.mk.inj (Option.some.inj h)
    decide

/-- Offsets are whole minutes. -/
theorem emod_of_zone? {s rest : List Char} {offset : Int} (h : zone? s = some (offset, rest)) :
    offset % 60 = 0 := by
  unfold zone? at h
  split at h
  · obtain ⟨rfl, -⟩ := Prod.mk.inj (Option.some.inj h)
    rfl
  · unfold offset? at h
    split at h
    · obtain ⟨rfl, -⟩ := Prod.mk.inj (Option.some.inj h)
      rfl
    · obtain ⟨rfl, -⟩ := Prod.mk.inj (Option.some.inj h)
      rfl
    · rw [Option.ite_none_right_eq_some] at h
      obtain ⟨⟨hours, s⟩, -, h⟩ := Option.bind_eq_some_iff.mp h.2
      obtain ⟨⟨minutes, s⟩, -, h⟩ := Option.bind_eq_some_iff.mp h
      rw [Option.ite_none_right_eq_some] at h
      obtain ⟨rfl, -⟩ := Prod.mk.inj (Option.some.inj h.2)
      split <;> omega
    · cases h

/-- What is read is a regular moment. -/
theorem regular_of_read? {s : String} {t : Time} (h : read? s = some t) : t.Regular := by
  unfold read? at h
  obtain ⟨⟨year, s⟩, -, h⟩ := Option.bind_eq_some_iff.mp h
  obtain ⟨s, -, h⟩ := Option.bind_eq_some_iff.mp h
  obtain ⟨⟨month, s⟩, -, h⟩ := Option.bind_eq_some_iff.mp h
  obtain ⟨s, -, h⟩ := Option.bind_eq_some_iff.mp h
  obtain ⟨⟨day, s⟩, -, h⟩ := Option.bind_eq_some_iff.mp h
  obtain ⟨s, -, h⟩ := Option.bind_eq_some_iff.mp h
  obtain ⟨⟨hour, s⟩, -, h⟩ := Option.bind_eq_some_iff.mp h
  obtain ⟨s, -, h⟩ := Option.bind_eq_some_iff.mp h
  obtain ⟨⟨minute, s⟩, -, h⟩ := Option.bind_eq_some_iff.mp h
  obtain ⟨s, -, h⟩ := Option.bind_eq_some_iff.mp h
  obtain ⟨⟨second, s⟩, -, h⟩ := Option.bind_eq_some_iff.mp h
  obtain ⟨⟨nanos, s⟩, hfraction, h⟩ := Option.bind_eq_some_iff.mp h
  obtain ⟨⟨offset, s⟩, hzone, h⟩ := Option.bind_eq_some_iff.mp h
  have hnanos := lt_of_fraction? hfraction
  have hoffset := emod_of_zone? hzone
  simp only [Option.ite_none_right_eq_some, Option.pure_def, Option.some.injEq] at h
  obtain ⟨-, hyear, rfl⟩ := h
  refine ⟨hyear, ?_⟩
  by_cases hsixty : second = 60
  · refine Or.inr ⟨by simp [hsixty]; omega, ?_⟩
    simp only [hsixty]
    omega
  · exact Or.inl (by simpa [hsixty] using hnanos)

/-- The regular moments are those that texts can say. -/
theorem regular_iff_exists_read? {t : Time} : t.Regular ↔ ∃ s, read? s = some t :=
  ⟨fun h => ⟨_, read?_text h⟩, fun ⟨_, h⟩ => regular_of_read? h⟩
/-! ## Stamps -/

/-- Where a mark stands last, the two sides of it are known. -/
theorem append_cons_inj {c : Char} {a b u v : List Char} (hu : c ∉ u) (hv : c ∉ v)
    (h : a ++ c :: u = b ++ c :: v) : a = b ∧ u = v := by
  rcases List.append_eq_append_iff.mp h with ⟨w, rfl, hw⟩ | ⟨w, rfl, hw⟩
  · cases w with
    | nil => exact ⟨by simp, by simpa using hw⟩
    | cons d w =>
      obtain ⟨rfl, rfl⟩ := List.cons.inj hw
      simp at hu
  · cases w with
    | nil => exact ⟨by simp, by simpa using hw.symm⟩
    | cons d w =>
      obtain ⟨rfl, rfl⟩ := List.cons.inj hw
      simp at hv

theorem yearText_inj {a b : Int} (h : (yearText a).toList = (yearText b).toList) : a = b := by
  have ha := year?_yearText a (c := '-') (by decide) []
  rw [h, year?_yearText b (by decide)] at ha
  exact (Prod.mk.inj (Option.some.inj ha)).1.symm

/-- The date and the second of a stamp. -/
def stampFront (t : Time) : List Char :=
  (yearText (dateOf (t.seconds.fdiv 86400)).1).toList ++
    (padded 2 (dateOf (t.seconds.fdiv 86400)).2.1).toList ++
    (padded 2 (dateOf (t.seconds.fdiv 86400)).2.2).toList ++ 'T' ::
      ((padded 2 (t.secondOfDay / 3600)).toList ++ (padded 2 (t.secondOfDay / 60 % 60)).toList ++
        (padded 2 (t.secondOfDay % 60)).toList)

theorem toList_stamp (t : Time) :
    t.stamp.toList = t.stampFront ++ '.' :: (padded 3 (t.nanos / 1000000)).toList := by
  simp [stamp, stampFront, secondOfDay]

theorem not_mem_padded {c : Char} (hc : c.isDigit = false) (n k : Nat) :
    c ∉ (padded n k).toList := by
  intro h
  rw [isDigit_padded c h] at hc
  cases hc

theorem not_mem_yearText {c : Char} (hc : c.isDigit = false) (hminus : c ≠ '-') (hplus : c ≠ '+')
    (y : Int) : c ∉ (yearText y).toList := by
  have hpadded := not_mem_padded hc 4
  unfold yearText
  split
  · exact hpadded _
  · split <;> simp [hpadded, hminus, hplus]

theorem dot_not_mem_stampFront (t : Time) : '.' ∉ t.stampFront := by
  have hyear := not_mem_yearText (c := '.') (by decide) (by decide) (by decide)
  have hpadded := not_mem_padded (c := '.') (by decide) 2
  simp [stampFront, hyear, hpadded]

theorem dateOf_lt (day : Int) : (dateOf day).2.1 < 10 ^ 2 ∧ (dateOf day).2.2 < 10 ^ 2 := by
  obtain ⟨-, hmonth, -, hday⟩ := dateOf_exists day
  have hdays : daysIn (dateOf day).1 (dateOf day).2.1 ≤ 31 := daysIn_le _ _
  omega

theorem stampFront_inj {t u : Time} (h : t.stampFront = u.stampFront) : t.seconds = u.seconds := by
  have hT := not_mem_padded (c := 'T') (by decide) 2
  obtain ⟨hdate, hclock⟩ := append_cons_inj (by simp [hT]) (by simp [hT]) h
  have htwo : ∀ {a b : Nat}, a < 10 ^ 2 → b < 10 ^ 2 →
      (padded 2 a).toList.length = (padded 2 b).toList.length := by
    intro a b ha hb
    rw [length_padded (by decide) ha, length_padded (by decide) hb]
  have hinj : ∀ {a b : Nat}, (padded 2 a).toList = (padded 2 b).toList → a = b :=
    fun hab => padded_inj (String.toList_inj.mp hab)
  have ht := dateOf_lt (t.seconds.fdiv 86400)
  have hu := dateOf_lt (u.seconds.fdiv 86400)
  have htday := t.secondOfDay_lt
  have huday := u.secondOfDay_lt
  obtain ⟨hdate, hday⟩ := List.append_inj' hdate (htwo ht.2 hu.2)
  obtain ⟨hyear, hmonth⟩ := List.append_inj' hdate (htwo ht.1 hu.1)
  obtain ⟨hclock, hsecond⟩ := List.append_inj' hclock (htwo (by omega) (by omega))
  obtain ⟨hhour, hminute⟩ := List.append_inj' hclock (htwo (by omega) (by omega))
  have hsame : t.seconds.fdiv 86400 = u.seconds.fdiv 86400 :=
    dateOf_inj (Prod.ext (yearText_inj hyear) (Prod.ext (hinj hmonth) (hinj hday)))
  have hinDay : t.secondOfDay = u.secondOfDay := by
    have := hinj hhour
    have := hinj hminute
    have := hinj hsecond
    omega
  unfold secondOfDay at hinDay
  rw [Int.fdiv_eq_ediv_of_nonneg _ (by decide), Int.fdiv_eq_ediv_of_nonneg _ (by decide)] at hsame
  rw [Int.fmod_eq_emod_of_nonneg _ (by decide), Int.fmod_eq_emod_of_nonneg _ (by decide)] at hinDay
  omega

/-- Moments with one stamp lie in one millisecond. -/
theorem stamp_inj {t u : Time} (hfront : t.stampFront = u.stampFront)
    (hmillis : (padded 3 (t.nanos / 1000000)).toList = (padded 3 (u.nanos / 1000000)).toList) :
    t.seconds = u.seconds ∧ t.nanos / 1000000 = u.nanos / 1000000 :=
  ⟨stampFront_inj hfront, padded_inj (String.toList_inj.mp hmillis)⟩

end Mend.Time
