import Mend.Text.Offset
import Mathlib.Data.List.Infix

/-!
# What a cut text is made of

A text that is cut at good offsets falls into parts that give it back (`splitAt?_append`), so what
is cut out of a text stands in it without a gap. What stands between two others is cut out by the
widths before and with it (`cut_append`).
-/

namespace Mend.Text

theorem splitAt?_append {n : Nat} {s front back : List Char}
    (h : splitAt? n s = some (front, back)) : front ++ back = s := by
  fun_induction splitAt? n s generalizing front back with
  | case1 s =>
    cases h
    rfl
  | case2 => cases h
  | case3 n c s hle ih =>
    obtain ⟨⟨f, b⟩, hsplit, heq⟩ := Option.map_eq_some_iff.mp h
    cases heq
    rw [List.cons_append, ih hsplit]
  | case4 => cases h

theorem prefix_of_before {n : Nat} {s front : List Char} (h : before n s = .ok front) :
    front <+: s := by
  unfold before at h
  split at h
  · next hsplit =>
    cases h
    exact ⟨_, splitAt?_append hsplit⟩
  · cases h

theorem suffix_of_onward {n : Nat} {s back : List Char} (h : onward n s = .ok back) :
    back <:+ s := by
  unfold onward at h
  split at h
  · next hsplit =>
    cases h
    exact ⟨_, splitAt?_append hsplit⟩
  · cases h

theorem before_append_onward {n : Nat} {s front back : List Char} (hfront : before n s = .ok front)
    (hback : onward n s = .ok back) : front ++ back = s := by
  unfold before at hfront
  unfold onward at hback
  split at hfront
  · next hsplit =>
    rw [hsplit] at hback
    cases hfront
    cases hback
    exact splitAt?_append hsplit
  · cases hfront

theorem infix_of_between {lo hi : Nat} {s part : List Char} (h : between lo hi s = .ok part) :
    part <:+: s := by
  unfold between at h
  split at h
  · cases h
  · cases hback : onward lo s with
    | error e => simp [hback, bind, Except.bind] at h
    | ok back =>
      obtain ⟨front, rfl⟩ := suffix_of_onward hback
      simp only [hback, bind, Except.bind] at h
      split at h
      · next hsplit =>
        cases h
        rw [← splitAt?_append hsplit]
        exact ⟨front, _, by rw [List.append_assoc]⟩
      · cases h

theorem suffix_of_from? {n : Nat} {s back : List Char} (h : from? n s = some back) :
    back <:+ s := by
  rw [from?_eq] at h
  obtain ⟨⟨front, b⟩, hsplit, rfl⟩ := Option.map_eq_some_iff.mp h
  exact ⟨front, splitAt?_append hsplit⟩

theorem prefix_cutFrom (lo hi : Nat) :
    ∀ (pos : Nat) (s : List Char), lo ≤ pos → cutFrom lo hi pos s <+: s
  | pos, [], _ => List.nil_prefix
  | pos, c :: s, h => by
    rw [cutFrom, if_pos h]
    split
    · exact List.nil_prefix
    · exact (List.prefix_cons_inj c).mpr (prefix_cutFrom lo hi (pos + c.utf8Size) s (by omega))

theorem infix_cutFrom (lo hi : Nat) : ∀ (pos : Nat) (s : List Char), cutFrom lo hi pos s <:+: s
  | pos, [] => List.nil_infix
  | pos, c :: s => by
    by_cases h : lo ≤ pos
    · exact (prefix_cutFrom lo hi pos (c :: s) h).isInfix
    · rw [cutFrom, if_neg h]
      split
      · exact List.nil_infix
      · exact (infix_cutFrom lo hi (pos + c.utf8Size) s).trans (List.suffix_cons c s).isInfix

theorem infix_cut (lo hi : Nat) (s : List Char) : cut lo hi s <:+: s :=
  infix_cutFrom lo hi 0 s

theorem cut_self (offset : Nat) (s : List Char) : cut offset offset s = [] := by
  unfold cut
  generalize 0 = pos
  induction s generalizing pos with
  | nil => rfl
  | cons c s ih =>
    rw [cutFrom]
    split
    · rfl
    · exact ih _

theorem suffix_after (lo : Nat) (s : List Char) : after lo s <:+ s := by
  unfold after
  generalize 0 = pos
  induction s generalizing pos with
  | nil => exact List.suffix_refl _
  | cons c s ih =>
    rw [after.go]
    split
    · exact List.suffix_refl _
    · exact (ih _).trans (List.suffix_cons c s)

/-! ## Offsets as widths -/

theorem width_append (s t : List Char) : width (s ++ t) = width s + width t := by
  induction s with
  | nil => simp [width]
  | cons c s ih =>
    rw [List.cons_append, width, width, ih]
    omega

theorem width_of_splitAt? {n : Nat} {s front back : List Char}
    (h : splitAt? n s = some (front, back)) : width front = n := by
  fun_induction splitAt? n s generalizing front back with
  | case1 s =>
    cases h
    rfl
  | case2 => cases h
  | case3 n c s hle ih =>
    obtain ⟨⟨f, b⟩, hsplit, heq⟩ := Option.map_eq_some_iff.mp h
    cases heq
    rw [width, ih hsplit]
    omega
  | case4 => cases h

/-- A text has one part of a width at its start. -/
theorem append_inj_of_width {t u : List Char} : ∀ {s r : List Char}, s ++ t = r ++ u →
    width s = width r → s = r ∧ t = u
  | [], [], h, _ => ⟨rfl, h⟩
  | [], c :: r, _, hw => by
    have hc := c.utf8Size_pos
    rw [width, width] at hw
    omega
  | c :: s, [], _, hw => by
    have hc := c.utf8Size_pos
    rw [width, width] at hw
    omega
  | c :: s, d :: r, h, hw => by
    obtain ⟨hcd, htail⟩ := List.cons.inj h
    rw [width, width, hcd] at hw
    obtain ⟨hsr, htu⟩ := append_inj_of_width htail (Nat.add_left_cancel hw)
    exact ⟨by rw [hcd, hsr], htu⟩

/-- What follows an offset is the part up to a later one and what follows that. -/
theorem onward_of_between {lo hi : Nat} {s part back : List Char}
    (hpart : between lo hi s = .ok part) (hback : onward hi s = .ok back) :
    onward lo s = .ok (part ++ back) := by
  unfold between at hpart
  split at hpart
  · cases hpart
  · next hle =>
    cases hrest : onward lo s with
    | error e => simp [hrest, bind, Except.bind] at hpart
    | ok rest =>
      simp only [hrest, bind, Except.bind] at hpart
      split at hpart
      · next part' later hsplit =>
        cases hpart
        unfold onward at hrest hback
        split at hrest
        · next front rest' hlo =>
          cases hrest
          split at hback
          · next whole back' hhi =>
            cases hback
            have hparts := splitAt?_append hsplit
            have hwhole : whole ++ back = front ++ part ++ later := by
              rw [splitAt?_append hhi, List.append_assoc, hparts, splitAt?_append hlo]
            have hwidth : width whole = width (front ++ part) := by
              rw [width_append, width_of_splitAt? hlo, width_of_splitAt? hsplit,
                width_of_splitAt? hhi]
              omega
            rw [(append_inj_of_width hwhole hwidth).2, hparts]
          · cases hback
        · cases hrest
      · cases hpart

theorem cutFrom_append_left {lo hi : Nat} (hlo : lo ≤ hi) : ∀ {pos : Nat} (s t : List Char),
    pos + width s ≤ lo → cutFrom lo hi pos (s ++ t) = cutFrom lo hi (pos + width s) t
  | pos, [], t, _ => rfl
  | pos, c :: s, t, h => by
    have hc := c.utf8Size_pos
    rw [width] at h ⊢
    rw [List.cons_append, cutFrom, if_neg (by omega), if_neg (by omega),
      cutFrom_append_left hlo s t (by omega), Nat.add_assoc]

theorem cutFrom_append_right {lo hi : Nat} : ∀ {pos : Nat} (s t : List Char), lo ≤ pos →
    pos + width s = hi → cutFrom lo hi pos (s ++ t) = s
  | pos, [], t, _, h => by
    cases t with
    | nil => rfl
    | cons c t => rw [List.nil_append, cutFrom, if_pos (by rw [← h]; exact Nat.le_refl _)]
  | pos, c :: s, t, hlo, h => by
    have hc := c.utf8Size_pos
    rw [width] at h
    rw [List.cons_append, cutFrom, if_neg (by omega), if_pos hlo,
      cutFrom_append_right s t (by omega) (by omega)]

/-- The part of a text between two others is cut out by its offsets. -/
theorem cut_append (s t u : List Char) :
    cut (width s) (width s + width t) (s ++ t ++ u) = t := by
  rw [cut, List.append_assoc, cutFrom_append_left (by omega) s (t ++ u) (by omega),
    cutFrom_append_right t u (by omega) (by omega)]

theorem width_lt_of_cutFrom {lo hi : Nat} {c : Char} {rest : List Char} :
    ∀ {s front : List Char} {pos : Nat}, cutFrom lo hi pos s = front ++ c :: rest →
      max lo pos + width front < hi
  | [], front, pos, h => by simp [cutFrom] at h
  | d :: s, front, pos, h => by
    have hd := d.utf8Size_pos
    rw [cutFrom] at h
    split at h
    · simp at h
    · split at h
      · cases front with
        | nil =>
          rw [width]
          omega
        | cons e front =>
          rw [List.cons_append] at h
          obtain ⟨hde, htail⟩ := List.cons.inj h
          have := width_lt_of_cutFrom htail
          rw [← hde, width]
          omega
      · have := width_lt_of_cutFrom h
        omega

/-- What is cut out starts before the end of the cut. -/
theorem width_lt_of_cut {lo hi : Nat} {c : Char} {s front rest : List Char}
    (h : cut lo hi s = front ++ c :: rest) : lo + width front < hi := by
  have := width_lt_of_cutFrom h
  omega

/-! ## Cuts at the ends of parts -/

/-- What a slice cuts out stands at its offset. -/
theorem exists_from?_of_slice? {lo hi : Nat} {s u : List Char} (h : slice? lo hi s = some u) :
    ∃ rest, from? lo s = some (u ++ rest) ∧ width u = hi - lo := by
  unfold slice? at h
  split at h
  · cases h
  · obtain ⟨back, hback, h⟩ := Option.bind_eq_some_iff.mp h
    obtain ⟨⟨front, rest⟩, hsplit, rfl⟩ := Option.map_eq_some_iff.mp h
    exact ⟨rest, by rw [hback, splitAt?_append hsplit], width_of_splitAt? hsplit⟩

/-- A text is what stands before an offset and what stands from there on. -/
theorem append_of_before {n : Nat} {s front rest : List Char} (hfront : before n s = .ok front)
    (hrest : from? n s = some rest) : s = front ++ rest ∧ width front = n := by
  rw [from?_eq] at hrest
  obtain ⟨⟨front', back⟩, hsplit, rfl⟩ := Option.map_eq_some_iff.mp hrest
  rw [before, hsplit] at hfront
  obtain rfl := Except.ok.inj hfront
  exact ⟨(splitAt?_append hsplit).symm, width_of_splitAt? hsplit⟩

theorem before_eq {n : Nat} {s front rest front' : List Char} (hs : s = front ++ rest)
    (hwidth : width front = n) (h : before n s = .ok front') : front' = front := by
  unfold before at h
  split at h
  · next f b hsplit =>
    obtain rfl := Except.ok.inj h
    refine (append_inj_of_width ((splitAt?_append hsplit).trans hs) ?_).1
    rw [width_of_splitAt? hsplit, hwidth]
  · cases h

theorem onward_eq {n : Nat} {s front rest rest' : List Char} (hs : s = front ++ rest)
    (hwidth : width front = n) (h : onward n s = .ok rest') : rest' = rest := by
  unfold onward at h
  split at h
  · next f b hsplit =>
    obtain rfl := Except.ok.inj h
    refine (append_inj_of_width ((splitAt?_append hsplit).trans hs) ?_).2
    rw [width_of_splitAt? hsplit, hwidth]
  · cases h

theorem after_width (front rest : List Char) : after (width front) (front ++ rest) = rest := by
  have hgo : ∀ (front : List Char) (pos : Nat),
      after.go (pos + width front) pos (front ++ rest) = rest := by
    intro front
    induction front with
    | nil =>
      intro pos
      cases rest with
      | nil => rfl
      | cons c rest => rw [List.nil_append, after.go, if_pos (by simp [width])]
    | cons c front ih =>
      intro pos
      have hc := c.utf8Size_pos
      rw [List.cons_append, after.go, width, if_neg (by omega), ← Nat.add_assoc, ih]
  have h := hgo front 0
  rwa [Nat.zero_add] at h

end Mend.Text
