import Mend.Proofs.Pattern.Matches
import Mend.Proofs.Text.LineIndex
import Mend.Text.Balance
import Mend.Text.Search

/-!
# Good offsets

An offset is good (`Text.Good`) when a character starts there or the text ends there. At good
offsets the total `cut` and `after` are what the slices that may be refused give (`Good.before_eq`,
`Good.onward_eq`, `between_eq_cut`). The offsets that are handed about are good: those at which
characters stand, the ends of lines, of matches and their groups, and the closers of brackets.
-/

namespace Mend

namespace Text

variable {s : List Char} {lo hi n : Nat}

/-- A character starts at the offset, or the text ends there. -/
def Good (s : List Char) (offset : Nat) : Prop :=
  ∃ front back, s = front ++ back ∧ width front = offset

/-! ## Slices at good offsets -/

theorem splitAt?_width (back : List Char) : ∀ front : List Char,
    splitAt? (width front) (front ++ back) = some (front, back)
  | [] => by simp [width, splitAt?]
  | c :: front => by
    have hpos := c.utf8Size_pos
    obtain ⟨n, hn⟩ := Nat.exists_eq_add_one.mpr (show 0 < width (c :: front) by rw [width]; omega)
    have hrest : n + 1 - c.utf8Size = width front := by
      rw [width] at hn
      omega
    rw [hn, List.cons_append, splitAt?, if_pos (by rw [← hn, width]; omega), hrest,
      splitAt?_width back front]
    rfl

theorem cut_width (front back : List Char) : cut 0 (width front) (front ++ back) = front := by
  simpa [width] using cut_append [] front back

theorem eq_nil_of_width {s : List Char} (h : width s = 0) : s = [] := by
  cases s with
  | nil => rfl
  | cons c s =>
    have := c.utf8Size_pos
    rw [width] at h
    omega

/-- Of two divisions of a text, the second one goes on where the first one ends. -/
theorem exists_append_of_width {s t u v : List Char} (h : s ++ t = u ++ v)
    (hwidth : width s ≤ width u) : ∃ w, u = s ++ w ∧ t = w ++ v := by
  rcases List.append_eq_append_iff.mp h with h | ⟨w, rfl, rfl⟩
  · exact h
  · rw [width_append] at hwidth
    obtain rfl := eq_nil_of_width (show width w = 0 by omega)
    exact ⟨[], by simp, by simp⟩

/-- The part between two good offsets, and what stands around it. -/
theorem exists_part (hlo : Good s lo) (hhi : Good s hi) (h : lo ≤ hi) :
    ∃ front mid back, s = front ++ mid ++ back ∧ width front = lo ∧
      width front + width mid = hi := by
  obtain ⟨front, rest, rfl, rfl⟩ := hlo
  obtain ⟨front', back, hs, rfl⟩ := hhi
  rcases List.append_eq_append_iff.mp hs with ⟨mid, rfl, rfl⟩ | ⟨mid, rfl, rfl⟩
  · exact ⟨front, mid, back, by simp, rfl, (width_append _ _).symm⟩
  · rw [width_append] at h ⊢
    obtain rfl := eq_nil_of_width (show width mid = 0 by omega)
    exact ⟨front', [], rest, by simp, by simp [width], by simp [width]⟩

theorem Good.before_eq (h : Good s n) : before n s = .ok (cut 0 n s) := by
  obtain ⟨front, back, rfl, rfl⟩ := h
  rw [before, splitAt?_width, cut_width]

theorem Good.onward_eq (h : Good s n) : onward n s = .ok (after n s) := by
  obtain ⟨front, back, rfl, rfl⟩ := h
  rw [onward, splitAt?_width, after_width]

theorem between_eq_cut (hlo : Good s lo) (hhi : Good s hi) (h : lo ≤ hi) :
    between lo hi s = .ok (cut lo hi s) := by
  obtain ⟨front, mid, back, rfl, rfl, rfl⟩ := exists_part hlo hhi h
  rw [between, if_neg (by omega), cut_append, Nat.add_sub_cancel_left, onward, List.append_assoc,
    splitAt?_width]
  simp only [bind, Except.bind, splitAt?_width]

theorem exists_of_from? {rest : List Char} (h : from? n s = some rest) :
    ∃ front, s = front ++ rest ∧ width front = n := by
  rw [from?_eq] at h
  obtain ⟨⟨front, back⟩, hsplit, rfl⟩ := Option.map_eq_some_iff.mp h
  exact ⟨front, (splitAt?_append hsplit).symm, width_of_splitAt? hsplit⟩

/-- No other offsets are accepted. -/
theorem exists_of_before {front : List Char} (h : before n s = .ok front) :
    ∃ back, s = front ++ back ∧ width front = n := by
  unfold before at h
  split at h
  · next front' back hsplit =>
    obtain rfl := Except.ok.inj h
    exact ⟨back, (splitAt?_append hsplit).symm, width_of_splitAt? hsplit⟩
  · cases h

/-! ## Which offsets are good -/

theorem good_zero (s : List Char) : Good s 0 := ⟨[], s, rfl, rfl⟩

theorem good_width (s : List Char) : Good s (width s) := ⟨s, [], (List.append_nil s).symm, rfl⟩

theorem Good.le_width (h : Good s n) : n ≤ width s := by
  obtain ⟨front, back, rfl, rfl⟩ := h
  rw [width_append]
  exact Nat.le_add_right _ _

theorem Good.max (h : Good s lo) (h' : Good s hi) : Good s (max lo hi) := by
  rcases Nat.le_total lo hi with hle | hle
  · rwa [Nat.max_eq_right hle]
  · rwa [Nat.max_eq_left hle]

/-- After a character that starts there comes a good offset again. -/
theorem good_succ {front back : List Char} {c : Char} (hc : c.utf8Size = 1) :
    Good (front ++ c :: back) (width front + 1) :=
  ⟨front ++ [c], back, by simp, by rw [width_append, width, width, hc]⟩

theorem exists_of_mem_offsetsOf_go {p : Char → Bool} : ∀ {s : List Char} {pos : Nat},
    n ∈ offsetsOf.go p pos s →
      ∃ front c back, s = front ++ c :: back ∧ pos + width front = n ∧ p c = true
  | [], _, h => by simp [offsetsOf.go] at h
  | c :: s, pos, h => by
    have hrest : n ∈ offsetsOf.go p (pos + c.utf8Size) s →
        ∃ front d back, c :: s = front ++ d :: back ∧ pos + width front = n ∧ p d = true := by
      intro h
      obtain ⟨front, d, back, rfl, rfl, hd⟩ := exists_of_mem_offsetsOf_go h
      exact ⟨c :: front, d, back, rfl, by rw [width, Nat.add_assoc], hd⟩
    rw [offsetsOf.go] at h
    split at h
    · next hc =>
      rcases List.mem_cons.mp h with rfl | h
      · exact ⟨[], c, s, rfl, rfl, hc⟩
      · exact hrest h
    · exact hrest h

theorem exists_of_mem_offsetsOf {p : Char → Bool} (h : n ∈ offsetsOf p s) :
    ∃ front c back, s = front ++ c :: back ∧ width front = n ∧ p c = true := by
  obtain ⟨front, c, back, hs, hn, hc⟩ := exists_of_mem_offsetsOf_go h
  exact ⟨front, c, back, hs, by omega, hc⟩

theorem good_of_mem_offsetsOf {p : Char → Bool} (h : n ∈ offsetsOf p s) : Good s n := by
  obtain ⟨front, c, back, rfl, rfl, -⟩ := exists_of_mem_offsetsOf h
  exact ⟨front, c :: back, rfl, rfl⟩

theorem good_succ_of_mem_offsetsOf {p : Char → Bool} (hp : ∀ c, p c = true → c.utf8Size = 1)
    (h : n ∈ offsetsOf p s) : Good s (n + 1) := by
  obtain ⟨front, c, back, rfl, rfl, hc⟩ := exists_of_mem_offsetsOf h
  exact good_succ (hp c hc)

/-! ## Lines -/

theorem good_newline {k nl : Nat} (h : (LineIndex.of s).newlines[k]? = some nl) :
    Good s nl ∧ Good s (nl + 1) := by
  have hmem : nl ∈ offsetsOf (· == '\n') s := List.mem_of_getElem? h
  refine ⟨good_of_mem_offsetsOf hmem, good_succ_of_mem_offsetsOf (fun c hc => ?_) hmem⟩
  rw [beq_iff_eq.mp hc]
  rfl

theorem good_lineStart (s : List Char) (line : Nat) : Good s ((LineIndex.of s).lineStart line) := by
  rw [LineIndex.lineStart]
  split
  · exact good_zero s
  · split
    · next nl hnl => exact (good_newline hnl).2
    · exact good_width s

/-- The offsets of any line may be cut at. -/
theorem good_lineRange (s : List Char) (line : Nat) :
    Good s ((LineIndex.of s).lineRange line).1 ∧ Good s ((LineIndex.of s).lineRange line).2 ∧
      ((LineIndex.of s).lineRange line).1 ≤ ((LineIndex.of s).lineRange line).2 := by
  have hstart := good_lineStart s line
  refine ⟨hstart, Good.max ?_ hstart, Nat.le_max_right _ _⟩
  cases hnl : (LineIndex.of s).newlines[line - 1]? with
  | none => exact good_width s
  | some nl => exact (good_newline hnl).1

/-! ## Brackets -/

theorem size_of_ofOpener? {c : Char} {kind : Delimiter} (h : Delimiter.ofOpener? c = some kind) :
    c = kind.opener ∧ c.utf8Size = 1 := by
  obtain rfl : kind.opener = c := by
    simpa using List.find?_some (p := fun d : Delimiter => d.opener == c) h
  exact ⟨rfl, by cases kind <;> rfl⟩

theorem exists_of_closeFrom {kind : Delimiter} {close : Nat} : ∀ {s : List Char} {depth pos : Nat},
    closeFrom kind depth pos s = some close →
      ∃ front back, s = front ++ kind.closer :: back ∧ pos + width front = close
  | [], _, _, h => by simp [closeFrom] at h
  | c :: s, depth, pos, h => by
    have hrest : ∀ {depth}, closeFrom kind depth (pos + c.utf8Size) s = some close →
        ∃ front back, c :: s = front ++ kind.closer :: back ∧ pos + width front = close := by
      intro depth h
      obtain ⟨front, back, rfl, rfl⟩ := exists_of_closeFrom h
      exact ⟨c :: front, back, rfl, by rw [width, Nat.add_assoc]⟩
    rw [closeFrom] at h
    split at h
    · exact hrest h
    split at h
    · next hc =>
      split at h
      · exact ⟨[], s, by rw [hc]; rfl, by simpa [width] using h⟩
      · exact hrest h
    · exact hrest h

/-- An opener and its closer stand in the text one after the other, and each takes one byte. -/
theorem good_of_matchingClose {opening close : Nat} (h : matchingClose s opening = some close) :
    Good s opening ∧ Good s (opening + 1) ∧ Good s close ∧ opening + 1 ≤ close := by
  unfold matchingClose at h
  split at h
  · next c rest hfrom =>
    obtain ⟨kind, hkind, hclose⟩ := Option.bind_eq_some_iff.mp h
    obtain ⟨hc, hsize⟩ := size_of_ofOpener? hkind
    obtain ⟨front, rfl, rfl⟩ := exists_of_from? hfrom
    have hne : kind.opener ≠ kind.closer := by cases kind <;> decide
    obtain ⟨mid, tail, hmid, rfl⟩ := exists_of_closeFrom hclose
    cases mid with
    | nil =>
      obtain ⟨rfl, -⟩ := List.cons.inj hmid
      exact absurd hc.symm hne
    | cons d mid =>
      obtain ⟨rfl, rfl⟩ := List.cons.inj hmid
      refine ⟨⟨front, _, rfl, rfl⟩, good_succ hsize, ⟨front ++ c :: mid, kind.closer :: tail,
        by simp, width_append _ _⟩, ?_⟩
      rw [width, hsize]
      omega
  · cases h

end Text

/-! ## Matches -/

namespace Pattern

variable {p : Pattern} {text : List Char}

theorem good_offset {i : Nat} (h : i ≤ text.length) : Text.Good text ((Subject.of text).offset i) :=
  ⟨text.take i, text.drop i, (List.take_append_drop i text).symm, (Subject.offset_of h).symm⟩

theorem good_of_reads {i j : Nat} {ms : List Mark} (h : Reads (.of text) p i j ms)
    (hj : j ≤ text.length) : Text.Good text ((Subject.of text).offset i) ∧
      Text.Good text ((Subject.of text).offset j) ∧
      (Subject.of text).offset i ≤ (Subject.of text).offset j :=
  ⟨good_offset (h.le.trans hj), good_offset hj, Subject.offset_le h.le hj⟩

theorem good_of_mem_findAll {m : Match} (h : m ∈ p.findAll text) :
    Text.Good text m.start ∧ Text.Good text m.stop ∧ m.start ≤ m.stop := by
  obtain ⟨i, j, ms, hreads, hj, rfl⟩ := reads_of_mem_findAll h
  exact good_of_reads hreads hj

theorem start_lt_stop (hp : p.solid = true) {m : Match} (hm : m ∈ p.findAll text) :
    m.start < m.stop := by
  obtain ⟨i, j, ms, hreads, hj, rfl⟩ := reads_of_mem_findAll hm
  exact Subject.offset_lt (hreads.lt hp) hj

theorem good_of_find? {m : Match} (h : p.find? text = some m) :
    Text.Good text m.start ∧ Text.Good text m.stop ∧ m.start ≤ m.stop := by
  obtain ⟨i, j, ms, hreads, hj, rfl⟩ := reads_inside_of_find? h
  exact good_of_reads hreads hj

/-- A group that stands once in a pattern matches a part of the text. -/
theorem good_of_group? {q r : Pattern} {g : Nat} (hp : p.groupless = true)
    (hq : q.groupless = true) (hr : r.groupless = true) {m : Match}
    (hm : m ∈ (p ++ group g q ++ r).findAll text) {span : Span} (h : m.group? g = some span) :
    Text.Good text span.start ∧ Text.Good text span.stop ∧ span.start ≤ span.stop := by
  obtain ⟨i, j, ms, hreads, hj, rfl⟩ := reads_of_mem_findAll hm
  obtain ⟨k, ms₁, ms₂, hfirst, hrest, rfl⟩ := reads_append hreads
  obtain ⟨a, ns, hbefore, hinner, rfl⟩ := reads_append_group hq hfirst
  obtain rfl := marks_of_groupless hbefore hp
  obtain rfl := marks_of_groupless hrest hr
  have hspan := h.symm.trans (group?_eq (f := (Subject.of text).offset) (a := a) (b := k) rfl
    (by simp [Mark.opened?]) (by simp [Mark.closed?]))
  obtain rfl := Option.some.inj hspan
  exact good_of_reads hinner (hrest.le.trans hj)

end Pattern

end Mend
