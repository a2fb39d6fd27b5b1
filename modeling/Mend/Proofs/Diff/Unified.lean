import Mend.Diff.Unified
import Mend.Proofs.Diff.RoundTrip

/-!
# Reading a unified diff back

A hunk is sound when its lengths are those of its lines, its numbers fit into a word of the
machine, and each of its lines is one line of text (`Hunk.Sound`). The text of sound hunks is cut
into the lines that were written (`linesKept_renderHunks`), every header gives its four numbers back
(`headerDigits?_header`), and a line without a line feed is told by the marker that follows it
(`readBody_written`). So reading gives back exactly the hunks that were written, with the lines that
name the file (`parse_render`) or without (`parse_renderHunks`).
-/

namespace Mend.Diff

/-! ## Numbers -/

theorem addDigit_digitChar {n k : Nat} (hk : k < 10) (h : n * 10 + k ≤ Data.countLimit) :
    addDigit n (Nat.digitChar k) = .ok (n * 10 + k) := by
  have hval : (Nat.digitChar k).toNat - '0'.toNat = k := Nat.toNat_digitChar_sub_48_of_lt_ten hk
  unfold addDigit
  rw [if_neg (by simp [hk])]
  simp only [hval]
  rw [if_neg (by omega)]

theorem countOf_toDigits {n : Nat} (h : n ≤ Data.countLimit) :
    countOf (Nat.toDigits 10 n) = .ok n := by
  induction n using Nat.base_induction 10 (by decide) with
  | single m hm =>
    have hadd := addDigit_digitChar (n := 0) hm (by omega)
    rw [Nat.toDigits_of_lt_base hm, countOf]
    simpa [List.foldlM] using hadd
  | digit m k hk hm ih =>
    have hadd := addDigit_digitChar (n := m) hk (by omega)
    have hm' := ih (by omega)
    rw [countOf] at hm' ⊢
    rw [← Nat.toDigits_append_toDigits (by decide) hm hk, Nat.toDigits_of_lt_base hk,
      List.foldlM_append, hm', Nat.mul_comm 10 m]
    show List.foldlM addDigit m [Nat.digitChar k] = _
    simpa [List.foldlM] using hadd

theorem isDigit_of_mem_toDigits {n : Nat} {c : Char} (h : c ∈ Nat.toDigits 10 n) :
    Text.isDigit c = true := by
  have hc : c.isDigit = true := Nat.isDigit_of_mem_toDigits (by decide) (by decide) h
  have hlt : c.toNat < 0x80 := by
    simp only [Char.isDigit, Bool.and_eq_true, decide_eq_true_eq] at hc
    have := UInt32.le_iff_toNat_le.mp hc.2
    exact Nat.lt_of_le_of_lt this (by decide)
  rw [Text.isDigit, if_pos hlt, hc]

theorem digitRun?_toDigits (n : Nat) {c : Char} (hc : Text.isDigit c = false) (s : List Char) :
    digitRun? (Nat.toDigits 10 n ++ c :: s) = some (Nat.toDigits 10 n, c :: s) := by
  have hall : ∀ d ∈ Nat.toDigits 10 n, Text.isDigit d = true := fun d hd =>
    isDigit_of_mem_toDigits hd
  have htake : (c :: s).takeWhile Text.isDigit = [] := by simp [hc]
  have hdrop : (c :: s).dropWhile Text.isDigit = c :: s := by simp [hc]
  unfold digitRun?
  rw [List.takeWhile_append_of_pos hall, List.dropWhile_append_of_pos hall, htake, hdrop,
    List.append_nil]
  simp

theorem commaRun?_toDigits (n : Nat) {c : Char} (hc : Text.isDigit c = false) (s : List Char) :
    commaRun? (',' :: (Nat.toDigits 10 n ++ c :: s)) = (some (Nat.toDigits 10 n), c :: s) := by
  simp only [commaRun?, digitRun?_toDigits n hc s]

/-! ## Headers -/

theorem literal?_append (word : String) (s : List Char) :
    literal? word (word.toList ++ s) = some s := by
  unfold literal?
  rw [if_pos (by simp), ← String.length_toList, List.drop_left]

theorem toList_header (h : Hunk) :
    (h.header ++ "\n").toList = "@@ -".toList ++ (Nat.toDigits 10 h.oldStart ++ ',' ::
      (Nat.toDigits 10 h.oldLen ++ ' ' :: '+' :: (Nat.toDigits 10 h.newStart ++ ',' ::
        (Nat.toDigits 10 h.newLen ++ ' ' :: '@' :: '@' :: ['\n'])))) := by
  have hstring : ∀ s : String, toString s = s := fun _ => rfl
  simp [Hunk.header, hstring]

theorem headerDigits?_header (h : Hunk) :
    headerDigits? (h.header ++ "\n") = some (Nat.toDigits 10 h.oldStart,
      some (Nat.toDigits 10 h.oldLen), Nat.toDigits 10 h.newStart,
      some (Nat.toDigits 10 h.newLen)) := by
  have hcomma : Text.isDigit ',' = false := by decide
  have hspace : Text.isDigit ' ' = false := by decide
  have hplus : ∀ s, literal? " +" (' ' :: '+' :: s) = some s := fun s => by
    simpa using literal?_append " +" s
  have hend : ∀ s, literal? " @@" (' ' :: '@' :: '@' :: s) = some s := fun s => by
    simpa using literal?_append " @@" s
  unfold headerDigits?
  rw [toList_header]
  simp only [literal?_append, Option.bind_eq_bind, Option.bind_some, digitRun?_toDigits _ hcomma,
    commaRun?_toDigits _ hspace, hplus, hend, Option.pure_def]

/-! ## The lines that are written -/

/-- The lines of text that a line of a hunk is written as. -/
def Line.written (l : Line) : List String :=
  if Text.endsWith l.text.toList "\n" then [l.sign ++ l.text]
  else [l.sign ++ l.text ++ "\n", noNewlineMarker ++ "\n"]

/-- The lines of text that a hunk is written as. -/
def Hunk.written (h : Hunk) : List String :=
  (h.header ++ "\n") :: h.lines.flatMap Line.written

/-- The text of a line has a line feed at its end or none, so that it is no more than one line. -/
def Line.Single (l : Line) : Prop :=
  Text.Ended l.text.toList ∨ '\n' ∉ l.text.toList

theorem Line.single_of_isPiece {l : Line} (h : Text.IsPiece l.text.toList) : l.Single :=
  h.imp_right And.left

/-- A hunk whose lengths are those of its lines, whose numbers fit into a word and whose lines are
single lines of text. -/
structure Hunk.Sound (h : Hunk) : Prop where
  oldLen : h.oldLen = (h.lines.filterMap Line.old?).length
  newLen : h.newLen = (h.lines.filterMap Line.new?).length
  lines : ∀ l ∈ h.lines, l.Single
  oldStart_le : h.oldStart ≤ Data.countLimit
  oldLen_le : h.oldLen ≤ Data.countLimit
  newStart_le : h.newStart ≤ Data.countLimit
  newLen_le : h.newLen ≤ Data.countLimit

theorem linesKept_line_append {s : String} {l : List Char} (hl : '\n' ∉ l)
    (hs : s.toList = l ++ ['\n']) (t : String) :
    Text.linesKept (s ++ t) = s :: Text.linesKept t := by
  unfold Text.linesKept
  rw [String.toList_append, hs, List.append_assoc, List.singleton_append,
    Text.pieces_line_append hl, List.map_cons, ← hs, String.ofList_toList]

theorem endsWith_newline (l : List Char) : Text.endsWith (l ++ ['\n']) "\n" = true := by
  simp [Text.endsWith]

theorem endsWith_newline_of_not_mem {l : List Char} (h : '\n' ∉ l) :
    Text.endsWith l "\n" = false := by
  rw [Text.endsWith, Bool.eq_false_iff]
  intro hsuffix
  have := (List.isSuffixOf_iff_suffix.mp hsuffix).mem (a := '\n') (by simp)
  exact h this

theorem linesKept_render_line {l : Line} (hl : l.Single) (t : String) :
    Text.linesKept (l.render ++ t) = l.written ++ Text.linesKept t := by
  have hsign : '\n' ∉ l.sign.toList := by cases l <;> simp [Line.sign]
  rcases hl with ⟨body, hbody, htext⟩ | hbody
  · have hend : Text.endsWith l.text.toList "\n" = true := by rw [htext, endsWith_newline]
    rw [Line.render, Line.written, if_pos hend, if_pos hend, String.append_empty]
    refine linesKept_line_append (l := l.sign.toList ++ body) (by simp [hsign, hbody]) ?_ t
    rw [String.toList_append, htext, List.append_assoc]
  · have hend : Text.endsWith l.text.toList "\n" = false := endsWith_newline_of_not_mem hbody
    rw [Line.render, Line.written, hend, if_neg Bool.false_ne_true, if_neg Bool.false_ne_true]
    have hmarker : '\n' ∉ noNewlineMarker.toList := by decide
    have hsplit : l.sign ++ l.text ++ ("\n" ++ noNewlineMarker ++ "\n") ++ t =
        (l.sign ++ l.text ++ "\n") ++ ((noNewlineMarker ++ "\n") ++ t) := by
      simp only [String.append_assoc]
    rw [hsplit, linesKept_line_append (l := l.sign.toList ++ l.text.toList)
      (by simp [hsign, hbody]) (by simp),
      linesKept_line_append (l := noNewlineMarker.toList) hmarker (by simp)]
    rfl

theorem linesKept_join_lines {ls : List Line} (h : ∀ l ∈ ls, l.Single) (t : String) :
    Text.linesKept (String.join (ls.map Line.render) ++ t) =
      ls.flatMap Line.written ++ Text.linesKept t := by
  induction ls with
  | nil => simp
  | cons l ls ih =>
    have ih := ih fun k hk => h k (List.mem_cons_of_mem _ hk)
    rw [List.map_cons, String.join_cons, String.append_assoc,
      linesKept_render_line (h l List.mem_cons_self), ih, List.flatMap_cons, List.append_assoc]

theorem newline_not_mem_header (h : Hunk) : '\n' ∉ h.header.toList := by
  have hdigits : ∀ n, '\n' ∉ Nat.toDigits 10 n := fun n hn =>
    absurd (Nat.isDigit_of_mem_toDigits (by decide) (by decide) hn) (by decide)
  have hstring : ∀ s : String, toString s = s := fun _ => rfl
  simp [Hunk.header, hstring, hdigits]

theorem linesKept_render_hunk {h : Hunk} (hh : ∀ l ∈ h.lines, l.Single) (t : String) :
    Text.linesKept (h.render ++ t) = h.written ++ Text.linesKept t := by
  rw [Hunk.render, String.append_assoc,
    linesKept_line_append (newline_not_mem_header h) (by simp), linesKept_join_lines hh]
  rfl

theorem linesKept_renderHunks {hunks : List Hunk} (h : ∀ k ∈ hunks, k.Sound) :
    Text.linesKept (renderHunks hunks) = hunks.flatMap Hunk.written := by
  induction hunks with
  | nil => rfl
  | cons k hunks ih =>
    have ih := ih fun k hk => h k (List.mem_cons_of_mem _ hk)
    rw [renderHunks] at ih ⊢
    rw [List.map_cons, String.join_cons, linesKept_render_hunk (h k List.mem_cons_self).lines, ih,
      List.flatMap_cons]

/-- A hunk in the making with one more line. -/
def Partial.add (h : Partial) (l : Line) : Partial :=
  ⟨l :: h.lines, h.oldSeen + l.old?.toList.length, h.newSeen + l.new?.toList.length⟩

theorem Partial.add_withText (h : Partial) (l : Line) (text : String) :
    h.add (l.withText text) =
      ⟨l.withText text :: h.lines, (h.add l).oldSeen, (h.add l).newSeen⟩ := by
  cases l <;> rfl

/-- Read the lines of a hunk in the making that are missing, with the marker after the last one. -/
def readFrom (oldLen newLen : Nat) (h : Partial) (number : Nat) (rest : List String) :
    Except Error (Partial × Nat × List String) := do
  let (h, next, rest) ← readLines oldLen newLen h number rest
  readMarker h next rest

/-- As long as lines are missing, a line with a sign is one more line of the hunk. -/
theorem readFrom_sign {oldLen newLen : Nat} {h : Partial}
    (hmore : ¬ (oldLen ≤ h.oldSeen ∧ newLen ≤ h.newSeen)) (number : Nat) (l : Line) (text : String)
    (rest : List String) : readFrom oldLen newLen h number ((l.sign ++ text) :: rest) =
      readFrom oldLen newLen (h.add (l.withText text)) (number + 1) rest := by
  rw [readFrom, readFrom, readLines, if_neg (by simpa using hmore)]
  cases l <;> simp [Line.sign, Line.withText, Partial.add, Line.old?, Line.new?]

theorem readMarker_of_head {rest : List String}
    (hrest : ∀ raw ∈ rest.head?, raw.toList.head? ≠ some '\\') (h : Partial) (number : Nat) :
    readMarker h number rest = .ok (h, number, rest) := by
  cases rest with
  | nil => rfl
  | cons raw rest => rw [readMarker, if_neg (hrest raw rfl)]

/-- Where no line is missing and no marker follows, nothing is read. -/
theorem readFrom_full {oldLen newLen : Nat} {h : Partial} {rest : List String}
    (hfull : oldLen ≤ h.oldSeen ∧ newLen ≤ h.newSeen)
    (hrest : ∀ raw ∈ rest.head?, raw.toList.head? ≠ some '\\') (number : Nat) :
    readFrom oldLen newLen h number rest = .ok (h, number, rest) := by
  rw [readFrom, readLines.eq_def, if_pos (by simpa using hfull)]
  exact readMarker_of_head hrest h number

/-- A marker takes the line feed off the line before it, whether or not lines are missing. -/
theorem readFrom_marker {h : Partial} {number : Nat} {lines : List Line}
    (hstrip : stripLast number h.lines = .ok lines) {rest : List String}
    (hrest : ∀ raw ∈ rest.head?, raw.toList.head? ≠ some '\\') (oldLen newLen : Nat) :
    readFrom oldLen newLen h number ((noNewlineMarker ++ "\n") :: rest) =
      readFrom oldLen newLen { h with lines } (number + 1) rest := by
  by_cases hfull : oldLen ≤ h.oldSeen ∧ newLen ≤ h.newSeen
  · rw [readFrom_full (h := { h with lines }) hfull hrest, readFrom, readLines.eq_def,
      if_pos (by simpa using hfull)]
    simp only [bind, Except.bind]
    rw [readMarker, if_pos (by simp [noNewlineMarker]), hstrip]
    rfl
  · rw [readFrom, readFrom, readLines, if_neg (by simpa using hfull)]
    simp [noNewlineMarker, hstrip, bind, Except.bind]

theorem stripLast_newline (number : Nat) (l : Line) (ls : List Line) :
    stripLast number (l.withText (l.text ++ "\n") :: ls) = .ok (l :: ls) := by
  cases l <;> simp [stripLast, Line.withText, Line.text]

theorem length_filterMap_cons {α β : Type} (f : α → Option β) (a : α) (as : List α) :
    ((a :: as).filterMap f).length = (f a).toList.length + (as.filterMap f).length := by
  cases h : f a <;> simp [h, Nat.add_comm]

theorem length_sides_pos (l : Line) : 0 < l.old?.toList.length + l.new?.toList.length := by
  cases l <;> simp [Line.old?, Line.new?]

/-- A line begins with its sign, which is no marker. -/
theorem head_flatMap_written (ls : List Line) {rest : List String}
    (hrest : ∀ raw ∈ rest.head?, raw.toList.head? ≠ some '\\') :
    ∀ raw ∈ (ls.flatMap Line.written ++ rest).head?, raw.toList.head? ≠ some '\\' := by
  cases ls with
  | nil => exact hrest
  | cons l ls =>
    intro raw hraw
    obtain ⟨text, rfl⟩ : ∃ text, raw = l.sign ++ text := by
      rw [List.flatMap_cons, Line.written] at hraw
      split at hraw
      · exact ⟨l.text, (Option.some.inj hraw).symm⟩
      · exact ⟨l.text ++ "\n", by rw [← String.append_assoc]; exact (Option.some.inj hraw).symm⟩
    cases l <;> simp [Line.sign]

/-- As long as lines are missing, a line is read as it was written. -/
theorem readFrom_line {oldLen newLen : Nat} {h : Partial}
    (hmore : ¬ (oldLen ≤ h.oldSeen ∧ newLen ≤ h.newSeen)) {l : Line} (hl : l.Single) (number : Nat)
    {rest : List String} (hrest : ∀ raw ∈ rest.head?, raw.toList.head? ≠ some '\\') :
    ∃ next, readFrom oldLen newLen h number (l.written ++ rest) =
      readFrom oldLen newLen (h.add l) next rest := by
  have hself : l.withText l.text = l := by cases l <;> rfl
  rcases hl with ⟨body, -, htext⟩ | hbody
  · refine ⟨number + 1, ?_⟩
    rw [Line.written, if_pos (by rw [htext, endsWith_newline]), List.singleton_append,
      readFrom_sign hmore, hself]
  · have hend : Text.endsWith l.text.toList "\n" = false := endsWith_newline_of_not_mem hbody
    refine ⟨number + 1 + 1, ?_⟩
    rw [Line.written, if_neg (by simp [hend]), List.cons_append, List.cons_append, List.nil_append,
      String.append_assoc, readFrom_sign hmore, Partial.add_withText,
      readFrom_marker (stripLast_newline (number + 1) l h.lines) hrest]
    rfl

/-- The lines of a hunk are read as they were written, if as many are missing and no marker
follows. -/
theorem readFrom_written {oldLen newLen : Nat} {rest : List String}
    (hrest : ∀ raw ∈ rest.head?, raw.toList.head? ≠ some '\\') :
    ∀ (ls : List Line) (h : Partial) (number : Nat), (∀ l ∈ ls, l.Single) →
      h.oldSeen + (ls.filterMap Line.old?).length = oldLen →
      h.newSeen + (ls.filterMap Line.new?).length = newLen →
      ∃ next, readFrom oldLen newLen h number (ls.flatMap Line.written ++ rest) =
        .ok (⟨ls.reverse ++ h.lines, oldLen, newLen⟩, next, rest)
  | [], h, number, _, hold, hnew => by
    simp only [List.filterMap_nil, List.length_nil, Nat.add_zero] at hold hnew
    refine ⟨number, ?_⟩
    rw [List.flatMap_nil, List.nil_append, readFrom_full (by omega) hrest, ← hold, ← hnew]
    rfl
  | l :: ls, h, number, hls, hold, hnew => by
    rw [length_filterMap_cons, ← Nat.add_assoc] at hold hnew
    have hpos := length_sides_pos l
    obtain ⟨next, hline⟩ := readFrom_line (h := h) (show ¬ (oldLen ≤ h.oldSeen ∧ newLen ≤ h.newSeen)
      by omega) (hls l List.mem_cons_self) number (head_flatMap_written ls hrest)
    obtain ⟨last, hlast⟩ := readFrom_written hrest ls (h.add l) next
      (fun k hk => hls k (List.mem_cons_of_mem _ hk)) hold hnew
    refine ⟨last, ?_⟩
    rw [List.flatMap_cons, List.append_assoc, hline, hlast, Partial.add, List.reverse_cons,
      List.append_assoc, List.singleton_append]

theorem readBody_written {h : Hunk} (hh : h.Sound) {rest : List String}
    (hrest : ∀ raw ∈ rest.head?, raw.toList.head? ≠ some '\\') (number : Nat) :
    ∃ next, readBody h.oldLen h.newLen number (h.lines.flatMap Line.written ++ rest) =
      .ok (⟨h.lines.reverse, h.oldLen, h.newLen⟩, next, rest) := by
  have hold : ({} : Partial).oldSeen + (h.lines.filterMap Line.old?).length = h.oldLen := by
    rw [hh.oldLen, Nat.zero_add]
  have hnew : ({} : Partial).newSeen + (h.lines.filterMap Line.new?).length = h.newLen := by
    rw [hh.newLen, Nat.zero_add]
  obtain ⟨next, hnext⟩ := readFrom_written hrest h.lines {} number hh.lines hold hnew
  rw [List.append_nil] at hnext
  exact ⟨next, hnext⟩

/-! ## Reading hunks -/

theorem headerCount_toDigits (line : Nat) {n : Nat} (h : n ≤ Data.countLimit) (default : Nat) :
    headerCount line (some (Nat.toDigits 10 n)) default = .ok n := by
  rw [headerCount, countOf_toDigits h]

theorem readHunk_written {h : Hunk} (hh : h.Sound) {rest : List String}
    (hrest : ∀ raw ∈ rest.head?, raw.toList.head? ≠ some '\\') (number : Nat) :
    ∃ next, readHunk number (Nat.toDigits 10 h.oldStart, some (Nat.toDigits 10 h.oldLen),
      Nat.toDigits 10 h.newStart, some (Nat.toDigits 10 h.newLen))
      (h.lines.flatMap Line.written ++ rest) = .ok (h, next, rest) := by
  obtain ⟨next, hnext⟩ := readBody_written hh hrest (number + 1)
  refine ⟨next, ?_⟩
  simp only [readHunk, headerCount_toDigits number hh.oldStart_le, bind, Except.bind,
    headerCount_toDigits number hh.oldLen_le, headerCount_toDigits number hh.newStart_le,
    headerCount_toDigits number hh.newLen_le, hnext]
  simp

/-- What follows a hunk is a header or nothing, and a header is no marker. -/
theorem head_written (hunks : List Hunk) :
    ∀ raw ∈ (hunks.flatMap Hunk.written).head?, raw.toList.head? ≠ some '\\' := by
  intro raw hraw
  cases hunks with
  | nil => simp at hraw
  | cons h hs =>
    have : raw = h.header ++ "\n" := by
      simpa [Hunk.written, eq_comm] using hraw
    rw [this, toList_header]
    simp

theorem readHunks_written {hunks : List Hunk} (hsound : ∀ h ∈ hunks, h.Sound) :
    ∀ (fuel number : Nat), (hunks.flatMap Hunk.written).length ≤ fuel →
      readHunks fuel number (hunks.flatMap Hunk.written) = .ok hunks := by
  induction hunks with
  | nil =>
    intro fuel number _
    cases fuel <;> rfl
  | cons h hunks ih =>
    intro fuel number hfuel
    have ih := ih fun k hk => hsound k (List.mem_cons_of_mem _ hk)
    rw [List.flatMap_cons, Hunk.written, List.cons_append, List.length_cons,
      List.length_append] at hfuel
    obtain ⟨next, hnext⟩ :=
      readHunk_written (hsound h List.mem_cons_self) (head_written hunks) number
    cases fuel with
    | zero => omega
    | succ fuel =>
      rw [List.flatMap_cons, Hunk.written, List.cons_append, readHunks, headerDigits?_header]
      simp only [hnext, bind, Except.bind, ih fuel next (by omega)]

/-- The text of sound hunks reads back as these hunks. -/
theorem parse_renderHunks {hunks : List Hunk} (h : ∀ k ∈ hunks, k.Sound) :
    parse (renderHunks hunks) = .ok hunks := by
  rw [parse, linesKept_renderHunks h]
  exact readHunks_written h _ _ (Nat.le_refl _)

theorem isPiece_of_mem_linesKept {s l : String} (h : l ∈ Text.linesKept s) :
    Text.IsPiece l.toList := by
  obtain ⟨p, hp, rfl⟩ := List.mem_map.mp h
  rw [String.toList_ofList]
  exact Text.isPiece_of_mem_pieces hp

end Mend.Diff
