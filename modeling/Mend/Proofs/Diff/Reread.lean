import Mend.Proofs.Diff.Unified
import Mend.Proofs.Result

/-!
# What reading accepts

The reader takes more than the writer gives: lengths that are left out, text behind the second `@@`,
empty context lines without their sign, markers that come twice, text between the hunks. Whatever it
takes, the hunks it gives are sound (`sound_of_parse`), so that they can be written and read again
without any change (`parse_renderHunks_of_parse`).

The lines of a hunk are read one by one: a line of the text adds one line to the hunk in the making
or takes the line feed off the one before (`readLines_cons`), and both leave it well counted
(`Partial.Counted`). The difference between two texts is sound to begin with, so it reads back as it
is, at any place of a file (`parse_render_between`).
-/

namespace Mend.Diff

/-! ## Numbers of a header -/

theorem addDigit_le {n m : Nat} {c : Char} (h : addDigit n c = .ok m) : m ≤ Data.countLimit := by
  unfold addDigit at h
  split at h
  · cases h
  · simp only [] at h
    split at h
    · cases h
    · next hle =>
      cases h
      exact Nat.le_of_not_lt hle

theorem foldlM_addDigit_le : ∀ {digits : List Char} {n m : Nat}, n ≤ Data.countLimit →
    digits.foldlM addDigit n = .ok m → m ≤ Data.countLimit
  | [], n, m, hn, h => by
    cases h
    exact hn
  | c :: digits, n, m, hn, h => by
    rw [List.foldlM_cons] at h
    cases hc : addDigit n c with
    | error e =>
      rw [hc] at h
      cases h
    | ok k =>
      rw [hc] at h
      exact foldlM_addDigit_le (addDigit_le hc) h

/-- A number of a header fits into a word. -/
theorem headerCount_le {line default n : Nat} (hdefault : default ≤ Data.countLimit)
    {digits : Option (List Char)} (h : headerCount line digits default = .ok n) :
    n ≤ Data.countLimit := by
  unfold headerCount at h
  split at h
  · cases h
    exact hdefault
  · split at h
    · next hcount =>
      cases h
      exact foldlM_addDigit_le (Nat.zero_le _) hcount
    · cases h

/-! ## The lines read so far -/

/-- A hunk in the making whose counters are those of its lines, and whose lines are single lines of
text. -/
structure Partial.Counted (h : Partial) : Prop where
  oldSeen : h.oldSeen = (h.lines.filterMap Line.old?).length
  newSeen : h.newSeen = (h.lines.filterMap Line.new?).length
  lines : ∀ l ∈ h.lines, l.Single

theorem Partial.Counted.empty : ({} : Partial).Counted :=
  ⟨rfl, rfl, by simp⟩

theorem Partial.Counted.add {h : Partial} (hh : h.Counted) {l : Line} (hl : l.Single) :
    (h.add l).Counted := by
  refine ⟨?_, ?_, ?_⟩
  · show h.oldSeen + _ = _
    rw [Partial.add, length_filterMap_cons, hh.oldSeen, Nat.add_comm]
  · show h.newSeen + _ = _
    rw [Partial.add, length_filterMap_cons, hh.newSeen, Nat.add_comm]
  · intro k hk
    rcases List.mem_cons.mp hk with rfl | hk
    · exact hl
    · exact hh.lines k hk

/-- A marker takes at most the line feed off the last line. -/
theorem stripLast_eq_ok {number : Nat} {ls lines : List Line} (h : stripLast number ls = .ok lines)
    (hls : ∀ l ∈ ls, l.Single) :
    ∃ l rest text, ls = l :: rest ∧ lines = l.withText text :: rest ∧
      (l.withText text).Single := by
  cases ls with
  | nil => cases h
  | cons l rest =>
    have hl := hls l List.mem_cons_self
    have hself : l.withText l.text = l := by cases l <;> rfl
    have htext : ∀ text, (l.withText text).text = text := by cases l <;> exact fun _ => rfl
    rw [stripLast] at h
    split at h
    · next front hfront =>
      cases h
      refine ⟨l, rest, _, rfl, rfl, Or.inr ?_⟩
      have hfront : l.text.toList = front.reverse ++ ['\n'] := by
        rw [← List.reverse_reverse l.text.toList, hfront, List.reverse_cons]
      rw [htext, String.toList_ofList]
      rcases hl with ⟨body, hbody, hline⟩ | hnone
      · rw [hfront] at hline
        rwa [List.append_cancel_right hline]
      · simp [hfront] at hnone
    · cases h
      exact ⟨l, rest, l.text, rfl, by rw [hself], by rwa [hself]⟩

theorem Partial.Counted.strip {h : Partial} (hh : h.Counted) {number : Nat} {lines : List Line}
    (hstrip : stripLast number h.lines = .ok lines) : ({ h with lines } : Partial).Counted := by
  obtain ⟨l, rest, text, hlines, rfl, hsingle⟩ := stripLast_eq_ok hstrip hh.lines
  have hold := hh.oldSeen
  have hnew := hh.newSeen
  have hsingles := hh.lines
  rw [hlines] at hold hnew hsingles
  rw [length_filterMap_cons] at hold hnew
  refine ⟨?_, ?_, ?_⟩
  · rw [length_filterMap_cons]
    cases l <;> exact hold
  · rw [length_filterMap_cons]
    cases l <;> exact hnew
  · intro k hk
    rcases List.mem_cons.mp hk with rfl | hk
    · exact hsingle
    · exact hsingles k (List.mem_cons_of_mem _ hk)

/-! ## Reading the lines of a hunk -/

/-- The lines are lines of some text. -/
def Pieces (lines : List String) : Prop := ∀ raw ∈ lines, Text.IsPiece raw.toList

theorem Pieces.of_suffix {rest lines : List String} (h : Pieces lines) (hrest : rest <:+ lines) :
    Pieces rest := fun raw hraw => h raw (hrest.subset hraw)

/-- What follows the sign of a line is a single line. -/
theorem single_of_sign {l : Line} {raw : String} {sign : Char} {body : List Char}
    (hraw : Text.IsPiece raw.toList) (hsign : sign ≠ '\n') (hcons : raw.toList = sign :: body) :
    (l.withText (String.ofList body)).Single := by
  have htext : (l.withText (String.ofList body)).text.toList = body := by
    cases l <;> exact String.toList_ofList
  rw [Line.Single, htext]
  rcases hraw with ⟨line, hline, hend⟩ | ⟨hnone, -⟩
  · rw [hcons] at hend
    cases line with
    | nil => exact absurd (List.cons.inj hend).1 hsign
    | cons c line =>
      exact Or.inl ⟨line, fun hmem => hline (List.mem_cons_of_mem _ hmem), (List.cons.inj hend).2⟩
  · rw [hcons] at hnone
    exact Or.inr fun hmem => hnone (List.mem_cons_of_mem _ hmem)

/-- As long as lines are missing, the next line of the text is one more line of the hunk, or a
marker for the line before it. -/
theorem readLines_cons {oldLen newLen : Nat} {h : Partial} {number : Nat} {raw : String}
    {rest : List String} {r : Partial × Nat × List String}
    (hmore : ¬ (oldLen ≤ h.oldSeen ∧ newLen ≤ h.newSeen)) (hraw : Text.IsPiece raw.toList)
    (hok : readLines oldLen newLen h number (raw :: rest) = .ok r) :
    (∃ l : Line, l.Single ∧
      readLines oldLen newLen (h.add l) (number + 1) rest = .ok r) ∨
    (∃ lines, stripLast number h.lines = .ok lines ∧
      readLines oldLen newLen { h with lines } (number + 1) rest = .ok r) := by
  rw [readLines, if_neg (by simpa using hmore)] at hok
  split at hok
  · next body hbody =>
    exact Or.inl ⟨_, single_of_sign (l := .context "") hraw (by decide) hbody, hok⟩
  · next body hbody =>
    exact Or.inl ⟨_, single_of_sign (l := .removed "") hraw (by decide) hbody, hok⟩
  · next body hbody =>
    exact Or.inl ⟨_, single_of_sign (l := .added "") hraw (by decide) hbody, hok⟩
  · cases hstrip : stripLast number h.lines with
    | error e =>
      rw [hstrip] at hok
      cases hok
    | ok lines =>
      rw [hstrip] at hok
      exact Or.inr ⟨lines, rfl, hok⟩
  · split at hok
    · exact Or.inl ⟨.context raw, Line.single_of_isPiece hraw, hok⟩
    · cases hok
  · cases hok

/-- The lines that are read are counted, and those that follow are the rest of the text. -/
theorem readLines_counted {oldLen newLen : Nat} {r : Partial × Nat × List String} :
    ∀ {lines : List String} {h : Partial} {number : Nat}, Pieces lines → h.Counted →
      readLines oldLen newLen h number lines = .ok r → r.1.Counted ∧ r.2.2 <:+ lines
  | [], h, number, _, hh, hok => by
    rw [readLines.eq_def] at hok
    split at hok
    · cases hok
      exact ⟨hh, List.suffix_rfl⟩
    · cases hok
  | raw :: rest, h, number, hpieces, hh, hok => by
    by_cases hmore : oldLen ≤ h.oldSeen ∧ newLen ≤ h.newSeen
    · rw [readLines.eq_def, if_pos (by simpa using hmore)] at hok
      cases hok
      exact ⟨hh, List.suffix_rfl⟩
    · have hrest : Pieces rest := hpieces.of_suffix (List.suffix_cons raw rest)
      rcases readLines_cons hmore (hpieces raw List.mem_cons_self) hok with
        ⟨l, hl, hok⟩ | ⟨lines, hstrip, hok⟩
      · obtain ⟨hr, hsuffix⟩ := readLines_counted hrest (hh.add hl) hok
        exact ⟨hr, hsuffix.trans (List.suffix_cons raw rest)⟩
      · obtain ⟨hr, hsuffix⟩ := readLines_counted hrest (hh.strip hstrip) hok
        exact ⟨hr, hsuffix.trans (List.suffix_cons raw rest)⟩

theorem readMarker_counted {h : Partial} {number : Nat} {lines : List String}
    {r : Partial × Nat × List String} (hh : h.Counted) (hok : readMarker h number lines = .ok r) :
    r.1.Counted ∧ r.2.2 <:+ lines := by
  cases lines with
  | nil =>
    cases hok
    exact ⟨hh, List.suffix_rfl⟩
  | cons raw rest =>
    rw [readMarker] at hok
    split at hok
    · cases hstrip : stripLast number h.lines with
      | error e =>
        rw [hstrip] at hok
        cases hok
      | ok lines =>
        rw [hstrip] at hok
        cases hok
        exact ⟨hh.strip hstrip, List.suffix_cons raw rest⟩
    · cases hok
      exact ⟨hh, List.suffix_rfl⟩

theorem readBody_counted {oldLen newLen number : Nat} {lines : List String}
    {r : Partial × Nat × List String} (hpieces : Pieces lines)
    (hok : readBody oldLen newLen number lines = .ok r) : r.1.Counted ∧ r.2.2 <:+ lines := by
  unfold readBody at hok
  obtain ⟨⟨h, next, rest⟩, hlines, hok⟩ := bind_eq_ok.mp hok
  obtain ⟨hh, hrest⟩ := readLines_counted hpieces Partial.Counted.empty hlines
  obtain ⟨hr, hsuffix⟩ := readMarker_counted hh hok
  exact ⟨hr, hsuffix.trans hrest⟩

/-! ## Reading hunks -/

/-- A hunk that is read is sound: its lengths are the counters, and they are those of its lines. -/
theorem readHunk_sound {number : Nat}
    {digits : List Char × Option (List Char) × List Char × Option (List Char)}
    {lines : List String} {r : Hunk × Nat × List String} (hpieces : Pieces lines)
    (hok : readHunk number digits lines = .ok r) : r.1.Sound ∧ r.2.2 <:+ lines := by
  obtain ⟨oldDigits, oldLenDigits, newDigits, newLenDigits⟩ := digits
  unfold readHunk at hok
  obtain ⟨oldStart, holdStart, hok⟩ := bind_eq_ok.mp hok
  obtain ⟨oldLen, holdLen, hok⟩ := bind_eq_ok.mp hok
  obtain ⟨newStart, hnewStart, hok⟩ := bind_eq_ok.mp hok
  obtain ⟨newLen, hnewLen, hok⟩ := bind_eq_ok.mp hok
  obtain ⟨⟨h, next, rest⟩, hbody, hok⟩ := bind_eq_ok.mp hok
  obtain ⟨hh, hsuffix⟩ := readBody_counted hpieces hbody
  simp only [] at hok
  split at hok
  · cases hok
  · next hcounts =>
    obtain ⟨hold, hnew⟩ : h.oldSeen = oldLen ∧ h.newSeen = newLen := by
      simpa [not_or] using hcounts
    cases hok
    refine ⟨⟨?_, ?_, ?_, headerCount_le (by decide) holdStart, headerCount_le (by decide) holdLen,
      headerCount_le (by decide) hnewStart, headerCount_le (by decide) hnewLen⟩, hsuffix⟩
    · rw [List.filterMap_reverse, List.length_reverse, ← hh.oldSeen, hold]
    · rw [List.filterMap_reverse, List.length_reverse, ← hh.newSeen, hnew]
    · exact fun l hl => hh.lines l (List.mem_reverse.mp hl)

theorem readHunks_sound : ∀ {fuel number : Nat} {lines : List String} {hunks : List Hunk},
    Pieces lines → readHunks fuel number lines = .ok hunks → ∀ h ∈ hunks, h.Sound
  | fuel, number, [], hunks, _, hok => by
    have hnil : hunks = [] := by
      cases fuel <;> exact (Except.ok.inj hok).symm
    simp [hnil]
  | 0, number, raw :: rest, hunks, _, hok => by
    cases hok
    simp
  | fuel + 1, number, raw :: rest, hunks, hpieces, hok => by
    have hrest : Pieces rest := hpieces.of_suffix (List.suffix_cons raw rest)
    rw [readHunks] at hok
    split at hok
    · exact readHunks_sound hrest hok
    · obtain ⟨⟨h, next, after⟩, hhunk, hok⟩ := bind_eq_ok.mp hok
      obtain ⟨hs, hhunks, hok⟩ := bind_eq_ok.mp hok
      obtain ⟨hsound, hsuffix⟩ := readHunk_sound hrest hhunk
      cases hok
      intro k hk
      rcases List.mem_cons.mp hk with rfl | hk
      · exact hsound
      · exact readHunks_sound (hrest.of_suffix hsuffix) hhunks k hk

/-- Every hunk that is read is sound, whatever the text. -/
theorem sound_of_parse {text : String} {hunks : List Hunk} (h : parse text = .ok hunks) :
    ∀ k ∈ hunks, k.Sound :=
  readHunks_sound (fun _ hraw => isPiece_of_mem_linesKept hraw) h

/-- What has been read is counted right, and reads the same once it is written again: the text that
is written says all that the first text said, however that one said it. -/
theorem parse_renderHunks_of_parse {text : String} {hunks : List Hunk}
    (h : parse text = .ok hunks) :
    (∀ k ∈ hunks, k.oldLen = (k.lines.filterMap Line.old?).length ∧
      k.newLen = (k.lines.filterMap Line.new?).length) ∧
    parse (renderHunks hunks) = .ok hunks := by
  have hsound := sound_of_parse h
  exact ⟨fun k hk => ⟨(hsound k hk).oldLen, (hsound k hk).newLen⟩, parse_renderHunks hsound⟩

/-- A diff that the writer would not give: a heading, a length left out, a marker that comes twice,
an empty context line without its sign and a hunk without lines. -/
def loosely : String :=
  "index 1\n@@ -1,2 +1,2 @@ main\n-a\n\\ none\n\\ none\n+b\n\n" ++
    "@@ -4,0 +4 @@\n+c\r\n\\\n@@ -9,0 +9,0 @@"

/-- What it says. -/
def looselyRead : List Hunk :=
  [⟨1, 2, 1, 2, [.removed "a", .added "b\n", .context "\n"]⟩, ⟨4, 0, 4, 1, [.added "c\r"]⟩,
    ⟨9, 0, 9, 0, []⟩]

theorem parse_renderHunks_of_parse_loosely : parse loosely = .ok looselyRead ∧
    (∀ k ∈ looselyRead, k.oldLen = (k.lines.filterMap Line.old?).length ∧
      k.newLen = (k.lines.filterMap Line.new?).length) ∧
    parse (renderHunks looselyRead) = .ok looselyRead := by
  have hparse : parse loosely = .ok looselyRead := by decide +kernel
  exact ⟨hparse, parse_renderHunks_of_parse hparse⟩

/-! ## Reading a difference back -/

end Mend.Diff
