import Mend.Data.Json
import Mend.Proofs.Text.Bytes
import Mathlib.Data.List.Basic

/-!
# Reading what was written

A tree of plain data that is written over several lines or on one line is read back as it was
(`readBytes?_pretty`, `read?_compact`). The argument follows the text: what stands between quotes is
undone escape by escape (`readQuoted_escape`), a number ends where no digit follows
(`number?_toString`), and a list or a record is read up to its bracket, with fuel for twice the
characters that are left. The two ways to write differ only in the blanks between the parts
(`Layout`), and a reader skips those. What is written on one line has no line feed
(`newline_not_mem_compact`), and a record that breaks off is not read (`read?_unclosed`).
-/

namespace Mend

namespace Data

mutual

/-- A tree without numbers that are kept as digits, moments and garbled texts. -/
def Plain : Data → Prop
  | .real _ => False
  | .moment _ => False
  | .garbled => False
  | .list items => PlainItems items
  | .record fields => PlainFields fields
  | _ => True

/-- Every item is plain. -/
def PlainItems : List Data → Prop
  | [] => True
  | d :: ds => Plain d ∧ PlainItems ds

/-- The value of every field is plain. -/
def PlainFields : List (String × Data) → Prop
  | [] => True
  | (_, d) :: fs => Plain d ∧ PlainFields fs

end

end Data

namespace Json

open Text (encode decode?)

/-! ## Blanks -/

theorem skip_append {b : List Char} (h : ∀ c ∈ b, isSpace c = true) (s : List Char) :
    skip (b ++ s) = skip s := by
  induction b with
  | nil => rfl
  | cons c b ih =>
    rw [List.cons_append, skip, List.dropWhile_cons, if_pos (h c (by simp))]
    exact ih fun d hd => h d (by simp [hd])

theorem skip_cons {c : Char} (h : isSpace c = false) (s : List Char) : skip (c :: s) = c :: s := by
  rw [skip, List.dropWhile_cons, h]
  rfl

theorem encode_newLine (depth : Nat) :
    encode (newLine depth).toList = '\n' :: List.replicate (2 * depth) ' ' := by
  have hspaces : ∀ n, encode (List.replicate n ' ') = List.replicate n ' ' := by
    intro n
    induction n with
    | zero => simp
    | succ n ih =>
      rw [List.replicate_succ, Text.encode_cons, ih, Text.encode_ascii (by decide)]
      rfl
  have htext : (newLine depth).toList = '\n' :: List.replicate (2 * depth) ' ' := by
    simp [newLine]
  rw [htext, Text.encode_cons, hspaces, Text.encode_ascii (by decide)]
  rfl

theorem isSpace_newLine (depth : Nat) : ∀ c ∈ encode (newLine depth).toList, isSpace c = true := by
  intro c hc
  rw [encode_newLine, List.mem_cons, List.mem_replicate] at hc
  rcases hc with rfl | ⟨-, rfl⟩ <;> rfl

/-! ## Quoted texts -/

/-- A character that stands for itself between quotes. -/
def Verbatim (c : Char) : Prop := c ≠ '"' ∧ c ≠ '\\' ∧ 32 ≤ c.toNat

theorem readQuoted_verbatim :
    ∀ {bytes : List Char}, (∀ c ∈ bytes, Verbatim c) → ∀ (fuel : Nat) (front s : List Char),
      readQuoted (fuel + bytes.length) (some front) (bytes ++ s) =
        readQuoted fuel (some (bytes.reverse ++ front)) s
  | [], _, fuel, front, s => rfl
  | c :: bytes, h, fuel, front, s => by
    obtain ⟨hquote, hslash, hprint⟩ := h c (by simp)
    have hrest : ∀ d ∈ bytes, Verbatim d := fun d hd => h d (List.mem_cons_of_mem c hd)
    have ih := readQuoted_verbatim hrest fuel (c :: front) s
    rw [List.length_cons, ← Nat.add_assoc, List.cons_append, readQuoted]
    · rw [if_neg (by omega), Option.map_some, ih]
      simp
    · exact fun hc => hquote hc
    · exact fun hc => hslash hc

theorem hexValue?_hexDigit (n : Nat) : hexValue? (hexDigit n) = some (n % 16) := by
  have h : ∀ k < 16, hexValue? ((Nat.toDigits 16 k).headD '0') = some k := by decide
  exact h (n % 16) (Nat.mod_lt _ (by decide))

theorem eq_of_toNat_eq {c : Char} {n : Nat} (h : c.toNat = n) : c = Char.ofNat n := by
  rw [← h, Char.ofNat_toNat]

/-- A character that is not escaped is spelled by bytes that stand for themselves. -/
theorem verbatim_encode {c : Char} (h : escape c = [c]) : ∀ b ∈ encode [c], Verbatim b := by
  by_cases hascii : c.toNat < 128
  · intro b hb
    rw [Text.encode_ascii hascii, List.mem_singleton] at hb
    subst hb
    refine ⟨?_, ?_, ?_⟩
    · rintro rfl
      revert h
      decide
    · rintro rfl
      revert h
      decide
    · by_contra hcontrol
      have hsmall : ∀ k < 32, escape (Char.ofNat k) ≠ [Char.ofNat k] := by decide
      exact hsmall b.toNat (by omega) (by rw [Char.ofNat_toNat, h])
  · intro b hb
    have hle := Text.le_of_mem_encode hascii hb
    refine ⟨?_, ?_, by omega⟩
    · rintro rfl
      exact absurd hle (by decide)
    · rintro rfl
      exact absurd hle (by decide)

theorem ascii_of_escape {c : Char} (h : escape c ≠ [c]) : c.toNat < 128 := by
  by_contra hc
  refine h ?_
  have hne : ∀ d : Char, d.toNat < 128 → (c == d) = false := by
    intro d hd
    rw [beq_eq_false_iff_ne]
    rintro rfl
    exact hc hd
  have h8 : ¬ c.toNat = 8 := by omega
  have h12 : ¬ c.toNat = 12 := by omega
  have h32 : ¬ c.toNat < 32 := by omega
  simp [escape, hne '"' (by decide), hne '\\' (by decide), hne '\n' (by decide),
    hne '\r' (by decide), hne '\t' (by decide), h8, h12, h32]

theorem ascii_escape {c : Char} (h : c.toNat < 128) :
    (escape c).all fun x => x.toNat < 128 := by
  have hall : ∀ k < 128, (escape (Char.ofNat k)).all fun x => x.toNat < 128 := by decide
  have hc := hall c.toNat h
  rwa [Char.ofNat_toNat] at hc

theorem hex4?_control {n : Nat} (h : n < 32) (s : List Char) :
    hex4? ('0' :: '0' :: hexDigit (n / 16) :: hexDigit n :: s) = some (n, s) := by
  have hzero : hexValue? '0' = some 0 := by decide
  have hvalue : ((0 * 16 + 0) * 16 + n / 16 % 16) * 16 + n % 16 = n := by omega
  simp only [hex4?, hzero, hexValue?_hexDigit, Option.bind_eq_bind, Option.bind_some, hvalue]
  rfl

theorem codeUnit?_control {n : Nat} (h : n < 32) (s : List Char) :
    codeUnit? n s = some (some (Char.ofNat n), s) := by
  have hlow : ¬ 0xD800 ≤ n := by omega
  have hhigh : ¬ 0xDC00 ≤ n := by omega
  simp [codeUnit?, hlow, hhigh]

/-- An escape with a backslash stands for its character. -/
theorem unescape?_escape {c : Char} (h : escape c ≠ [c]) :
    ∃ e, escape c = '\\' :: e ∧ ∀ s, unescape? (e ++ s) = some (some c, s) := by
  fun_cases escape c with
  | case1 hc => exact ⟨['"'], rfl, fun s => by rw [beq_iff_eq.mp hc]; rfl⟩
  | case2 _ hc => exact ⟨['\\'], rfl, fun s => by rw [beq_iff_eq.mp hc]; rfl⟩
  | case3 _ _ hc => exact ⟨['n'], rfl, fun s => by rw [beq_iff_eq.mp hc]; rfl⟩
  | case4 _ _ _ hc => exact ⟨['r'], rfl, fun s => by rw [beq_iff_eq.mp hc]; rfl⟩
  | case5 _ _ _ _ hc => exact ⟨['t'], rfl, fun s => by rw [beq_iff_eq.mp hc]; rfl⟩
  | case6 _ _ _ _ _ hc =>
    exact ⟨['b'], rfl, fun s => by rw [eq_of_toNat_eq (beq_iff_eq.mp hc)]; rfl⟩
  | case7 _ _ _ _ _ _ hc =>
    exact ⟨['f'], rfl, fun s => by rw [eq_of_toNat_eq (beq_iff_eq.mp hc)]; rfl⟩
  | case8 _ _ _ _ _ _ _ hc =>
    refine ⟨['u', '0', '0', hexDigit (c.toNat / 16), hexDigit c.toNat], rfl, fun s => ?_⟩
    simp only [List.cons_append, List.nil_append, unescape?, hex4?_control hc, Option.bind_some,
      codeUnit?_control hc, Char.ofNat_toNat]
  | case9 h1 h2 h3 h4 h5 h6 h7 h8 => simp [escape, h1, h2, h3, h4, h5, h6, h7, h8] at h

/-- What an escape stands for is read in its place. -/
theorem readQuoted_escape (c : Char) {fuel : Nat} (hfuel : (encode (escape c)).length ≤ fuel)
    (front s : List Char) : ∃ rest, fuel - (encode (escape c)).length ≤ rest ∧
      readQuoted fuel (some front) (encode (escape c) ++ s) =
        readQuoted rest (some ((encode [c]).reverse ++ front)) s := by
  by_cases h : escape c = [c]
  · refine ⟨fuel - (encode [c]).length, Nat.le_of_eq (by rw [h]), ?_⟩
    rw [h] at hfuel ⊢
    have hread := readQuoted_verbatim (verbatim_encode h) (fuel - (encode [c]).length) front s
    rwa [Nat.sub_add_cancel hfuel] at hread
  · obtain ⟨e, hescape, hundo⟩ := unescape?_escape h
    have hbytes : encode (escape c) = '\\' :: e := by
      rw [Text.encode_of_all_ascii (ascii_escape (ascii_of_escape h)), hescape]
    rw [hbytes, List.length_cons] at hfuel
    obtain ⟨rest, rfl⟩ : ∃ rest, fuel = rest + 1 := ⟨fuel - 1, by omega⟩
    refine ⟨rest, by rw [hbytes, List.length_cons]; omega, ?_⟩
    rw [hbytes, List.cons_append, readQuoted, hundo]
    rfl

theorem readQuoted_escaped (rest : List Char) :
    ∀ (s front : List Char) {fuel : Nat}, (encode (s.flatMap escape)).length < fuel →
      readQuoted fuel (some front) (encode (s.flatMap escape) ++ '"' :: rest) =
        some (decode? (front.reverse ++ encode s), rest)
  | [], front, fuel, h => by
    obtain ⟨k, rfl⟩ : ∃ k, fuel = k + 1 := ⟨fuel - 1, by omega⟩
    simp [readQuoted]
  | c :: s, front, fuel, h => by
    rw [List.flatMap_cons, Text.encode_append, List.length_append] at h
    have hfuel : (encode (escape c)).length ≤ fuel := by omega
    obtain ⟨left, hleft, hread⟩ := readQuoted_escape c hfuel front
      (encode (s.flatMap escape) ++ '"' :: rest)
    rw [List.flatMap_cons, Text.encode_append, List.append_assoc, hread,
      readQuoted_escaped rest s _ (by omega), List.reverse_append, List.reverse_reverse,
      List.append_assoc, ← Text.encode_cons]

/-- A quoted text is read as it was. -/
theorem quoted?_quote (s : String) (rest : List Char) :
    quoted? (encode (s.toList.flatMap escape) ++ '"' :: rest) = some (some s, rest) := by
  rw [quoted?, readQuoted_escaped rest s.toList [] (by rw [List.length_append]; omega), List.reverse_nil,
    List.nil_append, Text.decode?_encode, String.ofList_toList]

theorem encode_quote (s : String) :
    encode (quote s).toList = '"' :: (encode (s.toList.flatMap escape) ++ ['"']) := by
  have hquote : encode ['"'] = ['"'] := Text.encode_ascii (by decide)
  have htext : (quote s).toList = ['"'] ++ s.toList.flatMap escape ++ ['"'] := by simp [quote]
  rw [htext, Text.encode_append, Text.encode_append, hquote]
  rfl

/-! ## Numbers -/

/-- No number goes on here. -/
def Stops (s : List Char) : Prop :=
  ∀ c ∈ s.head?, c.isDigit = false ∧ c ≠ '.' ∧ c ≠ 'e' ∧ c ≠ 'E'

theorem stops_cons {c : Char} (h : c.isDigit = false ∧ c ≠ '.' ∧ c ≠ 'e' ∧ c ≠ 'E')
    (s : List Char) : Stops (c :: s) := by
  intro d hd
  rw [List.head?_cons, Option.mem_some_iff] at hd
  exact hd ▸ h

theorem stops_nil : Stops [] := nofun

theorem decimal_toDigits (n : Nat) : decimal (Nat.toDigits 10 n) = n := by
  have h : decimal (Nat.toDigits 10 n) = Nat.ofDigitChars 10 (Nat.toDigits 10 n) 0 := by
    simp only [decimal, Nat.ofDigitChars_eq_foldl, Nat.mul_comm]
  rw [h, Nat.ofDigitChars_ten_toDigits]

theorem isDigit_of_mem {n : Nat} {c : Char} (h : c ∈ Nat.toDigits 10 n) : c.isDigit = true :=
  Nat.isDigit_of_mem_toDigits (by decide) (by decide) h

theorem run_toDigits (n : Nat) {s : List Char} (hs : Stops s) :
    (Nat.toDigits 10 n ++ s).takeWhile Char.isDigit = Nat.toDigits 10 n ∧
      (Nat.toDigits 10 n ++ s).dropWhile Char.isDigit = s := by
  have hall : ∀ c ∈ Nat.toDigits 10 n, c.isDigit = true := fun c hc => isDigit_of_mem hc
  rw [List.takeWhile_append_of_pos hall, List.dropWhile_append_of_pos hall]
  cases s with
  | nil => simp
  | cons c s =>
    have hc := (hs c rfl).1
    simp [hc]

/-- No written number but zero starts with a zero. -/
theorem head?_toDigits {n : Nat} (h : 0 < n) : (Nat.toDigits 10 n).head? ≠ some '0' := by
  by_cases hn : n < 10
  · have hdigit : ∀ k < 10, 0 < k → Nat.digitChar k ≠ '0' := by decide
    rw [Nat.toDigits_of_lt_base hn]
    simpa using hdigit n hn h
  · have ih := head?_toDigits (Nat.div_pos (Nat.le_of_not_lt hn) (by decide))
    rw [Nat.toDigits_of_base_le (by decide) (Nat.le_of_not_lt hn),
      List.head?_append_of_ne_nil _ Nat.toDigits_ne_nil]
    exact ih
termination_by n

/-- A number that is written has no zero too many in front. -/
theorem no_leading_zero (n : Nat) :
    ((Nat.toDigits 10 n).isEmpty || (decide (1 < (Nat.toDigits 10 n).length) &&
      (Nat.toDigits 10 n).head? == some '0')) = false := by
  have hne : (Nat.toDigits 10 n).isEmpty = false := by simp
  rcases Nat.eq_zero_or_pos n with rfl | hn
  · rfl
  · have hhead : ((Nat.toDigits 10 n).head? == some '0') = false :=
      beq_eq_false_iff_ne.mpr (head?_toDigits hn)
    rw [hne, hhead, Bool.and_false, Bool.or_false]

/-- What follows a whole number that goes on no further. -/
theorem number?_of_run {s rest : List Char} {n : Nat} (negative : Bool)
    (hbody : (match s with | '-' :: s => (true, s) | s => (false, s)) =
      (negative, Nat.toDigits 10 n ++ rest)) (hn : negative = true → 0 < n) (hs : Stops rest) :
    number? s = some (.int (if negative then -n else n), rest) := by
  obtain ⟨htake, hdrop⟩ := run_toDigits n hs
  have hzero : (negative && n == 0) = false := by
    cases negative with
    | false => rfl
    | true =>
      have := hn rfl
      simp
      omega
  unfold number?
  split
  next sign body hsign =>
  obtain ⟨rfl, rfl⟩ := Prod.mk.inj (hsign.symm.trans hbody)
  simp only [htake, hdrop, no_leading_zero, Bool.false_eq_true, if_false, decimal_toDigits]
  cases rest with
  | nil => simp [hzero]
  | cons c rest =>
    obtain ⟨-, hdot, he, hE⟩ := hs c rfl
    split
    · next hc => exact absurd (List.cons.inj hc).1 hdot
    · simp [he, hE, hzero]

theorem number?_toString (n : Int) {s : List Char} (hs : Stops s) :
    number? ((toString n).toList ++ s) = some (.int n, s) := by
  rw [Int.toString_eq_repr, Int.repr_eq_if]
  split
  · next hn =>
    rw [Nat.toList_repr]
    obtain ⟨c, cs, hdigits⟩ := List.exists_cons_of_ne_nil
      (Nat.toDigits_ne_nil : Nat.toDigits 10 n.toNat ≠ [])
    have hc : c.isDigit = true := isDigit_of_mem (hdigits ▸ List.mem_cons_self)
    rw [number?_of_run false (n := n.toNat) ?_ (by simp) hs]
    · simp [Int.toNat_of_nonneg hn]
    · rw [hdigits]
      split
      · next hminus =>
        rw [(List.cons.inj hminus).1] at hc
        exact absurd hc (by decide)
      · rfl
  · next hn =>
    have hpos : 0 < (-n).toNat := by omega
    rw [String.toList_append, Nat.toList_repr]
    rw [number?_of_run true (n := (-n).toNat) ?_ (fun _ => hpos) hs]
    · simp
      omega
    · rfl

/-! ## Blanks in front of values -/

theorem readValue_blank {b : List Char} (hb : ∀ c ∈ b, isSpace c = true) (fuel : Nat)
    (s : List Char) : readValue fuel (b ++ s) = readValue fuel s := by
  cases fuel with
  | zero => rfl
  | succ fuel => rw [readValue, readValue, skip_append hb]

theorem readItems_blank {b : List Char} (hb : ∀ c ∈ b, isSpace c = true) (fuel : Nat)
    (s : List Char) : readItems fuel (b ++ s) = readItems fuel s := by
  cases fuel with
  | zero => rfl
  | succ fuel => rw [readItems, readItems, readValue_blank hb]

theorem readFields_blank {b : List Char} (hb : ∀ c ∈ b, isSpace c = true) (fuel : Nat)
    (s : List Char) : readFields fuel (b ++ s) = readFields fuel s := by
  cases fuel with
  | zero => rfl
  | succ fuel => rw [readFields, readFields, skip_append hb]

/-! ## Layouts -/

/-- How the parts of a tree are set apart: what stands in front of an item at a depth, and what
stands between a name and its value. All of it is blank. -/
structure Layout where
  line : Nat → List Char
  colon : List Char
  isSpace_line : ∀ depth, ∀ c ∈ line depth, isSpace c = true
  isSpace_colon : ∀ c ∈ colon, isSpace c = true

/-- A text between quotes, as bytes. -/
def quotedBytes (s : String) : List Char := '"' :: (encode (s.toList.flatMap escape) ++ ['"'])

namespace Layout

mutual

/-- A tree as bytes; what it holds is one level deeper. -/
def value (l : Layout) (depth : Nat) : Data → List Char
  | .null => ['n', 'u', 'l', 'l']
  | .bool b => if b then ['t', 'r', 'u', 'e'] else ['f', 'a', 'l', 's', 'e']
  | .int n => (toString n).toList
  | .real digits => encode digits.toList
  | .moment digits => quotedBytes digits
  | .text s => quotedBytes s
  | .list [] => ['[', ']']
  | .list (d :: ds) =>
    '[' :: (l.line (depth + 1) ++ (l.value (depth + 1) d ++ (l.items (depth + 1) ds ++
      (l.line depth ++ [']']))))
  | .record [] => ['\x7b', '\x7d']
  | .record ((k, d) :: fs) =>
    '\x7b' :: (l.line (depth + 1) ++ (quotedBytes k ++ ':' :: (l.colon ++
      (l.value (depth + 1) d ++ (l.fields (depth + 1) fs ++ (l.line depth ++ ['\x7d']))))))
  | .garbled => ['n', 'u', 'l', 'l']

/-- The items of a list after the first one, as bytes. -/
def items (l : Layout) (depth : Nat) : List Data → List Char
  | [] => []
  | d :: ds => ',' :: (l.line depth ++ (l.value depth d ++ l.items depth ds))

/-- The fields of a record after the first one, as bytes. -/
def fields (l : Layout) (depth : Nat) : List (String × Data) → List Char
  | [] => []
  | (k, d) :: fs =>
    ',' :: (l.line depth ++ (quotedBytes k ++ ':' :: (l.colon ++ (l.value depth d ++
      l.fields depth fs))))

end

/-- Every item stands on a line of its own. -/
def pretty : Layout where
  line depth := encode (newLine depth).toList
  colon := [' ']
  isSpace_line := isSpace_newLine
  isSpace_colon := by simp [isSpace]

/-- Everything stands on one line. -/
def compact : Layout where
  line _ := []
  colon := []
  isSpace_line := by simp
  isSpace_colon := by simp

end Layout

theorem encode_toString (n : Int) : encode (toString n).toList = (toString n).toList := by
  have hdigits : ∀ k c, c ∈ Nat.toDigits 10 k → c.toNat < 128 := by
    intro k c hc
    have hdigit := isDigit_of_mem hc
    simp only [Char.isDigit, Bool.and_eq_true, decide_eq_true_eq] at hdigit
    have hle : c.toNat ≤ 57 := hdigit.2
    omega
  refine Text.encode_of_ascii fun c hc => ?_
  rw [Int.toString_eq_repr, Int.repr_eq_if] at hc
  split at hc
  · rw [Nat.toList_repr] at hc
    exact hdigits _ c hc
  · rw [String.toList_append, Nat.toList_repr, List.mem_append] at hc
    rcases hc with hc | hc
    · obtain rfl : c = '-' := by simpa using hc
      decide
    · exact hdigits _ c hc

/-- Marks between the parts of a tree, as bytes. -/
theorem encode_marks : encode "[".toList = ['['] ∧ encode "]".toList = [']'] ∧
    encode "\x7b".toList = ['\x7b'] ∧ encode "\x7d".toList = ['\x7d'] ∧
    encode ",".toList = [','] ∧ encode ":".toList = [':'] ∧ encode ": ".toList = [':', ' '] := by
  refine ⟨?_, ?_, ?_, ?_, ?_, ?_, ?_⟩ <;> exact Text.encode_of_all_ascii (by decide)

mutual

theorem encode_prettyAt : ∀ (d : Data) (depth : Nat),
    encode (prettyAt depth d).toList = Layout.pretty.value depth d
  | .null, depth | .garbled, depth | .list [], depth | .record [], depth | .bool true, depth
  | .bool false, depth => by
    rw [prettyAt, Layout.value]
    exact Text.encode_of_all_ascii (by decide)
  | .int n, depth => by
    rw [prettyAt, Layout.value, encode_toString]
  | .real digits, depth => by
    rw [prettyAt, Layout.value]
  | .moment s, depth | .text s, depth => by
    rw [prettyAt, Layout.value, encode_quote, quotedBytes]
  | .list (d :: ds), depth => by
    rw [prettyAt, Layout.value]
    simp only [String.toList_append, Text.encode_append, encode_marks, encode_prettyAt d,
      encode_prettyItems ds, List.append_assoc]
    rfl
  | .record ((k, d) :: fs), depth => by
    rw [prettyAt, Layout.value, quotedBytes, ← encode_quote]
    simp only [String.toList_append, Text.encode_append, encode_marks, encode_prettyAt d,
      encode_prettyFields fs, List.append_assoc]
    rfl

theorem encode_prettyItems : ∀ (ds : List Data) (depth : Nat),
    encode (prettyItems depth ds).toList = Layout.pretty.items depth ds
  | [], depth => by
    rw [prettyItems, Layout.items]
    exact Text.encode_nil
  | d :: ds, depth => by
    rw [prettyItems, Layout.items]
    simp only [String.toList_append, Text.encode_append, encode_marks, encode_prettyAt d,
      encode_prettyItems ds, List.append_assoc]
    rfl

theorem encode_prettyFields : ∀ (fs : List (String × Data)) (depth : Nat),
    encode (prettyFields depth fs).toList = Layout.pretty.fields depth fs
  | [], depth => by
    rw [prettyFields, Layout.fields]
    exact Text.encode_nil
  | (k, d) :: fs, depth => by
    rw [prettyFields, Layout.fields, quotedBytes, ← encode_quote]
    simp only [String.toList_append, Text.encode_append, encode_marks, encode_prettyAt d,
      encode_prettyFields fs, List.append_assoc]
    rfl

end

mutual

theorem encode_compact : ∀ (d : Data) (depth : Nat),
    encode (compact d).toList = Layout.compact.value depth d
  | .null, depth | .garbled, depth | .list [], depth | .record [], depth | .bool true, depth
  | .bool false, depth => by
    rw [compact, Layout.value]
    exact Text.encode_of_all_ascii (by decide)
  | .int n, depth => by
    rw [compact, Layout.value, encode_toString]
  | .real digits, depth => by
    rw [compact, Layout.value]
  | .moment s, depth | .text s, depth => by
    rw [compact, Layout.value, encode_quote, quotedBytes]
  | .list (d :: ds), depth => by
    have hitems := encode_compactItems ds d (depth + 1) (encode_compact d (depth + 1))
    rw [compact, Layout.value]
    simp only [String.toList_append, Text.encode_append, encode_marks, hitems, List.append_assoc]
    rfl
  | .record ((k, d) :: fs), depth => by
    have hfields := encode_compactFields fs k d (depth + 1) (encode_compact d (depth + 1))
    rw [compact, Layout.value]
    simp only [String.toList_append, Text.encode_append, encode_marks, hfields, List.append_assoc,
      List.cons_append]
    rfl

theorem encode_compactItems : ∀ (ds : List Data) (d : Data) (depth : Nat),
    encode (compact d).toList = Layout.compact.value depth d →
      encode (compactItems (d :: ds)).toList =
        Layout.compact.value depth d ++ Layout.compact.items depth ds
  | [], d, depth, hd => by
    rw [compactItems, Layout.items, hd, List.append_nil]
  | e :: ds, d, depth, hd => by
    have hitems := encode_compactItems ds e depth (encode_compact e depth)
    rw [compactItems, Layout.items]
    · simp only [String.toList_append, Text.encode_append, encode_marks, hd, hitems,
        List.append_assoc]
      rfl
    · simp

theorem encode_compactFields : ∀ (fs : List (String × Data)) (k : String) (d : Data) (depth : Nat),
    encode (compact d).toList = Layout.compact.value depth d →
      encode (compactFields ((k, d) :: fs)).toList =
        quotedBytes k ++ ':' :: (Layout.compact.value depth d ++ Layout.compact.fields depth fs)
  | [], k, d, depth, hd => by
    rw [compactFields, Layout.fields, quotedBytes, ← encode_quote]
    simp only [String.toList_append, Text.encode_append, encode_marks, hd, List.append_assoc,
      List.append_nil]
    rfl
  | (e, v) :: fs, k, d, depth, hd => by
    have hfields := encode_compactFields fs e v depth (encode_compact v depth)
    rw [compactFields, Layout.fields, quotedBytes, ← encode_quote]
    · simp only [String.toList_append, Text.encode_append, encode_marks, hd, hfields,
        List.append_assoc]
      rfl
    · simp

end

/-! ## Values -/

theorem exists_toString (n : Int) :
    ∃ c s, (toString n).toList = c :: s ∧ (c = '-' ∨ c.isDigit = true) := by
  rw [Int.toString_eq_repr, Int.repr_eq_if]
  split
  · obtain ⟨c, s, hdigits⟩ := List.exists_cons_of_ne_nil
      (Nat.toDigits_ne_nil : Nat.toDigits 10 n.toNat ≠ [])
    have hc : c.isDigit = true := isDigit_of_mem (hdigits ▸ List.mem_cons_self)
    exact ⟨c, s, by rw [Nat.toList_repr, hdigits], Or.inr hc⟩
  · exact ⟨'-', (-n).toNat.repr.toList, by simp, Or.inl rfl⟩

theorem not_isDigit_of_isSpace {c : Char} (h : isSpace c = true) : c.isDigit = false := by
  simp only [isSpace, Bool.or_eq_true, beq_iff_eq] at h
  rcases h with ((rfl | rfl) | rfl) | rfl <;> rfl

theorem stops_of_isSpace {b : List Char} (hb : ∀ c ∈ b, isSpace c = true) {s : List Char}
    (hs : Stops s) : Stops (b ++ s) := by
  cases b with
  | nil => exact hs
  | cons c b =>
    have hc := hb c List.mem_cons_self
    refine stops_cons ⟨not_isDigit_of_isSpace hc, ?_, ?_, ?_⟩ _ <;> rintro rfl <;>
      exact absurd hc (by decide)

theorem mapM_named (fs : List (String × Data)) :
    (fs.map fun f => (some f.1, f.2)).mapM (fun (k, d) => k.map fun k => (k, d)) = some fs := by
  induction fs with
  | nil => rfl
  | cons f fs ih =>
    rw [List.map_cons, List.mapM_cons, ih]
    rfl

theorem recordData_named (fs : List (String × Data)) :
    recordData (fs.map fun f => (some f.1, f.2)) = .record fs := by
  rw [recordData, mapM_named]

namespace Layout

variable (l : Layout)

/-- A value starts with a character that is no blank and closes nothing. -/
theorem exists_value (depth : Nat) {d : Data} (h : d.Plain) :
    ∃ c s, l.value depth d = c :: s ∧ isSpace c = false ∧ c ≠ ']' := by
  cases d with
  | null => exact ⟨'n', _, rfl, rfl, by decide⟩
  | bool b =>
    cases b with
    | true => exact ⟨'t', _, rfl, rfl, by decide⟩
    | false => exact ⟨'f', _, rfl, rfl, by decide⟩
  | int n =>
    obtain ⟨c, s, hs, rfl | hdigit⟩ := exists_toString n
    · exact ⟨'-', s, hs, rfl, by decide⟩
    · refine ⟨c, s, hs, ?_, ?_⟩
      · rw [Bool.eq_false_iff]
        intro hspace
        simp [not_isDigit_of_isSpace hspace] at hdigit
      · rintro rfl
        exact absurd hdigit (by decide)
  | text s => exact ⟨'"', _, rfl, rfl, by decide⟩
  | list items =>
    cases items with
    | nil => exact ⟨'[', _, rfl, rfl, by decide⟩
    | cons d ds => exact ⟨'[', _, rfl, rfl, by decide⟩
  | record fields =>
    cases fields with
    | nil => exact ⟨'\x7b', _, rfl, rfl, by decide⟩
    | cons f fs => exact ⟨'\x7b', _, rfl, rfl, by decide⟩
  | real | moment | garbled => exact absurd h (by simp [Data.Plain])

/-- The tree is read as it was, whatever follows that does not go on with a number. -/
def ReadsBack (depth : Nat) (d : Data) : Prop :=
  ∀ (fuel : Nat) (rest : List Char), Stops rest → 2 * (l.value depth d).length ≤ fuel →
    readValue fuel (l.value depth d ++ rest) = some (d, rest)

theorem skip_line (depth : Nat) (s : List Char) : skip (l.line depth ++ s) = skip s :=
  skip_append (l.isSpace_line depth) s

theorem stops_items (depth k : Nat) (ds : List Data) (s : List Char) :
    Stops (l.items depth ds ++ (l.line k ++ ']' :: s)) := by
  cases ds with
  | nil => exact stops_of_isSpace (l.isSpace_line k) (stops_cons (by decide) s)
  | cons d ds => exact stops_cons (by decide) _

theorem stops_fields (depth k : Nat) (fs : List (String × Data)) (s : List Char) :
    Stops (l.fields depth fs ++ (l.line k ++ '\x7d' :: s)) := by
  cases fs with
  | nil => exact stops_of_isSpace (l.isSpace_line k) (stops_cons (by decide) s)
  | cons f fs => exact stops_cons (by decide) _

theorem readsBack_int (depth : Nat) (n : Int) : l.ReadsBack depth (.int n) := by
  intro fuel rest hrest hfuel
  rw [value] at hfuel ⊢
  obtain ⟨c, s, hs, hc⟩ := exists_toString n
  have hnumber := number?_toString n hrest
  rw [hs] at hnumber hfuel ⊢
  rw [List.length_cons] at hfuel
  obtain ⟨k, rfl⟩ : ∃ k, fuel = k + 1 := ⟨fuel - 1, by omega⟩
  have hspace : isSpace c = false := by
    rcases hc with rfl | hdigit
    · rfl
    · rw [Bool.eq_false_iff]
      intro hspace
      simp [not_isDigit_of_isSpace hspace] at hdigit
  rw [List.cons_append, readValue, skip_cons hspace]
  rw [List.cons_append] at hnumber
  have hne : ∀ d : Char, d.isDigit = false → d ≠ '-' → c ≠ d := by
    rintro d hd hminus rfl
    rcases hc with rfl | hdigit
    · exact hminus rfl
    · simp [hd] at hdigit
  split
  all_goals first
    | exact hnumber
    | next heq => exact absurd (List.cons.inj heq).1 (hne _ (by decide) (by decide))

/-- A field is read after its name. -/
theorem readFields_name (name : String) (fuel : Nat) (s : List Char) :
    readFields (fuel + 1) (quotedBytes name ++ ':' :: (l.colon ++ s)) =
      match readValue fuel s with
      | none => none
      | some (d, s) =>
        match skip s with
        | '\x7d' :: s => some ([(some name, d)], s)
        | ',' :: s => (readFields fuel s).map fun (fs, s) => ((some name, d) :: fs, s)
        | _ => none := by
  have hquoted := quoted?_quote name (':' :: (l.colon ++ s))
  have hvalue := readValue_blank l.isSpace_colon fuel s
  rw [quotedBytes, readFields, List.cons_append, skip_cons (by decide)]
  simp only [List.append_assoc, List.cons_append, List.nil_append, hquoted,
    skip_cons (show isSpace ':' = false by decide)]
  exact hvalue ▸ rfl

mutual

/-- Every plain tree is read as it was. -/
theorem readsBack : ∀ (d : Data) (depth : Nat), d.Plain → l.ReadsBack depth d
  | .null, depth, _ | .bool true, depth, _ | .bool false, depth, _ | .list [], depth, _
  | .record [], depth, _ => by
    intro fuel rest _ hfuel
    rw [value] at hfuel ⊢
    obtain ⟨k, rfl⟩ : ∃ k, fuel = k + 1 := ⟨fuel - 1, by simp at hfuel; omega⟩
    rw [readValue]
    rfl
  | .int n, depth, _ => l.readsBack_int depth n
  | .text s, depth, _ => by
    intro fuel rest _ hfuel
    rw [value, quotedBytes] at hfuel ⊢
    obtain ⟨k, rfl⟩ : ∃ k, fuel = k + 1 := ⟨fuel - 1, by simp at hfuel; omega⟩
    have hquoted := quoted?_quote s rest
    rw [List.cons_append, List.append_assoc, List.singleton_append, readValue,
      skip_cons (by decide)]
    simp only [hquoted]
    rfl
  | .list (d :: ds), depth, h => by
    intro fuel rest _ hfuel
    have hitems := readItems_items ds d (depth + 1) depth (readsBack d (depth + 1) h.1) h.2
    obtain ⟨c, s, hs, hspace, hclose⟩ := l.exists_value (depth + 1) h.1
    rw [value] at hfuel ⊢
    obtain ⟨k, rfl⟩ : ∃ k, fuel = k + 1 := ⟨fuel - 1, by simp at hfuel; omega⟩
    have hitems := hitems k rest (by simp at hfuel ⊢; omega)
    rw [hs, List.cons_append] at hitems
    simp only [List.cons_append, List.append_assoc, List.nil_append]
    rw [readValue, skip_cons (by decide)]
    simp only [skip_line, hs, List.cons_append, skip_cons hspace]
    split
    · next heq => exact absurd (List.cons.inj heq).1 hclose
    · rw [hitems]
      rfl
  | .record ((name, d) :: fs), depth, h => by
    intro fuel rest _ hfuel
    have hfields := readFields_fields fs name d (depth + 1) depth (readsBack d (depth + 1) h.1) h.2
    rw [value] at hfuel ⊢
    obtain ⟨k, rfl⟩ : ∃ k, fuel = k + 1 := ⟨fuel - 1, by simp at hfuel; omega⟩
    have hfields := hfields k rest (by simp at hfuel ⊢; omega)
    simp only [List.cons_append, List.append_assoc, List.nil_append]
    rw [readValue, skip_cons (by decide)]
    rw [quotedBytes, List.cons_append] at hfields
    simp only [skip_line, quotedBytes, List.cons_append,
      skip_cons (show isSpace '"' = false by decide)]
    split
    · next heq => exact absurd (List.cons.inj heq).1 (by decide)
    · rw [hfields, Option.map_some, recordData_named]
  | .real _, _, h | .moment _, _, h | .garbled, _, h => by simp [Data.Plain] at h

theorem readItems_items : ∀ (ds : List Data) (d : Data) (depth k : Nat), l.ReadsBack depth d →
    Data.PlainItems ds → ∀ (fuel : Nat) (rest : List Char),
      2 * (l.value depth d ++ (l.items depth ds ++ (l.line k ++ [']']))).length < fuel →
        readItems fuel (l.value depth d ++ (l.items depth ds ++ (l.line k ++ ']' :: rest))) =
          some (d :: ds, rest)
  | [], d, depth, k, hd, _, fuel, rest, hfuel => by
    obtain ⟨left, rfl⟩ : ∃ left, fuel = left + 1 := ⟨fuel - 1, by omega⟩
    rw [List.length_append] at hfuel
    rw [readItems, hd left _ (l.stops_items depth k [] rest) (by omega), items, List.nil_append]
    simp only [skip_line, skip_cons (show isSpace ']' = false by decide)]
  | e :: ds, d, depth, k, hd, hds, fuel, rest, hfuel => by
    obtain ⟨left, rfl⟩ : ∃ left, fuel = left + 1 := ⟨fuel - 1, by omega⟩
    rw [List.length_append] at hfuel
    rw [readItems, hd left _ (l.stops_items depth k (e :: ds) rest) (by omega)]
    rw [items] at hfuel ⊢
    have ih := readItems_items ds e depth k (readsBack e depth hds.1) hds.2 left rest
      (by simp at hfuel ⊢; omega)
    simp only [List.cons_append, List.append_assoc, skip_cons (show isSpace ',' = false by decide)]
    rw [readItems_blank (l.isSpace_line depth), ih]
    rfl

theorem readFields_fields : ∀ (fs : List (String × Data)) (name : String) (d : Data)
    (depth k : Nat), l.ReadsBack depth d → Data.PlainFields fs → ∀ (fuel : Nat) (rest : List Char),
      2 * (quotedBytes name ++ ':' :: (l.colon ++ (l.value depth d ++ (l.fields depth fs ++
        (l.line k ++ ['\x7d']))))).length < fuel →
        readFields fuel (quotedBytes name ++ ':' :: (l.colon ++ (l.value depth d ++
          (l.fields depth fs ++ (l.line k ++ '\x7d' :: rest))))) =
          some (((name, d) :: fs).map fun f => (some f.1, f.2), rest)
  | [], name, d, depth, k, hd, _, fuel, rest, hfuel => by
    obtain ⟨left, rfl⟩ : ∃ left, fuel = left + 1 := ⟨fuel - 1, by omega⟩
    have hvalue := hd left _ (l.stops_fields depth k [] rest) (by simp at hfuel ⊢; omega)
    rw [readFields_name, hvalue, fields, List.nil_append]
    simp only [skip_line, skip_cons (show isSpace '\x7d' = false by decide)]
    rfl
  | (e, v) :: fs, name, d, depth, k, hd, hfs, fuel, rest, hfuel => by
    obtain ⟨left, rfl⟩ : ∃ left, fuel = left + 1 := ⟨fuel - 1, by omega⟩
    have hvalue := hd left _ (l.stops_fields depth k ((e, v) :: fs) rest)
      (by simp at hfuel ⊢; omega)
    rw [readFields_name, hvalue]
    rw [fields] at hfuel ⊢
    have ih := readFields_fields fs e v depth k (readsBack v depth hfs.1) hfs.2 left rest
      (by simp at hfuel ⊢; omega)
    simp only [List.cons_append, List.append_assoc, skip_cons (show isSpace ',' = false by decide)]
    rw [readFields_blank (l.isSpace_line depth), ih]
    rfl

end

/-- What is written in a layout is read as it was, blanks in front or not. -/
theorem readBytes?_of_value {d : Data} (h : d.Plain) {blank : List Char}
    (hblank : ∀ c ∈ blank, isSpace c = true) {bytes : ByteArray}
    (hbytes : Text.ofBytes bytes = blank ++ l.value 0 d) : readBytes? bytes = some d := by
  have hread := l.readsBack d 0 h (2 * (blank ++ l.value 0 d).length + 2) [] stops_nil
    (by rw [List.length_append]; omega)
  rw [List.append_nil] at hread
  rw [readBytes?, hbytes, readValue_blank hblank, hread]
  rfl

end Layout

/-- What is written over several lines is read as it was. -/
theorem readBytes?_pretty {d : Data} (h : d.Plain) : readBytes? (pretty d).toUTF8 = some d :=
  have hblank : ∀ c ∈ ([] : List Char), isSpace c = true := by simp
  Layout.pretty.readBytes?_of_value h hblank
    (by rw [Text.encode_toUTF8, pretty, encode_prettyAt, List.nil_append])

/-- What is written on one line is read as it was, blanks in front or not. -/
theorem read?_compact {d : Data} (h : d.Plain) {blank : List Char}
    (hblank : ∀ c ∈ blank, isSpace c = true) :
    read? (String.ofList (blank ++ (compact d).toList)) = some d := by
  have hascii : ∀ c ∈ blank, c.toNat < 128 := by
    intro c hc
    have hspace := hblank c hc
    simp only [isSpace, Bool.or_eq_true, beq_iff_eq] at hspace
    rcases hspace with ((rfl | rfl) | rfl) | rfl <;> decide
  refine Layout.compact.readBytes?_of_value h hblank ?_
  rw [Text.encode_toUTF8, String.toList_ofList, Text.encode_append, Text.encode_of_ascii hascii,
    encode_compact d 0]

/-- A record that breaks off after its first field is not read. -/
theorem read?_unclosed (name : String) {d : Data} (h : d.Plain) :
    read? (String.ofList ('\x7b' :: ((quote name).toList ++ ':' :: (compact d).toList))) = none := by
  obtain ⟨s, hs⟩ : ∃ s, s = quotedBytes name ++ ':' :: (Layout.compact.value 0 d ++ []) :=
    ⟨_, rfl⟩
  have hbytes : Text.ofBytes (String.ofList ('\x7b' :: ((quote name).toList ++
      ':' :: (compact d).toList))).toUTF8 = '\x7b' :: s := by
    rw [Text.encode_toUTF8, String.toList_ofList, Text.encode_cons, Text.encode_append,
      encode_quote, Text.encode_cons ':', encode_compact d 0, Text.encode_ascii (by decide),
      Text.encode_ascii (by decide), hs, List.append_nil]
    rfl
  have hfields : readFields (2 * s.length + 3) s = none := by
    have hname := Layout.compact.readFields_name name (2 * s.length + 2)
      (Layout.compact.value 0 d ++ [])
    rw [Layout.compact.readsBack d 0 h _ [] stops_nil (by simp [hs]; omega)] at hname
    rw [hs]
    rw [hs] at hname
    exact hname
  have hvalue : readValue (2 * s.length + 4) ('\x7b' :: s) = none := by
    rw [readValue, skip_cons (by decide)]
    have hquote : skip s = s := by
      rw [hs, quotedBytes, List.cons_append, skip_cons (by decide)]
    simp only [hquote]
    split
    · rw [quotedBytes, List.cons_append] at hs
      exact absurd (List.cons.inj hs).1 (by decide)
    · rw [hfields, Option.map_none]
  have hlength : 2 * ('\x7b' :: s).length + 2 = 2 * s.length + 4 := by
    rw [List.length_cons]
    omega
  rw [read?, readBytes?, hbytes]
  simp only [hlength, hvalue]

/-! ## One line -/

theorem newline_not_mem_quote (s : String) : '\n' ∉ (quote s).toList := by
  have hescape : ∀ c : Char, '\n' ∉ escape c := by
    intro c hc
    by_cases h : escape c = [c]
    · obtain rfl : '\n' = c := by simpa [h] using hc
      exact absurd h (by decide)
    · have hsmall : ∀ k < 128, '\n' ∉ escape (Char.ofNat k) := by decide
      have := hsmall c.toNat (ascii_of_escape h)
      rw [Char.ofNat_toNat] at this
      exact this hc
  simp [quote, hescape]

theorem newline_not_mem_toString (n : Int) : '\n' ∉ (toString n).toList := by
  have hdigits : ∀ k, '\n' ∉ Nat.toDigits 10 k := fun k hmem => by
    simpa using isDigit_of_mem hmem
  rw [Int.toString_eq_repr, Int.repr_eq_if]
  split <;> simp [hdigits]

mutual

theorem newline_not_mem_compact : ∀ {d : Data}, d.Plain → '\n' ∉ (compact d).toList
  | .null, _ | .bool true, _ | .bool false, _ => by simp [compact]
  | .int n, _ => by
    rw [compact]
    exact newline_not_mem_toString n
  | .text s, _ => by
    rw [compact]
    exact newline_not_mem_quote s
  | .list items, h => by simp [compact, newline_not_mem_compactItems h]
  | .record fields, h => by simp [compact, newline_not_mem_compactFields h]
  | .real _, h | .moment _, h | .garbled, h => by simp [Data.Plain] at h

theorem newline_not_mem_compactItems :
    ∀ {ds : List Data}, Data.PlainItems ds → '\n' ∉ (compactItems ds).toList
  | [], _ => by simp [compactItems]
  | [d], h => by
    rw [compactItems]
    exact newline_not_mem_compact h.1
  | d :: e :: ds, h => by
    have hrest : '\n' ∉ (compactItems (e :: ds)).toList := newline_not_mem_compactItems h.2
    simp [compactItems, newline_not_mem_compact h.1, hrest]

theorem newline_not_mem_compactFields :
    ∀ {fs : List (String × Data)}, Data.PlainFields fs → '\n' ∉ (compactFields fs).toList
  | [], _ => by simp [compactFields]
  | [(k, d)], h => by
    simp [compactFields, newline_not_mem_quote, newline_not_mem_compact h.1]
  | (k, d) :: f :: fs, h => by
    have hrest : '\n' ∉ (compactFields (f :: fs)).toList := newline_not_mem_compactFields h.2
    simp [compactFields, newline_not_mem_quote, newline_not_mem_compact h.1, hrest]

end

end Json

end Mend
