import Mend.Pattern.Search
import Mend.Proofs.Checked.Basic
import Mend.Proofs.Text.Bytes
import Mend.Proofs.Text.Mask
import Mend.Proofs.Text.Offset

/-!
# The lexer, byte by byte

The lexer reads characters (`Text.Mask.steps`). Here it reads bytes: it walks over them by index and
finds the ranges of bytes that are hidden (`Checked.scan`). An index that is out of range is
refused, and so is a step that does not go on. Nothing is refused, and the ranges are those of the
steps (`Checked.scan_eq`).

All that the lexer looks for is below U+0080, and the bytes of other characters are above. So a walk
that ends up inside a character goes on to its end (`Upto.skip`).
-/

namespace Mend.Checked

open Text (BadOffset encode width)
open Text.Mask (Step)

/-! ## A place among the bytes -/

theorem size_of_ascii {c : Char} (h : c.toNat < 128) : c.utf8Size = 1 :=
  Char.utf8Size_eq_one_iff.mpr (Nat.le_of_lt_succ h)

/-- From the place on, the bytes are those of the text. -/
def Upto (bytes : List Char) (i : Nat) (s : List Char) : Prop :=
  ∃ front, bytes = front ++ encode s ∧ front.length = i

namespace Upto

variable {bytes s t : List Char} {c : Char} {i : Nat}

theorem length_eq (h : Upto bytes i s) : bytes.length = i + width s := by
  obtain ⟨front, rfl, rfl⟩ := h
  rw [List.length_append, Text.length_encode]

theorem drop_eq (h : Upto bytes i s) : bytes.drop i = encode s := by
  obtain ⟨front, rfl, rfl⟩ := h
  exact List.drop_left' rfl

theorem append (h : Upto bytes i (s ++ t)) : Upto bytes (i + width s) t := by
  obtain ⟨front, rfl, rfl⟩ := h
  exact ⟨front ++ encode s, by rw [Text.encode_append, List.append_assoc],
    by rw [List.length_append, Text.length_encode]⟩

theorem next (h : Upto bytes i (c :: s)) : Upto bytes (i + c.utf8Size) s := by
  have := append (s := [c]) h
  rwa [width, width, Nat.add_zero] at this

theorem next_ascii (h : Upto bytes i (c :: s)) (hc : c.toNat < 128) : Upto bytes (i + 1) s :=
  size_of_ascii hc ▸ h.next

theorem get_of_lt (h : Upto bytes i (c :: s)) {k : Nat} (hk : k < c.utf8Size) :
    bytes[i + k]? = (encode [c])[k]? := by
  have hlength : k < (encode [c]).length := by
    rw [Text.length_encode]
    simpa [width] using hk
  rw [← List.getElem?_drop, h.drop_eq, Text.encode_cons, List.getElem?_append_left hlength]

theorem get (h : Upto bytes i (c :: s)) (hc : c.toNat < 128) : bytes[i]? = some c := by
  have := h.get_of_lt c.utf8Size_pos
  rwa [Nat.add_zero, Text.encode_ascii hc] at this

theorem get_iff (h : Upto bytes i s) {a : Char} (ha : a.toNat < 128) :
    bytes[i]? = some a ↔ s.head? = some a := by
  have hsingle (t : List Char) : t.head? = some a ↔ [a] <+: t := by
    cases t <;> simp [eq_comm]
  rw [← List.head?_drop, h.drop_eq, hsingle, hsingle, Text.prefix_encode (by simpa using ha)]

/-- A character above U+007F has high bytes only. -/
theorem high (h : Upto bytes i (c :: s)) (hc : ¬ c.toNat < 128) {k : Nat} (hk : k < c.utf8Size) :
    ∃ b, bytes[i + k]? = some b ∧ 128 ≤ b.toNat := by
  have hlength : k < (encode [c]).length := by
    rw [Text.length_encode]
    simpa [width] using hk
  exact ⟨_, (h.get_of_lt hk).trans (List.getElem?_eq_getElem hlength),
    Text.le_of_mem_encode hc (List.getElem_mem hlength)⟩

/-- A walk that goes over every high byte goes on to the end of a character that has them. -/
theorem skip {α : Type} {f : Nat → α} (h : Upto bytes i (c :: s)) (hc : ¬ c.toNat < 128)
    (hf : ∀ j b, bytes[j]? = some b → 128 ≤ b.toNat → f j = f (j + 1)) :
    ∀ k ≤ c.utf8Size, f (i + k) = f (i + c.utf8Size) := by
  have hlast : ∀ n k, k + n = c.utf8Size → f (i + k) = f (i + c.utf8Size) := by
    intro n
    induction n with
    | zero =>
      intro k hk
      rw [← hk, Nat.add_zero]
    | succ n ih =>
      intro k hk
      obtain ⟨b, hget, hb⟩ := h.high hc (show k < c.utf8Size by omega)
      rw [hf _ _ hget hb, Nat.add_assoc, ih (k + 1) (by omega)]
  intro k hk
  exact hlast (c.utf8Size - k) k (by omega)

theorem skip_rest {α : Type} {f : Nat → α} (h : Upto bytes i (c :: s))
    (hf : ∀ j b, bytes[j]? = some b → 128 ≤ b.toNat → f j = f (j + 1)) :
    f (i + 1) = f (i + c.utf8Size) := by
  by_cases hc : c.toNat < 128
  · rw [size_of_ascii hc]
  · exact h.skip hc hf 1 c.utf8Size_pos

theorem skip_all {α : Type} {f : Nat → α} (h : Upto bytes i (c :: s))
    (hf : ∀ j b, bytes[j]? = some b → 128 ≤ b.toNat → f j = f (j + 1))
    (hascii : c.toNat < 128 → f i = f (i + 1)) : f i = f (i + c.utf8Size) := by
  by_cases hc : c.toNat < 128
  · rw [size_of_ascii hc, hascii hc]
  · exact h.skip hc hf 0 (Nat.zero_le _)

end Upto

/-! ## Strings -/

/-- The end of the body of a string. -/
def stringEnd (bytes : List Char) (quote : Char) (multiline : Bool) (i : Nat) :
    Except BadOffset Nat :=
  if i < bytes.length then do
    let b ← itemAt i bytes
    if b = '\\' then stringEnd bytes quote multiline (i + 2)
    else if (b = '\n' && !multiline) || b = quote then pure i
    else stringEnd bytes quote multiline (i + 1)
  else .ok bytes.length
termination_by bytes.length - i

section

variable {bytes s : List Char} {quote : Char} {multiline : Bool} {i : Nat}

theorem stringEnd_end (h : bytes.length ≤ i) :
    stringEnd bytes quote multiline i = .ok bytes.length := by
  rw [stringEnd, if_neg (Nat.not_lt.mpr h)]

theorem stringEnd_get {b : Char} (h : bytes[i]? = some b) : stringEnd bytes quote multiline i =
    if b = '\\' then stringEnd bytes quote multiline (i + 2)
    else if (b = '\n' && !multiline) || b = quote then .ok i
    else stringEnd bytes quote multiline (i + 1) := by
  have hlt : i < bytes.length := (List.getElem?_eq_some_iff.mp h).1
  rw [stringEnd, if_pos hlt, itemAt_eq h]
  rfl

theorem stringEnd_high (hquote : quote.toNat < 128) (j : Nat) (b : Char) (h : bytes[j]? = some b)
    (hb : 128 ≤ b.toNat) :
    stringEnd bytes quote multiline j = stringEnd bytes quote multiline (j + 1) := by
  have hslash : b ≠ '\\' := Text.ne_of_high (by decide) hb
  have hline : b ≠ '\n' := Text.ne_of_high (by decide) hb
  have hend : b ≠ quote := Text.ne_of_high hquote hb
  rw [stringEnd_get h, if_neg hslash, if_neg (by simp [hline, hend])]

theorem stringEnd_eq (hquote : quote.toNat < 128) (h : Upto bytes i s) :
    stringEnd bytes quote multiline i =
      .ok (i + width (Text.Mask.stringBody quote multiline s).1) := by
  fun_induction Text.Mask.stringBody quote multiline s generalizing i with
  | case1 =>
    have hlength : bytes.length = i := h.length_eq
    rw [stringEnd_end hlength.le, hlength]
    rfl
  | case2 =>
    have hlength : bytes.length = i + 1 := h.length_eq
    rw [stringEnd_get (h.get (by decide)), if_pos rfl, stringEnd_end (by omega), hlength]
    rfl
  | case3 d s body rest hbody ih =>
    have hnext : Upto bytes (i + 1) (d :: s) := h.next
    rw [stringEnd_get (h.get (by decide)), if_pos rfl,
      hnext.skip_rest (f := stringEnd bytes quote multiline) (stringEnd_high hquote),
      ih hnext.next, hbody]
    simp only [width]
    rw [show '\\'.utf8Size = 1 from rfl, Nat.add_assoc, Nat.add_assoc]
  | case4 c s hslash hstop =>
    have hc : c.toNat < 128 := by
      simp only [Bool.or_eq_true, Bool.and_eq_true, decide_eq_true_eq] at hstop
      rcases hstop with ⟨rfl, -⟩ | rfl
      · decide
      · exact hquote
    rw [stringEnd_get (h.get hc), if_neg hslash, if_pos (by simpa using hstop)]
    rfl
  | case5 c s hslash hstop body rest hbody ih =>
    rw [h.skip_all (f := stringEnd bytes quote multiline) (stringEnd_high hquote) fun hc => by
      rw [stringEnd_get (h.get hc), if_neg hslash, if_neg (by simpa using hstop)], ih h.next, hbody]
    simp only [width, Nat.add_assoc]

end

/-! ## Block comments -/

/-- The end of a block comment, with the count of open ones never below zero. -/
def blockEnd (bytes : List Char) (nested : Bool) (depth i : Nat) : Except BadOffset Nat :=
  if i + 1 < bytes.length then do
    let b ← itemAt i bytes
    let d ← itemAt (i + 1) bytes
    if b = '/' ∧ d = '*' then
      blockEnd bytes nested (if depth = 0 || nested then depth + 1 else depth) (i + 2)
    else if b = '*' ∧ d = '/' then do
      let depth ← stepBack 1 depth
      if depth = 0 then pure (i + 2) else blockEnd bytes nested depth (i + 2)
    else blockEnd bytes nested depth (i + 1)
  else .ok bytes.length
termination_by bytes.length - i

section

variable {bytes s : List Char} {nested : Bool} {depth i : Nat}

theorem blockEnd_end (h : bytes.length ≤ i + 1) :
    blockEnd bytes nested depth i = .ok bytes.length := by
  rw [blockEnd, if_neg (Nat.not_lt.mpr h)]

theorem blockEnd_get {b d : Char} (hb : bytes[i]? = some b) (hd : bytes[i + 1]? = some d) :
    blockEnd bytes nested depth i =
      if b = '/' ∧ d = '*' then
        blockEnd bytes nested (if depth = 0 || nested then depth + 1 else depth) (i + 2)
      else if b = '*' ∧ d = '/' then do
        let depth ← stepBack 1 depth
        if depth = 0 then pure (i + 2) else blockEnd bytes nested depth (i + 2)
      else blockEnd bytes nested depth (i + 1) := by
  have hlt : i + 1 < bytes.length := (List.getElem?_eq_some_iff.mp hd).1
  rw [blockEnd, if_pos hlt, itemAt_eq hb, itemAt_eq hd]
  rfl

/-- Where no mark starts, the walk goes on by one byte. -/
theorem blockEnd_pass {b : Char} (hb : bytes[i]? = some b)
    (hopen : ¬ (b = '/' ∧ bytes[i + 1]? = some '*'))
    (hclose : ¬ (b = '*' ∧ bytes[i + 1]? = some '/')) :
    blockEnd bytes nested depth i = blockEnd bytes nested depth (i + 1) := by
  cases hd : bytes[i + 1]? with
  | none =>
    have hlength := List.getElem?_eq_none_iff.mp hd
    rw [blockEnd_end hlength, blockEnd_end (by omega)]
  | some d =>
    rw [hd] at hopen hclose
    rw [blockEnd_get hb hd, if_neg (by simpa using hopen), if_neg (by simpa using hclose)]

theorem blockEnd_high (j : Nat) (b : Char) (h : bytes[j]? = some b) (hb : 128 ≤ b.toNat) :
    blockEnd bytes nested depth j = blockEnd bytes nested depth (j + 1) :=
  blockEnd_pass h (fun h => Text.ne_of_high (by decide) hb h.1)
    fun h => Text.ne_of_high (by decide) hb h.1

theorem blockEnd_eq (h : Upto bytes i s) : blockEnd bytes nested (depth + 1) i =
    .ok (i + width (Text.Mask.blockBody nested depth s).1) := by
  fun_induction Text.Mask.blockBody nested depth s generalizing i with
  | case1 =>
    have hlength : bytes.length = i := h.length_eq
    rw [blockEnd_end (by omega), hlength]
    rfl
  | case2 depth c =>
    have hend : bytes.length = i + c.utf8Size := h.next.length_eq
    rw [h.skip_all (f := blockEnd bytes nested (depth + 1)) blockEnd_high fun hc => ?_,
      blockEnd_end (by omega), hend]
    · rfl
    · rw [size_of_ascii hc] at hend
      rw [blockEnd_end (by omega), blockEnd_end (by omega)]
  | case3 depth c d s hmark body rest hbody ih =>
    simp only [Bool.and_eq_true, decide_eq_true_eq] at hmark
    obtain ⟨rfl, rfl⟩ := hmark
    have hnext : Upto bytes (i + 1) ('*' :: s) := h.next
    have hdepth : (if depth + 1 = 0 || nested then depth + 1 + 1 else depth + 1) =
        (if nested then depth + 1 else depth) + 1 := by
      cases nested <;> simp
    have hafter : Upto bytes (i + 2) s := hnext.next
    rw [blockEnd_get (h.get (by decide)) (hnext.get (by decide)), if_pos ⟨rfl, rfl⟩, hdepth,
      ih hafter, hbody]
    simp only [width]
    rw [show '/'.utf8Size = 1 from rfl, show '*'.utf8Size = 1 from rfl, ← Nat.add_assoc,
      ← Nat.add_assoc]
  | case4 c d s hopen hmark =>
    simp only [Bool.and_eq_true, decide_eq_true_eq] at hmark
    obtain ⟨rfl, rfl⟩ := hmark
    have hnext : Upto bytes (i + 1) ('/' :: s) := h.next
    rw [blockEnd_get (h.get (by decide)) (hnext.get (by decide)), if_neg (by decide),
      if_pos ⟨rfl, rfl⟩]
    rfl
  | case5 c d s hopen hmark depth body rest hbody ih =>
    simp only [Bool.and_eq_true, decide_eq_true_eq] at hmark
    obtain ⟨rfl, rfl⟩ := hmark
    have hnext : Upto bytes (i + 1) ('/' :: s) := h.next
    have hafter : Upto bytes (i + 2) s := hnext.next
    rw [blockEnd_get (h.get (by decide)) (hnext.get (by decide)), if_neg (by decide),
      if_pos ⟨rfl, rfl⟩, stepBack_eq (by omega)]
    simp only [bind, Except.bind, Nat.succ_eq_add_one, Nat.add_sub_cancel, Nat.add_one_ne_zero,
      if_false, width]
    rw [ih hafter, hbody, show '/'.utf8Size = 1 from rfl, show '*'.utf8Size = 1 from rfl,
      ← Nat.add_assoc, ← Nat.add_assoc]
  | case6 depth c d s hopen hclose body rest hbody ih =>
    simp only [Bool.and_eq_true, decide_eq_true_eq] at hopen hclose
    rw [h.skip_all (f := blockEnd bytes nested (depth + 1)) blockEnd_high fun hc => ?_, ih h.next,
      hbody]
    · simp only [width, Nat.add_assoc]
    · have hnext : Upto bytes (i + 1) (d :: s) := h.next_ascii hc
      refine blockEnd_pass (h.get hc) ?_ ?_
      · rw [hnext.get_iff (by decide)]
        simpa using hopen
      · rw [hnext.get_iff (by decide)]
        simpa using hclose

end

/-! ## Triple quotes -/

/-- The quote stands at the two places after this one. -/
def isTriple (bytes : List Char) (i : Nat) (quote : Char) : Bool :=
  bytes[i + 1]? == some quote && bytes[i + 2]? == some quote

/-- The first place from `i` on where three quotes stand. -/
def findTriple (bytes : List Char) (quote : Char) (i : Nat) : Except BadOffset (Option Nat) :=
  if i < bytes.length - 2 then do
    let b ← itemAt i bytes
    if b = quote ∧ isTriple bytes i quote then pure (some i) else findTriple bytes quote (i + 1)
  else .ok none
termination_by bytes.length - i

section

variable {bytes s : List Char} {quote : Char} {i : Nat}

theorem triple_iff (h : Upto bytes i s) (hquote : quote.toNat < 128) :
    bytes[i]? = some quote ∧ isTriple bytes i quote ↔ [quote, quote, quote] <+: s := by
  rw [← Text.prefix_encode (by simpa using hquote), ← h.drop_eq, isTriple]
  have hdrop (k : Nat) := @List.getElem?_drop _ bytes i k
  rw [← hdrop 1, ← hdrop 2, ← Nat.add_zero i, ← hdrop 0, Nat.add_zero]
  match bytes.drop i with
  | [] | [_] | [_, _] => simp
  | a :: b :: c :: t =>
    simp only [List.getElem?_cons_zero, List.getElem?_cons_succ, List.cons_prefix_cons,
      List.nil_prefix, and_true, Option.some.injEq, Bool.and_eq_true, beq_iff_eq]
    exact ⟨fun ⟨ha, hb, hc⟩ => ⟨ha.symm, hb.symm, hc.symm⟩,
      fun ⟨ha, hb, hc⟩ => ⟨ha.symm, hb.symm, hc.symm⟩⟩

/-- What follows the body is empty or starts with the closing quotes. -/
theorem rest_tripleBody (quote : Char) (s : List Char) : (Text.Mask.tripleBody quote s).2 = [] ∨
    [quote, quote, quote] <+: (Text.Mask.tripleBody quote s).2 := by
  fun_induction Text.Mask.tripleBody quote s with
  | case1 => exact .inl rfl
  | case2 c s hmark => exact .inr (List.isPrefixOf_iff_prefix.mp hmark)
  | case3 c s hmark body rest hbody ih => simpa [hbody] using ih

theorem findTriple_of_triple (h : bytes[i]? = some quote ∧ isTriple bytes i quote) :
    findTriple bytes quote i = .ok (some i) := by
  have hlast : bytes[i + 2]? = some quote := by
    simpa using (Bool.and_eq_true_iff.mp h.2).2
  have hlt : i + 2 < bytes.length := (List.getElem?_eq_some_iff.mp hlast).1
  rw [findTriple, if_pos (by omega), itemAt_eq h.1]
  simp [bind, Except.bind, h.2]
  rfl

theorem findTriple_pass (h : ¬ (bytes[i]? = some quote ∧ isTriple bytes i quote)) :
    findTriple bytes quote i = findTriple bytes quote (i + 1) := by
  by_cases hlt : i < bytes.length - 2
  · have hget : bytes[i]? = some bytes[i] := List.getElem?_eq_getElem (by omega)
    rw [hget, Option.some.injEq] at h
    rw [findTriple, if_pos hlt, itemAt_eq hget]
    simp only [bind, Except.bind, if_neg h]
  · rw [findTriple, if_neg hlt, findTriple, if_neg (by omega)]

theorem findTriple_eq (hquote : quote.toNat < 128) (h : Upto bytes i s) :
    findTriple bytes quote i = .ok (if (Text.Mask.tripleBody quote s).2 = [] then none
      else some (i + width (Text.Mask.tripleBody quote s).1)) := by
  fun_induction Text.Mask.tripleBody quote s generalizing i with
  | case1 =>
    have hlength : bytes.length = i := h.length_eq
    rw [findTriple, if_neg (by omega)]
    rfl
  | case2 d s hmark =>
    rw [findTriple_of_triple ((triple_iff h hquote).mpr (List.isPrefixOf_iff_prefix.mp hmark))]
    rfl
  | case3 d s hmark body rest hbody ih =>
    have hpass (j : Nat) (b : Char) (hb : bytes[j]? = some b) (hhigh : 128 ≤ b.toNat) :
        findTriple bytes quote j = findTriple bytes quote (j + 1) := by
      refine findTriple_pass fun htriple => ?_
      exact Text.ne_of_high hquote hhigh (Option.some.inj (hb.symm.trans htriple.1))
    rw [h.skip_all (f := findTriple bytes quote) hpass fun _ => findTriple_pass fun htriple =>
      hmark (List.isPrefixOf_iff_prefix.mpr ((triple_iff h hquote).mp htriple)), ih h.next, hbody]
    simp only [width, Nat.add_assoc]

end

/-! ## Steps -/

/-- A backslash, or a byte and a single quote, comes after this place. -/
def isCharLiteral (bytes : List Char) (i : Nat) : Bool :=
  match bytes[i + 1]? with
  | some b => b = '\\' || bytes[i + 2]? == some '\''
  | none => false

/-- A string that starts here: its body, and where the lexer goes on. -/
def quotedAt (bytes : List Char) (quote : Char) (multiline : Bool) (i : Nat) :
    Except BadOffset (Option Span × Nat) := do
  let close ← stringEnd bytes quote multiline (i + 1)
  pure (some ⟨i + 1, close⟩, min (close + 1) bytes.length)

/-- A string between triple quotes that starts here: its body, and where the lexer goes on. -/
def tripleAt (bytes : List Char) (quote : Char) (i : Nat) :
    Except BadOffset (Option Span × Nat) := do
  let found ← findTriple bytes quote (i + 3)
  let close := found.getD bytes.length
  pure (some ⟨i + 3, close⟩, min (close + 3) bytes.length)

/-- The end of the line that a place is on. -/
def lineEnd (bytes : List Char) (i : Nat) : Except BadOffset Nat := do
  let rest ← restOf i bytes
  pure (((rest.findIdx? (· == '\n')).map (i + ·)).getD bytes.length)

/-- What is hidden of what starts at a byte, and where the lexer goes on. -/
def lex (language : Language) (bytes : List Char) (i : Nat) :
    Except BadOffset (Option Span × Nat) := do
  let b ← itemAt i bytes
  if b = '/' && bytes[i + 1]? == some '/' then do
    let stop ← lineEnd bytes i
    pure (some ⟨i, stop⟩, stop)
  else if b = '/' && bytes[i + 1]? == some '*' then do
    let stop ← blockEnd bytes language.nestedBlockComments 0 i
    pure (some ⟨i, stop⟩, stop)
  else if (b = '"' || b = '\'') && isTriple bytes i b && !language.templateLiterals then
    tripleAt bytes b i
  else if b = '`' && language.templateLiterals then quotedAt bytes '`' true i
  else if b = '"' then quotedAt bytes '"' false i
  else if b = '\'' && (language.singleQuoteStrings || isCharLiteral bytes i) then
    quotedAt bytes '\'' false i
  else pure (none, i + 1)

/-- The bytes that a step at this place hides. -/
def rangeOf (i : Nat) : Step → Option Span
  | .plain _ => none
  | .comment text => some ⟨i, i + width text⟩
  | .quoted opening body _ => some ⟨i + width opening, i + width opening + width body⟩

section

variable {bytes s : List Char} {c : Char} {language : Language} {i : Nat}

theorem isCharLiteral_eq (h : Upto bytes (i + 1) s) :
    isCharLiteral bytes i = Text.Mask.isCharLiteral s := by
  have hsecond : i + 1 + 1 = i + 2 := rfl
  cases s with
  | nil =>
    have hlength : bytes.length = i + 1 := h.length_eq
    rw [isCharLiteral, List.getElem?_eq_none_iff.mpr hlength.le]
    rfl
  | cons c s =>
    by_cases hc : c.toNat < 128
    · have hnext : Upto bytes (i + 2) s := h.next_ascii hc
      have hhead := hnext.get_iff (a := '\'') (by decide)
      rw [isCharLiteral, h.get hc]
      cases s with
      | nil =>
        have hnone : (bytes[i + 2]? == some '\'') = false := by simpa using hhead
        simp [Text.Mask.isCharLiteral, hnone]
      | cons d s =>
        simp only [List.head?_cons, Option.some.injEq] at hhead
        simp only [Text.Mask.isCharLiteral, size_of_ascii hc, decide_true, Bool.true_and]
        congr 1
        rw [Bool.eq_iff_iff, beq_iff_eq, decide_eq_true_eq, hhead]
    · obtain ⟨b, hb, hhigh⟩ := h.high hc c.utf8Size_pos
      have hwide : 1 < c.utf8Size := by
        have hne : c.utf8Size ≠ 1 := fun hone =>
          hc (Nat.lt_succ_of_le (Char.utf8Size_eq_one_iff.mp hone))
        have := c.utf8Size_pos
        omega
      obtain ⟨d, hd, hhigh'⟩ := h.high hc hwide
      have hslash : c ≠ '\\' := by
        rintro rfl
        exact hc (by decide)
      rw [isCharLiteral, show bytes[i + 1]? = some b from hb, show bytes[i + 2]? = some d from hd]
      cases s <;> simp [Text.Mask.isCharLiteral, hslash, hwide.ne',
        Text.ne_of_high (show '\\'.toNat < 128 by decide) hhigh,
        Text.ne_of_high (show '\''.toNat < 128 by decide) hhigh']

/-- The first line feed among the bytes stands where it does in the text. -/
theorem findIdx?_encode : ∀ t : List Char, ((encode t).findIdx? (· == '\n')).getD (width t) =
    width (t.takeWhile (· ≠ '\n'))
  | [] => by rw [Text.encode_nil]; rfl
  | c :: t => by
    by_cases hc : c = '\n'
    · subst hc
      rw [Text.encode_cons, Text.encode_ascii (by decide)]
      rfl
    · have hnone : (encode [c]).findIdx? (· == '\n') = none := by
        refine List.findIdx?_eq_none_iff.mpr fun b hb => ?_
        rw [beq_eq_false_iff_ne]
        by_cases hascii : c.toNat < 128
        · rw [Text.encode_ascii hascii, List.mem_singleton] at hb
          exact hb ▸ hc
        · exact Text.ne_of_high (by decide) (Text.le_of_mem_encode hascii hb)
      have hlength : (encode [c]).length = c.utf8Size := Text.length_encode [c]
      rw [Text.encode_cons, List.findIdx?_append, hnone, Option.none_or, hlength,
        List.takeWhile_cons_of_pos (by simpa using hc), width, width, ← findIdx?_encode t]
      cases (encode t).findIdx? (· == '\n') with
      | none => rfl
      | some n => exact Nat.add_comm n c.utf8Size

/-- What follows the body of a string starts with one byte. -/
theorem head_stringBody (quote : Char) (multiline : Bool) (s : List Char) :
    ∀ r ∈ (Text.Mask.stringBody quote multiline s).2.head?, r = '\n' ∨ r = quote := by
  fun_induction Text.Mask.stringBody quote multiline s with
  | case1 | case2 => simp
  | case3 d s body rest hbody ih => simpa [hbody] using ih
  | case4 c s hslash hstop =>
    simp only [Bool.or_eq_true, Bool.and_eq_true, decide_eq_true_eq] at hstop
    simpa using hstop.imp_left And.left
  | case5 c s hslash hstop body rest hbody ih => simpa [hbody] using ih

theorem quotedAt_eq {quote : Char} {multiline : Bool} (h : Upto bytes i (quote :: s))
    (hquote : quote.toNat < 128) : quotedAt bytes quote multiline i =
      .ok (rangeOf i (Text.Mask.quotedStep quote multiline s).1,
        i + width (Text.Mask.quotedStep quote multiline s).1.source) := by
  have hnext : Upto bytes (i + 1) s := h.next_ascii hquote
  have hsource := Text.Mask.source_stringBody quote multiline s
  have hhead := head_stringBody quote multiline s
  have hlength := hnext.length_eq
  rw [quotedAt, stringEnd_eq hquote hnext]
  simp only [Text.Mask.quotedStep, rangeOf, Step.source, Text.width_append, width,
    size_of_ascii hquote]
  rw [← hsource, Text.width_append] at hlength
  cases hrest : (Text.Mask.stringBody quote multiline s).2 with
  | nil =>
    rw [hrest] at hlength
    simp only [width, Nat.add_zero] at hlength
    simp only [bind, Except.bind, List.take_nil, width]
    rw [hlength, Nat.min_eq_right (Nat.le_succ _)]
    simp only [Nat.add_zero, Nat.add_assoc]
    rfl
  | cons r rest =>
    rw [hrest] at hlength hhead
    have hsize : r.utf8Size = 1 := by
      rcases hhead r rfl with rfl | rfl
      · rfl
      · exact size_of_ascii hquote
    simp only [width, hsize] at hlength
    simp only [bind, Except.bind, List.take_succ_cons, List.take_zero, width, hsize]
    rw [Nat.min_eq_left (by omega)]
    simp only [Nat.add_zero, Nat.add_assoc]
    rfl

theorem tripleAt_eq (h : Upto bytes i (c :: c :: c :: s)) (hc : c.toNat < 128) :
    tripleAt bytes c i =
      .ok (some ⟨i + 3, i + 3 + width (Text.Mask.tripleBody c s).1⟩,
        i + width ([c, c, c] ++ (Text.Mask.tripleBody c s).1 ++
          (Text.Mask.tripleBody c s).2.take 3)) := by
  have hbody : Upto bytes (i + 3) s := ((h.next_ascii hc).next_ascii hc).next_ascii hc
  have hsource := Text.Mask.source_tripleBody c s
  have hlength := hbody.length_eq
  rw [← hsource, Text.width_append] at hlength
  rw [tripleAt, findTriple_eq hc hbody]
  simp only [Text.width_append, width, size_of_ascii hc]
  rcases rest_tripleBody c s with hrest | ⟨rest, hrest⟩
  · rw [hrest] at hlength ⊢
    simp only [width, Nat.add_zero] at hlength
    simp only [bind, Except.bind, if_true, Option.getD_none, List.take_nil, width]
    rw [hlength, Nat.min_eq_right (by omega)]
    simp only [Nat.add_zero, Nat.add_assoc, Nat.reduceAdd]
    rfl
  · rw [← hrest] at hlength ⊢
    simp only [List.cons_append, List.nil_append, width, size_of_ascii hc] at hlength
    simp only [bind, Except.bind, List.cons_append, List.nil_append, reduceCtorEq, if_false,
      Option.getD_some, List.take_succ_cons, List.take_zero, width, size_of_ascii hc]
    rw [Nat.min_eq_left (by omega)]
    simp only [Nat.add_zero, Nat.add_assoc, Nat.reduceAdd]
    rfl

theorem lineEnd_eq (h : Upto bytes i s) :
    lineEnd bytes i = .ok (i + width (s.takeWhile (· ≠ '\n'))) := by
  rw [lineEnd, restOf_eq (by rw [h.length_eq]; omega), h.drop_eq, h.length_eq, ← findIdx?_encode]
  simp only [bind, Except.bind]
  cases (encode s).findIdx? (· == '\n') <;> rfl

theorem blockEnd_opened {nested : Bool} (h : Upto bytes i ('/' :: '*' :: s)) :
    blockEnd bytes nested 0 i =
      .ok (i + width ('/' :: '*' :: (Text.Mask.blockBody nested 0 s).1)) := by
  have hnext : Upto bytes (i + 1) ('*' :: s) := h.next
  have hafter : Upto bytes (i + 2) s := hnext.next
  rw [blockEnd_get (h.get (by decide)) (hnext.get (by decide)), if_pos ⟨rfl, rfl⟩,
    if_pos (by simp), blockEnd_eq hafter, width, width, ← Nat.add_assoc, ← Nat.add_assoc]
  rfl

/-- Where a character of one byte starts, the lexer does the same by bytes as by characters. -/
theorem lex_eq (h : Upto bytes i (c :: s)) (hc : c.toNat < 128) : lex language bytes i =
    .ok (rangeOf i (Text.Mask.step language c s).1,
      i + width (Text.Mask.step language c s).1.source) := by
  have hnext : Upto bytes (i + 1) s := h.next_ascii hc
  have hhead (a : Char) (ha : a.toNat < 128) :
      (bytes[i + 1]? == some a) = decide (s.head? = some a) := by
    rw [Bool.eq_iff_iff, beq_iff_eq, decide_eq_true_eq, hnext.get_iff ha]
  have htriple : isTriple bytes i c = [c, c].isPrefixOf s := by
    have hiff := triple_iff h hc
    rw [Bool.eq_iff_iff, List.isPrefixOf_iff_prefix]
    simpa [h.get hc] using hiff
  rw [lex, itemAt_eq (h.get hc)]
  simp only [bind, Except.bind, hhead '/' (by decide), hhead '*' (by decide), htriple,
    isCharLiteral_eq hnext]
  unfold Text.Mask.step
  split
  · next hmark =>
    simp only [Bool.and_eq_true, decide_eq_true_eq] at hmark
    obtain ⟨rfl, -⟩ := hmark
    rw [lineEnd_eq h, List.takeWhile_cons_of_pos (by decide)]
    rfl
  split
  · next hmark =>
    simp only [Bool.and_eq_true, decide_eq_true_eq] at hmark
    obtain ⟨rfl, hstar⟩ := hmark
    obtain ⟨s, rfl⟩ : ∃ rest, s = '*' :: rest := List.head?_eq_some_iff.mp hstar
    rw [blockEnd_opened h]
    rfl
  split
  · next hmark =>
    simp only [Bool.and_eq_true, List.isPrefixOf_iff_prefix] at hmark
    obtain ⟨⟨-, s, rfl⟩, -⟩ := hmark
    rw [tripleAt_eq h hc]
    simp only [rangeOf, Step.source, width, size_of_ascii hc]
    rfl
  split
  · next hmark =>
    simp only [Bool.and_eq_true, decide_eq_true_eq] at hmark
    obtain ⟨rfl, -⟩ := hmark
    exact quotedAt_eq h hc
  split
  · next hmark =>
    subst hmark
    exact quotedAt_eq h hc
  split
  · next hmark =>
    simp only [Bool.and_eq_true, decide_eq_true_eq] at hmark
    obtain ⟨rfl, -⟩ := hmark
    exact quotedAt_eq h hc
  · simp only [rangeOf, Step.source, width, size_of_ascii hc]
    rfl

end

/-! ## The walk -/

/-- The ranges that steps hide, the first of which starts at `i`. -/
def ranges (i : Nat) : List Step → List Span
  | [] => []
  | step :: steps => (rangeOf i step).toList ++ ranges (i + width step.source) steps

/-- The hidden ranges from a byte on. A step that does not go on is refused. -/
def scan (language : Language) (bytes : List Char) (i : Nat) : Except BadOffset (List Span) :=
  if i < bytes.length then do
    let (hidden, next) ← lex language bytes i
    if i < next then do
      let later ← scan language bytes next
      pure (hidden.toList ++ later)
    else throw ⟨next⟩
  else .ok []
termination_by bytes.length - i

section

variable {bytes s : List Char} {c : Char} {language : Language} {i : Nat}

theorem scan_of_lex {hidden : Option Span} {next : Nat}
    (h : lex language bytes i = .ok (hidden, next)) (hlt : i < bytes.length) (hnext : i < next) :
    scan language bytes i = (scan language bytes next).map (hidden.toList ++ ·) := by
  rw [scan, if_pos hlt, h]
  simp only [bind, Except.bind, if_pos hnext]
  cases scan language bytes next <;> rfl

theorem lex_high {b : Char} (h : bytes[i]? = some b) (hb : 128 ≤ b.toNat) :
    lex language bytes i = .ok (none, i + 1) := by
  have hne {a : Char} (ha : a.toNat < 128) : b ≠ a := Text.ne_of_high ha hb
  rw [lex, itemAt_eq h]
  simp [bind, Except.bind, hne (a := '/') (by decide), hne (a := '"') (by decide),
    hne (a := '\'') (by decide), hne (a := '`') (by decide)]
  rfl

theorem scan_high (j : Nat) (b : Char) (h : bytes[j]? = some b) (hb : 128 ≤ b.toNat) :
    scan language bytes j = scan language bytes (j + 1) := by
  rw [scan_of_lex (lex_high h hb) (List.getElem?_eq_some_iff.mp h).1 (Nat.lt_succ_self j)]
  cases scan language bytes (j + 1) <;> rfl

theorem step_wide (hc : ¬ c.toNat < 128) : Text.Mask.step language c s = (.plain c, s) := by
  have hne {a : Char} (ha : a.toNat < 128) : c ≠ a := Text.ne_of_high ha (Nat.le_of_not_lt hc)
  simp [Text.Mask.step, hne (a := '/') (by decide), hne (a := '"') (by decide),
    hne (a := '\'') (by decide), hne (a := '`') (by decide)]

theorem width_step_pos (language : Language) (c : Char) (s : List Char) :
    0 < width (Text.Mask.step language c s).1.source := by
  have hsource := congrArg List.length (Text.Mask.source_step language c s)
  have hlength := Text.Mask.length_step language c s
  rw [List.length_append, List.length_cons] at hsource
  cases h : (Text.Mask.step language c s).1.source with
  | nil =>
    rw [h, List.length_nil] at hsource
    omega
  | cons d t => exact Nat.lt_of_lt_of_le d.utf8Size_pos (Nat.le_add_right ..)

/-- The walk over the bytes hides what the steps of the lexer hide. -/
theorem scan_eq (h : Upto bytes i s) :
    scan language bytes i = .ok (ranges i (Text.Mask.steps language s)) := by
  fun_induction Text.Mask.steps language s generalizing i with
  | case1 =>
    have hlength : bytes.length = i := h.length_eq
    rw [scan, if_neg (by omega)]
    rfl
  | case2 c s ih =>
    by_cases hc : c.toNat < 128
    · have hlength := h.length_eq
      have hpos := width_step_pos language c s
      have hsize := c.utf8Size_pos
      have hrest := Upto.append ((Text.Mask.source_step language c s).symm ▸ h)
      rw [scan_of_lex (lex_eq h hc) (by rw [hlength, width]; omega) (by omega), ih hrest]
      rfl
    · rw [h.skip_all (f := scan language bytes) scan_high (absurd · hc)]
      rw [step_wide hc] at ih ⊢
      rw [ih h.next]
      simp [ranges, rangeOf, Step.source, width]

end

end Mend.Checked
