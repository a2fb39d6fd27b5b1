import Mend.Proofs.Checked.Lexer
import Mend.Proofs.Text.Good

/-!
# The mask, byte by byte

The ranges of bytes that the lexer finds are overwritten, each cut out with care (`Checked.hideIn`).
What is left spells the mask (`Checked.mask_eq`).

The ranges stand in the text one after the other (`Checked.ordered_ranges`), and hiding ranges
changes no byte outside of them (`Checked.exists_hidden`). What comes out has the size and the line
feeds of the source, and each of its bytes below U+0080 that is not a space is a character of the
source, which starts at the same offset (`Checked.mask_bytes`). So offsets into the masked text may
be used to cut the source.
-/

namespace Mend.Checked

open Text (BadOffset Good encode width)
open Text.Mask (Step)

/-- A hidden byte is a space, but a line feed stays. -/
def blankByte (b : Char) : Char := if b = '\n' then b else ' '

/-- Hide a range of bytes. -/
def hideIn (bytes : List Char) (range : Span) : Except BadOffset (List Char) := do
  let stop := min range.stop bytes.length
  let front ← frontOf stop bytes
  let hidden ← restOf range.start front
  let back ← restOf stop bytes
  pure (front.take range.start ++ hidden.map blankByte ++ back)

theorem hideIn_eq (front t back : List Char) :
    hideIn (front ++ (t ++ back)) ⟨front.length, front.length + t.length⟩ =
      .ok (front ++ (t.map blankByte ++ back)) := by
  have hassoc : front ++ (t ++ back) = (front ++ t) ++ back := (List.append_assoc ..).symm
  have hstop : min (front.length + t.length) ((front ++ t) ++ back).length =
      (front ++ t).length := by
    simp only [List.length_append]
    omega
  rw [hassoc, hideIn, hstop, frontOf_eq (by simp), restOf_eq (by simp)]
  simp only [bind, Except.bind, List.take_left, List.drop_left]
  rw [restOf_eq (by simp), List.drop_left, ← List.append_assoc]
  rfl

theorem encode_hide : ∀ t : List Char, encode (Text.Mask.hide t) = (encode t).map blankByte
  | [] => by
    rw [Text.encode_nil]
    exact Text.encode_nil
  | c :: t => by
    have hblank : encode (Text.Mask.blank c) = (encode [c]).map blankByte := by
      by_cases hc : c = '\n'
      · subst hc
        rw [Text.Mask.blank, if_pos rfl, Text.encode_ascii (by decide)]
        rfl
      · have hspace : ∀ b ∈ encode [c], blankByte b = ' ' := by
          intro b hb
          refine if_neg ?_
          by_cases hascii : c.toNat < 128
          · rw [Text.encode_ascii hascii, List.mem_singleton] at hb
            exact hb ▸ hc
          · exact Text.ne_of_high (by decide) (Text.le_of_mem_encode hascii hb)
        have hlength : (encode [c]).length = c.utf8Size := Text.length_encode [c]
        rw [Text.Mask.blank, if_neg hc, List.map_congr_left hspace, List.map_const', hlength]
        refine Text.encode_of_ascii fun b hb => ?_
        rw [List.eq_of_mem_replicate hb]
        decide
    rw [Text.Mask.hide, List.flatMap_cons, Text.encode_append, hblank, ← Text.Mask.hide,
      encode_hide t, Text.encode_cons c t, List.map_append]

theorem length_masked (step : Step) : (encode step.masked).length = width step.source := by
  have hhide (t : List Char) : width (Text.Mask.hide t) = width t := by
    rw [← Text.length_encode, encode_hide, List.length_map, Text.length_encode]
  cases step <;> simp [Text.length_encode, Step.masked, Step.source, Text.width_append, hhide]

/-- Hiding the range of a step turns what it takes into what the mask shows. -/
theorem hideIn_step (front : List Char) (step : Step) (back : List Char) :
    (rangeOf front.length step).toList.foldlM hideIn (front ++ (encode step.source ++ back)) =
      .ok (front ++ (encode step.masked ++ back)) := by
  cases step with
  | plain c => rfl
  | comment text =>
    have h := hideIn_eq front (encode text) back
    rw [Text.length_encode] at h
    simp only [rangeOf, Option.toList_some, List.foldlM_cons, List.foldlM_nil, Step.source,
      Step.masked, h, encode_hide]
    rfl
  | quoted opening body closing =>
    have h := hideIn_eq (front ++ encode opening) (encode body) (encode closing ++ back)
    rw [List.length_append, Text.length_encode, Text.length_encode] at h
    simp only [List.append_assoc] at h
    simp only [rangeOf, Option.toList_some, List.foldlM_cons, List.foldlM_nil, Step.source,
      Step.masked, Text.encode_append, List.append_assoc, h, encode_hide]
    rfl

theorem hideIn_steps (front : List Char) (steps : List Step) :
    (ranges front.length steps).foldlM hideIn (front ++ encode (steps.flatMap Step.source)) =
      .ok (front ++ encode (steps.flatMap Step.masked)) := by
  induction steps generalizing front with
  | nil => rfl
  | cons step steps ih =>
    have hlater := ih (front ++ encode step.masked)
    rw [List.length_append, length_masked] at hlater
    rw [ranges, List.foldlM_append, List.flatMap_cons, List.flatMap_cons, Text.encode_append,
      Text.encode_append, hideIn_step]
    simpa [bind, Except.bind, List.append_assoc] using hlater

/-- The masked text. -/
def mask (language : Language) (source : List Char) : Except BadOffset (List Char) :=
  if source.isEmpty then .ok [] else do
    let hidden ← scan language (encode source) 0
    if hidden.isEmpty then pure source else do
      let bytes ← hidden.foldlM hideIn (encode source)
      pure (((Text.decode? bytes).map String.toList).getD source)

/-- Masking byte by byte refuses nothing and gives the mask. -/
theorem mask_eq (language : Language) (source : List Char) :
    mask language source = .ok (Text.Mask.mask language source) := by
  have hscan : scan language (encode source) 0 =
      .ok (ranges 0 (Text.Mask.steps language source)) := scan_eq ⟨[], rfl, rfl⟩
  have hhide := hideIn_steps [] (Text.Mask.steps language source)
  rw [Text.Mask.source_steps] at hhide
  simp only [List.nil_append, List.length_nil] at hhide
  rw [mask]
  split
  · next hempty =>
    rw [List.isEmpty_iff.mp hempty, Text.Mask.mask, Text.Mask.steps]
    rfl
  · simp only [hscan, bind, Except.bind]
    split
    · next hnone =>
      rw [List.isEmpty_iff.mp hnone] at hhide
      rw [Text.Mask.mask, ← Text.encode_injective (Except.ok.inj hhide)]
      rfl
    · rw [hhide]
      simp only [Text.decode?_encode, Option.map_some, String.toList_ofList, Option.getD_some]
      rfl

/-! ## The ranges -/

/-- The byte is in one of the ranges. -/
def Covered (hidden : List Span) (k : Nat) : Prop := ∃ r ∈ hidden, r.start ≤ k ∧ k < r.stop

theorem range_inside {i : Nat} {step : Step} {r : Span} (h : r ∈ rangeOf i step) :
    i ≤ r.start ∧ r.start ≤ r.stop ∧ r.stop ≤ i + width step.source := by
  cases step with
  | plain c => cases h
  | comment text =>
    cases h
    simp [Step.source]
  | quoted opening body closing =>
    cases h
    simp only [Step.source, Text.width_append]
    omega

theorem ranges_inside : ∀ {steps : List Step} {i : Nat} {r : Span}, r ∈ ranges i steps →
    i ≤ r.start ∧ r.start ≤ r.stop ∧ r.stop ≤ i + width (steps.flatMap Step.source)
  | [], _, _, h => by cases h
  | step :: steps, i, r, h => by
    rw [List.flatMap_cons, Text.width_append]
    rcases List.mem_append.mp h with h | h
    · have := range_inside (Option.mem_toList.mp h)
      omega
    · have := ranges_inside h
      omega

/-- Each range ends before the next one starts. -/
theorem ordered_ranges : ∀ (steps : List Step) (i : Nat),
    (ranges i steps).Pairwise fun a b => a.stop ≤ b.start
  | [], _ => .nil
  | step :: steps, i => by
    refine List.pairwise_append.mpr ⟨?_, ordered_ranges steps _, fun a ha b hb => ?_⟩
    · cases rangeOf i step with
      | none => exact .nil
      | some r => exact List.pairwise_singleton _ r
    · have hstop := (range_inside (Option.mem_toList.mp ha)).2.2
      exact hstop.trans (ranges_inside hb).1

/-! ## The bytes -/

theorem blankByte_cases (b : Char) : blankByte b = b ∨ blankByte b = ' ' := by
  rw [blankByte]
  split
  · exact .inl rfl
  · exact .inr rfl

theorem blankByte_blankByte (b : Char) : blankByte (blankByte b) = blankByte b := by
  rcases blankByte_cases b with h | h
  · rw [h, h]
  · rw [h]
    rfl

/-- Hiding a range that lies inside the bytes. -/
theorem hideIn_getElem? {bytes : List Char} {r : Span} (hle : r.start ≤ r.stop)
    (hstop : r.stop ≤ bytes.length) : ∃ bytes', hideIn bytes r = .ok bytes' ∧
      bytes'.length = bytes.length ∧
      ∀ k, bytes'[k]? =
        if r.start ≤ k ∧ k < r.stop then bytes[k]?.map blankByte else bytes[k]? := by
  obtain ⟨front, rest, rfl, hfront⟩ : ∃ front rest, bytes = front ++ rest ∧
      front.length = r.start :=
    ⟨_, _, (List.take_append_drop r.start bytes).symm, List.length_take_of_le (by omega)⟩
  obtain ⟨mid, back, rfl, hmid⟩ : ∃ mid back, rest = mid ++ back ∧
      mid.length = r.stop - r.start := by
    rw [List.length_append] at hstop
    exact ⟨_, _, (List.take_append_drop (r.stop - r.start) rest).symm,
      List.length_take_of_le (by omega)⟩
  have hspan : r = ⟨front.length, front.length + mid.length⟩ := by
    rw [hfront, hmid, Nat.add_sub_cancel' hle]
  rw [hspan]
  refine ⟨_, hideIn_eq front mid back, by simp, fun k => ?_⟩
  simp only [List.getElem?_append, List.length_map, List.getElem?_map]
  split
  · rw [if_neg (by omega)]
  split
  · rw [if_pos (by omega)]
  · rw [if_neg (by omega)]

/-- Hiding ranges blanks what they cover and nothing else. -/
theorem exists_hidden : ∀ {hidden : List Span} {bytes : List Char},
    (∀ r ∈ hidden, r.start ≤ r.stop ∧ r.stop ≤ bytes.length) →
      ∃ bytes', hidden.foldlM hideIn bytes = .ok bytes' ∧ bytes'.length = bytes.length ∧
        ∀ k, (Covered hidden k → bytes'[k]? = bytes[k]?.map blankByte) ∧
          (¬ Covered hidden k → bytes'[k]? = bytes[k]?)
  | [], bytes, _ =>
    ⟨bytes, rfl, rfl, fun k => ⟨fun ⟨_, hr, _⟩ => absurd hr List.not_mem_nil, fun _ => rfl⟩⟩
  | r :: hidden, bytes, h => by
    obtain ⟨hr, hlater⟩ := List.forall_mem_cons.mp h
    obtain ⟨first, hfirst, hlength, hget⟩ := hideIn_getElem? hr.1 hr.2
    rw [← hlength] at hlater
    obtain ⟨bytes', hrest, hlength', hcovered⟩ := exists_hidden hlater
    have htwice : blankByte ∘ blankByte = blankByte := funext blankByte_blankByte
    refine ⟨bytes', by rw [List.foldlM_cons, hfirst]; exact hrest, hlength'.trans hlength,
      fun k => ⟨fun ⟨r', hr', hk⟩ => ?_, fun hk => ?_⟩⟩
    · by_cases hinner : Covered hidden k
      · rw [(hcovered k).1 hinner, hget]
        split
        · rw [Option.map_map, htwice]
        · rfl
      · rw [(hcovered k).2 hinner, hget, if_pos]
        rcases List.mem_cons.mp hr' with rfl | hr'
        · exact hk
        · exact absurd ⟨r', hr', hk⟩ hinner
    · have houter : ¬ (r.start ≤ k ∧ k < r.stop) := fun hin => hk ⟨r, List.mem_cons_self, hin⟩
      have hinner : ¬ Covered hidden k := fun ⟨r', hr', hin⟩ =>
        hk ⟨r', List.mem_cons_of_mem r hr', hin⟩
      rw [(hcovered k).2 hinner, hget, if_neg houter]

/-- A byte below U+0080 is a character, which starts there. -/
theorem good_of_ascii : ∀ {s : List Char} {k : Nat} {b : Char}, (encode s)[k]? = some b →
    b.toNat < 128 → Good s k
  | [], k, b, h, _ => by
    rw [Text.encode_nil] at h
    cases h
  | c :: s, k, b, h, hb => by
    have hlength : (encode [c]).length = c.utf8Size := Text.length_encode [c]
    rw [Text.encode_cons] at h
    rcases Nat.lt_or_ge k c.utf8Size with hlt | hge
    · rw [List.getElem?_append_left (hlength ▸ hlt)] at h
      by_cases hc : c.toNat < 128
      · obtain rfl : k = 0 := by
          rw [size_of_ascii hc] at hlt
          omega
        exact Text.good_zero _
      · have := Text.le_of_mem_encode hc (List.mem_of_getElem? h)
        omega
    · rw [List.getElem?_append_right (hlength ▸ hge), hlength] at h
      obtain ⟨front, back, rfl, hfront⟩ := good_of_ascii h hb
      exact ⟨c :: front, back, rfl, by rw [width]; omega⟩

/-! ## Masking -/

/-- Masking a source. The lexer comes to the end of any text and finds ranges of bytes, one after
the other and inside the text. Hiding them leaves bytes that spell a text, the mask, so nothing is
ever given back unmasked. There are as many bytes as before; a byte in a range is a space now,
unless it is a line feed, and every other byte is what it was. So the line feeds are where they
were, and wherever the masked bytes have a character below U+0080 other than a space, that same
character starts in the source. -/
theorem mask_bytes (language : Language) (source : List Char) :
    ∃ hidden bytes, scan language (encode source) 0 = .ok hidden ∧
      hidden.Pairwise (fun a b => a.stop ≤ b.start) ∧
      (∀ r ∈ hidden, r.start ≤ r.stop ∧ r.stop ≤ (encode source).length) ∧
      hidden.foldlM hideIn (encode source) = .ok bytes ∧
      Text.decode? bytes = some (String.ofList (Text.Mask.mask language source)) ∧
      mask language source = .ok (Text.Mask.mask language source) ∧
      encode (Text.Mask.mask language source) = bytes ∧
      bytes.length = (encode source).length ∧
      (∀ k, (Covered hidden k → bytes[k]? = (encode source)[k]?.map blankByte) ∧
        (¬ Covered hidden k → bytes[k]? = (encode source)[k]?)) ∧
      (∀ k : Nat, bytes[k]? = some '\n' ↔ (encode source)[k]? = some '\n') ∧
      ∀ (k : Nat) (b : Char), bytes[k]? = some b → b.toNat < 128 → b ≠ ' ' →
        Good source k ∧ (encode source)[k]? = some b := by
  have hscan : scan language (encode source) 0 =
      .ok (ranges 0 (Text.Mask.steps language source)) := scan_eq ⟨[], rfl, rfl⟩
  have hhide := hideIn_steps [] (Text.Mask.steps language source)
  have hinside : ∀ r ∈ ranges 0 (Text.Mask.steps language source),
      r.start ≤ r.stop ∧ r.stop ≤ (encode source).length := fun r hr => by
    have hr := ranges_inside hr
    rw [Text.Mask.source_steps, Nat.zero_add] at hr
    exact ⟨hr.2.1, (Text.length_encode source).symm ▸ hr.2.2⟩
  rw [Text.Mask.source_steps] at hhide
  obtain ⟨bytes, hbytes, hlength, hget⟩ := exists_hidden hinside
  obtain rfl : encode (Text.Mask.mask language source) = bytes :=
    Except.ok.inj (hhide.symm.trans hbytes)
  have hkept : ∀ (k : Nat) (b : Char), (encode (Text.Mask.mask language source))[k]? = some b →
      b ≠ ' ' → (encode source)[k]? = some b := by
    intro k b hb hspace
    by_cases hcovered : Covered (ranges 0 (Text.Mask.steps language source)) k
    · rw [(hget k).1 hcovered] at hb
      obtain ⟨a, ha, rfl⟩ := Option.map_eq_some_iff.mp hb
      rw [ha, (blankByte_cases a).resolve_right hspace]
    · rw [← (hget k).2 hcovered, hb]
  refine ⟨_, _, hscan, ordered_ranges _ 0, hinside, hbytes, Text.decode?_encode _,
    mask_eq language source, rfl, hlength, hget, fun k => ⟨fun h => hkept k _ h (by decide),
      fun h => ?_⟩, fun k b hb hascii hspace => ?_⟩
  · by_cases hcovered : Covered (ranges 0 (Text.Mask.steps language source)) k
    · rw [(hget k).1 hcovered, h]
      rfl
    · rw [(hget k).2 hcovered, h]
  · have hsource := hkept k b hb hspace
    exact ⟨good_of_ascii hsource hascii, hsource⟩

end Mend.Checked
