import Mend.Proofs.Rule.Effects
import Mend.Proofs.Rule.Returning

/-!
# Effects in an excerpt

Some lines of a text, with other blanks before their line feeds, are an excerpt of it (`Excerpt`).
An effect that starts in the first line of an excerpt starts there in the text
(`React.Opens.of_excerpt`), and an effect of the text that starts before one of the excerpt is in it
(`React.Opens.in_excerpt`). So the first effect of an excerpt is the first one of its line in the
text (`React.Opens.eq_front`).

What an effect returns is told by its body: by the whole of it where the effect is closed
(`React.bodyOf_eq`), or by a part of it that ends in a `return` (`React.hasCleanupReturn_bodyOf`).
-/

namespace Mend

open Text

/-- The text has a part after `front` that differs from `part` in blanks before line feeds at most.
What comes before it does not end in a word. -/
structure Excerpt (text front part : List Char) : Prop where
  exists_eq : ∃ part' back, text = front ++ (part' ++ back) ∧ Alike part part'
  before : wordAfter false front = false

namespace React

variable {text start part front u back : List Char}

namespace Opens

theorem of_excerpt (h : Opens part front u back) (hplain : '\n' ∉ front)
    (hexcerpt : Excerpt text start part) :
    ∃ v later rest, Opens text (start ++ front) v (later ++ rest) ∧ Alike back later := by
  obtain ⟨⟨part', rest, rfl, hlike⟩, hbefore⟩ := hexcerpt
  obtain ⟨v, later, hopens, hlater⟩ := h.alike hplain hlike
  exact ⟨v, later, rest, (hopens.append rest).shift hbefore, hlater⟩

theorem in_excerpt (h : Opens text (start ++ front) u back) (hexcerpt : Excerpt text start part)
    {front' u' back' : List Char} (h' : Opens part front' u' back') (hplain : '\n' ∉ front')
    (hle : front.length ≤ front'.length) : front <+: front' ∧ ∃ v later, Opens part front v later := by
  obtain ⟨⟨part', rest, rfl, hlike⟩, hbefore⟩ := hexcerpt
  obtain ⟨v, later, hopens, -⟩ := h'.alike hplain hlike
  have htext := h.text_eq
  rw [List.append_assoc] at htext
  have hrest := List.append_cancel_left htext
  have hword := h.before
  rw [wordAfter_append, hbefore] at hword
  have hstarts : front <+: part' ++ rest := hrest ▸ List.prefix_append front _
  obtain ⟨x, rfl⟩ : front <+: front' := List.prefix_of_prefix_length_le hstarts
    (hopens.starts.trans (List.prefix_append part' rest)) hle
  have hmem : '\x7b' ∈ x ++ (v ++ '\x7b' :: later) := by simp
  obtain ⟨later', hin, -⟩ := of_append ⟨hrest, h.opener, hword⟩
    (hopens.text_eq.trans (List.append_assoc _ _ _)) hmem
  obtain ⟨v', later'', hpart, -⟩ :=
    hin.alike (fun hmem => hplain (List.mem_append_left x hmem)) hlike.symm
  exact ⟨List.prefix_append front x, v', later'', hpart⟩

/-- The first effect of an excerpt is the first one of its line. -/
theorem eq_front (h : Opens text (start ++ front) u back) (hexcerpt : Excerpt text start part)
    {front' u' back' : List Char} (h' : Opens part front' u' back') (hplain : '\n' ∉ front')
    (hleast : ∀ x v later, Opens part x v later → front'.length ≤ x.length)
    (hfirst : ∀ x v later, '\n' ∉ x → Opens text (start ++ x) v later → width front ≤ width x) :
    front = front' := by
  rcases Nat.lt_or_ge front'.length front.length with hlt | hle
  · -- An effect of the excerpt that started before would be one of the text.
    obtain ⟨v, later, rest, hopens, -⟩ := h'.of_excerpt hplain hexcerpt
    have hwidth := hfirst front' v _ hplain hopens
    obtain ⟨x, rfl⟩ : front' <+: front := (List.prefix_append_right_inj start).mp <|
      List.prefix_of_prefix_length_le hopens.starts h.starts (by simpa using hlt.le)
    cases x with
    | nil => simp at hlt
    | cons c x =>
      have hc := c.utf8Size_pos
      rw [width_append, width] at hwidth
      omega
  · obtain ⟨hfront, v, later, hopens⟩ := h.in_excerpt hexcerpt h' hplain hle
    exact List.IsPrefix.eq_of_length hfront (Nat.le_antisymm hle (hleast front v later hopens))

end Opens

/-! ## What is returned -/

variable {ctx : Context} {b : Block}

/-- The body of a block that starts where an effect does. -/
theorem isBody_bodyOf (hb : b ∈ effects ctx) (h : Opens ctx.masked front u back)
    (hstart : b.start = width front) : IsBody back (ctx.bodyOf b) := by
  obtain ⟨front', u', back', h', hstart', hbody⟩ := exists_of_mem_effects hb
  obtain ⟨rfl, -⟩ := append_inj_of_width (h'.text_eq.symm.trans h.text_eq)
    (hstart'.symm.trans hstart)
  obtain ⟨-, rfl⟩ := h'.unique h
  exact hbody

/-- The body of an effect goes up to the brace that closes it. -/
theorem bodyOf_eq {body rest : List Char} (hb : b ∈ effects ctx)
    (h : Opens ctx.masked front u (body ++ '\x7d' :: rest)) (hstart : b.start = width front)
    (hclosed : nested .brace 1 body = some 1) : ctx.bodyOf b = body :=
  (isBody_bodyOf hb h hstart).eq_of_closed hclosed

/-- A cleanup that is returned after the start of a body is seen. -/
theorem hasCleanupReturn_bodyOf {body later : List Char} (hb : b ∈ effects ctx)
    (h : Opens ctx.masked front u (body ++ ("return (".toList ++ later)))
    (hstart : b.start = width front) (hclosed : nested .brace 1 body = some 1)
    (hcounted : Counted body) (hword : wordAfter false body = false) :
    hasCleanupReturn (ctx.bodyOf b) = true := by
  have hbody := isBody_bodyOf hb h hstart
  rw [← List.append_assoc] at hbody
  have hnested : nested .brace 1 (body ++ "return (".toList) = some 1 := by
    rw [nested_append, hclosed]
    rfl
  obtain ⟨z, hz⟩ := hbody.exists_append (by rw [hnested]; rfl)
  rw [hz, List.append_assoc]
  have hlevel := count_of_nested Nat.one_pos hclosed
  exact hcounted.hasCleanupReturn (Nat.add_left_cancel hlevel) hword z

/-- Where an effect of an excerpt is closed, the block has its body. -/
theorem alike_bodyOf {body rest : List Char} (hb : b ∈ effects ctx)
    (hexcerpt : Excerpt ctx.masked start part) (h : Opens part front u (body ++ '\x7d' :: rest))
    (hplain : '\n' ∉ front) (hstart : b.start = width (start ++ front))
    (hclosed : nested .brace 1 body = some 1) : Alike body (ctx.bodyOf b) := by
  obtain ⟨v, later, rest', hopens, hlater⟩ := h.of_excerpt hplain hexcerpt
  obtain ⟨body', z, rfl, hbody, -⟩ := hlater.exists_cut (by decide) rfl
  rw [List.append_assoc, List.cons_append] at hopens
  rwa [bodyOf_eq hb hopens hstart ((hbody.nested_eq 1).symm.trans hclosed)]

/-- Where an effect of an excerpt goes on in a `return`, the block returns a cleanup. -/
theorem hasCleanupReturn_of_excerpt {body later : List Char} (hb : b ∈ effects ctx)
    (hexcerpt : Excerpt ctx.masked start part)
    (h : Opens part front u (body ++ ("return (".toList ++ later))) (hplain : '\n' ∉ front)
    (hstart : b.start = width (start ++ front)) (hclosed : nested .brace 1 body = some 1)
    (hcounted : Counted body) (hword : wordAfter false body = false) :
    hasCleanupReturn (ctx.bodyOf b) = true := by
  obtain ⟨v, back', rest, hopens, hback⟩ := h.of_excerpt hplain hexcerpt
  obtain ⟨body', y, rfl, hbody, hy⟩ := Alike.exists_word
    (show Alike (body ++ "return".toList ++ (" (".toList ++ later)) back' by
      rw [List.append_assoc]
      exact hback) (by decide) (by decide)
  obtain ⟨gap, z, rfl, hgap, -⟩ := hy.exists_cut (by decide)
    (show " (".toList ++ later = [' '] ++ '(' :: later from rfl)
  obtain rfl := hgap.eq_of_not_mem (by decide)
  exact hasCleanupReturn_bodyOf hb
    (show Opens ctx.masked (start ++ front) v (body' ++ ("return (".toList ++ (z ++ rest))) by
      simpa using hopens) hstart
    ((hbody.nested_eq 1).symm.trans hclosed) (hcounted.alike hbody) (hbody.wordAfter_eq ▸ hword)

end React

end Mend
