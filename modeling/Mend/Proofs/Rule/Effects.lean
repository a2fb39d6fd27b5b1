import Mend.Proofs.Pattern.Places
import Mend.Proofs.Pattern.Taking
import Mend.Proofs.Rule.Cleanup
import Mend.Proofs.Text.Padding

/-!
# Where effects are seen

An effect opens with a few words that have any blanks between them, and a brace
(`React.takes_effectOpener`). So it is seen in a text exactly if it is seen in the text with blanks
put in before line feeds. The words are such that no opener reaches into another one, and every
place after a word's end at which they stand is the start of an effect
(`React.Opens.exists_mem_effects`). The body of an effect goes up to the brace that closes it
(`React.exists_of_mem_effects`).
-/

namespace Mend

open Text Pattern

/-! ## Words with blanks after them -/

namespace Text

/-- Where a mark stands first, the two sides of it are known. -/
theorem append_cons_inj_first {c : Char} {a b : List Char} : ∀ {u v : List Char}, c ∉ u → c ∉ v →
    u ++ c :: a = v ++ c :: b → u = v ∧ a = b
  | [], [], _, _, h => ⟨rfl, (List.cons.inj h).2⟩
  | [], d :: v, _, hv, h => absurd (List.cons.inj h).1 (List.ne_of_not_mem_cons hv)
  | d :: u, [], hu, _, h => absurd (List.cons.inj h).1.symm (List.ne_of_not_mem_cons hu)
  | d :: u, e :: v, hu, hv, h => by
    obtain ⟨rfl, h'⟩ := List.cons.inj h
    obtain ⟨rfl, rfl⟩ := append_cons_inj_first (List.not_mem_of_not_mem_cons hu)
      (List.not_mem_of_not_mem_cons hv) h'
    exact ⟨rfl, rfl⟩

/-- Words one after another, with any blanks after each. -/
def Spread : List (List Char) → List Char → Prop
  | [], s => s = []
  | w :: ws, s => ∃ blanks rest, s = w ++ (blanks ++ rest) ∧ blanks.all isBlank = true ∧ Spread ws rest

theorem spread_append {vs : List (List Char)} : ∀ {ws : List (List Char)} {s : List Char},
    Spread (ws ++ vs) s ↔ ∃ u v, s = u ++ v ∧ Spread ws u ∧ Spread vs v
  | [], s => ⟨fun h => ⟨[], s, rfl, rfl, h⟩, fun ⟨_, _, hs, hu, hv⟩ => by
      obtain rfl : _ = [] := hu
      rwa [hs]⟩
  | w :: ws, s => by
    constructor
    · rintro ⟨blanks, rest, rfl, hblank, hrest⟩
      obtain ⟨u, v, rfl, hu, hv⟩ := spread_append.mp hrest
      exact ⟨w ++ (blanks ++ u), v, by simp, ⟨blanks, u, rfl, hblank, hu⟩, hv⟩
    · rintro ⟨_, v, rfl, ⟨blanks, u, rfl, hblank, hu⟩, hv⟩
      exact ⟨blanks, u ++ v, by simp, hblank, spread_append.mpr ⟨u, v, rfl, hu, hv⟩⟩

theorem spread_singleton {w s : List Char} :
    Spread [w] s ↔ ∃ blanks, s = w ++ blanks ∧ blanks.all isBlank = true := by
  constructor
  · rintro ⟨blanks, _, rfl, hblank, rfl⟩
    exact ⟨blanks, by rw [List.append_nil], hblank⟩
  · rintro ⟨blanks, rfl, hblank⟩
    exact ⟨blanks, [], by rw [List.append_nil], hblank, rfl⟩

/-- A character that is in none of the words and is no blank is not in the text. -/
theorem not_mem_of_spread {c : Char} (hc : isBlank c = false) : ∀ {ws : List (List Char)}
    {s : List Char}, Spread ws s → (∀ w ∈ ws, c ∉ w) → c ∉ s
  | [], s, h, _ => by
    obtain rfl : s = [] := h
    exact List.not_mem_nil
  | w :: ws, _, ⟨blanks, rest, hs, hblank, hrest⟩, hws => by
    rw [hs, List.mem_append, List.mem_append, not_or, not_or]
    refine ⟨hws w List.mem_cons_self, fun hmem => ?_,
      not_mem_of_spread hc hrest fun v hv => hws v (List.mem_cons_of_mem _ hv)⟩
    rw [List.all_eq_true.mp hblank c hmem] at hc
    cases hc

/-- The words have no blanks in them. -/
def Solid (ws : List (List Char)) : Prop := ∀ w ∈ ws, w ≠ [] ∧ w.any isBlank = false

theorem Alike.spread : ∀ {ws : List (List Char)} {s t : List Char}, Alike s t → Solid ws →
    Spread ws s → Spread ws t
  | [], s, t, h, _, hs => by
    obtain rfl : s = [] := hs
    exact (h.eq_of_not_mem List.not_mem_nil).symm
  | [w], s, t, h, hws, hs => by
    obtain ⟨blanks, rfl, hblank⟩ := spread_singleton.mp hs
    obtain ⟨blanks', rfl, hlike⟩ := h.exists_append (hws w List.mem_cons_self).2
    exact spread_singleton.mpr ⟨blanks', rfl, hlike.all_isBlank.symm.trans hblank⟩
  | w :: v :: ws, _, t, h, hws, ⟨blanks, _, hs, hblank, blanks', rest, hv, hrest⟩ => by
    subst hv hs
    obtain ⟨x, rfl, hx⟩ := h.exists_append (hws w List.mem_cons_self).2
    have hword := hws v (List.mem_cons_of_mem _ List.mem_cons_self)
    rw [← List.append_assoc] at hx
    obtain ⟨b, y, rfl, hb, hy⟩ := hx.exists_word hword.1 hword.2
    refine ⟨b, v ++ y, by rw [List.append_assoc], hb.all_isBlank.symm.trans hblank, ?_⟩
    exact (hy.append_left v).spread (fun u hu => hws u (List.mem_cons_of_mem _ hu))
      ⟨blanks', rest, rfl, hrest⟩

end Text

namespace Pattern

/-- Literal texts with blanks between them, and blanks after them. -/
theorem takes_spaced_gap : ∀ {tokens : List String} {s : List Char}, tokens ≠ [] →
    ((spaced tokens ++ gap).Takes s ↔ Spread (tokens.map String.toList) s)
  | [t], s, _ => by
    show (∃ u v, s = u ++ v ∧ (lit t).Takes u ∧ gap.Takes v) ↔ Spread [t.toList] s
    rw [spread_singleton]
    constructor
    · rintro ⟨u, v, rfl, hu, hv⟩
      exact ⟨v, by rw [takes_lit.mp hu], hv⟩
    · rintro ⟨v, rfl, hv⟩
      exact ⟨t.toList, v, rfl, takes_lit.mpr rfl, hv⟩
  | t :: t' :: ts, s, _ => by
    have ih (s : List Char) := @takes_spaced_gap (t' :: ts) s (List.cons_ne_nil _ _)
    constructor
    · rintro ⟨_, g, rfl, ⟨_, r, rfl, ⟨u, b, rfl, hu, hb⟩, hr⟩, hg⟩
      refine ⟨b, r ++ g, by rw [takes_lit.mp hu]; simp, hb, (ih _).mp ⟨r, g, rfl, hr, hg⟩⟩
    · rintro ⟨b, rest, rfl, hb, hrest⟩
      obtain ⟨r, g, rfl, hr, hg⟩ := (ih _).mpr hrest
      exact ⟨t.toList ++ b ++ r, g, by simp,
        ⟨t.toList ++ b, r, rfl, ⟨t.toList, b, rfl, takes_lit.mpr rfl, hb⟩, hr⟩, hg⟩

end Pattern

namespace React

/-! ## Openers -/

/-- The words before the brace that opens an effect. -/
def openers : List (List String) :=
  ["useEffect", "useLayoutEffect"].flatMap fun name =>
    [[], ["async"]].flatMap fun async =>
      [["(", ")", "=>"], ["function", "(", ")"]].map fun function =>
        [name] ++ ["("] ++ async ++ function

theorem takes_name {s : List Char} :
    (boundary ++ lit "use" ++ opt (lit "Layout") ++ lit "Effect").Takes s ↔
      ∃ name ∈ ["useEffect", "useLayoutEffect"], s = name.toList := by
  constructor
  · rintro ⟨_, e, rfl, ⟨_, l, rfl, ⟨_, n, rfl, rfl, hn⟩, hl⟩, he⟩
    rw [takes_lit.mp hn, takes_lit.mp he]
    rcases takes_opt.mp hl with hl | rfl
    · rw [takes_lit.mp hl]
      exact ⟨"useLayoutEffect", by simp, rfl⟩
    · exact ⟨"useEffect", by simp, rfl⟩
  · have hsplit {l : List Char} (hl : (opt (lit "Layout")).Takes l) :
        (boundary ++ lit "use" ++ opt (lit "Layout") ++ lit "Effect").Takes
          ("use".toList ++ l ++ "Effect".toList) :=
      ⟨_, _, rfl, ⟨_, _, rfl, ⟨[], _, rfl, rfl, takes_lit.mpr rfl⟩, hl⟩, takes_lit.mpr rfl⟩
    rintro ⟨name, hname, rfl⟩
    simp only [List.mem_cons, List.not_mem_nil, or_false] at hname
    rcases hname with rfl | rfl
    · exact hsplit (takes_opt.mpr (Or.inr rfl))
    · exact hsplit (takes_opt.mpr (Or.inl (takes_lit.mpr rfl)))

theorem takes_async {s : List Char} : (opt (lit "async" ++ gap)).Takes s ↔
    ∃ ws ∈ [[], ["async"]], Spread (ws.map String.toList) s := by
  rw [takes_opt, show lit "async" = spaced ["async"] from rfl,
    takes_spaced_gap (List.cons_ne_nil _ _)]
  simp only [List.mem_cons, List.not_mem_nil, or_false, exists_eq_or_imp, exists_eq_left]
  exact or_comm

theorem takes_function {s : List Char} :
    ((spaced ["(", ")", "=>"] <|> spaced ["function", "(", ")"]) ++ gap).Takes s ↔
      ∃ ws ∈ [["(", ")", "=>"], ["function", "(", ")"]], Spread (ws.map String.toList) s := by
  have hor : ((spaced ["(", ")", "=>"] <|> spaced ["function", "(", ")"]) ++ gap).Takes s ↔
      (spaced ["(", ")", "=>"] ++ gap).Takes s ∨ (spaced ["function", "(", ")"] ++ gap).Takes s := by
    simp only [takes_append, takes_orElse, or_and_right, and_or_left, exists_or]
  rw [hor, takes_spaced_gap (List.cons_ne_nil _ _), takes_spaced_gap (List.cons_ne_nil _ _)]
  simp

/-- An effect opens with its words, blanks after each of them, and a brace. -/
theorem takes_effectOpener {s : List Char} : effectOpener.Takes s ↔ ∃ ws ∈ openers, ∃ u,
    s = u ++ ['\x7b'] ∧ Spread (ws.map String.toList) u := by
  simp only [openers, List.mem_flatMap, List.mem_map]
  constructor
  · rintro ⟨_, _, rfl, ⟨_, g', rfl, ⟨_, f, rfl, ⟨_, a, rfl, ⟨_, g, rfl, ⟨_, o, rfl, ⟨n, b, rfl, hn,
      hb⟩, ho⟩, hg⟩, ha⟩, hf⟩, hg'⟩, hbrace⟩
    obtain ⟨name, hname, rfl⟩ := takes_name.mp hn
    obtain ⟨async, hasync, ha⟩ := takes_async.mp ha
    obtain ⟨function, hfunction, hf⟩ := takes_function.mp ⟨f, g', rfl, hf, hg'⟩
    refine ⟨_, ⟨name, hname, async, hasync, function, hfunction, rfl⟩,
      name.toList ++ b ++ ("(".toList ++ g) ++ a ++ (f ++ g'), ?_, ?_⟩
    · rw [takes_lit.mp ho, takes_lit.mp hbrace]
      simp
    · simp only [List.map_append, spread_append]
      exact ⟨_, _, rfl, ⟨_, _, rfl, ⟨_, _, rfl, spread_singleton.mpr ⟨b, rfl, hb⟩,
        spread_singleton.mpr ⟨g, rfl, hg⟩⟩, ha⟩, hf⟩
  · rintro ⟨_, ⟨name, hname, async, hasync, function, hfunction, rfl⟩, u, rfl, hu⟩
    simp only [List.map_append, spread_append] at hu
    obtain ⟨_, _, rfl, ⟨_, a, rfl, ⟨_, _, rfl, hn, ho⟩, ha⟩, hf⟩ := hu
    obtain ⟨b, rfl, hb⟩ := spread_singleton.mp hn
    obtain ⟨g, rfl, hg⟩ := spread_singleton.mp ho
    obtain ⟨f, g', rfl, hf, hg'⟩ := takes_function.mpr ⟨function, hfunction, hf⟩
    refine ⟨name.toList ++ b ++ "(".toList ++ g ++ a ++ f ++ g', _, by simp,
      ⟨_, g', rfl, ⟨_, f, rfl, ⟨_, a, rfl, ⟨_, g, rfl, ⟨_, _, rfl, ⟨name.toList, b, rfl,
        takes_name.mpr ⟨name, hname, rfl⟩, hb⟩, takes_lit.mpr rfl⟩, hg⟩,
        takes_async.mpr ⟨async, hasync, ha⟩⟩, hf⟩, hg'⟩, takes_lit.mpr rfl⟩

theorem solid_openers : ∀ ws ∈ openers, Solid (ws.map String.toList) := by
  simp only [Solid]
  decide +kernel

/-- What stands before the brace of an opener. -/
structure IsOpener (u : List Char) : Prop where
  takes : effectOpener.Takes (u ++ ['\x7b'])

theorem isOpener_iff {u : List Char} :
    IsOpener u ↔ ∃ ws ∈ openers, Spread (ws.map String.toList) u := by
  constructor
  · rintro ⟨h⟩
    obtain ⟨ws, hws, v, huv, hv⟩ := takes_effectOpener.mp h
    exact ⟨ws, hws, List.append_cancel_right huv ▸ hv⟩
  · rintro ⟨ws, hws, hu⟩
    exact ⟨takes_effectOpener.mpr ⟨ws, hws, u, rfl, hu⟩⟩

namespace IsOpener

variable {u v : List Char}

/-- Blanks before line feeds make no difference. -/
theorem alike (hu : IsOpener u) (h : Alike u v) : IsOpener v := by
  obtain ⟨ws, hws, hu⟩ := isOpener_iff.mp hu
  exact isOpener_iff.mpr ⟨ws, hws, h.spread (solid_openers ws hws) hu⟩

theorem not_mem_brace (hu : IsOpener u) : '\x7b' ∉ u := by
  obtain ⟨ws, hws, hu⟩ := isOpener_iff.mp hu
  have hplain : ∀ ws ∈ openers, ∀ w ∈ ws.map String.toList, '\x7b' ∉ w := by decide +kernel
  exact not_mem_of_spread (by decide) hu (hplain ws hws)

/-- An opener starts with a word up to its capital letter, and has no other one. -/
theorem exists_name (hu : IsOpener u) : ∃ name rest, u = name ++ 'E' :: rest ∧
    name.all isWord = true ∧ 'E' ∉ name ∧ 'E' ∉ rest := by
  obtain ⟨ws, hws, hu⟩ := isOpener_iff.mp hu
  have hnames : ∀ ws ∈ openers, ∃ name ∈ ["use".toList, "useLayout".toList],
      (ws.map String.toList).head? = some (name ++ "Effect".toList) ∧
        ∀ w ∈ ws.tail.map String.toList, 'E' ∉ w := by decide +kernel
  have hword : ∀ name ∈ ["use".toList, "useLayout".toList],
      name.all isWord = true ∧ 'E' ∉ name := by decide
  obtain ⟨name, hname, hhead, htail⟩ := hnames ws hws
  obtain ⟨hall, hmem⟩ := hword name hname
  cases ws with
  | nil => cases hhead
  | cons w ws =>
    obtain ⟨blanks, rest, rfl, hblank, hrest⟩ := hu
    rw [List.map_cons, List.head?_cons, Option.some.injEq] at hhead
    refine ⟨name, "ffect".toList ++ (blanks ++ rest), ?_, hall, hmem, ?_⟩
    · rw [hhead, List.append_assoc]
      rfl
    · rw [List.mem_append, List.mem_append, not_or, not_or]
      refine ⟨by decide, fun hmem => ?_, not_mem_of_spread (by decide) hrest htail⟩
      exact absurd (List.all_eq_true.mp hblank _ hmem) (by decide)

theorem exists_tail (hu : IsOpener u) : ∃ tail, u = 'u' :: tail := by
  obtain ⟨ws, hws, hu⟩ := isOpener_iff.mp hu
  have hheads : ∀ ws ∈ openers, ∃ tail ∈ ["seEffect".toList, "seLayoutEffect".toList],
      (ws.map String.toList).head? = some ('u' :: tail) := by decide +kernel
  obtain ⟨tail, -, hhead⟩ := hheads ws hws
  cases ws with
  | nil => cases hhead
  | cons w ws =>
    obtain ⟨blanks, rest, rfl, -⟩ := hu
    rw [List.map_cons, List.head?_cons, Option.some.injEq] at hhead
    exact ⟨tail ++ (blanks ++ rest), by rw [hhead, List.cons_append]⟩

end IsOpener

/-! ## Effects in a text -/

/-- An effect starts in a text after `front`. Its opener is `u`, and `back` is what comes after the
brace. -/
structure Opens (text front u back : List Char) : Prop where
  text_eq : text = front ++ (u ++ '\x7b' :: back)
  opener : IsOpener u
  before : wordAfter false front = false

namespace Opens

variable {text front u back front' u' back' : List Char}

/-- What stands before the first brace is told by the text. -/
theorem unique (h : Opens text front u back) (h' : Opens text front u' back') :
    u = u' ∧ back = back' := by
  have hsplit := List.append_cancel_left (h.text_eq.symm.trans h'.text_eq)
  exact append_cons_inj_first h.opener.not_mem_brace h'.opener.not_mem_brace hsplit

theorem starts (h : Opens text front u back) : front <+: text := ⟨_, h.text_eq.symm⟩

theorem append (h : Opens text front u back) (t : List Char) :
    Opens (text ++ t) front u (back ++ t) :=
  ⟨by rw [h.text_eq]; simp, h.opener, h.before⟩

/-- After something that does not end in a word, an effect is one. -/
theorem shift (h : Opens text front u back) {s : List Char} (hs : wordAfter false s = false) :
    Opens (s ++ text) (s ++ front) u back :=
  ⟨by rw [h.text_eq]; simp, h.opener, by rw [wordAfter_append, hs, h.before]⟩

/-- The first brace after the start of an effect opens it, whatever comes later. -/
theorem of_append {s t x : List Char} (h : Opens (s ++ t) front u back) (hs : s = front ++ x)
    (hx : '\x7b' ∈ x) : ∃ later, Opens s front u later ∧ back = later ++ t := by
  obtain ⟨x', later, rfl, hx'⟩ := List.eq_append_cons_of_mem hx
  have hsplit := h.text_eq
  rw [hs, List.append_assoc, List.append_assoc, List.cons_append] at hsplit
  obtain ⟨rfl, rfl⟩ := append_cons_inj_first hx' h.opener.not_mem_brace
    (List.append_cancel_left hsplit)
  exact ⟨later, ⟨hs, h.opener, h.before⟩, rfl⟩

/-- Blanks before line feeds make no difference to an effect that starts on the first line. -/
theorem alike {s t : List Char} (h : Opens s front u back) (hfront : '\n' ∉ front) (hst : Alike s t) :
    ∃ v later, Opens t front v later ∧ Alike back later := by
  obtain ⟨tail, hhead⟩ := h.opener.exists_tail
  have hs : s = front ++ 'u' :: (tail ++ '\x7b' :: back) := by rw [h.text_eq, hhead, List.cons_append]
  obtain ⟨front', x, rfl, hf, hx⟩ := hst.exists_cut (by decide) hs
  obtain rfl := hf.eq_of_not_mem hfront
  obtain ⟨v, later, rfl, hv, hlater⟩ := hx.exists_cut (by decide) rfl
  exact ⟨'u' :: v, later, ⟨by rw [List.cons_append], h.opener.alike (hhead ▸ hv.cons 'u'), h.before⟩,
    hlater⟩

/-- An effect does not start inside the opener of another one. -/
theorem stop_le (h : Opens text front u back) (h' : Opens text front' u' back')
    (hlt : front.length < front'.length) : front.length + u.length + 1 ≤ front'.length := by
  by_contra hle
  have htext := h.text_eq.symm.trans h'.text_eq
  obtain ⟨x, rfl⟩ : front <+: front' := List.prefix_of_prefix_length_le
    (List.prefix_append front _) (by rw [htext]; exact List.prefix_append front' _) hlt.le
  rw [List.append_assoc] at htext
  have hrest := List.append_cancel_left htext
  rw [List.length_append] at hlt hle
  obtain ⟨z, rfl⟩ : x <+: u := List.prefix_of_prefix_length_le
    (List.prefix_append x _) (by rw [← hrest]; exact List.prefix_append u _) (by omega)
  rw [List.append_assoc] at hrest
  obtain ⟨rfl, -⟩ := append_cons_inj_first
    (fun hmem => h.opener.not_mem_brace (List.mem_append_right _ hmem)) h'.opener.not_mem_brace
    (List.append_cancel_left hrest)
  -- The capital letter of the one is that of the other, so that letters come before the second one.
  obtain ⟨name, rest, hu, hword, hname, hplain⟩ := h.opener.exists_name
  obtain ⟨name', rest', hz, -⟩ := h'.opener.exists_name
  rw [hz, ← List.append_assoc] at hu
  obtain ⟨rfl, -⟩ := (List.append_cons_inj_of_notMem hname hplain).mp hu.symm
  rw [List.all_append, Bool.and_eq_true] at hword
  have hbefore := h'.before
  rw [wordAfter_append, wordAfter_of_all (List.ne_nil_of_length_pos (by omega)) hword.1] at hbefore
  cases hbefore

/-- A search that tries the start of an effect finds it. -/
theorem isSome_run (h : Opens text front u back) :
    ((effectOpener.on (.of text) .done).run front.length).isSome := by
  have htext : text = front ++ (u ++ ['\x7b']) ++ back := by rw [h.text_eq]; simp
  refine run_of_takes_bounded rfl h.opener.takes htext ?_ rfl
  obtain ⟨tail, hu⟩ := h.opener.exists_tail
  have hhead : text[front.length]? = some 'u' := by
    rw [h.text_eq, List.getElem?_append_right le_rfl, Nat.sub_self, hu]
    rfl
  rw [Subject.atBoundary_of (by rw [htext]; simp), hhead, htext, List.append_assoc, List.take_left,
    getLast?_any_isWord, h.before]
  decide

end Opens

/-- What the pattern reads is the start of an effect. -/
theorem exists_of_reads {text : List Char} {i j : Nat} {ms : List Mark}
    (h : Reads (.of text) effectOpener i j ms) (hj : j ≤ text.length) :
    ∃ u back, Opens text (text.take i) u back ∧ j = i + u.length + 1 := by
  have hij := h.le
  obtain ⟨ws, hws, u, hpart, hu⟩ := takes_effectOpener.mp (takes_of_reads h)
  have hopener : IsOpener u := isOpener_iff.mpr ⟨ws, hws, hu⟩
  have hlength : j = i + u.length + 1 := by
    have hlen := congrArg List.length hpart
    rw [part, List.length_drop, List.length_take, List.length_append, List.length_singleton] at hlen
    omega
  have htext : text = text.take i ++ (u ++ '\x7b' :: text.drop j) := by
    have hparts := part_append (s := text) hij hj
    rw [part_length, part_length, hpart] at hparts
    conv_lhs => rw [← List.take_append_drop i text, ← hparts]
    simp
  refine ⟨u, text.drop j, ⟨htext, hopener, ?_⟩, hlength⟩
  have hbound := h.atBoundary rfl
  obtain ⟨tail, htail⟩ := hopener.exists_tail
  have hnext : text[i]? = some 'u' := by
    conv_lhs => rw [htext]
    rw [List.getElem?_append_right (by simp), List.length_take, Nat.min_eq_left (by omega),
      Nat.sub_self, htail]
    rfl
  rw [Subject.atBoundary_of (by omega), getLast?_any_isWord, hnext] at hbound
  cases hbefore : wordAfter false (text.take i) with
  | false => rfl
  | true =>
    rw [hbefore] at hbound
    exact absurd hbound (by decide)

theorem strict_effectOpener (text : List Char) : (effectOpener.on (.of text) .done).Strict := by
  intro i e hrun
  obtain ⟨j, ms, e', hreads, hdone, rfl⟩ := reads_of_on hrun
  obtain rfl := Option.some.inj hdone
  exact hreads.lt rfl

/-- What a search finds at a place is the start of an effect. -/
theorem exists_of_run {text : List Char} {i : Nat} {e : Ending}
    (h : (effectOpener.on (.of text) .done).run i = some e) (hi : i ≤ text.length) :
    ∃ u back, Opens text (text.take i) u back ∧ e.stop = i + u.length + 1 := by
  obtain ⟨j, ms, e', hreads, hdone, rfl⟩ := reads_of_on h
  obtain rfl := Option.some.inj hdone
  exact exists_of_reads hreads (hreads.le_length hi)

/-- The offsets of an effect's start and of the place after its brace. -/
theorem Opens.offsets {text front u back : List Char} (h : Opens text front u back) :
    (Subject.of text).offset front.length = width front ∧
      (Subject.of text).offset (front.length + u.length + 1) = width (front ++ u) + 1 := by
  have htext : text = front ++ u ++ ['\x7b'] ++ back := by rw [h.text_eq]; simp
  have hlength : (front ++ u ++ ['\x7b']).length = front.length + u.length + 1 := by
    rw [List.length_append, List.length_append, List.length_singleton]
  constructor
  · rw [Subject.offset_of (by rw [h.text_eq]; simp), h.text_eq, List.take_left]
  · rw [← hlength, Subject.offset_of (by rw [htext]; simp), htext, List.take_left, width_append]
    rfl

theorem exists_of_mem_findAll {text : List Char} {m : Match} (h : m ∈ effectOpener.findAll text) :
    ∃ front u back, Opens text front u back ∧ m.start = width front ∧
      m.stop = width (front ++ u) + 1 := by
  obtain ⟨i, j, ms, hreads, hj, rfl⟩ := reads_of_mem_findAll h
  have hij := hreads.le
  obtain ⟨u, back, hopens, rfl⟩ := exists_of_reads hreads hj
  have hoffsets := hopens.offsets
  rw [List.length_take_of_le (by omega)] at hoffsets
  exact ⟨_, u, back, hopens, hoffsets⟩

/-- The first match is the first effect. -/
theorem exists_of_find? {text : List Char} {m : Match} (h : effectOpener.find? text = some m) :
    ∃ front u back, Opens text front u back ∧ m.start = width front ∧
      m.stop = width (front ++ u) + 1 ∧
      ∀ x v later, Opens text x v later → front.length ≤ x.length := by
  obtain ⟨⟨i, e⟩, hleft, rfl⟩ := Option.map_eq_some_iff.mp h
  rw [Subject.size_of] at hleft
  have hle : i ≤ text.length := by
    have hrange := (Matcher.leftmost?_range hleft).2
    simp only at hrange
    omega
  obtain ⟨u, back, hopens, hstop⟩ := exists_of_run (run_of_leftmost? hleft) hle
  have hlength : (text.take i).length = i := List.length_take_of_le hle
  have hoffsets := hopens.offsets
  rw [hlength, ← hstop] at hoffsets
  refine ⟨text.take i, u, back, hopens, hoffsets.1, hoffsets.2, fun x v later hx => ?_⟩
  by_contra hlt
  rw [hlength] at hlt
  have hsome := hx.isSome_run
  rw [Matcher.run_of_lt_leftmost? hleft x.length (Nat.zero_le _) (by omega)] at hsome
  cases hsome

/-- A search misses no effect: none starts inside the opener of another one. -/
theorem Opens.exists_mem_findAll {text front u back : List Char} (h : Opens text front u back) :
    ∃ m ∈ effectOpener.findAll text, m.start = width front := by
  obtain ⟨e, hrun⟩ := Option.isSome_iff_exists.mp h.isSome_run
  have hle : front.length ≤ text.length := by rw [h.text_eq]; simp
  have hfree : ∀ j < front.length, ∀ e', (effectOpener.on (.of text) .done).run j = some e' →
      e'.stop ≤ front.length := by
    intro j hj e' hrun'
    obtain ⟨u', back', hopens, hstop⟩ := exists_of_run hrun' (by omega)
    have hlength : (text.take j).length = j := by rw [List.length_take]; omega
    have hbefore := hopens.stop_le h (by omega)
    omega
  have hmem : (front.length, e) ∈ (effectOpener.on (.of text) .done).all text.length
      (2 * text.length + 2) none 0 :=
    Matcher.mem_all_of_run (strict_effectOpener text) hrun hle hfree (by omega) (Nat.zero_le _)
  refine ⟨_, List.mem_map_of_mem (by simpa only [Subject.size_of] using hmem), ?_⟩
  show (Subject.of text).offset front.length = _
  rw [Subject.offset_of hle, h.text_eq, List.take_left]

/-! ## Bodies -/

/-- What comes after the brace that opens an effect, up to the brace that closes it if there is one. -/
def IsBody (back body : List Char) : Prop :=
  (∃ rest, back = body ++ '\x7d' :: rest ∧ nested .brace 1 body = some 1) ∨
    (body = back ∧ ∀ mid rest, back = mid ++ '\x7d' :: rest → nested .brace 1 mid ≠ some 1)

theorem nested_closed {body : List Char} (h : nested .brace 1 body = some 1) (rest : List Char) :
    nested .brace 1 (body ++ '\x7d' :: rest) = none := by
  rw [nested_append, h]
  rfl

/-- A part of what comes after the brace in which the effect is not closed belongs to its body. -/
theorem IsBody.exists_append {x y body : List Char} (h : IsBody (x ++ y) body)
    (hx : (nested .brace 1 x).isSome) : ∃ z, body = x ++ z := by
  rcases h with ⟨rest, hsplit, hbody⟩ | ⟨rfl, -⟩
  · rcases List.append_eq_append_iff.mp hsplit with ⟨z, rfl, -⟩ | ⟨z, rfl, hz⟩
    · exact ⟨z, rfl⟩
    · cases z with
      | nil => exact ⟨[], by simp⟩
      | cons c z =>
        obtain ⟨rfl, -⟩ := List.cons.inj hz
        rw [nested_closed hbody] at hx
        cases hx
  · exact ⟨y, rfl⟩

/-- The body is what stands before the first brace that closes more than is open. -/
theorem IsBody.eq_of_closed {mid rest body : List Char} (h : IsBody (mid ++ '\x7d' :: rest) body)
    (hmid : nested .brace 1 mid = some 1) : body = mid := by
  obtain ⟨z, rfl⟩ := h.exists_append (by rw [hmid]; rfl)
  rcases h with ⟨rest', hsplit, hbody⟩ | ⟨-, hopen⟩
  · rw [List.append_assoc] at hsplit
    cases z with
    | nil => rw [List.append_nil]
    | cons c z =>
      obtain ⟨rfl, -⟩ := List.cons.inj (List.append_cancel_left hsplit)
      rw [nested_closed hmid] at hbody
      cases hbody
  · exact absurd hmid (hopen mid rest rfl)

variable {ctx : Context}

/-- The block after an opener. -/
def blockOf (ctx : Context) (m : Match) : Block :=
  match matchingClose ctx.masked (m.stop - 1) with
  | some close => ⟨m.start, m.stop - 1, ⟨m.stop - 1 + 1, close⟩, true⟩
  | none => ⟨m.start, m.stop - 1, ⟨m.stop - 1 + 1, width ctx.masked⟩, false⟩

/-- Every opener ends in the brace of its block. -/
theorem effects_eq (ctx : Context) :
    effects ctx = (effectOpener.findAll ctx.masked).map (blockOf ctx) := by
  rw [effects, Context.blocksAfter, ← List.filterMap_eq_map]
  refine List.filterMap_congr fun m hm => ?_
  obtain ⟨front, u, back, hopens, hstart, hstop⟩ := exists_of_mem_findAll hm
  have hmasked : ctx.masked = front ++ (u ++ ['\x7b']) ++ back := by rw [hopens.text_eq]; simp
  have hwidth : m.stop = m.start + width (u ++ ['\x7b']) := by
    rw [hstart, hstop, width_append, width_append, Nat.add_assoc]
    rfl
  have htext : m.text ctx.masked = u ++ ['\x7b'] := by
    rw [Match.text, hwidth, hstart, hmasked, cut_append]
  have hbrace : endsWith (m.text ctx.masked) "\x7b" = true := by
    rw [htext, endsWith, List.isSuffixOf_iff_suffix]
    exact List.suffix_append u _
  simp only [hbrace, if_true, bind, pure, Option.bind_some, Function.comp_apply]
  rfl

theorem start_blockOf (ctx : Context) (m : Match) : (blockOf ctx m).start = m.start := by
  unfold blockOf
  split <;> rfl

/-- Where an effect starts in the masked text, a block does. -/
theorem Opens.exists_mem_effects {front u back : List Char} (h : Opens ctx.masked front u back) :
    ∃ b ∈ effects ctx, b.start = width front := by
  obtain ⟨m, hm, hstart⟩ := h.exists_mem_findAll
  refine ⟨blockOf ctx m, ?_, (start_blockOf ctx m).trans hstart⟩
  rw [effects_eq]
  exact List.mem_map_of_mem hm

/-- A block starts where an effect does, and has its body. -/
theorem exists_of_mem_effects {b : Block} (h : b ∈ effects ctx) : ∃ front u back,
    Opens ctx.masked front u back ∧ b.start = width front ∧ IsBody back (ctx.bodyOf b) := by
  rw [effects_eq] at h
  obtain ⟨m, hm, rfl⟩ := List.mem_map.mp h
  obtain ⟨front, u, back, hopens, hstart, hstop⟩ := exists_of_mem_findAll hm
  have hmasked : ctx.masked = (front ++ u) ++ '\x7b' :: back := by rw [hopens.text_eq]; simp
  refine ⟨front, u, back, hopens, (start_blockOf ctx m).trans hstart, ?_⟩
  rw [blockOf, hstop, Nat.add_sub_cancel]
  split
  · next close hclose =>
    obtain ⟨kind, front', mid, rest, hparts, hfront, rfl, hmid⟩ := matchingClose_iff.mp hclose
    have hsplit := hparts
    rw [hmasked] at hsplit
    obtain ⟨rfl, hrest⟩ := append_inj_of_width hsplit hfront.symm
    obtain ⟨hkind, rfl⟩ := List.cons.inj hrest
    obtain rfl : kind = .brace := by cases kind <;> first | rfl | cases hkind
    refine Or.inl ⟨rest, ?_, ?_⟩
    · rw [Context.bodyOf, hparts, cut_matched]
      rfl
    · rwa [Context.bodyOf, hparts, cut_matched]
  · next hclose =>
    refine Or.inr ⟨?_, fun mid rest hback hmid => ?_⟩
    · have hcut := cut_append (front ++ u ++ ['\x7b']) back []
      have hsize : width (front ++ u ++ ['\x7b']) = width (front ++ u) + 1 := width_append _ _
      rw [List.append_nil, ← width_append, hsize] at hcut
      rw [Context.bodyOf, hmasked]
      simpa using hcut
    · rw [hback] at hmasked
      have hsome := matchingClose_iff.mpr ⟨.brace, front ++ u, mid, rest, hmasked, rfl, rfl, hmid⟩
      rw [hclose] at hsome
      cases hsome

end React

end Mend
