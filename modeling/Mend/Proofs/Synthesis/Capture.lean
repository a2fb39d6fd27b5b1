import Mend.Proofs.Ordering
import Mend.Proofs.Synthesis.Blocks
import Mend.Proofs.Synthesis.Chained
import Mend.Proofs.Text.Closing
import Mend.Proofs.Text.Position

/-!
# Closures that hold their owner weakly

The template for closures puts the way to hold the owner into the closure's capture list, or a
capture list before its parameters or its statements, and a question mark in each use of the owner.
In the closure that comes out of it every use is chained and none is left
(`weakSelfCapture_chained`), with one exception: a capture list that is made new is put in without a
blank after its `in`, so that a use which follows the brace at once is glued to it and is not a word
any more (`not_weakSelfCapture_chained`).
-/

namespace Mend.Synthesis

open Attempt Text Mask Pattern

/-! ## Bodies of closures -/

/-- The masked body of the closure that opens at an offset of a text. -/
def closureBody? (opening : Nat) (text : List Char) : Option (List Char) :=
  let masked := mask .swift text
  (matchingClose masked opening).map fun close => cut (opening + 1) close masked

theorem closureBody?_of_mask (kind : Delimiter) {text front body rest : List Char}
    (hmask : mask .swift text = front ++ kind.opener :: (body ++ kind.closer :: rest))
    (hbody : nested kind 1 body = some 1) : closureBody? (width front) text = some body := by
  have hclose := matchingClose_iff.mpr ⟨kind, front, body, rest, hmask, rfl, rfl, hbody⟩
  rw [closureBody?, hclose, Option.map_some, hmask, cut_matched]

/-- The lines of a closure up to its end are enough to read its body. -/
theorem closureBody?_take_rows {text : List Char} {opening close : Nat}
    (h : matchingClose (mask .swift text) opening = some close) :
    closureBody? opening (Window.joined ((rows text).take ((LineIndex.of text).lineOf close))) =
      closureBody? opening text := by
  obtain ⟨kind, front, mid, rest, hmask, rfl, rfl, hmid⟩ := matchingClose_iff.mp h
  have hkind : kind.closer ≠ ' ' ∧ kind.closer ≠ '\n' := by cases kind <;> decide
  obtain ⟨p, r, rfl, hp⟩ := exists_source (m := front ++ kind.opener :: mid) hkind.1
    (by simpa using hmask)
  have hclose : width front + 1 + width mid = width p := by
    rw [hp, width_append, width, size_opener, Nat.add_assoc]
  obtain ⟨m, hm⟩ := exists_mask_row .swift p (kind.closer :: r)
  rw [hm, hclose] at h
  have hwithin : width p <
      width (mask .swift (p ++ (kind.closer :: r).takeWhile (· ≠ '\n'))) := by
    have := kind.closer.utf8Size_pos
    rw [← (aligned_mask .swift (p ++ (kind.closer :: r).takeWhile (· ≠ '\n'))).1, width_append,
      List.takeWhile_cons_of_pos (by simpa using hkind.2), width]
    omega
  obtain ⟨hmatched, hcut⟩ := matchingClose_prefix h hwithin
  rw [hclose, LineIndex.lineOf_width, joined_take_rows, closureBody?, closureBody?, hmatched, hm, h,
    Option.map_some, Option.map_some, hcut]

/-! ## Where the owner is captured -/

/-- The parts of a body that starts with a capture list. -/
theorem captureList_parts {body listed : List Char} {m : Match} {span : Span}
    (hfound : captureList.find? body = some m) (hspan : m.group? 1 = some span)
    (hlisted : m.groupText? 1 body = some listed) : ∃ blanks rest,
      body = blanks ++ ['['] ++ listed ++ ']' :: rest ∧ blanks.all isBlank = true ∧
        width (blanks ++ ['[']) = span.start := by
  obtain ⟨i, n, ms, h, rfl⟩ := reads_of_find? hfound
  obtain ⟨c, ms₂, _, h₂, hclose, rfl⟩ := reads_append h
  obtain ⟨b, ms₁, h₁, hinside, rfl⟩ := reads_append_group rfl h₂
  obtain ⟨a, _, _, h₀, hopen, rfl⟩ := reads_append h₁
  obtain ⟨_, _, _, hstart, hgap, rfl⟩ := reads_append h₀
  obtain ⟨rfl, rfl, rfl⟩ := reads_textStart hstart
  obtain rfl := marks_of_groupless hgap rfl
  obtain rfl := marks_of_groupless hopen rfl
  obtain rfl := marks_of_groupless hclose rfl
  have hc := h₂.le_length (Nat.zero_le _)
  rw [group?_eq rfl rfl rfl] at hspan
  rw [groupText?_eq rfl rfl rfl hinside.le hc] at hlisted
  obtain rfl := Option.some.inj hspan
  obtain rfl := Option.some.inj hlisted
  have hfront : part body 0 a ++ ['['] = body.take b := by
    rw [← show part body a b = ['['] from part_of_lit hopen, part_append hgap.le hopen.le, part_zero]
  refine ⟨part body 0 a, body.drop n, ?_, part_of_chars hgap, ?_⟩
  · have hend : part body c n = [']'] := part_of_lit hclose
    rw [hfront, ← part_zero, part_append (Nat.zero_le b) hinside.le, List.append_cons, ← hend,
      part_append (Nat.zero_le c) hclose.le, part_zero, List.take_append_drop]
  · rw [hfront]
    exact (Subject.offset_of (hinside.le.trans hc)).symm

/-- A text that is empty when it is trimmed is blank. -/
theorem all_isBlank_of_trim {s : List Char} (h : trim s = []) : s.all isBlank = true := by
  obtain ⟨t, hsplit, hblank⟩ := dropEndWhile_append isBlank (trimStart s)
  rw [show dropEndWhile isBlank (trimStart s) = [] from h, List.nil_append] at hsplit
  rw [← List.takeWhile_append_dropWhile (p := isBlank) (l := s), List.all_append, List.all_takeWhile,
    Bool.true_and]
  exact (congrArg (List.all · isBlank) hsplit).trans hblank

theorem getElem?_of_used {body : List Char} (h : used.isPrefixOf body = true) {i : Nat} (hi : i ≤ 4) :
    ∃ c, body[i]? = some c ∧ c ∈ used := by
  obtain ⟨rest, rfl⟩ := List.isPrefixOf_iff_prefix.mp h
  have hlt : i < used.length := Nat.lt_succ_of_le hi
  exact ⟨used[i], by rw [List.getElem?_append_left hlt, List.getElem?_eq_getElem hlt],
    List.getElem_mem hlt⟩

/-- Words that are read at the start of a use of the owner end in the word for it. -/
theorem le_of_word1 {body : List Char} (h : used.isPrefixOf body = true) {j : Nat} {ms : List Mark}
    (hread : Reads (.of body) word1 0 j ms) : j ≤ 4 := by
  obtain ⟨rest, rfl⟩ := List.isPrefixOf_iff_prefix.mp h
  by_contra hlt
  have hword := (part_of_many1 hread).2
  rw [part_zero, List.all_eq_true] at hword
  have hdot : '.' ∈ (used ++ rest).take j :=
    List.mem_of_getElem? (i := 4) (by rw [List.getElem?_take_of_lt (by omega)]; rfl)
  exact absurd (hword '.' hdot) (by decide)

/-- A use of the owner at the start of a body is no head of a closure. -/
theorem closureHead_of_used {body : List Char} (h : used.isPrefixOf body = true) :
    closureHead.isIn body = false := by
  by_contra hin
  obtain ⟨m, hm⟩ := Option.isSome_iff_exists.mp (Bool.not_eq_false _ ▸ hin)
  obtain ⟨i, n, ms, hread, -⟩ := reads_of_find? hm
  obtain ⟨e, _, _, h₅, -, -⟩ := reads_append hread
  obtain ⟨d, _, _, h₄, hword, -⟩ := reads_append h₅
  obtain ⟨c, _, _, h₃, hresult, -⟩ := reads_append h₄
  obtain ⟨b, _, _, h₂, hgap, -⟩ := reads_append h₃
  obtain ⟨a, _, _, h₁, hparams, -⟩ := reads_append h₂
  obtain ⟨_, _, _, hstart, hblank, -⟩ := reads_append h₁
  obtain ⟨rfl, rfl, rfl⟩ := reads_textStart hstart
  -- no part of a head may start with a letter of the use, or with its dot
  have hstays {p : Pattern} {i j : Nat} {ms : List Mark} (hread : Reads (.of body) p i j ms)
      (hi : i ≤ 4) (hp : used.all (fun c => !p.mayStart c) = true) : j = i := by
    obtain ⟨c, hc, hmem⟩ := getElem?_of_used h hi
    exact hread.eq_of_mayStart (by rwa [Subject.getElem?_of])
      (by simpa using List.all_eq_true.mp hp c hmem)
  obtain rfl := hstays hblank (by omega) (by decide)
  have hb : b ≤ 4 := by
    rcases reads_opt hparams with hparams | ⟨rfl, -⟩
    · cases hparams with
      | left hlist => exact absurd (hstays hlist (by omega) (by decide)) (Nat.ne_of_gt (hlist.lt rfl))
      | right hnames =>
        obtain ⟨k, _, _, hname, hmore, rfl⟩ := reads_append hnames
        have hk := le_of_word1 h hname
        rw [hstays hmore hk (by decide)]
        exact hk
    · omega
  obtain rfl := hstays hgap hb (by decide)
  obtain rfl := hstays hresult hb (by decide)
  exact absurd (hstays hword hb (by decide)) (Nat.ne_of_gt (hword.lt rfl))

/-- A text with one word for the owner that nothing of a use follows has no use. -/
theorem countFrom_capture {u : List Char} {d : Char} (pre : List Char) (e : Char) (post : List Char)
    (hpre : 's' ∉ pre) (hbefore : wordAfter false pre = false) (he : e ≠ 's') (hd : e ≠ d)
    (hpost : 's' ∉ post) (t : List Char) :
    countFrom (leads (owner ++ d :: u)) false (pre ++ owner ++ e :: post ++ t) =
      countFrom (leads (owner ++ d :: u)) (wordAfter (isWord e) post) t := by
  have hstart {before : Bool} {c : Char} {s : List Char}
      (h : leads (owner ++ d :: u) before (c :: s) = true) : c = 's' := eq_of_leads h
  have hsplit : pre ++ owner ++ e :: post ++ t = pre ++ ('s' :: (['e', 'l', 'f', e] ++ (post ++ t))) := by
    simp [owner]
  have hnone : leads (owner ++ d :: u) false ('s' :: (['e', 'l', 'f', e] ++ (post ++ t))) = false := by
    simp [leads, owner, List.isPrefixOf, hd.symm]
  rw [hsplit, countFrom_append_of_not_mem hstart _ _ hpre, hbefore, countFrom_cons, hnone,
    if_neg (by decide), Nat.zero_add,
    countFrom_append_of_not_mem hstart _ _ (by simpa using fun h => he h.symm),
    countFrom_append_of_not_mem hstart _ _ hpost]
  rfl

/-- What is put in to capture the owner comes after the brace or the bracket of the capture list,
and has no use of the owner. After a new capture list the text is read as after a word. -/
structure Captures (body head rest text : List Char) (glued : Bool) : Prop where
  body_eq : body = head ++ rest
  opens : head = [] ∨ ∃ blanks, head = blanks ++ ['['] ∧ blanks.all isBlank = true
  quiet : text.all isQuiet = true
  nonempty : text ≠ []
  plain : text.filter Delimiter.brace.isOf = []
  countFrom_eq : ∀ (d : Char) (u t : List Char), d = '.' ∨ d = '?' → t.head? = rest.head? →
    countFrom (leads (owner ++ d :: u)) false (text ++ t) =
      countFrom (leads (owner ++ d :: u)) glued t
  head_of_glued : glued = true → head = []
  glued_of_used : used.isPrefixOf body = true → glued = true

namespace Captures

variable {body head rest text : List Char} {glued : Bool}

theorem not_mem_head (h : Captures body head rest text glued) : 's' ∉ head := by
  rcases h.opens with rfl | ⟨blanks, rfl, hblank⟩
  · exact List.not_mem_nil
  · intro hmem
    rcases List.mem_append.mp hmem with hmem | hmem
    · exact absurd (List.all_eq_true.mp hblank 's' hmem) (by decide)
    · simp at hmem

theorem wordAfter_head (h : Captures body head rest text glued) : wordAfter false head = false := by
  rcases h.opens with rfl | ⟨blanks, rfl, hblank⟩
  · rfl
  · rw [wordAfter_append]
    show isWord '[' = false
    decide

/-- No use starts before the place of the capture. -/
theorem countFrom_head (h : Captures body head rest text glued) {P : Bool → List Char → Bool}
    (hP : ∀ {before c s}, P before (c :: s) = true → c = 's') (s : List Char) :
    countFrom P false (head ++ s) = countFrom P false s := by
  rw [countFrom_append_of_not_mem hP s false h.not_mem_head, h.wordAfter_head]

end Captures

/-- Behind blanks comes a bracket or one of them. -/
theorem head?_of_blanks {blanks rest : List Char} (hblank : blanks.all isBlank = true) {bracket c : Char}
    (h : (blanks ++ bracket :: rest).head? = some c) : c = bracket ∨ isBlank c = true := by
  cases blanks with
  | nil => exact Or.inl (Option.some.inj h).symm
  | cons b blanks =>
    rw [List.all_cons, Bool.and_eq_true] at hblank
    obtain rfl : b = c := Option.some.inj h
    exact Or.inr hblank.1

/-- What begins with a capture list is no use of the owner. -/
theorem not_used_of_list {blanks rest : List Char} (hblank : blanks.all isBlank = true) :
    ¬ used.isPrefixOf (blanks ++ '[' :: rest) = true := fun huse => by
  obtain ⟨c, hc, hmem⟩ := getElem?_of_used huse (Nat.zero_le 4)
  simp only [used, List.mem_cons, List.not_mem_nil, or_false] at hmem
  rcases head?_of_blanks hblank (List.head?_eq_getElem? ▸ hc) with rfl | hfirst
  · simp at hmem
  · rcases hmem with rfl | rfl | rfl | rfl | rfl <;> exact absurd hfirst (by decide)

/-- Before the blanks or the bracket of an empty list, the owner is not used. -/
theorem countFrom_listed {listed rest u t : List Char} (hempty : (trim listed).isEmpty = true)
    {d : Char} (hd : d = '.' ∨ d = '?') (ht : t.head? = (listed ++ ']' :: rest).head?) :
    countFrom (leads (owner ++ d :: u)) false ("weak self".toList ++ t) =
      countFrom (leads (owner ++ d :: u)) false t := by
  obtain ⟨e, t, rfl⟩ : ∃ e t', t = e :: t' := by
    cases t with
    | nil => cases listed <;> cases ht
    | cons e t => exact ⟨e, t, rfl⟩
  have he : e = ']' ∨ isBlank e = true :=
    head?_of_blanks (all_isBlank_of_trim (List.isEmpty_iff.mp hempty)) ht.symm
  have hother {c : Char} (hc : isBlank c = false) (hbracket : c ≠ ']') : e ≠ c := by
    rintro rfl
    rcases he with rfl | he
    · exact hbracket rfl
    · rw [hc] at he
      cases he
  have hs : e ≠ 's' := hother (by decide) (by decide)
  have hd : e ≠ d := by rcases hd with rfl | rfl <;> exact hother (by decide) (by decide)
  have hcount := countFrom_capture (u := u) "weak ".toList e [] (by decide)
    (by decide) hs hd (by simp) t
  have hfirst : leads (owner ++ d :: u) false (e :: t) = false :=
    Bool.eq_false_iff.mpr fun h => hs (eq_of_leads h)
  rw [countFrom_cons, hfirst, if_neg (by decide), Nat.zero_add]
  exact hcount

/-- A capture list is kept, and the owner comes first in it. -/
theorem captures_list {body blanks listed rest : List Char} (hblank : blanks.all isBlank = true)
    (hbody : body = blanks ++ ['['] ++ listed ++ ']' :: rest) :
    Captures body (blanks ++ ['[']) (listed ++ ']' :: rest)
      ("weak self".toList ++ (if (trim listed).isEmpty then [] else [',', ' '])) false := by
  have hsplit : body = blanks ++ ['['] ++ (listed ++ ']' :: rest) := by rw [hbody, List.append_assoc]
  have hunused : ¬ used.isPrefixOf body = true := by
    rw [hsplit, List.append_assoc]
    exact not_used_of_list hblank
  split
  · next hempty =>
    exact ⟨hsplit, Or.inr ⟨blanks, rfl, hblank⟩, by decide, by decide, by decide,
      fun d u t hd ht => countFrom_listed hempty hd ht, fun h => absurd h Bool.false_ne_true,
      fun huse => absurd huse hunused⟩
  · refine ⟨hsplit, Or.inr ⟨blanks, rfl, hblank⟩, by decide, by decide, by decide, ?_,
      fun h => absurd h Bool.false_ne_true, fun huse => absurd huse hunused⟩
    rintro d u t hd -
    exact countFrom_capture "weak ".toList ',' [' ']
      (by decide) (by decide) (by decide) (by rcases hd with rfl | rfl <;> decide) (by decide) t

/-- A capture list comes before the parameters of a closure. -/
theorem captures_head {body : List Char} (hhead : closureHead.isIn body = true) :
    Captures body [] body " [weak self]".toList false := by
  refine ⟨rfl, Or.inl rfl, by decide, by decide, by decide, ?_,
    fun h => absurd h Bool.false_ne_true, fun huse => ?_⟩
  · rintro d u t hd -
    exact countFrom_capture " [weak ".toList ']' []
      (by decide) (by decide) (by decide) (by rcases hd with rfl | rfl <;> decide) (by decide) t
  · rw [closureHead_of_used huse] at hhead
    cases hhead

/-- A capture list with the word that ends it comes before the statements of a closure. -/
theorem captures_new (body : List Char) : Captures body [] body " [weak self] in".toList true := by
  refine ⟨rfl, Or.inl rfl, by decide, by decide, by decide, ?_, fun _ => rfl, fun _ => rfl⟩
  rintro d u t hd -
  exact countFrom_capture " [weak ".toList ']' " in".toList
    (by decide) (by decide) (by decide) (by rcases hd with rfl | rfl <;> decide) (by decide) t

theorem exists_captures (body : List Char) (start : Nat) : ∃ head rest text glued,
    capture body start "weak" = ⟨start + width head, text⟩ ∧ Captures body head rest text glued := by
  unfold capture
  split
  · next at' listed hlist =>
    obtain ⟨m, hm, hlist⟩ := Option.bind_eq_some_iff.mp hlist
    obtain ⟨span, hspan, hlist⟩ := Option.map_eq_some_iff.mp hlist
    obtain ⟨rfl, rfl⟩ := Prod.mk.inj hlist
    have hlisted : m.groupText? 1 body = some (capture.captured m body) := by
      rw [capture.captured, Match.groupText?, hspan]
      rfl
    obtain ⟨blanks, rest, hbody, hblank, hwidth⟩ := captureList_parts hm hspan hlisted
    exact ⟨_, _, _, _, by rw [hwidth]; rfl, captures_list hblank hbody⟩
  · cases hhead : closureHead.isIn body with
    | true => exact ⟨[], body, _, _, rfl, captures_head hhead⟩
    | false => exact ⟨[], body, _, _, rfl, captures_new body⟩

/-! ## Counting matches -/

/-- A chained use of the owner's members. -/
def chainedMember : Pattern := boundary ++ lit "self?."

theorem marks_selfMember : Marks selfMember (leads used) used.length :=
  marks_bounded (w := "self.") (c := 's') rfl (by decide) (by decide)

theorem marks_chainedMember : Marks chainedMember (leads chained) chained.length :=
  marks_bounded (w := "self?.") (c := 's') rfl (by decide) (by decide)

theorem marks_owner : Marks (whole "self") (leadsAlone owner) owner.length :=
  marks_whole (w := "self") (c := 's') rfl (by decide) (by decide)

/-- A word at the start of a text is not read after a word character, and the others are. -/
theorem countFrom_glued (c : Char) (word s : List Char) :
    countFrom (leads (c :: word)) false s =
      countFrom (leads (c :: word)) true s + if leads (c :: word) false s then 1 else 0 := by
  cases s with
  | nil => rw [leads_nil]; rfl
  | cons d s =>
    have htrue : leads (c :: word) true (d :: s) = false := by simp [leads]
    rw [countFrom_cons, countFrom_cons, htrue]
    simp only [Bool.false_eq_true, if_false]
    omega

/-! ## The closure with its owner captured -/

/-- Texts to put in are in order if they are sorted already, up to the last one, which comes first. -/
theorem mergeSort_concat {first : Insertion} {later : List Insertion}
    (h : (first :: later).Pairwise fun a b => a.offset < b.offset) :
    ((later ++ [first]).mergeSort fun a b => a.offset ≤ b.offset) = first :: later := by
  have hperm : ((later ++ [first]).mergeSort fun a b => a.offset ≤ b.offset).Perm (first :: later) :=
    (List.mergeSort_perm _ _).trans List.perm_append_comm
  have hnodup : ((first :: later).map Insertion.offset).Nodup :=
    List.pairwise_map.mpr (h.imp Nat.ne_of_lt)
  refine hperm.eq_of_pairwise
    (fun a b ha hb hab hba => List.inj_on_of_nodup_map hnodup (hperm.mem_iff.mp ha) hb ?_)
    (List.pairwise_mergeSort (fun a b c hab hbc => ?_) (fun a b => ?_) _) (h.imp fun hlt => ?_)
  · exact Nat.le_antisymm (of_decide_eq_true hab) (of_decide_eq_true hba)
  · exact decide_eq_true (Nat.le_trans (of_decide_eq_true hab) (of_decide_eq_true hbc))
  · simpa using Nat.le_total a.offset b.offset
  · exact decide_eq_true (Nat.le_of_lt hlt)

variable {tail front body rest : List Char}

/-- The question marks come where the mask shows the word for the owner. -/
theorem shownBefore_chain {s pre mid post : List Char} (hs : mask .swift s = pre ++ mid ++ post) {x : Nat}
    (hx : x ∈ placesFrom (leads used) false (width pre) mid) :
    ShownBefore .swift s (chainMark x).offset := by
  obtain ⟨before, c, back, rfl, rfl, hlead⟩ := mem_placesFrom.mp hx
  obtain ⟨later, hlater⟩ := List.isPrefixOf_iff_prefix.mp (Bool.and_eq_true_iff.mp hlead).2
  refine ⟨'f', pre ++ before ++ ['s', 'e', 'l'], '.' :: later ++ post, ?_, by decide, by decide, ?_⟩
  · rw [hs, ← hlater]
    simp [used]
  · rw [width_append, width_append]
    rfl

/-- The owner is captured after a brace or a bracket that the mask shows. -/
theorem Captures.shownBefore {head later text : List Char} {glued : Bool}
    (hcap : Captures body head later text glued)
    (hmask : mask .swift tail = front ++ '\x7b' :: (body ++ '\x7d' :: rest)) :
    ShownBefore .swift tail (width (front ++ '\x7b' :: head)) := by
  have hsource : mask .swift tail = front ++ '\x7b' :: head ++ (later ++ '\x7d' :: rest) := by
    rw [hmask, hcap.body_eq]
    simp
  rcases hcap.opens with rfl | ⟨blanks, rfl, -⟩
  · exact ⟨'\x7b', front, _, by rw [hsource, ← List.append_cons], by decide, by decide, by
      rw [width_append]; rfl⟩
  · refine ⟨'[', front ++ '\x7b' :: blanks, later ++ '\x7d' :: rest, ?_, by decide, by decide, ?_⟩
    · rw [hsource]
      simp
    · have hsplit : front ++ '\x7b' :: (blanks ++ ['[']) = (front ++ '\x7b' :: blanks) ++ ['['] := by simp
      rw [hsplit, width_append (front ++ '\x7b' :: blanks)]
      rfl

/-- What is put in: the capture, and a question mark in each use after it. -/
def captureMarks (front head later text : List Char) : List Insertion :=
  ⟨width (front ++ '\x7b' :: head), text⟩ ::
    (placesFrom (leads used) false (width (front ++ '\x7b' :: head)) later).map chainMark

theorem pairwise_captureMarks (front head later text : List Char) :
    (captureMarks front head later text).Pairwise fun a b => a.offset < b.offset := by
  refine List.pairwise_cons.mpr ⟨fun i hi => ?_, List.pairwise_map.mpr
    ((pairwise_placesFrom _ _ _).imp fun hlt => Nat.add_lt_add_right hlt owner.length)⟩
  obtain ⟨x, hx, rfl⟩ := List.mem_map.mp hi
  exact Nat.lt_of_le_of_lt (le_of_mem_placesFrom hx) (Nat.lt_add_of_pos_right (by decide))

theorem Captures.source_eq {head later text : List Char} {glued : Bool}
    (hcap : Captures body head later text glued)
    (hmask : mask .swift tail = front ++ '\x7b' :: (body ++ '\x7d' :: rest)) :
    mask .swift tail = front ++ '\x7b' :: head ++ later ++ '\x7d' :: rest := by
  rw [hmask, hcap.body_eq]
  simp

/-- What is put in comes where the mask shows what it does. -/
theorem Captures.seen {head later text : List Char} {glued : Bool}
    (hcap : Captures body head later text glued)
    (hmask : mask .swift tail = front ++ '\x7b' :: (body ++ '\x7d' :: rest)) :
    ∀ i ∈ captureMarks front head later text, Seen .swift tail i := by
  intro i hi
  rcases List.mem_cons.mp hi with rfl | hi
  · exact ⟨hcap.quiet, hcap.nonempty, hcap.shownBefore hmask⟩
  · obtain ⟨x, hx, rfl⟩ := List.mem_map.mp hi
    have hquiet : ['?'].all isQuiet = true := by decide
    exact ⟨hquiet, List.cons_ne_nil _ _, shownBefore_chain (hcap.source_eq hmask) hx⟩

/-- The template puts these in, since the uses come after the place of the capture. -/
theorem Captures.insertions_eq {head later text : List Char} {glued : Bool}
    (hcap : Captures body head later text glued) (front : List Char) :
    ((placesFrom (leads used) false 0 body).map
      (fun at' => (⟨width front + 1 + at' + 4, ['?']⟩ : Insertion)) ++
        [(⟨width front + 1 + width head, text⟩ : Insertion)]).mergeSort
          (fun a b => a.offset ≤ b.offset) =
      captureMarks front head later text := by
  have hplaces : placesFrom (leads used) false 0 body =
      placesFrom (leads used) false (width head) later := by
    rw [hcap.body_eq, placesFrom_append_of_not_mem (P := leads used) eq_of_leads later false 0
      hcap.not_mem_head, hcap.wordAfter_head, Nat.zero_add]
  have hfront : width (front ++ '\x7b' :: head) = width front + 1 + width head := by
    rw [width_append, width, Nat.add_assoc]
    rfl
  have hlist : (placesFrom (leads used) false 0 body).map
      (fun at' => (⟨width front + 1 + at' + 4, ['?']⟩ : Insertion)) =
        (placesFrom (leads used) false (width (front ++ '\x7b' :: head)) later).map chainMark := by
    rw [hplaces, hfront, placesFrom_add, List.map_map]
    rfl
  rw [hlist, ← hfront]
  exact mergeSort_concat (pairwise_captureMarks front head later text)

/-- In the masked text of the closure that holds its owner weakly, the body has the capture and
question marks in each use. -/
theorem mask_captured (hmask : mask .swift tail = front ++ '\x7b' :: (body ++ '\x7d' :: rest))
    (halone : countFrom (leadsAlone owner) false body = countFrom (leads used) false body)
    {head later text weak : List Char} {glued : Bool} (hcap : Captures body head later text glued)
    (hinsert : insertAll ((placesFrom (leads used) false 0 body).map
      (fun at' => ⟨width front + 1 + at' + 4, ['?']⟩) ++ [⟨width front + 1 + width head, text⟩]) tail =
          .ok weak) :
    ∃ later', Chained false later later' ∧
      mask .swift weak = front ++ '\x7b' :: (head ++ text ++ later' ++ '\x7d' :: rest) := by
  have hcount : countFrom (leadsAlone owner) false later = countFrom (leads used) false later := by
    rwa [hcap.body_eq, hcap.countFrom_head (P := leadsAlone owner) eq_of_leadsAlone,
      hcap.countFrom_head (P := leads used) eq_of_leads] at halone
  obtain ⟨later', hchained, hmarks⟩ :=
    exists_chained ('\x7d' :: rest) (front ++ '\x7b' :: head) later false hcount
  rw [insertAll, hcap.insertions_eq] at hinsert
  have hmasked := mask_insertFrom (hcap.seen hmask) hinsert
  have hboth : insertFrom (mask .swift tail) 0 (captureMarks front head later text) =
      .ok (front ++ '\x7b' :: head ++ text ++ (later' ++ '\x7d' :: rest)) := by
    rw [hcap.source_eq hmask]
    exact insertFrom_cons (between_eq [] _ (later ++ '\x7d' :: rest) (by simp) rfl
      (Nat.zero_add _)) hmarks
  refine ⟨later', hchained, ?_⟩
  rw [Except.ok.inj (hmasked.symm.trans hboth)]
  simp

variable {w : Window} {d : Draft}

/-- What the template looks at, and the text that it makes of the lines from the focus on. -/
theorem exists_of_weakSelfCapture {column : Option Nat} (h : (weakSelfCapture column w).Gives d) :
    ∃ tail front body rest weak, offsetOf? column = some (width front) ∧
      mask .swift tail = front ++ '\x7b' :: (body ++ '\x7d' :: rest) ∧
      nested .brace 1 body = some 1 ∧
      countFrom (leadsAlone owner) false body = countFrom (leads used) false body ∧
      insertAll ((placesFrom (leads used) false 0 body).map
        (fun at' => ⟨width front + 1 + at' + 4, ['?']⟩) ++
          [capture body (width front + 1) "weak"]) tail = .ok weak ∧
      w.tailFrom? w.focus = some tail ∧
      w.span? w.focus (w.focus + (LineIndex.of tail).lineOf (width front + 1 + width body) - 1) =
        some d.replaced ∧
      d.suggested = (rows weak).take ((LineIndex.of tail).lineOf (width front + 1 + width body)) := by
  simp only [weakSelfCapture, gives_bind, gives_of, gives_lift, gives_require, gives_pure] at h
  obtain ⟨opening, hopening, tail, htail, -, hbrace, close, hclose, body, hbody, -, huses, weak,
    hweak, unowned, -, replaced, hreplaced, rfl⟩ := h
  obtain ⟨kind, front, mid, rest, hmask, rfl, rfl, hmid⟩ := matchingClose_iff.mp hclose
  obtain rfl : kind = .brace := by
    rw [hmask, from?_eq, splitAt?_width] at hbrace
    cases kind <;> first | rfl | cases hbrace
  obtain rfl : mid = body := by
    have hpart := between_eq (s := mask .swift tail) (front ++ ['\x7b']) mid
      ('\x7d' :: rest) (by rw [hmask]; simp [Delimiter.opener, Delimiter.closer])
      (width_append _ _) rfl
    exact Except.ok.inj (hpart.symm.trans hbody)
  rw [Bool.and_eq_true, beq_iff_eq, List.length_map] at huses
  have halone := huses.2
  rw [marks_owner.length_findAll rfl, marks_selfMember.length_findAll rfl] at halone
  rw [marks_selfMember.starts_findAll rfl] at hweak
  exact ⟨tail, front, mid, rest, weak, hopening, hmask, hmid, halone, hweak, htail, hreplaced, rfl⟩

/-- Of the characters that are not put in, the body has the same. -/
theorem Captures.filter_eq {head later text later' : List Char} {glued : Bool}
    (hcap : Captures body head later text glued) (hchained : Chained false later later')
    {p : Char → Bool} (hp : p '?' = false) (htext : text.filter p = []) :
    (head ++ text ++ later').filter p = body.filter p := by
  rw [hcap.body_eq, List.filter_append, List.filter_append, List.filter_append, htext,
    List.append_nil, hchained.filter_eq hp]

/-- The line where a body ends is told by the line feeds in it and before it. -/
theorem lineOf_body {language : Language} {text front body rest : List Char}
    (h : mask language text = front ++ '\x7b' :: (body ++ rest)) :
    (LineIndex.of text).lineOf (width front + 1 + width body) =
      front.count '\n' + (body.filter (· == '\n')).length + 1 := by
  have hsplit : mask language text = (front ++ '\x7b' :: body) ++ rest := by rw [h]; simp
  have hwidth : width front + 1 + width body = width (front ++ '\x7b' :: body) := by
    rw [width_append, width, Nat.add_assoc]
    rfl
  rw [hwidth, ← of_mask language text, hsplit, LineIndex.lineOf_width, length_rows,
    List.count_append, List.count_cons_of_ne (by decide), List.count_eq_length_filter (l := body)]

/-- The body that holds its owner weakly ends in the same line. -/
theorem Captures.lineOf_eq {weak head later text later' rest' : List Char} {glued : Bool}
    (hcap : Captures body head later text glued) (hchained : Chained false later later')
    (hmask : mask .swift tail = front ++ '\x7b' :: (body ++ rest))
    (hmask' : mask .swift weak = front ++ '\x7b' :: (head ++ text ++ later' ++ rest')) :
    (LineIndex.of weak).lineOf (width front + 1 + width (head ++ text ++ later')) =
      (LineIndex.of tail).lineOf (width front + 1 + width body) := by
  have hplain : text.filter (· == '\n') = [] := List.filter_eq_nil_iff.mpr fun c hc => by
    simpa using ne_newline (List.all_eq_true.mp hcap.quiet c hc)
  have hfilter := hcap.filter_eq hchained (p := (· == '\n')) (by decide) hplain
  rw [lineOf_body hmask', lineOf_body hmask, hfilter]

/-- In the closure that holds its owner weakly no use of the owner is left, and each use in the
closure is chained, except for one that follows the brace at once. -/
theorem weakSelfCapture_chained (column : Option Nat) (hw : w.Plain)
    (h : (weakSelfCapture column w).Gives d) : ∃ opening body body',
      offsetOf? column = some opening ∧
      closureBody? opening (Window.joined d.replaced) = some body ∧
      closureBody? opening (Window.joined d.suggested) = some body' ∧
      selfMember.findAll body' = [] ∧
      (chainedMember.findAll body').length + (if startsWith body "self." then 1 else 0) =
        (selfMember.findAll body).length := by
  obtain ⟨tail, front, body, rest, weak, hopening, hmask, hbody, halone, hweak, htail, hreplaced,
    hsuggested⟩ := exists_of_weakSelfCapture h
  obtain ⟨head, later, text, glued, hcapture, hcap⟩ := exists_captures body (width front + 1)
  rw [hcapture] at hweak
  obtain ⟨later', hchained, hmask'⟩ := mask_captured hmask halone hcap hweak
  have hnested : nested .brace 1 (head ++ text ++ later') = some 1 := by
    rw [nested_congr (hcap.filter_eq hchained (by decide) hcap.plain), hbody]
  have hclose := matchingClose_iff.mpr ⟨.brace, front, body, rest, hmask, rfl, rfl, hbody⟩
  have hclose' := matchingClose_iff.mpr
    ⟨.brace, front, head ++ text ++ later', rest, hmask', rfl, rfl, hnested⟩
  have hline := hcap.lineOf_eq hchained hmask hmask'
  have hcount (d : Char) (u : List Char) (hd : d = '.' ∨ d = '?') :
      countFrom (leads (owner ++ d :: u)) false (head ++ text ++ later') =
        countFrom (leads (owner ++ d :: u)) glued later' := by
    rw [List.append_assoc, hcap.countFrom_head (P := leads (owner ++ d :: u)) eq_of_leads,
      hcap.countFrom_eq d u later' hd hchained.head?_eq]
  refine ⟨width front, body, head ++ text ++ later', hopening, ?_, ?_, ?_, ?_⟩
  · have hrows := take_rows_of_span (n := (LineIndex.of tail).lineOf (width front + 1 + width body))
      hw (Nat.le_add_left 1 _) htail hreplaced
    rw [hrows, closureBody?_take_rows hclose]
    exact closureBody?_of_mask .brace hmask hbody
  · rw [hsuggested, ← hline, closureBody?_take_rows hclose']
    exact closureBody?_of_mask .brace hmask' hnested
  · rw [← List.length_eq_zero_iff, marks_selfMember.length_findAll rfl]
    have hglued := countFrom_glued 's' ['e', 'l', 'f', '.'] later'
    rw [show countFrom (leads ['s', 'e', 'l', 'f', '.']) false later' = 0 from
      hchained.countFrom_used] at hglued
    have hused := hcount '.' [] (Or.inl rfl)
    cases glued with
    | false => exact hused.trans hchained.countFrom_used
    | true => exact hused.trans (by simp only [owner, List.cons_append, List.nil_append]; omega)
  · have huses : countFrom (leads chained) false later' = countFrom (leads used) false body := by
      rw [hchained.countFrom_chained, hcap.body_eq,
        hcap.countFrom_head (P := leads used) eq_of_leads later]
    have hchain := hcount '?' ['.'] (Or.inr rfl)
    rw [marks_chainedMember.length_findAll rfl, marks_selfMember.length_findAll rfl, ← huses]
    show countFrom (leads chained) false (head ++ text ++ later') +
      (if used.isPrefixOf body then 1 else 0) = _
    cases glued with
    | false =>
      rw [if_neg fun huse => Bool.false_ne_true (hcap.glued_of_used huse)]
      exact hchain
    | true =>
      -- what follows the brace comes after the word that ends the new capture list
      have hbody : leads chained false later' = used.isPrefixOf body := by
        rw [hchained.leads_chained, hcap.body_eq, hcap.head_of_glued rfl]
        rfl
      have hglued := countFrom_glued 's' ['e', 'l', 'f', '?', '.'] later'
      rw [show leads ['s', 'e', 'l', 'f', '?', '.'] false later' = _ from hbody] at hglued
      exact (congrArg (· + _) hchain).trans hglued.symm

/-! ### Closures of one line -/

/-- An iOS window that shows one line. -/
def closureWindow (line : String) : Window :=
  { path := ⟨"/app/A.swift"⟩, language := .swift, firstLine := 1, lines := [line.toList]
    focus := 1, lineEnding := "\n" }

/-- The draft that makes a closure of one line hold its owner weakly. -/
def weakClosure (line weak unowned : String) : Draft :=
  { firstLine := 1, replaced := [line.toList], suggested := [weak.toList]
    title := "Capture self weakly"
    description := "The escaping closure no longer keeps its owner alive, breaking the retain cycle."
    alternatives := [{ title := "Capture self unowned"
                       tradeoff := "No optional chaining, but crashes if the closure runs after self is gone"
                       confidence := 55, suggestedCode := some unowned }] }

theorem plain_closureWindow {line : String} (h : '\n' ∉ line.toList) :
    (closureWindow line).Plain := by
  intro l hl
  rw [List.mem_singleton.mp hl]
  exact h

/-- A closure with a parameter and two uses of its owner, and what is made of it. -/
def loadLine : String := "api.load \x7b r in self.show(r); self.done() \x7d"

/-- The draft for it. -/
def loadDraft : Draft :=
  weakClosure loadLine "api.load \x7b [weak self] r in self?.show(r); self?.done() \x7d"
    "api.load \x7b [unowned self] r in self.show(r); self.done() \x7d"

/-- Both uses of the owner are chained. -/
theorem weakSelfCapture_chained_load : (closureWindow loadLine).Plain ∧
    (weakSelfCapture (some 10) (closureWindow loadLine)).Gives loadDraft ∧
    ∃ opening body body', offsetOf? (some 10) = some opening ∧
      closureBody? opening (Window.joined loadDraft.replaced) = some body ∧
      closureBody? opening (Window.joined loadDraft.suggested) = some body' ∧
      selfMember.findAll body' = [] ∧ (chainedMember.findAll body').length = 2 ∧
      (selfMember.findAll body).length = 2 := by
  -- The texts are spelt out, for the kernel is slow to decode one each time it is looked at.
  have hline : loadLine.toList = _ := String.toList_ofList
  have hinside : " r in self.show(r); self.done() ".toList = _ := String.toList_ofList
  have hweak : "api.load \x7b [weak self] r in self?.show(r); self?.done() \x7d".toList = _ :=
    String.toList_ofList
  have hunowned : "api.load \x7b [unowned self] r in self.show(r); self.done() \x7d".toList = _ :=
    String.toList_ofList
  have hplain : (closureWindow loadLine).Plain := plain_closureWindow (by rw [hline]; decide)
  have hgives : (weakSelfCapture (some 10) (closureWindow loadLine)).Gives loadDraft := by
    simp only [weakSelfCapture, gives_bind, gives_of, gives_lift, gives_require, gives_pure]
    refine ⟨9, rfl, loadLine.toList, ?_, (), ?_, 42, ?_, " r in self.show(r); self.done() ".toList,
      ?_, (), ?_, "api.load \x7b [weak self] r in self?.show(r); self?.done() \x7d".toList, ?weak,
      "api.load \x7b [unowned self] r in self.show(r); self.done() \x7d".toList, ?unowned,
      [loadLine.toList], ?_, ?_⟩
    case weak =>
      rw [insertAll, mergeSort_concat (by decide +kernel), hline, hinside, hweak]
      decide +kernel
    case unowned =>
      rw [insertAll, List.mergeSort_singleton, hline, hunowned]
      decide +kernel
    all_goals
      simp only [closureWindow, loadDraft, weakClosure, hline, hinside, hweak, hunowned]
      decide +kernel
  obtain ⟨opening, body, body', hopening, hbody, hbody', hnone, hcount⟩ :=
    weakSelfCapture_chained (some 10) hplain hgives
  obtain rfl : 9 = opening := Option.some.inj hopening
  have hold : closureBody? 9 (Window.joined loadDraft.replaced) =
      some " r in self.show(r); self.done() ".toList := by decide +kernel
  obtain rfl := Option.some.inj (hold.symm.trans hbody)
  have htwo : (selfMember.findAll " r in self.show(r); self.done() ".toList).length = 2 := by
    decide +kernel
  rw [htwo] at hcount
  exact ⟨hplain, hgives, 9, _, body', rfl, hbody, hbody', hnone, hcount, htwo⟩

/-- A closure that starts with a use of its owner right after the brace. -/
def renderLine : String := "api.fetch.sink \x7bself.render()\x7d"

/-- The draft for it. -/
def renderDraft : Draft :=
  weakClosure renderLine "api.fetch.sink \x7b [weak self] inself?.render()\x7d"
    "api.fetch.sink \x7b [unowned self] inself.render()\x7d"

/-- A use that follows the brace at once is glued to the word before it: the body has one use of the
owner, and the body with the capture has no chained use. -/
theorem not_weakSelfCapture_chained : ∃ body body', (closureWindow renderLine).Plain ∧
    (weakSelfCapture (some 16) (closureWindow renderLine)).Gives renderDraft ∧
    offsetOf? (some 16) = some 15 ∧
    closureBody? 15 (Window.joined renderDraft.replaced) = some body ∧
    closureBody? 15 (Window.joined renderDraft.suggested) = some body' ∧
    (selfMember.findAll body).length = 1 ∧ (chainedMember.findAll body').length = 0 := by
  have hline : renderLine.toList = _ := String.toList_ofList
  have hweak : "api.fetch.sink \x7b [weak self] inself?.render()\x7d".toList = _ :=
    String.toList_ofList
  have hunowned : "api.fetch.sink \x7b [unowned self] inself.render()\x7d".toList = _ :=
    String.toList_ofList
  refine ⟨"self.render()".toList, " [weak self] inself?.render()".toList,
    plain_closureWindow (by rw [hline]; decide), ?_, rfl, by decide +kernel, by decide +kernel,
    by decide +kernel, by decide +kernel⟩
  simp only [weakSelfCapture, gives_bind, gives_of, gives_lift, gives_require, gives_pure]
  refine ⟨15, rfl, renderLine.toList, ?_, (), ?_, 29, ?_, "self.render()".toList, ?_, (),
    by decide +kernel, "api.fetch.sink \x7b [weak self] inself?.render()\x7d".toList, ?weak,
    "api.fetch.sink \x7b [unowned self] inself.render()\x7d".toList, ?unowned, [renderLine.toList],
    ?_, ?_⟩
  case weak =>
    rw [insertAll, mergeSort_concat (by decide +kernel), hline, hweak]
    decide +kernel
  case unowned =>
    rw [insertAll, List.mergeSort_singleton, hline, hunowned]
    decide +kernel
  all_goals
    simp only [closureWindow, renderDraft, weakClosure, hline, hweak, hunowned]
    decide +kernel

end Mend.Synthesis
