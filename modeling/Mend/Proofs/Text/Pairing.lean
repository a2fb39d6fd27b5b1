import Mend.Proofs.Checked.Context
import Mend.Proofs.Text.Balance
import Mend.Proofs.Text.Closing
import Mathlib.Data.List.Nodup
import Mathlib.Data.List.Perm.Subperm
import Mathlib.Data.Set.Function
import Mathlib.Order.Bounds.Basic

/-!
# Pairs in balanced texts

Counting brackets and looking for the closer of one opener are two views of the same nesting. A
closer that the nesting has for an opener is the first place where as many brackets of the kind are
closed as are opened from the opener on (`matchingClose_eq_some_iff`), and no two openers have one
closer (`matchingClose_inj`).

The count over a whole text is balanced exactly if each kind nests in it
(`Balance.isBalanced_after_iff`), and then every opener has a closer. There are as many closers as
openers, so each of them belongs to one (`perm_of_nested`). Where the openers and the closers go in
pairs, no closer comes too early and no opener is left over (`nested_of_perm`).
-/

namespace Mend.Text

variable {kind : Delimiter} {s : List Char}

/-- The offsets at which a pair of the kind is opened. -/
def openers (kind : Delimiter) (s : List Char) : List Nat := offsetsOf (· == kind.opener) s

/-- The offsets at which a pair of the kind is closed. -/
def closers (kind : Delimiter) (s : List Char) : List Nat := offsetsOf (· == kind.closer) s

/-! ## Nesting -/

theorem pos_of_nested : ∀ {depth depth' : Nat} {s : List Char}, 0 < depth →
    nested kind depth s = some depth' → 0 < depth'
  | _, _, [], hdepth, h => by
    rw [nested, Option.some.injEq] at h
    omega
  | depth, _, c :: s, hdepth, h => by
    rw [nested] at h
    split at h
    · exact pos_of_nested (Nat.succ_pos depth) h
    split at h
    · split at h
      · cases h
      · exact pos_of_nested (by omega) h
    · exact pos_of_nested hdepth h

/-- What is open around a text is still open after it. -/
theorem nested_add (more : Nat) : ∀ {depth depth' : Nat} {s : List Char}, 0 < depth →
    nested kind depth s = some depth' → nested kind (depth + more) s = some (depth' + more)
  | _, _, [], _, h => by
    rw [nested, Option.some.injEq] at h ⊢
    rw [h]
  | depth, _, c :: s, hdepth, h => by
    rw [nested] at h ⊢
    split at h
    · next hc =>
      rw [if_pos hc, Nat.add_right_comm]
      exact nested_add more (Nat.succ_pos depth) h
    next hopener =>
    rw [if_neg hopener]
    split at h
    · next hc =>
      split at h
      · cases h
      · have hrest := nested_add more (show 0 < depth - 1 by omega) h
        rwa [if_pos hc, if_neg (by omega), Nat.sub_add_comm hdepth]
    · next hc =>
      rw [if_neg hc]
      exact nested_add more hdepth h

/-- Where the nesting fails, there is a first closer too many. -/
theorem exists_of_nested_eq_none : ∀ {depth : Nat} {s : List Char}, nested kind depth s = none →
    ∃ mid rest, s = mid ++ kind.closer :: rest ∧ nested kind depth mid = some 1
  | _, [], h => by cases h
  | depth, c :: s, h => by
    have hlater {depth'} (hstep : ∀ mid, nested kind depth (c :: mid) = nested kind depth' mid)
        (h : nested kind depth' s = none) :
        ∃ mid rest, c :: s = mid ++ kind.closer :: rest ∧ nested kind depth mid = some 1 := by
      obtain ⟨mid, rest, rfl, hmid⟩ := exists_of_nested_eq_none h
      exact ⟨c :: mid, rest, rfl, (hstep mid).trans hmid⟩
    rw [nested] at h
    split at h
    · next hc => exact hlater (fun mid => by rw [nested, if_pos hc]) h
    next hopener =>
    split at h
    · next hc =>
      split at h
      · next hdepth => exact ⟨[], s, by rw [hc]; rfl, congrArg some hdepth⟩
      · next hdepth =>
        exact hlater (fun mid => by rw [nested, if_neg hopener, if_pos hc, if_neg hdepth]) h
    · next hc => exact hlater (fun mid => by rw [nested, if_neg hopener, if_neg hc]) h

/-- An opener and a text that nests behind it leave one more pair open. -/
theorem nested_opener (depth : Nat) {mid : List Char} (hmid : nested kind 1 mid = some 1) :
    nested kind depth (kind.opener :: mid) = some (depth + 1) := by
  have h := nested_add depth Nat.one_pos hmid
  rwa [nested, if_pos rfl, Nat.add_comm]

/-! ## The closer of an opener -/

theorem opener_injective : Function.Injective Delimiter.opener := fun a b h => by
  cases a <;> cases b <;> first | rfl | exact absurd h (by decide)

theorem closer_injective : Function.Injective Delimiter.closer := fun a b h => by
  cases a <;> cases b <;> first | rfl | exact absurd h (by decide)

theorem matchingClose_opener_iff {front back : List Char} {close : Nat} :
    matchingClose (front ++ kind.opener :: back) (width front) = some close ↔
      ∃ mid rest, back = mid ++ kind.closer :: rest ∧ width front + 1 + width mid = close ∧
        nested kind 1 mid = some 1 := by
  rw [matchingClose_iff]
  constructor
  · rintro ⟨kind', front', mid, rest, hs, hwidth, hclose, hmid⟩
    obtain ⟨rfl, htail⟩ := append_inj_of_width hs hwidth.symm
    obtain ⟨hkind, hback⟩ := List.cons.inj htail
    obtain rfl := opener_injective hkind
    exact ⟨mid, rest, hback, hclose, hmid⟩
  · rintro ⟨mid, rest, rfl, hclose, hmid⟩
    exact ⟨kind, front, mid, rest, rfl, rfl, hclose, hmid⟩

theorem exists_of_mem_openers {opening : Nat} (h : opening ∈ openers kind s) :
    ∃ front back, s = front ++ kind.opener :: back ∧ width front = opening := by
  obtain ⟨front, c, back, rfl, hwidth, hc⟩ := exists_of_mem_offsetsOf h
  exact ⟨front, back, by rw [beq_iff_eq.mp hc], hwidth⟩

theorem size_closer (kind : Delimiter) : kind.closer.utf8Size = 1 := by
  cases kind <;> rfl

/-! ## Where as many are closed as opened -/

/-- As many brackets of the kind are closed as are opened, from one offset to another. -/
def Evens (kind : Delimiter) (s : List Char) (first last : Nat) : Prop :=
  (cut first (last + 1) s).count kind.opener = (cut first (last + 1) s).count kind.closer

/-- In the text behind an opener more brackets are open than closed, as long as the nesting goes
on. -/
theorem count_lt_of_prefix {depth : Nat} {mid part : List Char}
    (hmid : nested kind 1 mid = some depth) (hpart : part <+: kind.opener :: mid) (hne : part ≠ []) :
    part.count kind.closer < part.count kind.opener := by
  obtain ⟨c, front, rfl⟩ := List.exists_cons_of_ne_nil hne
  obtain ⟨rfl, back, rfl⟩ := List.cons_prefix_cons.mp hpart
  rw [nested_append] at hmid
  obtain ⟨depth', hfront, -⟩ := Option.bind_eq_some_iff.mp hmid
  have hcount := count_of_nested Nat.one_pos hfront
  have hpos := pos_of_nested Nat.one_pos hfront
  rw [List.count_cons_self, List.count_cons_of_ne (opener_ne_closer kind)]
  omega

/-- What is cut out from an offset on stands in front of the text from there on. -/
theorem prefix_cut (front back : List Char) (c : Char) {last : Nat} (h : width front ≤ last) :
    cut (width front) (last + 1) (front ++ c :: back) <+: c :: back ∧
      cut (width front) (last + 1) (front ++ c :: back) ≠ [] := by
  rw [cut, cutFrom_append_left (by omega) front _ (by omega), Nat.zero_add]
  refine ⟨prefix_cutFrom _ _ _ _ (Nat.le_refl _), ?_⟩
  rw [cutFrom, if_neg (by omega), if_pos (Nat.le_refl _)]
  exact List.cons_ne_nil _ _

/-- What is cut out up to an offset in a part stands in front of the part. -/
theorem prefix_cut_of_lt {front mid : List Char} {c : Char} (rest : List Char) {last : Nat}
    (h : width front ≤ last) (hlt : last < width front + width (c :: mid)) :
    cut (width front) (last + 1) (front ++ c :: (mid ++ rest)) <+: c :: mid := by
  have hcut := (prefix_cut front (mid ++ rest) c h).1
  have hwhole : c :: mid <+: c :: (mid ++ rest) := ⟨rest, rfl⟩
  rcases List.prefix_or_prefix_of_prefix hcut hwhole with hpart | ⟨more, hmore⟩
  · exact hpart
  cases more with
  | nil => exact ⟨[], by rw [← hmore]; simp⟩
  | cons d more =>
    have hwidth := width_lt_of_cut hmore.symm
    omega

theorem not_evens_of_nested {front back : List Char} {depth last : Nat}
    (hback : nested kind 1 back = some depth) (h : width front ≤ last) :
    ¬ Evens kind (front ++ kind.opener :: back) (width front) last := fun heven => by
  obtain ⟨hpart, hne⟩ := prefix_cut front back kind.opener h
  have hlt := count_lt_of_prefix hback hpart hne
  rw [Evens] at heven
  omega

/-- The closer of an opener is the first place where as many are closed as opened. -/
theorem isLeast_of_nested (front rest : List Char) {mid : List Char}
    (hmid : nested kind 1 mid = some 1) :
    IsLeast {last | width front ≤ last ∧
        Evens kind (front ++ kind.opener :: (mid ++ kind.closer :: rest)) (width front) last}
      (width front + 1 + width mid) := by
  refine ⟨⟨by omega, ?_⟩, fun last ⟨hle, heven⟩ => ?_⟩
  · have hcut := cut_append front (kind.opener :: mid ++ [kind.closer]) rest
    have hwidth : width (kind.opener :: mid ++ [kind.closer]) = 1 + width mid + 1 := by
      rw [width_append, width, width, width, size_opener, size_closer, Nat.add_zero]
    have htext : front ++ (kind.opener :: mid ++ [kind.closer]) ++ rest =
        front ++ kind.opener :: (mid ++ kind.closer :: rest) := by simp
    have hcount := count_of_nested Nat.one_pos hmid
    have hne := opener_ne_closer kind
    rw [hwidth, htext] at hcut
    rw [Evens, Nat.add_assoc (width front), Nat.add_assoc (width front), hcut, List.count_append,
      List.count_append, List.count_cons_self, List.count_cons_of_ne hne,
      List.count_singleton_self, List.count_singleton, beq_false_of_ne hne.symm]
    simp only [Bool.false_eq_true, if_false]
    omega
  · by_contra hlt
    -- what is cut out ends before the closer
    have hinside : last < width front + width (kind.opener :: mid) := by
      rw [width, size_opener]
      omega
    have hne := (prefix_cut front (mid ++ kind.closer :: rest) kind.opener hle).2
    have hcount := count_lt_of_prefix hmid (prefix_cut_of_lt _ hle hinside) hne
    rw [Evens] at heven
    omega

theorem matchingClose_eq_some_iff {opening : Nat} (h : opening ∈ openers kind s) {close : Nat} :
    matchingClose s opening = some close ↔
      IsLeast {last | opening ≤ last ∧ Evens kind s opening last} close := by
  obtain ⟨front, back, rfl, rfl⟩ := exists_of_mem_openers h
  constructor
  · intro hclose
    obtain ⟨mid, rest, rfl, rfl, hmid⟩ := matchingClose_opener_iff.mp hclose
    exact isLeast_of_nested front rest hmid
  · intro hleast
    cases hback : nested kind 1 back with
    | some depth => exact absurd hleast.1.2 (not_evens_of_nested hback hleast.1.1)
    | none =>
      obtain ⟨mid, rest, rfl, hmid⟩ := exists_of_nested_eq_none hback
      exact matchingClose_opener_iff.mpr
        ⟨mid, rest, rfl, (isLeast_of_nested front rest hmid).unique hleast, hmid⟩

/-! ## Openers and closers in pairs -/

/-- Between an opener and its closer no other opener waits for the same closer. -/
theorem width_le_of_nested {front front' mid mid' : List Char} (hmid : nested kind 1 mid = some 1)
    (hmid' : nested kind 1 mid' = some 1)
    (h : front ++ kind.opener :: mid = front' ++ kind.opener :: mid') :
    width front' ≤ width front := by
  by_contra hlt
  obtain ⟨gap, rfl, hgap⟩ := exists_append_of_width h (by omega)
  cases gap with
  | nil => simp at hlt
  | cons c gap =>
    obtain ⟨-, hsplit⟩ := List.cons.inj hgap
    rw [hsplit, List.append_eq, nested_append] at hmid
    obtain ⟨depth, hdepth, hlater⟩ := Option.bind_eq_some_iff.mp hmid
    have hpos := pos_of_nested Nat.one_pos hdepth
    rw [nested_opener depth hmid', Option.some.injEq] at hlater
    omega

/-- No two openers have one closer. -/
theorem matchingClose_inj {opening opening' close : Nat} (h : matchingClose s opening = some close)
    (h' : matchingClose s opening' = some close) : opening = opening' := by
  obtain ⟨kind, front, mid, rest, hs, rfl, rfl, hmid⟩ := matchingClose_iff.mp h
  obtain ⟨kind', front', mid', rest', hs', rfl, hclose, hmid'⟩ := matchingClose_iff.mp h'
  have hsplit : (front ++ kind.opener :: mid) ++ kind.closer :: rest =
      (front' ++ kind'.opener :: mid') ++ kind'.closer :: rest' := by
    rw [List.append_assoc, List.append_assoc, List.cons_append, List.cons_append, ← hs, ← hs']
  obtain ⟨hfront, hrest⟩ := append_inj_of_width hsplit (by
    rw [width_append, width_append, width, width, size_opener, size_opener]
    omega)
  obtain rfl := closer_injective (List.cons.inj hrest).1
  exact Nat.le_antisymm (width_le_of_nested hmid' hmid hfront.symm)
    (width_le_of_nested hmid hmid' hfront)

theorem length_offsetsOf_go (c : Char) : ∀ (s : List Char) (pos : Nat),
    (offsetsOf.go (· == c) pos s).length = s.count c
  | [], _ => rfl
  | d :: s, pos => by
    rw [offsetsOf.go, List.count_cons]
    split
    · rw [List.length_cons, length_offsetsOf_go c s]
    · rw [length_offsetsOf_go c s, Nat.add_zero]

theorem mem_offsetsOf_width (front back : List Char) {p : Char → Bool} {c : Char} (hc : p c = true) :
    width front ∈ offsetsOf p (front ++ c :: back) := by
  rw [offsetsOf, offsetsOf_go_append, offsetsOf.go, if_pos hc, Nat.zero_add]
  exact List.mem_append_right _ List.mem_cons_self

theorem mem_closers_of_matchingClose {opening close : Nat} (h : opening ∈ openers kind s)
    (hclose : matchingClose s opening = some close) : close ∈ closers kind s := by
  obtain ⟨front, back, rfl, rfl⟩ := exists_of_mem_openers h
  obtain ⟨mid, rest, rfl, rfl, -⟩ := matchingClose_opener_iff.mp hclose
  have hmem := mem_offsetsOf_width (front ++ kind.opener :: mid) rest
    (p := (· == kind.closer)) (beq_self_eq_true kind.closer)
  rw [width_append, width, size_opener, ← Nat.add_assoc] at hmem
  simpa [closers] using hmem

theorem nodup_map_matchingClose
    (h : ∀ opening ∈ openers kind s, (matchingClose s opening).isSome) :
    ((openers kind s).map (matchingClose s)).Nodup := by
  have hopeners : (openers kind s).Nodup := (pairwise_offsetsOf _ s).imp Nat.ne_of_lt
  refine List.Nodup.map_on (fun o ho o' _ heq => ?_) hopeners
  obtain ⟨close, hclose⟩ := Option.isSome_iff_exists.mp (h o ho)
  exact matchingClose_inj hclose (heq ▸ hclose)

theorem nodup_closers (kind : Delimiter) (s : List Char) : ((closers kind s).map some).Nodup :=
  List.Nodup.map (Option.some_injective Nat) ((pairwise_offsetsOf _ s).imp Nat.ne_of_lt)

/-- In a text that nests, every opener has a closer. -/
theorem exists_matchingClose_of_nested (h : nested kind 1 s = some 1) {opening : Nat}
    (ho : opening ∈ openers kind s) : ∃ close, matchingClose s opening = some close := by
  obtain ⟨front, back, rfl, rfl⟩ := exists_of_mem_openers ho
  rw [nested_append] at h
  obtain ⟨depth, hfront, hback⟩ := Option.bind_eq_some_iff.mp h
  have hpos := pos_of_nested Nat.one_pos hfront
  rw [nested, if_pos rfl] at hback
  cases hnone : nested kind 1 back with
  | some depth' =>
    have hadd := nested_add depth Nat.one_pos hnone
    have hpos' := pos_of_nested Nat.one_pos hnone
    rw [Nat.add_comm, hback, Option.some.injEq] at hadd
    omega
  | none =>
    obtain ⟨mid, rest, rfl, hmid⟩ := exists_of_nested_eq_none hnone
    exact ⟨_, matchingClose_opener_iff.mpr ⟨mid, rest, rfl, rfl, hmid⟩⟩

/-- In a text that nests, the openers and the closers go in pairs. -/
theorem perm_of_nested (h : nested kind 1 s = some 1) :
    ((openers kind s).map (matchingClose s)).Perm ((closers kind s).map some) := by
  have hsubset : (openers kind s).map (matchingClose s) ⊆ (closers kind s).map some := by
    intro x hx
    obtain ⟨opening, ho, rfl⟩ := List.mem_map.mp hx
    obtain ⟨close, hclose⟩ := exists_matchingClose_of_nested h ho
    rw [hclose]
    exact List.mem_map_of_mem (mem_closers_of_matchingClose ho hclose)
  have hcount := count_of_nested Nat.one_pos h
  refine ((nodup_map_matchingClose fun o ho => ?_).subperm hsubset).perm_of_length_le ?_
  · obtain ⟨close, hclose⟩ := exists_matchingClose_of_nested h ho
    rw [hclose]
    rfl
  · rw [List.length_map, List.length_map, openers, closers, offsetsOf, offsetsOf,
      length_offsetsOf_go, length_offsetsOf_go]
    omega

/-- Where the openers and the closers go in pairs, the text nests. -/
theorem nested_of_perm
    (h : ((openers kind s).map (matchingClose s)).Perm ((closers kind s).map some)) :
    nested kind 1 s = some 1 := by
  cases hs : nested kind 1 s with
  | none =>
    -- the first closer too many would be the closer of an opener before it
    obtain ⟨front, rest, rfl, hfront⟩ := exists_of_nested_eq_none hs
    have hmem : some (width front) ∈ (closers kind (front ++ kind.closer :: rest)).map some :=
      List.mem_map_of_mem (mem_offsetsOf_width front rest (beq_self_eq_true kind.closer))
    obtain ⟨opening, ho, hclose⟩ := List.mem_map.mp (h.mem_iff.mpr hmem)
    obtain ⟨before, back, heq, rfl⟩ := exists_of_mem_openers ho
    rw [heq] at hclose
    obtain ⟨mid, later, rfl, hwidth, hmid⟩ := matchingClose_opener_iff.mp hclose
    obtain ⟨rfl, -⟩ := append_inj_of_width (s := front) (r := before ++ kind.opener :: mid)
      (u := kind.closer :: later) (by simpa using heq) (by
        rw [width_append, width, size_opener]
        omega)
    rw [nested_append] at hfront
    obtain ⟨depth, hbefore, hlater⟩ := Option.bind_eq_some_iff.mp hfront
    have hpos := pos_of_nested Nat.one_pos hbefore
    rw [nested_opener depth hmid, Option.some.injEq] at hlater
    omega
  | some depth =>
    have hcount := count_of_nested Nat.one_pos hs
    have hlength := h.length_eq
    rw [List.length_map, List.length_map, openers, closers, offsetsOf, offsetsOf,
      length_offsetsOf_go, length_offsetsOf_go] at hlength
    exact congrArg some (by omega)

/-- The openers and the closers go in pairs if one function takes the ones to the others. -/
theorem bijOn_iff_perm : Set.BijOn (matchingClose s) {o | o ∈ openers kind s}
      (some '' {c | c ∈ closers kind s}) ↔
    ((openers kind s).map (matchingClose s)).Perm ((closers kind s).map some) := by
  constructor
  · rintro ⟨hmaps, -, hsurj⟩
    refine (List.perm_ext_iff_of_nodup (nodup_map_matchingClose fun o ho => ?_)
      (nodup_closers kind s)).mpr fun x => ⟨fun hx => ?_, fun hx => ?_⟩
    · obtain ⟨close, -, hclose⟩ := hmaps ho
      rw [← hclose]
      rfl
    · obtain ⟨o, ho, rfl⟩ := List.mem_map.mp hx
      obtain ⟨close, hmem, hclose⟩ := hmaps ho
      exact List.mem_map.mpr ⟨close, hmem, hclose⟩
    · obtain ⟨o, ho, hclose⟩ := hsurj (List.mem_map.mp hx)
      exact List.mem_map.mpr ⟨o, ho, hclose⟩
  · intro h
    have hmem (o : Nat) (ho : o ∈ openers kind s) :
        ∃ c ∈ closers kind s, some c = matchingClose s o :=
      List.mem_map.mp (h.mem_iff.mp (List.mem_map_of_mem ho))
    refine ⟨hmem, fun o ho o' _ heq => ?_, fun x hx => ?_⟩
    · obtain ⟨c, -, hc⟩ := hmem o ho
      exact matchingClose_inj hc.symm (heq ▸ hc.symm)
    · obtain ⟨c, hc, rfl⟩ := hx
      exact List.mem_map.mp (h.mem_iff.mpr (List.mem_map_of_mem hc))

/-! ## Balanced counts -/

theorem nested_cons_opener (kind other : Delimiter) (depth : Nat) (s : List Char) :
    nested kind depth (other.opener :: s) =
      nested kind (if other = kind then depth + 1 else depth) s := by
  cases kind <;> cases other <;> rfl

theorem nested_cons_closer (kind other : Delimiter) (depth : Nat) (s : List Char) :
    nested kind depth (other.closer :: s) =
      if other = kind then if depth = 1 then none else nested kind (depth - 1) s
      else nested kind depth s := by
  cases kind <;> cases other <;> rfl

theorem nested_cons_of_not_bracket {c : Char} (hc : Balance.isBracket c = false) (kind : Delimiter)
    (depth : Nat) (s : List Char) : nested kind depth (c :: s) = nested kind depth s := by
  have hopener : c ≠ kind.opener := by
    rintro rfl
    cases kind <;> exact absurd hc (by decide)
  have hcloser : c ≠ kind.closer := by
    rintro rfl
    cases kind <;> exact absurd hc (by decide)
  rw [nested, if_neg hopener, if_neg hcloser]

namespace Balance

/-- Counting on is balanced in the end if each kind nests in the text that follows. -/
theorem isBalanced_after_iff {s : List Char} : ∀ {b : Balance} {depth : Delimiter → Nat},
    b.underflow = false → (∀ kind, b.count kind = depth kind) →
      ((b.after s).isBalanced = true ↔ ∀ kind, nested kind (depth kind + 1) s = some 1) := by
  induction s with
  | nil =>
    intro b depth hunder hcount
    rw [after_nil, isBalanced_iff]
    simp only [hunder, hcount, nested, true_and, Option.some.injEq]
    exact forall_congr' fun kind => by omega
  | cons c s ih =>
    intro b depth hunder hcount
    rw [after_cons]
    rcases bracket_cases c with ⟨other, rfl⟩ | ⟨other, rfl⟩ | hc
    · rw [push_opener,
        @ih _ fun kind => if other = kind then depth kind + 1 else depth kind]
      · refine forall_congr' fun kind => ?_
        rw [nested_cons_opener]
        split <;> rfl
      · rwa [underflow_add]
      · intro kind
        rw [count_add, hcount]
        split <;> split <;> grind
    · rw [push_closer, count_add, if_pos rfl, hcount]
      by_cases hzero : depth other = 0
      · rw [if_pos (by omega)]
        refine iff_of_false (fun h => ?_) fun h => ?_
        · rw [isBalanced_iff, underflow_after rfl] at h
          cases h.1
        · have hother := h other
          rw [nested_cons_closer, if_pos rfl, hzero, if_pos rfl] at hother
          cases hother
      · rw [if_neg (by omega),
          @ih _ fun kind => if other = kind then depth kind - 1 else depth kind]
        · refine forall_congr' fun kind => ?_
          rw [nested_cons_closer]
          by_cases hkind : other = kind
          · subst hkind
            simp only [if_true]
            rw [if_neg (by omega), Nat.add_sub_cancel, Nat.sub_add_cancel (by omega)]
          · simp only [if_neg hkind]
        · rwa [underflow_add]
        · intro kind
          rw [count_add, hcount]
          split <;> split <;> grind
    · rw [push_of_not_bracket b hc, ih hunder hcount]
      exact forall_congr' fun kind => by rw [nested_cons_of_not_bracket hc]

/-- The count over a source is balanced exactly if, for each kind, every opener in its mask has a
closer and no two have the same, and every closer belongs to an opener. In any text, the closer of
an opener is the first place where as many brackets of the kind are closed as are opened from the
opener on, and until it is found the number of open ones never has to go below zero. -/
theorem isBalanced_iff_bijOn (language : Language) (source : List Char) :
    ((Balance.of language source).isBalanced = true ↔ ∀ kind : Delimiter,
      Set.BijOn (matchingClose (Mask.mask language source))
        {o | o ∈ openers kind (Mask.mask language source)}
        (some '' {c | c ∈ closers kind (Mask.mask language source)})) ∧
    ∀ (s : List Char) (kind : Delimiter), ∀ opening ∈ openers kind s,
      Checked.matchingClose s opening = .ok (matchingClose s opening) ∧
      ∀ close, matchingClose s opening = some close ↔
        IsLeast {last | opening ≤ last ∧ Evens kind s opening last} close := by
  refine ⟨?_, fun s kind opening h =>
    ⟨Checked.matchingClose_eq s opening, fun close => matchingClose_eq_some_iff h⟩⟩
  rw [of_eq_after, @isBalanced_after_iff _ _ (fun _ => 0) rfl fun kind => by cases kind <;> rfl]
  exact forall_congr' fun kind => bijOn_iff_perm.trans ⟨nested_of_perm, perm_of_nested⟩ |>.symm

/-- Brackets of two kinds that are not closed in the order in which they are opened, and a closer in
a comment. -/
def crossed : List Char := "f([)]\x7b /* \x7d */ \x7d".toList

theorem isBalanced_iff_bijOn_crossed : (Balance.of .swift crossed).isBalanced = true ∧
    Set.BijOn (matchingClose (Mask.mask .swift crossed))
      {o | o ∈ openers .brace (Mask.mask .swift crossed)}
      (some '' {c | c ∈ closers .brace (Mask.mask .swift crossed)}) ∧
    1 ∈ openers .paren crossed ∧ Checked.matchingClose crossed 1 = .ok (some 3) ∧
    IsLeast {last | 1 ≤ last ∧ Evens .paren crossed 1 last} 3 := by
  obtain ⟨hpairs, hclosers⟩ := isBalanced_iff_bijOn .swift crossed
  have hbalanced : (Balance.of .swift crossed).isBalanced = true := by decide +kernel
  have hopener : 1 ∈ openers .paren crossed := by decide +kernel
  have hclose : matchingClose crossed 1 = some 3 := by decide +kernel
  obtain ⟨hchecked, hleast⟩ := hclosers crossed .paren 1 hopener
  exact ⟨hbalanced, hpairs.mp hbalanced .brace, hopener, hclose ▸ hchecked, (hleast 3).mp hclose⟩

end Balance

end Mend.Text
