import Mend.FileTree
import Mathlib.Data.List.Basic

/-!
# The steps of a path

The text of a path is cut at its slashes, and what is between them are its steps. A name that holds
no slash and is not made of dots alone (`Path.Proper`) is one step: a path that is joined with it has
one step more (`parts_join`), and the path of a place has its names as steps (`parts_ofPlace`). All
the names among the steps of a path are such (`proper_of_mem_parts`).
-/

namespace Mend.Path

/-! ## Texts between slashes -/

theorem segments_ne_nil (s : List Char) : segments s ≠ [] := by
  cases s with
  | nil => simp [segments]
  | cons c s =>
    rw [segments]
    split
    · simp
    · split <;> simp

theorem segments_cons {c : Char} (h : c ≠ '/') {s p : List Char} {ps : List (List Char)}
    (hs : segments s = p :: ps) : segments (c :: s) = (c :: p) :: ps := by
  rw [segments, if_neg h, hs]

theorem segments_append (t : List Char) :
    ∀ s : List Char, segments (s ++ '/' :: t) = segments s ++ segments t
  | [] => by simp [segments]
  | c :: s => by
    have ih := segments_append t s
    obtain ⟨p, ps, hs⟩ := List.exists_cons_of_ne_nil (segments_ne_nil s)
    by_cases h : c = '/'
    · rw [List.cons_append, segments, if_pos h, ih, segments, if_pos h, List.cons_append]
    · rw [hs, List.cons_append] at ih
      rw [List.cons_append, segments_cons h ih, segments_cons h hs, List.cons_append]

theorem segments_of_not_mem : ∀ {s : List Char}, '/' ∉ s → segments s = [s]
  | [], _ => rfl
  | c :: s, h => by
    rw [List.mem_cons, not_or] at h
    exact segments_cons (Ne.symm h.1) (segments_of_not_mem h.2)

theorem not_mem_of_mem_segments : ∀ {s p : List Char}, p ∈ segments s → '/' ∉ p
  | [], p, h => by
    rw [segments, List.mem_singleton] at h
    simp [h]
  | c :: s, p, h => by
    by_cases hc : c = '/'
    · rw [segments, if_pos hc, List.mem_cons] at h
      rcases h with rfl | h
      · simp
      · exact not_mem_of_mem_segments h
    · obtain ⟨q, qs, hs⟩ := List.exists_cons_of_ne_nil (segments_ne_nil s)
      rw [segments_cons hc hs, List.mem_cons] at h
      rcases h with rfl | h
      · rw [List.mem_cons, not_or]
        exact ⟨Ne.symm hc, not_mem_of_mem_segments (by rw [hs]; exact List.mem_cons_self)⟩
      · exact not_mem_of_mem_segments (by rw [hs]; exact List.mem_cons_of_mem _ h)

/-! ## Steps -/

/-- The step that a text between slashes is, if it is one. -/
def step? (segment : List Char) : Option Part :=
  if segment == [] || segment == ['.'] then none
  else if segment == ['.', '.'] then some .up
  else some (.name (String.ofList segment))

/-- What the steps of a path start with if its first character is a slash or a dot alone. -/
def lead (s : List Char) : List Part :=
  if s.head? == some '/' then [.root]
  else if (segments s).head? == some ['.'] then [.here]
  else []

theorem parts_eq (p : Path) :
    p.parts = lead p.text.toList ++ (segments p.text.toList).filterMap step? := by
  unfold parts lead
  simp only
  split
  · rfl
  · split <;> rfl

theorem name_not_mem_lead (n : String) (s : List Char) : .name n ∉ lead s := by
  unfold lead
  split
  · simp
  · split <;> simp

/-- A name that is one step of a path. -/
structure Proper (n : String) : Prop where
  ne_empty : n ≠ ""
  no_slash : '/' ∉ n.toList
  ne_here : n.toList ≠ ['.']
  ne_up : n.toList ≠ ['.', '.']

instance (n : String) : Decidable (Proper n) :=
  decidable_of_iff (n ≠ "" ∧ '/' ∉ n.toList ∧ n.toList ≠ ['.'] ∧ n.toList ≠ ['.', '.'])
    ⟨fun ⟨hempty, hslash, hhere, hup⟩ => ⟨hempty, hslash, hhere, hup⟩,
      fun ⟨hempty, hslash, hhere, hup⟩ => ⟨hempty, hslash, hhere, hup⟩⟩

theorem Proper.step?_eq {n : String} (h : Proper n) : step? n.toList = some (.name n) := by
  simp [step?, h.ne_empty, h.ne_here, h.ne_up]

theorem proper_of_step?_eq {segment : List Char} (hslash : '/' ∉ segment) {n : String}
    (h : step? segment = some (.name n)) : Proper n := by
  unfold step? at h
  split at h
  · simp at h
  · next hnone =>
    split at h
    · simp at h
    · next hup =>
      obtain rfl : String.ofList segment = n := by simpa using h
      simp only [Bool.or_eq_true, beq_iff_eq, not_or] at hnone hup
      exact ⟨by simpa using hnone.1, by simpa using hslash, by simpa using hnone.2,
        by simpa using hup⟩

theorem proper_of_mem_parts {p : Path} {n : String} (h : .name n ∈ p.parts) : Proper n := by
  rw [parts_eq, List.mem_append, or_iff_right (name_not_mem_lead n _)] at h
  obtain ⟨segment, hmem, hstep⟩ := List.mem_filterMap.mp h
  exact proper_of_step?_eq (not_mem_of_mem_segments hmem) hstep

/-- A text that ends in more than two characters, none of them a slash. -/
theorem proper_of_append {n : String} {s e : List Char} (h : n.toList = s ++ e) (hs : '/' ∉ s)
    (he : '/' ∉ e) (hlength : 2 < e.length) : Proper n := by
  have hlong : 2 < n.toList.length := by rw [h, List.length_append]; omega
  refine ⟨?_, by rw [h, List.mem_append, not_or]; exact ⟨hs, he⟩, ?_, ?_⟩
  · rintro rfl
    simp at hlong
  · intro hdot
    simp [hdot] at hlong
  · intro hdots
    simp [hdots] at hlong

/-! ## Paths that are joined -/

theorem join_of_head (p : Path) {relative : String} (h : relative.toList.head? ≠ some '/') :
    p.join relative =
      if p.text.isEmpty || p.text.toList.getLast? == some '/' then ⟨p.text ++ relative⟩
      else ⟨p.text ++ "/" ++ relative⟩ := by
  rw [join, beq_eq_false_iff_ne.mpr h]
  rfl

theorem join_eq (p : Path) {n : String} (h : Proper n) :
    p.join n = if p.text.isEmpty || p.text.toList.getLast? == some '/' then ⟨p.text ++ n⟩
      else ⟨p.text ++ "/" ++ n⟩ :=
  join_of_head p fun hslash => h.no_slash (List.mem_of_mem_head? hslash)

theorem lead_append {s : List Char} (t : List Char) (hs : s ≠ []) : lead (s ++ '/' :: t) = lead s := by
  obtain ⟨c, s, rfl⟩ := List.exists_cons_of_ne_nil hs
  obtain ⟨p, ps, hp⟩ := List.exists_cons_of_ne_nil (segments_ne_nil (c :: s))
  rw [lead, lead, segments_append, hp]
  rfl

theorem parts_join (p : Path) {n : String} (h : Proper n) :
    (p.join n).parts = p.parts ++ [.name n] := by
  have hlast : (segments n.toList).filterMap step? = [.name n] := by
    rw [segments_of_not_mem h.no_slash, List.filterMap_cons, h.step?_eq, List.filterMap_nil]
  rw [join_eq p h]
  split
  · next hend =>
    rw [Bool.or_eq_true, beq_iff_eq] at hend
    rcases hend with hempty | hslash
    · have htext : p.text = "" := by simpa using hempty
      have hhead : n.toList.head? ≠ some '/' := fun hc => h.no_slash (List.mem_of_mem_head? hc)
      rw [parts_eq, parts_eq, htext, String.empty_append, hlast, lead,
        segments_of_not_mem h.no_slash]
      simp [lead, segments, step?, hhead, h.ne_here]
    · obtain ⟨front, hfront⟩ := List.getLast?_eq_some_iff.mp hslash
      rw [parts_eq, parts_eq]
      simp only [String.toList_append, hfront, List.append_assoc, List.singleton_append]
      by_cases hnil : front = []
      · subst hnil
        simp [lead, segments, step?, hlast]
      · rw [lead_append _ hnil, lead_append _ hnil, segments_append, segments_append,
          List.filterMap_append, List.filterMap_append, hlast]
        simp [segments, step?]
  · next hend =>
    have htext : p.text.toList ≠ [] := by
      intro hnil
      have hempty : p.text = "" := by simpa using hnil
      simp [hempty] at hend
    rw [parts_eq, parts_eq]
    simp only [String.toList_append, List.append_assoc]
    rw [show "/".toList ++ n.toList = '/' :: n.toList by simp, lead_append _ htext,
      segments_append, List.filterMap_append, hlast]

theorem text_join_ne_empty (p : Path) {n : String} (h : Proper n) :
    (p.join n).text.isEmpty = false := by
  rw [join_eq p h]
  split
  · simp [h.ne_empty]
  · simp

/-- A name can be joined to what is joined to a path, or to the path with it. -/
theorem join_join (p : Path) {relative n : String} (hne : relative ≠ "")
    (hhead : relative.toList.head? ≠ some '/') (hlast : relative.toList.getLast? ≠ some '/')
    (hn : Proper n) : (p.join relative).join n = p.join (relative ++ "/" ++ n) := by
  have hchars : relative.toList ≠ [] := by simpa using hne
  have hmore : (relative ++ "/" ++ n).toList.head? ≠ some '/' := by
    rw [String.toList_append, String.toList_append, List.append_assoc,
      List.head?_append_of_ne_nil _ hchars]
    exact hhead
  have hnext (front : String) : (⟨front ++ relative⟩ : Path).join n =
      ⟨front ++ (relative ++ "/" ++ n)⟩ := by
    have hempty : (front ++ relative).isEmpty = false := by simp [hne]
    have hend : ((front ++ relative).toList.getLast? == some '/') = false := by
      rw [beq_eq_false_iff_ne, String.toList_append, List.getLast?_append_of_ne_nil _ hchars]
      exact hlast
    rw [join_eq _ hn, hempty, hend]
    simp only [Bool.or_false, Bool.false_eq_true, if_false, String.append_assoc]
  rw [join_of_head p hhead, join_of_head p hmore]
  split
  · exact hnext p.text
  · exact hnext (p.text ++ "/")

/-! ## Paths of places -/

theorem segments_intercalate :
    ∀ {texts : List String}, texts ≠ [] → (∀ t ∈ texts, '/' ∉ t.toList) →
      segments (String.intercalate "/" texts).toList = texts.map String.toList
  | [t], _, h => by
    simp [segments_of_not_mem (h t (by simp))]
  | t :: u :: texts, _, h => by
    have ih := segments_intercalate (List.cons_ne_nil u texts) fun k hk => h k (by simp [hk])
    rw [String.intercalate_cons_cons, String.toList_append, String.toList_append,
      List.append_assoc, show "/".toList = ['/'] by simp, List.singleton_append, segments_append,
      segments_of_not_mem (h t (by simp)), ih]
    rfl

theorem filterMap_step? :
    ∀ {names : List String}, (∀ n ∈ names, Proper n) →
      (names.map String.toList).filterMap step? = names.map Part.name
  | [], _ => rfl
  | n :: names, h => by
    rw [List.map_cons, List.filterMap_cons, (h n (by simp)).step?_eq,
      filterMap_step? fun k hk => h k (by simp [hk]), List.map_cons]

theorem parts_ofPlace {place : Place} (h : ∀ n ∈ place, Proper n) :
    (ofPlace place).parts = .root :: place.map .name := by
  have htext : (ofPlace place).text.toList = '/' :: (String.intercalate "/" place).toList := by
    simp [ofPlace, ofNames]
  rw [parts_eq, htext, segments, if_pos rfl]
  by_cases hnil : place = []
  · subst hnil
    simp [lead, segments, step?]
  · rw [segments_intercalate hnil fun n hn => (h n hn).no_slash, List.filterMap_cons, filterMap_step? h]
    rfl

theorem parts_ofPlace_inj {a b : Place} (ha : ∀ n ∈ a, Proper n) (hb : ∀ n ∈ b, Proper n)
    (h : (ofPlace a).parts = (ofPlace b).parts) : a = b := by
  rw [parts_ofPlace ha, parts_ofPlace hb, List.cons_inj_right] at h
  exact List.map_injective_iff.mpr (fun _ _ h => Part.name.inj h) h

theorem ofPlace_inj {a b : Place} (ha : ∀ n ∈ a, Proper n) (hb : ∀ n ∈ b, Proper n)
    (h : ofPlace a = ofPlace b) : a = b :=
  parts_ofPlace_inj ha hb (congrArg parts h)

theorem fileName?_ofPlace {place : Place} {n : String} (h : ∀ m ∈ place ++ [n], Proper m) :
    (ofPlace (place ++ [n])).fileName? = some n := by
  rw [fileName?, parts_ofPlace h, List.map_append, ← List.cons_append]
  simp only [List.map_singleton, List.getLast?_concat]

/-! ## Paths of steps -/

theorem Part.no_slash {parts : List Part} (h : ∀ n, .name n ∈ parts → Proper n) :
    ∀ t ∈ parts.map Part.text, '/' ∉ t.toList := by
  intro t ht
  obtain ⟨part, hpart, rfl⟩ := List.mem_map.mp ht
  cases part with
  | root | here | up => simp [Part.text]
  | name n => exact (h n hpart).no_slash

theorem Part.eq_of_step? {part : Part} (h : ∀ n, part = .name n → Proper n) {n : String}
    (hstep : step? part.text.toList = some (.name n)) : part = .name n := by
  cases part with
  | root | here | up => simp [Part.text, step?] at hstep
  | name m =>
    rw [Part.text, (h m rfl).step?_eq] at hstep
    exact Option.some.inj hstep

/-- The path of a list of steps has no names but those of the steps. -/
theorem mem_of_mem_parts_ofParts {parts : List Part} (h : ∀ n, .name n ∈ parts → Proper n)
    {n : String} (hn : .name n ∈ (ofParts parts).parts) : .name n ∈ parts := by
  by_cases hnil : parts = []
  · subst hnil
    simp [ofParts, parts_eq, name_not_mem_lead, segments, step?] at hn
  by_cases hroot : parts = [.root]
  · subst hroot
    simp [ofParts, parts_eq, name_not_mem_lead, segments, step?] at hn
  rw [parts_eq, List.mem_append, or_iff_right (name_not_mem_lead n _)] at hn
  have htext : (ofParts parts).text = String.intercalate "/" (parts.map Part.text) := by
    unfold ofParts
    split
    · exact absurd rfl hroot
    · rfl
  rw [htext, segments_intercalate (by simpa using hnil) (Part.no_slash h)] at hn
  obtain ⟨segment, hsegment, hstep⟩ := List.mem_filterMap.mp hn
  obtain ⟨t, ht, rfl⟩ := List.mem_map.mp hsegment
  obtain ⟨part, hpart, rfl⟩ := List.mem_map.mp ht
  rwa [Part.eq_of_step? (fun m hm => h m (hm ▸ hpart)) hstep] at hpart

end Mend.Path
