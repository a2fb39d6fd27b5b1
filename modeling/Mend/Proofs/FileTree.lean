import Mend.Proofs.Path
import Mathlib.Data.List.Induction

/-!
# What a change of a file tree leaves alone

Programs that write files and make directories never remove anything and never make links. Such a
change is described place by place (`FileTree.Becomes`), and a path that led somewhere before it
leads to the same place after it (`Becomes.follow`). A canonical path of a file (`FileTree.FileAt`)
therefore stays one, and so does a path that leads to a directory (`FileTree.Opens`).
-/

namespace Mend.FileTree

/-! ## Entries -/

@[simp] theorem get?_nil (t : FileTree) : t.get? [] = some .directory := rfl

@[simp] theorem start_set (t : FileTree) (place : Place) (e : Entry) :
    (t.set place e).start = t.start := by
  unfold set
  split <;> rfl

theorem find?_map_replaced {place q : Place} (e : Entry) :
    ∀ entries : List (Place × Entry),
      ((entries.map fun x => if x.1 == place then (place, e) else x).find? fun x => x.1 == q) =
        if place = q then (entries.find? fun x => x.1 == q).map fun _ => (place, e)
        else entries.find? fun x => x.1 == q
  | [] => by simp
  | x :: entries => by
    rw [List.map_cons, List.find?_cons, List.find?_cons, find?_map_replaced e entries]
    by_cases hx : x.1 = place
    · subst hx
      by_cases hq : x.1 = q
      · simp [hq]
      · simp [hq, beq_false_of_ne hq]
    · by_cases hq : x.1 = q
      · subst hq
        simp [beq_false_of_ne hx, Ne.symm hx]
      · simp [beq_false_of_ne hx, beq_false_of_ne hq]

theorem get?_set (t : FileTree) {place : Place} (hplace : place ≠ []) (e : Entry) (q : Place) :
    (t.set place e).get? q = if q = place then some e else t.get? q := by
  by_cases hnil : q = []
  · subst hnil
    rw [get?_nil, get?_nil, if_neg (Ne.symm hplace)]
  have hq : q.isEmpty = false := by simpa using hnil
  unfold get? set
  rw [hq]
  simp only [Bool.false_eq_true, if_false]
  split
  · next hany =>
    rw [find?_map_replaced]
    by_cases h : place = q
    · subst h
      obtain ⟨x, hx⟩ := Option.isSome_iff_exists.mp ((List.find?_isSome).mpr (List.any_eq_true.mp hany))
      rw [if_pos rfl, if_pos rfl, hx]
      rfl
    · rw [if_neg h, if_neg (Ne.symm h)]
  · next hany =>
    rw [List.find?_append]
    by_cases h : q = place
    · subst h
      have hnone : (t.entries.find? fun x => x.1 == q) = none := by
        rw [List.find?_eq_none]
        intro x hx hxq
        exact hany (List.any_eq_true.mpr ⟨x, hx, hxq⟩)
      simp [hnone]
    · have hne : place ≠ q := Ne.symm h
      simp [h, hne]

/-! ## Changes -/

/-- The tree `t` has become `t'`: directories, links and files have stayed such, bytes differ at
places of `changed` only, and directories are new at places of `made` only. What is new is in a
directory. -/
structure Becomes (changed made : Place → Prop) (t t' : FileTree) : Prop where
  start_eq : t'.start = t.start
  directory : ∀ {q}, t.get? q = some .directory → t'.get? q = some .directory
  link : ∀ {q p}, t'.get? q = some (.link p) ↔ t.get? q = some (.link p)
  file : ∀ {q b}, t.get? q = some (.file b) → ∃ b', t'.get? q = some (.file b')
  new_file : ∀ {q b}, t'.get? q = some (.file b) → changed q ∨ t.get? q = some (.file b)
  new_directory : ∀ {q}, t'.get? q = some .directory → made q ∨ t.get? q = some .directory
  parent : ∀ {q n}, t.get? (q ++ [n]) = none → (t'.get? (q ++ [n])).isSome →
    t'.get? q = some .directory

namespace Becomes

variable {changed made : Place → Prop} {t t' t'' : FileTree}

theorem refl (changed made : Place → Prop) (t : FileTree) : Becomes changed made t t where
  start_eq := rfl
  directory h := h
  link := Iff.rfl
  file h := ⟨_, h⟩
  new_file h := Or.inr h
  new_directory h := Or.inr h
  parent hnone hsome := by simp [hnone] at hsome

theorem mono {changed' made' : Place → Prop} (h : Becomes changed made t t')
    (hchanged : ∀ q, changed q → changed' q) (hmade : ∀ q, made q → made' q) :
    Becomes changed' made' t t' where
  start_eq := h.start_eq
  directory := h.directory
  link := h.link
  file := h.file
  new_file hq := (h.new_file hq).imp_left (hchanged _)
  new_directory hq := (h.new_directory hq).imp_left (hmade _)
  parent := h.parent

theorem trans (h : Becomes changed made t t') (h' : Becomes changed made t' t'') :
    Becomes changed made t t'' where
  start_eq := h'.start_eq.trans h.start_eq
  directory hq := h'.directory (h.directory hq)
  link := h'.link.trans h.link
  file hq := by
    obtain ⟨b, hb⟩ := h.file hq
    exact h'.file hb
  new_file hq := (h'.new_file hq).elim Or.inl h.new_file
  new_directory hq := (h'.new_directory hq).elim Or.inl h.new_directory
  parent := by
    intro q n hnone hsome
    cases hmid : t'.get? (q ++ [n]) with
    | none => exact h'.parent hmid hsome
    | some e => exact h'.directory (h.parent hnone (by simp [hmid]))

/-- Bytes at a place that the change leaves alone. -/
theorem file_eq (h : Becomes changed made t t') {q : Place} {b : ByteArray} (hq : ¬ changed q)
    (hb : t.get? q = some (.file b)) : t'.get? q = some (.file b) := by
  obtain ⟨b', hb'⟩ := h.file hb
  rcases h.new_file hb' with hc | hsame
  · exact absurd hc hq
  · rw [hb', ← hsame, hb]

end Becomes

/-- The bytes of the file at a place. -/
def bytes? (t : FileTree) (q : Place) : Option ByteArray :=
  match t.get? q with
  | some (.file bytes) => some bytes
  | _ => none

theorem Becomes.bytes?_eq {changed made : Place → Prop} {t t' : FileTree} {q : Place}
    (h : Becomes changed made t t') (hq : ¬ changed q) : t'.bytes? q = t.bytes? q := by
  unfold bytes?
  cases hentry : t'.get? q with
  | none =>
    cases hbefore : t.get? q with
    | none => rfl
    | some e =>
      cases e with
      | file b => simp [h.file_eq hq hbefore] at hentry
      | directory | link => rfl
  | some e =>
    cases e with
    | file b => rw [(h.new_file hentry).resolve_left hq]
    | link p => rw [h.link.mp hentry]
    | directory =>
      rcases hbefore : t.get? q with - | b | - | p
      · rfl
      · simp [h.file_eq hq hbefore] at hentry
      · rfl
      · rfl

/-- Putting bytes where no directory and no link is. -/
theorem becomes_set_file {t : FileTree} {q : Place} {n : String}
    (hparent : t.get? q = some .directory) (hdir : t.get? (q ++ [n]) ≠ some .directory)
    (hlink : ∀ p, t.get? (q ++ [n]) ≠ some (.link p)) (bytes : ByteArray) :
    Becomes (· = q ++ [n]) (fun _ => False) t (t.set (q ++ [n]) (.file bytes)) := by
  have hset := get?_set t (List.append_ne_nil_of_right_ne_nil q (List.cons_ne_nil n []))
    (.file bytes)
  constructor
  · simp
  · intro r hr
    rw [hset, if_neg (by rintro rfl; exact hdir hr), hr]
  · intro r p
    rw [hset]
    split
    · next h => simp [h, hlink p]
    · rfl
  · intro r b hr
    rw [hset]
    split
    · exact ⟨bytes, rfl⟩
    · exact ⟨b, hr⟩
  · intro r b hr
    rw [hset] at hr
    split at hr
    · next h => exact Or.inl h
    · exact Or.inr hr
  · intro r hr
    rw [hset] at hr
    split at hr
    · simp at hr
    · exact Or.inr hr
  · intro r m hnone hsome
    have hne : r ≠ r ++ [m] := by simp
    rw [hset] at hsome
    split at hsome
    · next h =>
      obtain ⟨rfl, rfl⟩ : r = q ∧ m = n := by simpa using h
      rw [hset, if_neg hne, hparent]
    · simp [hnone] at hsome

/-- Making a directory where nothing is. -/
theorem becomes_set_directory {t : FileTree} {q : Place} {n : String}
    (hparent : t.get? q = some .directory) (hnone : t.get? (q ++ [n]) = none) :
    Becomes (fun _ => False) (· = q ++ [n]) t (t.set (q ++ [n]) .directory) := by
  have hset := get?_set t (List.append_ne_nil_of_right_ne_nil q (List.cons_ne_nil n [])) .directory
  constructor
  · simp
  · intro r hr
    rw [hset]
    split
    · rfl
    · exact hr
  · intro r p
    rw [hset]
    split
    · next h => simp [h, hnone]
    · rfl
  · intro r b hr
    rw [hset, if_neg (by rintro rfl; simp [hnone] at hr)]
    exact ⟨b, hr⟩
  · intro r b hr
    rw [hset] at hr
    split at hr
    · simp at hr
    · exact Or.inr hr
  · intro r hr
    rw [hset] at hr
    split at hr
    · next h => exact Or.inl h
    · exact Or.inr hr
  · intro r m hnone' hsome
    have hne : r ≠ r ++ [m] := by simp
    rw [hset] at hsome
    split at hsome
    · next h =>
      obtain ⟨rfl, rfl⟩ : r = q ∧ m = n := by simpa using h
      rw [hset, if_neg hne, hparent]
    · simp [hnone'] at hsome

/-! ## Where paths lead -/

/-- The steps lead from one place to another with at most so many links. -/
inductive Leads (t : FileTree) : Nat → Place → List Path.Part → Place → Prop
  | done {links here} : Leads t links here [] here
  | root {links here rest q} (h : Leads t links [] rest q) : Leads t links here (.root :: rest) q
  | stay {links here rest q} (h : Leads t links here rest q) : Leads t links here (.here :: rest) q
  | up {links here rest q} (hdir : t.get? here = some .directory)
      (h : Leads t links here.dropLast rest q) : Leads t links here (.up :: rest) q
  | jump {links here n rest target q} (hdir : t.get? here = some .directory)
      (hlink : t.get? (here ++ [n]) = some (.link target))
      (h : Leads t links here (target.parts ++ rest) q) :
      Leads t (links + 1) here (.name n :: rest) q
  | enter {links here n rest e q} (hdir : t.get? here = some .directory)
      (hentry : t.get? (here ++ [n]) = some e) (hplain : ∀ p, e ≠ .link p)
      (h : Leads t links (here ++ [n]) rest q) : Leads t links here (.name n :: rest) q

namespace Leads

variable {t : FileTree} {links : Nat} {here q : Place} {parts : List Path.Part}

theorem follow (fresh : Bool) (h : Leads t links here parts q) :
    t.follow fresh links here parts = .ok q := by
  induction h with
  | done => rw [FileTree.follow]
  | root _ ih => rw [FileTree.follow, ih]
  | stay _ ih => rw [FileTree.follow, ih]
  | up hdir _ ih => rw [FileTree.follow, if_pos hdir, ih]
  | jump hdir hlink _ ih => rw [FileTree.follow, if_pos hdir, hlink, ← ih]
  | @enter links here n rest e q hdir hentry hplain _ ih =>
    rw [FileTree.follow, if_pos hdir, hentry, ← ih]
    cases e with
    | link p => exact absurd rfl (hplain p)
    | file | directory => rfl

theorem of_follow (h : t.follow false links here parts = .ok q) : Leads t links here parts q := by
  fun_induction FileTree.follow t false links here parts with
  | case1 links here =>
    cases h
    exact done
  | case2 links here rest ih => exact root (ih h)
  | case3 links here rest ih => exact stay (ih h)
  | case4 links here rest hdir ih => exact up hdir (ih h)
  | case9 here n rest hdir target hlink links ih => exact jump hdir hlink (ih h)
  | case10 links here n rest hdir e hplain hentry ih =>
    exact enter hdir hentry (fun p hp => hplain p hp) (ih h)
  | case6 links here n rest hdir hnone hfresh => simp at hfresh
  | case5 | case7 | case8 | case11 => cases h

/-- The steps lead to the same place after a change. -/
theorem becomes {changed made : Place → Prop} {t' : FileTree} (ht : Becomes changed made t t')
    (h : Leads t links here parts q) : Leads t' links here parts q := by
  induction h with
  | done => exact done
  | root _ ih => exact root ih
  | stay _ ih => exact stay ih
  | up hdir _ ih => exact up (ht.directory hdir) ih
  | jump hdir hlink _ ih => exact jump (ht.directory hdir) (ht.link.mpr hlink) ih
  | @enter _ _ _ _ e _ hdir hentry hplain _ ih =>
    cases e with
    | link p => exact absurd rfl (hplain p)
    | directory => exact enter (ht.directory hdir) (ht.directory hentry) hplain ih
    | file b =>
      obtain ⟨b', hb'⟩ := ht.file hentry
      exact enter (ht.directory hdir) hb' (fun p hp => by cases hp) ih

/-- One more step, to an entry of the directory. -/
theorem concat (h : Leads t links here parts q) (hdir : t.get? q = some .directory) {n : String}
    {e : Entry} (hentry : t.get? (q ++ [n]) = some e) (hplain : ∀ p, e ≠ .link p) :
    Leads t links here (parts ++ [.name n]) (q ++ [n]) := by
  induction h with
  | done => exact enter hdir hentry hplain done
  | root _ ih => exact root (ih hdir hentry)
  | stay _ ih => exact stay (ih hdir hentry)
  | up hup _ ih => exact up hup (ih hdir hentry)
  | jump hjump hlink _ ih =>
    have hrest := ih hdir hentry
    rw [List.append_assoc] at hrest
    exact jump hjump hlink hrest
  | enter henter hstep hother _ ih => exact enter henter hstep hother (ih hdir hentry)

/-- Steps that lead somewhere leave it to the others to go on from there. -/
theorem follow_append (h : Leads t links here parts q) : ∃ left, ∀ (fresh : Bool) rest,
    t.follow fresh links here (parts ++ rest) = t.follow fresh left q rest := by
  induction h with
  | @done links here => exact ⟨links, fun _ _ => rfl⟩
  | root _ ih | stay _ ih =>
    obtain ⟨left, hleft⟩ := ih
    exact ⟨left, fun fresh rest => by rw [List.cons_append, FileTree.follow, hleft]⟩
  | up hup _ ih =>
    obtain ⟨left, hleft⟩ := ih
    exact ⟨left, fun fresh rest => by rw [List.cons_append, FileTree.follow, if_pos hup, hleft]⟩
  | jump hjump hlink _ ih =>
    obtain ⟨left, hleft⟩ := ih
    refine ⟨left, fun fresh rest => ?_⟩
    rw [List.cons_append, FileTree.follow, if_pos hjump, hlink, ← hleft, List.append_assoc]
  | @enter links here m rest e q henter hstep hother _ ih =>
    obtain ⟨left, hleft⟩ := ih
    refine ⟨left, fun fresh later => ?_⟩
    rw [List.cons_append, FileTree.follow, if_pos henter, hstep, ← hleft]
    cases e with
    | link p => exact absurd rfl (hother p)
    | file | directory => rfl

/-- One more step, to a name that the directory does not have. -/
theorem follow_concat (h : Leads t links here parts q) (hdir : t.get? q = some .directory)
    {n : String} (hnone : t.get? (q ++ [n]) = none) :
    t.follow true links here (parts ++ [.name n]) = .ok (q ++ [n]) := by
  obtain ⟨left, hleft⟩ := h.follow_append
  rw [hleft, FileTree.follow, if_pos hdir, hnone]
  rfl

end Leads

/-! ## Grounded trees -/

/-- What is in the tree is in a directory, and relative paths start at a directory. -/
structure Grounded (t : FileTree) : Prop where
  parent : ∀ {q n}, (t.get? (q ++ [n])).isSome → t.get? q = some .directory
  start : t.get? t.start = some .directory
  start_proper : ∀ n ∈ t.start, Path.Proper n

theorem Grounded.becomes {changed made : Place → Prop} {t t' : FileTree} (h : Grounded t)
    (ht : Becomes changed made t t') : Grounded t' where
  parent := by
    intro q n hsome
    cases hentry : t.get? (q ++ [n]) with
    | none => exact ht.parent hentry hsome
    | some e => exact ht.directory (h.parent (by rw [hentry]; rfl))
  start := by
    rw [ht.start_eq]
    exact ht.directory h.start
  start_proper := by
    rw [ht.start_eq]
    exact h.start_proper

theorem Grounded.above {t : FileTree} (h : Grounded t) {q r : Place} (hr : r ≠ [])
    (hsome : (t.get? (q ++ r)).isSome) : t.get? q = some .directory := by
  induction r using List.reverseRecOn with
  | nil => exact absurd rfl hr
  | append_singleton r n ih =>
    rw [← List.append_assoc] at hsome
    have hparent := h.parent hsome
    by_cases hnil : r = []
    · rwa [hnil, List.append_nil] at hparent
    · exact ih hnil (by rw [hparent]; rfl)

theorem mem_entries_of_get? {t : FileTree} {q : Place} {n : String} {e : Entry}
    (h : t.get? (q ++ [n]) = some e) : (q ++ [n], e) ∈ t.entries := by
  rw [get?, if_neg (by simp)] at h
  obtain ⟨⟨place, e'⟩, hfind, rfl⟩ := Option.map_eq_some_iff.mp h
  have hplace : place = q ++ [n] := by simpa using List.find?_some hfind
  exact hplace ▸ List.mem_of_find?_eq_some hfind

/-- The names in a directory are those under which there is something. -/
theorem mem_names_iff {t : FileTree} {q : Place} {n : String} :
    n ∈ t.names q ↔ (t.get? (q ++ [n])).isSome := by
  rw [names, List.mem_filterMap]
  constructor
  · rintro ⟨⟨place, e⟩, hmem, hname⟩
    rw [Option.ite_none_right_eq_some, beq_iff_eq] at hname
    obtain ⟨hdir, hlast⟩ := hname
    obtain ⟨front, rfl⟩ := List.getLast?_eq_some_iff.mp hlast
    obtain rfl : front = q := by simpa using hdir
    rw [get?, if_neg (by simp), Option.isSome_map, List.find?_isSome]
    exact ⟨_, hmem, by simp⟩
  · intro hsome
    obtain ⟨e, he⟩ := Option.isSome_iff_exists.mp hsome
    exact ⟨_, mem_entries_of_get? he, by simp⟩

/-- A tree is grounded if each of its entries is in a directory. -/
theorem grounded_of_entries {t : FileTree}
    (h : ∀ e ∈ t.entries, t.get? e.1.dropLast = some .directory)
    (hstart : t.get? t.start = some .directory) (hproper : ∀ n ∈ t.start, Path.Proper n) :
    Grounded t where
  parent := by
    intro q n hsome
    obtain ⟨e, he⟩ := Option.isSome_iff_exists.mp hsome
    simpa using h _ (mem_entries_of_get? he)
  start := hstart
  start_proper := hproper

/-- Where steps lead there is something. -/
theorem Leads.isSome {t : FileTree} (ht : Grounded t) {links : Nat} {here q : Place}
    {parts : List Path.Part} (h : Leads t links here parts q) (hhere : (t.get? here).isSome) :
    (t.get? q).isSome := by
  induction h with
  | done => exact hhere
  | root _ ih => exact ih rfl
  | stay _ ih => exact ih hhere
  | @up _ here _ _ hdir _ ih =>
    refine ih ?_
    rcases List.eq_nil_or_concat' here with rfl | ⟨front, n, rfl⟩
    · rfl
    · rw [List.dropLast_concat, ht.parent hhere]
      rfl
  | jump _ _ _ ih => exact ih hhere
  | enter _ hentry _ _ ih => exact ih (by rw [hentry]; rfl)

/-- Steps that start at no link lead to none. -/
theorem Leads.plain {t : FileTree} (ht : Grounded t) {links : Nat} {here q : Place}
    {parts : List Path.Part} (h : Leads t links here parts q)
    (hhere : ∀ p, t.get? here ≠ some (.link p)) : ∀ p, t.get? q ≠ some (.link p) := by
  induction h with
  | done => exact hhere
  | root _ ih => exact ih (by simp)
  | stay _ ih => exact ih hhere
  | @up _ here _ _ hdir _ ih =>
    refine ih ?_
    rcases List.eq_nil_or_concat' here with rfl | ⟨front, n, rfl⟩
    · simp
    · rw [List.dropLast_concat, ht.parent (by rw [hdir]; rfl)]
      simp
  | jump _ _ _ ih => exact ih hhere
  | enter _ hentry hplain _ ih =>
    refine ih fun p hp => ?_
    rw [hentry] at hp
    exact hplain p (Option.some.inj hp)

/-- The place that steps lead to has proper names. -/
theorem Leads.proper {t : FileTree} {links : Nat} {here q : Place} {parts : List Path.Part}
    (h : Leads t links here parts q) (hhere : ∀ n ∈ here, Path.Proper n)
    (hparts : ∀ n, .name n ∈ parts → Path.Proper n) : ∀ n ∈ q, Path.Proper n := by
  induction h with
  | done => exact hhere
  | root _ ih => exact ih (by simp) fun n hn => hparts n (List.mem_cons_of_mem _ hn)
  | stay _ ih => exact ih hhere fun n hn => hparts n (List.mem_cons_of_mem _ hn)
  | up _ _ ih =>
    exact ih (fun n hn => hhere n ((List.dropLast_sublist _).subset hn))
      fun n hn => hparts n (List.mem_cons_of_mem _ hn)
  | jump _ _ _ ih =>
    refine ih hhere fun n hn => ?_
    rcases List.mem_append.mp hn with hn | hn
    · exact Path.proper_of_mem_parts hn
    · exact hparts n (List.mem_cons_of_mem _ hn)
  | @enter _ here n _ _ _ _ _ _ _ ih =>
    refine ih (fun m hm => ?_) fun m hm => hparts m (List.mem_cons_of_mem _ hm)
    rcases List.mem_append.mp hm with hm | hm
    · exact hhere m hm
    · rw [List.mem_singleton.mp hm]
      exact hparts n List.mem_cons_self

/-- The names on the way to a place lead to it. -/
theorem leads_names {t : FileTree} (ht : Grounded t) (links : Nat) :
    ∀ {names : List String} {here : Place} {e : Entry}, t.get? (here ++ names) = some e →
      (∀ p, e ≠ .link p) → Leads t links here (names.map .name) (here ++ names)
  | [], here, e, _, _ => by
    rw [List.append_nil]
    exact .done
  | n :: names, here, e, he, hplain => by
    have hdir : t.get? here = some .directory := ht.above (List.cons_ne_nil n names) (by rw [he]; rfl)
    have hsplit : here ++ n :: names = here ++ [n] ++ names := by simp
    rw [hsplit] at he ⊢
    by_cases hnil : names = []
    · subst hnil
      rw [List.append_nil] at he ⊢
      exact .enter hdir he hplain .done
    · have hnext : t.get? (here ++ [n]) = some .directory := ht.above hnil (by rw [he]; rfl)
      exact .enter hdir hnext (fun p hp => by cases hp) (leads_names ht links he hplain)

theorem leads_of_resolve {t : FileTree} {p : Path} {place : Place} (h : t.resolve p = .ok place) :
    Leads t linkLimit t.start p.parts place := by
  unfold FileTree.resolve at h
  split at h
  · cases h
  · exact .of_follow h

/-- A path leads to the same place after a change. -/
theorem resolve_becomes {changed made : Place → Prop} {t t' : FileTree} {p : Path} {place : Place}
    (h : t.resolve p = .ok place) (ht : Becomes changed made t t') : t'.resolve p = .ok place := by
  have hleads := (leads_of_resolve h).becomes ht
  unfold FileTree.resolve at h ⊢
  split at h
  · cases h
  · next hempty =>
    rw [if_neg hempty, ht.start_eq]
    exact hleads.follow false

/-- A path leads to something that is no link. -/
theorem plain_of_resolve {t : FileTree} (ht : Grounded t) {p : Path} {place : Place}
    (h : t.resolve p = .ok place) : ∃ e, t.get? place = some e ∧ ∀ p, e ≠ .link p := by
  have hleads := leads_of_resolve h
  obtain ⟨e, he⟩ := Option.isSome_iff_exists.mp (hleads.isSome ht (by rw [ht.start]; rfl))
  refine ⟨e, he, fun q hq => ?_⟩
  exact hleads.plain ht (by simp [ht.start]) q (by rw [he, hq])

theorem proper_of_resolve {t : FileTree} (ht : Grounded t) {p : Path} {place : Place}
    (h : t.resolve p = .ok place) : ∀ n ∈ place, Path.Proper n :=
  (leads_of_resolve h).proper ht.start_proper fun _ hn => Path.proper_of_mem_parts hn

theorem read_eq_ok {t : FileTree} {p : Path} {bytes : ByteArray} :
    t.read p = .ok bytes ↔ ∃ place, t.resolve p = .ok place ∧ t.get? place = some (.file bytes) := by
  simp only [FileTree.read, lookup, bind, Except.bind]
  cases t.resolve p with
  | error e => simp
  | ok place =>
    cases hentry : t.get? place with
    | none => simp [hentry]
    | some e => cases e <;> simp [hentry, pure, Except.pure]

theorem readText_of_read {t : FileTree} {p : Path} {text : String}
    (h : t.read p = .ok text.toUTF8) : t.readText p = .ok text := by
  have hvalid : String.fromUTF8? text.toUTF8 = some text := by
    rw [String.fromUTF8?]
    exact dif_pos text.isValidUTF8
  simp only [FileTree.readText, h, bind, Except.bind, hvalid]
  rfl

/-- The path of a place that has something but no link leads to the place. -/
theorem resolve_ofPlace {t : FileTree} (ht : Grounded t) {place : Place}
    (hproper : ∀ n ∈ place, Path.Proper n) {e : Entry} (he : t.get? place = some e)
    (hplain : ∀ p, e ≠ .link p) : t.resolve (.ofPlace place) = .ok place := by
  have hleads : Leads t linkLimit [] (place.map .name) place := leads_names ht linkLimit he hplain
  have hempty : (Path.ofPlace place).text.isEmpty = false := by simp [Path.ofPlace, Path.ofNames]
  rw [FileTree.resolve, hempty, Path.parts_ofPlace hproper]
  exact (Leads.root hleads).follow false

/-- What is at a place can be replaced by the path of the place. -/
theorem placeFor_ofPlace {t : FileTree} (ht : Grounded t) {place : Place}
    (hproper : ∀ n ∈ place, Path.Proper n) {e : Entry} (he : t.get? place = some e) :
    t.placeFor (.ofPlace place) = .ok place := by
  rcases List.eq_nil_or_concat' place with rfl | ⟨dir, n, rfl⟩
  · exact resolve_ofPlace ht hproper he fun p hp => by simp [hp] at he
  · have hdir : t.get? dir = some .directory := ht.parent (by rw [he]; rfl)
    have hleads : Leads t linkLimit [] (dir.map .name) dir :=
      leads_names ht linkLimit hdir fun p hp => by cases hp
    have hparts : (Path.ofPlace (dir ++ [n])).parts = .root :: dir.map .name ++ [.name n] := by
      rw [Path.parts_ofPlace hproper, List.map_append]
      rfl
    rw [FileTree.placeFor, hparts, List.getLast?_concat, List.dropLast_concat]
    simp only [(Leads.root hleads).follow false]
    exact if_pos hdir

/-- Where a file is written there is a directory above, or something is there already. -/
theorem placeFor_eq_ok {t : FileTree} (ht : Grounded t) {p : Path} {place : Place}
    (h : t.placeFor p = .ok place) :
    (∃ q n, .name n ∈ p.parts ∧ t.get? q = some .directory ∧ place = q ++ [n]) ∨
      ∃ e, t.get? place = some e ∧ ∀ p, e ≠ .link p := by
  unfold FileTree.placeFor at h
  split at h
  · next n hlast =>
    simp only [bind, Except.bind] at h
    split at h
    · cases h
    · next q hfollow =>
      split at h
      · next hdir =>
        exact Or.inl ⟨q, n, List.mem_of_getLast? hlast, hdir, (Except.ok.inj h).symm⟩
      · cases h
  · exact Or.inr (plain_of_resolve ht h)

theorem parent_of_placeFor {t : FileTree} (ht : Grounded t) {p : Path} {place : Place}
    (h : t.placeFor p = .ok place) (hdir : t.get? place ≠ some .directory) :
    ∃ q n, place = q ++ [n] ∧ t.get? q = some .directory := by
  rcases placeFor_eq_ok ht h with ⟨q, n, -, hq, rfl⟩ | ⟨e, he, -⟩
  · exact ⟨q, n, rfl, hq⟩
  · rcases List.eq_nil_or_concat' place with rfl | ⟨q, n, rfl⟩
    · exact absurd rfl hdir
    · exact ⟨q, n, rfl, ht.parent (by rw [he]; rfl)⟩

theorem write_eq_ok {t t' : FileTree} {p : Path} {bytes : ByteArray} :
    t.write p bytes = .ok t' ↔ ∃ place, t.placeFor p = .ok place ∧
      t.get? place ≠ some .directory ∧ t' = t.set place (.file bytes) := by
  simp only [FileTree.write, bind, Except.bind]
  cases t.placeFor p with
  | error e => simp
  | ok place =>
    by_cases hdir : t.get? place = some .directory
    · simp [hdir]
    · simpa [hdir, pure, Except.pure] using eq_comm

/-- Bytes were added at the place that a path leads to. -/
theorem append_eq_ok {t t' : FileTree} {p : Path} {bytes : ByteArray}
    (h : t.append p bytes = .ok t') :
    ∃ place all, t.destination p = .ok place ∧ place ≠ [] ∧ t' = t.set place (.file all) := by
  simp only [FileTree.append, bind, Except.bind] at h
  split at h
  · cases h
  · next place hplace =>
    have hproper : t.get? place ≠ some .directory → place ≠ [] := by
      rintro hdir rfl
      exact hdir rfl
    split at h
    · next old hold =>
      exact ⟨place, _, hplace, hproper (by simp [hold]), (Except.ok.inj h).symm⟩
    · next hnone => exact ⟨place, _, hplace, hproper (by simp [hnone]), (Except.ok.inj h).symm⟩
    · cases h

/-- Bytes can be put below any directory, where no directory is. -/
theorem Grounded.set_file {t : FileTree} (ht : Grounded t) {q : Place} {n : String}
    (hparent : t.get? q = some .directory) (hdir : t.get? (q ++ [n]) ≠ some .directory)
    (bytes : ByteArray) : Grounded (t.set (q ++ [n]) (.file bytes)) := by
  have hset := get?_set t (List.append_ne_nil_of_right_ne_nil q (List.cons_ne_nil n []))
    (.file bytes)
  have hkeep : ∀ {r : Place}, t.get? r = some .directory →
      (t.set (q ++ [n]) (.file bytes)).get? r = some .directory := by
    intro r hr
    rw [hset, if_neg (by rintro rfl; exact hdir hr), hr]
  constructor
  · intro r m hsome
    rw [hset] at hsome
    split at hsome
    · next h =>
      obtain ⟨rfl, rfl⟩ : r = q ∧ m = n := by simpa using h
      exact hkeep hparent
    · exact hkeep (ht.parent hsome)
  · rw [start_set]
    exact hkeep ht.start
  · rw [start_set]
    exact ht.start_proper

/-! ## Canonical paths of files -/

/-- The path is the canonical one of a file at a place. -/
structure FileAt (t : FileTree) (p : Path) (place : Place) : Prop where
  path_eq : p = .ofPlace place
  proper : ∀ n ∈ place, Path.Proper n
  file : ∃ bytes, t.get? place = some (.file bytes)

namespace FileAt

variable {t : FileTree} {p : Path} {place : Place}

theorem becomes {changed made : Place → Prop} {t' : FileTree} (h : FileAt t p place)
    (ht : Becomes changed made t t') : FileAt t' p place where
  path_eq := h.path_eq
  proper := h.proper
  file := by
    obtain ⟨b, hb⟩ := h.file
    exact ht.file hb

theorem exists_concat (h : FileAt t p place) : ∃ dir n, place = dir ++ [n] := by
  obtain ⟨b, hb⟩ := h.file
  rcases List.eq_nil_or_concat' place with rfl | ⟨dir, n, rfl⟩
  · simp at hb
  · exact ⟨dir, n, rfl⟩

theorem parts_eq (h : FileAt t p place) : p.parts = .root :: place.map .name := by
  rw [h.path_eq, Path.parts_ofPlace h.proper]

theorem resolve (h : FileAt t p place) (ht : Grounded t) : t.resolve p = .ok place := by
  obtain ⟨b, hb⟩ := h.file
  rw [h.path_eq]
  exact resolve_ofPlace ht h.proper hb fun p hp => by cases hp

theorem placeFor (h : FileAt t p place) (ht : Grounded t) : t.placeFor p = .ok place := by
  obtain ⟨b, hb⟩ := h.file
  rw [h.path_eq]
  exact placeFor_ofPlace ht h.proper hb

theorem canonical (h : FileAt t p place) (ht : Grounded t) : t.canonical p = .ok p := by
  rw [FileTree.canonical, h.resolve ht, h.path_eq]
  rfl

theorem read (h : FileAt t p place) (ht : Grounded t) {bytes : ByteArray}
    (hbytes : t.get? place = some (.file bytes)) : t.read p = .ok bytes :=
  read_eq_ok.mpr ⟨place, h.resolve ht, hbytes⟩

theorem write (h : FileAt t p place) (ht : Grounded t) (bytes : ByteArray) :
    t.write p bytes = .ok (t.set place (.file bytes)) := by
  obtain ⟨b, hb⟩ := h.file
  simp only [FileTree.write, h.placeFor ht, bind, Except.bind, hb]
  rfl

theorem becomes_set (h : FileAt t p place) (ht : Grounded t) (bytes : ByteArray) :
    Becomes (· = place) (fun _ => False) t (t.set place (.file bytes)) := by
  obtain ⟨dir, n, rfl⟩ := h.exists_concat
  obtain ⟨b, hb⟩ := h.file
  exact becomes_set_file (ht.parent (by rw [hb]; rfl)) (by simp [hb]) (by simp [hb]) bytes

/-- What was written is read. -/
theorem read_set (h : FileAt t p place) (ht : Grounded t) (bytes : ByteArray) :
    (t.set place (.file bytes)).read p = .ok bytes := by
  have hbecomes := h.becomes_set ht bytes
  refine (h.becomes hbecomes).read (ht.becomes hbecomes) ?_
  obtain ⟨dir, n, rfl⟩ := h.exists_concat
  rw [get?_set t (by simp), if_pos rfl]

end FileAt

/-- The canonical path of a file that a path leads to. -/
theorem fileAt_of_resolve {t : FileTree} (ht : Grounded t) {p : Path} {place : Place}
    (h : t.resolve p = .ok place) {bytes : ByteArray}
    (hbytes : t.get? place = some (.file bytes)) : FileAt t (.ofPlace place) place :=
  ⟨rfl, proper_of_resolve ht h, bytes, hbytes⟩

/-! ## Files of a directory -/

/-- The path leads to the directory at a place. -/
structure Opens (t : FileTree) (dir : Path) (place : Place) : Prop where
  leads : Leads t linkLimit t.start dir.parts place
  directory : t.get? place = some .directory

namespace Opens

variable {t : FileTree} {dir : Path} {place : Place} {n : String}

theorem becomes {changed made : Place → Prop} {t' : FileTree} (h : Opens t dir place)
    (ht : Becomes changed made t t') : Opens t' dir place where
  leads := by
    rw [ht.start_eq]
    exact h.leads.becomes ht
  directory := ht.directory h.directory

theorem unique {place' : Place} (h : Opens t dir place) (h' : Opens t dir place') :
    place = place' :=
  Except.ok.inj ((h.leads.follow false).symm.trans (h'.leads.follow false))

theorem placeFor (h : Opens t dir place) (hn : Path.Proper n) :
    t.placeFor (dir.join n) = .ok (place ++ [n]) := by
  rw [FileTree.placeFor, Path.parts_join dir hn, List.getLast?_concat, List.dropLast_concat]
  simp only [h.leads.follow false]
  exact if_pos h.directory

theorem of_placeFor (hn : Path.Proper n) {q : Place} (h : t.placeFor (dir.join n) = .ok q) :
    ∃ place, Opens t dir place ∧ q = place ++ [n] := by
  rw [FileTree.placeFor, Path.parts_join dir hn, List.getLast?_concat, List.dropLast_concat] at h
  simp only [bind, Except.bind] at h
  split at h
  · cases h
  · next place hfollow =>
    split at h
    · next hdir => exact ⟨place, ⟨.of_follow hfollow, hdir⟩, (Except.ok.inj h).symm⟩
    · cases h

theorem read (h : Opens t dir place) (hn : Path.Proper n) {bytes : ByteArray}
    (hbytes : t.get? (place ++ [n]) = some (.file bytes)) : t.read (dir.join n) = .ok bytes := by
  have hleads := (h.leads.concat h.directory hbytes fun p hp => by cases hp).follow false
  have hresolve : t.resolve (dir.join n) = .ok (place ++ [n]) := by
    rw [FileTree.resolve, Path.text_join_ne_empty dir hn, Path.parts_join dir hn]
    exact hleads
  exact read_eq_ok.mpr ⟨_, hresolve, hbytes⟩

theorem write (h : Opens t dir place) (hn : Path.Proper n)
    (hdir : t.get? (place ++ [n]) ≠ some .directory) (bytes : ByteArray) :
    t.write (dir.join n) bytes = .ok (t.set (place ++ [n]) (.file bytes)) := by
  simp only [FileTree.write, h.placeFor hn, bind, Except.bind]
  exact if_neg hdir

/-- Bytes are added where a file or nothing is. -/
theorem append (h : Opens t dir place) (hn : Path.Proper n)
    (hplain : ∀ e, t.get? (place ++ [n]) = some e → ∃ b, e = .file b) (bytes : ByteArray) :
    ∃ all, t.append (dir.join n) bytes = .ok (t.set (place ++ [n]) (.file all)) := by
  have hempty := Path.text_join_ne_empty dir hn
  cases hentry : t.get? (place ++ [n]) with
  | none =>
    have hfollow := h.leads.follow_concat h.directory hentry
    refine ⟨bytes, ?_⟩
    simp only [FileTree.append, destination, hempty, Path.parts_join dir hn, hfollow, bind,
      Except.bind, Bool.false_eq_true, if_false, hentry]
    rfl
  | some e =>
    obtain ⟨old, rfl⟩ := hplain e hentry
    have hfollow := (h.leads.concat h.directory hentry fun p hp => by cases hp).follow true
    refine ⟨old ++ bytes, ?_⟩
    simp only [FileTree.append, destination, hempty, Path.parts_join dir hn, hfollow, bind,
      Except.bind, Bool.false_eq_true, if_false, hentry]
    rfl

end Opens

/-- A file was written in a directory. -/
theorem write_join_eq_ok {t t' : FileTree} {dir : Path} {n : String} (hn : Path.Proper n)
    {bytes : ByteArray} (h : t.write (dir.join n) bytes = .ok t') :
    ∃ place, Opens t dir place ∧ t.get? (place ++ [n]) ≠ some .directory ∧
      t' = t.set (place ++ [n]) (.file bytes) := by
  obtain ⟨q, hplace, hdir, rfl⟩ := write_eq_ok.mp h
  obtain ⟨place, hopens, rfl⟩ := Opens.of_placeFor hn hplace
  exact ⟨place, hopens, hdir, rfl⟩

/-! ## Making directories -/

theorem makeDirectory_eq_ok {t t' : FileTree} (ht : Grounded t) {p : Path}
    (h : t.makeDirectory p = .ok t') :
    ∃ q n, .name n ∈ p.parts ∧ t.get? q = some .directory ∧ t.get? (q ++ [n]) = none ∧
      t' = t.set (q ++ [n]) .directory := by
  simp only [makeDirectory, bind, Except.bind] at h
  split at h
  · cases h
  · next place hplace =>
    split at h
    · cases h
    · next hnone =>
      obtain rfl : t.set place .directory = t' := Except.ok.inj h
      rw [Option.not_isSome_iff_eq_none] at hnone
      rcases placeFor_eq_ok ht hplace with ⟨q, n, hn, hdir, rfl⟩ | ⟨e, he, -⟩
      · exact ⟨q, n, hn, hdir, hnone, rfl⟩
      · rw [hnone] at he
        cases he

/-- Directories are made at places with names of the path. -/
theorem becomes_makeDirectoriesOf {t t' : FileTree} (ht : Grounded t) {parts : List Path.Part}
    (hparts : ∀ n, .name n ∈ parts → Path.Proper n) (h : t.makeDirectoriesOf parts = .ok t') :
    Becomes (fun _ => False) (fun q => ∃ r n, .name n ∈ parts ∧ q = r ++ [n]) t t' := by
  have hstep : ∀ {u u' : FileTree}, Grounded u → u.makeDirectory (.ofParts parts) = .ok u' →
      Becomes (fun _ => False) (fun q => ∃ r n, .name n ∈ parts ∧ q = r ++ [n]) u u' := by
    intro u u' hu hmake
    obtain ⟨q, n, hn, hdir, hnone, rfl⟩ := makeDirectory_eq_ok hu hmake
    refine (becomes_set_directory hdir hnone).mono (fun _ h => h) ?_
    rintro _ rfl
    exact ⟨q, n, Path.mem_of_mem_parts_ofParts hparts hn, rfl⟩
  rw [makeDirectoriesOf] at h
  split at h
  · cases h
    exact .refl _ _ _
  next hne =>
  have hshort : parts.dropLast.length < parts.length := by
    have := List.length_pos_iff.mpr hne
    rw [List.length_dropLast]
    omega
  simp only at h
  split at h
  · next hmake =>
    cases h
    exact hstep ht hmake
  · simp only [bind, Except.bind] at h
    split at h
    · cases h
    · next t₁ habove =>
      have hfirst : Becomes (fun _ => False) (fun q => ∃ r n, .name n ∈ parts ∧ q = r ++ [n])
          t t₁ := by
        refine (becomes_makeDirectoriesOf ht
          (fun n hn => hparts n ((List.dropLast_sublist _).subset hn)) habove).mono
          (fun _ h => h) ?_
        rintro _ ⟨r, n, hn, rfl⟩
        exact ⟨r, n, (List.dropLast_sublist _).subset hn, rfl⟩
      split at h
      · next hmake =>
        cases h
        exact hfirst.trans (hstep (ht.becomes hfirst) hmake)
      · split at h
        · cases h
          exact hfirst
        · cases h
  · split at h
    · cases h
      exact .refl _ _ _
    · cases h
termination_by parts.length
decreasing_by assumption

theorem becomes_makeDirectories {t t' : FileTree} (ht : Grounded t) {p : Path}
    (h : t.makeDirectories p = .ok t') :
    Becomes (fun _ => False) (fun q => ∃ r n, .name n ∈ p.parts ∧ q = r ++ [n]) t t' :=
  becomes_makeDirectoriesOf ht (fun _ hn => Path.proper_of_mem_parts hn) h

end Mend.FileTree
