import Mend.Patch.Backup
import Mend.Proofs.Path
import Mend.Proofs.Time.Written
import Mend.Proofs.Workspace
import Mend.Rule.Context
import Mend.Store.Basic

/-!
# Names of copies

The name of a copy tells its id up to 2 ^ 32 and its moment up to a millisecond (`stem_inj`). While
2 ^ 32 ids are given out the clock moves on by more than that, and so a name that was given to a copy
(`Taken`) is given to no other one (`not_taken_of_next`).

Names of copies and names of the store's files are reserved (`Reserved`). A source file never has
one (`not_reserved_of_language`).
-/

namespace Mend

/-! ## Moments apart -/

/-- The moment `b` is later than `a`, or at least `k` nanoseconds after it in the same second. -/
def Time.Reaches (a : Time) (k : Nat) (b : Time) : Prop :=
  a.seconds < b.seconds ∨ (a.seconds = b.seconds ∧ a.nanos + k ≤ b.nanos)

namespace Time

theorem reaches_refl (t : Time) : t.Reaches 0 t := Or.inr ⟨rfl, le_rfl⟩

theorem Reaches.trans {a b c : Time} {j k : Nat} (h : a.Reaches j b) (h' : b.Reaches k c) :
    a.Reaches (j + k) c := by
  unfold Reaches at *
  omega

theorem Reaches.mono {a b : Time} {j k : Nat} (h : a.Reaches k b) (hj : j ≤ k) : a.Reaches j b := by
  unfold Reaches at *
  omega

theorem reaches_of_before {a b : Time} (h : a.before b = true) : a.Reaches 1 b := by
  simp only [before, Bool.or_eq_true, decide_eq_true_eq, Bool.and_eq_true, beq_iff_eq] at h
  unfold Reaches
  omega

theorem slash_not_mem_stamp (t : Time) : '/' ∉ t.stamp.toList := by
  have hyear := not_mem_yearText (c := '/') (by decide) (by decide) (by decide)
  have hpadded := not_mem_padded (c := '/') (by decide)
  rw [toList_stamp]
  simp [stampFront, hyear, hpadded]

end Time

namespace Backup

/-! ## Names -/

/-- What the name of a copy says before its ending. -/
def stem (source : Path) (now : Time) (id : String) : List Char :=
  (source.fileName?.getD "file").toList ++ '.' :: now.stamp.toList ++ '.' :: id.toList.take 8

theorem toList_name (source : Path) (now : Time) (id : String) :
    (name source now id).toList = stem source now id ++ ".bak".toList := by
  simp [name, stem]

theorem toList_description (source : Path) (now : Time) (id : String) :
    (name source now id ++ ".meta.json").toList = stem source now id ++ ".bak.meta.json".toList := by
  rw [String.toList_append, toList_name, List.append_assoc]
  rfl

/-- The names of a copy and of its description. -/
def names (source : Path) (now : Time) (id : String) : List String :=
  [name source now id, name source now id ++ ".meta.json"]

theorem toList_of_mem_names {source : Path} {now : Time} {id n : String}
    (h : n ∈ names source now id) :
    n.toList = stem source now id ++ ".bak".toList ∨
      n.toList = stem source now id ++ ".bak.meta.json".toList := by
  simp only [names, List.mem_cons, List.not_mem_nil, or_false] at h
  rcases h with rfl | rfl
  · exact Or.inl (toList_name ..)
  · exact Or.inr (toList_description ..)

theorem stem_eq_of_mem_names {source source' : Path} {t u : Time} {id id' n : String}
    (h : n ∈ names source t id) (h' : n ∈ names source' u id') :
    stem source t id = stem source' u id' := by
  have hlast : ∀ a b : List Char, a ++ ".bak".toList ≠ b ++ ".bak.meta.json".toList := by
    intro a b hab
    have hends := congrArg List.getLast? hab
    rw [List.getLast?_append_of_ne_nil _ (by decide), List.getLast?_append_of_ne_nil _ (by decide)]
      at hends
    exact absurd hends (by decide)
  rcases toList_of_mem_names h with hn | hn <;> rcases toList_of_mem_names h' with hn' | hn' <;>
    rw [hn] at hn'
  · exact List.append_cancel_right hn'
  · exact absurd hn' (hlast _ _)
  · exact absurd hn'.symm (hlast _ _)
  · exact List.append_cancel_right hn'

theorem stem_inj {source source' : Path} {t u : Time} {n m : Nat}
    (h : stem source t (Work.idOf n) = stem source' u (Work.idOf m)) :
    n % 2 ^ 32 = m % 2 ^ 32 ∧ t.seconds = u.seconds ∧ t.nanos / 1000000 = u.nanos / 1000000 := by
  have hlength : ∀ k, ((Work.idOf k).toList.take 8).length = 8 := by
    intro k
    rw [Work.take_idOf, List.length_take_of_le]
    have := Work.length_idDigits k
    omega
  obtain ⟨hfront, hid⟩ := List.append_inj' h (by rw [List.length_cons, List.length_cons, hlength, hlength])
  rw [Time.toList_stamp, Time.toList_stamp, ← List.cons_append, ← List.append_assoc,
    ← List.cons_append, ← List.append_assoc] at hfront
  have hdigits := Time.not_mem_padded (c := '.') (by decide) 3
  obtain ⟨hfront, hmillis⟩ := Time.append_cons_inj (hdigits _) (hdigits _) hfront
  obtain ⟨-, hfront⟩ := Time.append_cons_inj (Time.dot_not_mem_stampFront t)
    (Time.dot_not_mem_stampFront u) hfront
  exact ⟨Work.mod_eq_of_take_idOf (List.cons.inj hid).2, Time.stamp_inj hfront hmillis⟩

theorem proper_fileName (source : Path) : Path.Proper (source.fileName?.getD "file") := by
  unfold Path.fileName?
  split
  · next n hlast => exact Path.proper_of_mem_parts (List.mem_of_getLast? hlast)
  · exact ⟨by decide, by decide, by decide, by decide⟩

theorem slash_not_mem_stem (source : Path) (now : Time) (n : Nat) :
    '/' ∉ stem source now (Work.idOf n) := by
  have hid : '/' ∉ (Work.idOf n).toList.take 8 := by
    rw [Work.take_idOf]
    exact fun h => Work.slash_not_mem_idDigits n (List.mem_of_mem_take h)
  simp [stem, (proper_fileName source).no_slash, now.slash_not_mem_stamp, hid]

/-- The name of a copy is one step of a path, and so is that of its description. -/
theorem proper_of_mem_names {source : Path} {now : Time} {k : Nat} {n : String}
    (h : n ∈ names source now (Work.idOf k)) : Path.Proper n := by
  have hstem := slash_not_mem_stem source now k
  rcases toList_of_mem_names h with hn | hn
  · exact Path.proper_of_append hn hstem (by decide) (by decide)
  · exact Path.proper_of_append hn hstem (by decide) (by decide)

end Backup

/-! ## Reserved names -/

/-- The files that the store writes. -/
def Store.files : List String := [issuesFile, fixesFile, applicationsFile]

/-- The name of a file that the store writes, or one that ends like that of a copy or of its
description. -/
def Reserved (n : String) : Prop :=
  n ∈ Store.files ∨
    ∃ s, n.toList = s ++ ".bak".toList ∨ n.toList = s ++ ".bak.meta.json".toList

theorem reserved_iff {n : String} : Reserved n ↔ n ∈ Store.files ∨
    ".bak".toList <:+ n.toList ∨ ".bak.meta.json".toList <:+ n.toList := by
  simp only [Reserved, List.IsSuffix, exists_or, eq_comm]

instance (n : String) : Decidable (Reserved n) := decidable_of_iff _ reserved_iff.symm

theorem Store.proper_of_mem_files : ∀ {file : String}, file ∈ files → Path.Proper file := by
  intro file h
  simp only [files, List.mem_cons, List.not_mem_nil, or_false] at h
  rcases h with rfl | rfl | rfl <;> exact ⟨by decide, by decide, by decide, by decide⟩

theorem splitName_of_append {n : String} {s e : List Char} (h : n.toList = s ++ '.' :: e)
    (he : '.' ∉ e) : (Path.splitName n).2 = none ∨ (Path.splitName n).2 = some (String.ofList e) := by
  have hall : ∀ c ∈ e.reverse, (decide (c ≠ '.')) = true := by
    intro c hc
    rw [decide_eq_true_eq]
    rintro rfl
    exact he (List.mem_reverse.mp hc)
  have hback : n.toList.reverse = e.reverse ++ '.' :: s.reverse := by simp [h]
  have htake : n.toList.reverse.takeWhile (· ≠ '.') = e.reverse := by
    rw [hback, List.takeWhile_append_of_pos hall]
    simp
  have hdrop : n.toList.reverse.dropWhile (· ≠ '.') = '.' :: s.reverse := by
    rw [hback, List.dropWhile_append_of_pos hall]
    simp
  unfold Path.splitName
  simp only [htake, hdrop]
  split
  · exact Or.inl rfl
  · exact Or.inr (by simp)

/-- A source file does not have a reserved name. -/
theorem not_reserved_of_language {p : Path} {n : String} (hname : p.fileName? = some n)
    (hlanguage : p.language?.isSome) : ¬ Reserved n := by
  have hother : ∀ {s e : List Char}, n.toList = s ++ '.' :: e → '.' ∉ e →
      Language.ofExtension? (String.ofList e) = none → False := by
    intro s e hsplit he hnone
    rw [Path.language?, Path.extension?, hname, Option.bind_some] at hlanguage
    rcases splitName_of_append hsplit he with hext | hext <;> simp [hext, hnone] at hlanguage
  rintro (hfile | ⟨s, hs | hs⟩)
  · simp only [Store.files, List.mem_cons, List.not_mem_nil, or_false] at hfile
    rcases hfile with rfl | rfl | rfl
    · exact hother (s := "issues".toList) (e := "json".toList) rfl (by decide) (by decide)
    · exact hother (s := "fixes".toList) (e := "json".toList) rfl (by decide) (by decide)
    · exact hother (s := "applications".toList) (e := "jsonl".toList) rfl (by decide) (by decide)
  · exact hother (e := "bak".toList) hs (by decide) (by decide)
  · refine hother (s := s ++ ".bak.meta".toList) (e := "json".toList) ?_ (by decide) (by decide)
    rw [hs, List.append_assoc]
    rfl

/-! ## Names that were given to copies -/

/-- The name of a copy, or of the description of one. -/
def Backup.IsName (n : String) : Prop := ∃ source t k, n ∈ names source t (Work.idOf k)

/-- A copy that was made so far, or its description, has the name. -/
def Taken (w : Workspace) (n : String) : Prop :=
  ∃ source t k, n ∈ Backup.names source t (Work.idOf k) ∧ k < w.serial ∧
    t.Reaches (w.serial - (k + 1)) w.clock

theorem reserved_of_mem_names {source : Path} {t : Time} {id n : String}
    (h : n ∈ Backup.names source t id) : Reserved n :=
  Or.inr ⟨_, Backup.toList_of_mem_names h⟩

theorem Backup.IsName.reserved {n : String} (h : IsName n) : Reserved n := by
  obtain ⟨source, t, k, hn⟩ := h
  exact reserved_of_mem_names hn

theorem Taken.isName {w : Workspace} {n : String} (h : Taken w n) : Backup.IsName n := by
  obtain ⟨source, t, k, hn, -⟩ := h
  exact ⟨source, t, k, hn⟩

theorem Taken.proper {w : Workspace} {n : String} (h : Taken w n) : Path.Proper n := by
  obtain ⟨source, t, k, hn, -⟩ := h
  exact Backup.proper_of_mem_names hn

theorem not_taken_of_mem_files (w : Workspace) {n : String} (h : n ∈ Store.files) :
    ¬ Taken w n := by
  rintro ⟨source, t, k, hn, -⟩
  have hending : ".bak".toList <:+ n.toList ∨ ".bak.meta.json".toList <:+ n.toList :=
    (Backup.toList_of_mem_names hn).imp (fun h => ⟨_, h.symm⟩) fun h => ⟨_, h.symm⟩
  simp only [Store.files, List.mem_cons, List.not_mem_nil, or_false] at h
  rcases h with rfl | rfl | rfl <;> revert hending <;> decide

/-- The clock moves on whenever it is read. -/
def Workspace.Ahead (w : Workspace) : Prop := ∀ t : Time, t.before (w.tick t) = true

/-- The next copy and its description get names that were not given before. -/
theorem not_taken_of_next {w : Workspace} (hahead : w.Ahead) {source : Path} {n : String}
    (hn : n ∈ Backup.names source (w.tick w.clock) (Work.idOf w.serial)) : ¬ Taken w n := by
  rintro ⟨source', t, k, hname, hk, ht⟩
  obtain ⟨hid, hseconds, hmillis⟩ := Backup.stem_inj (Backup.stem_eq_of_mem_names hn hname)
  have hreach := ht.trans (Time.reaches_of_before (hahead w.clock))
  unfold Time.Reaches at hreach
  omega

/-- A clock that moves on has gone far after it was read often. -/
theorem Workspace.Ahead.reaches {w : Workspace} (h : w.Ahead) (t : Time) :
    ∀ n : Nat, t.Reaches n (w.tick^[n] t)
  | 0 => Time.reaches_refl t
  | n + 1 => by
    rw [Function.iterate_succ_apply']
    exact (h.reaches t n).trans (Time.reaches_of_before (h _))

/-- The other workspace comes after this one: ids were given out, and the clock was read at least as
often. -/
structure Workspace.Precedes (w w' : Workspace) : Prop where
  serial : w.serial ≤ w'.serial
  tick : w'.tick = w.tick
  disk : w'.disk = w.disk
  clock : ∃ n, w'.serial - w.serial ≤ n ∧ w'.clock = w.tick^[n] w.clock

namespace Workspace.Precedes

variable {w w' w'' : Workspace}

theorem refl (w : Workspace) : w.Precedes w :=
  ⟨le_rfl, rfl, rfl, 0, by rw [Nat.sub_self], rfl⟩

theorem ahead (h : w.Precedes w') (hw : w.Ahead) : w'.Ahead := by
  rw [Ahead, h.tick]
  exact hw

theorem trans (h : w.Precedes w') (h' : w'.Precedes w'') : w.Precedes w'' where
  serial := h.serial.trans h'.serial
  tick := h'.tick.trans h.tick
  disk := h'.disk.trans h.disk
  clock := by
    obtain ⟨n, hn, hclock⟩ := h.clock
    obtain ⟨m, hm, hclock'⟩ := h'.clock
    refine ⟨m + n, by omega, ?_⟩
    rw [hclock', hclock, h.tick, Function.iterate_add_apply]

theorem reaches (h : w.Precedes w') (hw : w.Ahead) :
    w.clock.Reaches (w'.serial - w.serial) w'.clock := by
  obtain ⟨n, hn, hclock⟩ := h.clock
  rw [hclock]
  exact (hw.reaches w.clock n).mono hn

theorem taken (h : w.Precedes w') (hw : w.Ahead) {n : String} (hn : Taken w n) : Taken w' n := by
  obtain ⟨source, t, k, hname, hk, ht⟩ := hn
  have := h.serial
  exact ⟨source, t, k, hname, by omega, (ht.trans (h.reaches hw)).mono (by omega)⟩

end Workspace.Precedes

end Mend
