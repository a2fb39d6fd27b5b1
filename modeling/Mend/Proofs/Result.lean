import Mathlib.Data.List.Forall2

/-!
# What a run without a fault gives

A computation that may fail gives a result only if each of its parts does. Here this is said for
computations in a row (`bind_eq_ok`), for a result that is turned into another (`exists_of_map`) and
for a list that is gone through (`forall₂_of_mapM`).
-/

namespace Mend

theorem bind_eq_ok {α β ε : Type} {x : Except ε α} {f : α → Except ε β} {b : β} :
    (x >>= f) = .ok b ↔ ∃ a, x = .ok a ∧ f a = .ok b := by
  cases x <;> simp [bind, Except.bind]

theorem bind_eq_error {α β ε : Type} {x : Except ε α} {f : α → Except ε β} {e : ε} :
    (x >>= f) = .error e ↔ x = .error e ∨ ∃ a, x = .ok a ∧ f a = .error e := by
  cases x <;> simp [bind, Except.bind]

theorem exists_of_map {ε α β : Type} {g : α → β} {x : Except ε α} {b : β} (h : x.map g = .ok b) :
    ∃ a, x = .ok a ∧ g a = b := by
  cases x with
  | error e => cases h
  | ok a => exact ⟨a, rfl, Except.ok.inj h⟩

theorem map_eq_error {ε α β : Type} {g : α → β} {x : Except ε α} {e : ε} :
    x.map g = .error e ↔ x = .error e := by
  cases x <;> simp [Except.map]

/-- Where a list is gone through without a fault, there is a result for each element. -/
theorem forall₂_of_mapM {ε α β : Type} {f : α → Except ε β} : ∀ {as : List α} {bs : List β},
    as.mapM f = .ok bs → List.Forall₂ (fun a b => f a = .ok b) as bs
  | [], bs, h => by
    cases h
    exact .nil
  | a :: as, bs, h => by
    rw [List.mapM_cons] at h
    simp only [bind, Except.bind] at h
    split at h
    · cases h
    · next b hb =>
      split at h
      · cases h
      · next rest hrest =>
        obtain rfl := Except.ok.inj h
        exact .cons hb (forall₂_of_mapM hrest)

/-! ## Lists on whose elements nothing fails -/

section

variable {ε α β : Type}

theorem mapM_eq_ok {f : α → Except ε β} {g : α → β} : ∀ {as : List α},
    (∀ a ∈ as, f a = .ok (g a)) → as.mapM f = .ok (as.map g)
  | [], _ => rfl
  | a :: as, h => by
    obtain ⟨ha, has⟩ := List.forall_mem_cons.mp h
    rw [List.mapM_cons, ha, mapM_eq_ok has]
    rfl

theorem filterMapM_eq_ok {f : α → Except ε (Option β)} {g : α → Option β} : ∀ {as : List α},
    (∀ a ∈ as, f a = .ok (g a)) → as.filterMapM f = .ok (as.filterMap g)
  | [], _ => rfl
  | a :: as, h => by
    obtain ⟨ha, has⟩ := List.forall_mem_cons.mp h
    rw [List.filterMapM_cons, ha, filterMapM_eq_ok has, List.filterMap_cons]
    cases g a <;> rfl

theorem anyM_eq_ok {f : α → Except ε Bool} {g : α → Bool} : ∀ {as : List α},
    (∀ a ∈ as, f a = .ok (g a)) → as.anyM f = .ok (as.any g)
  | [], _ => rfl
  | a :: as, h => by
    obtain ⟨ha, has⟩ := List.forall_mem_cons.mp h
    rw [List.anyM, ha, List.any_cons]
    cases g a
    · exact anyM_eq_ok has
    · rfl

end

/-- An item of the second of two related lists is related to one of the first. -/
theorem exists_of_mem_right {α β : Type} {R : α → β → Prop} {as : List α} {bs : List β}
    (h : List.Forall₂ R as bs) {b : β} (hb : b ∈ bs) : ∃ a ∈ as, R a b := by
  induction h with
  | nil => simp at hb
  | @cons a _ _ _ hfirst _ ih =>
    rcases List.mem_cons.mp hb with rfl | hb
    · exact ⟨a, List.mem_cons_self, hfirst⟩
    · obtain ⟨c, hc, hrel⟩ := ih hb
      exact ⟨c, List.mem_cons_of_mem _ hc, hrel⟩

/-! ## Lists that are gone through -/

theorem mapM_congr {ε α β : Type} {f g : α → Except ε β} {as : List α} (h : ∀ a ∈ as, f a = g a) :
    as.mapM f = as.mapM g := by
  induction as with
  | nil => rfl
  | cons a as ih =>
    rw [List.mapM_cons, List.mapM_cons, h a List.mem_cons_self,
      ih fun b hb => h b (List.mem_cons_of_mem _ hb)]

theorem mem_mapM {ε α β : Type} {f : α → Except ε β} {as : List α} {bs : List β}
    (h : as.mapM f = .ok bs) {b : β} : b ∈ bs ↔ ∃ a ∈ as, f a = .ok b := by
  have hall := forall₂_of_mapM h
  clear h
  induction hall with
  | nil => simp
  | cons hfirst _ ih => simp [ih, hfirst, eq_comm]

theorem ok_of_mapM {ε α β : Type} {f : α → Except ε β} {as : List α} {bs : List β}
    (h : as.mapM f = .ok bs) {a : α} (ha : a ∈ as) : ∃ b, f a = .ok b := by
  obtain ⟨b, -, hb⟩ := exists_of_mem_right (forall₂_of_mapM h).flip ha
  exact ⟨b, hb⟩

theorem exists_mapM_iff {ε α β : Type} {f : α → Except ε β} {as : List α} :
    (∃ bs, as.mapM f = .ok bs) ↔ ∀ a ∈ as, ∃ b, f a = .ok b := by
  refine ⟨fun ⟨bs, hbs⟩ a ha => ok_of_mapM hbs ha, fun h => ?_⟩
  induction as with
  | nil => exact ⟨[], rfl⟩
  | cons a as ih =>
    obtain ⟨b, hb⟩ := h a List.mem_cons_self
    obtain ⟨bs, hbs⟩ := ih fun c hc => h c (List.mem_cons_of_mem a hc)
    exact ⟨b :: bs, by rw [List.mapM_cons, hb, hbs]; rfl⟩

theorem map_fst_of_mapM {ε α β : Type} {f : α → Except ε β} {as : List α} {bs : List (α × β)}
    (h : (as.mapM fun a => do pure (a, ← f a)) = .ok bs) : bs.map (·.1) = as := by
  have hall := forall₂_of_mapM h
  clear h
  induction hall with
  | nil => rfl
  | @cons a b as bs hfirst _ ih =>
    have hpair : b.1 = a := by
      cases ha : f a with
      | error e => simp [ha, bind, Except.bind] at hfirst
      | ok c =>
        obtain rfl : (a, c) = b := by simpa [ha, bind, Except.bind, pure, Except.pure] using hfirst
        rfl
    rw [List.map_cons, hpair, ih]

theorem exists_perm_of_mapM {ε α β : Type} {f : α → Except ε β} {as as' : List α}
    (h : as.Perm as') : ∀ {bs : List β}, as.mapM f = .ok bs →
      ∃ bs', as'.mapM f = .ok bs' ∧ bs.Perm bs' := by
  induction h with
  | nil => exact fun hbs => ⟨_, hbs, .refl _⟩
  | cons a _ ih =>
    intro bs hbs
    simp only [List.mapM_cons, bind_eq_ok] at hbs
    obtain ⟨b, hb, rest, hrest, hcons⟩ := hbs
    obtain ⟨rest', hrest', hperm⟩ := ih hrest
    obtain rfl := Except.ok.inj hcons
    exact ⟨b :: rest', by rw [List.mapM_cons, hb, hrest']; rfl, hperm.cons b⟩
  | swap a a' as =>
    intro bs hbs
    simp only [List.mapM_cons, bind_eq_ok] at hbs
    obtain ⟨b', hb', _, ⟨b, hb, rest, hrest, hrest'⟩, hcons⟩ := hbs
    obtain rfl := Except.ok.inj hrest'
    obtain rfl := Except.ok.inj hcons
    refine ⟨b :: b' :: rest, ?_, List.Perm.swap b b' rest⟩
    rw [List.mapM_cons, List.mapM_cons, hb, hb', hrest]
    rfl
  | trans _ _ ih ih' =>
    intro bs hbs
    obtain ⟨bs', hbs', hperm⟩ := ih hbs
    obtain ⟨bs'', hbs'', hperm'⟩ := ih' hbs'
    exact ⟨bs'', hbs'', hperm.trans hperm'⟩

/-- A fault is one of the elements. -/
theorem exists_error_of_mapM {ε α β : Type} {f : α → Except ε β} {e : ε} : ∀ {as : List α},
    as.mapM f = .error e → ∃ a ∈ as, f a = .error e
  | [], h => by cases h
  | a :: as, h => by
    cases ha : f a with
    | error e' =>
      rw [List.mapM_cons, ha] at h
      obtain rfl := Except.error.inj h
      exact ⟨a, List.mem_cons_self, ha⟩
    | ok b =>
      cases has : as.mapM f with
      | error e' =>
        rw [List.mapM_cons, ha, has] at h
        obtain rfl := Except.error.inj h
        obtain ⟨c, hc, hfault⟩ := exists_error_of_mapM has
        exact ⟨c, List.mem_cons_of_mem a hc, hfault⟩
      | ok bs =>
        rw [List.mapM_cons, ha, has] at h
        cases h

end Mend
