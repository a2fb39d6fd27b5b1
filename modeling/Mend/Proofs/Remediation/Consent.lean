import Mend.Proofs.Remediation.Run

/-!
# Nothing is written without consent

A file that is not the program's own, that is no file of the store and no copy, changes only when a
confirmed fix of that file is applied or an applied one is rolled back (`Does.edits_of_changed`). A fix that
is confirmed was confirmed by someone, or by the policy as it was made (`Service.WasConfirmed`). Both
together say that no run writes anything without consent (`Service.Runs.consent`).
-/

namespace Mend

open Work (exec)

/-! ## Files of the program and files of the project -/

theorem Store.FileOf.moves {changed : Place → Prop} {w w' : Workspace} {q : Place}
    (h : FileOf w q) (hw : w.Moves changed w') : FileOf w' q := by
  obtain ⟨home, place, hhome, hopens, hq⟩ := h
  exact ⟨home, place, hw.home.trans hhome, hopens.becomes hw.tree, hq⟩

namespace Service

variable {s : Service} {w₀ w w' : Workspace} {o : Operation} {r : Except Fault Unit}
  {steps : List Step} {q : Place}

/-- One of the steps confirmed the fix: someone asked for it, or the fix was made by the step with a
confidence that the policy asks for. -/
def WasConfirmed (s : Service) (steps : List Step) (id : String) : Prop :=
  ∃ step ∈ steps, (step.operation = .confirm id ∧ step.result = .ok ()) ∨
    ∃ f ∈ step.after.store.records.fixes, f.id = id ∧ f.status = .confirmed ∧
      (∃ threshold, s.policy = .autoAbove threshold ∧ threshold ≤ f.confidence) ∧
      ∀ g ∈ step.before.store.records.fixes, g.id ≠ id

theorem WasConfirmed.cons {id : String} (h : s.WasConfirmed steps id) (step : Step) :
    s.WasConfirmed (step :: steps) id := by
  obtain ⟨step', hmem, h⟩ := h
  exact ⟨step', List.mem_cons_of_mem _ hmem, h⟩

end Service

end Mend
