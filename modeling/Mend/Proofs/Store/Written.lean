import Mathlib.Data.List.Nodup
import Mend.Proofs.Data.Json
import Mend.Proofs.Time.Written
import Mend.Store.Records

/-!
# Records as they are written

The record of an issue, a fix or a line of the audit trail is read as it was (`Issue.ofData?_toData`,
`Fix.ofData?_toData`, `Application.ofData?_toData`), whatever its texts and paths are. Its numbers have
to fit the fields they are read into, and its moments have to be ones that texts can say, as all are
that clocks show and all that are read (`Storable`, `Time.regular_iff_exists_read?`). A record gives
each of its fields once, so that the fields are found by their names (`Fields.of?_record`).
-/

namespace Mend

/-! ## Fields -/

namespace Fields

/-- The fields that a record gives, each once. -/
theorem of?_record {format : Data.Format} {fs : List (String × Data)} {names : List String}
    (hnames : fs.map Prod.fst = names) (h : names.Nodup) :
    of? format names (.record fs) = some ⟨fs.map fun f => (f.1, some f.2)⟩ := by
  subst hnames
  have honce : ∀ n ∈ fs.map Prod.fst, ¬ 1 < fs.countP fun f => f.1 == n := by
    intro n hn
    have hcount := List.nodup_iff_count_le_one.mp h n
    rw [List.count_eq_countP, List.countP_map] at hcount
    exact Nat.not_lt.mpr hcount
  have hfind : ∀ f ∈ fs, (fs.find? fun g => g.1 == f.1) = some f := by
    intro f hf
    have hsome : (fs.find? fun g => g.1 == f.1).isSome := by
      rw [List.find?_isSome]
      exact ⟨f, hf, by simp⟩
    obtain ⟨g, hg⟩ := Option.isSome_iff_exists.mp hsome
    have hname : g.1 = f.1 := by simpa using List.find?_some hg
    rw [hg, List.inj_on_of_nodup_map h (List.mem_of_find?_eq_some hg) hf hname]
  rw [of?, if_neg (by simpa using honce), List.map_map]
  congr 2
  refine List.map_congr_left fun f hf => ?_
  simp [hfind f hf]

@[simp] theorem get?_cons_self (n : String) (d : Option Data) (g : List (String × Option Data)) :
    get? ⟨(n, d) :: g⟩ n = d := by
  simp [get?]

@[simp] theorem get?_cons_of_ne {n m : String} (h : n ≠ m) (d : Option Data)
    (g : List (String × Option Data)) : get? ⟨(n, d) :: g⟩ m = get? ⟨g⟩ m := by
  simp [get?, h]

end Fields

/-! ## Values of fields -/

@[simp] theorem Data.toNat?_ofNat {limit n : Nat} (h : n ≤ limit) :
    (Data.ofNat n).toNat? limit = some n := by
  simp [Data.ofNat, Data.toNat?, h]

@[simp] theorem Data.toOption?_ofNat? {limit : Nat} {n : Option Nat} (h : ∀ k ∈ n, k ≤ limit) :
    (Data.ofNat? n).toOption? (Data.toNat? limit) = some n := by
  cases n with
  | none => rfl
  | some k => simp [Data.ofNat?, Data.toOption?, Data.toNat?, h k rfl]

@[simp] theorem Data.toOption?_ofText? (s : Option String) :
    (Data.ofText? s).toOption? Data.toText? = some s := by
  cases s <;> rfl

@[simp] theorem Platform.ofData?_name (p : Platform) : Platform.ofData? .json (.text p.name) = some p := by
  cases p <;> rfl

@[simp] theorem Severity.ofData?_name (s : Severity) : Severity.ofData? .json (.text s.name) = some s := by
  cases s <;> rfl

@[simp] theorem IssueKind.ofData?_name (k : IssueKind) : IssueKind.ofData? (.text k.name) = some k := by
  cases k <;> rfl

@[simp] theorem FixStatus.ofData?_name (s : FixStatus) : FixStatus.ofData? (.text s.name) = some s := by
  cases s <;> rfl

@[simp] theorem PatchAction.ofData?_name (a : PatchAction) :
    PatchAction.ofData? (.text a.name) = some a := by
  cases a <;> rfl

@[simp] theorem Placement.toOption?_toData? (p : Option Placement) :
    (Placement.toData? p).toOption? Placement.ofData? = some p := by
  rcases p with _ | p
  · rfl
  · cases p <;> rfl

@[simp] theorem Issue.timeOf?_text {t : Time} (h : t.Regular) : Issue.timeOf? (.text t.text) = some t := by
  rw [Issue.timeOf?, Data.toText?, Option.bind_some]
  exact Time.read?_text h

@[simp] theorem Fix.toOption?_timeData {t : Option Time} (h : ∀ u ∈ t, u.Regular) :
    (Fix.timeData t).toOption? Issue.timeOf? = some t := by
  cases t with
  | none => rfl
  | some u => simp [Fix.timeData, Data.toOption?, Issue.timeOf?_text (h u rfl)]

@[simp] theorem Fix.toOption?_pathData (p : Option Path) :
    (Fix.pathData p).toOption? Issue.pathOf? = some p := by
  cases p <;> rfl

/-- Each of a list of records is read as it was. -/
theorem Data.toList?_map {α : Type} {write : α → Data} {read? : Data → Option α} :
    ∀ {l : List α}, (∀ a ∈ l, read? (write a) = some a) →
      (Data.list (l.map write)).toList? read? = some l
  | [], _ => rfl
  | a :: l, h => by
    have hrest : (l.map write).mapM read? = some l :=
      Data.toList?_map fun b hb => h b (List.mem_cons_of_mem a hb)
    rw [List.map_cons, Data.toList?, List.mapM_cons, h a List.mem_cons_self, hrest]
    rfl

/-! ## Records -/

/-- The numbers of the issue fit and its moment is one that texts can say. -/
structure Issue.Storable (i : Issue) : Prop where
  line : i.line ≤ Data.lineLimit
  column : ∀ c ∈ i.column, c ≤ Data.lineLimit
  detectedAt : i.detectedAt.Regular

/-- The numbers of the fix fit and its moments are ones that texts can say. -/
structure Fix.Storable (f : Fix) : Prop where
  confidence : f.confidence ≤ Data.byteLimit
  line : f.line ≤ Data.lineLimit
  alternatives : ∀ a ∈ f.alternatives, a.confidence ≤ Data.byteLimit
  createdAt : f.createdAt.Regular
  confirmedAt : ∀ t ∈ f.confirmedAt, t.Regular
  appliedAt : ∀ t ∈ f.appliedAt, t.Regular
  rolledBackAt : ∀ t ∈ f.rolledBackAt, t.Regular

/-- The moment of the line is one that texts can say. -/
def Application.Storable (a : Application) : Prop := a.appliedAt.Regular

/-! ## Reading them back -/

section

attribute [local simp] Fields.required Fields.optional Fields.withDefault Issue.pathOf?
  Data.toText? Data.toBool?

theorem Application.ofData?_toData {a : Application} (h : a.Storable) :
    Application.ofData? a.toData = some a := by
  rw [Application.ofData?, Application.toData, Fields.of?_record, Option.bind_eq_bind,
    Option.bind_some]
  · simp [Issue.timeOf?_text h]
  · rfl
  · decide

theorem Alternative.ofData?_toData {a : Alternative} (h : a.confidence ≤ Data.byteLimit) :
    Alternative.ofData? a.toData = some a := by
  rw [Alternative.ofData?, Alternative.toData, Fields.of?_record, Option.bind_eq_bind,
    Option.bind_some]
  · simp [h]
  · rfl
  · decide

theorem Issue.ofData?_toData {i : Issue} (h : i.Storable) : Issue.ofData? i.toData = some i := by
  rw [Issue.ofData?, Issue.toData, Fields.of?_record, Option.bind_eq_bind,
    Option.bind_some]
  · simp [Finding.fields, h.line, Data.toOption?_ofNat? h.column, h.detectedAt]
  · rfl
  · decide

theorem Fix.ofData?_toData {f : Fix} (h : f.Storable) : Fix.ofData? f.toData = some f := by
  have halternatives : (Data.list (f.alternatives.map Alternative.toData)).toList?
      Alternative.ofData? = some f.alternatives :=
    Data.toList?_map fun a ha => Alternative.ofData?_toData (h.alternatives a ha)
  rw [Fix.ofData?, Fix.toData, Fields.of?_record, Option.bind_eq_bind,
    Option.bind_some]
  · simp [halternatives, h.confidence, h.line, h.createdAt,
      Fix.toOption?_timeData h.confirmedAt, Fix.toOption?_timeData h.appliedAt,
      Fix.toOption?_timeData h.rolledBackAt]
  · rfl
  · decide

end

/-! ## Nothing in them is lost in writing -/

namespace Data

@[simp] theorem plain_ofNat (n : Nat) : (ofNat n).Plain := trivial

@[simp] theorem plain_ofNat? (n : Option Nat) : (ofNat? n).Plain := by
  cases n <;> trivial

@[simp] theorem plain_ofText? (s : Option String) : (ofText? s).Plain := by
  cases s <;> trivial

/-- A list is plain when each of its items is. -/
theorem plain_list {items : List Data} (h : ∀ d ∈ items, d.Plain) : (list items).Plain := by
  induction items with
  | nil => trivial
  | cons d items ih =>
    exact ⟨h d List.mem_cons_self, ih fun e he => h e (List.mem_cons_of_mem d he)⟩

end Data

@[simp] theorem Placement.plain_toData? (p : Option Placement) : (toData? p).Plain := by
  cases p <;> trivial

@[simp] theorem Fix.plain_timeData (t : Option Time) : (timeData t).Plain := by
  cases t <;> trivial

@[simp] theorem Fix.plain_pathData (p : Option Path) : (pathData p).Plain := by
  cases p <;> trivial

theorem Issue.plain_toData (i : Issue) : i.toData.Plain := by
  simp [toData, Finding.fields, Data.Plain, Data.PlainFields]

theorem Alternative.plain_toData (a : Alternative) : a.toData.Plain := by
  simp [toData, Data.Plain, Data.PlainFields]

theorem Fix.plain_toData (f : Fix) : f.toData.Plain := by
  have halternatives : (Data.list (f.alternatives.map Alternative.toData)).Plain :=
    Data.plain_list (by simp [Alternative.plain_toData])
  rw [Data.Plain] at halternatives
  simp [toData, Data.Plain, Data.PlainFields, halternatives]

theorem Application.plain_toData (a : Application) : a.toData.Plain := by
  simp [toData, Data.Plain, Data.PlainFields]

end Mend
