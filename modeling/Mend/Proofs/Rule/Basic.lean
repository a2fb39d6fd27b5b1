import Mend.Proofs.Pattern.Matches
import Mend.Proofs.Result
import Mend.Proofs.Text.LineIndex
import Mend.Scan

/-!
# Places that rules object to

A rule is distinct on a file if it objects to no offset twice (`Rule.Distinct`). Most rules look at
things that stand in order, such as matches or blocks, and object to each at its place or not at all
(`pairwise_filterMap`). Rules that go line by line object to places of different lines
(`pairwise_onLine`). To run rules over a file is to put together what each of them finds in it
(`Scan.run_eq_ok`).
-/

namespace Mend

/-- The rule objects to no offset twice. -/
def Rule.Distinct (r : Rule) (ctx : Context) : Prop :=
  ∀ ds, r.detect ctx = .ok ds → (ds.map Detection.offset).Nodup

theorem Rule.Distinct.of_nodup {r : Rule} {ctx : Context} {ds : List Detection}
    (h : r.detect ctx = .ok ds) (hds : (ds.map Detection.offset).Nodup) : r.Distinct ctx := by
  intro ds' h'
  obtain rfl := Except.ok.inj (h.symm.trans h')
  exact hds

theorem Rule.Distinct.of_pairwise {r : Rule} {ctx : Context} {ds : List Detection}
    (h : r.detect ctx = .ok ds) (hds : (ds.map Detection.offset).Pairwise (· < ·)) :
    r.Distinct ctx :=
  .of_nodup h (hds.imp Nat.ne_of_lt)

/-! ## Findings -/

namespace Rule

variable {r : Rule} {ctx : Context} {found : List Finding}

theorem findings_eq_ok (h : r.findings ctx = .ok found) :
    ∃ ds, r.detect ctx = .ok ds ∧ found = ds.map (r.finding ctx) := by
  rw [findings] at h
  cases hds : r.detect ctx with
  | error e =>
    rw [hds] at h
    cases h
  | ok ds =>
    rw [hds] at h
    exact ⟨ds, rfl, (Except.ok.inj h).symm⟩

theorem of_mem_findings (h : r.findings ctx = .ok found) {f : Finding} (hf : f ∈ found) :
    f.rule = r.id ∧ f.file = ctx.path ∧ f.platform = ctx.platform := by
  obtain ⟨ds, -, rfl⟩ := findings_eq_ok h
  obtain ⟨d, -, rfl⟩ := List.mem_map.mp hf
  exact ⟨rfl, rfl, rfl⟩

/-- Near enough to the start of the text, a finding tells the position of its offset. -/
theorem position_finding (r : Rule) (ctx : Context) {d : Detection}
    (h : d.offset + 1 < Text.LineIndex.columnModulus) :
    (r.finding ctx d).line = (ctx.index.position d.offset).1 ∧
      (r.finding ctx d).column = some (ctx.index.position d.offset).2 := by
  have hcolumn : ctx.index.columnOf d.offset < Text.LineIndex.columnModulus := by
    rw [Text.LineIndex.columnOf]
    omega
  exact ⟨rfl, by rw [Text.LineIndex.position, Nat.mod_eq_of_lt hcolumn]; rfl⟩

/-- The rule does not fail on a text, and says nothing about it at a line and a column. -/
def Clears (r : Rule) (path : Path) (text : List Char) (platform : Platform) (line : Nat)
    (column : Option Nat) : Prop :=
  ∃ ctx found, Context.of? path (String.ofList text) platform = some ctx ∧
    r.findings ctx = .ok found ∧ ∀ f ∈ found, ¬ (f.line = line ∧ f.column = column)

end Rule

/-- Rules say nothing about a file in no known language, and about another file what those of them
say that are for it. -/
theorem Scan.run_eq_ok {rules : List Rule} {path : Path} {text : String} {platform : Platform}
    {found : List Finding} (h : run rules path text platform = .ok found) :
    (Context.of? path text platform = none ∧ found = []) ∨
      ∃ ctx lists, Context.of? path text platform = some ctx ∧ found = lists.flatten ∧
        List.Forall₂ (fun r fs => r.findings ctx = .ok fs)
          (rules.filter fun r => r.appliesTo ctx) lists := by
  unfold run at h
  split at h
  · next hctx => exact Or.inl ⟨hctx, (Except.ok.inj h).symm⟩
  · next ctx hctx =>
    simp only [bind, Except.bind] at h
    split at h
    · cases h
    · next lists hlists =>
      exact Or.inr ⟨ctx, lists, hctx, (Except.ok.inj h).symm, forall₂_of_mapM hlists⟩

/-! ## One detection at most -/

/-- If there is a detection, it is at an offset as told. -/
def AtMost (P : Nat → Prop) (d? : Option Detection) : Prop := ∀ d, d? = some d → P d.offset

namespace AtMost

variable {P : Nat → Prop}

theorem none : AtMost P none := fun _ h => by cases h

theorem some {d : Detection} (h : P d.offset) : AtMost P (some d) := by
  rintro _ ⟨⟩
  exact h

theorem ite {c : Prop} [Decidable c] {x y : Option Detection} (hx : AtMost P x) (hy : AtMost P y) :
    AtMost P (if c then x else y) := by
  split
  · exact hx
  · exact hy

theorem bind {α : Type} {o : Option α} {f : α → Option Detection}
    (h : ∀ a, o = Option.some a → AtMost P (f a)) : AtMost P (o >>= f) := by
  intro d hd
  obtain ⟨a, ha, hd⟩ := Option.bind_eq_some_iff.mp hd
  exact h a ha d hd

theorem map {α : Type} {o : Option α} {f : α → Detection} (h : ∀ a, P (f a).offset) :
    AtMost P (o.map f) := by
  intro d hd
  obtain ⟨a, -, rfl⟩ := Option.map_eq_some_iff.mp hd
  exact h a

end AtMost

/-- Each of several things is objected to at its place or not at all. -/
theorem sublist_filterMap {α : Type} {place : α → Nat} {f : α → Option Detection}
    (hf : ∀ a, AtMost (· = place a) (f a)) :
    ∀ l : List α, ((l.filterMap f).map Detection.offset).Sublist (l.map place)
  | [] => .slnil
  | a :: l => by
    rw [List.filterMap_cons, List.map_cons]
    split
    · exact (sublist_filterMap hf l).cons _
    · next d hd =>
      rw [List.map_cons, hf a d hd]
      exact (sublist_filterMap hf l).cons_cons _

theorem pairwise_filterMap {α : Type} {place : α → Nat} {l : List α}
    (h : (l.map place).Pairwise (· < ·)) {f : α → Option Detection}
    (hf : ∀ a, AtMost (· = place a) (f a)) :
    ((l.filterMap f).map Detection.offset).Pairwise (· < ·) :=
  h.sublist (sublist_filterMap hf l)

theorem pairwise_offsets_filterMap {l : List Nat} (h : l.Pairwise (· < ·))
    {f : Nat → Option Detection} (hf : ∀ o, AtMost (· = o) (f o)) :
    ((l.filterMap f).map Detection.offset).Pairwise (· < ·) :=
  pairwise_filterMap (by rwa [List.map_id']) hf

theorem pairwise_starts_filterMap {p : Pattern} {text : List Char} {f : Match → Option Detection}
    (hf : ∀ m, AtMost (· = m.start) (f m)) :
    (((p.findAll text).filterMap f).map Detection.offset).Pairwise (· < ·) :=
  pairwise_filterMap (p.pairwise_starts text) hf

/-- Matches of two patterns that start with different characters are objected to. -/
theorem nodup_append_starts (text : List Char) {p q : Pattern} (hp : p.solid = true)
    (hq : q.solid = true) (hdiffer : ∀ c, ¬ (p.mayStart c = true ∧ q.mayStart c = true))
    {ds ds' : List Detection}
    (hds : (ds.map Detection.offset).Sublist ((p.findAll text).map Match.start))
    (hds' : (ds'.map Detection.offset).Sublist ((q.findAll text).map Match.start)) :
    ((ds ++ ds').map Detection.offset).Nodup := by
  rw [List.map_append, List.nodup_append]
  refine ⟨((p.pairwise_starts text).imp Nat.ne_of_lt).sublist hds,
    ((q.pairwise_starts text).imp Nat.ne_of_lt).sublist hds', fun o ho o' ho' => ?_⟩
  obtain ⟨m, hm, rfl⟩ := List.mem_map.mp (hds.subset ho)
  obtain ⟨m', hm', rfl⟩ := List.mem_map.mp (hds'.subset ho')
  exact Pattern.start_ne_of_mayStart hp hq hdiffer hm hm'

/-- Each match is objected to where a group starts that reads something. -/
theorem pairwise_groups_filterMap {p : Pattern} {k : Nat} (hp : p.solidGroup k = true)
    {text : List Char} {f : Match → Span → Option Detection}
    (hf : ∀ m span, AtMost (· = span.start) (f m span)) :
    (((p.findAll text).filterMap fun m => m.group? k >>= f m).map Detection.offset).Pairwise
      (· < ·) := by
  refine pairwise_places (p.pairwise_findAll text) fun m hm d hd => ?_
  obtain ⟨span, hgroup, hd⟩ := Option.bind_eq_some_iff.mp hd
  obtain ⟨hstart, hstop⟩ := Pattern.group?_within hp hm hgroup
  rw [hf m span d hd]
  exact ⟨hstart, Or.inl hstop⟩

/-! ## Blocks -/

theorem pairwise_blocksAfter (ctx : Context) (opener : Pattern) (reach : Nat) :
    ((ctx.blocksAfter opener reach).map Block.start).Pairwise (· < ·) := by
  refine pairwise_places (opener.pairwise_findAll ctx.masked) fun m _ b hb => ?_
  have hstart : b.start = m.start := by
    simp only [bind, pure] at hb
    split at hb
    · obtain rfl := Option.some.inj hb
      split <;> rfl
    · obtain ⟨window, -, hb⟩ := Option.bind_eq_some_iff.mp hb
      obtain ⟨ahead, -, hb⟩ := Option.bind_eq_some_iff.mp hb
      obtain rfl := Option.some.inj hb
      split <;> rfl
  rw [hstart]
  exact m.holds_start

theorem sublist_oncePerLine (index : Text.LineIndex) : ∀ (last : Nat) (offsets : List Nat),
    (oncePerLine index last offsets).Sublist offsets
  | _, [] => .slnil
  | last, at' :: rest => by
    rw [oncePerLine]
    split
    · exact (sublist_oncePerLine index last rest).cons _
    · exact (sublist_oncePerLine index _ rest).cons_cons _

/-- A fault aside, every match of an assertion is objected to one byte after its start. -/
theorem map_offset_assertionDetections {ctx : Context} {title suggestion : String}
    {ms : List Match} {ds : List Detection}
    (h : assertionDetections ctx ms title suggestion = .ok ds) :
    ds.map Detection.offset = ms.map fun m => m.start + 1 := by
  have hall := forall₂_of_mapM h
  clear h
  induction hall with
  | nil => rfl
  | @cons m d ms ds hd _ ih =>
    have hoffset : d.offset = m.start + 1 := by
      simp only [bind, Except.bind] at hd
      split at hd
      · cases hd
      · rw [← Except.ok.inj hd]
    rw [List.map_cons, List.map_cons, hoffset, ih]

theorem pairwise_assertionDetections {ctx : Context} {title suggestion : String} {ms : List Match}
    (h : ms.Pairwise Match.Before) {ds : List Detection}
    (hds : assertionDetections ctx ms title suggestion = .ok ds) :
    (ds.map Detection.offset).Pairwise (· < ·) := by
  rw [map_offset_assertionDetections hds, List.pairwise_map]
  exact h.imp fun hbefore => Nat.succ_lt_succ hbefore.1

/-! ## Lines -/

namespace Context

variable {ctx : Context}

/-- The line numbers are those of the masked text. -/
def Indexed (ctx : Context) : Prop := ctx.index = .of ctx.masked

theorem indexed_of? {path : Path} {content : String} {platform : Platform}
    (h : of? path content platform = some ctx) : ctx.Indexed := by
  obtain ⟨language, -, rfl⟩ := Option.map_eq_some_iff.mp h
  exact (Text.Mask.of_mask language content.toList).symm

theorem of?_eq_some {path : Path} {content : String} {platform : Platform}
    (h : of? path content platform = some ctx) : ctx.index = .of content.toList ∧
      ctx.masked = Text.Mask.mask ctx.language content.toList := by
  obtain ⟨language, -, rfl⟩ := Option.map_eq_some_iff.mp h
  exact ⟨rfl, rfl⟩

/-- Another text of the file is looked at in the same language. -/
theorem exists_of? {path : Path} {content : String} {platform : Platform}
    (h : of? path content platform = some ctx) (text : List Char) :
    ∃ ctx', of? path (String.ofList text) platform = some ctx' ∧ ctx'.language = ctx.language ∧
      ctx'.index = .of text ∧ ctx'.masked = Text.Mask.mask ctx.language text := by
  obtain ⟨language, hlanguage, rfl⟩ := Option.map_eq_some_iff.mp h
  rw [of?, hlanguage]
  exact ⟨_, rfl, rfl, by simp, by simp⟩

/-- A rule that objects to no place at an offset says nothing at its line and column. -/
theorem clears_of_detect {r : Rule} {path : Path} {text : List Char} {platform : Platform}
    (hctx : of? path (String.ofList text) platform = some ctx) (hindex : ctx.index = .of text)
    {ds : List Detection} (hds : r.detect ctx = .ok ds) {offset : Nat}
    (h : ∀ d ∈ ds, d.offset ≠ offset) :
    r.Clears path text platform ((Text.LineIndex.of text).lineOf offset)
      (some ((Text.LineIndex.of text).columnOf offset)) := by
  refine ⟨ctx, ds.map (r.finding ctx), hctx, by rw [Rule.findings, hds]; rfl, ?_⟩
  rintro f hf ⟨hline, hcolumn⟩
  obtain ⟨d, hd, rfl⟩ := List.mem_map.mp hf
  rw [Rule.finding, hindex] at hline hcolumn
  exact h d hd (Text.LineIndex.eq_of_position hline (Option.some.inj hcolumn))

/-- The line has a place this many bytes after its start. -/
def OnLine (ctx : Context) (line k : Nat) : Prop :=
  ∃ i row, line = i + 1 ∧ (Text.rows ctx.masked)[i]? = some row ∧ k ≤ Text.width row

/-- Places of different lines are in the order of the lines. -/
theorem pairwise_onLine (hctx : ctx.Indexed) {α : Type} {l : List α} {line k : α → Nat}
    (h : (l.map line).Pairwise (· < ·)) (hon : ∀ a ∈ l, ctx.OnLine (line a) (k a)) :
    (l.map fun a => ctx.index.lineStart (line a) + k a).Pairwise (· < ·) := by
  rw [List.pairwise_map] at h ⊢
  refine h.imp_of_mem fun {a b} ha hb hlt => ?_
  obtain ⟨i, row, hi, hrow, hk⟩ := hon a ha
  obtain ⟨j, row', hj, hrow', -⟩ := hon b hb
  have hlt' := Text.LineIndex.lineStart_add_lt hrow hk (j := j) (by omega)
    (List.getElem?_eq_some_iff.mp hrow').1
  rw [hctx, hi, hj]
  omega

theorem width_withoutReturns_le (line : List Char) :
    Text.width (withoutReturns line) ≤ Text.width line := by
  have hsplit := List.takeWhile_append_dropWhile (p := (· == '\r')) (l := line.reverse)
  have hline : line = withoutReturns line ++ (line.reverse.takeWhile (· == '\r')).reverse := by
    rw [withoutReturns, Text.dropEndWhile, ← List.reverse_append, hsplit, List.reverse_reverse]
  conv_rhs => rw [hline, Text.width_append]
  omega

/-- The masked lines are the rows of the masked text. -/
theorem exists_row_of_mem_maskedLines {line : Nat} {text : List Char}
    (h : (line, text) ∈ ctx.maskedLines) : ∃ i row, line = i + 1 ∧
      (Text.rows ctx.masked)[i]? = some row ∧ text = withoutReturns row := by
  rw [maskedLines] at h
  obtain ⟨⟨row, i⟩, hmem, heq⟩ := List.mem_map.mp h
  obtain ⟨rfl, rfl⟩ := Prod.mk.inj heq
  exact ⟨i, row, rfl, List.mem_zipIdx_iff_getElem?.mp hmem, rfl⟩

theorem maskedLine_eq (hctx : ctx.Indexed) {i : Nat} {row : List Char}
    (h : (Text.rows ctx.masked)[i]? = some row) : ctx.maskedLine (i + 1) = withoutReturns row := by
  rw [maskedLine, hctx]
  exact congrArg withoutReturns (Text.LineIndex.cut_lineRange h)

/-- The blanks that a line starts with are on it. -/
theorem onLine_indentation (hctx : ctx.Indexed) {line : Nat}
    (h : line ∈ ctx.maskedLines.map Prod.fst) :
    ctx.OnLine line (Text.width (Text.indentation (ctx.maskedLine line))) := by
  obtain ⟨⟨_, text⟩, hmem, rfl⟩ := List.mem_map.mp h
  obtain ⟨i, row, rfl, hrow, -⟩ := exists_row_of_mem_maskedLines hmem
  have hsplit := congrArg Text.width
    (List.takeWhile_append_dropWhile (p := Text.isBlank) (l := withoutReturns row))
  rw [Text.width_append] at hsplit
  have hle := width_withoutReturns_le row
  refine ⟨i, row, rfl, hrow, ?_⟩
  rw [maskedLine_eq hctx hrow, Text.indentation]
  omega

theorem pairwise_maskedLines (ctx : Context) :
    (ctx.maskedLines.map Prod.fst).Pairwise (· < ·) := by
  have hindices : ((Text.rows ctx.masked).zipIdx.map Prod.snd).Pairwise (· < ·) := by
    rw [List.zipIdx_map_snd]
    exact List.pairwise_lt_range'
  rw [List.pairwise_map] at hindices
  rw [maskedLines, List.map_map, List.pairwise_map]
  exact hindices.imp Nat.succ_lt_succ

end Context

end Mend
