import Mend.Proofs.Pattern.Parts
import Mend.Proofs.Text.Balance
import Mend.Proofs.Text.Visible
import Mend.Synthesis.Capture
import Mend.Synthesis.Effect
import Mend.Synthesis.Lifecycle

/-!
# The shapes of statements

The templates that rewrite a whole statement recognize it by a pattern. What such a pattern reads
falls into code that is taken over and inert text around it: blanks, names and signs that mean
nothing to the lexer and are no brackets (`stateWrite_parts`, `valueWrite_parts`,
`valueCall_parts`). The patterns for declarations say where a word is put in
(`variableStart_parts`, `plainTypeEnd_parts`), and the pattern for calls that set state, which is read
off a masked line, says where a guard is put in (`exists_of_setterAt?`).
-/

namespace Mend.Synthesis

open Text Balance Pattern

/-! ## Inert parts of matches -/

theorem inert_of_blank {s : List Char} (h : s.all isBlank = true) (hn : '\n' ∉ s) :
    s.all isInert = true :=
  inert_of_all (by decide) h hn

/-- The pattern reads inert texts only, in a line. -/
def Inert (p : Pattern) : Prop :=
  ∀ {text : List Char} {i j : Nat} {ms : List Mark}, '\n' ∉ text → Reads (.of text) p i j ms →
    (part text i j).all isInert = true

theorem inert_gap : Inert gap := fun hn h =>
  inert_of_blank (part_of_chars h) fun hmem => hn (part_subset _ _ _ hmem)

theorem inert_many1 {p : Char → Bool} (hp : loud.all (fun c => !p c) = true)
    (hnewline : p '\n' = false) : Inert (many1 (.set p)) := fun _ h =>
  inert_of_all hp (part_of_many1 h).2 fun hmem => by
    rw [List.all_eq_true.mp (part_of_many1 h).2 _ hmem] at hnewline
    cases hnewline

theorem inert_word1 : Inert word1 := inert_many1 (by decide) (by decide)

theorem inert_lit {w : String} (hw : w.toList.all isInert = true) : Inert (lit w) := fun _ h => by
  rwa [part_of_lit h]

theorem inert_opt {p : Pattern} (hp : Inert p) : Inert (opt p) := fun hn h => by
  rcases reads_opt h with h | ⟨rfl, rfl⟩
  · exact hp hn h
  · rw [part_self, List.all_nil]

theorem inert_textEnd : Inert textEnd := fun _ h => by
  obtain ⟨rfl, rfl⟩ := stop_of_textEnd h
  rw [part_self, List.all_nil]

/-- Inert text that is read at the end goes with the inert text after it. -/
theorem reads_before_inert {p q : Pattern} {text : List Char} {i k n : Nat} {ms : List Mark}
    (hn : '\n' ∉ text) (hq : Inert q) (hgroups : q.groupless = true)
    (h : Reads (.of text) (p ++ q) i k ms ∧ k ≤ n ∧ (part text k n).all isInert = true) :
    ∃ j, Reads (.of text) p i j ms ∧ j ≤ n ∧ (part text j n).all isInert = true := by
  obtain ⟨h, hk, hrest⟩ := h
  obtain ⟨j, ms₁, ms₂, hp, hread, rfl⟩ := reads_append h
  rw [marks_of_groupless hread hgroups, List.append_nil]
  refine ⟨j, hp, Nat.le_trans hread.le hk, ?_⟩
  rw [← part_append hread.le hk, List.all_append, hq hn hread, hrest]
  rfl

theorem captured_eq {line : List Char} {i j : Nat} {ms : List Mark} {k a b : Nat}
    (hopened : ms.filterMap (·.opened? k) = [a]) (hclosed : ms.filterMap (·.closed? k) = [b])
    (hab : a ≤ b) (hb : b ≤ line.length) :
    captured ⟨i, j, ms.map (·.mapPlace (Subject.of line).offset)⟩ k line = part line a b := by
  rw [captured, groupText?_eq rfl hopened hclosed hab hb, Option.getD_some]

theorem inert_part_self (text : List Char) (n : Nat) : (part text n n).all isInert = true := by
  rw [part_self, List.all_nil]

/-! ## Updates -/

/-- The parts of a write to state. -/
theorem stateWrite_parts {line : List Char} {m : Match} (hn : '\n' ∉ line)
    (hfound : stateWrite.find? line = some m) : ∃ between rest,
      line = captured m 1 line ++ "this.state.".toList ++ captured m 2 line ++ between
        ++ captured m 3 line ++ rest ∧
      (captured m 1 line).all isInert = true ∧ (captured m 2 line).all isInert = true ∧
      between.all isInert = true ∧ rest.all isInert = true := by
  obtain ⟨i, n, ms, h, rfl⟩ := reads_of_find? hfound
  have hlength : n = line.length := by
    obtain ⟨_, _, _, -, hend, -⟩ := reads_append h
    exact (stop_of_textEnd hend).2
  obtain ⟨_, h⟩ := reads_before_inert hn inert_textEnd rfl
    ⟨h, Nat.le_refl n, inert_part_self line n⟩
  obtain ⟨_, h⟩ := reads_before_inert hn inert_gap rfl h
  obtain ⟨_, h⟩ := reads_before_inert hn (inert_opt (inert_lit (by decide))) rfl h
  obtain ⟨e, h, hen, hrest⟩ := reads_before_inert hn inert_gap rfl h
  obtain ⟨d, ms₃, h₃, hvalue, rfl⟩ := reads_append_group rfl h
  obtain ⟨_, h₃⟩ := reads_before_inert hn inert_gap rfl
    ⟨h₃, Nat.le_refl d, inert_part_self line d⟩
  obtain ⟨_, h₃⟩ := reads_before_inert hn (inert_lit (by decide)) rfl h₃
  obtain ⟨c, h₃, hcd, hbetween⟩ := reads_before_inert hn inert_gap rfl h₃
  obtain ⟨b, ms₂, h₂, hfield, rfl⟩ := reads_append_group rfl h₃
  obtain ⟨a, ms₁, _, h₁, hstate, rfl⟩ := reads_append h₂
  obtain ⟨_, _, hstart, hindent, rfl⟩ := reads_append_group rfl h₁
  obtain ⟨rfl, rfl, rfl⟩ := reads_textStart hstart
  obtain rfl := marks_of_groupless hstate rfl
  have hed := hvalue.le
  have hcb := hfield.le
  have hab := hstate.le
  rw [captured_eq (k := 1) rfl rfl hindent.le (by omega),
    captured_eq (k := 2) rfl rfl hfield.le (by omega),
    captured_eq (k := 3) rfl rfl hvalue.le (by omega), ← part_of_lit hstate,
    part_append (Nat.zero_le a) hab, part_append (Nat.zero_le b) hcb]
  refine ⟨part line c d, part line e n, ?_, inert_gap hn hindent, inert_word1 hn hfield, hbetween,
    hrest⟩
  rw [part_append (Nat.zero_le c) hcd, part_append (Nat.zero_le d) hed,
    part_append (Nat.zero_le e) hen, hlength, part_zero, List.take_length]

/-- The parts of an assignment to the value of live data. -/
theorem valueWrite_parts {rest : List Char} {m : Match} (hn : '\n' ∉ rest)
    (hfound : valueWrite.find? rest = some m) : ∃ between blanks blanks',
      rest = captured m 1 rest ++ ".value".toList ++ between ++ captured m 2 rest ++
        (blanks ++ captured m 3 rest ++ blanks') ∧
      (captured m 1 rest).all isInert = true ∧ between.all isInert = true ∧
      blanks.all isInert = true ∧ (captured m 3 rest).all isInert = true ∧
      blanks'.all isInert = true := by
  obtain ⟨i, n, ms, h, rfl⟩ := reads_of_find? hfound
  have hlength : n = rest.length := by
    obtain ⟨_, _, _, -, hend, -⟩ := reads_append h
    exact (stop_of_textEnd hend).2
  obtain ⟨_, h⟩ := reads_before_inert hn inert_textEnd rfl
    ⟨h, Nat.le_refl n, inert_part_self rest n⟩
  obtain ⟨g, h, hgn, hblanks'⟩ := reads_before_inert hn inert_gap rfl h
  obtain ⟨f, ms₃, h₃, hsemicolon, rfl⟩ := reads_append_group rfl h
  obtain ⟨e, h₃, hef, hblanks⟩ := reads_before_inert hn inert_gap rfl
    ⟨h₃, Nat.le_refl f, inert_part_self rest f⟩
  obtain ⟨d, ms₂, h₂, hvalue, rfl⟩ := reads_append_group rfl h₃
  obtain ⟨_, h₂⟩ := reads_before_inert hn inert_gap rfl
    ⟨h₂, Nat.le_refl d, inert_part_self rest d⟩
  obtain ⟨_, h₂⟩ := reads_before_inert hn (inert_lit (by decide)) rfl h₂
  obtain ⟨c, h₂, hcd, hbetween⟩ := reads_before_inert hn inert_gap rfl h₂
  obtain ⟨b, ms₁, _, h₁, hname, rfl⟩ := reads_append h₂
  obtain ⟨_, _, hstart, howner, rfl⟩ := reads_append_group rfl h₁
  obtain ⟨rfl, rfl, rfl⟩ := reads_textStart hstart
  obtain rfl := marks_of_groupless hname rfl
  have hbc := hname.le
  have hde := hvalue.le
  have hfg := hsemicolon.le
  rw [captured_eq (k := 1) rfl rfl howner.le (by omega),
    captured_eq (k := 2) rfl rfl hvalue.le (by omega),
    captured_eq (k := 3) rfl rfl hsemicolon.le (by omega), ← part_of_lit hname]
  refine ⟨part rest c d, part rest e f, part rest g n, ?_, inert_word1 hn howner, hbetween, hblanks,
    inert_opt (inert_lit (by decide)) hn hsemicolon, hblanks'⟩
  rw [part_append (Nat.zero_le b) hbc, part_append (Nat.zero_le c) hcd,
    part_append (Nat.zero_le d) hde, part_append hef hfg, part_append (Nat.le_trans hef hfg) hgn,
    part_append (Nat.zero_le e) (by omega), hlength, part_zero, List.take_length]

/-- The parts of a call that sets the value of live data. -/
theorem valueCall_parts {rest : List Char} {m : Match} (hn : '\n' ∉ rest)
    (hfound : valueCall.find? rest = some m) : ∃ blanks later,
      rest = captured m 1 rest ++ (".setValue".toList ++ blanks ++ ['(']) ++ later ∧
      blanks.all isInert = true ∧ Text.after m.stop rest = later := by
  obtain ⟨i, n, ms, h, rfl⟩ := reads_of_find? hfound
  obtain ⟨d, ms₃, _, h₃, hparen, rfl⟩ := reads_append h
  obtain ⟨c, ms₂, _, h₂, hgap, rfl⟩ := reads_append h₃
  obtain ⟨b, ms₁, _, h₁, hname, rfl⟩ := reads_append h₂
  obtain ⟨_, _, hstart, howner, rfl⟩ := reads_append_group rfl h₁
  obtain ⟨rfl, rfl, rfl⟩ := reads_textStart hstart
  obtain rfl := marks_of_groupless hname rfl
  obtain rfl := marks_of_groupless hgap rfl
  obtain rfl := marks_of_groupless hparen rfl
  have hnl := h.le_length (Nat.zero_le _)
  have hbc := hname.le
  have hcd := hgap.le
  have hdn := hparen.le
  have hcut : rest = rest.take n ++ rest.drop n := (List.take_append_drop n rest).symm
  refine ⟨part rest c d, rest.drop n, ?_, inert_gap hn hgap, ?_⟩
  · rw [captured_eq (k := 1) rfl rfl howner.le (by omega), ← part_of_lit hname,
      ← show part rest d n = ['('] from part_of_lit hparen, part_append hbc hcd,
      part_append (Nat.le_trans hbc hcd) hdn, part_append (Nat.zero_le b) (by omega), part_zero]
    exact hcut
  · rw [Subject.offset_of hnl]
    have h := after_width (rest.take n) (rest.drop n)
    rwa [List.take_append_drop] at h

/-! ## Declarations -/

/-- The word that declares a variable stands where the first group ends. -/
theorem variableStart_parts {line : List Char} {m : Match} {span : Span}
    (hfound : variableStart.find? line = some m) (hspan : m.group? 1 = some span) :
    ∃ front later, line = front ++ "var".toList ++ later ∧ width front = span.stop := by
  obtain ⟨i, n, ms, h, rfl⟩ := reads_of_find? hfound
  obtain ⟨c, ms₂, _, h₂, hblank, rfl⟩ := reads_append h
  obtain ⟨b, ms₁, _, h₁, hword, rfl⟩ := reads_append h₂
  obtain ⟨_, _, hstart, hgroup, rfl⟩ := reads_append_group rfl h₁
  obtain ⟨rfl, rfl, rfl⟩ := reads_textStart hstart
  obtain rfl := marks_of_groupless hword rfl
  obtain rfl := marks_of_groupless hblank rfl
  rw [group?_eq rfl rfl rfl] at hspan
  obtain rfl := Option.some.inj hspan
  have hb := hgroup.le_length (Nat.zero_le _)
  refine ⟨line.take b, line.drop c, ?_, (Subject.offset_of hb).symm⟩
  rw [← part_of_lit hword, ← part_zero, part_append (Nat.zero_le b) hword.le, part_zero,
    List.take_append_drop]

/-- The line up to where the question mark comes ends in a plain type. -/
theorem plainTypeEnd_parts {line : List Char} {m : Match} (hn : '\n' ∉ line)
    (hfound : plainTypeEnd.find? line = some m) : ∃ front type,
      line = front ++ type ∧ width line = m.stop ∧ type.all isInert = true ∧ 2 ≤ type.length := by
  obtain ⟨i, n, ms, h, rfl⟩ := reads_of_find? hfound
  obtain ⟨_, _, _, h₃, hend, rfl⟩ := reads_append h
  obtain ⟨rfl, rfl⟩ := stop_of_textEnd hend
  obtain ⟨b, _, _, h₂, hname, rfl⟩ := reads_append h₃
  obtain ⟨a, _, _, hcolon, hgap, rfl⟩ := reads_append h₂
  have hparts : part line i line.length = [':'] ++ part line a b ++ part line b line.length := by
    rw [← show part line i a = [':'] from part_of_lit hcolon, part_append hcolon.le hgap.le,
      part_append h₂.le hname.le]
  obtain ⟨hne, -⟩ := part_of_many1 hname
  refine ⟨line.take i, part line i line.length, ?_, ?_, ?_, ?_⟩
  · rw [part_length, List.take_append_drop]
  · rw [Subject.offset_of (Nat.le_refl _), List.take_length]
  · rw [hparts, List.all_append, List.all_append, inert_gap hn hgap,
      inert_many1 (by decide) (by decide) hn hname]
    decide
  · have hpos := List.length_pos_iff.mpr hne
    rw [hparts]
    simp only [List.length_append, List.length_singleton]
    omega

/-! ## Setters -/

open Mask (Covers)

/-- A call that sets state starts with a word that the mask shows. -/
theorem exists_of_setterCall {p : Pattern} (hp : p.groupless = true) {line masked : List Char}
    (hcovers : Covers line masked) {m : Match} (hm : (p ++ setterCall).find? masked = some m)
    {span : Span} (hspan : m.group? 1 = some span) :
    ∃ front later, line = front ++ "set".toList ++ later ∧ width front = span.start := by
  obtain ⟨i, j, ms, hreads, hj, rfl⟩ := Pattern.reads_inside_of_find? hm
  obtain ⟨a, ns, hbefore, hcall, rfl⟩ := Pattern.reads_append_group (by decide) hreads
  obtain rfl := Pattern.marks_of_groupless hbefore hp
  have hfound := hspan.symm.trans (Pattern.group?_eq (f := (Subject.of masked).offset) (a := a)
    (b := j) rfl (by simp [Mark.opened?]) (by simp [Mark.closed?]))
  obtain rfl := Option.some.inj hfound
  obtain ⟨b, _, _, hfront, hlast, -⟩ := Pattern.reads_append hcall
  obtain ⟨c, _, _, hfront, hgap, -⟩ := Pattern.reads_append hfront
  obtain ⟨d, _, _, hfront, hword, -⟩ := Pattern.reads_append hfront
  obtain ⟨k, _, _, hset, hcapital, -⟩ := Pattern.reads_append hfront
  have hk : k ≤ masked.length :=
    hcapital.le.trans (hword.le.trans (hgap.le.trans (hlast.le.trans hj)))
  obtain ⟨front, back, rfl, hstart, -⟩ := Pattern.exists_of_lit hset hk
  obtain ⟨front', later, hline, hwidth⟩ := hcovers.exists_infix (by decide) (by decide)
  exact ⟨front', later, hline, hwidth.trans hstart⟩

/-- Before a word that the mask shows a guard is put in. -/
theorem exists_of_setterAt? {line masked guard : List Char} {at' : Nat} (hcovers : Covers line masked)
    (h : setterAt? masked = some (at', guard)) :
    ∃ front later, line = front ++ "set".toList ++ later ∧ width front = at' := by
  unfold setterAt? at h
  split at h
  · next m hm =>
    obtain ⟨span, hspan, heq⟩ := Option.map_eq_some_iff.mp h
    obtain ⟨rfl, -⟩ := Prod.mk.inj heq
    exact exists_of_setterCall (by decide) hcovers hm hspan
  · obtain ⟨m, hm, h⟩ := Option.bind_eq_some_iff.mp h
    obtain ⟨span, hspan, heq⟩ := Option.map_eq_some_iff.mp h
    obtain ⟨rfl, -⟩ := Prod.mk.inj heq
    exact exists_of_setterCall (by decide) hcovers hm hspan

end Mend.Synthesis
