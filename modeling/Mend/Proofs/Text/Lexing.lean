import Mend.Proofs.Text.Mask

/-!
# Reading on from the middle of a text

The lexer takes whole comments and strings at once. Read character by character it is always in one
of a few modes (`Mode`): in code, or inside a comment or a string of some kind. A move takes one
character, or a mark of two or three, and looks at most two characters ahead (`Mode.next`,
`shown_cons`). So what a text leaves the lexer in is a mode, whatever follows, as long as no mark
reaches over the end of it (`exists_mode`).

Two quiet texts in one place are both shown or both hidden (`exists_veil`). A text that leaves the
lexer in code (`InCode`) can be masked apart from what follows it (`InCode.mask_append`), and after
a quiet text or a line feed nothing is asked of what follows (`Fresh`).
-/

namespace Mend.Text.Mask

/-! ## Modes -/

/-- What strings are put between. -/
inductive Quote where
  | double | single | back
  deriving DecidableEq

/-- The quote as a character. -/
def Quote.char : Quote → Char
  | double => '"'
  | single => '\''
  | back => '`'

/-- Where the lexer can be between two characters. -/
inductive Mode where
  | code
  | line
  | block (depth : Nat)
  | string (quote : Quote) (multiline : Bool)
  /-- In a string, after a backslash. -/
  | escaped (quote : Quote) (multiline : Bool)
  | triple (quote : Quote)
  deriving DecidableEq

/-- The characters that marks of the lexer are made of. -/
def marks : List Char := ['/', '*', '\\', '"', '\'', '`']

/-- The character means nothing to the lexer in any mode. -/
def isQuiet (c : Char) : Bool := c != '\n' && !marks.contains c

section

variable (language : Language)

/-- What the mask shows from inside a string on. -/
def shownString (quote : Quote) (multiline : Bool) (s : List Char) : List Char :=
  hide (stringBody quote.char multiline s).1 ++ (stringBody quote.char multiline s).2.take 1
    ++ mask language ((stringBody quote.char multiline s).2.drop 1)

/-- What the mask shows of a text that is read from a mode on. -/
def Mode.shown : Mode → List Char → List Char
  | code, s => mask language s
  | line, s => hide (s.takeWhile (· ≠ '\n')) ++ mask language (s.dropWhile (· ≠ '\n'))
  | block depth, s =>
    hide (blockBody language.nestedBlockComments depth s).1
      ++ mask language (blockBody language.nestedBlockComments depth s).2
  | string quote multiline, s => shownString language quote multiline s
  | escaped _ _, [] => []
  | escaped quote multiline, c :: s => blank c ++ shownString language quote multiline s
  | triple quote, s =>
    hide (tripleBody quote.char s).1 ++ (tripleBody quote.char s).2.take 3
      ++ mask language ((tripleBody quote.char s).2.drop 3)

/-- One move of the lexer. -/
structure Move where
  /-- What the mask shows of the characters that are taken. -/
  shown : List Char
  /-- How many characters are taken after the first. -/
  more : Nat
  /-- The mode after the move. -/
  mode : Mode

/-- The move from a mode at a character, with the text after it. -/
def Mode.next : Mode → Char → List Char → Move
  | code, c, s =>
    if c = '/' && s.head? = some '/' then ⟨blank c, 0, line⟩
    else if c = '/' && s.head? = some '*' then ⟨blank c ++ blank '*', 1, block 0⟩
    else if (c = '"' || c = '\'') && [c, c].isPrefixOf s && !language.templateLiterals then
      ⟨[c, c, c], 2, triple (if c = '"' then .double else .single)⟩
    else if c = '`' && language.templateLiterals then ⟨[c], 0, string .back true⟩
    else if c = '"' then ⟨[c], 0, string .double false⟩
    else if c = '\'' && (language.singleQuoteStrings || isCharLiteral s) then
      ⟨[c], 0, string .single false⟩
    else ⟨[c], 0, code⟩
  | line, c, _ => if c = '\n' then ⟨[c], 0, code⟩ else ⟨blank c, 0, line⟩
  | block depth, c, s =>
    if c = '/' && s.head? = some '*' then
      ⟨blank c ++ blank '*', 1,
        block (if language.nestedBlockComments then depth + 1 else depth)⟩
    else if c = '*' && s.head? = some '/' then
      ⟨blank c ++ blank '/', 1, if depth = 0 then code else block (depth - 1)⟩
    else ⟨blank c, 0, block depth⟩
  | string quote multiline, c, _ =>
    if c = '\\' then ⟨blank c, 0, escaped quote multiline⟩
    else if (c = '\n' && !multiline) || c = quote.char then ⟨[c], 0, code⟩
    else ⟨blank c, 0, string quote multiline⟩
  | escaped quote multiline, c, _ => ⟨blank c, 0, string quote multiline⟩
  | triple quote, c, s =>
    if c = quote.char && [quote.char, quote.char].isPrefixOf s then
      ⟨[quote.char, quote.char, quote.char], 2, code⟩
    else ⟨blank c, 0, triple quote⟩

end

variable {language : Language}

@[simp] theorem mask_nil : mask language [] = [] := by
  rw [mask, steps]
  rfl

theorem mask_cons (c : Char) (s : List Char) :
    mask language (c :: s) =
      (step language c s).1.masked ++ mask language (step language c s).2 := by
  rw [mask, steps, List.flatMap_cons, mask]

@[simp] theorem hide_nil : hide [] = [] := rfl

@[simp] theorem hide_cons (c : Char) (s : List Char) : hide (c :: s) = blank c ++ hide s := rfl

@[simp] theorem shown_nil (mode : Mode) : mode.shown language [] = [] := by
  cases mode <;> simp [Mode.shown, shownString, blockBody, stringBody, tripleBody]

@[simp] theorem shown_code (s : List Char) : Mode.code.shown language s = mask language s := rfl

theorem masked_quotedStep (quote : Quote) (multiline : Bool) (s : List Char) :
    (quotedStep quote.char multiline s).1.masked ++
        mask language (quotedStep quote.char multiline s).2 =
      quote.char :: (Mode.string quote multiline).shown language s := by
  simp [quotedStep, Step.masked, Mode.shown, shownString]

theorem mask_newline (s : List Char) : mask language ('\n' :: s) = '\n' :: mask language s := by
  rw [mask_cons]
  simp [step, Step.masked]

/-- The first move of a step, from code. -/
theorem shown_cons_code (c : Char) (s : List Char) :
    mask language (c :: s) = (Mode.code.next language c s).shown ++
      (Mode.code.next language c s).mode.shown language
        (s.drop (Mode.code.next language c s).more) := by
  simp only [Mode.next]
  rw [mask_cons]
  unfold step
  split
  · simp [Step.masked, Mode.shown]
  split
  · simp [Step.masked, Mode.shown]
  split
  · next h =>
    simp only [Bool.and_eq_true, Bool.or_eq_true, decide_eq_true_eq] at h
    rcases h.1.1 with rfl | rfl <;> simp [Step.masked, Mode.shown, Quote.char]
  split
  · next h =>
    simp only [Bool.and_eq_true, decide_eq_true_eq] at h
    rw [h.1]
    exact masked_quotedStep .back true s
  split
  · next h =>
    rw [h]
    exact masked_quotedStep .double false s
  split
  · next h =>
    simp only [Bool.and_eq_true, decide_eq_true_eq] at h
    rw [h.1]
    exact masked_quotedStep .single false s
  · rfl

/-- A move inside a block comment. -/
theorem shown_cons_block (depth : Nat) (c : Char) (s : List Char) :
    (Mode.block depth).shown language (c :: s) = ((Mode.block depth).next language c s).shown ++
      ((Mode.block depth).next language c s).mode.shown language
        (s.drop ((Mode.block depth).next language c s).more) := by
  cases s with
  | nil => simp [Mode.shown, Mode.next, blockBody]
  | cons d s =>
    simp only [Mode.shown, Mode.next, List.head?_cons, Option.some.injEq, Bool.and_eq_true,
      decide_eq_true_eq]
    by_cases hopen : c = '/' ∧ d = '*'
    · simp [hopen, blockBody]
    by_cases hclose : c = '*' ∧ d = '/'
    · cases depth <;> simp [hclose, blockBody]
    · simp [hopen, hclose, blockBody]

/-- A move between triple quotes. -/
theorem shown_cons_triple (quote : Quote) (c : Char) (s : List Char) :
    (Mode.triple quote).shown language (c :: s) = ((Mode.triple quote).next language c s).shown ++
      ((Mode.triple quote).next language c s).mode.shown language
        (s.drop ((Mode.triple quote).next language c s).more) := by
  simp only [Mode.shown, Mode.next, tripleBody, List.isPrefixOf_cons_cons]
  by_cases hc : c = quote.char
  · subst hc
    simp only [BEq.rfl, Bool.true_and, decide_true]
    split
    · next h =>
      obtain ⟨rest, rfl⟩ := List.isPrefixOf_iff_prefix.mp h
      simp
    · simp
  · simp [hc, Ne.symm hc]

/-- A text is read one move at a time. -/
theorem shown_cons (mode : Mode) (c : Char) (s : List Char) :
    mode.shown language (c :: s) = (mode.next language c s).shown ++
      (mode.next language c s).mode.shown language (s.drop (mode.next language c s).more) := by
  cases mode with
  | code => exact shown_cons_code c s
  | line =>
    by_cases hc : c = '\n'
    · subst hc
      simp [Mode.shown, Mode.next, mask_newline]
    · simp [Mode.shown, Mode.next, hc]
  | block depth => exact shown_cons_block depth c s
  | string quote multiline =>
    simp only [Mode.shown, Mode.next]
    by_cases hc : c = '\\'
    · subst hc
      cases s <;> simp [shownString, stringBody]
    · rw [shownString, stringBody.eq_def]
      simp only [hc, if_false]
      split <;> simp [shownString]
  | escaped quote multiline => simp [Mode.shown, Mode.next]
  | triple quote => exact shown_cons_triple quote c s

/-! ## What a text leaves the lexer in -/

/-- The text does not start with a character that marks are made of. -/
def Unmarked (s : List Char) : Prop :=
  ∀ c ∈ s.head?, c ∉ marks

theorem Unmarked.head?_append {s : List Char} (h : Unmarked s) (p : List Char) {c : Char}
    (hc : c ∈ marks) : (p ++ s).head? = some c ↔ p.head? = some c := by
  cases p with
  | nil => exact ⟨fun hs => absurd hc (h c hs), nofun⟩
  | cons d p => rfl

theorem Unmarked.isPrefixOf_append {s : List Char} (h : Unmarked s) (p : List Char) {c : Char}
    (hc : c ∈ marks) : [c, c].isPrefixOf (p ++ s) = [c, c].isPrefixOf p := by
  have hs (t : List Char) : (c :: t).isPrefixOf s = false := by
    cases s with
    | nil => rfl
    | cons d s =>
      have hne : c ≠ d := by
        rintro rfl
        exact h c rfl hc
      simp [List.isPrefixOf_cons_cons, hne]
  match p with
  | [] => exact hs [c]
  | [d] => simp [List.isPrefixOf_cons_cons, hs, List.isPrefixOf]
  | d :: e :: p => simp [List.isPrefixOf_cons_cons]

theorem Unmarked.isCharLiteral_append {s : List Char} (h : Unmarked s) {p : List Char}
    (hp : p ≠ []) : isCharLiteral (p ++ s) = isCharLiteral p := by
  match p, hp with
  | [d], _ =>
    cases s with
    | nil => rfl
    | cons e s =>
      have he : e ≠ '\'' := by
        rintro rfl
        exact h _ rfl (by decide)
      simp [isCharLiteral, he]
  | d :: e :: p, _ => rfl

/-- What follows a text does not change the moves inside it. -/
theorem next_append {s : List Char} (h : Unmarked s) (mode : Mode) (c : Char) {p : List Char}
    (hp : mode = .code → c = '\'' → p ≠ []) :
    mode.next language c (p ++ s) = mode.next language c p := by
  have hslash := h.head?_append p (show '/' ∈ marks by decide)
  have hstar := h.head?_append p (show '*' ∈ marks by decide)
  cases mode with
  | code =>
    by_cases hc : c ∈ marks
    · simp only [Mode.next, hslash, hstar, h.isPrefixOf_append p hc]
      by_cases hquote : c = '\''
      · rw [h.isCharLiteral_append (hp rfl hquote)]
      · simp [hquote]
    · simp only [marks, List.mem_cons, List.not_mem_nil, or_false, not_or] at hc
      simp [Mode.next, hc]
  | line => rfl
  | block depth => simp only [Mode.next, hslash, hstar]
  | string quote multiline => rfl
  | escaped quote multiline => rfl
  | triple quote =>
    have hquote : quote.char ∈ marks := by
      cases quote <;> decide
    simp only [Mode.next, h.isPrefixOf_append p hquote]

theorem more_le (language : Language) (mode : Mode) (c : Char) (p : List Char) :
    (mode.next language c p).more ≤ p.length := by
  have hhead (d : Char) (h : p.head? = some d) : 1 ≤ p.length := by
    cases p with
    | nil => cases h
    | cons e p => exact Nat.le_add_left 1 _
  have hprefix (d : Char) (h : [d, d].isPrefixOf p = true) : 2 ≤ p.length :=
    (List.isPrefixOf_iff_prefix.mp h).length_le
  cases mode <;> grind [Mode.next]

/-- No mark that begins before the text reaches into it: it does not start with a character that
marks are made of, nor with the middle of a character between quotes. -/
def Ahead (s : List Char) : Prop :=
  Unmarked s ∧ (s.head? = some '\n' ∨ s[1]? ≠ some '\'')

theorem ahead_nil : Ahead [] := ⟨nofun, Or.inr nofun⟩

theorem isCharLiteral_of_ahead {s : List Char} (h : Ahead s) (hs : s.head? ≠ some '\n') :
    isCharLiteral s = false := by
  obtain ⟨hmark, hsecond⟩ := h
  replace hsecond := hsecond.resolve_left hs
  match s with
  | [] => rfl
  | [c] =>
    have hc : c ≠ '\\' := by
      rintro rfl
      exact hmark _ rfl (by decide)
    simp [isCharLiteral, hc]
  | c :: d :: s =>
    have hc : c ≠ '\\' := by
      rintro rfl
      exact hmark _ rfl (by decide)
    have hd : d ≠ '\'' := by simpa using hsecond
    simp [isCharLiteral, hc, hd]

/-- A single quote opens a string in some languages. In the others it opens one only before a
character and another single quote. -/
theorem mask_single {s : List Char} (h : Ahead s) :
    mask language ('\'' :: s) = '\'' ::
      (if language.singleQuoteStrings then Mode.string .single false else .code).shown language s := by
  have hprefix : ['\'', '\''].isPrefixOf s = false :=
    h.1.isPrefixOf_append [] (show '\'' ∈ marks by decide)
  rw [← shown_code, shown_cons]
  cases hsingle : language.singleQuoteStrings with
  | true => simp [Mode.next, hprefix, hsingle]
  | false =>
    cases hliteral : isCharLiteral s with
    | false => simp [Mode.next, hprefix, hsingle, hliteral]
    | true =>
      -- A line feed between two single quotes ends the string at once.
      obtain ⟨t, rfl⟩ : ∃ t, s = '\n' :: t := by
        by_contra hne
        have hhead : s.head? ≠ some '\n' := fun hs => hne ⟨_, List.eq_cons_of_mem_head? hs⟩
        rw [isCharLiteral_of_ahead h hhead] at hliteral
        cases hliteral
      simp only [Mode.next, hprefix, hsingle, hliteral]
      simp [shown_cons, Mode.next]

theorem more_backslash (mode : Mode) (s : List Char) : (mode.next language '\\' s).more = 0 := by
  cases mode with
  | triple quote =>
    have hquote : '\\' ≠ quote.char := by
      cases quote <;> decide
    simp [Mode.next, hquote]
  | string quote multiline => simp [Mode.next]
  | _ => simp [Mode.next]

/-- The mode after a quiet character. -/
def Mode.settled : Mode → Mode
  | escaped quote multiline => string quote multiline
  | mode => mode

/-- Only a backslash is taken along with what comes after it. -/
theorem settled_next (mode : Mode) {c : Char} (hc : c ≠ '\\') (s : List Char) :
    (mode.next language c s).mode.settled = (mode.next language c s).mode := by
  cases mode <;> grind [Mode.next, Mode.settled]

/-- Every text leaves the lexer in a mode. It is not one after a backslash unless the text ends in
one. -/
theorem exists_mode_settled (language : Language) (mode : Mode) : ∀ p : List Char,
    ∃ (mode' : Mode) (m : List Char), ((p = [] → mode.settled = mode) → p.getLast? ≠ some '\\' →
      mode'.settled = mode') ∧ ∀ s, Ahead s → mode.shown language (p ++ s) = m ++ mode'.shown language s
  | [] => ⟨mode, [], fun h _ => h rfl, fun s _ => rfl⟩
  | c :: p => by
    by_cases hsingle : mode = .code ∧ c = '\'' ∧ p = []
    · obtain ⟨rfl, rfl, rfl⟩ := hsingle
      refine ⟨_, ['\''], fun _ _ => ?_, fun s hs => mask_single hs⟩
      split <;> rfl
    · have hp : mode = .code → c = '\'' → p ≠ [] := fun hm hc hp => hsingle ⟨hm, hc, hp⟩
      have hmore := more_le language mode c p
      obtain ⟨mode', m, hsettled, hm⟩ := exists_mode_settled language (mode.next language c p).mode
        (p.drop (mode.next language c p).more)
      refine ⟨mode', (mode.next language c p).shown ++ m, fun _ hlast => ?_, fun s hs => ?_⟩
      · refine hsettled (fun hnil => settled_next mode ?_ p) ?_
        · rintro rfl
          rw [more_backslash, List.drop_zero] at hnil
          exact hlast (by rw [hnil]; rfl)
        · rw [List.getLast?_drop]
          split
          · exact nofun
          · next hlt =>
            rwa [← List.getLast?_cons_of_ne_nil (List.ne_nil_of_length_pos (by omega))]
      · rw [List.cons_append, shown_cons, next_append hs.1 mode c hp,
          List.drop_append_of_le_length hmore, hm s hs, List.append_assoc]
termination_by p => p.length
decreasing_by
  simp only [List.length_drop, List.length_cons]
  omega

theorem exists_mode (language : Language) (mode : Mode) (p : List Char) : ∃ (mode' : Mode)
    (m : List Char), ∀ s, Ahead s → mode.shown language (p ++ s) = m ++ mode'.shown language s := by
  obtain ⟨mode', m, -, hm⟩ := exists_mode_settled language mode p
  exact ⟨mode', m, hm⟩

/-! ## Quiet texts -/

namespace Mode

/-- What the mask shows of a quiet text in a mode. -/
def veil : Mode → List Char → List Char
  | code, s => s
  | _, s => hide s

end Mode

theorem next_quiet (mode : Mode) {c : Char} (hc : isQuiet c = true) (s : List Char) :
    mode.next language c s = ⟨mode.veil [c], 0, mode.settled⟩ := by
  simp only [isQuiet, marks, Bool.and_eq_true, bne_iff_ne, ne_eq, Bool.not_eq_true',
    List.contains_eq_mem, decide_eq_false_iff_not, List.mem_cons, List.not_mem_nil, or_false,
    not_or] at hc
  cases mode with
  | code => simp [Mode.next, Mode.veil, Mode.settled, hc]
  | line => simp [Mode.next, Mode.veil, Mode.settled, hc]
  | block depth => simp [Mode.next, Mode.veil, Mode.settled, hc]
  | string quote multiline =>
    have hquote : c ≠ quote.char := by
      cases quote <;> simp [Quote.char, hc]
    simp [Mode.next, Mode.veil, Mode.settled, hc, hquote]
  | escaped quote multiline => simp [Mode.next, Mode.veil, Mode.settled]
  | triple quote =>
    have hquote : c ≠ quote.char := by
      cases quote <;> simp [Quote.char, hc]
    simp [Mode.next, Mode.veil, Mode.settled, hquote]

theorem veil_append (mode : Mode) (s t : List Char) :
    mode.veil (s ++ t) = mode.veil s ++ mode.veil t := by
  cases mode <;> simp [Mode.veil, hide]

@[simp] theorem veil_settled (mode : Mode) : mode.settled.veil = mode.veil := by
  cases mode <;> rfl

@[simp] theorem settled_settled (mode : Mode) : mode.settled.settled = mode.settled := by
  cases mode <;> rfl

/-- A quiet text keeps the lexer in its mode. -/
theorem shown_quiet (mode : Mode) (s : List Char) : ∀ {u : List Char}, u ≠ [] →
    u.all isQuiet = true → mode.shown language (u ++ s) = mode.veil u ++ mode.settled.shown language s
  | [], hne, _ => absurd rfl hne
  | [c], _, hu => by
    rw [List.singleton_append, shown_cons, next_quiet mode (by simpa using hu)]
    rfl
  | c :: d :: u, _, hu => by
    rw [List.all_cons, Bool.and_eq_true] at hu
    rw [List.cons_append, shown_cons, next_quiet mode hu.1, List.drop_zero,
      shown_quiet mode.settled s (List.cons_ne_nil d u) hu.2, veil_settled, settled_settled,
      ← List.append_assoc, ← veil_append, List.singleton_append]

/-- Quiet code is shown as it is. -/
theorem mask_quiet {u : List Char} (hu : u.all isQuiet = true) (s : List Char) :
    mask language (u ++ s) = u ++ mask language s := by
  cases u with
  | nil => rfl
  | cons c u => exact shown_quiet .code s (List.cons_ne_nil c u) hu

theorem not_mem_marks {c : Char} (hc : isQuiet c = true) : c ∉ marks := by
  simpa using (Bool.and_eq_true_iff.mp hc).2

theorem ahead_cons {c : Char} {s : List Char} (hc : isQuiet c = true)
    (hs : s.head? ≠ some '\'') : Ahead (c :: s) := by
  refine ⟨fun d hd => ?_, Or.inr (by rwa [List.getElem?_cons_succ, ← List.head?_eq_getElem?])⟩
  obtain rfl := Option.some.inj hd
  exact not_mem_marks hc

theorem ahead_paren : Ahead ['('] := ahead_cons (by decide) (by simp)

theorem ahead_quiet {u : List Char} (hu : u.all isQuiet = true) (s : List Char)
    (hlen : 2 ≤ u.length ∨ s.head? ≠ some '\'') (hne : u ≠ []) : Ahead (u ++ s) := by
  match u with
  | [] => exact absurd rfl hne
  | [c] => exact ahead_cons (by simpa using hu) (hlen.resolve_left (by simp))
  | c :: d :: u =>
    simp only [List.all_cons, Bool.and_eq_true] at hu
    refine ahead_cons hu.1 ?_
    rintro ⟨⟩
    exact not_mem_marks hu.2.1 (by decide)

/-- A quiet text in another one is shown or hidden as a whole, and the mask shows what stands before
it as if nothing followed. -/
theorem exists_mask_quiet (language : Language) (p r : List Char) : ∃ mode : Mode,
    ∀ u, u.all isQuiet = true → 2 ≤ u.length → mask language (p ++ u ++ r) =
      mask language p ++ mode.veil u ++ mode.settled.shown language r := by
  obtain ⟨mode, m, hm⟩ := exists_mode language .code p
  have hfront : mask language p = m := by simpa using hm [] ahead_nil
  refine ⟨mode, fun u hu hlen => ?_⟩
  have hne : u ≠ [] := List.ne_nil_of_length_pos (by omega)
  have hread := hm (u ++ r) (ahead_quiet hu r (Or.inl hlen) hne)
  rw [shown_code, shown_quiet mode r hne hu, ← List.append_assoc, ← List.append_assoc] at hread
  rw [hfront, hread]

/-- Two quiet texts can be exchanged: the mask shows them or hides them, and the rest of the text
does not tell them apart. -/
theorem exists_veil (language : Language) (p r : List Char) : ∃ (mode : Mode) (m n : List Char),
    ∀ u, u.all isQuiet = true → 2 ≤ u.length →
      mask language (p ++ u ++ r) = m ++ mode.veil u ++ n := by
  obtain ⟨mode, h⟩ := exists_mask_quiet language p r
  exact ⟨mode, _, _, h⟩

/-! ## Texts that end in code -/

/-- The lexer is in code after the text: a bracket there would be shown. -/
def InCode (language : Language) (p : List Char) : Prop :=
  (mask language (p ++ ['('])).getLast? = some '('

instance (language : Language) (p : List Char) : Decidable (InCode language p) :=
  inferInstanceAs (Decidable (_ = _))

theorem shown_paren (mode : Mode) : mode.shown language ['('] = mode.veil ['('] := by
  have h := @shown_quiet language mode [] ['('] (by decide) (by decide)
  rwa [List.append_nil, shown_nil, List.append_nil] at h

theorem blank_paren : blank '(' = [' '] := by decide

theorem eq_code_of_shown {mode : Mode} {m : List Char}
    (h : (m ++ mode.shown language ['(']).getLast? = some '(') : mode = .code := by
  rw [shown_paren] at h
  cases mode with
  | code => rfl
  | _ =>
    simp [Mode.veil, blank_paren] at h

/-- What follows a text that ends in code is read as code. -/
theorem InCode.mask_append {p s : List Char} (h : InCode language p) (hs : Ahead s) :
    mask language (p ++ s) = mask language p ++ mask language s := by
  obtain ⟨mode, m, hm⟩ := exists_mode language .code p
  have hparen := hm ['('] ahead_paren
  have hend := hm [] ahead_nil
  have hmode : mode = .code := by
    rw [InCode, ← shown_code, hparen] at h
    exact eq_code_of_shown h
  subst hmode
  rw [shown_nil, List.append_nil, List.append_nil, shown_code] at hend
  rw [hend, ← shown_code, hm s hs, shown_code]

theorem inCode_nil : InCode language [] := by
  rw [InCode, List.nil_append, ← shown_code, shown_paren]
  rfl

theorem InCode.append {p q : List Char} (hp : InCode language p) (hq : InCode language q)
    (h : Ahead (q ++ ['('])) : InCode language (p ++ q) := by
  rw [InCode, List.append_assoc, hp.mask_append h, List.getLast?_append, hq, Option.some_or]

theorem InCode.append_quiet {p u : List Char} (hp : InCode language p)
    (hu : u.all isQuiet = true) : InCode language (p ++ u) := by
  rcases List.eq_nil_or_concat u with rfl | ⟨_, _, rfl⟩
  · rwa [List.append_nil]
  · refine hp.append ?_ (ahead_quiet hu _ (Or.inr (by decide)) (by simp))
    rw [InCode, mask_quiet hu, List.getLast?_append, ← shown_code, shown_paren]
    rfl

/-- A quiet text ends neither a comment nor a string. -/
theorem inCode_of_append_quiet {p u : List Char} (h : InCode language (p ++ u))
    (hu : u.all isQuiet = true) : InCode language p := by
  cases u with
  | nil => rwa [List.append_nil] at h
  | cons c u =>
    obtain ⟨mode, m, hm⟩ := exists_mode language .code p
    have hread := hm (c :: u ++ ['(']) (ahead_quiet hu _ (Or.inr (by decide)) (by simp))
    rw [shown_code, shown_quiet mode _ (List.cons_ne_nil c u) hu, ← List.append_assoc,
      ← List.append_assoc] at hread
    rw [InCode, hread] at h
    have hmode : mode = .code := by
      have hsettled := eq_code_of_shown h
      cases mode <;> first | rfl | cases hsettled
    rw [InCode, ← shown_code, hm _ ahead_paren, hmode, shown_code, ← shown_code, shown_paren,
      List.getLast?_append]
    rfl

/-- What follows changes nothing of what is shown before it, if no mark reaches into it. -/
theorem exists_mask_append (language : Language) (p : List Char) {t : List Char} (ht : Ahead t) :
    ∃ m, mask language (p ++ t) = mask language p ++ m := by
  obtain ⟨mode, m, hm⟩ := exists_mode language .code p
  have hnil := hm [] ahead_nil
  rw [List.append_nil, shown_nil, List.append_nil, shown_code] at hnil
  exact ⟨mode.shown language t, by rw [← shown_code, hm t ht, hnil]⟩

/-! ## Reading afresh -/

/-- Whatever follows the text is read as if it stood alone. -/
def Fresh (language : Language) (p : List Char) : Prop :=
  ∀ s, mask language (p ++ s) = mask language p ++ mask language s

theorem mask_eq_of_quiet {u : List Char} (hu : u.all isQuiet = true) : mask language u = u := by
  have h := @mask_quiet language u hu []
  rwa [List.append_nil, mask_nil, List.append_nil] at h

theorem fresh_of_quiet {u : List Char} (hu : u.all isQuiet = true) : Fresh language u := fun s => by
  rw [mask_quiet hu, mask_eq_of_quiet hu]

theorem InCode.mask_append_quiet {p u : List Char} (hp : InCode language p)
    (hu : u.all isQuiet = true) : mask language (p ++ u) = mask language p ++ u := by
  cases u with
  | nil => rw [List.append_nil, List.append_nil]
  | cons c u =>
    have hahead : Ahead (c :: u) := by
      have h := ahead_quiet hu [] (Or.inr (by simp)) (List.cons_ne_nil c u)
      rwa [List.append_nil] at h
    rw [hp.mask_append hahead, mask_eq_of_quiet hu]

/-- Two quiet characters separate what follows them from the code before. -/
theorem InCode.fresh_append {p u : List Char} (hp : InCode language p)
    (hu : u.all isQuiet = true) (hlen : 2 ≤ u.length) : Fresh language (p ++ u) := fun s => by
  have hne : u ≠ [] := List.ne_nil_of_length_pos (by omega)
  rw [List.append_assoc, hp.mask_append (ahead_quiet hu s (Or.inl hlen) hne), mask_quiet hu,
    hp.mask_append_quiet hu, List.append_assoc]

/-- What follows a fresh text ends in code if the whole does. -/
theorem Fresh.inCode_append_iff {p g : List Char} (hp : Fresh language p) :
    InCode language (p ++ g) ↔ InCode language g := by
  obtain ⟨mode, m, hm⟩ := exists_mode language .code g
  have hread := hm ['('] ahead_paren
  rw [shown_code] at hread
  have hne : mask language (g ++ ['(']) ≠ [] := by
    rw [hread, shown_paren]
    cases mode <;> simp [Mode.veil, blank_paren]
  rw [InCode, InCode, List.append_assoc, hp, List.getLast?_append_of_ne_nil _ hne]

theorem shown_newline (mode : Mode) (s : List Char) : mode.shown language ('\n' :: s) =
    '\n' :: (mode.next language '\n' []).mode.shown language s := by
  rw [shown_cons]
  cases mode with
  | string quote multiline =>
    have hquote : '\n' ≠ quote.char := by
      cases quote <;> decide
    cases multiline <;> simp [Mode.next, blank, hquote]
  | triple quote =>
    have hquote : '\n' ≠ quote.char := by
      cases quote <;> decide
    simp [Mode.next, blank, hquote]
  | _ => simp [Mode.next, blank]

theorem ahead_newline (s : List Char) : Ahead ('\n' :: s) := by
  refine ⟨fun c hc => ?_, Or.inl rfl⟩
  obtain rfl := Option.some.inj hc
  decide

theorem ahead_dropWhile (s : List Char) : Ahead (s.dropWhile (· ≠ '\n')) := by
  cases hrest : s.dropWhile (· ≠ '\n') with
  | nil => exact ahead_nil
  | cons c t =>
    have hc := List.head?_dropWhile_not (· ≠ '\n') s
    rw [hrest] at hc
    obtain rfl : c = '\n' := by simpa using hc
    exact ahead_newline t

/-- A text up to the end of a line is shown as if nothing followed. -/
theorem exists_mask_row (language : Language) (s t : List Char) :
    ∃ m, mask language (s ++ t) = mask language (s ++ t.takeWhile (· ≠ '\n')) ++ m := by
  obtain ⟨m, hm⟩ := exists_mask_append language (s ++ t.takeWhile (· ≠ '\n')) (ahead_dropWhile t)
  rw [List.append_assoc, List.takeWhile_append_dropWhile] at hm
  exact ⟨m, hm⟩

/-- A line feed ends what ends with its line, so that another one changes nothing. -/
theorem next_newline_twice {mode : Mode} (h : mode.settled = mode) :
    ((mode.next language '\n' []).mode.next language '\n' []).mode =
      (mode.next language '\n' []).mode := by
  cases mode with
  | escaped quote multiline => cases h
  | string quote multiline => cases quote <;> cases multiline <;> rfl
  | triple quote => cases quote <;> rfl
  | _ => simp [Mode.next]

/-- A quiet line after another one is shown or hidden as a whole, and the rest of the text does not
tell that it is there, unless the other one ends in a backslash. -/
theorem exists_veil_line (language : Language) {p : List Char} (hlast : p.getLast? ≠ some '\\')
    (r : List Char) : ∃ (mode : Mode) (m n : List Char),
      mask language (p ++ ['\n'] ++ r) = m ++ n ∧ ∀ u, u.all isQuiet = true → u ≠ [] →
        mask language (p ++ ['\n'] ++ u ++ ['\n'] ++ r) = m ++ mode.veil u ++ ['\n'] ++ n := by
  obtain ⟨mode, m, hsettled, hm⟩ := exists_mode_settled language .code p
  replace hsettled := hsettled (fun _ => rfl) hlast
  have hread (s : List Char) : mask language (p ++ ['\n'] ++ s) =
      m ++ ['\n'] ++ (mode.next language '\n' []).mode.shown language s := by
    rw [List.append_assoc, List.singleton_append, ← shown_code, hm _ (ahead_newline s), shown_newline]
    simp
  refine ⟨(mode.next language '\n' []).mode, m ++ ['\n'],
    (mode.next language '\n' []).mode.shown language r, hread r, fun u hu hne => ?_⟩
  have hnext : (mode.next language '\n' []).mode.settled = (mode.next language '\n' []).mode :=
    settled_next mode (by decide) []
  rw [List.append_assoc _ u, List.append_assoc _ (u ++ _), List.append_assoc u, hread,
    shown_quiet _ _ hne hu, hnext, List.singleton_append, shown_newline, next_newline_twice hsettled]
  simp

/-- A line that leaves the lexer in code. No mark reaches over a line feed, so nothing is asked of
the next line. -/
theorem InCode.fresh_line {l : List Char} (h : InCode language (l ++ ['\n'])) :
    Fresh language (l ++ ['\n']) := fun s => by
  obtain ⟨mode, m, hm⟩ := exists_mode language .code l
  have hline (s : List Char) : mask language (l ++ '\n' :: s) =
      m ++ '\n' :: (mode.next language '\n' []).mode.shown language s := by
    rw [← shown_code, hm _ (ahead_newline s), shown_newline]
  have hnext : (mode.next language '\n' []).mode = .code := by
    rw [InCode, List.append_assoc, List.singleton_append, hline, ← List.singleton_append,
      ← List.append_assoc] at h
    exact eq_code_of_shown h
  rw [List.append_assoc, List.singleton_append, hline, hline, hnext, shown_code, shown_nil]
  simp

end Mend.Text.Mask
