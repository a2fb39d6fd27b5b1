/-!
# Byte offsets

Positions in a text are counted in bytes of its UTF-8 form. An offset is good when a character
starts there or the text ends there; to cut a text at any other offset is refused
(`BadOffset`). `cut` is the total form for offsets that are known to be good.
-/

namespace Mend.Text

/-- An offset inside a character, or past the end of the text. -/
structure BadOffset where
  offset : Nat
  deriving Repr, DecidableEq

/-- The number of bytes of a text. -/
def width : List Char → Nat
  | [] => 0
  | c :: s => c.utf8Size + width s

/-- Split a text at a byte offset, if a character starts there or the text ends there. -/
def splitAt? : Nat → List Char → Option (List Char × List Char)
  | 0, s => some ([], s)
  | _ + 1, [] => none
  | n + 1, c :: s =>
    if c.utf8Size ≤ n + 1 then
      (splitAt? (n + 1 - c.utf8Size) s).map fun (front, back) => (c :: front, back)
    else none
termination_by _ s => s.length

/-- The text before an offset. -/
def before (offset : Nat) (s : List Char) : Except BadOffset (List Char) :=
  match splitAt? offset s with
  | some (front, _) => .ok front
  | none => .error ⟨offset⟩

/-- The text from an offset on. -/
def onward (offset : Nat) (s : List Char) : Except BadOffset (List Char) :=
  match splitAt? offset s with
  | some (_, back) => .ok back
  | none => .error ⟨offset⟩

/-- The text from `lo` up to `hi`. -/
def between (lo hi : Nat) (s : List Char) : Except BadOffset (List Char) :=
  if hi < lo then .error ⟨lo⟩
  else do
    let back ← onward lo s
    match splitAt? (hi - lo) back with
    | some (front, _) => .ok front
    | none => .error ⟨hi⟩

/-- The text from an offset on, if the offset is good. -/
def from? : Nat → List Char → Option (List Char)
  | 0, s => some s
  | _ + 1, [] => none
  | n + 1, c :: s => if c.utf8Size ≤ n + 1 then from? (n + 1 - c.utf8Size) s else none
termination_by _ s => s.length

/-- It is the second half of the text split there. -/
theorem from?_eq (offset : Nat) (s : List Char) :
    from? offset s = (splitAt? offset s).map (·.2) := by
  fun_induction from? offset s with
  | case1 => simp [splitAt?]
  | case2 => simp [splitAt?]
  | case3 n c s h ih =>
    rw [ih, splitAt?, if_pos h, Option.map_map]
    rfl
  | case4 n c s h => rw [splitAt?, if_neg h, Option.map_none]

/-- The characters that start at `lo` or later and before `hi`, for a text that starts at `pos`. -/
def cutFrom (lo hi : Nat) : Nat → List Char → List Char
  | _, [] => []
  | pos, c :: s =>
    if hi ≤ pos then []
    else if lo ≤ pos then c :: cutFrom lo hi (pos + c.utf8Size) s
    else cutFrom lo hi (pos + c.utf8Size) s

/-- The characters that start in the byte range from `lo` up to `hi`. -/
def cut (lo hi : Nat) (s : List Char) : List Char := cutFrom lo hi 0 s

/-- The characters that start at `lo` or later. -/
def after (lo : Nat) : List Char → List Char := go 0
where
  /-- Skip what starts before `lo`; the text starts at `pos`. -/
  go (pos : Nat) : List Char → List Char
    | [] => []
    | c :: s => if lo ≤ pos then c :: s else go (pos + c.utf8Size) s

/-- The part from `lo` up to `hi`, if both offsets are good. -/
def slice? (lo hi : Nat) (s : List Char) : Option (List Char) :=
  if hi < lo then none
  else (from? lo s).bind fun rest => (splitAt? (hi - lo) rest).map (·.1)

/-- The offsets at which a character that satisfies `p` stands. -/
def offsetsOf (p : Char → Bool) (s : List Char) : List Nat := go 0 s
where
  /-- The text starts at `pos`. -/
  go (pos : Nat) : List Char → List Nat
    | [] => []
    | c :: s => if p c then pos :: go (pos + c.utf8Size) s else go (pos + c.utf8Size) s

end Mend.Text
