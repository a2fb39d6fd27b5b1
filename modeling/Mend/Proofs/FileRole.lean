import Mend.Proofs.Path
import Mend.Proofs.Text.Lines
import Mend.Remediation.Report

/-!
# Roles of files in a project that is moved

The role of a file is told by its name and by the directories on its whole path. A directory of the
conventions stands in the path of the root, or in the path below it (`infix_append_iff`), so a file
has the role of its path below the root, unless the root gives every file below it an earlier one
(`FileRole.ofPath_join`). Only `app/routes` can stand across the end of the root.

Hence the roles stay the same when a project is moved between directories that tell alike
(`FileRole.ofPath_moved`), and change between others (`FileRole.not_ofPath_moved`).
-/

namespace Mend

namespace Text

theorem replaceAll_singleton (a b : Char) : ∀ s : List Char,
    replaceAll [a] [b] s = s.map fun c => if c = a then b else c
  | [] => rfl
  | c :: s => by
    have ih := replaceAll_singleton a b s
    rw [replaceAll] at ih ⊢
    rw [replaceAll.go, List.map_cons, ← ih]
    by_cases hc : c = a
    · simp [hc]
    · simp [hc, Ne.symm hc]

/-- A text stands in a longer one before a slash, after it, or across it. -/
theorem infix_append_iff {w s t : List Char} (c : Char) : w <:+: s ++ c :: t ↔
    w <:+: s ++ [c] ∨ w <:+: c :: t ∨
      ∃ u v, w = u ++ c :: v ∧ u ≠ [] ∧ v ≠ [] ∧ u <:+ s ∧ v <+: t := by
  constructor
  · rintro ⟨front, back, h⟩
    rcases List.append_eq_append_iff.mp h with ⟨x, hs, hback⟩ | ⟨x, hfront, ht⟩
    · exact .inl ⟨front, x ++ [c], by rw [hs]; simp⟩
    rcases List.append_eq_append_iff.mp hfront with ⟨y, hs, hw⟩ | ⟨y, hfront, hx⟩
    · cases x with
      | nil => exact .inl ⟨front, [c], by rw [hs, hw]; simp⟩
      | cons d x =>
        obtain ⟨rfl, rfl⟩ := List.cons.inj ht
        by_cases hy : y = []
        · exact .inr (.inl ⟨[], back, by rw [hw, hy]; simp⟩)
        by_cases hx : x = []
        · exact .inl ⟨front, [], by rw [hs, hw, hx]; simp⟩
        · exact .inr (.inr ⟨y, x, hw, hy, hx, ⟨front, hs.symm⟩, ⟨back, rfl⟩⟩)
    · exact .inr (.inl ⟨y, back, by rw [ht, hx]⟩)
  · rintro (h | h | ⟨u, v, rfl, -, -, ⟨front, rfl⟩, ⟨back, rfl⟩⟩)
    · exact h.trans ⟨[], t, by simp⟩
    · exact h.trans ⟨s, [], by simp⟩
    · exact ⟨front, back, by simp⟩

/-- A text in which the character stands at the ends only does not stand across it. -/
theorem infix_append_iff_of_not_mem {w s t : List Char} {c : Char} (hw : c ∉ w.tail.dropLast) :
    w <:+: s ++ c :: t ↔ w <:+: s ++ [c] ∨ w <:+: c :: t := by
  rw [infix_append_iff]
  refine or_congr_right (or_iff_left ?_)
  rintro ⟨u, v, rfl, hu, hv, -, -⟩
  obtain ⟨a, u, rfl⟩ := List.exists_cons_of_ne_nil hu
  obtain ⟨v, z, rfl⟩ := (List.eq_nil_or_concat' v).resolve_left hv
  have hsplit : a :: u ++ c :: (v ++ [z]) = a :: (u ++ c :: v ++ [z]) := by simp
  rw [hsplit, List.tail_cons, List.dropLast_concat] at hw
  exact hw (by simp)

end Text

namespace Path

/-- The text of a path without a slash at its end. -/
def unslashed (p : Path) : List Char :=
  if p.text.toList.getLast? = some '/' then p.text.toList.dropLast else p.text.toList

/-- The path of a file below a directory. -/
structure Below (relative : String) : Prop where
  head : relative.toList.head? ≠ some '/'
  file : (fileName? ⟨relative⟩).isSome

theorem text_join {p : Path} (h : p.isAbsolute) {relative : String}
    (hhead : relative.toList.head? ≠ some '/') :
    (p.join relative).text.toList = p.unslashed ++ '/' :: relative.toList := by
  have hempty : p.text ≠ "" := by
    intro hempty
    simp [isAbsolute, hempty] at h
  rw [join, if_neg (by simpa using hhead), unslashed]
  by_cases hlast : p.text.toList.getLast? = some '/'
  · obtain ⟨front, hfront⟩ := List.getLast?_eq_some_iff.mp hlast
    simp [hfront]
  · simp [hempty, hlast]

/-- The last of the steps after the start of a path, if it is a name. -/
theorem fileName?_eq_some_iff {p : Path} {n : String} : p.fileName? = some n ↔
    ((segments p.text.toList).filterMap step?).getLast? = some (.name n) := by
  have hlead : (lead p.text.toList).getLast? ≠ some (.name n) := fun h =>
    name_not_mem_lead n p.text.toList (List.mem_of_getLast? h)
  rw [fileName?, parts_eq, List.getLast?_append]
  cases hlast : ((segments p.text.toList).filterMap step?).getLast? with
  | none =>
    rw [Option.none_or]
    split <;> simp_all
  | some part => cases part <;> simp

/-- A file has its name from the path below a directory. -/
theorem fileName?_join {p : Path} (h : p.isAbsolute) {relative : String} (hbelow : Below relative) :
    (p.join relative).fileName? = fileName? ⟨relative⟩ := by
  obtain ⟨n, hn⟩ := Option.isSome_iff_exists.mp hbelow.file
  rw [hn, fileName?_eq_some_iff, text_join h hbelow.head, segments_append, List.filterMap_append,
    List.getLast?_append, fileName?_eq_some_iff.mp hn, Option.some_or]

end Path

namespace FileRole

open Mend.Path (Below)

/-! ## Views of joined paths -/

/-- A part of a path in lower case, with slashes only. -/
def folded (s : List Char) : List Char :=
  (s.map fun c => if c = '\\' then '/' else c).flatMap lowerChar

theorem whole_of (p : Path) : (View.of p).whole = folded p.text.toList := by
  rw [View.of, lowered, Text.replaced, folded, ← Text.replaceAll_singleton, String.toList_ofList]
  rfl

variable {r : Path} {p : String}

theorem whole_join (hr : r.isAbsolute) (hp : Below p) :
    (View.of (r.join p)).whole = folded r.unslashed ++ '/' :: folded p.toList := by
  rw [whole_of, Path.text_join hr hp.head, folded, List.map_append, List.flatMap_append]
  rfl

theorem stem_join (hr : r.isAbsolute) (hp : Below p) :
    (View.of (r.join p)).stem = (View.of ⟨p⟩).stem ∧
      (View.of (r.join p)).stemLower = (View.of ⟨p⟩).stemLower := by
  simp only [View.of, Path.fileStem?, Path.fileName?_join hr hp, and_self]

/-- A file whose name and place below a directory tell nothing. -/
theorem below_plain : Below "_" := ⟨by decide, by decide⟩

theorem isAbsolute_root : (Path.mk "/").isAbsolute := by decide

/-- A name of a directory between slashes. -/
structure IsDirectory (dir : String) : Prop where
  inner : '/' ∉ dir.toList.tail.dropLast
  plain : Text.has "/_".toList dir = false

theorem unslashed_root : (Path.mk "/").unslashed = [] := by decide

theorem whole_join_plain (hr : r.isAbsolute) :
    (View.of (r.join "_")).whole = folded r.unslashed ++ '/' :: ['_'] :=
  whole_join hr below_plain

theorem whole_join_root (hp : Below p) :
    (View.of (Path.join ⟨"/"⟩ p)).whole = '/' :: folded p.toList := by
  rw [whole_join isAbsolute_root hp, unslashed_root]
  rfl

/-- A directory of the whole path is one of the root or one below it. -/
theorem has_join (hr : r.isAbsolute) (hp : Below p) {dir : String} (hdir : IsDirectory dir) :
    Text.has (View.of (r.join p)).whole dir = (Text.has (View.of (r.join "_")).whole dir ||
      Text.has (View.of (Path.join ⟨"/"⟩ p)).whole dir) := by
  have hplain : ¬ dir.toList <:+: '/' :: ['_'] := by
    rw [← Text.occurs_iff_infix]
    exact Bool.eq_false_iff.mp hdir.plain
  have hwhole := Text.infix_append_iff_of_not_mem (s := folded r.unslashed) (t := folded p.toList)
    hdir.inner
  have hroot := Text.infix_append_iff_of_not_mem (s := folded r.unslashed) (t := ['_']) hdir.inner
  rw [Bool.eq_iff_iff, Bool.or_eq_true, whole_join hr hp, whole_join_plain hr, whole_join_root hp,
    Text.has, Text.has, Text.has, Text.occurs_iff_infix, Text.occurs_iff_infix,
    Text.occurs_iff_infix, hwhole, hroot, or_iff_left hplain]

theorem inside_join (hr : r.isAbsolute) (hp : Below p) {dirs : List String}
    (hdirs : ∀ dir ∈ dirs, IsDirectory dir) : (View.of (r.join p)).inside dirs =
      ((View.of (r.join "_")).inside dirs || (View.of (Path.join ⟨"/"⟩ p)).inside dirs) := by
  rw [Bool.eq_iff_iff, Bool.or_eq_true]
  simp only [View.inside, List.any_eq_true]
  rw [← exists_or]
  refine exists_congr fun dir => ?_
  rw [← and_or_left]
  exact and_congr_right fun hdir => by rw [has_join hr hp (hdirs dir hdir), Bool.or_eq_true]

/-- `app` ends the path of the root, and `routes` starts the path below it. -/
def seamed (r : Path) (p : String) : Bool :=
  Text.endsWith (View.of (r.join "_")).whole "/app/_" &&
    Text.startsWith (View.of (Path.join ⟨"/"⟩ p)).whole "/routes/"

/-- The one slash inside `/app/routes/`. -/
theorem eq_of_routes {u v : List Char} (h : "/app/routes/".toList = u ++ '/' :: v) (hu : u ≠ [])
    (hv : v ≠ []) : u = "/app".toList ∧ v = "routes/".toList := by
  have hslash : ∀ k < 12, "/app/routes/".toList[k]? = some '/' → k = 0 ∨ k = 4 ∨ k = 11 := by decide
  have hlength : 12 = u.length + (v.length + 1) := by
    simpa using congrArg List.length h
  rcases hslash u.length (by omega) (by rw [h]; simp) with hk | hk | hk
  · exact absurd (List.length_eq_zero_iff.mp hk) hu
  · have htake : u = "/app/routes/".toList.take 4 := by rw [h, List.take_left' hk]
    have hdrop : '/' :: v = "/app/routes/".toList.drop 4 := by rw [h, List.drop_left' hk]
    exact ⟨htake, (List.cons.inj hdrop).2⟩
  · exact absurd (List.length_eq_zero_iff.mp (by omega)) hv

/-- The two directories stand on one side of the end of the root or across it. -/
theorem infix_routes_iff (s t : List Char) : "/app/routes/".toList <:+: s ++ '/' :: t ↔
    "/app/routes/".toList <:+: s ++ ['/'] ∨ "/app/routes/".toList <:+: '/' :: t ∨
      "/app".toList <:+ s ∧ "routes/".toList <+: t := by
  rw [Text.infix_append_iff]
  refine or_congr_right (or_congr_right ⟨?_, fun ⟨hs, ht⟩ => ?_⟩)
  · rintro ⟨u, v, heq, hu, hv, hs, ht⟩
    obtain ⟨rfl, rfl⟩ := eq_of_routes heq hu hv
    exact ⟨hs, ht⟩
  · exact ⟨_, _, rfl, by decide, by decide, hs, ht⟩

theorem seamed_iff (hr : r.isAbsolute) (hp : Below p) : seamed r p ↔
    "/app".toList <:+ folded r.unslashed ∧ "routes/".toList <+: folded p.toList := by
  have hends : "/app".toList ++ ['/', '_'] <:+ folded r.unslashed ++ ['/', '_'] ↔
      "/app".toList <:+ folded r.unslashed := by
    refine exists_congr fun front => ?_
    rw [← List.append_assoc, List.append_left_inj]
  rw [seamed, Bool.and_eq_true, Text.endsWith, Text.startsWith, List.isSuffixOf_iff_suffix,
    List.isPrefixOf_iff_prefix, whole_join_plain hr, whole_join_root hp]
  exact and_congr hends (List.cons_prefix_cons.trans (and_iff_right rfl))

theorem has_routes_join (hr : r.isAbsolute) (hp : Below p) :
    Text.has (View.of (r.join p)).whole "/app/routes/" =
      (Text.has (View.of (r.join "_")).whole "/app/routes/" ||
        Text.has (View.of (Path.join ⟨"/"⟩ p)).whole "/app/routes/" || seamed r p) := by
  have hplain : ¬ "/app/routes/".toList <:+: '/' :: ['_'] := by
    rw [← Text.occurs_iff_infix]
    decide
  have hacross : ¬ ("/app".toList <:+ folded r.unslashed ∧ "routes/".toList <+: ['_']) := fun h => by
    rw [← List.isPrefixOf_iff_prefix] at h
    exact absurd h.2 (by decide)
  rw [Bool.eq_iff_iff, Bool.or_eq_true, Bool.or_eq_true, seamed_iff hr hp, whole_join hr hp,
    whole_join_plain hr, whole_join_root hp, Text.has, Text.has, Text.has, Text.occurs_iff_infix,
    Text.occurs_iff_infix, Text.occurs_iff_infix, infix_routes_iff, infix_routes_iff _ ['_']]
  tauto

theorem endsIn_join (hr : r.isAbsolute) (hp : Below p) (tails : List String) :
    (View.of (r.join p)).endsIn tails = (View.of (Path.join ⟨"/"⟩ p)).endsIn tails := by
  rw [View.endsIn, View.endsIn, (stem_join hr hp).1, (stem_join isAbsolute_root hp).1]

theorem endsInLower_join (hr : r.isAbsolute) (hp : Below p) (tails : List String) :
    (View.of (r.join p)).endsInLower tails =
      (View.of (Path.join ⟨"/"⟩ p)).endsInLower tails := by
  rw [View.endsInLower, View.endsInLower, (stem_join hr hp).2, (stem_join isAbsolute_root hp).2]

/-! ## Roles of joined paths -/

/-- What the name of a plain file tells. -/
theorem stem_plain (hr : r.isAbsolute) :
    (View.of (r.join "_")).stem = ['_'] ∧ (View.of (r.join "_")).stemLower = ['_'] := by
  rw [(stem_join hr below_plain).1, (stem_join hr below_plain).2]
  decide

instance (dir : String) : Decidable (IsDirectory dir) :=
  decidable_of_iff ('/' ∉ dir.toList.tail.dropLast ∧ Text.has "/_".toList dir = false)
    ⟨fun h => ⟨h.1, h.2⟩, fun h => ⟨h.1, h.2⟩⟩

theorem isTest_join (hr : r.isAbsolute) (hp : Below p) : (View.of (r.join p)).isTest =
    ((View.of (r.join "_")).isTest || (View.of (Path.join ⟨"/"⟩ p)).isTest) := by
  have hname : (View.of (r.join "_")).endsIn [".test", ".spec", "_test", "Test", "Tests"] = false := by
    rw [View.endsIn, (stem_plain hr).1]
    decide
  rw [View.isTest, View.isTest, View.isTest, inside_join hr hp (by decide), endsIn_join hr hp, hname,
    Bool.or_false, Bool.or_assoc]

theorem isScreen_join (hr : r.isAbsolute) (hp : Below p) : (View.of (r.join p)).isScreen =
    ((View.of (r.join "_")).isScreen || (View.of (Path.join ⟨"/"⟩ p)).isScreen || seamed r p) := by
  have hname : (View.of (r.join "_")).endsIn
      ["Screen", "Page", "Activity", "Fragment", "ViewController"] = false := by
    rw [View.endsIn, (stem_plain hr).1]
    decide
  have hlower : (View.of (r.join "_")).endsInLower ["_screen", "_page"] = false := by
    rw [View.endsInLower, (stem_plain hr).2]
    decide
  have hinside (v : View) : v.inside ["/screens/", "/pages/", "/app/routes/"] =
      (v.inside ["/screens/", "/pages/"] || Text.has v.whole "/app/routes/") := by
    simp only [View.inside, List.any_cons, List.any_nil, Bool.or_false, Bool.or_assoc]
  rw [View.isScreen, View.isScreen, View.isScreen, hinside, hinside, hinside,
    inside_join hr hp (by decide), has_routes_join hr hp, endsIn_join hr hp, endsInLower_join hr hp,
    hname, hlower]
  have hregroup : ∀ name dir dir' routes routes' seam lower : Bool,
      (name || (dir || dir' || (routes || routes' || seam)) || lower) =
        (false || (dir || routes) || false || (name || (dir' || routes') || lower) || seam) := by
    decide
  exact hregroup _ _ _ _ _ _ _

theorem isComponent_join (hr : r.isAbsolute) (hp : Below p) : (View.of (r.join p)).isComponent =
    ((View.of (r.join "_")).isComponent || (View.of (Path.join ⟨"/"⟩ p)).isComponent) := by
  have hname : (View.of (r.join "_")).endsIn
      ["View", "Widget", "Component", "Cell", "Adapter"] = false := by
    rw [View.endsIn, (stem_plain hr).1]
    decide
  have hlower : (View.of (r.join "_")).endsInLower ["_widget"] = false := by
    rw [View.endsInLower, (stem_plain hr).2]
    decide
  rw [View.isComponent, View.isComponent, View.isComponent, inside_join hr hp (by decide),
    endsIn_join hr hp, endsInLower_join hr hp, hname, hlower]
  have hregroup : ∀ name dir dir' lower : Bool, (name || (dir || dir') || lower) =
      (false || dir || false || (name || dir' || lower)) := by decide
  exact hregroup _ _ _ _

theorem isService_join (hr : r.isAbsolute) (hp : Below p) : (View.of (r.join p)).isService =
    ((View.of (r.join "_")).isService || (View.of (Path.join ⟨"/"⟩ p)).isService) := by
  have hname : ["service", "api", "client", "repository", "store"].any
      (Text.has (View.of (r.join "_")).stemLower) = false := by
    rw [(stem_plain hr).2]
    decide
  rw [View.isService, View.isService, View.isService, inside_join hr hp (by decide),
    (stem_join hr hp).2, (stem_join isAbsolute_root hp).2, hname, Bool.false_or, Bool.or_left_comm]

/-- When the conventions try a role. -/
def rank : FileRole → Nat
  | test => 0
  | screen => 1
  | component => 2
  | service => 3
  | other => 4

/-- The role that the conventions try first. -/
def first (a b : FileRole) : FileRole := if a.rank ≤ b.rank then a else b

/-- The conventions on a place that fits the roles of either of two places. -/
theorem first_cascade (t t' s s' c c' v v' : Bool) :
    (if t || t' then test else if s || s' then screen else if c || c' then component
      else if v || v' then service else other) =
      first (if t then test else if s then screen else if c then component
        else if v then service else other)
        (if t' then test else if s' then screen else if c' then component
          else if v' then service else other) := by
  cases t <;> cases s <;> cases c <;> cases v <;> cases t' <;> cases s' <;> cases c' <;> cases v' <;>
    rfl

/-- A file has the role that its place below the root tells, or the one of a plain file of the root,
whichever comes first. -/
theorem ofPath_join (hr : r.isAbsolute) (hp : Below p) : ofPath (r.join p) =
    first (ofPath (r.join "_"))
      (first (if seamed r p then screen else other) (ofPath (Path.join ⟨"/"⟩ p))) := by
  have hseam : (if seamed r p then screen else other) =
      if false then test else if seamed r p then screen else if false then component
        else if false then service else other := by
    cases seamed r p <;> rfl
  simp only [ofPath, hseam]
  rw [isTest_join hr hp, isScreen_join hr hp, isComponent_join hr hp, isService_join hr hp,
    ← first_cascade, ← first_cascade, Bool.false_or, Bool.false_or, Bool.false_or,
    Bool.or_comm (seamed r p), Bool.or_assoc]

theorem first_eq_test_iff {a b : FileRole} : first a b = test ↔ a = test ∨ b = test := by
  cases a <;> cases b <;> decide

theorem ofPath_join_eq_test_iff (hr : r.isAbsolute) (hp : Below p) : ofPath (r.join p) = test ↔
    ofPath (r.join "_") = test ∨ ofPath (Path.join ⟨"/"⟩ p) = test := by
  rw [ofPath_join hr hp, first_eq_test_iff, first_eq_test_iff]
  refine or_congr_right (or_iff_right ?_)
  split <;> decide

/-! ## Projects that are moved -/

/-- What a root tells of the files below it: the role of a plain one, and whether it is a directory
`app`. -/
def tells (r : Path) : FileRole × Bool :=
  (ofPath (r.join "_"), Text.endsWith (View.of (r.join "_")).whole "/app/_")

/-- The files of a project with their roles, when it is placed below a root. -/
def placed (r : Path) (ps : List String) : List (Path × FileRole) :=
  ps.map fun p => (r.join p, ofPath (r.join p))

theorem wantsRole_default (role : FileRole) : ({} : ScanOptions).wantsRole role = (role != test) := by
  cases role <;> rfl

theorem wantedFiles_placed {s : Structure} {ps : List String} (hs : s.files = placed r ps) :
    Scan.wantedFiles s {} = (ps.filter fun p => ofPath (r.join p) != test).map r.join := by
  simp only [Scan.wantedFiles, hs, placed, List.filter_map, List.map_map, wantsRole_default,
    Function.comp_def]

/-- The role of a file comes from its path below the root and from what the root tells. So it is the
same below two roots that tell alike, and a default scan reads the same files below two roots that
are both directories of tests or both not. -/
theorem ofPath_moved {r r' : Path} (hr : r.isAbsolute) (hr' : r'.isAbsolute) :
    (∀ p, Below p → ofPath (r.join p) = first (ofPath (r.join "_"))
      (first (if seamed r p then screen else other) (ofPath (Path.join ⟨"/"⟩ p)))) ∧
    (tells r = tells r' → ∀ p, Below p → ofPath (r.join p) = ofPath (r'.join p)) ∧
    ((ofPath (r.join "_") = test ↔ ofPath (r'.join "_") = test) →
      ∀ (ps : List String) (s s' : Structure), (∀ p ∈ ps, Below p) → s.files = placed r ps →
        s'.files = placed r' ps → ∃ kept : List String, kept.Sublist ps ∧
          Scan.wantedFiles s {} = kept.map r.join ∧ Scan.wantedFiles s' {} = kept.map r'.join) := by
  refine ⟨fun p hp => ofPath_join hr hp, fun h p hp => ?_, fun h ps s s' hps hs hs' => ?_⟩
  · obtain ⟨hrole, happ⟩ := Prod.mk.inj h
    rw [ofPath_join hr hp, ofPath_join hr' hp, hrole, seamed, seamed, happ]
  · refine ⟨ps.filter fun p => ofPath (r.join p) != test, List.filter_sublist,
      wantedFiles_placed hs, ?_⟩
    rw [wantedFiles_placed hs']
    refine congrArg (List.map _) (List.filter_congr fun p hp => ?_)
    rw [bne, bne, Bool.not_inj_iff, Bool.eq_iff_iff, beq_iff_eq, beq_iff_eq,
      ofPath_join_eq_test_iff hr (hps p hp), ofPath_join_eq_test_iff hr' (hps p hp), h]

/-- Two roots that tell nothing. -/
theorem ofPath_moved_home : (Path.mk "/srv/shop").isAbsolute ∧ (Path.mk "/home/shop").isAbsolute ∧
    tells ⟨"/srv/shop"⟩ = tells ⟨"/home/shop"⟩ ∧ Below "src/index.js" ∧
      ofPath (Path.join ⟨"/srv/shop"⟩ "src/index.js") =
        ofPath (Path.join ⟨"/home/shop"⟩ "src/index.js") := by
  have hr : (Path.mk "/srv/shop").isAbsolute := by decide
  have hr' : (Path.mk "/home/shop").isAbsolute := by decide
  have htells : tells ⟨"/srv/shop"⟩ = tells ⟨"/home/shop"⟩ := by decide +kernel
  have hbelow : Below "src/index.js" := ⟨by decide +kernel, by decide +kernel⟩
  exact ⟨hr, hr', htells, hbelow, (ofPath_moved hr hr').2.1 htells _ hbelow⟩

/-- A directory of tests above a project makes all its files tests. -/
theorem not_ofPath_moved : ¬ ∀ (r r' : Path) (p : String), r.isAbsolute → r'.isAbsolute → Below p →
    ofPath (r.join p) = ofPath (r'.join p) := by
  intro h
  have hsame := h ⟨"/home/shop"⟩ ⟨"/home/tests/shop"⟩ "src/index.js" (by decide) (by decide)
    ⟨by decide +kernel, by decide +kernel⟩
  exact absurd hsame (by decide +kernel)

end FileRole

end Mend
