import Mathlib.Data.List.Nodup
import Mathlib.Data.List.Perm.Subperm
import Mend.Proofs.FileTree
import Mend.Proofs.Ordering
import Mend.Walk

/-!
# What a walk lists

A walk lists canonical paths of files (`fileAt_of_mem_files`), in their order and each of them once
(`pairwise_files`).

Where there are neither links nor lists of ignored files (`Bare`) it is known which ones. One step
of the walk gives the wanted files of a directory and leaves the rest to the directories that it
enters (`mem_filesBelow_succ`), so by induction a walk finds what names lead to, as far as its fuel
lasts (`mem_filesBelow_iff`). No way in a tree is longer than the tree has entries
(`length_le_entries`): the fuel never cuts a walk short, and `files_of_bare` does not speak of it.
-/

namespace Mend

open FileTree

namespace Walk

/-! ## Paths of files -/

/-- The path is the one without links of a file that a path leads to. -/
def Reached (t : FileTree) (p : Path) : Prop :=
  ∃ q place bytes, t.resolve q = .ok place ∧ t.get? place = some (.file bytes) ∧ p = .ofPlace place

theorem reached_of_mem_filesBelow (w : Walk) (t : FileTree) {p : Path} :
    ∀ {fuel : Nat} {here : Position}, p ∈ w.filesBelow t fuel here → Reached t p
  | 0, here, h => by simp [filesBelow] at h
  | fuel + 1, here, h => by
    rw [filesBelow] at h
    obtain ⟨name, -, hp⟩ := List.mem_flatMap.mp h
    simp only at hp
    split at hp
    · simp at hp
    · next place hplace =>
      split at hp
      · split at hp
        · simp at hp
        · exact reached_of_mem_filesBelow w t hp
      · next bytes hbytes =>
        split at hp
        · exact ⟨_, place, bytes, hplace, hbytes, List.mem_singleton.mp hp⟩
        · simp at hp
      · simp at hp

theorem reached_of_mem_found (w : Walk) (t : FileTree) {p : Path} (h : p ∈ w.found t) :
    Reached t p := by
  unfold found at h
  split at h
  · simp at h
  · next place hplace =>
    split at h
    · exact reached_of_mem_filesBelow w t h
    · next bytes hbytes =>
      split at h
      · exact ⟨_, place, bytes, hplace, hbytes, List.mem_singleton.mp h⟩
      · simp at h
    · simp at h

theorem mem_distinct {paths : List Path} {p : Path} : p ∈ distinct paths ↔ p ∈ paths := by
  have hfold : ∀ paths kept : List Path,
      p ∈ paths.foldl (fun kept p => if kept.contains p then kept else kept ++ [p]) kept ↔
        p ∈ kept ∨ p ∈ paths := by
    intro paths
    induction paths with
    | nil => exact fun kept => by simp
    | cons q paths ih =>
      intro kept
      rw [List.foldl_cons, ih, List.mem_cons, ← or_assoc]
      refine or_congr_left ?_
      split
      · next hkept =>
        rw [List.contains_iff_mem] at hkept
        exact ⟨Or.inl, fun h => h.elim id fun h => h ▸ hkept⟩
      · rw [List.mem_append, List.mem_singleton]
  exact (hfold paths []).trans (by simp)

theorem fileAt_of_mem_files (w : Walk) {t : FileTree} (ht : t.Grounded) {p : Path}
    (h : p ∈ w.files t) : ∃ place, t.FileAt p place := by
  rw [files, List.mem_mergeSort] at h
  obtain ⟨q, place, bytes, hplace, hbytes, rfl⟩ :=
    reached_of_mem_found w t (mem_distinct.mp h)
  exact ⟨place, FileTree.fileAt_of_resolve ht hplace hbytes⟩

theorem nodup_distinct (paths : List Path) : (distinct paths).Nodup := by
  have hfold : ∀ (paths kept : List Path), kept.Nodup →
      (paths.foldl (fun kept p => if kept.contains p then kept else kept ++ [p]) kept).Nodup := by
    intro paths
    induction paths with
    | nil => exact fun kept h => h
    | cons q paths ih =>
      intro kept h
      refine ih _ ?_
      simp only
      split
      · exact h
      · next hnew => exact List.concat_eq_append ▸ h.concat (by simpa using hnew)
  exact hfold paths [] List.nodup_nil

/-- A walk lists no file under two paths. -/
theorem nodup_parts_files (w : Walk) {t : FileTree} (ht : t.Grounded) :
    ((w.files t).map Path.parts).Nodup := by
  have hnodup : (w.files t).Nodup := (List.mergeSort_perm _ _).nodup_iff.mpr (nodup_distinct _)
  refine List.Nodup.map_on (fun p hp q hq hparts => ?_) hnodup
  obtain ⟨place, hplace⟩ := w.fileAt_of_mem_files ht hp
  obtain ⟨place', hplace'⟩ := w.fileAt_of_mem_files ht hq
  rw [hplace.path_eq, hplace'.path_eq] at hparts ⊢
  rw [Path.parts_ofPlace_inj hplace.proper hplace'.proper hparts]

/-- The files come in the order of paths, each of them once. -/
theorem pairwise_files (w : Walk) {t : FileTree} (ht : t.Grounded) :
    (w.files t).Pairwise fun p q => p.compare q = .lt := by
  have hordered := ordered_of_transCmp Path.compare
  have hsorted : (w.files t).Pairwise fun p q => p.compare q != .gt :=
    List.pairwise_mergeSort hordered.trans hordered.total _
  have hnodup : (w.files t).Pairwise fun p q => p.parts ≠ q.parts :=
    List.pairwise_map.mp (w.nodup_parts_files ht)
  refine (hsorted.and hnodup).imp fun {p q} ⟨hle, hne⟩ => ?_
  cases hcmp : p.compare q with
  | lt => rfl
  | eq => exact absurd (Path.compare_eq_iff.mp hcmp) hne
  | gt => simp [hcmp] at hle

/-! ## Directories without lists -/

/-- The names of lists of ignored files, and of the directory that a repository keeps for itself. -/
def listNames : List String := [".ignore", ".gitignore", ".git"]

theorem proper_of_mem_listNames : ∀ n ∈ listNames, Path.Proper n := by decide

/-- None of the lists says anything. -/
def Silent (levels : List Ignore.Level) : Prop :=
  ∀ l ∈ levels, l.2.plain = [] ∧ l.2.repository = [] ∧ l.2.exclude = []

theorem verdicts_of_silent (names : List String) (isDirectory : Bool) :
    ∀ {levels : List Ignore.Level} {inRepo : Bool}, Silent levels →
      Ignore.verdicts names isDirectory inRepo levels = (none, none, none)
  | [], _, _ => rfl
  | (depth, lists) :: levels, inRepo, h => by
    obtain ⟨hplain, hrepository, hexclude⟩ := h _ List.mem_cons_self
    have ih {inRepo : Bool} : Ignore.verdicts names isDirectory inRepo levels = (none, none, none) :=
      verdicts_of_silent names isDirectory fun l hl => h l (List.mem_cons_of_mem _ hl)
    simp only at hplain hrepository hexclude
    simp [Ignore.verdicts, ih, hplain, hrepository, hexclude, Ignore.verdict?]

/-- Nothing is left out where no list says anything. -/
theorem isIgnored_of_silent {levels : List Ignore.Level} (h : Silent levels) (names : List String)
    (isDirectory : Bool) : Ignore.isIgnored levels names isDirectory = false := by
  rw [Ignore.isIgnored, verdicts_of_silent names isDirectory h]
  rfl

variable {t : FileTree} {dir : Path} {place root : Place}

/-- What would be under a name that the directory does not have holds no list. -/
theorem listAt_eq_nil (h : Opens t dir place) {n : String} (hnone : t.get? (place ++ [n]) = none)
    {p : Path} {rest : List Path.Part} (hparts : p.parts = dir.parts ++ .name n :: rest) :
    Ignore.listAt t p = [] := by
  obtain ⟨left, hleft⟩ := h.leads.follow_append
  have hresolve : t.resolve p = .error .notFound := by
    rw [FileTree.resolve]
    split
    · rfl
    · rw [hparts, hleft, FileTree.follow, if_pos h.directory, hnone]
      rfl
  simp only [Ignore.listAt, FileTree.read, FileTree.lookup, hresolve]
  rfl

/-- The lists of a directory that has none. -/
theorem silent_of (h : Opens t dir place) (hnone : ∀ n ∈ listNames, t.get? (place ++ [n]) = none)
    (depth : Nat) (repositories : Bool) :
    Silent [(depth, Ignore.Lists.of t repositories dir)] := by
  have hfile {n : String} (hn : n ∈ listNames) : Ignore.listAt t (dir.join n) = [] :=
    listAt_eq_nil h (hnone n hn) (Path.parts_join dir (proper_of_mem_listNames n hn))
  have hgit : Ignore.listAt t (dir.join ".git/info/exclude") = [] := by
    have hinfo : Path.Proper "info" := by decide
    have hexclude : Path.Proper "exclude" := by decide
    have hpath : dir.join ".git/info/exclude" = ((dir.join ".git").join "info").join "exclude" := by
      rw [Path.join_join dir (by decide) (by decide) (by decide) hinfo,
        Path.join_join dir (by decide) (by decide) (by decide) hexclude]
      rfl
    have hparts : (dir.join ".git/info/exclude").parts =
        dir.parts ++ .name ".git" :: [.name "info", .name "exclude"] := by
      rw [hpath, Path.parts_join _ hexclude, Path.parts_join _ hinfo,
        Path.parts_join _ (proper_of_mem_listNames ".git" (by decide))]
      simp
    exact listAt_eq_nil h (hnone ".git" (by decide)) hparts
  intro l hl
  obtain rfl := List.mem_singleton.mp hl
  refine ⟨hfile (by decide), ?_, ?_⟩
  · simp only [Ignore.Lists.of, hfile (show ".gitignore" ∈ listNames by decide), ite_self]
  · simp only [Ignore.Lists.of, hgit, ite_self]

/-! ## Walks without lists and links -/

/-- There are no links below a directory, all that is there has a proper name, and neither there nor
above it is there a list of ignored files or what a repository keeps for itself. -/
structure Bare (t : FileTree) (root : Place) : Prop where
  proper : ∀ d, root <+: d → ∀ n, (t.get? (d ++ [n])).isSome → Path.Proper n
  no_link : ∀ d, root <+: d → ∀ n target, t.get? (d ++ [n]) ≠ some (.link target)
  no_list : ∀ d, d <+: root ∨ root <+: d → ∀ n ∈ listNames, t.get? (d ++ [n]) = none

/-- The walk is in the directory at a place, and has met no lists. -/
structure Position.At (t : FileTree) (here : Position) (place : Place) : Prop where
  opens : Opens t here.path place
  above : here.above.headD [] = place
  silent : Silent here.levels

/-- The walk in a directory of the one where it is. -/
def Position.child (w : Walk) (t : FileTree) (here : Position) (place : Place) (name : String) :
    Position where
  path := here.path.join name
  names := here.names ++ [name]
  depth := here.depth + 1
  above := (place ++ [name]) :: here.above
  levels := (here.names.length, Ignore.Lists.of t w.respectGitignore here.path) :: here.levels

theorem wants_iff {w : Walk} {p : Path} :
    w.wants p = true ↔ w.extensions = [] ∨ ∃ e ∈ w.extensions, p.extension? = some e := by
  rw [wants, Bool.or_eq_true, List.isEmpty_iff, Option.any_eq_true]
  simp only [List.contains_iff_mem]
  exact or_congr_right ⟨fun ⟨e, he, hmem⟩ => ⟨e, hmem, he⟩, fun ⟨e, hmem, he⟩ => ⟨e, he, hmem⟩⟩

section

variable {w : Walk} {here : Position} {name : String}

/-- A name in the directory leads to what is there under it. -/
theorem Position.At.resolve (h : here.At t place) (hname : Path.Proper name) {e : Entry}
    (he : t.get? (place ++ [name]) = some e) (hplain : ∀ p, e ≠ .link p) :
    t.resolve (here.path.join name) = .ok (place ++ [name]) := by
  rw [FileTree.resolve, Path.text_join_ne_empty _ hname, Path.parts_join _ hname]
  exact (h.opens.leads.concat h.opens.directory he hplain).follow false

theorem Position.At.silent_cons (h : here.At t place)
    (hnone : ∀ n ∈ listNames, t.get? (place ++ [n]) = none) (depth : Nat) (repositories : Bool) :
    Silent ((depth, Ignore.Lists.of t repositories here.path) :: here.levels) :=
  List.forall_mem_cons.mpr
    ⟨silent_of h.opens hnone depth repositories _ List.mem_cons_self, h.silent⟩

/-- What counts of the path that leads to a file is its name. -/
theorem Position.At.wants_join (h : here.At t place) (ht : t.Grounded) (hname : Path.Proper name)
    {e : Entry} (he : t.get? (place ++ [name]) = some e) (hplain : ∀ p, e ≠ .link p) :
    w.wants (here.path.join name) = w.wants (.ofPlace (place ++ [name])) := by
  have hjoin : (here.path.join name).fileName? = some name := by
    rw [Path.fileName?, Path.parts_join _ hname, List.getLast?_concat]
  have hplace := Path.fileName?_ofPlace (proper_of_resolve ht (h.resolve hname he hplain))
  rw [wants, wants, Path.extension?, Path.extension?, hjoin, hplace]

theorem Position.At.child (h : here.At t place) (hname : Path.Proper name)
    (hdir : t.get? (place ++ [name]) = some .directory)
    (hnone : ∀ n ∈ listNames, t.get? (place ++ [n]) = none) :
    (here.child w t place name).At t (place ++ [name]) where
  opens := by
    refine ⟨?_, hdir⟩
    rw [Position.child, Path.parts_join _ hname]
    exact h.opens.leads.concat h.opens.directory hdir fun p hp => by cases hp
  above := rfl
  silent := h.silent_cons hnone _ _

/-- What a walk finds in a directory: the wanted files in it, and what it finds in the directories
that it enters. -/
theorem mem_filesBelow_succ (ht : t.Grounded) (hbare : Bare t root) (hbelow : root <+: place)
    (h : here.At t place) {fuel : Nat} {p : Path} :
    p ∈ w.filesBelow t (fuel + 1) here ↔ ∃ name,
      (∃ bytes, t.get? (place ++ [name]) = some (.file bytes) ∧
        p = .ofPlace (place ++ [name]) ∧ w.wants p = true) ∨
      t.get? (place ++ [name]) = some .directory ∧ w.enters name (here.depth + 1) = true ∧
        p ∈ w.filesBelow t fuel (here.child w t place name) := by
  have hnone := hbare.no_list place (.inr hbelow)
  have hkept (names : List String) (isDirectory : Bool) :=
    isIgnored_of_silent (h.silent_cons hnone here.names.length w.respectGitignore) names isDirectory
  rw [filesBelow]
  simp only [h.above, hkept]
  rw [List.mem_flatMap]
  refine exists_congr fun name => ?_
  rw [mem_names_iff]
  cases he : t.get? (place ++ [name]) with
  | none => simp
  | some e =>
    have hname := hbare.proper place hbelow name (by rw [he]; rfl)
    cases e with
    | link target => exact absurd he (hbare.no_link place hbelow name target)
    | file bytes =>
      have hfile (p : Path) : Entry.file bytes ≠ .link p := by
        rintro ⟨⟩
      rw [h.resolve hname he hfile]
      simp only [he, h.wants_join ht hname he hfile]
      cases hwants : w.wants (.ofPlace (place ++ [name])) <;>
        simpa [hwants] using fun hp => hp ▸ hwants
    | directory =>
      rw [h.resolve hname he fun p hp => by cases hp]
      simp only [he]
      cases w.enters name (here.depth + 1) <;> simp [Position.child]

/-- The file is one that a walk lists, which comes to it from a directory of a depth through others. -/
structure Listed (w : Walk) (t : FileTree) (place : Place) (depth : Nat) (dirs : List String)
    (n : String) : Prop where
  file : ∃ bytes, t.get? (place ++ dirs ++ [n]) = some (.file bytes)
  wanted : w.extensions = [] ∨
    ∃ e ∈ w.extensions, (Path.ofPlace (place ++ dirs ++ [n])).extension? = some e
  entered : ∀ d ∈ dirs, d ∉ w.exclude
  depth_le : depth + dirs.length ≤ w.maxDepth

theorem enters_iff {depth : Nat} :
    w.enters name depth = true ↔ depth ≤ w.maxDepth ∧ name ∉ w.exclude := by
  rw [enters, Bool.and_eq_true, decide_eq_true_eq, Bool.not_eq_true', ← Bool.not_eq_true,
    List.contains_iff_mem]

theorem listed_nil_iff {depth : Nat} {n : String} (h : depth ≤ w.maxDepth) :
    w.Listed t place depth [] n ↔
      (∃ bytes, t.get? (place ++ [n]) = some (.file bytes)) ∧
        w.wants (.ofPlace (place ++ [n])) = true := by
  rw [wants_iff]
  refine ⟨fun hlisted => ?_, fun ⟨hfile, hwanted⟩ => ⟨?_, ?_, nofun, h⟩⟩
  · have hfile := hlisted.file
    have hwanted := hlisted.wanted
    rw [List.append_nil] at hfile hwanted
    exact ⟨hfile, hwanted⟩
  · rwa [List.append_nil]
  · rwa [List.append_nil]

theorem listed_cons_iff (ht : t.Grounded) {depth : Nat} {d : String} {dirs : List String} {n : String} :
    w.Listed t place depth (d :: dirs) n ↔ t.get? (place ++ [d]) = some .directory ∧
      w.enters d (depth + 1) = true ∧ w.Listed t (place ++ [d]) (depth + 1) dirs n := by
  have hsplit : place ++ d :: dirs ++ [n] = place ++ [d] ++ dirs ++ [n] := by simp
  rw [enters_iff]
  constructor
  · rintro ⟨⟨bytes, hfile⟩, hwanted, hentered, hdepth⟩
    rw [List.length_cons] at hdepth
    rw [hsplit] at hfile hwanted
    refine ⟨ht.above (q := place ++ [d]) (r := dirs ++ [n]) (by simp) ?_,
      ⟨by omega, hentered d List.mem_cons_self⟩, ⟨bytes, hfile⟩, hwanted,
      fun e he => hentered e (List.mem_cons_of_mem d he), by omega⟩
    rw [← List.append_assoc, hfile]
    rfl
  · rintro ⟨-, ⟨-, hd⟩, hfile, hwanted, hentered, hdepth⟩
    rw [← hsplit] at hfile hwanted
    exact ⟨hfile, hwanted, List.forall_mem_cons.mpr ⟨hd, hentered⟩, by
      rw [List.length_cons]
      omega⟩

/-- What a walk finds from a directory on, as deep as the fuel lasts. -/
theorem mem_filesBelow_iff (ht : t.Grounded) (hbare : Bare t root) {p : Path} :
    ∀ {fuel : Nat} {here : Position} {place : Place}, root <+: place → here.At t place →
      here.depth ≤ w.maxDepth → (p ∈ w.filesBelow t fuel here ↔ ∃ dirs n, dirs.length < fuel ∧
        p = .ofPlace (place ++ dirs ++ [n]) ∧ w.Listed t place here.depth dirs n)
  | 0, here, place, _, _, _ => by simp [filesBelow]
  | fuel + 1, here, place, hbelow, h, hdepth => by
    have hchild {name : String} (hdir : t.get? (place ++ [name]) = some .directory)
        (henters : w.enters name (here.depth + 1) = true) :
        p ∈ w.filesBelow t fuel (here.child w t place name) ↔ ∃ dirs n, dirs.length < fuel ∧
          p = .ofPlace (place ++ [name] ++ dirs ++ [n]) ∧
          w.Listed t (place ++ [name]) (here.depth + 1) dirs n :=
      have hname := hbare.proper place hbelow name (by rw [hdir]; rfl)
      mem_filesBelow_iff ht hbare (hbelow.trans (List.prefix_append place [name]))
        (h.child hname hdir (hbare.no_list place (.inr hbelow))) (enters_iff.mp henters).1
    rw [mem_filesBelow_succ ht hbare hbelow h]
    constructor
    · rintro ⟨name, ⟨bytes, hfile, rfl, hwants⟩ | ⟨hdir, henters, hp⟩⟩
      · exact ⟨[], name, Nat.succ_pos fuel, by rw [List.append_nil],
          (listed_nil_iff hdepth).mpr ⟨⟨bytes, hfile⟩, hwants⟩⟩
      · obtain ⟨dirs, n, hfuel, rfl, hlisted⟩ := (hchild hdir henters).mp hp
        exact ⟨name :: dirs, n, Nat.succ_lt_succ hfuel, by simp,
          (listed_cons_iff ht).mpr ⟨hdir, henters, hlisted⟩⟩
    · rintro ⟨dirs, n, hfuel, rfl, hlisted⟩
      cases dirs with
      | nil =>
        obtain ⟨⟨bytes, hfile⟩, hwants⟩ := (listed_nil_iff hdepth).mp hlisted
        rw [List.append_nil]
        exact ⟨n, .inl ⟨bytes, hfile, rfl, hwants⟩⟩
      | cons name dirs =>
        obtain ⟨hdir, henters, hlater⟩ := (listed_cons_iff ht).mp hlisted
        exact ⟨name, .inr ⟨hdir, henters, (hchild hdir henters).mpr
          ⟨dirs, n, Nat.lt_of_succ_lt_succ hfuel, by simp, hlater⟩⟩⟩

/-! ## Depth -/

/-- The places on the way from one place to another one below it, with the other one. -/
def way (q r : Place) : List Place := (List.range r.length).map fun i => q ++ r.take (i + 1)

theorem nodup_way (q r : Place) : (way q r).Nodup := by
  refine List.Nodup.map_on (fun i hi j hj heq => ?_) List.nodup_range
  have hlength := congrArg List.length heq
  simp only [List.length_append, List.length_take] at hlength
  rw [List.mem_range] at hi hj
  omega

/-- On the way to an entry there are entries only. -/
theorem way_subset_entries (ht : t.Grounded) {q r : Place} (h : (t.get? (q ++ r)).isSome) :
    way q r ⊆ t.entries.map (·.1) := by
  intro place hplace
  obtain ⟨i, hi, rfl⟩ := List.mem_map.mp hplace
  rw [List.mem_range] at hi
  have hsplit := List.take_append_drop (i + 1) r
  have hsome : (t.get? (q ++ r.take (i + 1))).isSome := by
    by_cases hrest : r.drop (i + 1) = []
    · rw [hrest, List.append_nil] at hsplit
      rwa [hsplit]
    · rw [← hsplit, ← List.append_assoc] at h
      rw [ht.above hrest h]
      rfl
  obtain ⟨e, he⟩ := Option.isSome_iff_exists.mp hsome
  rw [List.take_succ_eq_append_getElem hi, ← List.append_assoc] at he ⊢
  exact List.mem_map.mpr ⟨_, mem_entries_of_get? he, rfl⟩

/-- No way to an entry is longer than the tree has entries. -/
theorem length_le_entries (ht : t.Grounded) {q r : Place} (h : (t.get? (q ++ r)).isSome) :
    r.length ≤ t.entries.length := by
  have hle := (List.subperm_of_subset (nodup_way q r) (way_subset_entries ht h)).length_le
  rwa [way, List.length_map, List.length_range, List.length_map] at hle

/-! ## The files of a walk -/

/-- No list stands above the directory that the walk starts in. -/
theorem silent_levelsAbove (ht : t.Grounded) (hdir : t.get? root = some .directory)
    (hproper : ∀ n ∈ root, Path.Proper n) (hbare : Bare t root) : Silent (w.levelsAbove t root) := by
  intro l hl
  rw [levelsAbove] at hl
  split at hl
  swap
  · cases hl
  obtain ⟨depth, hdepth, rfl⟩ := List.mem_map.mp hl
  rw [List.mem_reverse, List.mem_range] at hdepth
  have hsplit := List.take_append_drop depth root
  have habove : t.get? (root.take depth) = some .directory := by
    refine ht.above (r := root.drop depth) (by simpa using hdepth) ?_
    rw [hsplit, hdir]
    rfl
  have hopens : Opens t (.ofPlace (root.take depth)) (root.take depth) :=
    ⟨leads_of_resolve (resolve_ofPlace ht (fun n hn => hproper n (List.mem_of_mem_take hn)) habove
      fun p hp => by cases hp), habove⟩
  exact silent_of hopens (hbare.no_list _ (.inl (List.take_prefix depth root))) depth true _
    List.mem_cons_self

theorem mem_found_iff (ht : t.Grounded) (hroot : t.resolve w.root = .ok root)
    (hdir : t.get? root = some .directory) (hbare : Bare t root) {p : Path} :
    p ∈ w.found t ↔ ∃ dirs n, p = .ofPlace (root ++ dirs ++ [n]) ∧ w.Listed t root 0 dirs n := by
  rw [found, hroot]
  simp only [hdir]
  rw [mem_filesBelow_iff ht hbare (List.prefix_refl root)
    ⟨⟨leads_of_resolve hroot, hdir⟩, rfl,
      silent_levelsAbove ht hdir (proper_of_resolve ht hroot) hbare⟩ (Nat.zero_le _)]
  refine exists_congr fun dirs => exists_congr fun n => and_iff_right_of_imp fun ⟨_, hlisted⟩ => ?_
  obtain ⟨bytes, hfile⟩ := hlisted.file
  -- the way to the file is no longer than the tree has entries
  have hlength := length_le_entries ht (q := root) (r := dirs ++ [n]) (by
    rw [← List.append_assoc, hfile]
    rfl)
  rw [List.length_append, List.length_singleton] at hlength
  exact Nat.lt_of_lt_of_le (show dirs.length < t.entries.length + 2 by omega)
    (Nat.le_mul_of_pos_right _ (Nat.succ_pos _))

end

/-- A walk over a directory without links and lists, in the order of paths and each of them once,
lists exactly the files with a wanted extension that are not too deep and not below a directory that
is excluded by name. -/
theorem files_of_bare {w : Walk} (ht : t.Grounded) (hroot : t.resolve w.root = .ok root)
    (hdir : t.get? root = some .directory) (hbare : Bare t root) :
    (w.files t).Pairwise (fun p q => p.compare q = .lt) ∧ ∀ p, p ∈ w.files t ↔
      ∃ dirs n, p = .ofPlace (root ++ dirs ++ [n]) ∧ w.Listed t root 0 dirs n := by
  refine ⟨w.pairwise_files ht, fun p => ?_⟩
  rw [files, List.mem_mergeSort, mem_distinct]
  exact mem_found_iff ht hroot hdir hbare

/-- A tree is bare if none of its entries is a link and the names on the way to each of them are
proper ones and not those of lists. -/
theorem bare_of_entries {t : FileTree} (hlink : ∀ e ∈ t.entries, ∀ target, e.2 ≠ .link target)
    (hnames : ∀ e ∈ t.entries, ∀ n ∈ e.1, Path.Proper n ∧ n ∉ listNames) (root : Place) :
    Bare t root where
  proper := by
    intro d _ n hsome
    obtain ⟨e, he⟩ := Option.isSome_iff_exists.mp hsome
    exact (hnames _ (mem_entries_of_get? he) n (List.mem_append_right d (List.mem_singleton_self n))).1
  no_link := fun d _ n target he => hlink _ (mem_entries_of_get? he) target rfl
  no_list := by
    intro d _ n hn
    refine Option.eq_none_iff_forall_ne_some.mpr fun e he => ?_
    exact (hnames _ (mem_entries_of_get? he) n
      (List.mem_append_right d (List.mem_singleton_self n))).2 hn

/-- Files at three depths, and one in a directory `out`. -/
def nested : FileTree where
  entries := [(["w"], .directory), (["w", "src"], .directory), (["w", "src", "deep"], .directory),
    (["w", "out"], .directory)] ++ [["w", "a.ts"], ["w", "src", "b.ts"], ["w", "src", "b.md"],
    ["w", "src", "deep", "c.ts"], ["w", "out", "d.ts"]].map fun place => (place, .file ⟨#[]⟩)

/-- A walk over it to depth one that does not enter `out`. -/
def shallow : Walk where
  root := ⟨"/w"⟩
  extensions := ["ts"]
  maxDepth := 1
  exclude := ["out"]

theorem files_of_bare_nested :
    (nested.Grounded ∧ nested.resolve shallow.root = .ok ["w"] ∧
      nested.get? ["w"] = some .directory ∧ Bare nested ["w"]) ∧
    (shallow.files nested).Pairwise (fun p q => p.compare q = .lt) ∧
    ∀ p, p ∈ shallow.files nested ↔ p = ⟨"/w/a.ts"⟩ ∨ p = ⟨"/w/src/b.ts"⟩ := by
  have ht : nested.Grounded := FileTree.grounded_of_entries (by decide) rfl nofun
  have hroot : nested.resolve shallow.root = .ok ["w"] := by
    have hparts : shallow.root.parts = [.root, .name "w"] := by decide
    have hleads : Leads nested FileTree.linkLimit [] shallow.root.parts ["w"] := by
      rw [hparts]
      exact .root (.enter (e := .directory) rfl rfl (by simp) .done)
    exact hleads.follow false
  have hbare : Bare nested ["w"] := bare_of_entries (by simp [nested]) (by decide) _
  obtain ⟨hsorted, hfiles⟩ := files_of_bare ht hroot rfl hbare
  refine ⟨⟨ht, hroot, rfl, hbare⟩, hsorted, fun p => (hfiles p).trans ⟨?_, ?_⟩⟩
  · rintro ⟨dirs, n, rfl, ⟨bytes, hfile⟩, hwanted, hentered, hdepth⟩
    have hplace : dirs = [] ∧ n = "a.ts" ∨ dirs = ["src"] ∧ n = "b.ts" ∨
        dirs = ["src"] ∧ n = "b.md" ∨ dirs = ["src", "deep"] ∧ n = "c.ts" ∨
        dirs = ["out"] ∧ n = "d.ts" := by
      have hplaces : ∀ e ∈ nested.entries, e.2 = .directory ∨ (e.1.tail.dropLast, e.1.tail.getLast?) ∈
          [([], some "a.ts"), (["src"], some "b.ts"), (["src"], some "b.md"),
            (["src", "deep"], some "c.ts"), (["out"], some "d.ts")] := by decide
      simpa using hplaces _ (mem_entries_of_get? hfile)
    rcases hplace with ⟨rfl, rfl⟩ | ⟨rfl, rfl⟩ | ⟨rfl, rfl⟩ | ⟨rfl, rfl⟩ | ⟨rfl, rfl⟩
    · exact .inl (by decide)
    · exact .inr (by decide)
    · exact absurd hwanted (by decide)
    · exact absurd hdepth (by decide)
    · exact absurd hentered (by decide)
  · rintro (rfl | rfl)
    · exact ⟨[], "a.ts", by decide, ⟨_, rfl⟩, by decide, by decide, by decide⟩
    · exact ⟨["src"], "b.ts", by decide, ⟨_, rfl⟩, by decide, by decide, by decide⟩

end Walk

end Mend
