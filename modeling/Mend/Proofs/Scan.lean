import Mend.Proofs.Rule.Distinct
import Mend.Scan

/-!
# Fingerprints of findings

A fingerprint tells the place of a finding in its file (`Rule.nodup_findings`) and the rule that
made it (`Rule.of_mem_findings`). A scan of a file has a fingerprint twice only where it runs a
rule twice, because its category was chosen twice, or where a rule finds a place twice
(`Scan.nodup_content`).
-/

namespace Mend

namespace Rule

variable {ctx : Context}

/-- Findings of one rule at different offsets have different fingerprints. -/
theorem nodup_findings (hctx : ctx.Indexed) {r : Rule} (hr : r.Distinct ctx) {found : List Finding}
    (h : r.findings ctx = .ok found) : (found.map Finding.fingerprint).Nodup := by
  obtain ⟨ds, hds, rfl⟩ := findings_eq_ok h
  have hoffsets := hr ds hds
  rw [List.nodup_iff_pairwise_ne, List.pairwise_map] at hoffsets
  rw [List.map_map, List.nodup_iff_pairwise_ne, List.pairwise_map]
  refine hoffsets.imp fun {d d'} hne hsame => hne ?_
  have hline : ctx.index.lineOf d.offset = ctx.index.lineOf d'.offset :=
    congrArg Finding.Fingerprint.line hsame
  have hcolumn : ctx.index.columnOf d.offset = ctx.index.columnOf d'.offset :=
    Option.some.inj (congrArg Finding.Fingerprint.column hsame)
  rw [show ctx.index = .of ctx.masked from hctx] at hline hcolumn
  exact Text.LineIndex.eq_of_position hline hcolumn

/-- Rules with different ids make findings with different fingerprints. -/
theorem nodup_flatten (hctx : ctx.Indexed) {rules : List Rule} {lists : List (List Finding)}
    (h : List.Forall₂ (fun r found => r.findings ctx = .ok found) rules lists)
    (hids : (rules.map id).Nodup) (hrules : ∀ r ∈ rules, r.Distinct ctx) :
    (lists.flatten.map Finding.fingerprint).Nodup ∧
      ∀ f ∈ lists.flatten, f.rule ∈ rules.map id := by
  induction h with
  | nil => simp
  | @cons r found rules lists hfound _ ih =>
    obtain ⟨hid, hids⟩ := List.nodup_cons.mp hids
    obtain ⟨hr, hrules⟩ := List.forall_mem_cons.mp hrules
    obtain ⟨hnodup, hlater⟩ := ih hids hrules
    rw [List.flatten_cons, List.map_append, List.nodup_append]
    refine ⟨⟨nodup_findings hctx hr hfound, hnodup, ?_⟩, fun f hf => ?_⟩
    · intro p hp q hq hsame
      obtain ⟨f, hf, rfl⟩ := List.mem_map.mp hp
      obtain ⟨g, hg, rfl⟩ := List.mem_map.mp hq
      have hrule : f.rule = g.rule := congrArg Finding.Fingerprint.rule hsame
      rw [(of_mem_findings hfound hf).1] at hrule
      exact hid (hrule ▸ hlater g hg)
    · rcases List.mem_append.mp hf with hf | hf
      · rw [(of_mem_findings hfound hf).1]
        exact List.mem_cons_self
      · exact List.mem_cons_of_mem _ (hlater f hf)

theorem eq_of_id {r r' : Rule} (hr : r ∈ catalogue) (hr' : r' ∈ catalogue) (h : r.id = r'.id) :
    r = r' :=
  List.inj_on_of_nodup_map nodup_map_id hr hr' h

theorem nodup_ofCategories (platform : Platform) {cs : List Category} (h : cs.Nodup) :
    ((ofCategories platform cs).map id).Nodup := by
  rw [ofCategories, List.map_flatMap, List.nodup_flatMap]
  constructor
  · exact fun c _ => nodup_map_id.sublist (List.filter_sublist.map _)
  · refine (List.nodup_iff_pairwise_ne.mp h).imp fun {c c'} hne n hn hn' => hne ?_
    obtain ⟨r, hr, rfl⟩ := List.mem_map.mp hn
    obtain ⟨r', hr', hsame⟩ := List.mem_map.mp hn'
    simp only [List.mem_filter, Bool.and_eq_true, decide_eq_true_eq] at hr hr'
    have hcategory := congrArg category (eq_of_id hr.1 hr'.1 hsame.symm)
    exact hr.2.2.symm.trans (hcategory.trans hr'.2.2)

end Rule

namespace ScanOptions

/-- No category is chosen twice. -/
def ChoosesOnce (o : ScanOptions) : Prop := ∀ cs, o.categories = some cs → cs.Nodup

variable {o : ScanOptions}

theorem nodup_effectiveCategories (ho : o.ChoosesOnce) : o.effectiveCategories.Nodup := by
  have hchosen : (o.categories.getD (Category.all.filter (· != .controlFlow))).Nodup := by
    cases hcs : o.categories with
    | none => decide
    | some cs => exact ho cs hcs
  rw [effectiveCategories]
  split
  · split
    · exact hchosen
    · next hnew => exact List.concat_eq_append ▸ hchosen.concat (by simpa using hnew)
  · exact hchosen.filter _

theorem nodup_rules (ho : o.ChoosesOnce) (platform : Platform) :
    ((o.rules platform).map Rule.id).Nodup :=
  (Rule.nodup_ofCategories platform (nodup_effectiveCategories ho)).sublist
    (List.filter_sublist.map _)

theorem mem_catalogue_of_mem_rules {platform : Platform} {r : Rule} (h : r ∈ o.rules platform) :
    r ∈ Rule.catalogue :=
  have ⟨_, _, hr⟩ := List.mem_flatMap.mp (List.mem_filter.mp h).1
  (List.mem_filter.mp hr).1

end ScanOptions

namespace Scan

/-- No rule finds a place of the file in two blocks; in a file of no known language, none finds
anything. -/
def Untangled (path : Path) (content : String) (platform : Platform) : Prop :=
  ∀ ctx, Context.of? path content platform = some ctx → Rule.Untangled ctx

instance (path : Path) (content : String) (platform : Platform) :
    Decidable (Untangled path content platform) :=
  match h : Context.of? path content platform with
  | none => .isTrue fun ctx hctx => by simp [h] at hctx
  | some ctx => decidable_of_iff (Rule.Untangled ctx)
      ⟨fun hctx ctx' h' => by rwa [← Option.some.inj (h.symm.trans h')], fun hall => hall ctx h⟩

variable {path : Path} {text : String} {platform : Platform} {o : ScanOptions}
  {found : List Finding}

theorem untangled_of_ne_ios (h : platform ≠ .ios) : Untangled path text platform := by
  intro ctx hctx hios
  obtain ⟨language, -, rfl⟩ := Option.map_eq_some_iff.mp hctx
  exact absurd hios h

theorem nodup_run (ho : o.ChoosesOnce) (hfile : Untangled path text platform)
    (h : run (o.rules platform) path text platform = .ok found) :
    (found.map Finding.fingerprint).Nodup := by
  rcases run_eq_ok h with ⟨-, rfl⟩ | ⟨ctx, lists, hctx, rfl, hlists⟩
  · exact List.nodup_nil
  · have hindexed := Context.indexed_of? hctx
    refine (Rule.nodup_flatten hindexed hlists ?_ fun r hr => ?_).1
    · exact (o.nodup_rules ho platform).sublist (List.filter_sublist.map _)
    · obtain ⟨hr, happlies⟩ := List.mem_filter.mp hr
      exact Rule.distinct_of_mem_catalogue hindexed (hfile ctx hctx)
        (ScanOptions.mem_catalogue_of_mem_rules hr) happlies

/-- To list findings neither adds nor doubles any. -/
theorem nodup_listed (o : ScanOptions) (h : (found.map Finding.fingerprint).Nodup) :
    (((listed o found).take o.maxIssues).map Finding.fingerprint).Nodup := by
  have hsorted : ((listed o found).map Finding.fingerprint).Nodup :=
    ((List.mergeSort_perm _ _).map _).nodup_iff.mpr (h.sublist (List.filter_sublist.map _))
  exact hsorted.sublist ((List.take_sublist _ _).map _)

theorem nodup_content (ho : o.ChoosesOnce) (hfile : Untangled path text platform)
    (h : content path text platform o = .ok found) : (found.map Finding.fingerprint).Nodup := by
  simp only [content, bind, Except.bind] at h
  split at h
  · cases h
  · next all hall =>
    obtain rfl := Except.ok.inj h
    exact nodup_listed o (nodup_run ho hfile hall)

/-- Where nothing is too mild and there is room enough, listing only orders. -/
theorem perm_content (path : Path) (text : String) (platform : Platform) (o : ScanOptions)
    (prints : List Finding.Fingerprint) (hmild : o.minSeverity = none)
    (hfew : prints.length ≤ o.maxIssues)
    (h : (run (o.rules platform) path text platform).map (List.map Finding.fingerprint) =
      .ok prints) :
    ∃ found, content path text platform o = .ok found ∧
      (found.map Finding.fingerprint).Perm prints := by
  obtain ⟨all, hrun, rfl⟩ := exists_of_map h
  have hlength : (listed o all).length ≤ o.maxIssues := by simpa [listed, hmild] using hfew
  refine ⟨_, by rw [content, hrun]; rfl, ?_⟩
  rw [List.take_of_length_le hlength]
  simpa [listed, hmild] using (List.mergeSort_perm all Finding.listedBefore).map _

end Scan

end Mend
