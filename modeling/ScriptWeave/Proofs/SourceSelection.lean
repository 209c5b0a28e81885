import ScriptWeave.Proofs.Runs
import ScriptWeave.Proofs.Sifting
import ScriptWeave.Sources

namespace ScriptWeave.Sources

open Attempt

variable {h : Host} {primary : Path} {paths imported : List Path} {resolved : Path → Path}

theorem on_selectFrom_of_resolves
    (hresolves : ∀ p ∈ paths, h.tree.resolve h.directory p = .ok (resolved p)) (seen : List Path) :
    (selectFrom seen paths).on h =
      (.ok (firsts resolved seen (paths.filter Path.isMergeable)), h) := by
  induction paths generalizing seen with
  | nil => rfl
  | cons p paths ih =>
      obtain ⟨hp, hmore⟩ := List.forall_mem_cons.mp hresolves
      have hon : (resolve p).on h = (.ok (resolved p), h) := congrArg (·, h) hp
      rw [selectFrom]
      split
      · rename_i hmergeable
        rw [on_bind_of_ok hon, List.filter_cons_of_pos hmergeable, firsts]
        split
        · exact ih hmore seen
        · rw [on_bind_of_ok (ih hmore _), on_pure]
      · rename_i hmergeable
        rw [List.filter_cons_of_neg hmergeable]
        exact ih hmore seen

theorem on_select_of_resolves
    (hresolves : ∀ p ∈ primary :: imported, h.tree.resolve h.directory p = .ok (resolved p)) :
    (select (primary :: imported)).on h =
      (.ok (primary :: firsts resolved [resolved primary] (imported.filter Path.isMergeable)),
        h) := by
  obtain ⟨hprimary, himported⟩ := List.forall_mem_cons.mp hresolves
  have hon : (resolve primary).on h = (.ok (resolved primary), h) := congrArg (·, h) hprimary
  rw [select, on_bind_of_ok hon, on_bind_of_ok (on_selectFrom_of_resolves himported _), on_pure]

theorem mem_of_mem_kept {p : Path} {seen : List Path}
    (hp : p ∈ primary :: firsts resolved seen (imported.filter Path.isMergeable)) :
    p ∈ primary :: imported := by
  rcases List.mem_cons.mp hp with rfl | hp
  · exact List.mem_cons_self
  · exact List.mem_cons_of_mem _ (List.mem_filter.mp (firsts_sublist.subset hp)).1

/-- The primary script is selected, and in their order the later paths that are mergeable and lead
neither to its file nor to that of a mergeable path in front of them. -/
theorem selects_first_of_each
    (hresolves : ∀ p ∈ primary :: imported, h.tree.resolve h.directory p = .ok (resolved p)) :
    ∃ selected,
      (select (primary :: imported)).on h = (.ok (primary :: selected), h) ∧
      selected = sift (fun front p => p.isMergeable ∧ resolved p ≠ resolved primary ∧
        ∀ q ∈ front, q.isMergeable → resolved q ≠ resolved p) [] imported ∧
      ((primary :: selected).map resolved).Nodup ∧
      (select (primary :: selected)).on h = (.ok (primary :: selected), h) := by
  have hkept : ∀ p ∈ firsts resolved [resolved primary] (imported.filter Path.isMergeable),
      p.isMergeable = true :=
    fun p hp => (List.mem_filter.mp (firsts_sublist.subset hp)).2
  refine ⟨_, on_select_of_resolves hresolves, ?_, ?_, ?_⟩
  · simp only [firsts_filter, List.mem_singleton, ne_eq]
  · rw [List.map_cons, List.nodup_cons]
    exact ⟨fun hmem => (mem_keys_firsts_iff.mp hmem).2 List.mem_cons_self, nodup_keys_firsts⟩
  · rw [on_select_of_resolves]
    · rw [List.filter_eq_self.mpr hkept, firsts_firsts]
    · exact fun p hp => hresolves p (mem_of_mem_kept hp)

def linkedSources : Host where
  tree := ⟨[(["s".toList], .directory), (["s".toList, "x.attr.g.cs".toList], .file [] false),
    (["s".toList, "b.cs".toList], .file [] false),
    (["s".toList, "x.cs".toList], .link "x.attr.g.cs"),
    (["s".toList, "dbg.inject.b.cs".toList], .link "/s/b.cs"),
    (["s".toList, "c.cs".toList], .link "../s/b.cs")]⟩
  directory := ["s".toList]

/-- The primary script has a generated name and comes again under another one, and the first path to
the second file is no mergeable one. -/
theorem selects_first_of_each_links :
    let resolved (p : Path) : Path :=
      (linkedSources.tree.resolve linkedSources.directory p).toOption.getD p
    let primary : Path := "x.attr.g.cs"
    let imported : List Path := ["x.cs", "dbg.inject.b.cs", "/s/b.cs", "c.cs", "missing.cs"]
    (∀ p ∈ primary :: imported,
      linkedSources.tree.resolve linkedSources.directory p = .ok (resolved p)) ∧
    (select (primary :: imported)).on linkedSources =
      (.ok [primary, "/s/b.cs", "missing.cs"], linkedSources) ∧
    (select [primary, "/s/b.cs", "missing.cs"]).on linkedSources =
      (.ok [primary, "/s/b.cs", "missing.cs"], linkedSources) := by
  intro resolved primary imported
  have hresolves : ∀ p ∈ primary :: imported,
      linkedSources.tree.resolve linkedSources.directory p = .ok (resolved p) := by
    decide +kernel
  obtain ⟨selected, hon, hsift, -, hagain⟩ := selects_first_of_each hresolves
  obtain rfl : selected = ["/s/b.cs", "missing.cs"] := hsift.trans (by decide +kernel)
  exact ⟨hresolves, hon, hagain⟩

end ScriptWeave.Sources
