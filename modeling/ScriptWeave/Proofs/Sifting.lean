import Mathlib.Data.List.Perm.Basic

namespace ScriptWeave

variable {α κ : Type}

/-- The elements that pass a test which sees the elements in front of them, too. -/
def sift (test : List α → α → Bool) (front : List α) : List α → List α
  | [] => []
  | x :: xs =>
      if test front x then x :: sift test (front ++ [x]) xs else sift test (front ++ [x]) xs

variable [DecidableEq κ] {key : α → κ} {seen : List κ} {xs ys : List α}

def firsts (key : α → κ) (seen : List κ) : List α → List α
  | [] => []
  | x :: xs => if key x ∈ seen then firsts key seen xs else x :: firsts key (key x :: seen) xs

theorem firsts_sublist : (firsts key seen xs).Sublist xs := by
  induction xs generalizing seen with
  | nil => exact .slnil
  | cons x xs ih =>
      rw [firsts]
      split
      · exact ih.cons x
      · exact ih.cons_cons x

theorem mem_keys_firsts_iff {k : κ} :
    k ∈ (firsts key seen xs).map key ↔ k ∈ xs.map key ∧ k ∉ seen := by
  induction xs generalizing seen with
  | nil => simp [firsts]
  | cons x xs ih =>
      rw [firsts, List.map_cons, List.mem_cons]
      split
      · rename_i hseen
        rw [ih]
        constructor
        · exact fun ⟨hmem, hk⟩ => ⟨.inr hmem, hk⟩
        · rintro ⟨rfl | hmem, hk⟩
          · exact absurd hseen hk
          · exact ⟨hmem, hk⟩
      · rename_i hnew
        rw [List.map_cons, List.mem_cons, ih, List.mem_cons, not_or]
        constructor
        · rintro (rfl | ⟨hmem, -, hk⟩)
          · exact ⟨.inl rfl, hnew⟩
          · exact ⟨.inr hmem, hk⟩
        · rintro ⟨hmem, hk⟩
          by_cases hfirst : k = key x
          · exact .inl hfirst
          · exact .inr ⟨hmem.resolve_left hfirst, hfirst, hk⟩

theorem nodup_keys_firsts : ((firsts key seen xs).map key).Nodup := by
  induction xs generalizing seen with
  | nil => exact .nil
  | cons x xs ih =>
      rw [firsts]
      split
      · exact ih
      · rw [List.map_cons, List.nodup_cons]
        exact ⟨fun hmem => (mem_keys_firsts_iff.mp hmem).2 List.mem_cons_self, ih⟩

theorem firsts_of_nodup (hnodup : (xs.map key).Nodup) (hnew : ∀ x ∈ xs, key x ∉ seen) :
    firsts key seen xs = xs := by
  induction xs generalizing seen with
  | nil => rfl
  | cons x xs ih =>
      obtain ⟨hfirst, hmore⟩ := List.nodup_cons.mp hnodup
      rw [firsts, if_neg (hnew x List.mem_cons_self), ih hmore]
      intro y hy hseen
      rcases List.mem_cons.mp hseen with hsame | hseen
      · exact hfirst (hsame ▸ List.mem_map_of_mem hy)
      · exact hnew y (List.mem_cons_of_mem x hy) hseen

theorem firsts_firsts : firsts key seen (firsts key seen xs) = firsts key seen xs :=
  firsts_of_nodup nodup_keys_firsts fun _ hx =>
    (mem_keys_firsts_iff.mp (List.mem_map_of_mem hx)).2

theorem keys_firsts_perm (h : xs.Perm ys) :
    ((firsts key seen xs).map key).Perm ((firsts key seen ys).map key) := by
  rw [List.perm_ext_iff_of_nodup nodup_keys_firsts nodup_keys_firsts]
  intro k
  rw [mem_keys_firsts_iff, mem_keys_firsts_iff, (h.map key).mem_iff]

theorem firsts_congr {seen' : List κ} (h : ∀ k, k ∈ seen ↔ k ∈ seen') :
    firsts key seen xs = firsts key seen' xs := by
  induction xs generalizing seen seen' with
  | nil => rfl
  | cons x xs ih =>
      have hmore : firsts key (key x :: seen) xs = firsts key (key x :: seen') xs :=
        ih fun k => by rw [List.mem_cons, List.mem_cons, h]
      simp only [firsts, h, ih h, hmore]

theorem firsts_filter_behind (wanted : α → Bool) (front : List α) :
    firsts key ((front.filter wanted).map key ++ seen) (xs.filter wanted) =
      sift (fun front x => wanted x ∧ key x ∉ seen ∧ ∀ y ∈ front, wanted y → key y ≠ key x)
        front xs := by
  induction xs generalizing front with
  | nil => rfl
  | cons x xs ih =>
      have hpasses : (wanted x = true ∧ key x ∉ seen ∧
          ∀ y ∈ front, wanted y = true → key y ≠ key x) ↔
            wanted x = true ∧ key x ∉ (front.filter wanted).map key ++ seen := by
        simp only [List.mem_append, List.mem_map, List.mem_filter, not_or, not_exists, not_and,
          and_imp]
        exact and_congr_right fun _ => and_comm
      simp only [sift, hpasses, decide_eq_true_eq, ← ih]
      by_cases hwanted : wanted x = true
      · have htaken : ∀ k, k ∈ ((front ++ [x]).filter wanted).map key ++ seen ↔
            k ∈ key x :: ((front.filter wanted).map key ++ seen) := by
          intro k
          rw [List.filter_append, List.filter_cons_of_pos hwanted]
          simp only [List.filter_nil, List.map_append, List.map_cons, List.map_nil,
            List.append_assoc, List.mem_append, List.mem_cons, List.not_mem_nil, or_false]
          exact or_left_comm
        rw [List.filter_cons_of_pos hwanted, firsts]
        by_cases hmem : key x ∈ (front.filter wanted).map key ++ seen
        · rw [if_pos hmem, if_neg fun hnew => hnew.2 hmem]
          refine firsts_congr fun k => ?_
          rw [htaken, List.mem_cons]
          exact ⟨.inr, fun hk => hk.elim (fun hsame => hsame ▸ hmem) id⟩
        · rw [if_neg hmem, if_pos ⟨hwanted, hmem⟩, firsts_congr htaken]
      · rw [List.filter_cons_of_neg hwanted, if_neg fun hpass => hwanted hpass.1,
          List.filter_append, List.filter_cons_of_neg hwanted, List.filter_nil, List.append_nil]

theorem firsts_filter (wanted : α → Bool) :
    firsts key seen (xs.filter wanted) =
      sift (fun front x => wanted x ∧ key x ∉ seen ∧ ∀ y ∈ front, wanted y → key y ≠ key x)
        [] xs :=
  firsts_filter_behind wanted []

end ScriptWeave
