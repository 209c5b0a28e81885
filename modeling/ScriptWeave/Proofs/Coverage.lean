import Mathlib.Data.List.Nodup
import ScriptWeave.Proofs.Header.Overlap
import ScriptWeave.Proofs.Originals

/-!
A merge loses nothing and doubles nothing. How many lines of the merged document are traced to a
line of a fragment is counted piece by piece, and fragments with paths of their own do not count
for each other. With hoisting every line of an imported fragment is there once, except for a line
that header and body share, of which the document holds two pieces; without hoisting the body
alone is there.
-/

namespace ScriptWeave

open Header (SharedLine)

/-- How many lines of the document are traced to a line of a file. -/
def Document.hits (d : Document) (file : Text) (line : Int) : Nat :=
  (List.range d.lines.length).countP fun i : Nat => d.ranges.trace i = some (file, line)

/-- How many lines of the piece come from a line of a file. -/
def Piece.hits (p : Piece) (file : Text) (line : Int) : Nat := p.origins.count (some (file, line))

theorem countP_range_join (origins : List (Option (Text × Int))) (a : Text × Int) :
    (List.range origins.length).countP (fun i => origins[i]?.join = some a) =
      origins.count (some a) := by
  have horigins : (List.range origins.length).map (fun i => origins[i]?.join) = origins := by
    refine List.ext_getElem (by simp) fun i hi hi' => ?_
    simp [List.getElem?_eq_getElem hi']
  conv_rhs => rw [← horigins, List.count, List.countP_map]
  refine List.countP_congr fun i _ => ?_
  simp

theorem Document.hits_ofAdditions (as : List Addition) (file : Text) (line : Int) :
    (ofAdditions as).hits file line = (Addition.allOrigins as).count (some (file, line)) := by
  rw [hits, ← countP_range_join, Addition.length_allOrigins]
  simp only [trace_ofAdditions]
  rfl

def hitsOf (ps : List Piece) (file : Text) (line : Int) : Nat :=
  (Addition.allOrigins (spread ps)).count (some (file, line))

theorem hitsOf_append (ps qs : List Piece) (file : Text) (line : Int) :
    hitsOf (ps ++ qs) file line = hitsOf ps file line + hitsOf qs file line := by
  rw [hitsOf, spread_append, Addition.allOrigins_append, List.count_append, hitsOf, hitsOf]

theorem hitsOf_cons (p : Piece) (ps : List Piece) (file : Text) (line : Int) :
    hitsOf (p :: ps) file line = p.hits file line + hitsOf ps file line := by
  have hmarkers : (p.markers.map fun _ => (none : Option (Text × Int))).count
      (some (file, line)) = 0 := by
    rw [List.count_eq_zero]
    simp
  rw [hitsOf, spread_cons, Addition.allOrigins_append, Piece.allOrigins_additions,
    List.count_append, List.count_append, hmarkers, Nat.zero_add, hitsOf, Piece.hits]

theorem Piece.hits_eq (p : Piece) (file : Text) (line : Int) :
    p.hits file line =
      if p.fragment.path = file ∧ (p.offset : Int) ≤ line ∧ line < p.offset + p.lines.length
      then 1 else 0 := by
  have hnodup : p.origins.Nodup := by
    refine List.Nodup.map (fun j j' heq => ?_) List.nodup_range
    simp only [Option.some.injEq, Prod.mk.injEq, true_and] at heq
    omega
  rw [hits, hnodup.count]
  refine if_congr ?_ rfl rfl
  simp only [origins, List.mem_map, List.mem_range, Option.some.injEq, Prod.mk.injEq]
  constructor
  · rintro ⟨j, hj, hpath, hline⟩
    exact ⟨hpath, by omega, by omega⟩
  · rintro ⟨hpath, hlow, hhigh⟩
    exact ⟨(line - p.offset).toNat, by omega, hpath, by omega⟩

theorem Piece.hits_of_ne {p : Piece} {file : Text} (h : p.fragment.path ≠ file) (line : Int) :
    p.hits file line = 0 := by
  rw [hits_eq, if_neg fun hhit => h hhit.1]

theorem hitsOf_of_ne {ps : List Piece} {file : Text} (h : ∀ p ∈ ps, p.fragment.path ≠ file)
    (line : Int) : hitsOf ps file line = 0 := by
  induction ps with
  | nil => rfl
  | cons p ps ih =>
      obtain ⟨hp, hps⟩ := List.forall_mem_cons.mp h
      rw [hitsOf_cons, Piece.hits_of_ne hp, ih hps]

theorem hitsOf_import {imports : List Import} {i : Import} {piece : Import → Piece}
    (hpiece : ∀ k, (piece k).fragment = k.fragment)
    (hdistinct : (imports.map fun k => k.fragment.path).Nodup) (hi : i ∈ imports) (line : Int) :
    hitsOf (imports.map piece) i.fragment.path line = (piece i).hits i.fragment.path line := by
  obtain ⟨front, back, rfl⟩ := List.append_of_mem hi
  rw [List.map_append, List.map_cons, List.nodup_append, List.nodup_cons] at hdistinct
  obtain ⟨-, ⟨hback, -⟩, hfront⟩ := hdistinct
  have hapartFront : ∀ p ∈ front.map piece, p.fragment.path ≠ i.fragment.path := by
    intro p hp
    obtain ⟨k, hk, rfl⟩ := List.mem_map.mp hp
    rw [hpiece]
    exact hfront _ (List.mem_map_of_mem hk) _ List.mem_cons_self
  have hapartBack : ∀ p ∈ back.map piece, p.fragment.path ≠ i.fragment.path := by
    intro p hp heq
    obtain ⟨k, hk, rfl⟩ := List.mem_map.mp hp
    rw [hpiece] at heq
    exact hback (heq ▸ List.mem_map_of_mem hk)
  rw [List.map_append, List.map_cons, hitsOf_append, hitsOf_cons, hitsOf_of_ne hapartFront,
    hitsOf_of_ne hapartBack, Nat.zero_add, Nat.add_zero]

theorem hits_merge (hoist : Bool) (primary : Fragment) (imports : List Import) (file : Text)
    (line : Int) :
    (Document.ofAdditions (spread (pieces hoist primary imports))).hits file line =
      hitsOf (if hoist then imports.map .header else []) file line +
        ((Piece.whole primary).hits file line + hitsOf (imports.map .body) file line) := by
  rw [Document.hits_ofAdditions, ← hitsOf, pieces, hitsOf_append, hitsOf_cons]

theorem hits_import {primary : Fragment} {imports : List Import} {i : Import}
    (hdistinct : ((primary :: imports.map Import.fragment).map Fragment.path).Nodup)
    (hi : i ∈ imports) (hoist : Bool) (line : Int) :
    (Document.ofAdditions (spread (pieces hoist primary imports))).hits i.fragment.path line =
      (if hoist then (Piece.header i).hits i.fragment.path line else 0) +
        (Piece.body i).hits i.fragment.path line := by
  rw [List.map_cons, List.map_map, List.nodup_cons] at hdistinct
  obtain ⟨hprimary, himports⟩ := hdistinct
  have hapart : primary.path ≠ i.fragment.path :=
    fun heq => hprimary (heq ▸ List.mem_map_of_mem hi)
  have hwhole : (Piece.whole primary).hits i.fragment.path line = 0 :=
    Piece.hits_of_ne (p := .whole primary) hapart line
  rw [hits_merge, hwhole, Nat.zero_add, hitsOf_import (fun _ => rfl) himports hi]
  cases hoist with
  | false => rfl
  | true => rw [if_pos rfl, if_pos rfl, hitsOf_import (fun _ => rfl) himports hi]

theorem hits_primary {primary : Fragment} {imports : List Import}
    (hdistinct : ((primary :: imports.map Import.fragment).map Fragment.path).Nodup)
    (hoist : Bool) (line : Int) :
    (Document.ofAdditions (spread (pieces hoist primary imports))).hits primary.path line =
      (Piece.whole primary).hits primary.path line := by
  rw [List.map_cons, List.map_map, List.nodup_cons] at hdistinct
  have hapart (piece : Import → Piece) (hpiece : ∀ k, (piece k).fragment = k.fragment) :
      ∀ p ∈ imports.map piece, p.fragment.path ≠ primary.path := by
    intro p hp heq
    obtain ⟨k, hk, rfl⟩ := List.mem_map.mp hp
    rw [hpiece] at heq
    exact hdistinct.1 (heq ▸ List.mem_map_of_mem hk)
  rw [hits_merge, hitsOf_of_ne (hapart .body fun _ => rfl), Nat.add_zero]
  cases hoist with
  | false => exact Nat.zero_add _
  | true => rw [if_pos rfl, hitsOf_of_ne (hapart .header fun _ => rfl), Nat.zero_add]

theorem hits_header (i : Import) (line : Int) :
    (Piece.header i).hits i.fragment.path line =
      if 0 ≤ line ∧ line < i.split.headerLines.length then 1 else 0 := by
  rw [Piece.hits_eq]
  exact if_congr (by simp [Piece.fragment, Piece.offset, Piece.lines]) rfl rfl

theorem hits_whole (f : Fragment) (line : Int) :
    (Piece.whole f).hits f.path line = if 0 ≤ line ∧ line < f.lines.length then 1 else 0 := by
  rw [Piece.hits_eq]
  exact if_congr (by simp [Piece.fragment, Piece.offset, Piece.lines]) rfl rfl

theorem hits_body (i : Import) (line : Int) :
    (Piece.body i).hits i.fragment.path line =
      if (i.split.lineCount : Int) ≤ line ∧ line < i.split.lineCount + i.split.bodyLines.length
      then 1 else 0 := by
  rw [Piece.hits_eq]
  exact if_congr (by simp [Piece.fragment, Piece.offset, Piece.lines]) rfl rfl

theorem exists_standsAt_header_body {imports : List Import} {i : Import} (primary : Fragment)
    (hi : i ∈ imports) {j j' : Nat} (hj : j < i.split.headerLines.length)
    (hj' : j' < i.split.bodyLines.length) :
    ∃ a b, a < b ∧ StandsAt (pieces true primary imports) (.header i) j a ∧
      StandsAt (pieces true primary imports) (.body i) j' b := by
  obtain ⟨front, back, rfl⟩ := List.append_of_mem hi
  refine ⟨_, _, ?_,
    ⟨front.map .header, back.map .header ++ .whole primary :: (front ++ i :: back).map .body,
      by simp [pieces], rfl, hj⟩,
    ⟨(front ++ i :: back).map .header ++ .whole primary :: front.map .body, back.map .body,
      by simp [pieces], rfl, hj'⟩⟩
  have hheader : (Piece.header i).lines.length = i.split.headerLines.length := rfl
  have hunmarked : (Piece.header i).markers.length = 0 := rfl
  simp only [heightOf_append, heightOf, List.map_append, List.map_cons, Piece.height]
  omega

theorem merge_covers_lines_once (primary : Fragment) (imported : List Fragment)
    (headers : ∀ f ∈ imported, ∃ s, Header.split f.text = .ok s)
    (distinct : ((primary :: imported).map Fragment.path).Nodup) :
    (∀ t s, Header.split t = .ok s → ∃ gap, t = s.header ++ gap ++ s.body ∧
      (∀ c ∈ gap, Text.isBlank c = true) ∧ Text.countLineBreaks gap ≤ 1) ∧
    ∃ hoisted plain, merge true primary imported = .ok hoisted ∧
      merge false primary imported = .ok plain ∧
      (∀ f ∈ imported, ∃ s, Header.split f.text = .ok s ∧
        (∀ line : Int, hoisted.hits f.path line =
          if 0 ≤ line ∧ line < f.lines.length then if SharedLine f.text s line then 2 else 1
          else 0) ∧
        (∀ line : Int, plain.hits f.path line =
          if s.body ≠ [] ∧ (s.lineCount : Int) ≤ line ∧ line < f.lines.length then 1 else 0) ∧
        ∀ line : Nat, SharedLine f.text s line →
          ∃ (a b : Nat) (front gap back : Text), a < b ∧
            hoisted.ranges.trace a = some (f.path, (line : Int)) ∧
            hoisted.ranges.trace b = some (f.path, (line : Int)) ∧
            hoisted.lines[a]? = some front ∧ s.headerLines[line]? = some front ∧
            hoisted.lines[b]? = some back ∧ s.bodyLines[0]? = some back ∧
            f.lines[line]? = some (front ++ (gap ++ back)) ∧
            ∀ c ∈ gap, Text.isBlank c = true) ∧
      ∀ line : Int,
        hoisted.hits primary.path line =
          (if 0 ≤ line ∧ line < primary.lines.length then 1 else 0) ∧
        plain.hits primary.path line =
          if 0 ≤ line ∧ line < primary.lines.length then 1 else 0 := by
  refine ⟨fun t s h => ?_, ?_⟩
  · obtain ⟨space, brk, hseam⟩ := Header.split_seam h
    refine ⟨space ++ brk, hseam.text_eq, fun c hc => ?_, ?_⟩
    · rcases List.mem_append.mp hc with hc | hc
      · exact hseam.blank c hc
      · exact Header.isBlank_of_atMostOneBreak hseam.oneBreak c hc
    · rw [hseam.countLineBreaks_gap]
      split <;> omega
  · obtain ⟨imports, hread, rfl, hsplits⟩ := exists_imports headers
    refine ⟨_, _, merge_eq hread true primary, merge_eq hread false primary, ?_, fun line => ?_⟩
    · intro f hf
      obtain ⟨i, hi, rfl⟩ := List.mem_map.mp hf
      have hread := hsplits i hi
      refine ⟨i.split, hread, fun line => ?_, fun line => ?_, fun line hshared => ?_⟩
      · rw [hits_import distinct hi, if_pos rfl, hits_header, hits_body]
        exact Header.lines_covered hread line
      · rw [hits_import distinct hi, if_neg (by simp), Nat.zero_add, hits_body]
        exact if_congr (Header.mem_body_iff hread line) rfl rfl
      · obtain ⟨front, gap, back, hfront, hgap, hback, horiginal⟩ :=
          Header.shared_line hread hshared
        obtain ⟨hj, -⟩ := List.getElem?_eq_some_iff.mp hfront
        obtain ⟨hj', -⟩ := List.getElem?_eq_some_iff.mp hback
        obtain ⟨a, b, hlt, hheader, hbody⟩ := exists_standsAt_header_body primary hi hj hj'
        obtain rfl : line = i.split.lineCount := by
          have hline := hshared.2.1
          omega
        have htrace := hbody.trace
        rw [Nat.zero_add] at htrace
        exact ⟨a, b, front, gap, back, hlt, hheader.trace, htrace,
          hheader.lines_ofAdditions.trans hfront, hfront,
          hbody.lines_ofAdditions.trans hback, hback, horiginal, hgap⟩
    · rw [hits_primary distinct, hits_primary distinct, hits_whole]
      exact ⟨rfl, rfl⟩

theorem merge_covers_lines_once_shared_line :
    ((∀ f ∈ ([⟨"/lib", "using A; y\nz"⟩] : List Fragment), ∃ s, Header.split f.text = .ok s) ∧
      (([⟨"/main", "x"⟩, ⟨"/lib", "using A; y\nz"⟩] : List Fragment).map Fragment.path).Nodup) ∧
    ∃ hoisted plain, merge true ⟨"/main", "x"⟩ [⟨"/lib", "using A; y\nz"⟩] = .ok hoisted ∧
      merge false ⟨"/main", "x"⟩ [⟨"/lib", "using A; y\nz"⟩] = .ok plain ∧
      hoisted.hits "/lib" 0 = 2 ∧ hoisted.hits "/lib" 1 = 1 ∧ hoisted.hits "/lib" 2 = 0 ∧
      plain.hits "/lib" 0 = 1 ∧ plain.hits "/lib" 1 = 1 ∧ hoisted.hits "/main" 0 = 1 := by
  have hsplit : Header.split "using A; y\nz" = .ok ⟨"using A;", "y\nz", 0, ["using A;"]⟩ := rfl
  have headers : ∀ f ∈ ([⟨"/lib", "using A; y\nz"⟩] : List Fragment),
      ∃ s, Header.split f.text = .ok s := by
    intro f hf
    rw [List.mem_singleton] at hf
    subst hf
    exact ⟨_, hsplit⟩
  have distinct :
      (([⟨"/main", "x"⟩, ⟨"/lib", "using A; y\nz"⟩] : List Fragment).map Fragment.path).Nodup := by
    decide
  obtain ⟨-, hoisted, plain, hhoisted, hplain, himported, hprimary⟩ :=
    merge_covers_lines_once ⟨"/main", "x"⟩ [⟨"/lib", "using A; y\nz"⟩] headers distinct
  obtain ⟨s, hs, hhits, hhitsPlain, -⟩ := himported ⟨"/lib", "using A; y\nz"⟩ (by simp)
  obtain rfl := Except.ok.inj (hs.symm.trans hsplit)
  have hshared : SharedLine (Fragment.text ⟨"/lib", "using A; y\nz"⟩)
      ⟨"using A;", "y\nz", 0, ["using A;"]⟩ 0 :=
    ⟨by decide, rfl, rfl⟩
  have hunshared : ¬ SharedLine (Fragment.text ⟨"/lib", "using A; y\nz"⟩)
      ⟨"using A;", "y\nz", 0, ["using A;"]⟩ 1 :=
    fun h => absurd h.2.1 (by decide)
  have hlines : (Fragment.lines ⟨"/lib", "using A; y\nz"⟩).length = 2 := rfl
  have hfirst := hhits 0
  have hsecond := hhits 1
  have hthird := hhits 2
  rw [hlines, if_pos (by decide), if_pos hshared] at hfirst
  rw [hlines, if_pos (by decide), if_neg hunshared] at hsecond
  rw [hlines, if_neg (by decide)] at hthird
  have hplainFirst := hhitsPlain 0
  have hplainSecond := hhitsPlain 1
  rw [hlines, if_pos (by decide)] at hplainFirst hplainSecond
  exact ⟨⟨headers, distinct⟩, hoisted, plain, hhoisted, hplain, hfirst, hsecond, hthird,
    hplainFirst, hplainSecond, (hprimary 0).1.trans (if_pos (by decide))⟩

end ScriptWeave
