import Mathlib.Data.List.Nodup
import Mathlib.Data.List.Perm.Subperm
import Mathlib.Data.List.ProdSigma
import ScriptWeave.FileTree.Resolution
import ScriptWeave.Proofs.FileTree.Footprint

namespace ScriptWeave

open FileTree

/-! ### Spellings -/

namespace Path

theorem collapse_cons (absolute : Bool) (taken : List Text) (name : Text) (names : List Text) :
    collapse absolute taken (name :: names) =
      if name = "..".toList then
        match taken with
        | [] => collapse absolute (if absolute then [] else [name]) names
        | top :: below =>
            if top = "..".toList then collapse absolute (name :: taken) names
            else collapse absolute below names
      else collapse absolute (name :: taken) names := rfl

theorem collapse_entries (absolute : Bool) (taken : List Text) {rest : List Text}
    (hrest : ∀ name ∈ rest, NamesEntry name) :
    collapse absolute taken rest = taken.reverse ++ rest := by
  induction rest generalizing taken with
  | nil => exact (List.append_nil _).symm
  | cons name rest ih =>
      rw [collapse_cons, if_neg (hrest name List.mem_cons_self).not_up,
        ih _ fun n hn => hrest n (List.mem_cons_of_mem _ hn)]
      simp

theorem collapse_append (absolute : Bool) (taken ns : List Text) {rest : List Text}
    (hrest : ∀ name ∈ rest, NamesEntry name) :
    collapse absolute taken (ns ++ rest) = collapse absolute taken ns ++ rest := by
  induction ns generalizing taken with
  | nil => exact collapse_entries absolute taken hrest
  | cons name ns ih =>
      rw [List.cons_append, collapse_cons, collapse_cons]
      split
      · cases taken with
        | nil => exact ih _
        | cons top below =>
            dsimp only
            split
            · exact ih _
            · exact ih _
      · exact ih _

/-- A path as a resolution spells it, with so many double dots in front if it is relative. -/
def SpelledWith (p : Path) (ups : Nat) : Prop :=
  ∃ rest, (∀ name ∈ rest, NamesEntry name) ∧
    ((p.anchor = .root ∧ ups = 0 ∧ p.names = rest) ∨
      (p.anchor = .relative ∧ p.names = List.replicate ups "..".toList ++ rest))

def Spelled (p : Path) : Prop := ∃ ups, p.SpelledWith ups

variable {p q : Path} {name : Text} {ups : Nat}

theorem spelled_root : Spelled ⟨.root, []⟩ := ⟨0, [], by simp, .inl ⟨rfl, rfl, rfl⟩⟩

theorem spelled_relative : Spelled ⟨.relative, []⟩ := ⟨0, [], by simp, .inr ⟨rfl, rfl⟩⟩

theorem Spelled.start (h : q.Spelled) (p : Path) : (p.start q).Spelled := by
  rw [Path.start]
  split
  · exact spelled_root
  · exact h

theorem Spelled.next (h : p.Spelled) (hname : NamesEntry name) :
    (⟨p.anchor, p.names ++ [name]⟩ : Path).Spelled := by
  obtain ⟨ups, rest, hrest, hp⟩ := h
  have hmore : ∀ n ∈ rest ++ [name], NamesEntry n := by
    intro n hn
    rcases List.mem_append.mp hn with hn | hn
    · exact hrest n hn
    · exact List.mem_singleton.mp hn ▸ hname
  refine ⟨ups, rest ++ [name], hmore, ?_⟩
  rcases hp with ⟨hanchor, hups, hnames⟩ | ⟨hanchor, hnames⟩
  · exact .inl ⟨hanchor, hups, by rw [hnames]⟩
  · exact .inr ⟨hanchor, by rw [hnames, List.append_assoc]⟩

theorem Spelled.up (h : p.Spelled) : p.up.Spelled := by
  obtain ⟨ups, rest, hrest, hp⟩ := h
  have hdrop : ∀ n ∈ rest.dropLast, NamesEntry n := fun n hn => hrest n (List.dropLast_subset _ hn)
  rw [Path.up]
  rcases hp with ⟨hanchor, hups, hnames⟩ | ⟨hanchor, hnames⟩
  · split
    · rw [if_pos (by simp [isAbsolute, hanchor])]
      exact ⟨ups, rest, hrest, .inl ⟨hanchor, hups, hnames⟩⟩
    · rename_i last hlast
      rw [hnames] at hlast
      rw [if_neg (hrest last (List.mem_of_getLast? hlast)).not_up]
      exact ⟨ups, rest.dropLast, hdrop, .inl ⟨hanchor, hups, by rw [parent, hnames]⟩⟩
  · split
    · rename_i hnil
      rw [if_neg (by simp [isAbsolute, hanchor])]
      exact ⟨1, [], by simp, .inr ⟨hanchor, rfl⟩⟩
    · rename_i last hlast
      by_cases hempty : rest = []
      · subst hempty
        rw [hnames, List.append_nil] at hlast
        have hup : last = "..".toList := List.eq_of_mem_replicate (List.mem_of_getLast? hlast)
        rw [if_pos hup]
        refine ⟨ups + 1, [], by simp, .inr ⟨hanchor, ?_⟩⟩
        rw [hnames, hup, List.append_nil, List.append_nil, List.replicate_succ']
      · rw [hnames, List.getLast?_append_of_ne_nil _ hempty] at hlast
        rw [if_neg (hrest last (List.mem_of_getLast? hlast)).not_up]
        refine ⟨ups, rest.dropLast, hdrop, .inr ⟨hanchor, ?_⟩⟩
        rw [parent, hnames, List.dropLast_append_of_ne_nil hempty]

theorem SpelledWith.ups_eq (h : p.SpelledWith ups) : p.names.count "..".toList = ups := by
  obtain ⟨rest, hrest, hp⟩ := h
  have hnone : rest.count "..".toList = 0 := by
    rw [List.count_eq_zero]
    exact fun hmem => (hrest _ hmem).not_up rfl
  rcases hp with ⟨-, rfl, hnames⟩ | ⟨-, hnames⟩
  · rw [hnames, hnone]
  · rw [hnames, List.count_append, List.count_replicate_self, hnone, Nat.add_zero]

theorem SpelledWith.anchor_cases (h : p.SpelledWith ups) :
    (p.anchor = .root ∧ ups = 0) ∨ p.anchor = .relative := by
  obtain ⟨rest, -, ⟨hanchor, hups, -⟩ | ⟨hanchor, -⟩⟩ := h
  · exact .inl ⟨hanchor, hups⟩
  · exact .inr hanchor

theorem SpelledWith.unique {directory : Place} (hp : p.SpelledWith ups) (hq : q.SpelledWith ups)
    (hanchor : p.anchor = q.anchor)
    (hseen : (p.seenFrom directory).names = (q.seenFrom directory).names) : p = q := by
  obtain ⟨rest, hrest, hp⟩ := hp
  obtain ⟨rest', hrest', hq⟩ := hq
  obtain ⟨anchor, ns⟩ := p
  obtain ⟨anchor', ns'⟩ := q
  obtain rfl : anchor = anchor' := hanchor
  rcases hp with ⟨rfl, -, rfl⟩ | ⟨rfl, rfl⟩
  · rcases hq with ⟨-, -, rfl⟩ | ⟨hfalse, -⟩
    · have hnames : ∀ {rest}, (∀ n ∈ rest, NamesEntry n) →
          ((⟨.root, rest⟩ : Path).seenFrom directory).names = rest :=
        fun hrest => collapse_entries true [] hrest
      have hsame : ns = ns' := (hnames hrest).symm.trans (hseen.trans (hnames hrest'))
      rw [hsame]
    · simp at hfalse
  · rcases hq with ⟨hfalse, -⟩ | ⟨-, rfl⟩
    · simp at hfalse
    · have hnames : ∀ {rest}, (∀ n ∈ rest, NamesEntry n) →
          ((⟨.relative, List.replicate ups "..".toList ++ rest⟩ : Path).seenFrom directory).names =
            collapse true [] (directory ++ List.replicate ups "..".toList) ++ rest := by
        intro rest hrest
        rw [← collapse_append true [] _ hrest, List.append_assoc]
        rfl
      rw [hnames hrest, hnames hrest'] at hseen
      rw [List.append_cancel_left hseen]

theorem length_joinWith_ups (ups : Nat) (rest : List Text) :
    2 * ups ≤ (Text.joinWith ['/'] (List.replicate ups "..".toList ++ rest)).length := by
  induction ups with
  | zero => exact Nat.zero_le _
  | succ ups ih =>
      by_cases hlast : List.replicate ups "..".toList ++ rest = []
      · obtain ⟨hups, rfl⟩ := List.append_eq_nil_iff.mp hlast
        rw [List.replicate_eq_nil_iff] at hups
        rw [hups]
        exact Nat.le_refl 2
      · rw [List.replicate_succ, List.cons_append, Text.joinWith_cons_of_ne_nil _ _ hlast]
        simp only [List.length_append]
        have htwo : "..".toList.length = 2 := rfl
        omega

theorem length_le_encode (t : Text) : t.length ≤ (Text.encode t).length := by
  induction t with
  | nil => exact Nat.zero_le _
  | cons c t ih =>
      have hc := Char.utf8Size_pos c
      rw [Text.encode] at ih ⊢
      rw [List.flatMap_cons, List.length_append, String.length_utf8EncodeChar, List.length_cons]
      omega

theorem SpelledWith.ups_lt (h : p.SpelledWith ups) (hshort : isTooLong p = false) :
    2 * ups < pathLimit := by
  rw [isTooLong, decide_eq_false_iff_not, Nat.not_le] at hshort
  refine Nat.lt_of_le_of_lt ?_ (Nat.lt_of_le_of_lt (length_le_encode _) hshort)
  obtain ⟨rest, -, ⟨-, rfl, -⟩ | ⟨hanchor, hnames⟩⟩ := h
  · exact Nat.zero_le _
  · obtain ⟨anchor, ns⟩ := p
    obtain rfl : anchor = .relative := hanchor
    obtain rfl : ns = _ := hnames
    have hups := length_joinWith_ups ups rest
    rw [toText.eq_def]
    dsimp only
    split
    · rename_i hnil
      rw [hnil] at hups
      exact Nat.le_trans hups (Nat.zero_le _)
    · simpa [anchorText] using hups

end Path

/-! ### Links at work -/

namespace FileTree

variable {t t' : FileTree} {directory : Place} {p q : Path} {active : List Path}

def Links (t : FileTree) (directory : Place) (p : Path) : Prop :=
  p.Spelled ∧ ∃ target, t.linkAt? directory p = some target

/-- A spelling is known by its place, and by its double dots unless it starts at the root. -/
def spelling (directory : Place) (p : Path) : Place × Nat :=
  ((p.seenFrom directory).names, if p.anchor = .root then 0 else p.names.count "..".toList + 1)

theorem eq_of_spelling (hp : p.Spelled) (hq : q.Spelled)
    (h : spelling directory p = spelling directory q) : p = q := by
  obtain ⟨ups, hp⟩ := hp
  obtain ⟨ups', hq⟩ := hq
  obtain ⟨hseen, hcode⟩ := Prod.mk.inj h
  rw [hp.ups_eq, hq.ups_eq] at hcode
  rcases hp.anchor_cases with ⟨hanchor, rfl⟩ | hanchor
  · rcases hq.anchor_cases with ⟨hanchor', rfl⟩ | hanchor'
    · exact hp.unique hq (hanchor.trans hanchor'.symm) hseen
    · simp [hanchor, hanchor'] at hcode
  · rcases hq.anchor_cases with ⟨hanchor', rfl⟩ | hanchor'
    · simp [hanchor, hanchor'] at hcode
    · obtain rfl : ups = ups' := by simpa [hanchor, hanchor'] using hcode
      exact hp.unique hq (hanchor.trans hanchor'.symm) hseen

theorem spelling_mem (h : t.Links directory p) :
    spelling directory p ∈ t.nodes.map Prod.fst ×ˢ List.range pathLimit := by
  obtain ⟨⟨ups, hups⟩, target, hlink⟩ := h
  rw [linkAt?] at hlink
  split at hlink
  · rename_i found hnode
    split at hlink
    · simp at hlink
    · rename_i hshort
      have hplace : (p.seenFrom directory).names ∈ t.nodes.map Prod.fst := by
        rw [get?] at hnode
        split at hnode
        · simp at hnode
        · rw [Option.map_eq_some_iff] at hnode
          obtain ⟨e, hfound, -⟩ := hnode
          have hsame : e.1.same (p.seenFrom directory).names = true := by
            simpa using List.find?_some hfound
          rw [← Place.same_iff.mp hsame]
          exact List.mem_map_of_mem (List.mem_of_find?_eq_some hfound)
      have hlt := hups.ups_lt (Bool.eq_false_iff.mpr hshort)
      refine List.mem_product.mpr ⟨hplace, List.mem_range.mpr ?_⟩
      show (if p.anchor = .root then 0 else p.names.count "..".toList + 1) < pathLimit
      rw [hups.ups_eq]
      have hlimit : pathLimit = 4096 := rfl
      split <;> omega
  · simp at hlink

theorem length_le_of_links (hnodup : active.Nodup) (hlinks : ∀ p ∈ active, t.Links directory p) :
    active.length ≤ t.nodes.length * pathLimit := by
  have hcode : ∀ p ∈ active, ∀ q ∈ active, spelling directory p = spelling directory q → p = q :=
    fun p hp q hq h => eq_of_spelling (hlinks p hp).1 (hlinks q hq).1 h
  have hsub : active.map (spelling directory) ⊆ t.nodes.map Prod.fst ×ˢ List.range pathLimit := by
    intro c hc
    obtain ⟨p, hp, rfl⟩ := List.mem_map.mp hc
    exact spelling_mem (hlinks p hp)
  have hlength := (List.Nodup.subperm (List.Nodup.map_on hcode hnodup) hsub).length_le
  rwa [List.length_map, List.length_product, List.length_map, List.length_range] at hlength

/-! ### What is looked at -/

def lookNames (t : FileTree) (directory : Place)
    (look : Path → Path → List Text → Except FileError Path × List Place) :
    Path → List Text → Except FileError Path × List Place
  | here, [] => (.ok here, [])
  | here, name :: names =>
      let next : Path := ⟨here.anchor, here.names ++ [name]⟩
      if isMark name then lookNames t directory look here names
      else if name = "..".toList then lookNames t directory look here.up names
      else if name.contains '\x00' then (.error ⟨.nullCharacter, next⟩, [])
      else
        let place := (next.seenFrom directory).names
        match t.linkAt? directory next with
        | none =>
            let more := lookNames t directory look next names
            (more.1, place :: more.2)
        | some target =>
            let behind := look next ((Path.ofText target).start here) (Text.pieces (· = '/') target)
            match behind.1 with
            | .ok p =>
                let more := lookNames t directory look p names
                (more.1, place :: (behind.2 ++ more.2))
            | .error ⟨cause, p⟩ =>
                (.error ⟨cause, p.join (Path.ofText (Text.joinWith ['/'] names))⟩, place :: behind.2)

def lookWithin (t : FileTree) (directory : Place) :
    Nat → List Path → Path → List Text → Except FileError Path × List Place
  | 0, _ => lookNames t directory fun link _ _ => (.error ⟨.tooManyLinks, link⟩, [])
  | budget + 1, active => lookNames t directory fun link here names =>
      if link ∈ active then (.error ⟨.tooManyLinks, link⟩, [])
      else lookWithin t directory budget (link :: active) here names

section Looking

variable {look look' : Path → Path → List Text → Except FileError Path × List Place}
variable {jump : Path → Path → List Text → Except FileError Path}
variable {here : Path} {names : List Text}

theorem lookNames_mark {name : Text} (hname : isMark name = true) :
    lookNames t directory look here (name :: names) = lookNames t directory look here names := by
  rw [lookNames, if_pos hname]

theorem lookNames_up :
    lookNames t directory look here ("..".toList :: names) =
      lookNames t directory look here.up names := by
  rw [lookNames, if_neg (by decide), if_pos rfl]

theorem lookNames_null {name : Text} (hname : NamesEntry name)
    (hnull : name.contains '\x00' = true) :
    lookNames t directory look here (name :: names) =
      (.error ⟨.nullCharacter, ⟨here.anchor, here.names ++ [name]⟩⟩, []) := by
  rw [lookNames, if_neg (by simp [hname.not_mark]), if_neg hname.not_up, if_pos hnull]

theorem lookNames_through {name : Text} (hname : NamesEntry name)
    (hnull : name.contains '\x00' = false)
    (hlink : t.linkAt? directory ⟨here.anchor, here.names ++ [name]⟩ = none) :
    lookNames t directory look here (name :: names) =
      ((lookNames t directory look ⟨here.anchor, here.names ++ [name]⟩ names).1,
        (Path.seenFrom directory ⟨here.anchor, here.names ++ [name]⟩).names ::
          (lookNames t directory look ⟨here.anchor, here.names ++ [name]⟩ names).2) := by
  rw [lookNames, if_neg (by simp [hname.not_mark]), if_neg hname.not_up,
    if_neg (Bool.eq_false_iff.mp hnull)]
  dsimp only
  rw [hlink]

/-- The result of going on behind a link along names, once the link has been followed. -/
def lookBehind (t : FileTree) (directory : Place)
    (look : Path → Path → List Text → Except FileError Path × List Place) (names : List Text)
    (followed : Except FileError Path × List Place) : Except FileError Path × List Place :=
  match followed.1 with
  | .ok p =>
      ((lookNames t directory look p names).1, followed.2 ++ (lookNames t directory look p names).2)
  | .error ⟨cause, p⟩ =>
      (.error ⟨cause, p.join (Path.ofText (Text.joinWith ['/'] names))⟩, followed.2)

theorem lookNames_link {name target : Text} (hname : NamesEntry name)
    (hnull : name.contains '\x00' = false)
    (hlink : t.linkAt? directory ⟨here.anchor, here.names ++ [name]⟩ = some target) :
    lookNames t directory look here (name :: names) =
      ((lookBehind t directory look names (look ⟨here.anchor, here.names ++ [name]⟩
          ((Path.ofText target).start here) (Text.pieces (· = '/') target))).1,
        (Path.seenFrom directory ⟨here.anchor, here.names ++ [name]⟩).names ::
          (lookBehind t directory look names (look ⟨here.anchor, here.names ++ [name]⟩
            ((Path.ofText target).start here) (Text.pieces (· = '/') target))).2) := by
  rw [lookNames, if_neg (by simp [hname.not_mark]), if_neg hname.not_up,
    if_neg (Bool.eq_false_iff.mp hnull)]
  dsimp only
  rw [hlink, lookBehind]
  dsimp only
  cases (look ⟨here.anchor, here.names ++ [name]⟩ ((Path.ofText target).start here)
      (Text.pieces (· = '/') target)).1 with
  | ok p => rfl
  | error e => rfl

theorem mem_lookBehind {q : Place} {followed : Except FileError Path × List Place}
    (h : q ∈ followed.2) : q ∈ (lookBehind t directory look names followed).2 := by
  rw [lookBehind]
  split
  · exact List.mem_append_left _ h
  · exact h

theorem look_induction (t : FileTree) (directory : Place) {motive : Path → List Text → Prop}
    (done : ∀ here, motive here [])
    (mark : ∀ here name names, isMark name = true → motive here names → motive here (name :: names))
    (up : ∀ here names, motive here.up names → motive here ("..".toList :: names))
    (null : ∀ here name names, NamesEntry name → name.contains '\x00' = true →
      motive here (name :: names))
    (through : ∀ here name names, NamesEntry name → name.contains '\x00' = false →
      t.linkAt? directory ⟨here.anchor, here.names ++ [name]⟩ = none →
      motive ⟨here.anchor, here.names ++ [name]⟩ names → motive here (name :: names))
    (link : ∀ here name names target, NamesEntry name → name.contains '\x00' = false →
      t.linkAt? directory ⟨here.anchor, here.names ++ [name]⟩ = some target →
      (∀ p, motive p names) → motive here (name :: names))
    (here : Path) (names : List Text) : motive here names := by
  induction names generalizing here with
  | nil => exact done here
  | cons name names ih =>
      by_cases hmark : isMark name = true
      · exact mark here name names hmark (ih here)
      · by_cases hup : name = "..".toList
        · exact hup ▸ up here names (ih here.up)
        · have hname : NamesEntry name := ⟨Bool.eq_false_iff.mpr hmark, hup⟩
          cases hnull : name.contains '\x00' with
          | true => exact null here name names hname hnull
          | false =>
              cases hlink : t.linkAt? directory ⟨here.anchor, here.names ++ [name]⟩ with
              | none => exact through here name names hname hnull hlink (ih _)
              | some target => exact link here name names target hname hnull hlink ih

theorem lookNames_fst (hjump : ∀ link here names, (look link here names).1 = jump link here names)
    (here : Path) (names : List Text) :
    (lookNames t directory look here names).1 = resolveNames t directory jump here names := by
  induction names generalizing here with
  | nil => rfl
  | cons name names ih =>
      rw [lookNames, resolveNames]
      split
      · exact ih _
      · split
        · exact ih _
        · split
          · rfl
          · cases t.linkAt? directory ⟨here.anchor, here.names ++ [name]⟩ with
            | none => exact ih _
            | some target =>
                dsimp only
                rw [← hjump]
                cases (look ⟨here.anchor, here.names ++ [name]⟩ ((Path.ofText target).start here)
                    (Text.pieces (· = '/') target)).1 with
                | ok p => exact ih p
                | error e => rfl

theorem lookWithin_fst (budget : Nat) (active : List Path) (here : Path) (names : List Text) :
    (lookWithin t directory budget active here names).1 =
      resolveWithin t directory budget active here names := by
  induction budget generalizing active here names with
  | zero => exact lookNames_fst (fun _ _ _ => rfl) here names
  | succ budget ih =>
      apply lookNames_fst
      intro link here names
      split
      · rfl
      · exact ih _ _ _

/-! ### The budget -/

theorem spelled_of_lookNames
    (hlook : ∀ link here names q, here.Spelled → (look link here names).1 = .ok q → q.Spelled)
    (hhere : here.Spelled) (h : (lookNames t directory look here names).1 = .ok q) : q.Spelled := by
  induction here, names using look_induction t directory with
  | done here => exact Except.ok.inj h ▸ hhere
  | mark here name names hname ih =>
      rw [lookNames_mark hname] at h
      exact ih hhere h
  | up here names ih =>
      rw [lookNames_up] at h
      exact ih hhere.up h
  | null here name names hname hnull =>
      rw [lookNames_null hname hnull] at h
      simp at h
  | through here name names hname hnull hlink ih =>
      rw [lookNames_through hname hnull hlink] at h
      exact ih (hhere.next hname) h
  | link here name names target hname hnull hlink ih =>
      rw [lookNames_link hname hnull hlink, lookBehind] at h
      split at h
      · rename_i place hplace
        exact ih place (hlook _ _ _ _ (hhere.start _) hplace) h
      · simp at h

theorem spelled_of_lookWithin {budget : Nat} (hhere : here.Spelled)
    (h : (lookWithin t directory budget active here names).1 = .ok q) : q.Spelled := by
  induction budget generalizing active here names q with
  | zero => exact spelled_of_lookNames (fun _ _ _ _ _ hfalse => by simp at hfalse) hhere h
  | succ budget ih =>
      refine spelled_of_lookNames (fun link here names q hhere hq => ?_) hhere h
      split at hq
      · simp at hq
      · exact ih hhere hq

theorem lookNames_congr
    (hlook : ∀ link here names, t.Links directory link → here.Spelled →
      look' link here names = look link here names)
    (hspelled : ∀ link here names q, here.Spelled → (look link here names).1 = .ok q → q.Spelled)
    (hhere : here.Spelled) :
    lookNames t directory look' here names = lookNames t directory look here names := by
  induction here, names using look_induction t directory with
  | done here => rfl
  | mark here name names hname ih => rw [lookNames_mark hname, lookNames_mark hname, ih hhere]
  | up here names ih => rw [lookNames_up, lookNames_up, ih hhere.up]
  | null here name names hname hnull => rw [lookNames_null hname hnull, lookNames_null hname hnull]
  | through here name names hname hnull hlink ih =>
      rw [lookNames_through hname hnull hlink, lookNames_through hname hnull hlink,
        ih (hhere.next hname)]
  | link here name names target hname hnull hlink ih =>
      rw [lookNames_link hname hnull hlink, lookNames_link hname hnull hlink,
        hlook _ _ _ ⟨hhere.next hname, target, hlink⟩ (hhere.start _), lookBehind, lookBehind]
      split
      · rename_i place hplace
        rw [ih place (hspelled _ _ _ _ (hhere.start _) hplace)]
      · rfl

theorem mem_of_full (hnodup : active.Nodup) (hlinks : ∀ p ∈ active, t.Links directory p)
    (hfull : t.nodes.length * pathLimit ≤ active.length) (hp : t.Links directory p) :
    p ∈ active := by
  by_contra hnew
  have hmore : ∀ q ∈ p :: active, t.Links directory q := by
    intro q hq
    rcases List.mem_cons.mp hq with rfl | hq
    · exact hp
    · exact hlinks q hq
  have hle := length_le_of_links (List.nodup_cons.mpr ⟨hnew, hnodup⟩) hmore
  rw [List.length_cons] at hle
  omega

theorem lookWithin_full (budget : Nat) (hnodup : active.Nodup)
    (hlinks : ∀ p ∈ active, t.Links directory p)
    (hfull : t.nodes.length * pathLimit ≤ active.length) (hhere : here.Spelled) :
    lookWithin t directory budget active here names =
      lookWithin t directory 0 active here names := by
  cases budget with
  | zero => rfl
  | succ budget =>
      apply lookNames_congr
      · intro link here names hlink _
        exact if_pos (mem_of_full hnodup hlinks hfull hlink)
      · intro _ _ _ _ _ hfalse
        simp at hfalse
      · exact hhere

theorem lookWithin_budget {budget budget' : Nat} (hnodup : active.Nodup)
    (hlinks : ∀ p ∈ active, t.Links directory p)
    (hbudget : t.nodes.length * pathLimit ≤ budget + active.length)
    (hbudget' : t.nodes.length * pathLimit ≤ budget' + active.length) (hhere : here.Spelled) :
    lookWithin t directory budget' active here names =
      lookWithin t directory budget active here names := by
  induction budget generalizing budget' active here names with
  | zero => exact lookWithin_full budget' hnodup hlinks (by omega) hhere
  | succ budget ih =>
      cases budget' with
      | zero => exact (lookWithin_full (budget + 1) hnodup hlinks (by omega) hhere).symm
      | succ budget' =>
          apply lookNames_congr
          · intro link here names hlink hhere
            split
            · rfl
            · rename_i hnew
              have hmore : ∀ p ∈ link :: active, t.Links directory p := by
                intro p hp
                rcases List.mem_cons.mp hp with rfl | hp
                · exact hlink
                · exact hlinks p hp
              apply ih (List.nodup_cons.mpr ⟨hnew, hnodup⟩) hmore _ _ hhere
              · rw [List.length_cons]
                omega
              · rw [List.length_cons]
                omega
          · intro link here names q hhere hq
            split at hq
            · simp at hq
            · exact spelled_of_lookWithin hhere hq
          · exact hhere

theorem lookWithin_resolutionBudget {budget : Nat} (hbudget : t.resolutionBudget ≤ budget) (p : Path) :
    lookWithin t directory budget [] (p.start ⟨.relative, []⟩) p.names =
      lookWithin t directory t.resolutionBudget [] (p.start ⟨.relative, []⟩) p.names := by
  have hroom : t.nodes.length * pathLimit ≤ t.resolutionBudget :=
    Nat.mul_le_mul_right _ (Nat.le_succ _)
  apply lookWithin_budget List.nodup_nil (by simp)
  · rwa [List.length_nil, Nat.add_zero]
  · rw [List.length_nil, Nat.add_zero]
    exact Nat.le_trans hroom hbudget
  · exact Path.spelled_relative.start p

def AgreeOnLinks (places : Place → Prop) (t t' : FileTree) : Prop :=
  ∀ p, places p → ∀ target, t'.get? p = some (.link target) ↔ t.get? p = some (.link target)

theorem AgreeOnLinks.mono {places places' : Place → Prop} (h : AgreeOnLinks places' t t')
    (hplaces : ∀ p, places p → places' p) : AgreeOnLinks places t t' :=
  fun p hp => h p (hplaces p hp)

theorem linkAt?_eq_none
    (h : ∀ target, t.get? (p.seenFrom directory).names ≠ some (.link target)) :
    t.linkAt? directory p = none := by
  rw [linkAt?]
  split
  · rename_i target htarget
    exact absurd htarget (h target)
  · rfl

theorem linkAt?_agree (h : AgreeOnLinks (· = (p.seenFrom directory).names) t t') :
    t'.linkAt? directory p = t.linkAt? directory p := by
  have hplace := h _ rfl
  by_cases hlink : ∃ target, t.get? (p.seenFrom directory).names = some (.link target)
  · obtain ⟨target, hlink⟩ := hlink
    rw [linkAt?, linkAt?, hlink, (hplace target).mpr hlink]
  · have hnone := not_exists.mp hlink
    rw [linkAt?_eq_none hnone, linkAt?_eq_none fun target htarget =>
      hnone target ((hplace target).mp htarget)]

theorem lookNames_agree
    (hlook : ∀ link here names,
      AgreeOnLinks (· ∈ (look link here names).2) t t' → look' link here names = look link here names)
    (h : AgreeOnLinks (· ∈ (lookNames t directory look here names).2) t t') :
    lookNames t' directory look' here names = lookNames t directory look here names := by
  induction here, names using look_induction t directory with
  | done here => rfl
  | mark here name names hname ih =>
      rw [lookNames_mark hname] at h
      rw [lookNames_mark hname, lookNames_mark hname, ih h]
  | up here names ih =>
      rw [lookNames_up] at h
      rw [lookNames_up, lookNames_up, ih h]
  | null here name names hname hnull => rw [lookNames_null hname hnull, lookNames_null hname hnull]
  | through here name names hname hnull hlink ih =>
      rw [lookNames_through hname hnull hlink] at h
      have hlink' := (linkAt?_agree (h.mono fun q hq => hq ▸ List.mem_cons_self)).trans hlink
      rw [lookNames_through hname hnull hlink, lookNames_through hname hnull hlink',
        ih (h.mono fun q hq => List.mem_cons_of_mem _ hq)]
  | link here name names target hname hnull hlink ih =>
      rw [lookNames_link hname hnull hlink] at h
      have hlink' := (linkAt?_agree (h.mono fun q hq => hq ▸ List.mem_cons_self)).trans hlink
      have hbehind := h.mono fun q hq => List.mem_cons_of_mem _ hq
      rw [lookNames_link hname hnull hlink, lookNames_link hname hnull hlink',
        hlook _ _ _ (hbehind.mono fun q hq => mem_lookBehind hq), lookBehind, lookBehind]
      rw [lookBehind] at hbehind
      split
      · rename_i place hplace
        rw [hplace] at hbehind
        rw [ih place (hbehind.mono fun q hq => List.mem_append_right _ hq)]
      · rfl

theorem lookWithin_agree {budget : Nat}
    (h : AgreeOnLinks (· ∈ (lookWithin t directory budget active here names).2) t t') :
    lookWithin t' directory budget active here names =
      lookWithin t directory budget active here names := by
  induction budget generalizing active here names with
  | zero => exact lookNames_agree (fun _ _ _ _ => rfl) h
  | succ budget ih =>
      refine lookNames_agree (fun link here names hlook => ?_) h
      split
      · rfl
      · rename_i hnew
        rw [if_neg hnew] at hlook
        exact ih hlook

end Looking

/-- What following the links of a path comes to, with the places that are looked at for it. -/
def look (t : FileTree) (directory : Place) (p : Path) : Except FileError Path × List Place :=
  lookWithin t directory t.resolutionBudget [] (p.start ⟨.relative, []⟩) p.names

def resolveEnd? (t : FileTree) (directory : Place) (p : Path) : Option Path :=
  match (t.look directory p).1 with
  | .ok q | .error ⟨.tooManyLinks, q⟩ => some (q.seenFrom directory)
  | .error _ => none

theorem resolve_eq (t : FileTree) (directory : Place) (p : Path) :
    t.resolve directory p =
      match (t.look directory p).1 with
      | .ok q | .error ⟨.tooManyLinks, q⟩ => t.confirm (q.seenFrom directory)
      | .error e => .error e := by
  rw [look, lookWithin_fst]
  rfl

theorem look_agree (h : AgreeOnLinks (· ∈ (t.look directory p).2) t t') :
    t'.look directory p = t.look directory p := by
  -- Both trees are looked at with a budget that is large enough for either of them.
  have hmax : ∀ u : FileTree,
      u.resolutionBudget ≤ max t.resolutionBudget t'.resolutionBudget →
      lookWithin u directory (max t.resolutionBudget t'.resolutionBudget) []
          (p.start ⟨.relative, []⟩) p.names =
        lookWithin u directory u.resolutionBudget [] (p.start ⟨.relative, []⟩) p.names :=
    fun _ hbudget => lookWithin_resolutionBudget hbudget p
  rw [look] at h ⊢
  rw [look, ← hmax t' (Nat.le_max_right _ _), ← hmax t (Nat.le_max_left _ _)]
  rw [← hmax t (Nat.le_max_left _ _)] at h
  exact lookWithin_agree h

theorem confirm_agree (h : AgreeOn (· ∈ t.wayTo true [] p) t t') : t'.confirm p = t.confirm p := by
  rw [confirm, confirm, locate_agree h]

theorem resolve_agree (hlook : AgreeOnLinks (· ∈ (t.look directory p).2) t t')
    (hend : ∀ q, t.resolveEnd? directory p = some q → AgreeOn (· ∈ t.wayTo true [] q) t t') :
    t'.resolve directory p = t.resolve directory p := by
  rw [resolve_eq, resolve_eq, look_agree hlook]
  rw [resolveEnd?] at hend
  split
  · rename_i q hq
    exact confirm_agree (hend _ (by rw [hq]))
  · rename_i q hq
    exact confirm_agree (hend _ (by rw [hq]))
  · rfl

theorem resolveEnd?_of_resolve (h : t.resolve directory p = .ok q) :
    t.resolveEnd? directory p = some q ∧ q.isAbsolute = true := by
  have hconfirm : ∀ r, t.confirm r = .ok q → r = q := by
    intro r hr
    rw [confirm] at hr
    split at hr
    · simp at hr
    · simp at hr
    · exact Except.ok.inj hr
  have habsolute : ∀ r : Path, (r.seenFrom directory).isAbsolute = true := by
    intro r
    show Path.isAbsolute (Path.join ⟨.root, directory⟩ r).normal = true
    rw [Path.join]
    split
    · rename_i hr
      exact hr
    · rfl
  rw [resolve_eq] at h
  rw [resolveEnd?]
  split at h
  · rename_i r hr
    rw [← hconfirm _ h]
    exact ⟨rfl, habsolute r⟩
  · rename_i r hr
    rw [← hconfirm _ h]
    exact ⟨rfl, habsolute r⟩
  · simp at h

end FileTree

end ScriptWeave
