import Mathlib.Data.List.Basic
import ScriptWeave.FileTree

namespace ScriptWeave

def Node.leadsOn : Node → Bool
  | .directory | .link _ => true
  | .file _ _ | .sink => false

namespace FileTree

def Extends (t t' : FileTree) : Prop := ∀ q n, t.get? q = some n → t'.get? q = some n

theorem Extends.refl (t : FileTree) : Extends t t := fun _ _ => id

theorem Extends.trans {t t' t'' : FileTree} (h : Extends t t') (h' : Extends t' t'') :
    Extends t t'' :=
  fun q n hq => h' q n (h q n hq)

def Updates (t : FileTree) (p : Place) (n : Option Node) (t' : FileTree) : Prop :=
  ∀ q, t'.get? q = if q = p then n else t.get? q

theorem updates_same {t : FileTree} {p : Place} {n : Option Node} (h : t.get? p = n) : Updates t p n t := by
  intro q
  split
  · rename_i hq
    rw [hq, h]
  · rfl

theorem updates_put (t : FileTree) {p : Place} (n : Node) (hp : p ≠ []) :
    Updates t p (some n) (t.put p n) := by
  intro q
  split
  · rename_i hq
    rw [hq, get?_put_self t n hp]
  · rename_i hq
    exact get?_put_of_ne t n hq

theorem updates_erase (t : FileTree) {p : Place} (hp : p ≠ []) :
    Updates t p none (t.erase p) := by
  intro q
  split
  · rename_i hq
    rw [hq, get?_erase_self t hp]
  · rename_i hq
    exact get?_erase_of_ne t hq

theorem Updates.self {t t' : FileTree} {p : Place} {n : Option Node} (h : Updates t p n t') :
    t'.get? p = n :=
  (h p).trans (if_pos rfl)

theorem Updates.other {t t' : FileTree} {p q : Place} {n : Option Node} (h : Updates t p n t')
    (hq : q ≠ p) : t'.get? q = t.get? q :=
  (h q).trans (if_neg hq)

theorem Updates.again {t t' t'' : FileTree} {p : Place} {n n' : Option Node}
    (h : Updates t p n t') (h' : Updates t' p n' t'') : Updates t p n' t'' := by
  intro q
  rw [h' q]
  split
  · rfl
  · rename_i hq
    exact h.other hq

theorem Updates.extends {base t t' : FileTree} {p : Place} {n : Option Node}
    (h : Updates t p n t') (hbase : Extends base t) (hp : base.get? p = none) :
    Extends base t' := by
  intro q m hq
  rw [h.other (fun hqp => by rw [hqp, hp] at hq; simp at hq)]
  exact hbase q m hq

theorem erase_extends (t : FileTree) (p : Place) : Extends (t.erase p) t := by
  intro q n hq
  by_cases hqp : q = p
  · subst hqp
    cases q with
    | nil => exact hq
    | cons name q =>
        rw [get?_erase_self t (by simp)] at hq
        simp at hq
  · rwa [get?_erase_of_ne t hqp] at hq

/-! ### Names -/

/-- The name stands for an entry of a directory, and not for the directory or the one above it. -/
structure NamesEntry (name : Text) : Prop where
  not_mark : isMark name = false
  not_up : name ≠ "..".toList

theorem namesEntry_of_length {name : Text} (h : 2 < name.length) : NamesEntry name where
  not_mark := by
    rw [isMark, Bool.or_eq_false_iff]
    constructor <;> refine decide_eq_false fun hname => ?_ <;> simp [hname] at h
  not_up := by
    rintro rfl
    simp at h

structure IsEntry (name : Text) : Prop extends NamesEntry name where
  length_le : (Text.encode name).length ≤ nameLimit

/-! ### Steps of a walk -/

section Steps

variable {t : FileTree} {follow : Bool} {budget : Nat} {here : Place} {name target : Text}
variable {names : List Text}

def jumpOf (t : FileTree) (follow : Bool) : Nat → Place → List Text → Except FileCause Place
  | 0 => fun _ _ => .error .tooManyLinks
  | budget + 1 => walk t follow budget

theorem walk_eq (budget : Nat) (here : Place) (names : List Text) :
    t.walk follow budget here names = walkNames t follow (jumpOf t follow budget) here names := by
  cases budget <;> rfl

theorem walk_nil (budget : Nat) (here : Place) : t.walk follow budget here [] = .ok here := by
  rw [walk_eq, walkNames]

theorem walk_mark (hname : isMark name = true) :
    t.walk follow budget here (name :: names) = t.walk follow budget here names := by
  rw [walk_eq, walk_eq, walkNames, if_pos hname]

theorem walk_up :
    t.walk follow budget here ("..".toList :: names) = t.walk follow budget here.dropLast names := by
  rw [walk_eq, walk_eq, walkNames, if_neg (by decide), if_pos rfl]

theorem walk_long (hname : NamesEntry name) (hlong : nameLimit < (Text.encode name).length) :
    t.walk follow budget here (name :: names) = .error .nameTooLong := by
  rw [walk_eq, walkNames, if_neg (by simp [hname.not_mark]), if_neg hname.not_up, if_pos hlong]

theorem isEntry_of_walk {q : Place} (hname : NamesEntry name)
    (h : t.walk follow budget here (name :: names) = .ok q) : IsEntry name := by
  refine ⟨hname, Nat.le_of_not_lt fun hlong => ?_⟩
  simp [walk_long hname hlong] at h

theorem walk_entry (hname : IsEntry name)
    (hlink : ∀ target, t.get? (here ++ [name]) ≠ some (.link target)) :
    t.walk follow budget here (name :: names) =
      match t.get? (here ++ [name]) with
      | some .directory => t.walk follow budget (here ++ [name]) names
      | some _ => if names = [] then .ok (here ++ [name]) else .error .notDirectory
      | none => if names = [] then .ok (here ++ [name]) else .error .missing := by
  rw [walk_eq, walk_eq, walkNames, if_neg (by simp [hname.not_mark]), if_neg hname.not_up,
    if_neg (Nat.not_lt.mpr hname.length_le)]
  cases hnode : t.get? (here ++ [name]) with
  | none => rfl
  | some node =>
      cases node with
      | link target => exact absurd hnode (hlink target)
      | _ => rfl

theorem walk_directory (hname : IsEntry name) (hnode : t.get? (here ++ [name]) = some .directory) :
    t.walk follow budget here (name :: names) = t.walk follow budget (here ++ [name]) names := by
  rw [walk_entry hname (by simp [hnode]), hnode]

theorem exists_walk_stopped (hname : IsEntry name) (hdirectory : t.get? (here ++ [name]) ≠ some .directory)
    (hlink : ∀ target, t.get? (here ++ [name]) ≠ some (.link target)) :
    ∃ cause, ∀ follow budget names, t.walk follow budget here (name :: names) =
      if names = [] then .ok (here ++ [name]) else .error cause := by
  cases hnode : t.get? (here ++ [name]) with
  | none =>
      refine ⟨.missing, fun follow budget names => ?_⟩
      rw [walk_entry hname hlink, hnode]
  | some node =>
      refine ⟨.notDirectory, fun follow budget names => ?_⟩
      rw [walk_entry hname hlink, hnode]
      cases node with
      | directory => exact absurd hnode hdirectory
      | _ => rfl

theorem walk_link (hname : IsEntry name) (hlink : t.get? (here ++ [name]) = some (.link target)) :
    t.walk follow budget here (name :: names) =
      if names = [] ∧ follow = false then .ok (here ++ [name])
      else jumpOf t follow budget (if (Path.ofWritten target).isAbsolute then [] else here)
        ((Path.ofWritten target).names ++ names) := by
  rw [walk_eq, walkNames, if_neg (by simp [hname.not_mark]), if_neg hname.not_up,
    if_neg (Nat.not_lt.mpr hname.length_le), hlink]

theorem walk_followed (hname : IsEntry name)
    (hlink : t.get? (here ++ [name]) = some (.link target)) (hfollow : names = [] → follow = true) :
    t.walk follow (budget + 1) here (name :: names) =
      t.walk follow budget (if (Path.ofWritten target).isAbsolute then [] else here)
        ((Path.ofWritten target).names ++ names) := by
  rw [walk_link hname hlink, if_neg (by rintro ⟨hnil, hno⟩; simp [hfollow hnil] at hno)]
  rfl

theorem walk_induction (t : FileTree) {motive : Nat → Place → List Text → Prop}
    (done : ∀ budget here, motive budget here [])
    (mark : ∀ budget here name names, isMark name = true → motive budget here names →
      motive budget here (name :: names))
    (up : ∀ budget here names, motive budget here.dropLast names →
      motive budget here ("..".toList :: names))
    (entry : ∀ budget here name names, NamesEntry name →
      (∀ target, t.get? (here ++ [name]) ≠ some (.link target)) →
      motive budget (here ++ [name]) names → motive budget here (name :: names))
    (link : ∀ budget here name names target, NamesEntry name →
      t.get? (here ++ [name]) = some (.link target) →
      (∀ less, budget = less + 1 → ∀ here names, motive less here names) →
      motive budget here (name :: names)) :
    ∀ budget here names, motive budget here names := by
  intro budget
  induction budget using Nat.strongRecOn with
  | ind budget ihb =>
      intro here names
      induction names generalizing here with
      | nil => exact done budget here
      | cons name names ih =>
          by_cases hmark : isMark name = true
          · exact mark budget here name names hmark (ih here)
          · by_cases hup : name = "..".toList
            · exact hup ▸ up budget here names (ih _)
            · have hname : NamesEntry name := ⟨Bool.eq_false_iff.mpr hmark, hup⟩
              by_cases hlink : ∃ target, t.get? (here ++ [name]) = some (.link target)
              · obtain ⟨target, hlink⟩ := hlink
                apply link budget here name names target hname hlink
                intro less hless
                exact ihb less (by omega)
              · exact entry budget here name names hname (fun target h => hlink ⟨target, h⟩) (ih _)

end Steps

/-! ### Walks -/

/-- The steps of a walk from a place along names, through at most so many links. -/
inductive Walks (t : FileTree) (follow : Bool) : Nat → Place → List Text → Place → Prop
  | done (budget : Nat) (here : Place) : Walks t follow budget here [] here
  | mark {budget : Nat} {here q : Place} {name : Text} {names : List Text}
      (hname : isMark name = true) (more : Walks t follow budget here names q) :
      Walks t follow budget here (name :: names) q
  | up {budget : Nat} {here q : Place} {names : List Text}
      (more : Walks t follow budget here.dropLast names q) :
      Walks t follow budget here ("..".toList :: names) q
  | directory {budget : Nat} {here q : Place} {name : Text} {names : List Text}
      (hname : IsEntry name) (hnode : t.get? (here ++ [name]) = some .directory)
      (more : Walks t follow budget (here ++ [name]) names q) :
      Walks t follow budget here (name :: names) q
  | link {budget : Nat} {here q : Place} {name target : Text} {names : List Text}
      (hname : IsEntry name) (hnode : t.get? (here ++ [name]) = some (.link target))
      (hfollow : names = [] → follow = true)
      (more : Walks t follow budget (if (Path.ofWritten target).isAbsolute then [] else here)
        ((Path.ofWritten target).names ++ names) q) :
      Walks t follow (budget + 1) here (name :: names) q
  | last {budget : Nat} {here : Place} {name : Text} (hname : IsEntry name)
      (hdirectory : t.get? (here ++ [name]) ≠ some .directory)
      (hlink : follow = true → ∀ target, t.get? (here ++ [name]) ≠ some (.link target)) :
      Walks t follow budget here [name] (here ++ [name])

section Walks

variable {t t' : FileTree} {follow : Bool} {budget : Nat} {here q : Place} {names : List Text}

theorem walks_of_walk (h : t.walk follow budget here names = .ok q) :
    Walks t follow budget here names q := by
  induction budget, here, names using walk_induction t with
  | done budget here =>
      rw [walk_nil, Except.ok.injEq] at h
      exact h ▸ .done budget here
  | mark budget here name names hname ih =>
      rw [walk_mark hname] at h
      exact .mark hname (ih h)
  | up budget here names ih =>
      rw [walk_up] at h
      exact .up (ih h)
  | entry budget here name names hname hlink ih =>
      have hentry := isEntry_of_walk hname h
      by_cases hdirectory : t.get? (here ++ [name]) = some .directory
      · rw [walk_directory hentry hdirectory] at h
        exact .directory hentry hdirectory (ih h)
      · obtain ⟨cause, hwalk⟩ := exists_walk_stopped hentry hdirectory hlink
        rw [hwalk] at h
        split at h
        · rename_i hnil
          subst hnil
          obtain rfl := Except.ok.inj h
          exact .last hentry hdirectory fun _ => hlink
        · simp at h
  | link budget here name names target hname hlink ih =>
      have hentry := isEntry_of_walk hname h
      rw [walk_link hentry hlink] at h
      by_cases hlast : names = [] ∧ follow = false
      · rw [if_pos hlast, Except.ok.injEq] at h
        obtain ⟨rfl, hfollow⟩ := hlast
        exact h ▸ .last hentry (by simp [hlink]) (by simp [hfollow])
      · rw [if_neg hlast] at h
        cases budget with
        | zero => simp [jumpOf] at h
        | succ less =>
            refine .link hentry hlink (fun hnil => ?_) (ih less rfl _ _ h)
            exact Bool.of_not_eq_false fun hno => hlast ⟨hnil, hno⟩

theorem Walks.walk (h : Walks t follow budget here names q) :
    t.walk follow budget here names = .ok q := by
  induction h with
  | done budget here => exact walk_nil budget here
  | mark hname _ ih => exact (walk_mark hname).trans ih
  | up _ ih => exact walk_up.trans ih
  | directory hname hnode _ ih => exact (walk_directory hname hnode).trans ih
  | link hname hnode hfollow _ ih => exact (walk_followed hname hnode hfollow).trans ih
  | @last budget here name hname hdirectory hlink =>
      by_cases hnode : ∃ target, t.get? (here ++ [name]) = some (.link target)
      · obtain ⟨target, hnode⟩ := hnode
        have hfollow : follow = false := Bool.eq_false_iff.mpr fun hyes => hlink hyes target hnode
        rw [walk_link hname hnode, if_pos ⟨rfl, hfollow⟩]
      · obtain ⟨cause, hwalk⟩ :=
          exists_walk_stopped hname hdirectory fun target h => hnode ⟨target, h⟩
        rw [hwalk, if_pos rfl]

theorem walk_iff : t.walk follow budget here names = .ok q ↔ Walks t follow budget here names q :=
  ⟨walks_of_walk, Walks.walk⟩

theorem Walks.of_ways (h : Walks t follow budget here names q)
    (hways : ∀ p n, n.leadsOn = true → t.get? p = some n → t'.get? p = some n)
    (hend : follow = true → ∀ target, t'.get? q = some (.link target) →
      t.get? q = some (.link target)) : Walks t' follow budget here names q := by
  induction h with
  | done budget here => exact .done budget here
  | mark hname _ ih => exact .mark hname (ih hend)
  | up _ ih => exact .up (ih hend)
  | directory hname hnode _ ih => exact .directory hname (hways _ _ rfl hnode) (ih hend)
  | link hname hnode hfollow _ ih => exact .link hname (hways _ _ rfl hnode) hfollow (ih hend)
  | @last budget here name hname _ hlink =>
      -- What was no directory may have become one, and then the walk ends inside it.
      by_cases hbecame : t'.get? (here ++ [name]) = some .directory
      · exact .directory hname hbecame (.done _ _)
      · exact .last hname hbecame fun hfollow target htarget =>
          hlink hfollow target (hend hfollow target htarget)

theorem Walks.of_extends (h : Walks t follow budget here names q) (hextends : Extends t t')
    (hend : follow = true → (t.get? q).isSome) : Walks t' follow budget here names q := by
  refine h.of_ways (fun p n _ => hextends p n) fun hfollow target htarget => ?_
  obtain ⟨node, hnode⟩ := Option.isSome_iff_exists.mp (hend hfollow)
  rw [hextends _ _ hnode] at htarget
  rw [hnode, htarget]

theorem Walks.followed (h : Walks t false budget here names q)
    (hend : ∀ target, t.get? q ≠ some (.link target)) : Walks t true budget here names q := by
  induction h with
  | done budget here => exact .done budget here
  | mark hname _ ih => exact .mark hname (ih hend)
  | up _ ih => exact .up (ih hend)
  | directory hname hnode _ ih => exact .directory hname hnode (ih hend)
  | link hname hnode _ _ ih => exact .link hname hnode (fun _ => rfl) (ih hend)
  | last hname hdirectory _ => exact .last hname hdirectory fun _ => hend

theorem Walks.unfollowed (h : Walks t true budget here names q) (hend : (t.get? q).isSome) :
    ∃ q', Walks t false budget here names q' ∧ (t.get? q').isSome := by
  induction h with
  | done budget here => exact ⟨here, .done budget here, hend⟩
  | mark hname _ ih =>
      obtain ⟨q', hwalks, hsome⟩ := ih hend
      exact ⟨q', .mark hname hwalks, hsome⟩
  | up _ ih =>
      obtain ⟨q', hwalks, hsome⟩ := ih hend
      exact ⟨q', .up hwalks, hsome⟩
  | directory hname hnode _ ih =>
      obtain ⟨q', hwalks, hsome⟩ := ih hend
      exact ⟨q', .directory hname hnode hwalks, hsome⟩
  | @link budget here q name target names hname hnode _ _ ih =>
      by_cases hnil : names = []
      · subst hnil
        exact ⟨here ++ [name], .last hname (by simp [hnode]) (by simp), by simp [hnode]⟩
      · obtain ⟨q', hwalks, hsome⟩ := ih hend
        exact ⟨q', .link hname hnode (fun h => absurd h hnil) hwalks, hsome⟩
  | @last budget here name hname hdirectory _ =>
      exact ⟨here ++ [name], .last hname hdirectory (by simp), hend⟩

theorem walks_entry (budget : Nat) (here : Place) {y : Text} (hy : IsEntry y) :
    Walks t false budget here [y] (here ++ [y]) := by
  by_cases hdirectory : t.get? (here ++ [y]) = some .directory
  · exact .directory hy hdirectory (.done _ _)
  · exact .last hy hdirectory (by simp)

theorem Walks.isEntry {x : Text} {ns : List Text} (h : Walks t follow budget here names q)
    (hnames : names = ns ++ [x]) (hx : NamesEntry x) : IsEntry x := by
  induction h generalizing ns with
  | done budget here => simp at hnames
  | @mark budget here q name names hname _ ih =>
      cases ns with
      | nil =>
          obtain ⟨rfl, -⟩ := List.cons.inj hnames
          rw [hx.not_mark] at hname
          simp at hname
      | cons n ns => exact ih (List.cons.inj hnames).2
  | up _ ih =>
      cases ns with
      | nil => exact absurd (List.cons.inj hnames).1.symm hx.not_up
      | cons n ns => exact ih (List.cons.inj hnames).2
  | directory hname _ _ ih =>
      cases ns with
      | nil => exact (List.cons.inj hnames).1 ▸ hname
      | cons n ns => exact ih (List.cons.inj hnames).2
  | @link budget here q name target names hname _ _ _ ih =>
      cases ns with
      | nil => exact (List.cons.inj hnames).1 ▸ hname
      | cons n ns =>
          obtain ⟨-, rfl⟩ := List.cons.inj hnames
          exact ih (List.append_assoc _ _ _).symm
  | last hname _ _ =>
      cases ns with
      | nil => exact (List.cons.inj hnames).1 ▸ hname
      | cons n ns => simp at hnames

theorem Walks.enter {y : Text} (h : Walks t true budget here names q)
    (hq : t.get? q = some .directory) (hy : IsEntry y) :
    Walks t false budget here (names ++ [y]) (q ++ [y]) := by
  induction h with
  | done budget here => exact walks_entry budget here hy
  | mark hname _ ih => exact .mark hname (ih hq)
  | up _ ih => exact .up (ih hq)
  | directory hname hnode _ ih => exact .directory hname hnode (ih hq)
  | link hname hnode _ _ ih =>
      have hmore := ih hq
      rw [List.append_assoc] at hmore
      exact .link hname hnode (by simp) hmore
  | last _ hdirectory _ => exact absurd hq hdirectory

end Walks

/-! ### Paths -/

structure Askable (p : Path) : Prop where
  no_null : p.names.any (·.contains '\x00') = false
  not_long : isTooLong p = false

section Paths

variable {t t' : FileTree} {follow : Bool} {directory q : Place} {p : Path}

theorem locate_eq_ok_iff :
    t.locate follow directory p = .ok q ↔
      Askable p ∧ Walks t follow linkLimit (startOf directory p) p.names q := by
  rw [locate, ← walk_iff]
  constructor
  · intro h
    split at h
    · simp at h
    · rename_i hnull
      split at h
      · simp at h
      · rename_i hlong
        exact ⟨⟨Bool.eq_false_iff.mpr hnull, Bool.eq_false_iff.mpr hlong⟩, h⟩
  · rintro ⟨⟨hnull, hlong⟩, hwalk⟩
    rw [if_neg (Bool.eq_false_iff.mp hnull), if_neg (Bool.eq_false_iff.mp hlong), hwalk]

theorem find_eq_ok_iff {node : Node} :
    t.find follow directory p = .ok (q, node) ↔
      t.locate follow directory p = .ok q ∧ t.get? q = some node := by
  rw [find]
  cases t.locate follow directory p with
  | error cause => simp
  | ok place =>
      dsimp only
      constructor
      · intro h
        split at h
        · simp at h
        · rename_i found hfound
          rw [Except.ok.injEq, Prod.mk.injEq] at h
          obtain ⟨rfl, rfl⟩ := h
          exact ⟨rfl, hfound⟩
      · rintro ⟨hplace, hnode⟩
        rw [Except.ok.injEq] at hplace
        rw [hplace, hnode]

theorem find_missing (h : t.locate follow directory p = .ok q) (hnone : t.get? q = none) :
    t.find follow directory p = .error .missing := by
  rw [find, h]
  dsimp only
  rw [hnone]

theorem locate_of_extends (h : t.locate false directory p = .ok q) (hextends : Extends t t') :
    t'.locate false directory p = .ok q := by
  rw [locate_eq_ok_iff] at h ⊢
  exact ⟨h.1, h.2.of_extends hextends (by simp)⟩

theorem find_of_extends {node : Node} (h : t.find follow directory p = .ok (q, node))
    (hextends : Extends t t') : t'.find follow directory p = .ok (q, node) := by
  rw [find_eq_ok_iff, locate_eq_ok_iff] at h ⊢
  obtain ⟨⟨haskable, hwalks⟩, hnode⟩ := h
  exact ⟨⟨haskable, hwalks.of_extends hextends fun _ => by simp [hnode]⟩, hextends _ _ hnode⟩

theorem locate_followed (h : t.locate false directory p = .ok q)
    (hend : ∀ target, t.get? q ≠ some (.link target)) : t.locate true directory p = .ok q := by
  rw [locate_eq_ok_iff] at h ⊢
  exact ⟨h.1, h.2.followed hend⟩

theorem find_followed (h : t.find false directory p = .ok (q, .directory)) :
    t.find true directory p = .ok (q, .directory) := by
  obtain ⟨hlocate, hnode⟩ := find_eq_ok_iff.mp h
  exact find_eq_ok_iff.mpr ⟨locate_followed hlocate (by simp [hnode]), hnode⟩

theorem find_unfollowed {node : Node} (h : t.find true directory p = .ok (q, node)) :
    ∃ q' node', t.find false directory p = .ok (q', node') := by
  obtain ⟨hlocate, hnode⟩ := find_eq_ok_iff.mp h
  obtain ⟨haskable, hwalks⟩ := locate_eq_ok_iff.mp hlocate
  obtain ⟨q', hunfollowed, hsome⟩ := hwalks.unfollowed (by simp [hnode])
  obtain ⟨node', hnode'⟩ := Option.isSome_iff_exists.mp hsome
  exact ⟨q', node', find_eq_ok_iff.mpr ⟨locate_eq_ok_iff.mpr ⟨haskable, hunfollowed⟩, hnode'⟩⟩

theorem readFile_of_extends {content : Bytes} (h : t.readFile directory p = .ok content)
    (hextends : Extends t t') : t'.readFile directory p = .ok content := by
  rw [readFile] at h ⊢
  cases hfind : t.find true directory p with
  | error cause => simp [hfind] at h
  | ok found =>
      rw [find_of_extends hfind hextends, ← hfind]
      exact h

theorem readFile_of_find {content : Bytes} {runnable : Bool}
    (h : t.find true directory p = .ok (q, .file content runnable)) :
    t.readFile directory p = .ok content := by
  rw [readFile, h]

theorem names_of_namesEntry (h : NamesEntry p.name) : p.names = p.names.dropLast ++ [p.name] := by
  have hne : p.names ≠ [] := by
    intro hnil
    have hmark := h.not_mark
    rw [Path.name, hnil] at hmark
    exact absurd hmark (by decide)
  rw [Path.name, List.getLast?_eq_getLast_of_ne_nil hne, Option.getD_some]
  exact (List.dropLast_append_getLast hne).symm

theorem isEntry_of_locate (h : t.locate follow directory p = .ok q) (hp : NamesEntry p.name) :
    IsEntry p.name :=
  (locate_eq_ok_iff.mp h).2.isEntry (names_of_namesEntry hp) hp

theorem locate_entry (hparent : t.find true directory p.parent = .ok (q, .directory))
    (haskable : Askable p) (hentry : IsEntry p.name) :
    t.locate false directory p = .ok (q ++ [p.name]) := by
  obtain ⟨hlocate, hq⟩ := find_eq_ok_iff.mp hparent
  have hwalks := (locate_eq_ok_iff.mp hlocate).2.enter hq hentry
  rw [Path.parent, ← names_of_namesEntry hentry.toNamesEntry] at hwalks
  exact locate_eq_ok_iff.mpr ⟨haskable, hwalks⟩

theorem locate_entry_of_locate {t' : FileTree} {directory' r : Place}
    (hparent : t.find true directory p.parent = .ok (q, .directory)) (hp : NamesEntry p.name)
    (hlocate : t'.locate follow directory' p = .ok r) :
    t.locate false directory p = .ok (q ++ [p.name]) :=
  locate_entry hparent (locate_eq_ok_iff.mp hlocate).1 (isEntry_of_locate hlocate hp)

theorem eq_entry_of_locate {r : Place}
    (hparent : t.find true directory p.parent = .ok (q, .directory)) (hp : NamesEntry p.name)
    (hlocate : t.locate false directory p = .ok r) : r = q ++ [p.name] := by
  have hentry := locate_entry_of_locate hparent hp hlocate
  rw [hlocate] at hentry
  exact Except.ok.inj hentry

end Paths

end FileTree

end ScriptWeave
