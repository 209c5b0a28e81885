import Mathlib.Data.List.Forall2
import Mathlib.Data.List.Nodup
import ScriptWeave.Proofs.Json.Written
import ScriptWeave.Proofs.SettingsFields

/-!
Which values are settings. A value is accepted exactly if it is marked as settings and each field that
is present has its form, and then every part of the settings is what its field says, or its default.
Nothing else in the value counts, nor the order of its fields. A value has to be read before it can be
accepted, though, and a file with a number that is too long is not read.
-/

namespace ScriptWeave

namespace Json

variable {fields fields' : List (Text × Json)} {name : Text} {j : Json}

theorem field?_filter {p : Text → Bool} (h : p name = true) :
    field? (fields.filter fun f => p f.1) name = field? fields name := by
  rw [field?, field?, ← List.filter_reverse, List.find?_filter]
  congr 2
  funext f
  by_cases hf : f.1 = name
  · simp [hf, h]
  · simp [hf]

theorem field?_eq_some_iff (hnodup : (fields.map Prod.fst).Nodup) :
    field? fields name = some j ↔ (name, j) ∈ fields := by
  rw [field?, Option.map_eq_some_iff]
  constructor
  · rintro ⟨⟨found, j'⟩, hfind, rfl⟩
    obtain rfl : found = name := by simpa using List.find?_some hfind
    exact List.mem_reverse.mp (List.mem_of_find?_eq_some hfind)
  · intro hmem
    cases hfind : fields.reverse.find? fun f => f.1 = name with
    | none =>
        have hnone := List.find?_eq_none.mp hfind (name, j) (List.mem_reverse.mpr hmem)
        simp at hnone
    | some f =>
        have hname : f.1 = name := by simpa using List.find?_some hfind
        have hf := List.mem_reverse.mp (List.mem_of_find?_eq_some hfind)
        exact ⟨f, rfl, congrArg Prod.snd (List.inj_on_of_nodup_map hnodup hf hmem hname)⟩

theorem field?_perm (hperm : fields.Perm fields') (hnodup : (fields.map Prod.fst).Nodup)
    (name : Text) : field? fields name = field? fields' name := by
  apply Option.ext
  intro j
  rw [field?_eq_some_iff hnodup, field?_eq_some_iff ((hperm.map _).nodup_iff.mp hnodup),
    hperm.mem_iff]

end Json

namespace Settings

open Json

variable {e : Environment} {base p d : Path} {fields fields' : List (Text × Json)} {s : Settings}
variable {h h' : Host} {t what : Text} {ts : List Text} {j : Json} {fault : Fault}

/-! ### Texts and lists of texts -/

theorem textOf_eq_ok_iff : textOf what j = .ok t ↔ j = .text t ∧ t ≠ [] := by
  cases j with
  | text u =>
      cases u with
      | nil =>
          constructor
          · exact nofun
          · rintro ⟨hnil, hne⟩
            exact absurd (Json.text.inj hnil).symm hne
      | cons c u =>
          constructor
          · rintro ⟨⟩
            exact ⟨rfl, List.cons_ne_nil c u⟩
          · rintro ⟨⟨⟩, -⟩
            rfl
  | _ => exact ⟨nofun, fun hj => nomatch hj.1⟩

theorem nonEmptyTexts?_eq_some_iff {items : List Json} :
    nonEmptyTexts? items = some ts ↔ items = ts.map .text ∧ ∀ t ∈ ts, t ≠ [] := by
  induction items generalizing ts with
  | nil =>
      rw [nonEmptyTexts?, Option.some.injEq, eq_comm, eq_comm (a := []), List.map_eq_nil_iff]
      exact ⟨by rintro rfl; simp, And.left⟩
  | cons item items ih =>
      cases ts with
      | nil =>
          constructor
          · intro hsome
            unfold nonEmptyTexts? at hsome
            split at hsome
            · exact absurd ‹_› (List.cons_ne_nil _ _)
            · simp at hsome
            · exact nomatch hsome
          · rintro ⟨hnil, -⟩
            exact nomatch hnil
      | cons t ts =>
          rw [List.map_cons, List.cons.injEq, List.forall_mem_cons]
          cases item with
          | text u =>
              cases u with
              | nil =>
                  constructor
                  · exact nofun
                  · rintro ⟨⟨hnil, -⟩, hne, -⟩
                    exact absurd (Json.text.inj hnil).symm hne
              | cons c u =>
                  rw [nonEmptyTexts?, Option.map_eq_some_iff]
                  constructor
                  · rintro ⟨ts', hts, heq⟩
                    obtain ⟨rfl, rfl⟩ := List.cons.inj heq
                    obtain ⟨hitems, hne⟩ := ih.mp hts
                    exact ⟨⟨rfl, hitems⟩, List.cons_ne_nil c u, hne⟩
                  · rintro ⟨⟨hitem, hitems⟩, -, hne⟩
                    exact ⟨ts, ih.mpr ⟨hitems, hne⟩, by rw [Json.text.inj hitem]⟩
          | _ => exact ⟨nofun, fun hitems => nomatch hitems.1.1⟩

theorem textsOf_eq_ok_iff :
    textsOf what j = .ok ts ↔ j = .array (ts.map .text) ∧ ∀ t ∈ ts, t ≠ [] := by
  cases j with
  | array items =>
      rw [Json.array.injEq, ← nonEmptyTexts?_eq_some_iff, textsOf]
      cases nonEmptyTexts? items with
      | none => exact ⟨nofun, nofun⟩
      | some texts => rw [Except.ok.injEq, Option.some.injEq]
  | _ => exact ⟨nofun, fun hj => nomatch hj.1⟩

theorem directories_eq_ok_iff {ds : List Path} :
    directories e base ts = .ok ds ↔ List.Forall₂ (fun t d => directory e base t = .ok d) ts ds := by
  induction ts generalizing ds with
  | nil =>
      rw [directories, Except.ok.injEq, List.forall₂_nil_left_iff, eq_comm]
  | cons t ts ih =>
      rw [directories]
      cases hfirst : directory e base t with
      | error fault =>
          refine ⟨fun hmap => by simp at hmap, fun hall => ?_⟩
          cases hall with
          | cons hd _ => simp [hfirst] at hd
      | ok d =>
          cases ds with
          | nil =>
              refine ⟨fun hmap => ?_, fun hall => by simp at hall⟩
              cases hmore : directories e base ts <;> simp [hmore, Except.map] at hmap
          | cons d' ds =>
              rw [List.forall₂_cons, hfirst, Except.ok.injEq, ← ih]
              cases directories e base ts with
              | error fault => simp [Except.map]
              | ok more =>
                  show Except.ok (d :: more) = Except.ok (d' :: ds) ↔ _
                  rw [Except.ok.injEq, Except.ok.injEq, List.cons.injEq]

/-! ### Parts -/

theorem readCacheRoot_eq_ok_iff :
    readCacheRoot e base fields = .ok d ↔
      (field? fields "cache_root" = none ∧ d = (Settings.default e).cacheRoot) ∨
        ∃ t, field? fields "cache_root" = some (.text t) ∧ t ≠ [] ∧ directory e base t = .ok d := by
  rw [readCacheRoot]
  cases field? fields "cache_root" with
  | none => simp [Settings.default, eq_comm]
  | some j =>
      simp only [Except.bind_eq_ok_iff, textOf_eq_ok_iff, reduceCtorEq, false_and, false_or,
        Option.some.injEq, and_assoc]

theorem readCompiler_eq_ok_iff :
    readCompiler fields = .ok ts ↔
      (field? fields "compiler" = none ∧ ts = (Settings.default e).compiler) ∨
        (field? fields "compiler" = some (.array (ts.map .text)) ∧ ts ≠ [] ∧ ∀ t ∈ ts, t ≠ []) := by
  rw [readCompiler]
  cases field? fields "compiler" with
  | none => simp [Settings.default, eq_comm]
  | some j =>
      simp only [Except.bind_eq_ok_iff, textsOf_eq_ok_iff, reduceCtorEq, false_and, false_or,
        Option.some.injEq]
      constructor
      · rintro ⟨words, ⟨hj, hwords⟩, hresult⟩
        cases words with
        | nil => simp at hresult
        | cons word words =>
            obtain rfl := Except.ok.inj hresult
            exact ⟨hj, List.cons_ne_nil word words, hwords⟩
      · rintro ⟨hj, hne, hwords⟩
        obtain ⟨word, words, rfl⟩ := List.exists_cons_of_ne_nil hne
        exact ⟨word :: words, ⟨hj, hwords⟩, rfl⟩

theorem readPlatformDirectories_eq_ok_iff {ds : List Path} :
    readPlatformDirectories e base fields = .ok ds ↔
      (field? fields "platform_dirs" = none ∧ ds = (Settings.default e).platformDirectories) ∨
        ∃ ts, field? fields "platform_dirs" = some (.array (ts.map .text)) ∧ (∀ t ∈ ts, t ≠ []) ∧
          List.Forall₂ (fun t d => directory e base t = .ok d) ts ds := by
  rw [readPlatformDirectories]
  cases field? fields "platform_dirs" with
  | none => simp [Settings.default, eq_comm]
  | some j =>
      simp only [Except.bind_eq_ok_iff, textsOf_eq_ok_iff, directories_eq_ok_iff, reduceCtorEq,
        false_and, false_or, Option.some.injEq, and_assoc]

theorem readHostDirectory_eq_ok_iff {found : Option Path} :
    readHostDirectory e base fields = .ok found ↔
      ((field? fields "host_dir" = none ∨ field? fields "host_dir" = some .null) ∧
          found = (Settings.default e).hostDirectory) ∨
        ∃ t d, field? fields "host_dir" = some (.text t) ∧ t ≠ [] ∧ directory e base t = .ok d ∧
          found = some d := by
  rw [readHostDirectory]
  generalize field? fields "host_dir" = present
  split
  · simp [Settings.default, eq_comm]
  · simp [Settings.default, eq_comm]
  · rename_i j hnull
    have hj : j ≠ .null := fun hj => hnull hj
    simp only [Except.bind_eq_ok_iff, textOf_eq_ok_iff, Except.ok.injEq, Option.some.injEq,
      reduceCtorEq, hj, or_self, false_and, false_or, and_assoc]
    constructor
    · rintro ⟨t, hj, ht, d, hd, rfl⟩
      exact ⟨t, d, hj, ht, hd, rfl⟩
    · rintro ⟨t, d, hj, ht, hd, rfl⟩
      exact ⟨t, hj, ht, d, hd, rfl⟩

theorem readHoist_eq_ok_iff {b : Bool} :
    readHoist fields = .ok b ↔
      (field? fields "hoist_directives" = none ∧ b = (Settings.default e).hoist) ∨
        field? fields "hoist_directives" = some (.bool b) := by
  rw [readHoist]
  cases field? fields "hoist_directives" with
  | none => simp [Settings.default, eq_comm]
  | some j => cases j <;> simp

/-! ### Forms -/

def IsFilled (j : Json) : Prop := ∃ t, t ≠ [] ∧ j = .text t

def AreFilled (items : List Json) : Prop := ∀ item ∈ items, IsFilled item

theorem areFilled_map (h : ∀ t ∈ ts, t ≠ []) : AreFilled (ts.map .text) := by
  intro item hitem
  obtain ⟨t, ht, rfl⟩ := List.mem_map.mp hitem
  exact ⟨t, h t ht, rfl⟩

theorem AreFilled.exists_texts {items : List Json} (h : AreFilled items) :
    ∃ ts : List Text, items = ts.map .text ∧ ∀ t ∈ ts, t ≠ [] := by
  induction items with
  | nil => exact ⟨[], rfl, nofun⟩
  | cons item items ih =>
      obtain ⟨⟨t, ht, rfl⟩, hitems⟩ := List.forall_mem_cons.mp h
      obtain ⟨ts, rfl, hts⟩ := ih hitems
      exact ⟨t :: ts, rfl, List.forall_mem_cons.mpr ⟨ht, hts⟩⟩

/-- The form of settings: the two marks, and the form of every other field that is there. -/
structure WellFormed (fields : List (Text × Json)) : Prop where
  format : field? fields "format" = some (.text format)
  version : ∃ j, field? fields "version" = some j ∧ j.equalsZero = true
  cacheRoot : ∀ j, field? fields "cache_root" = some j → IsFilled j
  compiler : ∀ j, field? fields "compiler" = some j →
    ∃ items, j = .array items ∧ items ≠ [] ∧ AreFilled items
  platformDirectories : ∀ j, field? fields "platform_dirs" = some j →
    ∃ items, j = .array items ∧ AreFilled items
  hostDirectory : ∀ j, field? fields "host_dir" = some j → j = .null ∨ IsFilled j
  hoist : ∀ j, field? fields "hoist_directives" = some j → ∃ b, j = .bool b

/-- A text that leads to a directory: with its home put in, and from `base` unless it is absolute. -/
def Located (e : Environment) (base : Path) (t : Text) (d : Path) : Prop :=
  ∃ seen, e.expandHome? (.ofText t) = some seen ∧
    d = if seen.isAbsolute then seen else ⟨base.anchor, base.names ++ seen.names⟩

/-- Every part of the settings is what its field says, and the default where there is no field. -/
structure Describes (e : Environment) (base : Path) (fields : List (Text × Json)) (s : Settings) :
    Prop where
  cacheRoot : (field? fields "cache_root" = none → s.cacheRoot = (Settings.default e).cacheRoot) ∧
    ∀ t, field? fields "cache_root" = some (.text t) → Located e base t s.cacheRoot
  compiler : (field? fields "compiler" = none → s.compiler = (Settings.default e).compiler) ∧
    ∀ items, field? fields "compiler" = some (.array items) → items = s.compiler.map .text
  platformDirectories :
    (field? fields "platform_dirs" = none →
      s.platformDirectories = (Settings.default e).platformDirectories) ∧
    ∀ items, field? fields "platform_dirs" = some (.array items) →
      List.Forall₂ (fun item d => ∃ t, item = .text t ∧ Located e base t d) items
        s.platformDirectories
  hostDirectory :
    (field? fields "host_dir" = none ∨ field? fields "host_dir" = some .null →
      s.hostDirectory = (Settings.default e).hostDirectory) ∧
    ∀ t, field? fields "host_dir" = some (.text t) →
      ∃ d, Located e base t d ∧ s.hostDirectory = some d
  hoist : (field? fields "hoist_directives" = none → s.hoist = (Settings.default e).hoist) ∧
    ∀ b, field? fields "hoist_directives" = some (.bool b) → s.hoist = b

theorem isSupported_iff :
    isSupported fields = true ↔ field? fields "format" = some (.text format) ∧
      ∃ j, field? fields "version" = some j ∧ j.equalsZero = true := by
  rw [isSupported, Bool.and_eq_true]
  refine and_congr ?_ ?_
  · generalize field? fields "format" = present
    split
    · simp
    · rename_i hother
      exact ⟨nofun, fun htext => absurd htext (hother _)⟩
  · cases field? fields "version" <;> simp

theorem located_of_directory (h : directory e base t = .ok d) : Located e base t d := by
  obtain ⟨-, seen, hseen, rfl⟩ := directory_eq_ok_iff.mp h
  exact ⟨seen, hseen, rfl⟩

theorem wellFormed_of_ofFields (hmarks : isSupported fields = true)
    (h : ofFields e base fields = .ok s) : WellFormed fields := by
  obtain ⟨hformat, hversion⟩ := isSupported_iff.mp hmarks
  obtain ⟨hroot, hcompiler, hplatform, hhost, hhoist⟩ := ofFields_eq_ok_iff.mp h
  refine ⟨hformat, hversion, fun j hj => ?_, fun j hj => ?_, fun j hj => ?_, fun j hj => ?_,
    fun j hj => ?_⟩
  · rcases readCacheRoot_eq_ok_iff.mp hroot with ⟨hnone, -⟩ | ⟨t, hsome, ht, -⟩
    · exact nomatch hnone.symm.trans hj
    · exact ⟨t, ht, Option.some.inj (hj.symm.trans hsome)⟩
  · rcases (readCompiler_eq_ok_iff (e := e)).mp hcompiler with ⟨hnone, -⟩ | ⟨hsome, hne, hts⟩
    · exact nomatch hnone.symm.trans hj
    · exact ⟨_, Option.some.inj (hj.symm.trans hsome), by simpa using hne, areFilled_map hts⟩
  · rcases readPlatformDirectories_eq_ok_iff.mp hplatform with ⟨hnone, -⟩ | ⟨ts, hsome, hts, -⟩
    · exact nomatch hnone.symm.trans hj
    · exact ⟨_, Option.some.inj (hj.symm.trans hsome), areFilled_map hts⟩
  · rcases readHostDirectory_eq_ok_iff.mp hhost with ⟨hnone | hnull, -⟩ | ⟨t, d, hsome, ht, -⟩
    · exact nomatch hnone.symm.trans hj
    · exact .inl (Option.some.inj (hj.symm.trans hnull))
    · exact .inr ⟨t, ht, Option.some.inj (hj.symm.trans hsome)⟩
  · rcases (readHoist_eq_ok_iff (e := e)).mp hhoist with ⟨hnone, -⟩ | hsome
    · exact nomatch hnone.symm.trans hj
    · exact ⟨_, Option.some.inj (hj.symm.trans hsome)⟩

theorem describes_of_ofFields (h : ofFields e base fields = .ok s) : Describes e base fields s := by
  obtain ⟨hroot, hcompiler, hplatform, hhost, hhoist⟩ := ofFields_eq_ok_iff.mp h
  constructor
  · rcases readCacheRoot_eq_ok_iff.mp hroot with ⟨hnone, hdefault⟩ | ⟨t, hsome, -, hd⟩
    · exact ⟨fun _ => hdefault, fun t ht => nomatch hnone.symm.trans ht⟩
    · refine ⟨fun hnone => (nomatch hnone.symm.trans hsome), fun t' ht' => ?_⟩
      obtain ⟨⟩ := hsome.symm.trans ht'
      exact located_of_directory hd
  · rcases (readCompiler_eq_ok_iff (e := e)).mp hcompiler with ⟨hnone, hdefault⟩ | ⟨hsome, -⟩
    · exact ⟨fun _ => hdefault, fun items hitems => nomatch hnone.symm.trans hitems⟩
    · refine ⟨fun hnone => (nomatch hnone.symm.trans hsome), fun items hitems => ?_⟩
      exact Json.array.inj (Option.some.inj (hitems.symm.trans hsome))
  · rcases readPlatformDirectories_eq_ok_iff.mp hplatform with
      ⟨hnone, hdefault⟩ | ⟨ts, hsome, -, hds⟩
    · exact ⟨fun _ => hdefault, fun items hitems => nomatch hnone.symm.trans hitems⟩
    · refine ⟨fun hnone => (nomatch hnone.symm.trans hsome), fun items hitems => ?_⟩
      obtain ⟨⟩ := hsome.symm.trans hitems
      exact List.forall₂_map_left_iff.mpr (hds.imp fun t d hd => ⟨t, rfl, located_of_directory hd⟩)
  · rcases readHostDirectory_eq_ok_iff.mp hhost with
      ⟨hnone | hnull, hdefault⟩ | ⟨t, d, hsome, -, hd, hfound⟩
    · exact ⟨fun _ => hdefault, fun t ht => nomatch hnone.symm.trans ht⟩
    · exact ⟨fun _ => hdefault, fun t ht => nomatch hnull.symm.trans ht⟩
    · refine ⟨fun hnone => ?_, fun t' ht' => ?_⟩
      · rcases hnone with hnone | hnull
        · exact nomatch hnone.symm.trans hsome
        · exact nomatch hnull.symm.trans hsome
      · obtain ⟨⟩ := hsome.symm.trans ht'
        exact ⟨d, located_of_directory hd, hfound⟩
  · rcases (readHoist_eq_ok_iff (e := e)).mp hhoist with ⟨hnone, hdefault⟩ | hsome
    · exact ⟨fun _ => hdefault, fun b hb => nomatch hnone.symm.trans hb⟩
    · refine ⟨fun hnone => (nomatch hnone.symm.trans hsome), fun b hb => ?_⟩
      exact Json.bool.inj (Option.some.inj (hsome.symm.trans hb))

/-! ### Homes -/

inductive NamesDirectory (fields : List (Text × Json)) (t : Text) : Prop
  | cacheRoot (h : field? fields "cache_root" = some (.text t))
  | platform (items : List Json) (h : field? fields "platform_dirs" = some (.array items))
      (hmem : .text t ∈ items)
  | host (h : field? fields "host_dir" = some (.text t))

/-- Whoever's home a directory starts in can be looked up, and has one. -/
def HomesKnown (e : Environment) (fields : List (Text × Json)) : Prop :=
  ∀ t, NamesDirectory fields t →
    isUnaskableHome (.ofText t) = false ∧ e.expandHome? (.ofText t) ≠ none

theorem exists_directory (base : Path) (hask : isUnaskableHome (.ofText t) = false)
    (hhome : e.expandHome? (.ofText t) ≠ none) : ∃ d, directory e base t = .ok d := by
  obtain ⟨seen, hseen⟩ := Option.ne_none_iff_exists'.mp hhome
  exact ⟨base.join seen, directory_eq_ok_iff.mpr ⟨hask, seen, hseen, rfl⟩⟩

theorem exists_directories (base : Path)
    (h : ∀ t ∈ ts, isUnaskableHome (.ofText t) = false ∧ e.expandHome? (.ofText t) ≠ none) :
    ∃ ds, directories e base ts = .ok ds := by
  induction ts with
  | nil => exact ⟨[], rfl⟩
  | cons t ts ih =>
      obtain ⟨⟨hask, hhome⟩, hmore⟩ := List.forall_mem_cons.mp h
      obtain ⟨d, hd⟩ := exists_directory base hask hhome
      obtain ⟨ds, hds⟩ := ih hmore
      exact ⟨d :: ds, directories_eq_ok_iff.mpr (.cons hd (directories_eq_ok_iff.mp hds))⟩

section Loading

variable (hform : WellFormed fields) (hhomes : HomesKnown e fields)

include hform

theorem exists_readCompiler (e : Environment) : ∃ ts, readCompiler fields = .ok ts := by
  simp only [readCompiler_eq_ok_iff (e := e)]
  cases hfield : field? fields "compiler" with
  | none => exact ⟨_, .inl ⟨rfl, rfl⟩⟩
  | some j =>
      obtain ⟨items, rfl, hne, hitems⟩ := hform.compiler j hfield
      obtain ⟨ts, rfl, hts⟩ := hitems.exists_texts
      exact ⟨ts, .inr ⟨rfl, by simpa using hne, hts⟩⟩

theorem exists_readHoist (e : Environment) : ∃ b, readHoist fields = .ok b := by
  simp only [readHoist_eq_ok_iff (e := e)]
  cases hfield : field? fields "hoist_directives" with
  | none => exact ⟨_, .inl ⟨rfl, rfl⟩⟩
  | some j =>
      obtain ⟨b, rfl⟩ := hform.hoist j hfield
      exact ⟨b, .inr rfl⟩

include hhomes

theorem exists_readCacheRoot : ∃ d, readCacheRoot e base fields = .ok d := by
  simp only [readCacheRoot_eq_ok_iff]
  cases hfield : field? fields "cache_root" with
  | none => exact ⟨_, .inl ⟨rfl, rfl⟩⟩
  | some j =>
      obtain ⟨t, ht, rfl⟩ := hform.cacheRoot j hfield
      obtain ⟨hask, hhome⟩ := hhomes t (.cacheRoot hfield)
      obtain ⟨d, hd⟩ := exists_directory base hask hhome
      exact ⟨d, .inr ⟨t, rfl, ht, hd⟩⟩

theorem exists_readPlatformDirectories : ∃ ds, readPlatformDirectories e base fields = .ok ds := by
  simp only [readPlatformDirectories_eq_ok_iff]
  cases hfield : field? fields "platform_dirs" with
  | none => exact ⟨_, .inl ⟨rfl, rfl⟩⟩
  | some j =>
      obtain ⟨items, rfl, hitems⟩ := hform.platformDirectories j hfield
      obtain ⟨ts, rfl, hts⟩ := hitems.exists_texts
      obtain ⟨ds, hds⟩ := exists_directories base fun t ht =>
        hhomes t (.platform _ hfield (List.mem_map_of_mem ht))
      exact ⟨ds, .inr ⟨ts, rfl, hts, directories_eq_ok_iff.mp hds⟩⟩

theorem exists_readHostDirectory : ∃ found, readHostDirectory e base fields = .ok found := by
  simp only [readHostDirectory_eq_ok_iff]
  cases hfield : field? fields "host_dir" with
  | none => exact ⟨_, .inl ⟨.inl rfl, rfl⟩⟩
  | some j =>
      rcases hform.hostDirectory j hfield with rfl | ⟨t, ht, rfl⟩
      · exact ⟨_, .inl ⟨.inr rfl, rfl⟩⟩
      · obtain ⟨hask, hhome⟩ := hhomes t (.host hfield)
        obtain ⟨d, hd⟩ := exists_directory base hask hhome
        exact ⟨some d, .inr ⟨t, d, rfl, ht, hd, rfl⟩⟩

theorem exists_ofFields : ∃ s, ofFields e base fields = .ok s := by
  obtain ⟨cacheRoot, hroot⟩ := exists_readCacheRoot hform hhomes
  obtain ⟨compiler, hcompiler⟩ := exists_readCompiler hform e
  obtain ⟨platformDirectories, hplatform⟩ := exists_readPlatformDirectories hform hhomes
  obtain ⟨hostDirectory, hhost⟩ := exists_readHostDirectory hform hhomes
  obtain ⟨hoist, hhoist⟩ := exists_readHoist hform e
  exact ⟨{ cacheRoot, compiler, platformDirectories, hostDirectory, hoist },
    ofFields_eq_ok_iff.mpr ⟨hroot, hcompiler, hplatform, hhost, hhoist⟩⟩

end Loading

/-! ### Complaints -/

/-- A fault in the form of the settings, as opposed to one met on the way to them. -/
def Fault.IsAboutForm : Fault → Prop
  | .notObject | .unsupported | .notText _ | .notTexts _ | .noCompiler | .notFlag _ => True
  | _ => False

def Formal {α : Type} (x : Except Fault α) : Prop := ∀ fault, x = .error fault → fault.IsAboutForm

section Formal

variable {α β : Type}

theorem formal_ok (a : α) : Formal (.ok a) := nofun

theorem formal_error (h : fault.IsAboutForm) : Formal (.error fault : Except Fault α) := by
  rintro _ ⟨⟩
  exact h

theorem Formal.bind {x : Except Fault α} {f : α → Except Fault β} (hx : Formal x)
    (hf : ∀ a, x = .ok a → Formal (f a)) : Formal (x >>= f) := by
  cases x with
  | ok a => exact hf a rfl
  | error fault => exact formal_error (hx fault rfl)

theorem formal_of_exists {x : Except Fault α} (h : ∃ a, x = .ok a) : Formal x := by
  obtain ⟨a, rfl⟩ := h
  exact formal_ok a

end Formal

theorem formal_textOf : Formal (textOf what j) := by
  rw [textOf.eq_def]
  split
  · exact formal_ok _
  · exact formal_error trivial

theorem formal_textsOf : Formal (textsOf what j) := by
  rw [textsOf.eq_def]
  split
  · split
    · exact formal_ok _
    · exact formal_error trivial
  · exact formal_error trivial

theorem formal_readCacheRoot (hhomes : HomesKnown e fields) :
    Formal (readCacheRoot e base fields) := by
  rw [readCacheRoot]
  split
  · exact formal_ok _
  · rename_i hfield
    refine formal_textOf.bind fun t ht => formal_of_exists ?_
    obtain ⟨rfl, -⟩ := textOf_eq_ok_iff.mp ht
    exact (hhomes t (.cacheRoot hfield)).elim (exists_directory base)

theorem formal_readCompiler (fields : List (Text × Json)) : Formal (readCompiler fields) := by
  rw [readCompiler]
  split
  · exact formal_ok _
  · refine formal_textsOf.bind fun ts _ => ?_
    cases ts with
    | nil => exact formal_error trivial
    | cons t ts => exact formal_ok _

theorem formal_readPlatformDirectories (hhomes : HomesKnown e fields) :
    Formal (readPlatformDirectories e base fields) := by
  rw [readPlatformDirectories]
  split
  · exact formal_ok _
  · rename_i hfield
    refine formal_textsOf.bind fun ts hts => formal_of_exists (exists_directories base fun t ht => ?_)
    obtain ⟨rfl, -⟩ := textsOf_eq_ok_iff.mp hts
    exact hhomes t (.platform _ hfield (List.mem_map_of_mem ht))

theorem formal_readHostDirectory (hhomes : HomesKnown e fields) :
    Formal (readHostDirectory e base fields) := by
  rw [readHostDirectory]
  split
  · exact formal_ok _
  · exact formal_ok _
  · rename_i hfield
    refine formal_textOf.bind fun t ht => ?_
    obtain ⟨rfl, -⟩ := textOf_eq_ok_iff.mp ht
    obtain ⟨d, hd⟩ := (hhomes t (.host hfield)).elim (exists_directory base)
    rw [hd]
    exact formal_ok _

theorem formal_readHoist (fields : List (Text × Json)) : Formal (readHoist fields) := by
  rw [readHoist]
  split
  · exact formal_ok _
  · exact formal_ok _
  · exact formal_error trivial

theorem formal_ofFields (hhomes : HomesKnown e fields) : Formal (ofFields e base fields) := by
  rw [ofFields_eq]
  exact (formal_readCacheRoot hhomes).bind fun _ _ => (formal_readCompiler fields).bind fun _ _ =>
    (formal_readPlatformDirectories hhomes).bind fun _ _ =>
      (formal_readHostDirectory hhomes).bind fun _ _ => (formal_readHoist fields).bind fun _ _ =>
        formal_ok _

/-! ### Values -/

/-- The names that a settings file may use. -/
def knownNames : List Text :=
  ["format", "version", "cache_root", "compiler", "platform_dirs", "host_dir", "hoist_directives"]

theorem ofJson_congr (h : ∀ name ∈ knownNames, field? fields name = field? fields' name) :
    ofJson e base (.object fields) = ofJson e base (.object fields') := by
  simp only [knownNames, List.forall_mem_cons] at h
  obtain ⟨hformat, hversion, hroot, hcompiler, hplatform, hhost, hhoist, -⟩ := h
  have hsupported : isSupported fields = isSupported fields' := by
    rw [isSupported, isSupported, hformat, hversion]
  have hfields : ofFields e base fields = ofFields e base fields' := by
    simp only [ofFields_eq, readCacheRoot, readCompiler, readPlatformDirectories,
      readHostDirectory, readHoist, hroot, hcompiler, hplatform, hhost, hhoist]
  rw [ofJson, ofJson, hsupported, hfields]

theorem ofJson_perm
    (hperm : (fields.filter fun f => f.1 ∈ knownNames).Perm
      (fields'.filter fun f => f.1 ∈ knownNames))
    (hnodup : ((fields.filter fun f => f.1 ∈ knownNames).map Prod.fst).Nodup) :
    ofJson e base (.object fields) = ofJson e base (.object fields') := by
  refine ofJson_congr fun name hname => ?_
  have hknown : ∀ fs : List (Text × Json),
      field? (fs.filter fun f => f.1 ∈ knownNames) name = field? fs name := fun fs =>
    field?_filter (p := fun name => decide (name ∈ knownNames)) (decide_eq_true hname)
  rw [← hknown fields, field?_perm hperm hnodup name, hknown]

theorem formal_ofJson (hhomes : ∀ fields, j = .object fields → HomesKnown e fields) :
    Formal (ofJson e base j) := by
  rw [ofJson.eq_def]
  split
  · split
    · exact formal_ofFields (hhomes _ rfl)
    · exact formal_error trivial
  · exact formal_error trivial

theorem exists_ofJson_iff (hhomes : ∀ fields, j = .object fields → HomesKnown e fields) :
    (∃ s, ofJson e base j = .ok s) ↔ ∃ fields, j = .object fields ∧ WellFormed fields := by
  constructor
  · rintro ⟨s, hs⟩
    rw [ofJson.eq_def] at hs
    split at hs
    · rename_i fields
      split_ifs at hs with hmarks
      exact ⟨fields, rfl, wellFormed_of_ofFields hmarks hs⟩
    · simp at hs
  · rintro ⟨fields, rfl, hform⟩
    rw [ofJson, if_pos (isSupported_iff.mpr ⟨hform.format, hform.version⟩)]
    exact exists_ofFields hform (hhomes fields rfl)

theorem describes_of_ofJson (hs : ofJson e base (.object fields) = .ok s) :
    Describes e base fields s := by
  rw [ofJson] at hs
  split_ifs at hs
  exact describes_of_ofFields hs

/-! ### Files -/

/-- The file of that path can be read, and the value in it too. -/
def Holds (h : Host) (p : Path) (j : Json) : Prop :=
  ∃ content t, h.tree.readFile h.directory p = .ok content ∧ Text.decode content = .ok t ∧
    Json.read (Text.normalizeBreaks t) = .ok j

theorem Holds.load_eq (hholds : Holds h p j) : ((load e p).on h).1 = ofJson e p.parent j := by
  obtain ⟨content, t, hfile, htext, hvalue⟩ := hholds
  have hread : ((Attempt.read p).rephrase Fault.file).on h = (.ok content, h) :=
    Attempt.on_rephrase_eq_ok_iff.mpr (Attempt.on_read_eq_ok_iff.mpr ⟨hfile, rfl⟩)
  rw [load, Attempt.on_bind_of_ok hread, Attempt.on_ofOutcome, ofBytes, htext]
  dsimp only
  rw [hvalue]

/-- A value that is held by a file and whose homes are known is loaded exactly if it has the form
of settings. What is loaded is what it describes, and otherwise the complaint is about its form.
Other fields make no difference, nor does the order. -/
theorem load_iff_wellFormed (hholds : Holds h p j)
    (hhomes : ∀ fields, j = .object fields → HomesKnown e fields) :
    ((∃ s, ((load e p).on h).1 = .ok s) ↔ ∃ fields, j = .object fields ∧ WellFormed fields) ∧
    (∀ fault, ((load e p).on h).1 = .error fault → fault.IsAboutForm) ∧
    (∀ s fields, ((load e p).on h).1 = .ok s → j = .object fields →
      Describes e p.parent fields s) ∧
    ∀ fields fields' h', j = .object fields → Holds h' p (.object fields') →
      (fields.filter fun f => f.1 ∈ knownNames).Perm (fields'.filter fun f => f.1 ∈ knownNames) →
      ((fields.filter fun f => f.1 ∈ knownNames).map Prod.fst).Nodup →
      ((load e p).on h').1 = ((load e p).on h).1 := by
  simp only [hholds.load_eq]
  refine ⟨exists_ofJson_iff hhomes, formal_ofJson hhomes, ?_, ?_⟩
  · rintro s fields hs rfl
    exact describes_of_ofJson hs
  · rintro fields fields' h' rfl hholds' hperm hnodup
    rw [hholds'.load_eq, ofJson_perm hperm hnodup]

theorem holds_of_write (hj : j.Plain)
    (hfile : h.tree.readFile h.directory p = .ok (Text.encode (write j))) : Holds h p j := by
  refine ⟨_, _, hfile, decode_write j, ?_⟩
  rw [normalizeBreaks_write, read_write hj]

def holding (j : Json) : Host where
  tree := ⟨[(["s.json".toList], .file (Text.encode (write j)) false)]⟩

theorem readFile_holding (j : Json) :
    (holding j).tree.readFile (holding j).directory "/s.json" = .ok (Text.encode (write j)) := rfl

/-- Fields are left out that no settings have, and their order is another one. -/
theorem load_iff_wellFormed_two_files :
    let e : Environment := { home := "/home" }
    let fields : List (Text × Json) :=
      [("note", .null), ("format", .text format), ("version", .integer 0),
        ("cache_root", .text "~/cache"), ("platform_dirs", .array [.text "lib"])]
    let fields' : List (Text × Json) :=
      [("platform_dirs", .array [.text "lib"]), ("cache_root", .text "~/cache"),
        ("version", .integer 0), ("format", .text format)]
    ∃ s, ((load e "/s.json").on (holding (.object fields))).1 = .ok s ∧
      Located e "/" "~/cache" s.cacheRoot ∧ s.compiler = ["csc".toList] ∧
      ((load e "/s.json").on (holding (.object fields'))).1 = .ok s := by
  intro e fields fields'
  have hholds : Holds (holding (.object fields)) "/s.json" (.object fields) := by
    refine holds_of_write (.object ?_) (readFile_holding _)
    simp only [fields, List.forall_mem_cons]
    exact ⟨.null, .text _, .integer (by decide +kernel), .text _,
      .array (List.forall_mem_singleton.mpr (.text _)), nofun⟩
  have hholds' : Holds (holding (.object fields')) "/s.json" (.object fields') := by
    refine holds_of_write (.object ?_) (readFile_holding _)
    simp only [fields', List.forall_mem_cons]
    exact ⟨.array (List.forall_mem_singleton.mpr (.text _)), .text _,
      .integer (by decide +kernel), .text _, nofun⟩
  have hhomes : HomesKnown e fields := by
    rintro t (h | ⟨items, h, hmem⟩ | h)
    · cases h
      decide
    · cases h
      obtain rfl := Json.text.inj (List.mem_singleton.mp hmem)
      decide
    · exact nomatch h
  have hform : WellFormed fields := by
    constructor
    · rfl
    · exact ⟨.integer 0, rfl, rfl⟩
    · rintro j ⟨⟩
      exact ⟨_, by decide, rfl⟩
    · exact nofun
    · rintro j ⟨⟩
      exact ⟨_, rfl, List.forall_mem_singleton.mpr ⟨_, by decide, rfl⟩⟩
    · exact nofun
    · exact nofun
  have hperm : (fields.filter fun f => f.1 ∈ knownNames).Perm
      (fields'.filter fun f => f.1 ∈ knownNames) := by
    show List.Perm [_, _, _, _] [_, _, _, _]
    exact (List.reverse_perm [_, _, _, _]).symm
  obtain ⟨hiff, -, hdescribes, hsame⟩ := load_iff_wellFormed hholds (e := e) (by
    rintro _ ⟨⟩
    exact hhomes)
  obtain ⟨s, hs⟩ := hiff.mpr ⟨fields, rfl, hform⟩
  have hparts := hdescribes s fields hs rfl
  refine ⟨s, hs, hparts.cacheRoot.2 _ rfl, hparts.compiler.1 rfl, ?_⟩
  rw [hsame fields fields' _ rfl hholds' hperm (by decide +kernel), hs]

theorem load_of_long {n : Nat} (hn : Nat.pow 10 Text.digitLimit ≤ n) {name : Text}
    (hfile : h.tree.readFile h.directory p =
      .ok (Text.encode (write (.object ((name, .integer n) :: fields))))) :
    ((load e p).on h).1 =
      .error (.json (write (.object ((name, .integer n) :: fields)))
        (.number (.text (Text.ofNat n).length))) := by
  have hread : ((Attempt.read p).rephrase Fault.file).on h = (.ok _, h) :=
    Attempt.on_rephrase_eq_ok_iff.mpr (Attempt.on_read_eq_ok_iff.mpr ⟨hfile, rfl⟩)
  rw [load, Attempt.on_bind_of_ok hread, Attempt.on_ofOutcome, ofBytes, decode_write]
  dsimp only
  rw [normalizeBreaks_write, read_write_long hn]

/-- A value has the form of settings and is not loaded: its text cannot be read for a long number
in it, in a field that no settings have. -/
theorem load_refuses_long_number :
    let e : Environment := { home := "/home" }
    let fields : List (Text × Json) :=
      [("note", .integer (Nat.pow 10 Text.digitLimit)), ("format", .text format),
        ("version", .integer 0)]
    let h := holding (.object fields)
    WellFormed fields ∧ HomesKnown e fields ∧
      h.tree.readFile h.directory "/s.json" = .ok (Text.encode (write (.object fields))) ∧
      ∃ content fault, ((load e "/s.json").on h).1 = .error (.json content fault) := by
  intro e fields h
  have hform : WellFormed fields := by
    constructor
    · rfl
    · exact ⟨.integer 0, rfl, rfl⟩
    all_goals exact nofun
  have hhomes : HomesKnown e fields := by
    rintro t (h | ⟨items, h, -⟩ | h) <;> exact nomatch h
  exact ⟨hform, hhomes, readFile_holding _, _, _,
    load_of_long (Nat.le_refl _) (readFile_holding _)⟩

end Settings

end ScriptWeave
