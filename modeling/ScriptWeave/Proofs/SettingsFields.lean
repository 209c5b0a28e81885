import ScriptWeave.Proofs.Runs
import ScriptWeave.Settings

namespace ScriptWeave

theorem Except.bind_eq_ok_iff {ε α β : Type} {x : Except ε α} {f : α → Except ε β} {b : β} :
    (x >>= f) = .ok b ↔ ∃ a, x = .ok a ∧ f a = .ok b := by
  cases x <;> simp [bind, Except.bind]

namespace Settings

variable {e : Environment} {base p d : Path} {fields : List (Text × Json)} {s : Settings}
variable {h h' : Host}

def readCacheRoot (e : Environment) (base : Path) (fields : List (Text × Json)) :
    Except Fault Path :=
  match Json.field? fields "cache_root" with
  | none => .ok e.defaultCacheRoot
  | some j => do directory e base (← textOf "cache_root" j)

def readCompiler (fields : List (Text × Json)) : Except Fault (List Text) :=
  match Json.field? fields "compiler" with
  | none => .ok ["csc"]
  | some j => do
      match ← textsOf "compiler" j with
      | [] => .error .noCompiler
      | words => .ok words

def readPlatformDirectories (e : Environment) (base : Path) (fields : List (Text × Json)) :
    Except Fault (List Path) :=
  match Json.field? fields "platform_dirs" with
  | none => .ok []
  | some j => do directories e base (← textsOf "platform_dirs" j)

def readHostDirectory (e : Environment) (base : Path) (fields : List (Text × Json)) :
    Except Fault (Option Path) :=
  match Json.field? fields "host_dir" with
  | none | some .null => .ok none
  | some j => do .ok (some (← directory e base (← textOf "host_dir" j)))

def readHoist (fields : List (Text × Json)) : Except Fault Bool :=
  match Json.field? fields "hoist_directives" with
  | none => .ok true
  | some (.bool b) => .ok b
  | some _ => .error (.notFlag "hoist_directives")

section Continuations

variable {α : Type}

theorem readCacheRoot_bind (k : Path → Except Fault α) :
    readCacheRoot e base fields >>= k =
      match Json.field? fields "cache_root" with
      | none => Except.ok e.defaultCacheRoot >>= k
      | some j => (do k (← directory e base (← textOf "cache_root" j))) := by
  rw [readCacheRoot]
  split <;> simp only [bind_assoc]

theorem readCompiler_bind (k : List Text → Except Fault α) :
    readCompiler fields >>= k =
      match Json.field? fields "compiler" with
      | none => Except.ok ["csc".toList] >>= k
      | some j => (do
          match ← textsOf "compiler" j with
          | [] => Except.error Fault.noCompiler >>= k
          | words => Except.ok words >>= k) := by
  rw [readCompiler]
  split
  · rfl
  · rw [bind_assoc]
    refine bind_congr fun words => ?_
    cases words <;> rfl

theorem readPlatformDirectories_bind (k : List Path → Except Fault α) :
    readPlatformDirectories e base fields >>= k =
      match Json.field? fields "platform_dirs" with
      | none => Except.ok [] >>= k
      | some j => (do k (← directories e base (← textsOf "platform_dirs" j))) := by
  rw [readPlatformDirectories]
  split <;> simp only [bind_assoc]

theorem readHostDirectory_bind (k : Option Path → Except Fault α) :
    readHostDirectory e base fields >>= k =
      match Json.field? fields "host_dir" with
      | none | some .null => Except.ok none >>= k
      | some j => (do Except.ok (some (← directory e base (← textOf "host_dir" j))) >>= k) := by
  rw [readHostDirectory]
  split <;> simp only [bind_assoc]

theorem readHoist_bind (k : Bool → Except Fault α) :
    readHoist fields >>= k =
      match Json.field? fields "hoist_directives" with
      | none => Except.ok true >>= k
      | some (.bool b) => Except.ok b >>= k
      | some _ => Except.error (Fault.notFlag "hoist_directives") >>= k := by
  rw [readHoist]
  split <;> rfl

end Continuations

theorem ofFields_eq (e : Environment) (base : Path) (fields : List (Text × Json)) :
    ofFields e base fields = (do
      let cacheRoot ← readCacheRoot e base fields
      let compiler ← readCompiler fields
      let platformDirectories ← readPlatformDirectories e base fields
      let hostDirectory ← readHostDirectory e base fields
      let hoist ← readHoist fields
      .ok { cacheRoot, compiler, platformDirectories, hostDirectory, hoist }) := by
  simp only [readCacheRoot_bind, readCompiler_bind, readPlatformDirectories_bind,
    readHostDirectory_bind, readHoist_bind]
  rfl

theorem ofFields_eq_ok_iff :
    ofFields e base fields = .ok s ↔
      readCacheRoot e base fields = .ok s.cacheRoot ∧ readCompiler fields = .ok s.compiler ∧
      readPlatformDirectories e base fields = .ok s.platformDirectories ∧
      readHostDirectory e base fields = .ok s.hostDirectory ∧ readHoist fields = .ok s.hoist := by
  simp only [ofFields_eq, Except.bind_eq_ok_iff]
  constructor
  · rintro ⟨cacheRoot, hroot, compiler, hcompiler, platform, hplatform, host, hhost, hoist, hhoist,
      hsettings⟩
    obtain rfl := Except.ok.inj hsettings
    exact ⟨hroot, hcompiler, hplatform, hhost, hhoist⟩
  · rintro ⟨hroot, hcompiler, hplatform, hhost, hhoist⟩
    exact ⟨_, hroot, _, hcompiler, _, hplatform, _, hhost, _, hhoist, rfl⟩

theorem directory_eq_ok_iff {t : Text} :
    directory e base t = .ok d ↔
      isUnaskableHome (Path.ofText t) = false ∧
        ∃ seen, e.expandHome? (Path.ofText t) = some seen ∧ d = base.join seen := by
  cases hhome : isUnaskableHome (Path.ofText t) with
  | true => simp [directory, hhome]
  | false =>
      cases hexpand : e.expandHome? (Path.ofText t) with
      | none => simp [directory, hhome, hexpand]
      | some seen => simp [directory, hhome, hexpand, eq_comm]

theorem mem_of_directories {ts : List Text} {ds : List Path}
    (hdirectories : directories e base ts = .ok ds) (hd : d ∈ ds) :
    ∃ t, directory e base t = .ok d := by
  induction ts generalizing ds with
  | nil =>
      obtain rfl := Except.ok.inj hdirectories
      exact absurd hd List.not_mem_nil
  | cons t ts ih =>
      rw [directories] at hdirectories
      split at hdirectories
      · exact nomatch hdirectories
      · rename_i first hfirst
        cases hmore : directories e base ts with
        | error fault =>
            rw [hmore] at hdirectories
            exact nomatch hdirectories
        | ok more =>
            rw [hmore] at hdirectories
            obtain rfl := Except.ok.inj hdirectories
            rcases List.mem_cons.mp hd with rfl | hd
            · exact ⟨t, hfirst⟩
            · exact ih hmore hd

theorem mem_provided_of_ofFields (hfields : ofFields e base fields = .ok s)
    (hd : d ∈ s.providedDirectories) : ∃ t, directory e base t = .ok d := by
  obtain ⟨-, -, hplatform, hhost, -⟩ := ofFields_eq_ok_iff.mp hfields
  rcases List.mem_append.mp hd with hd | hd
  · rw [readPlatformDirectories] at hplatform
    split at hplatform
    · rw [← Except.ok.inj hplatform] at hd
      exact absurd hd List.not_mem_nil
    · obtain ⟨ts, -, hdirectories⟩ := Except.bind_eq_ok_iff.mp hplatform
      exact mem_of_directories hdirectories hd
  · rw [Option.mem_toList] at hd
    rw [hd, readHostDirectory] at hhost
    split at hhost
    · exact nomatch hhost
    · exact nomatch hhost
    · obtain ⟨t, -, hrest⟩ := Except.bind_eq_ok_iff.mp hhost
      obtain ⟨d', hdirectory, hsame⟩ := Except.bind_eq_ok_iff.mp hrest
      obtain rfl := Option.some.inj (Except.ok.inj hsame)
      exact ⟨t, hdirectory⟩

theorem exists_fields_of_load (hload : (load e p).on h = (.ok s, h')) :
    ∃ fields, isSupported fields = true ∧ ofFields e p.parent fields = .ok s := by
  obtain ⟨content, between, -, houtcome⟩ := Attempt.on_bind_eq_ok_iff.mp hload
  obtain ⟨hbytes, -⟩ := Attempt.on_ofOutcome_eq_ok_iff.mp houtcome
  rw [ofBytes] at hbytes
  split at hbytes
  · exact nomatch hbytes
  · dsimp only at hbytes
    split at hbytes
    · exact nomatch hbytes
    · rename_i j _
      rw [ofJson.eq_def] at hbytes
      split at hbytes
      · split at hbytes
        · rename_i hsupported
          exact ⟨_, hsupported, hbytes⟩
        · exact nomatch hbytes
      · exact nomatch hbytes

end Settings

end ScriptWeave
