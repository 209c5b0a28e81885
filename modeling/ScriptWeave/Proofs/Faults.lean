import ScriptWeave.Proofs.Failure
import ScriptWeave.Proofs.FileTree.NullCharacters
import ScriptWeave.Proofs.Pieces

namespace ScriptWeave

namespace Attempt

variable {ε ε' α β : Type} {allowed : ε → Prop} {allowed' : ε' → Prop} {x : Attempt ε α}

def Faults (allowed : ε → Prop) (x : Attempt ε α) : Prop := ∀ h e, (x.on h).1 = .error e → allowed e

theorem faults_pure (a : α) : (pure a : Attempt ε α).Faults allowed := nofun

theorem Faults.bind_of {f : α → Attempt ε β} (hx : x.Faults allowed)
    (hf : ∀ h a h', x.on h = (.ok a, h') → (f a).Faults allowed) : (x >>= f).Faults allowed := by
  intro h e he
  rcases on_bind_cases (on_eq he) with ⟨e', hfirst, hsame⟩ | ⟨a, between, hfirst, hrest⟩
  · exact Except.error.inj hsame ▸ hx h e' (congrArg Prod.fst hfirst)
  · exact hf h a between hfirst between e (congrArg Prod.fst hrest)

theorem Faults.bind {f : α → Attempt ε β} (hx : x.Faults allowed) (hf : ∀ a, (f a).Faults allowed) :
    (x >>= f).Faults allowed :=
  hx.bind_of fun _ a _ _ => hf a

theorem Faults.rephrase {tell : ε → ε'} (hx : x.Faults allowed)
    (htell : ∀ e, allowed e → allowed' (tell e)) : (x.rephrase tell).Faults allowed' := by
  intro h e he
  rw [on_rephrase] at he
  cases hresult : (x.on h).1 with
  | ok a =>
      rw [hresult] at he
      exact nomatch he
  | error e' =>
      rw [hresult] at he
      exact Except.error.inj he ▸ htell e' (hx h e' hresult)

theorem Faults.mono {allowed' : ε → Prop} (hx : x.Faults allowed)
    (himplies : ∀ e, allowed e → allowed' e) : x.Faults allowed' :=
  fun h e he => himplies e (hx h e he)

theorem Faults.followedBy {last : Procedure Unit} (hx : x.Faults allowed) :
    (x.followedBy last).Faults allowed := by
  intro h e he
  rw [on_followedBy] at he
  exact hx h e he

end Attempt

namespace Attempt

variable {clean : Prop} {p q : Path} {content : Bytes} {α : Type} {h : Host} {e : FileError}

end Attempt

open Attempt

variable {clean : Prop} {p : Path}

namespace Directories

variable {anchor : Anchor} {names : List Text}

end Directories

theorem Path.NullFree.withExtension {extension : Text} (hp : p.NullFree)
    (hextension : '\x00' ∉ extension) : (p.withExtension extension).NullFree := by
  apply hp.withName
  rw [List.mem_append, not_or]
  exact ⟨fun hstem => hp.name (Path.mem_of_mem_stem hstem), hextension⟩

namespace Workspace

variable {w : Workspace}

/-- Nothing that the paths of the workspace are made of has a null character in it. -/
structure NullFree (w : Workspace) : Prop where
  cacheRoot : w.cacheRoot.NullFree
  session : '\x00' ∉ w.session
  project : '\x00' ∉ w.project

theorem NullFree.root (hw : w.NullFree) : w.root.NullFree :=
  (hw.cacheRoot.join (Path.nullFree_ofText (by decide))).join (Path.nullFree_ofText hw.session)

theorem NullFree.path (hw : w.NullFree) : w.path.NullFree :=
  hw.root.join (Path.nullFree_ofText hw.project)

theorem NullFree.entry (hw : w.NullFree) {name : Text} (hname : '\x00' ∉ name) :
    (w.path.join (Path.ofText name)).NullFree :=
  hw.path.join (Path.nullFree_ofText hname)

theorem NullFree.binaryPath (hw : w.NullFree) : w.binaryPath.NullFree := by
  apply hw.entry
  rw [List.mem_append, not_or]
  exact ⟨hw.project, by decide⟩

theorem NullFree.symbolsPath (hw : w.NullFree) : w.symbolsPath.NullFree :=
  hw.binaryPath.withExtension (by decide)

theorem paths_of_write {binary : Bytes} {symbols : Option Bytes} {paths : Path × Option Path}
    {h h' : Host} (hon : (w.write binary symbols).on h = (.ok paths, h')) :
    paths.1 = w.binaryPath ∧ ∀ path, paths.2 = some path → path = w.symbolsPath := by
  unfold write at hon
  rw [on_rephrase_eq_ok_iff, on_bind_eq_ok_iff] at hon
  obtain ⟨_, between, -, hrest⟩ := hon
  cases symbols with
  | none =>
      obtain ⟨hpaths, -⟩ := Prod.mk.inj hrest
      rw [← Except.ok.inj hpaths]
      exact ⟨rfl, nofun⟩
  | some bytes =>
      obtain ⟨_, _, -, hpure⟩ := on_bind_eq_ok_iff.mp hrest
      obtain ⟨hpaths, -⟩ := Prod.mk.inj hpure
      rw [← Except.ok.inj hpaths]
      exact ⟨rfl, fun path hpath => (Option.some.inj hpath).symm⟩

end Workspace

namespace Publication

open Workspace

variable {chunking : Chunking} {source target output : Path} {name : Text}

end Publication

namespace Build

open Workspace

/-- How a build may end without a result: in a fault of a tool, with an output that has no name, or
with a null character in what it was given. -/
inductive Ends (clean : Prop) (output : Path) : BuildFault → Prop
  | tool (fault : ToolFault) : Ends clean output (.tool fault)
  | nameless (h : output.name = []) : Ends clean output (.nameless output)
  | unaskable {e : FileError} (h : ¬ clean) : Ends clean output (.unaskable e)

variable {output : Path} {options : BuildOptions} {settings : Settings} {w : Workspace}
variable {primary : Fragment} {imported : List Fragment}

end Build

end ScriptWeave
