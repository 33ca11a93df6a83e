import Mathlib.Logic.Function.Basic
import Mathlib.Data.List.Basic

/-!
# FluxRs.Lib.Directory — one directory, and what a power loss leaves of it

An operation changes the directory at once.  Until the directory is synced, a power loss may bring back what stood
under a name; of a file that was not synced it may leave anything.
-/

namespace FluxRs.Lib

inductive FileNode where
  | file (uid : ℕ) (bytes : List UInt8) (synced : Bool)
  | link
  | directory
  | special
  deriving DecidableEq

namespace FileNode

/-- What a power loss makes of a node. -/
inductive Survives : FileNode → FileNode → Prop
  | file {uid : ℕ} {bytes left : List UInt8} {synced : Bool} (h : synced = true → left = bytes) :
      Survives (.file uid bytes synced) (.file uid left true)
  | link : Survives .link .link
  | directory : Survives .directory .directory
  | special : Survives .special .special

/-- Nothing of the node is lost. -/
def Settled : FileNode → Prop
  | .file _ _ synced => synced = true
  | _ => True

theorem Survives.eq_of_settled {node left : FileNode} (h : node.Survives left) (hsettled : node.Settled) :
    left = node := by
  cases h with
  | file h =>
    obtain rfl : _ = true := hsettled
    rw [h rfl]
  | link => rfl
  | directory => rfl
  | special => rfl

end FileNode

namespace FileNode

def holding (bytes : List UInt8) : FileNode → FileNode
  | .file uid _ _ => .file uid bytes false
  | node => node

def flushed : FileNode → FileNode
  | .file uid bytes _ => .file uid bytes true
  | node => node

end FileNode

/-- A directory whose names are of type `N`. -/
abbrev Directory (N : Type) := N → Option FileNode

namespace Directory

variable {N : Type} [DecidableEq N]

def modify (name : N) (f : FileNode → FileNode) (view : Directory N) : Directory N :=
  Function.update view name ((view name).map f)

def create (name : N) (node : FileNode) (view : Directory N) : Directory N := Function.update view name (some node)

def unlink (name : N) (view : Directory N) : Directory N := Function.update view name none

def rename (source target : N) (view : Directory N) : Directory N :=
  Function.update (Function.update view target (view source)) source none

end Directory

structure Volume (N : Type) where
  live : Directory N
  /-- What the directory was since its last sync. -/
  past : List (Directory N)

namespace Volume

variable {N : Type}

def views (volume : Volume N) : List (Directory N) := volume.live :: volume.past

def change (f : Directory N → Directory N) (volume : Volume N) : Volume N := ⟨f volume.live, volume.views⟩

/-- `fsync` of the directory. -/
def sync (volume : Volume N) : Volume N := ⟨volume.live, []⟩

def synced (start : Directory N) : Volume N := ⟨start, []⟩

/-- What the next boot may find: under each name, the node of some view. -/
def PowerLoss (volume : Volume N) (left : Directory N) : Prop :=
  ∀ name, ∃ view ∈ volume.views, match view name, left name with
    | some node, some node' => node.Survives node'
    | none, none => True
    | _, _ => False

/-- `P` of every name, in every view. -/
def Holds (P : N → Option FileNode → Prop) (volume : Volume N) : Prop := ∀ view ∈ volume.views, ∀ name, P name (view name)

variable {P : N → Option FileNode → Prop} {volume : Volume N}

theorem holds_synced {start : Directory N} : (synced start).Holds P ↔ ∀ name, P name (start name) :=
  List.forall_mem_singleton

theorem Holds.live (h : volume.Holds P) (name : N) : P name (volume.live name) := h _ List.mem_cons_self name

theorem Holds.change (h : volume.Holds P) {f : Directory N → Directory N} (hf : ∀ name, P name (f volume.live name)) :
    (volume.change f).Holds P :=
  List.forall_mem_cons.mpr ⟨hf, h⟩

theorem Holds.sync (h : volume.Holds P) : volume.sync.Holds P := holds_synced.mpr h.live

/-- A property of settled nodes survives a power loss. -/
theorem Holds.powerLoss (h : volume.Holds P) {left : Directory N} (hleft : volume.PowerLoss left)
    (hstable : ∀ name node node', P name (some node) → node.Survives node' → P name (some node')) :
    (synced left).Holds P := by
  refine holds_synced.mpr fun name => ?_
  obtain ⟨view, hview, hsurvives⟩ := hleft name
  have hP := h view hview name
  split at hsurvives
  · rename_i node node' hnode hnode'
    rw [hnode] at hP
    rw [hnode']
    exact hstable name node node' hP hsurvives
  · rename_i hnode hnode'
    rw [hnode] at hP
    rw [hnode']
    exact hP
  · exact hsurvives.elim

end Volume

end FluxRs.Lib
