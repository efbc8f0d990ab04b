import HitOS.Lib.OrdMap
import HitOS.Lib.Usize

/-!
# Cgroup hierarchies

`fs/cgroupfs/node.rs` and `fs/cgroupfs/mount_state.rs`: the nodes of a hierarchy, which process and
which thread is in which of them, and the number of threads below each node, which is kept up to
date when a thread comes or goes.
-/

namespace HitOS.Cgroup

inductive LegacyFreezerState
  | thawed
  | frozen
  deriving DecidableEq

/-- The fields of a node that limits and the freezer use. -/
structure CgroupNode where
  freezerState : LegacyFreezerState := .thawed
  pidsMax : Option Nat := none
  subtreeThreadCount : Nat := 0

/-- A path in a hierarchy as the list of its components. The root is the empty one. -/
abbrev CgroupPath := List String

/-- A thread: the process and the index in it, ordered in this way. -/
abbrev CgroupThreadId := Nat ×ₗ Nat

def CgroupThreadId.tgid (t : CgroupThreadId) : Nat := (ofLex t).1

inductive CgroupMountKind
  | unified
  | legacyFreezer
  | legacyOther
  deriving DecidableEq

structure CgroupMountState where
  kind : CgroupMountKind
  nodes : CgroupPath → Option CgroupNode
  processAssignments : Nat → Option CgroupPath
  threadAssignments : OrdMap CgroupThreadId CgroupPath

/-- `/`, `/a`, `/a/b` and so on down to the path. -/
def ancestorPaths (path : CgroupPath) : List CgroupPath := path.inits

def isDescendantOrSelf (path ancestor : CgroupPath) : Bool := ancestor.isPrefixOf path

namespace CgroupMountState

variable (st : CgroupMountState)

def pathForPid (pid : Nat) : CgroupPath := (st.processAssignments pid).getD []

def pathForThread (t : CgroupThreadId) : CgroupPath :=
  (st.threadAssignments.get? t).getD (st.pathForPid t.tgid)

/-- One thread more, or one less, below every node down to the path. -/
def adjustSubtreeThreadCount (path : CgroupPath) (add : Bool) : CgroupMountState :=
  { st with
    nodes := fun p =>
      if p ∈ ancestorPaths path then
        (st.nodes p).map fun node => { node with
          subtreeThreadCount :=
            if add then satAdd node.subtreeThreadCount 1 else node.subtreeThreadCount - 1 }
      else st.nodes p }

/-- One less where the thread was before, if it was anywhere. -/
def uncount : Option CgroupPath → CgroupMountState
  | some old => st.adjustSubtreeThreadCount old false
  | none => st

def setThreadAssignment (t : CgroupThreadId) (path : CgroupPath) : CgroupMountState :=
  let oldPath := st.threadAssignments.get? t
  let st := { st with threadAssignments := st.threadAssignments.insert t path }
  if oldPath = some path then st
  else (st.uncount oldPath).adjustSubtreeThreadCount path true

/-- `attach_process`, where `live` are the threads of the process that are alive. -/
def attachProcess (pid : Nat) (path : CgroupPath) (live : List CgroupThreadId) :
    CgroupMountState :=
  live.foldl (fun st t => st.setThreadAssignment t path)
    { st with processAssignments := fun p => if p = pid then some path else st.processAssignments p }

def attachThread (t : CgroupThreadId) (path : CgroupPath) : CgroupMountState :=
  st.setThreadAssignment t path

end CgroupMountState

end HitOS.Cgroup
