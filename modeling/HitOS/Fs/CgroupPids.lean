import HitOS.Fs.Cgroup
import HitOS.Lib.Reachable
import HitOS.Syscall.Error

/-!
# The limit on the threads of a cgroup

`fs/cgroupfs/mod.rs`: what `fork` and `clone` do to the counts of the cgroups. A new thread is
checked against the limits and counted in one critical section (`cgroupAttachThread`), and a limit
holds (`attachThreads_keepsLimits`). A new process is checked before the address space is copied,
and counted afterwards (`cgroupForkPrecheck`, `cgroupAttachForkChild`). The limit holds if nothing
takes the place in between (`World.Inv`, `pids_max_of_careful_run`). Two forks that are checked
before either is counted take the last place twice: `two_forks_exceed`.
-/

namespace HitOS.Cgroup

open List CgroupMountState

/-- The hierarchies with their keys. -/
abbrev Registry := List (Nat × CgroupMountState)

/-- The test of every count down to the path against the limit of its node. -/
def CgroupMountState.limitsAllow (st : CgroupMountState) (path : CgroupPath)
    (test : Nat → Nat → Bool) : Bool :=
  (ancestorPaths path).all fun p =>
    match st.nodes p with
    -- a path without a node has no limit
    | none => true
    | some node =>
      match node.pidsMax with
      | none => true
      | some limit => test node.subtreeThreadCount limit

def cgroupForkPrecheck (reg : Registry) (parentPid : Nat) : Except SyscallError Unit :=
  if reg.all fun h => h.2.limitsAllow (h.2.pathForPid parentPid) fun count limit => count < limit then .ok ()
  else .error .eagain

def cgroupAttachForkChild (reg : Registry) (parentPid childPid : Nat) (live : List CgroupThreadId) :
    Registry :=
  reg.map fun h => (h.1, h.2.attachProcess childPid (h.2.pathForPid parentPid) live)

/-- The cgroup that `clone3` names for its child. -/
structure CgroupAttachTarget where
  hierarchyKey : Nat
  relPath : CgroupPath

def cgroupThreadDestinationPath (h : Nat × CgroupMountState) (parent : CgroupThreadId)
    (target : Option CgroupAttachTarget) : Except SyscallError (CgroupPath × Bool) :=
  match target with
  | some target =>
    if h.1 = target.hierarchyKey then
      if h.2.kind ≠ .unified then .error .einval
      else if (h.2.nodes target.relPath).isNone then .error .enoent
      else .ok (target.relPath, true)
    else .ok (h.2.pathForThread parent, false)
  | none => .ok (h.2.pathForThread parent, false)

/-- The two loops of `cgroup_attach_thread`: the hierarchies with the thread in them if every one
has room for it, and whether one of them is the target's. -/
def attachThreads (parent child : CgroupThreadId) (target : Option CgroupAttachTarget) :
    Registry → Except SyscallError (Registry × Bool)
  | [] => .ok ([], false)
  | h :: reg =>
    match cgroupThreadDestinationPath h parent target with
    | .error e => .error e
    | .ok (path, usedTarget) =>
      if h.2.limitsAllow path fun count limit => satAdd count 1 ≤ limit then
        -- nothing is written before every hierarchy has been checked
        match attachThreads parent child target reg with
        | .error e => .error e
        | .ok (reg, sawTarget) => .ok ((h.1, h.2.attachThread child path) :: reg, usedTarget || sawTarget)
      else .error .eagain

def cgroupAttachThread (reg : Registry) (parent child : CgroupThreadId) (target : Option CgroupAttachTarget) :
    Except SyscallError Registry :=
  match attachThreads parent child target reg with
  | .error e => .error e
  | .ok (reg, sawTarget) => if target.isNone || sawTarget then .ok reg else .error .enoent

/-! ### Limits -/

/-- No count passes the limit of its node. -/
def CgroupMountState.KeepsLimits (st st' : CgroupMountState) : Prop :=
  ∀ path node limit, st.nodes path = some node → node.pidsMax = some limit → node.subtreeThreadCount ≤ limit →
    ∃ node', st'.nodes path = some node' ∧ node'.pidsMax = some limit ∧ node'.subtreeThreadCount ≤ limit

/-- No count of any hierarchy does. -/
def KeepsLimits (reg reg' : Registry) : Prop := List.Forall₂ (fun h h' => h.2.KeepsLimits h'.2) reg reg'

section Limits

variable {st st' : CgroupMountState} {path p : CgroupPath} {node : CgroupNode} {limit : Nat}

theorem limitsAllow_le {test : Nat → Nat → Bool} (h : st.limitsAllow path test = true)
    (hp : p ∈ ancestorPaths path) (hnode : st.nodes p = some node) (hlimit : node.pidsMax = some limit) :
    test node.subtreeThreadCount limit = true := by
  have hone := all_eq_true.mp h p hp
  simpa only [hnode, hlimit] using hone

/-- A node where a thread is taken away somewhere, or not. -/
theorem nodes_uncount (st : CgroupMountState) {old : Option CgroupPath} (hnode : st.nodes p = some node) :
    ∃ count ≤ node.subtreeThreadCount,
      (st.uncount old).nodes p = some { node with subtreeThreadCount := count } := by
  cases old with
  | none => exact ⟨_, le_rfl, hnode⟩
  | some =>
    dsimp only [uncount, adjustSubtreeThreadCount]
    split
    · exact ⟨_, Nat.sub_le _ 1, by rw [hnode]; rfl⟩
    · exact ⟨_, le_rfl, hnode⟩

/-- **A thread that comes** where there is room for it. -/
theorem setThreadAssignment_keepsLimits {t : CgroupThreadId}
    (h : ∀ p node limit, p ∈ ancestorPaths path → st.nodes p = some node → node.pidsMax = some limit →
      node.subtreeThreadCount ≤ limit → satAdd node.subtreeThreadCount 1 ≤ limit) :
    st.KeepsLimits (st.setThreadAssignment t path) := by
  intro p node limit hnode hlimit hle
  unfold setThreadAssignment
  dsimp only
  split
  · -- the thread is there already
    exact ⟨node, hnode, hlimit, hle⟩
  -- it leaves its old place first, which only lowers counts
  obtain ⟨count, hcount, htaken⟩ := nodes_uncount
    { st with threadAssignments := st.threadAssignments.insert t path } hnode
  rw [adjustSubtreeThreadCount]
  dsimp only
  split
  · next hp =>
    refine ⟨{ node with subtreeThreadCount := satAdd count 1 }, by rw [htaken]; rfl, hlimit, ?_⟩
    have hroom := h p node limit hp hnode hlimit hle
    unfold satAdd at hroom ⊢
    dsimp only
    omega
  · exact ⟨_, htaken, hlimit, hcount.trans hle⟩

end Limits

/-- **`clone`** of a thread. -/
theorem attachThreads_keepsLimits {parent child : CgroupThreadId} {target : Option CgroupAttachTarget}
    {reg reg' : Registry} {sawTarget : Bool}
    (h : attachThreads parent child target reg = .ok (reg', sawTarget)) :
    KeepsLimits reg reg' := by
  -- one hierarchy after the other, as the loops go
  induction reg generalizing reg' sawTarget with
  | nil =>
    cases h
    exact Forall₂.nil
  | cons _ _ ih =>
    unfold attachThreads at h
    split at h
    · cases h
    next _ _ _ =>
    split at h
    swap
    · cases h
    next hallow =>
    split at h
    · cases h
    next _ _ hrest =>
    cases h
    refine Forall₂.cons (setThreadAssignment_keepsLimits fun p node limit hp hnode hlimit _ => ?_) (ih hrest)
    exact of_decide_eq_true (limitsAllow_le hallow hp hnode hlimit)

theorem cgroupForkPrecheck_eq_ok {reg : Registry} {parentPid : Nat} :
    cgroupForkPrecheck reg parentPid = .ok () ↔ ∀ h ∈ reg,
      (h.2.limitsAllow (h.2.pathForPid parentPid) fun count limit => count < limit) = true := by
  unfold cgroupForkPrecheck
  split
  · next hall => exact iff_of_true rfl (all_eq_true.mp hall)
  · next hall => exact iff_of_false (by rintro ⟨⟩) fun h => hall (all_eq_true.mpr h)

/-- **`fork`**, if the check passes when the child is counted. -/
theorem attachForkChild_keepsLimits {reg : Registry} {parentPid : Nat} {childPid : Nat}
    {live : List CgroupThreadId} (hlive : live.length ≤ 1)
    (hcheck : cgroupForkPrecheck reg parentPid = .ok ()) :
    KeepsLimits reg (cgroupAttachForkChild reg parentPid childPid live) := by
  have hall := cgroupForkPrecheck_eq_ok.mp hcheck
  refine forall₂_map_right_iff.mpr (forall₂_same.mpr fun h hh => ?_)
  -- the child has one thread at most
  match live, hlive with
  | [], _ => exact fun _ node _ hnode hlimit hle => ⟨node, hnode, hlimit, hle⟩
  | [t], _ =>
    intro p node limit hnode hlimit hle
    refine setThreadAssignment_keepsLimits (fun p node limit hp hnode hlimit _ => ?_) p node limit
      hnode hlimit hle
    exact (satAdd_le_add ..).trans (of_decide_eq_true (limitsAllow_le (hall h hh) hp hnode hlimit))

/-! ### Runs -/

/-- The registry, the processes whose fork has been checked and is not counted yet, and the
registries before and after each fork and clone. -/
structure World where
  registry : Registry
  forks : List Nat
  log : List (Registry × Registry)

/-- A step is one critical section. `abort` is a fork that fails after its check. `other` is any
other change of the registry: threads and processes that exit or are moved, cgroups that are made or
removed, limits that are written. -/
inductive Op
  | precheck (parentPid : Nat)
  | abort (parentPid : Nat)
  | attachFork (parentPid childPid : Nat) (live : List CgroupThreadId)
  | clone (parent child : CgroupThreadId) (target : Option CgroupAttachTarget)
  | other (reg : Registry)

def World.exec (w : World) : Op → Option World
  | .precheck parentPid =>
    match cgroupForkPrecheck w.registry parentPid with
    | .ok () => some { w with forks := parentPid :: w.forks }
    | .error _ => some w
  | .abort parentPid => some { w with forks := w.forks.erase parentPid }
  | .attachFork parentPid childPid live =>
    -- the child of a fork has one thread, which may be gone already
    if parentPid ∈ w.forks ∧ live.length ≤ 1 then
      let reg := cgroupAttachForkChild w.registry parentPid childPid live
      some ⟨reg, w.forks.erase parentPid, (w.registry, reg) :: w.log⟩
    else none
  | .clone parent child target =>
    match cgroupAttachThread w.registry parent child target with
    | .ok reg => some { w with registry := reg, log := (w.registry, reg) :: w.log }
    | .error _ => some w
  | .other reg => some { w with registry := reg }

def Step (w w' : World) : Prop := ∃ op, w.exec op = some w'

/-- The processes stay where they are, no limit is new or lower, and no count that has a limit is
higher. -/
def CgroupMountState.KeepsRoom (pids : List Nat) (st st' : CgroupMountState) : Prop :=
  (∀ pid ∈ pids, st'.pathForPid pid = st.pathForPid pid) ∧
  ∀ path node' limit', st'.nodes path = some node' → node'.pidsMax = some limit' →
    ∃ node limit, st.nodes path = some node ∧ node.pidsMax = some limit ∧ limit ≤ limit' ∧
      node'.subtreeThreadCount ≤ node.subtreeThreadCount

/-- What may happen while a fork has been checked and its child is not counted yet: no other fork
and no clone counts a thread, and other changes leave the room that there was. -/
def Op.Careful (w : World) : Op → Prop
  | .precheck _ | .abort _ => True
  | .attachFork parentPid _ _ => w.forks = [parentPid]
  | .clone .. => w.forks = []
  | .other reg => List.Forall₂ (fun h h' => h.2.KeepsRoom w.forks h'.2) w.registry reg ∨ w.forks = []

def CarefulStep (w w' : World) : Prop := ∃ op, w.exec op = some w' ∧ op.Careful w

/-- The check of a fork passes until its child is counted. -/
theorem precheck_keepsRoom {pids : List Nat} {pid : Nat} (hpid : pid ∈ pids) {reg reg' : Registry}
    (hroom : List.Forall₂ (fun h h' => h.2.KeepsRoom pids h'.2) reg reg')
    (hok : cgroupForkPrecheck reg pid = .ok ()) : cgroupForkPrecheck reg' pid = .ok () := by
  rw [cgroupForkPrecheck_eq_ok] at hok ⊢
  induction hroom with
  | nil => exact nofun
  | @cons h h' _ _ hkeeps _ ih =>
    obtain ⟨hhead, htail⟩ := forall_mem_cons.mp hok
    refine forall_mem_cons.mpr ⟨all_eq_true.mpr fun p hp => ?_, ih htail⟩
    rw [hkeeps.1 pid hpid] at hp
    cases hnode' : h'.2.nodes p with
    | none => rfl
    | some node' =>
    cases hlimit' : node'.pidsMax with
    | none => simp only [hlimit']
    | some limit' =>
    -- the node had this limit or a lower one before, and room below it
    obtain ⟨node, limit, hnode, hlimit, hle, hcount⟩ := hkeeps.2 p node' limit' hnode' hlimit'
    have hlt := of_decide_eq_true (limitsAllow_le hhead hp hnode hlimit)
    simp only [hlimit', decide_eq_true_eq]
    exact lt_of_le_of_lt hcount (hlt.trans_le hle)

structure World.Inv (w : World) : Prop where
  checked : ∀ pid ∈ w.forks, cgroupForkPrecheck w.registry pid = .ok ()
  log : ∀ r ∈ w.log, KeepsLimits r.1 r.2

theorem World.Inv.step {w w' : World} (hi : w.Inv) (h : CarefulStep w w') : w'.Inv := by
  obtain ⟨op, hexec, hcare⟩ := h
  cases op with
  | precheck =>
    simp only [World.exec] at hexec
    split at hexec
    · next hok =>
      cases hexec
      exact ⟨forall_mem_cons.mpr ⟨hok, hi.checked⟩, hi.log⟩
    · cases hexec
      exact hi
  | abort =>
    cases hexec
    exact ⟨fun pid hpid => hi.checked pid (mem_of_mem_erase hpid), hi.log⟩
  | attachFork parentPid =>
    simp only [World.exec] at hexec
    split at hexec
    · next hfork =>
      cases hexec
      have hcheck := hi.checked _ hfork.1
      refine ⟨?_, forall_mem_cons.mpr ⟨attachForkChild_keepsLimits hfork.2 hcheck, hi.log⟩⟩
      -- no other fork waits
      rw [show w.forks = [parentPid] from hcare, erase_cons_head]
      exact nofun
    · cases hexec
  | clone =>
    have hnone : w.forks = [] := hcare
    simp only [World.exec] at hexec
    split at hexec
    · next _ hreg =>
      cases hexec
      refine ⟨by rw [hnone]; exact nofun, forall_mem_cons.mpr ⟨?_, hi.log⟩⟩
      unfold cgroupAttachThread at hreg
      split at hreg
      · cases hreg
      next _ _ hattach =>
      split at hreg
      · cases hreg
        exact attachThreads_keepsLimits hattach
      · cases hreg
    · cases hexec
      exact hi
  | other =>
    cases hexec
    refine ⟨fun pid hpid => ?_, hi.log⟩
    rcases hcare with hroom | hnone
    · exact precheck_keepsRoom hpid hroom (hi.checked pid hpid)
    · rw [hnone] at hpid
      cases hpid

/-- Any registry, before the first fork. -/
def Fresh (w : World) : Prop := ∃ reg, w = ⟨reg, [], []⟩

/-- **`pids.max` is a limit** in every run in which nothing takes the place of a fork between its
check and the count of its child: no fork and no clone raises a count above the limit of its
node. -/
theorem pids_max_of_careful_run {w : World}
    (h : Reachable Fresh CarefulStep w) :
    ∀ r ∈ w.log, KeepsLimits r.1 r.2 := by
  refine World.Inv.log (Reachable.invariant ?_ (fun _ _ hi hs => hi.step hs) h)
  rintro _ ⟨reg, rfl⟩
  exact ⟨nofun, nofun⟩

/-- One hierarchy with one node, with two threads of process 1 in it. -/
def twoThreads (limit : Nat) : Registry :=
  [(0, ⟨.unified,
    fun p => if p = [] then some { pidsMax := some limit, subtreeThreadCount := 2 } else none,
    fun pid => if pid = 1 then some [] else none,
    (OrdMap.empty.insert (toLex (1, 0)) []).insert (toLex (1, 1)) []⟩)]

/-- Two forks, one after the other, take the last two places; a third one is refused. -/
theorem pids_max_of_careful_run_two_forks : ∃ w : World,
    Reachable Fresh CarefulStep w ∧ w.log.length = 2 ∧
      cgroupForkPrecheck w.registry 1 = .error .eagain ∧ ∀ r ∈ w.log, KeepsLimits r.1 r.2 := by
  have h0 : Reachable Fresh CarefulStep ⟨twoThreads 4, [], []⟩ :=
    .start ⟨_, rfl⟩
  have h1 := h0.step ⟨.precheck 1, rfl, trivial⟩
  have h2 := h1.step ⟨.attachFork 1 2 [toLex (2, 0)], rfl, rfl⟩
  have h3 := h2.step ⟨.precheck 1, rfl, trivial⟩
  have h4 := h3.step ⟨.attachFork 1 3 [toLex (3, 0)], rfl, rfl⟩
  exact ⟨_, h4, rfl, rfl, pids_max_of_careful_run h4⟩

/-- **Two forks take one place.** Both threads of process 1 fork; both checks pass before a child is
counted, and the second child makes the count four where three are allowed. -/
theorem two_forks_exceed : ∃ w : World,
    Reachable Fresh Step w ∧ ∃ r ∈ w.log, ¬ KeepsLimits r.1 r.2 := by
  have h0 : Reachable Fresh Step ⟨twoThreads 3, [], []⟩ :=
    .start ⟨_, rfl⟩
  have h1 := h0.step ⟨.precheck 1, rfl⟩
  have h2 := h1.step ⟨.precheck 1, rfl⟩
  have h3 := h2.step ⟨.attachFork 1 2 [toLex (2, 0)], rfl⟩
  have h4 := h3.step ⟨.attachFork 1 3 [toLex (3, 0)], rfl⟩
  -- the count was three before the second child, as the limit allows
  refine ⟨_, h4, _, (.head _), fun hkeeps => ?_⟩
  obtain ⟨hhead, -⟩ := forall₂_cons.mp hkeeps
  obtain ⟨_, hnode', -, hle⟩ := hhead [] { pidsMax := some 3, subtreeThreadCount := 3 } 3 rfl rfl (by decide)
  cases hnode'
  exact absurd hle (by decide)

end HitOS.Cgroup
