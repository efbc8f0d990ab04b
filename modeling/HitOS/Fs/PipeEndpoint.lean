import HitOS.Fs.Pipe

/-!
# The descriptors of an endpoint

`fs/pipe.rs`: `on_fd_install` and `on_fd_close` count the descriptors of an endpoint, and mark it as
shut down with the last of them. The count is an atomic and the mark is changed under the lock of
the ring, so that other tasks come between the two steps.

An install that comes between the steps of the last close clears the mark before the close sets it
(`overtaken_close_shuts`). A FIFO that is opened for reading and writing (`FifoDuplexFile`) has a
descriptor of both ends that is not counted. If no descriptor comes to an endpoint that is being
shut down, and the last one that is counted is not closed before the others, an endpoint with a
descriptor is not marked once all calls have returned (`endpoint_open_of_descriptor`).
-/

namespace HitOS.Pipe

/-- A `Pipe` object is the read end or the write end. -/
inductive PipeEnd
  | read
  | write

/-- What a task has still to do under the lock. -/
inductive FdPhase
  | idle
  /-- It installed the first descriptor. -/
  | installed
  /-- It closed the last descriptor. -/
  | closed
  deriving DecidableEq

/-- A `Pipe` object: what the ring says of its end, and the tasks that install and close its
descriptors. -/
structure Endpoint where
  fifo : Bool
  shutdown : Bool
  strongCount : Nat
  refBias : Nat
  fdRefs : Nat
  /-- How many slots of descriptor tables refer to the object. -/
  descriptors : Nat
  /-- How many `FifoDuplexFile`s that slots refer to hold the object. -/
  duplex : Nat
  tasks : List FdPhase

namespace Endpoint

def IsEnd (s : Endpoint) (p : PipeState) : PipeEnd → Prop
  | .read => p.readEndShutdown = s.shutdown ∧ p.readEnd = s.strongCount ∧ p.readEndRefBias = s.refBias
  | .write => p.writeEndShutdown = s.shutdown ∧ p.writeEnd = s.strongCount ∧ p.writeEndRefBias = s.refBias

/-- A slot takes a reference, and `on_fd_install` counts it. -/
def install (s : Endpoint) (t : Nat) : Endpoint :=
  { s with
    strongCount := s.strongCount + 1
    fdRefs := s.fdRefs + 1
    descriptors := s.descriptors + 1
    tasks := if s.fdRefs = 0 then s.tasks.set t .installed else s.tasks }

/-- A slot is emptied, and `on_fd_close` takes it off the count. The reference is given up later. -/
def close (s : Endpoint) (t : Nat) : Endpoint :=
  { s with
    fdRefs := s.fdRefs - 1
    descriptors := s.descriptors - 1
    tasks := if s.fdRefs = 1 then s.tasks.set t .closed else s.tasks }

/-- The second step of either. -/
def mark (s : Endpoint) (t : Nat) (shutdown : Bool) : Endpoint :=
  { s with shutdown := shutdown, tasks := s.tasks.set t .idle }

/-- No call of `on_fd_install` or `on_fd_close` is under way. -/
def Quiescent (s : Endpoint) : Prop := ∀ phase ∈ s.tasks, phase = .idle

/-- No close of the last descriptor has still to set the mark. -/
def NoneClosing (s : Endpoint) : Prop := .closed ∉ s.tasks

/-- What is done with the descriptors. -/
inductive FdEvent
  | install
  | close
  /-- A FIFO is opened for reading and writing; `FifoDuplexFile` has no `on_fd_install`. -/
  | openDuplex

/-- A step. What is done with the descriptors has to pass `may`. -/
inductive Step (may : FdEvent → Endpoint → Prop) : Endpoint → Endpoint → Prop
  | install {s} (t : Nat) (ht : s.tasks[t]? = some .idle) (hmay : may .install s) : Step may s (s.install t)
  | clearMark {s} (t : Nat) (ht : s.tasks[t]? = some .installed) : Step may s (s.mark t false)
  | close {s} (t : Nat) (ht : s.tasks[t]? = some .idle) (hopen : 0 < s.descriptors) (hmay : may .close s) :
      Step may s (s.close t)
  | setMark {s} (t : Nat) (ht : s.tasks[t]? = some .closed) : Step may s (s.mark t true)
  | openDuplex {s} (hfifo : s.fifo = true) (hmay : may .openDuplex s) :
      Step may s { s with strongCount := s.strongCount + 1, duplex := s.duplex + 1 }
  /-- No slot refers to one of them any more. The reference is given up later. -/
  | closeDuplex {s} : Step may s { s with duplex := s.duplex - 1 }
  /-- A reference that is not in a slot is taken or given up. -/
  | refs {s} (n : Nat) (h : s.refBias + s.descriptors + s.duplex ≤ n) : Step may s { s with strongCount := n }

/-- No descriptor comes while a close of the last one has still to set the mark, none that is not
counted when the mark is set, and the last one that is counted is not closed while there are
others. -/
def Careful : FdEvent → Endpoint → Prop
  | .install, s => s.NoneClosing
  | .close, s => s.fdRefs = 1 → s.duplex = 0
  | .openDuplex, s => s.NoneClosing ∧ s.shutdown = false

/-- The object as `make_pipe` leaves it, before it is in a slot. -/
def Fresh (s : Endpoint) : Prop :=
  ∃ (limits : PipeLimits) (pipeEnd : PipeEnd), s.IsEnd (makePipe limits s.fifo) pipeEnd ∧
    s.fdRefs = 0 ∧ s.descriptors = 0 ∧ s.duplex = 0 ∧ s.Quiescent

/-- A descriptor refers to the object, through a `FifoDuplexFile` or not. -/
def Open (s : Endpoint) : Prop := 0 < s.descriptors + s.duplex

/-- The count is that of the slots, each of which has a reference. While there is a descriptor, no
close has still to set the mark, and a mark that is set has a task that will clear it. -/
structure Inv (s : Endpoint) : Prop where
  counted : s.fdRefs = s.descriptors
  referenced : s.refBias + s.descriptors + s.duplex ≤ s.strongCount
  noneClosing : s.Open → s.NoneClosing
  cleared : s.Open → s.shutdown = true → .installed ∈ s.tasks

variable {s s' : Endpoint}

theorem Inv.step (h : Inv s) (hstep : Step Careful s s') : Inv s' := by
  obtain ⟨hcount, href, hnone, hclear⟩ := h
  cases hstep with
  | install t ht hmay =>
    unfold install
    refine ⟨by rw [hcount], by dsimp only; omega, fun _ hmem => hmay ?_, fun _ hmark => ?_⟩
    · -- the task that installs does not close
      split at hmem
      · exact (List.mem_or_eq_of_mem_set hmem).resolve_right nofun
      · exact hmem
    · split
      · exact List.mem_set (getElem?_eq_some_iff.mp ht).1 _
      · next hfirst =>
        refine hclear ?_ hmark
        unfold Open
        omega
  | clearMark t ht =>
    exact ⟨hcount, href, fun hd hmem => hnone hd ((List.mem_or_eq_of_mem_set hmem).resolve_right nofun), nofun⟩
  | close t ht hopen hmay =>
    have hbefore : s.Open := Nat.add_pos_left hopen _
    refine ⟨by rw [close, hcount], by dsimp only [close]; omega, fun hd => ?_, fun hd hmark => ?_⟩
    all_goals
      -- there is a descriptor left, so this was not the last one that is counted
      have hlast : ¬ s.fdRefs = 1 := fun hone => by
        have hduplex : s.duplex = 0 := hmay hone
        dsimp only [Open, close] at hd
        omega
      simp only [close, if_neg hlast]
    · exact hnone hbefore
    · exact hclear hbefore hmark
  | setMark t ht =>
    have hzero : ¬ s.Open := fun hd => hnone hd (List.mem_of_getElem? ht)
    exact ⟨hcount, href, fun hd => absurd hd hzero, fun hd => absurd hd hzero⟩
  | openDuplex hfifo hmay =>
    refine ⟨hcount, Nat.succ_le_succ href, fun _ => hmay.1, fun _ hmark => ?_⟩
    exact absurd (hmay.2.symm.trans hmark) Bool.false_ne_true
  | closeDuplex =>
    have hbefore (hd : 0 < s.descriptors + (s.duplex - 1)) : s.Open := by
      unfold Open
      omega
    exact ⟨hcount, by dsimp only; omega, fun hd => hnone (hbefore hd), fun hd => hclear (hbefore hd)⟩
  | refs n h => exact ⟨hcount, h, hnone, hclear⟩

theorem Inv.fresh (h : Fresh s) : Inv s := by
  obtain ⟨limits, pipeEnd, hend, hrefs, hnone, hduplex, -⟩ := h
  have hopen : ¬ s.Open := by
    unfold Open
    omega
  refine ⟨hrefs.trans hnone.symm, ?_, fun hd => absurd hd hopen, fun hd => absurd hd hopen⟩
  cases pipeEnd <;> obtain ⟨-, hcount, hbias⟩ := hend <;> rw [hnone, hduplex, ← hcount, ← hbias] <;>
    cases s.fifo <;> simp [makePipe]

end Endpoint

open Endpoint

/-- **Shutdown matches descriptors.** In every run whose steps are careful, an endpoint with a
descriptor is not marked once all calls have returned, and its peer sees it open. -/
theorem endpoint_open_of_descriptor {s : Endpoint} (h : Reachable Fresh (Step Careful) s)
    (hq : s.Quiescent) (hopen : s.Open) :
    s.shutdown = false ∧ (∀ p, s.IsEnd p .read → p.allReadEndsClosed = false) ∧
      ∀ p, s.IsEnd p .write → p.allWriteEndsClosed = false := by
  have hinv : Inv s := Reachable.invariant (fun _ => .fresh) (fun _ _ => .step) h
  have hmark : s.shutdown = false := by
    by_contra hm
    exact nomatch hq _ (hinv.cleared hopen (eq_true_of_ne_false hm))
  have hrefs := hinv.referenced
  refine ⟨hmark, ?_, ?_⟩
  all_goals
    rintro p ⟨hshut, hcount, hbias⟩
    unfold Open at hopen
    simp only [PipeState.allReadEndsClosed, PipeState.allWriteEndsClosed, hshut, hmark, Bool.false_or,
      decide_eq_false_iff_not]
    omega

/-- The write end of a new pipe or FIFO, and two tasks. -/
def newWriteEnd (fifo : Bool) : Endpoint :=
  ⟨fifo, false, 1, if fifo then 1 else 0, 0, 0, 0, [.idle, .idle]⟩

theorem newWriteEnd_fresh (fifo : Bool) : (newWriteEnd fifo).Fresh := by
  refine ⟨⟨true, pipeBuf, Nat.le_refl _, by decide⟩, .write, ?_, rfl, rfl, rfl, ?_⟩
  · cases fifo <;> exact ⟨rfl, rfl, rfl⟩
  · exact List.forall_mem_replicate (n := 2).mpr (.inr rfl)

/-- A FIFO is opened for writing, then for both, and the descriptor for both is closed. -/
theorem endpoint_open_of_descriptor_duplex :
    ∃ s : Endpoint, s.Quiescent ∧ s.Open ∧ s.shutdown = false := by
  have h : Reachable Fresh (Step Careful) _ := .start (newWriteEnd_fresh true)
  have h := h.step (.install 0 rfl (by unfold Careful NoneClosing; decide))
  have h := h.step (.clearMark 0 rfl)
  have h := h.step (.openDuplex rfl ⟨by unfold NoneClosing; decide, rfl⟩)
  have h := h.step .closeDuplex
  exact ⟨_, by unfold Quiescent; decide, by unfold Open; decide,
    (endpoint_open_of_descriptor h (by unfold Quiescent; decide) (by unfold Open; decide)).1⟩

/-- A task closes the only descriptor, and another installs one before the close has set the
mark. -/
theorem overtaken_close_shuts : ∃ s : Endpoint, Reachable Fresh (Step fun _ _ => True) s ∧ s.Quiescent ∧
    s.fifo = false ∧ s.descriptors = 1 ∧ s.shutdown = true := by
  have h : Reachable Fresh (Step fun _ _ => True) _ := .start (newWriteEnd_fresh false)
  have h := h.step (.install 0 rfl trivial)
  have h := h.step (.clearMark 0 rfl)
  have h := h.step (.close 0 rfl (by decide) trivial)
  have h := h.step (.install 1 rfl trivial)
  have h := h.step (.clearMark 1 rfl)
  exact ⟨_, h.step (.setMark 0 rfl), by unfold Quiescent; decide, rfl, rfl, rfl⟩

end HitOS.Pipe
