import HitOS.Syscall.Epoll

/-!
# The nesting of epoll files

Which epoll files watch which is a graph (`Watches`). A call of `epoll_ctl` adds at most one edge
(`ctl_cases`), and refuses one that closes a cycle, so the graph is acyclic in every run
(`NestingInv`). The depth that the call tests is that of the file below only: the chains stay within
the bound as long as no file is added below a chain that it makes too long (`Nests`).
-/

namespace HitOS.Epoll.Files

open List Function OrdMap Parking Digraph Relation.TransGen Option Except

open Relation (ReflTransGen)
open Digraph (Acyclic HeightLe)

variable {s s' : Files} {i : EpollInterest} {c : CtlCall} {event : UserEpollEvent} {id ep target a b : Nat}
  {m : OrdMap Nat EpollInterest}

/-! ### The graph -/

def Watches (s : Files) (a b : Nat) : Prop := b ∈ s.children a

/-- A file is among the interests, whether it exists or not. -/
def Interested (s : Files) (a b : Nat) : Prop := ∃ fd i, (s.interests a).get? fd = some i ∧ i.file = b

theorem file_isSome_of_isEpoll (h : s.isEpoll id = true) : (s.file id).isSome = true := by
  unfold isEpoll at h
  split at h
  · next heq => rw [heq]; rfl
  · cases h

theorem mem_snapshotInterests : i ∈ s.snapshotInterests a ↔
    (∃ fd, (s.interests a).get? fd = some i) ∧ (s.file i.file).isSome = true := by
  rw [snapshotInterests, mem_filter, mem_values_iff]

theorem watches_iff : s.Watches a b ↔ s.isEpoll b = true ∧ s.Interested a b := by
  simp only [Watches, children, mem_filter, List.mem_map, mem_snapshotInterests]
  constructor
  · rintro ⟨⟨i, ⟨⟨fd, hi⟩, -⟩, rfl⟩, hb⟩
    exact ⟨hb, fd, i, hi, rfl⟩
  · rintro ⟨hb, fd, i, hi, rfl⟩
    exact ⟨⟨i, ⟨⟨fd, hi⟩, file_isSome_of_isEpoll hb⟩, rfl⟩, hb⟩

/-! ### What the operations do to the graph -/

theorem isEpoll_congr (h : s'.file id = s.file id) : s'.isEpoll id = s.isEpoll id := by
  rw [isEpoll, isEpoll, h]

theorem interested_congr (h : s'.file a = s.file a) : s'.Interested a b ↔ s.Interested a b := by
  rw [Interested, Interested, interests, interests, h]

theorem isEpoll_setInterests (hep : s.isEpoll ep = true) :
    (s.setInterests ep m).isEpoll id = s.isEpoll id := by
  by_cases hid : id = ep
  · subst hid
    rw [hep]
    simp [isEpoll, setInterests]
  · exact isEpoll_congr (update_of_ne hid ..)

theorem interests_setInterests_self : (s.setInterests ep m).interests ep = m := by
  simp [interests, setInterests]

theorem get?_pruneStale {fd : Nat} : (s.pruneStale (s.interests a)).get? fd = some i ↔
      (s.interests a).get? fd = some i ∧ (s.file i.file).isSome = true := by
  rw [pruneStale, get?_filterVal, filter_eq_some_iff]

/-- What a call that succeeds leaves, at its epoll file: an interest in the target is added, by
`EPOLL_CTL_ADD`; otherwise there is an interest only in what there was before. -/
structure Rewrites (s s' : Files) (c : CtlCall) (ep target : Nat) : Prop where
  next_eq : s'.next = s.next
  file_eq : ∀ id, id ≠ ep → s'.file id = s.file id
  isEpoll_eq : ∀ id, s'.isEpoll id = s.isEpoll id
  interested : ∀ b, s'.Interested ep b → s.Interested ep b ∨ c.op = epollCtlAdd ∧ b = target
  adds : c.op = epollCtlAdd → s'.Interested ep target ∧ ∀ b, s.Watches ep b → s'.Interested ep b

theorem rewrites_of_setInterests (hep : s.isEpoll ep = true)
    (hm : ∀ fd i, m.get? fd = some i → s.Interested ep i.file ∨ c.op = epollCtlAdd ∧ i.file = target)
    (hadd : c.op = epollCtlAdd → (∃ fd i, m.get? fd = some i ∧ i.file = target) ∧
      ∀ b, s.Watches ep b → ∃ fd i, m.get? fd = some i ∧ i.file = b) :
    Rewrites s (s.setInterests ep m) c ep target where
  next_eq := rfl
  file_eq id hid := update_of_ne hid ..
  isEpoll_eq id := isEpoll_setInterests hep
  interested := by
    rintro b ⟨fd, i, hi, rfl⟩
    rw [interests_setInterests_self] at hi
    exact hm fd i hi
  adds hop := by
    unfold Interested
    rw [interests_setInterests_self]
    exact hadd hop

section Calls

variable {fd : Nat} {files : Nat → Option Nat}

theorem interested_of_pruneStale (h : (s.pruneStale (s.interests ep)).get? fd = some i) :
    s.Interested ep i.file :=
  ⟨fd, i, (get?_pruneStale.mp h).1, rfl⟩

section

variable (hep : s.isEpoll ep = true)

include hep

theorem rewrites_of_delInterest (hop : c.op ≠ epollCtlAdd)
    (h : s.delInterest ep fd = .ok s') : Rewrites s s' c ep target := by
  unfold delInterest at h
  dsimp only at h
  split at h
  · cases h
    refine rewrites_of_setInterests hep (fun fd' i hi => .inl ?_) fun h => absurd h hop
    rw [get?_erase] at hi
    split at hi
    · cases hi
    · exact interested_of_pruneStale hi
  · cases h

theorem rewrites_of_modInterest (hop : c.op ≠ epollCtlAdd)
    (h : s.modInterest ep fd event = .ok s') : Rewrites s s' c ep target := by
  unfold modInterest at h
  dsimp only at h
  split at h
  · cases h
  next _ hentry =>
  cases h
  refine rewrites_of_setInterests hep (fun fd' i hi => .inl ?_) fun h => absurd h hop
  rw [get?_insert] at hi
  split at hi
  · -- the changed interest is in the file it was in
    cases hi
    obtain ⟨fd', i, hi, hfile⟩ := interested_of_pruneStale hentry
    exact ⟨fd', i, hi, hfile⟩
  · exact interested_of_pruneStale hi

theorem rewrites_of_addInterest (hop : c.op = epollCtlAdd)
    (h : s.addInterest ep fd target event = .ok s') : Rewrites s s' c ep target := by
  unfold addInterest at h
  dsimp only at h
  split at h
  · cases h
  next hfree =>
  cases h
  refine rewrites_of_setInterests hep (fun fd' i hi => ?_)
    fun _ => ⟨⟨fd, _, get?_insert_self, rfl⟩, fun b hb => ?_⟩
  · rw [get?_insert] at hi
    split at hi
    · cases hi
      exact .inr ⟨hop, rfl⟩
    · exact .inl (interested_of_pruneStale hi)
  · -- the other interests in existing files are under other numbers
    obtain ⟨hepoll, fd', i, hi, rfl⟩ := watches_iff.mp hb
    have hkept := get?_pruneStale.mpr ⟨hi, file_isSome_of_isEpoll hepoll⟩
    refine ⟨fd', i, ?_, rfl⟩
    rw [get?_insert, if_neg, hkept]
    rintro rfl
    exact hfree (by rw [containsKey, hkept]; rfl)

theorem rewrites_of_changeInterests (hevent : c.op = epollCtlAdd → c.event.isSome = true)
    (h : s.changeInterests c ep target = .ok s') : Rewrites s s' c ep target := by
  unfold changeInterests at h
  split at h
  · split at h
    · next hadd => exact rewrites_of_addInterest hep hadd h
    · next hadd =>
      split at h
      · exact rewrites_of_modInterest hep hadd h
      · exact rewrites_of_delInterest hep hadd h
  · -- without an event only `EPOLL_CTL_DEL` comes this far
    next hnone =>
    refine rewrites_of_delInterest hep (fun hadd => ?_) h
    have := hevent hadd
    rw [hnone] at this
    cases this

/-- The wakeup changes nothing of the files. -/
theorem rewrites_of_applyCtl (hevent : c.op = epollCtlAdd → c.event.isSome = true)
    (h : s.applyCtl c ep target = .ok s') : Rewrites s s' c ep target := by
  unfold applyCtl at h
  split at h
  · cases h
  · next r hr =>
    cases h
    obtain ⟨hnext, hfile, hepoll, hin, hadds⟩ := rewrites_of_changeInterests hep hevent hr
    exact ⟨hnext, hfile, hepoll, hin, hadds⟩

end

theorem isEpoll_of_getEpollFile (h : s.getEpollFile files fd = .ok ep) : s.isEpoll ep = true := by
  unfold getEpollFile at h
  split at h
  · cases h
  split at h
  · next hep =>
    cases h
    exact hep
  · cases h

theorem file_isSome_of_getFdFile (h : s.getFdFile files fd = .ok target) : (s.file target).isSome = true := by
  unfold getFdFile at h
  split at h
  · split at h
    · next hsome =>
      cases h
      exact hsome
    · cases h
  · cases h

/-- **A call that succeeds**: the files it is about, the tests it passed, and what it did. -/
theorem ctl_cases (h : s.syscallEpollCtl c = some (.ok s')) :
    ∃ ep target, s.getEpollFile c.files c.epfd = .ok ep ∧ s.getFdFile c.files c.fd = .ok target ∧
      (c.op = epollCtlAdd → s.addCheck ep target = some none) ∧ Rewrites s s' c ep target := by
  unfold syscallEpollCtl at h
  split at h
  · cases h
  next ep hep =>
  have hepoll := isEpoll_of_getEpollFile hep
  iterate 4
    split at h
    · cases h
  next target htarget _ hfault =>
  -- the fault test has let the call through, so an addition has its event
  have hevent (hop : c.op = epollCtlAdd) : c.event.isSome = true := by
    rw [isSome_iff_ne_none]
    intro hnone
    exact hfault ⟨.inl hop, by rw [hnone]; rfl⟩
  refine ⟨ep, target, hep, htarget, ?_⟩
  split at h
  · split at h
    · cases h
    · cases h
    · next hcheck => exact ⟨fun _ => hcheck, rewrites_of_applyCtl hepoll hevent (some.inj h)⟩
  · next hop => exact ⟨fun hadd => absurd hadd hop, rewrites_of_applyCtl hepoll hevent (some.inj h)⟩

/-- The tests of `EPOLL_CTL_ADD`. -/
theorem addCheck_none (htarget : s.isEpoll target = true) (h : s.addCheck ep target = some none) :
    ¬ ReflTransGen s.Watches target ep ∧
      ∃ d, s.maxDepthRecursive s.callBound target [] = some d ∧ d < maxEpollNesting := by
  unfold addCheck at h
  split at h
  · next hother => simp [isEpoll, hother] at htarget
  split at h
  · cases h
  simp only [bind, bind_eq_some_iff, wouldCreateCycle, map_eq_some_iff] at h
  obtain ⟨_, ⟨⟨found, _⟩, hsearch, rfl⟩, h⟩ := h
  cases found with
  | true => cases h
  | false =>
    obtain ⟨d, hd, h⟩ := bind_eq_some_iff.mp h
    refine ⟨searchFrom_false hsearch, d, hd, not_le.mp fun hge => ?_⟩
    rw [if_pos hge] at h
    cases h

end Calls

/-! ### The invariant -/

variable {n : Nat} {op : Op} {snaps : List EpollInterest} {pollMask : Nat → BitVec 32} {peek : Nat → Option Bool}
  {snap : EpollInterest} {visited : List Nat}

/-- **The graph has no cycle**; and no interest is in a file that does not exist yet. -/
structure NestingInv (s : Files) : Prop where
  acyclic : Acyclic s.Watches
  fresh : ∀ id, s.next ≤ id → s.file id = none
  known : ∀ a b, s.Interested a b → b < s.next

theorem nestingInv_init : NestingInv init where
  acyclic a h := by
    obtain ⟨b, hb, -⟩ := head'_iff.mp h
    cases hb
  fresh _ _ := rfl
  known a b := by
    nofun

theorem NestingInv.lt_of_isSome (h : NestingInv s) (hid : (s.file id).isSome = true) : id < s.next := by
  by_contra hge
  rw [h.fresh id (not_lt.mp hge)] at hid
  cases hid

/-- No call nests deeper than there are files. -/
theorem NestingInv.heightLe (h : NestingInv s) (id : Nat) : HeightLe s.Watches s.callBound id := by
  -- every path stays within the files that have been made
  have hdom a b (hab : s.Watches a b) : b ∈ range s.next := by
    obtain ⟨hb, -⟩ := watches_iff.mp hab
    exact mem_range.mpr (h.lt_of_isSome (file_isSome_of_isEpoll hb))
  have hheight := h.acyclic.heightLe hdom id
  rwa [length_range] at hheight

/-- A file that is made has no interests, and one that is dropped loses them. -/
theorem interested_of_update {f : Option File}
    (hf : f = none ∨ f = some (.epoll .empty) ∨ ∃ b, f = some (.other b))
    (h : Interested { s with next := n, file := update s.file id f } a b) : s.Interested a b := by
  by_cases ha : a = id
  · subst ha
    obtain ⟨fd, i, hi, -⟩ := h
    rcases hf with rfl | rfl | ⟨b, rfl⟩ <;> simp [interests] at hi
  · exact (interested_congr (update_of_ne ha ..)).mp h

theorem Rewrites.interested_cases (h : Rewrites s s' c ep target)
    (hab : s'.Interested a b) : s.Interested a b ∨ c.op = epollCtlAdd ∧ a = ep ∧ b = target := by
  by_cases ha : a = ep
  · subst ha
    exact (h.interested b hab).imp id fun hadd => ⟨hadd.1, rfl, hadd.2⟩
  · exact .inl ((interested_congr (h.file_eq a ha)).mp hab)

/-- After `EPOLL_CTL_ADD` of an epoll file there is one edge more. -/
theorem Rewrites.watches_iff (h : Rewrites s s' c ep target) (hop : c.op = epollCtlAdd)
    (htarget : s.isEpoll target = true) (a b : Nat) :
    s'.Watches a b ↔ s.Watches a b ∨ a = ep ∧ b = target := by
  rw [Files.watches_iff, Files.watches_iff, h.isEpoll_eq]
  constructor
  · -- an edge that is there now was there, or is the added one
    rintro ⟨hb, hab⟩
    exact (h.interested_cases hab).imp (fun hold => ⟨hb, hold⟩) And.right
  rintro (⟨hb, hab⟩ | ⟨rfl, rfl⟩)
  · refine ⟨hb, ?_⟩
    by_cases ha : a = ep
    · subst ha
      exact (h.adds hop).2 b (watches_iff.mpr ⟨hb, hab⟩)
    · exact (interested_congr (h.file_eq a ha)).mpr hab
  · exact ⟨htarget, (h.adds hop).1⟩

/-! ### Steps -/

/-- **No file is added below too long a chain**: the chain of epoll files down to the one that
`EPOLL_CTL_ADD` is called for, and the depth of the epoll file it adds, are within
`MAX_EPOLL_NESTING` together. -/
def Nests (s : Files) : Op → Prop
  | .ctl c => ∀ ep target, c.op = epollCtlAdd → s.getEpollFile c.files c.epfd = .ok ep →
      s.getFdFile c.files c.fd = .ok target → s.isEpoll target = true →
      ∀ above depth, List.IsChain s.Watches (above ++ [ep]) →
        s.maxDepthRecursive s.callBound target [] = some depth → above.length + 1 + depth ≤ maxEpollNesting
  | _ => True

/-- What an operation does to the graph: it adds no edge, or one that closes no cycle. -/
inductive Effect (s s' : Files) : Op → Prop
  | keeps {op : Op} (hnests : s.Nests op) (hsub : ∀ a b, s'.Watches a b → s.Watches a b) : Effect s s' op
  | adds {c : CtlCall} {ep target : Nat} (hop : c.op = epollCtlAdd)
      (hep : s.getEpollFile c.files c.epfd = .ok ep) (htarget : s.getFdFile c.files c.fd = .ok target)
      (hepoll : s.isEpoll target = true) (hback : ¬ ReflTransGen s.Watches target ep)
      (hwatches : ∀ a b, s'.Watches a b ↔ s.Watches a b ∨ a = ep ∧ b = target) : Effect s s' (.ctl c)

/-- **What each operation does to the graph.** -/
theorem NestingInv.effect (h : NestingInv s) (hexec : s.exec op = some s') : Effect s s' op := by
  cases op with
  | epollCreate | openFile =>
    cases hexec
    refine .keeps trivial fun a b hab => ?_
    obtain ⟨hb, hin⟩ := watches_iff.mp hab
    have hold := interested_of_update (by simp) hin
    -- no interest was in the new file, whose number is the next one
    have hne : b ≠ s.next := ne_of_lt (h.known a b hold)
    rw [isEpoll_congr (update_of_ne hne ..)] at hb
    exact watches_iff.mpr ⟨hb, hold⟩
  | drop id =>
    cases hexec
    refine .keeps trivial fun a b hab => ?_
    obtain ⟨hb, hin⟩ := watches_iff.mp hab
    refine watches_iff.mpr ⟨?_, interested_of_update (.inl rfl) hin⟩
    by_cases hid : b = id
    · subst hid
      simp [isEpoll] at hb
    · rwa [isEpoll_congr (update_of_ne hid ..)] at hb
  | ctl c =>
    simp only [exec] at hexec
    split at hexec
    · next r hr =>
      cases hexec
      obtain ⟨_, target, hep, htarget, hcheck, hrw⟩ := ctl_cases hr
      by_cases hadd : c.op = epollCtlAdd ∧ s.isEpoll target = true
      · -- the cycle test has passed
        exact .adds hadd.1 hep htarget hadd.2 (addCheck_none hadd.2 (hcheck hadd.1)).1
          (hrw.watches_iff hadd.1 hadd.2)
      -- any other call, and an addition of a file that is no epoll file
      refine .keeps ?_ fun a b hab => ?_
      · intro _ _ hop _ htarget' hepoll
        obtain rfl := ok.inj (htarget.symm.trans htarget')
        exact absurd ⟨hop, hepoll⟩ hadd
      obtain ⟨hb, hin⟩ := watches_iff.mp hab
      rw [hrw.isEpoll_eq] at hb
      rcases hrw.interested_cases hin with hold | ⟨hop, -, rfl⟩
      · exact watches_iff.mpr ⟨hb, hold⟩
      · exact absurd ⟨hop, hb⟩ hadd
    · cases hexec

/-- The part of the invariant that is about which files exist. -/
theorem NestingInv.files (h : NestingInv s) (hexec : s.exec op = some s') :
    (∀ id, s'.next ≤ id → s'.file id = none) ∧ ∀ a b, s'.Interested a b → b < s'.next := by
  cases op with
  | epollCreate | openFile =>
    cases hexec
    refine ⟨fun id hid => ?_, fun a b hab => Nat.lt_succ_of_lt (h.known a b (interested_of_update ?_ hab))⟩
    · exact (update_of_ne (ne_of_gt hid) _ _).trans (h.fresh id (Nat.le_of_succ_le hid))
    · simp
  | drop id =>
    cases hexec
    refine ⟨fun id' hid' => ?_, fun a b hab => h.known a b (interested_of_update (.inl rfl) hab)⟩
    by_cases heq : id' = id
    · subst heq
      exact update_self ..
    · exact (update_of_ne heq ..).trans (h.fresh id' hid')
  | ctl =>
    simp only [exec] at hexec
    split at hexec
    · next r hr =>
      cases hexec
      obtain ⟨_, _, hep, htarget, -, hrw⟩ := ctl_cases hr
      rw [hrw.next_eq]
      have hlt := h.lt_of_isSome (file_isSome_of_isEpoll (isEpoll_of_getEpollFile hep))
      refine ⟨fun id hid => ?_, fun a b hab => ?_⟩
      · rw [hrw.file_eq id (ne_of_gt (hlt.trans_le hid))]
        exact h.fresh id hid
      · rcases hrw.interested_cases hab with hold | ⟨-, -, rfl⟩
        · exact h.known a b hold
        · exact h.lt_of_isSome (file_isSome_of_getFdFile htarget)
    · cases hexec

theorem NestingInv.step (h : NestingInv s) (hexec : s.exec op = some s') : NestingInv s' := by
  obtain ⟨hfresh, hknown⟩ := h.files hexec
  refine ⟨?_, hfresh, hknown⟩
  cases h.effect hexec with
  | keeps _ hsub => exact h.acyclic.mono hsub
  | adds _ _ _ _ hback hwatches =>
    refine acyclic_of_add h.acyclic (fun a b hab => ((hwatches a b).mp hab).imp id And.left)
      fun b hb hpath => ?_
    -- a cycle would go through the new edge, and then back from its target
    rcases (hwatches _ b).mp hb with hold | ⟨-, rfl⟩
    · exact h.acyclic _ (head' hold hpath)
    · exact hback hpath

/-- **Every run keeps the graph acyclic.** -/
theorem Runs.nestingInv {cond : Files → Op → Prop} (h : Runs cond s) : NestingInv s :=
  Reachable.invariant (fun _ hs => hs ▸ nestingInv_init) (fun _ _ hs ⟨_, _, hexec⟩ => hs.step hexec) h

/-- The chains of epoll files are within `MAX_EPOLL_NESTING`. -/
def NestingBounded (s : Files) : Prop := ∀ l, List.IsChain s.Watches l → l.length ≤ maxEpollNesting

/-- **An operation keeps the bound exactly if it nests.** -/
theorem NestingInv.bounded_iff (h : NestingInv s) (hbound : s.NestingBounded)
    (hexec : s.exec op = some s') : s'.NestingBounded ↔ s.Nests op := by
  cases h.effect hexec with
  | keeps hnests hsub => exact iff_of_true (fun l hl => hbound l (hl.imp hsub)) hnests
  | @adds c ep target hop hep htarget hepoll hback hwatches =>
  have hnew : s'.Watches ep target := (hwatches ep target).mpr (.inr ⟨rfl, rfl⟩)
  have hiff := chains_of_add (fun a b hab => (hwatches a b).mp hab)
    (fun a b hab => (hwatches a b).mpr (.inl hab)) hnew hback hbound
  refine hiff.trans ?_
  constructor
  · -- the depth is that of a chain
    intro hall _ _ _ hep' htarget' _ above depth habove hdepth
    obtain rfl := ok.inj (hep.symm.trans hep')
    obtain rfl := ok.inj (htarget.symm.trans htarget')
    obtain ⟨-, l, hl, rfl⟩ := depthFrom_spec h.acyclic (fun _ hx => absurd hx not_mem_nil) hdepth
    exact hall above l habove hl
  · -- a chain through the new edge: the files above it, and a chain below that the depth bounds
    intro hnests above l habove hl
    obtain ⟨d, hd⟩ := depthFrom_returns (h.heightLe target) []
    have hheight := (depthFrom_spec h.acyclic (fun _ hx => absurd hx not_mem_nil) hd).1
    have hle := hnests ep target hop hep htarget hepoll above d habove hd
    have hlt := heightLe_iff.mp hheight l hl
    omega

/-- **Runs that nest keep the bound.** -/
theorem Runs.nestingBounded (h : Runs Nests s) : s.NestingBounded := by
  have hinv : NestingInv s ∧ s.NestingBounded := by
    refine Reachable.invariant (I := fun s => NestingInv s ∧ s.NestingBounded) ?_ ?_ h
    · -- without files a chain has one element at most
      rintro _ rfl
      refine ⟨nestingInv_init, fun l hl => ?_⟩
      cases l with
      | nil => exact Nat.zero_le _
      | cons a l =>
        cases l with
        | nil => exact Nat.succ_le_succ (Nat.zero_le 4)
        | cons => cases (isChain_cons_cons.mp hl).1
    · rintro _ _ ⟨hs, hbound⟩ ⟨op, hnests, hexec⟩
      exact ⟨hs.step hexec, (hs.bounded_iff hbound hexec).mpr hnests⟩
  exact hinv.2

/-! ### The walks -/

theorem anyFires_returns {fires : EpollInterest → Option Bool}
    (h : ∀ snap ∈ snaps, ∃ r, fires snap = some r) : ∃ r, anyFires fires snaps = some r := by
  induction snaps with
  | nil => exact ⟨_, rfl⟩
  | cons snap _ ih =>
    obtain ⟨r, hr⟩ := h snap (.head _)
    simp only [anyFires, hr]
    cases r with
    | true => exact ⟨_, rfl⟩
    | false => exact ih fun b hb => h b (.tail _ hb)

theorem fileReadyMask_returns {file : Nat} {watchMask : BitVec 32}
    (h : s.isEpoll file = true → ∃ r, peek file = some r) :
    ∃ r, s.fileReadyMask pollMask peek file watchMask = some r := by
  unfold fileReadyMask
  split
  · next hepoll =>
    obtain ⟨r, hr⟩ := h hepoll
    rw [hr]
    split <;> exact ⟨_, rfl⟩
  · exact ⟨_, rfl⟩

theorem fires_returns
    (h : s.isEpoll snap.file = true → ∃ r, peek snap.file = some r) :
    ∃ r, s.fires pollMask peek snap = some r := by
  unfold fires
  split
  · exact ⟨_, rfl⟩
  dsimp only
  split
  · exact ⟨_, rfl⟩
  · obtain ⟨_, hmask⟩ := @fileReadyMask_returns _ _ _ _ (eventWatchMask snap.events) h
    rw [hmask]
    exact ⟨_, rfl⟩

theorem watches_of_snapshot (h : snap ∈ s.snapshotInterests id)
    (hepoll : s.isEpoll snap.file = true) : s.Watches id snap.file :=
  mem_filter.mpr ⟨mem_map_of_mem h, hepoll⟩

/-- The readiness walk nests no deeper than the file. -/
theorem peekHasReadyInternal_returns (h : HeightLe s.Watches n id) :
    ∃ r, s.peekHasReadyInternal pollMask n id visited = some r := by
  -- on the bound; an edge of the graph leads to a file of smaller height
  induction n generalizing id visited with
  | zero => exact h.elim
  | succ n ih =>
    unfold peekHasReadyInternal
    split
    · exact ⟨_, rfl⟩
    · exact anyFires_returns fun _ hsnap => fires_returns fun hepoll =>
        ih (h _ (watches_of_snapshot hsnap hepoll))

variable {registerOther : Nat → Bool} {waiters : Nat → List Task}

theorem registerEach_returns {register : Nat → (Nat → List Task) → Option (Bool × (Nat → List Task))}
    (h : ∀ snap ∈ snaps, s.isEpoll snap.file = true → ∀ waiters, ∃ r, register snap.file waiters = some r) :
    ∃ r, s.registerEach registerOther register snaps waiters = some r := by
  induction snaps generalizing waiters with
  | nil => exact ⟨_, rfl⟩
  | cons snap _ ih =>
    have ih waiters := @ih waiters fun b hb => h b (.tail _ hb)
    unfold registerEach
    iterate 2
      split
      · exact ih waiters
    obtain ⟨⟨ok, waiters'⟩, hr⟩ : ∃ r, (if s.isEpoll snap.file then register snap.file waiters
        else some (registerOther snap.file, waiters)) = some r := by
      split
      · next hepoll => exact h snap (.head _) hepoll waiters
      · exact ⟨_, rfl⟩
    rw [hr]
    -- the loop ends at the first file that cannot be registered
    cases ok with
    | true => exact ih waiters'
    | false => exact ⟨_, rfl⟩

/-- The walk that registers a waiter nests no deeper than the file. -/
theorem registerPollWaiterInternal_returns {view : Waiters.TaskView} {task : Task}
    (h : HeightLe s.Watches n id) :
    ∃ r, s.registerPollWaiterInternal view registerOther task n id visited waiters = some r := by
  induction n generalizing id visited waiters with
  | zero => exact h.elim
  | succ n ih =>
    unfold registerPollWaiterInternal
    split
    · exact ⟨_, rfl⟩
    · exact registerEach_returns fun _ hsnap hepoll _ => ih (h _ (watches_of_snapshot hsnap hepoll))

theorem NestingInv.addCheck_ne_none (h : NestingInv s) : s.addCheck ep target ≠ none := by
  obtain ⟨⟨found, visited⟩, hfound⟩ : ∃ r, searchFrom s.children ep s.callBound target [] = some r :=
    searchFrom_returns (h.heightLe target) []
  obtain ⟨d, hd⟩ := depthFrom_returns (h.heightLe target) []
  unfold addCheck
  iterate 2
    split
    · exact some_ne_none _
  simp only [wouldCreateCycle, containsEpollRecursive, hfound, maxDepthRecursive, hd, map_some, bind,
    bind_some]
  split
  · exact some_ne_none _
  · split <;> exact some_ne_none _

theorem NestingInv.ctl_returns (h : NestingInv s) (c : CtlCall) : ∃ r, s.syscallEpollCtl c = some r := by
  unfold syscallEpollCtl
  iterate 5
    split
    · exact ⟨_, rfl⟩
  split
  · split
    · next hnone => exact absurd hnone h.addCheck_ne_none
    · exact ⟨_, rfl⟩
    · exact ⟨_, rfl⟩
  · exact ⟨_, rfl⟩

/-! ### Runs -/

/-- **Epoll nesting.** In every run the graph of epoll files is acyclic and `epoll_ctl` returns. In
every run that nests its files within the bound, no chain has more than `MAX_EPOLL_NESTING` epoll
files, the next operation keeps it so exactly if it nests, and the walks from any file call
themselves no deeper than that. -/
theorem epoll_nesting_bounded (s : Files) :
    (Runs (fun _ _ => True) s → Acyclic s.Watches ∧ ∀ c, ∃ r, s.syscallEpollCtl c = some r) ∧
    (Runs Nests s → (∀ l, List.IsChain s.Watches l → l.length ≤ maxEpollNesting) ∧
      (∀ op s', s.exec op = some s' →
        ((∀ l, List.IsChain s'.Watches l → l.length ≤ maxEpollNesting) ↔ s.Nests op)) ∧
      (∀ pollMask id, ∃ r, s.peekHasReadyInternal pollMask maxEpollNesting id [] = some r) ∧
      ∀ view registerOther task id waiters, ∃ r,
        s.registerPollWaiterInternal view registerOther task maxEpollNesting id [] waiters = some r) := by
  refine ⟨fun hs => ⟨hs.nestingInv.acyclic, hs.nestingInv.ctl_returns⟩, fun hs => ?_⟩
  have hbound : s.NestingBounded := hs.nestingBounded
  have hheight : ∀ id, HeightLe s.Watches maxEpollNesting id :=
    fun _ => heightLe_iff.mpr fun _ hl => hbound _ hl
  refine ⟨hbound, fun op s' hexec => hs.nestingInv.bounded_iff hbound hexec, fun pollMask id => ?_,
    fun view registerOther task id waiters => ?_⟩
  · exact peekHasReadyInternal_returns (hheight id)
  · exact registerPollWaiterInternal_returns (hheight id)

def two : Files where
  next := 2
  file := update (update init.file 0 (some (.epoll .empty))) 1 (some (.epoll .empty))
  pollWaiters := init.pollWaiters

/-- One of them is added to the other. -/
def addOne : CtlCall := ⟨fun fd => some fd, 0, epollCtlAdd, 1, some ⟨epollIn, 0⟩⟩

/-- A run that nests: an epoll file in an epoll file. -/
theorem epoll_nesting_bounded_two :
    ∃ s, Runs Nests s ∧ s.Watches 0 1 ∧ ∀ l, List.IsChain s.Watches l → l.length ≤ maxEpollNesting := by
  have htwo : Runs Nests two :=
    .step (.step (.start rfl) ⟨.epollCreate, trivial, rfl⟩) ⟨.epollCreate, trivial, rfl⟩
  -- nothing is watched yet
  have hnone : ∀ a b, ¬ two.Watches a b := by
    intro a b hab
    have hin := (watches_iff.mp hab).2
    obtain ⟨_, _, hi, -⟩ :=
      interested_of_update (s := init) (n := 1) (by simp) (interested_of_update (by simp) hin)
    cases hi
  have hnests : two.Nests (.ctl addOne) := by
    intro ep target _ _ htarget _ above depth habove hdepth
    obtain rfl : 1 = target := ok.inj htarget
    obtain rfl : 1 = depth := some.inj hdepth
    cases above with
    | nil => decide
    | cons a above =>
    -- a file above would watch something
    have hedge : ∃ b, two.Watches a b := by
      cases above with
      | nil => exact ⟨ep, (isChain_cons_cons.mp habove).1⟩
      | cons b => exact ⟨b, (isChain_cons_cons.mp habove).1⟩
    obtain ⟨b, hb⟩ := hedge
    exact absurd hb (hnone a b)
  have hrun := Reachable.step htwo ⟨.ctl addOne, hnests, rfl⟩
  refine ⟨_, hrun, ?_, ((epoll_nesting_bounded _).2 hrun).1⟩
  unfold Watches
  decide

/-- Six epoll files, each one added to the one before, from the top down. -/
def topDown : List Op :=
  replicate 6 .epollCreate ++
    (range 5).map fun i => .ctl ⟨fun fd => some fd, i, epollCtlAdd, i + 1, some ⟨epollIn, 0⟩⟩

/-- **Top-down nesting is not bounded**: each file that is added has the depth one. -/
theorem top_down_nests_six :
    ∃ s, Runs (fun _ _ => True) s ∧ ∃ l, List.IsChain s.Watches l ∧ maxEpollNesting < l.length := by
  obtain ⟨s, hs, hchain⟩ : ∃ s, topDown.foldlM exec init = some s ∧ IsChain s.Watches [0, 1, 2, 3, 4, 5] := by
    refine ⟨_, rfl, ?_⟩
    simp only [isChain_cons_cons, isChain_singleton, Watches]
    decide
  have hrun : Runs (fun _ _ => True) s :=
    foldlM_invariant (.start rfl) (fun _ op _ _ h hop => h.step ⟨op, trivial, hop⟩) hs
  exact ⟨s, hrun, _, hchain, by decide⟩

end HitOS.Epoll.Files
