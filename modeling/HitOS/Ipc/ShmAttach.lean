import HitOS.Lib.Usize

/-!
# Records of attached shared memory

An address space has a list of records (`ShmAttach`) of the shared memory attached to it. An attach
has its own identifier. Detaching or moving a part of it leaves several fragments under that
identifier, of which one is marked as accounted for in the segment.

The functions on such lists, from `syscall/sysv_shm.rs` and `mm/memory_set.rs`:

* `detachAttachesOverlapping` cuts a range out of all records,
* `splitMremapAttach` moves a part of a record,
* `removeSysvShmAttach` takes the record at an address out of the list.

`AttachesOk` says that every attach has exactly one accounted fragment. The three functions keep it
(`detachAttachesOverlapping_spec`, `splitMremapAttach_spec`, `removeSysvShmAttach_spec`), and say
which accounts are to be released. The first and the last take accounted fragments away and pass the
mark on to what is left, by one rule: `Owing.reaccount`.
-/

namespace HitOS.Ipc

open List

/-! ### Records -/

structure ShmAttachRef where
  ipcNsId : Nat
  shmid : Nat
  deriving DecidableEq, Repr

structure ShmAttach where
  ipcNsId : Nat
  addr : Nat
  shmid : Nat
  len : Nat
  attachId : Nat
  accounted : Bool
  deriving DecidableEq, Repr

namespace ShmAttach

variable (attach : ShmAttach)

/-- `end()`. -/
def stop : Nat := satAdd attach.addr attach.len

def containsRange (start len : Nat) : Bool :=
  start + len ≤ usizeMax && attach.addr ≤ start && start + len ≤ attach.stop

/-- The segment of a record. -/
def ref : ShmAttachRef := ⟨attach.ipcNsId, attach.shmid⟩

/-- A fragment without the account. -/
def fragment (addr len : Nat) : ShmAttach :=
  { attach with addr := addr, len := len, accounted := false }

/-- The order of the records: `addr`, then `attach_id`, then `shmid`. -/
def le (left right : ShmAttach) : Prop :=
  left.addr < right.addr ∨ (left.addr = right.addr ∧ (left.attachId < right.attachId ∨
    (left.attachId = right.attachId ∧ left.shmid ≤ right.shmid)))

instance : DecidableRel le := fun left right =>
  inferInstanceAs (Decidable (left.addr < right.addr ∨ (left.addr = right.addr ∧
    (left.attachId < right.attachId ∨ (left.attachId = right.attachId ∧ left.shmid ≤ right.shmid)))))

end ShmAttach

variable (attaches : List ShmAttach)

/-- `attaches.sort_unstable_by(..)`. -/
def sortAttaches : List ShmAttach := attaches.insertionSort ShmAttach.le

def findAttachContaining (shmid start len : Nat) : Option Nat :=
  attaches.findIdx? fun attach => attach.shmid == shmid && attach.containsRange start len

/-! ### Moving -/

/-- `split_mremap_attach`; `none` is the result `false`. -/
def splitMremapAttach (idx oldAddr oldLen newAddr newLen : Nat) :
    Option (List ShmAttach) :=
  match attaches[idx]? with
  | none => none
  | some attach =>
    if newLen = 0 ∨ oldAddr + oldLen > usizeMax ∨ newAddr + newLen > usizeMax ∨ oldLen = 0 then none
    else if oldAddr < attach.addr ∨ oldAddr + oldLen > attach.stop then none
    else
      let before :=
        if oldAddr > attach.addr then [attach.fragment attach.addr (oldAddr - attach.addr)] else []
      let moved := { attach with addr := newAddr, len := newLen }
      let after :=
        if oldAddr + oldLen < attach.stop then
          [attach.fragment (oldAddr + oldLen) (attach.stop - (oldAddr + oldLen))]
        else []
      some (sortAttaches (attaches.eraseIdx idx ++ (before ++ moved :: after)))

/-! ### Detaching -/

/-- Mark the first record of an attach as accounted. -/
def accountFirst (attachId : Nat) : List ShmAttach → List ShmAttach
  | [] => []
  | attach :: attaches =>
    if attach.attachId = attachId then { attach with accounted := true } :: attaches
    else attach :: accountFirst attachId attaches

/-- What is left of a record outside `[start, stop)`: the record itself if it does not overlap. -/
def ShmAttach.outside (start stop : Nat) (attach : ShmAttach) : List ShmAttach :=
  if stop ≤ attach.addr ∨ start ≥ attach.stop then [attach]
  else
    (if start > attach.addr then [attach.fragment attach.addr (start - attach.addr)] else []) ++
      if stop < attach.stop then [attach.fragment stop (attach.stop - stop)] else []

/-- A record that overlaps `[start, stop)` takes its account with it. -/
def ShmAttach.removedAccount (start stop : Nat) (attach : ShmAttach) : Option (Nat × ShmAttachRef) :=
  if stop ≤ attach.addr ∨ start ≥ attach.stop then none
  else if attach.accounted then some (attach.attachId, attach.ref) else none

/-- The account of an attach goes to its first record, or is to be released. -/
def reaccount (acc : List ShmAttach × List ShmAttachRef) (removed : Nat × ShmAttachRef) :
    List ShmAttach × List ShmAttachRef :=
  if acc.1.any fun attach => attach.attachId == removed.1 then (accountFirst removed.1 acc.1, acc.2)
  else (acc.1, acc.2 ++ [removed.2])

/-- `detach_attaches_overlapping`: the records afterwards, and the segments to release. -/
def detachAttachesOverlapping (start len : Nat) :
    Option (List ShmAttach × List ShmAttachRef) :=
  if start + len > usizeMax then none
  else if len = 0 then some (attaches, [])
  else
    let next := attaches.flatMap (ShmAttach.outside start (start + len))
    let removed := attaches.filterMap (ShmAttach.removedAccount start (start + len))
    some (removed.foldl reaccount (sortAttaches next, []))

/-- `remove_sysv_shm_attach`: the record, whether its account went to another one, and the records
afterwards. -/
def removeSysvShmAttach (shmaddr : Nat) :
    Option (ShmAttach × Bool × List ShmAttach) :=
  match attaches.findIdx? fun attach => attach.addr == shmaddr with
  | none => none
  | some idx =>
    match attaches[idx]? with
    | none => none
    | some attach =>
      let rest := attaches.eraseIdx idx
      if attach.accounted && rest.any (fun next => next.attachId == attach.attachId) then
        some (attach, true, accountFirst attach.attachId rest)
      else some (attach, false, rest)

/-! ### One account for every attach -/

/-- The accounted records for a segment. -/
def accountedOn (q : ShmAttachRef) (l : List ShmAttach) : Nat := l.countP fun a => a.accounted && a.ref == q

/-- Accounts that have been taken away, of the attaches in `removed`, are owed to the records in
`l`: an attach with a record has one accounted record, or its account is among those taken away; and
not more than one. -/
structure Owing (l : List ShmAttach) (removed : List (Nat × ShmAttachRef)) : Prop where
  accounted : ∀ a ∈ l, (∃ b ∈ l, b.attachId = a.attachId ∧ b.accounted = true) ∨
    a.attachId ∈ removed.map Prod.fst
  once : ((l.filter ShmAttach.accounted).map ShmAttach.attachId ++ removed.map Prod.fst).Nodup
  target : ∀ a ∈ l, ∀ b ∈ l, a.attachId = b.attachId → a.ref = b.ref
  owed : ∀ p ∈ removed, ∀ a ∈ l, a.attachId = p.1 → a.ref = p.2

/-- **There is exactly one accounted record** of every attach that has a record, and the records of
an attach are for one segment. -/
abbrev AttachesOk (l : List ShmAttach) : Prop := Owing l []

/-- The records in `l'` are of attaches that have records in `l`, for the same segments. -/
def From (l' l : List ShmAttach) : Prop := ∀ a ∈ l', ∃ b ∈ l, b.attachId = a.attachId ∧ b.ref = a.ref

section Accounts

variable {l l' frs : List ShmAttach} {removed removed' : List (Nat × ShmAttachRef)} {a : ShmAttach}
  {q : ShmAttachRef} {p : Nat × ShmAttachRef} {start len stop : Nat}

theorem accountedOn_cons : accountedOn q (a :: l) =
      accountedOn q l + if a.accounted = true ∧ a.ref = q then 1 else 0 := by
  simp [accountedOn, countP_cons]

theorem accountedOn_perm (h : l.Perm l') : accountedOn q l = accountedOn q l' :=
  h.countP_eq _

theorem accountedOn_append : accountedOn q (l ++ l') = accountedOn q l + accountedOn q l' := countP_append

/-- Fragments carry no account. -/
theorem accountedOn_eq_zero (h : ∀ f ∈ l, f.accounted = false) : accountedOn q l = 0 := by
  rw [accountedOn, countP_eq_zero]
  intro f hf
  simp [h f hf]

theorem attachesOk_nil : AttachesOk [] := ⟨nofun, nodup_nil, nofun, nofun⟩

theorem Owing.perm (h : Owing l removed) (hl : l.Perm l') (hr : removed.Perm removed') :
    Owing l' removed' := by
  constructor
  · intro a ha
    rcases h.accounted a (hl.mem_iff.mpr ha) with ⟨b, hb, heq⟩ | hmem
    · exact .inl ⟨b, hl.mem_iff.mp hb, heq⟩
    · exact .inr ((hr.map _).mem_iff.mp hmem)
  · exact (((hl.filter _).map _).append (hr.map _)).nodup_iff.mp h.once
  · intro a ha b hb
    exact h.target a (hl.mem_iff.mpr ha) b (hl.mem_iff.mpr hb)
  · intro p hp a ha
    exact h.owed p (hr.mem_iff.mpr hp) a (hl.mem_iff.mpr ha)

theorem from_refl : From l l := fun a ha => ⟨a, ha, rfl, rfl⟩

theorem From.trans {l'' : List ShmAttach} (h : From l'' l') (h' : From l' l) : From l'' l := by
  intro a ha
  obtain ⟨b, hb, hid, href⟩ := h a ha
  obtain ⟨c, hc, hid', href'⟩ := h' b hb
  exact ⟨c, hc, hid'.trans hid, href'.trans href⟩

theorem from_of_subset (h : l' ⊆ l) : From l' l := fun a ha => ⟨a, h ha, rfl, rfl⟩

/-- The account a record has, as an entry of those taken away. -/
def ShmAttach.account (a : ShmAttach) : List (Nat × ShmAttachRef) :=
  if a.accounted then [(a.attachId, a.ref)] else []

/-- A record of the same attach without the account. -/
def ShmAttach.IsPart (f a : ShmAttach) : Prop := f.attachId = a.attachId ∧ f.ref = a.ref ∧ f.accounted = false

theorem isPart_of_mem {c : Prop} [Decidable c] {f : ShmAttach} {addr : Nat}
    (h : f ∈ if c then [a.fragment addr len] else []) : f.IsPart a := by
  split at h
  · rw [mem_singleton.mp h]
    exact ⟨rfl, rfl, rfl⟩
  · cases h

/-- **A record is cut into fragments**, which takes its account away. -/
theorem Owing.cut (h : Owing (a :: l) removed) (hfrs : ∀ f ∈ frs, f.IsPart a) :
    Owing (frs ++ l) (a.account ++ removed) := by
  have hids : (frs ++ l).filter ShmAttach.accounted = l.filter ShmAttach.accounted := by
    rw [filter_append, filter_eq_nil_iff.mpr, nil_append]
    intro f hf
    simp [(hfrs f hf).2.2]
  -- a record in the new list stands for one in the old list
  have hold b (hb : b ∈ frs ++ l) : ∃ c ∈ a :: l, c.attachId = b.attachId ∧ c.ref = b.ref := by
    rcases mem_append.mp hb with hf | hl
    · exact ⟨a, (.head _), (hfrs b hf).1.symm, (hfrs b hf).2.1.symm⟩
    · exact ⟨b, mem_cons_of_mem a hl, rfl, rfl⟩
  constructor
  · intro b hb
    obtain ⟨c, hc, hid, -⟩ := hold b hb
    rw [← hid, map_append, mem_append]
    rcases h.accounted c hc with ⟨d, hd, hdid, hacc⟩ | hmem
    · rcases mem_cons.mp hd with rfl | hd
      · refine .inr (.inl ?_)
        rw [ShmAttach.account, if_pos hacc, ← hdid]
        exact mem_singleton_self _
      · exact .inl ⟨d, mem_append_right _ hd, hdid, hacc⟩
    · exact .inr (.inr hmem)
  · rw [hids]
    have honce := h.once
    unfold ShmAttach.account
    split_ifs with hacc
    · rw [filter_cons_of_pos hacc] at honce
      exact perm_middle.nodup_iff.mpr honce
    · rw [filter_cons_of_neg hacc] at honce
      assumption
  · intro b hb b' hb' hid
    obtain ⟨c, hc, hcid, hcref⟩ := hold b hb
    obtain ⟨c', hc', hcid', hcref'⟩ := hold b' hb'
    rw [← hcref, ← hcref']
    exact h.target c hc c' hc' (by rw [hcid, hid, hcid'])
  · intro p hp b hb hid
    obtain ⟨c, hc, hcid, hcref⟩ := hold b hb
    rw [← hcref]
    rcases mem_append.mp hp with hp | hp
    · unfold ShmAttach.account at hp
      split at hp
      · rw [mem_singleton.mp hp] at hid ⊢
        exact h.target c hc a (.head _) (hcid.trans hid)
      · cases hp
    · exact h.owed p hp c hc (hcid.trans hid)

/-- **An account is given back** to a record of its attach. -/
theorem Owing.restore (h : Owing l (p :: removed)) (hid : a.attachId = p.1)
    (href : a.ref = p.2) (hacc : a.accounted = true) : Owing (a :: l) removed := by
  have honce := perm_middle.nodup_iff.mp h.once
  constructor
  · intro b hb
    rcases mem_cons.mp hb with rfl | hb
    · exact .inl ⟨b, (.head _), rfl, hacc⟩
    rcases h.accounted b hb with ⟨c, hc, hcid⟩ | hmem
    · exact .inl ⟨c, mem_cons_of_mem a hc, hcid⟩
    · rcases mem_cons.mp hmem with heq | hmem
      · exact .inl ⟨a, (.head _), hid.trans heq.symm, hacc⟩
      · exact .inr hmem
  · rwa [filter_cons_of_pos hacc, map_cons, hid]
  · have howed := h.owed p (.head _)
    intro b hb c hc hbc
    rcases mem_cons.mp hb with hb' | hb' <;> rcases mem_cons.mp hc with hc' | hc'
    · rw [hb', hc']
    · subst hb'
      exact href.trans (howed c hc' (hbc.symm.trans hid)).symm
    · subst hc'
      exact (howed b hb' (hbc.trans hid)).trans href.symm
    · exact h.target b hb' c hc' hbc
  · intro p' hp' b hb hbid
    rcases mem_cons.mp hb with rfl | hb
    · refine absurd ?_ (nodup_cons.mp honce).1
      rw [← hid, hbid]
      exact mem_append_right _ (mem_map_of_mem hp')
    · exact h.owed p' (mem_cons_of_mem p hp') b hb hbid

theorem accountFirst_perm {id : Nat} (h : (l.any fun a => a.attachId == id) = true) :
    ∃ a rest, a.attachId = id ∧ l.Perm (a :: rest) ∧
      (accountFirst id l).Perm ({ a with accounted := true } :: rest) := by
  induction l with
  | nil => cases h
  | cons b l ih =>
    unfold accountFirst
    split_ifs with hb
    · exact ⟨b, l, hb, .refl _, .refl _⟩
    rw [any_cons, Bool.or_eq_true, beq_iff_eq] at h
    obtain ⟨a, rest, hid, hl, hl'⟩ := ih (h.resolve_left hb)
    exact ⟨a, b :: rest, hid, (hl.cons b).trans (Perm.swap ..), (hl'.cons b).trans (Perm.swap ..)⟩

/-- **An account that was taken away** goes to a record that is left, or is released. -/
theorem Owing.reaccount (h : Owing l (p :: removed)) (refs : List ShmAttachRef) :
    Owing (reaccount (l, refs) p).1 removed ∧ From (Ipc.reaccount (l, refs) p).1 l ∧
      ∀ q, accountedOn q (Ipc.reaccount (l, refs) p).1 + (Ipc.reaccount (l, refs) p).2.count q =
          accountedOn q l + refs.count q + if p.2 = q then 1 else 0 := by
  unfold Ipc.reaccount
  split
  · next hany =>
    obtain ⟨a, rest, hid, hl, hl'⟩ := accountFirst_perm hany
    have hperm : Owing (a :: rest) (p :: removed) := h.perm hl (.refl _)
    have href : a.ref = p.2 := hperm.owed p (.head _) a (.head _) hid
    have hnot : a.accounted = false := by
      -- the attach would have two accounts
      by_contra hacc
      have honce := hperm.once
      rw [filter_cons_of_pos (by simpa using hacc), map_cons, cons_append, nodup_cons] at honce
      exact honce.1 (mem_append_right _ (mem_map.mpr ⟨p, (.head _), hid.symm⟩))
    have hrest : Owing rest (p :: removed) := by
      have hcut : Owing ([] ++ rest) (a.account ++ p :: removed) :=
        hperm.cut nofun
      rwa [ShmAttach.account, if_neg (by simp [hnot])] at hcut
    have hback : Owing ({ a with accounted := true } :: rest) removed := hrest.restore hid href rfl
    refine ⟨hback.perm hl'.symm (.refl _), ?_, fun q => ?_⟩
    · intro b hb
      rcases mem_cons.mp (hl'.mem_iff.mp hb) with rfl | hb
      · exact ⟨a, hl.mem_iff.mpr (.head _), rfl, rfl⟩
      · exact ⟨b, hl.mem_iff.mpr (mem_cons_of_mem a hb), rfl, rfl⟩
    · rw [accountedOn_perm hl', accountedOn_perm hl, accountedOn_cons, accountedOn_cons, hnot]
      change _ + (if true = true ∧ a.ref = q then 1 else 0) + _ = _
      rw [href]
      simp only [Bool.false_eq_true, false_and, if_false, true_and]
      omega
  · next hany =>
    refine ⟨⟨fun a ha => ?_, ?_, h.target, fun p' hp' => h.owed p' (mem_cons_of_mem p hp')⟩,
      from_refl, fun q => ?_⟩
    · rcases h.accounted a ha with hb | hmem
      · exact .inl hb
      · rcases mem_cons.mp hmem with heq | hmem
        · exact (hany (any_eq_true.mpr ⟨a, ha, by simpa using heq⟩)).elim
        · exact .inr hmem
    · have honce := perm_middle.nodup_iff.mp h.once
      exact (nodup_cons.mp honce).2
    · rw [count_append, count_singleton]
      simp only [beq_iff_eq]
      omega

/-- All accounts that were taken away. -/
theorem Owing.foldl_reaccount (h : Owing l removed) (refs : List ShmAttachRef) :
    AttachesOk (removed.foldl Ipc.reaccount (l, refs)).1 ∧ From (removed.foldl Ipc.reaccount (l, refs)).1 l ∧
      ∀ q, accountedOn q (removed.foldl Ipc.reaccount (l, refs)).1 +
        (removed.foldl Ipc.reaccount (l, refs)).2.count q =
          accountedOn q l + refs.count q + removed.countP (·.2 == q) := by
  induction removed generalizing l refs with
  | nil => exact ⟨h, from_refl, fun q => rfl⟩
  | cons p _ ih =>
    obtain ⟨how, hfrom, hcount⟩ := h.reaccount refs
    obtain ⟨hok, hfrom', hcount'⟩ := ih how (Ipc.reaccount (l, refs) p).2
    refine ⟨hok, hfrom'.trans hfrom, fun q => ?_⟩
    rw [foldl_cons, hcount', hcount, countP_cons]
    simp only [beq_iff_eq]
    omega

/-! ### What the functions do to the accounts -/

theorem sortAttaches_perm : (sortAttaches l).Perm l := perm_insertionSort _ l

theorem ShmAttach.outside_eq (a : ShmAttach) :
    (a.outside start stop = [a] ∧ a.removedAccount start stop = none) ∨
      ((∀ f ∈ a.outside start stop, f.IsPart a) ∧ (a.removedAccount start stop).toList = a.account) := by
  unfold outside removedAccount
  split
  · exact .inl ⟨rfl, rfl⟩
  refine .inr ⟨fun f hf => ?_, ?_⟩
  · rcases mem_append.mp hf with hf | hf
    · exact isPart_of_mem hf
    · exact isPart_of_mem hf
  · unfold account
    split <;> rfl

/-- The loop over the records: those that were visited are in `done`. -/
theorem Owing.outside {done : List ShmAttach} (h : Owing (l ++ done) removed) (start stop : Nat) :
    Owing (l.flatMap (ShmAttach.outside start stop) ++ done)
        (l.filterMap (ShmAttach.removedAccount start stop) ++ removed) ∧
      ∀ q, accountedOn q (l.flatMap (ShmAttach.outside start stop)) +
        (l.filterMap (ShmAttach.removedAccount start stop)).countP (·.2 == q) = accountedOn q l := by
  induction l generalizing done removed with
  | nil => exact ⟨h, fun q => rfl⟩
  | cons a l ih =>
    rw [flatMap_cons]
    rcases a.outside_eq with ⟨hout, hrem⟩ | ⟨hfrs, hrem⟩
    · -- the record stays
      have hmoved : Owing (l ++ a :: done) removed := h.perm perm_middle.symm (.refl _)
      obtain ⟨how, hcount⟩ := ih hmoved
      rw [hout, filterMap_cons_none hrem]
      refine ⟨how.perm ?_ (.refl _), fun q => ?_⟩
      · exact perm_middle
      · rw [singleton_append, accountedOn_cons, accountedOn_cons, ← hcount q]
        omega
    have hcut : Owing (l ++ (a.outside start stop ++ done)) (a.account ++ removed) := by
      have hhead : Owing (a :: (l ++ done)) removed := h
      refine (hhead.cut hfrs).perm ?_ (.refl _)
      rw [← append_assoc, ← append_assoc]
      exact perm_append_comm.append_right done
    obtain ⟨how, hcount⟩ := ih hcut
    have hcons : (a :: l).filterMap (ShmAttach.removedAccount start stop) =
        a.account ++ l.filterMap (ShmAttach.removedAccount start stop) := by
      rw [← hrem, filterMap_cons]
      cases a.removedAccount start stop <;> rfl
    rw [hcons]
    refine ⟨how.perm ?_ ?_, fun q => ?_⟩
    · rw [append_assoc, ← append_assoc, ← append_assoc]
      exact perm_append_comm.append_right done
    · rw [append_assoc, ← append_assoc, ← append_assoc]
      exact perm_append_comm.append_right removed
    · rw [accountedOn_cons, countP_append, accountedOn_append, accountedOn_eq_zero fun f hf => (hfrs f hf).2.2,
        ← hcount q]
      unfold ShmAttach.account
      by_cases hacc : a.accounted = true
      · simp [hacc]
        omega
      · simp [hacc]

theorem from_outside : From (l.flatMap (ShmAttach.outside start stop)) l := by
  intro f hf
  obtain ⟨a, ha, hf⟩ := mem_flatMap.mp hf
  rcases a.outside_eq with ⟨hout, -⟩ | ⟨hfrs, -⟩
  · rw [hout, mem_singleton] at hf
    exact ⟨a, ha, by rw [hf], by rw [hf]⟩
  · exact ⟨a, ha, (hfrs f hf).1.symm, (hfrs f hf).2.1.symm⟩

/-- **`detach_attaches_overlapping`** keeps the accounts right: one for each attach that is left,
and one release for each attach that is not. -/
theorem detachAttachesOverlapping_spec {refs : List ShmAttachRef} (h : AttachesOk l)
    (hd : detachAttachesOverlapping l start len = some (l', refs)) :
    AttachesOk l' ∧ From l' l ∧ ∀ q, accountedOn q l' + refs.count q = accountedOn q l := by
  unfold detachAttachesOverlapping at hd
  split at hd
  · cases hd
  split at hd
  · cases hd
    exact ⟨h, from_refl, fun q => rfl⟩
  have hnil : Owing (l ++ []) [] := by rwa [append_nil]
  obtain ⟨how, hcount⟩ := hnil.outside start (start + len)
  rw [append_nil, append_nil] at how
  obtain ⟨hok, hfrom, hcount'⟩ := (how.perm sortAttaches_perm.symm (.refl _)).foldl_reaccount []
  rw [Option.some.inj hd] at hok hfrom hcount'
  have hsorted :=
    from_of_subset (@sortAttaches_perm (l.flatMap (ShmAttach.outside start (start + len)))).subset
  refine ⟨hok, hfrom.trans (hsorted.trans from_outside), fun q => ?_⟩
  · rw [hcount', accountedOn_perm sortAttaches_perm]
    exact hcount q

/-- **`remove_sysv_shm_attach`** passes the account on, or leaves it to be released. -/
theorem removeSysvShmAttach_spec {shmaddr : Nat} {transferred : Bool} (h : AttachesOk l)
    (hr : removeSysvShmAttach l shmaddr = some (a, transferred, l')) :
    AttachesOk l' ∧ From l' l ∧ ∀ q, accountedOn q l' +
      (if a.accounted = true ∧ transferred = false ∧ a.ref = q then 1 else 0) = accountedOn q l := by
  unfold removeSysvShmAttach at hr
  iterate 2
    split at hr
    · cases hr
  next idx _ _ b hb =>
  obtain ⟨hlt, rfl⟩ := List.getElem?_eq_some_iff.mp hb
  have hperm : l.Perm (l[idx] :: l.eraseIdx idx) := (getElem_cons_eraseIdx_perm hlt).symm
  have hcut : Owing (l.eraseIdx idx) (l[idx].account ++ []) :=
    Owing.cut (h.perm hperm (.refl _)) fun _ hf => absurd hf not_mem_nil
  have hfrom : From (l.eraseIdx idx) l := from_of_subset eraseIdx_subset
  have hcount q : accountedOn q l =
      accountedOn q (l.eraseIdx idx) + if l[idx].accounted = true ∧ l[idx].ref = q then 1 else 0 :=
    (accountedOn_perm hperm).trans accountedOn_cons
  dsimp only at hr
  by_cases hacc : l[idx].accounted = true
  · rw [ShmAttach.account, if_pos hacc] at hcut
    obtain ⟨hok, hfrom', hcount'⟩ := hcut.reaccount []
    rw [hacc, Bool.true_and] at hr
    unfold reaccount at hok hfrom' hcount'
    split at hr
    · next hany =>
      obtain ⟨rfl, rfl, rfl⟩ := by simpa using hr
      simp only [if_pos hany] at hok hfrom' hcount'
      refine ⟨hok, hfrom'.trans hfrom, fun q => ?_⟩
      have := hcount' q
      rw [hcount q]
      simpa [hacc] using this
    · next hany =>
      obtain ⟨rfl, rfl, rfl⟩ := by simpa using hr
      simp only [if_neg hany] at hok hfrom' hcount'
      refine ⟨hok, hfrom, fun q => ?_⟩
      rw [hcount q]
      simp [hacc]
  · rw [ShmAttach.account, if_neg hacc] at hcut
    rw [Bool.eq_false_iff.mpr hacc] at hr
    obtain ⟨rfl, rfl, rfl⟩ := by simpa using hr
    refine ⟨hcut, hfrom, fun q => ?_⟩
    rw [hcount q]
    simp [hacc]

/-- **`split_mremap_attach`** leaves the account with the part that is moved. -/
theorem splitMremapAttach_spec {idx oldAddr oldLen newAddr newLen : Nat} (h : AttachesOk l)
    (hs : splitMremapAttach l idx oldAddr oldLen newAddr newLen = some l') :
    AttachesOk l' ∧ From l' l ∧ ∀ q, accountedOn q l' = accountedOn q l := by
  unfold splitMremapAttach at hs
  iterate 3
    split at hs
    · cases hs
  next a ha _ _ =>
  cases hs
  obtain ⟨hlt, rfl⟩ := List.getElem?_eq_some_iff.mp ha
  have hperm : l.Perm (l[idx] :: l.eraseIdx idx) := (getElem_cons_eraseIdx_perm hlt).symm
  generalize hbefore : (if oldAddr > l[idx].addr then
    [l[idx].fragment l[idx].addr (oldAddr - l[idx].addr)] else []) = before
  generalize hafter : (if oldAddr + oldLen < l[idx].stop then
    [l[idx].fragment (oldAddr + oldLen) (l[idx].stop - (oldAddr + oldLen))] else []) = after
  have hfrs f (hf : f ∈ before ++ after) : f.IsPart l[idx] := by
    rcases mem_append.mp hf with hf | hf
    · rw [← hbefore] at hf
      exact isPart_of_mem hf
    · rw [← hafter] at hf
      exact isPart_of_mem hf
  -- the moved part takes the account, the fragments go beside it
  generalize hmoved : ({ l[idx] with addr := newAddr, len := newLen } : ShmAttach) = moved
  have hid : moved.attachId = l[idx].attachId := by rw [← hmoved]
  have href : moved.ref = l[idx].ref := by rw [← hmoved]; rfl
  have hacc : moved.accounted = l[idx].accounted := by rw [← hmoved]
  have hres : (sortAttaches (l.eraseIdx idx ++ (before ++ moved :: after))).Perm
      (moved :: ((before ++ after) ++ l.eraseIdx idx)) :=
    sortAttaches_perm.trans (perm_append_comm.trans (perm_middle.append_right (l.eraseIdx idx)))
  refine ⟨Owing.perm ?_ hres.symm (.refl _), fun f hf => ?_, fun q => ?_⟩
  · have hhead : Owing (l[idx] :: l.eraseIdx idx) [] := h.perm hperm (.refl _)
    by_cases hwas : l[idx].accounted = true
    · have hcut := hhead.cut hfrs
      rw [ShmAttach.account, if_pos hwas] at hcut
      exact hcut.restore hid href (hacc.trans hwas)
    -- without the account, the moved part is one fragment more
    have hall f (hf : f ∈ moved :: (before ++ after)) : f.IsPart l[idx] := by
      rcases mem_cons.mp hf with rfl | hf
      · exact ⟨hid, href, hacc.trans (eq_false_of_ne_true hwas)⟩
      · exact hfrs f hf
    have hcut := hhead.cut hall
    rwa [ShmAttach.account, if_neg hwas] at hcut
  · rcases mem_cons.mp (hres.mem_iff.mp hf) with rfl | hf
    · exact ⟨l[idx], getElem_mem hlt, hid.symm, href.symm⟩
    · rcases mem_append.mp hf with hf | hf
      · exact ⟨l[idx], getElem_mem hlt, (hfrs f hf).1.symm, (hfrs f hf).2.1.symm⟩
      · exact ⟨f, eraseIdx_subset hf, rfl, rfl⟩
  · rw [accountedOn_perm hres, accountedOn_perm hperm, accountedOn_cons, accountedOn_cons,
      accountedOn_append, accountedOn_eq_zero fun f hf => (hfrs f hf).2.2, zero_add, hacc, href]

end Accounts

end HitOS.Ipc
