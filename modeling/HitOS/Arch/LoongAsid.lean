import HitOS.Arch.Asid

/-!
# Address space identifiers on loongarch64

`arch/loongarch64/mm/asid.rs`: `prepare_user_asid` gives a context its ASID, and `drop_user_asid`
takes it away again when the mappings change. The model interleaves the single accesses of both, on
any number of harts.

No ASID is given out twice: `owner` says which context one was drawn for, and `AsidInv` that
whatever a context holds or a call returns without a flush was drawn for that context. Two things go
wrong nevertheless (`kernel_and_fallback_returned`): the first ASID that is drawn is also the one
all contexts share once there are no more, and a call that has found its context valid loads the
ASID once more, after an invalidation may have stored 0. `asids_of_careful_run` excludes the second.
-/

namespace HitOS.LoongAsid

open Function Option List

def asidMask : Nat := 0x3ff

def fallbackUserAsid : Nat := firstUserAsid

structure AsidContext where
  asid : Nat
  generation : Nat
  activeHartMask : BitVec 64

/-- What a call of `prepare_user_asid` for a context has returned. -/
structure Prepared where
  ctx : Nat
  asid : Nat
  needFlush : Bool
  deriving DecidableEq

/-- The statics and the contexts, with the context each ASID was drawn for and what has been
returned. -/
structure AsidShared where
  nextUserAsid : Nat
  asidGeneration : Nat
  allocLock : Option Nat
  asidExhausted : Bool
  tlbFlushRequest : Nat → Nat
  ctx : Nat → AsidContext
  owner : Nat → Option Nat
  returned : List Prepared

namespace AsidShared

def setCtx (sh : AsidShared) (c : Nat) (x : AsidContext) : AsidShared :=
  { sh with ctx := update sh.ctx c x }

/-- The guard of `ASID_ALLOC_LOCK` goes out of scope, if this hart holds it. -/
def unlock (sh : AsidShared) (hart : Nat) : AsidShared :=
  { sh with allocLock := if sh.allocLock = some hart then none else sh.allocLock }

/-- The context of the first draw. -/
def firstContext (sh : AsidShared) : Option Nat := sh.owner firstUserAsid

end AsidShared

/-- The next access of a hart. The tests of `prepare_user_asid` are made twice, without and with the
lock. -/
inductive Pc where
  | idle
  | markActive (c : Nat)
  | loadExhausted (locked : Bool) (c : Nat)
  | loadGeneration (locked : Bool) (c : Nat)
  /-- `self.asid.load` of `current` -/
  | checkAsid (locked : Bool) (c generation : Nat)
  /-- `self.generation.load` of `current`, then the comparison of `valid_for` -/
  | checkGeneration (locked : Bool) (c generation asid : Nat)
  /-- `ctx.asid.load` of a context that was found valid -/
  | reloadAsid (c : Nat)
  | acquire (c : Nat)
  | fetchAdd (c : Nat)
  /-- `ASID_GENERATION.load` of `allocate_user_asid` -/
  | grant (c asid : Nat)
  | storeExhausted (c : Nat)
  | storeGeneration (c asid generation : Nat)
  | storeAsid (c asid : Nat)
  /-- the return, which drops the guard -/
  | ret (r : Prepared)
  /-- `drop_user_asid`, up to the end of its critical section -/
  | dropLock (c : Nat)
  | clearAsid (c : Nat)
  | clearGeneration (c : Nat)
  | dropUnlock (c : Nat)
  /-- `request_remote_user_tlb_flush` -/
  | loadActive (c : Nat)
  | request (target : Nat) (mask : BitVec 64)

namespace Pc

/-- One access of a hart; `online` is what `online_hart_mask` of the task manager answers. An access
that has to wait is `none`. -/
def exec (sh : AsidShared) (hart : Nat) (online : BitVec 64) : Pc → Option (AsidShared × Pc)
  | idle => none
  | markActive c =>
    some (sh.setCtx c { sh.ctx c with activeHartMask := (sh.ctx c).activeHartMask ||| localHartBit hart },
      loadExhausted false c)
  | loadExhausted locked c =>
    some (sh, if sh.asidExhausted then ret ⟨c, fallbackUserAsid, true⟩ else loadGeneration locked c)
  | loadGeneration locked c => some (sh, checkAsid locked c sh.asidGeneration)
  | checkAsid locked c generation => some (sh, checkGeneration locked c generation (sh.ctx c).asid)
  | checkGeneration locked c generation asid =>
    some (sh, if asid ≠ kernelAsid ∧ (sh.ctx c).generation = generation then reloadAsid c
      else if locked then fetchAdd c else acquire c)
  | reloadAsid c => some (sh, ret ⟨c, (sh.ctx c).asid, false⟩)
  | acquire c =>
    if sh.allocLock = none then some ({ sh with allocLock := some hart }, loadExhausted true c) else none
  | fetchAdd c =>
    some ({ sh with
        nextUserAsid := wrapAdd sh.nextUserAsid 1
        owner := update sh.owner sh.nextUserAsid (some c) },
      if sh.nextUserAsid ≤ asidMask then grant c sh.nextUserAsid else storeExhausted c)
  | grant c asid => some (sh, storeGeneration c asid sh.asidGeneration)
  | storeExhausted c => some ({ sh with asidExhausted := true }, ret ⟨c, fallbackUserAsid, true⟩)
  | storeGeneration c asid generation =>
    some (sh.setCtx c { sh.ctx c with generation := generation }, storeAsid c asid)
  | storeAsid c asid => some (sh.setCtx c { sh.ctx c with asid := asid }, ret ⟨c, asid, false⟩)
  | ret r => some ({ sh.unlock hart with returned := r :: sh.returned }, idle)
  | dropLock c =>
    if sh.allocLock = none then some ({ sh with allocLock := some hart }, clearAsid c) else none
  | clearAsid c => some (sh.setCtx c { sh.ctx c with asid := 0 }, clearGeneration c)
  | clearGeneration c => some (sh.setCtx c { sh.ctx c with generation := 0 }, dropUnlock c)
  | dropUnlock c => some (sh.unlock hart, loadActive c)
  | loadActive c =>
    some (sh, request 0 ((sh.ctx c).activeHartMask &&& (online &&& configuredHartMask) &&&
      ~~~(localHartBit hart)))
  | request target mask =>
    if target < maxHarts then
      some ({ sh with tlbFlushRequest :=
          if mask.getLsbD target then
            Function.update sh.tlbFlushRequest target (wrapAdd (sh.tlbFlushRequest target) 1)
          else sh.tlbFlushRequest },
        request (target + 1) mask)
    else some (sh, idle)

end Pc

/-- The harts and what they share. -/
structure AsidState where
  shared : AsidShared
  pc : Nat → Pc

/-- All harts idle, and no context with an ASID. -/
def boot : AsidState :=
  ⟨⟨firstUserAsid, 1, none, false, fun _ => 0, fun _ => ⟨0, 0, 0⟩, fun _ => none, []⟩, fun _ => .idle⟩

/-- A call, or the next access of a hart. -/
inductive AsidEvent where
  | prepare (hart c : Nat)
  | drop (hart c : Nat)
  | access (hart : Nat) (online : BitVec 64)

variable (s : AsidState)

/-- Hart `hart` is idle and enters a call. -/
def AsidState.enter (hart : Nat) (pc : Pc) : Option AsidState :=
  match s.pc hart with
  | .idle => some { s with pc := update s.pc hart pc }
  | _ => none

def step : AsidEvent → Option AsidState
  | .prepare hart c => s.enter hart (.markActive c)
  | .drop hart c => s.enter hart (.dropLock c)
  | .access hart online =>
    ((s.pc hart).exec s.shared hart online).map fun r => ⟨r.1, update s.pc hart r.2⟩

/-- The states of the runs whose events all meet the condition. -/
abbrev Runs (cond : AsidState → AsidEvent → Prop) : AsidState → Prop :=
  Reachable (· = boot) fun s t => ∃ e, cond s e ∧ step s e = some t

/-! ### What a hart may rely on -/

namespace Pc

/-- The hart holds the lock. -/
def locks : Pc → Bool
  | loadExhausted locked _ | loadGeneration locked _ | checkAsid locked _ _ | checkGeneration locked
    _ _ _ => locked
  | fetchAdd _ | grant _ _ | storeExhausted _ | storeGeneration _ _ _ | storeAsid _ _ | clearAsid _
  | clearGeneration _ | dropUnlock _ => true
  | _ => false

/-- The hart has seen under the lock that there are ASIDs left. -/
def draws : Pc → Bool
  | loadGeneration locked _ | checkAsid locked _ _ | checkGeneration locked _ _ _ => locked
  | fetchAdd _ => true
  | _ => false

/-- The context of which the hart has seen an ASID, to load it once more. -/
def relies : Pc → Option Nat
  | checkGeneration _ c _ asid => if asid = kernelAsid then none else some c
  | reloadAsid c => some c
  | _ => none

/-- What the hart is about to return. -/
def carries : Pc → Option Prepared
  | grant c asid | storeGeneration c asid _ | storeAsid c asid => some ⟨c, asid, false⟩
  | ret r => some r
  | _ => none

theorem locks_of_draws {pc : Pc} (h : pc.draws = true) : pc.locks = true := by
  cases pc <;> first | exact h | cases h

end Pc

/-- **No ASID is invalidated under a hart** that has seen it and is going to load it once more. -/
def Careful : AsidEvent → Prop
  | .access hart _ => ∀ c, s.pc hart = .clearAsid c → ∀ g, (s.pc g).relies ≠ some c
  | _ => True

/-- A result is not the ASID of the kernel, and without a flush one that was drawn for the
context. -/
def AsidShared.Backs (sh : AsidShared) (r : Prepared) : Prop :=
  r.asid ≠ kernelAsid ∧ (r.needFlush = false → sh.owner r.asid = some r.ctx)

/-- What holds in every state of a careful run. -/
structure AsidInv (s : AsidState) : Prop where
  lock : ∀ h, (s.pc h).locks = true → s.shared.allocLock = some h
  left : ∀ h, (s.pc h).draws = true → s.shared.asidExhausted = false
  valid : ∀ h c, (s.pc h).relies = some c → (s.shared.ctx c).asid ≠ kernelAsid
  carried : ∀ h r, (s.pc h).carries = some r → s.shared.Backs r
  returned : ∀ r ∈ s.shared.returned, s.shared.Backs r
  stored : ∀ c, (s.shared.ctx c).asid ≠ kernelAsid → s.shared.owner (s.shared.ctx c).asid = some c
  fresh : ∀ asid, s.shared.nextUserAsid ≤ asid → s.shared.owner asid = none
  next : firstUserAsid ≤ s.shared.nextUserAsid ∧ s.shared.nextUserAsid ≤ asidMask + 2
  /-- The last draw that fails is followed by the store to `ASID_EXHAUSTED`. -/
  room : s.shared.asidExhausted = false → asidMask + 1 < s.shared.nextUserAsid → ∃ h c,
    s.pc h = .storeExhausted c

section Steps

variable {s t : AsidState} {h : Nat} {pc' : Pc} {sh' sh : AsidShared} {c : Nat}

/-- What a step of hart `h` leaves to the others. -/
structure Frame (s : AsidState) (h : Nat) (sh' : AsidShared) : Prop where
  lock : ∀ g, g ≠ h → s.shared.allocLock = some g →
    sh'.allocLock = some g ∧ sh'.asidExhausted = s.shared.asidExhausted
  valid : ∀ g c, g ≠ h → (s.pc g).relies = some c → (sh'.ctx c).asid ≠ kernelAsid
  owner : ∀ asid c, s.shared.owner asid = some c → sh'.owner asid = some c

/-- What hart `h` may rely on after its step. -/
structure Here (h : Nat) (sh' : AsidShared) (pc' : Pc) : Prop where
  lock : pc'.locks = true → sh'.allocLock = some h
  left : pc'.draws = true → sh'.asidExhausted = false
  valid : ∀ c, pc'.relies = some c → (sh'.ctx c).asid ≠ kernelAsid
  carried : ∀ r, pc'.carries = some r → sh'.Backs r

theorem AsidShared.Backs.mono {r : Prepared}
    (howner : ∀ asid c, sh.owner asid = some c → sh'.owner asid = some c) (hb : sh.Backs r) : sh'.Backs r :=
  ⟨hb.1, fun hflush => howner _ _ (hb.2 hflush)⟩

/-- **A step of one hart.** -/
theorem AsidInv.move (hi : AsidInv s) (hf : Frame s h sh') (hh : Here h sh' pc')
    (hreturned : ∀ r ∈ sh'.returned, r ∈ s.shared.returned ∨ sh'.Backs r)
    (hstored : ∀ c, (sh'.ctx c).asid ≠ kernelAsid → sh'.owner (sh'.ctx c).asid = some c)
    (hfresh : ∀ asid, sh'.nextUserAsid ≤ asid → sh'.owner asid = none)
    (hnext : firstUserAsid ≤ sh'.nextUserAsid ∧ sh'.nextUserAsid ≤ asidMask + 2)
    (hroom : sh'.asidExhausted = false → asidMask + 1 < sh'.nextUserAsid →
      (∃ c, pc' = .storeExhausted c) ∨ ∃ g c, g ≠ h ∧ s.pc g = .storeExhausted c) :
    AsidInv ⟨sh', update s.pc h pc'⟩ := by
  have hother : ∀ {g}, g ≠ h → update s.pc h pc' g = s.pc g := fun hg => update_of_ne hg ..
  refine ⟨?_, ?_, ?_, ?_, fun r hr => ?_, hstored, hfresh, hnext, fun hex hlt => ?_⟩
  · exact (forall_update_iff s.pc fun g pc => pc.locks = true → sh'.allocLock = some g).mpr
      ⟨hh.lock, fun g hg hl => (hf.lock g hg (hi.lock g hl)).1⟩
  · refine (forall_update_iff s.pc fun _ pc => pc.draws = true → sh'.asidExhausted = false).mpr
      ⟨hh.left, fun g hg hl => ?_⟩
    rw [(hf.lock g hg (hi.lock g (Pc.locks_of_draws hl))).2]
    exact hi.left g hl
  · exact (forall_update_iff s.pc fun _ pc => ∀ c, pc.relies = some c → (sh'.ctx c).asid ≠ kernelAsid).mpr
      ⟨hh.valid, fun g hg c => hf.valid g c hg⟩
  · exact (forall_update_iff s.pc fun _ pc => ∀ r, pc.carries = some r → sh'.Backs r).mpr
      ⟨hh.carried, fun g _ r hr => (hi.carried g r hr).mono hf.owner⟩
  · exact (hreturned r hr).elim (fun hold => (hi.returned r hold).mono hf.owner) id
  · rcases hroom hex hlt with ⟨c, hc⟩ | ⟨g, c, hg, hc⟩
    · exact ⟨h, c, (update_self ..).trans hc⟩
    · exact ⟨g, c, (hother hg).trans hc⟩

/-- Another hart is about to note that its draw has failed, if one has. -/
def RoomElsewhere (s : AsidState) (h : Nat) : Prop :=
  s.shared.asidExhausted = false → asidMask + 1 < s.shared.nextUserAsid → ∃ g c, g ≠ h ∧
    s.pc g = .storeExhausted c

/-- A step after which everyone finds what they rely on as it was. -/
theorem AsidInv.quiet (hi : AsidInv s) (hroom : RoomElsewhere s h) {ctx : Nat → AsidContext}
    {requests : Nat → Nat} (hasid : ∀ c, (ctx c).asid = (s.shared.ctx c).asid) (hh : Here h s.shared pc') :
    AsidInv ⟨{ s.shared with ctx := ctx, tlbFlushRequest := requests }, update s.pc h pc'⟩ := by
  refine hi.move ⟨fun g _ hg => ⟨hg, rfl⟩, fun g c _ hc => ?_, fun _ _ => id⟩
    ⟨hh.lock, hh.left, fun c hc => ?_, hh.carried⟩ (fun _ => .inl) (fun c => ?_) hi.fresh hi.next
    fun hex hlt => .inr (hroom hex hlt)
  all_goals rw [hasid]
  · exact hi.valid g c hc
  · exact hh.valid c hc
  · exact hi.stored c

theorem asid_setCtx {x : AsidContext} (hx : x.asid = (sh.ctx c).asid) (d : Nat) :
    ((sh.setCtx c x).ctx d).asid = (sh.ctx d).asid := by
  simp only [AsidShared.setCtx, update_apply]
  split
  · next hd => rw [hx, hd]
  · rfl

section

variable (hi : AsidInv s)

include hi

/-- The ASID of a context is written, under the lock. -/
theorem AsidInv.writes (hroom : RoomElsewhere s h) {asid : Nat}
    (hvalid : ∀ g, (s.pc g).relies = some c → asid ≠ kernelAsid)
    (hstored : asid ≠ kernelAsid → s.shared.owner asid = some c)
    (hh : Here h (s.shared.setCtx c { s.shared.ctx c with asid := asid }) pc') :
    AsidInv ⟨s.shared.setCtx c { s.shared.ctx c with asid := asid }, update s.pc h pc'⟩ := by
  refine hi.move ⟨fun g _ hg => ⟨hg, rfl⟩, fun g d _ hd => ?_, fun _ _ => id⟩ hh (fun _ => .inl)
    (fun d => ?_) hi.fresh hi.next fun hex hlt => .inr (hroom hex hlt)
  all_goals
    simp only [AsidShared.setCtx, update_apply]
    split
  · next heq => exact hvalid g (heq ▸ hd)
  · exact hi.valid g d hd
  · next heq => exact heq ▸ hstored
  · exact hi.stored d

/-- **A draw**: the ASID is one that no one has, and there was room for it in the counter. -/
theorem AsidInv.fetchAdd (hpc : s.pc h = .fetchAdd c) : AsidInv ⟨{ s.shared with
        nextUserAsid := wrapAdd s.shared.nextUserAsid 1
        owner := update s.shared.owner s.shared.nextUserAsid (some c) },
      update s.pc h (if s.shared.nextUserAsid ≤ asidMask then .grant c s.shared.nextUserAsid
        else .storeExhausted c)⟩ := by
  have hlock : s.shared.allocLock = some h := hi.lock h (by rw [hpc]; rfl)
  have hleft : s.shared.asidExhausted = false := hi.left h (by rw [hpc]; rfl)
  obtain ⟨hfirst, hmax⟩ := hi.next
  have hfresh := hi.fresh _ le_rfl
  have hroom : s.shared.nextUserAsid ≤ asidMask + 1 := by
    by_contra hlt
    obtain ⟨g, d, hg⟩ := hi.room hleft (by omega)
    have hgh := some.inj ((hi.lock g (by rw [hg]; rfl)).symm.trans hlock)
    rw [hgh, hpc] at hg
    cases hg
  have hwrap : wrapAdd s.shared.nextUserAsid 1 = s.shared.nextUserAsid + 1 :=
    wrapAdd_of_le (by unfold asidMask at hmax; unfold usizeMax; omega)
  have howner asid d (ho : s.shared.owner asid = some d) :
      update s.shared.owner s.shared.nextUserAsid (some c) asid = some d := by
    rw [update_of_ne, ho]
    rintro rfl
    cases hfresh.symm.trans ho
  refine hi.move ⟨fun g hgh hg => absurd (some.inj (hg.symm.trans hlock)) hgh,
      fun g d _ => hi.valid g d, howner⟩ ⟨fun _ => hlock, fun _ => hleft, ?_, ?_⟩ (fun _ => .inl)
    (fun d hd => howner _ _ (hi.stored d hd)) (fun asid hle => ?_) ?_ fun _ hlt => .inl ⟨c, if_neg ?_⟩
  · split <;> nofun
  · split
    · rintro _ ⟨⟩
      exact ⟨ne_of_gt hfirst, fun _ => update_self ..⟩
    · nofun
  · dsimp only at hle ⊢
    rw [update_of_ne (by omega)]
    exact hi.fresh asid (by omega)
  · dsimp only
    omega
  · dsimp only at hlt
    omega

/-- **An access of a hart.** -/
theorem AsidInv.access {online : BitVec 64} (hcare : Careful s (.access h online))
    (he : (s.pc h).exec s.shared h online = some (sh', pc')) : AsidInv ⟨sh', update s.pc h pc'⟩ := by
  obtain ⟨hlock, hleft, hvalid, hcarried⟩ : Here h s.shared (s.pc h) :=
    ⟨hi.lock h, hi.left h, hi.valid h, hi.carried h⟩
  have hfallback : ∀ d, s.shared.Backs ⟨d, fallbackUserAsid, true⟩ := fun _ => ⟨one_ne_zero, nofun⟩
  have hother : ∀ {g}, g ≠ h → s.shared.allocLock = some g → (s.shared.unlock h).allocLock = some g :=
    fun hgh hg => (if_neg fun heq => hgh (some.inj (hg.symm.trans heq))).trans hg
  have hroom : (∀ c, s.pc h ≠ .storeExhausted c) → RoomElsewhere s h := by
    intro hne hex hlt
    obtain ⟨g, c, hg⟩ := hi.room hex hlt
    exact ⟨g, c, fun hgh => hne c (hgh ▸ hg), hg⟩
  have hcare : ∀ c, s.pc h = .clearAsid c → ∀ g, (s.pc g).relies ≠ some c := hcare
  generalize hpc : s.pc h = pc at he hlock hleft hvalid hcarried hroom hcare
  cases pc with
  | idle => cases he
  -- the hart relies on what it relied on before
  | markActive | storeGeneration | clearGeneration =>
    cases he
    exact hi.quiet (hroom nofun) (asid_setCtx rfl) ⟨hlock, hleft, hvalid, hcarried⟩
  | loadGeneration | grant | loadActive =>
    cases he
    exact hi.quiet (hroom nofun) (fun _ => rfl) ⟨hlock, hleft, hvalid, hcarried⟩
  | loadExhausted _ c =>
    cases he
    refine hi.quiet (hroom nofun) (fun _ => rfl) ?_
    split
    · exact ⟨nofun, nofun, nofun, fun r hr => some.inj hr ▸ hfallback c⟩
    · next hex => exact ⟨hlock, fun _ => Bool.eq_false_iff.mpr hex, nofun, nofun⟩
  | checkAsid =>
    cases he
    refine hi.quiet (hroom nofun) (fun _ => rfl) ⟨hlock, hleft, fun d hd => ?_, nofun⟩
    obtain ⟨hne, hcd⟩ := ite_none_left_eq_some.mp hd
    exact some.inj hcd ▸ hne
  | checkGeneration locked =>
    cases he
    refine hi.quiet (hroom nofun) (fun _ => rfl) ?_
    split
    · next hfound => exact ⟨nofun, nofun, fun d hd => hvalid d ((if_neg hfound.1).trans hd), nofun⟩
    · cases locked with
      | true => exact ⟨hlock, hleft, nofun, nofun⟩
      | false => exact ⟨nofun, nofun, nofun, nofun⟩
  | reloadAsid c =>
    cases he
    refine hi.quiet (hroom nofun) (fun _ => rfl) ⟨nofun, nofun, nofun, ?_⟩
    rintro _ ⟨⟩
    exact ⟨hvalid c rfl, fun _ => hi.stored c (hvalid c rfl)⟩
  | acquire | dropLock =>
    simp only [Pc.exec] at he
    split at he
    · next hfree =>
      cases he
      refine hi.move ⟨fun g _ hg => ?_, fun g d _ => hi.valid g d, fun _ _ => id⟩
        ⟨fun _ => rfl, nofun, nofun, nofun⟩ (fun _ => .inl) hi.stored hi.fresh hi.next
        fun hex hlt => .inr (hroom nofun hex hlt)
      cases hfree.symm.trans hg
    · cases he
  | fetchAdd c =>
    cases he
    exact hi.fetchAdd hpc
  | storeExhausted c =>
    cases he
    exact hi.move ⟨fun g hgh hg => absurd (some.inj (hg.symm.trans (hlock rfl))) hgh,
      fun g d _ => hi.valid g d, fun _ _ => id⟩
      ⟨nofun, nofun, nofun, fun r hr => some.inj hr ▸ hfallback c⟩ (fun _ => .inl) hi.stored hi.fresh
      hi.next nofun
  | storeAsid =>
    cases he
    obtain ⟨hne, howner⟩ := hcarried _ rfl
    exact hi.writes (hroom nofun) (fun _ _ => hne) (fun _ => howner rfl) ⟨nofun, nofun, nofun, hcarried⟩
  | ret r =>
    cases he
    refine hi.move ⟨fun g hgh hg => ⟨hother hgh hg, rfl⟩, fun g d _ => hi.valid g d, fun _ _ => id⟩
      ⟨nofun, nofun, nofun, nofun⟩ (fun q hq => ?_) hi.stored hi.fresh hi.next
      fun hex hlt => .inr (hroom nofun hex hlt)
    exact (mem_cons.mp hq).symm.imp id fun heq : q = r => heq ▸ hcarried r rfl
  | clearAsid c =>
    cases he
    exact hi.writes (hroom nofun) (fun g hg => absurd hg (hcare c rfl g)) (absurd rfl)
      ⟨hlock, nofun, nofun, nofun⟩
  | dropUnlock =>
    cases he
    exact hi.move ⟨fun g hgh hg => ⟨hother hgh hg, rfl⟩, fun g d _ => hi.valid g d, fun _ _ => id⟩
      ⟨nofun, nofun, nofun, nofun⟩ (fun _ => .inl) hi.stored hi.fresh hi.next
      fun hex hlt => .inr (hroom nofun hex hlt)
  | request =>
    simp only [Pc.exec] at he
    split at he
    all_goals
      cases he
      exact hi.quiet (hroom nofun) (fun _ => rfl) ⟨nofun, nofun, nofun, nofun⟩

theorem AsidInv.enter (he : s.enter h pc' = some t) (hh : Here h s.shared pc') : AsidInv t := by
  unfold AsidState.enter at he
  split at he
  · next hidle =>
    cases he
    refine hi.quiet (fun hex hlt => ?_) (fun _ => rfl) hh
    obtain ⟨g, c, hg⟩ := hi.room hex hlt
    refine ⟨g, c, ?_, hg⟩
    rintro rfl
    cases hidle.symm.trans hg
  · cases he

/-- **Every event keeps the invariant.** -/
theorem AsidInv.step {e : AsidEvent} (hcare : Careful s e) (hstep : LoongAsid.step s e = some t) :
    AsidInv t := by
  cases e with
  | prepare | drop => exact hi.enter hstep ⟨nofun, nofun, nofun, nofun⟩
  | access =>
    obtain ⟨⟨_, _⟩, he, rfl⟩ := map_eq_some_iff.mp hstep
    exact hi.access hcare he

end

theorem asidInv_boot : AsidInv boot :=
  ⟨nofun, nofun, nofun, nofun, nofun, fun _ hne => absurd rfl hne, fun _ _ => rfl,
    ⟨le_rfl, by decide⟩, fun _ hlt => absurd hlt (by decide)⟩

end Steps

/-- **ASIDs are safe** in the runs in which none is invalidated under a hart that has seen it and
loads it once more: no call returns the ASID of the kernel; without a flush, two contexts never get
the same one, and none but the context of the first draw gets the fallback. -/
theorem asids_of_careful_run {s : AsidState} (hr : Runs Careful s) :
    (∀ r ∈ s.shared.returned, r.asid ≠ kernelAsid) ∧
    (∀ r ∈ s.shared.returned, r.needFlush = false → s.shared.firstContext ≠ some r.ctx →
      r.asid ≠ fallbackUserAsid) ∧
    ∀ r ∈ s.shared.returned, ∀ q ∈ s.shared.returned, r.needFlush = false → q.needFlush = false →
      r.ctx ≠ q.ctx → r.asid ≠ q.asid := by
  have hi : AsidInv s :=
    Reachable.invariant (fun _ hs => hs ▸ asidInv_boot)
      (fun _ _ hi ⟨_, hcare, hstep⟩ => hi.step hcare hstep) hr
  refine ⟨fun r hrin => (hi.returned r hrin).1, fun r hrin hflush hne heq => ?_,
    fun r hrin q hqin hflush hflush' hne heq => hne (some.inj ?_)⟩
  · have howner := (hi.returned r hrin).2 hflush
    rw [heq] at howner
    exact hne howner
  · rw [← (hi.returned r hrin).2 hflush, heq, (hi.returned q hqin).2 hflush']

/-- A call of `prepare_user_asid` that draws an ASID. -/
def preparing (hart c : Nat) : List AsidEvent := .prepare hart c :: replicate 15 (.access hart 0)

/-- The next access of the hart does not invalidate a context. -/
def clearsNothing : AsidEvent → Bool
  | .access hart _ =>
    match s.pc hart with
    | .clearAsid _ => false
    | _ => true
  | _ => true

theorem careful_of_clearsNothing {s : AsidState} {e : AsidEvent} (h : clearsNothing s e = true) :
    Careful s e := by
  cases e with
  | access =>
    intro c hc
    simp only [clearsNothing, hc] at h
    cases h
  | prepare | drop => trivial

/-- Two contexts get the ASIDs 1 and 2. -/
theorem asids_of_careful_run_two : ∃ s, Runs Careful s ∧
    s.shared.returned = [⟨1, 2, false⟩, ⟨0, 1, false⟩] ∧ ∀ r ∈ s.shared.returned, r.asid ≠ kernelAsid := by
  have hstate : ((preparing 0 0 ++ preparing 1 1).foldlM
      (fun s e => if clearsNothing s e then step s e else none) boot).map (·.shared.returned) =
        some [⟨1, 2, false⟩, ⟨0, 1, false⟩] := by
    decide +kernel
  obtain ⟨s, hrun, hs⟩ := map_eq_some_iff.mp hstate
  have hr : Runs Careful s := by
    refine foldlM_invariant (.start rfl) (fun _ e _ _ hr hexec => ?_) hrun
    obtain ⟨hclears, hstep⟩ := ite_none_right_eq_some.mp hexec
    exact hr.step ⟨e, careful_of_clearsNothing hclears, hstep⟩
  exact ⟨s, hr, hs, (asids_of_careful_run hr).1⟩

/-- **The ASID of the kernel is returned**, and the fallback without a flush. The first call draws
ASID 1. The second finds it; before it is loaded once more, another hart invalidates the context. -/
theorem kernel_and_fallback_returned : ∃ s, Runs (fun _ _ => True) s ∧
    s.shared.returned = [⟨0, kernelAsid, false⟩, ⟨0, fallbackUserAsid, false⟩] := by
  have hstate : (foldlM step boot (preparing 0 0 ++ .prepare 0 0 :: replicate 5 (.access 0 0) ++
      [.drop 1 0, .access 1 0, .access 1 0, .access 0 0, .access 0 0])).map
        (·.shared.returned) = some [⟨0, kernelAsid, false⟩, ⟨0, fallbackUserAsid, false⟩] := by
    decide +kernel
  obtain ⟨s, hrun, hs⟩ := map_eq_some_iff.mp hstate
  exact ⟨s, foldlM_invariant (.start rfl) (fun _ e _ _ hr hstep => hr.step ⟨e, trivial, hstep⟩) hrun, hs⟩

end HitOS.LoongAsid
