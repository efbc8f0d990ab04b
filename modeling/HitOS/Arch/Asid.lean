import HitOS.Lib.Reachable
import HitOS.Lib.Usize

/-!
# Address space identifiers on riscv64

`arch/riscv64/mm/asid.rs`: every `MemorySet` owns an `AsidContext`, which gets a hardware ASID from
`prepare_user_satp` the first time one of its threads returns to user mode. Any number of harts run
`prepare_user_satp` at once; the model interleaves its single loads, stores and read-modify-writes.

* `Pc` is where a hart stands inside the call, with its locals; `advance` is the next atomic access.
* `AsidInv` is the invariant of every interleaving. Its local part `Local` is what a hart at a given
  point may rely on, and `Local.frame` is the one place where the steps of other harts matter.
* `asids_exclusive_of_run` reads off what it means for the contexts.

There is no rollover: `ASID_GENERATION` has no writer, and once the identifiers are used up
`ASID_EXHAUSTED` sends every later call to ASID 0 with a full flush.
-/

namespace HitOS

open Function Option Finset BitVec Nat

/-! ### Registers and masks -/

def satpAsidShift : Nat := 44

def satpAsidMask : Nat := 0xffff

def kernelAsid : Nat := 0

def firstUserAsid : Nat := 1

def hwAsidMaskUnprobed : Nat := usizeMax

def maxHarts : Nat := 12

def configuredHartMask : BitVec 64 :=
  if 64 ≤ maxHarts then allOnes 64 else (1 <<< maxHarts) - 1

/-- `local_hart_bit` on the hart with this id. -/
def localHartBit (hart : Nat) : BitVec 64 := if hart < 64 then 1 <<< hart else 0

def tokenWithAsid (token : BitVec 64) (asid : Nat) : BitVec 64 :=
  (token &&& ~~~(BitVec.ofNat 64 satpAsidMask <<< satpAsidShift)) |||
    ((BitVec.ofNat 64 asid &&& BitVec.ofNat 64 satpAsidMask) <<< satpAsidShift)

/-- The ASID field of a SATP value. -/
def asidOfToken (token : BitVec 64) : Nat := (token >>> satpAsidShift &&& BitVec.ofNat 64 satpAsidMask).toNat

/-- The field reads back the identifier that was written into it. -/
theorem asidOfToken_tokenWithAsid {token : BitVec 64} {asid : Nat} (h : asid ≤ satpAsidMask) :
    asidOfToken (tokenWithAsid token asid) = asid := by
  have hmask i : (BitVec.ofNat 64 satpAsidMask).getLsbD i = decide (i < 16) := by
    rw [getLsbD_ofNat, show satpAsidMask = 2 ^ 16 - 1 from rfl, testBit_two_pow_sub_one, ← Bool.decide_and]
    exact decide_eq_decide.mpr ⟨And.right, fun hi => ⟨by omega, hi⟩⟩
  have hbits : (tokenWithAsid token asid >>> satpAsidShift &&& BitVec.ofNat 64 satpAsidMask) =
      BitVec.ofNat 64 asid := by
    apply eq_of_getLsbD_eq
    intro i hi
    have hhigh (h16 : 16 ≤ i) : (BitVec.ofNat 64 asid).getLsbD i = false := by
      rw [getLsbD_ofNat, testBit_lt_two_pow, Bool.and_false]
      have hpow : 2 ^ 16 ≤ 2 ^ i := Nat.pow_le_pow_right (by decide) h16
      have hmax : satpAsidMask < 2 ^ 16 := by decide
      omega
    by_cases h16 : i < 16
    · have hin : satpAsidShift + i < 64 := by unfold satpAsidShift; omega
      have hone : (BitVec.ofNat 64 satpAsidMask)[i] = true := by
        rw [← getLsbD_eq_getElem, hmask, decide_eq_true h16]
      simp [tokenWithAsid, hin, hone, getLsbD_eq_getElem hi]
    · simp [hmask, h16, hhigh (by omega)]
  unfold asidOfToken
  rw [hbits]
  have hmax : satpAsidMask < 2 ^ 64 := by decide
  exact mod_eq_of_lt (by omega)

/-! ### The shared memory -/

/-- `AsidContext`: one per address space. -/
structure AsidContext where
  asid : Nat
  generation : Nat
  activeHartMask : BitVec 64
  icacheStaleMask : BitVec 64
  deriving DecidableEq, Repr

namespace AsidContext

def new : AsidContext := ⟨0, 0, 0, configuredHartMask⟩

variable (x : AsidContext)

/-- `valid_for` on one snapshot of the two fields. -/
def ValidFor (generation : Nat) : Prop := x.asid ≠ kernelAsid ∧ x.generation = generation

/-- What `take_local_icache_stale` returns. -/
def localIcacheStale (hart : Nat) : Bool :=
  if localHartBit hart = 0 then x.icacheStaleMask != 0
  else x.icacheStaleMask &&& localHartBit hart != 0

/-- What `take_local_icache_stale` leaves. -/
def clearLocalIcacheStale (hart : Nat) : AsidContext :=
  { x with icacheStaleMask :=
      if localHartBit hart = 0 then 0 else x.icacheStaleMask &&& ~~~(localHartBit hart) }

def markLocalActive (hart : Nat) : AsidContext :=
  { x with activeHartMask := x.activeHartMask ||| localHartBit hart }

/-- `mark_icache_stale`, with the mask of online harts it read. -/
def markIcacheStale (online : BitVec 64) : AsidContext :=
  { x with icacheStaleMask := x.icacheStaleMask ||| online }

end AsidContext

/-- An ASID made visible for a context: stored in it, or returned for it in a SATP value. -/
structure Publication where
  ctx : Nat
  generation : Nat
  asid : Nat
  deriving DecidableEq, Repr

/-- What `prepare_user_satp` returns. -/
structure UserSatp where
  satp : BitVec 64
  needFlush : Bool
  needIcacheFlush : Bool
  deriving DecidableEq, Repr

/-- The statics of the module and all contexts, shared by `n` harts. A context is named by the order
of its creation; `live` says which ones have not been dropped. `published` and `returned` record
what the calls have made visible. -/
structure AsidShared (n : Nat) where
  nextUserAsid : Nat
  asidGeneration : Nat
  hwAsidMask : Nat
  allocLock : Option (Fin n)
  asidExhausted : Bool
  ctx : Nat → AsidContext
  created : Nat
  live : Nat → Bool
  returned : Fin n → Option UserSatp
  published : List Publication

variable {n : Nat}

namespace AsidShared

/-- The statics' initial values, before the first `AsidContext::new`. -/
def init (n : Nat) : AsidShared n :=
  ⟨firstUserAsid, 1, hwAsidMaskUnprobed, none, false, fun _ => .new, 0, fun _ => false, fun _ => none, []⟩

/-- An update of the fields of one context. -/
def setCtx (sh : AsidShared n) (c : Nat) (x : AsidContext) : AsidShared n :=
  { sh with ctx := update sh.ctx c x }

/-- `ASID_ALLOC_LOCK`'s guard goes out of scope, if this hart holds it. -/
def unlock (sh : AsidShared n) (h : Fin n) : AsidShared n :=
  { sh with allocLock := if sh.allocLock = some h then none else sh.allocLock }

/-- A call on hart `h` returns `r`, having taken the ASID for the generation `granted`. -/
def record (sh : AsidShared n) (h : Fin n) (c : Nat) (granted : Option Nat) (r : UserSatp) : AsidShared n :=
  { sh with
    returned := update sh.returned h (some r)
    published := (granted.map fun g => ⟨c, g, asidOfToken r.satp⟩).toList ++ sh.published }

end AsidShared

/-! ### One hart inside `prepare_user_satp` -/

/-- The arguments of a call and its `need_icache_flush`. -/
structure SatpCall where
  ctx : Nat
  token : BitVec 64
  needIcacheFlush : Bool
  deriving DecidableEq, Repr

/-- The next atomic access of a hart, with the locals it has read so far. The generation check is
made twice, without and with the lock; `locked` tells the two apart. -/
inductive Pc where
  | idle
  /-- `ctx.take_local_icache_stale()` -/
  | takeStale (c : Nat) (token : BitVec 64)
  /-- `ctx.mark_local_active()` -/
  | markActive (k : SatpCall)
  /-- `HW_ASID_MASK.load` -/
  | loadMask (k : SatpCall)
  /-- `probe_hw_asid_mask()` -/
  | probe (k : SatpCall)
  /-- `HW_ASID_MASK.compare_exchange` -/
  | publishMask (k : SatpCall) (probed : Nat)
  /-- `HW_ASID_MASK.load`, after the exchange -/
  | reloadMask (k : SatpCall)
  | loadExhausted (k : SatpCall) (maxAsid : Nat)
  | loadGeneration (locked : Bool) (k : SatpCall) (maxAsid : Nat)
  /-- `self.asid.load` of `current` -/
  | checkAsid (locked : Bool) (k : SatpCall) (maxAsid generation : Nat)
  /-- `self.generation.load` of `current`, then the comparison of `valid_for` -/
  | checkGeneration (locked : Bool) (k : SatpCall) (maxAsid generation asid : Nat)
  /-- `ctx.asid.load` for the token -/
  | reloadAsid (locked : Bool) (k : SatpCall) (generation : Nat)
  /-- `ASID_ALLOC_LOCK.lock()` -/
  | acquire (k : SatpCall) (maxAsid : Nat)
  /-- `NEXT_USER_ASID.fetch_add` -/
  | fetchAdd (k : SatpCall) (maxAsid : Nat)
  /-- `ASID_GENERATION.load` of `allocate_user_asid` -/
  | grant (k : SatpCall) (asid : Nat)
  | storeExhausted (k : SatpCall)
  | storeGeneration (k : SatpCall) (asid generation : Nat)
  | storeAsid (k : SatpCall) (asid generation : Nat)
  /-- the return, which drops the guard -/
  | ret (k : SatpCall) (satp : BitVec 64) (granted : Option Nat)
  deriving DecidableEq, Repr

namespace Pc

/-- The context a hart is working on. -/
def ctx? : Pc → Option Nat
  | idle => none
  | takeStale c _ => some c
  | markActive k | loadMask k | probe k | publishMask k _ | reloadMask k | loadExhausted k _
  | loadGeneration _ k _ | checkAsid _ k _ _ | checkGeneration _ k _ _ _ | reloadAsid _ k _
  | acquire k _ | fetchAdd k _ | grant k _ | storeExhausted k | storeGeneration k _ _
  | storeAsid k _ _ | ret k _ _ => some k.ctx

/-- The return with ASID 0 and a full flush. -/
def fallback (k : SatpCall) : Pc := ret k (tokenWithAsid k.token kernelAsid) none

/-- One atomic access of hart `h`, with the locals up to the next one. `probed` is what the hardware
answers a probe; an access that has to wait is `none`. -/
def exec {n : Nat} (sh : AsidShared n) (h : Fin n) (probed : Nat) : Pc → Option (AsidShared n × Pc)
  | idle => none
  | takeStale c token =>
    some (sh.setCtx c ((sh.ctx c).clearLocalIcacheStale h),
      markActive ⟨c, token, (sh.ctx c).localIcacheStale h⟩)
  | markActive k => some (sh.setCtx k.ctx ((sh.ctx k.ctx).markLocalActive h), loadMask k)
  | loadMask k =>
    some (sh, if sh.hwAsidMask = hwAsidMaskUnprobed then probe k else loadExhausted k sh.hwAsidMask)
  | probe k => some (sh, publishMask k (probed % (satpAsidMask + 1)))
  | publishMask k m =>
    some ({ sh with hwAsidMask := if sh.hwAsidMask = hwAsidMaskUnprobed then m else sh.hwAsidMask },
      reloadMask k)
  | reloadMask k => some (sh, loadExhausted k sh.hwAsidMask)
  | loadExhausted k maxAsid =>
    some (sh, if maxAsid = 0 ∨ sh.asidExhausted = true then fallback k
      else loadGeneration false k maxAsid)
  | loadGeneration locked k maxAsid => some (sh, checkAsid locked k maxAsid sh.asidGeneration)
  | checkAsid locked k maxAsid generation =>
    some (sh, checkGeneration locked k maxAsid generation (sh.ctx k.ctx).asid)
  | checkGeneration locked k maxAsid generation asid =>
    some (sh, if asid ≠ kernelAsid ∧ (sh.ctx k.ctx).generation = generation then
        reloadAsid locked k generation
      else if locked then fetchAdd k maxAsid else acquire k maxAsid)
  | reloadAsid _ k generation =>
    some (sh, ret k (tokenWithAsid k.token (sh.ctx k.ctx).asid) (some generation))
  | acquire k maxAsid =>
    if sh.allocLock = none then
      some ({ sh with allocLock := some h }, loadGeneration true k maxAsid)
    else none
  | fetchAdd k maxAsid =>
    some ({ sh with nextUserAsid := wrapAdd sh.nextUserAsid 1 },
      if sh.nextUserAsid ≤ maxAsid then grant k sh.nextUserAsid else storeExhausted k)
  | grant k asid => some (sh, storeGeneration k asid sh.asidGeneration)
  | storeExhausted k => some ({ sh with asidExhausted := true }, fallback k)
  | storeGeneration k asid generation =>
    some (sh.setCtx k.ctx { sh.ctx k.ctx with generation := generation }, storeAsid k asid generation)
  | storeAsid k asid generation =>
    some ({ sh.setCtx k.ctx { sh.ctx k.ctx with asid := asid } with
        published := ⟨k.ctx, (sh.ctx k.ctx).generation, asid⟩ :: sh.published },
      ret k (tokenWithAsid k.token asid) (some generation))
  | ret k satp granted =>
    some ((sh.record h k.ctx granted ⟨satp, granted.isNone, k.needIcacheFlush⟩).unlock h, idle)

end Pc

/-! ### What a hart may rely on -/

variable {probed : Nat} {sh sh' : AsidShared n} {h : Fin n} {pc pc' : Pc} {k : SatpCall}

section Local

variable {generation : Nat} {g : Fin n} {asid : Nat}

/-- Hart `h` holds the lock and has drawn `asid` for a context that has none. -/
structure Drawn (sh : AsidShared n) (h : Fin n) (k : SatpCall) (asid : Nat) : Prop where
  locked : sh.allocLock = some h
  none_yet : (sh.ctx k.ctx).asid = 0
  pos : asid ≠ 0
  le_mask : asid ≤ satpAsidMask
  lt_next : asid < sh.nextUserAsid
  unused : ∀ d, (sh.ctx d).asid ≠ asid

/-- What is true of the shared memory while hart `h` stands at a given access. -/
def Local (sh : AsidShared n) (h : Fin n) : Pc → Prop
  | .publishMask _ m => m ≤ satpAsidMask
  | .reloadMask _ => sh.hwAsidMask ≤ satpAsidMask
  | .loadExhausted _ maxAsid | .acquire _ maxAsid => maxAsid ≤ satpAsidMask
  | .loadGeneration locked _ maxAsid =>
    maxAsid ≤ satpAsidMask ∧ (locked = true → sh.allocLock = some h)
  | .checkAsid locked _ maxAsid generation =>
    maxAsid ≤ satpAsidMask ∧ (locked = true → sh.allocLock = some h) ∧ generation = sh.asidGeneration
  | .checkGeneration locked k maxAsid generation asid =>
    maxAsid ≤ satpAsidMask ∧ (locked = true → sh.allocLock = some h) ∧
      generation = sh.asidGeneration ∧ (asid ≠ 0 → (sh.ctx k.ctx).asid = asid) ∧
      (locked = true → asid = 0 → (sh.ctx k.ctx).asid = 0)
  | .reloadAsid _ k generation =>
    generation = sh.asidGeneration ∧ (sh.ctx k.ctx).asid ≠ 0
  | .fetchAdd k maxAsid =>
    maxAsid ≤ satpAsidMask ∧ sh.allocLock = some h ∧ (sh.ctx k.ctx).asid = 0
  | .grant k asid => Drawn sh h k asid
  | .storeExhausted _ => sh.allocLock = some h
  | .storeGeneration k asid generation => Drawn sh h k asid ∧ generation = sh.asidGeneration
  | .storeAsid k asid generation =>
    Drawn sh h k asid ∧ generation = sh.asidGeneration ∧ (sh.ctx k.ctx).generation = sh.asidGeneration
  | .ret k satp granted =>
    ∀ g ∈ granted, g = sh.asidGeneration ∧ (sh.ctx k.ctx).asid ≠ 0 ∧ asidOfToken satp = (sh.ctx k.ctx).asid
  | .idle | .takeStale _ _ | .markActive _ | .loadMask _ | .probe _ => True

/-- What the steps of other harts leave to hart `g`: an ASID, once given, stays, and while `g` holds
the lock neither the identifiers of the contexts nor the counter move. -/
structure Frame (sh sh' : AsidShared n) (g : Fin n) : Prop where
  generation : sh'.asidGeneration = sh.asidGeneration
  asid : ∀ c, (sh.ctx c).asid ≠ 0 → (sh'.ctx c).asid = (sh.ctx c).asid
  mask : sh.hwAsidMask ≤ satpAsidMask → sh'.hwAsidMask ≤ satpAsidMask
  lock : sh.allocLock = some g → sh'.allocLock = some g
  ctx : sh.allocLock = some g → ∀ c,
    (sh'.ctx c).asid = (sh.ctx c).asid ∧ (sh'.ctx c).generation = (sh.ctx c).generation
  next : sh.allocLock = some g → sh'.nextUserAsid = sh.nextUserAsid

theorem Drawn.frame (hf : Frame sh sh' g) (hd : Drawn sh g k asid) : Drawn sh' g k asid := by
  refine ⟨hf.lock hd.locked, ?_, hd.pos, hd.le_mask, ?_, fun d => ?_⟩
  · rw [(hf.ctx hd.locked _).1]
    exact hd.none_yet
  · rw [hf.next hd.locked]
    exact hd.lt_next
  · rw [(hf.ctx hd.locked d).1]
    exact hd.unused d

/-- **Non-interference.** What a hart relies on survives the steps of the others. -/
theorem Local.frame (hf : Frame sh sh' g) (hl : Local sh g pc) : Local sh' g pc := by
  cases pc with
  | idle | takeStale | markActive | loadMask | probe => trivial
  | publishMask | loadExhausted | acquire => exact hl
  | reloadMask => exact hf.mask hl
  | loadGeneration => exact ⟨hl.1, fun hb => hf.lock (hl.2 hb)⟩
  | checkAsid => exact ⟨hl.1, fun hb => hf.lock (hl.2.1 hb), hl.2.2.trans hf.generation.symm⟩
  | checkGeneration =>
    obtain ⟨hmax, hlock, hgen, hsome, hnone⟩ := hl
    refine ⟨hmax, fun hb => hf.lock (hlock hb), hgen.trans hf.generation.symm, fun ha => ?_, fun hb ha => ?_⟩
    · rw [hf.asid _ (by rwa [hsome ha]), hsome ha]
    · rw [(hf.ctx (hlock hb) _).1, hnone hb ha]
  | reloadAsid =>
    refine ⟨hl.1.trans hf.generation.symm, ?_⟩
    rw [hf.asid _ hl.2]
    exact hl.2
  | fetchAdd => exact ⟨hl.1, hf.lock hl.2.1, (hf.ctx hl.2.1 _).1.trans hl.2.2⟩
  | grant => exact Drawn.frame hf hl
  | storeExhausted => exact hf.lock hl
  | storeGeneration => exact ⟨hl.1.frame hf, hl.2.trans hf.generation.symm⟩
  | storeAsid =>
    obtain ⟨hd, hgen, hctx⟩ := hl
    refine ⟨hd.frame hf, hgen.trans hf.generation.symm, ?_⟩
    rw [(hf.ctx hd.locked _).2, hctx, hf.generation]
  | ret =>
    intro gen hgen
    obtain ⟨heq, hne, hsatp⟩ := hl gen hgen
    rw [hf.asid _ hne]
    exact ⟨heq.trans hf.generation.symm, hne, hsatp⟩

/-! ### One access -/

/-- The shared part of the invariant. -/
structure AsidShared.Sound (sh : AsidShared n) : Prop where
  /-- `store` writes the generation first, so a context with an ASID is valid. -/
  stored : ∀ c, (sh.ctx c).asid ≠ 0 → (sh.ctx c).generation = sh.asidGeneration
  bounded : ∀ c, (sh.ctx c).asid ≤ satpAsidMask
  below : ∀ c, (sh.ctx c).asid < sh.nextUserAsid
  distinct : ∀ c d, (sh.ctx c).asid ≠ 0 → (sh.ctx c).asid = (sh.ctx d).asid → c = d
  mask : sh.hwAsidMask = hwAsidMaskUnprobed ∨ sh.hwAsidMask ≤ satpAsidMask
  /-- What was published for a context is still what it holds. -/
  published : ∀ p ∈ sh.published, p.asid ≠ 0 ∧ p.asid = (sh.ctx p.ctx).asid

/-- Nothing the invariant speaks of differs. -/
structure Same (sh sh' : AsidShared n) : Prop where
  generation : sh'.asidGeneration = sh.asidGeneration
  next : sh'.nextUserAsid = sh.nextUserAsid
  mask : sh'.hwAsidMask = sh.hwAsidMask
  lock : sh'.allocLock = sh.allocLock
  published : sh'.published = sh.published
  ctx : ∀ c, (sh'.ctx c).asid = (sh.ctx c).asid ∧ (sh'.ctx c).generation = (sh.ctx c).generation

theorem Same.frame (hs : Same sh sh') : Frame sh sh' g := by
  refine ⟨hs.generation, fun c _ => (hs.ctx c).1, fun _ => ?_, fun _ => ?_, fun _ => hs.ctx, fun _ => hs.next⟩
  · rwa [hs.mask]
  · rwa [hs.lock]

theorem Same.sound (hs : Same sh sh') (h : sh.Sound) : sh'.Sound := by
  refine ⟨fun c => ?_, fun c => ?_, fun c => ?_, fun c d => ?_, ?_, fun p hp => ?_⟩
  · rw [(hs.ctx c).1, (hs.ctx c).2, hs.generation]
    exact h.stored c
  · rw [(hs.ctx c).1]
    exact h.bounded c
  · rw [(hs.ctx c).1, hs.next]
    exact h.below c
  · rw [(hs.ctx c).1, (hs.ctx d).1]
    exact h.distinct c d
  · rw [hs.mask]
    exact h.mask
  · rw [hs.published] at hp
    rw [(hs.ctx p.ctx).1]
    exact h.published p hp

theorem Same.refl (sh : AsidShared n) : Same sh sh := ⟨rfl, rfl, rfl, rfl, rfl, fun _ => ⟨rfl, rfl⟩⟩

/-- The masks of a context do not matter. -/
theorem Same.setCtx {c : Nat} {x : AsidContext} (ha : x.asid = (sh.ctx c).asid)
    (hg : x.generation = (sh.ctx c).generation) : Same sh (sh.setCtx c x) := by
  refine ⟨rfl, rfl, rfl, rfl, rfl, fun d => ?_⟩
  simp only [AsidShared.setCtx, update_apply]
  split
  · next hd => exact hd ▸ ⟨ha, hg⟩
  · exact ⟨rfl, rfl⟩

/-- What one access of hart `h` has to keep. -/
structure Keeps (sh : AsidShared n) (h : Fin n) (sh' : AsidShared n) (pc' : Pc) : Prop where
  sound : sh'.Sound
  here : Local sh' h pc'
  others : ∀ g, g ≠ h → Frame sh sh' g

/-- No other hart holds the lock. -/
theorem not_locked_of_ne (hlock : sh.allocLock = some h) (hg : g ≠ h) : sh.allocLock ≠ some g := by
  rw [hlock]
  exact fun heq => hg (some.inj heq).symm

theorem Same.keeps (hs : Same sh sh') (h : sh.Sound) {i : Fin n} (hl : Local sh' i pc') : Keeps sh i sh' pc' :=
  ⟨hs.sound h, hl, fun _ _ => hs.frame⟩

variable (hs : sh.Sound)

include hs

/-- `NEXT_USER_ASID.fetch_add`: the identifier drawn is one no context holds. -/
theorem keeps_fetchAdd {maxAsid : Nat} (hl : Local sh h (.fetchAdd k maxAsid))
    (hnext : sh.nextUserAsid < usizeMax) :
    Keeps sh h { sh with nextUserAsid := wrapAdd sh.nextUserAsid 1 }
      (if sh.nextUserAsid ≤ maxAsid then .grant k sh.nextUserAsid else .storeExhausted k) := by
  obtain ⟨hmax, hlock, hnone⟩ := hl
  have hwrap : wrapAdd sh.nextUserAsid 1 = sh.nextUserAsid + 1 := wrapAdd_of_le hnext
  refine ⟨⟨hs.stored, hs.bounded, fun c => ?_, hs.distinct, hs.mask, hs.published⟩, ?_,
    -- only the lock holder draws
    fun g hg => ⟨rfl, fun _ _ => rfl, id, id, fun _ _ => ⟨rfl, rfl⟩,
      fun hg' => absurd hg' (not_locked_of_ne hlock hg)⟩⟩
  · have hbelow := hs.below c
    show (sh.ctx c).asid < wrapAdd sh.nextUserAsid 1
    omega
  split
  · next hle =>
    refine ⟨hlock, hnone, ?_, hle.trans hmax, ?_, fun d => ?_⟩
    · have hbelow := hs.below 0
      omega
    · show sh.nextUserAsid < wrapAdd sh.nextUserAsid 1
      omega
    · exact Nat.ne_of_lt (hs.below d)
  · exact hlock

/-- `self.generation.store`: the context has no ASID yet, so the write is not visible. -/
theorem keeps_storeGeneration (hl : Local sh h (.storeGeneration k asid generation)) :
    Keeps sh h (sh.setCtx k.ctx { sh.ctx k.ctx with generation := generation })
      (.storeAsid k asid generation) := by
  obtain ⟨hd, rfl⟩ := hl
  have hasid c : ((sh.setCtx k.ctx { sh.ctx k.ctx with generation := sh.asidGeneration }).ctx c).asid =
      (sh.ctx c).asid := by
    simp only [AsidShared.setCtx, update_apply]
    split
    · next hc => rw [hc]
    · rfl
  refine ⟨⟨fun c hne => ?_, fun c => ?_, fun c => ?_, fun c d => ?_, hs.mask, fun p hp => ?_⟩,
    ⟨⟨hd.locked, ?_, hd.pos, hd.le_mask, hd.lt_next, fun d => ?_⟩, rfl, ?_⟩,
    fun g hg => ⟨rfl, fun c _ => hasid c, id, id,
      fun hg' => absurd hg' (not_locked_of_ne hd.locked hg), fun _ => rfl⟩⟩
  all_goals simp only [hasid] at *
  · have hc : c ≠ k.ctx := fun hc => hne (hc ▸ hd.none_yet)
    simp only [AsidShared.setCtx, update_of_ne hc]
    exact hs.stored c hne
  · exact hs.bounded c
  · exact hs.below c
  · exact hs.distinct c d
  · exact hs.published p hp
  · exact hd.none_yet
  · exact hd.unused d
  · simp only [AsidShared.setCtx, update_self]

/-- `self.asid.store`: the context becomes valid, with an identifier of its own. -/
theorem keeps_storeAsid (hl : Local sh h (.storeAsid k asid generation)) :
    Keeps sh h { sh.setCtx k.ctx { sh.ctx k.ctx with asid := asid } with
        published := ⟨k.ctx, (sh.ctx k.ctx).generation, asid⟩ :: sh.published }
      (.ret k (tokenWithAsid k.token asid) (some generation)) := by
  obtain ⟨hd, rfl, hgen⟩ := hl
  refine ⟨⟨fun c => ?_, fun c => ?_, fun c => ?_, fun c d => ?_, hs.mask, fun p hp => ?_⟩, fun gen hmem => ?_,
    fun g hg => ⟨rfl, fun c hne => ?_, id, id,
      fun hg' => absurd hg' (not_locked_of_ne hd.locked hg), fun _ => rfl⟩⟩
  all_goals simp only [AsidShared.setCtx, update_apply] at *
  · split
    · exact fun _ => hgen
    · exact hs.stored c
  · split
    · exact hd.le_mask
    · exact hs.bounded c
  · split
    · exact hd.lt_next
    · exact hs.below c
  · -- the new identifier is one that no other context holds
    split_ifs with hc hdk hdk
    · exact fun _ _ => hc.trans hdk.symm
    · exact fun _ heq => absurd heq.symm (hd.unused d)
    · exact fun _ heq => absurd heq (hd.unused c)
    · exact hs.distinct c d
  · rcases List.mem_cons.mp hp with rfl | hp
    · exact ⟨hd.pos, by rw [if_pos rfl]⟩
    have hpub := hs.published p hp
    have hne : p.ctx ≠ k.ctx := by
      intro heq
      rw [heq, hd.none_yet] at hpub
      exact hpub.1 hpub.2
    rwa [if_neg hne]
  · obtain rfl := mem_some_iff.mp hmem
    exact ⟨rfl, hd.pos, asidOfToken_tokenWithAsid hd.le_mask⟩
  · rw [if_neg fun hc : c = k.ctx => hne (hc ▸ hd.none_yet)]

/-- The return: the guard is dropped, and what is published is what the context holds. -/
theorem keeps_ret {satp : BitVec 64} {granted : Option Nat} {r : UserSatp}
    (hl : Local sh h (.ret k satp granted))
    (hr : r.satp = satp) : Keeps sh h ((sh.record h k.ctx granted r).unlock h) .idle := by
  refine ⟨⟨hs.stored, hs.bounded, hs.below, hs.distinct, hs.mask, fun p hp => ?_⟩, trivial,
    fun g hg => ⟨rfl, fun _ _ => rfl, id, fun hg' => ?_, fun _ _ => ⟨rfl, rfl⟩, fun _ => rfl⟩⟩
  · rcases List.mem_append.mp hp with hp | hp
    · cases granted with
      | none => exact absurd hp List.not_mem_nil
      | some gen =>
        obtain rfl := mem_singleton.mp hp
        obtain ⟨-, hne, hsatp⟩ := hl gen rfl
        rw [hr, hsatp]
        exact ⟨hne, rfl⟩
    · exact hs.published p hp
  · show (if sh.allocLock = some h then none else sh.allocLock) = some g
    rw [if_neg (not_locked_of_ne hg' hg.symm), hg']

/-- **One access keeps the invariant.** The counter must not be about to wrap. -/
theorem exec_keeps (hl : Local sh h pc) (hnext : ∀ k m, pc = .fetchAdd k m → sh.nextUserAsid < usizeMax)
    (he : pc.exec sh h probed = some (sh', pc')) : Keeps sh h sh' pc' := by
  cases pc with
  | idle => cases he
  | takeStale | markActive =>
    cases he
    refine Same.keeps ?_ hs trivial
    exact Same.setCtx rfl rfl
  | loadMask =>
    cases he
    refine (Same.refl sh).keeps hs ?_
    split
    · trivial
    · next hne => exact hs.mask.resolve_left hne
  | probe =>
    cases he
    exact (Same.refl sh).keeps hs (le_of_lt_succ (mod_lt _ (succ_pos _)))
  | publishMask k m =>
    cases he
    have hmask : (if sh.hwAsidMask = hwAsidMaskUnprobed then m else sh.hwAsidMask) ≤ satpAsidMask := by
      split
      · exact hl
      · next hne => exact hs.mask.resolve_left hne
    exact ⟨⟨hs.stored, hs.bounded, hs.below, hs.distinct, .inr hmask, hs.published⟩, hmask,
      fun g _ => ⟨rfl, fun _ _ => rfl, fun _ => hmask, id, fun _ _ => ⟨rfl, rfl⟩, fun _ => rfl⟩⟩
  | reloadMask =>
    cases he
    exact (Same.refl sh).keeps hs hl
  | loadExhausted =>
    cases he
    refine (Same.refl sh).keeps hs ?_
    split
    · exact nofun
    · exact ⟨hl, nofun⟩
  | loadGeneration =>
    cases he
    exact (Same.refl sh).keeps hs ⟨hl.1, hl.2, rfl⟩
  | checkAsid =>
    cases he
    exact (Same.refl sh).keeps hs ⟨hl.1, hl.2.1, hl.2.2, fun _ => rfl, fun _ => id⟩
  | checkGeneration locked k _ generation asid =>
    cases he
    obtain ⟨hmax, hlock, hgen, hsome, hnone⟩ := hl
    refine (Same.refl sh).keeps hs ?_
    split
    · next hvalid =>
      refine ⟨hgen, ?_⟩
      rw [hsome hvalid.1]
      exact hvalid.1
    next hvalid =>
    cases locked with
    | false => exact hmax
    | true =>
      -- an ASID seen under the lock comes with its generation, so there was none
      have hzero : asid = 0 := by
        by_contra hne
        refine hvalid ⟨hne, ?_⟩
        rw [hs.stored k.ctx (by rwa [hsome hne]), hgen]
      exact ⟨hmax, hlock rfl, hnone rfl hzero⟩
  | reloadAsid _ k =>
    cases he
    refine (Same.refl sh).keeps hs fun gen hmem => ?_
    obtain rfl := mem_some_iff.mp hmem
    exact ⟨hl.1, hl.2, asidOfToken_tokenWithAsid (hs.bounded k.ctx)⟩
  | acquire =>
    simp only [Pc.exec] at he
    split at he
    · next hfree =>
      cases he
      refine ⟨⟨hs.stored, hs.bounded, hs.below, hs.distinct, hs.mask, hs.published⟩, ⟨hl, fun _ => rfl⟩,
        fun g _ => ⟨rfl, fun _ _ => rfl, id, fun hg => ?_, fun _ _ => ⟨rfl, rfl⟩, fun _ => rfl⟩⟩
      rw [hfree] at hg
      cases hg
    · cases he
  | fetchAdd k maxAsid =>
    cases he
    exact keeps_fetchAdd hs hl (hnext k maxAsid rfl)
  | grant =>
    cases he
    exact (Same.refl sh).keeps hs ⟨hl, rfl⟩
  | storeExhausted =>
    cases he
    have hsame : Same sh { sh with asidExhausted := true } := ⟨rfl, rfl, rfl, rfl, rfl, fun _ => ⟨rfl, rfl⟩⟩
    refine Same.keeps hsame hs ?_
    exact nofun
  | storeGeneration =>
    cases he
    exact keeps_storeGeneration hs hl
  | storeAsid =>
    cases he
    exact keeps_storeAsid hs hl
  | ret =>
    cases he
    exact keeps_ret hs hl rfl

end Local

/-! ### The harts together -/

/-- `n` harts, each idle or inside `prepare_user_satp`. -/
structure AsidState (n : Nat) where
  shared : AsidShared n
  pc : Fin n → Pc

/-- All harts idle. -/
def AsidState.init (n : Nat) : AsidState n := ⟨.init n, fun _ => .idle⟩

/-- One atomic step of the system. A context is borrowed for the whole call, so it is not dropped
under a hart that works on it. -/
inductive AsidStep {n : Nat} : AsidState n → AsidState n → Prop
  | newContext (s : AsidState n) : AsidStep s { s with shared := { s.shared.setCtx s.shared.created .new with
        created := s.shared.created + 1
        live := update s.shared.live s.shared.created true } }
  /-- The last `Arc` of a context goes away. -/
  | dropContext (s : AsidState n) (c : Nat) (hfree : ∀ h, (s.pc h).ctx? ≠ some c) :
      AsidStep s { s with shared := { s.shared with
        live := update s.shared.live c false } }
  /-- `mark_icache_stale`, from the paths that change executable mappings -/
  | markIcacheStale (s : AsidState n) (c : Nat) (online : BitVec 64) (hlive : s.shared.live c = true) :
      AsidStep s { s with
        shared := s.shared.setCtx c ((s.shared.ctx c).markIcacheStale online) }
  /-- Hart `h` enters `prepare_user_satp`. -/
  | call (s : AsidState n) (h : Fin n) (c : Nat) (token : BitVec 64) (hidle : s.pc h = .idle)
      (hlive : s.shared.live c = true) :
      AsidStep s { s with pc := update s.pc h (.takeStale c token) }
  /-- Hart `h` makes its next access. -/
  | access (s : AsidState n) (h : Fin n) (probed : Nat) (sh' : AsidShared n) (pc' : Pc)
      (hexec : (s.pc h).exec s.shared h probed = some (sh', pc')) :
      AsidStep s ⟨sh', update s.pc h pc'⟩

namespace Pc

/-- Whether a hart can still reach `fetch_add` without reading `ASID_EXHAUSTED` again. -/
def credit : Pc → Nat
  | loadGeneration .. | checkAsid .. | checkGeneration .. | acquire .. | fetchAdd .. => 1
  | _ => 0

theorem credit_le_one (pc : Pc) : pc.credit ≤ 1 := by
  cases pc <;> simp [credit]

/-- The draw and the exhaustion store apart, an access leaves the counter alone, and a hart that
becomes able to draw has seen `ASID_EXHAUSTED` unset. -/
theorem exec_quiet (he : pc.exec sh h probed = some (sh', pc')) (hdraw : ∀ k m, pc ≠ fetchAdd k m)
    (hstore : ∀ k, pc ≠ storeExhausted k) :
    sh'.nextUserAsid = sh.nextUserAsid ∧ sh'.asidExhausted = sh.asidExhausted ∧
      (pc'.credit ≤ pc.credit ∨ sh.asidExhausted = false) := by
  cases pc with
  | idle => cases he
  | fetchAdd k m => exact absurd rfl (hdraw k m)
  | storeExhausted k => exact absurd rfl (hstore k)
  | acquire =>
    simp only [exec] at he
    split at he
    · cases he
      exact ⟨rfl, rfl, .inl le_rfl⟩
    · cases he
  | loadExhausted =>
    cases he
    refine ⟨rfl, rfl, ?_⟩
    split
    · exact .inl le_rfl
    · next hno => exact .inr (eq_false_of_ne_true fun hex => hno (.inr hex))
  | loadMask =>
    cases he
    refine ⟨rfl, rfl, .inl ?_⟩
    split <;> exact le_rfl
  | checkGeneration =>
    cases he
    exact ⟨rfl, rfl, .inl (credit_le_one _)⟩
  | takeStale | markActive | probe | publishMask | reloadMask | loadGeneration | checkAsid
  | reloadAsid | grant | storeGeneration | storeAsid | ret =>
    cases he
    exact ⟨rfl, rfl, .inl (by simp [credit])⟩

/-- A hart touches no context but its own, and stays on it until it returns. -/
theorem exec_ctx (he : pc.exec sh h probed = some (sh', pc')) :
    (∀ c, pc.ctx? ≠ some c → sh'.ctx c = sh.ctx c) ∧ (∀ c, pc'.ctx? = some c → pc.ctx? = some c) ∧
      sh'.live = sh.live ∧ sh'.created = sh.created := by
  have hset : ∀ {c c' : Nat} {x : AsidContext}, some c' ≠ some c → (sh.setCtx c' x).ctx c = sh.ctx c := by
    intro c _ _ hne
    exact update_of_ne (fun heq => hne (congrArg some heq.symm)) _ _
  cases pc with
  | idle => cases he
  | acquire =>
    simp only [exec] at he
    split at he
    · cases he
      exact ⟨fun _ _ => rfl, fun _ => id, rfl, rfl⟩
    · cases he
  | loadMask | loadExhausted | checkGeneration | fetchAdd =>
    cases he
    refine ⟨fun _ _ => rfl, fun c => ?_, rfl, rfl⟩
    repeat' split
    all_goals exact id
  | takeStale | markActive | storeGeneration | storeAsid =>
    cases he
    exact ⟨fun _ hne => hset hne, fun _ => id, rfl, rfl⟩
  | probe | publishMask | reloadMask | loadGeneration | checkAsid | reloadAsid | grant
  | storeExhausted =>
    cases he
    exact ⟨fun _ _ => rfl, fun _ => id, rfl, rfl⟩
  | ret =>
    cases he
    exact ⟨fun _ _ => rfl, nofun, rfl, rfl⟩

end Pc

/-! ### The counter does not wrap -/

section Counter

variable {m : Nat} {s : AsidState n}

/-- The harts that can still draw. -/
def AsidState.credits (s : AsidState n) : Nat := ∑ h, (s.pc h).credit

/-- How far `NEXT_USER_ASID` can be. Until `ASID_EXHAUSTED` is set at most one draw has failed; from
then on only harts that had already passed the test can draw, each once. -/
structure Budget (s : AsidState n) : Prop where
  early : s.shared.asidExhausted = false → s.shared.nextUserAsid ≤ satpAsidMask + 2
  first : s.shared.asidExhausted = false → (∀ h k, s.pc h ≠ .storeExhausted k) →
    s.shared.nextUserAsid ≤ satpAsidMask + 1
  total : s.shared.nextUserAsid + s.credits ≤ satpAsidMask + 2 + n

theorem credits_update (s : AsidState n) (h : Fin n) (sh' : AsidShared n) (pc' : Pc) :
    AsidState.credits ⟨sh', update s.pc h pc'⟩ + (s.pc h).credit = s.credits + pc'.credit := by
  have hnew : (fun g => (update s.pc h pc' g).credit) = update (fun g => (s.pc g).credit) h pc'.credit := by
    funext g
    exact apply_update (fun _ => Pc.credit) s.pc h pc' g
  have hold := sum_update_of_mem (mem_univ h) (fun g => (s.pc g).credit) (s.pc h).credit
  rw [update_eq_self] at hold
  unfold AsidState.credits
  rw [hnew, sum_update_of_mem (mem_univ h)]
  omega

theorem credits_le (s : AsidState n) : s.credits ≤ n := by
  have hle := sum_le_card_nsmul univ (fun h => (s.pc h).credit) 1 fun h _ => (s.pc h).credit_le_one
  simpa [AsidState.credits] using hle

/-- A hart about to draw finds room in the counter. -/
theorem Budget.room (hb : Budget s) (hn : n + satpAsidMask + 2 ≤ usizeMax)
    (hpc : s.pc h = .fetchAdd k m) : s.shared.nextUserAsid < usizeMax := by
  have hone : 1 ≤ s.credits := by
    have hle := single_le_sum (fun g _ => zero_le ((s.pc g).credit)) (mem_univ h)
    rwa [hpc] at hle
  have htotal := hb.total
  omega

/-- The draw: the lock keeps every other hart away from a pending exhaustion store. -/
theorem Budget.draw (hb : Budget s) (hl : ∀ g, Local s.shared g (s.pc g)) (hpc : s.pc h = .fetchAdd k m)
    (hroom : s.shared.nextUserAsid < usizeMax) (he : (s.pc h).exec s.shared h probed = some (sh', pc')) :
    Budget ⟨sh', update s.pc h pc'⟩ := by
  have hsum := credits_update s h sh' pc'
  have hself : update s.pc h pc' h = pc' := update_self ..
  have hdrawer := hl h
  rw [hpc] at he hsum hdrawer
  obtain ⟨hmax, hlock, -⟩ := hdrawer
  cases he
  have hwrap : wrapAdd s.shared.nextUserAsid 1 = s.shared.nextUserAsid + 1 := wrapAdd_of_le hroom
  have hnone : ∀ g k', s.pc g ≠ .storeExhausted k' := by
    intro g _ hg
    have hother := hl g
    rw [hg] at hother
    have hgh : g = h := some.inj (hother.symm.trans hlock)
    rw [hgh, hpc] at hg
    cases hg
  have htotal := hb.total
  have hcredit : (if s.shared.nextUserAsid ≤ m then Pc.grant k s.shared.nextUserAsid
      else Pc.storeExhausted k).credit = 0 := by
    split <;> rfl
  refine ⟨fun hex => ?_, fun hex hno => ?_, ?_⟩
  · have hfirst := hb.first hex hnone
    show wrapAdd s.shared.nextUserAsid 1 ≤ satpAsidMask + 2
    omega
  · show wrapAdd s.shared.nextUserAsid 1 ≤ satpAsidMask + 1
    have hgrant := hno h k
    dsimp only at hgrant
    rw [hself] at hgrant
    split_ifs at hgrant with hle
    · omega
    · exact absurd rfl hgrant
  · rw [hcredit] at hsum
    dsimp only [Pc.credit] at hsum
    show wrapAdd s.shared.nextUserAsid 1 + _ ≤ _
    omega

theorem Budget.access (hb : Budget s) (hl : ∀ g, Local s.shared g (s.pc g))
    (hn : n + satpAsidMask + 2 ≤ usizeMax)
    (he : (s.pc h).exec s.shared h probed = some (sh', pc')) : Budget ⟨sh', update s.pc h pc'⟩ := by
  by_cases hdraw : ∃ k m, s.pc h = .fetchAdd k m
  · obtain ⟨k, m, hpc⟩ := hdraw
    exact hb.draw hl hpc (hb.room hn hpc) he
  have hsum := credits_update s h sh' pc'
  have htotal := hb.total
  by_cases hstore : ∃ k, s.pc h = .storeExhausted k
  · obtain ⟨k, hpc⟩ := hstore
    rw [hpc] at he hsum
    cases he
    refine ⟨nofun, nofun, ?_⟩
    dsimp only [Pc.credit, Pc.fallback] at hsum ⊢
    omega
  push Not at hdraw hstore
  obtain ⟨hnext, hexh, hcredit⟩ := Pc.exec_quiet he hdraw hstore
  refine ⟨?_, ?_, ?_⟩
  all_goals dsimp only
  all_goals rw [hnext]
  · rw [hexh]
    exact hb.early
  · rw [hexh]
    refine fun hex hno => hb.first hex fun g k hg => ?_
    by_cases hgh : g = h
    · exact hstore k (hgh ▸ hg)
    · refine hno g k ?_
      rw [← hg]
      exact update_of_ne hgh ..
  · rcases hcredit with hle | hex
    · omega
    · -- a hart passes the test only while the counter is still low
      have hearly := hb.early hex
      have hall := credits_le ⟨sh', update s.pc h pc'⟩
      omega

end Counter

/-! ### Every interleaving -/

section Runs

variable {s t : AsidState n}

/-- The invariant. -/
structure AsidInv (s : AsidState n) : Prop where
  sound : s.shared.Sound
  locals : ∀ h, Local s.shared h (s.pc h)
  running : ∀ h c, (s.pc h).ctx? = some c → s.shared.live c = true
  named : ∀ c, s.shared.live c = true → c < s.shared.created
  fresh : ∀ c, s.shared.created ≤ c → s.shared.ctx c = .new
  budget : Budget s

theorem AsidInv.init (n : Nat) : AsidInv (AsidState.init n) := by
  have hzero : ∀ c, ((AsidState.init n).shared.ctx c).asid = 0 := fun _ => rfl
  refine ⟨⟨fun c hne => absurd (hzero c) hne, fun c => zero_le _, fun c => ?_,
      fun c d hne => absurd (hzero c) hne, .inl rfl, fun p hp => absurd hp List.not_mem_nil⟩,
    fun h => trivial, nofun, nofun,
    fun c _ => rfl, ⟨fun _ => ?_, fun _ _ => ?_, ?_⟩⟩
  · exact zero_lt_one
  · show firstUserAsid ≤ satpAsidMask + 2
    decide
  · show firstUserAsid ≤ satpAsidMask + 1
    decide
  · have hcredits := credits_le (AsidState.init n)
    show firstUserAsid + _ ≤ _
    unfold firstUserAsid
    omega

/-- A step that changes neither a hart nor anything a hart relies on. -/
theorem AsidInv.same (hi : AsidInv s) (hs : Same s.shared sh')
    (hexh : sh'.asidExhausted = s.shared.asidExhausted)
    (hrun : ∀ h c, (s.pc h).ctx? = some c → sh'.live c = true)
    (hnamed : ∀ c, sh'.live c = true → c < sh'.created)
    (hfresh : ∀ c, sh'.created ≤ c → sh'.ctx c = .new) : AsidInv { s with shared := sh' } := by
  refine ⟨hs.sound hi.sound, fun h => (hi.locals h).frame hs.frame, hrun, hnamed, hfresh, ⟨?_, ?_, ?_⟩⟩
  all_goals rw [hs.next]
  · rw [hexh]
    exact hi.budget.early
  · rw [hexh]
    exact hi.budget.first
  · exact hi.budget.total

theorem AsidInv.access {h : Fin n} {probed : Nat} {pc' : Pc} (hi : AsidInv s)
    (hn : n + satpAsidMask + 2 ≤ usizeMax)
    (he : (s.pc h).exec s.shared h probed = some (sh', pc')) : AsidInv ⟨sh', update s.pc h pc'⟩ := by
  obtain ⟨hsound, hhere, hothers⟩ := exec_keeps hi.sound (hi.locals h)
    (fun k m hpc => hi.budget.room hn hpc) he
  obtain ⟨hctx, hpc, hlive, hcreated⟩ := Pc.exec_ctx he
  refine ⟨hsound, ?_, ?_, ?_, fun c hc => ?_, hi.budget.access hi.locals hn he⟩
  · exact (forall_update_iff s.pc fun g pc => Local sh' g pc).mpr
      ⟨hhere, fun g hg => (hi.locals g).frame (hothers g hg)⟩
  · refine (forall_update_iff s.pc fun _ pc => ∀ c, pc.ctx? = some c → sh'.live c = true).mpr ?_
    rw [hlive]
    exact ⟨fun c hc => hi.running h c (hpc c hc), fun g _ => hi.running g⟩
  · dsimp only
    rw [hlive, hcreated]
    exact hi.named
  · rw [show sh'.created = _ from hcreated] at hc
    have hidle : (s.pc h).ctx? ≠ some c := by
      intro heq
      have hlt := hi.named c (hi.running h c heq)
      omega
    exact (hctx c hidle).trans (hi.fresh c hc)

/-- **No step breaks the invariant.** -/
theorem AsidInv.step (hi : AsidInv s) (hn : n + satpAsidMask + 2 ≤ usizeMax) (hst : AsidStep s t) :
    AsidInv t := by
  cases hst with
  | newContext =>
    -- a context that does not exist yet already has the initial fields
    have hnew : s.shared.ctx s.shared.created = .new := hi.fresh _ le_rfl
    have hctx : update s.shared.ctx s.shared.created AsidContext.new = s.shared.ctx := by
      rw [← hnew]
      exact update_eq_self ..
    refine hi.same ⟨rfl, rfl, rfl, rfl, rfl, fun c => ?_⟩ rfl (fun h c hc => ?_) (fun c hc => ?_)
      fun c hc => ?_
    all_goals simp only [AsidShared.setCtx] at *
    · rw [hctx]
      exact ⟨rfl, rfl⟩
    · have hlive := hi.running h c hc
      have hlt := hi.named c hlive
      rw [update_of_ne (by omega), hlive]
    · by_cases heq : c = s.shared.created
      · omega
      · rw [update_of_ne heq] at hc
        have hlt := hi.named c hc
        omega
    · rw [hctx]
      exact hi.fresh c (by omega)
  | dropContext c hfree =>
    refine hi.same ⟨rfl, rfl, rfl, rfl, rfl, fun _ => ⟨rfl, rfl⟩⟩ rfl (fun h d hd => ?_)
      (fun d hd => ?_) hi.fresh
    · have hne : d ≠ c := by
        rintro rfl
        exact hfree h hd
      show update s.shared.live c false d = true
      rw [update_of_ne hne]
      exact hi.running h d hd
    · change update s.shared.live c false d = true at hd
      rw [update_apply] at hd
      split at hd
      · cases hd
      · exact hi.named d hd
  | markIcacheStale c _ hlive =>
    refine hi.same (Same.setCtx rfl rfl) rfl hi.running hi.named fun d hd => ?_
    have hne : d ≠ c := by
      rintro rfl
      exact absurd (hi.named d hlive) (not_lt.mpr hd)
    simp only [AsidShared.setCtx, update_of_ne hne]
    exact hi.fresh d hd
  | call h c token hidle hlive =>
    have hsum := credits_update s h s.shared (.takeStale c token)
    refine ⟨hi.sound, ?_, ?_, hi.named, hi.fresh,
      ⟨hi.budget.early, fun hex hno => hi.budget.first hex fun g k hg => ?_, ?_⟩⟩
    · exact (forall_update_iff s.pc fun g pc => Local s.shared g pc).mpr ⟨trivial, fun g _ => hi.locals g⟩
    · refine (forall_update_iff s.pc fun _ pc => ∀ c, pc.ctx? = some c → s.shared.live c = true).mpr
        ⟨?_, fun g _ => hi.running g⟩
      rintro _ ⟨⟩
      exact hlive
    · have hgh : g ≠ h := by
        rintro rfl
        rw [hidle] at hg
        cases hg
      exact hno g k ((update_of_ne hgh ..).trans hg)
    · have htotal := hi.budget.total
      dsimp only [Pc.credit] at hsum ⊢
      omega
  | access _ _ _ _ hexec => exact hi.access hn hexec

/-- Hart `h` goes on until its call returns or it has to wait. -/
def AsidState.advance (s : AsidState n) (h : Fin n) (probed : Nat) : Nat → AsidState n
  | 0 => s
  | fuel + 1 =>
    match (s.pc h).exec s.shared h probed with
    | none => s
    | some (sh', pc') => AsidState.advance ⟨sh', update s.pc h pc'⟩ h probed fuel

theorem reachable_advance {init : AsidState n → Prop} (h : Fin n) (probed fuel : Nat)
    (hr : Reachable init AsidStep s) : Reachable init AsidStep (s.advance h probed fuel) := by
  induction fuel generalizing s with
  | zero => exact hr
  | succ _ ih =>
    unfold AsidState.advance
    split
    · exact hr
    · next sh' pc' hexec => exact ih (hr.step (.access s h probed sh' pc' hexec))

/-- **ASIDs are exclusive.** However the accesses of the harts interleave, two live contexts that
are valid for one generation hold different identifiers, and all identifiers a context publishes for
one generation are the same. The number of harts only has to leave the 64-bit counter its room. -/
theorem asids_exclusive_of_run (hn : n + satpAsidMask + 2 ≤ usizeMax)
    (hr : Reachable (· = AsidState.init n) AsidStep s) :
    (∀ c d generation, c ≠ d → s.shared.live c = true → s.shared.live d = true →
      (s.shared.ctx c).ValidFor generation → (s.shared.ctx d).ValidFor generation →
      (s.shared.ctx c).asid ≠ (s.shared.ctx d).asid) ∧
    ∀ p ∈ s.shared.published, ∀ q ∈ s.shared.published,
      p.ctx = q.ctx → p.generation = q.generation → p.asid = q.asid := by
  have hi : AsidInv s := by
    refine Reachable.invariant ?_ (fun s t hs hst => hs.step hn hst) hr
    rintro s rfl
    exact AsidInv.init n
  refine ⟨fun c d _ hne _ _ hc _ heq => hne (hi.sound.distinct c d hc.1 heq), fun p hp q hq hctx _ => ?_⟩
  rw [(hi.sound.published p hp).2, (hi.sound.published q hq).2, hctx]

/-- Two harts return to user mode on two new contexts, one after the other. -/
theorem asids_exclusive_of_run_two_harts :
    ∃ s : AsidState 2, (s.shared.ctx 0).ValidFor 1 ∧ (s.shared.ctx 1).ValidFor 1 ∧
      (s.shared.ctx 0).asid ≠ (s.shared.ctx 1).asid := by
  have h0 : Reachable (· = AsidState.init 2) AsidStep (AsidState.init 2) := .start rfl
  have h1 := (h0.step (.newContext _)).step (.newContext _)
  have h2 := reachable_advance 0 0xffff 20 (h1.step (.call _ 0 0 0 rfl rfl))
  have h3 := reachable_advance 1 0xffff 20 (h2.step (.call _ 1 1 0 rfl rfl))
  refine ⟨_, ?_, ?_, (asids_exclusive_of_run (by decide) h3).1 0 1 1 (by decide) rfl rfl ?_ ?_⟩
  all_goals exact ⟨succ_ne_zero _, rfl⟩

end Runs

end HitOS
