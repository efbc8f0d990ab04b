import HitOS.Fs.Pipe

/-!
# The stream of a pipe

What goes through a pipe, over any sequence of operations on its ring and any interleaving of
writers. A `Stream` has, besides the ring, a log of all bytes that have gone in, each with the call
that wrote it, and the bytes that have come out, for the proofs only.

A writer is advanced a round at a time, at any point of the sequence and with any environment;
blocking only restricts when that happens. So the sequences here contain every schedule.

* `Stream.Ok.step` — what an operation keeps: the bytes that came out and those in the ring are the
  log, in order, and the bytes of each call are in the log in the order of its data;
* contiguity rests on `RoundEffect.small`: a write of at most `PIPE_BUF` bytes that has not begun
  waits, or is over after the round, so it never goes round again with a part of its bytes written.
-/

namespace HitOS.Pipe

open List WriteCall Nat Stream Function Bool

/-! ### Runs -/

/-- What became of a write call; `filtered` says that a filter has dropped bytes. -/
inductive Writer where
  | unused
  | running (data : List UInt8) (call : WriteCall) (filtered : Bool)
  | returned (data : List UInt8) (result : Except SyscallError Nat) (filtered : Bool)

/-- The bytes of the call. -/
def Writer.data? : Writer → Option (List UInt8)
  | .unused => none
  | .running data _ _ => some data
  | .returned data _ _ => some data

/-- A pipe with its history. -/
structure Stream where
  ring : PipeRingBuffer
  writers : Nat → Writer
  /-- The bytes that went in, with the call that wrote them if there is one. -/
  log : List (Option Nat × UInt8)
  /-- The bytes that came out. -/
  taken : List UInt8

def Stream.new (limits : PipeLimits) : Stream := ⟨.new limits, fun _ => .unused, [], []⟩

/-- An operation: one on the ring, the start of a write call, or a round of it. -/
inductive StreamOp where
  | write (src : List UInt8)
  | read (len : Nat)
  | peek (len : Nat)
  | setPipeSize (limits : PipeLimits) (size : Nat)
  | start (id : Nat) (data : List UInt8) (nonblock signalAsEintr deadline user : Bool)
  | round (id : Nat) (readEndsClosed : Bool) (env : RoundEnv)

def RoundEnd.writer (data : List UInt8) (filtered : Bool) : RoundEnd WriteCall Nat → Writer
  | .done result => .returned data result filtered
  | .again call => .running data call filtered
  | .park call => .running data call filtered

/-- The history after a round of a call. -/
def Stream.afterRound (s : Stream) (id : Nat) (data : List UInt8) (call : WriteCall) (filtered : Bool)
    (d : WriteDecision) : Stream :=
  { s with
    ring := d.ring
    log := s.log ++ ((call.data.drop call.written).take d.wrote).map fun b => (some id, b)
    writers := update s.writers id (d.ends.writer data (filtered || d.filtered)) }

/-- One operation; `none` if it panics. -/
def Stream.step (s : Stream) : StreamOp → Option Stream
  | .write src =>
    (s.ring.writeFromSliceBytes src).map fun (n, ring) =>
      { s with ring := ring, log := s.log ++ (src.take n).map fun b => (none, b) }
  | .read len =>
    (s.ring.readIntoSlice len).map fun (out, ring) => { s with ring := ring, taken := s.taken ++ out }
  | .peek len => (s.ring.peekInto len).map fun _ => s
  | .setPipeSize limits size =>
    (s.ring.setPipeSize limits size).map fun (_, ring) => { s with ring := ring }
  | .start id data nonblock signalAsEintr deadline user =>
    match s.writers id with
    | .unused =>
      some { s with
        writers := update s.writers id (if data = [] then .returned data (.ok 0) false
          else .running data ⟨data, 0, nonblock, signalAsEintr, deadline, user, 0⟩ false) }
    | _ => some s
  | .round id readEndsClosed env =>
    match s.writers id with
    | .running data call filtered =>
      (writeDecision s.ring readEndsClosed call env).map (s.afterRound id data call filtered)
    | _ => some s

/-- A sequence of operations. -/
def Stream.run (s : Stream) (ops : List StreamOp) : Option Stream := ops.foldlM step s

/-! ### The round of a write -/

section Round

variable {ring : PipeRingBuffer} {q slice : List UInt8} {call : WriteCall} {env : RoundEnv} {d : WriteDecision}
  {truncated closed : Bool} {e : SyscallError} {n : Nat}

theorem applyFilter_le {filter : Option (List UInt8 → Option Nat)}
    (h : applyFilter filter slice = some (n, truncated)) :
    n ≤ slice.length ∧ (truncated = false → n = slice.length) := by
  cases filter with
  | none =>
    cases h
    exact ⟨Nat.le_refl _, fun _ => rfl⟩
  | some =>
    obtain ⟨_, -, heq⟩ := Option.map_eq_some_iff.mp h
    cases heq
    refine ⟨Nat.min_le_left .., fun hcut => ?_⟩
    rw [decide_eq_false_iff_not] at hcut
    omega

/-- Filters let a first part pass, and all of it if they say so. -/
theorem filterSlice_le (h : env.filterSlice slice = some (n, truncated)) :
    n ≤ slice.length ∧ (truncated = false → n = slice.length) := by
  obtain ⟨⟨_, _⟩, hm, h⟩ := Option.bind_eq_some_iff.mp h
  obtain ⟨⟨_, _⟩, hk, heq⟩ := Option.map_eq_some_iff.mp h
  cases heq
  have h₁ := applyFilter_le hm
  have h₂ := applyFilter_le hk
  rw [length_take] at h₂
  refine ⟨by omega, fun hcut => ?_⟩
  rw [or_eq_false_iff] at hcut
  have := h₁.2 hcut.1
  have := h₂.2 hcut.2
  omega

theorem length_slice {avail : Nat} :
    (call.slice avail).length = min (call.data.length - call.written) avail := by
  unfold slice
  rw [length_take, length_drop]
  omega

/-- The call goes on as `call'` after it has written `n` bytes more; it may have given up what it
has written before, and the data with it. -/
def WriteCall.Continues (call : WriteCall) (n : Nat) (call' : WriteCall) : Prop :=
  call'.before + call'.written = call.before + call.written + n ∧
    ∃ k ≤ call.written, call'.before = call.before + k ∧ call'.data = call.data.drop k

/-- **What a round of a write can do.** The bytes that go into the ring are the next ones of the
call. -/
structure RoundEffect (ring : PipeRingBuffer) (q : List UInt8) (call : WriteCall) (d : WriteDecision) :
    Prop where
  holds : Holds d.ring (q ++ (call.data.drop call.written).take d.wrote)
  capacity : d.ring.capacity = ring.capacity
  wrote : d.wrote ≤ call.data.length - call.written
  ends : match d.ends with
    | .done (.ok n) => d.filtered = true ∨ n = call.before + call.written + d.wrote
    | .done (.error _) => call.before = 0 ∧ call.written = 0 ∧ d.wrote = 0
    | .again call' | .park call' => d.filtered = false ∧ call.Continues d.wrote call'
  small : call.written = 0 → call.data.length ≤ pipeBuf → d.wrote ≠ 0 →
    (∃ result, d.ends = .done result) ∧ (d.filtered = true ∨ d.wrote = call.data.length)

/-- An answer that says how much the call has written so far; an error says nothing was. -/
def WriteCall.Honest (call : WriteCall) : Except SyscallError Nat → Prop
  | .ok n => n = call.before + call.written
  | .error _ => call.before = 0 ∧ call.written = 0

/-- A round that leaves the ring alone and ends the call. -/
theorem RoundEffect.done (h : Holds ring q) {leaves : Bool} {result : Except SyscallError Nat}
    (hresult : call.Honest result) : RoundEffect ring q call ⟨ring, 0, leaves, false, .done result⟩ := by
  refine ⟨by simpa using h, rfl, zero_le _, ?_, fun _ _ h => absurd rfl h⟩
  cases result with
  | ok => exact .inr hresult
  | error => exact ⟨hresult.1, hresult.2, rfl⟩

theorem honest_ok : call.Honest (call.result (.ok call.written)) := rfl

theorem honest_error (hw : call.written = 0) : call.Honest (call.result (.error e)) := by
  unfold result
  dsimp only
  split
  · exact (congrArg (call.before + ·) hw).symm
  · exact ⟨by omega, hw⟩

theorem honest_part : call.Honest (call.result (if call.written > 0 then .ok call.written else .error e)) := by
  split
  · exact honest_ok
  · exact honest_error (by omega)

theorem writeWait_effect (h : Holds ring q) : RoundEffect ring q call (writeWait ring call env) := by
  unfold writeWait
  split
  · exact .done h honest_part
  split
  · refine .done h ?_
    split
    · next hw => exact honest_error hw.2
    · exact honest_ok
  split
  · exact .done h honest_part
  exact ⟨by simpa using h, rfl, zero_le _, ⟨rfl, rfl, 0, zero_le _, rfl, rfl⟩, fun _ _ h => absurd rfl h⟩

theorem writeChunk_effect (h : Holds ring q) (hwait : call.mustWait ring.availableWrite ≠ true) :
    ∃ d, writeChunk ring call env = some d ∧ RoundEffect ring q call d := by
  have hlen := @length_slice call ring.availableWrite
  unfold writeChunk
  dsimp only
  cases hfilter : env.filterSlice (call.slice ring.availableWrite) with
  | none => refine ⟨_, rfl, by simpa using h, rfl, zero_le _, .inl rfl, fun _ _ h => absurd rfl h⟩
  | some verdict =>
  obtain ⟨toWrite, truncated⟩ := verdict
  obtain ⟨hle, hall⟩ := filterSlice_le hfilter
  -- what passes the filters has room
  obtain ⟨_, hwrite, hholds, hcapacity⟩ :=
    h.writeFromSliceBytes_spec ((call.slice ring.availableWrite).take toWrite)
  have htake : ((call.slice ring.availableWrite).take toWrite).length = toWrite := by
    rw [length_take]
    omega
  have hn : min toWrite ring.availableWrite = toWrite := by omega
  rw [htake, hn] at hwrite
  have hbytes : ((call.slice ring.availableWrite).take toWrite).take ring.availableWrite =
      (call.data.drop call.written).take toWrite := by
    unfold slice
    rw [take_take, take_take]
    congr 1
    omega
  rw [hbytes] at hholds
  dsimp only
  rw [hwrite, Option.map_some]
  refine ⟨_, rfl, hholds, hcapacity, by dsimp only; omega, ?_, fun hw hsmall hwrote => ?_⟩
  · by_cases hcut : truncated = true
    · rw [if_pos hcut]
      exact .inl hcut
    rw [if_neg hcut]
    by_cases hdone : call.written + toWrite = call.data.length ∨ call.nonblock = true
    · rw [if_pos hdone]
      exact .inr (Nat.add_assoc ..).symm
    · rw [if_neg hdone]
      exact ⟨by simpa using hcut, (Nat.add_assoc ..).symm, 0, zero_le _, rfl, rfl⟩
  · by_cases hcut : truncated = true
    · exact ⟨⟨_, if_pos hcut⟩, .inl hcut⟩
    · -- a write that must not be split has room for all of it, or waits
      have hend : toWrite = call.data.length := by
        simp only [mustWait, ne_eq, decide_eq_true_eq] at hwait
        rw [hall (by simpa using hcut), hlen]
        omega
      refine ⟨⟨call.result (.ok (call.written + toWrite)), ?_⟩, .inr hend⟩
      rw [if_neg hcut, if_pos (.inl (by omega))]

theorem writeDecision_effect (h : Holds ring q) :
    ∃ d, writeDecision ring closed call env = some d ∧ RoundEffect ring q call d := by
  unfold writeDecision
  split
  · exact ⟨_, rfl, by simpa using h, rfl, zero_le _,
      ⟨rfl, rfl, call.written, Nat.le_refl _, rfl, rfl⟩, fun _ _ h => absurd rfl h⟩
  split
  · refine ⟨_, rfl, .done h ?_⟩
    split
    · next hw => exact honest_error hw
    · exact honest_ok
  split
  · exact ⟨_, rfl, writeWait_effect h⟩
  · next hwait => exact writeChunk_effect h hwait

end Round

/-! ### The history -/

variable {id : Nat} {who : Option Nat} {log l : List (Option Nat × UInt8)} {data q bs : List UInt8} {ring : PipeRingBuffer}

/-- The bytes of a call in the log, in order. -/
def bytesOf (id : Nat) (log : List (Option Nat × UInt8)) : List UInt8 :=
  (log.filter fun x => x.1 == some id).map Prod.snd

/-- The bytes of a call stand next to each other in the log. -/
def Contiguous (id : Nat) (data : List UInt8) (log : List (Option Nat × UInt8)) : Prop :=
  ∃ k pre post, log = pre ++ (data.take k).map (fun b => (some id, b)) ++ post ∧ ∀ x ∈ pre ++ post,
    x.1 ≠ some id

theorem bytesOf_append : bytesOf id (log ++ l) = bytesOf id log ++ bytesOf id l := by
  simp [bytesOf]

theorem bytesOf_self : bytesOf id (bs.map fun b => (some id, b)) = bs := by
  induction bs with
  | nil => rfl
  | cons => simp_all [bytesOf]

theorem bytesOf_other (hne : who ≠ some id) : bytesOf id (bs.map fun b => (who, b)) = [] := by
  induction bs with
  | nil => rfl
  | cons => simp_all [bytesOf]

theorem bytesOf_eq_nil (h : bytesOf id log = []) : ∀ x ∈ log, x.1 ≠ some id := by
  intro x hx heq
  have : x.2 ∈ bytesOf id log := mem_map.mpr ⟨x, mem_filter.mpr ⟨hx, by simp [heq]⟩, rfl⟩
  rw [h] at this
  cases this

theorem Contiguous.append (h : Contiguous id data log) (hl : bytesOf id l = []) :
    Contiguous id data (log ++ l) := by
  obtain ⟨k, pre, post, rfl, hout⟩ := h
  refine ⟨k, pre, post ++ l, by simp, fun x hx => ?_⟩
  rw [← append_assoc, mem_append] at hx
  exact hx.elim (hout x) (bytesOf_eq_nil hl x)

/-- **What is known of a call** from the log. -/
def WriterOk (id : Nat) (log : List (Option Nat × UInt8)) : Writer → Prop
  | .unused => bytesOf id log = []
  | .running data call filtered =>
    filtered = false ∧ call.before ≤ data.length ∧ call.data = data.drop call.before ∧
      call.written ≤ call.data.length ∧ bytesOf id log = data.take (call.before + call.written) ∧
      (data.length ≤ pipeBuf → call.before + call.written = 0)
  | .returned data result filtered =>
    ∃ k ≤ data.length, bytesOf id log = data.take k ∧ (match result with
        | .ok n => filtered = true ∨ n = k
        | .error _ => k = 0) ∧
      (data.length ≤ pipeBuf → Contiguous id data log ∧ (filtered = true ∨ k = 0 ∨ k = data.length))

/-- Bytes of others do not matter. -/
theorem WriterOk.append {w : Writer} (h : WriterOk id log w) (hl : bytesOf id l = []) :
    WriterOk id (log ++ l) w := by
  have hbytes : bytesOf id (log ++ l) = bytesOf id log := by rw [bytesOf_append, hl, append_nil]
  cases w with
  | unused => exact hbytes.trans h
  | running =>
    unfold WriterOk
    rwa [hbytes]
  | returned =>
    obtain ⟨k, hk, hb, hres, hsmall⟩ := h
    exact ⟨k, hk, hbytes.trans hb, hres, fun hs => ⟨(hsmall hs).1.append hl, (hsmall hs).2⟩⟩

/-- **The invariant**: what came out and what is in the ring are what went in. -/
structure Stream.Ok (s : Stream) : Prop where
  ring : Holds s.ring s.ring.contents
  bytes : s.taken ++ s.ring.contents = s.log.map Prod.snd
  writers : ∀ id, WriterOk id s.log (s.writers id)

/-- A round of a call, seen from the call. -/
theorem WriterOk.round {call : WriteCall} {filtered : Bool} {d : WriteDecision}
    (h : WriterOk id log (.running data call filtered)) (hd : RoundEffect ring q call d) :
    WriterOk id (log ++ ((call.data.drop call.written).take d.wrote).map fun b => (some id, b))
      (d.ends.writer data (filtered || d.filtered)) := by
  obtain ⟨rfl, hbefore, hdata, hwritten, hbytes, hsmall⟩ := h
  have hnext : call.data.drop call.written = data.drop (call.before + call.written) := by
    rw [hdata, drop_drop]
  have hlen : call.data.length = data.length - call.before := by rw [hdata, length_drop]
  have hwrote := hd.wrote
  have hbytes' : bytesOf id (log ++ ((call.data.drop call.written).take d.wrote).map fun b => (some id, b)) =
      data.take (call.before + call.written + d.wrote) := by
    rw [bytesOf_append, bytesOf_self, hbytes, hnext, ← take_add]
  have hends := hd.ends
  have hunsplit (hs : data.length ≤ pipeBuf) (hw : d.wrote ≠ 0) : (∃ result, d.ends = .done result) ∧
      (d.filtered = true ∨ d.wrote = data.length) := by
    have := hd.small (by omega) (by omega) hw
    rwa [hlen, show call.before = 0 by omega] at this
  -- a call that goes on has written nothing in this round, if it must not be split
  have hgoes call' (hnot : (∀ result, d.ends ≠ .done result)) (hf : d.filtered = false) (hcont :
      call.Continues d.wrote call') :
      WriterOk id (log ++ ((call.data.drop call.written).take d.wrote).map fun b =>
      (some id, b)) (.running data call' d.filtered) := by
    obtain ⟨hsum, _, -, hk, hdata'⟩ := hcont
    refine ⟨hf, by omega, ?_, ?_, ?_, fun hs => ?_⟩
    · rw [hdata', hdata, drop_drop, hk]
    · rw [hdata', length_drop]
      omega
    · rw [hbytes', hsum]
    · by_cases hw : d.wrote = 0
      · omega
      · obtain ⟨result, hdone⟩ := (hunsplit hs hw).1
        exact absurd hdone (hnot result)
  cases hcase : d.ends with
  | done result =>
    rw [hcase] at hends
    refine ⟨call.before + call.written + d.wrote, by omega, hbytes', ?_, fun hs => ?_⟩
    · cases result with
      | ok => exact hends
      | error =>
        omega
    have hzero := hsmall hs
    refine ⟨?_, ?_⟩
    · -- the call has no bytes before this round
      rw [hnext, hzero]
      exact ⟨d.wrote, log, [], by simp, by simpa using bytesOf_eq_nil (by rw [hbytes, hzero, take_zero])⟩
    by_cases hw : d.wrote = 0
    · exact .inr (.inl (by omega))
    · rcases (hunsplit hs hw).2 with hf | hall
      · exact .inl hf
      · exact .inr (.inr (by omega))
  | again call' | park call' =>
    rw [hcase] at hends
    exact hgoes call' (by simp [hcase]) hends.1 hends.2

/-- The bytes of the log after some more went in. -/
theorem map_snd_log : (log ++ bs.map fun b => (who, b)).map Prod.snd = log.map Prod.snd ++ bs := by
  rw [map_append, map_map]
  exact congrArg _ (map_id bs)

namespace Stream

variable {s : Stream}

theorem Ok.new (limits : PipeLimits) : (new limits).Ok :=
  ⟨(holds_new limits).contents ▸ holds_new limits, (holds_new limits).contents, fun _ => rfl⟩

/-- The invariant for a ring that holds `q`. -/
theorem Ok.of_holds {taken : List UInt8}
    {writers : Nat → Writer} (hring : Holds ring q) (hbytes : taken ++ q = log.map Prod.snd)
    (hwriters : ∀ id, WriterOk id log (writers id)) : Ok ⟨ring, writers, log, taken⟩ :=
  ⟨hring.contents.symm ▸ hring, hring.contents.symm ▸ hbytes, hwriters⟩

/-- **One operation** does not panic, and keeps the invariant. -/
theorem Ok.step (h : s.Ok) (op : StreamOp) : ∃ s', s.step op = some s' ∧ s'.Ok := by
  have hring := h.ring
  cases op with
  | write src =>
    obtain ⟨ring, hwrite, hholds, -⟩ := hring.writeFromSliceBytes_spec src
    have htake : src.take (min src.length s.ring.availableWrite) = src.take s.ring.availableWrite := by
      rw [Nat.min_comm, ← take_take, take_length]
    refine ⟨_, by rw [Stream.step, hwrite]; rfl, .of_holds hholds ?_ fun id => ?_⟩
    · rw [map_snd_log, ← h.bytes, append_assoc, htake]
    · exact (h.writers id).append (bytesOf_other (by simp))
  | read len =>
    obtain ⟨ring, hread, hholds, -⟩ := hring.readIntoSlice_spec len
    refine ⟨_, by rw [Stream.step, hread]; rfl, .of_holds hholds ?_ h.writers⟩
    rw [append_assoc, take_append_drop, h.bytes]
  | peek => exact ⟨s, by rw [Stream.step, hring.peekInto_spec]; rfl, h⟩
  | setPipeSize limits size =>
    obtain ⟨_, _, hset, hholds, -⟩ := hring.setPipeSize_spec limits size
    exact ⟨_, by rw [Stream.step, hset]; rfl, .of_holds hholds h.bytes h.writers⟩
  | start id =>
    have hid := h.writers id
    unfold Stream.step
    dsimp only
    cases hw : s.writers id with
    | running | returned => exact ⟨s, rfl, h⟩
    | unused =>
    rw [hw] at hid
    refine ⟨_, rfl, hring, h.bytes, fun id' => ?_⟩
    by_cases heq : id' = id
    · subst heq
      dsimp only
      rw [update_self]
      split
      · refine ⟨0, zero_le _, hid, .inr rfl, fun _ => ⟨?_, .inr (.inl rfl)⟩⟩
        exact ⟨0, s.log, [], by simp, by simpa using bytesOf_eq_nil hid⟩
      · exact ⟨rfl, zero_le _, rfl, zero_le _, hid, fun _ => rfl⟩
    · dsimp only
      rw [update_of_ne heq]
      exact h.writers id'
  | round id closed env =>
    have hid := h.writers id
    unfold Stream.step
    dsimp only
    cases hw : s.writers id with
    | unused | returned => exact ⟨s, rfl, h⟩
    | running data call filtered =>
    rw [hw] at hid
    obtain ⟨d, hd, heffect⟩ := @writeDecision_effect _ _ call env closed hring
    refine ⟨s.afterRound id data call filtered d, by dsimp only; rw [hd]; rfl,
      .of_holds heffect.holds ?_ fun id' => ?_⟩
    · rw [map_snd_log, ← h.bytes, append_assoc]
    by_cases heq : id' = id
    · subst heq
      rw [update_self]
      exact hid.round heffect
    · rw [update_of_ne heq]
      exact (h.writers id').append (bytesOf_other (by simpa using Ne.symm heq))

/-- **A sequence of operations.** -/
theorem Ok.run (h : s.Ok) (ops : List StreamOp) : ∃ s', s.run ops = some s' ∧ s'.Ok := by
  induction ops generalizing s with
  | nil => exact ⟨s, rfl, h⟩
  | cons op _ ih =>
    obtain ⟨_, hs₁, h₁⟩ := h.step op
    obtain ⟨s₂, hs₂, h₂⟩ := ih h₁
    refine ⟨s₂, ?_, h₂⟩
    unfold run at hs₂ ⊢
    rwa [foldlM_cons, hs₁]

/-- The bytes of a write, whether it is over or not, and those of at most `PIPE_BUF`. -/
theorem Ok.bytesOf (h : s.Ok) (hdata : (s.writers id).data? = some data) :
    ∃ k, bytesOf id s.log = data.take k ∧ (data.length ≤ pipeBuf → Contiguous id data s.log) := by
  have hid := h.writers id
  revert hdata hid
  cases s.writers id with
  | unused => exact nofun
  | running =>
    intro hdata hid
    cases hdata
    obtain ⟨-, -, -, -, hbytes, hzero⟩ := hid
    refine ⟨_, hbytes, fun hsmall => ?_⟩
    rw [hzero hsmall] at hbytes
    exact ⟨0, s.log, [], by simp, by simpa using bytesOf_eq_nil hbytes⟩
  | returned =>
    intro hdata hid
    cases hdata
    obtain ⟨k, -, hbytes, -, hall⟩ := hid
    exact ⟨k, hbytes, fun hsmall => (hall hsmall).1⟩

end Stream

/-- **The ring of a pipe is a queue of bytes.** No sequence of operations panics. The bytes that
came out, followed by those in the ring, are the bytes that went in, in their order;
`available_read` and `available_write` are the length of the queue and the rest of the capacity;
peeking shows the first bytes, reading takes them out, writing adds as many bytes as there is room
for, and another size leaves the queue as it is. The bytes of each write call are in the stream in
their order, and those of a call of at most `PIPE_BUF` bytes next to each other: all of them, if it
has returned a count and no filter was in the way. -/
theorem pipe_refines_fifo (limits : PipeLimits) (ops : List StreamOp) :
    ∃ s, (Stream.new limits).run ops = some s ∧ s.taken <+: s.log.map Prod.snd ∧
      s.taken ++ s.ring.contents = s.log.map Prod.snd ∧
      s.ring.availableRead = s.ring.contents.length ∧
      s.ring.availableRead + s.ring.availableWrite = s.ring.capacity ∧
      (∀ len, s.ring.peekInto len = some (s.ring.contents.take len)) ∧
      (∀ len, ∃ ring, s.ring.readIntoSlice len = some (s.ring.contents.take len, ring) ∧
        ring.contents = s.ring.contents.drop len) ∧
      (∀ src, ∃ ring, s.ring.writeFromSliceBytes src =
          some (min src.length s.ring.availableWrite, ring) ∧
        ring.contents = s.ring.contents ++ src.take s.ring.availableWrite) ∧
      (∀ limits size, ∃ res ring, s.ring.setPipeSize limits size = some (res, ring) ∧
        ring.contents = s.ring.contents) ∧
      (∀ id data, (s.writers id).data? = some data → ∃ k, bytesOf id s.log = data.take k) ∧
      (∀ id data, (s.writers id).data? = some data → data.length ≤ pipeBuf → Contiguous id data s.log) ∧
      (∀ id data n, s.writers id = .returned data (.ok n) false →
        bytesOf id s.log = data.take n ∧ (data.length ≤ pipeBuf → n = 0 ∨ n = data.length)) := by
  obtain ⟨s, hs, h⟩ := (Stream.Ok.new limits).run ops
  refine ⟨s, hs, ⟨s.ring.contents, h.bytes⟩, h.bytes, h.ring.length, h.ring.ok.available,
    h.ring.peekInto_spec, fun len => ?_, fun src => ?_, fun limits size => ?_,
    fun id data hdata => ?_, fun id data hdata => ?_, fun id data n hdata => ?_⟩
  · obtain ⟨ring, hread, hholds, -⟩ := h.ring.readIntoSlice_spec len
    exact ⟨ring, hread, hholds.contents⟩
  · obtain ⟨ring, hwrite, hholds, -⟩ := h.ring.writeFromSliceBytes_spec src
    exact ⟨ring, hwrite, hholds.contents⟩
  · obtain ⟨res, ring, hset, hholds, -⟩ := h.ring.setPipeSize_spec limits size
    exact ⟨res, ring, hset, hholds.contents⟩
  · obtain ⟨k, hbytes, -⟩ := h.bytesOf hdata
    exact ⟨k, hbytes⟩
  · obtain ⟨-, -, hsmall⟩ := h.bytesOf hdata
    exact hsmall
  · have hid := h.writers id
    rw [hdata] at hid
    obtain ⟨k, -, hbytes, hres, hsmall⟩ := hid
    obtain rfl : n = k := hres.resolve_left false_ne_true
    exact ⟨hbytes, fun hs => (hsmall hs).2.resolve_left false_ne_true⟩

end HitOS.Pipe
