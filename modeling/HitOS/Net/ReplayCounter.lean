import HitOS.Lib.RingBits
import HitOS.Lib.Usize

/-!
# The replay window of WireGuard

`syscall/net/wireguard_crypto.rs`: `NoiseReplayCounter` remembers which counters it has accepted, in
a ring of 128 words. A counter is kept as its successor, the nonce. `Tracks` relates the ring to the
set of all nonces accepted so far, however long ago; each call of `validate` keeps it
(`Tracks.validate`), and answers as the set says: `replay_exact`.
-/

namespace HitOS.Wireguard

open List BitVec Nat Function Bool

def counterBitsTotal : Nat := 8192

def counterWordBits : Nat := 64

def counterWords : Nat := counterBitsTotal / counterWordBits

def counterWindowSize : Nat := counterBitsTotal - counterWordBits

def rejectAfterMessages : Nat := usizeMax - counterWindowSize - 1

structure NoiseReplayCounter where
  /-- The greatest nonce accepted, or 0. -/
  counter : Nat
  backtrack : Fin counterWords → BitVec 64

namespace NoiseReplayCounter

variable {S : Set Nat}

def default : NoiseReplayCounter := ⟨0, fun _ => 0⟩

/-- The place of a word in the ring, `word & (COUNTER_WORDS - 1)`. -/
def place (word : Nat) : Fin counterWords :=
  ⟨word &&& (counterWords - 1), lt_of_le_of_lt and_le_right (by decide)⟩

def clearWords (backtrack : Fin counterWords → BitVec 64) (first count : Nat) :
    Fin counterWords → BitVec 64 :=
  (List.range' first count).foldl (fun b word => update b (place word) 0) backtrack

variable (r : NoiseReplayCounter)

/-- The window moves on to a nonce that is greater than all before. -/
def advance (nonce : Nat) : NoiseReplayCounter :=
  let index := nonce / counterWordBits
  let indexCurrent := r.counter / counterWordBits
  let wordDelta := index - indexCurrent
  { counter := nonce
    backtrack :=
      -- a jump over the whole ring clears all of it
      if wordDelta ≥ counterWords then fun _ => 0
      else clearWords r.backtrack (indexCurrent + 1) (index - indexCurrent) }

def setMask (word : Fin counterWords) (mask : BitVec 64) : NoiseReplayCounter :=
  { r with backtrack := update r.backtrack word (r.backtrack word ||| mask) }

def validate (theirCounter : Nat) : NoiseReplayCounter × Bool :=
  if theirCounter ≥ rejectAfterMessages then (r, false)
  else if usizeMax < theirCounter + 1 then (r, false)
  else
    let nonce := theirCounter + 1
    if satAdd counterWindowSize nonce < r.counter then (r, false)
    else
      let index := nonce / counterWordBits
      -- the window moves before the bit is looked at
      let r := if nonce > r.counter then r.advance nonce else r
      let word := place index
      let mask := 1#64 <<< (nonce &&& (counterWordBits - 1))
      if r.backtrack word &&& mask ≠ 0 then (r, false)
      else (r.setMask word mask, true)

/-! ### Sequences of counters -/

/-- The window after a sequence of counters, and the counters that were accepted, the last one
first. -/
def validateAll : List Nat → NoiseReplayCounter × List Nat
  | [] => (default, [])
  | c :: cs =>
    let (r, accepted) := validateAll cs
    let (r', ok) := r.validate c
    (r', if ok then c :: accepted else accepted)

/-! ### Words and bits -/

variable {r : NoiseReplayCounter} {nonce i b : Nat}

theorem place_val : (place i).val = i % counterWords :=
  and_two_pow_sub_one_eq_mod i 7

theorem nonce_bit : nonce &&& (counterWordBits - 1) = nonce % counterWordBits :=
  and_two_pow_sub_one_eq_mod nonce 6

/-- The bits of the ring, by place. -/
def bits (r : NoiseReplayCounter) (w b : Nat) : Bool := (r.backtrack (place w)).getLsbD b

theorem place_mod : place (i % counterWords) = place i := by
  apply Fin.ext
  rw [place_val, place_val, mod_mod]

theorem bits_mod : r.bits (i % counterWords) b = (r.backtrack (place i)).getLsbD b := by
  rw [bits, place_mod]

theorem and_mask_ne_zero {w : BitVec 64} (hb : b < 64) : w &&& 1#64 <<< b ≠ 0 ↔ w.getLsbD b = true := by
  rw [← twoPow_eq, and_twoPow]
  split
  · next hbit =>
    refine iff_of_true (fun hzero => ?_) hbit
    have := congrArg (fun v => v.getLsbD b) hzero
    simp [hb] at this
  · next hbit => exact iff_of_false (not_not.mpr rfl) hbit

/-- Clearing words clears their places, and no others. -/
theorem clearWords_apply {backtrack : Fin counterWords → BitVec 64} {first count : Nat}
    {w : Fin counterWords} :
    clearWords backtrack first count w = if ∃ word ∈ range' first count, place word = w then 0
      else backtrack w := by
  unfold clearWords
  -- on the number of words; the loop starts from any ring
  induction count generalizing first backtrack with
  | zero => simp
  | succ count ih =>
    rw [range'_succ, foldl_cons, ih]
    by_cases hw : place first = w
    · subst hw
      simp
    have hiff : (∃ word ∈ first :: range' (first + 1) count, place word = w) ↔
        ∃ word ∈ range' (first + 1) count, place word = w := by
      simp [hw]
    rw [update_of_ne (symm hw)]
    simp only [hiff]

/-! ### The window and the set -/

/-- **The ring tracks a set of nonces**: the counter is the greatest of them, and the
bits are those of the set. -/
structure Tracks (r : NoiseReplayCounter) (S : Set Nat) : Prop where
  le_counter : ∀ n ∈ S, n ≤ r.counter
  counter_mem : r.counter = 0 ∨ r.counter ∈ S
  ring : RingBits.Shows counterWords counterWordBits r.bits (r.counter / counterWordBits) S

theorem tracks_default : Tracks default ∅ where
  le_counter _ hn := absurd hn (Set.notMem_empty _)
  counter_mem := .inl rfl
  ring i b _ _ _ := by
    refine iff_of_false ?_ (Set.notMem_empty _)
    simp [bits, default]

/-- The window moves on, with the same set. -/
theorem Tracks.advance (h : Tracks r S) (hlt : r.counter < nonce) : (∀ n ∈ S, n ≤ (r.advance nonce).counter) ∧
      RingBits.Shows counterWords counterWordBits (r.advance nonce).bits (nonce / counterWordBits) S := by
  have hdiv : r.counter / counterWordBits ≤ nonce / counterWordBits := Nat.div_le_div_right hlt.le
  refine ⟨fun n hn => le_trans (h.le_counter n hn) hlt.le, ?_⟩
  refine h.ring.advance (fun n hn => Nat.div_le_div_right (h.le_counter n hn)) hdiv ?_ ?_
  · -- a new word
    intro i b hi _ _
    rw [bits_mod]
    simp only [NoiseReplayCounter.advance]
    split
    · simp
    have hcleared : i ∈ range' (r.counter / counterWordBits + 1)
        (nonce / counterWordBits - r.counter / counterWordBits) := by
      rw [mem_range'_1]
      omega
    rw [clearWords_apply, if_pos ⟨i, hcleared, rfl⟩]
    exact getLsbD_zero
  · -- an old word that stays in the ring
    intro _ _ _ _
    rw [bits_mod, bits_mod]
    simp only [NoiseReplayCounter.advance]
    have hshort : ¬nonce / counterWordBits - r.counter / counterWordBits ≥ counterWords := by omega
    rw [if_neg hshort, clearWords_apply, if_neg]
    -- two words less than a ring apart have different places
    rintro ⟨word, hword, hplace⟩
    rw [mem_range'_1] at hword
    have hval := congrArg Fin.val hplace
    rw [place_val, place_val] at hval
    exact RingBits.mod_ne_mod (by omega) (by omega) hval

/-- The window where the nonce belongs: it moves on only for a nonce that is greater than all
before. -/
theorem Tracks.moved (h : Tracks r S) (nonce : Nat) {r' : NoiseReplayCounter}
    (hr : r' = if nonce > r.counter then r.advance nonce else r) :
    r'.counter = max nonce r.counter ∧ (∀ n ∈ S, n ≤ r'.counter) ∧
      RingBits.Shows counterWords counterWordBits r'.bits (r'.counter / counterWordBits) S := by
  subst hr
  split
  · next hgt => exact ⟨(max_eq_left hgt.le).symm, h.advance hgt⟩
  · next hgt => exact ⟨(max_eq_right (not_lt.mp hgt)).symm, h.le_counter, h.ring⟩

/-- Setting the bit of a nonce in its word. -/
theorem bits_setMask :
    (r.setMask (place (nonce / counterWordBits)) (1#64 <<< (nonce % counterWordBits))).bits
        (i % counterWords) b = true ↔
      r.bits (i % counterWords) b = true ∨
        i % counterWords = nonce / counterWordBits % counterWords ∧ b = nonce % counterWordBits := by
  rw [bits_mod, bits_mod]
  by_cases hplace : place i = place (nonce / counterWordBits)
  · have hval : i % counterWords = nonce / counterWordBits % counterWords := by
      rw [← place_val, ← place_val, hplace]
    have hbit : nonce % counterWordBits < 64 := mod_lt _ (by decide)
    have hmask : (1#64 <<< (nonce % counterWordBits)).getLsbD b = decide (b = nonce % counterWordBits) := by
      rw [← twoPow_eq, getLsbD_twoPow]
      simp [hbit, eq_comm]
    simp [setMask, hplace, hval, hmask]
  · have hval : i % counterWords ≠ nonce / counterWordBits % counterWords := by
      intro heq
      exact hplace (by rw [← place_mod (i := i), heq, place_mod])
    simp [setMask, hplace, hval]

/-- **One counter**: the ring goes on tracking the nonces accepted, and the answer is the one of the
set. -/
theorem Tracks.validate (h : Tracks r S) (theirCounter : Nat) :
    ((r.validate theirCounter).2 = true ↔ theirCounter < rejectAfterMessages ∧
      r.counter ≤ counterWindowSize + (theirCounter + 1) ∧ theirCounter + 1 ∉ S) ∧
    Tracks (r.validate theirCounter).1
      (if (r.validate theirCounter).2 then insert (theirCounter + 1) S else S) := by
  unfold NoiseReplayCounter.validate
  by_cases hlimit : theirCounter ≥ rejectAfterMessages
  · -- beyond the limit of messages
    rw [if_pos hlimit]
    exact ⟨iff_of_false false_ne_true fun hok => absurd hok.1 (not_lt.mpr hlimit), h⟩
  rw [if_neg hlimit]
  -- below that limit no sum saturates
  have hroom : counterWindowSize + (theirCounter + 1) ≤ usizeMax := by
    have : rejectAfterMessages + counterWindowSize + 1 = usizeMax := by decide
    omega
  rw [if_neg (by omega)]
  simp only [satAdd_of_le hroom]
  by_cases hold : counterWindowSize + (theirCounter + 1) < r.counter
  · -- behind the window
    rw [if_pos hold]
    exact ⟨iff_of_false false_ne_true fun hok => absurd hok.2.1 hold.not_ge, h⟩
  simp only [if_neg hold, nonce_bit]
  generalize hr' : (if theirCounter + 1 > r.counter then r.advance (theirCounter + 1) else r) = r'
  obtain ⟨hmax, hle, hshows⟩ := h.moved (theirCounter + 1) hr'.symm
  have hbit : (theirCounter + 1) % counterWordBits < counterWordBits := mod_lt _ (by decide)
  -- the nonce lies in the ring, whether the window moved or not
  have hin : (theirCounter + 1) / counterWordBits ≤ r'.counter / counterWordBits :=
    Nat.div_le_div_right (by rw [hmax]; exact le_max_left ..)
  have hring : r'.counter / counterWordBits < (theirCounter + 1) / counterWordBits + counterWords := by
    have hwindow : r'.counter ≤ (theirCounter + 1) + counterWindowSize := by
      omega
    simp only [counterWordBits, counterWords, counterWindowSize, counterBitsTotal] at hwindow ⊢
    omega
  have hmem := hshows.mem_iff (by decide) hin hring
  rw [bits_mod, ← and_mask_ne_zero hbit] at hmem
  by_cases hseen : theirCounter + 1 ∈ S
  · -- the nonce was seen, so it is not beyond the window's end and nothing moved
    rw [if_pos (hmem.mpr hseen)]
    have hstay : ¬theirCounter + 1 > r.counter := not_lt.mpr (h.le_counter _ hseen)
    rw [if_neg hstay] at hr'
    subst hr'
    exact ⟨iff_of_false false_ne_true fun hok => absurd hseen hok.2.2, h⟩
  -- a new nonce inside the window is accepted, and its bit is set
  rw [if_neg (mt hmem.mp hseen)]
  refine ⟨⟨fun _ => ⟨not_le.mp hlimit, not_lt.mp hold, hseen⟩, fun _ => rfl⟩, ?_⟩
  refine ⟨?_, ?_, ?_⟩
  · rintro n (rfl | hn)
    · change _ ≤ r'.counter
      rw [hmax]
      exact le_max_left ..
    · exact hle n hn
  · change r'.counter = 0 ∨ r'.counter ∈ _
    rw [hmax]
    by_cases hgt : theirCounter + 1 > r.counter
    · rw [max_eq_left hgt.le]
      exact .inr (.inl rfl)
    · rw [max_eq_right (not_lt.mp hgt)]
      exact h.counter_mem.imp id .inr
  · exact hshows.insert (by decide) hin hring fun i b _ _ _ => bits_setMask

/-! ### Whole sequences -/

/-- The ring after any sequence of counters tracks the successors of those accepted. -/
theorem validateAll_tracks (cs : List Nat) :
    Tracks (validateAll cs).1 {n | ∃ c ∈ (validateAll cs).2, n = c + 1} := by
  induction cs with
  | nil =>
    have hempty : {n | ∃ c ∈ (validateAll []).2, n = c + 1} = (∅ : Set Nat) := by
      ext n
      simp [validateAll]
    rw [hempty]
    exact tracks_default
  | cons c cs ih =>
    have hnext := (ih.validate c).2
    simp only [validateAll]
    by_cases hok : ((validateAll cs).1.validate c).2 = true
    · -- one nonce more
      simp only [hok] at hnext ⊢
      convert hnext using 1
      ext n
      simp
    · simp only [hok] at hnext ⊢
      exact hnext

/-- What a next counter is answered, by the counters accepted so far. -/
theorem validate_iff {cs : List Nat} (c : Nat) :
    ((validateAll cs).1.validate c).2 = true ↔ c < rejectAfterMessages ∧
      (∀ largest ∈ (validateAll cs).2, largest ≤ c + counterWindowSize) ∧ c ∉ (validateAll cs).2 := by
  have htracks := validateAll_tracks cs
  rw [(htracks.validate c).1]
  refine and_congr_right fun _ => and_congr ?_ ?_
  · -- the counter of the ring is the greatest nonce
    constructor
    · intro _ largest hl
      have := htracks.le_counter (largest + 1) ⟨largest, hl, rfl⟩
      omega
    · intro hall
      obtain hzero | ⟨largest, hl, heq⟩ := htracks.counter_mem
      · omega
      · have := hall largest hl
        omega
  · simp

/-- **Replay protection is exact**: whatever counters were presented before, in any order, no
counter was accepted twice, and the next one is accepted exactly when it is below the limit, not
further behind the largest counter accepted than the window, and was not accepted before. -/
theorem replay_exact (cs : List Nat) :
    (validateAll cs).2.Nodup ∧
    ∀ c, ((validateAll cs).1.validate c).2 = true ↔ c < rejectAfterMessages ∧
      (∀ largest ∈ (validateAll cs).2, largest ≤ c + counterWindowSize) ∧ c ∉ (validateAll cs).2 := by
  refine ⟨?_, validate_iff⟩
  induction cs with
  | nil => exact nodup_nil
  | cons c cs ih =>
    simp only [validateAll]
    split
    · rename_i hok
      exact nodup_cons.mpr ⟨((validate_iff c).mp hok).2.2, ih⟩
    · exact ih

end NoiseReplayCounter

end HitOS.Wireguard
