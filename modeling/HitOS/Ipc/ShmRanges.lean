import HitOS.Ipc.Shm
import HitOS.Mm.VmRegion

/-!
# The addresses that attach records cover

`marks l x` lists the attach and the segment of every record that covers the address `x`. Detaching
a range, moving a part of a record and removing a record are described by what they do to the marks
of every address:

* `detachAttachesOverlapping_marks` — the marks in the range go away, all others stay;
* `splitMremapAttach_marks` — the marks of the old range go to the new one;
* `removeSysvShmAttach_marks` — the marks of one record go away.

The order of the records and their accounts play no part, so marks are compared up to their order.
-/

namespace HitOS.Ipc

open List ShmAttach

/-- A record covers an address. -/
def ShmAttach.Covers (a : ShmAttach) (x : Nat) : Prop := a.addr ≤ x ∧ x < a.addr + a.len

instance (a : ShmAttach) (x : Nat) : Decidable (a.Covers x) := inferInstanceAs (Decidable (_ ∧ _))

/-- The mark a record leaves: its attach and its segment. -/
def ShmAttach.mark (a : ShmAttach) : Nat × Nat := (a.attachId, a.shmid)

/-- The marks of all records that cover an address. -/
def marks (l : List ShmAttach) (x : Nat) : List (Nat × Nat) :=
  (l.filter fun a => a.Covers x).map mark

/-- A record as the system calls make them: a nonempty range of whole pages below the end of the
virtual addresses, for a segment with an identifier. -/
structure ShmAttach.Proper (a : ShmAttach) : Prop where
  pos : 0 < a.len
  addr_aligned : a.addr % pageSize = 0
  len_aligned : a.len % pageSize = 0
  below : a.addr + a.len < 2 ^ 39
  shmid_ne : a.shmid ≠ 0

section Marks

variable {l l' : List ShmAttach} {a b : ShmAttach} {x lo hi id start stop : Nat}

theorem ShmAttach.Proper.stop_eq (h : a.Proper) : a.stop = a.addr + a.len := by
  have := h.below
  exact satAdd_of_le (by unfold usizeMax; omega)

/-- A part of a record. -/
theorem ShmAttach.Proper.part (h : a.Proper) (hid : b.shmid = a.shmid) (hpos : 0 < b.len)
    (haddr : b.addr % pageSize = 0) (hlen : b.len % pageSize = 0)
    (hbelow : b.addr + b.len < 2 ^ 39) : b.Proper :=
  ⟨hpos, haddr, hlen, hbelow, hid ▸ h.shmid_ne⟩

theorem marks_append : marks (l ++ l') x = marks l x ++ marks l' x := by
  unfold marks
  rw [filter_append, map_append]

theorem marks_singleton : marks [a] x = if a.Covers x then [a.mark] else [] := by
  unfold marks
  by_cases h : a.Covers x <;> simp [h]

theorem marks_cons : marks (a :: l) x = marks [a] x ++ marks l x := marks_append (l := [a])

theorem marks_perm (h : l.Perm l') : (marks l x).Perm (marks l' x) := (h.filter _).map _

theorem mark_mem (ha : a ∈ l) (hx : a.Covers x) : a.mark ∈ marks l x :=
  mem_map_of_mem (mem_filter.mpr ⟨ha, by simpa using hx⟩)

/-- Accounts leave no marks. -/
theorem marks_accountFirst : marks (accountFirst id l) x = marks l x := by
  induction l with
  | nil => rfl
  | cons a l ih =>
    unfold accountFirst
    split
    · rw [marks_cons, marks_cons (a := a), marks_singleton, marks_singleton]
      rfl
    · rw [marks_cons, ih, ← marks_cons]

theorem proper_accountFirst (h : ∀ a ∈ l, a.Proper) : ∀ a ∈ accountFirst id l, a.Proper := by
  induction l with
  | nil => exact h
  | cons a l ih =>
    have hl := ih fun b hb => h b (mem_cons_of_mem a hb)
    have ha := h a (.head _)
    unfold accountFirst
    split
    · intro b hb
      rcases mem_cons.mp hb with rfl | hb
      · exact ⟨ha.pos, ha.addr_aligned, ha.len_aligned, ha.below, ha.shmid_ne⟩
      · exact h b (mem_cons_of_mem a hb)
    · intro b hb
      rcases mem_cons.mp hb with rfl | hb
      · exact ha
      · exact hl b hb

/-- Passing accounts on changes no mark. -/
theorem foldl_reaccount_marks {removed : List (Nat × ShmAttachRef)} (refs : List ShmAttachRef)
    (h : ∀ a ∈ l, a.Proper) :
    (∀ a ∈ (removed.foldl reaccount (l, refs)).1, a.Proper) ∧
      ∀ x, marks (removed.foldl reaccount (l, refs)).1 x = marks l x := by
  induction removed generalizing l refs with
  | nil => exact ⟨h, fun _ => rfl⟩
  | cons p _ ih =>
    rw [foldl_cons]
    unfold reaccount
    split
    · obtain ⟨hok, hmarks⟩ := ih refs (proper_accountFirst h)
      exact ⟨hok, fun x => (hmarks x).trans marks_accountFirst⟩
    · exact ih (refs ++ [p.2]) h

/-- The rest of a record in `[lo, hi)`, if there is any. -/
theorem marks_rest :
    marks (if lo < hi then [a.fragment lo (hi - lo)] else []) x = if lo ≤ x ∧ x < hi then [a.mark]
      else [] := by
  by_cases hlt : lo < hi
  · have hcov : (a.fragment lo (hi - lo)).Covers x ↔ lo ≤ x ∧ x < hi := by
      change lo ≤ x ∧ x < lo + (hi - lo) ↔ _
      omega
    rw [if_pos hlt, marks_singleton, if_congr hcov rfl rfl]
    rfl
  · rw [if_neg hlt, if_neg (by omega)]
    rfl

/-- What is left of a record when `[start, stop)` is cut out of it. -/
theorem marks_rests (hss : start ≤ stop) :
    marks ((if a.addr < start then [a.fragment a.addr (start - a.addr)] else []) ++
        if stop < a.addr + a.len then [a.fragment stop (a.addr + a.len - stop)] else []) x =
      if (a.addr ≤ x ∧ x < start) ∨ (stop ≤ x ∧ x < a.addr + a.len) then [a.mark] else [] := by
  rw [marks_append, marks_rest, marks_rest]
  split
  · next hlo =>
    rw [if_neg (by omega), if_pos (.inl hlo)]
    rfl
  · next hlo =>
    exact if_congr (by rw [or_iff_right hlo]) rfl rfl

theorem proper_rests (h : a.Proper) (hstart : start % pageSize = 0)
    (hstop : stop % pageSize = 0) (hle : start ≤ a.addr + a.len) :
    ∀ f ∈ (if a.addr < start then [a.fragment a.addr (start - a.addr)] else []) ++
        (if stop < a.addr + a.len then [a.fragment stop (a.addr + a.len - stop)] else []), f.Proper := by
  have h1 := h.addr_aligned
  have h2 := h.len_aligned
  have h3 := h.below
  unfold pageSize at h1 h2 hstart hstop
  intro f hf
  rcases mem_append.mp hf with hf | hf
  · split at hf
    · rw [mem_singleton.mp hf]
      refine h.part rfl ?_ h1 ?_ ?_
      · change 0 < start - a.addr
        omega
      · change (start - a.addr) % 4096 = 0
        omega
      · change a.addr + (start - a.addr) < 2 ^ 39
        omega
    · cases hf
  · split at hf
    · rw [mem_singleton.mp hf]
      refine h.part rfl ?_ hstop ?_ ?_
      · change 0 < a.addr + a.len - stop
        omega
      · change (a.addr + a.len - stop) % 4096 = 0
        omega
      · change stop + (a.addr + a.len - stop) < 2 ^ 39
        omega
    · cases hf

/-! ### Detaching -/

theorem ShmAttach.Proper.outside_marks (h : a.Proper) (hss : start ≤ stop)
    (hstart : start % pageSize = 0) (hstop : stop % pageSize = 0) :
    (∀ f ∈ a.outside start stop, f.Proper) ∧
      ∀ x, marks (a.outside start stop) x = if start ≤ x ∧ x < stop then [] else marks [a] x := by
  unfold outside
  rw [h.stop_eq]
  split
  · refine ⟨fun f hf => mem_singleton.mp hf ▸ h, fun x => ?_⟩
    split_ifs with hin
    · have hno : ¬ a.Covers x := fun hx => by have := hx.1; have := hx.2; omega
      rw [marks_singleton, if_neg hno]
    · rfl
  · refine ⟨proper_rests h hstart hstop (by omega), fun x => ?_⟩
    refine (marks_rests hss).trans ?_
    rw [marks_singleton]
    by_cases hin : start ≤ x ∧ x < stop
    · rw [if_pos hin, if_neg (by omega)]
    · rw [if_neg hin]
      refine if_congr ?_ rfl rfl
      change _ ↔ a.addr ≤ x ∧ x < a.addr + a.len
      omega

variable (h : ∀ a ∈ l, a.Proper)

include h

/-- The loop over the records. -/
theorem flatMap_outside_marks (hss : start ≤ stop) (hstart : start % pageSize = 0)
    (hstop : stop % pageSize = 0) :
    (∀ f ∈ l.flatMap (outside start stop), f.Proper) ∧ ∀ x, marks (l.flatMap (outside start stop)) x =
        if start ≤ x ∧ x < stop then [] else marks l x := by
  induction l with
  | nil => exact ⟨nofun, fun x => by split <;> rfl⟩
  | cons a l ih =>
    obtain ⟨hok, hmarks⟩ := ih fun b hb => h b (mem_cons_of_mem a hb)
    obtain ⟨hok', hmarks'⟩ := (h a (.head _)).outside_marks hss hstart hstop
    rw [flatMap_cons]
    refine ⟨fun f hf => (mem_append.mp hf).elim (hok' f) (hok f), fun x => ?_⟩
    rw [marks_append, hmarks, hmarks', marks_cons (l := l)]
    split_ifs with hin
    · rfl
    · rfl

/-- **`detach_attaches_overlapping`**: the marks in the range go away, all others stay. -/
theorem detachAttachesOverlapping_marks {len : Nat} {refs : List ShmAttachRef} (hstart : start % pageSize = 0)
    (hlen : len % pageSize = 0) (hd : detachAttachesOverlapping l start len = some (l', refs)) :
    (∀ a ∈ l', a.Proper) ∧ ∀ x, (marks l' x).Perm (if start ≤ x ∧ x < start + len then [] else marks l x) := by
  unfold detachAttachesOverlapping at hd
  split at hd
  · cases hd
  split at hd
  · cases hd
    refine ⟨h, fun x => ?_⟩
    rw [if_neg (by omega)]
  have hstop : (start + len) % pageSize = 0 := by
    unfold pageSize at *
    omega
  obtain ⟨hok, hmarks⟩ := flatMap_outside_marks h (Nat.le_add_right start len) hstart hstop
  have hsorted := @sortAttaches_perm (l.flatMap (outside start (start + len)))
  obtain ⟨hok', hmarks'⟩ := foldl_reaccount_marks []
    fun a ha => hok a (hsorted.mem_iff.mp ha)
  rw [Option.some.inj hd] at hok' hmarks'
  refine ⟨hok', fun x => ?_⟩
  rw [hmarks', ← hmarks]
  exact marks_perm hsorted

/-! ### Removing -/

/-- **`remove_sysv_shm_attach`**: the marks of the record at the address go away. -/
theorem removeSysvShmAttach_marks {shmaddr : Nat} {transferred : Bool}
    (hr : removeSysvShmAttach l shmaddr = some (a, transferred, l')) :
    a ∈ l ∧ a.addr = shmaddr ∧ (∀ b ∈ l', b.Proper) ∧ ∀ x, (marks l x).Perm (marks [a] x ++ marks l' x) := by
  unfold removeSysvShmAttach at hr
  iterate 2
    split at hr
    · cases hr
  next idx hidx _ b hb =>
  obtain ⟨hlt, rfl⟩ := List.getElem?_eq_some_iff.mp hb
  have haddr : l[idx].addr = shmaddr := by
    obtain ⟨hlt', hfound, -⟩ := findIdx?_eq_some_iff_getElem.mp hidx
    simpa using hfound
  have hok b (hb : b ∈ l.eraseIdx idx) : b.Proper := h b (eraseIdx_subset hb)
  have hperm x : (marks l x).Perm (marks [l[idx]] x ++ marks (l.eraseIdx idx) x) := by
    rw [← marks_cons]
    exact marks_perm (getElem_cons_eraseIdx_perm hlt).symm
  dsimp only at hr
  split at hr
  · obtain ⟨rfl, -, rfl⟩ := by simpa using hr
    refine ⟨getElem_mem hlt, haddr, proper_accountFirst hok, fun x => ?_⟩
    rw [marks_accountFirst]
    exact hperm x
  · obtain ⟨rfl, -, rfl⟩ := by simpa using hr
    exact ⟨getElem_mem hlt, haddr, hok, hperm⟩

/-! ### Moving -/

/-- **`split_mremap_attach`**: the record that holds the old range keeps what is outside it, and
covers the new range instead. -/
theorem splitMremapAttach_marks {idx oldAddr oldLen newAddr newLen : Nat}
    (hold : oldAddr % pageSize = 0 ∧ oldLen % pageSize = 0)
    (hnew : newAddr % pageSize = 0 ∧ newLen % pageSize = 0 ∧ newAddr + newLen < 2 ^ 39)
    (hs : splitMremapAttach l idx oldAddr oldLen newAddr newLen = some l') :
    ∃ a rest, l[idx]? = some a ∧ l.Perm (a :: rest) ∧ 0 < oldLen ∧ a.addr ≤ oldAddr ∧
      oldAddr + oldLen ≤ a.addr + a.len ∧ (∀ b ∈ l', b.Proper) ∧
      ∀ x, (marks l' x).Perm ((if newAddr ≤ x ∧ x < newAddr + newLen then [a.mark] else []) ++
          ((if a.Covers x ∧ ¬ (oldAddr ≤ x ∧ x < oldAddr + oldLen) then [a.mark] else []) ++
            marks rest x)) := by
  unfold splitMremapAttach at hs
  iterate 3
    split at hs
    · cases hs
  next a ha _ hin =>
  obtain ⟨hlt, rfl⟩ := List.getElem?_eq_some_iff.mp ha
  have hproper := h l[idx] (getElem_mem hlt)
  rw [hproper.stop_eq] at hin hs
  cases hs
  refine ⟨l[idx], l.eraseIdx idx, ha,
    (getElem_cons_eraseIdx_perm hlt).symm, by omega, by omega, by omega, ?_, ?_⟩
  · have hrests := @proper_rests _ _ (oldAddr + oldLen) hproper hold.1
      (by unfold pageSize at *; omega) (by omega)
    intro b hb
    rcases mem_append.mp (sortAttaches_perm.mem_iff.mp hb) with hb | hb
    · exact h b (eraseIdx_subset hb)
    rcases mem_append.mp hb with hb | hb
    · exact hrests b (mem_append_left _ hb)
    rcases mem_cons.mp hb with rfl | hb
    · refine hproper.part rfl ?_ hnew.1 hnew.2.1 hnew.2.2
      change 0 < newLen
      omega
    · exact hrests b (mem_append_right _ hb)
  · intro x
    refine (marks_perm (sortAttaches_perm.trans (perm_append_comm.trans
      (perm_middle.append_right (l.eraseIdx idx))))).trans (Perm.of_eq ?_)
    rw [cons_append, marks_cons, marks_append, marks_singleton]
    congr 1
    congr 1
    refine (marks_rests (Nat.le_add_right oldAddr oldLen)).trans (if_congr ?_ rfl rfl)
    change _ ↔ (l[idx].addr ≤ x ∧ x < l[idx].addr + l[idx].len) ∧ _
    omega

end Marks

end HitOS.Ipc
