import Mathlib

/-!
# Ordered finite maps

A finite map with linearly ordered keys, held as the list of its entries in strictly increasing key
order, with the operations of an ordered tree map: point lookup, insertion and removal, the
neighbour queries `lastLT` and `lastLE` (the greatest entry strictly below, or at most, a bound),
the half-open `range` scan, and the value-wise `mapVal` and `filterKey`.

The order of the entries is a field of the structure, so no lemma below carries a sortedness
hypothesis. Every operation is characterised through `get?`:

* `get?_insert`, `get?_erase`, `get?_mapVal`, `get?_filterKey` — the point updates;
* `lastLT_eq_some_iff`, `lastLE_eq_some_iff` — the neighbour queries;
* `mem_range_iff` with `range_sorted` — the scan, and the order it visits entries in;
* `ext` — two maps with the same lookups are equal.
-/

universe u v w

/-- A finite map from `K` to `V`, as its entries in strictly increasing key order. -/
structure OrdMap (K : Type u) (V : Type v) [LinearOrder K] where
  /-- The entries, in key order. -/
  entries : List (K × V)
  /-- Keys increase strictly along the list, so no key occurs twice. -/
  sorted : entries.Pairwise (fun a b => a.1 < b.1)
  deriving DecidableEq

namespace OrdMap

open List

variable {K : Type u} {V : Type v} {W : Type w} [LinearOrder K] {k k' : K} {v : V} (m : OrdMap K V)
  {l : List (K × V)} {e : K × V}

/-! ### Operations -/

/-- The map with no entry. -/
def empty : OrdMap K V := ⟨[], List.Pairwise.nil⟩

/-- The value stored under `k`. -/
def get? (k : K) : Option V := (m.entries.find? (fun e => e.1 = k)).map Prod.snd

/-- Whether some value is stored under `k`. -/
def containsKey (k : K) : Bool := (m.get? k).isSome

/-- The keys, in increasing order. -/
def keys : List K := m.entries.map Prod.fst

/-- The values, in increasing order of their keys. -/
def values : List V := m.entries.map Prod.snd

/-- The number of entries. -/
def size : Nat := m.entries.length

/-- Insertion into a sorted entry list: the entry of an equal key is replaced. -/
def insertEntry (k : K) (v : V) : List (K × V) → List (K × V)
  | [] => [(k, v)]
  | e :: es =>
    if k < e.1 then (k, v) :: e :: es
    else if k = e.1 then (k, v) :: es
    else e :: insertEntry k v es

/-- What an insertion leaves in a sorted list: the new entry, and every entry of another key. -/
theorem mem_insertEntry (hl : l.Pairwise (fun a b => a.1 < b.1)) :
    e ∈ insertEntry k v l ↔ e = (k, v) ∨ (e ∈ l ∧ e.1 ≠ k) := by
  induction l with
  | nil => simp [insertEntry]
  | cons a l ih =>
    obtain ⟨ha, hl'⟩ := pairwise_cons.mp hl
    unfold insertEntry
    split
    · next hk =>
      -- the new key is below the head, hence below the whole list
      have hne b (hb : b ∈ a :: l) : b.1 ≠ k := by
        rcases mem_cons.mp hb with rfl | hb
        · exact ne_of_gt hk
        · exact ne_of_gt (hk.trans (ha b hb))
      constructor
      · intro he
        rcases mem_cons.mp he with rfl | he
        · exact .inl rfl
        · exact .inr ⟨he, hne e he⟩
      · rintro (rfl | ⟨he, -⟩)
        · exact .head _
        · exact .tail _ he
    · split
      · next hka =>
        constructor
        · intro he
          rcases mem_cons.mp he with rfl | he
          · exact .inl rfl
          · exact .inr ⟨.tail _ he, by rw [hka]; exact ne_of_gt (ha e he)⟩
        · rintro (rfl | ⟨he, hne⟩)
          · exact .head _
          · rcases mem_cons.mp he with rfl | he
            · exact absurd hka.symm hne
            · exact .tail _ he
      · next hka =>
        rw [mem_cons, ih hl', mem_cons]
        constructor
        · rintro (rfl | rfl | ⟨he, hne⟩)
          · exact .inr ⟨.inl rfl, fun h => hka h.symm⟩
          · exact .inl rfl
          · exact .inr ⟨.inr he, hne⟩
        · rintro (rfl | ⟨rfl | he, hne⟩)
          · exact .inr (.inl rfl)
          · exact .inl rfl
          · exact .inr (.inr ⟨he, hne⟩)

theorem insertEntry_sorted (hl : l.Pairwise (fun a b => a.1 < b.1)) :
    (insertEntry k v l).Pairwise (fun a b => a.1 < b.1) := by
  induction l with
  | nil => exact pairwise_singleton ..
  | cons a l ih =>
    obtain ⟨ha, hl'⟩ := pairwise_cons.mp hl
    unfold insertEntry
    split
    · next hk =>
      refine pairwise_cons.mpr ⟨fun b hb => ?_, hl⟩
      rcases mem_cons.mp hb with rfl | hb
      · exact hk
      · exact hk.trans (ha b hb)
    next hk =>
    split
    · next hka =>
      refine pairwise_cons.mpr ⟨fun b hb => ?_, hl'⟩
      rw [hka]
      exact ha b hb
    · next hka =>
      have hak : a.1 < k := lt_of_le_of_ne (not_lt.mp hk) fun h => hka h.symm
      refine pairwise_cons.mpr ⟨fun b hb => ?_, ih hl'⟩
      rcases (mem_insertEntry hl').mp hb with rfl | ⟨hb, -⟩
      · exact hak
      · exact ha b hb

/-- Store `v` under `k`, replacing what was there. -/
def insert (k : K) (v : V) : OrdMap K V :=
  ⟨insertEntry k v m.entries, insertEntry_sorted m.sorted⟩

/-- Keep the entries whose key satisfies `p`. -/
def filterKey (p : K → Bool) : OrdMap K V :=
  ⟨m.entries.filter (fun e => p e.1), m.sorted.filter _⟩

/-- Drop the entry of `k`. -/
def erase (k : K) : OrdMap K V := m.filterKey (fun k' => k' ≠ k)

/-- Apply `f` to every value. -/
def mapVal (f : V → W) : OrdMap K W :=
  ⟨m.entries.map (fun e => (e.1, f e.2)), by
    rw [List.pairwise_map]
    exact m.sorted⟩

/-- Keep the entries whose value satisfies `p`. -/
def filterVal (p : V → Bool) : OrdMap K V :=
  ⟨m.entries.filter (fun e => p e.2), m.sorted.filter _⟩

/-- The greatest entry with key strictly below `k`. -/
def lastLT (k : K) : Option (K × V) := (m.entries.filter (fun e => e.1 < k)).getLast?

/-- The greatest entry with key at most `k`. -/
def lastLE (k : K) : Option (K × V) := (m.entries.filter (fun e => e.1 ≤ k)).getLast?

/-- The entries with key in `[a, b)`, in key order. -/
def range (a b : K) : List (K × V) := m.entries.filter (fun e => a ≤ e.1 ∧ e.1 < b)

/-! ### Lookup -/

/-- Looking a key up in a sorted entry list finds exactly the entries of the list. -/
private theorem find?_key_eq_some_iff (hl : l.Pairwise (fun a b => a.1 < b.1)) {k : K} {v : V} :
    (l.find? (fun e => e.1 = k)).map Prod.snd = some v ↔ (k, v) ∈ l := by
  induction l with
  | nil => simp
  | cons a l ih =>
    obtain ⟨ha, hl'⟩ := pairwise_cons.mp hl
    by_cases hk : a.1 = k
    · rw [find?_cons_of_pos (by simpa using hk), mem_cons]
      constructor
      · intro hv
        left
        rw [← hk, ← Option.some.inj hv]
      · rintro (rfl | hmem)
        · rfl
        · exact absurd hk (ne_of_lt (ha _ hmem))
    · rw [find?_cons_of_neg (by simpa using hk), ih hl', mem_cons]
      constructor
      · exact .inr
      · rintro (rfl | hmem)
        · exact absurd rfl hk
        · exact hmem

variable {m}

/-- Lookup is membership among the entries. -/
theorem get?_eq_some_iff : m.get? k = some v ↔ (k, v) ∈ m.entries := find?_key_eq_some_iff m.sorted

theorem get?_eq_none_iff : m.get? k = none ↔ ∀ v, (k, v) ∉ m.entries := by
  rw [Option.eq_none_iff_forall_ne_some]
  exact forall_congr' fun v => not_congr get?_eq_some_iff

@[simp] theorem get?_empty : (empty : OrdMap K V).get? k = none := rfl

theorem get?_insert : (m.insert k v).get? k' = if k' = k then some v else m.get? k' := by
  refine Option.ext fun w => ?_
  rw [get?_eq_some_iff, insert, mem_insertEntry m.sorted]
  split
  · next h => subst h; simp [eq_comm]
  · next h => simp [h, get?_eq_some_iff]

@[simp] theorem get?_insert_self : (m.insert k v).get? k = some v := by
  rw [get?_insert, if_pos rfl]

theorem get?_filterKey {p : K → Bool} : (m.filterKey p).get? k = if p k then m.get? k else none := by
  refine Option.ext fun w => ?_
  rw [get?_eq_some_iff, filterKey]
  split
  · next h => simp [h, get?_eq_some_iff]
  · next h => simp [h]

theorem get?_erase : (m.erase k).get? k' = if k' = k then none else m.get? k' := by
  rw [erase, get?_filterKey]
  by_cases h : k' = k <;> simp [h]

theorem get?_mapVal {f : V → W} : (m.mapVal f).get? k = (m.get? k).map f := by
  refine Option.ext fun w => ?_
  rw [mapVal, Option.map_eq_some_iff]
  simp only [mem_map, Prod.mk.injEq, get?_eq_some_iff]
  constructor
  · rintro ⟨⟨k', v⟩, hmem, rfl, hf⟩
    exact ⟨v, hmem, hf⟩
  · rintro ⟨v, hmem, hf⟩
    exact ⟨(k, v), hmem, rfl, hf⟩

theorem get?_filterVal {p : V → Bool} : (m.filterVal p).get? k = (m.get? k).filter p := by
  refine Option.ext fun w => ?_
  rw [get?_eq_some_iff, filterVal, mem_filter, Option.filter_eq_some_iff, get?_eq_some_iff]

theorem entries_nodup (m : OrdMap K V) : m.entries.Nodup :=
  m.sorted.imp fun hab h => absurd (h ▸ hab) (lt_irrefl _)

/-- **Extensionality.** A sorted entry list is determined by its lookups. -/
theorem ext {m' : OrdMap K V} (h : ∀ k, m.get? k = m'.get? k) : m = m' := by
  have hmem e : e ∈ m.entries ↔ e ∈ m'.entries := by
    rw [← get?_eq_some_iff, h, get?_eq_some_iff]
  have hperm : m.entries.Perm m'.entries := (perm_ext_iff_of_nodup m.entries_nodup m'.entries_nodup).mpr hmem
  have heq : m.entries = m'.entries :=
    hperm.eq_of_pairwise (fun a b _ _ hab hba => absurd (hab.trans hba) (lt_irrefl _)) m.sorted m'.sorted
  cases m
  cases heq
  rfl

theorem mem_values_iff : v ∈ m.values ↔ ∃ k, m.get? k = some v := by
  simp [values, get?_eq_some_iff]

/-! ### Neighbour queries and scans -/

/-- The last entry of a sorted list that satisfies a downward-closed test is the greatest one. -/
private theorem getLast?_filter_eq_some_iff (hl : l.Pairwise (fun a b => a.1 < b.1)) (p : K → Bool) :
    (l.filter (fun e => p e.1)).getLast? = some e ↔ e ∈ l ∧ p e.1 ∧ ∀ e' ∈ l, p e'.1 → e'.1 ≤ e.1 := by
  have hs : (l.filter fun e => p e.1).Pairwise fun a b => a.1 < b.1 := hl.filter _
  constructor
  · intro h
    obtain ⟨ys, hys⟩ := getLast?_eq_some_iff.mp h
    have hmem : e ∈ l.filter fun e => p e.1 := by simp [hys]
    refine ⟨(mem_filter.mp hmem).1, (mem_filter.mp hmem).2, fun e' he' hp => ?_⟩
    have hmem' : e' ∈ ys ++ [e] := hys ▸ mem_filter.mpr ⟨he', hp⟩
    rcases mem_append.mp hmem' with h' | h'
    · exact le_of_lt ((pairwise_append.mp (hys ▸ hs)).2.2 e' h' e (mem_singleton.mpr rfl))
    · rw [mem_singleton.mp h']
  · rintro ⟨hmem, hp, hmax⟩
    have hf : e ∈ l.filter fun e => p e.1 := mem_filter.mpr ⟨hmem, hp⟩
    obtain ⟨a, ha⟩ : ∃ a, (l.filter fun e => p e.1).getLast? = some a := by
      rw [← Option.isSome_iff_exists, getLast?_isSome]
      exact ne_nil_of_mem hf
    obtain ⟨ys, hys⟩ := getLast?_eq_some_iff.mp ha
    have hal : a ∈ l.filter fun e => p e.1 := by simp [hys]
    have hle : a.1 ≤ e.1 := hmax a (mem_filter.mp hal).1 (mem_filter.mp hal).2
    rcases mem_append.mp (hys ▸ hf : e ∈ ys ++ [a]) with h' | h'
    · -- an entry before the last one has a smaller key, against `hmax`
      have hlt := (pairwise_append.mp (hys ▸ hs)).2.2 e h' a (mem_singleton.mpr rfl)
      exact absurd hle hlt.not_ge
    · rw [ha, mem_singleton.mp h']

theorem lastLT_eq_some_iff : m.lastLT k = some (k', v) ↔
      m.get? k' = some v ∧ k' < k ∧ ∀ k'' w, m.get? k'' = some w → k'' < k → k'' ≤ k' := by
  unfold lastLT
  rw [getLast?_filter_eq_some_iff m.sorted fun k' => decide (k' < k)]
  simp [get?_eq_some_iff]

theorem lastLE_eq_some_iff : m.lastLE k = some (k', v) ↔
      m.get? k' = some v ∧ k' ≤ k ∧ ∀ k'' w, m.get? k'' = some w → k'' ≤ k → k'' ≤ k' := by
  unfold lastLE
  rw [getLast?_filter_eq_some_iff m.sorted fun k' => decide (k' ≤ k)]
  simp [get?_eq_some_iff]

theorem mem_range_iff {a b : K} : (k, v) ∈ m.range a b ↔ m.get? k = some v ∧ a ≤ k ∧ k < b := by
  simp [range, get?_eq_some_iff]

/-- A scan visits its entries in strictly increasing key order. -/
theorem range_sorted (m : OrdMap K V) (a b : K) : (m.range a b).Pairwise (fun a b => a.1 < b.1) :=
  m.sorted.filter _

/-! ### Renaming keys -/

/-- Rename every key by `f`; `none` if some key has no new name. -/
def remapKeys (m : OrdMap K V) (f : K → Option K) : Option (OrdMap K V) :=
  m.entries.foldlM (fun acc e => (f e.1).map (fun k => acc.insert k e.2)) empty

/-! ### Sums over the values -/

/-- The sum of `f` over the values. -/
def sumBy (m : OrdMap K V) (f : V → Nat) : Nat := (m.values.map f).sum

theorem erase_insert_self : (m.insert k v).erase k = m.erase k := by
  refine ext fun _ => ?_
  rw [get?_erase, get?_erase, get?_insert]
  split <;> rfl

theorem keys_erase : (m.erase k).keys = m.keys.filter fun k' => k' ≠ k := by
  unfold keys erase filterKey
  rw [filter_map]
  rfl

theorem erase_erase_self : (m.erase k).erase k = m.erase k := by
  refine ext fun _ => ?_
  rw [get?_erase, get?_erase]
  split <;> rfl

/-- The value of a key is a summand of its own. -/
theorem sumBy_eq_erase_add (m : OrdMap K V) {f : V → Nat} :
    m.sumBy f = (m.erase k).sumBy f + ((m.get? k).map f).getD 0 := by
  cases hk : m.get? k with
  | none =>
    have herase : m.erase k = m := by
      refine ext fun _ => ?_
      rw [get?_erase]
      split
      · next h => rw [h, hk]
      · rfl
    rw [herase]
    rfl
  | some v =>
    have hperm : m.entries.Perm ((k, v) :: (m.erase k).entries) := by
      refine (perm_ext_iff_of_nodup m.entries_nodup ?_).mpr fun e => ?_
      · refine nodup_cons.mpr ⟨fun hmem => ?_, (m.erase k).entries_nodup⟩
        have hget := get?_eq_some_iff.mpr hmem
        rw [get?_erase, if_pos rfl] at hget
        cases hget
      · obtain ⟨k', w⟩ := e
        rw [mem_cons, ← get?_eq_some_iff, ← get?_eq_some_iff, get?_erase]
        by_cases h : k' = k
        · subst h
          simp [hk, eq_comm]
        · simp [h]
    have hsum := ((hperm.map Prod.snd).map f).sum_nat
    rw [sumBy, values, hsum, Nat.add_comm]
    rfl

theorem size_eq_sumBy : m.size = m.sumBy fun _ => 1 := by
  rw [sumBy, map_const', sum_replicate_nat, Nat.mul_one, values, length_map]
  rfl

theorem size_erase (h : m.get? k = some v) : (m.erase k).size + 1 = m.size := by
  rw [size_eq_sumBy, size_eq_sumBy, sumBy_eq_erase_add m, h]
  rfl

theorem size_insert (h : m.get? k = none) : (m.insert k v).size = m.size + 1 := by
  rw [size_eq_sumBy, size_eq_sumBy, sumBy_eq_erase_add (m.insert k v), sumBy_eq_erase_add m,
    erase_insert_self, get?_insert_self, h]
  rfl

end OrdMap
