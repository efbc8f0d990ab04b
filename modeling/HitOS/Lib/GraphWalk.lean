import HitOS.Lib.Digraph

/-!
# Recursive walks over a graph

Walks that call themselves for each successor of a node, with a set of visited nodes to end them on
a cycle, and how deep they go. `searchFrom` keeps what it visited; `depthFrom` forgets a node when
it leaves it. Both are run with a bound on the nesting of the calls and end within the height of the
node they start from (`HeightLe`); in an acyclic graph with finitely many nodes every node has a
height (`Acyclic.heightLe`).

* `searchFrom_false` — a search that finds nothing has seen all that can be reached;
* `depthFrom_spec` — the depth is the length of the longest chain;
* `chains_of_add` — what an edge that closes no cycle does to the chains.
-/

namespace Digraph

open List Nat

open Relation (ReflTransGen TransGen)

universe u

variable {α : Type u} {R : α → α → Prop} {a : α} {n : Nat} {as : List α} {succ : α → List α}

section Height

/-- No chain from the node has more than `n` nodes. -/
def HeightLe (R : α → α → Prop) : Nat → α → Prop
  | 0, _ => False
  | n + 1, a => ∀ b, R a b → HeightLe R n b

theorem HeightLe.mono {m : Nat} (h : HeightLe R n a) (hle : n ≤ m) : HeightLe R m a := by
  induction n generalizing m a with
  | zero => exact h.elim
  | succ n ih =>
    obtain ⟨m, rfl⟩ : ∃ k, m = k + 1 := ⟨m - 1, by omega⟩
    exact fun b hb => ih (h b hb) (le_of_succ_le_succ hle)

theorem heightLe_iff : HeightLe R n a ↔ ∀ l, List.IsChain R (a :: l) → l.length < n := by
  induction n generalizing a with
  | zero => exact ⟨False.elim, fun h => not_lt_zero _ (h [] (isChain_singleton a))⟩
  | succ n ih =>
    constructor
    · intro h l hl
      cases l with
      | nil => exact succ_pos n
      | cons b l =>
        rw [isChain_cons_cons] at hl
        exact succ_lt_succ (ih.mp (h b hl.1) l hl.2)
    · intro h b hb
      refine ih.mpr fun l hl => lt_of_succ_lt_succ ?_
      exact h (b :: l) (isChain_cons_cons.mpr ⟨hb, hl⟩)

variable {l : List α}

theorem reaches_of_chain {b : α} (h : List.IsChain R (a :: l)) (hb : b ∈ a :: l) : ReflTransGen R a b := by
  induction l generalizing a with
  | nil => rw [mem_singleton.mp hb]
  | cons c l ih =>
    rw [isChain_cons_cons] at h
    rcases mem_cons.mp hb with rfl | hb
    · exact .refl
    · exact .head h.1 (ih h.2 hb)

/-- Chains of an acyclic graph do not return. -/
theorem Acyclic.nodup_of_chain (hacyclic : Acyclic R) (h : List.IsChain R l) : l.Nodup := by
  induction l with
  | nil => exact nodup_nil
  | cons a l ih =>
    refine nodup_cons.mpr ⟨fun ha => ?_, ih (isChain_cons.mp h).2⟩
    cases l with
    | nil => cases ha
    | cons =>
      rw [isChain_cons_cons] at h
      exact hacyclic a (TransGen.head' h.1 (reaches_of_chain h.2 ha))

/-- **Heights are finite** where edges lead to finitely many nodes. -/
theorem Acyclic.heightLe (hacyclic : Acyclic R) {dom : List α} (hdom : ∀ a b, R a b → b ∈ dom) (a : α) :
    HeightLe R (dom.length + 1) a := by
  refine heightLe_iff.mpr fun l hl => lt_succ_of_le ?_
  -- a chain has no node twice, and after its first node all are in the list
  have hsub : l ⊆ dom := by
    intro b hb
    induction l generalizing a with
    | nil => cases hb
    | cons c l ih =>
      rw [isChain_cons_cons] at hl
      rcases mem_cons.mp hb with rfl | hb
      · exact hdom a _ hl.1
      · exact ih c hl.2 hb
  have hnodup := (nodup_cons.mp (hacyclic.nodup_of_chain hl)).2
  exact (subperm_of_subset hnodup hsub).length_le

end Height

/-! ### Searching -/

section Search

variable {visited visited' : List α}

/-- One node after the other is searched, until the target is found. -/
def searchEach (visit : α → List α → Option (Bool × List α)) : List α → List α → Option (Bool × List α)
  | [], visited => some (false, visited)
  | a :: as, visited =>
    match visit a visited with
    | none => none
    | some (true, visited) => some (true, visited)
    | some (false, visited) => searchEach visit as visited

variable [DecidableEq α]

/-- **The recursive search** for a target, with what was visited before and after; `none` if the
calls nest deeper than the bound. -/
def searchFrom (succ : α → List α) (target : α) : Nat → α → List α → Option (Bool × List α)
  | 0, _, _ => none
  | fuel + 1, a, visited =>
    if a ∈ visited then some (false, visited)
    else if a = target then some (true, a :: visited)
    else searchEach (searchFrom succ target fuel) (succ a) (a :: visited)

variable {target : α} {visit : α → List α → Option (Bool × List α)}

omit [DecidableEq α] in
theorem searchEach_returns (h : ∀ a ∈ as, ∀ visited, ∃ r, visit a visited = some r) (visited : List α) :
    ∃ r, searchEach visit as visited = some r := by
  induction as generalizing visited with
  | nil => exact ⟨_, rfl⟩
  | cons a _ ih =>
    obtain ⟨⟨found, visited'⟩, hr⟩ := h a (.head _) visited
    simp only [searchEach, hr]
    cases found with
    | true => exact ⟨_, rfl⟩
    | false => exact ih (fun b hb => h b (.tail _ hb)) visited'

theorem searchFrom_returns (h : HeightLe (fun a b => b ∈ succ a) n a) (visited : List α) :
    ∃ r, searchFrom succ target n a visited = some r := by
  induction n generalizing a visited with
  | zero => exact h.elim
  | succ n ih =>
    unfold searchFrom
    split
    · exact ⟨_, rfl⟩
    · split
      · exact ⟨_, rfl⟩
      · exact searchEach_returns (fun b hb visited => ih (h b hb) visited) _

/-- What a search without a result leaves: the nodes it started with, and others none of which is
the target or leads out. -/
structure Explored (succ : α → List α) (target : α) (visited visited' : List α) : Prop where
  subset : ∀ x ∈ visited, x ∈ visited'
  closed : ∀ x ∈ visited', x ∈ visited ∨ x ≠ target ∧ ∀ b ∈ succ x, b ∈ visited'

omit [DecidableEq α] in
theorem Explored.trans {v₁ v₂ v₃ : List α} (h : Explored succ target v₁ v₂) (h' : Explored succ target v₂ v₃) :
    Explored succ target v₁ v₃ where
  subset x hx := h'.subset x (h.subset x hx)
  closed x hx := by
    rcases h'.closed x hx with hx | hx
    · rcases h.closed x hx with hx | ⟨hne, hsucc⟩
      · exact .inl hx
      · exact .inr ⟨hne, fun b hb => h'.subset b (hsucc b hb)⟩
    · exact .inr hx

omit [DecidableEq α] in
theorem searchEach_false
    (hvisit : ∀ a ∈ as, ∀ v v', visit a v = some (false, v') → Explored succ target v v' ∧ a ∈ v')
    (h : searchEach visit as visited = some (false, visited')) :
    Explored succ target visited visited' ∧ ∀ a ∈ as, a ∈ visited' := by
  induction as generalizing visited with
  | nil =>
    cases h
    exact ⟨⟨fun _ hx => hx, fun _ hx => .inl hx⟩, fun _ ha => absurd ha not_mem_nil⟩
  | cons a _ ih =>
    rw [searchEach] at h
    split at h
    · cases h
    · cases h
    -- what the first search has seen stays seen
    next mid hmid =>
    obtain ⟨hfirst, ha⟩ := hvisit a (.head _) visited mid hmid
    obtain ⟨hrest, has⟩ := ih (fun b hb => hvisit b (.tail _ hb)) h
    refine ⟨hfirst.trans hrest, fun b hb => ?_⟩
    rcases mem_cons.mp hb with rfl | hb
    · exact hrest.subset _ ha
    · exact has b hb

theorem searchFrom_explored (h : searchFrom succ target n a visited = some (false, visited')) :
    Explored succ target visited visited' ∧ a ∈ visited' := by
  induction n generalizing a visited visited' with
  | zero => cases h
  | succ n ih =>
    rw [searchFrom] at h
    split at h
    · next hseen =>
      cases h
      exact ⟨⟨fun _ hx => hx, fun _ hx => .inl hx⟩, hseen⟩
    split at h
    · cases h
    next htarget =>
    -- the node itself is marked before its successors are searched
    obtain ⟨hrest, hsucc⟩ := searchEach_false (fun _ _ _ _ => ih) h
    have ha := hrest.subset a (.head _)
    refine ⟨⟨fun x hx => hrest.subset x (.tail _ hx), fun x hx => ?_⟩, ha⟩
    rcases hrest.closed x hx with hx | hx
    · rcases mem_cons.mp hx with rfl | hx
      · exact .inr ⟨htarget, hsucc⟩
      · exact .inl hx
    · exact .inr hx

/-- **A search that finds nothing**: no path leads to the target. -/
theorem searchFrom_false (h : searchFrom succ target n a [] = some (false, visited)) :
    ¬ ReflTransGen (fun a b => b ∈ succ a) a target := by
  obtain ⟨hexplored, ha⟩ := searchFrom_explored h
  have hclosed x (hx : x ∈ visited) : x ≠ target ∧ ∀ b ∈ succ x, b ∈ visited :=
    (hexplored.closed x hx).resolve_left not_mem_nil
  -- the visited nodes are closed under edges, so all that is reached is among them
  have hmem b (hpath : ReflTransGen (fun a b => b ∈ succ a) a b) : b ∈ visited := by
    induction hpath with
    | refl => exact ha
    | tail _ hstep ih => exact (hclosed _ ih).2 _ hstep
  exact fun hpath => (hclosed target (hmem target hpath)).1 rfl

end Search

/-! ### Depth -/

section Depth

variable {visit : α → Option Nat}

/-- The greatest of a depth and one more than the depths of some nodes. -/
def deepest (visit : α → Option Nat) : List α → Nat → Option Nat
  | [], depth => some depth
  | a :: as, depth =>
    match visit a with
    | none => none
    | some d => deepest visit as (max depth (1 + d))

theorem deepest_returns (h : ∀ a ∈ as, ∃ d, visit a = some d)
    (depth : Nat) : ∃ d, deepest visit as depth = some d := by
  induction as generalizing depth with
  | nil => exact ⟨_, rfl⟩
  | cons a _ ih =>
    obtain ⟨d, hd⟩ := h a (.head _)
    simp only [deepest, hd]
    exact ih (fun b hb => h b (.tail _ hb)) _

theorem deepest_spec {depth d : Nat} (h : deepest visit as depth = some d) :
    depth ≤ d ∧ (∀ a ∈ as, ∃ k, visit a = some k ∧ 1 + k ≤ d) ∧
      (d = depth ∨ ∃ a ∈ as, ∃ k, visit a = some k ∧ d = 1 + k) := by
  induction as generalizing depth with
  | nil =>
    cases h
    exact ⟨le_rfl, nofun, .inl rfl⟩
  | cons a _ ih =>
    rw [deepest] at h
    split at h
    · cases h
    next k hk =>
    obtain ⟨hle, hall, heq⟩ := ih h
    refine ⟨by omega, fun b hb => ?_, ?_⟩
    · rcases mem_cons.mp hb with rfl | hb
      · exact ⟨k, hk, by omega⟩
      · exact hall b hb
    rcases heq with heq | ⟨b, hb, hdeep⟩
    · rcases le_total depth (1 + k) with hmax | hmax
      · exact .inr ⟨a, (.head _), k, hk, by omega⟩
      · exact .inl (by omega)
    · exact .inr ⟨b, .tail _ hb, hdeep⟩

variable [DecidableEq α]

/-- **The recursive depth** of a node; a node that is being visited has none. -/
def depthFrom (succ : α → List α) : Nat → α → List α → Option Nat
  | 0, _, _ => none
  | fuel + 1, a, visited =>
    if a ∈ visited then some 0
    else deepest (fun b => depthFrom succ fuel b (a :: visited)) (succ a) 1

theorem depthFrom_returns (h : HeightLe (fun a b => b ∈ succ a) n a) (visited : List α) :
    ∃ d, depthFrom succ n a visited = some d := by
  induction n generalizing a visited with
  | zero => exact h.elim
  | succ n ih =>
    unfold depthFrom
    split
    · exact ⟨_, rfl⟩
    · exact deepest_returns (fun b hb => ih (h b hb) _) 1

/-- In an acyclic graph the depth is the number of nodes of the longest chain. -/
theorem depthFrom_spec (hacyclic : Acyclic fun a b => b ∈ succ a) {d : Nat} {visited : List α}
    (hvisited : ∀ x ∈ visited, ¬ ReflTransGen (fun a b => b ∈ succ a) a x)
    (h : depthFrom succ n a visited = some d) :
    HeightLe (fun a b => b ∈ succ a) d a ∧ ∃ l, List.IsChain (fun a b => b ∈ succ a) (a :: l) ∧
      l.length + 1 = d := by
  induction n generalizing a visited d with
  | zero => cases h
  | succ n ih =>
    rw [depthFrom, if_neg fun ha => hvisited a ha .refl] at h
    -- no successor leads back to a node that is being visited
    have hnext : ∀ b ∈ succ a, ∀ x ∈ a :: visited, ¬ ReflTransGen (fun a b => b ∈ succ a) b x := by
      intro b hb x hx hpath
      rcases mem_cons.mp hx with rfl | hx
      · exact hacyclic x (TransGen.head' hb hpath)
      · exact hvisited x hx (.head hb hpath)
    obtain ⟨-, hall, heq⟩ := deepest_spec h
    obtain ⟨d, rfl⟩ : ∃ k, d = k + 1 := ⟨d - 1, by omega⟩
    refine ⟨fun b hb => ?_, ?_⟩
    · obtain ⟨k, hk, hle⟩ := hall b hb
      exact (ih (hnext b hb) hk).1.mono (by omega)
    -- the chain of the deepest successor, with the node in front
    rcases heq with heq | ⟨b, hb, k, hk, heq⟩
    · exact ⟨[], isChain_singleton a, by simp only [length_nil]; omega⟩
    · obtain ⟨l, hl, hlen⟩ := (ih (hnext b hb) hk).2
      exact ⟨b :: l, isChain_cons_cons.mpr ⟨hb, hl⟩, by simp only [length_cons]; omega⟩

end Depth

/-! ### Chains and a new edge -/

section NewEdge

variable {R' : α → α → Prop} {p c : α}

/-- A chain has at most one new edge, as no old path leads back to it. -/
theorem chain_split (hle : ∀ a b, R' a b → R a b ∨ a = p ∧ b = c) (hback : ¬ ReflTransGen R c p)
    (h : List.IsChain R' l) :
    List.IsChain R l ∨ ∃ l₁ l₂, l = l₁ ++ p :: c :: l₂ ∧ List.IsChain R (l₁ ++ [p]) ∧ List.IsChain R
      (c :: l₂) := by
  induction l with
  | nil => exact .inl isChain_nil
  | cons a l ih =>
    cases l with
    | nil => exact .inl (isChain_singleton a)
    | cons b l =>
    rw [isChain_cons_cons] at h
    rcases hle a b h.1 with hold | ⟨rfl, rfl⟩
    · -- an old edge in front
      rcases ih h.2 with hchain | ⟨l₁, l₂, heq, hup, hdown⟩
      · exact .inl (isChain_cons_cons.mpr ⟨hold, hchain⟩)
      refine .inr ⟨a :: l₁, l₂, by rw [heq, cons_append], ?_, hdown⟩
      rw [cons_append, isChain_cons]
      refine ⟨fun y hy => ?_, hup⟩
      -- the first node of what follows is the same in both lists
      have hfirst : (l₁ ++ [p]).head? = some b := by
        have := congrArg head? heq
        cases l₁ with
        | nil | cons => exact this.symm
      rw [hfirst] at hy
      cases hy
      exact hold
    · rcases ih h.2 with hchain | ⟨l₁, l₂, heq, hup, -⟩
      · exact .inr ⟨[], l, rfl, isChain_singleton a, hchain⟩
      -- the new edge again: the old chain before it leads back
      refine absurd ?_ hback
      cases l₁ with
      | nil =>
        obtain ⟨rfl, -⟩ := cons.inj heq
        exact .refl
      | cons d l₁ =>
        obtain ⟨rfl, -⟩ := cons.inj heq
        exact reaches_of_chain hup (mem_append_right (_ :: l₁) (mem_singleton_self a))

/-- **The chains with a new edge** are within a bound exactly if those through the edge are. -/
theorem chains_of_add (hle : ∀ a b, R' a b → R a b ∨ a = p ∧ b = c) (hsub : ∀ a b, R a b → R' a b)
    (hnew : R' p c) (hback : ¬ ReflTransGen R c p) (hold : ∀ l, List.IsChain R l → l.length ≤ n) :
    (∀ l, List.IsChain R' l → l.length ≤ n) ↔
      ∀ l₁ l₂, List.IsChain R (l₁ ++ [p]) → List.IsChain R (c :: l₂) →
        l₁.length + 1 + (l₂.length + 1) ≤ n := by
  constructor
  · intro h l₁ l₂ hup hdown
    have hchain : IsChain R' (l₁ ++ p :: c :: l₂) :=
      isChain_append_cons_cons.mpr ⟨hup.imp hsub, hnew, hdown.imp hsub⟩
    have hlen := h _ hchain
    simp only [length_append, length_cons] at hlen
    omega
  · intro h l hl
    rcases chain_split hle hback hl with hl | ⟨l₁, l₂, rfl, hup, hdown⟩
    · exact hold l hl
    · have hlen := h l₁ l₂ hup hdown
      simp only [length_append, length_cons]
      omega

end NewEdge

end Digraph
