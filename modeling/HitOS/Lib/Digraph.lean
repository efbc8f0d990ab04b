import HitOS.Lib.FuelLoop

/-!
# Directed graphs

Searching a graph and extending it without closing a cycle. `search` is a depth-first search with a
stack and a set of visited nodes; `search_iff` says that it finds the target exactly if a path leads
there.

A graph stays acyclic when edges are added at a node that is not reached from where they lead
(`acyclic_of_add`), and when edges are added into a node that no edge leaves (`acyclic_of_sink`).
-/

namespace Digraph

open List FuelLoop Sum

open Relation (ReflTransGen TransGen reflTransGen_iff_eq)

universe u

/-! ### Searching -/

section Search

variable {α : Type u} [DecidableEq α]

/-- What is still to be looked at, the next one first, and what was. -/
structure Frontier (α : Type u) where
  stack : List α
  visited : List α

/-- A round of the search: `true` if the target is on top of the stack, `false` if the stack is
empty. -/
def searchRound (succ : α → List α) (target : α) (f : Frontier α) : Bool ⊕ Frontier α :=
  match f.stack with
  | [] => .inl false
  | a :: stack =>
    if a = target then .inl true
    else if a ∈ f.visited then .inr ⟨stack, f.visited⟩
    else .inr ⟨((succ a).filter (· ∉ a :: f.visited)).reverse ++ stack, a :: f.visited⟩

/-- What is left to do: the stack, and what the nodes that were not visited can still put on it. -/
def work (succ : α → List α) (dom : List α) (f : Frontier α) : Nat :=
  f.stack.length + ((dom.filter (· ∉ f.visited)).map fun a => (succ a).length + 1).sum

/-- **The search** for `target` from `start`. Only the nodes in `dom` have successors. -/
def search (succ : α → List α) (dom : List α) (target : α) (start : List α) : Bool :=
  let first : Frontier α := ⟨start.reverse, []⟩
  (run (searchRound succ target) (work succ dom first + 1) first).getD false

variable {succ : α → List α} {dom : List α} {target : α} {start : List α}

/-- Visiting a node takes it out of the sum. -/
theorem sum_visit {f : α → Nat} {a : α} {visited : List α} (hdom : a ∈ dom) (hnew : a ∉ visited) :
    ((dom.filter (· ∉ a :: visited)).map f).sum + f a ≤ ((dom.filter (· ∉ visited)).map f).sum := by
  induction dom with
  | nil => cases hdom
  | cons d dom ih =>
    by_cases hd : d = a
    · subst hd
      have hsub : ((dom.filter (· ∉ d :: visited)).map f).sum ≤ ((dom.filter (· ∉ visited)).map f).sum := by
        refine ((Sublist.map f ?_).sum_le_sum fun _ _ => Nat.zero_le _)
        exact monotone_filter_right _ fun x hx => by
          simp only [mem_cons, not_or, decide_eq_true_eq] at hx ⊢
          exact hx.2
      simp only [filter_cons, mem_cons, true_or, not_true, decide_false, Bool.false_eq_true,
        if_false, hnew, not_false_eq_true, decide_true, if_true, map_cons, sum_cons] at hsub ⊢
      omega
    · have ih := ih ((mem_cons.mp hdom).resolve_left fun h => hd h.symm)
      by_cases hv : d ∈ visited
      · simpa [hv] using ih
      · simp only [filter_cons, mem_cons, hd, hv, or_false, not_false_eq_true, decide_true, if_true,
          map_cons, sum_cons] at ih ⊢
        omega

/-- A round makes the work less. -/
theorem work_lt (hdom : ∀ a, a ∉ dom → succ a = []) {f f' : Frontier α}
    (h : searchRound succ target f = .inr f') : work succ dom f' < work succ dom f := by
  obtain ⟨stack, visited⟩ := f
  unfold searchRound at h
  cases stack with
  | nil => cases h
  | cons a =>
  dsimp only at h
  split at h
  · cases h
  split at h
  · obtain rfl := inr.inj h
    simp [work]
  next hvisited =>
  obtain rfl := inr.inj h
  have hpushed : ((succ a).filter (· ∉ a :: visited)).length ≤ (succ a).length := length_filter_le ..
  simp only [work, length_append, length_reverse, length_cons]
  by_cases ha : a ∈ dom
  · have hsum := sum_visit (f := fun a => (succ a).length + 1) ha hvisited
    omega
  -- nothing is pushed, and the sum does not count the node
  have hnone : ((succ a).filter (· ∉ a :: visited)).length = 0 := by rw [hdom a ha]; rfl
  have hsame : dom.filter (· ∉ a :: visited) = dom.filter (· ∉ visited) := by
    refine filter_congr fun x hx => ?_
    have hne : x ≠ a := fun h => ha (h ▸ hx)
    simp [hne]
  rw [hsame]
  omega

/-- What holds of the search at all times. -/
structure SearchInv (succ : α → List α) (target : α) (start : List α) (f : Frontier α) : Prop where
  sound : ∀ a ∈ f.stack, ∃ s ∈ start, ReflTransGen (fun a b => b ∈ succ a) s a
  covers : ∀ s ∈ start, s ∈ f.stack ∨ s ∈ f.visited
  closed : ∀ a ∈ f.visited, a ≠ target ∧ ∀ b ∈ succ a, b ∈ f.stack ∨ b ∈ f.visited

theorem SearchInv.round {f f' : Frontier α} (h : SearchInv succ target start f)
    (hround : searchRound succ target f = .inr f') : SearchInv succ target start f' := by
  obtain ⟨stack, visited⟩ := f
  unfold searchRound at hround
  cases stack with
  | nil => cases hround
  | cons a stack =>
  dsimp only at hround
  split at hround
  · cases hround
  next htarget =>
  have hpop x (hx : x ∈ a :: stack ∨ x ∈ visited) : x = a ∨ x ∈ stack ∨ x ∈ visited := by
    rwa [mem_cons, or_assoc] at hx
  split at hround
  · next hvisited =>
    obtain rfl := inr.inj hround
    have hkeep x (hx : x ∈ a :: stack ∨ x ∈ visited) : x ∈ stack ∨ x ∈ visited :=
      (hpop x hx).elim (fun h => .inr (h ▸ hvisited)) id
    exact ⟨fun x hx => h.sound x (.tail _ hx), fun s hs => hkeep s (h.covers s hs),
      fun x hx => ⟨(h.closed x hx).1, fun b hb => hkeep b ((h.closed x hx).2 b hb)⟩⟩
  obtain rfl := inr.inj hround
  have hmem x : x ∈ ((succ a).filter (· ∉ a :: visited)).reverse ++ stack ↔
      (x ∈ succ a ∧ x ∉ a :: visited) ∨ x ∈ stack := by
    simp [mem_filter]
  have hkeep x (hx : x ∈ a :: stack ∨ x ∈ visited) :
      x ∈ ((succ a).filter (· ∉ a :: visited)).reverse ++ stack ∨ x ∈ a :: visited := by
    rcases hpop x hx with rfl | hx | hx
    · exact .inr (.head _)
    · exact .inl (mem_append_right _ hx)
    · exact .inr (.tail _ hx)
  refine ⟨fun x hx => ?_, fun s hs => hkeep s (h.covers s hs), fun x hx => ?_⟩
  · rcases (hmem x).mp hx with ⟨hx, -⟩ | hx
    · obtain ⟨s, hs, hpath⟩ := h.sound a (.head _)
      exact ⟨s, hs, hpath.tail hx⟩
    · exact h.sound x (.tail _ hx)
  · rcases mem_cons.mp hx with rfl | hx
    · refine ⟨htarget, fun b hb => ?_⟩
      by_cases hseen : b ∈ x :: visited
      · exact .inr hseen
      · exact .inl ((hmem b).mpr (.inl ⟨hb, hseen⟩))
    · exact ⟨(h.closed x hx).1, fun b hb => hkeep b ((h.closed x hx).2 b hb)⟩

/-- What a result means. -/
theorem SearchInv.result {f : Frontier α} {r : Bool} (h : SearchInv succ target start f)
    (hround : searchRound succ target f = .inl r) :
    r = true ↔ ∃ s ∈ start, ReflTransGen (fun a b => b ∈ succ a) s target := by
  obtain ⟨stack, visited⟩ := f
  unfold searchRound at hround
  cases stack with
  | nil =>
    obtain rfl := inl.inj hround
    refine iff_of_false Bool.false_ne_true ?_
    rintro ⟨s, hs, hpath⟩
    -- all that is reached was visited, the target was not
    have hvisited b (hb : ReflTransGen (fun a b => b ∈ succ a) s b) : b ∈ visited := by
      induction hb with
      | refl => exact (h.covers s hs).resolve_left not_mem_nil
      | tail _ hstep ih => exact ((h.closed _ ih).2 _ hstep).resolve_left not_mem_nil
    exact (h.closed target (hvisited target hpath)).1 rfl
  | cons a =>
    dsimp only at hround
    split at hround
    · next htarget =>
      obtain rfl := inl.inj hround
      exact iff_of_true rfl (htarget ▸ h.sound a (.head _))
    · split at hround <;> cases hround

/-- **The search ends.** -/
theorem search_returns (hdom : ∀ a, a ∉ dom → succ a = []) :
    run (searchRound succ target) (work succ dom ⟨start.reverse, []⟩ + 1) ⟨start.reverse, []⟩ =
      some (search succ dom target start) := by
  obtain ⟨r, hr⟩ : ∃ r, run (searchRound succ target) _ ⟨start.reverse, []⟩ = some r :=
    run_of_measure (fun _ _ _ h => ⟨trivial, work_lt hdom h⟩) trivial
      (Nat.lt_succ_self _)
  unfold search
  dsimp only
  rw [hr, Option.getD_some]

/-- **The search finds the target exactly if a path leads there.** -/
theorem search_iff (hdom : ∀ a, a ∉ dom → succ a = []) : search succ dom target start = true ↔
    ∃ s ∈ start, ReflTransGen (fun a b => b ∈ succ a) s target := by
  have hinit : SearchInv succ target start ⟨start.reverse, []⟩ :=
    ⟨fun a ha => ⟨a, mem_reverse.mp ha, .refl⟩, fun s hs => .inl (mem_reverse.mpr hs), nofun⟩
  obtain ⟨f, hreach, hresult⟩ := run_eq_some (search_returns hdom)
  have hinv : SearchInv succ target start f := by
    refine Reachable.invariant ?_ ?_ hreach
    · rintro _ rfl
      exact hinit
    · exact fun _ _ h hround => h.round hround
  exact hinv.result hresult

end Search

/-! ### Acyclic graphs -/

section Acyclic

variable {α : Type u} {R R' : α → α → Prop} {p a : α}

/-- No path leads back to where it started. -/
def Acyclic (R : α → α → Prop) : Prop := ∀ a, ¬ TransGen R a a

/-- On the way to a node its own edges do not matter. -/
theorem path_mono_to (hle : ∀ a b, a ≠ p → R a b → R' a b) (h : ReflTransGen R a p) : ReflTransGen R' a p := by
  induction h using ReflTransGen.head_induction_on with
  | refl => exact .refl
  | @head a b hab _ ih =>
    by_cases ha : a = p
    · exact ha ▸ .refl
    · exact .head (hle a b ha hab) ih

theorem Acyclic.mono (h : Acyclic R) (hle : ∀ a b, R' a b → R a b) : Acyclic R' :=
  fun a hpath => h a (TransGen.mono hle a a hpath)

/-- Where all new edges lead into `p`, and none leaves it, a path to another node has no new
edge. -/
theorem path_of_sink (hsink : ∀ b, ¬ R' p b) (hle : ∀ a b, R' a b → b ≠ p → R a b) {b : α}
    (h : ReflTransGen R' a b) (hb : b ≠ p) : ReflTransGen R a b := by
  induction h using ReflTransGen.head_induction_on with
  | refl => exact .refl
  | head hstep hrest ih =>
    refine .head (hle _ _ hstep ?_) ih
    rintro rfl
    exact hb ((reflTransGen_iff_eq hsink).mp hrest)

theorem acyclic_of_sink (h : Acyclic R) (hsink : ∀ b, ¬ R' p b) (hle : ∀ a b, R' a b → b ≠ p → R a b) :
    Acyclic R' := by
  intro a hpath
  obtain ⟨b, hfirst, hrest⟩ := TransGen.head'_iff.mp hpath
  have ha : a ≠ p := by
    rintro rfl
    exact hsink b hfirst
  have hb : b ≠ p := by
    rintro rfl
    exact ha ((reflTransGen_iff_eq hsink).mp hrest)
  exact h a (TransGen.head' (hle a b hfirst hb) (path_of_sink hsink hle hrest ha))

/-- Where all new edges leave `p`, and `p` is not reached from where they lead, no cycle is
closed. -/
theorem acyclic_of_add (h : Acyclic R) (hle : ∀ a b, R' a b → R a b ∨ a = p)
    (hnew : ∀ b, R' p b → ¬ ReflTransGen R b p) : Acyclic R' := by
  have hnot : ¬ TransGen R' p p := by
    intro hpath
    obtain ⟨b, hfirst, hrest⟩ := TransGen.head'_iff.mp hpath
    -- a path that ends in `p` has an old one to `p` behind its last visit
    exact hnew b hfirst (path_mono_to (fun a b ha hab => (hle a b hab).resolve_right ha) hrest)
  -- a path has old edges only, or leads through `p`
  have hsplit a b (hpath : TransGen R' a b) : TransGen R a b ∨ ReflTransGen R' a p ∧ TransGen R' p b := by
    induction hpath with
    | single hstep =>
      rcases hle _ _ hstep with hold | rfl
      · exact .inl (.single hold)
      · exact .inr ⟨.refl, .single hstep⟩
    | tail hpath hstep ih =>
      rcases ih with hold | ⟨hto, hfrom⟩
      · rcases hle _ _ hstep with hold' | rfl
        · exact .inl (hold.tail hold')
        · exact .inr ⟨hpath.to_reflTransGen, .single hstep⟩
      · exact .inr ⟨hto, hfrom.tail hstep⟩
  intro a hpath
  rcases hsplit a a hpath with hold | ⟨hto, hfrom⟩
  · exact h a hold
  · exact hnot (hfrom.trans_left hto)

end Acyclic

end Digraph
