import HitOS.Mm.Flags

/-!
# The page table

The leaf level of the Sv39 `PageTable` of `page_table.rs`, as the valid entry of each virtual page.
A `Pte` carries its valid bit as a field, so an entry that is stored is one `is_valid` accepts. The
three levels and the frames that hold them are not represented, nor are the kernel's own mappings,
which every user table shares and no user operation touches.

`map` asserts that the page is not mapped yet, and `unmap` that it is. An operation whose assertion
fails returns `none`: the kernel panics there.

* `mapAll_spec` — mapping distinct unmapped pages one after the other succeeds and adds just these.
-/

namespace HitOS

open List Function

/-- A valid leaf entry. -/
structure Pte where
  ppn : Nat
  flags : PTEFlags
  /-- The entry is valid. -/
  valid : flags.v = true
  deriving DecidableEq, Repr

/-- `PageTableEntry::new(ppn, flags | V)`. -/
def Pte.new (ppn : Nat) (flags : PTEFlags) : Pte := ⟨ppn, { flags with v := true }, rfl⟩

/-- Writing an entry with its own frame and flags writes the entry. -/
@[simp] theorem Pte.new_self {pte : Pte} : Pte.new pte.ppn pte.flags = pte := by
  obtain ⟨_, ⟨_, _, _, _, _, _, _, _, _, _⟩, hv⟩ := pte
  cases hv
  rfl

/-- The valid leaf entry of each virtual page. -/
abbrev PageTable := Nat → Option Pte

namespace PageTable

/-- No page is mapped. -/
def new : PageTable := fun _ => none

variable (pt : PageTable)

/-- Write the entry of `vpn`. -/
def put (vpn ppn : Nat) (flags : PTEFlags) : PageTable :=
  update pt vpn (some (Pte.new ppn flags))

/-- `map`: `none` where the assertion fails. -/
def map (vpn ppn : Nat) (flags : PTEFlags) : Option PageTable :=
  if (pt vpn).isSome then none else some (pt.put vpn ppn flags)

def unmapIfMapped (vpn : Nat) : PageTable := update pt vpn none

/-- `set_flags`: keep the frame and replace the flags, if the page is mapped. -/
def setFlags (vpn : Nat) (flags : PTEFlags) : PageTable :=
  match pt vpn with
  | none => pt
  | some pte => pt.put vpn pte.ppn flags

/-- `map` for a list of pages, frames and flags. -/
def mapAll (entries : List (Nat × Nat × PTEFlags)) : Option PageTable :=
  entries.foldlM (fun pt e => pt.map e.1 e.2.1 e.2.2) pt

variable {pt : PageTable} {vpn ppn x : Nat} {flags : PTEFlags}

theorem put_apply : pt.put vpn ppn flags x = if x = vpn then some (Pte.new ppn flags) else pt x := by
  unfold put
  rw [update_apply]

theorem unmapIfMapped_apply : pt.unmapIfMapped vpn x = if x = vpn then none else pt x := by
  unfold unmapIfMapped
  rw [update_apply]

theorem map_of_unmapped (h : pt vpn = none) : pt.map vpn ppn flags = some (pt.put vpn ppn flags) := by
  rw [map, h]
  rfl

theorem setFlags_apply : pt.setFlags vpn flags x =
    if x = vpn then (pt vpn).map (fun pte => Pte.new pte.ppn flags) else pt x := by
  unfold setFlags
  cases h : pt vpn with
  | none =>
    split
    · next hx => rwa [hx]
    · rfl
  | some => exact put_apply

/-- **Mapping distinct unmapped pages succeeds**, and adds just these pages. -/
theorem mapAll_spec (pt : PageTable) (entries : List (Nat × Nat × PTEFlags))
    (hnodup : (entries.map Prod.fst).Nodup)
    (hfree : ∀ e ∈ entries, pt e.1 = none) :
    ∃ pt', pt.mapAll entries = some pt' ∧ (∀ e ∈ entries, pt' e.1 = some (Pte.new e.2.1 e.2.2)) ∧
      ∀ x, x ∉ entries.map Prod.fst → pt' x = pt x := by
  induction entries generalizing pt with
  | nil => exact ⟨pt, rfl, by simp, fun _ _ => rfl⟩
  | cons e l ih =>
    obtain ⟨hel, hl⟩ := nodup_cons.mp hnodup
    have hlater : ∀ e' ∈ l, e'.1 ≠ e.1 := fun _ he' heq => hel (heq ▸ mem_map_of_mem he')
    obtain ⟨pt', hpt', hin, hout⟩ := ih (pt.put e.1 e.2.1 e.2.2) hl fun e' he' => by
      rw [put_apply, if_neg (hlater e' he'), hfree e' (.tail _ he')]
    refine ⟨pt', ?_, fun e' he' => ?_, fun x hx => ?_⟩
    · rwa [mapAll, foldlM_cons, map_of_unmapped (hfree e (.head _))]
    · rcases mem_cons.mp he' with rfl | he'
      · rw [hout _ hel, put_apply, if_pos rfl]
      · exact hin e' he'
    · rw [map_cons, mem_cons, not_or] at hx
      rw [hout x hx.2, put_apply, if_neg hx.1]

end PageTable

end HitOS
