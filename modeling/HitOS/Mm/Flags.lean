import Mathlib

/-!
# Mapping types, permissions and page-table flags

The bit sets of `map_area.rs` and of the Sv39 `page_table.rs`, one Boolean per declared bit.
-/

namespace HitOS

/-- How the pages of an area or region come into being. -/
inductive MapType where
  | identical
  | framed
  | lazy
  deriving DecidableEq, Repr

/-- The `MapPermission` bits `R W X U IO`. -/
structure MapPermission where
  r : Bool := false
  w : Bool := false
  x : Bool := false
  u : Bool := false
  io : Bool := false
  deriving DecidableEq, Repr

namespace MapPermission

/-- Every bit of `b` is set in `a`. -/
def contains (a b : MapPermission) : Bool :=
  (!b.r || a.r) && (!b.w || a.w) && (!b.x || a.x) && (!b.u || a.u) && (!b.io || a.io)

def W : MapPermission := { w := true }

def U : MapPermission := { u := true }

end MapPermission

/-- The flag bits of a Sv39 leaf entry, with the two software bits `COW` and `SHARED`. -/
structure PTEFlags where
  v : Bool := false
  r : Bool := false
  w : Bool := false
  x : Bool := false
  u : Bool := false
  g : Bool := false
  a : Bool := false
  d : Bool := false
  cow : Bool := false
  shared : Bool := false
  deriving DecidableEq, Repr

/-- `PTEFlags::from(perm)`: a writable leaf is always readable too, because `W` without `R` is
reserved by the hardware. -/
def PTEFlags.ofPermission (perm : MapPermission) : PTEFlags :=
  { r := perm.r || perm.w, w := perm.w, x := perm.x, u := perm.u }

end HitOS
