import HitOS.Lib.OrdMap

/-!
# eBPF maps

The part of `bpf/map.rs` and `bpf/prog.rs` that running programs use: looking an entry up, and
reading and writing bytes of its value.
-/

namespace HitOS.Bpf

abbrev Byte := Fin 256

instance byteNeZero : NeZero 256 := ⟨by decide⟩

/-- The `n` low bytes of `v`, least significant first (`to_le_bytes`). -/
def leBytes (n v : Nat) : List Byte := (List.range n).map fun i => Fin.ofNat 256 (v / 256 ^ i)

def ofLeBytes : List Byte → Nat
  | [] => 0
  | b :: bs => b + 256 * ofLeBytes bs

/-- The error numbers the module returns. -/
inductive SyscallError where
  | eacces
  | ebadf
  | efault
  | einval
  | enoent
  | enosys
  | eopnotsupp
  deriving DecidableEq, Repr

inductive BpfMapStorage where
  | hash (entries : OrdMap (List Byte) (List Byte))
  | array (values : List (List Byte))
  | ringBuf

structure BpfMapFile where
  keySize : Nat
  storage : BpfMapStorage

namespace BpfMapFile

/-- `array_index`: the key is a little-endian `u32`. -/
def arrayIndex (key : List Byte) : Except SyscallError Nat :=
  if key.length ≠ 4 then .error .einval else .ok (ofLeBytes key)

def lookup (m : BpfMapFile) (key : List Byte) : Except SyscallError (Option (List Byte)) :=
  match m.storage with
  | .hash entries => if key.length ≠ m.keySize then .ok none else .ok (entries.get? key)
  | .array values => do
    let index ← arrayIndex key
    .ok values[index]?
  | .ringBuf => .error .eopnotsupp

/-- The bounds check and copy at the end of `store_bytes`. -/
def writeBytes (value : List Byte) (offset : Nat) (data : List Byte) : Except SyscallError (List Byte) :=
  if offset + data.length > value.length then .error .eacces
  else .ok (value.take offset ++ data ++ value.drop (offset + data.length))

def storeBytes (m : BpfMapFile) (key : List Byte) (offset : Nat) (data : List Byte) :
    Except SyscallError BpfMapFile :=
  match m.storage with
  | .hash entries =>
    if key.length ≠ m.keySize then .error .einval
    else
      match entries.get? key with
      | none => .error .enoent
      | some value => do
        let value' ← writeBytes value offset data
        .ok { m with storage := .hash (entries.insert key value') }
  | .array values => do
    let index ← arrayIndex key
    match values[index]? with
    | none => .error .enoent
    | some value => do
      let value' ← writeBytes value offset data
      .ok { m with storage := .array (values.set index value') }
  | .ringBuf => .error .eopnotsupp

end BpfMapFile

/-- `BpfProgFile::maps`: the maps a program refers to, by file descriptor. -/
abbrev ProgMaps := OrdMap Nat BpfMapFile

namespace ProgMaps

variable (maps : ProgMaps)

def mapKeySize (fd : Nat) : Except SyscallError Nat :=
  match maps.get? fd with
  | some m => .ok m.keySize
  | none => .error .ebadf

def mapLookupBytes (fd : Nat) (key : List Byte) :
    Except SyscallError (Option (List Byte)) :=
  match maps.get? fd with
  | some m => m.lookup key
  | none => .error .ebadf

def mapLoadBytes (fd : Nat) (key : List Byte) (offset len : Nat) :
    Except SyscallError (List Byte) := do
  match ← mapLookupBytes maps fd key with
  | none => .error .enoent
  | some value =>
    if offset + len > value.length then .error .eacces else .ok ((value.drop offset).take len)

def mapStoreBytes (fd : Nat) (key : List Byte) (offset : Nat)
    (data : List Byte) : Except SyscallError ProgMaps :=
  match maps.get? fd with
  | some m => do
    let m' ← m.storeBytes key offset data
    .ok (maps.insert fd m')
  | none => .error .ebadf

end ProgMaps

end HitOS.Bpf
