import Mathlib.Init

/-! # SQE flags (`src/flags.rs`, `helpers.py`)

  The `IOSQE_*` bits of a submission queue entry and the functions Python
  builds them with.
-/

namespace CenturyRing

/-- `io_uring::squeue::Flags`. -/
structure Flags where
  bits : UInt8
  deriving DecidableEq, Repr

namespace Flags

def empty : Flags := ⟨0⟩
def FIXED_FILE : Flags := ⟨1⟩
def IO_DRAIN : Flags := ⟨2⟩
def IO_LINK : Flags := ⟨4⟩
def IO_HARDLINK : Flags := ⟨8⟩
def ASYNC : Flags := ⟨16⟩
def BUFFER_SELECT : Flags := ⟨32⟩
def SKIP_SUCCESS : Flags := ⟨64⟩

/-- `flags |= other`. -/
def union (flags other : Flags) : Flags := ⟨flags.bits ||| other.bits⟩

/-- `Flags::contains`: all bits of `other` are set. -/
def contains (flags other : Flags) : Bool := flags.bits &&& other.bits == other.bits

/-- `Flags::from_bits_truncate`: the one bit that is no flag is dropped. -/
def from_bits_truncate (bits : UInt8) : Flags := ⟨bits &&& 0x7f⟩

/-- The entry is linked to the one submitted right after it. -/
def links (flags : Flags) : Bool := flags.contains IO_LINK || flags.contains IO_HARDLINK

end Flags

/-- `make_uring_flags`. -/
def make_uring_flags (fixed_file io_drain io_link io_hardlink io_async buffer_select
    skip_success : Bool) : UInt8 :=
  let flags := Flags.empty
  let flags := if fixed_file then flags.union .FIXED_FILE else flags
  let flags := if io_drain then flags.union .IO_DRAIN else flags
  let flags := if io_link then flags.union .IO_LINK else flags
  let flags := if io_hardlink then flags.union .IO_HARDLINK else flags
  let flags := if io_async then flags.union .ASYNC else flags
  let flags := if buffer_select then flags.union .BUFFER_SELECT else flags
  let flags := if skip_success then flags.union .SKIP_SUCCESS else flags
  flags.bits

/-- `make_sqe_flags` of `helpers.py`. -/
def make_sqe_flags (fixed_file io_drain io_link io_hardlink io_async buffer_select
    skip_success : Bool) : Int :=
  (make_uring_flags fixed_file io_drain io_link io_hardlink io_async buffer_select
    skip_success).toNat

end CenturyRing
