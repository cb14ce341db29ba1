import CenturyRing.Flags
import CenturyRing.Address
import Mathlib.Data.Nat.Bitwise

/-! # Queue entries and the memory they point into

  What travels over a ring: submission queue entries, completion queue
  entries and the completion events made of them; and the memory the ring
  owns for the operations under way.
-/

namespace CenturyRing

/-! ### Submission queue entries -/

/-- The address of a block of memory: a heap allocation or a stack slot.
    Blocks are numbered in the order in which they were allocated, so two
    allocations never share an address. -/
abbrev Ptr := Nat

/-- `io_uring::types::Timespec`. -/
structure Timespec where
  sec : UInt64
  nsec : UInt32
  deriving DecidableEq, Repr

/-- A span of time in nanoseconds. -/
def Timespec.nanos (timespec : Timespec) : Nat :=
  timespec.sec.toNat * 1000000000 + timespec.nsec.toNat

/-- The opcodes the library uses. -/
inductive OpCode where
  | OpenAt | Read | Write | Close | Socket | Connect | Send | Recv | Timeout
  deriving DecidableEq, Repr

/-- The operation an entry asks for (`io_uring::opcode`), with the fields that
    the library sets. -/
inductive Operation where
  | OpenAt (dirfd : Int32) (pathname : Ptr) (flags : Int32) (mode : UInt32)
  | Read (fd : Int32) (buf : Ptr) (len : UInt32) (offset : UInt64)
  | Write (fd : Int32) (buf : Ptr) (len : UInt32) (offset : UInt64)
  | Close (fd : Int32)
  | Socket (domain socket_type protocol : Int32)
  | Connect (fd : Int32) (addr : Ptr) (addrlen : UInt32)
  | Send (fd : Int32) (buf : Ptr) (len : UInt32) (flags : Int32)
  | Recv (fd : Int32) (buf : Ptr) (len : UInt32) (flags : Int32)
  /-- The timespec lives at `frame`, in the stack frame of the call that pushed
      the entry; `timespec` is what it holds while that call is running. -/
  | Timeout (frame : Ptr) (timespec : Timespec)
  deriving DecidableEq, Repr

/-- `io_uring::squeue::Entry`. -/
structure Entry where
  op : Operation
  flags : Flags
  user_data : UInt64
  deriving DecidableEq, Repr

/-- The user data of every timeout entry. -/
def TIMEOUT_USER_DATA : UInt64 := 0xFFFFFFFFFFFFFF00

namespace Operation

/-- The heap block the kernel reads or writes on behalf of the operation. -/
def pointer : Operation → Option Ptr
  | OpenAt _ pathname _ _ => some pathname
  | Read _ buf _ _ | Write _ buf _ _ | Send _ buf _ _ | Recv _ buf _ _ => some buf
  | Connect _ addr _ => some addr
  | Close _ | Socket .. | Timeout .. => none

/-- The buffer the kernel writes into. -/
def recv_buffer : Operation → Option Ptr
  | Read _ buf _ _ | Recv _ buf _ _ => some buf
  | _ => none

/-- The operation works on a buffer: `read`, `write`, `send` and `recv`. -/
def has_buffer : Operation → Bool
  | Read .. | Write .. | Send .. | Recv .. => true
  | _ => false

/-- The number of bytes of memory the kernel may touch. -/
def len : Operation → Nat
  | Read _ _ len _ | Write _ _ len _ | Send _ _ len _ | Recv _ _ len _ => len.toNat
  | _ => 0

/-- The stack slot of a timeout's timespec. -/
def frame : Operation → Option Ptr
  | Timeout frame _ => some frame
  | _ => none

/-- The entry was pushed by `wait_with_timeout` and not by a `prep_*` call. -/
def is_timeout (op : Operation) : Bool := op.frame.isSome

@[simp] theorem is_timeout_timeout (frame : Ptr) (timespec : Timespec) :
    (Timeout frame timespec).is_timeout = true := rfl

/-- A timeout points into no heap block. -/
theorem pointer_of_is_timeout {op : Operation} (h : op.is_timeout = true) : op.pointer = none := by
  cases op with
  | Timeout frame timespec => rfl
  | _ => cases h

end Operation

/-! ### Owned memory -/

/-- A `Vec<u8>`: its block and the bytes in it. -/
structure Vec where
  ptr : Ptr
  bytes : List UInt8
  deriving DecidableEq, Repr

/-- A `Box<dyn SockaddrLike>`. -/
structure SockaddrBox where
  ptr : Ptr
  addr : SocketAddr
  deriving DecidableEq, Repr

/-- `SockaddrLike::len`: the size of `sockaddr_in` and of `sockaddr_in6`. -/
def SockaddrBox.len (c_addr : SockaddrBox) : UInt32 :=
  match c_addr.addr with
  | .V4 .. => 16
  | .V6 .. => 28

/-- `OwnedData`: what `TheIoRing` keeps alive for an operation. -/
inductive OwnedData where
  | OnePath (path : Vec)
  | TwoPaths (path₁ path₂ : Vec)
  | Buffer (buf : Vec)
  | SockAddr (addr : SockaddrBox)
  deriving DecidableEq, Repr

/-- `owned.backs op`: `owned` is the memory that `op` points into, of the kind
    `op` expects, and it is as long as `op` says. -/
def OwnedData.backs : OwnedData → Operation → Prop
  | .OnePath path, .OpenAt _ pathname _ _ => path.ptr = pathname
  | .Buffer buf, .Read _ ptr len _ => buf.ptr = ptr ∧ len.toNat ≤ buf.bytes.length
  | .Buffer buf, .Write _ ptr len _ => buf.ptr = ptr ∧ len.toNat ≤ buf.bytes.length
  | .Buffer buf, .Send _ ptr len _ => buf.ptr = ptr ∧ len.toNat ≤ buf.bytes.length
  | .Buffer buf, .Recv _ ptr len _ => buf.ptr = ptr ∧ len.toNat ≤ buf.bytes.length
  | .SockAddr addr, .Connect _ ptr len => addr.ptr = ptr ∧ len = addr.len
  | _, _ => False

/-- The kernel writes `bytes` to the start of `buf`, and nothing behind it. -/
def Vec.write (buf : Vec) (bytes : List UInt8) : Vec :=
  { buf with bytes := bytes.take buf.bytes.length ++ buf.bytes.drop bytes.length }

@[simp] theorem Vec.write_ptr (buf : Vec) (bytes : List UInt8) :
    (buf.write bytes).ptr = buf.ptr := rfl

@[simp] theorem Vec.write_length (buf : Vec) (bytes : List UInt8) :
    (buf.write bytes).bytes.length = buf.bytes.length := by
  simp only [Vec.write, List.length_append, List.length_take, List.length_drop]
  omega

/-- What a write of the kernel to `ptr` makes of a piece of owned memory. -/
def OwnedData.write (ptr : Ptr) (bytes : List UInt8) : OwnedData → OwnedData
  | .Buffer buf => if buf.ptr = ptr then .Buffer (buf.write bytes) else .Buffer buf
  | owned => owned

/-- A write changes the bytes in a buffer, never which memory is owned. -/
@[simp] theorem OwnedData.write_backs (ptr : Ptr) (bytes : List UInt8) (owned : OwnedData)
    (op : Operation) : (owned.write ptr bytes).backs op ↔ owned.backs op := by
  cases owned with
  | Buffer buf =>
    simp only [OwnedData.write]
    split
    · cases op <;> simp [OwnedData.backs]
    · rfl
  | OnePath path => rfl
  | TwoPaths path₁ path₂ => rfl
  | SockAddr addr => rfl

/-- An operation that owns nothing is backed by nothing. -/
theorem OwnedData.backs_pointer {owned : OwnedData} {op : Operation} (h : owned.backs op) :
    op.pointer.isSome := by
  cases owned <;> cases op <;> first | rfl | exact h.elim

/-- Only a buffer backs an operation that works on one. -/
theorem OwnedData.backs_buffer_iff {owned : OwnedData} {op : Operation} (h : owned.backs op) :
    (∃ buf, owned = .Buffer buf) ↔ op.has_buffer = true := by
  cases owned <;> cases op <;> first
    | exact h.elim
    | simp [Operation.has_buffer]

/-- `Prepared entry owned`: `entry` is as a `prep_*` call builds it when it
    hands `owned` to the ring. What it points into is what is owned, and an
    operation that owns something will have a completion of its own. -/
structure Prepared (entry : Entry) (owned : Option OwnedData) : Prop where
  backed : ∀ data, owned = some data → data.backs entry.op
  unowned : owned = none → entry.op.pointer = none
  completes : owned.isSome → entry.flags.contains .SKIP_SUCCESS = false
  not_timeout : entry.op.is_timeout = false

/-! ### Completions -/

/-- A completion queue entry. The kernel copies the user data of the entry it
    completes; `origin` records which entry that was. -/
structure Cqe where
  origin : Entry
  result : Int32
  deriving DecidableEq, Repr

/-- `cqueue::Entry::user_data`. -/
def Cqe.user_data (cqe : Cqe) : UInt64 := cqe.origin.user_data

/-- `CompletionEvent`. -/
structure CompletionEvent where
  user_data : UInt64
  result : Int32
  buffer : Option (List UInt8)
  deriving DecidableEq, Repr

/-- `CompletionEvent::should_be_ignored`: bit 63 of the user data is set. -/
def CompletionEvent.should_be_ignored (event : CompletionEvent) : Bool :=
  event.user_data &&& ((1 : UInt64) <<< 63) != 0

/-- Bit 63 is set exactly from `2 ^ 63` on. -/
theorem CompletionEvent.should_be_ignored_iff (event : CompletionEvent) :
    event.should_be_ignored = true ↔ 2 ^ 63 ≤ event.user_data.toNat := by
  have hbit : event.user_data &&& ((1 : UInt64) <<< 63) = 0 ↔
      event.user_data.toNat.testBit 63 = false := by
    rw [← UInt64.toNat_inj, UInt64.toNat_and]
    show event.user_data.toNat &&& 2 ^ 63 = 0 ↔ _
    rw [Nat.and_two_pow]
    simp
  have hlt := event.user_data.toNat_lt
  rw [should_be_ignored, bne_iff_ne, Ne, hbit, Nat.testBit_eq_decide_div_mod_eq]
  simp only [decide_eq_false_iff_not, Decidable.not_not]
  omega

/-! ### Errors -/

/-- The exceptions a call can raise. An `OSError` carries an error number or,
    when the library raises it itself, only a message. -/
inductive PyErr where
  | value_error (message : String)
  | not_implemented_error (message : String)
  | os_error (errno : Int32)
  | os_error_message (message : String)
  | overflow_error
  | panic (message : String)
  deriving DecidableEq, Repr

end CenturyRing
