import CenturyRing.Create
import CenturyRing.Handle
import Mathlib.Data.Int.Bitwise

/-! # The Python ring (`ring.py`, `enums.py`)

  `IoUring`, the object user code works with: the `prep_*` methods and the
  ways to submit and to reap.
-/

namespace CenturyRing

/-! ### Python integers as Rust arguments

  An integer that does not fit the type of the parameter raises an
  `OverflowError` before the Rust function runs. -/

/-- The conversion of a Python integer to a type with values from `low` up to
    and without `high`. -/
def extract {α : Type} (low high : Int) (convert : Int → α) (x : Int) : Except PyErr α :=
  if low ≤ x ∧ x < high then .ok (convert x) else .error .overflow_error

theorem extract_ok {α : Type} {low high x : Int} {convert : Int → α} {y : α}
    (h : extract low high convert x = .ok y) : y = convert x ∧ low ≤ x ∧ x < high := by
  unfold extract at h
  split at h
  · next hfits =>
    cases h
    exact ⟨rfl, hfits⟩
  · cases h

theorem extract_error {α : Type} {low high x : Int} {convert : Int → α} {e : PyErr}
    (h : extract low high convert x = .error e) :
    e = .overflow_error ∧ ¬(low ≤ x ∧ x < high) := by
  unfold extract at h
  split at h
  · cases h
  · next hfits =>
    cases h
    exact ⟨rfl, hfits⟩

/-- The rule for the conversion of an argument. -/
theorem wp_conversion {σ α β : Type} {low high x : Int} {convert : Int → α}
    {f : α → Fallible σ PyErr β} {Q : β → σ → Prop} {E : PyErr → σ → Prop} {s : σ}
    (hunfit : ¬(low ≤ x ∧ x < high) → E .overflow_error s)
    (hfits : low ≤ x ∧ x < high → (f (convert x)).wp Q E s) :
    (Fallible.check (extract low high convert x) >>= f).wp Q E s := by
  refine Fallible.wp_check (fun e h => ?_) fun y h => ?_
  · obtain ⟨rfl, hx⟩ := extract_error h
    exact hunfit hx
  · obtain ⟨rfl, hx⟩ := extract_ok h
    exact hfits hx

def extract_i32 : Int → Except PyErr Int32 := extract (-2 ^ 31) (2 ^ 31) Int32.ofInt
def extract_i64 : Int → Except PyErr Int64 := extract (-2 ^ 63) (2 ^ 63) Int64.ofInt
def extract_u8 : Int → Except PyErr UInt8 := extract 0 (2 ^ 8) UInt8.ofInt
def extract_u16 : Int → Except PyErr UInt16 := extract 0 (2 ^ 16) UInt16.ofInt
def extract_u32 : Int → Except PyErr UInt32 := extract 0 (2 ^ 32) UInt32.ofInt
def extract_u64 : Int → Except PyErr UInt64 := extract 0 (2 ^ 64) UInt64.ofInt
def extract_usize : Int → Except PyErr UInt64 := extract_u64

/-- A conversion keeps the sign. -/
theorem extract_u32_pos {x : Int} {y : UInt32} (h : extract_u32 x = .ok y) : 0 < y ↔ 0 < x := by
  obtain ⟨rfl, hlow, hhigh⟩ := extract_ok h
  have hnat : (UInt32.ofInt x).toNat = x.toNat := by
    rw [UInt32.ofInt, UInt32.toNat_ofNat', Int.emod_eq_of_lt hlow hhigh]
    omega
  rw [UInt32.lt_iff_toNat_lt, hnat]
  show 0 < x.toNat ↔ _
  omega

/-! ### `enums.py` -/

/-- `FileOpenMode`. -/
inductive FileOpenMode where
  | READ_ONLY | WRITE_ONLY | READ_WRITE
  deriving DecidableEq, Repr

/-- `FileOpenMode.value`. -/
def FileOpenMode.value : FileOpenMode → Nat
  | READ_ONLY => 0
  | WRITE_ONLY => 1
  | READ_WRITE => 2

/-- `FileOpenFlag`. -/
inductive FileOpenFlag where
  | APPEND | CREATE_IF_NOT_EXISTS | MUST_CREATE | DIRECT | MUST_BE_DIRECTORY | PATH
  | NO_ACCESS_TIME | NO_FOLLOW | TEMPORARY_FILE | TRUNCATE
  deriving DecidableEq, Repr

namespace Os

def O_CREAT : Nat := 0o100
def O_EXCL : Nat := 0o200
def O_TRUNC : Nat := 0o1000
def O_APPEND : Nat := 0o2000
def O_DIRECT : Nat := 0o40000
def O_DIRECTORY : Nat := 0o200000
def O_NOFOLLOW : Nat := 0o400000
def O_NOATIME : Nat := 0o1000000
def O_CLOEXEC : Nat := 0o2000000
def O_SYNC : Nat := 0o4010000
def O_PATH : Nat := 0o10000000
def O_TMPFILE : Nat := 0o20200000
def SOCK_NONBLOCK : Int := 0o4000
def SOCK_CLOEXEC : Int := 0o2000000

end Os

/-- What one flag contributes in `enum_flags_to_int_flags`. -/
def FileOpenFlag.bits (flags : List FileOpenFlag) : FileOpenFlag → Nat
  | APPEND => Os.O_APPEND
  | CREATE_IF_NOT_EXISTS => if TEMPORARY_FILE ∉ flags then Os.O_CREAT else 0
  | MUST_CREATE => Os.O_EXCL ||| (if TEMPORARY_FILE ∉ flags then Os.O_CREAT else 0)
  | DIRECT => Os.O_DIRECT ||| Os.O_SYNC
  | MUST_BE_DIRECTORY => Os.O_DIRECTORY
  | PATH => Os.O_PATH
  | NO_ACCESS_TIME => Os.O_NOATIME
  | NO_FOLLOW => Os.O_NOFOLLOW
  | TEMPORARY_FILE => Os.O_TMPFILE
  | TRUNCATE => Os.O_TRUNC

/-- `enum_flags_to_int_flags`. -/
def enum_flags_to_int_flags (flags : List FileOpenFlag) : Nat :=
  flags.foldl (fun final_flags flag => final_flags ||| flag.bits flags) Os.O_CLOEXEC

/-- `flags` as `prep_openat` reads it: no flags at all mean `O_CLOEXEC`. -/
def raw_open_flags (flags : Option (List FileOpenFlag)) : Nat :=
  match flags with
  | none | some [] => Os.O_CLOEXEC
  | some flags => enum_flags_to_int_flags flags

/-! ### Preparing -/

/-- `IoUring.prep_openat`. -/
def prep_openat (relative_to : Option AcceptableFile) (path : List UInt8)
    (open_mode : FileOpenMode) (flags : Option (List FileOpenFlag)) (permissions : Int)
    (sqe_flags : Option Int) (answer : Enter) : PyM UInt64 := do
  let s ← get
  let dirfd :=
    match relative_to with
    | none => -1
    | some relative_to => relative_to.fd s.handles
  let raw_flags := raw_open_flags flags
  let user_data ← rust get_next_user_data
  let raw_flags := raw_flags ||| open_mode.value
  let sqe_flags := sqe_flags.getD 0
  let dirfd ← Fallible.check (extract_i32 dirfd)
  let file_flags ← Fallible.check (extract_i32 raw_flags)
  let mode ← Fallible.check (extract_u32 permissions)
  let sqe_flags ← Fallible.check (extract_u8 sqe_flags)
  rust (ioring_prep_openat dirfd path user_data file_flags mode sqe_flags answer)
  return user_data

/-- `IoUring.prep_close`. -/
def prep_close (fd : AcceptableFile) (sqe_flags : Option Int) (answer : Enter) : PyM UInt64 := do
  let sqe_flags := sqe_flags.getD 0
  let user_data ← rust get_next_user_data
  let raw_fd ← unwrap_file fd
  let raw_fd ← Fallible.check (extract_i32 raw_fd)
  let sqe_flags ← Fallible.check (extract_u8 sqe_flags)
  rust (ioring_prep_close raw_fd user_data sqe_flags answer)
  match fd.as_handle with
  | some handle => mark_closed handle
  | none => pure ()
  return user_data

/-- The error for an offset below `-1`. -/
def negative_offset (offset : Int) : PyErr :=
  .value_error s!"(\"Can't pass negative offset\", {offset}, 'for this operation')"

/-- `IoUring.prep_read`. -/
def prep_read (fd : AcceptableFile) (byte_count offset : Int) (sqe_flags : Option Int)
    (answer : Enter) : PyM UInt64 := do
  if offset < 0 ∧ offset < -1 then
    throw (negative_offset offset)
  let sqe_flags := sqe_flags.getD 0
  let user_data ← rust get_next_user_data
  let raw_fd ← unwrap_file fd
  let raw_fd ← Fallible.check (extract_i32 raw_fd)
  let max_size ← Fallible.check (extract_u32 byte_count)
  let offset ← Fallible.check (extract_i64 offset)
  let sqe_flags ← Fallible.check (extract_u8 sqe_flags)
  rust (ioring_prep_read raw_fd max_size offset user_data sqe_flags answer)
  return user_data

/-- `IoUring.prep_write`. -/
def prep_write (fd : AcceptableFile) (buffer : List UInt8) (file_offset : Int)
    (count buffer_offset sqe_flags : Option Int) (answer : Enter) : PyM UInt64 := do
  if file_offset < -1 then
    throw (negative_offset file_offset)
  let size := count.getD buffer.length
  let buffer_offset := buffer_offset.getD 0
  let user_data ← rust get_next_user_data
  let sqe_flags := sqe_flags.getD 0
  let raw_fd ← unwrap_file fd
  let raw_fd ← Fallible.check (extract_i32 raw_fd)
  let size ← Fallible.check (extract_usize size)
  let buffer_offset ← Fallible.check (extract_usize buffer_offset)
  let file_offset ← Fallible.check (extract_i64 file_offset)
  let sqe_flags ← Fallible.check (extract_u8 sqe_flags)
  rust (ioring_prep_write raw_fd buffer size buffer_offset file_offset user_data sqe_flags answer)
  return user_data

/-- The socket type `prep_create_socket` asks for. -/
def raw_socket_type (type : Int) (nonblocking : Bool) : Int :=
  let type := type.lor Os.SOCK_CLOEXEC
  if nonblocking then type.lor Os.SOCK_NONBLOCK else type

/-- `IoUring.prep_create_socket`. -/
def prep_create_socket (domain type protocol : Int) (nonblocking : Bool) (sqe_flags : Option Int)
    (answer : Enter) : PyM UInt64 := do
  let user_data ← rust get_next_user_data
  let type := raw_socket_type type nonblocking
  let sqe_flags := sqe_flags.getD 0
  let domain ← Fallible.check (extract_i32 domain)
  let socket_type ← Fallible.check (extract_i32 type)
  let protocol ← Fallible.check (extract_i32 protocol)
  let sqe_flags ← Fallible.check (extract_u8 sqe_flags)
  rust (ioring_prep_create_socket domain socket_type protocol user_data sqe_flags answer)
  return user_data

/-- The body of `prep_connect_v4` and `prep_connect_v6`, which differ in the
    Rust function they call. -/
def prep_connect (ioring_prep_connect : Int32 → UInt16 → UInt64 → UInt8 → RustM Unit)
    (fd : AcceptableFile) (port : Int) (sqe_flags : Option Int) : PyM UInt64 := do
  let sqe_flags := sqe_flags.getD 0
  let user_data ← rust get_next_user_data
  let raw_fd ← unwrap_file fd
  let raw_fd ← Fallible.check (extract_i32 raw_fd)
  let port ← Fallible.check (extract_u16 port)
  let sqe_flags ← Fallible.check (extract_u8 sqe_flags)
  rust (ioring_prep_connect raw_fd port user_data sqe_flags)
  return user_data

/-- `IoUring.prep_connect_v4`. -/
def prep_connect_v4 (fd : AcceptableFile) (address : String) (port : Int)
    (sqe_flags : Option Int) (answer : Enter) : PyM UInt64 :=
  prep_connect (fun raw_fd port user_data sqe_flags =>
    ioring_prep_connect_v4 raw_fd address port user_data sqe_flags answer) fd port sqe_flags

/-- `IoUring.prep_connect_v6`. -/
def prep_connect_v6 (fd : AcceptableFile) (address : String) (port : Int)
    (sqe_flags : Option Int) (answer : Enter) : PyM UInt64 :=
  prep_connect (fun raw_fd port user_data sqe_flags =>
    ioring_prep_connect_v6 raw_fd address port user_data sqe_flags answer) fd port sqe_flags

/-- `IoUring.prep_recv`. -/
def prep_recv (fd : AcceptableFile) (byte_count flags : Int) (sqe_flags : Option Int)
    (answer : Enter) : PyM UInt64 := do
  let sqe_flags := sqe_flags.getD 0
  let user_data ← rust get_next_user_data
  let raw_fd ← unwrap_file fd
  let raw_fd ← Fallible.check (extract_i32 raw_fd)
  let max_size ← Fallible.check (extract_u32 byte_count)
  let flags ← Fallible.check (extract_i32 flags)
  let sqe_flags ← Fallible.check (extract_u8 sqe_flags)
  rust (ioring_prep_recv raw_fd max_size flags user_data sqe_flags answer)
  return user_data

/-- `IoUring.prep_send`. -/
def prep_send (fd : AcceptableFile) (buffer : List UInt8) (count buffer_offset : Option Int)
    (flags : Int) (sqe_flags : Option Int) (answer : Enter) : PyM UInt64 := do
  let size := count.getD buffer.length
  let buffer_offset := buffer_offset.getD 0
  let sqe_flags := sqe_flags.getD 0
  let user_data ← rust get_next_user_data
  let raw_fd ← unwrap_file fd
  let raw_fd ← Fallible.check (extract_i32 raw_fd)
  let size ← Fallible.check (extract_usize size)
  let buffer_offset ← Fallible.check (extract_usize buffer_offset)
  let flags ← Fallible.check (extract_i32 flags)
  let sqe_flags ← Fallible.check (extract_u8 sqe_flags)
  rust (ioring_prep_send raw_fd buffer size buffer_offset flags user_data sqe_flags answer)
  return user_data

/-! ### Submitting and waiting -/

/-- `IoUring.submit_and_wait`. -/
def submit_and_wait (count : Int) (answer : Enter) : PyM Nat := do
  let want ← Fallible.check (extract_usize count)
  rust (wait want answer)

/-- `IoUring.submit_and_wait_with_timeout`. -/
def submit_and_wait_with_timeout (seconds nsec : Int) (first last : Enter) : PyM Nat := do
  let sec ← Fallible.check (extract_u64 seconds)
  let nsec ← Fallible.check (extract_u32 nsec)
  rust (wait_with_timeout sec nsec first last)

/-! ### Making a ring -/

/-- `cq_size if (cq_size and cq_size > 0) else 0`, and the same for
    `sqpoll_idle_ms`. -/
def positive_or_zero (x : Option Int) : Int :=
  match x with
  | some x => if x > 0 then x else 0
  | none => 0

/-- `make_io_ring`, up to the `yield`. -/
def make_io_ring (host : Host) (entries : Int) (cq_size sqpoll_idle_ms : Option Int)
    (single_issuer autosubmit : Bool) : Except PyErr World := do
  let cq_size := positive_or_zero cq_size
  let sqpoll_idle_ms := positive_or_zero sqpoll_idle_ms
  let entries ← extract_u32 entries
  let cq_size ← extract_u32 cq_size
  let sqpoll_idle_ms ← extract_u32 sqpoll_idle_ms
  create_io_ring host entries cq_size sqpoll_idle_ms single_issuer autosubmit

end CenturyRing
