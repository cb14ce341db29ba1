import CenturyRing.IoUring

/-! # The preparation calls

  The nine `prep_*` methods as one type of calls, with the entry each call
  asks for and everything a call can do.
-/

namespace CenturyRing

/-- A call of a `prep_*` method with its arguments. -/
inductive Prep where
  | openat (relative_to : Option AcceptableFile) (path : List UInt8) (open_mode : FileOpenMode)
      (flags : Option (List FileOpenFlag)) (permissions : Int) (sqe_flags : Option Int)
  | close (fd : AcceptableFile) (sqe_flags : Option Int)
  | read (fd : AcceptableFile) (byte_count offset : Int) (sqe_flags : Option Int)
  | write (fd : AcceptableFile) (buffer : List UInt8) (file_offset : Int)
      (count buffer_offset sqe_flags : Option Int)
  | create_socket (domain type protocol : Int) (nonblocking : Bool) (sqe_flags : Option Int)
  | connect_v4 (fd : AcceptableFile) (address : String) (port : Int) (sqe_flags : Option Int)
  | connect_v6 (fd : AcceptableFile) (address : String) (port : Int) (sqe_flags : Option Int)
  | recv (fd : AcceptableFile) (byte_count flags : Int) (sqe_flags : Option Int)
  | send (fd : AcceptableFile) (buffer : List UInt8) (count buffer_offset : Option Int)
      (flags : Int) (sqe_flags : Option Int)

namespace Prep

/-- Make the call. -/
def run : Prep → Enter → PyM UInt64
  | openat relative_to path open_mode flags permissions sqe_flags =>
    prep_openat relative_to path open_mode flags permissions sqe_flags
  | close fd sqe_flags => prep_close fd sqe_flags
  | read fd byte_count offset sqe_flags => prep_read fd byte_count offset sqe_flags
  | write fd buffer file_offset count buffer_offset sqe_flags =>
    prep_write fd buffer file_offset count buffer_offset sqe_flags
  | create_socket domain type protocol nonblocking sqe_flags =>
    prep_create_socket domain type protocol nonblocking sqe_flags
  | connect_v4 fd address port sqe_flags => prep_connect_v4 fd address port sqe_flags
  | connect_v6 fd address port sqe_flags => prep_connect_v6 fd address port sqe_flags
  | recv fd byte_count flags sqe_flags => prep_recv fd byte_count flags sqe_flags
  | send fd buffer count buffer_offset flags sqe_flags =>
    prep_send fd buffer count buffer_offset flags sqe_flags

/-- The file the call is given. -/
def file : Prep → Option AcceptableFile
  | openat relative_to .. => relative_to
  | close fd .. | read fd .. | write fd .. | connect_v4 fd .. | connect_v6 fd .. | recv fd ..
  | send fd .. => some fd
  | create_socket .. => none

/-- The handle the call is given. -/
def handle (p : Prep) : Option HandleId := p.file.bind (·.as_handle)

/-- The call is `prep_openat`, which takes its handle as the directory to start
    from. -/
def is_openat : Prep → Bool
  | openat .. => true
  | _ => false

def sqe_flags : Prep → Option Int
  | openat _ _ _ _ _ sqe_flags | close _ sqe_flags | read _ _ _ sqe_flags
  | write _ _ _ _ _ sqe_flags | create_socket _ _ _ _ sqe_flags | connect_v4 _ _ _ sqe_flags
  | connect_v6 _ _ _ sqe_flags | recv _ _ _ sqe_flags | send _ _ _ _ _ sqe_flags => sqe_flags

/-- The bytes a `write` or a `send` is to take out of its buffer. -/
def data (buffer : List UInt8) (count buffer_offset : Option Int) : List UInt8 :=
  let size := UInt64.ofInt (count.getD buffer.length)
  let start := UInt64.ofInt (buffer_offset.getD 0)
  copied_range buffer start (start + size)

/-! ### What a call asks for -/

/-- The descriptor in the entry of a call. -/
def raw_fd (fd : AcceptableFile) (s : PyState) : Int32 := Int32.ofInt (fd.fd s.handles)

/-- The descriptor of the directory `prep_openat` starts from. -/
def open_dirfd (relative_to : Option AcceptableFile) (s : PyState) : Int :=
  match relative_to with
  | none => -1
  | some relative_to => relative_to.fd s.handles

/-- The operation a call in state `s` asks for. What it points into is the
    block allocated next. -/
def op (p : Prep) (s : PyState) : Operation :=
  match p with
  | openat relative_to _ open_mode flags permissions _ =>
    let dirfd := open_dirfd relative_to s
    let raw_flags := raw_open_flags flags ||| open_mode.value
    .OpenAt (Int32.ofInt dirfd) s.world.blocks (Int32.ofInt raw_flags) (UInt32.ofInt permissions)
  | close fd _ => .Close (raw_fd fd s)
  | read fd byte_count offset _ =>
    .Read (raw_fd fd s) s.world.blocks (UInt32.ofInt byte_count) (Int64.ofInt offset).toUInt64
  | write fd buffer file_offset count buffer_offset _ =>
    .Write (raw_fd fd s) s.world.blocks (UInt32.ofNat (data buffer count buffer_offset).length)
      (Int64.ofInt file_offset).toUInt64
  | create_socket domain type protocol nonblocking _ =>
    .Socket (Int32.ofInt domain) (Int32.ofInt (raw_socket_type type nonblocking))
      (Int32.ofInt protocol)
  | connect_v4 fd _ _ _ => .Connect (raw_fd fd s) s.world.blocks 16
  | connect_v6 fd _ _ _ => .Connect (raw_fd fd s) s.world.blocks 28
  | recv fd byte_count flags _ =>
    .Recv (raw_fd fd s) s.world.blocks (UInt32.ofInt byte_count) (Int32.ofInt flags)
  | send fd buffer count buffer_offset flags _ =>
    .Send (raw_fd fd s) s.world.blocks (UInt32.ofNat (data buffer count buffer_offset).length)
      (Int32.ofInt flags)

/-- The entry of a call in state `s`. Its user data is the value the counter
    has when the call begins. -/
def sqe (p : Prep) (s : PyState) : Entry where
  op := p.op s
  flags := Flags.from_bits_truncate (UInt8.ofInt (p.sqe_flags.getD 0))
  user_data := s.world.ring.user_data_counter

/-- What a call hands to the ring to own. -/
def owned (p : Prep) (s : PyState) : Option OwnedData :=
  match p with
  | openat _ path .. => some (.OnePath ⟨s.world.blocks, path ++ [0]⟩)
  | read _ byte_count .. | recv _ byte_count .. =>
    some (.Buffer ⟨s.world.blocks, List.replicate (UInt32.ofInt byte_count).toNat 0⟩)
  | write _ buffer _ count buffer_offset _ | send _ buffer count buffer_offset .. =>
    some (.Buffer ⟨s.world.blocks, data buffer count buffer_offset⟩)
  | connect_v4 _ address port _ => (Ipv4Addr.from_str address).map fun v4 =>
    .SockAddr ⟨s.world.blocks, .V4 v4 (UInt16.ofInt port)⟩
  | connect_v6 _ address port _ => (Ipv6Addr.from_str address).map fun v6 =>
    .SockAddr ⟨s.world.blocks, .V6 v6 (UInt16.ofInt port)⟩
  | close .. | create_socket .. => none

/-- The handles after a call that returned: `prep_close` marks its handle. -/
def handles (p : Prep) (s : PyState) : HandleId → FdHandle :=
  match p with
  | close (.handle h) _ => (s.mark_closed h).handles
  | _ => s.handles

@[simp] theorem sqe_op (p : Prep) (s : PyState) : (p.sqe s).op = p.op s := rfl

@[simp] theorem sqe_user_data (p : Prep) (s : PyState) :
    (p.sqe s).user_data = s.world.ring.user_data_counter := rfl

end Prep

/-! ### Rules for Python code -/

section rules

open Fallible

variable {α : Type} {Q : α → PyState → Prop} {E : PyErr → PyState → Prop} {s : PyState}

theorem wp_rust (m : RustM α) :
    (rust m).wp Q E s ↔
      m.wp (fun a w => Q a { s with world := w }) (fun e w => E e { s with world := w }) s.world :=
  wp_zoom

/-- The state after one user data value was allocated. -/
def PyState.allocated (s : PyState) : PyState :=
  { s with world := s.world.advance (s.world.ring.user_data_counter + 1) s.world.blocks }

theorem wp_get_next_user_data {f : UInt64 → PyM α} :
    (rust get_next_user_data >>= f).wp Q E s ↔
      (f s.world.ring.user_data_counter).wp Q E s.allocated := by
  rw [wp_bind, wp_rust]
  exact wp_of_run (s := s.world) rfl

/-- A descriptor comes out of `unwrap_file` unless it is that of a closed
    handle. -/
theorem wp_unwrap_file {fd : AcceptableFile} {f : Int → PyM α}
    (hE : ∀ h, fd = .handle h → (s.handles h)._close_called = true →
      E (handle_closed (s.handles h)) s)
    (hf : (∀ h, fd.as_handle = some h → (s.handles h)._close_called = false) →
      (f (fd.fd s.handles)).wp Q E s) :
    (unwrap_file fd >>= f).wp Q E s := by
  cases fd with
  | int fd =>
    rw [wp_bind, unwrap_file, wp_pure]
    exact hf nofun
  | handle h =>
    rw [wp_bind]
    simp only [unwrap_file, close_called, wp_bind, wp_get, wp_ite, wp_throw, wp_pure]
    refine ⟨hE h rfl, fun hopen => hf fun h' hh' => ?_⟩
    cases hh'
    simpa using hopen

end rules

/-! ### What a call does -/

/-- Everything a call can do: it raises and nothing is pushed, or it returns
    the user data of its entry, which is in the queue. -/
inductive Prepped (p : Prep) (answer : Enter) (s : PyState) :
    Except PyErr UInt64 → PyState → Prop where
  | refused (e : PyErr) (counter : UInt64) {w' : World}
      (hcounter : counter = s.world.ring.user_data_counter ∨
        counter = s.world.ring.user_data_counter + 1)
      (hrefused : Refused answer s.world counter e w') :
      Prepped p answer s (.error e) { s with world := w' }
  | queued {w' : World}
      (hhandle : p.is_openat = false → ∀ h, p.handle = some h →
        (s.handles h)._close_called = false)
      (hqueued : Queued answer s.world (s.world.ring.user_data_counter + 1) (p.sqe s)
        (p.owned s) w') :
      Prepped p answer s (.ok s.world.ring.user_data_counter)
        { handles := p.handles s, world := w' }

section calls

open Fallible

variable {p : Prep} {answer : Enter} {s : PyState} {w' : World} {e : PyErr}

/-- A check before the counter advances failed. -/
theorem Prepped.checked (he : e ≠ queue_full) : Prepped p answer s (.error e) s :=
  .refused e s.world.ring.user_data_counter (.inl rfl) (.refl answer s.world he)

/-- A check after the counter advanced failed. -/
theorem Prepped.checked_late (he : e ≠ queue_full) :
    Prepped p answer s (.error e) s.allocated :=
  .refused e _ (.inr rfl) (.checked e s.world.blocks (Nat.le_refl _) he)

/-- The Rust function raised. -/
theorem Prepped.unqueued
    (h : Refused answer s.allocated.world s.allocated.world.ring.user_data_counter e w') :
    Prepped p answer s (.error e) { s with world := w' } := by
  refine .refused e _ (.inr rfl) ?_
  cases h with
  | checked blocks hblocks he => exact .checked e blocks hblocks he
  | unqueued entry blocks hblocks hqueue => exact .unqueued e entry blocks hblocks hqueue

/-- The Rust function returned. -/
theorem Queued.of_allocated {entry : Entry} {owned : Option OwnedData}
    (h : Queued answer s.allocated.world s.allocated.world.ring.user_data_counter entry owned w') :
    Queued answer s.world (s.world.ring.user_data_counter + 1) entry owned w' := by
  cases h with
  | intro blocks w₁ hblocks hfresh hprepared hqueue hroom =>
    exact .intro blocks w₁ hblocks hfresh hprepared hqueue hroom

theorem handle_closed_ne_queue_full (handle : FdHandle) : handle_closed handle ≠ queue_full :=
  message_ne_queue_full 'H' (by decide) (by simp [toString])

theorem negative_offset_ne_queue_full (offset : Int) : negative_offset offset ≠ queue_full :=
  message_ne_queue_full '(' (by decide) (by simp [toString])

/-- An argument that does not fit raises; one that does is converted. -/
theorem wp_extract {α β : Type} {low high x : Int} {convert : Int → α} {f : α → PyM β}
    {Q : β → PyState → Prop}
    (hf : (f (convert x)).wp Q (fun e s' => Prepped p answer s (.error e) s') s.allocated) :
    (check (extract low high convert x) >>= f).wp Q
      (fun e s' => Prepped p answer s (.error e) s') s.allocated :=
  wp_conversion (fun _ => .checked_late nofun) (fun _ => hf)

/-- The file a call is given is not a closed handle. -/
theorem wp_unwrap {fd : AcceptableFile} {f : Int → PyM UInt64} {Q : UInt64 → PyState → Prop}
    (hf : (∀ h, fd.as_handle = some h → (s.handles h)._close_called = false) →
      (f (fd.fd s.handles)).wp Q (fun e s' => Prepped p answer s (.error e) s') s.allocated) :
    (unwrap_file fd >>= f).wp Q (fun e s' => Prepped p answer s (.error e) s') s.allocated :=
  wp_unwrap_file (fun _ _ _ => .checked_late (handle_closed_ne_queue_full _)) hf

/-- The Rust function is the end of a call. -/
theorem wp_rust_call {m : RustM Unit} (hsame : p.handles s = s.handles)
    (hhandle : p.is_openat = false → ∀ h, p.handle = some h → (s.handles h)._close_called = false)
    (hm : m.wp
      (fun _ w' => Queued answer s.allocated.world s.allocated.world.ring.user_data_counter
        (p.sqe s) (p.owned s) w')
      (fun e w' => Refused answer s.allocated.world s.allocated.world.ring.user_data_counter e w')
      s.allocated.world) :
    (rust m >>= fun _ => pure s.world.ring.user_data_counter).wp
      (fun ud s' => Prepped p answer s (.ok ud) s')
      (fun e s' => Prepped p answer s (.error e) s') s.allocated := by
  rw [wp_bind, wp_rust]
  refine wp_mono hm ?_ (fun _ _ h => .unqueued h)
  intro _ w' h
  have hqueued := Prepped.queued (p := p) hhandle h.of_allocated
  rw [hsame] at hqueued
  exact (wp_pure _).mpr hqueued

/-- `p.Covered answer s`: whatever `p` does in `s` is one of the two. -/
def Prep.Covered (p : Prep) (answer : Enter) (s : PyState) : Prop :=
  (p.run answer).wp (fun ud s' => Prepped p answer s (.ok ud) s')
    (fun e s' => Prepped p answer s (.error e) s') s

theorem covered_openat (relative_to : Option AcceptableFile) (path : List UInt8)
    (open_mode : FileOpenMode) (flags : Option (List FileOpenFlag)) (permissions : Int)
    (sqe_flags : Option Int) :
    (Prep.openat relative_to path open_mode flags permissions sqe_flags).Covered answer s := by
  rw [Prep.Covered, Prep.run, prep_openat, wp_bind, wp_get, wp_get_next_user_data]
  refine wp_extract (wp_extract (wp_extract (wp_extract ?_)))
  exact wp_rust_call rfl nofun (wp_ioring_prep_openat answer _ _ _ _ _ _ _)

theorem covered_close (fd : AcceptableFile) (sqe_flags : Option Int) :
    (Prep.close fd sqe_flags).Covered answer s := by
  rw [Prep.Covered, Prep.run, prep_close, wp_get_next_user_data]
  refine wp_unwrap fun hhandle => wp_extract (wp_extract ?_)
  rw [wp_bind, wp_rust]
  refine wp_mono (wp_ioring_prep_close answer _ _ _ _) ?_ (fun _ _ h => .unqueued h)
  intro _ w' h
  have hqueued := Prepped.queued (p := .close fd sqe_flags) (fun _ => hhandle) h.of_allocated
  cases fd with
  | int fd => exact (wp_pure _).mpr hqueued
  | handle h =>
    simp only [AcceptableFile.as_handle, mark_closed, wp_bind, wp_modify, wp_pure]
    exact hqueued

theorem covered_read (fd : AcceptableFile) (byte_count offset : Int) (sqe_flags : Option Int) :
    (Prep.read fd byte_count offset sqe_flags).Covered answer s := by
  rw [Prep.Covered, Prep.run, prep_read, wp_ite]
  constructor
  · intro _
    rw [wp_bind, wp_throw]
    exact .checked (negative_offset_ne_queue_full offset)
  intro _
  rw [wp_get_next_user_data]
  refine wp_unwrap fun hhandle => wp_extract (wp_extract (wp_extract (wp_extract ?_)))
  exact wp_rust_call rfl (fun _ => hhandle) (wp_ioring_prep_read answer _ _ _ _ _ _)

theorem covered_write (fd : AcceptableFile) (buffer : List UInt8) (file_offset : Int)
    (count buffer_offset sqe_flags : Option Int) :
    (Prep.write fd buffer file_offset count buffer_offset sqe_flags).Covered answer s := by
  rw [Prep.Covered, Prep.run, prep_write, wp_ite]
  constructor
  · intro _
    rw [wp_bind, wp_throw]
    exact .checked (negative_offset_ne_queue_full file_offset)
  intro _
  rw [wp_get_next_user_data]
  refine wp_unwrap fun hhandle =>
    wp_extract (wp_extract (wp_extract (wp_extract (wp_extract ?_))))
  exact wp_rust_call rfl (fun _ => hhandle) (wp_ioring_prep_write answer _ _ _ _ _ _ _ _)

theorem covered_create_socket (domain type protocol : Int) (nonblocking : Bool)
    (sqe_flags : Option Int) :
    (Prep.create_socket domain type protocol nonblocking sqe_flags).Covered answer s := by
  rw [Prep.Covered, Prep.run, prep_create_socket, wp_get_next_user_data]
  refine wp_extract (wp_extract (wp_extract (wp_extract ?_)))
  exact wp_rust_call rfl nofun (wp_ioring_prep_create_socket answer _ _ _ _ _ _)

theorem covered_connect_v4 (fd : AcceptableFile) (address : String) (port : Int)
    (sqe_flags : Option Int) :
    (Prep.connect_v4 fd address port sqe_flags).Covered answer s := by
  rw [Prep.Covered, Prep.run, prep_connect_v4, prep_connect, wp_get_next_user_data]
  refine wp_unwrap fun hhandle => wp_extract (wp_extract (wp_extract ?_))
  refine wp_rust_call rfl (fun _ => hhandle) ?_
  refine wp_mono (wp_ioring_prep_connect_v4 answer _ _ _ _ _ _) ?_ (fun _ _ h => h)
  intro _ w' h
  obtain ⟨v4, hv4, hqueued⟩ := h
  simp only [Prep.owned, hv4]
  exact hqueued

theorem covered_connect_v6 (fd : AcceptableFile) (address : String) (port : Int)
    (sqe_flags : Option Int) :
    (Prep.connect_v6 fd address port sqe_flags).Covered answer s := by
  rw [Prep.Covered, Prep.run, prep_connect_v6, prep_connect, wp_get_next_user_data]
  refine wp_unwrap fun hhandle => wp_extract (wp_extract (wp_extract ?_))
  refine wp_rust_call rfl (fun _ => hhandle) ?_
  refine wp_mono (wp_ioring_prep_connect_v6 answer _ _ _ _ _ _) ?_ (fun _ _ h => h)
  intro _ w' h
  obtain ⟨v6, hv6, hqueued⟩ := h
  simp only [Prep.owned, hv6]
  exact hqueued

theorem covered_recv (fd : AcceptableFile) (byte_count flags : Int) (sqe_flags : Option Int) :
    (Prep.recv fd byte_count flags sqe_flags).Covered answer s := by
  rw [Prep.Covered, Prep.run, prep_recv, wp_get_next_user_data]
  refine wp_unwrap fun hhandle => wp_extract (wp_extract (wp_extract (wp_extract ?_)))
  exact wp_rust_call rfl (fun _ => hhandle) (wp_ioring_prep_recv answer _ _ _ _ _ _)

theorem covered_send (fd : AcceptableFile) (buffer : List UInt8)
    (count buffer_offset : Option Int) (flags : Int) (sqe_flags : Option Int) :
    (Prep.send fd buffer count buffer_offset flags sqe_flags).Covered answer s := by
  rw [Prep.Covered, Prep.run, prep_send, wp_get_next_user_data]
  refine wp_unwrap fun hhandle =>
    wp_extract (wp_extract (wp_extract (wp_extract (wp_extract ?_))))
  exact wp_rust_call rfl (fun _ => hhandle) (wp_ioring_prep_send answer _ _ _ _ _ _ _ _)

/-- Every call does one of the two. -/
theorem Prep.run_cases (p : Prep) (answer : Enter) (s : PyState) : p.Covered answer s := by
  cases p with
  | openat => exact covered_openat ..
  | close => exact covered_close ..
  | read => exact covered_read ..
  | write => exact covered_write ..
  | create_socket => exact covered_create_socket ..
  | connect_v4 => exact covered_connect_v4 ..
  | connect_v6 => exact covered_connect_v6 ..
  | recv => exact covered_recv ..
  | send => exact covered_send ..

/-! ### Closed handles -/

/-- No descriptor comes out of `unwrap_file` for a closed handle. -/
theorem wp_unwrap_closed {α : Type} {fd : AcceptableFile} {h : HandleId} {f : Int → PyM α}
    (hfd : fd.as_handle = some h) (hclosed : (s.handles h)._close_called = true) :
    (unwrap_file fd >>= f).wp (fun _ _ => False) (fun e _ => ∃ message, e = .value_error message)
      s := by
  apply wp_unwrap_file (fun _ _ _ => ⟨_, rfl⟩)
  intro hopen
  rw [hopen h hfd] at hclosed
  cases hclosed

/-- A call that looks at the handle first refuses one that is closed. -/
theorem Prep.run_closed (hopenat : p.is_openat = false) {h : HandleId} (hhandle : p.handle = some h)
    (hclosed : (s.handles h)._close_called = true) :
    (p.run answer).wp (fun _ _ => False) (fun e _ => ∃ message, e = .value_error message) s := by
  have hclosed' : (s.allocated.handles h)._close_called = true := hclosed
  cases p with
  | openat => cases hopenat
  | create_socket => cases hhandle
  | read fd byte_count offset sqe_flags =>
    rw [Prep.run, prep_read, wp_ite]
    refine ⟨fun _ => (wp_bind.mpr ((wp_throw _).mpr ⟨_, rfl⟩)), ?_⟩
    intro _
    rw [wp_get_next_user_data]
    exact wp_unwrap_closed hhandle hclosed'
  | write fd buffer file_offset count buffer_offset sqe_flags =>
    rw [Prep.run, prep_write, wp_ite]
    refine ⟨fun _ => (wp_bind.mpr ((wp_throw _).mpr ⟨_, rfl⟩)), ?_⟩
    intro _
    rw [wp_get_next_user_data]
    exact wp_unwrap_closed hhandle hclosed'
  | close fd sqe_flags =>
    rw [Prep.run, prep_close, wp_get_next_user_data]
    exact wp_unwrap_closed hhandle hclosed'
  | connect_v4 fd address port sqe_flags =>
    rw [Prep.run, prep_connect_v4, prep_connect, wp_get_next_user_data]
    exact wp_unwrap_closed hhandle hclosed'
  | connect_v6 fd address port sqe_flags =>
    rw [Prep.run, prep_connect_v6, prep_connect, wp_get_next_user_data]
    exact wp_unwrap_closed hhandle hclosed'
  | recv fd byte_count flags sqe_flags =>
    rw [Prep.run, prep_recv, wp_get_next_user_data]
    exact wp_unwrap_closed hhandle hclosed'
  | send fd buffer count buffer_offset flags sqe_flags =>
    rw [Prep.run, prep_send, wp_get_next_user_data]
    exact wp_unwrap_closed hhandle hclosed'

end calls

end CenturyRing
