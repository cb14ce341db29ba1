import CenturyRing.Ring

/-! # Preparing operations (`src/files.rs`, `src/network.rs`, `src/shared.rs`)

  The Rust functions behind the `prep_*` methods. Each checks its arguments,
  builds an entry, pushes it and hands what the entry points into to the ring.
-/

namespace CenturyRing

/-! ### Steps that several operations share -/

/-- `if !ring.probe.is_supported(code) ...` -/
def require_supported (code : OpCode) (name : String) : RustM Unit := do
  if !(← get).ring.probe code then
    throw (.not_implemented_error name)

/-- The flags of an operation whose memory the ring owns: without a completion
    the memory would never be given back. -/
def owned_flags (sqe_flags : UInt8) : Except PyErr Flags :=
  let flags := Flags.from_bits_truncate sqe_flags
  if flags.contains .SKIP_SUCCESS then
    .error (.value_error "Can't use 'SKIP_SUCCESS' on submissions with owned data")
  else
    .ok flags

/-! ### `src/shared.rs` -/

/-- `check_write_buffer`: the end of the range to write. -/
def check_write_buffer (buf : List UInt8) (size offset : UInt64) : Except PyErr UInt64 :=
  let len := buf.length
  if size.toNat > len then
    .error (.value_error s!"can't write {size} bytes from a vec of {len}")
  else if offset.toNat > len then
    .error (.value_error s!"offset {offset} out of range from vec of {len}")
  else
    let end_offset := offset + size
    if end_offset.toNat > len then
      .error (.value_error s!"offset {end_offset} out of range from vec of {len}")
    else
      .ok end_offset

/-- `data[start..end].to_vec()`. -/
def copied_range (data : List UInt8) (start stop : UInt64) : List UInt8 :=
  (data.take stop.toNat).drop start.toNat

/-- `ioring_prep_close`. -/
def ioring_prep_close (fd : Int32) (user_data : UInt64) (sqe_flags : UInt8) (answer : Enter) :
    RustM Unit := do
  require_supported .Close "read"
  let flags := Flags.from_bits_truncate sqe_flags
  autosubmit { op := .Close fd, flags, user_data } answer

/-! ### `src/files.rs` -/

/-- `ioring_prep_openat`. -/
def ioring_prep_openat (dirfd : Int32) (file_path : List UInt8) (user_data : UInt64)
    (file_flags : Int32) (mode : UInt32) (sqe_flags : UInt8) (answer : Enter) : RustM Unit := do
  require_supported .OpenAt "openat"
  let flags ← Fallible.check (owned_flags sqe_flags)
  let owned_path ← new_vec (file_path ++ [0])
  autosubmit { op := .OpenAt dirfd owned_path.ptr file_flags mode, flags, user_data } answer
  add_owned_path user_data owned_path

/-- `ioring_prep_read`. -/
def ioring_prep_read (fd : Int32) (max_size : UInt32) (offset : Int64) (user_data : UInt64)
    (sqe_flags : UInt8) (answer : Enter) : RustM Unit := do
  require_supported .Read "read"
  let flags ← Fallible.check (owned_flags sqe_flags)
  let buf ← new_vec (List.replicate max_size.toNat 0)
  autosubmit { op := .Read fd buf.ptr max_size offset.toUInt64, flags, user_data } answer
  add_owned_buffer user_data buf

/-- `ioring_prep_write`. -/
def ioring_prep_write (fd : Int32) (data : List UInt8) (size buffer_offset : UInt64)
    (file_offset : Int64) (user_data : UInt64) (sqe_flags : UInt8) (answer : Enter) :
    RustM Unit := do
  require_supported .Write "write"
  let flags ← Fallible.check (owned_flags sqe_flags)
  let end_offset ← Fallible.check (check_write_buffer data size buffer_offset)
  let vec ← new_vec (copied_range data buffer_offset end_offset)
  let len := UInt32.ofNat vec.bytes.length
  autosubmit { op := .Write fd vec.ptr len file_offset.toUInt64, flags, user_data } answer
  add_owned_buffer user_data vec

/-! ### `src/network.rs` -/

/-- `ioring_prep_create_socket`. -/
def ioring_prep_create_socket (domain socket_type protocol : Int32) (user_data : UInt64)
    (sqe_flags : UInt8) (answer : Enter) : RustM Unit := do
  require_supported .Socket "socket"
  let flags := Flags.from_bits_truncate sqe_flags
  autosubmit { op := .Socket domain socket_type protocol, flags, user_data } answer

/-- `do_sockaddr_submit`. -/
def do_sockaddr_submit (fd : Int32) (addr : SocketAddr) (user_data : UInt64)
    (sqe_flags : UInt8) (answer : Enter) : RustM Unit := do
  let ptr ← new_block
  let c_addr : SockaddrBox := ⟨ptr, addr⟩
  let flags ← Fallible.check (owned_flags sqe_flags)
  autosubmit { op := .Connect fd c_addr.ptr c_addr.len, flags, user_data } answer
  add_owned_sockaddr user_data c_addr

/-- An address that does not parse is a `ValueError`. -/
def parsed {α : Type} (message : String) (addr : Option α) : Except PyErr α :=
  match addr with
  | some addr => .ok addr
  | none => .error (.value_error message)

/-- `ioring_prep_connect_v4`. -/
def ioring_prep_connect_v4 (fd : Int32) (ip : String) (port : UInt16) (user_data : UInt64)
    (sqe_flags : UInt8) (answer : Enter) : RustM Unit := do
  require_supported .Connect "connect"
  let v4 ← Fallible.check (parsed "invalid IPv4 address syntax" (Ipv4Addr.from_str ip))
  do_sockaddr_submit fd (.V4 v4 port) user_data sqe_flags answer

/-- `ioring_prep_connect_v6`. -/
def ioring_prep_connect_v6 (fd : Int32) (ip : String) (port : UInt16) (user_data : UInt64)
    (sqe_flags : UInt8) (answer : Enter) : RustM Unit := do
  require_supported .Connect "connect"
  let v6 ← Fallible.check (parsed "invalid IPv6 address syntax" (Ipv6Addr.from_str ip))
  do_sockaddr_submit fd (.V6 v6 port) user_data sqe_flags answer

/-- `ioring_prep_send`. -/
def ioring_prep_send (fd : Int32) (data : List UInt8) (size buffer_offset : UInt64)
    (flags : Int32) (user_data : UInt64) (sqe_flags : UInt8) (answer : Enter) : RustM Unit := do
  require_supported .Send "send"
  let parsed_sqe_flags ← Fallible.check (owned_flags sqe_flags)
  let end_offset ← Fallible.check (check_write_buffer data size buffer_offset)
  let vec ← new_vec (copied_range data buffer_offset end_offset)
  let len := UInt32.ofNat vec.bytes.length
  autosubmit { op := .Send fd vec.ptr len flags, flags := parsed_sqe_flags, user_data } answer
  add_owned_buffer user_data vec

/-- `ioring_prep_recv`. -/
def ioring_prep_recv (fd : Int32) (max_size : UInt32) (flags : Int32) (user_data : UInt64)
    (sqe_flags : UInt8) (answer : Enter) : RustM Unit := do
  require_supported .Recv "recv"
  let parsed_sqe_flags ← Fallible.check (owned_flags sqe_flags)
  let buf ← new_vec (List.replicate max_size.toNat 0)
  autosubmit { op := .Recv fd buf.ptr max_size flags, flags := parsed_sqe_flags, user_data } answer
  add_owned_buffer user_data buf

/-! ## What a preparation does -/

/-- `Refused answer w counter e w'`: a preparation that raised `e` took `w` to
    `w'`. Nothing was pushed. -/
inductive Refused (answer : Enter) (w : World) (counter : UInt64) : PyErr → World → Prop where
  /-- A check failed; only the counters may have advanced. -/
  | checked (e : PyErr) (blocks : Nat) (hblocks : w.blocks ≤ blocks) (he : e ≠ queue_full) :
      Refused answer w counter e (w.advance counter blocks)
  /-- The queue did not take the entry. -/
  | unqueued (e : PyErr) (entry : Entry) (blocks : Nat) {w' : World} (hblocks : w.blocks ≤ blocks)
      (hqueue : Autosubmit entry answer (w.advance counter blocks) (.error e) w') :
      Refused answer w counter e w'

/-- `Queued answer w counter entry owned w'`: a preparation that returned took
    `w` to `w'`. It pushed `entry` and handed `owned`, which stands in a new
    block, to the ring. -/
inductive Queued (answer : Enter) (w : World) (counter : UInt64) (entry : Entry)
    (owned : Option OwnedData) : World → Prop where
  | intro (blocks : Nat) (w₁ : World) (hblocks : w.blocks ≤ blocks)
      (hfresh : ∀ ptr, entry.op.pointer = some ptr → w.blocks ≤ ptr ∧ ptr < blocks)
      (hprepared : Prepared entry owned)
      (hqueue : Resubmitted answer (w.advance counter blocks) w₁) (hroom : w₁.has_room) :
      Queued answer w counter entry owned ((w₁.push entry).own entry.user_data owned)

section rules

open Fallible

variable {answer : Enter} {w : World}

theorem Refused.refl (answer : Enter) (w : World) {e : PyErr} (he : e ≠ queue_full) :
    Refused answer w w.ring.user_data_counter e w :=
  .checked e w.blocks (Nat.le_refl _) he

/-- The queue as a refused preparation leaves it. -/
theorem Refused.resubmitted {counter : UInt64} {e : PyErr} {w' : World}
    (h : Refused answer w counter e w') :
    ∃ blocks, w.blocks ≤ blocks ∧ Resubmitted answer (w.advance counter blocks) w' := by
  cases h with
  | checked blocks hblocks he => exact ⟨blocks, hblocks, .unchanged⟩
  | unqueued entry blocks hblocks hqueue => exact ⟨blocks, hblocks, hqueue.error⟩

theorem wp_require_supported {Q : Unit → World → Prop} {E : PyErr → World → Prop}
    (code : OpCode) (name : String) :
    (require_supported code name).wp Q E w ↔
      (w.ring.probe code = true → Q () w) ∧
      (w.ring.probe code = false → E (.not_implemented_error name) w) := by
  simp only [require_supported, wp_bind, wp_get, wp_ite, wp_throw, wp_pure]
  cases w.ring.probe code <;> simp

/-- Flags that pass the check do not carry `SKIP_SUCCESS`. -/
theorem owned_flags_ok {sqe_flags : UInt8} {flags : Flags} (h : owned_flags sqe_flags = .ok flags) :
    flags = Flags.from_bits_truncate sqe_flags ∧ flags.contains .SKIP_SUCCESS = false := by
  simp only [owned_flags] at h
  split at h
  · cases h
  · next hskip =>
    cases h
    exact ⟨rfl, by simpa using hskip⟩

theorem owned_flags_error {sqe_flags : UInt8} {e : PyErr} (h : owned_flags sqe_flags = .error e) :
    e ≠ queue_full := by
  simp only [owned_flags] at h
  split at h
  · cases h
    simp [queue_full]
  · cases h

/-- Flags that do not pass it carry `SKIP_SUCCESS`. -/
theorem owned_flags_skip {sqe_flags : UInt8} {e : PyErr} (h : owned_flags sqe_flags = .error e) :
    (∃ message, e = .value_error message) ∧
      (Flags.from_bits_truncate sqe_flags).contains .SKIP_SUCCESS = true := by
  simp only [owned_flags] at h
  split at h
  · next hskip =>
    cases h
    exact ⟨⟨_, rfl⟩, hskip⟩
  · cases h

/-- The end of every operation that owns nothing. -/
theorem wp_queue {entry : Entry} (hpointer : entry.op.pointer = none)
    (htimeout : entry.op.is_timeout = false) :
    (autosubmit entry answer).wp
      (fun _ w' => Queued answer w w.ring.user_data_counter entry none w')
      (fun e w' => Refused answer w w.ring.user_data_counter e w') w := by
  refine wp_mono (autosubmit_cases entry answer w) (fun _ w' h => ?_)
    (fun e w' h => .unqueued e entry w.blocks (Nat.le_refl _) h)
  obtain ⟨w₁, hqueue, hroom, rfl⟩ := h.ok
  refine .intro w.blocks w₁ (Nat.le_refl _) ?_ ?_ hqueue hroom
  · intro ptr hptr
    rw [hpointer] at hptr
    cases hptr
  · exact ⟨fun _ h => (nomatch h), fun _ => hpointer, fun h => (nomatch h), htimeout⟩

/-- The end of every operation that owns something: the block just allocated. -/
theorem wp_queue_owned {entry : Entry} {owned : OwnedData}
    (hpointer : entry.op.pointer = some w.blocks) (hbacks : owned.backs entry.op)
    (hflags : entry.flags.contains .SKIP_SUCCESS = false) :
    (autosubmit entry answer >>= fun _ => owned_data_insert entry.user_data owned).wp
      (fun _ w' => Queued answer w w.ring.user_data_counter entry (some owned) w')
      (fun e w' => Refused answer w w.ring.user_data_counter e w')
      { w with blocks := w.blocks + 1 } := by
  refine wp_mono (wp_autosubmit_own entry answer owned _) (fun _ w' h => ?_)
    (fun e w' h => .unqueued e entry (w.blocks + 1) (Nat.le_succ _) h)
  obtain ⟨w₁, hqueue, hroom, rfl⟩ := h
  refine .intro (w.blocks + 1) w₁ (Nat.le_succ _) ?_ ?_ hqueue hroom
  · intro ptr hptr
    rw [hpointer] at hptr
    cases hptr
    exact ⟨Nat.le_refl _, Nat.lt_succ_self _⟩
  · refine ⟨?_, fun h => (nomatch h), fun _ => hflags, ?_⟩
    · intro data hdata
      cases hdata
      exact hbacks
    · cases hop : entry.op <;> rw [hop] at hpointer <;> first | rfl | cases hpointer

end rules

/-- No message of `check_write_buffer` is that of a full queue: they begin
    differently. -/
theorem message_ne_queue_full {message : String} (c : Char) (hc : c ≠ 's')
    (h : message.toList.head? = some c) : .value_error message ≠ queue_full := by
  intro heq
  injection heq with heq
  subst heq
  simp only [String.reduceToList, List.head?_cons, Option.some.injEq] at h
  exact hc h.symm

theorem check_write_buffer_error {buf : List UInt8} {size offset : UInt64} {e : PyErr}
    (h : check_write_buffer buf size offset = .error e) : e ≠ queue_full := by
  simp only [check_write_buffer] at h
  split at h
  · cases h
    exact message_ne_queue_full 'c' (by decide) (by simp [toString])
  split at h
  · cases h
    exact message_ne_queue_full 'o' (by decide) (by simp [toString])
  split at h
  · cases h
    exact message_ne_queue_full 'o' (by decide) (by simp [toString])
  · cases h

theorem parsed_error {α : Type} {message : String} {addr : Option α} {e : PyErr}
    (h : parsed message addr = .error e) (hmessage : .value_error message ≠ queue_full) :
    e ≠ queue_full := by
  cases addr with
  | some addr => cases h
  | none =>
    cases h
    exact hmessage

/-- A range that passes the check ends where it should, inside the buffer. -/
theorem check_write_buffer_ok {buf : List UInt8} {size offset end_offset : UInt64}
    (h : check_write_buffer buf size offset = .ok end_offset) :
    end_offset = offset + size ∧ size.toNat ≤ buf.length ∧ offset.toNat ≤ buf.length ∧
      end_offset.toNat ≤ buf.length := by
  simp only [check_write_buffer] at h
  split at h
  · cases h
  split at h
  · cases h
  split at h
  · cases h
  · next hsize hoffset hend =>
    cases h
    exact ⟨rfl, Nat.not_lt.mp hsize, Nat.not_lt.mp hoffset, Nat.not_lt.mp hend⟩

/-! ### One lemma for each operation -/

section operations

open Fallible

variable (answer : Enter) (w : World)

/-- An operation the kernel does not support is refused. -/
theorem wp_call {code : OpCode} {name : String} {m : RustM Unit} {Q : Unit → World → Prop}
    (hm : m.wp Q (fun e w' => Refused answer w w.ring.user_data_counter e w') w) :
    (require_supported code name >>= fun _ => m).wp Q
      (fun e w' => Refused answer w w.ring.user_data_counter e w') w := by
  rw [wp_bind, wp_require_supported]
  exact ⟨fun _ => hm, fun _ => .refl answer w nofun⟩

/-- Flags that carry `SKIP_SUCCESS` are refused by an operation that owns
    something. -/
theorem wp_owned_flags {sqe_flags : UInt8} {blocks : Nat} (hblocks : w.blocks ≤ blocks)
    {f : Flags → RustM Unit} {Q : Unit → World → Prop}
    (hf : (Flags.from_bits_truncate sqe_flags).contains .SKIP_SUCCESS = false →
      (f (Flags.from_bits_truncate sqe_flags)).wp Q
        (fun e w' => Refused answer w w.ring.user_data_counter e w') { w with blocks := blocks }) :
    (check (owned_flags sqe_flags) >>= f).wp Q
      (fun e w' => Refused answer w w.ring.user_data_counter e w') { w with blocks := blocks } := by
  refine wp_check (fun e h => ?_) fun flags h => ?_
  · exact .checked e blocks hblocks (owned_flags_error h)
  · obtain ⟨rfl, hskip⟩ := owned_flags_ok h
    exact hf hskip

theorem wp_ioring_prep_close (fd : Int32) (user_data : UInt64) (sqe_flags : UInt8) :
    (ioring_prep_close fd user_data sqe_flags answer).wp
      (fun _ w' => Queued answer w w.ring.user_data_counter
        ⟨.Close fd, Flags.from_bits_truncate sqe_flags, user_data⟩ none w')
      (fun e w' => Refused answer w w.ring.user_data_counter e w') w := by
  apply wp_call answer w
  exact wp_queue rfl rfl

theorem wp_ioring_prep_create_socket (domain socket_type protocol : Int32) (user_data : UInt64)
    (sqe_flags : UInt8) :
    (ioring_prep_create_socket domain socket_type protocol user_data sqe_flags answer).wp
      (fun _ w' => Queued answer w w.ring.user_data_counter
        ⟨.Socket domain socket_type protocol, Flags.from_bits_truncate sqe_flags, user_data⟩
        none w')
      (fun e w' => Refused answer w w.ring.user_data_counter e w') w := by
  apply wp_call answer w
  exact wp_queue rfl rfl

theorem wp_ioring_prep_openat (dirfd : Int32) (file_path : List UInt8) (user_data : UInt64)
    (file_flags : Int32) (mode : UInt32) (sqe_flags : UInt8) :
    (ioring_prep_openat dirfd file_path user_data file_flags mode sqe_flags answer).wp
      (fun _ w' => Queued answer w w.ring.user_data_counter
        ⟨.OpenAt dirfd w.blocks file_flags mode, Flags.from_bits_truncate sqe_flags, user_data⟩
        (some (.OnePath ⟨w.blocks, file_path ++ [0]⟩)) w')
      (fun e w' => Refused answer w w.ring.user_data_counter e w') w := by
  refine wp_call answer w (wp_owned_flags answer w (Nat.le_refl _) ?_)
  intro hskip
  rw [wp_bind, wp_new_vec]
  exact wp_queue_owned rfl rfl hskip

theorem wp_ioring_prep_read (fd : Int32) (max_size : UInt32) (offset : Int64)
    (user_data : UInt64) (sqe_flags : UInt8) :
    (ioring_prep_read fd max_size offset user_data sqe_flags answer).wp
      (fun _ w' => Queued answer w w.ring.user_data_counter
        ⟨.Read fd w.blocks max_size offset.toUInt64, Flags.from_bits_truncate sqe_flags, user_data⟩
        (some (.Buffer ⟨w.blocks, List.replicate max_size.toNat 0⟩)) w')
      (fun e w' => Refused answer w w.ring.user_data_counter e w') w := by
  refine wp_call answer w (wp_owned_flags answer w (Nat.le_refl _) ?_)
  intro hskip
  rw [wp_bind, wp_new_vec]
  exact wp_queue_owned rfl ⟨rfl, by simp⟩ hskip

theorem wp_ioring_prep_recv (fd : Int32) (max_size : UInt32) (flags : Int32)
    (user_data : UInt64) (sqe_flags : UInt8) :
    (ioring_prep_recv fd max_size flags user_data sqe_flags answer).wp
      (fun _ w' => Queued answer w w.ring.user_data_counter
        ⟨.Recv fd w.blocks max_size flags, Flags.from_bits_truncate sqe_flags, user_data⟩
        (some (.Buffer ⟨w.blocks, List.replicate max_size.toNat 0⟩)) w')
      (fun e w' => Refused answer w w.ring.user_data_counter e w') w := by
  refine wp_call answer w (wp_owned_flags answer w (Nat.le_refl _) ?_)
  intro hskip
  rw [wp_bind, wp_new_vec]
  exact wp_queue_owned rfl ⟨rfl, by simp⟩ hskip

theorem wp_ioring_prep_write (fd : Int32) (data : List UInt8) (size buffer_offset : UInt64)
    (file_offset : Int64) (user_data : UInt64) (sqe_flags : UInt8) :
    (ioring_prep_write fd data size buffer_offset file_offset user_data sqe_flags answer).wp
      (fun _ w' =>
        let vec := copied_range data buffer_offset (buffer_offset + size)
        Queued answer w w.ring.user_data_counter
          ⟨.Write fd w.blocks (UInt32.ofNat vec.length) file_offset.toUInt64,
            Flags.from_bits_truncate sqe_flags, user_data⟩
          (some (.Buffer ⟨w.blocks, vec⟩)) w')
      (fun e w' => Refused answer w w.ring.user_data_counter e w') w := by
  refine wp_call answer w (wp_owned_flags answer w (Nat.le_refl _) ?_)
  intro hskip
  apply wp_check (fun e h => .refl answer w (check_write_buffer_error h))
  intro end_offset hend
  obtain ⟨rfl, -⟩ := check_write_buffer_ok hend
  rw [wp_bind, wp_new_vec]
  exact wp_queue_owned rfl ⟨rfl, by simpa using Nat.mod_le _ _⟩ hskip

theorem wp_ioring_prep_send (fd : Int32) (data : List UInt8) (size buffer_offset : UInt64)
    (flags : Int32) (user_data : UInt64) (sqe_flags : UInt8) :
    (ioring_prep_send fd data size buffer_offset flags user_data sqe_flags answer).wp
      (fun _ w' =>
        let vec := copied_range data buffer_offset (buffer_offset + size)
        Queued answer w w.ring.user_data_counter
          ⟨.Send fd w.blocks (UInt32.ofNat vec.length) flags,
            Flags.from_bits_truncate sqe_flags, user_data⟩
          (some (.Buffer ⟨w.blocks, vec⟩)) w')
      (fun e w' => Refused answer w w.ring.user_data_counter e w') w := by
  refine wp_call answer w (wp_owned_flags answer w (Nat.le_refl _) ?_)
  intro hskip
  apply wp_check (fun e h => .refl answer w (check_write_buffer_error h))
  intro end_offset hend
  obtain ⟨rfl, -⟩ := check_write_buffer_ok hend
  rw [wp_bind, wp_new_vec]
  exact wp_queue_owned rfl ⟨rfl, by simpa using Nat.mod_le _ _⟩ hskip

theorem wp_do_sockaddr_submit (fd : Int32) (addr : SocketAddr) (user_data : UInt64)
    (sqe_flags : UInt8) :
    (do_sockaddr_submit fd addr user_data sqe_flags answer).wp
      (fun _ w' => Queued answer w w.ring.user_data_counter
        ⟨.Connect fd w.blocks (SockaddrBox.len ⟨w.blocks, addr⟩),
          Flags.from_bits_truncate sqe_flags, user_data⟩
        (some (.SockAddr ⟨w.blocks, addr⟩)) w')
      (fun e w' => Refused answer w w.ring.user_data_counter e w') w := by
  rw [do_sockaddr_submit, wp_bind, wp_new_block]
  exact wp_owned_flags answer w (Nat.le_succ _) fun hskip => wp_queue_owned rfl ⟨rfl, rfl⟩ hskip

/-- The address of a connect that is queued. -/
def Connected (answer : Enter) (w : World) (fd : Int32) (user_data : UInt64) (sqe_flags : UInt8)
    (addr : SocketAddr) (w' : World) : Prop :=
  Queued answer w w.ring.user_data_counter
    ⟨.Connect fd w.blocks (SockaddrBox.len ⟨w.blocks, addr⟩),
      Flags.from_bits_truncate sqe_flags, user_data⟩
    (some (.SockAddr ⟨w.blocks, addr⟩)) w'

theorem wp_ioring_prep_connect_v4 (fd : Int32) (ip : String) (port : UInt16)
    (user_data : UInt64) (sqe_flags : UInt8) :
    (ioring_prep_connect_v4 fd ip port user_data sqe_flags answer).wp
      (fun _ w' => ∃ v4, Ipv4Addr.from_str ip = some v4 ∧
        Connected answer w fd user_data sqe_flags (.V4 v4 port) w')
      (fun e w' => Refused answer w w.ring.user_data_counter e w') w := by
  refine wp_call answer w (wp_check (fun e h => ?_) fun v4 hv4 => ?_)
  · exact .refl answer w (parsed_error h (by simp [queue_full]))
  refine wp_mono (wp_do_sockaddr_submit answer w fd _ user_data sqe_flags)
    (fun _ w' h => ⟨v4, ?_, h⟩) (fun _ _ h => h)
  cases hip : Ipv4Addr.from_str ip <;> simp_all [parsed]

theorem wp_ioring_prep_connect_v6 (fd : Int32) (ip : String) (port : UInt16)
    (user_data : UInt64) (sqe_flags : UInt8) :
    (ioring_prep_connect_v6 fd ip port user_data sqe_flags answer).wp
      (fun _ w' => ∃ v6, Ipv6Addr.from_str ip = some v6 ∧
        Connected answer w fd user_data sqe_flags (.V6 v6 port) w')
      (fun e w' => Refused answer w w.ring.user_data_counter e w') w := by
  refine wp_call answer w (wp_check (fun e h => ?_) fun v6 hv6 => ?_)
  · exact .refl answer w (parsed_error h (by simp [queue_full]))
  refine wp_mono (wp_do_sockaddr_submit answer w fd _ user_data sqe_flags)
    (fun _ w' h => ⟨v6, ?_, h⟩) (fun _ _ h => h)
  cases hip : Ipv6Addr.from_str ip <;> simp_all [parsed]

end operations

end CenturyRing
