import CenturyRing.Runs

/-! # Raw calls

  The Rust functions behind the `prep_*` methods can be called directly, with
  any user data. What an operation points into is owned under its user data,
  so two operations that share one get in each other's way.
-/

open LTS

namespace CenturyRing

/-! ### Calls of the Rust functions -/

/-- A call of a `_RUSTFFI_ioring_prep_*` function with its arguments. -/
inductive RawPrep where
  | openat (dirfd : Int32) (file_path : List UInt8) (user_data : UInt64) (file_flags : Int32)
      (mode : UInt32) (sqe_flags : UInt8)
  | read (fd : Int32) (max_size : UInt32) (offset : Int64) (user_data : UInt64)
      (sqe_flags : UInt8)
  | write (fd : Int32) (data : List UInt8) (size buffer_offset : UInt64) (file_offset : Int64)
      (user_data : UInt64) (sqe_flags : UInt8)
  | close (fd : Int32) (user_data : UInt64) (sqe_flags : UInt8)
  | create_socket (domain socket_type protocol : Int32) (user_data : UInt64) (sqe_flags : UInt8)
  | connect_v4 (fd : Int32) (ip : String) (port : UInt16) (user_data : UInt64)
      (sqe_flags : UInt8)
  | connect_v6 (fd : Int32) (ip : String) (port : UInt16) (user_data : UInt64)
      (sqe_flags : UInt8)
  | recv (fd : Int32) (max_size : UInt32) (flags : Int32) (user_data : UInt64) (sqe_flags : UInt8)
  | send (fd : Int32) (data : List UInt8) (size buffer_offset : UInt64) (flags : Int32)
      (user_data : UInt64) (sqe_flags : UInt8)

namespace RawPrep

/-- Make the call. -/
def run : RawPrep → Enter → RustM Unit
  | openat dirfd file_path user_data file_flags mode sqe_flags =>
    ioring_prep_openat dirfd file_path user_data file_flags mode sqe_flags
  | read fd max_size offset user_data sqe_flags =>
    ioring_prep_read fd max_size offset user_data sqe_flags
  | write fd data size buffer_offset file_offset user_data sqe_flags =>
    ioring_prep_write fd data size buffer_offset file_offset user_data sqe_flags
  | close fd user_data sqe_flags => ioring_prep_close fd user_data sqe_flags
  | create_socket domain socket_type protocol user_data sqe_flags =>
    ioring_prep_create_socket domain socket_type protocol user_data sqe_flags
  | connect_v4 fd ip port user_data sqe_flags =>
    ioring_prep_connect_v4 fd ip port user_data sqe_flags
  | connect_v6 fd ip port user_data sqe_flags =>
    ioring_prep_connect_v6 fd ip port user_data sqe_flags
  | recv fd max_size flags user_data sqe_flags =>
    ioring_prep_recv fd max_size flags user_data sqe_flags
  | send fd data size buffer_offset flags user_data sqe_flags =>
    ioring_prep_send fd data size buffer_offset flags user_data sqe_flags

def user_data : RawPrep → UInt64
  | openat _ _ user_data _ _ _ | read _ _ _ user_data _ | write _ _ _ _ _ user_data _
  | close _ user_data _ | create_socket _ _ _ user_data _ | connect_v4 _ _ _ user_data _
  | connect_v6 _ _ _ user_data _ | recv _ _ _ user_data _ | send _ _ _ _ _ user_data _ => user_data

def sqe_flags : RawPrep → UInt8
  | openat _ _ _ _ _ sqe_flags | read _ _ _ _ sqe_flags | write _ _ _ _ _ _ sqe_flags
  | close _ _ sqe_flags | create_socket _ _ _ _ sqe_flags | connect_v4 _ _ _ _ sqe_flags
  | connect_v6 _ _ _ _ sqe_flags | recv _ _ _ _ sqe_flags | send _ _ _ _ _ _ sqe_flags => sqe_flags

/-- The operation the ring has to support. -/
def code : RawPrep → OpCode
  | openat .. => .OpenAt
  | read .. => .Read
  | write .. => .Write
  | close .. => .Close
  | create_socket .. => .Socket
  | connect_v4 .. | connect_v6 .. => .Connect
  | recv .. => .Recv
  | send .. => .Send

/-- The call hands memory to the ring. -/
def owns : RawPrep → Bool
  | close .. | create_socket .. => false
  | _ => true

/-- The arguments pass the checks of the function, the flags aside. -/
def checked : RawPrep → Prop
  | write _ data size buffer_offset _ _ _ | send _ data size buffer_offset _ _ _ =>
    (check_write_buffer data size buffer_offset).toOption.isSome = true
  | connect_v4 _ ip _ _ _ => (Ipv4Addr.from_str ip).isSome = true
  | connect_v6 _ ip _ _ _ => (Ipv6Addr.from_str ip).isSome = true
  | _ => True

instance (c : RawPrep) : Decidable c.checked := by
  unfold checked
  split <;> infer_instance

/-- The call, made in state `w`, returns. -/
structure Accepted (c : RawPrep) (answer : Enter) (w : World) : Prop where
  supported : w.ring.probe c.code = true
  no_skip : c.owns = true →
    (Flags.from_bits_truncate c.sqe_flags).contains .SKIP_SUCCESS = false
  checked : c.checked
  taken : w.takes answer

section accepted

open Fallible

variable {c : RawPrep} {answer : Enter} {w w' : World}

/-- After all checks, it is up to the queue. -/
theorem accepted_iff (hsupported : w.ring.probe c.code = true)
    (hskip : c.owns = true → (Flags.from_bits_truncate c.sqe_flags).contains .SKIP_SUCCESS = false)
    (hchecked : c.checked) (blocks : Nat) :
    (w.advance w.ring.user_data_counter blocks).takes answer ↔ c.Accepted answer w := by
  rw [w.takes_advance]
  exact ⟨fun htaken => ⟨hsupported, hskip, hchecked, htaken⟩, fun h => h.taken⟩

theorem wp_supported {name : String} {m : RustM Unit}
    (hm : w.ring.probe c.code = true →
      m.wp (fun _ _ => c.Accepted answer w) (fun _ _ => ¬c.Accepted answer w) w) :
    (require_supported c.code name >>= fun _ => m).wp (fun _ _ => c.Accepted answer w)
      (fun _ _ => ¬c.Accepted answer w) w := by
  rw [wp_bind, wp_require_supported]
  refine ⟨hm, ?_⟩
  intro hunsupported haccepted
  exact Bool.false_ne_true (hunsupported.symm.trans haccepted.supported)

theorem wp_flags (howns : c.owns = true) {f : Flags → RustM Unit}
    (hf : ∀ flags, (Flags.from_bits_truncate c.sqe_flags).contains .SKIP_SUCCESS = false →
      (f flags).wp (fun _ _ => c.Accepted answer w) (fun _ _ => ¬c.Accepted answer w) w') :
    (check (owned_flags c.sqe_flags) >>= f).wp (fun _ _ => c.Accepted answer w)
      (fun _ _ => ¬c.Accepted answer w) w' := by
  refine wp_check (fun e h haccepted => ?_) fun flags h => ?_
  · have hskip := (owned_flags_skip h).2
    rw [haccepted.no_skip howns] at hskip
    cases hskip
  · obtain ⟨rfl, hskip⟩ := owned_flags_ok h
    exact hf _ hskip

theorem wp_push {entry : Entry} {P : Prop} (hP : w'.takes answer ↔ P) :
    (autosubmit entry answer).wp (fun _ _ => P) (fun _ _ => ¬P) w' := by
  rw [← hP]
  exact wp_mono (autosubmit_cases entry answer w') (fun _ _ h => h.taken) (fun _ _ h => h.not_taken)

theorem wp_push_own {entry : Entry} {owned : OwnedData} {user_data : UInt64} {P : Prop}
    (hP : w'.takes answer ↔ P) :
    (autosubmit entry answer >>= fun _ => owned_data_insert user_data owned).wp (fun _ _ => P)
      (fun _ _ => ¬P) w' := by
  rw [wp_bind]
  exact wp_mono (wp_push hP) (fun _ _ h => (wp_modify _).mpr h) (fun _ _ h => h)

/-- A check that an argument passes exactly if the call is accepted otherwise. -/
theorem wp_argument {β : Type} {r : Except PyErr β} {f : β → RustM Unit}
    (hr : r.toOption.isSome = true ↔ c.checked)
    (hf : ∀ y, c.checked → (f y).wp (fun _ _ => c.Accepted answer w)
      (fun _ _ => ¬c.Accepted answer w) w') :
    (check r >>= f).wp (fun _ _ => c.Accepted answer w) (fun _ _ => ¬c.Accepted answer w) w' := by
  refine wp_check (fun e h haccepted => ?_) fun y h => hf y ?_
  · have hsome := hr.mpr haccepted.checked
    rw [h] at hsome
    cases hsome
  · rw [← hr, h]
    rfl

/-- The copy of the caller's bytes is owned once the entry is in the queue. -/
theorem wp_copied (hsupported : w.ring.probe c.code = true)
    (hskip : (Flags.from_bits_truncate c.sqe_flags).contains .SKIP_SUCCESS = false)
    (hchecked : c.checked) {bytes : List UInt8} {entry : Vec → Entry} {owned : Vec → OwnedData}
    {user_data : UInt64} :
    (new_vec bytes >>= fun vec =>
      autosubmit (entry vec) answer >>= fun _ => owned_data_insert user_data (owned vec)).wp
      (fun _ _ => c.Accepted answer w) (fun _ _ => ¬c.Accepted answer w) w := by
  rw [wp_bind, wp_new_vec]
  exact wp_push_own (accepted_iff hsupported (fun _ => hskip) hchecked (w.blocks + 1))

theorem parsed_isSome_iff {α : Type} (message : String) (addr : Option α) :
    (parsed message addr).toOption.isSome = true ↔ addr.isSome = true := by
  cases addr with
  | none => exact Iff.rfl
  | some addr => exact Iff.rfl

/-- The part that the two connects share. -/
theorem wp_sockaddr (howns : c.owns = true) (hsupported : w.ring.probe c.code = true)
    (hchecked : c.checked) (fd : Int32) (addr : SocketAddr) (user_data : UInt64) :
    (do_sockaddr_submit fd addr user_data c.sqe_flags answer).wp (fun _ _ => c.Accepted answer w)
      (fun _ _ => ¬c.Accepted answer w) w := by
  rw [do_sockaddr_submit, wp_bind, wp_new_block]
  apply wp_flags howns
  intro flags hskip
  exact wp_push_own (accepted_iff hsupported (fun _ => hskip) hchecked (w.blocks + 1))

/-- A call returns exactly if it is accepted. -/
theorem wp_accepted (c : RawPrep) (answer : Enter) (w : World) :
    (c.run answer).wp (fun _ _ => c.Accepted answer w) (fun _ _ => ¬c.Accepted answer w) w := by
  cases c with
  | openat dirfd file_path user_data file_flags mode sqe_flags =>
    apply wp_supported (c := .openat ..)
    intro hsupported
    apply wp_flags (c := .openat ..) rfl
    intro flags hskip
    exact wp_copied hsupported hskip trivial
  | read fd max_size offset user_data sqe_flags =>
    apply wp_supported (c := .read ..)
    intro hsupported
    apply wp_flags (c := .read ..) rfl
    intro flags hskip
    exact wp_copied hsupported hskip trivial
  | recv fd max_size flags user_data sqe_flags =>
    apply wp_supported (c := .recv ..)
    intro hsupported
    apply wp_flags (c := .recv ..) rfl
    intro flags hskip
    exact wp_copied hsupported hskip trivial
  | write fd data size buffer_offset file_offset user_data sqe_flags =>
    apply wp_supported (c := .write ..)
    intro hsupported
    apply wp_flags (c := .write ..) rfl
    intro flags hskip
    apply wp_argument (c := .write ..) Iff.rfl
    intro end_offset hchecked
    exact wp_copied hsupported hskip hchecked
  | send fd data size buffer_offset flags user_data sqe_flags =>
    apply wp_supported (c := .send ..)
    intro hsupported
    apply wp_flags (c := .send ..) rfl
    intro flags hskip
    apply wp_argument (c := .send ..) Iff.rfl
    intro end_offset hchecked
    exact wp_copied hsupported hskip hchecked
  | close fd user_data sqe_flags =>
    apply wp_supported (c := .close ..)
    intro hsupported
    exact wp_push (accepted_iff hsupported nofun trivial w.blocks)
  | create_socket domain socket_type protocol user_data sqe_flags =>
    apply wp_supported (c := .create_socket ..)
    intro hsupported
    exact wp_push (accepted_iff hsupported nofun trivial w.blocks)
  | connect_v4 fd ip port user_data sqe_flags =>
    apply wp_supported (c := .connect_v4 ..)
    intro hsupported
    apply wp_argument (c := .connect_v4 ..) (parsed_isSome_iff _ _)
    intro v4 hchecked
    exact wp_sockaddr (c := .connect_v4 ..) rfl hsupported hchecked fd _ user_data
  | connect_v6 fd ip port user_data sqe_flags =>
    apply wp_supported (c := .connect_v6 ..)
    intro hsupported
    apply wp_argument (c := .connect_v6 ..) (parsed_isSome_iff _ _)
    intro v6 hchecked
    exact wp_sockaddr (c := .connect_v6 ..) rfl hsupported hchecked fd _ user_data

/-- Everything a call can do. -/
theorem run_cases (c : RawPrep) (answer : Enter) (w : World) :
    (c.run answer).wp
      (fun _ w' => ∃ entry owned, entry.user_data = c.user_data ∧ Option.isSome owned = c.owns ∧
        Queued answer w w.ring.user_data_counter entry owned w')
      (fun e w' => Refused answer w w.ring.user_data_counter e w') w := by
  cases c with
  | openat =>
    exact wp_mono (wp_ioring_prep_openat answer w ..) (fun _ _ h => ⟨_, _, rfl, rfl, h⟩)
      (fun _ _ h => h)
  | read =>
    exact wp_mono (wp_ioring_prep_read answer w ..) (fun _ _ h => ⟨_, _, rfl, rfl, h⟩)
      (fun _ _ h => h)
  | write =>
    exact wp_mono (wp_ioring_prep_write answer w ..) (fun _ _ h => ⟨_, _, rfl, rfl, h⟩)
      (fun _ _ h => h)
  | close =>
    exact wp_mono (wp_ioring_prep_close answer w ..) (fun _ _ h => ⟨_, _, rfl, rfl, h⟩)
      (fun _ _ h => h)
  | create_socket =>
    exact wp_mono (wp_ioring_prep_create_socket answer w ..) (fun _ _ h => ⟨_, _, rfl, rfl, h⟩)
      (fun _ _ h => h)
  | connect_v4 =>
    refine wp_mono (wp_ioring_prep_connect_v4 answer w ..) ?_ (fun _ _ h => h)
    intro _ _ h
    obtain ⟨v4, -, hqueued⟩ := h
    exact ⟨_, _, rfl, rfl, hqueued⟩
  | connect_v6 =>
    refine wp_mono (wp_ioring_prep_connect_v6 answer w ..) ?_ (fun _ _ h => h)
    intro _ _ h
    obtain ⟨v6, -, hqueued⟩ := h
    exact ⟨_, _, rfl, rfl, hqueued⟩
  | recv =>
    exact wp_mono (wp_ioring_prep_recv answer w ..) (fun _ _ h => ⟨_, _, rfl, rfl, h⟩)
      (fun _ _ h => h)
  | send =>
    exact wp_mono (wp_ioring_prep_send answer w ..) (fun _ _ h => ⟨_, _, rfl, rfl, h⟩)
      (fun _ _ h => h)

end accepted

end RawPrep

/-! ### Memory in use -/

/-- The operations, queued or in flight, that point into memory. -/
def World.in_use (w : World) : List Entry :=
  (w.pending ++ w.running).filter (·.op.pointer.isSome)

theorem World.mem_in_use {w : World} {entry : Entry} :
    entry ∈ w.in_use ↔
      (entry ∈ w.pending ∨ entry ∈ w.running) ∧ entry.op.pointer.isSome = true := by
  rw [in_use, List.mem_filter, List.mem_append]

/-- What `entry` points into is among the owned data. -/
def World.holds (w : World) (entry : Entry) : Prop :=
  ∃ key data, w.ring.owned_data key = some data ∧ data.backs entry.op

/-- No memory has been dropped that is in use. -/
def MemoryKept (w : World) : Prop := ∀ entry ∈ w.in_use, w.holds entry

/-- Every block belongs to one operation, and it is owned under no other user
    data than that of the operation. -/
structure Keyed (w : World) : Prop where
  below : ∀ entry ∈ w.in_use, ∀ ptr, entry.op.pointer = some ptr → ptr < w.blocks
  owned_below : ∀ key data, w.ring.owned_data key = some data → ∀ op ptr, data.backs op →
    op.pointer = some ptr → ptr < w.blocks
  own_key : ∀ entry ∈ w.in_use, ∀ key data, w.ring.owned_data key = some data →
    data.backs entry.op → key = entry.user_data

/-- What is owned points to one block. -/
theorem OwnedData.backs_same {data : OwnedData} {op op' : Operation} (h : data.backs op)
    (h' : data.backs op') : op.pointer = op'.pointer := by
  cases data <;> cases op <;> first
    | exact h.elim
    | cases op' <;> first
      | exact h'.elim
      | simp_all [OwnedData.backs, Operation.pointer]

/-- `Settles w w'`: operations may have ended on the way from `w` to `w'`, and no
    memory was handed over or dropped. -/
structure Settles (w w' : World) : Prop where
  in_use : w'.in_use ⊆ w.in_use
  memory : w.SameMemory w'
  blocks : w.blocks ≤ w'.blocks

namespace Settles

variable {w w' w'' : World}

theorem refl (w : World) : Settles w w := ⟨List.Subset.refl _, .of_eq rfl, Nat.le_refl _⟩

theorem trans (h : Settles w w') (h' : Settles w' w'') : Settles w w'' :=
  ⟨List.Subset.trans h'.in_use h.in_use, h.memory.trans h'.memory, Nat.le_trans h.blocks h'.blocks⟩

/-- What backs an operation afterwards has backed it before. -/
theorem backs (h : Settles w w') {key : UInt64} {data : OwnedData} {op : Operation}
    (hdata : w'.ring.owned_data key = some data) (hbacks : data.backs op) :
    ∃ data, w.ring.owned_data key = some data ∧ data.backs op := by
  obtain ⟨f, hf, hkeys⟩ := h.memory
  rw [hkeys] at hdata
  obtain ⟨data', hdata', rfl⟩ := Option.map_eq_some_iff.mp hdata
  exact ⟨data', hdata', (hf data' op).mp hbacks⟩

theorem keyed (h : Settles w w') (hw : Keyed w) : Keyed w' where
  below := by
    intro entry hentry ptr hptr
    exact Nat.lt_of_lt_of_le (hw.below entry (h.in_use hentry) ptr hptr) h.blocks
  owned_below := by
    intro key data hdata op ptr hbacks hptr
    obtain ⟨data', hdata', hbacks'⟩ := h.backs hdata hbacks
    exact Nat.lt_of_lt_of_le (hw.owned_below key data' hdata' op ptr hbacks' hptr) h.blocks
  own_key := by
    intro entry hentry key data hdata hbacks
    obtain ⟨data', hdata', hbacks'⟩ := h.backs hdata hbacks
    exact hw.own_key entry (h.in_use hentry) key data' hdata' hbacks'

theorem kept (h : Settles w w') (hw : MemoryKept w) : MemoryKept w' := by
  intro entry hentry
  obtain ⟨key, data, hdata⟩ := hw entry (h.in_use hentry)
  obtain ⟨data', hdata'⟩ := h.memory.backs ⟨data, hdata⟩
  exact ⟨key, data', hdata'⟩

theorem kernel_step (w : World) (ev : KernelEvent) : Settles w (w.kernel_step ev) where
  in_use := by
    intro entry hentry
    rw [World.mem_in_use] at hentry ⊢
    obtain ⟨hwhere, hpointer⟩ := hentry
    refine ⟨?_, hpointer⟩
    rcases hwhere with hpending | hrunning
    · exact .inl (w.kernel_step_pending ev hpending)
    · obtain ⟨request, hrequest, rfl⟩ := List.mem_map.mp hrunning
      rcases World.kernel_step_inflight hrequest with hold | hnew
      · exact .inr (List.mem_map_of_mem hold)
      · exact .inl hnew
  memory := w.kernel_step_sameMemory ev
  blocks := Nat.le_of_eq (w.kernel_step_sameProcess ev).blocks.symm

theorem advance (w : World) (counter : UInt64) {blocks : Nat} (h : w.blocks ≤ blocks) :
    Settles w (w.advance counter blocks) :=
  ⟨List.Subset.refl _, .of_eq rfl, h⟩

theorem enter (w : World) (answer : Enter) : Settles w (w.enter answer) := by
  cases answer with
  | error errno => exact refl w
  | ok k => exact kernel_step w (.consume k)

theorem resubmitted {answer : Enter} (h : Resubmitted answer w w') : Settles w w' := by
  cases h with
  | unchanged => exact refl w
  | consumed hopen hfull hauto k hanswer => exact kernel_step w (.consume k)

/-- A timeout points into no owned memory. -/
theorem push_timeout {timespec : Timespec} {frame : Ptr} (hroom : w.has_room) :
    Settles w (w.push (timeout_entry frame timespec)) where
  in_use := by
    intro entry hentry
    rw [World.mem_in_use, World.push_pending hroom, World.push_running] at hentry
    rw [World.mem_in_use]
    obtain ⟨hwhere, hpointer⟩ := hentry
    refine ⟨?_, hpointer⟩
    rcases hwhere with hpending | hrunning
    · rcases List.mem_append.mp hpending with hold | hnew
      · exact .inl hold
      · rw [List.mem_singleton.mp hnew] at hpointer
        cases hpointer
    · exact .inr hrunning
  memory := .of_eq (w.push_owned_data _)
  blocks := Nat.le_of_eq (w.push_sameProcess _).blocks.symm

theorem purged (w : World) (k : Nat) : Settles w (w.purged k) := by
  have hconsume := kernel_step w (.consume k)
  have hblocks := (w.consume_sameProcess k).blocks
  exact ⟨hconsume.in_use, hconsume.memory, by
    show w.blocks ≤ w.blocks + 1
    omega⟩

theorem timed_wait {timespec : Timespec} {first last : Enter} {r : Except PyErr Nat}
    (h : TimedWait timespec first last w r w') : Settles w w' := by
  cases h with
  | closed hclosed => exact refl w
  | failed hopen errno hfirst => exact refl w
  | still_full hopen k hfirst hfull => exact purged w k
  | interrupted hopen k hfirst hroom errno hlast => exact (purged w k).trans (push_timeout hroom)
  | waited hopen k hfirst hroom k' hlast =>
    exact ((purged w k).trans (push_timeout hroom)).trans (kernel_step _ (.consume k'))

theorem drain (bursts : List (List KernelEvent)) (w : World) :
    Settles w (World.drain bursts w).2 := by
  refine World.drain_invariant (C := fun _ _ => True) (I := fun _ w' => Settles w w')
    (fun _ w' h => h.trans ?_) (fun _ w' ev h _ => h.trans (kernel_step w' ev))
    (World.drain_meets_true bursts w) [] (refl w)
  refine ⟨?_, .of_eq w'.drained_owned_data, Nat.le_of_eq w'.drained_sameProcess.blocks.symm⟩
  intro entry hentry
  rw [World.mem_in_use, World.drained_pending] at hentry
  exact World.mem_in_use.mpr hentry

end Settles

/-! ### Handing memory over -/

section insert

variable {answer : Enter} {w w' : World} {counter : UInt64} {entry : Entry}

/-- A call that hands nothing over. -/
theorem Queued.settles (h : Queued answer w counter entry none w') : Settles w w' := by
  obtain ⟨blocks, w₁, hblocks, hfresh, hprepared, hqueue, hroom⟩ := h
  apply ((Settles.advance w counter hblocks).trans (.resubmitted hqueue)).trans
  have hblocks' := (w₁.push_sameProcess entry).blocks
  refine ⟨?_, .of_eq (w₁.push_owned_data entry), Nat.le_of_eq hblocks'.symm⟩
  intro entry' hentry'
  rw [World.mem_in_use] at hentry' ⊢
  obtain ⟨hwhere, hpointer⟩ := hentry'
  refine ⟨?_, hpointer⟩
  rcases hwhere with hpending | hrunning
  · change entry' ∈ (w₁.push entry).pending at hpending
    rw [World.push_pending hroom] at hpending
    rcases List.mem_append.mp hpending with hold | hnew
    · exact .inl hold
    · rw [List.mem_singleton.mp hnew, hprepared.unowned rfl] at hpointer
      cases hpointer
  · exact .inr (by rwa [← w₁.push_running entry])

/-- What the kernel is made to consume stays in use. -/
theorem World.consume_in_use (w : World) (k : Nat) (entry : Entry) :
    entry ∈ (w.consume k).in_use ↔ entry ∈ w.in_use := by
  have hpending : entry ∈ w.pending ↔ entry ∈ w.pending.take k ∨ entry ∈ w.pending.drop k := by
    rw [← List.mem_append, List.take_append_drop]
  rw [World.mem_in_use, World.mem_in_use, World.consume_pending, World.consume_running,
    List.mem_append, hpending]
  apply and_congr_left
  intro _
  constructor
  · intro hcase
    rcases hcase with hdrop | hrunning | htake
    · exact .inl (.inr hdrop)
    · exact .inr hrunning
    · exact .inl (.inl htake)
  · intro hcase
    rcases hcase with (htake | hdrop) | hrunning
    · exact .inr (.inr htake)
    · exact .inl hdrop
    · exact .inr (.inl hrunning)

/-- `Inserted w w' entry data`: on the way from `w` to `w'`, `entry` was queued
    and `data` was handed over for it. -/
structure Inserted (w w' : World) (entry : Entry) (data : OwnedData) : Prop where
  in_use : ∀ other, other ∈ w'.in_use ↔ other ∈ w.in_use ∨ other = entry
  owned : ∀ key, w'.ring.owned_data key =
    if key = entry.user_data then some data else w.ring.owned_data key
  backs : data.backs entry.op
  fresh : ∀ ptr, entry.op.pointer = some ptr → w.blocks ≤ ptr ∧ ptr < w'.blocks
  blocks : w.blocks ≤ w'.blocks

theorem Queued.inserted {data : OwnedData} (h : Queued answer w counter entry (some data) w') :
    Inserted w w' entry data := by
  obtain ⟨blocks, w₁, hblocks, hfresh, hprepared, hqueue, hroom⟩ := h
  have hbacks := hprepared.backed data rfl
  have hsettles := (Settles.advance w counter hblocks).trans (.resubmitted hqueue)
  -- A submit moves entries into the kernel, where they are still in use.
  have hin_use : ∀ other, other ∈ w₁.in_use ↔ other ∈ w.in_use := by
    intro other
    cases hqueue with
    | unchanged => exact Iff.rfl
    | consumed hopen hfull hauto k hanswer => exact World.consume_in_use _ k other
  have hblocks' : ((w₁.push entry).own entry.user_data (some data)).blocks = w₁.blocks := by
    rw [World.own_blocks, (w₁.push_sameProcess entry).blocks]
  have hle : blocks ≤ w₁.blocks := hqueue.quiet.blocks
  refine ⟨?_, ?_, hbacks, ?_, ?_⟩
  · intro other
    have hpending : ((w₁.push entry).own entry.user_data (some data)).pending =
        w₁.pending ++ [entry] := by
      rw [World.own_pending, World.push_pending hroom]
    have hrunning : ((w₁.push entry).own entry.user_data (some data)).running = w₁.running :=
      w₁.push_running entry
    rw [← hin_use, World.mem_in_use, World.mem_in_use, hpending, hrunning, List.mem_append,
      List.mem_singleton]
    constructor
    · intro hpair
      obtain ⟨(hold | hnew) | hrunning, hpointer⟩ := hpair
      · exact .inl ⟨.inl hold, hpointer⟩
      · exact .inr hnew
      · exact .inl ⟨.inr hrunning, hpointer⟩
    · intro hcase
      rcases hcase with ⟨hold | hrunning, hpointer⟩ | rfl
      · exact ⟨.inl (.inl hold), hpointer⟩
      · exact ⟨.inr hrunning, hpointer⟩
      · exact ⟨.inl (.inr rfl), OwnedData.backs_pointer hbacks⟩
  · intro key
    rw [World.own_owned_data, World.push_owned_data, hqueue.quiet.owned_data]
    rfl
  · intro ptr hptr
    obtain ⟨hlow, hhigh⟩ := hfresh ptr hptr
    rw [hblocks']
    exact ⟨hlow, Nat.lt_of_lt_of_le hhigh hle⟩
  · rw [hblocks']
    exact hsettles.blocks

namespace Inserted

variable {data : OwnedData}

/-- The new memory is not that of an older operation. -/
theorem not_backs (h : Inserted w w' entry data) (hw : Keyed w) {other : Entry}
    (hother : other ∈ w.in_use) : ¬data.backs other.op := by
  intro hbacks
  obtain ⟨ptr, hptr⟩ := Option.isSome_iff_exists.mp (OwnedData.backs_pointer hbacks)
  have hold := hw.below other hother ptr hptr
  rw [OwnedData.backs_same hbacks h.backs] at hptr
  have hnew := (h.fresh ptr hptr).1
  exact Nat.not_lt.mpr hnew hold

/-- Older memory is not that of the new operation. -/
theorem not_backs_new (h : Inserted w w' entry data) (hw : Keyed w) {key : UInt64}
    {old : OwnedData} (hold : w.ring.owned_data key = some old) : ¬old.backs entry.op := by
  intro hbacks
  obtain ⟨ptr, hptr⟩ := Option.isSome_iff_exists.mp (OwnedData.backs_pointer hbacks)
  have hlow := hw.owned_below key old hold entry.op ptr hbacks hptr
  have hnew := (h.fresh ptr hptr).1
  exact Nat.not_lt.mpr hnew hlow

theorem keyed (h : Inserted w w' entry data) (hw : Keyed w) : Keyed w' where
  below := by
    intro other hother ptr hptr
    rcases (h.in_use other).mp hother with hold | rfl
    · exact Nat.lt_of_lt_of_le (hw.below other hold ptr hptr) h.blocks
    · exact (h.fresh ptr hptr).2
  owned_below := by
    intro key data' hdata op ptr hbacks hptr
    rw [h.owned] at hdata
    split at hdata
    · cases hdata
      rw [OwnedData.backs_same hbacks h.backs] at hptr
      exact (h.fresh ptr hptr).2
    · exact Nat.lt_of_lt_of_le (hw.owned_below key data' hdata op ptr hbacks hptr) h.blocks
  own_key := by
    intro other hother key data' hdata hbacks
    rw [h.owned] at hdata
    split at hdata
    · next hkey =>
      cases hdata
      rcases (h.in_use other).mp hother with hold | rfl
      · exact absurd hbacks (h.not_backs hw hold)
      · exact hkey
    · rcases (h.in_use other).mp hother with hold | rfl
      · exact hw.own_key other hold key data' hdata hbacks
      · exact absurd hbacks (h.not_backs_new hw hdata)

/-- Memory in use is dropped exactly if it was owned under the user data of the
    new operation. -/
theorem kept_iff (h : Inserted w w' entry data) (hw : Keyed w) (hkept : MemoryKept w) :
    MemoryKept w' ↔ ∀ other ∈ w.in_use, other.user_data ≠ entry.user_data := by
  constructor
  · intro hkept' other hother heq
    obtain ⟨key, data', hdata, hbacks⟩ := hkept' other ((h.in_use other).mpr (.inl hother))
    rw [h.owned] at hdata
    -- What backs the other operation is owned under its user data.
    split at hdata
    · cases hdata
      exact h.not_backs hw hother hbacks
    · next hkey =>
      have hown := hw.own_key other hother key data' hdata hbacks
      exact hkey (hown.trans heq)
  · intro hapart other hother
    rcases (h.in_use other).mp hother with hold | rfl
    · obtain ⟨key, data', hdata, hbacks⟩ := hkept other hold
      have hown := hw.own_key other hold key data' hdata hbacks
      have hkey : key ≠ entry.user_data := by
        rw [hown]
        exact hapart other hold
      exact ⟨key, data', by rw [h.owned, if_neg hkey, hdata], hbacks⟩
    · exact ⟨other.user_data, data, by rw [h.owned, if_pos rfl], h.backs⟩

end Inserted

end insert

/-! ### Giving memory back -/

/-- `Removed w w' keys`: what was owned under `keys` was dropped, and nothing else
    happened. -/
structure Removed (w w' : World) (keys : List UInt64) : Prop where
  in_use : w'.in_use = w.in_use
  owned : ∀ key, w'.ring.owned_data key = if key ∈ keys then none else w.ring.owned_data key
  blocks : w'.blocks = w.blocks

namespace Removed

variable {w w' : World} {keys : List UInt64}

theorem owned_before (h : Removed w w' keys) {key : UInt64} {data : OwnedData}
    (hdata : w'.ring.owned_data key = some data) :
    key ∉ keys ∧ w.ring.owned_data key = some data := by
  rw [h.owned] at hdata
  split at hdata
  · cases hdata
  · next hkey => exact ⟨hkey, hdata⟩

theorem keyed (h : Removed w w' keys) (hw : Keyed w) : Keyed w' where
  below := by
    rw [h.in_use, h.blocks]
    exact hw.below
  owned_below := by
    intro key data hdata op ptr hbacks hptr
    rw [h.blocks]
    exact hw.owned_below key data (h.owned_before hdata).2 op ptr hbacks hptr
  own_key := by
    intro entry hentry key data hdata hbacks
    rw [h.in_use] at hentry
    exact hw.own_key entry hentry key data (h.owned_before hdata).2 hbacks

/-- Memory in use is dropped exactly if an operation in use has one of the
    keys. -/
theorem kept_iff (h : Removed w w' keys) (hw : Keyed w) (hkept : MemoryKept w) :
    MemoryKept w' ↔ ∀ entry ∈ w.in_use, entry.user_data ∉ keys := by
  constructor
  · intro hkept' entry hentry
    obtain ⟨key, data, hdata, hbacks⟩ := hkept' entry (by rwa [h.in_use])
    obtain ⟨hkey, hdata'⟩ := h.owned_before hdata
    rwa [← hw.own_key entry hentry key data hdata' hbacks]
  · intro hapart entry hentry
    rw [h.in_use] at hentry
    obtain ⟨key, data, hdata, hbacks⟩ := hkept entry hentry
    have hown := hw.own_key entry hentry key data hdata hbacks
    have hkey : key ∉ keys := by
      rw [hown]
      exact hapart entry hentry
    exact ⟨key, data, by rw [h.owned, if_neg hkey, hdata], hbacks⟩

end Removed

/-! ### The system -/

/-- What can happen to a ring that is used directly. -/
inductive RawLabel where
  | prep (c : RawPrep) (answer : Enter)
  | get_next_user_data
  | submit (answer : Enter)
  | wait (want : UInt64) (answer : Enter)
  | wait_with_timeout (sec : UInt64) (nsec : UInt32) (first last : Enter)
  | get_completion_entries (bursts : List (List KernelEvent))
  | close
  /-- The kernel acts. -/
  | kernel (ev : KernelEvent)

/-- The state afterwards. -/
def RawLabel.run (l : RawLabel) (w : World) : World :=
  match l with
  | prep c answer => (c.run answer w).2
  | get_next_user_data => (CenturyRing.get_next_user_data w).2
  | submit answer => (CenturyRing.submit answer w).2
  | wait want answer => (CenturyRing.wait want answer w).2
  | wait_with_timeout sec nsec first last =>
    (CenturyRing.wait_with_timeout sec nsec first last w).2
  | get_completion_entries bursts => (CenturyRing.get_completion_entries bursts w).2
  | close => (CenturyRing.close w).2
  | kernel ev => w.kernel_step ev

/-- The step spares the operations in use: a call that is accepted does not take
    the user data of one, and none has the user data of a completion that is
    reaped. -/
def RawLabel.spares (w : World) : RawLabel → Prop
  | prep c answer => c.owns = true → c.Accepted answer w →
    ∀ entry ∈ w.in_use, entry.user_data ≠ c.user_data
  | get_completion_entries bursts =>
    ∀ entry ∈ (World.drain bursts w).2.in_use,
      entry.user_data ∉ (World.drain bursts w).1.map (·.user_data)
  | _ => True

/-- One ring, just created, whose Rust functions are called directly. -/
def raw_system : System World RawLabel where
  init := fun w => ∃ (host : Host) (entries cq_entries sqlpoll_idle_ms : UInt32)
    (single_issuer autosubmit : Bool), host.RoundsUp ∧
    create_io_ring host entries cq_entries sqlpoll_idle_ms single_issuer autosubmit = .ok w
  step := fun w l w' => w' = l.run w

/-- Steps that neither hand memory over nor give it back. -/
theorem RawLabel.settles {l : RawLabel} {w : World} (hprep : ∀ c answer, l ≠ .prep c answer)
    (hreap : ∀ bursts, l ≠ .get_completion_entries bursts) : Settles w (l.run w) := by
  cases l with
  | prep c answer => exact absurd rfl (hprep c answer)
  | get_completion_entries bursts => exact absurd rfl (hreap bursts)
  | get_next_user_data => exact Settles.advance w _ (Nat.le_refl _)
  | submit answer =>
    show Settles w (CenturyRing.submit answer w).2
    rw [submit_state]
    exact Settles.enter w answer
  | wait want answer =>
    show Settles w (CenturyRing.wait want answer w).2
    rw [wait_state]
    exact Settles.enter w answer
  | wait_with_timeout sec nsec first last =>
    refine Fallible.wp_state (P := fun w' => Settles w w') ?_
    exact Fallible.wp_mono (wait_with_timeout_cases sec nsec first last w)
      (fun _ _ h => .timed_wait h) (fun _ _ h => .timed_wait h)
  | close =>
    refine ⟨?_, .of_eq rfl, Nat.le_refl _⟩
    intro entry hentry
    rw [World.mem_in_use] at hentry ⊢
    obtain ⟨hwhere, hpointer⟩ := hentry
    refine ⟨?_, hpointer⟩
    rcases hwhere with hpending | hrunning
    · cases hpending
    · exact .inr hrunning
  | kernel ev => exact Settles.kernel_step w ev

/-- A call that is refused hands nothing over. -/
theorem Refused.settles {answer : Enter} {w w' : World} {counter : UInt64} {e : PyErr}
    (h : Refused answer w counter e w') : Settles w w' := by
  obtain ⟨blocks, hblocks, hqueue⟩ := h.resubmitted
  exact (Settles.advance w counter hblocks).trans (.resubmitted hqueue)

/-- What a call does to the memory in use. -/
theorem RawPrep.memory (c : RawPrep) (answer : Enter) (w : World) :
    ((c.owns = false ∨ ¬c.Accepted answer w) ∧ Settles w (c.run answer w).2) ∨
    (c.owns = true ∧ c.Accepted answer w ∧ ∃ entry data, entry.user_data = c.user_data ∧
      Inserted w (c.run answer w).2 entry data) := by
  have haccepted := c.wp_accepted answer w
  have hcases := c.run_cases answer w
  rcases hrun : c.run answer w with ⟨r, w'⟩
  cases r with
  | error e =>
    have hrefused : Refused answer w w.ring.user_data_counter e w' := Fallible.wp_error hcases hrun
    exact .inl ⟨.inr (Fallible.wp_error haccepted hrun), hrefused.settles⟩
  | ok _ =>
    have haccepted' := Fallible.wp_ok (Q := fun _ _ => c.Accepted answer w) haccepted hrun
    have hqueued := Fallible.wp_ok (Q := fun _ w' => ∃ entry owned, entry.user_data = c.user_data ∧
      Option.isSome owned = c.owns ∧ Queued answer w w.ring.user_data_counter entry owned w')
      hcases hrun
    obtain ⟨entry, owned, huser_data, howns, hqueued⟩ := hqueued
    cases owned with
    | none => exact .inl ⟨.inl howns.symm, hqueued.settles⟩
    | some data => exact .inr ⟨howns.symm, haccepted', entry, data, huser_data, hqueued.inserted⟩

/-- What reaping does to it. -/
theorem removed_of_open {w : World} (hopen : w.is_open = true)
    (bursts : List (List KernelEvent)) :
    Removed (World.drain bursts w).2 (get_completion_entries bursts w).2
      ((World.drain bursts w).1.map (·.user_data)) := by
  rw [get_completion_entries_open hopen]
  exact ⟨rfl, complete_entries_owned_data _ _, rfl⟩

/-- **Step lemma**: a step keeps all memory in use exactly if it spares it. -/
theorem RawLabel.step_kept (l : RawLabel) {w : World} (hw : Keyed w) :
    Keyed (l.run w) ∧ (MemoryKept w → (MemoryKept (l.run w) ↔ l.spares w)) := by
  cases l with
  | prep c answer =>
    rcases c.memory answer w with ⟨hnot, hsettles⟩ | ⟨howns, haccepted, entry, data, hud, hinserted⟩
    · refine ⟨hsettles.keyed hw, fun hkept => iff_of_true (hsettles.kept hkept) ?_⟩
      intro howns haccepted
      rcases hnot with hnot | hnot
      · rw [howns] at hnot
        cases hnot
      · exact absurd haccepted hnot
    -- The memory of an accepted call takes the place of what its user data owned.
    · refine ⟨hinserted.keyed hw, ?_⟩
      intro hkept
      show MemoryKept (c.run answer w).2 ↔ _
      rw [hinserted.kept_iff hw hkept, hud]
      exact ⟨fun h _ _ => h, fun h => h howns haccepted⟩
  | get_completion_entries bursts =>
    cases hopen : w.is_open with
    | false =>
      have hrun : RawLabel.run (.get_completion_entries bursts) w = w := by
        show (CenturyRing.get_completion_entries bursts w).2 = w
        rw [get_completion_entries_closed hopen]
      have hdrain : World.drain bursts w = ([], w) := World.drain_closed hopen bursts
      rw [hrun]
      refine ⟨hw, fun hkept => iff_of_true hkept ?_⟩
      simp [RawLabel.spares, hdrain]
    | true =>
      have hdrain := Settles.drain bursts w
      have hremoved := removed_of_open hopen bursts
      exact ⟨hremoved.keyed (hdrain.keyed hw),
        fun hkept => hremoved.kept_iff (hdrain.keyed hw) (hdrain.kept hkept)⟩
  | _ =>
    refine ⟨(RawLabel.settles ?_ ?_).keyed hw,
      fun hkept => iff_of_true ((RawLabel.settles ?_ ?_).kept hkept) trivial⟩
    all_goals
      intros
      simp

/-- The memory in use is kept all along. -/
def KeptThroughout (tr : List (Step World RawLabel)) : Prop := ∀ t ∈ tr, MemoryKept t.dst

/-- All steps spare the operations in use. -/
def SparedThroughout (tr : List (Step World RawLabel)) : Prop :=
  ∀ t ∈ tr, t.label.spares t.src

/-- A new ring owns nothing. -/
theorem raw_initial {w : World} (h : raw_system.init w) : Keyed w ∧ MemoryKept w := by
  obtain ⟨host, entries, cq_entries, idle, single_issuer, autosubmit, hhost, hcreate⟩ := h
  obtain ⟨params, builder, probe, rfl, -⟩ := create_io_ring_ok hhost hcreate
  have hin_use : (World.created params builder probe autosubmit).in_use = [] := rfl
  refine ⟨⟨?_, nofun, ?_⟩, ?_⟩
  · simp [hin_use]
  · simp [hin_use]
  · simp [MemoryKept, hin_use]

/-- **Memory in use is kept**, in any run of direct calls with any user data,
    exactly as long as no step takes or reaps the user data of an operation that
    is queued or in flight and points into memory. -/
theorem memory_kept_iff {w₀ w : World} {tr : List (Step World RawLabel)}
    (hinit : raw_system.init w₀) (h : Path raw_system w₀ tr w) :
    KeptThroughout tr ↔ SparedThroughout tr := by
  obtain ⟨hkeyed, hkept⟩ := raw_initial hinit
  refine h.good_iff (I := Keyed) (G := MemoryKept) (C := fun w l => l.spares w) ?_ ?_ hkeyed hkept
  · intro w l w' hw hstep
    obtain rfl := hstep
    exact (l.step_kept hw).1
  · intro w l w' hw hkept hstep
    obtain rfl := hstep
    exact (l.step_kept hw).2 hkept

/-- The trace of the steps `ls` of a new ring. -/
def raw_trace (ls : List RawLabel) : List (Step World RawLabel) :=
  trace_of (fun w l => l.run w) ls (PyState.fresh 2 0).world

theorem raw_path (ls : List RawLabel) :
    Path raw_system (PyState.fresh 2 0).world (raw_trace ls)
      (ls.foldl (fun w l => l.run w) (PyState.fresh 2 0).world) := by
  apply path_of ls _
  generalize (PyState.fresh 2 0).world = w
  induction ls generalizing w with
  | nil => simp [trace_of]
  | cons l ls ih => exact List.forall_mem_cons.mpr ⟨rfl, ih (l.run w)⟩

theorem fresh_raw_initial : raw_system.init (PyState.fresh 2 0).world :=
  ⟨linux, 2, 0, 0, true, true, linux_roundsUp, rfl⟩

/-- A receive of four bytes under `user_data`. -/
def raw_recv (user_data : UInt64) : RawLabel := .prep (.recv 5 4 0 user_data 0) (.ok 0)

/-- Two receives with user data of their own, the first of which is reaped while
    the second is in flight. -/
theorem memory_kept_iff_apart :
    KeptThroughout (raw_trace [raw_recv 7, raw_recv TIMEOUT_USER_DATA, .submit (.ok 2),
      .kernel (.complete 0 4), .get_completion_entries []]) := by
  apply (memory_kept_iff fresh_raw_initial (raw_path _)).mpr
  intro t ht
  simp only [raw_trace, trace_of, List.mem_cons, List.not_mem_nil, or_false] at ht
  rcases ht with rfl | rfl | rfl | rfl | rfl
  · exact fun _ _ => by decide
  · exact fun _ _ => by decide
  · trivial
  · trivial
  · show ∀ entry ∈ (World.drain [] _).2.in_use,
      entry.user_data ∉ (World.drain [] _).1.map (·.user_data)
    decide

/-- Two receives that share a user data: the second takes the place of the first
    in the owned data, whose buffer is dropped while both are queued. -/
theorem shared_user_data_drops_memory :
    let ls := [raw_recv 7, raw_recv 7]
    let w := ls.foldl (fun w l => l.run w) (PyState.fresh 2 0).world
    raw_system.init (PyState.fresh 2 0).world ∧
      Path raw_system (PyState.fresh 2 0).world (raw_trace ls) w ∧
      w.in_use.map (fun entry => (entry.op.pointer, entry.user_data)) =
        [(some 0, 7), (some 1, 7)] ∧
      w.ring.owned_data 7 = some (.Buffer ⟨1, [0, 0, 0, 0]⟩) ∧ ¬KeptThroughout (raw_trace ls) := by
  intro ls w
  refine ⟨fresh_raw_initial, raw_path ls, by decide, by decide, ?_⟩
  intro hkept
  obtain ⟨hkeyed, hkept₀⟩ := raw_initial fresh_raw_initial
  have hfirst := (raw_recv 7).step_kept hkeyed
  have hsecond := (raw_recv 7).step_kept hfirst.1
  -- If all memory were kept, the second call would spare the first.
  have hspared : (raw_recv 7).spares ((raw_recv 7).run (PyState.fresh 2 0).world) := by
    refine (hsecond.2 ?_).mp ?_
    · exact (hfirst.2 hkept₀).mpr fun _ _ => by decide
    · exact hkept ⟨_, raw_recv 7, w⟩ (.tail _ (.head _))
  refine hspared rfl ⟨rfl, fun _ => by decide, trivial, .inl (by decide)⟩
    ⟨.Recv 5 0 4 0, .empty, 7⟩ (by decide) rfl

end CenturyRing
