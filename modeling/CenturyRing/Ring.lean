import CenturyRing.World
import CenturyRing.Framework.Fallible
import Mathlib.Logic.Function.Basic

/-! # `TheIoRing` (`src/ring.rs`)

  The Rust object behind a ring. A method is a program on the `World` of its
  ring that may raise a Python exception.

  A method that enters the kernel takes the kernel's answer as an argument;
  one that enters it twice takes two.
-/

open Fifo

namespace CenturyRing

/-- A Rust function that works on a ring. -/
abbrev RustM (α : Type) : Type := Fallible World PyErr α

/-! ### The `io-uring` crate -/

/-- The kernel's answer to `io_uring_enter(2)`: it fails and consumes nothing,
    or it consumes the first `consumed` pending entries as one batch. -/
inductive Enter where
  | error (errno : Int32)
  | ok (consumed : Nat)
  deriving DecidableEq, Repr

/-- The number of entries `io_uring_enter` reports as submitted. With a polling
    thread it does not wait for that thread and reports all of them. -/
def World.submitted (w : World) (consumed : Nat) : Nat :=
  if w.sqpoll then w.pending.length else min consumed w.pending.length

/-- What `io_uring_enter` does to the ring. -/
def World.enter (w : World) : Enter → World
  | .error _ => w
  | .ok consumed => w.consume consumed

/-- `ring.submit()` and `ring.submit_and_wait(want)` on an open ring. -/
def io_uring_enter (answer : Enter) : RustM Nat := fun w =>
  match answer with
  | .error errno => (.error (.os_error errno), w)
  | .ok consumed => (.ok (w.submitted consumed), w.enter answer)

/-- Replace the submission queue of an open ring. -/
def World.set_sq (w : World) (sq : BoundedQueue Entry) : World :=
  { w with ring := { w.ring with
      the_io_uring := w.ring.the_io_uring.map fun uring => { uring with sq := sq } } }

/-- `ring.submission().push(entry)`: whether there was room. -/
def submission_push (entry : Entry) : RustM Bool := fun w =>
  match w.ring.the_io_uring.bind (·.sq.push entry) with
  | some sq => (.ok true, w.set_sq sq)
  | none => (.ok false, w)

/-- `let Some(ring) = &mut self.the_io_uring else ...` -/
def require_open : RustM Unit := do
  if !(← get).is_open then
    throw (.value_error "The ring is closed")

/-- A new block of memory. -/
def new_block : RustM Ptr := do
  let w ← get
  set { w with blocks := w.blocks + 1 }
  return w.blocks

/-- Allocate a `Vec<u8>`. -/
def new_vec (bytes : List UInt8) : RustM Vec := do
  let ptr ← new_block
  return ⟨ptr, bytes⟩

/-! ### Owned data -/

/-- `self.owned_data.insert(user_data, data)`. -/
def owned_data_insert (user_data : UInt64) (data : OwnedData) : RustM Unit :=
  modify fun w => { w with ring := { w.ring with
    owned_data := Function.update w.ring.owned_data user_data (some data) } }

/-- `add_owned_path`. -/
def add_owned_path (user_data : UInt64) (path : Vec) : RustM Unit :=
  owned_data_insert user_data (.OnePath path)

/-- `add_owned_buffer`. -/
def add_owned_buffer (user_data : UInt64) (buf : Vec) : RustM Unit :=
  owned_data_insert user_data (.Buffer buf)

/-- `add_owned_sockaddr`. -/
def add_owned_sockaddr (user_data : UInt64) (addr : SockaddrBox) : RustM Unit :=
  owned_data_insert user_data (.SockAddr addr)

/-! ### Submitting -/

/-- The error of a push that found no room. -/
def queue_full : PyErr := .value_error "submission queue is full and submitting didn't help!"

/-- One round of the loop of `autosubmit`; `again` is the next round. -/
def autosubmit_round (entry : Entry) (answer : Enter) (needs_submit : Bool) (again : RustM Unit) :
    RustM Unit := do
  if needs_submit then
    let _ ← io_uring_enter answer
  if ← submission_push entry then
    return
  else if needs_submit || !(← get).ring.autosubmit then
    throw queue_full
  else
    again

/-- `autosubmit`: push an entry; if the queue is full, submit it and push once
    more. The second round never asks for a third. -/
def autosubmit (entry : Entry) (answer : Enter) : RustM Unit := do
  require_open
  autosubmit_round entry answer false (autosubmit_round entry answer true (throw queue_full))

/-- `get_next_user_data`. -/
def get_next_user_data : RustM UInt64 := do
  let w ← get
  let user_data := w.ring.user_data_counter
  set { w with ring := { w.ring with user_data_counter := user_data + 1 } }
  return user_data

/-- `submit`. -/
def submit (answer : Enter) : RustM Nat := do
  require_open
  io_uring_enter answer

/-- `wait`. That the call sleeps until `want` completions are there shows in
    the order of the steps of a run, not in what it does to the ring. -/
def wait (_want : UInt64) (answer : Enter) : RustM Nat := do
  require_open
  io_uring_enter answer

/-- The timeout entry of `wait_with_timeout`. -/
def timeout_entry (frame : Ptr) (timespec : Timespec) : Entry :=
  { op := .Timeout frame timespec, flags := .SKIP_SUCCESS, user_data := TIMEOUT_USER_DATA }

/-- `wait_with_timeout`. `first` answers the submit that purges the queue,
    `last` the submit that carries the timeout entry. -/
def wait_with_timeout (sec : UInt64) (nsec : UInt32) (first last : Enter) : RustM Nat := do
  require_open
  let count ← io_uring_enter first
  let frame ← new_block
  let timeout := timeout_entry frame ⟨sec, nsec⟩
  if !(← submission_push timeout) then
    throw (.value_error "Couldn't submit timeout operation")
  let _ ← io_uring_enter last
  return count

/-- `pending_sq_entries`. -/
def pending_sq_entries : RustM Nat := do
  require_open
  return (← get).pending.length

/-! ### Reaping -/

/-- One round of the drain loop: what `entries.extend(completion)` takes off
    the completion queue, or `none` for the `break` on an empty queue. -/
def World.drain_round (w : World) : Option (List Cqe × World) :=
  match w.ring.the_io_uring with
  | none => none
  | some uring =>
    if uring.cq.isEmpty then none
    else some (uring.cq, { w with ring := { w.ring with
      the_io_uring := some { uring with cq := [] } } })

/-- The drain loop. `bursts` is what the kernel does between its rounds; when
    it stays quiet, the next test finds the queue empty. -/
def World.drain : List (List KernelEvent) → World → List Cqe × World
  | [], w =>
    match w.drain_round with
    | none => ([], w)
    | some (entries, w') => (entries, w')
  | burst :: bursts, w =>
    match w.drain_round with
    | none => ([], w)
    | some (entries, w') =>
      let (rest, w'') := World.drain bursts (w'.kernel_steps burst)
      (entries ++ rest, w'')

/-- `buf.resize(len, 0)`. -/
def resize (buf : List UInt8) (len : Nat) : List UInt8 :=
  buf.take len ++ List.replicate (len - buf.length) 0

/-- The buffer an event carries, from what was owned for its operation. -/
def delivered (result : Int32) : OwnedData → Option (List UInt8)
  | .Buffer buf =>
    if result < 0 ∨ buf.bytes.length = result.toInt.toNat then some buf.bytes
    else some (resize buf.bytes result.toInt.toNat)
  | _ => none

/-- The loop over the drained entries: every entry gives up what was owned for
    it. -/
def complete_entries (owned_data : UInt64 → Option OwnedData) :
    List Cqe → List CompletionEvent × (UInt64 → Option OwnedData)
  | [] => ([], owned_data)
  | entry :: entries =>
    let buffer := (owned_data entry.user_data).bind (delivered entry.result)
    let owned_data := Function.update owned_data entry.user_data none
    let (events, owned_data) := complete_entries owned_data entries
    (⟨entry.user_data, entry.result, buffer⟩ :: events, owned_data)

/-- `get_completion_entries`. -/
def get_completion_entries (bursts : List (List KernelEvent)) :
    RustM (List CompletionEvent) := do
  require_open
  let (entries, w) := World.drain bursts (← get)
  let (events, owned_data) := complete_entries w.ring.owned_data entries
  set { w with ring := { w.ring with owned_data := owned_data } }
  return events

/-- `close`. -/
def close : RustM Unit :=
  modify fun w => { w with ring := { w.ring with the_io_uring := none } }

/-! ## What the methods do

  One lemma for each method says everything it can do; later proofs use the
  lemma and do not unfold the method. -/

namespace World

/-- There is room in the submission queue. -/
def has_room (w : World) : Prop := w.pending.length < w.capacity

instance (w : World) : Decidable w.has_room := by unfold has_room; infer_instance

/-- The ring with `entry` appended to its submission queue, if there is room. -/
def push (w : World) (entry : Entry) : World :=
  match w.ring.the_io_uring.bind (·.sq.push entry) with
  | some sq => w.set_sq sq
  | none => w

/-- The ring with `owned` inserted into its owned data. -/
def own (w : World) (user_data : UInt64) (owned : Option OwnedData) : World :=
  match owned with
  | some owned => { w with ring := { w.ring with
      owned_data := Function.update w.ring.owned_data user_data (some owned) } }
  | none => w

/-- A queue holds no more than its capacity. -/
theorem pending_le_capacity (w : World) : w.pending.length ≤ w.capacity := by
  cases h : w.ring.the_io_uring with
  | none => simp [pending, capacity, h]
  | some uring => simpa [pending, capacity, h] using uring.sq.length_le

theorem pending_eq_capacity {w : World} (h : ¬w.has_room) : w.pending.length = w.capacity :=
  Nat.le_antisymm w.pending_le_capacity (Nat.not_lt.mp h)

/-- Only an open ring has room. -/
theorem is_open_of_has_room {w : World} (h : w.has_room) : w.is_open = true := by
  cases hring : w.ring.the_io_uring with
  | none => simp [has_room, capacity, hring] at h
  | some uring => simp [is_open, hring]

theorem push_of_room {w : World} (h : w.has_room) (entry : Entry) :
    ∃ uring sq, w.ring.the_io_uring = some uring ∧ sq.capacity = uring.sq.capacity ∧
      sq.entries = uring.sq.entries ++ [entry] ∧
      w.ring.the_io_uring.bind (·.sq.push entry) = some sq ∧ w.push entry = w.set_sq sq := by
  cases hring : w.ring.the_io_uring with
  | none => simp [has_room, capacity, hring] at h
  | some uring =>
    rcases uring.sq.push_cases entry with ⟨sq, hsq, -, hcap, hentries⟩ | ⟨-, hfull⟩
    · exact ⟨uring, sq, rfl, hcap, hentries, by simpa using hsq, by simp [push, hring, hsq]⟩
    · simp only [has_room, pending, capacity, hring] at h
      omega

theorem push_of_full {w : World} (h : ¬w.has_room) (entry : Entry) :
    w.ring.the_io_uring.bind (·.sq.push entry) = none := by
  cases hring : w.ring.the_io_uring with
  | none => rfl
  | some uring =>
    rcases uring.sq.push_cases entry with ⟨sq, -, hlt, -⟩ | ⟨hnone, -⟩
    · exact absurd (by simpa [has_room, pending, capacity, hring] using hlt) h
    · simpa using hnone

theorem push_full {w : World} (h : ¬w.has_room) (entry : Entry) : w.push entry = w := by
  simp [push, push_of_full h]

theorem push_pending {w : World} (h : w.has_room) (entry : Entry) :
    (w.push entry).pending = w.pending ++ [entry] := by
  obtain ⟨uring, sq, hring, -, hentries, -, hpush⟩ := push_of_room h entry
  simp [hpush, set_sq, pending, hring, hentries]

theorem push_sameProcess (w : World) (entry : Entry) : SameProcess w (w.push entry) := by
  by_cases h : w.has_room
  · obtain ⟨uring, sq, hring, hcap, -, -, hpush⟩ := push_of_room h entry
    constructor <;> simp [hpush, set_sq, is_open, World.capacity, World.sqpoll, hring, hcap]
  · rw [push_full h]
    exact .refl w

@[simp] theorem push_kernel (w : World) (entry : Entry) : (w.push entry).kernel = w.kernel := by
  unfold push
  split <;> rfl

@[simp] theorem push_owned_data (w : World) (entry : Entry) :
    (w.push entry).ring.owned_data = w.ring.owned_data := by
  unfold push
  split <;> rfl

@[simp] theorem push_cq (w : World) (entry : Entry) : (w.push entry).cq = w.cq := by
  unfold push
  split
  · cases h : w.ring.the_io_uring <;> simp [set_sq, cq, h]
  · rfl

theorem unreaped_eq (w : World) :
    w.unreaped = if w.is_open then w.cq ++ w.kernel.overflow else [] := by
  cases h : w.ring.the_io_uring <;> simp [unreaped, is_open, cq, h]

theorem push_unreaped (w : World) (entry : Entry) : (w.push entry).unreaped = w.unreaped := by
  rw [unreaped_eq, unreaped_eq, push_cq, push_kernel, (push_sameProcess w entry).is_open]

theorem push_running (w : World) (entry : Entry) : (w.push entry).running = w.running := by
  simp [running]

theorem push_accepted {w : World} (h : w.has_room) (entry : Entry) :
    (w.push entry).accepted = w.accepted ++ [entry] := by
  simp [accepted, push_pending h]

theorem push_live {w : World} (h : w.has_room) (entry : Entry) :
    (w.live ++ [entry]).Perm (w.push entry).live := by
  apply List.perm_iff_count.mpr
  intro entry'
  simp only [live, push_pending h, push_running, push_unreaped, List.count_append]
  omega

@[simp] theorem own_ring (w : World) (user_data : UInt64) (owned : Option OwnedData) :
    (w.own user_data owned).ring.the_io_uring = w.ring.the_io_uring := by
  cases owned <;> rfl

@[simp] theorem own_kernel (w : World) (user_data : UInt64) (owned : Option OwnedData) :
    (w.own user_data owned).kernel = w.kernel := by
  cases owned <;> rfl

@[simp] theorem own_counter (w : World) (user_data : UInt64) (owned : Option OwnedData) :
    (w.own user_data owned).ring.user_data_counter = w.ring.user_data_counter := by
  cases owned <;> rfl

@[simp] theorem own_blocks (w : World) (user_data : UInt64) (owned : Option OwnedData) :
    (w.own user_data owned).blocks = w.blocks := by
  cases owned <;> rfl

@[simp] theorem own_pending (w : World) (user_data : UInt64) (owned : Option OwnedData) :
    (w.own user_data owned).pending = w.pending := by
  simp [pending]

@[simp] theorem own_live (w : World) (user_data : UInt64) (owned : Option OwnedData) :
    (w.own user_data owned).live = w.live := by
  simp [live, pending, running, unreaped]

theorem own_owned_data (w : World) (user_data key : UInt64) (owned : Option OwnedData) :
    (w.own user_data owned).ring.owned_data key =
      if key = user_data then owned <|> w.ring.owned_data key else w.ring.owned_data key := by
  cases owned with
  | none => simp [own]
  | some data => simp [own, Function.update_apply]

@[simp] theorem own_accepted (w : World) (user_data : UInt64) (owned : Option OwnedData) :
    (w.own user_data owned).accepted = w.accepted := by
  simp [accepted, pending]

@[simp] theorem own_is_open (w : World) (user_data : UInt64) (owned : Option OwnedData) :
    (w.own user_data owned).is_open = w.is_open := by
  simp [is_open]

/-- The ring with its two counters set. -/
def advance (w : World) (user_data_counter : UInt64) (blocks : Nat) : World :=
  { w with ring := { w.ring with user_data_counter := user_data_counter }, blocks := blocks }

@[simp] theorem advance_pending (w : World) (counter : UInt64) (blocks : Nat) :
    (w.advance counter blocks).pending = w.pending := rfl

@[simp] theorem advance_live (w : World) (counter : UInt64) (blocks : Nat) :
    (w.advance counter blocks).live = w.live := rfl

@[simp] theorem advance_accepted (w : World) (counter : UInt64) (blocks : Nat) :
    (w.advance counter blocks).accepted = w.accepted := rfl

@[simp] theorem advance_unreaped (w : World) (counter : UInt64) (blocks : Nat) :
    (w.advance counter blocks).unreaped = w.unreaped := rfl

@[simp] theorem advance_kernel (w : World) (counter : UInt64) (blocks : Nat) :
    (w.advance counter blocks).kernel = w.kernel := rfl

@[simp] theorem advance_owned_data (w : World) (counter : UInt64) (blocks : Nat) :
    (w.advance counter blocks).ring.owned_data = w.ring.owned_data := rfl

@[simp] theorem advance_is_open (w : World) (counter : UInt64) (blocks : Nat) :
    (w.advance counter blocks).is_open = w.is_open := rfl

@[simp] theorem advance_capacity (w : World) (counter : UInt64) (blocks : Nat) :
    (w.advance counter blocks).capacity = w.capacity := rfl

theorem advance_has_room (w : World) (counter : UInt64) (blocks : Nat) :
    (w.advance counter blocks).has_room ↔ w.has_room :=
  Iff.rfl

theorem advance_consume_has_room (w : World) (counter : UInt64) (blocks k : Nat) :
    ((w.advance counter blocks).consume k).has_room ↔ (w.consume k).has_room := by
  simp only [has_room, consume_pending, (consume_sameProcess _ k).capacity, advance_pending,
    advance_capacity]

theorem consume_cq (w : World) (k : Nat) : (w.consume k).cq = w.cq := by
  cases h : w.ring.the_io_uring <;> simp [consume, cq, h]

theorem consume_batches {w : World} (hopen : w.is_open = true) (k : Nat) :
    (w.consume k).kernel.batches = w.kernel.batches ++ [w.pending.take k] := by
  cases h : w.ring.the_io_uring with
  | none => simp [is_open, h] at hopen
  | some uring => simp [consume, pending, h]

theorem consume_closed {w : World} (hclosed : w.is_open = false) (k : Nat) : w.consume k = w := by
  cases h : w.ring.the_io_uring with
  | none => simp [consume, h]
  | some uring => simp [is_open, h] at hclosed

end World

theorem submission_push_run (w : World) (entry : Entry) :
    submission_push entry w = (.ok (decide w.has_room), w.push entry) := by
  by_cases h : w.has_room
  · obtain ⟨uring, sq, -, -, -, hsome, hpush⟩ := World.push_of_room h entry
    simp [submission_push, hsome, hpush, h]
  · simp [submission_push, World.push_of_full h, World.push_full h, h]

/-- The error every method of a closed ring raises. -/
def ring_closed : PyErr := .value_error "The ring is closed"

/-! ### Rules for the parts of a method -/

section rules

open Fallible

variable {Q : Unit → World → Prop} {E : PyErr → World → Prop} {w : World}

theorem require_open_of_open (hopen : w.is_open = true) : require_open w = (.ok (), w) := by
  simp [require_open, hopen, bind, Fallible.bind, get, getThe, MonadStateOf.get, pure]

theorem require_open_of_closed (hclosed : w.is_open = false) :
    require_open w = (.error ring_closed, w) := by
  simp [require_open, hclosed, bind, Fallible.bind, get, getThe, MonadStateOf.get, throw,
    throwThe, MonadExceptOf.throw, ring_closed]

theorem wp_require_open :
    require_open.wp Q E w ↔
      (w.is_open = true → Q () w) ∧ (w.is_open = false → E ring_closed w) := by
  simp only [require_open, wp_bind, wp_get, wp_ite, wp_throw, wp_pure, ring_closed]
  cases w.is_open <;> simp

theorem wp_io_uring_enter {Q : Nat → World → Prop} (answer : Enter) :
    (io_uring_enter answer).wp Q E w ↔
      (∀ errno, answer = .error errno → E (.os_error errno) w) ∧
      (∀ consumed, answer = .ok consumed → Q (w.submitted consumed) (w.consume consumed)) := by
  cases answer <;> simp [io_uring_enter, wp, World.enter]

theorem wp_submission_push {Q : Bool → World → Prop} (entry : Entry) :
    (submission_push entry).wp Q E w ↔ Q (decide w.has_room) (w.push entry) := by
  rw [wp_of_run (submission_push_run w entry)]

theorem wp_new_block {Q : Ptr → World → Prop} :
    new_block.wp Q E w ↔ Q w.blocks { w with blocks := w.blocks + 1 } :=
  wp_of_run rfl

theorem wp_new_vec {Q : Vec → World → Prop} (bytes : List UInt8) :
    (new_vec bytes).wp Q E w ↔ Q ⟨w.blocks, bytes⟩ { w with blocks := w.blocks + 1 } := by
  rw [new_vec, wp_bind, wp_new_block, wp_pure]

theorem wp_autosubmit_first_round (entry : Entry) (answer : Enter) (again : RustM Unit) :
    (autosubmit_round entry answer false again).wp Q E w ↔
      (w.has_room → Q () (w.push entry)) ∧
      (¬w.has_room → (w.ring.autosubmit = false → E queue_full w) ∧
        (w.ring.autosubmit = true → again.wp Q E w)) := by
  simp only [autosubmit_round, Bool.false_eq_true, if_false, wp_bind, wp_pure, wp_submission_push,
    wp_ite, wp_get, wp_throw, decide_eq_true_eq, Bool.false_or, Bool.not_eq_true']
  by_cases hroom : w.has_room
  · simp [hroom]
  · simp [hroom, World.push_full hroom]

theorem wp_autosubmit_second_round (entry : Entry) (answer : Enter) (again : RustM Unit) :
    (autosubmit_round entry answer true again).wp Q E w ↔
      (∀ errno, answer = .error errno → E (.os_error errno) w) ∧
      (∀ consumed, answer = .ok consumed →
        ((w.consume consumed).has_room → Q () ((w.consume consumed).push entry)) ∧
        (¬(w.consume consumed).has_room → E queue_full (w.consume consumed))) := by
  simp only [autosubmit_round, if_true, wp_bind, wp_pure, wp_submission_push, wp_io_uring_enter,
    wp_ite, wp_get, wp_throw, decide_eq_true_eq, Bool.true_or]
  refine and_congr_right fun _ => forall_congr' fun consumed => imp_congr_right fun _ =>
    and_congr_right fun _ => imp_congr_right fun hfull => ?_
  simp [World.push_full hfull]

end rules

/-! ### `autosubmit` -/

/-- Everything `autosubmit` can do. -/
inductive Autosubmit (entry : Entry) (answer : Enter) (w : World) :
    Except PyErr Unit → World → Prop where
  /-- The ring is closed. -/
  | closed (hclosed : w.is_open = false) : Autosubmit entry answer w (.error ring_closed) w
  /-- The first push finds room. -/
  | at_once (hroom : w.has_room) : Autosubmit entry answer w (.ok ()) (w.push entry)
  /-- The queue is full and may not be submitted. -/
  | disabled (hopen : w.is_open = true) (hfull : ¬w.has_room)
      (hauto : w.ring.autosubmit = false) :
      Autosubmit entry answer w (.error queue_full) w
  /-- The queue is full and submitting it fails. -/
  | failed (hopen : w.is_open = true) (hfull : ¬w.has_room) (hauto : w.ring.autosubmit = true)
      (errno : Int32) (hanswer : answer = .error errno) :
      Autosubmit entry answer w (.error (.os_error errno)) w
  /-- The queue is full and submitting it makes room. -/
  | retried (hopen : w.is_open = true) (hfull : ¬w.has_room) (hauto : w.ring.autosubmit = true)
      (consumed : Nat) (hanswer : answer = .ok consumed)
      (hroom : (w.consume consumed).has_room) :
      Autosubmit entry answer w (.ok ()) ((w.consume consumed).push entry)
  /-- The queue is full and submitting it makes no room. -/
  | still_full (hopen : w.is_open = true) (hfull : ¬w.has_room)
      (hauto : w.ring.autosubmit = true) (consumed : Nat) (hanswer : answer = .ok consumed)
      (hfull' : ¬(w.consume consumed).has_room) :
      Autosubmit entry answer w (.error queue_full) (w.consume consumed)

theorem autosubmit_cases (entry : Entry) (answer : Enter) (w : World) :
    (autosubmit entry answer).wp (fun _ w' => Autosubmit entry answer w (.ok ()) w')
      (fun e w' => Autosubmit entry answer w (.error e) w') w := by
  rw [autosubmit, Fallible.wp_bind, wp_require_open]
  refine ⟨?_, Autosubmit.closed⟩
  intro hopen
  rw [wp_autosubmit_first_round]
  refine ⟨Autosubmit.at_once, fun hfull => ⟨Autosubmit.disabled hopen hfull, fun hauto => ?_⟩⟩
  rw [wp_autosubmit_second_round]
  exact ⟨Autosubmit.failed hopen hfull hauto, fun consumed hanswer =>
    ⟨Autosubmit.retried hopen hfull hauto consumed hanswer,
      Autosubmit.still_full hopen hfull hauto consumed hanswer⟩⟩

/-- The ring as the last push of `autosubmit` finds it: as it was, or, if the
    queue was full, with what the kernel was made to consume gone. -/
inductive Resubmitted (answer : Enter) (w : World) : World → Prop where
  | unchanged : Resubmitted answer w w
  | consumed (hopen : w.is_open = true) (hfull : ¬w.has_room)
      (hauto : w.ring.autosubmit = true) (k : Nat) (hanswer : answer = .ok k) :
      Resubmitted answer w (w.consume k)

/-- An `autosubmit` that returns has pushed the entry once, in the end. -/
theorem Autosubmit.ok {entry : Entry} {answer : Enter} {w w' : World}
    (h : Autosubmit entry answer w (.ok ()) w') :
    ∃ w₁, Resubmitted answer w w₁ ∧ w₁.has_room ∧ w' = w₁.push entry := by
  cases h with
  | at_once hroom => exact ⟨w, .unchanged, hroom, rfl⟩
  | retried hopen hfull hauto consumed hanswer hroom =>
    exact ⟨_, .consumed hopen hfull hauto consumed hanswer, hroom, rfl⟩

/-- An `autosubmit` that raises has pushed nothing. -/
theorem Autosubmit.error {entry : Entry} {answer : Enter} {w w' : World} {e : PyErr}
    (h : Autosubmit entry answer w (.error e) w') : Resubmitted answer w w' := by
  cases h with
  | closed hclosed => exact .unchanged
  | disabled hopen hfull hauto => exact .unchanged
  | failed hopen hfull hauto errno hanswer => exact .unchanged
  | still_full hopen hfull hauto consumed hanswer hfull' =>
    exact .consumed hopen hfull hauto consumed hanswer

/-- The ring takes an entry: there is room for it, or submitting the full queue
    makes room. -/
def World.takes (w : World) (answer : Enter) : Prop :=
  w.has_room ∨ w.is_open = true ∧ w.ring.autosubmit = true ∧
    ∃ k, answer = .ok k ∧ (w.consume k).has_room

theorem World.takes_advance (w : World) (counter : UInt64) (blocks : Nat) (answer : Enter) :
    (w.advance counter blocks).takes answer ↔ w.takes answer := by
  simp only [takes, w.advance_has_room, w.advance_consume_has_room, advance_is_open]
  rfl

theorem Autosubmit.taken {entry : Entry} {answer : Enter} {w w' : World}
    (h : Autosubmit entry answer w (.ok ()) w') : w.takes answer := by
  cases h with
  | at_once hroom => exact .inl hroom
  | retried hopen hfull hauto k hanswer hroom => exact .inr ⟨hopen, hauto, k, hanswer, hroom⟩

theorem Autosubmit.not_taken {entry : Entry} {answer : Enter} {w w' : World} {e : PyErr}
    (h : Autosubmit entry answer w (.error e) w') : ¬w.takes answer := by
  intro hcase
  rcases hcase with hroom | ⟨hopen, hauto, k, hk, hroom⟩
  · cases h with
    | closed hclosed => simp [World.is_open_of_has_room hroom] at hclosed
    | disabled _ hfull => exact hfull hroom
    | failed _ hfull => exact hfull hroom
    | still_full _ hfull => exact hfull hroom
  · cases h with
    | closed hclosed => simp [hopen] at hclosed
    | disabled _ _ hmanual => simp [hauto] at hmanual
    | failed _ _ _ errno hanswer =>
      rw [hanswer] at hk
      cases hk
    | still_full _ _ _ k' hanswer hfull =>
      obtain rfl : k' = k := by simpa [hanswer] using hk
      exact hfull hroom

/-- Pushing an entry and taking over what it points into. -/
theorem wp_autosubmit_own (entry : Entry) (answer : Enter) (owned : OwnedData) (w : World) :
    (autosubmit entry answer >>= fun _ => owned_data_insert entry.user_data owned).wp
      (fun _ w' => ∃ w₁, Resubmitted answer w w₁ ∧ w₁.has_room ∧
        w' = (w₁.push entry).own entry.user_data (some owned))
      (fun e w' => Autosubmit entry answer w (.error e) w') w := by
  rw [Fallible.wp_bind]
  refine Fallible.wp_mono (autosubmit_cases entry answer w) (fun _ w' h => ?_)
    (fun _ _ h => h)
  obtain ⟨w₁, hqueue, hroom, rfl⟩ := h.ok
  rw [owned_data_insert, Fallible.wp_modify]
  exact ⟨w₁, hqueue, hroom, rfl⟩

/-! ### `wait_with_timeout` -/

/-- The ring as the timeout entry finds it: the queue was submitted, and the
    stack frame of the call holds the timespec. -/
def World.purged (w : World) (consumed : Nat) : World :=
  { w.consume consumed with blocks := w.blocks + 1 }

/-- The error of a timeout entry that found no room. -/
def timeout_queue_full : PyErr := .value_error "Couldn't submit timeout operation"

/-- Everything `wait_with_timeout` can do. -/
inductive TimedWait (timespec : Timespec) (first last : Enter) (w : World) :
    Except PyErr Nat → World → Prop where
  /-- The ring is closed. -/
  | closed (hclosed : w.is_open = false) :
      TimedWait timespec first last w (.error ring_closed) w
  /-- Submitting the queue fails. -/
  | failed (hopen : w.is_open = true) (errno : Int32) (hfirst : first = .error errno) :
      TimedWait timespec first last w (.error (.os_error errno)) w
  /-- Submitting the queue makes no room for the timeout entry. -/
  | still_full (hopen : w.is_open = true) (k : Nat) (hfirst : first = .ok k)
      (hfull : ¬(w.purged k).has_room) :
      TimedWait timespec first last w (.error timeout_queue_full) (w.purged k)
  /-- The timeout entry is pushed and the wait fails. -/
  | interrupted (hopen : w.is_open = true) (k : Nat) (hfirst : first = .ok k)
      (hroom : (w.purged k).has_room) (errno : Int32) (hlast : last = .error errno) :
      TimedWait timespec first last w (.error (.os_error errno))
        ((w.purged k).push (timeout_entry w.blocks timespec))
  /-- The timeout entry is pushed and the wait ends. -/
  | waited (hopen : w.is_open = true) (k : Nat) (hfirst : first = .ok k)
      (hroom : (w.purged k).has_room) (k' : Nat) (hlast : last = .ok k') :
      TimedWait timespec first last w (.ok (w.submitted k))
        (((w.purged k).push (timeout_entry w.blocks timespec)).consume k')

theorem wait_with_timeout_cases (sec : UInt64) (nsec : UInt32) (first last : Enter) (w : World) :
    (wait_with_timeout sec nsec first last).wp
      (fun n w' => TimedWait ⟨sec, nsec⟩ first last w (.ok n) w')
      (fun e w' => TimedWait ⟨sec, nsec⟩ first last w (.error e) w') w := by
  rw [wait_with_timeout, Fallible.wp_bind, wp_require_open]
  refine ⟨?_, TimedWait.closed⟩
  intro hopen
  rw [Fallible.wp_bind, wp_io_uring_enter]
  refine ⟨TimedWait.failed hopen, ?_⟩
  intro k hfirst
  have hblocks : (w.consume k).blocks = w.blocks := (w.consume_sameProcess k).blocks
  rw [Fallible.wp_bind, wp_new_block, hblocks]
  show Fallible.wp _ _ _ (w.purged k)
  rw [Fallible.wp_bind, wp_submission_push, Fallible.wp_ite]
  -- The first submit may have left the queue full.
  constructor
  · intro hfull
    have hfull : ¬(w.purged k).has_room := by simpa using hfull
    rw [Fallible.wp_bind, Fallible.wp_throw, World.push_full hfull]
    exact .still_full hopen k hfirst hfull
  · intro hroom
    have hroom : (w.purged k).has_room := by simpa using hroom
    rw [Fallible.wp_bind, wp_io_uring_enter]
    refine ⟨TimedWait.interrupted hopen k hfirst hroom, ?_⟩
    intro k' hlast
    rw [Fallible.wp_pure]
    exact .waited hopen k hfirst hroom k' hlast

end CenturyRing
