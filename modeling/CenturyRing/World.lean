import CenturyRing.Entry
import CenturyRing.Framework.Fifo
import Mathlib.Data.List.Perm.Basic

/-! # The ring and the kernel

  The state of one ring: the Rust object `TheIoRing`, the queues it shares
  with the kernel, and what the kernel holds on its behalf.

  The kernel is an environment. It acts by the events below, at any time and
  in any order; what a particular kernel promises beyond that is a predicate
  on the events it chooses.
-/

open Fifo

namespace CenturyRing

/-! ### State -/

/-- `io_uring::IoUring`: the memory shared with the kernel. -/
structure Uring where
  /-- The submission queue. -/
  sq : BoundedQueue Entry
  /-- The completion queue. -/
  cq : List Cqe
  /-- The number of completions that fit the completion queue. -/
  cq_entries : Nat
  /-- A kernel thread polls the submission queue. -/
  setup_sqpoll : Bool

/-- `TheIoRing`. -/
structure TheIoRing where
  the_io_uring : Option Uring
  probe : OpCode → Bool
  user_data_counter : UInt64
  autosubmit : Bool
  owned_data : UInt64 → Option OwnedData

/-- A consumed entry that the kernel has not completed yet. -/
structure Request where
  entry : Entry
  /-- The request behind this one belongs to the same link chain. -/
  linked : Bool
  /-- When the timer of a timeout entry expires. -/
  deadline : Nat
  deriving DecidableEq, Repr

/-- The kernel's side of a ring. -/
structure Kernel where
  inflight : List Request
  /-- Completions that did not fit the completion queue, in order. -/
  overflow : List Cqe
  /-- The entries consumed so far, batch by batch. -/
  batches : List (List Entry)
  /-- The completions posted so far. -/
  posted : List Cqe
  /-- The clock, in nanoseconds. -/
  now : Nat

/-- A ring, its kernel, and the number of memory blocks allocated so far. -/
structure World where
  ring : TheIoRing
  kernel : Kernel
  blocks : Nat

namespace World

/-- The entries in the submission queue. -/
def pending (w : World) : List Entry :=
  match w.ring.the_io_uring with
  | some uring => uring.sq.entries
  | none => []

/-- The completions in the completion queue. -/
def cq (w : World) : List Cqe :=
  match w.ring.the_io_uring with
  | some uring => uring.cq
  | none => []

/-- The completions that have been posted and can still be reaped. -/
def unreaped (w : World) : List Cqe :=
  match w.ring.the_io_uring with
  | some uring => uring.cq ++ w.kernel.overflow
  | none => []

/-- The entries under way in the kernel. -/
def running (w : World) : List Entry := w.kernel.inflight.map (·.entry)

/-- Every operation that is under way: queued, running, or completed and not
    reaped yet. -/
def live (w : World) : List Entry := w.pending ++ w.running ++ w.unreaped.map (·.origin)

/-- Everything the submission queue ever accepted. -/
def accepted (w : World) : List Entry := w.kernel.batches.flatten ++ w.pending

/-- The ring has not been closed. -/
def is_open (w : World) : Bool := w.ring.the_io_uring.isSome

/-- The capacity of the submission queue. -/
def capacity (w : World) : Nat :=
  match w.ring.the_io_uring with
  | some uring => uring.sq.capacity
  | none => 0

/-- The ring was set up with a polling kernel thread. -/
def sqpoll (w : World) : Bool :=
  match w.ring.the_io_uring with
  | some uring => uring.setup_sqpoll
  | none => false

end World

/-! ### What the kernel does -/

/-- When a timeout that is consumed at `now` expires. -/
def Operation.due (op : Operation) (now : Nat) : Nat :=
  match op with
  | .Timeout _ timespec => now + timespec.nanos
  | _ => now

/-- The requests made of a batch of entries. An entry is linked to the next
    one of its batch; a link at the end of the batch leads nowhere. -/
def start_batch (now : Nat) : List Entry → List Request
  | [] => []
  | [entry] => [⟨entry, false, entry.op.due now⟩]
  | entry :: entries => ⟨entry, entry.flags.links, entry.op.due now⟩ :: start_batch now entries

@[simp] theorem start_batch_entry (now : Nat) (entries : List Entry) :
    (start_batch now entries).map (·.entry) = entries := by
  induction entries with
  | nil => rfl
  | cons entry entries ih =>
    cases entries with
    | nil => rfl
    | cons entry' entries => rw [start_batch, List.map_cons, ih]; simp

/-- The requests behind `request` in its link chain; `requests` are those the
    kernel consumed after it. -/
def chain_rest (request : Request) : List Request → List Request
  | [] => []
  | next :: requests => if request.linked then next :: chain_rest next requests else []

theorem chain_rest_prefix (request : Request) (requests : List Request) :
    chain_rest request requests <+: requests := by
  induction requests generalizing request with
  | nil => exact List.nil_prefix
  | cons next requests ih =>
    rw [chain_rest]
    split
    · exact List.prefix_cons_iff.mpr (Or.inr ⟨_, rfl, ih next⟩)
    · exact List.nil_prefix

/-- What the kernel can do on its own. -/
inductive KernelEvent where
  /-- Consume the first `k` entries of the submission queue as one batch. -/
  | consume (k : Nat)
  /-- Complete the `i`-th running request and post its completion. -/
  | complete (i : Nat) (result : Int32)
  /-- Complete the `i`-th running request without a completion. -/
  | complete_silently (i : Nat)
  /-- Complete the `i`-th running request and post its completion, and cancel
      the requests behind it in its link chain without a completion. -/
  | fail_chain (i : Nat) (result : Int32)
  /-- Write to the buffer of the `i`-th running request. -/
  | write (i : Nat) (bytes : List UInt8)
  /-- Move completions that did not fit the completion queue into it. -/
  | flush
  /-- Let time pass. -/
  | tick (nanos : Nat)

namespace World

def consume (w : World) (k : Nat) : World :=
  match w.ring.the_io_uring with
  | none => w
  | some uring =>
    let batch := uring.sq.entries.take k
    { w with
      ring := { w.ring with the_io_uring := some { uring with sq := uring.sq.drop k } }
      kernel := { w.kernel with
        inflight := w.kernel.inflight ++ start_batch w.kernel.now batch
        batches := w.kernel.batches ++ [batch] } }

/-- Post a completion: to the completion queue if it fits and nothing waits to
    be moved there, otherwise behind what waits. -/
def post (w : World) (cqe : Cqe) : World :=
  match w.ring.the_io_uring with
  | none => w
  | some uring =>
    if w.kernel.overflow = [] ∧ uring.cq.length < uring.cq_entries then
      { w with
        ring := { w.ring with the_io_uring := some { uring with cq := uring.cq ++ [cqe] } }
        kernel := { w.kernel with posted := w.kernel.posted ++ [cqe] } }
    else
      { w with
        kernel := { w.kernel with
          overflow := w.kernel.overflow ++ [cqe]
          posted := w.kernel.posted ++ [cqe] } }

/-- The `i`-th running request is over. -/
def finish (w : World) (i : Nat) : World :=
  { w with kernel := { w.kernel with inflight := w.kernel.inflight.eraseIdx i } }

def complete (w : World) (i : Nat) (result : Int32) : World :=
  match w.kernel.inflight[i]? with
  | none => w
  | some request => (w.finish i).post ⟨request.entry, result⟩

/-- The requests behind the `i`-th running request in its link chain. -/
def cancelled (w : World) (i : Nat) : List Request :=
  match w.kernel.inflight[i]? with
  | none => []
  | some request => chain_rest request (w.kernel.inflight.drop (i + 1))

/-- Those requests are over. -/
def cancel_rest (w : World) (i : Nat) : World :=
  { w with kernel := { w.kernel with
      inflight := w.kernel.inflight.take (i + 1) ++
        (w.kernel.inflight.drop (i + 1)).drop (w.cancelled i).length } }

def fail_chain (w : World) (i : Nat) (result : Int32) : World :=
  (w.cancel_rest i).complete i result

def write (w : World) (i : Nat) (bytes : List UInt8) : World :=
  match (w.kernel.inflight[i]?).bind (·.entry.op.recv_buffer) with
  | none => w
  | some ptr =>
    { w with ring := { w.ring with
        owned_data := fun key => (w.ring.owned_data key).map (·.write ptr bytes) } }

def flush (w : World) : World :=
  match w.ring.the_io_uring with
  | none => w
  | some uring =>
    let room := uring.cq_entries - uring.cq.length
    { w with
      ring := { w.ring with the_io_uring := some { uring with
        cq := uring.cq ++ w.kernel.overflow.take room } }
      kernel := { w.kernel with overflow := w.kernel.overflow.drop room } }

def tick (w : World) (nanos : Nat) : World :=
  { w with kernel := { w.kernel with now := w.kernel.now + nanos } }

/-- One step of the kernel. -/
def kernel_step (w : World) : KernelEvent → World
  | .consume k => w.consume k
  | .complete i result => w.complete i result
  | .complete_silently i => w.finish i
  | .fail_chain i result => w.fail_chain i result
  | .write i bytes => w.write i bytes
  | .flush => w.flush
  | .tick nanos => w.tick nanos

/-- Several steps of the kernel. -/
def kernel_steps (w : World) (events : List KernelEvent) : World :=
  events.foldl kernel_step w

/-- The `i`-th running request, if its completion finds no ring to go to. -/
def unposted (w : World) (i : Nat) : List Entry :=
  if w.is_open then [] else (w.kernel.inflight[i]?).toList.map (·.entry)

/-- The operations that end in a step of the kernel without a completion that
    could be reaped. -/
def dropped (w : World) : KernelEvent → List Entry
  | .complete i _ => w.unposted i
  | .complete_silently i => (w.kernel.inflight[i]?).toList.map (·.entry)
  | .fail_chain i _ => w.unposted i ++ (w.cancelled i).map (·.entry)
  | _ => []

/-! ### What a step of the kernel leaves alone -/

/-- The part of the state that only the process changes. -/
structure SameProcess (w w' : World) : Prop where
  probe : w'.ring.probe = w.ring.probe
  user_data_counter : w'.ring.user_data_counter = w.ring.user_data_counter
  autosubmit : w'.ring.autosubmit = w.ring.autosubmit
  blocks : w'.blocks = w.blocks
  is_open : w'.is_open = w.is_open
  capacity : w'.capacity = w.capacity
  sqpoll : w'.sqpoll = w.sqpoll

theorem SameProcess.refl (w : World) : SameProcess w w := ⟨rfl, rfl, rfl, rfl, rfl, rfl, rfl⟩

theorem SameProcess.trans {w w' w'' : World} (h : SameProcess w w') (h' : SameProcess w' w'') :
    SameProcess w w'' :=
  ⟨h'.probe.trans h.probe, h'.user_data_counter.trans h.user_data_counter,
    h'.autosubmit.trans h.autosubmit, h'.blocks.trans h.blocks, h'.is_open.trans h.is_open,
    h'.capacity.trans h.capacity, h'.sqpoll.trans h.sqpoll⟩

theorem consume_sameProcess (w : World) (k : Nat) : SameProcess w (w.consume k) := by
  unfold consume
  split
  · exact .refl w
  · next h => constructor <;> simp [is_open, World.capacity, World.sqpoll, h]

theorem post_sameProcess (w : World) (cqe : Cqe) : SameProcess w (w.post cqe) := by
  unfold post
  split
  · exact .refl w
  · next h => split <;> constructor <;> simp [is_open, World.capacity, World.sqpoll, h]

theorem finish_sameProcess (w : World) (i : Nat) : SameProcess w (w.finish i) :=
  ⟨rfl, rfl, rfl, rfl, rfl, rfl, rfl⟩

theorem complete_sameProcess (w : World) (i : Nat) (result : Int32) :
    SameProcess w (w.complete i result) := by
  unfold complete
  split
  · exact .refl w
  · exact (finish_sameProcess w i).trans (post_sameProcess _ _)

theorem cancel_rest_sameProcess (w : World) (i : Nat) : SameProcess w (w.cancel_rest i) :=
  ⟨rfl, rfl, rfl, rfl, rfl, rfl, rfl⟩

theorem kernel_step_sameProcess (w : World) (ev : KernelEvent) :
    SameProcess w (w.kernel_step ev) := by
  cases ev with
  | consume k => exact consume_sameProcess w k
  | complete i result => exact complete_sameProcess w i result
  | complete_silently i => exact finish_sameProcess w i
  | fail_chain i result =>
    exact (cancel_rest_sameProcess w i).trans (complete_sameProcess _ i result)
  | write i bytes =>
    show SameProcess w (w.write i bytes)
    unfold write
    split
    · exact .refl w
    · exact ⟨rfl, rfl, rfl, rfl, rfl, rfl, rfl⟩
  | flush =>
    show SameProcess w w.flush
    unfold flush
    split
    · exact .refl w
    · next h => constructor <;> simp [is_open, World.capacity, World.sqpoll, h]
  | tick nanos => exact ⟨rfl, rfl, rfl, rfl, rfl, rfl, rfl⟩

/-- `SameMemory w w'`: the same memory is owned under the same keys; the
    bytes in it may differ. -/
def SameMemory (w w' : World) : Prop :=
  ∃ f : OwnedData → OwnedData, (∀ owned op, (f owned).backs op ↔ owned.backs op) ∧
    ∀ key, w'.ring.owned_data key = (w.ring.owned_data key).map f

theorem SameMemory.of_eq {w w' : World} (h : w'.ring.owned_data = w.ring.owned_data) :
    SameMemory w w' := ⟨id, fun _ _ => Iff.rfl, fun key => by rw [h]; simp⟩

theorem SameMemory.trans {w w' w'' : World} (h : SameMemory w w') (h' : SameMemory w' w'') :
    SameMemory w w'' := by
  obtain ⟨f, hf, hkeys⟩ := h
  obtain ⟨g, hg, hkeys'⟩ := h'
  refine ⟨g ∘ f, fun owned op => (hg _ op).trans (hf owned op), ?_⟩
  intro key
  rw [hkeys', hkeys, Option.map_map]

theorem SameMemory.eq_none_iff {w w' : World} (h : SameMemory w w') (key : UInt64) :
    w'.ring.owned_data key = none ↔ w.ring.owned_data key = none := by
  obtain ⟨f, -, hkeys⟩ := h
  rw [hkeys, Option.map_eq_none_iff]

/-- What backed an operation still does. -/
theorem SameMemory.backs {w w' : World} (h : SameMemory w w') {key : UInt64} {op : Operation}
    (hb : ∃ owned, w.ring.owned_data key = some owned ∧ owned.backs op) :
    ∃ owned, w'.ring.owned_data key = some owned ∧ owned.backs op := by
  obtain ⟨f, hf, hkeys⟩ := h
  obtain ⟨owned, howned, hbacks⟩ := hb
  exact ⟨f owned, by rw [hkeys, howned]; rfl, (hf owned op).mpr hbacks⟩

@[simp] theorem consume_owned_data (w : World) (k : Nat) :
    (w.consume k).ring.owned_data = w.ring.owned_data := by
  unfold consume; split <;> rfl

@[simp] theorem post_owned_data (w : World) (cqe : Cqe) :
    (w.post cqe).ring.owned_data = w.ring.owned_data := by
  unfold post; split
  · rfl
  · split <;> rfl

@[simp] theorem complete_owned_data (w : World) (i : Nat) (result : Int32) :
    (w.complete i result).ring.owned_data = w.ring.owned_data := by
  unfold complete; split
  · rfl
  · rw [post_owned_data]; rfl

theorem kernel_step_sameMemory (w : World) (ev : KernelEvent) :
    SameMemory w (w.kernel_step ev) := by
  cases ev with
  | consume k => exact .of_eq (consume_owned_data w k)
  | complete i result => exact .of_eq (complete_owned_data w i result)
  | complete_silently i => exact .of_eq rfl
  | fail_chain i result => exact .of_eq (complete_owned_data (w.cancel_rest i) i result)
  | write i bytes =>
    show SameMemory w (w.write i bytes)
    unfold write
    split
    · exact .of_eq rfl
    · next ptr _ => exact ⟨OwnedData.write ptr bytes, by simp, fun key => rfl⟩
  | flush =>
    show SameMemory w w.flush
    unfold flush
    split <;> exact .of_eq rfl
  | tick nanos => exact .of_eq rfl

/-! ### Where entries go in a step of the kernel -/

theorem consume_accepted (w : World) (k : Nat) : (w.consume k).accepted = w.accepted := by
  cases h : w.ring.the_io_uring <;> simp [consume, accepted, pending, h]

theorem consume_pending (w : World) (k : Nat) : (w.consume k).pending = w.pending.drop k := by
  cases h : w.ring.the_io_uring <;> simp [consume, pending, h]

theorem consume_running (w : World) (k : Nat) :
    (w.consume k).running = w.running ++ w.pending.take k := by
  cases h : w.ring.the_io_uring <;> simp [consume, pending, running, h]

theorem consume_unreaped (w : World) (k : Nat) : (w.consume k).unreaped = w.unreaped := by
  cases h : w.ring.the_io_uring <;> simp [consume, unreaped, h]

theorem consume_posted (w : World) (k : Nat) :
    (w.consume k).kernel.posted = w.kernel.posted := by
  cases h : w.ring.the_io_uring <;> simp [consume, h]

theorem consume_live (w : World) (k : Nat) : w.live.Perm (w.consume k).live := by
  apply List.perm_iff_count.mpr
  intro entry
  have hpending : w.pending.count entry =
      (w.pending.take k).count entry + (w.pending.drop k).count entry := by
    rw [← List.count_append, List.take_append_drop]
  simp only [live, consume_pending, consume_running, consume_unreaped, List.count_append]
  omega

theorem post_pending (w : World) (cqe : Cqe) : (w.post cqe).pending = w.pending := by
  cases h : w.ring.the_io_uring with
  | none => simp [post, h]
  | some uring => simp only [post, h]; split <;> simp [pending, h]

theorem post_running (w : World) (cqe : Cqe) : (w.post cqe).running = w.running := by
  cases h : w.ring.the_io_uring with
  | none => simp [post, h]
  | some uring => simp only [post, h]; split <;> rfl

theorem post_batches (w : World) (cqe : Cqe) :
    (w.post cqe).kernel.batches = w.kernel.batches := by
  cases h : w.ring.the_io_uring with
  | none => simp [post, h]
  | some uring => simp only [post, h]; split <;> rfl

/-- A completion is posted behind all others, whether it fits the completion
    queue or not. -/
theorem post_unreaped {w : World} (hopen : w.is_open = true) (cqe : Cqe) :
    (w.post cqe).unreaped = w.unreaped ++ [cqe] := by
  cases h : w.ring.the_io_uring with
  | none => simp [is_open, h] at hopen
  | some uring =>
    simp only [post, h]
    split
    · next hfits => simp [unreaped, h, hfits.1]
    · simp [unreaped, h]

theorem post_posted {w : World} (hopen : w.is_open = true) (cqe : Cqe) :
    (w.post cqe).kernel.posted = w.kernel.posted ++ [cqe] := by
  cases h : w.ring.the_io_uring with
  | none => simp [is_open, h] at hopen
  | some uring => simp only [post, h]; split <;> rfl

theorem post_closed {w : World} (hclosed : w.is_open = false) (cqe : Cqe) : w.post cqe = w := by
  cases h : w.ring.the_io_uring with
  | none => simp [post, h]
  | some uring => simp [is_open, h] at hclosed

/-- One running request less. -/
theorem finish_running {w : World} {i : Nat} {request : Request}
    (h : w.kernel.inflight[i]? = some request) :
    w.running.Perm (request.entry :: (w.finish i).running) := by
  obtain ⟨hi, rfl⟩ := List.getElem?_eq_some_iff.mp h
  exact ((List.getElem_cons_eraseIdx_perm hi).map (·.entry)).symm

theorem finish_live {w : World} {i : Nat} {request : Request}
    (h : w.kernel.inflight[i]? = some request) :
    w.live.Perm ((w.finish i).live ++ [request.entry]) := by
  apply List.perm_iff_count.mpr
  intro entry
  have hrunning := (finish_running h).count_eq entry
  rw [List.count_cons] at hrunning
  have hpending : (w.finish i).pending = w.pending := rfl
  have hunreaped : (w.finish i).unreaped = w.unreaped := rfl
  simp only [live, hpending, hunreaped, List.count_append, List.count_singleton]
  omega

theorem complete_live (w : World) (i : Nat) (result : Int32) :
    w.live.Perm ((w.complete i result).live ++ w.unposted i) := by
  cases hr : w.kernel.inflight[i]? with
  | none => simp [complete, unposted, hr]
  | some request =>
    have hfinish := finish_live hr
    simp only [complete, hr, unposted, Option.toList_some, List.map_cons, List.map_nil]
    cases hopen : w.is_open with
    | false =>
      rw [post_closed (w := w.finish i) hopen]
      exact hfinish
    | true =>
      have hunreaped := post_unreaped (w := w.finish i) hopen ⟨request.entry, result⟩
      have hlive : ((w.finish i).post ⟨request.entry, result⟩).live =
          (w.finish i).live ++ [request.entry] := by
        simp [live, hunreaped, post_pending, post_running]
      simpa [hlive] using hfinish

theorem cancelled_prefix (w : World) (i : Nat) :
    w.cancelled i <+: w.kernel.inflight.drop (i + 1) := by
  unfold cancelled
  split
  · exact List.nil_prefix
  · exact chain_rest_prefix _ _

/-- Cancelling what is behind a request leaves that request where it is. -/
theorem cancel_rest_getElem? (w : World) (i : Nat) :
    (w.cancel_rest i).kernel.inflight[i]? = w.kernel.inflight[i]? := by
  show (_ ++ _)[i]? = _
  by_cases hi : i < w.kernel.inflight.length
  · rw [List.getElem?_append_left (by simp only [List.length_take]; omega), List.getElem?_take,
      if_pos (Nat.lt_succ_self i)]
  · have hnone := List.getElem?_eq_none_iff.mpr (Nat.not_lt.mp hi)
    rw [hnone, List.getElem?_eq_none_iff]
    simp only [List.length_append, List.length_take, List.length_drop]
    omega

theorem cancel_rest_live (w : World) (i : Nat) :
    w.live.Perm ((w.cancel_rest i).live ++ (w.cancelled i).map (·.entry)) := by
  obtain ⟨rest, hrest⟩ := w.cancelled_prefix i
  have hinflight : (w.cancel_rest i).kernel.inflight =
      w.kernel.inflight.take (i + 1) ++ rest := by
    show _ ++ (w.kernel.inflight.drop (i + 1)).drop _ = _
    rw [← hrest, List.drop_left]
  have hpending : (w.cancel_rest i).pending = w.pending := rfl
  have hunreaped : (w.cancel_rest i).unreaped = w.unreaped := rfl
  apply List.perm_iff_count.mpr
  intro entry
  -- In flight are those up to `i`, those cancelled and the rest.
  have hrunning : w.running.count entry =
      ((w.kernel.inflight.take (i + 1)).map (·.entry)).count entry +
        (((w.cancelled i).map (·.entry)).count entry + (rest.map (·.entry)).count entry) := by
    rw [running, ← List.count_append, ← List.count_append, ← List.map_append, ← List.map_append,
      hrest, List.take_append_drop]
  simp only [live, hpending, hunreaped, running, hinflight, List.map_append,
    List.count_append] at hrunning ⊢
  omega

theorem flush_pending (w : World) : w.flush.pending = w.pending := by
  cases h : w.ring.the_io_uring <;> simp [flush, pending, h]

theorem flush_running (w : World) : w.flush.running = w.running := by
  cases h : w.ring.the_io_uring <;> simp [flush, running, h]

theorem flush_unreaped (w : World) : w.flush.unreaped = w.unreaped := by
  cases h : w.ring.the_io_uring <;> simp [flush, unreaped, h]

theorem write_live (w : World) (i : Nat) (bytes : List UInt8) :
    (w.write i bytes).live = w.live := by
  unfold write
  split <;> rfl

/-- **Conservation**: a step of the kernel moves operations on but neither
    makes nor loses any, except those it completes without a completion. -/
theorem kernel_step_live (w : World) (ev : KernelEvent) :
    w.live.Perm ((w.kernel_step ev).live ++ w.dropped ev) := by
  cases ev with
  | consume k =>
    show w.live.Perm ((w.consume k).live ++ [])
    rw [List.append_nil]
    exact consume_live w k
  | complete i result => exact complete_live w i result
  | complete_silently i =>
    show w.live.Perm ((w.finish i).live ++ _)
    cases hr : w.kernel.inflight[i]? with
    | none =>
      have hi := List.getElem?_eq_none_iff.mp hr
      have hsame : w.kernel.inflight.eraseIdx i = w.kernel.inflight := List.eraseIdx_of_length_le hi
      have hrunning : (w.finish i).running = w.running := by
        simp only [running, finish, hsame]
      have hlive : (w.finish i).live = w.live := by
        simp only [live, hrunning]
        rfl
      simp [dropped, hr, hlive]
    | some request => simpa [dropped, hr] using finish_live hr
  | fail_chain i result =>
    have hcomplete := complete_live (w.cancel_rest i) i result
    -- Cancelling the rest does not touch the request that fails.
    have hunposted : (w.cancel_rest i).unposted i = w.unposted i := by
      simp only [unposted, cancel_rest_getElem?, (cancel_rest_sameProcess w i).is_open]
    rw [hunposted] at hcomplete
    refine (cancel_rest_live w i).trans ((hcomplete.append_right _).trans ?_)
    simp [dropped, kernel_step, fail_chain]
  | write i bytes => simp [dropped, kernel_step, write_live]
  | flush =>
    simp [dropped, kernel_step, live, flush_pending, flush_running, flush_unreaped]
  | tick nanos => simp [dropped, kernel_step, tick, live, pending, running, unreaped]

theorem complete_posted {w : World} (hopen : w.is_open = true) (i : Nat) (result : Int32) :
    ∃ cqes, (w.complete i result).kernel.posted = w.kernel.posted ++ cqes ∧
      (w.complete i result).unreaped = w.unreaped ++ cqes := by
  unfold complete
  split
  · exact ⟨[], by simp⟩
  · exact ⟨_, post_posted (w := w.finish i) hopen _, post_unreaped (w := w.finish i) hopen _⟩

/-- What a step of the kernel posts is added to what can be reaped. -/
theorem kernel_step_posted {w : World} (hopen : w.is_open = true) (ev : KernelEvent) :
    ∃ cqes, (w.kernel_step ev).kernel.posted = w.kernel.posted ++ cqes ∧
      (w.kernel_step ev).unreaped = w.unreaped ++ cqes := by
  cases ev with
  | consume k => exact ⟨[], by simp [kernel_step, consume_posted, consume_unreaped]⟩
  | complete i result => exact complete_posted hopen i result
  | complete_silently i => exact ⟨[], by simp [kernel_step, finish, unreaped]⟩
  | fail_chain i result => exact complete_posted (w := w.cancel_rest i) hopen i result
  | write i bytes =>
    show ∃ cqes, (w.write i bytes).kernel.posted = _ ∧ (w.write i bytes).unreaped = _
    unfold write
    split <;> exact ⟨[], by simp [unreaped]⟩
  | flush =>
    have hposted : w.flush.kernel.posted = w.kernel.posted := by
      unfold flush
      split <;> rfl
    exact ⟨[], by simp [kernel_step, hposted, flush_unreaped]⟩
  | tick nanos => exact ⟨[], by simp [kernel_step, tick, unreaped]⟩

theorem complete_accepted (w : World) (i : Nat) (result : Int32) :
    (w.complete i result).accepted = w.accepted := by
  unfold complete
  split
  · rfl
  · simp only [accepted, post_pending, post_batches]
    rfl

/-- Nothing is accepted in a step of the kernel. -/
theorem kernel_step_accepted (w : World) (ev : KernelEvent) :
    (w.kernel_step ev).accepted = w.accepted := by
  cases ev with
  | consume k => exact consume_accepted w k
  | complete i result => exact complete_accepted w i result
  | complete_silently i => rfl
  | fail_chain i result => exact complete_accepted (w.cancel_rest i) i result
  | write i bytes =>
    show (w.write i bytes).accepted = w.accepted
    unfold write
    split <;> rfl
  | flush => cases h : w.ring.the_io_uring <;> simp [kernel_step, flush, accepted, pending, h]
  | tick nanos => rfl

theorem complete_batches (w : World) (i : Nat) (result : Int32) :
    (w.complete i result).kernel.batches = w.kernel.batches := by
  unfold complete
  split
  · rfl
  · rw [post_batches]
    rfl

/-- Only consuming makes batches. -/
theorem kernel_step_batches_eq (w : World) {ev : KernelEvent} (h : ∀ k, ev ≠ .consume k) :
    (w.kernel_step ev).kernel.batches = w.kernel.batches := by
  cases ev with
  | consume k => exact absurd rfl (h k)
  | complete i result => exact complete_batches w i result
  | complete_silently i => rfl
  | fail_chain i result => exact complete_batches (w.cancel_rest i) i result
  | write i bytes =>
    show (w.write i bytes).kernel.batches = _
    unfold write
    split <;> rfl
  | flush => cases h : w.ring.the_io_uring <;> simp [kernel_step, flush, h]
  | tick nanos => rfl

/-- Batches that were consumed are never changed. -/
theorem kernel_step_batches (w : World) (ev : KernelEvent) :
    w.kernel.batches <+: (w.kernel_step ev).kernel.batches := by
  by_cases h : ∃ k, ev = .consume k
  · obtain ⟨k, rfl⟩ := h
    cases h : w.ring.the_io_uring with
    | none => simp [kernel_step, consume, h]
    | some uring => simp [kernel_step, consume, h]
  · rw [kernel_step_batches_eq w fun k hk => h ⟨k, hk⟩]

theorem post_kernel (w : World) (cqe : Cqe) :
    (w.post cqe).kernel.inflight = w.kernel.inflight ∧ (w.post cqe).kernel.now = w.kernel.now := by
  cases h : w.ring.the_io_uring with
  | none => simp [post, h]
  | some uring =>
    simp only [post, h]
    split <;> exact ⟨rfl, rfl⟩

theorem complete_inflight (w : World) (i : Nat) (result : Int32) :
    (w.complete i result).kernel.inflight = w.kernel.inflight.eraseIdx i := by
  unfold complete
  split
  · next hnone => exact (List.eraseIdx_of_length_le (List.getElem?_eq_none_iff.mp hnone)).symm
  · exact (post_kernel _ _).1

theorem complete_pending (w : World) (i : Nat) (result : Int32) :
    (w.complete i result).pending = w.pending := by
  unfold complete
  split
  · rfl
  · exact post_pending _ _

theorem complete_unreaped {w : World} (hopen : w.is_open = true) (i : Nat) (result : Int32) :
    (w.complete i result).unreaped = w.unreaped ++
      (w.kernel.inflight[i]?).toList.map fun request => ⟨request.entry, result⟩ := by
  cases hr : w.kernel.inflight[i]? with
  | none => simp [complete, hr]
  | some request =>
    simp only [complete, hr]
    exact post_unreaped (w := w.finish i) hopen _

/-- No entry gets into the queue. -/
theorem kernel_step_pending (w : World) (ev : KernelEvent) :
    (w.kernel_step ev).pending ⊆ w.pending := by
  cases ev with
  | consume k =>
    show (w.consume k).pending ⊆ _
    rw [consume_pending]
    exact List.drop_subset _ _
  | complete i result =>
    show (w.complete i result).pending ⊆ _
    rw [complete_pending]
    exact List.Subset.refl _
  | complete_silently i => exact List.Subset.refl _
  | fail_chain i result =>
    show ((w.cancel_rest i).complete i result).pending ⊆ _
    rw [complete_pending]
    exact List.Subset.refl _
  | write i bytes =>
    show (w.write i bytes).pending ⊆ _
    unfold write
    split <;> exact List.Subset.refl _
  | flush =>
    show w.flush.pending ⊆ _
    rw [flush_pending]
    exact List.Subset.refl _
  | tick nanos => exact List.Subset.refl _

theorem cancel_rest_inflight (w : World) (i : Nat) :
    (w.cancel_rest i).kernel.inflight ⊆ w.kernel.inflight := by
  show w.kernel.inflight.take (i + 1) ++ (w.kernel.inflight.drop (i + 1)).drop _ ⊆ _
  refine List.append_subset.mpr ⟨List.take_subset _ _, ?_⟩
  exact List.Subset.trans (List.drop_subset _ _) (List.drop_subset _ _)

/-- What runs was running before or has just been consumed. -/
theorem kernel_step_inflight {w : World} {ev : KernelEvent} {request : Request}
    (h : request ∈ (w.kernel_step ev).kernel.inflight) :
    request ∈ w.kernel.inflight ∨ request.entry ∈ w.pending := by
  cases ev with
  | consume k =>
    cases hring : w.ring.the_io_uring with
    | none => simpa [kernel_step, consume, hring] using Or.inl h
    | some uring =>
      -- Consumed entries come to be in flight.
      have hmem : request ∈ w.kernel.inflight ++
          start_batch w.kernel.now (uring.sq.entries.take k) := by
        simpa [kernel_step, consume, hring] using h
      rcases List.mem_append.mp hmem with hold | hnew
      · exact .inl hold
      · have hentry := List.mem_map_of_mem (f := (·.entry)) hnew
        rw [start_batch_entry] at hentry
        right
        simpa [pending, hring] using List.mem_of_mem_take hentry
  | complete i result =>
    change request ∈ (w.complete i result).kernel.inflight at h
    rw [complete_inflight] at h
    exact .inl (List.mem_of_mem_eraseIdx h)
  | complete_silently i => exact .inl (List.mem_of_mem_eraseIdx h)
  | fail_chain i result =>
    change request ∈ ((w.cancel_rest i).complete i result).kernel.inflight at h
    rw [complete_inflight] at h
    exact .inl (w.cancel_rest_inflight i (List.mem_of_mem_eraseIdx h))
  | write i bytes =>
    change request ∈ (w.write i bytes).kernel.inflight at h
    unfold write at h
    split at h <;> exact .inl h
  | flush => cases hring : w.ring.the_io_uring <;> simpa [kernel_step, flush, hring] using Or.inl h
  | tick nanos => exact .inl h

end World

end CenturyRing
