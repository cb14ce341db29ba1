import CenturyRing.Runs

/-! # The I/O manager (`aio/manager.py`)

  `UringIoManager` hands completions to tasks of an event loop. A dispatcher
  task reaps the ring whenever its eventfd can be read; a call of
  `wait_for_completion` creates a stream, stores the sending end under its
  user data and awaits the receiving end.

  Tasks are switched only where they await. From one await to the next a task
  runs alone; only the kernel acts meanwhile.
-/

open LTS

namespace CenturyRing

/-! ### Memory object streams -/

/-- What the manager relies on of `anyio.create_memory_object_stream()`: with
    no arguments the buffer has no room, and `receive()` runs a checkpoint
    before it joins the waiting receivers. -/
structure MemoryObjectStream (Item : Type) where
  State : Type
  /-- A new stream. -/
  create : State
  /-- `receive()` joins the waiting receivers. -/
  receive : State → State
  /-- `send_nowait(item)`; `none` stands for `WouldBlock` and for
      `BrokenResourceError`. -/
  send_nowait : State → Item → Option State
  /-- The receiving end is closed. -/
  close : State → State
  /-- The item the waiting receiver has been handed. -/
  item : State → Option Item
  item_create : item create = none
  item_receive : item (receive create) = none
  /-- Nobody is waiting yet. -/
  would_block : ∀ x, send_nowait create x = none
  /-- A waiting receiver is handed the item. -/
  handed : ∀ x, ∃ state, send_nowait (receive create) x = some state ∧ item state = some x
  /-- Nobody will wait any more. -/
  broken : ∀ state x, send_nowait (close state) x = none

/-- A stream that only keeps whether a receiver waits and what it was handed. -/
def rendezvous (Item : Type) : MemoryObjectStream Item where
  State := Bool × Option Item
  create := (false, none)
  receive state := (true, state.2)
  send_nowait state x := if state.1 then some (false, some x) else none
  close state := (false, state.2)
  item state := state.2
  item_create := rfl
  item_receive := rfl
  would_block _ := rfl
  handed x := ⟨(false, some x), rfl, rfl⟩
  broken _ _ := rfl

/-! ### The manager and the calls that wait -/

/-- Which call of `wait_for_completion` is meant. -/
abbrev CallId := Nat

/-- Where a call of `wait_for_completion` is. -/
inductive Progress where
  /-- It has stored its sender and is in the checkpoint of `receive()`. -/
  | checkpoint
  /-- It has joined the waiting receivers. -/
  | receiving
  /-- It has returned the event or raised the error in it. -/
  | returned
  | cancelled
  /-- The submit in it has raised an error. -/
  | failed
  deriving DecidableEq, Repr

/-- A call of `wait_for_completion`. -/
structure Call (S : MemoryObjectStream CompletionEvent) where
  user_data : UInt64
  stream : S.State
  progress : Progress

namespace Call

variable {S : MemoryObjectStream CompletionEvent}

/-- The call has stored its sender, and has neither returned nor been
    cancelled. -/
def waiting (call : Call S) : Prop :=
  call.progress = .checkpoint ∨ call.progress = .receiving

/-- `waiter.send_nowait(dispatched)`, where both errors are ignored. The sender
    is closed afterwards, which a receiver that has its item does not notice. -/
def send_nowait (call : Call S) (dispatched : CompletionEvent) : Call S :=
  match S.send_nowait call.stream dispatched with
  | some stream => { call with stream := stream }
  | none => call

end Call

/-- `UringIoManager`, with all that goes on around it. -/
structure UringIoManager (S : MemoryObjectStream CompletionEvent) where
  py : PyState
  /-- The counter of the eventfd. -/
  efd : Nat
  _force_submissions : Bool
  /-- The call whose sender is stored under a user data. -/
  _completion_waiters : UInt64 → Option CallId
  calls : CallId → Option (Call S)
  /-- What is left of the list the dispatcher is going through. -/
  reaped : List CompletionEvent
  /-- The events the dispatcher is done with. -/
  dispatched : List CompletionEvent

/-- What can happen. -/
inductive ManagerLabel where
  /-- A task, or the hook that submits before the loop waits for I/O, uses the
      ring; or the kernel acts. -/
  | ring (l : RingLabel)
  /-- `wait_for_completion` is called and runs up to its first await. -/
  | wait_for_completion (call : CallId) (user_data : UInt64) (answer : Enter)
  /-- A call is resumed. -/
  | resume (call : CallId)
  | cancel (call : CallId)
  /-- The dispatcher is resumed and reaps the ring. -/
  | reap (bursts : List (List KernelEvent))
  /-- The dispatcher goes on to the next event. -/
  | dispatch

instance (l : RingLabel) : Decidable (∃ ev, l = .kernel ev) :=
  match l with
  | .kernel ev => .isTrue ⟨ev, rfl⟩
  | .prep .. | .submit _ | .submit_and_wait .. | .submit_and_wait_with_timeout ..
  | .get_completion_entries _ | .close | .close_handle .. | .exit_handle .. => .isFalse nofun

namespace UringIoManager

variable {S : MemoryObjectStream CompletionEvent}

/-- A use of the ring; the eventfd counts the completions posted meanwhile. -/
def use_ring (m : UringIoManager S) (l : RingLabel) : UringIoManager S :=
  let py := l.run m.py
  let posted := py.world.kernel.posted.length - m.py.world.kernel.posted.length
  { m with py := py, efd := m.efd + posted }

def set_call (m : UringIoManager S) (id : CallId) (call : Call S) : UringIoManager S :=
  { m with calls := Function.update m.calls id (some call) }

/-- `_completion_waiters[user_data] = send`, for a new stream. -/
def register (m : UringIoManager S) (id : CallId) (user_data : UInt64) : UringIoManager S :=
  let m := m.set_call id ⟨user_data, S.create, .checkpoint⟩
  { m with _completion_waiters := Function.update m._completion_waiters user_data (some id) }

/-- `wait_for_completion` up to its first await. -/
def wait_for_completion (m : UringIoManager S) (id : CallId) (user_data : UInt64)
    (answer : Enter) : UringIoManager S :=
  if m._force_submissions then
    let submitted := m.use_ring (.submit answer)
    match (rust (submit answer) m.py).1 with
    | .ok _ => submitted.register id user_data
    | .error _ => submitted.set_call id ⟨user_data, S.create, .failed⟩
  else
    m.register id user_data

/-- A call is resumed: it goes from its checkpoint to the waiting receivers, or
    leaves with the event it was handed. -/
def resume (m : UringIoManager S) (id : CallId) : UringIoManager S :=
  match m.calls id with
  | none => m
  | some call =>
    match call.progress with
    | .checkpoint =>
      m.set_call id { call with stream := S.receive call.stream, progress := .receiving }
    | _ => m.set_call id { call with stream := S.close call.stream, progress := .returned }

/-- A call is cancelled; its sender stays where it is. -/
def cancel (m : UringIoManager S) (id : CallId) : UringIoManager S :=
  match m.calls id with
  | none => m
  | some call =>
    m.set_call id { call with stream := S.close call.stream, progress := .cancelled }

/-- `os.read(self.efd, 8)` and `self.ring.get_completion_entries()`. -/
def reap (m : UringIoManager S) (bursts : List (List KernelEvent)) : UringIoManager S :=
  { { m with efd := 0 }.use_ring (.get_completion_entries bursts) with
    reaped := (RingLabel.get_completion_entries bursts).events m.py }

/-- The event is sent to the call `waiter`. -/
def send (m : UringIoManager S) (waiter : CallId) (dispatched : CompletionEvent) :
    UringIoManager S :=
  match m.calls waiter with
  | none => m
  | some call => m.set_call waiter (call.send_nowait dispatched)

/-- The body of the loop of `_dispatch_event_results`. -/
def dispatch_one (m : UringIoManager S) (dispatched : CompletionEvent) : UringIoManager S :=
  if dispatched.should_be_ignored then m
  else
    match m._completion_waiters dispatched.user_data with
    | none => m
    | some waiter =>
      let waiters := Function.update m._completion_waiters dispatched.user_data none
      { m with _completion_waiters := waiters }.send waiter dispatched

/-- The dispatcher goes on to the next event. -/
def dispatch (m : UringIoManager S) : UringIoManager S :=
  match m.reaped with
  | [] => m
  | event :: reaped =>
    { m.dispatch_one event with reaped := reaped, dispatched := m.dispatched ++ [event] }

/-- The state afterwards. -/
def run (m : UringIoManager S) : ManagerLabel → UringIoManager S
  | .ring l => m.use_ring l
  | .wait_for_completion id user_data answer => m.wait_for_completion id user_data answer
  | .resume id => m.resume id
  | .cancel id => m.cancel id
  | .reap bursts => m.reap bursts
  | .dispatch => m.dispatch

/-- When a step can be taken. Until the dispatcher is through its list, only
    the kernel acts besides it. Calls that wait at the same time have different
    user data. -/
def allowed (m : UringIoManager S) : ManagerLabel → Prop
  | .ring l => m.reaped = [] ∨ ∃ ev, l = .kernel ev
  | .wait_for_completion id user_data _ => m.reaped = [] ∧ m.calls id = none ∧
      ∀ other call, m.calls other = some call → call.waiting → call.user_data ≠ user_data
  | .resume id => m.reaped = [] ∧ ∃ call, m.calls id = some call ∧
      (call.progress = .checkpoint ∨
        call.progress = .receiving ∧ (S.item call.stream).isSome = true)
  | .cancel id => m.reaped = [] ∧ ∃ call, m.calls id = some call ∧ call.waiting
  | .reap _ => m.reaped = [] ∧ 0 < m.efd ∧ m.py.world.is_open = true
  | .dispatch => m.reaped ≠ []

/-- When a step can be taken, whatever calls wait already. -/
def possible (m : UringIoManager S) : ManagerLabel → Prop
  | .wait_for_completion id _ _ => m.reaped = [] ∧ m.calls id = none
  | l => m.allowed l

instance (m : UringIoManager S) (l : ManagerLabel) : Decidable (m.possible l) :=
  match l with
  | .ring l => inferInstanceAs (Decidable (m.reaped = [] ∨ ∃ ev, l = .kernel ev))
  | .wait_for_completion id _ _ => inferInstanceAs (Decidable (m.reaped = [] ∧ m.calls id = none))
  | .resume id => inferInstanceAs (Decidable (m.reaped = [] ∧ ∃ call, call ∈ m.calls id ∧
      (call.progress = .checkpoint ∨
        call.progress = .receiving ∧ (S.item call.stream).isSome = true)))
  | .cancel id => inferInstanceAs (Decidable (m.reaped = [] ∧ ∃ call, call ∈ m.calls id ∧
      (call.progress = .checkpoint ∨ call.progress = .receiving)))
  | .reap _ =>
    inferInstanceAs (Decidable (m.reaped = [] ∧ 0 < m.efd ∧ m.py.world.is_open = true))
  | .dispatch => inferInstanceAs (Decidable (m.reaped ≠ []))

end UringIoManager

/-- The manager, any number of calls of `wait_for_completion`, and the kernel. -/
def manager_system (S : MemoryObjectStream CompletionEvent) :
    System (UringIoManager S) ManagerLabel where
  init := fun m => m.py.initial ∧ m.efd = 0 ∧ m._completion_waiters = (fun _ => none) ∧
    m.calls = (fun _ => none) ∧ m.reaped = [] ∧ m.dispatched = []
  step := fun m l m' => m.allowed l ∧ m' = m.run l

/-- The same, where calls may wait on the same user data. -/
def task_system (S : MemoryObjectStream CompletionEvent) :
    System (UringIoManager S) ManagerLabel where
  init := (manager_system S).init
  step := fun m l m' => m.possible l ∧ m' = m.run l

end CenturyRing
