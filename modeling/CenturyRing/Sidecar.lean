import CenturyRing.Runs
import Mathlib.Data.Finset.Basic

/-! # Sidecar sessions (`aio/sidecar.py`)

  A session of `start_uring_sidecar` acquires a ring, under trio an
  instrument, an eventfd and a dispatcher task, one after the other, and gives
  them back in different scopes. What the calls outside of the library answer
  is a parameter of the session.
-/

namespace CenturyRing

/-! ### What a process holds -/

/-- `UringSidecarInstrument`: the ring it submits, and the identity that trio
    keys it by. -/
structure Instrument where
  id : Nat
  ring : Nat
  deriving DecidableEq, Repr

/-- A task, and the task group it was started in. -/
structure Task where
  id : Nat
  group : Nat
  deriving DecidableEq, Repr

/-- What sidecar sessions acquire: open rings, open eventfds, registered
    instruments and running tasks, each under a name of its own. -/
@[ext] structure Resources where
  rings : Finset Nat
  eventfds : Finset Nat
  instruments : Finset Instrument
  tasks : Finset Task
  deriving DecidableEq

namespace Resources

/-- A registered instrument refers to a closed ring. -/
def dangling (r : Resources) : Prop := ∃ i ∈ r.instruments, i.ring ∉ r.rings

instance (r : Resources) : Decidable r.dangling :=
  inferInstanceAs (Decidable (∃ i ∈ r.instruments, i.ring ∉ r.rings))

def with_ring (r : Resources) (ring : Nat) : Resources :=
  { r with rings := insert ring r.rings }

def without_ring (r : Resources) (ring : Nat) : Resources :=
  { r with rings := r.rings.erase ring }

/-- Closing a ring undoes opening it. -/
theorem without_with_ring (r : Resources) {ring : Nat} (h : ring ∉ r.rings) :
    (r.with_ring ring).without_ring ring = r := by
  rw [with_ring, without_ring, Finset.erase_insert h]

def with_instrument (r : Resources) (instrument : Instrument) : Resources :=
  { r with instruments := insert instrument r.instruments }

def without_instrument (r : Resources) (instrument : Instrument) : Resources :=
  { r with instruments := r.instruments.erase instrument }

def with_eventfd (r : Resources) (efd : Nat) : Resources :=
  { r with eventfds := insert efd r.eventfds }

def with_task (r : Resources) (task : Task) : Resources :=
  { r with tasks := insert task r.tasks }

/-- The tasks of a group have ended. -/
def without_group (r : Resources) (group : Nat) : Resources :=
  { r with tasks := r.tasks.filter fun task => task.group ≠ group }

end Resources

/-- A process that runs sidecar sessions. -/
structure Process where
  now : Resources
  /-- What the process held after each change. -/
  history : List Resources
  /-- The task groups whose scope has been cancelled. -/
  cancelled : Finset Nat
  /-- The next name that nothing has. -/
  next : Nat

/-- A process that holds nothing. -/
def Process.initial : Process := ⟨⟨∅, ∅, ∅, ∅⟩, [], ∅, 0⟩

/-- What can be raised in a session. -/
inductive Raised where
  /-- An exception of the ring or of the operating system. -/
  | py (e : PyErr)
  | key_error
  | cancelled
  /-- Any other exception. -/
  | exception
  deriving DecidableEq, Repr

abbrev SidecarM := Fallible Process Raised

/-! ### Sessions -/

inductive AsyncLibrary where
  | trio
  | asyncio
  deriving DecidableEq, Repr

/-- The arguments of `start_uring_sidecar`. -/
structure SidecarArgs where
  entries : Int
  cq_size : Option Int
  sqpoll_idle_ms : Option Int
  single_issuer : Bool
  autosubmit : Bool
  force_submissions : Bool

/-- `start_uring_sidecar()`. -/
def SidecarArgs.default : SidecarArgs := ⟨256, none, none, true, true, false⟩

/-- `UringIoManager(ring=ring, efd=efd, force_submissions=force_submissions)`;
    `world` is the ring as it was made. -/
structure SidecarManager where
  ring : Nat
  world : World
  efd : Nat
  force_submissions : Bool

/-- A session: what it is called with, and what everything outside of the
    library does. -/
structure Session where
  /-- `sniffio.current_async_library()`. -/
  lib : AsyncLibrary
  args : SidecarArgs
  host : Host
  add_instrument : Except Raised PUnit
  /-- `os.eventfd(0)`. -/
  eventfd : Except Raised PUnit
  /-- `io_uring_register(2)` for the eventfd. -/
  register_eventfd : Except Raised PUnit
  start_soon : Except Raised PUnit
  /-- The block under `async with start_uring_sidecar(...) as manager`. -/
  body : SidecarManager → Except Raised PUnit
  /-- `before_io_wait` raises during that block. trio then drops the
      instrument. -/
  hook_raises : Bool

/-- `make_io_ring()`: none of the arguments is passed on. -/
def sidecar_ring (host : Host) (_args : SidecarArgs) : Except PyErr World :=
  make_io_ring host 256 none none true true

/-! ### The calls of a session -/

namespace Process

/-- What the process holds changes. -/
def change (p : Process) (f : Resources → Resources) : Process :=
  { p with now := f p.now, history := p.history ++ [f p.now] }

/-- The next name is given to something. -/
def named (p : Process) : Process := { p with next := p.next + 1 }

def cancel (p : Process) (group : Nat) : Process :=
  { p with cancelled := insert group p.cancelled }

end Process

def change (f : Resources → Resources) : SidecarM PUnit := modify fun p => p.change f

def new_name : SidecarM Nat := modifyGet fun p => (p.next, p.named)

/-- `with make_io_ring(...) as ring:`. -/
def with_io_ring (made : Except PyErr World) (block : Nat → World → SidecarM PUnit) :
    SidecarM PUnit := do
  let world ← Fallible.check (made.mapError .py)
  let ring ← new_name
  change (·.with_ring ring)
  Fallible.try_finally (block ring world) (change (·.without_ring ring))

/-- trio keeps nothing of an instrument that it fails to add. -/
def add_instrument (answer : Except Raised PUnit) (instrument : Instrument) : SidecarM PUnit := do
  Fallible.check answer
  change (·.with_instrument instrument)

def remove_instrument (instrument : Instrument) : SidecarM PUnit := do
  let p ← get
  if instrument ∈ p.now.instruments then
    change (·.without_instrument instrument)
  else
    throw .key_error

def eventfd (answer : Except Raised PUnit) : SidecarM Nat := do
  Fallible.check answer
  let efd ← new_name
  change (·.with_eventfd efd)
  return efd

/-- `TheIoRing.register_eventfd`. -/
def register_eventfd (answer : Except Raised PUnit) (ring : Nat) : SidecarM PUnit := do
  let p ← get
  if ring ∈ p.now.rings then
    Fallible.check answer
  else
    throw (.py ring_closed)

/-- `group.start_soon(manager._dispatch_event_results)`. -/
def start_soon (answer : Except Raised PUnit) (group : Nat) : SidecarM PUnit := do
  Fallible.check answer
  let id ← new_name
  change (·.with_task ⟨id, group⟩)

/-- `group.cancel_scope.cancel()`. -/
def cancel (group : Nat) : SidecarM PUnit := modify fun p => p.cancel group

/-- A task group waits for its tasks. The dispatcher loop ends only when it is
    cancelled. -/
def wait_for_tasks (group : Nat) : SidecarM PUnit := do
  let p ← get
  if group ∈ p.cancelled then
    change (·.without_group group)

/-- `async with anyio.create_task_group() as group:`. An exception cancels the
    tasks of the group. -/
def create_task_group (block : Nat → SidecarM PUnit) : SidecarM PUnit := do
  let group ← new_name
  try
    block group
  catch e =>
    cancel group
    wait_for_tasks group
    throw e
  wait_for_tasks group

/-- `UringSidecarInstrument.before_io_wait`, as often as trio calls it. trio
    drops an instrument that raises. -/
def before_io_wait (hook_raises : Bool) (instrument : Instrument) : SidecarM PUnit :=
  if hook_raises then change (·.without_instrument instrument) else pure ⟨⟩

/-- `yield manager`. -/
def yield_manager (session : Session) (sidecar_instrument : Option Instrument)
    (manager : SidecarManager) : SidecarM PUnit :=
  match sidecar_instrument with
  | some instrument => do
    before_io_wait session.hook_raises instrument
    Fallible.check (session.body manager)
  | none => Fallible.check (session.body manager)

/-- The `finally` block. There is an instrument exactly under trio. -/
def finally_block (sidecar_instrument : Option Instrument) (group : Nat) : SidecarM PUnit := do
  cancel group
  sidecar_instrument.forM remove_instrument

/-- The block under `async with anyio.create_task_group() as group:`. -/
def in_task_group (session : Session) (ring : Nat) (world : World)
    (sidecar_instrument : Option Instrument) (force_submissions : Bool) (group : Nat) :
    SidecarM PUnit := do
  let efd ← eventfd session.eventfd
  register_eventfd session.register_eventfd ring
  let manager : SidecarManager := ⟨ring, world, efd, force_submissions⟩
  start_soon session.start_soon group
  Fallible.try_finally (yield_manager session sidecar_instrument manager)
    (finally_block sidecar_instrument group)

/-- The block under `with make_io_ring() as ring:`. -/
def in_io_ring (session : Session) (ring : Nat) (world : World) : SidecarM PUnit :=
  match session.lib with
  | .trio => do
    let instrument : Instrument := ⟨← new_name, ring⟩
    add_instrument session.add_instrument instrument
    create_task_group
      (in_task_group session ring world (some instrument) session.args.force_submissions)
  | .asyncio => create_task_group (in_task_group session ring world none true)

/-- `start_uring_sidecar`, and the block under it. -/
def start_uring_sidecar (session : Session) : SidecarM PUnit :=
  with_io_ring (sidecar_ring session.host session.args) (in_io_ring session)

/-! ### What each call does -/

section calls

open Fallible

variable {p : Process} {Q : PUnit → Process → Prop} {E : Raised → Process → Prop}

@[simp] theorem wp_change (f : Resources → Resources) :
    (change f).wp Q E p ↔ Q ⟨⟩ (p.change f) := wp_modify _

@[simp] theorem wp_new_name {Q : Nat → Process → Prop} :
    new_name.wp Q E p ↔ Q p.next p.named := wp_modifyGet _

@[simp] theorem wp_cancel (group : Nat) :
    (cancel group).wp Q E p ↔ Q ⟨⟩ (p.cancel group) := wp_modify _

/-- A call that the outside answers goes on or raises. -/
theorem wp_answer {answer : Except Raised PUnit} :
    (check answer : SidecarM PUnit).wp Q E p ↔
      (answer = .ok ⟨⟩ → Q ⟨⟩ p) ∧ ∀ e, answer = .error e → E e p := by
  rw [wp_check_iff]
  exact and_congr_left fun _ => ⟨fun h => h ⟨⟩, fun h _ => h⟩

theorem wp_with_io_ring {made : Except PyErr World} {block : Nat → World → SidecarM PUnit} :
    (with_io_ring made block).wp Q E p ↔
      (∀ world, made = .ok world →
        (block p.next world).wp
          (fun _ p' => Q ⟨⟩ (p'.change (·.without_ring p.next)))
          (fun e p' => E e (p'.change (·.without_ring p.next)))
          (p.named.change (·.with_ring p.next))) ∧
      ∀ e, made = .error e → E (.py e) p := by
  rw [with_io_ring, wp_bind, wp_check_iff]
  cases made with
  | error e => simp [Except.mapError]
  | ok world => simp [Except.mapError, wp_bind, wp_try_finally]

theorem wp_eventfd {answer : Except Raised PUnit} {Q : Nat → Process → Prop} :
    (eventfd answer).wp Q E p ↔
      (answer = .ok ⟨⟩ →
        Q p.next (p.named.change (·.with_eventfd p.next))) ∧
      ∀ e, answer = .error e → E e p := by
  simp [eventfd, wp_bind, wp_answer]

theorem wp_remove_instrument {instrument : Instrument} :
    (remove_instrument instrument).wp Q E p ↔
      (instrument ∈ p.now.instruments →
        Q ⟨⟩ (p.change (·.without_instrument instrument))) ∧
      (instrument ∉ p.now.instruments → E .key_error p) := by
  simp [remove_instrument, wp_bind, wp_ite]

theorem wp_start_soon {answer : Except Raised PUnit} {group : Nat} :
    (start_soon answer group).wp Q E p ↔
      (answer = .ok ⟨⟩ →
        Q ⟨⟩ (p.named.change (·.with_task ⟨p.next, group⟩))) ∧
      ∀ e, answer = .error e → E e p := by
  simp [start_soon, wp_bind, wp_answer]

/-- However the block ends, its tasks do: it has cancelled them, or its exception
    does. -/
theorem wp_create_task_group {block : Nat → SidecarM PUnit}
    (h : (block p.next).wp
      (fun _ p' => p.next ∈ p'.cancelled ∧ Q ⟨⟩ (p'.change (·.without_group p.next)))
      (fun e p' => E e ((p'.cancel p.next).change (·.without_group p.next))) p.named) :
    (create_task_group block).wp Q E p := by
  rw [create_task_group, wp_bind, wp_new_name, wp_bind, wp_tryCatch]
  refine wp_mono h ?_ ?_
  · intro _ p' hblock
    simpa [wait_for_tasks, wp_bind, wp_ite, hblock.1] using hblock.2
  · intro e p' hblock
    simpa [wait_for_tasks, wp_bind, wp_ite, Process.cancel] using hblock

end calls

end CenturyRing
