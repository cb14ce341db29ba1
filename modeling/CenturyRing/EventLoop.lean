import CenturyRing.Routing
import CenturyRing.Answers
import CenturyRing.Sidecar

/-! # The event loop around the manager (`aio/trio.py`)

  An operation gets to the kernel only if somebody submits the ring. Under
  trio an instrument does, each time the loop is about to wait for I/O; under
  asyncio, which has no such hook, every `wait_for_completion` does.

  `nobody_hangs`: when the loop has come to rest, a call waits only for what
  runs in the kernel, or it has missed its event.
-/

open LTS

namespace CenturyRing

/-! ### The queue -/

/-- User data is returned by a call that pushes its entry. -/
theorem pushed_of_returned {tr : RingTrace} {ud : UInt64} (h : ud ∈ returned tr) :
    ∃ entry ∈ pushed tr, entry.user_data = ud ∧ entry.op.is_timeout = false := by
  rw [returned_eq_pushed] at h
  obtain ⟨entry, hentry, hud⟩ := List.mem_map.mp h
  obtain ⟨hentry, hnot⟩ := List.mem_filter.mp hentry
  exact ⟨entry, hentry, hud, by simpa using hnot⟩

/-- What is in the queue was there before, or has just been pushed. -/
theorem Effect.pending {C : World → KernelEvent → Prop} {w w' : World} {es : List Entry}
    {cqes : List Cqe} (h : Effect C w es cqes w') : w'.pending ⊆ w.pending ++ es := by
  by_cases hopen : w'.is_open = true
  · have haccepted := h.accepted hopen
    obtain ⟨more, hmore⟩ := h.batches
    rw [World.accepted, World.accepted, ← hmore, List.flatten_append, List.append_assoc,
      List.append_assoc, List.append_cancel_left_eq] at haccepted
    rw [← haccepted]
    exact List.subset_append_right _ _
  · cases hring : w'.ring.the_io_uring with
    | none => simp [World.pending, hring]
    | some uring => simp [World.is_open, hring] at hopen

/-! ### When the dispatcher sleeps -/

namespace UringIoManager

variable {S : MemoryObjectStream CompletionEvent} {m m' m₀ : UringIoManager S}
         {tr : List (Step (UringIoManager S) ManagerLabel)} {awaited : UInt64 → Prop}

/-- A run of the manager, seen without the promise that no two calls wait on
    the same user data. -/
theorem task_path (h : Path (manager_system S) m₀ tr m) : Path (task_system S) m₀ tr m := by
  induction h with
  | nil => exact .nil
  | snoc l _ hstep ih => exact .snoc l ih ⟨possible_of_allowed hstep.1, hstep.2⟩

/-- What is asked of a step: only the dispatcher reaps the ring, the kernel
    answers what is `awaited`, and no completion overflows. -/
structure Orderly (awaited : UInt64 → Prop) (m : UringIoManager S) (l : ManagerLabel) : Prop where
  reaps : ∀ bursts, l ≠ .ring (.get_completion_entries bursts)
  answers : ∀ l', m.used l = some l' → l'.meets (World.answers awaited) m.py
  room : (m.run l).py.world.kernel.overflow = []

/-- The eventfd stands at zero only if the completion queue is empty. -/
def signalled (m : UringIoManager S) : Prop :=
  m.py.world.is_open = true → m.efd = 0 → m.py.world.unreaped = []

/-- A use of the ring that posts nothing leaves an empty queue empty. -/
theorem use_ring_signalled (h : m.signalled) (l : RingLabel) : (m.use_ring l).signalled := by
  intro hopen hefd
  have heffect := l.effect m.py (l.meets_true m.py)
  obtain ⟨new, hposted, hunreaped⟩ := heffect.posted hopen
  have hefd' : m.efd + ((l.run m.py).world.kernel.posted.length -
      m.py.world.kernel.posted.length) = 0 := hefd
  have hnew : new = [] := by
    rw [hposted, List.length_append] at hefd'
    exact List.eq_nil_of_length_eq_zero (by omega)
  rw [hnew, h (heffect.is_open hopen) (by omega), List.append_nil] at hunreaped
  exact (List.append_eq_nil_iff.mp hunreaped).2

theorem signalled_congr (hpy : m'.py = m.py) (hefd : m'.efd = m.efd) (h : m.signalled) :
    m'.signalled := by
  unfold signalled
  rw [hpy, hefd]
  exact h

/-- The dispatcher empties the queue. -/
theorem reap_unreaped {bursts : List (List KernelEvent)} (hopen : m.py.world.is_open = true)
    (hroom : (m.run (.reap bursts)).py.world.kernel.overflow = []) :
    (m.run (.reap bursts)).py.world.unreaped = [] := by
  have hcq : (CenturyRing.get_completion_entries bursts m.py.world).2.cq = [] := by
    rw [get_completion_entries_open hopen]
    exact World.drain_cq bursts m.py.world
  have hoverflow :
      (CenturyRing.get_completion_entries bursts m.py.world).2.kernel.overflow = [] := hroom
  show (CenturyRing.get_completion_entries bursts m.py.world).2.unreaped = []
  rw [World.unreaped_eq, hcq, hoverflow]
  exact ite_self _

/-- **Step lemma**: the dispatcher reads the eventfd before it empties the
    queue, so nothing is left in the queue that the eventfd does not tell. -/
theorem signalled_step (h : m.signalled) {l : ManagerLabel}
    (hroom : (m.run l).py.world.kernel.overflow = []) : (m.run l).signalled := by
  cases l with
  | ring l => exact use_ring_signalled h l
  | wait_for_completion id user_data answer =>
    have hsame := m.wait_for_completion_sameEvents id user_data answer
    refine signalled_congr hsame.py hsame.efd ?_
    unfold after_use
    split
    · exact use_ring_signalled h _
    · exact h
  | resume id => exact signalled_congr (m.resume_sameEvents id).py (m.resume_sameEvents id).efd h
  | cancel id => exact signalled_congr (m.cancel_sameEvents id).py (m.cancel_sameEvents id).efd h
  | dispatch => exact signalled_congr m.dispatch_ring.1 m.dispatch_ring.2 h
  | reap bursts =>
    intro hopen _
    have heffect := (RingLabel.get_completion_entries bursts).effect m.py
      (RingLabel.meets_true _ m.py)
    exact reap_unreaped (heffect.is_open hopen) hroom

/-- What the ring hands out goes to the dispatcher. -/
theorem listed_eq (hinit : (manager_system S).init m₀) (h : Path (manager_system S) m₀ tr m)
    (hreaps : ∀ t ∈ tr, ∀ bursts, t.label ≠ .ring (.get_completion_entries bursts)) :
    m.dispatched ++ m.reaped = events (ring_trace tr) := by
  rw [dispatched_history hinit (task_path h), ring_trace, events, List.flatMap_assoc]
  refine List.flatMap_congr fun t ht => ?_
  have hreap := hreaps t ht
  unfold reaped_in ring_step used
  cases hl : t.label with
  | reap bursts => simp
  | ring l =>
    cases l with
    | get_completion_entries bursts => exact absurd hl (hreap bursts)
    | _ => rfl
  | wait_for_completion id user_data answer =>
    by_cases hforce : t.src._force_submissions <;> simp [hforce, RingLabel.events]
  | _ => rfl

/-- In an orderly run the eventfd tells what the completion queue holds. -/
theorem orderly_signalled (hinit : (manager_system S).init m₀) (h : Path (manager_system S) m₀ tr m)
    (horderly : ∀ t ∈ tr, t.src.Orderly awaited t.label) : m.signalled := by
  refine h.invariant_along (I := signalled) (C := fun m l => m.Orderly awaited l) ?_ horderly ?_
  · intro m l m' hsignalled hl hstep
    rw [hstep.2]
    exact signalled_step hsignalled hl.room
  · intro _ _
    exact hinit.1.blank.unreaped

theorem orderly_answers (horderly : ∀ t ∈ tr, t.src.Orderly awaited t.label) :
    ∀ t ∈ ring_trace tr, t.label.meets (World.answers awaited) t.src := by
  intro t ht
  obtain ⟨u, hu, ht⟩ := List.mem_flatMap.mp ht
  unfold ring_step at ht
  split at ht
  · next l hused =>
    obtain rfl := List.mem_singleton.mp ht
    exact (horderly u hu).answers l hused
  · cases ht

/-- **While the dispatcher sleeps**, an operation is in the submission queue or
    in the kernel, or its event has been dispatched. No completion is on its
    way. -/
theorem under_way_or_dispatched (hinit : (manager_system S).init m₀)
    (h : Path (manager_system S) m₀ tr m) (horderly : ∀ t ∈ tr, t.src.Orderly awaited t.label)
    (hopen : m.py.world.is_open = true) (hreaped : m.reaped = []) (hefd : m.efd = 0) {ud : UInt64}
    (hreturned : ud ∈ returned (ring_trace tr)) (hawaited : awaited ud) :
    (∃ entry ∈ m.py.world.pending ++ m.py.world.running,
      entry.user_data = ud ∧ entry.op.is_timeout = false) ∨ m.dispatched_for ud := by
  have hring := ring_path (task_path h)
  have hsignalled := orderly_signalled hinit h horderly
  obtain ⟨entry, hentry, hud, hnot⟩ := pushed_of_returned hreturned
  rcases under_way_or_reaped hring hopen (orderly_answers horderly) hentry hnot
    (hud ▸ hawaited) with hlive | ⟨cqe, hcqe, horigin⟩
  · left
    rw [World.live, hsignalled hopen hefd, List.map_nil, List.append_nil] at hlive
    exact ⟨entry, hlive, hud, hnot⟩
  · right
    have hlisted := listed_eq hinit h fun t ht => (horderly t ht).reaps
    rw [hreaped, List.append_nil] at hlisted
    obtain ⟨event, hevent, heq⟩ := exists_event hcqe
    refine ⟨event, hlisted ▸ hevent, ?_⟩
    rw [heq, Cqe.user_data, horigin, hud]

/-- A call that waits after a step waited before, or has just begun. -/
theorem Stepped.waited {l : ManagerLabel} (h : m.Stepped l m') {id : CallId} {call : Call S}
    (hcall : m'.calls id = some call) (hwaiting : call.waiting) :
    (∃ old, m.calls id = some old ∧ old.waiting ∧ old.user_data = call.user_data) ∨
      ∃ answer, l = .wait_for_completion id call.user_data answer ∧ m.registers answer := by
  have hleft : ∀ {progress : Progress} {ud : UInt64} {stream : S.State},
      progress ≠ .checkpoint → progress ≠ .receiving →
      ¬(⟨ud, stream, progress⟩ : Call S).waiting := fun h h' => Call.not_waiting h h'
  cases h with
  | ring l => exact .inl ⟨call, hcall, hwaiting, rfl⟩
  | reap bursts => exact .inl ⟨call, hcall, hwaiting, rfl⟩
  | registered id' user_data answer submitted hnew hsame hregisters =>
    rcases set_call_some hcall with ⟨rfl, rfl⟩ | ⟨-, hold⟩
    · exact .inr ⟨answer, rfl, hregisters⟩
    · exact .inl ⟨call, hsame.calls ▸ hold, hwaiting, rfl⟩
  | failed id' user_data answer submitted hnew hsame hregisters =>
    rcases set_call_some hcall with ⟨-, rfl⟩ | ⟨-, hold⟩
    · exact absurd hwaiting (hleft nofun nofun)
    · exact .inl ⟨call, hsame.calls ▸ hold, hwaiting, rfl⟩
  | receiving id' old hold hprogress =>
    rcases set_call_some hcall with ⟨rfl, rfl⟩ | ⟨-, hold'⟩
    · exact .inl ⟨old, hold, .inl hprogress, rfl⟩
    · exact .inl ⟨call, hold', hwaiting, rfl⟩
  | returned id' old hold hprogress hitem =>
    rcases set_call_some hcall with ⟨-, rfl⟩ | ⟨-, hold'⟩
    · exact absurd hwaiting (hleft nofun nofun)
    · exact .inl ⟨call, hold', hwaiting, rfl⟩
  | cancelled id' old hold =>
    rcases set_call_some hcall with ⟨-, rfl⟩ | ⟨-, hold'⟩
    · exact absurd hwaiting (hleft nofun nofun)
    · exact .inl ⟨call, hold', hwaiting, rfl⟩
  | dispatched event rest hreaped =>
    obtain ⟨old, hold, hdata, hprogress⟩ := dispatch_some_same hreaped hcall
    refine .inl ⟨old, hold, ?_, hdata.symm⟩
    unfold Call.waiting
    rwa [← hprogress]

theorem run_force_submissions (m : UringIoManager S) (l : ManagerLabel) :
    (m.run l)._force_submissions = m._force_submissions := by
  cases l with
  | ring l => rfl
  | reap bursts => rfl
  | wait_for_completion id user_data answer =>
    show (m.wait_for_completion id user_data answer)._force_submissions = _
    unfold wait_for_completion
    split
    · simp only
      split <;> rfl
    · rfl
  | resume id =>
    show (m.resume id)._force_submissions = _
    unfold resume
    split
    · rfl
    · split <;> rfl
  | cancel id =>
    show (m.cancel id)._force_submissions = _
    unfold cancel
    split <;> rfl
  | dispatch =>
    show m.dispatch._force_submissions = _
    unfold dispatch
    split
    · rfl
    · show (m.dispatch_one _)._force_submissions = _
      unfold dispatch_one
      split
      · rfl
      · split
        · rfl
        · simp only [send]
          split <;> rfl

/-- The entries that a step pushes. -/
def pushes (m : UringIoManager S) (l : ManagerLabel) : List Entry :=
  match m.used l with
  | some l => l.pushes m.py
  | none => []

theorem run_pending (m : UringIoManager S) (l : ManagerLabel) :
    (m.run l).py.world.pending ⊆ m.py.world.pending ++ m.pushes l := by
  rw [m.run_py, after_use, pushes]
  cases m.used l with
  | none => exact List.subset_append_left _ _
  | some l' => exact (l'.effect m.py (l'.meets_true m.py)).pending

end UringIoManager

/-! ### The loop -/

/-- The event loop of a sidecar session, as far as it concerns the manager. -/
structure EventLoop (S : MemoryObjectStream CompletionEvent) where
  manager : UringIoManager S
  /-- The loop calls `UringSidecarInstrument.before_io_wait`. Trio drops an
      instrument that raises. -/
  instrumented : Bool
  /-- The loop waits for I/O. -/
  asleep : Bool

/-- What can happen. -/
inductive LoopLabel where
  /-- A task takes a step, or the kernel acts. -/
  | manager (l : ManagerLabel)
  /-- The loop begins to wait for I/O. -/
  | before_io_wait (answer : Enter)
  /-- The loop goes on with its tasks. -/
  | wake

namespace EventLoop

variable {S : MemoryObjectStream CompletionEvent}

def world (s : EventLoop S) : World := s.manager.py.world

/-- `UringSidecarInstrument.before_io_wait`, if there is an instrument. -/
def before_io_wait (s : EventLoop S) (answer : Enter) : EventLoop S :=
  if s.instrumented then
    { manager := s.manager.use_ring (.submit answer)
      instrumented := (rust (submit answer) s.manager.py).1.toOption.isSome
      asleep := true }
  else
    { s with asleep := true }

/-- The state afterwards. -/
def run (s : EventLoop S) : LoopLabel → EventLoop S
  | .manager l => { s with manager := s.manager.run l }
  | .before_io_wait answer => s.before_io_wait answer
  | .wake => { s with asleep := false }

/-- When a step can be taken. While the loop waits, only the kernel acts. -/
def allowed (s : EventLoop S) : LoopLabel → Prop
  | .manager l => s.manager.allowed l ∧ (s.asleep = true → ∃ ev, l = .ring (.kernel ev))
  | .before_io_wait _ => s.asleep = false ∧ s.manager.reaped = []
  | .wake => s.asleep = true

/-- The call can be resumed: it is at its checkpoint or has been handed its
    event. -/
def resumable (s : EventLoop S) (id : CallId) : Prop :=
  ∃ call, s.manager.calls id = some call ∧ (call.progress = .checkpoint ∨
    call.progress = .receiving ∧ (S.item call.stream).isSome = true)

/-- Some call can be resumed. -/
def ready (s : EventLoop S) : Prop := ∃ id, s.resumable id

/-- The loop sleeps with nothing to wake it but the kernel: no call can be
    resumed, and the dispatcher awaits the eventfd, which cannot be read. -/
structure at_rest (s : EventLoop S) : Prop where
  asleep : s.asleep = true
  ready : ¬s.ready
  reaped : s.manager.reaped = []
  efd : s.manager.efd = 0
  /-- A polling kernel thread has consumed what there was. -/
  polled : s.world.sqpoll = true → s.world.pending = []

end EventLoop

/-- The loop of `lib`, set up as `start_uring_sidecar` does it: trio has the
    instrument, and under asyncio `force_submissions` is always on. -/
def loop_system (lib : AsyncLibrary) (S : MemoryObjectStream CompletionEvent) :
    System (EventLoop S) LoopLabel where
  init := fun s => (manager_system S).init s.manager ∧ s.asleep = false ∧
    match lib with
    | .trio => s.instrumented = true
    | .asyncio => s.instrumented = false ∧ s.manager._force_submissions = true
  step := fun s l s' => s.allowed l ∧ s' = s.run l

namespace EventLoop

variable {S : MemoryObjectStream CompletionEvent} {s s' s₀ : EventLoop S} {lib : AsyncLibrary}
         {tr : List (Step (EventLoop S) LoopLabel)} {awaited : UInt64 → Prop}

/-- The step of the manager in a step of the loop. -/
def manager_label (s : EventLoop S) : LoopLabel → Option ManagerLabel
  | .manager l => some l
  | .before_io_wait answer => if s.instrumented then some (.ring (.submit answer)) else none
  | .wake => none

def manager_step (t : Step (EventLoop S) LoopLabel) : List (Step (UringIoManager S) ManagerLabel) :=
  match t.src.manager_label t.label with
  | some l => [⟨t.src.manager, l, t.dst.manager⟩]
  | none => []

/-- What a run of the loop is for the manager. -/
def manager_trace (tr : List (Step (EventLoop S) LoopLabel)) :
    List (Step (UringIoManager S) ManagerLabel) := tr.flatMap manager_step

@[simp] theorem manager_trace_snoc (tr : List (Step (EventLoop S) LoopLabel))
    (t : Step (EventLoop S) LoopLabel) :
    manager_trace (tr ++ [t]) = manager_trace tr ++ manager_step t := by
  simp [manager_trace]

/-- The loop itself only submits. -/
theorem of_manager_label {l : LoopLabel} {l' : ManagerLabel} (h : s.manager_label l = some l')
    (hsubmit : ∀ a, l' ≠ .ring (.submit a)) : l = .manager l' := by
  cases l with
  | manager l => rw [Option.some.inj h]
  | before_io_wait answer =>
    by_cases hinstrument : s.instrumented = true
    · rw [manager_label, if_pos hinstrument] at h
      exact absurd (Option.some.inj h).symm (hsubmit answer)
    · rw [manager_label, if_neg hinstrument] at h
      cases h
  | wake => cases h

/-- A step of the loop is a step of the manager or leaves it alone. -/
theorem manager_step_cases {l : LoopLabel} (hstep : (loop_system lib S).step s l s') :
    (∃ l', s.manager_label l = some l' ∧ (manager_system S).step s.manager l' s'.manager) ∨
      s.manager_label l = none ∧ s'.manager = s.manager := by
  obtain ⟨hallowed, rfl⟩ := hstep
  cases l with
  | manager l => exact .inl ⟨l, rfl, hallowed.1, rfl⟩
  | wake => exact .inr ⟨rfl, rfl⟩
  | before_io_wait answer =>
    by_cases hinstrument : s.instrumented = true
    · have hmanager : (s.before_io_wait answer).manager =
          s.manager.run (.ring (.submit answer)) := by
        rw [before_io_wait, if_pos hinstrument]
        rfl
      exact .inl ⟨_, if_pos hinstrument, Or.inl hallowed.2, hmanager⟩
    · refine .inr ⟨if_neg hinstrument, ?_⟩
      show (s.before_io_wait answer).manager = _
      rw [before_io_wait, if_neg hinstrument]

theorem manager_path (h : Path (loop_system lib S) s₀ tr s) :
    Path (manager_system S) s₀.manager (manager_trace tr) s.manager := by
  induction h with
  | nil => exact .nil
  | @snoc tr s s' l hpath hstep ih =>
    rw [manager_trace_snoc]
    unfold manager_step
    rcases manager_step_cases hstep with ⟨l', hl, hstep'⟩ | ⟨hl, heq⟩
    · rw [hl]
      exact .snoc l' ih hstep'
    · rw [hl, List.append_nil, heq]
      exact ih

/-! ### What is submitted when -/

/-- The steps of the ring in a run. -/
def ring (tr : List (Step (EventLoop S) LoopLabel)) : RingTrace :=
  UringIoManager.ring_trace (manager_trace tr)

/-- The submit takes everything, unless it is left to a polling thread. -/
def takes_all (w : World) (answer : Enter) : Prop :=
  ∃ k, answer = .ok k ∧ (w.sqpoll = false → w.pending.length ≤ k)

/-- How the kernel answers the submit of the instrument or that of a call. -/
def submits (s : EventLoop S) : LoopLabel → Option Enter
  | .before_io_wait answer => if s.instrumented then some answer else none
  | .manager (.wait_for_completion _ _ answer) =>
    if s.manager._force_submissions then some answer else none
  | _ => none

/-- What is asked of a step, where calls wait for what is `awaited`. -/
structure Orderly (awaited : UInt64 → Prop) (s : EventLoop S) (l : LoopLabel) : Prop where
  manager : ∀ l', s.manager_label l = some l' → s.manager.Orderly awaited l'
  awaits : ∀ id user_data a, l = .manager (.wait_for_completion id user_data a) →
    awaited user_data
  submits : ∀ a, s.submits l = some a → takes_all s.world a

/-- Behind `past`, every call waits for what a preparation before it has
    returned. -/
def waits_for_own (past : RingTrace) : List (Step (EventLoop S) LoopLabel) → Prop
  | [] => True
  | t :: tr =>
    (∀ id user_data a, t.label = .manager (.wait_for_completion id user_data a) →
      user_data ∈ returned past) ∧
    waits_for_own (past ++ UringIoManager.ring_trace (manager_step t)) tr

/-- What holds in every run; `past` are the steps of the ring so far. -/
structure Inv (lib : AsyncLibrary) (awaited : UInt64 → Prop) (past : RingTrace)
    (s : EventLoop S) : Prop where
  instrumented : lib = .trio → s.instrumented = true
  forced : lib = .asyncio → s.manager._force_submissions = true
  /-- Under trio nothing is queued while the loop waits. -/
  flushed : lib = .trio → s.world.sqpoll = false → s.asleep = true → s.world.pending = []
  /-- Under asyncio nothing is queued that a call waits for. -/
  submitted : lib = .asyncio → s.world.sqpoll = false → ∀ id call,
    s.manager.calls id = some call → call.waiting → ∀ entry ∈ s.world.pending,
    entry.op.is_timeout = false → entry.user_data ≠ call.user_data
  own : ∀ id call, s.manager.calls id = some call → call.waiting →
    call.user_data ∈ returned past
  awaits : ∀ id call, s.manager.calls id = some call → call.waiting → awaited call.user_data

/-- A submit that takes everything empties the queue. -/
theorem submit_pending {w : World} {a : Enter} (ha : takes_all w a) (hpoll : w.sqpoll = false) :
    (submit a w).2.pending = [] := by
  obtain ⟨k, rfl, hall⟩ := ha
  rw [submit_state]
  show (w.consume k).pending = []
  rw [World.consume_pending]
  exact List.drop_eq_nil_of_le (hall hpoll)

/-- It does not raise. -/
theorem submit_isSome {w : World} {a : Enter} (ha : takes_all w a) (hopen : w.is_open = true) :
    (submit a w).1.toOption.isSome = true := by
  obtain ⟨k, rfl, -⟩ := ha
  rw [submit, Fallible.run_bind_ok (require_open_of_open hopen)]
  rfl

/-- The steps of the ring after one more step of the loop. -/
theorem ring_snoc (tr : List (Step (EventLoop S) LoopLabel)) (t : Step (EventLoop S) LoopLabel) :
    ring (tr ++ [t]) = ring tr ++ UringIoManager.ring_trace (manager_step t) := by
  rw [ring, manager_trace_snoc, UringIoManager.ring_trace_append]
  rfl

theorem waits_for_own_snoc {past : RingTrace} {tr : List (Step (EventLoop S) LoopLabel)}
    {t : Step (EventLoop S) LoopLabel} :
    waits_for_own past (tr ++ [t]) ↔
      waits_for_own past tr ∧ ∀ id user_data a,
        t.label = .manager (.wait_for_completion id user_data a) →
          user_data ∈ returned (past ++ ring tr) := by
  induction tr generalizing past with
  | nil =>
    rw [show ring ([] : List (Step (EventLoop S) LoopLabel)) = [] from rfl, List.append_nil]
    exact and_comm
  | cons u tr ih =>
    have hring : ring (u :: tr) = UringIoManager.ring_trace (manager_step u) ++ ring tr := by
      simp [ring, manager_trace]
    rw [hring, ← List.append_assoc]
    exact (and_congr_right fun _ => ih).trans and_assoc.symm

theorem returned_append (tr tr' : RingTrace) : returned (tr ++ tr') = returned tr ++ returned tr' :=
  List.flatMap_append

/-- A call that is waited for does not share its user data with a new entry. -/
theorem pushes_ne {past : RingTrace} {m : UringIoManager S} (hledger : Ledger past m.py.world)
    (hbound : allocations past < 2 ^ 63) {ud : UInt64} (hud : ud ∈ returned past)
    {l : ManagerLabel} {entry : Entry} (hentry : entry ∈ m.pushes l) : entry.user_data ≠ ud := by
  intro heq
  rw [returned_eq_pushed] at hud
  obtain ⟨old, hold, rfl⟩ := List.mem_map.mp hud
  obtain ⟨hold, hnot⟩ := List.mem_filter.mp hold
  unfold UringIoManager.pushes at hentry
  split at hentry
  · next l' _ =>
    have hfresh := (step_fresh (t := ⟨m.py, l', l'.run m.py⟩) rfl hentry).2
    have htimer := ((hledger.fresh_apart hbound hold hfresh).1 heq.symm).1
    rw [htimer] at hnot
    cases hnot
  · cases hentry

/-- A ring that is open keeps its settings. -/
theorem run_settings (m : UringIoManager S) (l : ManagerLabel)
    (hopen : (m.run l).py.world.is_open = true) :
    m.py.world.is_open = true ∧ (m.run l).py.world.sqpoll = m.py.world.sqpoll := by
  rw [m.run_py, UringIoManager.after_use] at hopen ⊢
  cases hused : m.used l with
  | none =>
    rw [hused] at hopen
    exact ⟨hopen, rfl⟩
  | some l' =>
    rw [hused] at hopen
    have heffect := l'.effect m.py (l'.meets_true m.py)
    exact ⟨heffect.is_open hopen, (heffect.settings hopen).2.1⟩

/-- Under `force_submissions` a call that begins to wait leaves nothing in the
    queue. -/
theorem wait_for_completion_pending {m : UringIoManager S} {id : CallId} {ud : UInt64} {a : Enter}
    (hforce : m._force_submissions = true) (ha : takes_all m.py.world a)
    (hpoll : m.py.world.sqpoll = false) :
    (m.run (.wait_for_completion id ud a)).py.world.pending = [] := by
  have hsubmit : m.after_use (.wait_for_completion id ud a) = m.use_ring (.submit a) := by
    simp only [UringIoManager.after_use, UringIoManager.used, if_pos hforce]
  rw [m.run_py, hsubmit]
  exact submit_pending ha hpoll

section step

variable {past : RingTrace} {l : LoopLabel}

/-- What holds of the user data that calls wait for still does, if it does where
    a call begins to wait. -/
theorem waits_on_step {P : UInt64 → Prop}
    (hold : ∀ id call, s.manager.calls id = some call → call.waiting → P call.user_data)
    (hnew : ∀ id user_data a, l = .manager (.wait_for_completion id user_data a) → P user_data)
    (hstep : (loop_system lib S).step s l s') (id : CallId) (call : Call S)
    (hcall : s'.manager.calls id = some call) (hwaiting : call.waiting) : P call.user_data := by
  rcases manager_step_cases hstep with ⟨l', hl, hstep'⟩ | ⟨-, heq⟩
  · have hstepped := UringIoManager.step_stepped hstep'
    rcases hstepped.waited hcall hwaiting with ⟨old, hcall', hwaited, hdata⟩ | ⟨a, rfl, -⟩
    · rw [← hdata]
      exact hold id old hcall' hwaited
    · exact hnew id _ a (of_manager_label hl (by simp))
  · rw [heq] at hcall
    exact hold id call hcall hwaiting

/-- Under asyncio, nothing that a call waits for gets into the queue. -/
theorem Inv.submitted_step (hinv : Inv lib awaited past s) (hledger : Ledger past s.world)
    (hbound : allocations past < 2 ^ 63) (horderly : s.Orderly awaited l) (hlib : lib = .asyncio)
    (hstep : (loop_system lib S).step s l s') (hpoll : s.world.sqpoll = false) {id : CallId}
    {call : Call S} (hcall : s'.manager.calls id = some call) (hwaiting : call.waiting)
    {entry : Entry} (hentry : entry ∈ s'.world.pending) (hnot : entry.op.is_timeout = false) :
    entry.user_data ≠ call.user_data := by
  rcases manager_step_cases hstep with ⟨l', hl, hstep'⟩ | ⟨-, heq⟩
  · have hstepped := UringIoManager.step_stepped hstep'
    have hrun := hstep'.2
    unfold world at hentry
    rcases hstepped.waited hcall hwaiting with ⟨old, hold, hwaited, hdata⟩ | ⟨a, rfl, -⟩
    · rw [← hdata]
      rw [hrun] at hentry
      rcases List.mem_append.mp (s.manager.run_pending l' hentry) with hpending | hnew
      · exact hinv.submitted hlib hpoll id old hold hwaited entry hpending hnot
      · exact pushes_ne hledger hbound (hinv.own id old hold hwaited) hnew
    · -- The call has just submitted everything.
      have hall : takes_all s.world a := by
        obtain rfl := of_manager_label hl (by simp)
        exact horderly.submits a (if_pos (hinv.forced hlib))
      rw [hrun, wait_for_completion_pending (hinv.forced hlib) hall hpoll] at hentry
      cases hentry
  · unfold world at hentry
    rw [heq] at hcall hentry
    exact hinv.submitted hlib hpoll id call hcall hwaiting entry hentry hnot

/-- Under trio, the queue is empty when the loop waits. -/
theorem Inv.flushed_step (hinv : Inv lib awaited past s) (horderly : s.Orderly awaited l)
    (hlib : lib = .trio) (hstep : (loop_system lib S).step s l s') (hpoll : s.world.sqpoll = false)
    (hasleep : s'.asleep = true) : s'.world.pending = [] := by
  obtain ⟨hallowed, rfl⟩ := hstep
  cases l with
  | manager l =>
    -- While the loop waits only the kernel acts, and it adds nothing.
    obtain ⟨ev, rfl⟩ := hallowed.2 hasleep
    have hsubset := World.kernel_step_pending s.world ev
    rw [hinv.flushed hlib hpoll hasleep] at hsubset
    exact List.subset_nil.mp hsubset
  | before_io_wait a =>
    show (s.before_io_wait a).world.pending = []
    have hinstrument := hinv.instrumented hlib
    rw [before_io_wait, if_pos hinstrument]
    exact submit_pending (horderly.submits a (if_pos hinstrument)) hpoll
  | wake => cases hasleep

/-- Under trio, the instrument stays. -/
theorem Inv.instrumented_step (hinv : Inv lib awaited past s) (horderly : s.Orderly awaited l)
    (hlib : lib = .trio) (hstep : (loop_system lib S).step s l s')
    (hopen : s.world.is_open = true) : s'.instrumented = true := by
  obtain ⟨-, rfl⟩ := hstep
  have hinstrument := hinv.instrumented hlib
  cases l with
  | manager l => exact hinstrument
  | before_io_wait a =>
    show (s.before_io_wait a).instrumented = true
    rw [before_io_wait, if_pos hinstrument]
    exact submit_isSome (horderly.submits a (if_pos hinstrument)) hopen
  | wake => exact hinstrument

theorem forced_step (hstep : (loop_system lib S).step s l s') :
    s'.manager._force_submissions = s.manager._force_submissions := by
  rcases manager_step_cases hstep with ⟨l', -, hstep'⟩ | ⟨-, heq⟩
  · rw [hstep'.2, UringIoManager.run_force_submissions]
  · rw [heq]

/-- An open ring was open before, with the same settings. -/
theorem settings_step (hstep : (loop_system lib S).step s l s') (hopen : s'.world.is_open = true) :
    s.world.is_open = true ∧ s'.world.sqpoll = s.world.sqpoll := by
  unfold world at hopen ⊢
  rcases manager_step_cases hstep with ⟨l', -, hstep'⟩ | ⟨-, heq⟩
  · rw [hstep'.2] at hopen ⊢
    exact run_settings _ _ hopen
  · rw [heq] at hopen ⊢
    exact ⟨hopen, rfl⟩

/-- **Step lemma**: every orderly step keeps the invariant. -/
theorem Inv.step (hinv : Inv lib awaited past s) (hledger : Ledger past s.world)
    (hbound : allocations past < 2 ^ 63) (horderly : s.Orderly awaited l)
    (hown : ∀ id user_data a, l = .manager (.wait_for_completion id user_data a) →
      user_data ∈ returned past)
    (hstep : (loop_system lib S).step s l s') (hopen : s'.world.is_open = true) :
    Inv lib awaited (past ++ UringIoManager.ring_trace (manager_step ⟨s, l, s'⟩)) s' := by
  obtain ⟨hopen', hpoll⟩ := settings_step hstep hopen
  refine ⟨fun hlib => hinv.instrumented_step horderly hlib hstep hopen', ?_, ?_, ?_, ?_, ?_⟩
  · intro hlib
    rw [forced_step hstep, hinv.forced hlib]
  · intro hlib hpoll'
    exact hinv.flushed_step horderly hlib hstep (hpoll ▸ hpoll')
  · intro hlib hpoll' id call hcall hwaiting entry hentry hnot
    exact hinv.submitted_step hledger hbound horderly hlib hstep (hpoll ▸ hpoll') hcall hwaiting
      hentry hnot
  · intro id call hcall hwaiting
    rw [returned_append]
    exact List.mem_append_left _ (waits_on_step hinv.own hown hstep id call hcall hwaiting)
  · exact waits_on_step hinv.awaits horderly.awaits hstep

end step

/-! ### Whole runs -/

theorem ring_of_path (h : Path (loop_system lib S) s₀ tr s) :
    Path ring_system s₀.manager.py (ring tr) s.manager.py :=
  UringIoManager.ring_path (UringIoManager.task_path (manager_path h))

theorem Inv.initial (hinit : (loop_system lib S).init s) : Inv lib awaited [] s := by
  obtain ⟨hmanager, hasleep, hlib⟩ := hinit
  have hcalls : ∀ id call, s.manager.calls id ≠ some call := by
    intro id call hcall
    rw [hmanager.2.2.2.1] at hcall
    cases hcall
  refine ⟨?_, ?_, ?_, fun _ _ id call hcall => absurd hcall (hcalls id call),
    fun id call hcall => absurd hcall (hcalls id call),
    fun id call hcall => absurd hcall (hcalls id call)⟩
  · rintro rfl
    exact hlib
  · rintro rfl
    exact hlib.2
  · intro _ _ hasleep'
    rw [hasleep] at hasleep'
    cases hasleep'

/-- **Run lemma**: the invariant holds in every orderly run. -/
theorem inv_of_run (hinit : (loop_system lib S).init s₀) (h : Path (loop_system lib S) s₀ tr s)
    (hbound : allocations (ring tr) < 2 ^ 63) (horderly : ∀ t ∈ tr, t.src.Orderly awaited t.label)
    (hown : waits_for_own [] tr) (hopen : s.world.is_open = true) :
    Inv lib awaited (ring tr) s := by
  induction h with
  | nil => exact .initial hinit
  | @snoc tr s s' l hpath hstep ih =>
    rw [List.forall_mem_append, List.forall_mem_singleton] at horderly
    obtain ⟨hown, hlast⟩ := waits_for_own_snoc.mp hown
    rw [ring_snoc] at hbound ⊢
    have hbound' : allocations (ring tr) < 2 ^ 63 := by
      rw [allocations, List.countP_append] at hbound
      exact Nat.lt_of_le_of_lt (Nat.le_add_right _ _) hbound
    have hinv := ih hbound' horderly.1 hown (settings_step hstep hopen).1
    exact hinv.step (ledger_of_run hinit.1.1 (ring_of_path hpath) hbound') hbound' horderly.2
      hlast hstep hopen

theorem orderly_manager (horderly : ∀ t ∈ tr, t.src.Orderly awaited t.label) :
    ∀ t ∈ manager_trace tr, t.src.Orderly awaited t.label := by
  intro t ht
  obtain ⟨u, hu, ht⟩ := List.mem_flatMap.mp ht
  unfold manager_step at ht
  split at ht
  · next l hl =>
    obtain rfl := List.mem_singleton.mp ht
    exact (horderly u hu).manager l hl
  · cases ht

/-- **Nobody hangs**: when the loop has come to rest, a call that is left
    waiting waits for an operation that runs in the kernel, unless its event was
    dispatched and it was not there to receive it. The submits of the
    instrument, or those of the calls, have got everything that is waited for to
    the kernel, and the dispatcher has slept through no completion. -/
theorem nobody_hangs (hinit : (loop_system lib S).init s₀) (h : Path (loop_system lib S) s₀ tr s)
    (hbound : allocations (ring tr) < 2 ^ 63) (horderly : ∀ t ∈ tr, t.src.Orderly awaited t.label)
    (hown : waits_for_own [] tr) (hopen : s.world.is_open = true) (hrest : s.at_rest) {id : CallId}
    {call : Call S} (hcall : s.manager.calls id = some call) (hwaiting : call.waiting) :
    (∃ entry ∈ s.world.running, entry.user_data = call.user_data ∧
      entry.op.is_timeout = false) ∨
    s.manager.dispatched_for call.user_data ∧ S.item call.stream = none := by
  have hinv := inv_of_run hinit h hbound horderly hown hopen
  rcases UringIoManager.under_way_or_dispatched hinit.1 (manager_path h) (orderly_manager horderly)
    hopen hrest.reaped hrest.efd (hinv.own id call hcall hwaiting)
    (hinv.awaits id call hcall hwaiting) with ⟨entry, hentry, hud, hnot⟩ | hdispatched
  · left
    refine ⟨entry, (List.mem_append.mp hentry).resolve_left fun hpending => ?_, hud, hnot⟩
    have hpending : entry ∈ s.world.pending := hpending
    cases hpoll : s.world.sqpoll with
    | true =>
      rw [hrest.polled hpoll] at hpending
      cases hpending
    | false =>
      cases lib with
      | trio =>
        rw [hinv.flushed rfl hpoll hrest.asleep] at hpending
        cases hpending
      | asyncio => exact hinv.submitted rfl hpoll id call hcall hwaiting entry hpending hnot hud
  · right
    refine ⟨hdispatched, Option.not_isSome_iff_eq_none.mp fun hitem => hrest.ready ?_⟩
    -- A call that has its event can be resumed.
    exact ⟨id, call, hcall, hwaiting.imp_right fun hreceiving => ⟨hreceiving, hitem⟩⟩

/-- A read under trio: it is prepared and waited for, and the loop submits it
    and sleeps. -/
def sleeping_read : List LoopLabel :=
  [.manager UringIoManager.prepared, .manager (.wait_for_completion 0 0 (.ok 0)),
    .manager (.resume 0), .before_io_wait (.ok 1)]

/-- Nothing has happened yet. -/
def fresh : EventLoop (rendezvous CompletionEvent) := ⟨.fresh, true, false⟩

theorem fresh_init : (loop_system .trio _).init fresh :=
  ⟨UringIoManager.fresh_manager_initial, rfl, rfl⟩

theorem sleeping_read_path :
    Path (loop_system .trio _) fresh (trace_of run sleeping_read fresh)
      (sleeping_read.foldl run fresh) := by
  have hawake : ∀ {P : Prop}, false = true → P := fun h => absurd h Bool.false_ne_true
  refine path_of _ _ (List.forall_mem_cons.mpr ⟨⟨⟨Or.inl rfl, hawake⟩, rfl⟩,
    List.forall_mem_cons.mpr ⟨⟨⟨⟨rfl, rfl, ?_⟩, hawake⟩, rfl⟩,
    List.forall_mem_cons.mpr ⟨⟨⟨⟨rfl, _, rfl, Or.inl rfl⟩, hawake⟩, rfl⟩,
    List.forall_mem_singleton.mpr ⟨⟨rfl, rfl⟩, rfl⟩⟩⟩⟩)
  intro other call hcall
  cases hcall

/-- A step of the manager, where calls may wait for anything. -/
theorem orderly_quiet {l : LoopLabel} {l' : ManagerLabel} (hl : s.manager_label l = some l')
    (hreaps : ∀ bursts, l' ≠ .ring (.get_completion_entries bursts))
    (hanswers : ∀ u, s.manager.used l' = some u →
      u.meets (World.answers fun _ => True) s.manager.py)
    (hroom : (s.manager.run l').py.world.kernel.overflow = [])
    (hsubmits : ∀ a, s.submits l = some a → takes_all s.world a) :
    s.Orderly (fun _ => True) l := by
  refine ⟨fun l'' hl'' => ?_, fun _ _ _ _ => trivial, hsubmits⟩
  obtain rfl := Option.some.inj (hl.symm.trans hl'')
  exact ⟨hreaps, hanswers, hroom⟩

theorem sleeping_read_orderly :
    ∀ t ∈ trace_of run sleeping_read fresh, t.src.Orderly (fun _ => True) t.label := by
  have hnone : ∀ {α : Type} {P : α → Prop} (a : α), none = some a → P a := fun _ h => by cases h
  have hsome : ∀ {α : Type} {P : α → Prop} {b : α}, P b → ∀ a, some b = some a → P a :=
    fun h a heq => Option.some.inj heq ▸ h
  refine List.forall_mem_cons.mpr ⟨orderly_quiet rfl ?prep (hsome trivial) rfl hnone,
    List.forall_mem_cons.mpr ⟨orderly_quiet rfl ?call hnone rfl hnone,
    List.forall_mem_cons.mpr ⟨orderly_quiet rfl ?resume hnone rfl hnone,
    List.forall_mem_singleton.mpr
      (orderly_quiet rfl ?submit (hsome trivial) rfl (hsome ?all))⟩⟩⟩
  case all => exact ⟨1, rfl, fun _ => by decide⟩
  -- Nobody but the dispatcher reaps the ring.
  all_goals
    intro bursts h
    cases h

theorem sleeping_read_waits_for_own : waits_for_own [] (trace_of run sleeping_read fresh) := by
  refine ⟨?_, ?_, ?_, ?_, trivial⟩ <;> intro id ud a hl <;> cases hl
  decide

theorem sleeping_read_not_ready : ¬(sleeping_read.foldl run fresh).ready := by
  intro hready
  obtain ⟨id, call, hcall, hprogress⟩ := hready
  -- There is one call, and it receives.
  rcases UringIoManager.set_call_some (m := ((sleeping_read.take 2).foldl run fresh).manager) hcall
    with ⟨-, rfl⟩ | ⟨hne, hold⟩
  · rcases hprogress with h | ⟨-, h⟩ <;> cases h
  · rcases UringIoManager.set_call_some (m := ((sleeping_read.take 1).foldl run fresh).manager)
      hold with ⟨heq, -⟩ | ⟨-, hnone⟩
    · exact absurd heq hne
    · cases hnone

/-- The call of the read waits for the read, which runs. -/
theorem nobody_hangs_sleeping : ∃ entry ∈ (sleeping_read.foldl run fresh).world.running,
    entry.user_data = 0 ∧ entry.op.is_timeout = false := by
  have hcall : (sleeping_read.foldl run fresh).manager.calls 0 =
      some ⟨0, (true, none), .receiving⟩ := rfl
  rcases nobody_hangs fresh_init sleeping_read_path (by decide) sleeping_read_orderly
    sleeping_read_waits_for_own rfl ⟨rfl, sleeping_read_not_ready, rfl, rfl, by decide⟩ hcall
    (.inr rfl) with hruns | ⟨⟨event, hmem, -⟩, -⟩
  · exact hruns
  · cases hmem

end EventLoop

end CenturyRing
