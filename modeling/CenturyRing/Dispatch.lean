import CenturyRing.Manager

/-! # The dispatcher and the waiting calls

  What each step of the manager does to the calls that wait, and what holds of
  them in every run. A call that waits has its sender stored, or an event with
  its user data has been dispatched; whether that event has reached it is
  another matter, and depends on how far the call has come.
-/

open LTS

namespace CenturyRing

namespace Call

variable {S : MemoryObjectStream CompletionEvent} {call : Call S} {event : CompletionEvent}

@[simp] theorem send_nowait_user_data : (call.send_nowait event).user_data = call.user_data := by
  unfold send_nowait
  split <;> rfl

@[simp] theorem send_nowait_progress : (call.send_nowait event).progress = call.progress := by
  unfold send_nowait
  split <;> rfl

@[simp] theorem send_nowait_waiting : (call.send_nowait event).waiting ↔ call.waiting := by
  unfold waiting
  rw [send_nowait_progress]

/-- A call in its checkpoint misses the event. -/
theorem send_nowait_create (h : call.stream = S.create) : call.send_nowait event = call := by
  unfold send_nowait
  rw [h, S.would_block]

/-- A waiting receiver is handed the event. -/
theorem send_nowait_receive (h : call.stream = S.receive S.create) :
    S.item (call.send_nowait event).stream = some event := by
  obtain ⟨state, hsend, hitem⟩ := S.handed event
  unfold send_nowait
  rw [h, hsend]
  exact hitem

theorem not_waiting (hcheckpoint : call.progress ≠ .checkpoint)
    (hreceiving : call.progress ≠ .receiving) : ¬call.waiting := by
  intro hcase
  rcases hcase with h | h
  · exact hcheckpoint h
  · exact hreceiving h

end Call

namespace UringIoManager

variable {S : MemoryObjectStream CompletionEvent} {m m' : UringIoManager S}
         {event : CompletionEvent} {rest : List CompletionEvent}

/-! ### What a step does to the calls -/

/-- Nothing happened to the calls and their senders. -/
structure SameCalls (m m' : UringIoManager S) : Prop where
  calls : m'.calls = m.calls
  waiters : m'._completion_waiters = m._completion_waiters
  dispatched : m'.dispatched = m.dispatched

theorem use_ring_sameCalls (m : UringIoManager S) (l : RingLabel) : SameCalls m (m.use_ring l) :=
  ⟨rfl, rfl, rfl⟩

theorem reap_sameCalls (m : UringIoManager S) (bursts : List (List KernelEvent)) :
    SameCalls m (m.reap bursts) :=
  ⟨rfl, rfl, rfl⟩

/-- Nothing happened to the ring and to the events that were reaped from it. -/
structure SameEvents (m m' : UringIoManager S) : Prop where
  py : m'.py = m.py
  efd : m'.efd = m.efd
  dispatched : m'.dispatched = m.dispatched
  reaped : m'.reaped = m.reaped

theorem set_call_sameEvents (m : UringIoManager S) (id : CallId) (call : Call S) :
    SameEvents m (m.set_call id call) :=
  ⟨rfl, rfl, rfl, rfl⟩

theorem register_sameEvents (m : UringIoManager S) (id : CallId) (user_data : UInt64) :
    SameEvents m (m.register id user_data) :=
  ⟨rfl, rfl, rfl, rfl⟩

theorem resume_sameEvents (m : UringIoManager S) (id : CallId) : SameEvents m (m.resume id) := by
  unfold resume
  split
  · exact ⟨rfl, rfl, rfl, rfl⟩
  · split <;> exact m.set_call_sameEvents _ _

theorem cancel_sameEvents (m : UringIoManager S) (id : CallId) : SameEvents m (m.cancel id) := by
  unfold cancel
  split
  · exact ⟨rfl, rfl, rfl, rfl⟩
  · exact m.set_call_sameEvents _ _

/-- The use of the ring in a step, if there is one. -/
def used (m : UringIoManager S) : ManagerLabel → Option RingLabel
  | .ring l => some l
  | .wait_for_completion _ _ answer => if m._force_submissions then some (.submit answer) else none
  | .reap bursts => some (.get_completion_entries bursts)
  | _ => none

/-- That use of the ring. -/
def after_use (m : UringIoManager S) (l : ManagerLabel) : UringIoManager S :=
  match m.used l with
  | some l => m.use_ring l
  | none => m

theorem after_use_events (m : UringIoManager S) (l : ManagerLabel) :
    (m.after_use l).dispatched = m.dispatched ∧ (m.after_use l).reaped = m.reaped := by
  unfold after_use
  split <;> exact ⟨rfl, rfl⟩

theorem wait_for_completion_sameEvents (m : UringIoManager S) (id : CallId) (user_data : UInt64)
    (answer : Enter) :
    SameEvents (m.after_use (.wait_for_completion id user_data answer))
      (m.wait_for_completion id user_data answer) := by
  by_cases hforce : m._force_submissions = true
  · simp only [after_use, used, wait_for_completion, if_pos hforce]
    split
    · exact register_sameEvents _ id user_data
    · exact set_call_sameEvents _ id _
  · simp only [after_use, used, wait_for_completion, if_neg hforce]
    exact m.register_sameEvents id user_data

theorem set_call_calls (m : UringIoManager S) (id other : CallId) (call : Call S) :
    (m.set_call id call).calls other = if other = id then some call else m.calls other :=
  Function.update_apply _ _ _ _

/-- A call is the one just set, or an older one. -/
theorem set_call_some {id other : CallId} {new call : Call S}
    (h : (m.set_call id new).calls other = some call) :
    other = id ∧ call = new ∨ other ≠ id ∧ m.calls other = some call := by
  rw [set_call_calls] at h
  by_cases hother : other = id
  · rw [if_pos hother] at h
    exact Or.inl ⟨hother, (Option.some.inj h).symm⟩
  · rw [if_neg hother] at h
    exact Or.inr ⟨hother, h⟩

/-- `wait_for_completion` gets as far as storing its sender. -/
def registers (m : UringIoManager S) (answer : Enter) : Prop :=
  m._force_submissions = true → (rust (submit answer) m.py).1.toOption.isSome = true

/-- `wait_for_completion` stores a sender unless its submit has failed. -/
theorem wait_for_completion_cases (m : UringIoManager S) (id : CallId) (user_data : UInt64)
    (answer : Enter) :
    ∃ submitted, SameCalls m submitted ∧
      (m.registers answer ∧
          m.wait_for_completion id user_data answer = submitted.register id user_data ∨
        ¬m.registers answer ∧ m.wait_for_completion id user_data answer =
          submitted.set_call id ⟨user_data, S.create, .failed⟩) := by
  unfold wait_for_completion registers
  -- The submit comes first, and only if it is asked for.
  by_cases hforce : m._force_submissions = true
  · refine ⟨m.use_ring (.submit answer), m.use_ring_sameCalls _, ?_⟩
    rw [if_pos hforce]
    cases hsubmit : (rust (submit answer) m.py).1 with
    | ok n => exact Or.inl ⟨fun _ => rfl, rfl⟩
    | error e =>
      refine Or.inr ⟨?_, rfl⟩
      intro h
      cases h hforce
  · rw [if_neg hforce]
    exact ⟨m, ⟨rfl, rfl, rfl⟩, Or.inl ⟨fun h => absurd h hforce, rfl⟩⟩

theorem resume_checkpoint {id : CallId} {call : Call S} (h : m.calls id = some call)
    (hcheckpoint : call.progress = .checkpoint) :
    m.resume id =
      m.set_call id { call with stream := S.receive call.stream, progress := .receiving } := by
  unfold resume
  rw [h]
  simp only [hcheckpoint]

theorem resume_receiving {id : CallId} {call : Call S} (h : m.calls id = some call)
    (hreceiving : call.progress = .receiving) :
    m.resume id = m.set_call id { call with stream := S.close call.stream, progress := .returned } := by
  unfold resume
  rw [h]
  simp only [hreceiving]

theorem cancel_eq {id : CallId} {call : Call S} (h : m.calls id = some call) :
    m.cancel id =
      m.set_call id { call with stream := S.close call.stream, progress := .cancelled } := by
  unfold cancel
  rw [h]

/-- `Stepped m l m'`: what the step `l` does to the calls and their senders. -/
inductive Stepped (m : UringIoManager S) : ManagerLabel → UringIoManager S → Prop where
  | ring (l : RingLabel) : Stepped m (.ring l) (m.use_ring l)
  | reap (bursts : List (List KernelEvent)) : Stepped m (.reap bursts) (m.reap bursts)
  /-- A new call stores its sender, -/
  | registered (id : CallId) (user_data : UInt64) (answer : Enter) (submitted : UringIoManager S)
      (hnew : m.calls id = none) (hsame : SameCalls m submitted)
      (hregisters : m.registers answer) :
      Stepped m (.wait_for_completion id user_data answer) (submitted.register id user_data)
  /-- or its submit has failed. -/
  | failed (id : CallId) (user_data : UInt64) (answer : Enter) (submitted : UringIoManager S)
      (hnew : m.calls id = none) (hsame : SameCalls m submitted)
      (hregisters : ¬m.registers answer) :
      Stepped m (.wait_for_completion id user_data answer)
        (submitted.set_call id ⟨user_data, S.create, .failed⟩)
  /-- A call goes on from the checkpoint, -/
  | receiving (id : CallId) (call : Call S) (hcall : m.calls id = some call)
      (hprogress : call.progress = .checkpoint) :
      Stepped m (.resume id)
        (m.set_call id { call with stream := S.receive call.stream, progress := .receiving })
  /-- or with the item it was waiting for. -/
  | returned (id : CallId) (call : Call S) (hcall : m.calls id = some call)
      (hprogress : call.progress = .receiving) (hitem : (S.item call.stream).isSome = true) :
      Stepped m (.resume id)
        (m.set_call id { call with stream := S.close call.stream, progress := .returned })
  | cancelled (id : CallId) (call : Call S) (hcall : m.calls id = some call) :
      Stepped m (.cancel id)
        (m.set_call id { call with stream := S.close call.stream, progress := .cancelled })
  | dispatched (event : CompletionEvent) (rest : List CompletionEvent)
      (hreaped : m.reaped = event :: rest) : Stepped m .dispatch m.dispatch

theorem possible_of_allowed {l : ManagerLabel} (h : m.allowed l) : m.possible l := by
  cases l with
  | wait_for_completion id user_data answer => exact ⟨h.1, h.2.1⟩
  | _ => exact h

/-- Everything a step can do. -/
theorem run_stepped {l : ManagerLabel} (hpossible : m.possible l) : m.Stepped l (m.run l) := by
  cases l with
  | ring l => exact .ring l
  | reap bursts => exact .reap bursts
  | wait_for_completion id user_data answer =>
    show m.Stepped _ (m.wait_for_completion id user_data answer)
    obtain ⟨-, hnew⟩ := hpossible
    obtain ⟨submitted, hsame, ⟨hregisters, heq⟩ | ⟨hregisters, heq⟩⟩ :=
      m.wait_for_completion_cases id user_data answer
    · rw [heq]
      exact .registered id user_data answer submitted hnew hsame hregisters
    · rw [heq]
      exact .failed id user_data answer submitted hnew hsame hregisters
  | resume id =>
    show m.Stepped _ (m.resume id)
    obtain ⟨-, call, hcall, hprogress | ⟨hprogress, hitem⟩⟩ := hpossible
    · rw [resume_checkpoint hcall hprogress]
      exact .receiving id call hcall hprogress
    · rw [resume_receiving hcall hprogress]
      exact .returned id call hcall hprogress hitem
  | cancel id =>
    show m.Stepped _ (m.cancel id)
    obtain ⟨-, call, hcall, -⟩ := hpossible
    rw [cancel_eq hcall]
    exact .cancelled id call hcall
  | dispatch =>
    obtain ⟨event, rest, hreaped⟩ := List.exists_cons_of_ne_nil hpossible
    exact .dispatched event rest hreaped

theorem step_stepped {m m' : UringIoManager S} {l : ManagerLabel}
    (hstep : (manager_system S).step m l m') : m.Stepped l m' := by
  obtain ⟨hallowed, rfl⟩ := hstep
  exact run_stepped (possible_of_allowed hallowed)

/-- The event goes to the call whose sender is stored under its user data. -/
def sends_to (m : UringIoManager S) (event : CompletionEvent) (id : CallId) : Prop :=
  event.should_be_ignored = false ∧ m._completion_waiters event.user_data = some id

theorem send_calls_self (m : UringIoManager S) (waiter : CallId) (event : CompletionEvent) :
    (m.send waiter event).calls waiter = (m.calls waiter).map (·.send_nowait event) := by
  unfold send
  cases h : m.calls waiter with
  | none => exact h
  | some call => exact (set_call_calls m waiter waiter _).trans (if_pos rfl)

theorem send_calls_other {waiter id : CallId} (hne : id ≠ waiter) :
    (m.send waiter event).calls id = m.calls id := by
  unfold send
  cases m.calls waiter with
  | none => rfl
  | some call => exact (set_call_calls m waiter id _).trans (if_neg hne)

theorem send_waiters (m : UringIoManager S) (waiter : CallId) (event : CompletionEvent) :
    (m.send waiter event)._completion_waiters = m._completion_waiters := by
  unfold send
  split <;> rfl

theorem send_sameEvents (m : UringIoManager S) (waiter : CallId) (event : CompletionEvent) :
    SameEvents m (m.send waiter event) := by
  unfold send
  split
  · exact ⟨rfl, rfl, rfl, rfl⟩
  · exact m.set_call_sameEvents _ _

theorem dispatch_one_sameEvents (m : UringIoManager S) (event : CompletionEvent) :
    SameEvents m (m.dispatch_one event) := by
  unfold dispatch_one
  split
  · exact ⟨rfl, rfl, rfl, rfl⟩
  · split
    · exact ⟨rfl, rfl, rfl, rfl⟩
    · next waiter _ =>
      have hsend := send_sameEvents { m with
        _completion_waiters := Function.update m._completion_waiters event.user_data none } waiter event
      exact ⟨hsend.py, hsend.efd, hsend.dispatched, hsend.reaped⟩

/-- What the loop of the dispatcher does with its next event. -/
theorem dispatch_eq (h : m.reaped = event :: rest) :
    m.dispatch = { m.dispatch_one event with
      reaped := rest, dispatched := m.dispatched ++ [event] } := by
  unfold dispatch
  rw [h]

theorem dispatch_dispatched (h : m.reaped = event :: rest) :
    m.dispatch.dispatched = m.dispatched ++ [event] := by
  rw [dispatch_eq h]

theorem dispatch_reaped (h : m.reaped = event :: rest) : m.dispatch.reaped = rest := by
  rw [dispatch_eq h]

/-- The dispatcher moves events from one list to the other. -/
theorem dispatch_events (m : UringIoManager S) :
    m.dispatch.dispatched ++ m.dispatch.reaped = m.dispatched ++ m.reaped := by
  cases h : m.reaped with
  | nil =>
    unfold dispatch
    rw [h, h]
  | cons event rest =>
    rw [dispatch_dispatched h, dispatch_reaped h, List.append_assoc, List.singleton_append]

/-- It does so without the ring. -/
theorem dispatch_ring (m : UringIoManager S) :
    m.dispatch.py = m.py ∧ m.dispatch.efd = m.efd := by
  unfold dispatch
  split
  · exact ⟨rfl, rfl⟩
  · exact ⟨(m.dispatch_one_sameEvents _).py, (m.dispatch_one_sameEvents _).efd⟩

/-- The call an event is sent to may be handed it. -/
theorem dispatch_calls_sent (h : m.reaped = event :: rest) {id : CallId}
    (hsends : m.sends_to event id) :
    m.dispatch.calls id = (m.calls id).map (·.send_nowait event) := by
  rw [dispatch_eq h]
  show (m.dispatch_one event).calls id = _
  unfold dispatch_one
  rw [if_neg (Bool.eq_false_iff.mp hsends.1), hsends.2]
  exact send_calls_self _ id event

/-- To every other call nothing happens. -/
theorem dispatch_calls_unsent (h : m.reaped = event :: rest) {id : CallId}
    (hsends : ¬m.sends_to event id) : m.dispatch.calls id = m.calls id := by
  rw [dispatch_eq h]
  show (m.dispatch_one event).calls id = _
  unfold dispatch_one
  by_cases hignored : event.should_be_ignored = true
  · rw [if_pos hignored]
  · rw [if_neg hignored]
    cases hwaiter : m._completion_waiters event.user_data with
    | none => rfl
    | some waiter =>
      have hne : id ≠ waiter := by
        intro heq
        obtain rfl := heq
        exact hsends ⟨Bool.eq_false_iff.mpr hignored, hwaiter⟩
      exact send_calls_other hne

/-- The other senders stay, and so does that of an ignored event. -/
theorem dispatch_waiters_stay (h : m.reaped = event :: rest) {user_data : UInt64}
    (hstays : event.should_be_ignored = true ∨ user_data ≠ event.user_data) :
    m.dispatch._completion_waiters user_data = m._completion_waiters user_data := by
  rw [dispatch_eq h]
  show (m.dispatch_one event)._completion_waiters user_data = _
  unfold dispatch_one
  by_cases hignored : event.should_be_ignored = true
  · rw [if_pos hignored]
  · have hne : user_data ≠ event.user_data := hstays.resolve_left hignored
    rw [if_neg hignored]
    cases m._completion_waiters event.user_data with
    | none => rfl
    | some waiter =>
      show (send _ waiter event)._completion_waiters user_data = _
      rw [send_waiters]
      exact Function.update_of_ne hne _ _

/-- The sender of an event that is not ignored is taken out. -/
theorem dispatch_waiters_self (h : m.reaped = event :: rest)
    (hignored : event.should_be_ignored = false) :
    m.dispatch._completion_waiters event.user_data = none := by
  rw [dispatch_eq h]
  show (m.dispatch_one event)._completion_waiters event.user_data = _
  unfold dispatch_one
  rw [if_neg (Bool.eq_false_iff.mp hignored)]
  cases hwaiter : m._completion_waiters event.user_data with
  | none => exact hwaiter
  | some waiter =>
    show (send _ waiter event)._completion_waiters event.user_data = _
    rw [send_waiters]
    exact Function.update_self _ _ _

/-! ### What holds in every run -/

/-- An event with this user data has been dispatched. -/
def dispatched_for (m : UringIoManager S) (user_data : UInt64) : Prop :=
  ∃ event ∈ m.dispatched, event.user_data = user_data

/-- The call has been handed a dispatched event with its user data. -/
def handed (m : UringIoManager S) (call : Call S) : Prop :=
  ∃ event ∈ m.dispatched, event.user_data = call.user_data ∧ S.item call.stream = some event

/-- What holds of the calls and the stored senders in every run, also where
    several calls wait on one user data. -/
structure Paired (m : UringIoManager S) : Prop where
  /-- A stored sender is that of a call on its user data, which has been handed
      nothing if it still waits. -/
  stored : ∀ user_data id, m._completion_waiters user_data = some id →
    ∃ call, m.calls id = some call ∧ call.user_data = user_data ∧
      (call.waiting → S.item call.stream = none)
  checkpoint : ∀ id call, m.calls id = some call → call.progress = .checkpoint →
    call.stream = S.create
  receiving : ∀ id call, m.calls id = some call → call.progress = .receiving →
    S.item call.stream = none → call.stream = S.receive S.create
  /-- What a waiting call has been handed is its event. -/
  item : ∀ id call event, m.calls id = some call → call.waiting →
    S.item call.stream = some event →
    event ∈ m.dispatched ∧ event.user_data = call.user_data ∧ event.should_be_ignored = false

theorem SameCalls.paired (h : SameCalls m m') (hpaired : m.Paired) : m'.Paired := by
  obtain ⟨hstored, hcheckpoint, hreceiving, hitem⟩ := hpaired
  constructor
  · rw [h.calls, h.waiters]; exact hstored
  · rw [h.calls]; exact hcheckpoint
  · rw [h.calls]; exact hreceiving
  · rw [h.calls, h.dispatched]; exact hitem

theorem register_waiters (m : UringIoManager S) (id : CallId) (user_data key : UInt64) :
    (m.register id user_data)._completion_waiters key =
      if key = user_data then some id else m._completion_waiters key :=
  Function.update_apply _ _ _ _

/-- A new call stores its sender. -/
theorem Paired.register (hpaired : m.Paired) {id : CallId} (user_data : UInt64)
    (hnew : m.calls id = none) : (m.register id user_data).Paired := by
  constructor
  · intro key other hstored
    rw [register_waiters] at hstored
    by_cases hkey : key = user_data
    · -- The new sender.
      rw [if_pos hkey] at hstored
      cases hstored
      exact ⟨_, (set_call_calls m id id _).trans (if_pos rfl), hkey.symm, fun _ => S.item_create⟩
    · -- An older sender belongs to an older call.
      rw [if_neg hkey] at hstored
      obtain ⟨call, hcall, hrest⟩ := hpaired.stored key other hstored
      have hne : other ≠ id := by
        intro heq
        obtain rfl := heq
        rw [hnew] at hcall
        cases hcall
      exact ⟨call, ((set_call_calls m id other _).trans (if_neg hne)).trans hcall, hrest⟩
  · intro other call hcall hprogress
    rcases set_call_some hcall with ⟨-, rfl⟩ | ⟨-, hold⟩
    · rfl
    · exact hpaired.checkpoint other call hold hprogress
  · intro other call hcall hprogress
    rcases set_call_some hcall with ⟨-, rfl⟩ | ⟨-, hold⟩
    · cases hprogress
    · exact hpaired.receiving other call hold hprogress
  · intro other call event hcall hwaiting hitem
    rcases set_call_some hcall with ⟨-, rfl⟩ | ⟨-, hold⟩
    · cases hitem.symm.trans S.item_create
    · exact hpaired.item other call event hold hwaiting hitem

/-- A call joins the waiting receivers, or stops waiting, or has never waited. -/
theorem Paired.set_call (hpaired : m.Paired) {id : CallId} {new : Call S}
    (hsame : ∀ call, m.calls id = some call → call.user_data = new.user_data)
    (hnew : new.waiting → new.progress = .receiving ∧ new.stream = S.receive S.create) :
    (m.set_call id new).Paired := by
  constructor
  · intro key other hstored
    obtain ⟨call, hcall, hkey, hitem⟩ := hpaired.stored key other hstored
    by_cases hother : other = id
    · rw [hother] at hcall
      refine ⟨new, (set_call_calls m id other new).trans (if_pos hother),
        (hsame call hcall).symm.trans hkey, ?_⟩
      intro hwaiting
      rw [(hnew hwaiting).2]
      exact S.item_receive
    · exact ⟨call, ((set_call_calls m id other new).trans (if_neg hother)).trans hcall, hkey, hitem⟩
  · intro other call hcall hprogress
    rcases set_call_some hcall with ⟨-, rfl⟩ | ⟨-, hold⟩
    · have hreceiving := (hnew (Or.inl hprogress)).1
      rw [hprogress] at hreceiving
      cases hreceiving
    · exact hpaired.checkpoint other call hold hprogress
  · intro other call hcall hprogress hitem
    rcases set_call_some hcall with ⟨-, rfl⟩ | ⟨-, hold⟩
    · exact (hnew (Or.inr hprogress)).2
    · exact hpaired.receiving other call hold hprogress hitem
  · intro other call event hcall hwaiting hitem
    rcases set_call_some hcall with ⟨-, rfl⟩ | ⟨-, hold⟩
    · rw [(hnew hwaiting).2] at hitem
      cases hitem.symm.trans S.item_receive
    · exact hpaired.item other call event hold hwaiting hitem

/-- A call after an event has been dispatched, and as it was before. -/
theorem dispatch_some (h : m.reaped = event :: rest) {id : CallId} {call' : Call S}
    (hcall' : m.dispatch.calls id = some call') :
    ∃ call, m.calls id = some call ∧
      (m.sends_to event id ∧ call' = call.send_nowait event ∨
        ¬m.sends_to event id ∧ call' = call) := by
  by_cases hsends : m.sends_to event id
  · rw [dispatch_calls_sent h hsends] at hcall'
    obtain ⟨call, hcall, rfl⟩ := Option.map_eq_some_iff.mp hcall'
    exact ⟨call, hcall, Or.inl ⟨hsends, rfl⟩⟩
  · rw [dispatch_calls_unsent h hsends] at hcall'
    exact ⟨call', hcall', Or.inr ⟨hsends, rfl⟩⟩

/-- It is still the same call. -/
theorem dispatch_some_same (h : m.reaped = event :: rest) {id : CallId} {call' : Call S}
    (hcall' : m.dispatch.calls id = some call') :
    ∃ call, m.calls id = some call ∧ call'.user_data = call.user_data ∧
      call'.progress = call.progress := by
  obtain ⟨call, hcall, ⟨-, rfl⟩ | ⟨-, rfl⟩⟩ := dispatch_some h hcall'
  · exact ⟨call, hcall, Call.send_nowait_user_data, Call.send_nowait_progress⟩
  · exact ⟨call', hcall, rfl, rfl⟩

theorem dispatch_of_some (h : m.reaped = event :: rest) {id : CallId} {call : Call S}
    (hcall : m.calls id = some call) :
    ∃ call', m.dispatch.calls id = some call' ∧ call'.user_data = call.user_data ∧
      call'.progress = call.progress := by
  by_cases hsends : m.sends_to event id
  · refine ⟨call.send_nowait event, ?_, Call.send_nowait_user_data, Call.send_nowait_progress⟩
    rw [dispatch_calls_sent h hsends, hcall]
    rfl
  · exact ⟨call, (dispatch_calls_unsent h hsends).trans hcall, rfl, rfl⟩

theorem dispatched_for_dispatch (h : m.reaped = event :: rest) (user_data : UInt64) :
    m.dispatch.dispatched_for user_data ↔
      m.dispatched_for user_data ∨ event.user_data = user_data := by
  unfold dispatched_for
  rw [dispatch_dispatched h]
  simp [or_and_right, exists_or]

/-- The sender of the event is that of a call on its user data. -/
theorem Paired.sends_to (hpaired : m.Paired) {id : CallId} {call : Call S}
    (hcall : m.calls id = some call) (hsends : m.sends_to event id) :
    call.user_data = event.user_data ∧ (call.waiting → S.item call.stream = none) := by
  obtain ⟨call', hcall', hrest⟩ := hpaired.stored event.user_data id hsends.2
  rw [hcall] at hcall'
  cases hcall'
  exact hrest

/-- A waiting call that an event is sent to is handed it if it has joined the
    waiting receivers, and misses it if it is still in its checkpoint. -/
theorem Paired.sent (hpaired : m.Paired) {id : CallId} {call : Call S}
    (hcall : m.calls id = some call) (hwaiting : call.waiting) (hsends : m.sends_to event id) :
    call.progress = .checkpoint ∧ call.send_nowait event = call ∨
      call.progress = .receiving ∧ S.item (call.send_nowait event).stream = some event := by
  have hitem := (hpaired.sends_to hcall hsends).2 hwaiting
  rcases hwaiting with hprogress | hprogress
  · exact Or.inl ⟨hprogress, Call.send_nowait_create (hpaired.checkpoint id call hcall hprogress)⟩
  · exact Or.inr ⟨hprogress,
      Call.send_nowait_receive (hpaired.receiving id call hcall hprogress hitem)⟩

/-- A sender that is still stored is none that the event has been sent to. -/
theorem Paired.stored_dispatch (hpaired : m.Paired) (h : m.reaped = event :: rest) {key : UInt64}
    {id : CallId} (hstored : m.dispatch._completion_waiters key = some id) :
    m._completion_waiters key = some id ∧ ¬m.sends_to event id := by
  by_cases hstays : event.should_be_ignored = true ∨ key ≠ event.user_data
  · rw [dispatch_waiters_stay h hstays] at hstored
    refine ⟨hstored, ?_⟩
    intro hsends
    rcases hstays with hignored | hne
    · rw [hsends.1] at hignored
      cases hignored
    · obtain ⟨call, hcall, hkey, -⟩ := hpaired.stored key id hstored
      exact hne (hkey.symm.trans (hpaired.sends_to hcall hsends).1)
  · obtain ⟨hignored, hkey⟩ := not_or.mp hstays
    rw [not_not.mp hkey, dispatch_waiters_self h (Bool.eq_false_iff.mpr hignored)] at hstored
    cases hstored

theorem Paired.dispatch (hpaired : m.Paired) (h : m.reaped = event :: rest) :
    m.dispatch.Paired := by
  constructor
  · intro key id hstored
    -- A sender that is still stored has not been sent to.
    obtain ⟨hbefore, hunsent⟩ := hpaired.stored_dispatch h hstored
    rw [dispatch_calls_unsent h hunsent]
    exact hpaired.stored key id hbefore
  · intro id call' hcall' hprogress
    obtain ⟨call, hcall, ⟨hsends, rfl⟩ | ⟨-, rfl⟩⟩ := dispatch_some h hcall'
    · rw [Call.send_nowait_progress] at hprogress
      -- Nobody receives from the stream yet, so the event is not taken.
      have hcreate := hpaired.checkpoint id call hcall hprogress
      rwa [Call.send_nowait_create hcreate]
    · exact hpaired.checkpoint id call' hcall hprogress
  · intro id call' hcall' hprogress hitem
    obtain ⟨call, hcall, ⟨hsends, rfl⟩ | ⟨-, rfl⟩⟩ := dispatch_some h hcall'
    · rw [Call.send_nowait_progress] at hprogress
      -- A receiver that was sent to holds an item.
      rcases hpaired.sent hcall (Or.inr hprogress) hsends with ⟨hcheckpoint, -⟩ | ⟨-, hhanded⟩
      · cases hprogress.symm.trans hcheckpoint
      · cases hitem.symm.trans hhanded
    · exact hpaired.receiving id call' hcall hprogress hitem
  · intro id call' event' hcall' hwaiting hitem
    rw [dispatch_dispatched h]
    obtain ⟨call, hcall, ⟨hsends, rfl⟩ | ⟨-, rfl⟩⟩ := dispatch_some h hcall'
    · rw [Call.send_nowait_waiting] at hwaiting
      obtain ⟨hdata, hnone⟩ := hpaired.sends_to hcall hsends
      rcases hpaired.sent hcall hwaiting hsends with ⟨-, hmissed⟩ | ⟨-, hhanded⟩
      · rw [hmissed] at hitem
        cases hitem.symm.trans (hnone hwaiting)
      · cases hitem.symm.trans hhanded
        exact ⟨by simp, hdata.symm.trans Call.send_nowait_user_data.symm, hsends.1⟩
    -- An item from before was dispatched before.
    · obtain ⟨hmem, hrest⟩ := hpaired.item id call' event' hcall hwaiting hitem
      exact ⟨List.mem_append_left _ hmem, hrest⟩

theorem Paired.initial (hwaiters : m._completion_waiters = fun _ => none)
    (hcalls : m.calls = fun _ => none) : m.Paired := by
  constructor <;> simp [hwaiters, hcalls]

theorem same_user_data {id : CallId} {call new : Call S} (hcall : m.calls id = some call)
    (hsame : call.user_data = new.user_data) :
    ∀ call', m.calls id = some call' → call'.user_data = new.user_data := by
  intro call' hcall'
  cases hcall.symm.trans hcall'
  exact hsame

/-- **Step lemma**: stored senders and calls stay paired. -/
theorem Paired.step (hpaired : m.Paired) {l : ManagerLabel} (hpossible : m.possible l) :
    (m.run l).Paired := by
  have hstepped := run_stepped hpossible
  generalize m.run l = m' at hstepped ⊢
  cases hstepped with
  | ring l => exact (m.use_ring_sameCalls l).paired hpaired
  | reap bursts => exact (m.reap_sameCalls bursts).paired hpaired
  | registered id user_data answer submitted hnew hsame =>
    exact (hsame.paired hpaired).register user_data (by rw [hsame.calls, hnew])
  | failed id user_data answer submitted hnew hsame =>
    apply (hsame.paired hpaired).set_call
    · intro call hcall
      rw [hsame.calls, hnew] at hcall
      cases hcall
    · intro h
      exact absurd h (Call.not_waiting nofun nofun)
  | receiving id call hcall hprogress =>
    refine hpaired.set_call (same_user_data hcall rfl) fun _ => ⟨rfl, ?_⟩
    show S.receive call.stream = _
    rw [hpaired.checkpoint id call hcall hprogress]
  | returned id call hcall =>
    exact hpaired.set_call (same_user_data hcall rfl) fun h =>
      absurd h (Call.not_waiting nofun nofun)
  | cancelled id call hcall =>
    exact hpaired.set_call (same_user_data hcall rfl) fun h =>
      absurd h (Call.not_waiting nofun nofun)
  | dispatched event rest hreaped => exact hpaired.dispatch hreaped

/-! ### Calls that wait on different user data -/

/-- What holds of the calls and the stored senders in every run in which no two
    calls wait on the same user data. -/
structure Inv (m : UringIoManager S) : Prop extends Paired m where
  alone : ∀ id other call call', m.calls id = some call → m.calls other = some call' →
    call.waiting → call'.waiting → call.user_data = call'.user_data → id = other
  /-- The sender of a waiting call stays until an event for it is dispatched. -/
  waits : ∀ id call, m.calls id = some call → call.waiting →
    m._completion_waiters call.user_data = some id ∨ m.dispatched_for call.user_data

theorem SameCalls.inv (h : SameCalls m m') (hinv : m.Inv) : m'.Inv := by
  obtain ⟨hpaired, halone, hwaits⟩ := hinv
  refine ⟨h.paired hpaired, ?_, ?_⟩
  · rw [h.calls]; exact halone
  · unfold dispatched_for; rw [h.calls, h.waiters, h.dispatched]; exact hwaits

/-- A new call on a user data on which no call waits. -/
theorem Inv.register (hinv : m.Inv) {id : CallId} {user_data : UInt64}
    (hnew : m.calls id = none)
    (hfree : ∀ other call, m.calls other = some call → call.waiting →
      call.user_data ≠ user_data) : (m.register id user_data).Inv := by
  refine ⟨hinv.toPaired.register user_data hnew, ?_, ?_⟩
  -- Two calls on one user data would include the new one.
  · intro i j call call' hcall hcall' hwaiting hwaiting' hsame
    rcases set_call_some hcall with ⟨hi, rfl⟩ | ⟨-, hold⟩ <;>
      rcases set_call_some hcall' with ⟨hj, rfl⟩ | ⟨-, hold'⟩
    · rw [hi, hj]
    · exact absurd hsame.symm (hfree j call' hold' hwaiting')
    · exact absurd hsame (hfree i call hold hwaiting)
    · exact hinv.alone i j call call' hold hold' hwaiting hwaiting' hsame
  · intro other call hcall hwaiting
    rw [register_waiters]
    rcases set_call_some hcall with ⟨hother, rfl⟩ | ⟨-, hold⟩
    · exact Or.inl (by rw [if_pos rfl, hother])
    · rw [if_neg (hfree other call hold hwaiting)]
      exact hinv.waits other call hold hwaiting

/-- A call joins the waiting receivers, or stops waiting, or has never waited. -/
theorem Inv.set_call (hinv : m.Inv) {id : CallId} {new : Call S}
    (hsame : ∀ call, m.calls id = some call → call.user_data = new.user_data)
    (hnew : new.waiting → new.progress = .receiving ∧ new.stream = S.receive S.create ∧
      ∃ call, m.calls id = some call ∧ call.waiting) : (m.set_call id new).Inv := by
  refine ⟨hinv.toPaired.set_call hsame fun h => ⟨(hnew h).1, (hnew h).2.1⟩, ?_, ?_⟩
  · intro i j call call' hcall hcall' hwaiting hwaiting' heq
    -- The call as it was before waited on the same user data.
    have hbefore : ∀ k c, (m.set_call id new).calls k = some c → c.waiting →
        ∃ c', m.calls k = some c' ∧ c'.waiting ∧ c'.user_data = c.user_data := by
      intro k c hc hwaits
      rcases set_call_some hc with ⟨rfl, rfl⟩ | ⟨-, hold⟩
      · obtain ⟨-, -, old, hold, hwaited⟩ := hnew hwaits
        exact ⟨old, hold, hwaited, hsame old hold⟩
      · exact ⟨c, hold, hwaits, rfl⟩
    obtain ⟨old, hold, hwaited, hdata⟩ := hbefore i call hcall hwaiting
    obtain ⟨old', hold', hwaited', hdata'⟩ := hbefore j call' hcall' hwaiting'
    exact hinv.alone i j old old' hold hold' hwaited hwaited' (by rw [hdata, hdata', heq])
  · intro other call hcall hwaiting
    rcases set_call_some hcall with ⟨hother, rfl⟩ | ⟨-, hold⟩
    · obtain ⟨-, -, old, hold, hwaited⟩ := hnew hwaiting
      have hwaits := hinv.waits id old hold hwaited
      rwa [hsame old hold, ← hother] at hwaits
    · exact hinv.waits other call hold hwaiting

theorem Inv.dispatch (hinv : m.Inv) (h : m.reaped = event :: rest) : m.dispatch.Inv := by
  refine ⟨hinv.toPaired.dispatch h, ?_, ?_⟩
  · intro i j call call' hcall hcall' hwaiting hwaiting' heq
    obtain ⟨old, hold, hdata, hprogress⟩ := dispatch_some_same h hcall
    obtain ⟨old', hold', hdata', hprogress'⟩ := dispatch_some_same h hcall'
    unfold Call.waiting at hwaiting hwaiting'
    rw [hprogress] at hwaiting
    rw [hprogress'] at hwaiting'
    exact hinv.alone i j old old' hold hold' hwaiting hwaiting' (by rw [← hdata, ← hdata', heq])
  · intro id call' hcall' hwaiting
    obtain ⟨call, hcall, hdata, hprogress⟩ := dispatch_some_same h hcall'
    unfold Call.waiting at hwaiting
    rw [hprogress] at hwaiting
    rw [hdata, dispatched_for_dispatch h]
    -- Only the sender under the user data of the event is taken out.
    by_cases hself : call.user_data = event.user_data
    · exact Or.inr (Or.inr hself.symm)
    · rw [dispatch_waiters_stay h (Or.inr hself)]
      rcases hinv.waits id call hcall hwaiting with hstored | hdispatched
      · exact Or.inl hstored
      · exact Or.inr (Or.inl hdispatched)

theorem Inv.initial (hinit : (manager_system S).init m) : m.Inv := by
  obtain ⟨-, -, hwaiters, hcalls, -, -⟩ := hinit
  refine ⟨.initial hwaiters hcalls, ?_, ?_⟩ <;> simp [hcalls]

/-- **Step lemma**: every step keeps the invariant. -/
theorem Inv.step (hinv : m.Inv) {l : ManagerLabel} (hstep : (manager_system S).step m l m') :
    m'.Inv := by
  have hstepped := step_stepped hstep
  obtain ⟨hallowed, -⟩ := hstep
  cases hstepped with
  | ring l => exact (m.use_ring_sameCalls l).inv hinv
  | reap bursts => exact (m.reap_sameCalls bursts).inv hinv
  | registered id user_data answer submitted hnew hsame =>
    apply (hsame.inv hinv).register <;> rw [hsame.calls]
    · exact hnew
    · exact hallowed.2.2
  | failed id user_data answer submitted hnew hsame =>
    refine (hsame.inv hinv).set_call ?_ fun h => absurd h (Call.not_waiting nofun nofun)
    intro call hcall
    rw [hsame.calls, hnew] at hcall
    cases hcall
  | receiving id call hcall hprogress =>
    refine hinv.set_call (same_user_data hcall rfl) fun _ =>
      ⟨rfl, ?_, call, hcall, Or.inl hprogress⟩
    show S.receive call.stream = _
    rw [hinv.checkpoint id call hcall hprogress]
  | returned id call hcall =>
    exact hinv.set_call (same_user_data hcall rfl) fun h =>
      absurd h (Call.not_waiting nofun nofun)
  | cancelled id call hcall =>
    exact hinv.set_call (same_user_data hcall rfl) fun h =>
      absurd h (Call.not_waiting nofun nofun)
  | dispatched event rest hreaped => exact hinv.dispatch hreaped

/-! ### What the dispatcher has reaped -/

/-- The events that the dispatcher reaps in a step. -/
def reaped_in (t : Step (UringIoManager S) ManagerLabel) : List CompletionEvent :=
  match t.label with
  | .reap bursts => (RingLabel.get_completion_entries bursts).events t.src.py
  | _ => []

/-- Between two lists, the dispatched events are all those that the dispatcher
    has reaped, in order. -/
theorem dispatched_history {m₀ : UringIoManager S}
    {tr : List (Step (UringIoManager S) ManagerLabel)} (hinit : (task_system S).init m₀)
    (h : Path (task_system S) m₀ tr m) : m.dispatched ++ m.reaped = tr.flatMap reaped_in := by
  refine h.trace_invariant (I := fun tr m => m.dispatched ++ m.reaped = tr.flatMap reaped_in) ?_ ?_
  · intro tr m l m' hevents hstep
    obtain ⟨hpossible, rfl⟩ := hstep
    have hsame : ∀ {m' : UringIoManager S}, SameEvents m m' →
        m'.dispatched ++ m'.reaped = m.dispatched ++ m.reaped := by
      intro m' h
      rw [h.dispatched, h.reaped]
    rw [List.flatMap_append, ← hevents, List.flatMap_singleton]
    cases l with
    | ring l => exact (List.append_nil _).symm
    | wait_for_completion id user_data answer =>
      have hcall := m.wait_for_completion_sameEvents id user_data answer
      have huse := m.after_use_events (.wait_for_completion id user_data answer)
      show (m.wait_for_completion id user_data answer).dispatched ++
        (m.wait_for_completion id user_data answer).reaped = _
      rw [hcall.dispatched, hcall.reaped, huse.1, huse.2]
      exact (List.append_nil _).symm
    | resume id => exact (hsame (m.resume_sameEvents id)).trans (List.append_nil _).symm
    | cancel id => exact (hsame (m.cancel_sameEvents id)).trans (List.append_nil _).symm
    | reap bursts =>
      obtain ⟨hnil, -⟩ := hpossible
      rw [hnil, List.append_nil]
      rfl
    | dispatch =>
      exact m.dispatch_events.trans (List.append_nil _).symm
  · rw [hinit.2.2.2.2.1, hinit.2.2.2.2.2]
    rfl

end UringIoManager

end CenturyRing
