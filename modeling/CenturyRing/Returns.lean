import Mathlib.Tactic.IntervalCases
import CenturyRing.EventLoop

/-! # Which calls return

  A sidecar session that goes on for ever. A call of `wait_for_completion` is
  followed on its way: its operation is submitted and ends, the dispatcher is
  woken, reaps the completion and comes to its event, and the call, if it has
  joined the waiting receivers by then, is handed the event and resumed.

  `call_returns_iff`: if the loop, the dispatcher, the tasks and the kernel do
  what they can do, a call returns exactly when it is in time for its event.
-/

open LTS

namespace CenturyRing

/-! ### What a step does to one call -/

namespace UringIoManager

variable {S : MemoryObjectStream CompletionEvent} {m m' : UringIoManager S}

/-- `Goes m l id call call'`: the step `l` makes `call'` of the call `id`. -/
inductive Goes (m : UringIoManager S) (l : ManagerLabel) (id : CallId) (call : Call S) :
    Call S → Prop where
  | stays (hresume : l ≠ .resume id) (hcancel : l ≠ .cancel id) : Goes m l id call call
  | sent (event : CompletionEvent) (rest : List CompletionEvent) (hl : l = .dispatch)
      (hreaped : m.reaped = event :: rest) (hsends : m.sends_to event id) :
      Goes m l id call (call.send_nowait event)
  | receives (hl : l = .resume id) (hprogress : call.progress = .checkpoint) :
      Goes m l id call { call with stream := S.receive call.stream, progress := .receiving }
  | returns (hl : l = .resume id) (hprogress : call.progress = .receiving)
      (hitem : (S.item call.stream).isSome = true) :
      Goes m l id call { call with stream := S.close call.stream, progress := .returned }
  | cancels (hl : l = .cancel id) :
      Goes m l id call { call with stream := S.close call.stream, progress := .cancelled }

/-- What waits has waited before. -/
theorem Goes.waiting {l : ManagerLabel} {id : CallId} {call call' : Call S}
    (h : m.Goes l id call call') (hwaiting : call'.waiting) : call.waiting := by
  cases h with
  | stays hresume hcancel => exact hwaiting
  | sent event rest hl hreaped hsends => exact Call.send_nowait_waiting.mp hwaiting
  | receives hl hprogress => exact .inl hprogress
  | returns hl hprogress hitem => exact .inr hprogress
  | cancels hl => exact absurd hwaiting (Call.not_waiting nofun nofun)

theorem Goes.user_data {l : ManagerLabel} {id : CallId} {call call' : Call S}
    (h : m.Goes l id call call') : call'.user_data = call.user_data := by
  cases h with
  | sent event rest hl hreaped hsends => exact Call.send_nowait_user_data
  | _ => rfl

/-- A step that sets one call, in a manager `base` with the same calls. -/
theorem goes_set_call {base : UringIoManager S} {l : ManagerLabel} {id other : CallId}
    {call new : Call S} (hcall : base.calls id = some call)
    (hself : id = other → m.Goes l id call new)
    (hother : id ≠ other → l ≠ .resume id ∧ l ≠ .cancel id) :
    ∃ call', (base.set_call other new).calls id = some call' ∧ m.Goes l id call call' := by
  by_cases heq : id = other
  · exact ⟨new, (set_call_calls base other id new).trans (if_pos heq), hself heq⟩
  · obtain ⟨hresume, hcancel⟩ := hother heq
    exact ⟨call, (set_call_calls base other id new).trans ((if_neg heq).trans hcall),
      .stays hresume hcancel⟩

/-- **Step lemma**: everything that becomes of a call. -/
theorem Stepped.goes {l : ManagerLabel} (h : m.Stepped l m') {id : CallId} {call : Call S}
    (hcall : m.calls id = some call) : ∃ call', m'.calls id = some call' ∧
      m.Goes l id call call' := by
  have hnew : ∀ {other : CallId} {P : Prop}, m.calls other = none → id = other → P := by
    rintro other P hnone rfl
    rw [hnone] at hcall
    cases hcall
  have hold_eq : ∀ {other : CallId} {old : Call S}, m.calls other = some old → id = other →
      old = call := by
    rintro other old hold rfl
    exact Option.some.inj (hold.symm.trans hcall)
  cases h with
  | ring l => exact ⟨call, hcall, .stays (by simp) (by simp)⟩
  | reap bursts => exact ⟨call, hcall, .stays (by simp) (by simp)⟩
  | registered other user_data answer submitted hnone hsame hregisters =>
    exact goes_set_call (hsame.calls ▸ hcall) (hnew hnone) (by simp)
  | failed other user_data answer submitted hnone hsame hregisters =>
    exact goes_set_call (hsame.calls ▸ hcall) (hnew hnone) (by simp)
  | receiving other old hold hprogress =>
    refine goes_set_call hcall (fun heq => ?_) fun hne => by simp [Ne.symm hne]
    obtain rfl := hold_eq hold heq
    exact .receives (by rw [heq]) hprogress
  | returned other old hold hprogress hitem =>
    refine goes_set_call hcall (fun heq => ?_) fun hne => by simp [Ne.symm hne]
    obtain rfl := hold_eq hold heq
    exact .returns (by rw [heq]) hprogress hitem
  | cancelled other old hold =>
    refine goes_set_call hcall (fun heq => ?_) fun hne => by simp [Ne.symm hne]
    obtain rfl := hold_eq hold heq
    exact .cancels (by rw [heq])
  | dispatched event rest hreaped =>
    by_cases hsends : m.sends_to event id
    · refine ⟨call.send_nowait event, ?_, .sent event rest rfl hreaped hsends⟩
      rw [dispatch_calls_sent hreaped hsends, hcall]
      rfl
    · exact ⟨call, (dispatch_calls_unsent hreaped hsends).trans hcall, .stays (by simp) (by simp)⟩

/-- The event that the dispatcher comes to in a step. -/
def dispatched_in (m : UringIoManager S) : ManagerLabel → List CompletionEvent
  | .dispatch => m.reaped.head?.toList
  | _ => []

theorem mem_dispatched_in {l : ManagerLabel} {event : CompletionEvent}
    (h : event ∈ m.dispatched_in l) : l = .dispatch ∧ ∃ rest, m.reaped = event :: rest := by
  cases l with
  | dispatch => exact ⟨rfl, List.head?_eq_some_iff.mp (Option.mem_toList.mp h)⟩
  | _ => cases h

/-- Only the dispatcher adds to what was dispatched. -/
theorem run_dispatched (m : UringIoManager S) (l : ManagerLabel) :
    (m.run l).dispatched = m.dispatched ++ m.dispatched_in l := by
  have hsame : ∀ {m' : UringIoManager S}, m'.dispatched = m.dispatched →
      m'.dispatched = m.dispatched ++ [] := fun h => h.trans (List.append_nil _).symm
  cases l with
  | ring l => exact hsame rfl
  | reap bursts => exact hsame rfl
  | wait_for_completion id user_data answer =>
    have hcall := m.wait_for_completion_sameEvents id user_data answer
    exact hsame (hcall.dispatched.trans (m.after_use_events _).1)
  | resume id => exact hsame (m.resume_sameEvents id).dispatched
  | cancel id => exact hsame (m.cancel_sameEvents id).dispatched
  | dispatch =>
    show m.dispatch.dispatched = m.dispatched ++ m.reaped.head?.toList
    cases h : m.reaped with
    | nil =>
      unfold dispatch
      rw [h]
      exact (List.append_nil _).symm
    | cons event rest => exact dispatch_dispatched h

/-- The dispatcher comes to the event of `ud`. -/
def comes_to (m : UringIoManager S) (ud : UInt64) (l : ManagerLabel) : Prop :=
  ∃ event ∈ m.dispatched_in l, event.user_data = ud

theorem run_dispatched_for (m : UringIoManager S) (l : ManagerLabel) (ud : UInt64) :
    (m.run l).dispatched_for ud ↔ m.dispatched_for ud ∨ m.comes_to ud l := by
  unfold dispatched_for comes_to
  rw [run_dispatched]
  simp [or_and_right, exists_or]

/-! ### Calls that are in time, and calls that are not -/

/-- The call has its event, if it waits and that has been dispatched. -/
def hears (m : UringIoManager S) (call : Call S) : Prop :=
  call.waiting → m.dispatched_for call.user_data → m.handed call

/-- What was handed stays handed. -/
theorem handed_run {call : Call S} (h : m.handed call) (l : ManagerLabel) :
    (m.run l).handed call := by
  obtain ⟨event, hmem, hrest⟩ := h
  refine ⟨event, ?_, hrest⟩
  rw [run_dispatched]
  exact List.mem_append_left _ hmem

/-- **Step lemma**: a call that waits is handed its event, unless the dispatcher
    comes to it while the call is at its checkpoint. -/
theorem Inv.hears_step (hinv : m.Inv) {l : ManagerLabel} (hstep : (manager_system S).step m l m')
    {id : CallId} {call call' : Call S} (hcall : m.calls id = some call)
    (hcall' : m'.calls id = some call') (hignored : ∀ event : CompletionEvent,
      event.user_data = call.user_data → event.should_be_ignored = false)
    (hin_time : m.comes_to call.user_data l → call.progress ≠ .checkpoint)
    (hhears : m.hears call) : m'.hears call' := by
  obtain ⟨call'', hcall'', hgoes⟩ := (step_stepped hstep).goes hcall
  obtain rfl := Option.some.inj (hcall'.symm.trans hcall'')
  obtain ⟨-, rfl⟩ := hstep
  intro hwaiting'
  have hwaiting := hgoes.waiting hwaiting'
  rw [hgoes.user_data, run_dispatched_for]
  rintro (hbefore | hcomes)
  · have hhanded := hhears hwaiting hbefore
    cases hgoes with
    | stays hresume hcancel => exact handed_run hhanded l
    | sent event rest hl hreaped hsends =>
      -- A call that has its event is sent no other.
      exact absurd hhanded (not_handed ((hinv.toPaired.sends_to hcall hsends).2 hwaiting))
    | receives hl hprogress => exact absurd hhanded (hinv.not_handed_checkpoint hcall hprogress)
    | returns hl hprogress hitem => exact absurd hwaiting' (Call.not_waiting nofun nofun)
    | cancels hl => exact absurd hwaiting' (Call.not_waiting nofun nofun)
  · have hreceiving := hwaiting.resolve_left (hin_time hcomes)
    obtain ⟨event, hmem, hud⟩ := hcomes
    obtain ⟨rfl, rest, hreaped⟩ := mem_dispatched_in hmem
    obtain ⟨call'', hcall'', hhanded⟩ :=
      hinv.hands hreaped hcall hreceiving hud.symm (hignored event hud) (hhears hwaiting)
    obtain rfl := Option.some.inj (hcall'.symm.trans hcall'')
    exact hhanded

/-- The event of the call has been dispatched, and the call waits without it. -/
def deaf (m : UringIoManager S) (id : CallId) (ud : UInt64) : Prop :=
  m.dispatched_for ud ∧ ∃ call, m.calls id = some call ∧ call.user_data = ud ∧ call.waiting ∧
    S.item call.stream = none

/-- A call that is at its checkpoint when the dispatcher comes to its event
    misses it. -/
theorem Inv.deaf_of_comes_to (hinv : m.Inv) {l : ManagerLabel} {id : CallId} {call : Call S}
    (hcall : m.calls id = some call) (hprogress : call.progress = .checkpoint)
    (hcomes : m.comes_to call.user_data l) : (m.run l).deaf id call.user_data := by
  refine ⟨(m.run_dispatched_for l _).mpr (.inr hcomes), call, ?_, rfl, .inl hprogress, ?_⟩
  · obtain ⟨event, hmem, -⟩ := hcomes
    obtain ⟨rfl, rest, hreaped⟩ := mem_dispatched_in hmem
    show m.dispatch.calls id = some call
    by_cases hsends : m.sends_to event id
    · rw [dispatch_calls_sent hreaped hsends, hcall]
      exact congrArg some (Call.send_nowait_create (hinv.checkpoint id call hcall hprogress))
    · exact (dispatch_calls_unsent hreaped hsends).trans hcall
  · rw [hinv.checkpoint id call hcall hprogress]
    exact S.item_create

/-- **Step lemma**: there is no second event for a call that has missed the
    first. -/
theorem Inv.deaf_step (hinv : m.Inv) {l : ManagerLabel} (hstep : (manager_system S).step m l m')
    (hapart : told_apart (m.dispatched ++ m.reaped)) {id : CallId} {ud : UInt64}
    (hignored : ∀ event : CompletionEvent, event.user_data = ud → event.should_be_ignored = false)
    (hkept : l ≠ .cancel id) (h : m.deaf id ud) : m'.deaf id ud := by
  obtain ⟨hdispatched, call, hcall, hdata, hwaiting, hitem⟩ := h
  obtain ⟨call', hcall', hgoes⟩ := (step_stepped hstep).goes hcall
  obtain ⟨-, rfl⟩ := hstep
  refine ⟨(m.run_dispatched_for l ud).mpr (.inl hdispatched), call', hcall',
    hgoes.user_data.trans hdata, ?_⟩
  cases hgoes with
  | stays hresume hcancel => exact ⟨hwaiting, hitem⟩
  | sent event rest hl hreaped hsends =>
    have hud : event.user_data = ud := (hinv.toPaired.sends_to hcall hsends).1.symm.trans hdata
    obtain ⟨event', hmem, hud'⟩ := hdispatched
    exact absurd (hud'.trans hud.symm) (not_dispatched hapart hreaped (hignored event hud) hmem
      (hignored event' hud'))
  | receives hl hprogress =>
    refine ⟨.inr rfl, ?_⟩
    show S.item (S.receive call.stream) = none
    rw [hinv.checkpoint id call hcall hprogress]
    exact S.item_receive
  | returns hl hprogress hsome =>
    rw [hitem] at hsome
    cases hsome
  | cancels hl => exact absurd hl hkept

end UringIoManager

/-! ### Sessions that go on for ever -/

/-- The step resumes the call or cancels it. -/
def LoopLabel.turns_to (l : LoopLabel) (id : CallId) : Prop :=
  l = .manager (.resume id) ∨ l = .manager (.cancel id)

namespace EventLoop

variable {S : MemoryObjectStream CompletionEvent} {lib : AsyncLibrary}
         {awaited : UInt64 → Prop} {e : Execution (loop_system lib S)}

/-- What is assumed of a session throughout, where calls wait for what is
    `awaited`. -/
structure Steady (awaited : UInt64 → Prop) (e : Execution (loop_system lib S)) : Prop where
  init : (loop_system lib S).init (e.states 0)
  bound : ∀ n, allocations (ring (e.trace n)) < 2 ^ 63
  orderly : ∀ n, (e.states n).Orderly awaited (e.labels n)
  own : ∀ n, waits_for_own [] (e.trace n)
  is_open : ∀ n, (e.states n).world.is_open = true

/-- Everybody does what they can do, sooner or later. -/
structure Fair (e : Execution (loop_system lib S)) : Prop where
  /-- The loop gets round to waiting for I/O. -/
  waits : ∀ n, ∃ m, n ≤ m ∧ ∃ answer, e.labels m = .before_io_wait answer
  /-- A polling kernel thread consumes entries as long as any are queued. -/
  polls : (e.states 0).world.sqpoll = true → ∀ n, (e.states n).world.pending ≠ [] →
    ∃ m, n ≤ m ∧ (e.states n).world.consumed.length < (e.states m).world.consumed.length
  /-- The dispatcher is woken by the eventfd, -/
  reads : LeadsTo (fun n => (e.states n).manager.efd ≠ 0)
    (fun n => ∃ bursts, e.labels n = .manager (.reap bursts))
  /-- and goes through its list. -/
  dispatches : LeadsTo (fun n => (e.states n).manager.reaped ≠ [])
    (fun n => e.labels n = .manager .dispatch)
  /-- A call that can be resumed is resumed or cancelled. -/
  resumes : ∀ id, LeadsTo (fun n => (e.states n).resumable id)
    (fun n => (e.labels n).turns_to id)

/-- The operation of `ud` does not run for ever. -/
def Finishes (e : Execution (loop_system lib S)) (ud : UInt64) : Prop :=
  ∀ entry, entry.user_data = ud → entry.op.is_timeout = false →
    LeadsTo (fun n => entry ∈ (e.states n).world.running)
      (fun n => entry ∉ (e.states n).world.running)

namespace Steady

variable (hs : Steady awaited e)

include hs

theorem orderly_trace (n : Nat) : ∀ t ∈ e.trace n, t.src.Orderly awaited t.label := by
  intro t ht
  obtain ⟨m, -, rfl⟩ := e.mem_trace.mp ht
  exact hs.orderly m

theorem inv (n : Nat) : Inv lib awaited (ring (e.trace n)) (e.states n) :=
  inv_of_run hs.init (e.path n) (hs.bound n) (hs.orderly_trace n) (hs.own n) (hs.is_open n)

theorem signalled (n : Nat) : (e.states n).manager.signalled :=
  UringIoManager.orderly_signalled hs.init.1 (manager_path (e.path n))
    (orderly_manager (hs.orderly_trace n))

theorem manager_inv (n : Nat) : (e.states n).manager.Inv :=
  (manager_path (e.path n)).invariant (fun _ _ _ hinv hstep => hinv.step hstep)
    (.initial hs.init.1)

theorem told_apart (n : Nat) : UringIoManager.told_apart
    ((e.states n).manager.dispatched ++ (e.states n).manager.reaped) :=
  UringIoManager.listed_told_apart hs.init.1 (UringIoManager.task_path (manager_path (e.path n)))
    (hs.bound n)

theorem sqpoll (n : Nat) : (e.states n).world.sqpoll = (e.states 0).world.sqpoll :=
  (settings_eq (ring_of_path (e.path n)) (hs.is_open n)).2.1

omit hs in
/-- The ring of a session, seen after every step of the loop. -/
def ring_history (hs : Steady awaited e) : History ring_system where
  states := fun n => (e.states n).manager.py
  trace := fun n => ring (e.trace n)
  init := hs.init.1.1
  trace_zero := rfl
  grows := fun n => by
    refine ⟨_, ring_snoc (e.trace n) (e.nth n), ?_⟩
    have hpath := ring_of_path (Path.single (e.step n))
    rwa [← List.nil_append [_], ring_snoc] at hpath

theorem ring_steady : CenturyRing.Steady awaited hs.ring_history where
  bound := hs.bound
  is_open := hs.is_open
  answers := fun n =>
    UringIoManager.orderly_answers (orderly_manager (hs.orderly_trace n))

/-- The events reaped so far, in order. -/
theorem listed (n : Nat) : (e.states n).manager.dispatched ++ (e.states n).manager.reaped =
    events (ring (e.trace n)) :=
  UringIoManager.listed_eq hs.init.1 (manager_path (e.path n)) fun t ht =>
    (orderly_manager (hs.orderly_trace n) t ht).reaps

end Steady

/-! ### Where a call stands -/

/-- The call `id`, which is on `ud`, has got as far as `progress`. -/
def stands (s : EventLoop S) (id : CallId) (ud : UInt64) (progress : Progress) : Prop :=
  ∃ call, s.manager.calls id = some call ∧ call.user_data = ud ∧ call.progress = progress

/-- The call waits. -/
def waits (s : EventLoop S) (id : CallId) (ud : UInt64) : Prop :=
  s.stands id ud .checkpoint ∨ s.stands id ud .receiving

theorem waits.call {s : EventLoop S} {id : CallId} {ud : UInt64} (h : s.waits id ud) :
    ∃ call, s.manager.calls id = some call ∧ call.user_data = ud ∧ call.waiting := by
  rcases h with ⟨call, hcall, hdata, hprogress⟩ | ⟨call, hcall, hdata, hprogress⟩
  · exact ⟨call, hcall, hdata, .inl hprogress⟩
  · exact ⟨call, hcall, hdata, .inr hprogress⟩

/-- The dispatcher comes to the event of `ud`. -/
def comes_to (s : EventLoop S) (ud : UInt64) (l : LoopLabel) : Prop :=
  ∃ l', s.manager_label l = some l' ∧ s.manager.comes_to ud l'

section step

variable {s s' : EventLoop S} {l : LoopLabel} {id : CallId} {ud : UInt64}

/-- **Step lemma**: a call that is not cancelled stays where it is until it is
    turned to. -/
theorem stands_step (hstep : (loop_system lib S).step s l s') (hkept : l ≠ .manager (.cancel id))
    {p : Progress} (h : s.stands id ud p) : s'.stands id ud p ∧ ¬l.turns_to id ∨
      p = .checkpoint ∧ s'.stands id ud .receiving ∨
      p = .receiving ∧ s'.stands id ud .returned := by
  obtain ⟨call, hcall, hdata, rfl⟩ := h
  rcases manager_step_cases hstep with ⟨l', hl, hstep'⟩ | ⟨hl, heq⟩
  · obtain ⟨call', hcall', hgoes⟩ := (UringIoManager.step_stepped hstep').goes hcall
    have hdata' := hgoes.user_data.trans hdata
    have hnot : l' ≠ .resume id → ¬l.turns_to id := by
      rintro hresume (rfl | rfl)
      · exact hresume (Option.some.inj hl).symm
      · exact hkept rfl
    cases hgoes with
    | stays hresume hcancel => exact .inl ⟨⟨call, hcall', hdata', rfl⟩, hnot hresume⟩
    | sent event rest hl' hreaped hsends =>
      exact .inl ⟨⟨_, hcall', hdata', Call.send_nowait_progress⟩, hnot (by simp [hl'])⟩
    | receives hl' hprogress => exact .inr (.inl ⟨hprogress, _, hcall', hdata', rfl⟩)
    | returns hl' hprogress hitem => exact .inr (.inr ⟨hprogress, _, hcall', hdata', rfl⟩)
    | cancels hl' =>
      obtain rfl := hl'
      exact absurd (of_manager_label hl (by simp)) hkept
  · refine .inl ⟨⟨call, heq ▸ hcall, hdata, rfl⟩, ?_⟩
    rintro (rfl | rfl) <;> cases hl

/-- A call at its checkpoint joins the waiting receivers. -/
theorem checkpoint_step (hstep : (loop_system lib S).step s l s')
    (hkept : l ≠ .manager (.cancel id)) (h : s.stands id ud .checkpoint) :
    s'.stands id ud .checkpoint ∧ ¬l.turns_to id ∨ s'.stands id ud .receiving := by
  rcases stands_step hstep hkept h with hstays | ⟨-, hreceiving⟩ | ⟨hp, -⟩
  · exact .inl hstays
  · exact .inr hreceiving
  · cases hp

/-- A call that receives returns. -/
theorem receiving_step (hstep : (loop_system lib S).step s l s')
    (hkept : l ≠ .manager (.cancel id)) (h : s.stands id ud .receiving) :
    s'.stands id ud .receiving ∧ ¬l.turns_to id ∨ s'.stands id ud .returned := by
  rcases stands_step hstep hkept h with hstays | ⟨hp, -⟩ | ⟨-, hreturned⟩
  · exact .inl hstays
  · cases hp
  · exact .inr hreturned

/-- A call that has returned has returned. -/
theorem returned_step (hstep : (loop_system lib S).step s l s')
    (hkept : l ≠ .manager (.cancel id)) (h : s.stands id ud .returned) :
    s'.stands id ud .returned := by
  rcases stands_step hstep hkept h with ⟨hstays, -⟩ | ⟨hp, -⟩ | ⟨hp, -⟩
  · exact hstays
  · cases hp
  · cases hp

theorem dispatched_for_step (hstep : (loop_system lib S).step s l s') :
    s'.manager.dispatched_for ud ↔ s.manager.dispatched_for ud ∨ s.comes_to ud l := by
  unfold comes_to
  rcases manager_step_cases hstep with ⟨l', hl, hstep'⟩ | ⟨hl, heq⟩
  · rw [hstep'.2, UringIoManager.run_dispatched_for, hl]
    simp
  · rw [heq, hl]
    simp

end step

/-! ### One call -/

section call

variable (hs : Steady awaited e) (hfair : Fair e) {n : Nat} {id : CallId} {ud : UInt64}
         {answer : Enter} (hkept : ∀ m, e.labels m ≠ .manager (.cancel id))
         (hcall : e.labels n = .manager (.wait_for_completion id ud answer))

theorem dispatched_grows (e : Execution (loop_system lib S)) (n : Nat) :
    (e.states n).manager.dispatched <+: (e.states (n + 1)).manager.dispatched := by
  rcases manager_step_cases (e.step n) with ⟨l', -, hstep⟩ | ⟨-, heq⟩
  · rw [hstep.2, UringIoManager.run_dispatched]
    exact List.prefix_append _ _
  · rw [heq]

theorem dispatched_for_stable (e : Execution (loop_system lib S)) (ud : UInt64) :
    Stable fun m => (e.states m).manager.dispatched_for ud :=
  fun m hm => (dispatched_for_step (e.step m)).mpr (.inl hm)

include hkept in
theorem waits_unless_returned (ud : UInt64) : Unless (fun m => (e.states m).waits id ud)
    (fun m => (e.states m).stands id ud .returned) := by
  intro m hwaits
  rcases hwaits with hcheckpoint | hreceiving
  · rcases checkpoint_step (e.step m) (hkept m) hcheckpoint with ⟨hstands, -⟩ | hstands
    · exact .inl (.inl hstands)
    · exact .inl (.inr hstands)
  · rcases receiving_step (e.step m) (hkept m) hreceiving with ⟨hstands, -⟩ | hreturned
    · exact .inl (.inr hstands)
    · exact .inr hreturned

include hkept in
theorem returned_stable (ud : UInt64) :
    Stable fun m => (e.states m).stands id ud .returned :=
  fun m => returned_step (e.step m) (hkept m)

include hs hcall

/-- The call waits for what a preparation before it has returned. -/
theorem call_returned : ud ∈ returned (ring (e.trace n)) := by
  have hown := hs.own (n + 1)
  rw [Execution.trace, waits_for_own_snoc] at hown
  exact hown.2 id ud answer hcall

/-- The dispatcher does not ignore its event. -/
theorem call_not_ignored (event : CompletionEvent) (hud : event.user_data = ud) :
    event.should_be_ignored = false := by
  obtain ⟨entry, hentry, rfl, hnot⟩ := pushed_of_returned (call_returned hs hcall)
  have htimer := (hs.ring_steady.ledger n).timeout_iff (hs.bound n) hentry
  rw [hnot, ← hud, ← event.should_be_ignored_iff] at htimer
  simpa using htimer

/-- It begins with its checkpoint. -/
theorem call_begins :
    (e.states (n + 1)).manager.calls id = some ⟨ud, S.create, .checkpoint⟩ := by
  have hrun : (e.states (n + 1)).manager =
      (e.states n).manager.wait_for_completion id ud answer := by
    rw [(e.step n).2, hcall]
    rfl
  have hregisters : (e.states n).manager.registers answer := by
    intro hforce
    refine submit_isSome ((hs.orderly n).submits answer ?_) (hs.is_open n)
    rw [hcall]
    exact if_pos hforce
  obtain ⟨submitted, -, ⟨-, heq⟩ | ⟨hnot, -⟩⟩ :=
    (e.states n).manager.wait_for_completion_cases id ud answer
  · rw [hrun, heq]
    exact (UringIoManager.set_call_calls _ id id _).trans (if_pos rfl)
  · exact absurd hregisters hnot

theorem call_stands : (e.states (n + 1)).stands id ud .checkpoint :=
  ⟨_, call_begins hs hcall, rfl, rfl⟩

omit hs in
/-- The dispatcher does not come to its event in the meantime. -/
theorem dispatched_for_begins :
    (e.states (n + 1)).manager.dispatched_for ud ↔ (e.states n).manager.dispatched_for ud := by
  have hnot : ¬(e.states n).comes_to ud (e.labels n) := by
    rw [hcall]
    rintro ⟨l', hl, event, hmem, -⟩
    obtain rfl := Option.some.inj hl
    cases hmem
  rw [dispatched_for_step (e.step n)]
  exact or_iff_left hnot

include hkept

theorem call_stays {m : Nat} (hm : n < m) : ∃ p, (e.states m).stands id ud p := by
  have hstable : Stable fun m => ∃ p, (e.states m).stands id ud p := by
    rintro m ⟨p, hstands⟩
    rcases stands_step (e.step m) (hkept m) hstands with ⟨hstays, -⟩ | ⟨-, hnext⟩ | ⟨-, hnext⟩
    · exact ⟨_, hstays⟩
    · exact ⟨_, hnext⟩
    · exact ⟨_, hnext⟩
  exact hstable.of_le hm ⟨_, call_stands hs hcall⟩

/-- A call that is in time is handed its event. -/
theorem call_hears (hnew : ¬(e.states n).manager.dispatched_for ud)
    (hin_time : ∀ m, n < m → (e.states m).comes_to ud (e.labels m) →
      ¬(e.states m).stands id ud .checkpoint) {m : Nat} (hm : n < m) :
    ∀ call, (e.states m).manager.calls id = some call → (e.states m).manager.hears call := by
  induction m, hm using Nat.le_induction with
  | base =>
    intro call hcall' _ hdispatched
    obtain rfl := Option.some.inj (hcall'.symm.trans (call_begins hs hcall))
    exact absurd ((dispatched_for_begins hcall).mp hdispatched) hnew
  | succ m hm ih =>
    intro call' hcall'
    obtain ⟨p, call, hcall'', rfl, rfl⟩ := call_stays hs hkept hcall hm
    rcases manager_step_cases (e.step m) with ⟨l', hl, hstep⟩ | ⟨-, heq⟩
    · refine (hs.manager_inv m).hears_step hstep hcall'' hcall' (call_not_ignored hs hcall) ?_
        (ih call hcall'')
      intro hcomes hcheckpoint
      exact hin_time m hm ⟨l', hl, hcomes⟩ ⟨call, hcall'', rfl, hcheckpoint⟩
    · rw [heq] at hcall' ⊢
      exact ih call' hcall'

/-- A call that has missed its event does not return. -/
theorem not_returned_of_deaf {m : Nat} (hdeaf : (e.states m).manager.deaf id ud) {m' : Nat}
    (hle : m ≤ m') : ¬(e.states m').stands id ud .returned := by
  have hstable : Stable fun m => (e.states m).manager.deaf id ud := by
    intro m hm
    rcases manager_step_cases (e.step m) with ⟨l', hl, hstep⟩ | ⟨-, heq⟩
    · refine (hs.manager_inv m).deaf_step hstep (hs.told_apart m) (call_not_ignored hs hcall) ?_ hm
      rintro rfl
      exact hkept m (of_manager_label hl (by simp))
    · rw [heq]
      exact hm
  rintro ⟨call, hcall', -, hreturned⟩
  obtain ⟨-, call', hcall'', -, hwaiting, -⟩ := hstable.of_le hle hdeaf
  obtain rfl := Option.some.inj (hcall'.symm.trans hcall'')
  rcases hwaiting with hprogress | hprogress <;> cases hreturned.symm.trans hprogress

/-- A call that returns began before its event was dispatched. -/
theorem new_of_returned {m : Nat} (hm : n < m)
    (hreturned : (e.states m).stands id ud .returned) :
    ¬(e.states n).manager.dispatched_for ud := by
  intro hdispatched
  refine not_returned_of_deaf hs hkept hcall (m := n + 1) ⟨?_, _, call_begins hs hcall, rfl, ?_⟩ hm
    hreturned
  · exact (dispatched_for_begins hcall).mpr hdispatched
  · exact ⟨.inl rfl, S.item_create⟩

/-- A call that returns was past its checkpoint when the dispatcher came to its
    event. -/
theorem in_time_of_returned {m : Nat} (hreturned : (e.states m).stands id ud .returned) {k : Nat}
    (hcomes : (e.states k).comes_to ud (e.labels k)) :
    ¬(e.states k).stands id ud .checkpoint := by
  intro hstands
  rcases Nat.lt_or_ge k m with hlt | hle
  · -- It has missed the event.
    refine not_returned_of_deaf hs hkept hcall (m := k + 1) ?_ hlt hreturned
    obtain ⟨l', hl, hcomes⟩ := hcomes
    obtain ⟨call, hcall', rfl, hprogress⟩ := hstands
    rcases manager_step_cases (e.step k) with ⟨l'', hl', hstep⟩ | ⟨hnone, -⟩
    · obtain rfl := Option.some.inj (hl.symm.trans hl')
      rw [hstep.2]
      exact (hs.manager_inv k).deaf_of_comes_to hcall' hprogress hcomes
    · cases hl.symm.trans hnone
  · obtain ⟨call, hcall', -, hprogress⟩ := (returned_stable hkept ud).of_le hle hreturned
    obtain ⟨call', hcall'', -, hprogress'⟩ := hstands
    obtain rfl := Option.some.inj (hcall'.symm.trans hcall'')
    cases hprogress.symm.trans hprogress'

end call

/-! ### From the operation to its event -/

section progress

variable (hs : Steady awaited e) (hfair : Fair e) {id : CallId}
         (hkept : ∀ m, e.labels m ≠ .manager (.cancel id))

include hs hfair

include hkept in
/-- An operation that a call waits for is submitted: by the polling thread, by
    the instrument when the loop waits, or by the call itself. -/
theorem pushed_leads_to_consumed {entry : Entry} (hnot : entry.op.is_timeout = false) :
    LeadsTo (fun n => entry ∈ pushed (ring (e.trace n)) ∧ (e.states n).waits id entry.user_data)
      (fun n => entry ∈ (e.states n).world.consumed ∧ (e.states n).waits id entry.user_data ∨
        (e.states n).stands id entry.user_data .returned) := by
  have hqueue : ∀ n, (e.states n).world.consumed ++ (e.states n).world.pending =
      pushed (ring (e.trace n)) := hs.ring_steady.consumed_append_pending
  have hunless := waits_unless_returned hkept entry.user_data
  cases hpoll : (e.states 0).world.sqpoll with
  | true =>
    have hmoves : (submissions hs.ring_steady).Moves := by
      intro n hwaiting
      rw [submissions_waiting hs.ring_steady] at hwaiting
      exact hfair.polls hpoll n hwaiting
    exact ((submissions hs.ring_steady).everyone_served hmoves entry).unless hunless
  | false =>
    have hpoll' : ∀ n, (e.states n).world.sqpoll = false := fun n => (hs.sqpoll n).trans hpoll
    cases lib with
    | trio =>
      have hflushed : LeadsTo (fun n => entry ∈ pushed (ring (e.trace n)))
          (fun n => entry ∈ (e.states n).world.consumed) := by
        intro n hn
        obtain ⟨m, hm, answer, hlabel⟩ := hfair.waits n
        have hasleep : (e.states (m + 1)).asleep = true := by
          rw [(e.step m).2, hlabel]
          show ((e.states m).before_io_wait answer).asleep = true
          unfold before_io_wait
          split <;> rfl
        have hpushed : entry ∈ pushed (ring (e.trace (m + 1))) :=
          ((submissions hs.ring_steady).joined_stable entry).of_le (Nat.le_succ_of_le hm) hn
        rw [← hqueue, (hs.inv (m + 1)).flushed rfl (hpoll' _) hasleep, List.append_nil] at hpushed
        exact ⟨m + 1, Nat.le_succ_of_le hm, hpushed⟩
      exact hflushed.unless hunless
    | asyncio =>
      rintro n ⟨hpushed, hwaits⟩
      refine ⟨n, Nat.le_refl n, .inl ⟨?_, hwaits⟩⟩
      rw [← hqueue] at hpushed
      refine (List.mem_append.mp hpushed).resolve_right fun hpending => ?_
      obtain ⟨call, hcall, hdata, hwaiting⟩ := hwaits.call
      exact (hs.inv n).submitted rfl (hpoll' n) id call hcall hwaiting entry hpending hnot
        hdata.symm

/-- The dispatcher, once woken, reaps everything that was posted. -/
theorem posted_leads_to_reaped (cqe : Cqe) :
    LeadsTo (fun n => cqe ∈ (e.states n).world.kernel.posted)
      (fun n => cqe ∈ reaped (ring (e.trace n))) := by
  have hline : ∀ n, reaped (ring (e.trace n)) ++ (e.states n).world.unreaped =
      (e.states n).world.kernel.posted := hs.ring_steady.reaped_append_unreaped
  intro n hn
  by_cases hempty : (e.states n).world.unreaped = []
  · refine ⟨n, Nat.le_refl n, ?_⟩
    rwa [← hline n, hempty, List.append_nil] at hn
  · have hefd : (e.states n).manager.efd ≠ 0 := fun hzero =>
      hempty (hs.signalled n (hs.is_open n) hzero)
    obtain ⟨m, hm, bursts, hlabel⟩ := hfair.reads n hefd
    have hposted : cqe ∈ (e.states (m + 1)).world.kernel.posted :=
      ((completions hs.ring_steady).joined_stable cqe).of_le (Nat.le_succ_of_le hm) hn
    have hnone : (e.states (m + 1)).world.unreaped = [] := by
      have hrun : (e.states (m + 1)).manager = (e.states m).manager.run (.reap bursts) := by
        rw [(e.step m).2, hlabel]
        rfl
      have horderly : (e.states m).manager.Orderly awaited (.reap bursts) :=
        (hs.orderly m).manager (.reap bursts) (by rw [hlabel]; rfl)
      unfold world
      rw [hrun]
      exact UringIoManager.reap_unreaped (hs.is_open m) horderly.room
    rw [← hline, hnone, List.append_nil] at hposted
    exact ⟨m + 1, Nat.le_succ_of_le hm, hposted⟩

omit hfair in
/-- The line of the events that the dispatcher goes through. -/
def event_line : Line CompletionEvent where
  joined := fun n => events (ring (e.trace n))
  served := fun n => (e.states n).manager.dispatched
  joined_grows := fun n => by
    rw [Execution.trace, ring_snoc, events, events, List.flatMap_append]
    exact List.prefix_append _ _
  served_first := fun n => by
    rw [← hs.listed n]
    exact List.prefix_append _ _

/-- The dispatcher comes to every event that was reaped. -/
theorem reaped_leads_to_dispatched (cqe : Cqe) :
    LeadsTo (fun n => cqe ∈ reaped (ring (e.trace n)))
      (fun n => (e.states n).manager.dispatched_for cqe.user_data) := by
  have hmoves : (event_line hs).Moves := by
    intro n hwaiting
    have hreaped : (e.states n).manager.reaped ≠ [] := by
      intro hnil
      refine hwaiting ?_
      show (events (ring (e.trace n))).drop (e.states n).manager.dispatched.length = []
      rw [← hs.listed n, hnil, List.append_nil, List.drop_length]
    obtain ⟨m, hm, hlabel⟩ := hfair.dispatches n hreaped
    refine ⟨m + 1, Nat.le_succ_of_le hm, ?_⟩
    show (e.states n).manager.dispatched.length < (e.states (m + 1)).manager.dispatched.length
    have hle := (prefix_of_le (dispatched_grows e) hm).length_le
    have hdispatch : (loop_system lib S).step (e.states m) (.manager .dispatch)
        (e.states (m + 1)) := hlabel ▸ e.step m
    obtain ⟨event, rest, hlist⟩ := List.exists_cons_of_ne_nil hdispatch.1.1
    rw [hdispatch.2]
    show _ < (e.states m).manager.dispatch.dispatched.length
    rw [UringIoManager.dispatch_dispatched hlist, List.length_append]
    exact Nat.lt_succ_of_le hle
  intro n hn
  obtain ⟨event, hevent, hdata⟩ := exists_event hn
  obtain ⟨m, hm, hdispatched⟩ := (event_line hs).everyone_served hmoves event n hevent
  exact ⟨m, hm, event, hdispatched, hdata⟩

/-- What is consumed and ends leads to its event. -/
theorem consumed_leads_to_dispatched {entry : Entry} (hnot : entry.op.is_timeout = false)
    (hawaited : awaited entry.user_data) (hfinishes : Finishes e entry.user_data) :
    LeadsTo (fun n => entry ∈ (e.states n).world.consumed)
      (fun n => (e.states n).manager.dispatched_for entry.user_data) := by
  have hposted :=
    consumed_leads_to_posted hs.ring_steady hnot hawaited (hfinishes entry rfl hnot)
  intro n hn
  obtain ⟨m, hm, cqe, hcqe, rfl⟩ := hposted n hn
  have hrest := (posted_leads_to_reaped hs hfair cqe).trans
    (reaped_leads_to_dispatched hs hfair cqe)
  obtain ⟨k, hk, hdispatched⟩ := hrest m hcqe
  exact ⟨k, Nat.le_trans hm hk, hdispatched⟩

include hkept

omit hs in
/-- A call whose event is dispatched while it listens is resumed until it
    returns. -/
theorem dispatched_leads_to_returned {n : Nat} {ud : UInt64} (hhears : ∀ m, n < m → ∀ call,
    (e.states m).manager.calls id = some call → (e.states m).manager.hears call) :
    LeadsTo (fun m => n < m ∧ (e.states m).manager.dispatched_for ud ∧ (e.states m).waits id ud)
      (fun m => (e.states m).stands id ud .returned) := by
  have hstable : ∀ m, n < m ∧ (e.states m).manager.dispatched_for ud →
      n < m + 1 ∧ (e.states (m + 1)).manager.dispatched_for ud := fun m hm =>
    ⟨Nat.lt_succ_of_lt hm.1, dispatched_for_stable e ud m hm.2⟩
  -- It joins the waiting receivers,
  have hfirst : LeadsTo
      (fun m => (n < m ∧ (e.states m).manager.dispatched_for ud) ∧
        (e.states m).stands id ud .checkpoint)
      (fun m => (n < m ∧ (e.states m).manager.dispatched_for ud) ∧
        (e.states m).stands id ud .receiving) := by
    refine LeadsTo.of_action ((hfair.resumes id).mono ?_ fun m hm => hm) ?_ ?_
    · rintro m ⟨-, call, hcall, -, hprogress⟩
      exact ⟨call, hcall, .inl hprogress⟩
    · rintro m ⟨hdispatched, hstands⟩
      rcases checkpoint_step (e.step m) (hkept m) hstands with ⟨hstands, -⟩ | hstands
      · exact .inl ⟨hstable m hdispatched, hstands⟩
      · exact .inr ⟨hstable m hdispatched, hstands⟩
    · rintro m hturns ⟨hdispatched, hstands⟩
      rcases checkpoint_step (e.step m) (hkept m) hstands with ⟨-, hnot⟩ | hstands
      · exact absurd hturns hnot
      · exact ⟨hstable m hdispatched, hstands⟩
  -- has been handed its event, and returns.
  have hsecond : LeadsTo
      (fun m => (n < m ∧ (e.states m).manager.dispatched_for ud) ∧
        (e.states m).stands id ud .receiving)
      (fun m => (e.states m).stands id ud .returned) := by
    refine LeadsTo.of_action ((hfair.resumes id).mono ?_ fun m hm => hm) ?_ ?_
    · rintro m ⟨⟨hm, hdispatched⟩, call, hcall, rfl, hprogress⟩
      obtain ⟨event, -, -, hitem⟩ := hhears m hm call hcall (.inr hprogress) hdispatched
      exact ⟨call, hcall, .inr ⟨hprogress, by rw [hitem]; rfl⟩⟩
    · rintro m ⟨hdispatched, hstands⟩
      rcases receiving_step (e.step m) (hkept m) hstands with ⟨hstands, -⟩ | hreturned
      · exact .inl ⟨hstable m hdispatched, hstands⟩
      · exact .inr hreturned
    · rintro m hturns ⟨hdispatched, hstands⟩
      rcases receiving_step (e.step m) (hkept m) hstands with ⟨-, hnot⟩ | hreturned
      · exact absurd hturns hnot
      · exact hreturned
  rintro m ⟨hm, hdispatched, hcheckpoint | hreceiving⟩
  · exact hfirst.trans hsecond m ⟨⟨hm, hdispatched⟩, hcheckpoint⟩
  · exact hsecond m ⟨⟨hm, hdispatched⟩, hreceiving⟩

/-- A call that listens returns, if its operation ends. -/
theorem waits_leads_to_returned {n : Nat} {ud : UInt64} (hhears : ∀ m, n < m → ∀ call,
    (e.states m).manager.calls id = some call → (e.states m).manager.hears call)
    (hfinishes : Finishes e ud) : LeadsTo (fun m => n < m ∧ (e.states m).waits id ud)
      (fun m => (e.states m).stands id ud .returned) := by
  rintro m ⟨hm, hwaits⟩
  -- The operation it waits for,
  obtain ⟨call, hcall, hdata, hwaiting⟩ := hwaits.call
  have hreturned := (hs.inv m).own id call hcall hwaiting
  have hawaited := (hs.inv m).awaits id call hcall hwaiting
  rw [hdata] at hreturned hawaited
  obtain ⟨entry, hentry, rfl, hnot⟩ := pushed_of_returned hreturned
  -- once consumed, leads to its event, and the event to the end of the call.
  have hunless : Unless (fun m => n < m ∧ (e.states m).waits id entry.user_data)
      (fun m => (e.states m).stands id entry.user_data .returned) := by
    rintro m ⟨hm, hwaits⟩
    exact (waits_unless_returned hkept _ m hwaits).imp_left fun h => ⟨Nat.lt_succ_of_lt hm, h⟩
  have hdispatched := (consumed_leads_to_dispatched hs hfair hnot hawaited hfinishes).unless hunless
  have hend : LeadsTo (fun m => entry ∈ (e.states m).world.consumed ∧
      (n < m ∧ (e.states m).waits id entry.user_data))
      (fun m => (e.states m).stands id entry.user_data .returned) :=
    hdispatched.or_trans fun m hm => dispatched_leads_to_returned hfair hkept hhears m
      ⟨hm.2.1, hm.1, hm.2.2⟩
  obtain ⟨k, hk, ⟨hconsumed, hwaits⟩ | hdone⟩ :=
    pushed_leads_to_consumed hs hfair hkept hnot m ⟨hentry, hwaits⟩
  · obtain ⟨k', hk', hdone⟩ := hend k ⟨hconsumed, Nat.lt_of_lt_of_le hm hk, hwaits⟩
    exact ⟨k', Nat.le_trans hk hk', hdone⟩
  · exact ⟨k, hk, hdone⟩

end progress

/-- **Which calls return**: in a session that goes on for ever, in which
    everybody does what they can do sooner or later, a call of
    `wait_for_completion` that is not cancelled, and whose operation ends,
    returns exactly when its event is not dispatched before it begins or while
    it is at its checkpoint. -/
theorem call_returns_iff (hs : Steady awaited e) (hfair : Fair e) {n : Nat} {id : CallId}
    {ud : UInt64} {answer : Enter}
    (hcall : e.labels n = .manager (.wait_for_completion id ud answer))
    (hkept : ∀ m, e.labels m ≠ .manager (.cancel id)) (hfinishes : Finishes e ud) :
    (∃ m, n < m ∧ (e.states m).stands id ud .returned) ↔
      ¬(e.states n).manager.dispatched_for ud ∧
        ∀ m, n < m → (e.states m).comes_to ud (e.labels m) →
          ¬(e.states m).stands id ud .checkpoint := by
  constructor
  · rintro ⟨m, hm, hreturned⟩
    exact ⟨new_of_returned hs hkept hcall hm hreturned, fun k _ =>
      in_time_of_returned hs hkept hcall hreturned⟩
  · rintro ⟨hnew, hin_time⟩
    have hhears : ∀ m, n < m → ∀ call, (e.states m).manager.calls id = some call →
        (e.states m).manager.hears call := fun m => call_hears hs hkept hcall hnew hin_time
    obtain ⟨m, hm, hreturned⟩ := waits_leads_to_returned hs hfair hkept hhears hfinishes (n + 1)
      ⟨Nat.lt_succ_self n, .inl (call_stands hs hcall)⟩
    exact ⟨m, hm, hreturned⟩

/-! ### A session -/

/-- The read of `sleeping_read` ends: the dispatcher hands over its completion,
    and the loop goes to sleep again. -/
def read_ends : List LoopLabel :=
  [.manager (.ring (.kernel (.complete 0 16))), .wake, .manager (.reap []), .manager .dispatch,
    .manager (.resume 0), .before_io_wait (.ok 0)]

def parked_read : List LoopLabel := sleeping_read ++ read_ends

theorem parked_read_trace : trace_of run parked_read fresh =
    trace_of run sleeping_read fresh ++ trace_of run read_ends (sleeping_read.foldl run fresh) :=
  rfl

theorem parked_read_allowed :
    ∀ t ∈ trace_of run parked_read fresh, (loop_system .trio _).step t.src t.label t.dst := by
  have hawake : ∀ {P : Prop}, false = true → P := fun h => absurd h Bool.false_ne_true
  rw [parked_read_trace, List.forall_mem_append]
  refine ⟨fun t => sleeping_read_path.step_of_mem, ?_⟩
  exact List.forall_mem_cons.mpr ⟨⟨⟨Or.inl rfl, fun _ => ⟨_, rfl⟩⟩, rfl⟩,
    List.forall_mem_cons.mpr ⟨⟨rfl, rfl⟩,
    List.forall_mem_cons.mpr ⟨⟨⟨⟨rfl, by decide, rfl⟩, hawake⟩, rfl⟩,
    List.forall_mem_cons.mpr ⟨⟨⟨List.cons_ne_nil _ _, hawake⟩, rfl⟩,
    List.forall_mem_cons.mpr ⟨⟨⟨⟨rfl, _, rfl, Or.inr ⟨rfl, rfl⟩⟩, hawake⟩, rfl⟩,
    List.forall_mem_singleton.mpr ⟨⟨rfl, rfl⟩, rfl⟩⟩⟩⟩⟩⟩

theorem parked_read_orderly :
    ∀ t ∈ trace_of run parked_read fresh, t.src.Orderly (fun _ => True) t.label := by
  have hnone : ∀ {α : Type} {P : α → Prop} (a : α), none = some a → P a := fun _ h => by cases h
  have hsome : ∀ {α : Type} {P : α → Prop} {b : α}, P b → ∀ a, some b = some a → P a :=
    fun h a heq => Option.some.inj heq ▸ h
  rw [parked_read_trace, List.forall_mem_append]
  refine ⟨sleeping_read_orderly, ?_⟩
  refine List.forall_mem_cons.mpr ⟨orderly_quiet rfl ?kernel (hsome ?answers) rfl hnone,
    List.forall_mem_cons.mpr ⟨⟨hnone, fun _ _ _ _ => trivial, hnone⟩,
    List.forall_mem_cons.mpr ⟨orderly_quiet rfl ?reap (hsome trivial) rfl hnone,
    List.forall_mem_cons.mpr ⟨orderly_quiet rfl ?dispatch hnone rfl hnone,
    List.forall_mem_cons.mpr ⟨orderly_quiet rfl ?resumed hnone rfl hnone,
    List.forall_mem_singleton.mpr
      (orderly_quiet rfl ?again (hsome trivial) rfl (hsome ?none))⟩⟩⟩⟩⟩
  case none => exact ⟨0, rfl, fun _ => by decide⟩
  case answers => decide
  -- Nobody but the dispatcher reaps the ring.
  all_goals
    intro bursts h
    cases h

/-- From time to time the loop looks whether there is anything to do. -/
def idle_loop (n : Nat) : LoopLabel := if n % 2 = 0 then .wake else .before_io_wait (.ok 0)

/-- Nothing happens after the read. -/
def parked_labels : Nat → LoopLabel := followed_by parked_read idle_loop

/-- What is left when the read has returned. -/
structure Idle (s : EventLoop (rendezvous CompletionEvent)) (n : Nat) : Prop where
  asleep : s.asleep = (n % 2 == 0)
  instrumented : s.instrumented = true
  reaped : s.manager.reaped = []
  efd : s.manager.efd = 0
  calls : s.manager.calls = (parked_read.foldl run fresh).manager.calls
  is_open : s.world.is_open = true
  pending : s.world.pending = []
  running : s.world.running = []
  overflow : s.world.kernel.overflow = []

theorem Idle.wake {s : EventLoop (rendezvous CompletionEvent)} {n : Nat} (h : s.Idle n)
    (heven : n % 2 = 0) : (s.run .wake).Idle (n + 1) := by
  refine ⟨?_, h.instrumented, h.reaped, h.efd, h.calls, h.is_open, h.pending, h.running,
    h.overflow⟩
  show false = ((n + 1) % 2 == 0)
  rw [Nat.add_mod, heven]
  rfl

/-- The instrument submits the ring. -/
theorem before_io_wait_manager {s : EventLoop S} (h : s.instrumented = true) (answer : Enter) :
    (s.run (.before_io_wait answer)).manager = s.manager.use_ring (.submit answer) := by
  show (s.before_io_wait answer).manager = _
  rw [EventLoop.before_io_wait, if_pos h]

theorem use_ring_submit (m : UringIoManager S) (k : Nat) :
    (m.use_ring (.submit (.ok k))).py.world = m.py.world.consume k :=
  submit_state (.ok k) m.py.world

theorem Idle.before_io_wait {s : EventLoop (rendezvous CompletionEvent)} {n : Nat} (h : s.Idle n)
    (hodd : n % 2 = 1) : (s.run (.before_io_wait (.ok 0))).Idle (n + 1) := by
  show (s.before_io_wait (.ok 0)).Idle (n + 1)
  rw [EventLoop.before_io_wait, if_pos h.instrumented]
  have hworld : (s.manager.use_ring (.submit (.ok 0))).py.world = s.world.consume 0 :=
    use_ring_submit s.manager 0
  have hsame := s.world.consume_sameProcess 0
  refine ⟨?_, ?_, h.reaped, ?_, h.calls, ?_, ?_, ?_, ?_⟩
  · show true = ((n + 1) % 2 == 0)
    rw [Nat.add_mod, hodd]
    rfl
  · show (submit (.ok 0) s.world).1.toOption.isSome = true
    rw [submit, Fallible.run_bind_ok (require_open_of_open h.is_open)]
    rfl
  · show s.manager.efd + ((s.manager.use_ring (.submit (.ok 0))).py.world.kernel.posted.length -
      s.world.kernel.posted.length) = 0
    rw [hworld, World.consume_posted, h.efd, Nat.sub_self]
  all_goals
    unfold world
    dsimp only
    rw [hworld]
  · rw [hsame.is_open]
    exact h.is_open
  · rw [World.consume_pending, h.pending]
    rfl
  · rw [World.consume_running, h.running, h.pending]
    rfl
  · rw [World.consume_overflow]
    exact h.overflow

/-- After the read the session is idle. -/
theorem parked_idle (n : Nat) :
    (unroll run idle_loop (parked_read.foldl run fresh) n).Idle n := by
  induction n with
  | zero => exact ⟨rfl, rfl, rfl, rfl, rfl, rfl, rfl, rfl, rfl⟩
  | succ n ih =>
    rw [unroll]
    rcases Nat.mod_two_eq_zero_or_one n with heven | hodd
    · rw [show idle_loop n = .wake from if_pos heven]
      exact ih.wake heven
    · rw [show idle_loop n = .before_io_wait (.ok 0) from if_neg (by omega)]
      exact ih.before_io_wait hodd

theorem Idle.allowed {s : EventLoop (rendezvous CompletionEvent)} {n : Nat} (h : s.Idle n) :
    s.allowed (idle_loop n) := by
  unfold idle_loop
  split
  · next heven =>
    show s.asleep = true
    rw [h.asleep, heven]
    rfl
  · next hodd =>
    refine ⟨?_, h.reaped⟩
    rw [h.asleep]
    simpa using hodd

theorem Idle.orderly {s : EventLoop (rendezvous CompletionEvent)} {n : Nat} (h : s.Idle n) :
    s.Orderly (fun _ => True) (idle_loop n) := by
  unfold idle_loop
  split
  · refine ⟨?_, fun _ _ _ _ => trivial, ?_⟩
    · intro l hl
      cases hl
    · intro a ha
      cases ha
  · next hodd =>
    refine orderly_quiet (if_pos h.instrumented) ?_ ?_ ?_ ?_
    · intro bursts hl
      cases hl
    · intro l hl
      obtain rfl := Option.some.inj hl
      trivial
    · have hnext := (h.before_io_wait (by omega)).overflow
      rwa [world, before_io_wait_manager h.instrumented] at hnext
    · intro a ha
      rw [submits, if_pos h.instrumented] at ha
      obtain rfl := Option.some.inj ha
      exact ⟨0, rfl, fun _ => by rw [h.pending]; exact Nat.le_refl 0⟩

/-- An idle session uses up no user data. -/
theorem Idle.quiet {s : EventLoop (rendezvous CompletionEvent)} {n : Nat} (h : s.Idle n) :
    ∀ t ∈ UringIoManager.ring_trace (manager_step ⟨s, idle_loop n, s.run (idle_loop n)⟩),
      ¬allocates t = true := by
  unfold idle_loop
  split
  · intro t ht
    cases ht
  · have hlabel : s.manager_label (.before_io_wait (.ok 0)) = some (.ring (.submit (.ok 0))) :=
      if_pos h.instrumented
    unfold manager_step
    rw [hlabel]
    intro t ht
    obtain rfl := List.mem_singleton.mp ht
    have hcounter := (s.world.consume_sameProcess 0).user_data_counter
    simp only [allocates]
    rw [before_io_wait_manager h.instrumented, use_ring_submit, bne_iff_ne, not_not]
    exact hcounter

/-- The session of the read. -/
def parked_session : Execution (loop_system .trio (rendezvous CompletionEvent)) :=
  .of_run run parked_labels fresh fun n => by
    refine ⟨?_, rfl⟩
    exact forall_unroll run (P := fun s l => s.allowed l)
      (fun t ht => (parked_read_allowed t ht).1) (fun n => (parked_idle n).allowed) n

/-- The session is idle from the tenth moment on. -/
theorem parked_session_idle (n : Nat) : (parked_session.states (n + 10)).Idle n := by
  have hstates : parked_session.states (n + 10) =
      unroll run idle_loop (parked_read.foldl run fresh) n :=
    unroll_followed_by run parked_read idle_loop fresh n
  rw [hstates]
  exact parked_idle n

theorem parked_session_allocations (n : Nat) :
    allocations (ring (parked_session.trace (n + 10))) = 1 := by
  induction n with
  | zero => decide
  | succ n ih =>
    show allocations (ring (parked_session.trace (n + 10) ++ [parked_session.nth (n + 10)])) = 1
    have hquiet : ∀ t ∈ UringIoManager.ring_trace (manager_step (parked_session.nth (n + 10))),
        ¬allocates t = true := (parked_session_idle n).quiet
    rw [ring_snoc, allocations, List.countP_append, List.countP_eq_zero.mpr hquiet, Nat.add_zero]
    exact ih

theorem parked_session_steady : Steady (fun _ => True) parked_session where
  init := fresh_init
  bound := forall_moments 10 (by decide) fun n => by
    rw [parked_session_allocations]
    decide
  orderly := fun n => forall_unroll run (P := fun s l => s.Orderly (fun _ => True) l)
    parked_read_orderly
    (fun n => (parked_idle n).orderly) n
  own := by
    intro n
    induction n with
    | zero => trivial
    | succ n ih =>
      rw [Execution.trace]
      refine waits_for_own_snoc.mpr ⟨ih, ?_⟩
      revert n
      refine forall_moments 10 (fun n hn _ => ?_) fun n _ id ud a hl => ?_
      · -- Only the second step begins a call.
        interval_cases n <;> intro id ud a hl <;> cases hl
        decide
      · change idle_loop n = _ at hl
        unfold idle_loop at hl
        split at hl <;> cases hl
  is_open := forall_moments 10 (by decide) fun n => (parked_session_idle n).is_open

/-- There is one call. -/
theorem parked_session_one (n : Nat) (id : CallId) :
    (parked_session.states n).manager.calls (id + 1) = none := by
  revert n
  refine forall_moments 10 (fun n hn => ?_) fun n => ?_
  · interval_cases n <;> rfl
  · rw [(parked_session_idle n).calls]
    rfl

/-- It returns in the ninth step. -/
theorem parked_session_returned {n : Nat} (hn : 9 ≤ n) {call : Call (rendezvous CompletionEvent)}
    (hcall : (parked_session.states n).manager.calls 0 = some call) :
    call.progress = .returned := by
  have hdone : ∀ n, (parked_session.states (n + 9)).manager.calls 0 =
      some ⟨0, (false, some ⟨0, 16, some (List.replicate 16 0)⟩), .returned⟩ := by
    intro n
    cases n with
    | zero => rfl
    | succ n =>
      show (parked_session.states (n + 10)).manager.calls 0 = _
      rw [(parked_session_idle n).calls]
      rfl
  obtain ⟨k, rfl⟩ := Nat.exists_eq_add_of_le' hn
  obtain rfl := Option.some.inj ((hdone k).symm.trans hcall)
  rfl

theorem parked_session_fair : Fair parked_session where
  waits := fun n => by
    refine ⟨2 * n + 1 + 10, by omega, .ok 0, ?_⟩
    exact if_neg (by omega)
  polls := fun hpoll => absurd hpoll (by decide)
  reads := by
    refine forall_moments 10 (fun n hn hefd => ⟨6, ?_, [], rfl⟩) fun n hefd => ?_
    · revert n
      decide
    · exact absurd (parked_session_idle n).efd hefd
  dispatches := by
    refine forall_moments 10 (fun n hn hreaped => ⟨7, ?_, rfl⟩) fun n hreaped => ?_
    · revert n
      decide
    · exact absurd (parked_session_idle n).reaped hreaped
  resumes := by
    intro id n hn
    obtain ⟨call, hcall, hprogress⟩ := hn
    cases id with
    | succ id => rw [parked_session_one] at hcall; cases hcall
    | zero =>
      by_cases hle : n ≤ 8
      · exact ⟨8, hle, .inl rfl⟩
      · rw [parked_session_returned (by omega) hcall] at hprogress
        rcases hprogress with h | ⟨h, -⟩ <;> cases h

theorem parked_session_finishes (ud : UInt64) : Finishes parked_session ud := by
  intro entry _ _ n _
  refine ⟨n + 10, Nat.le_add_right n 10, ?_⟩
  show entry ∉ (parked_session.states (n + 10)).world.running
  rw [(parked_session_idle n).running]
  exact List.not_mem_nil

/-- Nobody cancels the call. -/
theorem parked_session_kept (n : Nat) : parked_session.labels n ≠ .manager (.cancel 0) := by
  revert n
  refine forall_moments 10 (fun n hn hl => ?_) fun n hl => ?_
  · interval_cases n <;> cases hl
  · change idle_loop n = _ at hl
    unfold idle_loop at hl
    split at hl <;> cases hl

/-- The call is at its checkpoint at one moment only. -/
theorem parked_session_checkpoint {m : Nat} (hm : 1 < m)
    (h : (parked_session.states m).stands 0 0 .checkpoint) : m = 2 := by
  obtain ⟨call, hcall, -, hprogress⟩ := h
  rcases Nat.lt_or_ge m 9 with hlt | hle
  · interval_cases m
    · rfl
    all_goals
      obtain rfl := Option.some.inj hcall
      cases hprogress
  · rw [parked_session_returned hle hcall] at hprogress
    cases hprogress

/-- The call of the read, which is resumed before the dispatcher runs, returns. -/
theorem call_returns_iff_parked :
    ∃ m, 1 < m ∧ (parked_session.states m).stands 0 0 .returned := by
  refine (call_returns_iff parked_session_steady parked_session_fair rfl parked_session_kept
    (parked_session_finishes 0)).mpr ⟨?_, ?_⟩
  · rintro ⟨event, hmem, -⟩
    cases hmem
  · intro m hm hcomes hstands
    obtain rfl := parked_session_checkpoint hm hstands
    obtain ⟨l', hl, event, hmem, -⟩ := hcomes
    obtain rfl := Option.some.inj hl
    cases hmem

end EventLoop

end CenturyRing
