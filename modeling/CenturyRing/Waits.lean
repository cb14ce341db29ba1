import CenturyRing.Dispatch

/-! # Waiting for completions

  The docstring of `wait_for_completion` promises the completion of its user
  data to a call that is not cancelled. The dispatcher keeps that promise for a
  call that has joined the waiting receivers. It drops the event of a call that
  is still in its checkpoint, and that of a call that is yet to be made; the
  theorems say so for every run.
-/

open LTS

namespace CenturyRing

namespace UringIoManager

variable {S : MemoryObjectStream CompletionEvent} {m m' : UringIoManager S}
         {event : CompletionEvent} {rest : List CompletionEvent}

/-! ### Calls and the events they are handed -/

theorem SameCalls.handed (h : SameCalls m m') (call : Call S) : m'.handed call ↔ m.handed call := by
  unfold UringIoManager.handed
  rw [h.dispatched]

theorem SameCalls.dispatched_for (h : SameCalls m m') (user_data : UInt64) :
    m'.dispatched_for user_data ↔ m.dispatched_for user_data := by
  unfold UringIoManager.dispatched_for
  rw [h.dispatched]

theorem not_handed {call : Call S} (h : S.item call.stream = none) : ¬m.handed call := by
  intro hpair
  obtain ⟨event, -, -, hitem⟩ := hpair
  cases h.symm.trans hitem

theorem Inv.not_handed_checkpoint (hinv : m.Inv) {id : CallId} {call : Call S}
    (hcall : m.calls id = some call) (hprogress : call.progress = .checkpoint) :
    ¬m.handed call := by
  apply not_handed
  rw [hinv.checkpoint id call hcall hprogress]
  exact S.item_create

/-- A call that has its event keeps it. -/
theorem Inv.handed_dispatch (hinv : m.Inv) (h : m.reaped = event :: rest) {id : CallId}
    {call : Call S} (hcall : m.calls id = some call) (hwaiting : call.waiting)
    (hhanded : m.handed call) : m.dispatch.calls id = some call ∧ m.dispatch.handed call := by
  have hunsent : ¬m.sends_to event id := fun hsends =>
    not_handed ((hinv.toPaired.sends_to hcall hsends).2 hwaiting) hhanded
  obtain ⟨event', hmem, hrest⟩ := hhanded
  refine ⟨(dispatch_calls_unsent h hunsent).trans hcall, event', ?_, hrest⟩
  rw [dispatch_dispatched h]
  exact List.mem_append_left _ hmem

/-- A call that has its event after the dispatch of that event had joined the
    waiting receivers before. -/
theorem Inv.of_handed_dispatch (hinv : m.Inv) (h : m.reaped = event :: rest) {id : CallId}
    {call' : Call S} (hcall' : m.dispatch.calls id = some call') (hwaiting : call'.waiting)
    (hself : call'.user_data = event.user_data) (hhanded : m.dispatch.handed call') :
    call'.progress = .receiving ∧ event.should_be_ignored = false := by
  obtain ⟨event', -, hdata, hitem⟩ := hhanded
  have hevent := (hinv.dispatch h).item id call' event' hcall' hwaiting hitem
  constructor
  · rcases hwaiting with hprogress | hprogress
    · have hcreate := (hinv.dispatch h).checkpoint id call' hcall' hprogress
      rw [hcreate] at hitem
      cases hitem.symm.trans S.item_create
    · exact hprogress
  · -- Whether an event is ignored is written in its user data.
    have hsame : event'.should_be_ignored = event.should_be_ignored := by
      unfold CompletionEvent.should_be_ignored
      rw [hdata, hself]
    rw [← hsame]
    exact hevent.2.2

/-- A call that has joined the waiting receivers is handed its event, unless it
    has got one already. -/
theorem Inv.hands (hinv : m.Inv) (h : m.reaped = event :: rest) {id : CallId}
    {call : Call S} (hcall : m.calls id = some call) (hprogress : call.progress = .receiving)
    (hself : call.user_data = event.user_data) (hignored : event.should_be_ignored = false)
    (hbefore : m.dispatched_for call.user_data → m.handed call) :
    ∃ call', m.dispatch.calls id = some call' ∧ m.dispatch.handed call' := by
  rcases hinv.waits id call hcall (Or.inr hprogress) with hstored | hdispatched
  -- Its sender is stored, so the event is handed to it.
  · have hsends : m.sends_to event id := ⟨hignored, by rw [← hself]; exact hstored⟩
    have hcall' : m.dispatch.calls id = some (call.send_nowait event) := by
      rw [dispatch_calls_sent h hsends, hcall]
      rfl
    rcases hinv.toPaired.sent hcall (Or.inr hprogress) hsends with ⟨hcheckpoint, -⟩ | ⟨-, hitem⟩
    · cases hprogress.symm.trans hcheckpoint
    · refine ⟨_, hcall', event, ?_, ?_, hitem⟩
      · rw [dispatch_dispatched h]
        exact List.mem_append_right _ (List.mem_singleton_self event)
      · rw [Call.send_nowait_user_data]
        exact hself.symm
  · exact ⟨call, hinv.handed_dispatch h hcall (Or.inr hprogress) (hbefore hdispatched)⟩

/-! ### Calls that wait -/

/-- Every waiting call has its sender stored and its event has not been
    dispatched, or it has been handed its event. -/
def none_lost (m : UringIoManager S) : Prop :=
  ∀ id call, m.calls id = some call → call.waiting →
    m._completion_waiters call.user_data = some id ∧ ¬m.dispatched_for call.user_data ∨
      m.handed call

/-- The step is not one that loses an event: no call begins behind its event,
    and the dispatcher comes to no event of a call that has not joined the
    waiting receivers. -/
def loses_none (m : UringIoManager S) : ManagerLabel → Prop
  | .wait_for_completion _ user_data answer => m.registers answer → ¬m.dispatched_for user_data
  | .dispatch => ∀ event, m.reaped.head? = some event →
      ∀ id call, m.calls id = some call → call.waiting → call.user_data = event.user_data →
        call.progress = .receiving ∧ event.should_be_ignored = false
  | _ => True

/-- Every waiting call whose event has been dispatched has it. -/
def all_handed (m : UringIoManager S) : Prop :=
  ∀ id call, m.calls id = some call → call.waiting → m.dispatched_for call.user_data →
    m.handed call

theorem Inv.none_lost_iff (hinv : m.Inv) : m.none_lost ↔ m.all_handed := by
  constructor
  · intro h id call hcall hwaiting hdispatched
    exact (h id call hcall hwaiting).resolve_left fun hstored => hstored.2 hdispatched
  · intro h id call hcall hwaiting
    by_cases hdispatched : m.dispatched_for call.user_data
    · exact Or.inr (h id call hcall hwaiting hdispatched)
    · exact Or.inl ⟨(hinv.waits id call hcall hwaiting).resolve_right hdispatched, hdispatched⟩

theorem SameCalls.all_handed (h : SameCalls m m') (hall : m.all_handed) : m'.all_handed := by
  intro id call hcall hwaiting hdispatched
  rw [h.calls] at hcall
  exact (h.handed call).mpr (hall id call hcall hwaiting ((h.dispatched_for _).mp hdispatched))

theorem all_handed_set_call (hall : m.all_handed) {id : CallId} {new : Call S}
    (hnew : new.waiting → ¬m.dispatched_for new.user_data) :
    (m.set_call id new).all_handed := by
  intro other call hcall hwaiting hdispatched
  rcases set_call_some hcall with ⟨-, rfl⟩ | ⟨-, hold⟩
  · exact absurd hdispatched (hnew hwaiting)
  · exact hall other call hold hwaiting hdispatched

/-- A new call is lost from the start if its event has been dispatched. -/
theorem all_handed_register (hall : m.all_handed) (id : CallId) (user_data : UInt64) :
    (m.register id user_data).all_handed ↔ ¬m.dispatched_for user_data := by
  constructor
  · intro hall' hdispatched
    have hcall : (m.register id user_data).calls id = some ⟨user_data, S.create, .checkpoint⟩ :=
      (set_call_calls m id id _).trans (if_pos rfl)
    exact not_handed S.item_create (hall' id _ hcall (Or.inl rfl) hdispatched)
  · intro hnew
    exact all_handed_set_call hall fun _ => hnew

theorem Inv.all_handed_dispatch (hinv : m.Inv) (hall : m.all_handed)
    (h : m.reaped = event :: rest) : m.dispatch.all_handed ↔ m.loses_none .dispatch := by
  constructor
  · intro hall' event' hhead id call hcall hwaiting hself
    rw [h] at hhead
    cases hhead
    -- After the dispatch the call still waits, so it has the event.
    obtain ⟨call', hcall', hdata, hprogress⟩ := dispatch_of_some h hcall
    have hwaiting' : call'.waiting := by
      unfold Call.waiting
      rwa [hprogress]
    have hself' : call'.user_data = event.user_data := hdata.trans hself
    have hhanded := hall' id call' hcall' hwaiting'
      ((dispatched_for_dispatch h _).mpr (Or.inr hself'.symm))
    rw [← hprogress]
    exact hinv.of_handed_dispatch h hcall' hwaiting' hself' hhanded
  · intro hloses id call' hcall' hwaiting' hdispatched
    obtain ⟨call, hcall, hdata, hprogress⟩ := dispatch_some_same h hcall'
    have hwaiting : call.waiting := by
      unfold Call.waiting
      rwa [← hprogress]
    have hbefore := hall id call hcall hwaiting
    by_cases hself : call.user_data = event.user_data
    · obtain ⟨hreceiving, hignored⟩ :=
        hloses event (by rw [h]; rfl) id call hcall hwaiting hself
      obtain ⟨call'', hcall'', hhanded⟩ := hinv.hands h hcall hreceiving hself hignored hbefore
      cases hcall'.symm.trans hcall''
      exact hhanded
    · -- The event is for others.
      rw [hdata, dispatched_for_dispatch h] at hdispatched
      have hhanded := hbefore (hdispatched.resolve_right (Ne.symm hself))
      obtain ⟨hcall'', hhanded'⟩ := hinv.handed_dispatch h hcall hwaiting hhanded
      cases hcall'.symm.trans hcall''
      exact hhanded'

/-- **Step lemma**: a step loses no event exactly when it meets the condition. -/
theorem Inv.all_handed_step (hinv : m.Inv) (hall : m.all_handed) {l : ManagerLabel}
    (hstep : (manager_system S).step m l m') : m'.all_handed ↔ m.loses_none l := by
  have hstepped := step_stepped hstep
  clear hstep
  cases hstepped with
  | ring l => exact iff_of_true ((m.use_ring_sameCalls l).all_handed hall) trivial
  | reap bursts => exact iff_of_true ((m.reap_sameCalls bursts).all_handed hall) trivial
  | registered id user_data answer submitted hnew hsame hregisters =>
    rw [all_handed_register (hsame.all_handed hall), hsame.dispatched_for]
    exact ⟨fun hnew _ => hnew, fun hnew => hnew hregisters⟩
  | failed id user_data answer submitted hnew hsame hregisters =>
    refine iff_of_true (all_handed_set_call (hsame.all_handed hall) ?_)
      fun h => absurd h hregisters
    intro hfailed
    exact absurd hfailed (Call.not_waiting nofun nofun)
  | receiving id call hcall hprogress =>
    -- The call goes on to receive, and nothing for it has been dispatched.
    refine iff_of_true (all_handed_set_call hall ?_) trivial
    intro _ hdispatched
    exact hinv.not_handed_checkpoint hcall hprogress
      (hall id call hcall (Or.inl hprogress) hdispatched)
  | returned id call =>
    refine iff_of_true (all_handed_set_call hall ?_) trivial
    intro hleft
    exact absurd hleft (Call.not_waiting nofun nofun)
  | cancelled id call =>
    refine iff_of_true (all_handed_set_call hall ?_) trivial
    intro hleft
    exact absurd hleft (Call.not_waiting nofun nofun)
  | dispatched event rest hreaped => exact hinv.all_handed_dispatch hall hreaped

/-- **No completion of a waiting call is lost**, in any state of a run, exactly
    when every step of the run meets the condition. -/
theorem no_completion_lost_iff {m₀ m : UringIoManager S}
    {tr : List (Step (UringIoManager S) ManagerLabel)} (hinit : (manager_system S).init m₀)
    (h : Path (manager_system S) m₀ tr m) :
    (∀ t ∈ tr, t.dst.none_lost) ↔ ∀ t ∈ tr, t.src.loses_none t.label := by
  refine h.good_iff (I := Inv) (G := none_lost) (fun s l s' hs hl => hs.step hl) ?_
    (.initial hinit) ?_
  · intro s l s' hs hall hl
    rw [(hs.step hl).none_lost_iff]
    exact hs.all_handed_step (hs.none_lost_iff.mp hall) hl
  · intro id call hcall
    rw [hinit.2.2.2.1] at hcall
    cases hcall

/-! ### A manager on which nothing has happened -/

/-- It is started without `force_submissions`, on a ring for two entries. -/
def fresh : UringIoManager (rendezvous CompletionEvent) where
  py := .fresh 2 0
  efd := 0
  _force_submissions := false
  _completion_waiters := fun _ => none
  calls := fun _ => none
  reaped := []
  dispatched := []

theorem fresh_manager_initial : (manager_system (rendezvous CompletionEvent)).init fresh :=
  ⟨fresh_initial, rfl, rfl, rfl, rfl, rfl⟩

/-- A task prepares a read. -/
def prepared : ManagerLabel := .ring (.prep (.read (.int 3) 16 (-1) none) (.ok 0))

/-- The loop submits it. -/
def submitted : ManagerLabel := .ring (.submit (.ok 1))

/-- It is completed, and the dispatcher runs. -/
def completed : List ManagerLabel := [.ring (.kernel (.complete 0 16)), .reap [], .dispatch]

/-- The read is waited for, and the call joins the waiting receivers. -/
def parked_read : List ManagerLabel :=
  [prepared, .wait_for_completion 0 0 (.ok 0), submitted, .resume 0] ++ completed

theorem parked_read_path :
    Path (manager_system _) fresh (trace_of run parked_read fresh) (parked_read.foldl run fresh) := by
  refine path_of _ _ (List.forall_mem_cons.mpr ⟨⟨Or.inl rfl, rfl⟩,
    List.forall_mem_cons.mpr ⟨⟨⟨rfl, rfl, ?_⟩, rfl⟩, List.forall_mem_cons.mpr ⟨⟨Or.inl rfl, rfl⟩,
    List.forall_mem_cons.mpr ⟨⟨⟨rfl, _, rfl, Or.inl rfl⟩, rfl⟩,
    List.forall_mem_cons.mpr ⟨⟨Or.inl rfl, rfl⟩,
    List.forall_mem_cons.mpr ⟨⟨⟨rfl, by decide, rfl⟩, rfl⟩,
    List.forall_mem_singleton.mpr ⟨List.cons_ne_nil _ _, rfl⟩⟩⟩⟩⟩⟩⟩)
  intro other call hcall
  cases hcall

/-- The read that is waited for in time is not lost. -/
theorem no_completion_lost_parked :
    (parked_read.foldl run fresh).dispatched.map (·.user_data) = [0] ∧
      ∀ t ∈ trace_of run parked_read fresh, t.dst.none_lost := by
  refine ⟨by decide, ?_⟩
  refine (no_completion_lost_iff fresh_manager_initial parked_read_path).mpr
    (List.forall_mem_cons.mpr ⟨trivial, List.forall_mem_cons.mpr ⟨?_,
    List.forall_mem_cons.mpr ⟨trivial, List.forall_mem_cons.mpr ⟨trivial,
    List.forall_mem_cons.mpr ⟨trivial, List.forall_mem_cons.mpr ⟨trivial,
    List.forall_mem_singleton.mpr ?_⟩⟩⟩⟩⟩⟩)
  · intro _ hpair
    obtain ⟨event, hmem, -⟩ := hpair
    cases hmem
  · intro event hhead id call hcall _ _
    cases hhead
    -- There is one call, and it has been resumed.
    rcases set_call_some (m := (parked_read.take 3).foldl run fresh) hcall with
      ⟨-, rfl⟩ | ⟨hne, hold⟩
    · exact ⟨rfl, rfl⟩
    · rcases set_call_some (m := fresh.run prepared) hold with ⟨heq, -⟩ | ⟨-, hnone⟩
      · exact absurd heq hne
      · cases hnone

/-- The same, but the dispatcher runs before the call is resumed. -/
def overtaken_read : List ManagerLabel :=
  [prepared, .wait_for_completion 0 0 (.ok 0), submitted] ++ completed

/-- The event is lost: the call has stored its sender, and its receiver has not
    been there. -/
theorem completion_lost_in_checkpoint :
    let m := overtaken_read.foldl run fresh
    (manager_system (rendezvous CompletionEvent)).init fresh ∧
      Path (manager_system _) fresh (trace_of run overtaken_read fresh) m ∧
      m.dispatched.map (·.user_data) = [0] ∧ ¬m.none_lost := by
  refine ⟨fresh_manager_initial, path_of _ _ (List.forall_mem_cons.mpr ⟨⟨Or.inl rfl, rfl⟩,
    List.forall_mem_cons.mpr ⟨⟨⟨rfl, rfl, ?_⟩, rfl⟩, List.forall_mem_cons.mpr ⟨⟨Or.inl rfl, rfl⟩,
    List.forall_mem_cons.mpr ⟨⟨Or.inl rfl, rfl⟩,
    List.forall_mem_cons.mpr ⟨⟨⟨rfl, by decide, rfl⟩, rfl⟩,
    List.forall_mem_singleton.mpr ⟨List.cons_ne_nil _ _, rfl⟩⟩⟩⟩⟩⟩), by decide, ?_⟩
  · intro other call hcall
    cases hcall
  · intro hnone
    rcases hnone 0 ⟨0, (false, none), .checkpoint⟩ rfl (Or.inl rfl) with ⟨hstored, -⟩ | hhanded
    · cases hstored
    · exact not_handed rfl hhanded

/-! ### Calls that are yet to be made -/

/-- The assumption on the tasks that wait for `uds`: no call on one of them is
    cancelled. -/
def uncancelled (uds : List UInt64) (m : UringIoManager S) : ManagerLabel → Prop
  | .cancel id => ∀ call, m.calls id = some call → call.user_data ∉ uds
  | _ => True

/-- `user_data` is still going to be waited for: there has been no call on it
    yet, or it is pending. -/
def still_waited (m : UringIoManager S) (user_data : UInt64) : Prop :=
  ∀ id call, m.calls id = some call → call.user_data = user_data → call.waiting

/-- The event for `user_data` is held where a call can return it. -/
def held (m : UringIoManager S) (user_data : UInt64) : Prop :=
  ∃ id call, m.calls id = some call ∧ call.user_data = user_data ∧ call.waiting ∧ m.handed call

/-- No event that is still waited for has been discarded. -/
def none_discarded (uds : List UInt64) (m : UringIoManager S) : Prop :=
  ∀ user_data ∈ uds, m.still_waited user_data → m.dispatched_for user_data → m.held user_data

/-- The step is not one that discards an event: whenever the dispatcher comes
    to one that is still waited for, its call has joined the waiting
    receivers. -/
def discards_none (uds : List UInt64) (m : UringIoManager S) : ManagerLabel → Prop
  | .dispatch => ∀ event, m.reaped.head? = some event → event.user_data ∈ uds →
      m.still_waited event.user_data →
      ∃ id call, m.calls id = some call ∧ call.user_data = event.user_data ∧
        call.progress = .receiving ∧ event.should_be_ignored = false
  | _ => True

section discards

variable {uds : List UInt64}

theorem SameCalls.none_discarded (h : SameCalls m m') (hnone : m.none_discarded uds) :
    m'.none_discarded uds := by
  intro user_data hmem hstill hdispatched
  unfold still_waited at hstill
  unfold held
  simp only [h.calls, h.handed] at hstill ⊢
  exact hnone user_data hmem hstill ((h.dispatched_for user_data).mp hdispatched)

/-- A new call discards nothing. -/
theorem none_discarded_new_call (hnone : m.none_discarded uds) {id : CallId} {new : Call S}
    (hid : m.calls id = none) : (m.set_call id new).none_discarded uds := by
  intro user_data hmem hstill hdispatched
  -- The older calls are still there.
  have hold : ∀ other call, m.calls other = some call →
      (m.set_call id new).calls other = some call := by
    intro other call hcall
    have hother : other ≠ id := by
      intro heq
      obtain rfl := heq
      rw [hid] at hcall
      cases hcall
    exact ((set_call_calls m id other new).trans (if_neg hother)).trans hcall
  have hstill' : m.still_waited user_data :=
    fun other call hcall => hstill other call (hold other call hcall)
  obtain ⟨other, call, hcall, hrest⟩ := hnone user_data hmem hstill' hdispatched
  exact ⟨other, call, hold other call hcall, hrest⟩

/-- A call goes on. -/
theorem none_discarded_set_call (hnone : m.none_discarded uds) {id : CallId} {old new : Call S}
    (hid : m.calls id = some old) (hsame : new.user_data = old.user_data)
    (hnew : old.user_data ∈ uds → new.waiting → old.waiting ∧ ¬m.handed old) :
    (m.set_call id new).none_discarded uds := by
  intro user_data hmem hstill hdispatched
  have hself : old.user_data = user_data → old.waiting ∧ ¬m.handed old := by
    intro hdata
    have hwaiting := hstill id new ((set_call_calls m id id new).trans (if_pos rfl))
      (hsame.trans hdata)
    exact hnew (by rwa [hdata]) hwaiting
  have hother : ∀ other, other ≠ id → (m.set_call id new).calls other = m.calls other :=
    fun other hne => (set_call_calls m id other new).trans (if_neg hne)
  have hstill' : m.still_waited user_data := by
    intro other call hcall hdata
    by_cases heq : other = id
    · rw [heq, hid] at hcall
      cases hcall
      exact (hself hdata).1
    · exact hstill other call ((hother other heq).trans hcall) hdata
  obtain ⟨other, call, hcall, hdata, hwaiting, hhanded⟩ :=
    hnone user_data hmem hstill' hdispatched
  -- The call that holds the event is another one.
  have hne : other ≠ id := by
    intro heq
    obtain rfl := heq
    rw [hid] at hcall
    cases hcall
    exact (hself hdata).2 hhanded
  exact ⟨other, call, (hother other hne).trans hcall, hdata, hwaiting, hhanded⟩

theorem Inv.none_discarded_dispatch (hinv : m.Inv) (hnone : m.none_discarded uds)
    (h : m.reaped = event :: rest) :
    m.dispatch.none_discarded uds ↔ m.discards_none uds .dispatch := by
  have hstill : ∀ user_data, m.dispatch.still_waited user_data ↔ m.still_waited user_data := by
    intro user_data
    constructor
    · intro hstill id call hcall hdata
      obtain ⟨call', hcall', hdata', hprogress⟩ := dispatch_of_some h hcall
      have hwaiting := hstill id call' hcall' (hdata'.trans hdata)
      unfold Call.waiting at hwaiting ⊢
      rwa [← hprogress]
    · intro hstill id call' hcall' hdata
      obtain ⟨call, hcall, hdata', hprogress⟩ := dispatch_some_same h hcall'
      have hwaiting := hstill id call hcall (hdata'.symm.trans hdata)
      unfold Call.waiting at hwaiting ⊢
      rwa [hprogress]
  constructor
  · intro hnone' event' hhead hmem hwaited
    rw [h] at hhead
    cases hhead
    have hdispatched := (dispatched_for_dispatch h event.user_data).mpr (Or.inr rfl)
    obtain ⟨id, call', hcall', hself, hwaiting, hhanded⟩ :=
      hnone' _ hmem ((hstill _).mpr hwaited) hdispatched
    obtain ⟨call, hcall, hdata, hprogress⟩ := dispatch_some_same h hcall'
    obtain ⟨hreceiving, hignored⟩ := hinv.of_handed_dispatch h hcall' hwaiting hself hhanded
    exact ⟨id, call, hcall, hdata.symm.trans hself, hprogress.symm.trans hreceiving, hignored⟩
  · intro hdiscards user_data hmem hwaited hdispatched
    rw [hstill] at hwaited
    rw [dispatched_for_dispatch h] at hdispatched
    by_cases hbefore : m.dispatched_for user_data
    · -- A call holds an earlier event, and keeps it.
      obtain ⟨id, call, hcall, hdata, hwaiting, hhanded⟩ := hnone user_data hmem hwaited hbefore
      obtain ⟨hcall', hhanded'⟩ := hinv.handed_dispatch h hcall hwaiting hhanded
      exact ⟨id, call, hcall', hdata, hwaiting, hhanded'⟩
    · have hself := hdispatched.resolve_left hbefore
      rw [← hself] at hmem hwaited hbefore ⊢
      obtain ⟨id, call, hcall, hdata, hreceiving, hignored⟩ :=
        hdiscards event (by rw [h]; rfl) hmem hwaited
      obtain ⟨call', hcall', hhanded⟩ := hinv.hands h hcall hreceiving hdata hignored
        fun hdispatched => absurd (hdata ▸ hdispatched) hbefore
      obtain ⟨old, hold, hdata', hprogress⟩ := dispatch_some_same h hcall'
      cases hcall.symm.trans hold
      exact ⟨id, call', hcall', hdata'.trans hdata, Or.inr (hprogress.trans hreceiving), hhanded⟩

/-- **Step lemma**: a step discards no event exactly when it meets the
    condition. -/
theorem Inv.none_discarded_step (hinv : m.Inv) (hnone : m.none_discarded uds) {l : ManagerLabel}
    (hstep : ((manager_system S).restrict (uncancelled uds)).step m l m') :
    m'.none_discarded uds ↔ m.discards_none uds l := by
  obtain ⟨hkeeps, hstep⟩ := hstep
  have hstepped := step_stepped hstep
  clear hstep
  cases hstepped with
  | ring l => exact iff_of_true ((m.use_ring_sameCalls l).none_discarded hnone) trivial
  | reap bursts => exact iff_of_true ((m.reap_sameCalls bursts).none_discarded hnone) trivial
  | registered id user_data answer submitted hnew hsame =>
    rw [← hsame.calls] at hnew
    exact iff_of_true (none_discarded_new_call (hsame.none_discarded hnone) hnew) trivial
  | failed id user_data answer submitted hnew hsame =>
    rw [← hsame.calls] at hnew
    exact iff_of_true (none_discarded_new_call (hsame.none_discarded hnone) hnew) trivial
  | receiving id call hcall hprogress =>
    refine iff_of_true (none_discarded_set_call hnone hcall rfl fun _ _ => ?_) trivial
    exact ⟨Or.inl hprogress, hinv.not_handed_checkpoint hcall hprogress⟩
  | returned id call hcall =>
    refine iff_of_true (none_discarded_set_call hnone hcall rfl fun _ hleft => ?_) trivial
    exact absurd hleft (Call.not_waiting nofun nofun)
  | cancelled id call hcall =>
    refine iff_of_true (none_discarded_set_call hnone hcall rfl fun hmem => ?_) trivial
    exact absurd hmem (hkeeps call hcall)
  | dispatched event rest hreaped => exact hinv.none_discarded_dispatch hnone hreaped

/-- **No completion that is still waited for is discarded**, in any state of a
    run in which no wait for `uds` is cancelled, exactly when every step of the
    run meets the condition. -/
theorem no_completion_discarded_iff {m₀ m : UringIoManager S}
    {tr : List (Step (UringIoManager S) ManagerLabel)} (hinit : (manager_system S).init m₀)
    (h : Path ((manager_system S).restrict (uncancelled uds)) m₀ tr m) :
    (∀ t ∈ tr, t.dst.none_discarded uds) ↔ ∀ t ∈ tr, t.src.discards_none uds t.label := by
  refine h.good_iff (I := Inv) (G := none_discarded uds) ?_
    (fun s l s' hs hnone hl => hs.none_discarded_step hnone hl) (.initial hinit) ?_
  · intro s l s' hs hl
    exact hs.step hl.2
  · intro user_data _ _ hpair
    obtain ⟨event, hmem, -⟩ := hpair
    rw [hinit.2.2.2.2.2] at hmem
    cases hmem

end discards

/-- The read that is waited for in time is not discarded. -/
theorem no_completion_discarded_parked :
    (parked_read.foldl run fresh).dispatched.map (·.user_data) = [0] ∧
      ∀ t ∈ trace_of run parked_read fresh, t.dst.none_discarded [0] := by
  have hpath : Path ((manager_system _).restrict (uncancelled [0])) fresh
      (trace_of run parked_read fresh) (parked_read.foldl run fresh) := by
    apply parked_read_path.restrict
    simp [parked_read, prepared, submitted, completed, trace_of, uncancelled]
  refine ⟨by decide, ?_⟩
  refine (no_completion_discarded_iff fresh_manager_initial hpath).mpr
    (List.forall_mem_cons.mpr ⟨trivial, List.forall_mem_cons.mpr ⟨trivial,
    List.forall_mem_cons.mpr ⟨trivial, List.forall_mem_cons.mpr ⟨trivial,
    List.forall_mem_cons.mpr ⟨trivial, List.forall_mem_cons.mpr ⟨trivial,
    List.forall_mem_singleton.mpr ?_⟩⟩⟩⟩⟩⟩)
  intro event hhead _ _
  cases hhead
  exact ⟨0, ⟨0, (true, none), .receiving⟩, rfl, rfl, rfl, rfl⟩

/-- The same, but the dispatcher runs before the read is waited for. -/
def early_read : List ManagerLabel := [prepared, submitted] ++ completed

/-- The event is discarded: a call that is made now waits for ever. -/
theorem completion_discarded_before_wait :
    let m := early_read.foldl run fresh
    (manager_system (rendezvous CompletionEvent)).init fresh ∧
      Path ((manager_system _).restrict (uncancelled [0])) fresh
        (trace_of run early_read fresh) m ∧
      m.dispatched.map (·.user_data) = [0] ∧ ¬m.none_discarded [0] := by
  refine ⟨fresh_manager_initial,
    path_of _ _ (List.forall_mem_cons.mpr ⟨⟨trivial, Or.inl rfl, rfl⟩,
    List.forall_mem_cons.mpr ⟨⟨trivial, Or.inl rfl, rfl⟩,
    List.forall_mem_cons.mpr ⟨⟨trivial, Or.inl rfl, rfl⟩,
    List.forall_mem_cons.mpr ⟨⟨trivial, ⟨rfl, by decide, rfl⟩, rfl⟩,
    List.forall_mem_singleton.mpr ⟨trivial, List.cons_ne_nil _ _, rfl⟩⟩⟩⟩⟩), by decide, ?_⟩
  intro hnone
  have hstill : (early_read.foldl run fresh).still_waited 0 := by
    intro id call hcall
    cases hcall
  obtain ⟨id, call, hcall, -⟩ := hnone 0 (List.mem_singleton_self 0) hstill
    ⟨_, List.mem_singleton_self _, rfl⟩
  cases hcall

end UringIoManager

end CenturyRing
