import CenturyRing.Waits
import CenturyRing.Events

/-! # Who receives which event

  Any number of calls of `wait_for_completion`, several of which may wait on
  one user data. A later call takes the place of an earlier one in the map of
  senders; calls are cancelled and leave their senders behind. Whatever
  happens, an event goes to no call but one on its user data, and to one at
  most, and the dispatcher goes through its whole list.
-/

open LTS

namespace CenturyRing

/-! ### `raise_for_cqe` -/

/-- `raise_for_cqe`. `os.strerror` takes a C `int`. -/
def raise_for_cqe (cqe : CompletionEvent) : Except PyErr Unit :=
  if cqe.result < 0 then
    let errno := cqe.result.toInt.natAbs
    if errno < 2 ^ 31 then throw (.os_error (Int32.ofNat errno)) else throw .overflow_error
  else pure ()

/-- What `wait_for_completion` does with the event it has received. -/
def wait_result (autoraise : Bool) (cqe : CompletionEvent) : Except PyErr CompletionEvent := do
  if autoraise then
    raise_for_cqe cqe
  return cqe

theorem wait_result_raises {cqe : CompletionEvent} (hresult : -4096 < cqe.result.toInt)
    (hneg : cqe.result < 0) :
    ∃ errno : Int32, errno.toInt = -cqe.result.toInt ∧
      wait_result true cqe = .error (.os_error errno) := by
  have hlt : cqe.result.toInt < 0 := by simpa [Int32.lt_iff_toInt_lt] using hneg
  have hsmall : cqe.result.toInt.natAbs < 2 ^ 31 := by omega
  refine ⟨Int32.ofNat cqe.result.toInt.natAbs, ?_, ?_⟩
  · rw [Int32.toInt_ofNat_of_lt hsmall]
    omega
  · simp only [wait_result, raise_for_cqe, if_pos hneg, if_pos hsmall]
    rfl

theorem wait_result_returns {cqe : CompletionEvent} (hresult : ¬cqe.result < 0) :
    wait_result true cqe = .ok cqe := by
  simp only [wait_result, raise_for_cqe, if_neg hresult]
  rfl

/-! ### What the kernel posts -/

namespace World

/-- The assumption on the kernel: it posts only results of which `P` holds. -/
def posts_only (P : Int32 → Prop) (_ : World) : KernelEvent → Prop
  | .complete _ result | .fail_chain _ result => P result
  | _ => True

instance (P : Int32 → Prop) [DecidablePred P] (w : World) (ev : KernelEvent) :
    Decidable (w.posts_only P ev) :=
  match ev with
  | .complete _ result | .fail_chain _ result => inferInstanceAs (Decidable (P result))
  | .consume _ | .complete_silently _ | .write .. | .flush | .tick _ => .isTrue trivial

/-- A negative result is an error number negated, and error numbers end at
    4095. -/
def error_numbers (result : Int32) : Prop := -4096 < result.toInt

instance : DecidablePred error_numbers := fun result =>
  inferInstanceAs (Decidable (-4096 < result.toInt))

/-- All results that can be reaped satisfy `P`. -/
def results_meet (P : Int32 → Prop) (w : World) : Prop := ∀ cqe ∈ w.unreaped, P cqe.result

variable {P : Int32 → Prop} {w : World}

theorem complete_results_meet (h : w.results_meet P) (i : Nat) {result : Int32} (hP : P result) :
    (w.complete i result).results_meet P := by
  unfold complete
  split
  · exact h
  · next request _ =>
    intro cqe hcqe
    by_cases hopen : w.is_open = true
    · rw [post_unreaped (w := w.finish i) hopen, List.mem_append, List.mem_singleton] at hcqe
      rcases hcqe with hold | rfl
      · exact h cqe hold
      · exact hP
    · rw [post_closed (w := w.finish i) (Bool.eq_false_iff.mpr hopen)] at hcqe
      exact h cqe hcqe

/-- **Step lemma**: a step of the kernel that posts only such results. -/
theorem kernel_step_results_meet (h : w.results_meet P) {ev : KernelEvent}
    (hev : w.posts_only P ev) : (w.kernel_step ev).results_meet P := by
  cases ev with
  | consume k =>
    show (w.consume k).results_meet P
    unfold results_meet
    rw [consume_unreaped]
    exact h
  | complete i result => exact complete_results_meet h i hev
  | complete_silently i => exact h
  | fail_chain i result => exact complete_results_meet (w := w.cancel_rest i) h i hev
  | write i bytes =>
    show (w.write i bytes).results_meet P
    unfold write
    split <;> exact h
  | flush =>
    show w.flush.results_meet P
    unfold results_meet
    rw [flush_unreaped]
    exact h
  | tick nanos => exact h

/-- A reap takes such results, and leaves such results. -/
theorem drain_results_meet (h : w.results_meet P) {bursts : List (List KernelEvent)}
    (hmeets : drain_meets (posts_only P) bursts w) :
    (∀ cqe ∈ (drain bursts w).1, P cqe.result) ∧ (drain bursts w).2.results_meet P := by
  have hdrain := drain_invariant (C := posts_only P)
    (I := fun acc w => (∀ cqe ∈ acc, P cqe.result) ∧ w.results_meet P) ?_ ?_ hmeets [] ⟨nofun, h⟩
  · exact hdrain
  · intro acc w hpair
    obtain ⟨hacc, hw⟩ := hpair
    unfold results_meet at hw
    rw [w.drained_unreaped, List.forall_mem_append] at hw
    exact ⟨List.forall_mem_append.mpr ⟨hacc, hw.1⟩, hw.2⟩
  · intro acc w ev hpair hev
    obtain ⟨hacc, hw⟩ := hpair
    exact ⟨hacc, kernel_step_results_meet hw hev⟩

end World

/-- **Step lemma**: whatever a step does to a ring. -/
theorem Effect.results_meet {P : Int32 → Prop} {w w' : World} {es : List Entry} {cqes : List Cqe}
    (h : Effect (World.posts_only P) w es cqes w') (hw : w.results_meet P) :
    (∀ cqe ∈ cqes, P cqe.result) ∧ w'.results_meet P := by
  unfold World.results_meet at hw ⊢
  cases h with
  | quiet hquiet hcounter => exact ⟨nofun, by rwa [hquiet.unreaped]⟩
  | queued hquiet hcounter huser_data hfresh hprepared hroom =>
    exact ⟨nofun, by rwa [World.own_unreaped, World.push_unreaped, hquiet.unreaped]⟩
  | timer hquiet hcounter hroom hquiet' hcounter' =>
    exact ⟨nofun, by rwa [hquiet'.unreaped, World.push_unreaped, hquiet.unreaped]⟩
  | reaped bursts hopen hmeets => exact World.drain_results_meet hw hmeets
  | closed => exact ⟨nofun, nofun⟩
  | kernel ev hmeets => exact ⟨nofun, World.kernel_step_results_meet hw hmeets⟩

/-- **Run lemma**: all events of a run carry such results. -/
theorem events_results_meet {P : Int32 → Prop} {s₀ s : PyState} {tr : RingTrace}
    (hinit : s₀.initial) (h : Path ring_system s₀ tr s)
    (hkernel : ∀ t ∈ tr, t.label.meets (World.posts_only P) t.src) :
    ∀ event ∈ events tr, P event.result := by
  have hreaped : (∀ cqe ∈ reaped tr, P cqe.result) ∧ s.world.results_meet P := by
    -- What was reaped and what is yet to be, along the run.
    induction h with
    | nil =>
      refine ⟨nofun, ?_⟩
      unfold World.results_meet
      rw [hinit.blank.unreaped]
      exact nofun
    | @snoc tr m s' l hpath hstep ih =>
      rw [List.forall_mem_append, List.forall_mem_singleton] at hkernel
      obtain ⟨hold, hm⟩ := ih hkernel.1
      obtain rfl : s' = l.run m := hstep
      have hnew := (l.effect m hkernel.2).results_meet hm
      rw [reaped_snoc]
      exact ⟨List.forall_mem_append.mpr ⟨hold, hnew.1⟩, hnew.2⟩
  intro event hevent
  have hmem := List.mem_map_of_mem (f := fun event => (event.user_data, event.result)) hevent
  rw [events_user_data_result] at hmem
  obtain ⟨cqe, hcqe, heq⟩ := List.mem_map.mp hmem
  have hresult := hreaped.1 cqe hcqe
  rwa [(Prod.mk.inj heq).2] at hresult

namespace UringIoManager

variable {S : MemoryObjectStream CompletionEvent} {m m' : UringIoManager S}
         {tr : List (Step (UringIoManager S) ManagerLabel)}

/-! ### The ring under the manager -/

/-- What a step of the manager is for the ring. -/
def ring_step (t : Step (UringIoManager S) ManagerLabel) : RingTrace :=
  match t.src.used t.label with
  | some l => [⟨t.src.py, l, t.dst.py⟩]
  | none => []

/-- What a run of the manager is for the ring. -/
def ring_trace (tr : List (Step (UringIoManager S) ManagerLabel)) : RingTrace :=
  tr.flatMap ring_step

@[simp] theorem ring_trace_append (tr tr' : List (Step (UringIoManager S) ManagerLabel)) :
    ring_trace (tr ++ tr') = ring_trace tr ++ ring_trace tr' := List.flatMap_append

theorem ring_trace_singleton (t : Step (UringIoManager S) ManagerLabel) :
    ring_trace [t] = ring_step t := List.flatMap_singleton _ _

theorem run_py (m : UringIoManager S) (l : ManagerLabel) : (m.run l).py = (m.after_use l).py := by
  cases l with
  | ring l => rfl
  | wait_for_completion id user_data answer =>
    exact (m.wait_for_completion_sameEvents id user_data answer).py
  | resume id => exact (m.resume_sameEvents id).py
  | cancel id => exact (m.cancel_sameEvents id).py
  | reap bursts => rfl
  | dispatch => exact m.dispatch_ring.1

/-- A run of the manager is a run of the ring. -/
theorem ring_path {m₀ : UringIoManager S} (h : Path (task_system S) m₀ tr m) :
    Path ring_system m₀.py (ring_trace tr) m.py := by
  induction h with
  | nil => exact .nil
  | @snoc tr m m' l hpath hstep ih =>
    obtain ⟨-, rfl⟩ := hstep
    rw [ring_trace_append, ring_trace_singleton]
    have hpy := m.run_py l
    unfold after_use at hpy
    unfold ring_step
    -- A step of the manager is at most one step of the ring.
    cases hused : m.used l with
    | none =>
      rw [hused] at hpy
      simp only [List.append_nil]
      rw [hpy]
      exact ih
    | some l' =>
      rw [hused] at hpy
      exact .snoc l' ih hpy

/-- What the dispatcher reaps in a step comes from the ring. -/
theorem reaped_in_sublist (t : Step (UringIoManager S) ManagerLabel) :
    (reaped_in t).Sublist (events (ring_step t)) := by
  unfold reaped_in ring_step used
  cases t.label with
  | reap bursts => simp [events]
  | _ => exact List.nil_sublist _

/-- The events on the lists of the dispatcher are handed out by the ring, each
    once and in order. -/
theorem listed_sublist {m₀ : UringIoManager S} (hinit : (task_system S).init m₀)
    (h : Path (task_system S) m₀ tr m) :
    (m.dispatched ++ m.reaped).Sublist (events (ring_trace tr)) := by
  rw [dispatched_history hinit h]
  clear h
  induction tr with
  | nil => exact List.nil_sublist _
  | cons t tr ih =>
    have hcons : events (ring_trace (t :: tr)) =
        events (ring_step t) ++ events (ring_trace tr) := by simp [events, ring_trace]
    rw [hcons, List.flatMap_cons]
    exact (reaped_in_sublist t).append ih

/-- No two of them that are not ignored share their user data. -/
def told_apart (events : List CompletionEvent) : Prop :=
  ((events.filter fun event => !event.should_be_ignored).map (·.user_data)).Nodup

theorem listed_told_apart {m₀ : UringIoManager S} (hinit : (task_system S).init m₀)
    (h : Path (task_system S) m₀ tr m) (hbound : allocations (ring_trace tr) < 2 ^ 63) :
    told_apart (m.dispatched ++ m.reaped) := by
  have honce := (events_one_to_one hinit.1 (ring_path h) hbound).once
  exact honce.sublist (((listed_sublist hinit h).filter _).map _)

/-! ### What calls receive -/

/-- The event that a call receives in a step. -/
def received_in (t : Step (UringIoManager S) ManagerLabel) : List (CallId × CompletionEvent) :=
  match t.label with
  | .resume id =>
    match t.src.calls id with
    | some call =>
      if call.progress = .receiving then (S.item call.stream).toList.map fun event => (id, event)
      else []
    | none => []
  | _ => []

/-- The events received in a run, in order. -/
def received (tr : List (Step (UringIoManager S) ManagerLabel)) :
    List (CallId × CompletionEvent) :=
  tr.flatMap received_in

@[simp] theorem received_snoc (tr : List (Step (UringIoManager S) ManagerLabel))
    (t : Step (UringIoManager S) ManagerLabel) :
    received (tr ++ [t]) = received tr ++ received_in t := by
  simp [received]

/-- A waiting call has been handed an event and has not received it yet. -/
def holds (m : UringIoManager S) (id : CallId) (event : CompletionEvent) : Prop :=
  ∃ call, m.calls id = some call ∧ call.waiting ∧ S.item call.stream = some event

theorem mem_received_in {l : ManagerLabel} {id : CallId} {event : CompletionEvent}
    (h : (id, event) ∈ received_in ⟨m, l, m'⟩) :
    ∃ call, m.calls id = some call ∧ call.progress = .receiving ∧
      S.item call.stream = some event := by
  cases l with
  | resume id' =>
    simp only [received_in] at h
    cases hcall : m.calls id' with
    | none => simp [hcall] at h
    | some call =>
      by_cases hprogress : call.progress = .receiving
      · simp only [hcall, hprogress, if_true, List.mem_map, Option.mem_toList] at h
        obtain ⟨event', hitem, heq⟩ := h
        cases heq
        exact ⟨call, hcall, hprogress, hitem⟩
      · simp [hcall, hprogress] at h
  | _ => cases h

/-- Who holds which event when the events `gone` have been received. -/
structure Delivered (gone : List (CallId × CompletionEvent)) (m : UringIoManager S) : Prop where
  dispatched : ∀ p ∈ gone, p.2 ∈ m.dispatched ∧ p.2.should_be_ignored = false
  once : (gone.map (·.2.user_data)).Nodup
  /-- What a waiting call holds, nobody has received. -/
  apart : ∀ id event, m.holds id event → ∀ p ∈ gone, p.2.user_data ≠ event.user_data
  /-- No two waiting calls hold the same event. -/
  alone : ∀ id other event event', m.holds id event → m.holds other event' →
    event.user_data = event'.user_data → id = other

variable {gone : List (CallId × CompletionEvent)} {event : CompletionEvent}
         {rest : List CompletionEvent}

/-- Nothing new is held. -/
theorem Delivered.mono (h : Delivered gone m) (hdispatched : m'.dispatched = m.dispatched)
    (hholds : ∀ id event, m'.holds id event → m.holds id event) : Delivered gone m' := by
  refine ⟨?_, h.once, ?_, ?_⟩
  · rw [hdispatched]
    exact h.dispatched
  · intro id event hheld
    exact h.apart id event (hholds id event hheld)
  · intro id other event event' hheld hheld'
    exact h.alone id other event event' (hholds id event hheld) (hholds other event' hheld')

theorem Delivered.sameCalls (h : Delivered gone m) (hsame : SameCalls m m') :
    Delivered gone m' := by
  apply h.mono hsame.dispatched
  intro id event hheld
  unfold holds at hheld
  rwa [hsame.calls] at hheld

/-- A call that holds nothing, or does not wait, is set. -/
theorem Delivered.set_call (h : Delivered gone m) {id : CallId} {new : Call S}
    (hnew : new.waiting → S.item new.stream = none) : Delivered gone (m.set_call id new) := by
  apply h.mono
  · rfl
  intro other event hpair
  obtain ⟨call, hcall, hwaiting, hitem⟩ := hpair
  rcases set_call_some hcall with ⟨-, rfl⟩ | ⟨-, hold⟩
  · cases hitem.symm.trans (hnew hwaiting)
  · exact ⟨call, hold, hwaiting, hitem⟩

/-- A call receives what it holds. -/
theorem Delivered.receive (h : Delivered gone m) (hpaired : m.Paired) {id : CallId} {call : Call S}
    (hcall : m.calls id = some call) (hwaiting : call.waiting)
    (hitem : S.item call.stream = some event) {new : Call S} (hnew : ¬new.waiting) :
    Delivered (gone ++ [(id, event)]) (m.set_call id new) := by
  have hheld : m.holds id event := ⟨call, hcall, hwaiting, hitem⟩
  obtain ⟨hmem, -, hignored⟩ := hpaired.item id call event hcall hwaiting hitem
  -- Only other calls hold anything now, and they held it before.
  have hothers : ∀ other event', (m.set_call id new).holds other event' →
      other ≠ id ∧ m.holds other event' := by
    intro other event' hpair
    obtain ⟨call', hcall', hwaiting', hitem'⟩ := hpair
    rcases set_call_some hcall' with ⟨-, rfl⟩ | ⟨hne, hold⟩
    · exact absurd hwaiting' hnew
    · exact ⟨hne, call', hold, hwaiting', hitem'⟩
  constructor
  · rw [List.forall_mem_append, List.forall_mem_singleton]
    exact ⟨h.dispatched, hmem, hignored⟩
  · rw [List.map_append, List.nodup_append]
    refine ⟨h.once, by simp, ?_⟩
    intro user_data hgone user_data' hlast heq
    obtain rfl := heq
    obtain ⟨p, hp, heq⟩ := List.mem_map.mp hgone
    have hlast' : user_data = event.user_data := by simpa using hlast
    exact h.apart id event hheld p hp (heq.trans hlast')
  · intro other event' hheld'
    obtain ⟨hne, hbefore⟩ := hothers other event' hheld'
    rw [List.forall_mem_append, List.forall_mem_singleton]
    refine ⟨h.apart other event' hbefore, ?_⟩
    intro heq
    exact hne (h.alone id other event event' hheld hbefore heq).symm
  · intro i j event' event'' hi hj
    exact h.alone i j event' event'' (hothers i event' hi).2 (hothers j event'' hj).2

/-- What is held after an event has been dispatched. -/
theorem holds_dispatch (hpaired : m.Paired) (hreaped : m.reaped = event :: rest) {id : CallId}
    {event' : CompletionEvent} (hheld : m.dispatch.holds id event') :
    m.holds id event' ∨ event' = event ∧ m.sends_to event id := by
  obtain ⟨call', hcall', hwaiting, hitem⟩ := hheld
  obtain ⟨call, hcall, ⟨hsends, rfl⟩ | ⟨-, rfl⟩⟩ := dispatch_some hreaped hcall'
  · rw [Call.send_nowait_waiting] at hwaiting
    rcases hpaired.sent hcall hwaiting hsends with ⟨-, hmissed⟩ | ⟨-, hhanded⟩
    · rw [hmissed] at hitem
      exact Or.inl ⟨call, hcall, hwaiting, hitem⟩
    · cases hitem.symm.trans hhanded
      exact Or.inr ⟨rfl, hsends⟩
  · exact Or.inl ⟨call', hcall, hwaiting, hitem⟩

/-- The event that is dispatched has not been dispatched before. -/
theorem not_dispatched (hapart : told_apart (m.dispatched ++ m.reaped))
    (hreaped : m.reaped = event :: rest) (hignored : event.should_be_ignored = false)
    {event' : CompletionEvent} (hmem : event' ∈ m.dispatched)
    (hignored' : event'.should_be_ignored = false) : event'.user_data ≠ event.user_data := by
  unfold told_apart at hapart
  rw [hreaped, List.filter_append, List.map_append, List.nodup_append] at hapart
  refine hapart.2.2 _ (List.mem_map_of_mem (List.mem_filter.mpr ⟨hmem, ?_⟩)) _
    (List.mem_map_of_mem (List.mem_filter.mpr ⟨List.mem_cons_self, ?_⟩))
  · rw [hignored']
    rfl
  · rw [hignored]
    rfl

/-- The dispatcher hands an event to a call, if to any. -/
theorem Delivered.dispatch (h : Delivered gone m) (hpaired : m.Paired)
    (hapart : told_apart (m.dispatched ++ m.reaped)) (hreaped : m.reaped = event :: rest) :
    Delivered gone m.dispatch := by
  -- What was held before has been dispatched before.
  have hbefore : ∀ {id event'}, m.holds id event' → event.should_be_ignored = false →
      event'.user_data ≠ event.user_data := by
    intro id event' hpair hignored
    obtain ⟨call, hcall, hwaiting, hitem⟩ := hpair
    obtain ⟨hmem, -, hignored'⟩ := hpaired.item id call event' hcall hwaiting hitem
    exact not_dispatched hapart hreaped hignored hmem hignored'
  constructor
  · intro p hp
    obtain ⟨hmem, hignored⟩ := h.dispatched p hp
    rw [dispatch_dispatched hreaped]
    exact ⟨List.mem_append_left _ hmem, hignored⟩
  · exact h.once
  · intro id event' hheld p hp
    rcases holds_dispatch hpaired hreaped hheld with hold | ⟨rfl, hsends⟩
    · exact h.apart id event' hold p hp
    · obtain ⟨hmem, hignored⟩ := h.dispatched p hp
      exact not_dispatched hapart hreaped hsends.1 hmem hignored
  · intro id other event' event'' hheld hheld' heq
    rcases holds_dispatch hpaired hreaped hheld with hold | ⟨rfl, hsends⟩ <;>
      rcases holds_dispatch hpaired hreaped hheld' with hold' | ⟨rfl, hsends'⟩
    · exact h.alone id other event' event'' hold hold' heq
    · exact absurd heq (hbefore hold hsends'.1)
    · exact absurd heq.symm (hbefore hold' hsends.1)
    · exact Option.some.inj (hsends.2.symm.trans hsends'.2)

/-- **Step lemma**: no event is received twice. -/
theorem Delivered.step (h : Delivered gone m) (hpaired : m.Paired)
    (hapart : told_apart (m.dispatched ++ m.reaped)) {l : ManagerLabel}
    (hpossible : m.possible l) : Delivered (gone ++ received_in ⟨m, l, m.run l⟩) (m.run l) := by
  have hstepped := run_stepped hpossible
  generalize m.run l = m' at hstepped ⊢
  cases hstepped with
  | ring l =>
    rw [received_in, List.append_nil]
    exact h.sameCalls (m.use_ring_sameCalls l)
  | reap bursts =>
    rw [received_in, List.append_nil]
    exact h.sameCalls (m.reap_sameCalls bursts)
  | registered id user_data answer submitted hnew hsame =>
    rw [received_in, List.append_nil]
    have hset : Delivered gone (submitted.set_call id ⟨user_data, S.create, .checkpoint⟩) :=
      (h.sameCalls hsame).set_call fun _ => S.item_create
    exact hset.mono rfl fun _ _ hheld => hheld
  | failed id user_data answer submitted hnew hsame =>
    rw [received_in, List.append_nil]
    exact (h.sameCalls hsame).set_call fun _ => S.item_create
  | receiving id call hcall hprogress =>
    -- The call begins to receive, and has nothing to receive yet.
    have hnothing : ∀ m' : UringIoManager S, received_in ⟨m, .resume id, m'⟩ = [] := by
      intro m'
      simp [received_in, hcall, hprogress]
    rw [hnothing, List.append_nil]
    apply h.set_call
    intro _
    show S.item (S.receive call.stream) = none
    rw [hpaired.checkpoint id call hcall hprogress]
    exact S.item_receive
  | returned id call hcall hprogress hsome =>
    obtain ⟨event, hitem⟩ := Option.isSome_iff_exists.mp hsome
    -- The call returns with the item it was handed.
    have hevent : ∀ m' : UringIoManager S,
        received_in ⟨m, .resume id, m'⟩ = [(id, event)] := by
      intro m'
      simp [received_in, hcall, hprogress, hitem]
    rw [hevent]
    exact h.receive hpaired hcall (Or.inr hprogress) hitem (Call.not_waiting nofun nofun)
  | cancelled id call hcall =>
    rw [received_in, List.append_nil]
    exact h.set_call fun hwaiting => absurd hwaiting (Call.not_waiting nofun nofun)
  | dispatched event rest hreaped =>
    rw [received_in, List.append_nil]
    exact h.dispatch hpaired hapart hreaped

/-- **Run lemma**: in every run, senders and calls are paired, and no event is
    received twice. -/
theorem delivered_of_run {m₀ : UringIoManager S} (hinit : (task_system S).init m₀)
    (h : Path (task_system S) m₀ tr m) (hbound : allocations (ring_trace tr) < 2 ^ 63) :
    m.Paired ∧ Delivered (received tr) m := by
  induction h with
  | nil =>
    obtain ⟨-, -, hwaiters, hcalls, -, -⟩ := hinit
    have hnone : ∀ id event, ¬m₀.holds id event := by
      intro id event hpair
      obtain ⟨call, hcall, -⟩ := hpair
      rw [hcalls] at hcall
      cases hcall
    exact ⟨.initial hwaiters hcalls, nofun, .nil, fun id event hheld => absurd hheld (hnone id event),
      fun id other event event' hheld => absurd hheld (hnone id event)⟩
  | @snoc tr m m' l hpath hstep ih =>
    obtain ⟨hpossible, rfl⟩ := hstep
    have hle : allocations (ring_trace tr) < 2 ^ 63 := by
      rw [ring_trace_append] at hbound
      exact Nat.lt_of_le_of_lt (allocations_le_append _ _) hbound
    obtain ⟨hpaired, hdelivered⟩ := ih hle
    rw [received_snoc]
    exact ⟨hpaired.step hpossible,
      hdelivered.step hpaired (listed_told_apart hinit hpath hle) hpossible⟩

/-- What a call on `user_data` receives when the ring has done `ring`, and what
    it does with it. -/
structure Received (ring : RingTrace) (user_data : UInt64) (event : CompletionEvent) : Prop where
  own : event.user_data = user_data
  /-- It was handed out by the reap that took a completion of the operation whose
      preparation returned `user_data`, as that operation is due it. -/
  operation : ∃ pre t post cqe, ring = pre ++ t :: post ∧ cqe ∈ t.label.reaps t.src ∧
    event ∈ t.label.events t.src ∧ EventOf pre (t.label.owned_when_drained t.src) cqe event ∧
    CalledIn pre cqe.origin ∧ cqe.origin.user_data = user_data
  /-- An error is raised, -/
  raises : event.result < 0 → ∃ errno : Int32, errno.toInt = -event.result.toInt ∧
    wait_result true event = .error (.os_error errno)
  /-- and nothing else is. -/
  returns : ¬event.result < 0 → wait_result true event = .ok event
  raises_not : wait_result false event = .ok event

/-- An event that was handed out comes from one completion. -/
theorem eventOf_of_mem {ring : RingTrace} {w : World} (h : OneToOne ring w)
    {event : CompletionEvent} (hevent : event ∈ events ring) :
    ∃ pre t post cqe, ring = pre ++ t :: post ∧ cqe ∈ t.label.reaps t.src ∧
      event ∈ t.label.events t.src ∧ EventOf pre (t.label.owned_when_drained t.src) cqe event := by
  obtain ⟨t, ht, hmem⟩ := List.mem_flatMap.mp hevent
  obtain ⟨pre, post, rfl⟩ := List.append_of_mem ht
  have hof := h.events_of pre t post rfl
  obtain ⟨n, hn, rfl⟩ := List.mem_iff_getElem.mp hmem
  have hn' : n < (t.label.reaps t.src).length := by
    rw [hof.length_eq]
    exact hn
  exact ⟨pre, t, post, _, rfl, List.getElem_mem hn', hmem, hof.get hn' hn⟩

theorem received_of_step {m₀ : UringIoManager S} (hinit : (task_system S).init m₀)
    (h : Path (task_system S) m₀ tr m) (hbound : allocations (ring_trace tr) < 2 ^ 63)
    (hkernel : ∀ t ∈ ring_trace tr, t.label.meets (World.posts_only World.error_numbers) t.src)
    {l : ManagerLabel} {id : CallId} (hmem : (id, event) ∈ received_in ⟨m, l, m'⟩) :
    ∃ call, m.calls id = some call ∧ Received (ring_trace tr) call.user_data event := by
  obtain ⟨call, hcall, hprogress, hitem⟩ := mem_received_in hmem
  have hpaired := (delivered_of_run hinit h hbound).1
  obtain ⟨hdispatched, hown, hignored⟩ :=
    hpaired.item id call event hcall (Or.inr hprogress) hitem
  -- A dispatched event has been reaped from the ring.
  have hevent : event ∈ events (ring_trace tr) :=
    (listed_sublist hinit h).subset (List.mem_append_left _ hdispatched)
  have hpath := ring_path h
  obtain ⟨pre, t, post, cqe, hring, hcqe, hlisted, hof⟩ :=
    eventOf_of_mem (events_one_to_one hinit.1 hpath hbound) hevent
  have hresult := events_results_meet hinit.1 hpath hkernel event hevent
  exact ⟨call, hcall, hown,
    ⟨pre, t, post, cqe, hring, hcqe, hlisted, hof, (hof.called hignored).1,
      hof.user_data.symm.trans hown⟩,
    wait_result_raises hresult, wait_result_returns, rfl⟩

end UringIoManager

/-! ### The dispatcher never raises -/

/-- The manager, and which senders have been closed. `send_nowait` on a closed
    sender raises `ClosedResourceError`, which the dispatcher does not catch. -/
structure Senders (S : MemoryObjectStream CompletionEvent) where
  manager : UringIoManager S
  /-- The calls whose sender is closed. -/
  closed : CallId → Bool
  /-- `ClosedResourceError` has ended the dispatcher. -/
  raised : Bool

namespace UringIoManager

variable {S : MemoryObjectStream CompletionEvent}

/-- The call whose sender the dispatcher takes out for an event. -/
def waiter (m : UringIoManager S) (dispatched : CompletionEvent) : Option CallId :=
  if dispatched.should_be_ignored then none else m._completion_waiters dispatched.user_data

/-- `send_nowait` returns, so the sender is closed next. -/
def accepts (m : UringIoManager S) (waiter : CallId) (dispatched : CompletionEvent) : Bool :=
  ((m.calls waiter).bind fun call => S.send_nowait call.stream dispatched).isSome

theorem waiter_eq_some_iff {m : UringIoManager S} {event : CompletionEvent} {id : CallId} :
    m.waiter event = some id ↔ m.sends_to event id := by
  unfold waiter sends_to
  cases event.should_be_ignored <;> simp

/-- Calls stay, and a sender is stored only for a call that has just begun. -/
structure Extends (m m' : UringIoManager S) : Prop where
  calls : ∀ id, m.calls id ≠ none → m'.calls id ≠ none
  stored : ∀ key id, m'._completion_waiters key = some id →
    m._completion_waiters key = some id ∨ m.calls id = none

theorem SameCalls.extends {m m' : UringIoManager S} (h : SameCalls m m') : m.Extends m' where
  calls := fun id hid => by rwa [h.calls]
  stored := fun key id hstored => by
    rw [h.waiters] at hstored
    exact Or.inl hstored

/-- A call that goes on stays. -/
theorem Extends.set_call {m m' : UringIoManager S} (h : m.Extends m') (id : CallId)
    (call : Call S) : m.Extends (m'.set_call id call) where
  calls := by
    intro other hother
    rw [set_call_calls]
    by_cases hid : other = id
    · rw [if_pos hid]
      exact Option.some_ne_none call
    · rw [if_neg hid]
      exact h.calls other hother
  stored := h.stored

/-- A call that begins stores its sender. -/
theorem Extends.register {m m' : UringIoManager S} (h : m.Extends m') {id : CallId}
    (user_data : UInt64) (hnew : m.calls id = none) : m.Extends (m'.register id user_data) where
  calls := (h.set_call id ⟨user_data, S.create, .checkpoint⟩).calls
  stored := by
    intro key other hstored
    rw [register_waiters] at hstored
    by_cases hkey : key = user_data
    · rw [if_pos hkey] at hstored
      cases hstored
      exact Or.inr hnew
    · rw [if_neg hkey] at hstored
      exact h.stored key other hstored

theorem run_extends (m : UringIoManager S) {l : ManagerLabel} (hl : l ≠ .dispatch)
    (hpossible : m.possible l) : m.Extends (m.run l) := by
  have hself : m.Extends m := SameCalls.extends ⟨rfl, rfl, rfl⟩
  have hstepped := run_stepped hpossible
  generalize m.run l = m' at hstepped ⊢
  cases hstepped with
  | ring l => exact (m.use_ring_sameCalls l).extends
  | reap bursts => exact (m.reap_sameCalls bursts).extends
  | registered id user_data answer submitted hnew hsame =>
    exact hsame.extends.register user_data hnew
  | failed id user_data answer submitted hnew hsame => exact hsame.extends.set_call id _
  | receiving id call => exact hself.set_call id _
  | returned id call => exact hself.set_call id _
  | cancelled id call => exact hself.set_call id _
  | dispatched => exact absurd rfl hl

end UringIoManager

namespace Senders

variable {S : MemoryObjectStream CompletionEvent} {s s' : Senders S}

/-- The body of the loop of the dispatcher, for the event `dispatched`. -/
def dispatch_one (s : Senders S) (dispatched : CompletionEvent) : Senders S :=
  match s.manager.waiter dispatched with
  | none => { s with manager := s.manager.dispatch }
  | some waiter =>
    if s.closed waiter then
      let waiters :=
        Function.update s.manager._completion_waiters dispatched.user_data none
      { s with
        manager := { s.manager with _completion_waiters := waiters, reaped := [] }
        raised := true }
    else
      let closed :=
        if s.manager.accepts waiter dispatched then Function.update s.closed waiter true
        else s.closed
      { s with manager := s.manager.dispatch, closed := closed }

/-- The dispatcher goes on to the next event. -/
def dispatch (s : Senders S) : Senders S :=
  match s.manager.reaped with
  | [] => s
  | event :: _ => s.dispatch_one event

/-- The state afterwards. -/
def run (s : Senders S) : ManagerLabel → Senders S
  | .dispatch => s.dispatch
  | l => { s with manager := s.manager.run l }

/-- When a step can be taken. -/
def possible (s : Senders S) : ManagerLabel → Prop
  | .reap bursts => s.raised = false ∧ s.manager.possible (.reap bursts)
  | l => s.manager.possible l

instance (s : Senders S) (l : ManagerLabel) : Decidable (s.possible l) :=
  match l with
  | .reap bursts =>
    inferInstanceAs (Decidable (s.raised = false ∧ s.manager.possible (.reap bursts)))
  | .ring l => inferInstanceAs (Decidable (s.manager.possible (.ring l)))
  | .wait_for_completion id user_data answer =>
    inferInstanceAs (Decidable (s.manager.possible (.wait_for_completion id user_data answer)))
  | .resume id => inferInstanceAs (Decidable (s.manager.possible (.resume id)))
  | .cancel id => inferInstanceAs (Decidable (s.manager.possible (.cancel id)))
  | .dispatch => inferInstanceAs (Decidable (s.manager.possible .dispatch))

end Senders

/-- The manager with its senders, any number of calls of
    `wait_for_completion`, and the kernel. -/
def sender_system (S : MemoryObjectStream CompletionEvent) : System (Senders S) ManagerLabel where
  init := fun s => (task_system S).init s.manager ∧ s.closed = (fun _ => false) ∧ s.raised = false
  step := fun s l s' => s.possible l ∧ s' = s.run l

namespace Senders

variable {S : MemoryObjectStream CompletionEvent} {s s' : Senders S}
         {tr : List (Step (Senders S) ManagerLabel)}

/-- No sender that the dispatcher may still take out has been closed. -/
structure Safe (s : Senders S) : Prop where
  running : s.raised = false
  stored : ∀ key id, s.manager._completion_waiters key = some id → s.closed id = false
  called : ∀ id, s.closed id = true → s.manager.calls id ≠ none

/-- The dispatcher goes on as the manager does, and does not raise. -/
theorem Safe.dispatch (h : s.Safe) (hpaired : s.manager.Paired) (hne : s.manager.reaped ≠ []) :
    s.dispatch.manager = s.manager.dispatch ∧ s.dispatch.Safe := by
  obtain ⟨event, rest, hreaped⟩ := List.exists_cons_of_ne_nil hne
  have hcalls : ∀ id, s.manager.calls id ≠ none → s.manager.dispatch.calls id ≠ none := by
    intro id hid
    obtain ⟨call, hcall⟩ := Option.ne_none_iff_exists'.mp hid
    obtain ⟨call', hcall', -⟩ := UringIoManager.dispatch_of_some hreaped hcall
    rw [hcall']
    exact Option.some_ne_none _
  have hnext : s.dispatch = s.dispatch_one event := by rw [Senders.dispatch, hreaped]
  rw [hnext]
  cases hwaiter : s.manager.waiter event with
  | none =>
    have hone : s.dispatch_one event = { s with manager := s.manager.dispatch } := by
      rw [dispatch_one, hwaiter]
    rw [hone]
    refine ⟨rfl, h.running, ?_, fun id hid => hcalls id (h.called id hid)⟩
    intro key id hstored
    exact h.stored key id (hpaired.stored_dispatch hreaped hstored).1
  | some waiter =>
    -- The sender is still stored, so it has not been closed.
    have hsends := UringIoManager.waiter_eq_some_iff.mp hwaiter
    have hopen := h.stored _ _ hsends.2
    obtain ⟨call, hcall, -⟩ := hpaired.stored _ _ hsends.2
    obtain ⟨closed, hone, hclosed⟩ : ∃ closed,
        s.dispatch_one event = { s with manager := s.manager.dispatch, closed := closed } ∧
          ∀ id, closed id = true → id = waiter ∨ s.closed id = true := by
      rw [dispatch_one, hwaiter]
      simp only [hopen, Bool.false_eq_true, if_false]
      refine ⟨_, rfl, ?_⟩
      intro id hid
      split at hid
      · by_cases heq : id = waiter
        · exact Or.inl heq
        · rw [Function.update_of_ne heq] at hid
          exact Or.inr hid
      · exact Or.inr hid
    rw [hone]
    refine ⟨rfl, h.running, ?_, fun id hid => hcalls id ?_⟩
    · intro key id hstored
      obtain ⟨hbefore, hunsent⟩ := hpaired.stored_dispatch hreaped hstored
      apply Bool.eq_false_iff.mpr
      intro hid
      rcases hclosed id hid with rfl | hold
      · exact hunsent hsends
      · rw [h.stored key id hbefore] at hold
        cases hold
    · rcases hclosed id hid with rfl | hold
      · rw [hcall]
        exact Option.some_ne_none _
      · exact h.called id hold

/-- **Step lemma**: the dispatcher does not raise, and every step is one of the
    manager. -/
theorem Safe.step (h : s.Safe) (hpaired : s.manager.Paired) {l : ManagerLabel}
    (hstep : (sender_system S).step s l s') :
    s'.Safe ∧ (task_system S).step s.manager l s'.manager := by
  obtain ⟨hpossible, rfl⟩ := hstep
  by_cases hl : l = .dispatch
  · subst hl
    obtain ⟨hmanager, hsafe⟩ := h.dispatch hpaired hpossible
    exact ⟨hsafe, hpossible, hmanager⟩
  · have hrun : s.run l = { s with manager := s.manager.run l } := by
      cases l with
      | dispatch => exact absurd rfl hl
      | _ => rfl
    have hpossible' : s.manager.possible l := by
      cases l with
      | reap bursts => exact hpossible.2
      | _ => exact hpossible
    have hextends := s.manager.run_extends hl hpossible'
    rw [hrun]
    refine ⟨⟨h.running, fun key id hstored => ?_, fun id hid => hextends.calls id (h.called id hid)⟩,
      hpossible', rfl⟩
    rcases hextends.stored key id hstored with hold | hnew
    · exact h.stored key id hold
    · -- The sender of a new call has not been closed.
      exact Bool.eq_false_iff.mpr fun hid => h.called id hid hnew

/-- A step as the manager sees it. -/
def manager_step (t : Step (Senders S) ManagerLabel) : Step (UringIoManager S) ManagerLabel :=
  ⟨t.src.manager, t.label, t.dst.manager⟩

/-- **Refinement**: a run is a run of the manager, in which the dispatcher does
    not raise. -/
theorem manager_path {s₀ : Senders S} (hinit : (sender_system S).init s₀)
    (h : Path (sender_system S) s₀ tr s) :
    s.Safe ∧ s.manager.Paired ∧
      Path (task_system S) s₀.manager (tr.map manager_step) s.manager := by
  induction h with
  | nil =>
    obtain ⟨⟨-, -, hwaiters, hcalls, -⟩, hclosed, hraised⟩ := hinit
    refine ⟨⟨hraised, ?_, ?_⟩, .initial hwaiters hcalls, .nil⟩
    · intro key id hstored
      rw [hclosed]
    · intro id hid
      rw [hclosed] at hid
      cases hid
  | @snoc tr s s' l hpath hstep ih =>
    obtain ⟨hsafe, hpaired, hmanager⟩ := ih
    obtain ⟨hsafe', hstep'⟩ := hsafe.step hpaired hstep
    have hpaired' : s'.manager.Paired := by
      rw [hstep'.2]
      exact hpaired.step hstep'.1
    rw [List.map_append]
    exact ⟨hsafe', hpaired', .snoc l hmanager hstep'⟩

/-- What is promised of the events in a run that led to `s`. -/
structure Routed (tr : List (Step (Senders S) ManagerLabel)) (s : Senders S) : Prop where
  /-- A call receives its event, and raises the error in it. -/
  received : ∀ pre t post, tr = pre ++ t :: post →
    ∀ id event, (id, event) ∈ UringIoManager.received_in (manager_step t) →
      ∃ call, t.src.manager.calls id = some call ∧
        UringIoManager.Received (UringIoManager.ring_trace (pre.map manager_step))
          call.user_data event
  /-- No event is received twice. -/
  once : ((UringIoManager.received (tr.map manager_step)).map (·.2.user_data)).Nodup
  /-- The dispatcher has not raised. -/
  running : s.raised = false
  /-- It goes through its list, and hands an event to no call but one on its
      user data. -/
  goes_on : ∀ t ∈ tr, t.label = .dispatch → ∃ event rest,
    t.src.manager.reaped = event :: rest ∧ t.dst.manager.reaped = rest ∧
      ∀ id, t.dst.manager.calls id ≠ t.src.manager.calls id →
        ∃ call, t.src.manager.calls id = some call ∧ call.user_data = event.user_data ∧
          event.should_be_ignored = false

/-- **Results are routed correctly and at most once**, in every run. -/
theorem results_routed {s₀ : Senders S} (hinit : (sender_system S).init s₀)
    (h : Path (sender_system S) s₀ tr s)
    (hbound : allocations (UringIoManager.ring_trace (tr.map manager_step)) < 2 ^ 63)
    (hkernel : ∀ t ∈ UringIoManager.ring_trace (tr.map manager_step),
      t.label.meets (World.posts_only World.error_numbers) t.src) : Routed tr s := by
  obtain ⟨hsafe, -, hpath⟩ := manager_path hinit h
  refine ⟨?_, (UringIoManager.delivered_of_run hinit.1 hpath hbound).2.once, hsafe.running, ?_⟩
  · intro pre t post heq id event hmem
    obtain rfl := heq
    rw [List.map_append, UringIoManager.ring_trace_append] at hbound hkernel
    have hle := Nat.lt_of_le_of_lt (allocations_le_append _ _) hbound
    exact UringIoManager.received_of_step hinit.1 (manager_path hinit h.to_src).2.2 hle
      (fun u hu => hkernel u (List.mem_append_left _ hu)) hmem
  · intro t ht hl
    obtain ⟨pre, post, rfl⟩ := List.append_of_mem ht
    obtain ⟨hsafe', hpaired, -⟩ := manager_path hinit h.to_src
    have hstep := h.step_of_mem ht
    rw [hl] at hstep
    obtain ⟨hne, hdst⟩ := (hsafe'.step hpaired hstep).2
    obtain ⟨event, rest, hreaped⟩ := List.exists_cons_of_ne_nil hne
    refine ⟨event, rest, hreaped, ?_, ?_⟩
    · rw [hdst]
      exact UringIoManager.dispatch_reaped hreaped
    · intro id hchanged
      rw [hdst] at hchanged
      have hsends : t.src.manager.sends_to event id := by
        by_contra hunsent
        exact hchanged (UringIoManager.dispatch_calls_unsent hreaped hunsent)
      obtain ⟨call, hcall, hdata, -⟩ := hpaired.stored _ _ hsends.2
      exact ⟨call, hcall, hdata, hsends.1⟩

/-- Two calls wait on the first of two reads, and one on the second, which is
    cancelled. The first read fails. -/
def superseded_read : List ManagerLabel :=
  [.ring (.prep (.read (.int 3) 16 (-1) none) (.ok 0)),
    .ring (.prep (.read (.int 4) 16 (-1) none) (.ok 0)), .wait_for_completion 0 0 (.ok 0),
    .wait_for_completion 1 0 (.ok 0), .wait_for_completion 2 1 (.ok 0), .resume 0, .resume 1,
    .resume 2, .cancel 2, .ring (.submit (.ok 2)), .ring (.kernel (.complete 1 5)),
    .ring (.kernel (.complete 0 (-9))), .reap [], .dispatch, .dispatch, .resume 1]

/-- The later of the two calls receives the error. -/
theorem results_routed_superseded :
    let start : Senders (rendezvous CompletionEvent) := ⟨.fresh, fun _ => false, false⟩
    let tr := trace_of run superseded_read start
    (UringIoManager.received (tr.map manager_step)).map
        (fun p => (p.1, p.2.user_data, p.2.result)) = [(1, 0, -9)] ∧
      Routed tr (superseded_read.foldl run start) := by
  intro start tr
  have hpossible : ∀ t ∈ tr, t.src.possible t.label := by decide +kernel
  have hpath : Path (sender_system _) start tr (superseded_read.foldl run start) :=
    path_of superseded_read start fun t ht =>
      ⟨hpossible t ht, trace_of_dst superseded_read start t ht⟩
  have hinit : (sender_system _).init start := ⟨UringIoManager.fresh_manager_initial, rfl, rfl⟩
  have hbound : allocations (UringIoManager.ring_trace (tr.map manager_step)) < 2 ^ 63 := by
    decide +kernel
  have hkernel : ∀ t ∈ UringIoManager.ring_trace (tr.map manager_step),
      t.label.meets (World.posts_only World.error_numbers) t.src := by
    decide +kernel
  exact ⟨by decide +kernel, results_routed hinit hpath hbound hkernel⟩

end Senders

end CenturyRing
