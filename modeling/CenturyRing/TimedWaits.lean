import CenturyRing.Runs

/-! # Timed waits

  A timed wait pushes a timeout entry and sleeps until the completion queue
  holds something. When another completion comes first, the timer stays behind
  in the kernel, and it wakes a later wait like any other completion. All
  timers share one user data, but each has the stack frame of its own call.
-/

open LTS

namespace CenturyRing

/-! ### Timers -/

namespace World

/-- What the kernel promises of timers: one stays in flight until it expires,
    and then its completion is posted, whatever its flags. -/
def timer_rules (w : World) : KernelEvent → Prop
  | .complete i result => ∀ request, w.kernel.inflight[i]? = some request →
      request.entry.op.is_timeout = true → request.deadline ≤ w.kernel.now ∧ result = -62
  | .complete_silently i => ∀ request, w.kernel.inflight[i]? = some request →
      request.entry.op.is_timeout = false
  | .fail_chain i _ => (∀ request, w.kernel.inflight[i]? = some request →
      request.entry.op.is_timeout = false) ∧
      ∀ request ∈ w.cancelled i, request.entry.op.is_timeout = false
  | _ => True

/-- The timer of the call with this stack frame has expired. -/
def expired (w : World) (frame : Ptr) : Prop :=
  (∃ request ∈ w.kernel.inflight, request.entry.op.frame = some frame ∧
    request.deadline ≤ w.kernel.now) ∨
  ∃ cqe ∈ w.unreaped, cqe.origin.op.frame = some frame

/-- A wait of the call with this stack frame may end: a user operation has
    completed, or the timer of the call has expired. -/
def may_end (w : World) (frame : Ptr) : Prop :=
  (∃ cqe ∈ w.cq, cqe.origin.op.is_timeout = false) ∨ w.expired frame

/-- The timer of the call with this stack frame is the first to expire: it is
    the only one, or it has expired, or it is in flight and so are all others,
    with deadlines no earlier than its own. -/
def own_timer_first (w : World) (frame : Ptr) : Prop :=
  (∀ entry ∈ w.live, entry.op.is_timeout = true → entry.op.frame = some frame) ∨
  w.expired frame ∨
  ((∃ own ∈ w.kernel.inflight, own.entry.op.frame = some frame ∧
      ∀ request ∈ w.kernel.inflight, request.entry.op.is_timeout = true →
        own.deadline ≤ request.deadline) ∧
    (∀ entry ∈ w.pending, entry.op.is_timeout = false) ∧
    ∀ cqe ∈ w.unreaped, cqe.origin.op.is_timeout = false)

instance (w : World) (frame : Ptr) : Decidable (w.expired frame) := by
  unfold expired; infer_instance

instance (w : World) (frame : Ptr) : Decidable (w.may_end frame) := by
  unfold may_end; infer_instance

instance (w : World) (frame : Ptr) : Decidable (w.own_timer_first frame) := by
  unfold own_timer_first; infer_instance

end World

theorem Operation.is_timeout_of_frame {op : Operation} {frame : Ptr}
    (h : op.frame = some frame) : op.is_timeout = true := by
  rw [is_timeout, h]
  rfl

/-! ### Timers in a step of the kernel -/

section kernel

namespace World

variable {w : World} {ev : KernelEvent}

theorem complete_now (w : World) (i : Nat) (result : Int32) :
    (w.complete i result).kernel.now = w.kernel.now := by
  unfold complete
  split
  · rfl
  · exact (post_kernel _ _).2

/-- The clock never goes back. -/
theorem kernel_step_now (w : World) (ev : KernelEvent) :
    w.kernel.now ≤ (w.kernel_step ev).kernel.now := by
  cases ev with
  | consume k => cases h : w.ring.the_io_uring <;> simp [kernel_step, consume, h]
  | complete i result => exact Nat.le_of_eq (complete_now w i result).symm
  | complete_silently i => exact Nat.le_refl _
  | fail_chain i result => exact Nat.le_of_eq (complete_now (w.cancel_rest i) i result).symm
  | write i bytes =>
    show _ ≤ (w.write i bytes).kernel.now
    unfold write
    split <;> exact Nat.le_refl _
  | flush => cases h : w.ring.the_io_uring <;> simp [kernel_step, flush, h]
  | tick nanos => exact Nat.le_add_right _ _

/-- What does not stand at an index is not removed there. -/
theorem mem_eraseIdx_of_ne {request : Request} {requests : List Request} {i : Nat}
    (h : request ∈ requests) (hi : requests[i]? ≠ some request) :
    request ∈ requests.eraseIdx i := by
  obtain ⟨j, hj⟩ := List.mem_iff_getElem?.mp h
  refine List.mem_eraseIdx_iff_getElem?.mpr ⟨j, ?_, hj⟩
  intro heq
  obtain rfl := heq
  exact hi hj

/-- **Step lemma**: a timer stays in flight until its completion is posted. -/
theorem timer_stays (hopen : w.is_open = true) (hrules : w.timer_rules ev) {request : Request}
    (hrequest : request ∈ w.kernel.inflight) (htimer : request.entry.op.is_timeout = true) :
    request ∈ (w.kernel_step ev).kernel.inflight ∨
      ∃ cqe ∈ (w.kernel_step ev).unreaped, cqe.origin = request.entry := by
  cases ev with
  | consume k =>
    left
    cases hring : w.ring.the_io_uring <;> simp [kernel_step, consume, hring, hrequest]
  | complete i result =>
    show request ∈ (w.complete i result).kernel.inflight ∨
      ∃ cqe ∈ (w.complete i result).unreaped, _
    rw [complete_inflight, complete_unreaped hopen]
    -- The timer stays in flight, or its completion is the one posted.
    by_cases hi : w.kernel.inflight[i]? = some request
    · exact .inr ⟨⟨request.entry, result⟩, by simp [hi], rfl⟩
    · exact .inl (mem_eraseIdx_of_ne hrequest hi)
  | complete_silently i =>
    refine .inl (mem_eraseIdx_of_ne hrequest ?_)
    intro hi
    -- A timer is never completed silently.
    rw [hrules request hi] at htimer
    cases htimer
  | fail_chain i result =>
    show request ∈ ((w.cancel_rest i).complete i result).kernel.inflight ∨ _
    rw [complete_inflight]
    refine .inl (mem_eraseIdx_of_ne ?_ ?_)
    · -- It is not among those cancelled, so it is before or behind them.
      obtain ⟨rest, hrest⟩ := w.cancelled_prefix i
      show request ∈ w.kernel.inflight.take (i + 1) ++ (w.kernel.inflight.drop (i + 1)).drop _
      rw [← hrest, List.drop_left]
      rw [← List.take_append_drop (i + 1) w.kernel.inflight, ← hrest] at hrequest
      rcases List.mem_append.mp hrequest with hbefore | hbehind
      · exact List.mem_append_left _ hbefore
      rcases List.mem_append.mp hbehind with hcancelled | hbehind
      · rw [hrules.2 request hcancelled] at htimer
        cases htimer
      · exact List.mem_append_right _ hbehind
    · intro hi
      rw [cancel_rest_getElem?] at hi
      rw [hrules.1 request hi] at htimer
      cases htimer
  | write i bytes =>
    left
    show request ∈ (w.write i bytes).kernel.inflight
    unfold write
    split <;> exact hrequest
  | flush =>
    left
    cases hring : w.ring.the_io_uring <;> simp [kernel_step, flush, hring, hrequest]
  | tick nanos => exact .inl hrequest

/-- **Step lemma**: a timer's completion is posted when it has expired. -/
theorem timer_posted (hopen : w.is_open = true) (hrules : w.timer_rules ev) {cqe : Cqe}
    (hcqe : cqe ∈ (w.kernel_step ev).unreaped) (htimer : cqe.origin.op.is_timeout = true) :
    cqe ∈ w.unreaped ∨ ∃ request ∈ w.kernel.inflight, cqe.origin = request.entry ∧
      request.deadline ≤ w.kernel.now := by
  cases ev with
  | complete i result =>
    change cqe ∈ (w.complete i result).unreaped at hcqe
    rw [complete_unreaped hopen, List.mem_append] at hcqe
    rcases hcqe with hold | hnew
    · exact .inl hold
    · obtain ⟨request, hrequest, rfl⟩ := List.mem_map.mp hnew
      have hi := Option.mem_toList.mp hrequest
      exact .inr ⟨request, List.mem_of_getElem? hi, rfl, (hrules request hi htimer).1⟩
  | fail_chain i result =>
    change cqe ∈ ((w.cancel_rest i).complete i result).unreaped at hcqe
    rw [complete_unreaped (w := w.cancel_rest i) hopen, List.mem_append, cancel_rest_getElem?] at hcqe
    rcases hcqe with hold | hnew
    · exact .inl hold
    · obtain ⟨request, hrequest, rfl⟩ := List.mem_map.mp hnew
      -- Only a call can fail a chain.
      have hcall := hrules.1 request (Option.mem_toList.mp hrequest)
      rw [htimer] at hcall
      cases hcall
  | consume k =>
    change cqe ∈ (w.consume k).unreaped at hcqe
    rw [consume_unreaped] at hcqe
    exact .inl hcqe
  | write i bytes =>
    change cqe ∈ (w.write i bytes).unreaped at hcqe
    unfold write at hcqe
    split at hcqe <;> exact .inl hcqe
  | flush =>
    change cqe ∈ w.flush.unreaped at hcqe
    rw [flush_unreaped] at hcqe
    exact .inl hcqe
  | complete_silently | tick => exact .inl hcqe

/-- What can be reaped stays until it is reaped. -/
theorem unreaped_stays (hopen : w.is_open = true) {cqe : Cqe} (hcqe : cqe ∈ w.unreaped) :
    cqe ∈ (w.kernel_step ev).unreaped := by
  obtain ⟨new, -, hunreaped⟩ := kernel_step_posted hopen ev
  rw [hunreaped]
  exact List.mem_append_left _ hcqe

/-! ### Whose timer is first -/

theorem expired_stays (hopen : w.is_open = true) (hrules : w.timer_rules ev) {frame : Ptr}
    (h : w.expired frame) : (w.kernel_step ev).expired frame := by
  rcases h with ⟨request, hrequest, hframe, hdeadline⟩ | ⟨cqe, hcqe, hframe⟩
  · have htimer := Operation.is_timeout_of_frame hframe
    rcases timer_stays hopen hrules hrequest htimer with hstays | ⟨cqe, hcqe, horigin⟩
    · exact .inl ⟨request, hstays, hframe, Nat.le_trans hdeadline (w.kernel_step_now ev)⟩
    · exact .inr ⟨cqe, hcqe, by rw [horigin, hframe]⟩
  · exact .inr ⟨cqe, unreaped_stays hopen hcqe, hframe⟩

/-- **Step lemma**: while a call sleeps, its timer stays the first to expire. -/
theorem own_timer_first_stays (hopen : w.is_open = true) (hrules : w.timer_rules ev)
    {frame : Ptr} (h : w.own_timer_first frame) : (w.kernel_step ev).own_timer_first frame := by
  rcases h with honly | hexpired | ⟨⟨own, hown, hframe, hfirst⟩, hpending, hunreaped⟩
  · -- No other timer is under way, and none comes to be.
    refine .inl fun entry hentry => honly entry ?_
    exact (w.kernel_step_live ev).mem_iff.mpr (List.mem_append_left _ hentry)
  · exact .inr (.inl (expired_stays hopen hrules hexpired))
  · have hown_timer := Operation.is_timeout_of_frame hframe
    by_cases hposted : ∃ cqe ∈ (w.kernel_step ev).unreaped, cqe.origin.op.is_timeout = true
    · -- The first timer to expire can only have been that of the call.
      obtain ⟨cqe, hcqe, htimer⟩ := hposted
      have hexpired : w.expired frame := by
        rcases timer_posted hopen hrules hcqe htimer with hold | ⟨request, hrequest, horigin, hle⟩
        · rw [hunreaped cqe hold] at htimer
          cases htimer
        · rw [horigin] at htimer
          exact .inl ⟨own, hown, hframe, Nat.le_trans (hfirst request hrequest htimer) hle⟩
      exact .inr (.inl (expired_stays hopen hrules hexpired))
    · have hunposted : ∀ cqe ∈ (w.kernel_step ev).unreaped, cqe.origin.op.is_timeout = false :=
        fun cqe hcqe => Bool.eq_false_iff.mpr fun htimer => hposted ⟨cqe, hcqe, htimer⟩
      refine .inr (.inr ⟨⟨own, ?_, hframe, ?_⟩, ?_, hunposted⟩)
      · apply (timer_stays hopen hrules hown hown_timer).resolve_right
        intro hpair
        obtain ⟨cqe, hcqe, horigin⟩ := hpair
        exact hposted ⟨cqe, hcqe, by rw [horigin, hown_timer]⟩
      · intro request hrequest htimer
        -- No timer is pending, so none comes to be in flight.
        rcases kernel_step_inflight hrequest with hold | hnew
        · exact hfirst request hold htimer
        · rw [hpending _ hnew] at htimer
          cases htimer
      · exact fun entry hentry => hpending entry (w.kernel_step_pending ev hentry)

/-- A call whose timer is the first to expire is not woken by another. -/
theorem may_end_of_own_timer_first {frame : Ptr} (h : w.own_timer_first frame)
    (hcq : w.cq ≠ []) : w.may_end frame := by
  obtain ⟨cqe, hcqe⟩ := List.exists_mem_of_ne_nil _ hcq
  have hunreaped : cqe ∈ w.unreaped := by
    rw [w.drained_unreaped]
    exact List.mem_append_left _ hcqe
  cases htimer : cqe.origin.op.is_timeout with
  | false => exact .inl ⟨cqe, hcqe, htimer⟩
  | true =>
    right
    rcases h with honly | hexpired | ⟨-, -, hcall⟩
    · refine .inr ⟨cqe, hunreaped, honly _ ?_ htimer⟩
      exact List.mem_append_right _ (List.mem_map_of_mem hunreaped)
    · exact hexpired
    · rw [hcall cqe hunreaped] at htimer
      cases htimer

end World

end kernel

/-! ### Calls that sleep -/

/-- A ring, and the stack frame of the timed wait that is asleep on it. -/
structure WaitState where
  py : PyState
  asleep : Option Ptr

/-- What can happen to it. -/
inductive WaitLabel where
  /-- A call that is not a timed wait, from begin to end. -/
  | call (l : RingLabel)
  /-- A timed wait pushes its timeout entry and falls asleep, unless it raises. -/
  | timed_wait (seconds nsec : Int) (first last : Enter)
  /-- The kernel acts. -/
  | kernel (ev : KernelEvent)
  /-- The timed wait finds a completion and returns. -/
  | wake

/-- A call that is not a timed wait. -/
def RingLabel.is_other_call : RingLabel → Prop
  | submit_and_wait_with_timeout .. | kernel _ => False
  | _ => True

/-- The state in which a timed wait sleeps, or has raised. -/
def WaitState.timed_wait (s : WaitState) (seconds nsec : Int) (first last : Enter) : WaitState :=
  let (result, py) := submit_and_wait_with_timeout seconds nsec first last s.py
  { py := py, asleep := result.toOption.map fun _ => s.py.world.blocks }

/-- When a step can be taken: one call is made after the other, a call sleeps
    until the completion queue holds something, and the kernel keeps its
    promises of timers. -/
def WaitLabel.allowed (s : WaitState) : WaitLabel → Prop
  | .call l => s.asleep = none ∧ l.is_other_call ∧ l.meets World.timer_rules s.py
  | .timed_wait .. => s.asleep = none
  | .kernel ev => s.py.world.timer_rules ev
  | .wake => s.asleep.isSome = true ∧ s.py.world.cq ≠ []

/-- The state afterwards. -/
def WaitState.run (s : WaitState) : WaitLabel → WaitState
  | .call l => { s with py := l.run s.py }
  | .timed_wait seconds nsec first last => s.timed_wait seconds nsec first last
  | .kernel ev => { s with py := (RingLabel.kernel ev).run s.py }
  | .wake => { s with asleep := none }

/-- Timed waits and all other calls on one ring. -/
def wait_system : System WaitState WaitLabel where
  init := fun s => s.py.initial ∧ s.asleep = none
  step := fun s l s' => l.allowed s ∧ s' = s.run l

/-- A ring on which a call sleeps is open, and the call is known by the stack
    frame it has just got. -/
theorem WaitState.asleep_open {s : WaitState} {seconds nsec : Int} {first last : Enter}
    {frame : Ptr} (h : (s.timed_wait seconds nsec first last).asleep = some frame) :
    (s.timed_wait seconds nsec first last).py.world.is_open = true := by
  unfold WaitState.timed_wait submit_and_wait_with_timeout at h ⊢
  cases hsec : extract_u64 seconds with
  | error e =>
    rw [hsec] at h
    cases h
  | ok sec =>
    cases hnsec : extract_u32 nsec with
    | error e =>
      rw [hsec, hnsec] at h
      cases h
    | ok nsec' =>
      rw [hsec, hnsec] at h
      change (wait_with_timeout sec nsec' first last s.py.world).1.toOption.map _ = _ at h
      show (wait_with_timeout sec nsec' first last s.py.world).2.is_open = true
      -- Only a wait that returned has slept.
      have hcases := wait_with_timeout_cases sec nsec' first last s.py.world
      rcases hrun : wait_with_timeout sec nsec' first last s.py.world with ⟨r, w'⟩
      rw [hrun] at h
      cases r with
      | error e => cases h
      | ok n =>
        cases Fallible.wp_ok hcases hrun with
        | waited hopen k hfirst hroom k' hlast =>
          rw [(World.consume_sameProcess _ k').is_open, (World.push_sameProcess _ _).is_open]
          exact World.is_open_of_has_room hroom

/-- A timed wait in a run, from the step in which it falls asleep, with the
    completion queue just emptied, to the step in which it returns. -/
structure TimedWaitIn (tr : List (Step WaitState WaitLabel)) (began ended : Step WaitState WaitLabel)
    (frame : Ptr) : Prop where
  steps : ∃ pre mid post, tr = pre ++ began :: (mid ++ ended :: post) ∧
    ∀ t ∈ mid, t.label ≠ .wake
  begins : ∃ seconds nsec first last, began.label = .timed_wait seconds nsec first last
  emptied : began.src.py.world.cq = []
  asleep : began.dst.asleep = some frame
  ends : ended.label = .wake

/-- **Run lemma**: until it is woken, a call sleeps on an open ring, and its
    timer stays the first to expire. -/
theorem sleeping_path {s s' : WaitState} {tr : List (Step WaitState WaitLabel)} {frame : Ptr}
    (h : Path wait_system s tr s') (hwake : ∀ t ∈ tr, t.label ≠ .wake)
    (hasleep : s.asleep = some frame) (hopen : s.py.world.is_open = true)
    (hfirst : s.py.world.own_timer_first frame) : s'.py.world.own_timer_first frame := by
  have hsleeping := h.invariant_along (I := fun s => s.asleep = some frame ∧
      s.py.world.is_open = true ∧ s.py.world.own_timer_first frame)
    (C := fun _ l => l ≠ .wake) ?_ hwake ⟨hasleep, hopen, hfirst⟩
  · exact hsleeping.2.2
  · intro s l s' hpair hwake hstep
    obtain ⟨hasleep, hopen, hfirst⟩ := hpair
    obtain ⟨hallowed, rfl⟩ := hstep
    -- While a call sleeps, the kernel alone acts.
    cases l with
    | call l =>
      rw [hallowed.1] at hasleep
      cases hasleep
    | timed_wait seconds nsec first last =>
      rw [hallowed] at hasleep
      cases hasleep
    | kernel ev =>
      refine ⟨hasleep, ?_, World.own_timer_first_stays hopen hallowed hfirst⟩
      rw [← hopen]
      exact (World.kernel_step_sameProcess _ ev).is_open
    | wake => exact absurd rfl hwake

/-- **A timed wait is ended by a completion or by its own timer** if, when it
    falls asleep, its timer is the first to expire. -/
theorem timed_wait_ends_rightly {s₀ s : WaitState} {tr : List (Step WaitState WaitLabel)}
    (h : Path wait_system s₀ tr s) {began ended : Step WaitState WaitLabel} {frame : Ptr}
    (hwait : TimedWaitIn tr began ended frame)
    (hfirst : began.dst.py.world.own_timer_first frame) : ended.src.py.world.may_end frame := by
  obtain ⟨pre, mid, post, rfl, hmid⟩ := hwait.steps
  obtain ⟨seconds, nsec, first, last, hlabel⟩ := hwait.begins
  have hbegan := h.step_of_mem (t := began) (by simp)
  have hended := h.step_of_mem (t := ended) (by simp)
  have hasleep := hwait.asleep
  rw [hwait.ends] at hended
  have hopen : began.dst.py.world.is_open = true := by
    rw [hbegan.2, hlabel] at hasleep ⊢
    exact WaitState.asleep_open hasleep
  have hsleep : Path wait_system began.dst mid ended.src := h.from_dst.to_src
  exact World.may_end_of_own_timer_first
    (sleeping_path hsleep hmid hasleep hopen hfirst) hended.1.2

/-! ### A timer that is left behind -/

/-- A ring on which nothing has happened. -/
def WaitState.fresh : WaitState := ⟨.fresh 2 0, none⟩

/-- A wait of one second, in which nothing happens. -/
def quiet_second : List WaitLabel :=
  [.timed_wait 1 0 (.ok 0) (.ok 1), .kernel (.tick 1000000000), .kernel (.complete 0 (-62)), .wake]

theorem quiet_second_path :
    Path wait_system .fresh (trace_of WaitState.run quiet_second .fresh)
      (quiet_second.foldl WaitState.run .fresh) := by
  refine path_of _ _ (List.forall_mem_cons.mpr ⟨⟨rfl, rfl⟩, List.forall_mem_cons.mpr
    ⟨⟨trivial, rfl⟩, List.forall_mem_cons.mpr ⟨⟨?_, rfl⟩, List.forall_mem_singleton.mpr
    ⟨⟨by decide, by decide⟩, rfl⟩⟩⟩⟩)
  intro request hrequest _
  cases hrequest
  decide

/-- It is ended by its timer. -/
theorem timed_wait_ends_rightly_alone :
    ((quiet_second.take 3).foldl WaitState.run .fresh).py.world.may_end 0 := by
  have hwait : TimedWaitIn (trace_of WaitState.run quiet_second .fresh)
      ⟨.fresh, .timed_wait 1 0 (.ok 0) (.ok 1), (quiet_second.take 1).foldl WaitState.run .fresh⟩
      ⟨(quiet_second.take 3).foldl WaitState.run .fresh, .wake,
        quiet_second.foldl WaitState.run .fresh⟩ 0 :=
    { steps := ⟨[], [_, _], [], rfl, by simp⟩
      begins := ⟨1, 0, .ok 0, .ok 1, rfl⟩
      emptied := rfl
      asleep := rfl
      ends := rfl }
  exact timed_wait_ends_rightly quiet_second_path hwait (by decide)

/-- A read is completed within a wait of ten seconds, whose timer stays behind;
    then a wait of a hundred seconds begins. -/
def two_waits : List WaitLabel :=
  [.call (.prep (.read (.int 3) 16 (-1) none) (.ok 0)), .timed_wait 10 0 (.ok 1) (.ok 1),
    .kernel (.complete 0 16), .wake, .call (.get_completion_entries []),
    .timed_wait 100 0 (.ok 0) (.ok 1), .kernel (.tick 10000000000), .kernel (.complete 0 (-62)),
    .wake]

theorem two_waits_path :
    Path wait_system .fresh (trace_of WaitState.run two_waits .fresh)
      (two_waits.foldl WaitState.run .fresh) := by
  refine path_of _ _ (List.forall_mem_cons.mpr ⟨⟨⟨rfl, trivial, trivial⟩, rfl⟩,
    List.forall_mem_cons.mpr ⟨⟨rfl, rfl⟩, List.forall_mem_cons.mpr ⟨⟨?_, rfl⟩,
    List.forall_mem_cons.mpr ⟨⟨⟨by decide, by decide⟩, rfl⟩, List.forall_mem_cons.mpr
    ⟨⟨⟨rfl, trivial, trivial⟩, rfl⟩, List.forall_mem_cons.mpr ⟨⟨rfl, rfl⟩,
    List.forall_mem_cons.mpr ⟨⟨trivial, rfl⟩, List.forall_mem_cons.mpr ⟨⟨?_, rfl⟩,
    List.forall_mem_singleton.mpr ⟨⟨by decide, by decide⟩, rfl⟩⟩⟩⟩⟩⟩⟩⟩⟩)
  · intro request hrequest htimer
    cases hrequest
    cases htimer
  · intro request hrequest _
    cases hrequest
    decide

/-- Ten seconds later the second wait is ended by the timer of the first. -/
theorem timed_wait_ended_by_stale_timer :
    let tr := trace_of WaitState.run two_waits .fresh
    wait_system.init .fresh ∧ Path wait_system .fresh tr (two_waits.foldl WaitState.run .fresh) ∧
      ∃ began ended frame, TimedWaitIn tr began ended frame ∧
        ¬ended.src.py.world.may_end frame := by
  intro tr
  refine ⟨⟨fresh_initial, rfl⟩, two_waits_path, ?_⟩
  let before := two_waits.take 5
  let asleep := two_waits.take 8
  refine ⟨⟨before.foldl WaitState.run .fresh, _, _⟩, ⟨asleep.foldl WaitState.run .fresh, .wake, _⟩,
    2, ⟨⟨[_, _, _, _, _], [_, _], [], rfl, ?_⟩, ⟨100, 0, .ok 0, .ok 1, rfl⟩, by decide, by decide,
      rfl⟩, by decide⟩
  simp

end CenturyRing
