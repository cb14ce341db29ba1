import CenturyRing.Waits
import CenturyRing.Events

/-! # When the dispatcher sleeps

  The loop of `_dispatch_event_results` step by step: it waits until the
  eventfd can be read, reads it, drains the completion queue round by round,
  and goes through the events. The kernel posts a completion in one step and
  increments the eventfd in a later one, and acts between any two steps of the
  dispatcher. Other tasks run only while the dispatcher awaits the eventfd.

  The eventfd is read before the queue is drained, so whatever the drain does
  not see is still to be signalled. That is the invariant.
-/

open LTS

namespace CenturyRing

/-! ### Rounds of the drain loop -/

namespace World

/-- The first `seen` completions are taken off the queue. -/
def take_seen (w : World) (seen : Nat) : World :=
  { w with ring := { w.ring with
      the_io_uring := w.ring.the_io_uring.map fun uring =>
        { uring with cq := uring.cq.drop seen } } }

@[simp] theorem take_seen_cq (w : World) (seen : Nat) :
    (w.take_seen seen).cq = w.cq.drop seen := by
  cases h : w.ring.the_io_uring <;> simp [take_seen, cq, h]

@[simp] theorem take_seen_is_open (w : World) (seen : Nat) :
    (w.take_seen seen).is_open = w.is_open := by
  cases h : w.ring.the_io_uring <;> simp [take_seen, is_open, h]

/-- A round that nothing happens in is a round of the drain loop. -/
theorem take_seen_drained (w : World) : w.take_seen w.cq.length = w.drained := by
  cases h : w.ring.the_io_uring <;> simp [take_seen, drained, cq, h]

end World

/-! ### The dispatcher, the kernel and the tasks -/

/-- Where the dispatcher is. `entries` are the completions taken so far. -/
inductive Point where
  /-- It awaits `anyio.wait_readable(self.efd)`. -/
  | waiting
  /-- The eventfd can be read, and the dispatcher is about to run. -/
  | readable
  /-- It is about to make `completion` and to ask whether that is empty. -/
  | testing (entries : List Cqe)
  /-- `completion` holds `seen` entries. -/
  | taking (entries : List Cqe) (seen : Nat)
  | syncing (entries : List Cqe)
  /-- It goes through the list of events. -/
  | handing
  /-- An error has ended it. -/
  | raised
  deriving DecidableEq, Repr

namespace Point

/-- The completions the dispatcher has taken off the queue in its drain loop. -/
def taken : Point → List Cqe
  | testing entries | taking entries _ | syncing entries => entries
  | _ => []

/-- The dispatcher is in its drain loop. -/
def draining : Point → Prop
  | testing _ | taking .. | syncing _ => True
  | _ => False

/-- It is through with the drain loop, or has not begun it. -/
def off_loop : Point → Prop
  | waiting | readable | handing => True
  | _ => False

/-- The dispatcher awaits, and other tasks run. -/
def awaiting : Point → Prop
  | waiting | readable | raised => True
  | _ => False

instance (point : Point) : Decidable point.awaiting :=
  match point with
  | waiting | readable | raised => .isTrue trivial
  | testing _ | taking .. | syncing _ | handing => .isFalse id

theorem awaiting.not_draining {point : Point} (h : point.awaiting) : ¬point.draining := by
  intro hdraining
  cases point <;> first | exact hdraining.elim | exact h.elim

end Point

/-- The manager, and what is between it and the kernel. -/
structure Wakeup (S : MemoryObjectStream CompletionEvent) where
  manager : UringIoManager S
  /-- The completions posted that the eventfd has not been incremented for. -/
  unsignalled : Nat
  point : Point

/-- What can happen. -/
inductive WakeupLabel where
  /-- A task uses the ring, or the kernel acts. -/
  | ring (l : RingLabel)
  /-- The kernel increments the eventfd. -/
  | signal
  /-- `wait_for_completion` is called, resumed or cancelled. -/
  | call (l : ManagerLabel)
  /-- The dispatcher takes a step. -/
  | dispatcher

instance (l : RingLabel) : Decidable (∀ bursts, l ≠ .get_completion_entries bursts) :=
  match l with
  | .get_completion_entries bursts => .isFalse fun h => h bursts rfl
  | .prep .. | .submit _ | .submit_and_wait .. | .submit_and_wait_with_timeout ..
  | .kernel _ | .close | .close_handle .. | .exit_handle .. => .isTrue nofun

/-- The label is that of a call of `wait_for_completion`. -/
def ManagerLabel.of_call : ManagerLabel → Prop
  | .wait_for_completion .. | .resume _ | .cancel _ => True
  | _ => False

instance (l : ManagerLabel) : Decidable l.of_call :=
  match l with
  | .wait_for_completion .. | .resume _ | .cancel _ => .isTrue trivial
  | .ring _ | .reap _ | .dispatch => .isFalse id

namespace UringIoManager

variable {S : MemoryObjectStream CompletionEvent}

def set_world (m : UringIoManager S) (w : World) : UringIoManager S :=
  { m with py := { m.py with world := w } }

theorem call_sameEvents (m : UringIoManager S) {l : ManagerLabel} (h : l.of_call) :
    SameEvents (m.after_use l) (m.run l) := by
  cases l with
  | wait_for_completion id user_data answer =>
    exact m.wait_for_completion_sameEvents id user_data answer
  | resume id => exact m.resume_sameEvents id
  | cancel id => exact m.cancel_sameEvents id
  | ring l => exact h.elim
  | reap bursts => exact h.elim
  | dispatch => exact h.elim

/-- A call uses the ring at most to submit. -/
theorem used_of_call (m : UringIoManager S) {l : ManagerLabel} (h : l.of_call) :
    m.used l = none ∨ ∃ answer, m.used l = some (.submit answer) := by
  cases l with
  | wait_for_completion id user_data answer =>
    by_cases hforce : m._force_submissions = true
    · exact Or.inr ⟨answer, if_pos hforce⟩
    · exact Or.inl (if_neg hforce)
  | resume id => exact Or.inl rfl
  | cancel id => exact Or.inl rfl
  | ring l => exact h.elim
  | reap bursts => exact h.elim
  | dispatch => exact h.elim

end UringIoManager

namespace Wakeup

variable {S : MemoryObjectStream CompletionEvent}

def world (s : Wakeup S) : World := s.manager.py.world

/-- A use of the ring, or a step of the kernel. -/
def use_ring (s : Wakeup S) (l : RingLabel) : Wakeup S :=
  let py := l.run s.manager.py
  { s with
    manager := { s.manager with py := py }
    unsignalled := s.unsignalled + (py.world.kernel.posted.length - s.world.kernel.posted.length) }

def signal (s : Wakeup S) : Wakeup S :=
  { s with
    manager := { s.manager with efd := s.manager.efd + 1 }
    unsignalled := s.unsignalled - 1 }

/-- The loop over the drained entries, and the list that is returned. -/
def complete_entries (s : Wakeup S) (entries : List Cqe) : Wakeup S :=
  let (events, owned_data) := CenturyRing.complete_entries s.world.ring.owned_data entries
  let manager := s.manager.set_world
    { s.world with ring := { s.world.ring with owned_data := owned_data } }
  { s with manager := { manager with reaped := events }, point := .handing }

/-- The next step of the dispatcher. -/
def advance (s : Wakeup S) : Wakeup S :=
  match s.point with
  | .waiting => { s with point := .readable }
  | .readable =>
    -- `os.read(self.efd, 8)`; then `get_completion_entries` looks at the ring.
    let point := if s.world.is_open then .testing [] else .raised
    { s with manager := { s.manager with efd := 0 }, point := point }
  | .testing entries =>
    if s.world.cq = [] then s.complete_entries entries
    else { s with point := .taking entries s.world.cq.length }
  | .taking entries seen =>
    { s with
      manager := s.manager.set_world (s.world.take_seen seen)
      point := .syncing (entries ++ s.world.cq.take seen) }
  | .syncing entries => { s with point := .testing entries }
  | .handing =>
    if s.manager.reaped = [] then { s with point := .waiting }
    else { s with manager := s.manager.dispatch }
  | .raised => s

/-- The state afterwards. -/
def run (s : Wakeup S) : WakeupLabel → Wakeup S
  | .ring l => s.use_ring l
  | .signal => s.signal
  | .call l => { s with manager := s.manager.run l }
  | .dispatcher => s.advance

/-- When a step can be taken. Nobody but the dispatcher reaps the ring. -/
def possible (s : Wakeup S) : WakeupLabel → Prop
  | .ring l => (∃ ev, l = .kernel ev) ∨
      s.point.awaiting ∧ ∀ bursts, l ≠ .get_completion_entries bursts
  | .signal => 0 < s.unsignalled
  | .call l => s.point.awaiting ∧ l.of_call ∧ s.manager.possible l
  | .dispatcher => s.point = .waiting → 0 < s.manager.efd

instance (s : Wakeup S) (l : WakeupLabel) : Decidable (s.possible l) :=
  match l with
  | .ring l => inferInstanceAs (Decidable ((∃ ev, l = .kernel ev) ∨
      s.point.awaiting ∧ ∀ bursts, l ≠ .get_completion_entries bursts))
  | .signal => inferInstanceAs (Decidable (0 < s.unsignalled))
  | .call l =>
    inferInstanceAs (Decidable (s.point.awaiting ∧ l.of_call ∧ s.manager.possible l))
  | .dispatcher => inferInstanceAs (Decidable (s.point = .waiting → 0 < s.manager.efd))

end Wakeup

/-- The dispatcher loop, any number of calls of `wait_for_completion`, and the
    kernel. -/
def wakeup_system (S : MemoryObjectStream CompletionEvent) : System (Wakeup S) WakeupLabel where
  init := fun s => (manager_system S).init s.manager ∧ s.unsignalled = 0 ∧ s.point = .waiting
  step := fun s l s' => s.possible l ∧ s' = s.run l

/-! ### What is posted -/

namespace World

theorem post_posted_extends (w : World) (cqe : Cqe) :
    w.kernel.posted <+: (w.post cqe).kernel.posted := by
  by_cases hopen : w.is_open = true
  · rw [post_posted hopen]
    exact List.prefix_append _ _
  · rw [post_closed (Bool.eq_false_iff.mpr hopen)]

theorem complete_posted_extends (w : World) (i : Nat) (result : Int32) :
    w.kernel.posted <+: (w.complete i result).kernel.posted := by
  unfold complete
  split
  · exact List.prefix_refl _
  · exact (w.finish i).post_posted_extends _

/-- What has been posted stays posted. -/
theorem kernel_step_posted_extends (w : World) (ev : KernelEvent) :
    w.kernel.posted <+: (w.kernel_step ev).kernel.posted := by
  cases ev with
  | consume k =>
    show _ <+: (w.consume k).kernel.posted
    rw [consume_posted]
  | complete i result => exact w.complete_posted_extends i result
  | complete_silently i => exact List.prefix_refl _
  | fail_chain i result => exact (w.cancel_rest i).complete_posted_extends i result
  | write i bytes =>
    show _ <+: (w.write i bytes).kernel.posted
    unfold write
    split <;> exact List.prefix_refl _
  | flush =>
    show _ <+: w.flush.kernel.posted
    unfold flush
    split <;> exact List.prefix_refl _
  | tick nanos => exact List.prefix_refl _

end World

theorem Effect.posted_extends {C : World → KernelEvent → Prop} {w w' : World} {es : List Entry}
    {cqes : List Cqe} (h : Effect C w es cqes w') : w.kernel.posted <+: w'.kernel.posted := by
  cases h with
  | quiet hquiet hcounter => rw [hquiet.posted]
  | queued hquiet hcounter huser_data hfresh hprepared hroom => simp [hquiet.posted]
  | timer hquiet hcounter hroom hquiet' hcounter' => simp [hquiet'.posted, hquiet.posted]
  | reaped bursts hopen hmeets =>
    obtain ⟨new, hposted, -⟩ := World.drain_posted bursts w hopen
    exact ⟨new, hposted.symm⟩
  | closed => exact List.prefix_refl _
  | kernel ev hmeets => exact w.kernel_step_posted_extends ev

/-- What a use of the ring other than a reap does to the completion queue, if
    nothing overflows: new completions come to its end. -/
theorem RingLabel.run_posted {l : RingLabel} {s : PyState}
    (hl : ∀ bursts, l ≠ .get_completion_entries bursts) (hbefore : s.world.kernel.overflow = [])
    (hafter : (l.run s).world.kernel.overflow = []) :
    ∃ new, (l.run s).world.kernel.posted = s.world.kernel.posted ++ new ∧
      ((l.run s).world.is_open = true →
        s.world.is_open = true ∧ (l.run s).world.cq = s.world.cq ++ new) := by
  have heffect := l.effect s (l.meets_true s)
  have hreaps : l.reaps s = [] := by
    cases l with
    | get_completion_entries bursts => exact absurd rfl (hl bursts)
    | _ => rfl
  rw [hreaps] at heffect
  by_cases hopen : (l.run s).world.is_open = true
  · obtain ⟨new, hposted, hunreaped⟩ := heffect.posted hopen
    have hopen' := heffect.is_open hopen
    rw [World.unreaped_eq, World.unreaped_eq, if_pos hopen, if_pos hopen', hbefore, hafter] at hunreaped
    exact ⟨new, hposted, fun _ => ⟨hopen', by simpa using hunreaped⟩⟩
  · obtain ⟨new, hposted⟩ := heffect.posted_extends
    exact ⟨new, hposted.symm, fun h => absurd h hopen⟩

namespace Wakeup

variable {S : MemoryObjectStream CompletionEvent} {s s' : Wakeup S} {unseen new : List Cqe}

/-! ### Nothing is left unsignalled -/

/-- What holds in every run in which no completion overflows; `unseen` are the
    completions that the dispatcher has not taken. -/
structure Inv (s : Wakeup S) (unseen : List Cqe) : Prop where
  /-- Every completion that was posted has been dealt with, or is about to be,
      or was taken off the queue, or is unseen. -/
  posted : s.world.kernel.posted.map (fun cqe => (cqe.user_data, cqe.result)) =
    (s.manager.dispatched ++ s.manager.reaped).map
        (fun event => (event.user_data, event.result)) ++
      (s.point.taken ++ unseen).map (fun cqe => (cqe.user_data, cqe.result))
  /-- Until the ring is closed, the unseen completions are in its queue. -/
  in_queue : s.world.is_open = true → s.world.cq = unseen
  overflow : s.world.kernel.overflow = []
  listed : s.manager.reaped ≠ [] → s.point = .handing
  draining : s.point.draining → s.world.is_open = true
  /-- Outside the drain loop, the eventfd has been or will be incremented for
      every unseen completion. -/
  signalled : s.point.off_loop → unseen.length ≤ s.manager.efd + s.unsignalled

/-- More completions have been posted, and as many signals are due. -/
theorem Inv.post (h : s.Inv unseen) (hevents : s'.manager.dispatched = s.manager.dispatched ∧
      s'.manager.reaped = s.manager.reaped) (hpoint : s'.point = s.point)
    (hposted : s'.world.kernel.posted = s.world.kernel.posted ++ new)
    (hqueue : s'.world.is_open = true → s.world.is_open = true ∧ s'.world.cq = s.world.cq ++ new)
    (hoverflow : s'.world.kernel.overflow = []) (hopen : s.point.draining → s'.world.is_open = true)
    (hsignals : s'.manager.efd + s'.unsignalled = s.manager.efd + s.unsignalled + new.length) :
    s'.Inv (unseen ++ new) := by
  constructor
  · rw [hposted, List.map_append, h.posted, hevents.1, hevents.2, hpoint]
    simp
  · intro hopen'
    obtain ⟨hbefore, hcq⟩ := hqueue hopen'
    rw [hcq, h.in_queue hbefore]
  · exact hoverflow
  · rw [hevents.2, hpoint]
    exact h.listed
  · rw [hpoint]
    exact hopen
  · rw [hpoint, hsignals, List.length_append]
    intro hoff
    have hle := h.signalled hoff
    omega

/-- A task uses the ring, or the kernel acts. -/
theorem Inv.use_ring (h : s.Inv unseen) {l : RingLabel} (hpossible : s.possible (.ring l))
    (hoverflow : (s.use_ring l).world.kernel.overflow = []) :
    ∃ unseen', (s.use_ring l).Inv unseen' := by
  -- Nobody but the dispatcher reaps.
  have hl : ∀ bursts, l ≠ .get_completion_entries bursts := by
    rcases hpossible with ⟨ev, rfl⟩ | ⟨-, hl⟩
    · intro bursts hl
      cases hl
    · exact hl
  obtain ⟨new, hposted, hqueue⟩ := RingLabel.run_posted hl h.overflow hoverflow
  refine ⟨unseen ++ new, h.post ⟨rfl, rfl⟩ rfl hposted hqueue hoverflow ?_ ?_⟩
  · -- While the dispatcher drains the queue, only the kernel acts.
    intro hdraining
    rcases hpossible with ⟨ev, rfl⟩ | ⟨hawaiting, -⟩
    · show (s.manager.py.world.kernel_step ev).is_open = true
      rw [(World.kernel_step_sameProcess _ ev).is_open]
      exact h.draining hdraining
    · exact absurd hdraining hawaiting.not_draining
  · show s.manager.efd + (s.unsignalled + (_ - s.manager.py.world.kernel.posted.length)) = _
    rw [hposted, List.length_append, Nat.add_sub_cancel_left, Nat.add_assoc]

theorem Inv.signal (h : s.Inv unseen) (hpossible : 0 < s.unsignalled) : s.signal.Inv unseen := by
  refine ⟨h.posted, h.in_queue, h.overflow, h.listed, h.draining, ?_⟩
  intro hoff
  have hle := h.signalled hoff
  show unseen.length ≤ s.manager.efd + 1 + (s.unsignalled - 1)
  omega

theorem Inv.call (h : s.Inv unseen) {l : ManagerLabel} (hpossible : s.possible (.call l))
    (hoverflow : (s.run (.call l)).world.kernel.overflow = []) :
    ∃ unseen', (s.run (.call l)).Inv unseen' := by
  obtain ⟨hawaiting, hcall, -⟩ := hpossible
  have hsame := s.manager.call_sameEvents hcall
  have hevents := s.manager.after_use_events l
  have hworld : (s.run (.call l)).world = (s.manager.after_use l).py.world := by
    show (s.manager.run l).py.world = _
    rw [hsame.py]
  -- A call changes the ring only by its submit.
  have hpost : ∀ new,
      (s.manager.after_use l).py.world.kernel.posted = s.world.kernel.posted ++ new →
      ((s.manager.after_use l).py.world.is_open = true →
        s.world.is_open = true ∧ (s.manager.after_use l).py.world.cq = s.world.cq ++ new) →
      (s.manager.after_use l).efd = s.manager.efd + new.length →
      (s.run (.call l)).Inv (unseen ++ new) := by
    intro new hposted hqueue hefd
    rw [← hworld] at hposted hqueue
    refine h.post ⟨hsame.dispatched.trans hevents.1, hsame.reaped.trans hevents.2⟩ rfl hposted
      hqueue hoverflow (fun hdraining => absurd hdraining hawaiting.not_draining) ?_
    show (s.manager.run l).efd + s.unsignalled = _
    rw [hsame.efd, hefd]
    omega
  rcases s.manager.used_of_call hcall with hused | ⟨answer, hused⟩
  · have hafter : s.manager.after_use l = s.manager := by rw [UringIoManager.after_use, hused]
    rw [hafter] at hpost
    exact ⟨_, hpost [] (List.append_nil _).symm
      (fun hopen => ⟨hopen, (List.append_nil _).symm⟩) rfl⟩
  · have hafter : s.manager.after_use l = s.manager.use_ring (.submit answer) := by
      rw [UringIoManager.after_use, hused]
    rw [hworld, hafter] at hoverflow
    have hsubmit : ∀ bursts, RingLabel.submit answer ≠ .get_completion_entries bursts := by
      intro bursts heq
      cases heq
    obtain ⟨new, hposted, hqueue⟩ := RingLabel.run_posted hsubmit h.overflow hoverflow
    rw [hafter] at hpost
    refine ⟨_, hpost new hposted hqueue ?_⟩
    show s.manager.efd + (_ - s.manager.py.world.kernel.posted.length) = _
    rw [hposted, List.length_append, Nat.add_sub_cancel_left]

/-- The dispatcher is through with the list it went through before. -/
theorem Inv.reaped_nil (h : s.Inv unseen) (hpoint : s.point ≠ .handing) : s.manager.reaped = [] := by
  by_contra hreaped
  exact hpoint (h.listed hreaped)

/-- The dispatcher goes on to another point with nothing done. -/
theorem Inv.go_on (h : s.Inv unseen) {point : Point} (hreaped : s.manager.reaped = [])
    (htaken : point.taken = s.point.taken) (hdraining : point.draining → s.point.draining)
    (hoff : point.off_loop → s.point.off_loop) :
    ({ s with point := point } : Wakeup S).Inv unseen := by
  constructor
  · show s.world.kernel.posted.map _ = _ ++ (point.taken ++ unseen).map _
    rw [htaken]
    exact h.posted
  · exact h.in_queue
  · exact h.overflow
  · exact fun hne => absurd hreaped hne
  · exact fun hpoint => h.draining (hdraining hpoint)
  · exact fun hpoint => h.signalled (hoff hpoint)

/-- The drain loop is over: the queue was found empty, so nothing is unseen. -/
theorem Inv.complete_entries (h : s.Inv unseen) {entries : List Cqe}
    (hpoint : s.point = .testing entries) (hcq : s.world.cq = []) :
    (s.complete_entries entries).Inv [] := by
  have hopen := h.draining (by rw [hpoint]; trivial)
  have hnone : unseen = [] := by rw [← h.in_queue hopen, hcq]
  have hreaped : s.manager.reaped = [] := by
    apply h.reaped_nil
    rw [hpoint]
    exact nofun
  have hposted := h.posted
  rw [hpoint, hreaped, hnone] at hposted
  refine ⟨?_, fun _ => hcq, h.overflow, fun _ => rfl, nofun, fun _ => Nat.zero_le _⟩
  show s.world.kernel.posted.map _ = (s.manager.dispatched ++
    (CenturyRing.complete_entries s.world.ring.owned_data entries).1).map _ ++ ([] ++ []).map _
  have hevents := complete_entries_events s.world.ring.owned_data entries
  simp [hposted, hevents, Point.taken]

/-- A round of the drain loop takes what it has seen. -/
theorem Inv.take_seen (h : s.Inv unseen) {entries : List Cqe} {seen : Nat}
    (hpoint : s.point = .taking entries seen) : s.advance.Inv (unseen.drop seen) := by
  have hopen := h.draining (by rw [hpoint]; trivial)
  have hposted := h.posted
  have hlisted := h.reaped_nil (by rw [hpoint]; exact nofun)
  rw [hpoint] at hposted
  unfold advance
  rw [hpoint]
  refine ⟨?_, ?_, h.overflow, fun hreaped => absurd hlisted hreaped, ?_, nofun⟩
  · show _ = _ ++ ((entries ++ s.world.cq.take seen) ++ unseen.drop seen).map _
    rw [h.in_queue hopen, List.append_assoc, List.take_append_drop]
    exact hposted
  · intro _
    show (s.world.take_seen seen).cq = _
    rw [World.take_seen_cq, h.in_queue hopen]
  · intro _
    show (s.world.take_seen seen).is_open = true
    rw [World.take_seen_is_open, hopen]

/-- The dispatcher is done with one more event. -/
theorem Inv.dispatch (h : s.Inv unseen) (hpoint : s.point = .handing) :
    ({ s with manager := s.manager.dispatch } : Wakeup S).Inv unseen := by
  obtain ⟨hpy, hefd⟩ := s.manager.dispatch_ring
  have hworld : s.manager.dispatch.py.world = s.world := by rw [hpy]; rfl
  constructor
  · show s.manager.dispatch.py.world.kernel.posted.map _ = _
    rw [hworld, h.posted, s.manager.dispatch_events]
  · show s.manager.dispatch.py.world.is_open = true → s.manager.dispatch.py.world.cq = unseen
    rw [hworld]
    exact h.in_queue
  · show s.manager.dispatch.py.world.kernel.overflow = []
    rw [hworld]
    exact h.overflow
  · exact fun _ => hpoint
  · show s.point.draining → _
    rw [hpoint]
    exact nofun
  · show s.point.off_loop → unseen.length ≤ s.manager.dispatch.efd + s.unsignalled
    rw [hefd]
    exact h.signalled

/-- The eventfd is read. From here on it says nothing, and the drain loop has
    to look. -/
theorem Inv.read (h : s.Inv unseen) (hpoint : s.point = .readable) : s.advance.Inv unseen := by
  have hreaped : s.manager.reaped = [] := by
    apply h.reaped_nil
    rw [hpoint]
    exact nofun
  have hposted := h.posted
  rw [hpoint] at hposted
  unfold advance
  rw [hpoint]
  by_cases hopen : s.world.is_open = true
  · simp only [if_pos hopen]
    exact ⟨hposted, h.in_queue, h.overflow, fun hne => absurd hreaped hne, fun _ => hopen, nofun⟩
  · simp only [if_neg hopen]
    exact ⟨hposted, h.in_queue, h.overflow, fun hne => absurd hreaped hne, nofun, nofun⟩

/-- The dispatcher takes its next step. -/
theorem Inv.advance (h : s.Inv unseen) : ∃ unseen', s.advance.Inv unseen' := by
  by_cases hhanding : s.point = .handing
  · by_cases hreaped : s.manager.reaped = []
    · have hnext : s.advance = { s with point := .waiting } := by
        simp [Wakeup.advance, hhanding, hreaped]
      rw [hnext]
      refine ⟨unseen, h.go_on hreaped ?_ nofun fun _ => ?_⟩ <;> rw [hhanding]
      · rfl
      · trivial
    · have hnext : s.advance = { s with manager := s.manager.dispatch } := by
        simp [Wakeup.advance, hhanding, hreaped]
      rw [hnext]
      exact ⟨unseen, h.dispatch hhanding⟩
  -- Off the list, one case for each point of the loop.
  · have hreaped := h.reaped_nil hhanding
    cases hpoint : s.point with
    | waiting =>
      have hnext : s.advance = { s with point := .readable } := by simp [Wakeup.advance, hpoint]
      rw [hnext]
      refine ⟨unseen, h.go_on hreaped ?_ nofun fun _ => ?_⟩ <;> rw [hpoint]
      · rfl
      · trivial
    | readable => exact ⟨unseen, h.read hpoint⟩
    | testing entries =>
      by_cases hcq : s.world.cq = []
      -- The loop ends on an empty queue: nothing is unseen.
      · have hnext : s.advance = s.complete_entries entries := by
          simp [Wakeup.advance, hpoint, hcq]
        rw [hnext]
        exact ⟨[], h.complete_entries hpoint hcq⟩
      · have hnext : s.advance = { s with point := .taking entries s.world.cq.length } := by
          simp [Wakeup.advance, hpoint, hcq]
        rw [hnext]
        refine ⟨unseen, h.go_on hreaped ?_ (fun _ => ?_) nofun⟩ <;> rw [hpoint]
        · rfl
        · trivial
    | taking entries seen => exact ⟨unseen.drop seen, h.take_seen hpoint⟩
    | syncing entries =>
      have hnext : s.advance = { s with point := .testing entries } := by
        simp [Wakeup.advance, hpoint]
      rw [hnext]
      refine ⟨unseen, h.go_on hreaped ?_ (fun _ => ?_) nofun⟩ <;> rw [hpoint]
      · rfl
      · trivial
    | handing => exact absurd hpoint hhanding
    | raised =>
      have hnext : s.advance = s := by simp [Wakeup.advance, hpoint]
      rw [hnext]
      exact ⟨unseen, h⟩

theorem Inv.initial (hinit : (wakeup_system S).init s) : s.Inv [] := by
  obtain ⟨⟨hring, -, -, -, hreaped, hdispatched⟩, -, hpoint⟩ := hinit
  have hblank := hring.blank
  have hqueue := hblank.unreaped
  rw [World.unreaped_eq, if_pos hblank.is_open, List.append_eq_nil_iff] at hqueue
  refine ⟨?_, fun _ => hqueue.1, hqueue.2, fun hne => absurd hreaped hne, ?_, fun _ => Nat.zero_le _⟩
  · show s.manager.py.world.kernel.posted.map _ = _
    rw [hblank.posted, hdispatched, hreaped, hpoint]
    rfl
  · rw [hpoint]
    exact nofun

/-- **Step lemma**: every step after which nothing has overflowed keeps the
    invariant. -/
theorem Inv.step (h : s.Inv unseen) {l : WakeupLabel} (hstep : (wakeup_system S).step s l s')
    (hoverflow : s'.world.kernel.overflow = []) : ∃ unseen', s'.Inv unseen' := by
  obtain ⟨hpossible, rfl⟩ := hstep
  cases l with
  | ring l => exact h.use_ring hpossible hoverflow
  | signal => exact ⟨unseen, h.signal hpossible⟩
  | call l => exact h.call hpossible hoverflow
  | dispatcher => exact h.advance

end Wakeup

/-! ### What is processed -/

namespace UringIoManager

variable {S : MemoryObjectStream CompletionEvent}

/-- `Processes m m' event`: what the dispatcher does between `m` and `m'` is to
    process `event`, in one of three ways. -/
inductive Processes (m m' : UringIoManager S) (event : CompletionEvent) : Prop where
  /-- It ignores the event. -/
  | ignored (hignored : event.should_be_ignored = true)
      (hwaiters : m'._completion_waiters = m._completion_waiters) (hcalls : m'.calls = m.calls)
  /-- It takes out the sender of the call that waits for the event, and hands the
      event to its `send_nowait`. -/
  | handed (id : CallId) (call : Call S) (hcalled : event.should_be_ignored = false)
      (hstored : m._completion_waiters event.user_data = some id)
      (hcall : m.calls id = some call) (hdata : call.user_data = event.user_data)
      (hwaiters : m'._completion_waiters =
        Function.update m._completion_waiters event.user_data none)
      (hcalls : m'.calls = Function.update m.calls id (some (call.send_nowait event)))
  /-- It finds no sender under the user data of the event. -/
  | without_waiter (hcalled : event.should_be_ignored = false)
      (hnone : m._completion_waiters event.user_data = none)
      (hwaiters : m'._completion_waiters = m._completion_waiters) (hcalls : m'.calls = m.calls)

theorem dispatch_processes {m : UringIoManager S} {event : CompletionEvent}
    {rest : List CompletionEvent} (hpaired : m.Paired) (h : m.reaped = event :: rest) :
    m.Processes m.dispatch event := by
  rw [dispatch_eq h]
  cases hignored : event.should_be_ignored with
  | true =>
    have hone : m.dispatch_one event = m := by simp [dispatch_one, hignored]
    rw [hone]
    exact .ignored hignored rfl rfl
  | false =>
    cases hstored : m._completion_waiters event.user_data with
    | none =>
      have hone : m.dispatch_one event = m := by simp [dispatch_one, hignored, hstored]
      rw [hone]
      exact .without_waiter hignored hstored rfl rfl
    | some id =>
      -- A stored sender belongs to a call on its user data.
      obtain ⟨call, hcall, hdata, -⟩ := hpaired.stored _ _ hstored
      refine .handed id call hignored hstored hcall hdata ?_ ?_ <;>
        simp [dispatch_one, hignored, hstored, send, hcall, set_call]

end UringIoManager

namespace Wakeup

variable {S : MemoryObjectStream CompletionEvent} {s : Wakeup S}

/-- The events that the dispatcher is done with in a step. -/
def processed_in (t : Step (Wakeup S) WakeupLabel) : List CompletionEvent :=
  match t.label, t.src.point with
  | .dispatcher, .handing => t.src.manager.reaped.head?.toList
  | _, _ => []

/-- The events that the dispatcher was done with in a run, in order. -/
def processed (tr : List (Step (Wakeup S) WakeupLabel)) : List CompletionEvent :=
  tr.flatMap processed_in

@[simp] theorem processed_snoc (tr : List (Step (Wakeup S) WakeupLabel))
    (t : Step (Wakeup S) WakeupLabel) : processed (tr ++ [t]) = processed tr ++ processed_in t := by
  simp [processed]

theorem advance_dispatched (s : Wakeup S) :
    s.advance.manager.dispatched =
      s.manager.dispatched ++ processed_in ⟨s, .dispatcher, s.advance⟩ := by
  cases hpoint : s.point with
  | handing =>
    cases hreaped : s.manager.reaped with
    | nil => simp [advance, processed_in, hpoint, hreaped]
    | cons event rest =>
      have hdispatched := UringIoManager.dispatch_dispatched hreaped
      simp [advance, processed_in, hpoint, hreaped, hdispatched]
  | testing entries =>
    by_cases hcq : s.world.cq = []
    · simp [advance, processed_in, hpoint, hcq, complete_entries, UringIoManager.set_world]
    · simp [advance, processed_in, hpoint, hcq]
  | taking entries seen => simp [advance, processed_in, hpoint, UringIoManager.set_world]
  | _ => simp [advance, processed_in, hpoint]

/-- What the dispatcher was done with in a run is what the manager has kept. -/
theorem processed_eq {s₀ : Wakeup S} {tr : List (Step (Wakeup S) WakeupLabel)}
    (hinit : (wakeup_system S).init s₀) (h : Path (wakeup_system S) s₀ tr s) :
    processed tr = s.manager.dispatched := by
  refine h.trace_invariant (I := fun tr s => processed tr = s.manager.dispatched) ?_ ?_
  · intro tr s l s' hprocessed hstep
    obtain ⟨hpossible, rfl⟩ := hstep
    rw [processed_snoc, hprocessed]
    cases l with
    | ring l => exact List.append_nil _
    | signal => exact List.append_nil _
    | call l =>
      obtain ⟨-, hcall, -⟩ := hpossible
      show s.manager.dispatched ++ [] = (s.manager.run l).dispatched
      rw [(s.manager.call_sameEvents hcall).dispatched, (s.manager.after_use_events l).1,
        List.append_nil]
    | dispatcher => exact s.advance_dispatched.symm
  · rw [hinit.1.2.2.2.2.2]
    rfl

/-- Senders and calls stay paired; on its way to the events, the dispatcher
    touches neither. -/
theorem run_paired (hpaired : s.manager.Paired) {l : WakeupLabel} (hpossible : s.possible l) :
    (s.run l).manager.Paired := by
  have hsame {m : UringIoManager S} (h : UringIoManager.SameCalls s.manager m) : m.Paired :=
    h.paired hpaired
  cases l with
  | ring l => exact hsame ⟨rfl, rfl, rfl⟩
  | signal => exact hsame ⟨rfl, rfl, rfl⟩
  | call l => exact hpaired.step hpossible.2.2
  | dispatcher =>
    show s.advance.manager.Paired
    cases hpoint : s.point with
    | testing entries =>
      by_cases hcq : s.world.cq = []
      · simp only [advance, hpoint, if_pos hcq]
        exact hsame ⟨rfl, rfl, rfl⟩
      · simp only [advance, hpoint, if_neg hcq]
        exact hpaired
    | handing =>
      by_cases hreaped : s.manager.reaped = []
      · simp only [advance, hpoint, if_pos hreaped]
        exact hpaired
      · have hdispatch : s.manager.possible .dispatch := hreaped
        simp only [advance, hpoint, if_neg hreaped]
        exact hpaired.step hdispatch
    | _ =>
      simp only [advance, hpoint]
      exact hsame ⟨rfl, rfl, rfl⟩

theorem paired_of_run {s₀ : Wakeup S} {tr : List (Step (Wakeup S) WakeupLabel)}
    (hinit : (wakeup_system S).init s₀) (h : Path (wakeup_system S) s₀ tr s) :
    s.manager.Paired := by
  induction h with
  | nil =>
    obtain ⟨⟨-, -, hwaiters, hcalls, -, -⟩, -, -⟩ := hinit
    exact .initial hwaiters hcalls
  | snoc l hpath hstep ih =>
    rw [hstep.2]
    exact run_paired ih hstep.1

/-- **Step lemma**: an event that the dispatcher is done with is ignored, or
    handed to its waiter's send, or found without a waiter. -/
theorem processed_in_processes (hpaired : s.manager.Paired) {l : WakeupLabel}
    {event : CompletionEvent} (hevent : event ∈ processed_in ⟨s, l, s.run l⟩) :
    s.manager.Processes (s.run l).manager event := by
  cases l with
  | dispatcher =>
    cases hpoint : s.point with
    | handing =>
      cases hreaped : s.manager.reaped with
      | nil => simp [processed_in, hpoint, hreaped] at hevent
      | cons next rest =>
        have hnext : s.advance = { s with manager := s.manager.dispatch } := by
          simp [advance, hpoint, hreaped]
        have heq : event = next := by simpa [processed_in, hpoint, hreaped] using hevent
        show s.manager.Processes s.advance.manager event
        rw [hnext, heq]
        exact UringIoManager.dispatch_processes hpaired hreaped
    | _ => simp [processed_in, hpoint] at hevent
  | _ => simp [processed_in] at hevent

/-- **The dispatcher never sleeps on unseen completions**: while it waits, and
    the eventfd is at zero with no increment to come, the completion queue is
    empty, and the completions posted are those it has processed, each once. -/
theorem dispatcher_never_sleeps {s₀ : Wakeup S} {tr : List (Step (Wakeup S) WakeupLabel)}
    (hinit : (wakeup_system S).init s₀) (h : Path (wakeup_system S) s₀ tr s)
    (hfits : ∀ t ∈ tr, t.dst.world.kernel.overflow = []) (hwaiting : s.point = .waiting)
    (hefd : s.manager.efd = 0) (hsignals : s.unsignalled = 0) :
    s.world.cq = [] ∧
      (processed tr).map (fun event => (event.user_data, event.result)) =
        s.world.kernel.posted.map (fun cqe => (cqe.user_data, cqe.result)) ∧
      ∀ t ∈ tr, ∀ event ∈ processed_in t, t.src.manager.Processes t.dst.manager event := by
  have hinv : ∃ unseen, s.Inv unseen := by
    refine h.invariant_along (I := fun s => ∃ unseen, s.Inv unseen)
      (C := fun s l => (s.run l).world.kernel.overflow = []) ?_ ?_ ⟨[], .initial hinit⟩
    · intro s l s' hpair hoverflow hstep
      obtain ⟨unseen, hs⟩ := hpair
      apply hs.step hstep
      rw [hstep.2]
      exact hoverflow
    · intro t ht
      rw [← (h.step_of_mem ht).2]
      exact hfits t ht
  obtain ⟨unseen, hposted, hqueue, -, hlisted, -, hsignalled⟩ := hinv
  rw [hwaiting] at hposted hlisted hsignalled
  -- Nothing is signalled, so nothing is unseen.
  have hnone : unseen = [] := by
    have hle := hsignalled trivial
    rw [hefd, hsignals] at hle
    exact List.length_eq_zero_iff.mp (Nat.le_zero.mp hle)
  have hreaped : s.manager.reaped = [] := by
    by_contra hreaped
    cases hlisted hreaped
  refine ⟨?_, ?_, fun t ht event hevent => ?_⟩
  · by_cases hopen : s.world.is_open = true
    · rw [hqueue hopen, hnone]
    · have hclosed : s.world.ring.the_io_uring = none := by simpa [World.is_open] using hopen
      simp [World.cq, hclosed]
  · rw [processed_eq hinit h, hposted, hreaped, hnone]
    simp [Point.taken]
  · obtain ⟨pre, post, rfl⟩ := List.append_of_mem ht
    rw [(h.step_of_mem ht).2]
    exact processed_in_processes (paired_of_run hinit h.to_src) hevent

/-- Two reads, the second of which is completed when the eventfd has just been
    read for the first. A call waits for the first of them. -/
def two_reads : List WakeupLabel :=
  [.ring (.prep (.read (.int 3) 16 (-1) none) (.ok 0)),
    .ring (.prep (.read (.int 3) 16 (-1) none) (.ok 0)), .ring (.submit (.ok 2)),
    .call (.wait_for_completion 0 0 (.ok 0)), .call (.resume 0),
    .ring (.kernel (.complete 0 16)), .signal, .dispatcher, .dispatcher,
    .ring (.kernel (.complete 0 7))] ++ List.replicate 7 .dispatcher ++
    [.signal] ++ List.replicate 4 .dispatcher

/-- The dispatcher takes both at once, and the call is handed its event. It is
    woken a second time and finds nothing. -/
theorem dispatcher_never_sleeps_two_reads :
    let start : Wakeup (rendezvous CompletionEvent) := ⟨.fresh, 0, .waiting⟩
    let s := two_reads.foldl run start
    let tr := trace_of run two_reads start
    (processed tr).map (·.user_data) = [0, 1] ∧
      ((s.manager.calls 0).bind fun call => call.stream.2).map
        (fun event => (event.user_data, event.result)) = some (0, 16) ∧
      s.world.cq = [] ∧
      (processed tr).map (fun event => (event.user_data, event.result)) =
        s.world.kernel.posted.map (fun cqe => (cqe.user_data, cqe.result)) ∧
      ∀ t ∈ tr, ∀ event ∈ processed_in t, t.src.manager.Processes t.dst.manager event := by
  intro start s tr
  have hinit : (wakeup_system _).init start := ⟨UringIoManager.fresh_manager_initial, rfl, rfl⟩
  have hpossible : ∀ t ∈ tr, t.src.possible t.label := by decide +kernel
  have hpath : Path (wakeup_system _) start tr s :=
    path_of two_reads start fun t ht => ⟨hpossible t ht, trace_of_dst two_reads start t ht⟩
  have hfits : ∀ t ∈ tr, t.dst.world.kernel.overflow = [] := by decide +kernel
  have hwaiting : s.point = .waiting := by decide +kernel
  have hefd : s.manager.efd = 0 := by decide +kernel
  have hsignals : s.unsignalled = 0 := by decide +kernel
  exact ⟨by decide +kernel, by decide +kernel,
    dispatcher_never_sleeps hinit hpath hfits hwaiting hefd hsignals⟩

end Wakeup

end CenturyRing
