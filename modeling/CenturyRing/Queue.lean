import CenturyRing.Runs

/-! # The submission queue

  The bounded queue with its hidden submits, as a first-in first-out queue:

  - `accepted_eq_pushed`: what the kernel consumed, followed by what is
    pending, is what the calls pushed.
  - `ring_refines_fifo`: the ring simulates an unbounded queue.
-/

open LTS Fifo

namespace CenturyRing

/-! ### One step -/

section effect

variable {C : World → KernelEvent → Prop} {w w' : World} {es : List Entry} {cqes : List Cqe}

/-- A ring that is open was open before. -/
theorem Effect.is_open (h : Effect C w es cqes w') (hopen : w'.is_open = true) :
    w.is_open = true := by
  cases h with
  | quiet hquiet hcounter => rwa [hquiet.is_open] at hopen
  | queued hquiet hcounter huser_data hfresh hprepared hroom =>
    rw [← hquiet.is_open]
    exact World.is_open_of_has_room hroom
  | timer hquiet hcounter hroom hquiet' hcounter' =>
    rw [← hquiet.is_open]
    exact World.is_open_of_has_room hroom
  | reaped bursts hopen' hmeets => exact hopen'
  | closed => cases hopen
  | kernel ev hmeets => rwa [(w.kernel_step_sameProcess ev).is_open] at hopen

/-- A step appends what it pushes and takes nothing back. -/
theorem Effect.accepted (h : Effect C w es cqes w') (hopen : w'.is_open = true) :
    w'.accepted = w.accepted ++ es := by
  cases h with
  | quiet hquiet hcounter => rw [hquiet.accepted, List.append_nil]
  | queued hquiet hcounter huser_data hfresh hprepared hroom =>
    rw [World.own_accepted, World.push_accepted hroom, hquiet.accepted]
  | timer hquiet hcounter hroom hquiet' hcounter' =>
    rw [hquiet'.accepted, World.push_accepted hroom, hquiet.accepted]
  | reaped bursts hopen' hmeets =>
    rw [List.append_nil]
    exact World.drain_accepted bursts w
  | closed => cases hopen
  | kernel ev hmeets => rw [World.kernel_step_accepted, List.append_nil]

/-- Batches are only ever added. -/
theorem Effect.batches (h : Effect C w es cqes w') : w.kernel.batches <+: w'.kernel.batches := by
  cases h with
  | quiet hquiet hcounter => exact hquiet.batches
  | queued hquiet hcounter huser_data hfresh hprepared hroom => simpa using hquiet.batches
  | timer hquiet hcounter hroom hquiet' hcounter' =>
    have hpush := hquiet'.batches
    rw [World.push_kernel] at hpush
    exact hquiet.batches.trans hpush
  | reaped bursts hopen' hmeets => exact World.drain_batches bursts w
  | closed => exact List.prefix_refl _
  | kernel ev hmeets => exact w.kernel_step_batches ev

end effect

/-- A ring that is open at the end of a run was open all along. -/
theorem is_open_of_last {s s' : PyState} {tr : RingTrace} (h : Path ring_system s tr s')
    (hopen : s'.world.is_open = true) :
    s.world.is_open = true ∧ ∀ t ∈ tr, t.dst.world.is_open = true := by
  refine h.backward (Q := fun s => s.world.is_open = true) (fun s l s' hstep hopen' => ?_) hopen
  subst hstep
  exact (l.effect s (l.meets_true s)).is_open hopen'

/-! ### The queue as a first-in first-out queue -/

/-- The unbounded queue a ring stands for. -/
def World.fifo (w : World) : Unbounded Entry where
  accepted := w.accepted
  taken := w.kernel.batches.flatten.length

theorem World.fifo_pending (w : World) : w.fifo.pending = w.pending := by
  simp [Unbounded.pending, World.fifo, World.accepted]

theorem World.taken_le_accepted (w : World) : w.fifo.taken ≤ w.fifo.accepted.length := by
  simp [World.fifo, World.accepted]

/-- **Refinement**: as long as it is open, a ring behaves as an unbounded
    queue. Neither the hidden submits nor the capacity show. -/
theorem ring_refines_fifo :
    Simulates (ring_system.restrict fun s l => (l.run s).world.is_open = true) unbounded
      (fun s => s.world.fifo) where
  init := fun s hs => by
    have hblank := PyState.initial.blank hs
    simp [World.fifo, unbounded, hblank.accepted, hblank.batches]
  step := fun s l s' hstep => by
    obtain ⟨hopen, rfl⟩ := hstep
    have heffect := l.effect s (l.meets_true s)
    refine path_of_append (heffect.accepted hopen) ?_ (World.taken_le_accepted _)
    obtain ⟨more, hmore⟩ := heffect.batches
    simp only [World.fifo, ← hmore, List.flatten_append, List.length_append]
    omega

/-- In a run, a ring that is still open has accepted what was pushed. -/
theorem accepted_eq_pushed {tr : RingTrace} {s : PyState} (h : Run ring_system tr s)
    (hopen : s.world.is_open = true) : s.world.accepted = pushed tr := by
  obtain ⟨s₀, hinit, hpath⟩ := h
  induction hpath with
  | nil => exact (PyState.initial.blank hinit).accepted
  | @snoc tr m s' l hpath hstep ih =>
    subst hstep
    have heffect := l.effect m (l.meets_true m)
    rw [heffect.accepted hopen, ih (heffect.is_open hopen), pushed_snoc]

/-- The settings of a ring never change while it is open. -/
theorem Effect.settings {C : World → KernelEvent → Prop} {w w' : World} {es : List Entry}
    {cqes : List Cqe} (h : Effect C w es cqes w') (hopen : w'.is_open = true) :
    w'.capacity = w.capacity ∧ w'.sqpoll = w.sqpoll ∧ w'.ring.autosubmit = w.ring.autosubmit := by
  cases h with
  | quiet hquiet hcounter => exact ⟨hquiet.capacity, hquiet.sqpoll, hquiet.autosubmit⟩
  | @queued entry owned w₁ hquiet hcounter huser_data hfresh hprepared hroom =>
    have hpush := w₁.push_sameProcess entry
    have hown : ∀ w : World, (w.own entry.user_data owned).capacity = w.capacity ∧
        (w.own entry.user_data owned).sqpoll = w.sqpoll ∧
        (w.own entry.user_data owned).ring.autosubmit = w.ring.autosubmit := by
      cases owned <;> exact fun _ => ⟨rfl, rfl, rfl⟩
    obtain ⟨hcapacity, hsqpoll, hautosubmit⟩ := hown (w₁.push entry)
    exact ⟨(hcapacity.trans hpush.capacity).trans hquiet.capacity,
      (hsqpoll.trans hpush.sqpoll).trans hquiet.sqpoll,
      (hautosubmit.trans hpush.autosubmit).trans hquiet.autosubmit⟩
  | @timer frame timespec w₁ w' hquiet hcounter hroom hquiet' hcounter' =>
    have hpush := w₁.push_sameProcess (timeout_entry frame timespec)
    exact ⟨(hquiet'.capacity.trans hpush.capacity).trans hquiet.capacity,
      (hquiet'.sqpoll.trans hpush.sqpoll).trans hquiet.sqpoll,
      (hquiet'.autosubmit.trans hpush.autosubmit).trans hquiet.autosubmit⟩
  | reaped bursts hopen' hmeets =>
    have hdrain := World.drain_sameProcess bursts w
    exact ⟨hdrain.capacity, hdrain.sqpoll, hdrain.autosubmit⟩
  | closed => cases hopen
  | kernel ev hmeets =>
    have hkernel := w.kernel_step_sameProcess ev
    exact ⟨hkernel.capacity, hkernel.sqpoll, hkernel.autosubmit⟩

theorem settings_eq {s s' : PyState} {tr : RingTrace} (h : Path ring_system s tr s')
    (hopen : s'.world.is_open = true) :
    s'.world.capacity = s.world.capacity ∧ s'.world.sqpoll = s.world.sqpoll ∧
      s'.world.ring.autosubmit = s.world.ring.autosubmit := by
  induction h with
  | nil => exact ⟨rfl, rfl, rfl⟩
  | @snoc tr m s' l hpath hstep ih =>
    subst hstep
    have heffect := l.effect m (l.meets_true m)
    obtain ⟨hcapacity, hsqpoll, hautosubmit⟩ := heffect.settings hopen
    obtain ⟨hcapacity', hsqpoll', hautosubmit'⟩ := ih (heffect.is_open hopen)
    exact ⟨hcapacity.trans hcapacity', hsqpoll.trans hsqpoll', hautosubmit.trans hautosubmit'⟩

theorem pending_sq_entries_open {w : World} (hopen : w.is_open = true) :
    pending_sq_entries w = (.ok w.pending.length, w) := by
  rw [pending_sq_entries, Fallible.run_bind_ok (require_open_of_open hopen)]
  rfl

/-- **The ring is a queue**: in every state of every run, the batches consumed
    so far followed by the submission queue are the entries of the calls that
    returned, and of the timed waits, in call order. -/
theorem ring_is_fifo {s₀ s : PyState} {tr : RingTrace} (hinit : s₀.initial)
    (h : Path ring_system s₀ tr s) (hopen : s.world.is_open = true) :
    s.world.kernel.batches.flatten ++ s.world.pending = pushed tr ∧
      (∃ n, (pending_sq_entries s.world).1 = .ok n ∧
        n + s.world.kernel.batches.flatten.length = (pushed tr).length ∧
        n ≤ s₀.world.capacity) ∧
      ∃ atr, Run unbounded atr s.world.fifo := by
  have haccepted := accepted_eq_pushed ⟨s₀, hinit, h⟩ hopen
  refine ⟨haccepted, ⟨s.world.pending.length, ?_, ?_, ?_⟩, ?_⟩
  · rw [pending_sq_entries_open hopen]
  · rw [← haccepted, World.accepted, List.length_append, Nat.add_comm]
  · rw [← (settings_eq h hopen).1]
    exact s.world.pending_le_capacity
  · have hrestrict := h.restrict (P := fun s l => (l.run s).world.is_open = true)
      fun t ht => by
        have hdst := (is_open_of_last h hopen).2 t ht
        rwa [h.step_of_mem ht] at hdst
    exact ring_refines_fifo.run ⟨s₀, hinit, hrestrict⟩

/-- Three reads on a ring of two entries; the third submits one of the others. -/
theorem ring_is_fifo_three_reads :
    let read := RingLabel.prep (.read (.int 3) 16 (-1) none) (.ok 1)
    let s := run_all [read, read, read] (.fresh 2 0)
    (s.world.kernel.batches.map List.length = [1] ∧ s.world.pending.length = 2) ∧
      s.world.kernel.batches.flatten ++ s.world.pending =
        pushed (trace_all [read, read, read] (.fresh 2 0)) := by
  refine ⟨by decide, (ring_is_fifo fresh_initial (path_all _ _) rfl).1⟩

/-! ### Full queues -/

/-- A queue that is still full after it was submitted gave nothing away. -/
theorem consume_full {w : World} {k : Nat} (hfull : ¬w.has_room) (hcapacity : 0 < w.capacity)
    (hfull' : ¬(w.consume k).has_room) : k = 0 := by
  have hpending := World.pending_eq_capacity hfull
  have hpending' := World.pending_eq_capacity hfull'
  rw [w.consume_pending, List.length_drop, (w.consume_sameProcess k).capacity] at hpending'
  omega

/-- A preparation that raises because the queue is full, on a ring that
    submits automatically: it was full, and submitting it moved nothing. -/
theorem Prepped.full_queue {p : Prep} {answer : Enter} {s s' : PyState}
    (h : Prepped p answer s (.error queue_full) s') (hauto : s.world.ring.autosubmit = true)
    (hcapacity : 0 < s.world.capacity) : ¬s.world.has_room ∧ answer = .ok 0 := by
  cases h with
  | refused e counter hcounter hrefused =>
    cases hrefused with
    | checked blocks hblocks he => exact absurd rfl he
    | unqueued entry blocks hblocks hqueue =>
      generalize he : queue_full = e at hqueue
      cases hqueue with
      | closed hclosed => simp [queue_full, ring_closed] at he
      | disabled hopen hfull hauto' => cases hauto.symm.trans hauto'
      | failed hopen hfull hauto' errno hanswer => simp [queue_full] at he
      | still_full hopen hfull hauto' consumed hanswer hfull' =>
        obtain rfl := consume_full hfull hcapacity hfull'
        exact ⟨hfull, hanswer⟩

/-- **When a full queue shows**: on a ring made with `autosubmit`, a preparation
    raises because the queue is full only if the ring polls, the queue was full
    and the kernel thread has not consumed any of it by the second push.
    Without polling, where a submit consumes everything, it never does. -/
theorem queue_full_only_when_polling {host : Host} (hhost : host.RoundsUp) {entries : Int}
    {cq_size sqpoll_idle_ms : Option Int} {single_issuer : Bool} {s₀ s : PyState} {tr : RingTrace}
    (hring : make_io_ring host entries cq_size sqpoll_idle_ms single_issuer true = .ok s₀.world)
    (h : Path ring_system s₀ tr s) (hopen : s.world.is_open = true) (p : Prep) (answer : Enter)
    (hsubmit : s.world.sqpoll = false → ∀ k, answer = .ok k → s.world.pending.length ≤ k)
    (hfull : (p.run answer s).1 = .error queue_full) :
    0 < positive_or_zero sqpoll_idle_ms ∧ s.world.pending.length = s.world.capacity ∧
      answer = .ok 0 := by
  obtain ⟨hblank, hauto, hpoll⟩ := make_io_ring_ok hhost hring
  obtain ⟨hcapacity, hsqpoll, hautosubmit⟩ := settings_eq h hopen
  have hprepped := p.run_prepped answer s
  rw [hfull] at hprepped
  have hpos : 0 < s.world.capacity := by
    rw [hcapacity]
    exact hblank.capacity
  obtain ⟨hroom, hanswer⟩ := hprepped.full_queue (hautosubmit.trans hauto) hpos
  have hpending := World.pending_eq_capacity hroom
  refine ⟨?_, hpending, hanswer⟩
  rw [← hpoll, ← hsqpoll]
  -- Without polling the submit would have consumed the whole queue.
  by_contra hnopoll
  have hle := hsubmit (by simpa using hnopoll) 0 hanswer
  omega

/-- A second read on a polling ring of one entry whose kernel thread is slow. -/
theorem queue_full_only_when_polling_slow :
    let read := Prep.read (.int 3) 16 (-1) none
    let s := run_all [.prep read (.ok 0)] (.fresh 1 1000)
    s.world.pending.length = s.world.capacity := by
  intro read s
  have hring : make_io_ring linux 1 none (some 1000) true true =
      .ok (PyState.fresh 1 1000).world := rfl
  exact (queue_full_only_when_polling linux_roundsUp hring (path_all _ _) (by decide) read (.ok 0)
    (fun h => absurd h (by decide)) (by decide)).2.1

/-- A full queue does show: the ring was made with `autosubmit`, no submit
    failed, and the read would have returned had the kernel thread been fast. -/
theorem queue_full_shows :
    let read := Prep.read (.int 3) 16 (-1) none
    let s := run_all [.prep read (.ok 0)] (.fresh 1 1000)
    make_io_ring linux 1 none (some 1000) true true = .ok (PyState.fresh 1 1000).world ∧
      (read.run (.ok 0) s).1 = .error queue_full ∧ (read.run (.ok 1) s).1 = .ok 1 :=
  ⟨rfl, by decide, by decide⟩

end CenturyRing
