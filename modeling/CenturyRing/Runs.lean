import CenturyRing.Calls
import CenturyRing.Reap

/-! # Runs of a ring

  A ring, the handles of the process and the kernel as one transition system.
  The process makes calls in any order, with any arguments, and the kernel
  acts between them, and during the drain loop, as it likes.
-/

open LTS

namespace CenturyRing

/-! ### Labels -/

/-- What can happen to a ring and the handles. -/
inductive RingLabel where
  /-- A call of a `prep_*` method. -/
  | prep (p : Prep) (answer : Enter)
  | submit (answer : Enter)
  | submit_and_wait (count : Int) (answer : Enter)
  | submit_and_wait_with_timeout (seconds nsec : Int) (first last : Enter)
  | get_completion_entries (bursts : List (List KernelEvent))
  /-- `TheIoRing.close`. -/
  | close
  /-- `FdHandle.close`. -/
  | close_handle (answer : Option Int32) (handle : HandleId)
  /-- The end of a `with` block of a handle. -/
  | exit_handle (answer : Option Int32) (handle : HandleId)
  /-- The kernel acts. -/
  | kernel (ev : KernelEvent)

namespace RingLabel

/-- The state afterwards. A call that raises leaves its state behind too. -/
def run (l : RingLabel) (s : PyState) : PyState :=
  match l with
  | prep p answer => (p.run answer s).2
  | submit answer => (rust (CenturyRing.submit answer) s).2
  | submit_and_wait count answer => (CenturyRing.submit_and_wait count answer s).2
  | submit_and_wait_with_timeout seconds nsec first last =>
    (CenturyRing.submit_and_wait_with_timeout seconds nsec first last s).2
  | get_completion_entries bursts => (rust (CenturyRing.get_completion_entries bursts) s).2
  | close => (rust CenturyRing.close s).2
  | close_handle answer handle => (FdHandle.close answer handle s).2
  | exit_handle answer handle => (FdHandle.exit answer handle s).2
  | kernel ev => { s with world := s.world.kernel_step ev }

/-- The user data a call of a `prep_*` method returned. -/
def returned (l : RingLabel) (s : PyState) : Option UInt64 :=
  match l with
  | prep p answer => (p.run answer s).1.toOption
  | _ => none

/-- The timeout entry that a timed wait pushed. -/
def timer (l : RingLabel) (s : PyState) : Option Entry :=
  match l with
  | submit_and_wait_with_timeout seconds nsec first _ =>
    match extract_u64 seconds, extract_u32 nsec, first with
    | .ok sec, .ok nsec, .ok k =>
      if (s.world.purged k).has_room then some (timeout_entry s.world.blocks ⟨sec, nsec⟩)
      else none
    | _, _, _ => none
  | _ => none

/-- The entries pushed: that of a `prep_*` call that returned, or a timeout
    entry. -/
def pushes (l : RingLabel) (s : PyState) : List Entry :=
  match l with
  | prep p _ => ((l.returned s).map fun _ => p.sqe s).toList
  | _ => (l.timer s).toList

/-- The completions taken off the completion queue. -/
def reaps (l : RingLabel) (s : PyState) : List Cqe :=
  match l with
  | get_completion_entries bursts =>
    if s.world.is_open then (World.drain bursts s.world).1 else []
  | _ => []

/-- The events handed to the caller. -/
def events (l : RingLabel) (s : PyState) : List CompletionEvent :=
  match l with
  | get_completion_entries bursts =>
    ((rust (CenturyRing.get_completion_entries bursts) s).1.toOption).getD []
  | _ => []

/-- `C` holds of each step that the kernel takes on its own, where it takes
    it. -/
def meets (C : World → KernelEvent → Prop) (l : RingLabel) (s : PyState) : Prop :=
  match l with
  | get_completion_entries bursts => World.drain_meets C bursts s.world
  | kernel ev => C s.world ev
  | _ => True

instance {C : World → KernelEvent → Prop} [∀ w ev, Decidable (C w ev)] (l : RingLabel)
    (s : PyState) : Decidable (l.meets C s) :=
  match l with
  | get_completion_entries bursts => inferInstanceAs (Decidable (World.drain_meets C bursts s.world))
  | kernel ev => inferInstanceAs (Decidable (C s.world ev))
  | prep .. | submit _ | submit_and_wait .. | submit_and_wait_with_timeout .. | close
  | close_handle .. | exit_handle .. => .isTrue trivial

theorem meets_true (l : RingLabel) (s : PyState) : l.meets (fun _ _ => True) s := by
  cases l with
  | get_completion_entries bursts => exact World.drain_meets_true bursts s.world
  | kernel ev => trivial
  | _ => trivial

end RingLabel

/-! ### What a step does to the ring -/

/-- Entries may have moved from the queue to the kernel; nothing else happened
    to any operation. -/
structure Quiet (w w' : World) : Prop where
  live : w.live.Perm w'.live
  accepted : w'.accepted = w.accepted
  batches : w.kernel.batches <+: w'.kernel.batches
  owned_data : w'.ring.owned_data = w.ring.owned_data
  unreaped : w'.unreaped = w.unreaped
  posted : w'.kernel.posted = w.kernel.posted
  is_open : w'.is_open = w.is_open
  capacity : w'.capacity = w.capacity
  sqpoll : w'.sqpoll = w.sqpoll
  autosubmit : w'.ring.autosubmit = w.ring.autosubmit
  blocks : w.blocks ≤ w'.blocks

theorem Quiet.refl (w : World) : Quiet w w :=
  ⟨.refl _, rfl, List.prefix_refl _, rfl, rfl, rfl, rfl, rfl, rfl, rfl, Nat.le_refl _⟩

theorem Quiet.trans {w w' w'' : World} (h : Quiet w w') (h' : Quiet w' w'') : Quiet w w'' :=
  ⟨h.live.trans h'.live, h'.accepted.trans h.accepted, h.batches.trans h'.batches,
    h'.owned_data.trans h.owned_data, h'.unreaped.trans h.unreaped, h'.posted.trans h.posted,
    h'.is_open.trans h.is_open, h'.capacity.trans h.capacity, h'.sqpoll.trans h.sqpoll,
    h'.autosubmit.trans h.autosubmit, Nat.le_trans h.blocks h'.blocks⟩

theorem Quiet.consume (w : World) (k : Nat) : Quiet w (w.consume k) := by
  have h := w.consume_sameProcess k
  exact ⟨w.consume_live k, w.consume_accepted k, w.kernel_step_batches (.consume k),
    w.consume_owned_data k, w.consume_unreaped k, w.consume_posted k, h.is_open, h.capacity,
    h.sqpoll, h.autosubmit, Nat.le_of_eq h.blocks.symm⟩

theorem Quiet.advance (w : World) (counter : UInt64) {blocks : Nat} (h : w.blocks ≤ blocks) :
    Quiet w (w.advance counter blocks) :=
  ⟨.refl _, rfl, List.prefix_refl _, rfl, rfl, rfl, rfl, rfl, rfl, rfl, h⟩

theorem Quiet.enter (w : World) (answer : Enter) : Quiet w (w.enter answer) := by
  cases answer with
  | error errno => exact .refl w
  | ok k => exact .consume w k

theorem Resubmitted.quiet {answer : Enter} {w w' : World} (h : Resubmitted answer w w') :
    Quiet w w' := by
  cases h with
  | unchanged => exact .refl w
  | consumed _ _ _ k _ => exact .consume w k

theorem Resubmitted.counter {answer : Enter} {w w' : World} (h : Resubmitted answer w w') :
    w'.ring.user_data_counter = w.ring.user_data_counter := by
  cases h with
  | unchanged => rfl
  | consumed _ _ _ k _ => exact (w.consume_sameProcess k).user_data_counter

theorem Quiet.purged (w : World) (k : Nat) : Quiet w (w.purged k) :=
  (Quiet.consume w k).trans ⟨.refl _, rfl, List.prefix_refl _, rfl, rfl, rfl, rfl, rfl, rfl, rfl, by
    show (w.consume k).blocks ≤ w.blocks + 1
    have := (w.consume_sameProcess k).blocks
    omega⟩

/-- `Effect C w pushed reaped w'`: everything a step can do to a ring. `C` is
    what the kernel promises. -/
inductive Effect (C : World → KernelEvent → Prop) (w : World) :
    List Entry → List Cqe → World → Prop where
  /-- Nothing is pushed; user data may be used up. -/
  | quiet {w' : World} (hquiet : Quiet w w')
      (hcounter : w'.ring.user_data_counter = w.ring.user_data_counter ∨
        w'.ring.user_data_counter = w.ring.user_data_counter + 1) :
      Effect C w [] [] w'
  /-- A preparation: a new user data, a new entry, and what it points into. -/
  | queued {entry : Entry} {owned : Option OwnedData} {w₁ : World} (hquiet : Quiet w w₁)
      (hcounter : w₁.ring.user_data_counter = w.ring.user_data_counter + 1)
      (huser_data : entry.user_data = w.ring.user_data_counter)
      (hfresh : ∀ ptr, entry.op.pointer = some ptr → w.blocks ≤ ptr ∧ ptr < w₁.blocks)
      (hprepared : Prepared entry owned) (hroom : w₁.has_room) :
      Effect C w [entry] [] ((w₁.push entry).own entry.user_data owned)
  /-- A timed wait: a timeout entry. -/
  | timer {frame : Ptr} {timespec : Timespec} {w₁ w' : World} (hquiet : Quiet w w₁)
      (hcounter : w₁.ring.user_data_counter = w.ring.user_data_counter) (hroom : w₁.has_room)
      (hquiet' : Quiet (w₁.push (timeout_entry frame timespec)) w')
      (hcounter' : w'.ring.user_data_counter = w₁.ring.user_data_counter) :
      Effect C w [timeout_entry frame timespec] [] w'
  /-- Completions are reaped, and what was owned for them is given back. -/
  | reaped (bursts : List (List KernelEvent)) (hopen : w.is_open = true)
      (hmeets : World.drain_meets C bursts w) :
      Effect C w [] (World.drain bursts w).1
        { (World.drain bursts w).2 with ring := { (World.drain bursts w).2.ring with
            owned_data := (complete_entries (World.drain bursts w).2.ring.owned_data
              (World.drain bursts w).1).2 } }
  | closed : Effect C w [] [] { w with ring := { w.ring with the_io_uring := none } }
  | kernel (ev : KernelEvent) (hmeets : C w ev) : Effect C w [] [] (w.kernel_step ev)

section effects

open Fallible

variable {C : World → KernelEvent → Prop} {s : PyState}

/-- A call either raised or returned; both are known. -/
theorem Prep.run_prepped (p : Prep) (answer : Enter) (s : PyState) :
    Prepped p answer s (p.run answer s).1 (p.run answer s).2 := by
  have hcases := p.run_cases answer s
  rcases hrun : p.run answer s with ⟨r, s'⟩
  cases r with
  | ok ud => exact wp_ok (Q := fun ud s' => Prepped p answer s (.ok ud) s') hcases hrun
  | error e => exact wp_error (E := fun e s' => Prepped p answer s (.error e) s') hcases hrun

theorem effect_prep (p : Prep) (answer : Enter) :
    Effect C s.world ((RingLabel.prep p answer).pushes s) [] (p.run answer s).2.world := by
  have hprepped := p.run_prepped answer s
  simp only [RingLabel.pushes, RingLabel.returned]
  generalize p.run answer s = out at hprepped ⊢
  obtain ⟨r, s'⟩ := out
  cases hprepped with
  | refused e counter hcounter hrefused =>
    obtain ⟨blocks, hblocks, hqueue⟩ := hrefused.resubmitted
    refine .quiet ((Quiet.advance s.world counter hblocks).trans hqueue.quiet) ?_
    rw [hqueue.counter]
    exact hcounter
  | queued hhandle hqueued =>
    cases hqueued with
    | intro blocks w₁ hblocks hfresh hprepared hqueue hroom =>
      have hquiet := (Quiet.advance s.world _ hblocks).trans hqueue.quiet
      have hle := hqueue.quiet.blocks
      exact .queued hquiet hqueue.counter rfl
        (fun ptr hptr => ⟨(hfresh ptr hptr).1, Nat.lt_of_lt_of_le (hfresh ptr hptr).2 hle⟩)
        hprepared hroom

theorem effect_enter (answer : Enter) : Effect C s.world [] [] (s.world.enter answer) := by
  cases answer with
  | error errno => exact .quiet (.refl _) (.inl rfl)
  | ok k => exact .quiet (.consume _ k) (.inl (s.world.consume_sameProcess k).user_data_counter)

/-- Submitting leaves the ring as the kernel does. -/
theorem submit_state (answer : Enter) (w : World) : (submit answer w).2 = w.enter answer := by
  refine wp_state (P := fun w' => w' = w.enter answer) ?_
  rw [submit, wp_bind, wp_require_open]
  constructor
  · intro _
    rw [wp_io_uring_enter]
    exact ⟨fun errno h => by rw [h]; rfl, fun k h => by rw [h]; rfl⟩
  · intro hclosed
    cases answer with
    | error errno => rfl
    | ok k => exact (World.consume_closed hclosed k).symm

theorem wait_state (want : UInt64) (answer : Enter) (w : World) :
    (wait want answer w).2 = w.enter answer := submit_state answer w

theorem effect_submit_and_wait (count : Int) (answer : Enter) :
    Effect C s.world [] [] (submit_and_wait count answer s).2.world := by
  rw [submit_and_wait]
  cases extract_usize count with
  | error e => exact .quiet (.refl _) (.inl rfl)
  | ok want =>
    show Effect C s.world [] [] (wait want answer s.world).2
    rw [wait_state]
    exact effect_enter answer

/-- A timed wait that was given arguments that fit. -/
theorem effect_wait_with_timeout (sec : UInt64) (nsec : UInt32) (first last : Enter) (w : World) :
    Effect C w
      (match first with
        | .ok k =>
          if (w.purged k).has_room then some (timeout_entry w.blocks ⟨sec, nsec⟩) else none
        | .error _ => none).toList
      [] (wait_with_timeout sec nsec first last w).2 := by
  have hpurged : ∀ k, (w.purged k).ring.user_data_counter = w.ring.user_data_counter :=
    fun k => (w.consume_sameProcess k).user_data_counter
  refine wp_state (wp_mono (wait_with_timeout_cases sec nsec first last w) ?_ ?_)
  · intro n w' hcase
    rcases hcase with _ | _
    next hopen k hfirst hroom k' hlast =>
      subst hfirst
      simp only [if_pos hroom]
      have hpush := (w.purged k).push_sameProcess (timeout_entry w.blocks ⟨sec, nsec⟩)
      have hconsume := World.consume_sameProcess
        ((w.purged k).push (timeout_entry w.blocks ⟨sec, nsec⟩)) k'
      exact .timer (.purged w k) (hpurged k) hroom (.consume _ k')
        (hconsume.user_data_counter.trans hpush.user_data_counter)
  · intro e w' h
    cases h with
    | closed hclosed =>
      cases first with
      | error errno => exact .quiet (.refl _) (.inl rfl)
      | ok k =>
        -- A closed ring has no room, so no entry counts as pushed.
        have hfull : ¬(w.purged k).has_room := fun hroom => by
          have hopen := World.is_open_of_has_room hroom
          rw [(Quiet.purged w k).is_open, hclosed] at hopen
          cases hopen
        simp only [if_neg hfull]
        exact .quiet (.refl _) (.inl rfl)
    | failed hopen errno hfirst =>
      subst hfirst
      exact .quiet (.refl _) (.inl rfl)
    | still_full hopen k hfirst hfull =>
      subst hfirst
      simp only [if_neg hfull]
      exact .quiet (.purged w k) (.inl (hpurged k))
    | interrupted hopen k hfirst hroom errno hlast =>
      subst hfirst
      simp only [if_pos hroom]
      have hpush := (w.purged k).push_sameProcess (timeout_entry w.blocks ⟨sec, nsec⟩)
      exact .timer (.purged w k) (hpurged k) hroom (.refl _) hpush.user_data_counter

theorem effect_timed_wait (seconds nsec : Int) (first last : Enter) :
    Effect C s.world
      ((RingLabel.submit_and_wait_with_timeout seconds nsec first last).pushes s) []
      (submit_and_wait_with_timeout seconds nsec first last s).2.world := by
  show Effect C s.world (Option.toList
    (match extract_u64 seconds, extract_u32 nsec, first with
    | .ok sec, .ok nsec, .ok k =>
      if (s.world.purged k).has_room then some (timeout_entry s.world.blocks ⟨sec, nsec⟩)
      else none
    | _, _, _ => none)) [] _
  rw [submit_and_wait_with_timeout]
  cases extract_u64 seconds with
  | error e => exact .quiet (.refl _) (.inl rfl)
  | ok sec =>
    cases extract_u32 nsec with
    | error e => exact .quiet (.refl _) (.inl rfl)
    | ok nsec =>
      have h := effect_wait_with_timeout (C := C) sec nsec first last s.world
      cases first with
      | error errno => exact h
      | ok k => exact h

theorem effect_get_completion_entries (bursts : List (List KernelEvent))
    (hmeets : World.drain_meets C bursts s.world) :
    Effect C s.world [] ((RingLabel.get_completion_entries bursts).reaps s)
      (rust (get_completion_entries bursts) s).2.world := by
  show Effect C s.world [] (if s.world.is_open then (World.drain bursts s.world).1 else [])
    (get_completion_entries bursts s.world).2
  cases hopen : s.world.is_open with
  | true =>
    rw [get_completion_entries_open hopen]
    exact .reaped bursts hopen hmeets
  | false =>
    rw [get_completion_entries_closed hopen]
    exact .quiet (.refl _) (.inl rfl)

theorem effect_close_handle (answer : Option Int32) (handle : HandleId) :
    (FdHandle.close answer handle s).2.world = s.world := by
  rw [FdHandle.close_state]
  split <;> rfl

theorem effect_exit_handle (answer : Option Int32) (handle : HandleId) :
    (FdHandle.exit answer handle s).2.world = s.world := by
  rw [FdHandle.exit_state, effect_close_handle]

/-- **Step lemma**: every step has one of the effects. -/
theorem RingLabel.effect (l : RingLabel) (s : PyState) (hmeets : l.meets C s) :
    Effect C s.world (l.pushes s) (l.reaps s) (l.run s).world := by
  cases l with
  | prep p answer => exact effect_prep p answer
  | submit answer =>
    show Effect C s.world [] [] (CenturyRing.submit answer s.world).2
    rw [submit_state]
    exact effect_enter answer
  | submit_and_wait count answer => exact effect_submit_and_wait count answer
  | submit_and_wait_with_timeout seconds nsec first last =>
    exact effect_timed_wait seconds nsec first last
  | get_completion_entries bursts => exact effect_get_completion_entries bursts hmeets
  | close => exact .closed
  | close_handle answer handle =>
    show Effect C s.world [] [] (FdHandle.close answer handle s).2.world
    rw [effect_close_handle]
    exact .quiet (.refl _) (.inl rfl)
  | exit_handle answer handle =>
    show Effect C s.world [] [] (FdHandle.exit answer handle s).2.world
    rw [effect_exit_handle]
    exact .quiet (.refl _) (.inl rfl)
  | kernel ev => exact .kernel ev hmeets

end effects

/-! ### What a step pushes -/

/-- A call that returns hands out the user data of the entry it pushed. -/
theorem Prep.returned_eq {p : Prep} {answer : Enter} {s : PyState} {ud : UInt64}
    (h : (RingLabel.prep p answer).returned s = some ud) : ud = (p.sqe s).user_data := by
  have hprepped := p.run_prepped answer s
  change (p.run answer s).1.toOption = some ud at h
  generalize p.run answer s = out at hprepped h
  obtain ⟨r, s'⟩ := out
  cases hprepped with
  | refused e counter hcounter hrefused => cases h
  | queued hhandle hqueued =>
    cases h
    rfl

/-- No call pushes a timeout. -/
@[simp] theorem Prep.not_timeout (p : Prep) (s : PyState) : (p.op s).is_timeout = false := by
  cases p <;> rfl

/-- The timeouts pushed by timed waits are timeouts. -/
theorem RingLabel.timer_is_timeout {l : RingLabel} {s : PyState} {entry : Entry}
    (h : l.timer s = some entry) : entry.op.is_timeout = true := by
  unfold RingLabel.timer at h
  split at h
  · split at h
    · split at h
      · cases h
        rfl
      · cases h
    · cases h
  · cases h

/-- A call that returns pushes its entry, a call that raises pushes nothing. -/
theorem RingLabel.pushes_prep (p : Prep) (answer : Enter) (s : PyState) :
    (prep p answer).pushes s =
      match (prep p answer).returned s with
      | some _ => [p.sqe s]
      | none => [] := by
  show Option.toList (((prep p answer).returned s).map fun _ => p.sqe s) = _
  cases (prep p answer).returned s <;> rfl

/-- What a step pushes comes from a call that returned or from a timed wait. -/
theorem RingLabel.mem_pushes {l : RingLabel} {s : PyState} {entry : Entry}
    (h : entry ∈ l.pushes s) :
    (∃ p answer, l = .prep p answer ∧ l.returned s = some entry.user_data ∧ entry = p.sqe s) ∨
      l.timer s = some entry := by
  cases l with
  | prep p answer =>
    rw [pushes_prep] at h
    cases hreturned : (prep p answer).returned s with
    | none => simp [hreturned] at h
    | some ud =>
      obtain rfl : entry = p.sqe s := by simpa [hreturned] using h
      exact .inl ⟨p, answer, rfl, by rw [Prep.returned_eq hreturned], rfl⟩
  | _ => exact .inr (Option.mem_toList.mp h)

/-! ### The system -/

/-- A ring that `make_io_ring` has just made, and handles in any state. -/
def PyState.initial (s : PyState) : Prop :=
  ∃ (host : Host) (entries : Int) (cq_size sqpoll_idle_ms : Option Int)
    (single_issuer autosubmit : Bool), host.RoundsUp ∧
    make_io_ring host entries cq_size sqpoll_idle_ms single_issuer autosubmit = .ok s.world

/-- One ring and everything that can happen to it. -/
def ring_system : System PyState RingLabel where
  init := PyState.initial
  step := fun s l s' => s' = l.run s

/-- The trace of a run of a ring. -/
abbrev RingTrace := List (Step PyState RingLabel)

/-- The entries pushed in a run, in order. -/
def pushed (tr : RingTrace) : List Entry := tr.flatMap fun t => t.label.pushes t.src

/-- The completions reaped in a run, in order. -/
def reaped (tr : RingTrace) : List Cqe := tr.flatMap fun t => t.label.reaps t.src

/-- The events handed out in a run: the lists returned by
    `get_completion_entries`, one after the other. -/
def events (tr : RingTrace) : List CompletionEvent := tr.flatMap fun t => t.label.events t.src

/-- The user data values returned by `prep_*` calls in a run, in order. -/
def returned (tr : RingTrace) : List UInt64 := tr.flatMap fun t => (t.label.returned t.src).toList

/-- The step used up a user data value. -/
def allocates (t : Step PyState RingLabel) : Bool :=
  t.dst.world.ring.user_data_counter != t.src.world.ring.user_data_counter

/-- The number of user data values used up in a run. -/
def allocations (tr : RingTrace) : Nat := tr.countP allocates

section histories

variable (tr : RingTrace) (t : Step PyState RingLabel)

@[simp] theorem pushed_snoc : pushed (tr ++ [t]) = pushed tr ++ t.label.pushes t.src := by
  simp [pushed]

@[simp] theorem reaped_snoc : reaped (tr ++ [t]) = reaped tr ++ t.label.reaps t.src := by
  simp [reaped]

@[simp] theorem events_snoc : events (tr ++ [t]) = events tr ++ t.label.events t.src := by
  simp [events]

@[simp] theorem returned_snoc :
    returned (tr ++ [t]) = returned tr ++ (t.label.returned t.src).toList := by
  simp [returned]

theorem allocations_snoc :
    allocations (tr ++ [t]) = allocations tr + if allocates t then 1 else 0 := by
  simp [allocations, List.countP_append, List.countP_singleton]

theorem allocations_le_snoc : allocations tr ≤ allocations (tr ++ [t]) := by
  rw [allocations_snoc]
  exact Nat.le_add_right _ _

end histories

/-! ### Runs from a list of labels -/

/-- The state after the steps `ls`. -/
def run_all (ls : List RingLabel) (s : PyState) : PyState := ls.foldl (fun s l => l.run s) s

/-- The trace of the steps `ls`. -/
def trace_all (ls : List RingLabel) (s : PyState) : RingTrace := trace_of (fun s l => l.run s) ls s

theorem path_all (ls : List RingLabel) (s : PyState) :
    Path ring_system s (trace_all ls s) (run_all ls s) := by
  apply path_of ls s
  induction ls generalizing s with
  | nil => simp [trace_of]
  | cons l ls ih => exact List.forall_mem_cons.mpr ⟨rfl, ih (l.run s)⟩

/-- A new ring of `entries` entries on Linux; with `idle` it polls. All handles
    are open. -/
def PyState.fresh (entries idle : UInt32) : PyState where
  handles := fun _ => ⟨3, false, []⟩
  world := World.created
    { sq_entries := round_up entries.toNat
      cq_entries := 2 * round_up entries.toNat
      is_feature_nodrop := true }
    (ring_builder ⟨6, 1⟩ entries 0 idle true) (fun _ => true) true

theorem fresh_initial : (PyState.fresh 2 0).initial :=
  ⟨linux, 2, none, none, true, true, linux_roundsUp, rfl⟩

/-! ### New rings -/

/-- A new ring is open, empty and owns nothing. -/
structure Blank (w : World) : Prop where
  is_open : w.is_open = true
  pending : w.pending = []
  running : w.running = []
  unreaped : w.unreaped = []
  batches : w.kernel.batches = []
  posted : w.kernel.posted = []
  owned_data : w.ring.owned_data = fun _ => none
  user_data_counter : w.ring.user_data_counter = 0
  capacity : 0 < w.capacity

theorem make_io_ring_ok {host : Host} (hhost : host.RoundsUp) {entries : Int}
    {cq_size sqpoll_idle_ms : Option Int} {single_issuer autosubmit : Bool} {w : World}
    (h : make_io_ring host entries cq_size sqpoll_idle_ms single_issuer autosubmit = .ok w) :
    Blank w ∧ w.ring.autosubmit = autosubmit ∧
      (w.sqpoll = true ↔ 0 < positive_or_zero sqpoll_idle_ms) := by
  obtain ⟨entries', -, h⟩ := Fallible.bind_ok h
  obtain ⟨cq_entries, -, h⟩ := Fallible.bind_ok h
  obtain ⟨idle, hidle, h⟩ := Fallible.bind_ok h
  obtain ⟨params, builder, probe, rfl, hcapacity, hsqpoll⟩ := create_io_ring_ok hhost h
  refine ⟨⟨rfl, rfl, rfl, rfl, rfl, rfl, rfl, rfl, hcapacity⟩, rfl,
    hsqpoll.trans (extract_u32_pos hidle)⟩

theorem PyState.initial.blank {s : PyState} (h : s.initial) : Blank s.world := by
  obtain ⟨host, entries, cq_size, sqpoll_idle_ms, single_issuer, autosubmit, hhost, hring⟩ := h
  exact (make_io_ring_ok hhost hring).1

theorem Blank.live {w : World} (h : Blank w) : w.live = [] := by
  simp [World.live, h.pending, h.running, h.unreaped]

theorem Blank.accepted {w : World} (h : Blank w) : w.accepted = [] := by
  simp [World.accepted, h.pending, h.batches]

end CenturyRing
