import CenturyRing.Ownership

/-! # The stack frame of a timed wait

  `wait_with_timeout` keeps the timespec of its timeout entry in its own stack
  frame. The kernel copies the timespec when it consumes the entry, so the
  entry must not be left in the queue when the call returns.
-/

open LTS

namespace CenturyRing

/-- An entry in the submission queue refers to the stack slot `frame`. -/
def World.refers (w : World) (frame : Ptr) : Prop :=
  ∃ entry ∈ w.pending, entry.op.frame = some frame

/-! ### Stack slots in runs -/

/-- Every timeout that is under way refers to a slot that was allocated. -/
def FramesAllocated (w : World) : Prop :=
  ∀ entry ∈ w.live, ∀ frame, entry.op.frame = some frame → frame < w.blocks

/-- The slot of the next call is not among those. -/
theorem FramesAllocated.next {w : World} (h : FramesAllocated w) : ¬w.refers w.blocks := by
  intro hpair
  obtain ⟨entry, hentry, hframe⟩ := hpair
  have hlive : entry ∈ w.live := by simp [World.live, hentry]
  exact Nat.lt_irrefl _ (h entry hlive _ hframe)

/-- A timed wait that gets past its first submit allocates its slot. -/
theorem TimedWait.blocks {timespec : Timespec} {k : Nat} {last : Enter} {w w' : World}
    {r : Except PyErr Nat} (h : TimedWait timespec (.ok k) last w r w') (hopen : w.is_open = true) :
    w'.blocks = w.blocks + 1 := by
  have hpush := (w.purged k).push_sameProcess (timeout_entry w.blocks timespec)
  cases h with
  | closed hclosed => simp [hopen] at hclosed
  | failed _ errno hfirst => cases hfirst
  | still_full _ k' hfirst hfull => rfl
  | interrupted _ k' hfirst hroom errno hlast =>
    cases hfirst
    exact hpush.blocks
  | waited _ k' hfirst hroom k'' hlast =>
    cases hfirst
    exact (World.consume_sameProcess _ k'').blocks.trans hpush.blocks

/-- The entry of a timed wait refers to a slot that the call allocates. -/
theorem RingLabel.timer_frame {l : RingLabel} {s : PyState} {entry : Entry}
    (h : l.timer s = some entry) {frame : Ptr} (hframe : entry.op.frame = some frame) :
    frame < (l.run s).world.blocks := by
  cases l with
  | submit_and_wait_with_timeout seconds nsec first last =>
    simp only [timer] at h
    show _ < (CenturyRing.submit_and_wait_with_timeout seconds nsec first last s).2.world.blocks
    rw [CenturyRing.submit_and_wait_with_timeout]
    split at h
    · next sec nsec' k hsec hnsec =>
      rw [hsec, hnsec]
      split at h
      · next hroom =>
        cases h
        cases hframe
        -- A ring with room is open, so the call has allocated its slot.
        have hopen : s.world.is_open = true := by
          have hpurged := World.is_open_of_has_room hroom
          rwa [(Quiet.purged s.world k).is_open] at hpurged
        have hblocks : (wait_with_timeout sec nsec' (.ok k) last s.world).2.blocks =
            s.world.blocks + 1 := by
          refine Fallible.wp_state (P := fun w' : World => w'.blocks = s.world.blocks + 1) ?_
          exact Fallible.wp_mono (wait_with_timeout_cases sec nsec' (.ok k) last s.world)
            (fun _ _ h => h.blocks hopen) (fun _ _ h => h.blocks hopen)
        show s.world.blocks < (wait_with_timeout sec nsec' (.ok k) last s.world).2.blocks
        omega
      · cases h
    · cases h
  | _ => cases h

/-- **Step lemma**: a step refers to no slot that is yet to be allocated. -/
theorem FramesAllocated.step {s : PyState} (h : FramesAllocated s.world) (l : RingLabel) :
    FramesAllocated (l.run s).world := by
  intro entry hentry frame hframe
  have heffect := l.effect s (C := fun _ _ => True) (l.meets_true s)
  obtain ⟨lost, -, hperm⟩ := heffect.live (D := fun _ => True) (fun _ _ _ _ _ _ => trivial)
  have hmem : entry ∈ s.world.live ++ l.pushes s := hperm.mem_iff.mpr (by simp [hentry])
  rcases List.mem_append.mp hmem with hlive | hpushed
  · exact Nat.lt_of_lt_of_le (h entry hlive frame hframe) heffect.blocks
  · rcases RingLabel.mem_pushes hpushed with ⟨p, answer, -, -, rfl⟩ | htimer
    · have htimeout := p.not_timeout s
      rw [← Prep.sqe_op, Operation.is_timeout, hframe] at htimeout
      cases htimeout
    · exact RingLabel.timer_frame htimer hframe

/-- In every state that a ring can reach, nothing refers to the slot of the next
    call. -/
theorem next_frame_unused {s : PyState} {tr : RingTrace} (h : Run ring_system tr s) :
    ¬s.world.refers s.world.blocks := by
  refine (h.invariant (I := fun s => FramesAllocated s.world) ?_ ?_).next
  · intro s hinit entry hentry
    rw [hinit.blank.live] at hentry
    cases hentry
  · intro s l s' hframes hstep
    obtain rfl := hstep
    exact hframes.step l

/-! ### What a timed wait leaves in the queue -/

/-- The timeout entry of a call is not in the queue when the call returns: it was
    not pushed, since the first submit failed or left no room, or the second
    submit consumes it, which is behind everything else. -/
def World.timeout_gone (w : World) (first last : Enter) : Prop :=
  match first, last with
  | .error _, _ => True
  | .ok k, .error _ => ¬w.pending.length - k < w.capacity
  | .ok k, .ok k' => w.pending.length - k < w.capacity → w.pending.length - k < k'

instance (w : World) (first last : Enter) : Decidable (w.timeout_gone first last) := by
  unfold World.timeout_gone
  split <;> infer_instance

section timed_wait

variable {w : World} {timespec : Timespec} {k : Nat}

theorem World.purged_pending (w : World) (k : Nat) : (w.purged k).pending = w.pending.drop k :=
  w.consume_pending k

theorem World.purged_has_room (w : World) (k : Nat) :
    (w.purged k).has_room ↔ w.pending.length - k < w.capacity := by
  rw [World.has_room, purged_pending, List.length_drop, (Quiet.purged w k).capacity]

/-- What the first submit leaves refers to no new slot. -/
theorem World.purged_refers (hnew : ¬w.refers w.blocks) (k : Nat) :
    ¬(w.purged k).refers w.blocks := by
  intro hpair
  obtain ⟨entry, hentry, hframe⟩ := hpair
  rw [purged_pending] at hentry
  exact hnew ⟨entry, List.mem_of_mem_drop hentry, hframe⟩

/-- The timeout entry is the last in the queue, so it is gone exactly if all of
    the queue is. -/
theorem refers_after_consume (hroom : (w.purged k).has_room) (k' : Nat) :
    (((w.purged k).push (timeout_entry w.blocks timespec)).consume k').refers w.blocks ↔
      k' ≤ w.pending.length - k := by
  have hlength : (w.pending.drop k).length = w.pending.length - k := List.length_drop
  rw [World.refers, World.consume_pending, World.push_pending hroom, World.purged_pending]
  constructor
  · intro hpair
    obtain ⟨entry, hentry, -⟩ := hpair
    have hpos := List.length_pos_of_mem hentry
    simp only [List.length_drop, List.length_append, List.length_singleton] at hpos
    omega
  · intro hk
    rw [List.drop_append_of_le_length (by omega)]
    exact ⟨_, List.mem_append_right _ (List.mem_singleton_self _), rfl⟩

/-- **No entry is left behind** that refers to the stack frame of the call,
    exactly if the entry was never pushed or the second submit consumes it. -/
theorem no_dangling_timeout_iff (hnew : ¬w.refers w.blocks) (sec : UInt64) (nsec : UInt32)
    (first last : Enter) :
    ¬(wait_with_timeout sec nsec first last w).2.refers w.blocks ↔ w.timeout_gone first last := by
  have hcases : ∀ r w', TimedWait ⟨sec, nsec⟩ first last w r w' →
      (¬w'.refers w.blocks ↔ w.timeout_gone first last) := by
    intro r w' h
    cases h with
    | closed hclosed =>
      -- A closed ring has room for nothing.
      have hcapacity : w.capacity = 0 := by
        cases hring : w.ring.the_io_uring with
        | none => simp [World.capacity, hring]
        | some uring => simp [World.is_open, hring] at hclosed
      apply iff_of_true hnew
      unfold World.timeout_gone
      split
      · trivial
      · omega
      · omega
    | failed hopen errno hfirst =>
      subst hfirst
      exact iff_of_true hnew trivial
    | still_full hopen k hfirst hfull =>
      subst hfirst
      rw [World.purged_has_room] at hfull
      apply iff_of_true (World.purged_refers hnew k)
      cases last with
      | error errno => exact hfull
      | ok k' => exact fun hroom => absurd hroom hfull
    | interrupted hopen k hfirst hroom errno hlast =>
      subst hfirst hlast
      have hleft : (((w.purged k).push (timeout_entry w.blocks ⟨sec, nsec⟩)).consume 0).refers
          w.blocks ↔ 0 ≤ w.pending.length - k := refers_after_consume hroom 0
      rw [World.refers, World.consume_pending, List.drop_zero] at hleft
      rw [World.purged_has_room] at hroom
      exact iff_of_false (not_not.mpr (hleft.mpr (Nat.zero_le _))) (not_not.mpr hroom)
    | waited hopen k hfirst hroom k' hlast =>
      subst hfirst hlast
      rw [refers_after_consume hroom, Nat.not_le]
      rw [World.purged_has_room] at hroom
      exact ⟨fun hgone _ => hgone, fun hgone => hgone hroom⟩
  refine Fallible.wp_state (P := fun w' : World => ¬w'.refers w.blocks ↔ _) ?_
  exact Fallible.wp_mono (wait_with_timeout_cases sec nsec first last w)
    (fun _ w' h => hcases _ w' h) (fun _ w' h => hcases _ w' h)

end timed_wait

/-- The second submit consumes the timeout entry. -/
theorem no_dangling_timeout_iff_waited :
    ¬(wait_with_timeout 1 0 (.ok 0) (.ok 1) (PyState.fresh 2 0).world).2.refers 0 := by
  refine (no_dangling_timeout_iff ?_ 1 0 (.ok 0) (.ok 1)).mpr (by decide)
  exact next_frame_unused ⟨_, fresh_initial, .nil⟩

/-- The wait is interrupted: the entry stays in the queue, and the next submit
    has the kernel read a dead stack frame. -/
theorem interrupted_wait_leaves_timeout :
    let w := (PyState.fresh 2 0).world
    let out := wait_with_timeout 1 0 (.ok 0) (.error 4) w
    (PyState.fresh 2 0).initial ∧ ¬w.refers w.blocks ∧
      out.2.pending = [timeout_entry w.blocks ⟨1, 0⟩] ∧
      ¬¬out.2.refers w.blocks ∧
      (submit (.ok 1) out.2).2.running = [timeout_entry w.blocks ⟨1, 0⟩] := by
  intro w out
  have hpending : out.2.pending = [timeout_entry w.blocks ⟨1, 0⟩] := by decide
  have hnew : ¬w.refers w.blocks := next_frame_unused ⟨_, fresh_initial, .nil⟩
  refine ⟨fresh_initial, hnew, hpending, not_not.mpr ?_, by decide⟩
  exact ⟨_, by rw [hpending]; exact List.mem_singleton_self _, rfl⟩

end CenturyRing
