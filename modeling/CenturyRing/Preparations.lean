import CenturyRing.Ownership

/-! # Preparations are atomic

  A call of a `prep_*` method checks its arguments, allocates a user data,
  pushes an entry, which may submit the queue first, takes ownership of what
  the entry points into, and `prep_close` marks its handle. It raises only
  before the entry is in the queue, and whatever comes behind that cannot fail.
-/

namespace CenturyRing

/-- What a call that raises leaves behind: the user data it may have allocated,
    and the submit it may have made. -/
structure NoTrace (answer : Enter) (s s' : PyState) : Prop where
  owned_data : s'.world.ring.owned_data = s.world.ring.owned_data
  handles : s'.handles = s.handles
  /-- The entries accepted so far are those accepted before, in order, be they
      pending or consumed. -/
  accepted : s'.world.accepted = s.world.accepted
  /-- No operation has begun or ended. -/
  live : s.world.live.Perm s'.world.live
  counter : s'.world.ring.user_data_counter = s.world.ring.user_data_counter ∨
    s'.world.ring.user_data_counter = s.world.ring.user_data_counter + 1
  /-- Nothing else has happened to the ring but the submit of a full queue. -/
  resubmitted : ∃ blocks, Resubmitted answer
    (s.world.advance s'.world.ring.user_data_counter blocks) s'.world

/-- What a call that returns `ud` leaves behind: its entry, and what the entry
    points into. -/
structure OneEntry (p : Prep) (s : PyState) (ud : UInt64) (s' : PyState) : Prop where
  user_data : ud = s.world.ring.user_data_counter
  counter : s'.world.ring.user_data_counter = s.world.ring.user_data_counter + 1
  /-- Exactly one entry has been accepted, and it is the last one in the queue. -/
  accepted : s'.world.accepted = s.world.accepted ++ [p.sqe s]
  pending : ∃ before, s'.world.pending = before ++ [p.sqe s]
  live : (s.world.live ++ [p.sqe s]).Perm s'.world.live
  /-- Only `prep_close` marks a handle. -/
  handles : s'.handles = p.handles s
  /-- What the entry points into is owned under its user data. -/
  owned_data : s'.world.ring.owned_data =
    match p.owned s with
    | some owned => Function.update s.world.ring.owned_data ud (some owned)
    | none => s.world.ring.owned_data
  owns : (p.owned s).isSome = ((p.sqe s).op.pointer).isSome
  backs : ∀ owned, p.owned s = some owned → owned.backs (p.sqe s).op

theorem Prepared.isSome_eq {entry : Entry} {owned : Option OwnedData} (h : Prepared entry owned) :
    owned.isSome = entry.op.pointer.isSome := by
  cases howned : owned with
  | none =>
    rw [h.unowned howned]
    rfl
  | some data => exact (OwnedData.backs_pointer (h.backed data howned)).symm

/-- **A preparation that raises leaves no trace**, and one that returns leaves
    exactly one entry and what it points into, whatever state the ring is in. -/
theorem preparations_are_atomic (p : Prep) (answer : Enter) (s : PyState) :
    match p.run answer s with
    | (.error _, s') => NoTrace answer s s'
    | (.ok ud, s') => OneEntry p s ud s' := by
  have hprepped := p.run_prepped answer s
  generalize p.run answer s = out at hprepped ⊢
  obtain ⟨r, s'⟩ := out
  cases hprepped with
  | refused e counter hcounter hrefused =>
    obtain ⟨blocks, hblocks, hqueue⟩ := hrefused.resubmitted
    -- Only the counter and the blocks have moved, and a full queue was submitted.
    have hquiet := (Quiet.advance s.world counter hblocks).trans hqueue.quiet
    show NoTrace answer s _
    refine ⟨hquiet.owned_data, rfl, hquiet.accepted, hquiet.live, ?_, blocks, ?_⟩
    · show _ = _ ∨ _ = _
      rw [hqueue.counter]
      exact hcounter
    · show Resubmitted answer _ _
      rw [hqueue.counter]
      exact hqueue
  | queued hhandle hqueued =>
    obtain ⟨blocks, w₁, hblocks, hfresh, hprepared, hqueue, hroom⟩ := hqueued
    have hquiet := (Quiet.advance s.world (s.world.ring.user_data_counter + 1) hblocks).trans
      hqueue.quiet
    -- The entry is pushed, and then what it points into is owned.
    have hpush := w₁.push_sameProcess (p.sqe s)
    have hbefore : w₁.ring.user_data_counter = s.world.ring.user_data_counter + 1 := hqueue.counter
    show OneEntry p s _ _
    refine ⟨rfl, ?_, ?_, ⟨w₁.pending, ?_⟩, ?_, rfl, ?_, hprepared.isSome_eq, hprepared.backed⟩
    · rw [World.own_counter, hpush.user_data_counter, hbefore]
    · rw [World.own_accepted, World.push_accepted hroom, hquiet.accepted]
    · show World.pending (World.own _ _ _) = _
      rw [World.own_pending, World.push_pending hroom]
    · rw [World.own_live]
      exact (hquiet.live.append_right _).trans (World.push_live hroom _)
    · cases howned : p.owned s with
      | none => simp [World.own, hquiet.owned_data]
      | some owned => simp [World.own, hquiet.owned_data]

end CenturyRing
