import CenturyRing.Sidecar
import CenturyRing.Overflow

/-! # The ring of a sidecar

  `start_uring_sidecar` takes the arguments of `make_io_ring` and passes none
  of them on. Whether that shows depends on what the host makes of the
  arguments: two rings are told apart by how many entries and how many
  completions fit, by what happens to a full queue, and by what a submit
  reports.
-/

open LTS

namespace CenturyRing

/-! ### What can be seen of a ring -/

/-- What a call returns or raises. -/
inductive RingResult where
  | user_data (r : Except PyErr UInt64)
  | count (r : Except PyErr Nat)
  | events (r : Except PyErr (List CompletionEvent))
  | unit (r : Except PyErr Unit)
  | suppresses (r : Except PyErr Bool)
  /-- The kernel was at work. -/
  | nothing

namespace RingLabel

def result (l : RingLabel) (s : PyState) : RingResult :=
  match l with
  | prep p answer => .user_data (p.run answer s).1
  | submit answer => .count (rust (CenturyRing.submit answer) s).1
  | submit_and_wait count answer => .count (CenturyRing.submit_and_wait count answer s).1
  | submit_and_wait_with_timeout seconds nsec first last =>
    .count (CenturyRing.submit_and_wait_with_timeout seconds nsec first last s).1
  | get_completion_entries bursts => .events (rust (CenturyRing.get_completion_entries bursts) s).1
  | close => .unit (rust CenturyRing.close s).1
  | close_handle answer handle => .unit (FdHandle.close answer handle s).1
  | exit_handle answer handle => .suppresses (FdHandle.exit answer handle s).1
  | kernel _ => .nothing

/-- The batches that the kernel consumes meanwhile: the submit of a call, and
    the hidden one of a preparation. -/
def submits (l : RingLabel) (s : PyState) : List (List Entry) :=
  (l.run s).world.kernel.batches.drop s.world.kernel.batches.length

end RingLabel

/-- What can be seen of a step. -/
def observe (s : PyState) (l : RingLabel) : RingResult × List (List Entry) :=
  (l.result s, l.submits s)

/-- Two attempts to make a ring raise the same, or the rings give the same
    results and make the same submits in every run, whatever the handles are. -/
def same_behaviour : Except PyErr World → Except PyErr World → Prop
  | .error e, .error e' => e = e'
  | .ok w, .ok w' => ∀ handles, Alike (fun s l => l.run s) observe ⟨handles, w⟩ ⟨handles, w'⟩
  | _, _ => False

theorem same_behaviour.refl (made : Except PyErr World) : same_behaviour made made := by
  cases made with
  | error e => exact rfl
  | ok w => exact fun _ _ => rfl

theorem same_behaviour.symm {made made' : Except PyErr World} (h : same_behaviour made made') :
    same_behaviour made' made := by
  cases made with
  | error e =>
    cases made' with
    | error e' => exact Eq.symm h
    | ok w' => exact h
  | ok w =>
    cases made' with
    | error e' => exact h
    | ok w' => exact fun handles => (h handles).symm

/-! ### Filling the submission queue -/

/-- A preparation that needs nothing but room. If it submits, the kernel is
    out of memory. -/
def close_call : RingLabel := .prep (.close (.int 3) none) (.error 12)

/-- Everything `close_call` can do. -/
theorem close_call_cases {s : PyState} (hclose : s.world.ring.probe .Close = true) :
    ∃ (entry : Entry) (r : Except PyErr Unit),
      close_call.result s = .user_data (r.map fun _ => s.world.ring.user_data_counter) ∧
      Autosubmit entry (.error 12) s.allocated.world r (close_call.run s).world := by
  let call : PyM UInt64 := (Prep.close (.int 3) none).run (.error 12)
  have hcall : call.wp
      (fun ud s' => ∃ entry, ud = s.world.ring.user_data_counter ∧
        Autosubmit entry (.error 12) s.allocated.world (.ok ()) s'.world)
      (fun e s' => ∃ entry,
        Autosubmit entry (.error 12) s.allocated.world (.error e) s'.world) s := by
    show (prep_close (.int 3) none (.error 12)).wp _ _ s
    rw [prep_close, wp_get_next_user_data]
    apply wp_unwrap_file (fun h heq => by cases heq)
    intro _
    have hfits : -2 ^ 31 ≤ (3 : Int) ∧ (3 : Int) < 2 ^ 31 := by decide
    apply wp_conversion (fun h => absurd hfits h)
    intro _
    have hflags : 0 ≤ (0 : Int) ∧ (0 : Int) < 2 ^ 8 := by decide
    apply wp_conversion (fun h => absurd hflags h)
    intro _
    rw [Fallible.wp_bind, wp_rust, ioring_prep_close, Fallible.wp_bind, wp_require_supported]
    refine ⟨fun _ => ?_, fun h => by cases hclose.symm.trans h⟩
    refine Fallible.wp_mono (autosubmit_cases _ _ _) (fun _ w h => ?_) fun _ w h => ⟨_, h⟩
    simp only [AcceptableFile.as_handle]
    rw [Fallible.wp_pure]
    exact ⟨_, rfl, h⟩
  show ∃ entry r, RingResult.user_data (call s).1 = _ ∧ Autosubmit entry _ _ r (call s).2.world
  rcases hrun : call s with ⟨r, s'⟩
  cases r with
  | ok ud =>
    obtain ⟨entry, rfl, h⟩ := Fallible.wp_ok hcall hrun
    exact ⟨entry, .ok (), rfl, h⟩
  | error e =>
    obtain ⟨entry, h⟩ := Fallible.wp_error hcall hrun
    exact ⟨entry, .error e, rfl, h⟩

section filling

variable {s : PyState}

/-- Only an open ring has a queue. -/
theorem World.is_open_of_capacity {w : World} (h : 0 < w.capacity) : w.is_open = true := by
  cases hring : w.ring.the_io_uring with
  | none => simp [World.capacity, hring] at h
  | some uring => simp [World.is_open, hring]

/-- With room in the queue, it is queued and nothing else happens. -/
structure Queues (s s' : PyState) : Prop where
  probe : s'.world.ring.probe = s.world.ring.probe
  capacity : s'.world.capacity = s.world.capacity
  sqpoll : s'.world.sqpoll = s.world.sqpoll
  autosubmit : s'.world.ring.autosubmit = s.world.ring.autosubmit
  cq_entries : s'.world.cq_entries = s.world.cq_entries
  cq : s'.world.cq = s.world.cq
  kernel : s'.world.kernel = s.world.kernel
  pending : ∃ entry, s'.world.pending = s.world.pending ++ [entry]

theorem close_call_room (hclose : s.world.ring.probe .Close = true) (hroom : s.world.has_room) :
    close_call.result s = .user_data (.ok s.world.ring.user_data_counter) ∧
      Queues s (close_call.run s) := by
  obtain ⟨entry, r, hresult, hauto⟩ := close_call_cases hclose
  have hroom' : s.allocated.world.has_room := (s.world.advance_has_room _ _).mpr hroom
  cases hauto' : r with
  | error e =>
    rw [hauto'] at hauto
    generalize (close_call.run s).world = w at hauto
    cases hauto with
    | closed hclosed => cases hclosed.symm.trans (World.is_open_of_has_room hroom')
    | disabled _ hfull => exact absurd hroom' hfull
    | failed _ hfull => exact absurd hroom' hfull
    | still_full _ hfull => exact absurd hroom' hfull
  | ok =>
    rw [hauto'] at hauto hresult
    obtain ⟨w, hqueue, -, hpush⟩ := hauto.ok
    obtain rfl : w = s.allocated.world := by
      cases hqueue with
      | unchanged => exact rfl
      | consumed _ hfull => exact absurd hroom' hfull
    have hprocess := s.allocated.world.push_sameProcess entry
    refine ⟨hresult, ?_, ?_, ?_, ?_, ?_, ?_, ?_, entry, ?_⟩ <;> rw [hpush]
    · exact hprocess.probe
    · exact hprocess.capacity
    · exact hprocess.sqpoll
    · exact hprocess.autosubmit
    · exact World.push_cq_entries _ _
    · exact World.push_cq _ _
    · exact World.push_kernel _ _
    · exact World.push_pending hroom' entry

/-- A full queue is submitted, which fails, or may not be submitted. -/
theorem close_call_full (hclose : s.world.ring.probe .Close = true)
    (hopen : s.world.is_open = true) (hfull : ¬s.world.has_room) :
    close_call.result s =
      .user_data (.error (if s.world.ring.autosubmit then .os_error 12 else queue_full)) := by
  obtain ⟨entry, r, hresult, hauto⟩ := close_call_cases hclose
  have hfull' : ¬s.allocated.world.has_room := mt (s.world.advance_has_room _ _).mp hfull
  rw [hresult]
  generalize (close_call.run s).world = w at hauto
  cases hauto with
  | closed hclosed => cases hclosed.symm.trans hopen
  | at_once hroom => exact absurd hroom hfull'
  | disabled _ _ hmanual =>
    rw [if_neg (by rw [show s.world.ring.autosubmit = false from hmanual]; nofun)]
    exact rfl
  | failed _ _ hauto errno hanswer =>
    cases hanswer
    rw [if_pos (show s.world.ring.autosubmit = true from hauto)]
    exact rfl
  | retried _ _ _ consumed hanswer => cases hanswer
  | still_full _ _ _ consumed hanswer => cases hanswer

/-- `n` entries are queued. -/
structure Filled (s s' : PyState) (n : Nat) : Prop where
  probe : s'.world.ring.probe = s.world.ring.probe
  capacity : s'.world.capacity = s.world.capacity
  sqpoll : s'.world.sqpoll = s.world.sqpoll
  autosubmit : s'.world.ring.autosubmit = s.world.ring.autosubmit
  pending : s'.world.pending.length = n

/-- The first calls fill the queue. -/
theorem filled_by_calls (hclose : s.world.ring.probe .Close = true)
    (hempty : s.world.pending = []) {n : Nat} (hn : n ≤ s.world.capacity) :
    Filled s (run_all (List.replicate n close_call) s) n := by
  induction n with
  | zero => exact ⟨rfl, rfl, rfl, rfl, by simp [run_all, hempty]⟩
  | succ n ih =>
    have h := ih (Nat.le_of_succ_le hn)
    have hroom : (run_all (List.replicate n close_call) s).world.has_room := by
      rw [World.has_room, h.pending, h.capacity]
      exact hn
    have hclose' := hclose
    rw [← h.probe] at hclose'
    have hqueues := (close_call_room hclose' hroom).2
    have hrun : run_all (List.replicate (n + 1) close_call) s =
        close_call.run (run_all (List.replicate n close_call) s) := by
      rw [List.replicate_succ', run_all, List.foldl_append]
      exact rfl
    rw [hrun]
    obtain ⟨entry, hpending⟩ := hqueues.pending
    refine ⟨hqueues.probe.trans h.probe, hqueues.capacity.trans h.capacity,
      hqueues.sqpoll.trans h.sqpoll, hqueues.autosubmit.trans h.autosubmit, ?_⟩
    rw [hpending, List.length_append, h.pending, List.length_singleton]

end filling

/-! ### Filling the completion queue -/

/-- An operation is queued, submitted and completed. -/
def serve : List RingLabel := [close_call, .submit (.ok 1), .kernel (.complete 0 0)]

/-- `n` operations have been completed and none is under way. -/
structure Served (cq_entries n : Nat) (w : World) : Prop where
  probe : w.ring.probe .Close = true
  capacity : 0 < w.capacity
  cq_entries : w.cq_entries = cq_entries
  filled : w.FilledInOrder
  pending : w.pending = []
  inflight : w.kernel.inflight = []
  unreaped : w.unreaped.length = n

section serving

variable {s : PyState} {cq_entries n : Nat}

theorem Served.step (h : Served cq_entries n s.world) :
    Served cq_entries (n + 1) (run_all serve s).world := by
  have hroom : s.world.has_room := by
    rw [World.has_room, h.pending]
    exact h.capacity
  have hopen := World.is_open_of_has_room hroom
  -- The entry is queued.
  have hqueued := (close_call_room h.probe hroom).2
  obtain ⟨entry, hpending⟩ := hqueued.pending
  rw [h.pending, List.nil_append] at hpending
  generalize hs₁ : close_call.run s = s₁ at hqueued hpending
  have hopen₁ : s₁.world.is_open = true := by
    apply World.is_open_of_capacity
    rw [hqueued.capacity]
    exact h.capacity
  -- The kernel takes it and completes it.
  have hsubmit : ((RingLabel.submit (.ok 1)).run s₁).world = s₁.world.consume 1 :=
    submit_state (.ok 1) s₁.world
  have hrun : run_all serve s =
      (RingLabel.kernel (.complete 0 0)).run ((RingLabel.submit (.ok 1)).run s₁) := by
    rw [← hs₁]
    exact rfl
  have hworld : (run_all serve s).world = (s₁.world.consume 1).complete 0 0 := by
    rw [hrun, ← hsubmit]
    exact rfl
  rw [hworld]
  have hconsume := s₁.world.consume_sameProcess 1
  have hcomplete := (s₁.world.consume 1).complete_sameProcess 0 0
  have hinflight : (s₁.world.consume 1).kernel.inflight = start_batch s₁.world.kernel.now [entry] := by
    cases hring : s₁.world.ring.the_io_uring with
    | none => simp [World.is_open, hring] at hopen₁
    | some uring =>
      have hentries : uring.sq.entries = [entry] := by
        simpa [World.pending, hring] using hpending
      simp [World.consume, hring, hentries, hqueued.kernel, h.inflight]
  have hfilled : s₁.world.FilledInOrder := by
    constructor
    · rw [hqueued.cq, hqueued.cq_entries]
      exact h.filled.fits
    · rw [hqueued.kernel, hqueued.cq, hqueued.cq_entries]
      exact h.filled.full
  have hunreaped : (s₁.world.consume 1).unreaped = s.world.unreaped := by
    rw [World.consume_unreaped, World.unreaped_eq, World.unreaped_eq, if_pos hopen, if_pos hopen₁,
      hqueued.cq, hqueued.kernel]
  constructor
  · rw [hcomplete.probe, hconsume.probe, hqueued.probe]
    exact h.probe
  · rw [hcomplete.capacity, hconsume.capacity, hqueued.capacity]
    exact h.capacity
  · rw [World.complete_cq_entries, World.consume_cq_entries, hqueued.cq_entries]
    exact h.cq_entries
  · exact World.complete_filledInOrder (World.consume_filledInOrder hfilled 1) 0 0
  · rw [World.complete_pending, World.consume_pending, hpending]
    exact rfl
  · rw [World.complete_inflight, hinflight]
    exact rfl
  · have hcomplete' : (s₁.world.consume 1).complete 0 0 =
        ((s₁.world.consume 1).finish 0).post ⟨entry, 0⟩ := by
      simp [World.complete, hinflight, start_batch]
    have hopen₂ : ((s₁.world.consume 1).finish 0).is_open = true := by
      show (s₁.world.consume 1).is_open = true
      rw [hconsume.is_open, hopen₁]
    rw [hcomplete', World.post_unreaped hopen₂, List.length_append]
    show (s₁.world.consume 1).unreaped.length + 1 = n + 1
    rw [hunreaped, h.unreaped]

theorem served_by_rounds (h : Served cq_entries 0 s.world) (n : Nat) :
    Served cq_entries n (run_all (List.replicate n serve).flatten s).world := by
  induction n with
  | zero => exact h
  | succ n ih =>
    have hrun : run_all (List.replicate (n + 1) serve).flatten s =
        run_all serve (run_all (List.replicate n serve).flatten s) := by
      rw [List.replicate_succ', List.flatten_append, run_all, List.foldl_append,
        List.flatten_singleton]
      exact rfl
    rw [hrun]
    exact ih.step

/-- As many events are handed out as completions fit the queue. -/
theorem Served.events (h : Served cq_entries n s.world) :
    ∃ events, (RingLabel.get_completion_entries []).result s = .events (.ok events) ∧
      events.length = min n cq_entries := by
  have hcq : s.world.cq.length = min n cq_entries := by
    have hfits := h.filled.fits
    have hunreaped := h.unreaped
    rw [World.unreaped_eq, if_pos (World.is_open_of_capacity h.capacity),
      List.length_append] at hunreaped
    rw [h.cq_entries] at hfits
    by_cases hoverflow : s.world.kernel.overflow = []
    · rw [hoverflow, List.length_nil] at hunreaped
      omega
    · have hfull := h.filled.full hoverflow
      rw [h.cq_entries] at hfull
      omega
  have hdrain : (World.drain [] s.world).1 = s.world.cq := by
    rw [World.drain, World.drain_round_eq]
    by_cases hempty : s.world.cq = []
    · simp [hempty]
    · simp [hempty]
  refine ⟨_, congrArg RingResult.events (congrArg Prod.fst
    (get_completion_entries_open (World.is_open_of_capacity h.capacity) [])), ?_⟩
  rw [← hcq, ← hdrain]
  show (complete_entries _ (World.drain [] s.world).1).1.length = _
  have hevents := congrArg List.length
    (complete_entries_events (World.drain [] s.world).2.ring.owned_data (World.drain [] s.world).1)
  simpa using hevents

end serving

/-! ### Rings that cannot be told apart -/

section alike

variable {s s' : PyState}

/-- A new ring that can be asked to close a file. -/
structure Usable (w : World) : Prop where
  blank : Blank w
  probe : w.ring.probe .Close = true
  filled : w.FilledInOrder

theorem Usable.served {w : World} (h : Usable w) : Served w.cq_entries 0 w where
  probe := h.probe
  capacity := h.blank.capacity
  cq_entries := rfl
  filled := h.filled
  pending := h.blank.pending
  inflight := List.map_eq_nil_iff.mp h.blank.running
  unreaped := by rw [h.blank.unreaped]; exact rfl

variable (h : Alike (fun s l => l.run s) observe s s') (hs : Usable s.world)
         (hs' : Usable s'.world)

include h in
/-- After the same steps, the next one returns or raises the same. -/
theorem alike_result (ls : List RingLabel) (l : RingLabel) :
    l.result (run_all ls s) = l.result (run_all ls s') :=
  congrArg Prod.fst (h.after ls l)

/-- A queue that has been filled. -/
theorem Filled.full_result {t : PyState} (hs : Usable s.world)
    (hfull : Filled s t s.world.capacity) : close_call.result t =
      .user_data (.error (if s.world.ring.autosubmit then .os_error 12 else queue_full)) := by
  have hprobe := hs.probe
  have hcapacity := hs.blank.capacity
  rw [← hfull.probe] at hprobe
  rw [← hfull.capacity] at hcapacity
  rw [close_call_full hprobe (World.is_open_of_capacity hcapacity), hfull.autosubmit]
  rw [World.has_room, hfull.pending, hfull.capacity]
  exact Nat.lt_irrefl _

include h hs hs' in
/-- The smaller queue is full first. -/
theorem alike_capacity_le : s'.world.capacity ≤ s.world.capacity := by
  by_contra hnot
  have hlt := Nat.not_le.mp hnot
  have hfull := filled_by_calls hs.probe hs.blank.pending (Nat.le_refl _)
  have hroom := filled_by_calls hs'.probe hs'.blank.pending hlt.le
  have hresult := alike_result h (List.replicate s.world.capacity close_call) close_call
  have hprobe := hs'.probe
  rw [← hroom.probe] at hprobe
  rw [hfull.full_result hs, (close_call_room hprobe _).1] at hresult
  · cases hresult
  · rw [World.has_room, hroom.pending, hroom.capacity]
    exact hlt

include h hs hs' in
/-- A full queue shows whether it is submitted. -/
theorem alike_autosubmit (hcapacity : s'.world.capacity = s.world.capacity) :
    s'.world.ring.autosubmit = s.world.ring.autosubmit := by
  have hfull := filled_by_calls hs.probe hs.blank.pending (Nat.le_refl _)
  have hfull' := filled_by_calls hs'.probe hs'.blank.pending (Nat.le_refl _)
  have hresult := alike_result h (List.replicate s.world.capacity close_call) close_call
  rw [hcapacity] at hfull'
  rw [hfull.full_result hs, Filled.full_result hs' (hcapacity ▸ hfull')] at hresult
  revert hresult
  cases s.world.ring.autosubmit <;> cases s'.world.ring.autosubmit <;> simp [queue_full]

/-- What a submit of an open ring reports. -/
theorem submit_result {s : PyState} (hopen : s.world.is_open = true) (k : Nat) :
    (RingLabel.submit (.ok k)).result s = .count (.ok (s.world.submitted k)) := by
  show RingResult.count (submit (.ok k) s.world).1 = _
  rw [submit, Fallible.run_bind_ok (require_open_of_open hopen)]
  exact rfl

include h hs hs' in
/-- A kernel that consumes one of two entries: without a polling thread, the
    submit reports one. -/
theorem alike_sqpoll (hcapacity : 2 ≤ s.world.capacity) (hcapacity' : 2 ≤ s'.world.capacity) :
    s'.world.sqpoll = s.world.sqpoll := by
  have hfilled := filled_by_calls hs.probe hs.blank.pending hcapacity
  have hfilled' := filled_by_calls hs'.probe hs'.blank.pending hcapacity'
  have hresult := alike_result h (List.replicate 2 close_call) (.submit (.ok 1))
  have hpos : 0 < s.world.capacity := by omega
  have hpos' : 0 < s'.world.capacity := by omega
  rw [← hfilled.capacity] at hpos
  rw [← hfilled'.capacity] at hpos'
  rw [submit_result (World.is_open_of_capacity hpos),
    submit_result (World.is_open_of_capacity hpos'), World.submitted, World.submitted,
    hfilled.pending, hfilled'.pending, hfilled.sqpoll, hfilled'.sqpoll] at hresult
  revert hresult
  cases s.world.sqpoll <;> cases s'.world.sqpoll <;> simp

include h hs hs' in
/-- The smaller completion queue overflows first. -/
theorem alike_cq_entries_le : s'.world.cq_entries ≤ s.world.cq_entries := by
  by_contra hnot
  have hlt := Nat.not_le.mp hnot
  have hserved := served_by_rounds hs.served (s.world.cq_entries + 1)
  have hserved' := served_by_rounds hs'.served (s.world.cq_entries + 1)
  have hresult := alike_result h (List.replicate (s.world.cq_entries + 1) serve).flatten
    (.get_completion_entries [])
  obtain ⟨events, hevents, hlength⟩ := hserved.events
  obtain ⟨events', hevents', hlength'⟩ := hserved'.events
  rw [hevents, hevents'] at hresult
  obtain rfl : events = events' := by simpa using hresult
  omega

include h hs hs' in
theorem alike_settings (hcapacity : 2 ≤ s.world.capacity) :
    s'.world.capacity = s.world.capacity ∧ s'.world.cq_entries = s.world.cq_entries ∧
      s'.world.ring.autosubmit = s.world.ring.autosubmit ∧ s'.world.sqpoll = s.world.sqpoll := by
  have hsame : s'.world.capacity = s.world.capacity :=
    Nat.le_antisymm (alike_capacity_le h hs hs') (alike_capacity_le h.symm hs' hs)
  refine ⟨hsame, ?_, alike_autosubmit h hs hs' hsame, ?_⟩
  · exact Nat.le_antisymm (alike_cq_entries_le h hs hs') (alike_cq_entries_le h.symm hs' hs)
  · exact alike_sqpoll h hs hs' hcapacity (hsame ▸ hcapacity)

end alike

/-! ### What the host makes of the arguments -/

namespace SidecarArgs

variable (args : SidecarArgs)

/-- The settings `make_io_ring` asks the host for. -/
def settings (host : Host) : Builder :=
  ring_builder (host.kernel_version.getD ⟨5, 18⟩) (.ofInt args.entries)
    (.ofInt (positive_or_zero args.cq_size)) (.ofInt (positive_or_zero args.sqpoll_idle_ms))
    args.single_issuer

/-- What the host answers. -/
def setup (host : Host) : Except Int32 Parameters :=
  host.io_uring_setup (.ofInt args.entries) (args.settings host)

/-- `make_io_ring`, called with these arguments. -/
def make_io_ring (host : Host) : Except PyErr World :=
  CenturyRing.make_io_ring host args.entries args.cq_size args.sqpoll_idle_ms args.single_issuer
    args.autosubmit

/-- The arguments fit their types, and there is to be an entry. -/
def in_range : Prop :=
  0 < args.entries ∧ args.entries < 2 ^ 32 ∧ positive_or_zero args.cq_size < 2 ^ 32 ∧
    positive_or_zero args.sqpoll_idle_ms < 2 ^ 32

end SidecarArgs

/-- The kernel is too old. -/
def Host.too_old (host : Host) : Prop :=
  let version := host.kernel_version.getD ⟨5, 18⟩
  version.major < 5 ∨ (version.major < 6 ∧ version.minor < 18)

def Host.too_old_message (host : Host) : String :=
  let kernel_version := host.kernel_version.getD ⟨5, 18⟩
  let major := kernel_version.major
  let minor := kernel_version.minor
  s!"Kernel version unsupported; needs >=5.18, got {major}.{minor}"

/-- A kernel that can register a probe supports closing a file, long since. -/
def Host.SupportsClose (host : Host) : Prop :=
  ∀ probe, host.register_probe = .ok probe → probe .Close = true

/-- What the host answers to the arguments leads to the same ring, or to the
    same error, as what it answers to the defaults. -/
def Host.answers_alike (host : Host) (args : SidecarArgs) : Prop :=
  match SidecarArgs.default.setup host, args.setup host with
  | .error errno, .error errno' => errno = errno'
  | .ok params, .ok params' =>
    params.is_feature_nodrop = params'.is_feature_nodrop ∧
      (params.is_feature_nodrop = true → (∃ probe, host.register_probe = .ok probe) →
        params'.sq_entries = params.sq_entries ∧ params'.cq_entries = params.cq_entries ∧
        args.autosubmit = true ∧ positive_or_zero args.sqpoll_idle_ms = 0)
  -- Registering the probe can fail as the setup does.
  | .ok params, .error errno => params.is_feature_nodrop = true ∧ host.register_probe = .error errno
  | .error errno, .ok params => params.is_feature_nodrop = true ∧ host.register_probe = .error errno

/-- What `create_io_ring` makes of an answer. -/
def ring_of (host : Host) (answer : Except Int32 Parameters) (builder : Builder)
    (autosubmit : Bool) : Except PyErr World := do
  let params ← answer.mapError .os_error
  if !params.is_feature_nodrop then
    throw (.panic "io_uring doesn't support nodrop even though it should!")
  let probe ← host.register_probe.mapError .os_error
  return World.created params builder probe autosubmit

/-- The error says that the arguments are wrong. -/
def PyErr.blames_arguments : PyErr → Bool
  | overflow_error | value_error _ => true
  | _ => false

section made

variable {host : Host} {args : SidecarArgs}

theorem positive_or_zero_nonneg (x : Option Int) : 0 ≤ positive_or_zero x := by
  unfold positive_or_zero
  split
  · split <;> omega
  · exact Int.le_refl 0

theorem extract_u32_of_fits {x : Int} (h : 0 ≤ x) (h' : x < 2 ^ 32) :
    extract_u32 x = .ok (.ofInt x) := if_pos ⟨h, h'⟩

variable (host) in
/-- Arguments in range are those that are converted, to a number of entries that
    is not zero. -/
theorem make_io_ring_in_range (h : args.in_range) :
    args.make_io_ring host = create_io_ring host (.ofInt args.entries)
      (.ofInt (positive_or_zero args.cq_size)) (.ofInt (positive_or_zero args.sqpoll_idle_ms))
      args.single_issuer args.autosubmit ∧ UInt32.ofInt args.entries ≠ 0 := by
  obtain ⟨hpos, hentries, hcq_size, hidle⟩ := h
  have hconverted := extract_u32_of_fits hpos.le hentries
  refine ⟨?_, ?_⟩
  · rw [SidecarArgs.make_io_ring, CenturyRing.make_io_ring]
    simp only [hconverted, extract_u32_of_fits (positive_or_zero_nonneg _) hcq_size,
      extract_u32_of_fits (positive_or_zero_nonneg _) hidle]
    exact rfl
  · exact UInt32.pos_iff_ne_zero.mp ((extract_u32_pos hconverted).mpr hpos)

variable (host) in
/-- Arguments that are not in range are refused, however old the kernel is. -/
theorem make_io_ring_out_of_range (h : ¬args.in_range) :
    ∃ e, args.make_io_ring host = .error e ∧ e.blames_arguments = true := by
  rw [SidecarArgs.make_io_ring, CenturyRing.make_io_ring]
  cases hentries : extract_u32 args.entries with
  | error e => exact ⟨e, rfl, by rw [(extract_error hentries).1]; rfl⟩
  | ok entries =>
    cases hcq_size : extract_u32 (positive_or_zero args.cq_size) with
    | error e => exact ⟨e, rfl, by rw [(extract_error hcq_size).1]; rfl⟩
    | ok cq_entries =>
      cases hidle : extract_u32 (positive_or_zero args.sqpoll_idle_ms) with
      | error e => exact ⟨e, rfl, by rw [(extract_error hidle).1]; rfl⟩
      | ok idle =>
        have hzero : entries = 0 := by
          by_contra hne
          have hpos := (extract_u32_pos hentries).mp (UInt32.pos_iff_ne_zero.mpr hne)
          exact h ⟨hpos, (extract_ok hentries).2.2, (extract_ok hcq_size).2.2,
            (extract_ok hidle).2.2⟩
        subst hzero
        exact ⟨_, rfl, rfl⟩

theorem create_io_ring_too_old (hold : host.too_old) {entries : UInt32} (hentries : entries ≠ 0)
    (cq_entries idle : UInt32) (single_issuer autosubmit : Bool) :
    create_io_ring host entries cq_entries idle single_issuer autosubmit =
      .error (.os_error_message host.too_old_message) := by
  rw [create_io_ring, if_neg hentries]
  exact if_pos hold

theorem create_io_ring_of (hnew : ¬host.too_old) {entries : UInt32} (hentries : entries ≠ 0)
    (cq_entries idle : UInt32) (single_issuer autosubmit : Bool) :
    create_io_ring host entries cq_entries idle single_issuer autosubmit =
      let builder := ring_builder (host.kernel_version.getD ⟨5, 18⟩) entries cq_entries idle
        single_issuer
      ring_of host (host.io_uring_setup entries builder) builder autosubmit := by
  rw [create_io_ring, if_neg hentries]
  exact if_neg hnew

/-- What an answer that offers nodrop leads to. -/
theorem ring_of_nodrop {params : Parameters} (h : params.is_feature_nodrop = true)
    (builder : Builder) (autosubmit : Bool) :
    ring_of host (.ok params) builder autosubmit =
      (host.register_probe.mapError .os_error).map
        fun probe => World.created params builder probe autosubmit := by
  show (if (!params.is_feature_nodrop) = true then _ else _) = _
  rw [if_neg (by simp [h])]
  cases host.register_probe <;> exact rfl

theorem ring_of_dropping {params : Parameters} (h : params.is_feature_nodrop = false)
    (builder : Builder) (autosubmit : Bool) :
    ring_of host (.ok params) builder autosubmit =
      .error (.panic "io_uring doesn't support nodrop even though it should!") := by
  show (if (!params.is_feature_nodrop) = true then _ else _) = _
  rw [if_pos (by simp [h])]
  exact rfl

theorem usable_created {params : Parameters} (hcapacity : 0 < params.sq_entries)
    {probe : OpCode → Bool} (hprobe : probe .Close = true) (builder : Builder)
    (autosubmit : Bool) : Usable (World.created params builder probe autosubmit) where
  blank := ⟨rfl, rfl, rfl, rfl, rfl, rfl, rfl, rfl, hcapacity⟩
  probe := hprobe
  filled := ⟨Nat.zero_le _, fun h => absurd rfl h⟩

/-- Two rings on one host. -/
theorem same_behaviour_created {params params' : Parameters} {probe : OpCode → Bool}
    (hprobe : probe .Close = true) (hcapacity : 2 ≤ params.sq_entries)
    (hcapacity' : 0 < params'.sq_entries) (builder builder' : Builder)
    (autosubmit autosubmit' : Bool) :
    same_behaviour (.ok (World.created params builder probe autosubmit))
        (.ok (World.created params' builder' probe autosubmit')) ↔
      params'.sq_entries = params.sq_entries ∧ params'.cq_entries = params.cq_entries ∧
        autosubmit' = autosubmit ∧
        builder'.setup_sqpoll.isSome = builder.setup_sqpoll.isSome := by
  constructor
  · intro halike
    exact alike_settings (halike fun _ => ⟨3, false, []⟩)
      (usable_created (by omega) hprobe builder autosubmit)
      (usable_created hcapacity' hprobe builder' autosubmit') hcapacity
  · intro hsame
    obtain ⟨hsq, hcq, hauto, hsqpoll⟩ := hsame
    have heq : World.created params' builder' probe autosubmit' =
        World.created params builder probe autosubmit := by
      simp only [World.created, hsq, hcq, hauto, hsqpoll]
    rw [heq]
    exact .refl _

theorem settings_sqpoll (h : args.in_range) :
    (args.settings host).setup_sqpoll.isSome = false ↔
      positive_or_zero args.sqpoll_idle_ms = 0 := by
  have hnonneg := positive_or_zero_nonneg args.sqpoll_idle_ms
  have hpos := extract_u32_pos (extract_u32_of_fits hnonneg h.2.2.2)
  simp only [SidecarArgs.settings, ring_builder]
  split
  · next hidle =>
    have hlt := hpos.mp hidle
    exact iff_of_false (by simp) (by omega)
  · next hidle =>
    have hle := mt hpos.mpr hidle
    exact iff_of_true rfl (by omega)

theorem default_in_range : SidecarArgs.default.in_range :=
  ⟨by decide, by decide, by decide, by decide⟩

variable (host) in
/-- An answer leads to the error of a setup that failed exactly if registering
    the probe fails in the same way. -/
theorem same_behaviour_failed (errno : Int32) (params : Parameters) (builder : Builder)
    (autosubmit : Bool) :
    same_behaviour (.error (.os_error errno)) (ring_of host (.ok params) builder autosubmit) ↔
      params.is_feature_nodrop = true ∧ host.register_probe = .error errno := by
  by_cases hnodrop : params.is_feature_nodrop = true
  · rw [ring_of_nodrop hnodrop]
    cases hprobe : host.register_probe with
    | error errno' =>
      constructor
      · intro h
        cases h
        exact ⟨hnodrop, rfl⟩
      · intro h
        cases h.2
        exact rfl
    | ok probe => exact iff_of_false nofun (fun h => by cases h.2)
  · rw [ring_of_dropping (Bool.eq_false_iff.mpr hnodrop)]
    exact iff_of_false nofun (fun h => hnodrop h.1)

/-- Two answers that are not errors. -/
theorem same_behaviour_answered (hclose : host.SupportsClose) {params params' : Parameters}
    (hcapacity : 2 ≤ params.sq_entries) (hcapacity' : 0 < params'.sq_entries)
    (builder builder' : Builder) (autosubmit autosubmit' : Bool) :
    same_behaviour (ring_of host (.ok params) builder autosubmit)
        (ring_of host (.ok params') builder' autosubmit') ↔
      params.is_feature_nodrop = params'.is_feature_nodrop ∧
        (params.is_feature_nodrop = true → (∃ probe, host.register_probe = .ok probe) →
          params'.sq_entries = params.sq_entries ∧ params'.cq_entries = params.cq_entries ∧
            autosubmit' = autosubmit ∧
            builder'.setup_sqpoll.isSome = builder.setup_sqpoll.isSome) := by
  by_cases hnodrop : params.is_feature_nodrop = true
  · by_cases hnodrop' : params'.is_feature_nodrop = true
    · rw [ring_of_nodrop hnodrop, ring_of_nodrop hnodrop', hnodrop, hnodrop']
      cases hprobe : host.register_probe with
      | error errno => exact iff_of_true rfl ⟨rfl, fun _ h => by obtain ⟨probe, h⟩ := h; cases h⟩
      | ok probe =>
        refine (same_behaviour_created (hclose probe hprobe) hcapacity hcapacity' _ _ _ _).trans ?_
        exact ⟨fun h => ⟨rfl, fun _ _ => h⟩, fun h => h.2 rfl ⟨probe, rfl⟩⟩
    · rw [ring_of_nodrop hnodrop, ring_of_dropping (Bool.eq_false_iff.mpr hnodrop')]
      refine iff_of_false ?_ fun h => hnodrop' (h.1.symm.trans hnodrop)
      cases host.register_probe <;> exact nofun
  · rw [ring_of_dropping (Bool.eq_false_iff.mpr hnodrop)]
    by_cases hnodrop' : params'.is_feature_nodrop = true
    · rw [ring_of_nodrop hnodrop']
      refine iff_of_false ?_ fun h => hnodrop (h.1.trans hnodrop')
      cases host.register_probe <;> exact nofun
    · rw [ring_of_dropping (Bool.eq_false_iff.mpr hnodrop')]
      exact iff_of_true rfl
        ⟨(Bool.eq_false_iff.mpr hnodrop).trans (Bool.eq_false_iff.mpr hnodrop').symm,
          fun h => absurd h hnodrop⟩

/-- On a host that is not too old, the answers decide. -/
theorem same_behaviour_iff_answers_alike (hhost : host.RoundsUp) (hclose : host.SupportsClose)
    (h : args.in_range) (hentries : UInt32.ofInt args.entries ≠ 0) :
    same_behaviour
        (ring_of host (SidecarArgs.default.setup host) (SidecarArgs.default.settings host) true)
        (ring_of host (args.setup host) (args.settings host) args.autosubmit) ↔
      host.answers_alike args := by
  rw [Host.answers_alike]
  cases hanswer : SidecarArgs.default.setup host with
  | error errno =>
    cases hanswer' : args.setup host with
    | error errno' =>
      show PyErr.os_error errno = PyErr.os_error errno' ↔ errno = errno'
      exact ⟨PyErr.os_error.inj, congrArg _⟩
    | ok params' => exact same_behaviour_failed host errno params' _ _
  | ok params =>
    cases hanswer' : args.setup host with
    | error errno' =>
      have hfailed := same_behaviour_failed host errno' params
        (SidecarArgs.default.settings host) true
      exact Iff.trans ⟨same_behaviour.symm, same_behaviour.symm⟩ hfailed
    | ok params' =>
      have hcapacity : 256 ≤ params.sq_entries := hhost _ _ _ hanswer
      have hcapacity' : 0 < params'.sq_entries :=
        Nat.lt_of_lt_of_le (UInt32.pos_iff_ne_zero.mpr hentries) (hhost _ _ _ hanswer')
      refine (same_behaviour_answered hclose (by omega) hcapacity' _ _ _ _).trans ?_
      rw [(settings_sqpoll default_in_range).mpr rfl, settings_sqpoll h]

/-- What an answer leads to says nothing of the arguments. -/
theorem ring_of_error {answer : Except Int32 Parameters} {builder : Builder} {autosubmit : Bool}
    {e : PyErr} (h : ring_of host answer builder autosubmit = .error e) :
    e.blames_arguments = false := by
  cases answer with
  | error errno =>
    cases h
    exact rfl
  | ok params =>
    by_cases hnodrop : params.is_feature_nodrop = true
    · rw [ring_of_nodrop hnodrop] at h
      cases hprobe : host.register_probe with
      | error errno =>
        rw [hprobe] at h
        cases h
        exact rfl
      | ok probe =>
        rw [hprobe] at h
        cases h
    · rw [ring_of_dropping (Bool.eq_false_iff.mpr hnodrop)] at h
      cases h
      exact rfl

theorem make_io_ring_error_in_range (h : args.in_range) {e : PyErr}
    (he : args.make_io_ring host = .error e) : e.blames_arguments = false := by
  obtain ⟨hring, hentries⟩ := make_io_ring_in_range host h
  rw [hring] at he
  by_cases hold : host.too_old
  · rw [create_io_ring_too_old hold hentries] at he
    cases he
    exact rfl
  · rw [create_io_ring_of hold hentries] at he
    exact ring_of_error he

/-- The sidecar never complains about its arguments. -/
theorem same_behaviour_out_of_range (h : ¬args.in_range) :
    ¬same_behaviour (SidecarArgs.default.make_io_ring host) (args.make_io_ring host) := by
  intro hsame
  obtain ⟨e, he, hblames⟩ := make_io_ring_out_of_range host h
  rw [he] at hsame
  cases hmade : SidecarArgs.default.make_io_ring host with
  | ok w =>
    rw [hmade] at hsame
    exact hsame
  | error e' =>
    rw [hmade] at hsame
    obtain rfl : e' = e := hsame
    cases (make_io_ring_error_in_range default_in_range hmade).symm.trans hblames

end made

/-- **The sidecar's ring and that of `make_io_ring`** behave alike exactly if the
    arguments are in range and the host, unless it is too old for any ring,
    answers to them as to the defaults. -/
theorem sidecar_ring_alike_iff {host : Host} (hhost : host.RoundsUp) (hclose : host.SupportsClose)
    (args : SidecarArgs) :
    same_behaviour (sidecar_ring host args)
        (make_io_ring host args.entries args.cq_size args.sqpoll_idle_ms args.single_issuer
          args.autosubmit) ↔
      args.in_range ∧ (host.too_old ∨ host.answers_alike args) := by
  show same_behaviour (SidecarArgs.default.make_io_ring host) (args.make_io_ring host) ↔ _
  by_cases hrange : args.in_range
  · obtain ⟨hsidecar, hnonzero⟩ := make_io_ring_in_range host default_in_range
    obtain ⟨hring, hentries⟩ := make_io_ring_in_range host hrange
    rw [hsidecar, hring]
    by_cases hold : host.too_old
    · rw [create_io_ring_too_old hold hnonzero, create_io_ring_too_old hold hentries]
      exact iff_of_true rfl ⟨hrange, .inl hold⟩
    · rw [create_io_ring_of hold hnonzero, create_io_ring_of hold hentries]
      refine (same_behaviour_iff_answers_alike hhost hclose hrange hentries).trans ?_
      exact ⟨fun halike => ⟨hrange, .inr halike⟩, fun h => h.2.resolve_left hold⟩
  · exact iff_of_false (same_behaviour_out_of_range hrange) fun h => hrange h.1

/-! ### On Linux -/

theorem linux_supportsClose : linux.SupportsClose := by
  intro probe h
  cases h
  exact rfl

theorem round_up_eq_iff (n k : Nat) : round_up n = 2 ^ (k + 1) ↔ 2 ^ k < n ∧ n ≤ 2 ^ (k + 1) := by
  have hpos := Nat.two_pow_pos k
  unfold round_up
  split
  · have hlt := Nat.one_lt_two_pow (n := k + 1) (by omega)
    exact iff_of_false (by omega) (by omega)
  · rw [Nat.pow_right_inj (Nat.le_refl 2), Nat.add_right_cancel_iff, Nat.log2_eq_iff (by omega)]
    omega

theorem uint32_ofInt_toNat {x : Int} (h : 0 ≤ x) (h' : x < 2 ^ 32) :
    (UInt32.ofInt x).toNat = x.toNat := by
  have hlt : x.toNat < 2 ^ 32 := by omega
  rw [UInt32.ofInt, UInt32.toNat_ofNat', Int.emod_eq_of_lt h h', Nat.mod_eq_of_lt hlt]

/-- The completion queue is made as large as asked for, or twice as large as the
    submission queue. -/
theorem linux_cq_entries {entries cq_entries : UInt32} (h : round_up entries.toNat = 256) :
    (((if cq_entries > entries then some cq_entries else none).map
        fun n => round_up n.toNat).getD (2 * round_up entries.toNat)) = 512 ↔
      cq_entries.toNat ≤ entries.toNat ∨ 256 < cq_entries.toNat ∧ cq_entries.toNat ≤ 512 := by
  have hentries : 128 < entries.toNat ∧ entries.toNat ≤ 256 := (round_up_eq_iff _ 7).mp h
  have hcq_entries : round_up cq_entries.toNat = 512 ↔
      256 < cq_entries.toNat ∧ cq_entries.toNat ≤ 512 := round_up_eq_iff _ 8
  split
  · next hlarger =>
    have hlt : entries.toNat < cq_entries.toNat := hlarger
    show round_up cq_entries.toNat = 512 ↔ _
    rw [hcq_entries]
    omega
  · next hsmaller =>
    have hle : ¬entries.toNat < cq_entries.toNat := hsmaller
    exact iff_of_true (by simp [h]) (.inl (by omega))

/-- Linux 6.1 answers as to the defaults exactly to settings that are rounded up to
    them, if there is to be no polling and full queues are to be submitted. -/
theorem linux_answers_alike_iff {args : SidecarArgs} (h : args.in_range) :
    linux.answers_alike args ↔
      (128 < args.entries ∧ args.entries ≤ 256) ∧
        (positive_or_zero args.cq_size ≤ args.entries ∨
          256 < positive_or_zero args.cq_size ∧ positive_or_zero args.cq_size ≤ 512) ∧
        args.autosubmit = true ∧ positive_or_zero args.sqpoll_idle_ms = 0 := by
  have hcq_size := positive_or_zero_nonneg args.cq_size
  have hentries' := uint32_ofInt_toNat h.1.le h.2.1
  have hcq_size' := uint32_ofInt_toNat hcq_size h.2.2.1
  have hdefault : SidecarArgs.default.setup linux = .ok ⟨256, 512, true⟩ := rfl
  have hprobe : ∃ probe, linux.register_probe = .ok probe := ⟨_, rfl⟩
  have hrounded : round_up (UInt32.ofInt args.entries).toNat = 256 ↔
      128 < (UInt32.ofInt args.entries).toNat ∧ (UInt32.ofInt args.entries).toNat ≤ 256 :=
    round_up_eq_iff _ 7
  rw [Host.answers_alike, hdefault]
  by_cases hfits : (UInt32.ofInt args.entries).toNat ≤ 32768 ∧
      ((args.settings linux).setup_cqsize.getD 0).toNat ≤ 65536
  · have hsetup : args.setup linux = .ok
        { sq_entries := round_up (UInt32.ofInt args.entries).toNat
          cq_entries := ((args.settings linux).setup_cqsize.map fun n => round_up n.toNat).getD
            (2 * round_up (UInt32.ofInt args.entries).toNat)
          is_feature_nodrop := true } := if_pos hfits
    rw [hsetup]
    constructor
    · intro halike
      obtain ⟨hsq, hcq, hsettings⟩ := halike.2 rfl hprobe
      have hentries := hrounded.mp hsq
      have hsize := (linux_cq_entries hsq).mp hcq
      rw [hentries'] at hentries
      rw [hentries', hcq_size'] at hsize
      exact ⟨by omega, by omega, hsettings⟩
    · intro hexplicit
      obtain ⟨hentries, hsize, hsettings⟩ := hexplicit
      have hsq := hrounded.mpr (by rw [hentries']; omega)
      refine ⟨rfl, fun _ _ => ⟨hsq, (linux_cq_entries hsq).mpr ?_, hsettings⟩⟩
      rw [hentries', hcq_size']
      omega
  · have hsetup : args.setup linux = .error 22 := if_neg hfits
    rw [hsetup]
    refine iff_of_false (fun h => by cases h.2) fun hexplicit => hfits ?_
    obtain ⟨hentries, hsize, -⟩ := hexplicit
    refine ⟨by omega, ?_⟩
    simp only [SidecarArgs.settings, ring_builder]
    split
    · show (UInt32.ofInt (positive_or_zero args.cq_size)).toNat ≤ 65536
      omega
    · exact Nat.zero_le _

/-- On Linux 6.1, 200 entries are rounded up to those of the sidecar. -/
theorem sidecar_ring_alike_iff_200 :
    same_behaviour (sidecar_ring linux { SidecarArgs.default with entries := 200 })
      (make_io_ring linux 200 none none true true) := by
  apply (sidecar_ring_alike_iff linux_roundsUp linux_supportsClose
    { SidecarArgs.default with entries := 200 }).mpr
  refine ⟨⟨by decide, by decide, by decide, by decide⟩, .inr ?_⟩
  exact ⟨rfl, fun _ _ => ⟨rfl, rfl, rfl, rfl⟩⟩

/-- The sidecar makes a ring for zero entries. For one entry it makes one that takes
    two, where `make_io_ring` makes one that submits the first for the second. -/
theorem sidecar_ring_differs :
    ¬same_behaviour (sidecar_ring linux { SidecarArgs.default with entries := 0 })
        (make_io_ring linux 0 none none true true) ∧
      ¬same_behaviour (sidecar_ring linux { SidecarArgs.default with entries := 1 })
        (make_io_ring linux 1 none none true true) := by
  constructor
  · exact id
  · intro hsame
    have hsubmits := congrArg (fun o => o.2.length)
      (LTS.Alike.after (hsame fun _ => ⟨3, false, []⟩) [.prep (.close (.int 3) none) (.ok 1)]
        (.prep (.close (.int 3) none) (.ok 1)))
    revert hsubmits
    decide

end CenturyRing
