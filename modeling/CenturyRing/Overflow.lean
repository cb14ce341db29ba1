import CenturyRing.Events

/-! # Completions that do not fit

  A completion that finds the completion queue full goes to a list in the
  kernel. The kernel moves what is in that list only when a call enters it to
  ask for completions, and `get_completion_entries` never does. So it returns
  what fits the queue and nothing more, however often it is called.
-/

open LTS

namespace CenturyRing

namespace World

/-! ### A ring with nothing under way -/

/-- Every operation has been submitted and completed. -/
def settled (w : World) : Prop := w.pending = [] ∧ w.kernel.inflight = []

instance (w : World) : Decidable w.settled := by
  unfold settled
  infer_instance

/-- The kernel moves no completions into the completion queue. -/
def no_flush (_ : World) (ev : KernelEvent) : Prop := ev ≠ .flush

/-- `w'` is as settled as `w`, and nothing was posted in between. -/
structure StaysSettled (w w' : World) : Prop where
  is_open : w'.is_open = true
  settled : w'.settled
  overflow : w'.kernel.overflow = w.kernel.overflow
  posted : w'.kernel.posted = w.kernel.posted

theorem StaysSettled.trans {w w' w'' : World} (h : StaysSettled w w') (h' : StaysSettled w' w'') :
    StaysSettled w w'' :=
  ⟨h'.is_open, h'.settled, h'.overflow.trans h.overflow, h'.posted.trans h.posted⟩

theorem consume_overflow (w : World) (k : Nat) :
    (w.consume k).kernel.overflow = w.kernel.overflow := by
  cases h : w.ring.the_io_uring <;> simp [consume, h]

theorem consume_inflight_nil {w : World} (h : w.settled) (k : Nat) :
    (w.consume k).kernel.inflight = [] := by
  obtain ⟨hpending, hinflight⟩ := h
  unfold consume
  cases hring : w.ring.the_io_uring with
  | none => exact hinflight
  | some uring =>
    have hentries : uring.sq.entries = [] := by simpa [pending, hring] using hpending
    simp [hinflight, hentries, start_batch]

theorem complete_settled {w : World} (h : w.settled) (i : Nat) (result : Int32) :
    w.complete i result = w := by
  unfold complete
  simp [h.2]

/-- **Step lemma**: with nothing under way, a kernel that does not move
    completions changes nothing that could be reaped. -/
theorem staysSettled_kernel_step {w : World} {ev : KernelEvent} (hopen : w.is_open = true)
    (h : w.settled) (hev : w.no_flush ev) : StaysSettled w (w.kernel_step ev) := by
  have hopen' : (w.kernel_step ev).is_open = true := by
    rw [(w.kernel_step_sameProcess ev).is_open, hopen]
  have hfinish : ∀ i, w.kernel.inflight.eraseIdx i = [] := by
    intro i
    rw [h.2, List.eraseIdx_nil]
  cases ev with
  | consume k =>
    refine ⟨hopen', ⟨?_, consume_inflight_nil h k⟩, w.consume_overflow k, w.consume_posted k⟩
    show (w.consume k).pending = []
    rw [consume_pending, h.1, List.drop_nil]
  | complete i result =>
    show StaysSettled w (w.complete i result)
    rw [complete_settled h]
    exact ⟨hopen, h, rfl, rfl⟩
  | complete_silently i => exact ⟨hopen', ⟨h.1, hfinish i⟩, rfl, rfl⟩
  | fail_chain i result =>
    have hrest : (w.cancel_rest i).settled := ⟨h.1, by simp [cancel_rest, h.2]⟩
    show StaysSettled w ((w.cancel_rest i).complete i result)
    rw [complete_settled hrest]
    exact ⟨hopen, hrest, rfl, rfl⟩
  | write i bytes =>
    have hsame : w.write i bytes = w := by
      unfold write
      simp [h.2]
    show StaysSettled w (w.write i bytes)
    rw [hsame]
    exact ⟨hopen, h, rfl, rfl⟩
  | flush => exact absurd rfl hev
  | tick nanos => exact ⟨hopen', h, rfl, rfl⟩

/-- The drain loop ends with the completion queue empty. -/
theorem drain_cq (bursts : List (List KernelEvent)) (w : World) : (drain bursts w).2.cq = [] := by
  induction bursts generalizing w with
  | nil =>
    rw [drain, drain_round_eq]
    by_cases hcq : w.cq = []
    · simp [hcq]
    · simp [hcq]
  | cons burst bursts ih =>
    rw [drain, drain_round_eq]
    by_cases hcq : w.cq = []
    · simp [hcq]
    · simpa [hcq] using ih (w.drained.kernel_steps burst)

/-- A reap of a settled ring leaves it settled, and leaves what is in the
    kernel there. -/
theorem drain_staysSettled {w : World} (hopen : w.is_open = true) (h : w.settled)
    {bursts : List (List KernelEvent)} (hmeets : drain_meets no_flush bursts w) :
    StaysSettled w (drain bursts w).2 := by
  refine drain_invariant (C := no_flush) (I := fun _ w' => StaysSettled w w') ?_ ?_ hmeets []
    ⟨hopen, h, rfl, rfl⟩
  · intro _ w' h'
    refine ⟨?_, ⟨w'.drained_pending.trans h'.settled.1, h'.settled.2⟩, h'.overflow, h'.posted⟩
    rw [w'.drained_sameProcess.is_open, h'.is_open]
  · intro _ w' ev h' hev
    exact h'.trans (staysSettled_kernel_step h'.is_open h'.settled hev)

/-! ### How many completions fit -/

/-- The size of the completion queue. -/
def cq_entries (w : World) : Nat :=
  match w.ring.the_io_uring with
  | some uring => uring.cq_entries
  | none => 0

theorem push_cq_entries (w : World) (entry : Entry) : (w.push entry).cq_entries = w.cq_entries := by
  unfold push
  split
  · cases hring : w.ring.the_io_uring <;> simp [set_sq, cq_entries, hring]
  · exact rfl

theorem consume_cq_entries (w : World) (k : Nat) : (w.consume k).cq_entries = w.cq_entries := by
  cases hring : w.ring.the_io_uring <;> simp [consume, cq_entries, hring]

theorem post_cq_entries (w : World) (cqe : Cqe) : (w.post cqe).cq_entries = w.cq_entries := by
  unfold post
  split
  · exact rfl
  · next hring => split <;> simp [cq_entries, hring]

theorem complete_cq_entries (w : World) (i : Nat) (result : Int32) :
    (w.complete i result).cq_entries = w.cq_entries := by
  unfold complete
  split
  · exact rfl
  · exact (w.finish i).post_cq_entries _

/-- Completions wait in the kernel only while the queue is full. -/
structure FilledInOrder (w : World) : Prop where
  fits : w.cq.length ≤ w.cq_entries
  full : w.kernel.overflow ≠ [] → w.cq.length = w.cq_entries

theorem post_filledInOrder {w : World} (h : w.FilledInOrder) (cqe : Cqe) :
    (w.post cqe).FilledInOrder := by
  cases hring : w.ring.the_io_uring with
  | none => simpa [post, hring] using h
  | some uring =>
    have hfits : uring.cq.length ≤ uring.cq_entries := by
      simpa [cq, cq_entries, hring] using h.fits
    by_cases hroom : w.kernel.overflow = [] ∧ uring.cq.length < uring.cq_entries
    · constructor
      · simp only [post, hring, if_pos hroom, cq, cq_entries, List.length_append,
          List.length_singleton]
        exact hroom.2
      · intro hoverflow
        simp [post, hring, hroom] at hoverflow
    · -- It goes behind what waits, and the queue is full.
      have hfull : uring.cq.length = uring.cq_entries := by
        by_cases hoverflow : w.kernel.overflow = []
        · have hle := not_and.mp hroom hoverflow
          omega
        · simpa [cq, cq_entries, hring] using h.full hoverflow
      constructor
      · simpa [post, hring, hroom, cq, cq_entries] using hfits
      · intro _
        simpa [post, hring, hroom, cq, cq_entries] using hfull

theorem complete_filledInOrder {w : World} (h : w.FilledInOrder) (i : Nat) (result : Int32) :
    (w.complete i result).FilledInOrder := by
  unfold complete
  split
  · exact h
  · exact post_filledInOrder (w := w.finish i) ⟨h.fits, h.full⟩ _

theorem consume_filledInOrder {w : World} (h : w.FilledInOrder) (k : Nat) :
    (w.consume k).FilledInOrder := by
  constructor
  · rw [consume_cq, consume_cq_entries]
    exact h.fits
  · rw [consume_cq, consume_cq_entries, consume_overflow]
    exact h.full

/-- **Step lemma**: without a flush, completions keep to that order. -/
theorem kernel_step_filledInOrder {w : World} (h : w.FilledInOrder) {ev : KernelEvent}
    (hev : w.no_flush ev) : (w.kernel_step ev).FilledInOrder := by
  cases ev with
  | consume k => exact consume_filledInOrder h k
  | complete i result => exact complete_filledInOrder h i result
  | complete_silently i => exact ⟨h.fits, h.full⟩
  | fail_chain i result =>
    exact complete_filledInOrder (w := w.cancel_rest i) ⟨h.fits, h.full⟩ i result
  | write i bytes =>
    show (w.write i bytes).FilledInOrder
    unfold write
    split
    · exact h
    · exact ⟨h.fits, h.full⟩
  | flush => exact absurd rfl hev
  | tick nanos => exact ⟨h.fits, h.full⟩

/-- In such an order nothing waits in the kernel exactly if all that was not
    reaped fits the queue. -/
theorem FilledInOrder.overflow_nil_iff {w : World} (h : w.FilledInOrder) (hopen : w.is_open = true) :
    w.kernel.overflow = [] ↔ w.unreaped.length ≤ w.cq_entries := by
  rw [unreaped_eq, if_pos hopen, List.length_append]
  constructor
  · intro hoverflow
    have hfits := h.fits
    rw [hoverflow, List.length_nil]
    omega
  · intro hle
    by_contra hoverflow
    have hfull := h.full hoverflow
    have hpos := List.length_pos_of_ne_nil hoverflow
    omega

/-- Once everything has been reaped, no completion waits in the kernel exactly as
    long as those unreaped fit the queue. -/
theorem kernel_steps_overflow_nil_iff {w : World} (hopen : w.is_open = true)
    (hempty : w.unreaped = []) {events : List KernelEvent} (hquiet : kernel_meets no_flush w events) :
    (w.kernel_steps events).kernel.overflow = [] ↔
      (w.kernel_steps events).unreaped.length ≤ (w.kernel_steps events).cq_entries := by
  rw [unreaped_eq, if_pos hopen, List.append_eq_nil_iff] at hempty
  have hfilled : w.FilledInOrder := by
    constructor
    · rw [hempty.1]
      exact Nat.zero_le _
    · intro hoverflow
      exact absurd hempty.2 hoverflow
  have hsteps := kernel_steps_invariant (C := no_flush)
    (I := fun w => w.FilledInOrder ∧ w.is_open = true) ?_ hquiet ⟨hfilled, hopen⟩
  · exact hsteps.1.overflow_nil_iff hsteps.2
  · intro w ev hpair hev
    obtain ⟨hfilled, hopen⟩ := hpair
    refine ⟨kernel_step_filledInOrder hfilled hev, ?_⟩
    rw [(w.kernel_step_sameProcess ev).is_open, hopen]

end World

/-! ### Calls of `get_completion_entries` one after the other -/

/-- The step is a reap during which the kernel moves no completions. -/
def RingLabel.reaps_quietly (l : RingLabel) (s : PyState) : Prop :=
  ∃ bursts, l = .get_completion_entries bursts ∧ World.drain_meets World.no_flush bursts s.world

theorem reaps_quietly_run {l : RingLabel} {s : PyState} (hl : l.reaps_quietly s)
    (hopen : s.world.is_open = true) (hsettled : s.world.settled) :
    World.StaysSettled s.world (l.run s).world ∧ (l.run s).world.cq = [] := by
  obtain ⟨bursts, rfl, hmeets⟩ := hl
  show World.StaysSettled s.world (get_completion_entries bursts s.world).2 ∧
    (get_completion_entries bursts s.world).2.cq = []
  rw [get_completion_entries_open hopen]
  have hdrain := World.drain_staysSettled hopen hsettled hmeets
  exact ⟨⟨hdrain.is_open, hdrain.settled, hdrain.overflow, hdrain.posted⟩,
    World.drain_cq bursts s.world⟩

/-- **Run lemma**: calls one after the other empty the completion queue and
    leave what is in the kernel there. -/
theorem reaps_quietly_path {s s' : PyState} {tr : RingTrace} (h : Path ring_system s tr s')
    (hreaps : ∀ t ∈ tr, t.label.reaps_quietly t.src) (hne : tr ≠ [])
    (hopen : s.world.is_open = true) (hsettled : s.world.settled) :
    World.StaysSettled s.world s'.world ∧ s'.world.cq = [] := by
  have hstays : ∀ {m : PyState} {pre : RingTrace}, Path ring_system s pre m →
      (∀ t ∈ pre, t.label.reaps_quietly t.src) → World.StaysSettled s.world m.world := by
    intro m pre hpre hquiet
    refine hpre.invariant_along (I := fun m => World.StaysSettled s.world m.world)
      (C := fun m l => l.reaps_quietly m) ?_ hquiet ⟨hopen, hsettled, rfl, rfl⟩
    intro m l _ hm hl hstep
    obtain rfl := hstep
    exact hm.trans (reaps_quietly_run hl hm.is_open hm.settled).1
  refine ⟨hstays h hreaps, ?_⟩
  -- The last call has left the queue empty.
  rcases List.eq_nil_or_concat tr with hnil | ⟨pre, t, rfl⟩
  · exact absurd hnil hne
  · rw [List.concat_eq_append] at h hreaps
    have hbefore := hstays h.to_src fun u hu => hreaps u (List.mem_append_left _ hu)
    have hstep : t.dst = t.label.run t.src := h.step_of_mem (by simp)
    rw [h.eq_dst, hstep]
    exact (reaps_quietly_run (hreaps t (by simp)) hbefore.is_open hbefore.settled).2

/-- What such calls leave unreaped is what waits in the kernel. -/
theorem reaped_append_overflow {s₀ s s' : PyState} {tr tr' : RingTrace} (hinit : s₀.initial)
    (h : Path ring_system s₀ tr s) (hopen : s.world.is_open = true)
    (hsettled : s.world.settled) (h' : Path ring_system s tr' s')
    (hreaps : ∀ t ∈ tr', t.label.reaps_quietly t.src) (hne : tr' ≠ []) :
    reaped (tr ++ tr') ++ s.world.kernel.overflow = s.world.kernel.posted := by
  obtain ⟨hstays, hcq⟩ := reaps_quietly_path h' hreaps hne hopen hsettled
  have hall := reaped_append_unreaped hinit (h.append h') hstays.is_open
  rwa [World.unreaped_eq, if_pos hstays.is_open, hcq, List.nil_append, hstays.overflow,
    hstays.posted] at hall

/-- **All completions can be reaped** by calls of `get_completion_entries`
    alone, once all operations have completed, exactly if none of them waits in
    the kernel. -/
theorem all_completions_returned_iff {s₀ s s' : PyState} {tr tr' : RingTrace}
    (hinit : s₀.initial) (h : Path ring_system s₀ tr s) (hopen : s.world.is_open = true)
    (hsettled : s.world.settled) (h' : Path ring_system s tr' s')
    (hreaps : ∀ t ∈ tr', t.label.reaps_quietly t.src) (hne : tr' ≠ []) :
    (events (tr ++ tr')).map (fun event => (event.user_data, event.result)) =
        s.world.kernel.posted.map (fun cqe => (cqe.user_data, cqe.result)) ↔
      s.world.kernel.overflow = [] := by
  have hall := reaped_append_overflow hinit h hopen hsettled h' hreaps hne
  rw [events_user_data_result, ← hall, List.map_append]
  constructor
  · intro heq
    have hlength := congrArg List.length heq
    rw [List.length_append] at hlength
    simpa using hlength
  · intro hoverflow
    simp [hoverflow]

/-- On a ring for one entry, whose completion queue holds two, `n` reads are
    submitted one by one and completed. -/
def completed_reads (n : Nat) : List RingLabel :=
  (List.replicate n [.prep (.read (.int 3) 16 (-1) none) (.ok 0), .submit (.ok 1)]).flatten ++
    List.replicate n (.kernel (.complete 0 16))

theorem fresh_one_initial : (PyState.fresh 1 0).initial :=
  ⟨linux, 1, none, none, true, true, linux_roundsUp, rfl⟩

theorem reaps_quietly_nil (s : PyState) : (RingLabel.get_completion_entries []).reaps_quietly s :=
  ⟨[], rfl, trivial⟩

/-- Two are returned. -/
theorem all_completions_returned_iff_two :
    let ls := completed_reads 2
    (events (trace_all ls (.fresh 1 0) ++
        trace_all [.get_completion_entries []] (run_all ls (.fresh 1 0)))).map
        (fun event => (event.user_data, event.result)) =
      (run_all ls (.fresh 1 0)).world.kernel.posted.map
        (fun cqe => (cqe.user_data, cqe.result)) := by
  intro ls
  refine (all_completions_returned_iff fresh_one_initial (path_all ls _) (by decide) (by decide)
    (path_all [.get_completion_entries []] _) ?_ (List.cons_ne_nil _ _)).mpr (by decide)
  intro t ht
  obtain rfl := List.mem_singleton.mp ht
  exact reaps_quietly_nil _

/-- Of three, the third is never returned, however often the call is made. -/
theorem third_completion_never_returned :
    let ls := completed_reads 3
    let s := run_all ls (.fresh 1 0)
    (PyState.fresh 1 0).initial ∧ Path ring_system (.fresh 1 0) (trace_all ls (.fresh 1 0)) s ∧
      s.world.settled ∧ s.world.kernel.posted.map (·.user_data) = [0, 1, 2] ∧
      ∀ tr s', Path ring_system s tr s' → (∀ t ∈ tr, t.label.reaps_quietly t.src) → tr ≠ [] →
        (events (trace_all ls (.fresh 1 0) ++ tr)).map (·.user_data) = [0, 1] := by
  intro ls s
  refine ⟨fresh_one_initial, path_all ls _, by decide, by decide, ?_⟩
  intro tr s' hpath hreaps hne
  have hall := reaped_append_overflow fresh_one_initial (path_all ls _) (by decide) (by decide)
    hpath hreaps hne
  -- The queue holds two, so one is left in the kernel.
  have hoverflow : s.world.kernel.overflow.map (·.user_data) = [2] := by decide
  have hposted : s.world.kernel.posted.map (·.user_data) = [0, 1] ++ [2] := by decide
  have hdata := congrArg (List.map (·.user_data)) hall
  rw [List.map_append, hoverflow, hposted] at hdata
  rw [events_user_data]
  exact (List.append_inj' hdata rfl).1

end CenturyRing
