import CenturyRing.Queue

/-! # Link chains and hidden submits

  A link connects an entry to the next one of the same batch. Here a submit
  that succeeds makes the kernel consume everything that is pending, as one
  batch, and the kernel consumes nothing at other times.

  `chain_in_one_batch_iff` says which chains the hidden submits leave whole.
-/

open LTS Fifo

namespace CenturyRing

/-! ### Batches in a step -/

/-- The queue with the batches taken from it. -/
def World.batched (w : World) : Batched Entry := ⟨w.kernel.batches, w.pending⟩

/-- A submit that finds `pending` entries consumes them all if it succeeds. -/
def Enter.whole (answer : Enter) (pending : Nat) : Prop := ∀ k, answer = .ok k → pending ≤ k

/-- The kernel consumes nothing on its own. -/
def keeps_queue (_ : World) (ev : KernelEvent) : Prop := ∀ k, ev ≠ .consume k

/-- Every submit of a step consumes everything, and nothing else does. -/
def RingLabel.whole (l : RingLabel) (s : PyState) : Prop :=
  match l with
  | prep _ answer | submit answer | submit_and_wait _ answer =>
    answer.whole s.world.pending.length
  -- the second submit finds the timeout entry alone
  | submit_and_wait_with_timeout _ _ first last =>
    first.whole s.world.pending.length ∧ last.whole 1
  | get_completion_entries bursts => World.drain_meets keeps_queue bursts s.world
  | kernel ev => keeps_queue s.world ev
  | close | close_handle .. | exit_handle .. => True

/-- The step is an explicit submit or wait, or closes the ring. -/
def RingLabel.is_explicit : RingLabel → Bool
  | submit _ | submit_and_wait .. | submit_and_wait_with_timeout .. | close => true
  | prep .. | get_completion_entries _ | close_handle .. | exit_handle .. | kernel _ => false

section batches

variable {w : World}

theorem consume_batched (hopen : w.is_open = true) {k : Nat} (hk : w.pending.length ≤ k) :
    (w.consume k).batched = w.batched.flush := by
  rw [World.batched, World.consume_batches hopen, World.consume_pending,
    List.take_of_length_le hk, List.drop_of_length_le hk]
  rfl

theorem push_batched (hroom : w.has_room) (entry : Entry) :
    (w.push entry).batched = w.batched.push entry := by
  rw [World.batched, World.push_kernel, World.push_pending hroom]
  rfl

/-- What neither accepts nor consumes leaves the queue alone. -/
theorem batched_eq {w' : World} (haccepted : w'.accepted = w.accepted)
    (hbatches : w'.kernel.batches = w.kernel.batches) : w'.batched = w.batched := by
  simp only [World.accepted, hbatches] at haccepted
  rw [World.batched, World.batched, hbatches, List.append_cancel_left haccepted]

theorem kernel_step_batched {ev : KernelEvent} (h : keeps_queue w ev) :
    (w.kernel_step ev).batched = w.batched :=
  batched_eq (w.kernel_step_accepted ev) (w.kernel_step_batches_eq h)

theorem drain_batched {bursts : List (List KernelEvent)}
    (h : World.drain_meets keeps_queue bursts w) : (World.drain bursts w).2.batched = w.batched :=
  World.drain_invariant (I := fun _ w' => w'.batched = w.batched)
    (fun _ w' hw' => (batched_eq w'.drained_accepted rfl).trans hw')
    (fun _ _ _ hw' hev => (kernel_step_batched hev).trans hw') h [] rfl

/-- A submit before a push: the queue was full, and it is flushed. -/
theorem Resubmitted.batched {answer : Enter} {w' : World} (h : Resubmitted answer w w')
    (hwhole : answer.whole w.pending.length) :
    w'.batched = w.batched ∨ (¬w.has_room ∧ w'.batched = w.batched.flush) := by
  cases h with
  | unchanged => exact Or.inl rfl
  | consumed hopen hfull hauto k hanswer =>
    exact Or.inr ⟨hfull, consume_batched hopen (hwhole k hanswer)⟩

end batches

section steps

variable {s : PyState}

/-- A preparation appends its entry as `autopush` does, or does nothing. -/
theorem prep_batched (p : Prep) {answer : Enter} (hcapacity : 0 < s.world.capacity)
    (hwhole : answer.whole s.world.pending.length) :
    ((RingLabel.prep p answer).run s).world.batched =
      ((RingLabel.prep p answer).pushes s).foldl (Batched.autopush s.world.capacity)
        s.world.batched := by
  have hprepped := p.run_prepped answer s
  simp only [RingLabel.pushes, RingLabel.returned, RingLabel.run]
  generalize p.run answer s = out at hprepped ⊢
  obtain ⟨r, s'⟩ := out
  cases hprepped with
  | @refused e counter w' hcounter hrefused =>
    show w'.batched = s.world.batched
    cases hrefused with
    | checked blocks hblocks he => rfl
    | unqueued entry blocks hblocks hqueue =>
      cases hqueue with
      | closed hclosed => rfl
      | disabled hopen hfull hauto => rfl
      | failed hopen hfull hauto errno hanswer => rfl
      | still_full hopen hfull hauto k hanswer hfull' =>
        -- a flushed queue has room
        have hpending := World.consume_pending (s.world.advance counter blocks) k
        have hk : s.world.pending.length ≤ k := hwhole k hanswer
        refine absurd ?_ hfull'
        rw [World.has_room, hpending, List.length_drop, World.advance_pending,
          (World.consume_sameProcess _ k).capacity, World.advance_capacity]
        omega
  | queued hhandle hqueued =>
    cases hqueued with
    | intro blocks w₁ hblocks hfresh hprepared hqueue hroom =>
      have hbatched := hqueue.batched hwhole
      show ((w₁.push (p.sqe s)).own _ _).batched = Batched.autopush _ s.world.batched (p.sqe s)
      have hown : ((w₁.push (p.sqe s)).own (p.sqe s).user_data (p.owned s)).batched =
          w₁.batched.push (p.sqe s) := by
        rw [← push_batched hroom]
        simp [World.batched, World.pending]
      rw [hown, Batched.autopush]
      rcases hbatched with hsame | ⟨hfull, hflush⟩
      · have hlt : w₁.batched.pending.length < w₁.capacity := hroom
        rw [hqueue.quiet.capacity, hsame] at hlt
        rw [hsame]
        exact (if_pos hlt).symm
      · rw [hflush]
        exact (if_neg hfull).symm

/-- **Step lemma without explicit submits**: the entries of the step are
    appended as `autopush` does. -/
theorem automatic_batched {l : RingLabel} (hcapacity : 0 < s.world.capacity)
    (hwhole : l.whole s) (hauto : l.is_explicit = false) :
    (l.run s).world.batched =
      (l.pushes s).foldl (Batched.autopush s.world.capacity) s.world.batched := by
  cases l with
  | prep p answer => exact prep_batched p hcapacity hwhole
  | get_completion_entries bursts =>
    show (get_completion_entries bursts s.world).2.batched = s.world.batched
    cases hopen : s.world.is_open with
    | true =>
      rw [get_completion_entries_open hopen]
      exact drain_batched hwhole
    | false => rw [get_completion_entries_closed hopen]
  | close_handle answer handle =>
    show (FdHandle.close answer handle s).2.world.batched = s.world.batched
    rw [effect_close_handle]
  | exit_handle answer handle =>
    show (FdHandle.exit answer handle s).2.world.batched = s.world.batched
    rw [effect_exit_handle]
  | kernel ev => exact kernel_step_batched hwhole
  | submit | submit_and_wait | submit_and_wait_with_timeout | close => cases hauto

theorem enter_moves {answer : Enter} {w : World} (hwhole : answer.whole w.pending.length) :
    Batched.Moves w.batched (w.enter answer).batched := by
  cases answer with
  | error errno => exact .refl
  | ok k =>
    cases hopen : w.is_open with
    | false =>
      show Batched.Moves w.batched (w.consume k).batched
      rw [World.consume_closed hopen]
      exact .refl
    | true =>
      show Batched.Moves w.batched (w.consume k).batched
      rw [consume_batched hopen (hwhole k rfl)]
      exact .flush .refl

theorem wait_with_timeout_moves (sec : UInt64) (nsec : UInt32) {first last : Enter} {w : World}
    (hfirst : first.whole w.pending.length) (hlast : last.whole 1) :
    Batched.Moves w.batched (wait_with_timeout sec nsec first last w).2.batched := by
  have hpurged : ∀ k, w.is_open = true → first = .ok k → (w.purged k).batched = w.batched.flush :=
    fun k hopen hk => consume_batched hopen (hfirst k hk)
  refine Fallible.wp_state (P := fun w' => Batched.Moves w.batched w'.batched)
    (Fallible.wp_mono (wait_with_timeout_cases sec nsec first last w) ?_ ?_)
  · intro n w' hcase
    rcases hcase with _ | _
    next hopen k hk hroom k' hk' =>
      have hpush := push_batched hroom (timeout_entry w.blocks ⟨sec, nsec⟩)
      rw [hpurged k hopen hk] at hpush
      -- the flushed queue holds the timeout entry only
      have hlength : ((w.purged k).push (timeout_entry w.blocks ⟨sec, nsec⟩)).pending.length ≤ k' := by
        have hpending := congrArg (fun q => q.pending.length) hpush
        exact Nat.le_trans (Nat.le_of_eq hpending) (hlast k' hk')
      have hopen' : ((w.purged k).push (timeout_entry w.blocks ⟨sec, nsec⟩)).is_open = true := by
        rw [((w.purged k).push_sameProcess _).is_open]
        exact World.is_open_of_has_room hroom
      rw [consume_batched hopen' hlength, hpush]
      exact .flush (.push (.flush .refl) _)
  · intro e w' h
    cases h with
    | closed hclosed => exact .refl
    | failed hopen errno hk => exact .refl
    | still_full hopen k hk hfull =>
      rw [hpurged k hopen hk]
      exact .flush .refl
    | interrupted hopen k hk hroom errno hlast =>
      rw [push_batched hroom, hpurged k hopen hk]
      exact .push (.flush .refl) _

/-- **Step lemma**: a step appends to the queue and flushes it. -/
theorem whole_moves {l : RingLabel} (hcapacity : 0 < s.world.capacity) (hwhole : l.whole s)
    (hopen : (l.run s).world.is_open = true) :
    Batched.Moves s.world.batched (l.run s).world.batched := by
  cases l with
  | submit answer =>
    show Batched.Moves s.world.batched (submit answer s.world).2.batched
    rw [submit_state]
    exact enter_moves hwhole
  | submit_and_wait count answer =>
    show Batched.Moves s.world.batched (submit_and_wait count answer s).2.world.batched
    rw [submit_and_wait]
    cases extract_usize count with
    | error e => exact .refl
    | ok want =>
      show Batched.Moves s.world.batched (wait want answer s.world).2.batched
      rw [wait_state]
      exact enter_moves hwhole
  | submit_and_wait_with_timeout seconds nsec first last =>
    show Batched.Moves s.world.batched
      (submit_and_wait_with_timeout seconds nsec first last s).2.world.batched
    rw [submit_and_wait_with_timeout]
    cases extract_u64 seconds with
    | error e => exact .refl
    | ok sec =>
      cases extract_u32 nsec with
      | error e => exact .refl
      | ok nsec => exact wait_with_timeout_moves sec nsec hwhole.1 hwhole.2
  | close => cases hopen
  | prep | get_completion_entries | close_handle | exit_handle | kernel =>
    -- Whatever such a step pushes, it pushes entry by entry.
    rw [automatic_batched hcapacity hwhole rfl]
    generalize RingLabel.pushes _ s = es
    induction es using List.reverseRecOn with
    | nil => exact .refl
    | append_singleton es e ih =>
      rw [List.foldl_append]
      exact ih.autopush _ e

end steps

/-! ### Batches in a run -/

/-- What a path without explicit submits pushes, it appends as `autopush`
    does. -/
theorem automatic_path_batched {s s' : PyState} {tr : RingTrace} (h : Path ring_system s tr s')
    (hopen : s'.world.is_open = true) (hcapacity : 0 < s.world.capacity)
    (hwhole : ∀ t ∈ tr, t.label.whole t.src) (hauto : ∀ t ∈ tr, t.label.is_explicit = false) :
    s'.world.batched =
      (pushed tr).foldl (Batched.autopush s.world.capacity) s.world.batched := by
  induction h with
  | nil => rfl
  | @snoc tr m s' l hpath hstep ih =>
    subst hstep
    rw [List.forall_mem_append, List.forall_mem_singleton] at hwhole hauto
    have hopen' := (l.effect m (l.meets_true m)).is_open hopen
    have hsettings := (settings_eq hpath hopen').1
    rw [automatic_batched (by rwa [hsettings]) hwhole.2 hauto.2, ih hopen' hwhole.1 hauto.1,
      hsettings, pushed_snoc, List.foldl_append]

theorem whole_path_moves {s s' : PyState} {tr : RingTrace} (h : Path ring_system s tr s')
    (hopen : s'.world.is_open = true) (hcapacity : 0 < s.world.capacity)
    (hwhole : ∀ t ∈ tr, t.label.whole t.src) :
    Batched.Moves s.world.batched s'.world.batched := by
  induction h with
  | nil => exact .refl
  | @snoc tr m s' l hpath hstep ih =>
    subst hstep
    rw [List.forall_mem_append, List.forall_mem_singleton] at hwhole
    have hopen' := (l.effect m (l.meets_true m)).is_open hopen
    have hsettings := (settings_eq hpath hopen').1
    exact (ih hopen' hwhole.1).trans (whole_moves (by rwa [hsettings]) hwhole.2 hopen)

/-! ### Chains -/

/-- `tr` prepares a link chain from `s` on: without an explicit submit or wait,
    entries that are linked to the next and a last one that is not. The chain
    fits the queue. -/
structure PreparesChain (s : PyState) (tr : RingTrace) (s' : PyState) : Prop where
  path : Path ring_system s tr s'
  whole : ∀ t ∈ tr, t.label.whole t.src
  automatic : ∀ t ∈ tr, t.label.is_explicit = false
  linked : ∀ entry ∈ (pushed tr).dropLast, entry.flags.links = true
  ended : ∀ entry ∈ (pushed tr).getLast?, entry.flags.links = false
  nonempty : pushed tr ≠ []
  fits : (pushed tr).length ≤ s.world.capacity

/-- **Which chains stay whole**: once it is consumed, a chain that was prepared
    from `s` on stands in one batch if and only if the queue was full in `s` or
    the chain fitted behind what was pending. -/
theorem chain_in_one_batch_iff {s₀ s s' s'' : PyState} {tr₀ tr tr' : RingTrace}
    (hinit : s₀.initial) (hrun : Path ring_system s₀ tr₀ s) (hchain : PreparesChain s tr s')
    (hlater : Path ring_system s' tr' s'') (hwhole : ∀ t ∈ tr', t.label.whole t.src)
    (hopen : s''.world.is_open = true)
    (hconsumed : s'.world.accepted.length ≤ s''.world.kernel.batches.flatten.length) :
    (∃ b, ∀ i < (pushed tr).length,
        batchOf s''.world.kernel.batches (s.world.accepted.length + i) = some b) ↔
      s.world.pending.length = s.world.capacity ∨
        s.world.pending.length + (pushed tr).length ≤ s.world.capacity := by
  have hopen' := (is_open_of_last hlater hopen).1
  have hopen₁ := (is_open_of_last hchain.path hopen').1
  have hcapacity : 0 < s.world.capacity := by
    rw [(settings_eq hrun hopen₁).1]
    exact hinit.blank.capacity
  have hcapacity' : 0 < s'.world.capacity := by rwa [(settings_eq hchain.path hopen').1]
  -- The chain is queued entry by entry; later steps only append and flush.
  have hbatched := automatic_path_batched hchain.path hopen' hcapacity hchain.whole
    hchain.automatic
  have hmoves := whole_path_moves hlater hopen hcapacity' hwhole
  have hpos := List.length_pos_iff.mpr hchain.nonempty
  have htotal : ∀ w : World, w.batched.total = w.accepted.length := fun w => by
    simp [World.batched, Batched.total, World.accepted]
  have hgrow : s'.world.accepted.length = s.world.accepted.length + (pushed tr).length := by
    rw [← htotal, ← htotal, hbatched, Batched.foldl_autopush_total]
  -- Its last entry is pending when it is complete.
  have hlast : s'.world.batched.pending ≠ [] := by
    rw [hbatched]
    exact Batched.foldl_autopush_ne_nil _ _ hchain.nonempty
  have htogether := hmoves.together_iff hpos (by rw [htotal]; omega) hlast
    (by rw [htotal]; exact hconsumed)
  rw [htotal, hgrow, Nat.add_sub_cancel] at htogether
  rw [show s''.world.kernel.batches = s''.world.batched.batches from rfl, htogether, hbatched]
  exact Batched.le_foldl_autopush_iff s.world.pending_le_capacity hpos hchain.fits

/-! ### Two chains on a ring of two entries -/

theorem whole_ok {k pending : Nat} (h : pending ≤ k) : (Enter.ok k).whole pending := by
  intro k' hk'
  cases hk'
  exact h

/-- A read of sixteen bytes; a submit that it causes consumes two entries. -/
def read_label (sqe_flags : Option Int) : RingLabel :=
  .prep (.read (.int 3) 16 (-1) sqe_flags) (.ok 2)

/-- A read that is linked to the next (`io_link`), and that next read. -/
def linked_reads : List RingLabel :=
  [read_label (make_sqe_flags false false true false false false false), read_label none]

/-- On an empty ring the two fit. -/
theorem chain_in_one_batch_iff_empty :
    ∃ b, ∀ i < 2, batchOf (run_all [.submit (.ok 2)]
      (run_all linked_reads (.fresh 2 0))).world.kernel.batches (0 + i) = some b := by
  have hchain : PreparesChain (.fresh 2 0) (trace_all linked_reads (.fresh 2 0))
      (run_all linked_reads (.fresh 2 0)) :=
    { path := path_all _ _
      whole := List.forall_mem_cons.mpr ⟨whole_ok (by decide),
        List.forall_mem_singleton.mpr (whole_ok (by decide))⟩
      automatic := by decide
      linked := by decide
      ended := by decide
      nonempty := by decide
      fits := by decide }
  exact (chain_in_one_batch_iff fresh_initial .nil hchain (path_all [.submit (.ok 2)] _)
    (List.forall_mem_singleton.mpr (whole_ok (by decide))) (by decide) (by decide)).mpr
    (Or.inr (by decide))

/-- Behind one other read they do not fit: the hidden submit splits them. -/
theorem chain_split_by_autosubmit :
    let s := run_all [read_label none] (.fresh 2 0)
    let s' := run_all linked_reads s
    let s'' := run_all [.submit (.ok 1)] s'
    PreparesChain s (trace_all linked_reads s) s' ∧ s.world.ring.autosubmit = true ∧
      s''.world.kernel.batches.map (fun batch => batch.map (·.user_data)) = [[0, 1], [2]] ∧
      ¬∃ b, ∀ i < (pushed (trace_all linked_reads s)).length,
        batchOf s''.world.kernel.batches (s.world.accepted.length + i) = some b := by
  refine ⟨⟨path_all _ _, ?_, by decide, by decide, by decide, by decide, by decide⟩, rfl,
    by decide, ?_⟩
  · exact List.forall_mem_cons.mpr ⟨whole_ok (by decide),
      List.forall_mem_singleton.mpr (whole_ok (by decide))⟩
  · intro hpair
    obtain ⟨b, hb⟩ := hpair
    have hfirst := hb 0 (by decide)
    have hsecond := hb 1 (by decide)
    exact absurd (hfirst.trans hsecond.symm) (by decide)

end CenturyRing
