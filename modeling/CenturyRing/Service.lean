import CenturyRing.Jobs
import Mathlib.Data.List.Lattice

/-! # The ring is an asynchronous service

  - `ring_refines_service`: every run of a ring is a run of the service of its
    jobs, with the same requests and the same events.
  - `events_answer_requests`: each event answers a call of its own.
  - `sent_as_given`: what the kernel is given is what the call was given.
-/

open LTS Service

namespace CenturyRing

/-! ### Requests -/

/-- The job a call in state `s` asks for. -/
def Prep.job (p : Prep) (s : PyState) : Job := (p.sqe s).job (p.owned s)

/-- The jobs a step asks for: that of a `prep_*` call that returned, or a
    timeout. -/
def RingLabel.requests (l : RingLabel) (s : PyState) : List Job :=
  match l with
  | prep p _ => ((l.returned s).map fun _ => p.job s).toList
  | _ => ((l.timer s).map (·.job none)).toList

/-- The jobs asked for in a run, in order. -/
def requests (tr : RingTrace) : List Job := tr.flatMap fun t => t.label.requests t.src

@[simp] theorem requests_snoc (tr : RingTrace) (t : Step PyState RingLabel) :
    requests (tr ++ [t]) = requests tr ++ t.label.requests t.src := by
  simp [requests]

/-! ### What the kernel does meanwhile -/

/-- The steps that the kernel takes on its own in a step of the run, each with
    the ring as it finds it. -/
def RingLabel.kernel_history (l : RingLabel) (s : PyState) : List (World × KernelEvent) :=
  match l with
  | get_completion_entries bursts => World.drain_history bursts s.world
  | kernel ev => [(s.world, ev)]
  | _ => []

/-- The jobs that the kernel writes for in a step, each as it is then, and the
    bytes. -/
def RingLabel.writes (l : RingLabel) (s : PyState) : List (Job × List UInt8) :=
  World.all_writes (l.kernel_history s)

/-- The jobs that end in a step without an event: those the kernel ends without
    a completion that could be reaped, and those that `close` throws away, which
    are queued or have their result. -/
def RingLabel.losses (l : RingLabel) (s : PyState) : List Job :=
  match l with
  | close => s.world.jobs.queued ++ s.world.jobs.answered.map (·.1)
  | _ => World.all_losses (l.kernel_history s)

/-- What the kernel wrote in a run, in order: for each write the user data of
    the job it was for, and the bytes. -/
def writes (tr : RingTrace) : List (UInt64 × List UInt8) :=
  tr.flatMap fun t => (t.label.writes t.src).map fun write => (write.1.user_data, write.2)

/-- The jobs that ended in a run without an event. -/
def gone (tr : RingTrace) : List Job := tr.flatMap fun t => t.label.losses t.src

/-- What a ring does in a step. -/
def RingLabel.dealings (l : RingLabel) (s : PyState) : Dealings where
  requests := l.requests s
  events := l.events s
  writes := l.writes s
  gone := l.losses s

/-- What a ring does in a run. -/
def dealings (tr : RingTrace) : Dealings where
  requests := requests tr
  events := events tr
  writes := tr.flatMap fun t => t.label.writes t.src
  gone := gone tr

theorem dealings_snoc (tr : RingTrace) (t : Step PyState RingLabel) :
    dealings (tr ++ [t]) = dealings tr ++ t.label.dealings t.src := by
  show Dealings.mk _ _ _ _ = Dealings.mk _ _ _ _
  simp only [dealings, RingLabel.dealings, requests_snoc, events_snoc, gone, List.flatMap_append,
    List.flatMap_singleton]

/-! ### One step -/

section step

variable {tr : RingTrace} {t : Step PyState RingLabel} {w : World}

/-- In a run, what is under way is told apart and has its memory. -/
theorem Ledger.sound (h : Ledger tr w) (hbound : allocations tr < 2 ^ 63) : w.Sound [] := by
  obtain ⟨lost, hperm⟩ := h.conserved
  have hapart := (hperm.pairwise_iff ToldApart.symm).mp h.apart
  rw [List.append_assoc, List.pairwise_append] at hapart
  constructor
  · simpa using hapart.1
  · intro entry hentry
    have hlive : entry ∈ w.live := by simpa using hentry
    have hpushed := h.pushed_of_live hlive
    cases htimer : entry.op.is_timeout with
    | true =>
      rw [Entry.backed_by, Operation.pointer_of_is_timeout htimer, h.timers entry hpushed htimer]
      exact h.timeout_free hbound
    | false =>
      refine h.backed entry hpushed fun cqe hcqe heq => ?_
      -- A call that is under way and reaped would not be told apart from itself.
      have hreaped : entry ∈ (reaped tr).map (·.origin) ++ lost :=
        List.mem_append_left _ (heq ▸ List.mem_map_of_mem hcqe)
      have hself := ((hapart.2.2 entry hlive entry hreaped).1 rfl).1
      rw [htimer] at hself
      cases hself

/-- A call uses a key of its own. -/
theorem Ledger.free_key (h : Ledger tr w) (hbound : allocations tr < 2 ^ 63) :
    w.ring.owned_data w.ring.user_data_counter = none ∧
      ∀ old ∈ w.live, old.user_data ≠ w.ring.user_data_counter := by
  have hcounter := h.counter
  constructor
  · by_contra howned
    exact Nat.lt_irrefl _ (h.keys _ howned)
  · intro old hold heq
    have hpushed := h.pushed_of_live hold
    cases htimer : old.op.is_timeout with
    | true =>
      have htimeout : TIMEOUT_USER_DATA.toNat = 18446744073709551360 := rfl
      rw [h.timers old hpushed htimer] at heq
      rw [← heq] at hcounter
      omega
    | false =>
      have hlt := h.calls old hpushed htimer
      rw [heq] at hlt
      exact Nat.lt_irrefl _ hlt

/-- A call asks for its job if it returns, and for nothing if it raises. -/
theorem Ledger.serves_prep {s : PyState} (h : Ledger tr s.world) (hbound : allocations tr < 2 ^ 63)
    (p : Prep) (answer : Enter) :
    s.world.Serves ⟨(RingLabel.prep p answer).requests s, [], [], []⟩
      (p.run answer s).2.world := by
  have hprepped := p.run_prepped answer s
  simp only [RingLabel.requests, RingLabel.returned]
  generalize p.run answer s = out at hprepped ⊢
  obtain ⟨r, s'⟩ := out
  cases hprepped with
  | refused e counter hcounter hrefused =>
    obtain ⟨blocks, -, hqueue⟩ := hrefused.resubmitted
    exact .resubmitted (w := s.world.advance counter blocks) hqueue
  | queued hhandle hqueued =>
    cases hqueued with
    | intro blocks w₁ hblocks hfresh hprepared hqueue hroom =>
      have hserves := World.Serves.resubmitted
        (w := s.world.advance (s.world.ring.user_data_counter + 1) blocks) hqueue
      obtain ⟨hfree, hkeys⟩ := h.free_key hbound
      refine hserves.trans (World.Serves.push hroom ?_ ?_)
      · rw [hqueue.quiet.owned_data]
        exact hfree
      · intro old hold heq
        exact absurd heq (hkeys old (hqueue.quiet.live.mem_iff.mpr hold))

/-- A timed wait asks for its timeout once the timeout entry is pushed. -/
theorem Ledger.serves_wait_with_timeout (h : Ledger tr w) (hbound : allocations tr < 2 ^ 63)
    (sec : UInt64) (nsec : UInt32) (first last : Enter) :
    w.Serves
      { requests := ((match first with
          | .ok k =>
            if (w.purged k).has_room then some (timeout_entry w.blocks ⟨sec, nsec⟩) else none
          | .error _ => none).map fun entry : Entry => entry.job none).toList
        events := []
        writes := []
        gone := [] } (wait_with_timeout sec nsec first last w).2 := by
  have hpurged : ∀ k, w.Serves .nothing (w.purged k) := fun k => .consume w k
  have hpushed : ∀ k, (w.purged k).has_room →
      w.Serves ⟨[(timeout_entry w.blocks ⟨sec, nsec⟩).job none], [], [], []⟩
        ((w.purged k).push (timeout_entry w.blocks ⟨sec, nsec⟩)) := by
    intro k hroom
    have hfree : (w.purged k).ring.owned_data TIMEOUT_USER_DATA = none := by
      rw [(Quiet.purged w k).owned_data]
      exact h.timeout_free hbound
    have hpush : (w.purged k).Serves
        ⟨[(timeout_entry w.blocks ⟨sec, nsec⟩).job none], [], [], []⟩
        ((w.purged k).push (timeout_entry w.blocks ⟨sec, nsec⟩)) :=
      .push hroom hfree fun _ _ _ => rfl
    exact (hpurged k).trans hpush
  refine Fallible.wp_state (Fallible.wp_mono (wait_with_timeout_cases sec nsec first last w) ?_ ?_)
  · intro n w' hcase
    rcases hcase with _ | _
    next hopen k hfirst hroom k' hlast =>
      subst hfirst
      simp only [if_pos hroom]
      exact (hpushed k hroom).trans (.consume _ k')
  · intro e w' hcase
    cases hcase with
    | closed hclosed =>
      cases first with
      | error errno => exact .refl w
      | ok k =>
        -- A closed ring has no room, so no entry counts as pushed.
        have hfull : ¬(w.purged k).has_room := fun hroom => by
          have hopen := World.is_open_of_has_room hroom
          rw [(Quiet.purged w k).is_open, hclosed] at hopen
          cases hopen
        simp only [if_neg hfull]
        exact .refl w
    | failed hopen errno hfirst =>
      subst hfirst
      exact .refl w
    | still_full hopen k hfirst hfull =>
      subst hfirst
      simp only [if_neg hfull]
      exact hpurged k
    | interrupted hopen k hfirst hroom errno hlast =>
      subst hfirst
      simp only [if_pos hroom]
      exact hpushed k hroom

theorem Ledger.serves_timed_wait {s : PyState} (h : Ledger tr s.world)
    (hbound : allocations tr < 2 ^ 63) (seconds nsec : Int) (first last : Enter) :
    s.world.Serves
      ⟨(RingLabel.submit_and_wait_with_timeout seconds nsec first last).requests s, [], [], []⟩
      (submit_and_wait_with_timeout seconds nsec first last s).2.world := by
  simp only [RingLabel.requests, RingLabel.timer]
  rw [submit_and_wait_with_timeout]
  cases extract_u64 seconds with
  | error e => exact .refl _
  | ok sec =>
    cases extract_u32 nsec with
    | error e => exact .refl _
    | ok nsec =>
      have hwait := h.serves_wait_with_timeout hbound sec nsec first last
      cases first with
      | error errno => exact hwait
      | ok k => exact hwait

/-- **Step lemma**: in every step the ring takes the jobs it is asked for and
    hands out the events the caller gets; no job ends otherwise, or is written
    to, but by the kernel's steps and by `close`. -/
theorem Ledger.serves (h : Ledger tr t.src.world) (hstep : ring_system.step t.src t.label t.dst)
    (hbound : allocations tr < 2 ^ 63) :
    t.src.world.Serves (t.label.dealings t.src) t.dst.world := by
  rw [show t.dst = t.label.run t.src from hstep]
  have hsound := h.sound hbound
  cases hl : t.label with
  | prep p answer => exact h.serves_prep hbound p answer
  | submit answer =>
    show World.Serves _ .nothing (CenturyRing.submit answer t.src.world).2
    rw [submit_state]
    exact .enter _ answer
  | submit_and_wait count answer =>
    show World.Serves _ .nothing (CenturyRing.submit_and_wait count answer t.src).2.world
    rw [submit_and_wait]
    cases extract_usize count with
    | error e => exact .refl _
    | ok want =>
      show World.Serves _ .nothing (wait want answer t.src.world).2
      rw [wait_state]
      exact .enter _ answer
  | submit_and_wait_with_timeout seconds nsec first last =>
    exact h.serves_timed_wait hbound seconds nsec first last
  | get_completion_entries bursts =>
    show World.Serves _ ⟨[], (RingLabel.get_completion_entries bursts).events t.src,
      World.all_writes (World.drain_history bursts t.src.world),
      World.all_losses (World.drain_history bursts t.src.world)⟩
      (CenturyRing.get_completion_entries bursts t.src.world).2
    rw [RingLabel.events_eq]
    cases hopen : t.src.world.is_open with
    | true =>
      rw [get_completion_entries_open hopen]
      exact hsound.serves_reap bursts
    | false =>
      rw [get_completion_entries_closed hopen, World.drain_history_closed hopen]
      exact .refl _
  | close => exact .shut _
  | close_handle answer handle =>
    show World.Serves _ .nothing (FdHandle.close answer handle t.src).2.world
    rw [effect_close_handle]
    exact .refl _
  | exit_handle answer handle =>
    show World.Serves _ .nothing (FdHandle.exit answer handle t.src).2.world
    rw [effect_exit_handle]
    exact .refl _
  | kernel ev =>
    have hkernel := World.Serves.of_silent (hsound.kernel_silent ev)
    show World.Serves _ ⟨[], [], World.all_writes [(t.src.world, ev)],
      World.all_losses [(t.src.world, ev)]⟩ (t.src.world.kernel_step ev)
    simpa only [World.all_writes, World.all_losses, List.flatMap_singleton] using hkernel

end step

/-! ### Whole runs -/

/-- **Run lemma**: every run of a ring is a run of the service of its jobs that
    does what the ring does. -/
theorem run_of_service {s₀ s : PyState} {tr : RingTrace} (hinit : s₀.initial)
    (h : Path ring_system s₀ tr s) (hbound : allocations tr < 2 ^ 63) :
    ∃ atr, Path ring_service .idle atr s.world.jobs ∧ requested atr = requests tr ∧
      (handed_out atr).map (fun out => out.1.event out.2) = events tr ∧
      changed atr = ((dealings tr).writes.map fun write => (write.1, write.1.written write.2)) ∧
      (lost atr).Perm (gone tr) := by
  have hserves : s₀.world.Serves (dealings tr) s.world := by
    have hboth := h.trace_invariant (I := fun tr s => allocations tr < 2 ^ 63 →
      Ledger tr s.world ∧ s₀.world.Serves (dealings tr) s.world) ?_
      (fun _ => ⟨hinit.blank.ledger, .refl _⟩)
    · exact (hboth hbound).2
    · intro tr s l s' ih hstep hbound
      have hbound' := Nat.lt_of_le_of_lt (allocations_le_snoc _ _) hbound
      obtain ⟨hledger, hserves⟩ := ih hbound'
      refine ⟨hledger.snoc (t := ⟨s, l, s'⟩) hstep hbound, ?_⟩
      rw [dealings_snoc]
      exact hserves.trans (hledger.serves (t := ⟨s, l, s'⟩) hstep hbound')
  have hblank := hinit.blank
  have hidle : s₀.world.jobs = .idle := by
    simp [Jobs.idle, World.jobs, World.jobs_with, hblank.pending, hblank.running, hblank.unreaped]
  rw [World.Serves, hidle] at hserves
  exact hserves

/-- **Refinement**: a ring is an asynchronous service. Whatever is called, in
    whatever order, and whatever the kernel does meanwhile, the calls that
    returned and the events handed out are those of a service that holds each
    call with its bytes as a value of its own. -/
theorem ring_refines_service {s₀ s : PyState} {tr : RingTrace} (hinit : s₀.initial)
    (h : Path ring_system s₀ tr s) (hbound : allocations tr < 2 ^ 63) :
    ∃ atr, Run ring_service atr s.world.jobs ∧ requested atr = requests tr ∧
      (handed_out atr).map (fun out => out.1.event out.2) = events tr := by
  obtain ⟨atr, hpath, hrequested, hhanded, -⟩ := run_of_service hinit h hbound
  exact ⟨atr, ⟨.idle, rfl, hpath⟩, hrequested, hhanded⟩

/-- A call on its own: a write of three bytes, submitted, completed and
    reaped. -/
theorem ring_refines_service_write :
    let ls : List RingLabel := [.prep (.write (.int 3) [1, 2, 3] 0 none none none) (.ok 0),
      .submit (.ok 1), .kernel (.complete 0 3), .get_completion_entries []]
    ∃ atr, Run ring_service atr (run_all ls (.fresh 2 0)).world.jobs ∧
      requested atr = [⟨.Write 3 3 0, .empty, 0, some (.Buffer [1, 2, 3])⟩] ∧
      (handed_out atr).map (fun out => out.1.event out.2) = [⟨0, 3, some [1, 2, 3]⟩] := by
  intro ls
  have h := ring_refines_service fresh_initial (path_all ls _) (by decide)
  exact h

/-! ### What the calls get -/

/-- `call` with what the kernel wrote for it in `tr`. -/
def Job.filled_in (tr : RingTrace) (call : Job) : Job :=
  followed (·.user_data) Job.written (writes tr) call

/-- `event` has the user data of `call`, and hands back what `call` came with as
    the kernel's writes for it in `tr` have made it. -/
def Job.AnsweredBy (tr : RingTrace) (call : Job) (event : CompletionEvent) : Prop :=
  event = (call.filled_in tr).event event.result

/-- Writes go by the user data, and only jobs that receive are written to. -/
theorem Job.filled_keyed :
    KeyedChanges Job.user_data Job.written Job.Filled (fun job => job.demand.receives = true) where
  key_apply := fun _ _ => rfl
  opens := fun _ _ hreceives => hreceives
  changes := fun _ _ hfilled => hfilled.1

theorem Operation.not_receives_of_is_timeout {op : Operation} (h : op.is_timeout = true) :
    op.demand.receives = false := by
  cases op with
  | Timeout frame timespec => rfl
  | _ => cases h

theorem RingLabel.requests_pushes (l : RingLabel) (s : PyState) :
    (l.requests s).map (fun job => (job.user_data, job.demand)) =
      (l.pushes s).map (fun entry => (entry.user_data, entry.op.demand)) := by
  cases l with
  | prep p answer =>
    simp only [requests, pushes]
    cases (prep p answer).returned s <;> rfl
  | submit_and_wait_with_timeout seconds nsec first last =>
    simp only [requests, pushes]
    cases (submit_and_wait_with_timeout seconds nsec first last).timer s <;> rfl
  | _ => rfl

/-- No two jobs that receive share their user data. -/
theorem Ledger.requests_apart {tr : RingTrace} {w : World} (h : Ledger tr w) :
    (requests tr).Pairwise (Apart Job.user_data fun job => job.demand.receives = true) := by
  have hmap : (requests tr).map (fun job => (job.user_data, job.demand)) =
      (pushed tr).map (fun entry => (entry.user_data, entry.op.demand)) := by
    simp only [requests, pushed, List.map_flatMap, RingLabel.requests_pushes]
  have hpushed : (pushed tr).Pairwise fun entry entry' => entry.user_data = entry'.user_data →
      entry.op.demand.receives ≠ true ∧ entry'.op.demand.receives ≠ true := by
    refine h.apart.imp fun {entry entry'} hapart heq => ?_
    obtain ⟨htimer, htimer'⟩ := hapart.1 heq
    rw [Operation.not_receives_of_is_timeout htimer, Operation.not_receives_of_is_timeout htimer']
    exact ⟨Bool.false_ne_true, Bool.false_ne_true⟩
  have hpairs : ((requests tr).map fun job => (job.user_data, job.demand)).Pairwise
      fun pair pair' => pair.1 = pair'.1 → pair.2.receives ≠ true ∧ pair'.2.receives ≠ true := by
    rw [hmap, List.pairwise_map]
    exact hpushed
  rw [List.pairwise_map] at hpairs
  exact hpairs

/-- Only what is to receive is ever changed. -/
theorem Job.eq_of_filled {job job' : Job} (h : Relation.ReflTransGen Job.Filled job job')
    (hreceives : job'.demand.receives = false) : job' = job := by
  induction h with
  | refl => rfl
  | @tail mid job' _ hfilled ih =>
    obtain ⟨hmid, bytes, rfl⟩ := hfilled
    exact absurd hmid (by simpa using hreceives)

/-- **Every event answers a call of its own**: the events handed out in a run,
    in order, are those of as many different calls of that run. The other calls
    are under way, or were ended by the kernel without a completion, or were
    thrown away by `close`. All of them come with what the kernel wrote for
    them, and otherwise as they were given. -/
theorem events_answer_requests {s₀ s : PyState} {tr : RingTrace} (hinit : s₀.initial)
    (h : Path ring_system s₀ tr s) (hbound : allocations tr < 2 ^ 63) :
    ∃ answered others, (requests tr).Perm (answered ++ others) ∧
      List.Forall₂ (Job.AnsweredBy tr) answered (events tr) ∧
      (others.map (Job.filled_in tr)).Perm (s.world.jobs.all ++ gone tr) := by
  obtain ⟨atr, hpath, hrequested, hhanded, hchanged, hlost⟩ := run_of_service hinit h hbound
  have hapart := (ledger_of_run hinit h hbound).requests_apart
  rw [← hrequested] at hapart
  obtain ⟨hfollowed, -⟩ := conserved_by_key Job.filled_keyed hpath hchanged hapart
  have hlog : (dealings tr).writes.map (fun write => (write.1.user_data, write.2)) = writes tr := by
    simp only [dealings, writes, List.map_flatMap]
  rw [hlog, hrequested] at hfollowed
  -- The jobs handed out go first.
  have hperm : (s.world.jobs.all ++ past atr).Perm
      ((handed_out atr).map (·.1) ++ (s.world.jobs.all ++ lost atr)) := by
    rw [past, ← List.append_assoc, ← List.append_assoc]
    exact List.perm_append_comm.append_right _
  obtain ⟨answered, others, hsplit, hanswered, hothers⟩ :=
    perm_split_of_map (hfollowed.trans hperm)
  refine ⟨answered, others, hsplit, ?_, ?_⟩
  · rw [← hhanded, List.forall₂_map_right_iff]
    have hfilled : List.Forall₂ (fun call (out : Job × Int32) => call.filled_in tr = out.1) answered
        (handed_out atr) := by
      rw [← List.forall₂_map_right_iff (f := Prod.fst), ← hanswered, List.forall₂_map_right_iff]
      exact List.forall₂_same.mpr fun _ _ => rfl
    refine hfilled.imp fun call out heq => ?_
    rw [Job.AnsweredBy, heq]
    rfl
  · show (others.map _).Perm _
    rw [show others.map (Job.filled_in tr) = s.world.jobs.all ++ lost atr from hothers]
    exact hlost.append_left _

/-- A read of four bytes of which the kernel fills two, and a write that is
    queued when the ring is closed. -/
theorem events_answer_requests_read :
    let ls : List RingLabel := [.prep (.read (.int 3) 4 (-1) none) (.ok 0), .submit (.ok 1),
      .kernel (.write 0 [7, 8]), .kernel (.complete 0 2), .get_completion_entries [],
      .prep (.write (.int 3) [1, 2, 3] 0 none none none) (.ok 0), .close]
    let tr := trace_all ls (.fresh 2 0)
    ∃ answered others,
      [⟨.Read 3 4 0xFFFFFFFFFFFFFFFF, .empty, 0, some (.Buffer [0, 0, 0, 0])⟩,
        ⟨.Write 3 3 0, .empty, 1, some (.Buffer [1, 2, 3])⟩].Perm (answered ++ others) ∧
      List.Forall₂ (Job.AnsweredBy tr) answered [⟨0, 2, some [7, 8]⟩] ∧
      (others.map (Job.filled_in tr)).Perm
        ([] ++ [⟨.Write 3 3 0, .empty, 1, some (.Buffer [1, 2, 3])⟩]) := by
  intro ls tr
  exact events_answer_requests fresh_initial (path_all ls _) (by decide)

/-- A user data value was returned in one step only. -/
theorem Ledger.returned_unique {tr : RingTrace} {w : World} (h : Ledger tr w)
    {t t' : Step PyState RingLabel} (ht : t ∈ tr) (ht' : t' ∈ tr) {ud : UInt64}
    (hud : t.label.returned t.src = some ud) (hud' : t'.label.returned t'.src = some ud) :
    t = t' := by
  by_contra hne
  have hnodup := h.returned_nodup
  rw [returned, List.nodup_flatMap] at hnodup
  have : Std.Symm (Function.onFun List.Disjoint
      fun t : Step PyState RingLabel => (t.label.returned t.src).toList) :=
    ⟨fun _ _ h => h.symm⟩
  have hdisjoint := hnodup.2.forall ht ht' hne
  exact hdisjoint (Option.mem_toList.mpr hud) (Option.mem_toList.mpr hud')

/-- The jobs asked for are those of calls that returned and of timed waits. -/
theorem mem_requests {tr : RingTrace} {job : Job} (h : job ∈ requests tr) :
    (∃ t ∈ tr, ∃ p answer, t.label = .prep p answer ∧
      t.label.returned t.src = some job.user_data ∧ job = p.job t.src) ∨
    ∃ timespec, job.demand = .Timeout timespec := by
  obtain ⟨t, ht, hjob⟩ := List.mem_flatMap.mp h
  cases hl : t.label with
  | prep p answer =>
    rw [hl] at hjob
    obtain ⟨ud, hud, rfl⟩ := Option.map_eq_some_iff.mp (Option.mem_toList.mp hjob)
    have hreturned : t.label.returned t.src = some (p.job t.src).user_data := by
      rw [hl, hud, Prep.returned_eq hud]
      rfl
    exact .inl ⟨t, ht, p, answer, hl, hreturned, rfl⟩
  | submit_and_wait_with_timeout seconds nsec first last =>
    rw [hl] at hjob
    obtain ⟨entry, hentry, rfl⟩ := Option.map_eq_some_iff.mp (Option.mem_toList.mp hjob)
    have htimer := RingLabel.timer_is_timeout hentry
    right
    cases hop : entry.op with
    | Timeout frame timespec => exact ⟨timespec, by rw [Entry.job, hop]; rfl⟩
    | _ => simp [hop, Operation.is_timeout, Operation.frame] at htimer
  | _ => simp [hl, RingLabel.requests, RingLabel.timer] at hjob

/-- **Sent as given**: as long as a call is under way, what is owned for it
    holds what the call was given, byte for byte, unless it is there to be
    written to. Neither other calls nor the kernel's writes for other calls
    nor closing the ring change any of it. -/
theorem sent_as_given {s₀ s : PyState} {tr : RingTrace} (hinit : s₀.initial)
    (h : Path ring_system s₀ tr s) (hbound : allocations tr < 2 ^ 63)
    {t : Step PyState RingLabel} {p : Prep} {answer : Enter} {ud : UInt64} (ht : t ∈ tr)
    (hcall : t.label = .prep p answer) (hud : t.label.returned t.src = some ud)
    (hlive : p.sqe t.src ∈ s.world.live) (hsends : (p.op t.src).recv_buffer = none) :
    (s.world.ring.owned_data ud).map (·.contents) = (p.owned t.src).map (·.contents) := by
  obtain ⟨atr, hpath, hrequested, -⟩ := run_of_service hinit h hbound
  have hledger := ledger_of_run hinit h hbound
  have hud_eq : ud = (p.sqe t.src).user_data := Prep.returned_eq (hcall ▸ hud)
  -- The job it stands for now is one that was asked for,
  have hmem : s.world.job (p.sqe t.src) ∈ s.world.jobs.all := by
    simp only [World.live, List.mem_append, List.mem_map] at hlive
    simp only [Jobs.all, World.jobs, World.jobs_with, List.nil_append, List.mem_append,
      List.mem_map]
    rcases hlive with (hpending | hrunning) | ⟨cqe, hcqe, horigin⟩
    · exact .inl (.inl ⟨_, hpending, rfl⟩)
    · exact .inl (.inr ⟨_, hrunning, rfl⟩)
    · exact .inr ⟨_, ⟨cqe, hcqe, rfl⟩, by rw [horigin]⟩
  obtain ⟨old, hold, hfilled⟩ := (conserved hpath).of_mem (List.mem_append_left _ hmem)
  have hreceives : (s.world.job (p.sqe t.src)).demand.receives = false := by
    show (p.op t.src).demand.receives = false
    rw [Operation.demand_receives, hsends]
    rfl
  rw [← Job.eq_of_filled hfilled hreceives, hrequested] at hold
  -- and only this call asked under its user data.
  rcases mem_requests hold with ⟨t', ht', p', answer', hcall', hud', hjob⟩ | ⟨timespec, htimeout⟩
  · have hsame : t' = t := hledger.returned_unique ht' ht hud' (hud.trans (congrArg some hud_eq))
    subst hsame
    obtain rfl : p' = p := by
      rw [hcall] at hcall'
      cases hcall'
      rfl
    rw [hud_eq]
    exact congrArg Job.contents hjob
  · have hnot := p.not_timeout t.src
    change (p.op t.src).demand = _ at htimeout
    cases hop : p.op t.src <;> simp [hop, Operation.demand] at htimeout
    simp [hop] at hnot

/-- The bytes of a write, after a read next to it was filled and the ring was
    closed with both in the kernel. -/
theorem sent_as_given_closed :
    let ls : List RingLabel := [.prep (.write (.int 3) [1, 2, 3] 0 none none none) (.ok 0),
      .prep (.read (.int 4) 4 (-1) none) (.ok 0), .submit (.ok 2), .kernel (.write 1 [9, 9]),
      .close]
    ((run_all ls (.fresh 2 0)).world.ring.owned_data 0).map (·.contents) =
      some (.Buffer [1, 2, 3]) := by
  intro ls
  exact sent_as_given fresh_initial (path_all ls _) (by decide) (List.mem_cons_self) rfl rfl
    (by decide) rfl

end CenturyRing
