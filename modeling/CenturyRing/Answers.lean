import CenturyRing.Overflow
import CenturyRing.Framework.Liveness

/-! # Every call is answered

  A ring that runs for ever. An entry stands in two lines, one behind the
  other: it waits for the kernel to consume it, and its completion waits to be
  reaped. In between it runs.

  `every_call_answered`: if both lines move, every call that returned is
  answered by an event, unless its operation runs for ever.
-/

open LTS

namespace CenturyRing

/-! ### What becomes of an operation -/

/-- Every call whose user data is `awaited` ends with a completion. -/
def World.answers (awaited : UInt64 → Prop) (w : World) (ev : KernelEvent) : Prop :=
  ∀ entry ∈ w.dropped ev, entry.op.is_timeout = true ∨ ¬awaited entry.user_data

instance (awaited : UInt64 → Prop) [DecidablePred awaited] (w : World) (ev : KernelEvent) :
    Decidable (w.answers awaited ev) :=
  inferInstanceAs (Decidable (∀ entry ∈ w.dropped ev,
    entry.op.is_timeout = true ∨ ¬awaited entry.user_data))

/-- A call that is to be answered is under way or was reaped. -/
theorem under_way_or_reaped {s₀ s : PyState} {tr : RingTrace}
    (h : Path ring_system s₀ tr s) (hopen : s.world.is_open = true) {awaited : UInt64 → Prop}
    (hanswers : ∀ t ∈ tr, t.label.meets (World.answers awaited) t.src) {entry : Entry}
    (hentry : entry ∈ pushed tr) (hcall : entry.op.is_timeout = false)
    (hawaited : awaited entry.user_data) :
    entry ∈ s.world.live ∨ ∃ cqe ∈ reaped tr, cqe.origin = entry := by
  induction h with
  | nil => simp [pushed] at hentry
  | @snoc tr m s' l hpath hstep ih =>
    subst hstep
    rw [List.forall_mem_append, List.forall_mem_singleton] at hanswers
    have heffect := l.effect m hanswers.2
    obtain ⟨lost, hlost, hperm⟩ :=
      heffect.live (D := fun entry => entry.op.is_timeout = true ∨ ¬awaited entry.user_data)
        fun _ _ _ hev => hev
    have hlive : entry ∈ m.world.live ++ l.pushes m →
        entry ∈ (l.run m).world.live ∨ ∃ cqe ∈ l.reaps m, cqe.origin = entry := by
      intro hmem
      rw [hperm.mem_iff, List.mem_append, List.mem_append, List.mem_map] at hmem
      rcases hmem with (hmem | hmem) | hmem
      · exact .inl hmem
      · exact .inr hmem
      · rcases hlost hopen entry hmem with htimer | hnot
        · rw [htimer] at hcall
          cases hcall
        · exact absurd hawaited hnot
    rw [pushed_snoc, List.mem_append] at hentry
    simp only [reaped_snoc, List.mem_append]
    -- It was under way before the step, or was reaped before, or is new.
    rcases hentry with hold | hnew
    · rcases ih (heffect.is_open hopen) hanswers.1 hold with hmem | ⟨cqe, hcqe, heq⟩
      · rcases hlive (List.mem_append_left _ hmem) with hmem | ⟨cqe, hcqe, heq⟩
        · exact .inl hmem
        · exact .inr ⟨cqe, .inr hcqe, heq⟩
      · exact .inr ⟨cqe, .inl hcqe, heq⟩
    · rcases hlive (List.mem_append_right _ hnew) with hmem | ⟨cqe, hcqe, heq⟩
      · exact .inl hmem
      · exact .inr ⟨cqe, .inr hcqe, heq⟩

/-- For what is reaped there is an event. -/
theorem exists_event {tr : RingTrace} {cqe : Cqe} (h : cqe ∈ reaped tr) :
    ∃ event ∈ events tr, event.user_data = cqe.user_data := by
  have hmem : cqe.user_data ∈ (reaped tr).map (·.user_data) := List.mem_map_of_mem h
  rw [← events_user_data] at hmem
  exact List.mem_map.mp hmem

/-! ### Rings that run for ever -/

/-- The entries that the kernel has consumed, in order. -/
def World.consumed (w : World) : List Entry := w.kernel.batches.flatten

/-- What is assumed of a ring and of the kernel throughout, where the calls with
    `awaited` user data are to be answered. -/
structure Steady (awaited : UInt64 → Prop) (h : History ring_system) : Prop where
  bound : ∀ n, allocations (h.trace n) < 2 ^ 63
  is_open : ∀ n, (h.states n).world.is_open = true
  answers : ∀ n, ∀ t ∈ h.trace n, t.label.meets (World.answers awaited) t.src

namespace Steady

variable {awaited : UInt64 → Prop} {h : History ring_system} (hs : Steady awaited h)

include hs

theorem ledger (n : Nat) : Ledger (h.trace n) (h.states n).world :=
  ledger_of_run h.init (h.path n) (hs.bound n)

theorem consumed_append_pending (n : Nat) :
    (h.states n).world.consumed ++ (h.states n).world.pending = pushed (h.trace n) :=
  accepted_eq_pushed ⟨h.states 0, h.init, h.path n⟩ (hs.is_open n)

theorem reaped_append_unreaped (n : Nat) :
    reaped (h.trace n) ++ (h.states n).world.unreaped = (h.states n).world.kernel.posted :=
  CenturyRing.reaped_append_unreaped h.init (h.path n) (hs.is_open n)

end Steady

/-- What was pushed stays pushed. -/
theorem pushed_grows (h : History ring_system) (n : Nat) :
    pushed (h.trace n) <+: pushed (h.trace (n + 1)) := by
  obtain ⟨more, htrace, -⟩ := h.grows n
  rw [htrace, pushed, pushed, List.flatMap_append]
  exact List.prefix_append _ _

/-- What was consumed stays consumed. -/
theorem consumed_stable (h : History ring_system) (entry : Entry) :
    Stable fun n => entry ∈ (h.states n).world.consumed := by
  refine h.stable (I := fun s => entry ∈ s.world.consumed) fun s l s' hentry hstep => ?_
  obtain ⟨more, hmore⟩ := (step_effect (t := ⟨s, l, s'⟩) hstep).batches
  have hmore : s.world.kernel.batches ++ more = s'.world.kernel.batches := hmore
  show entry ∈ s'.world.kernel.batches.flatten
  rw [← hmore, List.flatten_append]
  exact List.mem_append_left _ hentry

/-- What was posted stays posted. -/
theorem posted_extends {s s' : PyState} {tr : RingTrace} (h : Path ring_system s tr s')
    (hopen : s'.world.is_open = true) : s.world.kernel.posted <+: s'.world.kernel.posted := by
  induction h with
  | nil => exact List.prefix_refl _
  | @snoc tr m s' l hpath hstep ih =>
    have heffect := step_effect (t := ⟨m, l, s'⟩) hstep
    obtain ⟨new, hposted, -⟩ := heffect.posted hopen
    rw [show s'.world.kernel.posted = m.world.kernel.posted ++ new from hposted]
    exact (ih (heffect.is_open hopen)).trans (List.prefix_append _ _)

/-! ### The two lines -/

section progress

variable {awaited : UInt64 → Prop} {h : History ring_system} (hs : Steady awaited h)
         {entry : Entry}

/-- The entries wait for the kernel. -/
def submissions : Line Entry where
  joined := fun n => pushed (h.trace n)
  served := fun n => (h.states n).world.consumed
  joined_grows := pushed_grows h
  served_first := fun n => by
    rw [← hs.consumed_append_pending n]
    exact List.prefix_append _ _

/-- The completions wait for the caller. -/
def completions : Line Cqe where
  joined := fun n => (h.states n).world.kernel.posted
  served := fun n => reaped (h.trace n)
  joined_grows := fun n => by
    obtain ⟨more, -, hpath⟩ := h.grows n
    exact posted_extends hpath (hs.is_open (n + 1))
  served_first := fun n => by
    rw [← hs.reaped_append_unreaped n]
    exact List.prefix_append _ _

/-- What is asked of the caller. -/
structure Fair (h : History ring_system) : Prop where
  /-- As long as entries are queued, the kernel consumes some. -/
  submits : ∀ n, (h.states n).world.pending ≠ [] →
    ∃ m, n ≤ m ∧ (h.states n).world.consumed.length < (h.states m).world.consumed.length
  /-- As long as completions are there, some are reaped. -/
  reaps : ∀ n, (h.states n).world.unreaped ≠ [] →
    ∃ m, n ≤ m ∧ (reaped (h.trace n)).length < (reaped (h.trace m)).length

/-- The operation does not run for ever. -/
def Finishes (h : History ring_system) (entry : Entry) : Prop :=
  LeadsTo (fun n => entry ∈ (h.states n).world.running)
    (fun n => entry ∉ (h.states n).world.running)

include hs

theorem submissions_waiting (n : Nat) :
    (submissions hs).waiting n = (h.states n).world.pending := by
  show (pushed (h.trace n)).drop (h.states n).world.consumed.length = _
  rw [← hs.consumed_append_pending n, List.drop_left]

theorem completions_waiting (n : Nat) :
    (completions hs).waiting n = (h.states n).world.unreaped := by
  show (h.states n).world.kernel.posted.drop (reaped (h.trace n)).length = _
  rw [← hs.reaped_append_unreaped n, List.drop_left]

/-- A call consumed is no longer queued. -/
theorem not_pending_of_consumed (hnot : entry.op.is_timeout = false) {n : Nat}
    (hconsumed : entry ∈ (h.states n).world.consumed) :
    entry ∉ (h.states n).world.pending := by
  intro hpending
  have hapart := (hs.ledger n).apart
  rw [← hs.consumed_append_pending n, List.pairwise_append] at hapart
  have htimer := ((hapart.2.2 entry hconsumed entry hpending).1 rfl).1
  rw [hnot] at htimer
  cases htimer

/-- A call consumed runs, or has ended with a completion. -/
theorem running_or_posted (hnot : entry.op.is_timeout = false)
    (hawaited : awaited entry.user_data) {n : Nat}
    (hconsumed : entry ∈ (h.states n).world.consumed) :
    entry ∈ (h.states n).world.running ∨
      ∃ cqe ∈ (h.states n).world.kernel.posted, cqe.origin = entry := by
  have hpushed : entry ∈ pushed (h.trace n) := by
    rw [← hs.consumed_append_pending n]
    exact List.mem_append_left _ hconsumed
  rw [← hs.reaped_append_unreaped n]
  rcases under_way_or_reaped (h.path n) (hs.is_open n) (hs.answers n) hpushed hnot hawaited with
    hlive | ⟨cqe, hcqe, horigin⟩
  · rw [World.live, List.mem_append, List.mem_append, List.mem_map] at hlive
    rcases hlive with (hpending | hrunning) | ⟨cqe, hcqe, horigin⟩
    · exact absurd hpending (not_pending_of_consumed hs hnot hconsumed)
    · exact .inl hrunning
    · exact .inr ⟨cqe, List.mem_append_right _ hcqe, horigin⟩
  · exact .inr ⟨cqe, List.mem_append_left _ hcqe, horigin⟩

/-- An operation that does not run for ever ends with a completion. -/
theorem consumed_leads_to_posted (hnot : entry.op.is_timeout = false)
    (hawaited : awaited entry.user_data) (hfinishes : Finishes h entry) :
    LeadsTo (fun n => entry ∈ (h.states n).world.consumed)
      (fun n => ∃ cqe ∈ (h.states n).world.kernel.posted, cqe.origin = entry) :=
  hfinishes.leave (consumed_stable h entry) fun _ => running_or_posted hs hnot hawaited

/-- **Progress**: a call that was pushed is reaped in the end. -/
theorem pushed_leads_to_reaped (hfair : Fair h) (hnot : entry.op.is_timeout = false)
    (hawaited : awaited entry.user_data) (hfinishes : Finishes h entry) :
    LeadsTo (fun n => entry ∈ pushed (h.trace n))
      (fun n => ∃ cqe ∈ reaped (h.trace n), cqe.origin = entry) := by
  have hsubmits : (submissions hs).Moves := by
    intro n hwaiting
    rw [submissions_waiting hs] at hwaiting
    exact hfair.submits n hwaiting
  have hreaps : (completions hs).Moves := by
    intro n hwaiting
    rw [completions_waiting hs] at hwaiting
    exact hfair.reaps n hwaiting
  have hposted := ((submissions hs).everyone_served hsubmits entry).trans
    (consumed_leads_to_posted hs hnot hawaited hfinishes)
  intro n hn
  obtain ⟨m, hm, cqe, hcqe, horigin⟩ := hposted n hn
  obtain ⟨k, hk, hreaped⟩ := (completions hs).everyone_served hreaps cqe m hcqe
  exact ⟨k, Nat.le_trans hm hk, cqe, hreaped, horigin⟩

end progress

/-! ### Executions -/

/-- What is answered after a call returned is answered behind it. -/
theorem Ledger.not_reaped_yet {tr : RingTrace} {s : PyState} (h : Ledger tr s.world)
    (hbound : allocations tr < 2 ^ 63) {p : Prep} {answer : Enter} {ud : UInt64}
    (hud : (RingLabel.prep p answer).returned s = some ud) :
    ∀ cqe ∈ reaped tr, cqe.user_data ≠ ud := by
  intro cqe hcqe heq
  have hold := h.pushed_of_reaped hcqe
  have hfresh : Fresh s.world ((RingLabel.prep p answer).run s).world (p.sqe s) := by
    refine (step_fresh (t := ⟨s, .prep p answer, (RingLabel.prep p answer).run s⟩) rfl ?_).2
    show p.sqe s ∈ (RingLabel.prep p answer).pushes s
    rw [RingLabel.pushes_prep, hud]
    exact List.mem_singleton_self _
  have hsame : cqe.origin.user_data = (p.sqe s).user_data :=
    heq.trans (Prep.returned_eq hud)
  have htimer := ((h.fresh_apart hbound hold hfresh).1 hsame).2
  have hnot : (p.sqe s).op.is_timeout = false := p.not_timeout s
  rw [hnot] at htimer
  cases htimer

/-- **Every call is answered**: in an execution in which entries are consumed
    as long as any are queued and completions are reaped as long as there are
    any, each call that returned is followed by an event with its user data,
    unless its operation runs for ever or the kernel keeps quiet about it. -/
theorem every_call_answered (e : Execution ring_system) (hinit : (e.states 0).initial)
    {awaited : UInt64 → Prop} (hsteady : Steady awaited (e.history hinit))
    (hfair : Fair (e.history hinit)) {n : Nat} {p : Prep} {answer : Enter} {ud : UInt64}
    (hcall : e.labels n = .prep p answer)
    (hud : (e.labels n).returned (e.states n) = some ud) (hawaited : awaited ud)
    (hfinishes : Finishes (e.history hinit) (p.sqe (e.states n))) :
    ∃ m, n < m ∧ ∃ event ∈ (e.labels m).events (e.states m), event.user_data = ud := by
  rw [hcall] at hud
  have hpushed : p.sqe (e.states n) ∈ pushed (e.trace (n + 1)) := by
    rw [Execution.trace, pushed_snoc]
    refine List.mem_append_right _ ?_
    show _ ∈ (e.labels n).pushes (e.states n)
    rw [hcall, RingLabel.pushes_prep, hud]
    exact List.mem_singleton_self _
  have heq := Prep.returned_eq hud
  obtain ⟨m, -, cqe, hcqe, horigin⟩ :=
    pushed_leads_to_reaped hsteady hfair (p.not_timeout _) (heq ▸ hawaited) hfinishes (n + 1)
      hpushed
  have hud' : cqe.user_data = ud := by rw [Cqe.user_data, horigin, heq]
  obtain ⟨t, ht, hreaps⟩ := List.mem_flatMap.mp hcqe
  obtain ⟨k, -, rfl⟩ := e.mem_trace.mp ht
  refine ⟨k, ?_, ?_⟩
  · -- It was not reaped before the call, nor by it.
    by_contra hle
    have hbefore : cqe ∈ reaped (e.trace (n + 1)) :=
      List.mem_flatMap.mpr ⟨e.nth k, e.mem_trace.mpr ⟨k, by omega, rfl⟩, hreaps⟩
    have hnone : (e.nth n).label.reaps (e.nth n).src = [] := by
      show (e.labels n).reaps (e.states n) = []
      rw [hcall]
      rfl
    rw [Execution.trace, reaped_snoc, hnone, List.append_nil] at hbefore
    exact (hsteady.ledger n).not_reaped_yet (hsteady.bound n) hud cqe hbefore hud'
  · have hmem : ud ∈ ((e.labels k).reaps (e.states k)).map (·.user_data) :=
      hud' ▸ List.mem_map_of_mem hreaps
    rw [← RingLabel.events_user_data] at hmem
    exact List.mem_map.mp hmem

/-- A read is submitted, completed and reaped. From then on time passes. -/
def read_for_ever : Nat → RingLabel :=
  followed_by [.prep (.read (.int 3) 4 (-1) none) (.ok 0), .submit (.ok 1),
    .kernel (.complete 0 4), .get_completion_entries []] fun _ => .kernel (.tick 1)

def read_execution : Execution ring_system :=
  .of_run (fun s l => l.run s) read_for_ever (.fresh 2 0) fun _ => rfl

theorem read_execution_initial : (read_execution.states 0).initial := fresh_initial

def read_history : History ring_system := read_execution.history read_execution_initial

/-- In the end nothing is left to do. -/
theorem read_history_idle (n : Nat) :
    let w := (read_history.states (n + 4)).world
    w.is_open = true ∧ w.pending = [] ∧ w.running = [] ∧ w.unreaped = [] ∧
      allocations (read_history.trace (n + 4)) = 1 := by
  induction n with
  | zero => decide
  | succ n ih =>
    obtain ⟨hopen, hpending, hrunning, hunreaped, hallocations⟩ := ih
    refine ⟨hopen, hpending, hrunning, hunreaped, ?_⟩
    show allocations (read_history.trace (n + 4) ++ [read_execution.nth (n + 4)]) = 1
    have hquiet : allocates (read_execution.nth (n + 4)) = false := bne_self_eq_false _
    rw [allocations_snoc, hallocations, hquiet]
    rfl

theorem read_history_steady : Steady (fun _ => True) read_history where
  bound := forall_moments 4 (by decide) fun n => by
    rw [(read_history_idle n).2.2.2.2]
    decide
  is_open := forall_moments 4 (by decide) fun n => (read_history_idle n).1
  answers := by
    intro n t ht
    obtain ⟨m, -, rfl⟩ := read_execution.mem_trace.mp ht
    have hmeets : ∀ k, (read_execution.labels k).meets (World.answers fun _ => True)
        (read_execution.states k) :=
      forall_moments 4 (by decide) fun k => List.forall_mem_nil _
    exact hmeets m

theorem read_history_fair : Fair read_history where
  submits := by
    refine forall_moments 4 (fun n hn hpending => ⟨4, Nat.le_of_lt hn, ?_⟩) fun n hpending => ?_
    · revert n
      decide
    · exact absurd (read_history_idle n).2.1 hpending
  reaps := by
    refine forall_moments 4 (fun n hn hunreaped => ⟨4, Nat.le_of_lt hn, ?_⟩) fun n hunreaped => ?_
    · revert n
      decide
    · exact absurd (read_history_idle n).2.2.2.1 hunreaped

theorem read_history_finishes (entry : Entry) : Finishes read_history entry := by
  intro n _
  refine ⟨n + 4, Nat.le_add_right n 4, ?_⟩
  show entry ∉ (read_history.states (n + 4)).world.running
  rw [(read_history_idle n).2.2.1]
  exact List.not_mem_nil

/-- The event of the read. -/
theorem every_call_answered_read : ∃ m, 0 < m ∧
    ∃ event ∈ (read_execution.labels m).events (read_execution.states m), event.user_data = 0 :=
  every_call_answered read_execution read_execution_initial read_history_steady read_history_fair
    rfl rfl trivial (read_history_finishes _)

end CenturyRing
