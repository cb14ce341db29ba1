import CenturyRing.Ownership
import Mathlib.Data.List.Nodup

/-! # Completion events

  Every event handed to the caller belongs to one operation: the entry whose
  completion it was made of. The ledger of the run so far says which, and
  that no other operation can be meant.
-/

open LTS

namespace CenturyRing

/-! ### Calls and what they returned -/

/-- The user data returned are those of the entries pushed by calls. -/
theorem returned_eq_pushed (tr : RingTrace) :
    returned tr = ((pushed tr).filter fun entry => !entry.op.is_timeout).map (·.user_data) := by
  simp only [returned, pushed, List.filter_flatMap, List.map_flatMap]
  apply List.flatMap_congr
  intro t _
  cases hl : t.label with
  | prep p answer =>
    -- A call returns exactly if it pushes its entry.
    rw [RingLabel.pushes_prep]
    cases hreturned : (RingLabel.prep p answer).returned t.src with
    | none => rfl
    | some ud =>
      rw [Prep.returned_eq hreturned]
      simp
  | submit_and_wait_with_timeout seconds nsec first last =>
    simp only [RingLabel.pushes]
    cases htimer : (RingLabel.submit_and_wait_with_timeout seconds nsec first last).timer t.src with
    | none => rfl
    | some entry => simp [RingLabel.returned, RingLabel.timer_is_timeout htimer]
  | _ => rfl

/-- `entry` was pushed by a call in `tr` that returned its user data. -/
def CalledIn (tr : RingTrace) (entry : Entry) : Prop :=
  ∃ t ∈ tr, ∃ p answer, t.label = .prep p answer ∧
    t.label.returned t.src = some entry.user_data ∧ entry = p.sqe t.src

/-- `entry` was pushed by a timed wait in `tr`. -/
def TimedIn (tr : RingTrace) (entry : Entry) : Prop :=
  ∃ t ∈ tr, t.label.timer t.src = some entry

theorem calledIn_of_pushed {tr : RingTrace} {entry : Entry} (h : entry ∈ pushed tr)
    (hcall : entry.op.is_timeout = false) : CalledIn tr entry := by
  obtain ⟨t, ht, hentry⟩ := List.mem_flatMap.mp h
  rcases RingLabel.mem_pushes hentry with hprep | htimer
  · exact ⟨t, ht, hprep⟩
  · rw [RingLabel.timer_is_timeout htimer] at hcall
    cases hcall

theorem timedIn_iff {tr : RingTrace} {entry : Entry} (h : entry ∈ pushed tr) :
    TimedIn tr entry ↔ entry.op.is_timeout = true := by
  constructor
  · intro hpair
    obtain ⟨t, -, htimer⟩ := hpair
    exact RingLabel.timer_is_timeout htimer
  · intro htimer
    obtain ⟨t, ht, hentry⟩ := List.mem_flatMap.mp h
    rcases RingLabel.mem_pushes hentry with ⟨p, answer, -, -, rfl⟩ | htimer'
    · rw [Prep.sqe_op, p.not_timeout] at htimer
      cases htimer
    · exact ⟨t, ht, htimer'⟩

/-! ### The event of a completion -/

/-- `EventOf tr owned_data cqe event`: `event` is as the operation of `cqe` is
    due it, when `cqe` is reaped after `tr` and the ring then owns `owned_data`. -/
structure EventOf (tr : RingTrace) (owned_data : UInt64 → Option OwnedData) (cqe : Cqe)
    (event : CompletionEvent) : Prop where
  user_data : event.user_data = cqe.origin.user_data
  result : event.result = cqe.result
  /-- The event of a call carries what exactly one call before returned. -/
  called : event.should_be_ignored = false →
    CalledIn tr cqe.origin ∧ (returned tr).count event.user_data = 1
  /-- To be ignored are the events of timed waits and no others. -/
  ignored : event.should_be_ignored = true ↔ TimedIn tr cqe.origin
  buffer : event.buffer.isSome = cqe.origin.op.has_buffer
  /-- The buffer is made of what the ring owns for the operation of the event,
      which is the block of memory that this operation, and no other, points
      into. -/
  own_buffer : event.buffer.isSome → ∃ buf, owned_data cqe.user_data = some (.Buffer buf) ∧
    (OwnedData.Buffer buf).backs cqe.origin.op ∧
    event.buffer = delivered cqe.result (.Buffer buf)

theorem delivered_isSome (result : Int32) (data : OwnedData) :
    (delivered result data).isSome = true ↔ ∃ buf, data = .Buffer buf := by
  cases data with
  | Buffer buf =>
    simp only [delivered]
    split <;> simp
  | OnePath path => simp [delivered]
  | TwoPaths path₁ path₂ => simp [delivered]
  | SockAddr addr => simp [delivered]

/-- What is delivered of the memory that backs an operation. -/
theorem Entry.backed_by.delivered {entry : Entry} {owned : Option OwnedData}
    (h : entry.backed_by owned) (result : Int32) :
    (owned.bind (delivered result)).isSome = entry.op.has_buffer ∧
      ((owned.bind (CenturyRing.delivered result)).isSome → ∃ buf,
        owned = some (.Buffer buf) ∧ (OwnedData.Buffer buf).backs entry.op ∧
        owned.bind (CenturyRing.delivered result) =
          CenturyRing.delivered result (.Buffer buf)) := by
  unfold Entry.backed_by at h
  split at h
  · next hpointer =>
    -- An operation without a pointer has no buffer.
    subst h
    refine ⟨?_, nofun⟩
    cases hop : entry.op <;> simp [hop, Operation.pointer] at hpointer ⊢ <;> rfl
  · obtain ⟨data, rfl, hbacks⟩ := h
    have hbuffer := OwnedData.backs_buffer_iff hbacks
    rw [← delivered_isSome result] at hbuffer
    refine ⟨Bool.eq_iff_iff.mpr hbuffer, ?_⟩
    intro hsome
    obtain ⟨buf, rfl⟩ := (delivered_isSome result data).mp hsome
    exact ⟨buf, rfl, hbacks, rfl⟩

/-! ### One reap -/

/-- What the ring owns when a reap has drained the completion queue and goes on
    to make the events. -/
def RingLabel.owned_when_drained (l : RingLabel) (s : PyState) : UInt64 → Option OwnedData :=
  match l with
  | get_completion_entries bursts => (World.drain bursts s.world).2.ring.owned_data
  | _ => s.world.ring.owned_data

theorem RingLabel.events_eq (bursts : List (List KernelEvent)) (s : PyState) :
    (get_completion_entries bursts).events s =
      if s.world.is_open then
        (complete_entries (World.drain bursts s.world).2.ring.owned_data
          (World.drain bursts s.world).1).1
      else [] := by
  show ((CenturyRing.get_completion_entries bursts s.world).1.toOption).getD [] = _
  cases hopen : s.world.is_open with
  | true =>
    rw [get_completion_entries_open hopen]
    rfl
  | false =>
    rw [get_completion_entries_closed hopen]
    rfl

/-- An event carries the user data and the result of its completion. -/
theorem RingLabel.events_user_data_result (l : RingLabel) (s : PyState) :
    (l.events s).map (fun event => (event.user_data, event.result)) =
      (l.reaps s).map (fun cqe => (cqe.user_data, cqe.result)) := by
  cases l with
  | get_completion_entries bursts =>
    rw [events_eq, reaps]
    split
    · exact complete_entries_events _ _
    · rfl
  | _ => rfl

theorem RingLabel.events_user_data (l : RingLabel) (s : PyState) :
    (l.events s).map (·.user_data) = (l.reaps s).map (·.user_data) := by
  have hfst := congrArg (List.map Prod.fst) (l.events_user_data_result s)
  simpa only [List.map_map, Function.comp_def] using hfst

/-- The same for a whole run. -/
theorem events_user_data_result (tr : RingTrace) :
    (events tr).map (fun event => (event.user_data, event.result)) =
      (reaped tr).map (fun cqe => (cqe.user_data, cqe.result)) := by
  simp only [events, reaped, List.map_flatMap, RingLabel.events_user_data_result]

theorem events_user_data (tr : RingTrace) :
    (events tr).map (·.user_data) = (reaped tr).map (·.user_data) := by
  simp only [events, reaped, List.map_flatMap, RingLabel.events_user_data]

section step

variable {tr : RingTrace} {t : Step PyState RingLabel}

/-- The completions reaped in a step were made of entries pushed before it. -/
theorem Ledger.origin_pushed (h : Ledger tr t.src.world)
    (hstep : ring_system.step t.src t.label t.dst) {cqe : Cqe} (hcqe : cqe ∈ t.label.reaps t.src) :
    cqe.origin ∈ pushed tr := by
  have horigin := h.origin_pushed_step hstep hcqe
  -- A step that reaps pushes nothing.
  rw [pushed_snoc] at horigin
  cases hl : t.label with
  | get_completion_entries bursts => simpa [hl, RingLabel.pushes, RingLabel.timer] using horigin
  | _ => simp [hl, RingLabel.reaps] at hcqe

/-- All completions reaped so far are told apart. -/
theorem Ledger.reaped_apart (h : Ledger tr t.src.world)
    (hstep : ring_system.step t.src t.label t.dst) (hbound : allocations tr < 2 ^ 63) :
    (reaped tr ++ t.label.reaps t.src).Pairwise fun cqe cqe' => ToldApart cqe.origin cqe'.origin := by
  obtain ⟨lost, hperm⟩ := h.conserved_step hstep
  have hapart := (hperm.pairwise_iff ToldApart.symm).mp (h.apart_step hstep hbound)
  rw [List.pairwise_append, List.pairwise_append] at hapart
  rw [← List.pairwise_map, ← reaped_snoc]
  exact hapart.1.2.1

/-- What is owned under the key of a completion when it is reaped is what its
    operation points into. -/
theorem Ledger.reaps_backed (h : Ledger tr t.src.world)
    (hstep : ring_system.step t.src t.label t.dst) (hbound : allocations tr < 2 ^ 63)
    {cqe : Cqe} (hcqe : cqe ∈ t.label.reaps t.src) :
    cqe.origin.backed_by (t.src.world.ring.owned_data cqe.user_data) := by
  have horigin := h.origin_pushed hstep hcqe
  cases htimer : cqe.origin.op.is_timeout with
  | true =>
    unfold Entry.backed_by Cqe.user_data
    rw [Operation.pointer_of_is_timeout htimer, h.timers _ horigin htimer]
    exact h.timeout_free hbound
  | false =>
    apply h.backed _ horigin
    intro old hold heq
    have hapart := (List.pairwise_append.mp (h.reaped_apart hstep hbound)).2.2 old hold cqe hcqe
    have htimer' := (hapart.1 (by rw [heq])).2
    rw [htimer] at htimer'
    cases htimer'

/-- Exactly the timeouts are numbered from `2 ^ 63` on. -/
theorem Ledger.timeout_iff {w : World} (h : Ledger tr w) (hbound : allocations tr < 2 ^ 63)
    {entry : Entry} (hentry : entry ∈ pushed tr) :
    2 ^ 63 ≤ entry.user_data.toNat ↔ entry.op.is_timeout = true := by
  have htimeout : TIMEOUT_USER_DATA.toNat = 18446744073709551360 := rfl
  cases htimer : entry.op.is_timeout with
  | true =>
    rw [h.timers entry hentry htimer]
    simp only [iff_true]
    omega
  | false =>
    have hlt := h.calls entry hentry htimer
    have hcounter := h.counter
    simp only [Bool.false_eq_true, iff_false]
    omega

/-- A user data value is returned once. -/
theorem Ledger.returned_nodup {w : World} (h : Ledger tr w) : (returned tr).Nodup := by
  rw [returned_eq_pushed, List.Nodup, List.pairwise_map, List.pairwise_filter]
  apply h.apart.imp
  intro entry entry' hapart hcall _ heq
  have htimer := (hapart.1 heq).1
  rw [htimer] at hcall
  cases hcall

/-- The event made of a completion that a step reaps. -/
theorem Ledger.eventOf (h : Ledger tr t.src.world)
    (hstep : ring_system.step t.src t.label t.dst) (hbound : allocations tr < 2 ^ 63)
    {cqe : Cqe} (hcqe : cqe ∈ t.label.reaps t.src) {owned_data : UInt64 → Option OwnedData}
    (hsame : SameData (t.src.world.ring.owned_data cqe.user_data) (owned_data cqe.user_data)) :
    EventOf tr owned_data cqe (cqe.event owned_data) := by
  have horigin := h.origin_pushed hstep hcqe
  have hdelivered :=
    Entry.backed_by.delivered (hsame.backed_by (h.reaps_backed hstep hbound hcqe)) cqe.result
  have hignored : (cqe.event owned_data).should_be_ignored = true ↔
      cqe.origin.op.is_timeout = true :=
    (CompletionEvent.should_be_ignored_iff _).trans (h.timeout_iff hbound horigin)
  refine ⟨rfl, rfl, fun hcall => ?_, hignored.trans (timedIn_iff horigin).symm, hdelivered.1,
    hdelivered.2⟩
  have hcall' : cqe.origin.op.is_timeout = false := by
    rw [← Bool.not_eq_true, ← hignored, hcall]
    exact Bool.false_ne_true
  refine ⟨calledIn_of_pushed horigin hcall', ?_⟩
  -- It was returned, and nothing is returned twice.
  apply List.count_eq_one_of_mem h.returned_nodup
  rw [returned_eq_pushed]
  exact List.mem_map.mpr ⟨cqe.origin, List.mem_filter.mpr ⟨horigin, by simp [hcall']⟩, rfl⟩

/-- **Step lemma**: a reap hands out one event for each completion it takes off
    the queue, in order. -/
theorem Ledger.events_step (h : Ledger tr t.src.world)
    (hstep : ring_system.step t.src t.label t.dst) (hbound : allocations tr < 2 ^ 63) :
    List.Forall₂ (EventOf tr (t.label.owned_when_drained t.src)) (t.label.reaps t.src)
      (t.label.events t.src) := by
  have hapart := (List.pairwise_append.mp (h.reaped_apart hstep hbound)).2.1
  have hevent : ∀ cqe ∈ t.label.reaps t.src, ∀ owned_data : UInt64 → Option OwnedData,
      SameData (t.src.world.ring.owned_data cqe.user_data) (owned_data cqe.user_data) →
      EventOf tr owned_data cqe (cqe.event owned_data) :=
    fun cqe hcqe owned_data hsame => h.eventOf hstep hbound hcqe hsame
  have hbacked := fun {cqe} (hcqe : cqe ∈ t.label.reaps t.src) => h.origin_pushed hstep hcqe
  cases hl : t.label with
  | get_completion_entries bursts =>
    simp only [hl, RingLabel.reaps] at hapart hevent hbacked
    rw [RingLabel.reaps, RingLabel.events_eq]
    split at hapart
    · next hopen =>
      simp only [hopen, if_true] at hevent hbacked ⊢
      have hsame := (World.drain_sameMemory bursts t.src.world).sameData
      -- Only timeouts share a key, and theirs owns nothing.
      have hpairwise : (World.drain bursts t.src.world).1.Pairwise fun cqe cqe' =>
          cqe.user_data = cqe'.user_data →
            (World.drain bursts t.src.world).2.ring.owned_data cqe.user_data = none := by
        apply hapart.imp_of_mem
        intro cqe cqe' hcqe _ hcqes heq
        rw [(hsame _).eq_none_iff, Cqe.user_data, h.timers _ (hbacked hcqe) (hcqes.1 heq).1]
        exact h.timeout_free hbound
      rw [complete_entries_of_pairwise hpairwise, List.forall₂_map_right_iff, List.forall₂_same]
      exact fun cqe hcqe => hevent cqe hcqe _ (hsame _)
    · next hclosed =>
      simp only [hclosed]
      exact .nil
  | _ => exact .nil

/-- **Step lemma**: what stops being owned in a step was given back with an
    event that is not to be ignored. -/
theorem Ledger.given_back (h : Ledger tr t.src.world)
    (hstep : ring_system.step t.src t.label t.dst) (hbound : allocations tr < 2 ^ 63)
    {key : UInt64} (howned : t.src.world.ring.owned_data key ≠ none)
    (hgone : t.dst.world.ring.owned_data key = none) :
    ∃ event ∈ t.label.events t.src, event.user_data = key ∧ event.should_be_ignored = false := by
  have hlt := h.keys key howned
  have hcounter := h.counter
  have hreaped : ∃ cqe ∈ t.label.reaps t.src, cqe.user_data = key := by
    by_contra hnone
    have hother : ∀ cqe ∈ t.label.reaps t.src, cqe.user_data ≠ key :=
      fun cqe hcqe hkey => hnone ⟨cqe, hcqe, hkey⟩
    have hpushed : ∀ entry ∈ t.label.pushes t.src, entry.user_data ≠ key := by
      -- The key of a new entry is beyond all keys that are owned.
      intro entry hentry heq
      obtain rfl := heq
      have hfresh := (step_fresh hstep hentry).2
      cases htimer : entry.op.is_timeout with
      | true =>
        rw [hfresh.timer htimer] at howned
        exact howned (h.timeout_free hbound)
      | false =>
        rw [(hfresh.call htimer).1] at hlt
        exact Nat.lt_irrefl _ hlt
    exact howned (((step_effect hstep).kept hpushed hother).eq_none_iff.mp hgone)
  obtain ⟨cqe, hcqe, rfl⟩ := hreaped
  have hmem := List.mem_map_of_mem (f := (·.user_data)) hcqe
  rw [← RingLabel.events_user_data] at hmem
  obtain ⟨event, hevent, heq⟩ := List.mem_map.mp hmem
  refine ⟨event, hevent, heq, ?_⟩
  rw [← Bool.not_eq_true, CompletionEvent.should_be_ignored_iff, heq]
  omega

end step

/-! ### Whole runs -/

@[simp] theorem World.own_unreaped (w : World) (user_data : UInt64) (owned : Option OwnedData) :
    (w.own user_data owned).unreaped = w.unreaped := by
  simp [World.unreaped]

/-- What a step takes off the completion queue are the oldest completions in
    it; what is posted meanwhile comes behind them. -/
theorem Effect.posted {C : World → KernelEvent → Prop} {w w' : World} {es : List Entry}
    {cqes : List Cqe} (h : Effect C w es cqes w') (hopen : w'.is_open = true) :
    ∃ new, w'.kernel.posted = w.kernel.posted ++ new ∧
      cqes ++ w'.unreaped = w.unreaped ++ new := by
  cases h with
  | quiet hquiet hcounter => exact ⟨[], by simp [hquiet.posted, hquiet.unreaped]⟩
  | queued hquiet hcounter huser_data hfresh hprepared hroom =>
    exact ⟨[], by simp [World.push_unreaped, hquiet.posted, hquiet.unreaped]⟩
  | timer hquiet hcounter hroom hquiet' hcounter' =>
    refine ⟨[], ?_⟩
    simp [hquiet'.posted, hquiet'.unreaped, World.push_unreaped, hquiet.posted, hquiet.unreaped]
  | reaped bursts hopen' hmeets => exact World.drain_posted bursts w hopen'
  | closed => cases hopen
  | kernel ev hmeets =>
    rw [(w.kernel_step_sameProcess ev).is_open] at hopen
    exact World.kernel_step_posted hopen ev

/-- In a run, every completion that was posted was reaped or can still be, in
    the order of posting. -/
theorem reaped_append_unreaped {s₀ s : PyState} {tr : RingTrace} (hinit : s₀.initial)
    (h : Path ring_system s₀ tr s) (hopen : s.world.is_open = true) :
    reaped tr ++ s.world.unreaped = s.world.kernel.posted := by
  induction h with
  | nil => simp [reaped, hinit.blank.unreaped, hinit.blank.posted]
  | @snoc tr m s' l hpath hstep ih =>
    have heffect := step_effect (t := ⟨m, l, s'⟩) hstep
    obtain ⟨new, hposted, hunreaped⟩ := heffect.posted hopen
    rw [reaped_snoc, List.append_assoc, hunreaped, hposted, ← List.append_assoc,
      ih (heffect.is_open hopen)]

theorem allocations_le_append (tr tr' : RingTrace) : allocations tr ≤ allocations (tr ++ tr') := by
  simp only [allocations, List.countP_append]
  exact Nat.le_add_right _ _

/-- Events and operations correspond one to one in a run that led to `w`. -/
structure OneToOne (tr : RingTrace) (w : World) : Prop where
  /-- Each reap hands out one event for each completion it takes off the queue,
      and that event is as its operation is due it. -/
  events_of : ∀ pre t post, tr = pre ++ t :: post →
    List.Forall₂ (EventOf pre (t.label.owned_when_drained t.src)) (t.label.reaps t.src)
      (t.label.events t.src)
  /-- No two events that are not to be ignored share their user data. -/
  once : (((events tr).filter fun event => !event.should_be_ignored).map (·.user_data)).Nodup
  /-- No two operations point into the same memory. -/
  apart : (pushed tr).Pairwise fun entry entry' =>
    ∀ ptr, entry.op.pointer = some ptr → entry'.op.pointer ≠ some ptr
  /-- Nothing is given back but with an event that is not to be ignored. -/
  given_back : ∀ t ∈ tr, ∀ key, t.src.world.ring.owned_data key ≠ none →
    t.dst.world.ring.owned_data key = none →
      ∃ event ∈ t.label.events t.src, event.user_data = key ∧ event.should_be_ignored = false
  /-- All completions are taken off the queue once, in order. -/
  all_reaped : w.is_open = true → reaped tr ++ w.unreaped = w.kernel.posted

/-- No call's user data is used by two events. -/
theorem Ledger.events_once {tr : RingTrace} {w : World} (h : Ledger tr w)
    (hbound : allocations tr < 2 ^ 63) :
    (((events tr).filter fun event => !event.should_be_ignored).map (·.user_data)).Nodup := by
  -- Being ignored is a matter of the user data, and events carry those reaped.
  have huser_data := events_user_data tr
  have hreaped : (reaped tr).Pairwise fun cqe cqe' =>
      cqe.user_data.toNat < 2 ^ 63 → cqe.user_data ≠ cqe'.user_data := by
    obtain ⟨lost, hperm⟩ := h.conserved
    have hapart := (hperm.pairwise_iff ToldApart.symm).mp h.apart
    rw [List.pairwise_append, List.pairwise_append, List.pairwise_map] at hapart
    apply hapart.1.2.1.imp_of_mem
    intro cqe cqe' hcqe _ hcqes hlt heq
    have htimer := (h.timeout_iff hbound (h.pushed_of_reaped hcqe)).mpr (hcqes.1 heq).1
    change 2 ^ 63 ≤ cqe.user_data.toNat at htimer
    omega
  have hkeys : ((reaped tr).map (·.user_data)).Pairwise fun ud ud' =>
      ud.toNat < 2 ^ 63 → ud ≠ ud' := List.pairwise_map.mpr hreaped
  rw [← huser_data, List.pairwise_map] at hkeys
  rw [List.Nodup, List.pairwise_map, List.pairwise_filter]
  refine hkeys.imp fun {event event'} hne hcall _ => hne ?_
  have hignored := event.should_be_ignored_iff
  rw [← not_le, ← hignored]
  simpa using hcall

/-- **Events and operations correspond**: in every run of a ring, however its
    calls and the kernel interleave. -/
theorem events_one_to_one {s₀ s : PyState} {tr : RingTrace} (hinit : s₀.initial)
    (h : Path ring_system s₀ tr s) (hbound : allocations tr < 2 ^ 63) :
    OneToOne tr s.world := by
  have hledger := ledger_of_run hinit h hbound
  -- The books were in order before each step.
  have hbefore : ∀ pre t post, tr = pre ++ t :: post → Ledger pre t.src.world ∧
      ring_system.step t.src t.label t.dst ∧ allocations pre < 2 ^ 63 := by
    intro pre t post heq
    obtain rfl := heq
    have hle := Nat.lt_of_le_of_lt (allocations_le_append pre (t :: post)) hbound
    have hstep := h.step_of_mem (t := t) (by simp)
    exact ⟨ledger_of_run hinit h.to_src hle, hstep, hle⟩
  refine ⟨?_, hledger.events_once hbound, hledger.apart.imp fun hapart => hapart.2, ?_,
    reaped_append_unreaped hinit h⟩
  · intro pre t post htr
    obtain ⟨hpre, hstep, hle⟩ := hbefore pre t post htr
    exact hpre.events_step hstep hle
  · intro t ht key howned hgone
    obtain ⟨pre, post, htr⟩ := List.append_of_mem ht
    obtain ⟨hpre, hstep, hle⟩ := hbefore pre t post htr
    exact hpre.given_back hstep hle howned hgone

/-- A read overtaken by a timer, both reaped at once. -/
theorem events_one_to_one_overtaken :
    let ls : List RingLabel := [.prep (.read (.int 3) 16 (-1) none) (.ok 0),
      .submit_and_wait_with_timeout 1 0 (.ok 1) (.ok 1), .kernel (.complete 1 (-62)),
      .kernel (.complete 0 5), .get_completion_entries []]
    (events (trace_all ls (.fresh 2 0))).map
        (fun event => (event.user_data, event.should_be_ignored)) =
      [(TIMEOUT_USER_DATA, true), (0, false)] ∧
      OneToOne (trace_all ls (.fresh 2 0)) (run_all ls (.fresh 2 0)).world :=
  ⟨by decide, events_one_to_one fresh_initial (path_all _ _) (by decide)⟩

end CenturyRing
