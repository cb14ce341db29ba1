import CenturyRing.Ring

/-! # Reaping completions (`get_completion_entries`)

  The drain loop takes turns with the kernel. `drain_invariant` is the rule
  for it: what one round keeps and what one step of the kernel keeps holds of
  everything that was drained and of the ring it was drained from.
-/

namespace CenturyRing

namespace World

/-! ### One round -/

/-- The completion queue is emptied. -/
def drained (w : World) : World :=
  { w with ring := { w.ring with
      the_io_uring := w.ring.the_io_uring.map fun uring => { uring with cq := [] } } }

@[simp] theorem drained_pending (w : World) : w.drained.pending = w.pending := by
  cases h : w.ring.the_io_uring <;> simp [drained, pending, h]

@[simp] theorem drained_kernel (w : World) : w.drained.kernel = w.kernel := rfl

@[simp] theorem drained_owned_data (w : World) :
    w.drained.ring.owned_data = w.ring.owned_data := rfl

theorem drained_sameProcess (w : World) : SameProcess w w.drained := by
  cases h : w.ring.the_io_uring <;> constructor <;>
    simp [drained, is_open, World.capacity, World.sqpoll, h]

@[simp] theorem drained_accepted (w : World) : w.drained.accepted = w.accepted := by
  simp [accepted]

/-- What a round takes is what it finds in front of everything unreaped. -/
theorem drained_unreaped (w : World) : w.unreaped = w.cq ++ w.drained.unreaped := by
  cases h : w.ring.the_io_uring <;> simp [drained, unreaped, cq, h]

@[simp] theorem drained_cq (w : World) : w.drained.cq = [] := by
  cases h : w.ring.the_io_uring <;> simp [drained, cq, h]

theorem drained_live (w : World) :
    w.live.Perm (w.drained.live ++ w.cq.map (·.origin)) := by
  apply List.perm_iff_count.mpr
  intro entry
  have hunreaped := congrArg (fun l => (l.map (·.origin)).count entry) w.drained_unreaped
  simp only [List.map_append, List.count_append] at hunreaped
  simp only [live, drained_pending, running, drained_kernel, List.count_append]
  omega

/-- A round either finds nothing and ends the loop, or takes everything. -/
theorem drain_round_eq (w : World) :
    w.drain_round = if w.cq = [] then none else some (w.cq, w.drained) := by
  cases h : w.ring.the_io_uring with
  | none => simp [drain_round, cq, h]
  | some uring => simp [drain_round, cq, drained, h]

/-! ### The loop -/

/-- `C` holds of each of several steps of the kernel where it happens. -/
def kernel_meets (C : World → KernelEvent → Prop) : World → List KernelEvent → Prop
  | _, [] => True
  | w, ev :: events => C w ev ∧ kernel_meets C (w.kernel_step ev) events

/-- `C` holds of each step of the kernel during the loop. -/
def drain_meets (C : World → KernelEvent → Prop) : List (List KernelEvent) → World → Prop
  | [], _ => True
  | burst :: bursts, w =>
    w.cq = [] ∨ (kernel_meets C w.drained burst ∧
      drain_meets C bursts (w.drained.kernel_steps burst))

instance instDecidableKernelMeets {C : World → KernelEvent → Prop} [∀ w ev, Decidable (C w ev)] :
    ∀ (w : World) (events : List KernelEvent), Decidable (kernel_meets C w events)
  | _, [] => .isTrue trivial
  | w, ev :: events =>
    have := instDecidableKernelMeets (C := C) (w.kernel_step ev) events
    inferInstanceAs (Decidable (C w ev ∧ kernel_meets C (w.kernel_step ev) events))

instance instDecidableDrainMeets {C : World → KernelEvent → Prop} [∀ w ev, Decidable (C w ev)] :
    ∀ (bursts : List (List KernelEvent)) (w : World), Decidable (drain_meets C bursts w)
  | [], _ => .isTrue trivial
  | burst :: bursts, w =>
    have := instDecidableDrainMeets (C := C) bursts (w.drained.kernel_steps burst)
    inferInstanceAs (Decidable (w.cq = [] ∨ (kernel_meets C w.drained burst ∧
      drain_meets C bursts (w.drained.kernel_steps burst))))

/-- Several steps of the kernel, each with the world it is taken in. -/
def kernel_history : World → List KernelEvent → List (World × KernelEvent)
  | _, [] => []
  | w, ev :: events => (w, ev) :: kernel_history (w.kernel_step ev) events

/-- The steps of the kernel during the loop. -/
def drain_history : List (List KernelEvent) → World → List (World × KernelEvent)
  | [], _ => []
  | burst :: bursts, w =>
    if w.cq = [] then []
    else kernel_history w.drained burst ++ drain_history bursts (w.drained.kernel_steps burst)

theorem kernel_meets_true (w : World) (events : List KernelEvent) :
    kernel_meets (fun _ _ => True) w events := by
  induction events generalizing w with
  | nil => trivial
  | cons ev events ih => exact ⟨trivial, ih _⟩

theorem drain_meets_true (bursts : List (List KernelEvent)) (w : World) :
    drain_meets (fun _ _ => True) bursts w := by
  induction bursts generalizing w with
  | nil => trivial
  | cons burst bursts ih => exact Or.inr ⟨kernel_meets_true _ burst, ih _⟩

/-- What each step of the kernel keeps is kept by several. `I w past` says what
    is known when the kernel has taken the steps `past` and the ring is `w`. -/
theorem kernel_history_invariant {C : World → KernelEvent → Prop}
    {I : World → List (World × KernelEvent) → Prop}
    (hkernel : ∀ w past ev, I w past → C w ev → I (w.kernel_step ev) (past ++ [(w, ev)]))
    {events : List KernelEvent} {w : World} (hmeets : kernel_meets C w events)
    (past : List (World × KernelEvent)) (h : I w past) :
    I (w.kernel_steps events) (past ++ kernel_history w events) := by
  induction events generalizing w past with
  | nil =>
    rw [kernel_history, List.append_nil]
    exact h
  | cons ev events ih =>
    rw [kernel_history, List.append_cons]
    exact ih hmeets.2 _ (hkernel w past ev h hmeets.1)

/-- **Drain rule**: `I acc w past` says what is known when `acc` has been
    drained, the kernel has taken the steps `past` and the ring is `w`. -/
theorem drain_history_invariant {C : World → KernelEvent → Prop}
    {I : List Cqe → World → List (World × KernelEvent) → Prop}
    (hround : ∀ acc w past, I acc w past → I (acc ++ w.cq) w.drained past)
    (hkernel : ∀ acc w past ev, I acc w past → C w ev →
      I acc (w.kernel_step ev) (past ++ [(w, ev)]))
    {bursts : List (List KernelEvent)} {w : World} (hmeets : drain_meets C bursts w)
    (acc : List Cqe) (past : List (World × KernelEvent)) (h : I acc w past) :
    I (acc ++ (drain bursts w).1) (drain bursts w).2 (past ++ drain_history bursts w) := by
  induction bursts generalizing w acc past with
  | nil =>
    rw [drain, drain_round_eq, drain_history, List.append_nil]
    split
    · next hround' =>
      split at hround'
      · simpa using h
      · cases hround'
    · next entries w' hround' =>
      split at hround'
      · cases hround'
      · cases hround'
        exact hround acc w past h
  | cons burst bursts ih =>
    rw [drain, drain_round_eq, drain_history]
    -- An empty queue ends the loop; otherwise a round is followed by the kernel.
    by_cases hcq : w.cq = []
    · simpa [hcq] using h
    · obtain ⟨hburst, hbursts⟩ := hmeets.resolve_left hcq
      have hnext := kernel_history_invariant (hkernel (acc ++ w.cq)) hburst past (hround acc w past h)
      simpa [hcq] using ih hbursts _ _ hnext

/-- The rule for several steps where the history does not matter. -/
theorem kernel_steps_invariant {C : World → KernelEvent → Prop} {I : World → Prop}
    (hkernel : ∀ w ev, I w → C w ev → I (w.kernel_step ev)) {events : List KernelEvent}
    {w : World} (hmeets : kernel_meets C w events) (h : I w) : I (w.kernel_steps events) :=
  kernel_history_invariant (I := fun w _ => I w) (fun w _ ev h hC => hkernel w ev h hC) hmeets [] h

/-- The drain rule where the history does not matter. -/
theorem drain_invariant {C : World → KernelEvent → Prop} {I : List Cqe → World → Prop}
    (hround : ∀ acc w, I acc w → I (acc ++ w.cq) w.drained)
    (hkernel : ∀ acc w ev, I acc w → C w ev → I acc (w.kernel_step ev))
    {bursts : List (List KernelEvent)} {w : World} (hmeets : drain_meets C bursts w)
    (acc : List Cqe) (h : I acc w) :
    I (acc ++ (drain bursts w).1) (drain bursts w).2 :=
  drain_history_invariant (I := fun acc w _ => I acc w) (fun acc w _ h => hround acc w h)
    (fun acc w _ ev h hC => hkernel acc w ev h hC) hmeets acc [] h

/-! ### What a loop leaves -/

section drain

variable (bursts : List (List KernelEvent)) (w : World)

/-- From a closed ring nothing is drained. -/
theorem drain_closed {w : World} (hclosed : w.is_open = false) (bursts : List (List KernelEvent)) :
    drain bursts w = ([], w) := by
  have hround : w.drain_round = none := by
    cases hring : w.ring.the_io_uring with
    | none => simp [drain_round, hring]
    | some uring => simp [is_open, hring] at hclosed
  cases bursts <;> simp [drain, hround]

theorem drain_history_closed {w : World} (hclosed : w.is_open = false)
    (bursts : List (List KernelEvent)) : drain_history bursts w = [] := by
  have hcq : w.cq = [] := by
    cases hring : w.ring.the_io_uring with
    | none => simp [cq, hring]
    | some uring => simp [is_open, hring] at hclosed
  cases bursts with
  | nil => rfl
  | cons burst bursts => rw [drain_history, if_pos hcq]

theorem drain_sameProcess : SameProcess w (drain bursts w).2 :=
  drain_invariant (C := fun _ _ => True) (I := fun _ w' => SameProcess w w')
    (fun _ w' h => h.trans w'.drained_sameProcess)
    (fun _ w' ev h _ => h.trans (w'.kernel_step_sameProcess ev))
    (drain_meets_true bursts w) [] (.refl w)

theorem drain_sameMemory : SameMemory w (drain bursts w).2 :=
  drain_invariant (C := fun _ _ => True) (I := fun _ w' => SameMemory w w')
    (fun _ w' h => h.trans (.of_eq w'.drained_owned_data))
    (fun _ w' ev h _ => h.trans (w'.kernel_step_sameMemory ev))
    (drain_meets_true bursts w) [] (.of_eq rfl)

theorem drain_accepted : (drain bursts w).2.accepted = w.accepted :=
  drain_invariant (C := fun _ _ => True) (I := fun _ w' => w'.accepted = w.accepted)
    (fun _ w' h => w'.drained_accepted.trans h)
    (fun _ w' ev h _ => (w'.kernel_step_accepted ev).trans h)
    (drain_meets_true bursts w) [] rfl

theorem drain_batches : w.kernel.batches <+: (drain bursts w).2.kernel.batches :=
  drain_invariant (C := fun _ _ => True) (I := fun _ w' => w.kernel.batches <+: w'.kernel.batches)
    (fun _ _ h => h) (fun _ w' ev h _ => h.trans (w'.kernel_step_batches ev))
    (drain_meets_true bursts w) [] (List.prefix_refl _)

/-- On an open ring, a kernel that keeps to `C` drops only operations of which
    `D` holds. -/
def Drops (C : World → KernelEvent → Prop) (D : Entry → Prop) : Prop :=
  ∀ w ev, w.is_open = true → C w ev → ∀ entry ∈ w.dropped ev, D entry

/-- **Conservation**: the loop takes operations from the ring but neither
    makes nor loses any, except those the kernel drops meanwhile. `D` is
    whatever is known of those. -/
theorem drain_live {C : World → KernelEvent → Prop} {D : Entry → Prop} (hdrops : Drops C D)
    {bursts : List (List KernelEvent)} {w : World} (hopen : w.is_open = true)
    (hmeets : drain_meets C bursts w) :
    ∃ lost : List Entry, (∀ entry ∈ lost, D entry) ∧
      w.live.Perm ((drain bursts w).2.live ++ (drain bursts w).1.map (·.origin) ++ lost) := by
  have h := drain_invariant (I := fun acc w' => w'.is_open = true ∧ ∃ lost : List Entry,
    (∀ entry ∈ lost, D entry) ∧ w.live.Perm (w'.live ++ acc.map (·.origin) ++ lost)) ?_ ?_ hmeets []
    ⟨hopen, [], by simp, by simp⟩
  · exact h.2
  · intro acc w' hpair
    obtain ⟨hopen', lost, hlost, hperm⟩ := hpair
    refine ⟨by rw [w'.drained_sameProcess.is_open, hopen'], lost, hlost,
      List.perm_iff_count.mpr fun entry => ?_⟩
    -- What a round takes goes from the queue to the list.
    have hcount := hperm.count_eq entry
    have hround := w'.drained_live.count_eq entry
    simp only [List.map_append, List.count_append] at hcount hround ⊢
    omega
  · intro acc w' ev hpair hC
    obtain ⟨hopen', lost, hlost, hperm⟩ := hpair
    refine ⟨by rw [(w'.kernel_step_sameProcess ev).is_open, hopen'], lost ++ w'.dropped ev, ?_,
      List.perm_iff_count.mpr fun entry => ?_⟩
    · intro entry hentry
      rcases List.mem_append.mp hentry with h | h
      · exact hlost entry h
      · exact hdrops w' ev hopen' hC entry h
    · have hcount := hperm.count_eq entry
      have hstep := (w'.kernel_step_live ev).count_eq entry
      simp only [List.count_append] at hcount hstep ⊢
      omega

/-- What the loop takes are the oldest of all completions not reaped yet; what
    is posted meanwhile comes behind them. -/
theorem drain_posted (hopen : w.is_open = true) :
    ∃ cqes, (drain bursts w).2.kernel.posted = w.kernel.posted ++ cqes ∧
      (drain bursts w).1 ++ (drain bursts w).2.unreaped = w.unreaped ++ cqes := by
  have h := drain_invariant (C := fun _ _ => True)
    (I := fun acc w' => w'.is_open = true ∧ ∃ cqes,
      w'.kernel.posted = w.kernel.posted ++ cqes ∧ acc ++ w'.unreaped = w.unreaped ++ cqes)
    ?_ ?_ (drain_meets_true bursts w) [] ⟨hopen, [], by simp, by simp⟩
  · exact h.2
  · intro acc w' hpair
    obtain ⟨hopen', cqes, hposted, hunreaped⟩ := hpair
    refine ⟨by rw [w'.drained_sameProcess.is_open, hopen'], cqes, hposted, ?_⟩
    rw [List.append_assoc, ← w'.drained_unreaped, hunreaped]
  · intro acc w' ev hpair _
    obtain ⟨hopen', cqes, hposted, hunreaped⟩ := hpair
    obtain ⟨more, hposted', hunreaped'⟩ := kernel_step_posted hopen' ev
    refine ⟨by rw [(w'.kernel_step_sameProcess ev).is_open, hopen'], cqes ++ more, ?_, ?_⟩
    · rw [hposted', hposted, List.append_assoc]
    · rw [hunreaped', ← List.append_assoc, hunreaped, List.append_assoc]

end drain

end World

/-! ### From entries to events -/

/-- The event made of a completion, if nothing was removed for it before. -/
def Cqe.event (cqe : Cqe) (owned_data : UInt64 → Option OwnedData) : CompletionEvent where
  user_data := cqe.user_data
  result := cqe.result
  buffer := (owned_data cqe.user_data).bind (delivered cqe.result)

/-- Afterwards exactly the keys of the completions are gone. -/
theorem complete_entries_owned_data (owned_data : UInt64 → Option OwnedData) (cqes : List Cqe)
    (key : UInt64) :
    (complete_entries owned_data cqes).2 key =
      if key ∈ cqes.map (·.user_data) then none else owned_data key := by
  induction cqes generalizing owned_data with
  | nil => rfl
  | cons cqe cqes ih =>
    simp only [complete_entries, ih, List.map_cons, List.mem_cons]
    by_cases hkey : key = cqe.user_data
    · subst hkey
      simp
    · simp [hkey]

/-- One event for each completion, in order. -/
theorem complete_entries_events (owned_data : UInt64 → Option OwnedData) (cqes : List Cqe) :
    (complete_entries owned_data cqes).1.map (fun event => (event.user_data, event.result)) =
      cqes.map (fun cqe => (cqe.user_data, cqe.result)) := by
  induction cqes generalizing owned_data with
  | nil => rfl
  | cons cqe cqes ih => simp [complete_entries, ih]

/-- If no two completions share a key that owns something, each event carries
    what was owned for its completion. -/
theorem complete_entries_of_pairwise {owned_data : UInt64 → Option OwnedData} {cqes : List Cqe}
    (h : cqes.Pairwise fun cqe cqe' =>
      cqe.user_data = cqe'.user_data → owned_data cqe.user_data = none) :
    (complete_entries owned_data cqes).1 = cqes.map (·.event owned_data) := by
  induction cqes generalizing owned_data with
  | nil => rfl
  | cons cqe cqes ih =>
    rw [List.pairwise_cons] at h
    -- Removing the first key changes nothing for the others.
    have hsame : ∀ cqe' ∈ cqes,
        Function.update owned_data cqe.user_data none cqe'.user_data =
          owned_data cqe'.user_data := by
      intro cqe' hcqe'
      by_cases hkey : cqe'.user_data = cqe.user_data
      · rw [hkey, Function.update_self, h.1 cqe' hcqe' hkey.symm]
      · rw [Function.update_of_ne hkey]
    have hpairwise : cqes.Pairwise fun a b => a.user_data = b.user_data →
        Function.update owned_data cqe.user_data none a.user_data = none := by
      apply h.2.imp_of_mem
      intro a b ha _ hab heq
      rw [hsame a ha]
      exact hab heq
    simp only [complete_entries, ih hpairwise, List.map_cons, Cqe.event]
    refine congrArg₂ _ rfl (List.map_congr_left ?_)
    intro cqe' hcqe'
    rw [hsame cqe' hcqe']

/-! ### `get_completion_entries` -/

theorem get_completion_entries_open {w : World} (hopen : w.is_open = true)
    (bursts : List (List KernelEvent)) :
    get_completion_entries bursts w =
      let (cqes, w') := World.drain bursts w
      let (events, owned_data) := complete_entries w'.ring.owned_data cqes
      (.ok events, { w' with ring := { w'.ring with owned_data := owned_data } }) := by
  rw [get_completion_entries, Fallible.run_bind_ok (require_open_of_open hopen)]
  rfl

theorem get_completion_entries_closed {w : World} (hclosed : w.is_open = false)
    (bursts : List (List KernelEvent)) :
    get_completion_entries bursts w = (.error ring_closed, w) := by
  rw [get_completion_entries, Fallible.run_bind_error (require_open_of_closed hclosed)]

end CenturyRing
