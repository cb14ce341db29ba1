import CenturyRing.Ownership

/-! # Memory that is given back

  A key of `owned_data` is given back when the completion of its operation is
  reaped, so every key needs an operation that will have one. The check of
  `SKIP_SUCCESS` looks at one call at a time; a request that carries the flag
  can still take down the requests linked behind it without a completion.
-/

open LTS

namespace CenturyRing

/-! ### What the kernel promises -/

namespace World

/-- The completions the kernel owes: a request is completed with one, unless it
    carries `SKIP_SUCCESS` and succeeds; and only such a request, when it fails
    in a link chain, takes the rest of the chain with it. -/
def completion_rules (w : World) : KernelEvent → Prop
  | .complete i result => ∀ request, w.kernel.inflight[i]? = some request →
      request.entry.flags.contains .SKIP_SUCCESS = true → result < 0
  | .complete_silently i => ∀ request, w.kernel.inflight[i]? = some request →
      request.entry.flags.contains .SKIP_SUCCESS = true
  | .fail_chain i result => ∀ request, w.kernel.inflight[i]? = some request →
      request.entry.flags.contains .SKIP_SUCCESS = true ∧
        request.entry.flags.contains .IO_LINK = true ∧ result < 0
  | _ => True

/-- A chain that fails as a whole has no memory behind the request that fails. -/
def cancels_unowned (w : World) : KernelEvent → Prop
  | .fail_chain i _ => ∀ request ∈ w.cancelled i, request.entry.op.pointer = none
  | _ => True

theorem kernel_meets_and {C D : World → KernelEvent → Prop} {w : World}
    {events : List KernelEvent} (hC : kernel_meets C w events) (hD : kernel_meets D w events) :
    kernel_meets (fun w ev => C w ev ∧ D w ev) w events := by
  induction events generalizing w with
  | nil => trivial
  | cons ev events ih => exact ⟨⟨hC.1, hD.1⟩, ih hC.2 hD.2⟩

theorem drain_meets_and {C D : World → KernelEvent → Prop} {bursts : List (List KernelEvent)}
    {w : World} (hC : drain_meets C bursts w) (hD : drain_meets D bursts w) :
    drain_meets (fun w ev => C w ev ∧ D w ev) bursts w := by
  induction bursts generalizing w with
  | nil => trivial
  | cons burst bursts ih =>
    rcases hC with hempty | hC
    · exact .inl hempty
    rcases hD with hempty | hD
    · exact .inl hempty
    · exact .inr ⟨kernel_meets_and hC.1 hD.1, ih hC.2 hD.2⟩

/-- Under the two conditions no operation that owns memory is dropped. -/
theorem accountable_kept :
    Drops (fun w ev => w.completion_rules ev ∧ w.cancels_unowned ev)
      (fun entry => ¬entry.Accountable) := by
  intro w ev hopen hev entry hentry haccountable
  cases ev with
  | complete i result => simp [dropped, unposted, hopen] at hentry
  | complete_silently i =>
    simp only [dropped, List.mem_map, Option.mem_toList] at hentry
    obtain ⟨request, hrequest, rfl⟩ := hentry
    have hskip := hev.1 request hrequest
    rw [haccountable.completes] at hskip
    cases hskip
  | fail_chain i result =>
    simp only [dropped, unposted, hopen, if_true, List.nil_append, List.mem_map] at hentry
    obtain ⟨request, hrequest, rfl⟩ := hentry
    exact haccountable.pointer (hev.2 request hrequest)
  | consume | write | flush | tick => simp [dropped] at hentry

end World

theorem RingLabel.meets_and {C D : World → KernelEvent → Prop} {l : RingLabel} {s : PyState}
    (hC : l.meets C s) (hD : l.meets D s) : l.meets (fun w ev => C w ev ∧ D w ev) s := by
  cases l with
  | get_completion_entries bursts => exact World.drain_meets_and hC hD
  | kernel ev => exact ⟨hC, hD⟩
  | _ => trivial

/-! ### Keys and operations -/

/-- Every key has an operation under way that owns memory and will have a
    completion. -/
def World.accounted (w : World) : Prop :=
  ∀ key, w.ring.owned_data key ≠ none →
    ∃ entry ∈ w.live, entry.user_data = key ∧ entry.Accountable

/-- **Step lemma**: a step in which no operation that owns memory is dropped
    keeps every key accounted for. -/
theorem Effect.accounted {C : World → KernelEvent → Prop} {w w' : World} {es : List Entry}
    {cqes : List Cqe} (hdrops : World.Drops C fun entry => ¬entry.Accountable)
    (h : Effect C w es cqes w') (hopen : w'.is_open = true) (hw : w.accounted) :
    w'.accounted := by
  intro key hkey
  obtain ⟨lost, hlost, hlive⟩ := h.live hdrops
  -- An operation that is accountable was not dropped.
  have hkept : ∀ entry ∈ w.live ++ es, entry.Accountable →
      (∀ cqe ∈ cqes, cqe.origin ≠ entry) → entry ∈ w'.live := by
    intro entry hentry haccountable hreaped
    have hmem := hlive.mem_iff.mp hentry
    rw [List.mem_append, List.mem_append, List.mem_map] at hmem
    rcases hmem with (hmem | ⟨cqe, hcqe, heq⟩) | hmem
    · exact hmem
    · exact absurd heq (hreaped cqe hcqe)
    · exact absurd haccountable (hlost hopen entry hmem)
  rcases h.owned hkey with ⟨hold, hreaped⟩ | ⟨entry, rfl, rfl, hud, haccountable⟩
  · obtain ⟨entry, hentry, rfl, haccountable⟩ := hw key hold
    refine ⟨entry, hkept entry (List.mem_append_left _ hentry) haccountable ?_, rfl, haccountable⟩
    intro cqe hcqe heq
    obtain rfl := heq
    exact hreaped cqe hcqe rfl
  · exact ⟨entry, hkept entry (by simp) haccountable (by simp), hud, haccountable⟩

/-- **No memory leaks**: in a run in which no link chain is cancelled with
    memory in it, every key of `owned_data` belongs to an operation that is
    queued, running, or completed and not reaped, as long as the ring is
    open. -/
theorem no_memory_leaks {s₀ s : PyState} {tr : RingTrace} (hinit : s₀.initial)
    (h : Path ring_system s₀ tr s) (hopen : s.world.is_open = true)
    (hrules : ∀ t ∈ tr, t.label.meets World.completion_rules t.src)
    (hchains : ∀ t ∈ tr, t.label.meets World.cancels_unowned t.src) :
    ∀ key, s.world.ring.owned_data key ≠ none →
      ∃ entry ∈ s.world.pending ++ s.world.running ++ s.world.unreaped.map (·.origin),
        entry.user_data = key := by
  -- The invariant is carried only as long as the ring is open.
  have haccounted : s.world.is_open = true → s.world.accounted := by
    refine h.invariant_along (I := fun s => s.world.is_open = true → s.world.accounted)
      (C := fun s l => l.meets World.completion_rules s ∧ l.meets World.cancels_unowned s)
      ?_ (fun t ht => ⟨hrules t ht, hchains t ht⟩) ?_
    · intro s l s' ih hmeets hstep hopen
      subst hstep
      have heffect := l.effect s (RingLabel.meets_and hmeets.1 hmeets.2)
      exact heffect.accounted World.accountable_kept hopen (ih (heffect.is_open hopen))
    · intro _ key hkey
      rw [hinit.blank.owned_data] at hkey
      exact absurd rfl hkey
  intro key hkey
  obtain ⟨entry, hentry, hud, -⟩ := haccounted hopen key hkey
  exact ⟨entry, hentry, hud⟩

/-! ### A close that is linked to a read -/

/-- A close with `io_link` and `skip_success`, a read behind it, and what the
    kernel does with them. -/
def close_then_read (outcome : List KernelEvent) : List RingLabel :=
  let flags := make_sqe_flags false false true false false false true
  [.prep (.close (.int 3) flags) (.ok 0), .prep (.read (.int 4) 16 (-1) none) (.ok 0),
    .submit (.ok 2)] ++ outcome.map .kernel

/-- The close succeeds and is silent; the buffer waits for the read. -/
theorem no_memory_leaks_close :
    let ls := close_then_read [.complete_silently 0]
    let w := (run_all ls (.fresh 2 0)).world
    ∃ entry ∈ w.pending ++ w.running ++ w.unreaped.map (·.origin), entry.user_data = 1 := by
  intro ls w
  refine no_memory_leaks fresh_initial (path_all ls _) (by decide) ?_ ?_ 1 (by decide)
  · refine List.forall_mem_cons.mpr ⟨trivial, List.forall_mem_cons.mpr ⟨trivial,
      List.forall_mem_cons.mpr ⟨trivial, List.forall_mem_singleton.mpr fun request h => ?_⟩⟩⟩
    cases h
    rfl
  · exact List.forall_mem_cons.mpr ⟨trivial, List.forall_mem_cons.mpr ⟨trivial,
      List.forall_mem_cons.mpr ⟨trivial, List.forall_mem_singleton.mpr trivial⟩⟩⟩

/-- The close fails and takes the read with it: the buffer is owned for good. -/
theorem memory_leaks :
    let ls := close_then_read [.fail_chain 0 (-9)]
    let tr := trace_all ls (.fresh 2 0)
    let s := run_all ls (.fresh 2 0)
    Run ring_system tr s ∧ s.world.is_open = true ∧
      (∀ t ∈ tr, t.label.meets World.completion_rules t.src) ∧
      s.world.ring.owned_data 1 ≠ none ∧
      ¬∃ entry ∈ s.world.pending ++ s.world.running ++ s.world.unreaped.map (·.origin),
        entry.user_data = 1 := by
  intro ls tr s
  refine ⟨⟨_, fresh_initial, path_all _ _⟩, by decide, ?_, by decide, by decide⟩
  refine List.forall_mem_cons.mpr ⟨trivial, List.forall_mem_cons.mpr ⟨trivial,
    List.forall_mem_cons.mpr ⟨trivial, List.forall_mem_singleton.mpr fun request h => ?_⟩⟩⟩
  cases h
  decide

end CenturyRing
