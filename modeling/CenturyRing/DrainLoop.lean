import CenturyRing.Wakeup

/-! # The drain loop, step by step

  The loop of `get_completion_entries` in the steps in which it touches the
  memory shared with the kernel. The kernel acts between any two of them: it
  consumes entries, completes them, and posts completions behind those the
  loop has seen.

  The queue may be fuller after a round than before it. What shrinks in every
  round is the number of operations that are under way at all.
-/

open LTS

namespace CenturyRing

/-! ### The steps of the loop -/

/-- Where the loop is. `entries` is the vector of that name. -/
inductive DrainPoint where
  /-- About to make `completion`, which looks at the queue. -/
  | looking (entries : List Cqe)
  /-- `completion` holds `seen` entries; about to ask whether it is empty. -/
  | testing (entries : List Cqe) (seen : Nat)
  /-- About to extend `entries` by those of `completion`. -/
  | extending (entries : List Cqe) (seen : Nat)
  /-- `completion` is dropped, which publishes the head of the queue. -/
  | publishing (entries : List Cqe) (seen : Nat)
  | syncing (entries : List Cqe)
  | ended (entries : List Cqe)
  deriving DecidableEq, Repr

/-- The loop has been left. -/
def DrainPoint.has_ended : DrainPoint → Bool
  | ended _ => true
  | _ => false

/-- The ring, and the loop that drains it. -/
structure Draining where
  world : World
  point : DrainPoint

inductive DrainLabel where
  /-- The loop takes a step. -/
  | loop
  /-- The kernel acts. -/
  | kernel (ev : KernelEvent)

namespace Draining

/-- The loop is entered. -/
def start (w : World) : Draining := ⟨w, .looking []⟩

/-- The next step of the loop. -/
def advance (d : Draining) : Draining :=
  match d.point with
  | .looking entries => { d with point := .testing entries d.world.cq.length }
  | .testing entries seen =>
    { d with point := if seen = 0 then .ended entries else .extending entries seen }
  | .extending entries seen =>
    { d with point := .publishing (entries ++ d.world.cq.take seen) seen }
  | .publishing entries seen => ⟨d.world.take_seen seen, .syncing entries⟩
  -- `sync` publishes the same head again.
  | .syncing entries => { d with point := .looking entries }
  | .ended _ => d

/-- The state afterwards. -/
def run (d : Draining) : DrainLabel → Draining
  | .loop => d.advance
  | .kernel ev => { d with world := d.world.kernel_step ev }

/-- The completions that the next step of the loop takes off the queue. -/
def removes (d : Draining) : List Cqe :=
  match d.point with
  | .publishing _ seen => d.world.cq.take seen
  | _ => []

/-- The next step of the loop is its emptiness test. -/
def tests (d : Draining) : Bool :=
  match d.point with
  | .testing .. => true
  | _ => false

end Draining

/-- The loop and the kernel. -/
def drain_system : System Draining DrainLabel where
  init := fun d => d = .start d.world
  step := fun d l d' => (l = .loop → d.point.has_ended = false) ∧ d' = d.run l

/-- The trace of a run of the loop. -/
abbrev DrainTrace := List (Step Draining DrainLabel)

/-- The step is one of the loop. -/
def DrainLabel.of_loop : DrainLabel → Bool
  | loop => true
  | kernel _ => false

/-- The steps that the loop has taken. -/
def loop_steps (tr : DrainTrace) : Nat := tr.countP fun t => t.label.of_loop

/-- The iterations that the loop has begun: how often it asked whether
    `completion` is empty. -/
def iterations (tr : DrainTrace) : Nat := tr.countP fun t => t.label.of_loop && t.src.tests

/-- The completions that a step takes off the queue. -/
def DrainLabel.removes (l : DrainLabel) (d : Draining) : List Cqe :=
  match l with
  | loop => d.removes
  | kernel _ => []

/-- The completions taken off the queue, in the order in which they are. -/
def removed (tr : DrainTrace) : List Cqe := tr.flatMap fun t => t.label.removes t.src

@[simp] theorem removed_snoc (tr : DrainTrace) (t : Step Draining DrainLabel) :
    removed (tr ++ [t]) = removed tr ++ t.label.removes t.src := by
  simp [removed]

/-! ### What a step does to the queue -/

namespace World

variable (w : World)

theorem post_cq_extends (cqe : Cqe) : w.cq <+: (w.post cqe).cq := by
  unfold post
  split
  · exact List.prefix_refl _
  · next uring hring =>
    by_cases hroom : w.kernel.overflow = [] ∧ uring.cq.length < uring.cq_entries
    · simp [hroom, cq, hring]
    · simp [hroom, cq, hring]

theorem complete_cq_extends (i : Nat) (result : Int32) : w.cq <+: (w.complete i result).cq := by
  unfold complete
  split
  · exact List.prefix_refl _
  · exact (w.finish i).post_cq_extends _

/-- Only the process takes completions off the queue. -/
theorem kernel_step_cq_extends (ev : KernelEvent) : w.cq <+: (w.kernel_step ev).cq := by
  cases ev with
  | consume k =>
    show w.cq <+: (w.consume k).cq
    unfold consume
    split
    · exact List.prefix_refl _
    · next hring => simp [cq, hring]
  | complete i result => exact w.complete_cq_extends i result
  | complete_silently i => exact List.prefix_refl _
  | fail_chain i result => exact (w.cancel_rest i).complete_cq_extends i result
  | write i bytes =>
    show w.cq <+: (w.write i bytes).cq
    unfold write
    split <;> exact List.prefix_refl _
  | flush =>
    show w.cq <+: w.flush.cq
    unfold flush
    split
    · exact List.prefix_refl _
    · next hring => simp [cq, hring]
  | tick nanos => exact List.prefix_refl _

/-- What is taken comes from the front of everything unreaped. -/
theorem take_seen_unreaped (seen : Nat) :
    w.unreaped = w.cq.take seen ++ (w.take_seen seen).unreaped := by
  cases hring : w.ring.the_io_uring with
  | none => simp [take_seen, unreaped, cq, hring]
  | some uring => simp [take_seen, unreaped, cq, hring, ← List.append_assoc]

theorem take_seen_live {seen : Nat} (hseen : seen ≤ w.cq.length) :
    w.live.length = (w.take_seen seen).live.length + seen := by
  have hpending : (w.take_seen seen).pending = w.pending := by
    cases hring : w.ring.the_io_uring <;> simp [take_seen, pending, hring]
  have hrunning : (w.take_seen seen).running = w.running := rfl
  have hunreaped := congrArg List.length (w.take_seen_unreaped seen)
  simp only [List.length_append, List.length_take, Nat.min_eq_left hseen] at hunreaped
  simp only [live, List.length_append, List.length_map, hpending, hrunning]
  omega

theorem cq_length_le_live : w.cq.length ≤ w.live.length := by
  have hlive := w.drained_live.length_eq
  simp only [List.length_append, List.length_map] at hlive
  omega

theorem kernel_step_live_length (ev : KernelEvent) :
    (w.kernel_step ev).live.length ≤ w.live.length := by
  have hlive := (w.kernel_step_live ev).length_eq
  rw [List.length_append] at hlive
  omega

end World

/-! ### The order of what is taken -/

namespace Draining

/-- What holds in every run of the loop, where `taken` has been taken off the
    queue so far. -/
def Inv (taken : List Cqe) (d : Draining) : Prop :=
  match d.point with
  | .looking entries | .syncing entries | .ended entries => entries = taken
  | .testing entries seen => entries = taken ∧ seen ≤ d.world.cq.length
  | .extending entries seen => entries = taken ∧ 0 < seen ∧ seen ≤ d.world.cq.length
  -- The entries are in the vector already, but still in the queue too.
  | .publishing entries seen =>
    entries = taken ++ d.world.cq.take seen ∧ 0 < seen ∧ seen ≤ d.world.cq.length

variable {taken : List Cqe} {d d' : Draining}

/-- The kernel posts behind what the loop has seen. -/
theorem Inv.kernel (h : d.Inv taken) (ev : KernelEvent) : (d.run (.kernel ev)).Inv taken := by
  obtain ⟨w, point⟩ := d
  have hextends := w.kernel_step_cq_extends ev
  have hlength := hextends.length_le
  cases point with
  | looking entries => exact h
  | testing entries seen => exact ⟨h.1, Nat.le_trans h.2 hlength⟩
  | extending entries seen => exact ⟨h.1, h.2.1, Nat.le_trans h.2.2 hlength⟩
  | publishing entries seen =>
    obtain ⟨hentries, hpos, hseen⟩ := h
    obtain ⟨new, hnew⟩ := hextends
    have htake : (w.kernel_step ev).cq.take seen = w.cq.take seen := by
      rw [← hnew, List.take_append_of_le_length hseen]
    exact ⟨by rw [hentries]; exact congrArg _ htake.symm, hpos, Nat.le_trans hseen hlength⟩
  | syncing entries => exact h
  | ended entries => exact h

theorem Inv.loop (h : d.Inv taken) : d.advance.Inv (taken ++ d.removes) := by
  obtain ⟨w, point⟩ := d
  cases point with
  | looking entries => exact ⟨by simpa [Inv, removes] using h, Nat.le_refl _⟩
  | testing entries seen =>
    obtain ⟨hentries, hseen⟩ := h
    by_cases hzero : seen = 0
    · simpa [advance, hzero, Inv, removes] using hentries
    · simpa [advance, hzero, Inv, removes] using ⟨hentries, Nat.pos_of_ne_zero hzero, hseen⟩
  | extending entries seen =>
    obtain ⟨hentries, hpos, hseen⟩ := h
    exact ⟨by simp [removes, advance, hentries], hpos, hseen⟩
  | publishing entries seen => exact h.1
  | syncing entries => simpa [Inv, advance, removes] using h
  | ended entries => simpa [Inv, advance, removes] using h

theorem Inv.step (h : d.Inv taken) {l : DrainLabel} (hstep : drain_system.step d l d') :
    d'.Inv (taken ++ l.removes d) := by
  obtain ⟨-, rfl⟩ := hstep
  cases l with
  | loop => exact h.loop
  | kernel ev => simpa [DrainLabel.removes] using h.kernel ev

theorem inv_of_path {w : World} {tr : DrainTrace} (h : Path drain_system (.start w) tr d) :
    d.Inv (removed tr) := by
  apply h.trace_invariant (I := fun tr d => Inv (removed tr) d)
  · intro tr d l d' hinv hstep
    rw [removed_snoc]
    exact hinv.step hstep
  · exact rfl

/-- What a step takes is the oldest of what is unreaped, and what it posts is
    the youngest. -/
theorem Inv.conserved (h : d.Inv taken) {l : DrainLabel} (hopen : d.world.is_open = true)
    (hstep : drain_system.step d l d') : ∃ new,
      d'.world.kernel.posted = d.world.kernel.posted ++ new ∧
      l.removes d ++ d'.world.unreaped = d.world.unreaped ++ new := by
  obtain ⟨-, rfl⟩ := hstep
  cases l with
  | kernel ev => exact World.kernel_step_posted hopen ev
  | loop =>
    obtain ⟨w, point⟩ := d
    cases point with
    | publishing entries seen =>
      exact ⟨[], (List.append_nil _).symm,
        by rw [List.append_nil]; exact (w.take_seen_unreaped seen).symm⟩
    | _ => exact ⟨[], (List.append_nil _).symm, (List.append_nil _).symm⟩

theorem step_is_open {l : DrainLabel} (hstep : drain_system.step d l d') :
    d'.world.is_open = d.world.is_open := by
  obtain ⟨-, rfl⟩ := hstep
  cases l with
  | kernel ev => exact (d.world.kernel_step_sameProcess ev).is_open
  | loop =>
    obtain ⟨w, point⟩ := d
    cases point with
    | publishing entries seen => exact w.take_seen_is_open seen
    | _ => exact rfl

/-- What is taken continues what was reaped before. -/
theorem removed_append_unreaped {w : World} {before : List Cqe} {tr : DrainTrace}
    (h : Path drain_system (.start w) tr d) (hopen : w.is_open = true)
    (hbefore : before ++ w.unreaped = w.kernel.posted) :
    before ++ removed tr ++ d.world.unreaped = d.world.kernel.posted := by
  have hall := h.trace_invariant
    (I := fun tr d => d.world.is_open = true ∧ d.Inv (removed tr) ∧
      before ++ removed tr ++ d.world.unreaped = d.world.kernel.posted) ?_ ?_
  · exact hall.2.2
  · intro tr d l d' hd hstep
    obtain ⟨hopen', hinv, hposted⟩ := hd
    obtain ⟨new, hnew, hunreaped⟩ := hinv.conserved hopen' hstep
    refine ⟨(step_is_open hstep).trans hopen', ?_, ?_⟩
    · rw [removed_snoc]
      exact hinv.step hstep
    · calc before ++ removed (tr ++ [⟨d, l, d'⟩]) ++ d'.world.unreaped
          = before ++ removed tr ++ (l.removes d ++ d'.world.unreaped) := by simp
        _ = d.world.kernel.posted ++ new := by rw [hunreaped, ← List.append_assoc, hposted]
        _ = d'.world.kernel.posted := hnew.symm
  · exact ⟨hopen, rfl, by simpa [removed, start] using hbefore⟩

/-! ### Termination -/

/-- How many steps the loop can still take. -/
def fuel (d : Draining) : Nat :=
  match d.point with
  | .looking _ => 5 * d.world.live.length + 2
  | .testing .. => 5 * d.world.live.length + 1
  | .extending .. => 5 * d.world.live.length
  | .publishing .. => 5 * d.world.live.length - 1
  | .syncing _ => 5 * d.world.live.length + 3
  | .ended _ => 0

/-- How many iterations the loop can still begin. -/
def rounds (d : Draining) : Nat :=
  match d.point with
  | .looking _ | .testing .. | .syncing _ => d.world.live.length + 1
  | .extending .. | .publishing .. => d.world.live.length
  | .ended _ => 0

/-- The kernel makes no work for the loop. -/
theorem kernel_fuel (d : Draining) (ev : KernelEvent) :
    (d.run (.kernel ev)).fuel ≤ d.fuel ∧ (d.run (.kernel ev)).rounds ≤ d.rounds := by
  obtain ⟨w, point⟩ := d
  have hlive := w.kernel_step_live_length ev
  cases point <;> simp only [run, fuel, rounds] <;> omega

/-- Each step of the loop brings its end closer, and each iteration takes at
    least one of the operations that are under way. -/
theorem Inv.loop_fuel (h : d.Inv taken) (hnot : d.point.has_ended = false) :
    d.advance.fuel + 1 ≤ d.fuel ∧ d.advance.rounds + (if d.tests then 1 else 0) ≤ d.rounds := by
  obtain ⟨w, point⟩ := d
  have hlive := w.cq_length_le_live
  cases point with
  | looking entries => simp [advance, fuel, rounds, tests]
  | testing entries seen =>
    by_cases hzero : seen = 0
    · simp [advance, hzero, fuel, rounds, tests]
    · simp [advance, hzero, fuel, rounds, tests]
  | extending entries seen =>
    obtain ⟨-, hpos, hseen⟩ := h
    have hpos : 0 < w.live.length := by simp only at hseen; omega
    simp only [advance, fuel, rounds, tests]
    constructor
    · omega
    · exact Nat.le_refl _
  | publishing entries seen =>
    obtain ⟨-, hpos, hseen⟩ := h
    have htaken := w.take_seen_live hseen
    simp only [advance, fuel, rounds, tests]
    constructor
    · omega
    · simp only [Bool.false_eq_true, if_false]
      omega
  | syncing entries => simp [advance, fuel, rounds, tests]
  | ended entries => cases hnot

theorem Inv.step_fuel (h : d.Inv taken) {l : DrainLabel} (hstep : drain_system.step d l d') :
    d'.fuel + (if l.of_loop then 1 else 0) ≤ d.fuel ∧
      d'.rounds + (if l.of_loop && d.tests then 1 else 0) ≤ d.rounds := by
  obtain ⟨hnot, rfl⟩ := hstep
  cases l with
  | loop => simpa [DrainLabel.of_loop, run] using h.loop_fuel (hnot rfl)
  | kernel ev => simpa [DrainLabel.of_loop] using d.kernel_fuel ev

/-- What has been taken does not matter for the bounds. -/
theorem exists_inv_step (d : Draining) (l : DrainLabel) (d' : Draining)
    (h : ∃ taken, d.Inv taken) (hstep : drain_system.step d l d') : ∃ taken, d'.Inv taken := by
  obtain ⟨taken, hinv⟩ := h
  exact ⟨_, hinv.step hstep⟩

theorem loop_steps_le {w : World} {tr : DrainTrace} (h : Path drain_system (.start w) tr d) :
    loop_steps tr + d.fuel ≤ 5 * w.live.length + 2 := by
  refine h.countP_add_le (φ := fuel) exists_inv_step ?_ ⟨[], rfl⟩
  intro d l d' hd hstep
  obtain ⟨taken, hinv⟩ := hd
  exact (hinv.step_fuel hstep).1

theorem iterations_le {w : World} {tr : DrainTrace} (h : Path drain_system (.start w) tr d) :
    iterations tr + d.rounds ≤ w.live.length + 1 := by
  refine h.countP_add_le (φ := rounds) exists_inv_step ?_ ⟨[], rfl⟩
  intro d l d' hd hstep
  obtain ⟨taken, hinv⟩ := hd
  exact (hinv.step_fuel hstep).2

end Draining

/-! ### Every run of the loop -/

/-- **The drain loop ends**, whatever the kernel does meanwhile: after at most
    one iteration more than there were operations under way, with all that it
    took off the queue, which is what was posted next after what had been
    reaped before. -/
theorem drain_loop_ends {s₀ s : PyState} {tr₀ : RingTrace} (hinit : s₀.initial)
    (hrun : Path ring_system s₀ tr₀ s) (hopen : s.world.is_open = true) :
    (∀ tr d, Path drain_system (.start s.world) tr d →
      iterations tr ≤ s.world.live.length + 1 ∧
      (d.point.has_ended = false → ∃ d', drain_system.step d .loop d') ∧
      ∀ entries, d.point = .ended entries → entries = removed tr ∧
        reaped tr₀ ++ entries ++ d.world.unreaped = d.world.kernel.posted) ∧
    ∀ e : Execution drain_system, e.states 0 = .start s.world →
      (∀ n, (e.states n).point.has_ended = false → ∃ m, n ≤ m ∧ e.labels m = .loop) →
      ∃ n, (e.states n).point.has_ended = true := by
  constructor
  · intro tr d h
    refine ⟨?_, fun hnot => ⟨_, fun _ => hnot, rfl⟩, ?_⟩
    · have hle := Draining.iterations_le h
      omega
    · intro entries hended
      have hentries : entries = removed tr := by
        have hinv := Draining.inv_of_path h
        rw [Draining.Inv, hended] at hinv
        exact hinv
      have hbefore := reaped_append_unreaped hinit hrun hopen
      exact ⟨hentries, hentries ▸ Draining.removed_append_unreaped h hopen hbefore⟩
  · intro e hstart hfair
    have hbound : ∀ n, loop_steps (e.trace n) ≤ 5 * s.world.live.length + 2 := by
      intro n
      have hpath := e.path n
      rw [hstart] at hpath
      exact Nat.le_trans (Nat.le_add_right _ _) (Draining.loop_steps_le hpath)
    apply e.reaches (P := fun d => d.point.has_ended = true) hbound
    intro n hnot
    obtain ⟨m, hm, hloop⟩ := hfair n (Bool.eq_false_iff.mpr hnot)
    exact ⟨m, hm, by rw [Execution.nth, hloop]; rfl⟩

/-- Two reads, one of which has been completed. -/
theorem drain_loop_ends_two :
    let ls : List RingLabel := [.prep (.read (.int 3) 16 (-1) none) (.ok 0),
      .prep (.read (.int 3) 16 (-1) none) (.ok 0), .submit (.ok 2), .kernel (.complete 1 5)]
    ∀ tr d, Path drain_system (.start (run_all ls (.fresh 2 0)).world) tr d →
      iterations tr ≤ 3 ∧ ∀ entries, d.point = .ended entries →
        entries ++ d.world.unreaped = d.world.kernel.posted := by
  intro ls tr d h
  have hall := (drain_loop_ends fresh_initial (path_all ls (.fresh 2 0)) (by decide)).1 tr d h
  have hlive : (run_all ls (.fresh 2 0)).world.live.length = 2 := by decide
  have hreaped : reaped (trace_all ls (.fresh 2 0)) = [] := by decide
  rw [hlive, hreaped] at hall
  exact ⟨hall.1, fun entries hended => (hall.2.2 entries hended).2⟩

/-! ### The loop of an atomic reap -/

/-- Nothing happens in between while the loop takes a step. -/
theorem path_loop {d : Draining} (hnot : d.point.has_ended = false) :
    Path drain_system d [⟨d, .loop, d.advance⟩] d.advance := .single ⟨fun _ => hnot, rfl⟩

/-- A round that finds nothing. -/
theorem path_last_round {w : World} (hcq : w.cq = []) (entries : List Cqe) :
    ∃ tr, Path drain_system ⟨w, .looking entries⟩ tr ⟨w, .ended entries⟩ := by
  have hlook := path_loop (d := ⟨w, .looking entries⟩) rfl
  have htest := path_loop (d := ⟨w, .testing entries w.cq.length⟩) rfl
  have hend : Draining.advance ⟨w, .testing entries w.cq.length⟩ = ⟨w, .ended entries⟩ := by
    simp [Draining.advance, hcq]
  rw [hend] at htest
  exact ⟨_, hlook.append htest⟩

/-- A round that finds something takes it all. -/
theorem path_round {w : World} (hcq : w.cq ≠ []) (entries : List Cqe) :
    ∃ tr, Path drain_system ⟨w, .looking entries⟩ tr ⟨w.drained, .looking (entries ++ w.cq)⟩ := by
  have hlook := path_loop (d := ⟨w, .looking entries⟩) rfl
  have htest := path_loop (d := ⟨w, .testing entries w.cq.length⟩) rfl
  have hextend := path_loop (d := ⟨w, .extending entries w.cq.length⟩) rfl
  have hpublish := path_loop (d := ⟨w, .publishing (entries ++ w.cq) w.cq.length⟩) rfl
  have hsync := path_loop (d := ⟨w.drained, .syncing (entries ++ w.cq)⟩) rfl
  have htest' : Draining.advance ⟨w, .testing entries w.cq.length⟩ =
      ⟨w, .extending entries w.cq.length⟩ := by
    simp [Draining.advance, hcq]
  have hextend' : Draining.advance ⟨w, .extending entries w.cq.length⟩ =
      ⟨w, .publishing (entries ++ w.cq) w.cq.length⟩ := by
    simp [Draining.advance]
  have hpublish' : Draining.advance ⟨w, .publishing (entries ++ w.cq) w.cq.length⟩ =
      ⟨w.drained, .syncing (entries ++ w.cq)⟩ := by
    simp [Draining.advance, w.take_seen_drained]
  rw [htest'] at htest
  rw [hextend'] at hextend
  rw [hpublish'] at hpublish
  exact ⟨_, (((hlook.append htest).append hextend).append hpublish).append hsync⟩

theorem path_kernel_steps (w : World) (point : DrainPoint) (events : List KernelEvent) :
    ∃ tr, Path drain_system ⟨w, point⟩ tr ⟨w.kernel_steps events, point⟩ := by
  induction events generalizing w with
  | nil => exact ⟨[], .nil⟩
  | cons ev events ih =>
    obtain ⟨tr, htr⟩ := ih (w.kernel_step ev)
    exact ⟨_, .cons (l := .kernel ev) ⟨nofun, rfl⟩ htr⟩

/-- The turns that `World.drain` takes with the kernel are one way for the
    loop and the kernel to interleave. -/
theorem drain_is_run (bursts : List (List KernelEvent)) (w : World) (entries : List Cqe) :
    ∃ tr, Path drain_system ⟨w, .looking entries⟩ tr
      ⟨(World.drain bursts w).2, .ended (entries ++ (World.drain bursts w).1)⟩ := by
  induction bursts generalizing w entries with
  | nil =>
    rw [World.drain, World.drain_round_eq]
    by_cases hcq : w.cq = []
    · simpa [hcq] using path_last_round hcq entries
    · obtain ⟨tr, hround⟩ := path_round hcq entries
      obtain ⟨tr', hlast⟩ := path_last_round w.drained_cq (entries ++ w.cq)
      simpa [hcq] using ⟨_, hround.append hlast⟩
  | cons burst bursts ih =>
    rw [World.drain, World.drain_round_eq]
    by_cases hcq : w.cq = []
    · simpa [hcq] using path_last_round hcq entries
    · obtain ⟨tr, hround⟩ := path_round hcq entries
      obtain ⟨tr', hburst⟩ := path_kernel_steps w.drained (.looking (entries ++ w.cq)) burst
      obtain ⟨tr'', hrest⟩ := ih (w.drained.kernel_steps burst) (entries ++ w.cq)
      rw [List.append_assoc] at hrest
      simpa [hcq] using ⟨_, (hround.append hburst).append hrest⟩

end CenturyRing
