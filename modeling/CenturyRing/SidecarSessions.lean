import CenturyRing.Sidecar

/-! # What sidecar sessions leave behind

  A session closes its ring and ends its tasks however it ends. Its eventfd is
  never closed, and its instrument is removed only by a block that is entered
  after everything else was set up.

  `Leaves` says what is left, for every way a session can go. The invariant of
  a run of sessions is that no two things have the same name.
-/

open LTS

namespace CenturyRing

/-! ### What a session leaves behind -/

namespace Session

/-- The ring is made, and under trio the instrument is added. -/
def enters_group (session : Session) : Prop :=
  (∃ world, sidecar_ring session.host session.args = .ok world) ∧
    (session.lib = .trio → session.add_instrument = .ok ⟨⟩)

def opens_eventfd (session : Session) : Prop :=
  session.enters_group ∧ session.eventfd = .ok ⟨⟩

/-- The eventfd is registered and the dispatcher is started. -/
def dispatches (session : Session) : Prop :=
  session.register_eventfd = .ok ⟨⟩ ∧ session.start_soon = .ok ⟨⟩

/-- The instrument is added, but the block that removes it is not entered. -/
def forgets_instrument (session : Session) : Prop :=
  session.lib = .trio ∧ session.enters_group ∧
    ¬(session.eventfd = .ok ⟨⟩ ∧ session.dispatches)

end Session

section left

open Fallible

variable {p p' : Process} {session : Session}

/-- An instrument, if there is one, is not registered any more. -/
def Resources.unregister (r : Resources) : Option Instrument → Resources
  | some instrument => r.without_instrument instrument
  | none => r

theorem Resources.unregister_twice (r : Resources) (sidecar_instrument : Option Instrument) :
    (r.unregister sidecar_instrument).unregister sidecar_instrument =
      r.unregister sidecar_instrument := by
  cases sidecar_instrument with
  | none => rfl
  | some instrument => simp [unregister, without_instrument]

/-- trio may have dropped the instrument. -/
theorem yield_manager_ends (sidecar_instrument : Option Instrument) (manager : SidecarManager) :
    (yield_manager session sidecar_instrument manager).Ends
      (fun p' => p'.next = p.next ∧
        (p'.now = p.now ∨ p'.now = p.now.unregister sidecar_instrument)) p := by
  have hbody : (check (session.body manager) : SidecarM PUnit).Keeps
      (fun p' => p'.next = p.next ∧
        (p'.now = p.now ∨ p'.now = p.now.unregister sidecar_instrument)) := Keeps.check _
  cases sidecar_instrument with
  | none => exact hbody p ⟨rfl, .inl rfl⟩
  | some instrument =>
    rw [Ends, yield_manager, wp_bind, before_io_wait, wp_ite]
    constructor
    · intro _
      rw [wp_change]
      exact hbody (p.change (·.without_instrument instrument)) ⟨rfl, .inr rfl⟩
    · intro _
      rw [wp_pure]
      exact hbody p ⟨rfl, .inl rfl⟩

/-- The `finally` block. If trio has dropped the instrument, it raises. -/
theorem finally_block_ends (sidecar_instrument : Option Instrument) (group : Nat) :
    (finally_block sidecar_instrument group).Ends
      (fun p' => group ∈ p'.cancelled ∧ p'.next = p.next ∧
        p'.now = p.now.unregister sidecar_instrument) p := by
  have hcancelled : group ∈ (p.cancel group).cancelled := Finset.mem_insert_self _ _
  rw [Ends, finally_block, wp_bind, wp_cancel]
  cases sidecar_instrument with
  | none => exact (wp_pure _).mpr ⟨hcancelled, rfl, rfl⟩
  | some instrument =>
    show (remove_instrument instrument).wp _ _ _
    rw [wp_remove_instrument]
    constructor
    · intro _
      exact ⟨hcancelled, rfl, rfl⟩
    · intro hgone
      have hsame : p.now.instruments.erase instrument = p.now.instruments :=
        Finset.erase_eq_of_notMem hgone
      refine ⟨hcancelled, rfl, ?_⟩
      show p.now = p.now.without_instrument instrument
      rw [Resources.without_instrument, hsame]

/-- What the block of the task group leaves to the group: what the process
    holds, and the next name. -/
inductive GroupLeft (session : Session) (sidecar_instrument : Option Instrument) (group : Nat)
    (p : Process) : Resources → Nat → Prop where
  | no_eventfd (heventfd : session.eventfd ≠ .ok ⟨⟩) :
      GroupLeft session sidecar_instrument group p p.now p.next
  | no_dispatcher (heventfd : session.eventfd = .ok ⟨⟩) (hdispatches : ¬session.dispatches) :
      GroupLeft session sidecar_instrument group p (p.now.with_eventfd p.next) (p.next + 1)
  | yielded (heventfd : session.eventfd = .ok ⟨⟩) (hdispatches : session.dispatches) :
      GroupLeft session sidecar_instrument group p
        (((p.now.with_eventfd p.next).with_task ⟨p.next + 1, group⟩).unregister sidecar_instrument)
        (p.next + 2)

theorem wp_in_task_group {ring : Nat} (hring : ring ∈ p.now.rings) (world : World)
    (sidecar_instrument : Option Instrument) (force_submissions : Bool) (group : Nat) :
    (in_task_group session ring world sidecar_instrument force_submissions group).wp
      (fun _ p' => group ∈ p'.cancelled ∧
        GroupLeft session sidecar_instrument group p p'.now p'.next)
      (fun _ p' => GroupLeft session sidecar_instrument group p p'.now p'.next) p := by
  rw [in_task_group, wp_bind, wp_eventfd]
  refine ⟨?_, fun e he => .no_eventfd (by simp [he])⟩
  intro heventfd
  rw [wp_bind, register_eventfd, wp_bind, wp_get, wp_ite]
  refine ⟨fun _ => ?_, fun hclosed => absurd hring hclosed⟩
  rw [wp_answer]
  refine ⟨?_, fun e he => .no_dispatcher heventfd fun h => by cases he.symm.trans h.1⟩
  intro hregistered
  rw [wp_bind, wp_start_soon]
  refine ⟨?_, fun e he => .no_dispatcher heventfd fun h => by cases he.symm.trans h.2⟩
  intro hstarted
  rw [wp_try_finally]
  -- However the block under the session ends, the `finally` block runs.
  have hcleanup : ∀ p' : Process, p'.next = p.next + 2 ∧
      (p'.now = (p.now.with_eventfd p.next).with_task ⟨p.next + 1, group⟩ ∨
        p'.now = ((p.now.with_eventfd p.next).with_task ⟨p.next + 1, group⟩).unregister
          sidecar_instrument) →
      (finally_block sidecar_instrument group).Ends
        (fun p' => group ∈ p'.cancelled ∧
          GroupLeft session sidecar_instrument group p p'.now p'.next) p' := by
    intro p' hp'
    obtain ⟨hnext, hnow⟩ := hp'
    have hleft : GroupLeft session sidecar_instrument group p
        (p'.now.unregister sidecar_instrument) p'.next := by
      rw [hnext]
      rcases hnow with hnow | hnow
      · rw [hnow]
        exact .yielded heventfd ⟨hregistered, hstarted⟩
      · rw [hnow, Resources.unregister_twice]
        exact .yielded heventfd ⟨hregistered, hstarted⟩
    apply (finally_block_ends sidecar_instrument group).mono
    intro q hq
    obtain ⟨hcancelled, hqnext, hqnow⟩ := hq
    rw [hqnext, hqnow]
    exact ⟨hcancelled, hleft⟩
  refine wp_mono (yield_manager_ends sidecar_instrument _) ?_ ?_
  · intro _ p' hp'
    exact wp_mono (hcleanup p' hp') (fun _ _ h => h) (fun _ _ h => h.2)
  · intro _ p' hp'
    exact (hcleanup p' hp').mono fun _ h => h.2

end left

/-! ### The books of a process -/

/-- Every name is below `n`. -/
structure Resources.Below (r : Resources) (n : Nat) : Prop where
  rings : ∀ ring ∈ r.rings, ring < n
  eventfds : ∀ efd ∈ r.eventfds, efd < n
  instruments : ∀ instrument ∈ r.instruments, instrument.id < n
  tasks : ∀ task ∈ r.tasks, task.group < n

/-- Nothing has the next name yet. -/
def Process.Fresh (p : Process) : Prop := p.now.Below p.next

theorem Process.Fresh.ring_free {p : Process} (h : p.Fresh) : p.next ∉ p.now.rings :=
  fun hmem => Nat.lt_irrefl _ (h.rings _ hmem)

theorem fresh_initial_process : Process.initial.Fresh := by
  constructor <;> simp [Process.initial]

/-- Names stay below the next one if at most one is added. -/
theorem below_grown {α : Type} [DecidableEq α] {f : α → Nat} {s t : Finset α} {n m : Nat}
    (h : ∀ x ∈ s, f x < n) (hle : n ≤ m) (hgrown : t = s ∨ ∃ y, f y < m ∧ t = insert y s) :
    ∀ x ∈ t, f x < m := by
  intro x hx
  rcases hgrown with rfl | ⟨y, hy, rfl⟩
  · exact Nat.lt_of_lt_of_le (h x hx) hle
  · rcases Finset.mem_insert.mp hx with rfl | hx
    · exact hy
    · exact Nat.lt_of_lt_of_le (h x hx) hle

/-- What a session leaves behind: an eventfd if it opened one, and an instrument
    of its closed ring if it forgot one. -/
structure Leaves (session : Session) (p p' : Process) : Prop where
  fresh : p'.Fresh
  rings : p'.now.rings = p.now.rings
  tasks : p'.now.tasks = p.now.tasks
  eventfds : session.opens_eventfd ∧
      (∃ efd, efd ∉ p.now.eventfds ∧ p'.now.eventfds = insert efd p.now.eventfds) ∨
    ¬session.opens_eventfd ∧ p'.now.eventfds = p.now.eventfds
  instruments : session.forgets_instrument ∧ (∃ instrument, instrument ∉ p.now.instruments ∧
      instrument.ring ∉ p'.now.rings ∧
      p'.now.instruments = insert instrument p.now.instruments) ∨
    ¬session.forgets_instrument ∧ p'.now.instruments = p.now.instruments

/-- An instrument, if there is one, is registered. -/
def Resources.register (r : Resources) : Option Instrument → Resources
  | some instrument => r.with_instrument instrument
  | none => r

/-- A session that ends before its task group. -/
theorem Leaves.of_same {session : Session} {p p' : Process} (hp : p.Fresh)
    (henters : ¬session.enters_group) (hnow : p'.now = p.now) (hnext : p.next ≤ p'.next) :
    Leaves session p p' where
  fresh := by
    rw [Process.Fresh, hnow]
    exact ⟨below_grown hp.rings hnext (.inl rfl), below_grown hp.eventfds hnext (.inl rfl),
      below_grown hp.instruments hnext (.inl rfl), below_grown hp.tasks hnext (.inl rfl)⟩
  rings := by rw [hnow]
  tasks := by rw [hnow]
  eventfds := .inr ⟨fun h => henters h.1, by rw [hnow]⟩
  instruments := .inr ⟨fun h => henters h.2.1, by rw [hnow]⟩

section books

variable {session : Session} {p q p' : Process} {sidecar_instrument : Option Instrument}
         {group next : Nat} {r : Resources}

@[simp] theorem Resources.unregister_rings :
    (r.unregister sidecar_instrument).rings = r.rings := by
  cases sidecar_instrument <;> rfl

@[simp] theorem Resources.unregister_eventfds :
    (r.unregister sidecar_instrument).eventfds = r.eventfds := by
  cases sidecar_instrument <;> rfl

@[simp] theorem Resources.unregister_tasks :
    (r.unregister sidecar_instrument).tasks = r.tasks := by
  cases sidecar_instrument <;> rfl

@[simp] theorem Resources.register_rings :
    (r.register sidecar_instrument).rings = r.rings := by
  cases sidecar_instrument <;> rfl

@[simp] theorem Resources.register_eventfds :
    (r.register sidecar_instrument).eventfds = r.eventfds := by
  cases sidecar_instrument <;> rfl

@[simp] theorem Resources.register_tasks :
    (r.register sidecar_instrument).tasks = r.tasks := by
  cases sidecar_instrument <;> rfl

/-- The block of the task group, resource by resource. -/
structure GroupEffect (session : Session) (sidecar_instrument : Option Instrument) (group : Nat)
    (q : Process) (r : Resources) (next : Nat) : Prop where
  forward : q.next ≤ next
  rings : r.rings = q.now.rings
  tasks : (r.without_group group).tasks = (q.now.without_group group).tasks
  eventfds : session.eventfd = .ok ⟨⟩ ∧ q.next < next ∧
      r.eventfds = insert q.next q.now.eventfds ∨
    session.eventfd ≠ .ok ⟨⟩ ∧ r.eventfds = q.now.eventfds
  instruments : (session.eventfd = .ok ⟨⟩ ∧ session.dispatches) ∧
      r.instruments = (q.now.unregister sidecar_instrument).instruments ∨
    ¬(session.eventfd = .ok ⟨⟩ ∧ session.dispatches) ∧ r.instruments = q.now.instruments

theorem GroupLeft.effect (h : GroupLeft session sidecar_instrument group q r next) :
    GroupEffect session sidecar_instrument group q r next := by
  cases h with
  | no_eventfd heventfd =>
    exact ⟨Nat.le_refl _, rfl, rfl, .inr ⟨heventfd, rfl⟩, .inr ⟨fun h => heventfd h.1, rfl⟩⟩
  | no_dispatcher heventfd hdispatches =>
    exact ⟨Nat.le_succ _, rfl, rfl, .inl ⟨heventfd, Nat.lt_succ_self _, rfl⟩,
      .inr ⟨fun h => hdispatches h.2, rfl⟩⟩
  | yielded heventfd hdispatches =>
    refine ⟨Nat.le_add_right _ 2, by simp; rfl, ?_,
      .inl ⟨heventfd, Nat.lt_add_of_pos_right (by decide), by simp; rfl⟩,
      .inl ⟨⟨heventfd, hdispatches⟩, ?_⟩⟩
    · simp [Resources.without_group, Resources.with_task, Resources.with_eventfd,
        Finset.filter_insert]
    · cases sidecar_instrument <;> rfl

/-- `q` is where a session enters the block of its task group, if it was called
    in `p`. -/
structure Entered (session : Session) (sidecar_instrument : Option Instrument) (group : Nat)
    (p q : Process) : Prop where
  enters : session.enters_group
  lib : session.lib = .trio ↔ sidecar_instrument.isSome = true
  instrument : ∀ instrument ∈ sidecar_instrument,
    instrument.ring = p.next ∧ p.next ≤ instrument.id ∧ instrument.id < q.next
  group : p.next ≤ group ∧ group < q.next
  now : q.now = (p.now.with_ring p.next).register sidecar_instrument

section group

variable (hp : p.Fresh) (hq : Entered session sidecar_instrument group p q)
         (h : GroupEffect session sidecar_instrument group q r next)

include hp hq h

theorem GroupEffect.rings_released : r.rings.erase p.next = p.now.rings := by
  rw [h.rings, hq.now, Resources.register_rings]
  exact Finset.erase_insert hp.ring_free

theorem GroupEffect.tasks_ended : (r.without_group group).tasks = p.now.tasks := by
  rw [h.tasks, hq.now, Resources.without_group, Resources.register_tasks]
  apply Finset.filter_true_of_mem
  intro task htask
  have hlt := hp.tasks task htask
  have hgroup := hq.group
  omega

omit hp in
theorem GroupEffect.eventfds_left :
    session.opens_eventfd ∧ (∃ efd, p.next ≤ efd ∧ efd < next ∧
      r.eventfds = insert efd p.now.eventfds) ∨
    ¬session.opens_eventfd ∧ r.eventfds = p.now.eventfds := by
  have hsame : q.now.eventfds = p.now.eventfds := by
    rw [hq.now, Resources.register_eventfds]
    rfl
  have hgroup := hq.group
  rw [← hsame]
  rcases h.eventfds with ⟨hok, hlt, heq⟩ | ⟨hnot, heq⟩
  · exact .inl ⟨⟨hq.enters, hok⟩, q.next, by omega, hlt, heq⟩
  · exact .inr ⟨fun hopens => hnot hopens.2, heq⟩

theorem GroupEffect.instruments_left :
    session.forgets_instrument ∧ (∃ instrument ∈ sidecar_instrument,
      r.instruments = insert instrument p.now.instruments) ∨
    ¬session.forgets_instrument ∧ r.instruments = p.now.instruments := by
  cases sidecar_instrument with
  | none =>
    have hasyncio : ¬session.lib = .trio := by simpa using hq.lib
    refine .inr ⟨fun hforgets => hasyncio hforgets.1, ?_⟩
    have hsame : q.now.instruments = p.now.instruments := by
      rw [hq.now]
      rfl
    rcases h.instruments with ⟨-, heq⟩ | ⟨-, heq⟩
    · exact heq.trans hsame
    · exact heq.trans hsame
  | some instrument =>
    have hnew : instrument ∉ p.now.instruments := by
      intro hmem
      have hid := hq.instrument instrument rfl
      have hlt := hp.instruments _ hmem
      omega
    rcases h.instruments with ⟨hok, heq⟩ | ⟨hnot, heq⟩
    · refine .inr ⟨fun hforgets => hforgets.2.2 hok, ?_⟩
      rw [heq, hq.now]
      exact Finset.erase_insert hnew
    · refine .inl ⟨⟨hq.lib.mpr rfl, hq.enters, hnot⟩, instrument, rfl, ?_⟩
      rw [heq, hq.now]
      rfl

/-- Once the ring is closed and the tasks have ended, this is what a session
    that got as far as its task group leaves behind. -/
theorem GroupEffect.leaves (hnow : p'.now = (r.without_group group).without_ring p.next)
    (hnext : p'.next = next) : Leaves session p p' := by
  have hforward : p.next ≤ p'.next := by
    have hle := h.forward
    have hgroup := hq.group
    omega
  have hrings : p'.now.rings = p.now.rings := by
    rw [hnow]
    show r.rings.erase p.next = p.now.rings
    exact h.rings_released hp hq
  have htasks : p'.now.tasks = p.now.tasks := by
    rw [hnow]
    exact h.tasks_ended hp hq
  have heventfds := h.eventfds_left hq
  have hinstruments := h.instruments_left hp hq
  have hr : p'.now.eventfds = r.eventfds ∧ p'.now.instruments = r.instruments := by
    rw [hnow]
    exact ⟨rfl, rfl⟩
  rw [← hr.1, ← hnext] at heventfds
  rw [← hr.2] at hinstruments
  refine ⟨⟨?_, ?_, ?_, ?_⟩, hrings, htasks, ?_, ?_⟩
  · exact below_grown hp.rings hforward (.inl hrings)
  · apply below_grown (f := fun efd => efd) hp.eventfds hforward
    rcases heventfds with ⟨-, efd, -, hlt, heq⟩ | ⟨-, heq⟩
    · exact .inr ⟨efd, hlt, heq⟩
    · exact .inl heq
  · apply below_grown hp.instruments hforward
    rcases hinstruments with ⟨-, instrument, hmem, heq⟩ | ⟨-, heq⟩
    · have hid := hq.instrument instrument hmem
      have hle := h.forward
      exact .inr ⟨instrument, by omega, heq⟩
    · exact .inl heq
  · exact below_grown hp.tasks hforward (.inl htasks)
  · refine heventfds.imp_left fun hleft => ⟨hleft.1, ?_⟩
    obtain ⟨-, efd, hle, -, heq⟩ := hleft
    refine ⟨efd, fun hmem => ?_, heq⟩
    have hlt := hp.eventfds efd hmem
    omega
  · refine hinstruments.imp_left fun hleft => ⟨hleft.1, ?_⟩
    obtain ⟨-, instrument, hmem, heq⟩ := hleft
    have hid := hq.instrument instrument hmem
    refine ⟨instrument, fun hold => ?_, fun hopen => ?_, heq⟩
    · have hlt := hp.instruments _ hold
      omega
    · rw [hrings, hid.1] at hopen
      exact hp.ring_free hopen

end group

/-- The block of a ring, from where the task group is created. -/
theorem group_leaves {world : World} {force_submissions : Bool} (hp : p.Fresh)
    (hq : Entered session sidecar_instrument q.next p q.named) :
    (create_task_group
        (in_task_group session p.next world sidecar_instrument force_submissions)).Ends
      (fun p' => Leaves session p (p'.change (·.without_ring p.next))) q := by
  apply wp_create_task_group
  have hring : p.next ∈ q.named.now.rings := by
    rw [hq.now, Resources.register_rings]
    exact Finset.mem_insert_self _ _
  refine Fallible.wp_mono (wp_in_task_group hring world sidecar_instrument force_submissions _)
    ?_ ?_
  · intro _ p' hp'
    exact ⟨hp'.1, hp'.2.effect.leaves hp hq rfl rfl⟩
  · intro _ p' hp'
    exact hp'.effect.leaves hp hq rfl rfl

/-- What a session leaves behind, whatever happens in it. -/
theorem start_uring_sidecar_leaves (session : Session) (hp : p.Fresh) :
    Leaves session p (start_uring_sidecar session p).2 := by
  apply Fallible.wp_state (P := Leaves session p)
  rw [start_uring_sidecar, wp_with_io_ring]
  constructor
  · intro world hworld
    -- The ring is closed again, however the block ends.
    rw [in_io_ring]
    cases hlib : session.lib with
    | trio =>
      simp only
      rw [Fallible.wp_bind, wp_new_name, Fallible.wp_bind, add_instrument, Fallible.wp_bind,
        wp_answer]
      constructor
      · intro hadd
        rw [wp_change]
        refine group_leaves hp ⟨⟨⟨world, hworld⟩, fun _ => hadd⟩, by simp [hlib], ?_, ?_, rfl⟩
        · intro instrument hmem
          obtain rfl := Option.mem_some_iff.mp hmem
          exact ⟨rfl, Nat.le_succ p.next, Nat.lt_succ_of_lt (Nat.lt_succ_self (p.next + 1))⟩
        · exact ⟨Nat.le_add_right p.next 2, Nat.lt_succ_self _⟩
      · intro e he
        refine .of_same hp (fun h => ?_) (p.now.without_with_ring hp.ring_free)
          (Nat.le_add_right p.next 2)
        cases he.symm.trans (h.2 hlib)
    | asyncio =>
      refine group_leaves hp ⟨⟨⟨world, hworld⟩, by simp [hlib]⟩, by simp [hlib], nofun, ?_, rfl⟩
      exact ⟨Nat.le_succ p.next, Nat.lt_succ_self _⟩
  · intro e he
    refine .of_same hp (fun h => ?_) rfl (Nat.le_refl _)
    obtain ⟨⟨world, hworld⟩, -⟩ := h
    cases he.symm.trans hworld

end books

/-! ### Instruments of closed rings -/

/-- No instrument has referred to a closed ring so far. -/
structure Process.Sound (p : Process) : Prop where
  now : ¬p.now.dangling
  history : ∀ r ∈ p.history, ¬r.dangling

theorem sound_initial_process : Process.initial.Sound := by
  constructor <;> simp [Process.initial, Resources.dangling]

section sound

open Fallible

variable {p : Process} {session : Session}

theorem Process.Sound.change (h : p.Sound) {f : Resources → Resources}
    (hf : ¬(f p.now).dangling) : (p.change f).Sound := by
  refine ⟨hf, ?_⟩
  intro r hr
  rcases List.mem_append.mp hr with hr | hr
  · exact h.history r hr
  · rwa [List.mem_singleton.mp hr]

/-- A change that closes no ring and registers no instrument. -/
theorem keeps_sound {f : Resources → Resources}
    (hf : ∀ r, (f r).instruments ⊆ r.instruments ∧ r.rings ⊆ (f r).rings) :
    (change f).Keeps Process.Sound := by
  apply Keeps.modify
  intro p hp
  apply hp.change
  intro hdangling
  obtain ⟨instrument, hmem, hclosed⟩ := hdangling
  obtain ⟨hinstruments, hrings⟩ := hf p.now
  exact hp.now ⟨instrument, hinstruments hmem, fun hopen => hclosed (hrings hopen)⟩

theorem keeps_sound_new_name : new_name.Keeps Process.Sound :=
  fun _ hp => wp_new_name.mpr ⟨hp.now, hp.history⟩

theorem keeps_sound_cancel (group : Nat) : (cancel group).Keeps Process.Sound :=
  fun _ hp => (wp_cancel group).mpr ⟨hp.now, hp.history⟩

theorem keeps_sound_without_instrument (instrument : Instrument) :
    (change (·.without_instrument instrument)).Keeps Process.Sound :=
  keeps_sound fun r => ⟨Finset.erase_subset _ _, Finset.Subset.refl r.rings⟩

theorem keeps_sound_remove_instrument (instrument : Instrument) :
    (remove_instrument instrument).Keeps Process.Sound := by
  intro p hp
  rw [wp_remove_instrument]
  exact ⟨fun _ => (wp_change _).mp (keeps_sound_without_instrument instrument p hp), fun _ => hp⟩

theorem keeps_sound_finally_block (sidecar_instrument : Option Instrument) (group : Nat) :
    (finally_block sidecar_instrument group).Keeps Process.Sound := by
  apply (keeps_sound_cancel group).bind
  intro _
  cases sidecar_instrument with
  | none => exact .pure _
  | some instrument => exact keeps_sound_remove_instrument instrument

theorem keeps_sound_yield_manager (sidecar_instrument : Option Instrument)
    (manager : SidecarManager) :
    (yield_manager session sidecar_instrument manager).Keeps Process.Sound := by
  cases sidecar_instrument with
  | none => exact .check _
  | some instrument =>
    have hhook : (before_io_wait session.hook_raises instrument).Keeps Process.Sound :=
      .ite (keeps_sound_without_instrument instrument) (.pure _)
    exact hhook.bind fun _ => .check _

theorem keeps_sound_in_task_group (ring : Nat) (world : World)
    (sidecar_instrument : Option Instrument) (force_submissions : Bool) (group : Nat) :
    (in_task_group session ring world sidecar_instrument force_submissions group).Keeps
      Process.Sound := by
  have heventfd : (eventfd session.eventfd).Keeps Process.Sound := by
    refine (Keeps.check _).bind fun _ => keeps_sound_new_name.bind fun efd => ?_
    have hchange : (change (·.with_eventfd efd)).Keeps Process.Sound :=
      keeps_sound fun r => ⟨Finset.Subset.refl _, Finset.Subset.refl _⟩
    exact hchange.bind fun _ => .pure _
  have hregister : (register_eventfd session.register_eventfd ring).Keeps Process.Sound := by
    intro p hp
    rw [register_eventfd, wp_bind, wp_get, wp_ite]
    exact ⟨fun _ => Keeps.check _ p hp, fun _ => Keeps.throw _ p hp⟩
  have hstart : (start_soon session.start_soon group).Keeps Process.Sound := by
    refine (Keeps.check _).bind fun _ => keeps_sound_new_name.bind fun id => ?_
    exact keeps_sound fun r => ⟨Finset.Subset.refl _, Finset.Subset.refl _⟩
  refine heventfd.bind fun efd => hregister.bind fun _ => hstart.bind fun _ => ?_
  exact (keeps_sound_yield_manager sidecar_instrument _).try_finally
    (keeps_sound_finally_block sidecar_instrument group)

theorem keeps_sound_create_task_group {block : Nat → SidecarM PUnit}
    (hblock : ∀ group, (block group).Keeps Process.Sound) :
    (create_task_group block).Keeps Process.Sound := by
  have hwait : ∀ group, (wait_for_tasks group).Keeps Process.Sound := by
    intro group p hp
    rw [wait_for_tasks, wp_bind, wp_get, wp_ite]
    have hchange : (change (·.without_group group)).Keeps Process.Sound :=
      keeps_sound fun r => ⟨Finset.Subset.refl _, Finset.Subset.refl _⟩
    exact ⟨fun _ => hchange p hp, fun _ => Keeps.pure _ p hp⟩
  refine keeps_sound_new_name.bind fun group => .bind ?_ fun _ => hwait group
  refine (hblock group).tryCatch fun e => ?_
  exact (keeps_sound_cancel group).bind fun _ => (hwait group).bind fun _ => .throw e

/-- While the ring is open, its instrument is no matter. -/
theorem sound_in_io_ring {ring : Nat} (hring : ring ∈ p.now.rings) (world : World)
    (hp : p.Sound) :
    (in_io_ring session ring world).Ends Process.Sound p := by
  have hgroup : ∀ sidecar_instrument force_submissions, (create_task_group
      (in_task_group session ring world sidecar_instrument force_submissions)).Keeps
        Process.Sound :=
    fun _ _ => keeps_sound_create_task_group fun group =>
      keeps_sound_in_task_group ring world _ _ group
  rw [Ends, in_io_ring]
  cases session.lib with
  | asyncio => exact hgroup none true p hp
  | trio =>
    simp only
    rw [wp_bind, wp_new_name, wp_bind, add_instrument, wp_bind, wp_answer]
    have hnamed : p.named.Sound := ⟨hp.now, hp.history⟩
    refine ⟨fun _ => ?_, fun _ _ => hnamed⟩
    rw [wp_change]
    refine hgroup _ _ _ (hnamed.change ?_)
    intro hdangling
    obtain ⟨instrument, hmem, hclosed⟩ := hdangling
    rcases Finset.mem_insert.mp hmem with rfl | hmem
    · exact hclosed hring
    · exact hp.now ⟨instrument, hmem, hclosed⟩

/-- An instrument refers to a closed ring, at some moment, exactly if the session
    forgets it. -/
theorem start_uring_sidecar_sound_iff (hfresh : p.Fresh) (hp : p.Sound) :
    (start_uring_sidecar session p).2.Sound ↔ ¬session.forgets_instrument := by
  have hleaves := start_uring_sidecar_leaves session hfresh
  -- At every moment but the last, all instruments refer to open rings.
  have hbefore : ∀ r ∈ (start_uring_sidecar session p).2.history,
      r = (start_uring_sidecar session p).2.now ∨ ¬r.dangling := by
    apply wp_state (P := fun p' : Process => ∀ r ∈ p'.history, r = p'.now ∨ ¬r.dangling)
    rw [start_uring_sidecar, wp_with_io_ring]
    refine ⟨fun world _ => ?_, fun _ _ r hr => .inr (hp.history r hr)⟩
    have hopened : (p.named.change (·.with_ring p.next)).Sound := by
      have hnamed : p.named.Sound := ⟨hp.now, hp.history⟩
      have hkeeps := keeps_sound (f := (·.with_ring p.next))
        (fun r => ⟨Finset.Subset.refl _, Finset.subset_insert _ _⟩) p.named hnamed
      exact (wp_change _).mp hkeeps
    have hclosing : ∀ p' : Process, p'.Sound →
        ∀ r ∈ (p'.change (·.without_ring p.next)).history,
          r = (p'.change (·.without_ring p.next)).now ∨ ¬r.dangling := by
      intro p' hp' r hr
      rcases List.mem_append.mp hr with hr | hr
      · exact .inr (hp'.history r hr)
      · exact .inl (List.mem_singleton.mp hr)
    exact (sound_in_io_ring (Finset.mem_insert_self _ _) world hopened).mono hclosing
  rcases hleaves.instruments with ⟨hforgets, instrument, -, hclosed, heq⟩ | ⟨hnot, heq⟩
  · refine iff_of_false (fun hsound => hsound.now ⟨instrument, ?_, hclosed⟩) (not_not.mpr hforgets)
    rw [heq]
    exact Finset.mem_insert_self _ _
  · refine iff_of_true ?_ hnot
    have hnow : ¬(start_uring_sidecar session p).2.now.dangling := by
      rw [Resources.dangling, heq, hleaves.rings]
      exact hp.now
    refine ⟨hnow, fun r hr => ?_⟩
    rcases hbefore r hr with rfl | hr
    · exact hnow
    · exact hr

end sound

/-! ### Any number of sessions -/

/-- The session ends before it has opened an eventfd or added an instrument. -/
def Session.fails_early (session : Session) : Prop :=
  (∃ e, sidecar_ring session.host session.args = .error e) ∨
    (session.lib = .trio ∧ ∃ e, session.add_instrument = .error e) ∨
    (session.lib = .asyncio ∧ ∃ e, session.eventfd = .error e)

/-- Those are the sessions that leave nothing behind. -/
theorem Session.fails_early_iff (session : Session) :
    session.fails_early ↔ ¬session.opens_eventfd ∧ ¬session.forgets_instrument := by
  constructor
  · intro hfails
    rcases hfails with ⟨e, he⟩ | ⟨hlib, e, he⟩ | ⟨hlib, e, he⟩
    · have hnot : ¬session.enters_group := by
        intro henters
        obtain ⟨⟨world, hworld⟩, -⟩ := henters
        cases he.symm.trans hworld
      exact ⟨fun h => hnot h.1, fun h => hnot h.2.1⟩
    · have hnot : ¬session.enters_group := fun henters => by cases he.symm.trans (henters.2 hlib)
      exact ⟨fun h => hnot h.1, fun h => hnot h.2.1⟩
    · exact ⟨fun h => (nomatch he.symm.trans h.2), fun h => (nomatch hlib.symm.trans h.1)⟩
  · intro hnothing
    obtain ⟨hopens, hforgets⟩ := hnothing
    cases hring : sidecar_ring session.host session.args with
    | error e => exact .inl ⟨e, hring⟩
    | ok world =>
      cases hlib : session.lib with
      | trio =>
        cases hadd : session.add_instrument with
        | error e => exact .inr (.inl ⟨hlib, e, hadd⟩)
        | ok =>
          -- The instrument is added, so it is removed again or forgotten.
          have henters : session.enters_group := ⟨⟨world, hring⟩, fun _ => hadd⟩
          exact absurd ⟨hlib, henters, fun h => hopens ⟨henters, h.1⟩⟩ hforgets
      | asyncio =>
        have henters : session.enters_group := ⟨⟨world, hring⟩, fun h => by cases hlib.symm.trans h⟩
        cases hefd : session.eventfd with
        | error e => exact .inr (.inr ⟨hlib, e, hefd⟩)
        | ok => exact absurd ⟨henters, hefd⟩ hopens

/-- Sessions one after the other, in a process that keeps its books. -/
def sidecar_system : System Process Session where
  init := fun p => p.Fresh ∧ p.Sound
  step := fun p session p' => p' = (start_uring_sidecar session p).2

/-- A session leaves everything as it was exactly if it fails early. -/
theorem Leaves.now_iff {session : Session} {p p' : Process} (h : Leaves session p p') :
    p'.now = p.now ↔ session.fails_early := by
  rw [session.fails_early_iff]
  constructor
  · intro hnow
    refine ⟨fun hopens => ?_, fun hforgets => ?_⟩
    · obtain ⟨-, efd, hnew, heq⟩ := h.eventfds.resolve_right fun hnot => hnot.1 hopens
      rw [hnow] at heq
      rw [heq] at hnew
      exact hnew (Finset.mem_insert_self _ _)
    · obtain ⟨-, instrument, hnew, -, heq⟩ :=
        h.instruments.resolve_right fun hnot => hnot.1 hforgets
      rw [hnow] at heq
      rw [heq] at hnew
      exact hnew (Finset.mem_insert_self _ _)
  · intro hnothing
    have heventfds := (h.eventfds.resolve_left fun hleft => hnothing.1 hleft.1).2
    have hinstruments := (h.instruments.resolve_left fun hleft => hnothing.2 hleft.1).2
    exact Resources.ext h.rings heventfds hinstruments h.tasks

/-- **What sessions leave behind**: they release everything they acquire, and no
    instrument ever refers to a closed ring, exactly if each of them fails
    before it has opened an eventfd or added an instrument. -/
theorem sessions_release_iff {p p' : Process} {tr : List (Step Process Session)}
    (hinit : sidecar_system.init p) (h : Path sidecar_system p tr p') :
    ((∀ t ∈ tr, t.dst.now = t.src.now) ∧ ∀ r ∈ p'.history, ¬r.dangling) ↔
      ∀ t ∈ tr, t.label.fails_early := by
  -- No two things ever have the same name.
  have hleaves : ∀ t ∈ tr, Leaves t.label t.src t.dst := by
    intro t ht
    obtain ⟨front, back, rfl⟩ := List.append_of_mem ht
    have hfresh : t.src.Fresh := by
      apply h.to_src.invariant (I := Process.Fresh) _ hinit.1
      intro q session q' hq hstep
      obtain rfl := hstep
      exact (start_uring_sidecar_leaves session hq).fresh
    have hstep : t.dst = (start_uring_sidecar t.label t.src).2 := h.step_of_mem ht
    rw [hstep]
    exact start_uring_sidecar_leaves t.label hfresh
  constructor
  · intro hreleased t ht
    exact (hleaves t ht).now_iff.mp (hreleased.1 t ht)
  · intro hfails
    refine ⟨fun t ht => (hleaves t ht).now_iff.mpr (hfails t ht), ?_⟩
    have hsound := h.invariant_along (I := fun q => q.Fresh ∧ q.Sound)
      (C := fun _ session => session.fails_early) ?_ hfails ⟨hinit.1, hinit.2⟩
    · exact hsound.2.history
    · intro q session q' hq hfails hstep
      obtain ⟨hfresh, hq⟩ := hq
      obtain rfl := hstep
      have hforgets := (session.fails_early_iff.mp hfails).2
      exact ⟨(start_uring_sidecar_leaves session hfresh).fresh,
        (start_uring_sidecar_sound_iff hfresh hq).mpr hforgets⟩

/-- A session with the default arguments in which nothing fails. -/
def Session.clean (lib : AsyncLibrary) : Session where
  lib := lib
  args := .default
  host := linux
  add_instrument := .ok ⟨⟩
  eventfd := .ok ⟨⟩
  register_eventfd := .ok ⟨⟩
  start_soon := .ok ⟨⟩
  body := fun _ => .ok ⟨⟩
  hook_raises := false

/-- Two sessions for which there are no more eventfds, under asyncio. -/
theorem sessions_release_two :
    let session : Session :=
      { Session.clean .asyncio with eventfd := .error (.py (.os_error 24)) }
    let p := (start_uring_sidecar session .initial).2
    let p' := (start_uring_sidecar session p).2
    p.now = Process.initial.now ∧ p'.now = p.now ∧ ∀ r ∈ p'.history, ¬r.dangling := by
  intro session p p'
  have hpath : Path sidecar_system .initial [⟨.initial, session, p⟩, ⟨p, session, p'⟩] p' :=
    .cons rfl (.single rfl)
  have hfails : session.fails_early := .inr (.inr ⟨rfl, _, rfl⟩)
  have hreleased := (sessions_release_iff ⟨fresh_initial_process, sound_initial_process⟩
    hpath).mpr (by simp [hfails])
  simpa [and_assoc] using hreleased

/-- A session in which nothing fails leaves its eventfd open. If there are no more
    eventfds, a session under trio leaves its instrument behind. -/
theorem sessions_leak :
    (start_uring_sidecar (.clean .asyncio) .initial).1 = .ok ⟨⟩ ∧
      (start_uring_sidecar (.clean .asyncio) .initial).2.now ≠ Process.initial.now ∧
      (start_uring_sidecar { Session.clean .trio with eventfd := .error (.py (.os_error 24)) }
        .initial).2.now.dangling := by
  decide

end CenturyRing
