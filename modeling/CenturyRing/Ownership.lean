import CenturyRing.Queue
import Mathlib.Data.List.Pairwise

/-! # Owned memory

  While an operation is under way, the memory it points into stays where it
  is: `owned_data` holds it under the user data of the operation.

  The invariant is a ledger of the run so far. It ties together the counter,
  the entries that were pushed, the operations that are under way or were
  reaped, and the map of owned memory.
-/

open LTS

namespace CenturyRing

/-! ### What an operation needs -/

/-- `entry.backed_by owned`: what is owned under its key is what `entry` points
    into. An entry that points nowhere needs its key to be free. -/
def Entry.backed_by (entry : Entry) (owned : Option OwnedData) : Prop :=
  match entry.op.pointer with
  | none => owned = none
  | some _ => ∃ data, owned = some data ∧ data.backs entry.op

theorem Prepared.backed_by {entry : Entry} {owned : Option OwnedData}
    (h : Prepared entry owned) : entry.backed_by owned := by
  unfold Entry.backed_by
  cases howned : owned with
  | none => rw [h.unowned howned]
  | some data =>
    have hbacks := h.backed data howned
    obtain ⟨ptr, hptr⟩ := Option.isSome_iff_exists.mp (OwnedData.backs_pointer hbacks)
    rw [hptr]
    exact ⟨data, rfl, hbacks⟩

/-- `SameData owned owned'`: the same memory is owned, if any; the bytes in it
    may differ. -/
def SameData (owned owned' : Option OwnedData) : Prop :=
  ∃ f : OwnedData → OwnedData, (∀ data op, (f data).backs op ↔ data.backs op) ∧
    owned' = owned.map f

theorem SameData.refl (owned : Option OwnedData) : SameData owned owned :=
  ⟨id, fun _ _ => Iff.rfl, by simp⟩

theorem World.SameMemory.sameData {w w' : World} (h : w.SameMemory w') (key : UInt64) :
    SameData (w.ring.owned_data key) (w'.ring.owned_data key) := by
  obtain ⟨f, hf, hkeys⟩ := h
  exact ⟨f, hf, hkeys key⟩

theorem SameData.eq_none_iff {owned owned' : Option OwnedData} (h : SameData owned owned') :
    owned' = none ↔ owned = none := by
  obtain ⟨f, -, rfl⟩ := h
  exact Option.map_eq_none_iff

theorem SameData.backed_by {owned owned' : Option OwnedData} (h : SameData owned owned')
    {entry : Entry} (hentry : entry.backed_by owned) : entry.backed_by owned' := by
  obtain ⟨f, hf, rfl⟩ := h
  unfold Entry.backed_by at hentry ⊢
  split at hentry
  · rw [hentry]
    rfl
  · obtain ⟨data, rfl, hbacks⟩ := hentry
    exact ⟨f data, rfl, (hf data entry.op).mpr hbacks⟩

/-! ### What a step does to the ledger -/

section effect

variable {C : World → KernelEvent → Prop} {w w' : World} {es : List Entry} {cqes : List Cqe}

/-- The counter moves by one or not at all. -/
theorem Effect.counter (h : Effect C w es cqes w') :
    w'.ring.user_data_counter = w.ring.user_data_counter ∨
      w'.ring.user_data_counter = w.ring.user_data_counter + 1 := by
  cases h with
  | quiet hquiet hcounter => exact hcounter
  | @queued entry owned w₁ hquiet hcounter huser_data hfresh hprepared hroom =>
    right
    rw [World.own_counter, (w₁.push_sameProcess entry).user_data_counter, hcounter]
  | @timer frame timespec w₁ w' hquiet hcounter hroom hquiet' hcounter' =>
    exact .inl (hcounter'.trans hcounter)
  | reaped bursts hopen hmeets => exact .inl (World.drain_sameProcess bursts w).user_data_counter
  | closed => exact .inl rfl
  | kernel ev hmeets => exact .inl (w.kernel_step_sameProcess ev).user_data_counter

/-- Memory is never handed out twice. -/
theorem Effect.blocks (h : Effect C w es cqes w') : w.blocks ≤ w'.blocks := by
  cases h with
  | quiet hquiet hcounter => exact hquiet.blocks
  | @queued entry owned w₁ hquiet hcounter huser_data hfresh hprepared hroom =>
    rw [World.own_blocks, (w₁.push_sameProcess entry).blocks]
    exact hquiet.blocks
  | @timer frame timespec w₁ w' hquiet hcounter hroom hquiet' hcounter' =>
    have hpush := (w₁.push_sameProcess (timeout_entry frame timespec)).blocks
    exact Nat.le_trans hquiet.blocks (Nat.le_trans (Nat.le_of_eq hpush.symm) hquiet'.blocks)
  | reaped bursts hopen hmeets => exact Nat.le_of_eq (World.drain_sameProcess bursts w).blocks.symm
  | closed => exact Nat.le_refl _
  | kernel ev hmeets => exact Nat.le_of_eq (w.kernel_step_sameProcess ev).blocks.symm

/-- What is known of an entry when it is pushed. -/
structure Fresh (w w' : World) (entry : Entry) : Prop where
  timer : entry.op.is_timeout = true → entry.user_data = TIMEOUT_USER_DATA
  call : entry.op.is_timeout = false → entry.user_data = w.ring.user_data_counter ∧
    w'.ring.user_data_counter = w.ring.user_data_counter + 1
  pointer : ∀ ptr, entry.op.pointer = some ptr → w.blocks ≤ ptr ∧ ptr < w'.blocks

/-- A step pushes one entry at most, and that entry is new. -/
theorem Effect.pushed (h : Effect C w es cqes w') :
    es = [] ∨ ∃ entry, es = [entry] ∧ Fresh w w' entry := by
  cases h with
  | @queued entry owned w₁ hquiet hcounter huser_data hfresh hprepared hroom =>
    have hpush := w₁.push_sameProcess entry
    refine .inr ⟨entry, rfl, ?_, fun _ => ⟨huser_data, ?_⟩, ?_⟩
    · intro htimer
      rw [hprepared.not_timeout] at htimer
      cases htimer
    · rw [World.own_counter, hpush.user_data_counter, hcounter]
    · intro ptr hptr
      rw [World.own_blocks, hpush.blocks]
      exact hfresh ptr hptr
  | timer hquiet hcounter hroom hquiet' hcounter' =>
    exact .inr ⟨_, rfl, fun _ => rfl, nofun, nofun⟩
  | quiet | reaped | closed | kernel => exact .inl rfl

/-- **Conservation**: what was under way, and what was pushed, is under way, was
    reaped or was dropped by the kernel. -/
theorem Effect.live {D : Entry → Prop} (hdrops : World.Drops C D) (h : Effect C w es cqes w') :
    ∃ lost : List Entry, (w'.is_open = true → ∀ entry ∈ lost, D entry) ∧
      (w.live ++ es).Perm (w'.live ++ cqes.map (·.origin) ++ lost) := by
  cases h with
  | quiet hquiet hcounter => exact ⟨[], by simp, by simpa using hquiet.live⟩
  | @queued entry owned w₁ hquiet hcounter huser_data hfresh hprepared hroom =>
    have hpush := World.push_live hroom entry
    exact ⟨[], by simp, by simpa using (hquiet.live.append_right _).trans hpush⟩
  | @timer frame timespec w₁ w' hquiet hcounter hroom hquiet' hcounter' =>
    have hpush := World.push_live hroom (timeout_entry frame timespec)
    have hlive := ((hquiet.live.append_right _).trans hpush).trans hquiet'.live
    exact ⟨[], by simp, by simpa using hlive⟩
  | reaped bursts hopen hmeets =>
    obtain ⟨lost, hlost, hperm⟩ := World.drain_live hdrops hopen hmeets
    rw [List.append_nil]
    exact ⟨lost, fun _ => hlost, hperm⟩
  | closed =>
    -- Closing forgets both queues; what is running goes on.
    refine ⟨w.pending ++ w.unreaped.map (·.origin), nofun, ?_⟩
    apply List.perm_iff_count.mpr
    intro entry
    simp only [World.live, World.pending, World.running, World.unreaped, List.count_append,
      List.map_nil, List.count_nil]
    omega
  | kernel ev hmeets =>
    refine ⟨w.dropped ev, ?_, by simpa using w.kernel_step_live ev⟩
    intro hopen
    rw [(w.kernel_step_sameProcess ev).is_open] at hopen
    exact hdrops w ev hopen hmeets

/-- What is owned under a key that a step neither pushes nor reaps stays. -/
theorem Effect.kept (h : Effect C w es cqes w') {key : UInt64}
    (hpushed : ∀ entry ∈ es, entry.user_data ≠ key)
    (hreaped : ∀ cqe ∈ cqes, cqe.user_data ≠ key) :
    SameData (w.ring.owned_data key) (w'.ring.owned_data key) := by
  cases h with
  | quiet hquiet hcounter =>
    rw [hquiet.owned_data]
    exact .refl _
  | @queued entry owned w₁ hquiet hcounter huser_data hfresh hprepared hroom =>
    have hkey := hpushed entry (List.mem_singleton_self _)
    rw [World.own_owned_data, if_neg hkey.symm, World.push_owned_data, hquiet.owned_data]
    exact .refl _
  | timer hquiet hcounter hroom hquiet' hcounter' =>
    rw [hquiet'.owned_data, World.push_owned_data, hquiet.owned_data]
    exact .refl _
  | reaped bursts hopen hmeets =>
    -- Reaping takes only the keys of completions.
    have hmem : key ∉ (World.drain bursts w).1.map (·.user_data) := by
      intro hmem
      obtain ⟨cqe, hcqe, hkey⟩ := List.mem_map.mp hmem
      exact hreaped cqe hcqe hkey
    show SameData _ ((complete_entries _ _).2 key)
    rw [complete_entries_owned_data, if_neg hmem]
    exact (World.drain_sameMemory bursts w).sameData key
  | closed => exact .refl _
  | kernel ev hmeets => exact (w.kernel_step_sameMemory ev).sameData key

/-- A call whose key is free hands over what its entry points into. -/
theorem Effect.handed {entry : Entry} (h : Effect C w [entry] cqes w')
    (hcall : entry.op.is_timeout = false) (hfree : w.ring.owned_data entry.user_data = none) :
    entry.backed_by (w'.ring.owned_data entry.user_data) := by
  cases h with
  | queued hquiet hcounter huser_data hfresh hprepared hroom =>
    rw [World.own_owned_data, if_pos rfl, World.push_owned_data, hquiet.owned_data, hfree,
      Option.orElse_eq_orElse, Option.orElse_eq_or, Option.or_none]
    exact hprepared.backed_by
  | timer => cases hcall

/-- An operation that owns memory and must have a completion. -/
structure Entry.Accountable (entry : Entry) : Prop where
  pointer : entry.op.pointer ≠ none
  completes : entry.flags.contains .SKIP_SUCCESS = false

theorem Prepared.accountable {entry : Entry} {data : OwnedData}
    (h : Prepared entry (some data)) : entry.Accountable where
  pointer := Option.isSome_iff_ne_none.mp (OwnedData.backs_pointer (h.backed data rfl))
  completes := h.completes rfl

/-- A key that is owned was owned before and is not reaped, or a call has just
    taken it. -/
theorem Effect.owned (h : Effect C w es cqes w') {key : UInt64}
    (hkey : w'.ring.owned_data key ≠ none) :
    (w.ring.owned_data key ≠ none ∧ ∀ cqe ∈ cqes, cqe.user_data ≠ key) ∨
      ∃ entry, es = [entry] ∧ cqes = [] ∧ entry.user_data = key ∧ entry.Accountable := by
  cases h with
  | quiet hquiet hcounter =>
    rw [hquiet.owned_data] at hkey
    exact .inl ⟨hkey, by simp⟩
  | @queued entry owned w₁ hquiet hcounter huser_data hfresh hprepared hroom =>
    rw [World.own_owned_data, World.push_owned_data, hquiet.owned_data] at hkey
    -- Either the call has just taken the key, or it was owned before.
    split at hkey
    · next heq =>
      cases owned with
      | none => exact .inl ⟨hkey, by simp⟩
      | some data => exact .inr ⟨entry, rfl, rfl, heq.symm, hprepared.accountable⟩
    · exact .inl ⟨hkey, by simp⟩
  | timer hquiet hcounter hroom hquiet' hcounter' =>
    rw [hquiet'.owned_data, World.push_owned_data, hquiet.owned_data] at hkey
    exact .inl ⟨hkey, by simp⟩
  | reaped bursts hopen hmeets =>
    change (complete_entries _ _).2 key ≠ none at hkey
    rw [complete_entries_owned_data] at hkey
    split at hkey
    · exact absurd rfl hkey
    · next hmem =>
      have hsame := ((World.drain_sameMemory bursts w).sameData key).eq_none_iff
      refine .inl ⟨fun hnone => hkey (hsame.mpr hnone), ?_⟩
      intro cqe hcqe hcqe_key
      exact hmem (List.mem_map.mpr ⟨cqe, hcqe, hcqe_key⟩)
  | closed => exact .inl ⟨hkey, by simp⟩
  | kernel ev hmeets =>
    have hsame := ((w.kernel_step_sameMemory ev).sameData key).eq_none_iff
    exact .inl ⟨fun hnone => hkey (hsame.mpr hnone), by simp⟩

end effect

/-! ### The ledger of a run -/

/-- Two entries that no one can mix up: they share their user data only if both
    are timeouts, and they never point into the same memory. -/
def ToldApart (entry entry' : Entry) : Prop :=
  (entry.user_data = entry'.user_data →
    entry.op.is_timeout = true ∧ entry'.op.is_timeout = true) ∧
  ∀ ptr, entry.op.pointer = some ptr → entry'.op.pointer ≠ some ptr

theorem ToldApart.symm {entry entry' : Entry} (h : ToldApart entry entry') :
    ToldApart entry' entry :=
  ⟨fun heq => (h.1 heq.symm).symm, fun ptr hptr hptr' => h.2 ptr hptr' hptr⟩

instance : Std.Symm ToldApart := ⟨fun _ _ => ToldApart.symm⟩

/-- The books of a run that led to `w`. -/
structure Ledger (tr : RingTrace) (w : World) : Prop where
  /-- The counter counts the user data values used up. -/
  counter : w.ring.user_data_counter.toNat = allocations tr
  timers : ∀ entry ∈ pushed tr, entry.op.is_timeout = true → entry.user_data = TIMEOUT_USER_DATA
  calls : ∀ entry ∈ pushed tr, entry.op.is_timeout = false →
    entry.user_data.toNat < w.ring.user_data_counter.toNat
  below : ∀ entry ∈ pushed tr, ∀ ptr, entry.op.pointer = some ptr → ptr < w.blocks
  apart : (pushed tr).Pairwise ToldApart
  /-- Every entry pushed is under way, was reaped or was dropped. -/
  conserved : ∃ lost, (pushed tr).Perm (w.live ++ (reaped tr).map (·.origin) ++ lost)
  /-- What an entry points into is owned until its completion is reaped. -/
  backed : ∀ entry ∈ pushed tr, (∀ cqe ∈ reaped tr, cqe.origin ≠ entry) →
    entry.backed_by (w.ring.owned_data entry.user_data)
  keys : ∀ key, w.ring.owned_data key ≠ none → key.toNat < w.ring.user_data_counter.toNat

theorem Blank.ledger {w : World} (h : Blank w) : Ledger [] w where
  counter := by rw [h.user_data_counter]; rfl
  timers := by simp [pushed]
  calls := by simp [pushed]
  below := by simp [pushed]
  apart := .nil
  conserved := ⟨[], by simp [pushed, reaped, h.live]⟩
  backed := by simp [pushed]
  keys := by simp [h.owned_data]

namespace Ledger

variable {tr : RingTrace} {w : World}

/-- What is under way, or was reaped, was pushed. -/
theorem pushed_of_live (h : Ledger tr w) {entry : Entry} (hentry : entry ∈ w.live) :
    entry ∈ pushed tr := by
  obtain ⟨lost, hperm⟩ := h.conserved
  exact hperm.mem_iff.mpr (by simp [hentry])

theorem pushed_of_reaped (h : Ledger tr w) {cqe : Cqe} (hcqe : cqe ∈ reaped tr) :
    cqe.origin ∈ pushed tr := by
  obtain ⟨lost, hperm⟩ := h.conserved
  have hmem : cqe.origin ∈ (reaped tr).map (·.origin) := List.mem_map_of_mem hcqe
  exact hperm.mem_iff.mpr (by simp only [List.mem_append, hmem, or_true, true_or])

/-- Below `2 ^ 63` no call uses the user data of the timeouts. -/
theorem timeout_free (h : Ledger tr w) (hbound : allocations tr < 2 ^ 63) :
    w.ring.owned_data TIMEOUT_USER_DATA = none := by
  by_contra howned
  have hlt := h.keys TIMEOUT_USER_DATA howned
  rw [h.counter] at hlt
  have htimeout : TIMEOUT_USER_DATA.toNat = 18446744073709551360 := rfl
  omega

/-- What was pushed before and what is new are told apart. -/
theorem fresh_apart (h : Ledger tr w) (hbound : allocations tr < 2 ^ 63) {w' : World}
    {old entry : Entry} (hold : old ∈ pushed tr) (hfresh : Fresh w w' entry) :
    ToldApart old entry := by
  have htimeout : TIMEOUT_USER_DATA.toNat = 18446744073709551360 := rfl
  have hcounter := h.counter
  constructor
  · intro heq
    -- A timeout is numbered beyond the counter, a call below it or with it.
    cases htimer : old.op.is_timeout with
    | true =>
      refine ⟨rfl, ?_⟩
      by_contra hcall
      have hnew := (hfresh.call (by simpa using hcall)).1
      rw [← heq, h.timers old hold htimer] at hnew
      rw [← hnew] at hcounter
      omega
    | false =>
      have hlt := h.calls old hold htimer
      cases htimer' : entry.op.is_timeout with
      | true =>
        rw [heq, hfresh.timer htimer'] at hlt
        omega
      | false =>
        rw [heq, (hfresh.call htimer').1] at hlt
        omega
  · intro ptr hptr hptr'
    have hlt := h.below old hold ptr hptr
    have hle := (hfresh.pointer ptr hptr').1
    exact Nat.not_le.mpr hlt hle

end Ledger

/-! ### The ledger is kept -/

section step

variable {tr : RingTrace} {t : Step PyState RingLabel}

/-- The ring effect of a step of a run. -/
theorem step_effect (hstep : ring_system.step t.src t.label t.dst) :
    Effect (fun _ _ => True) t.src.world (t.label.pushes t.src) (t.label.reaps t.src)
      t.dst.world := by
  rw [show t.dst = t.label.run t.src from hstep]
  exact t.label.effect t.src (t.label.meets_true t.src)

/-- The counter does not overflow. -/
theorem Ledger.counter_step (h : Ledger tr t.src.world)
    (hstep : ring_system.step t.src t.label t.dst) (hbound : allocations (tr ++ [t]) < 2 ^ 63) :
    t.dst.world.ring.user_data_counter.toNat = allocations (tr ++ [t]) ∧
      t.src.world.ring.user_data_counter.toNat ≤ t.dst.world.ring.user_data_counter.toNat ∧
      (t.dst.world.ring.user_data_counter = t.src.world.ring.user_data_counter + 1 →
        t.src.world.ring.user_data_counter.toNat < t.dst.world.ring.user_data_counter.toNat) := by
  have hcounter := h.counter
  rw [allocations_snoc] at hbound ⊢
  -- The bound rules out that the counter wraps around.
  have hnext : (t.src.world.ring.user_data_counter + 1).toNat =
      (t.src.world.ring.user_data_counter.toNat + 1) % 2 ^ 64 := UInt64.toNat_add _ _
  have hne : t.src.world.ring.user_data_counter + 1 ≠ t.src.world.ring.user_data_counter := by
    intro heq
    rw [heq] at hnext
    omega
  rcases (step_effect hstep).counter with hsame | hmoved
  · have hquiet : allocates t = false := by simp [allocates, hsame]
    rw [hsame, hquiet]
    exact ⟨hcounter, Nat.le_refl _, fun heq => absurd heq.symm hne⟩
  · have hmoves : allocates t = true := by simp [allocates, hmoved, hne]
    rw [hmoved]
    simp only [hmoves, if_true] at hbound ⊢
    omega

/-- What a step pushes is one new entry. -/
theorem step_fresh (hstep : ring_system.step t.src t.label t.dst) {entry : Entry}
    (hentry : entry ∈ t.label.pushes t.src) :
    t.label.pushes t.src = [entry] ∧ Fresh t.src.world t.dst.world entry := by
  rcases (step_effect hstep).pushed with hnone | ⟨entry', hone, hfresh⟩
  · simp [hnone] at hentry
  · rw [hone, List.mem_singleton] at hentry
    rw [hone, hentry]
    exact ⟨rfl, hfresh⟩

/-- All entries pushed so far are told apart. -/
theorem Ledger.apart_step (h : Ledger tr t.src.world)
    (hstep : ring_system.step t.src t.label t.dst) (hbound : allocations tr < 2 ^ 63) :
    (pushed (tr ++ [t])).Pairwise ToldApart := by
  rw [pushed_snoc, List.pairwise_append]
  refine ⟨h.apart, ?_, fun old hold entry hentry =>
    h.fresh_apart hbound hold (step_fresh hstep hentry).2⟩
  rcases (step_effect hstep).pushed with hnone | ⟨entry', hone, -⟩
  · simp [hnone]
  · simp [hone]

/-- Nothing is lost sight of in a step. -/
theorem Ledger.conserved_step (h : Ledger tr t.src.world)
    (hstep : ring_system.step t.src t.label t.dst) :
    ∃ lost, (pushed (tr ++ [t])).Perm
      (t.dst.world.live ++ (reaped (tr ++ [t])).map (·.origin) ++ lost) := by
  obtain ⟨lost, hconserved⟩ := h.conserved
  obtain ⟨lost', -, hlive⟩ :=
    (step_effect hstep).live (D := fun _ => True) fun _ _ _ _ _ _ => trivial
  refine ⟨lost ++ lost', List.perm_iff_count.mpr ?_⟩
  intro entry
  have hcount := hconserved.count_eq entry
  have hcount' := hlive.count_eq entry
  simp only [pushed_snoc, reaped_snoc, List.map_append, List.count_append] at hcount hcount' ⊢
  omega

/-- The completions reaped in a step are made of entries that are pushed by its
    end. -/
theorem Ledger.origin_pushed_step (h : Ledger tr t.src.world)
    (hstep : ring_system.step t.src t.label t.dst) {cqe : Cqe} (hcqe : cqe ∈ t.label.reaps t.src) :
    cqe.origin ∈ pushed (tr ++ [t]) := by
  obtain ⟨lost, hperm⟩ := h.conserved_step hstep
  rw [hperm.mem_iff, reaped_snoc, List.map_append]
  exact List.mem_append_left _
    (List.mem_append_right _ (List.mem_append_right _ (List.mem_map_of_mem hcqe)))

/-- A call whose completion is not reaped in a step does not share its key with
    one that is. -/
theorem Ledger.reaps_ne (h : Ledger tr t.src.world)
    (hstep : ring_system.step t.src t.label t.dst) (hbound : allocations tr < 2 ^ 63)
    {entry : Entry} (hentry : entry ∈ pushed (tr ++ [t])) (hcall : entry.op.is_timeout = false)
    {cqe : Cqe} (hcqe : cqe ∈ t.label.reaps t.src) (hne : cqe.origin ≠ entry) :
    cqe.user_data ≠ entry.user_data := by
  intro heq
  have horigin := h.origin_pushed_step hstep hcqe
  have hapart := (h.apart_step hstep hbound).forall horigin hentry hne
  have htimer := (hapart.1 heq).2
  rw [hcall] at htimer
  exact Bool.false_ne_true htimer

/-- A call whose completion was not reaped is backed by what its key owns. -/
theorem Ledger.backed_step (h : Ledger tr t.src.world)
    (hstep : ring_system.step t.src t.label t.dst) (hbound : allocations tr < 2 ^ 63)
    {entry : Entry} (hentry : entry ∈ pushed (tr ++ [t])) (hcall : entry.op.is_timeout = false)
    (hreaped : ∀ cqe ∈ reaped (tr ++ [t]), cqe.origin ≠ entry) :
    entry.backed_by (t.dst.world.ring.owned_data entry.user_data) := by
  have heffect := step_effect hstep
  rw [reaped_snoc, List.forall_mem_append] at hreaped
  rcases List.mem_append.mp (pushed_snoc tr t ▸ hentry) with hold | hnew
  · -- Neither a new entry nor a reaped completion has its key.
    refine (heffect.kept (fun new hnew heq => ?_) fun cqe hcqe =>
      h.reaps_ne hstep hbound hentry hcall hcqe (hreaped.2 cqe hcqe)).backed_by
        (h.backed entry hold hreaped.1)
    have htimer := (h.fresh_apart hbound hold (step_fresh hstep hnew).2).1 heq.symm
    rw [hcall] at htimer
    exact Bool.false_ne_true htimer.1
  · -- Its key is the counter, and all keys owned so far are below that.
    obtain ⟨hone, hfresh⟩ := step_fresh hstep hnew
    apply (hone ▸ heffect).handed hcall
    by_contra howned
    have hlt := h.keys _ howned
    rw [(hfresh.call hcall).1] at hlt
    exact Nat.lt_irrefl _ hlt

/-- **Step lemma**: every step keeps the books. -/
theorem Ledger.snoc (h : Ledger tr t.src.world) (hstep : ring_system.step t.src t.label t.dst)
    (hbound : allocations (tr ++ [t]) < 2 ^ 63) : Ledger (tr ++ [t]) t.dst.world := by
  have hbound' : allocations tr < 2 ^ 63 := Nat.lt_of_le_of_lt (allocations_le_snoc tr t) hbound
  obtain ⟨hcounter, hmono, hnew⟩ := h.counter_step hstep hbound
  have hkeys : ∀ key, t.dst.world.ring.owned_data key ≠ none →
      key.toNat < t.dst.world.ring.user_data_counter.toNat := by
    intro key hkey
    rcases (step_effect hstep).owned hkey with ⟨hold, -⟩ | ⟨entry, hone, -, rfl, hentry⟩
    · exact Nat.lt_of_lt_of_le (h.keys key hold) hmono
    · have hcall : entry.op.is_timeout = false := by
        rw [← Bool.not_eq_true]
        exact fun htimer => hentry.pointer (Operation.pointer_of_is_timeout htimer)
      have hpushes : entry ∈ t.label.pushes t.src := by simp [hone]
      have hfresh := (step_fresh hstep hpushes).2
      rw [(hfresh.call hcall).1]
      exact hnew (hfresh.call hcall).2
  have htimers : ∀ entry ∈ pushed (tr ++ [t]), entry.op.is_timeout = true →
      entry.user_data = TIMEOUT_USER_DATA := by
    intro entry hentry htimer
    rcases List.mem_append.mp (pushed_snoc tr t ▸ hentry) with hold | hentry
    · exact h.timers entry hold htimer
    · exact (step_fresh hstep hentry).2.timer htimer
  refine ⟨hcounter, htimers, ?_, ?_, h.apart_step hstep hbound', h.conserved_step hstep, ?_, hkeys⟩
  · intro entry hentry hcall
    rcases List.mem_append.mp (pushed_snoc tr t ▸ hentry) with hold | hentry
    · exact Nat.lt_of_lt_of_le (h.calls entry hold hcall) hmono
    · obtain ⟨hud, hmoved⟩ := (step_fresh hstep hentry).2.call hcall
      rw [hud]
      exact hnew hmoved
  · intro entry hentry ptr hptr
    rcases List.mem_append.mp (pushed_snoc tr t ▸ hentry) with hold | hentry
    · exact Nat.lt_of_lt_of_le (h.below entry hold ptr hptr) (step_effect hstep).blocks
    · exact ((step_fresh hstep hentry).2.pointer ptr hptr).2
  · intro entry hentry hreaped
    cases htimer : entry.op.is_timeout with
    | false => exact h.backed_step hstep hbound' hentry htimer hreaped
    | true =>
      -- The key of the timeouts is beyond all keys that are owned.
      unfold Entry.backed_by
      rw [Operation.pointer_of_is_timeout htimer, htimers entry hentry htimer]
      by_contra howned
      have hlt := hkeys _ howned
      have htimeout : TIMEOUT_USER_DATA.toNat = 18446744073709551360 := rfl
      omega

end step

/-- **Run lemma**: the books of every run of a ring are in order. -/
theorem ledger_of_run {s₀ s : PyState} {tr : RingTrace} (hinit : s₀.initial)
    (h : Path ring_system s₀ tr s) (hbound : allocations tr < 2 ^ 63) : Ledger tr s.world := by
  refine h.trace_invariant
    (I := fun tr s => allocations tr < 2 ^ 63 → Ledger tr s.world) ?_ (fun _ => ?_) hbound
  · intro tr s l s' ih hstep hbound
    exact (ih (Nat.lt_of_le_of_lt (allocations_le_snoc _ _) hbound)).snoc
      (t := ⟨s, l, s'⟩) hstep hbound
  · exact hinit.blank.ledger

/-- The completion of an operation under way that points into memory has not
    been reaped. -/
theorem Ledger.unreaped_of_live {tr : RingTrace} {w : World} (h : Ledger tr w) {entry : Entry}
    {ptr : Ptr} (hentry : entry ∈ w.live) (hptr : entry.op.pointer = some ptr) :
    ∀ cqe ∈ reaped tr, cqe.origin ≠ entry := by
  intro cqe hcqe heq
  obtain ⟨lost, hperm⟩ := h.conserved
  have hapart := (hperm.pairwise_iff ToldApart.symm).mp h.apart
  rw [List.append_assoc, List.pairwise_append] at hapart
  have hmem : entry ∈ (reaped tr).map (·.origin) ++ lost :=
    List.mem_append_left _ (heq ▸ List.mem_map_of_mem hcqe)
  exact (hapart.2.2 entry hentry entry hmem).2 ptr hptr hptr

/-! ### Memory the kernel may touch -/

/-- **Memory under way is owned**: in every state of every run, what an entry in
    the queue, in the kernel or completed points into is owned under its user
    data. No step takes it away before the completion of that entry is
    reaped, whether the ring is closed or the entry was dropped meanwhile. -/
theorem memory_owned {s₀ s : PyState} {tr : RingTrace} (hinit : s₀.initial)
    (h : Path ring_system s₀ tr s) (hbound : allocations tr < 2 ^ 63) {entry : Entry} {ptr : Ptr}
    (hptr : entry.op.pointer = some ptr)
    (hentry : entry ∈ s.world.live ∨
      entry ∈ pushed tr ∧ ∀ cqe ∈ reaped tr, cqe.origin ≠ entry) :
    ∃ data, s.world.ring.owned_data entry.user_data = some data ∧ data.backs entry.op := by
  have hledger := ledger_of_run hinit h hbound
  have hpending : entry ∈ pushed tr ∧ ∀ cqe ∈ reaped tr, cqe.origin ≠ entry := by
    rcases hentry with hlive | hpending
    · exact ⟨hledger.pushed_of_live hlive, hledger.unreaped_of_live hlive hptr⟩
    · exact hpending
  have hbacked := hledger.backed entry hpending.1 hpending.2
  unfold Entry.backed_by at hbacked
  rwa [hptr] at hbacked

/-- The buffer of a read, when the ring is closed with the read in the kernel. -/
theorem memory_owned_closed :
    let ls : List RingLabel := [.prep (.read (.int 3) 16 (-1) none) (.ok 0), .submit (.ok 1), .close]
    let s := run_all ls (.fresh 2 0)
    ∃ data, s.world.ring.owned_data 0 = some data ∧
      data.backs (.Read 3 0 16 0xFFFFFFFFFFFFFFFF) := by
  intro ls s
  let entry : Entry := ⟨.Read 3 0 16 0xFFFFFFFFFFFFFFFF, .empty, 0⟩
  have hlive : entry ∈ s.world.live := by decide
  exact memory_owned fresh_initial (path_all ls _) (by decide) rfl (.inl hlive)

end CenturyRing
