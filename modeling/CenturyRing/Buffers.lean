import CenturyRing.Runs

/-! # Delivered buffers

  The event of an operation that owns a buffer hands the buffer to the caller,
  resized to the number of bytes that the kernel reports. What was not
  transferred should not be in it.
-/

open LTS

namespace CenturyRing

/-! ### Resizing -/

theorem resize_length (buf : List UInt8) (len : Nat) : (resize buf len).length = len := by
  simp only [resize, List.length_append, List.length_take, List.length_replicate]
  omega

/-- Shortening a buffer leaves its first bytes. -/
theorem resize_of_le {buf : List UInt8} {len : Nat} (h : len ≤ buf.length) :
    resize buf len = buf.take len := by
  rw [resize, Nat.sub_eq_zero_of_le h, List.replicate_zero, List.append_nil]

/-- What should be delivered for an operation on `buf` with the result `result`:
    the bytes that were transferred, or all of them if it failed. -/
structure PrefixDelivered (result : Int32) (buf : List UInt8) (buffer : Option (List UInt8)) :
    Prop where
  transferred : 0 ≤ result.toInt → buffer = some (buf.take (min result.toInt.toNat buf.length))
  failed : result.toInt < 0 → buffer = some buf
  /-- Never more than the buffer holds. -/
  bounded : ∀ bytes, buffer = some bytes → bytes.length ≤ buf.length

/-- The loop over the entries delivers what was transferred exactly if the
    result is no more than the buffer holds. -/
theorem delivered_buffer_iff (result : Int32) (buf : Vec) :
    PrefixDelivered result buf.bytes (delivered result (.Buffer buf)) ↔
      result.toInt ≤ buf.bytes.length := by
  have hsign : result < 0 ↔ result.toInt < 0 := Int32.lt_iff_toInt_lt
  simp only [delivered, hsign]
  constructor
  · intro h
    by_contra htoo_long
    have hresized : ¬(result.toInt < 0 ∨ buf.bytes.length = result.toInt.toNat) := by omega
    have hle := h.bounded (resize buf.bytes result.toInt.toNat) (if_neg hresized)
    rw [resize_length] at hle
    omega
  · intro hle
    by_cases hfailed : result.toInt < 0
    · rw [if_pos (.inl hfailed)]
      refine ⟨fun hnonneg => by omega, fun _ => rfl, ?_⟩
      intro bytes hbytes
      cases hbytes
      exact Nat.le_refl _
    · have hmin : min result.toInt.toNat buf.bytes.length = result.toInt.toNat := by omega
      -- A buffer of just this length is not resized.
      have htaken : (if result.toInt < 0 ∨ buf.bytes.length = result.toInt.toNat then
          some buf.bytes else some (resize buf.bytes result.toInt.toNat)) =
          some (buf.bytes.take result.toInt.toNat) := by
        split
        · next h =>
          have hlength := h.resolve_left hfailed
          rw [← hlength, List.take_length]
        · rw [resize_of_le (by omega)]
      rw [htaken]
      refine ⟨fun _ => by rw [hmin], fun hneg => absurd hneg hfailed, ?_⟩
      intro bytes hbytes
      cases hbytes
      exact List.length_take_le' _ _

/-! ### One event of many -/

theorem complete_entries_append (owned_data : UInt64 → Option OwnedData) (pre post : List Cqe) :
    (complete_entries owned_data (pre ++ post)).1 =
      (complete_entries owned_data pre).1 ++
        (complete_entries (complete_entries owned_data pre).2 post).1 := by
  induction pre generalizing owned_data with
  | nil => rfl
  | cons cqe pre ih => simp only [List.cons_append, complete_entries, ih]

theorem complete_entries_length (owned_data : UInt64 → Option OwnedData) (cqes : List Cqe) :
    (complete_entries owned_data cqes).1.length = cqes.length := by
  have h := congrArg List.length (complete_entries_events owned_data cqes)
  simpa using h

/-- The event of an entry is made of what is owned under its key when the entries
    before it are done with. -/
theorem complete_entries_getElem? (owned_data : UInt64 → Option OwnedData) (pre : List Cqe)
    (cqe : Cqe) (post : List Cqe) :
    (complete_entries owned_data (pre ++ cqe :: post)).1[pre.length]? =
      some (cqe.event (complete_entries owned_data pre).2) := by
  rw [complete_entries_append, List.getElem?_append_right (by rw [complete_entries_length]),
    complete_entries_length, Nat.sub_self]
  rfl

/-- The call of `get_completion_entries` reaps `cqe` behind the entries `pre`, and
    the operation of `cqe` still owns `buf`, as the kernel has filled it. -/
structure ReapsBuffer (bursts : List (List KernelEvent)) (w : World) (pre : List Cqe) (cqe : Cqe)
    (buf : Vec) : Prop where
  reaped : ∃ post, (World.drain bursts w).1 = pre ++ cqe :: post
  first : cqe.user_data ∉ pre.map (·.user_data)
  owned : (World.drain bursts w).2.ring.owned_data cqe.user_data = some (.Buffer buf)

/-- The buffer in the `i`-th event that the call returns. -/
def buffer_delivered (bursts : List (List KernelEvent)) (w : World) (i : Nat) :
    Option (List UInt8) :=
  let events := ((get_completion_entries bursts w).1.toOption).getD []
  events[i]?.bind (·.buffer)

theorem ReapsBuffer.delivered {bursts : List (List KernelEvent)} {w : World} {pre : List Cqe}
    {cqe : Cqe} {buf : Vec} (h : ReapsBuffer bursts w pre cqe buf) :
    buffer_delivered bursts w pre.length = delivered cqe.result (.Buffer buf) := by
  obtain ⟨post, hpost⟩ := h.reaped
  cases hopen : w.is_open with
  | false =>
    rw [World.drain_closed hopen bursts] at hpost
    simp at hpost
  | true =>
    have hkey : (complete_entries (World.drain bursts w).2.ring.owned_data pre).2 cqe.user_data =
        some (.Buffer buf) := by
      rw [complete_entries_owned_data, if_neg h.first, h.owned]
    simp only [buffer_delivered, get_completion_entries_open hopen, Except.toOption,
      Option.getD_some, hpost, complete_entries_getElem?, Option.bind_some, Cqe.event, hkey]

/-- **No bytes that were not transferred** are in the buffer of an event, exactly
    if the kernel reports no more of them than the buffer holds: whatever was
    reaped with it, and whatever state the ring is in. -/
theorem only_transferred_iff {bursts : List (List KernelEvent)} {w : World} {pre : List Cqe}
    {cqe : Cqe} {buf : Vec} (h : ReapsBuffer bursts w pre cqe buf) :
    PrefixDelivered cqe.result buf.bytes (buffer_delivered bursts w pre.length) ↔
      cqe.result.toInt ≤ buf.bytes.length := by
  rw [h.delivered]
  exact delivered_buffer_iff cqe.result buf

/-- A receive of up to four bytes that fills its buffer; the kernel reports
    `result` bytes. -/
def received (result : Int32) : PyState :=
  run_all [.prep (.recv (.int 5) 4 0x20 none) (.ok 0), .submit (.ok 1),
    .kernel (.write 0 [1, 2, 3, 4]), .kernel (.complete 0 result)] (.fresh 2 0)

theorem received_reapsBuffer (result : Int32) : ∃ cqe, cqe.result = result ∧
    ReapsBuffer [] (received result).world [] cqe ⟨0, [1, 2, 3, 4]⟩ :=
  ⟨⟨⟨.Recv 5 0 4 0x20, .empty, 0⟩, result⟩, rfl, ⟨[], rfl⟩, by simp, rfl⟩

/-- Three bytes were received. -/
theorem only_transferred_iff_three :
    PrefixDelivered 3 [1, 2, 3, 4] (buffer_delivered [] (received 3).world 0) := by
  obtain ⟨cqe, hresult, hreaps⟩ := received_reapsBuffer 3
  have h := (only_transferred_iff hreaps).mpr (by rw [hresult]; decide)
  rwa [hresult] at h

/-- With `MSG_TRUNC` the kernel reports all of a datagram of six bytes; two bytes
    that were never received are delivered. -/
theorem delivered_beyond_buffer :
    (PyState.fresh 2 0).initial ∧
      (∃ cqe, cqe.result = 6 ∧
        ReapsBuffer [] (received 6).world [] cqe ⟨0, [1, 2, 3, 4]⟩) ∧
      buffer_delivered [] (received 6).world 0 = some [1, 2, 3, 4, 0, 0] ∧
      ¬PrefixDelivered 6 [1, 2, 3, 4] (buffer_delivered [] (received 6).world 0) := by
  have hdelivered : buffer_delivered [] (received 6).world 0 = some [1, 2, 3, 4, 0, 0] := by decide
  refine ⟨fresh_initial, received_reapsBuffer 6, hdelivered, ?_⟩
  intro h
  have hle := h.bounded _ hdelivered
  simp at hle

/-! ### How long an owned buffer is -/

/-- The number of bytes in an owned buffer. -/
def OwnedData.size : OwnedData → Option Nat
  | .Buffer buf => some buf.bytes.length
  | _ => none

/-- The size of the buffer that is owned under `key`. -/
def World.size_of (w : World) (key : UInt64) : Option Nat :=
  (w.ring.owned_data key).bind OwnedData.size

theorem World.size_of_eq {w w' : World} (h : w'.ring.owned_data = w.ring.owned_data)
    (key : UInt64) : w'.size_of key = w.size_of key := by
  rw [size_of, h, size_of]

/-- The kernel writes into buffers and does not resize them. -/
theorem World.kernel_step_size_of (w : World) (ev : KernelEvent) (key : UInt64) :
    (w.kernel_step ev).size_of key = w.size_of key := by
  cases ev with
  | consume k => exact size_of_eq (w.consume_owned_data k) key
  | complete i result => exact size_of_eq (w.complete_owned_data i result) key
  | complete_silently i => rfl
  | fail_chain i result => exact size_of_eq ((w.cancel_rest i).complete_owned_data i result) key
  | write i bytes =>
    show (w.write i bytes).size_of key = _
    unfold write
    split
    · rfl
    · next ptr _ =>
      -- A write replaces the first bytes of a buffer and keeps the others.
      have hsize : ∀ owned : OwnedData, (owned.write ptr bytes).size = owned.size := by
        intro owned
        cases owned with
        | Buffer buf =>
          simp only [OwnedData.write]
          split <;> simp [OwnedData.size]
        | _ => rfl
      simp only [size_of]
      cases w.ring.owned_data key <;> simp [hsize]
  | flush =>
    show w.flush.size_of key = _
    unfold flush
    split <;> rfl
  | tick nanos => rfl

theorem World.drain_size_of (bursts : List (List KernelEvent)) (w : World) (key : UInt64) :
    (drain bursts w).2.size_of key = w.size_of key :=
  drain_invariant (C := fun _ _ => True) (I := fun _ w' => w'.size_of key = w.size_of key)
    (fun _ _ h => h) (fun _ w' ev h _ => (w'.kernel_step_size_of ev key).trans h)
    (drain_meets_true bursts w) [] rfl

/-- The call `t` returned `key` and handed a buffer of `size` bytes to the ring. -/
def Requested (t : Step PyState RingLabel) (key : UInt64) (size : Nat) : Prop :=
  ∃ p answer, t.label = .prep p answer ∧ t.label.returned t.src = some key ∧
    (p.owned t.src).bind OwnedData.size = some size

/-- What pushes no entry of a call resizes no buffer and hands over none. -/
theorem Effect.size_of {C : World → KernelEvent → Prop} {w w' : World} {es : List Entry}
    {cqes : List Cqe} (h : Effect C w es cqes w')
    (hcalls : ∀ entry ∈ es, entry.op.is_timeout = true) {key : UInt64} {size : Nat}
    (hsize : w'.size_of key = some size) :
    w.size_of key = some size := by
  cases h with
  | quiet hquiet hcounter => rwa [World.size_of_eq hquiet.owned_data] at hsize
  | @queued entry owned w₁ hquiet hcounter huser_data hfresh hprepared hroom =>
    -- The entry of a call is no timeout.
    have htimeout := hcalls entry (List.mem_singleton_self entry)
    rw [hprepared.not_timeout] at htimeout
    cases htimeout
  | timer hquiet hcounter hroom hquiet' hcounter' =>
    rwa [World.size_of_eq hquiet'.owned_data, World.size_of_eq (World.push_owned_data _ _),
      World.size_of_eq hquiet.owned_data] at hsize
  | reaped bursts hopen hmeets =>
    change ((complete_entries _ _).2 key).bind OwnedData.size = some size at hsize
    rw [complete_entries_owned_data] at hsize
    -- What was reaped is not owned any more.
    split at hsize
    · cases hsize
    · rw [← World.drain_size_of bursts]
      exact hsize
  | closed => exact hsize
  | kernel ev hmeets => rwa [← w.kernel_step_size_of ev]

/-- **Step lemma**: a step resizes no buffer that stays owned. -/
theorem RingLabel.size_of (l : RingLabel) (s : PyState) {key : UInt64} {size : Nat}
    (h : (l.run s).world.size_of key = some size) :
    s.world.size_of key = some size ∨ Requested ⟨s, l, l.run s⟩ key size := by
  by_cases hprep : ∃ p answer, l = .prep p answer
  · obtain ⟨p, answer, rfl⟩ := hprep
    have hprepped := p.run_prepped answer s
    have hreturned : (prep p answer).returned s = (p.run answer s).1.toOption := rfl
    change (p.run answer s).2.world.size_of key = some size at h
    simp only [Requested, hreturned]
    generalize p.run answer s = out at hprepped h ⊢
    obtain ⟨r, s'⟩ := out
    cases hprepped with
    | refused e counter hcounter hrefused =>
      obtain ⟨blocks, hblocks, hqueue⟩ := hrefused.resubmitted
      left
      rw [← h]
      exact (World.size_of_eq hqueue.quiet.owned_data key).symm
    | queued hhandle hqueued =>
      obtain ⟨blocks, w₁, hblocks, hfresh, hprepared, hqueue, hroom⟩ := hqueued
      simp only [World.size_of, World.own_owned_data, World.push_owned_data,
        hqueue.quiet.owned_data] at h
      -- What is owned under the key of the call is what the call handed over.
      by_cases hkey : key = s.world.ring.user_data_counter ∧ (p.owned s).isSome
      · obtain ⟨rfl, hsome⟩ := hkey
        obtain ⟨owned, howned⟩ := Option.isSome_iff_exists.mp hsome
        right
        exact ⟨p, answer, rfl, rfl, by simpa [howned] using h⟩
      · left
        by_cases hcounter : key = s.world.ring.user_data_counter
        · have hnone : p.owned s = none := by simpa [hcounter] using hkey
          simpa [hcounter, hnone, World.size_of] using h
        · simpa [hcounter, World.size_of] using h
  · left
    refine (l.effect s (C := fun _ _ => True) (l.meets_true s)).size_of (fun entry hentry => ?_) h
    rcases mem_pushes hentry with ⟨p, answer, hl, -⟩ | htimer
    · exact absurd ⟨p, answer, hl⟩ hprep
    · exact timer_is_timeout htimer

/-- The number of bytes that `prep_read` or `prep_recv` asks for. -/
def Prep.byte_count : Prep → Option Int
  | read _ byte_count .. | recv _ byte_count .. => some byte_count
  | _ => none

/-- The buffer handed over by a read or a receive is as long as was asked for. -/
theorem Prep.owned_size {p : Prep} {s : PyState} {byte_count : Int}
    (h : p.byte_count = some byte_count) (hfits : 0 ≤ byte_count ∧ byte_count < 2 ^ 32) :
    (p.owned s).bind OwnedData.size = some byte_count.toNat := by
  have hsize : (UInt32.ofInt byte_count).toNat = byte_count.toNat := by
    rw [UInt32.ofInt, UInt32.toNat_ofNat', Int.emod_eq_of_lt hfits.1 hfits.2]
    omega
  cases p with
  | read fd byte_count' offset sqe_flags =>
    cases h
    simp [Prep.owned, OwnedData.size, hsize]
  | recv fd byte_count' flags sqe_flags =>
    cases h
    simp [Prep.owned, OwnedData.size, hsize]
  | _ => cases h

/-- **A buffer keeps the size that was asked for**: in any run, every owned buffer
    was handed over by the call that returned its user data, and is as long as
    it was then. -/
theorem buffer_as_requested {s₀ s : PyState} {tr : RingTrace} (hinit : s₀.initial)
    (h : Path ring_system s₀ tr s) {key : UInt64} {size : Nat}
    (hsize : s.world.size_of key = some size) : ∃ t ∈ tr, Requested t key size := by
  refine h.trace_invariant (I := fun tr s => ∀ key size, s.world.size_of key = some size →
    ∃ t ∈ tr, Requested t key size) ?_ ?_ key size hsize
  · intro tr s l s' ih hstep key size hsize
    obtain rfl := hstep
    rcases l.size_of s hsize with hsize | hrequested
    · obtain ⟨t, ht, hrequested⟩ := ih key size hsize
      exact ⟨t, List.mem_append_left _ ht, hrequested⟩
    · exact ⟨_, List.mem_append_right _ (List.mem_singleton_self _), hrequested⟩
  · intro key size hsize
    rw [World.size_of, hinit.blank.owned_data] at hsize
    cases hsize

end CenturyRing
