import CenturyRing.Ownership
import Mathlib.Data.UInt

/-! # The bytes of a write

  `prep_write` and `prep_send` copy a range of the caller's buffer and hand the
  kernel a pointer to the copy together with a length. Buffers, sizes and
  offsets are `usize`; the length field of an entry has 32 bits.
-/

namespace CenturyRing

/-! ### The range check -/

/-- The bytes of the range of `size` bytes from `offset` on. -/
def range_bytes (buffer : List UInt8) (size offset : UInt64) : List UInt8 :=
  (buffer.drop offset.toNat).take size.toNat

/-- The sum in `check_write_buffer` does not overflow where it is computed. -/
theorem end_offset_toNat {buffer : List UInt8} {size offset : UInt64}
    (hlen : buffer.length < 2 ^ 63) (hsize : size.toNat ≤ buffer.length)
    (hoffset : offset.toNat ≤ buffer.length) :
    (offset + size).toNat = offset.toNat + size.toNat := by
  rw [UInt64.toNat_add]
  exact Nat.mod_eq_of_lt (by omega)

theorem check_write_buffer_fits {buffer : List UInt8} {size offset : UInt64}
    (hlen : buffer.length < 2 ^ 63) (hfits : offset.toNat + size.toNat ≤ buffer.length) :
    check_write_buffer buffer size offset = .ok (offset + size) := by
  have hsize : ¬size.toNat > buffer.length := by omega
  have hoffset : ¬offset.toNat > buffer.length := by omega
  have hsum := end_offset_toNat hlen (Nat.not_lt.mp hsize) (Nat.not_lt.mp hoffset)
  have hend : ¬(offset + size).toNat > buffer.length := by omega
  simp only [check_write_buffer, if_neg hsize, if_neg hoffset, if_neg hend]

/-- What passes the check is a range of the buffer, and slicing it cannot
    panic. -/
theorem check_write_buffer_range {buffer : List UInt8} {size offset end_offset : UInt64}
    (hlen : buffer.length < 2 ^ 63) (h : check_write_buffer buffer size offset = .ok end_offset) :
    end_offset.toNat = offset.toNat + size.toNat ∧ end_offset.toNat ≤ buffer.length := by
  obtain ⟨rfl, hsize, hoffset, hend⟩ := check_write_buffer_ok h
  exact ⟨end_offset_toNat hlen hsize hoffset, hend⟩

theorem copied_range_eq {buffer : List UInt8} {size offset : UInt64}
    (hlen : buffer.length < 2 ^ 63) (hfits : offset.toNat + size.toNat ≤ buffer.length) :
    copied_range buffer offset (offset + size) = range_bytes buffer size offset := by
  have hsum : (offset + size).toNat = offset.toNat + size.toNat :=
    end_offset_toNat hlen (by omega) (by omega)
  rw [copied_range, range_bytes, hsum, List.drop_take, Nat.add_sub_cancel_left]

theorem range_bytes_length {buffer : List UInt8} {size offset : UInt64}
    (hfits : offset.toNat + size.toNat ≤ buffer.length) :
    (range_bytes buffer size offset).length = size.toNat := by
  rw [range_bytes, List.length_take, List.length_drop]
  omega

/-! ### Calls that are in order but for the range -/

/-- The file, the flags and the ring let an operation of this kind through. -/
structure InOrder (s : PyState) (code : OpCode) (fd : AcceptableFile) (sqe_flags : Option Int) :
    Prop where
  file_open : ∀ h, fd.as_handle = some h → (s.handles h)._close_called = false
  fd_fits : -2 ^ 31 ≤ fd.fd s.handles ∧ fd.fd s.handles < 2 ^ 31
  sqe_flags_fit : 0 ≤ sqe_flags.getD 0 ∧ sqe_flags.getD 0 < 2 ^ 8
  no_skip : (Flags.from_bits_truncate (UInt8.ofInt (sqe_flags.getD 0))).contains .SKIP_SUCCESS =
    false
  supported : s.world.ring.probe code = true
  /-- Only an open ring has room. -/
  room : s.world.has_room

/-- `Transmit s buffer size offset p`: `p` is a `prep_write` or a `prep_send` of
    a range of `buffer`, and all but the range is in order. -/
inductive Transmit (s : PyState) (buffer : List UInt8) (size offset : UInt64) : Prep → Prop where
  | write (fd : AcceptableFile) (file_offset : Int) (count buffer_offset sqe_flags : Option Int)
      (hcount : count.getD buffer.length = size.toNat)
      (hoffset : buffer_offset.getD 0 = offset.toNat)
      (hfile_offset : -1 ≤ file_offset ∧ file_offset < 2 ^ 63)
      (horder : InOrder s .Write fd sqe_flags) :
      Transmit s buffer size offset (.write fd buffer file_offset count buffer_offset sqe_flags)
  | send (fd : AcceptableFile) (count buffer_offset : Option Int) (flags : Int)
      (sqe_flags : Option Int) (hcount : count.getD buffer.length = size.toNat)
      (hoffset : buffer_offset.getD 0 = offset.toNat)
      (hflags : -2 ^ 31 ≤ flags ∧ flags < 2 ^ 31) (horder : InOrder s .Send fd sqe_flags) :
      Transmit s buffer size offset (.send fd buffer count buffer_offset flags sqe_flags)

section calls

open Fallible

variable {α : Type} {answer : Enter} {s : PyState} {w : World} {buffer : List UInt8}
  {size offset : UInt64}

/-- The conversion of an argument that fits. -/
theorem wp_extract_fits {β σ : Type} {low high x : Int} {convert : Int → α}
    {f : α → Fallible σ PyErr β} {Q : β → σ → Prop} {E : PyErr → σ → Prop} {t : σ}
    (hfits : low ≤ x ∧ x < high)
    (hf : (f (convert x)).wp Q E t) : (check (extract low high convert x) >>= f).wp Q E t :=
  wp_conversion (fun hunfit => absurd hfits hunfit) (fun _ => hf)

theorem ofInt_toNat (x : UInt64) : UInt64.ofInt x.toNat = x := by
  have hlt := x.toNat_lt
  rw [UInt64.ofInt, Int.emod_eq_of_lt (by omega) (by omega), Int.toNat_natCast, UInt64.ofNat_toNat]

theorem wp_extract_usize {β : Type} {x : Int} {y : UInt64} {f : UInt64 → PyM β}
    {Q : β → PyState → Prop} {E : PyErr → PyState → Prop} (hx : x = y.toNat)
    (hf : (f y).wp Q E s) : (check (extract_usize x) >>= f).wp Q E s := by
  have hlt := y.toNat_lt
  apply wp_extract_fits (by omega)
  rwa [hx, ofInt_toNat]

theorem wp_unwrap_open {β : Type} {fd : AcceptableFile} {f : Int → PyM β}
    {Q : β → PyState → Prop} {E : PyErr → PyState → Prop}
    (hopen : ∀ h, fd.as_handle = some h → (s.handles h)._close_called = false)
    (hf : (f (fd.fd s.handles)).wp Q E s) : (unwrap_file fd >>= f).wp Q E s := by
  refine wp_unwrap_file ?_ fun _ => hf
  intro h hfd hclosed
  subst hfd
  rw [hopen h rfl] at hclosed
  cases hclosed

/-- The part that `ioring_prep_write` and `ioring_prep_send` share: it returns
    exactly if the range lies in the buffer. -/
theorem wp_transmit {code : OpCode} {name : String} {sqe_flags : UInt8} {user_data : UInt64}
    {op : Vec → Operation} (hsupported : w.ring.probe code = true)
    (hskip : (Flags.from_bits_truncate sqe_flags).contains .SKIP_SUCCESS = false)
    (hroom : w.has_room) (hlen : buffer.length < 2 ^ 63) :
    (do
      require_supported code name
      let flags ← check (owned_flags sqe_flags)
      let end_offset ← check (check_write_buffer buffer size offset)
      let vec ← new_vec (copied_range buffer offset end_offset)
      autosubmit { op := op vec, flags, user_data } answer
      add_owned_buffer user_data vec : RustM Unit).wp
      (fun _ _ => offset.toNat + size.toNat ≤ buffer.length)
      (fun _ _ => ¬offset.toNat + size.toNat ≤ buffer.length) w := by
  rw [wp_bind, wp_require_supported]
  refine ⟨?_, fun hunsupported => absurd hsupported (by simp [hunsupported])⟩
  intro _
  refine wp_check (fun e h => ?_) fun flags _ => ?_
  · obtain ⟨-, hskip'⟩ := owned_flags_skip h
    -- The flags do not contain SKIP_SUCCESS.
    rw [hskip] at hskip'
    cases hskip'
  refine wp_check (fun e h => ?_) fun end_offset h => ?_
  · intro hfits
    rw [check_write_buffer_fits hlen hfits] at h
    cases h
  -- What passes the check is a range of the buffer.
  have hrange := check_write_buffer_range hlen h
  have hfits : offset.toNat + size.toNat ≤ buffer.length := by omega
  rw [wp_bind, wp_new_vec, wp_bind]
  refine wp_mono (autosubmit_cases _ answer _) (fun _ w' _ => ?_) fun e w' h => ?_
  · rw [add_owned_buffer, owned_data_insert, wp_modify]
    exact hfits
  · -- A queue with room takes the entry at once.
    have hroom' : World.has_room { w with blocks := w.blocks + 1 } := hroom
    have hopen := World.is_open_of_has_room hroom'
    cases h with
    | closed hclosed => simp [hopen] at hclosed
    | disabled _ hfull => exact absurd hroom' hfull
    | failed _ hfull => exact absurd hroom' hfull
    | still_full _ hfull => exact absurd hroom' hfull

/-- A call that is in order but for its range returns exactly if the range lies
    in the buffer. -/
theorem Transmit.returns_iff {p : Prep} (h : Transmit s buffer size offset p)
    (hlen : buffer.length < 2 ^ 63) (answer : Enter) :
    (∃ ud, (p.run answer s).1 = .ok ud) ↔ offset.toNat + size.toNat ≤ buffer.length := by
  have hwp : (p.run answer).wp (fun _ _ => offset.toNat + size.toNat ≤ buffer.length)
      (fun _ _ => ¬offset.toNat + size.toNat ≤ buffer.length) s := by
    cases h with
    | write fd file_offset count buffer_offset sqe_flags hcount hoffset hfile_offset horder =>
      rw [Prep.run, prep_write, wp_ite]
      refine ⟨fun hnegative => absurd hnegative (by omega), ?_⟩
      intro _
      rw [wp_get_next_user_data]
      refine wp_unwrap_open horder.file_open (wp_extract_fits horder.fd_fits ?_)
      refine wp_extract_usize hcount (wp_extract_usize hoffset ?_)
      refine wp_extract_fits (by omega) (wp_extract_fits horder.sqe_flags_fit ?_)
      rw [wp_bind, wp_rust]
      refine wp_mono (wp_transmit horder.supported horder.no_skip horder.room hlen)
        (fun _ _ hfits => (wp_pure _).mpr hfits) (fun _ _ hfits => hfits)
    | send fd count buffer_offset flags sqe_flags hcount hoffset hflags horder =>
      rw [Prep.run, prep_send, wp_get_next_user_data]
      refine wp_unwrap_open horder.file_open (wp_extract_fits horder.fd_fits ?_)
      refine wp_extract_usize hcount (wp_extract_usize hoffset ?_)
      refine wp_extract_fits hflags (wp_extract_fits horder.sqe_flags_fit ?_)
      rw [wp_bind, wp_rust]
      refine wp_mono (wp_transmit horder.supported horder.no_skip horder.room hlen)
        (fun _ _ hfits => (wp_pure _).mpr hfits) (fun _ _ hfits => hfits)
  exact Fallible.returns_iff hwp

end calls

/-! ### What the kernel is told -/

/-- The bytes of memory that `entry` describes: of the owned block that its
    pointer names, as many as its length field says. -/
def World.described (w : World) (entry : Entry) : Option (List UInt8) :=
  match entry.op.pointer, w.ring.owned_data entry.user_data with
  | some ptr, some (.Buffer buf) =>
    if buf.ptr = ptr then some (buf.bytes.take entry.op.len) else none
  | _, _ => none

/-- `p` transmits exactly the range that it is asked to. -/
structure TransmitsExactly (p : Prep) (answer : Enter) (s : PyState) (buffer : List UInt8)
    (size offset : UInt64) : Prop where
  /-- The call returns exactly if the range lies in the buffer. -/
  returns_iff : (∃ ud, (p.run answer s).1 = .ok ud) ↔
    offset.toNat + size.toNat ≤ buffer.length
  /-- Then the entry it has pushed describes exactly the bytes of the range. -/
  exact : ∀ ud, (p.run answer s).1 = .ok ud → ∃ entry,
    (p.run answer s).2.world.pending = s.world.pending ++ [entry] ∧
    (p.run answer s).2.world.described entry = some (range_bytes buffer size offset) ∧
    entry.op.len = size.toNat
  /-- The sum in `check_write_buffer` does not overflow. -/
  no_overflow : size.toNat ≤ buffer.length → offset.toNat ≤ buffer.length →
    offset.toNat + size.toNat < 2 ^ 64
  /-- The slice does not panic. -/
  no_panic : ∀ end_offset, check_write_buffer buffer size offset = .ok end_offset →
    offset.toNat ≤ end_offset.toNat ∧ end_offset.toNat ≤ buffer.length

section transmit

variable {p : Prep} {answer : Enter} {s : PyState} {buffer : List UInt8} {size offset : UInt64}

theorem data_eq {count buffer_offset : Option Int} (hcount : count.getD buffer.length = size.toNat)
    (hoffset : buffer_offset.getD 0 = offset.toNat) (hlen : buffer.length < 2 ^ 63)
    (hfits : offset.toNat + size.toNat ≤ buffer.length) :
    Prep.data buffer count buffer_offset = range_bytes buffer size offset := by
  rw [Prep.data, hcount, hoffset, ofInt_toNat, ofInt_toNat]
  exact copied_range_eq hlen hfits

/-- The entry of a range in the buffer: it owns a copy of the range, and its
    length field holds the last 32 bits of the size. -/
theorem Transmit.sqe {p : Prep} (h : Transmit s buffer size offset p)
    (hlen : buffer.length < 2 ^ 63) (hfits : offset.toNat + size.toNat ≤ buffer.length) :
    p.owned s = some (.Buffer ⟨s.world.blocks, range_bytes buffer size offset⟩) ∧
      (p.op s).pointer = some s.world.blocks ∧ (p.op s).len = size.toNat % 2 ^ 32 := by
  have hlength := range_bytes_length hfits
  cases h with
  | write fd file_offset count buffer_offset sqe_flags hcount hoffset hfile_offset horder =>
    have hdata := data_eq hcount hoffset hlen hfits
    refine ⟨?_, rfl, ?_⟩
    · rw [Prep.owned, hdata]
    · rw [Prep.op, hdata, hlength]
      exact UInt32.toNat_ofNat'
  | send fd count buffer_offset flags sqe_flags hcount hoffset hflags horder =>
    have hdata := data_eq hcount hoffset hlen hfits
    refine ⟨?_, rfl, ?_⟩
    · rw [Prep.owned, hdata]
    · rw [Prep.op, hdata, hlength]
      exact UInt32.toNat_ofNat'

/-- A call whose range lies in the buffer pushes its entry behind the others. -/
theorem Transmit.pushed {p : Prep} (h : Transmit s buffer size offset p)
    (hlen : buffer.length < 2 ^ 63) (hfits : offset.toNat + size.toNat ≤ buffer.length)
    (answer : Enter) :
    (p.run answer s).2.world.pending = s.world.pending ++ [p.sqe s] ∧
      (p.run answer s).2.world.ring.owned_data s.world.ring.user_data_counter = p.owned s := by
  obtain ⟨ud, hud⟩ := (h.returns_iff hlen answer).mpr hfits
  obtain ⟨howned, -, -⟩ := h.sqe hlen hfits
  have hroom : s.world.has_room := by
    cases h with
    | write _ _ _ _ _ _ _ _ horder => exact horder.room
    | send _ _ _ _ _ _ _ _ horder => exact horder.room
  have hprepped := p.run_prepped answer s
  generalize p.run answer s = out at hprepped hud ⊢
  obtain ⟨r, s'⟩ := out
  cases hprepped with
  | refused e counter hcounter hrefused => cases hud
  | queued hhandle hqueued =>
    obtain ⟨blocks, w₁, hblocks, hfresh, hprepared, hqueue, hroom₁⟩ := hqueued
    -- There was room, so nothing had to be submitted.
    cases hqueue with
    | consumed hopen hfull => exact absurd hroom hfull
    | unchanged =>
      constructor
      · show World.pending (World.own _ _ _) = _
        rw [World.own_pending, World.push_pending hroom₁]
        rfl
      · rw [howned]
        simp [World.own]

theorem Transmit.described {p : Prep} (h : Transmit s buffer size offset p)
    (hlen : buffer.length < 2 ^ 63) (hfits : offset.toNat + size.toNat ≤ buffer.length) :
    (p.run answer s).2.world.described (p.sqe s) =
      some ((range_bytes buffer size offset).take (size.toNat % 2 ^ 32)) := by
  obtain ⟨howned, hpointer, hop_len⟩ := h.sqe hlen hfits
  obtain ⟨-, howned'⟩ := h.pushed hlen hfits answer
  simp only [World.described, Prep.sqe_op, Prep.sqe_user_data, hpointer, howned', howned, hop_len,
    if_true]

/-- The length field does not hold a size from `2 ^ 32` on. -/
theorem Transmit.truncated {p : Prep} (h : Transmit s buffer size offset p)
    (hlen : buffer.length < 2 ^ 63) (hfits : offset.toNat + size.toNat ≤ buffer.length)
    (hsize : 2 ^ 32 ≤ size.toNat) : ¬TransmitsExactly p answer s buffer size offset := by
  intro hexact
  obtain ⟨ud, hud⟩ := (h.returns_iff hlen answer).mpr hfits
  obtain ⟨entry, hpending, -, hlen'⟩ := hexact.exact ud hud
  -- The entry is the one that the call asks for.
  obtain ⟨hpushed, -⟩ := h.pushed hlen hfits answer
  rw [hpushed, List.append_cancel_left_eq, List.cons.injEq] at hpending
  rw [← hpending.1, Prep.sqe_op, (h.sqe hlen hfits).2.2] at hlen'
  have hmod := Nat.mod_lt size.toNat (show 0 < 2 ^ 32 by decide)
  omega

/-- **Exactly the range is transmitted**, exactly as long as its size fits the
    length field or it does not lie in the buffer. -/
theorem range_transmitted_iff {p : Prep} (h : Transmit s buffer size offset p)
    (hlen : buffer.length < 2 ^ 63) :
    TransmitsExactly p answer s buffer size offset ↔
      size.toNat < 2 ^ 32 ∨ buffer.length < offset.toNat + size.toNat := by
  have hreturns := h.returns_iff hlen answer
  constructor
  · intro hexact
    by_contra hneither
    exact h.truncated hlen (by omega) (by omega) hexact
  · intro hcondition
    refine ⟨hreturns, ?_, fun hsize hoffset => by omega, ?_⟩
    · intro ud hud
      have hfits := hreturns.mp ⟨ud, hud⟩
      -- A size below `2 ^ 32` survives the narrowing.
      have hsize : size.toNat % 2 ^ 32 = size.toNat := Nat.mod_eq_of_lt (by omega)
      obtain ⟨hpending, -⟩ := h.pushed hlen hfits answer
      refine ⟨p.sqe s, hpending, ?_, ?_⟩
      · rw [h.described hlen hfits, hsize, ← range_bytes_length hfits, List.take_length]
      · rw [Prep.sqe_op, (h.sqe hlen hfits).2.2, hsize]
    · intro end_offset hend
      have hrange := check_write_buffer_range hlen hend
      omega

end transmit

/-- Two bytes out of four are written. -/
theorem range_transmitted_iff_two :
    TransmitsExactly (.write (.int 5) [10, 20, 30, 40] (-1) (some 2) (some 1) none) (.ok 0)
      (.fresh 2 0) [10, 20, 30, 40] 2 1 := by
  refine (range_transmitted_iff ?_ (by decide)).mpr (.inl (by decide))
  exact .write _ _ _ _ _ rfl rfl (by decide)
    ⟨nofun, by decide, by decide, by decide, rfl, by decide⟩

/-- Four gigabytes are not sent: the length field of the entry is zero. -/
theorem range_not_transmitted :
    let buffer : List UInt8 := List.replicate (2 ^ 32) 0
    let p := Prep.send (.int 5) buffer none none 0 none
    (PyState.fresh 2 0).initial ∧ Transmit (.fresh 2 0) buffer (2 ^ 32) 0 p ∧
      (p.run (.ok 0) (.fresh 2 0)).2.world.pending = [p.sqe (.fresh 2 0)] ∧
      (p.sqe (.fresh 2 0)).op.len = 0 ∧
      ¬TransmitsExactly p (.ok 0) (.fresh 2 0) buffer (2 ^ 32) 0 := by
  intro buffer p
  have hlength : buffer.length = 2 ^ 32 := List.length_replicate
  have hlen : buffer.length < 2 ^ 63 := by omega
  have htransmit : Transmit (.fresh 2 0) buffer (2 ^ 32) 0 p := by
    refine .send _ none none _ _ ?_ rfl (by decide)
      ⟨nofun, by decide, by decide, by decide, rfl, by decide⟩
    rw [Option.getD_none, hlength]
    rfl
  have hfits : (0 : UInt64).toNat + (2 ^ 32 : UInt64).toNat ≤ buffer.length := by
    rw [hlength]
    decide
  refine ⟨fresh_initial, htransmit, (htransmit.pushed hlen hfits (.ok 0)).1, ?_, ?_⟩
  · exact (htransmit.sqe hlen hfits).2.2
  · exact htransmit.truncated hlen hfits (by decide)

end CenturyRing
