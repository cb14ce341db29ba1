import CenturyRing.HandleRuns

/-! # The path of an open

  `prep_openat` copies the bytes of a path and puts a zero byte behind them.
  The kernel reads the copy as a C string: up to the first zero byte.
-/

namespace CenturyRing

/-! ### C strings -/

/-- The C string at the start of a block of memory, if it ends in the block. -/
def c_string : List UInt8 → Option (List UInt8)
  | [] => none
  | byte :: bytes => if byte = 0 then some [] else (c_string bytes).map (byte :: ·)

/-- No zero byte is part of a C string. -/
theorem zero_notMem_c_string {bytes string : List UInt8} (h : c_string bytes = some string) :
    0 ∉ string := by
  induction bytes generalizing string with
  | nil => cases h
  | cons byte bytes ih =>
    simp only [c_string] at h
    split at h
    · cases h
      simp
    · next hbyte =>
      obtain ⟨rest, hrest, rfl⟩ := Option.map_eq_some_iff.mp h
      intro hmem
      rcases List.mem_cons.mp hmem with hzero | hmem
      · exact hbyte hzero.symm
      · exact ih hrest hmem

/-- Bytes without a zero, and a zero behind them, are read back. -/
theorem c_string_terminated {path : List UInt8} (h : 0 ∉ path) :
    c_string (path ++ [0]) = some path := by
  induction path with
  | nil => rfl
  | cons byte path ih =>
    obtain ⟨hbyte, hpath⟩ := List.ne_and_not_mem_of_not_mem_cons h
    rw [List.cons_append, c_string, if_neg (Ne.symm hbyte), ih hpath]
    rfl

/-- The C strings are the byte strings without a zero. -/
theorem exists_c_string_iff {path : List UInt8} :
    (∃ bytes, c_string bytes = some path) ↔ 0 ∉ path := by
  constructor
  · intro hpair
    obtain ⟨bytes, hbytes⟩ := hpair
    exact zero_notMem_c_string hbytes
  · intro hpath
    exact ⟨path ++ [0], c_string_terminated hpath⟩

/-! ### When an open is accepted -/

/-- A `prep_openat` with these arguments is accepted, whatever its path. -/
structure OpenatAccepted (dirfd raw_flags permissions sqe_flags : Int) (answer : Enter)
    (w : World) : Prop where
  fits : OpenatFits dirfd raw_flags permissions sqe_flags
  supported : w.ring.probe .OpenAt = true
  no_skip : (Flags.from_bits_truncate (UInt8.ofInt sqe_flags)).contains .SKIP_SUCCESS = false
  taken : w.takes answer

/-- The arguments of a `prep_openat` besides its path. -/
structure OpenArgs where
  relative_to : Option AcceptableFile
  open_mode : FileOpenMode
  flags : Option (List FileOpenFlag)
  permissions : Int
  sqe_flags : Option Int

/-- The call with the path `path`. -/
def OpenArgs.call (args : OpenArgs) (path : List UInt8) : Prep :=
  .openat args.relative_to path args.open_mode args.flags args.permissions args.sqe_flags

/-- A call with these arguments is accepted in state `s`. -/
def OpenArgs.accepted (args : OpenArgs) (answer : Enter) (s : PyState) : Prop :=
  OpenatAccepted (Prep.open_dirfd args.relative_to s)
    ↑(raw_open_flags args.flags ||| args.open_mode.value) args.permissions
    (args.sqe_flags.getD 0) answer s.world

section openat

variable {args : OpenArgs} {path : List UInt8} {answer : Enter} {s : PyState}

/-- `prep_openat` does not look at the bytes of its path. -/
theorem OpenArgs.returns_iff :
    (∃ ud, ((args.call path).run answer s).1 = .ok ud) ↔ args.accepted answer s := by
  have hwp : ((args.call path).run answer).wp (fun _ _ => args.accepted answer s)
      (fun _ _ => ¬args.accepted answer s) s := by
    refine wp_openat (fun hunfit haccepted => hunfit haccepted.fits)
      (fun hunsupported haccepted => ?_) fun hfits hsupported => ?_
    · exact Bool.false_ne_true (hunsupported.symm.trans haccepted.supported)
    · intro skip w
      refine ⟨fun hskip _ haccepted => ?_, fun hskip entry w' => ⟨fun h => ?_, ?_⟩⟩
      · exact Bool.false_ne_true (haccepted.no_skip.symm.trans hskip)
      · exact ⟨hfits, hsupported, hskip, (s.world.takes_advance _ _ answer).mp h.taken⟩
      · intro e h haccepted
        exact h.not_taken ((s.world.takes_advance _ _ answer).mpr haccepted.taken)
  exact Fallible.returns_iff hwp

end openat

/-! ### What the kernel opens -/

/-- The C string the kernel reads from the path pointer of `entry`: in the block
    that is owned for it. -/
def World.path_read (w : World) (entry : Entry) : Option (List UInt8) :=
  match entry.op.pointer, w.ring.owned_data entry.user_data with
  | some ptr, some (.OnePath path) => if path.ptr = ptr then c_string path.bytes else none
  | _, _ => none

/-- The call opens exactly the path it is given. -/
structure OpensExactly (args : OpenArgs) (path : List UInt8) (answer : Enter) (s : PyState) :
    Prop where
  /-- The entry of a call that returns leads the kernel to the path. -/
  accepted : ∀ ud, ((args.call path).run answer s).1 = .ok ud → ∃ before entry,
    ((args.call path).run answer s).2.world.pending = before ++ [entry] ∧ entry.user_data = ud ∧
    ((args.call path).run answer s).2.world.path_read entry = some path
  /-- A path that no C string can be is rejected and nothing is queued. -/
  rejected : (¬∃ bytes, c_string bytes = some path) →
    (∃ e, ((args.call path).run answer s).1 = .error e) ∧
    ((args.call path).run answer s).2.world.accepted = s.world.accepted

section openat

variable {args : OpenArgs} {path : List UInt8} {answer : Enter} {s : PyState}

/-- What a call that returns leaves behind. -/
theorem OpenArgs.queued {ud : UInt64} (h : ((args.call path).run answer s).1 = .ok ud) :
    ∃ before entry, ((args.call path).run answer s).2.world.pending = before ++ [entry] ∧
      entry.user_data = ud ∧
      ((args.call path).run answer s).2.world.path_read entry = c_string (path ++ [0]) := by
  have hprepped := (args.call path).run_prepped answer s
  generalize (args.call path).run answer s = out at hprepped h ⊢
  obtain ⟨r, s'⟩ := out
  cases hprepped with
  | refused e counter hcounter hrefused => cases h
  | queued hhandle hqueued =>
    cases h
    obtain ⟨blocks, w₁, hblocks, hfresh, hprepared, hqueue, hroom⟩ := hqueued
    refine ⟨w₁.pending, (args.call path).sqe s, ?_, rfl, ?_⟩
    · show World.pending (World.own _ _ _) = _
      rw [World.own_pending, World.push_pending hroom]
    · simp [World.path_read, OpenArgs.call, Prep.sqe, Prep.op, Prep.owned, Operation.pointer,
        World.own]

theorem OpenArgs.nothing_queued {e : PyErr} (h : ((args.call path).run answer s).1 = .error e) :
    ((args.call path).run answer s).2.world.accepted = s.world.accepted := by
  have hprepped := (args.call path).run_prepped answer s
  generalize (args.call path).run answer s = out at hprepped h ⊢
  obtain ⟨r, s'⟩ := out
  cases hprepped with
  | queued hhandle hqueued => cases h
  | refused e counter hcounter hrefused =>
    obtain ⟨blocks, hblocks, hqueue⟩ := hrefused.resubmitted
    exact hqueue.quiet.accepted

/-- **The path that is opened** is the one that was given, exactly as long as it
    has no zero byte in it or the call is refused for another reason. -/
theorem opens_exactly_iff (args : OpenArgs) (path : List UInt8) (answer : Enter) (s : PyState) :
    OpensExactly args path answer s ↔ 0 ∉ path ∨ ¬args.accepted answer s := by
  constructor
  · intro hexact
    by_contra hneither
    obtain ⟨hzero, haccepted⟩ := not_or.mp hneither
    have hstring : ¬∃ bytes, c_string bytes = some path := by
      rwa [exists_c_string_iff]
    obtain ⟨⟨e, he⟩, -⟩ := hexact.rejected hstring
    obtain ⟨ud, hud⟩ := OpenArgs.returns_iff.mpr (not_not.mp haccepted)
    rw [hud] at he
    cases he
  · intro hcondition
    constructor
    · intro ud hud
      have haccepted := OpenArgs.returns_iff.mp ⟨ud, hud⟩
      have hpath := hcondition.resolve_right (not_not.mpr haccepted)
      obtain ⟨before, entry, hpending, huser_data, hread⟩ := OpenArgs.queued hud
      exact ⟨before, entry, hpending, huser_data, hread.trans (c_string_terminated hpath)⟩
    · intro hstring
      rw [exists_c_string_iff] at hstring
      have hrefused := hcondition.resolve_left hstring
      rcases hr : ((args.call path).run answer s).1 with e | ud
      · exact ⟨⟨e, rfl⟩, OpenArgs.nothing_queued hr⟩
      · exact absurd (OpenArgs.returns_iff.mp ⟨ud, hr⟩) hrefused

end openat

/-- Asked to open `a\0b`, the kernel opens `a`. -/
theorem opens_prefix :
    let args : OpenArgs := ⟨none, .READ_ONLY, none, 0o666, none⟩
    let out := (args.call [97, 0, 98]).run (.ok 0) (.fresh 2 0)
    (PyState.fresh 2 0).initial ∧ out.1.toOption = some 0 ∧
      out.2.world.pending.map out.2.world.path_read = [some [97]] ∧
      ¬OpensExactly args [97, 0, 98] (.ok 0) (.fresh 2 0) := by
  intro args out
  refine ⟨fresh_initial, by decide, by decide, ?_⟩
  intro hexact
  have hstring : ¬∃ bytes, c_string bytes = some [97, 0, 98] := by
    rw [exists_c_string_iff]
    decide
  obtain ⟨⟨e, he⟩, -⟩ := hexact.rejected hstring
  have hreturned : out.1.toOption = some 0 := by decide
  rw [show out.1 = .error e from he] at hreturned
  cases hreturned

end CenturyRing
