import CenturyRing.AddressText
import CenturyRing.Wrapper

/-! # The address of a connect

  `prep_connect_v4` and `prep_connect_v6` take an address as text or as an
  object of the `ipaddress` module, which they turn into text. The kernel reads
  a socket address from the memory that the ring owns for the call.
-/

namespace CenturyRing

/-- The arguments of a connect besides the address. -/
structure ConnectArgs where
  fd : AcceptableFile
  port : Int
  sqe_flags : Option Int

namespace ConnectArgs

/-- The call of `prep_connect_v4` with the address `text`. -/
def v4 (args : ConnectArgs) (text : String) : Prep :=
  .connect_v4 args.fd text args.port args.sqe_flags

/-- The call of `prep_connect_v6` with the address `text`. -/
def v6 (args : ConnectArgs) (text : String) : Prep :=
  .connect_v6 args.fd text args.port args.sqe_flags

/-- A connect with these arguments is accepted in state `s`, if its address is. -/
structure Accepted (args : ConnectArgs) (answer : Enter) (s : PyState) : Prop where
  file_open : ∀ h, args.fd.as_handle = some h → (s.handles h)._close_called = false
  fd_fits : -2 ^ 31 ≤ args.fd.fd s.handles ∧ args.fd.fd s.handles < 2 ^ 31
  port_fits : 0 ≤ args.port ∧ args.port < 2 ^ 16
  flags_fit : 0 ≤ args.sqe_flags.getD 0 ∧ args.sqe_flags.getD 0 < 2 ^ 8
  supported : s.world.ring.probe .Connect = true
  no_skip : (Flags.from_bits_truncate (UInt8.ofInt (args.sqe_flags.getD 0))).contains
    .SKIP_SUCCESS = false
  taken : s.world.takes answer

end ConnectArgs

/-- The socket address the kernel reads for `entry`: from the block that is
    owned for it, and all of it. -/
def World.sockaddr_read (w : World) (entry : Entry) : Option SocketAddr :=
  match entry.op, w.ring.owned_data entry.user_data with
  | .Connect _ addr addrlen, some (.SockAddr c_addr) =>
    if c_addr.ptr = addr ∧ c_addr.len = addrlen then some c_addr.addr else none
  | _, _ => none

section connects

variable {args : ConnectArgs} {answer : Enter} {s : PyState}

theorem extract_ok_iff {α : Type} {low high x : Int} {convert : Int → α} {y : α} :
    extract low high convert x = .ok y ↔ (low ≤ x ∧ x < high) ∧ y = convert x := by
  constructor
  · intro h
    obtain ⟨rfl, hfits⟩ := extract_ok h
    exact ⟨hfits, rfl⟩
  · intro h
    obtain ⟨hfits, rfl⟩ := h
    exact if_pos hfits

theorem unwrapped_ok_iff {fd : AcceptableFile} {x : Int} : unwrapped fd s = .ok x ↔
    (∀ h, fd.as_handle = some h → (s.handles h)._close_called = false) ∧ x = fd.fd s.handles := by
  cases fd with
  | int fd =>
    show Except.ok fd = .ok x ↔ _
    simp only [Except.ok.injEq, AcceptableFile.as_handle, AcceptableFile.fd, reduceCtorEq,
      false_implies, implies_true, true_and]
    exact eq_comm
  | handle h =>
    simp only [unwrapped, AcceptableFile.as_handle, AcceptableFile.fd, Option.some.injEq,
      forall_eq']
    cases (s.handles h)._close_called with
    | true => simp
    | false =>
      simp only [Bool.false_eq_true, if_false, Except.ok.injEq, true_and]
      exact eq_comm

theorem bind_ok_iff {ε α β : Type} {x : Except ε α} {f : α → Except ε β} {b : β} :
    x >>= f = .ok b ↔ ∃ a, x = .ok a ∧ f a = .ok b := by
  constructor
  · exact Fallible.bind_ok
  · intro h
    obtain ⟨a, rfl, hf⟩ := h
    exact hf

/-- The arguments of a connect are those of the Rust function, whatever address
    comes with them. -/
theorem ConnectArgs.raw_ok_iff {c : RawPrep} (mk : Int32 → UInt16 → UInt8 → RawPrep) :
    (do
      let raw_fd ← unwrapped args.fd s
      let raw_fd ← extract_i32 raw_fd
      let port ← extract_u16 args.port
      let sqe_flags ← extract_u8 (args.sqe_flags.getD 0)
      return mk raw_fd port sqe_flags) = Except.ok c ↔
    ((∀ h, args.fd.as_handle = some h → (s.handles h)._close_called = false) ∧
      (-2 ^ 31 ≤ args.fd.fd s.handles ∧ args.fd.fd s.handles < 2 ^ 31) ∧
      (0 ≤ args.port ∧ args.port < 2 ^ 16) ∧
      (0 ≤ args.sqe_flags.getD 0 ∧ args.sqe_flags.getD 0 < 2 ^ 8)) ∧
      c = mk (Int32.ofInt (args.fd.fd s.handles)) (UInt16.ofInt args.port)
        (UInt8.ofInt (args.sqe_flags.getD 0)) := by
  simp only [bind_ok_iff, unwrapped_ok_iff, extract_i32, extract_u16, extract_u8, extract_ok_iff,
    pure, Except.pure, Except.ok.injEq]
  constructor
  · rintro ⟨_, ⟨hopen, rfl⟩, _, ⟨hfd, rfl⟩, _, ⟨hport, rfl⟩, _, ⟨hflags, rfl⟩, rfl⟩
    exact ⟨⟨hopen, hfd, hport, hflags⟩, rfl⟩
  · rintro ⟨⟨hopen, hfd, hport, hflags⟩, rfl⟩
    exact ⟨_, ⟨hopen, rfl⟩, _, ⟨hfd, rfl⟩, _, ⟨hport, rfl⟩, _, ⟨hflags, rfl⟩, rfl⟩

/-- A connect returns exactly if its address is accepted, and it is apart from
    that. -/
theorem ConnectArgs.connect_accepted_iff {p : Prep} {P : Prop}
    (mk : Int32 → UInt16 → UInt8 → RawPrep) (hoffset : p.offset_error = none)
    (hraw : p.raw s = do
      let raw_fd ← unwrapped args.fd s
      let raw_fd ← extract_i32 raw_fd
      let port ← extract_u16 args.port
      let sqe_flags ← extract_u8 (args.sqe_flags.getD 0)
      return mk raw_fd port sqe_flags)
    (hcode : ∀ fd port flags, (mk fd port flags).code = .Connect)
    (howns : ∀ fd port flags, (mk fd port flags).owns = true)
    (hflags : ∀ fd port flags, (mk fd port flags).sqe_flags = flags)
    (hchecked : ∀ fd port flags, (mk fd port flags).checked ↔ P) :
    (∃ ud, (p.run answer s).1 = .ok ud) ↔ P ∧ args.Accepted answer s := by
  rw [Prep.accepted_iff, hraw]
  simp only [hoffset, true_and, raw_ok_iff]
  constructor
  · rintro ⟨c, ⟨⟨hopen, hfd, hport, hfit⟩, rfl⟩, haccepted⟩
    have hsupported := haccepted.supported
    have hskip := haccepted.no_skip (howns ..)
    have hP := haccepted.checked
    have htaken := (s.world.takes_advance _ _ answer).mp haccepted.taken
    rw [hcode] at hsupported
    rw [hflags] at hskip
    rw [hchecked] at hP
    exact ⟨hP, hopen, hfd, hport, hfit, hsupported, hskip, htaken⟩
  · rintro ⟨hP, haccepted⟩
    refine ⟨_, ⟨⟨haccepted.file_open, haccepted.fd_fits, haccepted.port_fits,
      haccepted.flags_fit⟩, rfl⟩, ?_, ?_, ?_, ?_⟩
    · rw [hcode]
      exact haccepted.supported
    · intro _
      rw [hflags]
      exact haccepted.no_skip
    · rw [hchecked]
      exact hP
    · exact (s.world.takes_advance _ _ answer).mpr haccepted.taken

theorem ConnectArgs.v4_accepted_iff (args : ConnectArgs) (text : String) (answer : Enter)
    (s : PyState) : (∃ ud, ((args.v4 text).run answer s).1 = .ok ud) ↔
      (Ipv4Addr.from_str text).isSome = true ∧ args.Accepted answer s :=
  connect_accepted_iff (fun raw_fd port flags =>
    .connect_v4 raw_fd text port s.world.ring.user_data_counter flags) rfl rfl (fun _ _ _ => rfl)
    (fun _ _ _ => rfl) (fun _ _ _ => rfl) (fun _ _ _ => Iff.rfl)

theorem ConnectArgs.v6_accepted_iff (args : ConnectArgs) (text : String) (answer : Enter)
    (s : PyState) : (∃ ud, ((args.v6 text).run answer s).1 = .ok ud) ↔
      (Ipv6Addr.from_str text).isSome = true ∧ args.Accepted answer s :=
  connect_accepted_iff (fun raw_fd port flags =>
    .connect_v6 raw_fd text port s.world.ring.user_data_counter flags) rfl rfl (fun _ _ _ => rfl)
    (fun _ _ _ => rfl) (fun _ _ _ => rfl) (fun _ _ _ => Iff.rfl)

/-- If the call returns, its entry leads the kernel to `addr`. -/
def ConnectsTo (p : Prep) (answer : Enter) (s : PyState) (addr : SocketAddr) : Prop :=
  ∀ ud, (p.run answer s).1 = .ok ud → ∃ before entry,
    (p.run answer s).2.world.pending = before ++ [entry] ∧ entry.user_data = ud ∧
    (p.run answer s).2.world.sockaddr_read entry = some addr

/-- The address a call hands to the ring to own is the one it connects to. -/
theorem Prep.connects_to {p : Prep} {addr : SocketAddr} (fd : Int32)
    (hop : p.op s = .Connect fd s.world.blocks (SockaddrBox.len ⟨s.world.blocks, addr⟩))
    (howned : p.owned s = some (.SockAddr ⟨s.world.blocks, addr⟩)) :
    ConnectsTo p answer s addr := by
  intro ud h
  have hprepped := p.run_prepped answer s
  generalize p.run answer s = out at hprepped h ⊢
  obtain ⟨r, s'⟩ := out
  cases hprepped with
  | refused e counter hcounter hrefused => cases h
  | queued hhandle hqueued =>
    cases h
    obtain ⟨blocks, w₁, hblocks, hfresh, hprepared, hqueue, hroom⟩ := hqueued
    refine ⟨w₁.pending, p.sqe s, ?_, rfl, ?_⟩
    · show World.pending (World.own _ _ _) = _
      rw [World.own_pending, World.push_pending hroom]
    · simp [World.sockaddr_read, hop, howned, World.own]

/-- **IPv4**: `prep_connect_v4` takes the text of an address in the one form
    that `str` writes, and connects to that address. -/
theorem connects_v4_iff (args : ConnectArgs) (text : String) (answer : Enter) (s : PyState) :
    (∃ ud, ((args.v4 text).run answer s).1 = .ok ud) ↔
      ∃ a : Ipv4Addr, text = a.str ∧ args.Accepted answer s ∧
        ConnectsTo (args.v4 text) answer s (.V4 a (UInt16.ofInt args.port)) := by
  rw [args.v4_accepted_iff, Option.isSome_iff_exists]
  constructor
  · rintro ⟨⟨a, ha⟩, haccepted⟩
    refine ⟨a, (Ipv4Addr.from_str_iff text a).mp ha, haccepted, ?_⟩
    refine Prep.connects_to (Int32.ofInt (args.fd.fd s.handles)) rfl ?_
    simp only [ConnectArgs.v4, Prep.owned, ha, Option.map_some]
  · rintro ⟨a, htext, haccepted, -⟩
    exact ⟨⟨a, (Ipv4Addr.from_str_iff text a).mpr htext⟩, haccepted⟩

/-- **IPv6**: `prep_connect_v6` takes every `ipaddress.IPv6Address` without a
    scope id, and connects to that address. One with a scope id is refused. -/
theorem connects_v6_iff (args : ConnectArgs) (a : IPv6Address) (answer : Enter) (s : PyState) :
    ((∃ ud, ((args.v6 a.str).run answer s).1 = .ok ud) ↔
      a.scope_id = none ∧ args.Accepted answer s) ∧
    ConnectsTo (args.v6 a.str) answer s (.V6 a.ip (UInt16.ofInt args.port)) := by
  have hreturns := args.v6_accepted_iff a.str answer s
  have hread := a.from_str_str
  by_cases hscope : a.scope_id = none
  · rw [if_pos hscope] at hread
    refine ⟨by simp [hreturns, hread, hscope], ?_⟩
    refine Prep.connects_to (Int32.ofInt (args.fd.fd s.handles)) rfl ?_
    simp only [ConnectArgs.v6, Prep.owned, hread, Option.map_some]
  · rw [if_neg hscope] at hread
    have hnot : ¬∃ ud, ((args.v6 a.str).run answer s).1 = .ok ud := by
      simp [hreturns, hread]
    exact ⟨iff_of_false hnot fun h => hscope h.1, fun ud hud => absurd ⟨ud, hud⟩ hnot⟩

end connects

end CenturyRing
