import CenturyRing.Ring
import Mathlib.Data.Int.Order.Basic

/-! # Creating a ring (`create_io_ring` of `src/ring.rs`, `make_io_ring` of `ring.py`)

  What the kernel makes of the settings is up to the host the process runs
  on; the host is a parameter.
-/

open Fifo

namespace CenturyRing

/-! ### The host -/

/-- `procfs::KernelVersion`. -/
structure KernelVersion where
  major : Nat
  minor : Nat
  deriving DecidableEq, Repr

/-- The settings of `io_uring::Builder` that `create_io_ring` touches. -/
structure Builder where
  dontfork : Bool
  setup_submit_all : Bool
  setup_single_issuer : Bool
  setup_sqpoll : Option UInt32
  setup_cqsize : Option UInt32
  deriving DecidableEq, Repr

/-- `io_uring::Parameters`: what `io_uring_setup(2)` answers. -/
structure Parameters where
  sq_entries : Nat
  cq_entries : Nat
  is_feature_nodrop : Bool
  deriving DecidableEq, Repr

/-- The host a ring is created on. -/
structure Host where
  kernel_version : Option KernelVersion
  io_uring_setup : UInt32 → Builder → Except Int32 Parameters
  register_probe : Except Int32 (OpCode → Bool)

/-- `io_uring_setup(2)` rounds the number of entries up. -/
def Host.RoundsUp (host : Host) : Prop :=
  ∀ entries builder params, host.io_uring_setup entries builder = .ok params →
    entries.toNat ≤ params.sq_entries

/-- The least power of two that is not less than `n`. -/
def round_up (n : Nat) : Nat := if n ≤ 1 then 1 else 2 ^ ((n - 1).log2 + 1)

theorem le_round_up (n : Nat) : n ≤ round_up n := by
  unfold round_up
  split
  · assumption
  · have h := Nat.lt_log2_self (n := n - 1)
    omega

/-- Linux 6.1, which supports every opcode the library uses. -/
def linux : Host where
  kernel_version := some ⟨6, 1⟩
  io_uring_setup entries builder :=
    -- Larger queues are refused with `EINVAL`.
    if entries.toNat ≤ 32768 ∧ (builder.setup_cqsize.getD 0).toNat ≤ 65536 then
      let sq_entries := round_up entries.toNat
      .ok
        { sq_entries := sq_entries
          cq_entries := (builder.setup_cqsize.map fun n => round_up n.toNat).getD (2 * sq_entries)
          is_feature_nodrop := true }
    else
      .error 22
  register_probe := .ok fun _ => true

theorem linux_roundsUp : linux.RoundsUp := by
  intro entries builder params h
  simp only [linux] at h
  split at h
  · cases h
    exact le_round_up _
  · cases h

/-! ### `create_io_ring` -/

/-- A ring as it is right after its creation. -/
def World.created (params : Parameters) (builder : Builder) (probe : OpCode → Bool)
    (autosubmit : Bool) : World where
  ring :=
    { the_io_uring := some
        { sq := .empty params.sq_entries
          cq := []
          cq_entries := params.cq_entries
          setup_sqpoll := builder.setup_sqpoll.isSome }
      probe := probe
      user_data_counter := 0
      autosubmit := autosubmit
      owned_data := fun _ => none }
  kernel := { inflight := [], overflow := [], batches := [], posted := [], now := 0 }
  blocks := 0

/-- The settings of `create_io_ring`. -/
def ring_builder (kernel_version : KernelVersion) (entries cq_entries sqlpoll_idle_ms : UInt32)
    (single_issuer : Bool) : Builder where
  dontfork := true
  setup_submit_all := true
  setup_single_issuer := kernel_version.major ≥ 6 && single_issuer
  setup_sqpoll := if sqlpoll_idle_ms > 0 then some sqlpoll_idle_ms else none
  setup_cqsize := if cq_entries > entries then some cq_entries else none

/-- `create_io_ring`. -/
def create_io_ring (host : Host) (entries cq_entries sqlpoll_idle_ms : UInt32)
    (single_issuer autosubmit : Bool) : Except PyErr World := do
  if entries = 0 then
    throw (.value_error "Entries should be more than zero")
  let kernel_version := host.kernel_version.getD ⟨5, 18⟩
  let major := kernel_version.major
  let minor := kernel_version.minor
  if major < 5 ∨ (major < 6 ∧ minor < 18) then
    throw (.os_error_message s!"Kernel version unsupported; needs >=5.18, got {major}.{minor}")
  let builder := ring_builder kernel_version entries cq_entries sqlpoll_idle_ms single_issuer
  let params ← (host.io_uring_setup entries builder).mapError .os_error
  if !params.is_feature_nodrop then
    throw (.panic "io_uring doesn't support nodrop even though it should!")
  let probe ← host.register_probe.mapError .os_error
  return World.created params builder probe autosubmit

/-- A ring that was created has room for entries, and it polls exactly if it
    was given a time to idle. -/
theorem create_io_ring_ok {host : Host} (hhost : host.RoundsUp)
    {entries cq_entries sqlpoll_idle_ms : UInt32} {single_issuer autosubmit : Bool} {w : World}
    (h : create_io_ring host entries cq_entries sqlpoll_idle_ms single_issuer autosubmit = .ok w) :
    ∃ params builder probe, w = World.created params builder probe autosubmit ∧
      0 < params.sq_entries ∧ (builder.setup_sqpoll.isSome = true ↔ 0 < sqlpoll_idle_ms) := by
  simp only [create_io_ring] at h
  -- The checks were passed one after the other.
  obtain ⟨hentries, h⟩ := Fallible.guard_ok h
  obtain ⟨-, h⟩ := Fallible.guard_ok h
  obtain ⟨params, hparams, h⟩ := Fallible.bind_ok h
  obtain ⟨-, h⟩ := Fallible.guard_ok h
  obtain ⟨probe, -, h⟩ := Fallible.bind_ok h
  cases h
  refine ⟨params, _, probe, rfl, ?_, ?_⟩
  · have hle := hhost _ _ _ (Fallible.mapError_ok hparams)
    have hpos : 0 < entries.toNat := by
      refine Nat.pos_of_ne_zero fun h0 => hentries ?_
      exact UInt32.toNat_inj.mp h0
    omega
  · simp only [ring_builder]
    split <;> simp_all

end CenturyRing
