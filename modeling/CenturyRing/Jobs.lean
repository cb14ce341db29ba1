import CenturyRing.Events
import CenturyRing.Framework.Service

/-! # The jobs of a ring

  A ring without its memory: a call is a job that carries its bytes, the
  kernel works on jobs, and an event is the result of one. Pointers, keys,
  queue capacities and hidden submits do not occur.

  Each thing the ring or the kernel does is something the service of these
  jobs does.
-/

open LTS Service

namespace CenturyRing

/-! ### Jobs -/

/-- An operation without the address of what it works on. -/
inductive Demand where
  | OpenAt (dirfd flags : Int32) (mode : UInt32)
  | Read (fd : Int32) (len : UInt32) (offset : UInt64)
  | Write (fd : Int32) (len : UInt32) (offset : UInt64)
  | Close (fd : Int32)
  | Socket (domain socket_type protocol : Int32)
  | Connect (fd : Int32) (addrlen : UInt32)
  | Send (fd : Int32) (len : UInt32) (flags : Int32)
  | Recv (fd : Int32) (len : UInt32) (flags : Int32)
  | Timeout (timespec : Timespec)
  deriving DecidableEq, Repr

/-- What an operation works on, wherever it lies in memory. -/
inductive Contents where
  | OnePath (path : List UInt8)
  | TwoPaths (path₁ path₂ : List UInt8)
  | Buffer (bytes : List UInt8)
  | SockAddr (addr : SocketAddr)
  deriving DecidableEq, Repr

/-- A call with everything it works on. -/
structure Job where
  demand : Demand
  flags : Flags
  user_data : UInt64
  contents : Option Contents
  deriving DecidableEq, Repr

def Operation.demand : Operation → Demand
  | OpenAt dirfd _ flags mode => .OpenAt dirfd flags mode
  | Read fd _ len offset => .Read fd len offset
  | Write fd _ len offset => .Write fd len offset
  | Close fd => .Close fd
  | Socket domain socket_type protocol => .Socket domain socket_type protocol
  | Connect fd _ addrlen => .Connect fd addrlen
  | Send fd _ len flags => .Send fd len flags
  | Recv fd _ len flags => .Recv fd len flags
  | Timeout _ timespec => .Timeout timespec

def OwnedData.contents : OwnedData → Contents
  | OnePath path => .OnePath path.bytes
  | TwoPaths path₁ path₂ => .TwoPaths path₁.bytes path₂.bytes
  | Buffer buf => .Buffer buf.bytes
  | SockAddr addr => .SockAddr addr.addr

/-- The job an entry stands for, when `owned` is owned under its key. -/
def Entry.job (entry : Entry) (owned : Option OwnedData) : Job where
  demand := entry.op.demand
  flags := entry.flags
  user_data := entry.user_data
  contents := owned.map (·.contents)

/-- The kernel fills the buffer of the job. -/
def Demand.receives : Demand → Bool
  | Read .. | Recv .. => true
  | _ => false

/-- What a write of `bytes` makes of the contents. -/
def Contents.write (bytes : List UInt8) : Contents → Contents
  | Buffer old => .Buffer (bytes.take old.length ++ old.drop bytes.length)
  | contents => contents

/-- The job once `bytes` are written to what it works on. -/
def Job.written (job : Job) (bytes : List UInt8) : Job :=
  { job with contents := job.contents.map (·.write bytes) }

/-- All the kernel may do to a job: write to a buffer it is to fill. -/
def Job.Filled (job job' : Job) : Prop :=
  job.demand.receives = true ∧
    ∃ bytes, job' = { job with contents := job.contents.map (·.write bytes) }

/-- The buffer handed over with the result of a job. -/
def Contents.delivered (result : Int32) : Contents → Option (List UInt8)
  | Buffer bytes =>
    if result < 0 ∨ bytes.length = result.toInt.toNat then some bytes
    else some (resize bytes result.toInt.toNat)
  | _ => none

/-- The event that hands over the result of a job. -/
def Job.event (job : Job) (result : Int32) : CompletionEvent where
  user_data := job.user_data
  result := result
  buffer := job.contents.bind (·.delivered result)

/-- The service that a ring is. -/
abbrev ring_service : System (Jobs Job Int32) (Action Job Int32) := service Job.Filled

theorem Operation.demand_receives (op : Operation) :
    op.demand.receives = op.recv_buffer.isSome := by
  cases op <;> rfl

theorem delivered_contents (result : Int32) (owned : OwnedData) :
    owned.contents.delivered result = delivered result owned := by
  cases owned <;> rfl

theorem OwnedData.write_contents {ptr : Ptr} {buf : Vec} (h : buf.ptr = ptr) (bytes : List UInt8) :
    ((OwnedData.Buffer buf).write ptr bytes).contents =
      (OwnedData.Buffer buf).contents.write bytes := by
  simp only [OwnedData.write, if_pos h]
  rfl

theorem OwnedData.write_of_ne {ptr : Ptr} {owned : OwnedData}
    (h : ∀ buf, owned = .Buffer buf → buf.ptr ≠ ptr) (bytes : List UInt8) :
    owned.write ptr bytes = owned := by
  cases owned with
  | Buffer buf => exact if_neg (h buf rfl)
  | OnePath path => rfl
  | TwoPaths path₁ path₂ => rfl
  | SockAddr addr => rfl

theorem Operation.pointer_of_recv_buffer {op : Operation} {ptr : Ptr}
    (h : op.recv_buffer = some ptr) : op.pointer = some ptr := by
  cases op with
  | Read fd buf len offset => exact h
  | Recv fd buf len flags => exact h
  | _ => cases h

/-- The buffer that backs an operation lies where the operation points. -/
theorem OwnedData.buffer_pointer {buf : Vec} {op : Operation} (h : (Buffer buf).backs op) :
    op.pointer = some buf.ptr := by
  cases op <;> first
    | exact h.elim
    | exact congrArg some h.1.symm

/-- An operation that receives is backed by a buffer. -/
theorem Entry.backed_by.recv_buffer {entry : Entry} {owned : Option OwnedData}
    (h : entry.backed_by owned) {ptr : Ptr} (hptr : entry.op.recv_buffer = some ptr) :
    ∃ buf, owned = some (.Buffer buf) ∧ buf.ptr = ptr := by
  have hpointer := Operation.pointer_of_recv_buffer hptr
  rw [Entry.backed_by, hpointer] at h
  obtain ⟨data, rfl, hbacks⟩ := h
  have hbuffer : entry.op.has_buffer = true := by
    cases hop : entry.op <;> simp [hop, Operation.recv_buffer, Operation.has_buffer] at hptr ⊢
  obtain ⟨buf, rfl⟩ := (OwnedData.backs_buffer_iff hbacks).mpr hbuffer
  rw [OwnedData.buffer_pointer hbacks] at hpointer
  exact ⟨buf, rfl, Option.some.inj hpointer⟩

/-- What backs an operation that points elsewhere is not the buffer at `ptr`. -/
theorem Entry.backed_by.pointer_ne {entry : Entry} {owned : OwnedData} {ptr : Ptr}
    (h : entry.backed_by (some owned)) (hne : entry.op.pointer ≠ some ptr) :
    ∀ buf, owned = .Buffer buf → buf.ptr ≠ ptr := by
  intro buf hbuf heq
  subst hbuf heq
  unfold Entry.backed_by at h
  split at h
  · cases h
  · obtain ⟨data, hdata, hbacks⟩ := h
    cases hdata
    exact hne (OwnedData.buffer_pointer hbacks)

/-- The event of a completion is that of its job. -/
theorem Cqe.event_eq (cqe : Cqe) (owned_data : UInt64 → Option OwnedData) :
    cqe.event owned_data =
      (cqe.origin.job (owned_data cqe.user_data)).event cqe.result := by
  show (⟨_, _, _⟩ : CompletionEvent) = ⟨_, _, _⟩
  congr 1
  cases h : owned_data cqe.user_data with
  | none => simp [Entry.job]
  | some owned => simp [Entry.job, delivered_contents]

/-! ### The jobs of a ring -/

namespace World

/-- The job that `entry` stands for now. -/
def job (w : World) (entry : Entry) : Job := entry.job (w.ring.owned_data entry.user_data)

/-- The jobs of a ring, when `acc` has been drained and not been handed out. -/
def jobs_with (w : World) (acc : List Cqe) : Jobs Job Int32 where
  queued := w.pending.map w.job
  running := w.running.map w.job
  answered := (acc ++ w.unreaped).map fun cqe => (w.job cqe.origin, cqe.result)

/-- The jobs of a ring. -/
def jobs (w : World) : Jobs Job Int32 := w.jobs_with []

/-- The job that the kernel writes for in a step, as it finds it, and the
    bytes. -/
def writes (w : World) : KernelEvent → List (Job × List UInt8)
  | .write i bytes =>
    match w.kernel.inflight[i]? with
    | some request =>
      if request.entry.op.recv_buffer.isSome then [(w.job request.entry, bytes)] else []
    | none => []
  | _ => []

/-- The jobs that the kernel ends in a step without a completion that could be
    reaped. -/
def losses (w : World) (ev : KernelEvent) : List Job := (w.dropped ev).map w.job

/-- The operations under way, and those of `acc`, are told apart and have their
    memory. -/
structure Sound (w : World) (acc : List Cqe) : Prop where
  apart : (w.live ++ acc.map (·.origin)).Pairwise ToldApart
  backed : ∀ entry ∈ w.live ++ acc.map (·.origin),
    entry.backed_by (w.ring.owned_data entry.user_data)

section kernel

variable {w w' : World} {acc : List Cqe}

theorem job_congr (h : w'.ring.owned_data = w.ring.owned_data) : w'.job = w.job := by
  funext entry
  rw [job, job, h]

theorem Sound.kernel_step (h : w.Sound acc) (ev : KernelEvent) : (w.kernel_step ev).Sound acc := by
  have hperm : (w.live ++ acc.map (·.origin)).Perm
      ((w.kernel_step ev).live ++ acc.map (·.origin) ++ w.dropped ev) := by
    refine ((w.kernel_step_live ev).append_right _).trans ?_
    rw [List.append_assoc, List.append_assoc]
    exact List.Perm.append_left _ List.perm_append_comm
  constructor
  · exact (List.pairwise_append.mp ((hperm.pairwise_iff ToldApart.symm).mp h.apart)).1
  · intro entry hentry
    refine ((w.kernel_step_sameMemory ev).sameData _).backed_by (h.backed entry ?_)
    exact hperm.mem_iff.mpr (List.mem_append_left _ hentry)

theorem unreaped_closed (hclosed : w.is_open = false) : w.unreaped = [] := by
  rw [unreaped_eq, hclosed]
  rfl

theorem inflight_job (w : World) (acc : List Cqe) (i : Nat) :
    (w.jobs_with acc).running[i]?.toList =
      ((w.kernel.inflight[i]?).toList.map (·.entry)).map w.job := by
  simp only [jobs_with, running, List.getElem?_map]
  cases w.kernel.inflight[i]? <;> rfl

/-- A completion answers a job, or drops it if the ring is closed. -/
theorem complete_silent (w : World) (acc : List Cqe) (i : Nat) (result : Int32) :
    Silent Job.Filled [] ((w.unposted i).map w.job) (w.jobs_with acc)
      ((w.complete i result).jobs_with acc) := by
  have hjob : (w.complete i result).job = w.job := job_congr (w.complete_owned_data i result)
  cases hopen : w.is_open with
  | true =>
    have hanswer : (w.complete i result).jobs_with acc =
        (Action.answer i result).run (w.jobs_with acc) := by
      simp only [jobs_with, Action.run, hjob, complete_pending, running, complete_inflight,
        complete_unreaped hopen, List.eraseIdx_map, List.map_append, List.append_assoc,
        List.getElem?_map]
      cases w.kernel.inflight[i]? <;> rfl
    rw [hanswer, unposted, hopen]
    exact .answer i result
  | false =>
    have hclosed : (w.complete i result).is_open = false := by
      rw [(complete_sameProcess w i result).is_open, hopen]
    have hdrop : (w.complete i result).jobs_with acc =
        (Action.drop i).run (w.jobs_with acc) := by
      simp only [jobs_with, Action.run, hjob, complete_pending, running, complete_inflight,
        unreaped_closed hopen, unreaped_closed hclosed, List.eraseIdx_map]
    have hlost : (w.unposted i).map w.job = (w.jobs_with acc).running[i]?.toList := by
      rw [w.inflight_job, unposted, hopen]
      rfl
    rw [hdrop, hlost]
    exact .drop i

/-- A write elsewhere does not change a job that has its memory. -/
theorem write_job_of_ne {i : Nat} {ptr : Ptr}
    (hptr : (w.kernel.inflight[i]?).bind (·.entry.op.recv_buffer) = some ptr) {entry : Entry}
    (hbacked : entry.backed_by (w.ring.owned_data entry.user_data))
    (hne : entry.op.pointer ≠ some ptr) (bytes : List UInt8) :
    (w.write i bytes).job entry = w.job entry := by
  rw [job, job, write, hptr]
  congr 1
  cases howned : w.ring.owned_data entry.user_data with
  | none => simp only [howned, Option.map_none]
  | some owned =>
    simp only [howned, Option.map_some]
    rw [howned] at hbacked
    rw [OwnedData.write_of_ne (hbacked.pointer_ne hne)]

/-- The job whose buffer is written to is filled. -/
theorem write_job_self {i : Nat} {request : Request} {ptr : Ptr}
    (hrequest : w.kernel.inflight[i]? = some request)
    (hbuffer : request.entry.op.recv_buffer = some ptr)
    (hbacked : request.entry.backed_by (w.ring.owned_data request.entry.user_data))
    (bytes : List UInt8) :
    (w.write i bytes).job request.entry = (w.job request.entry).written bytes := by
  obtain ⟨buf, howned, hbuf⟩ := hbacked.recv_buffer hbuffer
  have hptr : (w.kernel.inflight[i]?).bind (·.entry.op.recv_buffer) = some ptr := by
    rw [hrequest]
    exact hbuffer
  rw [job, job, write, hptr]
  simp only [Entry.job, Job.written, howned, Option.map_some, OwnedData.write_contents hbuf]

/-- A write of the kernel fills the buffer of one job and leaves all others as
    they are. -/
theorem Sound.write_silent (h : w.Sound acc) (i : Nat) (bytes : List UInt8) :
    Silent Job.Filled
      ((w.writes (.write i bytes)).map fun write => (write.1, write.1.written write.2)) []
      (w.jobs_with acc) ((w.write i bytes).jobs_with acc) := by
  cases hptr : (w.kernel.inflight[i]?).bind (·.entry.op.recv_buffer) with
  | none =>
    have hnone : w.writes (.write i bytes) = [] := by
      rw [writes]
      split
      · next request hrequest =>
        rw [hrequest, Option.bind_some] at hptr
        simp [hptr]
      · rfl
    rw [hnone, write, hptr]
    exact .refl _
  | some ptr =>
    obtain ⟨request, hrequest, hbuffer⟩ := Option.bind_eq_some_iff.mp hptr
    have hrun : w.running[i]? = some request.entry := by
      rw [running, List.getElem?_map, hrequest]
      rfl
    -- Everything else points elsewhere.
    have hperm : (w.live ++ acc.map (·.origin)).Perm
        (request.entry :: ((w.finish i).live ++ acc.map (·.origin))) :=
      ((finish_live hrequest).append_right _).trans
        ((List.perm_append_singleton _ _).append_right _)
    have hapart := (List.pairwise_cons.mp ((hperm.pairwise_iff ToldApart.symm).mp h.apart)).1
    have hself := write_job_self hrequest hbuffer
      (h.backed _ (hperm.mem_iff.mpr List.mem_cons_self)) bytes
    have hother : ∀ entry ∈ (w.finish i).live ++ acc.map (·.origin),
        (w.write i bytes).job entry = w.job entry := by
      intro entry hentry
      refine write_job_of_ne hptr (h.backed entry ?_) ?_ bytes
      · exact hperm.mem_iff.mpr (List.mem_cons_of_mem _ hentry)
      · exact (hapart entry hentry).2 ptr (Operation.pointer_of_recv_buffer hbuffer)
    have hchange : (w.write i bytes).jobs_with acc =
        (Action.change i ((w.write i bytes).job request.entry)).run (w.jobs_with acc) := by
      have hsame : (w.write i bytes).pending = w.pending ∧
          (w.write i bytes).running = w.running ∧ (w.write i bytes).unreaped = w.unreaped := by
        rw [write, hptr]
        exact ⟨rfl, rfl, rfl⟩
      obtain ⟨hpending, hrunning, hunreaped⟩ := hsame
      simp only [jobs_with, Action.run, hpending, hrunning, hunreaped]
      congr 1
      · refine List.map_congr_left fun entry hentry => hother entry ?_
        exact List.mem_append_left _ (List.mem_append_left _ (List.mem_append_left _ hentry))
      · refine map_eq_set hrun fun entry hentry => hother entry ?_
        have hfinish : entry ∈ (w.finish i).running := by
          rw [running, List.eraseIdx_map] at hentry
          exact hentry
        exact List.mem_append_left _ (List.mem_append_left _ (List.mem_append_right _ hfinish))
      · refine List.map_congr_left fun cqe hcqe => ?_
        rw [hother cqe.origin]
        rcases List.mem_append.mp hcqe with hacc | hunreaped'
        · exact List.mem_append_right _ (List.mem_map_of_mem hacc)
        · exact List.mem_append_left _ (List.mem_append_right _ (List.mem_map_of_mem hunreaped'))
    have hwrites : (w.writes (.write i bytes)).map
        (fun write => (write.1, write.1.written write.2)) =
          [(w.job request.entry, (w.write i bytes).job request.entry)] := by
      simp [writes, hrequest, hbuffer, hself]
    rw [hchange, hwrites]
    refine Silent.change ?_ ⟨?_, bytes, hself⟩
    · simp [jobs_with, hrun]
    · rw [job, Entry.job, Operation.demand_receives, hbuffer]
      rfl

/-- **Step lemma**: what the kernel does on its own, the service does without
    taking or handing out a job. -/
theorem Sound.kernel_silent (h : w.Sound acc) (ev : KernelEvent) :
    Silent Job.Filled ((w.writes ev).map fun write => (write.1, write.1.written write.2))
      (w.losses ev) (w.jobs_with acc) ((w.kernel_step ev).jobs_with acc) := by
  cases ev with
  | consume k =>
    have hstart : (w.consume k).jobs_with acc = (Action.start k).run (w.jobs_with acc) := by
      simp only [jobs_with, Action.run, job_congr (w.consume_owned_data k), consume_pending,
        consume_running, consume_unreaped, List.map_drop, List.map_take, List.map_append]
    show Silent _ [] [] _ ((w.consume k).jobs_with acc)
    rw [hstart]
    exact .start k
  | complete i result => exact complete_silent w acc i result
  | complete_silently i =>
    have hdrop : (w.finish i).jobs_with acc = (Action.drop i).run (w.jobs_with acc) := by
      simp only [jobs_with, Action.run, finish, running, List.eraseIdx_map]
      rfl
    show Silent _ [] (((w.kernel.inflight[i]?).toList.map (·.entry)).map w.job) _
      ((w.finish i).jobs_with acc)
    rw [hdrop, ← w.inflight_job acc]
    exact .drop i
  | fail_chain i result =>
    -- The rest of the chain ends first, then the request is answered.
    have hjob : (w.cancel_rest i).job = w.job := job_congr rfl
    have hunposted : (w.cancel_rest i).unposted i = w.unposted i := by
      simp only [unposted, cancel_rest_getElem?, (cancel_rest_sameProcess w i).is_open]
    have hcomplete := complete_silent (w.cancel_rest i) acc i result
    rw [hjob, hunposted] at hcomplete
    have hrest : (w.cancel_rest i).jobs_with acc =
        { w.jobs_with acc with
          running := (w.jobs_with acc).running.take (i + 1) ++
            ((w.jobs_with acc).running.drop (i + 1)).drop (w.cancelled i).length } := by
      simp only [jobs_with, cancel_rest, running, List.map_append, List.map_take, List.map_drop]
      rfl
    have hcancelled : ((w.jobs_with acc).running.drop (i + 1)).take (w.cancelled i).length =
        ((w.cancelled i).map (·.entry)).map w.job := by
      simp only [jobs_with, running, ← List.map_drop, ← List.map_take]
      rw [← List.prefix_iff_eq_take.mp (w.cancelled_prefix i)]
    have hdropped : Silent Job.Filled [] (((w.cancelled i).map (·.entry)).map w.job)
        (w.jobs_with acc) ((w.cancel_rest i).jobs_with acc) := by
      rw [hrest, ← hcancelled]
      exact Silent.drop_behind _ (i + 1) (w.cancelled i).length
    refine (hdropped.trans hcomplete).of_perm ?_
    rw [losses, dropped, List.map_append]
    exact List.perm_append_comm
  | write i bytes => exact h.write_silent i bytes
  | flush =>
    have howned : w.flush.ring.owned_data = w.ring.owned_data := by
      unfold flush
      split <;> rfl
    have hsame : w.flush.jobs_with acc = w.jobs_with acc := by
      simp only [jobs_with, flush_pending, flush_running, flush_unreaped, job_congr howned]
    show Silent _ [] [] _ (w.flush.jobs_with acc)
    rw [hsame]
    exact .refl _
  | tick nanos => exact .refl _

end kernel

/-! ### Reaping -/

section reap

variable {w : World} {acc : List Cqe}

theorem Sound.drained (h : w.Sound acc) : w.drained.Sound (acc ++ w.cq) := by
  have hperm : (w.live ++ acc.map (·.origin)).Perm
      (w.drained.live ++ (acc ++ w.cq).map (·.origin)) := by
    rw [List.map_append]
    refine (w.drained_live.append_right _).trans ?_
    rw [List.append_assoc]
    exact List.Perm.append_left _ List.perm_append_comm
  constructor
  · exact (hperm.pairwise_iff ToldApart.symm).mp h.apart
  · intro entry hentry
    exact h.backed entry (hperm.mem_iff.mpr hentry)

theorem drained_jobs (w : World) (acc : List Cqe) :
    w.drained.jobs_with (acc ++ w.cq) = w.jobs_with acc := by
  simp only [jobs_with, job_congr w.drained_owned_data, drained_pending, running, drained_kernel,
    List.append_assoc, ← w.drained_unreaped]

/-- The writes of several steps of the kernel. -/
def all_writes (history : List (World × KernelEvent)) : List (Job × List UInt8) :=
  history.flatMap fun step => step.1.writes step.2

/-- The jobs that several steps of the kernel end without a completion. -/
def all_losses (history : List (World × KernelEvent)) : List Job :=
  history.flatMap fun step => step.1.losses step.2

/-- The drain loop hands nothing out yet. -/
theorem Sound.drain (h : w.Sound []) (bursts : List (List KernelEvent)) :
    (drain bursts w).2.Sound (drain bursts w).1 ∧
      Silent Job.Filled
        ((all_writes (drain_history bursts w)).map fun write => (write.1, write.1.written write.2))
        (all_losses (drain_history bursts w)) w.jobs
        ((drain bursts w).2.jobs_with (drain bursts w).1) := by
  refine drain_history_invariant (C := fun _ _ => True)
    (I := fun acc w' past => w'.Sound acc ∧
      Silent Job.Filled ((all_writes past).map fun write => (write.1, write.1.written write.2))
        (all_losses past) w.jobs (w'.jobs_with acc)) ?_ ?_
    (drain_meets_true bursts w) [] [] ⟨h, .refl _⟩
  · intro acc w' past hpair
    obtain ⟨hsound, hsilent⟩ := hpair
    exact ⟨hsound.drained, by rwa [w'.drained_jobs]⟩
  · intro acc w' past ev hpair _
    obtain ⟨hsound, hsilent⟩ := hpair
    have hnext := hsilent.trans (hsound.kernel_silent ev)
    refine ⟨hsound.kernel_step ev, ?_⟩
    simpa only [all_writes, all_losses, List.flatMap_append, List.flatMap_singleton,
      List.map_append] using hnext

/-- The ring once what was owned for `acc` is given back. -/
def given_back (w : World) (acc : List Cqe) : World :=
  { w with ring := { w.ring with owned_data := (complete_entries w.ring.owned_data acc).2 } }

/-- Giving back changes no job that is left. -/
theorem Sound.given_back_job (h : w.Sound acc) {entry : Entry} (hentry : entry ∈ w.live) :
    (w.given_back acc).job entry = w.job entry := by
  rw [job, job, given_back]
  simp only [complete_entries_owned_data]
  split
  · next hkey =>
    -- Only timeouts share a key, and under theirs nothing is owned.
    obtain ⟨cqe, hcqe, heq⟩ := List.mem_map.mp hkey
    have hapart := (List.pairwise_append.mp h.apart).2.2 entry hentry cqe.origin
      (List.mem_map_of_mem hcqe)
    have hbacked := h.backed entry (List.mem_append_left _ hentry)
    rw [Entry.backed_by, Operation.pointer_of_is_timeout (hapart.1 heq.symm).1] at hbacked
    rw [hbacked]
  · rfl

/-- The events are those of the jobs handed out. -/
theorem Sound.events_eq (h : w.Sound acc) :
    (complete_entries w.ring.owned_data acc).1 =
      acc.map fun cqe => (w.job cqe.origin).event cqe.result := by
  have hpairwise : acc.Pairwise fun cqe cqe' => cqe.user_data = cqe'.user_data →
      w.ring.owned_data cqe.user_data = none := by
    have hapart := (List.pairwise_append.mp h.apart).2.1
    rw [List.pairwise_map] at hapart
    apply hapart.imp_of_mem
    intro cqe cqe' hcqe _ hcqes heq
    have hbacked := h.backed cqe.origin (List.mem_append_right _ (List.mem_map_of_mem hcqe))
    rwa [Entry.backed_by, Operation.pointer_of_is_timeout (hcqes.1 heq).1] at hbacked
  rw [complete_entries_of_pairwise hpairwise]
  exact List.map_congr_left fun cqe _ => cqe.event_eq _

end reap

/-! ### Taking jobs -/

end World

/-- What a ring does for its caller, and what becomes of its jobs meanwhile. -/
structure Dealings where
  requests : List Job
  events : List CompletionEvent
  /-- The jobs that the kernel wrote for, each as it was then, and the bytes. -/
  writes : List (Job × List UInt8)
  /-- The jobs that ended without an event. -/
  gone : List Job

def Dealings.nothing : Dealings := ⟨[], [], [], []⟩

/-- One after the other. -/
instance : Append Dealings where
  append dealings dealings' :=
    ⟨dealings.requests ++ dealings'.requests, dealings.events ++ dealings'.events,
      dealings.writes ++ dealings'.writes, dealings.gone ++ dealings'.gone⟩

namespace World

/-- `w.Serves dealings w'`: seen as a service, the ring did what `dealings` says on
    the way from `w` to `w'`. -/
def Serves (w : World) (dealings : Dealings) (w' : World) : Prop :=
  ∃ atr, Path ring_service w.jobs atr w'.jobs ∧ requested atr = dealings.requests ∧
    (handed_out atr).map (fun out => out.1.event out.2) = dealings.events ∧
    changed atr = (dealings.writes.map fun write => (write.1, write.1.written write.2)) ∧
    (lost atr).Perm dealings.gone

section serves

variable {w w' w'' : World}

theorem Serves.of_silent {writes : List (Job × List UInt8)} {gone : List Job}
    (h : Silent Job.Filled (writes.map fun write => (write.1, write.1.written write.2)) gone
      w.jobs w'.jobs) : w.Serves ⟨[], [], writes, gone⟩ w' := by
  obtain ⟨atr, hpath, hrequested, hhanded, hchanged, hlost⟩ := h
  exact ⟨atr, hpath, hrequested, by rw [hhanded]; rfl, hchanged, hlost⟩

/-- The ring moves its jobs on, and nothing else happens. -/
theorem Serves.quiet (h : Silent Job.Filled [] [] w.jobs w'.jobs) : w.Serves .nothing w' :=
  .of_silent h

theorem Serves.refl (w : World) : w.Serves .nothing w := .quiet (.refl _)

theorem Serves.trans {dealings dealings' : Dealings} (h : w.Serves dealings w')
    (h' : w'.Serves dealings' w'') : w.Serves (dealings ++ dealings') w'' := by
  obtain ⟨atr, hpath, hrequested, hhanded, hchanged, hlost⟩ := h
  obtain ⟨atr', hpath', hrequested', hhanded', hchanged', hlost'⟩ := h'
  refine ⟨atr ++ atr', hpath.append hpath', ?_, ?_, ?_, ?_⟩
  · rw [requested_append, hrequested, hrequested']
    rfl
  · rw [handed_out_append, List.map_append, hhanded, hhanded']
    rfl
  · rw [changed_append, hchanged, hchanged', ← List.map_append]
    rfl
  · rw [lost_append]
    exact hlost.append hlost'

theorem Serves.consume (w : World) (k : Nat) : w.Serves .nothing (w.consume k) := by
  have hstart : (w.consume k).jobs = (Action.start k).run w.jobs := by
    simp only [jobs, jobs_with, Action.run, job_congr (w.consume_owned_data k), consume_pending,
      consume_running, consume_unreaped, List.map_drop, List.map_take, List.map_append]
  exact .quiet (hstart ▸ .start k)

theorem Serves.resubmitted {answer : Enter} (h : Resubmitted answer w w') :
    w.Serves .nothing w' := by
  cases h with
  | unchanged => exact .refl w
  | consumed hopen hfull hauto k hanswer => exact .consume w k

theorem Serves.enter (w : World) (answer : Enter) : w.Serves .nothing (w.enter answer) := by
  cases answer with
  | error errno => exact .refl w
  | ok k => exact .consume w k

/-- Closing throws away what is queued and what has its result. -/
theorem Serves.shut (w : World) :
    w.Serves ⟨[], [], [], w.jobs.queued ++ w.jobs.answered.map (·.1)⟩
      { w with ring := { w.ring with the_io_uring := none } } := by
  apply Serves.of_silent
  exact Silent.shut w.jobs

/-- An entry with a key of its own brings a job of its own. -/
theorem Serves.push {entry : Entry} {owned : Option OwnedData} (hroom : w.has_room)
    (hfree : w.ring.owned_data entry.user_data = none)
    (hother : ∀ old ∈ w.live, old.user_data = entry.user_data → owned = none) :
    w.Serves ⟨[entry.job owned], [], [], []⟩ ((w.push entry).own entry.user_data owned) := by
  have hold : ∀ old ∈ w.live, ((w.push entry).own entry.user_data owned).job old = w.job old := by
    intro old hmem
    rw [job, job, own_owned_data, push_owned_data]
    split
    · next heq => simp [hother old hmem heq]
    · rfl
  have hnew : ((w.push entry).own entry.user_data owned).job entry = entry.job owned := by
    rw [job, own_owned_data, push_owned_data, if_pos rfl, hfree]
    simp
  have hrequest : ((w.push entry).own entry.user_data owned).jobs =
      (Action.request (entry.job owned)).run w.jobs := by
    simp only [jobs, jobs_with, Action.run, own_pending, push_pending hroom, List.map_append,
      List.map_cons, List.map_nil, hnew, running, own_kernel, push_kernel, own_unreaped,
      push_unreaped, List.nil_append]
    congr 1
    · congr 1
      refine List.map_congr_left fun old hmem => hold old ?_
      exact List.mem_append_left _ (List.mem_append_left _ hmem)
    · refine List.map_congr_left fun old hmem => hold old ?_
      exact List.mem_append_left _ (List.mem_append_right _ hmem)
    · refine List.map_congr_left fun cqe hmem => ?_
      rw [hold cqe.origin (List.mem_append_right _ (List.mem_map_of_mem hmem))]
  obtain ⟨atr, hpath, hrequested, hhanded, hchanged, hlost⟩ :=
    path_single Job.Filled w.jobs (.request (entry.job owned)) trivial
  exact ⟨atr, hrequest ▸ hpath, hrequested, by rw [hhanded]; rfl, hchanged, .of_eq hlost⟩

/-- Reaping hands out the jobs of what was drained. -/
theorem Sound.serves_reap (h : w.Sound []) (bursts : List (List KernelEvent)) :
    w.Serves
      { requests := []
        events := (complete_entries (World.drain bursts w).2.ring.owned_data
          (World.drain bursts w).1).1
        writes := all_writes (drain_history bursts w)
        gone := all_losses (drain_history bursts w) }
      ((World.drain bursts w).2.given_back (World.drain bursts w).1) := by
  obtain ⟨hsound, hsilent⟩ := h.drain bursts
  generalize World.drain bursts w = out at hsound hsilent ⊢
  obtain ⟨acc, w'⟩ := out
  obtain ⟨atr, hpath, hrequested, hhanded, hchanged, hlost⟩ := hsilent
  have hdeliver : (w'.given_back acc).jobs =
      (Action.deliver acc.length).run (w'.jobs_with acc) := by
    have hjob : ∀ entry ∈ w'.live, (w'.given_back acc).job entry = w'.job entry :=
      fun entry hentry => hsound.given_back_job hentry
    simp only [jobs, jobs_with, Action.run, List.map_append, List.nil_append,
      List.drop_left' (List.length_map _)]
    congr 1
    · refine List.map_congr_left fun entry hmem => hjob entry ?_
      exact List.mem_append_left _ (List.mem_append_left _ hmem)
    · refine List.map_congr_left fun entry hmem => hjob entry ?_
      exact List.mem_append_left _ (List.mem_append_right _ hmem)
    · refine List.map_congr_left fun cqe hmem => ?_
      rw [hjob cqe.origin (List.mem_append_right _ (List.mem_map_of_mem hmem))]
  obtain ⟨atr', hpath', hrequested', hhanded', hchanged', hlost'⟩ := path_single Job.Filled
    (w'.jobs_with acc) (.deliver acc.length) trivial
  refine ⟨atr ++ atr', hdeliver ▸ hpath.append hpath', ?_, ?_, ?_, ?_⟩
  · rw [requested_append, hrequested, hrequested']
    rfl
  · rw [handed_out_append, hhanded, hhanded', hsound.events_eq]
    simp only [List.nil_append, Action.deliveries, jobs_with, List.map_append,
      List.take_left' (List.length_map _), List.map_map, Function.comp_def]
  · rw [changed_append, hchanged, hchanged']
    exact List.append_nil _
  · rw [lost_append, hlost']
    exact (List.Perm.of_eq (List.append_nil _)).trans hlost

end serves

end World

end CenturyRing
