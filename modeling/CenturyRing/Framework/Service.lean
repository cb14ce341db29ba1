import CenturyRing.Framework.System
import Mathlib.Data.List.Perm.Basic
import Mathlib.Logic.Relation

/-! # Asynchronous services

  A service takes jobs, works on some of them at a time, and hands out their
  results later. A job is a value and carries the data it works on, so no two
  jobs share anything. While a job is running the service may change it as
  `Changes` allows; this is how it fills in what the job is to receive.

  - `service`: the service as a transition system.
  - `Silent`: what it can do while it neither takes a job nor hands one out.
  - `conserved`: no job is made up, doubled or mixed up with another.
  - `conserved_by_key`: if the jobs that are changed can be told by a key, the
    changes logged under its key are all that happened to a job.
-/

open LTS

namespace Service

universe u v

variable {Job : Type u} {Result : Type v}

/-- The jobs of a service, by how far they have got. -/
structure Jobs (Job : Type u) (Result : Type v) where
  queued : List Job
  running : List Job
  answered : List (Job × Result)

/-- A service without jobs. -/
def Jobs.idle : Jobs Job Result := ⟨[], [], []⟩

/-- Every job the service has not handed out yet. -/
def Jobs.all (jobs : Jobs Job Result) : List Job :=
  jobs.queued ++ jobs.running ++ jobs.answered.map (·.1)

inductive Action (Job : Type u) (Result : Type v) where
  /-- A job is requested. -/
  | request (job : Job)
  /-- The first `k` queued jobs begin to run. -/
  | start (k : Nat)
  /-- The `i`-th running job becomes `job`. -/
  | change (i : Nat) (job : Job)
  /-- The `i`-th running job has its result. -/
  | answer (i : Nat) (result : Result)
  /-- The `i`-th running job ends without a result. -/
  | drop (i : Nat)
  /-- The first `n` jobs with a result are handed out. -/
  | deliver (n : Nat)
  /-- What is queued and what has its result is thrown away. -/
  | shut

namespace Action

def run (a : Action Job Result) (jobs : Jobs Job Result) : Jobs Job Result :=
  match a with
  | request job => { jobs with queued := jobs.queued ++ [job] }
  | start k =>
    { jobs with queued := jobs.queued.drop k, running := jobs.running ++ jobs.queued.take k }
  | change i job => { jobs with running := jobs.running.set i job }
  | answer i result =>
    { jobs with
      running := jobs.running.eraseIdx i
      answered := jobs.answered ++ jobs.running[i]?.toList.map fun job => (job, result) }
  | drop i => { jobs with running := jobs.running.eraseIdx i }
  | deliver n => { jobs with answered := jobs.answered.drop n }
  | shut => { jobs with queued := [], answered := [] }

/-- Only a change is subject to a condition. -/
def permitted (Changes : Job → Job → Prop) (a : Action Job Result) (jobs : Jobs Job Result) :
    Prop :=
  match a with
  | change i job => ∃ old, jobs.running[i]? = some old ∧ Changes old job
  | _ => True

/-- The jobs taken. -/
def requests : Action Job Result → List Job
  | request job => [job]
  | _ => []

/-- The jobs handed out, with their results. -/
def deliveries (a : Action Job Result) (jobs : Jobs Job Result) : List (Job × Result) :=
  match a with
  | deliver n => jobs.answered.take n
  | _ => []

/-- The jobs that end without being handed out. -/
def losses (a : Action Job Result) (jobs : Jobs Job Result) : List Job :=
  match a with
  | drop i => jobs.running[i]?.toList
  | shut => jobs.queued ++ jobs.answered.map (·.1)
  | _ => []

/-- The jobs changed, each with what it becomes. -/
def changes (a : Action Job Result) (jobs : Jobs Job Result) : List (Job × Job) :=
  match a with
  | change i job => jobs.running[i]?.toList.map fun old => (old, job)
  | _ => []

end Action

/-- A service that may change a running job as `Changes` says. -/
def service (Changes : Job → Job → Prop) : System (Jobs Job Result) (Action Job Result) where
  init := fun jobs => jobs = .idle
  step := fun jobs a jobs' => a.permitted Changes jobs ∧ jobs' = a.run jobs

/-! ### Histories -/

abbrev Trace (Job : Type u) (Result : Type v) := List (Step (Jobs Job Result) (Action Job Result))

/-- The jobs taken, in order. -/
def requested (tr : Trace Job Result) : List Job := tr.flatMap fun t => t.label.requests

/-- The jobs handed out, in order. -/
def handed_out (tr : Trace Job Result) : List (Job × Result) :=
  tr.flatMap fun t => t.label.deliveries t.src

/-- The jobs that ended without being handed out. -/
def lost (tr : Trace Job Result) : List Job := tr.flatMap fun t => t.label.losses t.src

/-- The changes made, in order. -/
def changed (tr : Trace Job Result) : List (Job × Job) :=
  tr.flatMap fun t => t.label.changes t.src

@[simp] theorem requested_append (tr tr' : Trace Job Result) :
    requested (tr ++ tr') = requested tr ++ requested tr' := by
  simp [requested]

@[simp] theorem handed_out_append (tr tr' : Trace Job Result) :
    handed_out (tr ++ tr') = handed_out tr ++ handed_out tr' := by
  simp [handed_out]

@[simp] theorem lost_append (tr tr' : Trace Job Result) :
    lost (tr ++ tr') = lost tr ++ lost tr' := by
  simp [lost]

@[simp] theorem changed_append (tr tr' : Trace Job Result) :
    changed (tr ++ tr') = changed tr ++ changed tr' := by
  simp [changed]

/-! ### Silent paths -/

section silent

variable {Changes : Job → Job → Prop} {jobs jobs' jobs'' : Jobs Job Result}
         {changes changes' : List (Job × Job)} {gone gone' : List Job}

theorem path_single (Changes : Job → Job → Prop) (jobs : Jobs Job Result) (a : Action Job Result)
    (hpermitted : a.permitted Changes jobs) :
    ∃ tr, Path (service Changes) jobs tr (a.run jobs) ∧ requested tr = a.requests ∧
      handed_out tr = a.deliveries jobs ∧ changed tr = a.changes jobs ∧
      lost tr = a.losses jobs :=
  ⟨_, .single ⟨hpermitted, rfl⟩, by simp [requested], by simp [handed_out], by simp [changed],
    by simp [lost]⟩

/-- The service gets from `jobs` to `jobs'` without taking or handing out a job.
    It makes the `changes`, and the jobs in `gone` are lost on the way. -/
def Silent (Changes : Job → Job → Prop) (changes : List (Job × Job)) (gone : List Job)
    (jobs jobs' : Jobs Job Result) : Prop :=
  ∃ tr, Path (service Changes) jobs tr jobs' ∧ requested tr = [] ∧ handed_out tr = [] ∧
    changed tr = changes ∧ (lost tr).Perm gone

theorem Silent.refl (jobs : Jobs Job Result) : Silent Changes [] [] jobs jobs :=
  ⟨[], .nil, rfl, rfl, rfl, .refl _⟩

theorem Silent.trans (h : Silent Changes changes gone jobs jobs')
    (h' : Silent Changes changes' gone' jobs' jobs'') :
    Silent Changes (changes ++ changes') (gone ++ gone') jobs jobs'' := by
  obtain ⟨tr, hpath, hrequested, hhanded, hchanged, hlost⟩ := h
  obtain ⟨tr', hpath', hrequested', hhanded', hchanged', hlost'⟩ := h'
  refine ⟨tr ++ tr', hpath.append hpath', ?_, ?_, ?_, ?_⟩
  · rw [requested_append, hrequested, hrequested', List.append_nil]
  · rw [handed_out_append, hhanded, hhanded', List.append_nil]
  · rw [changed_append, hchanged, hchanged']
  · rw [lost_append]
    exact hlost.append hlost'

theorem Silent.of_perm (h : Silent Changes changes gone jobs jobs') (hgone : gone.Perm gone') :
    Silent Changes changes gone' jobs jobs' := by
  obtain ⟨tr, hpath, hrequested, hhanded, hchanged, hlost⟩ := h
  exact ⟨tr, hpath, hrequested, hhanded, hchanged, hlost.trans hgone⟩

theorem Silent.single {a : Action Job Result} (hpermitted : a.permitted Changes jobs)
    (hrequests : a.requests = []) (hdeliveries : a.deliveries jobs = []) :
    Silent Changes (a.changes jobs) (a.losses jobs) jobs (a.run jobs) := by
  obtain ⟨tr, hpath, hrequested, hhanded, hchanged, hlost⟩ := path_single _ _ _ hpermitted
  exact ⟨tr, hpath, hrequested.trans hrequests, hhanded.trans hdeliveries, hchanged, .of_eq hlost⟩

theorem Silent.start (k : Nat) : Silent Changes [] [] jobs ((Action.start k).run jobs) :=
  .single trivial rfl rfl

theorem Silent.answer (i : Nat) (result : Result) :
    Silent Changes [] [] jobs ((Action.answer i result).run jobs) :=
  .single trivial rfl rfl

theorem Silent.drop (i : Nat) :
    Silent Changes [] jobs.running[i]?.toList jobs ((Action.drop i).run jobs) :=
  .single trivial rfl rfl

theorem Silent.change {i : Nat} {old job : Job} (hold : jobs.running[i]? = some old)
    (hchange : Changes old job) :
    Silent Changes [(old, job)] [] jobs ((Action.change i job).run jobs) := by
  have hchanges : (Action.change i job).changes jobs = [(old, job)] := by
    simp [Action.changes, hold]
  rw [← hchanges]
  exact .single ⟨old, hold, hchange⟩ rfl rfl

theorem Silent.shut (jobs : Jobs Job Result) :
    Silent Changes [] (jobs.queued ++ jobs.answered.map (·.1)) jobs (Action.shut.run jobs) :=
  .single trivial rfl rfl

/-- Several running jobs behind the first `m` can end without a result. -/
theorem Silent.drop_behind (jobs : Jobs Job Result) (m n : Nat) :
    Silent Changes [] ((jobs.running.drop m).take n) jobs
      { jobs with running := jobs.running.take m ++ (jobs.running.drop m).drop n } := by
  induction n with
  | zero =>
    rw [List.drop_zero, List.take_append_drop, List.take_zero]
    exact .refl jobs
  | succ n ih =>
    -- The next job to go is the one behind the first `m`.
    have hnext : (jobs.running.take m ++ (jobs.running.drop m).drop n).eraseIdx m =
        jobs.running.take m ++ (jobs.running.drop m).drop (n + 1) := by
      by_cases hm : m ≤ jobs.running.length
      · have hlength : (jobs.running.take m).length = m := by simp [hm]
        rw [List.eraseIdx_append_of_length_le (by omega), hlength, Nat.sub_self,
          List.eraseIdx_zero, List.tail_drop]
      · have hdrop : jobs.running.drop m = [] := List.drop_eq_nil_of_le (by omega)
        rw [hdrop, List.drop_nil, List.drop_nil, List.append_nil, List.eraseIdx_of_length_le]
        simp only [List.length_take]
        omega
    have hgone : (jobs.running.take m ++ (jobs.running.drop m).drop n)[m]? =
        (jobs.running.drop m)[n]? := by
      by_cases hm : m ≤ jobs.running.length
      · have hlength : (jobs.running.take m).length = m := by simp [hm]
        rw [List.getElem?_append_right (by omega), hlength, Nat.sub_self, List.getElem?_drop,
          Nat.add_zero]
      · have hdrop : jobs.running.drop m = [] := List.drop_eq_nil_of_le (by omega)
        rw [hdrop, List.drop_nil, List.append_nil, List.getElem?_nil, List.getElem?_eq_none]
        simp only [List.length_take]
        omega
    rw [← hnext, List.take_add_one, ← hgone]
    exact ih.trans (.drop m)

end silent

/-! ### Conservation -/

section conservation

variable {Changes : Job → Job → Prop} {jobs jobs' : Jobs Job Result} {tr : Trace Job Result}

/-- Every job of `taken` is, changed or not, one of `left`, and every job of
    `left` one of `taken`. -/
def Accounted (Changes : Job → Job → Prop) (taken left : List Job) : Prop :=
  ∃ order, taken.Perm order ∧ List.Forall₂ (Relation.ReflTransGen Changes) order left

theorem Accounted.of_perm {taken left : List Job} (h : taken.Perm left) :
    Accounted Changes taken left :=
  ⟨left, h, List.forall₂_refl left⟩

theorem Accounted.perm {taken left left' : List Job} (h : Accounted Changes taken left)
    (hperm : left.Perm left') : Accounted Changes taken left' := by
  obtain ⟨order, horder, hleft⟩ := h
  have hcomp : Relation.Comp (List.Forall₂ (Relation.ReflTransGen Changes)) List.Perm order left' :=
    ⟨left, hleft, hperm⟩
  rw [List.forall₂_comp_perm_eq_perm_comp_forall₂] at hcomp
  obtain ⟨order', horder', hleft'⟩ := hcomp
  exact ⟨order', horder.trans horder', hleft'⟩

theorem Accounted.append {taken left more : List Job} (h : Accounted Changes taken left) :
    Accounted Changes (taken ++ more) (left ++ more) := by
  obtain ⟨order, horder, hleft⟩ := h
  exact ⟨order ++ more, horder.append_right more, List.rel_append hleft (List.forall₂_refl more)⟩

/-- Each job left is one of those taken. -/
theorem Accounted.of_mem {taken left : List Job} (h : Accounted Changes taken left) {job : Job}
    (hjob : job ∈ left) : ∃ old ∈ taken, Relation.ReflTransGen Changes old job := by
  obtain ⟨order, horder, hleft⟩ := h
  have hold : ∃ old ∈ order, Relation.ReflTransGen Changes old job := by
    clear horder
    induction hleft with
    | nil => simp at hjob
    | @cons a b order left hab hleft ih =>
      rcases List.mem_cons.mp hjob with rfl | hjob
      · exact ⟨a, List.mem_cons_self, hab⟩
      · obtain ⟨old, hmem, hold⟩ := ih hjob
        exact ⟨old, List.mem_cons_of_mem a hmem, hold⟩
  obtain ⟨old, hmem, hold⟩ := hold
  exact ⟨old, horder.mem_iff.mpr hmem, hold⟩

/-- One of the jobs left is changed once more. -/
theorem Accounted.set {taken left : List Job} (h : Accounted Changes taken left) {i : Nat}
    {old job : Job} (hold : left[i]? = some old) (hchange : Changes old job) :
    Accounted Changes taken (left.set i job) := by
  obtain ⟨order, horder, hleft⟩ := h
  refine ⟨order, horder, ?_⟩
  clear horder
  induction hleft generalizing i with
  | nil => simp at hold
  | @cons a b order left hab hleft ih =>
    cases i with
    | zero =>
      obtain rfl : b = old := by simpa using hold
      exact .cons (hab.tail hchange) hleft
    | succ i => exact .cons hab (ih (by simpa using hold))

/-- An element taken out of a list, and what is left of the list. -/
theorem eraseIdx_perm (l : List Job) (i : Nat) : l.Perm (l.eraseIdx i ++ l[i]?.toList) := by
  by_cases hi : i < l.length
  · rw [List.getElem?_eq_getElem hi]
    exact (List.getElem_cons_eraseIdx_perm hi).symm.trans (List.perm_append_singleton _ _).symm
  · rw [List.getElem?_eq_none (Nat.not_lt.mp hi), List.eraseIdx_of_length_le (Nat.not_lt.mp hi)]
    simp

/-- A step that changes no job only moves jobs on. -/
theorem Action.moves {a : Action Job Result} (hchange : ∀ i job, a ≠ .change i job)
    (jobs : Jobs Job Result) :
    (jobs.all ++ a.requests).Perm
      ((a.run jobs).all ++ (a.deliveries jobs).map (·.1) ++ a.losses jobs) := by
  classical
  apply List.perm_iff_count.mpr
  intro job
  cases a with
  | request job' =>
    simp only [Jobs.all, run, requests, deliveries, losses, List.count_append, List.map_nil,
      List.count_nil]
    omega
  | start k =>
    have hqueued : jobs.queued.count job =
        (jobs.queued.take k).count job + (jobs.queued.drop k).count job := by
      rw [← List.count_append, List.take_append_drop]
    simp only [Jobs.all, run, requests, deliveries, losses, List.count_append, List.map_nil,
      List.count_nil]
    omega
  | change i job' => exact absurd rfl (hchange i job')
  | answer i result =>
    have herase := (eraseIdx_perm jobs.running i).count_eq job
    have hjob : (jobs.running[i]?.toList.map fun job => (job, result)).map (·.1) =
        jobs.running[i]?.toList := by
      cases jobs.running[i]? <;> rfl
    simp only [Jobs.all, run, requests, deliveries, losses, List.map_append, hjob,
      List.count_append, List.map_nil, List.count_nil] at herase ⊢
    omega
  | drop i =>
    have herase := (eraseIdx_perm jobs.running i).count_eq job
    simp only [Jobs.all, run, requests, deliveries, losses, List.count_append, List.map_nil,
      List.count_nil] at herase ⊢
    omega
  | deliver n =>
    have hanswered : (jobs.answered.map (·.1)).count job =
        ((jobs.answered.take n).map (·.1)).count job +
          ((jobs.answered.drop n).map (·.1)).count job := by
      rw [← List.count_append, ← List.map_append, List.take_append_drop]
    simp only [Jobs.all, run, requests, deliveries, losses, List.count_append, List.count_nil]
    omega
  | shut =>
    simp only [Jobs.all, run, requests, deliveries, losses, List.count_append, List.map_nil,
      List.count_nil]
    omega

/-- The same beside jobs that are no longer there. -/
theorem Action.moves_beside {a : Action Job Result} (hchange : ∀ i job, a ≠ .change i job)
    (jobs : Jobs Job Result) (gone : List Job) :
    (jobs.all ++ gone ++ a.requests).Perm
      ((a.run jobs).all ++ (gone ++ ((a.deliveries jobs).map (·.1) ++ a.losses jobs))) := by
  have hmoves := (Action.moves hchange jobs).append_left gone
  have hleft : (jobs.all ++ gone ++ a.requests).Perm (gone ++ (jobs.all ++ a.requests)) := by
    rw [← List.append_assoc]
    exact List.perm_append_comm.append_right _
  refine hleft.trans (hmoves.trans ?_)
  rw [← List.append_assoc, ← List.append_assoc, ← List.append_assoc, ← List.append_assoc]
  exact (List.perm_append_comm.append_right _).append_right _

/-- A change replaces one job and leaves all others where they are. -/
theorem Action.change_all {i : Nat} {old : Job} (hold : jobs.running[i]? = some old) (job : Job)
    (gone : List Job) :
    (jobs.all ++ gone)[jobs.queued.length + i]? = some old ∧
      (Action.run (.change i job) jobs).all ++ gone =
        (jobs.all ++ gone).set (jobs.queued.length + i) job := by
  -- The job that is changed stands behind the queued ones.
  obtain ⟨hi, -⟩ := List.getElem?_eq_some_iff.mp hold
  simp only [Jobs.all, Action.run, List.append_assoc]
  constructor
  · rw [List.getElem?_append_right (Nat.le_add_right _ _), Nat.add_sub_cancel_left,
      List.getElem?_append_left hi, hold]
  · rw [List.set_append_right _ _ (Nat.le_add_right _ _), Nat.add_sub_cancel_left,
      List.set_append_left _ _ hi]

theorem Action.eq_change {a : Action Job Result} (h : ¬∀ i job, a ≠ .change i job) :
    ∃ i job, a = .change i job := by
  simpa only [not_forall, not_not] using h

/-- **Step lemma**: a step keeps account of every job taken. -/
theorem Accounted.step {taken gone : List Job} {a : Action Job Result}
    (h : Accounted Changes taken (jobs.all ++ gone)) (hpermitted : a.permitted Changes jobs) :
    Accounted Changes (taken ++ a.requests)
      ((a.run jobs).all ++ (gone ++ ((a.deliveries jobs).map (·.1) ++ a.losses jobs))) := by
  by_cases hchange : ∀ i job, a ≠ .change i job
  · exact h.append.perm (Action.moves_beside hchange jobs gone)
  · obtain ⟨i, job, rfl⟩ := Action.eq_change hchange
    obtain ⟨old, hold, hchange⟩ := hpermitted
    obtain ⟨hget, hset⟩ := Action.change_all hold job gone
    have hchanged := h.set hget hchange
    rw [← hset] at hchanged
    simpa [Action.requests, Action.deliveries, Action.losses] using hchanged

/-- The jobs the service has parted with: handed out, or lost. -/
def past (tr : Trace Job Result) : List Job := (handed_out tr).map (·.1) ++ lost tr

theorem past_snoc (tr : Trace Job Result) (t : Step (Jobs Job Result) (Action Job Result)) :
    (past tr ++ ((t.label.deliveries t.src).map (·.1) ++ t.label.losses t.src)).Perm
      (past (tr ++ [t])) := by
  simp only [past, handed_out, lost, List.flatMap_append, List.flatMap_singleton, List.map_append,
    List.append_assoc]
  refine List.Perm.append_left _ ?_
  simp only [← List.append_assoc]
  exact List.perm_append_comm.append_right _

/-- **Run lemma**: every job taken was handed out, ended otherwise, or is still
    there, and the only thing that happened to it are changes. -/
theorem conserved (h : Path (service Changes) .idle tr jobs) :
    Accounted Changes (requested tr) (jobs.all ++ past tr) := by
  refine h.trace_invariant
    (I := fun tr jobs => Accounted Changes (requested tr) (jobs.all ++ past tr)) ?_
    (.of_perm (.refl _))
  intro tr jobs a jobs' ih hstep
  obtain ⟨hpermitted, rfl⟩ := hstep
  have hpast := past_snoc tr ⟨jobs, a, a.run jobs⟩
  have hnext := (ih.step hpermitted).perm (hpast.append_left _)
  rw [requested_append]
  simpa [requested] using hnext

end conservation

/-! ### Changes logged under a key -/

section keyed

variable {Key : Type*} {Change : Type*} {key : Job → Key} {apply : Job → Change → Job}
         {Changes : Job → Job → Prop} {Open : Job → Prop}

/-- What a log of changes goes by: a change leaves the key alone, and only open
    jobs are changed, which no change makes out of others. -/
structure KeyedChanges (key : Job → Key) (apply : Job → Change → Job) (Changes : Job → Job → Prop)
    (Open : Job → Prop) : Prop where
  key_apply : ∀ job change, key (apply job change) = key job
  opens : ∀ job change, Open (apply job change) → Open job
  changes : ∀ old job, Changes old job → Open old

/-- The jobs can be told apart if one of them is open. -/
def Apart (key : Job → Key) (Open : Job → Prop) (job job' : Job) : Prop :=
  key job = key job' → ¬Open job ∧ ¬Open job'

theorem Apart.symm {job job' : Job} (h : Apart key Open job job') : Apart key Open job' job :=
  fun heq => (h heq.symm).symm

variable [DecidableEq Key]

/-- `job` with those changes in `log` that were made under its key. -/
def followed (key : Job → Key) (apply : Job → Change → Job) (log : List (Key × Change))
    (job : Job) : Job :=
  log.foldl (fun job entry => if entry.1 = key job then apply job entry.2 else job) job

theorem followed_cons (entry : Key × Change) (log : List (Key × Change)) (job : Job) :
    followed key apply (entry :: log) job =
      followed key apply log (if entry.1 = key job then apply job entry.2 else job) := rfl

theorem followed_snoc (log : List (Key × Change)) (entry : Key × Change) (job : Job) :
    followed key apply (log ++ [entry]) job =
      if entry.1 = key (followed key apply log job) then
        apply (followed key apply log job) entry.2
      else followed key apply log job := by
  simp only [followed, List.foldl_append]
  rfl

theorem followed_of_ne {log : List (Key × Change)} {job : Job}
    (hne : ∀ entry ∈ log, entry.1 ≠ key job) : followed key apply log job = job := by
  induction log with
  | nil => rfl
  | cons entry log ih =>
    obtain ⟨hentry, hlog⟩ := List.forall_mem_cons.mp hne
    rw [followed_cons, if_neg hentry, ih hlog]

namespace KeyedChanges

theorem key_followed (h : KeyedChanges key apply Changes Open) (log : List (Key × Change))
    (job : Job) : key (followed key apply log job) = key job := by
  induction log generalizing job with
  | nil => rfl
  | cons entry log ih =>
    rw [followed_cons, ih]
    split
    · exact h.key_apply _ _
    · rfl

theorem open_of_followed (h : KeyedChanges key apply Changes Open) {log : List (Key × Change)}
    {job : Job} (hopen : Open (followed key apply log job)) : Open job := by
  induction log generalizing job with
  | nil => exact hopen
  | cons entry log ih =>
    rw [followed_cons] at hopen
    have hnext := ih hopen
    split at hnext
    · exact h.opens _ _ hnext
    · exact hnext

/-- Jobs that can be told apart stay so. -/
theorem pairwise_followed (h : KeyedChanges key apply Changes Open) (log : List (Key × Change))
    {taken : List Job} (hapart : taken.Pairwise (Apart key Open)) :
    (taken.map (followed key apply log)).Pairwise (Apart key Open) := by
  rw [List.pairwise_map]
  refine hapart.imp ?_
  intro job job' hjobs heq
  rw [h.key_followed, h.key_followed] at heq
  exact ⟨fun hopen => (hjobs heq).1 (h.open_of_followed hopen),
    fun hopen => (hjobs heq).2 (h.open_of_followed hopen)⟩

end KeyedChanges

/-- Two maps that agree everywhere else differ in one element. -/
theorem map_eq_set {α β : Type*} {f g : α → β} {l : List α} {i : Nat} {a : α}
    (ha : l[i]? = some a) (h : ∀ b ∈ l.eraseIdx i, g b = f b) :
    l.map g = (l.map f).set i (g a) := by
  induction l generalizing i with
  | nil => simp at ha
  | cons b l ih =>
    cases i with
    | zero =>
      obtain rfl : b = a := by simpa using ha
      rw [List.map_cons, List.map_cons, List.set_cons_zero]
      exact congrArg _ (List.map_congr_left h)
    | succ i =>
      rw [List.eraseIdx_cons_succ, List.forall_mem_cons] at h
      rw [List.map_cons, List.map_cons, List.set_cons_succ, h.1, ih (by simpa using ha) h.2]

/-- A change under the key of an open job changes that job alone. -/
theorem map_change {left : List Job} (hapart : left.Pairwise (Apart key Open)) {p : Nat} {old : Job}
    (hold : left[p]? = some old) (hopen : Open old) (change : Change) :
    (left.map fun job => if key old = key job then apply job change else job) =
      left.set p (apply old change) := by
  have hself : (if key old = key old then apply old change else old) = apply old change :=
    if_pos rfl
  have hperm : left.Perm (old :: left.eraseIdx p) := by
    have herase := eraseIdx_perm left p
    rw [hold] at herase
    exact herase.trans (List.perm_append_singleton _ _)
  have halone := (List.pairwise_cons.mp ((hperm.pairwise_iff Apart.symm).mp hapart)).1
  have hmap := map_eq_set (f := id)
    (g := fun job => if key old = key job then apply job change else job) hold
    fun job hjob => if_neg fun heq => (halone job hjob heq).1 hopen
  rw [hmap, List.map_id, hself]

section run

variable {jobs : Jobs Job Result} {tr : Trace Job Result}

/-- What the log says of the jobs that were taken, they have become. -/
structure Logged (key : Job → Key) (apply : Job → Change → Job) (Open : Job → Prop)
    (log : List (Job × Change)) (taken left : List Job) : Prop where
  followed :
    (taken.map (followed key apply (log.map fun entry => (key entry.1, entry.2)))).Perm left
  taken : ∀ entry ∈ log, ∃ job ∈ taken, key job = key entry.1 ∧ Open job

/-- **Step lemma**: one more change. -/
theorem Logged.change (hkeyed : KeyedChanges key apply Changes Open) {log : List (Job × Change)}
    {taken left : List Job} (h : Logged key apply Open log taken left)
    (hapart : taken.Pairwise (Apart key Open)) {p : Nat} {old : Job} (hold : left[p]? = some old)
    (hopen : Open old) (change : Change) :
    Logged key apply Open (log ++ [(old, change)]) taken (left.set p (apply old change)) := by
  let keys := log.map fun entry => (key entry.1, entry.2)
  obtain ⟨hfollowed, htaken⟩ := h
  have hleft := (hfollowed.pairwise_iff Apart.symm).mp (hkeyed.pairwise_followed keys hapart)
  constructor
  · rw [← map_change hleft hold hopen change]
    refine (List.Perm.of_eq ?_).trans (hfollowed.map _)
    rw [List.map_map, List.map_append]
    exact List.map_congr_left fun job _ => followed_snoc keys (key old, change) job
  · intro entry hentry
    rcases List.mem_append.mp hentry with hmem | hmem
    · exact htaken entry hmem
    · obtain rfl := List.mem_singleton.mp hmem
      obtain ⟨job, hjob, heq⟩ := List.mem_map.mp (hfollowed.mem_iff.mpr (List.mem_of_getElem? hold))
      refine ⟨job, hjob, ?_, hkeyed.open_of_followed (heq.symm ▸ hopen)⟩
      show key job = key old
      rw [← heq, hkeyed.key_followed]

/-- **Step lemma**: jobs are taken. What was logged before is not about them. -/
theorem Logged.request {log : List (Job × Change)} {taken left new : List Job}
    (h : Logged key apply Open log taken left)
    (hapart : (taken ++ new).Pairwise (Apart key Open)) :
    Logged key apply Open log (taken ++ new) (left ++ new) := by
  obtain ⟨hfollowed, htaken⟩ := h
  constructor
  · let keys := log.map fun entry => (key entry.1, entry.2)
    have hsame : ∀ job ∈ new, Service.followed key apply keys job = job := by
      intro job hjob
      refine followed_of_ne fun entry hentry heq => ?_
      obtain ⟨change, hchange, rfl⟩ := List.mem_map.mp hentry
      obtain ⟨old, hold, hkey, hopen⟩ := htaken change hchange
      exact ((List.pairwise_append.mp hapart).2.2 old hold job hjob (hkey.trans heq)).1 hopen
    rw [List.map_append, (List.map_congr_left hsame).trans (List.map_id' new)]
    exact hfollowed.append_right new
  · intro entry hentry
    obtain ⟨job, hjob, hrest⟩ := htaken entry hentry
    exact ⟨job, List.mem_append_left _ hjob, hrest⟩

/-- **Run lemma**: if a log says what was changed, and the jobs that can be
    changed are told apart by the key, then every job taken is still there, was
    handed out or was lost as the log under its key has made it. -/
theorem conserved_by_key (hkeyed : KeyedChanges key apply Changes Open)
    (h : Path (service Changes) .idle tr jobs) {log : List (Job × Change)}
    (hlog : changed tr = log.map fun entry => (entry.1, apply entry.1 entry.2))
    (hapart : (requested tr).Pairwise (Apart key Open)) :
    Logged key apply Open log (requested tr) (jobs.all ++ past tr) := by
  refine h.trace_invariant (I := fun tr jobs => ∀ log : List (Job × Change),
    changed tr = (log.map fun entry => (entry.1, apply entry.1 entry.2)) →
    (requested tr).Pairwise (Apart key Open) →
    Logged key apply Open log (requested tr) (jobs.all ++ past tr)) ?_ ?_ log hlog hapart
  · intro tr jobs a jobs' ih hstep log hlog hapart
    obtain ⟨hpermitted, rfl⟩ := hstep
    have hpast := past_snoc tr ⟨jobs, a, a.run jobs⟩
    have hrequested : requested (tr ++ [⟨jobs, a, a.run jobs⟩]) = requested tr ++ a.requests := by
      simp [requested]
    have hchanged : changed (tr ++ [⟨jobs, a, a.run jobs⟩]) = changed tr ++ a.changes jobs := by
      simp [changed]
    rw [hrequested] at hapart ⊢
    rw [hchanged] at hlog
    have hbefore := (List.pairwise_append.mp hapart).1
    by_cases hchange : ∀ i job, a ≠ .change i job
    · have hnone : a.changes jobs = [] := by
        cases a with
        | change i job => exact absurd rfl (hchange i job)
        | _ => rfl
      rw [hnone, List.append_nil] at hlog
      obtain ⟨hfollowed, htaken⟩ := (ih log hlog hbefore).request hapart
      refine ⟨hfollowed.trans ?_, htaken⟩
      exact (Action.moves_beside hchange jobs (past tr)).trans (hpast.append_left _)
    · obtain ⟨i, job, rfl⟩ := Action.eq_change hchange
      obtain ⟨old, hold, hchanges⟩ := hpermitted
      -- The last entry of the log is the one about this change.
      have hone : Action.changes (.change i job) jobs = [(old, job)] := by
        simp [Action.changes, hold]
      rw [hone] at hlog
      obtain ⟨front, last, rfl, hfront, hlast⟩ := List.append_eq_map_iff.mp hlog
      obtain ⟨entry, rfl, hentry⟩ := List.map_eq_singleton_iff.mp hlast
      obtain ⟨rfl, rfl⟩ := Prod.mk.inj hentry
      obtain ⟨hget, hset⟩ := Action.change_all hold (apply entry.1 entry.2) (past tr)
      have hnext := (ih front hfront.symm hbefore).change hkeyed hbefore hget
        (hkeyed.changes _ _ hchanges) entry.2
      rw [← hset] at hnext
      obtain ⟨hfollowed, htaken⟩ := hnext
      rw [show requested tr ++ Action.requests (.change i (apply entry.1 entry.2)) = requested tr
        from List.append_nil _]
      have hsame : (past tr).Perm (past (tr ++ [⟨jobs, .change i (apply entry.1 entry.2),
          Action.run (.change i (apply entry.1 entry.2)) jobs⟩])) := by
        simpa [Action.deliveries, Action.losses] using hpast
      exact ⟨hfollowed.trans (hsame.append_left _), htaken⟩
  · intro log hlog _
    obtain rfl : log = [] := List.map_eq_nil_iff.mp hlog.symm
    exact ⟨.refl _, nofun⟩

end run

end keyed

/-- What a list becomes can be split as its image can. -/
theorem perm_split_of_map {α β : Type*} {f : α → β} {l : List α} {left left' : List β}
    (h : (l.map f).Perm (left ++ left')) :
    ∃ part part', l.Perm (part ++ part') ∧ part.map f = left ∧ part'.map f = left' := by
  have hcomp : Relation.Comp (List.Forall₂ fun a b => f a = b) List.Perm l (left ++ left') :=
    ⟨l.map f, List.forall₂_map_right_iff.mpr (List.forall₂_same.mpr fun _ _ => rfl), h⟩
  rw [List.forall₂_comp_perm_eq_perm_comp_forall₂] at hcomp
  obtain ⟨order, horder, himage⟩ := hcomp
  have hmap : order.map f = left ++ left' := by
    rwa [← List.forall₂_map_left_iff (f := f) (R := Eq), List.forall₂_eq_eq_eq] at himage
  obtain ⟨part, part', rfl, hpart, hpart'⟩ := List.map_eq_append_iff.mp hmap
  exact ⟨part, part', horder, hpart, hpart'⟩

end Service
