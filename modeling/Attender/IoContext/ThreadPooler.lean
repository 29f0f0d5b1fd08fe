import Attender.Library.Runs
import Mathlib.Data.List.Perm.Basic
import Mathlib.Data.List.Range

/-!
# The thread pool

`thread_pooler` with the `setup` and `teardown` of `async_model`, and the jobs
that are posted to its `io_context`. A job that throws ends the `run` of its
thread, and no thread takes its place; the context is stopped by `teardown` and
never restarted. So a job that waits can still be executed exactly if the pool
has not been torn down and not all of its threads have caught an exception
(`thread_pool`).
-/

namespace Attender.IoContext

open Attender.Library

/-- `thread_pooler` and its context. The work guard keeps `run` from running out of work for as long
as the context has not been stopped. -/
structure ThreadPooler where
  /-- `async_model::up_`. -/
  up : Bool := false
  /-- `context_->stop()` has been called: `run` returns at once. -/
  stopped : Bool := false
  /-- `teardown_impl` waits for the threads. -/
  joining : Bool := false
  /-- How many threads have not called `run` yet. -/
  starting : Nat := 0
  /-- How many are in `run` and have no job. -/
  idle : Nat := 0
  /-- The jobs that threads are running. -/
  running : List Nat := []
  /-- How many threads are done. -/
  done : Nat := 0
  /-- The jobs that wait, the oldest first. -/
  queue : List Nat := []
  /-- How many jobs have been posted. -/
  posted : Nat := 0
  /-- The jobs that have been executed. -/
  executed : List Nat := []
  /-- How often `exceptAction_` has been called. -/
  thrown : Nat := 0
  deriving DecidableEq

/-- What can happen. The pool is set up and torn down by one thread, which is none of its own. -/
inductive ThreadPoolerOp where
  /-- A job is posted to the context. -/
  | post
  | setup
  | teardown
  /-- All threads have been joined. -/
  | joined
  /-- A thread calls `run`. -/
  | enter
  /-- A thread takes the oldest job. -/
  | take
  /-- One of the jobs returns or throws. -/
  | finish (i : Nat) (threw : Bool)
  /-- `run` returns, for the context has been stopped. -/
  | leave
  deriving DecidableEq

/-- A step of one of the threads. -/
def ThreadPoolerOp.ofThread : ThreadPoolerOp → Bool
  | .enter | .take | .finish .. | .leave => true
  | .post | .setup | .teardown | .joined => false

namespace ThreadPooler

variable (threads : Nat) (s : ThreadPooler)

/-- `async_model::setup`, with the `setup_impl` of the pool. -/
def setup : ThreadPooler :=
  if s.up then s else { s with up := true, starting := s.starting + threads }

/-- `async_model::teardown`, with the `teardown_impl` of the pool up to the first `join`. -/
def teardown : ThreadPooler :=
  if ¬ s.up then s else { s with up := false, stopped := true, joining := true }

/-- A thread calls `context_->run()`. -/
def enter : ThreadPooler :=
  if s.stopped then { s with starting := s.starting - 1, done := s.done + 1 }
  else { s with starting := s.starting - 1, idle := s.idle + 1 }

/-- A job returns, or its exception is caught and the thread ends. -/
def finish (job : Nat) (threw : Bool) : ThreadPooler :=
  let s := { s with executed := s.executed ++ [job] }
  if threw then { s with done := s.done + 1, thrown := s.thrown + 1 }
  else { s with idle := s.idle + 1 }

/-- One step. -/
def step : ThreadPoolerOp → Option ThreadPooler
  | .post => some { s with posted := s.posted + 1, queue := s.queue ++ [s.posted] }
  | .setup => if s.joining then none else some (s.setup threads)
  | .teardown => if s.joining then none else some s.teardown
  | .joined =>
    if s.joining ∧ s.starting = 0 ∧ s.idle = 0 ∧ s.running = [] then
      -- `threads_.clear()`
      some { s with joining := false, done := 0 }
    else none
  | .enter => if s.starting ≠ 0 then some s.enter else none
  | .take =>
    match s.queue with
    | [] => none
    | job :: queue =>
      if s.idle ≠ 0 ∧ ¬ s.stopped then
        some { s with idle := s.idle - 1, running := s.running ++ [job], queue := queue }
      else none
  | .finish i threw =>
    match s.running[i]? with
    | none => none
    | some job => some (finish { s with running := s.running.eraseIdx i } job threw)
  | .leave =>
    if s.idle ≠ 0 ∧ s.stopped then some { s with idle := s.idle - 1, done := s.done + 1 } else none

/-- How many threads are not done. -/
def alive : Nat := s.starting + s.idle + s.running.length

end ThreadPooler

namespace ThreadPooler

variable {threads : Nat} {s s' : ThreadPooler} {op : ThreadPoolerOp}

/-! ### What a step does -/

theorem step_setup : s.step threads .setup = some s' ↔ ¬ s.joining ∧ s.setup threads = s' := by
  simp [step]

theorem step_teardown : s.step threads .teardown = some s' ↔ ¬ s.joining ∧ s.teardown = s' := by
  simp [step]

theorem step_joined : s.step threads .joined = some s' ↔
    (s.joining ∧ s.starting = 0 ∧ s.idle = 0 ∧ s.running = []) ∧
      { s with joining := false, done := 0 } = s' := by
  simp only [step, Option.ite_none_right_eq_some, Option.some.injEq]

theorem step_enter : s.step threads .enter = some s' ↔ s.starting ≠ 0 ∧ s.enter = s' := by
  simp only [step, Option.ite_none_right_eq_some, Option.some.injEq]

theorem step_take : s.step threads .take = some s' ↔ ∃ job queue, s.queue = job :: queue ∧
    (s.idle ≠ 0 ∧ ¬ s.stopped) ∧
      { s with idle := s.idle - 1, running := s.running ++ [job], queue := queue } = s' := by
  cases hqueue : s.queue with
  | nil => simp [step, hqueue]
  | cons job queue => simp [step, hqueue]

theorem step_finish {i : Nat} {threw : Bool} : s.step threads (.finish i threw) = some s' ↔
    ∃ job, s.running[i]? = some job ∧
      finish { s with running := s.running.eraseIdx i } job threw = s' := by
  cases hjob : s.running[i]? with
  | none => simp [step, hjob]
  | some job => simp [step, hjob]

theorem step_leave : s.step threads .leave = some s' ↔ (s.idle ≠ 0 ∧ s.stopped) ∧
    { s with idle := s.idle - 1, done := s.done + 1 } = s' := by
  simp only [step, Option.ite_none_right_eq_some, Option.some.injEq]

/-! ### The jobs -/

/-- Where the jobs are. -/
structure SameJobs (s s' : ThreadPooler) : Prop where
  queue : s'.queue = s.queue
  posted : s'.posted = s.posted
  executed : s'.executed = s.executed
  running : s'.running = s.running

theorem SameJobs.subset (h : SameJobs s s') : s.queue ⊆ s'.queue := by
  intro job hjob
  rwa [h.queue]

theorem sameJobs_setup (s : ThreadPooler) : SameJobs s (s.setup threads) := by
  rw [setup]
  split_ifs <;> exact ⟨rfl, rfl, rfl, rfl⟩

theorem sameJobs_teardown (s : ThreadPooler) : SameJobs s s.teardown := by
  rw [teardown]
  split_ifs <;> exact ⟨rfl, rfl, rfl, rfl⟩

theorem sameJobs_enter (s : ThreadPooler) : SameJobs s s.enter := by
  rw [enter]
  split_ifs <;> exact ⟨rfl, rfl, rfl, rfl⟩

@[simp] theorem queue_finish (job : Nat) (threw : Bool) : (s.finish job threw).queue = s.queue := by
  cases threw <;> rfl

@[simp] theorem posted_finish (job : Nat) (threw : Bool) :
    (s.finish job threw).posted = s.posted := by
  cases threw <;> rfl

@[simp] theorem running_finish (job : Nat) (threw : Bool) :
    (s.finish job threw).running = s.running := by
  cases threw <;> rfl

@[simp] theorem executed_finish (job : Nat) (threw : Bool) :
    (s.finish job threw).executed = s.executed ++ [job] := by
  cases threw <;> rfl

/-- The jobs are taken in their order, each by one thread. -/
def Jobs (s : ThreadPooler) : Prop :=
  ∃ k, (s.executed ++ s.running).Perm (List.range k) ∧
    List.range k ++ s.queue = List.range s.posted

theorem jobs_init : Jobs {} := ⟨0, List.Perm.refl _, rfl⟩

theorem Jobs.same (h : Jobs s) (hsame : SameJobs s s') : Jobs s' := by
  rw [Jobs, hsame.queue, hsame.posted, hsame.executed, hsame.running]
  exact h

/-- The first that waits is the next. -/
theorem queue_head {k job posted : Nat} {queue : List Nat}
    (h : List.range k ++ job :: queue = List.range posted) :
    job = k ∧ List.range (k + 1) ++ queue = List.range posted := by
  have hjob : (List.range posted)[k]? = some job := by
    rw [← h, List.getElem?_append_right (Nat.le_of_eq List.length_range), List.length_range,
      Nat.sub_self]
    rfl
  obtain ⟨hk, hget⟩ := List.getElem?_eq_some_iff.mp hjob
  rw [List.getElem_range] at hget
  refine ⟨hget.symm, ?_⟩
  rw [List.range_succ, List.append_assoc, ← h, hget]
  rfl

theorem jobs_step (h : Jobs s) (hstep : s.step threads op = some s') : Jobs s' := by
  cases op with
  | post =>
    cases hstep
    obtain ⟨k, hperm, hqueue⟩ := h
    refine ⟨k, hperm, ?_⟩
    rw [← List.append_assoc, hqueue, ← List.range_succ]
  | setup =>
    obtain ⟨-, rfl⟩ := step_setup.mp hstep
    exact h.same (sameJobs_setup s)
  | teardown =>
    obtain ⟨-, rfl⟩ := step_teardown.mp hstep
    exact h.same (sameJobs_teardown s)
  | joined =>
    obtain ⟨-, rfl⟩ := step_joined.mp hstep
    exact h.same ⟨rfl, rfl, rfl, rfl⟩
  | enter =>
    obtain ⟨-, rfl⟩ := step_enter.mp hstep
    exact h.same (sameJobs_enter s)
  | take =>
    obtain ⟨job, queue, hhead, -, rfl⟩ := step_take.mp hstep
    obtain ⟨k, hperm, hqueue⟩ := h
    rw [hhead] at hqueue
    obtain ⟨rfl, hrest⟩ := queue_head hqueue
    refine ⟨job + 1, ?_, hrest⟩
    rw [List.range_succ, ← List.append_assoc]
    exact hperm.append_right _
  | finish i threw =>
    obtain ⟨job, hjob, rfl⟩ := step_finish.mp hstep
    obtain ⟨hi, rfl⟩ := List.getElem?_eq_some_iff.mp hjob
    obtain ⟨k, hperm, hqueue⟩ := h
    refine ⟨k, ?_, ?_⟩
    · rw [executed_finish, running_finish, List.append_assoc]
      exact ((List.getElem_cons_eraseIdx_perm hi).append_left s.executed).trans hperm
    · rw [queue_finish, posted_finish]
      exact hqueue
  | leave =>
    obtain ⟨-, rfl⟩ := step_leave.mp hstep
    exact h.same ⟨rfl, rfl, rfl, rfl⟩

/-- Each job is in one place. -/
theorem Jobs.nodup (h : Jobs s) : (s.executed ++ s.running ++ s.queue).Nodup := by
  obtain ⟨k, hperm, hqueue⟩ := h
  refine ((hperm.append_right s.queue).nodup_iff).mpr ?_
  rw [hqueue]
  exact List.nodup_range

/-! ### The threads -/

/-- How many steps the threads have still to do once the context has been stopped. -/
def toLeave (s : ThreadPooler) : Nat := s.starting + s.idle + 2 * s.running.length

/-- **What a thread does**: it goes on, or it ends when the context has been stopped or by an
exception. -/
structure Works (s s' : ThreadPooler) : Prop where
  up : s'.up = s.up
  stopped : s'.stopped = s.stopped
  joining : s'.joining = s.joining
  alive : 0 < s.alive ∧ s'.alive ≤ s.alive
  thrown : s.thrown ≤ s'.thrown
  count : ¬ s.stopped → s'.alive + s'.thrown = s.alive + s.thrown
  leaving : s.stopped → s'.toLeave < s.toLeave

theorem works_step (hop : op.ofThread) (hstep : s.step threads op = some s') : Works s s' := by
  cases op with
  | post | setup | teardown | joined => cases hop
  | enter =>
    obtain ⟨hstarting, rfl⟩ := step_enter.mp hstep
    rw [enter]
    split_ifs with hstopped
    · refine ⟨rfl, rfl, rfl, ⟨?_, ?_⟩, Nat.le_refl _, fun h => absurd hstopped h, fun _ => ?_⟩
      all_goals
        simp only [alive, toLeave]
        omega
    · refine ⟨rfl, rfl, rfl, ⟨?_, ?_⟩, Nat.le_refl _, fun _ => ?_, fun h => absurd h hstopped⟩
      all_goals
        simp only [alive]
        omega
  | take =>
    obtain ⟨job, queue, -, hfree, rfl⟩ := step_take.mp hstep
    refine ⟨rfl, rfl, rfl, ⟨?_, ?_⟩, Nat.le_refl _, fun _ => ?_, fun h => absurd h hfree.2⟩
    all_goals
      simp only [alive, List.length_append, List.length_singleton]
      omega
  | finish i threw =>
    obtain ⟨job, hjob, rfl⟩ := step_finish.mp hstep
    obtain ⟨hi, -⟩ := List.getElem?_eq_some_iff.mp hjob
    have hlength := List.length_eraseIdx_add_one hi
    cases threw with
    | false =>
      refine ⟨rfl, rfl, rfl, ⟨?_, ?_⟩, Nat.le_refl _, fun _ => ?_, fun _ => ?_⟩
      all_goals
        simp only [alive, toLeave, finish, Bool.false_eq_true, if_false]
        omega
    | true =>
      refine ⟨rfl, rfl, rfl, ⟨?_, ?_⟩, Nat.le_succ _, fun _ => ?_, fun _ => ?_⟩
      all_goals
        simp only [alive, toLeave, finish, if_true]
        omega
  | leave =>
    obtain ⟨hidle, rfl⟩ := step_leave.mp hstep
    refine ⟨rfl, rfl, rfl, ⟨?_, ?_⟩, Nat.le_refl _, fun h => absurd hidle.2 h, fun _ => ?_⟩
    all_goals
      simp only [alive, toLeave]
      omega

/-- The threads of the pool. An exception costs one of them. -/
structure Threads (threads : Nat) (s : ThreadPooler) : Prop where
  bound : s.alive ≤ threads
  count : ¬ s.stopped → s.up → s.alive + s.thrown = threads
  joining : s.joining → s.stopped ∧ ¬ s.up
  down : ¬ s.up → ¬ s.joining → s.alive = 0
  fresh : ¬ s.stopped → ¬ s.up → s.thrown = 0

theorem threads_init : Threads threads {} :=
  ⟨Nat.zero_le _, fun _ h => absurd h Bool.false_ne_true, fun h => absurd h Bool.false_ne_true,
    fun _ _ => rfl, fun _ _ => rfl⟩

theorem Threads.works (h : Threads threads s) (hworks : Works s s') : Threads threads s' := by
  obtain ⟨hup, hstopped, hjoining, ⟨hpositive, hle⟩, -, hcount, -⟩ := hworks
  refine ⟨Nat.le_trans hle h.bound, ?_, ?_, ?_, ?_⟩
  · rw [hup, hstopped]
    intro hrunning hu
    rw [hcount hrunning, h.count hrunning hu]
  · rw [hup, hstopped, hjoining]
    exact h.joining
  · rw [hup, hjoining]
    intro hu hj
    exact absurd (h.down hu hj) (Nat.ne_of_gt hpositive)
  · rw [hup, hstopped]
    intro hrunning hu
    have hj : ¬ s.joining := fun hj => hrunning (h.joining hj).1
    exact absurd (h.down hu hj) (Nat.ne_of_gt hpositive)

theorem threads_step (h : Threads threads s) (hstep : s.step threads op = some s') :
    Threads threads s' := by
  by_cases hop : op.ofThread
  · exact h.works (works_step hop hstep)
  cases op with
  | enter | take | finish i threw | leave => exact absurd rfl hop
  | post =>
    cases hstep
    exact ⟨h.bound, h.count, h.joining, h.down, h.fresh⟩
  | setup =>
    obtain ⟨hjoining, rfl⟩ := step_setup.mp hstep
    rw [setup]
    split_ifs with hup
    · exact h
    · have hzero := h.down hup hjoining
      have halive : alive { s with up := true, starting := s.starting + threads } = threads := by
        simp only [alive] at hzero ⊢
        omega
      refine ⟨Nat.le_of_eq halive, fun hrunning _ => ?_, fun hj => absurd hj hjoining,
        fun hu => absurd rfl hu, fun _ hu => absurd rfl hu⟩
      rw [halive]
      exact congrArg (threads + ·) (h.fresh hrunning hup)
  | teardown =>
    obtain ⟨-, rfl⟩ := step_teardown.mp hstep
    rw [teardown]
    split_ifs with hup
    · exact ⟨h.bound, fun hs => absurd rfl hs, fun _ => ⟨rfl, Bool.false_ne_true⟩,
        fun _ hj => absurd rfl hj, fun hs => absurd rfl hs⟩
    · exact h
  | joined =>
    obtain ⟨⟨-, hstarting, hidle, hrunning⟩, rfl⟩ := step_joined.mp hstep
    refine ⟨h.bound, h.count, fun hj => absurd hj Bool.false_ne_true, fun _ _ => ?_, h.fresh⟩
    simp [alive, hstarting, hidle, hrunning]

/-! ### The jobs that wait -/

/-- No thread will take a job any more. -/
def Dead (threads : Nat) (s : ThreadPooler) : Prop := s.stopped ∨ threads ≤ s.thrown

/-- None is in `run` with nothing to do. -/
theorem Dead.idle (hdead : Dead threads s) (h : Threads threads s) (hrunning : ¬ s.stopped) :
    s.idle = 0 := by
  have hthrown := hdead.resolve_left hrunning
  by_cases hup : s.up
  · have hcount := h.count hrunning hup
    simp only [alive] at hcount
    omega
  · have hzero := h.down hup fun hjoining => hrunning (h.joining hjoining).1
    simp only [alive] at hzero
    omega

/-- It stays so, whatever is done to the pool. -/
theorem Dead.keep (hdead : Dead threads s) (hstep : s.step threads op = some s') :
    Dead threads s' := by
  by_cases hop : op.ofThread
  · have hworks := works_step hop hstep
    rw [Dead, hworks.stopped]
    exact hdead.imp_right fun hle => Nat.le_trans hle hworks.thrown
  cases op with
  | enter | take | finish i threw | leave => exact absurd rfl hop
  | post =>
    cases hstep
    exact hdead
  | setup =>
    obtain ⟨-, rfl⟩ := step_setup.mp hstep
    rw [setup]
    split_ifs
    · exact hdead
    · exact hdead
  | teardown =>
    obtain ⟨-, rfl⟩ := step_teardown.mp hstep
    rw [teardown]
    split_ifs
    · exact Or.inl rfl
    · exact hdead
  | joined =>
    obtain ⟨-, rfl⟩ := step_joined.mp hstep
    exact hdead

/-- **A dead pool** stays dead, and what waits goes on waiting. -/
theorem Dead.step (hdead : Dead threads s) (h : Threads threads s)
    (hstep : s.step threads op = some s') : Dead threads s' ∧ s.queue ⊆ s'.queue := by
  refine ⟨hdead.keep hstep, ?_⟩
  cases op with
  | post =>
    cases hstep
    exact List.subset_append_left _ _
  | setup =>
    obtain ⟨-, rfl⟩ := step_setup.mp hstep
    exact (sameJobs_setup s).subset
  | teardown =>
    obtain ⟨-, rfl⟩ := step_teardown.mp hstep
    exact (sameJobs_teardown s).subset
  | joined =>
    obtain ⟨-, rfl⟩ := step_joined.mp hstep
    exact List.Subset.refl _
  | enter =>
    obtain ⟨-, rfl⟩ := step_enter.mp hstep
    exact (sameJobs_enter s).subset
  | take =>
    obtain ⟨job, queue, -, ⟨hidle, hrunning⟩, -⟩ := step_take.mp hstep
    exact absurd (hdead.idle h hrunning) hidle
  | finish i threw =>
    obtain ⟨job, -, rfl⟩ := step_finish.mp hstep
    rw [queue_finish]
    exact List.Subset.refl _
  | leave =>
    obtain ⟨-, rfl⟩ := step_leave.mp hstep
    exact List.Subset.refl _

/-- A thread without a job executes the oldest. -/
theorem run_one (threads : Nat) {job : Nat} {queue : List Nat} (hidle : s.idle ≠ 0)
    (hrunning : ¬ s.stopped) (hqueue : s.queue = job :: queue) :
    ∃ s', run (step threads) s [.take, .finish s.running.length false] = some s' ∧ s'.idle ≠ 0 ∧
      ¬ s'.stopped ∧ s'.queue = queue ∧ s'.executed = s.executed ++ [job] := by
  refine ⟨finish { s with
      idle := s.idle - 1, running := (s.running ++ [job]).eraseIdx s.running.length
      queue := queue } job false,
    run_cons.mpr ⟨_, step_take.mpr ⟨job, queue, hqueue, ⟨hidle, hrunning⟩, rfl⟩,
      run_singleton.mpr (step_finish.mpr ⟨job, ?_, rfl⟩)⟩,
    Nat.succ_ne_zero _, hrunning, rfl, rfl⟩
  exact List.getElem?_concat_length

/-- It works off what comes before a job. -/
theorem executes_of_idle (threads : Nat) {before rest : List Nat} {job : Nat} (hidle : s.idle ≠ 0)
    (hrunning : ¬ s.stopped) (hqueue : s.queue = before ++ job :: rest) :
    ∃ ops s', run (step threads) s ops = some s' ∧ job ∈ s'.executed := by
  induction before generalizing s with
  | nil =>
    obtain ⟨s', hrun, -, -, -, hexecuted⟩ := run_one threads hidle hrunning hqueue
    refine ⟨_, s', hrun, ?_⟩
    rw [hexecuted]
    exact List.mem_append_right _ (List.mem_singleton_self job)
  | cons first before ih =>
    obtain ⟨s₁, hrun₁, hidle₁, hrunning₁, hqueue₁, -⟩ :=
      run_one threads hidle hrunning hqueue
    obtain ⟨ops, s', hrun, hjob⟩ := ih hidle₁ hrunning₁ hqueue₁
    exact ⟨_, s', run_append.mpr ⟨s₁, hrun₁, hrun⟩, hjob⟩

/-- A thread that is not done gets rid of what it does. -/
theorem idle_of_alive (threads : Nat) (halive : 0 < s.alive) (hrunning : ¬ s.stopped) :
    ∃ ops s', run (step threads) s ops = some s' ∧ s'.idle ≠ 0 ∧ ¬ s'.stopped ∧
      s'.queue = s.queue := by
  by_cases hidle : s.idle = 0
  · by_cases hstarting : s.starting = 0
    · obtain ⟨job, running, hjobs⟩ : ∃ job running, s.running = job :: running := by
        refine List.exists_cons_of_length_pos ?_
        simp only [alive] at halive
        omega
      refine ⟨[.finish 0 false], finish { s with running := s.running.eraseIdx 0 } job false,
        run_singleton.mpr (step_finish.mpr ⟨job, ?_, rfl⟩), Nat.succ_ne_zero _, hrunning, rfl⟩
      rw [hjobs]
      rfl
    · refine ⟨[.enter], s.enter, run_singleton.mpr (step_enter.mpr ⟨hstarting, rfl⟩), ?_⟩
      rw [enter, if_neg hrunning]
      exact ⟨Nat.succ_ne_zero _, hrunning, rfl⟩
  · exact ⟨[], s, rfl, hidle, hrunning, rfl⟩

/-- **A pool that is not dead** can execute each job that waits. -/
theorem executes_of_not_dead (h : Threads threads s) (hdead : ¬ Dead threads s) {job : Nat}
    (hjob : job ∈ s.queue) : ∃ ops s', run (step threads) s ops = some s' ∧ job ∈ s'.executed := by
  rw [Dead, not_or, Nat.not_le] at hdead
  obtain ⟨hrunning, hthrown⟩ := hdead
  obtain ⟨before, rest, hqueue⟩ := List.append_of_mem hjob
  -- set up, if it is not
  obtain ⟨ops₁, s₁, hrun₁, halive₁, hrunning₁, hqueue₁⟩ :
      ∃ ops s₁, run (step threads) s ops = some s₁ ∧ 0 < s₁.alive ∧ ¬ s₁.stopped ∧
        s₁.queue = s.queue := by
    by_cases hup : s.up
    · refine ⟨[], s, rfl, ?_, hrunning, rfl⟩
      have hcount := h.count hrunning hup
      omega
    · have hjoining : ¬ s.joining := fun hj => hrunning (h.joining hj).1
      refine ⟨[.setup], _, run_singleton.mpr (step_setup.mpr ⟨hjoining, rfl⟩), ?_⟩
      rw [setup, if_neg hup]
      refine ⟨?_, hrunning, rfl⟩
      simp only [alive]
      omega
  obtain ⟨ops₂, s₂, hrun₂, hidle₂, hrunning₂, hqueue₂⟩ :=
    idle_of_alive threads halive₁ hrunning₁
  obtain ⟨ops₃, s₃, hrun₃, hexecuted⟩ := executes_of_idle threads hidle₂ hrunning₂
    (hqueue₂.trans (hqueue₁.trans hqueue))
  exact ⟨_, s₃, run_append.mpr ⟨s₂, run_append.mpr ⟨s₁, hrun₁, hrun₂⟩, hrun₃⟩, hexecuted⟩

/-- A dead one executes none of them. -/
theorem Dead.not_executed (hdead : Dead threads s) (h : Threads threads s) (hjobs : Jobs s)
    {job : Nat} (hjob : job ∈ s.queue) {ops : List ThreadPoolerOp}
    (hrun : run (ThreadPooler.step threads) s ops = some s') : job ∉ s'.executed := by
  have hend : (Dead threads s' ∧ Threads threads s' ∧ Jobs s') ∧ job ∈ s'.queue := by
    refine run_invariant (A := fun _ => True)
      (I := fun t => (Dead threads t ∧ Threads threads t ∧ Jobs t) ∧ job ∈ t.queue) ?_
      (fun _ _ => trivial) ⟨⟨hdead, h, hjobs⟩, hjob⟩ hrun
    rintro t op t' - ⟨⟨hdead, h, hjobs⟩, hjob⟩ hstep
    obtain ⟨hdead', hqueue⟩ := hdead.step h hstep
    exact ⟨⟨hdead', threads_step h hstep, jobs_step hjobs hstep⟩, hqueue hjob⟩
  intro hexecuted
  have hnodup := hend.1.2.2.nodup
  rw [List.append_assoc] at hnodup
  exact (List.nodup_append.mp hnodup).2.2 job hexecuted job (List.mem_append_right _ hend.2) rfl

/-! ### The end of a teardown -/

/-- When no thread can do anything any more, all have been joined. -/
theorem joined_of_halted (hstopped : s.stopped) (hjoining : s.joining)
    (hhalted : ∀ op, op.ofThread → s.step threads op = none) :
    (s.step threads .joined).isSome := by
  have hstarting : s.starting = 0 := by
    by_contra hn
    have hstep := hhalted .enter rfl
    rw [step_enter.mpr ⟨hn, rfl⟩] at hstep
    cases hstep
  have hidle : s.idle = 0 := by
    by_contra hn
    have hstep := hhalted .leave rfl
    rw [step_leave.mpr ⟨⟨hn, hstopped⟩, rfl⟩] at hstep
    cases hstep
  have hrunning : s.running = [] := by
    cases hjobs : s.running with
    | nil => rfl
    | cons job running =>
      have hjob : s.running[0]? = some job := by
        rw [hjobs]
        rfl
      have hstep := hhalted (.finish 0 false) rfl
      rw [step_finish.mpr ⟨job, hjob, rfl⟩] at hstep
      cases hstep
  exact Option.isSome_iff_exists.mpr
    ⟨_, step_joined.mpr ⟨⟨hjoining, hstarting, hidle, hrunning⟩, rfl⟩⟩

/-! ### Whole runs -/

/-- **The thread pool**: the jobs are taken in their order, and none is lost or executed twice. One
that waits can still be executed exactly if the pool has not been torn down, ever, and an exception
has not been caught in each of its threads. A teardown comes to its end: the threads can only do so
many steps, and when they can do no more, all have been joined. -/
theorem thread_pool (threads : Nat) (ops : List ThreadPoolerOp) (s : ThreadPooler)
    (hrun : run (step threads) {} ops = some s) :
    (∃ k, (s.executed ++ s.running).Perm (List.range k) ∧
      List.range k ++ s.queue = List.range s.posted) ∧
      (∀ job ∈ s.queue, (∃ ops' s', run (step threads) s ops' = some s' ∧ job ∈ s'.executed) ↔
        ¬ s.stopped ∧ s.thrown < threads) ∧
      (s.joining → ∀ ops' s', (∀ op ∈ ops', op.ofThread) → run (step threads) s ops' = some s' →
        ops'.length ≤ 2 * threads ∧ ((∀ op, op.ofThread → s'.step threads op = none) →
          (s'.step threads .joined).isSome)) := by
  have hjobs : Jobs s := run_invariant (A := fun _ => True)
    (fun _ _ _ _ h hstep => jobs_step h hstep) (fun _ _ => trivial) jobs_init hrun
  have h : Threads threads s := run_invariant (A := fun _ => True)
    (fun _ _ _ _ h hstep => threads_step h hstep) (fun _ _ => trivial) threads_init hrun
  refine ⟨hjobs, fun job hjob => ?_, fun hjoining ops' s' hops hrun' => ?_⟩
  · have hdead : Dead threads s ↔ ¬ (¬ s.stopped ∧ s.thrown < threads) := by
      rw [Dead, not_and_or, not_not, Nat.not_lt]
    constructor
    · rintro ⟨ops', s', hrun', hexecuted⟩
      by_contra hn
      exact (hdead.mpr hn).not_executed h hjobs hjob hrun' hexecuted
    · intro hlive
      exact executes_of_not_dead h (fun hd => hdead.mp hd hlive) hjob
  · obtain ⟨hstopped, -⟩ := h.joining hjoining
    have hsteps := length_add_le_of_decreasing (A := fun op => op.ofThread)
      (I := fun t => t.stopped) (m := toLeave)
      (fun t op t' hop hs hstep => by
        have hworks := works_step hop hstep
        exact ⟨hworks.stopped.trans hs, hworks.leaving hs⟩) hops hstopped hrun'
    have hsame : s'.stopped ∧ s'.joining := by
      refine run_invariant (A := fun op => op.ofThread) (I := fun t => t.stopped ∧ t.joining)
        (fun t op t' hop hs hstep => ?_) hops ⟨hstopped, hjoining⟩ hrun'
      have hworks := works_step hop hstep
      exact ⟨hworks.stopped.trans hs.1, hworks.joining.trans hs.2⟩
    refine ⟨?_, joined_of_halted hsame.1 hsame.2⟩
    have hbound := h.bound
    simp only [alive] at hbound
    simp only [toLeave] at hsteps
    omega

/-- A pool of one thread: the second job throws, and the third waits for ever. -/
theorem thread_pool_thrown :
    ∃ s, run (step 1) {} [.post, .post, .post, .setup, .enter, .take, .finish 0 false, .take,
        .finish 0 true] = some s ∧
      ¬ ∃ ops' s', run (step 1) s ops' = some s' ∧ 2 ∈ s'.executed := by
  refine ⟨_, rfl, fun hexecuted => ?_⟩
  have hlive := ((thread_pool 1 [.post, .post, .post, .setup, .enter, .take, .finish 0 false, .take,
    .finish 0 true] _ rfl).2.1 2 (List.mem_singleton_self 2)).mp hexecuted
  exact Nat.lt_irrefl 1 hlive.2

end ThreadPooler

end Attender.IoContext
