import UvgTorrent.ThreadPools.Threads

/-! Jobs through a thread pool: none is lost, none is taken twice, and no worker stays behind when
the pool is freed. A token of the semaphore is counted together with the threads that are about to
use or to make one.
-/

namespace UvgTorrent

open Foundations

/-- Replacing one entry of a list changes a count by that entry. -/
theorem countP_set_add {α : Type} {list : List α} {index : Nat} {old : α}
    (found : list[index]? = some old) (new : α) (test : α → Bool)
    : (list.set index new).countP test + (if test old then 1 else 0)
      = list.countP test + (if test new then 1 else 0) := by
  obtain ⟨inside, rfl⟩ := List.getElem?_eq_some_iff.mp found
  have member : test list[index] = true → 0 < list.countP test := fun passed =>
    List.countP_pos_iff.mpr ⟨_, List.getElem_mem inside, passed⟩
  rw [List.countP_set inside]
  split
  · rename_i passed
    have positive := member passed
    omega
  · omega

-----------------------------------------------------------------------------------------
-- Tokens and the threads that they wake
-----------------------------------------------------------------------------------------

/-- The worker has been woken and has not looked into the queue yet. -/
@[simp] def WorkerPoint.isAwake : WorkerPoint → Bool
  | .counting | .popping => true
  | _ => false

@[simp] def WorkerPoint.isWaiting : WorkerPoint → Bool
  | .waiting => true
  | _ => false

/-- The call is between its push and its post. -/
@[simp] def CallPoint.isPosting : CallPoint → Bool
  | .posting _ => true
  | _ => false

/-- The call has put its job into the queue. -/
@[simp] def CallPoint.hasPushed : CallPoint → Bool
  | .posting .success | .returned .success => true
  | _ => false

namespace PoolThreads

variable {s next : PoolThreads} {queued : List Nat} {index : Nat}

/-- The workers that have been woken and have not looked into the queue yet. -/
def awake (s : PoolThreads) : Nat := s.workers.countP (·.isAwake)

/-- The workers that are in `sem_wait`, or about to call it. -/
def waiting (s : PoolThreads) : Nat := s.workers.countP (·.isWaiting)

/-- The calls between their push and their post. -/
def posting (s : PoolThreads) : Nat := s.calls.countP (·.isPosting)

/-- The posts that `thread_pool_free` has still to make. -/
def postsLeft (s : PoolThreads) : Nat :=
  match s.freeing with
  | .posting i => s.workers.length - i
  | _ => 0

/-- What holds between two steps, with the jobs that are in the queue. -/
structure Invariant (s : PoolThreads) (queued : List Nat) : Prop where
  holds : s.pool.jobQueue.Holds queued
  history : s.popped.map Prod.snd ++ queued = s.pushed
  pushedOnce : s.pushed.Nodup
  pushedCalls
    : ∀ job, job ∈ s.pushed ↔ ∃ point, s.calls[job]? = some point ∧ point.hasPushed = true
  queue_le : queued.length ≤ semValueMax
  tokens : queued.length ≤ s.pool.jobSemaphore + s.awake + s.posting
  threads : s.pool.threadCount = s.workers.length
  maxThreads_lt : s.pool.maxThreads < 2 ^ 31
  workers_le : s.workers.length ≤ semValueMax
  flag : s.pool.cancelFlag = true ↔ s.freeing ≠ .unstarted
  wakes : s.freeing ≠ .unstarted → s.waiting ≤ s.pool.jobSemaphore + s.postsLeft

theorem start_invariant {maxThreads : Int} (fits : maxThreads < 2 ^ 31)
    : (start maxThreads).Invariant [] :=
  {
    holds := Queue.new_holds
    history := rfl
    pushedOnce := List.nodup_nil
    pushedCalls := by simp [start]
    queue_le := Nat.zero_le _
    tokens := Nat.zero_le _
    threads := rfl
    maxThreads_lt := fits
    workers_le := Nat.zero_le _
    flag := by simp [start, ThreadPool.new]
    wakes := fun started => absurd rfl started
  }

theorem waiting_le (s : PoolThreads) : s.waiting ≤ s.workers.length := List.countP_le_length

theorem semPost_jobSemaphore (tp : ThreadPool)
    : tp.semPost.jobSemaphore
      = if tp.jobSemaphore < semValueMax then tp.jobSemaphore + 1 else tp.jobSemaphore := by
  unfold ThreadPool.semPost
  split <;> rfl

/-- How a worker's step changes the counts of the workers. -/
theorem setWorker_counts {old : WorkerPoint} (found : s.workers[index]? = some old)
    (new : WorkerPoint)
    : (s.setWorker index new).awake + (if old.isAwake then 1 else 0)
        = s.awake + (if new.isAwake then 1 else 0)
      ∧ (s.setWorker index new).waiting + (if old.isWaiting then 1 else 0)
        = s.waiting + (if new.isWaiting then 1 else 0)
      ∧ (s.setWorker index new).workers.length = s.workers.length
      ∧ (s.setWorker index new).postsLeft = s.postsLeft := by
  refine ⟨countP_set_add found new _, countP_set_add found new _, List.length_set, ?_⟩
  unfold postsLeft setWorker
  rw [List.length_set]

/-- A worker that goes on keeps the invariant, with what it does to the semaphore and the queue,
when the tokens still cover the queue and the waiting workers.
-/
theorem Invariant.setWorker (inv : s.Invariant queued) {old : WorkerPoint}
    (found : s.workers[index]? = some old) (new : WorkerPoint) (jobSemaphore : Nat)
    {jobQueue : Queue Nat} {popped : List (Option Nat × Nat)} {left : List Nat}
    (holds : jobQueue.Holds left) (history : popped.map Prod.snd ++ left = s.pushed)
    (queue_le : left.length ≤ queued.length)
    (tokens : left.length ≤ jobSemaphore + (s.setWorker index new).awake + s.posting)
    (wakes
      : s.freeing ≠ .unstarted → (s.setWorker index new).waiting ≤ jobSemaphore + s.postsLeft)
    : ({ s with pool := { s.pool with jobSemaphore, jobQueue }, popped }.setWorker
        index new).Invariant left := by
  obtain ⟨_, _, length, left⟩ := setWorker_counts found new
  exact
    {
      holds
      history
      pushedOnce := inv.pushedOnce
      pushedCalls := inv.pushedCalls
      queue_le := queue_le.trans inv.queue_le
      tokens
      threads := inv.threads.trans (by rw [← length]; rfl)
      maxThreads_lt := inv.maxThreads_lt
      workers_le := length.trans_le inv.workers_le
      flag := inv.flag
      wakes := fun started => by
        refine (wakes started).trans (Nat.add_le_add_left ?_ _)
        exact left.symm.le
    }

/-- A worker that goes on without a look at the semaphore or the queue, and not to wait. -/
theorem Invariant.moveWorker (inv : s.Invariant queued) {old : WorkerPoint}
    (found : s.workers[index]? = some old) (new : WorkerPoint) (stays : new.isWaiting = false)
    (tokens : queued.length ≤ s.pool.jobSemaphore + (s.setWorker index new).awake + s.posting)
    : (s.setWorker index new).Invariant queued := by
  refine inv.setWorker found new s.pool.jobSemaphore inv.holds inv.history le_rfl tokens
    fun started => ?_
  obtain ⟨_, waits, _⟩ := setWorker_counts found new
  have before := inv.wakes started
  rw [stays] at waits
  simp at waits
  omega

/-- A step of a worker. -/
theorem Invariant.workerStep (inv : s.Invariant queued) (index : Nat) (interrupted : Bool)
    : ∃ next left, s.workerStep index interrupted = .ok next ∧ next.Invariant left := by
  have tokens := inv.tokens
  have wakes := inv.wakes
  have holds := inv.holds
  unfold PoolThreads.workerStep
  cases found : s.workers[index]? with
  | none => exact ⟨s, queued, rfl, inv⟩
  | some point =>
      have counts (new : WorkerPoint) := setWorker_counts found new
      cases point with
      | looping =>
          by_cases flag : s.pool.cancelFlag = true
          · specialize counts .exited
            simp at counts
            exact ⟨s.setWorker index .exited, queued, by simp [flag],
              inv.moveWorker found .exited rfl (by omega)⟩
          · specialize counts .waiting
            simp at counts
            refine ⟨s.setWorker index .waiting, queued, by simp [flag],
              inv.setWorker found .waiting s.pool.jobSemaphore holds inv.history le_rfl (by omega)
                fun started => ?_⟩
            exact absurd (inv.flag.mpr started) flag
      | waiting =>
          specialize counts .counting
          simp at counts
          cases interrupted with
          | true =>
              exact ⟨s.setWorker index .counting, queued, rfl,
                inv.moveWorker found .counting rfl (by omega)⟩
          | false =>
              by_cases blocked : s.pool.jobSemaphore = 0
              · exact ⟨s, queued, by simp [blocked], inv⟩
              · -- the token that the worker takes is from now on counted with the worker
                refine ⟨_, queued, by simp only [if_neg blocked]; rfl,
                  inv.setWorker found .counting (s.pool.jobSemaphore - 1) holds inv.history le_rfl
                    (by omega) fun started => ?_⟩
                have before := wakes started
                omega
      | counting =>
          by_cases some : 0 < s.pool.jobQueue.getCount
          · specialize counts .popping
            simp at counts
            exact ⟨s.setWorker index .popping, queued, by simp [some],
              inv.moveWorker found .popping rfl (by omega)⟩
          · -- the token was for a job that another worker has taken
            obtain rfl : queued = [] := by
              by_contra nonempty
              exact some (holds.getCount_pos.mpr nonempty)
            exact ⟨s.setWorker index .looping, [], by simp [some],
              inv.moveWorker found .looping rfl (Nat.zero_le _)⟩
      | popping =>
          cases queued with
          | nil =>
              exact ⟨s.setWorker index .looping, [], by simp only [holds.pop_nil]; rfl,
                inv.moveWorker found .looping rfl (Nat.zero_le _)⟩
          | cons job rest =>
              obtain ⟨jobQueue, popped, holdsRest⟩ := holds.pop_cons
              specialize counts (.executing job)
              simp at counts tokens
              refine ⟨_, rest, by simp only [popped]; rfl,
                inv.setWorker found (.executing job) s.pool.jobSemaphore holdsRest
                  (by simpa using inv.history) (by simp) (by omega) fun started => ?_⟩
              have before := wakes started
              omega
      | executing job =>
          specialize counts .looping
          simp at counts
          exact ⟨s.setWorker index .looping, queued, rfl,
            inv.moveWorker found .looping rfl (by omega)⟩
      | exited => exact ⟨s, queued, rfl, inv⟩

-----------------------------------------------------------------------------------------
-- The calls
-----------------------------------------------------------------------------------------

theorem setCall_posting {old : CallPoint} (found : s.calls[index]? = some old) (new : CallPoint)
    : (s.setCall index new).posting + (if old.isPosting then 1 else 0)
      = s.posting + (if new.isPosting then 1 else 0) :=
  countP_set_add found new _

/-- The calls that have put their job into the queue, after one call has gone on. -/
theorem setCall_hasPushed {old : CallPoint} (found : s.calls[index]? = some old)
    (new : CallPoint) (job : Nat)
    : (∃ point, (s.setCall index new).calls[job]? = some point ∧ point.hasPushed = true)
      ↔ if job = index then new.hasPushed = true
        else ∃ point, s.calls[job]? = some point ∧ point.hasPushed = true := by
  obtain ⟨inside, _⟩ := List.getElem?_eq_some_iff.mp found
  unfold setCall
  by_cases here : job = index
  · simp [here, List.getElem?_set_self inside]
  · simp only [List.getElem?_set_ne (Ne.symm here), if_neg here]

/-- A call that goes on without a push keeps the invariant when its tokens do. -/
theorem Invariant.moveCall (inv : s.Invariant queued) {old : CallPoint}
    (found : s.calls[index]? = some old) (new : CallPoint)
    (same : new.hasPushed = old.hasPushed) (jobSemaphore : Nat)
    (tokens : queued.length ≤ jobSemaphore + s.awake + (s.setCall index new).posting)
    (grown : s.pool.jobSemaphore ≤ jobSemaphore)
    : ({ s with pool := { s.pool with jobSemaphore } }.setCall index new).Invariant queued :=
  {
    inv with
    tokens
    pushedCalls := by
      intro job
      refine (inv.pushedCalls job).trans ((setCall_hasPushed found new job).trans ?_).symm
      split
      · rename_i here
        rw [here, found, same]
        constructor
        · exact fun pushed => ⟨old, rfl, pushed⟩
        · rintro ⟨point, isOld, pushed⟩
          cases isOld
          exact pushed
      · rfl
    wakes := fun started => (inv.wakes started).trans (Nat.add_le_add_right grown _)
  }

/-- A new worker waits for nothing yet. -/
theorem Invariant.createThread (inv : s.Invariant queued)
    (below : s.pool.threadCount < s.pool.maxThreads)
    : s.createThread.Invariant queued := by
  have threads := inv.threads
  have limit := inv.maxThreads_lt
  have awake : s.createThread.awake = s.awake := by
    simp [PoolThreads.awake, PoolThreads.createThread]
  have waiting : s.createThread.waiting = s.waiting := by
    simp [PoolThreads.waiting, PoolThreads.createThread]
  have left : s.postsLeft ≤ s.createThread.postsLeft := by
    unfold postsLeft PoolThreads.createThread
    dsimp only
    split
    · rw [List.length_append]
      omega
    · exact le_rfl
  exact
    {
      inv with
      tokens := by rw [awake]; exact inv.tokens
      threads := by
        simp only [PoolThreads.createThread, List.length_append, List.length_singleton]
        omega
      workers_le := by
        simp only [PoolThreads.createThread, List.length_append, List.length_singleton,
          semValueMax]
        omega
      wakes := by
        intro started
        rw [waiting]
        exact (inv.wakes started).trans (Nat.add_le_add_left left _)
    }

/-- The push of a call, once the queue has taken its job. -/
theorem Invariant.pushed (inv : s.Invariant queued) (found : s.calls[index]? = some .pushing)
    {jobQueue : Queue Nat} (holds : jobQueue.Holds (queued ++ [index]))
    (space : queued.length ≠ 2 ^ 31 - 1)
    : ({ s with pool := { s.pool with jobQueue }, pushed := s.pushed ++ [index] }.setCall index
        (.posting .success)).Invariant (queued ++ [index]) := by
  have tokens := inv.tokens
  have bound := inv.queue_le
  have calls := setCall_posting found (.posting .success)
  simp at calls
  have fresh : index ∉ s.pushed := by
    rw [inv.pushedCalls, found]
    simp
  have history : s.popped.map Prod.snd ++ (queued ++ [index]) = s.pushed ++ [index] := by
    rw [← List.append_assoc, inv.history]
  exact
    {
      inv with
      holds
      history
      pushedOnce := by
        refine List.nodup_append.mpr ⟨inv.pushedOnce, List.nodup_singleton _, ?_⟩
        rintro job member other isNew rfl
        rw [List.mem_singleton] at isNew
        exact fresh (isNew ▸ member)
      pushedCalls := by
        intro job
        refine Iff.trans ?_ (setCall_hasPushed found (.posting .success) job).symm
        by_cases here : job = index
        · simp [PoolThreads.setCall, here]
        · simp only [PoolThreads.setCall, List.mem_append, List.mem_singleton, here, or_false,
            if_false]
          exact inv.pushedCalls job
      queue_le := by
        rw [List.length_append, List.length_singleton]
        unfold semValueMax at *
        omega
      tokens := by
        rw [List.length_append, List.length_singleton]
        change _ ≤ s.pool.jobSemaphore + s.awake + (s.setCall index (.posting .success)).posting
        omega
    }

/-- The tokens after a post: one more, or already as many as there can be jobs. -/
theorem semPost_covers {tp : ThreadPool} {needed : Nat} (bound : needed ≤ semValueMax)
    {others : Nat} (covered : needed ≤ tp.jobSemaphore + (others + 1))
    : needed ≤ tp.semPost.jobSemaphore + others := by
  rw [semPost_jobSemaphore]
  split <;> omega

theorem semPost_grows (tp : ThreadPool) : tp.jobSemaphore ≤ tp.semPost.jobSemaphore := by
  rw [semPost_jobSemaphore]
  split <;> omega

theorem semPost_eq (tp : ThreadPool)
    : tp.semPost = { tp with jobSemaphore := tp.semPost.jobSemaphore } := by
  unfold ThreadPool.semPost
  split <;> rfl

/-- A step of a call, which can only fail in the count of the queue. -/
theorem Invariant.callStep (inv : s.Invariant queued) (index : Nat) (succeeds : Bool)
    : (s.callStep index succeeds = .error .signedOverflow ∧ queued.length = 2 ^ 31 - 1)
      ∨ ∃ next left, s.callStep index succeeds = .ok next ∧ next.Invariant left := by
  have tokens := inv.tokens
  unfold PoolThreads.callStep
  cases found : s.calls[index]? with
  | none => exact .inr ⟨s, queued, rfl, inv⟩
  | some point =>
      have calls (new : CallPoint) := setCall_posting found new
      cases point with
      | entered =>
          right
          by_cases below : s.pool.threadCount < s.pool.maxThreads
          · cases succeeds with
            | true =>
                have created := inv.createThread below
                have posts : (s.createThread.setCall index .pushing).posting + _ = _ :=
                  setCall_posting found .pushing
                simp at posts
                exact ⟨s.createThread.setCall index .pushing, queued,
                  by simp only [if_pos below, if_true],
                  created.moveCall found .pushing rfl s.pool.jobSemaphore
                    (by rw [posts]; exact created.tokens) le_rfl⟩
            | false =>
                specialize calls (.returned .failure)
                simp at calls
                exact ⟨s.setCall index (.returned .failure), queued, by simp [below],
                  inv.moveCall found (.returned .failure) rfl s.pool.jobSemaphore (by omega)
                    le_rfl⟩
          · specialize calls .pushing
            simp at calls
            exact ⟨_, queued, by simp only [if_neg below],
              inv.moveCall found .pushing rfl s.pool.jobSemaphore (by omega) le_rfl⟩
      | pushing =>
          cases succeeds with
          | true =>
              rcases inv.holds.push index with ⟨overflow, full⟩ | ⟨space, jobQueue, pushed, holds⟩
              · refine .inl ⟨?_, full⟩
                simp only [overflow]
                rfl
              · right
                exact ⟨_, _, by simp only [pushed]; rfl, inv.pushed found holds space⟩
          | false =>
              right
              specialize calls (.posting .failure)
              simp at calls
              exact ⟨_, queued, by simp only [Queue.push_unallocated]; rfl,
                inv.moveCall found (.posting .failure) rfl s.pool.jobSemaphore (by omega) le_rfl⟩
      | posting result =>
          right
          specialize calls (.returned result)
          simp at calls
          have covers : queued.length ≤ s.pool.semPost.jobSemaphore
              + (s.awake + (s.setCall index (.returned result)).posting) :=
            semPost_covers inv.queue_le (by omega)
          refine ⟨_, queued, rfl, ?_⟩
          rw [semPost_eq]
          refine inv.moveCall found (.returned result) ?_ s.pool.semPost.jobSemaphore (by omega)
            (semPost_grows _)
          cases result <;> rfl
      | returned result => exact .inr ⟨s, queued, rfl, inv⟩

-----------------------------------------------------------------------------------------
-- Freeing the pool
-----------------------------------------------------------------------------------------

/-- `thread_pool_free` goes on, with what it does to the semaphore, while the flag is set. -/
theorem Invariant.moveFree (inv : s.Invariant queued) (flag : s.pool.cancelFlag = true)
    {later : FreePoint} (started : later ≠ .unstarted) (jobSemaphore : Nat)
    (grown : s.pool.jobSemaphore ≤ jobSemaphore)
    (wakes : s.waiting ≤ jobSemaphore + { s with freeing := later }.postsLeft)
    : { s with pool := { s.pool with jobSemaphore }, freeing := later }.Invariant queued :=
  {
    inv with
    tokens := inv.tokens.trans (by
      rw [Nat.add_assoc, Nat.add_assoc]
      exact Nat.add_le_add_right grown _)
    flag := iff_of_true flag started
    wakes := fun _ => wakes
  }

/-- A step of `thread_pool_free`. -/
theorem Invariant.freeStep (inv : s.Invariant queued)
    : ∃ next left, s.freeStep = .ok next ∧ next.Invariant left := by
  have threads := inv.threads
  unfold PoolThreads.freeStep
  by_cases unstarted : s.freeing = .unstarted
  · rw [unstarted]
    refine ⟨_, queued, rfl, { inv with flag := by simp, wakes := fun _ => ?_ }⟩
    exact (waiting_le s).trans (Nat.le_add_left _ _)
  have flag := inv.flag.mpr unstarted
  have wakes := inv.wakes unstarted
  unfold postsLeft at wakes
  cases point : s.freeing with
  | unstarted => exact absurd point unstarted
  | posting i =>
      rw [point] at wakes
      dsimp only at wakes ⊢
      by_cases more : (i : Int) < s.pool.threadCount
      · have covers : s.waiting ≤ s.pool.semPost.jobSemaphore + (s.workers.length - (i + 1)) :=
          semPost_covers ((waiting_le s).trans inv.workers_le) (by omega)
        rw [if_pos more, semPost_eq]
        exact ⟨_, queued, rfl,
          inv.moveFree flag (by simp) s.pool.semPost.jobSemaphore (semPost_grows _) covers⟩
      · rw [if_neg more]
        refine ⟨_, queued, rfl, inv.moveFree flag (by simp) s.pool.jobSemaphore le_rfl ?_⟩
        change s.waiting ≤ s.pool.jobSemaphore + 0
        omega
  | joining i =>
      rw [point] at wakes
      dsimp only
      by_cases more : (i : Int) < s.pool.threadCount
      · rw [if_pos more]
        by_cases joined : s.workers[i]? = some .exited
        · rw [if_pos joined]
          exact ⟨_, queued, rfl, inv.moveFree flag (by simp) s.pool.jobSemaphore le_rfl wakes⟩
        · rw [if_neg joined]
          exact ⟨s, queued, rfl, inv⟩
      · rw [if_neg more]
        exact ⟨_, queued, rfl, inv.moveFree flag (by simp) s.pool.jobSemaphore le_rfl wakes⟩
  | draining =>
      rw [point] at wakes
      dsimp only
      cases queued with
      | nil =>
          have none : ¬ 0 < s.pool.jobQueue.getCount := by
            rw [inv.holds.getCount_pos]
            simp
          rw [if_neg none]
          exact ⟨_, [], rfl, inv.moveFree flag (by simp) s.pool.jobSemaphore le_rfl wakes⟩
      | cons job rest =>
          obtain ⟨jobQueue, popped, holds⟩ := inv.holds.pop_cons
          have bound := inv.queue_le
          have tokens := inv.tokens
          simp only [List.length_cons] at bound tokens
          have history : (s.popped ++ [(none, job)]).map Prod.snd ++ rest = s.pushed := by
            simpa using inv.history
          have covered : rest.length ≤ s.pool.jobSemaphore + s.awake + s.posting := by omega
          rw [if_pos (inv.holds.getCount_pos.mpr (List.cons_ne_nil _ _)), bind_of_ok popped]
          exact ⟨_, rest, rfl,
            {
              inv with
              holds
              history
              queue_le := by omega
              tokens := covered
              flag := iff_of_true flag (by simp)
              wakes := fun _ => wakes
            }⟩
  | freed => exact ⟨s, queued, rfl, inv⟩

/-- Any step of any thread. -/
theorem Invariant.step (inv : s.Invariant queued) (action : PoolAction)
    : (s.step action = .error .signedOverflow ∧ queued.length = 2 ^ 31 - 1)
      ∨ ∃ next left, s.step action = .ok next ∧ next.Invariant left := by
  unfold PoolThreads.step
  split
  · exact .inr ⟨s, queued, rfl, inv⟩
  · cases action with
    | addJob =>
        have posts : { s with calls := s.calls ++ [CallPoint.entered] }.posting = s.posting := by
          simp [posting]
        refine .inr ⟨_, queued, rfl,
          { inv with tokens := by rw [posts]; exact inv.tokens, pushedCalls := fun job => ?_ }⟩
        rw [inv.pushedCalls]
        dsimp only
        rw [List.getElem?_append]
        split
        · rfl
        · rename_i beyond
          rw [List.getElem?_eq_none (Nat.le_of_not_lt beyond)]
          simp [List.getElem?_singleton]
    | call index succeeds => exact inv.callStep index succeeds
    | worker index interrupted => exact .inr (inv.workerStep index interrupted)
    | free => exact .inr inv.freeStep

-----------------------------------------------------------------------------------------
-- Whole runs
-----------------------------------------------------------------------------------------

/-- `thread_pool_free` has set the flag and posted once for each thread. -/
def PostsMade (s : PoolThreads) : Prop :=
  match s.freeing with
  | .unstarted => False
  | .posting i => s.pool.threadCount ≤ i
  | _ => True

/-- Every job is taken at most once, and until then it is in the queue; idle workers leave no job
behind; and a pool that is being freed has no worker that nobody wakes.
-/
structure DeliversJobs (s : PoolThreads) : Prop where
  takenOnce : (s.popped.map Prod.snd).Nodup
  kept
    : ∀ job point,
        s.calls[job]? = some point
        → point.hasPushed = true
        → job ∈ s.popped.map Prod.snd ∨ job ∈ s.pool.jobQueue.elems
  emptied
    : s.freeing = .unstarted
      → (∀ worker ∈ s.workers, worker = .waiting)
      → s.pool.jobSemaphore = 0
      → (∀ call ∈ s.calls, call.isPosting = false)
      → s.pool.jobQueue.elems = []
  noneStuck : s.PostsMade → s.pool.jobSemaphore = 0 → .waiting ∉ s.workers

theorem Invariant.deliversJobs (inv : s.Invariant queued) : s.DeliversJobs where
  takenOnce := by
    have once := inv.pushedOnce
    rw [← inv.history] at once
    exact (List.nodup_append.mp once).1
  kept job point found pushed := by
    have member := (inv.pushedCalls job).mpr ⟨point, found, pushed⟩
    rw [← inv.history, List.mem_append] at member
    rw [inv.holds.elems_eq]
    exact member
  emptied _ idle none between := by
    have tokens := inv.tokens
    have asleep : s.awake = 0 := by
      refine List.countP_eq_zero.mpr fun worker member => ?_
      rw [idle worker member]
      simp
    have posted : s.posting = 0 :=
      List.countP_eq_zero.mpr fun call member => by simp only [between call member]; simp
    rw [inv.holds.elems_eq]
    exact List.eq_nil_of_length_eq_zero (by omega)
  noneStuck made none member := by
    have threads := inv.threads
    have waits : 0 < s.waiting := List.countP_pos_iff.mpr ⟨_, member, rfl⟩
    unfold PostsMade at made
    have wakes := inv.wakes
    unfold postsLeft at wakes
    cases point : s.freeing with
    | unstarted =>
        rw [point] at made
        exact made
    | posting i =>
        rw [point] at made wakes
        have covered := wakes (by simp)
        dsimp only at made covered
        omega
    | joining i | draining | freed =>
        rw [point] at wakes
        have covered := wakes (by simp)
        dsimp only at covered
        omega

/-- However the threads are interleaved, the pool delivers its jobs; a run can only end early where
a push counts the queue past the largest `int`, with that many jobs in it.
-/
theorem jobs_delivered {maxThreads : Int} (fits : maxThreads < 2 ^ 31)
    (actions : List PoolAction)
    : (runSteps step (start maxThreads) actions = .error .signedOverflow
        ∧ ∃ earlier later s,
            actions = earlier ++ later
            ∧ runSteps step (start maxThreads) earlier = .ok s
            ∧ s.DeliversJobs
            ∧ s.pool.jobQueue.elems.length = 2 ^ 31 - 1)
      ∨ ∃ s, runSteps step (start maxThreads) actions = .ok s ∧ s.DeliversJobs := by
  have run {s : PoolThreads} {queued : List Nat} (inv : s.Invariant queued)
      : (runSteps step s actions = .error .signedOverflow
          ∧ ∃ earlier later final left,
              actions = earlier ++ later
              ∧ runSteps step s earlier = .ok final
              ∧ final.Invariant left
              ∧ left.length = 2 ^ 31 - 1)
        ∨ ∃ final left, runSteps step s actions = .ok final ∧ final.Invariant left := by
    induction actions generalizing s queued with
    | nil => exact .inr ⟨s, queued, rfl, inv⟩
    | cons action rest ih =>
        rcases inv.step action with ⟨overflow, full⟩ | ⟨next, left, stepped, kept⟩
        · exact .inl ⟨bind_of_error overflow _, [], action :: rest, s, queued, rfl, rfl, inv, full⟩
        rcases ih kept with ⟨overflow, earlier, later, final, queued, split, ran, inv, full⟩ | ran
        · refine .inl ⟨(bind_of_ok stepped _).trans overflow, action :: earlier, later, final,
            queued, by rw [split, List.cons_append], ?_, inv, full⟩
          exact runSteps_cons_eq_ok.mpr ⟨next, stepped, ran⟩
        · unfold runSteps
          rw [bind_of_ok stepped]
          exact .inr ran
  rcases run (start_invariant fits) with
      ⟨overflow, earlier, later, final, queued, split, ran, inv, full⟩ | ⟨final, left, ran, inv⟩
  · refine .inl ⟨overflow, earlier, later, final, split, ran, inv.deliversJobs, ?_⟩
    rw [inv.holds.elems_eq, full]
  · exact .inr ⟨final, ran, inv.deliversJobs⟩

/-- Two jobs are queued, and then taken by two threads, of which the second is the faster; the pool
is freed.
-/
def twoJobRun : List PoolAction :=
  let both (first second : PoolAction) (count : Nat) : List PoolAction :=
    (List.replicate count [first, second]).flatten
  [.addJob, .addJob]
    ++ both (.call 0 true) (.call 1 true) 3
    ++ both (.worker 1 false) (.worker 0 false) 5
    ++ [.free, .worker 0 false, .free, .free, .free, .worker 1 false, .free, .free, .free, .free]

theorem jobs_delivered_of_two
    : ∃ queued s,
        runSteps step (start 10) (twoJobRun.take 8) = .ok queued
        ∧ queued.pool.jobQueue.elems = [0, 1]
        ∧ runSteps step (start 10) twoJobRun = .ok s
        ∧ s.DeliversJobs
        ∧ s.popped = [(some 1, 0), (some 0, 1)]
        ∧ s.workers = [.exited, .exited]
        ∧ s.freeing = .freed := by
  have pushed : returnsWith (runSteps step (start 10) (twoJobRun.take 8))
      (fun s => decide (s.pool.jobQueue.elems = [0, 1])) = true := by
    decide
  have returned : returnsWith (runSteps step (start 10) twoJobRun)
      (fun s =>
        decide
          (s.popped = [(some 1, 0), (some 0, 1)]
            ∧ s.workers = [.exited, .exited]
            ∧ s.freeing = .freed))
      = true := by
    decide
  obtain ⟨queued, ranEarlier, both⟩ := exists_ok_of_returnsWith pushed
  obtain ⟨s, ran, passed⟩ := exists_ok_of_returnsWith returned
  have fits : (10 : Int) < 2 ^ 31 := by norm_num
  rcases jobs_delivered fits twoJobRun with ⟨overflow, _⟩ | ⟨final, reached, delivers⟩
  · rw [ran] at overflow
    cases overflow
  · rw [ran] at reached
    cases reached
    exact ⟨queued, s, ranEarlier, of_decide_eq_true both, ran, delivers, of_decide_eq_true passed⟩

end PoolThreads

end UvgTorrent
