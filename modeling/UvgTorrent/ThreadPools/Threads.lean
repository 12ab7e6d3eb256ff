import UvgTorrent.Containers.Queues
import UvgTorrent.Foundations.FallibleRuns

/-! `thread_pool.c`, with all the threads that are in it: the workers in `thread_handle`, the calls
of `thread_pool_add_job` and the one call of `thread_pool_free`. An action is the next step of one
of them; a step reads or writes the flag, the semaphore or the queue once.
-/

namespace UvgTorrent

open Foundations

-----------------------------------------------------------------------------------------
-- The pool and the points that its threads are at
-----------------------------------------------------------------------------------------

/-- `struct ThreadPool`. A job is known by the call that adds it; the worker threads stand beside
the struct.
-/
structure ThreadPool where
  cancelFlag : Bool
  threadCount : Int
  maxThreads : Int
  jobSemaphore : Nat
  jobQueue : Queue Nat

/-- `SEM_VALUE_MAX`. -/
def semValueMax : Nat := 2 ^ 31 - 1

/-- Where a worker is in `thread_handle`. -/
inductive WorkerPoint where
  /-- before the test of `cancel_flag` -/
  | looping
  /-- in `sem_wait` -/
  | waiting
  /-- before `queue_get_count` -/
  | counting
  /-- before `queue_pop` -/
  | popping
  /-- in `job_execute` -/
  | executing (job : Nat)
  | exited
  deriving DecidableEq, Repr

/-- Where a call is in `thread_pool_add_job`. -/
inductive CallPoint where
  /-- before a thread may be created -/
  | entered
  /-- before `queue_push` -/
  | pushing
  /-- before `sem_post`, with the result of the push -/
  | posting (result : Exit)
  | returned (result : Exit)
  deriving DecidableEq, Repr

/-- Where the owner of the pool is in `thread_pool_free`. -/
inductive FreePoint where
  | unstarted
  /-- in the loop that posts, with its counter -/
  | posting (i : Nat)
  /-- in the loop that joins, with its counter -/
  | joining (i : Nat)
  | draining
  | freed
  deriving DecidableEq, Repr

/-- A pool with its threads. `pushed` and `popped` are histories: the jobs in the order in which
they went into the queue, and in which they came out, each with the worker that took it, or `none`
when `thread_pool_free` did.
-/
structure PoolThreads where
  pool : ThreadPool
  workers : List WorkerPoint
  calls : List CallPoint
  freeing : FreePoint
  pushed : List Nat
  popped : List (Option Nat × Nat)

/-- The thread that goes on. `interrupted` tells whether a signal ends its `sem_wait`, `succeeds`
whether its `pthread_create` or its `malloc` does.
-/
inductive PoolAction where
  | addJob
  | call (index : Nat) (succeeds : Bool)
  | worker (index : Nat) (interrupted : Bool)
  | free
  deriving DecidableEq, Repr

namespace ThreadPool

/-- `thread_pool_new`, when memory is available. -/
def new (maxThreads : Int) : ThreadPool :=
  { cancelFlag := false, threadCount := 0, maxThreads, jobSemaphore := 0, jobQueue := .new }

/-- `sem_post`, which fails when the semaphore is at its largest value. -/
def semPost (tp : ThreadPool) : ThreadPool :=
  if tp.jobSemaphore < semValueMax then { tp with jobSemaphore := tp.jobSemaphore + 1 } else tp

end ThreadPool

-----------------------------------------------------------------------------------------
-- The steps
-----------------------------------------------------------------------------------------

namespace PoolThreads

/-- A pool without threads. -/
def start (maxThreads : Int) : PoolThreads :=
  {
    pool := .new maxThreads
    workers := []
    calls := []
    freeing := .unstarted
    pushed := []
    popped := []
  }

def setWorker (s : PoolThreads) (index : Nat) (point : WorkerPoint) : PoolThreads :=
  { s with workers := s.workers.set index point }

def setCall (s : PoolThreads) (index : Nat) (point : CallPoint) : PoolThreads :=
  { s with calls := s.calls.set index point }

/-- A new worker, at the beginning of `thread_handle`. -/
def createThread (s : PoolThreads) : PoolThreads :=
  {
    s with
    pool := { s.pool with threadCount := s.pool.threadCount + 1 }
    workers := s.workers ++ [.looping]
  }

/-- The next step of a worker. A `sem_wait` that a signal ends returns -1, which is not looked
at.
-/
def workerStep (s : PoolThreads) (index : Nat) (interrupted : Bool) : Except Fault PoolThreads :=
  match s.workers[index]? with
  | none => .ok s
  | some .looping => .ok (s.setWorker index (if s.pool.cancelFlag then .exited else .waiting))
  | some .waiting =>
      if interrupted then .ok (s.setWorker index .counting)
      else if s.pool.jobSemaphore = 0 then .ok s
      else
        .ok
          ({ s with pool := { s.pool with jobSemaphore := s.pool.jobSemaphore - 1 } }.setWorker
            index .counting)
  | some .counting =>
      .ok (s.setWorker index (if 0 < s.pool.jobQueue.getCount then .popping else .looping))
  | some .popping =>
      s.pool.jobQueue.pop.bind fun (jobQueue, elem) =>
        let s := { s with pool := { s.pool with jobQueue } }
        match elem with
        | none => .ok (s.setWorker index .looping)
        | some job =>
            .ok
              ({ s with popped := s.popped ++ [(some index, job)] }.setWorker index
                (.executing job))
  | some (.executing _) => .ok (s.setWorker index .looping)
  | some .exited => .ok s

/-- The next step of a call. `thread_count` is a plain `int`, which no two threads use at once: the
block that tests it, creates a thread and counts it is one step.
-/
def callStep (s : PoolThreads) (index : Nat) (succeeds : Bool) : Except Fault PoolThreads :=
  match s.calls[index]? with
  | none => .ok s
  | some .entered =>
      if s.pool.threadCount < s.pool.maxThreads then
        if succeeds then .ok (s.createThread.setCall index .pushing)
        else .ok (s.setCall index (.returned .failure))
      else .ok (s.setCall index .pushing)
  | some .pushing =>
      (s.pool.jobQueue.push index succeeds).bind fun (jobQueue, result) =>
        let pushed := if result = .success then s.pushed ++ [index] else s.pushed
        .ok ({ s with pool := { s.pool with jobQueue }, pushed }.setCall index (.posting result))
  | some (.posting result) =>
      .ok ({ s with pool := s.pool.semPost }.setCall index (.returned result))
  | some (.returned _) => .ok s

/-- The next step of `thread_pool_free`; a join waits until its thread has exited. -/
def freeStep (s : PoolThreads) : Except Fault PoolThreads :=
  match s.freeing with
  | .unstarted =>
      .ok { s with pool := { s.pool with cancelFlag := true }, freeing := .posting 0 }
  | .posting i =>
      if (i : Int) < s.pool.threadCount then
        .ok { s with pool := s.pool.semPost, freeing := .posting (i + 1) }
      else .ok { s with freeing := .joining 0 }
  | .joining i =>
      if (i : Int) < s.pool.threadCount then
        if s.workers[i]? = some .exited then .ok { s with freeing := .joining (i + 1) } else .ok s
      else .ok { s with freeing := .draining }
  | .draining =>
      if 0 < s.pool.jobQueue.getCount then
        s.pool.jobQueue.pop.bind fun (jobQueue, elem) =>
          let s := { s with pool := { s.pool with jobQueue } }
          match elem with
          | none => .ok s
          | some job => .ok { s with popped := s.popped ++ [(none, job)] }
      else .ok { s with freeing := .freed }
  | .freed => .ok s

/-- One step of one thread. A thread that is blocked, or that has ended, stays where it is, and so
does every thread once the pool is gone.
-/
def step (s : PoolThreads) (action : PoolAction) : Except Fault PoolThreads :=
  if s.freeing = .freed then .ok s
  else
    match action with
    | .addJob => .ok { s with calls := s.calls ++ [.entered] }
    | .call index succeeds => s.callStep index succeeds
    | .worker index interrupted => s.workerStep index interrupted
    | .free => s.freeStep

end PoolThreads

end UvgTorrent
