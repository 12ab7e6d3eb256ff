import Mathlib.Data.List.Perm.Basic
import Mathlib.Data.List.Nodup
import UvgTorrent.Peers.Connections

/-! The `peer_run` jobs of `torrent_run_peers`: the main thread tests and sets `running`, and
workers take the jobs and carry them out step by step. Between two steps any thread can be next.
-/

namespace UvgTorrent

open Foundations

/-- The steps of `peer_run`, in their order. `leave` is the last write of `running` with the return
behind it.
-/
inductive RunPoint where
  | connect
  | firstNetwork
  | sendHandshake
  | handleHandshake
  | sendMessages
  | readMessage
  | handleMessage
  | keepalive
  | timeout
  | lastNetwork
  | leave
  deriving DecidableEq, Repr

namespace RunPoint

/-- Where `peer_run` goes on after a step that did not disconnect. -/
def next : RunPoint → RunPoint
  | connect => firstNetwork
  | firstNetwork => sendHandshake
  | sendHandshake => handleHandshake
  | handleHandshake => sendMessages
  | sendMessages => readMessage
  | readMessage => handleMessage
  | handleMessage => keepalive
  | keepalive => timeout
  | timeout => lastNetwork
  | lastNetwork => leave
  | leave => leave

/-- Where `peer_run` goes on after the `peer_disconnect` of a step; `none` for a step without one. A
failed connect, handshake or network step jumps to the end, and the others go on with the run.
-/
def afterDisconnect : RunPoint → Option RunPoint
  | connect | firstNetwork | sendHandshake | handleHandshake | lastNetwork => some leave
  | readMessage | handleMessage => some keepalive
  | timeout => some lastNetwork
  | sendMessages | keepalive | leave => none

end RunPoint

/-- A job that a worker has taken. `disconnected` records that it has called `peer_disconnect`. -/
structure PeerJob (Id : Type) where
  peer : Id
  point : RunPoint
  disconnected : Bool
  deriving DecidableEq, Repr

/-- How far `torrent_run_peers` is with a peer: it has found `running` at 0, or has set it to 1. -/
inductive MainPoint (Id : Type) where
  | idle
  | tested (peer : Id)
  | marked (peer : Id)
  deriving DecidableEq, Repr

/-- The peer that the main thread is about to give a job. -/
def MainPoint.peer {Id : Type} : MainPoint Id → Option Id
  | idle => none
  | tested peer => some peer
  | marked peer => some peer

/-- What a step of `peer_run` does to the peer when it does not disconnect. -/
structure PeerEffect where
  apply : Peer → Peer
  keepsRunning : ∀ p, (apply p).running = p.running

/-- The main thread and the thread pool, with the peer jobs of its queue. -/
structure PeerJobs (Id : Type) where
  peers : Id → Peer
  main : MainPoint Id
  jobQueue : List Id
  executing : List (PeerJob Id)

/-- What the next step of a thread is. The main thread comes to its peers in any order, and any
number of workers carry out jobs.
-/
inductive JobEvent (Id : Type) where
  | test (peer : Id)
  | mark
  | addJob (added : Bool)
  | takeJob
  | pass (worker : Nat) (effect : PeerEffect)
  | disconnect (worker : Nat) (now : Int)

namespace PeerJobs

variable {Id : Type}

/-- `p->running`, as any thread finds it. -/
def running (s : PeerJobs Id) (peer : Id) : Bool := (s.peers peer).running

/-- The peers of the jobs that are queued or executing, with repetitions. -/
def jobs (s : PeerJobs Id) : List Id := s.jobQueue ++ s.executing.map PeerJob.peer

/-- No two jobs are for the same peer. -/
def OneJobPerPeer (s : PeerJobs Id) : Prop := s.jobs.Nodup

/-- A job of the peer has disconnected and not returned yet. -/
def Disconnecting (s : PeerJobs Id) (peer : Id) : Prop :=
  ∃ job ∈ s.executing, job.peer = peer ∧ job.disconnected = true

/-- Before the first pass: no job, and no pass under way. -/
structure Unstarted (s : PeerJobs Id) : Prop where
  main : s.main = .idle
  jobQueue : s.jobQueue = []
  executing : s.executing = []

/-- What the running flag promises in an orderly run: a peer with a job is marked as running unless
the job has disconnected, and the main thread only serves peers without a job.
-/
structure Covered (s : PeerJobs Id) : Prop where
  oneJob : s.jobs.Nodup
  served : ∀ peer, s.main.peer = some peer → peer ∉ s.jobs
  marked : ∀ peer, s.main = .marked peer → s.running peer = true
  flagged : ∀ peer ∈ s.jobs, s.running peer = true ∨ s.Disconnecting peer

variable {s : PeerJobs Id}

theorem Unstarted.covered (unstarted : s.Unstarted) : s.Covered := by
  have none : s.jobs = [] := by
    simp [jobs, unstarted.jobQueue, unstarted.executing]
  refine ⟨by simp [none], by simp [none], ?_, by simp [none]⟩
  intro peer marked
  rw [unstarted.main] at marked
  cases marked

/-- Moving a job on does not change the jobs. -/
theorem map_peer_set {executing : List (PeerJob Id)} {worker : Nat} {job moved : PeerJob Id}
    (found : executing[worker]? = some job) (same : moved.peer = job.peer)
    : (executing.set worker moved).map PeerJob.peer = executing.map PeerJob.peer := by
  apply List.ext_getElem?
  intro index
  rw [List.getElem?_map, List.getElem?_map, List.getElem?_set]
  split
  · rename_i here
    subst here
    rw [found]
    split
    · simp [same]
    · rename_i outside
      rw [List.getElem?_eq_none (Nat.le_of_not_lt outside)] at found
      cases found
  · rfl

/-- A disconnecting job stays one when another job moves on, and when it moves on itself. -/
theorem mem_set_of_disconnected {executing : List (PeerJob Id)} {worker : Nat}
    {job moved earlier : PeerJob Id} (found : executing[worker]? = some job)
    (member : earlier ∈ executing) (same : moved.peer = job.peer)
    (kept : job.disconnected = true → moved.disconnected = true)
    (disconnected : earlier.disconnected = true)
    : ∃ later ∈ executing.set worker moved,
        later.peer = earlier.peer ∧ later.disconnected = true := by
  obtain ⟨index, at_⟩ := List.mem_iff_getElem?.mp member
  by_cases here : worker = index
  · subst here
    rw [found] at at_
    cases at_
    have inside : worker < executing.length := by
      by_contra outside
      rw [List.getElem?_eq_none (Nat.le_of_not_lt outside)] at found
      cases found
    exact ⟨moved, List.mem_iff_getElem?.mpr ⟨worker, by simp [inside]⟩, same,
      kept disconnected⟩
  · refine ⟨earlier, List.mem_iff_getElem?.mpr ⟨index, ?_⟩, rfl, disconnected⟩
    rw [List.getElem?_set_ne here, at_]

theorem peer_mem_jobs {worker : Nat} {job : PeerJob Id}
    (found : s.executing[worker]? = some job)
    : job.peer ∈ s.jobs :=
  List.mem_append_right _ (List.mem_map_of_mem (List.mem_of_getElem? found))

/-- The main thread serves no peer that has a job. -/
theorem Covered.marked_ne (covered : s.Covered) {worker : Nat} {job : PeerJob Id} {peer : Id}
    (found : s.executing[worker]? = some job) (marked : s.main = .marked peer)
    : peer ≠ job.peer := by
  rintro rfl
  exact covered.served job.peer (by rw [marked]; rfl) (peer_mem_jobs found)

variable [DecidableEq Id]

def updatePeer (s : PeerJobs Id) (peer : Id) (update : Peer → Peer) : PeerJobs Id :=
  { s with peers := Function.update s.peers peer (update (s.peers peer)) }

/-- One step of one thread; a thread that is not at this step does nothing. -/
def step (s : PeerJobs Id) : JobEvent Id → PeerJobs Id
  | .test peer =>
      match s.main with
      | .idle => if s.running peer then s else { s with main := .tested peer }
      | _ => s
  | .mark =>
      match s.main with
      | .tested peer =>
          { s.updatePeer peer (fun p => { p with running := true }) with main := .marked peer }
      | _ => s
  | .addJob added =>
      match s.main with
      | .marked peer =>
          { s with
            main := .idle
            jobQueue := if added then s.jobQueue ++ [peer] else s.jobQueue }
      | _ => s
  | .takeJob =>
      match s.jobQueue with
      | [] => s
      | peer :: rest =>
          { s with
            jobQueue := rest
            executing := s.executing ++ [{ peer, point := .connect, disconnected := false }] }
  | .pass worker effect =>
      match s.executing[worker]? with
      | none => s
      | some job =>
          if job.point = .leave then
            { s.updatePeer job.peer (fun p => { p with running := false }) with
              executing := s.executing.eraseIdx worker }
          else
            { s.updatePeer job.peer effect.apply with
              executing := s.executing.set worker { job with point := job.point.next } }
  | .disconnect worker now =>
      match s.executing[worker]? with
      | none => s
      | some job =>
          match job.point.afterDisconnect with
          | none => s
          | some point =>
              { s.updatePeer job.peer (fun p => p.disconnect now) with
                executing := s.executing.set worker { job with point, disconnected := true } }

def run (s : PeerJobs Id) (events : List (JobEvent Id)) : PeerJobs Id := events.foldl step s

/-- The main thread looks at no peer between a disconnect and the return of the job that made it. -/
def Orderly (s : PeerJobs Id) : List (JobEvent Id) → Prop
  | [] => True
  | event :: rest =>
      (∀ peer, event = .test peer → ¬ s.Disconnecting peer) ∧ (s.step event).Orderly rest

-----------------------------------------------------------------------------------------
-- The flag covers the jobs
-----------------------------------------------------------------------------------------

theorem Covered.test (covered : s.Covered) {peer : Id} (settled : ¬ s.Disconnecting peer)
    : (s.step (.test peer)).Covered := by
  simp only [step]
  split
  · rename_i idle
    split
    · exact covered
    · rename_i stopped
      refine ⟨covered.oneJob, ?_, ?_, covered.flagged⟩
      · intro other chosen job
        cases chosen
        rcases covered.flagged peer job with running | disconnecting
        · exact stopped running
        · exact settled disconnecting
      · intro other marked
        cases marked
  · exact covered

theorem Covered.mark (covered : s.Covered) : (s.step .mark).Covered := by
  simp only [step]
  split
  · rename_i peer tested
    refine ⟨covered.oneJob, ?_, ?_, ?_⟩
    · intro other chosen
      exact covered.served other (by rw [tested]; exact chosen)
    · intro other marked
      cases marked
      simp [running, updatePeer]
    · intro other job
      have different : other ≠ peer := by
        rintro rfl
        exact covered.served other (by rw [tested]; rfl) job
      rcases covered.flagged other job with running | disconnecting
      · left
        simpa [PeerJobs.running, updatePeer, different] using running
      · exact .inr disconnecting
  · exact covered

theorem Covered.addJob (covered : s.Covered) (added : Bool) : (s.step (.addJob added)).Covered := by
  simp only [step]
  split
  · rename_i peer marked
    have absent : peer ∉ s.jobs := covered.served peer (by rw [marked]; rfl)
    cases added with
    | false =>
        exact ⟨covered.oneJob, fun _ impossible => (by cases impossible),
          fun _ impossible => (by cases impossible), covered.flagged⟩
    | true =>
        have moved : (s.jobQueue ++ [peer] ++ s.executing.map PeerJob.peer).Perm
            (peer :: s.jobs) := by
          rw [List.append_assoc]
          exact List.perm_middle
        refine ⟨?_, fun _ impossible => (by cases impossible),
          fun _ impossible => (by cases impossible), ?_⟩
        · exact moved.nodup_iff.mpr (List.nodup_cons.mpr ⟨absent, covered.oneJob⟩)
        · intro other job
          rcases List.mem_cons.mp (moved.mem_iff.mp job) with rfl | job
          · exact .inl (covered.marked other marked)
          · exact covered.flagged other job
  · exact covered

theorem Covered.takeJob (covered : s.Covered) : (s.step .takeJob).Covered := by
  simp only [step]
  split
  · exact covered
  · rename_i peer rest queued
    have moved : (rest ++ (s.executing ++ [(⟨peer, .connect, false⟩ : PeerJob Id)]).map
        PeerJob.peer).Perm s.jobs := by
      rw [jobs, queued, List.map_append, ← List.append_assoc]
      exact List.perm_append_singleton peer _
    refine ⟨moved.nodup_iff.mpr covered.oneJob, ?_, covered.marked, ?_⟩
    · intro other chosen job
      exact covered.served other chosen (moved.mem_iff.mp job)
    · intro other job
      refine (covered.flagged other (moved.mem_iff.mp job)).imp_right ?_
      rintro ⟨earlier, member, same, disconnected⟩
      exact ⟨earlier, List.mem_append_left _ member, same, disconnected⟩

/-- A job that returns takes its flag with it. -/
theorem Covered.leave (covered : s.Covered) {worker : Nat} {job : PeerJob Id}
    (found : s.executing[worker]? = some job)
    : Covered
        { s.updatePeer job.peer (fun p => { p with running := false }) with
          executing := s.executing.eraseIdx worker } := by
  have inside : worker < s.executing.length := (List.getElem?_eq_some_iff.mp found).1
  have taken : (job :: s.executing.eraseIdx worker).Perm s.executing := by
    rw [← (List.getElem?_eq_some_iff.mp found).2]
    exact List.getElem_cons_eraseIdx_perm inside
  have moved : (job.peer :: (s.jobQueue ++ (s.executing.eraseIdx worker).map PeerJob.peer)).Perm
      s.jobs :=
    List.perm_middle.symm.trans ((taken.map PeerJob.peer).append_left s.jobQueue)
  have fresh := List.nodup_cons.mp (moved.nodup_iff.mpr covered.oneJob)
  refine ⟨fresh.2, ?_, ?_, ?_⟩
  · intro other chosen member
    exact covered.served other chosen (moved.mem_iff.mp (List.mem_cons_of_mem _ member))
  · intro other marked
    simpa [running, updatePeer, covered.marked_ne found marked] using covered.marked other marked
  · intro other member
    have different : other ≠ job.peer := by
      rintro rfl
      exact fresh.1 member
    rcases covered.flagged other (moved.mem_iff.mp (List.mem_cons_of_mem _ member)) with
      running | ⟨earlier, present, same, disconnected⟩
    · left
      simpa [PeerJobs.running, updatePeer, different] using running
    · right
      rcases List.mem_cons.mp (taken.mem_iff.mpr present) with rfl | present
      · exact absurd same.symm different
      · exact ⟨earlier, present, same, disconnected⟩

/-- A job that moves on keeps the flag, or has disconnected. -/
theorem Covered.move (covered : s.Covered) {worker : Nat} {job moved : PeerJob Id}
    {update : Peer → Peer} (found : s.executing[worker]? = some job)
    (same : moved.peer = job.peer) (kept : job.disconnected = true → moved.disconnected = true)
    (flag : (∀ p, (update p).running = p.running) ∨ moved.disconnected = true)
    : Covered
        { s.updatePeer job.peer update with executing := s.executing.set worker moved } := by
  have inside : worker < s.executing.length := (List.getElem?_eq_some_iff.mp found).1
  have jobsEq : s.jobQueue ++ (s.executing.set worker moved).map PeerJob.peer = s.jobs := by
    rw [map_peer_set found same, jobs]
  refine ⟨Eq.mpr (congrArg List.Nodup jobsEq) covered.oneJob, ?_, ?_, ?_⟩
  · intro other chosen member
    exact covered.served other chosen (jobsEq ▸ member)
  · intro other marked
    simpa [running, updatePeer, covered.marked_ne found marked] using covered.marked other marked
  · intro other member
    rcases covered.flagged other (jobsEq ▸ member) with running | disconnecting
    · by_cases here : other = job.peer
      · subst here
        rcases flag with unchanged | disconnected
        · left
          simpa [PeerJobs.running, updatePeer, unchanged] using running
        · right
          exact ⟨moved, List.mem_iff_getElem?.mpr ⟨worker, by simp [inside]⟩, same, disconnected⟩
      · left
        simpa [PeerJobs.running, updatePeer, here] using running
    · right
      obtain ⟨earlier, present, rfl, disconnected⟩ := disconnecting
      exact mem_set_of_disconnected found present same kept disconnected

/-- Every step of a thread keeps the flag's promise, when the main thread does not look at a peer
that is being disconnected.
-/
theorem Covered.step (covered : s.Covered) (event : JobEvent Id)
    (settled : ∀ peer, event = .test peer → ¬ s.Disconnecting peer)
    : (s.step event).Covered := by
  cases event with
  | test peer => exact covered.test (settled peer rfl)
  | mark => exact covered.mark
  | addJob added => exact covered.addJob added
  | takeJob => exact covered.takeJob
  | pass worker effect =>
      simp only [PeerJobs.step]
      split
      · exact covered
      · rename_i job found
        split
        · exact covered.leave found
        · exact covered.move found rfl id (.inl effect.keepsRunning)
  | disconnect worker now =>
      simp only [PeerJobs.step]
      split
      · exact covered
      · rename_i job found
        split
        · exact covered
        · exact covered.move found rfl (fun _ => rfl) (.inr rfl)

theorem Covered.run (covered : s.Covered) {events : List (JobEvent Id)}
    (orderly : s.Orderly events)
    : (s.run events).Covered := by
  induction events generalizing s with
  | nil => exact covered
  | cons event rest ih => exact ih (covered.step event orderly.1) orderly.2

/-- The beginning of an orderly run is orderly. -/
theorem Orderly.of_append {front back : List (JobEvent Id)} (orderly : s.Orderly (front ++ back))
    : s.Orderly front := by
  induction front generalizing s with
  | nil => trivial
  | cons event rest ih => exact ⟨orderly.1, ih orderly.2⟩

/-- In a run in which the main thread looks at no peer between a disconnect and the return of its
job, no state that is reached has two jobs for one peer.
-/
theorem run_oneJobPerPeer (unstarted : s.Unstarted) (front back : List (JobEvent Id))
    (orderly : s.Orderly (front ++ back))
    : (s.run front).OneJobPerPeer :=
  (unstarted.covered.run orderly.of_append).oneJob

/-- One peer, before the first pass. -/
def onePeer : PeerJobs Unit :=
  { peers := fun _ => Peer.new 0, main := .idle, jobQueue := [], executing := [] }

def noEffect : PeerEffect := ⟨id, fun _ => rfl⟩

/-- The main thread gives the peer a job, and a worker takes it as far as the network buffers. -/
def firstJob : List (JobEvent Unit) :=
  [.test (), .mark, .addJob true, .takeJob, .pass 0 noEffect]

/-- Witness: the peer hangs up, and the main thread looks again after the job has returned. -/
theorem run_oneJobPerPeer_hangup
    : (onePeer.run
        (firstJob
          ++ [.disconnect 0 5, .pass 0 noEffect, .test (), .mark, .addJob true])).OneJobPerPeer := by
  refine run_oneJobPerPeer ⟨rfl, rfl, rfl⟩ _ [] ?_
  simp [firstJob, Orderly, Disconnecting, step, onePeer, running, updatePeer, Peer.new, noEffect,
    RunPoint.next, RunPoint.afterDisconnect, Peer.disconnect, Peer.reset]

/-- The peer hangs up, and the main thread looks again before the job has returned. -/
theorem second_job_after_hangup
    : ¬ ∀ (Id : Type) [DecidableEq Id] (s : PeerJobs Id) (events : List (JobEvent Id)),
        s.Unstarted → (s.run events).OneJobPerPeer := by
  intro claim
  have two : (onePeer.run (firstJob ++ [.disconnect 0 5, .test (), .mark, .addJob true])).jobs
      = [(), ()] := by
    decide
  have once := claim Unit onePeer
    (firstJob ++ [.disconnect 0 5, .test (), .mark, .addJob true]) ⟨rfl, rfl, rfl⟩
  rw [OneJobPerPeer, two] at once
  revert once
  decide

end PeerJobs

end UvgTorrent
