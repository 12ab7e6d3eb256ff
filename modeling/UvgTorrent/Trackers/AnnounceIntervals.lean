import UvgTorrent.Trackers.AnnouncedPeers

/-! How long a tracker is left alone after an answer to an announce. The interval of the answer is
multiplied in an `int`, so an interval of about 25 days or more gives a deadline in the past.
-/

namespace UvgTorrent

open Foundations

namespace Tracker

variable {tr next : Tracker} {exchange : Exchange} {env : TrackerEnv} {exit : Exit}
  {peers : List (Nat × Nat)} {reply : Bytes}

-----------------------------------------------------------------------------------------
-- What keeps the deadline
-----------------------------------------------------------------------------------------

@[simp] theorem disconnect_announceDeadline (tr : Tracker)
    : tr.disconnect.announceDeadline = tr.announceDeadline := by
  unfold disconnect
  split <;> rfl

@[simp] theorem messageFailed_announceDeadline (tr : Tracker)
    : tr.messageFailed.announceDeadline = tr.announceDeadline := by
  simp [messageFailed]

theorem connect_announceDeadline (tr : Tracker) (connection : Connection)
    : (tr.connect connection).1.announceDeadline = tr.announceDeadline := by
  unfold connect
  dsimp only
  split
  · simp
  · split
    · simp
    · split
      · simp
      · split
        · rfl
        · simp

theorem scrape_announceDeadline (tr : Tracker) (exchange : Exchange) (now : Int)
    : (tr.scrape exchange now).1.announceDeadline = tr.announceDeadline := by
  unfold scrape
  split
  · rfl
  · dsimp only
    split
    · simp
    · split
      · rfl
      · rfl

theorem runScrape_announceDeadline (tr : Tracker) (env : TrackerEnv)
    : (tr.runScrape env).1.announceDeadline = tr.announceDeadline := by
  have connected := tr.connect_announceDeadline env.scrapeConnection
  unfold runScrape
  split
  · split
    · rename_i after success
      rw [success] at connected
      rw [← connected, ← after.scrape_announceDeadline env.scrapeExchange env.scrapedClock]
      simp [finish]
    · rename_i after failure
      rw [failure] at connected
      exact connected
  · rfl

/-- A run in which no announce is due keeps the deadline of the next one. -/
theorem run_announceDeadline (quiet : tr.shouldAnnounce env.announceClock = false)
    (ran : tr.run env = .ok (next, exit, peers))
    : next.announceDeadline = tr.announceDeadline := by
  have kept := tr.runScrape_announceDeadline env
  rw [run, quiet, if_neg Bool.false_ne_true] at ran
  cases ran
  exact kept

/-- No announce is due up to the deadline. -/
theorem shouldAnnounce_early {clock : Int} (early : clock ≤ tr.announceDeadline)
    : tr.shouldAnnounce clock = false := by
  have waits : ¬ tr.announceDeadline < clock := Int.not_lt.mpr early
  simp [shouldAnnounce, waits]

-----------------------------------------------------------------------------------------
-- The interval of an answer
-----------------------------------------------------------------------------------------

/-- The interval of an answer to an announce, a 32-bit word. -/
def intervalOf (reply : Bytes) : Nat := ofBe32 (slice reply 8 4)

/-- A call of `tracker_run`. -/
def runCall (tr : Tracker) (env : TrackerEnv) : Except Fault Tracker :=
  (tr.run env).bind fun (tr, _, _) => .ok tr

/-- The tracker respects an interval of some seconds from a time on: its deadline is exact, and
whatever calls are made up to then, no announce is due.
-/
structure RespectsInterval (tr : Tracker) (accepted : Int) (seconds : Nat) : Prop where
  deadline : tr.announceDeadline = accepted + 1000 * seconds
  quiet
    : ∀ (calls : List TrackerEnv) (final : Tracker) (clock : Int),
        (∀ call ∈ calls, call.announceClock ≤ accepted + 1000 * seconds)
        → runSteps runCall tr.disconnect.finish calls = .ok final
        → clock ≤ accepted + 1000 * seconds
        → final.shouldAnnounce clock = false

/-- An answer that is accepted sets the deadline. -/
theorem announce_deadline {now : Int}
    (announced : tr.announce exchange now = .ok (next, .success, peers))
    (received
      : { tr with status := .announcing }.receive exchange 65507 (20 ≤ ·) = some reply)
    : next.announceDeadline = now + wrap32 (wrap32 (intervalOf reply) * 1000) := by
  unfold announce at announced
  split at announced
  · cases announced
  · dsimp only at announced
    rw [received] at announced
    dsimp only at announced
    split at announced
    · obtain ⟨_, _, announced⟩ := bind_eq_ok.mp announced
      cases announced
      rfl
    · cases announced

/-- Calls up to the deadline keep it. -/
theorem runSteps_announceDeadline {calls : List TrackerEnv} {final : Tracker} {deadline : Int}
    (early : ∀ call ∈ calls, call.announceClock ≤ deadline) (held : tr.announceDeadline = deadline)
    (ran : runSteps runCall tr calls = .ok final)
    : final.announceDeadline = deadline := by
  induction calls generalizing tr with
  | nil =>
      cases ran
      exact held
  | cons call rest ih =>
      obtain ⟨middle, called, later⟩ := runSteps_cons_eq_ok.mp ran
      obtain ⟨⟨after, exit, peers⟩, called, same⟩ := bind_eq_ok.mp called
      cases same
      have quiet : tr.shouldAnnounce call.announceClock = false :=
        shouldAnnounce_early (held ▸ early call (by simp))
      refine ih (fun other member => early other (by simp [member])) ?_ later
      rw [run_announceDeadline quiet called, held]

/-- A tracker respects the interval of an accepted answer if and only if its milliseconds fit an
`int`: up to 2147483 seconds.
-/
theorem announce_respectsInterval_iff {now : Int}
    (announced : tr.announce exchange now = .ok (next, .success, peers))
    (received
      : { tr with status := .announcing }.receive exchange 65507 (20 ≤ ·) = some reply)
    (nonneg : intervalOf reply < 2 ^ 31)
    : next.RespectsInterval now (intervalOf reply) ↔ intervalOf reply ≤ 2147483 := by
  have set := announce_deadline announced received
  rw [wrap32_natCast nonneg] at set
  constructor
  · rintro ⟨deadline, -⟩
    have exact : wrap32 ((intervalOf reply : Int) * 1000) = 1000 * intervalOf reply :=
      Int.add_left_cancel (set.symm.trans deadline)
    unfold wrap32 at exact
    omega
  · intro fits
    have exact : wrap32 ((intervalOf reply : Int) * 1000) = 1000 * intervalOf reply := by
      rw [wrap32_of_fits (by omega) (by omega), Int.mul_comm]
    rw [exact] at set
    refine ⟨set, fun calls final clock early ran soon => shouldAnnounce_early ?_⟩
    have held : next.disconnect.finish.announceDeadline = now + 1000 * intervalOf reply := by
      simpa [finish] using set
    rw [runSteps_announceDeadline early held ran]
    exact soon

/-- An answer without peers that asks for an interval. -/
def intervalReply (seconds : Nat) : Bytes :=
  be32 1 ++ be32 420 ++ be32 seconds ++ be32 0 ++ be32 0

/-- The connected tracker after an announce that gave it a deadline. -/
def announcedTracker (deadline : Int) : Tracker :=
  { connectedTracker with announceDeadline := deadline, status := .idle }

/-- Witness: a tracker asks for half an hour. -/
theorem announce_respectsInterval_halfHour
    : connectedTracker.announce (answeredWith (intervalReply 1800)) 5
        = .ok (announcedTracker 1800005, .success, [])
      ∧ (announcedTracker 1800005).RespectsInterval 5 (intervalOf (intervalReply 1800)) := by
  have announced : connectedTracker.announce (answeredWith (intervalReply 1800)) 5
      = .ok (announcedTracker 1800005, .success, []) := by
    decide +kernel
  refine ⟨announced, ?_⟩
  exact (announce_respectsInterval_iff announced (by decide +kernel) (by decide +kernel)).mpr
    (by decide +kernel)

/-- A tracker that asks for 2147484 seconds is announced to again at once. -/
theorem long_interval_announces_at_once
    : connectedTracker.announce (answeredWith (intervalReply 2147484)) 5
        = .ok (announcedTracker (-2147483291), .success, [])
      ∧ (announcedTracker (-2147483291)).disconnect.finish.shouldAnnounce 5 = true
      ∧ ¬ (announcedTracker (-2147483291)).RespectsInterval 5 2147484 := by
  refine ⟨by decide +kernel, by decide +kernel, ?_⟩
  rintro ⟨deadline, -⟩
  revert deadline
  decide +kernel

end Tracker

end UvgTorrent
