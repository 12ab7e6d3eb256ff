import UvgTorrent.Trackers.Recovery

/-! How long a tracker is waited for, and when it is given up. A request is sent again every five
seconds, for a time that doubles with each failed message; behind the fifth one the tracker is left
alone for good.
-/

namespace UvgTorrent

open Foundations

-----------------------------------------------------------------------------------------
-- The turns of a request
-----------------------------------------------------------------------------------------

/-- Two exchanges of one request that go the same way for so many turns. -/
structure Exchange.AgreesFor (count : Nat) (first second : Exchange) : Prop where
  transactionId : first.transactionId = second.transactionId
  turns : ∀ turn < count, first.turns turn = second.turns turn

/-- The same addresses, and a request that goes the same way for so many turns. -/
structure Connection.AgreesFor (count : Nat) (first second : Connection) : Prop where
  addresses : first.addresses = second.addresses
  exchange : first.exchange.AgreesFor count second.exchange

/-- The same clocks, and requests that go the same way for so long as a tracker is waited for: 16
minutes for a connection, one minute for an announce and a scrape.
-/
structure TrackerEnv.Agrees (first second : TrackerEnv) : Prop where
  announceClock : first.announceClock = second.announceClock
  announceConnection : first.announceConnection.AgreesFor 192 second.announceConnection
  announceExchange : first.announceExchange.AgreesFor 12 second.announceExchange
  answerClock : first.answerClock = second.answerClock
  scrapeClock : first.scrapeClock = second.scrapeClock
  scrapeConnection : first.scrapeConnection.AgreesFor 192 second.scrapeConnection
  scrapeExchange : first.scrapeExchange.AgreesFor 12 second.scrapeExchange
  scrapedClock : first.scrapedClock = second.scrapedClock

/-- A loop of some turns looks at these turns. Witness: induction on the turns that are left. -/
theorem Exchange.AgreesFor.answer {count : Nat} {first second : Exchange}
    (agrees : first.AgreesFor count second) (bufferSize : Nat) (accepts : Nat → Bool)
    {left turn : Nat} (within : turn + left ≤ count)
    : first.answer bufferSize accepts left turn = second.answer bufferSize accepts left turn := by
  induction left generalizing turn with
  | zero => rfl
  | succ left ih =>
      have later := @ih (turn + 1) (by omega)
      rw [Exchange.answer, Exchange.answer, agrees.turns turn (by omega), later]

namespace Tracker

variable {tr next : Tracker} {env : TrackerEnv}

/-- Below five failed messages the timeout is 16 minutes at most. -/
theorem getTimeout_le (few : tr.messageAttempts < 5) : tr.getTimeout / 5 ≤ 192 := by
  have doubled : 2 ^ tr.messageAttempts ≤ 2 ^ 4 := Nat.pow_le_pow_right (by omega) (by omega)
  rw [getTimeout]
  omega

theorem connect_agrees {first second : Connection} (few : tr.messageAttempts < 5)
    (agrees : first.AgreesFor 192 second)
    : tr.connect first = tr.connect second := by
  unfold connect
  rw [agrees.addresses]
  cases second.addresses with
  | none => rfl
  | some addresses =>
      dsimp only
      cases connectAddresses addresses with
      | none => rfl
      | some socket =>
          have waits := getTimeout_le few
          have answered :=
            agrees.exchange.answer 16 (· = 16) (Nat.le_trans (Nat.le_of_eq (Nat.zero_add _)) waits)
          simp only [receive, getTimeout] at answered ⊢
          rw [answered, agrees.exchange.transactionId]

/-- Right behind a connection, the timeout is a minute. -/
theorem receive_agrees {first second : Exchange} (fresh : tr.messageAttempts = 0)
    (agrees : first.AgreesFor 12 second) (bufferSize : Nat) (accepts : Nat → Bool)
    : tr.receive first bufferSize accepts = tr.receive second bufferSize accepts := by
  have minute : tr.getTimeout / 5 = 12 := by
    rw [getTimeout, fresh]
    rfl
  rw [receive, receive, minute]
  exact agrees.answer bufferSize accepts (Nat.le_of_eq (Nat.zero_add 12))

theorem announce_agrees {first second : Exchange} (fresh : tr.messageAttempts = 0)
    (agrees : first.AgreesFor 12 second) (now : Int)
    : tr.announce first now = tr.announce second now := by
  have received := @receive_agrees { tr with status := .announcing } _ _ fresh agrees
  unfold announce
  dsimp only
  rw [received, agrees.transactionId]

theorem scrape_agrees {first second : Exchange} (fresh : tr.messageAttempts = 0)
    (agrees : first.AgreesFor 12 second) (now : Int)
    : tr.scrape first now = tr.scrape second now := by
  have received := @receive_agrees { tr with status := .scraping } _ _ fresh agrees
  unfold scrape
  dsimp only
  rw [received, agrees.transactionId]

/-- A connection that succeeds takes the failed messages back. -/
theorem connect_fresh {connection : Connection}
    (connected : tr.connect connection = (next, .success))
    : next.messageAttempts = 0 := by
  rcases connect_cases tr connection with
      ⟨-, after, failed, -⟩ | ⟨-, -, after, failed, -⟩ | ⟨-, -, after, succeeded, -, fresh⟩
  · cases connected.symm.trans failed
  · cases connected.symm.trans failed
  · cases connected.symm.trans succeeded
    exact fresh

theorem shouldScrape_few {now : Int} (due : tr.shouldScrape now = true)
    : tr.messageAttempts < 5 := by
  simp only [shouldScrape, decide_eq_true_eq] at due
  exact due.2.2

theorem runScrape_agrees {first second : TrackerEnv} (tr : Tracker) (agrees : first.Agrees second)
    : tr.runScrape first = tr.runScrape second := by
  unfold runScrape
  rw [agrees.scrapeClock, agrees.scrapedClock]
  split
  · rename_i due
    rw [connect_agrees (shouldScrape_few due) agrees.scrapeConnection]
    cases connected : tr.connect second.scrapeConnection with
    | mk after exit =>
        cases exit with
        | failure => rfl
        | success =>
            dsimp only
            rw [scrape_agrees (connect_fresh connected) agrees.scrapeExchange]
  · rfl

/-- Whatever a tracker has been through, a run looks at 192 turns at most of each of its two
requests for a connection, and at 12 of an announce and of a scrape. A turn is one send and one read
of five seconds: what the network does later makes no difference.
-/
theorem run_agrees {first second : TrackerEnv} (tr : Tracker) (agrees : first.Agrees second)
    : tr.run first = tr.run second := by
  unfold run
  rw [agrees.announceClock, agrees.answerClock]
  split
  · rename_i due
    have few : tr.messageAttempts < 5 := by
      simp only [shouldAnnounce, decide_eq_true_eq] at due
      exact due.2.2
    rw [connect_agrees few agrees.announceConnection]
    cases connected : tr.connect second.announceConnection with
    | mk after exit =>
        cases exit with
        | failure =>
            dsimp only
            rw [runScrape_agrees after agrees]
        | success =>
            dsimp only
            rw [announce_agrees (connect_fresh connected) agrees.announceExchange]
  · rw [runScrape_agrees tr agrees]

/-- A request that gets no answer in its first turns, and then fails. -/
def lateExchange (silentTurns : Nat) : Exchange :=
  { transactionId := 7, turns := fun turn => if turn < silentTurns then .silent else .writeFails }

/-- A run on one address that connects. -/
def lateRun (silentTurns : Nat) : TrackerEnv :=
  let connection :=
    {
      addresses := some [{ descriptor := 3, connects := true }]
      exchange := lateExchange silentTurns
    }
  { refusedRun with announceConnection := connection, scrapeConnection := connection }

/-- Witness: silence for 16 minutes and for ever. -/
theorem run_agrees_silence
    : new.start.run (lateRun 192) = new.start.run (lateRun 1000)
      ∧ (new.start.run (lateRun 1000)).map (fun ran => (ran.1.status, ran.1.messageAttempts))
        = .ok (.idle, 2) := by
  have exchange : (lateExchange 192).AgreesFor 192 (lateExchange 1000) := by
    refine ⟨rfl, fun turn early => ?_⟩
    simp only [lateExchange]
    rw [if_pos early, if_pos (by omega)]
  have silent (count : Nat) : silence.AgreesFor count silence := ⟨rfl, fun _ _ => rfl⟩
  refine ⟨run_agrees new.start ?_, by decide +kernel⟩
  exact ⟨rfl, ⟨rfl, exchange⟩, silent 12, rfl, rfl, ⟨rfl, exchange⟩, silent 12, rfl⟩

-----------------------------------------------------------------------------------------
-- Giving up
-----------------------------------------------------------------------------------------

/-- No later pass changes the tracker. -/
def GivenUp (tr : Tracker) : Prop :=
  ∀ (later : List TrackerPass) (final : Tracker), runSteps pass tr later = .ok final → final = tr

theorem new_parked : new.Parked := ⟨rfl, rfl, by decide⟩

theorem pass_idle {turn : TrackerPass} (ended : tr.status ≠ .idle ∨ tr.messageAttempts = 5)
    : tr.pass turn = .ok tr := by
  have quiet : tr.shouldRun turn.announceClock turn.scrapeClock = false := by
    simp only [shouldRun, shouldAnnounce, shouldScrape, decide_eq_false_iff_not, decide_eq_true_eq]
    rintro ⟨announce | scrape, -⟩
    · rcases ended with busy | failed
      · exact busy announce.1
      · exact absurd announce.2.2 (by omega)
    · rcases ended with busy | failed
      · exact busy scrape.1
      · exact absurd scrape.2.2 (by omega)
  rw [pass, quiet, if_neg Bool.false_ne_true]

/-- A pass in which the announce is due and the name of the tracker is not found. -/
def unknownNamePass (tr : Tracker) : TrackerPass :=
  let clock := tr.announceDeadline + 1
  {
    announceClock := clock
    scrapeClock := clock
    env := { lookupFailure with announceClock := clock, scrapeClock := clock }
  }

/-- An idle tracker with fewer failed messages can still be changed. -/
theorem pass_unknownName (parked : tr.Parked) (idle : tr.status = .idle)
    (few : tr.messageAttempts < 5)
    : ∃ after, tr.pass (unknownNamePass tr) = .ok after ∧ after.status = .connecting := by
  have announces : tr.shouldAnnounce (tr.announceDeadline + 1) = true := by
    simp only [shouldAnnounce, decide_eq_true_eq]
    exact ⟨idle, by omega, few⟩
  have due
      : tr.shouldRun (unknownNamePass tr).announceClock (unknownNamePass tr).scrapeClock
        = true := by
    simp only [shouldRun, decide_eq_true_eq]
    exact ⟨.inl announces, parked.running⟩
  have started : tr.start.shouldAnnounce (unknownNamePass tr).env.announceClock = true := announces
  have unknown : (unknownNamePass tr).env.announceConnection.addresses = none := rfl
  rcases connect_cases tr.start (unknownNamePass tr).env.announceConnection with
      ⟨-, after, connected, connecting, -⟩ | ⟨known, -⟩ | ⟨known, -⟩
  · have quiet : after.shouldScrape (unknownNamePass tr).env.scrapeClock = false := by
      simp [shouldScrape, connecting]
    refine ⟨after.finish, ?_, connecting⟩
    have ran : tr.start.run (unknownNamePass tr).env = .ok (after.finish, .failure, []) := by
      have scrapes : after.runScrape (unknownNamePass tr).env = (after.finish, .failure) := by
        rw [runScrape, quiet, if_neg Bool.false_ne_true]
      rw [run, connected, if_pos started]
      dsimp only
      rw [scrapes]
    rw [pass, if_pos due, ran]
    rfl
  · exact absurd unknown known
  · exact absurd unknown known

/-- After any passes over a new tracker, it is given up for good if and only if it is not idle or
five messages have failed since its last connection; there are never more.
-/
theorem given_up_iff {turns : List TrackerPass} (ran : runSteps pass new turns = .ok tr)
    : tr.messageAttempts ≤ 5
      ∧ (tr.GivenUp ↔ tr.status ≠ .idle ∨ tr.messageAttempts = 5) := by
  have parked : tr.Parked :=
    runSteps_invariant (fun _ _ _ parked _ passed => (parked.pass passed).1) new_parked
      (Guarded.of_forall (fun _ _ => trivial) new turns) ran
  refine ⟨parked.messageAttempts, ?_⟩
  constructor
  · intro givenUp
    by_contra goesOn
    push Not at goesOn
    obtain ⟨idle, failed⟩ := goesOn
    have most := parked.messageAttempts
    obtain ⟨after, passed, connecting⟩ := pass_unknownName parked idle (by omega)
    have same := givenUp [unknownNamePass tr] after (runSteps_cons_eq_ok.mpr ⟨after, passed, rfl⟩)
    rw [same, idle] at connecting
    cases connecting
  · intro ended later final passes
    have kept (state : Tracker) (turn : TrackerPass) (after : Tracker) (same : state = tr)
        (_ : True) (passed : state.pass turn = .ok after)
        : after = tr := by
      subst same
      exact (Except.ok.inj ((pass_idle ended).symm.trans passed)).symm
    exact runSteps_invariant kept rfl (Guarded.of_forall (fun _ _ => trivial) tr later) passes

/-- Witness: three passes in which every connection is refused. -/
theorem given_up_iff_refused
    : ∃ tr,
        runSteps pass new (List.replicate 3 ⟨1, 1, refusedRun⟩) = .ok tr
        ∧ tr.messageAttempts = 5
        ∧ tr.GivenUp := by
  have ran
      : runSteps pass new (List.replicate 3 ⟨1, 1, refusedRun⟩)
        = .ok { new with messageAttempts := 5 } := rfl
  exact ⟨_, ran, rfl, (given_up_iff ran).2.mpr (.inr rfl)⟩

end Tracker

end UvgTorrent
