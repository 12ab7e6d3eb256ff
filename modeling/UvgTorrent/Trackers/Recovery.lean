import UvgTorrent.Trackers.State

/-! Whether a tracker is idle again when its run returns. A failed name lookup leaves it connecting,
and an unexpected answer to a scrape leaves it scraping; both are for good.
-/

namespace UvgTorrent

open Foundations

namespace Tracker

/-- The tracker can be run again: idle, without a socket and not running. -/
structure Rested (tr : Tracker) : Prop where
  status : tr.status = .idle
  socket : tr.socket = 0
  running : tr.running = false
  messageAttempts : tr.messageAttempts ≤ 5

/-- The tracker accepts the connection after so many failed messages: an address connects, and the
answer has the action 0 and the transaction id.
-/
def accepts (connection : Connection) (messageAttempts : Nat) : Bool :=
  match connection.addresses with
  | none => false
  | some addresses =>
      (connectAddresses addresses).isSome
      && (connection.exchange.answer 16 (· = 16) (60 * 2 ^ messageAttempts / 5) 0).any
          (replies 0 connection.exchange.transactionId)

/-- The run comes to the scrape: no announce is due, or its connection has failed. -/
def comesToScrape (tr : Tracker) (env : TrackerEnv) : Bool :=
  if tr.shouldAnnounce env.announceClock then
    !accepts env.announceConnection tr.messageAttempts
      && { tr with messageAttempts := tr.messageAttempts + 1 }.shouldScrape env.scrapeClock
  else tr.shouldScrape env.scrapeClock

/-- The failed messages before a scrape. -/
def attemptsBeforeScrape (tr : Tracker) (env : TrackerEnv) : Nat :=
  if tr.shouldAnnounce env.announceClock then tr.messageAttempts + 1 else tr.messageAttempts

/-- The answer to the scrape, if there is one, has the action 2 and the transaction id. -/
def scrapeAnswered (exchange : Exchange) : Bool :=
  (exchange.answer 65507 (8 ≤ ·) 12 0).all (replies 2 exchange.transactionId)

/-- The names that the run looks up are found, and a scrape that it makes gets no unexpected answer.
A run that does nothing has to find the socket closed.
-/
structure Recovers (tr : Tracker) (env : TrackerEnv) : Prop where
  socket
    : tr.shouldAnnounce env.announceClock = false
      → tr.shouldScrape env.scrapeClock = false
      → tr.socket = 0
  announceName
    : tr.shouldAnnounce env.announceClock = true → env.announceConnection.addresses ≠ none
  scrapeName : tr.comesToScrape env = true → env.scrapeConnection.addresses ≠ none
  scrapeAnswer
    : tr.comesToScrape env = true
      → accepts env.scrapeConnection (tr.attemptsBeforeScrape env) = true
      → scrapeAnswered env.scrapeExchange = true

variable {tr next : Tracker} {connection : Connection} {env : TrackerEnv} {exit : Exit}

@[simp] theorem disconnect_socket (tr : Tracker) : tr.disconnect.socket = 0 := by
  unfold disconnect
  split
  · rfl
  · rename_i closed
    exact not_not.mp closed

@[simp] theorem disconnect_status (tr : Tracker) : tr.disconnect.status = tr.status := by
  unfold disconnect
  split <;> rfl

@[simp] theorem disconnect_messageAttempts (tr : Tracker)
    : tr.disconnect.messageAttempts = tr.messageAttempts := by
  unfold disconnect
  split <;> rfl

@[simp] theorem disconnect_scrapeDeadline (tr : Tracker)
    : tr.disconnect.scrapeDeadline = tr.scrapeDeadline := by
  unfold disconnect
  split <;> rfl

/-- After a failed message, the tracker is idle with one more attempt. -/
structure FailedFrom (tr next : Tracker) : Prop where
  status : next.status = .idle
  socket : next.socket = 0
  messageAttempts : next.messageAttempts = tr.messageAttempts + 1
  scrapeDeadline : next.scrapeDeadline = tr.scrapeDeadline

theorem messageFailed_failedFrom (tr : Tracker) : FailedFrom tr tr.messageFailed := by
  constructor <;> simp [messageFailed]

/-- The three ways in which `tracker_connect` ends. -/
theorem connect_cases (tr : Tracker) (connection : Connection)
    : (connection.addresses = none
        ∧ ∃ after,
            tr.connect connection = (after, .failure)
            ∧ after.status = .connecting
            ∧ after.socket = 0
            ∧ after.messageAttempts = tr.messageAttempts)
      ∨ (connection.addresses ≠ none
        ∧ accepts connection tr.messageAttempts = false
        ∧ ∃ after, tr.connect connection = (after, .failure) ∧ FailedFrom tr after)
      ∨ (connection.addresses ≠ none
        ∧ accepts connection tr.messageAttempts = true
        ∧ ∃ after,
            tr.connect connection = (after, .success)
            ∧ after.status = .connected
            ∧ after.messageAttempts = 0) := by
  unfold connect accepts
  cases connection.addresses with
  | none => exact .inl ⟨rfl, _, rfl, by simp⟩
  | some addresses =>
      right
      dsimp only
      cases connectAddresses addresses with
      | none =>
          left
          have failed := messageFailed_failedFrom { tr with status := .connecting }
          exact ⟨by simp, by simp, _, rfl, failed.1, failed.2, failed.3, failed.4⟩
      | some socket =>
          have failed := messageFailed_failedFrom { tr with status := .connecting, socket }
          simp only [receive, getTimeout]
          cases connection.exchange.answer 16 (· = 16) (60 * 2 ^ tr.messageAttempts / 5) 0 with
          | none =>
              left
              exact ⟨by simp, by simp, _, rfl, failed.1, failed.2, failed.3, failed.4⟩
          | some reply =>
              dsimp only
              split
              · rename_i accepted
                right
                exact ⟨by simp, by simp [accepted], _, rfl, rfl, rfl⟩
              · rename_i refused
                left
                exact ⟨by simp, by simp [refused], _, rfl, failed.1, failed.2, failed.3, failed.4⟩

/-- Every way out of `tracker_announce` leaves the tracker idle. -/
theorem announce_idle {exchange : Exchange} {now : Int} {peers : List (Nat × Nat)}
    (connected : tr.status = .connected)
    (announced : tr.announce exchange now = .ok (next, exit, peers))
    : next.status = .idle ∧ next.messageAttempts ≤ tr.messageAttempts + 1 := by
  have failed := messageFailed_failedFrom { tr with status := .announcing }
  rw [announce, if_neg (not_not.mpr connected)] at announced
  dsimp only at announced
  split at announced
  · cases announced
    exact ⟨failed.status, Nat.le_of_eq failed.messageAttempts⟩
  · split at announced
    · obtain ⟨_, _, announced⟩ := bind_eq_ok.mp announced
      cases announced
      exact ⟨rfl, Nat.zero_le _⟩
    · cases announced
      exact ⟨failed.status, Nat.le_of_eq failed.messageAttempts⟩

/-- A scrape leaves the tracker idle unless it gets an unexpected answer. -/
theorem scrape_idle_iff (exchange : Exchange) (now : Int) (connected : tr.status = .connected)
    (fresh : tr.messageAttempts = 0)
    : ((tr.scrape exchange now).1.status = .idle ↔ scrapeAnswered exchange = true)
      ∧ (tr.scrape exchange now).1.messageAttempts ≤ 1 := by
  have failed := messageFailed_failedFrom { tr with status := .scraping }
  have received : { tr with status := .scraping }.receive exchange 65507 (8 ≤ ·)
      = exchange.answer 65507 (8 ≤ ·) 12 0 := by
    simp [receive, getTimeout, fresh]
  rw [scrape, if_neg (not_not.mpr connected)]
  simp only [received, scrapeAnswered]
  cases exchange.answer 65507 (8 ≤ ·) 12 0 with
  | none =>
      refine ⟨by simp [failed.status], ?_⟩
      exact Nat.le_of_eq (failed.messageAttempts.trans (congrArg (· + 1) fresh))
  | some reply =>
      dsimp only
      split
      · rename_i answered
        exact ⟨by simp [answered], Nat.zero_le _⟩
      · rename_i unexpected
        exact ⟨by simp [unexpected], Nat.le_trans (Nat.le_of_eq fresh) (Nat.zero_le 1)⟩

/-- The second half of a run: nothing is done unless a scrape is due. -/
theorem runScrape_cases (tr : Tracker) (env : TrackerEnv) (few : tr.messageAttempts ≤ 5)
    : ∃ after exit,
        tr.runScrape env = (after, exit)
        ∧ after.running = false
        ∧ after.messageAttempts ≤ 5
        ∧ if tr.shouldScrape env.scrapeClock then
            after.socket = 0
            ∧ (after.status = .idle
              ↔ env.scrapeConnection.addresses ≠ none
                ∧ (accepts env.scrapeConnection tr.messageAttempts = true
                  → scrapeAnswered env.scrapeExchange = true))
          else after.status = tr.status ∧ after.socket = tr.socket := by
  unfold runScrape
  cases due : tr.shouldScrape env.scrapeClock with
  | false => exact ⟨tr.finish, .failure, rfl, rfl, few, rfl, rfl⟩
  | true =>
      have fewer : tr.messageAttempts < 5 := by
        simp only [shouldScrape, decide_eq_true_eq] at due
        exact due.2.2
      simp only [if_true]
      rcases connect_cases tr env.scrapeConnection with
          ⟨unknown, after, connected, status, socket, attempts⟩
          | ⟨known, refused, after, connected, failed⟩
          | ⟨known, accepted, after, connected, status, attempts⟩
      · rw [connected]
        refine ⟨after.finish, .failure, rfl, rfl, ?_, socket, ?_⟩
        · exact Nat.le_trans (Nat.le_of_eq attempts) few
        · simp [finish, unknown, status]
      · rw [connected]
        refine ⟨after.finish, .failure, rfl, rfl, ?_, failed.socket, ?_⟩
        · exact Nat.le_trans (Nat.le_of_eq failed.messageAttempts) fewer
        · simp [finish, known, refused, failed.status]
      · rw [connected]
        obtain ⟨idle, most⟩ :=
          scrape_idle_iff env.scrapeExchange env.scrapedClock status attempts
        refine ⟨_, .success, rfl, rfl, ?_, ?_, ?_⟩
        · simp only [finish, disconnect_messageAttempts]
          omega
        · simp [finish]
        · simp only [finish, disconnect_status, idle]
          simp [known, accepted]

/-- What the scrape has to meet once the rest of the condition is known. -/
theorem recovers_iff {scrapes : Bool} {attempts : Nat} (comes : tr.comesToScrape env = scrapes)
    (counted : tr.attemptsBeforeScrape env = attempts)
    (known
      : tr.shouldAnnounce env.announceClock = true → env.announceConnection.addresses ≠ none)
    : tr.Recovers env
      ↔ (tr.shouldAnnounce env.announceClock = false
          → tr.shouldScrape env.scrapeClock = false
          → tr.socket = 0)
        ∧ (scrapes = true
          → env.scrapeConnection.addresses ≠ none
            ∧ (accepts env.scrapeConnection attempts = true
              → scrapeAnswered env.scrapeExchange = true)) := by
  subst comes counted
  constructor
  · intro recovers
    exact ⟨recovers.socket, fun comes => ⟨recovers.scrapeName comes, recovers.scrapeAnswer comes⟩⟩
  · rintro ⟨socket, scrape⟩
    exact ⟨socket, known, fun comes => (scrape comes).1, fun comes => (scrape comes).2⟩

/-- What a run that returns leaves. -/
theorem run_cases (idle : tr.status = .idle) (few : tr.messageAttempts ≤ 5)
    {peers : List (Nat × Nat)} (ran : tr.run env = .ok (next, exit, peers))
    : next.running = false
      ∧ next.messageAttempts ≤ 5
      ∧ (tr.socket = 0 → next.socket = 0)
      ∧ (next.status = .idle ∧ next.socket = 0 ↔ tr.Recovers env) := by
  unfold run at ran
  cases due : tr.shouldAnnounce env.announceClock with
  | true =>
      have fewer : tr.messageAttempts < 5 := by
        simp only [shouldAnnounce, decide_eq_true_eq] at due
        exact due.2.2
      rw [if_pos due] at ran
      rcases connect_cases tr env.announceConnection with
          ⟨unknown, after, connected, status, socket, attempts⟩
          | ⟨known, refused, after, connected, failed⟩
          | ⟨known, accepted, after, connected, status, attempts⟩
      · -- no scrape is due while the tracker is connecting
        obtain ⟨last, lastExit, second, running, most, quiet⟩ :=
          runScrape_cases after env (Nat.le_trans (Nat.le_of_eq attempts) few)
        rw [connected] at ran
        simp only [second] at ran
        cases ran
        rw [if_neg (by simp [shouldScrape, status])] at quiet
        refine ⟨running, most, fun _ => quiet.2.trans socket, iff_of_false ?_ ?_⟩
        · rw [quiet.1, status]
          simp
        · intro recovers
          exact recovers.announceName due unknown
      · obtain ⟨last, lastExit, second, running, most, scraped⟩ :=
          runScrape_cases after env (Nat.le_trans (Nat.le_of_eq failed.messageAttempts) fewer)
        rw [connected] at ran
        simp only [second] at ran
        cases ran
        have comes : tr.comesToScrape env = after.shouldScrape env.scrapeClock := by
          simp [comesToScrape, due, refused, shouldScrape, idle, failed.status,
            failed.messageAttempts, failed.scrapeDeadline]
        have attempts : tr.attemptsBeforeScrape env = after.messageAttempts := by
          rw [attemptsBeforeScrape, if_pos due, failed.messageAttempts]
        rw [recovers_iff comes attempts fun _ => known]
        cases scrapes : after.shouldScrape env.scrapeClock with
        | false =>
            rw [scrapes, if_neg Bool.false_ne_true, failed.status, failed.socket] at scraped
            refine ⟨running, most, fun _ => scraped.2, iff_of_true scraped ?_⟩
            simp [due]
        | true =>
            rw [scrapes, if_pos rfl] at scraped
            refine ⟨running, most, fun _ => scraped.1, ?_⟩
            rw [and_iff_left scraped.1, scraped.2]
            simp [due]
      · obtain ⟨⟨announced, announceExit, found⟩, announcing, ran⟩ :=
          bind_eq_ok.mp (by rw [connected] at ran; exact ran)
        cases ran
        obtain ⟨rested, most⟩ := announce_idle status announcing
        refine ⟨rfl, ?_, fun _ => by simp [finish], ?_⟩
        · simp only [finish, disconnect_messageAttempts]
          omega
        · refine iff_of_true (by simp [finish, rested]) ?_
          constructor <;> simp [due, known, comesToScrape, accepted]
  | false =>
      obtain ⟨last, lastExit, second, running, most, scraped⟩ := runScrape_cases tr env few
      rw [due, if_neg Bool.false_ne_true] at ran
      simp only [second] at ran
      cases ran
      have comes : tr.comesToScrape env = tr.shouldScrape env.scrapeClock := by
        simp [comesToScrape, due]
      have attempts : tr.attemptsBeforeScrape env = tr.messageAttempts := by
        simp [attemptsBeforeScrape, due]
      rw [recovers_iff comes attempts (by simp [due])]
      cases scrapes : tr.shouldScrape env.scrapeClock with
      | false =>
          rw [scrapes, if_neg Bool.false_ne_true, idle] at scraped
          refine ⟨running, most, scraped.2.trans, ?_⟩
          rw [scraped.1, scraped.2]
          simp [due]
      | true =>
          rw [scrapes, if_pos rfl] at scraped
          refine ⟨running, most, fun _ => scraped.1, ?_⟩
          rw [and_iff_left scraped.1, scraped.2]
          simp

/-- One pass of `torrent_run_trackers` over the tracker: two readings of the clock, and what the run
meets that it may start.
-/
structure TrackerPass where
  announceClock : Int
  scrapeClock : Int
  env : TrackerEnv

/-- `tr->running = 1`, before the job is added. -/
def start (tr : Tracker) : Tracker := { tr with running := true }

/-- A pass, with the job that it adds carried out. -/
def pass (tr : Tracker) (turn : TrackerPass) : Except Fault Tracker :=
  if tr.shouldRun turn.announceClock turn.scrapeClock then
    (tr.start.run turn.env).bind fun (tr, _, _) => .ok tr
  else .ok tr

/-- A run that the pass starts recovers. -/
def PassRecovers (tr : Tracker) (turn : TrackerPass) : Prop :=
  tr.shouldRun turn.announceClock turn.scrapeClock = true
  → tr.start.Recovers turn.env

/-- Between two passes, whatever the status. -/
structure Parked (tr : Tracker) : Prop where
  socket : tr.socket = 0
  running : tr.running = false
  messageAttempts : tr.messageAttempts ≤ 5

theorem rested_iff (tr : Tracker) : tr.Rested ↔ tr.Parked ∧ tr.status = .idle := by
  constructor
  · intro rested
    exact ⟨⟨rested.socket, rested.running, rested.messageAttempts⟩, rested.status⟩
  · rintro ⟨parked, status⟩
    exact ⟨status, parked.socket, parked.running, parked.messageAttempts⟩

/-- One pass: a tracker that is not idle is never run again. -/
theorem Parked.pass {turn : TrackerPass} (parked : tr.Parked) (passed : tr.pass turn = .ok next)
    : next.Parked ∧ (next.status = .idle ↔ tr.status = .idle ∧ tr.PassRecovers turn) := by
  unfold Tracker.pass at passed
  split at passed
  · rename_i due
    have idle : tr.status = .idle := by
      simp only [shouldRun, shouldAnnounce, shouldScrape, decide_eq_true_eq] at due
      rcases due.1 with announce | scrape
      · exact announce.1
      · exact scrape.1
    obtain ⟨⟨after, exit, peers⟩, ran, passed⟩ := bind_eq_ok.mp passed
    cases passed
    have startIdle : tr.start.status = .idle := idle
    have startFew : tr.start.messageAttempts ≤ 5 := parked.messageAttempts
    obtain ⟨running, few, socket, recovers⟩ := run_cases startIdle startFew ran
    have closed := socket parked.socket
    refine ⟨⟨closed, running, few⟩, ?_⟩
    rw [and_iff_left closed] at recovers
    simp [recovers, idle, PassRecovers, due]
  · rename_i quiet
    cases passed
    exact ⟨parked, by simp [PassRecovers, quiet]⟩

/-- A run of an idle tracker that returns leaves it rested if and only if the run recovers; and over
any sequence of passes the tracker is rested if and only if every run of it has recovered.
-/
theorem tracker_comes_back_iff (tr next rested final : Tracker) (env : TrackerEnv) (exit : Exit)
    (peers : List (Nat × Nat)) (turns : List TrackerPass)
    : (tr.status = .idle
        → tr.running = true
        → tr.messageAttempts ≤ 5
        → tr.run env = .ok (next, exit, peers)
        → (next.Rested ↔ tr.Recovers env))
      ∧ (rested.Rested
          → runSteps pass rested turns = .ok final
          → (final.Rested ↔ Guarded pass PassRecovers rested turns)) := by
  constructor
  · intro idle _ few ran
    obtain ⟨running, most, _, recovers⟩ := run_cases idle few ran
    rw [← recovers]
    constructor
    · intro rested
      exact ⟨rested.status, rested.socket⟩
    · rintro ⟨status, socket⟩
      exact ⟨status, socket, running, most⟩
  · intro start ran
    obtain ⟨parked, idle⟩ := (rested_iff rested).mp start
    have within : Guarded pass (fun _ _ => True) rested turns :=
      Guarded.of_forall (fun _ _ => trivial) rested turns
    have parkedFinal : final.Parked :=
      runSteps_invariant (fun _ _ _ parked _ passed => (parked.pass passed).1) parked within ran
    have idleFinal
        : final.status = .idle ↔ rested.status = .idle ∧ Guarded pass PassRecovers rested turns :=
      runSteps_good_iff (fun _ _ _ parked _ passed => parked.pass passed) parked within ran
    rw [rested_iff, and_iff_right parkedFinal, idleFinal, and_iff_right idle]

/-- A tracker as `tracker_new` leaves it. -/
def new : Tracker :=
  {
    connectionId := 0
    announceDeadline := 0
    scrapeDeadline := 0
    seeders := 0
    leechers := 0
    socket := 0
    status := .idle
    messageAttempts := 0
    running := false
  }

/-- A conversation in which the tracker is never heard. -/
def silence : Exchange := { transactionId := 7, turns := fun _ => .silent }

/-- Every address is refused, but names are found. -/
def refusal : Connection := { addresses := some [], exchange := silence }

/-- A run in which every connection is refused. -/
def refusedRun : TrackerEnv :=
  {
    announceClock := 1
    announceConnection := refusal
    announceExchange := silence
    answerClock := 1
    scrapeClock := 1
    scrapeConnection := refusal
    scrapeExchange := silence
    scrapedClock := 1
  }

/-- A run in which the tracker's name is not found. -/
def lookupFailure : TrackerEnv :=
  { refusedRun with announceConnection := { refusal with addresses := none } }

/-- The announce cannot connect, the scrape does, and its second request is answered. -/
def scrapedRun : TrackerEnv :=
  let connected : Bytes := be32 0 ++ be32 7 ++ be32 0 ++ be32 9
  let scraped : Bytes := be32 2 ++ be32 7 ++ be32 3 ++ be32 0 ++ be32 5
  {
    refusedRun with
    scrapeConnection :=
      {
        addresses := some [{ descriptor := 4, connects := true }]
        exchange := { transactionId := 7, turns := fun _ => .datagram connected }
      }
    scrapeExchange :=
      {
        transactionId := 7
        turns := fun turn => if turn = 0 then .silent else .datagram scraped
      }
  }

theorem scrapedRun_recovers : new.start.Recovers scrapedRun := by
  constructor <;> decide

/-- Witness: a tracker that answers a scrape, in a run and in a pass. -/
theorem tracker_comes_back_scraped
    : (∃ next exit peers,
        new.start.run scrapedRun = .ok (next, exit, peers)
          ∧ next.seeders = 3
          ∧ next.leechers = 5
          ∧ next.Rested)
      ∧ ∃ final, runSteps pass new [⟨1, 1, scrapedRun⟩] = .ok final ∧ final.Rested := by
  have rested : new.Rested := ⟨rfl, rfl, rfl, by decide⟩
  have guarded : Guarded pass PassRecovers new [⟨1, 1, scrapedRun⟩] :=
    ⟨fun _ => scrapedRun_recovers, fun _ _ => trivial⟩
  constructor
  · refine ⟨_, _, _, rfl, rfl, rfl, ?_⟩
    exact ((tracker_comes_back_iff _ _ new new _ _ _ []).1 rfl rfl (by decide) rfl).mpr
      scrapedRun_recovers
  · refine ⟨_, rfl, ?_⟩
    exact ((tracker_comes_back_iff new new new _ scrapedRun .failure [] _).2 rested rfl).mpr guarded

/-- When the name of the tracker is not found, the tracker is left connecting. -/
theorem tracker_stuck_after_lookup_failure
    : ¬ ∀ (tr next : Tracker) (env : TrackerEnv) (exit : Exit) (peers : List (Nat × Nat)),
        tr.status = .idle
        → tr.running = true
        → tr.messageAttempts ≤ 5
        → tr.run env = .ok (next, exit, peers)
        → next.Rested := by
  intro claim
  have rested := claim new.start { new with status := .connecting } lookupFailure .failure [] rfl
    rfl (by decide) (by decide)
  cases rested.status

end Tracker

end UvgTorrent
