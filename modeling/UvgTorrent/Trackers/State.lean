import UvgTorrent.Foundations.ByteStrings
import UvgTorrent.Foundations.FallibleRuns
import UvgTorrent.Foundations.MachineIntegers
import UvgTorrent.Outcomes

/-! `tracker.c`: the UDP conversation with a tracker. What the name lookup, the sockets and the
datagrams do is an argument, the cancel flag is never set, and memory is available.
-/

namespace UvgTorrent

open Foundations

/-- `enum TrackerStatus`. -/
inductive TrackerStatus where
  | idle
  | connecting
  | connected
  | announcing
  | scraping
  deriving DecidableEq, Repr

/-- `struct Tracker` without its address. `message_attempts` starts at 0 and is only counted up or
reset.
-/
structure Tracker where
  connectionId : Nat
  announceDeadline : Int
  scrapeDeadline : Int
  seeders : Nat
  leechers : Nat
  socket : Int
  status : TrackerStatus
  messageAttempts : Nat
  running : Bool
  deriving DecidableEq, Repr

/-- What happens in one turn of a request loop: the `write`, and the `net_utils.read` of 5 seconds.
-/
inductive TurnOutcome where
  | writeFails
  | readFails
  | silent
  | datagram (bytes : Bytes)
  deriving DecidableEq, Repr

/-- A request and what comes back: the random transaction id, and the outcome of each turn. -/
structure Exchange where
  transactionId : Nat
  turns : Nat → TurnOutcome

/-- An address that `getaddrinfo` returns: what `socket(2)` gives for it, and whether
`net_utils.connect` returns 0.
-/
structure AddressOutcome where
  descriptor : Int
  connects : Bool
  deriving DecidableEq, Repr

/-- What one `tracker_connect` meets; `addresses` is `none` when `getaddrinfo` fails. -/
structure Connection where
  addresses : Option (List AddressOutcome)
  exchange : Exchange

/-- What one `tracker_run` meets. The connections are those before an announce and before a scrape.
-/
structure TrackerEnv where
  announceClock : Int
  announceConnection : Connection
  announceExchange : Exchange
  answerClock : Int
  scrapeClock : Int
  scrapeConnection : Connection
  scrapeExchange : Exchange
  scrapedClock : Int

/-- The request loop from a turn on: the answer that leaves it, cut to the buffer. A datagram
without bytes counts as silence, and an answer of a wrong length as a failure.
-/
def Exchange.answer (exchange : Exchange) (bufferSize : Nat) (accepts : Nat → Bool)
    : Nat → Nat → Option Bytes
  | 0, _ => none
  | left + 1, turn =>
      match exchange.turns turn with
      | .writeFails => none
      | .readFails => none
      | .silent => exchange.answer bufferSize accepts left (turn + 1)
      | .datagram bytes =>
          let received := bytes.take bufferSize
          if received = [] then exchange.answer bufferSize accepts left (turn + 1)
          else if accepts received.length then some received
          else none

/-- A reply with this action to a request with this transaction id. -/
def replies (action transactionId : Nat) (reply : Bytes) : Bool :=
  ofBe32 (slice reply 0 4) = action ∧ ofBe32 (slice reply 4 4) = transactionId

/-- The address loop of `tracker_connect`: the socket of the first address that connects. -/
def connectAddresses : List AddressOutcome → Option Int
  | [] => none
  | address :: rest =>
      if address.descriptor = -1 then connectAddresses rest
      else if address.connects then some address.descriptor
      else connectAddresses rest

/-- The peer loop of `tracker_announce` over the bytes from `position` on. An entry that the
datagram cuts off ends in the zeros of the buffer, or behind its end.
-/
def announcedPeers (position : Nat) : Bytes → Except Fault (List (Nat × Nat))
  | [] => .ok []
  | a :: b :: c :: d :: e :: f :: rest =>
      if ofBe32 [a, b, c, d] = 0 then .ok []
      else
        (announcedPeers (position + 6) rest).bind fun peers =>
          .ok ((ofBe32 [a, b, c, d], ofBe32 [e, f]) :: peers)
  | last =>
      if 65507 < position + 6 then .error .messageBounds
      else
        let entry := last ++ List.replicate 6 0
        if ofBe32 (slice entry 0 4) = 0 then .ok []
        else .ok [(ofBe32 (slice entry 0 4), ofBe32 (slice entry 4 2))]

namespace Tracker

/-- `tracker_should_announce`. -/
def shouldAnnounce (tr : Tracker) (now : Int) : Bool :=
  tr.status = .idle ∧ tr.announceDeadline < now ∧ tr.messageAttempts < 5

/-- `tracker_should_scrape`. -/
def shouldScrape (tr : Tracker) (now : Int) : Bool :=
  tr.status = .idle ∧ tr.scrapeDeadline < now ∧ tr.messageAttempts < 5

/-- `tracker_should_run`. -/
def shouldRun (tr : Tracker) (announceClock scrapeClock : Int) : Bool :=
  (tr.shouldAnnounce announceClock ∨ tr.shouldScrape scrapeClock) ∧ tr.running = false

/-- `tracker_get_timeout`. -/
def getTimeout (tr : Tracker) : Nat := 60 * 2 ^ tr.messageAttempts

/-- `tracker_disconnect`. -/
def disconnect (tr : Tracker) : Tracker := if tr.socket ≠ 0 then { tr with socket := 0 } else tr

/-- `tracker_message_failed`. -/
def messageFailed (tr : Tracker) : Tracker :=
  { ({ tr with messageAttempts := tr.messageAttempts + 1 }.disconnect) with status := .idle }

/-- `tracker_message_succeded`. -/
def messageSucceded (tr : Tracker) : Tracker := { tr with messageAttempts := 0 }

/-- The answer to a request of the tracker; the timeout is a multiple of the 5 seconds of a turn. -/
def receive (tr : Tracker) (exchange : Exchange) (bufferSize : Nat) (accepts : Nat → Bool)
    : Option Bytes :=
  exchange.answer bufferSize accepts (tr.getTimeout / 5) 0

/-- `tracker_connect`. -/
def connect (tr : Tracker) (connection : Connection) : Tracker × Exit :=
  let tr := { tr with status := .connecting }
  match connection.addresses with
  | none => (tr.disconnect, .failure)
  | some addresses =>
      match connectAddresses addresses with
      | none => (tr.messageFailed, .failure)
      | some socket =>
          let tr := { tr with socket }
          match tr.receive connection.exchange 16 (· = 16) with
          | none => (tr.messageFailed, .failure)
          | some reply =>
              if replies 0 connection.exchange.transactionId reply then
                ({
                    tr.messageSucceded with
                    connectionId := ofBe32 (slice reply 8 8)
                    status := .connected
                  }, .success)
              else (tr.messageFailed, .failure)

/-- `tracker_announce`, with the peers that it pushes to the queue. -/
def announce (tr : Tracker) (exchange : Exchange) (now : Int)
    : Except Fault (Tracker × Exit × List (Nat × Nat)) :=
  if tr.status ≠ .connected then .ok (tr, .failure, [])
  else
    let tr := { tr with status := .announcing }
    match tr.receive exchange 65507 (20 ≤ ·) with
    | none => .ok (tr.messageFailed, .failure, [])
    | some reply =>
        if replies 1 exchange.transactionId reply then
          let interval := wrap32 (ofBe32 (slice reply 8 4))
          (announcedPeers 20 (reply.drop 20)).bind fun peers =>
            .ok
              ({
                  tr.messageSucceded with
                  announceDeadline := now + wrap32 (interval * 1000)
                  status := .idle
                }, .success, peers)
        else .ok (tr.messageFailed, .failure, [])

/-- `tracker_scrape`. A reply with another action or transaction id is passed over. -/
def scrape (tr : Tracker) (exchange : Exchange) (now : Int) : Tracker × Exit :=
  if tr.status ≠ .connected then (tr, .failure)
  else
    let tr := { tr with status := .scraping }
    match tr.receive exchange 65507 (8 ≤ ·) with
    | none => (tr.messageFailed, .failure)
    | some reply =>
        if replies 2 exchange.transactionId reply then
          let stats := reply ++ List.replicate 12 0
          ({
              tr.messageSucceded with
              scrapeDeadline := now + 15 * 60 * 1000
              seeders := ofBe32 (slice stats 8 4)
              leechers := ofBe32 (slice stats 16 4)
              status := .idle
            }, .success)
        else (tr, .success)

/-- The end of `tracker_run`. -/
def finish (tr : Tracker) : Tracker := { tr with running := false }

/-- The second half of `tracker_run`. -/
def runScrape (tr : Tracker) (env : TrackerEnv) : Tracker × Exit :=
  if tr.shouldScrape env.scrapeClock then
    match tr.connect env.scrapeConnection with
    | (tr, .success) =>
        ((tr.scrape env.scrapeExchange env.scrapedClock).1.disconnect.finish, .success)
    | (tr, .failure) => (tr.finish, .failure)
  else (tr.finish, .failure)

/-- `tracker_run`, with the peers that it pushes to the queue. -/
def run (tr : Tracker) (env : TrackerEnv) : Except Fault (Tracker × Exit × List (Nat × Nat)) :=
  if tr.shouldAnnounce env.announceClock then
    match tr.connect env.announceConnection with
    | (tr, .success) =>
        (tr.announce env.announceExchange env.answerClock).bind fun (tr, _, peers) =>
          .ok (tr.disconnect.finish, .success, peers)
    | (tr, .failure) =>
        let (tr, exit) := tr.runScrape env
        .ok (tr, exit, [])
  else
    let (tr, exit) := tr.runScrape env
    .ok (tr, exit, [])

end Tracker

end UvgTorrent
