import UvgTorrent.Trackers.State

/-! The peer loop of `tracker_announce` over its whole buffer: which records it converts, and when
the peers that it pushes are those of the records in the answer.
-/

namespace UvgTorrent

open Foundations

/-- The buffer of `tracker_announce` after the answer is read into it. -/
def rawResponse (reply : Bytes) : Bytes := reply ++ List.replicate (65507 - reply.length) 0

/-- The ip and the port of the record at a position. -/
def recordAt (raw : Bytes) (position : Nat) : Nat × Nat :=
  (ofBe32 (slice raw position 4), ofBe32 (slice raw (position + 4) 2))

/-- What the peer loop does: the peers that it pushes, and the positions of the records whose bytes
it converts.
-/
structure PeerScan where
  pushed : List (Nat × Nat)
  converted : List Nat
  deriving DecidableEq

/-- The peer loop of `tracker_announce` from a position on. -/
def peerLoop (raw : Bytes) (responseLength : Nat) : Nat → Nat → Except Fault PeerScan
  | 0, _ => .error .endlessLoop
  | steps + 1, position =>
      if position < responseLength then
        if raw.length < position + 6 then .error .messageBounds
        else if (recordAt raw position).1 = 0 then .ok { pushed := [], converted := [position] }
        else
          (peerLoop raw responseLength steps (position + 6)).bind fun later =>
            .ok
              {
                pushed := recordAt raw position :: later.pushed
                converted := position :: later.converted
              }
      else .ok { pushed := [], converted := [] }

/-- The peer loop over an answer, which is behind the 20 bytes of the header. -/
def scanPeers (reply : Bytes) : Except Fault PeerScan :=
  peerLoop (rawResponse reply) reply.length (reply.length + 1) 20

/-- The complete records of an answer from a position on. -/
def recordsFrom (reply : Bytes) (position : Nat) : List (Nat × Nat) :=
  (List.range ((reply.length - position) / 6)).map fun record =>
    recordAt reply (position + 6 * record)

/-- The peers that an answer names: its complete records up to the first with ip 0. -/
def namedPeers (reply : Bytes) : List (Nat × Nat) :=
  (recordsFrom reply 20).takeWhile fun record => record.1 ≠ 0

/-- From a position on, the answer is whole records, or has a record with ip 0 before the bytes that
are left over.
-/
def EndsOnRecord (reply : Bytes) (position : Nat) : Prop :=
  6 ∣ reply.length - position ∨ ∃ record ∈ recordsFrom reply position, record.1 = 0

instance (reply : Bytes) (position : Nat) : Decidable (EndsOnRecord reply position) :=
  inferInstanceAs (Decidable (_ ∨ _))

variable {reply : Bytes} {position steps : Nat}

theorem rawResponse_length (fits : reply.length ≤ 65507)
    : (rawResponse reply).length = 65507 := by
  simp [rawResponse]
  omega

/-- A record is what its six bytes are. -/
theorem recordAt_congr {raw other : Bytes} {start : Nat}
    (same : slice raw position 6 = slice other start 6)
    : recordAt raw position = recordAt other start := by
  rw [recordAt, recordAt, ← slice_slice (show 4 + 2 ≤ 6 by omega), same,
    slice_slice (show 4 + 2 ≤ 6 by omega)]
  have ip := @slice_slice raw position 6 0 4 (by omega)
  have otherIp := @slice_slice other start 6 0 4 (by omega)
  rw [Nat.add_zero] at ip otherIp
  rw [← ip, same, otherIp]

/-- A complete record is the same in the buffer and in the answer. -/
theorem recordAt_rawResponse (complete : position + 6 ≤ reply.length)
    : recordAt (rawResponse reply) position = recordAt reply position := by
  apply recordAt_congr
  rw [rawResponse, slice, slice, List.drop_append_of_le_length (by omega),
    List.take_append_of_le_length (by simp; omega)]

/-- A record that is cut off ends in zeros, as long as the buffer has room for it. -/
theorem recordAt_rawResponse_cut (more : position < reply.length) (room : position + 6 ≤ 65507)
    : recordAt (rawResponse reply) position
      = recordAt (reply.drop position ++ List.replicate 6 0) 0 := by
  apply recordAt_congr
  rw [rawResponse, slice, slice, List.drop_append_of_le_length (by omega), List.drop_zero,
    List.take_append, List.take_append, List.take_replicate, List.take_replicate,
    List.length_drop]
  congr 2
  omega

/-- The first complete record, and those behind it. -/
theorem recordsFrom_cons (complete : position + 6 ≤ reply.length)
    : recordsFrom reply position = recordAt reply position :: recordsFrom reply (position + 6) := by
  have count : (reply.length - position) / 6 = (reply.length - (position + 6)) / 6 + 1 := by omega
  rw [recordsFrom, count, List.range_succ_eq_map, List.map_cons, List.map_map, recordsFrom]
  congr 1
  apply List.map_congr_left
  intro record _
  rw [Function.comp_apply, show position + 6 * (record + 1) = position + 6 + 6 * record by omega]

theorem recordsFrom_nil (cut : reply.length < position + 6) : recordsFrom reply position = [] := by
  rw [recordsFrom, Nat.div_eq_of_lt (by omega)]
  rfl

theorem endsOnRecord_of_complete (complete : position + 6 ≤ reply.length)
    : EndsOnRecord reply position
      ↔ (recordAt reply position).1 = 0 ∨ EndsOnRecord reply (position + 6) := by
  have divides : 6 ∣ reply.length - position ↔ 6 ∣ reply.length - (position + 6) := by omega
  simp only [EndsOnRecord, recordsFrom_cons complete, divides, List.mem_cons, exists_eq_or_imp]
  exact or_left_comm

theorem not_endsOnRecord_of_cut (more : position < reply.length)
    (cut : reply.length < position + 6)
    : ¬ EndsOnRecord reply position := by
  rw [EndsOnRecord, recordsFrom_nil cut]
  rintro (divides | ⟨record, member, -⟩)
  · omega
  · cases member

/-- The loop pushes what the complete records name and converts nothing behind the answer, exactly
when it comes to no record that is cut off. Induction on the turns left.
-/
theorem peerLoop_names_iff (fits : reply.length ≤ 65507) (inside : position ≤ reply.length)
    (enough : reply.length - position < steps)
    : (∃ scan,
          peerLoop (rawResponse reply) reply.length steps position = .ok scan
          ∧ scan.pushed = (recordsFrom reply position).takeWhile (fun record => record.1 ≠ 0)
          ∧ ∀ converted ∈ scan.converted, converted + 6 ≤ reply.length)
      ↔ EndsOnRecord reply position := by
  induction steps generalizing position with
  | zero => omega
  | succ steps ih =>
      rw [peerLoop]
      by_cases more : position < reply.length
      · rw [if_pos more, rawResponse_length fits]
        by_cases complete : position + 6 ≤ reply.length
        · have later := ih complete (by omega)
          rw [if_neg (by omega), recordAt_rawResponse complete, recordsFrom_cons complete,
            endsOnRecord_of_complete complete]
          by_cases stops : (recordAt reply position).1 = 0
          · simp [stops, complete]
          · rw [if_neg stops, List.takeWhile_cons_of_pos (by simpa using stops),
              or_iff_right stops, ← later]
            constructor
            · rintro ⟨scan, looped, pushed, kept⟩
              obtain ⟨rest, later, same⟩ := bind_eq_ok.mp looped
              cases same
              exact ⟨rest, later, (List.cons.inj pushed).2,
                fun converted member => kept converted (List.mem_cons_of_mem _ member)⟩
            · rintro ⟨rest, looped, pushed, kept⟩
              refine ⟨_, bind_of_ok looped _, by rw [pushed], ?_⟩
              intro converted member
              rcases List.mem_cons.mp member with rfl | member
              · exact complete
              · exact kept converted member
        · -- the record at this position is cut off, and the loop converts it whole
          refine iff_of_false ?_ (not_endsOnRecord_of_cut more (by omega))
          rintro ⟨scan, looped, -, kept⟩
          split at looped
          · cases looped
          · split at looped
            · cases looped
              exact complete (kept position (by simp))
            · obtain ⟨rest, -, same⟩ := bind_eq_ok.mp looped
              cases same
              exact complete (kept position (by simp))
      · obtain rfl : position = reply.length := by omega
        rw [if_neg more, EndsOnRecord, recordsFrom_nil (by omega)]
        simp

/-- The announced peers behind a complete record. -/
theorem announcedPeers_complete {bytes : Bytes} (long : 6 ≤ bytes.length)
    : announcedPeers position bytes
      = if (recordAt bytes 0).1 = 0 then .ok []
        else
          (announcedPeers (position + 6) (bytes.drop 6)).bind fun peers =>
            .ok (recordAt bytes 0 :: peers) := by
  match bytes, long with
  | a :: b :: c :: d :: e :: f :: rest, _ => rfl

/-- The announced peer of a record that is cut off. -/
theorem announcedPeers_cut {last : Bytes} (some : last ≠ []) (short : last.length < 6)
    : announcedPeers position last
      = if 65507 < position + 6 then .error .messageBounds
        else if (recordAt (last ++ List.replicate 6 0) 0).1 = 0 then .ok []
        else .ok [recordAt (last ++ List.replicate 6 0) 0] := by
  match last, some, short with
  | [_], _, _ => rfl
  | [_, _], _, _ => rfl
  | [_, _, _], _, _ => rfl
  | [_, _, _, _], _, _ => rfl
  | [_, _, _, _, _], _, _ => rfl

/-- The loop over the buffer pushes the announced peers. Induction on the turns left. -/
theorem peerLoop_pushed (fits : reply.length ≤ 65507) (inside : position ≤ reply.length)
    (enough : reply.length - position < steps)
    : (peerLoop (rawResponse reply) reply.length steps position).map PeerScan.pushed
      = announcedPeers position (reply.drop position) := by
  induction steps generalizing position with
  | zero => omega
  | succ steps ih =>
      rw [peerLoop]
      by_cases more : position < reply.length
      · rw [if_pos more, rawResponse_length fits]
        by_cases complete : position + 6 ≤ reply.length
        · have later := ih complete (by omega)
          have here : recordAt (reply.drop position) 0 = recordAt reply position := by
            apply recordAt_congr
            rw [slice, slice, List.drop_zero]
          rw [announcedPeers_complete (by simp; omega), List.drop_drop, ← later, here,
            if_neg (by omega), recordAt_rawResponse complete]
          split
          · rfl
          · cases peerLoop (rawResponse reply) reply.length steps (position + 6) <;> rfl
        · rw [announcedPeers_cut (by simp; omega) (by simp; omega)]
          by_cases room : 65507 < position + 6
          · rw [if_pos room, if_pos room]
            rfl
          · rw [if_neg room, if_neg room, recordAt_rawResponse_cut more (by omega)]
            split
            · rfl
            · -- no turn is left behind the last bytes
              obtain ⟨left, rfl⟩ : ∃ left, steps = left + 1 := ⟨steps - 1, by omega⟩
              rw [peerLoop, if_neg (by omega)]
              rfl
      · obtain rfl : position = reply.length := by omega
        rw [if_neg more, List.drop_length]
        rfl

namespace Tracker

variable {tr : Tracker} {exchange : Exchange} {now : Int}

/-- The announce pushes the peers that the answer names, and interprets no byte behind it. -/
structure YieldsPeers (tr : Tracker) (exchange : Exchange) (now : Int) (reply : Bytes) : Prop where
  pushed : ∃ next, tr.announce exchange now = .ok (next, .success, namedPeers reply)
  inside
    : ∃ scan, scanPeers reply = .ok scan
        ∧ ∀ position ∈ scan.converted, position + 6 ≤ reply.length

/-- An accepted answer goes through the peer loop. -/
theorem announce_eq (connected : tr.status = .connected)
    (received
      : { tr with status := .announcing }.receive exchange 65507 (20 ≤ ·) = some reply)
    (answers : replies 1 exchange.transactionId reply = true) (fits : reply.length ≤ 65507)
    (long : 20 ≤ reply.length)
    : tr.announce exchange now
      = (scanPeers reply).bind fun scan =>
          .ok
            ({
                { tr with status := .announcing }.messageSucceded with
                announceDeadline := now + wrap32 (wrap32 (ofBe32 (slice reply 8 4)) * 1000)
                status := .idle
              }, .success, scan.pushed) := by
  have pushed := @peerLoop_pushed reply 20 (reply.length + 1) fits long (by omega)
  rw [announce, if_neg (by simp [connected])]
  dsimp only
  rw [received]
  dsimp only
  rw [if_pos answers, ← pushed, scanPeers]
  cases peerLoop (rawResponse reply) reply.length (reply.length + 1) 20 <;> rfl

/-- Of an answer with action 1 and the transaction id, an announce pushes exactly the peers that it
names and interprets no byte behind it, if and only if the answer is whole records or has a record
with ip 0 before the bytes that are left over.
-/
theorem announce_yields_iff (connected : tr.status = .connected)
    (received
      : { tr with status := .announcing }.receive exchange 65507 (20 ≤ ·) = some reply)
    (answers : replies 1 exchange.transactionId reply = true) (fits : reply.length ≤ 65507)
    (long : 20 ≤ reply.length) (now : Int)
    : tr.YieldsPeers exchange now reply ↔ EndsOnRecord reply 20 := by
  rw [← peerLoop_names_iff fits long (show reply.length - 20 < reply.length + 1 by omega)]
  have announced := @announce_eq reply tr exchange now connected received answers fits long
  constructor
  · rintro ⟨⟨next, pushed⟩, scan, scanned, inside⟩
    rw [announced, bind_of_ok scanned] at pushed
    injection pushed with pushed
    exact ⟨scan, scanned, congrArg (·.2.2) pushed, inside⟩
  · rintro ⟨scan, scanned, pushed, inside⟩
    have result := announced
    rw [scanPeers, bind_of_ok scanned, pushed] at result
    exact ⟨⟨_, result⟩, scan, scanned, inside⟩

/-- A tracker that has answered the connection. -/
def connectedTracker : Tracker :=
  {
    connectionId := 1
    announceDeadline := 0
    scrapeDeadline := 0
    seeders := 0
    leechers := 0
    socket := 3
    status := .connected
    messageAttempts := 0
    running := true
  }

/-- An exchange in which the first datagram is the answer. -/
def answeredWith (reply : Bytes) : Exchange :=
  { transactionId := 420, turns := fun _ => .datagram reply }

/-- An answer that names one peer, 0.0.255.255 at port 1000. -/
def onePeerReply : Bytes :=
  be32 1 ++ be32 420 ++ be32 2000 ++ be32 10 ++ be32 20 ++ be32 0xFFFF ++ [0x03, 0xE8]

theorem announce_yields_iff_onePeer
    : connectedTracker.YieldsPeers (answeredWith onePeerReply) 0 onePeerReply
      ∧ namedPeers onePeerReply = [(0xFFFF, 1000)] := by
  refine ⟨?_, by decide +kernel⟩
  exact (@announce_yields_iff onePeerReply connectedTracker (answeredWith onePeerReply) rfl
    (by decide +kernel) (by decide +kernel) (by decide +kernel) (by decide +kernel) 0).mpr
      (by decide +kernel)

/-- With one more byte, an answer that names the same peer makes the announce push another one. -/
theorem cut_record_pushed
    : namedPeers (onePeerReply ++ [10]) = [(0xFFFF, 1000)]
      ∧ scanPeers (onePeerReply ++ [10])
        = .ok { pushed := [(0xFFFF, 1000), (10 * 2 ^ 24, 0)], converted := [20, 26] }
      ∧ ¬ connectedTracker.YieldsPeers (answeredWith (onePeerReply ++ [10])) 0
          (onePeerReply ++ [10]) := by
  have scanned : scanPeers (onePeerReply ++ [10])
      = .ok { pushed := [(0xFFFF, 1000), (10 * 2 ^ 24, 0)], converted := [20, 26] } := by
    decide +kernel
  refine ⟨by decide +kernel, scanned, ?_⟩
  rintro ⟨-, scan, same, inside⟩
  rw [scanned] at same
  cases same
  have cut := inside 26 (by decide)
  revert cut
  decide

end Tracker

end UvgTorrent
