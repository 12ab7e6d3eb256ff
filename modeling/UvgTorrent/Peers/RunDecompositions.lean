import UvgTorrent.Peers.Footprints
import UvgTorrent.Peers.JobScheduling
import UvgTorrent.Peers.MetadataRequests

/-! A whole `peer_run` as it is taken apart elsewhere: into the steps of a job, between which other
threads go on, and into the request and the handshake of an exchange of metadata.
-/

namespace UvgTorrent

open Foundations

-----------------------------------------------------------------------------------------
-- Steps that keep the flag, and steps that disconnect
-----------------------------------------------------------------------------------------

namespace Peer

variable {p next : Peer} {td torrentMetadata : TorrentData} {disk : Disk} {stack : Stack}
  {message : Message} {now : Int} {parts : List PeerPart} {exit : Exit} {beDecode : BeDecode}
  {infoHash : InfoHash} {metadataSize : Nat}

/-- A step of a job keeps `running`, or ends as a `peer_disconnect` of the peer. -/
def KeepsOrDisconnects (p next : Peer) (now : Int) : Prop :=
  next.running = p.running ∨ next = p.disconnect now

/-- The same, where the result of the step tells which. -/
def Ends (p next : Peer) (now : Int) : Exit → Prop
  | .success => next.running = p.running
  | .failure => next = p.disconnect now

theorem Within.running_eq (within : Within parts p next)
    (quiet : ∀ part ∈ parts, part ∉ [.drop, .running])
    : next.running = p.running := by
  refine Foundations.Within.same Peer.running (fun part member before after changed => ?_) within
  have other := quiet part member
  cases changed <;> first | rfl | simp at other

/-- A disconnect forgets all that is not kept for the next connection. -/
theorem Within.disconnect_eq (within : Within parts p next)
    (quiet : ∀ part ∈ parts, part ∉ [.progressQueue, .peerBitfield, .utMetadataRequested])
    : next.disconnect now = p.disconnect now := by
  refine Foundations.Within.same (fun p : Peer => p.disconnect now)
    (fun part member before after changed => ?_) within
  have other := quiet part member
  cases changed <;> first | rfl | simp at other

theorem runNetworkBuffers_ends {outcome : NetworkOutcome}
    (ran : p.runNetworkBuffers outcome now = .ok (next, exit))
    : p.Ends next now exit := by
  unfold runNetworkBuffers handleNetworkBuffers at ran
  split at ran
  · split at ran
    · cases ran
    · split at ran
      · cases ran
        rfl
      · obtain ⟨⟨socket, result⟩, _, ran⟩ := bind_eq_ok.mp ran
        dsimp only at ran
        split at ran
        · cases ran
          rfl
        · split at ran
          · cases ran
            rfl
          · cases ran
            rfl
          · split at ran
            · cases ran
              rfl
            · cases ran
              rfl
  · cases ran
    rfl

/-- A guarded step of the handshake, which only uses the connection. -/
theorem runStep_ends {guard : Bool} {step : Except Fault (Peer × Exit)}
    (steps
      : ∀ after exit,
          guard = true → step = .ok (after, exit) → Within [.buffers, .handshake] p after)
    (ran : p.runStep guard step now = .ok (next, exit))
    : p.Ends next now exit := by
  unfold runStep at ran
  split at ran
  · rename_i made
    obtain ⟨⟨after, stepExit⟩, stepped, ran⟩ := bind_eq_ok.mp ran
    have within := steps after stepExit made stepped
    cases stepExit with
    | success =>
        cases ran
        exact within.running_eq (by simp)
    | failure =>
        cases ran
        exact within.disconnect_eq (by simp)
  · cases ran
    rfl

/-- A part of `peer_read_message` behind a read: the parts before it have only used the connection.
-/
theorem KeepsOrDisconnects.after {middle : Peer} (first : Within [.reader, .buffers] p middle)
    (later : middle.KeepsOrDisconnects next now)
    : p.KeepsOrDisconnects next now := by
  rcases later with kept | disconnected
  · exact .inl (kept.trans (first.running_eq (by simp)))
  · exact .inr (disconnected.trans (first.disconnect_eq (by simp)))

theorem loadLength_keepsOrDisconnects (p : Peer) (now : Int)
    : p.KeepsOrDisconnects (p.loadLength now).2 now := by
  have reads := read_within p 4
  unfold loadLength
  split
  · exact .inl rfl
  · dsimp only
    split
    · exact .inl (reads.running_eq (by simp))
    · split
      · exact .inr (reads.disconnect_eq (by simp))
      · exact .inl (reads.running_eq (by simp))

theorem loadMsgId_keepsOrDisconnects (p : Peer) (now : Int)
    : p.KeepsOrDisconnects (p.loadMsgId now).2 now := by
  have reads := read_within p 1
  unfold loadMsgId
  split
  · exact .inl rfl
  · dsimp only
    split
    · exact .inl (reads.running_eq (by simp))
    · split
      · exact .inr (reads.disconnect_eq (by simp))
      · exact .inl (reads.running_eq (by simp))

theorem loadPayload_keepsOrDisconnects (p : Peer) (now : Int)
    : p.KeepsOrDisconnects (p.loadPayload now).1 now := by
  have reads := read_within p (4 + ofBe32 p.networkOrderedMsgLength - 5)
  unfold loadPayload
  split
  · exact .inr rfl
  · dsimp only
    split
    · exact .inl rfl
    · split
      · split
        · exact .inr (reads.disconnect_eq (by simp))
        · split
          · exact .inl (reads.running_eq (by simp))
          · exact .inl (reads.running_eq (by simp))
      · exact .inl rfl

theorem readMessage_keepsOrDisconnects (p : Peer) (now : Int)
    : p.KeepsOrDisconnects (p.readMessage now).1 now := by
  obtain ⟨_, lengthRead⟩ := loadLength_within p now
  have lengthStep := loadLength_keepsOrDisconnects p now
  unfold readMessage
  cases length : p.loadLength now with
  | mk goesOn middle =>
      rw [length] at lengthRead lengthStep
      cases goesOn with
      | false => exact lengthStep
      | true =>
          obtain ⟨_, idRead⟩ := loadMsgId_within middle now
          have idStep := loadMsgId_keepsOrDisconnects middle now
          refine KeepsOrDisconnects.after (lengthRead rfl) ?_
          dsimp only
          cases identified : middle.loadMsgId now with
          | mk goesOn last =>
              rw [identified] at idRead idStep
              cases goesOn with
              | false => exact idStep
              | true =>
                  have payloadStep := loadPayload_keepsOrDisconnects last now
                  exact KeepsOrDisconnects.after (idRead rfl) payloadStep

theorem handleMsgExtension_keepsOrDisconnects {reads : Nat → Nat → ReadOutcome} {steps : Nat}
    {queue : Option MainQueue}
    (handled
      : p.handleMsgExtension beDecode td disk message reads stack steps now = .ok (next, queue))
    : p.KeepsOrDisconnects next now := by
  unfold handleMsgExtension at handled
  split at handled
  · cases handled
  dsimp only at handled
  split at handled
  · cases handled
    unfold handleExtendedHandshake handleUtMetadataHandshake
    split
    · rename_i read
      refine .inl ?_
      split at read
      · cases read
      · split at read
        · cases read
        · cases read
          rfl
    · rename_i read
      refine .inr ?_
      split at read
      · cases read
        rfl
      · split at read
        · cases read
          rfl
        · cases read
  split at handled
  · split at handled
    · cases handled
      exact .inr rfl
    · split at handled
      · obtain ⟨_, answered, same⟩ := bind_eq_ok.mp handled
        cases same
        exact .inl ((handleUtMetadataRequest_within answered).running_eq (by simp))
      split at handled
      · cases handled
        exact .inl rfl
      split at handled
      · cases handled
        exact .inl rfl
      · cases handled
        exact .inl rfl
  · cases handled
    exact .inl rfl

/-- Only a message of the extension protocol can make its handler disconnect. -/
theorem handleMessage_keepsOrDisconnects {outcome : RunOutcome} {queue : Option MainQueue}
    (handled
      : p.handleMessage beDecode torrentMetadata td disk message outcome = .ok (next, queue))
    : p.KeepsOrDisconnects next outcome.now := by
  unfold handleMessage at handled
  split at handled
  case h_1 | h_2 | h_3 | h_4 =>
    cases handled
    exact .inl rfl
  case h_5 =>
    obtain ⟨_, answered, same⟩ := bind_eq_ok.mp handled
    cases same
    exact .inl ((handleMsgHave_within answered).running_eq (by simp))
  case h_6 =>
    obtain ⟨_, answered, same⟩ := bind_eq_ok.mp handled
    cases same
    exact .inl ((handleMsgBitfield_within answered).running_eq (by simp))
  case h_7 =>
    obtain ⟨⟨_, _⟩, answered, same⟩ := bind_eq_ok.mp handled
    cases same
    exact .inl ((handleMsgRequest_within answered).running_eq (by simp))
  case h_8 =>
    cases handled
    exact .inl rfl
  case h_9 => exact handleMsgExtension_keepsOrDisconnects handled
  case h_10 =>
    cases handled
    exact .inl rfl

end Peer

-----------------------------------------------------------------------------------------
-- The job of a worker
-----------------------------------------------------------------------------------------

/-- The event is a step of the worker. -/
def JobEvent.IsOf {Id : Type} (worker : Nat) : JobEvent Id → Prop
  | .pass other _ => other = worker
  | .disconnect other _ => other = worker
  | _ => False

namespace PeerJobs

variable {Id : Type} [DecidableEq Id] {s : PeerJobs Id} {worker : Nat} {job : PeerJob Id}
  {p next : Peer} {now : Int} {point : RunPoint}

/-- The job of a worker has gone on, to where it leaves its peer as given. -/
def withJob (s : PeerJobs Id) (worker : Nat) (job : PeerJob Id) (p : Peer) : PeerJobs Id :=
  {
    s with
    peers := Function.update s.peers job.peer p
    executing := s.executing.set worker job
  }

/-- Steps of the worker alone get its job there. -/
def Reaches (s : PeerJobs Id) (worker : Nat) (job : PeerJob Id) (p : Peer) : Prop :=
  worker < s.executing.length
  ∧ ∃ events : List (JobEvent Id),
      (∀ event ∈ events, event.IsOf worker) ∧ s.run events = s.withJob worker job p

theorem Reaches.start (found : s.executing[worker]? = some job)
    : s.Reaches worker job (s.peers job.peer) := by
  obtain ⟨inside, same⟩ := List.getElem?_eq_some_iff.mp found
  refine ⟨inside, [], nofun, ?_⟩
  rw [withJob, Function.update_eq_self, ← same, List.set_getElem_self]
  rfl

/-- A further step of the worker. -/
theorem Reaches.step {moved : PeerJob Id} (reached : s.Reaches worker job p)
    (event : JobEvent Id) (own : event.IsOf worker) (same : moved.peer = job.peer)
    (stepped
      : (s.withJob worker job p).step event = (s.withJob worker job p).withJob worker moved next)
    : s.Reaches worker moved next := by
  obtain ⟨inside, events, all, ran⟩ := reached
  refine ⟨inside, events ++ [event], ?_, ?_⟩
  · intro other member
    rcases List.mem_append.mp member with earlier | last
    · exact all other earlier
    · rw [List.mem_singleton.mp last]
      exact own
  · rw [run, List.foldl_append]
    show (s.run events).step event = _
    rw [ran, stepped, withJob, withJob, withJob, same, Function.update_idem, List.set_set]

theorem withJob_found (inside : worker < s.executing.length)
    : (s.withJob worker job p).executing[worker]? = some job := by
  rw [withJob, List.getElem?_set_self inside]

theorem withJob_peer : (s.withJob worker job p).peers job.peer = p :=
  Function.update_self ..

/-- A step that keeps `running`. -/
theorem Reaches.pass (reached : s.Reaches worker job p) (unfinished : job.point ≠ .leave)
    (kept : next.running = p.running)
    : s.Reaches worker { job with point := job.point.next } next := by
  have found := @withJob_found _ _ s worker job p reached.1
  let effect : PeerEffect := ⟨fun p => { next with running := p.running }, fun _ => rfl⟩
  refine reached.step (.pass worker effect) rfl rfl ?_
  simp only [PeerJobs.step, found, if_neg unfinished, updatePeer, withJob_peer, effect, ← kept]
  rfl

/-- A step that disconnects. -/
theorem Reaches.disconnect (reached : s.Reaches worker job p)
    (after : job.point.afterDisconnect = some point)
    : s.Reaches worker { job with point, disconnected := true } (p.disconnect now) := by
  have found := @withJob_found _ _ s worker job p reached.1
  refine reached.step (.disconnect worker now) rfl rfl ?_
  simp only [PeerJobs.step, found, after, updatePeer, withJob_peer]
  rfl

/-- The job of the peer gets to a point of `peer_run`, disconnected on its way or not. -/
def GetsTo (s : PeerJobs Id) (worker : Nat) (peer : Id) (point : RunPoint) (p : Peer) : Prop :=
  ∃ disconnected, s.Reaches worker { peer, point, disconnected } p

variable {peer : Id} {later : RunPoint} {exit : Exit} {infoHash : InfoHash} {metadataSize : Nat}
  {td torrentMetadata : TorrentData} {disk : Disk} {beDecode : BeDecode} {outcome : RunOutcome}

theorem GetsTo.pass (got : s.GetsTo worker peer point p) (unfinished : point ≠ .leave)
    (kept : next.running = p.running)
    : s.GetsTo worker peer point.next next := by
  obtain ⟨disconnected, reached⟩ := got
  exact ⟨disconnected, reached.pass unfinished kept⟩

theorem GetsTo.disconnect (got : s.GetsTo worker peer point p)
    (after : point.afterDisconnect = some later)
    : s.GetsTo worker peer later (p.disconnect now) := by
  obtain ⟨_, reached⟩ := got
  exact ⟨true, reached.disconnect after⟩

/-- A step whose result tells whether it disconnects, and ends the run then. -/
theorem GetsTo.ends (got : s.GetsTo worker peer point p) (unfinished : point ≠ .leave)
    (after : point.afterDisconnect = some .leave) (ended : p.Ends next now exit)
    : s.GetsTo worker peer (if exit = .success then point.next else .leave) next := by
  cases exit with
  | success => exact got.pass unfinished ended
  | failure =>
      obtain rfl : next = p.disconnect now := ended
      exact got.disconnect after

theorem GetsTo.runHandshake {outcome : ConnectionOutcome} (got : s.GetsTo worker peer .connect p)
    (ran : p.runHandshake infoHash metadataSize outcome = .ok (next, exit))
    : s.GetsTo worker peer (if exit = .success then .sendMessages else .leave) next := by
  have connected : s.GetsTo worker peer .firstNetwork
      (if p.shouldConnect outcome.now then p.connect outcome.descriptor else p) := by
    refine got.pass (by simp) ?_
    split <;> rfl
  unfold Peer.runHandshake at ran
  obtain ⟨⟨flushed, first⟩, flushing, ran⟩ := bind_eq_ok.mp ran
  have flushes := connected.ends (by simp) rfl (Peer.runNetworkBuffers_ends flushing)
  cases first with
  | failure =>
      cases ran
      exact flushes
  | success =>
      obtain ⟨⟨greeted, second⟩, greeting, ran⟩ := bind_eq_ok.mp ran
      have greets := flushes.ends (by simp [RunPoint.next]) rfl
        (Peer.runStep_ends (fun _ _ ready sent => Peer.sendHandshake_within ready sent) greeting)
      cases second with
      | failure =>
          cases ran
          exact greets
      | success =>
          exact greets.ends (by simp [RunPoint.next]) rfl
            (Peer.runStep_ends (fun _ _ ready handled => Peer.handleHandshake_within ready handled)
              ran)

/-- All that is sent behind the handshake keeps `running`. -/
theorem GetsTo.sendMessages {requests : TorrentData × TorrentData} {adverts : List Advert}
    {told asked : Peer} (got : s.GetsTo worker peer .sendMessages p)
    (telling : p.runAdverts td outcome.stack = .ok (told, adverts))
    (asking : told.runRequests torrentMetadata td outcome = .ok (asked, requests))
    (choking : asked.runChoking = .ok next)
    : s.GetsTo worker peer .readMessage next := by
  have tells := (Peer.runAdverts_within telling).running_eq (by simp)
  have asks := (Peer.runRequests_within asking).running_eq (by simp)
  have chokes := (Peer.runChoking_within choking).running_eq (by simp)
  exact got.pass (by simp) (chokes.trans (asks.trans tells))

/-- A message is read and handled. A disconnect goes on behind it. -/
theorem GetsTo.runMessage {queued : Option (MainQueue × Bytes)}
    (got : s.GetsTo worker peer .readMessage p)
    (ran : p.runMessage beDecode torrentMetadata td disk outcome = .ok (next, queued))
    : s.GetsTo worker peer .keepalive next := by
  unfold Peer.runMessage at ran
  split at ran
  · have reads := Peer.readMessage_keepsOrDisconnects p outcome.now
    obtain ⟨_, whole⟩ := Peer.readMessage_within p outcome.now
    split at ran
    · rename_i read
      rw [read] at reads
      cases ran
      rcases reads with kept | rfl
      · exact (got.pass (by simp) kept).pass (by simp [RunPoint.next]) rfl
      · exact got.disconnect rfl
    · rename_i reading bytes read
      rw [read] at whole
      split at ran
      · obtain ⟨⟨_, _⟩, handled, same⟩ := bind_eq_ok.mp ran
        cases same
        have handles := got.pass (by simp) ((whole rfl).running_eq (by simp))
        rcases Peer.handleMessage_keepsOrDisconnects handled with kept | rfl
        · exact handles.pass (by simp [RunPoint.next]) kept
        · exact handles.disconnect rfl
      · cases ran
  · cases ran
    exact (got.pass (by simp) rfl).pass (by simp [RunPoint.next]) rfl

theorem GetsTo.runSilence {lastUpdate : Int} (got : s.GetsTo worker peer .keepalive p)
    (ran : p.runSilence lastUpdate now = .ok next)
    : s.GetsTo worker peer .lastNetwork next := by
  obtain ⟨waiting, keeping, same⟩ := bind_eq_ok.mp ran
  have kept : waiting.running = p.running := by
    split at keeping
    · obtain ⟨⟨_, _⟩, sent, same⟩ := bind_eq_ok.mp keeping
      cases same
      obtain ⟨⟨_, _⟩, wrote, same⟩ := bind_eq_ok.mp sent
      cases same
      exact (Peer.write_within wrote).running_eq (by simp)
    · cases keeping
      rfl
  have waits := got.pass (by simp) kept
  obtain rfl := Except.ok.inj same
  split
  · exact waits.disconnect rfl
  · exact waits.pass (by simp [RunPoint.next]) rfl

/-- A `peer_run` gets its job to its last write, whatever it meets. -/
theorem GetsTo.run {result : RunResult} (got : s.GetsTo worker peer .connect p)
    (ran : p.run beDecode infoHash torrentMetadata td disk outcome = .ok result)
    : ∃ last, s.GetsTo worker peer .leave last ∧ result.peer = { last with running := false } := by
  unfold Peer.run at ran
  obtain ⟨⟨greeted, exit⟩, greeting, ran⟩ := bind_eq_ok.mp ran
  have greets := got.runHandshake greeting
  cases exit with
  | failure =>
      cases ran
      exact ⟨greeted, greets, rfl⟩
  | success =>
      obtain ⟨⟨told, adverts⟩, telling, ran⟩ := bind_eq_ok.mp ran
      obtain ⟨behind, messages, ran⟩ := bind_eq_ok.mp ran
      cases ran
      obtain ⟨⟨asked, requests⟩, asking, messages⟩ := bind_eq_ok.mp messages
      obtain ⟨choked, choking, messages⟩ := bind_eq_ok.mp messages
      obtain ⟨⟨read, queued⟩, reading, messages⟩ := bind_eq_ok.mp messages
      obtain ⟨waited, waiting, messages⟩ := bind_eq_ok.mp messages
      obtain ⟨⟨flushed, exit⟩, flushing, messages⟩ := bind_eq_ok.mp messages
      cases messages
      have sends := greets.sendMessages telling asking choking
      have waits := (sends.runMessage reading).runSilence waiting
      have flushes := waits.ends (by simp) rfl (Peer.runNetworkBuffers_ends flushing)
      refine ⟨flushed, ?_, rfl⟩
      cases exit <;> exact flushes

/-- A whole `peer_run` of a worker is a sequence of steps of this worker in the model of the jobs,
between which those of the main thread and of other workers can stand.
-/
theorem run_of_peerRun {result : RunResult}
    (found : s.executing[worker]? = some { peer, point := .connect, disconnected := false })
    (ran
      : (s.peers peer).run beDecode infoHash torrentMetadata td disk outcome = .ok result)
    : ∃ events : List (JobEvent Id),
        (∀ event ∈ events, event.IsOf worker)
        ∧ s.run events
          = {
              s with
              peers := Function.update s.peers peer result.peer
              executing := s.executing.eraseIdx worker
            } := by
  have begun : s.GetsTo worker peer .connect (s.peers peer) := ⟨false, Reaches.start found⟩
  obtain ⟨last, ⟨disconnected, inside, events, all, reached⟩, left⟩ := begun.run ran
  refine ⟨events ++ [.pass worker ⟨id, fun _ => rfl⟩], ?_, ?_⟩
  · intro event member
    rcases List.mem_append.mp member with earlier | last
    · exact all event earlier
    · rw [List.mem_singleton.mp last]
      rfl
  · have found := @withJob_found _ _ s worker ⟨peer, .leave, disconnected⟩ last inside
    have erased
        : (s.executing.set worker ⟨peer, .leave, disconnected⟩).eraseIdx worker
          = s.executing.eraseIdx worker := by
      rw [List.eraseIdx_set_eq]
    rw [PeerJobs.run] at reached
    rw [PeerJobs.run, List.foldl_append, List.foldl_cons, List.foldl_nil, reached, left]
    simp only [PeerJobs.step, found, if_true]
    simp only [updatePeer, withJob, Function.update_self, Function.update_idem, erased]

end PeerJobs

-----------------------------------------------------------------------------------------
-- The exchange of metadata
-----------------------------------------------------------------------------------------

namespace Peer

variable {p next : Peer} {parts : List PeerPart}

/-- The announced size is kept or cleared. -/
def KeepsSize (p next : Peer) : Prop :=
  next.utMetadataSize = p.utMetadataSize ∨ next.utMetadataSize = 0

theorem KeepsSize.trans {middle : Peer} (first : p.KeepsSize middle)
    (later : middle.KeepsSize next)
    : p.KeepsSize next := by
  rcases later with kept | cleared
  · rcases first with before | before
    · exact .inl (kept.trans before)
    · exact .inr (kept.trans before)
  · exact .inr cleared

/-- Only an extended handshake announces a size. -/
theorem Within.keepsSize (within : Within parts p next) (quiet : .utMetadata ∉ parts)
    : p.KeepsSize next := by
  refine Foundations.Within.keeps (fun part member before after changed reached => ?_) within
    (KeepsSize.trans (.inl rfl) (.inl rfl))
  refine reached.trans ?_
  cases changed with
  | utMetadata => exact absurd member quiet
  | drop => exact .inr rfl
  | _ => exact .inl rfl

theorem Within.size_eq (within : Within parts p next)
    (quiet : ∀ part ∈ parts, part ∉ [.utMetadata, .drop])
    : next.utMetadataSize = p.utMetadataSize := by
  refine Foundations.Within.same Peer.utMetadataSize
    (fun part member before after changed => ?_) within
  have other := quiet part member
  cases changed <;> first | rfl | simp at other

/-- What an extended handshake makes of the size does not depend on the peer. -/
theorem handleExtendedHandshake_sameSize (p next : Peer) (decoded : Option BeNode) (now : Int)
    : (p.handleExtendedHandshake decoded now).utMetadataSize
      = (next.handleExtendedHandshake decoded now).utMetadataSize := by
  unfold handleExtendedHandshake handleUtMetadataHandshake
  cases decoded with
  | none => rfl
  | some d =>
      dsimp only
      cases d.dictLookup (ascii "m") <;> rfl

theorem handleMsgExtension_size {beDecode : BeDecode} {torrentMetadata : TorrentData} {disk : Disk}
    {message : Message} {reads : Nat → Nat → ReadOutcome} {stack : Stack} {steps : Nat} {now : Int}
    {queue : Option MainQueue}
    (handled
      : p.handleMsgExtension beDecode torrentMetadata disk message reads stack steps now
        = .ok (next, queue))
    : p.KeepsSize next ∨ ∃ decoded, next = p.handleExtendedHandshake decoded now := by
  unfold handleMsgExtension at handled
  split at handled
  · cases handled
  dsimp only at handled
  split at handled
  · cases handled
    exact .inr ⟨_, rfl⟩
  refine .inl ?_
  split at handled
  · split at handled
    · cases handled
      exact .inr rfl
    · split at handled
      · obtain ⟨_, answered, same⟩ := bind_eq_ok.mp handled
        cases same
        exact (handleUtMetadataRequest_within answered).keepsSize (by simp)
      split at handled
      · cases handled
        exact .inl rfl
      split at handled
      · cases handled
        exact .inl rfl
      · cases handled
        exact .inl rfl
  · cases handled
    exact .inl rfl

/-- A message is an extended handshake, or keeps the size or clears it. -/
theorem handleMessage_size {beDecode : BeDecode} {torrentMetadata td : TorrentData} {disk : Disk}
    {message : Message} {outcome : RunOutcome} {queue : Option MainQueue}
    (handled
      : p.handleMessage beDecode torrentMetadata td disk message outcome = .ok (next, queue))
    : p.KeepsSize next ∨ ∃ decoded, next = p.handleExtendedHandshake decoded outcome.now := by
  unfold handleMessage at handled
  split at handled
  case h_1 | h_2 | h_3 | h_4 =>
    cases handled
    exact .inl (.inl rfl)
  case h_5 =>
    obtain ⟨_, answered, same⟩ := bind_eq_ok.mp handled
    cases same
    exact .inl ((handleMsgHave_within answered).keepsSize (by simp))
  case h_6 =>
    obtain ⟨_, answered, same⟩ := bind_eq_ok.mp handled
    cases same
    exact .inl ((handleMsgBitfield_within answered).keepsSize (by simp))
  case h_7 =>
    obtain ⟨⟨_, _⟩, answered, same⟩ := bind_eq_ok.mp handled
    cases same
    exact .inl ((handleMsgRequest_within answered).keepsSize (by simp))
  case h_8 =>
    cases handled
    exact .inl (.inl rfl)
  case h_9 => exact handleMsgExtension_size handled
  case h_10 =>
    cases handled
    exact .inl (.inl rfl)

theorem runMessage_size {beDecode : BeDecode} {torrentMetadata td : TorrentData} {disk : Disk}
    {outcome : RunOutcome} {queued : Option (MainQueue × Bytes)}
    (ran : p.runMessage beDecode torrentMetadata td disk outcome = .ok (next, queued))
    : p.KeepsSize next
      ∨ ∃ decoded,
          next.utMetadataSize = (p.handleExtendedHandshake decoded outcome.now).utMetadataSize := by
  unfold runMessage at ran
  split at ran
  · obtain ⟨partly, whole⟩ := readMessage_within p outcome.now
    split at ran
    · rename_i read
      rw [read] at partly
      cases ran
      exact .inl (partly.keepsSize (by simp))
    · rename_i reading bytes read
      rw [read] at whole
      have same := (whole rfl).size_eq (by simp)
      split at ran
      · obtain ⟨⟨_, _⟩, handled, returned⟩ := bind_eq_ok.mp ran
        cases returned
        rcases handleMessage_size handled with kept | ⟨decoded, rfl⟩
        · exact .inl (KeepsSize.trans (.inl same) kept)
        · exact .inr ⟨decoded, handleExtendedHandshake_sameSize ..⟩
      · cases ran
  · cases ran
    exact .inl (.inl rfl)

/-- The connection and the handshake of a run, whether they fail or not. -/
theorem runHandshake_keepsSize {infoHash : InfoHash} {metadataSize : Nat}
    {outcome : ConnectionOutcome} {exit : Exit}
    (ran : p.runHandshake infoHash metadataSize outcome = .ok (next, exit))
    : p.KeepsSize next := by
  have connects
      : p.KeepsSize (if p.shouldConnect outcome.now then p.connect outcome.descriptor else p) := by
    split
    · exact .inl rfl
    · exact .inl rfl
  exact connects.trans ((runHandshake_within ran).1.keepsSize (by simp))

end Peer

namespace MetadataExchange

variable {Id : Type} [DecidableEq Id] {s : MetadataExchange Id} {torrentMetadata td : TorrentData}
  {peers : Id → Peer} {peer : Id} {beDecode : BeDecode} {infoHash : InfoHash} {disk : Disk}
  {outcome : RunOutcome} {result : RunResult}

/-- Any state of a peer with its size kept or cleared is what a connection can make of it. -/
theorem exists_connectionEffect {p next : Peer} (kept : p.KeepsSize next)
    : ∃ effect : ConnectionEffect, effect.apply p = next := by
  rcases kept with same | cleared
  · refine ⟨⟨fun q => { next with utMetadataSize := q.utMetadataSize }, fun _ => .inl rfl⟩, ?_⟩
    simp only [← same]
  · exact ⟨⟨fun _ => next, fun _ => .inr cleared⟩, rfl⟩

/-- The exchange has the metadata of the program, and its peers up to what connections change. -/
structure Shows (s : MetadataExchange Id) (torrentMetadata : TorrentData) (peers : Id → Peer)
    : Prop where
  metadata : s.torrentMetadata = torrentMetadata
  sizes : ∀ peer, (s.peers peer).KeepsSize (peers peer)

theorem Shows.update {next : MetadataExchange Id} {p shown : Peer} (shows : s.Shows td peers)
    (metadata : next.torrentMetadata = torrentMetadata)
    (others : next.peers = Function.update s.peers peer shown) (kept : shown.KeepsSize p)
    : next.Shows torrentMetadata (Function.update peers peer p) := by
  refine ⟨metadata, fun other => ?_⟩
  rw [others, Function.update_apply, Function.update_apply]
  split
  · exact kept
  · exact shows.sizes other

/-- A whole `peer_run` of a peer is a step of the exchange, or fails before it comes to the
metadata. What it does besides only keeps the announced size or clears it.
-/
theorem Shows.run (shows : s.Shows torrentMetadata peers)
    (ran : (peers peer).run beDecode infoHash torrentMetadata td disk outcome = .ok result)
    : ∃ runs next,
        runSteps step s runs = .ok next
          ∧ next.Shows result.torrentMetadata (Function.update peers peer result.peer) := by
  unfold Peer.run at ran
  obtain ⟨⟨greeted, exit⟩, greeting, ran⟩ := bind_eq_ok.mp ran
  have greets := (shows.sizes peer).trans (Peer.runHandshake_keepsSize greeting)
  cases exit with
  | failure =>
      cases ran
      refine ⟨[], s, rfl, shows.update shows.metadata (Function.update_eq_self ..).symm ?_⟩
      exact greets.trans (.inl rfl)
  | success =>
      obtain ⟨⟨told, adverts⟩, telling, ran⟩ := bind_eq_ok.mp ran
      obtain ⟨behind, messages, ran⟩ := bind_eq_ok.mp ran
      cases ran
      obtain ⟨⟨asked, metadata, data⟩, asking, messages⟩ := bind_eq_ok.mp messages
      obtain ⟨choked, choking, messages⟩ := bind_eq_ok.mp messages
      obtain ⟨⟨read, queued⟩, reading, messages⟩ := bind_eq_ok.mp messages
      obtain ⟨waited, waiting, messages⟩ := bind_eq_ok.mp messages
      obtain ⟨⟨flushed, exit⟩, flushing, messages⟩ := bind_eq_ok.mp messages
      cases messages
      have tells := greets.trans ((Peer.runAdverts_within telling).keepsSize (by simp))
      obtain ⟨connection, connected⟩ := exists_connectionEffect tells
      obtain ⟨⟨requesting, requested⟩, request, asking⟩ := bind_eq_ok.mp asking
      have asks
          : asked.utMetadataSize = requesting.utMetadataSize ∧ metadata = requested := by
        dsimp only at asking
        split at asking
        · obtain ⟨⟨_, _, _⟩, sent, same⟩ := bind_eq_ok.mp asking
          cases same
          exact ⟨(Peer.sendMsgRequest_within sent).size_eq (by simp), rfl⟩
        · cases asking
          exact ⟨rfl, rfl⟩
      have chokes := (Peer.runChoking_within choking).size_eq (by simp)
      have stepped (handshake : Option (Option BeNode))
          : s.step
                {
                  peer
                  connection
                  handshake
                  clock := outcome.metadataClock
                  now := outcome.now
                }
            = .ok
                {
                  torrentMetadata := requested
                  peers :=
                    Function.update s.peers peer
                      (handshake.elim requesting
                        (requesting.handleExtendedHandshake · outcome.now))
                } := by
        rw [step, connected, shows.metadata]
        cases handshake <;> exact bind_of_ok request _
      -- behind the message, only a disconnect changes the size
      have ends : read.KeepsSize { flushed with running := false } :=
        ((Peer.runSilence_within waiting).keepsSize (by simp)).trans
          ((Peer.runNetworkBuffers_within flushing).1.keepsSize (by simp))
      rcases Peer.runMessage_size reading with kept | ⟨decoded, announced⟩
      · refine ⟨[_], _, runSteps_cons_eq_ok.mpr ⟨_, stepped none, rfl⟩, ?_⟩
        refine shows.update asks.2.symm rfl (Peer.KeepsSize.trans (.inl ?_) (kept.trans ends))
        exact chokes.trans asks.1
      · refine ⟨[_], _, runSteps_cons_eq_ok.mpr ⟨_, stepped (some decoded), rfl⟩, ?_⟩
        refine shows.update asks.2.symm rfl (Peer.KeepsSize.trans (.inl ?_) ends)
        exact announced.trans (Peer.handleExtendedHandshake_sameSize ..)

end MetadataExchange

end UvgTorrent
