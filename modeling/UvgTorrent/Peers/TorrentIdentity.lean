import UvgTorrent.Peers.Traffic

/-! The torrent that a peer has shaken hands for, over the runs of `peer_run`.
Of the 20 bytes of the two info hashes `peer_handle_handshake` compares the first 8.
-/

namespace UvgTorrent

open Foundations

/-- The info hash that a handshake carries. -/
def handshakeInfoHash (handshake : Bytes) : Bytes := slice handshake 28 20

/-- The first 8 bytes of the info hash tell whether it is ours. -/
def Recognisable (infoHash : InfoHash) (handshake : Bytes) : Prop :=
  slice handshake 28 8 = infoHash.bytes.take 8 → handshakeInfoHash handshake = infoHash.bytes

instance (infoHash : InfoHash) (handshake : Bytes) : Decidable (Recognisable infoHash handshake) :=
  inferInstanceAs (Decidable (_ → _))

namespace Peer

variable {p next : Peer} {infoHash : InfoHash} {outcome : ConnectionOutcome} {exit : Exit}
  {metadataSize : Nat} {handshake : Bytes}

/-- `peer_run` until it looks for the handshake. -/
def runGreeting (p : Peer) (infoHash : InfoHash) (outcome : ConnectionOutcome)
    : Except Fault (Peer × Exit) :=
  let p := if p.shouldConnect outcome.now then p.connect outcome.descriptor else p
  (p.runNetworkBuffers outcome.network outcome.now).bind fun
    | (p, .failure) => .ok (p, .failure)
    | (p, .success) =>
        p.runStep (p.shouldSendHandshake outcome.canWrite) (p.sendHandshake infoHash) outcome.now

/-- The 68 bytes that `peer_handle_handshake` consumes in a run. -/
def handshakeRead (p : Peer) (infoHash : InfoHash) (outcome : ConnectionOutcome) : Option Bytes :=
  match p.runGreeting infoHash outcome with
  | .ok (p, .success) =>
      if p.shouldHandleHandshake ∧ (p.read 68).2.1 = 68 then some (p.read 68).2.2 else none
  | _ => none

theorem runHandshake_eq_greeting (p : Peer) (infoHash : InfoHash) (metadataSize : Nat)
    (outcome : ConnectionOutcome)
    : p.runHandshake infoHash metadataSize outcome
      = (p.runGreeting infoHash outcome).bind fun
          | (p, .failure) => .ok (p, .failure)
          | (p, .success) =>
              p.runStep p.shouldHandleHandshake (p.handleHandshake infoHash metadataSize)
                outcome.now := by
  rw [runHandshake, runGreeting]
  cases (if p.shouldConnect outcome.now then p.connect outcome.descriptor else p).runNetworkBuffers
    outcome.network outcome.now with
  | error fault => rfl
  | ok flushed =>
      obtain ⟨flushed, exit⟩ := flushed
      cases exit <;> rfl

/-- No handshake is complete before the run looks for it, other than one that was. -/
theorem runGreeting_complete (ran : p.runGreeting infoHash outcome = .ok (next, exit))
    (complete : next.status = .handshakeComplete)
    : p.status = .handshakeComplete := by
  obtain ⟨⟨flushed, first⟩, flushing, ran⟩ := bind_eq_ok.mp ran
  have before (status : flushed.status = .handshakeComplete) : p.status = .handshakeComplete := by
    cases runNetworkBuffers_traffic flushing with
    | dropped unconnected _ =>
        rw [status] at unconnected
        cases unconnected
    | same kept =>
        rw [kept.status] at status
        split at status
        · cases status
        · exact status
  cases first with
  | failure =>
      cases ran
      exact before complete
  | success =>
      unfold runStep at ran
      dsimp only at ran
      split at ran
      · obtain ⟨⟨sent, second⟩, sending, ran⟩ := bind_eq_ok.mp ran
        obtain ⟨⟨written, result⟩, wrote, sending⟩ := bind_eq_ok.mp sending
        cases second with
        | failure =>
            cases ran
            cases complete
        | success =>
            cases ran
            dsimp only at sending
            split at sending
            · cases sending
            · cases sending
              cases complete
      · cases ran
        exact before complete

/-- The end of the handshake, in a run that consumes one. -/
theorem runHandshake_of_read (read : p.handshakeRead infoHash outcome = some handshake)
    (metadataSize : Nat)
    : ∃ q : Peer,
        q.shouldHandleHandshake = true
        ∧ (q.read 68).2 = (68, handshake)
        ∧ p.runHandshake infoHash metadataSize outcome
          = q.runStep true (q.handleHandshake infoHash metadataSize) outcome.now := by
  unfold handshakeRead at read
  split at read
  · rename_i q greeted
    split at read
    · rename_i found
      refine ⟨q, found.1, Prod.ext found.2 (Option.some.inj read), ?_⟩
      rw [runHandshake_eq_greeting, bind_of_ok greeted]
      dsimp only
      rw [found.1]
    · cases read
  · cases read

/-- A handshake that does not begin like ours ends the connection. -/
theorem runHandshake_mismatch (read : p.handshakeRead infoHash outcome = some handshake)
    (differs : slice handshake 28 8 ≠ infoHash.bytes.take 8) (metadataSize : Nat)
    : ∃ refused : Peer,
        p.runHandshake infoHash metadataSize outcome
          = .ok (refused.disconnect outcome.now, .failure) := by
  obtain ⟨q, _, consumed, ran⟩ := runHandshake_of_read read metadataSize
  have refused : q.handleHandshake infoHash metadataSize = .ok ((q.read 68).1, .failure) := by
    simp only [handleHandshake, consumed, ne_eq, not_true_eq_false, if_false, if_pos differs]
  exact ⟨(q.read 68).1, by rw [ran, runStep, if_pos rfl, bind_of_ok refused]⟩

/-- A handshake that is read has 68 bytes. -/
theorem read_whole (consumed : (p.read 68).2.1 = 68) : (p.read 68).2.2.length = 68 := by
  rcases (read_bytes p 68).2 with error | none | sized
  · rw [consumed] at error
    cases error
  · rw [consumed] at none
    cases none
  · exact sized

/-- A handshake that begins like ours is accepted. -/
theorem runHandshake_match (read : p.handshakeRead infoHash outcome = some handshake)
    (begins : slice handshake 28 8 = infoHash.bytes.take 8)
    (ran : p.runHandshake infoHash metadataSize outcome = .ok (next, exit))
    : exit = .success := by
  obtain ⟨q, ready, consumed, eq⟩ := runHandshake_of_read read metadataSize
  obtain ⟨-, opened⟩ := takesWrites_of_shouldHandleHandshake ready
  rw [eq, runStep, if_pos rfl] at ran
  obtain ⟨⟨handled, result⟩, handling, ran⟩ := bind_eq_ok.mp ran
  have accepted : result = .success := by
    simp only [handleHandshake, consumed, ne_eq, not_true_eq_false, if_false, begins] at handling
    split at handling
    · obtain ⟨⟨_, _⟩, wrote, handling⟩ := bind_eq_ok.mp handling
      have stillOpen := ((read_within q 68).link (by simp)).takesWrites opened
      have whole := (write_result wrote).resolve_right fun closed => closed.1 stillOpen
      rw [whole.2] at handling
      simp only [not_true_eq_false, if_false] at handling
      cases handling
      rfl
    · cases handling
      rfl
  subst accepted
  cases ran
  rfl

/-- A run that leaves the handshake complete has consumed one that begins like ours, unless it was
complete before.
-/
theorem runHandshake_complete
    (ran : p.runHandshake infoHash metadataSize outcome = .ok (next, .success))
    (complete : next.status = .handshakeComplete)
    : (∃ handshake,
          p.handshakeRead infoHash outcome = some handshake
          ∧ handshake.length = 68
          ∧ slice handshake 28 8 = infoHash.bytes.take 8)
      ∨ p.handshakeRead infoHash outcome = none ∧ p.status = .handshakeComplete := by
  rw [runHandshake_eq_greeting] at ran
  obtain ⟨⟨greeted, exit⟩, greeting, ran⟩ := bind_eq_ok.mp ran
  cases exit with
  | failure => cases ran
  | success =>
      dsimp only at ran
      unfold runStep at ran
      split at ran
      · rename_i ready
        obtain ⟨⟨handled, result⟩, handling, ran⟩ := bind_eq_ok.mp ran
        cases result with
        | failure => cases ran
        | success =>
            unfold handleHandshake at handling
            dsimp only at handling
            split at handling
            · cases handling
            rename_i whole
            split at handling
            · cases handling
            rename_i begins
            have consumed := not_not.mp whole
            refine .inl ⟨(greeted.read 68).2.2, ?_, ?_, not_not.mp begins⟩
            · rw [handshakeRead, greeting]
              exact if_pos ⟨ready, consumed⟩
            · exact read_whole consumed
      · rename_i idle
        cases ran
        refine .inr ⟨?_, runGreeting_complete greeting complete⟩
        rw [handshakeRead, greeting]
        exact if_neg fun ready => idle ready.1

end Peer

-----------------------------------------------------------------------------------------
-- Runs of a peer
-----------------------------------------------------------------------------------------

/-- A peer with the handshake that was consumed on its current connection. -/
structure GreetedPeer where
  peer : Peer
  handshake : Option Bytes

namespace GreetedPeer

/-- A peer of `peer_new`, which came with a socket when it connected to us. -/
def start (now : Int) (accepted : Option BufferedSocket) : GreetedPeer :=
  {
    peer := match accepted with
      | none => .new now
      | some socket => (Peer.new now).setSocket socket
    handshake := none
  }

/-- The handshake that a run consumes. -/
def consumes (s : GreetedPeer) (infoHash : InfoHash) (input : RunInput) : Option Bytes :=
  s.peer.handshakeRead infoHash input.outcome.connection

/-- One `peer_run` for a torrent. The handshake is forgotten with its connection. -/
def step (infoHash : InfoHash) (beDecode : BeDecode) (s : GreetedPeer) (input : RunInput)
    : Except Fault GreetedPeer :=
  (s.peer.runOn beDecode { input with infoHash }).bind fun result =>
    .ok
      {
        peer := result.peer
        handshake :=
          if result.peer.status = .unconnected then none
          else (s.consumes infoHash input).or s.handshake
      }

/-- A complete handshake was one for our torrent. -/
def Verified (infoHash : InfoHash) (s : GreetedPeer) : Prop :=
  s.peer.status = .handshakeComplete
  → ∃ handshake,
      s.handshake = some handshake
      ∧ handshake.length = 68
      ∧ handshakeInfoHash handshake = infoHash.bytes

/-- A run leaves a complete handshake only for our torrent, and one for another torrent ends in
`peer_disconnect`.
-/
structure AdmitsOwnTorrent (infoHash : InfoHash) (beDecode : BeDecode) (s : GreetedPeer)
    (input : RunInput)
    : Prop where
  verified : ∀ next, s.step infoHash beDecode input = .ok next → next.Verified infoHash
  refused
    : ∀ handshake,
        s.consumes infoHash input = some handshake
        → handshakeInfoHash handshake ≠ infoHash.bytes
        → ∃ before : Peer,
            s.peer.runHandshake infoHash input.torrentMetadata.dataSize input.outcome.connection
            = .ok (before.disconnect input.now, .failure)

/-- Of a handshake that the run consumes, the first 8 bytes of the info hash tell whether it is
ours.
-/
def ReadsRecognisable (infoHash : InfoHash) (s : GreetedPeer) (input : RunInput) : Prop :=
  ∀ handshake ∈ s.consumes infoHash input, Recognisable infoHash handshake

instance (infoHash : InfoHash) (s : GreetedPeer) (input : RunInput)
    : Decidable (s.ReadsRecognisable infoHash input) :=
  match consumed : s.consumes infoHash input with
  | none => .isTrue fun handshake member => by simp [consumed] at member
  | some handshake =>
      decidable_of_iff (Recognisable infoHash handshake) (by simp [ReadsRecognisable, consumed])

variable {infoHash : InfoHash} {beDecode : BeDecode} {s next : GreetedPeer} {input : RunInput}

/-- A run that consumes only recognisable handshakes. -/
theorem Verified.step (verified : s.Verified infoHash)
    (recognisable : s.ReadsRecognisable infoHash input)
    (stepped : s.step infoHash beDecode input = .ok next)
    : next.Verified infoHash := by
  obtain ⟨result, ran, same⟩ := bind_eq_ok.mp stepped
  obtain rfl := Except.ok.inj same
  intro complete
  dsimp only at complete ⊢
  rw [if_neg (by rw [complete]; nofun)]
  obtain ⟨⟨greeted, exit⟩, greeting, ran⟩ := bind_eq_ok.mp ran
  -- only a run that goes on behind the handshake leaves it complete
  obtain ⟨rfl, before⟩ : exit = .success ∧ greeted.status = .handshakeComplete := by
    cases exit with
    | failure =>
        cases ran
        have unconnected := (Peer.runHandshake_within greeting).2 rfl
        exact absurd (complete.symm.trans unconnected) nofun
    | success =>
        obtain ⟨⟨told, adverts⟩, telling, ran⟩ := bind_eq_ok.mp ran
        obtain ⟨last, messages, same⟩ := bind_eq_ok.mp ran
        cases same
        have kept := Peer.runAdverts_traffic telling
        rcases (Peer.runMessages_effect messages).1 with link | dropped
        · exact ⟨rfl, by rw [← kept.status, ← link.status]; exact complete⟩
        · exact absurd (complete.symm.trans dropped.status) nofun
  rcases Peer.runHandshake_complete greeting before with
    ⟨handshake, read, sized, begins⟩ | ⟨none, was⟩
  · refine ⟨handshake, ?_, sized, recognisable handshake read begins⟩
    exact congrArg (·.or s.handshake) read
  · obtain ⟨handshake, kept, ours⟩ := verified was
    refine ⟨handshake, ?_, ours⟩
    exact (congrArg (·.or s.handshake) none).trans kept

/-- Over a run of a peer, complete handshakes are for our torrent and all others end the connection,
exactly when every handshake that is consumed can be told by the first 8 bytes of its info hash.
-/
theorem admitsOwnTorrent_iff (infoHash : InfoHash) (beDecode : BeDecode) (now : Int)
    (accepted : Option BufferedSocket) (inputs : List RunInput)
    : Guarded (step infoHash beDecode) (AdmitsOwnTorrent infoHash beDecode) (start now accepted)
        inputs
      ↔ Guarded (step infoHash beDecode) (ReadsRecognisable infoHash) (start now accepted)
          inputs := by
  constructor
  · -- a handshake that only begins like ours is not refused
    refine Guarded.of_invariant (fun s input _ admits => ⟨?_, fun _ _ => trivial⟩)
      (trivial : (fun _ => True) (start now accepted))
    intro handshake read begins
    by_contra differs
    obtain ⟨before, refused⟩ := admits.refused handshake read differs
    have accepts := Peer.runHandshake_match read begins refused
    cases accepts
  · have unconnected : (start now accepted).Verified infoHash := by
      intro complete
      cases accepted <;> cases complete
    refine Guarded.of_invariant
      (fun s input (verified : s.Verified infoHash) recognisable => ?_) unconnected
    have kept (next : GreetedPeer) (stepped : s.step infoHash beDecode input = .ok next)
        : next.Verified infoHash :=
      verified.step recognisable stepped
    refine ⟨⟨kept, fun handshake read differs => ?_⟩, kept⟩
    exact Peer.runHandshake_mismatch read
      (fun begins => differs (recognisable handshake read begins)) _

/-- Our info hash, and one that differs from it in the last byte. -/
def ownInfoHash : InfoHash := .filled 1

def foreignInfoHash : InfoHash := ⟨List.replicate 19 1 ++ [2], rfl⟩

/-- A run in which the remote sends a handshake for the other torrent. -/
def foreignInput : RunInput :=
  quietInput (some ⟨Peer.handshakeMessage foreignInfoHash, by decide +kernel⟩)

/-- The remote is taken for a peer of our torrent. -/
theorem foreign_handshake_admitted
    : (∃ next,
          (start 0 none).step ownInfoHash (fun _ => none) foreignInput = .ok next
          ∧ next.peer.status = .handshakeComplete
          ∧ next.handshake.map handshakeInfoHash = some foreignInfoHash.bytes)
      ∧ ¬ Guarded (step ownInfoHash fun _ => none) (AdmitsOwnTorrent ownInfoHash fun _ => none)
          (start 0 none) [foreignInput] := by
  have passed : returnsWith ((start 0 none).step ownInfoHash (fun _ => none) foreignInput)
      (fun next =>
        decide
          (next.peer.status = .handshakeComplete
            ∧ next.handshake.map handshakeInfoHash = some foreignInfoHash.bytes))
      = true := by
    decide +kernel
  obtain ⟨next, stepped, observed⟩ := exists_ok_of_returnsWith passed
  obtain ⟨complete, foreign⟩ := of_decide_eq_true observed
  refine ⟨⟨next, stepped, complete, foreign⟩, ?_⟩
  rintro ⟨admits, -⟩
  obtain ⟨handshake, kept, -, ours⟩ := admits.verified next stepped complete
  rw [kept, Option.map_some, ours] at foreign
  revert foreign
  decide

end GreetedPeer

end UvgTorrent
