import UvgTorrent.Peers.Framing
import UvgTorrent.Peers.HandlerReturns

/-! Who disposes of the buffer of a message. The dispatch of `peer_run` owns it; each handler that
returns frees it or hands it to a queue of the main thread, but extension messages with an unknown
extended id are neither freed nor handed on.
-/

namespace UvgTorrent

open Foundations

/-- What has been done to the buffer of a message. -/
structure MessageBuffer where
  frees : Nat
  pushes : List MainQueue
  deriving DecidableEq, Repr

namespace MessageBuffer

/-- The buffer as `peer_read_message` returns it. -/
def owned : MessageBuffer := { frees := 0, pushes := [] }

/-- `free`. -/
def free (buffer : MessageBuffer) : MessageBuffer := { buffer with frees := buffer.frees + 1 }

/-- `queue_push`. -/
def push (buffer : MessageBuffer) (queue : MainQueue) : MessageBuffer :=
  { buffer with pushes := buffer.pushes ++ [queue] }

/-- Freed exactly once, or pushed to exactly one queue, and not both. -/
def DisposedOnce (buffer : MessageBuffer) : Prop :=
  buffer.frees = 1 ∧ buffer.pushes = []
  ∨ buffer.frees = 0 ∧ ∃ queue, buffer.pushes = [queue]

theorem owned_free_disposedOnce : owned.free.DisposedOnce := .inl ⟨rfl, rfl⟩

theorem owned_push_disposedOnce (queue : MainQueue) : (owned.push queue).DisposedOnce :=
  .inr ⟨rfl, queue, rfl⟩

theorem owned_not_disposedOnce : ¬ owned.DisposedOnce := by
  rintro (⟨freed, _⟩ | ⟨_, queue, pushed⟩)
  · cases freed
  · cases pushed

end MessageBuffer

/-- An extension message whose extended id is neither that of the handshake nor that of the
metadata.
-/
def Message.UnknownExtension (message : Message) : Prop :=
  message.bytes[4]? = some 20
  ∧ ∃ extendedMsgId,
      message.bytes[5]? = some extendedMsgId
      ∧ extendedMsgId ≠ 0
      ∧ extendedMsgId.toNat ≠ utMetadataId

namespace Peer

open MessageBuffer

variable {beDecode : BeDecode} {p next : Peer} {torrentMetadata torrentData : TorrentData}
  {disk : Disk} {message : Message} {outcome : RunOutcome} {buffer : MessageBuffer}

-----------------------------------------------------------------------------------------
-- The handlers with the buffer
-----------------------------------------------------------------------------------------

/-- `peer_handle_msg_extension`, with what it does to the buffer. -/
def handleMsgExtensionBuffer (beDecode : BeDecode) (p : Peer) (torrentMetadata : TorrentData)
    (disk : Disk) (message : Message) (reads : Nat → Nat → ReadOutcome) (stack : Stack)
    (steps : Nat) (now : Int) (buffer : MessageBuffer)
    : Except Fault (Peer × MessageBuffer) :=
  match message.bytes[5]? with
  | none => .error .messageBounds
  | some extendedMsgId =>
      let decoded := (beDecode (message.bytes.drop 6)).map (·.1)
      if extendedMsgId = 0 then
        match p.handleUtMetadataHandshake decoded with
        | (p, .failure) => .ok (p.disconnect now, buffer.free)
        | (p, .success) => .ok (p, buffer.free)
      else if extendedMsgId.toNat = utMetadataId then
        match decoded with
        | none => .ok (p.disconnect now, buffer.free)
        | some d =>
            let msgType := d.dictLookupNum (ascii "msg_type")
            if msgType = 0 then
              (p.handleUtMetadataRequest (d.dictLookupNum (ascii "piece")) torrentMetadata disk
                  reads stack steps).bind fun p => .ok (p, buffer.free)
            -- `peer_handle_ut_metadata_data`
            else if msgType = 1 then .ok (p, buffer.push .metadata)
            else if msgType = 2 then .ok ({ p with utMetadata := 0 }, buffer.free)
            else .ok (p, buffer.free)
      -- the chain of tests ends here
      else .ok (p, buffer)

/-- The dispatch of `peer_run`, with what the handlers do to the buffer. -/
def handleMessageBuffer (beDecode : BeDecode) (p : Peer)
    (torrentMetadata torrentData : TorrentData) (disk : Disk) (message : Message)
    (outcome : RunOutcome) (buffer : MessageBuffer)
    : Except Fault (Peer × MessageBuffer) :=
  match message.bytes[4]?.map UInt8.toNat with
  | some 0 => .ok ({ p with peerChoking := true }, buffer.free)
  | some 1 => .ok ({ p with peerChoking := false }, buffer.free)
  | some 2 => .ok ({ p with peerInterested := true }, buffer.free)
  | some 3 => .ok ({ p with peerInterested := false }, buffer.free)
  | some 4 =>
      (p.handleMsgHave torrentData message outcome.stack).bind fun p => .ok (p, buffer.free)
  | some 5 =>
      (p.handleMsgBitfield torrentData message outcome.stack).bind fun p => .ok (p, buffer.free)
  | some 6 =>
      (p.handleMsgRequest torrentData disk message outcome.reads outcome.stack outcome.steps).bind
        fun (p, _) => .ok (p, buffer.free)
  | some 7 => .ok (p.handleMsgPiece, buffer.push .data)
  -- `peer_handle_msg_cancel` and `peer_handle_msg_port`
  | some 8 => .ok (p, buffer.free)
  | some 9 => .ok (p, buffer.free)
  | some 20 =>
      p.handleMsgExtensionBuffer beDecode torrentMetadata disk message outcome.reads outcome.stack
        outcome.steps outcome.now buffer
  | _ => .ok (p, buffer.free)

-----------------------------------------------------------------------------------------
-- They are the handlers of the model
-----------------------------------------------------------------------------------------

/-- A computation of the peer alone, under two ways to go on that leave the same queue. -/
theorem bind_queue {result : Except Fault Peer} {queue : Option MainQueue}
    (pushed : buffer.pushes.head? = queue)
    : (result.bind fun p => .ok (p, queue))
      = (result.bind fun p => (.ok (p, buffer) : Except Fault (Peer × MessageBuffer))).bind
          fun (p, buffer) => .ok (p, buffer.pushes.head?) := by
  cases result with
  | error fault => rfl
  | ok p => exact congrArg (fun queue => Except.ok (p, queue)) pushed.symm

theorem handleMsgExtension_eq (reads : Nat → Nat → ReadOutcome) (stack : Stack) (steps : Nat)
    (now : Int)
    : p.handleMsgExtension beDecode torrentMetadata disk message reads stack steps now
      = (p.handleMsgExtensionBuffer beDecode torrentMetadata disk message reads stack steps now
          .owned).bind fun (p, buffer) => .ok (p, buffer.pushes.head?) := by
  unfold handleMsgExtension handleMsgExtensionBuffer
  cases message.bytes[5]? with
  | none => rfl
  | some extendedMsgId =>
      dsimp only
      by_cases handshake : extendedMsgId = 0
      · rw [if_pos handshake, if_pos handshake, handleExtendedHandshake]
        split
        · rename_i success
          rw [success]
          rfl
        · rename_i failure
          rw [failure]
          rfl
      · rw [if_neg handshake, if_neg handshake]
        by_cases utMetadata : extendedMsgId.toNat = utMetadataId
        · rw [if_pos utMetadata, if_pos utMetadata]
          cases (beDecode (message.bytes.drop 6)).map (·.1) with
          | none => rfl
          | some d =>
              dsimp only
              split
              · exact bind_queue rfl
              · split
                · rfl
                · split <;> rfl
        · rw [if_neg utMetadata, if_neg utMetadata]
          rfl

/-- The queue that takes a message is the one that its buffer is pushed to. -/
theorem handleMessage_eq
    : p.handleMessage beDecode torrentMetadata torrentData disk message outcome
      = (p.handleMessageBuffer beDecode torrentMetadata torrentData disk message outcome
          .owned).bind fun (p, buffer) => .ok (p, buffer.pushes.head?) := by
  unfold handleMessage handleMessageBuffer
  generalize message.bytes[4]?.map UInt8.toNat = msgId
  split
  case h_5 => exact bind_queue rfl
  case h_6 => exact bind_queue rfl
  case h_7 =>
    cases p.handleMsgRequest torrentData disk message outcome.reads outcome.stack outcome.steps with
    | error fault => rfl
    | ok result => rfl
  case h_9 => exact handleMsgExtension_eq ..
  case h_10 =>
    -- the dispatch of the model has no cases of their own for CANCEL and PORT
    split <;> first | rfl | simp_all
  all_goals rfl

-----------------------------------------------------------------------------------------
-- The buffer after the dispatch
-----------------------------------------------------------------------------------------

/-- The extension handler disposes of the buffer of every message whose extended id it knows. -/
theorem handleMsgExtensionBuffer_disposed {reads : Nat → Nat → ReadOutcome} {stack : Stack}
    {steps : Nat} {now : Int} {extendedMsgId : UInt8}
    (byte : message.bytes[5]? = some extendedMsgId)
    (known : extendedMsgId = 0 ∨ extendedMsgId.toNat = utMetadataId)
    (ran
      : p.handleMsgExtensionBuffer beDecode torrentMetadata disk message reads stack steps now
          .owned = .ok (next, buffer))
    : buffer.DisposedOnce := by
  simp only [handleMsgExtensionBuffer, byte] at ran
  split at ran
  · split at ran <;> cases ran <;> exact owned_free_disposedOnce
  · rename_i noHandshake
    rw [if_pos (known.resolve_left noHandshake)] at ran
    split at ran
    · cases ran
      exact owned_free_disposedOnce
    · split at ran
      · obtain ⟨after, _, same⟩ := bind_eq_ok.mp ran
        cases same
        exact owned_free_disposedOnce
      · split at ran
        · cases ran
          exact owned_push_disposedOnce .metadata
        · split at ran <;> cases ran <;> exact owned_free_disposedOnce

/-- A message with an unknown extended id keeps its buffer, and nothing else happens. -/
theorem handleMessageBuffer_unknownExtension (unknown : message.UnknownExtension)
    (buffer : MessageBuffer)
    : p.handleMessageBuffer beDecode torrentMetadata torrentData disk message outcome buffer
      = .ok (p, buffer) := by
  obtain ⟨extension, extendedMsgId, byte, noHandshake, noMetadata⟩ := unknown
  simp only [handleMessageBuffer, extension, Option.map_some]
  show p.handleMsgExtensionBuffer beDecode torrentMetadata disk message outcome.reads outcome.stack
      outcome.steps outcome.now buffer = .ok (p, buffer)
  simp only [handleMsgExtensionBuffer, byte, if_neg noHandshake, if_neg noMetadata]

/-- Every dispatch of a message with a known extended id leaves its buffer disposed of. -/
theorem handleMessageBuffer_disposed (known : ¬ message.UnknownExtension)
    (ran
      : p.handleMessageBuffer beDecode torrentMetadata torrentData disk message outcome .owned
        = .ok (next, buffer))
    : buffer.DisposedOnce := by
  unfold handleMessageBuffer at ran
  split at ran
  case h_5 | h_6 | h_7 =>
    obtain ⟨after, _, same⟩ := bind_eq_ok.mp ran
    cases same
    exact owned_free_disposedOnce
  case h_8 =>
    cases ran
    exact owned_push_disposedOnce .data
  case h_11 extension =>
    cases byte : message.bytes[5]? with
    | none =>
        simp only [handleMsgExtensionBuffer, byte] at ran
        cases ran
    | some extendedMsgId =>
        refine handleMsgExtensionBuffer_disposed byte ?_ ran
        by_contra neither
        obtain ⟨noHandshake, noMetadata⟩ := not_or.mp neither
        refine known ⟨?_, extendedMsgId, byte, noHandshake, noMetadata⟩
        obtain ⟨msgId, read, twenty⟩ := Option.map_eq_some_iff.mp extension
        rw [read]
        exact congrArg some (UInt8.toNat_inj.mp twenty)
  all_goals
    cases ran
    exact owned_free_disposedOnce

-----------------------------------------------------------------------------------------
-- The dispatches that return
-----------------------------------------------------------------------------------------

/-- An extension message has its extended id, and a request for metadata can be answered. -/
def HandlesExtension (beDecode : BeDecode) (p : Peer) (torrentMetadata : TorrentData)
    (disk : Disk) (message : Message) (stack : Stack)
    : Prop :=
  ∃ extendedMsgId,
    message.bytes[5]? = some extendedMsgId
    ∧ (extendedMsgId.toNat = utMetadataId
      → ∀ d,
          (beDecode (message.bytes.drop 6)).map (·.1) = some d
          → d.dictLookupNum (ascii "msg_type") = 0
          → p.AnswersMetadata (d.dictLookupNum (ascii "piece")) torrentMetadata disk stack)

theorem handleMsgExtensionBuffer_returns_iff {stack : Stack} {now : Int}
    : (∀ reads,
        ∃ steps,
          Returns
            (p.handleMsgExtensionBuffer beDecode torrentMetadata disk message reads stack steps now
              buffer))
      ↔ p.HandlesExtension beDecode torrentMetadata disk message stack := by
  unfold handleMsgExtensionBuffer HandlesExtension
  cases message.bytes[5]? with
  | none =>
      refine iff_of_false (fun returns => ?_) (by simp)
      obtain ⟨_, returned⟩ := returns fun _ _ => .good
      exact not_returns_error _ returned
  | some extendedMsgId =>
      simp only [Option.some.injEq, exists_eq_left']
      by_cases handshake : extendedMsgId = 0
      · subst handshake
        refine iff_of_true (fun _ => ⟨0, ?_⟩) fun metadata => absurd metadata (by decide)
        rw [if_pos rfl]
        split <;> exact returns_ok _
      simp only [if_neg handshake]
      by_cases metadata : extendedMsgId.toNat = utMetadataId
      · simp only [if_pos metadata, forall_prop_of_true metadata]
        cases (beDecode (message.bytes.drop 6)).map (·.1) with
        | none => exact iff_of_true (fun _ => ⟨0, returns_ok _⟩) fun d absent => by cases absent
        | some d =>
            simp only [Option.some.injEq, forall_eq']
            by_cases request : d.dictLookupNum (ascii "msg_type") = 0
            · simp only [if_pos request, forall_prop_of_true request]
              rw [← handleUtMetadataRequest_returns_iff]
              exact forall_congr' fun reads => exists_congr fun steps =>
                returns_bind_ok fun _ => returns_ok _
            · simp only [if_neg request]
              refine iff_of_true (fun _ => ⟨0, ?_⟩) fun same => absurd same request
              split
              · exact returns_ok _
              · split <;> exact returns_ok _
      · simp only [if_neg metadata]
        exact iff_of_true (fun _ => ⟨0, returns_ok _⟩) fun same => absurd same metadata

/-- The handler that the dispatch chooses for a message returns. -/
def Handles (beDecode : BeDecode) (p : Peer) (torrentMetadata torrentData : TorrentData)
    (disk : Disk) (message : Message) (stack : Stack)
    : Prop :=
  match message.bytes[4]?.map UInt8.toNat with
  | some 4 => p.HandlesHave torrentData message stack
  | some 5 => p.HandlesBitfield torrentData message stack
  | some 6 => p.HandlesRequest torrentData disk message stack
  | some 20 => p.HandlesExtension beDecode torrentMetadata disk message stack
  | _ => True

theorem handleMessageBuffer_returns_iff
    : (∀ reads,
        ∃ steps,
          Returns
            (p.handleMessageBuffer beDecode torrentMetadata torrentData disk message
              { outcome with reads, steps } buffer))
      ↔ p.Handles beDecode torrentMetadata torrentData disk message outcome.stack := by
  -- a handler that reads no files
  have returned {β γ : Type} {handled : Except Fault β} {result : Except Fault γ}
      (same : Returns handled ↔ Returns result)
      : (∀ _ : Nat → Nat → ReadOutcome, ∃ _ : Nat, Returns handled) ↔ Returns result :=
    ⟨fun returns => same.mp (returns fun _ _ => .good).choose_spec,
      fun returns _ => ⟨0, same.mpr returns⟩⟩
  unfold handleMessageBuffer Handles
  generalize message.bytes[4]?.map UInt8.toNat = msgId
  split
  case h_5 =>
    exact (returned (returns_bind_ok fun _ => returns_ok _)).trans handleMsgHave_returns_iff
  case h_6 =>
    exact (returned (returns_bind_ok fun _ => returns_ok _)).trans handleMsgBitfield_returns_iff
  case h_7 =>
    refine Iff.trans ?_ handleMsgRequest_returns_iff
    exact forall_congr' fun reads => exists_congr fun steps =>
      returns_bind_ok fun _ => returns_ok _
  case h_11 => exact handleMsgExtensionBuffer_returns_iff
  case h_12 =>
    refine iff_of_true (fun _ => ⟨0, returns_ok _⟩) ?_
    -- none of the ids with a handler that can fail is left
    split <;> trivial
  all_goals exact iff_of_true (fun _ => ⟨0, returns_ok _⟩) trivial

/-- Whatever the file operations answer, the dispatch of a message ends, with its buffer disposed of
exactly once.
-/
def DispatchDisposesOnce (beDecode : BeDecode) (p : Peer)
    (torrentMetadata torrentData : TorrentData) (disk : Disk) (message : Message)
    (outcome : RunOutcome)
    : Prop :=
  ∀ reads,
    ∃ steps next buffer,
      p.handleMessageBuffer beDecode torrentMetadata torrentData disk message
          { outcome with reads, steps } .owned
        = .ok (next, buffer)
      ∧ buffer.DisposedOnce

/-- The buffer of a message is disposed of exactly once just when its handler returns, and it is no
extension message with an unknown extended id.
-/
theorem dispatch_disposesOnce_iff (beDecode : BeDecode) (p : Peer)
    (torrentMetadata torrentData : TorrentData) (disk : Disk) (message : Message)
    (outcome : RunOutcome)
    : DispatchDisposesOnce beDecode p torrentMetadata torrentData disk message outcome
      ↔ p.Handles beDecode torrentMetadata torrentData disk message outcome.stack
        ∧ ¬ message.UnknownExtension := by
  rw [← @handleMessageBuffer_returns_iff beDecode p torrentMetadata torrentData disk message
    outcome .owned]
  constructor
  · intro disposes
    constructor
    · intro reads
      obtain ⟨steps, next, buffer, ran, _⟩ := disposes reads
      exact ⟨steps, _, ran⟩
    · intro unknown
      obtain ⟨steps, next, buffer, ran, disposed⟩ := disposes outcome.reads
      rw [handleMessageBuffer_unknownExtension unknown] at ran
      cases ran
      exact owned_not_disposedOnce disposed
  · rintro ⟨returns, known⟩ reads
    obtain ⟨steps, ⟨next, buffer⟩, ran⟩ := returns reads
    exact ⟨steps, next, buffer, ran, handleMessageBuffer_disposed known ran⟩

/-- The buffer of an extension message with the extended id 1 is lost. -/
theorem unknown_extension_leaks
    : ∃ message : Message,
        ((handshakenPeer [0, 0, 0, 2, 20, 1]).readMessage 1).2 = some message.bytes
        ∧ ∀ beDecode p torrentMetadata torrentData disk outcome,
            ¬ DispatchDisposesOnce beDecode p torrentMetadata torrentData disk message outcome := by
  let message : Message := ⟨[0, 0, 0, 2, 20, 1], by decide⟩
  have unknown : message.UnknownExtension := ⟨rfl, 1, rfl, by decide, by decide⟩
  refine ⟨message, by decide +kernel, ?_⟩
  intro beDecode p torrentMetadata torrentData disk outcome disposes
  obtain ⟨steps, next, buffer, ran, disposed⟩ := disposes outcome.reads
  cases (handleMessageBuffer_unknownExtension unknown .owned).symm.trans ran
  exact owned_not_disposedOnce disposed

end Peer

end UvgTorrent
