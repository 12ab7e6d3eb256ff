import UvgTorrent.Peers.Listening
import UvgTorrent.Torrents.FrameBounds
import UvgTorrent.Torrents.Transfers

/-! The metadata of a torrent, as it goes from one instance of the program to another: the extended
handshake, the requests and their answers as they are encoded and decoded, and the metadata that is
decoded once all its chunks have come.
-/

namespace UvgTorrent

open Foundations

-----------------------------------------------------------------------------------------
-- Messages of the extension protocol
-----------------------------------------------------------------------------------------

variable {extendedMsgId : UInt8} {text : Bytes}

/-- A message of the extension protocol. -/
def extensionFrame (extendedMsgId : UInt8) (text : Bytes) (small : 2 + text.length < 2 ^ 32)
    : Message :=
  ⟨Peer.extensionMessage extendedMsgId text, extensionMessage_framed small⟩

variable {small : 2 + text.length < 2 ^ 32}

theorem extensionFrame_bytes
    : (extensionFrame extendedMsgId text small).bytes = Peer.extensionMessage extendedMsgId text :=
  rfl

theorem asMessage_extension
    : asMessage (Peer.extensionMessage extendedMsgId text)
      = .ok (extensionFrame extendedMsgId text small) :=
  asMessage_bytes (extensionFrame extendedMsgId text small)

namespace BeNode

/-- The decoder finds the node in front of whatever else a message carries. -/
theorem EncodedIn.decoded {size : Nat} {node : BeNode} (encoded : EncodedIn size node)
    (rest : Bytes)
    : decodeInside (node.encode ++ rest) = some (node, node.encode.length) := by
  rw [decodeInside, encoded.read rest]

end BeNode

namespace Peer

variable {p : Peer} {torrentMetadata : TorrentData} {disk : Disk} {stack : Stack} {steps : Nat}
  {now : Int} {reads : Nat → Nat → ReadOutcome}

/-- The extended handshake of an instance tells its peer the id of the metadata messages and the
size of the metadata.
-/
theorem extendedHandshake_understood (metadataSize : Nat) (fits : metadataSize < 2 ^ 31)
    : ∃ handshake,
        asMessage (extensionMessage 0 (extendedHandshake metadataSize).encode) = .ok handshake
          ∧ p.handleMsgExtension decodeInside torrentMetadata disk handshake reads stack steps now
            = .ok
                ({ p with utMetadata := utMetadataId, utMetadataSize := metadataSize }, none) := by
  have encoded := BeNode.handshake_encoded metadataSize
  have decoded := encoded.decoded []
  have small : 2 + (extendedHandshake metadataSize).encode.length < 2 ^ 32 :=
    (Nat.add_le_add_left encoded.length_le 2).trans_lt (by norm_num)
  rw [List.append_nil] at decoded
  refine ⟨extensionFrame 0 _ small, asMessage_extension, ?_⟩
  rw [handleMsgExtension, extensionFrame_bytes, extensionMessage_id, extensionMessage_payload,
    decoded]
  have ids
      : (extendedHandshake metadataSize).dictLookup (ascii "m")
        = some (BeNode.numbers [(ascii "ut_metadata", (utMetadataId : Int))]) :=
    rfl
  have id
      : (BeNode.numbers [(ascii "ut_metadata", (utMetadataId : Int))]).dictLookupNum
          (ascii "ut_metadata")
        = (utMetadataId : Int) :=
    rfl
  have size
      : (extendedHandshake metadataSize).dictLookupNum (ascii "metadata_size")
        = wrap32 metadataSize :=
    rfl
  have idFits : wrap32 (utMetadataId : Int) = utMetadataId := wrap32_natCast (by decide)
  have sizeFits : wrap32 (wrap32 metadataSize) = metadataSize := by
    rw [wrap32_natCast fits, wrap32_natCast fits]
  simp only [Option.map_some, if_true, handleExtendedHandshake, handleUtMetadataHandshake, ids, id,
    size, idFits, sizeFits]

theorem extendedHandshake_understood_two
    : ∃ handshake,
        asMessage (extensionMessage 0 (extendedHandshake 2).encode) = .ok handshake
          ∧ (Peer.new 0).handleMsgExtension decodeInside (.new [46]) (fun _ => none) handshake
              (fun _ _ => .good) zeroStack 2 0
            = .ok
                ({ Peer.new 0 with utMetadata := utMetadataId, utMetadataSize := (2 : Nat) },
                  none) :=
  extendedHandshake_understood 2 (by decide)

/-- Where nothing waited, what is written waits. -/
theorem write_outgoing {socket : BufferedSocket} {nodes : List (Nat × BufferedSocketWriteBuffer)}
    (socketEq : p.socket = some socket) (linked : socket.Linked nodes)
    (drained : socket.pending = []) (data : Bytes)
    : ∃ next, p.write data = .ok (next, data.length) ∧ next.outgoing = data := by
  obtain ⟨written, nodes', wrote, linked', unsent⟩ := linked.write data
  rw [linked.pending_eq] at drained
  refine ⟨{ p with socket := some written }, ?_, ?_⟩
  · rw [write, socketEq]
    exact bind_of_ok wrote _
  · show written.pending = data
    rw [linked'.pending_eq, unsent, drained, ite_self, List.nil_append]

end Peer

-----------------------------------------------------------------------------------------
-- The parties
-----------------------------------------------------------------------------------------

/-- An instance that reads a message: the peer it has for the sender, and what its handlers meet. -/
structure MetadataReader where
  peer : Peer
  stack : Stack
  steps : Nat
  now : Int

/-- An instance that is asked, with its metadata. -/
structure MetadataSeeder extends MetadataReader where
  torrentMetadata : TorrentData
  disk : Disk

/-- An instance that is answered: its connection, and the write of the main loop. -/
structure MetadataReceiver extends MetadataReader where
  env : WriteEnv

namespace Download

/-- The chunk of a metadata message is taken by the main loop; the log keeps the outcome. -/
def takeMetadata (sha1 : Bytes → Digest) (state : Download) (reply : Message) (env : WriteEnv)
    : Except Fault Download :=
  if reply.bytes.length < 6 then .error .messageBounds
  else
    match decodeInside (reply.bytes.drop 6) with
    | none => .ok state
    | some (msg, msgSize) =>
        state.write sha1
          {
            chunkId := wrap32 (msg.dictLookupNum (ascii "piece"))
            data := reply.bytes.drop (6 + msgSize)
            env
          }

/-- The parties of a metadata download. Requests and answers pass `peer_handle_msg_extension` of the
instance that reads them; what it sends is what waits in its socket then. The chunk of a request is
free here: claims and `ut_metadata_requested` allow fewer.
-/
def metadataTransfer (sha1 : Bytes → Digest)
    : RequestReply Fault Download (Nat × Peer) Message MetadataSeeder Message MetadataReceiver :=
  {
    ask := fun _ (chunk, peer) => asMessage (peer.utMetadataRequest chunk)
    answer := fun request seeder =>
      (seeder.peer.handleMsgExtension decodeInside seeder.torrentMetadata seeder.disk request
          (fun _ _ => .good) seeder.stack seeder.steps seeder.now).bind fun (peer, _) =>
        if peer.outgoing = [] then .ok none
        else (asMessage peer.outgoing).bind fun reply => .ok (some reply)
    take := fun state reply receiver =>
      (receiver.peer.handleMsgExtension decodeInside state.td state.disk reply (fun _ _ => .good)
          receiver.stack receiver.steps receiver.now).bind fun
        | (_, some .metadata) => state.takeMetadata sha1 reply receiver.env
        | _ => .ok state
  }

variable {sha1 : Bytes → Digest} {td : TorrentData} {disk : Disk} {content : Bytes}
  {state : Download} {request reply : Message} {seeder : MetadataSeeder}

/-- `torrent_process_metadata_piece` does the same to the metadata and the disk. -/
theorem takeMetadata_writeMetadata {t : Torrent} (same : t.torrentMetadata = state.td)
    (env : MetadataEnv)
    : (state.takeMetadata sha1 reply env.write).map (fun next => (next.td, next.disk))
      = (t.writeMetadata decodeInside sha1 state.disk reply env).map fun
          | none => (state.td, state.disk)
          | some (t, disk) => (t.torrentMetadata, disk) := by
  rw [takeMetadata, Torrent.writeMetadata, same]
  split
  · rfl
  cases decodeInside (reply.bytes.drop 6) with
  | none => rfl
  | some taken =>
      obtain ⟨msg, msgSize⟩ := taken
      simp only [write, Except.bind]
      cases state.td.writeChunk sha1 state.disk (wrap32 (msg.dictLookupNum (ascii "piece")))
        (reply.bytes.drop (6 + msgSize)) env.write <;> rfl

-----------------------------------------------------------------------------------------
-- The messages of a metadata download
-----------------------------------------------------------------------------------------

/-- A request for a chunk, as the extended handshake asks for it. -/
def ValidMetadataRequest (td : TorrentData) (chunk : Nat) (request : Message) : Prop :=
  chunk < td.chunkTotal
    ∧ request.bytes
      = Peer.extensionMessage (UInt8.ofInt utMetadataId) (BeNode.requestDict chunk).encode

/-- An answer with the content of a chunk behind its dictionary. -/
def ValidMetadataReply (td : TorrentData) (content : Bytes) (chunk : Nat) (reply : Message)
    : Prop :=
  chunk < td.chunkTotal
    ∧ reply.bytes
      = Peer.extensionMessage (UInt8.ofInt utMetadataId)
          ((BeNode.dataDict chunk (wrap32 td.dataSize)).encode ++ td.chunkData content chunk)

/-- The instance has the metadata complete, and was told the id of the asker's metadata messages.
Nothing waits in its socket.
-/
structure SeedsMetadata (td : TorrentData) (content : Bytes) (seeder : MetadataSeeder) : Prop where
  has : HasContent td content seeder.torrentMetadata seeder.disk
  chunkSize : seeder.torrentMetadata.chunkSize = td.chunkSize
  complete : seeder.torrentMetadata.isComplete = true
  told : seeder.peer.utMetadata = utMetadataId
  linked
    : ∃ socket nodes,
        seeder.peer.socket = some socket ∧ socket.Linked nodes ∧ socket.pending = []
  turns : 2 ≤ seeder.steps

-----------------------------------------------------------------------------------------
-- What each party does
-----------------------------------------------------------------------------------------

/-- Metadata of a size that a peer has announced: its chunks have 16384 bytes. -/
structure AssemblableMetadata (sha1 : Bytes → Digest) (td : TorrentData) (disk : Disk)
    (content : Bytes)
    : Prop extends Assemblable sha1 td disk content where
  chunkSize : td.chunkSize = metadataChunkSize
  pieceSize : td.pieceSize = metadataPieceSize
  small : td.dataSize < 2 ^ 31
  table_none : td.sha1Hashes = none
  file
    : ∃ filePath, td.files = [{ fp := none, filePath, fileOffset := 0, fileSize := td.dataSize }]

theorem AssemblableMetadata.file_nonempty (setting : AssemblableMetadata sha1 td disk content)
    : ∀ file ∈ td.files, 0 < file.fileSize := by
  obtain ⟨filePath, files⟩ := setting.file
  intro file member
  rw [files] at member
  rw [List.mem_singleton.mp member]
  exact setting.nonempty

variable {chunk : Nat}

theorem chunk_lt (setting : AssemblableMetadata sha1 td disk content)
    (inRange : chunk < td.chunkTotal)
    : chunk < 2 ^ 31 := by
  have start := setting.initialised.chunkStart_lt chunk inRange
  have small := setting.small
  have size := setting.chunkSize
  rw [size, metadataChunkSize] at start
  omega

theorem askMetadata_valid (setting : AssemblableMetadata sha1 td disk content)
    (inRange : chunk < td.chunkTotal) {peer : Peer} (told : peer.utMetadata = utMetadataId)
    : ∃ request,
        (metadataTransfer sha1).ask state (chunk, peer) = .ok request
          ∧ ValidMetadataRequest td chunk request := by
  have fits := chunk_lt setting inRange
  have encoded := BeNode.request_encoded (show -2 ^ 63 ≤ (chunk : Int) by omega) (by omega)
  have small : 2 + (BeNode.requestDict chunk).encode.length < 2 ^ 32 :=
    (Nat.add_le_add_left encoded.length_le 2).trans_lt (by norm_num)
  have sent
      : peer.utMetadataRequest chunk
        = Peer.extensionMessage (UInt8.ofInt utMetadataId) (BeNode.requestDict chunk).encode := by
    rw [Peer.utMetadataRequest, told]
    rfl
  refine ⟨extensionFrame (UInt8.ofInt utMetadataId) (BeNode.requestDict chunk).encode small, ?_,
    inRange, extensionFrame_bytes⟩
  dsimp only [metadataTransfer]
  rw [sent, asMessage_extension]

theorem ofInt_utMetadataId : ((UInt8.ofInt utMetadataId).toNat : Int) = utMetadataId := by decide

/-- A request reaches `peer_handle_ut_metadata_request` with its chunk. -/
theorem handleMsgExtension_request (fits : chunk < 2 ^ 31) (peer : Peer) {stack : Stack}
    {steps : Nat} {now : Int} {reads : Nat → Nat → ReadOutcome}
    (sent
      : request.bytes
        = Peer.extensionMessage (UInt8.ofInt utMetadataId) (BeNode.requestDict chunk).encode)
    : peer.handleMsgExtension decodeInside td disk request reads stack steps now
      = (peer.handleUtMetadataRequest chunk td disk reads stack steps).bind fun p =>
          .ok (p, none) := by
  have encoded := BeNode.request_encoded (show -2 ^ 63 ≤ (chunk : Int) by omega) (by omega)
  have decoded := encoded.decoded []
  rw [List.append_nil] at decoded
  have msgType : (BeNode.requestDict chunk).dictLookupNum (ascii "msg_type") = 0 := rfl
  have piece : (BeNode.requestDict chunk).dictLookupNum (ascii "piece") = chunk := rfl
  have other : UInt8.ofInt utMetadataId ≠ 0 := by decide
  rw [Peer.handleMsgExtension, sent, extensionMessage_id, extensionMessage_payload, decoded]
  simp only [other, if_false, ofInt_utMetadataId, if_true, Option.map_some, msgType, piece]

/-- An answer is handed to the main loop. -/
theorem handleMsgExtension_reply (fits : chunk < 2 ^ 31) (peer : Peer) {stack : Stack} {steps : Nat}
    {now : Int} {reads : Nat → Nat → ReadOutcome} {size : Nat} {block : Bytes}
    (sent
      : reply.bytes
        = Peer.extensionMessage (UInt8.ofInt utMetadataId)
            ((BeNode.dataDict chunk (wrap32 size)).encode ++ block))
    : peer.handleMsgExtension decodeInside td disk reply reads stack steps now
      = .ok (peer, some .metadata) := by
  have encoded := BeNode.data_encoded (show -2 ^ 63 ≤ (chunk : Int) by omega) (by omega) size
  have msgType : (BeNode.dataDict chunk (wrap32 size)).dictLookupNum (ascii "msg_type") = 1 := rfl
  have other : UInt8.ofInt utMetadataId ≠ 0 := by decide
  have data : ¬ ((1 : Int) = 0) := by decide
  rw [Peer.handleMsgExtension, sent, extensionMessage_id, extensionMessage_payload,
    encoded.decoded block]
  simp only [other, if_false, ofInt_utMetadataId, if_true, Option.map_some, msgType, data]

/-- An instance that has the metadata answers a valid request with its chunk. -/
theorem answerMetadata_valid (setting : AssemblableMetadata sha1 td disk content)
    (valid : ValidMetadataRequest td chunk request) (seeds : SeedsMetadata td content seeder)
    : ∃ reply,
        (metadataTransfer sha1).answer request seeder = .ok (some reply)
          ∧ ValidMetadataReply td content chunk reply := by
  obtain ⟨inRange, sent⟩ := valid
  obtain ⟨has, chunkSize, complete, told, ⟨socket, nodes, socketEq, linked, drained⟩, turns⟩ :=
    seeds
  have ready := setting.initialised
  have fits := chunk_lt setting inRange
  have covers := has.covers
  have info
      : seeder.torrentMetadata.getChunkInfo (wrap32 chunk) seeder.stack.chunkInfo
        = .ok
            (.success,
              {
                chunkId := chunk
                pieceId := td.pieceOf chunk
                chunkSize := td.chunkLength chunk
                chunkOffset := td.chunkSize * chunk
              }) := by
    have start := ready.chunkStart_lt chunk inRange
    have pieceFits := ready.pieceOf_fits chunk inRange
    have length : seeder.torrentMetadata.chunkLength chunk = td.chunkLength chunk := by
      rw [TorrentData.chunkLength, TorrentData.chunkLength, chunkSize, has.dataSize]
    have piece : seeder.torrentMetadata.pieceOf chunk = td.pieceOf chunk := by
      rw [TorrentData.pieceOf, TorrentData.pieceOf, chunkSize, has.pieceSize]
    rw [wrap32_natCast fits, seeder.torrentMetadata.getChunkInfo_inRange
      (by rw [chunkSize]; exact ready.chunkSize_pos) covers.pieceSize_pos covers.dataSize_lt
      (by rw [chunkSize, has.dataSize]; exact start) fits (by rw [piece]; exact pieceFits), length,
      piece, chunkSize]
  have read := has.readChunk setting.toAssemblable inRange seeder.stack turns
  have block := chunkData_length setting.toAssemblable inRange
  have short : td.chunkLength chunk ≤ metadataChunkSize :=
    (Nat.min_le_left ..).trans setting.chunkSize.le
  have room : (BeNode.dataDict chunk (wrap32 td.dataSize)).encode.length ≤ 59 * 3 + 2 :=
    BeNode.numbers_length_le
      (BeNode.dataDict_printable (show -2 ^ 63 ≤ (chunk : Int) by omega) (by omega) td.dataSize)
  have small
      : 2
          + ((BeNode.dataDict chunk (wrap32 td.dataSize)).encode
            ++ td.chunkData content chunk).length
        < 2 ^ 32 := by
    rw [List.length_append, block]
    exact (Nat.add_le_add_left (Nat.add_le_add room short) 2).trans_lt (by decide)
  have answered
      : (metadataTransfer sha1).answer request seeder
        = .ok
            (some
              (extensionFrame (UInt8.ofInt utMetadataId)
                ((BeNode.dataDict chunk (wrap32 td.dataSize)).encode ++ td.chunkData content chunk)
                small)) := by
    have dict
        : (BeNode.dict
            [(ascii "msg_type", .num 1), (ascii "piece", .num chunk),
              (ascii "total_size", .num (wrap32 td.dataSize))])
          = BeNode.dataDict chunk (wrap32 td.dataSize) :=
      rfl
    dsimp only [metadataTransfer]
    rw [handleMsgExtension_request fits seeder.peer sent, Peer.handleUtMetadataRequest,
      if_pos complete, bind_of_ok info]
    dsimp only
    rw [has.dataSize, dict, if_neg (Nat.not_lt.mpr ((Nat.add_le_add room short).trans (by decide))),
      bind_of_ok read, told]
    dsimp only
    rw [block, Nat.sub_self, List.replicate_zero, List.append_nil]
    obtain ⟨next, wrote, waits⟩ := seeder.peer.write_outgoing socketEq linked drained
      (Peer.extensionMessage (UInt8.ofInt utMetadataId)
        ((BeNode.dataDict chunk (wrap32 td.dataSize)).encode ++ td.chunkData content chunk))
    have sends
        : Peer.extensionMessage (UInt8.ofInt utMetadataId)
            ((BeNode.dataDict chunk (wrap32 td.dataSize)).encode ++ td.chunkData content chunk)
          ≠ [] := by
      apply List.ne_nil_of_length_pos
      rw [extensionMessage_length]
      exact Nat.add_pos_left (by decide) _
    rw [bind_of_ok wrote, bind_of_ok rfl, bind_of_ok rfl]
    dsimp only
    rw [waits, if_neg sends, asMessage_extension]
    rfl
  exact ⟨_, answered, inRange, extensionFrame_bytes⟩

/-- A valid answer is taken for its chunk. -/
theorem takeMetadata_valid (setting : AssemblableMetadata sha1 td disk content)
    (assembling : Assembling td content state) (valid : ValidMetadataReply td content chunk reply)
    {receiver : MetadataReceiver} (good : ∀ index, receiver.env.io index = .good)
    : ∃ next,
        (metadataTransfer sha1).take state reply receiver = .ok next
          ∧ Assembling td content next
          ∧ HasTaken chunk next
          ∧ ∀ other, HasTaken other state → HasTaken other next := by
  obtain ⟨inRange, sent⟩ := valid
  have fits := chunk_lt setting inRange
  have decoded :=
    (BeNode.data_encoded (show -2 ^ 63 ≤ (chunk : Int) by omega) (by omega) td.dataSize).decoded
      (td.chunkData content chunk)
  have piece
      : (BeNode.dataDict chunk (wrap32 td.dataSize)).dictLookupNum (ascii "piece") = chunk :=
    rfl
  have payload
      : reply.bytes.drop 6
        = (BeNode.dataDict chunk (wrap32 td.dataSize)).encode ++ td.chunkData content chunk := by
    rw [sent, extensionMessage_payload]
  have data
      : reply.bytes.drop (6 + (BeNode.dataDict chunk (wrap32 td.dataSize)).encode.length)
        = td.chunkData content chunk := by
    rw [← List.drop_drop, payload, List.drop_left]
  have long : ¬ reply.bytes.length < 6 := by
    rw [sent, extensionMessage_length]
    exact Nat.not_lt.mpr (Nat.le_add_right 6 _)
  obtain ⟨next, wrote, kept⟩ :=
    assembling.takeChunk setting.toAssemblable (.inl setting.table_none) inRange good
  refine ⟨next, ?_, kept⟩
  dsimp only [metadataTransfer]
  rw [handleMsgExtension_reply fits receiver.peer sent, bind_of_ok rfl]
  dsimp only
  rw [takeMetadata, if_neg long, payload, decoded]
  dsimp only
  rw [piece, wrap32_natCast fits, data]
  exact wrote

-----------------------------------------------------------------------------------------
-- Whole metadata downloads
-----------------------------------------------------------------------------------------

/-- A request is for a chunk, and sent to a peer whose extended handshake has come. -/
def AsksMetadata (td : TorrentData) (item : Nat × Peer) : Prop :=
  item.1 < td.chunkTotal ∧ item.2.utMetadata = utMetadataId

/-- The main loop can write its files. -/
def Writes (receiver : MetadataReceiver) : Prop := ∀ index, receiver.env.io index = .good

/-- The steps of a metadata download. -/
def MetadataAllowed (td : TorrentData) (content : Bytes)
    : RequestNetwork Download Message Message
      → RequestAction (Nat × Peer) Message MetadataSeeder Message MetadataReceiver
      → Prop :=
  RequestReply.Allowed (AsksMetadata td) (SeedsMetadata td content) Writes

theorem metadataTransfer_sound (setting : AssemblableMetadata sha1 td disk content)
    : (metadataTransfer sha1).Sound Prod.fst (AsksMetadata td) (SeedsMetadata td content) Writes
        (Assembling td content) (ValidMetadataRequest td) (ValidMetadataReply td content) HasTaken :=
  { asked := fun _ asks => askMetadata_valid setting asks.1 asks.2
    answered := fun valid seeds => answerMetadata_valid setting valid seeds
    taken := fun assembling valid good => takeMetadata_valid setting assembling valid good }

theorem metadataStart_consistent (setting : AssemblableMetadata sha1 td disk content)
    : RequestReply.Consistent (Assembling td content) (ValidMetadataRequest td)
        (ValidMetadataReply td content) (transferStart td disk) :=
  ⟨Assembling.start setting.toAssemblable, nofun, nofun⟩

/-- Metadata that fits one piece is decoded from its file. -/
theorem Assembling.readInfo_eq (setting : AssemblableMetadata sha1 td disk content)
    (assembling : Assembling td content state) (assembled : state.Assembled content)
    (onePiece : td.dataSize ≤ metadataPieceSize) {t : Torrent} {env : MetadataEnv}
    (metadata : t.torrentMetadata = state.td) (good : env.reads = fun _ _ => .good)
    (turns : 2 ≤ env.steps)
    : t.readInfo decodeInside state.disk env = .ok ((decodeInside content).map Prod.fst) := by
  obtain ⟨covers, pieceSize, dataSize, present⟩ :=
    assembling.hasContent setting.toAssemblable setting.file_nonempty assembled
  have nonempty : 0 < state.td.dataSize := by
    rw [dataSize]
    exact setting.nonempty
  have within : state.td.WithinPiece 0 state.td.dataSize env.write.stack := by
    rw [TorrentData.withinPiece_iff covers nonempty (Nat.zero_add _).le
        (by rw [Nat.zero_div]; decide),
      Nat.zero_mod, Nat.zero_add, pieceSize, setting.pieceSize, dataSize]
    exact onePiece
  have read := within.readData_eq covers nonempty nonempty (Nat.zero_add _).le present
    (by rw [setting.content_length, dataSize]) turns
  have all : slice content 0 state.td.dataSize = content := by
    rw [slice_zero, dataSize, ← setting.content_length, List.take_length]
  rw [all] at read
  rw [Torrent.readInfo, metadata, good, bind_of_ok read]

/-- The metadata of a fresh `torrent_new`. -/
def freshMetadata (rootPath : CString) : TorrentData :=
  { TorrentData.new rootPath with needed := true }

theorem initialisedWith_needed (before : TorrentData) (dataSize : Nat)
    : TorrentData.initialisedWith { before with needed := true } dataSize
      = { before.initialisedWith dataSize with needed := true } := by
  simp only [TorrentData.initialisedWith]

theorem withMetadataFile_needed (rootPath : CString) (size : Int)
    : (freshMetadata rootPath).withMetadataFile size
      = { (TorrentData.new rootPath).withMetadataFile size with needed := true } :=
  rfl

/-- A size that a peer announced leaves metadata that can be assembled. -/
theorem announced_assemblable {rootPath : CString} (nonempty : content ≠ [])
    (small : content.length < 2 ^ 31) (absent : disk (rootPath ++ metadataPath) = none)
    (announced : (freshMetadata rootPath).initialiseMetadata content.length = .ok td)
    : AssemblableMetadata sha1 td disk content := by
  have positive : 0 < content.length := List.length_pos_iff.mpr nonempty
  have size : u64OfInt (content.length : Int) = content.length := u64OfInt_natCast (by omega)
  let before := (TorrentData.new rootPath).withMetadataFile content.length
  have configured : TorrentData.Configured before :=
    .addFile (.setChunkSize (.setPieceSize (.new rootPath) (by decide)) (by decide))
      (by rw [size]; omega)
  have set
      : before.setDataSize content.length
        = .ok (.success, before.initialisedWith content.length) := by
    refine TorrentData.setDataSize_of_fits rfl (show metadataChunkSize ≠ 0 by decide)
      (show metadataPieceSize ≠ 0 by decide) ?_
    have counted :=
      (TorrentData.withMetadataFile_counts (TorrentData.new rootPath) content.length).1
    rw [size, u64_of_lt (by omega), wrap32_natCast (by omega)] at counted
    rw [counted, u64OfInt_natCast (by omega)]
    omega
  have same : td = { before.initialisedWith content.length with needed := true } := by
    have untouched : (freshMetadata rootPath).initialized = false := rfl
    rw [TorrentData.initialiseMetadata, untouched, if_neg Bool.false_ne_true] at announced
    obtain ⟨⟨exit, sized⟩, set, same⟩ := bind_eq_ok.mp announced
    cases same
    rcases TorrentData.setDataSize_cases set with ⟨already | noChunks, _⟩ | ⟨_, _, _, _, rfl⟩
    · cases already
    · exact absurd noChunks (show metadataChunkSize ≠ 0 by decide)
    · show ((freshMetadata rootPath).withMetadataFile content.length).initialisedWith
          (u64OfInt content.length)
        = _
      rw [withMetadataFile_needed, initialisedWith_needed, size]
  have files
      : td.files
        = [{
            fp := none
            filePath := rootPath ++ metadataPath
            fileOffset := 0
            fileSize := content.length
          }] := by
    rw [← size, same]
    rfl
  have dataSize : td.dataSize = content.length := by rw [same]; rfl
  have chunkSize : td.chunkSize = metadataChunkSize := by rw [same]; rfl
  have pieceSize : td.pieceSize = metadataPieceSize := by rw [same]; rfl
  exact
    {
      started := ⟨before, content.length, _, true, configured, by omega, set, same⟩
      divides := by rw [chunkSize, pieceSize]; decide
      pieceSize_lt := by rw [pieceSize]; decide
      chunks_lt := by
        rw [chunkSize, dataSize, metadataChunkSize]
        omega
      content_length := dataSize.symm
      nonempty := by rw [dataSize]; exact positive
      total := by rw [files, dataSize]; simp [totalSize]
      distinct := by rw [files]; simp
      absent := by
        rw [files]
        intro file member
        rw [List.mem_singleton.mp member]
        exact absent
      table := .inl (by rw [same]; rfl)
      chunkSize
      pieceSize
      small := by rw [dataSize]; exact small
      table_none := by rw [same]; rfl
      file := ⟨rootPath ++ metadataPath, by rw [files, dataSize]⟩
    }

variable {rootPath : CString}
  {actions : List (RequestAction (Nat × Peer) Message MetadataSeeder Message MetadataReceiver)}

/-- Every run returns with valid messages, and has everything once it took an answer for every
chunk.
-/
theorem metadata_run (setting : AssemblableMetadata sha1 td disk content)
    (allowed
      : Guarded (metadataTransfer sha1).step (MetadataAllowed td content) (transferStart td disk)
          actions)
    : ∃ final,
        runSteps (metadataTransfer sha1).step (transferStart td disk) actions = .ok final
          ∧ RequestReply.Consistent (Assembling td content) (ValidMetadataRequest td)
              (ValidMetadataReply td content) final
          ∧ ((∀ chunk < td.chunkTotal,
                RequestReply.TakenIn (ValidMetadataReply td content) actions chunk)
            → final.asker.Assembled content) := by
  obtain ⟨final, ran, consistent, does, _⟩ :=
    (metadataTransfer_sound setting).run (metadataStart_consistent setting) allowed
  exact ⟨final, ran, consistent, fun all =>
    consistent.asker.assembled_of_taken setting.toAssemblable fun chunk inRange =>
      does chunk (all chunk inRange)⟩

/-- Between instances of the program the metadata of an announced size arrives whatever the order of
the messages: each message that was sent asks for a chunk or carries its content, and once an answer
for every chunk was processed the metadata is complete. When it fits one piece,
`torrent_process_metadata_piece` decodes it from its file to what the bytes decode to.
-/
theorem metadata_understood (nonempty : content ≠ []) (small : content.length < 2 ^ 31)
    (absent : disk (rootPath ++ metadataPath) = none)
    (announced : (freshMetadata rootPath).initialiseMetadata content.length = .ok td)
    (allowed
      : Guarded (metadataTransfer sha1).step (MetadataAllowed td content) (transferStart td disk)
          actions)
    : ∃ final,
        runSteps (metadataTransfer sha1).step (transferStart td disk) actions = .ok final
          ∧ (∀ request ∈ final.requests, ∃ chunk, ValidMetadataRequest td chunk request)
          ∧ (∀ reply ∈ final.replies, ∃ chunk, ValidMetadataReply td content chunk reply)
          ∧ ((∀ chunk < td.chunkTotal,
                RequestReply.TakenIn (ValidMetadataReply td content) actions chunk)
              → final.asker.Assembled content
                ∧ (content.length ≤ metadataPieceSize
                  → ∀ {t : Torrent} {env : MetadataEnv},
                      t.torrentMetadata = final.asker.td
                      → env.reads = (fun _ _ => .good)
                      → 2 ≤ env.steps
                      → t.readInfo decodeInside final.asker.disk env
                        = .ok ((decodeInside content).map Prod.fst))) := by
  have setting : AssemblableMetadata sha1 td disk content :=
    announced_assemblable nonempty small absent announced
  obtain ⟨final, ran, ⟨assembling, requests, replies⟩, complete⟩ := metadata_run setting allowed
  refine ⟨final, ran, requests, replies, fun all => ⟨complete all, ?_⟩⟩
  intro onePiece _ _ metadata reads turns
  rw [setting.content_length] at onePiece
  exact assembling.readInfo_eq setting (complete all) onePiece metadata reads turns

/-- An instance with the complete metadata can be asked in its turn. -/
theorem Assembling.seedsMetadata (setting : AssemblableMetadata sha1 td disk content)
    (assembling : Assembling td content state) (assembled : state.Assembled content)
    {reader : MetadataReader} (told : reader.peer.utMetadata = utMetadataId)
    (linked
      : ∃ socket nodes,
          reader.peer.socket = some socket ∧ socket.Linked nodes ∧ socket.pending = [])
    (turns : 2 ≤ reader.steps)
    : SeedsMetadata td content
        { reader with torrentMetadata := state.td, disk := state.disk } :=
  { has := assembling.hasContent setting.toAssemblable setting.file_nonempty assembled
    chunkSize := assembling.same.chunkSize
    complete := assembled.complete
    told
    linked
    turns }

/-- Metadata spreads: an instance that processed an answer for every chunk answers the requests of
others, each with the content of its chunk.
-/
theorem metadata_serves (nonempty : content ≠ []) (small : content.length < 2 ^ 31)
    (absent : disk (rootPath ++ metadataPath) = none)
    (announced : (freshMetadata rootPath).initialiseMetadata content.length = .ok td)
    (allowed
      : Guarded (metadataTransfer sha1).step (MetadataAllowed td content) (transferStart td disk)
          actions)
    (all
      : ∀ chunk < td.chunkTotal,
          RequestReply.TakenIn (ValidMetadataReply td content) actions chunk)
    : ∃ final,
        runSteps (metadataTransfer sha1).step (transferStart td disk) actions = .ok final
          ∧ ∀ {chunk : Nat} {request : Message} {reader : MetadataReader},
              ValidMetadataRequest td chunk request
              → reader.peer.utMetadata = utMetadataId
              → (∃ socket nodes,
                  reader.peer.socket = some socket ∧ socket.Linked nodes ∧ socket.pending = [])
              → 2 ≤ reader.steps
              → ∃ reply,
                  (metadataTransfer sha1).answer request
                      {
                        reader with
                        torrentMetadata := final.asker.td
                        disk := final.asker.disk
                      }
                    = .ok (some reply)
                  ∧ ValidMetadataReply td content chunk reply := by
  have setting : AssemblableMetadata sha1 td disk content :=
    announced_assemblable nonempty small absent announced
  obtain ⟨final, ran, consistent, complete⟩ := metadata_run setting allowed
  refine ⟨final, ran, fun valid told linked turns => answerMetadata_valid setting valid ?_⟩
  exact consistent.asker.seedsMetadata setting (complete all) told linked turns

/-- The shortest metadata that decodes to a dictionary. -/
def emptyDictionary : Bytes := [100, 101]

theorem emptyDictionary_announced
    : ∃ td,
        (freshMetadata [46]).initialiseMetadata emptyDictionary.length = .ok td
          ∧ AssemblableMetadata zeroDigest td (fun _ => none) emptyDictionary := by
  obtain ⟨td, announced⟩ :=
    @TorrentData.initialiseMetadata_returns (freshMetadata [46]) emptyDictionary.length rfl
      (by decide) (by decide)
  exact ⟨td, announced, announced_assemblable (by decide) (by decide) rfl announced⟩

/-- A connection that has had its extended handshake. -/
def toldPeer : Peer :=
  { Peer.new 0 with socket := some onePieceSocket, utMetadata := utMetadataId }

/-- An instance that was told that its one piece of metadata is complete. -/
def toldSeeder (td : TorrentData) : MetadataSeeder :=
  {
    peer := toldPeer
    stack := zeroStack
    steps := 2
    now := 0
    torrentMetadata := { td with completedPieces := 1 }
    disk := fun _ => some emptyDictionary
  }

theorem toldSeeder_seeds (setting : AssemblableMetadata zeroDigest td disk emptyDictionary)
    : SeedsMetadata td emptyDictionary (toldSeeder td) := by
  have covers := setting.started.filesCover setting.total setting.pieceSize_lt
  obtain ⟨filePath, files⟩ := setting.file
  have pieceCount : td.pieceCount = 1 := by
    rw [setting.started.fresh.pieceCount, ← setting.content_length, setting.pieceSize]
    decide
  refine
    {
      has :=
        {
          covers := { covers with }
          pieceSize := rfl
          dataSize := rfl
          present := ?_
        }
      chunkSize := rfl
      complete := by
        show TorrentData.isComplete { td with completedPieces := 1 } = true
        simp [TorrentData.isComplete, pieceCount]
      told := rfl
      linked := ⟨onePieceSocket, [], rfl, ⟨by decide, rfl, nofun⟩, rfl⟩
      turns := le_refl 2
    }
  intro file member
  have only : file ∈ td.files := member
  rw [files, ← setting.content_length] at only
  rw [List.mem_singleton.mp only]
  exact ⟨emptyDictionary, rfl, by decide, rfl⟩

theorem emptyDictionary_chunks (setting : AssemblableMetadata zeroDigest td disk emptyDictionary)
    : td.chunkTotal = 1 := by
  rw [setting.exactCounts.chunks, ← setting.content_length, setting.chunkSize]
  decide

/-- The one chunk of the empty dictionary can be asked for, answered and taken. -/
theorem emptyDictionary_taken (setting : AssemblableMetadata zeroDigest td disk emptyDictionary)
    : ∃ actions,
        Guarded (metadataTransfer zeroDigest).step (MetadataAllowed td emptyDictionary)
            (transferStart td disk) actions
          ∧ ∀ chunk < td.chunkTotal,
              RequestReply.TakenIn (ValidMetadataReply td emptyDictionary) actions chunk := by
  have chunks := emptyDictionary_chunks setting
  have asked : ∀ item ∈ [(0, toldPeer)], AsksMetadata td item := by
    intro item member
    rw [List.mem_singleton.mp member]
    exact ⟨by rw [chunks]; exact Nat.zero_lt_one, rfl⟩
  let receiver : MetadataReceiver :=
    { (toldSeeder td).toMetadataReader with env := { io := fun _ => .good, stack := zeroStack } }
  have good : Writes receiver := fun _ => rfl
  obtain ⟨actions, _, guarded, _, taken⟩ :=
    (metadataTransfer_sound setting).completes (metadataStart_consistent setting) asked
      (toldSeeder_seeds setting) good
  refine ⟨actions, guarded, fun chunk inRange => ?_⟩
  rw [chunks, Nat.lt_one_iff] at inRange
  rw [inRange]
  exact taken (0, toldPeer) (List.mem_singleton_self _)

/-- After the one answer the metadata is the empty dictionary. -/
theorem metadata_understood_dictionary
    : ∃ td,
        ∃ actions : List
            (RequestAction (Nat × Peer) Message MetadataSeeder Message MetadataReceiver),
          ∃ final,
            runSteps (metadataTransfer zeroDigest).step (transferStart td (fun _ => none)) actions
                = .ok final
              ∧ ∀ {t : Torrent} {env : MetadataEnv},
                  t.torrentMetadata = final.asker.td
                  → env.reads = (fun _ _ => .good)
                  → 2 ≤ env.steps
                  → t.readInfo decodeInside final.asker.disk env = .ok (some (.dict [])) := by
  obtain ⟨td, announced, setting⟩ := emptyDictionary_announced
  obtain ⟨actions, guarded, all⟩ := emptyDictionary_taken setting
  obtain ⟨final, ran, _, _, understood⟩ :=
    metadata_understood (by decide) (by decide) rfl announced guarded
  exact ⟨td, actions, final, ran, fun metadata reads turns =>
    (understood all).2 (by decide) metadata reads turns⟩

def zeroRequest : Message :=
  extensionFrame (UInt8.ofInt utMetadataId) (BeNode.requestDict 0).encode (by decide +kernel)

/-- Then the asker hands the empty dictionary on, behind the dictionary of its answer. -/
theorem metadata_serves_dictionary
    : ∃ td actions final reply,
        runSteps (metadataTransfer zeroDigest).step (transferStart td (fun _ => none)) actions
            = .ok final
          ∧ (metadataTransfer zeroDigest).answer zeroRequest
                { toldSeeder td with torrentMetadata := final.asker.td, disk := final.asker.disk }
              = .ok (some reply)
          ∧ reply.bytes
            = Peer.extensionMessage (UInt8.ofInt utMetadataId)
                ((BeNode.dataDict 0 2).encode ++ emptyDictionary) := by
  obtain ⟨td, announced, setting⟩ := emptyDictionary_announced
  obtain ⟨actions, guarded, all⟩ := emptyDictionary_taken setting
  obtain ⟨final, ran, serves⟩ :=
    metadata_serves (by decide) (by decide) rfl announced guarded all
  have inRange : 0 < td.chunkTotal := by
    rw [emptyDictionary_chunks setting]
    exact Nat.zero_lt_one
  have seeds := toldSeeder_seeds setting
  obtain ⟨reply, answered, _, bytes⟩ :=
    serves ⟨inRange, extensionFrame_bytes⟩ seeds.told seeds.linked seeds.turns
  have size : td.dataSize = 2 := setting.content_length.symm
  have only : td.chunkData emptyDictionary 0 = emptyDictionary := by
    rw [TorrentData.chunkData, TorrentData.chunkLength, setting.chunkSize, size]
    decide
  rw [size, only] at bytes
  exact ⟨td, actions, final, reply, ran, answered, bytes⟩

end Download

end UvgTorrent
