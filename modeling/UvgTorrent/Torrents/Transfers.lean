import UvgTorrent.Downloads.Assembly
import UvgTorrent.Foundations.RequestReplies
import UvgTorrent.Peers.Serving
import UvgTorrent.Sockets.StreamIntegrity
import UvgTorrent.TorrentData.RangeContents

/-! A download from other instances of the program: the requests of `peer_send_msg_request`, the
answers of `peer_handle_msg_request` and their blocks in `torrent_process_data_chunk`, whatever the
order in which messages are sent, answered and processed.
-/

namespace UvgTorrent

open Foundations

/-- A message as `peer_read_message` hands it on. -/
def asMessage (bytes : Bytes) : Except Fault Message :=
  if framed : bytes.length = 4 + ofBe32 (bytes.take 4) then .ok ⟨bytes, framed⟩
  else .error .messageBounds

theorem asMessage_bytes (message : Message) : asMessage message.bytes = .ok message :=
  dif_pos message.framed

/-- An instance that is asked: the peer it has for the asker, and its data. The stack and the turns
of the loop are those of its answer.
-/
structure Seeder where
  peer : Peer
  torrentData : TorrentData
  disk : Disk
  stack : Stack
  steps : Nat

namespace Download

/-- The block of a PIECE message is taken; the log keeps the outcome. -/
def takePiece (sha1 : Bytes → Digest) (state : Download) (reply : Message) (env : WriteEnv)
    : Except Fault Download :=
  if reply.bytes.length < 13 then .error .messageBounds
  else
    (state.td.chunkIdOf reply.index reply.begin env.stack).bind fun chunkId =>
      state.write sha1 { chunkId, data := reply.block, env }

/-- The parties of a download: a request is sent for a chunk, and the files of all parties can be
read and written. The chunk of a request is free here: claims and the pending requests of a peer
allow fewer.
-/
def transfer (sha1 : Bytes → Digest)
    : RequestReply Fault Download (Nat × Stack) Message Seeder Message WriteEnv :=
  {
    ask := fun state (chunk, stack) => (state.td.requestMessage chunk stack).bind asMessage
    answer := fun request seeder =>
      (seeder.peer.handleMsgRequest seeder.torrentData seeder.disk request (fun _ _ => .good)
          seeder.stack seeder.steps).bind fun
        | (_, none) => .ok none
        | (_, some bytes) => (asMessage bytes).bind fun reply => .ok (some reply)
    take := takePiece sha1
  }

variable {sha1 : Bytes → Digest} {td : TorrentData} {disk disk' : Disk} {content : Bytes}
  {state : Download} {request reply : Message} {seeder : Seeder}

/-- `torrent_process_data_chunk` does the same to the struct and the disk. -/
theorem takePiece_processPiece (env : WriteEnv)
    : (state.takePiece sha1 reply env).map (fun next => (next.td, next.disk))
      = (state.td.processPiece sha1 state.disk reply env).map fun result =>
          (result.td, result.disk) := by
  rw [takePiece, TorrentData.processPiece]
  split
  · rfl
  cases state.td.chunkIdOf reply.index reply.begin env.stack with
  | error fault => rfl
  | ok chunkId =>
      simp only [write, Except.bind]
      cases state.td.writeChunk sha1 state.disk chunkId reply.block env <;> rfl

-----------------------------------------------------------------------------------------
-- The messages of a download
-----------------------------------------------------------------------------------------

/-- The index and the begin are those of a chunk. -/
structure PlacedAt (td : TorrentData) (message : Message) (chunk : Nat) : Prop where
  inRange : chunk < td.chunkTotal
  index : message.index = td.pieceOf chunk
  begin : message.begin = td.offsetInPiece chunk

/-- A request for a chunk. -/
structure ValidRequest (td : TorrentData) (chunk : Nat) (request : Message) : Prop where
  placed : PlacedAt td request chunk
  length : request.bytes.length = 17
  asked : requestedLength request.bytes = td.chunkLength chunk

/-- A block with the content of a chunk. -/
structure ValidReply (td : TorrentData) (content : Bytes) (chunk : Nat) (reply : Message)
    : Prop where
  placed : PlacedAt td reply chunk
  long : 13 ≤ reply.bytes.length
  block : reply.block = td.chunkData content chunk

/-- A chunk was handed to `torrent_data_write_chunk`. -/
def HasTaken (chunk : Nat) (state : Download) : Prop :=
  (chunk : Int) ∈ state.log.map (·.chunkId)

/-- The whole content is in the files, under the same sizes. -/
structure HasContent (td : TorrentData) (content : Bytes) (held : TorrentData) (disk : Disk)
    : Prop where
  covers : held.FilesCover
  pieceSize : held.pieceSize = td.pieceSize
  dataSize : held.dataSize = td.dataSize
  present : FullyPresent held.files disk content

/-- The instance has the content, and its connection takes what is written. -/
structure Seeds (td : TorrentData) (content : Bytes) (seeder : Seeder) : Prop where
  has : HasContent td content seeder.torrentData seeder.disk
  linked : ∃ socket nodes, seeder.peer.socket = some socket ∧ socket.Linked nodes
  turns : 2 ≤ seeder.steps

end Download

namespace TorrentData

variable {td : TorrentData} {disk : Disk} {content : Bytes} {offset length : Nat} {stack : Stack}

/-- Two turns are enough for a range inside one piece: the first one copies all of it. -/
theorem WithinPiece.readData_eq (within : td.WithinPiece offset length stack)
    (covers : td.FilesCover) (nonempty : 0 < td.dataSize) (unread : 0 < length)
    (inside : offset + length ≤ td.dataSize) (present : FullyPresent td.files disk content)
    (sized : content.length = td.dataSize) {steps : Nat} (enough : 2 ≤ steps)
    : td.readData (fun _ _ => .good) disk offset length stack steps
      = .ok (.success, slice content offset length) := by
  obtain ⟨turns, read⟩ := within.readsSlice covers nonempty unread inside present sized
  have size_lt := covers.pieceSize_lt
  have fits := covers.dataSize_lt
  have size_le := (covers.readInfo_inside nonempty offset stack).2.1
  have inPiece := within.inside
  have unreadYet : ([] : Bytes).length < length := unread
  have all
      : copyCount (td.readInfo offset stack).pieceSize (td.readStart offset stack) length
        = length := by
    rw [copyCount_of_le (by omega) (by omega) (by omega)]
    omega
  obtain ⟨turns, rfl⟩ : ∃ more, turns = more + 1 := by
    cases turns with
    | zero => cases read
    | succ more => exact ⟨more, rfl⟩
  obtain ⟨steps, rfl⟩ : ∃ more, steps = more + 2 := ⟨steps - 2, by omega⟩
  rw [readData, readLoop_succ, if_neg (Nat.not_le.mpr unreadYet)] at read ⊢
  obtain ⟨taken, turned, read⟩ := bind_eq_ok.mp read
  rw [bind_of_ok turned]
  cases taken with
  | none => cases read
  | some next =>
      have copied := readTurn_length covers.pieceSize_pos unreadYet (by omega) turned
      rw [List.length_nil, Nat.sub_zero, all, Nat.zero_add] at copied
      have done : length ≤ next.length := copied.ge
      cases turns with
      | zero => cases read
      | succ turns =>
          dsimp only at read ⊢
          rw [readLoop_succ, if_pos done] at read ⊢
          exact read

theorem flatten_length_le {files : List TorrentDataFileInfo} (within : WithinSizes files disk)
    : (files.map (fileContent disk)).flatten.length ≤ totalSize files := by
  induction files with
  | nil => exact Nat.zero_le _
  | cons file rest ih =>
      have first := within file List.mem_cons_self
      have others := ih fun other member => within other (List.mem_cons_of_mem file member)
      rw [List.map_cons, List.flatten_cons, List.length_append, totalSize, List.map_cons,
        List.sum_cons]
      exact Nat.add_le_add first others

/-- Files that are not longer than they should be, and hold the content together, hold their parts
of it. Induction on the files.
-/
theorem fullyPresent_of_flatten {files : List TorrentDataFileInfo} {start : Nat}
    (laid : LaidOut start files) (within : WithinSizes files disk)
    (nonempty : ∀ file ∈ files, 0 < file.fileSize) (content_lt : content.length < 2 ^ 63)
    (sized : content.length = start + totalSize files)
    (whole : (files.map (fileContent disk)).flatten = content.drop start)
    : FullyPresent files disk content := by
  induction files generalizing start with
  | nil => exact nofun
  | cons file rest ih =>
      obtain ⟨offset, laidRest⟩ := laid
      have withinRest : WithinSizes rest disk := fun other member =>
        within other (List.mem_cons_of_mem file member)
      have size : totalSize (file :: rest) = file.fileSize + totalSize rest := rfl
      have short := within file List.mem_cons_self
      have positive := nonempty file List.mem_cons_self
      have shortRest := flatten_length_le withinRest
      rw [List.map_cons, List.flatten_cons] at whole
      have lengths := congrArg List.length whole
      rw [List.length_append, List.length_drop] at lengths
      -- no part is short, since together they are not
      have full : (fileContent disk file).length = file.fileSize := by omega
      have part : fileContent disk file = slice content start file.fileSize := by
        rw [slice, ← whole, List.take_left' full]
      have others
          : (rest.map (fileContent disk)).flatten = content.drop (start + file.fileSize) := by
        rw [← List.drop_drop, ← whole, List.drop_left' full]
      intro other member
      rcases List.mem_cons.mp member with rfl | member
      · rw [fileContent] at part full
        cases found : disk other.filePath with
        | none =>
            rw [found, Option.getD_none, List.length_nil] at full
            omega
        | some bytes =>
            rw [found, Option.getD_some] at part full
            refine ⟨bytes, rfl, by omega, ?_⟩
            rw [offset, ← part, List.take_of_length_le full.le]
      · exact ih laidRest withinRest
          (fun other member => nonempty other (List.mem_cons_of_mem file member))
          (by omega) others other member

theorem SameSetup.offsetInPiece {next : TorrentData} (same : td.SameSetup next)
    : next.offsetInPiece = td.offsetInPiece := by
  funext chunk
  rw [TorrentData.offsetInPiece, TorrentData.offsetInPiece, same.chunkSize, same.pieceSize,
    same.pieceOf]

end TorrentData

namespace Download

variable {sha1 : Bytes → Digest} {td : TorrentData} {disk disk' : Disk} {content : Bytes}
  {state : Download} {request reply : Message} {seeder : Seeder}

-----------------------------------------------------------------------------------------
-- What each party does
-----------------------------------------------------------------------------------------

namespace Assemblable

variable (setting : Assemblable sha1 td disk content) {chunk : Nat}

include setting

theorem offsetFits (chunk : Nat) : td.offsetInPiece chunk < 2 ^ 31 :=
  (td.offsetInPiece_lt setting.initialised.pieceSize_pos chunk).trans setting.pieceSize_lt

theorem chunkLength_lt (chunk : Nat) : td.chunkLength chunk < 2 ^ 31 := by
  have smaller : 8 * td.chunkSize ≤ td.pieceSize :=
    Nat.le_of_dvd setting.initialised.pieceSize_pos setting.divides
  have pieceSize_lt := setting.pieceSize_lt
  rw [TorrentData.chunkLength]
  omega

/-- A chunk that starts inside the data has bytes, and they end inside the data. -/
theorem chunk_inside (inRange : chunk < td.chunkTotal)
    : 0 < td.chunkLength chunk ∧ td.chunkSize * chunk + td.chunkLength chunk ≤ td.dataSize := by
  have start := setting.initialised.chunkStart_lt chunk inRange
  have positive := setting.initialised.chunkSize_pos
  rw [TorrentData.chunkLength]
  omega

/-- No chunk goes past the end of the piece it starts in. -/
theorem chunk_in_piece (chunk : Nat)
    : td.chunkSize * chunk % td.pieceSize + td.chunkLength chunk ≤ td.pieceSize := by
  obtain ⟨count, multiple⟩ := setting.divides
  have positive := setting.initialised.pieceSize_pos
  have size : td.pieceSize = td.chunkSize * (8 * count) := by
    rw [multiple]
    ring
  have left : chunk % (8 * count) < 8 * count := by
    apply Nat.mod_lt
    apply Nat.pos_of_ne_zero
    intro none
    rw [size, none, Nat.mul_zero] at positive
    cases positive
  have short : td.chunkLength chunk ≤ td.chunkSize := Nat.min_le_left ..
  rw [size, Nat.mul_mod_mul_left]
  calc td.chunkSize * (chunk % (8 * count)) + td.chunkLength chunk
      ≤ td.chunkSize * (chunk % (8 * count)) + td.chunkSize := Nat.add_le_add_left short _
    _ = td.chunkSize * (chunk % (8 * count) + 1) := by ring
    _ ≤ td.chunkSize * (8 * count) := Nat.mul_le_mul_left _ left

end Assemblable

/-- The request for a chunk is valid. -/
theorem ask_valid (setting : Assemblable sha1 td disk content)
    (assembling : Assembling td content state) {chunk : Nat} (inRange : chunk < td.chunkTotal)
    (stack : Stack)
    : ∃ request,
        (transfer sha1).ask state (chunk, stack) = .ok request
          ∧ ValidRequest td chunk request := by
  have same := assembling.same
  have offsetFits := setting.offsetFits chunk
  have lengthFits := setting.chunkLength_lt chunk
  have indexFits := setting.initialised.pieceOf_fits chunk inRange
  have encoded := assembling.ready.requestMessage_eq (by rw [same.chunkTotal]; exact inRange)
    (by rw [same.offsetInPiece]; omega) stack
  have cut : u32 (td.chunkLength chunk) = td.chunkLength chunk := Nat.mod_eq_of_lt (by omega)
  rw [same.pieceOf, same.offsetInPiece, same.chunkLength, cut] at encoded
  obtain ⟨index, begin, length⟩ :=
    request_fields (td.pieceOf chunk) (td.offsetInPiece chunk) (td.chunkLength chunk)
  have framed (rest : Bytes) (sized : rest.length = 13)
      : (be32 13 ++ rest).length = 4 + ofBe32 ((be32 13 ++ rest).take 4) := by
    rw [List.take_left' (be32_length 13), ofBe32_be32 (by norm_num), List.length_append, sized,
      be32_length]
  let request : Message :=
    ⟨be32 13 ++ [6] ++ be32 (td.pieceOf chunk) ++ be32 (td.offsetInPiece chunk)
      ++ be32 (td.chunkLength chunk), by
        rw [List.append_assoc, List.append_assoc, List.append_assoc]
        exact framed _ (by simp)⟩
  refine ⟨request, (bind_of_ok encoded _).trans (asMessage_bytes request), ?_, rfl, ?_⟩
  · refine ⟨inRange, ?_, ?_⟩
    · rw [Message.index, index, ofBe32_be32 (by omega)]
    · rw [Message.begin, begin, ofBe32_be32 (by omega)]
  · rw [requestedLength, length, ofBe32_be32 (by omega)]

/-- A chunk is read whole. -/
theorem HasContent.readChunk {held : TorrentData} (has : HasContent td content held disk')
    (setting : Assemblable sha1 td disk content) {chunk : Nat} (inRange : chunk < td.chunkTotal)
    (stack : Stack) {steps : Nat} (turns : 2 ≤ steps)
    : held.readData (fun _ _ => .good) disk' (td.chunkSize * chunk) (td.chunkLength chunk) stack
        steps
      = .ok (.success, td.chunkData content chunk) := by
  obtain ⟨covers, pieceSize, dataSize, present⟩ := has
  obtain ⟨unread, inside⟩ := setting.chunk_inside inRange
  have within
      : held.WithinPiece (td.chunkSize * chunk) (td.chunkLength chunk) stack := by
    rw [TorrentData.withinPiece_iff covers unread (by rw [dataSize]; exact inside)
      (by rw [pieceSize]; exact setting.initialised.pieceOf_fits chunk inRange), pieceSize]
    exact setting.chunk_in_piece chunk
  exact within.readData_eq covers (by rw [dataSize]; exact setting.nonempty) unread
    (by rw [dataSize]; exact inside) present (by rw [dataSize]; exact setting.content_length) turns

theorem chunkData_length (setting : Assemblable sha1 td disk content) {chunk : Nat}
    (inRange : chunk < td.chunkTotal)
    : (td.chunkData content chunk).length = td.chunkLength chunk := by
  obtain ⟨_, inside⟩ := setting.chunk_inside inRange
  exact slice_length_of_le (by rw [setting.content_length]; exact inside)

/-- The data of a chunk is written for it. -/
theorem Assembling.takeChunk (setting : Assemblable sha1 td disk content)
    (reachable : td.HashesReachable) (assembling : Assembling td content state) {chunk : Nat}
    (inRange : chunk < td.chunkTotal) {env : WriteEnv} (good : ∀ index, env.io index = .good)
    : ∃ next,
        state.write sha1 { chunkId := chunk, data := td.chunkData content chunk, env } = .ok next
          ∧ Assembling td content next
          ∧ HasTaken chunk next
          ∧ ∀ other, HasTaken other state → HasTaken other next := by
  have delivers
      : Delivers td content { chunkId := chunk, data := td.chunkData content chunk, env } :=
    ⟨chunk, inRange, rfl, rfl, good⟩
  obtain ⟨next, wrote, kept⟩ := assembling.deliver setting reachable delivers
  have logged : next.log.map (·.chunkId) = (chunk : Int) :: state.log.map (·.chunkId) := by
    obtain ⟨result, _, same⟩ := bind_eq_ok.mp wrote
    cases same
    rfl
  refine ⟨next, wrote, kept, ?_, fun other before => ?_⟩
  · rw [HasTaken, logged]
    exact List.mem_cons_self
  · rw [HasTaken, logged]
    exact List.mem_cons_of_mem _ before

/-- An instance that has the content answers a valid request with the block of its chunk. -/
theorem answer_valid (setting : Assemblable sha1 td disk content) {chunk : Nat}
    (valid : ValidRequest td chunk request) (seeds : Seeds td content seeder)
    : ∃ reply,
        (transfer sha1).answer request seeder = .ok (some reply)
          ∧ ValidReply td content chunk reply := by
  obtain ⟨⟨inRange, index, begin⟩, long, asked⟩ := valid
  obtain ⟨has, ⟨socket, nodes, socketEq, linked⟩, turns⟩ := seeds
  have covers := has.covers
  have ready := setting.initialised
  have indexFits := ready.pieceOf_fits chunk inRange
  have lengthFits := setting.chunkLength_lt chunk
  obtain ⟨unread, inside⟩ := setting.chunk_inside inRange
  have start := td.offsetInPiece_add chunk
  have dataFits := ready.dataSize_lt
  -- the position of the request is that of the chunk
  have pieceTotal : seeder.torrentData.pieceTotal = td.pieceTotal := by
    rw [TorrentData.pieceTotal, TorrentData.pieceTotal, has.pieceSize, has.dataSize]
  have info := seeder.torrentData.getPieceInfo_inRange covers.pieceSize_pos covers.dataSize_lt
    (by rw [pieceTotal]; exact ready.pieceOf_lt inRange) indexFits seeder.stack.pieceInfo
  have offset
      : u64 ((seeder.torrentData.getPieceInfo (wrap32 request.index)
          seeder.stack.pieceInfo).2.pieceOffset + request.begin)
        = td.chunkSize * chunk := by
    rw [index, begin, wrap32_natCast indexFits, info]
    dsimp only
    rw [has.pieceSize, start, u64_of_lt (by omega)]
  have read := has.readChunk setting inRange seeder.stack turns
  have block := chunkData_length setting inRange
  obtain ⟨reply, bytes, replyIndex, replyBegin, replyBlock⟩ :=
    @pieceMessage_framed request.bytes (td.chunkData content chunk) (by omega) (by omega)
  obtain ⟨next, _, wrote, _, _⟩ :=
    linked.write (pieceMessage request.bytes (td.chunkData content chunk))
  have handed
      : seeder.peer.write (pieceMessage request.bytes (td.chunkData content chunk))
        = .ok
            ({ seeder.peer with socket := some next },
              (pieceMessage request.bytes (td.chunkData content chunk)).length) := by
    rw [Peer.write, socketEq]
    exact bind_of_ok wrote _
  refine ⟨reply, ?_, ⟨inRange, ?_, ?_⟩, ?_, replyBlock⟩
  · have answered
        : seeder.peer.handleMsgRequest seeder.torrentData seeder.disk request (fun _ _ => .good)
            seeder.stack seeder.steps
          = .ok ({ seeder.peer with socket := some next }, some reply.bytes) := by
      rw [Peer.handleMsgRequest, if_neg (by omega)]
      dsimp only
      rw [offset, asked, bind_of_ok read, block, Nat.sub_self, List.replicate_zero, List.append_nil,
        bind_of_ok handed, if_pos rfl, bytes]
    exact (bind_of_ok answered _).trans (bind_of_ok (asMessage_bytes reply) _)
  · rw [replyIndex, ← index]
    rfl
  · rw [replyBegin, ← begin]
    rfl
  · rw [bytes, pieceMessage_length (by omega)]
    omega

/-- A valid block is taken for its chunk. -/
theorem take_valid (setting : Assemblable sha1 td disk content) (reachable : td.HashesReachable)
    (assembling : Assembling td content state) {chunk : Nat}
    (valid : ValidReply td content chunk reply) {env : WriteEnv}
    (good : ∀ index, env.io index = .good)
    : ∃ next,
        (transfer sha1).take state reply env = .ok next
          ∧ Assembling td content next
          ∧ HasTaken chunk next
          ∧ ∀ other, HasTaken other state → HasTaken other next := by
  obtain ⟨⟨inRange, index, begin⟩, long, block⟩ := valid
  have same := assembling.same
  have indexFits := setting.initialised.pieceOf_fits chunk inRange
  have position
      : state.td.pieceSize * reply.index + reply.begin = state.td.chunkSize * chunk := by
    rw [same.pieceSize, same.chunkSize, index, begin, td.offsetInPiece_add]
  have named := assembling.ready.chunkIdOf_eq (by rw [same.chunkTotal]; exact inRange) position
    (by omega) env.stack
  obtain ⟨next, wrote, kept⟩ := assembling.takeChunk setting reachable inRange good
  refine ⟨next, ?_, kept⟩
  show state.takePiece sha1 reply env = _
  rw [takePiece, if_neg (by omega), bind_of_ok named, block]
  exact wrote

-----------------------------------------------------------------------------------------
-- Whole downloads
-----------------------------------------------------------------------------------------

/-- The steps of a download: requests for chunks of the torrent, answers of instances that have the
content, and file operations that succeed.
-/
def TransferAllowed (td : TorrentData) (content : Bytes)
    : RequestNetwork Download Message Message
      → RequestAction (Nat × Stack) Message Seeder Message WriteEnv
      → Prop :=
  RequestReply.Allowed (fun item => item.1 < td.chunkTotal) (Seeds td content)
    (fun env => ∀ index, env.io index = .good)

theorem transfer_sound (setting : Assemblable sha1 td disk content)
    (reachable : td.HashesReachable)
    : (transfer sha1).Sound Prod.fst (fun item => item.1 < td.chunkTotal) (Seeds td content)
        (fun env => ∀ index, env.io index = .good) (Assembling td content) (ValidRequest td)
        (ValidReply td content) HasTaken :=
  { asked := fun assembling inRange => ask_valid setting assembling inRange _
    answered := fun valid seeds => answer_valid setting valid seeds
    taken := fun assembling valid good => take_valid setting reachable assembling valid good }

/-- Nothing was sent yet. -/
def transferStart (td : TorrentData) (disk : Disk) : RequestNetwork Download Message Message :=
  { asker := start td disk, requests := [], replies := [] }

theorem transferStart_consistent (setting : Assemblable sha1 td disk content)
    : RequestReply.Consistent (Assembling td content) (ValidRequest td) (ValidReply td content)
        (transferStart td disk) :=
  ⟨Assembling.start setting, nofun, nofun⟩

/-- Every chunk that was taken is marked, so the content is there once all were taken. -/
theorem Assembling.assembled_of_taken (setting : Assemblable sha1 td disk content)
    (assembling : Assembling td content state)
    (all : ∀ chunk < td.chunkTotal, HasTaken chunk state)
    : state.Assembled content := by
  refine assembling.assembled setting (fun chunk below => ?_)
  rw [assembling.same.chunkTotal] at below
  obtain ⟨entry, inLog, named⟩ := List.mem_map.mp (all chunk below)
  have marked := assembling.marked entry inLog
  rwa [named, Int.toNat_natCast] at marked

/-- Every run returns, and has everything once it took a block of every chunk. -/
theorem transfer_run (setting : Assemblable sha1 td disk content) (reachable : td.HashesReachable)
    {actions : List (RequestAction (Nat × Stack) Message Seeder Message WriteEnv)}
    (allowed
      : Guarded (transfer sha1).step (TransferAllowed td content) (transferStart td disk) actions)
    : ∃ final,
        runSteps (transfer sha1).step (transferStart td disk) actions = .ok final
          ∧ Assembling td content final.asker
          ∧ ((∀ chunk < td.chunkTotal, RequestReply.TakenIn (ValidReply td content) actions chunk)
            → final.asker.Assembled content) := by
  obtain ⟨final, ran, consistent, does, _⟩ :=
    (transfer_sound setting reachable).run (transferStart_consistent setting) allowed
  exact ⟨final, ran, consistent.asker, fun all =>
    consistent.asker.assembled_of_taken setting fun chunk inRange => does chunk (all chunk inRange)⟩

/-- In whatever order the messages are sent, answered and processed, late, repeatedly or never, a
download ends in no fault, a piece whose chunks are all marked is in the files with its content, and
once a block of every chunk was processed the whole content is there.
-/
theorem transfer_assembles (setting : Assemblable sha1 td disk content)
    (reachable : td.HashesReachable)
    {actions : List (RequestAction (Nat × Stack) Message Seeder Message WriteEnv)}
    (allowed
      : Guarded (transfer sha1).step (TransferAllowed td content) (transferStart td disk) actions)
    : ∃ final,
        runSteps (transfer sha1).step (transferStart td disk) actions = .ok final
          ∧ (∀ piece < td.pieceTotal,
              final.asker.td.AllChunks piece
              → final.asker.td.PieceStored final.asker.disk piece (td.pieceData content piece))
          ∧ ((∀ chunk < td.chunkTotal, RequestReply.TakenIn (ValidReply td content) actions chunk)
            → final.asker.Assembled content) := by
  obtain ⟨final, ran, assembling, assembled⟩ := transfer_run setting reachable allowed
  exact
    ⟨final, ran, fun piece inRange whole => (assembling.stored piece inRange whole).1, assembled⟩

/-- One piece of eight one-byte chunks. -/
def onePiece : TorrentData := .ofSingleFile (some (List.replicate 20 0)) 8 8 1

def onePieceContent : Bytes := List.replicate 8 7

theorem onePiece_assemblable
    : Assemblable zeroDigest onePiece (fun _ => none) onePieceContent :=
  @uniform_assemblable 1 (by norm_num) (by norm_num)

def onePieceSocket : BufferedSocket := { BufferedSocket.new with socket := 3 }

/-- An instance that has the piece. -/
def onePieceSeeder : Seeder :=
  {
    peer := { Peer.new 0 with socket := some onePieceSocket }
    torrentData := onePiece
    disk := fun path => if path = [46, 47, 97] then some onePieceContent else none
    stack := zeroStack
    steps := 2
  }

theorem onePieceSeeder_seeds : Seeds onePiece onePieceContent onePieceSeeder := by
  obtain ⟨_, _, _, _, files⟩ := (@uniform_fits 1 (by norm_num)).fields
  refine
    {
      has :=
        {
          covers := onePiece_assemblable.started.filesCover onePiece_assemblable.total
            onePiece_assemblable.pieceSize_lt
          pieceSize := rfl
          dataSize := rfl
          present := fun file member => ?_
        }
      linked := ⟨onePieceSocket, [], rfl, by decide, rfl, nofun⟩
      turns := le_refl 2
    }
  obtain rfl := List.mem_singleton.mp (Eq.mp (congrArg (file ∈ ·) files) member)
  exact ⟨onePieceContent, rfl, by decide, by decide⟩

def thirdRequest : Message := ⟨[0, 0, 0, 13, 6, 0, 0, 0, 0, 0, 0, 0, 3, 0, 0, 0, 1], by decide⟩

def thirdBlock : Message := ⟨[0, 0, 0, 10, 7, 0, 0, 0, 0, 0, 0, 0, 3, 7], by decide⟩

theorem onePiece_asks
    : (transfer zeroDigest).ask (transferStart onePiece (fun _ => none)).asker (3, zeroStack)
      = .ok thirdRequest := by
  have returned
      : returnsWith ((transfer zeroDigest).ask (start onePiece (fun _ => none)) (3, zeroStack))
          (fun request => request.bytes == thirdRequest.bytes)
        = true := by
    decide +kernel
  obtain ⟨⟨bytes, framed⟩, asked, same⟩ := exists_ok_of_returnsWith returned
  obtain rfl := eq_of_beq same
  exact asked

theorem onePieceSeeder_answers
    : (transfer zeroDigest).answer thirdRequest onePieceSeeder = .ok (some thirdBlock) := by
  have returned
      : returnsWith ((transfer zeroDigest).answer thirdRequest onePieceSeeder)
          (fun reply => reply.map (·.bytes) == some thirdBlock.bytes)
        = true := by
    decide +kernel
  obtain ⟨reply, answered, same⟩ := exists_ok_of_returnsWith returned
  cases reply with
  | none => cases same
  | some reply =>
      obtain ⟨bytes, framed⟩ := reply
      obtain rfl := Option.some.inj (eq_of_beq same)
      exact answered

/-- The third chunk of the piece is asked for, and its block taken twice. -/
theorem transfer_assembles_third
    : ∃ final,
        runSteps (transfer zeroDigest).step (transferStart onePiece (fun _ => none))
            [
              .ask (3, zeroStack),
              .answer thirdRequest onePieceSeeder,
              .take thirdBlock { io := fun _ => .good, stack := zeroStack },
              .take thirdBlock { io := fun _ => .good, stack := zeroStack }
            ]
          = .ok final
        ∧ (∀ piece < onePiece.pieceTotal,
            final.asker.td.AllChunks piece
            → final.asker.td.PieceStored final.asker.disk piece
                (onePiece.pieceData onePieceContent piece)) := by
  refine (transfer_assembles onePiece_assemblable (.inr (by decide +kernel)) ?_).imp
    fun _ done => ⟨done.1, done.2.1⟩
  refine ⟨(by decide +kernel : 3 < onePiece.chunkTotal), fun _ stepped => ?_⟩
  cases (RequestReply.step_ask onePiece_asks).symm.trans stepped
  refine ⟨⟨List.mem_singleton_self _, onePieceSeeder_seeds⟩, fun _ stepped => ?_⟩
  cases (RequestReply.step_answer onePieceSeeder_answers).symm.trans stepped
  refine ⟨⟨List.mem_singleton_self _, fun _ => rfl⟩, fun _ stepped => ?_⟩
  simp only [RequestReply.step] at stepped
  obtain ⟨_, _, same⟩ := bind_eq_ok.mp stepped
  cases same
  exact ⟨⟨List.mem_singleton_self _, fun _ => rfl⟩, fun _ _ => trivial⟩

theorem Assembling.filesCover (setting : Assemblable sha1 td disk content)
    (assembling : Assembling td content state)
    : state.td.FilesCover := by
  have same := assembling.same
  have stored := same.stored setting.stored
  exact
    {
      laidOut := stored.laidOut
      total := stored.total
      dataSize_lt := stored.dataSize_lt.trans (by norm_num)
      pieceSize_pos := by rw [same.pieceSize]; exact setting.initialised.pieceSize_pos
      pieceSize_lt := by rw [same.pieceSize]; exact setting.pieceSize_lt
    }

/-- An instance whose download is complete has the content for others, if no file of the torrent is
empty.
-/
theorem Assembling.hasContent (setting : Assemblable sha1 td disk content)
    (nonempty : ∀ file ∈ td.files, 0 < file.fileSize) (assembling : Assembling td content state)
    (assembled : state.Assembled content)
    : HasContent td content state.td state.disk := by
  have same := assembling.same
  have stored := same.stored setting.stored
  refine
    {
      covers := assembling.filesCover setting
      pieceSize := same.pieceSize
      dataSize := same.dataSize
      present := TorrentData.fullyPresent_of_flatten stored.laidOut assembling.within ?_ ?_ ?_
        assembled.files
    }
  · intro other member
    have listed : other.layout ∈ td.files.map TorrentDataFileInfo.layout := by
      rw [← same.layout]
      exact List.mem_map_of_mem member
    obtain ⟨file, inFiles, layout⟩ := List.mem_map.mp listed
    simp only [TorrentDataFileInfo.layout, Prod.mk.injEq] at layout
    rw [← layout.2.2]
    exact nonempty file inFiles
  · rw [setting.content_length, ← same.dataSize]
    exact stored.dataSize_lt
  · rw [stored.total, same.dataSize, setting.content_length, Nat.zero_add]

/-- What was downloaded is handed on: an instance that processed a block of every chunk answers
every request for a chunk with its content, if no file of the torrent is empty.
-/
theorem transfer_serves (setting : Assemblable sha1 td disk content)
    (reachable : td.HashesReachable)
    {actions : List (RequestAction (Nat × Stack) Message Seeder Message WriteEnv)}
    (allowed
      : Guarded (transfer sha1).step (TransferAllowed td content) (transferStart td disk) actions)
    (nonempty : ∀ file ∈ td.files, 0 < file.fileSize)
    (all : ∀ chunk < td.chunkTotal, RequestReply.TakenIn (ValidReply td content) actions chunk)
    : ∃ final,
        runSteps (transfer sha1).step (transferStart td disk) actions = .ok final
          ∧ ∀ {chunk : Nat} {request : Message} {peer : Peer} {stack : Stack} {steps : Nat},
              ValidRequest td chunk request
              → (∃ socket nodes, peer.socket = some socket ∧ socket.Linked nodes)
              → 2 ≤ steps
              → ∃ reply,
                  (transfer sha1).answer request
                      {
                        peer
                        torrentData := final.asker.td
                        disk := final.asker.disk
                        stack
                        steps
                      }
                    = .ok (some reply)
                  ∧ ValidReply td content chunk reply := by
  obtain ⟨final, ran, assembling, complete⟩ := transfer_run setting reachable allowed
  have has : HasContent td content final.asker.td final.asker.disk :=
    assembling.hasContent setting nonempty (complete all)
  refine ⟨final, ran, fun valid linked turns => answer_valid setting valid ?_⟩
  exact
    { has
      linked
      turns }

/-- The asker of one piece, once it has all eight chunks, answers a request for the third one. -/
theorem transfer_serves_third
    : ∃ actions final reply,
        runSteps (transfer zeroDigest).step (transferStart onePiece (fun _ => none)) actions
            = .ok final
          ∧ (transfer zeroDigest).answer thirdRequest
                {
                  onePieceSeeder with
                  torrentData := final.asker.td
                  disk := final.asker.disk
                }
              = .ok (some reply)
          ∧ reply.begin = 3
          ∧ reply.block = [7] := by
  have reachable : onePiece.HashesReachable := .inr (by decide +kernel)
  have asked : ∀ item ∈ (List.range 8).map (·, zeroStack), item.1 < onePiece.chunkTotal := by
    decide +kernel
  have good : ∀ index, ({ io := fun _ => .good, stack := zeroStack } : WriteEnv).io index = .good :=
    fun _ => rfl
  obtain ⟨actions, _, guarded, _, taken⟩ :=
    (transfer_sound onePiece_assemblable reachable).completes
      (transferStart_consistent onePiece_assemblable) asked onePieceSeeder_seeds good
  have all
      : ∀ chunk < onePiece.chunkTotal,
          RequestReply.TakenIn (ValidReply onePiece onePieceContent) actions chunk := by
    intro chunk inRange
    apply taken (chunk, zeroStack)
    exact List.mem_map.mpr ⟨chunk, List.mem_range.mpr inRange, rfl⟩
  have nonempty : ∀ file ∈ onePiece.files, 0 < file.fileSize := by decide +kernel
  obtain ⟨final, ran, serves⟩ :=
    transfer_serves onePiece_assemblable reachable guarded nonempty all
  have valid : ValidRequest onePiece 3 thirdRequest :=
    ⟨⟨by decide +kernel, by decide +kernel, by decide +kernel⟩, rfl, by decide +kernel⟩
  obtain ⟨reply, answered, ⟨_, _, begin⟩, _, block⟩ :=
    serves valid
      onePieceSeeder_seeds.linked (le_refl 2)
  exact ⟨actions, final, reply, ran, answered, begin.trans (by decide +kernel),
    block.trans (by decide +kernel)⟩

end Download

end UvgTorrent
