import UvgTorrent.Bencode.Nodes
import UvgTorrent.TorrentData.ChunkEffects
import UvgTorrent.TorrentData.RangeReading
import UvgTorrent.Torrents.DataMessages

/-! `torrent_process_metadata_piece`: a chunk of metadata is written, and once the metadata is
complete the torrent data is configured from it. `be_decode` is a parameter: it gives the decoded
value and the bytes it has read.
-/

namespace UvgTorrent

open Foundations

/-- `TORRENT_CHUNK_SIZE`. -/
def torrentChunkSize : Nat := 16384

/-- The loop over the components of a path: `none` when the path is refused as too long. The slashes
are not counted in what remains of the buffer, and the components must be strings.
-/
def joinPath : List BeNode → Nat → CString → Except Fault (Option CString)
  | [], _, path => .ok (some path)
  | .str bytes :: rest, remaining, path =>
      if remaining < bytes.length then .ok none
      else
        let path := path ++ [47] ++ BeNode.cstr bytes
        if 4096 ≤ path.length then .error .pathBounds
        else joinPath rest (remaining - bytes.length) path
  | _ :: _, _, _ => .error .nullPointer

namespace TorrentData

/-- `torrent_data_add_file` with its path buffer. -/
def addFilePath (td : TorrentData) (path : CString) (length : Nat) : Except Fault TorrentData :=
  if 4096 ≤ td.rootPath.length + path.length then .error .pathBounds
  else .ok (td.addFile path length)

/-- The loop over the files of a torrent with several files. The files before a refused path stay
added.
-/
def addFiles (td : TorrentData) : List BeNode → Except Fault (TorrentData × Exit)
  | [] => .ok (td, .success)
  | file :: rest =>
      match file.dictLookup (ascii "path") with
      | some (.list components) =>
          (joinPath components 4096 []).bind fun
            | none => .ok (td, .failure)
            | some path =>
                (td.addFilePath path (u64OfInt (file.dictLookupNum (ascii "length")))).bind
                  fun td => td.addFiles rest
      | _ => .error .nullPointer

/-- The files of the metadata: one file under the torrent's name, or a list of files. -/
def addMetadataFiles (td : TorrentData) (info : BeNode) : Except Fault (TorrentData × Exit) :=
  match info.dictLookup (ascii "files") with
  | none =>
      match info.dictLookupCstr (ascii "name") with
      | none => .error .nullPointer
      | some name =>
          let path := [47] ++ BeNode.cstr name
          if 4096 ≤ path.length then .error .pathBounds
          else
            (td.addFilePath path (u64OfInt (info.dictLookupNum (ascii "length")))).bind fun td =>
              .ok (td, .success)
  | some (.list files) => td.addFiles files
  | some _ => .error .nullPointer

/-- The part of `torrent_process_metadata_piece` behind the decoded metadata. The exit code of
`torrent_data_set_data_size` is ignored.
-/
def configure (td : TorrentData) (info : BeNode) : Except Fault (TorrentData × Exit) :=
  let td := td.setSha1Hashes ((info.dictLookupCstr (ascii "pieces")).getD [])
  (td.addMetadataFiles info).bind fun
    | (td, .failure) => .ok (td, .failure)
    | (td, .success) =>
        let pieceLength := u64OfInt (info.dictLookupNum (ascii "piece length"))
        let td := (td.setPieceSize pieceLength).setChunkSize torrentChunkSize
        (td.setDataSize td.filesSize).bind fun (_, td) => .ok ({ td with needed := true }, .success)

end TorrentData

/-- What one `torrent_process_metadata_piece` meets: the write of the chunk, and the reading of the
metadata with the turns that its loop may take.
-/
structure MetadataEnv where
  write : WriteEnv
  reads : Nat → Nat → ReadOutcome
  steps : Nat

namespace Torrent

/-- The metadata, read back and decoded; `none` when one of the two fails. -/
def readInfo (beDecode : BeDecode) (t : Torrent) (disk : Disk) (env : MetadataEnv)
    : Except Fault (Option BeNode) :=
  (t.torrentMetadata.readData env.reads disk 0 t.torrentMetadata.dataSize env.write.stack
      env.steps).bind fun
    | (.failure, _) => .ok none
    | (.success, buffer) => .ok ((beDecode buffer).map (·.1))

/-- The metadata is complete and the data is not needed: the guard of the configuration. -/
def readyToConfigure (t : Torrent) : Bool :=
  t.torrentMetadata.isComplete ∧ t.torrentData.needed = false

/-- The write of the chunk in `torrent_process_metadata_piece`; its exit code is ignored. `none`
when the message does not decode.
-/
def writeMetadata (beDecode : BeDecode) (sha1 : Bytes → Digest) (t : Torrent) (disk : Disk)
    (message : Message) (env : MetadataEnv)
    : Except Fault (Option (Torrent × Disk)) :=
  if message.bytes.length < 6 then .error .messageBounds
  else
    match beDecode (message.bytes.drop 6) with
    | none => .ok none
    | some (msg, msgSize) =>
        let piece := wrap32 (msg.dictLookupNum (ascii "piece"))
        (t.torrentMetadata.writeChunk sha1 disk piece (message.bytes.drop (6 + msgSize))
            env.write).bind fun result =>
          .ok (some ({ t with torrentMetadata := result.td }, result.disk))

/-- `torrent_process_metadata_piece`. -/
def processMetadataPiece (beDecode : BeDecode) (sha1 : Bytes → Digest) (t : Torrent) (disk : Disk)
    (message : Message) (env : MetadataEnv)
    : Except Fault (Torrent × Disk × Exit) :=
  (t.writeMetadata beDecode sha1 disk message env).bind fun
    | none => .ok (t, disk, .failure)
    | some (t, disk) =>
        if t.readyToConfigure then
          (t.readInfo beDecode disk env).bind fun
            | none => .ok (t, disk, .failure)
            | some info =>
                (t.torrentData.configure info).bind fun (td, exit) =>
                  .ok ({ t with torrentData := td }, disk, exit)
        else .ok (t, disk, .success)

end Torrent

/-- A message that the main loop takes from one of its two queues. -/
inductive QueuedMessage where
  | metadata (message : Message) (env : MetadataEnv)
  | data (message : Message) (env : WriteEnv)

/-- The torrent and the files on the disk, between two messages. -/
structure MainLoop where
  torrent : Torrent
  disk : Disk

namespace MainLoop

/-- The main loop processes one message. -/
def step (beDecode : BeDecode) (sha1 : Bytes → Digest) (s : MainLoop)
    : QueuedMessage → Except Fault MainLoop
  | .metadata message env =>
      (s.torrent.processMetadataPiece beDecode sha1 s.disk message env).bind
        fun (torrent, disk, _) => .ok { torrent, disk }
  | .data message env =>
      (s.torrent.processDataChunk sha1 s.disk message env).bind
        fun (torrent, disk, _) => .ok { torrent, disk }

end MainLoop

end UvgTorrent
