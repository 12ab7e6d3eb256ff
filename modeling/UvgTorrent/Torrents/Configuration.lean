import UvgTorrent.Bencode.Decoding
import UvgTorrent.Torrents.MetadataMessages
import UvgTorrent.Peers.MetadataRequests

/-! The torrent data is configured from the metadata once, as long as no message is parsed after the
first. The guard of the parse, `needed == 0`, holds before the configuration and after completion.
-/

namespace UvgTorrent

open Foundations

/-- The entries of the metadata for its files. Without a list the metadata itself describes its
only file.
-/
def BeNode.fileEntries (info : BeNode) : List BeNode :=
  match info.dictLookup (ascii "files") with
  | some (.list files) => files
  | _ => [info]

/-- The length that an entry gives its file. -/
def BeNode.fileLength (entry : BeNode) : Nat := u64OfInt (entry.dictLookupNum (ascii "length"))

namespace MainLoop

/-- The metadata that a message makes `torrent_process_metadata_piece` parse, if any. -/
def parsed (beDecode : BeDecode) (sha1 : Bytes → Digest) (s : MainLoop)
    : QueuedMessage → Option BeNode
  | .data _ _ => none
  | .metadata message env =>
      match s.torrent.writeMetadata beDecode sha1 s.disk message env with
      | .ok (some (t, disk)) =>
          if t.readyToConfigure then
            match t.readInfo beDecode disk env with
            | .ok info => info
            | .error _ => none
          else none
      | _ => none

/-- A message that is parsed finds no files and no initialised data. -/
def ParsesOnce (beDecode : BeDecode) (sha1 : Bytes → Digest) (s : MainLoop)
    (message : QueuedMessage)
    : Prop :=
  (s.parsed beDecode sha1 message).isSome
  → s.torrent.torrentData.files = [] ∧ s.torrent.torrentData.initialized = false

instance (beDecode : BeDecode) (sha1 : Bytes → Digest) (s : MainLoop) (message : QueuedMessage)
    : Decidable (s.ParsesOnce beDecode sha1 message) :=
  inferInstanceAs (Decidable (_ → _))

/-- The size of initialised data is that of its files. -/
def SizesAgree (s : MainLoop) : Prop :=
  s.torrent.torrentData.initialized = true
  → s.torrent.torrentData.filesSize = s.torrent.torrentData.dataSize

/-- What one message may do to the torrent data. -/
structure ConfiguresOnce (beDecode : BeDecode) (sha1 : Bytes → Digest) (s : MainLoop)
    (message : QueuedMessage) (next : MainLoop)
    : Prop where
  /-- The files are those there were, or the first files of the metadata in an empty list. -/
  files
    : next.torrent.torrentData.files.map TorrentDataFileInfo.layout
        = s.torrent.torrentData.files.map TorrentDataFileInfo.layout
      ∨ s.torrent.torrentData.files = []
        ∧ ∃ info,
            s.parsed beDecode sha1 message = some info
            ∧ next.torrent.torrentData.files.map TorrentDataFileInfo.fileSize
              <+: info.fileEntries.map BeNode.fileLength
  sizes : next.SizesAgree
  /-- Complete data stays complete and as it was configured. -/
  stays
    : s.torrent.torrentData.initialized = true
      → s.torrent.torrentData.needed = false
      → next.torrent.torrentData.needed = false
        ∧ next.torrent.torrentData.files.map TorrentDataFileInfo.layout
          = s.torrent.torrentData.files.map TorrentDataFileInfo.layout
        ∧ next.torrent.torrentData.sha1Hashes = s.torrent.torrentData.sha1Hashes
        ∧ next.torrent.torrentData.pieceSize = s.torrent.torrentData.pieceSize
        ∧ next.torrent.torrentData.chunkSize = s.torrent.torrentData.chunkSize

end MainLoop

-----------------------------------------------------------------------------------------
-- One pass over the files of the metadata
-----------------------------------------------------------------------------------------

namespace TorrentData

variable {td next : TorrentData} {info : BeNode} {exit : Exit}

theorem addFilePath_eq {path : CString} {length : Nat}
    (added : td.addFilePath path length = .ok next)
    : next = td.addFile path length := by
  unfold addFilePath at added
  split at added
  · cases added
  · exact (Except.ok.inj added).symm

/-- The pass adds files in the order of their entries, one for each, and touches nothing else. -/
theorem addFiles_adds {entries : List BeNode} (ran : td.addFiles entries = .ok (next, exit))
    : next.initialized = td.initialized
      ∧ ∃ added,
          next.files = td.files ++ added
          ∧ added.map TorrentDataFileInfo.fileSize <+: entries.map BeNode.fileLength := by
  induction entries generalizing td with
  | nil =>
      cases ran
      exact ⟨rfl, [], by simp, by simp⟩
  | cons entry rest ih =>
      unfold addFiles at ran
      split at ran
      · obtain ⟨joined, _, ran⟩ := bind_eq_ok.mp ran
        cases joined with
        | none =>
            cases ran
            exact ⟨rfl, [], by simp, by simp⟩
        | some path =>
            obtain ⟨grown, added, ran⟩ := bind_eq_ok.mp ran
            obtain rfl := addFilePath_eq added
            obtain ⟨initialized, later, files, sizes⟩ := ih ran
            refine ⟨initialized, _, files.trans (List.append_assoc ..), ?_⟩
            exact List.cons_prefix_cons.mpr ⟨rfl, sizes⟩
      · cases ran

theorem addMetadataFiles_adds (ran : td.addMetadataFiles info = .ok (next, exit))
    : next.initialized = td.initialized
      ∧ ∃ added,
          next.files = td.files ++ added
          ∧ added.map TorrentDataFileInfo.fileSize
            <+: info.fileEntries.map BeNode.fileLength := by
  unfold addMetadataFiles at ran
  unfold BeNode.fileEntries
  split at ran
  · rename_i unlisted
    rw [unlisted]
    split at ran
    · cases ran
    · dsimp only at ran
      split at ran
      · cases ran
      · obtain ⟨grown, added, same⟩ := bind_eq_ok.mp ran
        obtain rfl := addFilePath_eq added
        cases same
        exact ⟨rfl, _, rfl, List.prefix_rfl⟩
  · rename_i listed
    rw [listed]
    exact addFiles_adds ran
  · cases ran

/-- Data that is not initialised is configured with the size of its files, or not initialised. -/
theorem configure_adds (untouched : td.initialized = false)
    (ran : td.configure info = .ok (next, exit))
    : (next.initialized = true → next.filesSize = next.dataSize)
      ∧ ∃ added,
          next.files = td.files ++ added
          ∧ added.map TorrentDataFileInfo.fileSize
            <+: info.fileEntries.map BeNode.fileLength := by
  unfold configure at ran
  obtain ⟨⟨filled, result⟩, filling, ran⟩ := bind_eq_ok.mp ran
  obtain ⟨initialized, adds⟩ := addMetadataFiles_adds filling
  have untouched' : filled.initialized = false := initialized.trans untouched
  cases result with
  | failure =>
      cases ran
      refine ⟨fun set => ?_, adds⟩
      rw [untouched'] at set
      cases set
  | success =>
      obtain ⟨⟨_, sized⟩, sizing, same⟩ := bind_eq_ok.mp ran
      cases same
      rcases setDataSize_cases sizing with ⟨ready | noChunkSize, _⟩ | ⟨_, _, _, _, rfl⟩
      · exact absurd (untouched'.symm.trans ready) Bool.false_ne_true
      · cases noChunkSize
      · exact ⟨fun _ => rfl, adds⟩

end TorrentData

-----------------------------------------------------------------------------------------
-- One message
-----------------------------------------------------------------------------------------

namespace MainLoop

variable {beDecode : BeDecode} {sha1 : Bytes → Digest} {s next : MainLoop}

/-- A message that leaves the torrent data as it is configures nothing. -/
theorem ConfiguresOnce.of_same {message : QueuedMessage} (agree : s.SizesAgree)
    (same : next.torrent.torrentData = s.torrent.torrentData)
    : ConfiguresOnce beDecode sha1 s message next :=
  {
    files := .inl (by rw [same])
    sizes := by rw [SizesAgree, same]; exact agree
    stays := fun _ unneeded => by rw [same]; exact ⟨unneeded, rfl, rfl, rfl, rfl⟩
  }

theorem step_data {message : Message} {env : WriteEnv} (agree : s.SizesAgree)
    (stepped : s.step beDecode sha1 (.data message env) = .ok next)
    : ConfiguresOnce beDecode sha1 s (.data message env) next := by
  obtain ⟨⟨torrent, disk, report⟩, processed, same⟩ := bind_eq_ok.mp stepped
  cases same
  obtain ⟨result, written, processed⟩ := bind_eq_ok.mp processed
  have wrote : torrent.torrentData = result.td := by
    cases exited : result.exit with
    | failure =>
        rw [exited] at processed
        cases processed
        rfl
    | success =>
        rw [exited] at processed
        obtain ⟨peers, _, same⟩ := bind_eq_ok.mp processed
        cases same
        rfl
  unfold TorrentData.processPiece at written
  split at written
  · cases written
  obtain ⟨chunkId, _, written⟩ := bind_eq_ok.mp written
  obtain ⟨setup, filesSize, unneeded⟩ := TorrentData.writeChunk_setup written
  refine { files := .inl ?_, sizes := ?_, stays := fun _ complete => ?_ }
  · dsimp only
    rw [wrote]
    exact setup.layout
  · unfold SizesAgree
    rw [wrote, setup.initialized, filesSize, setup.dataSize]
    exact agree
  · dsimp only
    rw [wrote]
    exact ⟨unneeded complete, setup.layout, setup.sha1Hashes, setup.pieceSize, setup.chunkSize⟩

/-- The write of a metadata chunk does not touch the torrent data. -/
theorem writeMetadata_torrentData {message : Message} {env : MetadataEnv} {t : Torrent}
    {disk : Disk}
    (wrote : s.torrent.writeMetadata beDecode sha1 s.disk message env = .ok (some (t, disk)))
    : t.torrentData = s.torrent.torrentData := by
  unfold Torrent.writeMetadata at wrote
  split at wrote
  · cases wrote
  split at wrote
  · cases wrote
  obtain ⟨result, _, same⟩ := bind_eq_ok.mp wrote
  cases same
  rfl

theorem step_metadata {message : Message} {env : MetadataEnv} (agree : s.SizesAgree)
    (once : s.ParsesOnce beDecode sha1 (.metadata message env))
    (stepped : s.step beDecode sha1 (.metadata message env) = .ok next)
    : ConfiguresOnce beDecode sha1 s (.metadata message env) next := by
  obtain ⟨⟨torrent, disk, exit⟩, processed, same⟩ := bind_eq_ok.mp stepped
  cases same
  obtain ⟨written, wrote, processed⟩ := bind_eq_ok.mp processed
  cases written with
  | none =>
      cases processed
      exact .of_same agree rfl
  | some written =>
      obtain ⟨t, disk'⟩ := written
      have untouched := writeMetadata_torrentData wrote
      dsimp only at processed
      split at processed
      · rename_i ready
        obtain ⟨read, reads, processed⟩ := bind_eq_ok.mp processed
        have parses : s.parsed beDecode sha1 (.metadata message env) = read := by
          simp only [parsed, wrote, ready, if_true, reads]
        cases read with
        | none =>
            cases processed
            exact .of_same agree untouched
        | some info =>
            obtain ⟨⟨td, exit'⟩, configured, same⟩ := bind_eq_ok.mp processed
            cases same
            obtain ⟨empty, uninitialised⟩ := once (by rw [parses]; rfl)
            rw [untouched] at configured
            obtain ⟨sizes, added, files, listed⟩ :=
              TorrentData.configure_adds uninitialised configured
            rw [empty, List.nil_append] at files
            refine
              {
                files := .inr ⟨empty, info, parses, ?_⟩
                sizes := sizes
                stays := fun initialised => ?_
              }
            · dsimp only
              rw [files]
              exact listed
            · rw [uninitialised] at initialised
              cases initialised
      · cases processed
        exact .of_same agree untouched

/-- From a new torrent on, as long as no message is parsed when the data has files or is
initialised, every message configures the data at most once.
-/
theorem torrentData_configured_once {rootPath : CString} {start : MainLoop}
    {messages : List QueuedMessage} (fresh : start.torrent.torrentData = .new rootPath)
    (once
      : Guarded (step beDecode sha1) (fun s message => s.ParsesOnce beDecode sha1 message)
          start messages)
    : Guarded (step beDecode sha1)
        (fun s message =>
          ∀ next,
            s.step beDecode sha1 message = .ok next
            → ConfiguresOnce beDecode sha1 s message next)
        start messages := by
  have agree : start.SizesAgree := by
    intro initialised
    rw [fresh] at initialised
    cases initialised
  refine Guarded.of_invariant ?_ agree once
  intro s message agree parsesOnce
  have configures (next : MainLoop) (stepped : s.step beDecode sha1 message = .ok next)
      : ConfiguresOnce beDecode sha1 s message next := by
    cases message with
    | metadata message env => exact step_metadata agree parsesOnce stepped
    | data message env => exact step_data agree stepped
  exact ⟨configures, fun next stepped => (configures next stepped).sizes⟩

-----------------------------------------------------------------------------------------
-- A torrent of one byte
-----------------------------------------------------------------------------------------

/-- The SHA-1 digest of the file `a`, whose only byte is an `a`. -/
def aDigest : Digest :=
  ⟨[0x86, 0xf7, 0xe4, 0x37, 0xfa, 0xa5, 0xa7, 0xfc, 0xe1, 0x5d, 0x1d, 0xdc, 0xb9, 0xea, 0xea,
    0xea, 0x37, 0x76, 0x67, 0xb8], by decide⟩

/-- The metadata of a torrent with this file. -/
def aContent : Bytes :=
  ascii "d6:lengthi1e4:name1:a12:piece lengthi131072e6:pieces20:" ++ aDigest.1 ++ ascii "e"

/-- The dictionary in front of the chunk. -/
def aHeader : Bytes := ascii "d8:msg_typei1e5:piecei0e10:total_sizei76ee"

def aStart : MainLoop :=
  let torrentMetadata := { TorrentData.new (ascii "/t") with needed := true }
  {
    torrent :=
      {
        torrentMetadata := ((torrentMetadata.initialiseMetadata 76).toOption).getD torrentMetadata
        torrentData := .new (ascii "/t")
        peers := HashMap.new 10
        peerIps := []
      }
    disk := fun _ => none
  }

def aWriteEnv : WriteEnv := { io := fun _ => .good, stack := zeroStack }

def aMetadataEnv : MetadataEnv := { write := aWriteEnv, reads := fun _ _ => .good, steps := 10 }

/-- The only chunk of the metadata. -/
def aChunk : Message := ⟨be32 120 ++ [20, 2] ++ aHeader ++ aContent, by decide +kernel⟩

def aMetadata : QueuedMessage := .metadata aChunk aMetadataEnv

/-- The only block of the file. -/
def aPiece : Message := ⟨be32 10 ++ [7] ++ be32 0 ++ be32 0 ++ [97], by decide +kernel⟩

def aBlock : QueuedMessage := .data aPiece aWriteEnv

/-- Witness: the torrent of one byte is downloaded. -/
theorem torrentData_configured_once_downloaded
    : Guarded (step decodeInside (fun _ => aDigest))
        (fun s message =>
          ∀ next,
            s.step decodeInside (fun _ => aDigest) message = .ok next
            → ConfiguresOnce decodeInside (fun _ => aDigest) s message next)
        aStart [aMetadata, aBlock] := by
  have blank : aStart.torrent.torrentData = .new (ascii "/t") := rfl
  refine torrentData_configured_once blank ⟨fun _ => ⟨rfl, rfl⟩, fun _ _ => ?_⟩
  refine ⟨?_, fun _ _ => trivial⟩
  intro parsed
  cases parsed

/-- The metadata as it is decoded. -/
def aInfo : BeNode := ((decodeInside aContent).map (·.1)).getD (.num 0)

/-- The torrent data that it configures. -/
def aConfigured : TorrentData :=
  (((TorrentData.new (ascii "/t")).configure aInfo).toOption.map (·.1)).getD (.new (ascii "/t"))

def aMetadataPath : CString := ascii "/t" ++ metadataPath

def afterMetadata : MainLoop :=
  {
    torrent :=
      {
        aStart.torrent with
        torrentMetadata :=
          aStart.torrent.torrentMetadata.withOneChunk aMetadataPath aContent.length
        torrentData := aConfigured
      }
    disk := Function.update (fun _ => none) aMetadataPath (some aContent)
  }

def afterBlock : MainLoop :=
  {
    torrent :=
      { afterMetadata.torrent with torrentData := aConfigured.withOneChunk (ascii "/t/a") 1 }
    disk := Function.update afterMetadata.disk (ascii "/t/a") (some [97])
  }

theorem aInfo_eq : (decodeInside aContent).map (·.1) = some aInfo := by
  have decodes : ((decodeInside aContent).map (·.1)).isSome = true := by
    decide +kernel
  obtain ⟨info, decoded⟩ := Option.isSome_iff_exists.mp decodes
  rw [aInfo, decoded, Option.getD_some]

theorem aConfigured_eq
    : (TorrentData.new (ascii "/t")).configure aInfo = .ok (aConfigured, .success) := by
  have succeeds
      : returnsWith ((TorrentData.new (ascii "/t")).configure aInfo) (·.2 = .success) = true := by
    decide +kernel
  obtain ⟨⟨td, exit⟩, configured, same⟩ := exists_ok_of_returnsWith succeeds
  cases of_decide_eq_true same
  rw [aConfigured, configured]
  rfl

/-- The chunk is written to the new metadata file. -/
theorem aChunk_written
    : aStart.torrent.writeMetadata decodeInside (fun _ => aDigest) aStart.disk aChunk aMetadataEnv
      = .ok
          (some
            ({
                aStart.torrent with
                torrentMetadata := afterMetadata.torrent.torrentMetadata
              },
              afterMetadata.disk)) := by
  have one
      : aStart.torrent.torrentMetadata.isOneChunk aMetadataPath aContent.length zeroStack
        = true := by
    decide +kernel
  have header
      : (decodeInside (aHeader ++ aContent)).any
          (fun decoded =>
            decoded.2 = 42 && wrap32 (decoded.1.dictLookupNum (ascii "piece")) = 0)
        = true := by
    decide +kernel
  simp only [Option.any_eq_true, Bool.and_eq_true, decide_eq_true_eq] at header
  obtain ⟨⟨node, _⟩, header, rfl, piece⟩ := header
  have nonempty : aContent ≠ [] := by
    decide
  have long : ¬ (be32 120 ++ [20, 2] ++ aHeader ++ aContent).length < 6 := by
    decide +kernel
  have payload : (be32 120 ++ [20, 2] ++ aHeader ++ aContent).drop 6 = aHeader ++ aContent := by
    decide +kernel
  have data : (be32 120 ++ [20, 2] ++ aHeader ++ aContent).drop (6 + 42) = aContent := by
    decide +kernel
  obtain ⟨report, wrote⟩
      : ∃ report,
          aStart.torrent.torrentMetadata.writeChunk (fun _ => aDigest) aStart.disk 0 aContent
              aWriteEnv
            = .ok
                {
                  td := afterMetadata.torrent.torrentMetadata
                  disk := afterMetadata.disk
                  exit := .success
                  report
                } :=
    TorrentData.writeChunk_oneChunk one nonempty (fun _ => rfl) rfl
  simp only [Torrent.writeMetadata, aChunk, long, if_false, payload, header, piece, data]
  exact bind_of_ok wrote _

/-- The metadata is complete, is read back and configures the data. -/
theorem step_aMetadata
    : aStart.step decodeInside (fun _ => aDigest) aMetadata = .ok afterMetadata := by
  have ready
      : Torrent.readyToConfigure
          { aStart.torrent with torrentMetadata := afterMetadata.torrent.torrentMetadata }
        = true := by
    decide +kernel
  have read
      : returnsWith
          (afterMetadata.torrent.torrentMetadata.readData (fun _ _ => .good) afterMetadata.disk 0
            afterMetadata.torrent.torrentMetadata.dataSize zeroStack 10)
          (· = (.success, aContent))
        = true := by
    decide +kernel
  obtain ⟨buffer, read, same⟩ := exists_ok_of_returnsWith read
  cases of_decide_eq_true same
  have info
      : Torrent.readInfo decodeInside
          { aStart.torrent with torrentMetadata := afterMetadata.torrent.torrentMetadata }
          afterMetadata.disk aMetadataEnv
        = .ok (some aInfo) := by
    refine (bind_of_ok read _).trans ?_
    simp only [aInfo_eq]
  have processed
      : aStart.torrent.processMetadataPiece decodeInside (fun _ => aDigest) aStart.disk aChunk
          aMetadataEnv
        = .ok (afterMetadata.torrent, afterMetadata.disk, .success) := by
    refine (bind_of_ok aChunk_written _).trans ((if_pos ready).trans ?_)
    exact (bind_of_ok info _).trans (bind_of_ok aConfigured_eq _)
  rw [aMetadata, step, bind_of_ok processed]

/-- The block is validated and written to the new file. -/
theorem step_aBlock
    : afterMetadata.step decodeInside (fun _ => aDigest) aBlock = .ok afterBlock := by
  have one : aConfigured.isOneChunk (ascii "/t/a") [(97 : UInt8)].length zeroStack = true := by
    decide +kernel
  have table : aConfigured.sha1Hashes = some aDigest.1 := by
    decide +kernel
  have valid (piece : Bytes)
      : aConfigured.validatePiece (fun _ => aDigest)
          { pieceId := 0, pieceSize := [(97 : UInt8)].length, pieceOffset := 0 } piece
        = .ok .success := by
    simp only [TorrentData.validatePiece, table]
    decide
  have absent : afterMetadata.disk (ascii "/t/a") = none := by
    decide +kernel
  have long : ¬ aPiece.bytes.length < 13 := by
    decide +kernel
  have chunk : aConfigured.chunkIdOf aPiece.index aPiece.begin zeroStack = .ok 0 := by
    decide +kernel
  have block : aPiece.block = [97] := by
    decide +kernel
  obtain ⟨report, wrote⟩ := TorrentData.writeChunk_oneChunk one (by simp) valid absent
  have piece
      : aConfigured.processPiece (fun _ => aDigest) afterMetadata.disk aPiece aWriteEnv
        = .ok
            {
              td := afterBlock.torrent.torrentData
              disk := afterBlock.disk
              exit := .success
              report
            } := by
    refine (if_neg long).trans ((bind_of_ok chunk _).trans ?_)
    rw [block]
    exact wrote
  have processed
      : afterMetadata.torrent.processDataChunk (fun _ => aDigest) afterMetadata.disk aPiece
          aWriteEnv
        = .ok (afterBlock.torrent, afterBlock.disk, report) :=
    bind_of_ok piece _
  rw [aBlock, step, bind_of_ok processed]

/-- The chunk of the metadata arrives again after the download: the file is added a second time,
and the complete data is needed again.
-/
theorem late_metadata_reconfigures
    : ∃ complete final,
        runSteps (step decodeInside (fun _ => aDigest)) aStart [aMetadata, aBlock] = .ok complete
        ∧ complete.step decodeInside (fun _ => aDigest) aMetadata = .ok final
        ∧ complete.torrent.torrentData.initialized = true
        ∧ complete.torrent.torrentData.needed = false
        ∧ final.torrent.torrentData.needed = true
        ∧ final.torrent.torrentData.files.length = 2
        ∧ final.torrent.torrentData.filesSize ≠ final.torrent.torrentData.dataSize
        ∧ ¬ ConfiguresOnce decodeInside (fun _ => aDigest) complete aMetadata final := by
  have ran
      : runSteps (step decodeInside (fun _ => aDigest)) aStart [aMetadata, aBlock]
        = .ok afterBlock :=
    runSteps_cons_eq_ok.mpr
      ⟨afterMetadata, step_aMetadata, runSteps_cons_eq_ok.mpr ⟨afterBlock, step_aBlock, rfl⟩⟩
  have initialised : afterBlock.torrent.torrentData.initialized = true := by
    decide +kernel
  have unneeded : afterBlock.torrent.torrentData.needed = false := by
    decide +kernel
  have late
      : returnsWith (afterBlock.step decodeInside (fun _ => aDigest) aMetadata)
          (fun final =>
            final.torrent.torrentData.needed
            && decide (final.torrent.torrentData.files.length = 2)
            && decide (final.torrent.torrentData.filesSize ≠ final.torrent.torrentData.dataSize))
        = true := by
    decide +kernel
  obtain ⟨final, stepped, tested⟩ := exists_ok_of_returnsWith late
  simp only [Bool.and_eq_true, decide_eq_true_eq] at tested
  obtain ⟨⟨needed, doubled⟩, differ⟩ := tested
  refine ⟨afterBlock, final, ran, stepped, initialised, unneeded, needed, doubled, differ, ?_⟩
  intro once
  have kept := (once.stays initialised unneeded).1
  rw [needed] at kept
  cases kept

end MainLoop

end UvgTorrent
