import UvgTorrent.Foundations.LexicalPaths
import UvgTorrent.TorrentData.PieceFiles
import UvgTorrent.Torrents.Configuration
import UvgTorrent.Torrents.PathBuffers

/-! Where the files of the metadata are placed. Names and components are used as they arrive, so
they may lead out of the folder of the download.
-/

namespace UvgTorrent

open Foundations

-----------------------------------------------------------------------------------------
-- Paths as texts
-----------------------------------------------------------------------------------------

/-- What stands between two slashes. -/
def pathSegment (text : CString) : PathSegment CString :=
  if text = [] ∨ text = ascii "." then .here
  else if text = ascii ".." then .parent
  else .name text

def pathSegments (path : CString) : List (PathSegment CString) :=
  (path.splitOn 47).map pathSegment

def isAbsolute (path : CString) : Bool := path.head? = some 47

/-- Where a path leads. -/
def locate (path : CString) : Location CString :=
  Location.start.walk (isAbsolute path) (pathSegments path)

/-- The path leads to the root path or to a place below it. -/
def InsideRoot (rootPath path : CString) : Prop :=
  isAbsolute path = isAbsolute rootPath ∧ (locate rootPath).Below (locate path)

instance (rootPath path : CString) : Decidable (InsideRoot rootPath path) :=
  inferInstanceAs (Decidable (_ ∧ _))

/-- Where components lead from the folder in which they start. -/
def locateComponents (components : List Bytes) : Location CString :=
  Location.start.walk false (components.flatMap fun component =>
    pathSegments (BeNode.cstr component))

/-- The components never go above the start of the root path, and where they take back names of the
root path they come down through the same names again.
-/
def ComponentsStayInside (rootPath : CString) (components : List Bytes) : Prop :=
  Location.StaysBelow (isAbsolute rootPath) (locate rootPath) (locateComponents components)

instance (rootPath : CString) (components : List Bytes)
    : Decidable (ComponentsStayInside rootPath components) :=
  inferInstanceAs (Decidable (Location.StaysBelow ..))

theorem pathSegments_append (first second : CString)
    : pathSegments (first ++ 47 :: second) = pathSegments first ++ pathSegments second := by
  rw [pathSegments, List.splitOn_append_cons_self, List.map_append]
  rfl

theorem pathSegments_appendedPath (rootPath : CString) (components : List Bytes)
    : pathSegments (rootPath ++ appendedPath components)
      = pathSegments rootPath
        ++ components.flatMap fun component => pathSegments (BeNode.cstr component) := by
  induction components generalizing rootPath with
  | nil => simp [appendedPath]
  | cons component rest hyp =>
      have next
          : rootPath ++ appendedPath (component :: rest)
            = (rootPath ++ 47 :: BeNode.cstr component) ++ appendedPath rest := by
        simp [appendedPath]
      rw [next, hyp, pathSegments_append, List.flatMap_cons, List.append_assoc]

theorem isAbsolute_append {rootPath : CString} (chosen : rootPath ≠ []) (suffix : CString)
    : isAbsolute (rootPath ++ suffix) = isAbsolute rootPath := by
  cases rootPath with
  | nil => exact absurd rfl chosen
  | cons first rest => rfl

/-- Behind a root path, the components lead from where the root path leads. -/
theorem locate_appendedPath {rootPath : CString} (chosen : rootPath ≠ [])
    (components : List Bytes)
    : locate (rootPath ++ appendedPath components)
      = (locate rootPath).follow (isAbsolute rootPath) (locateComponents components) := by
  rw [locate, isAbsolute_append chosen, pathSegments_appendedPath, Location.walk_append]
  exact Location.walk_eq_follow (locate rootPath) _

theorem insideRoot_appendedPath_iff {rootPath : CString} (chosen : rootPath ≠ [])
    (components : List Bytes)
    : InsideRoot rootPath (rootPath ++ appendedPath components)
      ↔ ComponentsStayInside rootPath components := by
  rw [InsideRoot, locate_appendedPath chosen, isAbsolute_append chosen, Location.below_follow_iff]
  exact and_iff_right rfl

-----------------------------------------------------------------------------------------
-- What the writer opens
-----------------------------------------------------------------------------------------

theorem openForWriting_elsewhere {outcome : FileOutcome} {file : TorrentDataFileInfo}
    {disk after : Disk} {stream : Option Nat} {path : CString} (apart : path ≠ file.filePath)
    (opened : openForWriting outcome file disk = .ok (stream, after))
    : after path = disk path := by
  unfold openForWriting at opened
  split at opened
  · cases opened
    rfl
  · dsimp only at opened
    split at opened
    · cases opened
      rfl
    · split at opened
      · cases opened
        exact Function.update_of_ne apart _ _
      · cases opened

theorem writeFile_elsewhere {outcome : FileOutcome} {piece : Bytes}
    {pieceBegin pieceSize dataWritten : Nat} {file : TorrentDataFileInfo} {disk : Disk}
    {here : FileWrite} {path : CString} (apart : path ≠ file.filePath)
    (wrote : writeFile outcome piece pieceBegin pieceSize dataWritten file disk = .ok here)
    : here.disk path = disk path := by
  unfold writeFile at wrote
  obtain ⟨⟨stream, after⟩, opened, wrote⟩ := bind_eq_ok.mp wrote
  have kept := openForWriting_elsewhere apart opened
  cases stream with
  | none =>
      obtain rfl := Except.ok.inj wrote
      exact kept
  | some position =>
      dsimp only at wrote
      split at wrote
      · cases wrote
      · split at wrote
        · obtain rfl := Except.ok.inj wrote
          exact (after.write_of_ne apart _ _).trans kept
        · obtain rfl := Except.ok.inj wrote
          exact (after.write_of_ne apart _ _).trans kept

/-- Whatever the system answers, the file loop leaves every other file alone. -/
theorem writePiece_elsewhere {io : Nat → FileOutcome} {piece : Bytes}
    {pieceBegin pieceSize index dataWritten : Nat} {files : List TorrentDataFileInfo}
    {disk : Disk} {loop : WriteLoop} {path : CString}
    (apart : ∀ file ∈ files, path ≠ file.filePath)
    (ran : writePiece io piece pieceBegin pieceSize index files dataWritten disk = .ok loop)
    : loop.disk path = disk path := by
  induction files generalizing index dataWritten disk loop with
  | nil =>
      obtain rfl := Except.ok.inj ran
      rfl
  | cons file rest hyp =>
      obtain ⟨first, others⟩ := List.forall_mem_cons.mp apart
      unfold writePiece at ran
      split at ran
      · obtain rfl := Except.ok.inj ran
        rfl
      split at ran
      · obtain ⟨here, wrote, ran⟩ := bind_eq_ok.mp ran
        have kept := writeFile_elsewhere first wrote
        split at ran
        · obtain rfl := Except.ok.inj ran
          exact kept
        · obtain ⟨later, ranLater, same⟩ := bind_eq_ok.mp ran
          obtain rfl := Except.ok.inj same
          exact (hyp others ranLater).trans kept
      · obtain ⟨later, ranLater, same⟩ := bind_eq_ok.mp ran
        have kept := hyp others ranLater
        obtain rfl := Except.ok.inj same
        exact kept

namespace TorrentData

/-- `torrent_data_write_chunk` creates and changes only files of its list. -/
theorem writeChunk_elsewhere {sha1 : Bytes → Digest} {td : TorrentData} {disk : Disk}
    {chunkId : Int} {data : Bytes} {env : WriteEnv} {result : WriteResult} {path : CString}
    (apart : ∀ file ∈ td.files, path ≠ file.filePath)
    (wrote : td.writeChunk sha1 disk chunkId data env = .ok result)
    : result.disk path = disk path := by
  unfold writeChunk at wrote
  split at wrote
  · cases wrote
  · obtain ⟨done, _, wrote⟩ := bind_eq_ok.mp wrote
    split at wrote
    · obtain rfl := Except.ok.inj wrote
      rfl
    · obtain ⟨info, _, wrote⟩ := bind_eq_ok.mp wrote
      dsimp only at wrote
      split at wrote
      · obtain rfl := Except.ok.inj wrote
        rfl
      · obtain ⟨taken, _, wrote⟩ := bind_eq_ok.mp wrote
        obtain ⟨piece, _, wrote⟩ := bind_eq_ok.mp wrote
        obtain ⟨before, _, wrote⟩ := bind_eq_ok.mp wrote
        obtain ⟨after, _, wrote⟩ := bind_eq_ok.mp wrote
        split at wrote
        · rcases finishPiece_cases wrote with ⟨_, rfl⟩ | ⟨loop, _, ran, exits⟩
          · rfl
          · rcases exits with ⟨_, rfl⟩ | ⟨_, _, rfl⟩
            · exact writePiece_elsewhere apart ran
            · exact writePiece_elsewhere apart ran
        · obtain rfl := Except.ok.inj wrote
          rfl

/-- While every file is inside the root path, so is everything that the writer creates or changes.
-/
theorem writeChunk_insideRoot {sha1 : Bytes → Digest} {td : TorrentData} {disk : Disk}
    {chunkId : Int} {data : Bytes} {env : WriteEnv} {result : WriteResult} {path : CString}
    (inside : ∀ file ∈ td.files, InsideRoot td.rootPath file.filePath)
    (wrote : td.writeChunk sha1 disk chunkId data env = .ok result)
    (changed : result.disk path ≠ disk path)
    : InsideRoot td.rootPath path := by
  by_contra outside
  refine changed (writeChunk_elsewhere ?_ wrote)
  intro file listed same
  exact outside (same ▸ inside file listed)

end TorrentData

-----------------------------------------------------------------------------------------
-- The files that the metadata adds
-----------------------------------------------------------------------------------------

/-- The components of the path of an entry. -/
def BeNode.pathComponents (entry : BeNode) : List Bytes :=
  match entry.dictLookup (ascii "path") with
  | some (.list components) => components.filterMap BeNode.text
  | _ => []

/-- The components of the files that are added: the name of the torrent, or those of the entries
in front of the first that is refused as too long.
-/
def BeNode.addedComponents (info : BeNode) : List (List Bytes) :=
  match info.dictLookup (ascii "files") with
  | some (.list files) =>
      (files.map BeNode.pathComponents).takeWhile fun components =>
        chargedLength components ≤ 4096
  | _ => [[(info.dictLookupCstr (ascii "name")).getD []]]

namespace TorrentData

variable {td next : TorrentData} {info : BeNode} {exit : Exit}

theorem addFiles_paths {entries : List BeNode} (ran : td.addFiles entries = .ok (next, exit))
    : ∃ added,
        next.files = td.files ++ added
        ∧ added.map TorrentDataFileInfo.filePath
          = ((entries.map BeNode.pathComponents).takeWhile fun components =>
              chargedLength components ≤ 4096).map
            fun components => td.rootPath ++ appendedPath components := by
  induction entries generalizing td with
  | nil =>
      cases ran
      exact ⟨[], by simp, rfl⟩
  | cons entry rest hyp =>
      unfold addFiles at ran
      split at ran
      · rename_i components listed
        obtain ⟨joined, joining, ran⟩ := bind_eq_ok.mp ran
        have texts : entry.pathComponents = components.filterMap BeNode.text := by
          rw [BeNode.pathComponents, listed]
        have result := joinComponents_of_joinPath joining
        rw [joinComponents_eq, ← texts, List.nil_append] at result
        rw [List.map_cons, List.takeWhile_cons]
        split at result
        · rename_i charged
          subst result
          obtain ⟨grown, adding, ran⟩ := bind_eq_ok.mp ran
          obtain rfl := addFilePath_eq adding
          obtain ⟨added, files, paths⟩ := hyp ran
          rw [if_pos (decide_eq_true charged)]
          refine ⟨_, files.trans (List.append_assoc ..), ?_⟩
          exact congrArg ((td.rootPath ++ appendedPath entry.pathComponents) :: ·) paths
        · rename_i refused
          subst result
          cases ran
          rw [if_neg (by simpa using refused)]
          exact ⟨[], by simp, rfl⟩
      · cases ran

theorem addMetadataFiles_paths (ran : td.addMetadataFiles info = .ok (next, exit))
    : ∃ added,
        next.files = td.files ++ added
        ∧ added.map TorrentDataFileInfo.filePath
          = info.addedComponents.map
            fun components => td.rootPath ++ appendedPath components := by
  unfold addMetadataFiles at ran
  unfold BeNode.addedComponents
  split at ran
  · rename_i unlisted
    rw [unlisted]
    split at ran
    · cases ran
    · rename_i name named
      dsimp only at ran
      split at ran
      · cases ran
      · obtain ⟨grown, adding, same⟩ := bind_eq_ok.mp ran
        obtain rfl := addFilePath_eq adding
        cases same
        refine ⟨_, rfl, ?_⟩
        rw [named]
        simp [appendedPath]
  · rename_i listed
    rw [listed]
    exact addFiles_paths ran
  · cases ran

theorem setDataSize_files {size : Nat} (set : td.setDataSize size = .ok (exit, next))
    : next.files = td.files := by
  rcases setDataSize_cases set with ⟨_, _, rfl⟩ | ⟨_, _, _, _, rfl⟩
  · rfl
  · rfl

theorem configure_paths (ran : td.configure info = .ok (next, exit))
    : (next.files.drop td.files.length).map TorrentDataFileInfo.filePath
      = info.addedComponents.map fun components => td.rootPath ++ appendedPath components := by
  unfold configure at ran
  obtain ⟨⟨filled, result⟩, filling, ran⟩ := bind_eq_ok.mp ran
  obtain ⟨added, files, paths⟩ := addMetadataFiles_paths filling
  have kept : next.files = filled.files := by
    cases result with
    | failure =>
        cases ran
        rfl
    | success =>
        obtain ⟨⟨_, sized⟩, sizing, same⟩ := bind_eq_ok.mp ran
        have files := setDataSize_files sizing
        cases same
        exact files
  have older : (td.setSha1Hashes ((info.dictLookupCstr (ascii "pieces")).getD [])).files
      = td.files :=
    rfl
  rw [kept, files, older, List.drop_left]
  exact paths

/-- The metadata of a torrent whose only file has a path with a parent segment in it. -/
def detourInfo : BeNode :=
  .dict [
    (ascii "files", .list [.dict [(ascii "length", .num 1),
      (ascii "path", .list [.str (ascii "a"), .str (ascii ".."), .str (ascii "b")])]]),
    (ascii "piece length", .num 131072), (ascii "pieces", .str MainLoop.aDigest.1)]

/-- The metadata of a torrent of one byte under a name that leads out of the folder. -/
def escapingInfo : BeNode :=
  .dict [(ascii "length", .num 1), (ascii "name", .str (ascii "../x")),
    (ascii "piece length", .num 131072), (ascii "pieces", .str MainLoop.aDigest.1)]

end TorrentData

end UvgTorrent
