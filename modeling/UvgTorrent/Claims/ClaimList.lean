import UvgTorrent.TorrentData.ChunkEffects

/-! `torrent_data_claim_chunk` and `torrent_data_release_expired_claims`: the list of claims
is a linked list in memory, edited through pointers to pointers. Clock readings are arguments.
-/

namespace UvgTorrent

open Foundations

namespace TorrentData

variable {td : TorrentData} {claimed completed interested : Bitfield} {clock : Nat → Int}

/-- The inner loop of `torrent_data_claim_chunk`: the first index that is neither claimed nor
uninteresting. The peer's bitfield is only read where the chunk is unclaimed.
-/
def firstClaimable (claimed interested : Bitfield) : Nat → Nat → Except Fault (Option Nat)
  | 0, _ => .ok none
  | remaining + 1, index =>
      (claimed.getBit index).bind fun taken =>
        if taken then firstClaimable claimed interested remaining (index + 1)
        else
          (interested.getBit index).bind fun wanted =>
            if wanted then .ok (some index)
            else firstClaimable claimed interested remaining (index + 1)

/-- The new claim on a chunk; a timeout of 0 leaves no claim. -/
def layClaim (td : TorrentData) (claimed : Bitfield) (timeoutSeconds now : Int) (index : Nat)
    : TorrentData :=
  if timeoutSeconds ≠ 0 then
    {
      td with
      claimed := some (claimed.setBit index 1)
      claims := td.claims.pushFront
        {
          deadline := wrap64 (now + wrap32 (timeoutSeconds * 1000))
          chunkId := index
        }
    }
  else td

/-- The outer loop of `torrent_data_claim_chunk`, from the entry `chunk` of `out` on. An entry
is `none` when the loop leaves it unset.
-/
def claimLoop (interested : Bitfield) (timeoutSeconds : Int) (clock : Nat → Int)
    : Nat → Nat → TorrentData → Except Fault (TorrentData × List (Option Nat))
  | 0, _, td => .ok (td, [])
  | remaining + 1, chunk, td =>
      match td.claimed with
      | none => .error .nullPointer
      | some claimed =>
          (firstClaimable claimed interested claimed.bitCount 0).bind fun found =>
            let td := match found with
              | none => td
              | some index => td.layClaim claimed timeoutSeconds (clock chunk) index
            (claimLoop interested timeoutSeconds clock remaining (chunk + 1) td).bind
              fun (td, out) => .ok (td, found :: out)

/-- `torrent_data_claim_chunk`. -/
def claimChunk (td : TorrentData) (interested : Bitfield) (timeoutSeconds numChunks : Int)
    (clock : Nat → Int)
    : Except Fault (TorrentData × Exit × List (Option Nat)) :=
  if td.initialized then
    match td.claimed with
    | none => .error .nullPointer
    | some _ =>
        (claimLoop interested timeoutSeconds clock numChunks.toNat 0 td).bind fun (td, out) =>
          .ok (td, if out.any Option.isSome then .success else .failure, out)
  else .ok (td, .failure, [])

/-- The unlinking of a freed node in `torrent_data_release_expired_claims`: through `current`
when there is no node before it, else through the node that `prev` points to.
-/
def unlinkClaim (claims : PtrList TorrentDataClaim) (current : Slot) (prev : Option Slot)
    (next : Option Nat)
    : Except Fault (PtrList TorrentDataClaim) :=
  match prev with
  | none => .ok (claims.store current next)
  | some slot =>
      match claims.load slot with
      | none => .error .danglingPointer
      | some none => .error .nullPointer
      | some (some before) =>
          match claims.heap.cell before with
          | none => .error .danglingPointer
          | some _ => .ok (claims.store (.nextOf before) next)

/-- The loop of `torrent_data_release_expired_claims`. The clock is read once for each node
visited.
-/
def releaseLoop (completed : Option Bitfield) (clock : Nat → Int)
    : Nat
      → Nat
      → Slot
      → Option Slot
      → PtrList TorrentDataClaim
      → Bitfield
      → Except Fault (PtrList TorrentDataClaim × Bitfield)
  | 0, _, _, _, _, _ => .error .endlessList
  | steps + 1, visit, current, prev, claims, claimed =>
      match claims.load current with
      | none => .error .danglingPointer
      | some none => .ok (claims, claimed)
      | some (some address) =>
          match claims.heap.cell address with
          | none => .error .danglingPointer
          | some node =>
              if node.value.deadline < clock visit then
                match completed with
                | none => .error .nullPointer
                | some completedField =>
                    (completedField.getBit node.value.chunkId).bind fun done =>
                      let claimed :=
                        if done then claimed else claimed.setBit node.value.chunkId 0
                      (unlinkClaim ((claims.free address).store current none) current prev
                        node.next).bind fun claims =>
                          match node.next with
                          | none => .ok (claims, claimed)
                          | some _ =>
                              releaseLoop completed clock steps (visit + 1) current prev claims
                                claimed
              else
                releaseLoop completed clock steps (visit + 1) (.nextOf address) (some current)
                  claims claimed

/-- `torrent_data_release_expired_claims`; its return value is not used. No list has more
nodes than addresses that were handed out, which bounds the walk.
-/
def releaseExpiredClaims (td : TorrentData) (clock : Nat → Int) : Except Fault TorrentData :=
  if td.initialized then
    match td.claimed with
    | none => .error .nullPointer
    | some claimed =>
        (releaseLoop td.completed clock (td.claims.heap.fresh + 1) 0 .head none td.claims
          claimed).bind fun (claims, claimed) => .ok { td with claims, claimed := some claimed }
  else .ok td

end TorrentData

end UvgTorrent
