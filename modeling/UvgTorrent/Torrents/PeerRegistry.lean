import UvgTorrent.Containers.HashMapSimulation
import UvgTorrent.Foundations.MachineIntegers
import UvgTorrent.Peers.State

/-! The peers of `torrent.c`: the map from address strings to peers, the list of the strings, and
the loops over both. Peers are pointers, and each loop takes a peer out of the map and puts it back.
-/

namespace UvgTorrent

open Foundations

/-- `inet_ntoa`: the four bytes of an address in decimal, the highest first. -/
def inetNtoa (ip : UInt32) : CString :=
  formatInt (ip.toNat / 2 ^ 24 : Nat)
    ++ 46 :: (formatInt (ip.toNat / 2 ^ 16 % 2 ^ 8 : Nat)
      ++ 46 :: (formatInt (ip.toNat / 2 ^ 8 % 2 ^ 8 : Nat)
        ++ 46 :: formatInt (ip.toNat % 2 ^ 8 : Nat)))

/-- A `struct Peer` with its `str_ip`. -/
structure NamedPeer where
  strIp : CString
  peer : Peer

/-- `struct Torrent`, as far as it keeps peers, with the memory of the peers. An item of `peer_ips`
points to the string of a peer, and is kept as the address of that peer.
-/
structure PeerRegistry where
  memory : Nat → Option NamedPeer
  allocated : Nat
  peers : HashMapCells Nat
  peerIps : PtrList Nat
  peerCount : Nat
  assignUploadSlotsDeadline : Int

/-- What `qsort` makes of an array: its entries in some order. -/
structure Sorting where
  sort : List Nat → List Nat
  perm : ∀ entries, (sort entries).Perm entries

/-- `RAND_MAX`. -/
def randMax : Nat := 2 ^ 31 - 1

/-- `randr`, for a result of `rand`, with its quotient as an exact rational. -/
def randr (min max rand : Nat) : Nat := (max - min + 1) * rand / randMax + min

namespace PeerRegistry

/-- The peers of `torrent_new`. -/
def new : PeerRegistry :=
  {
    memory := fun _ => none
    allocated := 0
    peers := .new 500
    peerIps := .nil
    peerCount := 0
    assignUploadSlotsDeadline := 0
  }

/-- A peer made by `peer_new`, which is at the next address. -/
def newPeer (t : PeerRegistry) (ip : UInt32) (peer : Peer) : PeerRegistry :=
  {
    t with
    memory := Function.update t.memory t.allocated (some ⟨inetNtoa ip, peer⟩)
    allocated := t.allocated + 1
  }

/-- The string of a peer. -/
def strIp (t : PeerRegistry) (p : Nat) : Except Fault CString :=
  match t.memory p with
  | none => .error .danglingPointer
  | some named => .ok named.strIp

/-- Change the fields of a peer. -/
def setPeer (t : PeerRegistry) (p : Nat) (peer : Peer) : PeerRegistry :=
  {
    t with
    memory := Function.update t.memory p ((t.memory p).map fun named => { named with peer })
  }

/-- The walk to the end of `peer_ips` in `torrent_add_peer`. -/
def endLoop (peerIps : PtrList Nat) : Nat → Slot → Except Fault Slot
  | 0, _ => .error .endlessList
  | steps + 1, peerIp =>
      match peerIps.load peerIp with
      | none => .error .danglingPointer
      | some none => .ok peerIp
      | some (some address) => endLoop peerIps steps (.nextOf address)

/-- `torrent_add_peer`, when memory is available. -/
def addPeer (t : PeerRegistry) (p : Nat) (item : Option Nat) : Except Fault (PeerRegistry × Exit) :=
  (t.strIp p).bind fun strIp =>
    (t.peers.hasKey strIp).bind fun bound =>
      if bound then .ok ({ t with memory := Function.update t.memory p none }, .success)
      else
        (t.peers.set strIp p item).bind fun (peers, _) =>
          (endLoop t.peerIps (t.peerIps.heap.fresh + 1) .head).bind fun peerIp =>
            .ok
              ({
                  t with
                  peers
                  peerIps := (t.peerIps.allocLast p).store peerIp (some t.peerIps.heap.fresh)
                  peerCount := u32 (t.peerCount + 1)
                }, .success)

/-- The beginning of each turn of a loop over the peers: `hashmap_get` with a string of `peer_ips`,
then `hashmap_set` with the string of the peer that it returned.
-/
def takePeer (t : PeerRegistry) (strIp : CString) (item : Option Nat)
    : Except Fault (PeerRegistry × Nat) :=
  (t.peers.get strIp).bind fun (peers, p) =>
    match p with
    | none => .error .nullPointer
    | some p =>
        (t.strIp p).bind fun strIp =>
          (peers.set strIp p item).bind fun (peers, _) => .ok ({ t with peers }, p)

/-- A loop over the peers from an item of `peer_ips` on. `body` gets a peer and what the loop has
collected, and says what it makes of both and whether the loop goes on. The peers that were visited
come with the result.
-/
def traverse {β : Type} (body : Nat → Peer → β → Except Fault (Peer × β × Bool))
    (stack : Nat → Option Nat)
    : Nat → Option Nat → PeerRegistry → β → Except Fault (PeerRegistry × β × List Nat)
  | 0, _, _, _ => .error .endlessList
  | _ + 1, none, t, collected => .ok (t, collected, [])
  | steps + 1, some peerIp, t, collected =>
      match t.peerIps.heap.cell peerIp with
      | none => .error .danglingPointer
      | some node =>
          (t.strIp node.value).bind fun strIp =>
            (t.takePeer strIp (stack peerIp)).bind fun (t, p) =>
              match t.memory p with
              | none => .error .danglingPointer
              | some named =>
                  (body p named.peer collected).bind fun (peer, collected, goesOn) =>
                    let t := t.setPeer p peer
                    if goesOn then
                      (traverse body stack steps node.next t collected).bind
                        fun (t, collected, visited) => .ok (t, collected, p :: visited)
                    else .ok (t, collected, [p])

/-- A loop over all peers. -/
def overPeers {β : Type} (t : PeerRegistry)
    (body : Nat → Peer → β → Except Fault (Peer × β × Bool)) (stack : Nat → Option Nat)
    (collected : β)
    : Except Fault (PeerRegistry × β × List Nat) :=
  traverse body stack (t.peerIps.heap.fresh + 1) t.peerIps.head t collected

/-- The body of the loop of `torrent_run_peers`; `refused` tells whether the job of a peer can not
be made or added.
-/
def runBody (refused : Nat → Bool) (address : Nat) (p : Peer) (_ : Exit)
    : Except Fault (Peer × Exit × Bool) :=
  if p.running then .ok (p, .success, true)
  else
    .ok
      ({ p with running := true }, if refused address then .failure else .success, !refused address)

/-- `torrent_run_peers`. -/
def runPeers (t : PeerRegistry) (refused : Nat → Bool) (stack : Nat → Option Nat)
    : Except Fault (PeerRegistry × Exit × List Nat) :=
  t.overPeers (runBody refused) stack .success

/-- The body of the loop of `torrent_assign_upload_slots` that fills `peers[peer_count]`. -/
def interestedBody (peerCount : Nat) (address : Nat) (p : Peer) (peers : List Nat)
    : Except Fault (Peer × List Nat × Bool) :=
  if p.peerInterested ∧ p.status = .handshakeComplete then
    if peers.length < peerCount then .ok (p, peers ++ [address], true)
    else .error .peersBounds
  else .ok (p, peers, true)

/-- An assignment to the `uploader` of a peer. -/
def setUploader (t : PeerRegistry) (p : Nat) (uploader : Bool) : Except Fault PeerRegistry :=
  match t.memory p with
  | none => .error .danglingPointer
  | some named => .ok (t.setPeer p { named.peer with uploader })

/-- The last loop of `torrent_assign_upload_slots`, with `i` and `uploading_peers`. -/
def slotLoop (optimisticIndex : Int)
    : List Nat → Nat → Nat → PeerRegistry → Except Fault PeerRegistry
  | [], _, _, t => .ok t
  | p :: rest, i, uploadingPeers, t =>
      if uploadingPeers < 3 then
        (t.setUploader p true).bind (slotLoop optimisticIndex rest (i + 1) (uploadingPeers + 1))
      else
        (t.setUploader p ((i : Int) == optimisticIndex)).bind
          (slotLoop optimisticIndex rest (i + 1) uploadingPeers)

/-- `torrent_assign_upload_slots`, with two readings of the clock and a result of `rand`. -/
def assignUploadSlots (t : PeerRegistry) (now later : Int) (sorting : Sorting) (rand : Nat)
    (stack : Nat → Option Nat)
    : Except Fault (PeerRegistry × List Nat) :=
  if now < t.assignUploadSlotsDeadline then .ok (t, [])
  else if 0 < t.peerCount then
    let t := { t with assignUploadSlotsDeadline := later + 10 * 1000 }
    (t.overPeers (interestedBody t.peerCount) stack []).bind fun (t, peers, visited) =>
      let interestedPeers := peers.length
      let optimisticIndex : Int := if 3 < interestedPeers then randr 3 interestedPeers rand else -1
      (slotLoop optimisticIndex (sorting.sort peers) 0 0 t).bind fun t => .ok (t, visited)
  else .ok (t, [])

/-- The body of the loop of `torrent_process_data_chunk`. -/
def progressBody (pieceId : Int) (_ : Nat) (p : Peer) (_ : Unit)
    : Except Fault (Peer × Unit × Bool) :=
  if p.status = .handshakeComplete then
    .ok ({ p with progressQueue := p.progressQueue ++ [pieceId] }, (), true)
  else .ok (p, (), true)

/-- `torrent_process_data_chunk` from the return of `torrent_data_write_chunk` on. -/
def processDataChunk (t : PeerRegistry) (pieceId : Int) (written : Exit)
    (stack : Nat → Option Nat)
    : Except Fault (PeerRegistry × List Nat) :=
  match written with
  | .failure => .ok (t, [])
  | .success =>
      (t.overPeers (progressBody pieceId) stack ()).bind fun (t, _, visited) => .ok (t, visited)

end PeerRegistry

/-- What happens to the peers of a torrent: a call of the main thread, or changes that the workers
make to the peers between two calls. The stack contents are those at the calls of `hashmap_set`.
-/
inductive RegistryAction where
  | addPeer (ip : UInt32) (peer : Peer) (item : Option Nat)
  | workers (change : Nat → Peer → Peer)
  | runPeers (refused : Nat → Bool) (stack : Nat → Option Nat)
  | assignUploadSlots
    (now later : Int) (sorting : Sorting) (rand : Nat) (stack : Nat → Option Nat)
  | processDataChunk (pieceId : Int) (written : Exit) (stack : Nat → Option Nat)

namespace PeerRegistry

/-- One action. Each peer that is added is a new one, as every peer of the peer queue is. -/
def step (t : PeerRegistry) : RegistryAction → Except Fault PeerRegistry
  | .addPeer ip peer item =>
      ((t.newPeer ip peer).addPeer t.allocated item).map Prod.fst
  | .workers change =>
      .ok
        {
          t with
          memory := fun p =>
            (t.memory p).map fun named => { named with peer := change p named.peer }
        }
  | .runPeers refused stack => (t.runPeers refused stack).map Prod.fst
  | .assignUploadSlots now later sorting rand stack =>
      (t.assignUploadSlots now later sorting rand stack).map Prod.fst
  | .processDataChunk pieceId written stack =>
      (t.processDataChunk pieceId written stack).map Prod.fst

end PeerRegistry

end UvgTorrent
