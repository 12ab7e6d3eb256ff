import UvgTorrent.Foundations.FallibleRuns
import UvgTorrent.Torrents.PeerRegistry

/-! The list `peer_ips` and the map `peers` hold the same peers, each under its own string, between
the turns of every loop that takes the peers out of the map and puts them back.
-/

namespace UvgTorrent

open Foundations

namespace PeerRegistry

variable {t : PeerRegistry} {entries : List (Nat × CString)}

-----------------------------------------------------------------------------------------
-- The registry of some peers
-----------------------------------------------------------------------------------------

/-- The registry keeps exactly the given peers under the given strings: the list has them in this
order, and the map has every string with its peer and nothing else.
-/
structure Lists (t : PeerRegistry) (entries : List (Nat × CString)) : Prop where
  chain : ∃ nodes, t.peerIps.Holds nodes ∧ nodes.map Prod.snd = entries.map Prod.fst
  named : ∀ entry ∈ entries, (t.memory entry.1).map NamedPeer.strIp = some entry.2
  distinct : (entries.map Prod.snd).Nodup
  keys
    : ∃ lists : HashMap Nat,
        t.peers.Represents lists
        ∧ 0 < lists.maxBuckets
        ∧ ∀ key p, lists.find key = some p ↔ (p, key) ∈ entries
  count : t.peerCount = u32 entries.length
  dotted : ∀ entry ∈ entries, ∃ ip, entry.2 = inetNtoa ip
  unallocated : ∀ p, t.allocated ≤ p → t.memory p = none

theorem new_lists : new.Lists [] where
  chain := ⟨[], PtrList.nil_holds, rfl⟩
  named := by simp
  distinct := List.nodup_nil
  keys := ⟨HashMap.new 500, HashMapCells.new_represents 500, by decide, by simp [HashMap.find_new]⟩
  count := rfl
  dotted := by simp
  unallocated := fun _ _ => rfl

/-- A change of the memory that keeps every string keeps the registry. -/
theorem Lists.of_names (lists : t.Lists entries) {memory : Nat → Option NamedPeer}
    (names : ∀ p, (memory p).map NamedPeer.strIp = (t.memory p).map NamedPeer.strIp)
    : ({ t with memory } : PeerRegistry).Lists entries where
  chain := lists.chain
  named entry member := (names entry.1).trans (lists.named entry member)
  distinct := lists.distinct
  keys := lists.keys
  count := lists.count
  dotted := lists.dotted
  unallocated := by
    intro p above
    have same := names p
    rw [lists.unallocated p above] at same
    simpa using same

theorem setPeer_names (t : PeerRegistry) (p : Nat) (peer : Peer) (other : Nat)
    : ((t.setPeer p peer).memory other).map NamedPeer.strIp
      = (t.memory other).map NamedPeer.strIp := by
  simp only [setPeer, Function.update_apply]
  split
  · rename_i same
    rw [same, Option.map_map]
    rfl
  · rfl

theorem Lists.setPeer (lists : t.Lists entries) (p : Nat) (peer : Peer)
    : (t.setPeer p peer).Lists entries :=
  lists.of_names (t.setPeer_names p peer)

theorem Lists.found (lists : t.Lists entries) {entry : Nat × CString} (member : entry ∈ entries)
    : ∃ named, t.memory entry.1 = some named ∧ named.strIp = entry.2 :=
  Option.map_eq_some_iff.mp (lists.named entry member)

theorem Lists.strIp_eq (lists : t.Lists entries) {entry : Nat × CString}
    (member : entry ∈ entries)
    : t.strIp entry.1 = .ok entry.2 := by
  obtain ⟨named, found, name⟩ := lists.found member
  rw [strIp, found, ← name]

/-- Every string belongs to one peer. -/
theorem Lists.unique (lists : t.Lists entries) {p other : Nat} {strIp : CString}
    (first : (p, strIp) ∈ entries) (second : (other, strIp) ∈ entries)
    : p = other :=
  congrArg Prod.fst (List.inj_on_of_nodup_map lists.distinct first second rfl)

-----------------------------------------------------------------------------------------
-- One peer taken out and put back
-----------------------------------------------------------------------------------------

/-- A listed string is found in the map, and the peer is back under it afterwards. -/
theorem Lists.takePeer (lists : t.Lists entries) {entry : Nat × CString}
    (member : entry ∈ entries) (item : Option Nat)
    : ∃ peers,
        t.takePeer entry.2 item = .ok ({ t with peers }, entry.1)
        ∧ ({ t with peers } : PeerRegistry).Lists entries := by
  obtain ⟨map, represents, someBucket, keys⟩ := lists.keys
  obtain ⟨taken, returned, left⟩ := represents.get someBucket entry.2
  have bound : map.find entry.2 = some entry.1 := (keys entry.2 entry.1).mpr member
  rw [map.get_fst, bound] at returned
  have absent : (map.get entry.2).2.find entry.2 = none := by simp [map.find_get_snd]
  have sameMax : 0 < (map.get entry.2).2.maxBuckets := by
    rw [map.get_maxBuckets]
    exact someBucket
  obtain ⟨peers, stored, kept⟩ := left.set_absent sameMax absent entry.1 item
  refine ⟨peers, ?_, lists.chain, lists.named, lists.distinct, ⟨_, kept, sameMax, ?_⟩, lists.count,
    lists.dotted, lists.unallocated⟩
  · rw [PeerRegistry.takePeer, bind_of_ok returned]
    dsimp only
    rw [lists.strIp_eq member, bind_of_ok rfl, bind_of_ok stored]
  · intro key p
    rw [HashMap.find_append, map.find_get_snd]
    by_cases same : key = entry.2
    · rw [if_pos same, same]
      constructor
      · intro here
        cases here
        exact member
      · intro here
        rw [lists.unique here member]
    · rw [if_neg same, if_neg same]
      exact keys key p

-----------------------------------------------------------------------------------------
-- Loops over the peers
-----------------------------------------------------------------------------------------

/-- What a loop body does with the peer behind those of `before`: it returns, with what the next
turn relies on or, when it leaves the loop, with a result of that kind.
-/
def BodyKeeps {β : Type} (body : Nat → Peer → β → Except Fault (Peer × β × Bool))
    (relies : List Nat → β → Prop) (leaves : β → Prop) (all : List Nat)
    : Prop :=
  ∀ before p after peer collected,
    before ++ p :: after = all
    → relies before collected
    → ∃ changed next goesOn,
        body p peer collected = .ok (changed, next, goesOn)
        ∧ if goesOn then relies (before ++ [p]) next else leaves next

/-- How a loop ends: it has visited all peers in their order, or it was left at one of them. -/
inductive LoopEnd {β : Type} (relies : List Nat → β → Prop) (leaves : β → Prop)
    (before all visited : List Nat) (result : β)
    : Prop where
  | complete (every : visited = all) (holds : relies (before ++ visited) result)
  | left (some : visited <+: all) (reason : leaves result)

/-- A loop over the rest of the peers, whose body returns. -/
theorem Lists.traverse {β : Type} {body : Nat → Peer → β → Except Fault (Peer × β × Bool)}
    {relies : List Nat → β → Prop} {leaves : β → Prop}
    (keeps : BodyKeeps body relies leaves (entries.map Prod.fst)) (stack : Nat → Option Nat)
    {after : List (Nat × Nat)} {before : List Nat} {steps : Nat} {peerIp : Option Nat}
    {collected : β} (lists : t.Lists entries)
    (path : Segment t.peerIps.heap peerIp after none) (enough : after.length < steps)
    (split : before ++ after.map Prod.snd = entries.map Prod.fst)
    (holds : relies before collected)
    : ∃ next result visited,
        PeerRegistry.traverse body stack steps peerIp t collected = .ok (next, result, visited)
        ∧ next.Lists entries
        ∧ LoopEnd relies leaves before (after.map Prod.snd) visited result := by
  induction after generalizing before steps peerIp collected t with
  | nil =>
      obtain rfl : peerIp = none := path
      cases steps with
      | zero => cases enough
      | succ steps =>
          exact ⟨t, collected, [], rfl, lists, .complete rfl (by simpa using holds)⟩
  | cons node rest ih =>
      obtain ⟨next, rfl, cell, later⟩ := path
      cases steps with
      | zero => cases enough
      | succ steps =>
          rw [List.map_cons] at split
          obtain ⟨entry, member, same⟩ : ∃ entry ∈ entries, entry.1 = node.2 :=
            List.mem_map.mp (split ▸ by simp)
          obtain ⟨peers, taken, kept⟩ := lists.takePeer member (stack node.1)
          obtain ⟨named, found, -⟩ := kept.found member
          obtain ⟨changed, result, goesOn, returned, followed⟩ :=
            keeps before node.2 (rest.map Prod.snd) named.peer collected split holds
          have entered
              : ∀ rest,
                  (t.strIp node.2).bind (fun strIp => (t.takePeer strIp (stack node.1)).bind rest)
                  = (rest ({ t with peers }, node.2)
                    : Except Fault (PeerRegistry × β × List Nat)) := by
            intro rest
            rw [← same, lists.strIp_eq member, bind_of_ok rfl, bind_of_ok taken]
          rw [same] at found
          rw [PeerRegistry.traverse, cell]
          dsimp only
          rw [entered]
          dsimp only
          rw [found]
          dsimp only
          rw [bind_of_ok returned]
          dsimp only
          cases goesOn with
          | false =>
              refine ⟨_, result, [node.2], rfl, kept.setPeer node.2 changed, .left ?_ followed⟩
              exact ⟨rest.map Prod.snd, rfl⟩
          | true =>
              obtain ⟨final, outcome, visited, walked, ends, loopEnd⟩ :=
                ih (kept.setPeer node.2 changed) later (by simpa using enough)
                  (by simpa using split) followed
              rw [if_pos rfl, walked, bind_of_ok rfl]
              refine ⟨final, outcome, node.2 :: visited, rfl, ends, ?_⟩
              cases loopEnd with
              | complete every holds =>
                  exact .complete (by rw [every, List.map_cons]) (by simpa using holds)
              | left some reason => exact .left ((List.prefix_cons_inj node.2).mpr some) reason

/-- A loop over all peers, whose body returns. -/
theorem Lists.overPeers {β : Type} {body : Nat → Peer → β → Except Fault (Peer × β × Bool)}
    {relies : List Nat → β → Prop} {leaves : β → Prop} (lists : t.Lists entries)
    (keeps : BodyKeeps body relies leaves (entries.map Prod.fst)) (stack : Nat → Option Nat)
    {collected : β} (holds : relies [] collected)
    : ∃ next result visited,
        t.overPeers body stack collected = .ok (next, result, visited)
        ∧ next.Lists entries
        ∧ LoopEnd relies leaves [] (entries.map Prod.fst) visited result := by
  obtain ⟨nodes, chain, peers⟩ := lists.chain
  obtain ⟨next, result, visited, walked, kept, loopEnd⟩ :=
    lists.traverse keeps stack chain (Nat.lt_succ_of_le chain.length_le) (by simpa using peers)
      holds
  rw [peers] at loopEnd
  exact ⟨next, result, visited, walked, kept, loopEnd⟩

/-- `torrent_run_peers` visits every listed peer, or it fails behind the peers it has visited. -/
theorem Lists.runPeers (lists : t.Lists entries) (refused : Nat → Bool) (stack : Nat → Option Nat)
    : ∃ next exit visited,
        t.runPeers refused stack = .ok (next, exit, visited)
        ∧ next.Lists entries
        ∧ visited <+: entries.map Prod.fst
        ∧ (exit = .success → visited = entries.map Prod.fst) := by
  have keeps
      : BodyKeeps (runBody refused) (fun _ _ => True) (fun exit => exit = .failure)
          (entries.map Prod.fst) := by
    intro before p after peer collected _ _
    unfold runBody
    by_cases running : peer.running
    · exact ⟨peer, .success, true, if_pos running, by simp⟩
    · rw [if_neg running]
      refine ⟨_, _, _, rfl, ?_⟩
      cases refused p <;> simp
  obtain ⟨next, exit, visited, returned, kept, loopEnd⟩ := lists.overPeers keeps stack trivial
  refine ⟨next, exit, visited, returned, kept, ?_⟩
  cases loopEnd with
  | complete every _ => exact ⟨every ▸ List.prefix_refl _, fun _ => every⟩
  | left some reason => exact ⟨some, fun success => by rw [reason] at success; cases success⟩

/-- `torrent_process_data_chunk` visits every listed peer when the block completed a piece. -/
theorem Lists.processDataChunk (lists : t.Lists entries) (pieceId : Int) (written : Exit)
    (stack : Nat → Option Nat)
    : ∃ next visited,
        t.processDataChunk pieceId written stack = .ok (next, visited)
        ∧ next.Lists entries
        ∧ visited = if written = .success then entries.map Prod.fst else [] := by
  have keeps
      : BodyKeeps (progressBody pieceId) (fun _ _ => True) (fun _ => False)
          (entries.map Prod.fst) := by
    intro before p after peer collected _ _
    unfold progressBody
    split <;> exact ⟨_, (), true, rfl, by simp⟩
  cases written with
  | failure => exact ⟨t, [], rfl, lists, rfl⟩
  | success =>
      obtain ⟨next, result, visited, returned, kept, loopEnd⟩ := lists.overPeers keeps stack trivial
      refine ⟨next, visited, ?_, kept, ?_⟩
      · rw [PeerRegistry.processDataChunk]
        dsimp only
        rw [bind_of_ok returned]
      · cases loopEnd with
        | complete every _ => exact every
        | left _ reason => exact reason.elim

-----------------------------------------------------------------------------------------
-- The upload slots
-----------------------------------------------------------------------------------------

/-- No more peers are listed than there are addresses. -/
theorem Lists.length_le (lists : t.Lists entries) : entries.length ≤ 2 ^ 32 := by
  have included
      : entries.map Prod.snd
        ⊆ (List.range (2 ^ 32)).map (fun number => inetNtoa (UInt32.ofNat number)) := by
    intro name member
    obtain ⟨entry, inEntries, rfl⟩ := List.mem_map.mp member
    obtain ⟨ip, dotted⟩ := lists.dotted entry inEntries
    refine List.mem_map.mpr ⟨ip.toNat, List.mem_range.mpr ip.toNat_lt, ?_⟩
    rw [UInt32.ofNat_toNat, dotted]
  simpa using lists.distinct.length_le_of_subset included

/-- The count is the length of the list, unless every address is in it. -/
theorem Lists.count_eq (lists : t.Lists entries)
    : t.peerCount = if entries.length = 2 ^ 32 then 0 else entries.length := by
  have bound := lists.length_le
  rw [lists.count, u32]
  split
  · rename_i every
    rw [every, Nat.mod_self]
  · exact Nat.mod_eq_of_lt (by omega)

/-- The slots are assigned to listed peers. -/
theorem Lists.slotLoop (optimisticIndex : Int) {peers : List Nat}
    (listed : ∀ p ∈ peers, p ∈ entries.map Prod.fst) (lists : t.Lists entries)
    (i uploadingPeers : Nat)
    : ∃ next,
        PeerRegistry.slotLoop optimisticIndex peers i uploadingPeers t = .ok next
        ∧ next.Lists entries := by
  induction peers generalizing t i uploadingPeers with
  | nil => exact ⟨t, rfl, lists⟩
  | cons p rest ih =>
      have restListed : ∀ p ∈ rest, p ∈ entries.map Prod.fst := fun other member =>
        listed other (List.mem_cons_of_mem p member)
      obtain ⟨entry, member, rfl⟩ := List.mem_map.mp (listed p (List.mem_cons_self ..))
      obtain ⟨named, found, -⟩ := lists.found member
      have assigned (uploader : Bool)
          : t.setUploader entry.1 uploader
            = .ok (t.setPeer entry.1 { named.peer with uploader }) := by
        rw [setUploader, found]
      rw [PeerRegistry.slotLoop, assigned, assigned, bind_of_ok rfl, bind_of_ok rfl]
      split <;> exact ih restListed (lists.setPeer _ _) _ _

/-- `torrent_assign_upload_slots` visits every listed peer, or none. -/
theorem Lists.assignUploadSlots (lists : t.Lists entries) (now later : Int) (sorting : Sorting)
    (rand : Nat) (stack : Nat → Option Nat)
    : ∃ next visited,
        t.assignUploadSlots now later sorting rand stack = .ok (next, visited)
        ∧ next.Lists entries
        ∧ visited
          = if now < t.assignUploadSlotsDeadline ∨ t.peerCount = 0 then []
            else entries.map Prod.fst := by
  unfold PeerRegistry.assignUploadSlots
  by_cases early : now < t.assignUploadSlotsDeadline
  · exact ⟨t, [], if_pos early, lists, by simp [early]⟩
  rw [if_neg early]
  by_cases bare : 0 < t.peerCount
  · rw [if_pos bare]
    have timed
        : ({ t with assignUploadSlotsDeadline := later + 10 * 1000 } : PeerRegistry).Lists
            entries :=
      ⟨lists.chain, lists.named, lists.distinct, lists.keys, lists.count, lists.dotted,
        lists.unallocated⟩
    have full : t.peerCount = entries.length := by
      have count := lists.count_eq
      split at count <;> omega
    have keeps
        : BodyKeeps (interestedBody t.peerCount)
            (fun before peers => peers.length ≤ before.length ∧ ∀ p ∈ peers, p ∈ before)
            (fun _ => False) (entries.map Prod.fst) := by
      intro before p after peer peers split relies
      have room : peers.length < t.peerCount := by
        have length := congrArg List.length split
        simp only [List.length_append, List.length_cons, List.length_map] at length
        omega
      unfold interestedBody
      by_cases interested : peer.peerInterested ∧ peer.status = .handshakeComplete
      · rw [if_pos interested, if_pos room]
        refine ⟨peer, peers ++ [p], true, rfl, ?_⟩
        rw [if_pos rfl]
        refine ⟨by simpa using relies.1, fun other member => ?_⟩
        rw [List.mem_append] at member ⊢
        exact member.imp (relies.2 other) id
      · rw [if_neg interested]
        refine ⟨peer, peers, true, rfl, ?_⟩
        rw [if_pos rfl]
        refine ⟨by simp only [List.length_append]; omega, fun other member => ?_⟩
        exact List.mem_append_left _ (relies.2 other member)
    have start : ([] : List Nat).length ≤ ([] : List Nat).length ∧ ∀ p ∈ ([] : List Nat), p ∈ [] :=
      ⟨Nat.le_refl _, fun _ member => member⟩
    obtain ⟨next, peers, visited, returned, kept, loopEnd⟩ := timed.overPeers keeps stack start
    cases loopEnd with
    | left _ reason => exact reason.elim
    | complete every relies =>
        have listed : ∀ p ∈ sorting.sort peers, p ∈ entries.map Prod.fst := by
          intro p member
          rw [← every]
          exact relies.2 p ((sorting.perm peers).mem_iff.mp member)
        obtain ⟨final, assigned, keptFinal⟩ :=
          kept.slotLoop (if 3 < peers.length then randr 3 peers.length rand else -1) listed 0 0
        refine ⟨final, visited, ?_, keptFinal, ?_⟩
        · dsimp only
          rw [bind_of_ok returned]
          dsimp only
          rw [assigned, bind_of_ok rfl]
        · rw [every, if_neg (by omega)]
  · rw [if_neg bare]
    exact ⟨t, [], rfl, lists, by rw [if_pos (by omega)]⟩

end PeerRegistry

end UvgTorrent
