import UvgTorrent.Torrents.PeerListing

/-! Runs of the main thread over the peers of a torrent: peers are added, and every loop over them
finds all of them.
-/

namespace UvgTorrent

open Foundations

namespace PeerRegistry

variable {t : PeerRegistry} {entries : List (Nat × CString)}

-----------------------------------------------------------------------------------------
-- Adding peers
-----------------------------------------------------------------------------------------

theorem endLoop_eq {peerIps : PtrList Nat} {slot : Slot} {before after : List (Nat × Nat)}
    {steps : Nat} (opened : peerIps.At slot before after) (enough : after.length < steps)
    : endLoop peerIps steps slot = .ok (slotAfter (before ++ after)) := by
  induction after generalizing before slot steps with
  | nil =>
      cases steps with
      | zero => cases enough
      | succ steps =>
          rw [endLoop, opened.load, List.append_nil, ← opened.slot_eq]
          rfl
  | cons node rest ih =>
      cases steps with
      | zero => cases enough
      | succ steps =>
          rw [endLoop, opened.load]
          simpa using ih opened.advance (Nat.lt_of_succ_lt_succ enough)

theorem newPeer_memory_of_ne (t : PeerRegistry) (ip : UInt32) (peer : Peer) {p : Nat}
    (old : p ≠ t.allocated)
    : (t.newPeer ip peer).memory p = t.memory p :=
  Function.update_of_ne old _ _

theorem newPeer_memory_self (t : PeerRegistry) (ip : UInt32) (peer : Peer)
    : (t.newPeer ip peer).memory t.allocated = some ⟨inetNtoa ip, peer⟩ :=
  Function.update_self _ _ _

theorem newPeer_strIp (t : PeerRegistry) (ip : UInt32) (peer : Peer)
    : (t.newPeer ip peer).strIp t.allocated = .ok (inetNtoa ip) := by
  rw [strIp, newPeer_memory_self]

theorem Lists.ne_allocated (lists : t.Lists entries) {entry : Nat × CString}
    (member : entry ∈ entries)
    : entry.1 ≠ t.allocated := by
  intro same
  obtain ⟨named, found, -⟩ := lists.found member
  rw [lists.unallocated entry.1 (Nat.le_of_eq same.symm)] at found
  cases found

/-- A new peer does not change the registry until it is added. -/
theorem Lists.newPeer (lists : t.Lists entries) (ip : UInt32) (peer : Peer)
    : (t.newPeer ip peer).Lists entries where
  chain := lists.chain
  named := by
    intro entry member
    rw [t.newPeer_memory_of_ne ip peer (lists.ne_allocated member)]
    exact lists.named entry member
  distinct := lists.distinct
  keys := lists.keys
  count := lists.count
  dotted := lists.dotted
  unallocated := by
    intro p above
    have later : t.allocated + 1 ≤ p := above
    rw [t.newPeer_memory_of_ne ip peer (by omega)]
    exact lists.unallocated p (by omega)

/-- A peer whose string is listed is freed. -/
theorem Lists.addPeer_listed (lists : t.Lists entries) {ip : UInt32}
    (listed : inetNtoa ip ∈ entries.map Prod.snd) (peer : Peer) (item : Option Nat)
    : ∃ next,
        (t.newPeer ip peer).addPeer t.allocated item = .ok (next, .success)
        ∧ next.Lists entries := by
  have made := lists.newPeer ip peer
  obtain ⟨map, represents, someBucket, keys⟩ := made.keys
  obtain ⟨entry, member, same⟩ := List.mem_map.mp listed
  have bound : map.hasKey (inetNtoa ip) = true := by
    rw [HashMap.hasKey, ← same, (keys entry.2 entry.1).mpr member]
    rfl
  have name := t.newPeer_strIp ip peer
  let freed := Function.update (t.newPeer ip peer).memory t.allocated none
  refine ⟨{ t.newPeer ip peer with memory := freed }, ?_, made.chain, ?_, made.distinct, made.keys,
    made.count, made.dotted, ?_⟩
  · rw [addPeer, bind_of_ok name, represents.hasKey someBucket, bind_of_ok rfl, if_pos bound]
  · intro other inEntries
    have kept : freed other.1 = (t.newPeer ip peer).memory other.1 :=
      Function.update_of_ne (lists.ne_allocated inEntries) _ _
    exact (congrArg _ kept).trans (made.named other inEntries)
  · intro p above
    have later : t.allocated + 1 ≤ p := above
    exact (Function.update_of_ne (by omega) _ _).trans (made.unallocated p above)

/-- A peer whose string is not listed comes to the end of the list. -/
theorem Lists.addPeer_unlisted (lists : t.Lists entries) {ip : UInt32}
    (unlisted : inetNtoa ip ∉ entries.map Prod.snd) (peer : Peer) (item : Option Nat)
    : ∃ next,
        (t.newPeer ip peer).addPeer t.allocated item = .ok (next, .success)
        ∧ next.Lists (entries ++ [(t.allocated, inetNtoa ip)]) := by
  have made := lists.newPeer ip peer
  obtain ⟨map, represents, someBucket, keys⟩ := made.keys
  obtain ⟨nodes, chain, values⟩ := made.chain
  have absent : map.find (inetNtoa ip) = none := by
    cases found : map.find (inetNtoa ip) with
    | none => rfl
    | some p => exact absurd (List.mem_map_of_mem ((keys _ p).mp found)) unlisted
  have name := t.newPeer_strIp ip peer
  obtain ⟨peers, stored, kept⟩ := represents.set_absent someBucket absent t.allocated item
  have ends := endLoop_eq chain.at_head (Nat.lt_succ_of_le chain.length_le)
  let next : PeerRegistry :=
    {
      t.newPeer ip peer with
      peers
      peerIps
        := (t.peerIps.allocLast t.allocated).store (slotAfter nodes) (some t.peerIps.heap.fresh)
      peerCount := u32 (t.peerCount + 1)
    }
  refine
    ⟨next, ?_, ⟨_, chain.linkAfter t.allocated, ?_⟩, ?_, ?_, ⟨_, kept, someBucket, ?_⟩, ?_, ?_, ?_⟩
  · rw [addPeer, bind_of_ok name, represents.hasKey someBucket, bind_of_ok rfl, HashMap.hasKey,
      absent, Option.isSome_none, if_neg Bool.false_ne_true, bind_of_ok stored]
    dsimp only
    rw [ends, bind_of_ok rfl, List.nil_append]
    rfl
  · rw [List.map_append, List.map_append, values]
    rfl
  · intro entry member
    rcases List.mem_append.mp member with old | new
    · exact made.named entry old
    · rw [List.mem_singleton.mp new]
      exact congrArg (Option.map NamedPeer.strIp) (t.newPeer_memory_self ip peer)
  · rw [List.map_append, List.nodup_append]
    refine ⟨lists.distinct, by simp, ?_⟩
    rintro name old other new rfl
    have same : name = inetNtoa ip := List.mem_singleton.mp new
    exact unlisted (same ▸ old)
  · intro key p
    rw [HashMap.find_append, List.mem_append, List.mem_singleton]
    by_cases same : key = inetNtoa ip
    · rw [if_pos same, same]
      constructor
      · intro here
        cases here
        exact .inr rfl
      · rintro (old | new)
        · exact absurd (List.mem_map_of_mem old) unlisted
        · rw [(Prod.mk.inj new).1]
    · rw [if_neg same, keys]
      simp [same]
  · have count : t.peerCount = u32 entries.length := lists.count
    simp only [next, count, u32, List.length_append, List.length_singleton]
    omega
  · intro entry member
    rcases List.mem_append.mp member with old | new
    · exact lists.dotted entry old
    · exact ⟨ip, by rw [List.mem_singleton.mp new]⟩
  · exact made.unallocated

-----------------------------------------------------------------------------------------
-- Runs
-----------------------------------------------------------------------------------------

/-- A traversal visits the listed peers in their order, each once, and leaves the same peers listed.
`torrent_run_peers` may fail on the way; the other two have no peers to visit when there is nothing
to do.
-/
def VisitsListed (t : PeerRegistry) : RegistryAction → Prop
  | .addPeer _ _ _ => True
  | .workers _ => True
  | .runPeers refused stack =>
      ∃ entries next exit visited,
        t.Lists entries
        ∧ t.runPeers refused stack = .ok (next, exit, visited)
        ∧ next.Lists entries
        ∧ visited <+: entries.map Prod.fst
        ∧ (exit = .success → visited = entries.map Prod.fst)
  | .assignUploadSlots now later sorting rand stack =>
      ∃ entries next visited,
        t.Lists entries
        ∧ t.assignUploadSlots now later sorting rand stack = .ok (next, visited)
        ∧ next.Lists entries
        ∧ visited
          = if now < t.assignUploadSlotsDeadline ∨ t.peerCount = 0 then []
            else entries.map Prod.fst
  | .processDataChunk pieceId written stack =>
      ∃ entries next visited,
        t.Lists entries
        ∧ t.processDataChunk pieceId written stack = .ok (next, visited)
        ∧ next.Lists entries
        ∧ visited = if written = .success then entries.map Prod.fst else []

/-- Some peers are registered. -/
def Registered (t : PeerRegistry) : Prop := ∃ entries, t.Lists entries

/-- The entries of a registry after a peer is added. -/
def withPeer (entries : List (Nat × CString)) (p : Nat) (ip : UInt32) : List (Nat × CString) :=
  if inetNtoa ip ∈ entries.map Prod.snd then entries else entries ++ [(p, inetNtoa ip)]

theorem Lists.addPeer (lists : t.Lists entries) (ip : UInt32) (peer : Peer) (item : Option Nat)
    : ∃ next,
        t.step (.addPeer ip peer item) = .ok next
        ∧ next.Lists (withPeer entries t.allocated ip) := by
  unfold withPeer
  by_cases listed : inetNtoa ip ∈ entries.map Prod.snd
  · obtain ⟨next, returned, kept⟩ := lists.addPeer_listed listed peer item
    rw [if_pos listed]
    exact ⟨next, by rw [step, returned]; rfl, kept⟩
  · obtain ⟨next, returned, kept⟩ := lists.addPeer_unlisted listed peer item
    rw [if_neg listed]
    exact ⟨next, by rw [step, returned]; rfl, kept⟩

/-- Every action returns to a registry, and traversals visit the peers of it. -/
theorem Registered.step (registered : t.Registered) (action : RegistryAction)
    : t.VisitsListed action ∧ ∃ next, t.step action = .ok next ∧ next.Registered := by
  obtain ⟨entries, lists⟩ := registered
  cases action with
  | addPeer ip peer item =>
      obtain ⟨next, stepped, kept⟩ := lists.addPeer ip peer item
      exact ⟨trivial, next, stepped, _, kept⟩
  | workers change =>
      refine ⟨trivial, _, rfl, entries, lists.of_names (fun p => ?_)⟩
      rw [Option.map_map]
      rfl
  | runPeers refused stack =>
      obtain ⟨next, exit, visited, returned, kept, order, every⟩ := lists.runPeers refused stack
      refine ⟨⟨entries, next, exit, visited, lists, returned, kept, order, every⟩, next, ?_,
        entries, kept⟩
      rw [PeerRegistry.step, returned]
      rfl
  | assignUploadSlots now later sorting rand stack =>
      obtain ⟨next, visited, returned, kept, every⟩ :=
        lists.assignUploadSlots now later sorting rand stack
      refine ⟨⟨entries, next, visited, lists, returned, kept, every⟩, next, ?_, entries, kept⟩
      rw [PeerRegistry.step, returned]
      rfl
  | processDataChunk pieceId written stack =>
      obtain ⟨next, visited, returned, kept, every⟩ := lists.processDataChunk pieceId written stack
      refine ⟨⟨entries, next, visited, lists, returned, kept, every⟩, next, ?_, entries, kept⟩
      rw [PeerRegistry.step, returned]
      rfl

theorem Registered.kept {action : RegistryAction} {next : PeerRegistry}
    (registered : t.Registered) (stepped : t.step action = .ok next)
    : next.Registered := by
  obtain ⟨_, other, returned, kept⟩ := registered.step action
  rw [stepped] at returned
  cases returned
  exact kept

/-- Every state of a run is a registry of some peers. -/
theorem registered_of_run {actions : List RegistryAction} {final : PeerRegistry}
    (run : runSteps PeerRegistry.step new actions = .ok final)
    : final.Registered :=
  runSteps_invariant (fun _ _ _ registered _ stepped => registered.kept stepped) ⟨[], new_lists⟩
    (Guarded.of_forall (fun _ _ => trivial) new actions) run

/-- Every run of the main thread returns. In each of its states the list and the map hold the same
peers, each under its own string, and each traversal of the run visits them.
-/
theorem peers_stay_registered (actions : List RegistryAction)
    : (∃ final entries,
        runSteps step new actions = .ok final
        ∧ final.Lists entries
        ∧ final.peerCount = if entries.length = 2 ^ 32 then 0 else entries.length)
      ∧ Guarded step VisitsListed new actions := by
  have start : Registered new := ⟨[], new_lists⟩
  constructor
  · have returns
        : ∀ state, Registered state → ∀ action ∈ actions,
            ∃ next, step state action = .ok next ∧ Registered next :=
      fun state registered action _ => (Registered.step registered action).2
    obtain ⟨final, run, entries, lists⟩ := runSteps_returns returns start
    exact ⟨final, entries, run, lists, lists.count_eq⟩
  · refine Guarded.of_invariant (fun state action (registered : Registered state) _ => ?_) start
      (Guarded.of_forall (fun _ _ => trivial) new actions)
    exact ⟨(Registered.step registered action).1, fun _ stepped => registered.kept stepped⟩

-----------------------------------------------------------------------------------------
-- A peer for every address
-----------------------------------------------------------------------------------------

theorem formatInt_no_dot (number : Nat) : 46 ∉ formatInt number := by
  simp only [formatInt, Int.natAbs_natCast]
  rw [if_neg (by omega)]
  intro dot
  obtain ⟨char, member, same⟩ := List.mem_map.mp dot
  have digit := Nat.isDigit_of_mem_toDigits (by norm_num) (by norm_num) member
  simp only [Char.isDigit, Bool.and_eq_true, decide_eq_true_eq] at digit
  have lower : 48 ≤ char.toNat := by simpa using UInt32.le_iff_toNat_le.mp digit.1
  have upper : char.toNat ≤ 57 := by simpa using UInt32.le_iff_toNat_le.mp digit.2
  have value : char.toNat % 256 = 46 := by simpa using congrArg UInt8.toNat same
  omega

/-- The text before the first dot, and the text behind it. -/
theorem dot_inj {first second rest other : CString} (firstPlain : 46 ∉ first)
    (secondPlain : 46 ∉ second) (same : first ++ 46 :: rest = second ++ 46 :: other)
    : first = second ∧ rest = other := by
  induction first generalizing second with
  | nil =>
      cases second with
      | nil => exact ⟨rfl, (List.cons.inj same).2⟩
      | cons byte more =>
          have dot := (List.cons.inj same).1
          simp [← dot] at secondPlain
  | cons byte more ih =>
      cases second with
      | nil =>
          have dot := (List.cons.inj same).1
          simp [dot] at firstPlain
      | cons other more' =>
          obtain ⟨rfl, later⟩ := List.cons.inj same
          obtain ⟨rfl, rests⟩ := ih (fun dot => firstPlain (List.mem_cons_of_mem _ dot))
            (fun dot => secondPlain (List.mem_cons_of_mem _ dot)) later
          exact ⟨rfl, rests⟩

/-- Different addresses have different strings. -/
theorem inetNtoa_injective {first second : UInt32} (same : inetNtoa first = inetNtoa second)
    : first = second := by
  unfold inetNtoa at same
  obtain ⟨a, same⟩ := dot_inj (formatInt_no_dot _) (formatInt_no_dot _) same
  obtain ⟨b, same⟩ := dot_inj (formatInt_no_dot _) (formatInt_no_dot _) same
  obtain ⟨c, d⟩ := dot_inj (formatInt_no_dot _) (formatInt_no_dot _) same
  have a := formatInt_injective a
  have b := formatInt_injective b
  have c := formatInt_injective c
  have d := formatInt_injective d
  apply UInt32.toNat_inj.mp
  omega

/-- One new peer for each of the given addresses. -/
def addPeers (ips : List UInt32) : List RegistryAction :=
  ips.map fun ip => .addPeer ip (Peer.new 0) none

/-- Peers with new, different addresses are all listed. -/
theorem Lists.addPeers (lists : t.Lists entries) {ips : List UInt32} (distinct : ips.Nodup)
    (unlisted : ∀ ip ∈ ips, inetNtoa ip ∉ entries.map Prod.snd)
    : ∃ final all,
        runSteps PeerRegistry.step t (PeerRegistry.addPeers ips) = .ok final
        ∧ final.Lists all
        ∧ all.length = entries.length + ips.length := by
  induction ips generalizing t entries with
  | nil => exact ⟨t, entries, rfl, lists, rfl⟩
  | cons ip rest ih =>
      rw [List.nodup_cons] at distinct
      obtain ⟨next, stepped, kept⟩ := lists.addPeer ip (Peer.new 0) none
      rw [withPeer, if_neg (unlisted ip (List.mem_cons_self ..))] at kept
      have others
          : ∀ other ∈ rest,
              inetNtoa other ∉ (entries ++ [(t.allocated, inetNtoa ip)]).map Prod.snd := by
        intro other member
        rw [List.map_append, List.mem_append, not_or]
        refine ⟨unlisted other (List.mem_cons_of_mem ip member), fun here => ?_⟩
        have same := inetNtoa_injective (List.mem_singleton.mp here)
        exact distinct.1 (same ▸ member)
      obtain ⟨final, all, run, final_lists, length⟩ := ih kept distinct.2 others
      refine ⟨final, all, runSteps_cons_eq_ok.mpr ⟨next, stepped, run⟩, final_lists, ?_⟩
      simp only [length, List.length_append, List.length_cons, List.length_nil]
      omega

/-- All addresses. -/
def everyAddress : List UInt32 := (List.range (2 ^ 32)).map UInt32.ofNat

/-- When a peer of every address was added, the count has wrapped and the list has them all. -/
theorem count_wraps
    : ¬ ∃ final entries,
        runSteps step new (addPeers everyAddress) = .ok final
        ∧ final.Lists entries
        ∧ final.peerCount = entries.length := by
  rintro ⟨final, entries, run, lists, count⟩
  have distinct : everyAddress.Nodup := by
    refine List.Nodup.map_on (fun first inFirst second inSecond same => ?_) List.nodup_range
    rw [List.mem_range] at inFirst inSecond
    have values := congrArg UInt32.toNat same
    rwa [UInt32.toNat_ofNat_of_lt' inFirst, UInt32.toNat_ofNat_of_lt' inSecond] at values
  obtain ⟨reached, all, reachedRun, allLists, length⟩ :=
    new_lists.addPeers distinct (fun _ _ => by simp)
  rw [run] at reachedRun
  cases reachedRun
  have sameLength : entries.length = all.length := by
    obtain ⟨nodes, chain, values⟩ := lists.chain
    obtain ⟨others, otherChain, otherValues⟩ := allLists.chain
    have same := Segment.unique chain otherChain
    rw [same, otherValues] at values
    simpa using (congrArg List.length values).symm
  have every : entries.length = 2 ^ 32 := by
    rw [sameLength, length, everyAddress, List.length_map, List.length_range, List.length_nil]
    rfl
  rw [lists.count_eq, if_pos every, every] at count
  cases count

end PeerRegistry

end UvgTorrent
