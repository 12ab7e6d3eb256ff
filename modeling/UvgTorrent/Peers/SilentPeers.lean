import UvgTorrent.Peers.Framing
import UvgTorrent.Peers.RunEffects

/-! How long a handshaken peer may stay silent. The threshold of the timeout is half a second below
that of the keep-alive, so a peer is disconnected without one, long before the two and a half
minutes of the comment.
-/

namespace UvgTorrent

open Foundations

namespace Peer

variable {p next : Peer} {lastUpdate previous now : Int}

-----------------------------------------------------------------------------------------
-- One judgement of the silence
-----------------------------------------------------------------------------------------

/-- The timeout comes after more than 119.5 seconds of silence, and while the clock is so low that
the difference wraps.
-/
theorem shouldTimeout_iff (connected : p.socket.isSome = true)
    (handshaken : p.status = .handshakeComplete) (started : 0 ≤ lastUpdate)
    (later : lastUpdate ≤ now) (bounded : now < 2 ^ 63)
    : p.shouldTimeout lastUpdate now = true ↔ now < 119500 ∨ 119500 < now - lastUpdate := by
  simp only [shouldTimeout, connected, handshaken, if_true, true_and, decide_eq_true_eq, u64OfInt]
  omega

/-- The run of a handshaken peer ends without a socket exactly when `peer_should_timeout` holds. -/
theorem runSilence_closes_iff (connected : p.socket.isSome = true)
    (ran : p.runSilence lastUpdate now = .ok next)
    : next.socket = none ↔ p.shouldTimeout lastUpdate now = true := by
  obtain ⟨kept, keeping, same⟩ := bind_eq_ok.mp ran
  have link : p.SameLink kept := by
    split at keeping
    · obtain ⟨⟨_, _⟩, sent, same⟩ := bind_eq_ok.mp keeping
      cases same
      obtain ⟨⟨_, _⟩, wrote, same⟩ := bind_eq_ok.mp sent
      cases same
      exact write_link wrote
    · cases keeping
      exact .refl p
  have stays : kept.socket.isSome = p.socket.isSome := by
    simpa using congrArg Option.isSome link.descriptor
  have judged : kept.shouldTimeout lastUpdate now = p.shouldTimeout lastUpdate now := by
    rw [shouldTimeout, shouldTimeout, stays, link.status]
  obtain rfl := Except.ok.inj same
  rw [judged]
  by_cases timeout : p.shouldTimeout lastUpdate now = true
  · rw [if_pos timeout]
    exact iff_of_true rfl timeout
  · rw [if_neg timeout]
    refine iff_of_false (fun closed => ?_) timeout
    rw [closed, connected] at stays
    cases stays

-----------------------------------------------------------------------------------------
-- A silent period
-----------------------------------------------------------------------------------------

/-- A `peer_run` in a silent period: the peer and the clock where its silence is judged. -/
structure SilentRun where
  peer : Peer
  now : Int

/-- Runs of a handshaken peer, each less than half a second behind the one before. -/
def SilentPeriod : Int → List SilentRun → Prop
  | _, [] => True
  | previous, run :: rest =>
      (run.peer.socket.isSome = true ∧ run.peer.status = .handshakeComplete)
      ∧ (previous ≤ run.now ∧ run.now < previous + 500 ∧ run.now < 2 ^ 63)
      ∧ SilentPeriod run.now rest

/-- A run that ends in the timeout has a run with a keep-alive before it, and comes after two and a
half minutes of silence.
-/
def KeepsAliveFirst (lastUpdate : Int) (runs : List SilentRun) : Prop :=
  ∀ before run after,
    runs = before ++ run :: after
    → run.peer.shouldTimeout lastUpdate run.now = true
    → (∃ earlier ∈ before, earlier.peer.shouldSendKeepalive lastUpdate earlier.now = true)
      ∧ 150 * 1000 ≤ run.now - lastUpdate

variable {runs : List SilentRun}

/-- Every run of a period comes behind its start, and its timeout is that of its silence. -/
theorem SilentPeriod.shouldTimeout_iff (period : SilentPeriod previous runs)
    (started : 0 ≤ lastUpdate) (later : lastUpdate ≤ previous) {run : SilentRun}
    (member : run ∈ runs)
    : run.peer.shouldTimeout lastUpdate run.now = true
      ↔ run.now < 119500 ∨ 119500 < run.now - lastUpdate := by
  induction runs generalizing previous with
  | nil => cases member
  | cons first rest hyp =>
      obtain ⟨⟨connected, handshaken⟩, ⟨ordered, _, bounded⟩, rest⟩ := period
      have behind : lastUpdate ≤ first.now := Int.le_trans later ordered
      cases member with
      | head => exact Peer.shouldTimeout_iff connected handshaken started behind bounded
      | tail _ member => exact hyp rest behind member

/-- While the silence before a period is at most 119.5 seconds, the first timeout of the period
comes before 120 seconds.
-/
theorem SilentPeriod.early_timeout (period : SilentPeriod previous runs)
    (started : 0 ≤ lastUpdate) (later : lastUpdate ≤ previous)
    (short : previous - lastUpdate ≤ 119500)
    (timeouts : ∃ run ∈ runs, run.peer.shouldTimeout lastUpdate run.now = true)
    : ∃ run ∈ runs,
        run.peer.shouldTimeout lastUpdate run.now = true ∧ run.now - lastUpdate < 120000 := by
  induction runs generalizing previous with
  | nil =>
      obtain ⟨_, member, _⟩ := timeouts
      cases member
  | cons first rest hyp =>
      have judged := period.shouldTimeout_iff started later List.mem_cons_self
      obtain ⟨⟨connected, handshaken⟩, ⟨ordered, close, bounded⟩, rest⟩ := period
      by_cases timeout : first.peer.shouldTimeout lastUpdate first.now = true
      · exact ⟨first, List.mem_cons_self, timeout, by omega⟩
      · have still : first.now - lastUpdate ≤ 119500 := by
          rw [judged] at timeout
          omega
        obtain ⟨run, member, timesOut⟩ := timeouts
        have behind : run ∈ _ := (List.mem_cons.mp member).resolve_left (by
          rintro rfl
          exact timeout timesOut)
        obtain ⟨run, member, early⟩ :=
          hyp rest (Int.le_trans later ordered) still ⟨run, behind, timesOut⟩
        exact ⟨run, List.mem_cons_of_mem first member, early⟩

/-- The keep-alive comes first exactly when no run comes more than 119.5 seconds after the last
received bytes.
-/
theorem keepsAliveFirst_iff (started : 0 ≤ lastUpdate) (period : SilentPeriod lastUpdate runs)
    : KeepsAliveFirst lastUpdate runs
      ↔ ∀ run ∈ runs, 119500 ≤ run.now ∧ run.now - lastUpdate ≤ 119500 := by
  constructor
  · intro first run member
    by_contra exceeds
    have timeout : run.peer.shouldTimeout lastUpdate run.now = true := by
      rw [period.shouldTimeout_iff started (Int.le_refl _) member]
      omega
    obtain ⟨run, member, timeout, early⟩ := period.early_timeout started (Int.le_refl _) (by omega)
      ⟨run, member, timeout⟩
    obtain ⟨before, after, runs⟩ := List.append_of_mem member
    obtain ⟨_, late⟩ := first before run after runs timeout
    omega
  · intro short before run after split timeout
    have member : run ∈ runs := by
      rw [split]
      exact List.mem_append_right before List.mem_cons_self
    obtain ⟨high, within⟩ := short run member
    rw [period.shouldTimeout_iff started (Int.le_refl _) member] at timeout
    omega

-----------------------------------------------------------------------------------------
-- Two minutes of silence
-----------------------------------------------------------------------------------------

/-- The runs of a silent peer every 499 milliseconds, up to the first that is behind 119.5 seconds.
-/
def twoSilentMinutes : List SilentRun :=
  (List.range 239).map (fun index => { peer := handshakenPeer [], now := 499 * (index + 1 + 1000) })
  ++ [{ peer := handshakenPeer [], now := 499 * 1000 + 119501 }]

instance : (previous : Int) → (runs : List SilentRun) → Decidable (SilentPeriod previous runs)
  | _, [] => isTrue trivial
  | _, run :: rest =>
      have := instDecidableSilentPeriod run.now rest
      inferInstanceAs (Decidable (_ ∧ _ ∧ _))

/-- Witness: half a minute of silence. -/
theorem keepsAliveFirst_halfMinute
    : KeepsAliveFirst (499 * 1000) (twoSilentMinutes.take 60) := by
  refine (keepsAliveFirst_iff (by decide) (by decide +kernel)).mpr ?_
  decide +kernel

/-- The last run is disconnected after less than two minutes of silence. -/
theorem silent_peer_times_out_early
    : SilentPeriod (499 * 1000) twoSilentMinutes
      ∧ ¬ KeepsAliveFirst (499 * 1000) twoSilentMinutes := by
  refine ⟨by decide +kernel, fun first => ?_⟩
  obtain ⟨_, late⟩ := first _ _ _ rfl (by decide +kernel)
  exact absurd late (by decide +kernel)

end Peer

end UvgTorrent
