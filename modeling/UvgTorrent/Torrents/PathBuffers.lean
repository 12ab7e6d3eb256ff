import UvgTorrent.Torrents.MetadataMessages

/-! The two buffers of 4096 bytes in which the path of a file of the metadata is put together. The
counter of the first charges a component with its length, the buffer also takes a slash for each;
the second takes the root path in front, for which neither has a check.
-/

namespace UvgTorrent

open Foundations

/-- The bytes of a string. -/
def BeNode.text : BeNode → Option Bytes
  | .str bytes => some bytes
  | _ => none

/-- The loop of `joinPath` over components that are strings, into a buffer without an end: `none`
when the path is refused as too long.
-/
def joinComponents : List Bytes → Nat → CString → Option CString
  | [], _, path => some path
  | component :: rest, remaining, path =>
      if remaining < component.length then none
      else
        joinComponents rest (remaining - component.length)
          (path ++ [47] ++ BeNode.cstr component)

/-- What the counter of the loop charges for the components. -/
def chargedLength (components : List Bytes) : Nat := (components.map List.length).sum

/-- What the loop appends for the components. -/
def appendedPath (components : List Bytes) : CString :=
  components.flatMap fun component => 47 :: BeNode.cstr component

/-- How much the loop appends: a slash for each component, and its text up to the first NUL. -/
def appendedLength (components : List Bytes) : Nat :=
  (components.map fun component => 1 + (BeNode.cstr component).length).sum

variable {components : List Bytes} {remaining : Nat} {path joined : CString}

-----------------------------------------------------------------------------------------
-- The loop
-----------------------------------------------------------------------------------------

theorem appendedPath_length (components : List Bytes)
    : (appendedPath components).length = appendedLength components := by
  simp [appendedPath, appendedLength, List.length_flatMap, Nat.add_comm]

theorem joinComponents_eq (components : List Bytes) (remaining : Nat) (path : CString)
    : joinComponents components remaining path
      = if chargedLength components ≤ remaining then some (path ++ appendedPath components)
        else none := by
  induction components generalizing remaining path with
  | nil => simp [joinComponents, chargedLength, appendedPath]
  | cons component rest hyp =>
      have charged
          : chargedLength (component :: rest) = component.length + chargedLength rest := by
        simp [chargedLength]
      by_cases refused : remaining < component.length
      · rw [joinComponents, if_pos refused, if_neg (by omega)]
      · rw [joinComponents, if_neg refused, hyp]
        by_cases fits : chargedLength rest ≤ remaining - component.length
        · rw [if_pos fits, if_pos (by omega)]
          simp [appendedPath]
        · rw [if_neg fits, if_neg (by omega)]

/-- While the loop stays in its buffer and meets only strings, neither makes a difference. -/
theorem joinComponents_of_joinPath {nodes : List BeNode} {result : Option CString}
    (ran : joinPath nodes remaining path = .ok result)
    : joinComponents (nodes.filterMap BeNode.text) remaining path = result := by
  induction nodes generalizing remaining path with
  | nil => cases ran; rfl
  | cons node rest hyp =>
      cases node with
      | str component =>
          rw [joinPath] at ran
          rw [List.filterMap_cons_some (by rfl), joinComponents]
          split at ran
          · rename_i refused
            cases ran
            exact if_pos refused
          · rename_i charged
            dsimp only at ran
            split at ran
            · cases ran
            · rw [if_neg charged]
              exact hyp ran
      | num value => cases ran
      | list entries => cases ran
      | dict entries => cases ran

/-- A path that fits is put together without a fault. -/
theorem joinPath_of_joinComponents (fits : joined.length < 4096)
    (ran : joinComponents components remaining path = some joined)
    : joinPath (components.map .str) remaining path = .ok (some joined) := by
  induction components generalizing remaining path with
  | nil => cases ran; rfl
  | cons component rest hyp =>
      rw [joinComponents] at ran
      rw [List.map_cons, joinPath]
      split at ran
      · cases ran
      · rename_i charged
        have below : (path ++ [47] ++ BeNode.cstr component).length < 4096 := by
          have whole := ran
          rw [joinComponents_eq] at whole
          split at whole
          · cases whole
            rw [List.length_append] at fits
            exact Nat.lt_of_le_of_lt (Nat.le_add_right _ _) fits
          · cases whole
        rw [if_neg charged, if_neg (Nat.not_le.2 below)]
        exact hyp ran

-----------------------------------------------------------------------------------------
-- The two buffers
-----------------------------------------------------------------------------------------

namespace TorrentData

/-- Whenever the loop over the components finishes without a refusal, the path and its NUL fit in
the buffer of the loop, and the path behind the root path and its NUL fit in the buffer of
`torrent_data_add_file`.
-/
def PathsFit (td : TorrentData) (components : List Bytes) : Prop :=
  ∀ path,
    joinComponents components 4096 [] = some path
    → path.length + 1 ≤ 4096 ∧ td.rootPath.length + path.length + 1 ≤ 4096

/-- `torrent_data_add_file` overruns its buffer exactly when the whole path does not fit. -/
theorem addFilePath_ok_iff (td : TorrentData) (path : CString) (length : Nat)
    : td.addFilePath path length = .ok (td.addFile path length)
      ↔ td.rootPath.length + path.length + 1 ≤ 4096 := by
  rw [addFilePath]
  by_cases overrun : 4096 ≤ td.rootPath.length + path.length
  · rw [if_pos overrun]
    exact ⟨fun impossible => (nomatch impossible), fun fits => by omega⟩
  · rw [if_neg overrun]
    exact ⟨fun _ => by omega, fun _ => rfl⟩

/-- Where the buffers hold, a file that is not refused is added without a fault. -/
theorem addFilePath_of_pathsFit {td : TorrentData} (fit : td.PathsFit components)
    (kept : joinComponents components 4096 [] = some path) (length : Nat)
    : ((joinPath (components.map .str) 4096 []).bind fun
        | none => .ok td
        | some path => td.addFilePath path length)
      = .ok (td.addFile path length) := by
  obtain ⟨fitsLoop, fitsAdd⟩ := fit path kept
  rw [joinPath_of_joinComponents fitsLoop kept]
  exact (td.addFilePath_ok_iff path length).2 fitsAdd

/-- The buffers hold the paths exactly when the counter refuses the components, or the root path
and what the loop appends leave a byte for the NUL.
-/
theorem pathsFit_iff (td : TorrentData) (components : List Bytes)
    : td.PathsFit components
      ↔ 4096 < chargedLength components
        ∨ td.rootPath.length + appendedLength components + 1 ≤ 4096 := by
  have result := joinComponents_eq components 4096 []
  have appended := appendedPath_length components
  rw [List.nil_append] at result
  constructor
  · intro fit
    by_cases refused : 4096 < chargedLength components
    · exact .inl refused
    · rw [if_pos (Nat.not_lt.1 refused)] at result
      obtain ⟨_, whole⟩ := fit _ result
      rw [appended] at whole
      exact .inr whole
  · intro bounds path kept
    rw [result] at kept
    split at kept
    · rename_i charged
      cases kept
      cases bounds with
      | inl refused => exact absurd charged (Nat.not_le.2 refused)
      | inr whole =>
          rw [appended]
          exact ⟨by omega, whole⟩
    · cases kept

/-- One component of 4095 bytes is not refused, and its path has no byte left for the NUL. -/
theorem long_component_overruns
    : ¬(TorrentData.new (ascii "/tmp")).PathsFit [List.replicate 4095 97] := by
  intro fit
  have text : BeNode.cstr (List.replicate 4095 97) = List.replicate 4095 97 := by
    rw [BeNode.cstr, List.takeWhile_replicate, if_pos (by decide)]
  have length := appendedPath_length [List.replicate 4095 97]
  have result := joinComponents_eq [List.replicate 4095 97] 4096 []
  simp only [appendedLength, chargedLength, List.map_cons, List.map_nil, List.sum_cons,
    List.sum_nil, text, List.length_replicate] at length result
  obtain ⟨overrun, _⟩ := fit _ result
  rw [List.nil_append, length] at overrun
  omega

end TorrentData

end UvgTorrent
