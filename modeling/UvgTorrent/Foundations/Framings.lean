import Mathlib.Tactic

/-! Streams of frames: each frame begins with a front of fixed length that tells how long it is.
A stream is cut into frames in at most one way.
-/

namespace Foundations

/-- How long a frame is, by its first `front` elements. -/
structure Framing (β : Type) where
  front : Nat
  size : List β → Nat
  positive : 0 < front
  holdsFront : ∀ list, front ≤ size list

namespace Framing

variable {β : Type} {framing : Framing β} {frame stream other : List β}
  {list more : List (List β)}

/-- The list is as long as its front says. -/
def IsFrame (framing : Framing β) (frame : List β) : Prop :=
  frame.length = framing.size (frame.take framing.front)

theorem IsFrame.front_le (isFrame : framing.IsFrame frame) : framing.front ≤ frame.length :=
  (framing.holdsFront _).trans (Nat.le_of_eq isFrame.symm)

/-- The frames of a stream, if it ends with the last one. -/
def frames (framing : Framing β) (stream : List β) : Option (List (List β)) :=
  if stream = [] then some []
  else if stream.length < framing.size (stream.take framing.front) then none
  else
    (framing.frames (stream.drop (framing.size (stream.take framing.front)))).map
      (stream.take (framing.size (stream.take framing.front)) :: ·)
termination_by stream.length
decreasing_by
  have nonempty := framing.positive.trans_le (framing.holdsFront (stream.take framing.front))
  rw [List.length_drop]
  omega

theorem frames_nil : framing.frames [] = some [] := by
  rw [frames, if_pos rfl]

/-- The first frame of a stream that begins with one. -/
theorem frames_frame_append (isFrame : framing.IsFrame frame) (stream : List β)
    : framing.frames (frame ++ stream) = (framing.frames stream).map (frame :: ·) := by
  have front := isFrame.front_le
  have nonempty : frame ++ stream ≠ [] := by
    intro empty
    rw [(List.append_eq_nil_iff.mp empty).1] at front
    exact absurd framing.positive (Nat.not_lt.mpr front)
  have size : framing.size ((frame ++ stream).take framing.front) = frame.length := by
    rw [List.take_append_of_le_length front, isFrame]
  rw [frames, if_neg nonempty, size, if_neg (by simp), List.drop_left, List.take_left]

/-- A stream has the frames that it is made of, and no others. Induction on the stream for the one
direction, on the frames for the other.
-/
theorem frames_eq_some_iff
    : framing.frames stream = some list
      ↔ list.flatten = stream ∧ ∀ frame ∈ list, framing.IsFrame frame := by
  constructor
  case mp =>
    intro found
    induction stream using frames.induct framing generalizing list with
    | case1 =>
        rw [frames_nil] at found
        cases found
        exact ⟨rfl, nofun⟩
    | case2 stream nonempty short =>
        rw [frames, if_neg nonempty, if_pos short] at found
        cases found
    | case3 stream nonempty long ih =>
        rw [frames, if_neg nonempty, if_neg long] at found
        obtain ⟨rest, later, rfl⟩ := Option.map_eq_some_iff.mp found
        obtain ⟨joined, framed⟩ := ih later
        have length := List.length_take_of_le (Nat.le_of_not_lt long)
        refine ⟨by rw [List.flatten_cons, joined, List.take_append_drop], fun frame member => ?_⟩
        rcases List.mem_cons.mp member with rfl | member
        · rw [IsFrame, length, List.take_take, Nat.min_eq_left (framing.holdsFront _)]
        · exact framed frame member
  case mpr =>
    rintro ⟨rfl, framed⟩
    induction list with
    | nil => exact frames_nil
    | cons frame rest ih =>
        have later := ih fun other member => framed other (List.mem_cons_of_mem frame member)
        rw [List.flatten_cons, frames_frame_append (framed frame List.mem_cons_self), later]
        rfl

theorem frames_frame (isFrame : framing.IsFrame frame) : framing.frames frame = some [frame] := by
  have whole := frames_frame_append isFrame []
  rwa [List.append_nil, frames_nil] at whole

/-- Two streams in a row. -/
theorem frames_append (first : framing.frames stream = some list)
    (second : framing.frames other = some more)
    : framing.frames (stream ++ other) = some (list ++ more) := by
  obtain ⟨rfl, framed⟩ := frames_eq_some_iff.mp first
  obtain ⟨rfl, later⟩ := frames_eq_some_iff.mp second
  refine frames_eq_some_iff.mpr ⟨List.flatten_append, fun frame member => ?_⟩
  rcases List.mem_append.mp member with member | member
  · exact framed frame member
  · exact later frame member

variable {κ : Type} {hear : κ → List β → Option κ} {before middle after : κ}

/-- What a listener knows behind a stream, who takes one frame after the other and may refuse one.
-/
def listen (framing : Framing β) (hear : κ → List β → Option κ) (before : κ) (stream : List β)
    : Option κ :=
  (framing.frames stream).bind fun list => list.foldlM hear before

theorem listen_nil : framing.listen hear before [] = some before := by
  rw [listen, frames_nil]
  rfl

theorem listen_frame (isFrame : framing.IsFrame frame)
    : framing.listen hear before frame = hear before frame := by
  rw [listen, frames_frame isFrame]
  exact List.foldlM_cons.trans (bind_pure _)

/-- A listener who has heard a stream goes on with what follows. -/
theorem listen_append (first : framing.listen hear before stream = some middle)
    (second : framing.listen hear middle other = some after)
    : framing.listen hear before (stream ++ other) = some after := by
  obtain ⟨list, cut, heard⟩ := Option.bind_eq_some_iff.mp first
  obtain ⟨more, cutMore, heardMore⟩ := Option.bind_eq_some_iff.mp second
  rw [listen, frames_append cut cutMore, Option.bind_some, List.foldlM_append, heard]
  exact heardMore

end Framing

end Foundations
