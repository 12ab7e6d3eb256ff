import Mathlib.Tactic

/-! How a modelled C function can end: with an exit code, or in a fault that ends the
process.
-/

namespace UvgTorrent

/-- `EXIT_SUCCESS` and `EXIT_FAILURE`. -/
inductive Exit where
  | success
  | failure
  deriving DecidableEq, Repr

/-- Undefined behaviour that a call can reach, or a loop that it does not leave. A faulting
call has no later state.
-/
inductive Fault where
  /-- an integer division by zero -/
  | divisionByZero
  /-- a dereference of `NULL` -/
  | nullPointer
  /-- a read of a list node that was freed -/
  | danglingPointer
  /-- an access to `bytes` outside `bytes[0..bytes_count)` -/
  | bitfieldBounds
  /-- a shift by a negative number of places -/
  | negativeShift
  /-- a copy into or out of a piece buffer outside the block allocated for it -/
  | pieceBounds
  /-- an `fwrite` that reads past the end of a piece buffer -/
  | fileWriteBounds
  /-- a read of a message field past the end of the message buffer -/
  | messageBounds
  /-- a write past the 65535 bytes of an answer that is put together on the stack -/
  | answerBounds
  /-- a copy into or out of the read buffer of a socket outside its block -/
  | readBufferBounds
  /-- `strncat` writes past `file_path[4096]` -/
  | pathBounds
  /-- `sprintf` writes past `piece_key[10]` -/
  | keyBounds
  /-- a read past the end of the `sha1_hashes` table -/
  | sha1Bounds
  /-- a read behind the NUL of a string -/
  | textBounds
  /-- `fclose(NULL)` after a file could not be created -/
  | streamNull
  /-- a write past the end of the array `peers[peer_count]` -/
  | peersBounds
  /-- an `int` that is counted up past its largest value -/
  | signedOverflow
  /-- a walk along a list that does not come to its end -/
  | endlessList
  /-- a loop that was not left within the steps it was given -/
  | endlessLoop
  deriving DecidableEq, Repr

end UvgTorrent
