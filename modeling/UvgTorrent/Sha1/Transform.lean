import UvgTorrent.Foundations.HostOrder

/-! `SHA1Transform` of `sha1.c` on a little-endian host. The schedule of message words is expanded
in place, in a ring of 16 words, and the five working variables change their names from call to call
instead of their values.
-/

namespace UvgTorrent

open Foundations

/-- The macro `rol`. -/
def rol (value bits : UInt32) : UInt32 := (value <<< bits) ||| (value >>> (32 - bits))

/-- `uint32_t state[5]`. -/
abbrev Sha1State := Vector UInt32 5

/-- Five words in a row. -/
def fiveWords (h0 h1 h2 h3 h4 : UInt32) : Sha1State := #v[h0, h1, h2, h3, h4]

/-- The word of a state that an index names. -/
def stateWord (state : Sha1State) (i : Nat) : UInt32 := state.get (Fin.ofNat 5 i)

namespace Sha1

/-- The local variables of `SHA1Transform`: `a` to `e`, and the words `block->l`. -/
structure Working where
  vars : Sha1State
  block : Vector UInt32 16

/-- The word of `block->l` that an index names. -/
def slot (i : Nat) : Fin 16 := Fin.ofNat 16 i

/-- The words of the 64 bytes of a block in the memory of the host. -/
def loadBlock (buffer : Bytes) : Vector UInt32 16 :=
  .ofFn fun i => UInt32.ofNat (ofLeBytes (slice buffer (4 * i) 4))

/-- An assignment to an element. -/
def put {size : Nat} (words : Vector UInt32 size) (i : Fin size) (value : UInt32)
    : Vector UInt32 size :=
  words.set i.val value i.isLt

/-- The variable that stands at a position of the parameter list `v, w, x, y, z` of call `t`: the
list turns by one place from a call to the next.
-/
def var (t position : Nat) : Fin 5 := Fin.ofNat 5 (position + 4 * t)

/-- `blk0`: the word comes in the byte order of the host. -/
def blk0 (s : Working) (i : Nat) : UInt32 :=
  let word := s.block.get (slot i)
  (rol word 24 &&& 0xFF00FF00) ||| (rol word 8 &&& 0x00FF00FF)

/-- `blk`. -/
def blk (s : Working) (i : Nat) : UInt32 :=
  rol
    (s.block.get (slot (i + 13)) ^^^ s.block.get (slot (i + 8)) ^^^ s.block.get (slot (i + 2))
      ^^^ s.block.get (slot i))
    1

/-- The form that `R0` to `R4` share: the word of the call is put back into the block, `z` takes it
up, and `w` is turned.
-/
def roundCall (mix : UInt32 → UInt32 → UInt32 → UInt32) (word : Working → Nat → UInt32)
    (constant : UInt32) (i : Nat) (s : Working)
    : Working :=
  let value := word s i
  let z :=
    s.vars.get (var i 4)
      + (mix (s.vars.get (var i 1)) (s.vars.get (var i 2)) (s.vars.get (var i 3)) + value + constant
        + rol (s.vars.get (var i 0)) 5)
  let w := rol (s.vars.get (var i 1)) 30
  {
    vars := put (put s.vars (var i 4) z) (var i 1) w
    block := put s.block (slot i) value
  }

/-- The macro `R0`. -/
def r0 : Nat → Working → Working :=
  roundCall (fun w x y => (w &&& (x ^^^ y)) ^^^ y) blk0 0x5A827999

/-- The macro `R1`. -/
def r1 : Nat → Working → Working :=
  roundCall (fun w x y => (w &&& (x ^^^ y)) ^^^ y) blk 0x5A827999

/-- The macro `R2`. -/
def r2 : Nat → Working → Working :=
  roundCall (fun w x y => w ^^^ x ^^^ y) blk 0x6ED9EBA1

/-- The macro `R3`. -/
def r3 : Nat → Working → Working :=
  roundCall (fun w x y => ((w ||| x) &&& y) ||| (w &&& x)) blk 0x8F1BBCDC

/-- The macro `R4`. -/
def r4 : Nat → Working → Working :=
  roundCall (fun w x y => w ^^^ x ^^^ y) blk 0xCA62C1D6

/-- The call with number `t` of the unrolled loop. -/
def call (t : Nat) : Working → Working :=
  if t < 16 then r0 t
  else if t < 20 then r1 t
  else if t < 40 then r2 t
  else if t < 60 then r3 t
  else r4 t

/-- The working variables after the first `count` calls. -/
def calls (s : Working) (count : Nat) : Working :=
  (List.range count).foldl (fun s t => call t s) s

end Sha1

/-- `SHA1Transform`, on a buffer of 64 bytes. -/
def sha1Transform (state : Sha1State) (buffer : Bytes) : Sha1State :=
  let s := Sha1.calls { vars := state, block := Sha1.loadBlock buffer } 80
  .ofFn fun i => state.get i + s.vars.get i

end UvgTorrent
