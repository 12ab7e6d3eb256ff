import UvgTorrent.Foundations.AllocatedBlocks
import UvgTorrent.Foundations.FallibleRuns
import UvgTorrent.Sha1.Transform

/-! The rest of `sha1.c`: a context that takes its input in calls of any length, and the digest.
Lengths and bit counts are `uint32_t`, and every `memcpy` is held against the sizes of both blocks.
-/

namespace UvgTorrent

open Foundations

/-- What a call of `sha1.c` can do wrong. -/
inductive Sha1Fault where
  /-- a copy past the 64 bytes of `context->buffer` -/
  | bufferBounds
  /-- a read past the end of the data -/
  | dataBounds
  /-- a loop that was not left within the steps it was given -/
  | endlessLoop
  deriving DecidableEq, Repr

/-- `unsigned char buffer[64]`. -/
abbrev Sha1Buffer := { bytes : Bytes // bytes.length = 64 }

/-- `SHA1_CTX`. -/
structure Sha1Context where
  state : Sha1State
  count0 : UInt32
  count1 : UInt32
  buffer : Sha1Buffer

/-- `memcpy(&buffer[offset], &data[start], count)`. -/
def copyToBuffer (buffer : Sha1Buffer) (offset : Nat) (data : Bytes) (start count : Nat)
    : Except Sha1Fault Sha1Buffer :=
  match copyOut data start count with
  | none => .error .dataBounds
  | some source =>
      if fits : offset + source.length ≤ 64 then
        .ok
          ⟨overwrite buffer.1 offset source,
            (overwrite_length (fits.trans_eq buffer.2.symm)).trans buffer.2⟩
      else .error .bufferBounds

/-- `SHA1Init`: the buffer is left as it was. -/
def sha1Init (context : Sha1Context) : Sha1Context :=
  {
    context with
    state := fiveWords 0x67452301 0xEFCDAB89 0x98BADCFE 0x10325476 0xC3D2E1F0
    count0 := 0
    count1 := 0
  }

/-- The loop of `SHA1Update` over the blocks that lie whole in the data. -/
def transformLoop (data : Bytes) (len : UInt32)
    : Nat → Sha1State → UInt32 → Except Sha1Fault (Sha1State × UInt32)
  | 0, _, _ => .error .endlessLoop
  | turns + 1, state, i =>
      if i + 63 < len then
        match copyOut data i.toNat 64 with
        | none => .error .dataBounds
        | some block => transformLoop data len turns (sha1Transform state block) (i + 64)
      else .ok (state, i)

/-- `SHA1Update`. -/
def sha1Update (context : Sha1Context) (data : Bytes) (len : UInt32)
    : Except Sha1Fault Sha1Context :=
  let j := context.count0
  let count0 := context.count0 + (len <<< 3)
  let carried := if count0 < j then context.count1 + 1 else context.count1
  let count1 := carried + (len >>> 29)
  let j := (j >>> 3) &&& 63
  if 63 < j + len then
    let i := 64 - j
    (copyToBuffer context.buffer j.toNat data 0 i.toNat).bind fun buffer =>
      let state := sha1Transform context.state buffer.1
      (transformLoop data len (len.toNat / 64 + 1) state i).bind fun (state, i) =>
        (copyToBuffer buffer 0 data i.toNat (len - i).toNat).bind fun buffer =>
          .ok { state, count0, count1, buffer }
  else
    (copyToBuffer context.buffer j.toNat data 0 len.toNat).bind fun buffer =>
      .ok { state := context.state, count0, count1, buffer }

/-- The four bytes of a word, most significant first, as `SHA1Final` takes them out with shifts. -/
def wordBytes (word : UInt32) : Bytes :=
  (List.range 4).map fun i => ((word >>> UInt32.ofNat ((3 - i) * 8)) &&& 255).toUInt8

/-- `finalcount`. -/
def finalCount (context : Sha1Context) : Bytes :=
  wordBytes context.count1 ++ wordBytes context.count0

/-- The loop of `SHA1Final` that pads with zeros up to the length field. -/
def padLoop : Nat → Sha1Context → Except Sha1Fault Sha1Context
  | 0, _ => .error .endlessLoop
  | turns + 1, context =>
      if context.count0 &&& 504 ≠ 448 then (sha1Update context [0] 1).bind (padLoop turns)
      else .ok context

/-- The bytes that `SHA1Final` writes to `digest`. -/
def digestBytes (state : Sha1State) : Bytes :=
  state.toList.flatMap wordBytes

theorem wordBytes_length (word : UInt32) : (wordBytes word).length = 4 := rfl

theorem digestBytes_length (state : Sha1State) : (digestBytes state).length = 20 := by
  simp [digestBytes, wordBytes_length]

/-- `SHA1Final`. -/
def sha1Final (context : Sha1Context) : Except Sha1Fault { bytes : Bytes // bytes.length = 20 } :=
  let finalcount := finalCount context
  (sha1Update context [0x80] 1).bind fun context =>
    (padLoop 64 context).bind fun context =>
      (sha1Update context finalcount 8).bind fun context =>
        .ok ⟨digestBytes context.state, digestBytes_length context.state⟩

/-- The loop of `SHA1`, which hands the string over byte by byte, and its `SHA1Final`. -/
def sha1 (context : Sha1Context) (str : Bytes)
    : Except Sha1Fault { bytes : Bytes // bytes.length = 20 } :=
  (runSteps (fun context byte => sha1Update context [byte] 1) (sha1Init context) str).bind sha1Final

end UvgTorrent
