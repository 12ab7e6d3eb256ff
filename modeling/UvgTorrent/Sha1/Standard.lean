import UvgTorrent.Sha1.Transform

/-! The secure hash standard, FIPS PUB 180-1: its compression function with a schedule of 80 words,
and that `SHA1Transform` computes it.
-/

namespace UvgTorrent

open Foundations

namespace Standard

-----------------------------------------------------------------------------------------
-- The compression function of the standard
-----------------------------------------------------------------------------------------

/-- The word in four bytes, most significant first. -/
def word (bytes : Bytes) : UInt32 := UInt32.ofNat (ofBe32 bytes)

/-- The words `W(t)`. -/
def schedule (block : Bytes) (t : Nat) : UInt32 :=
  if t < 16 then word (slice block (4 * t) 4)
  else
    rol
      (schedule block (t - 3) ^^^ schedule block (t - 8) ^^^ schedule block (t - 14)
        ^^^ schedule block (t - 16))
      1
termination_by t

/-- The functions `f(t; B, C, D)`. -/
def mix (t : Nat) (b c d : UInt32) : UInt32 :=
  if t < 20 then (b &&& c) ||| (~~~b &&& d)
  else if t < 40 then b ^^^ c ^^^ d
  else if t < 60 then (b &&& c) ||| (b &&& d) ||| (c &&& d)
  else b ^^^ c ^^^ d

/-- The constants `K(t)`. -/
def constant (t : Nat) : UInt32 :=
  if t < 20 then 0x5A827999
  else if t < 40 then 0x6ED9EBA1
  else if t < 60 then 0x8F1BBCDC
  else 0xCA62C1D6

/-- One step on the words `A` to `E`. -/
def step (block : Bytes) (h : Sha1State) (t : Nat) : Sha1State :=
  fiveWords
    (rol (stateWord h 0) 5 + mix t (stateWord h 1) (stateWord h 2) (stateWord h 3) + stateWord h 4
      + schedule block t + constant t)
    (stateWord h 0) (rol (stateWord h 1) 30) (stateWord h 2) (stateWord h 3)

/-- The words `A` to `E` after the first `count` steps. -/
def steps (block : Bytes) (h : Sha1State) (count : Nat) : Sha1State :=
  (List.range count).foldl (step block) h

/-- The words `H` after a block of 64 bytes. -/
def compress (h : Sha1State) (block : Bytes) : Sha1State :=
  .ofFn fun i => h.get i + (steps block h 80).get i

-----------------------------------------------------------------------------------------
-- Words and their bytes
-----------------------------------------------------------------------------------------

/-- The word of four bytes, most significant first. -/
def joinBytes (x3 x2 x1 x0 : UInt8) : UInt32 :=
  .ofBitVec (x3.toBitVec ++ x2.toBitVec ++ x1.toBitVec ++ x0.toBitVec)

theorem joinBytes_getLsbD (x3 x2 x1 x0 : UInt8) (i : Nat)
    : (joinBytes x3 x2 x1 x0).toBitVec.getLsbD i
      = if i < 8 then x0.toBitVec.getLsbD i
        else if i < 16 then x1.toBitVec.getLsbD (i - 8)
        else if i < 24 then x2.toBitVec.getLsbD (i - 16)
        else x3.toBitVec.getLsbD (i - 24) := by
  have unfolded : (joinBytes x3 x2 x1 x0).toBitVec.getLsbD i
    = (x3.toBitVec ++ x2.toBitVec ++ x1.toBitVec ++ x0.toBitVec).getLsbD i := rfl
  rw [unfolded, BitVec.getLsbD_append, BitVec.getLsbD_append, BitVec.getLsbD_append]
  grind

theorem swap_joinBytes (x0 x1 x2 x3 : UInt8)
    : (rol (joinBytes x3 x2 x1 x0) 24 &&& 0xFF00FF00)
        ||| (rol (joinBytes x3 x2 x1 x0) 8 &&& 0x00FF00FF)
      = joinBytes x0 x1 x2 x3 := by
  apply UInt32.toBitVec_inj.mp
  apply BitVec.eq_of_getLsbD_eq
  intro i inside
  simp only [rol, UInt32.toBitVec_and, UInt32.toBitVec_or, UInt32.toBitVec_shiftLeft,
    UInt32.toBitVec_shiftRight]
  interval_cases i <;> simp [-BitVec.getLsbD_eq_getElem, joinBytes_getLsbD]

theorem toNat_append {m n : Nat} (high : BitVec m) (low : BitVec n)
    : (high ++ low).toNat = high.toNat * 2 ^ n + low.toNat := by
  rw [BitVec.toNat_append, ← Nat.shiftLeft_add_eq_or_of_lt low.isLt, Nat.shiftLeft_eq]

theorem joinBytes_toNat (x3 x2 x1 x0 : UInt8)
    : (joinBytes x3 x2 x1 x0).toNat
      = ((x3.toNat * 256 + x2.toNat) * 256 + x1.toNat) * 256 + x0.toNat := by
  have unfolded : (joinBytes x3 x2 x1 x0).toNat
      = (x3.toBitVec ++ x2.toBitVec ++ x1.toBitVec ++ x0.toBitVec).toNat := rfl
  rw [unfolded, toNat_append, toNat_append, toNat_append]
  rfl

theorem memory_word (x0 x1 x2 x3 : UInt8)
    : UInt32.ofNat (ofLeBytes [x0, x1, x2, x3]) = joinBytes x3 x2 x1 x0 := by
  have a := x0.toNat_lt
  have b := x1.toNat_lt
  have c := x2.toNat_lt
  have d := x3.toNat_lt
  rw [← UInt32.toNat_inj, joinBytes_toNat]
  simp only [UInt32.toNat_ofNat', ofLeBytes]
  omega

theorem network_word (x0 x1 x2 x3 : UInt8)
    : word [x0, x1, x2, x3] = joinBytes x0 x1 x2 x3 := by
  have a := x0.toNat_lt
  have b := x1.toNat_lt
  have c := x2.toNat_lt
  have d := x3.toNat_lt
  rw [← UInt32.toNat_inj, joinBytes_toNat]
  simp only [word, UInt32.toNat_ofNat', ofBe32, List.foldl_cons, List.foldl_nil]
  omega

-----------------------------------------------------------------------------------------
-- The in-place schedule and the turning names
-----------------------------------------------------------------------------------------

open Sha1

theorem steps_succ (block : Bytes) (h : Sha1State) (count : Nat)
    : steps block h (count + 1) = step block (steps block h count) count := by
  rw [steps, List.range_succ, List.foldl_append]
  rfl

theorem var_succ (t position : Nat) : var (t + 1) (position + 1) = var t position := by
  apply Fin.ext
  simp only [var, Fin.val_ofNat]
  omega

theorem var_succ_zero (t : Nat) : var (t + 1) 0 = var t 4 := by
  apply Fin.ext
  simp only [var, Fin.val_ofNat]
  omega

theorem var_ne {t p q : Nat} (apart : p % 5 ≠ q % 5) : var t p ≠ var t q := by
  intro same
  have equal := congrArg Fin.val same
  simp only [var, Fin.val_ofNat] at equal
  omega

theorem put_self {size : Nat} (words : Vector UInt32 size) (i : Fin size) (x : UInt32)
    : (put words i x).get i = x :=
  Vector.getElem_set_self _

theorem put_ne {size : Nat} (words : Vector UInt32 size) {i j : Fin size} {x : UInt32}
    (apart : i ≠ j)
    : (put words j x).get i = words.get i :=
  Vector.getElem_set_ne _ _ (fun same => apart (Fin.ext same.symm))

theorem slot_eq {i j : Nat} (same : i % 16 = j % 16) : slot i = slot j := Fin.ext same

theorem slot_ne {i j : Nat} (apart : i % 16 ≠ j % 16) : slot i ≠ slot j :=
  fun same => apart (congrArg Fin.val same)

theorem roundCall_block (mix : UInt32 → UInt32 → UInt32 → UInt32) (word : Working → Nat → UInt32)
    (constant : UInt32) (i : Nat) (s : Working)
    : (roundCall mix word constant i s).block = put s.block (slot i) (word s i) := rfl

/-- How the working variables stand after the first `t` calls: under their names of that moment
they are `A` to `E`, and the ring holds the last 16 words of the schedule, or the words that were
not taken yet.
-/
structure Simulates (block : Bytes) (h : Sha1State) (t : Nat) (s : Working) : Prop where
  vars : ∀ i : Fin 5, s.vars.get (var t i) = (steps block h t).get i
  words : ∀ u, u < t → t ≤ u + 16 → s.block.get (slot u) = schedule block u
  fresh : ∀ u, t ≤ u → u < 16 → s.block.get (slot u) = (loadBlock block).get (slot u)

variable {block : Bytes} {h : Sha1State} {t : Nat} {s : Working}

theorem loadBlock_swapped (whole : block.length = 64) (inside : t < 16)
    : (rol ((loadBlock block).get (slot t)) 24 &&& 0xFF00FF00)
        ||| (rol ((loadBlock block).get (slot t)) 8 &&& 0x00FF00FF)
      = word (slice block (4 * t) 4) := by
  have index : (slot t).val = t := Nat.mod_eq_of_lt inside
  have length : (slice block (4 * t) 4).length = 4 := slice_length_of_le (by omega)
  have loaded
      : (loadBlock block).get (slot t)
        = UInt32.ofNat (ofLeBytes (slice block (4 * (slot t).val) 4)) :=
    Vector.getElem_ofFn _
  rw [loaded, index]
  generalize slice block (4 * t) 4 = bytes at length
  match bytes, length with
  | [x0, x1, x2, x3], _ => rw [memory_word, swap_joinBytes, network_word]

theorem Simulates.blk0 (whole : block.length = 64) (sim : Simulates block h t s) (early : t < 16)
    : Sha1.blk0 s t = schedule block t := by
  rw [schedule, if_pos early, ← loadBlock_swapped whole early, ← sim.fresh t (Nat.le_refl t) early]
  rfl

theorem Simulates.blk (sim : Simulates block h t s) (late : 16 ≤ t)
    : Sha1.blk s t = schedule block t := by
  have back (distance : Nat) (positive : 0 < distance) (near : distance ≤ 16)
      : s.block.get (slot (t + 16 - distance)) = schedule block (t - distance) := by
    rw [← sim.words (t - distance) (by omega) (by omega)]
    congr 1
    exact slot_eq (by omega)
  have three := back 3 (by decide) (by decide)
  have eight := back 8 (by decide) (by decide)
  have fourteen := back 14 (by decide) (by decide)
  have sixteen := back 16 (by decide) (by decide)
  rw [schedule, if_neg (by omega), Sha1.blk, ← three, ← eight, ← fourteen, ← sixteen]
  rfl

theorem Simulates.roundCall {f : UInt32 → UInt32 → UInt32 → UInt32}
    {take : Working → Nat → UInt32} (sim : Simulates block h t s)
    (mixes : ∀ b c d, f b c d = mix t b c d) (taken : take s t = schedule block t)
    : Simulates block h (t + 1) (roundCall f take (constant t) t s) := by
  obtain ⟨vars, words, fresh⟩ := sim
  have a : s.vars.get (var t 0) = stateWord (steps block h t) 0 := vars 0
  have b : s.vars.get (var t 1) = stateWord (steps block h t) 1 := vars 1
  have c : s.vars.get (var t 2) = stateWord (steps block h t) 2 := vars 2
  have d : s.vars.get (var t 3) = stateWord (steps block h t) 3 := vars 3
  have e : s.vars.get (var t 4) = stateWord (steps block h t) 4 := vars 4
  constructor
  case vars =>
    intro i
    rw [steps_succ, step]
    simp only [Sha1.roundCall, taken, mixes]
    match i with
    | 0 =>
        have renamed : var (t + 1) ((0 : Fin 5) : Nat) = var t 4 := var_succ_zero t
        rw [renamed, put_ne _ (var_ne (by decide)), put_self, a, b, c, d, e]
        ac_rfl
    | 1 =>
        have renamed : var (t + 1) ((1 : Fin 5) : Nat) = var t 0 := var_succ t 0
        rw [renamed, put_ne _ (var_ne (by decide)), put_ne _ (var_ne (by decide)), a]
        rfl
    | 2 =>
        have renamed : var (t + 1) ((2 : Fin 5) : Nat) = var t 1 := var_succ t 1
        rw [renamed, put_self, b]
        rfl
    | 3 =>
        have renamed : var (t + 1) ((3 : Fin 5) : Nat) = var t 2 := var_succ t 2
        rw [renamed, put_ne _ (var_ne (by decide)), put_ne _ (var_ne (by decide)), c]
        rfl
    | 4 =>
        have renamed : var (t + 1) ((4 : Fin 5) : Nat) = var t 3 := var_succ t 3
        rw [renamed, put_ne _ (var_ne (by decide)), put_ne _ (var_ne (by decide)), d]
        rfl
  case words =>
    intro u past near
    rcases Nat.lt_succ_iff_lt_or_eq.mp past with before | rfl
    · rw [roundCall_block, put_ne _ (slot_ne (by omega))]
      exact words u before (by omega)
    · rw [roundCall_block, put_self, taken]
  case fresh =>
    intro u ahead inside
    rw [roundCall_block, put_ne _ (slot_ne (by omega))]
    exact fresh u (by omega) inside

theorem choose_eq (b c d : UInt32) : (b &&& (c ^^^ d)) ^^^ d = (b &&& c) ||| (~~~b &&& d) := by
  apply UInt32.toBitVec_inj.mp
  apply BitVec.eq_of_getLsbD_eq
  intro i inside
  simp only [UInt32.toBitVec_and, UInt32.toBitVec_or, UInt32.toBitVec_xor, UInt32.toBitVec_not,
    BitVec.getLsbD_and, BitVec.getLsbD_or, BitVec.getLsbD_xor, BitVec.getLsbD_not, inside,
    decide_true, Bool.true_and]
  cases b.toBitVec.getLsbD i <;> cases c.toBitVec.getLsbD i <;> cases d.toBitVec.getLsbD i <;> rfl

theorem majority_eq (b c d : UInt32)
    : ((b ||| c) &&& d) ||| (b &&& c) = (b &&& c) ||| (b &&& d) ||| (c &&& d) := by
  apply UInt32.toBitVec_inj.mp
  apply BitVec.eq_of_getLsbD_eq
  intro i inside
  simp only [UInt32.toBitVec_and, UInt32.toBitVec_or, BitVec.getLsbD_and, BitVec.getLsbD_or]
  cases b.toBitVec.getLsbD i <;> cases c.toBitVec.getLsbD i <;> cases d.toBitVec.getLsbD i <;> rfl

theorem Simulates.call (whole : block.length = 64) (sim : Simulates block h t s)
    : Simulates block h (t + 1) (call t s) := by
  rw [Sha1.call]
  split
  case isTrue early =>
    have k : (0x5A827999 : UInt32) = constant t := by rw [constant, if_pos (by omega)]
    rw [r0, k]
    refine sim.roundCall (fun b c d => ?_) (sim.blk0 whole early)
    rw [mix, if_pos (by omega), choose_eq]
  case isFalse late =>
    have taken := sim.blk (Nat.le_of_not_lt late)
    split
    case isTrue second =>
      have k : (0x5A827999 : UInt32) = constant t := by rw [constant, if_pos (by omega)]
      rw [r1, k]
      refine sim.roundCall (fun b c d => ?_) taken
      rw [mix, if_pos (by omega), choose_eq]
    split
    case isTrue third =>
      have k : (0x6ED9EBA1 : UInt32) = constant t := by
        rw [constant, if_neg (by omega), if_pos third]
      rw [r2, k]
      refine sim.roundCall (fun b c d => ?_) taken
      rw [mix, if_neg (by omega), if_pos third]
    split
    case isTrue fourth =>
      have k : (0x8F1BBCDC : UInt32) = constant t := by
        rw [constant, if_neg (by omega), if_neg (by omega), if_pos fourth]
      rw [r3, k]
      refine sim.roundCall (fun b c d => ?_) taken
      rw [mix, if_neg (by omega), if_neg (by omega), if_pos fourth, majority_eq]
    case isFalse fifth =>
      have k : (0xCA62C1D6 : UInt32) = constant t := by
        rw [constant, if_neg (by omega), if_neg (by omega), if_neg fifth]
      rw [r4, k]
      refine sim.roundCall (fun b c d => ?_) taken
      rw [mix, if_neg (by omega), if_neg (by omega), if_neg fifth]

theorem calls_simulate (whole : block.length = 64) (count : Nat)
    : Simulates block h count (calls { vars := h, block := loadBlock block } count) := by
  induction count with
  | zero =>
      constructor
      case vars =>
        intro i
        have renamed : var 0 i = i := Fin.ext (Nat.mod_eq_of_lt i.isLt)
        rw [renamed]
        rfl
      case words =>
        intro u before
        exact absurd before (Nat.not_lt_zero u)
      case fresh =>
        intro u _ _
        rfl
  | succ count ih =>
      rw [calls, List.range_succ, List.foldl_append]
      exact ih.call whole

theorem sha1Transform_eq_compress (h : Sha1State) {block : Bytes} (whole : block.length = 64)
    : sha1Transform h block = compress h block := by
  have turned (i : Fin 5) : var 80 i = i := by
    apply Fin.ext
    have inside := i.isLt
    simp only [var, Fin.val_ofNat]
    omega
  have last := (calls_simulate (h := h) whole 80).vars
  simp only [turned] at last
  simp only [sha1Transform, compress, last]

/-- The block of the padded text `abc`, whose digest is in the appendix of the standard. -/
def abcBlock : Bytes := [97, 98, 99, 0x80] ++ List.replicate 59 0 ++ [24]

theorem sha1Transform_abc
    : compress (fiveWords 0x67452301 0xEFCDAB89 0x98BADCFE 0x10325476 0xC3D2E1F0) abcBlock
      = fiveWords 0xA9993E36 0x4706816A 0xBA3E2571 0x7850C26C 0x9CD0D89D := by
  refine (sha1Transform_eq_compress _ rfl).symm.trans ?_
  decide +kernel

end Standard

end UvgTorrent
