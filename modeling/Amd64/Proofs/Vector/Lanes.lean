import Amd64.Proofs.Arithmetic.Integers
import Amd64.Proofs.Machine.Views
import Amd64.Vector.Lanes

namespace Amd64

/-!
# Lanes one by one

* `laneBits`                          — a lane as bits of its own width;
* `laneBits_mapLanes`                 — a vector made lane by lane has the lanes that it was made of;
* `LaneOp.onLane`, `LaneShift.onLane` — what becomes of one lane, in the arithmetic of its width;
* `LaneOp.laneBits_apply`, `LaneShift.laneBits_apply` — that becomes of every lane;
* `LaneShift.toNat_applyBytes_left`, `LaneShift.toNat_applyBytes_right` — shifts by bytes as products and
  quotients of the whole vector;
* `getLsbD_byteSigns`                 — the top bits of the bytes.

All lanes are made in words of 64 bits, whatever their width. That nothing spills from one lane into the next
is due to `Width.truncate` alone, and is used only in `getLsbD_lanesOf`.
-/

/-- Lane `i` of a vector as bits. -/
def laneBits (w : Width) {n : Nat} (v : BitVec n) (i : Nat) : BitVec w.bits :=
  v.extractLsb' (i * w.bits) w.bits

/-- What becomes of two lanes. -/
def LaneOp.onLane {n : Nat} (op : LaneOp) (x y : BitVec n) : BitVec n :=
  match op with
  | add => x + y
  | sub => x - y
  | cmpeq => if x = y then BitVec.allOnes n else 0

/-- What becomes of a lane that is shifted by `n`. -/
def LaneShift.onLane {k : Nat} (op : LaneShift) (n : Nat) (x : BitVec k) : BitVec k :=
  match op with
  | left => if n < k then x <<< n else 0
  | right => if n < k then x >>> n else 0
  | arithmetic => x.sshiftRight (min n (k - 1))

/-! ### Words and lanes -/

namespace Width

variable (w : Width)

/-- No lane is wider than a word. -/
theorem bits_le : w.bits ≤ 64 := by
  cases w <;> decide

/-- The bits of a word that are in a lane. -/
theorem toNat_setWidth (x : UInt64) : (x.toBitVec.setWidth w.bits).toNat = w.toNat x := by
  rw [BitVec.toNat_setWidth, toNat, w.modulus_eq_two_pow]
  rfl

/-- The sign of a lane is the one of its width. -/
theorem toInt_setWidth (x : UInt64) : (x.toBitVec.setWidth w.bits).toInt = w.toInt x := by
  rw [BitVec.toInt_eq_toNat_bmod, toNat_setWidth, toInt, w.modulus_eq_two_pow]

/-- A lane is determined by its number. -/
theorem setWidth_eq_iff {x : UInt64} {y : BitVec w.bits} :
    x.toBitVec.setWidth w.bits = y ↔ w.toNat x = y.toNat := by
  rw [← BitVec.toNat_inj, toNat_setWidth]

end Width

section
variable (w : Width)

/-- The bits of a lane are bits of the vector. -/
theorem getLsbD_laneBits {n : Nat} (v : BitVec n) (i k : Nat) :
    (laneBits w v i).getLsbD k = (decide (k < w.bits) && v.getLsbD (i * w.bits + k)) :=
  BitVec.getLsbD_extractLsb' ..

/-- A lane as a word has zeros above it. -/
theorem toBitVec_lane (v : BitVec 128) (i : Nat) :
    (lane w v i).toBitVec = (laneBits w v i).setWidth 64 := by
  refine BitVec.eq_of_getLsbD_eq fun k hk => ?_
  have hword : (UInt64.ofNat (v >>> (i * w.bits)).toNat).toBitVec.getLsbD k =
      v.getLsbD (i * w.bits + k) := by
    show (BitVec.ofNat 64 (v >>> (i * w.bits)).toNat).getLsbD k = _
    rw [BitVec.ofNat_toNat, BitVec.getLsbD_setWidth, decide_eq_true hk, Bool.true_and,
      BitVec.getLsbD_ushiftRight]
  rw [lane, w.getLsbD_truncate _ hk, hword, BitVec.getLsbD_setWidth, decide_eq_true hk, Bool.true_and,
    getLsbD_laneBits]

/-- A lane as a word and as bits. -/
theorem setWidth_lane (v : BitVec 128) (i : Nat) :
    (lane w v i).toBitVec.setWidth w.bits = laneBits w v i := by
  rw [toBitVec_lane, BitVec.setWidth_setWidth_of_le _ w.bits_le, BitVec.setWidth_eq]

/-- Lanes are equal if they are equal as words. -/
theorem lane_eq_iff (a b : BitVec 128) (i : Nat) :
    lane w a i = lane w b i ↔ laneBits w a i = laneBits w b i := by
  constructor
  · intro h
    rw [← setWidth_lane, h, setWidth_lane]
  · intro h
    rw [← UInt64.toBitVec_inj, toBitVec_lane, h, toBitVec_lane]

/-! ### Vectors made of lanes -/

/-- Every bit comes from the lane that it is in: below the lanes that are put in place there is room, and
    they are cut to their width. -/
theorem getLsbD_lanesOf (f : Nat → UInt64) {n : Nat} (hn : n * w.bits ≤ 128) {i k : Nat} (hk : k < w.bits) :
    (lanesOf w f n).getLsbD (i * w.bits + k) = (decide (i < n) && (f i).toBitVec.getLsbD k) := by
  have hbits := w.bits_le
  induction n with
  | zero => simp [lanesOf]
  | succ n ih =>
    rw [Nat.succ_mul] at hn
    rw [lanesOf, BitVec.getLsbD_or, ih (by omega), BitVec.getLsbD_shiftLeft, BitVec.getLsbD_ofNat]
    rcases Nat.lt_trichotomy i n with hlt | rfl | hgt
    · -- lanes below stay as they are
      have hbelow : i * w.bits + w.bits ≤ n * w.bits := by
        rw [← Nat.succ_mul]
        exact Nat.mul_le_mul_right _ hlt
      simp [hlt, show i * w.bits + k < n * w.bits by omega, show i < n + 1 by omega]
    · have hbit : (w.truncate (f i)).toNat.testBit k = (f i).toBitVec.getLsbD k := by
        rw [← UInt64.toNat_toBitVec, BitVec.testBit_toNat, w.getLsbD_truncate _ (by omega), decide_eq_true hk,
          Bool.true_and]
      simp [hbit, show i * w.bits + k < 128 by omega, show k < 128 by omega]
    · -- a lane has no bits beyond its width
      have habove : n * w.bits + w.bits ≤ i * w.bits := by
        rw [← Nat.succ_mul]
        exact Nat.mul_le_mul_right _ hgt
      have hzero : (w.truncate (f n)).toNat.testBit (i * w.bits + k - n * w.bits) = false :=
        Nat.testBit_lt_two_pow ((w.toNat_truncate_lt (f n)).trans_le
          (Nat.pow_le_pow_right (by decide) (by omega)))
      simp [hzero, show ¬ i < n by omega, show ¬ i < n + 1 by omega]

/-- **Lanes.** Each lane of a vector made lane by lane is made of the lanes at its own place. -/
theorem laneBits_mapLanes (f : UInt64 → UInt64 → UInt64) (a b : BitVec 128) {i : Nat} (hi : i < 128 / w.bits) :
    laneBits w (mapLanes w f a b) i = (f (lane w a i) (lane w b i)).toBitVec.setWidth w.bits := by
  refine BitVec.eq_of_getLsbD_eq fun k hk => ?_
  rw [getLsbD_laneBits, decide_eq_true hk, Bool.true_and, mapLanes,
    getLsbD_lanesOf w _ (Nat.div_mul_le_self 128 w.bits) hk, decide_eq_true hi, Bool.true_and,
    BitVec.getLsbD_setWidth, decide_eq_true hk, Bool.true_and]

/-! ### Sums, differences and comparisons -/

/-- Operations on vectors are operations on their lanes. -/
theorem LaneOp.laneBits_apply (op : LaneOp) (a b : BitVec 128) {i : Nat} (hi : i < 128 / w.bits) :
    laneBits w (op.apply w a b) i = op.onLane (laneBits w a i) (laneBits w b i) := by
  cases op with
  | add =>
    rw [apply, laneBits_mapLanes w _ a b hi, UInt64.toBitVec_add, BitVec.setWidth_add _ _ w.bits_le,
      setWidth_lane, setWidth_lane, onLane]
  | sub =>
    rw [apply, laneBits_mapLanes w _ a b hi, UInt64.toBitVec_sub, BitVec.sub_eq_add_neg,
      BitVec.setWidth_add _ _ w.bits_le, BitVec.setWidth_neg_of_le w.bits_le, setWidth_lane, setWidth_lane,
      ← BitVec.sub_eq_add_neg, onLane]
  | cmpeq =>
    rw [apply, laneBits_mapLanes w _ a b hi]
    simp only [lane_eq_iff, onLane]
    split
    · cases w <;> rfl
    · exact BitVec.setWidth_zero ..

/-! ### Shifts -/

/-- The word that a lane is shifted to. -/
theorem LaneShift.setWidth_shift (op : LaneShift) (n : Nat) (v : BitVec 128) (i : Nat) :
    (op.shift w n (lane w v i)).toBitVec.setWidth w.bits = op.onLane n (laneBits w v i) := by
  have hlane : (lane w v i).toNat = (laneBits w v i).toNat := by
    rw [← UInt64.toNat_toBitVec, toBitVec_lane, BitVec.toNat_setWidth_of_le w.bits_le]
  cases op with
  | left =>
    rw [shift, onLane]
    split
    · rw [Width.setWidth_eq_iff, Width.toNat_ofNat, hlane, BitVec.toNat_shiftLeft, w.modulus_eq_two_pow]
    · exact BitVec.setWidth_zero ..
  | right =>
    rw [shift, onLane]
    split
    · rw [Width.setWidth_eq_iff, Width.toNat_ofNat, hlane, BitVec.toNat_ushiftRight, w.modulus_eq_two_pow,
        Nat.mod_eq_of_lt]
      exact (Nat.shiftRight_le ..).trans_lt (laneBits w v i).isLt
    · exact BitVec.setWidth_zero ..
  | arithmetic =>
    -- the shifted number is the number of a lane, so it has a form of the width
    have hsigned : w.toInt (lane w v i) = (laneBits w v i).toInt := by
      rw [← Width.toInt_setWidth, setWidth_lane]
    rw [shift, onLane, ← BitVec.toInt_inj, Width.toInt_setWidth, Width.toInt_ofInt, hsigned,
      ← BitVec.toInt_sshiftRight, w.modulus_eq_two_pow, BitVec.toInt_bmod_cancel]

/-- Shifts of vectors are shifts of their lanes. -/
theorem LaneShift.laneBits_apply (op : LaneShift) (n : Nat) (v : BitVec 128) {i : Nat} (hi : i < 128 / w.bits) :
    laneBits w (op.apply w n v) i = op.onLane n (laneBits w v i) := by
  rw [apply, laneBits_mapLanes w _ v 0 hi, setWidth_shift]

end

/-! ### The whole vector -/

namespace LaneShift

/-- All sixteen bytes are moved out. -/
theorem applyBytes_of_lt (op : LaneShift) {n : Nat} (hn : 15 < n) (v : BitVec 128) : op.applyBytes n v = 0 :=
  if_pos hn

/-- Bytes are moved up: the vector as a number is multiplied. -/
theorem toNat_applyBytes_left (n : Nat) (v : BitVec 128) :
    (left.applyBytes n v).toNat = v.toNat * 256 ^ n % 2 ^ 128 := by
  have hpow : 256 ^ n = 2 ^ (n * 8) := by rw [Nat.mul_comm, Nat.pow_mul]
  rw [applyBytes, hpow]
  split
  · next hn =>
    -- the product is a multiple of the number of vectors
    have hdvd : 2 ^ 128 ∣ v.toNat * 2 ^ (n * 8) := Dvd.dvd.mul_left (Nat.pow_dvd_pow 2 (by omega)) _
    rw [Nat.mod_eq_zero_of_dvd hdvd]
    rfl
  · rw [BitVec.toNat_shiftLeft, Nat.shiftLeft_eq]

/-- Bytes are moved down: the vector as a number is divided. -/
theorem toNat_applyBytes_right (n : Nat) (v : BitVec 128) :
    (right.applyBytes n v).toNat = v.toNat / 256 ^ n := by
  have hpow : 256 ^ n = 2 ^ (n * 8) := by rw [Nat.mul_comm, Nat.pow_mul]
  rw [hpow]
  unfold applyBytes
  split
  · next hn =>
    rw [Nat.div_eq_of_lt (v.isLt.trans_le (Nat.pow_le_pow_right (by decide) (by omega)))]
    rfl
  · show (v >>> (n * 8)).toNat = _
    rw [BitVec.toNat_ushiftRight, Nat.shiftRight_eq_div_pow]

end LaneShift

/-- Bits that are added at their places do not meet. -/
theorem sum_of_bits (f : Nat → Bool) (n : Nat) :
    (List.range n).foldl (fun m i => m + (f i).toNat <<< i) 0 < 2 ^ n ∧
      ∀ i, ((List.range n).foldl (fun m i => m + (f i).toNat <<< i) 0).testBit i = (decide (i < n) && f i) := by
  induction n with
  | zero => simp
  | succ n ih =>
    rw [List.range_succ, List.foldl_append, List.foldl_cons, List.foldl_nil]
    obtain ⟨hlt, hbits⟩ := ih
    refine ⟨?_, fun i => ?_⟩
    · rw [Nat.shiftLeft_eq, Nat.pow_succ]
      cases f n <;> simp <;> omega
    · rw [Nat.add_comm, Nat.shiftLeft_add_eq_or_of_lt hlt, Nat.testBit_or, hbits, Nat.testBit_shiftLeft]
      rcases Nat.lt_trichotomy i n with h | rfl | h
      · simp [h, show i < n + 1 by omega]
      · cases f i <;> simp
      · have hzero : (f n).toNat.testBit (i - n) = false :=
          Nat.testBit_lt_two_pow ((Bool.toNat_lt (f n)).trans_le
            (Nat.pow_le_pow_right Nat.two_pos (Nat.sub_pos_of_lt h)))
        simp [hzero, show ¬ i < n by omega, show ¬ i < n + 1 by omega]

/-- Bit `i` is the top bit of byte `i`. -/
theorem getLsbD_byteSigns (v : BitVec 128) (i : Nat) :
    (byteSigns v).toBitVec.getLsbD i = (laneBits .w8 v i).msb := by
  obtain ⟨hlt, hbits⟩ := sum_of_bits (fun i => v.getLsbD (8 * i + 7)) 16
  have hword : (byteSigns v).toBitVec.toNat =
      (List.range 16).foldl (fun m i => m + (v.getLsbD (8 * i + 7)).toNat <<< i) 0 :=
    UInt64.toNat_ofNat_of_lt' (hlt.trans (by decide))
  have hplace : i * Width.w8.bits + 7 = 8 * i + 7 := by
    rw [Width.bits, Nat.mul_comm]
  rw [← BitVec.testBit_toNat, hword, hbits, BitVec.msb_eq_getLsbD_last, getLsbD_laneBits]
  show (decide (i < 16) && v.getLsbD (8 * i + 7)) = (true && v.getLsbD (i * Width.w8.bits + 7))
  rw [hplace, Bool.true_and]
  by_cases hi : i < 16
  · rw [decide_eq_true hi, Bool.true_and]
  · rw [decide_eq_false hi, Bool.false_and, BitVec.getLsbD_of_ge _ _ (by omega)]

end Amd64
