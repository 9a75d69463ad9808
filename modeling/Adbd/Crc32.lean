import Mathlib.Logic.Function.Iterate
import Mathlib.Tactic.Common

/-!
# CRC Without Tables

Without `CONFIG_CRC32_TABLES` the kernel of this image computes its checksums a bit at a time.
A register is shifted by one place, and if the bit that leaves it is set the polynomial is
added. Both ways to add are exclusive or, so a step is linear, and a register whose leaving
bits are all clear is only shifted: eight steps are a shift by a byte, and the eight steps of
the byte that leaves, which is what the tables hold.

## Main definitions

* `Crc.down`, `Crc.up`: one step of a register that is shifted right or left.
* `crc32LeBase`, `crc32BeBase`, `crc32cBase`: the loops of the patch.
* `tableDown`, `tableUp`: the loops with a table that they replace.

## Main results

* `Crc.iterate_down`, `Crc.iterate_up`: eight steps by a table.
* `crc32_tableless_eq`: the checksums are the same.
-/

namespace Crc

variable {w : Nat} (poly : BitVec w)

/-- A step of a register that is shifted right: the low bit leaves. -/
def down (x : BitVec w) : BitVec w := (x >>> 1) ^^^ (if x.getLsbD 0 then poly else 0)

/-- A step of a register that is shifted left: the high bit leaves. -/
def up (x : BitVec w) : BitVec w := (x <<< 1) ^^^ (if x.msb then poly else 0)

variable {poly}

/-- What is added for two bits that leave. -/
theorem ite_xor (b c : Bool) : (if (b ^^ c) then poly else 0) =
    (if b then poly else 0) ^^^ (if c then poly else 0) := by
  cases b <;> cases c <;> simp

/-- A step is linear. -/
theorem down_xor (x y : BitVec w) : down poly (x ^^^ y) = down poly x ^^^ down poly y := by
  simp only [down, BitVec.getLsbD_xor, BitVec.ushiftRight_xor_distrib, ite_xor]
  ac_rfl

theorem up_xor (x y : BitVec w) : up poly (x ^^^ y) = up poly x ^^^ up poly y := by
  simp only [up, BitVec.msb_xor, BitVec.shiftLeft_xor_distrib, ite_xor]
  ac_rfl

/-- Steps of a linear map are linear. -/
theorem iterate_xor {f : BitVec w → BitVec w} (hf : ∀ x y, f (x ^^^ y) = f x ^^^ f y) (n : Nat)
    (x y : BitVec w) : f^[n] (x ^^^ y) = f^[n] x ^^^ f^[n] y := by
  induction n generalizing x y with
  | zero => rfl
  | succ n ih => simp only [Function.iterate_succ_apply, hf, ih]

/-- A register whose low bits are clear is only shifted. -/
theorem iterate_down_of_clear {n : Nat} {x : BitVec w} (h : ∀ i < n, x.getLsbD i = false) :
    (down poly)^[n] x = x >>> n := by
  induction n with
  | zero => simp
  | succ n ih =>
      have hn : (x >>> n).getLsbD 0 = false := by simpa using h n (Nat.lt_succ_self n)
      rw [Function.iterate_succ_apply', ih fun i hi => h i (Nat.lt_succ_of_lt hi), down, hn,
        BitVec.shiftRight_add]
      simp

/-- A register whose high bits are clear is only shifted. -/
theorem iterate_up_of_clear {n : Nat} {x : BitVec w} (h : ∀ i < n, x.getMsbD i = false) :
    (up poly)^[n] x = x <<< n := by
  induction n with
  | zero => simp
  | succ n ih =>
      have hn : (x <<< n).msb = false := by
        simpa [BitVec.msb] using h n (Nat.lt_succ_self n)
      rw [Function.iterate_succ_apply', ih fun i hi => h i (Nat.lt_succ_of_lt hi), up, hn,
        BitVec.shiftLeft_add]
      simp

/-- The mask of the low byte. -/
theorem getLsbD_255 (i : Nat) : (255#w).getLsbD i = (decide (i < w) && decide (i < 8)) := by
  rw [BitVec.getLsbD_ofNat, show (255 : Nat) = 2 ^ 8 - 1 from rfl, Nat.testBit_two_pow_sub_one]

/-- The low byte of a register and the rest of it. -/
theorem low_byte (x : BitVec w) :
    x = (x &&& ~~~255#w) ^^^ (x &&& 255#w) ∧ (∀ i < 8, (x &&& ~~~255#w).getLsbD i = false) ∧
      (x &&& ~~~255#w) >>> 8 = x >>> 8 := by
  refine ⟨?_, fun i hi => ?_, ?_⟩
  · refine BitVec.eq_of_getLsbD_eq fun i hi => ?_
    simp only [BitVec.getLsbD_xor, BitVec.getLsbD_and, BitVec.getLsbD_not]
    cases x.getLsbD i <;> simp [hi]
  · simp only [BitVec.getLsbD_and, BitVec.getLsbD_not, getLsbD_255]
    cases hiw : decide (i < w) <;> simp [hi]
  · refine BitVec.eq_of_getLsbD_eq fun i hi => ?_
    simp only [BitVec.getLsbD_ushiftRight, BitVec.getLsbD_and, BitVec.getLsbD_not, getLsbD_255]
    by_cases h8 : 8 + i < w
    · simp [h8]
    · simp [BitVec.getLsbD_of_ge x (8 + i) (by omega)]

/-- **Eight steps of a register that is shifted right**: those of its low byte, and a shift. -/
theorem iterate_down (x : BitVec w) :
    (down poly)^[8] x = (x >>> 8) ^^^ (down poly)^[8] (x &&& 255#w) := by
  obtain ⟨hsplit, hclear, hshift⟩ := low_byte x
  calc (down poly)^[8] x
      = (down poly)^[8] ((x &&& ~~~255#w) ^^^ (x &&& 255#w)) := by rw [← hsplit]
    _ = (down poly)^[8] (x &&& ~~~255#w) ^^^ (down poly)^[8] (x &&& 255#w) :=
        iterate_xor down_xor 8 _ _
    _ = (x >>> 8) ^^^ (down poly)^[8] (x &&& 255#w) := by
        rw [iterate_down_of_clear hclear, hshift]

/-- The high byte of a register, in its place. -/
def highByte (x : BitVec w) : BitVec w := (x >>> (w - 8)) <<< (w - 8)

theorem getLsbD_highByte (x : BitVec w) (i : Nat) :
    (highByte x).getLsbD i = (decide (w - 8 ≤ i) && x.getLsbD i) := by
  rw [highByte, BitVec.getLsbD_shiftLeft, BitVec.getLsbD_ushiftRight]
  by_cases hi : w - 8 ≤ i
  · by_cases hw : i < w
    · simp [hi, hw, Nat.not_lt.mpr hi]
    · simp [hw, BitVec.getLsbD_of_ge x i (Nat.not_lt.mp hw)]
  · simp [hi, Nat.not_le.mp hi]

/-- The high byte of a register and the rest of it. -/
theorem high_byte (hw : 8 ≤ w) (x : BitVec w) :
    x = (x ^^^ highByte x) ^^^ highByte x ∧ (∀ i < 8, (x ^^^ highByte x).getMsbD i = false) ∧
      (x ^^^ highByte x) <<< 8 = x <<< 8 := by
  refine ⟨?_, fun i hi => ?_, ?_⟩
  · rw [BitVec.xor_assoc, BitVec.xor_self, BitVec.xor_zero]
  · have hle : w - 8 ≤ w - 1 - i := by omega
    simp [BitVec.getMsbD_eq_getLsbD, getLsbD_highByte, hle]
  · refine BitVec.eq_of_getLsbD_eq fun i hi => ?_
    simp only [BitVec.getLsbD_shiftLeft, BitVec.getLsbD_xor, getLsbD_highByte]
    by_cases h8 : i < 8
    · simp [h8]
    · have hlt : ¬w - 8 ≤ i - 8 := by omega
      simp [hlt]

/-- **Eight steps of a register that is shifted left**: those of its high byte, and a shift. -/
theorem iterate_up (hw : 8 ≤ w) (x : BitVec w) :
    (up poly)^[8] x = (x <<< 8) ^^^ (up poly)^[8] (highByte x) := by
  obtain ⟨hsplit, hclear, hshift⟩ := high_byte hw x
  calc (up poly)^[8] x
      = (up poly)^[8] ((x ^^^ highByte x) ^^^ highByte x) := by rw [← hsplit]
    _ = (up poly)^[8] (x ^^^ highByte x) ^^^ (up poly)^[8] (highByte x) :=
      iterate_xor up_xor 8 _ _
    _ = (x <<< 8) ^^^ (up poly)^[8] (highByte x) := by
        rw [iterate_up_of_clear hclear, hshift]

end Crc

namespace Adbd.Crc32

/-! ### The loops of the patch -/

/-- The loops of `crc32_le_base` and `crc32c_base`. -/
def baseDown (poly : BitVec 32) : BitVec 32 → List (BitVec 8) → BitVec 32
  | crc, [] => crc
  | crc, b :: p =>
      baseDown poly ((fun crc : BitVec 32 =>
        (crc >>> 1) ^^^ (if crc &&& 1 ≠ 0 then poly else 0))^[8] (crc ^^^ b.setWidth 32)) p

/-- `crc32_le_base`. -/
def crc32LeBase : BitVec 32 → List (BitVec 8) → BitVec 32 := baseDown 0xedb88320

/-- `crc32_be_base`. -/
def crc32BeBase : BitVec 32 → List (BitVec 8) → BitVec 32
  | crc, [] => crc
  | crc, b :: p =>
      crc32BeBase ((fun crc : BitVec 32 =>
        (crc <<< 1) ^^^ (if crc &&& 0x80000000 ≠ 0 then 0x04c11db7 else 0))^[8]
          (crc ^^^ (b.setWidth 32 <<< 24))) p

/-- `crc32c_base`. -/
def crc32cBase : BitVec 32 → List (BitVec 8) → BitVec 32 := baseDown 0x82f63b78

/-! ### The loops they replace -/

/-- The loops of `crc32_le_base` and `crc32c_base` with the tables `crc32table_le` and
`crc32ctable_le`. -/
def tableDown (table : Nat → BitVec 32) : BitVec 32 → List (BitVec 8) → BitVec 32
  | crc, [] => crc
  | crc, b :: p =>
      tableDown table ((crc >>> 8) ^^^ table ((crc &&& 255) ^^^ b.setWidth 32).toNat) p

/-- The loop of `crc32_be_base` with the table `crc32table_be`. -/
def tableUp (table : Nat → BitVec 32) : BitVec 32 → List (BitVec 8) → BitVec 32
  | crc, [] => crc
  | crc, b :: p =>
      tableUp table ((crc <<< 8) ^^^ table ((crc >>> 24) ^^^ b.setWidth 32).toNat) p

/-! ### One byte -/

open Crc

/-- The test of a bit. -/
theorem and_bit_ne_zero (x : BitVec 32) {i : Nat} (hi : i < 32) :
    x &&& BitVec.twoPow 32 i ≠ 0 ↔ x.getLsbD i = true := by
  rw [BitVec.and_twoPow]
  cases x.getLsbD i with
  | false => simp
  | true =>
      simp only [if_true, iff_true]
      intro h
      have := congrArg (·.getLsbD i) h
      simp [hi] at this

theorem down_eq (poly : BitVec 32) : (fun crc : BitVec 32 =>
    (crc >>> 1) ^^^ (if crc &&& 1 ≠ 0 then poly else 0)) = down poly := by
  funext crc
  rw [down, show (1 : BitVec 32) = BitVec.twoPow 32 0 from rfl]
  simp only [and_bit_ne_zero crc (i := 0) (by decide)]

theorem up_eq (poly : BitVec 32) : (fun crc : BitVec 32 =>
    (crc <<< 1) ^^^ (if crc &&& 0x80000000 ≠ 0 then poly else 0)) = up poly := by
  funext crc
  rw [up, BitVec.msb_eq_getLsbD_last,
    show (0x80000000 : BitVec 32) = BitVec.twoPow 32 31 from rfl]
  simp only [and_bit_ne_zero crc (i := 31) (by decide)]

/-- A byte has nothing but its low byte. -/
theorem byte_and (b : BitVec 8) : b.setWidth 32 &&& 255#32 = b.setWidth 32 := by
  refine BitVec.eq_of_getLsbD_eq fun i hi => ?_
  rw [BitVec.getLsbD_and, getLsbD_255]
  by_cases h8 : i < 8
  · simp [hi, h8]
  · simp [BitVec.getLsbD_of_ge b i (by omega)]

theorem byte_shift (b : BitVec 8) :
    (b.setWidth 32 : BitVec 32) >>> 8 = 0 ∧ (b.setWidth 32 : BitVec 32) <<< 24 <<< 8 = 0 ∧
      (b.setWidth 32 : BitVec 32) <<< 24 >>> 24 = b.setWidth 32 := by
  refine ⟨?_, ?_, ?_⟩ <;> refine BitVec.eq_of_getLsbD_eq fun i hi => ?_
  · simp
  · simp only [BitVec.getLsbD_shiftLeft, BitVec.getLsbD_setWidth]
    by_cases h8 : i < 8
    · simp [h8]
    · simp [show i - 8 < 24 by omega]
  · simp only [BitVec.getLsbD_ushiftRight, BitVec.getLsbD_shiftLeft, BitVec.getLsbD_setWidth]
    by_cases h8 : i < 8
    · simp [show 24 + i < 32 by omega, show i < 32 by omega]
    · simp [BitVec.getLsbD_of_ge b i (by omega)]

/-- A byte of a reflected loop, by a table. -/
theorem down_byte {poly : BitVec 32} {table : Nat → BitVec 32}
    (h : ∀ i < 256, table i = (down poly)^[8] (BitVec.ofNat 32 i)) (crc : BitVec 32)
    (b : BitVec 8) : (down poly)^[8] (crc ^^^ b.setWidth 32) =
      (crc >>> 8) ^^^ table ((crc &&& 255) ^^^ b.setWidth 32).toNat := by
  have hlow : (crc ^^^ b.setWidth 32) &&& 255#32 = (crc &&& 255) ^^^ b.setWidth 32 := by
    refine BitVec.eq_of_getLsbD_eq fun i hi => ?_
    have hb := congrArg (·.getLsbD i) (byte_and b)
    simp only [BitVec.getLsbD_and, BitVec.getLsbD_xor] at hb ⊢
    rw [← hb]
    cases crc.getLsbD i <;> cases (b.setWidth 32).getLsbD i <;> simp
  have hlt : ((crc &&& 255) ^^^ b.setWidth 32).toNat < 256 := by
    rw [← hlow, BitVec.toNat_and]
    exact Nat.lt_succ_of_le Nat.and_le_right
  rw [iterate_down, BitVec.ushiftRight_xor_distrib, (byte_shift b).1, hlow, h _ hlt,
    BitVec.ofNat_toNat, BitVec.setWidth_eq]
  simp

/-- A byte of the other loop, by a table. -/
theorem up_byte {poly : BitVec 32} {table : Nat → BitVec 32}
    (h : ∀ i < 256, table i = (up poly)^[8] (BitVec.ofNat 32 i <<< 24)) (crc : BitVec 32)
    (b : BitVec 8) : (up poly)^[8] (crc ^^^ (b.setWidth 32 <<< 24)) =
      (crc <<< 8) ^^^ table ((crc >>> 24) ^^^ b.setWidth 32).toNat := by
  obtain ⟨-, hout, hback⟩ := byte_shift b
  have hhigh : (crc ^^^ (b.setWidth 32 <<< 24)) >>> 24 = (crc >>> 24) ^^^ b.setWidth 32 := by
    rw [BitVec.ushiftRight_xor_distrib, hback]
  have hlt : ((crc >>> 24) ^^^ b.setWidth 32).toNat < 256 := by
    rw [← hhigh, BitVec.toNat_ushiftRight, Nat.shiftRight_eq_div_pow]
    exact Nat.div_lt_of_lt_mul (BitVec.isLt _)
  rw [iterate_up (by decide), BitVec.shiftLeft_xor_distrib, hout, highByte, hhigh, h _ hlt,
    BitVec.ofNat_toNat, BitVec.setWidth_eq]
  simp

/-! ### Strings -/

/-- The reflected loops are those of their tables. -/
theorem baseDown_eq {poly : BitVec 32} {table : Nat → BitVec 32}
    (h : ∀ i < 256, table i = (down poly)^[8] (BitVec.ofNat 32 i)) (crc : BitVec 32)
    (p : List (BitVec 8)) : baseDown poly crc p = tableDown table crc p := by
  induction p generalizing crc with
  | nil => rfl
  | cons b p ih => rw [baseDown, tableDown, down_eq, down_byte h, ih]

/-- And so is the other one. -/
theorem crc32BeBase_eq {table : Nat → BitVec 32}
    (h : ∀ i < 256, table i = (up 0x04c11db7)^[8] (BitVec.ofNat 32 i <<< 24)) (crc : BitVec 32)
    (p : List (BitVec 8)) : crc32BeBase crc p = tableUp table crc p := by
  induction p generalizing crc with
  | nil => rfl
  | cons b p ih => rw [crc32BeBase, tableUp, up_eq, up_byte h, ih]

/-- **The checksums are the same without tables**: for every register and every string, if the
tables hold eight steps of each byte. -/
theorem crc32_tableless_eq {crc32tableLe crc32tableBe crc32ctableLe : Nat → BitVec 32}
    (hle : ∀ i < 256, crc32tableLe i = (down 0xedb88320)^[8] (BitVec.ofNat 32 i))
    (hbe : ∀ i < 256, crc32tableBe i = (up 0x04c11db7)^[8] (BitVec.ofNat 32 i <<< 24))
    (hc : ∀ i < 256, crc32ctableLe i = (down 0x82f63b78)^[8] (BitVec.ofNat 32 i))
    (crc : BitVec 32) (p : List (BitVec 8)) :
    crc32LeBase crc p = tableDown crc32tableLe crc p ∧
      crc32BeBase crc p = tableUp crc32tableBe crc p ∧
      crc32cBase crc p = tableDown crc32ctableLe crc p :=
  ⟨baseDown_eq hle crc p, crc32BeBase_eq hbe crc p, baseDown_eq hc crc p⟩

/-- The tables that are generated, and the checksum of `123456789`. -/
theorem crc32_tableless_digits :
    let p := [49, 50, 51, 52, 53, 54, 55, 56, 57]
    (crc32LeBase 0xffffffff p = 0x340bc6d9 ∧ crc32BeBase 0xffffffff p = 0x0376e6e7 ∧
      crc32cBase 0xffffffff p = 0x1cf96d7c) ∧
    crc32LeBase 0xffffffff p =
      tableDown (fun i => (down 0xedb88320)^[8] (BitVec.ofNat 32 i)) 0xffffffff p ∧
    crc32BeBase 0xffffffff p =
      tableUp (fun i => (up 0x04c11db7)^[8] (BitVec.ofNat 32 i <<< 24)) 0xffffffff p ∧
    crc32cBase 0xffffffff p =
      tableDown (fun i => (down 0x82f63b78)^[8] (BitVec.ofNat 32 i)) 0xffffffff p :=
  ⟨by decide +kernel, crc32_tableless_eq (fun _ _ => rfl) (fun _ _ => rfl)
    (fun _ _ => rfl) _ _⟩

end Adbd.Crc32
