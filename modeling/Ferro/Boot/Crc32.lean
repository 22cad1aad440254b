import Ferro.Base.Crc
import Ferro.Boot.Model

/-!
# `crc32_ieee` (`efi/crc32.rs`)

The loop is a check of 32 bits with the generator of IEEE 802.3, least significant bits first. Its register is full of
ones at first, and it is inverted at the end.
-/

namespace Ferro

open Polynomial

/-- The generator of IEEE 802.3. -/
noncomputable def ieeeGenerator : (ZMod 2)[X] :=
  X ^ 32 + X ^ 26 + X ^ 23 + X ^ 22 + X ^ 16 + X ^ 12 + X ^ 11 + X ^ 10 + X ^ 8 + X ^ 7 + X ^ 5 + X ^ 4 + X ^ 2 + X + 1

/-- The bits of a byte string, those of a byte least significant first. -/
def messageBits (data : List UInt8) : List Bool := data.flatMap fun byte => Crc.bits byte.toBitVec

/-- The remainder for a byte string, with ones in the register before it. -/
noncomputable def crcRemainder (data : List UInt8) : (ZMod 2)[X] :=
  (Crc.message (messageBits data) * X ^ 32 + X ^ (messageBits data).length * ∑ i ∈ Finset.range 32, X ^ i) %ₘ
    ieeeGenerator

theorem generator_ieee : Crc.generator 0xEDB88320#32 = ieeeGenerator := by
  have hbits : Crc.bits 0xEDB88320#32 = [false, false, false, false, false, true, false, false, true, true, false, false,
      false, false, false, true, false, false, false, true, true, true, false, true, true, false, true, true, false, true,
      true, true] := by decide
  rw [Crc.generator, Crc.poly, hbits, ieeeGenerator]
  simp only [Crc.message, Crc.coef_false, Crc.coef_true, List.length_cons, List.length_nil, C_0, C_1]
  ring

theorem coeff_ieeeGenerator : (Crc.generator 0xEDB88320#32).coeff 0 = 1 := by
  rw [generator_ieee, ieeeGenerator]
  simp

/-! ## The loop -/

theorem toBitVec_crcBit (crc : UInt32) : (crcBit crc).toBitVec = Crc.shift 0xEDB88320#32 crc.toBitVec := by
  have hmask : (0#32 - (crc.toBitVec &&& 1#32)) = if crc.toBitVec.getLsbD 0 then 0xFFFFFFFF#32 else 0#32 := by
    rw [BitVec.and_one_eq_setWidth_ofBool_getLsbD]
    cases crc.toBitVec.getLsbD 0 <;> rfl
  have hstep : (crcBit crc).toBitVec =
      (crc.toBitVec >>> 1) ^^^ (0xEDB88320#32 &&& (0#32 - (crc.toBitVec &&& 1#32))) := rfl
  rw [hstep, hmask, Crc.shift]
  cases crc.toBitVec.getLsbD 0 <;> rfl

theorem toBitVec_iterate_crcBit (n : Nat) (crc : UInt32) :
    (crcBit^[n] crc).toBitVec = (Crc.shift 0xEDB88320#32)^[n] crc.toBitVec := by
  induction n generalizing crc with
  | zero => rfl
  | succ n ih => rw [Function.iterate_succ_apply, Function.iterate_succ_apply, ih, toBitVec_crcBit]

theorem toBitVec_crcByte (crc : UInt32) (byte : UInt8) :
    (crcByte crc byte).toBitVec = Crc.feed 0xEDB88320#32 crc.toBitVec byte.toBitVec := by
  rw [crcByte, toBitVec_iterate_crcBit, Crc.feed]
  rfl

theorem toBitVec_foldl_crcByte (crc : UInt32) (data : List UInt8) :
    (data.foldl crcByte crc).toBitVec = (data.map UInt8.toBitVec).foldl (Crc.feed 0xEDB88320#32) crc.toBitVec := by
  induction data generalizing crc with
  | nil => rfl
  | cons byte data ih => rw [List.foldl_cons, ih, toBitVec_crcByte, List.map_cons, List.foldl_cons]

theorem poly_foldl_crcByte (data : List UInt8) :
    Crc.poly (data.foldl crcByte 0xFFFFFFFF).toBitVec = crcRemainder data := by
  have hbits : (data.map UInt8.toBitVec).flatMap Crc.bits = messageBits data := List.flatMap_map ..
  have hones : Crc.poly (0xFFFFFFFF : UInt32).toBitVec = ∑ i ∈ Finset.range 32, X ^ i := Crc.poly_allOnes 32
  rw [toBitVec_foldl_crcByte, Crc.poly_foldl (by decide) (by decide), hbits, hones, generator_ieee, crcRemainder]

theorem getLsbD_crc32Ieee (data : List UInt8) {i : Nat} (hi : i < 32) :
    (crc32Ieee data).toBitVec.getLsbD i = !decide ((crcRemainder data).coeff (31 - i) = 1) := by
  have hnot : (crc32Ieee data).toBitVec = ~~~(data.foldl crcByte 0xFFFFFFFF).toBitVec := rfl
  rw [hnot, BitVec.getLsbD_not, Crc.getLsbD_eq_coeff _ hi, poly_foldl_crcByte, decide_eq_true hi, Bool.true_and]

/-! ## Bursts -/

theorem messageBits_injective {a b : List UInt8} (hlen : a.length = b.length) (h : messageBits a = messageBits b) :
    a = b := by
  induction a generalizing b with
  | nil => exact (List.length_eq_zero_iff.mp hlen.symm).symm
  | cons x a ih =>
      cases b with
      | nil => cases hlen
      | cons y b =>
          rw [messageBits, messageBits, List.flatMap_cons, List.flatMap_cons] at h
          obtain ⟨hx, ht⟩ := List.append_inj h (by simp)
          rw [UInt8.toBitVec_inj.mp (Crc.bits_injective hx), ih (Nat.succ.inj hlen) ht]

theorem length_messageBits (data : List UInt8) : (messageBits data).length = 8 * data.length := by
  simp [messageBits, List.length_flatMap, Nat.mul_comm]

theorem crc32Ieee_ne_of_burst {a b : List UInt8} (h : Crc.Burst 32 (messageBits a) (messageBits b)) :
    crc32Ieee a ≠ crc32Ieee b := by
  intro heq
  have hreg : a.foldl crcByte 0xFFFFFFFF = b.foldl crcByte 0xFFFFFFFF := UInt32.not_inj.mp heq
  refine h.modByMonic_ne coeff_ieeeGenerator (∑ i ∈ Finset.range 32, X ^ i) ?_
  rw [generator_ieee, ← crcRemainder, ← crcRemainder, ← poly_foldl_crcByte, ← poly_foldl_crcByte, hreg]

/-- Each bit is the complement of a coefficient of the remainder, the lowest that of the highest power; and two strings
that differ in a burst of at most 32 bits have different checksums. -/
theorem crc32Ieee_ieee :
    (∀ (data : List UInt8) (i : Nat), i < 32 →
      (crc32Ieee data).toBitVec.getLsbD i = !decide ((crcRemainder data).coeff (31 - i) = 1)) ∧
      ∀ a b : List UInt8, a.length = b.length → a ≠ b →
        (∃ s, ∀ i, (messageBits a)[i]? ≠ (messageBits b)[i]? → s ≤ i ∧ i < s + 32) → crc32Ieee a ≠ crc32Ieee b := by
  refine ⟨fun data i hi => getLsbD_crc32Ieee data hi, fun a b hlen hne hs => crc32Ieee_ne_of_burst ⟨?_, ?_, hs⟩⟩
  · rw [length_messageBits, length_messageBits, hlen]
  · exact fun h => hne (messageBits_injective hlen h)

/-- A bit of the second byte is flipped. -/
theorem crc32Ieee_ne_flipped : crc32Ieee [0x31, 0x32] ≠ crc32Ieee [0x31, 0x33] := by
  refine crc32Ieee_ieee.2 _ _ rfl (by decide) ⟨0, fun i hi => ⟨Nat.zero_le i, ?_⟩⟩
  by_contra hge
  refine hi ?_
  rw [List.getElem?_eq_none (by rw [length_messageBits]; simp; omega),
    List.getElem?_eq_none (by rw [length_messageBits]; simp; omega)]

example : crc32Ieee [0x31, 0x32, 0x33, 0x34, 0x35, 0x36, 0x37, 0x38, 0x39] = 0xCBF43926 := by decide +kernel

end Ferro
