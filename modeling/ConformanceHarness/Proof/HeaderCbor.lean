import ConformanceHarness.Lib.Cbor
import ConformanceHarness.Proof.Headers

/-!
# A synthetic header is canonical CBOR

`cbor_uint` writes a number in five length classes, each with shifts and masks of its own.
Every class is the preferred head of the number, so the integers of a synthetic header are as
short as they can be, and a CBOR decoder reads the header back: the pair of block number and
slot, and a null where the signature would be.
-/

namespace ConformanceHarness

open Lib.Cbor

/-- What a synthetic header says: `[[block_number, slot], null]`. -/
def headerItem (blockNumber slot : UInt64) : Item :=
  .array [.array [.unsigned blockNumber.toNat, .unsigned slot.toNat], .simple 22]

namespace Proof

/-! ## The length classes -/

theorem shifted_byte_eq (v k : UInt64) {j : Nat} (hk : k.toNat = 8 * j) (hj : j < 8) :
    ((v >>> k) &&& 0xFF).toUInt8 = UInt8.ofNat (v.toNat / 256 ^ j) := by
  apply UInt8.toNat_inj.mp
  rw [shifted_byte_toNat v k (by omega), hk, Nat.pow_mul, UInt8.toNat_ofNat']

theorem top_byte_eq (v k : UInt64) {j : Nat} (hk : k.toNat = 8 * j) (hj : j < 8) :
    (v >>> k).toUInt8 = UInt8.ofNat (v.toNat / 256 ^ j) := by
  apply UInt8.toNat_inj.mp
  rw [top_byte_toNat v k (by omega), hk, Nat.pow_mul, UInt8.toNat_ofNat']

theorem low_byte_eq (v : UInt64) : (v &&& 0xFF).toUInt8 = UInt8.ofNat (v.toNat / 256 ^ 0) := by
  apply UInt8.toNat_inj.mp
  rw [low_byte_toNat, Nat.pow_zero, Nat.div_one, UInt8.toNat_ofNat']

theorem byte_eq (v : UInt64) : v.toUInt8 = UInt8.ofNat v.toNat := by
  apply UInt8.toNat_inj.mp
  rw [UInt64.toNat_toUInt8, UInt8.toNat_ofNat']

/-- **`cbor_uint` writes the preferred head.** -/
theorem cborUint_eq (v : UInt64) : cborUint v = preferredHead 0 v.toNat := by
  have hv := v.toNat_lt
  unfold cborUint
  simp only [UInt64.le_iff_toNat_le, UInt64.reduceToNat]
  by_cases h0 : v.toNat ≤ 23
  · have hwidth : argumentWidth v.toNat = 0 := if_pos (by omega)
    have hinfo : argumentInfo v.toNat = v.toNat := if_pos (by omega)
    rw [if_pos h0, preferredHead, hwidth, hinfo, Nat.mul_zero, Nat.zero_add, byte_eq]
    rfl
  rw [if_neg h0]
  by_cases h1 : v.toNat ≤ 0xFF
  · have hwidth : argumentWidth v.toNat = 1 := by simp only [argumentWidth]; split_ifs <;> omega
    have hinfo : argumentInfo v.toNat = 24 := by simp only [argumentInfo]; split_ifs <;> omega
    rw [if_pos h1, preferredHead, hwidth, hinfo, byte_eq]
    simp only [toBigEndian, Nat.pow_zero, Nat.div_one]
    rfl
  rw [if_neg h1]
  by_cases h2 : v.toNat ≤ 0xFFFF
  · have hwidth : argumentWidth v.toNat = 2 := by simp only [argumentWidth]; split_ifs <;> omega
    have hinfo : argumentInfo v.toNat = 25 := by simp only [argumentInfo]; split_ifs <;> omega
    rw [if_pos h2, preferredHead, hwidth, hinfo, @top_byte_eq v 8 1 rfl (by decide), low_byte_eq]
    rfl
  rw [if_neg h2]
  by_cases h3 : v.toNat ≤ 0xFFFFFFFF
  · have hwidth : argumentWidth v.toNat = 4 := by simp only [argumentWidth]; split_ifs <;> omega
    have hinfo : argumentInfo v.toNat = 26 := by simp only [argumentInfo]; split_ifs <;> omega
    rw [if_pos h3, preferredHead, hwidth, hinfo, @top_byte_eq v 24 3 rfl (by decide),
      @shifted_byte_eq v 16 2 rfl (by decide), @shifted_byte_eq v 8 1 rfl (by decide), low_byte_eq]
    rfl
  · have hwidth : argumentWidth v.toNat = 8 := by simp only [argumentWidth]; split_ifs <;> omega
    have hinfo : argumentInfo v.toNat = 27 := by simp only [argumentInfo]; split_ifs <;> omega
    rw [if_neg h3, preferredHead, hwidth, hinfo, @top_byte_eq v 56 7 rfl (by decide),
      @shifted_byte_eq v 48 6 rfl (by decide), @shifted_byte_eq v 40 5 rfl (by decide),
      @shifted_byte_eq v 32 4 rfl (by decide), @shifted_byte_eq v 24 3 rfl (by decide),
      @shifted_byte_eq v 16 2 rfl (by decide), @shifted_byte_eq v 8 1 rfl (by decide), low_byte_eq]
    rfl

/-- `cbor_uint` writes a shortest encoding. -/
theorem cborUint_shortest (v : UInt64) : Shortest v.toNat (cborUint v) := by
  rw [cborUint_eq]
  exact shortest_preferredHead v.toNat_lt

/-- An encoded number, whatever follows it. -/
theorem readItem_cborUint (depth : Nat) (v : UInt64) (rest : List UInt8) :
    readItem (depth + 1) (cborUint v ++ rest) = some (.unsigned v.toNat, rest) := by
  rw [cborUint_eq]
  exact readItem_unsigned depth (readHead_preferredHead (Nat.succ_pos 7) v.toNat_lt rest)

/-! ## The header -/

theorem syntheticHeaderCbor_eq (blockNumber slot : UInt64) : syntheticHeaderCbor blockNumber slot =
    0x82 :: 0x82 :: (cborUint blockNumber ++ (cborUint slot ++ [0xf6])) := by
  simp only [syntheticHeaderCbor, List.cons_append, List.nil_append, List.append_assoc]

/-- The byte of an array of two. -/
theorem readHead_pair (rest : List UInt8) : readHead (0x82 :: rest) = some (⟨4, 2, some 2⟩, rest) :=
  rfl

/-- **A decoder reads a synthetic header back, to its last byte.** -/
theorem decode_syntheticHeaderCbor (blockNumber slot : UInt64) :
    decode (syntheticHeaderCbor blockNumber slot) = some (headerItem blockNumber slot, []) := by
  have hlength : 3 ≤ (syntheticHeaderCbor blockNumber slot).length := by
    rw [syntheticHeaderCbor_eq]
    simp only [List.length_cons, List.length_append, List.length_nil]
    omega
  obtain ⟨depth, hdepth⟩ := Nat.exists_eq_add_of_le' hlength
  rw [decode, hdepth, syntheticHeaderCbor_eq]
  have hnumber := readItem_cborUint depth blockNumber (cborUint slot ++ [0xf6])
  have hslot := readItem_cborUint depth slot [0xf6]
  have hpair := readItem_array (readHead_pair _)
    (readMany_cons hnumber (readMany_cons hslot rfl))
  have hnull : readItem (depth + 2) [0xf6] = some (.simple 22, []) :=
    readItem_simple _ rfl (by decide)
  exact readItem_array (readHead_pair _) (readMany_cons hpair (readMany_cons hnull rfl))

/-- **Synthetic headers are canonical CBOR.** A decoder reads the number and the slot back and
leaves nothing, both are as short as they can be, and no other pair has the same header. -/
theorem syntheticHeaderCbor_canonical (blockNumber slot : UInt64) :
    decode (syntheticHeaderCbor blockNumber slot) = some (headerItem blockNumber slot, []) ∧
    (∃ number slotBytes, syntheticHeaderCbor blockNumber slot =
        0x82 :: 0x82 :: (number ++ (slotBytes ++ [0xf6])) ∧
      Shortest blockNumber.toNat number ∧ Shortest slot.toNat slotBytes) ∧
    ∀ blockNumber' slot', syntheticHeaderCbor blockNumber' slot' =
      syntheticHeaderCbor blockNumber slot → blockNumber' = blockNumber ∧ slot' = slot := by
  refine ⟨decode_syntheticHeaderCbor blockNumber slot, ⟨cborUint blockNumber, cborUint slot, ?_,
    cborUint_shortest blockNumber, cborUint_shortest slot⟩, fun blockNumber' slot' heq => ?_⟩
  · exact syntheticHeaderCbor_eq blockNumber slot
  · have hread := decode_syntheticHeaderCbor blockNumber' slot'
    rw [heq, decode_syntheticHeaderCbor] at hread
    simp only [headerItem, Option.some.injEq, Prod.mk.injEq, Item.array.injEq, List.cons.injEq,
      Item.unsigned.injEq, and_true] at hread
    exact ⟨UInt64.toNat_inj.mp hread.1.symm, UInt64.toNat_inj.mp hread.2.symm⟩

end Proof

end ConformanceHarness
