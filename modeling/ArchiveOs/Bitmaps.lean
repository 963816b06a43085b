import ArchiveOs.KernelProcs

-- The bitmap of allocated processes as a set of them.
namespace ArchiveOs

namespace Bitmap
variable {w : Nat}

theorem sub_twoPow {x : BitVec w} {j : Nat} (member : x.getLsbD j = true) :
    x - BitVec.twoPow w j = x &&& ~~~BitVec.twoPow w j := by
  have apart : (x &&& ~~~BitVec.twoPow w j) &&& BitVec.twoPow w j = 0#w := by
    rw [BitVec.and_assoc]
    ext i bound
    simp
  have whole : (x &&& ~~~BitVec.twoPow w j) + BitVec.twoPow w j = x := by
    rw [BitVec.add_eq_or_of_and_eq_zero _ _ apart]
    ext i bound
    simp only [BitVec.getElem_or,BitVec.getElem_and,BitVec.getElem_not,BitVec.getElem_twoPow]
    by_cases here : i = j
    · subst here
      have set : x[i] = true := by rw [← BitVec.getLsbD_eq_getElem]; exact member
      simp [set]
    · simp [here]
  calc x - BitVec.twoPow w j = (x &&& ~~~BitVec.twoPow w j) + BitVec.twoPow w j - BitVec.twoPow w j := by rw [whole]
    _ = x &&& ~~~BitVec.twoPow w j := BitVec.add_sub_cancel ..

end Bitmap

namespace Kernel

theorem alive_testBit (alloc : UInt32) (i : Fin pcbSize) : alive alloc i = alloc.toNat.testBit i.val := by
  have bound : i.val < 32 := i.isLt
  have shift : (UInt32.ofNat i.val).toNat % 32 = i.val := by
    rw [UInt32.toNat_ofNat']
    omega
  have low : ((alloc >>> UInt32.ofNat i.val) &&& 1).toNat = alloc.toNat / 2 ^ i.val % 2 := by
    rw [UInt32.toNat_and,UInt32.toNat_shiftRight,shift,Nat.shiftRight_eq_div_pow]
    exact Nat.and_one_is_mod _
  rw [Nat.testBit_eq_decide_div_mod_eq,← low]
  unfold alive
  rw [Bool.eq_iff_iff,beq_iff_eq,decide_eq_true_iff]
  exact UInt32.toNat_inj.symm

theorem bit_twoPow (i : Fin pcbSize) : (bit i).toBitVec = BitVec.twoPow 32 i.val := by
  revert i
  decide

theorem alive_getLsbD (alloc : UInt32) (i : Fin pcbSize) : alive alloc i = alloc.toBitVec.getLsbD i.val :=
  alive_testBit alloc i

theorem alive_bit (i j : Fin pcbSize) : (bit j).toBitVec.getLsbD i.val = decide (i = j) := by
  rw [bit_twoPow,BitVec.getLsbD_twoPow]
  have bound := j.isLt
  simp only [bound,decide_true,Bool.true_and]
  exact decide_eq_decide.mpr ⟨fun same => Fin.ext same.symm,fun same => congrArg Fin.val same.symm⟩

theorem alive_or (alloc : UInt32) (i j : Fin pcbSize) : alive (alloc ||| bit j) i = (alive alloc i || decide (i = j)) := by
  rw [alive_getLsbD,alive_getLsbD,UInt32.toBitVec_or,BitVec.getLsbD_or,alive_bit]

theorem alive_sub {alloc : UInt32} {j : Fin pcbSize} (member : alive alloc j = true) (i : Fin pcbSize) :
    alive (alloc - bit j) i = (alive alloc i && decide (i ≠ j)) := by
  rw [alive_getLsbD] at member
  rw [alive_getLsbD,alive_getLsbD,UInt32.toBitVec_sub,bit_twoPow,Bitmap.sub_twoPow member,BitVec.getLsbD_and,
    BitVec.getLsbD_not,← bit_twoPow,alive_bit]
  have bound := i.isLt
  simp [bound]

theorem alive_zero (i : Fin pcbSize) : alive 0 i = false := by
  rw [alive_testBit]
  exact Nat.zero_testBit _

theorem alloc_zero_iff (alloc : UInt32) : alloc = 0 ↔ ∀ i : Fin pcbSize,alive alloc i = false := by
  constructor
  · rintro rfl i
    exact alive_zero i
  · intro none
    apply UInt32.toBitVec_inj.mp
    apply BitVec.eq_of_getLsbD_eq
    intro i bound
    have clear := none ⟨i,bound⟩
    rw [alive_getLsbD] at clear
    exact clear.trans (BitVec.getLsbD_zero).symm

end Kernel
end ArchiveOs
