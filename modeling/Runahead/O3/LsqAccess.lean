import Mathlib.Data.Nat.Bitwise

/-!
# Memory accesses in the load/store queue

An access is the effective address of an instruction with the number of its bytes.
Addresses are machine words, so the code's bounds are computed modulo the size of the
address space.
-/

set_option autoImplicit false

namespace Runahead.O3.Lsq

abbrev Addr := BitVec 64

structure Access where
  effAddr : Addr
  effSize : Nat
  deriving DecidableEq, Repr

namespace Access

/-- The access has a byte, and none behind the end of the address space. -/
structure Fits (access : Access) : Prop where
  nonempty : 0 < access.effSize
  inside : access.effAddr.toNat + access.effSize ≤ 2 ^ 64

def Covers (access : Access) (address : Nat) : Prop :=
  access.effAddr.toNat ≤ address ∧ address < access.effAddr.toNat + access.effSize

instance (access : Access) (address : Nat) : Decidable (access.Covers address) :=
  inferInstanceAs (Decidable (_ ∧ _))

/-- The bytes of an access that the dependence check does not tell apart. -/
def firstBlock (access : Access) (depCheckShift : Nat) : Addr := access.effAddr >>> depCheckShift

def lastBlock (access : Access) (depCheckShift : Nat) : Addr :=
  (access.effAddr + BitVec.ofNat 64 access.effSize - 1) >>> depCheckShift

def overlaps (depCheckShift : Nat) (inst load : Access) : Bool :=
  decide (load.firstBlock depCheckShift ≤ inst.lastBlock depCheckShift) &&
    decide (inst.firstBlock depCheckShift ≤ load.lastBlock depCheckShift)

theorem firstBlock_toNat {access : Access} (depCheckShift : Nat) :
    (access.firstBlock depCheckShift).toNat = access.effAddr.toNat / 2 ^ depCheckShift := by
  rw [firstBlock, BitVec.toNat_ushiftRight, Nat.shiftRight_eq_div_pow]

theorem Fits.lastBlock_toNat {access : Access} (fits : access.Fits) (depCheckShift : Nat) :
    (access.lastBlock depCheckShift).toNat =
      (access.effAddr.toNat + access.effSize - 1) / 2 ^ depCheckShift := by
  obtain ⟨nonempty, inside⟩ := fits
  have last : (access.effAddr + BitVec.ofNat 64 access.effSize - 1).toNat =
      access.effAddr.toNat + access.effSize - 1 := by
    have one : (1 : Addr).toNat = 1 := rfl
    rw [BitVec.toNat_sub, BitVec.toNat_add, BitVec.toNat_ofNat, one]
    omega
  rw [lastBlock, BitVec.toNat_ushiftRight, Nat.shiftRight_eq_div_pow, last]

private theorem byte_in_block {start size block index : Nat} (nonempty : 0 < size)
    (notBelow : start / block ≤ index) (notAbove : index ≤ (start + size - 1) / block)
    (positive : 0 < block) :
    ∃ address, (start ≤ address ∧ address < start + size) ∧ address / block = index := by
  have reached : index * block ≤ start + size - 1 := (Nat.le_div_iff_mul_le positive).mp notAbove
  by_cases aligned : start ≤ index * block
  · exact ⟨index * block, ⟨aligned, by omega⟩, Nat.mul_div_cancel index positive⟩
  · have inside : index ≤ start / block :=
      (Nat.le_div_iff_mul_le positive).mpr (Nat.le_of_not_le aligned)
    exact ⟨start, ⟨Nat.le_refl _, by omega⟩, Nat.le_antisymm notBelow inside⟩

/-- Inside the address space the test finds exactly the accesses with bytes in one
aligned block of `2 ^ depCheckShift` bytes. -/
theorem overlaps_iff {depCheckShift : Nat} {inst load : Access} (instFits : inst.Fits)
    (loadFits : load.Fits) : overlaps depCheckShift inst load = true ↔
      ∃ first second, inst.Covers first ∧ load.Covers second ∧
        first / 2 ^ depCheckShift = second / 2 ^ depCheckShift := by
  have positive : 0 < 2 ^ depCheckShift := Nat.two_pow_pos depCheckShift
  unfold overlaps
  rw [Bool.and_eq_true, decide_eq_true_iff, decide_eq_true_iff, BitVec.le_def, BitVec.le_def,
    firstBlock_toNat, firstBlock_toNat, instFits.lastBlock_toNat,
    loadFits.lastBlock_toNat]
  obtain ⟨instSome, -⟩ := instFits
  obtain ⟨loadSome, -⟩ := loadFits
  generalize 2 ^ depCheckShift = block at positive
  unfold Covers
  generalize inst.effAddr.toNat = instStart
  generalize load.effAddr.toNat = loadStart
  constructor
  · rintro ⟨notAbove, notBelow⟩
    -- The later of the two first blocks belongs to both accesses.
    have instRange : max (instStart / block) (loadStart / block) ≤
        (instStart + inst.effSize - 1) / block :=
      Nat.max_le.mpr ⟨Nat.div_le_div_right (by omega), notAbove⟩
    have loadRange : max (instStart / block) (loadStart / block) ≤
        (loadStart + load.effSize - 1) / block :=
      Nat.max_le.mpr ⟨notBelow, Nat.div_le_div_right (by omega)⟩
    obtain ⟨first, instByte, firstBlock⟩ :=
      byte_in_block instSome (Nat.le_max_left _ _) instRange positive
    obtain ⟨second, loadByte, secondBlock⟩ :=
      byte_in_block loadSome (Nat.le_max_right _ _) loadRange positive
    exact ⟨first, second, instByte, loadByte, firstBlock.trans secondBlock.symm⟩
  · rintro ⟨first, second, ⟨instLow, instHigh⟩, ⟨loadLow, loadHigh⟩, same⟩
    constructor
    · calc loadStart / block ≤ second / block := Nat.div_le_div_right loadLow
        _ = first / block := same.symm
        _ ≤ (instStart + inst.effSize - 1) / block := Nat.div_le_div_right (by omega)
    · calc instStart / block ≤ first / block := Nat.div_le_div_right instLow
        _ = second / block := same
        _ ≤ (loadStart + load.effSize - 1) / block := Nat.div_le_div_right (by omega)

end Access

end Runahead.O3.Lsq
