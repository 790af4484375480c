import Mathlib.Data.Nat.Bitwise

/-!
# An interval cut at the multiples of a block size

The interval of `size` numbers from `start` on is cut at the multiples of `block`. Its
cells are numbered from the block of the first number on; a cell holds exactly the
numbers of the interval that lie in its block.
-/

set_option autoImplicit false

namespace Runahead.Library.Grid

variable {block start size index other number : Nat}

/-- The multiple of `block` at which a cell's block begins. -/
def boundary (block start index : Nat) : Nat := (start / block + index) * block

def cellStart (block start index : Nat) : Nat := max start (boundary block start index)

def cellEnd (block start size index : Nat) : Nat :=
  min (start + size) (boundary block start (index + 1))

/-- The number of blocks that the interval touches. -/
def cells (block start size : Nat) : Nat := (start + size - 1) / block - start / block + 1

theorem boundary_succ (block start index : Nat) :
    boundary block start (index + 1) = boundary block start index + block := by
  unfold boundary
  rw [← Nat.add_assoc, Nat.succ_mul]

theorem boundary_mono (block start : Nat) (ordered : index ≤ other) :
    boundary block start index ≤ boundary block start other :=
  Nat.mul_le_mul_right block (Nat.add_le_add_left ordered _)

theorem boundary_zero_le (block start : Nat) : boundary block start 0 ≤ start := by
  exact Nat.div_mul_le_self start block

theorem lt_boundary_one (positive : 0 < block) (start : Nat) :
    start < boundary block start 1 := by
  exact Nat.lt_mul_of_div_lt (Nat.lt_succ_self _) positive

/-- A cell holds the numbers of the interval in one block. -/
theorem mem_cell (positive : 0 < block) :
    (cellStart block start index ≤ number ∧ number < cellEnd block start size index) ↔
      (start ≤ number ∧ number < start + size) ∧ number / block = start / block + index := by
  have lower : boundary block start index ≤ number ↔ start / block + index ≤ number / block :=
    (Nat.le_div_iff_mul_le positive).symm
  have upper : number < boundary block start (index + 1) ↔
      number / block < start / block + (index + 1) :=
    (Nat.div_lt_iff_lt_mul positive).symm
  unfold cellStart cellEnd
  omega

theorem exists_cell (positive : 0 < block) (inside : start ≤ number ∧ number < start + size) :
    ∃ index < cells block start size, cellStart block start index ≤ number ∧
      number < cellEnd block start size index := by
  have lower : start / block ≤ number / block := Nat.div_le_div_right inside.1
  have upper : number / block ≤ (start + size - 1) / block := Nat.div_le_div_right (by omega)
  refine ⟨number / block - start / block, ?_, (mem_cell positive).mpr ⟨inside, by omega⟩⟩
  unfold cells
  omega

theorem cellStart_lt_cellEnd (positive : 0 < block) (nonempty : 0 < size)
    (inside : index < cells block start size) :
    cellStart block start index < cellEnd block start size index := by
  have within : start / block + index ≤ (start + size - 1) / block := by
    have ordered : start / block ≤ (start + size - 1) / block := Nat.div_le_div_right (by omega)
    unfold cells at inside
    omega
  have reached : boundary block start index ≤ start + size - 1 :=
    (Nat.le_div_iff_mul_le positive).mp within
  have first := lt_boundary_one positive start
  have ordered : boundary block start 1 ≤ boundary block start (index + 1) :=
    boundary_mono block start (Nat.le_add_left 1 index)
  have wide := boundary_succ block start index
  unfold cellStart cellEnd
  omega

theorem cellEnd_le_cellStart (ordered : index < other) :
    cellEnd block start size index ≤ cellStart block start other := by
  have following : index + 1 ≤ other := ordered
  have apart := boundary_mono block start following
  unfold cellStart cellEnd
  omega

theorem cellEnd_le (block start size index : Nat) :
    cellEnd block start size index ≤ start + size := Nat.min_le_left _ _

theorem start_le_cellStart (block start index : Nat) : start ≤ cellStart block start index :=
  Nat.le_max_left _ _

/-! ## Alignment of machine words -/

/-- Rounding down to a block commutes with reduction by a multiple of the block size. -/
theorem mod_div_mul {modulus count : Nat} (number : Nat) (divides : block * count = modulus) :
    number % modulus / block * block = number / block * block % modulus := by
  rw [← divides, Nat.mod_mul_right_div_self, Nat.mul_comm block count, Nat.mul_mod_mul_right]

variable {width bits : Nat}

theorem toNat_mask (fits : bits < width) :
    (BitVec.ofNat width (2 ^ bits) - 1).toNat = 2 ^ bits - 1 := by
  have positive := Nat.two_pow_pos bits
  have below : 2 ^ bits < 2 ^ width := Nat.pow_lt_pow_right (by decide) fits
  have one : (1 : BitVec width).toNat = 1 := by
    simp only [BitVec.ofNat_eq_ofNat, BitVec.toNat_ofNat]
    exact Nat.mod_eq_of_lt (by omega)
  rw [BitVec.toNat_sub, BitVec.toNat_ofNat, one, Nat.mod_eq_of_lt below]
  have same : 2 ^ width - 1 + 2 ^ bits = 2 ^ bits - 1 + 2 ^ width := by omega
  rw [same, Nat.add_mod_right, Nat.mod_eq_of_lt (by omega)]

theorem getLsbD_mask (fits : bits < width) (position : Nat) :
    (BitVec.ofNat width (2 ^ bits) - 1).getLsbD position = decide (position < bits) := by
  rw [BitVec.getLsbD, toNat_mask fits, Nat.testBit_two_pow_sub_one]

/-- Clearing the low bits of an address gives the block it lies in. -/
theorem toNat_and_not_mask (address : BitVec width) (fits : bits < width) :
    (address &&& ~~~(BitVec.ofNat width (2 ^ bits) - 1)).toNat =
      address.toNat / 2 ^ bits * 2 ^ bits := by
  have shifted : address &&& ~~~(BitVec.ofNat width (2 ^ bits) - 1) =
      address >>> bits <<< bits := by
    apply BitVec.eq_of_getLsbD_eq
    intro position inside
    rw [BitVec.getLsbD_and, BitVec.getLsbD_not, getLsbD_mask fits,
      BitVec.getLsbD_shiftLeft, BitVec.getLsbD_ushiftRight]
    by_cases low : position < bits
    · simp [low]
    · simp [low, inside, Nat.add_sub_cancel' (Nat.le_of_not_lt low)]
  have below : address.toNat / 2 ^ bits * 2 ^ bits ≤ address.toNat := Nat.div_mul_le_self _ _
  rw [shifted, BitVec.toNat_shiftLeft, BitVec.toNat_ushiftRight, Nat.shiftLeft_eq,
    Nat.shiftRight_eq_div_pow, Nat.mod_eq_of_lt (by omega)]

theorem toNat_and_mask (address : BitVec width) (fits : bits < width) :
    (address &&& (BitVec.ofNat width (2 ^ bits) - 1)).toNat = address.toNat % 2 ^ bits := by
  rw [BitVec.toNat_and, toNat_mask fits, Nat.and_two_pow_sub_one_eq_mod]

end Runahead.Library.Grid
