import Mathlib.Data.List.Induction
import Mathlib.Logic.Function.Basic

/-!
# Deferred writes to miscellaneous registers

An instruction records its writes to miscellaneous registers in two parallel
vectors, and commit applies them. A register that is recorded already is left as it
is, so that commit applies the first value written to it and not the last.
-/

set_option autoImplicit false

namespace Runahead.O3.MiscRegs

open List

/-- Register numbers are held in a `short`, values in a `RegVal`. -/
abbrev Write := Int16 × UInt64

structure DestMiscRegs where
  destMiscRegIdx : List Int16 := []
  destMiscRegVal : List UInt64 := []
  sameSize : destMiscRegIdx.length = destMiscRegVal.length := by rfl

namespace DestMiscRegs

def setMiscReg (regs : DestMiscRegs) (miscReg : Int16) (val : UInt64) : DestMiscRegs :=
  if miscReg ∈ regs.destMiscRegIdx then regs
  else
    { destMiscRegIdx := regs.destMiscRegIdx ++ [miscReg]
      destMiscRegVal := regs.destMiscRegVal ++ [val]
      sameSize := by simp [regs.sameSize] }

def updateMiscRegs (regs : DestMiscRegs) : List Write :=
  regs.destMiscRegIdx.zip regs.destMiscRegVal

end DestMiscRegs

def perform (writes : List Write) : DestMiscRegs :=
  writes.foldl (fun regs write => regs.setMiscReg write.1 write.2) {}

def apply (file : Int16 → UInt64) (writes : List Write) : Int16 → UInt64 :=
  writes.foldl (fun file write => Function.update file write.1 write.2) file

def firstWrite (writes : List Write) (miscReg : Int16) : Option UInt64 :=
  (writes.find? (·.1 = miscReg)).map (·.2)

def lastWrite (writes : List Write) (miscReg : Int16) : Option UInt64 :=
  (writes.reverse.find? (·.1 = miscReg)).map (·.2)

section Lookup

variable {writes : List Write} {miscReg : Int16} {val : UInt64}

theorem firstWrite_append (write : Write) :
    firstWrite (writes ++ [write]) miscReg =
      (firstWrite writes miscReg).or (if write.1 = miscReg then some write.2 else none) := by
  unfold firstWrite
  rw [find?_append]
  cases writes.find? (·.1 = miscReg) with
  | some earlier => rfl
  | none =>
    by_cases here : write.1 = miscReg
    · simp [here]
    · simp [here]

theorem lastWrite_append (write : Write) :
    lastWrite (writes ++ [write]) miscReg =
      if write.1 = miscReg then some write.2 else lastWrite writes miscReg := by
  unfold lastWrite
  rw [reverse_append, reverse_singleton, singleton_append]
  by_cases here : write.1 = miscReg
  · simp [here]
  · rw [find?_cons_of_neg (by simpa using here), if_neg here]

theorem apply_eq (file : Int16 → UInt64) (writes : List Write) (miscReg : Int16) :
    apply file writes miscReg = (lastWrite writes miscReg).getD (file miscReg) := by
  induction writes using List.reverseRecOn with
  | nil => rfl
  | append_singleton earlier write ih =>
    rw [lastWrite_append]
    unfold apply at ih ⊢
    rw [foldl_append, foldl_cons, foldl_nil, Function.update_apply]
    by_cases here : miscReg = write.1
    · rw [if_pos here, if_pos here.symm]
      rfl
    · rw [if_neg here, if_neg (Ne.symm here)]
      exact ih

theorem lastWrite_of_filter {last : Option UInt64}
    (only : writes.filter (·.1 = miscReg) = last.toList.map (miscReg, ·)) :
    lastWrite writes miscReg = last := by
  have found : writes.reverse.find? (·.1 = miscReg) =
      (writes.filter (·.1 = miscReg)).reverse.head? := by
    rw [← filter_reverse, head?_filter]
  unfold lastWrite
  rw [found, only]
  cases last with
  | none => rfl
  | some val => rfl

end Lookup

/-! ## What commit applies -/

theorem perform_append (writes : List Write) (write : Write) :
    perform (writes ++ [write]) = (perform writes).setMiscReg write.1 write.2 := by
  unfold perform
  rw [foldl_append, foldl_cons, foldl_nil]

theorem mem_destMiscRegIdx (writes : List Write) (miscReg : Int16) :
    miscReg ∈ (perform writes).destMiscRegIdx ↔ (firstWrite writes miscReg).isSome := by
  induction writes using List.reverseRecOn with
  | nil => exact iff_of_false not_mem_nil Bool.false_ne_true
  | append_singleton earlier write ih =>
    rw [perform_append, firstWrite_append, Option.isSome_or, Bool.or_eq_true, ← ih]
    unfold DestMiscRegs.setMiscReg
    by_cases here : write.1 = miscReg
    · subst here
      split
      case isTrue recorded => simp [recorded]
      case isFalse => simp
    · split
      case isTrue => simp
      case isFalse => simp [Ne.symm here]

/-- Commit updates each register at most once, with the first value written to it. -/
theorem updateMiscRegs_filter (writes : List Write) (miscReg : Int16) :
    (perform writes).updateMiscRegs.filter (·.1 = miscReg) =
      (firstWrite writes miscReg).toList.map (miscReg, ·) := by
  induction writes using List.reverseRecOn with
  | nil => rfl
  | append_singleton earlier write ih =>
    have recorded := mem_destMiscRegIdx earlier write.1
    rw [perform_append, firstWrite_append]
    unfold DestMiscRegs.setMiscReg
    split
    case isTrue known =>
      rw [ih]
      by_cases here : write.1 = miscReg
      · subst here
        obtain ⟨val, found⟩ := Option.isSome_iff_exists.mp (recorded.mp known)
        rw [found]
        rfl
      · rw [if_neg here, Option.or_none]
    case isFalse new =>
      have pushed : ((perform earlier).destMiscRegIdx ++ [write.1]).zip
          ((perform earlier).destMiscRegVal ++ [write.2]) =
          (perform earlier).updateMiscRegs ++ [write] :=
        zip_append (perform earlier).sameSize
      unfold DestMiscRegs.updateMiscRegs at ih ⊢
      rw [pushed, filter_append]
      unfold DestMiscRegs.updateMiscRegs
      rw [ih]
      by_cases here : write.1 = miscReg
      · subst here
        have missing : firstWrite earlier write.1 = none := by
          simpa using mt recorded.mpr new
        simp [missing]
      · simp [here]

/-- Exactly if the first and the last value written to each register agree, commit updates
every written register once with its last value and no other register, which is what the
writes themselves would do. -/
theorem deferred_writes (writes : List Write) :
    ((∀ miscReg, (perform writes).updateMiscRegs.filter (·.1 = miscReg) =
        (lastWrite writes miscReg).toList.map (miscReg, ·)) ∧
      ∀ file, apply file (perform writes).updateMiscRegs = apply file writes) ↔
    ∀ miscReg, firstWrite writes miscReg = lastWrite writes miscReg := by
  constructor
  · rintro ⟨updates, _⟩ miscReg
    have both := (updateMiscRegs_filter writes miscReg).symm.trans (updates miscReg)
    revert both
    cases firstWrite writes miscReg <;> cases lastWrite writes miscReg <;> simp
  · intro agree
    have updates : ∀ miscReg, (perform writes).updateMiscRegs.filter (·.1 = miscReg) =
        (lastWrite writes miscReg).toList.map (miscReg, ·) := by
      intro miscReg
      rw [updateMiscRegs_filter, agree]
    refine ⟨updates, fun file => funext fun miscReg => ?_⟩
    rw [apply_eq, apply_eq, lastWrite_of_filter (updates miscReg)]

example : (perform [(1, 5), (2, 7), (1, 5)]).updateMiscRegs = [(1, 5), (2, 7)] := by decide

/-- The second write is lost. -/
theorem deferred_writes_lost :
    (perform [(3, 1), (3, 2)]).updateMiscRegs = [(3, 1)] ∧ lastWrite [(3, 1), (3, 2)] 3 = some 2 ∧
      apply (fun _ => 0) (perform [(3, 1), (3, 2)]).updateMiscRegs 3 ≠
        apply (fun _ => 0) [(3, 1), (3, 2)] 3 := by
  decide

end Runahead.O3.MiscRegs
