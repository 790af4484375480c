import Runahead.O3.RenameUnit

/-!
# Registers that belong to one history entry

While no destination keeps its mapping, every entry of the rename history holds
a physical register of its own: the register was free when the entry was made,
is not free as long as the entry stays, and no other entry has it.
-/

set_option autoImplicit false

namespace Runahead

open List

/-- Every destination gets a register from the free list. -/
def StaticInst.renamesAll (staticInst : StaticInst) : Bool :=
  staticInst.destRegs.all fun dest => !dest.reg.isFixedMapping && !dest.keepsMapping

namespace O3.RenameState

open Library

variable {archRegs : List RegId} {pool : List PhysRegId} {state next : RenameState}

theorem Valid.entry_held (valid : state.Valid archRegs pool) {entry : RenameHistory}
    (member : entry ∈ state.historyBuffer) (known : entry.archReg ∈ archRegs) :
    entry.newPhysReg ∈ state.registers archRegs := by
  obtain ⟨base, tracked⟩ := valid.tracked
  obtain ⟨newer, older, history⟩ := append_of_mem member
  rw [history] at tracked
  obtain ⟨middle, below, above⟩ := tracked.split
  have current : middle entry.archReg = entry.newPhysReg := below.current
  unfold registers
  rcases above.kept entry.archReg with same | given
  · exact mem_append_right _ (mem_map.mpr ⟨_, known, same.trans current⟩)
  · rw [current] at given
    rw [history, filterMap_append]
    exact mem_append_left _ (mem_append_left _ given)

theorem Valid.not_free (valid : state.Valid archRegs pool) (poolUnique : pool.Nodup)
    {reg : PhysRegId} (held : reg ∈ state.registers archRegs) : reg ∉ state.freeList := by
  intro free
  exact (nodup_append.mp (valid.conserved.nodup_iff.mpr poolUnique)).2.2 reg free reg held rfl

/-- Each entry of the history has a register of its own. -/
structure OwnRegs (state : RenameState) : Prop where
  renamed : ∀ entry ∈ state.historyBuffer, entry.newPhysReg ≠ entry.prevPhysReg
  distinct : (state.historyBuffer.map RenameHistory.newPhysReg).Nodup

theorem OwnRegs.sublist {history : List RenameHistory} (own : state.OwnRegs)
    (fewer : next.historyBuffer = history) (sub : history.Sublist state.historyBuffer) :
    next.OwnRegs := by
  refine ⟨fun entry member => own.renamed entry (sub.subset (fewer ▸ member)), ?_⟩
  rw [fewer]
  exact own.distinct.sublist (sub.map _)

theorem OwnRegs.doSquash (own : state.OwnRegs) (squashedSeqNum : Nat) :
    (state.doSquash squashedSeqNum).OwnRegs :=
  own.sublist (doSquash_historyBuffer state squashedSeqNum) (dropWhile_sublist _)

theorem OwnRegs.removeFromHistory (own : state.OwnRegs) (instSeqNum : Nat) :
    (state.removeFromHistory instSeqNum).OwnRegs :=
  own.sublist rfl (removeFromHistory_sublist state instSeqNum)

theorem Valid.entry_not_free (valid : state.Valid archRegs pool) (own : state.OwnRegs)
    (poolUnique : pool.Nodup) {entry : RenameHistory} (member : entry ∈ state.historyBuffer) :
    entry.newPhysReg ∉ state.freeList :=
  valid.not_free poolUnique
    (valid.entry_held member ((valid.known entry member).resolve_left (own.renamed entry member)))

theorem OwnRegs.unique (own : state.OwnRegs) {left right : RenameHistory}
    (inLeft : left ∈ state.historyBuffer) (inRight : right ∈ state.historyBuffer)
    (same : left.newPhysReg = right.newPhysReg) : left = right :=
  inj_on_of_nodup_map own.distinct inLeft inRight same

structure Allocates (archRegs : List RegId) (pool : List PhysRegId) (before state : RenameState) :
    Prop where
  valid : state.Valid archRegs pool
  own : state.OwnRegs
  free : state.freeList ⊆ before.freeList
  added : ∀ entry ∈ state.historyBuffer,
    entry ∈ before.historyBuffer ∨ entry.newPhysReg ∈ before.freeList
  taken : ∀ reg ∈ before.freeList, reg ∈ state.freeList ∨
    reg ∈ state.historyBuffer.map RenameHistory.newPhysReg

theorem Allocates.renameDestReg {before : RenameState} {inst : Nat} {dest : DestOperand}
    {phys : PhysRegId} (poolUnique : pool.Nodup) (keysUnique : archRegs.Nodup)
    (plain : dest.reg.isFixedMapping = false ∧ dest.keepsMapping = false)
    (known : dest.reg ∈ archRegs) (allocates : Allocates archRegs pool before state)
    (renamed : state.renameDestReg inst dest = some (phys, next)) :
    Allocates archRegs pool before next := by
  have valid := allocates.valid.renameDestReg poolUnique keysUnique (.inr known) renamed
  have unfree : ∀ entry ∈ state.historyBuffer, entry.newPhysReg ∉ state.freeList :=
    fun _ => allocates.valid.entry_not_free allocates.own poolUnique
  unfold RenameState.renameDestReg renameReg at renamed
  simp only [plain.1, plain.2, Bool.or_self, Bool.false_eq_true, ↓reduceIte] at renamed
  cases found : getReg state.freeList dest.reg.regClass with
  | none => simp [found] at renamed
  | some reg =>
    simp only [found, Option.some.injEq, Prod.mk.injEq] at renamed
    obtain ⟨rfl, rfl⟩ := renamed
    have free : reg ∈ state.freeList := mem_of_find?_eq_some found
    have changes : reg ≠ state.renameMap dest.reg := by
      intro same
      refine allocates.valid.not_free poolUnique ?_ free
      exact mem_append_right _ (mem_map.mpr ⟨_, known, same.symm⟩)
    refine ⟨valid, ⟨?_, ?_⟩, ?_, ?_, ?_⟩
    · intro entry member
      rcases mem_cons.mp member with rfl | older
      · exact changes
      · exact allocates.own.renamed entry older
    · refine nodup_cons.mpr ⟨fun member => ?_, allocates.own.distinct⟩
      obtain ⟨entry, older, same⟩ := mem_map.mp member
      exact unfree entry older (same ▸ free)
    · exact fun other member => allocates.free (mem_of_mem_erase member)
    · intro entry member
      rcases mem_cons.mp member with rfl | older
      · exact .inr (allocates.free free)
      · exact allocates.added entry older
    · intro other member
      rcases allocates.taken other member with left | gone
      · by_cases same : other = reg
        · exact .inr (by simp [same])
        · exact .inl ((mem_erase_of_ne same).mpr left)
      · exact .inr (mem_cons_of_mem _ gone)

theorem Allocates.renameDestRegs {inst : Nat} {staticInst : StaticInst}
    {mappings : List (RegId × PhysRegId)} (poolUnique : pool.Nodup) (keysUnique : archRegs.Nodup)
    (plain : staticInst.renamesAll = true)
    (known : ∀ dest ∈ staticInst.destRegs, dest.reg.isFixedMapping = true ∨ dest.reg ∈ archRegs)
    (valid : state.Valid archRegs pool) (own : state.OwnRegs)
    (renamed : state.renameDestRegs inst staticInst.destRegs = some (next, mappings)) :
    Allocates archRegs pool state next := by
  simp only [StaticInst.renamesAll, all_eq_true, Bool.and_eq_true, Bool.not_eq_true'] at plain
  refine renameDestRegs_invariant (Allocates archRegs pool state) ?_
    ⟨valid, own, fun _ => id, fun _ => .inl, fun _ => .inl⟩ renamed
  intro middle after dest phys member allocates step
  refine allocates.renameDestReg poolUnique keysUnique (plain dest member) ?_ step
  exact (known dest member).resolve_left (by simp [(plain dest member).1])

end O3.RenameState

end Runahead
