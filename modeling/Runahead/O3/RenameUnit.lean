import Runahead.O3.Cpu
import Runahead.Library.Transition
import Mathlib.Data.List.FinRange

/-!
# The rename units of all threads

The threads share one free list. Renaming, squashing and the removal of
committed entries from the history move physical registers between the free
list, the rename maps and the history buffers, and every register stays in
exactly one of these places.
-/

set_option autoImplicit false

namespace Runahead.O3

open Library Function List

namespace RenameState

variable {archRegs : List RegId} {pool : List PhysRegId} {state next : RenameState}

/-! ## The loops -/

variable (Holds : RenameState → Prop)

theorem doSquash_invariant (squashedSeqNum : Nat)
    (undone : ∀ (state : RenameState) (entry : RenameHistory) (older : List RenameHistory),
      squashedSeqNum < entry.instSeqNum → Holds { state with historyBuffer := entry :: older } →
      Holds { state.undoEntry entry with historyBuffer := older })
    (holds : Holds state) : Holds (state.doSquash squashedSeqNum) := by
  have loop : ∀ (entries : List RenameHistory) (state : RenameState),
      Holds { state with historyBuffer := entries } →
      Holds (doSquashLoop squashedSeqNum entries state) := by
    intro entries
    induction entries with
    | nil => exact fun state holds => holds
    | cons entry older ih =>
      intro state holds
      simp only [doSquashLoop]
      split
      · next younger => exact ih _ (undone state entry older younger holds)
      · exact holds
  exact loop _ _ holds

theorem freed_eq (freeList : List PhysRegId) (entry : RenameHistory) :
    (if entry.newPhysReg ≠ entry.prevPhysReg then freeList ++ [entry.prevPhysReg] else freeList) =
      freeList ++ (given historyView entry).toList := by
  by_cases same : entry.newPhysReg = entry.prevPhysReg
  · simp [given, historyView, same]
  · simp [given, historyView, same]

theorem removeFromHistory_invariant (instSeqNum : Nat)
    (removed : ∀ (newer : List RenameHistory) (entry : RenameHistory) (freeList : List PhysRegId),
      entry.instSeqNum ≤ instSeqNum →
      Holds { state with historyBuffer := newer ++ [entry], freeList := freeList } →
      Holds { state with
        historyBuffer := newer
        freeList := freeList ++ (given historyView entry).toList })
    (holds : Holds state) : Holds (state.removeFromHistory instSeqNum) := by
  have loop : ∀ (entries : List RenameHistory) (freeList : List PhysRegId),
      Holds { state with historyBuffer := entries.reverse, freeList := freeList } →
      Holds { state with
        historyBuffer := (removeFromHistoryLoop instSeqNum entries freeList).1.reverse
        freeList := (removeFromHistoryLoop instSeqNum entries freeList).2 } := by
    intro entries
    induction entries with
    | nil => exact fun freeList holds => holds
    | cons entry newer ih =>
      intro freeList holds
      simp only [removeFromHistoryLoop]
      split
      · next older =>
        rw [freed_eq]
        rw [reverse_cons] at holds
        exact ih _ (removed newer.reverse entry freeList older holds)
      · exact holds
  exact loop _ _ (by simpa using holds)

theorem removeFromHistory_historyBuffer (state : RenameState) (instSeqNum : Nat) :
    (state.removeFromHistory instSeqNum).historyBuffer =
      (state.historyBuffer.reverse.dropWhile fun entry =>
        decide (entry.instSeqNum ≤ instSeqNum)).reverse := by
  have loop : ∀ (entries : List RenameHistory) (freeList : List PhysRegId),
      (removeFromHistoryLoop instSeqNum entries freeList).1 =
        entries.dropWhile fun entry => decide (entry.instSeqNum ≤ instSeqNum) := by
    intro entries
    induction entries with
    | nil => intro freeList; rfl
    | cons entry newer ih =>
      intro freeList
      by_cases old : entry.instSeqNum ≤ instSeqNum
      · simp [removeFromHistoryLoop, old, ih]
      · simp [removeFromHistoryLoop, old]
  exact congrArg List.reverse (loop _ _)

theorem removeFromHistory_sublist (state : RenameState) (instSeqNum : Nat) :
    (state.removeFromHistory instSeqNum).historyBuffer.Sublist state.historyBuffer := by
  rw [removeFromHistory_historyBuffer]
  exact (dropWhile_sublist _).reverse.trans (by rw [reverse_reverse])

variable {inst : Nat}

theorem renameDestReg_cases {dest : DestOperand} {phys : PhysRegId}
    (renamed : state.renameDestReg inst dest = some (phys, next)) :
    ∃ freeList, next = {
        renameMap := update state.renameMap dest.reg phys
        freeList := freeList
        historyBuffer :=
          { instSeqNum := inst, archReg := dest.reg, newPhysReg := phys,
            prevPhysReg := state.renameMap dest.reg } :: state.historyBuffer } ∧
      (phys = state.renameMap dest.reg ∧ freeList = state.freeList ∨
        dest.reg.isFixedMapping = false ∧ phys ∈ state.freeList ∧
          freeList = state.freeList.erase phys) := by
  unfold renameDestReg renameReg at renamed
  split at renamed
  · cases renamed
  · next chosen =>
    cases renamed
    refine ⟨_, rfl, ?_⟩
    split at chosen
    · cases chosen
      exact .inl ⟨rfl, rfl⟩
    · next movable =>
      simp only [Bool.or_eq_true, not_or, Bool.not_eq_true] at movable
      split at chosen
      · cases chosen
      · next found =>
        cases chosen
        exact .inr ⟨movable.1, mem_of_find?_eq_some found, rfl⟩

variable {dests : List DestOperand} {mappings : List (RegId × PhysRegId)}

theorem renameDestRegs_invariant
    (renames : ∀ (state next : RenameState) (dest : DestOperand) (phys : PhysRegId),
      dest ∈ dests → Holds state → state.renameDestReg inst dest = some (phys, next) → Holds next)
    (holds : Holds state) (renamed : state.renameDestRegs inst dests = some (next, mappings)) :
    Holds next := by
  induction dests generalizing state mappings with
  | nil =>
    cases renamed
    exact holds
  | cons dest rest ih =>
    simp only [renameDestRegs] at renamed
    split at renamed
    · cases renamed
    · next phys middle first =>
      split at renamed
      · cases renamed
      · next others =>
        cases renamed
        exact ih (fun state next dest phys member =>
            renames state next dest phys (mem_cons_of_mem _ member))
          (renames _ _ dest phys mem_cons_self holds first) others

theorem renameDestRegs_history (renamed : state.renameDestRegs inst dests = some (next, mappings)) :
    ∃ added, next.historyBuffer = added ++ state.historyBuffer ∧
      (∀ entry ∈ added, entry.instSeqNum = inst) ∧
      added.reverse.map (fun entry => (entry.archReg, entry.newPhysReg)) = mappings ∧
      Tracks historyView state.renameMap added next.renameMap := by
  induction dests generalizing state mappings with
  | nil =>
    cases renamed
    exact ⟨[], rfl, (by simp), rfl, .nil⟩
  | cons dest rest ih =>
    simp only [renameDestRegs] at renamed
    split at renamed
    · cases renamed
    · next phys middle first =>
      split at renamed
      · cases renamed
      · next others =>
        cases renamed
        obtain ⟨freeList, rfl, _⟩ := renameDestReg_cases first
        obtain ⟨added, history, same, mapped, tracked⟩ := ih others
        let entry : RenameHistory := ⟨inst, dest.reg, phys, state.renameMap dest.reg⟩
        have first : Tracks historyView state.renameMap [entry]
            (update state.renameMap dest.reg phys) := .cons entry .nil rfl
        refine ⟨added ++ [entry], by rw [history, append_assoc]; rfl, ?_, ?_, first.append tracked⟩
        · intro entry member
          rcases mem_append.mp member with newer | last
          · exact same entry newer
          · rw [mem_singleton.mp last]
        · rw [reverse_append, map_append, mapped]
          rfl

/-! ## Conservation in one thread -/

def registers (archRegs : List RegId) (state : RenameState) : List PhysRegId :=
  state.historyBuffer.filterMap (given historyView) ++ archRegs.map state.renameMap

/-- The history leads from some map to the current one, and only architectural
registers get new mappings. -/
structure Consistent (archRegs : List RegId) (state : RenameState) : Prop where
  tracked : ∃ base, Tracks historyView base state.historyBuffer state.renameMap
  known : ∀ entry ∈ state.historyBuffer,
    entry.newPhysReg = entry.prevPhysReg ∨ entry.archReg ∈ archRegs

/-- The registers of a thread and of the free list are the ones in the pool. -/
structure Valid (archRegs : List RegId) (pool : List PhysRegId) (state : RenameState) :
    Prop extends Consistent archRegs state where
  conserved : (state.freeList ++ state.registers archRegs).Perm pool

theorem Valid.renameDestReg {dest : DestOperand} {phys : PhysRegId}
    (valid : state.Valid archRegs pool) (poolUnique : pool.Nodup) (keysUnique : archRegs.Nodup)
    (knows : dest.reg.isFixedMapping = true ∨ dest.reg ∈ archRegs)
    (renamed : state.renameDestReg inst dest = some (phys, next)) : next.Valid archRegs pool := by
  obtain ⟨base, tracked⟩ := valid.tracked
  have conserved : Conserved historyView archRegs pool state.freeList state.historyBuffer
    state.renameMap := valid.conserved
  obtain ⟨freeList, rfl, ⟨kept, rfl⟩ | ⟨renameable, available, rfl⟩⟩ := renameDestReg_cases renamed
  · refine ⟨⟨⟨base, .cons _ tracked rfl⟩, ?_⟩,
      conserved.keep ⟨inst, dest.reg, phys, state.renameMap dest.reg⟩ kept rfl⟩
    intro entry member
    rcases mem_cons.mp member with rfl | older
    · exact .inl kept
    · exact valid.known entry older
  · have key : dest.reg ∈ archRegs :=
      knows.resolve_left fun fixed => clash renameable fixed
    refine ⟨⟨⟨base, .cons _ tracked rfl⟩, ?_⟩,
      conserved.allocate poolUnique keysUnique ⟨inst, dest.reg, phys, state.renameMap dest.reg⟩ key
        available rfl⟩
    intro entry member
    rcases mem_cons.mp member with rfl | older
    · exact .inr key
    · exact valid.known entry older

theorem Valid.renameDestRegs (valid : state.Valid archRegs pool)
    (poolUnique : pool.Nodup) (keysUnique : archRegs.Nodup)
    (knows : ∀ dest ∈ dests, dest.reg.isFixedMapping = true ∨ dest.reg ∈ archRegs)
    (renamed : state.renameDestRegs inst dests = some (next, mappings)) :
    next.Valid archRegs pool :=
  renameDestRegs_invariant (Valid archRegs pool)
    (fun _ _ dest _ member valid => valid.renameDestReg poolUnique keysUnique (knows dest member))
    valid renamed

theorem Valid.undoEntry {entry : RenameHistory} {older : List RenameHistory}
    (keysUnique : archRegs.Nodup)
    (valid : Valid archRegs pool { state with historyBuffer := entry :: older }) :
    Valid archRegs pool { state.undoEntry entry with historyBuffer := older } := by
  obtain ⟨base, tracked⟩ := valid.tracked
  have conserved : Conserved historyView archRegs pool state.freeList (entry :: older)
    state.renameMap := valid.conserved
  have known : ∀ other ∈ older, other.newPhysReg = other.prevPhysReg ∨ other.archReg ∈ archRegs :=
    fun other member => valid.known other (mem_cons_of_mem _ member)
  unfold RenameState.undoEntry
  split
  · next different =>
    have key := (valid.known entry mem_cons_self).resolve_left different
    exact ⟨⟨⟨base, tracked.undo⟩, known⟩, conserved.undo keysUnique key tracked.current different⟩
  · next same =>
    have kept : entry.newPhysReg = entry.prevPhysReg := not_not.mp same
    exact ⟨⟨⟨base, tracked.undo_kept kept⟩, known⟩, conserved.undo_kept kept⟩

theorem Valid.doSquash (valid : state.Valid archRegs pool) (keysUnique : archRegs.Nodup)
    (squashedSeqNum : Nat) : (state.doSquash squashedSeqNum).Valid archRegs pool :=
  doSquash_invariant (Valid archRegs pool) squashedSeqNum
    (fun _ _ _ _ valid => valid.undoEntry keysUnique) valid

theorem Valid.removeFromHistory (valid : state.Valid archRegs pool) (instSeqNum : Nat) :
    (state.removeFromHistory instSeqNum).Valid archRegs pool := by
  refine removeFromHistory_invariant (Valid archRegs pool) instSeqNum ?_ valid
  intro newer entry freeList _ valid
  obtain ⟨base, tracked⟩ := valid.tracked
  obtain ⟨middle, _, above⟩ := tracked.split
  have conserved : Conserved historyView archRegs pool freeList (newer ++ [entry])
    state.renameMap := valid.conserved
  exact ⟨⟨⟨middle, above⟩, fun other member =>
    valid.known other (mem_append_left _ member)⟩, conserved.release⟩

end RenameState

/-! ## Sources of instructions in flight -/

/-- The history remembers the map that an instruction has read its sources from:
the entries of the instruction and of younger ones are on top. -/
def RenameState.Protects (archRegs : List RegId) (state : RenameState) (seqNum : Nat)
    (srcs : List PhysRegId) : Prop :=
  ∃ newer older source, state.historyBuffer = newer ++ older ∧
    (∀ entry ∈ newer, seqNum ≤ entry.instSeqNum) ∧ (∀ entry ∈ older, entry.instSeqNum < seqNum) ∧
    Tracks historyView source newer state.renameMap ∧
      ∀ src ∈ srcs, ∃ reg ∈ archRegs, source reg = src

namespace RenameState.Protects

variable {archRegs : List RegId} {state next : RenameState} {seqNum : Nat} {srcs : List PhysRegId}

/-- A protected register is mapped or given up by an entry of the history. -/
theorem registers (protects : state.Protects archRegs seqNum srcs) {src : PhysRegId}
    (member : src ∈ srcs) : src ∈ state.registers archRegs := by
  obtain ⟨newer, older, source, history, _, _, tracked, reads⟩ := protects
  obtain ⟨reg, known, rfl⟩ := reads src member
  unfold RenameState.registers
  rcases tracked.kept reg with current | given
  · exact mem_append_right _ (mem_map.mpr ⟨reg, known, current⟩)
  · rw [history, filterMap_append]
    exact mem_append_left _ (mem_append_left _ given)

theorem undoEntry {entry : RenameHistory} {older : List RenameHistory}
    (younger : seqNum < entry.instSeqNum)
    (protects : Protects archRegs { state with historyBuffer := entry :: older } seqNum srcs) :
    Protects archRegs { state.undoEntry entry with historyBuffer := older } seqNum srcs := by
  obtain ⟨newer, rest, source, history, above, below, tracked, reads⟩ := protects
  cases newer with
  | nil =>
    have member : entry ∈ rest := by
      rw [← nil_append rest, ← history]
      exact mem_cons_self
    exact absurd (below entry member) (Nat.lt_asymm younger)
  | cons first newer =>
    obtain ⟨rfl, rfl⟩ := cons_eq_cons.mp history
    refine ⟨newer, rest, source, rfl,
      fun other member => above other (mem_cons_of_mem _ member), below, ?_, reads⟩
    unfold RenameState.undoEntry
    split
    · exact tracked.undo
    · next same => exact tracked.undo_kept (not_not.mp same)

section

variable (protects : state.Protects archRegs seqNum srcs)
include protects

theorem doSquash {squashedSeqNum : Nat} (kept : seqNum ≤ squashedSeqNum) :
    (state.doSquash squashedSeqNum).Protects archRegs seqNum srcs :=
  doSquash_invariant (Protects archRegs · seqNum srcs) squashedSeqNum
    (fun _ _ _ younger protects => protects.undoEntry (Nat.lt_of_le_of_lt kept younger)) protects

theorem removeFromHistory {instSeqNum : Nat} (uncommitted : instSeqNum < seqNum) :
    (state.removeFromHistory instSeqNum).Protects archRegs seqNum srcs := by
  refine removeFromHistory_invariant (Protects archRegs · seqNum srcs) instSeqNum ?_ protects
  rintro history entry freeList removed ⟨newer, older, source, split, above, below, tracked, reads⟩
  rcases eq_nil_or_concat older with rfl | ⟨rest, last, rfl⟩
  · have member : entry ∈ newer := by
      have split : history ++ [entry] = newer := by simpa using split
      exact split ▸ mem_append_right _ mem_cons_self
    have := above entry member
    omega
  · have split : history ++ [entry] = (newer ++ rest) ++ [last] := by simpa using split
    obtain ⟨rfl, _⟩ := append_inj' split rfl
    exact ⟨newer, rest, source, rfl, above,
      fun other member => below other (by simp [member]), tracked, reads⟩

theorem renameDestRegs {inst : Nat} {dests : List DestOperand} {mappings : List (RegId × PhysRegId)}
    (follows : seqNum ≤ inst)
    (renamed : state.renameDestRegs inst dests = some (next, mappings)) :
    next.Protects archRegs seqNum srcs := by
  obtain ⟨newer, older, source, split, above, below, tracked, reads⟩ := protects
  obtain ⟨added, history, same, _, grown⟩ := renameDestRegs_history renamed
  refine ⟨added ++ newer, older, source, by rw [history, split, append_assoc], ?_, below,
    tracked.append grown, reads⟩
  intro entry member
  rcases mem_append.mp member with new | old
  · exact (same entry new).symm ▸ follows
  · exact above entry old

end

end RenameState.Protects

/-! ## All threads -/

structure RenamedInst where
  seqNum : Nat
  srcs : List PhysRegId
  deriving DecidableEq, Repr

structure RenameUnit (threads : Nat) where
  freeList : List PhysRegId
  renameMap : Fin threads → RegId → PhysRegId
  historyBuffer : Fin threads → List RenameHistory
  /-- Renamed instructions that no squash has discarded and that have not been
  removed from the history as committed. -/
  inFlight : Fin threads → List RenamedInst

inductive RenameOp (threads : Nat) where
  | renameInst (tid : Fin threads) (inst : Nat) (srcRegs : List RegId) (dests : List DestOperand)
  | doSquash (tid : Fin threads) (squashedSeqNum : Nat)
  | removeFromHistory (tid : Fin threads) (instSeqNum : Nat)

namespace RenameUnit

variable {threads : Nat} {config : Config} (unit : RenameUnit threads) {next : RenameUnit threads}
  {tid : Fin threads}

def thread (tid : Fin threads) : RenameState where
  renameMap := unit.renameMap tid
  freeList := unit.freeList
  historyBuffer := unit.historyBuffer tid

def setThread (tid : Fin threads) (state : RenameState)
    (inFlight : List RenamedInst) : RenameUnit threads where
  freeList := state.freeList
  renameMap := Function.update unit.renameMap tid state.renameMap
  historyBuffer := Function.update unit.historyBuffer tid state.historyBuffer
  inFlight := Function.update unit.inFlight tid inFlight

def followsAll (tid : Fin threads) (inst : Nat) : Bool :=
  (unit.historyBuffer tid).all (fun entry => decide (entry.instSeqNum < inst)) &&
    (unit.inFlight tid).all fun older => decide (older.seqNum < inst)

variable (config)

def knowsSources (srcRegs : List RegId) : Bool :=
  srcRegs.all fun reg => reg.isFixedMapping || config.archRegs.contains reg

def knowsDests (dests : List DestOperand) : Bool :=
  dests.all fun dest => dest.reg.isFixedMapping || config.archRegs.contains dest.reg

def step : RenameOp threads → Option (RenameUnit threads)
  | .renameInst tid inst srcRegs dests =>
    if unit.followsAll tid inst && knowsSources config srcRegs && knowsDests config dests then
      let srcs := (srcRegs.filter (!·.isFixedMapping)).map (unit.renameMap tid)
      match (unit.thread tid).renameDestRegs inst dests with
      | none => none
      | some (state, _) => some (unit.setThread tid state (⟨inst, srcs⟩ :: unit.inFlight tid))
    else none
  | .doSquash tid squashedSeqNum =>
    some (unit.setThread tid ((unit.thread tid).doSquash squashedSeqNum)
      ((unit.inFlight tid).filter fun inst => decide (inst.seqNum ≤ squashedSeqNum)))
  | .removeFromHistory tid instSeqNum =>
    some (unit.setThread tid ((unit.thread tid).removeFromHistory instSeqNum)
      ((unit.inFlight tid).filter fun inst => decide (instSeqNum < inst.seqNum)))

/-- The constructor of `CPU` gives each thread its own registers of every class. -/
def initialMap (tid : Fin threads) (reg : RegId) : PhysRegId :=
  ⟨reg.regClass, tid * config.numArchRegs reg.regClass + reg.index⟩

def initial (threads : Nat) : RenameUnit threads where
  freeList := renameableClasses.flatMap fun regClass =>
    (List.range' (threads * config.numArchRegs regClass)
      (config.numPhysRegs regClass - threads * config.numArchRegs regClass)).map fun index =>
        ⟨regClass, index⟩
  renameMap := initialMap config
  historyBuffer _ := []
  inFlight _ := []

def threadRegs : List PhysRegId :=
  (List.finRange threads).flatMap fun tid => (unit.thread tid).registers config.archRegs

def physRegs (threads : Nat) : List PhysRegId :=
  (initial config threads).freeList ++ threadRegs config (initial config threads)

/-! ### The initial registers are distinct -/

theorem archRegs_nodup : config.archRegs.Nodup := by
  refine nodup_flatMap.mpr ⟨fun regClass _ => ?_, ?_⟩
  · exact nodup_range.map fun left right same => by simpa using same
  · have distinct : renameableClasses.Nodup := by decide
    refine distinct.imp fun {left right} different reg inLeft inRight => ?_
    obtain ⟨_, _, rfl⟩ := mem_map.mp inLeft
    obtain ⟨_, _, same⟩ := mem_map.mp inRight
    exact different (congrArg RegId.regClass same).symm

variable {config}

theorem mem_archRegs {reg : RegId} (member : reg ∈ config.archRegs) :
    reg.index < config.numArchRegs reg.regClass := by
  obtain ⟨regClass, _, inside⟩ := mem_flatMap.mp member
  obtain ⟨index, bound, rfl⟩ := mem_map.mp inside
  exact mem_range.mp bound

theorem mem_initial_freeList {reg : PhysRegId} (member : reg ∈ (initial config threads).freeList) :
    threads * config.numArchRegs reg.regClass ≤ reg.index := by
  obtain ⟨regClass, _, inside⟩ := mem_flatMap.mp member
  obtain ⟨index, bound, rfl⟩ := mem_map.mp inside
  exact (mem_range'_1.mp bound).1

theorem initialMap_lt {reg : RegId} (member : reg ∈ config.archRegs) :
    (initialMap config tid reg).index < threads * config.numArchRegs reg.regClass := by
  have inside := mem_archRegs member
  have bound : (tid.val + 1) * config.numArchRegs reg.regClass ≤
      threads * config.numArchRegs reg.regClass := Nat.mul_le_mul_right _ tid.isLt
  rw [Nat.succ_mul] at bound
  change tid.val * config.numArchRegs reg.regClass + reg.index < _
  omega

theorem initialMap_inj {other : Fin threads} {left right : RegId} (inLeft : left ∈ config.archRegs)
    (inRight : right ∈ config.archRegs)
    (same : initialMap config tid left = initialMap config other right) :
    tid = other ∧ left = right := by
  obtain ⟨regClass, leftIndex⟩ := left
  obtain ⟨otherClass, rightIndex⟩ := right
  obtain rfl : regClass = otherClass := congrArg PhysRegId.regClass same
  have leftBound : leftIndex < config.numArchRegs regClass := mem_archRegs inLeft
  have rightBound : rightIndex < config.numArchRegs regClass := mem_archRegs inRight
  have index : tid.val * config.numArchRegs regClass + leftIndex =
      other.val * config.numArchRegs regClass + rightIndex := congrArg PhysRegId.index same
  have sameThread : tid.val = other.val := by
    have quotient := congrArg (· / config.numArchRegs regClass) index
    have positive : 0 < config.numArchRegs regClass := by omega
    simpa [Nat.add_comm _ leftIndex, Nat.add_comm _ rightIndex, Nat.add_mul_div_right _ _ positive,
      Nat.div_eq_of_lt leftBound, Nat.div_eq_of_lt rightBound] using quotient
  rw [sameThread] at index
  exact ⟨Fin.ext sameThread, by rw [Nat.add_left_cancel index]⟩

variable (config)

theorem physRegs_nodup (threads : Nat) : (physRegs config threads).Nodup := by
  have registers : ∀ tid, ((initial config threads).thread tid).registers config.archRegs =
      config.archRegs.map (initialMap config tid) := fun _ => rfl
  refine nodup_append.mpr ⟨?_, ?_, ?_⟩
  · refine nodup_flatMap.mpr ⟨fun regClass _ => ?_, ?_⟩
    · exact List.Nodup.map (fun left right same => by simpa using same) nodup_range'
    · have distinct : renameableClasses.Nodup := by decide
      refine distinct.imp fun {left right} different reg inLeft inRight => ?_
      obtain ⟨_, _, rfl⟩ := mem_map.mp inLeft
      obtain ⟨_, _, same⟩ := mem_map.mp inRight
      exact different (congrArg PhysRegId.regClass same).symm
  · refine nodup_flatMap.mpr ⟨fun tid _ => ?_, ?_⟩
    · rw [registers]
      exact (archRegs_nodup config).map_on fun left inLeft right inRight same =>
        (initialMap_inj inLeft inRight same).2
    · refine (nodup_finRange threads).imp fun {left right} different reg inLeft inRight => ?_
      obtain ⟨_, leftKnown, rfl⟩ := mem_map.mp inLeft
      obtain ⟨_, rightKnown, same⟩ := mem_map.mp inRight
      exact different (initialMap_inj rightKnown leftKnown same).1.symm
  · intro free member held inside same
    subst same
    obtain ⟨tid, _, inside⟩ := mem_flatMap.mp inside
    obtain ⟨reg, known, rfl⟩ := mem_map.mp inside
    exact Nat.lt_irrefl _ (Nat.lt_of_lt_of_le (initialMap_lt known) (mem_initial_freeList member))

theorem physRegs_single : config.physRegs = physRegs config 1 := by
  have mapped : (Config.initialMap : RegId → PhysRegId) = initialMap config (0 : Fin 1) := by
    funext reg
    simp [Config.initialMap, initialMap]
  simp [physRegs, threadRegs, Config.physRegs, Config.initialFreeList, initial, thread,
    RenameState.registers, mapped, finRange_succ]

/-! ### The invariant -/

structure Inv (config : Config) (unit : RenameUnit threads) : Prop where
  consistent : ∀ tid, (unit.thread tid).Consistent config.archRegs
  conserved : (unit.freeList ++ threadRegs config unit).Perm (physRegs config threads)
  protects : ∀ tid, ∀ inst ∈ unit.inFlight tid,
    (unit.thread tid).Protects config.archRegs inst.seqNum inst.srcs

theorem initial_inv (threads : Nat) : (initial config threads).Inv config where
  consistent tid := ⟨⟨initialMap config tid, .nil⟩, (by rintro _ ⟨⟩)⟩
  conserved := .refl _
  protects _ := by rintro _ ⟨⟩

theorem threadRegs_perm (tid : Fin threads) :
    (threadRegs config unit).Perm ((unit.thread tid).registers config.archRegs ++
      ((List.finRange threads).erase tid).flatMap fun other =>
        (unit.thread other).registers config.archRegs) :=
  (perm_cons_erase (mem_finRange tid)).flatMap_right _

@[simp] theorem setThread_thread_self (tid : Fin threads)
    (state : RenameState) (inFlight : List RenamedInst) :
    (unit.setThread tid state inFlight).thread tid = state := by
  simp [thread, setThread]

theorem setThread_thread_other {tid other : Fin threads}
    (state : RenameState) (inFlight : List RenamedInst) (different : other ≠ tid) :
    (unit.setThread tid state inFlight).thread other =
      { unit.thread other with freeList := state.freeList } := by
  simp [thread, setThread, update_of_ne different]

variable {config} {unit}

/-- It is enough to follow the registers of the thread that makes the step. -/
theorem Inv.setThread {state : RenameState} {inFlight : List RenamedInst} (inv : unit.Inv config)
    (changes : ∀ pool, pool.Nodup → (unit.thread tid).Valid config.archRegs pool →
      state.Valid config.archRegs pool)
    (protects : ∀ inst ∈ inFlight, state.Protects config.archRegs inst.seqNum inst.srcs) :
    (unit.setThread tid state inFlight).Inv config := by
  let others := ((List.finRange threads).erase tid).flatMap fun other =>
    (unit.thread other).registers config.archRegs
  have own : ((unit.freeList ++ (unit.thread tid).registers config.archRegs) ++ others).Perm
      (physRegs config threads) := by
    rw [append_assoc]
    exact ((threadRegs_perm config unit tid).append_left _).symm.trans inv.conserved
  have unique : (unit.freeList ++ (unit.thread tid).registers config.archRegs).Nodup :=
    (nodup_append.mp (own.nodup_iff.mpr (physRegs_nodup config threads))).1
  have valid := changes _ unique ⟨inv.consistent tid, .refl _⟩
  refine ⟨fun other => ?_, ?_, fun other inst member => ?_⟩
  · by_cases same : other = tid
    · subst same
      rw [setThread_thread_self]
      exact valid.toConsistent
    · rw [setThread_thread_other _ _ _ same]
      exact { inv.consistent other with }
  · have rest : ((List.finRange threads).erase tid).flatMap (fun other =>
        ((unit.setThread tid state inFlight).thread other).registers config.archRegs) = others := by
      refine flatMap_congr fun other member => ?_
      have different : other ≠ tid := fun same =>
        (nodup_finRange threads).not_mem_erase (same ▸ member)
      rw [setThread_thread_other _ _ _ different]
      rfl
    refine ((threadRegs_perm config _ tid).append_left _).trans ?_
    rw [rest, setThread_thread_self, ← append_assoc]
    exact (valid.conserved.append_right _).trans own
  · by_cases same : other = tid
    · subst same
      rw [setThread_thread_self]
      exact protects inst (by simpa [RenameUnit.setThread] using member)
    · rw [setThread_thread_other _ _ _ same]
      exact inv.protects other inst (by
        simpa [RenameUnit.setThread, update_of_ne same] using member)

theorem step_inv {op : RenameOp threads} (inv : unit.Inv config)
    (stepped : unit.step config op = some next) : next.Inv config := by
  have keysUnique := archRegs_nodup config
  cases op with
  | renameInst tid inst srcRegs dests =>
    simp only [step] at stepped
    split at stepped
    · next possible =>
      simp only [followsAll, knowsSources, knowsDests, Bool.and_eq_true, all_eq_true,
        decide_eq_true_eq, Bool.or_eq_true, contains_iff_mem] at possible
      obtain ⟨⟨⟨afterEntries, afterInsts⟩, knownSources⟩, knownDests⟩ := possible
      split at stepped
      · cases stepped
      · next state mappings renamed =>
        cases stepped
        refine inv.setThread (fun pool unique valid =>
          valid.renameDestRegs unique keysUnique knownDests renamed) fun other member => ?_
        rcases mem_cons.mp member with rfl | older
        · -- Nothing is on top of the history when the sources are looked up.
          have fresh : (unit.thread tid).Protects config.archRegs inst
              ((srcRegs.filter (!·.isFixedMapping)).map (unit.renameMap tid)) := by
            refine ⟨[], _, _, rfl, (by simp), afterEntries, .nil, fun src member => ?_⟩
            obtain ⟨reg, chosen, rfl⟩ := mem_map.mp member
            obtain ⟨member, movable⟩ := mem_filter.mp chosen
            refine ⟨reg, (knownSources reg member).resolve_left fun fixed => ?_, rfl⟩
            simp [fixed] at movable
          exact fresh.renameDestRegs (Nat.le_refl _) renamed
        · exact (inv.protects tid other older).renameDestRegs
            (Nat.le_of_lt (afterInsts other older)) renamed
    · cases stepped
  | doSquash tid squashedSeqNum =>
    cases stepped
    refine inv.setThread (fun pool _ valid => valid.doSquash keysUnique squashedSeqNum)
      fun other member => ?_
    obtain ⟨before, kept⟩ := mem_filter.mp member
    exact (inv.protects tid other before).doSquash (of_decide_eq_true kept)
  | removeFromHistory tid instSeqNum =>
    cases stepped
    refine inv.setThread (fun pool _ valid => valid.removeFromHistory instSeqNum)
      fun other member => ?_
    obtain ⟨before, kept⟩ := mem_filter.mp member
    exact (inv.protects tid other before).removeFromHistory (of_decide_eq_true kept)

theorem reachable_inv (reached : Reaches (step config) anyEvent (initial config threads) unit) :
    unit.Inv config :=
  reached.invariant (initial_inv config threads) fun inv _ stepped => step_inv inv stepped

end RenameUnit

end Runahead.O3
