import Mathlib.Data.List.Nodup
import Mathlib.Data.List.Perm.Basic
import Mathlib.Data.List.Range
import Mathlib.Logic.Function.Basic

/-!
# Switching the vector rename mode

Vector registers are renamed as a whole or element by element. `switchRenameMode`
changes between the two: it rewrites both rename maps and the free list, and in
the direction from elements to whole registers it also rewrites the register file,
once for each map (`rename_map.cc`, `cpu.cc`).
-/

set_option autoImplicit false

namespace Runahead.O3

open List

inductive VecMode where
  | full
  | elem
  deriving DecidableEq, Repr

structure VecConfig where
  numArchVecs : Nat
  numPhysVecs : Nat
  elemsPerVec : Nat
  enough : numArchVecs ≤ numPhysVecs

/-- An element of a physical vector register. -/
abbrev VecElemId := Nat × Nat

/-- The vector part of a rename map; which map counts depends on the mode. -/
structure VecRenameMap where
  vecMode : VecMode
  vecMap : Nat → Nat
  vecElemMap : Nat → Nat → VecElemId

structure VecFreeList where
  vecList : List Nat
  vecElemList : List VecElemId

/-- The state that `switchRenameMode` works on, for elements of any type. -/
structure VecRename (Elem : Type) where
  vecMode : VecMode
  vectorRegFile : Nat → Nat → Elem
  renameMap : VecRenameMap
  commitRenameMap : VecRenameMap
  freeList : VecFreeList
  vecReady : Nat → Bool
  elemReady : VecElemId → Bool

section Model

variable {Elem : Type}

def getRegElemIds (config : VecConfig) (vec : Nat) : List VecElemId :=
  (List.range config.elemsPerVec).map fun elem => (vec, elem)

def readVecElem (vectorRegFile : Nat → Nat → Elem) (reg : VecElemId) : Elem :=
  vectorRegFile reg.1 reg.2

namespace VecRenameMap

variable (config : VecConfig) (map : VecRenameMap)

def splitMapping : VecRenameMap :=
  { map with
    vecMode := .elem
    vecElemMap := fun vec elem =>
      if vec < config.numArchVecs ∧ elem < config.elemsPerVec then (map.vecMap vec, elem)
      else map.vecElemMap vec elem }

def joinMapping : VecRenameMap :=
  { map with
    vecMode := .full
    vecMap := fun vec => if vec < config.numArchVecs then vec else map.vecMap vec }

def stitch (vectorRegFile : Nat → Nat → Elem) (map : VecRenameMap) (vec : Nat) : Nat → Elem :=
  fun elem => readVecElem vectorRegFile (map.vecElemMap vec elem)

/-- `switchMode` with the register file that it may rewrite. -/
def switchMode (newMode : VecMode) (vectorRegFile : Nat → Nat → Elem)
    (map : VecRenameMap) : (Nat → Nat → Elem) × VecRenameMap :=
  match newMode, map.vecMode with
  | .elem, .full => (vectorRegFile, map.splitMapping config)
  | .full, .elem =>
    let newRF := map.stitch vectorRegFile
    ((List.range config.numArchVecs).foldl
        (fun vectorRegFile vec => Function.update vectorRegFile vec (newRF vec)) vectorRegFile,
      map.joinMapping config)
  | _, _ => (vectorRegFile, map)

/-- `switchFreeList`, for the mode that the map has been switched to. -/
def switchFreeList (freeList : VecFreeList) : Option VecFreeList :=
  match map.vecMode with
  | .elem =>
    if freeList.vecElemList ≠ [] then none
    else if freeList.vecList.length ≠ config.numPhysVecs - config.numArchVecs then none
    else some {
      vecList := []
      vecElemList := freeList.vecElemList ++ freeList.vecList.flatMap (getRegElemIds config) }
  | .full =>
    if freeList.vecList ≠ [] then none
    else if freeList.vecElemList.length ≠
        config.numPhysVecs * config.elemsPerVec - config.numArchVecs * config.elemsPerVec then none
    else some {
      vecList := freeList.vecList ++ (List.range config.numPhysVecs).drop config.numArchVecs
      vecElemList := [] }

def read (vectorRegFile : Nat → Nat → Elem) (map : VecRenameMap) (vec elem : Nat) : Elem :=
  match map.vecMode with
  | .full => vectorRegFile (map.vecMap vec) elem
  | .elem => readVecElem vectorRegFile (map.vecElemMap vec elem)

end VecRenameMap

namespace VecRename

variable (config : VecConfig)

def setVectorsAsReady (state : VecRename Elem) : VecRename Elem :=
  match state.vecMode with
  | .elem =>
    { state with
      elemReady := (List.range config.numArchVecs).foldl (fun ready vec =>
        (List.range config.elemsPerVec).foldl (fun ready elem =>
          Function.update ready (state.commitRenameMap.vecElemMap vec elem) true) ready)
        state.elemReady }
  | .full =>
    { state with
      vecReady := (List.range config.numArchVecs).foldl (fun ready vec =>
        Function.update ready (state.commitRenameMap.vecMap vec) true) state.vecReady }

def switchRenameMode (newMode : VecMode) (state : VecRename Elem) : Option (VecRename Elem) :=
  if newMode = state.vecMode then some state
  else
    let renamed := state.renameMap.switchMode config newMode state.vectorRegFile
    let committed := state.commitRenameMap.switchMode config newMode renamed.1
    (renamed.2.switchFreeList config state.freeList).map fun freeList =>
      { state with
        vecMode := newMode
        vectorRegFile := committed.1
        renameMap := renamed.2
        commitRenameMap := committed.2
        freeList := freeList }.setVectorsAsReady config

variable (map : VecRenameMap)

def mappedVecs : List Nat :=
  (List.range config.numArchVecs).map map.vecMap

def mappedElems : List VecElemId :=
  (List.range config.numArchVecs).flatMap fun vec =>
    (List.range config.elemsPerVec).map (map.vecElemMap vec)

/-- Every physical register, or every element in element mode, is free or mapped, and not
both or twice. -/
def Partition (freeList : VecFreeList) : Prop :=
  match map.vecMode with
  | .full => freeList.vecElemList = [] ∧
      (freeList.vecList ++ mappedVecs config map).Perm (List.range config.numPhysVecs)
  | .elem => freeList.vecList = [] ∧
      (freeList.vecElemList ++ mappedElems config map).Perm
        ((List.range config.numPhysVecs).flatMap (getRegElemIds config))

/-- Each element that lies in one of the registers rewritten by the switch is in its final
place already. -/
def InPlace : Prop :=
  ∀ vec < config.numArchVecs, ∀ elem < config.elemsPerVec,
    map.vecElemMap vec elem = (vec, elem) ∨ config.numArchVecs ≤ (map.vecElemMap vec elem).1

end VecRename

/-! ## Values -/

theorem foldl_update_range {Value : Type} (values file : Nat → Value) (count index : Nat) :
    (List.range count).foldl
      (fun file index => Function.update file index (values index)) file index =
      if index < count then values index else file index := by
  induction count with
  | zero => simp
  | succ count ih =>
    rw [range_succ, foldl_append, foldl_cons, foldl_nil, Function.update_apply, ih]
    by_cases here : index = count
    · simp [here]
    · have bound : index < count + 1 ↔ index < count := by omega
      simp [here, bound]

namespace VecRename

variable {config : VecConfig} {map : VecRenameMap} {file : Nat → Nat → Elem} {vec elem : Nat}

theorem switchMode_elem (full : map.vecMode = .full) :
    map.switchMode config .elem file = (file, map.splitMapping config) := by
  simp [VecRenameMap.switchMode, full]

/-- What the register file holds after the first registers have been stitched together. -/
def stitched (config : VecConfig) (file : Nat → Nat → Elem) (map : VecRenameMap) :
    Nat → Nat → Elem :=
  fun vec => if vec < config.numArchVecs then map.stitch file vec else file vec

theorem switchMode_full (elements : map.vecMode = .elem) :
    map.switchMode config .full file = (stitched config file map, map.joinMapping config) := by
  simp only [VecRenameMap.switchMode, elements, Prod.mk.injEq, and_true]
  funext vec
  exact foldl_update_range (map.stitch file) file config.numArchVecs vec

theorem read_splitMapping (full : map.vecMode = .full) (vecBound : vec < config.numArchVecs)
    (elemBound : elem < config.elemsPerVec) :
    (map.splitMapping config).read file vec elem = map.read file vec elem := by
  simp [VecRenameMap.read, VecRenameMap.splitMapping, full, vecBound, elemBound, readVecElem]

/-- The second of the two switches reads elements that the first one may have moved. -/
theorem stitched_twice (vecBound : vec < config.numArchVecs) :
    stitched config (stitched config file map) map vec elem =
      if (map.vecElemMap vec elem).1 < config.numArchVecs then
        readVecElem file (map.vecElemMap (map.vecElemMap vec elem).1 (map.vecElemMap vec elem).2)
      else readVecElem file (map.vecElemMap vec elem) := by
  unfold stitched
  rw [if_pos vecBound]
  simp only [VecRenameMap.stitch, readVecElem]
  split <;> rfl

theorem stitched_twice_of_inPlace (inPlace : InPlace config map)
    (vecBound : vec < config.numArchVecs) (elemBound : elem < config.elemsPerVec) :
    stitched config (stitched config file map) map vec elem =
      readVecElem file (map.vecElemMap vec elem) := by
  rw [stitched_twice vecBound]
  rcases inPlace vec vecBound elem elemBound with same | outside
  · rw [same, if_pos vecBound, same]
  · rw [if_neg (Nat.not_lt.mpr outside)]

/-! ## Free list -/

theorem mappedElems_splitMapping (config : VecConfig) (map : VecRenameMap) :
    mappedElems config (map.splitMapping config) =
      (mappedVecs config map).flatMap (getRegElemIds config) := by
  unfold mappedElems mappedVecs getRegElemIds
  rw [flatMap_map]
  refine flatMap_congr fun vec vecMember => ?_
  refine map_congr_left fun elem elemMember => ?_
  exact if_pos ⟨mem_range.mp vecMember, mem_range.mp elemMember⟩

theorem length_flatMap_range {Value : Type} (config : VecConfig) (count : Nat)
    (values : Nat → Nat → Value) :
    ((List.range count).flatMap fun vec =>
      (List.range config.elemsPerVec).map (values vec)).length = count * config.elemsPerVec := by
  simp [length_flatMap]

theorem switchFreeList_elem {freeList : VecFreeList} (full : map.vecMode = .full)
    (partition : Partition config map freeList) :
    ∃ next, (map.splitMapping config).switchFreeList config freeList = some next ∧
      Partition config (map.splitMapping config) next := by
  simp only [Partition, full] at partition
  obtain ⟨noElems, perm⟩ := partition
  have count : freeList.vecList.length = config.numPhysVecs - config.numArchVecs := by
    have := perm.length_eq
    simp only [mappedVecs, length_append, length_map, length_range] at this
    omega
  refine ⟨⟨[], freeList.vecElemList ++ freeList.vecList.flatMap (getRegElemIds config)⟩, ?_, ?_⟩
  · simp [VecRenameMap.switchFreeList, VecRenameMap.splitMapping, noElems, count]
  · refine ⟨rfl, ?_⟩
    rw [noElems, nil_append, mappedElems_splitMapping, ← flatMap_append]
    exact perm.flatMap_right _

theorem switchFreeList_full {freeList : VecFreeList} (elements : map.vecMode = .elem)
    (partition : Partition config map freeList) :
    ∃ next, (map.joinMapping config).switchFreeList config freeList = some next ∧
      Partition config (map.joinMapping config) next := by
  simp only [Partition, elements] at partition
  obtain ⟨noVecs, perm⟩ := partition
  have count : freeList.vecElemList.length =
      config.numPhysVecs * config.elemsPerVec - config.numArchVecs * config.elemsPerVec := by
    have := perm.length_eq
    rw [length_append, mappedElems, length_flatMap_range] at this
    have all : ((List.range config.numPhysVecs).flatMap (getRegElemIds config)).length =
        config.numPhysVecs * config.elemsPerVec :=
      length_flatMap_range config config.numPhysVecs fun vec elem => (vec, elem)
    omega
  refine ⟨⟨freeList.vecList ++ (List.range config.numPhysVecs).drop config.numArchVecs, []⟩,
    ?_, rfl, ?_⟩
  · simp [VecRenameMap.switchFreeList, VecRenameMap.joinMapping, noVecs, count]
  · have mapped : mappedVecs config (map.joinMapping config) =
        (List.range config.numPhysVecs).take config.numArchVecs := by
      rw [take_range, Nat.min_eq_left config.enough]
      refine (map_congr_left fun vec member => ?_).trans (map_id _)
      exact if_pos (mem_range.mp member)
    rw [mapped, noVecs, nil_append]
    exact perm_append_comm.trans (List.Perm.of_eq (take_append_drop _ _))

/-! ## The switch -/

structure Preserves (config : VecConfig) (state next : VecRename Elem) : Prop where
  renamed : ∀ vec < config.numArchVecs, ∀ elem < config.elemsPerVec,
    next.renameMap.read next.vectorRegFile vec elem =
      state.renameMap.read state.vectorRegFile vec elem
  committed : ∀ vec < config.numArchVecs, ∀ elem < config.elemsPerVec,
    next.commitRenameMap.read next.vectorRegFile vec elem =
      state.commitRenameMap.read state.vectorRegFile vec elem
  partition : Partition config next.renameMap next.freeList
  shared : next.commitRenameMap = next.renameMap
  mode : next.renameMap.vecMode = next.vecMode

structure SwitchesToFull (config : VecConfig) (file : Nat → Nat → Elem) (map : VecRenameMap)
    (next : VecRename Elem) : Prop where
  mode : next.vecMode = .full
  mapMode : next.renameMap.vecMode = .full
  shared : next.commitRenameMap = next.renameMap
  partition : Partition config next.renameMap next.freeList
  values : ∀ vec < config.numArchVecs, ∀ elem, next.renameMap.read next.vectorRegFile vec elem =
    stitched config (stitched config file map) map vec elem

section Switch

variable {state : VecRename Elem} (file : Nat → Nat → Elem)
  (shared : state.commitRenameMap = state.renameMap)
  (mode : state.renameMap.vecMode = state.vecMode)
  (partition : Partition config state.renameMap state.freeList)
include shared mode partition

theorem switchRenameMode_full (elements : state.vecMode = .elem) :
    ∃ next, { state with vectorRegFile := file }.switchRenameMode config .full = some next ∧
      SwitchesToFull config file state.renameMap next := by
  have here := mode.trans elements
  obtain ⟨freeList, switched, after⟩ := switchFreeList_full here partition
  simp only [switchRenameMode, elements, shared, switchMode_full here, switched, Option.map_some,
    reduceCtorEq, ↓reduceIte]
  refine ⟨_, rfl, rfl, rfl, rfl, after, fun vec vecBound elem => ?_⟩
  simp [setVectorsAsReady, VecRenameMap.read, VecRenameMap.joinMapping, vecBound]

theorem switchRenameMode_elem (full : state.vecMode = .full) :
    ∃ next, { state with vectorRegFile := file }.switchRenameMode config .elem = some next ∧
      next.vecMode = .elem ∧ Preserves config { state with vectorRegFile := file } next := by
  have here := mode.trans full
  obtain ⟨freeList, switched, after⟩ := switchFreeList_elem here partition
  have values : ∀ vec < config.numArchVecs, ∀ elem < config.elemsPerVec,
      (state.renameMap.splitMapping config).read file vec elem =
        state.renameMap.read file vec elem :=
    fun _ vecBound _ elemBound => read_splitMapping here vecBound elemBound
  simp only [switchRenameMode, full, shared, switchMode_elem here, switched, Option.map_some,
    reduceCtorEq, ↓reduceIte]
  exact ⟨_, rfl, rfl, values, shared ▸ values, after, rfl, rfl⟩

end Switch

section Injective

variable {freeList : VecFreeList} (elements : map.vecMode = .elem)
  (partition : Partition config map freeList)
include elements partition

theorem vecElemMap_physical (vecBound : vec < config.numArchVecs)
    (elemBound : elem < config.elemsPerVec) :
    (map.vecElemMap vec elem).2 < config.elemsPerVec := by
  simp only [Partition, elements] at partition
  have mapped : map.vecElemMap vec elem ∈ mappedElems config map :=
    mem_flatMap.mpr ⟨vec, mem_range.mpr vecBound, mem_map_of_mem (mem_range.mpr elemBound)⟩
  have known := partition.2.subset (mem_append_right _ mapped)
  simp only [getRegElemIds, mem_flatMap, mem_map, mem_range] at known
  obtain ⟨_, _, other, bound, same⟩ := known
  exact same ▸ bound

theorem vecElemMap_injective {otherVec otherElem : Nat} (vecBound : vec < config.numArchVecs)
    (elemBound : elem < config.elemsPerVec) (otherVecBound : otherVec < config.numArchVecs)
    (otherElemBound : otherElem < config.elemsPerVec)
    (same : map.vecElemMap vec elem = map.vecElemMap otherVec otherElem) :
    (vec, elem) = (otherVec, otherElem) := by
  simp only [Partition, elements] at partition
  have all : ((List.range config.numPhysVecs).flatMap (getRegElemIds config)).Nodup :=
    Nodup.product nodup_range nodup_range
  have mapped := (nodup_append.mp (partition.2.nodup_iff.mpr all)).2.1
  have pairs : mappedElems config map = ((List.range config.numArchVecs).product
      (List.range config.elemsPerVec)).map fun pair => map.vecElemMap pair.1 pair.2 := by
    simp [mappedElems, List.product, map_flatMap, Function.comp_def]
  rw [pairs] at mapped
  exact inj_on_of_nodup_map mapped (pair_mem_product.mpr
    ⟨mem_range.mpr vecBound, mem_range.mpr elemBound⟩) (pair_mem_product.mpr
    ⟨mem_range.mpr otherVecBound, mem_range.mpr otherElemBound⟩) same

/-- If every content of the register file is kept, a rewritten element was in its place. -/
theorem inPlace_of_stitched [Nontrivial Elem]
    (kept : ∀ file : Nat → Nat → Elem, ∀ vec < config.numArchVecs, ∀ elem < config.elemsPerVec,
      stitched config (stitched config file map) map vec elem =
        readVecElem file (map.vecElemMap vec elem)) : InPlace config map := by
  intro vec vecBound elem elemBound
  by_cases inside : (map.vecElemMap vec elem).1 < config.numArchVecs
  · -- A file that tells the element apart from all others.
    obtain ⟨mark, other, differ⟩ := exists_pair_ne Elem
    have told := kept (fun otherVec otherElem =>
      if (otherVec, otherElem) = map.vecElemMap vec elem then mark else other)
      vec vecBound elem elemBound
    rw [stitched_twice vecBound, if_pos inside] at told
    simp only [readVecElem, if_true] at told
    split at told
    · next same =>
      exact .inl (vecElemMap_injective elements partition inside
        (vecElemMap_physical elements partition vecBound elemBound) vecBound elemBound same)
    · exact absurd told.symm differ
  · exact .inr (Nat.not_lt.mp inside)

end Injective

/-- A switch of the mode preserves the values of all vector registers through either map
and the partition into free and mapped registers, whatever the register file holds, exactly
if it is not one from elements to whole registers, or no element lies in a register that
the switch rewrites unless it is in its place. -/
theorem switchRenameMode_preserves [Nontrivial Elem] (config : VecConfig)
    (state : VecRename Elem) (newMode : VecMode)
    (shared : state.commitRenameMap = state.renameMap)
    (mode : state.renameMap.vecMode = state.vecMode)
    (partition : Partition config state.renameMap state.freeList) :
    (∀ file : Nat → Nat → Elem, ∃ next,
      { state with vectorRegFile := file }.switchRenameMode config newMode = some next ∧
      next.vecMode = newMode ∧ Preserves config { state with vectorRegFile := file } next) ↔
    (state.vecMode = .elem → newMode = .full → InPlace config state.renameMap) := by
  constructor
  · rintro all elements rfl
    have here := mode.trans elements
    refine inPlace_of_stitched here partition
      fun (file : Nat → Nat → Elem) vec vecBound elem elemBound => ?_
    obtain ⟨next, switched, -, preserves⟩ := all file
    obtain ⟨_, same, full⟩ := switchRenameMode_full file shared mode partition elements
    cases same.symm.trans switched
    have value := preserves.renamed vec vecBound elem elemBound
    rw [full.values vec vecBound elem] at value
    simpa [VecRenameMap.read, here] using value
  · intro inPlace file
    by_cases same : newMode = state.vecMode
    · exact ⟨_, if_pos same, same.symm, fun _ _ _ _ => rfl, fun _ _ _ _ => rfl, partition, shared,
        mode⟩
    have either : state.vecMode = .full ∨ state.vecMode = .elem := by
      cases state.vecMode <;> simp
    rcases either with old | old
    · cases newMode with
      | full => exact absurd old.symm same
      | elem => exact switchRenameMode_elem file shared mode partition old
    · cases newMode with
      | elem => exact absurd old.symm same
      | full =>
        obtain ⟨next, switched, full⟩ := switchRenameMode_full file shared mode partition old
        have values : ∀ vec < config.numArchVecs, ∀ elem < config.elemsPerVec,
            next.renameMap.read next.vectorRegFile vec elem =
              state.renameMap.read file vec elem := by
          intro vec vecBound elem elemBound
          rw [full.values vec vecBound elem,
            stitched_twice_of_inPlace (inPlace old rfl) vecBound elemBound]
          simp [VecRenameMap.read, mode.trans old]
        refine ⟨next, switched, full.mode, values, ?_, full.partition, full.shared,
          full.mapMode.trans full.mode.symm⟩
        rw [full.shared]
        exact shared ▸ values

def elemState (vecElemMap : Nat → Nat → VecElemId) (vecElemList : List VecElemId) :
    VecRename Nat where
  vecMode := .elem
  vectorRegFile vec elem := 10 * vec + elem
  renameMap := ⟨.elem, id, vecElemMap⟩
  commitRenameMap := ⟨.elem, id, vecElemMap⟩
  freeList := ⟨[], vecElemList⟩
  vecReady _ := true
  elemReady _ := true

/-- The second element of the first register lies outside of the registers that are rewritten. -/
theorem switchRenameMode_preserves_outside :
    ∃ next, (elemState (fun vec elem => if vec = 0 ∧ elem = 1 then (2, 0) else (vec, elem))
        [(0, 1), (2, 1)]).switchRenameMode ⟨2, 3, 2, by decide⟩ .full = some next ∧
      next.vecMode = .full ∧ next.commitRenameMap.read next.vectorRegFile 0 1 = 20 := by
  obtain ⟨next, switched, mode, preserves⟩ := (switchRenameMode_preserves ⟨2, 3, 2, by decide⟩
    (elemState
      (fun vec elem => if vec = 0 ∧ elem = 1 then (2, 0) else (vec, elem)) [(0, 1), (2, 1)])
    .full rfl rfl ⟨rfl, by decide⟩).mpr (fun _ _ => by unfold InPlace; decide) _
  exact ⟨next, switched, mode, preserves.committed 0 (by decide) 1 (by decide)⟩

/-- Two registers of one element whose mappings have been exchanged: after the switch the first
one reads the value of the second. -/
theorem switchRenameMode_exchanges :
    ∃ next, (elemState (fun vec elem => (1 - vec, elem)) [(2, 0)]).switchRenameMode
        ⟨2, 3, 1, by decide⟩ .full = some next ∧
      Partition ⟨2, 3, 1, by decide⟩
        (elemState (fun vec elem => (1 - vec, elem)) [(2, 0)]).renameMap
        ⟨[], [(2, 0)]⟩ ∧
      (elemState (fun vec elem => (1 - vec, elem)) [(2, 0)]).renameMap.read
        (elemState (fun vec elem => (1 - vec, elem)) [(2, 0)]).vectorRegFile
        0 0 = 10 ∧
      next.renameMap.read next.vectorRegFile 0 0 = 0 ∧
      next.commitRenameMap.read next.vectorRegFile 0 0 = 0 :=
  ⟨_, rfl, ⟨rfl, by decide⟩, rfl, rfl, rfl⟩

end VecRename

end Model

end Runahead.O3
