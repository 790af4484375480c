import Runahead.Library.Transition
import Runahead.O3.MemDepShape

/-!
# Barriers in the memory dependence unit

A speculative load is on the dependents list of every older read barrier that is
outstanding, and a store on that of every older write barrier, so it has
`memDeps ≠ 0` and is not on the ready list. The if-chain of `insert` collects one
kind of barrier only; atomics, which would have to wait for both kinds, are never
inserted speculatively.
-/

set_option autoImplicit false

namespace Runahead.O3.MemDep.Run

open Library Function List MemDepUnit

variable {run next : Run} {inst : MemInst} {seqNum : Nat}

def Known (run : Run) (seqNum : Nat) : Prop := ∃ inst ∈ run.inserted, inst.seqNum = seqNum

def plainStore (inst : MemInst) : Bool := inst.isStore && !(inst.isLoad || inst.isAtomic)

/-- The instructions that wait for nothing any more: they are on the ready list, have
been taken from it, or are to be put there again by a replay. -/
def released (run : Run) : List Nat :=
  run.unit.readyList ++ (run.issued ++ run.unit.instsToReplay)

structure Inv (run : Run) : Prop where
  shape : run.unit.Shape
  record : ∀ inst ∈ run.inserted, (run.unit.entries inst.seqNum).inst = inst
  hash : ∀ seqNum ∈ run.unit.memDepHash, run.Known seqNum
  dependents : ∀ producer ∈ run.unit.memDepHash,
    ∀ seqNum ∈ (run.unit.entries producer).dependInsts, run.Known seqNum
  predicted : ∀ seqNum ∈ run.unit.depPredStores, run.Known seqNum ∧
    ((run.unit.entries seqNum).inst.isStore || (run.unit.entries seqNum).inst.isAtomic) = true
  ready : ∀ seqNum ∈ run.released, run.Known seqNum
  speculated : ∀ seqNum ∈ run.speculative, run.Known seqNum
  departed : ∀ inst ∈ run.inserted, inst.seqNum ∈ run.unit.memDepHash ∨
    inst.seqNum ∈ run.completed ∨ inst.seqNum ∈ run.squashed
  resolved : ∀ seqNum ∈ run.released, seqNum ∈ run.speculative →
    (run.unit.entries seqNum).memDeps = 0
  moved : ∀ seqNum ∈ run.unit.memDepHash, (run.unit.entries seqNum).regsReady = true →
    (run.unit.entries seqNum).memDeps = 0 → seqNum ∈ run.released
  loadsWait : ∀ seqNum ∈ run.speculative,
    ((run.unit.entries seqNum).inst.isLoad || (run.unit.entries seqNum).inst.isAtomic) = true →
      ∀ barrier ∈ run.unit.loadBarrierSNs, barrier < seqNum →
        seqNum ∈ (run.unit.entries barrier).dependInsts
  storesWait : ∀ seqNum ∈ run.speculative, plainStore (run.unit.entries seqNum).inst = true →
      ∀ barrier ∈ run.unit.storeBarrierSNs, barrier < seqNum →
        seqNum ∈ (run.unit.entries barrier).dependInsts

theorem mem_released_append {ready more rest : List Nat} :
    seqNum ∈ (ready ++ more) ++ rest ↔ seqNum ∈ ready ++ rest ∨ seqNum ∈ more := by
  simp only [mem_append]
  exact or_right_comm

/-! ## Insertion -/

theorem known_lt (youngest : run.isYoungest inst = true) (known : run.Known seqNum) :
    seqNum < inst.seqNum := by
  obtain ⟨old, member, rfl⟩ := known
  exact of_decide_eq_true (all_eq_true.mp youngest old member)

theorem Inv.older (inv : run.Inv) (youngest : run.isYoungest inst = true) :
    run.unit.Older inst.seqNum where
  hash := fun other member => known_lt youngest (inv.hash other member)
  dependents := fun producer member other depends =>
    known_lt youngest (inv.dependents producer member other depends)

structure Waits (run : Run) (inst : MemInst) (speculative : Bool) (storeEntries : List Nat) :
    Prop where
  distinct : storeEntries.Nodup
  inside : storeEntries ⊆ run.unit.memDepHash
  wakers : ∀ store ∈ storeEntries, (run.unit.entries store).inst.hasDependents = true
  loads : speculative = true → (inst.isLoad || inst.isAtomic) = true →
    run.unit.loadBarrierSNs ⊆ storeEntries
  stores : speculative = true → plainStore inst = true → run.unit.storeBarrierSNs ⊆ storeEntries

def placed (run : Run) (inst : MemInst) (readyToIssue speculative : Bool)
    (storeEntries predicted : List Nat) : Run :=
  { run with
    inserted := run.inserted ++ [inst]
    speculative := run.speculative ++ if speculative then [inst.seqNum] else []
    unit := { run.unit.place inst readyToIssue storeEntries with
      readyList := run.unit.readyList ++
        if storeEntries.isEmpty && readyToIssue then [inst.seqNum] else []
      depPredStores := run.unit.depPredStores ++ predicted } }

section Placed

variable {readyToIssue speculative : Bool} {storeEntries predicted : List Nat}

theorem placed_known : (run.placed inst readyToIssue speculative storeEntries predicted).Known
    seqNum ↔ run.Known seqNum ∨ seqNum = inst.seqNum := by
  simp only [Known, placed, mem_append, mem_singleton]
  constructor
  · rintro ⟨old, member | rfl, same⟩
    · exact .inl ⟨old, member, same⟩
    · exact .inr same.symm
  · rintro (⟨old, member, same⟩ | rfl)
    · exact ⟨old, .inl member, same⟩
    · exact ⟨inst, .inr rfl, rfl⟩

theorem mem_placed_speculative (member : seqNum ∈
      (run.placed inst readyToIssue speculative storeEntries predicted).speculative) :
    seqNum ∈ run.speculative ∨ speculative = true ∧ seqNum = inst.seqNum := by
  rcases mem_append.mp member with before | here
  · exact .inl before
  · split at here
    case isTrue yes => exact .inr ⟨yes, mem_singleton.mp here⟩
    case isFalse => cases here

theorem mem_placed_ready (member : seqNum ∈
      (run.placed inst readyToIssue speculative storeEntries predicted).released) :
    seqNum ∈ run.released ∨ storeEntries = [] ∧ seqNum = inst.seqNum := by
  refine (mem_released_append.mp member).imp_right fun here => ?_
  split at here
  case isTrue both =>
    obtain ⟨empty, _⟩ := Bool.and_eq_true_iff.mp both
    exact ⟨List.isEmpty_iff.mp empty, mem_singleton.mp here⟩
  case isFalse => cases here

theorem placed_entry (older : seqNum ≠ inst.seqNum) :
    ∃ dependInsts, (run.placed inst readyToIssue speculative storeEntries predicted).unit.entries
      seqNum = { run.unit.entries seqNum with dependInsts := dependInsts } := by
  have entries := place_entries run.unit inst readyToIssue storeEntries seqNum
  rw [if_neg older] at entries
  split at entries
  · exact ⟨_, entries⟩
  · exact ⟨(run.unit.entries seqNum).dependInsts, entries⟩

theorem placed_newest :
    (run.placed inst readyToIssue speculative storeEntries predicted).unit.entries inst.seqNum =
      { inst := inst, regsReady := readyToIssue, memDeps := storeEntries.length } :=
  (place_entries run.unit inst readyToIssue storeEntries inst.seqNum).trans (if_pos rfl)

/-- The barriers of a kind, and the instructions that wait for them. -/
theorem Inv.placed_waits (inv : run.Inv) (youngest : run.isYoungest inst = true)
    (waits : MemInst → Bool) {barriers : List Nat} {isBarrier : Bool} {barrier : Nat}
    (hash : barriers ⊆ run.unit.memDepHash)
    (listed : ∀ seqNum ∈ run.speculative, waits (run.unit.entries seqNum).inst = true →
      ∀ barrier ∈ barriers, barrier < seqNum → seqNum ∈ (run.unit.entries barrier).dependInsts)
    (waited : speculative = true → waits inst = true → barriers ⊆ storeEntries)
    (outstanding : barrier ∈ barriers ∨ isBarrier = true ∧ barrier = inst.seqNum)
    (spec : seqNum ∈ (run.placed inst readyToIssue speculative storeEntries predicted).speculative)
    (waiting : waits ((run.placed inst readyToIssue speculative storeEntries
      predicted).unit.entries seqNum).inst = true) (below : barrier < seqNum) :
    seqNum ∈ ((run.placed inst readyToIssue speculative storeEntries predicted).unit.entries
      barrier).dependInsts := by
  have depends (member : barrier ∈ run.unit.memDepHash) :
      ((run.placed inst readyToIssue speculative storeEntries predicted).unit.entries
        barrier).dependInsts = (run.unit.entries barrier).dependInsts ++
        if barrier ∈ storeEntries then [inst.seqNum] else [] :=
    place_dependInsts (inv.older youngest) member
  rcases mem_placed_speculative spec with before | ⟨yes, rfl⟩
  · have known := known_lt youngest (inv.speculated seqNum before)
    obtain ⟨_, same⟩ := placed_entry (Nat.ne_of_lt known)
    rw [same] at waiting
    have outstanding := outstanding.resolve_right fun new => Nat.lt_asymm below (new.2 ▸ known)
    refine depends (hash outstanding) ▸ mem_append_left _ ?_
    exact listed seqNum before waiting barrier outstanding below
  · rw [placed_newest] at waiting
    have outstanding := outstanding.resolve_right fun new => Nat.ne_of_lt below new.2
    refine depends (hash outstanding) ▸ mem_append_right _ ?_
    rw [if_pos (waited yes waiting outstanding)]
    exact mem_singleton.mpr rfl

theorem Inv.placed (inv : run.Inv) (youngest : run.isYoungest inst = true)
    (waits : run.Waits inst speculative storeEntries)
    (told : ∀ store ∈ predicted, store = inst.seqNum ∧ (inst.isStore || inst.isAtomic) = true) :
    (run.placed inst readyToIssue speculative storeEntries predicted).Inv := by
  have older := inv.older youngest
  have different : ∀ {other}, run.Known other → other ≠ inst.seqNum := fun known =>
    Nat.ne_of_lt (known_lt youngest known)
  have depends : ∀ {producer}, producer ∈ run.unit.memDepHash →
      ((run.placed inst readyToIssue speculative storeEntries predicted).unit.entries
        producer).dependInsts = (run.unit.entries producer).dependInsts ++
        if producer ∈ storeEntries then [inst.seqNum] else [] :=
    fun member => place_dependInsts older member
  have shape : (run.unit.place inst readyToIssue storeEntries).Shape :=
    inv.shape.place older readyToIssue waits.distinct waits.inside waits.wakers
  have entry : ∀ {other}, run.Known other → ∃ dependInsts,
      (run.placed inst readyToIssue speculative storeEntries predicted).unit.entries other =
        { run.unit.entries other with dependInsts := dependInsts } :=
    fun known => placed_entry (different known)
  refine
    { shape := { shape with }
      record := ?_, hash := ?_, dependents := ?_, predicted := ?_, ready := ?_, speculated := ?_
      departed := ?_, resolved := ?_, moved := ?_, loadsWait := ?_
      storesWait := ?_ }
  · intro old member
    rcases mem_append.mp member with before | here
    · obtain ⟨_, same⟩ := entry ⟨old, before, rfl⟩
      rw [same]
      exact inv.record old before
    · rw [mem_singleton.mp here, placed_newest]
  · intro other member
    rw [placed_known]
    exact (mem_cons.mp member).symm.imp_left (inv.hash other)
  · intro producer member other inside
    rw [placed_known]
    rcases mem_cons.mp member with rfl | before
    · rw [placed_newest] at inside
      cases inside
    · rw [depends before] at inside
      rcases mem_append.mp inside with old | added
      · exact .inl (inv.dependents producer before other old)
      · split at added
        · exact .inr (mem_singleton.mp added)
        · cases added
  · intro other member
    rw [placed_known]
    rcases mem_append.mp member with before | here
    · obtain ⟨known, store⟩ := inv.predicted other before
      obtain ⟨_, same⟩ := entry known
      rw [same]
      exact ⟨.inl known, store⟩
    · obtain ⟨rfl, store⟩ := told other here
      rw [placed_newest]
      exact ⟨.inr rfl, store⟩
  · intro other member
    rw [placed_known]
    exact (mem_placed_ready member).imp (inv.ready other) And.right
  · intro other member
    rw [placed_known]
    exact (mem_placed_speculative member).imp (inv.speculated other) And.right
  · intro old member
    rcases mem_append.mp member with before | here
    · exact (inv.departed old before).imp_left (mem_cons_of_mem _)
    · rw [mem_singleton.mp here]
      exact .inl mem_cons_self
  · intro other member spec
    rcases mem_placed_ready member with before | ⟨empty, rfl⟩
    · have known := inv.ready other before
      obtain ⟨_, same⟩ := entry known
      rw [same]
      refine inv.resolved other before ?_
      exact (mem_placed_speculative spec).resolve_right fun new => different known new.2
    · rw [placed_newest, empty]
      rfl
  · intro other member regsReady noDeps
    rcases mem_cons.mp member with rfl | before
    · rw [placed_newest] at regsReady noDeps
      have empty : storeEntries = [] :=
        eq_nil_of_length_eq_zero (Int.natCast_eq_zero.mp noDeps)
      have ready : readyToIssue = true := regsReady
      refine mem_released_append.mpr (.inr ?_)
      simp [empty, ready]
    · have known := inv.hash other before
      obtain ⟨_, same⟩ := entry known
      rw [same] at regsReady noDeps
      exact mem_released_append.mpr (.inl (inv.moved other before regsReady noDeps))
  · intro other spec load barrier outstanding below
    exact inv.placed_waits youngest (fun inst => inst.isLoad || inst.isAtomic)
      (fun barrier member => ((inv.shape.loadBarriers barrier).mp member).1) inv.loadsWait
      waits.loads ((place_loadBarrierSNs _ _ _ _ _).mp outstanding) spec load below
  · intro other spec waiting barrier outstanding below
    exact inv.placed_waits youngest plainStore
      (fun barrier member => ((inv.shape.storeBarriers barrier).mp member).1) inv.storesWait
      waits.stores ((place_storeBarrierSNs _ _ _ _ _).mp outstanding) spec waiting below

end Placed

theorem hasDependents_of_loadBarrier (barrier : inst.isLoadBarrier = true) :
    inst.hasDependents = true := by
  rcases Bool.or_eq_true_iff.mp barrier with read | htm
  · simp [MemInst.hasDependents, read]
  · simp [MemInst.hasDependents, htm]

theorem hasDependents_of_storeBarrier (barrier : inst.isStoreBarrier = true) :
    inst.hasDependents = true := by
  rcases Bool.or_eq_true_iff.mp barrier with write | htm
  · simp [MemInst.hasDependents, write]
  · simp [MemInst.hasDependents, htm]

theorem hasDependents_of_store (store : (inst.isStore || inst.isAtomic) = true) :
    inst.hasDependents = true := by
  simp [MemInst.hasDependents, store]

/-- The producing stores are barriers of one kind or the store that the predictor names. -/
theorem producingStores_cases (unit : MemDepUnit) (inst : MemInst) (dep : Option Nat) :
    (unit.producingStores inst dep = unit.loadBarrierSNs ∧
        (inst.isLoad || inst.isAtomic) = true ∧ unit.loadBarrierSNs.isEmpty = false) ∨
      (unit.producingStores inst dep = unit.storeBarrierSNs ∧
        ((inst.isLoad || inst.isAtomic) = true → unit.loadBarrierSNs = [])) ∨
      (unit.producingStores inst dep = dep.toList ∧
        ((inst.isLoad || inst.isAtomic) = true → unit.loadBarrierSNs = []) ∧
        ((inst.isStore || inst.isAtomic) = true → unit.storeBarrierSNs = [])) := by
  unfold producingStores
  split
  case isTrue both =>
    obtain ⟨load, occupied⟩ := Bool.and_eq_true_iff.mp both
    exact .inl ⟨rfl, load, by simpa using occupied⟩
  case isFalse noLoads =>
    have empty : (inst.isLoad || inst.isAtomic) = true → unit.loadBarrierSNs = [] := by
      intro load
      simpa [load] using noLoads
    split
    · exact .inr (.inl ⟨rfl, empty⟩)
    case isFalse noStores =>
      refine .inr (.inr ⟨rfl, empty, fun store => ?_⟩)
      simpa [store] using noStores

variable {dep : Option Nat}

theorem Inv.producing (inv : run.Inv) (inst : MemInst)
    (named : dep.all (· ∈ run.unit.depPredStores) = true) :
    (run.unit.producingStores inst dep).Nodup ∧
      ∀ store ∈ run.unit.producingStores inst dep, run.Known store ∧
        (run.unit.entries store).inst.hasDependents = true := by
  rcases producingStores_cases run.unit inst dep with
    ⟨same, _⟩ | ⟨same, _⟩ | ⟨same, _⟩
  · rw [same]
    refine ⟨inv.shape.loadNodup, fun store member => ?_⟩
    obtain ⟨inside, barrier⟩ := (inv.shape.loadBarriers store).mp member
    exact ⟨inv.hash store inside, hasDependents_of_loadBarrier barrier⟩
  · rw [same]
    refine ⟨inv.shape.storeNodup, fun store member => ?_⟩
    obtain ⟨inside, barrier⟩ := (inv.shape.storeBarriers store).mp member
    exact ⟨inv.hash store inside, hasDependents_of_storeBarrier barrier⟩
  · rw [same]
    cases dep with
    | none => exact ⟨nodup_nil, fun store member => absurd member not_mem_nil⟩
    | some store =>
      refine ⟨nodup_singleton store, fun other member => ?_⟩
      obtain rfl := mem_singleton.mp member
      obtain ⟨known, isStore⟩ := inv.predicted other (of_decide_eq_true named)
      exact ⟨known, hasDependents_of_store isStore⟩

variable {unit after : MemDepUnit}

theorem plainStore_waits (plain : plainStore inst = true) :
    unit.storeBarrierSNs ⊆ unit.producingStores inst dep := by
  obtain ⟨store, notLoad⟩ := Bool.and_eq_true_iff.mp plain
  intro barrier outstanding
  rcases producingStores_cases unit inst dep with ⟨_, load, _⟩ | ⟨same, _⟩ | ⟨_, _, empty⟩
  · rw [load] at notLoad
    exact absurd notLoad (by decide)
  · rwa [same]
  · rw [empty (by simp [store])] at outstanding
    cases outstanding

theorem Inv.waitsFor (inv : run.Inv) (named : dep.all (· ∈ run.unit.depPredStores) = true) :
    run.Waits inst true (run.unit.waitsFor inst dep) := by
  have producing := inv.producing inst named
  refine ⟨producing.1.filter _, ?_, ?_, ?_, ?_⟩
  · intro store member
    exact of_decide_eq_true (mem_filter.mp member).2
  · intro store member
    exact (producing.2 store (mem_filter.mp member).1).2
  · intro _ load barrier outstanding
    have inside := ((inv.shape.loadBarriers barrier).mp outstanding).1
    refine mem_filter.mpr ⟨?_, decide_eq_true inside⟩
    rcases producingStores_cases run.unit inst dep with ⟨same, _⟩ | ⟨_, empty⟩ | ⟨_, empty, _⟩
    · rwa [same]
    · rw [empty load] at outstanding
      cases outstanding
    · rw [empty load] at outstanding
      cases outstanding
  · intro _ waiting barrier outstanding
    have inside := ((inv.shape.storeBarriers barrier).mp outstanding).1
    exact mem_filter.mpr ⟨plainStore_waits waiting outstanding, decide_eq_true inside⟩

theorem waits_nonSpec (run : Run) (inst : MemInst) : run.Waits inst false [] where
  distinct := nodup_nil
  inside := nil_subset _
  wakers := fun _ member => absurd member not_mem_nil
  loads := fun spec => absurd spec Bool.false_ne_true
  stores := fun spec => absurd spec Bool.false_ne_true

/-! ## Ready instructions -/

theorem Inv.readied (inv : run.Inv) {regsReady : Nat → Bool} {moved : List Nat}
    (fresh : ∀ other ∈ moved, run.Known other ∧
      (other ∈ run.speculative → (run.unit.entries other).memDeps = 0))
    (complete : ∀ other ∈ run.unit.memDepHash, regsReady other = true →
      (run.unit.entries other).memDeps = 0 →
        (run.unit.entries other).regsReady = true ∨ other ∈ moved) :
    Inv { run with unit := { run.unit with
      entries := fun other => { run.unit.entries other with regsReady := regsReady other }
      readyList := run.unit.readyList ++ moved } } := by
  refine { inv with shape := { inv.shape with }, ready := ?_, resolved := ?_, moved := ?_ }
  · intro other member
    rcases mem_released_append.mp member with before | here
    · exact inv.ready other before
    · exact (fresh other here).1
  · intro other member spec
    rcases mem_released_append.mp member with before | here
    · exact inv.resolved other before spec
    · exact (fresh other here).2 spec
  · intro other member ready noDeps
    refine mem_released_append.mpr ((complete other member ready noDeps).imp_left fun before => ?_)
    exact inv.moved other member before noDeps

/-- The released instructions change their places only. -/
theorem Inv.rearranged (inv : run.Inv) {readyList issued instsToReplay : List Nat}
    (same : ∀ other, other ∈ readyList ++ (issued ++ instsToReplay) ↔ other ∈ run.released) :
    Inv { run with
      issued := issued
      unit := { run.unit with readyList := readyList, instsToReplay := instsToReplay } } :=
  { inv with
    shape := { inv.shape with }
    ready := fun other member => inv.ready other ((same other).mp member)
    resolved := fun other member => inv.resolved other ((same other).mp member)
    moved := fun other member regsReady noDeps =>
      (same other).mpr (inv.moved other member regsReady noDeps) }

/-! ## Completion and squash -/

theorem Inv.finished (inv : run.Inv) (member : seqNum ∈ run.unit.memDepHash) :
    Inv { run with
      completed := run.completed ++ [seqNum], unit := run.unit.finish seqNum } := by
  have shape := inv.shape.finish member
  obtain ⟨dependInsts, kept, same⟩ := finish_eq inv.shape member
  rw [same] at shape ⊢
  have left : ∀ {list : List Nat} {other}, other ∈ list.filter (· ≠ seqNum) →
      other ∈ list ∧ ∀ {waiting}, waiting ∈ dependInsts other ↔
        waiting ∈ (run.unit.entries other).dependInsts := by
    intro list other inside
    obtain ⟨inside, different⟩ := mem_filter.mp inside
    exact ⟨inside, by rw [kept other (of_decide_eq_true different)]⟩
  refine
    { inv with
      shape := shape
      hash := fun other inside => inv.hash other (left inside).1
      dependents := fun producer inside other depends =>
        inv.dependents producer (left inside).1 other ((left inside).2.mp depends)
      ready := ?_, departed := ?_, resolved := ?_, moved := ?_
      loadsWait := fun other spec load barrier outstanding below => (left outstanding).2.mpr
        (inv.loadsWait other spec load barrier (left outstanding).1 below)
      storesWait := fun other spec waiting barrier outstanding below => (left outstanding).2.mpr
        (inv.storesWait other spec waiting barrier (left outstanding).1 below) }
  · intro other inside
    rcases mem_released_append.mp inside with before | woken
    · exact inv.ready other before
    · exact inv.dependents seqNum member other (mem_filter.mp woken).1
  · intro old before
    rcases inv.departed old before with inside | gone
    · by_cases here : old.seqNum = seqNum
      · exact .inr (.inl (mem_append_right _ (mem_singleton.mpr here)))
      · exact .inl (mem_filter.mpr ⟨inside, decide_eq_true here⟩)
    · exact .inr (gone.imp_left (mem_append_left _))
  · intro other inside spec
    simp only
    rcases mem_released_append.mp inside with before | woken
    · have resolved := inv.resolved other before spec
      have outside : other ∉ (run.unit.entries seqNum).dependInsts := fun depends =>
        Int.ne_of_gt (inv.shape.positive member other depends) resolved
      rw [if_neg outside]
      omega
    · obtain ⟨depends, last⟩ := mem_filter.mp woken
      simp only [Bool.and_eq_true, decide_eq_true_eq] at last
      rw [if_pos depends]
      omega
  · intro other inside regsReady noDeps
    have inside := (left inside).1
    simp only at regsReady noDeps
    by_cases depends : other ∈ (run.unit.entries seqNum).dependInsts
    · rw [if_pos depends] at noDeps
      refine mem_released_append.mpr (.inr (mem_filter.mpr ⟨depends, ?_⟩))
      have last : (run.unit.entries other).memDeps = 1 := by omega
      simp [last, regsReady, inv.shape.unsquashed other inside]
    · rw [if_neg depends] at noDeps
      refine mem_released_append.mpr (.inl (inv.moved other inside regsReady ?_))
      omega

theorem Inv.squashedYounger (inv : run.Inv) (squashedNum : Nat) :
    Inv { run with
      squashed := run.squashed ++ (run.inserted.map MemInst.seqNum).filter (squashedNum < ·)
      unit := { run.unit.removeYounger squashedNum with
        instsToReplay := run.unit.instsToReplay.filter (· ≤ squashedNum) } } := by
  have shape := inv.shape.removeYounger squashedNum
  obtain ⟨squashed, _, same⟩ := removeYounger_eq run.unit squashedNum
  rw [same] at shape ⊢
  have fewer : ∀ {other}, other ∈ run.unit.readyList ++ (run.issued ++
      run.unit.instsToReplay.filter (· ≤ squashedNum)) → other ∈ run.released := fun member =>
    (((filter_sublist).append_left _).append_left _).subset member
  refine
    { inv with
      shape := { shape with }
      hash := fun other inside => inv.hash other (mem_filter.mp inside).1
      dependents := fun producer inside => inv.dependents producer (mem_filter.mp inside).1
      departed := ?_
      ready := fun other member => inv.ready other (fewer member)
      resolved := fun other member => inv.resolved other (fewer member)
      moved := ?_
      loadsWait := fun other spec load barrier outstanding =>
        inv.loadsWait other spec load barrier (mem_filter.mp outstanding).1
      storesWait := fun other spec waiting barrier outstanding =>
        inv.storesWait other spec waiting barrier (mem_filter.mp outstanding).1 }
  · intro old before
    rcases inv.departed old before with inside | completed | squashed
    · rcases Nat.lt_or_ge squashedNum old.seqNum with younger | older
      · refine .inr (.inr (mem_append_right _ ?_))
        exact mem_filter.mpr ⟨mem_map_of_mem before, decide_eq_true younger⟩
      · exact .inl (mem_filter.mpr ⟨inside, decide_eq_true older⟩)
    · exact .inr (.inl completed)
    · exact .inr (.inr (mem_append_left _ squashed))
  · -- What stays in the hash is old enough to stay on the list of replays.
    intro other inside regsReady noDeps
    obtain ⟨inside, older⟩ := mem_filter.mp inside
    have before := inv.moved other inside regsReady noDeps
    simp only [released, mem_append] at before ⊢
    exact before.imp_right (Or.imp_right fun waiting => mem_filter.mpr ⟨waiting, older⟩)

/-! ## Runs -/

theorem moveToReady_ok (moved : unit.moveToReady seqNum = .ok after) :
    after = { unit with readyList := unit.readyList ++ [seqNum] } := by
  unfold moveToReady at moved
  split at moved
  · cases moved
  · exact (Except.ok.inj moved).symm

theorem replayLoop_ok {waiting : List Nat} (replayed : unit.replayLoop waiting = .ok after) :
    after = { unit with
      readyList := unit.readyList ++ waiting
      instsToReplay := if waiting.isEmpty then unit.instsToReplay else [] } := by
  induction waiting generalizing unit with
  | nil =>
    obtain rfl := Except.ok.inj replayed
    simp
  | cons first rest ih =>
    unfold replayLoop at replayed
    split at replayed
    · split at replayed
      · cases replayed
      case h_2 moved done =>
        have later := ih replayed
        rw [moveToReady_ok done] at later
        rw [later]
        cases rest with
        | nil => simp
        | cons second others => simp
    · cases replayed

theorem withUnit_some {result : Except MemDep.Failure MemDepUnit}
    (stepped : run.withUnit result = some next) :
    ∃ unit, result = .ok unit ∧ next = { run with unit := unit } := by
  cases result with
  | error failure => cases stepped
  | ok unit => exact ⟨unit, rfl, (Option.some.inj stepped).symm⟩

theorem completeInst_refused (outside : seqNum ∉ unit.memDepHash) :
    unit.completeInst seqNum = .error .notInHash := by
  have woken : unit.wakeDependents seqNum = .ok unit ∨
      unit.wakeDependents seqNum = .error .notInHash := by
    unfold wakeDependents
    split
    · exact .inr rfl
    · exact .inl rfl
  have refused : unit.completed seqNum = .error .notInHash := if_neg outside
  rcases woken with same | failed
  · simp only [completeInst, same, refused, bind, Except.bind]
  · simp only [completeInst, failed, bind, Except.bind]

theorem completeInst_member
    (completed : unit.completeInst seqNum = .ok after) : seqNum ∈ unit.memDepHash := by
  by_cases inside : seqNum ∈ unit.memDepHash
  · exact inside
  · cases completed.symm.trans (completeInst_refused inside)

theorem placed_nonSpec (run : Run) (inst : MemInst) (predicted : List Nat) :
    run.placed inst false false [] predicted = { run with
      inserted := run.inserted ++ [inst]
      unit := { run.unit.place inst false [] with
        depPredStores := run.unit.depPredStores ++ predicted } } := by
  simp only [placed, Bool.and_false, Bool.false_eq_true, ↓reduceIte, append_nil]
  rfl

theorem Inv.insert (inv : run.Inv) {readyToIssue : Bool}
    (stepped : run.step (.insert inst readyToIssue dep) = some next) : next.Inv := by
  obtain ⟨condition, stepped⟩ := Option.ite_none_right_eq_some.mp stepped
  obtain ⟨youngest, named⟩ := Bool.and_eq_true_iff.mp condition
  obtain ⟨unit, inserted, rfl⟩ := withUnit_some stepped
  have before : ∀ store ∈ run.unit.producingStores inst dep, store ≠ inst.seqNum :=
    fun store member => Nat.ne_of_lt
      (known_lt youngest ((inv.producing inst named).2 store member).1)
  have placed : (run.placed inst readyToIssue true (run.unit.waitsFor inst dep)
      (if inst.isStore || inst.isAtomic then [inst.seqNum] else [])).Inv := by
    refine inv.placed youngest (inv.waitsFor named) fun store told => ?_
    split at told
    case isTrue isStore => exact ⟨mem_singleton.mp told, isStore⟩
    case isFalse => cases told
  rw [insert_ok (inv.older youngest) before inserted]
  exact placed

theorem Inv.insertNonSpec (inv : run.Inv)
    (stepped : run.step (.insertNonSpec inst) = some next) : next.Inv := by
  obtain ⟨youngest, stepped⟩ := Option.ite_none_right_eq_some.mp stepped
  obtain ⟨unit, inserted, rfl⟩ := withUnit_some stepped
  have placed : (run.placed inst false false []
      (if inst.isStore || inst.isAtomic then [inst.seqNum] else [])).Inv := by
    refine inv.placed youngest (waits_nonSpec run inst) fun store told => ?_
    split at told
    case isTrue isStore => exact ⟨mem_singleton.mp told, isStore⟩
    case isFalse => cases told
  rw [insertNonSpec_ok (inv.older youngest) inserted]
  rwa [placed_nonSpec] at placed

theorem Inv.insertBarrier (inv : run.Inv)
    (stepped : run.step (.insertBarrier inst) = some next) : next.Inv := by
  obtain ⟨youngest, stepped⟩ := Option.ite_none_right_eq_some.mp stepped
  obtain rfl := Option.some.inj stepped
  have placed : (run.placed inst false false [] []).Inv :=
    inv.placed youngest (waits_nonSpec run inst) fun _ told => absurd told not_mem_nil
  rw [insertBarrier_eq (inv.older youngest)]
  rw [placed_nonSpec, append_nil] at placed
  exact placed

theorem regsReady_ok (marked : unit.regsReady seqNum = .ok after) :
    seqNum ∈ unit.memDepHash ∧ after = { unit with
      entries := fun other => { unit.entries other with
        regsReady := decide (other = seqNum) || (unit.entries other).regsReady }
      readyList := unit.readyList ++
        if (unit.entries seqNum).memDeps = 0 then [seqNum] else [] } := by
  have deps : ((unit.setEntry seqNum { unit.entries seqNum with regsReady := true }).entries
      seqNum).memDeps = (unit.entries seqNum).memDeps := by
    simp [setEntry]
  have entries : (fun other => { unit.entries other with
      regsReady := decide (other = seqNum) || (unit.entries other).regsReady }) =
      update unit.entries seqNum { unit.entries seqNum with regsReady := true } := by
    funext other
    by_cases here : other = seqNum
    · subst here
      simp
    · simp [here]
  rw [entries]
  unfold regsReady at marked
  simp only [deps] at marked
  split at marked
  case isFalse => cases marked
  case isTrue member =>
    refine ⟨member, ?_⟩
    split at marked
    case isTrue noDeps =>
      rw [if_pos noDeps]
      exact moveToReady_ok marked
    case isFalse waiting =>
      rw [if_neg waiting, append_nil]
      exact (Except.ok.inj marked).symm

section

variable (inv : run.Inv)
include inv

theorem Inv.regsReady
    (stepped : run.step (.regsReady seqNum) = some next) : next.Inv := by
  obtain ⟨unit, marked, rfl⟩ := withUnit_some stepped
  obtain ⟨member, rfl⟩ := regsReady_ok marked
  refine inv.readied ?_ ?_
  · intro other moved
    split at moved
    case isTrue noDeps =>
      rw [mem_singleton.mp moved]
      exact ⟨inv.hash seqNum member, fun _ => noDeps⟩
    case isFalse => cases moved
  · intro other _ regsReady noDeps
    by_cases here : other = seqNum
    · subst here
      rw [if_pos noDeps]
      exact .inr (mem_singleton.mpr rfl)
    · exact .inl (by simpa [here] using regsReady)

theorem Inv.nonSpecInstReady
    (stepped : run.step (.nonSpecInstReady seqNum) = some next) : next.Inv := by
  obtain ⟨nonSpec, stepped⟩ := Option.ite_none_left_eq_some.mp stepped
  obtain ⟨unit, moved, rfl⟩ := withUnit_some stepped
  unfold nonSpecInstReady at moved
  split at moved
  case isFalse => cases moved
  case isTrue member =>
    rw [moveToReady_ok moved]
    refine inv.readied ?_ (fun _ _ regsReady _ => .inl regsReady)
    intro other here
    rw [mem_singleton.mp here]
    exact ⟨inv.hash seqNum member, fun spec => absurd spec nonSpec⟩

theorem Inv.issue (stepped : run.step (.issue seqNum) = some next) :
    next.Inv := by
  obtain ⟨ready, stepped⟩ := Option.ite_none_right_eq_some.mp stepped
  obtain rfl := Option.some.inj stepped
  refine inv.rearranged fun other => ?_
  simp only [released, mem_append, mem_singleton]
  by_cases here : other = seqNum
  · simp [here, ready]
  · simp [here, mem_erase_of_ne here]

theorem Inv.reschedule
    (stepped : run.step (.reschedule seqNum) = some next) : next.Inv := by
  obtain ⟨issued, stepped⟩ := Option.ite_none_right_eq_some.mp stepped
  obtain rfl := Option.some.inj stepped
  refine inv.rearranged fun other => ?_
  simp only [released, mem_append, mem_singleton]
  by_cases here : other = seqNum
  · simp [here, issued]
  · simp [here, mem_erase_of_ne here]

theorem Inv.replay (stepped : run.step .replay = some next) : next.Inv := by
  obtain ⟨unit, replayed, rfl⟩ := withUnit_some stepped
  rw [replayLoop_ok replayed]
  refine inv.rearranged fun other => ?_
  rw [released]
  cases run.unit.instsToReplay with
  | nil => simp
  | cons first rest => simp only [isEmpty_cons, mem_append]; grind

theorem Inv.completeInst
    (stepped : run.step (.completeInst seqNum) = some next) : next.Inv := by
  obtain ⟨unit, completed, rfl⟩ := withUnit_some stepped
  have member := completeInst_member completed
  have same := completed.symm.trans (completeInst_eq inv.shape member)
  obtain rfl := Except.ok.inj same
  exact inv.finished member

theorem Inv.squash {squashedNum : Nat}
    (stepped : run.step (.squash squashedNum) = some next) : next.Inv := by
  obtain ⟨unit, squashed, rfl⟩ := withUnit_some stepped
  have same := squashed.symm.trans (squash_eq inv.shape squashedNum)
  obtain rfl := Except.ok.inj same
  exact inv.squashedYounger squashedNum

end

theorem initial_inv : Inv {} where
  shape :=
    { hashNodup := nodup_nil, listed := by simp, ordered := .nil, named := by simp
      unsquashed := by simp
      loadNodup := nodup_nil
      loadBarriers := by simp
      storeNodup := nodup_nil
      storeBarriers := by simp
      younger := by simp
      dependNodup := by simp
      wakers := by simp
      counted := by simp
      enough := by simp [producers] }
  record := by simp
  hash := by simp
  dependents := by simp
  predicted := by simp
  ready := by simp [released]
  speculated := by simp
  departed := by simp
  resolved := by simp [released]
  moved := by simp
  loadsWait := by simp
  storesWait := by simp

theorem step_inv {event : MemDepEvent} (inv : run.Inv)
    (stepped : run.step event = some next) : next.Inv := by
  cases event with
  | insert inst readyToIssue dep => exact inv.insert stepped
  | insertNonSpec inst => exact inv.insertNonSpec stepped
  | insertBarrier barrInst => exact inv.insertBarrier stepped
  | regsReady seqNum => exact inv.regsReady stepped
  | nonSpecInstReady seqNum => exact inv.nonSpecInstReady stepped
  | issue seqNum => exact inv.issue stepped
  | reschedule seqNum => exact inv.reschedule stepped
  | replay => exact inv.replay stepped
  | completeInst seqNum => exact inv.completeInst stepped
  | squash squashedNum => exact inv.squash stepped

theorem reachable_inv {allowed : Run → MemDepEvent → Bool}
    (reached : Reaches step allowed {} run) : run.Inv :=
  reached.invariant initial_inv fun inv _ stepped => step_inv inv stepped

/-- A ready instruction is on no list, so no barrier that it waits for is outstanding. -/
theorem Inv.not_waiting (inv : run.Inv) (spec : seqNum ∈ run.speculative)
    (ready : seqNum ∈ run.released) {producer : Nat}
    (member : producer ∈ run.unit.memDepHash) :
    seqNum ∉ (run.unit.entries producer).dependInsts := by
  intro depends
  exact Int.ne_of_gt (inv.shape.positive member seqNum depends) (inv.resolved seqNum ready spec)

variable {barrier : MemInst}

theorem Inv.ordered (inv : run.Inv) (inserted : inst ∈ run.inserted)
    (spec : inst.seqNum ∈ run.speculative) (ready : inst.seqNum ∈ run.released)
    (before : barrier ∈ run.inserted) (older : barrier.seqNum < inst.seqNum)
    (waits : (inst.isLoad || inst.isAtomic) = true ∧ barrier.isLoadBarrier = true ∨
      plainStore inst = true ∧ barrier.isStoreBarrier = true) :
    barrier.seqNum ∈ run.completed ∨ barrier.seqNum ∈ run.squashed := by
  refine (inv.departed barrier before).resolve_left fun member => ?_
  refine inv.not_waiting spec ready member ?_
  rcases waits with ⟨load, isBarrier⟩ | ⟨store, isBarrier⟩
  · refine inv.loadsWait _ spec (by rwa [inv.record inst inserted]) _ ?_ older
    exact (inv.shape.loadBarriers _).mpr ⟨member, by rwa [inv.record barrier before]⟩
  · refine inv.storesWait _ spec (by rwa [inv.record inst inserted]) _ ?_ older
    exact (inv.shape.storeBarriers _).mpr ⟨member, by rwa [inv.record barrier before]⟩

theorem Inv.memDeps_nonneg (inv : run.Inv) (seqNum : Nat) :
    0 ≤ (run.unit.entries seqNum).memDeps := by
  have enough := inv.shape.enough seqNum
  omega

theorem Inv.completeInst_no_underflow (inv : run.Inv) (seqNum : Nat) :
    run.unit.completeInst seqNum ≠ .error .noDependences := by
  intro failed
  by_cases member : seqNum ∈ run.unit.memDepHash
  · cases failed.symm.trans (completeInst_eq inv.shape member)
  · cases failed.symm.trans (completeInst_refused member)

/-- An instruction that waits neither for registers nor for another instruction is on
the ready list, or has been taken from it. -/
theorem Inv.no_lost_wakeup (inv : run.Inv) (member : seqNum ∈ run.unit.memDepHash)
    (regsReady : (run.unit.entries seqNum).regsReady = true)
    (free : ∀ producer ∈ run.unit.memDepHash,
      seqNum ∉ (run.unit.entries producer).dependInsts) : seqNum ∈ run.released := by
  refine inv.moved seqNum member regsReady ?_
  have alone : run.unit.producers seqNum = 0 :=
    countP_eq_zero.mpr fun producer inside depends =>
      free producer inside (of_decide_eq_true depends)
  rw [inv.shape.counted seqNum member, alone]
  rfl

/-- In every run, loads and atomics wait for the older read barriers, and stores that
neither load nor are atomic for the older write barriers. -/
theorem barriers_order_any {allowed : Run → MemDepEvent → Bool} {barrier : MemInst}
    (reached : Reaches step allowed {} run) (inserted : inst ∈ run.inserted)
    (spec : inst.seqNum ∈ run.speculative) (ready : inst.seqNum ∈ run.released)
    (before : barrier ∈ run.inserted) (older : barrier.seqNum < inst.seqNum)
    (waits : (inst.isLoad || inst.isAtomic) = true ∧ barrier.isLoadBarrier = true ∨
      plainStore inst = true ∧ barrier.isStoreBarrier = true) :
    barrier.seqNum ∈ run.completed ∨ barrier.seqNum ∈ run.squashed :=
  (reachable_inv reached).ordered inserted spec ready before older waits

/-- What `dispatchInsts` sends to `insert`: atomics go to `insertNonSpec`, and no other
instruction both reads and writes memory. -/
def dispatched (_ : Run) : MemDepEvent → Bool
  | .insert inst _ _ => !inst.isAtomic && !(inst.isLoad && inst.isStore)
  | _ => true

/-- Only an insertion adds an instruction, and only `insert` a speculative one. -/
theorem step_inserted {event : MemDepEvent} (stepped : run.step event = some next) :
    next.inserted = run.inserted ∧ next.speculative = run.speculative ∨
      ∃ inst, run.isYoungest inst = true ∧ next.inserted = run.inserted ++ [inst] ∧
        (next.speculative = run.speculative ∨ next.speculative = run.speculative ++ [inst.seqNum] ∧
          ∃ readyToIssue dep, event = .insert inst readyToIssue dep) := by
  cases event with
  | insert inst readyToIssue dep =>
    obtain ⟨condition, stepped⟩ := Option.ite_none_right_eq_some.mp stepped
    obtain ⟨_, _, rfl⟩ := withUnit_some stepped
    exact .inr ⟨inst, (Bool.and_eq_true_iff.mp condition).1, rfl, .inr ⟨rfl, _, _, rfl⟩⟩
  | insertNonSpec inst =>
    obtain ⟨youngest, stepped⟩ := Option.ite_none_right_eq_some.mp stepped
    obtain ⟨_, _, rfl⟩ := withUnit_some stepped
    exact .inr ⟨inst, youngest, rfl, .inl rfl⟩
  | insertBarrier barrInst =>
    obtain ⟨youngest, stepped⟩ := Option.ite_none_right_eq_some.mp stepped
    obtain rfl := Option.some.inj stepped
    exact .inr ⟨barrInst, youngest, rfl, .inl rfl⟩
  | nonSpecInstReady seqNum =>
    obtain ⟨_, _, rfl⟩ := withUnit_some (Option.ite_none_left_eq_some.mp stepped).2
    exact .inl ⟨rfl, rfl⟩
  | issue seqNum | reschedule seqNum =>
    obtain rfl := Option.some.inj (Option.ite_none_right_eq_some.mp stepped).2
    exact .inl ⟨rfl, rfl⟩
  | regsReady seqNum | replay | completeInst seqNum | squash squashedNum =>
    obtain ⟨_, _, rfl⟩ := withUnit_some stepped
    exact .inl ⟨rfl, rfl⟩

theorem reachable_dispatched (reached : Reaches step dispatched {} run) :
    ∀ inst ∈ run.inserted, inst.seqNum ∈ run.speculative →
      inst.isAtomic = false ∧ (inst.isLoad = true → inst.isStore = false) := by
  induction reached with
  | refl => simp
  | @tail middle final event before allowed stepped ih =>
    rcases step_inserted stepped with ⟨same, spec⟩ | ⟨new, youngest, grown, spec⟩
    · rw [same, spec]
      exact ih
    intro inst member speculated
    rw [grown] at member
    rcases mem_append.mp member with old | here
    · have below := known_lt youngest ⟨inst, old, rfl⟩
      refine ih inst old ?_
      rcases spec with spec | ⟨spec, _⟩
      · rwa [spec] at speculated
      · rw [spec] at speculated
        refine (mem_append.mp speculated).resolve_right fun here => ?_
        exact Nat.ne_of_lt below (mem_singleton.mp here)
    · obtain rfl := mem_singleton.mp here
      rcases spec with spec | ⟨_, _, _, rfl⟩
      · rw [spec] at speculated
        have known := (reachable_inv before).speculated _ speculated
        exact absurd (known_lt youngest known) (Nat.lt_irrefl _)
      · simp only [dispatched, Bool.and_eq_true, Bool.not_eq_true'] at allowed
        exact ⟨allowed.1, fun load => by simpa [load] using allowed.2⟩

def readBarrier : MemInst := { seqNum := 1, isReadBarrier := true }
def writeBarrier : MemInst := { seqNum := 2, isWriteBarrier := true }
def youngLoad : MemInst := { seqNum := 3, isLoad := true }

theorem barriers_order_any_load :
    ∃ run : Run, 3 ∈ run.unit.readyList ∧ (1 ∈ run.completed ∨ 1 ∈ run.squashed) := by
  obtain ⟨run, reached, observed⟩ := reaches_of_observed step anyEvent {}
    [.insertBarrier readBarrier, .insert youngLoad true none, .completeInst 1]
    (fun run => decide (youngLoad ∈ run.inserted ∧ readBarrier ∈ run.inserted ∧
      3 ∈ run.speculative ∧ 3 ∈ run.unit.readyList)) (by decide +kernel)
  obtain ⟨inserted, before, spec, ready⟩ := of_decide_eq_true observed
  exact ⟨run, ready, barriers_order_any reached inserted spec (mem_append_left _ ready) before
    (by decide) (.inl (by decide))⟩

end Runahead.O3.MemDep.Run
