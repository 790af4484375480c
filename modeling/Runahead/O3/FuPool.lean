import Mathlib.Data.List.Nodup
import Mathlib.Data.List.Rotate
import Mathlib.Logic.Function.Basic
import Runahead.Library.Transition

/-!
# The pool of functional units

`RunaheadFUPool`, built from the descriptions of the units, and its use by
`scheduleReadyInsts`. For each operation class the units that provide it stand in a
circular queue whose position survives from one search to the next.
-/

set_option autoImplicit false

namespace Runahead.O3

open Library Function List

structure OpDesc (OpClass : Type) where
  opClass : OpClass
  opLat : Nat
  pipelined : Bool

structure FUDesc (OpClass : Type) where
  opDescList : List (OpDesc OpClass)
  number : Nat

structure FUIdxQueue where
  idx : Nat := 0
  funcUnitsIdx : List Nat := []

namespace FUIdxQueue

def addFU (queue : FUIdxQueue) (fuIdx : Nat) : FUIdxQueue :=
  { queue with funcUnitsIdx := queue.funcUnitsIdx ++ [fuIdx] }

def getFU (queue : FUIdxQueue) : Option (Nat × FUIdxQueue) :=
  queue.funcUnitsIdx[queue.idx]?.map fun retval =>
    (retval, { queue with
      idx := if queue.idx + 1 = queue.funcUnitsIdx.length then 0 else queue.idx + 1 })

def searchUnit (unitBusy : Nat → Bool) (startIdx : Nat) :
    Nat → Nat → FUIdxQueue → Option (Option Nat × FUIdxQueue)
  | 0, _, _ => none
  | iterations + 1, fuIdx, queue =>
    if unitBusy fuIdx then
      queue.getFU.bind fun (fuIdx, queue) =>
        if fuIdx = startIdx then some (none, queue)
        else searchUnit unitBusy startIdx iterations fuIdx queue
    else some (some fuIdx, queue)

end FUIdxQueue

inductive GetUnit where
  | noCapableFU | noFreeFU | unit (fuIdx : Nat)
  deriving DecidableEq

/-- Of a functional unit the pool's functions look at the capabilities only. -/
structure FUPool (OpClass : Type) where
  maxOpLatencies : OpClass → Nat := fun _ => 0
  pipelined : OpClass → Bool := fun _ => true
  capabilityList : OpClass → Bool := fun _ => false
  unitBusy : Nat → Bool := fun _ => false
  unitsToBeFreed : List Nat := []
  fuPerCapList : OpClass → FUIdxQueue := fun _ => {}
  numFU : Nat := 0
  funcUnits : List (OpClass → Bool) := []

variable {OpClass : Type} [DecidableEq OpClass]

namespace FUPool

def addOp (number : Nat) (pool : FUPool OpClass) (op : OpDesc OpClass) : FUPool OpClass :=
  { pool with
    capabilityList := update pool.capabilityList op.opClass true
    fuPerCapList := update pool.fuPerCapList op.opClass ((List.range number).foldl
      (fun queue unit => queue.addFU (pool.numFU + unit)) (pool.fuPerCapList op.opClass))
    maxOpLatencies :=
      if pool.maxOpLatencies op.opClass < op.opLat then
        update pool.maxOpLatencies op.opClass op.opLat
      else pool.maxOpLatencies
    pipelined := if op.pipelined then pool.pipelined else update pool.pipelined op.opClass false }

variable (pool : FUPool OpClass)

/-- `addCapability` panics if an operation takes no time. -/
def addDesc (desc : FUDesc OpClass) : Option (FUPool OpClass) :=
  if desc.number = 0 then some pool
  else if desc.opDescList.any (·.opLat == 0) then none
  else
    let pool := desc.opDescList.foldl (addOp desc.number) pool
    some { pool with
      numFU := pool.numFU + desc.number
      funcUnits := pool.funcUnits ++ List.replicate desc.number fun capability =>
        desc.opDescList.any (·.opClass = capability) }

def ofList (fuList : List (FUDesc OpClass)) : Option (FUPool OpClass) :=
  fuList.foldlM addDesc {}

def getUnit (capability : OpClass) : Option (GetUnit × FUPool OpClass) :=
  if pool.capabilityList capability then
    (pool.fuPerCapList capability).getFU.bind fun (startIdx, queue) =>
      (queue.searchUnit pool.unitBusy startIdx queue.funcUnitsIdx.length startIdx).bind
        fun (found, queue) =>
          let pool := { pool with fuPerCapList := update pool.fuPerCapList capability queue }
          match found with
          | none => some (.noFreeFU, pool)
          | some fuIdx =>
            if fuIdx < pool.numFU then
              some (.unit fuIdx, { pool with unitBusy := update pool.unitBusy fuIdx true })
            else none
  else some (.noCapableFU, pool)

def freeUnitNextCycle (fuIdx : Nat) : Option (FUPool OpClass) :=
  if pool.unitBusy fuIdx then
    some { pool with unitsToBeFreed := pool.unitsToBeFreed ++ [fuIdx] }
  else none

def freeUnit (unitBusy : Nat → Bool) (fuIdx : Nat) : Option (Nat → Bool) :=
  if unitBusy fuIdx then some (update unitBusy fuIdx false) else none

def processFreeUnits : Option (FUPool OpClass) :=
  (pool.unitsToBeFreed.reverse.foldlM freeUnit pool.unitBusy).map fun unitBusy =>
    { pool with unitBusy := unitBusy, unitsToBeFreed := [] }

def provides (fuIdx : Nat) (capability : OpClass) : Bool :=
  pool.funcUnits[fuIdx]?.any (· capability)

end FUPool

inductive FUEvent (OpClass : Type) where
  | schedule (opClass : OpClass)
  | complete (fuIdx : Nat)
  | processFreeUnits

/-- `executing` has the units that a completion event will free; `held` records the units
that were handed out and not freed since. -/
structure FURun (OpClass : Type) where
  pool : FUPool OpClass
  executing : List Nat := []
  held : List Nat := []

namespace FURun

/-- `scheduleReadyInsts` for an instruction of this class, and what becomes of its unit. -/
def schedule (run : FURun OpClass) (opClass : OpClass) : Option (FURun OpClass) :=
  (run.pool.getUnit opClass).bind fun (idx, pool) =>
    match idx with
    | .unit fuIdx =>
      let held := run.held ++ [fuIdx]
      if pool.maxOpLatencies opClass = 1 || pool.pipelined opClass then
        (pool.freeUnitNextCycle fuIdx).map fun pool =>
          { run with pool := pool, held := held }
      else
        some { run with pool := pool, held := held, executing := run.executing ++ [fuIdx] }
    | _ => some { run with pool := pool }

def step (run : FURun OpClass) : FUEvent OpClass → Option (FURun OpClass)
  | .schedule opClass => run.schedule opClass
  | .complete fuIdx =>
    if fuIdx ∈ run.executing then
      (run.pool.freeUnitNextCycle fuIdx).map fun pool =>
        { run with pool := pool, executing := run.executing.erase fuIdx }
    else none
  | .processFreeUnits =>
    run.pool.processFreeUnits.map fun pool =>
      { run with pool := pool, held := run.held.filter (· ∉ run.pool.unitsToBeFreed) }

end FURun

/-! ## The circular queue -/

namespace FUIdxQueue

variable {queue : FUIdxQueue} {unitBusy : Nat → Bool}

def upcoming (queue : FUIdxQueue) : List Nat :=
  queue.funcUnitsIdx.drop queue.idx ++ queue.funcUnitsIdx.take queue.idx

structure Turned (queue next : FUIdxQueue) : Prop where
  units : next.funcUnitsIdx = queue.funcUnitsIdx
  inside : next.idx < next.funcUnitsIdx.length

/-- The same units in the same order, over and over. -/
def Periodic (units : List Nat) : Prop :=
  ∃ block copies, block.Nodup ∧ units = (List.replicate copies block).flatten

theorem flatten_replicate_cons (first : Nat) (more : List Nat) (copies : Nat) :
    (List.replicate copies (first :: more)).flatten ++ [first] =
      first :: (List.replicate copies (more ++ [first])).flatten := by
  induction copies with
  | zero => rfl
  | succ copies ih =>
    rw [replicate_succ, flatten_cons, append_assoc, ih, replicate_succ, flatten_cons]
    simp

theorem Periodic.cons {first : Nat} {rest : List Nat} (periodic : Periodic (first :: rest)) :
    ∃ more copies, (first :: more).Nodup ∧
      rest = more ++ (List.replicate copies (first :: more)).flatten := by
  obtain ⟨block, copies, once, units⟩ := periodic
  cases copies with
  | zero => cases units
  | succ copies =>
    cases block with
    | nil => simp at units
    | cons head more =>
      obtain ⟨rfl, rfl⟩ := cons_eq_cons.mp units
      exact ⟨more, copies, once, rfl⟩

theorem Periodic.rotate {units : List Nat} (periodic : Periodic units) (turns : Nat) :
    Periodic (units.rotate turns) := by
  induction turns generalizing units with
  | zero => rwa [rotate_zero]
  | succ turns ih =>
    cases units with
    | nil => rwa [rotate_nil]
    | cons first rest =>
      obtain ⟨more, copies, once, rfl⟩ := periodic.cons
      rw [rotate_cons_succ]
      refine ih ⟨more ++ [first], copies + 1, (perm_append_singleton _ _).nodup_iff.mpr once, ?_⟩
      rw [append_assoc, flatten_replicate_cons, replicate_succ, flatten_cons]
      simp

theorem upcoming_perm (queue : FUIdxQueue) : queue.upcoming.Perm queue.funcUnitsIdx :=
  perm_append_comm.trans (.of_eq (take_append_drop _ _))

theorem getFU_eq {fuIdx : Nat} {rest : List Nat} (inside : queue.idx < queue.funcUnitsIdx.length)
    (upcoming : queue.upcoming = fuIdx :: rest) :
    ∃ next, queue.getFU = some (fuIdx, next) ∧ queue.Turned next ∧
      next.upcoming = rest ++ [fuIdx] := by
  unfold FUIdxQueue.upcoming at upcoming
  rw [drop_eq_getElem_cons inside, cons_append] at upcoming
  obtain ⟨rfl, rfl⟩ := cons_eq_cons.mp upcoming
  refine ⟨_, congrArg (Option.map _) (List.getElem?_eq_getElem inside), ⟨rfl, ?_⟩, ?_⟩
  · dsimp only
    split
    · exact Nat.zero_lt_of_lt inside
    · omega
  · have shown : queue.funcUnitsIdx.take (queue.idx + 1) =
        queue.funcUnitsIdx.take queue.idx ++ [queue.funcUnitsIdx[queue.idx]] :=
      take_succ_eq_append_getElem inside
    unfold FUIdxQueue.upcoming
    split
    · next last =>
      rw [last, take_length] at shown
      rw [drop_zero, take_zero, append_nil, last, drop_length, nil_append, ← shown]
    · rw [shown, append_assoc]

/-- The search goes on until it is back at the unit where it has started. -/
theorem searchUnit_spec {startIdx fuIdx iterations : Nat} {ahead passed : List Nat}
    (inside : queue.idx < queue.funcUnitsIdx.length)
    (upcoming : queue.upcoming = ahead ++ startIdx :: passed) (fresh : startIdx ∉ ahead)
    (enough : ahead.length < iterations) :
    ∃ found next, queue.searchUnit unitBusy startIdx iterations fuIdx = some (found, next) ∧
      queue.Turned next ∧
      (found = none → ∀ unit ∈ fuIdx :: ahead, unitBusy unit = true) ∧
      ∀ unit, found = some unit → unit ∈ fuIdx :: ahead ∧ unitBusy unit = false := by
  induction iterations generalizing queue fuIdx ahead passed with
  | zero => exact absurd enough (Nat.not_lt_zero _)
  | succ iterations ih =>
    rw [searchUnit]
    cases busy : unitBusy fuIdx with
    | false =>
      refine ⟨_, _, if_neg Bool.false_ne_true, ⟨rfl, inside⟩, (absurd · (by simp)), ?_⟩
      rintro _ ⟨rfl⟩
      exact ⟨mem_cons_self, busy⟩
    | true =>
      rw [if_pos rfl]
      cases ahead with
      | nil =>
        obtain ⟨next, got, turned, -⟩ := getFU_eq inside upcoming
        refine ⟨none, next, ?_, turned, ?_, by simp⟩
        · rw [got]
          exact if_pos rfl
        · intro _ unit member
          rwa [mem_singleton.mp member]
      | cons head ahead =>
        obtain ⟨different, fresh⟩ := not_or.mp (mt mem_cons.mpr fresh)
        rw [cons_append] at upcoming
        obtain ⟨middle, got, turned, upcoming⟩ := getFU_eq inside upcoming
        rw [append_assoc] at upcoming
        obtain ⟨found, next, searched, again, full, free⟩ := ih turned.inside upcoming fresh
          (Nat.lt_of_succ_lt_succ enough)
        refine ⟨found, next, ?_, ⟨again.units.trans turned.units, again.inside⟩, ?_, ?_⟩
        · rw [got]
          exact (if_neg (Ne.symm different)).trans searched
        · intro none
          exact forall_mem_cons.mpr ⟨busy, full none⟩
        · intro unit some
          exact (free unit some).imp_left (mem_cons_of_mem _)

end FUIdxQueue

/-! ## The pool -/

namespace FUPool

variable {pool next : FUPool OpClass} {capability : OpClass}

structure Listed (pool : FUPool OpClass) : Prop where
  numFU : pool.funcUnits.length = pool.numFU
  listed : ∀ capability fuIdx, fuIdx ∈ (pool.fuPerCapList capability).funcUnitsIdx ↔
    pool.provides fuIdx capability = true
  position : ∀ capability, (pool.fuPerCapList capability).idx = 0 ∨
    (pool.fuPerCapList capability).idx < (pool.fuPerCapList capability).funcUnitsIdx.length
  capable : ∀ capability, pool.capabilityList capability = true ↔
    (pool.fuPerCapList capability).funcUnitsIdx ≠ []

/-- And a search that comes back to a unit has seen all others. -/
structure Capable (pool : FUPool OpClass) : Prop extends Listed pool where
  periodic : ∀ capability, FUIdxQueue.Periodic (pool.fuPerCapList capability).funcUnitsIdx

omit [DecidableEq OpClass] in
theorem Listed.lt_numFU (capable : pool.Listed) {fuIdx : Nat}
    (provides : pool.provides fuIdx capability = true) : fuIdx < pool.numFU := by
  obtain ⟨unit, found, -⟩ := (Option.any_eq_true _ _).mp provides
  exact capable.numFU ▸ (List.getElem?_eq_some_iff.mp found).1

theorem addFUs_eq (base : Nat) (units : List Nat) (queue : FUIdxQueue) :
    units.foldl (fun queue unit => queue.addFU (base + unit)) queue =
      { queue with funcUnitsIdx := queue.funcUnitsIdx ++ units.map (base + ·) } := by
  induction units generalizing queue with
  | nil => rw [foldl_nil, map_nil, append_nil]
  | cons unit units ih =>
    rw [foldl_cons, ih, map_cons, FUIdxQueue.addFU, append_assoc]
    rfl

def named (ops : List (OpDesc OpClass)) (capability : OpClass) : Nat :=
  (ops.map OpDesc.opClass).count capability

variable (pool)

def newUnits (number : Nat) : List Nat :=
  (List.range number).map (pool.numFU + ·)

def addedUnits (number copies : Nat) : List Nat :=
  (List.replicate copies (pool.newUnits number)).flatten

omit [DecidableEq OpClass] in
theorem newUnits_nodup (number : Nat) : (pool.newUnits number).Nodup :=
  nodup_range.map fun _ _ => Nat.add_left_cancel

/-- What the operations of a description do. -/
theorem addOps_eq (number : Nat) (ops : List (OpDesc OpClass)) (pool : FUPool OpClass) :
    ∃ latencies pipelined, ops.foldl (addOp number) pool = { pool with
      maxOpLatencies := latencies
      pipelined := pipelined
      capabilityList := fun capability => pool.capabilityList capability ||
        decide (0 < named ops capability)
      fuPerCapList := fun capability =>
        { pool.fuPerCapList capability with
          funcUnitsIdx := (pool.fuPerCapList capability).funcUnitsIdx ++
            pool.addedUnits number (named ops capability) } } := by
  induction ops generalizing pool with
  | nil => exact ⟨pool.maxOpLatencies, pool.pipelined, by simp [named, addedUnits]⟩
  | cons op ops ih =>
    obtain ⟨latencies, pipelined, same⟩ := ih (addOp number pool op)
    refine ⟨latencies, pipelined, ?_⟩
    rw [foldl_cons, same]
    simp only [addOp, addFUs_eq, mk.injEq, true_and]
    constructor
    · funext capability
      by_cases here : capability = op.opClass
      · simp [here, named]
      · simp [here, named, count_cons_of_ne (Ne.symm here)]
    · refine ⟨?_, trivial⟩
      funext capability
      by_cases here : capability = op.opClass
      · simp [here, named, addedUnits, newUnits, replicate_succ]
      · simp [here, named, addedUnits, newUnits, count_cons_of_ne (Ne.symm here)]

omit [DecidableEq OpClass] in
theorem any_append_replicate (units : List (OpClass → Bool)) (provides : OpClass → Bool)
    (number fuIdx : Nat) :
    (units ++ List.replicate number provides)[fuIdx]?.any (· capability) = true ↔
      units[fuIdx]?.any (· capability) = true ∨
        fuIdx ∈ (List.range number).map (units.length + ·) ∧ provides capability = true := by
  have added : fuIdx ∈ (List.range number).map (units.length + ·) ↔
      units.length ≤ fuIdx ∧ fuIdx - units.length < number := by
    rw [mem_map]
    constructor
    · rintro ⟨unit, member, rfl⟩
      have := mem_range.mp member
      omega
    · intro bounds
      exact ⟨fuIdx - units.length, mem_range.mpr bounds.2, by omega⟩
  rw [added]
  by_cases before : fuIdx < units.length
  · rw [List.getElem?_append_left before]
    simp [Nat.not_le.mpr before]
  · have behind := Nat.le_of_not_lt before
    rw [List.getElem?_append_right behind, List.getElem?_replicate, List.getElem?_eq_none behind]
    split
    · next inside => simp [behind, inside]
    · next outside => simp [outside]

variable {desc : FUDesc OpClass} {pool}

/-- What the constructor does with a description. -/
theorem addDesc_cases (added : pool.addDesc desc = some next) :
    desc.number = 0 ∧ next = pool ∨
      desc.number ≠ 0 ∧ ∃ latencies pipelined, next = { pool with
        maxOpLatencies := latencies
        pipelined := pipelined
        capabilityList := fun capability => pool.capabilityList capability ||
          decide (0 < named desc.opDescList capability)
        fuPerCapList := fun capability =>
          { pool.fuPerCapList capability with
            funcUnitsIdx := (pool.fuPerCapList capability).funcUnitsIdx ++
              pool.addedUnits desc.number (named desc.opDescList capability) }
        numFU := pool.numFU + desc.number
        funcUnits := pool.funcUnits ++ List.replicate desc.number fun capability =>
          desc.opDescList.any (·.opClass = capability) } := by
  unfold addDesc at added
  split at added
  · next none =>
    cases added
    exact .inl ⟨none, rfl⟩
  · next some =>
    obtain ⟨-, added⟩ := Option.ite_none_left_eq_some.mp added
    obtain ⟨latencies, pipelined, same⟩ := addOps_eq desc.number desc.opDescList pool
    cases added
    rw [same]
    exact .inr ⟨some, latencies, pipelined, rfl⟩

omit [DecidableEq OpClass] in
theorem mem_addedUnits (pool : FUPool OpClass) {number copies fuIdx : Nat} :
    fuIdx ∈ pool.addedUnits number copies ↔
      0 < copies ∧ fuIdx ∈ pool.newUnits number := by
  simp [addedUnits, mem_flatten, mem_replicate, Nat.pos_iff_ne_zero]

theorem addDesc_listed (capable : pool.Listed) (added : pool.addDesc desc = some next) :
    next.Listed ∧ next.unitsToBeFreed = pool.unitsToBeFreed ∧
      next.unitBusy = pool.unitBusy := by
  rcases addDesc_cases added with ⟨-, rfl⟩ | ⟨some, latencies, pipelined, rfl⟩
  · exact ⟨capable, rfl, rfl⟩
  · have provided : ∀ capability, (desc.opDescList.any (·.opClass = capability)) = true ↔
        0 < named desc.opDescList capability := by simp [named, count_pos_iff]
    refine ⟨?_, rfl, rfl⟩
    constructor
    · rw [length_append, length_replicate, capable.numFU]
    all_goals
      intro capability
    · intro fuIdx
      rw [FUPool.provides, any_append_replicate, capable.numFU, provided, mem_append,
        mem_addedUnits, and_comm, capable.listed]
      rfl
    · refine (capable.position capability).imp_right fun inside => ?_
      exact Nat.lt_of_lt_of_le inside (by simp)
    · rw [Bool.or_eq_true, decide_eq_true_eq, capable.capable]
      refine Iff.trans (or_congr_right ⟨fun here => ?_, fun nonempty => ?_⟩)
        (not_and_or.symm.trans (not_congr append_eq_nil_iff.symm))
      · refine ne_nil_of_mem (pool.mem_addedUnits.mpr ⟨here, mem_map.mpr ⟨0, ?_, rfl⟩⟩)
        exact mem_range.mpr (Nat.pos_of_ne_zero some)
      · obtain ⟨fuIdx, member⟩ := exists_mem_of_ne_nil _ nonempty
        exact (pool.mem_addedUnits.mp member).1

/-- How `getUnit` ends. -/
inductive Grants (pool : FUPool OpClass) (capability : OpClass) : GetUnit → FUPool OpClass → Prop
  | noCapableFU (none : ∀ fuIdx, pool.provides fuIdx capability = false) :
      Grants pool capability .noCapableFU pool
  | noFreeFU {queue : FUIdxQueue} (some : ∃ fuIdx, pool.provides fuIdx capability = true)
      (busy : ∀ fuIdx, pool.provides fuIdx capability = true → pool.unitBusy fuIdx = true) :
      Grants pool capability .noFreeFU
        { pool with fuPerCapList := update pool.fuPerCapList capability queue }
  | unit {fuIdx : Nat} {queue : FUIdxQueue} (provides : pool.provides fuIdx capability = true)
      (idle : pool.unitBusy fuIdx = false) :
      Grants pool capability (.unit fuIdx) { pool with
        fuPerCapList := update pool.fuPerCapList capability queue
        unitBusy := update pool.unitBusy fuIdx true }

theorem Capable.turn (capable : pool.Capable) {queue : FUIdxQueue} (unitBusy : Nat → Bool)
    (turned : (pool.fuPerCapList capability).Turned queue) :
    Capable { pool with
      fuPerCapList := update pool.fuPerCapList capability queue, unitBusy := unitBusy } := by
  have same : ∀ other, (update pool.fuPerCapList capability queue other).funcUnitsIdx =
      (pool.fuPerCapList other).funcUnitsIdx := by
    intro other
    rw [update_apply]
    split
    · next here => rw [here, turned.units]
    · rfl
  refine ⟨⟨capable.numFU, ?_, ?_, ?_⟩, ?_⟩
  all_goals
    intro other
    simp only [same]
  · exact capable.listed other
  · rw [update_apply]
    split
    · next here => exact .inr (here ▸ turned.units ▸ turned.inside)
    · exact capable.position other
  · exact capable.capable other
  · exact capable.periodic other

theorem getUnit_spec (capable : pool.Capable) (capability : OpClass) :
    ∃ result next, pool.getUnit capability = some (result, next) ∧ next.Capable ∧
      pool.Grants capability result next := by
  unfold getUnit
  have listed := capable.listed capability
  cases can : pool.capabilityList capability with
  | false =>
    refine ⟨_, _, if_neg Bool.false_ne_true, capable, .noCapableFU fun fuIdx => ?_⟩
    have empty := Decidable.not_not.mp (mt (capable.capable capability).mpr (by simp [can]))
    rw [← Bool.not_eq_true, ← listed, empty]
    exact not_mem_nil
  | true =>
    have nonempty := (capable.capable capability).mp can
    have inside := (capable.position capability).elim
      (fun start => start ▸ length_pos_iff.mpr nonempty) id
    have perm := (pool.fuPerCapList capability).upcoming_perm
    obtain ⟨startIdx, rest, upcoming⟩ := exists_cons_of_ne_nil
      (mt (fun empty => (perm.symm.trans (.of_eq empty)).eq_nil) nonempty)
    have periodic := (capable.periodic capability).rotate (pool.fuPerCapList capability).idx
    rw [rotate_eq_drop_append_take (Nat.le_of_lt inside)] at periodic
    change FUIdxQueue.Periodic (pool.fuPerCapList capability).upcoming at periodic
    rw [upcoming] at periodic
    obtain ⟨ahead, copies, once, rfl⟩ := periodic.cons
    have units : ∀ fuIdx, fuIdx ∈ startIdx :: ahead ↔
        pool.provides fuIdx capability = true := by
      intro fuIdx
      rw [← listed, ← perm.mem_iff, upcoming, ← cons_append, mem_append, mem_flatten]
      refine ⟨.inl, fun member => member.elim id ?_⟩
      rintro ⟨block, copied, member⟩
      rwa [(mem_replicate.mp copied).2] at member
    have fresh : startIdx ∉ ahead := (nodup_cons.mp once).1
    obtain ⟨first, got, turned, rotated⟩ := FUIdxQueue.getFU_eq inside upcoming
    rw [append_assoc, FUIdxQueue.flatten_replicate_cons] at rotated
    have size : ahead.length < first.funcUnitsIdx.length := by
      rw [turned.units, ← perm.length_eq, upcoming]
      simp only [length_cons, length_append]
      omega
    obtain ⟨found, last, searched, again, full, free⟩ :=
      FUIdxQueue.searchUnit_spec turned.inside rotated fresh size
    have whole : (pool.fuPerCapList capability).Turned last :=
      ⟨again.units.trans turned.units, again.inside⟩
    rw [got, Option.bind_some]
    dsimp only
    rw [searched, Option.bind_some]
    cases found with
    | none =>
      refine ⟨_, _, rfl, capable.turn pool.unitBusy whole, .noFreeFU ?_ ?_⟩
      · exact ⟨startIdx, (units startIdx).mp mem_cons_self⟩
      · exact fun fuIdx provides => full rfl fuIdx ((units fuIdx).mpr provides)
    | some fuIdx =>
      obtain ⟨member, idle⟩ := free fuIdx rfl
      have provides := (units fuIdx).mp member
      exact ⟨_, _, if_pos (capable.lt_numFU provides), capable.turn _ whole, .unit provides idle⟩

def contributes (capability : OpClass) (desc : FUDesc OpClass) : Bool :=
  desc.number ≠ 0 && 0 < named desc.opDescList capability

theorem addDesc_of_absent (absent : contributes capability desc = false)
    (added : pool.addDesc desc = some next) :
    (next.fuPerCapList capability).funcUnitsIdx = (pool.fuPerCapList capability).funcUnitsIdx := by
  rcases addDesc_cases added with ⟨-, rfl⟩ | ⟨some, latencies, pipelined, rfl⟩
  · rfl
  · have unnamed : named desc.opDescList capability = 0 := by
      simpa [contributes, some] using absent
    simp [unnamed, addedUnits]

/-- A queue that one description fills, however often it names the class. -/
theorem foldlM_addDesc_periodic {fuList : List (FUDesc OpClass)}
    (single : (fuList.filter (contributes capability)).length ≤ 1)
    (empty : (pool.fuPerCapList capability).funcUnitsIdx = [])
    (built : fuList.foldlM addDesc pool = some next) :
    FUIdxQueue.Periodic (next.fuPerCapList capability).funcUnitsIdx := by
  induction fuList generalizing pool with
  | nil =>
    cases built
    exact ⟨[], 0, nodup_nil, empty⟩
  | cons desc fuList ih =>
    obtain ⟨middle, added, built⟩ := Option.bind_eq_some_iff.mp built
    cases here : contributes capability desc with
    | false =>
      rw [filter_cons_of_neg (by simp [here])] at single
      exact ih single ((addDesc_of_absent here added).trans empty) built
    | true =>
      rw [filter_cons_of_pos here, length_cons] at single
      have others : fuList.filter (contributes capability) = [] :=
        eq_nil_of_length_eq_zero (by omega)
      have kept : (next.fuPerCapList capability).funcUnitsIdx =
          (middle.fuPerCapList capability).funcUnitsIdx :=
        foldlM_invariant (fun pool => (pool.fuPerCapList capability).funcUnitsIdx =
            (middle.fuPerCapList capability).funcUnitsIdx)
          (fun other member _ _ same stepped => (addDesc_of_absent
            (Bool.eq_false_iff.mpr (filter_eq_nil_iff.mp others other member)) stepped).trans same)
          rfl built
      rw [kept]
      rcases addDesc_cases added with ⟨none, -⟩ | ⟨some, latencies, pipelined, rfl⟩
      · simp [contributes, none] at here
      · exact ⟨_, _, pool.newUnits_nodup desc.number,
          congrArg (· ++ pool.addedUnits desc.number _) empty⟩

/-- No description that has units names the class twice, or no other one names it. -/
def Unambiguous (fuList : List (FUDesc OpClass)) : Prop :=
  ∀ capability, (∀ desc ∈ fuList, desc.number ≠ 0 → named desc.opDescList capability ≤ 1) ∨
    (fuList.filter (contributes capability)).length ≤ 1

theorem addDesc_nodup (capable : pool.Listed)
    (once : desc.number ≠ 0 → named desc.opDescList capability ≤ 1)
    (distinct : (pool.fuPerCapList capability).funcUnitsIdx.Nodup)
    (added : pool.addDesc desc = some next) :
    (next.fuPerCapList capability).funcUnitsIdx.Nodup := by
  rcases addDesc_cases added with ⟨-, rfl⟩ | ⟨some, latencies, pipelined, rfl⟩
  · exact distinct
  · refine nodup_append.mpr ⟨distinct, ?_, ?_⟩
    · rcases Nat.le_one_iff_eq_zero_or_eq_one.mp (once some) with copies | copies
      · simp [addedUnits, copies]
      · simpa [addedUnits, copies] using pool.newUnits_nodup desc.number
    · rintro old member _ new rfl
      obtain ⟨unit, -, rfl⟩ := mem_map.mp (pool.mem_addedUnits.mp new).2
      have := capable.lt_numFU ((capable.listed capability _).mp member)
      omega

theorem ofList_capable {fuList : List (FUDesc OpClass)} (once : Unambiguous fuList)
    (built : ofList fuList = some pool) :
    pool.Capable ∧ pool.unitsToBeFreed = [] ∧ pool.unitBusy = fun _ => false := by
  have start : ({} : FUPool OpClass).Listed := by constructor <;> simp [provides]
  have listed : pool.Listed ∧ pool.unitsToBeFreed = [] ∧ pool.unitBusy = fun _ => false := by
    refine foldlM_invariant (fun pool => pool.Listed ∧ pool.unitsToBeFreed = [] ∧
      pool.unitBusy = fun _ => false) ?_ ⟨start, rfl, rfl⟩ built
    rintro desc member middle last ⟨capable, nothing, idle⟩ added
    obtain ⟨kept, same, still⟩ := addDesc_listed capable added
    exact ⟨kept, same.trans nothing, still.trans idle⟩
  refine ⟨⟨listed.1, fun capability => ?_⟩, listed.2⟩
  rcases once capability with few | single
  · have distinct := foldlM_invariant
      (fun pool => pool.Listed ∧ (pool.fuPerCapList capability).funcUnitsIdx.Nodup)
      (fun desc member _ _ before added => ⟨(addDesc_listed before.1 added).1,
        addDesc_nodup before.1 (few desc member) before.2 added⟩) ⟨start, nodup_nil⟩ built
    exact ⟨_, 1, distinct.2, by simp⟩
  · exact foldlM_addDesc_periodic single rfl built

/-- Units that are all busy, each of them once, are freed without a failing assertion. -/
theorem freeUnits_eq {unitBusy : Nat → Bool} {units : List Nat} (once : units.Nodup)
    (busy : ∀ fuIdx ∈ units, unitBusy fuIdx = true) :
    ∃ after, units.foldlM freeUnit unitBusy = some after ∧
      ∀ fuIdx, after fuIdx = (unitBusy fuIdx && decide (fuIdx ∉ units)) := by
  induction units generalizing unitBusy with
  | nil => exact ⟨unitBusy, rfl, by simp⟩
  | cons unit units ih =>
    obtain ⟨absent, once⟩ := nodup_cons.mp once
    obtain ⟨own, busy⟩ := forall_mem_cons.mp busy
    have others : ∀ fuIdx ∈ units, update unitBusy unit false fuIdx = true := by
      intro fuIdx member
      have different : fuIdx ≠ unit := ne_of_mem_of_not_mem member absent
      rw [update_of_ne different]
      exact busy fuIdx member
    obtain ⟨after, freed, spec⟩ := ih once others
    refine ⟨after, ?_, fun fuIdx => ?_⟩
    · rw [foldlM_cons, freeUnit, if_pos own]
      exact freed
    · rw [spec, update_apply]
      by_cases here : fuIdx = unit
      · simp [here]
      · simp [here]

end FUPool

/-! ## Scheduling -/

namespace FURun

variable {run next : FURun OpClass}

/-- A unit is busy from when it is handed out until it is freed, and will be freed once. -/
structure Inv (run : FURun OpClass) : Prop where
  capable : run.pool.Capable
  owed : run.held.Perm (run.pool.unitsToBeFreed ++ run.executing)
  once : run.held.Nodup
  busy : ∀ fuIdx, run.pool.unitBusy fuIdx = true ↔ fuIdx ∈ run.held

theorem Inv.schedule (inv : run.Inv) (opClass : OpClass) :
    ∃ next, run.schedule opClass = some next ∧ next.Inv := by
  obtain ⟨result, pool, got, capable, grants⟩ := FUPool.getUnit_spec inv.capable opClass
  rw [FURun.schedule, got, Option.bind_some]
  cases grants with
  | noCapableFU none => exact ⟨_, rfl, { inv with }⟩
  | noFreeFU some busy => exact ⟨_, rfl, { inv with capable := capable }⟩
  | @unit fuIdx queue provides idle =>
    have new : fuIdx ∉ run.held := fun member => clash idle ((inv.busy fuIdx).mpr member)
    have once : (run.held ++ [fuIdx]).Nodup :=
      nodup_append.mpr ⟨inv.once, nodup_singleton _, by
        rintro old member _ here rfl
        exact new (mem_singleton.mp here ▸ member)⟩
    have busy : ∀ other, update run.pool.unitBusy fuIdx true other = true ↔
        other ∈ run.held ++ [fuIdx] := by
      intro other
      rw [update_apply, mem_append, mem_singleton, ← inv.busy]
      by_cases here : other = fuIdx
      · simp [here]
      · simp [here]
    dsimp only
    split
    · rw [FUPool.freeUnitNextCycle, if_pos (update_self ..), Option.map_some]
      refine ⟨_, rfl, { capable with }, ?_, once, busy⟩
      refine (inv.owed.append_right [fuIdx]).trans ?_
      rw [append_assoc, append_assoc]
      exact perm_append_comm.append_left _
    · refine ⟨_, rfl, capable, ?_, once, busy⟩
      rw [← append_assoc]
      exact inv.owed.append_right _

theorem Inv.complete (inv : run.Inv) {fuIdx : Nat} (member : fuIdx ∈ run.executing) :
    ∃ next, run.step (.complete fuIdx) = some next ∧ next.Inv := by
  have busy := (inv.busy fuIdx).mpr (inv.owed.mem_iff.mpr (mem_append_right _ member))
  rw [step, if_pos member, FUPool.freeUnitNextCycle, if_pos busy, Option.map_some]
  refine ⟨_, rfl, { inv.capable with }, ?_, inv.once, inv.busy⟩
  rw [append_assoc]
  exact inv.owed.trans ((perm_cons_erase member).append_left _)

theorem Inv.processFreeUnits (inv : run.Inv) :
    ∃ next, run.step .processFreeUnits = some next ∧ next.Inv := by
  have both := inv.owed.nodup_iff.mp inv.once
  obtain ⟨once, -, apart⟩ := nodup_append.mp both
  have busy : ∀ fuIdx ∈ run.pool.unitsToBeFreed.reverse, run.pool.unitBusy fuIdx = true :=
    fun fuIdx member => (inv.busy fuIdx).mpr
      (inv.owed.mem_iff.mpr (mem_append_left _ (mem_reverse.mp member)))
  obtain ⟨unitBusy, freed, spec⟩ := FUPool.freeUnits_eq (nodup_reverse.mpr once) busy
  rw [step, FUPool.processFreeUnits, freed, Option.map_some, Option.map_some]
  refine ⟨_, rfl, { inv.capable with }, ?_, inv.once.filter _, fun fuIdx => ?_⟩
  · dsimp only
    refine (inv.owed.filter _).trans (.of_eq ?_)
    rw [filter_append, filter_eq_nil_iff.mpr (by simp), nil_append, nil_append]
    refine filter_eq_self.mpr fun fuIdx member => ?_
    exact decide_eq_true fun freed => apart _ freed _ member rfl
  · dsimp only
    rw [spec, Bool.and_eq_true, inv.busy, mem_filter]
    simp

theorem step_inv {event : FUEvent OpClass} (inv : run.Inv)
    (stepped : run.step event = some next) : next.Inv := by
  have kept : (∃ next, run.step event = some next ∧ next.Inv) → next.Inv := by
    rintro ⟨other, same, kept⟩
    cases stepped.symm.trans same
    exact kept
  cases event with
  | schedule opClass => exact kept (inv.schedule opClass)
  | complete fuIdx => exact kept (inv.complete (Option.ite_none_right_eq_some.mp stepped).1)
  | processFreeUnits => exact kept inv.processFreeUnits

abbrev ReachedFrom (fuList : List (FUDesc OpClass)) (run : FURun OpClass) : Prop :=
  ∃ pool, FUPool.ofList fuList = some pool ∧ Reaches step anyEvent { pool := pool } run

/-- If no unit lists an operation class twice that other units provide too, then in every run
`getUnit` returns; it returns a unit that is capable, idle and not held, and none exactly if
each capable one is busy. No assertion fails. -/
theorem getUnit_allocates (fuList : List (FUDesc OpClass)) (run : FURun OpClass)
    (once : FUPool.Unambiguous fuList) (reached : ReachedFrom fuList run) :
    (∀ capability, ∃ result next, run.pool.getUnit capability = some (result, next) ∧
      (result = .noCapableFU ↔ ∀ fuIdx, run.pool.provides fuIdx capability = false) ∧
      (result = .noFreeFU ↔ (∃ fuIdx, run.pool.provides fuIdx capability = true) ∧
        ∀ fuIdx, run.pool.provides fuIdx capability = true → run.pool.unitBusy fuIdx = true) ∧
      ∀ fuIdx, result = .unit fuIdx → run.pool.provides fuIdx capability = true ∧
        run.pool.unitBusy fuIdx = false ∧ fuIdx ∉ run.held) ∧
    (∀ opClass, (run.step (.schedule opClass)).isSome = true) ∧
    (∀ fuIdx ∈ run.executing, (run.step (.complete fuIdx)).isSome = true) ∧
    (run.step .processFreeUnits).isSome = true := by
  obtain ⟨pool, built, reached⟩ := reached
  obtain ⟨capable, nothing, idle⟩ := FUPool.ofList_capable once built
  have inv : run.Inv := by
    refine reached.invariant ⟨capable, ?_, nodup_nil, ?_⟩ fun inv _ stepped => step_inv inv stepped
    · rw [nothing]
      rfl
    · simp [idle]
  have returns : ∀ {event}, (∃ next, run.step event = some next ∧ next.Inv) →
      (run.step event).isSome = true := by
    rintro event ⟨next, stepped, -⟩
    rw [stepped]
    rfl
  refine ⟨fun capability => ?_, fun opClass => returns (inv.schedule opClass),
    fun fuIdx member => returns (inv.complete member), returns inv.processFreeUnits⟩
  obtain ⟨result, next, got, -, grants⟩ := FUPool.getUnit_spec inv.capable capability
  refine ⟨result, next, got, ?_⟩
  cases grants with
  | noCapableFU none =>
    refine ⟨iff_of_true rfl none, iff_of_false (by decide) ?_, by rintro _ ⟨⟩⟩
    rintro ⟨⟨fuIdx, provides⟩, -⟩
    exact clash (none fuIdx) provides
  | noFreeFU some busy =>
    refine ⟨iff_of_false (by decide) ?_, iff_of_true rfl ⟨some, busy⟩, by rintro _ ⟨⟩⟩
    obtain ⟨fuIdx, provides⟩ := some
    exact fun none => clash (none fuIdx) provides
  | @unit fuIdx queue provides idle =>
    refine ⟨iff_of_false (by rintro ⟨⟩) ?_, iff_of_false (by rintro ⟨⟩) ?_, ?_⟩
    · exact fun none => clash (none fuIdx) provides
    · exact fun full => clash idle (full.2 fuIdx provides)
    · rintro _ ⟨⟩
      exact ⟨provides, idle, fun held => clash idle ((inv.busy fuIdx).mpr held)⟩

/-- Two units that divide, the first one with the operation listed as often as given. -/
def dividers (listed : Nat) : List (FUDesc Unit) :=
  [⟨List.replicate listed ⟨(), 20, false⟩, 1⟩, ⟨[⟨(), 20, false⟩], 1⟩]

theorem getUnit_allocates_dividers :
    ∃ run, ReachedFrom (dividers 1) run ∧ run.held = [0] ∧
      ∃ result next, run.pool.getUnit () = some (result, next) ∧ result ≠ .noFreeFU := by
  obtain ⟨run, reached, observed⟩ := reaches_of_observed step anyEvent
    { pool := (FUPool.ofList (dividers 1)).get (by decide) }
    [.schedule (), .schedule (), .complete 1, .processFreeUnits]
    (fun run => decide (run.held = [0] ∧ run.pool.provides 1 () = true ∧
      run.pool.unitBusy 1 = false)) (by decide +kernel)
  obtain ⟨held, provides, idle⟩ := of_decide_eq_true observed
  have reached : ReachedFrom (dividers 1) run := ⟨_, (Option.some_get _).symm, reached⟩
  obtain ⟨result, next, got, -, full, -⟩ :=
    (getUnit_allocates (dividers 1) run (fun () => .inl (by decide)) reached).1 ()
  exact ⟨run, reached, held, result, next, got,
    fun none => clash idle ((full.mp none).2 1 provides)⟩

/-- The first unit stands in the queue twice. With the queue at its start the search comes
back to that unit before it has seen the other one, which is idle. -/
theorem getUnit_misses_idle :
    ∃ run : FURun Unit, ReachedFrom (dividers 2) run ∧ run.pool.provides 1 () = true ∧
      run.pool.unitBusy 1 = false ∧
      (run.pool.getUnit ()).map Prod.fst = some .noFreeFU := by
  obtain ⟨run, reached, observed⟩ := reaches_of_observed step anyEvent
    { pool := (FUPool.ofList (dividers 2)).get (by decide) }
    [.schedule (), .schedule (), .complete 1, .processFreeUnits]
    (fun run => decide (run.pool.provides 1 () = true ∧ run.pool.unitBusy 1 = false ∧
      (run.pool.getUnit ()).map Prod.fst = some .noFreeFU)) (by decide +kernel)
  exact ⟨run, ⟨_, (Option.some_get _).symm, reached⟩, of_decide_eq_true observed⟩

end FURun

end Runahead.O3
