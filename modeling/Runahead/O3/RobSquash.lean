import Runahead.O3.RobThreads

/-!
# Squashing in the reorder buffer over several cycles

`doSquash` walks a saved list iterator towards the head of the thread's list. Here
the iterator is an index into the list, its length standing for `end()`, and every
use of an iterator outside the list is an error. The walk refines `Rob.doSquash`.
The iterator `tail` of the whole ROB, which `updateTail` recomputes, is read by
nothing else and is left out.
-/

set_option autoImplicit false

namespace Runahead.O3.RobSquash

open Library List

inductive Failure where
  /-- `assert(squashIt[tid] != instList[tid].end())`. -/
  | squashItAtEnd
  /-- `end()` is dereferenced. -/
  | readOutside
  /-- `begin()` is decremented. -/
  | beforeBegin
  deriving DecidableEq, Repr

/-- The list of one thread, with the state of its squash. -/
structure SquashWalk (params : RobParams) where
  instList : List Nat
  squashIt : Nat
  squashedSeqNum : Nat
  doneSquashing : Bool
  ordered : instList.Pairwise (· < ·)
  fits : instList.length ≤ params.numEntries

def readInst (instList : List Nat) (position : Nat) : Except Failure Nat :=
  match instList[position]? with
  | some inst => .ok inst
  | none => .error .readOutside

def decrement : Nat → Except Failure Nat
  | 0 => .error .beforeBegin
  | position + 1 => .ok position

/-- How the loop of `doSquash` ends. -/
inductive LoopExit where
  | reachedHead
  | stopped (squashIt : Nat)
  deriving DecidableEq, Repr

def squashLoop (instList : List Nat) (squashedSeqNum : Nat) :
    Nat → InstTable → Nat → Except Failure (InstTable × LoopExit)
  | 0, insts, squashIt => .ok (insts, .stopped squashIt)
  | left + 1, insts, squashIt =>
    if squashIt = instList.length then .ok (insts, .stopped squashIt)
    else do
      let inst ← readInst instList squashIt
      if inst ≤ squashedSeqNum then return (insts, .stopped squashIt)
      let insts := insts.modify inst DynInst.squashInRob
      if squashIt = 0 then return (insts, .reachedHead)
      let tailThread ← decrement instList.length
      let _ ← readInst instList tailThread
      let squashIt ← decrement squashIt
      squashLoop instList squashedSeqNum left insts squashIt

namespace SquashWalk

variable {params : RobParams}

def finish (walk : SquashWalk params) : SquashWalk params :=
  { walk with squashIt := walk.instList.length, doneSquashing := true }

def doSquash (numInstsToSquash : Nat) (insts : InstTable) (walk : SquashWalk params) :
    Except Failure (InstTable × SquashWalk params) :=
  if walk.squashIt = walk.instList.length then .error .squashItAtEnd
  else do
    let inst ← readInst walk.instList walk.squashIt
    if inst < walk.squashedSeqNum then return (insts, walk.finish)
    let (insts, loopExit) ←
      squashLoop walk.instList walk.squashedSeqNum numInstsToSquash insts walk.squashIt
    match loopExit with
    | .reachedHead => return (insts, walk.finish)
    | .stopped squashIt =>
      let inst ← readInst walk.instList squashIt
      if inst ≤ walk.squashedSeqNum then return (insts, walk.finish)
      return (insts, { walk with squashIt := squashIt })

/-- `squash`, which performs the first cycle at once. -/
def squash (numInstsToSquash : Nat) (insts : InstTable) (walk : SquashWalk params)
    (squashNum : Nat) : Except Failure (InstTable × SquashWalk params) :=
  if walk.instList.isEmpty then .ok (insts, walk)
  else do
    let tailThread ← decrement walk.instList.length
    doSquash numInstsToSquash insts
      { walk with
        squashIt := tailThread, squashedSeqNum := squashNum, doneSquashing := false }

/-- The following cycles: commit calls `doSquash` until the squash is done. In each
cycle the thread may be exiting. -/
def squashCycles (insts : InstTable) (walk : SquashWalk params) :
    List Bool → Except Failure (InstTable × SquashWalk params)
  | [] => .ok (insts, walk)
  | exiting :: later =>
    if walk.doneSquashing then .ok (insts, walk)
    else do
      let (insts, walk) ← doSquash (params.numInstsToSquash exiting) insts walk
      squashCycles insts walk later

/-- A squash with as many cycles as there are flags after the first. -/
def squashOver (insts : InstTable) (walk : SquashWalk params) (squashNum : Nat) (exiting : Bool)
    (later : List Bool) : Except Failure (InstTable × SquashWalk params) := do
  let (insts, walk) ← squash (params.numInstsToSquash exiting) insts walk squashNum
  squashCycles insts walk later

def toRob (walk : SquashWalk params) : Rob where
  instList := walk.instList
  squashIt := walk.instList[walk.squashIt]?
  squashedSeqNum := walk.squashedSeqNum
  doneSquashing := walk.doneSquashing

end SquashWalk

/-! ## The walk stays inside the list -/

section Loop

variable {instList : List Nat} {squashedSeqNum left squashIt : Nat} {insts : InstTable}

theorem readInst_ok (inside : squashIt < instList.length) :
    readInst instList squashIt = .ok instList[squashIt] := by
  unfold readInst
  rw [List.getElem?_eq_getElem inside]

def visiting (instList : List Nat) (squashIt : Nat) : List Nat :=
  (instList.take (squashIt + 1)).reverse

theorem visiting_eq (inside : squashIt < instList.length) :
    visiting instList squashIt = instList[squashIt] :: (instList.take squashIt).reverse := by
  unfold visiting
  rw [take_succ_eq_append_getElem inside, reverse_append, reverse_singleton, singleton_append]

/-- The iterator after a loop that has left some instructions unvisited. -/
def loopExit : List Nat → LoopExit
  | [] => .reachedHead
  | _ :: older => .stopped older.length

theorem loopExit_visiting (inside : squashIt < instList.length) :
    loopExit (visiting instList squashIt) = .stopped squashIt := by
  rw [visiting_eq inside]
  change LoopExit.stopped (instList.take squashIt).reverse.length = _
  rw [length_reverse, length_take, Nat.min_eq_left (Nat.le_of_lt inside)]

theorem decrement_length (inside : squashIt < instList.length) :
    decrement instList.length = .ok (instList.length - 1) := by
  obtain ⟨before, length⟩ : ∃ before, instList.length = before + 1 :=
    ⟨instList.length - 1, by omega⟩
  rw [length]
  rfl

/-- The loop visits what `Rob.squashLoop` visits and uses no iterator outside the list. -/
theorem squashLoop_eq (inside : squashIt < instList.length) :
    squashLoop instList squashedSeqNum left insts squashIt =
      .ok ((Rob.squashLoop squashedSeqNum left insts (visiting instList squashIt)).1,
        loopExit (Rob.squashLoop squashedSeqNum left insts (visiting instList squashIt)).2) := by
  induction left generalizing insts squashIt with
  | zero =>
    have stops : Rob.squashLoop squashedSeqNum 0 insts (visiting instList squashIt) =
        (insts, visiting instList squashIt) := by
      rw [visiting_eq inside]
      rfl
    rw [stops, loopExit_visiting inside]
    rfl
  | succ left ih =>
    have atEnd : squashIt ≠ instList.length := Nat.ne_of_lt inside
    have last : instList.length - 1 < instList.length := by omega
    have tail := readInst_ok last
    have exitHere := loopExit_visiting inside
    unfold squashLoop
    rw [visiting_eq inside] at exitHere ⊢
    rw [if_neg atEnd, readInst_ok inside]
    simp only [bind, Except.bind, Rob.squashLoop, decrement_length inside, tail]
    by_cases older : instList[squashIt] ≤ squashedSeqNum
    · rw [if_pos older, if_neg (Nat.not_lt.mpr older), exitHere]
      rfl
    · rw [if_neg older, if_pos (Nat.not_le.mp older)]
      cases squashIt with
      | zero => simp [Rob.squashLoop, loopExit, pure, Except.pure]
      | succ before =>
        exact ih (Nat.lt_of_succ_lt inside)

theorem takeWhile_ne_middle {front back : List Nat} {inst : Nat}
    (ordered : (front ++ inst :: back).Pairwise (· < ·)) :
    (front ++ inst :: back).takeWhile (· != inst) = front := by
  have different : ∀ older ∈ front, (older != inst) = true := by
    intro older member
    have below := (pairwise_append.mp ordered).2.2 older member inst mem_cons_self
    exact bne_iff_ne.mpr (Nat.ne_of_lt below)
  rw [takeWhile_append_of_pos different, takeWhile_cons_of_neg (by simp), append_nil]

/-- What is left to visit is what the iterator visits from where it stands then. -/
theorem suffix_visiting {next : Nat} {older : List Nat}
    (suffix : next :: older <:+ visiting instList squashIt) :
    ∃ inside : older.length < instList.length, instList[older.length] = next ∧
      next :: older = visiting instList older.length := by
  have front : (next :: older).reverse <+: instList :=
    (List.reverse_prefix.mpr (by simpa [visiting] using suffix)).trans
      (by simpa using List.take_prefix _ _)
  have length := front.length_le
  have same : (next :: older).reverse = instList.take (older.length + 1) := by
    rw [prefix_iff_eq_take.mp front]
    simp
  have inside : older.length < instList.length := by
    rw [length_reverse, length_cons] at length
    omega
  have whole : next :: older = visiting instList older.length := by
    rw [visiting, ← same, reverse_reverse]
  have first := whole.trans (visiting_eq inside)
  exact ⟨inside, (List.cons.inj first).1.symm, whole⟩

/-- A loop that stops at an instruction still to be squashed has used up its width. -/
theorem squashLoop_exhausted {visited older : List Nat} {following : Nat} {marked : InstTable}
    (looped : Rob.squashLoop squashedSeqNum left insts visited = (marked, following :: older))
    (younger : squashedSeqNum < following) :
    ∃ front, visited = front ++ following :: older ∧ front.length = left ∧
      ∀ inst ∈ front, squashedSeqNum < inst := by
  induction visited generalizing left insts with
  | nil => cases left <;> simp [Rob.squashLoop] at looped
  | cons first rest ih =>
    cases left with
    | zero =>
      simp only [Rob.squashLoop, Prod.mk.injEq] at looped
      exact ⟨[], looped.2, rfl, fun inst member => absurd member not_mem_nil⟩
    | succ left =>
      simp only [Rob.squashLoop] at looped
      split at looped
      case isTrue squashed =>
        obtain ⟨front, same, length, all⟩ := ih looped
        refine ⟨first :: front, congrArg (first :: ·) same, congrArg (· + 1) length, ?_⟩
        intro inst member
        rcases mem_cons.mp member with rfl | later
        · exact squashed
        · exact all inst later
      case isFalse stopped =>
        obtain ⟨rfl, -⟩ := List.cons.inj (Prod.mk.inj looped).2
        exact absurd younger stopped

end Loop

namespace SquashWalk

variable {params : RobParams} {walk next : SquashWalk params} {insts marked : InstTable}
variable {numInstsToSquash squashNum : Nat}

theorem backwardFrom_eq (inside : walk.squashIt < walk.instList.length) :
    walk.toRob.backwardFrom walk.instList[walk.squashIt] =
      visiting walk.instList walk.squashIt := by
  have split : walk.instList.take walk.squashIt ++
      walk.instList[walk.squashIt] :: walk.instList.drop (walk.squashIt + 1) = walk.instList := by
    rw [← drop_eq_getElem_cons inside, take_append_drop]
  have ordered := walk.ordered
  rw [← split] at ordered
  have older : walk.instList.takeWhile (· != walk.instList[walk.squashIt]) =
      walk.instList.take walk.squashIt :=
    (congrArg (List.takeWhile _) split.symm).trans (takeWhile_ne_middle ordered)
  rw [visiting_eq inside, ← older]
  rfl

def remaining (walk : SquashWalk params) : Nat :=
  (visiting walk.instList walk.squashIt).countP (walk.squashedSeqNum < ·)

theorem doSquash_refines (insts : InstTable) (numInstsToSquash : Nat)
    (inside : walk.squashIt < walk.instList.length) :
    ∃ next, walk.doSquash numInstsToSquash insts =
        .ok ((Rob.doSquash numInstsToSquash insts walk.toRob).1, next) ∧
      next.toRob = (Rob.doSquash numInstsToSquash insts walk.toRob).2 ∧
      (next = walk.finish ∨ next.doneSquashing = walk.doneSquashing ∧
        next.squashIt < next.instList.length ∧ 0 < next.remaining ∧
        next.remaining + numInstsToSquash = walk.remaining) := by
  have pointing : walk.toRob.squashIt = some walk.instList[walk.squashIt] :=
    List.getElem?_eq_getElem inside
  have finished : walk.finish.toRob = walk.toRob.finishSquash := by
    simp [finish, toRob, Rob.finishSquash]
  have suffix := Rob.squashLoop_rest walk.squashedSeqNum numInstsToSquash insts
    (visiting walk.instList walk.squashIt)
  have squashNum : walk.toRob.squashedSeqNum = walk.squashedSeqNum := rfl
  unfold SquashWalk.doSquash
  rw [if_neg (Nat.ne_of_lt inside), readInst_ok inside, squashLoop_eq inside]
  simp only [bind, Except.bind, Rob.doSquash, pointing, backwardFrom_eq inside, squashNum]
  by_cases below : walk.instList[walk.squashIt] < walk.squashedSeqNum
  · rw [if_pos below, if_pos below]
    exact ⟨walk.finish, rfl, finished, .inl rfl⟩
  rw [if_neg below, if_neg below]
  rcases looped : Rob.squashLoop walk.squashedSeqNum numInstsToSquash insts
    (visiting walk.instList walk.squashIt) with ⟨marked, rest⟩
  rw [looped] at suffix
  cases rest with
  | nil => exact ⟨walk.finish, rfl, finished, .inl rfl⟩
  | cons following older =>
    obtain ⟨within, same, whole⟩ := suffix_visiting suffix
    simp only [loopExit, readInst_ok within, same]
    by_cases done : following ≤ walk.squashedSeqNum
    · rw [if_pos done, if_pos done]
      exact ⟨walk.finish, rfl, finished, .inl rfl⟩
    · rw [if_neg done, if_neg done]
      obtain ⟨front, split, width, younger⟩ :=
        squashLoop_exhausted looped (Nat.not_le.mp done)
      have counted : (visiting walk.instList older.length).countP (walk.squashedSeqNum < ·) +
          numInstsToSquash = walk.remaining := by
        unfold remaining
        rw [split, countP_append, ← whole, Nat.add_comm, ← width]
        congr 1
        exact (countP_eq_length.mpr fun inst member =>
          decide_eq_true (younger inst member)).symm
      have pending : 0 < (visiting walk.instList older.length).countP
          (walk.squashedSeqNum < ·) := by
        rw [← whole]
        exact countP_pos_iff.mpr ⟨following, mem_cons_self, decide_eq_true (Nat.not_le.mp done)⟩
      refine ⟨{ walk with squashIt := older.length }, rfl, ?_, .inr ⟨rfl, within, pending, counted⟩⟩
      have there : walk.instList[older.length]? = some following := by
        rw [List.getElem?_eq_getElem within, same]
      simp only [toRob, there]

/-! ## Whole squashes -/

/-- The table in which exactly the younger instructions of the list are squashed. -/
def squashedTable (base : InstTable) (instList : List Nat) (squashNum : Nat) : InstTable :=
  base.modifyAll (fun inst => decide (inst ∈ instList ∧ squashNum < inst)) DynInst.squashInRob

/-- A squash under way: `base` is the table before it. -/
structure Walking (base insts : InstTable) (walk : SquashWalk params) : Prop where
  marks : ∀ inst, insts inst = base inst ∨ inst ∈ walk.instList ∧ walk.squashedSeqNum < inst ∧
    insts inst = (base inst).squashInRob
  progress : Rob.SquashProgress insts walk.toRob
  inside : walk.doneSquashing = false → walk.squashIt < walk.instList.length
  atEnd : walk.doneSquashing = true → walk.squashIt = walk.instList.length

theorem squashInRob_of_drained {inst : DynInst} (drained : inst.Drained) :
    inst.squashInRob = inst := by
  obtain ⟨squashed, canCommit⟩ := drained
  cases inst
  simp_all [DynInst.squashInRob, DynInst.setSquashed, DynInst.setCanCommit]

variable {base : InstTable}

theorem Walking.done (walking : walk.Walking base insts) (done : walk.doneSquashing = true) :
    insts = squashedTable base walk.instList walk.squashedSeqNum := by
  funext inst
  unfold squashedTable
  rw [InstTable.modifyAll_apply]
  split
  case isTrue selected =>
    obtain ⟨member, younger⟩ := of_decide_eq_true selected
    rcases walking.marks inst with same | ⟨_, _, marked⟩
    · have drained := walking.progress.all_drained done member younger
      rw [← same]
      exact (squashInRob_of_drained drained).symm
    · exact marked
  case isFalse other =>
    rcases walking.marks inst with same | ⟨member, younger, _⟩
    · exact same
    · exact absurd (decide_eq_true ⟨member, younger⟩) other

theorem Walking.doSquash (walking : walk.Walking base insts)
    (going : walk.doneSquashing = false) (numInstsToSquash : Nat) :
    ∃ marked next, walk.doSquash numInstsToSquash insts = .ok (marked, next) ∧
      next.Walking base marked ∧ next.instList = walk.instList ∧
      next.squashedSeqNum = walk.squashedSeqNum ∧
      (next.doneSquashing = true ∨ next.doneSquashing = false ∧ 0 < next.remaining ∧
        next.remaining + numInstsToSquash = walk.remaining) := by
  obtain ⟨next, ran, same, exit⟩ :=
    doSquash_refines insts numInstsToSquash (walking.inside going)
  have instList : next.instList = walk.instList := by
    have same := congrArg Rob.instList same
    rw [Rob.doSquash_instList] at same
    exact same
  have squashNum : next.squashedSeqNum = walk.squashedSeqNum := by
    have same := congrArg Rob.squashedSeqNum same
    rw [Rob.doSquash_squashedSeqNum] at same
    exact same
  refine ⟨_, next, ran, ⟨?_, ?_, ?_, ?_⟩, instList, squashNum, ?_⟩
  · intro inst
    rw [instList, squashNum]
    rcases Rob.doSquash_apply numInstsToSquash insts walk.toRob inst with
      kept | ⟨⟨position, pointing, member⟩, younger, changed⟩
    · rw [kept]
      exact walking.marks inst
    · have inList : inst ∈ walk.instList :=
        Rob.backwardFrom_subset (walking.progress.inside position pointing) inst member
      refine .inr ⟨inList, younger, ?_⟩
      rw [changed]
      rcases walking.marks inst with before | ⟨_, _, before⟩
      · rw [before]
      · rw [before, Rob.squashInRob_idem]
  · rw [same]
    exact Rob.doSquash_progress walk.ordered walking.progress
  · intro stillGoing
    rcases exit with rfl | ⟨_, inside, _⟩
    · exact absurd stillGoing.symm Bool.false_ne_true
    · exact inside
  · intro done
    rcases exit with rfl | ⟨sameFlag, _⟩
    · rfl
    · exact clash done (sameFlag.trans going)
  · rcases exit with rfl | ⟨sameFlag, _, counted⟩
    · exact .inl rfl
    · exact .inr ⟨sameFlag.trans going, counted⟩

theorem remaining_le (walk : SquashWalk params) : walk.remaining ≤ params.numEntries := by
  have bound : walk.remaining ≤ (visiting walk.instList walk.squashIt).length :=
    countP_le_length
  have taken : (visiting walk.instList walk.squashIt).length ≤ walk.instList.length := by
    rw [visiting, length_reverse, length_take]
    exact Nat.min_le_right _ _
  exact Nat.le_trans bound (Nat.le_trans taken walk.fits)

/-- A cycle either ends the squash or squashes `squashWidth` instructions. -/
theorem Walking.cycle (walking : walk.Walking base insts)
    (going : walk.doneSquashing = false) (exiting : Bool) :
    ∃ marked next, walk.doSquash (params.numInstsToSquash exiting) insts = .ok (marked, next) ∧
      next.Walking base marked ∧ next.instList = walk.instList ∧
      next.squashedSeqNum = walk.squashedSeqNum ∧
      (next.doneSquashing = false → 0 < next.remaining ∧
        next.remaining + params.squashWidth = walk.remaining) := by
  obtain ⟨marked, next, ran, nextWalking, instList, squashNum, exit⟩ :=
    walking.doSquash going (params.numInstsToSquash exiting)
  refine ⟨marked, next, ran, nextWalking, instList, squashNum, fun stillGoing => ?_⟩
  rcases exit with done | ⟨_, pending, counted⟩
  · exact clash stillGoing done
  · cases exiting with
    | false => exact ⟨pending, counted⟩
    | true =>
      have bound := walk.remaining_le
      have width : params.numInstsToSquash true = params.numEntries := rfl
      omega

theorem Walking.cycles (walking : walk.Walking base insts)
    (pending : walk.doneSquashing = false → 0 < walk.remaining) (later : List Bool) :
    ∃ marked next, walk.squashCycles insts later = .ok (marked, next) ∧
      next.Walking base marked ∧ next.instList = walk.instList ∧
      next.squashedSeqNum = walk.squashedSeqNum ∧
      (next.doneSquashing = false → walk.doneSquashing = false ∧ 0 < next.remaining ∧
        next.remaining + later.length * params.squashWidth ≤ walk.remaining) := by
  induction later generalizing insts walk with
  | nil =>
    refine ⟨insts, walk, rfl, walking, rfl, rfl, fun going => ⟨going, pending going, ?_⟩⟩
    simp
  | cons exiting later ih =>
    unfold squashCycles
    split
    case isTrue done =>
      refine ⟨insts, walk, rfl, walking, rfl, rfl, fun going => ?_⟩
      exact clash going done
    case isFalse going =>
      have going := Bool.eq_false_iff.mpr going
      obtain ⟨marked, next, ran, nextWalking, instList, squashNum, exit⟩ :=
        walking.cycle going exiting
      obtain ⟨last, final, cycles, finalWalking, sameList, sameNum, finalExit⟩ :=
        ih nextWalking fun stillGoing => (exit stillGoing).1
      rw [ran]
      refine ⟨last, final, cycles, finalWalking, sameList.trans instList,
        sameNum.trans squashNum, fun stillGoing => ?_⟩
      obtain ⟨nextGoing, finalPending, counted⟩ := finalExit stillGoing
      obtain ⟨_, step⟩ := exit nextGoing
      refine ⟨going, finalPending, ?_⟩
      rw [length_cons, Nat.succ_mul]
      omega

def start (walk : SquashWalk params) (squashNum : Nat) : SquashWalk params :=
  { walk with
    squashIt := walk.instList.length - 1, squashedSeqNum := squashNum, doneSquashing := false }

section

variable (nonempty : walk.instList ≠ [])
include nonempty

theorem squash_eq :
    walk.squash numInstsToSquash insts squashNum =
      (walk.start squashNum).doSquash numInstsToSquash insts := by
  have positive := length_pos_of_ne_nil nonempty
  unfold SquashWalk.squash
  rw [if_neg (by simpa using nonempty), decrement_length positive]
  rfl

theorem visiting_start :
    visiting walk.instList (walk.instList.length - 1) = walk.instList.reverse := by
  have positive := length_pos_of_ne_nil nonempty
  unfold visiting
  rw [Nat.sub_add_cancel positive, take_length]

theorem start_walking (insts : InstTable) (squashNum : Nat) :
    (walk.start squashNum).Walking insts insts where
  marks := fun _ => .inl rfl
  progress := by
    have tail : walk.instList[walk.instList.length - 1]? =
        some (walk.instList.getLast nonempty) := by
      rw [← getLast?_eq_getElem?, getLast?_eq_some_getLast nonempty]
    refine ⟨?_, fun done => absurd done Bool.false_ne_true, ?_⟩
    · intro position pointing
      exact mem_of_getElem? pointing
    · intro inst member _
      have youngest : walk.toRob.readTailInst = some (walk.instList.getLast nonempty) :=
        getLast?_eq_some_getLast nonempty
      exact .inr ⟨_, tail, Rob.le_readTailInst walk.ordered youngest member⟩
  inside := by
    intro _
    have positive := length_pos_of_ne_nil nonempty
    change walk.instList.length - 1 < walk.instList.length
    omega
  atEnd := fun done => absurd done Bool.false_ne_true

theorem start_remaining :
    (walk.start squashNum).remaining = walk.instList.countP (squashNum < ·) := by
  have visited := visiting_start nonempty
  change (visiting walk.instList (walk.instList.length - 1)).countP (squashNum < ·) = _
  rw [visited, countP_reverse]

end

/-- The number of cycles that a squash of `younger` instructions may take. -/
def cycleBound (params : RobParams) (younger : Nat) : Nat :=
  max 1 ((younger + params.squashWidth - 1) / params.squashWidth)

theorem squashOver_spec (nonempty : walk.instList ≠ []) (insts : InstTable) (squashNum : Nat)
    (exiting : Bool) (later : List Bool) :
    ∃ marked next, walk.squashOver insts squashNum exiting later = .ok (marked, next) ∧
      next.Walking insts marked ∧ next.instList = walk.instList ∧
      next.squashedSeqNum = squashNum ∧
      (next.doneSquashing = false → 0 < next.remaining ∧
        next.remaining + (later.length + 1) * params.squashWidth ≤
          walk.instList.countP (squashNum < ·)) := by
  obtain ⟨marked, next, ran, walking, instList, sameNum, exit⟩ :=
    (start_walking nonempty insts squashNum).cycle rfl exiting
  obtain ⟨last, final, cycles, finalWalking, sameList, finalNum, finalExit⟩ :=
    walking.cycles (fun going => (exit going).1) later
  refine ⟨last, final, ?_, finalWalking, sameList.trans instList, finalNum.trans sameNum, ?_⟩
  · unfold squashOver
    rw [squash_eq nonempty, ran]
    exact cycles
  · intro going
    obtain ⟨nextGoing, pending, counted⟩ := finalExit going
    obtain ⟨_, step⟩ := exit nextGoing
    rw [start_remaining nonempty] at step
    refine ⟨pending, ?_⟩
    rw [Nat.succ_mul]
    omega

def stop (walk : SquashWalk params) (squashNum : Nat) : SquashWalk params :=
  { walk with
    squashIt := walk.instList.length, squashedSeqNum := squashNum, doneSquashing := true }

theorem squashOver_done (nonempty : walk.instList ≠ []) (positive : 0 < params.squashWidth)
    (insts : InstTable) (squashNum : Nat) (exiting : Bool) {later : List Bool}
    (enough : cycleBound params (walk.instList.countP (squashNum < ·)) ≤ later.length + 1) :
    walk.squashOver insts squashNum exiting later =
      .ok (squashedTable insts walk.instList squashNum, walk.stop squashNum) := by
  obtain ⟨marked, next, ran, walking, instList, sameNum, exit⟩ :=
    squashOver_spec nonempty insts squashNum exiting later
  have done : next.doneSquashing = true := by
    refine Bool.of_not_eq_false fun going => ?_
    obtain ⟨pending, counted⟩ := exit going
    generalize walk.instList.countP (squashNum < ·) = younger at enough counted
    have cycles : (younger + params.squashWidth - 1) / params.squashWidth ≤ later.length + 1 :=
      Nat.le_trans (Nat.le_max_right _ _) enough
    have covered : younger + params.squashWidth - 1 < (later.length + 1 + 1) * params.squashWidth :=
      (Nat.div_lt_iff_lt_mul positive).mp (Nat.lt_succ_of_le cycles)
    rw [Nat.succ_mul (later.length + 1)] at covered
    omega
  have table := walking.done done
  rw [instList, sameNum] at table
  have final : next = walk.stop squashNum := by
    have atEnd := walking.atEnd done
    cases next
    cases walk
    simp only at instList sameNum done atEnd
    subst instList sameNum done atEnd
    rfl
  rw [ran, table, final]

theorem squashedTable_twice (base insts : InstTable) (instList : List Nat) {first second : Nat}
    (smaller : second ≤ first)
    (marks : ∀ inst, insts inst = base inst ∨ inst ∈ instList ∧ first < inst ∧
      insts inst = (base inst).squashInRob) :
    squashedTable insts instList second = squashedTable base instList second := by
  funext inst
  unfold squashedTable
  rw [InstTable.modifyAll_apply, InstTable.modifyAll_apply]
  split
  case isTrue =>
    rcases marks inst with same | ⟨_, _, marked⟩
    · rw [same]
    · rw [marked, Rob.squashInRob_idem]
  case isFalse other =>
    rcases marks inst with same | ⟨member, younger, _⟩
    · exact same
    · exact absurd (decide_eq_true ⟨member, Nat.lt_of_le_of_lt smaller younger⟩) other

/-- A squash never leaves the list, is done within the bound with exactly the younger
instructions squashed, and is superseded by a later squash with a number that is not
larger, however many cycles it has run. -/
theorem rob_squash_exact (nonempty : walk.instList ≠ []) (positive : 0 < params.squashWidth)
    (insts : InstTable) (squashNum : Nat) :
    (∀ exiting later, ∃ result, walk.squashOver insts squashNum exiting later = .ok result) ∧
    (∀ exiting later, cycleBound params (walk.instList.countP (squashNum < ·)) ≤ later.length + 1 →
      walk.squashOver insts squashNum exiting later =
        .ok (squashedTable insts walk.instList squashNum, walk.stop squashNum)) ∧
    ∀ exiting later second secondExiting secondLater, second ≤ squashNum →
      cycleBound params (walk.instList.countP (second < ·)) ≤ secondLater.length + 1 →
      (do
        let (insts, walk) ← walk.squashOver insts squashNum exiting later
        walk.squashOver insts second secondExiting secondLater) =
      walk.squashOver insts second secondExiting secondLater := by
  refine ⟨?_, ?_, ?_⟩
  · intro exiting later
    obtain ⟨marked, next, ran, -⟩ := squashOver_spec nonempty insts squashNum exiting later
    exact ⟨(marked, next), ran⟩
  · intro exiting later enough
    exact squashOver_done nonempty positive insts squashNum exiting enough
  · intro exiting later second secondExiting secondLater smaller enough
    obtain ⟨marked, next, ran, walking, instList, sameNum, -⟩ :=
      squashOver_spec nonempty insts squashNum exiting later
    have nextNonempty : next.instList ≠ [] := instList ▸ nonempty
    have nextEnough : cycleBound params (next.instList.countP (second < ·)) ≤
        secondLater.length + 1 := instList ▸ enough
    have marks := walking.marks
    rw [instList, sameNum] at marks
    have stopped : next.stop second = walk.stop second := by
      cases next
      cases walk
      subst instList
      rfl
    rw [ran, squashOver_done nonempty positive insts second secondExiting enough]
    refine (squashOver_done nextNonempty positive marked second secondExiting nextEnough).trans ?_
    rw [instList, squashedTable_twice insts marked walk.instList smaller marks, stopped]

def fiveInsts : SquashWalk
    { numEntries := 8, numThreads := 1, squashWidth := 2, robPolicy := .dynamic
      smtROBThreshold := 8 } where
  instList := [3, 4, 6, 7, 9]
  squashIt := 5
  squashedSeqNum := 0
  doneSquashing := true
  ordered := by decide
  fits := by decide

/-- A squash past 4 is restarted by one past 3 after its first cycle. -/
theorem rob_squash_exact_fiveInsts :
    (do
      let (insts, walk) ← fiveInsts.squashOver (fun _ => {}) 4 false []
      walk.squashOver insts 3 false [false]) = fiveInsts.squashOver (fun _ => {}) 3 false [false] ∧
    fiveInsts.squashOver (fun _ => {}) 3 false [false] =
      .ok (squashedTable (fun _ => {}) [3, 4, 6, 7, 9] 3, fiveInsts.stop 3) :=
  ⟨(rob_squash_exact (by decide) (by decide) (fun _ => {}) 4).2.2 false [] 3 false [false]
    (by decide) (by decide),
   (rob_squash_exact (by decide) (by decide) (fun _ => {}) 3).2.1 false [false] (by decide)⟩

end SquashWalk

end Runahead.O3.RobSquash
