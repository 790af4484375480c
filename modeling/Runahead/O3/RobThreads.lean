import Mathlib.Algebra.BigOperators.Group.Finset.Basic
import Mathlib.Order.Bounds.Basic
import Runahead.Library.Transition
import Runahead.Rob

/-!
# The reorder buffer with several threads

`rob.cc` as a whole: the lists of the threads with the counters, the entry
limits and the cached head that are kept along with them. Commit inserts what
rename sends, retires a head that commits, is squashed or is pseudo-retired, and
squashes over several cycles; the CPU activates and deactivates threads.
-/

set_option autoImplicit false

namespace Runahead.O3

open Library Function List

inductive SMTQueuePolicy where
  | dynamic | partitioned | threshold
  deriving DecidableEq, Repr

structure RobParams where
  numEntries : Nat
  numThreads : Nat
  squashWidth : Nat
  robPolicy : SMTQueuePolicy
  smtROBThreshold : Nat
  deriving DecidableEq, Repr

structure ThreadedRob where
  insts : InstTable
  threads : ThreadID → Rob
  threadEntries : ThreadID → Nat
  maxEntries : ThreadID → Nat
  numInstsInROB : Nat
  /-- The cached head of the whole ROB; `none` is `instList[0].end()`. -/
  head : Option Nat
  activeThreads : List ThreadID

inductive RobEvent where
  | insertInst (tid : ThreadID) (inst : Nat)
  /-- Other stages change the status of an instruction. -/
  | setCanCommit (inst : Nat)
  | setRunaheadInst (inst : Nat)
  | retireHead (tid : ThreadID)
  /-- `exiting` is `isThreadExiting`, which lifts the squash width. -/
  | squash (tid : ThreadID) (squashNum : Nat) (exiting : Bool)
  | doSquash (tid : ThreadID) (exiting : Bool)
  | activateThread (tid : ThreadID)
  | deactivateThread (tid : ThreadID)
  | updateThreadPriority
  | resetEntries
  deriving DecidableEq, Repr

/-- The entry limits that the constructor sets. -/
def RobParams.startEntries (params : RobParams) (tid : ThreadID) : Nat :=
  if tid < params.numThreads then
    match params.robPolicy with
    | .dynamic => params.numEntries
    | .partitioned => params.numEntries / params.numThreads
    | .threshold => params.smtROBThreshold
  else 0

def RobParams.numInstsToSquash (params : RobParams) (exiting : Bool) : Nat :=
  if exiting then params.numEntries else params.squashWidth

namespace ThreadedRob

variable {params : RobParams} {state next : ThreadedRob} {tid : ThreadID} {inst : Nat}

def instList (state : ThreadedRob) (tid : ThreadID) : List Nat := (state.threads tid).instList

variable (params)

def countInsts (state : ThreadedRob) : Nat :=
  ∑ tid ∈ Finset.range params.numThreads, (state.instList tid).length

variable (state)

/-- What a thread contributes to the search for the lowest sequence number. -/
def lowerHead (lowest : Option Nat) (tid : ThreadID) : Option Nat :=
  match (state.threads tid).readHeadInst with
  | none => lowest
  | some inst =>
    match lowest with
    | none => some inst
    | some lowestNum => if inst < lowestNum then some inst else lowest

/-- `updateHead` looks at the active threads only. -/
def updateHead : ThreadedRob :=
  { state with head := state.activeThreads.foldl state.lowerHead none }

def insertInst (state : ThreadedRob) (tid : ThreadID) (inst : Nat) : Option ThreadedRob :=
  if state.numInstsInROB = params.numEntries then none
  else
    let pushed : Rob :=
      { state.threads tid with instList := state.instList tid ++ [inst] }
    -- The head is set up for the first instruction only, and must then be that instruction.
    if state.numInstsInROB = 0 && pushed.readHeadInst != some inst then none
    else
      some { state with
        threads := Function.update state.threads tid pushed
        head := if state.numInstsInROB = 0 then pushed.readHeadInst else state.head
        numInstsInROB := state.numInstsInROB + 1
        threadEntries := Function.update state.threadEntries tid (state.threadEntries tid + 1) }

def retireHead (state : ThreadedRob) (tid : ThreadID) : Option ThreadedRob :=
  match (state.threads tid).readHeadInst with
  | none => none
  | some inst =>
    if state.numInstsInROB = 0 then none
    else if (state.insts inst).runaheadInst || (state.insts inst).canCommit then
      some (updateHead { state with
        threads := Function.update state.threads tid (state.threads tid).retireHead
        numInstsInROB := state.numInstsInROB - 1
        threadEntries := Function.update state.threadEntries tid (state.threadEntries tid - 1) })
    else none

def setThread (tid : ThreadID) (squashing : InstTable × Rob) : ThreadedRob :=
  { state with insts := squashing.1, threads := Function.update state.threads tid squashing.2 }

def squash (params : RobParams) (state : ThreadedRob) (tid : ThreadID) (squashNum : Nat)
    (exiting : Bool) : ThreadedRob :=
  if state.threadEntries tid = 0 then state
  else state.setThread tid
    ((state.threads tid).squash (params.numInstsToSquash exiting) state.insts squashNum)

/-- `doSquash`; its assertion fails when no squash is going on. -/
def doSquash (params : RobParams) (state : ThreadedRob) (tid : ThreadID) (exiting : Bool) :
    Option ThreadedRob :=
  if (state.threads tid).squashIt.isSome then
    some (state.setThread tid
      ((state.threads tid).doSquash (params.numInstsToSquash exiting) state.insts))
  else none

def newEntries (state : ThreadedRob) (tid : ThreadID) : Nat :=
  if (params.robPolicy ≠ .dynamic || 1 < params.numThreads) && state.activeThreads.contains tid then
    match params.robPolicy with
    | .dynamic => state.maxEntries tid
    | .partitioned => params.numEntries / state.activeThreads.length
    | .threshold =>
      if state.activeThreads.length = 1 then params.numEntries else state.maxEntries tid
  else state.maxEntries tid

/-- `updateThreadPriority`: round robin. -/
def rotateThreads : List ThreadID → List ThreadID
  | highThread :: second :: rest => second :: rest ++ [highThread]
  | threads => threads

/-- One operation; a failing assertion of the ROB ends the run. -/
def step (state : ThreadedRob) : RobEvent → Option ThreadedRob
  | .insertInst tid inst =>
    if tid < params.numThreads then state.insertInst params tid inst else none
  | .setCanCommit inst =>
    some { state with insts := state.insts.modify inst DynInst.setCanCommit }
  | .setRunaheadInst inst =>
    some { state with insts := state.insts.modify inst DynInst.setRunaheadInst }
  | .retireHead tid => state.retireHead tid
  | .squash tid squashNum exiting => some (state.squash params tid squashNum exiting)
  | .doSquash tid exiting => state.doSquash params tid exiting
  | .activateThread tid =>
    if tid < params.numThreads then
      some { state with
        activeThreads :=
          if state.activeThreads.contains tid then state.activeThreads
          else state.activeThreads ++ [tid] }
    else none
  | .deactivateThread tid =>
    some { state with activeThreads := state.activeThreads.erase tid }
  | .updateThreadPriority =>
    some { state with activeThreads := rotateThreads state.activeThreads }
  | .resetEntries => some { state with maxEntries := state.newEntries params }

def initial : ThreadedRob where
  insts _ := {}
  threads _ := {}
  threadEntries _ := 0
  maxEntries := params.startEntries
  numInstsInROB := 0
  head := none
  activeThreads := []

/-! ## Counters -/

structure Counted (params : RobParams) (state : ThreadedRob) : Prop where
  entries : ∀ tid, state.threadEntries tid = (state.instList tid).length
  total : state.numInstsInROB = state.countInsts params
  capacity : state.numInstsInROB ≤ params.numEntries
  unused : ∀ tid, params.numThreads ≤ tid → state.instList tid = []

variable {state} {params}

theorem Counted.of_same (counted : state.Counted params)
    (lists : ∀ tid, next.instList tid = state.instList tid)
    (entries : next.threadEntries = state.threadEntries)
    (total : next.numInstsInROB = state.numInstsInROB) : next.Counted params where
  entries tid := by rw [entries, lists, counted.entries]
  total := by simp only [total, countInsts, lists, counted.total]
  capacity := total ▸ counted.capacity
  unused tid beyond := (lists tid).trans (counted.unused tid beyond)

theorem sum_update_length (params : RobParams) (lists : ThreadID → List Nat)
    (known : tid < params.numThreads) (list : List Nat) :
    ∑ other ∈ Finset.range params.numThreads, (update lists tid list other).length +
        (lists tid).length =
      ∑ other ∈ Finset.range params.numThreads, (lists other).length + list.length := by
  have inside : tid ∈ Finset.range params.numThreads := Finset.mem_range.mpr known
  have before : (lists tid).length +
      ∑ other ∈ (Finset.range params.numThreads).erase tid, (lists other).length =
      ∑ other ∈ Finset.range params.numThreads, (lists other).length :=
    Finset.add_sum_erase _ (fun other => (lists other).length) inside
  have after : (update lists tid list tid).length +
      ∑ other ∈ (Finset.range params.numThreads).erase tid, (update lists tid list other).length =
      ∑ other ∈ Finset.range params.numThreads, (update lists tid list other).length :=
    Finset.add_sum_erase _ (fun other => (update lists tid list other).length) inside
  have others : ∑ other ∈ (Finset.range params.numThreads).erase tid,
      (update lists tid list other).length =
      ∑ other ∈ (Finset.range params.numThreads).erase tid, (lists other).length :=
    Finset.sum_congr rfl fun other member => by
      rw [update_of_ne (Finset.ne_of_mem_erase member)]
  rw [update_self] at after
  omega

theorem Counted.exchange (counted : state.Counted params) {list : List Nat} {entries : Nat}
    (known : tid < params.numThreads)
    (lists : next.instList = update state.instList tid list)
    (counts : next.threadEntries = update state.threadEntries tid entries)
    (length : entries = list.length)
    (balance : next.numInstsInROB + state.threadEntries tid = state.numInstsInROB + entries)
    (capacity : next.numInstsInROB ≤ params.numEntries) : next.Counted params where
  entries other := by
    rw [lists, counts, update_apply, update_apply]
    split
    · exact length
    · exact counted.entries other
  total := by
    have sum := sum_update_length params state.instList known list
    have total := counted.total
    have own := counted.entries tid
    unfold countInsts at total ⊢
    rw [lists]
    omega
  capacity := capacity
  unused other beyond := by
    rw [lists, update_of_ne (Nat.ne_of_gt (Nat.lt_of_lt_of_le known beyond))]
    exact counted.unused other beyond

/-! ## The head -/

variable (state)

def heads (threads : List ThreadID) : List Nat :=
  threads.filterMap fun tid => (state.instList tid).head?

theorem lowerHead_of_head (lowest : Option Nat) {head : Option Nat}
    (atHead : (state.instList tid).head? = head) :
    state.lowerHead lowest tid = lowest.elim head fun low => some (head.elim low (min low)) := by
  have atHead : (state.threads tid).instList.head? = head := atHead
  simp only [lowerHead, Rob.readHeadInst, atHead]
  cases head with
  | none => cases lowest <;> rfl
  | some head =>
    cases lowest with
    | none => rfl
    | some low =>
      simp only [Option.elim]
      split
      · next below => rw [Nat.min_eq_right (Nat.le_of_lt below)]
      · next above => rw [Nat.min_eq_left (Nat.le_of_not_lt above)]

theorem foldl_lowerHead_some (threads : List ThreadID) (lowest : Nat) :
    threads.foldl state.lowerHead (some lowest) =
      some ((state.heads threads).foldl min lowest) := by
  induction threads generalizing lowest with
  | nil => rfl
  | cons tid rest ih =>
    cases atHead : (state.instList tid).head? with
    | none | some => simp [heads, atHead, lowerHead_of_head state _ atHead, ih]

/-- The search finds the least of the heads of the active threads. -/
theorem updateHead_head :
    state.updateHead.head = (state.heads state.activeThreads).min? := by
  change state.activeThreads.foldl state.lowerHead none = _
  induction state.activeThreads with
  | nil => rfl
  | cons tid rest ih =>
    cases atHead : (state.instList tid).head? with
    | none => simpa [heads, atHead, lowerHead_of_head state _ atHead] using ih
    | some head =>
      have found : state.heads (tid :: rest) = head :: state.heads rest :=
        filterMap_cons_some atHead
      rw [found, min?_cons', foldl_cons, lowerHead_of_head state none atHead]
      exact foldl_lowerHead_some state rest head

/-- Some instruction is in the ROB and `head` is the oldest of all. -/
def HeadOldest (head : Nat) : Prop :=
  state.head = some head ∧ IsLeast { inst | ∃ tid, inst ∈ state.instList tid } head

variable {state}

/-- When no thread with instructions is left out, the search finds the oldest of all. -/
theorem updateHead_oldest (ordered : ∀ tid, (state.instList tid).Pairwise (· < ·))
    (active : ∀ tid, state.instList tid ≠ [] → tid ∈ state.activeThreads)
    (member : inst ∈ state.instList tid) : ∃ head, state.updateHead.HeadOldest head := by
  have visited : ∀ {tid inst}, inst ∈ state.instList tid →
      ∃ first ∈ state.heads state.activeThreads, first ≤ inst := by
    intro tid inst member
    obtain ⟨first, rest, list⟩ := exists_cons_of_ne_nil (ne_nil_of_mem member)
    refine ⟨first, mem_filterMap.mpr ⟨tid, active tid (by simp [list]), by simp [list]⟩, ?_⟩
    have sorted := ordered tid
    rw [list] at member sorted
    rcases mem_cons.mp member with rfl | later
    · exact Nat.le_refl _
    · exact Nat.le_of_lt ((pairwise_cons.mp sorted).1 inst later)
  cases found : (state.heads state.activeThreads).min? with
  | none =>
    obtain ⟨first, inside, _⟩ := visited member
    rw [min?_eq_none_iff.mp found] at inside
    cases inside
  | some head =>
    obtain ⟨inside, least⟩ := min?_eq_some_iff.mp found
    obtain ⟨owner, _, atHead⟩ := mem_filterMap.mp inside
    refine ⟨head, (updateHead_head state).trans found, ⟨owner, mem_of_mem_head? atHead⟩, ?_⟩
    rintro inst ⟨tid, member⟩
    obtain ⟨first, listed, before⟩ := visited member
    exact Nat.le_trans (least first listed) before

/-! ## One step -/

/-- What a step does to the lists and the counters. -/
inductive ListStep (params : RobParams) (state next : ThreadedRob) : Prop where
  | same (lists : ∀ tid, next.instList tid = state.instList tid)
      (entries : next.threadEntries = state.threadEntries)
      (total : next.numInstsInROB = state.numInstsInROB)
  | insert (tid : ThreadID) (inst : Nat) (known : tid < params.numThreads)
      (room : state.numInstsInROB ≠ params.numEntries)
      (lists : next.instList = Function.update state.instList tid (state.instList tid ++ [inst]))
      (entries : next.threadEntries =
        Function.update state.threadEntries tid (state.threadEntries tid + 1))
      (total : next.numInstsInROB = state.numInstsInROB + 1)
  | retire (tid : ThreadID) (inst : Nat) (rest : List Nat) (nonempty : state.numInstsInROB ≠ 0)
      (list : state.instList tid = inst :: rest)
      (lists : next.instList = Function.update state.instList tid rest)
      (entries : next.threadEntries =
        Function.update state.threadEntries tid (state.threadEntries tid - 1))
      (total : next.numInstsInROB = state.numInstsInROB - 1)

theorem ListStep.counted (stepped : ListStep params state next) (counted : state.Counted params) :
    next.Counted params := by
  cases stepped with
  | same lists entries total => exact counted.of_same lists entries total
  | insert tid inst known room lists entries total =>
    refine counted.exchange known lists entries ?_ ?_ ?_
    · simp [counted.entries tid]
    · omega
    · have := counted.capacity
      omega
  | retire tid inst rest nonempty list lists entries total =>
    have known : tid < params.numThreads := by
      by_contra beyond
      rw [counted.unused tid (Nat.le_of_not_lt beyond)] at list
      cases list
    have length : state.threadEntries tid = rest.length + 1 := by
      rw [counted.entries, list, length_cons]
    refine counted.exchange known lists entries ?_ ?_ ?_
    · omega
    · omega
    · have := counted.capacity
      omega

theorem instList_updated (rob : Rob) (threads : next.threads = update state.threads tid rob) :
    next.instList = update state.instList tid rob.instList := by
  funext other
  rw [instList, threads, update_apply, update_apply]
  split
  · rfl
  · rfl

theorem insertInst_cases (inserted : state.insertInst params tid inst = some next) :
    state.numInstsInROB ≠ params.numEntries ∧
    next.instList = update state.instList tid (state.instList tid ++ [inst]) ∧
    next.threadEntries = update state.threadEntries tid (state.threadEntries tid + 1) ∧
    next.numInstsInROB = state.numInstsInROB + 1 ∧
    next.head = (if state.numInstsInROB = 0 then some inst else state.head) ∧
    next.maxEntries = state.maxEntries ∧ next.activeThreads = state.activeThreads := by
  simp only [insertInst, Option.ite_none_left_eq_some] at inserted
  obtain ⟨room, first, inserted⟩ := inserted
  have first : state.numInstsInROB = 0 → (state.instList tid ++ [inst]).head? = some inst := by
    simpa [Rob.readHeadInst] using first
  cases inserted
  refine ⟨room, instList_updated { state.threads tid with instList := _ } rfl, rfl, rfl, ?_,
    rfl, rfl⟩
  split
  · next empty => exact first empty
  · rfl

theorem retireHead_cases (retired : state.retireHead tid = some next) :
    ∃ inst rest, state.numInstsInROB ≠ 0 ∧ state.instList tid = inst :: rest ∧
      ∃ removed : ThreadedRob, next = removed.updateHead ∧
        removed.instList = update state.instList tid rest ∧
        removed.threadEntries = update state.threadEntries tid (state.threadEntries tid - 1) ∧
        removed.numInstsInROB = state.numInstsInROB - 1 ∧
        removed.maxEntries = state.maxEntries ∧ removed.activeThreads = state.activeThreads := by
  unfold retireHead at retired
  split at retired
  · cases retired
  · next inst atHead =>
    simp only [Option.ite_none_left_eq_some, Option.ite_none_right_eq_some] at retired
    obtain ⟨nonempty, _, retired⟩ := retired
    cases retired
    obtain ⟨rest, list⟩ := head?_eq_some_iff.mp atHead
    refine ⟨inst, rest, nonempty, list, _, rfl, ?_, rfl, rfl, rfl, rfl⟩
    have tail : (state.threads tid).retireHead.instList = rest := by
      change (state.threads tid).instList.tail = rest
      rw [list, tail_cons]
    exact tail ▸ instList_updated _ rfl

theorem setThread_instList {squashing : InstTable × Rob}
    (list : squashing.2.instList = state.instList tid) (other : ThreadID) :
    (state.setThread tid squashing).instList other = state.instList other := by
  have updated : (state.setThread tid squashing).instList = _ := instList_updated _ rfl
  rw [updated, list, update_eq_self]

theorem squash_instList (squashNum : Nat) (exiting : Bool) (other : ThreadID) :
    (state.squash params tid squashNum exiting).instList other = state.instList other := by
  unfold squash
  split
  · rfl
  · exact setThread_instList (Rob.squash_instList _ _ _ _) other

theorem squash_frame (state : ThreadedRob) (squashNum : Nat) (exiting : Bool) :
    ∃ insts threads, state.squash params tid squashNum exiting =
      { state with insts := insts, threads := threads } := by
  unfold squash
  split
  · exact ⟨_, _, rfl⟩
  · exact ⟨_, _, rfl⟩

theorem step_list {event : RobEvent} (stepped : state.step params event = some next) :
    ListStep params state next := by
  cases event with
  | insertInst tid inst =>
    obtain ⟨known, inserted⟩ := Option.ite_none_right_eq_some.mp stepped
    obtain ⟨room, lists, entries, total, _⟩ := insertInst_cases inserted
    exact .insert tid inst known room lists entries total
  | retireHead tid =>
    obtain ⟨inst, rest, nonempty, list, removed, rfl, lists, entries, total, _⟩ :=
      retireHead_cases stepped
    exact .retire tid inst rest nonempty list lists entries total
  | squash tid squashNum exiting =>
    cases stepped
    obtain ⟨insts, threads, same⟩ := squash_frame state squashNum exiting
    exact .same (squash_instList squashNum exiting) (same ▸ rfl) (same ▸ rfl)
  | doSquash tid exiting =>
    obtain ⟨_, rfl⟩ := fired stepped
    exact .same (setThread_instList (Rob.doSquash_instList _ _ _)) rfl rfl
  | activateThread tid =>
    obtain ⟨_, rfl⟩ := fired stepped
    exact .same (fun _ => rfl) rfl rfl
  | setCanCommit | setRunaheadInst | deactivateThread | updateThreadPriority | resetEntries =>
    cases stepped
    exact .same (fun _ => rfl) rfl rfl

theorem initial_counted : (initial params).Counted params where
  entries _ := rfl
  total := by simp [countInsts, instList, initial]
  capacity := Nat.zero_le _
  unused _ _ := rfl

theorem reachable_counted (reached : Reaches (step params) anyEvent (initial params) state) :
    state.Counted params :=
  reached.invariant initial_counted fun counted _ stepped => (step_list stepped).counted counted

theorem Counted.eq_nil (counted : state.Counted params) (empty : state.numInstsInROB = 0)
    (tid : ThreadID) : state.instList tid = [] := by
  by_cases known : tid < params.numThreads
  · have zero := counted.total.symm.trans empty
    exact length_eq_zero_iff.mp (Finset.sum_eq_zero_iff.mp zero tid (Finset.mem_range.mpr known))
  · exact counted.unused tid (Nat.le_of_not_lt known)

/-! ## Regular runs -/

/-- An instruction arrives behind those of its thread and not in front of all others, for a
thread that is active and has an entry left. A thread is deactivated when it has nothing in
the ROB. The entries are shared out anew while one thread is active at most, or while no
thread uses more than an equal share for all of them. -/
def regular (params : RobParams) (state : ThreadedRob) : RobEvent → Bool
  | .insertInst tid inst => state.activeThreads.contains tid &&
      (state.instList tid).all (· < inst) &&
      (state.numInstsInROB = 0 ||
        (List.range params.numThreads).any fun other => (state.instList other).any (· < inst)) &&
      decide (state.numInstsInROB < params.numEntries) &&
      decide (state.threadEntries tid < state.maxEntries tid)
  | .deactivateThread tid => (state.instList tid).isEmpty
  | .resetEntries => params.robPolicy ≠ .partitioned || state.activeThreads.length ≤ 1 ||
      (List.range params.numThreads).all fun tid =>
        decide (state.threadEntries tid ≤ params.numEntries / params.numThreads)
  | _ => true

structure Regular (params : RobParams) (state : ThreadedRob) : Prop extends
    Counted params state where
  ordered : ∀ tid, (state.instList tid).Pairwise (· < ·)
  within : ∀ tid, state.threadEntries tid ≤ state.maxEntries tid
  active : ∀ tid, state.instList tid ≠ [] → tid ∈ state.activeThreads
  distinct : state.activeThreads.Nodup
  known : ∀ tid ∈ state.activeThreads, tid < params.numThreads
  oldest : ∀ tid, ∀ inst ∈ state.instList tid, ∃ head, state.HeadOldest head

theorem initial_regular : (initial params).Regular params where
  toCounted := initial_counted
  ordered _ := .nil
  within _ := Nat.zero_le _
  active _ nonempty := absurd rfl nonempty
  distinct := nodup_nil
  known _ member := absurd member not_mem_nil
  oldest _ _ member := absurd member not_mem_nil

theorem Regular.of_same (regular : state.Regular params)
    (lists : ∀ tid, next.instList tid = state.instList tid)
    (entries : next.threadEntries = state.threadEntries)
    (total : next.numInstsInROB = state.numInstsInROB) (head : next.head = state.head)
    (within : ∀ tid, state.threadEntries tid ≤ next.maxEntries tid)
    (active : ∀ tid, state.instList tid ≠ [] → tid ∈ next.activeThreads)
    (distinct : next.activeThreads.Nodup)
    (known : ∀ tid ∈ next.activeThreads, tid < params.numThreads) : next.Regular params where
  toCounted := regular.toCounted.of_same lists entries total
  ordered tid := lists tid ▸ regular.ordered tid
  within tid := entries ▸ within tid
  active tid nonempty := active tid (lists tid ▸ nonempty)
  distinct := distinct
  known := known
  oldest tid inst member := by
    obtain ⟨least, found⟩ := regular.oldest tid inst (lists tid ▸ member)
    refine ⟨least, head.trans found.1, ?_⟩
    simp only [lists]
    exact found.2

theorem insertInst_regular (regular : state.Regular params)
    (counted : next.Counted params) (inserted : state.insertInst params tid inst = some next)
    (active : tid ∈ state.activeThreads) (younger : ∀ older ∈ state.instList tid, older < inst)
    (later : state.numInstsInROB = 0 ∨ ∃ other, ∃ older ∈ state.instList other, older < inst)
    (limit : state.threadEntries tid < state.maxEntries tid) : next.Regular params := by
  obtain ⟨_, lists, entries, _, head, limits, threads⟩ := insertInst_cases inserted
  have members : ∀ {other older}, older ∈ next.instList other →
      older ∈ state.instList other ∨ older = inst := by
    intro other older member
    rw [lists, update_apply] at member
    split at member
    · next same =>
      subst same
      exact (mem_append.mp member).imp_right mem_singleton.mp
    · exact .inl member
  have present : inst ∈ next.instList tid := by simp [lists]
  refine { counted with
    ordered := fun other => ?_
    within := fun other => ?_
    active := fun other nonempty => ?_
    distinct := threads ▸ regular.distinct
    known := threads ▸ regular.known
    oldest := fun _ _ _ => ?_ }
  · rw [lists, update_apply]
    split
    · exact pairwise_append.mpr ⟨regular.ordered tid, pairwise_singleton _ _,
        fun older member newer last => mem_singleton.mp last ▸ younger older member⟩
    · exact regular.ordered other
  · rw [entries, limits, update_apply]
    split
    · next same => exact same ▸ limit
    · exact regular.within other
  · rw [threads]
    by_cases same : other = tid
    · exact same ▸ active
    · refine regular.active other fun empty => nonempty ?_
      rw [lists, update_of_ne same, empty]
  · by_cases empty : state.numInstsInROB = 0
    · refine ⟨inst, head.trans (if_pos empty), ⟨tid, present⟩, ?_⟩
      rintro older ⟨other, member⟩
      rcases members member with before | same
      · rw [regular.eq_nil empty other] at before
        cases before
      · exact Nat.le_of_eq same.symm
    · obtain ⟨other, older, member, below⟩ := later.resolve_left empty
      obtain ⟨least, found, ⟨owner, own⟩, lowest⟩ := regular.oldest other older member
      refine ⟨least, head.trans ((if_neg empty).trans found), ⟨owner, ?_⟩, ?_⟩
      · rw [lists, update_apply]
        split
        · next same => exact mem_append_left _ (same ▸ own)
        · exact own
      · rintro listed ⟨other, inside⟩
        rcases members inside with before | same
        · exact lowest ⟨other, before⟩
        · exact same ▸ Nat.le_of_lt (Nat.lt_of_le_of_lt (lowest ⟨_, member⟩) below)

theorem retireHead_regular (regular : state.Regular params) (counted : next.Counted params)
    (retired : state.retireHead tid = some next) : next.Regular params := by
  obtain ⟨inst, rest, _, list, removed, rfl, lists, entries, _, limits, threads⟩ :=
    retireHead_cases retired
  have sub : ∀ {other older}, older ∈ removed.instList other → older ∈ state.instList other := by
    intro other older member
    rw [lists, update_apply] at member
    split at member
    · next same =>
      subst same
      exact list ▸ mem_cons_of_mem _ member
    · exact member
  have active : ∀ other, removed.instList other ≠ [] → other ∈ removed.activeThreads := by
    intro other nonempty
    obtain ⟨older, member⟩ := exists_mem_of_ne_nil _ nonempty
    exact threads ▸ regular.active other (ne_nil_of_mem (sub member))
  have ordered : ∀ other, (removed.instList other).Pairwise (· < ·) := by
    intro other
    rw [lists, update_apply]
    split
    · exact (pairwise_cons.mp (list ▸ regular.ordered tid)).2
    · exact regular.ordered other
  refine { counted with
    ordered := ordered
    within := fun other => ?_
    active := active
    distinct := threads ▸ regular.distinct
    known := threads ▸ regular.known
    oldest := fun other older member => updateHead_oldest ordered active member }
  change removed.threadEntries other ≤ removed.maxEntries other
  rw [entries, limits, update_apply]
  have := regular.within other
  split
  · next same =>
    subst same
    omega
  · exact this

theorem rotateThreads_perm (threads : List ThreadID) : (rotateThreads threads).Perm threads := by
  unfold rotateThreads
  split
  · exact perm_append_comm
  · exact .refl _

theorem Regular.newEntries (regular : state.Regular params)
    (admitted : ThreadedRob.regular params state .resetEntries = true) (tid : ThreadID) :
    state.threadEntries tid ≤ state.newEntries params tid := by
  have within := regular.within tid
  have all : state.threadEntries tid ≤ params.numEntries := by
    refine Nat.le_trans ?_ regular.capacity
    rw [regular.entries, regular.total]
    by_cases known : tid < params.numThreads
    · have parts : (state.instList tid).length + _ = state.countInsts params :=
        Finset.add_sum_erase _ (fun other => (state.instList other).length)
          (Finset.mem_range.mpr known)
      exact Nat.le_of_add_right_le (Nat.le_of_eq parts)
    · rw [regular.unused tid (Nat.le_of_not_lt known)]
      exact Nat.zero_le _
  unfold ThreadedRob.newEntries
  split
  case isFalse => exact within
  case isTrue active =>
    have active : tid ∈ state.activeThreads := contains_iff_mem.mp
      (Bool.and_eq_true_iff.mp active).2
    have share : state.activeThreads.length ≤ params.numThreads := by
      have subset : state.activeThreads ⊆ List.range params.numThreads :=
        fun other member => mem_range.mpr (regular.known other member)
      simpa using (regular.distinct.subperm subset).length_le
    split
    case h_1 => exact within
    case h_3 =>
      split
      · exact all
      · exact within
    case h_2 policy =>
      simp only [ThreadedRob.regular, policy, ne_eq, not_true_eq_false, decide_false,
        Bool.false_or, Bool.or_eq_true, decide_eq_true_eq, all_eq_true, mem_range] at admitted
      have some := length_pos_of_mem active
      rcases admitted with alone | fair
      · have one : state.activeThreads.length = 1 := by omega
        rw [one, Nat.div_one]
        exact all
      · exact Nat.le_trans (fair tid (regular.known tid active)) (Nat.div_le_div_left share some)

theorem step_regular {event : RobEvent} (regular : state.Regular params)
    (admitted : ThreadedRob.regular params state event = true)
    (stepped : state.step params event = some next) : next.Regular params := by
  have counted := (step_list stepped).counted regular.toCounted
  have within := regular.within
  have active := regular.active
  have distinct := regular.distinct
  have known := regular.known
  cases event with
  | insertInst tid inst =>
    obtain ⟨_, inserted⟩ := Option.ite_none_right_eq_some.mp stepped
    simp only [ThreadedRob.regular, Bool.and_eq_true, Bool.or_eq_true, decide_eq_true_eq,
      contains_iff_mem, all_eq_true, any_eq_true, mem_range] at admitted
    obtain ⟨⟨⟨⟨own, younger⟩, later⟩, _⟩, limit⟩ := admitted
    refine insertInst_regular regular counted inserted own younger (later.imp_right ?_) limit
    rintro ⟨other, _, older⟩
    exact ⟨other, older⟩
  | retireHead tid => exact retireHead_regular regular counted stepped
  | squash tid squashNum exiting =>
    cases stepped
    obtain ⟨insts, threads, same⟩ := squash_frame state squashNum exiting
    exact regular.of_same (squash_instList squashNum exiting) (same ▸ rfl) (same ▸ rfl)
      (same ▸ rfl) (same ▸ within) (same ▸ active) (same ▸ distinct) (same ▸ known)
  | doSquash tid exiting =>
    obtain ⟨_, rfl⟩ := fired stepped
    exact regular.of_same (setThread_instList (Rob.doSquash_instList _ _ _)) rfl rfl rfl
      within active distinct known
  | activateThread tid =>
    obtain ⟨inside, rfl⟩ := fired stepped
    by_cases before : state.activeThreads.contains tid = true
    · simp only [before, if_true]
      exact { regular with }
    · simp only [before]
      refine regular.of_same (fun _ => rfl) rfl rfl rfl within
        (fun other nonempty => mem_append_left _ (active other nonempty)) ?_ ?_
      · exact distinct.append (nodup_singleton tid) fun other old new =>
          before (contains_iff_mem.mpr (mem_singleton.mp new ▸ old))
      · exact forall_mem_append.mpr ⟨known, forall_mem_singleton.mpr inside⟩
  | deactivateThread tid =>
    cases stepped
    refine regular.of_same (fun _ => rfl) rfl rfl rfl within (fun other nonempty => ?_)
      (distinct.erase tid) fun other member => known other (mem_of_mem_erase member)
    have different : other ≠ tid := by
      rintro rfl
      exact nonempty (List.isEmpty_iff.mp admitted)
    exact (mem_erase_of_ne different).mpr (active other nonempty)
  | updateThreadPriority =>
    cases stepped
    have rotated := rotateThreads_perm state.activeThreads
    exact regular.of_same (fun _ => rfl) rfl rfl rfl within
      (fun other nonempty => rotated.mem_iff.mpr (active other nonempty))
      (rotated.nodup_iff.mpr distinct) fun other member => known other (rotated.mem_iff.mp member)
  | resetEntries =>
    cases stepped
    exact regular.of_same (fun _ => rfl) rfl rfl rfl (regular.newEntries admitted) active distinct
      known
  | setCanCommit | setRunaheadInst =>
    cases stepped
    exact regular.of_same (fun _ => rfl) rfl rfl rfl within active distinct known

theorem reachable_regular
    (reached : Reaches (step params) (regular params) (initial params) state) :
    state.Regular params :=
  reached.invariant initial_regular fun inv admitted stepped => step_regular inv admitted stepped

theorem Regular.inserts (regular : state.Regular params) (known : tid < params.numThreads)
    (admitted : ThreadedRob.regular params state (.insertInst tid inst) = true) :
    ∃ next, state.step params (.insertInst tid inst) = some next := by
  simp only [ThreadedRob.regular, Bool.and_eq_true, decide_eq_true_eq] at admitted
  have first : state.numInstsInROB = 0 → state.instList tid = [] :=
    fun empty => regular.eq_nil empty tid
  simp only [step, known, if_true, insertInst, Nat.ne_of_lt admitted.1.2, if_false]
  rw [if_neg]
  · exact ⟨_, rfl⟩
  · simp only [Bool.and_eq_true, decide_eq_true_eq, bne_iff_ne, ne_eq, not_and, not_not]
    intro empty
    simp [Rob.readHeadInst, first empty]

/-- The counters agree with the lists in every run. In a regular run the lists are in order,
the cached head is the oldest instruction, no thread exceeds its limit, and no assertion of
`insertInst` fails. -/
theorem rob_representation (params : RobParams) :
    (∀ state, Reaches (step params) anyEvent (initial params) state →
      (∀ tid, state.threadEntries tid = (state.instList tid).length) ∧
      state.numInstsInROB = state.countInsts params ∧
      state.numInstsInROB ≤ params.numEntries) ∧
    ∀ state, Reaches (step params) (regular params) (initial params) state →
      (∀ tid, (state.instList tid).Pairwise (· < ·)) ∧
      (∀ tid, state.threadEntries tid ≤ state.maxEntries tid) ∧
      (state.numInstsInROB ≠ 0 → ∃ head, state.HeadOldest head) ∧
      ∀ tid inst, tid < params.numThreads → regular params state (.insertInst tid inst) = true →
        ∃ next, state.step params (.insertInst tid inst) = some next := by
  refine ⟨fun state reached => ?_, fun state reached => ?_⟩
  · have counted := reachable_counted reached
    exact ⟨counted.entries, counted.total, counted.capacity⟩
  · have regular := reachable_regular reached
    refine ⟨regular.ordered, regular.within, fun nonempty => ?_, fun _ _ => regular.inserts⟩
    by_contra none
    refine nonempty (regular.total.trans (Finset.sum_eq_zero fun tid _ => ?_))
    refine length_eq_zero_iff.mpr (eq_nil_iff_forall_not_mem.mpr fun inst member => ?_)
    exact none (regular.oldest tid inst member)

def shared : RobParams where
  numEntries := 8
  numThreads := 2
  squashWidth := 2
  robPolicy := .partitioned
  smtROBThreshold := 0

/-- Both threads insert in turn, one instruction retires, another is pseudo-retired. -/
theorem rob_representation_threads :
    ∃ state, Reaches (step shared) (regular shared) (initial shared) state ∧
      state.numInstsInROB = 2 ∧ ∃ head, state.HeadOldest head := by
  obtain ⟨state, reached, observed⟩ := reaches_of_observed (step shared) (regular shared)
    (initial shared)
    [.activateThread 0, .activateThread 1, .resetEntries, .insertInst 0 1, .insertInst 1 2,
      .insertInst 0 3, .insertInst 1 4, .setCanCommit 1, .retireHead 0, .setRunaheadInst 2,
      .retireHead 1, .squash 0 2 false]
    (fun state => state.numInstsInROB == 2) (by decide +kernel)
  have count : state.numInstsInROB = 2 := eq_of_beq observed
  exact ⟨state, reached, count, ((rob_representation shared).2 state reached).2.2.1 (by omega)⟩

/-- An instruction that rename has held back reaches the ROB after a younger one
of the other thread, and the cached head stays at the younger one. When a second
thread becomes active, the limit of the first falls below what it occupies. -/
theorem rob_head_stale_and_limit_exceeded :
    (∃ state, Reaches (step shared) anyEvent (initial shared) state ∧
      state.head = some 2 ∧ 1 ∈ state.instList 1) ∧
    ∃ state, Reaches (step shared) anyEvent (initial shared) state ∧
      state.maxEntries 0 < state.threadEntries 0 := by
  constructor
  · obtain ⟨state, reached, observed⟩ := reaches_of_observed (step shared) anyEvent (initial shared)
      [.activateThread 0, .activateThread 1, .insertInst 0 2, .insertInst 1 1]
      (fun state => state.head == some 2 && (state.instList 1).contains 1) (by decide +kernel)
    rw [Bool.and_eq_true] at observed
    exact ⟨state, reached, eq_of_beq observed.1, contains_iff_mem.mp observed.2⟩
  · obtain ⟨state, reached, observed⟩ := reaches_of_observed (step shared) anyEvent (initial shared)
      [.activateThread 0, .resetEntries, .insertInst 0 1, .insertInst 0 2, .insertInst 0 3,
        .insertInst 0 4, .insertInst 0 5, .activateThread 1, .resetEntries]
      (fun state => decide (state.maxEntries 0 < state.threadEntries 0)) (by decide +kernel)
    exact ⟨state, reached, of_decide_eq_true observed⟩

end ThreadedRob

end Runahead.O3
