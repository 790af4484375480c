import Runahead.O3.Commit
import Runahead.O3.RobThreads

/-!
# Loops over the active threads

`Commit::oldestReady`, which chooses the thread to commit from, and the queries of the
load/store queue whether its queues are full.
-/

set_option autoImplicit false

namespace Runahead.O3

open List

/-! ## The oldest head that is ready -/

structure HeadInst where
  seqNum : BitVec 64
  readyToCommit : Bool
  deriving DecidableEq, Repr

structure CommitThreads where
  activeThreads : List ThreadID
  commitStatus : ThreadID → ThreadStatus
  instList : ThreadID → List HeadInst

namespace CommitThreads

def committable (status : ThreadStatus) : Bool :=
  status = .running || status = .idle || status = .fetchTrapPending

variable (commit : CommitThreads)

/-- One iteration. The choice so far is there unless `first`; its sequence number is kept
in an `unsigned`. -/
def visit (oldest : Option (ThreadID × BitVec 32)) (tid : ThreadID) :
    Option (ThreadID × BitVec 32) :=
  match commit.instList tid with
  | [] => oldest
  | headInst :: _ =>
    if committable (commit.commitStatus tid) && headInst.readyToCommit then
      match oldest with
      | none => some (tid, headInst.seqNum.setWidth 32)
      | some (_, oldestSeqNum) =>
        if headInst.seqNum < oldestSeqNum.setWidth 64 then
          some (tid, headInst.seqNum.setWidth 32)
        else oldest
    else oldest

def oldestReady : Option ThreadID :=
  (commit.activeThreads.foldl commit.visit none).map Prod.fst

def readyHeads : List (ThreadID × HeadInst) :=
  commit.activeThreads.filterMap fun tid =>
    match commit.instList tid with
    | [] => none
    | headInst :: _ =>
      if committable (commit.commitStatus tid) && headInst.readyToCommit then some (tid, headInst)
      else none

/-- What `visit` does with a head that is ready. -/
def offer (oldest : Option (ThreadID × BitVec 32)) (ready : ThreadID × HeadInst) :
    Option (ThreadID × BitVec 32) :=
  match oldest with
  | none => some (ready.1, ready.2.seqNum.setWidth 32)
  | some (_, oldestSeqNum) =>
    if ready.2.seqNum < oldestSeqNum.setWidth 64 then
      some (ready.1, ready.2.seqNum.setWidth 32)
    else oldest

theorem foldl_visit (oldest : Option (ThreadID × BitVec 32)) :
    commit.activeThreads.foldl commit.visit oldest = commit.readyHeads.foldl offer oldest := by
  unfold readyHeads
  rw [foldl_filterMap]
  congr 1
  funext oldest tid
  unfold visit
  cases commit.instList tid with
  | nil => rfl
  | cons headInst rest =>
    dsimp only
    split
    · rfl
    · rfl

/-- A sequence number that is below some `unsigned` is read back as it was. -/
theorem setWidth_back {seqNum : BitVec 64} {bound : BitVec 32}
    (below : seqNum < bound.setWidth 64) : (seqNum.setWidth 32).setWidth 64 = seqNum := by
  refine BitVec.eq_of_toNat_eq ?_
  have small : seqNum.toNat < (bound.setWidth 64).toNat := below
  rw [BitVec.toNat_setWidth] at small
  rw [BitVec.toNat_setWidth, BitVec.toNat_setWidth]
  omega

/-- The choice changes exactly if some head is below the kept number, and then the
oldest head is chosen. -/
theorem foldl_offer (tid : ThreadID) (kept : BitVec 32) (heads : List (ThreadID × HeadInst)) :
    heads.foldl offer (some (tid, kept)) = some (tid, kept) ∧
      (∀ other ∈ heads, kept.setWidth 64 ≤ other.2.seqNum) ∨
    ∃ oldest ∈ heads, heads.foldl offer (some (tid, kept)) =
        some (oldest.1, oldest.2.seqNum.setWidth 32) ∧
      oldest.2.seqNum < kept.setWidth 64 ∧
      ∀ other ∈ heads, oldest.2.seqNum ≤ other.2.seqNum := by
  induction heads generalizing tid kept with
  | nil => exact .inl ⟨rfl, fun _ member => absurd member not_mem_nil⟩
  | cons head heads ih =>
    by_cases older : head.2.seqNum < kept.setWidth 64
    · have offered : offer (some (tid, kept)) head = some (head.1, head.2.seqNum.setWidth 32) :=
        if_pos older
      rw [foldl_cons, offered]
      refine .inr ?_
      have back := setWidth_back older
      rcases ih head.1 (head.2.seqNum.setWidth 32) with
        ⟨same, least⟩ | ⟨oldest, member, same, below, least⟩
      · rw [back] at least
        exact ⟨head, mem_cons_self, same, older, forall_mem_cons.mpr ⟨BitVec.le_refl _, least⟩⟩
      · rw [back] at below
        exact ⟨oldest, mem_cons_of_mem _ member, same, BitVec.lt_trans below older,
          forall_mem_cons.mpr ⟨BitVec.le_of_lt below, least⟩⟩
    · have offered : offer (some (tid, kept)) head = some (tid, kept) := if_neg older
      have notBelow := BitVec.not_lt.mp older
      rw [foldl_cons, offered]
      rcases ih tid kept with ⟨same, least⟩ | ⟨oldest, member, same, below, least⟩
      · exact .inl ⟨same, forall_mem_cons.mpr ⟨notBelow, least⟩⟩
      · refine .inr ⟨oldest, mem_cons_of_mem _ member, same, below, forall_mem_cons.mpr ⟨?_, least⟩⟩
        exact BitVec.le_trans (BitVec.le_of_lt below) notBelow

theorem readyHeads_unique {commit : CommitThreads} {tid : ThreadID} {first second : HeadInst}
    (one : (tid, first) ∈ commit.readyHeads) (other : (tid, second) ∈ commit.readyHeads) :
    first = second := by
  have own : ∀ {head}, (tid, head) ∈ commit.readyHeads →
      (commit.instList tid).head? = some head := by
    intro head member
    obtain ⟨_, _, found⟩ := mem_filterMap.mp member
    split at found
    · cases found
    · next whole =>
      split at found
      · cases found
        simp [whole]
      · cases found
  exact Option.some.inj ((own one).symm.trans (own other))

/-- Exactly if the first ready head that is visited is the oldest one, or some head is older
than its number reads in an `unsigned`, the oldest ready head is chosen. -/
theorem oldestReady_least :
    ((commit.oldestReady = none ↔ commit.readyHeads = []) ∧
      ∀ tid, commit.oldestReady = some tid → ∃ head, (tid, head) ∈ commit.readyHeads ∧
        ∀ other ∈ commit.readyHeads, head.seqNum ≤ other.2.seqNum) ↔
    ∀ first, commit.readyHeads.head? = some first →
      (∀ other ∈ commit.readyHeads, first.2.seqNum ≤ other.2.seqNum) ∨
      ∃ older ∈ commit.readyHeads, older.2.seqNum.toNat < first.2.seqNum.toNat % 2 ^ 32 := by
  have unique := @readyHeads_unique commit
  unfold oldestReady
  rw [foldl_visit]
  generalize commit.readyHeads = heads at unique ⊢
  cases heads with
  | nil => simp
  | cons first rest =>
    have read : ((first.2.seqNum.setWidth 32).setWidth 64).toNat =
        first.2.seqNum.toNat % 2 ^ 32 := by
      rw [BitVec.toNat_setWidth, BitVec.toNat_setWidth]
      omega
    have start : (first :: rest).foldl offer none =
        rest.foldl offer (some (first.1, first.2.seqNum.setWidth 32)) := rfl
    rw [start]
    rcases foldl_offer first.1 (first.2.seqNum.setWidth 32) rest with
      ⟨same, least⟩ | ⟨oldest, member, same, below, least⟩ <;> rw [same]
    · -- No head is below the kept number, so the first thread stays chosen.
      have notBelow : ∀ other ∈ first :: rest,
          first.2.seqNum.toNat % 2 ^ 32 ≤ other.2.seqNum.toNat :=
        forall_mem_cons.mpr ⟨Nat.mod_le _ _, fun other member => read ▸ least other member⟩
      constructor
      · rintro ⟨_, right⟩ _ ⟨⟩
        obtain ⟨head, member, least⟩ := right first.1 rfl
        cases unique member mem_cons_self
        exact .inl least
      · intro right
        refine ⟨by simp, ?_⟩
        rintro _ ⟨⟩
        rcases right first rfl with least | ⟨older, member, below⟩
        · exact ⟨first.2, mem_cons_self, least⟩
        · exact absurd below (Nat.not_lt.mpr (notBelow older member))
    · have older : oldest.2.seqNum.toNat < first.2.seqNum.toNat % 2 ^ 32 := read ▸ below
      refine iff_of_true ⟨by simp, ?_⟩ ?_
      · rintro _ ⟨⟩
        refine ⟨oldest.2, mem_cons_of_mem _ member, forall_mem_cons.mpr ⟨?_, least⟩⟩
        exact (Nat.le_of_lt older).trans (Nat.mod_le _ _)
      · rintro _ ⟨⟩
        exact .inr ⟨oldest, mem_cons_of_mem _ member, older⟩

def twoHeads (first second : BitVec 64) : CommitThreads where
  activeThreads := [0, 1]
  commitStatus := fun _ => .running
  instList := fun tid => [⟨if tid = 0 then first else second, true⟩]

example : (twoHeads 7 0x100000000).oldestReady = some 0 ∧
    (twoHeads 0x100000005 4).oldestReady = some 1 := by decide

/-- Thread 0 is visited first; its number is 0 in an `unsigned`, and the older head of
thread 1 is not below that. -/
theorem oldestReady_truncates :
    (twoHeads 0x100000000 0xFFFFFFFF).oldestReady = some 0 ∧
      (twoHeads 0x100000000 0xFFFFFFFF).readyHeads =
        [(0, ⟨0x100000000, true⟩), (1, ⟨0xFFFFFFFF, true⟩)] ∧
      (0xFFFFFFFF : BitVec 64) < 0x100000000 := by decide

end CommitThreads

/-! ## Full queues -/

structure QueueSize where
  size : Nat
  capacity : Nat
  deriving DecidableEq, Repr

def QueueSize.full (queue : QueueSize) : Bool := queue.size == queue.capacity

structure ThreadQueues where
  loadQueue : QueueSize
  storeQueue : QueueSize
  deriving DecidableEq, Repr

structure LSQ where
  lsqPolicy : SMTQueuePolicy
  activeThreads : List ThreadID
  thread : ThreadID → ThreadQueues

namespace LSQ

variable (lsq : LSQ)

def lqFull : Bool :=
  lsq.activeThreads.all fun tid => (lsq.thread tid).loadQueue.full

def lqFullThread (tid : ThreadID) : Bool :=
  if lsq.lsqPolicy = .dynamic then lsq.lqFull else (lsq.thread tid).loadQueue.full

/-- The loop of `sqFull`, which asks `sqFull(tid)`; `none` if such a call does not return. -/
def sqFullLoop (sqFullThread : ThreadID → Option Bool) : List ThreadID → Option Bool
  | [] => some true
  | tid :: threads =>
    (sqFullThread tid).bind fun full =>
      if full then sqFullLoop sqFullThread threads else some false

/-- `sqFull(tid)` with so many nested calls of itself at most. -/
def sqFullThread (lsq : LSQ) : Nat → ThreadID → Option Bool
  | 0, _ => none
  | depth + 1, tid =>
    if lsq.lsqPolicy = .dynamic then sqFullLoop (lsq.sqFullThread depth) lsq.activeThreads
    else some (lsq.thread tid).storeQueue.full

def sqFull (depth : Nat) : Option Bool :=
  sqFullLoop (lsq.sqFullThread depth) lsq.activeThreads

def exchanged : LSQ :=
  { lsq with thread := fun tid => ⟨(lsq.thread tid).storeQueue, (lsq.thread tid).loadQueue⟩ }

theorem sqFullLoop_answers (full : ThreadID → Bool) (threads : List ThreadID) :
    sqFullLoop (fun tid => some (full tid)) threads = some (threads.all full) := by
  induction threads with
  | nil => rfl
  | cons tid threads ih =>
    rw [sqFullLoop, ih, all_cons]
    cases full tid <;> rfl

/-- With the dynamic policy the two forms call each other without end. -/
theorem sqFullThread_dynamic {lsq : LSQ} (shared : lsq.lsqPolicy = .dynamic)
    (active : lsq.activeThreads ≠ []) (depth : Nat) (tid : ThreadID) :
    lsq.sqFullThread depth tid = none := by
  obtain ⟨first, rest, threads⟩ := exists_cons_of_ne_nil active
  induction depth generalizing tid with
  | zero => rfl
  | succ depth ih =>
    rw [sqFullThread, if_pos shared, threads, sqFullLoop, ih]
    rfl

theorem sqFullThread_fixed {lsq : LSQ} (fixed : lsq.lsqPolicy ≠ .dynamic) (depth : Nat) :
    lsq.sqFullThread (depth + 1) = fun tid => some (lsq.thread tid).storeQueue.full :=
  funext fun _ => if_neg fixed

/-- Exactly if the queues are not shared dynamically, or no thread is active, the queries
for the store queues return, with the answers that the load queues get. -/
theorem sqFull_answers :
    ((∃ bound, ∀ depth, bound ≤ depth → lsq.sqFull depth = some lsq.exchanged.lqFull) ∧
      ∀ tid, ∃ bound, ∀ depth, bound ≤ depth →
        lsq.sqFullThread depth tid = some (lsq.exchanged.lqFullThread tid)) ↔
    lsq.lsqPolicy ≠ .dynamic ∨ lsq.activeThreads = [] := by
  by_cases shared : lsq.lsqPolicy = .dynamic
  · by_cases nobody : lsq.activeThreads = []
    · refine iff_of_true ⟨⟨1, fun depth enough => ?_⟩, fun tid => ⟨1, fun depth enough => ?_⟩⟩
        (.inr nobody)
      · rw [sqFull, lqFull, exchanged, nobody]
        rfl
      · obtain ⟨depth, rfl⟩ := Nat.exists_eq_add_of_le' enough
        rw [sqFullThread, if_pos shared, nobody, lqFullThread]
        refine congrArg some (Eq.trans ?_ (if_pos shared).symm)
        rw [lqFull, exchanged, nobody]
        rfl
    · refine iff_of_false (fun answers => ?_) fun either => either.elim (· shared) nobody
      obtain ⟨bound, returns⟩ := answers.2 0
      have := returns bound (Nat.le_refl _)
      rw [sqFullThread_dynamic shared nobody] at this
      cases this
  · refine iff_of_true ⟨⟨1, fun depth enough => ?_⟩, fun tid => ⟨1, fun depth enough => ?_⟩⟩
      (.inl shared)
    · obtain ⟨depth, rfl⟩ := Nat.exists_eq_add_of_le' enough
      rw [sqFull, sqFullThread_fixed shared, sqFullLoop_answers]
      rfl
    · obtain ⟨depth, rfl⟩ := Nat.exists_eq_add_of_le' enough
      rw [sqFullThread_fixed shared]
      exact congrArg some (if_neg shared).symm

def oneThread (lsqPolicy : SMTQueuePolicy) : LSQ where
  lsqPolicy := lsqPolicy
  activeThreads := [0]
  thread := fun _ => ⟨⟨0, 32⟩, ⟨0, 32⟩⟩

example : (oneThread .partitioned).sqFull 1 = some false ∧
    (oneThread .partitioned).sqFullThread 1 0 = some false := by decide

/-- Under the dynamic policy no query for the store queues returns, while those for the load
queues do. -/
theorem sqFull_diverges :
    (∀ depth, (oneThread .dynamic).sqFull depth = none ∧
      (oneThread .dynamic).sqFullThread depth 0 = none) ∧
    (oneThread .dynamic).lqFull = false ∧ (oneThread .dynamic).lqFullThread 0 = false := by
  have nested : ∀ depth, (oneThread .dynamic).sqFullThread depth 0 = none :=
    fun depth => sqFullThread_dynamic rfl (cons_ne_nil _ _) depth 0
  exact ⟨fun depth => ⟨congrArg (Option.bind · _) (nested depth), nested depth⟩, rfl, rfl⟩

end LSQ

end Runahead.O3
