import Runahead.DynInst

/-!
# One thread's reorder buffer

`rob.cc`: the per-thread instruction list and the multi-cycle squash walk. The
list iterator `squashIt` is represented by the sequence number it points to.
-/

set_option autoImplicit false

namespace Runahead

open List

structure Rob where
  instList : List Nat := []
  squashIt : Option Nat := none
  squashedSeqNum : Nat := 0
  doneSquashing : Bool := true
  deriving DecidableEq, Repr

/-- What a squash does to one instruction of the ROB: it is marked squashed and
ready to commit, so that it can drain out of the pipeline. -/
def DynInst.squashInRob (inst : DynInst) : DynInst := inst.setSquashed.setCanCommit

/-- The effect of a squash in the ROB has reached the instruction. -/
def DynInst.Drained (inst : DynInst) : Prop := inst.squashed = true ∧ inst.canCommit = true

namespace Rob

def isEmpty (rob : Rob) : Bool := rob.instList.isEmpty
variable (rob : Rob)

def readHeadInst : Option Nat := rob.instList.head?
def readTailInst : Option Nat := rob.instList.getLast?

/-- `insertInst`; its assertion fails when the ROB is full. -/
def insertInst (numEntries : Nat) (rob : Rob) (inst : Nat) : Option Rob :=
  if rob.instList.length < numEntries then
    some { rob with instList := rob.instList ++ [inst] }
  else none

def retireHead : Rob := { rob with instList := rob.instList.tail }

/-- The instructions that the squash iterator visits from a position on:
towards the head of the list. -/
def backwardFrom (position : Nat) : List Nat :=
  position :: (rob.instList.takeWhile (· != position)).reverse

/-- The loop of `doSquash` over the instructions still to be visited. -/
def squashLoop (squashedSeqNum : Nat) : Nat → InstTable → List Nat → InstTable × List Nat
  | _, insts, [] => (insts, [])
  | 0, insts, visiting => (insts, visiting)
  | width + 1, insts, inst :: older =>
    if squashedSeqNum < inst then
      squashLoop squashedSeqNum width (insts.modify inst DynInst.squashInRob) older
    else (insts, inst :: older)

def finishSquash : Rob := { rob with squashIt := none, doneSquashing := true }

def doSquash (squashWidth : Nat) (insts : InstTable) (rob : Rob) : InstTable × Rob :=
  match rob.squashIt with
  | none => (insts, rob)
  | some position =>
    if position < rob.squashedSeqNum then (insts, rob.finishSquash)
    else
      match squashLoop rob.squashedSeqNum squashWidth insts (rob.backwardFrom position) with
      | (marked, []) => (marked, rob.finishSquash)
      | (marked, next :: _) =>
        if next ≤ rob.squashedSeqNum then (marked, rob.finishSquash)
        else (marked, { rob with squashIt := some next })

/-- `ROB::squash` starts at the tail and performs the first cycle at once. -/
def squash (squashWidth : Nat) (insts : InstTable) (rob : Rob) (squashNum : Nat) :
    InstTable × Rob :=
  match rob.readTailInst with
  | none => (insts, rob)
  | some youngest =>
    doSquash squashWidth insts
      { rob with squashIt := some youngest, squashedSeqNum := squashNum, doneSquashing := false }

def markAllRunahead (insts : InstTable) (members : List Nat) : InstTable :=
  insts.modifyAll (fun inst => members.contains inst) DynInst.setRunaheadInst

/-! ## What squashing does to the instructions -/

theorem squashInRob_idem (inst : DynInst) : inst.squashInRob.squashInRob = inst.squashInRob := rfl

theorem squashLoop_apply (squashedSeqNum : Nat) (width : Nat) (insts : InstTable)
    (visiting : List Nat) (inst : Nat) :
    (squashLoop squashedSeqNum width insts visiting).1 inst = insts inst ∨
      inst ∈ visiting ∧ squashedSeqNum < inst ∧
        (squashLoop squashedSeqNum width insts visiting).1 inst =
          (insts inst).squashInRob := by
  induction visiting generalizing width insts with
  | nil => simp [squashLoop]
  | cons first older ih =>
    cases width with
    | zero => simp [squashLoop]
    | succ width =>
      simp only [squashLoop]
      split
      · next younger =>
        have later := ih width (insts.modify first DynInst.squashInRob)
        by_cases same : inst = first
        · subst same
          rw [InstTable.modify_self, squashInRob_idem] at later
          refine .inr ⟨.head _, younger, ?_⟩
          rcases later with kept | ⟨_, _, marked⟩
          · exact kept
          · exact marked
        · rw [InstTable.modify_other _ _ same] at later
          rcases later with kept | ⟨member, bound, marked⟩
          · exact .inl kept
          · exact .inr ⟨.tail _ member, bound, marked⟩
      · exact .inl rfl

theorem squashLoop_rest (squashedSeqNum : Nat) (width : Nat) (insts : InstTable)
    (visiting : List Nat) :
    (squashLoop squashedSeqNum width insts visiting).2 <:+ visiting := by
  induction visiting generalizing width insts with
  | nil => simp [squashLoop]
  | cons first older ih =>
    cases width with
    | zero => simp [squashLoop]
    | succ width =>
      simp only [squashLoop]
      split
      · exact (ih width _).trans (suffix_cons first older)
      · exact suffix_rfl

variable {inst squashWidth : Nat}

theorem squashLoop_squashed (squashedSeqNum : Nat) (width : Nat) (insts : InstTable)
    (visiting : List Nat) (member : inst ∈ visiting)
    (left : inst ∉ (squashLoop squashedSeqNum width insts visiting).2) :
    ((squashLoop squashedSeqNum width insts visiting).1 inst).Drained := by
  induction visiting generalizing width insts with
  | nil => cases member
  | cons first older ih =>
    cases width with
    | zero => exact absurd member (by simpa [squashLoop] using left)
    | succ width =>
      simp only [squashLoop] at left ⊢
      split at left
      · next younger =>
        rw [if_pos younger]
        rcases squashLoop_apply squashedSeqNum width
            (insts.modify first DynInst.squashInRob) older inst with kept | ⟨_, _, marked⟩
        · rcases mem_cons.mp member with rfl | later
          · rw [kept, InstTable.modify_self]
            exact ⟨rfl, rfl⟩
          · exact ih width _ later left
        · rw [marked]
          exact ⟨rfl, rfl⟩
      · exact absurd member left

variable {rob : Rob}

theorem backwardFrom_subset {position : Nat} (inside : position ∈ rob.instList) :
    ∀ inst ∈ rob.backwardFrom position, inst ∈ rob.instList := by
  intro inst member
  rcases mem_cons.mp member with rfl | older
  · exact inside
  · exact (takeWhile_sublist _).subset (mem_reverse.mp older)

@[simp] theorem finishSquash_instList (rob : Rob) : rob.finishSquash.instList = rob.instList := rfl

variable (squashWidth)

@[simp] theorem doSquash_instList (insts : InstTable) (rob : Rob) :
    (doSquash squashWidth insts rob).2.instList = rob.instList := by
  unfold doSquash
  split
  · rfl
  · split
    · rfl
    · split
      · rfl
      · split <;> rfl

@[simp] theorem doSquash_squashedSeqNum (insts : InstTable) (rob : Rob) :
    (doSquash squashWidth insts rob).2.squashedSeqNum = rob.squashedSeqNum := by
  unfold doSquash
  split
  · rfl
  · split
    · rfl
    · split
      · rfl
      · split <;> rfl

@[simp] theorem squash_instList (insts : InstTable) (rob : Rob) (squashNum : Nat) :
    (squash squashWidth insts rob squashNum).2.instList = rob.instList := by
  unfold squash
  split
  · rfl
  · simp

theorem doSquash_apply (insts : InstTable) (rob : Rob) (inst : Nat) :
    (doSquash squashWidth insts rob).1 inst = insts inst ∨
      (∃ position, rob.squashIt = some position ∧ inst ∈ rob.backwardFrom position) ∧
        rob.squashedSeqNum < inst ∧
        (doSquash squashWidth insts rob).1 inst = (insts inst).squashInRob := by
  unfold doSquash
  split
  · exact .inl rfl
  · next position pointing =>
    split
    · exact .inl rfl
    · have effect := squashLoop_apply rob.squashedSeqNum squashWidth insts
        (rob.backwardFrom position) inst
      split
      · next loop =>
        rw [loop] at effect
        rcases effect with kept | ⟨member, bound, changed⟩
        · exact .inl kept
        · exact .inr ⟨⟨position, pointing, member⟩, bound, changed⟩
      · next loop =>
        rw [loop] at effect
        rcases effect with kept | ⟨member, bound, changed⟩
        · left; split <;> exact kept
        · right
          refine ⟨⟨position, pointing, member⟩, bound, ?_⟩
          split <;> exact changed

/-! ## Progress of a squash over several cycles -/

/-- In a list ordered by sequence number the iterator visits the instructions
that are not younger than its position. -/
theorem mem_backwardFrom {position : Nat}
    (ordered : rob.instList.Pairwise (· < ·)) (inside : position ∈ rob.instList) :
    inst ∈ rob.backwardFrom position ↔ inst ∈ rob.instList ∧ inst ≤ position := by
  have older : ∀ list : List Nat, list.Pairwise (· < ·) → position ∈ list →
      (inst ∈ list.takeWhile (· != position) ↔ inst ∈ list ∧ inst < position) := by
    intro list
    induction list with
    | nil => simp
    | cons first rest ih =>
      intro ordered inside
      obtain ⟨least, ordered⟩ := pairwise_cons.mp ordered
      by_cases same : first = position
      · subst same
        have : inst ∈ rest → ¬ inst < first := fun member =>
          Nat.not_lt.mpr (Nat.le_of_lt (least _ member))
        simp only [takeWhile_cons, bne_self_eq_false, Bool.false_eq_true, ↓reduceIte,
          not_mem_nil, mem_cons, false_iff, not_and]
        rintro (rfl | member)
        · exact Nat.lt_irrefl _
        · exact this member
      · have inside : position ∈ rest := (mem_cons.mp inside).resolve_left (Ne.symm same)
        have before := least _ inside
        have different : (first != position) = true := by simpa using same
        simp only [takeWhile_cons, different, ↓reduceIte, mem_cons, ih ordered inside]
        constructor
        · rintro (rfl | ⟨member, bound⟩)
          · exact ⟨.inl rfl, before⟩
          · exact ⟨.inr member, bound⟩
        · rintro ⟨rfl | member, bound⟩
          · exact .inl rfl
          · exact .inr ⟨member, bound⟩
  simp only [backwardFrom, mem_cons, mem_reverse, older _ ordered inside]
  constructor
  · rintro (rfl | ⟨member, bound⟩)
    · exact ⟨inside, Nat.le_refl _⟩
    · exact ⟨member, Nat.le_of_lt bound⟩
  · rintro ⟨member, bound⟩
    rcases Nat.lt_or_eq_of_le bound with less | same
    · exact .inr ⟨member, less⟩
    · exact .inl same

/-- How far a squash has come: what is younger than the squash number has been
visited or is still to be visited. -/
structure SquashProgress (insts : InstTable) (rob : Rob) : Prop where
  inside : ∀ position, rob.squashIt = some position → position ∈ rob.instList
  finished : rob.doneSquashing = true → rob.squashIt = none
  visited : ∀ inst ∈ rob.instList, rob.squashedSeqNum < inst →
    (insts inst).Drained ∨ ∃ position, rob.squashIt = some position ∧ inst ≤ position

variable {insts : InstTable}

theorem SquashProgress.all_drained
    (progress : SquashProgress insts rob) (done : rob.doneSquashing = true)
    (member : inst ∈ rob.instList) (younger : rob.squashedSeqNum < inst) :
    (insts inst).Drained := by
  rcases progress.visited inst member younger with drained | ⟨position, pointing, _⟩
  · exact drained
  · rw [progress.finished done] at pointing
    cases pointing

private theorem finished_progress
    (visited : ∀ inst ∈ rob.instList, rob.squashedSeqNum < inst → (insts inst).Drained) :
    SquashProgress insts rob.finishSquash where
  inside := by simp [finishSquash]
  finished := fun _ => rfl
  visited := fun inst member younger => .inl (visited inst member younger)

variable {squashWidth}

section

variable (ordered : rob.instList.Pairwise (· < ·))
include ordered

theorem doSquash_progress (progress : SquashProgress insts rob) :
    SquashProgress (doSquash squashWidth insts rob).1 (doSquash squashWidth insts rob).2 := by
  cases pointing : rob.squashIt with
  | none => simpa [doSquash, pointing] using progress
  | some position =>
    have inside := progress.inside position pointing
    have characterize : ∀ inst, inst ∈ rob.backwardFrom position ↔
        inst ∈ rob.instList ∧ inst ≤ position :=
      fun _ => mem_backwardFrom ordered inside
    simp only [doSquash, pointing]
    split
    · next below =>
      refine finished_progress fun inst member younger => ?_
      rcases progress.visited inst member younger with drained | ⟨other, pointing', bound⟩
      · exact drained
      · have same : position = other := Option.some.inj (pointing.symm.trans pointing')
        omega
    · -- every instruction outside the remaining list has been squashed
      have outside : ∀ inst ∈ rob.instList, rob.squashedSeqNum < inst →
          inst ∉ (squashLoop rob.squashedSeqNum squashWidth insts (rob.backwardFrom position)).2 →
          ((squashLoop rob.squashedSeqNum squashWidth insts
            (rob.backwardFrom position)).1 inst).Drained := by
        intro inst member younger gone
        rcases progress.visited inst member younger with drained | ⟨other, pointing', bound⟩
        · rcases squashLoop_apply rob.squashedSeqNum squashWidth insts
              (rob.backwardFrom position) inst with kept | ⟨_, _, marked⟩
          · rw [kept]
            exact drained
          · rw [marked]
            exact ⟨rfl, rfl⟩
        · have same : position = other := Option.some.inj (pointing.symm.trans pointing')
          subst same
          exact squashLoop_squashed _ _ _ _ ((characterize inst).mpr ⟨member, bound⟩) gone
      have descending : (rob.backwardFrom position).Pairwise (· > ·) := by
        have reversed : (rob.instList.takeWhile (· != position)).reverse.Pairwise (· > ·) :=
          pairwise_reverse.mpr (ordered.sublist (takeWhile_sublist _))
        refine pairwise_cons.mpr ⟨fun inst member => ?_, reversed⟩
        have bound := ((characterize inst).mp (.tail _ member)).2
        have different : inst ≠ position := by
          have := all_takeWhile (p := (· != position)) (l := rob.instList)
          simpa using all_eq_true.mp this inst (mem_reverse.mp member)
        omega
      have suffix := squashLoop_rest rob.squashedSeqNum squashWidth insts
        (rob.backwardFrom position)
      split
      · next marked loop =>
        rw [loop] at outside
        exact finished_progress fun inst member younger =>
          outside inst member younger (not_mem_nil)
      · next marked next rest loop =>
        rw [loop] at outside suffix
        have remaining : ∀ inst ∈ next :: rest, inst ≤ next := by
          intro inst member
          rcases mem_cons.mp member with rfl | later
          · exact Nat.le_refl _
          · exact Nat.le_of_lt ((pairwise_cons.mp (descending.sublist suffix.sublist)).1 inst later)
        split
        · next below =>
          refine finished_progress fun inst member younger =>
            outside inst member younger fun left => ?_
          have := remaining inst left
          omega
        · refine ⟨?_, ?_, ?_⟩
          · intro other same
            cases same
            exact ((characterize next).mp (suffix.subset (.head _))).1
          · intro done
            have := progress.finished done
            rw [pointing] at this
            cases this
          · intro inst member younger
            by_cases left : inst ∈ next :: rest
            · exact .inr ⟨next, rfl, remaining inst left⟩
            · exact .inl (outside inst member younger left)

theorem le_readTailInst {tail : Nat}
    (atTail : rob.readTailInst = some tail) (member : inst ∈ rob.instList) : inst ≤ tail := by
  obtain ⟨older, split⟩ := getLast?_eq_some_iff.mp atTail
  rw [split] at member ordered
  rcases mem_append.mp member with inside | final
  · exact Nat.le_of_lt ((pairwise_append.mp ordered).2.2 inst inside tail (mem_singleton.mpr rfl))
  · exact Nat.le_of_eq (mem_singleton.mp final)

theorem squash_progress {squashNum : Nat} (nonempty : rob.instList ≠ []) :
    SquashProgress (squash squashWidth insts rob squashNum).1
      (squash squashWidth insts rob squashNum).2 := by
  have tail : rob.readTailInst = some (rob.instList.getLast nonempty) :=
    getLast?_eq_some_getLast nonempty
  simp only [squash, tail]
  refine doSquash_progress ordered ⟨?_, ?_, ?_⟩
  · intro position same
    cases same
    exact getLast_mem nonempty
  · intro impossible
    cases impossible
  · intro inst member _
    exact .inr ⟨_, rfl, le_readTailInst ordered tail member⟩

end

@[simp] theorem squash_squashedSeqNum {squashNum : Nat} (nonempty : rob.instList ≠ []) :
    (squash squashWidth insts rob squashNum).2.squashedSeqNum = squashNum := by
  have tail : rob.readTailInst = some (rob.instList.getLast nonempty) :=
    getLast?_eq_some_getLast nonempty
  simp [squash, tail]

theorem squash_apply (squashWidth : Nat) (insts : InstTable) (rob : Rob) (squashNum inst : Nat) :
    (squash squashWidth insts rob squashNum).1 inst = insts inst ∨
      inst ∈ rob.instList ∧ squashNum < inst ∧
        (squash squashWidth insts rob squashNum).1 inst = (insts inst).squashInRob := by
  unfold squash
  split
  · exact .inl rfl
  · next youngest tail =>
    rcases doSquash_apply squashWidth insts
      { rob with squashIt := some youngest, squashedSeqNum := squashNum,
                 doneSquashing := false } inst with
      kept | ⟨⟨position, pointing, member⟩, younger, changed⟩
    · exact .inl kept
    · cases pointing
      refine .inr ⟨?_, younger, changed⟩
      exact backwardFrom_subset (mem_of_getLast? tail) inst member

end Rob

end Runahead
