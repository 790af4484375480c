import Mathlib.Data.List.TakeWhile
import Runahead.Library.Transition
import Runahead.Pre.Rename

/-!
# The PRDQ as a mirror of the history buffer

In PRE mode every renamed destination gets an entry in the history buffer and one
in the PRDQ. Retirement takes entries from the front of the PRDQ only, and a squash
undoes entries of the history buffer only.
-/

set_option autoImplicit false

namespace Runahead.Pre

open Library List
open Option (ite_none_left_eq_some bind_eq_some_iff map_eq_some_iff)
open O3 (RenameHistory)

/-- The rename unit with a record of the run: the youngest instruction renamed so far,
the youngest one at the entry into PRE mode, and what has retired from the PRDQ since. -/
structure PrdqRun where
  unit : RenameUnit
  lastSeqNum : Nat := 0
  entrySeqNum : Nat := 0
  retired : List Nat := []

inductive PrdqEvent where
  | rename (inst : Nat) (dests : List DestOperand)
  /-- `setExecuted` of an instruction that is not in the ROB. -/
  | execute (inst : Nat)
  | retire
  | squash (seqNum : Nat)
  /-- Commit reports an instruction of the ROB, which was renamed before PRE mode. -/
  | commit (seqNum : Nat)
  | enterPreMode
  | exitPreMode
  deriving DecidableEq, Repr

namespace PrdqRun

variable (run : PrdqRun) {next : PrdqRun} {inst : Nat}

def retiring : List Nat :=
  match run.unit.prdq with
  | [] => []
  | front :: _ => if front.executed then [front.instId] else []

def step : PrdqEvent → Option PrdqRun
  | .rename inst dests =>
    if run.lastSeqNum < inst then
      (run.unit.renameDestRegs true inst dests).map fun unit =>
        { run with unit := unit, lastSeqNum := inst }
    else none
  | .execute inst =>
    some { run with
      unit := if run.unit.inPreMode then run.unit.prdqMarkInstExecuted inst else run.unit }
  | .retire =>
    run.unit.prdqRetireEntry.map fun retired =>
      { run with unit := retired.2, retired := run.retired ++ run.retiring }
  | .squash seqNum => some { run with unit := run.unit.doSquash seqNum }
  | .commit seqNum =>
    if run.unit.inPreMode && decide (run.entrySeqNum < seqNum) then none
    else (run.unit.removeFromHistory seqNum).map fun unit => { run with unit := unit }
  | .enterPreMode =>
    if run.unit.inPreMode then some run
    else some { run with
      unit := run.unit.enterPreMode
      entrySeqNum := run.lastSeqNum
      retired := [] }
  | .exitPreMode =>
    if run.unit.inPreMode then some { run with unit := run.unit.exitPreMode true } else none

def initial (renameMap : RegId → PhysRegId) (freeList : List PhysRegId) : PrdqRun where
  unit := {
    renameMap := renameMap
    freeList := freeList
    historyBuffer := []
    flags := fun _ => {}
    prdq := []
    inPreMode := false }

def pending (entrySeqNum : Nat) (retired : List Nat) (entry : RenameHistory) : Bool :=
  decide (entrySeqNum < entry.instSeqNum) && !retired.contains entry.instSeqNum

/-- No squash undoes a rename done in PRE mode that has not retired from the PRDQ. -/
def sparesPre : PrdqEvent → Bool
  | .squash seqNum =>
    !run.unit.inPreMode || run.unit.historyBuffer.all fun entry =>
      entry.instSeqNum ≤ seqNum || !pending run.entrySeqNum run.retired entry
  | _ => true

end PrdqRun

namespace RenameUnit

variable {unit next : RenameUnit} {inst : Nat}

/-! ## Operations and the two lists -/

structure SameLists (unit next : RenameUnit) : Prop where
  historyBuffer : next.historyBuffer = unit.historyBuffer
  prdq : next.prdq = unit.prdq
  inPreMode : next.inPreMode = unit.inPreMode

theorem SameLists.refl (unit : RenameUnit) : unit.SameLists unit := ⟨rfl, rfl, rfl⟩

theorem SameLists.trans {middle : RenameUnit} (first : unit.SameLists middle)
    (second : middle.SameLists next) : unit.SameLists next :=
  ⟨second.historyBuffer.trans first.historyBuffer, second.prdq.trans first.prdq,
    second.inPreMode.trans first.inPreMode⟩

theorem addReg_sameLists (unit : RenameUnit) (reg : PhysRegId) :
    unit.SameLists (unit.addReg reg) := ⟨rfl, rfl, rfl⟩

theorem undoEntry_sameLists (unit : RenameUnit) (entry : RenameHistory) :
    unit.SameLists (unit.undoEntry entry) := by
  simp only [undoEntry]
  split
  · split
    · exact ⟨rfl, rfl, rfl⟩
    · exact ⟨rfl, rfl, rfl⟩
  · exact .refl unit

theorem removeEntry_sameLists {entry : RenameHistory}
    (removed : unit.removeEntry entry = some next) : unit.SameLists next := by
  obtain ⟨_, removed⟩ := ite_none_left_eq_some.mp removed
  split at removed
  · cases removed
    exact addReg_sameLists unit _
  · cases removed
    exact .refl unit

theorem prdqFreeReg_sameLists {entry : RenameHistory}
    (freed : unit.prdqFreeReg entry = some next) : unit.SameLists next := by
  unfold prdqFreeReg at freed
  split at freed
  · cases freed
    exact .refl unit
  · split at freed
    · cases freed
      exact .refl unit
    · obtain ⟨_, freed⟩ := ite_none_left_eq_some.mp freed
      cases freed
      exact addReg_sameLists unit _

theorem doSquash_lists (unit : RenameUnit) (seqNum : Nat) :
    (unit.doSquash seqNum).historyBuffer =
        unit.historyBuffer.dropWhile (fun entry => decide (seqNum < entry.instSeqNum)) ∧
      (unit.doSquash seqNum).prdq = unit.prdq ∧
      (unit.doSquash seqNum).inPreMode = unit.inPreMode := by
  have loop (entries : List RenameHistory) (unit : RenameUnit) :
      (doSquashLoop seqNum entries unit).historyBuffer =
          entries.dropWhile (fun entry => decide (seqNum < entry.instSeqNum)) ∧
        (doSquashLoop seqNum entries unit).prdq = unit.prdq ∧
        (doSquashLoop seqNum entries unit).inPreMode = unit.inPreMode := by
    induction entries generalizing unit with
    | nil => exact ⟨rfl, rfl, rfl⟩
    | cons entry older ih =>
      simp only [doSquashLoop]
      split
      · next younger =>
        obtain ⟨history, prdq, mode⟩ := ih (unit.undoEntry entry)
        have same := undoEntry_sameLists unit entry
        rw [dropWhile_cons_of_pos (by simpa using younger)]
        exact ⟨history, prdq.trans same.prdq, mode.trans same.inPreMode⟩
      · next kept =>
        rw [dropWhile_cons_of_neg (by simpa using kept)]
        exact ⟨rfl, rfl, rfl⟩
  exact loop unit.historyBuffer unit

theorem removeFromHistory_lists {seqNum : Nat}
    (removed : unit.removeFromHistory seqNum = some next) :
    ∃ old, unit.historyBuffer = next.historyBuffer ++ old ∧
      (∀ entry ∈ old, entry.instSeqNum ≤ seqNum) ∧ next.prdq = unit.prdq ∧
      next.inPreMode = unit.inPreMode := by
  have loop {entries : List RenameHistory} {unit : RenameUnit}
      (removed : removeFromHistoryLoop seqNum entries unit = some next) :
      ∃ old, entries = old ++ next.historyBuffer.reverse ∧
        (∀ entry ∈ old, entry.instSeqNum ≤ seqNum) ∧ next.prdq = unit.prdq ∧
        next.inPreMode = unit.inPreMode := by
    induction entries generalizing unit with
    | nil =>
      cases removed
      exact ⟨[], rfl, (by simp), rfl, rfl⟩
    | cons entry newer ih =>
      simp only [removeFromHistoryLoop] at removed
      split at removed
      · next committed =>
        obtain ⟨middle, first, rest⟩ := bind_eq_some_iff.mp removed
        obtain ⟨old, split, bound, prdq, mode⟩ := ih rest
        have same := removeEntry_sameLists first
        refine ⟨entry :: old, by rw [split]; rfl, fun other member => ?_,
          prdq.trans same.prdq, mode.trans same.inPreMode⟩
        rcases mem_cons.mp member with rfl | member
        · exact committed
        · exact bound other member
      · cases removed
        exact ⟨[], by simp, (by simp), rfl, rfl⟩
  obtain ⟨old, split, bound, rest⟩ := loop removed
  refine ⟨old.reverse, ?_, fun entry member => bound entry (mem_reverse.mp member), rest⟩
  have := congrArg List.reverse split
  simpa using this

theorem renameDestReg_lists {dest : DestOperand}
    (renamed : unit.renameDestReg true inst dest = some next) :
    ∃ entry : RenameHistory, entry.instSeqNum = inst ∧
      next.historyBuffer = entry :: unit.historyBuffer ∧ next.inPreMode = unit.inPreMode ∧
      next.prdq = if unit.inPreMode then
        unit.prdq ++ [{ physRegToFree := entry.prevPhysReg, instId := inst }] else unit.prdq := by
  obtain ⟨⟨reg, freeList⟩, _, renamed⟩ := bind_eq_some_iff.mp renamed
  obtain ⟨_, renamed⟩ := ite_none_left_eq_some.mp renamed
  cases renamed
  cases mode : unit.inPreMode with
  | true => exact ⟨_, rfl, rfl, mode, rfl⟩
  | false => exact ⟨_, rfl, rfl, mode, rfl⟩

theorem prdqRetireEntry_lists {retired : Bool × RenameUnit}
    (done : unit.prdqRetireEntry = some retired) :
    retired.2.historyBuffer = unit.historyBuffer ∧ retired.2.inPreMode = unit.inPreMode ∧
      ((∀ front ∈ unit.prdq.head?, front.executed = false) ∧ retired.2 = unit ∨
        ∃ front rest popped, unit.prdq = front :: rest ∧ front.executed = true ∧
          popped = (unit.prdq.dropWhile fun entry =>
            entry.executed && decide (entry.instId = front.instId)) ∧
          retired.2.prdq = popped ∧
          (unit.historyOf front.instId).foldlM prdqFreeReg { unit with prdq := popped } =
            some retired.2) := by
  unfold prdqRetireEntry at done
  split at done
  · next empty =>
    cases done
    exact ⟨rfl, rfl, .inl ⟨by simp [empty], rfl⟩⟩
  · next front rest split =>
    split at done
    · next executed =>
      obtain ⟨freed, walked, rfl⟩ := map_eq_some_iff.mp done
      have same := foldlM_invariant (SameLists { unit with
          prdq := unit.prdq.dropWhile fun entry => entry.executed && entry.instId = front.instId })
        (fun entry _ middle last before stepped =>
          before.trans (prdqFreeReg_sameLists stepped)) (.refl _) walked
      exact ⟨same.historyBuffer, same.inPreMode,
        .inr ⟨front, rest, _, split, executed, rfl, same.prdq, walked⟩⟩
    · next waiting =>
      cases done
      exact ⟨rfl, rfl, .inl ⟨by simpa [split] using waiting, rfl⟩⟩

end RenameUnit

/-! ## The mirror -/

def PrdqEntry.key (entry : PrdqEntry) : Nat × PhysRegId := (entry.instId, entry.physRegToFree)

def historyKey (entry : RenameHistory) : Nat × PhysRegId := (entry.instSeqNum, entry.prevPhysReg)

namespace PrdqRun

variable {run next : PrdqRun} {inst : Nat} {unit : RenameUnit}

/-- The PRDQ lists what is pending in the history buffer, in program order. -/
structure Mirrors (entrySeqNum : Nat) (retired : List Nat) (unit : RenameUnit) : Prop where
  sorted : unit.historyBuffer.Pairwise fun newer older => older.instSeqNum ≤ newer.instSeqNum
  outside : unit.inPreMode = false → unit.prdq = []
  mirror : unit.inPreMode = true → unit.prdq.map PrdqEntry.key =
    (unit.historyBuffer.filter (pending entrySeqNum retired)).reverse.map historyKey
  /-- The entries of an instruction are marked together. -/
  uniform : ∀ first ∈ unit.prdq, ∀ second ∈ unit.prdq, first.instId = second.instId →
    first.executed = second.executed

structure Inv (run : PrdqRun) : Prop where
  mirrors : Mirrors run.entrySeqNum run.retired run.unit
  bounded : ∀ entry ∈ run.unit.historyBuffer, entry.instSeqNum ≤ run.lastSeqNum
  entryBound : run.entrySeqNum ≤ run.lastSeqNum
  retiredBound : ∀ inst ∈ run.retired, inst ≤ run.lastSeqNum

variable {entrySeqNum : Nat} {retired : List Nat}

theorem Mirrors.instId
    (mirrors : Mirrors entrySeqNum retired unit) {entry : PrdqEntry} (member : entry ∈ unit.prdq) :
    ∃ history ∈ unit.historyBuffer, history.instSeqNum = entry.instId := by
  cases mode : unit.inPreMode with
  | false =>
    rw [mirrors.outside mode] at member
    cases member
  | true =>
    have keyed : entry.key ∈ unit.prdq.map PrdqEntry.key := mem_map_of_mem member
    rw [mirrors.mirror mode] at keyed
    obtain ⟨history, here, same⟩ := mem_map.mp keyed
    exact ⟨history, (mem_filter.mp (mem_reverse.mp here)).1, congrArg Prod.fst same⟩

/-- While an instruction is renamed, its entries are the youngest and none has executed. -/
structure Renaming (inst entrySeqNum : Nat) (retired : List Nat) (unit : RenameUnit) : Prop where
  mirrors : Mirrors entrySeqNum retired unit
  bounded : ∀ entry ∈ unit.historyBuffer, entry.instSeqNum ≤ inst
  unexecuted : ∀ entry ∈ unit.prdq, entry.instId = inst → entry.executed = false

theorem renameDestReg_renaming {next : RenameUnit}
    {dest : DestOperand} (later : entrySeqNum < inst) (fresh : inst ∉ retired)
    (underway : Renaming inst entrySeqNum retired unit)
    (renamed : unit.renameDestReg true inst dest = some next) :
    Renaming inst entrySeqNum retired next := by
  obtain ⟨mirrors, bounded, unexecuted⟩ := underway
  obtain ⟨entry, rfl, history, mode, prdq⟩ := RenameUnit.renameDestReg_lists renamed
  have added (mode : unit.inPreMode = true) :
      next.prdq = unit.prdq ++
        [{ physRegToFree := entry.prevPhysReg, instId := entry.instSeqNum }] := by
    rw [prdq, if_pos mode]
  have members {other : PrdqEntry} (member : other ∈ next.prdq) : other ∈ unit.prdq ∨
      other.instId = entry.instSeqNum ∧ other.executed = false := by
    rw [prdq] at member
    split at member
    · rcases mem_append.mp member with before | here
      · exact .inl before
      · cases mem_singleton.mp here
        exact .inr ⟨rfl, rfl⟩
    · exact .inl member
  refine ⟨⟨?_, fun outside => ?_, fun inside => ?_, fun first firstMember second
    secondMember same => ?_⟩,
    fun other member => ?_, fun other member same => ?_⟩
  · rw [history]
    exact pairwise_cons.mpr ⟨fun older member => bounded older member, mirrors.sorted⟩
  · rw [mode] at outside
    rw [prdq, if_neg (by simp [outside])]
    exact mirrors.outside outside
  · rw [mode] at inside
    have kept : pending entrySeqNum retired entry = true := by
      simp [pending, later, fresh]
    rw [added inside, history, filter_cons_of_pos kept, reverse_cons, map_append,
      map_append, mirrors.mirror inside]
    rfl
  · rcases members firstMember with firstBefore | ⟨firstId, firstWaits⟩
    · rcases members secondMember with secondBefore | ⟨secondId, secondWaits⟩
      · exact mirrors.uniform first firstBefore second secondBefore same
      · rw [secondWaits]
        exact unexecuted first firstBefore (same.trans secondId)
    · rcases members secondMember with secondBefore | ⟨_, secondWaits⟩
      · rw [firstWaits]
        exact (unexecuted second secondBefore (same.symm.trans firstId)).symm
      · rw [firstWaits, secondWaits]
  · rw [history] at member
    rcases mem_cons.mp member with rfl | before
    · exact Nat.le_refl _
    · exact bounded other before
  · rcases members member with before | ⟨_, waits⟩
    · exact unexecuted other before same
    · exact waits

theorem rename_inv {unit : RenameUnit} {dests : List DestOperand} (inv : run.Inv)
    (later : run.lastSeqNum < inst)
    (renamed : run.unit.renameDestRegs true inst dests = some unit) :
    { run with unit := unit, lastSeqNum := inst }.Inv := by
  have fresh : inst ∉ run.retired := fun member =>
    absurd (inv.retiredBound inst member) (Nat.not_le.mpr later)
  have start : Renaming inst run.entrySeqNum run.retired run.unit := by
    refine ⟨inv.mirrors, fun entry member => ?_, fun entry member same => ?_⟩
    · exact Nat.le_trans (inv.bounded entry member) (Nat.le_of_lt later)
    · obtain ⟨history, here, sameId⟩ := inv.mirrors.instId member
      have := inv.bounded history here
      omega
  have finished := foldlM_invariant (Renaming inst run.entrySeqNum run.retired)
    (fun dest _ middle last before stepped => renameDestReg_renaming
      (Nat.lt_of_le_of_lt inv.entryBound later) fresh before stepped) start renamed
  exact ⟨finished.mirrors, finished.bounded, Nat.le_trans inv.entryBound (Nat.le_of_lt later),
    fun other member => Nat.le_trans (inv.retiredBound other member) (Nat.le_of_lt later)⟩

theorem execute_inv (inv : run.Inv) :
    { run with unit := run.unit.prdqMarkInstExecuted inst }.Inv := by
  refine ⟨⟨inv.mirrors.sorted, fun outside => ?_, fun inside => ?_, ?_⟩, inv.bounded,
    inv.entryBound, inv.retiredBound⟩
  · simp [RenameUnit.prdqMarkInstExecuted, inv.mirrors.outside outside]
  · refine Eq.trans ?_ (inv.mirrors.mirror inside)
    simp only [RenameUnit.prdqMarkInstExecuted, map_map]
    refine map_congr_left fun entry _ => ?_
    simp only [Function.comp_apply]
    split <;> rfl
  · intro first firstMember second secondMember
    obtain ⟨before, firstHere, rfl⟩ := mem_map.mp firstMember
    obtain ⟨other, secondHere, rfl⟩ := mem_map.mp secondMember
    intro same
    have uniform := inv.mirrors.uniform before firstHere other secondHere
    split at same <;> split at same <;> simp_all

theorem Mirrors.prdq_sorted (mirrors : Mirrors entrySeqNum retired unit) :
    unit.prdq.Pairwise fun older newer => older.instId ≤ newer.instId := by
  cases mode : unit.inPreMode with
  | false =>
    rw [mirrors.outside mode]
    exact .nil
  | true =>
    have keys : (unit.prdq.map PrdqEntry.key).Pairwise fun older newer => older.1 ≤ newer.1 := by
      rw [mirrors.mirror mode, pairwise_map, pairwise_reverse]
      exact mirrors.sorted.sublist filter_sublist
    rw [pairwise_map] at keys
    exact keys

private theorem dropWhile_eq_filter {Item : Type} {holds : Item → Bool} {items : List Item}
    (closed : items.Pairwise fun first second => holds second = true → holds first = true) :
    items.dropWhile holds = items.filter fun item => !holds item := by
  induction items with
  | nil => rfl
  | cons item rest ih =>
    obtain ⟨before, closed⟩ := pairwise_cons.mp closed
    cases here : holds item with
    | true => rw [dropWhile_cons_of_pos here, filter_cons_of_neg (by simp [here]), ih closed]
    | false =>
      rw [dropWhile_cons_of_neg (by simp [here])]
      refine (filter_eq_self.mpr fun other member => ?_).symm
      rcases mem_cons.mp member with rfl | member
      · simp [here]
      · cases there : holds other with
        | true => exact absurd (before other member there) (by simp [here])
        | false => rfl

theorem Mirrors.retired_prdq {front : PrdqEntry}
    {rest : List PrdqEntry} (mirrors : Mirrors entrySeqNum retired unit)
    (split : unit.prdq = front :: rest) (executed : front.executed = true) :
    (unit.prdq.dropWhile fun entry => entry.executed && decide (entry.instId = front.instId)) =
      unit.prdq.filter fun entry => entry.instId ≠ front.instId := by
  have sorted := mirrors.prdq_sorted
  have head : front ∈ unit.prdq := by simp [split]
  have least : ∀ entry ∈ unit.prdq, front.instId ≤ entry.instId := by
    rw [split] at sorted ⊢
    intro entry member
    rcases mem_cons.mp member with rfl | member
    · exact Nat.le_refl _
    · exact (pairwise_cons.mp sorted).1 entry member
  have marked : ∀ entry ∈ unit.prdq,
      (entry.executed && decide (entry.instId = front.instId)) =
        decide (entry.instId = front.instId) := by
    intro entry member
    by_cases same : entry.instId = front.instId
    · simp [same, mirrors.uniform entry member front head same, executed]
    · simp [same]
  have closed : unit.prdq.Pairwise fun first second =>
      (second.executed && decide (second.instId = front.instId)) = true →
        (first.executed && decide (first.instId = front.instId)) = true := by
    refine sorted.imp_of_mem fun {first second} firstMember secondMember order holds => ?_
    rw [marked second secondMember, decide_eq_true_eq] at holds
    rw [marked first firstMember, decide_eq_true_eq]
    exact Nat.le_antisymm (holds ▸ order) (least first firstMember)
  rw [dropWhile_eq_filter closed]
  refine filter_congr fun entry member => ?_
  rw [marked entry member]
  simp

theorem retire_inv {retired : Bool × RenameUnit} (inv : run.Inv)
    (done : run.unit.prdqRetireEntry = some retired) :
    { run with unit := retired.2, retired := run.retired ++ run.retiring }.Inv := by
  obtain ⟨mirrors, bounded, entryBound, retiredBound⟩ := inv
  obtain ⟨history, mode, prdq⟩ := RenameUnit.prdqRetireEntry_lists done
  rcases prdq with ⟨waiting, same⟩ | ⟨front, rest, _, split, executed, rfl, prdq, -⟩
  · have none : run.retiring = [] := by
      unfold retiring
      split
      · rfl
      · next front rest split =>
        rw [if_neg (by simp [waiting front (by simp [split])])]
    rw [none, append_nil, same]
    exact ⟨mirrors, bounded, entryBound, retiredBound⟩
  · have one : run.retiring = [front.instId] := by
      simp [retiring, split, executed]
    rw [mirrors.retired_prdq split executed] at prdq
    rw [one]
    refine ⟨⟨history ▸ mirrors.sorted, fun outside => ?_, fun inside => ?_, ?_⟩,
      history ▸ bounded, entryBound, fun inst member => ?_⟩
    · rw [prdq, mirrors.outside (mode.symm.trans outside)]
      rfl
    · rw [prdq, history]
      have before := mirrors.mirror (mode.symm.trans inside)
      have left : (run.unit.prdq.filter fun entry => entry.instId ≠ front.instId).map
        PrdqEntry.key =
          (run.unit.prdq.map PrdqEntry.key).filter fun key => key.1 ≠ front.instId := by
        rw [filter_map]
        rfl
      have fewer : pending run.entrySeqNum (run.retired ++ [front.instId]) = fun entry =>
          decide (entry.instSeqNum ≠ front.instId) && pending run.entrySeqNum
            run.retired entry := by
        funext entry
        rw [Bool.and_comm]
        simp [pending, Bool.and_assoc]
      rw [left, before, filter_map, fewer, filter_reverse, filter_filter]
      rfl
    · intro first firstMember second secondMember
      rw [prdq] at firstMember secondMember
      exact mirrors.uniform first (mem_filter.mp firstMember).1 second
        (mem_filter.mp secondMember).1
    · rcases mem_append.mp member with earlier | now
      · exact retiredBound inst earlier
      · obtain ⟨entry, here, same⟩ := mirrors.instId (by simp [split] : front ∈ run.unit.prdq)
        rw [mem_singleton.mp now, ← same]
        exact bounded entry here

theorem Inv.drop {next : RenameUnit} (inv : run.Inv)
    (sublist : next.historyBuffer.Sublist run.unit.historyBuffer)
    (kept : run.unit.inPreMode = true →
      next.historyBuffer.filter (pending run.entrySeqNum run.retired) =
        run.unit.historyBuffer.filter (pending run.entrySeqNum run.retired))
    (prdq : next.prdq = run.unit.prdq) (mode : next.inPreMode = run.unit.inPreMode) :
    { run with unit := next }.Inv := by
  refine ⟨⟨inv.mirrors.sorted.sublist sublist, fun outside => ?_, fun inside => ?_,
    prdq ▸ inv.mirrors.uniform⟩, fun entry member => inv.bounded entry (sublist.subset member),
    inv.entryBound, inv.retiredBound⟩
  · exact prdq.trans (inv.mirrors.outside (mode.symm.trans outside))
  · have inside := mode.symm.trans inside
    rw [prdq, kept inside]
    exact inv.mirrors.mirror inside

theorem squash_inv {seqNum : Nat} (inv : run.Inv)
    (admitted : run.sparesPre (.squash seqNum) = true) :
    { run with unit := run.unit.doSquash seqNum }.Inv := by
  obtain ⟨history, prdq, mode⟩ := run.unit.doSquash_lists seqNum
  refine inv.drop (history ▸ dropWhile_sublist _) (fun inside => ?_) prdq mode
  simp only [sparesPre, inside, Bool.not_true, Bool.false_or, all_eq_true, Bool.or_eq_true,
    decide_eq_true_eq, Bool.not_eq_true'] at admitted
  rw [history]
  have undone : (run.unit.historyBuffer.takeWhile fun entry =>
      decide (seqNum < entry.instSeqNum)).filter (pending run.entrySeqNum run.retired) = [] := by
    refine filter_eq_nil_iff.mpr fun entry member => ?_
    have younger : seqNum < entry.instSeqNum := by simpa using mem_takeWhile_imp member
    have spared := (admitted entry ((takeWhile_sublist _).subset member)).resolve_left
      (Nat.not_le.mpr younger)
    simp [spared]
  have whole := congrArg (List.filter (pending run.entrySeqNum run.retired))
    (takeWhile_append_dropWhile (p := fun entry : RenameHistory =>
      decide (seqNum < entry.instSeqNum)) (l := run.unit.historyBuffer))
  rwa [filter_append, undone, nil_append] at whole

theorem commit_inv {seqNum : Nat} {unit : RenameUnit} (inv : run.Inv)
    (old : ¬(run.unit.inPreMode && decide (run.entrySeqNum < seqNum)) = true)
    (removed : run.unit.removeFromHistory seqNum = some unit) :
    { run with unit := unit }.Inv := by
  obtain ⟨gone, split, bound, prdq, mode⟩ := RenameUnit.removeFromHistory_lists removed
  refine inv.drop (split ▸ sublist_append_left _ _) (fun inside => ?_) prdq mode
  have none : gone.filter (pending run.entrySeqNum run.retired) = [] := by
    refine filter_eq_nil_iff.mpr fun entry member => ?_
    have := bound entry member
    have old : entry.instSeqNum ≤ run.entrySeqNum := by
      simp only [inside, Bool.true_and, decide_eq_true_eq] at old
      omega
    simp [pending, Nat.not_lt.mpr old]
  rw [split, filter_append, none, append_nil]

theorem step_inv {event : PrdqEvent} (inv : run.Inv) (admitted : run.sparesPre event = true)
    (stepped : run.step event = some next) : next.Inv := by
  cases event with
  | rename inst dests =>
    obtain ⟨later, stepped⟩ := Option.ite_none_right_eq_some.mp stepped
    obtain ⟨unit, renamed, rfl⟩ := map_eq_some_iff.mp stepped
    exact rename_inv inv later renamed
  | execute inst =>
    cases stepped
    split
    · exact execute_inv inv
    · exact inv
  | retire =>
    obtain ⟨retired, done, rfl⟩ := map_eq_some_iff.mp stepped
    exact retire_inv inv done
  | squash seqNum =>
    cases stepped
    exact squash_inv inv admitted
  | commit seqNum =>
    obtain ⟨old, stepped⟩ := ite_none_left_eq_some.mp stepped
    obtain ⟨unit, removed, rfl⟩ := map_eq_some_iff.mp stepped
    exact commit_inv inv old removed
  | enterPreMode =>
    simp only [step] at stepped
    split at stepped
    · cases stepped
      exact inv
    · next outside =>
      cases stepped
      have empty := inv.mirrors.outside (Bool.of_not_eq_true outside)
      refine ⟨⟨inv.mirrors.sorted, by rintro ⟨⟩, fun _ => ?_, inv.mirrors.uniform⟩, inv.bounded,
        Nat.le_refl _, (by simp)⟩
      have none : run.unit.historyBuffer.filter (pending run.lastSeqNum []) = [] := by
        refine filter_eq_nil_iff.mpr fun entry member => ?_
        simp [pending, Nat.not_lt.mpr (inv.bounded entry member)]
      simp only [RenameUnit.enterPreMode, empty, none]
      rfl
  | exitPreMode =>
    obtain ⟨_, rfl⟩ := fired stepped
    exact ⟨⟨inv.mirrors.sorted, fun _ => rfl, (by rintro ⟨⟩), (by simp [RenameUnit.exitPreMode])⟩,
      inv.bounded, inv.entryBound, inv.retiredBound⟩

theorem initial_inv (renameMap : RegId → PhysRegId) (freeList : List PhysRegId) :
    (initial renameMap freeList).Inv :=
  ⟨⟨.nil, fun _ => rfl, (by rintro ⟨⟩), (by rintro _ ⟨⟩)⟩, (by rintro _ ⟨⟩), Nat.le_refl _,
    (by rintro _ ⟨⟩)⟩

/-- As long as no squash undoes renames that the PRDQ still lists, it holds in PRE mode, in
program order, one entry for each history entry that was created since the entry into PRE mode
and has not retired, with the same sequence number and previous register. -/
theorem prdq_mirrors_history (renameMap : RegId → PhysRegId) (freeList : List PhysRegId)
    (run : PrdqRun) (reached : Reaches step sparesPre (initial renameMap freeList) run)
    (inside : run.unit.inPreMode = true) :
    run.unit.prdq.map (fun entry => (entry.instId, entry.physRegToFree)) =
      (run.unit.historyBuffer.filter fun entry => decide (run.entrySeqNum < entry.instSeqNum) &&
        !run.retired.contains entry.instSeqNum).reverse.map fun entry =>
          (entry.instSeqNum, entry.prevPhysReg) := by
  have inv : run.Inv := reached.invariant (initial_inv renameMap freeList) step_inv
  exact inv.mirrors.mirror inside

/-- Two instructions are renamed in PRE mode, the older one executes and retires. -/
theorem prdq_mirrors_history_retired :
    ∃ run, Reaches step sparesPre (initial (fun reg => ⟨reg.regClass, reg.index⟩)
        [⟨.int, 8⟩, ⟨.int, 9⟩, ⟨.int, 10⟩]) run ∧ run.unit.inPreMode = true ∧
      run.entrySeqNum = 1 ∧ run.retired = [2] ∧
      run.unit.prdq.map (fun entry => (entry.instId, entry.physRegToFree)) = [(3, ⟨.int, 1⟩)] := by
  obtain ⟨run, reached, observed⟩ := reaches_of_observed step sparesPre
    (initial (fun reg => ⟨reg.regClass, reg.index⟩) [⟨.int, 8⟩, ⟨.int, 9⟩, ⟨.int, 10⟩])
    [.rename 1 [{ reg := ⟨.int, 0⟩ }], .enterPreMode, .rename 2 [{ reg := ⟨.int, 0⟩ }],
      .rename 3 [{ reg := ⟨.int, 1⟩ }], .execute 2, .retire]
    (fun run => decide (run.unit.inPreMode = true ∧ run.entrySeqNum = 1 ∧ run.retired = [2] ∧
      run.unit.historyBuffer = [⟨3, ⟨.int, 1⟩, ⟨.int, 10⟩, ⟨.int, 1⟩⟩,
        ⟨2, ⟨.int, 0⟩, ⟨.int, 9⟩, ⟨.int, 8⟩⟩, ⟨1, ⟨.int, 0⟩, ⟨.int, 8⟩, ⟨.int, 0⟩⟩]))
          (by decide +kernel)
  obtain ⟨inside, entry, retired, history⟩ := of_decide_eq_true observed
  refine ⟨run, reached, inside, entry, retired, ?_⟩
  rw [prdq_mirrors_history _ _ run reached inside, entry, retired, history]
  decide

/-- A squash in PRE mode undoes instruction 5 in the history buffer; its entry stays at the
front of the PRDQ and keeps the executed instruction 7 from retiring. -/
theorem prdq_keeps_squashed :
    ∃ run, Reaches step anyEvent (initial (fun reg => ⟨reg.regClass, reg.index⟩)
        [⟨.int, 8⟩, ⟨.int, 9⟩, ⟨.int, 10⟩]) run ∧ run.unit.inPreMode = true ∧
      run.entrySeqNum = 3 ∧
      run.unit.historyBuffer.map (fun entry => entry.instSeqNum) = [7, 3] ∧
      run.unit.prdq = [⟨⟨.int, 1⟩, 5, false⟩, ⟨⟨.int, 2⟩, 7, true⟩] ∧
      (run.unit.prdqRetireEntry.map Prod.fst) = some false := by
  obtain ⟨run, reached, observed⟩ := reaches_of_observed step anyEvent
    (initial (fun reg => ⟨reg.regClass, reg.index⟩) [⟨.int, 8⟩, ⟨.int, 9⟩, ⟨.int, 10⟩])
    [.rename 3 [{ reg := ⟨.int, 0⟩ }], .enterPreMode, .rename 5 [{ reg := ⟨.int, 1⟩ }],
      .squash 3, .rename 7 [{ reg := ⟨.int, 2⟩ }], .execute 7, .retire]
    (fun run => decide (run.unit.inPreMode = true ∧ run.entrySeqNum = 3 ∧
      run.unit.historyBuffer.map (fun entry => entry.instSeqNum) = [7, 3] ∧
      run.unit.prdq = [⟨⟨.int, 1⟩, 5, false⟩, ⟨⟨.int, 2⟩, 7, true⟩] ∧
      (run.unit.prdqRetireEntry.map Prod.fst) = some false)) (by decide +kernel)
  exact ⟨run, reached, of_decide_eq_true observed⟩

end PrdqRun

end Runahead.Pre
