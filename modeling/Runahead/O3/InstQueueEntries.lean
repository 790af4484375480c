import Mathlib.Data.List.Count
import Mathlib.Data.List.Perm.Subperm
import Runahead.O3.InstQueue

/-!
# Entries of the instruction queue

Who holds an entry of the queue is a matter of each instruction alone: of its
status bits and of how often it occurs in the lists of the queue. This local part
of the state is its `EntryView`; every operation changes the view of one
instruction at a time, and the invariant is a condition on views together with the
balance of the counters.
-/

set_option autoImplicit false

namespace Runahead.O3

open Library Function List

structure EntryView where
  dyn : IqInst
  lists : IqList → Nat
  entry : Option MemDepEntry
  nodes : Nat
  memPairs : Nat
  inserted : Nat
  released : Nat

namespace EntryView

variable (view : EntryView) {dying : Prop}

/-- How often the instruction is on its way to be issued or executed. -/
def places : Nat :=
  view.lists .readyInsts + view.lists .instsToExecute + view.lists .deferredMemInsts +
    view.lists .blockedMemInsts + view.lists .retryMemInsts + view.lists .instsToReplay +
    view.lists .accessing

def waiting : Bool :=
  if view.dyn.staticInst.needsRelease then view.lists .nonSpecInsts != 0
  else if view.dyn.isMemRef then view.entry.any fun entry => !entry.regsReady || entry.memDeps != 0
  else view.dyn.readyRegs < view.dyn.numSrcRegs

theorem waiting_of_memory (speculative : view.dyn.staticInst.needsRelease = false)
    (memory : view.dyn.isMemRef = true) :
    view.waiting = view.entry.any fun entry => !entry.regsReady || entry.memDeps != 0 := by
  simp [waiting, speculative, memory]

theorem waiting_of_plain (speculative : view.dyn.staticInst.needsRelease = false)
    (plain : view.dyn.isMemRef = false) :
    view.waiting = decide (view.dyn.readyRegs < view.dyn.numSrcRegs) := by
  simp [waiting, speculative, plain]

variable {view}

theorem waiting_of_lists {lists : IqList → Nat}
    (nonSpec : lists .nonSpecInsts = view.lists .nonSpecInsts) :
    { view with lists := lists }.waiting = view.waiting := by
  simp only [waiting, nonSpec]

/-- `dying` says that the memory dependence unit is about to squash the instruction. -/
structure Ok (dying : Prop) (view : EntryView) : Prop where
  once : view.released ≤ view.inserted ∧ view.inserted ≤ 1
  absent : view.inserted = 0 → view.places = 0 ∧ view.lists .nonSpecInsts = 0 ∧ view.entry = none ∧
    view.nodes = 0 ∧ view.memPairs = 0
  plain : view.inserted = 1 → view.dyn.isMemRef = false →
    (view.released = 1 ↔ view.dyn.issued = true)
  memory : view.inserted = 1 → view.dyn.isMemRef = true →
    (view.released = 1 ↔ view.dyn.memOpDone = true ∨ view.dyn.squashedInIQ = true)
  squashed : view.inserted = 1 → view.dyn.squashedInIQ = true →
    view.dyn.squashed = true ∧ view.dyn.issued = true
  done : view.inserted = 1 → view.dyn.memOpDone = true → view.dyn.executed = true
  executed : view.inserted = 1 → view.dyn.isMemRef = true → view.dyn.executed = true →
    view.dyn.issued = true
  underway : view.lists .instsToExecute ≠ 0 ∨ view.lists .accessing ≠ 0 → view.dyn.issued = true
  started : view.inserted = 1 → view.dyn.isMemRef = false → view.dyn.squashedInIQ = false →
    view.dyn.issued = true → view.lists .instsToExecute ≠ 0 ∨ view.dyn.executed = true
  /-- An instruction has one place at a time. -/
  seat : view.inserted = 1 → view.dyn.squashedInIQ = false →
    view.waiting.toNat + view.places + view.dyn.executed.toNat ≤ 1
  hashed : ∀ entry, view.entry = some entry → view.dyn.memOpDone = false ∧
    (view.dyn.squashedInIQ = false ∨ dying)
  nonSpecOnce : view.lists .nonSpecInsts ≤ 1 ∧
    (view.lists .nonSpecInsts ≠ 0 → view.dyn.staticInst.needsRelease = true)
  operands : view.inserted = 1 → view.dyn.staticInst.needsRelease = false →
    view.dyn.squashedInIQ = false → view.dyn.readyRegs + view.nodes ≤ view.dyn.numSrcRegs
  issuable : view.inserted = 1 → view.dyn.staticInst.needsRelease = false →
    view.dyn.squashedInIQ = false → view.dyn.canIssue = true →
    view.dyn.readyRegs = view.dyn.numSrcRegs
  /-- Nothing gets ahead without its sources. -/
  sourced : view.inserted = 1 → view.dyn.staticInst.needsRelease = false →
    view.dyn.squashedInIQ = false →
    view.places ≠ 0 ∨ view.dyn.issued = true ∨ view.dyn.executed = true →
    view.dyn.readyRegs = view.dyn.numSrcRegs
  dependent : view.nodes ≠ 0 ∨ view.memPairs ≠ 0 → view.dyn.staticInst.needsRelease = false
  memDependent : view.memPairs ≠ 0 → view.dyn.isMemRef = true
  memDeps : ∀ entry, view.entry = some entry → entry.memDeps = view.memPairs ∧
    (entry.regsReady = true → view.dyn.squashedInIQ = false →
      view.dyn.staticInst.needsRelease = false → view.dyn.readyRegs = view.dyn.numSrcRegs)

def less (lists : IqList → Nat) (list : IqList) : IqList → Nat :=
  Function.update lists list (lists list - 1)

def more (lists : IqList → Nat) (list : IqList) : IqList → Nat :=
  Function.update lists list (lists list + 1)

namespace Ok

section

variable (ok : view.Ok dying)
include ok

theorem inserted_of_places (placed : view.places ≠ 0) : view.inserted = 1 := by
  have bound := ok.once.2
  by_contra absent
  exact placed (ok.absent (by omega)).1

theorem not_squashedInIQ (present : view.inserted = 1)
    (alive : view.dyn.squashed = false) : view.dyn.squashedInIQ = false := by
  by_contra marked
  exact clash alive (ok.squashed present (Bool.of_not_eq_false marked)).1

theorem move (lists : IqList → Nat) (fewer : { view with lists := lists }.places ≤ view.places)
    (nonSpec : lists .nonSpecInsts = view.lists .nonSpecInsts)
    (underway : lists .instsToExecute ≠ 0 ∨ lists .accessing ≠ 0 → view.dyn.issued = true)
    (started : view.dyn.isMemRef = false → view.lists .instsToExecute ≠ 0 →
      lists .instsToExecute ≠ 0) :
    { view with lists := lists }.Ok dying :=
  { ok with
    absent := fun none => ⟨by have := (ok.absent none).1; omega,
      nonSpec.trans (ok.absent none).2.1, (ok.absent none).2.2⟩
    underway := underway
    started := fun present plain alive issued =>
      (ok.started present plain alive issued).imp_left (started plain)
    seat := fun present alive => by
      have := ok.seat present alive
      rw [waiting_of_lists nonSpec]
      change view.waiting.toNat + _ + view.dyn.executed.toNat ≤ 1
      omega
    sourced := fun present speculative alive ahead => ok.sourced present speculative alive
      (ahead.imp_left fun placed none => placed (Nat.le_zero.mp (none ▸ fewer)))
    nonSpecOnce := by simpa only [nonSpec] using ok.nonSpecOnce }

theorem execute (lists : IqList → Nat) (fewer : { view with lists := lists }.places < view.places)
    (nonSpec : lists .nonSpecInsts = view.lists .nonSpecInsts)
    (issued : view.dyn.issued = true) (fault : Bool) :
    { view with
      lists := lists
      dyn := { view.dyn with fault := fault, executed := true } }.Ok dying := by
  have placed : view.places ≠ 0 := Nat.ne_of_gt (Nat.lt_of_le_of_lt (Nat.zero_le _) fewer)
  have present := ok.inserted_of_places placed
  exact { ok with
    absent := fun none => absurd none (by simp [present])
    done := fun _ _ => rfl
    executed := fun _ _ _ => issued
    underway := fun _ => issued
    started := fun _ _ _ _ => .inr rfl
    seat := fun _ alive => by
      have := ok.seat present alive
      change { view with lists := lists }.waiting.toNat +
        { view with lists := lists }.places + 1 ≤ 1
      rw [waiting_of_lists nonSpec]
      omega
    sourced := fun _ speculative alive _ => ok.sourced present speculative alive (.inl placed)
    nonSpecOnce := by simpa only [nonSpec] using ok.nonSpecOnce }

theorem issue (ready : view.lists .readyInsts ≠ 0)
    (alive : view.dyn.squashed = false) (lists : IqList → Nat)
    (same : { view with lists := lists }.places = view.places)
    (nonSpec : lists .nonSpecInsts = view.lists .nonSpecInsts)
    (underway : lists .instsToExecute ≠ 0) :
    { view with
      lists := lists
      dyn := view.dyn.setIssued
      released := view.released + if view.dyn.isMemRef then 0 else 1 }.Ok dying := by
  have placed : view.places ≠ 0 := by simp only [places]; omega
  have present := ok.inserted_of_places placed
  have unmarked := ok.not_squashedInIQ present alive
  have seat := ok.seat present unmarked
  have idle : view.dyn.isMemRef = false → view.released = 0 := by
    intro plain
    have := ok.once
    by_contra held
    have released : view.released = 1 := by omega
    rcases ok.started present plain unmarked ((ok.plain present plain).mp released) with here | done
    · simp only [places] at seat
      omega
    · simp only [done, Bool.toNat_true] at seat
      omega
  exact { ok with
    once := by
      have := ok.once
      cases memory : view.dyn.isMemRef with
      | true => simpa using this
      | false =>
        have := idle memory
        simp only [Bool.false_eq_true, ↓reduceIte]
        omega
    absent := fun none => absurd none (by simp [present])
    plain := fun _ plain => by
      have plain : view.dyn.isMemRef = false := plain
      simp [plain, idle plain, IqInst.setIssued]
    memory := fun _ memory => by
      have memory : view.dyn.isMemRef = true := memory
      have := ok.memory present memory
      simpa [memory, IqInst.setIssued] using this
    squashed := fun _ marked => clash unmarked marked
    executed := fun _ _ _ => rfl
    underway := fun _ => rfl
    started := fun _ _ _ _ => .inl underway
    seat := fun _ _ => by
      change { view with lists := lists }.waiting.toNat + { view with lists := lists }.places +
        view.dyn.executed.toNat ≤ 1
      rw [waiting_of_lists nonSpec]
      omega
    sourced := fun _ speculative _ _ => ok.sourced present speculative unmarked (.inl placed)
    nonSpecOnce := by simpa only [nonSpec, IqInst.setIssued] using ok.nonSpecOnce }

theorem schedule (here : view.lists .nonSpecInsts ≠ 0) :
    { view with
      lists := more (less view.lists .nonSpecInsts) .readyInsts
      dyn := view.dyn.setCanIssue }.Ok dying := by
  have needs := ok.nonSpecOnce.2 here
  have single : view.lists .nonSpecInsts = 1 := by
    have := ok.nonSpecOnce.1
    omega
  have present : view.inserted = 1 := by
    have := ok.once.2
    by_contra none
    exact here (ok.absent (by omega)).2.1
  exact { ok with
    absent := fun none => absurd none (by simp [present])
    seat := fun _ alive => by
      have seat := ok.seat present alive
      simp only [waiting, needs, places, IqInst.setCanIssue, more, less] at seat ⊢
      simp [single] at seat ⊢
      omega
    nonSpecOnce := by simp [more, less, single]
    sourced := fun _ speculative => clash needs speculative
    issuable := fun _ speculative => clash needs speculative }

theorem sendBack (here : view.lists .instsToExecute ≠ 0)
    (alive : view.dyn.squashed = false) (memory : view.dyn.isMemRef = true)
    (unexecuted : view.dyn.executed = false) (lists : IqList → Nat)
    (same : { view with lists := lists }.places = view.places)
    (nonSpec : lists .nonSpecInsts = view.lists .nonSpecInsts)
    (left : lists .instsToExecute = view.lists .instsToExecute - 1)
    (access : lists .accessing = view.lists .accessing) (fault : Bool) :
    { view with
      lists := lists
      dyn := { view.dyn with fault := fault, issued := false, canIssue := false } }.Ok dying := by
  have placed : view.places ≠ 0 := by simp only [places]; omega
  have present := ok.inserted_of_places placed
  have unmarked := ok.not_squashedInIQ present alive
  have seat := ok.seat present unmarked
  have gone : lists .instsToExecute = 0 ∧ lists .accessing = 0 := by
    simp only [places] at seat
    omega
  exact { ok with
    absent := fun none => absurd none (by simp [present])
    plain := fun _ plain => clash memory plain
    squashed := fun _ marked => clash unmarked marked
    executed := fun _ _ executed => clash unexecuted executed
    underway := fun moving => absurd moving (by simp [gone])
    started := fun _ plain => clash memory plain
    seat := fun _ _ => by
      change { view with lists := lists }.waiting.toNat + { view with lists := lists }.places +
        view.dyn.executed.toNat ≤ 1
      rw [waiting_of_lists nonSpec]
      omega
    sourced := fun _ speculative _ _ => ok.sourced present speculative unmarked (.inl placed)
    nonSpecOnce := by simpa only [nonSpec] using ok.nonSpecOnce
    issuable := fun _ _ _ => (by simp) }

end

end Ok

end EntryView

namespace InstructionQueue

variable {config : IqConfig} {state next : InstructionQueue} {inst : Nat}

def view (state : InstructionQueue) (inst : Nat) : EntryView where
  dyn := state.insts inst
  lists list := (state.lists list).count inst
  entry := state.memDepHash inst
  nodes := state.dependGraph.countP fun node => node.2 = inst
  memPairs := state.memDependents.countP fun pair => pair.2 = inst
  inserted := state.inserted.count inst
  released := state.released.count inst

def ofThread (state : InstructionQueue) (tid : ThreadID) (inst : Nat) : Bool :=
  (state.insts inst).threadNumber = tid

structure Accounts (config : IqConfig) (state : InstructionQueue) : Prop where
  free : state.freeEntries + state.inserted.length = config.numEntries + state.released.length
  perThread : ∀ tid,
    state.count tid + state.released.countP (state.ofThread tid) =
      state.inserted.countP (state.ofThread tid)

structure EntryInv (config : IqConfig) (dying : Nat → Prop) (state : InstructionQueue) : Prop where
  ok : ∀ inst, (state.view inst).Ok (dying inst)
  accounts : state.Accounts config

theorem initial_entryInv (config : IqConfig) (dying : Nat → Prop) :
    (initial config).EntryInv config dying := by
  refine ⟨fun inst => ?_, ?_⟩
  · constructor <;> simp [view, initial, EntryView.places]
  · constructor <;> simp [initial]

/-! ## Views after the operations -/

theorem Accounts.of_same (accounts : state.Accounts config)
    (free : next.freeEntries = state.freeEntries) (count : next.count = state.count)
    (inserted : next.inserted = state.inserted) (released : next.released = state.released)
    (threads : ∀ inst, (next.insts inst).threadNumber = (state.insts inst).threadNumber) :
    next.Accounts config := by
  constructor
  · rw [free, inserted, released]
    exact accounts.free
  · have same : next.ofThread = state.ofThread := by
      funext tid inst
      simp only [ofThread, threads]
    simp only [count, inserted, released, same]
    exact accounts.perThread

theorem EntryInv.change {dying : Nat → Prop} (inv : state.EntryInv config dying) (inst : Nat)
    (others : ∀ other, other ≠ inst → next.view other = state.view other)
    (own : (next.view inst).Ok (dying inst))
    (accounts : next.Accounts config) : next.EntryInv config dying := by
  refine ⟨fun other => ?_, accounts⟩
  by_cases same : other = inst
  · exact same ▸ own
  · exact others other same ▸ inv.ok other

/-- An operation that concerns one instruction keeps the invariant if it does so there. -/
theorem EntryInv.update {dying : Nat → Prop} {own : Nat → EntryView}
    (inv : state.EntryInv config dying)
    (changed : ∀ other, next.view other = if other = inst then own other else state.view other)
    (ok : (own inst).Ok (dying inst)) (accounts : next.Accounts config) :
    next.EntryInv config dying := by
  refine inv.change inst (fun other different => ?_) ?_ accounts
  · rw [changed, if_neg different]
  · rw [changed, if_pos rfl]
    exact ok

theorem view_modify (state : InstructionQueue) (inst : Nat) (change : IqInst → IqInst)
    (other : Nat) :
    (state.modify inst change).view other =
      if other = inst then { state.view other with dyn := change (state.view other).dyn }
      else state.view other := by
  unfold view modify
  split
  · next same => simp [same]
  · next different => simp [different]

theorem modify_threads {change : IqInst → IqInst}
    (keeps : ∀ dyn, (change dyn).threadNumber = dyn.threadNumber) (other : Nat) :
    ((state.modify inst change).insts other).threadNumber = (state.insts other).threadNumber := by
  simp only [modify, update_apply]
  split
  · next same => rw [keeps, same]
  · rfl

variable (state)

theorem view_setList (list : IqList) (insts : List Nat) (other : Nat) :
    { state with lists := update state.lists list insts }.view other =
      { state.view other with
        lists := update (state.view other).lists list (insts.count other) } := by
  unfold view
  congr 1
  funext which
  exact apply_update (fun _ insts => insts.count other) state.lists list insts which

theorem view_push (list : IqList) (inst other : Nat) :
    (state.push list inst).view other =
      if other = inst then
        { state.view other with
          lists := EntryView.more (state.view other).lists list }
      else state.view other := by
  rw [push, view_setList, count_append]
  split
  · next same => simp [same, EntryView.more, view]
  · next different => simp [Ne.symm different, view]

theorem view_pop (list : IqList) (inst other : Nat) :
    (state.pop list inst).view other =
      if other = inst then
        { state.view other with
          lists := EntryView.less (state.view other).lists list }
      else state.view other := by
  rw [pop, view_setList]
  split
  · next same => simp [same, EntryView.less, view]
  · next different => simp [count_erase_of_ne different, view]

theorem view_setEntry (inst : Nat) (entry : MemDepEntry) (other : Nat) :
    (state.setEntry inst entry).view other =
      if other = inst then { state.view other with entry := some entry } else state.view other := by
  unfold view setEntry
  split
  · next same => simp [same]
  · next different => simp [different]

theorem view_release (inst other : Nat) :
    (state.release inst).view other =
      if other = inst then { state.view other with released := (state.view other).released + 1 }
      else state.view other := by
  unfold view release
  split
  · next same => simp [same]
  · next different => simp [Ne.symm different]

variable {state}

theorem Accounts.release (accounts : state.Accounts config)
    (once : ∀ inst, state.released.count inst ≤ state.inserted.count inst)
    (held : state.released.count inst < state.inserted.count inst) :
    (state.release inst).Accounts config := by
  have sub : (inst :: state.released).Subperm state.inserted := by
    refine subperm_ext_iff.mpr fun other _ => ?_
    rw [count_cons]
    split
    · next same => exact eq_of_beq same ▸ held
    · exact once other
  constructor
  · have := accounts.free
    simp only [InstructionQueue.release, length_append, length_singleton]
    omega
  · intro tid
    have total := accounts.perThread tid
    have bound := sub.countP_le (state.ofThread tid)
    rw [countP_cons] at bound
    change update state.count _ _ tid +
      (state.released ++ [inst]).countP (state.ofThread tid) =
        state.inserted.countP (state.ofThread tid)
    rw [update_apply, countP_append, countP_singleton]
    split
    · next same =>
      have own : state.ofThread tid inst = true := by simp [ofThread, same]
      rw [if_pos own] at bound ⊢
      subst same
      omega
    · next different =>
      have other : state.ofThread tid inst = false := by
        simpa [ofThread] using fun same => different (Eq.symm same)
      simp only [other, Bool.false_eq_true, ↓reduceIte]
      omega

/-! ## Moving between the lists -/

section Moves

variable {dying : Nat → Prop}

theorem EntryInv.once (inv : state.EntryInv config dying) (inst : Nat) :
    state.released.count inst ≤ state.inserted.count inst :=
  (inv.ok inst).once.1

variable {list : IqList}

theorem mem_list (member : inst ∈ state.lists list) : (state.view inst).lists list ≠ 0 :=
  Nat.ne_of_gt (count_pos_iff.mpr member)

section

variable (inv : state.EntryInv config dying)
include inv

theorem pop_entryInv (member : inst ∈ state.lists list) (kept : list ≠ .nonSpecInsts)
    (idle : list = .instsToExecute → (state.insts inst).isMemRef = true) :
    (state.pop list inst).EntryInv config dying := by
  have ok := inv.ok inst
  refine inv.update (view_pop state list inst) ?_ { inv.accounts with }
  refine ok.move _ ?_ (update_of_ne (Ne.symm kept) _ _) ?_ ?_
  · cases list <;> simp [EntryView.places, EntryView.less]
  · intro moving
    refine ok.underway (moving.imp (fun more none => more ?_) fun more none => more ?_)
    · cases list <;> simp [EntryView.less, none]
    · cases list <;> simp [EntryView.less, none]
  · intro plain executing
    cases list with
    | instsToExecute => exact clash (idle rfl) plain
    | _ => simpa [EntryView.less] using executing

theorem issue_entryInv
    (issued : state.issue inst = some next) : next.EntryInv config dying := by
  simp only [issue, Option.ite_none_right_eq_some] at issued
  obtain ⟨member, issued⟩ := issued
  split at issued
  · cases issued
    exact pop_entryInv inv member (by simp) (by simp)
  · next alive =>
    have here := mem_list member
    have own := (inv.ok inst).issue here (Bool.of_not_eq_true alive)
      (EntryView.more (EntryView.less (state.view inst).lists .readyInsts) .instsToExecute)
      (by simp [EntryView.places, EntryView.less, EntryView.more]; omega)
      (by simp [EntryView.less, EntryView.more]) (by simp [EntryView.more])
    have accounts : (((state.pop .readyInsts inst).push .instsToExecute inst).modify inst
        IqInst.setIssued).Accounts config :=
      inv.accounts.of_same rfl rfl rfl rfl (modify_threads fun _ => rfl)
    cases issued
    cases memory : (state.insts inst).isMemRef with
    | true =>
      have memory' : (state.view inst).dyn.isMemRef = true := memory
      refine inv.change inst (fun other different => ?_) ?_ accounts
      · simp [view_modify, view_push, view_pop, different]
      · rw [if_pos memory'] at own
        simpa [view_modify, view_push, view_pop] using own
    | false =>
      have memory' : (state.view inst).dyn.isMemRef = false := memory
      rw [memory'] at own
      refine inv.change inst (fun other different => ?_) ?_ (accounts.release inv.once ?_)
      · simp [view_release, view_modify, view_push, view_pop, different]
      · simpa [view_release, view_modify, view_push, view_pop] using own
      · exact Nat.lt_of_succ_le own.once.1

theorem relist_entryInv (source target : IqList)
    (change : IqInst → IqInst) (threads : ∀ dyn, (change dyn).threadNumber = dyn.threadNumber)
    (own : { state.view inst with
      lists := EntryView.more (EntryView.less (state.view inst).lists source) target
      dyn := change (state.view inst).dyn }.Ok (dying inst)) :
    (((state.pop source inst).modify inst change).push target inst).EntryInv config dying := by
  refine inv.change inst (fun other different => ?_) ?_
    (inv.accounts.of_same rfl rfl rfl rfl (modify_threads threads))
  · simp [view_modify, view_push, view_pop, different]
  · simpa [view_modify, view_push, view_pop] using own

theorem pop_instToCommit_entryInv
    (member : inst ∈ state.lists list) (moving : list = .instsToExecute ∨ list = .accessing)
    (fault : Bool) : ((state.pop list inst).instToCommit inst fault).EntryInv config dying := by
  have here := mem_list member
  have ok := inv.ok inst
  have issued : (state.view inst).dyn.issued = true := by
    rcases moving with rfl | rfl
    · exact ok.underway (.inl here)
    · exact ok.underway (.inr here)
  refine relist_entryInv inv list .toCommit (fun dyn => (dyn.setFault fault).setExecuted)
    (fun _ => rfl) (ok.execute _ ?_ ?_ issued fault)
  · rcases moving with rfl | rfl <;>
      simp [EntryView.places, EntryView.less, EntryView.more] <;> omega
  · rcases moving with rfl | rfl <;> simp [EntryView.less, EntryView.more]

theorem park_entryInv {source : IqList} (target : IqList)
    (member : inst ∈ state.lists source) (left : source ≠ .nonSpecInsts ∧ source ≠ .toCommit)
    (idle : source = .instsToExecute → (state.insts inst).isMemRef = true)
    (parked : target = .deferredMemInsts ∨ target = .readyInsts) (different : source ≠ target) :
    ((state.pop source inst).push target inst).EntryInv config dying := by
  have here := mem_list member
  have ok := inv.ok inst
  refine inv.change inst (fun other different => ?_) ?_ { inv.accounts with }
  · simp [view_push, view_pop, different]
  · have own : { state.view inst with
        lists := EntryView.more (EntryView.less (state.view inst).lists source) target }.Ok
          (dying inst) := by
      refine ok.move _ ?_ ?_ ?_ ?_
      · rcases parked with rfl | rfl <;> cases source <;>
          simp [EntryView.places, EntryView.less, EntryView.more] at * <;> omega
      · rcases parked with rfl | rfl <;> cases source <;>
          simp [EntryView.less, EntryView.more] at *
      · intro moving
        refine ok.underway (moving.imp (fun more none => more ?_) fun more none => more ?_)
        · rcases parked with rfl | rfl <;> cases source <;>
            simp [EntryView.less, EntryView.more, none]
        · rcases parked with rfl | rfl <;> cases source <;>
            simp [EntryView.less, EntryView.more, none]
      · intro plain executing
        cases source with
        | instsToExecute => exact clash (idle rfl) plain
        | _ =>
          rcases parked with rfl | rfl <;> simpa [EntryView.less, EntryView.more] using executing
    simpa [view_push, view_pop] using own

theorem push_toCommit_entryInv (inst : Nat) :
    (state.push .toCommit inst).EntryInv config dying := by
  refine inv.update (view_push state .toCommit inst) ?_ { inv.accounts with }
  exact (inv.ok inst).move _ (by simp [EntryView.places, EntryView.more])
    (by simp [EntryView.more]) (by simpa [EntryView.more] using (inv.ok inst).underway)
    (by simp [EntryView.more])

theorem execute_entryInv {outcome : IssueOutcome}
    (executed : state.execute inst outcome = some next) : next.EntryInv config dying := by
  simp only [execute, Option.ite_none_right_eq_some] at executed
  obtain ⟨member, executed⟩ := executed
  have here := mem_list member
  have ok := inv.ok inst
  have issued := ok.underway (.inl here)
  split at executed
  · cases executed
    refine inv.change inst (fun other different => ?_) ?_
      (inv.accounts.of_same rfl rfl rfl rfl (modify_threads fun _ => rfl))
    · simp [view_modify, view_pop, different]
    · have own := ok.execute (EntryView.less (state.view inst).lists .instsToExecute)
        (by simp [EntryView.places, EntryView.less]; omega) (by simp [EntryView.less]) issued
        (state.view inst).dyn.fault
      simpa [view_modify, view_pop, IqInst.setExecuted] using own
  · next alive =>
    have alive : (state.view inst).dyn.squashed = false := Bool.of_not_eq_true alive
    cases outcome with
    | finished fault =>
      cases executed
      exact pop_instToCommit_entryInv inv member (.inl rfl) fault
    | deferred =>
      obtain ⟨memory, rfl⟩ := fired executed
      exact park_entryInv inv .deferredMemInsts member ⟨(by decide), (by decide)⟩
        (fun _ => memory) (.inl rfl)
        (by decide)
    | blocked =>
      obtain ⟨possible, executed⟩ := Option.ite_none_right_eq_some.mp executed
      simp only [Bool.and_eq_true, Bool.not_eq_true'] at possible
      cases executed
      refine relist_entryInv inv .instsToExecute .blockedMemInsts
        (fun dyn => dyn.clearIssued.clearCanIssue) (fun _ => rfl)
        (ok.sendBack here alive possible.1 possible.2 _ ?_ ?_ ?_ ?_ (state.view inst).dyn.fault)
      all_goals simp [EntryView.places, EntryView.less, EntryView.more]
      omega
    | rescheduled strictlyOrdered =>
      obtain ⟨possible, executed⟩ := Option.ite_none_right_eq_some.mp executed
      simp only [Bool.and_eq_true, Bool.not_eq_true'] at possible
      have waiting : (((state.pop .instsToExecute inst).modify inst fun dyn =>
          (dyn.setFault strictlyOrdered).clearIssued.clearCanIssue).push
          .instsToReplay inst).EntryInv config dying := by
        refine relist_entryInv inv .instsToExecute .instsToReplay _ (fun _ => rfl)
          (ok.sendBack here alive possible.1 possible.2 _ ?_ ?_ ?_ ?_ strictlyOrdered)
        all_goals simp [EntryView.places, EntryView.less, EntryView.more]
        omega
      cases executed
      split
      · exact push_toCommit_entryInv waiting inst
      · exact waiting
    | accessed =>
      obtain ⟨memory, rfl⟩ := fired executed
      have moved := ok.move
        (EntryView.more (EntryView.less (state.view inst).lists .instsToExecute) .accessing)
        (by simp [EntryView.places, EntryView.less, EntryView.more]; omega)
        (by simp [EntryView.less, EntryView.more]) (fun _ => issued)
        (fun plain => clash memory plain)
      exact relist_entryInv inv .instsToExecute .accessing _ (fun _ => rfl) { moved with }

theorem accessDone_entryInv {fault : Bool}
    (done : state.accessDone inst fault = some next) : next.EntryInv config dying := by
  simp only [accessDone, Option.ite_none_right_eq_some] at done
  obtain ⟨member, done⟩ := done
  split at done
  · cases done
    exact pop_entryInv inv member (by simp) (by simp)
  · cases done
    exact pop_instToCommit_entryInv inv member (.inr rfl) fault

theorem executeDeferred_entryInv
    (executed : state.executeDeferred inst = some next) : next.EntryInv config dying := by
  obtain ⟨member, rfl⟩ := fired executed
  exact park_entryInv inv .readyInsts member ⟨(by simp), (by simp)⟩ (by simp) (.inr rfl) (by simp)

theorem executeBlocked_entryInv
    (executed : state.executeBlocked inst = some next) : next.EntryInv config dying := by
  obtain ⟨member, rfl⟩ := fired executed
  exact park_entryInv inv .readyInsts member ⟨(by simp), (by simp)⟩ (by simp) (.inr rfl) (by simp)

theorem cacheUnblocked_entryInv :
    state.cacheUnblocked.EntryInv config dying := by
  refine ⟨fun other => ?_, { inv.accounts with }⟩
  have ok := inv.ok other
  refine ok.move (fun which => (state.cacheUnblocked.lists which).count other) ?_ ?_ ?_ ?_
  · simp [EntryView.places, cacheUnblocked, setLists, view]
    omega
  · simp [cacheUnblocked, setLists, view]
  · simpa [cacheUnblocked, setLists, view] using ok.underway
  · simp [cacheUnblocked, setLists, view]

theorem replay_entryInv {tid : ThreadID}
    (replayed : state.replay tid = some next) : next.EntryInv config dying := by
  obtain ⟨_, rfl⟩ := fired replayed
  refine ⟨fun other => ?_, { inv.accounts with }⟩
  have ok := inv.ok other
  have parts := countP_eq_countP_filter_add (state.lists .instsToReplay) (· == other)
    fun inst => decide ((state.insts inst).threadNumber = tid)
  refine ok.move (fun which => List.count other (update (update state.lists
    .readyInsts _) .instsToReplay _ which)) ?_ ?_ ?_ ?_
  · simp [EntryView.places, view]
    simp only [List.count] at parts ⊢
    omega
  · simp [view]
  · simpa [view] using ok.underway
  · simp [view]

theorem scheduleNonSpec_entryInv
    (scheduled : state.scheduleNonSpec inst = some next) : next.EntryInv config dying := by
  obtain ⟨member, scheduled⟩ := Option.ite_none_right_eq_some.mp scheduled
  have released : next = ((state.pop .nonSpecInsts inst).modify inst IqInst.setCanIssue).push
      .readyInsts inst := by
    split at scheduled
    · exact (Option.some.inj (Option.ite_none_right_eq_some.mp scheduled).2).symm
    · exact (Option.some.inj scheduled).symm
  rw [released]
  exact relist_entryInv inv .nonSpecInsts .readyInsts _ (fun _ => rfl)
    ((inv.ok inst).schedule (mem_list member))

theorem commit_entryInv (tid : ThreadID) (seqNum : Nat) :
    (state.commit tid seqNum).EntryInv config dying :=
  ⟨inv.ok, { inv.accounts with }⟩

theorem setSquashed_entryInv (inst : Nat) :
    (state.modify inst IqInst.setSquashed).EntryInv config dying := by
  refine inv.update (view_modify state inst _) ?_
    (inv.accounts.of_same rfl rfl rfl rfl (modify_threads fun _ => rfl))
  exact { inv.ok inst with
    squashed := fun present marked => ⟨rfl, ((inv.ok inst).squashed present marked).2⟩ }

end

end Moves

end InstructionQueue

end Runahead.O3
