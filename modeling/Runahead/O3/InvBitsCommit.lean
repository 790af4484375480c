import Runahead.O3.InvBits

/-!
# INV bits and the commit stage

Commit invalidates the registers of an instruction when it takes the instruction
out of the ROB in runahead mode. As long as rename has not given the registers
of a squashed instruction to another one by then, the bits stay exact. The
traces at the end show what happens otherwise, and that registers with fixed
mappings and the registers of an atomic trigger are not covered either.
-/

set_option autoImplicit false

namespace Runahead.O3

open List InstTable

/-! ## Squashes in commit -/

namespace Core

structure BitsFrame (start core : Core) : Prop where
  instList : core.rob.instList = start.rob.instList
  inv : core.inv = start.inv
  committed : core.lastCommitedSeqNum = start.lastCommitedSeqNum
  trigger : core.raTriggerInst = start.raTriggerInst
  mode : core.inRunahead = start.inRunahead
  marks : ∀ inst, (core.insts inst).runaheadInst = (start.insts inst).runaheadInst

namespace BitsFrame

variable {config : Config} {env : CommitEnv} (core : Core)

theorem refl : BitsFrame core core := ⟨rfl, rfl, rfl, rfl, rfl, fun _ => rfl⟩

theorem trans {first second third : Core} (left : BitsFrame first second)
    (right : BitsFrame second third) : BitsFrame first third :=
  ⟨right.instList.trans left.instList, right.inv.trans left.inv,
    right.committed.trans left.committed, right.trigger.trans left.trigger,
    right.mode.trans left.mode, fun inst => (right.marks inst).trans (left.marks inst)⟩

theorem modifyInst (seqNum : Nat) (change : DynInst → DynInst)
    (marks : ∀ inst, (change inst).runaheadInst = inst.runaheadInst) :
    BitsFrame core (core.modifyInst seqNum change) := by
  exact { refl core with marks := modify_keeps (·.runaheadInst) (marks _) }

private theorem squashesOnly_marks {old new : InstTable} (only : State.SquashesOnly old new)
    (inst : Nat) : (new inst).runaheadInst = (old inst).runaheadInst := by
  rcases only inst with same | same <;> rw [same]
  rfl

variable (config)

theorem continueSquash :
    BitsFrame core (core.continueSquash config) := by
  unfold Core.continueSquash
  split
  · split
    · exact { refl core with }
    · have only := State.SquashesOnly.of_doSquash config.squashWidth core.insts core.rob
      exact { refl core with
        instList := Rob.doSquash_instList config.squashWidth core.insts core.rob
        marks := squashesOnly_marks only }
  · exact refl core

theorem checkForInterrupts (env : CommitEnv) (core : Core) :
    BitsFrame core (core.checkForInterrupts config env) := by
  obtain ⟨_, _, same⟩ := checkForInterrupts_eq config env core
  rw [same]
  exact { refl core with }

theorem broadcastSquash (squashedInst youngest : Nat)
    (pc : Addr) : BitsFrame core (core.broadcastSquash config squashedInst youngest pc) :=
  { refl core with
    instList := Rob.squash_instList config.squashWidth core.insts core.rob squashedInst
    marks := squashesOnly_marks
      (State.SquashesOnly.of_squash config.squashWidth core.insts core.rob squashedInst) }

theorem handleSquashes (fromIEW : IewStruct) :
    BitsFrame core (core.handleSquashes config fromIEW) := by
  have all : BitsFrame core (core.squashAll config) := broadcastSquash ..
  have own : BitsFrame core (core.ownSquashes config) := by
    rcases Core.ownSquashes_cases config core with
      ⟨same, _⟩ | ⟨_, same⟩ | ⟨_, _, same⟩ | ⟨_, _, _, same⟩ <;> rw [same]
    · exact refl core
    · exact { all with }
    · exact { all with }
    · exact { all with }
  unfold Core.handleSquashes
  simp only
  split
  · exact own.trans (broadcastSquash ..)
  · exact own

theorem startTrap (handlerPc : Addr) : BitsFrame core (core.startTrap handlerPc) :=
  { refl core with }

theorem handleInterrupt (env : CommitEnv) (core : Core) :
    BitsFrame core (core.handleInterrupt env) := by
  unfold Core.handleInterrupt
  split
  · exact { refl core with }
  · split
    · exact { refl core with }
    · exact refl core

end BitsFrame

end Core

namespace State

open Library

variable {config : Config} {env : CommitEnv} {state next : State} {core : Core}
variable {taken offered : List Nat} {inst : Nat} {after : Core}

theorem InvBitsAt.committing (inv : state.InvBitsAt offered)
    (seen : ∀ inst, ¬ state.SquashUnseen 2 inst) (frame : state.core.BitsFrame after) :
    (state.committing after).InvBitsAt offered := by
  have entries : (state.committing after).uncommittedEntries = state.uncommittedEntries := by
    simp only [uncommittedEntries, committing_core, frame.committed]
    rfl
  have departed : ∀ {inst},
      (state.committing after).Departed offered inst ↔ state.Departed offered inst := by
    intro inst
    simp only [Departed, committing_core, frame.instList]
    rfl
  refine ⟨inv.own, fun reg held invalid => ?_, fun mode entry member left => .inr ?_⟩
  · rw [committing_core, frame.inv] at invalid
    obtain ⟨entry, member, same, why⟩ := inv.sound reg held invalid
    exact ⟨entry, entries ▸ member, same, why.imp (fun trigger =>
      ⟨trigger.1.trans frame.trigger.symm, (frame.marks _).trans trigger.2⟩) fun left =>
        ⟨departed.mpr left.1, fun mode => Nat.le_trans (Nat.le_of_eq frame.trigger)
          (left.2 (frame.mode.symm.trans mode))⟩⟩
  · rw [entries] at member
    rw [committing_core, frame.inv]
    refine (inv.complete (frame.mode.symm.trans mode) entry member ?_).resolve_left (seen _)
    exact left.imp (fun trigger => trigger.trans frame.trigger) departed.mp

/-- An instruction that is refused has no entry, or rename is going to undo it. -/
theorem InvBitsAt.drop {kept : List Nat} (inv : state.InvBitsAt offered) (sub : kept ⊆ offered)
    (gone : state.core.inRunahead = true → ∀ entry ∈ state.uncommittedEntries,
      entry.instSeqNum ∈ offered → entry.instSeqNum ∉ kept →
        state.SquashUnseen 2 entry.instSeqNum) : state.InvBitsAt kept := by
  have fewer {inst} (departed : state.Departed offered inst) : state.Departed kept inst := by
    refine fun member => departed ?_
    simp only [mem_append] at member ⊢
    exact member.imp_right (Or.imp_left (@sub _))
  refine { inv with
    sound := fun reg held invalid => ?_, complete := fun mode entry member left => ?_ }
  · obtain ⟨entry, member, same, why⟩ := inv.sound reg held invalid
    exact ⟨entry, member, same, why.imp_right (And.imp_left fewer)⟩
  · by_cases dropped : entry.instSeqNum ∈ offered ∧ entry.instSeqNum ∉ kept
    · exact .inl (gone mode entry member dropped.1 dropped.2)
    · refine inv.complete mode entry member (left.imp_right fun departed inside => departed ?_)
      simp only [mem_append] at inside ⊢
      tauto

theorem InvBitsAt.passSquashed (inv : state.InvBitsAt offered)
    (rename : state.RenameInvAt config offered) (phase : state.phase = .betweenTicks)
    (found : ∀ inst ∈ offered, (state.insts inst).squashed = true ∨ state.SquashUnseen 3 inst) :
    state.InvBitsAt [] := by
  refine inv.drop (nil_subset _) fun _ entry member dropped _ => ?_
  rcases found _ dropped with squashed | unseen
  · exact rename.doomed entry member (.inl squashed)
  · exact ⟨by simp [phase, Phase.rank], unseen.2⟩

/-! ## The loops of commit -/

/-- In a cycle that starts like this, commit does not enter runahead mode, and
no instruction of the ROB is pseudo-retired. -/
def calm (state : State) : Bool :=
  !state.core.inRunahead && state.core.rob.instList.all fun inst =>
    !(state.insts inst).runaheadInst && !(state.insts inst).missedInL2

theorem calm_iff (state : State) : state.calm = true ↔ state.core.inRunahead = false ∧
    ∀ inst ∈ state.core.rob.instList,
      (state.insts inst).runaheadInst = false ∧ (state.insts inst).missedInL2 = false := by
  simp [calm]

structure HeadsOk (state : State) (core : Core) : Prop where
  calm : state.calm = true → core.inRunahead = false ∧ ∀ inst ∈ core.rob.instList,
    (core.insts inst).missedInL2 = false ∧
      ((core.insts inst).squashed = true → (core.insts inst).runaheadInst = false)
  /-- Nobody has got the registers of a squashed instruction. -/
  released : state.calm = true ∨ ∀ inst ∈ core.rob.instList, (core.insts inst).squashed = true →
    ∀ dest ∈ (core.insts inst).renamedDests, dest.2 ∈ state.rename.freeList
  /-- Entering the mode invalidates the registers of loads and stores only. -/
  triggers : ∀ inst ∈ core.rob.instList, (core.insts inst).missedInL2 = true →
    (core.insts inst).staticInst.isLoad = true ∨ (core.insts inst).staticInst.isStore = true

structure SameHead (old new : DynInst) : Prop where
  squashed : new.squashed = old.squashed
  renamedDests : new.renamedDests = old.renamedDests
  missedInL2 : new.missedInL2 = old.missedInL2
  staticInst : new.staticInst = old.staticInst

theorem SameHead.modify {insts : InstTable} {seqNum : Nat} {change : DynInst → DynInst}
    (kept : ∀ dyn, SameHead dyn (change dyn)) (inst : Nat) :
    SameHead (insts inst) (insts.modify seqNum change inst) := by
  rw [modify_apply]
  split
  · exact kept _
  · exact ⟨rfl, rfl, rfl, rfl⟩

theorem SameHead.marks {old new : DynInst} (only : Core.MarksOnly old new) :
    SameHead old new := by
  obtain ⟨_, _, _, _, rfl⟩ := only
  exact ⟨rfl, rfl, rfl, rfl⟩

theorem getInst_heads {next : Core} (inv : state.LoopInv taken (inst :: offered) core)
    (heads : state.HeadsOk core) (accepted : core.getInst config inst = .ok next) :
    state.HeadsOk next := by
  rcases Core.getInst_cases accepted with ⟨rfl, _⟩ | ⟨rfl, alive, _, _⟩
  · exact heads
  · have same (other : Nat) : SameHead (core.insts other) ((core.inserted inst).insts other) :=
      .marks (Core.inserted_marks core inst other)
    -- An instruction from rename is not squashed and has not accessed memory.
    have new : (core.insts inst).missedInL2 = false := by
      by_contra missed
      have dispatched := (inv.pipeline.status.each inst).missedDispatched
        (Bool.of_not_eq_false missed)
      have waits : inst ∈ state.waiting (inst :: offered) := mem_cons_self
      exact clash (inv.pipeline.queues.undispatched inst (mem_append_right _ waits)) dispatched
    refine ⟨fun calm => ⟨(heads.calm calm).1, fun other member => ?_⟩,
      heads.released.imp_right fun released other member squashed dest given => ?_, ?_⟩
    · obtain ⟨normal, quiet⟩ := heads.calm calm
      have unchanged : (core.inserted inst).insts = core.insts := by simp [Core.inserted, normal]
      rw [unchanged]
      rcases mem_append.mp member with old | here
      · exact quiet other old
      · rw [mem_singleton.mp here]
        exact ⟨new, fun squashed => clash alive squashed⟩
    · rw [(same other).squashed] at squashed
      rw [(same other).renamedDests] at given
      rcases mem_append.mp member with old | here
      · exact released other old squashed dest given
      · rw [mem_singleton.mp here] at squashed
        exact clash alive squashed
    · intro other member missed
      rw [(same other).missedInL2] at missed
      rw [(same other).staticInst]
      rcases mem_append.mp member with old | here
      · exact heads.triggers other old missed
      · rw [mem_singleton.mp here] at missed
        exact clash new missed

section

variable (heads : state.HeadsOk core)
include heads

theorem HeadsOk.of_marks (sub : after.rob.instList ⊆ core.rob.instList)
    (same : ∀ inst, SameHead (core.insts inst) (after.insts inst))
    (keeps : state.calm = true → after.inRunahead = core.inRunahead ∧
      ∀ inst, (after.insts inst).runaheadInst = (core.insts inst).runaheadInst) :
    state.HeadsOk after := by
  refine ⟨fun calm => ?_,
    heads.released.imp_right fun released inst member squashed dest given => ?_, ?_⟩
  · obtain ⟨mode, marks⟩ := keeps calm
    refine ⟨mode.trans (heads.calm calm).1, fun inst member => ?_⟩
    rw [(same inst).missedInL2, (same inst).squashed, marks inst]
    exact (heads.calm calm).2 inst (sub member)
  · rw [(same inst).squashed] at squashed
    rw [(same inst).renamedDests] at given
    exact released inst (sub member) squashed dest given
  · intro inst member missed
    rw [(same inst).missedInL2] at missed
    rw [(same inst).staticInst]
    exact heads.triggers inst (sub member) missed

theorem HeadsOk.kept
    (sub : after.rob.instList ⊆ core.rob.instList) (insts : after.insts = core.insts)
    (mode : after.inRunahead = core.inRunahead) : state.HeadsOk after :=
  heads.of_marks sub (fun _ => insts ▸ ⟨rfl, rfl, rfl, rfl⟩) fun _ => ⟨mode, fun _ => insts ▸ rfl⟩

theorem headStep_heads {next : Core}
    (step : Core.HeadStep env core next) : state.HeadsOk next := by
  have tail : ∀ {head : Nat} {rest : List Nat}, core.rob.instList = head :: rest →
      core.rob.retireHead.instList ⊆ core.rob.instList := by
    intro head rest atHead inst member
    simp only [Rob.retireHead, atHead, tail_cons] at member
    simp [atHead, member]
  cases step with
  | stay => exact heads
  | enter atHead enters entered =>
    obtain ⟨_, _, insts, _, rfl, only, _, _⟩ := Core.enterRunaheadMode_cases entered
    refine heads.of_marks (fun _ => id) (fun inst => .marks (only inst)) fun calm => ?_
    simp only [Core.entersRunahead, Bool.and_eq_true] at enters
    exact clash ((heads.calm calm).2 _ (by simp [atHead])).1 enters.1.2
  | invalidate =>
    exact heads.of_marks (fun _ => id) (.modify fun _ => ⟨rfl, rfl, rfl, rfl⟩)
      fun _ => ⟨rfl, modify_keeps (·.runaheadInst) rfl⟩
  | pseudoRetire atHead _ which =>
    rcases which with rfl | rfl
    · exact heads.kept (tail atHead) rfl rfl
    · exact heads.of_marks (tail atHead) (.modify fun _ => ⟨rfl, rfl, rfl, rfl⟩)
        fun _ => ⟨rfl, modify_keeps (·.runaheadInst) rfl⟩
  | dropSquashed atHead => exact heads.kept (tail atHead) rfl rfl
  | hold => exact heads.kept (fun _ => id) rfl rfl
  | release =>
    exact heads.of_marks (fun _ => id) (.modify fun _ => ⟨rfl, rfl, rfl, rfl⟩)
      fun _ => ⟨rfl, modify_keeps (·.runaheadInst) rfl⟩
  | trap => exact heads.kept (fun _ => id) rfl rfl
  | @commit head rest atHead =>
    obtain ⟨status, after, _, same⟩ := Core.afterCommit_cases env
      (Core.commitInst { core with pc := (core.insts head).pc } head) head
    rw [same]
    exact heads.kept (tail atHead) rfl rfl

theorem handleInterrupt_heads :
    state.HeadsOk (core.handleInterrupt env) := by
  unfold Core.handleInterrupt
  split
  · exact { heads with }
  · split
    · exact { heads with }
    · exact heads

end

variable {head : Nat} {reg : PhysRegId}

/-- An instruction of the ROB that is not squashed has the registers of its entries. -/
theorem RenameInvAt.entry_of_dest (inv : state.LoopInv taken [] core)
    (rename : (state.committing core).RenameInvAt config []) (inRob : head ∈ core.rob.instList)
    (alive : (core.insts head).squashed = false) :
    reg ∈ (core.insts head).renamedDests.map Prod.snd ↔
      ∃ entry ∈ (state.committing core).uncommittedEntries,
        entry.instSeqNum = head ∧ entry.newPhysReg = reg := by
  have uncommitted : core.lastCommitedSeqNum < head :=
    inv.pipeline.queues.committedBelow head (mem_append_left _ inRob)
  rw [← rename.mappings inv inRob alive]
  simp only [mappingsOf, map_map, mem_map, mem_reverse, mem_filter,
    decide_eq_true_eq, Function.comp_apply]
  constructor
  · rintro ⟨entry, ⟨member, rfl⟩, rfl⟩
    exact ⟨entry, mem_filter.mpr ⟨member, decide_eq_true uncommitted⟩, rfl, rfl⟩
  · rintro ⟨entry, member, rfl, rfl⟩
    exact ⟨entry, ⟨(mem_filter.mp member).1, rfl⟩, rfl⟩

/-- Outside the window, while nothing is being squashed, an instruction with entries
is in the ROB or comes next. -/
theorem RenameInvAt.placed (rename : (state.committing core).RenameInvAt config [])
    (inv : state.LoopInv taken [] core) (outside : (state.committing core).inWindow = false)
    (notTrapped : core.commitStatus ≠ .trapPending) {entry : RenameHistory}
    (member : entry ∈ (state.committing core).uncommittedEntries) :
    entry.instSeqNum ∈ core.rob.instList ++ ([] ++ state.renameQueue0) := by
  rcases rename.located entry member with (inRob | window) | queued | later | dropped
  · exact mem_append_left _ inRob
  · exact clash outside window.1
  · exact mem_append_right _ queued
  · exact clash inv.noSignal later.2.1
  · exact absurd dropped.1 notTrapped

/-- Registers that are in use are valid then. -/
theorem InvBitsAt.outside_valid (bits : (state.committing core).InvBitsAt [])
    (inv : state.LoopInv taken [] core) (quiet : (state.committing core).QuietInvAt taken [])
    (rename : (state.committing core).RenameInvAt config [])
    (outside : (state.committing core).inWindow = false)
    (notTrapped : core.commitStatus ≠ .trapPending)
    (held : reg ∉ state.rename.freeList) : core.inv reg = false := by
  by_contra invalid
  obtain ⟨entry, member, _, why⟩ := bits.sound reg held (Bool.of_not_eq_false invalid)
  have spared := rename.spared inv.noSignal member
  have placed := rename.placed inv outside notTrapped member
  rcases why with ⟨_, marked⟩ | ⟨departed, _⟩
  · rcases mem_append.mp placed with inRob | queued
    · rcases quiet.marks.rob outside _ inRob marked with squashed | squashing
      · exact spared (.inl squashed)
      · exact inv.running squashing.1
    · have queued : entry.instSeqNum ∈ state.renameQueue0 := queued
      have waits : entry.instSeqNum ∈ (state.committing core).waiting [] := by
        simp [waiting, State.committing, queued]
      rcases quiet.marks.waiting outside _ waits marked with squashed | later
      · exact spared (.inl squashed)
      · exact clash inv.noSignal later.2.1
  · exact departed placed

theorem getInst_invBits {next : Core} (inv : state.LoopInv taken (inst :: offered) core)
    (loop : state.ModeLoop core) (rename : (state.committing core).RenameInvAt config
      (inst :: offered))
    (bits : (state.committing core).InvBitsAt (inst :: offered))
    (accepted : core.getInst config inst = .ok next) :
    (state.committing next).InvBitsAt offered := by
  have unseen : ∀ {rank other}, ¬ (state.committing core).SquashUnseen rank other :=
    fun unseen => clash inv.noSignal unseen.2.1
  rcases Core.getInst_cases accepted with ⟨rfl, why⟩ | ⟨rfl, _, _, _⟩
  · refine bits.drop (subset_cons_self _ _) fun mode entry member dropped kept => ?_
    have here := (mem_cons.mp dropped).resolve_right kept
    -- A refused instruction has no entry: it is squashed, or a trap is pending.
    rcases why with squashed | squashing | trapped
    · exact absurd (.inl (here ▸ squashed)) (rename.spared inv.noSignal member)
    · exact absurd squashing inv.running
    · exact absurd trapped (loop.trapFree (.inl mode))
  · have place : ∀ {other}, (state.committing (core.inserted inst)).Departed offered other ↔
        (state.committing core).Departed (inst :: offered) other := by
      intro other
      simp [Departed, State.committing, Core.inserted]
    refine ⟨bits.own, fun reg held invalid => ?_, fun mode entry member left => .inr ?_⟩
    · obtain ⟨entry, member, same, why⟩ := bits.sound reg held invalid
      refine ⟨entry, member, same, why.imp (And.imp_right fun marked => ?_)
        (And.imp_left place.mpr)⟩
      change ((core.inserted inst).insts entry.instSeqNum).runaheadInst = true
      obtain ⟨_, _, _, kept, same⟩ := Core.inserted_marks core inst entry.instSeqNum
      rw [same]
      exact kept marked
    · exact (bits.complete mode entry member (left.imp_right place.mp)).resolve_left unseen

variable {rest : List Nat}

theorem retireHead_invBits (inv : state.LoopInv taken [] core)
    (bits : (state.committing core).InvBitsAt []) (atHead : core.rob.instList = head :: rest)
    (above : core.inRunahead = true → core.raTriggerInst ≤ head)
    {regs : PhysRegId → Bool} {insts : InstTable}
    (marks : ∀ inst, (insts inst).runaheadInst = (core.insts inst).runaheadInst)
    (grows : ∀ reg, core.inv reg = true → regs reg = true)
    (only : ∀ reg, reg ∉ state.rename.freeList → regs reg = true → core.inv reg = true ∨
      ∃ entry ∈ (state.committing core).uncommittedEntries,
        entry.instSeqNum = head ∧ entry.newPhysReg = reg)
    (all : ∀ entry ∈ (state.committing core).uncommittedEntries, entry.instSeqNum = head →
      regs entry.newPhysReg = true) :
    (state.committing { core.retireHead head with insts := insts, inv := regs }).InvBitsAt [] := by
  have unseen : ∀ {rank other}, ¬ (state.committing core).SquashUnseen rank other :=
    fun unseen => clash inv.noSignal unseen.2.1
  have departed : ∀ {other}, (state.committing { core.retireHead head with
      insts := insts, inv := regs }).Departed [] other ↔
      other ∉ rest ++ state.renameQueue0 := by
    intro other
    simp [Departed, State.committing, Core.retireHead, Rob.retireHead, atHead]
  have before : ∀ {other}, (state.committing core).Departed [] other ↔
      other ≠ head ∧ other ∉ rest ++ state.renameQueue0 := by
    intro other
    simp [Departed, State.committing, atHead]
  have gone : head ∉ rest ++ state.renameQueue0 := by
    intro member
    have ordered := inv.pipeline.queues.robOrdered
    rw [committing_core, atHead, cons_append] at ordered
    refine Nat.lt_irrefl head ((pairwise_cons.mp ordered).1 head ?_)
    rcases mem_append.mp member with later | queued
    · exact mem_append_left _ later
    · exact mem_append_right _ (by simp [waiting, State.committing, queued])
  refine ⟨bits.own, fun reg held invalid => ?_, fun mode entry member left => .inr ?_⟩
  · rcases only reg held invalid with old | ⟨entry, member, here, same⟩
    · obtain ⟨entry, member, same, why⟩ := bits.sound reg held old
      exact ⟨entry, member, same, why.imp (And.imp_right fun marked => (marks _).trans marked)
        (And.imp_left fun left => departed.mpr (before.mp left).2)⟩
    · exact ⟨entry, member, same, .inr ⟨departed.mpr (here ▸ gone), fun mode => here ▸ above mode⟩⟩
  · by_cases here : entry.instSeqNum = head
    · exact all entry member here
    · refine grows _ ((bits.complete mode entry member (left.imp_right fun left =>
        before.mpr ⟨here, departed.mp left⟩)).resolve_left unseen)

theorem enterRunaheadMode_inv {inst : Nat} {next : Core}
    (accesses : (core.insts inst).staticInst.isLoad = true ∨
      (core.insts inst).staticInst.isStore = true)
    (entered : core.enterRunaheadMode [] inst = .ok next) :
    next.inv = fun reg =>
      ((core.insts inst).renamedDests.map Prod.snd).contains reg || core.inv reg := by
  unfold Core.enterRunaheadMode at entered
  split at entered
  · cases entered
  · split at entered
    · cases entered
    · next trigger triggers =>
      obtain ⟨_, rfl⟩ := fired triggers
      cases entered
      have memory : ((core.insts inst).staticInst.isLoad ||
          (core.insts inst).staticInst.isStore) = true := by simpa using accesses
      simp only [memory, ↓reduceIte, Core.invalidateDestRegs, modify_self, DynInst.setInvalid]

theorem enter_invBits {next : Core} (inv : state.LoopInv taken [] core) (heads : state.HeadsOk core)
    (quiet : (state.committing core).QuietInvAt taken [])
    (rename : (state.committing core).RenameInvAt config [])
    (bits : (state.committing core).InvBitsAt [])
    (outside : (state.committing core).inWindow = false)
    (notTrapped : core.commitStatus ≠ .trapPending) (atHead : core.rob.instList = head :: rest)
    (enters : core.entersRunahead head = true)
    (entered : core.enterRunaheadMode [] head = .ok next) :
    (state.committing next).InvBitsAt [] := by
  simp only [Core.entersRunahead, Bool.and_eq_true, Bool.not_eq_true'] at enters
  have inRob : head ∈ core.rob.instList := by simp [atHead]
  have alive : (core.insts head).squashed = false := by
    by_contra squashed
    rcases inv.pipeline.squash.squashedReady head inRob (Bool.of_not_eq_false squashed) with
      ready | squashing
    · exact clash enters.1.1 ready
    · exact inv.running squashing.1
  have regs := enterRunaheadMode_inv (heads.triggers head inRob enters.1.2) entered
  have valid : ∀ reg, reg ∉ state.rename.freeList → core.inv reg = false :=
    fun _ => bits.outside_valid inv quiet rename outside notTrapped
  have dests : ∀ {reg}, reg ∈ (core.insts head).renamedDests.map Prod.snd ↔
      ∃ entry ∈ (state.committing core).uncommittedEntries,
        entry.instSeqNum = head ∧ entry.newPhysReg = reg :=
    rename.entry_of_dest inv inRob alive
  obtain ⟨_, _, insts, _, rfl, _, marked, _⟩ := Core.enterRunaheadMode_cases entered
  subst regs
  refine ⟨bits.own, fun reg held invalid => ?_, fun _ entry member left => .inr ?_⟩
  · have invalid : (((core.insts head).renamedDests.map Prod.snd).contains reg || core.inv reg) =
        true := invalid
    rw [valid reg held, Bool.or_false, contains_iff_mem] at invalid
    obtain ⟨entry, member, rfl, same⟩ := dests.mp invalid
    exact ⟨entry, member, same, .inl ⟨rfl, marked _ (mem_append_left _ inRob)⟩⟩
  · -- Only the trigger has left the registers that an entry holds.
    have here : entry.instSeqNum = head :=
      left.resolve_right fun departed => departed (rename.placed inv outside notTrapped member)
    have mine := dests.mpr ⟨entry, member, here, rfl⟩
    change (((core.insts head).renamedDests.map Prod.snd).contains entry.newPhysReg || _) = true
    rw [contains_iff_mem.mpr mine, Bool.true_or]

theorem pseudoRetire_invBits {marked : Core}
    (inv : state.LoopInv taken [] core) (heads : state.HeadsOk core)
    (rename : (state.committing core).RenameInvAt config [])
    (bits : (state.committing core).InvBitsAt []) (atHead : core.rob.instList = head :: rest)
    (mode : core.inRunahead = true ∨ (core.insts head).runaheadInst = true)
    (above : core.inRunahead = true → core.raTriggerInst ≤ head)
    (which : marked = core ∨ marked = core.modifyInst head DynInst.setInvalid) :
    (state.committing ((marked.invalidateDestRegs head).retireHead head)).InvBitsAt [] := by
  have inRob : head ∈ core.rob.instList := by simp [atHead]
  have regs : ∀ reg, (((core.insts head).renamedDests.map Prod.snd).contains reg ||
      core.inv reg) = true ↔ reg ∈ (core.insts head).renamedDests.map Prod.snd ∨
        core.inv reg = true := by
    intro reg
    rw [Bool.or_eq_true, contains_iff_mem]
  have retired : ∀ insts : InstTable,
      (∀ inst, (insts inst).runaheadInst = (core.insts inst).runaheadInst) →
      (state.committing { core.retireHead head with
        insts := insts
        inv := fun reg => ((core.insts head).renamedDests.map Prod.snd).contains reg ||
          core.inv reg }).InvBitsAt [] := by
    intro insts marks
    refine retireHead_invBits inv bits atHead above marks (fun reg old => (regs reg).mpr (.inr old))
      (fun reg held invalid => ?_) fun entry member here => (regs _).mpr (.inl ?_)
    · rcases (regs reg).mp invalid with mine | old
      · cases squashed : (core.insts head).squashed with
        | false => exact .inr ((rename.entry_of_dest inv inRob squashed).mp mine)
        | true =>
          obtain ⟨dest, member, rfl⟩ := mem_map.mp mine
          rcases heads.released with calm | released
          · obtain ⟨normal, quiet⟩ := heads.calm calm
            exact mode.elim (clash normal) (clash ((quiet head inRob).2 squashed))
          · exact absurd (released head inRob squashed dest member) held
      · exact .inl old
    · have alive : (core.insts head).squashed = false := Bool.eq_false_iff.mpr fun squashed =>
        rename.spared inv.noSignal member (.inl (here ▸ squashed))
      exact (rename.entry_of_dest inv inRob alive).mpr ⟨entry, member, here, rfl⟩
  rcases which with rfl | rfl
  · exact retired _ fun _ => rfl
  · have same := retired (core.insts.modify head DynInst.setInvalid)
      (modify_keeps (·.runaheadInst) rfl)
    have dests : ((core.modifyInst head DynInst.setInvalid).insts head).renamedDests =
        (core.insts head).renamedDests := by
      simp [Core.modifyInst, DynInst.setInvalid]
    simp only [Core.invalidateDestRegs, dests]
    exact same

theorem headStep_invBits {next : Core} (inv : state.LoopInv taken [] core)
    (loop : state.ModeLoop core) (heads : state.HeadsOk core)
    (quiet : (state.committing core).QuietInvAt taken [])
    (rename : (state.committing core).RenameInvAt config [])
    (bits : (state.committing core).InvBitsAt [])
    (chosen : core.mayCommit = true ∨ core.instList = []) (step : Core.HeadStep env core next) :
    (state.committing next).InvBitsAt [] := by
  have seen : ∀ inst, ¬ (state.committing core).SquashUnseen 2 inst :=
    fun _ unseen => clash inv.noSignal unseen.2.1
  have notTrapped : ∀ {head rest}, core.rob.instList = head :: rest →
      core.commitStatus ≠ .trapPending := by
    intro head rest atHead trapped
    have committing := inv.present chosen atHead
    simp [Core.mayCommit, trapped] at committing
  have framed : ∀ {after : Core}, core.BitsFrame after → (state.committing after).InvBitsAt [] :=
    fun frame => bits.committing seen frame
  have above : ∀ {head rest}, core.rob.instList = head :: rest → core.inRunahead = true →
      core.raTriggerInst ≤ head := by
    intro head rest atHead mode
    exact quiet.window.above ((inWindow_iff _).mpr (.inl mode)) head (by simp [atHead])
  cases step with
  | stay => exact bits
  | @enter head rest _ atHead enters entered =>
    have normal := (Core.enterRunaheadMode_cases entered).1
    have conditions := enters
    simp only [Core.entersRunahead, Bool.and_eq_true, Bool.not_eq_true'] at conditions
    have dispatched := (inv.pipeline.status.each head).missedDispatched conditions.1.2
    exact enter_invBits inv heads quiet rename bits
      (unmarked_outside loop atHead normal conditions.2 dispatched) (notTrapped atHead) atHead
      enters entered
  | invalidate => exact framed (.modifyInst core _ _ fun _ => rfl)
  | pseudoRetire atHead mode which =>
    exact pseudoRetire_invBits inv heads rename bits atHead mode (above atHead) which
  | @dropSquashed head rest atHead _ _ squashed =>
    exact retireHead_invBits inv bits atHead (above atHead) (fun _ => rfl) (fun _ => id)
      (fun _ _ invalid => .inl invalid) fun entry member here =>
        absurd (.inl (here ▸ squashed)) (rename.spared inv.noSignal member)
  | hold => exact framed { Core.BitsFrame.refl core with }
  | @release head => exact framed { Core.BitsFrame.modifyInst core head DynInst.clearCanCommit
      (fun _ => rfl) with }
  | trap => exact framed (.startTrap core env.handlerPc)
  | @commit head rest atHead readyHead executed =>
    have dispatched := (inv.pipeline.status.each head).executedDispatched executed
    have outside := unmarked_outside loop atHead readyHead.normalMode readyHead.unmarked dispatched
    obtain ⟨status, after, _, same⟩ := Core.afterCommit_cases env
      (Core.commitInst { core with pc := (core.insts head).pc } head) head
    rw [same]
    refine ⟨bits.own, fun reg held invalid => ?_, fun mode => ?_⟩
    · have valid := bits.outside_valid inv quiet rename outside (notTrapped atHead) held
      exact clash valid invalid
    · exact clash readyHead.normalMode mode

/-! ## The whole cycle -/

theorem advance_invBits (bits : (state.committing core).InvBitsAt []) :
    { state with core := core.markCompletedInsts state.iewToCommit }.advance.InvBitsAt
      state.renameQueue0 := by
  have marks : ∀ inst, ((core.markCompletedInsts state.iewToCommit).insts inst).runaheadInst =
      (core.insts inst).runaheadInst := by
    intro inst
    simp only [Core.markCompletedInsts, modifyAll_apply]
    split <;> rfl
  have departed : ∀ {inst},
      { state with core := core.markCompletedInsts state.iewToCommit }.advance.Departed
        state.renameQueue0 inst ↔ (state.committing core).Departed [] inst := by
    intro inst
    simp [Departed, advance, State.committing, Core.markCompletedInsts]
  refine ⟨bits.own, fun reg held invalid => ?_, fun mode entry member left => ?_⟩
  · obtain ⟨entry, member, same, why⟩ := bits.sound reg held invalid
    exact ⟨entry, member, same, why.imp (And.imp_right fun marked => (marks _).trans marked)
      (And.imp_left departed.mpr)⟩
  · exact bits.complete mode entry member (left.imp_right departed.mp)

/-- The registers of the squashed instructions in the ROB are free. -/
def squashedRegsFree (state : State) : Bool :=
  state.core.rob.instList.all fun inst =>
    !((state.insts inst).squashed || state.core.commitStatus = .robSquashing &&
        decide (state.core.rob.squashedSeqNum < inst)) ||
      (state.insts inst).renamedDests.all fun dest => state.rename.freeList.contains dest.2

/-- No atomic operation in the ROB waits for data that the L2 cache does not have. -/
def missesLoadOrStore (state : State) : Bool :=
  state.core.rob.instList.all fun inst =>
    !(state.insts inst).missedInL2 || (state.insts inst).staticInst.isLoad ||
      (state.insts inst).staticInst.isStore

structure TickOk (state : State) : Prop where
  released : state.calm = true ∨ ∀ inst ∈ state.core.rob.instList, state.Doomed inst →
    ∀ dest ∈ (state.insts inst).renamedDests, dest.2 ∈ state.rename.freeList
  misses : ∀ inst ∈ state.core.rob.instList, (state.insts inst).missedInL2 = true →
    (state.insts inst).staticInst.isLoad = true ∨ (state.insts inst).staticInst.isStore = true

theorem TickOk.of_conditions (free : (state.calm || state.squashedRegsFree) = true)
    (misses : state.missesLoadOrStore = true) : state.TickOk := by
  simp only [squashedRegsFree, all_eq_true, Bool.or_eq_true, Bool.not_eq_true',
    Bool.or_eq_false_iff, Bool.and_eq_false_iff, decide_eq_false_iff_not,
    contains_iff_mem] at free
  simp only [missesLoadOrStore, all_eq_true, Bool.or_eq_true, Bool.not_eq_true'] at misses
  refine ⟨free.imp_right ?_, fun inst member missed => ?_⟩
  · intro free inst member doomed
    refine (free inst member).resolve_left fun alive => ?_
    rcases doomed with squashed | ⟨_, squashing, younger⟩
    · exact clash alive.1 squashed
    · exact alive.2.elim (fun other => other squashing) fun older => older younger
  · rcases misses inst member with (unmissed | accesses) | accesses
    · exact clash unmissed missed
    · exact .inl accesses
    · exact .inr accesses

theorem finishIEW_tickOk (ok : state.TickOk) : state.finishIEW.TickOk := by
  obtain ⟨insts, storeQueue, same, rfl | ⟨_, rfl⟩⟩ := finishIEW_cases state <;> rw [same]
  · exact ⟨ok.released, ok.misses⟩
  · have same : ∀ inst, SameHead (state.insts inst)
        (state.insts.modify state.fromCommit.nonSpecSeqNum DynInst.setReleased inst) :=
      .modify fun _ => ⟨rfl, rfl, rfl, rfl⟩
    refine ⟨ok.released.imp (fun calm => ?_) fun released inst member doomed dest given => ?_,
      fun inst member missed => ?_⟩
    · refine (calm_iff _).mpr (((calm_iff _).mp calm).imp_right fun quiet inst member => ?_)
      refine (quiet inst member).imp (Eq.trans ?_) (same inst).missedInL2.trans
      exact modify_keeps (·.runaheadInst) rfl inst
    · have given : dest ∈ (state.insts inst).renamedDests := by
        rwa [← (same inst).renamedDests]
      exact released inst member (doomed.imp_left (same inst).squashed.symm.trans) dest given
    · have accesses := ok.misses inst member ((same inst).missedInL2.symm.trans missed)
      rwa [← (same inst).staticInst] at accesses

theorem continueSquash_heads (ok : state.TickOk) (config : Config) :
    state.HeadsOk (state.core.continueSquash config) := by
  have start : state.HeadsOk state.core := by
    refine ⟨fun calm => ?_, ok.released.imp_right fun released inst member squashed =>
      released inst member (.inl squashed), ok.misses⟩
    obtain ⟨normal, quiet⟩ := (calm_iff _).mp calm
    exact ⟨normal, fun inst member => ⟨(quiet inst member).2, fun _ => (quiet inst member).1⟩⟩
  unfold Core.continueSquash
  split
  · next squashing =>
    split
    · exact { start with }
    · have changed := Rob.doSquash_apply config.squashWidth state.core.insts state.core.rob
      have sameList := Rob.doSquash_instList config.squashWidth state.core.insts state.core.rob
      generalize state.core.rob.doSquash config.squashWidth state.core.insts = squashed at *
      refine ⟨fun calm => ⟨(start.calm calm).1, fun inst member => ?_⟩,
        ok.released.imp_right fun released inst member now dest given => ?_,
        fun inst member missed => ?_⟩
      · have := ((calm_iff _).mp calm).2 inst (sameList ▸ member)
        change (squashed.1 inst).missedInL2 = false ∧ (_ → (squashed.1 inst).runaheadInst = false)
        rcases changed inst with same | ⟨_, _, same⟩ <;> rw [same] <;>
          exact ⟨this.2, fun _ => this.1⟩
      · have member : inst ∈ state.core.rob.instList := sameList ▸ member
        have now : (squashed.1 inst).squashed = true := now
        have given : dest ∈ (squashed.1 inst).renamedDests := given
        rcases changed inst with same | ⟨_, younger, same⟩ <;> rw [same] at now given
        · exact released inst member (.inl now) dest given
        · exact released inst member (.inr ⟨member, squashing, younger⟩) dest given
      · have member : inst ∈ state.core.rob.instList := sameList ▸ member
        have missed : (squashed.1 inst).missedInL2 = true := missed
        change (squashed.1 inst).staticInst.isLoad = true ∨
          (squashed.1 inst).staticInst.isStore = true
        rcases changed inst with same | ⟨_, _, same⟩ <;> rw [same] at missed ⊢
        · exact ok.misses inst member missed
        · exact ok.misses inst member missed
  · exact start

theorem commitTick_invBits (run : state.RenamedInv config)
    (bits : state.InvBitsAt state.renameQueue1) (phase : state.phase = .iew)
    (waits : state.interruptsWait (.commitTick env) = true)
    (ok : state.TickOk)
    (stepped : state.commitTick config env = some next) : next.InvBitsAt next.renameQueue1 := by
  obtain ⟨idle, seen, done, sameInterrupts, rfl, finish⟩ := commitTick_cases stepped
  have waits := interruptsWait_finished waits sameInterrupts
  have ok := finishIEW_tickOk ok
  have bits : state.finishIEW.InvBitsAt state.finishIEW.renameQueue1 := by
    have frame := (finishIEW_silent state).frame
    have renamed := finishIEW_renameFrame state
    rw [frame.renameQueue1]
    refine bits.entriesLeave frame (fun entry member => (run.rename.followed entry member).1)
      (.same bits.own frame renamed.rename ?_) renamed.renameQueue0 ?_
    · rw [renamed.phase]
      exact id
    · obtain ⟨_, _, same, _⟩ := finishIEW_cases state
      rw [same]
      rfl
  obtain ⟨phase, idle⟩ := finishIEW_ready phase idle
  have quiet := finishIEW_quiet run.quiet
  have rename := (finishIEW_renameFrame state).renameInv (finishIEW_silent state).frame run.quiet
    run.rename
  generalize state.finishIEW = state at *
  have start := quiet.checked phase idle seen
  have enter := quiet.enter phase idle seen
  have checked := checkForInterrupts_rename config seen
    (continueSquash_rename ⟨quiet, rename, fun between =>
      absurd (phase.symm.trans between) (by decide)⟩ phase)
  have found := squashing_found quiet phase start.quiet start.pipeline done
  have unseen : ∀ inst, ¬ state.SquashUnseen 2 inst := by
    intro inst unseen
    have := unseen.1
    simp [phase, Phase.rank] at this
  have frame := (Core.BitsFrame.continueSquash config state.core).trans
    (.checkForInterrupts config seen _)
  have heads : state.HeadsOk ((state.core.continueSquash config).checkForInterrupts
    config seen) := by
    obtain ⟨_, _, same⟩ := Core.checkForInterrupts_eq config seen (state.core.continueSquash config)
    rw [same]
    exact { continueSquash_heads ok config with }
  generalize (state.core.continueSquash config).checkForInterrupts config seen = core at *
  refine advance_invBits ?_
  rcases finish with ⟨same, squashing⟩ | ⟨running, own, refused, filled, got, committed⟩
  · have handled := handleSquashes_rename config checked start.quiet start.pipeline start.silent
      start.exitAlone start.trapFree
    have after := bits.committing unseen (frame.trans
      (.handleSquashes config core state.iewToCommit))
    rw [← same] at handled after
    exact after.passSquashed handled rfl (found same squashing)
  · obtain ⟨notExit, entered⟩ := enter running own refused
    have ended := commitInsts_invariant
      (fun taken offered core => state.ModeLoop core ∧
        (state.committing core).QuietInvAt taken offered ∧
        (state.committing core).RenameInvAt config offered ∧ state.HeadsOk core ∧
        (state.committing core).InvBitsAt offered)
      entered ⟨start.loop, start.quiet.refused notExit, checked.refused notExit, heads,
        bits.committing unseen frame⟩
      (fun _ _ _ _ _ inv held accepted =>
        ⟨getInst_mode inv held.1 accepted, getInst_quiet inv held.2.1 accepted,
          getInst_rename inv held.2.1 held.2.2.1 accepted, getInst_heads inv held.2.2.2.1 accepted,
          getInst_invBits inv held.1 held.2.2.1 held.2.2.2.2 accepted⟩)
      (fun core _ inv held only => ⟨held.1.invalidates only, held.2.1.invalidates only,
        held.2.2.1.withTable fun inst => .marks (only.marks inst).1,
        held.2.2.2.1.of_marks (fun _ => id) (fun inst => .marks (only.marks inst).1)
          fun _ => ⟨rfl, fun inst => (only.marks inst).2⟩,
        held.2.2.2.2.committing (fun _ unseen => clash inv.noSignal unseen.2.1)
          { Core.BitsFrame.refl core with marks := fun inst => (only.marks inst).2 }⟩)
      (fun core inv held => ⟨handleInterrupt_mode held.1 waits, handleInterrupt_quiet inv held.2.1,
        handleInterrupt_rename inv held.2.2.1, handleInterrupt_heads held.2.2.2.1,
        held.2.2.2.2.committing (fun _ unseen => clash inv.noSignal unseen.2.1)
          (.handleInterrupt seen core)⟩)
      (fun _ _ inv held chosen step => ⟨headStep_mode inv held.1 chosen step,
        headStep_quiet inv held.1 held.2.1 chosen step,
        headStep_rename inv held.1 held.2.1 held.2.2.1 chosen step,
        headStep_heads held.2.2.2.1 step,
        headStep_invBits inv held.1 held.2.2.2.1 held.2.1 held.2.2.1 held.2.2.2.2 chosen step⟩)
      quiet.pipeline.width1 got committed
    exact ended.2.2.2.2.2

/-! ## Whole runs -/

/-- Windows are quiet, rename gives out a new register for every destination, and
when commit may retire instructions in the runahead branch, nobody has got the
registers of a squashed instruction that is still in the ROB. -/
def exactBits (state : State) (event : Event) : Bool :=
  state.quietWindow event &&
    match event with
    | .renameInst => state.frontEnd.head?.all fun inst => (state.insts inst).staticInst.renamesAll
    | .commitTick _ => (state.calm || state.squashedRegsFree) && state.missesLoadOrStore
    | _ => true

theorem exactBits_quiet {event : Event} (allowed : state.exactBits event = true) :
    state.quietWindow event = true :=
  (Bool.and_eq_true_iff.mp allowed).1

structure InvBitsRun (config : Config) (state : State) : Prop where
  run : state.RenamedInv config
  bits : state.InvBitsAt state.renameQueue1

theorem initial_invBits (config : Config) (pc : Addr) : (initial config pc).InvBitsRun config where
  run := initial_renamed config pc
  bits :=
    { own := ⟨by simp [initial], by simp [initial]⟩
      sound := fun _ _ invalid => absurd invalid (by simp [initial])
      complete := fun mode => absurd mode (by simp [initial]) }

theorem step_invBits {event : Event} (inv : state.InvBitsRun config)
    (allowed : state.exactBits event = true) (stepped : state.step config event = some next) :
    next.InvBitsRun config := by
  refine ⟨step_renamed inv.run (exactBits_quiet allowed) stepped, ?_⟩
  obtain ⟨quietly, condition⟩ := Bool.and_eq_true_iff.mp allowed
  have bounded : ∀ entry ∈ state.rename.historyBuffer, entry.instSeqNum < state.nextSeqNum :=
    fun entry member => (inv.run.rename.followed entry member).1
  have own := inv.bits.own
  rcases step_frame inv.run.quiet.pipeline stepped with ⟨env, rfl⟩ | commit
  · obtain ⟨phase, stepped⟩ := Option.ite_none_right_eq_some.mp stepped
    obtain ⟨free, misses⟩ := Bool.and_eq_true_iff.mp condition
    exact commitTick_invBits inv.run inv.bits phase (quietWindow_waits quietly)
      (.of_conditions free misses) stepped
  · rw [commit.renameQueue1]
    rcases step_keepsBits stepped with ⟨env, rfl⟩ | rfl | rfl | rfl | keeps
    · obtain ⟨phase, stepped⟩ := Option.ite_none_right_eq_some.mp stepped
      obtain ⟨free, misses⟩ := Bool.and_eq_true_iff.mp condition
      exact commit.renameQueue1 ▸ commitTick_invBits inv.run inv.bits phase
        (quietWindow_waits quietly) (.of_conditions free misses) stepped
    · obtain ⟨_, rfl⟩ := fired stepped
      exact inv.bits.entriesLeave commit bounded (startRename_leaves own inv.run.rename) rfl rfl
    · obtain ⟨_, stepped⟩ := Option.ite_none_right_eq_some.mp stepped
      refine renameInst_invBits inv.run inv.bits (fun inst rest front => ?_) stepped
      simpa [front] using condition
    · obtain ⟨phase, rfl⟩ := fired stepped
      exact inv.bits.entriesLeave commit bounded (startIEW_leaves own inv.run.rename phase)
        (startIEW_keeps state).1 (startIEW_keeps state).2
    · exact inv.bits.entriesLeave commit bounded (.same own commit keeps.rename keeps.rank)
        keeps.renameQueue0 keeps.inv

theorem reachable_invBits {pc : Addr}
    (reached : Reaches (step config) exactBits (initial config pc) state) :
    state.InvBitsRun config :=
  reached.invariant (initial_invBits config pc) step_invBits

/-- The instruction is at least as young as the trigger and has left the ROB. For
an instruction with an entry in the rename history, which has not committed,
this means that it has been pseudo-retired. -/
def PseudoRetired (state : State) (inst : Nat) : Prop :=
  state.core.raTriggerInst ≤ inst ∧ state.Departed state.renameQueue1 inst

theorem mem_physRegs_class (member : reg ∈ config.physRegs) :
    reg.isFixedMapping = false := by
  simp only [Config.physRegs, Config.initialFreeList, Config.archRegs, Config.initialMap,
    renameableClasses, mem_append, mem_map, mem_flatMap] at member
  rcases member with ⟨regClass, known, index, _, rfl⟩ | ⟨_, ⟨regClass, known, index, _, rfl⟩, rfl⟩
  · revert known
    cases regClass <;> simp [PhysRegId.isFixedMapping]
  · revert known
    cases regClass <;> simp [PhysRegId.isFixedMapping]

/-- Two of the four integer registers are free. -/
def tightConfig : Config :=
  { smallConfig with numPhysRegs := fun regClass => if regClass = .int then 4 else 0 }

def branch : StaticInst := { isControl := true }
def miscWriter : StaticInst := { destRegs := [{ reg := ⟨.misc, 0⟩ }] }
def miscReader : StaticInst := { srcRegs := [⟨.misc, 0⟩] }
def atomic : StaticInst := { isAtomic := true, destRegs := [{ reg := ⟨.int, 0⟩ }] }

/-- A branch behind the load and a slow instruction is mispredicted in runahead
mode. The instruction on the wrong path is squashed, its register goes to the
first instruction on the right path, and then the slow instruction, the branch
and the squashed instruction leave the ROB. -/
def wrongPath : List Event :=
  cycle [.fetchInst load 100 104, .fetchInst {} 104 108] [.renameInst, .renameInst] [] {} ++
    cycle [.fetchInst branch 108 112, .fetchInst follower 112 116] [.renameInst, .renameInst] []
      {} ++
    cycle [] [] [.dispatchInst, .dispatchInst, .issueInst 1] {} ++
    cycle [] [] [.dispatchInst, .dispatchInst, .executeInst 1 (.access [7] none), .issueInst 2]
      {} ++
    [.l2Miss 1] ++ cycle [] [] [.issueInst 3] {} ++
    cycle [] [] [.executeInst 3 (.finish false true none), .instToCommit 3] {} ++ idleCycles 2 ++
    cycle [.fetchInst follower 200 204] [.renameInst] [] {} ++ idleCycles 1 ++
    cycle [] [] [.executeInst 2 (.finish false false none), .instToCommit 2] {} ++ idleCycles 3

/-- An instruction that writes a misc register is pseudo-retired, and another
one reads the register. -/
def miscInWindow : List Event :=
  cycle [.fetchInst load 100 104, .fetchInst miscWriter 104 108] [.renameInst, .renameInst] [] {} ++
    idleCycles 1 ++ cycle [] [] [.dispatchInst, .dispatchInst, .issueInst 1] {} ++
    cycle [] [] [.executeInst 1 (.access [7] none), .issueInst 2] {} ++ [.l2Miss 1] ++
    cycle [] [] [.executeInst 2 (.finish false false none), .instToCommit 2] {} ++ idleCycles 2 ++
    cycle [.fetchInst miscReader 108 112] [.renameInst] [] {}

/-- Commit releases an atomic operation, which then misses in the L2 cache. -/
def atomicMiss : List Event :=
  cycle [.fetchInst atomic 100 104] [.renameInst] [] {} ++ idleCycles 1 ++
    cycle [] [] [.dispatchInst] {} ++ idleCycles 1 ++ cycle [] [] [.issueInst 1] {} ++
    cycle [] [] [.executeInst 1 (.access [7] none)] {} ++ [.l2Miss 1] ++ idleCycles 1

end State

end Runahead.O3
