import Mathlib.Data.Bool.Basic
import Mathlib.Data.List.Nodup
import Mathlib.Data.List.TakeWhile
import Runahead.O3.InstQueueEntries
import Runahead.O3.InstQueueFrame

/-!
# Conservation of instruction queue entries

The operations that walk over many instructions: dispatch, the wake-up of the
dependents of a completed instruction, and squashes. Each of their steps changes
the view of one instruction; the loops are folds of such steps.
-/

set_option autoImplicit false

namespace Runahead.O3

open Library Function List
open Option (ite_none_right_eq_some ite_none_left_eq_some bind_eq_some_iff map_eq_some_iff)

namespace EntryView.Ok

variable {view : EntryView} {dying : Prop}

theorem inserted_of_waiting (ok : view.Ok dying)
    (known : view.entry ≠ none ∨ view.nodes ≠ 0 ∨ view.memPairs ≠ 0) : view.inserted = 1 := by
  have bound := ok.once.2
  by_contra absent
  obtain ⟨_, _, entry, nodes, pairs⟩ := ok.absent (by omega)
  exact known.elim (fun some => some entry) fun more => more.elim (· nodes) (· pairs)

theorem addReady (ok : view.Ok dying) (present : view.inserted = 1)
    (idle : view.dyn.squashedInIQ = false →
      view.waiting = false ∧ view.places = 0 ∧ view.dyn.executed = false)
    (sources : view.dyn.squashedInIQ = false → view.dyn.readyRegs = view.dyn.numSrcRegs) :
    { view with lists := more view.lists .readyInsts }.Ok dying :=
  { ok with
    absent := by simp [present]
    seat := fun _ alive => by
      obtain ⟨ready, unplaced, unexecuted⟩ := idle alive
      have waits : { view with lists := more view.lists .readyInsts }.waiting = view.waiting := by
        simp [waiting, more]
      have place : { view with lists := more view.lists .readyInsts }.places = view.places + 1 := by
        simp [places, more]
        omega
      rw [waits, place, ready, unplaced, unexecuted]
      decide
    sourced := fun _ _ alive _ => sources alive
    nonSpecOnce := by simpa [more] using ok.nonSpecOnce }

/-- An instruction keeps its seat if it does not wait for more in the memory dependence unit. -/
theorem seat_of_entry (ok : view.Ok dying) {entry : Option MemDepEntry}
    (fewer : (entry.any fun entry => !entry.regsReady || entry.memDeps != 0) = true →
      (view.entry.any fun entry => !entry.regsReady || entry.memDeps != 0) = true)
    (present : view.inserted = 1) (alive : view.dyn.squashedInIQ = false) :
    { view with entry := entry }.waiting.toNat + view.places + view.dyn.executed.toNat ≤ 1 := by
  have seat := ok.seat present alive
  have waits : { view with entry := entry }.waiting.toNat ≤ view.waiting.toNat := by
    simp only [waiting]
    split
    · exact Nat.le_refl _
    · split
      · exact Bool.toNat_le_toNat fewer
      · exact Nat.le_refl _
  omega

variable {entry : MemDepEntry}

section

variable (ok : view.Ok dying)
include ok

theorem setRegsReady (found : view.entry = some entry)
    (ready : view.dyn.squashedInIQ = false → view.dyn.staticInst.needsRelease = false →
      view.dyn.readyRegs = view.dyn.numSrcRegs) :
    { view with entry := some { entry with regsReady := true } }.Ok dying := by
  have present := ok.inserted_of_waiting (.inl (by simp [found]))
  exact { ok with
    absent := by simp [present]
    seat := ok.seat_of_entry (by simp +contextual [found])
    hashed := fun _ _ => ok.hashed entry found
    memDeps := by
      rintro _ ⟨rfl⟩
      exact ⟨(ok.memDeps entry found).1, fun _ => ready⟩ }

theorem markReady (node : view.nodes ≠ 0) :
    { view with nodes := view.nodes - 1, dyn := view.dyn.markSrcRegReady }.Ok dying := by
  have present := ok.inserted_of_waiting (.inr (.inl node))
  have speculative := ok.dependent (.inl node)
  have missing : view.dyn.squashedInIQ = false → view.dyn.readyRegs + view.nodes ≤
      view.dyn.numSrcRegs := ok.operands present speculative
  exact { ok with
    absent := by simp [present]
    seat := fun _ alive => by
      have seat := ok.seat present alive
      have fewer :
          { view with nodes := view.nodes - 1, dyn := view.dyn.markSrcRegReady }.waiting.toNat
          ≤ view.waiting.toNat := by
        cases memory : view.dyn.isMemRef with
        | true =>
          rw [waiting_of_memory view speculative memory,
            waiting_of_memory { view with dyn := view.dyn.markSrcRegReady, nodes := _ }
              speculative memory]
        | false =>
          rw [waiting_of_plain view speculative memory,
            waiting_of_plain { view with dyn := view.dyn.markSrcRegReady, nodes := _ }
              speculative memory]
          exact Bool.toNat_le_toNat fun waits =>
            decide_eq_true (Nat.lt_of_succ_lt (of_decide_eq_true waits))
      change _ + view.places + view.dyn.executed.toNat ≤ 1
      omega
    operands := fun _ _ alive => by
      have := missing alive
      change view.dyn.readyRegs + 1 + (view.nodes - 1) ≤ view.dyn.numSrcRegs
      omega
    issuable := fun _ _ alive can => by
      have := missing alive
      rcases Bool.or_eq_true_iff.mp can with before | now
      · have := ok.issuable present speculative alive before
        omega
      · exact eq_of_beq now
    sourced := fun _ _ alive ahead => by
      have := missing alive
      have := ok.sourced present speculative alive ahead
      omega
    dependent := fun _ => speculative
    memDeps := fun entry found => ⟨(ok.memDeps entry found).1, fun ready alive _ => by
      have := missing alive
      have := (ok.memDeps entry found).2 ready alive speculative
      omega⟩ }

/-- As long as a source is missing, the instruction has no place in the queue. -/
theorem idle_of_node (node : view.nodes ≠ 0)
    (alive : view.dyn.squashedInIQ = false) : view.places = 0 ∧ view.dyn.executed = false := by
  have present := ok.inserted_of_waiting (.inr (.inl node))
  have speculative := ok.dependent (.inl node)
  have missing := ok.operands present speculative alive
  have behind : ¬ (view.places ≠ 0 ∨ view.dyn.issued = true ∨ view.dyn.executed = true) := by
    intro ahead
    have := ok.sourced present speculative alive ahead
    omega
  exact ⟨Decidable.not_not.mp fun placed => behind (.inl placed),
    Bool.of_not_eq_true fun executed => behind (.inr (.inr executed))⟩

theorem dropPair (found : view.entry = some entry) :
    { view with
      memPairs := view.memPairs - 1
      entry := some { entry with memDeps := entry.memDeps - 1 } }.Ok dying := by
  have present := ok.inserted_of_waiting (.inl (by simp [found]))
  have balance := ok.memDeps entry found
  exact { ok with
    absent := by simp [present]
    seat := by
      refine ok.seat_of_entry fun waits => ?_
      simp only [found, Option.any_some, Bool.or_eq_true, bne_iff_ne] at waits ⊢
      exact waits.imp_right (by omega)
    hashed := fun _ _ => ok.hashed entry found
    dependent := fun pending => ok.dependent (pending.imp_right fun left none => left (by
      change view.memPairs - 1 = 0
      omega))
    memDependent := fun left => ok.memDependent fun none => left (by
      change view.memPairs - 1 = 0
      omega)
    memDeps := by
      rintro _ ⟨rfl⟩
      exact ⟨by change entry.memDeps - 1 = view.memPairs - 1; omega, balance.2⟩ }

theorem forgetPair (gone : view.entry = none) :
    { view with memPairs := view.memPairs - 1 }.Ok dying :=
  { ok with
    absent := fun none => by
      obtain ⟨unplaced, unlisted, unknown, nodes, pairs⟩ := ok.absent none
      exact ⟨unplaced, unlisted, unknown, nodes, by change view.memPairs - 1 = 0; omega⟩
    dependent := fun pending => ok.dependent (pending.imp_right fun left none => left (by
      change view.memPairs - 1 = 0
      omega))
    memDependent := fun left => ok.memDependent fun none => left (by
      change view.memPairs - 1 = 0
      omega)
    memDeps := fun entry found => absurd (gone.symm.trans found) (by simp) }

theorem forget : { view with entry := none }.Ok dying :=
  { ok with
    absent := fun absent => by
      obtain ⟨unplaced, unlisted, _, dependents⟩ := ok.absent absent
      exact ⟨unplaced, unlisted, rfl, dependents⟩
    seat := ok.seat_of_entry (by simp)
    hashed := by simp
    memDeps := by simp }

theorem complete (found : view.entry = some entry)
    (alive : ¬ dying) (memory : view.dyn.isMemRef = true) (executed : view.dyn.executed = true) :
    { view with
      entry := none
      dyn := view.dyn.setMemOpDone
      released := view.released + 1 }.Ok dying := by
  have present := ok.inserted_of_waiting (.inl (by simp [found]))
  obtain ⟨undone, unsquashed⟩ := ok.hashed entry found
  have held : view.released = 0 := by
    have := ok.once
    by_contra released
    rcases (ok.memory present memory).mp (by omega) with done | squashed
    · exact clash undone done
    · exact clash (unsquashed.resolve_right alive) squashed
  exact { ok.forget with
    once := by simp [held, present]
    plain := fun _ plain => clash memory plain
    memory := fun _ _ => by simp [held, IqInst.setMemOpDone]
    done := fun _ _ => executed
    hashed := by simp }

/-- As long as a store or barrier is missing, the instruction has no place in the queue. -/
theorem idle_of_memDeps (found : view.entry = some entry) (pending : entry.memDeps ≠ 0)
    (alive : view.dyn.squashedInIQ = false) : view.places = 0 ∧ view.dyn.executed = false := by
  have present := ok.inserted_of_waiting (.inl (by simp [found]))
  have pairs : view.memPairs ≠ 0 := (ok.memDeps entry found).1 ▸ pending
  have seat := ok.seat present alive
  have waits : view.waiting = true := by
    rw [waiting_of_memory view (ok.dependent (.inr pairs)) (ok.memDependent pairs)]
    simp [found, pending]
  rw [waits, Bool.toNat_true] at seat
  refine ⟨by omega, ?_⟩
  by_contra executed
  rw [Bool.of_not_eq_false executed, Bool.toNat_true] at seat
  omega

theorem spare (gone : dying → view.entry = none) : view.Ok False :=
  { ok with
    hashed := fun entry found => ⟨(ok.hashed entry found).1, .inl
      ((ok.hashed entry found).2.resolve_right fun doomed =>
        absurd ((gone doomed).symm.trans found) (by simp))⟩ }

end

theorem threaten (ok : view.Ok False) : view.Ok dying :=
  { ok with hashed := fun entry found => ⟨(ok.hashed entry found).1,
      (ok.hashed entry found).2.imp_right False.elim⟩ }

/-- A squash takes back the entry that the instruction still holds. -/
theorem squash (ok : view.Ok dying) (doomed : dying) (present : view.inserted = 1)
    (unmarked : view.dyn.squashedInIQ = false)
    (pending : view.dyn.issued = false ∨ view.dyn.isMemRef = true ∧ view.dyn.memOpDone = false)
    (lists : IqList → Nat) (nodes : Nat) (fewer : nodes ≤ view.nodes)
    (nonSpec : lists .nonSpecInsts ≤ view.lists .nonSpecInsts) :
    { view with
      lists := lists
      nodes := nodes
      dyn := view.dyn.setSquashedInIQ.setIssued
      released := view.released + 1 }.Ok dying := by
  have held : view.released = 0 := by
    have := ok.once
    by_contra released
    have released : view.released = 1 := by omega
    cases memory : view.dyn.isMemRef with
    | false =>
      rcases pending with unissued | ⟨isMemory, _⟩
      · exact clash unissued ((ok.plain present memory).mp released)
      · exact clash memory isMemory
    | true =>
      have done := ((ok.memory present memory).mp released).resolve_right
        fun marked => clash unmarked marked
      rcases pending with unissued | ⟨_, undone⟩
      · exact clash unissued (ok.executed present memory (ok.done present done))
      · exact clash undone done
  exact { ok with
    once := by simp [held, present]
    absent := by simp [present]
    plain := fun _ _ => by simp [held, IqInst.setIssued]
    memory := fun _ _ => by simp [held, IqInst.setIssued, IqInst.setSquashedInIQ]
    squashed := fun _ _ => ⟨rfl, rfl⟩
    executed := fun _ _ _ => rfl
    underway := fun _ => rfl
    started := fun _ _ alive => clash rfl alive
    seat := fun _ alive => clash rfl alive
    hashed := fun entry found => ⟨(ok.hashed entry found).1, .inr doomed⟩
    nonSpecOnce := ⟨Nat.le_trans nonSpec ok.nonSpecOnce.1, fun listed =>
      ok.nonSpecOnce.2 fun none => listed (Nat.le_zero.mp (none ▸ nonSpec))⟩
    operands := fun _ _ alive => clash rfl alive
    issuable := fun _ _ alive => clash rfl alive
    sourced := fun _ _ alive => clash rfl alive
    dependent := fun left => ok.dependent (left.imp_left fun some none =>
      some (Nat.le_zero.mp (none ▸ fewer)))
    memDeps := fun entry found => ⟨(ok.memDeps entry found).1, fun _ alive => clash rfl alive⟩ }

end EntryView.Ok

/-- The view of an instruction during its dispatch; `rest` sources are still to be looked at. -/
structure EntryView.Fresh (static : StaticInst) (rest : Nat) (view : EntryView) : Prop where
  inserted : view.inserted = 1
  released : view.released = 0
  unplaced : view.places = 0
  unlisted : view.lists .nonSpecInsts = 0
  entry : view.entry = none
  memPairs : view.memPairs = 0
  sameStatic : view.dyn.staticInst = static
  idle : view.dyn.issued = false ∧ view.dyn.executed = false ∧ view.dyn.squashedInIQ = false ∧
    view.dyn.memOpDone = false
  operands : view.dyn.readyRegs + view.nodes + rest ≤ view.dyn.numSrcRegs
  issuable : view.dyn.canIssue = true → view.dyn.readyRegs = view.dyn.numSrcRegs
  dependent : view.nodes ≠ 0 → static.needsRelease = false

namespace EntryView.Fresh

variable {view : EntryView} {static : StaticInst} {rest : Nat}

/-- A fresh instruction gets its entry in the memory dependence unit and, if it
needs a release from commit, its place in `nonSpecInsts`. -/
theorem hash (fresh : view.Fresh static rest) (dying : Prop) (entry : Option MemDepEntry)
    (memPairs : Nat) (canIssue : Bool) (lists : IqList → Nat)
    (balance : ∀ found, entry = some found → found.memDeps = memPairs ∧
      (found.regsReady = true → view.dyn.canIssue = true))
    (memory : memPairs ≠ 0 → static.needsRelease = false ∧ view.dyn.isMemRef = true)
    (weaker : canIssue = true → view.dyn.canIssue = true)
    (places : { view with lists := lists }.places = view.places)
    (nonSpec : lists .nonSpecInsts ≤ 1 ∧ (lists .nonSpecInsts ≠ 0 → static.needsRelease = true)) :
    { view with
      entry := entry, memPairs := memPairs, lists := lists
      dyn := { view.dyn with canIssue := canIssue } }.Ok dying := by
  have same : view.dyn.staticInst.needsRelease = static.needsRelease := by rw [fresh.sameStatic]
  obtain ⟨unissued, unexecuted, unmarked, undone⟩ := fresh.idle
  have empty : { view with lists := lists }.places = 0 := places.trans fresh.unplaced
  have unplaced : lists .instsToExecute = 0 ∧ lists .accessing = 0 := by
    simp only [EntryView.places] at empty
    omega
  have inserted := fresh.inserted
  exact {
    once := by simp [fresh.inserted, fresh.released]
    absent := fun none => absurd none (by simp [inserted])
    plain := fun _ _ => by simp [fresh.released, unissued]
    memory := fun _ _ => by simp [fresh.released, unmarked, undone]
    squashed := fun _ marked => clash unmarked marked
    done := fun _ done => clash undone done
    executed := fun _ _ executed => clash unexecuted executed
    underway := by simp [unplaced]
    started := fun _ _ _ issued => clash unissued issued
    seat := fun _ _ => by
      change _ + { view with lists := lists }.places + view.dyn.executed.toNat ≤ 1
      rw [empty, unexecuted]
      exact Bool.toNat_le _
    hashed := fun _ _ => ⟨undone, .inl unmarked⟩
    nonSpecOnce := ⟨nonSpec.1, fun listed => same.trans (nonSpec.2 listed)⟩
    operands := fun _ _ _ => Nat.le_trans (Nat.le_add_right _ _) fresh.operands
    issuable := fun _ _ _ can => fresh.issuable (weaker can)
    sourced := fun _ _ _ ahead => by
      rcases ahead with placed | issued | executed
      · exact absurd empty placed
      · exact clash unissued issued
      · exact clash unexecuted executed
    dependent := fun pending => same.trans (pending.elim fresh.dependent fun pairs =>
      (memory pairs).1)
    memDependent := fun pairs => (memory pairs).2
    memDeps := fun found known => ⟨(balance found known).1, fun ready _ _ =>
      fresh.issuable ((balance found known).2 ready)⟩ }

theorem ok (fresh : view.Fresh static rest) (dying : Prop) : view.Ok dying := by
  have := fresh.hash dying none view.memPairs view.dyn.canIssue view.lists (by simp)
    (absurd fresh.memPairs) id rfl (by simp [fresh.unlisted])
  rwa [← fresh.entry] at this

end EntryView.Fresh

namespace InstructionQueue

variable {config : IqConfig} {dying : Nat → Prop} {state next : InstructionQueue} {inst : Nat}

theorem view_dropNode {node : PhysRegId × Nat} (member : node ∈ state.dependGraph) (other : Nat) :
    (state.dropNode node).view other =
      if other = node.2 then { state.view other with nodes := (state.view other).nodes - 1 }
      else state.view other := by
  unfold view dropNode
  simp only [countP_erase, member, true_and]
  by_cases same : node.2 = other
  · simp [same]
  · simp [same, Ne.symm same]

theorem view_dropPair {pair : Nat × Nat} (member : pair ∈ state.memDependents) (other : Nat) :
    (state.dropPair pair).view other =
      if other = pair.2 then { state.view other with memPairs := (state.view other).memPairs - 1 }
      else state.view other := by
  unfold view dropPair
  simp only [countP_erase, member, true_and]
  by_cases same : pair.2 = other
  · simp [same]
  · simp [same, Ne.symm same]

/-! ## Wake-up -/

theorem addReadyInst_entryInv (inv : state.EntryInv config dying)
    (present : (state.view inst).inserted = 1)
    (idle : (state.insts inst).squashedInIQ = false → (state.view inst).waiting = false ∧
      (state.view inst).places = 0 ∧ (state.insts inst).executed = false)
    (sources : (state.insts inst).squashedInIQ = false →
      (state.insts inst).readyRegs = (state.insts inst).numSrcRegs) :
    (state.addReadyInst inst).EntryInv config dying := by
  refine inv.update (view_push state .readyInsts inst) ?_ { inv.accounts with }
  exact (inv.ok inst).addReady present idle sources

def Idle (state : InstructionQueue) (inst : Nat) : Prop :=
  (state.insts inst).squashedInIQ = false →
    (state.view inst).places = 0 ∧ (state.insts inst).executed = false

section

variable (inv : state.EntryInv config dying)
include inv

theorem regsReady_entryInv (speculative : (state.insts inst).staticInst.needsRelease = false)
    (memory : (state.insts inst).isMemRef = true) (can : (state.insts inst).canIssue = true)
    (idle : state.Idle inst) (ready : state.regsReady inst = some next) :
    next.EntryInv config dying := by
  cases found : state.memDepHash inst with
  | none => simp [regsReady, found] at ready
  | some entry =>
    have ok := inv.ok inst
    have present := ok.inserted_of_waiting (.inl (by simp [view, found]))
    have marked : (state.setEntry inst { entry with regsReady := true }).EntryInv config dying := by
      refine inv.update (view_setEntry state inst _) ?_ { inv.accounts with }
      exact ok.setRegsReady found fun alive _ => ok.issuable present speculative alive can
    simp only [regsReady, found, Option.some.injEq] at ready
    rw [← ready]
    split
    · next none =>
      refine addReadyInst_entryInv marked present (fun alive => ⟨?_, idle alive⟩)
        fun alive => ok.issuable present speculative alive can
      rw [view_setEntry, if_pos rfl, EntryView.waiting_of_memory _ speculative memory]
      simp [none]
    · exact marked

theorem addIfReady_entryInv (present : (state.view inst).inserted = 1)
    (speculative : (state.insts inst).staticInst.needsRelease = false)
    (idle : state.Idle inst) (added : state.addIfReady inst = some next) :
    next.EntryInv config dying := by
  unfold addIfReady at added
  split at added
  · next can =>
    split at added
    · next memory => exact regsReady_entryInv inv speculative memory can idle added
    · next plain =>
      cases added
      have sources := (inv.ok inst).issuable present speculative
      refine addReadyInst_entryInv inv present (fun alive => ⟨?_, idle alive⟩)
        fun alive => sources alive can
      rw [EntryView.waiting_of_plain _ speculative (Bool.of_not_eq_true plain)]
      have all := sources alive can
      exact decide_eq_false (by omega)
  · cases added
    exact inv

theorem wakeDependent_entryInv {node : PhysRegId × Nat}
    (member : node ∈ state.dependGraph) (woken : state.wakeDependent node = some next) :
    next.EntryInv config dying := by
  have ok := inv.ok node.2
  have waits : (state.view node.2).nodes ≠ 0 :=
    Nat.ne_of_gt (countP_pos_iff.mpr ⟨node, member, by simp⟩)
  have own : ((state.dropNode node).modify node.2 IqInst.markSrcRegReady).view node.2 =
      { state.view node.2 with
        nodes := (state.view node.2).nodes - 1
        dyn := (state.view node.2).dyn.markSrcRegReady } := by
    simp [view_modify, view_dropNode member]
  have marked : ((state.dropNode node).modify node.2 IqInst.markSrcRegReady).EntryInv config
      dying := by
    refine inv.change node.2 (fun other different => ?_) (own ▸ ok.markReady waits)
      (inv.accounts.of_same rfl rfl rfl rfl (modify_threads fun _ => rfl))
    simp [view_modify, view_dropNode member, different]
  refine addIfReady_entryInv marked ?_ ?_ ?_ woken
  · rw [own]
    exact ok.inserted_of_waiting (.inr (.inl waits))
  · have static := congrArg (fun view => view.dyn.staticInst.needsRelease) own
    exact static.trans (ok.dependent (.inl waits))
  · intro alive
    have same : ((state.dropNode node).modify node.2 IqInst.markSrcRegReady).insts node.2 =
        (state.insts node.2).markSrcRegReady := congrArg EntryView.dyn own
    rw [same] at alive ⊢
    exact ok.idle_of_node waits alive

theorem wakeReg_entryInv {reg : PhysRegId}
    (woken : state.wakeReg reg = some next) : next.EntryInv config dying :=
  wakeReg_invariant (EntryInv config dying)
    (fun _ _ _ member inv first => wakeDependent_entryInv inv member first)
    (fun _ after => ⟨after.ok, { after.accounts with }⟩) inv woken

end

/-- The wake-up of memory dependents keeps the instructions and who has an entry in
the memory dependence unit. -/
structure SameHashed (state next : InstructionQueue) : Prop where
  insts : next.insts = state.insts
  hashed : ∀ inst, (next.memDepHash inst).isSome = (state.memDepHash inst).isSome

theorem wakeMemDependent_entryInv (inv : state.EntryInv config dying) {pair : Nat × Nat}
    (member : pair ∈ state.memDependents) (woken : state.wakeMemDependent pair = some next) :
    next.EntryInv config dying ∧ state.SameHashed next := by
  have ok := inv.ok pair.2
  have pairs : (state.view pair.2).memPairs ≠ 0 :=
    Nat.ne_of_gt (countP_pos_iff.mpr ⟨pair, member, by simp⟩)
  unfold wakeMemDependent at woken
  split at woken
  · next gone =>
    cases woken
    exact ⟨inv.update (view_dropPair member) (ok.forgetPair gone) { inv.accounts with }, rfl,
      fun _ => rfl⟩
  · next entry found =>
    obtain ⟨pending, woken⟩ := ite_none_left_eq_some.mp woken
    have own : ((state.dropPair pair).setEntry pair.2
        { entry with memDeps := entry.memDeps - 1 }).view pair.2 =
        { state.view pair.2 with
          memPairs := (state.view pair.2).memPairs - 1
          entry := some { entry with memDeps := entry.memDeps - 1 } } := by
      simp [view_setEntry, view_dropPair member]
    have dropped : ((state.dropPair pair).setEntry pair.2
        { entry with memDeps := entry.memDeps - 1 }).EntryInv config dying := by
      refine inv.change pair.2 (fun other different => ?_) (own ▸ ok.dropPair found)
        { inv.accounts with }
      simp [view_setEntry, view_dropPair member, different]
    have same : state.SameHashed ((state.dropPair pair).setEntry pair.2
        { entry with memDeps := entry.memDeps - 1 }) := by
      refine ⟨rfl, fun other => ?_⟩
      simp only [setEntry, dropPair, update_apply]
      split
      · next here => rw [here, found]; rfl
      · rfl
    rw [← Option.some.inj woken]
    split
    · next ready =>
      simp only [Bool.and_eq_true, decide_eq_true_eq] at ready
      refine ⟨addReadyInst_entryInv dropped ?_ (fun alive => ⟨?_, ?_⟩) fun alive => ?_,
        same.insts, same.hashed⟩
      · rw [own]
        exact ok.inserted_of_waiting (.inr (.inr pairs))
      · rw [own]
        refine Eq.trans (EntryView.waiting_of_memory _ ?_ ?_) ?_
        · exact ok.dependent (.inr pairs)
        · exact ok.memDependent pairs
        · simp [ready]
      · rw [own]
        exact ok.idle_of_memDeps found pending alive
      · exact (ok.memDeps entry found).2 ready.2 alive (ok.dependent (.inr pairs))
    · exact ⟨dropped, same⟩

theorem completeMemInst_spec (inv : state.EntryInv config dying)
    (completed : state.completeMemInst inst = some next) :
    ∃ middle : InstructionQueue, middle.EntryInv config dying ∧ state.SameHashed middle ∧
      (middle.memDepHash inst).isSome = true ∧ next = middle.removeEntry inst := by
  obtain ⟨hashed, completed⟩ := ite_none_right_eq_some.mp completed
  obtain ⟨middle, woken, removed⟩ := map_eq_some_iff.mp completed
  have after := wakeMemDependents_invariant
    (fun middle => middle.EntryInv config dying ∧ state.SameHashed middle)
    (fun _ _ _ member before first => by
      obtain ⟨nextInv, same⟩ := wakeMemDependent_entryInv before.1 member first
      exact ⟨nextInv, same.insts.trans before.2.insts, fun other =>
        (same.hashed other).trans (before.2.hashed other)⟩)
    ⟨inv, rfl, fun _ => rfl⟩ woken
  exact ⟨middle, after.1, after.2, (after.2.hashed inst).trans hashed, removed.symm⟩

theorem view_removeEntry (state : InstructionQueue) (inst other : Nat) :
    (state.removeEntry inst).view other =
      if other = inst then { state.view other with entry := none } else state.view other := by
  unfold view removeEntry
  split
  · next same => simp [same]
  · next different => simp [different]

theorem removeEntry_entryInv (inv : state.EntryInv config dying) (inst : Nat) :
    (state.removeEntry inst).EntryInv config dying :=
  inv.update (view_removeEntry state inst) (inv.ok inst).forget { inv.accounts with }

theorem complete_entryInv (inv : state.EntryInv config dying) (alive : ¬ dying inst)
    (memory : (state.insts inst).isMemRef = true) (executed : (state.insts inst).executed = true)
    (hashed : (state.memDepHash inst).isSome = true) :
    (((state.removeEntry inst).modify inst IqInst.setMemOpDone).release inst).EntryInv config
      dying := by
  obtain ⟨entry, found⟩ := Option.isSome_iff_exists.mp hashed
  have own := (inv.ok inst).complete found alive memory executed
  have removed := removeEntry_entryInv inv inst
  have accounts : ((state.removeEntry inst).modify inst IqInst.setMemOpDone).Accounts config :=
    removed.accounts.of_same rfl rfl rfl rfl (modify_threads fun _ => rfl)
  refine inv.change inst (fun other different => ?_) ?_ (accounts.release inv.once ?_)
  · simp [view_release, view_modify, view_removeEntry, different]
  · simpa [view_release, view_modify, view_removeEntry] using own
  · exact Nat.lt_of_succ_le own.once.1

theorem writeback_entryInv (inv : state.EntryInv config fun _ => False)
    (written : state.writeback inst = some next) : next.EntryInv config fun _ => False := by
  obtain ⟨member, written⟩ := ite_none_right_eq_some.mp written
  have popped := pop_entryInv inv member (by simp) (by simp)
  split at written
  · next valid =>
    simp only [Bool.and_eq_true, Bool.not_eq_true'] at valid
    obtain ⟨completed, first, written⟩ := bind_eq_some_iff.mp written
    refine foldlM_invariant (EntryInv config fun _ => False)
      (fun reg _ middle last held woken => wakeReg_entryInv held woken) ?_ written
    simp only [completeInst] at first
    split at first
    · next memory =>
      obtain ⟨removed, first, released⟩ := map_eq_some_iff.mp first
      obtain ⟨middle, middleInv, same, hashed, rfl⟩ := completeMemInst_spec popped first
      rw [← released]
      refine complete_entryInv middleInv id ?_ ?_ hashed
      · rw [same.insts]
        exact memory
      · rw [same.insts]
        exact valid.1.2
    · split at first
      · obtain ⟨middle, middleInv, _, _, rfl⟩ := completeMemInst_spec popped first
        exact removeEntry_entryInv middleInv inst
      · cases first
        exact popped
  · cases written
    exact popped

/-! ## Dispatch -/

structure Inserting (config : IqConfig) (dying : Nat → Prop) (inst : Nat) (static : StaticInst)
    (rest : Nat) (state : InstructionQueue) : Prop where
  others : ∀ other, other ≠ inst → (state.view other).Ok (dying other)
  own : (state.view inst).Fresh static rest
  accounts : state.Accounts config

section Dispatch

variable {static : StaticInst} {rest : Nat}

section

variable (inserting : state.Inserting config dying inst static rest)
include inserting

theorem Inserting.entryInv :
    state.EntryInv config dying := by
  refine ⟨fun other => ?_, inserting.accounts⟩
  by_cases same : other = inst
  · exact same ▸ inserting.own.ok _
  · exact inserting.others other same

theorem Inserting.change {left : Nat}
    (others : ∀ other, other ≠ inst → next.view other = state.view other)
    (own : (next.view inst).Fresh static left) (accounts : next.Accounts config) :
    next.Inserting config dying inst static left :=
  ⟨fun other different => others other different ▸ inserting.others other different, own, accounts⟩

theorem Inserting.setBoard (board : PhysRegId → Bool) :
    ({ state with regScoreboard := board }).Inserting config dying inst static rest :=
  inserting.change (fun _ _ => rfl) inserting.own { inserting.accounts with }

end

theorem view_addNode (state : InstructionQueue) (node : PhysRegId × Nat) (other : Nat) :
    (state.addNode node).view other =
      if other = node.2 then { state.view other with nodes := (state.view other).nodes + 1 }
      else state.view other := by
  unfold view addNode
  by_cases same : node.2 = other
  · simp [same]
  · simp [same, Ne.symm same]

variable {renamed : IqInst}

theorem Accounts.take (accounts : state.Accounts config)
    (new : inst ∉ state.inserted) (unreleased : inst ∉ state.released)
    (taken : state.takeEntry inst renamed = some next) : next.Accounts config := by
  obtain ⟨free, taken⟩ := ite_none_left_eq_some.mp taken
  cases taken
  have others : ∀ (tid : ThreadID) (list : List Nat), inst ∉ list → list.countP (fun other =>
      decide ((update state.insts inst renamed other).threadNumber = tid)) =
        list.countP (state.ofThread tid) := by
    intro tid list absent
    refine countP_congr fun other member => ?_
    have different : other ≠ inst := fun same => absent (same ▸ member)
    rw [update_of_ne different]
    exact Iff.rfl
  refine ⟨?_, fun tid => ?_⟩
  · have := accounts.free
    simp only [length_append, length_singleton]
    omega
  · have before := accounts.perThread tid
    unfold ofThread
    simp only [countP_append, countP_singleton, others tid _ new,
      others tid _ unreleased, update_self, decide_eq_true_eq]
    by_cases same : renamed.threadNumber = tid
    · subst same
      simp only [update_self, ↓reduceIte]
      omega
    · rw [update_of_ne (Ne.symm same), if_neg same]
      exact before

theorem takeEntry_inserting (inv : state.EntryInv config dying)
    (new : inst ∉ state.inserted) (taken : state.takeEntry inst (.renamed renamed.staticInst
      renamed.threadNumber renamed.srcRegs renamed.destRegs) = some next) :
    next.Inserting config dying inst renamed.staticInst
      (renamed.srcRegs.countP fun operand => !operand.ready) := by
  have unreleased : inst ∉ state.released := by
    have := inv.once inst
    rw [count_eq_zero_of_not_mem new] at this
    exact count_eq_zero.mp (Nat.le_zero.mp this)
  obtain ⟨unplaced, unlisted, entry, nodes, pairs⟩ :=
    (inv.ok inst).absent (count_eq_zero_of_not_mem new)
  have accounts := inv.accounts.take new unreleased taken
  obtain ⟨free, taken⟩ := ite_none_left_eq_some.mp taken
  cases taken
  refine ⟨fun other different => ?_, ?_, accounts⟩
  · have := inv.ok other
    unfold view at this ⊢
    simpa [different, Ne.symm different] using this
  · have split := @length_eq_countP_add_countP _ SrcOperand.ready renamed.srcRegs
    have all : ∀ operand : SrcOperand, (!operand.ready) = decide (¬ operand.ready = true) := by
      intro operand
      cases operand.ready <;> rfl
    exact {
      inserted := by simp [view, count_eq_zero_of_not_mem new]
      released := count_eq_zero_of_not_mem unreleased
      unplaced := unplaced
      unlisted := unlisted
      entry := entry
      memPairs := pairs
      sameStatic := by simp [view, IqInst.renamed]
      idle := by simp [view, IqInst.renamed]
      operands := by
        have nodes : (state.dependGraph.countP fun node => node.2 = inst) = 0 := nodes
        simp only [view, update_self, IqInst.renamed, IqInst.numSrcRegs, nodes, all]
        omega
      issuable := by simp [view, IqInst.renamed, IqInst.numSrcRegs]
      dependent := fun some => absurd nodes some }

section

variable (speculative : static.needsRelease = false)
include speculative

theorem addOperand_inserting {operand : SrcOperand}
    (inserting : state.Inserting config dying inst static
      (rest + if !operand.ready then 1 else 0)) :
    (addOperand inst state operand).Inserting config dying inst static rest := by
  have fresh := inserting.own
  unfold addOperand
  split
  · refine inserting.change (fun _ _ => rfl) { fresh with operands := ?_ } inserting.accounts
    have := fresh.operands
    omega
  · next unready =>
    simp only [Bool.or_eq_true, not_or, Bool.not_eq_true] at unready
    have room := fresh.operands
    simp only [unready.1, Bool.not_false, ↓reduceIte] at room
    split
    · refine inserting.change (fun other different => ?_) ?_
        (inserting.accounts.of_same rfl rfl rfl rfl (modify_threads fun _ => rfl))
      · rw [view_modify, if_neg different]
      · rw [view_modify, if_pos rfl]
        exact { fresh with
          operands := by
            change (state.view inst).dyn.readyRegs + 1 + (state.view inst).nodes + rest ≤
              (state.view inst).dyn.numSrcRegs
            omega
          issuable := fun can => by
            rcases Bool.or_eq_true_iff.mp can with before | now
            · have := fresh.issuable before
              omega
            · exact eq_of_beq now }
    · refine inserting.change (fun other different => ?_) ?_ { inserting.accounts with }
      · rw [view_addNode, if_neg different]
      · rw [view_addNode, if_pos rfl]
        exact { fresh with
          operands := by
            change (state.view inst).dyn.readyRegs + ((state.view inst).nodes + 1) + rest ≤
              (state.view inst).dyn.numSrcRegs
            omega
          dependent := fun _ => speculative }

theorem addOperands_inserting
    {operands : List SrcOperand} (inserting : state.Inserting config dying inst static
      (operands.countP fun operand => !operand.ready)) :
    (operands.foldl (addOperand inst) state).Inserting config dying inst static 0 := by
  induction operands generalizing state with
  | nil => exact inserting
  | cons operand rest ih =>
    rw [countP_cons] at inserting
    exact ih (addOperand_inserting speculative inserting)

theorem addToDependents_inserting
    (inserting : state.Inserting config dying inst static
      ((state.insts inst).srcRegs.countP fun operand => !operand.ready)) :
    (state.addToDependents inst).Inserting config dying inst static 0 := by
  have added := addOperands_inserting speculative inserting
  have length : (state.readyOperands (state.insts inst).srcRegs).length =
      (((state.insts inst).srcRegs.foldl (addOperand inst) state).insts inst).srcRegs.length := by
    rw [addOperands_srcRegs, readyOperands, length_map]
  unfold addToDependents
  refine added.change (fun other different => ?_) ?_
    (added.accounts.of_same rfl rfl rfl rfl (modify_threads fun _ => rfl))
  · rw [view_modify, if_neg different]
  · rw [view_modify, if_pos rfl]
    exact { added.own with
      operands := Nat.le_trans added.own.operands (Nat.le_of_eq length.symm)
      issuable := fun can => (added.own.issuable can).trans length.symm }

end

theorem view_addPairs (state : InstructionQueue) (stores : List Nat) (inst other : Nat) :
    (state.addPairs (stores.map fun store => (store, inst))).view other =
      if other = inst then
        { state.view other with memPairs := (state.view other).memPairs + stores.length }
      else state.view other := by
  unfold view addPairs
  simp only [countP_append, countP_map]
  split
  · next same =>
    have all : stores.countP ((fun pair => decide (pair.2 = other)) ∘ fun store => (store, inst)) =
        stores.length := countP_eq_length.mpr fun _ _ => by simp [same]
    simp only [all]
  · next different =>
    have none : stores.countP ((fun pair => decide (pair.2 = other)) ∘ fun store =>
        (store, inst)) = 0 := countP_eq_zero.mpr fun _ _ => by simp [Ne.symm different]
    simp only [none, Nat.add_zero]

theorem memDepInsert_entryInv (inserting : state.Inserting config dying inst static rest)
    (speculative : static.needsRelease = false) (memory : (state.insts inst).isMemRef = true)
    (producingStores : List Nat) :
    (state.memDepInsert inst producingStores).EntryInv config dying := by
  have inv := inserting.entryInv
  have fresh := inserting.own
  have needs : (state.insts inst).staticInst.needsRelease = false :=
    (congrArg StaticInst.needsRelease fresh.sameStatic).trans speculative
  simp only [memDepInsert]
  split
  · have hashed : (state.setEntry inst { regsReady := (state.insts inst).canIssue }).EntryInv config
        dying := by
      refine inv.update (view_setEntry state inst _) ?_ { inv.accounts with }
      exact fresh.hash (dying inst) (some { regsReady := (state.insts inst).canIssue })
        (state.view inst).memPairs (state.view inst).dyn.canIssue (state.view inst).lists
        (by rintro _ ⟨rfl⟩; exact ⟨fresh.memPairs.symm, id⟩) (absurd fresh.memPairs) id rfl
        (by simp [fresh.unlisted])
    split
    · next ready =>
      refine addReadyInst_entryInv hashed fresh.inserted
        (fun _ => ⟨?_, fresh.unplaced, fresh.idle.2.1⟩) fun _ => fresh.issuable ready
      rw [view_setEntry, if_pos rfl]
      refine Eq.trans (EntryView.waiting_of_memory _ ?_ ?_) ?_
      · exact needs
      · exact memory
      · simp [ready]
    · exact hashed
  · refine inv.change inst (fun other different => ?_) ?_
      (inv.accounts.of_same rfl rfl rfl rfl (modify_threads fun _ => rfl))
    · simp [view_modify, view_addPairs, view_setEntry, different]
    · have own (deps : Nat) := fresh.hash (dying inst)
        (some { regsReady := (state.insts inst).canIssue, memDeps := deps }) deps false
        (state.view inst).lists (by rintro _ ⟨rfl⟩; exact ⟨rfl, id⟩)
        (fun _ => ⟨speculative, memory⟩) (by simp) rfl (by simp [fresh.unlisted])
      rw [view_modify, if_pos rfl, view_addPairs, if_pos rfl, view_setEntry, if_pos rfl]
      simp only [fresh.memPairs, Nat.zero_add]
      exact own _

theorem insert_entryInv (inv : state.EntryInv config dying)
    {producingStores : List Nat} (new : inst ∉ state.inserted)
    (speculative : renamed.staticInst.needsRelease = false)
    (inserted : state.insert inst (.renamed renamed.staticInst renamed.threadNumber
      renamed.srcRegs renamed.destRegs) producingStores = some next) :
    next.EntryInv config dying := by
  obtain ⟨taken, take, inserted⟩ := bind_eq_some_iff.mp inserted
  obtain ⟨produced, produce, inserted⟩ := bind_eq_some_iff.mp inserted
  have inserting := takeEntry_inserting inv new take
  have srcRegs : (taken.insts inst).srcRegs = renamed.srcRegs := by
    obtain ⟨_, take⟩ := ite_none_left_eq_some.mp take
    cases take
    simp [IqInst.renamed]
  rw [← srcRegs] at inserting
  have dependents := addToDependents_inserting speculative inserting
  obtain ⟨board, rfl⟩ := addProducers_same produce
  have ready := dependents.setBoard board
  have static : ((taken.addToDependents inst).insts inst).staticInst = renamed.staticInst :=
    dependents.own.sameStatic
  split at inserted
  · next memory =>
    cases inserted
    exact memDepInsert_entryInv ready speculative
      ((congrArg StaticInst.isMemRef static).trans memory) producingStores
  · exact addIfReady_entryInv ready.entryInv ready.own.inserted
      ((congrArg StaticInst.needsRelease static).trans speculative)
      (fun _ => ⟨ready.own.unplaced, ready.own.idle.2.1⟩) inserted

theorem listNonSpec_entryInv (inserting : state.Inserting config dying inst static rest)
    (needs : static.needsRelease = true) :
    (state.push .nonSpecInsts inst).EntryInv config dying ∧
      ((state.push .nonSpecInsts inst).setEntry inst {}).EntryInv config dying := by
  have fresh := inserting.own
  have listed (entry : Option MemDepEntry) (empty : ∀ found, entry = some found → found = {}) :
      { state.view inst with
        lists := EntryView.more (state.view inst).lists .nonSpecInsts
        entry := entry }.Ok (dying inst) :=
    fresh.hash (dying inst) entry (state.view inst).memPairs (state.view inst).dyn.canIssue
      (EntryView.more (state.view inst).lists .nonSpecInsts)
      (fun found known => by rw [empty found known]; exact ⟨fresh.memPairs.symm, (by simp)⟩)
      (absurd fresh.memPairs) id (by simp [EntryView.places, EntryView.more])
      (by simp [EntryView.more, fresh.unlisted, needs])
  have pushed : (state.push .nonSpecInsts inst).EntryInv config dying := by
    refine inserting.entryInv.update (view_push state .nonSpecInsts inst) ?_
      { inserting.accounts with }
    have own := listed none (by decide)
    rwa [← fresh.entry] at own
  refine ⟨pushed, pushed.update (view_setEntry _ inst _) ?_ { pushed.accounts with }⟩
  rw [view_push, if_pos rfl]
  exact listed (some {}) (by rintro _ ⟨rfl⟩; rfl)

theorem insertNonSpec_entryInv (inv : state.EntryInv config dying)
    (new : inst ∉ state.inserted) (needs : renamed.staticInst.needsRelease = true)
    (inserted : state.insertNonSpec inst (.renamed renamed.staticInst renamed.threadNumber
      renamed.srcRegs renamed.destRegs) = some next) :
    next.EntryInv config dying := by
  obtain ⟨taken, take, inserted⟩ := bind_eq_some_iff.mp inserted
  obtain ⟨produced, produce, rfl⟩ := map_eq_some_iff.mp inserted
  obtain ⟨board, rfl⟩ := addProducers_same produce
  have listed := listNonSpec_entryInv ((takeEntry_inserting inv new take).setBoard board) needs
  split
  · exact listed.2
  · exact listed.1

theorem dispatch_entryInv (inv : state.EntryInv config dying)
    {producingStores : List Nat} (new : inst ∉ state.inserted)
    (dispatched : state.dispatch config inst (.renamed renamed.staticInst renamed.threadNumber
      renamed.srcRegs renamed.destRegs) producingStores = some next) :
    next.EntryInv config dying := by
  obtain ⟨_, dispatched⟩ := ite_none_left_eq_some.mp dispatched
  split at dispatched
  · next needs => exact insertNonSpec_entryInv inv new needs dispatched
  · next speculative =>
    split at dispatched
    · obtain ⟨board, rfl⟩ := addProducers_same dispatched
      exact ⟨inv.ok, { inv.accounts with }⟩
    · exact insert_entryInv inv new (Bool.of_not_eq_true speculative) dispatched

end Dispatch

/-! ## Squash -/

structure Shrunk (state next : InstructionQueue) : Prop where
  core : ∀ inst, (next.insts inst).core = (state.insts inst).core
  inserted : next.inserted = state.inserted
  instList : ∀ tid, (next.instList tid).Sublist (state.instList tid)
  released : state.released ⊆ next.released

theorem Shrunk.refl (state : InstructionQueue) : state.Shrunk state :=
  ⟨fun _ => rfl, rfl, fun _ => .refl _, List.Subset.refl _⟩

theorem Shrunk.trans {middle : InstructionQueue} (first : state.Shrunk middle)
    (second : middle.Shrunk next) : state.Shrunk next :=
  ⟨fun inst => (second.core inst).trans (first.core inst), second.inserted.trans first.inserted,
    fun tid => (second.instList tid).trans (first.instList tid),
    List.Subset.trans first.released second.released⟩

variable {tid : ThreadID}

section

variable (inv : state.EntryInv config dying)
include inv

theorem unlist_spec (unlisted : state.unlist tid inst = some next) :
    next.EntryInv config dying ∧ state.Shrunk next ∧ next.released = state.released := by
  obtain ⟨_, rfl⟩ := fired unlisted
  refine ⟨⟨inv.ok, { inv.accounts with }⟩,
    ⟨fun _ => rfl, rfl, fun other => ?_, List.Subset.refl _⟩, rfl⟩
  change (update state.instList tid _ other).Sublist _
  rw [update_apply]
  split
  · next same =>
    rw [same]
    exact erase_sublist
  · exact .refl _

theorem squashEntry_spec (doomed : dying inst)
    (present : inst ∈ state.inserted) (unmarked : (state.insts inst).squashedInIQ = false)
    (pending : (state.insts inst).issued = false ∨
      (state.insts inst).isMemRef = true ∧ (state.insts inst).memOpDone = false)
    (squashed : state.squashEntry inst = some next) :
    next.EntryInv config dying ∧ state.Shrunk next ∧ inst ∈ next.released := by
  obtain ⟨_, removed, rfl⟩ := map_eq_some_iff.mp squashed
  obtain ⟨graph, waiting, rfl, fewerNodes, fewer, nodes, places⟩ := removeWaiting_eq removed
  have once : (state.view inst).inserted = 1 :=
    Nat.le_antisymm (inv.ok inst).once.2 (count_pos_iff.mpr present)
  have own := (inv.ok inst).squash doomed once unmarked pending
    (fun list => (update state.lists .nonSpecInsts waiting list).count inst)
    (graph.countP fun node => node.2 = inst) fewerNodes.countP_le
    (by simpa [view] using fewer.count_le inst)
  refine ⟨inv.change inst (fun other different => ?_) ?_ (Accounts.release ?_ inv.once ?_),
    ⟨core_update rfl, rfl, fun _ => .refl _, subset_append_left _ _⟩,
    mem_append_right _ (mem_singleton.mpr rfl)⟩
  · have lists : (fun list => (update state.lists .nonSpecInsts waiting list).count other) =
        fun list => (state.lists list).count other := by
      funext list
      rw [update_apply]
      split
      · next same => rw [places other different, same]
      · rfl
    have same := nodes (fun node => node.2 = other) fun node own => by
      rw [of_decide_eq_true own]
      exact different
    rw [view_release, if_neg different, view_modify, if_neg different]
    unfold view
    rw [lists, same]
  · rw [view_release, if_pos rfl, view_modify, if_pos rfl]
    exact own
  · exact inv.accounts.of_same rfl rfl rfl rfl (modify_threads fun _ => rfl)
  · exact Nat.lt_of_succ_le own.once.1

theorem mem_released (present : inst ∈ state.inserted)
    (gone : (state.insts inst).squashedInIQ = true ∨ (state.insts inst).issued = true ∧
      ((state.insts inst).isMemRef = true → (state.insts inst).memOpDone = true)) :
    inst ∈ state.released := by
  have ok := inv.ok inst
  have once : (state.view inst).inserted = 1 :=
    Nat.le_antisymm ok.once.2 (count_pos_iff.mpr present)
  refine count_pos_iff.mp (Nat.lt_of_lt_of_eq Nat.zero_lt_one (Eq.symm ?_))
  cases memory : (state.insts inst).isMemRef with
  | false =>
    refine (ok.plain once memory).mpr ?_
    exact gone.elim (fun marked => (ok.squashed once marked).2) And.left
  | true =>
    exact (ok.memory once memory).mpr (gone.elim .inr fun done => .inl (done.2 memory))

theorem squashInst_spec (doomed : dying inst) (present : inst ∈ state.inserted)
    (squashed : squashInst tid state inst = some next) :
    next.EntryInv config dying ∧ state.Shrunk next ∧ inst ∈ next.released := by
  simp only [squashInst] at squashed
  split at squashed
  · next marked =>
    cases squashed
    exact ⟨inv, .refl _, mem_released inv present (.inl marked)⟩
  · next unmarked =>
    have unmarked : (state.insts inst).squashedInIQ = false := Bool.of_not_eq_true unmarked
    split at squashed
    · next pending =>
      obtain ⟨middle, first, rest⟩ := bind_eq_some_iff.mp squashed
      have pending : (state.insts inst).issued = false ∨
          (state.insts inst).isMemRef = true ∧ (state.insts inst).memOpDone = false := by
        simpa using pending
      obtain ⟨middleInv, before, released⟩ :=
        squashEntry_spec inv doomed present unmarked pending first
      obtain ⟨nextInv, after, same⟩ := unlist_spec middleInv rest
      exact ⟨nextInv, before.trans after, same ▸ released⟩
    · next gone =>
      obtain ⟨nextInv, after, same⟩ := unlist_spec inv squashed
      refine ⟨nextInv, after, same ▸ mem_released inv present (.inr ?_)⟩
      simpa using gone

end

structure Listed (state : InstructionQueue) : Prop where
  sorted : ∀ tid, (state.instList tid).Pairwise (· < ·)
  known : ∀ tid, ∀ inst ∈ state.instList tid,
    inst ∈ state.inserted ∧ (state.insts inst).threadNumber = tid

theorem Listed.of_shrunk (listed : state.Listed) (shrunk : state.Shrunk next) : next.Listed where
  sorted tid := (listed.sorted tid).sublist (shrunk.instList tid)
  known tid inst member := by
    obtain ⟨present, thread⟩ := listed.known tid inst ((shrunk.instList tid).subset member)
    exact ⟨shrunk.inserted ▸ present,
      (congrArg (fun core => core.2.1) (shrunk.core inst)).trans thread⟩

theorem Listed.of_sameInsts (listed : state.Listed) (same : state.SameInsts next) :
    next.Listed where
  sorted tid := by
    rw [same.instList]
    exact listed.sorted tid
  known tid inst member := by
    rw [same.instList] at member
    obtain ⟨present, thread⟩ := listed.known tid inst member
    exact ⟨same.inserted ▸ present, (same.threadNumber inst).trans thread⟩

variable {seqNum : Nat}

/-- The walk of `doSquash` from the tail of a sorted list reaches exactly the younger ones. -/
theorem mem_victims (listed : state.Listed) :
    inst ∈ (state.instList tid).reverse.takeWhile (fun inst => decide (seqNum < inst)) ↔
      inst ∈ state.instList tid ∧ seqNum < inst := by
  have sorted := pairwise_reverse.mpr (listed.sorted tid)
  constructor
  · intro member
    have younger := mem_takeWhile_imp member
    exact ⟨mem_reverse.mp ((takeWhile_sublist _).subset member), of_decide_eq_true younger⟩
  · rintro ⟨member, younger⟩
    have member := mem_reverse.mpr member
    revert member sorted
    generalize (state.instList tid).reverse = insts
    intro sorted member
    induction insts with
    | nil => cases member
    | cons head rest ih =>
      obtain ⟨older, sorted⟩ := pairwise_cons.mp sorted
      rcases mem_cons.mp member with rfl | member
      · simp [younger]
      · have : seqNum < head := Nat.lt_trans younger (older inst member)
        rw [takeWhile_cons_of_pos (by simpa using this)]
        exact mem_cons_of_mem _ (ih sorted member)

theorem memDepSquash_entryInv
    (inv : state.EntryInv config fun inst =>
      (state.insts inst).threadNumber = tid ∧ seqNum < inst) :
    (state.memDepSquash tid seqNum).EntryInv config fun _ => False := by
  refine ⟨fun other => ?_, { inv.accounts with }⟩
  have ok := inv.ok other
  have fewer : ((state.memDepSquash tid seqNum).lists .instsToReplay).count other ≤
      (state.lists .instsToReplay).count other := by
    exact List.Sublist.count_le other filter_sublist
  have moved := ok.move (fun list => ((state.memDepSquash tid seqNum).lists list).count other)
    (by
      simp only [EntryView.places, view]
      simp only [memDepSquash] at fewer ⊢
      simp only [ne_eq, reduceCtorEq, not_false_eq_true, update_of_ne]
      omega)
    (by simp [memDepSquash, view]) (by simpa [memDepSquash, view] using ok.underway)
    (by simp [memDepSquash, view])
  by_cases doomed : (state.insts other).threadNumber = tid ∧ seqNum < other
  · have gone : (state.memDepSquash tid seqNum).memDepHash other = none := by
      simp [memDepSquash, doomed]
    have forgotten := moved.forget
    rw [← gone] at forgotten
    exact forgotten.spare fun _ => gone
  · have kept : (state.memDepSquash tid seqNum).memDepHash other = state.memDepHash other := by
      simp only [memDepSquash]
      rw [if_neg (by simpa using doomed)]
    have same := moved.spare fun dying => absurd dying doomed
    unfold view at same ⊢
    rw [kept]
    exact same

/-- In the middle of a squash: the younger instructions of the thread are about to lose
their entries in the memory dependence unit. -/
structure Squashing (config : IqConfig) (tid : ThreadID) (seqNum : Nat)
    (state middle : InstructionQueue) : Prop where
  inv : middle.EntryInv config fun inst => (state.insts inst).threadNumber = tid ∧ seqNum < inst
  shrunk : state.Shrunk middle

/-- After a squash, every younger instruction of the thread has released its entry. -/
theorem squash_spec (inv : state.EntryInv config fun _ => False)
    (listed : state.Listed) (squashed : state.squash tid seqNum = some next) :
    (next.EntryInv config fun _ => False) ∧ state.Shrunk next ∧
      ∀ inst ∈ state.instList tid, seqNum < inst → inst ∈ next.released := by
  obtain ⟨middle, walked, rfl⟩ := map_eq_some_iff.mp squashed
  have step : ∀ victim ∈ (state.instList tid).reverse.takeWhile
    (fun inst => decide (seqNum < inst)),
      ∀ before after : InstructionQueue, Squashing config tid seqNum state before →
      squashInst tid before victim = some after →
      Squashing config tid seqNum state after ∧ victim ∈ after.released ∧
        ∀ other, other ∈ before.released → other ∈ after.released := by
    intro victim member before after squashing stepped
    obtain ⟨inList, younger⟩ := (mem_victims listed).mp member
    obtain ⟨present, thread⟩ := listed.known tid victim inList
    obtain ⟨afterInv, more, released⟩ := squashInst_spec squashing.inv ⟨thread, younger⟩
      (squashing.shrunk.inserted ▸ present) stepped
    exact ⟨⟨afterInv, squashing.shrunk.trans more⟩, released, fun _ old => more.released old⟩
  have start : Squashing config tid seqNum state state :=
    ⟨⟨fun inst => (inv.ok inst).threaten, inv.accounts⟩, .refl _⟩
  have walk := foldlM_invariant (Squashing config tid seqNum state)
    (fun victim member before after held stepped =>
      (step victim member before after held stepped).1) start walked
  have released := (foldlM_each (Squashing config tid seqNum state)
    (fun victim middle => victim ∈ middle.released) step start walked).2
  refine ⟨memDepSquash_entryInv ?_, walk.shrunk.trans ⟨fun _ => rfl, rfl, fun _ => .refl _,
    List.Subset.refl _⟩, fun inst member younger => ?_⟩
  · have threads : (fun inst => (middle.insts inst).threadNumber = tid ∧ seqNum < inst) =
        fun inst => (state.insts inst).threadNumber = tid ∧ seqNum < inst := by
      funext inst
      have same : (middle.insts inst).threadNumber = (state.insts inst).threadNumber :=
        congrArg (fun core => core.2.1) (walk.shrunk.core inst)
      rw [same]
    rw [threads]
    exact walk.inv
  · exact released inst ((mem_victims listed).mpr ⟨member, younger⟩)

theorem dispatch_listed (listed : state.Listed) {renamed : IqInst} {producingStores : List Nat}
    (younger : ∀ other ∈ state.instList renamed.threadNumber, other < inst)
    (new : inst ∉ state.inserted)
    (dispatched : state.dispatch config inst renamed producingStores = some next) :
    next.Listed := by
  rcases dispatch_sameInsts dispatched with ⟨taken, take, same⟩ | ⟨board, rfl⟩
  · refine Listed.of_sameInsts ?_ same
    obtain ⟨_, take⟩ := ite_none_left_eq_some.mp take
    cases take
    refine ⟨fun tid => ?_, fun tid other member => ?_⟩
    · change (update state.instList _ _ tid).Pairwise _
      rw [update_apply]
      split
      · exact pairwise_append.mpr ⟨listed.sorted _, pairwise_singleton _ _,
          fun other member last isLast => mem_singleton.mp isLast ▸ younger other member⟩
      · exact listed.sorted tid
    · have old (inList : other ∈ state.instList tid) : other ∈ state.inserted ++ [inst] ∧
          (update state.insts inst renamed other).threadNumber = tid := by
        obtain ⟨present, thread⟩ := listed.known tid other inList
        have different : other ≠ inst := fun same => new (same ▸ present)
        rw [update_of_ne different]
        exact ⟨mem_append_left _ present, thread⟩
      change other ∈ update state.instList _ _ tid at member
      rw [update_apply] at member
      split at member
      · next same =>
        subst same
        rcases mem_append.mp member with inList | isNew
        · exact old inList
        · rw [mem_singleton.mp isNew]
          exact ⟨mem_append_right _ (mem_singleton.mpr rfl), by
            simp only [update_self]⟩
      · exact old member
  · exact ⟨listed.sorted, listed.known⟩

theorem commit_listed (listed : state.Listed) (tid : ThreadID) (seqNum : Nat) :
    (state.commit tid seqNum).Listed := by
  refine listed.of_shrunk ⟨fun _ => rfl, rfl, fun other => ?_, List.Subset.refl _⟩
  change (update state.instList _ _ other).Sublist _
  rw [update_apply]
  split
  · next same =>
    rw [same]
    exact dropWhile_sublist _
  · exact .refl _

/-! ## Conservation -/

theorem mem_of_isNew {renamed : IqInst} (new : state.isNew inst renamed = true) :
    inst ∉ state.inserted ∧ ∀ other ∈ state.instList renamed.threadNumber, other < inst := by
  simpa [isNew] using new

structure Conserved (config : IqConfig) (state : InstructionQueue) : Prop where
  inv : state.EntryInv config fun _ => False
  listed : state.Listed

theorem step_entryInv {event : IqEvent} (conserved : state.Conserved config)
    (stepped : state.step config event = some next) : next.EntryInv config fun _ => False := by
  have inv := conserved.inv
  cases event with
  | dispatch inst renamed producingStores =>
    obtain ⟨new, stepped⟩ := ite_none_right_eq_some.mp stepped
    exact dispatch_entryInv inv (mem_of_isNew new).1 stepped
  | scheduleNonSpec inst => exact scheduleNonSpec_entryInv inv stepped
  | issue inst => exact issue_entryInv inv stepped
  | execute inst outcome => exact execute_entryInv inv stepped
  | accessDone inst fault => exact accessDone_entryInv inv stepped
  | writeback inst => exact writeback_entryInv inv stepped
  | executeDeferred inst => exact executeDeferred_entryInv inv stepped
  | executeBlocked inst => exact executeBlocked_entryInv inv stepped
  | cacheUnblocked =>
    cases stepped
    exact cacheUnblocked_entryInv inv
  | replay tid => exact replay_entryInv inv stepped
  | commit tid seqNum =>
    cases stepped
    exact commit_entryInv inv tid seqNum
  | squash tid seqNum => exact (squash_spec inv conserved.listed stepped).1
  | setSquashed inst =>
    cases stepped
    exact setSquashed_entryInv inv inst

theorem step_listed {event : IqEvent} (conserved : state.Conserved config)
    (stepped : state.step config event = some next) : next.Listed := by
  have listed := conserved.listed
  cases moving : moves event with
  | true => exact listed.of_sameInsts (step_advances moving stepped).sameInsts
  | false =>
    cases event with
    | dispatch inst renamed producingStores =>
      obtain ⟨new, stepped⟩ := ite_none_right_eq_some.mp stepped
      refine dispatch_listed listed ?_ (mem_of_isNew new).1 stepped
      exact (mem_of_isNew new).2
    | writeback inst => exact listed.of_sameInsts (writeback_sameInsts stepped)
    | commit tid seqNum =>
      cases stepped
      exact commit_listed listed tid seqNum
    | squash tid seqNum =>
      exact listed.of_shrunk (squash_spec conserved.inv listed stepped).2.1
    | _ => cases moving

theorem reachable_conserved {allowed : InstructionQueue → IqEvent → Bool}
    (reached : Reaches (step config) allowed (initial config) state) : state.Conserved config :=
  reached.invariant ⟨initial_entryInv config _, ⟨fun _ => .nil, (by rintro _ _ ⟨⟩)⟩⟩
    fun conserved _ stepped => ⟨step_entryInv conserved stepped, step_listed conserved stepped⟩

theorem Conserved.perm (conserved : state.Conserved config) :
    List.Perm (state.released ++ state.inserted.filter (· ∉ state.released)) state.inserted := by
  refine perm_iff_count.mpr fun inst => ?_
  have once := (conserved.inv.ok inst).once
  change state.released.count inst ≤ state.inserted.count inst ∧
    state.inserted.count inst ≤ 1 at once
  rw [count_append]
  by_cases gone : inst ∈ state.released
  · have one : 0 < state.released.count inst := count_pos_iff.mpr gone
    have none : (state.inserted.filter (· ∉ state.released)).count inst = 0 :=
      count_eq_zero.mpr (by simp [gone])
    omega
  · rw [count_eq_zero_of_not_mem gone, count_filter (by simpa using gone)]
    omega

/-- When an instruction has given its entry back. -/
def isReleased (inst : IqInst) : Bool :=
  if inst.isMemRef then inst.memOpDone || inst.squashedInIQ else inst.issued

/-- In every run, the free entries and those of the instructions that were inserted and not
yet released add up, in all and per thread, and each entry is released once: by a memory
instruction when it completes, by any other when it issues, and by a squash at the latest. -/
theorem entries_conserved (config : IqConfig) (state : InstructionQueue)
    (reached : Reaches (step config) anyEvent (initial config) state) :
    state.inserted.Nodup ∧ state.released.Nodup ∧ state.released ⊆ state.inserted ∧
      state.freeEntries + (state.inserted.filter (· ∉ state.released)).length = config.numEntries ∧
      (∀ tid, state.count tid = ((state.inserted.filter (· ∉ state.released)).filter
        (state.ofThread tid)).length) ∧
      (∀ inst ∈ state.inserted, inst ∈ state.released ↔ isReleased (state.insts inst) = true) ∧
      ∀ tid seqNum next, state.step config (.squash tid seqNum) = some next →
        ∀ inst ∈ state.instList tid, seqNum < inst → inst ∈ next.released := by
  have conserved := reachable_conserved reached
  have inv := conserved.inv
  have perm := conserved.perm
  refine ⟨nodup_iff_count_le_one.mpr fun inst => (inv.ok inst).once.2,
    nodup_iff_count_le_one.mpr fun inst =>
      Nat.le_trans (inv.ok inst).once.1 (inv.ok inst).once.2,
    fun inst member => perm.subset (mem_append_left _ member), ?_, fun tid => ?_,
    fun inst present => ?_, fun tid seqNum next squashed =>
      (squash_spec inv conserved.listed squashed).2.2⟩
  · have total := inv.accounts.free
    have length := perm.length_eq
    rw [length_append] at length
    omega
  · have total := inv.accounts.perThread tid
    have length := perm.countP_eq (state.ofThread tid)
    rw [countP_append] at length
    rw [← countP_eq_length_filter]
    omega
  · have once : (state.view inst).inserted = 1 :=
      Nat.le_antisymm (inv.ok inst).once.2 (count_pos_iff.mpr present)
    have single : inst ∈ state.released ↔ (state.view inst).released = 1 := by
      have bound := (inv.ok inst).once
      rw [← count_pos_iff]
      change 0 < (state.view inst).released ↔ _
      omega
    rw [single, isReleased]
    cases memory : (state.insts inst).isMemRef with
    | false =>
      exact (inv.ok inst).plain once memory
    | true =>
      rw [if_pos rfl, Bool.or_eq_true]
      exact (inv.ok inst).memory once memory

theorem entries_conserved_loads :
    ∃ state, Reaches (step ⟨4, fun _ => 4⟩) anyEvent (initial ⟨4, fun _ => 4⟩) state ∧
      state.released = [1, 2, 5, 3] ∧
      state.freeEntries + (state.inserted.filter (· ∉ state.released)).length = 4 := by
  obtain ⟨state, reached, observed⟩ := reaches_of_observed (step ⟨4, fun _ => 4⟩) anyEvent
    (initial ⟨4, fun _ => 4⟩)
    [.dispatch 1 { destRegs := [⟨.int, 1⟩] } [],
      .dispatch 2 { staticInst := { isStore := true }, srcRegs := [{ reg := ⟨.int, 1⟩ }] } [],
      .dispatch 3 { staticInst := { isLoad := true } } [2],
      .dispatch 4 { staticInst := { isNop := true } } [],
      .dispatch 5 { srcRegs := [{ reg := ⟨.int, 1⟩ }] } [],
      .issue 1, .execute 1 (.finished false), .writeback 1, .issue 2, .execute 2 (.finished false),
      .writeback 2, .issue 3, .execute 3 .blocked, .cacheUnblocked, .executeBlocked 3, .issue 3,
      .execute 3 .accessed, .squash 0 2]
    (fun state => state.released == [1, 2, 5, 3]) (by decide +kernel)
  exact ⟨state, reached, eq_of_beq observed,
    (entries_conserved ⟨4, fun _ => 4⟩ state reached).2.2.2.1⟩

end InstructionQueue

end Runahead.O3
