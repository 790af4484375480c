import Runahead.Mem.Outstanding

/-!
# Which instructions are flagged as missed in the second-level cache

An instruction that waits in a register of the data cache should be flagged exactly if the
request in service for the register has missed in the second-level cache. It is, as long as
the miss is seen before any target is deferred behind the request, the request is cacheable and
its instruction still alive, and each instruction waits in one register at a time; deferred
targets are overlooked.
-/

set_option autoImplicit false

namespace Runahead.Mem

open Library Function List

namespace Caches

variable {state next : Caches} {config : CacheConfig}

/-- The register that a miss in the data cache uses. -/
def missSlot (config : CacheConfig) (state : Caches) (target : Target) (free : Nat) : Nat :=
  if target.req.isUncacheable then free
  else (findMatch config.l1Mshrs state.l1 target.req.block).getD free

/-- An instruction that waits does so in this register, and if it is still flagged it waits. -/
def joinsAlone (state : Caches) (slot inst : Nat) : Bool :=
  (!state.missedInL2 inst || (state.l1 slot).waiting.any (·.req.inst == some inst)) &&
    (state.outstandingReqs inst).all fun req =>
      match state.stage req with
      | .waiting other => other == slot
      | _ => true

/-- Nothing is deferred behind a request that has missed or will miss. Such a request is
cacheable and belongs to a live instruction, and its response does not invalidate. -/
def uniform (config : CacheConfig) (state : Caches) : CacheEvent → Bool
  | .miss target free =>
    let slot := state.missSlot config target free
    !(state.serviceMissed slot && (state.l1 slot).defers target) &&
      target.req.inst.all (state.joinsAlone slot)
  | .l2Miss slot _ _ => (state.l1 slot).deferredTargets.isEmpty &&
      (state.request slot).all fun req => state.isLive req && !req.isUncacheable
  | .response slot response => !(state.serviceMissed slot && response.withInvalidate)
  | _ => true

structure Exact (state : Caches) : Prop where
  inv : Inv state
  undeferred : ∀ slot, state.serviceMissed slot = true → (state.l1 slot).deferredTargets = []
  sourced : ∀ slot, ∀ target ∈ (state.l1 slot).waiting, target.req.inst.isSome = true →
    target.source = .fromCPU
  recorded : ∀ slot, ∀ target ∈ (state.l1 slot).waiting, target.req.isUncacheable = false →
    state.l2Stage target.req = .notYet → state.mshrs target.req = [(.l1, slot)]
  unrecorded : ∀ req, state.stage req = .fresh ∨ state.stage req = .created → state.mshrs req = []
  /-- An instruction waits in one register. -/
  together : ∀ slot other inst, ∀ target ∈ (state.l1 slot).waiting,
    ∀ known ∈ (state.l1 other).waiting, target.req.inst = some inst →
      known.req.inst = some inst → other = slot
  /-- The request that has missed belongs to an instruction. -/
  missed : ∀ slot, state.serviceMissed slot = true → (state.l1 slot).inService = true ∧
    ∃ req, state.request slot = some req ∧ req.inst.isSome = true
  bit : ∀ slot, (state.l1 slot).missedInL2 = true → state.serviceMissed slot = true
  flags : ∀ slot, ∀ target ∈ (state.l1 slot).waiting, ∀ inst, target.req.inst = some inst →
    state.missedInL2 inst = state.serviceMissed slot

theorem exact_initial : Exact {} where
  inv := inv_initial
  undeferred := by rintro _ ⟨⟩
  sourced := by rintro _ _ ⟨⟩
  recorded := by rintro _ _ ⟨⟩
  unrecorded _ _ := rfl
  together := by rintro _ _ _ _ ⟨⟩
  missed := by rintro _ ⟨⟩
  bit := by rintro _ ⟨⟩
  flags := by rintro _ _ ⟨⟩

variable {slot : Nat}

theorem Exact.updateL1 (precise : Exact state) {mshr : Mshr}
    (wellFormed : mshr.WellFormed) (keeps : Mshr.Keeps (state.l1 slot) mshr) :
    Exact { state with l1 := update state.l1 slot mshr } := by
  have inv := precise.inv.updateL1 wellFormed keeps
  have keeps := update_keeps keeps
  have waiting (other : Nat) := (keeps other).waiting
  refine
    { precise with
      inv
      undeferred := fun other served =>
        (keeps other).deferredTargets.trans (precise.undeferred other served)
      sourced := fun other target member => precise.sourced other target (waiting other ▸ member)
      recorded := fun other target member => precise.recorded other target (waiting other ▸ member)
      together := fun slot other inst target member known there =>
        precise.together slot other inst target (waiting slot ▸ member) known
          (waiting other ▸ there)
      missed := fun other served => ?_
      bit := fun other bit => precise.bit other ((keeps other).missedInL2.symm.trans bit)
      flags := fun other target member => precise.flags other target (waiting other ▸ member) }
  obtain ⟨inService, owned⟩ := precise.missed other served
  obtain ⟨still, head⟩ := (keeps other).busy inService
  simp only [request, head]
  exact ⟨still, owned⟩

variable {req : Request}

theorem addReq_exact (precise : Exact state)
    (stepped : state.step config (.addReq req) = some next) : Exact next := by
  have inv := addReq_inv precise.inv stepped
  obtain ⟨inst, owner, stepped⟩ := Option.bind_eq_some_iff.mp stepped
  obtain ⟨fresh, rfl⟩ := fired stepped
  refine { precise with inv, unrecorded := fun known early => ?_ }
  by_cases same : known = req
  · exact same ▸ precise.unrecorded req (.inl (eq_of_beq fresh))
  · simp only [update_of_ne same] at early
    exact precise.unrecorded known early

theorem hit_exact (precise : Exact state)
    (stepped : state.step config (.hit req) = some next) : Exact next := by
  have inv := hit_inv precise.inv stepped
  obtain ⟨_, rfl⟩ := fired stepped
  refine { precise with inv, unrecorded := fun known early => ?_ }
  by_cases same : known = req
  · simp [same] at early
  · simp only [update_of_ne same] at early
    exact precise.unrecorded known early

theorem recvTimingResp_exact (precise : Exact state)
    (stepped : state.step config (.recvTimingResp req) = some next) : Exact next := by
  have inv := recvTimingResp_inv precise.inv stepped
  obtain ⟨inst, owner, stepped⟩ := Option.bind_eq_some_iff.mp stepped
  obtain ⟨returning, rfl⟩ := fired stepped
  have returning : state.stage req = .returning := eq_of_beq returning
  refine
    { precise with
      inv
      unrecorded := fun known early => ?_
      flags := fun slot target member other owned => ?_ }
  · by_cases same : known = req
    · simp [completeReq, same] at early
    · simp only [completeReq, update_of_ne same] at early
      exact precise.unrecorded known early
  · refine Eq.trans ?_ (precise.flags slot target member other owned)
    simp only [completeReq]
    split
    · next answered =>
      refine update_of_ne ?_ _ _
      -- An instruction that still waits has another request than the one answered.
      rintro rfl
      have differs : target.req ≠ req := by
        rintro rfl
        cases returning.symm.trans (precise.inv.held slot target member)
      have left := mem_reqCompleted_of_ne differs (precise.inv.outstanding_of_l1 member owned)
      rw [List.isEmpty_iff.mp answered] at left
      cases left
    · rfl

theorem response_exact {response : Response} (precise : Exact state)
    (admitted : state.uniform config (.response slot response) = true)
    (stepped : state.step config (.response slot response) = some next) : Exact next := by
  have inv := response_inv precise.inv stepped
  obtain ⟨req, _, stepped⟩ := Option.bind_eq_some_iff.mp stepped
  obtain ⟨_, rfl⟩ := fired stepped
  -- A request that has missed leaves an empty register, any other one no flag.
  have emptied (served : state.serviceMissed slot = true) :
      ((state.l1 slot).recvTimingResp response).2 =
        { state.l1 slot with targets := [], inService := false, missedInL2 := false } := by
    refine Mshr.recvTimingResp_of_undeferred (precise.undeferred slot served) ?_
    simpa [uniform, served] using admitted
  have unflagged {target : Target} {inst : Nat}
      (member : target ∈ ((state.l1 slot).recvTimingResp response).2.waiting)
      (owner : target.req.inst = some inst) : state.missedInL2 inst = false := by
    cases served : state.serviceMissed slot with
    | false =>
      rw [← served]
      exact precise.flags slot target (Mshr.mem_waiting_of_mem_recvTimingResp member) inst owner
    | true => simp [emptied served, Mshr.waiting, precise.undeferred slot served] at member
  have remains {other : Nat} {target : Target}
      (member : target ∈ (update state.l1 slot ((state.l1 slot).recvTimingResp response).2
        other).waiting) : target ∈ (state.l1 other).waiting := by
    by_cases here : other = slot
    · subst here
      rw [update_self] at member
      exact Mshr.mem_waiting_of_mem_recvTimingResp member
    · rwa [update_of_ne here] at member
  refine
    { precise with
      inv
      undeferred := fun other served => ?_
      sourced := fun other target member => precise.sourced other target (remains member)
      recorded := fun other target member => precise.recorded other target (remains member)
      unrecorded := fun known stage => ?_
      together := fun first other inst target member known there =>
        precise.together first other inst target (remains member) known (remains there)
      missed := fun other served => ?_
      bit := fun other bit => ?_
      flags := fun other target member inst owner => ?_ }
  · by_cases here : other = slot
    · simp [here] at served
    · simp only [update_of_ne here] at served ⊢
      exact precise.undeferred other served
  · have stays : known ∉ (state.l1 slot).served response := by
      intro served
      simp only [served, if_true] at stage
      rcases stage with stage | stage <;> split at stage <;> cases stage
    simp only [stays, if_false] at stage
    exact precise.unrecorded known stage
  · by_cases here : other = slot
    · simp [here] at served
    · simp only [request, update_of_ne here] at served ⊢
      exact precise.missed other served
  · by_cases here : other = slot
    · subst here
      simp only [update_self] at bit
      have served := precise.bit other (Mshr.missedInL2_of_recvTimingResp bit)
      simp [emptied served] at bit
    · simp only [update_of_ne here] at bit ⊢
      exact precise.bit other bit
  · by_cases here : other = slot
    · subst here
      simp only [update_self] at member ⊢
      exact unflagged member owner
    · simp only [update_of_ne here] at member ⊢
      exact precise.flags other target member inst owner

structure Joins (state : Caches) (target : Target) (result : MissResult) : Prop where
  undeferred : state.serviceMissed result.slot = true → result.mshr.deferredTargets = []
  missed : state.serviceMissed result.slot = true → result.mshr.inService = true ∧
    result.mshr.targets.head? = (state.l1 result.slot).targets.head?
  bit : result.mshr.missedInL2 = true → state.serviceMissed result.slot = true
  others : ∀ inst, target.req.inst ≠ some inst → result.missedInL2 inst = state.missedInL2 inst
  mine : ∀ inst, target.req.inst = some inst →
    result.missedInL2 inst = state.serviceMissed result.slot

variable {target : Target}

theorem handleTimingReqMiss_slot {free : Nat} {result : MissResult}
    (handled : handleTimingReqMiss config.l1Mshrs state.l1 state.missedInL2 target free =
      some result) : result.slot = state.missSlot config target free := by
  unfold handleTimingReqMiss at handled
  unfold missSlot
  split at handled
  · next found matched =>
    obtain ⟨cacheable, matched⟩ := Option.ite_none_left_eq_some.mp matched
    rw [if_neg cacheable, matched]
    split at handled <;> (cases handled; rfl)
  · next none =>
    obtain ⟨_, rfl⟩ := fired handled
    split
    · rfl
    · next cacheable =>
      rw [if_neg cacheable] at none
      rw [none]
      rfl

theorem Exact.idle_of_free (precise : Exact state)
    (free : (state.l1 slot).isAllocated = false) : state.serviceMissed slot = false := by
  refine Bool.eq_false_iff.mpr fun served => ?_
  have allocated := (precise.inv.wellFormed slot).busy (precise.missed slot served).1
  simp [Mshr.isAllocated, allocated] at free

/-- A register knows of the miss as soon as it is detected, whether a new target is deferred or
not. -/
theorem Exact.hasMissedInL2 (precise : Exact state)
    (agrees : ∀ inst, target.req.inst = some inst → state.missedInL2 inst = true →
      state.serviceMissed slot = true) :
    ((state.l1 slot).allocateTarget target).hasMissedInL2 state.missedInL2 =
      state.serviceMissed slot := by
  have members {known : Target} (member : known ∈ ((state.l1 slot).allocateTarget target).targets) :
      known ∈ (state.l1 slot).targets ∨ known = target := by
    unfold Mshr.allocateTarget at member
    split at member
    · exact .inl member
    · exact (mem_append.mp member).imp_right mem_singleton.mp
  have same : ((state.l1 slot).allocateTarget target).missedInL2 = (state.l1 slot).missedInL2 := by
    unfold Mshr.allocateTarget
    split <;> rfl
  rw [Bool.eq_iff_iff]
  constructor
  · intro found
    rcases Bool.or_eq_true_iff.mp found with bit | found
    · exact precise.bit slot (same.symm.trans bit)
    · obtain ⟨known, member, found⟩ := any_eq_true.mp found
      obtain ⟨source, flagged⟩ := Bool.and_eq_true_iff.mp found
      obtain ⟨inst, owner, flagged⟩ := (Option.any_eq_true _ _).mp flagged
      rcases members member with before | rfl
      · have waits : known ∈ (state.l1 slot).waiting :=
          mem_filter.mpr ⟨mem_append_left _ before, by simp [Target.waits, eq_of_beq source]⟩
        exact (precise.flags slot known waits inst owner).symm.trans flagged
      · exact agrees inst owner flagged
  · intro served
    obtain ⟨_, req, first, owned⟩ := precise.missed slot served
    obtain ⟨sender, member, rfl, head, _⟩ := request_mem (precise.inv.wellFormed slot) first
    obtain ⟨inst, owner⟩ := Option.isSome_iff_exists.mp owned
    have flagged := (precise.flags slot sender member inst owner).trans served
    refine Bool.or_eq_true_iff.mpr (.inr (any_eq_true.mpr ⟨sender, ?_, ?_⟩))
    · unfold Mshr.allocateTarget
      split
      · exact mem_of_head? head
      · exact mem_append_left _ (mem_of_head? head)
    · simp [precise.sourced slot sender member owned, owner, flagged]

theorem Exact.joins (precise : Exact state) {result : MissResult}
    (allowed : state.mayMiss config target = true)
    (immediate : state.serviceMissed result.slot = true →
      (state.l1 result.slot).defers target = false)
    (alone : ∀ inst, target.req.inst = some inst → state.joinsAlone result.slot inst = true)
    (handled : handleTimingReqMiss config.l1Mshrs state.l1 state.missedInL2 target slot =
      some result) : Joins state target result := by
  have agrees (inst : Nat) (owner : target.req.inst = some inst)
      (flagged : state.missedInL2 inst = true) : state.serviceMissed result.slot = true := by
    have waits := (Bool.and_eq_true_iff.mp (alone inst owner)).1
    rw [flagged, Bool.not_true, Bool.false_or] at waits
    obtain ⟨known, member, same⟩ := any_eq_true.mp waits
    exact (precise.flags _ known member inst (eq_of_beq same)).symm.trans flagged
  unfold handleTimingReqMiss at handled
  split at handled
  · next found matched =>
    split at handled
    · next inst owner =>
      cases handled
      have same := precise.hasMissedInL2 agrees
      refine
        { undeferred := fun served => ?_
          missed := fun served => ?_
          bit := fun bit => same.symm.trans bit
          others := fun other differs => ?_
          mine := fun other owned => ?_ }
      · simp only [Mshr.allocateTarget, immediate served, Bool.false_eq_true, if_false]
        exact precise.undeferred found served
      · have before := (precise.missed found served).1
        have allocated := (precise.inv.wellFormed found).busy before
        simp only [Mshr.allocateTarget, immediate served, Bool.false_eq_true, if_false]
        exact ⟨before, head?_append_of_ne_nil _ allocated⟩
      · have differs : other ≠ inst := fun equal => differs (equal ▸ owner)
        simp [differs]
      · cases owner.symm.trans owned
        simp only [same, beq_self_eq_true, Bool.and_true]
        exact Bool.or_eq_right_iff_imp.mpr (agrees inst owner)
    · next owner =>
      -- Requests of no instruction do not join a register.
      have matched := (Option.ite_none_left_eq_some.mp matched).2
      simp [mayMiss, owner, matched] at allowed
  · obtain ⟨free, rfl⟩ := fired handled
    have idle := precise.idle_of_free ((Bool.not_eq_true' _).mp (Bool.and_eq_true_iff.mp free).2)
    refine
      { undeferred := fun _ => rfl
        missed := fun served => clash served idle
        bit := precise.bit slot
        others := fun _ _ => rfl
        mine := fun inst owner => ?_ }
    refine (Bool.eq_false_iff.mpr fun flagged => ?_).trans idle.symm
    exact clash (agrees inst owner flagged) idle

theorem miss_exact (precise : Exact state)
    (admitted : state.uniform config (.miss target slot) = true)
    (stepped : state.step config (.miss target slot) = some next) : Exact next := by
  have inv := miss_inv precise.inv stepped
  obtain ⟨allowed, stepped⟩ := Option.ite_none_right_eq_some.mp stepped
  obtain ⟨result, handled, rfl⟩ := Option.map_eq_some_iff.mp stepped
  simp only [uniform, ← handleTimingReqMiss_slot handled, Bool.and_eq_true, Bool.not_eq_true',
    Bool.and_eq_false_imp] at admitted
  obtain ⟨immediate, alone⟩ := admitted
  have alone (inst : Nat) (owner : target.req.inst = some inst) :
      state.joinsAlone result.slot inst = true := by
    rw [owner] at alone
    exact alone
  have joins := precise.joins allowed immediate alone handled
  obtain ⟨waits, early, created⟩ := mayMiss_spec allowed
  have adds := handleTimingReqMiss_adds waits handled
  have mshrs (known : Request) (differs : known ≠ target.req) :
      state.setMshr target.req (.l1, result.slot) known = state.mshrs known := by
    unfold setMshr
    split
    · rfl
    · exact update_of_ne differs _ _
  have before {known : Target} {other : Nat} (member : known ∈ (state.l1 other).waiting) :
      known.req ≠ target.req := by
    intro same
    have held := precise.inv.held other known member
    rw [same] at held
    rcases early with early | early <;> cases early.symm.trans held
  -- What the instruction waits for already is in the same register.
  have near {known : Target} {other inst : Nat} (member : known ∈ (state.l1 other).waiting)
      (owned : known.req.inst = some inst) (mine : target.req.inst = some inst) :
      other = result.slot := by
    have stages := all_eq_true.mp (Bool.and_eq_true_iff.mp (alone inst mine)).2 known.req
      (precise.inv.outstanding_of_l1 member owned)
    rw [precise.inv.held other known member] at stages
    exact eq_of_beq stages
  have present {known : Target} {other : Nat}
      (member : known ∈ (update state.l1 result.slot result.mshr other).waiting) :
      known ∈ (state.l1 other).waiting ∨ known = target ∧ other = result.slot := by
    by_cases here : other = result.slot
    · subst here
      rw [update_self] at member
      exact (adds.mem member).symm.imp And.left fun same => ⟨same, rfl⟩
    · rw [update_of_ne here] at member
      exact .inl member
  have fromCPU {inst : Nat} (owner : target.req.inst = some inst) : target.source = .fromCPU := by
    simp only [mayMiss, owner, Bool.and_eq_true, beq_iff_eq] at allowed
    exact allowed.1
  refine
    { precise with
      inv
      undeferred := fun other served => ?_
      sourced := fun other known member owned => ?_
      recorded := fun other known member cacheable notYet => ?_
      unrecorded := fun known stage => ?_
      together := fun first other inst one member known there owner owned => ?_
      missed := fun other served => ?_
      bit := fun other bit => ?_
      flags := fun other known member inst owned => ?_ }
  · by_cases here : other = result.slot
    · subst here
      simp only [update_self]
      exact joins.undeferred served
    · simp only [update_of_ne here]
      exact precise.undeferred other served
  · rcases present member with there | ⟨rfl, _⟩
    · exact precise.sourced other known there owned
    · exact fromCPU (Option.isSome_iff_exists.mp owned).choose_spec
  · rcases present member with there | ⟨rfl, rfl⟩
    · simp only [mshrs _ (before there)]
      exact precise.recorded other known there cacheable notYet
    · simp [setMshr, cacheable, precise.unrecorded known.req early]
  · by_cases same : known = target.req
    · simp [same] at stage
    · simp only [update_of_ne same] at stage
      simp only [mshrs known same]
      exact precise.unrecorded known stage
  · rcases present member with here | ⟨rfl, rfl⟩
    · rcases present there with there | ⟨rfl, rfl⟩
      · exact precise.together first other inst one here known there owner owned
      · exact (near here owner owned).symm
    · rcases present there with there | ⟨rfl, rfl⟩
      · exact near there owned owner
      · rfl
  · obtain ⟨inService, owned⟩ := precise.missed other served
    by_cases here : other = result.slot
    · subst here
      obtain ⟨still, head⟩ := joins.missed served
      simp only [request, update_self, still, head]
      exact ⟨trivial, owned⟩
    · simp only [request, update_of_ne here]
      exact ⟨inService, owned⟩
  · by_cases here : other = result.slot
    · subst here
      simp only [update_self] at bit
      exact joins.bit bit
    · simp only [update_of_ne here] at bit
      exact precise.bit other bit
  · by_cases mine : target.req.inst = some inst
    · have here : other = result.slot := by
        rcases present member with there | ⟨_, here⟩
        · exact near there owned mine
        · exact here
      subst here
      exact joins.mine inst mine
    · simp only [joins.others inst mine]
      rcases present member with there | ⟨rfl, _⟩
      · exact precise.flags other known there inst owned
      · exact absurd owned mine

theorem Exact.markMissed (precise : Exact state)
    (first : state.request slot = some req) (notYet : state.l2Stage req = .notYet)
    (live : state.isLive req = true) (cacheable : req.isUncacheable = false) (inst : Nat) :
    state.markMissed req inst =
      (state.missedInL2 inst || (state.l1 slot).targets.any (·.belongsTo inst)) := by
  obtain ⟨sender, member, rfl, _, _⟩ := request_mem (precise.inv.wellFormed slot) first
  rw [Caches.markMissed, if_pos live, precise.recorded slot sender member cacheable notYet]
  rfl

theorem l2Miss_exact {l2Slot : Nat} {needsWritable : Bool} (precise : Exact state)
    (admitted : state.uniform config (.l2Miss slot needsWritable l2Slot) = true)
    (stepped : state.step config (.l2Miss slot needsWritable l2Slot) = some next) :
    Exact next := by
  have inv := l2Miss_inv precise.inv stepped
  obtain ⟨req, first, stepped⟩ := Option.bind_eq_some_iff.mp stepped
  obtain ⟨guards, stepped⟩ := Option.ite_none_right_eq_some.mp stepped
  obtain ⟨result, handled, rfl⟩ := Option.map_eq_some_iff.mp stepped
  obtain ⟨inService, notYet⟩ := Bool.and_eq_true_iff.mp guards
  have notYet : state.l2Stage req = .notYet := eq_of_beq notYet
  simp only [uniform, first, Option.all_some, Bool.and_eq_true, Bool.not_eq_true',
    List.isEmpty_iff] at admitted
  obtain ⟨undeferred, live, cacheable⟩ := admitted
  have marks := precise.markMissed first notYet live cacheable
  obtain ⟨sender, present, sent, _, _⟩ := request_mem (precise.inv.wellFormed slot) first
  -- Newly flagged instructions have a target in the register.
  have flagged {inst : Nat} (flag : result.missedInL2 inst = true) :
      state.missedInL2 inst = true ∨
        ∃ target ∈ (state.l1 slot).waiting, target.req.inst = some inst := by
    rcases handleTimingReqMiss_flags handled flag with marked | mine
    · rw [marks] at marked
      rcases Bool.or_eq_true_iff.mp marked with before | now
      · exact .inl before
      · obtain ⟨target, member, belongs⟩ := any_eq_true.mp now
        simp only [Target.belongsTo, Bool.and_eq_true, beq_iff_eq] at belongs
        refine .inr ⟨target, mem_filter.mpr ⟨mem_append_left _ member, ?_⟩, belongs.2⟩
        simp [Target.waits, belongs.1]
    · exact .inr ⟨sender, present, sent ▸ mine⟩
  have all {target : Target} {inst : Nat} (member : target ∈ (state.l1 slot).waiting)
      (owner : target.req.inst = some inst) : result.missedInL2 inst = true := by
    refine handleTimingReqMiss_mono handled ?_
    rw [marks]
    have regular : target ∈ (state.l1 slot).targets := by
      have member := (mem_filter.mp member).1
      rwa [undeferred, append_nil] at member
    have source := precise.sourced slot target member (by simp [owner])
    refine Bool.or_eq_true_iff.mpr (.inr (any_eq_true.mpr ⟨target, regular, ?_⟩))
    simp [Target.belongsTo, source, owner]
  have unmarked {known : Request} (differs : known ≠ req) :
      state.setMshr req (.l2, result.slot) known = state.mshrs known := by
    unfold setMshr
    split
    · rfl
    · exact update_of_ne differs _ _
  refine
    { precise with
      inv
      undeferred := fun other served => ?_
      recorded := fun other known member cacheable still => ?_
      unrecorded := fun known early => ?_
      missed := fun other served => ?_
      bit := fun other bit => ?_
      flags := fun other known member inst owned => ?_ }
  · by_cases here : other = slot
    · exact here ▸ undeferred
    · simp only [update_of_ne here] at served
      exact precise.undeferred other served
  · by_cases same : known.req = req
    · simp [same] at still
    · simp only [update_of_ne same] at still
      simp only [unmarked same]
      exact precise.recorded other known member cacheable still
  · have differs : known ≠ req := by
      rintro rfl
      have held := precise.inv.held slot sender present
      rw [sent] at held
      rcases early with early | early <;> cases early.symm.trans held
    simp only [unmarked differs]
    exact precise.unrecorded known early
  · by_cases here : other = slot
    · subst here
      obtain ⟨inst, owner, _⟩ := (Option.any_eq_true _ _).mp live
      exact ⟨inService, req, first, by simp [owner]⟩
    · simp only [update_of_ne here] at served
      exact precise.missed other served
  · by_cases here : other = slot
    · simp [here]
    · simp only [update_of_ne here]
      exact precise.bit other bit
  · by_cases here : other = slot
    · subst here
      simp only [update_self]
      exact all member owned
    · simp only [update_of_ne here]
      rw [← precise.flags other known member inst owned, Bool.eq_iff_iff]
      constructor
      · intro flag
        refine (flagged flag).resolve_right ?_
        rintro ⟨target, there, owner⟩
        exact here (precise.together slot other inst target there known member owner owned)
      · intro before
        refine handleTimingReqMiss_mono handled ?_
        rw [marks, before, Bool.true_or]

theorem l2Hit_exact (precise : Exact state)
    (stepped : state.step config (.l2Hit slot) = some next) : Exact next := by
  have inv := l2Hit_inv precise.inv stepped
  obtain ⟨req, _, stepped⟩ := Option.bind_eq_some_iff.mp stepped
  obtain ⟨_, rfl⟩ := fired stepped
  refine { precise with inv, recorded := fun other known member cacheable still => ?_ }
  by_cases same : known.req = req
  · simp [same] at still
  · simp only [update_of_ne same] at still
    exact precise.recorded other known member cacheable still

theorem l2Response_exact {l2Slot : Nat} {response : Response} (precise : Exact state)
    (stepped : state.step config (.l2Response l2Slot response) = some next) : Exact next := by
  have inv := l2Response_inv precise.inv stepped
  obtain ⟨_, rfl⟩ := fired stepped
  refine { precise with inv, recorded := fun other known member cacheable still => ?_ }
  simp only at still
  split at still
  · cases still
  · exact precise.recorded other known member cacheable still

theorem step_exact {event : CacheEvent} (precise : Exact state)
    (admitted : state.uniform config event = true)
    (stepped : state.step config event = some next) : Exact next := by
  have inv := step_inv precise.inv stepped
  cases event with
  | addReq req => exact addReq_exact precise stepped
  | execute inst =>
    cases stepped
    exact { precise with inv }
  | squash inst =>
    cases stepped
    exact { precise with inv }
  | enterRunahead inst =>
    obtain ⟨_, stepped⟩ := Option.ite_none_right_eq_some.mp stepped
    obtain ⟨_, stepped⟩ := Option.ite_none_left_eq_some.mp stepped
    cases stepped
    exact { precise with inv }
  | hit req => exact hit_exact precise stepped
  | miss target slot => exact miss_exact precise admitted stepped
  | send slot pendingModifiedResp isForward =>
    obtain ⟨guards, rfl⟩ := fired stepped
    simp only [Bool.and_eq_true, Mshr.isAllocated, Bool.not_eq_true',
      isEmpty_eq_false_iff] at guards
    refine precise.updateL1 ?_ (Mshr.markInService_keeps guards.2)
    exact { precise.inv.wellFormed slot with busy := fun _ => guards.1 }
  | l2Hit slot => exact l2Hit_exact precise stepped
  | l2Miss slot needsWritable l2Slot => exact l2Miss_exact precise admitted stepped
  | l2Other target l2Slot =>
    obtain ⟨_, stepped⟩ := Option.ite_none_right_eq_some.mp stepped
    obtain ⟨result, _, rfl⟩ := Option.map_eq_some_iff.mp stepped
    exact { precise with inv }
  | l2Send | l2Drop =>
    obtain ⟨_, rfl⟩ := fired stepped
    exact { precise with inv }
  | snoop slot packet =>
    cases stepped
    have wellFormed := precise.inv.wellFormed slot
    exact precise.updateL1 (wellFormed.handleSnoop packet)
      (Mshr.handleSnoop_keeps wellFormed packet)
  | l2Snoop l2Slot packet =>
    cases stepped
    exact { precise with inv }
  | l2Response l2Slot response => exact l2Response_exact precise stepped
  | response slot response => exact response_exact precise admitted stepped
  | recvTimingResp req => exact recvTimingResp_exact precise stepped

/-- Whatever the order of arrivals and misses, an instruction that waits in a register is
flagged exactly if the request in service for the register has missed. -/
theorem missed_exact (config : CacheConfig) (state : Caches)
    (reached : Reaches (step config) (uniform config) {} state) (slot inst : Nat) (target : Target)
    (waits : target ∈ (state.l1 slot).waiting) (owner : target.req.inst = some inst) :
    state.missedInL2 inst = state.serviceMissed slot := by
  have precise : Exact state := reached.invariant exact_initial step_exact
  exact precise.flags slot target waits inst owner

/-- One load joins the register before the miss is detected, another one afterwards. -/
theorem missed_exact_both_orders :
    ∃ state, Reaches (step ⟨4, 4⟩) (uniform ⟨4, 4⟩) {} state ∧
      (state.l1 0).waiting.map (·.req.inst) = [some 1, some 2, some 3] ∧
      state.serviceMissed 0 = true ∧ state.missedInL2 2 = true ∧ state.missedInL2 3 = true := by
  obtain ⟨state, reached, observed⟩ := reaches_of_observed (step ⟨4, 4⟩) (uniform ⟨4, 4⟩) {}
    [.addReq (load 1), .addReq (load 2), .addReq (load 3),
      .miss ⟨load 1, .fromCPU, false⟩ 0, .send 0 false false, .miss ⟨load 2, .fromCPU, false⟩ 1,
      .l2Miss 0 false 0, .miss ⟨load 3, .fromCPU, false⟩ 1]
    (fun state => decide (state.serviceMissed 0 = true ∧ (state.l1 0).waiting =
      [⟨load 1, .fromCPU, false⟩, ⟨load 2, .fromCPU, false⟩, ⟨load 3, .fromCPU, false⟩]))
    (by decide +kernel)
  obtain ⟨served, waiting⟩ := of_decide_eq_true observed
  refine ⟨state, reached, by rw [waiting]; rfl, served, ?_, ?_⟩
  · rw [missed_exact _ state reached 0 2 ⟨load 2, .fromCPU, false⟩ (by simp [waiting]) rfl, served]
  · rw [missed_exact _ state reached 0 3 ⟨load 3, .fromCPU, false⟩ (by simp [waiting]) rfl, served]

/-- A load that joins behind a deferred store is flagged if the miss has been detected before,
and is not if it is detected later. -/
theorem missed_depends_on_order :
    ∃ early late : Caches, Reaches (step ⟨4, 4⟩) anyEvent {} early ∧
      Reaches (step ⟨4, 4⟩) anyEvent {} late ∧ early.l1 0 = { late.l1 0 with missedInL2 := true } ∧
      (early.l1 0).waiting.map (·.req.inst) = [some 1, some 2, some 3] ∧
      early.serviceMissed 0 = true ∧ late.serviceMissed 0 = true ∧
      early.missedInL2 3 = true ∧ late.missedInL2 3 = false := by
  obtain ⟨early, earlyReached, earlyObserved⟩ := reaches_of_observed (step ⟨4, 4⟩) anyEvent {}
    [.addReq (load 1), .addReq (load 2), .addReq (load 3),
      .miss ⟨load 1, .fromCPU, false⟩ 0, .send 0 false false, .l2Miss 0 false 0,
      .miss ⟨load 2, .fromCPU, true⟩ 1, .miss ⟨load 3, .fromCPU, false⟩ 1]
    (fun state => decide (state.l1 0 =
        { block := 7
          targets := [⟨load 1, .fromCPU, false⟩]
          deferredTargets := [⟨load 2, .fromCPU, true⟩, ⟨load 3, .fromCPU, false⟩]
          inService := true
          missedInL2 := true } ∧ state.serviceMissed 0 = true ∧ state.missedInL2 3 = true))
    (by decide +kernel)
  obtain ⟨late, lateReached, lateObserved⟩ := reaches_of_observed (step ⟨4, 4⟩) anyEvent {}
    [.addReq (load 1), .addReq (load 2), .addReq (load 3),
      .miss ⟨load 1, .fromCPU, false⟩ 0, .send 0 false false, .miss ⟨load 2, .fromCPU, true⟩ 1,
      .miss ⟨load 3, .fromCPU, false⟩ 1, .l2Miss 0 false 0]
    (fun state => decide (state.l1 0 =
        { block := 7
          targets := [⟨load 1, .fromCPU, false⟩]
          deferredTargets := [⟨load 2, .fromCPU, true⟩, ⟨load 3, .fromCPU, false⟩]
          inService := true } ∧ state.serviceMissed 0 = true ∧ state.missedInL2 3 = false))
    (by decide +kernel)
  obtain ⟨earlyMshr, earlyMissed, flagged⟩ := of_decide_eq_true earlyObserved
  obtain ⟨lateMshr, lateMissed, unflagged⟩ := of_decide_eq_true lateObserved
  refine ⟨early, late, earlyReached, lateReached, ?_, ?_, earlyMissed, lateMissed, flagged,
    unflagged⟩
  · rw [earlyMshr, lateMshr]
  · rw [earlyMshr]
    rfl

end Caches

end Runahead.Mem
