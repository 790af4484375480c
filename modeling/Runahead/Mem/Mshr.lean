import Mathlib.Data.List.Basic

/-!
# Miss status holding registers

A register collects the requests for one block: the targets of the request that is or
will be in service, and those deferred until after its response. On top of the
protocol it carries a bit for the runahead support: some instruction among the targets
waits for a miss in the second-level cache.
-/

set_option autoImplicit false

namespace Runahead.Mem

open List

/-- A memory request; `id` stands for its address in the simulator. -/
structure Request where
  id : Nat
  /-- The instruction that the request belongs to. -/
  inst : Option Nat := none
  block : Nat := 0
  isCacheClean : Bool := false
  isCacheInvalidate : Bool := false
  isUncacheable : Bool := false
  deriving DecidableEq, Repr

def Request.isCacheMaintenance (req : Request) : Bool :=
  req.isCacheClean || req.isCacheInvalidate

inductive Source where
  | fromCPU
  | fromSnoop
  | fromPrefetcher
  deriving DecidableEq, Repr

structure Target where
  req : Request
  source : Source := .fromCPU
  needsWritable : Bool := false
  deriving DecidableEq, Repr

def Target.waits (target : Target) : Bool := target.source != .fromSnoop

def Target.belongsTo (target : Target) (inst : Nat) : Bool :=
  target.source == .fromCPU && target.req.inst == some inst

structure Mshr where
  block : Nat := 0
  targets : List Target := []
  deferredTargets : List Target := []
  inService : Bool := false
  pendingModified : Bool := false
  postInvalidate : Bool := false
  postDowngrade : Bool := false
  isForward : Bool := false
  isUncacheable : Bool := false
  missedInL2 : Bool := false
  deriving DecidableEq, Repr

structure SnoopPacket where
  req : Request
  needsWritable : Bool := false
  isInvalidate : Bool := false
  isUncacheable : Bool := false
  /-- An express snoop that precedes the request, which is buffered downstream. -/
  isExpress : Bool := false
  deriving DecidableEq, Repr

/-- The kind of response; the block may have become writable or may be clean and readable. -/
structure Response where
  /-- `ReadRespWithInvalidate`. -/
  withInvalidate : Bool := false
  readable : Bool := false
  writable : Bool := false
  deriving DecidableEq, Repr

namespace Mshr

variable {mshr : Mshr} {target : Target}

def isAllocated (mshr : Mshr) : Bool := !mshr.targets.isEmpty

def allocate (mshr : Mshr) (block : Nat) (target : Target) : Mshr :=
  { mshr with
    block
    targets := [target]
    deferredTargets := []
    inService := false
    isForward := false
    isUncacheable := target.req.isUncacheable }

/-- A new target has to wait until after the response to the request in service. -/
def defers (mshr : Mshr) (target : Target) : Bool :=
  target.req.isCacheMaintenance || mshr.targets.head?.any (·.req.isCacheMaintenance) ||
    !mshr.deferredTargets.isEmpty ||
    mshr.inService &&
      (mshr.postInvalidate ||
        target.needsWritable && (!mshr.pendingModified || mshr.postDowngrade || mshr.isForward))

def allocateTarget (mshr : Mshr) (target : Target) : Mshr :=
  if mshr.defers target then
    { mshr with deferredTargets := mshr.deferredTargets ++ [target] }
  else { mshr with targets := mshr.targets ++ [target] }

def markInService (mshr : Mshr) (pendingModifiedResp isForward : Bool) : Mshr :=
  { mshr with
    inService := true
    pendingModified := mshr.targets.any (·.needsWritable) || pendingModifiedResp
    postInvalidate := false
    postDowngrade := false
    isForward }

def handleSnoop (mshr : Mshr) (snoop : SnoopPacket) : Mshr :=
  if !mshr.inService || snoop.isExpress then mshr
  else if mshr.postInvalidate || mshr.targets.head?.any (·.req.isCacheInvalidate) then mshr
  else
    let saved :=
      if mshr.pendingModified || snoop.isInvalidate then
        { mshr with
          targets := mshr.targets ++ [⟨snoop.req, .fromSnoop, snoop.needsWritable⟩]
          postInvalidate := mshr.postInvalidate || snoop.needsWritable || snoop.isInvalidate }
      else mshr
    { saved with
      postDowngrade := saved.postDowngrade || !snoop.needsWritable && !snoop.isUncacheable }

/-- The deferred targets up to the first that fails the test become regular ones. -/
def promoteIf (mshr : Mshr) (test : Target → Bool) : Mshr :=
  { mshr with
    targets := mshr.targets ++ mshr.deferredTargets.takeWhile test
    deferredTargets := mshr.deferredTargets.dropWhile test }

def promoteReadable (mshr : Mshr) : Mshr :=
  if !mshr.deferredTargets.isEmpty && !mshr.postInvalidate then
    mshr.promoteIf fun target => !target.req.isCacheInvalidate && !target.needsWritable
  else mshr

def promoteWritable (mshr : Mshr) : Mshr :=
  if mshr.deferredTargets.any (·.needsWritable) && !(mshr.postInvalidate || mshr.postDowngrade) &&
      !mshr.deferredTargets.head?.any (·.req.isCacheInvalidate) then
    mshr.promoteIf fun target => !target.req.isCacheInvalidate
  else mshr

/-- The targets that the response serves: all of them, but after an invalidation only the first
and those that do not come from the CPU. -/
def serviceable (mshr : Mshr) (withInvalidate : Bool) : List Target :=
  if withInvalidate then
    mshr.targets.take 1 ++ (mshr.targets.drop 1).filter (·.source != .fromCPU)
  else mshr.targets

/-- The register without the targets that the response serves. -/
def extractServiceableTargets (mshr : Mshr) (withInvalidate : Bool) : Mshr :=
  { mshr with
    targets :=
      if withInvalidate then (mshr.targets.drop 1).filter (·.source == .fromCPU) else [] }

/-- `none`: there is nothing to promote. -/
def promoteDeferredTargets (mshr : Mshr) : Option Mshr :=
  if mshr.targets.isEmpty && mshr.deferredTargets.isEmpty then none
  else if mshr.deferredTargets.head?.any (·.req.isCacheMaintenance) then
    some (if mshr.targets.isEmpty then
      { mshr with
        targets := mshr.deferredTargets.take 1
        deferredTargets := mshr.deferredTargets.drop 1 }
    else mshr)
  else some (mshr.promoteIf fun target => !target.req.isCacheMaintenance)

def deallocate (mshr : Mshr) : Mshr := { mshr with inService := false, missedInL2 := false }

/-- `recvTimingResp`, before the targets are served. -/
def promote (mshr : Mshr) (response : Response) : Mshr :=
  let mshr := if response.readable then mshr.promoteReadable else mshr
  if response.writable then mshr.promoteWritable else mshr

/-- `recvTimingResp`, after the targets are served: the next request or none. -/
def finish (mshr : Mshr) : Mshr :=
  match mshr.promoteDeferredTargets with
  | some next => { next with inService := false }
  | none => mshr.deallocate

/-- `forceDeallocateTarget`: a prefetch that is not needed any more gives up its place. -/
def forceDeallocateTarget (mshr : Mshr) : Mshr :=
  let rest := { mshr with targets := mshr.targets.drop 1 }
  if rest.targets.isEmpty then rest.promoteDeferredTargets.getD rest.deallocate else rest

/-- `recvTimingResp`: the targets it serves and what stays in the register. -/
def recvTimingResp (mshr : Mshr) (response : Response) : List Target × Mshr :=
  let ready := mshr.promote response
  (ready.serviceable response.withInvalidate,
    (ready.extractServiceableTargets response.withInvalidate).finish)

/-- Some instruction among the regular targets is flagged; the answer is remembered. -/
def hasMissedInL2 (mshr : Mshr) (missed : Nat → Bool) : Bool :=
  mshr.missedInL2 || mshr.targets.any fun target =>
    target.source == .fromCPU && target.req.inst.any missed

/-- The flags after all instructions among the regular targets have been flagged. -/
def markTargetsMissedInL2 (mshr : Mshr) (missed : Nat → Bool) (inst : Nat) : Bool :=
  missed inst || mshr.targets.any (·.belongsTo inst)

def waiting (mshr : Mshr) : List Target :=
  (mshr.targets ++ mshr.deferredTargets).filter (·.waits)

theorem waiting_allocateTarget (mshr : Mshr) (target : Target) :
    (mshr.allocateTarget target).waiting =
      mshr.waiting ++ if target.waits then [target] else [] := by
  unfold allocateTarget
  split
  · simp [waiting, filter_append, filter_cons]
  · next immediate =>
    -- Without deferral nothing was deferred before.
    have empty : mshr.deferredTargets = [] := by
      simp only [defers, Bool.or_eq_true, not_or, Bool.not_eq_true] at immediate
      simpa using immediate.1.2
    simp [waiting, empty, filter_append, filter_cons]

theorem waiting_promoteIf (mshr : Mshr) (test : Target → Bool) :
    (mshr.promoteIf test).waiting = mshr.waiting := by
  simp only [waiting, promoteIf, append_assoc, takeWhile_append_dropWhile]

theorem waiting_promote (mshr : Mshr) (response : Response) :
    (mshr.promote response).waiting = mshr.waiting := by
  have readable : mshr.promoteReadable.waiting = mshr.waiting := by
    unfold promoteReadable
    split
    · exact waiting_promoteIf _ _
    · rfl
  have writable (mshr : Mshr) : mshr.promoteWritable.waiting = mshr.waiting := by
    unfold promoteWritable
    split
    · exact waiting_promoteIf _ _
    · rfl
  simp only [promote]
  split <;> split <;> simp only [writable, readable]

theorem head?_promote (mshr : Mshr) (response : Response) (allocated : mshr.targets ≠ []) :
    (mshr.promote response).targets.head? = mshr.targets.head? := by
  have promoted (mshr : Mshr) (test : Target → Bool) (allocated : mshr.targets ≠ []) :
      (mshr.promoteIf test).targets.head? = mshr.targets.head? :=
    head?_append_of_ne_nil _ allocated
  have readable : mshr.promoteReadable.targets.head? = mshr.targets.head? := by
    unfold promoteReadable
    split
    · exact promoted _ _ allocated
    · rfl
  have writable (mshr : Mshr) (allocated : mshr.targets ≠ []) :
      mshr.promoteWritable.targets.head? = mshr.targets.head? := by
    unfold promoteWritable
    split
    · exact promoted _ _ allocated
    · rfl
  have still : mshr.promoteReadable.targets ≠ [] := by
    intro empty
    rw [empty] at readable
    exact allocated (head?_eq_none_iff.mp readable.symm)
  simp only [promote]
  split <;> split
  · exact (writable _ still).trans readable
  · exact writable _ allocated
  · exact readable
  · rfl

theorem waiting_promoteDeferredTargets {next : Mshr}
    (promoted : mshr.promoteDeferredTargets = some next) : next.waiting = mshr.waiting := by
  unfold promoteDeferredTargets at promoted
  split at promoted
  · cases promoted
  · split at promoted
    · cases promoted
      split
      · next empty =>
        have empty : mshr.targets = [] := by simpa using empty
        simp only [waiting, empty, nil_append, take_append_drop]
      · rfl
    · cases promoted
      exact waiting_promoteIf _ _

theorem waiting_finish (mshr : Mshr) : mshr.finish.waiting = mshr.waiting := by
  unfold finish
  split
  · next next promoted =>
    have same := waiting_promoteDeferredTargets promoted
    exact same
  · rfl

theorem waiting_forceDeallocateTarget (mshr : Mshr) :
    mshr.forceDeallocateTarget.waiting.Sublist mshr.waiting := by
  have rest : ({ mshr with targets := mshr.targets.drop 1 } : Mshr).waiting.Sublist mshr.waiting :=
    ((drop_sublist 1 mshr.targets).append_right mshr.deferredTargets).filter _
  simp only [forceDeallocateTarget]
  split
  · cases promoted :
      ({ mshr with targets := mshr.targets.drop 1 } : Mshr).promoteDeferredTargets with
    | none => exact rest
    | some next => exact waiting_promoteDeferredTargets promoted ▸ rest
  · exact rest

theorem serviceable_perm (mshr : Mshr) (withInvalidate : Bool) :
    ((mshr.serviceable withInvalidate).filter (·.waits) ++
      (mshr.extractServiceableTargets withInvalidate).waiting).Perm mshr.waiting := by
  cases withInvalidate with
  | false =>
    simp only [serviceable, extractServiceableTargets, waiting, Bool.false_eq_true, if_false,
      nil_append, filter_append]
    exact .refl _
  | true =>
    simp only [serviceable, extractServiceableTargets, waiting, if_true, ← filter_append,
      ← append_assoc]
    refine List.Perm.filter _ (List.Perm.append_right _ ?_)
    have split := filter_append_perm (fun target : Target => target.source != .fromCPU)
      (mshr.targets.drop 1)
    have same : (mshr.targets.drop 1).filter (fun target => !(target.source != .fromCPU)) =
        (mshr.targets.drop 1).filter (·.source == .fromCPU) := by
      simp only [bne, Bool.not_not]
    rw [same] at split
    calc
      _ = mshr.targets.take 1 ++ ((mshr.targets.drop 1).filter (·.source != .fromCPU) ++
          (mshr.targets.drop 1).filter (·.source == .fromCPU)) := append_assoc _ _ _
      List.Perm _ (mshr.targets.take 1 ++ mshr.targets.drop 1) := split.append_left _
      _ = mshr.targets := take_append_drop 1 _

theorem waiting_handleSnoop (mshr : Mshr) (snoop : SnoopPacket) :
    (mshr.handleSnoop snoop).waiting = mshr.waiting := by
  unfold handleSnoop
  split
  · rfl
  · split
    · rfl
    · simp only
      split
      · simp [waiting, Target.waits]
      · rfl

/-- What holds of every register in use: only snoops do not wait for a request, and they are
neither deferred nor first. -/
structure WellFormed (mshr : Mshr) : Prop where
  deferred : ∀ target ∈ mshr.deferredTargets, target.waits = true
  first : ∀ target ∈ mshr.targets.head?, target.waits = true
  busy : mshr.inService = true → mshr.targets ≠ []

theorem wellFormed_empty : WellFormed {} where
  deferred := by rintro _ ⟨⟩
  first := by rintro _ ⟨⟩
  busy := by rintro ⟨⟩

theorem WellFormed.allocate (mshr : Mshr) (block : Nat) (waits : target.waits = true) :
    WellFormed (mshr.allocate block target) where
  deferred := by rintro _ ⟨⟩
  first := by
    rintro _ ⟨⟩
    exact waits
  busy := by rintro ⟨⟩

section

variable (wellFormed : WellFormed mshr)
include wellFormed

theorem WellFormed.allocateTarget (waits : target.waits = true)
    (allocated : mshr.targets ≠ []) : WellFormed (mshr.allocateTarget target) := by
  unfold Mshr.allocateTarget
  split
  · refine { wellFormed with deferred := fun other member => ?_ }
    rcases mem_append.mp member with before | new
    · exact wellFormed.deferred other before
    · exact mem_singleton.mp new ▸ waits
  · refine { wellFormed with first := fun other first => ?_, busy := fun _ => by simp }
    rw [head?_append_of_ne_nil _ allocated] at first
    exact wellFormed.first other first

theorem WellFormed.handleSnoop (snoop : SnoopPacket) :
    WellFormed (mshr.handleSnoop snoop) := by
  unfold Mshr.handleSnoop
  split
  · exact wellFormed
  · next acts =>
    split
    · exact wellFormed
    · simp only
      split
      · have busy : mshr.inService = true := by
          simp only [Bool.or_eq_true, not_or, Bool.not_eq_true'] at acts
          exact Bool.of_not_eq_false acts.1
        refine
          { deferred := wellFormed.deferred
            first := fun other first => ?_
            busy := fun _ => by simp }
        rw [head?_append_of_ne_nil _ (wellFormed.busy busy)] at first
        exact wellFormed.first other first
      · exact { wellFormed with }

theorem WellFormed.promoteIf (test : Target → Bool) : WellFormed (mshr.promoteIf test) where
  deferred target member :=
    wellFormed.deferred target ((dropWhile_sublist test).subset member)
  first target first := by
    simp only [Mshr.promoteIf, head?_append, Option.mem_def, Option.or_eq_some_iff] at first
    rcases first with first | ⟨_, first⟩
    · exact wellFormed.first target first
    · exact wellFormed.deferred target ((takeWhile_sublist test).subset (mem_of_head? first))
  busy inService := by simp [Mshr.promoteIf, wellFormed.busy inService]

theorem WellFormed.promote (response : Response) :
    WellFormed (mshr.promote response) := by
  have readable : WellFormed mshr.promoteReadable := by
    unfold promoteReadable
    split
    · exact wellFormed.promoteIf _
    · exact wellFormed
  have writable {mshr : Mshr} (wellFormed : WellFormed mshr) : WellFormed mshr.promoteWritable := by
    unfold promoteWritable
    split
    · exact wellFormed.promoteIf _
    · exact wellFormed
  simp only [Mshr.promote]
  split
  · split
    · exact writable readable
    · exact writable wellFormed
  · split
    · exact readable
    · exact wellFormed

end

theorem WellFormed.finish (deferred : ∀ target ∈ mshr.deferredTargets, target.waits = true)
    (first : ∀ target ∈ mshr.targets.head?, target.waits = true) : WellFormed mshr.finish := by
  have idle : WellFormed { mshr with inService := false } :=
    { deferred, first, busy := by rintro ⟨⟩ }
  unfold Mshr.finish promoteDeferredTargets
  split
  · next next promoted =>
    split at promoted
    · cases promoted
    · split at promoted
      · cases promoted
        split
        · refine
            { deferred := fun target member => deferred target ((drop_sublist _ _).subset member)
              first := fun target first => ?_
              busy := by rintro ⟨⟩ }
          exact deferred target ((take_sublist _ _).subset (mem_of_head? first))
        · exact idle
      · cases promoted
        exact { idle.promoteIf _ with busy := by rintro ⟨⟩ }
  · exact { idle with busy := by rintro ⟨⟩ }

theorem WellFormed.recvTimingResp (wellFormed : WellFormed mshr) (response : Response) :
    WellFormed (mshr.recvTimingResp response).2 := by
  have ready := wellFormed.promote response
  refine WellFormed.finish ready.deferred fun target first => ?_
  simp only [Mshr.extractServiceableTargets] at first
  split at first
  · have member := mem_of_head? first
    rw [mem_filter] at member
    simp [Target.waits, eq_of_beq member.2]
  · cases first

theorem mem_serviceable_of_head {withInvalidate : Bool} (first : mshr.targets.head? = some target) :
    target ∈ mshr.serviceable withInvalidate := by
  obtain ⟨rest, targets⟩ := head?_eq_some_iff.mp first
  unfold serviceable
  split
  · simp [targets]
  · simp [targets]

def served (mshr : Mshr) (response : Response) : List Request :=
  (((mshr.recvTimingResp response).1).filter (·.waits)).map (·.req)

theorem served_perm (mshr : Mshr) (response : Response) :
    (mshr.served response ++ (mshr.recvTimingResp response).2.waiting.map (·.req)).Perm
      (mshr.waiting.map (·.req)) := by
  have split := (serviceable_perm (mshr.promote response) response.withInvalidate).map (·.req)
  rw [waiting_promote, map_append] at split
  simpa only [served, Mshr.recvTimingResp, waiting_finish] using split

variable {response : Response}

theorem notMem_served_of_mem (distinct : (mshr.waiting.map (·.req)).Nodup)
    (stays : target ∈ (mshr.recvTimingResp response).2.waiting) :
    target.req ∉ mshr.served response := by
  have distinct := (served_perm mshr response).nodup_iff.mpr distinct
  have disjoint := (nodup_append.mp distinct).2.2
  exact fun member => disjoint _ member _ (mem_map_of_mem stays) rfl

theorem mem_waiting_of_mem_recvTimingResp
    (stays : target ∈ (mshr.recvTimingResp response).2.waiting) : target ∈ mshr.waiting := by
  have split := serviceable_perm (mshr.promote response) response.withInvalidate
  rw [waiting_promote] at split
  refine split.subset (mem_append_right _ ?_)
  simpa only [Mshr.recvTimingResp, waiting_finish] using stays

theorem mem_waiting_of_mem_served {req : Request}
    (member : req ∈ mshr.served response) : ∃ target ∈ mshr.waiting, target.req = req := by
  have present := (served_perm mshr response).subset (mem_append_left _ member)
  exact mem_map.mp present

theorem mem_served_of_head (first : mshr.targets.head? = some target)
    (waits : target.waits = true) : target.req ∈ mshr.served response := by
  have allocated : mshr.targets ≠ [] := by
    rintro empty
    rw [empty] at first
    cases first
  have first := (head?_promote mshr response allocated).trans first
  exact mem_map_of_mem (mem_filter.mpr ⟨mem_serviceable_of_head first, waits⟩)

/-- The register keeps its targets, and its request if that is in service. -/
structure Keeps (before after : Mshr) : Prop where
  waiting : after.waiting = before.waiting
  deferredTargets : after.deferredTargets = before.deferredTargets
  missedInL2 : after.missedInL2 = before.missedInL2
  busy : before.inService = true →
    after.inService = true ∧ after.targets.head? = before.targets.head?

theorem handleSnoop_keeps (wellFormed : WellFormed mshr) (snoop : SnoopPacket) :
    Keeps mshr (mshr.handleSnoop snoop) := by
  refine ⟨waiting_handleSnoop mshr snoop, ?_, ?_, fun inService => ?_⟩
  all_goals unfold handleSnoop
  · split
    · rfl
    · split
      · rfl
      · simp only
        split <;> rfl
  · split
    · rfl
    · split
      · rfl
      · simp only
        split <;> rfl
  · split
    · exact ⟨inService, rfl⟩
    · split
      · exact ⟨inService, rfl⟩
      · simp only
        split
        · exact ⟨inService, head?_append_of_ne_nil _ (wellFormed.busy inService)⟩
        · exact ⟨inService, rfl⟩

theorem markInService_keeps {pendingModifiedResp isForward : Bool} (idle : mshr.inService = false) :
    Keeps mshr (mshr.markInService pendingModifiedResp isForward) :=
  ⟨rfl, rfl, rfl, fun inService => absurd (inService.symm.trans idle) (by decide)⟩

theorem recvTimingResp_of_undeferred (undeferred : mshr.deferredTargets = [])
    (plain : response.withInvalidate = false) :
    (mshr.recvTimingResp response).2 = { mshr with
      targets := [], inService := false, missedInL2 := false } := by
  have promoted : mshr.promote response = mshr := by
    have readable : mshr.promoteReadable = mshr := by simp [promoteReadable, undeferred]
    have writable : mshr.promoteWritable = mshr := by simp [promoteWritable, undeferred]
    simp only [promote, readable, writable, ite_self]
  simp [Mshr.recvTimingResp, promoted, extractServiceableTargets, plain, finish,
    promoteDeferredTargets, undeferred, deallocate]

theorem missedInL2_of_recvTimingResp
    (bit : (mshr.recvTimingResp response).2.missedInL2 = true) : mshr.missedInL2 = true := by
  have promoted : (mshr.promote response).missedInL2 = mshr.missedInL2 := by
    have readable : mshr.promoteReadable.missedInL2 = mshr.missedInL2 := by
      unfold promoteReadable
      split <;> rfl
    have writable (mshr : Mshr) : mshr.promoteWritable.missedInL2 = mshr.missedInL2 := by
      unfold promoteWritable
      split <;> rfl
    simp only [promote]
    split <;> split <;> simp only [writable, readable]
  simp only [Mshr.recvTimingResp, finish, promoteDeferredTargets] at bit
  split at bit
  · next next found =>
    obtain ⟨_, found⟩ := Option.ite_none_left_eq_some.mp found
    split at found
    · cases found
      split at bit <;> exact promoted.symm.trans bit
    · cases found
      exact promoted.symm.trans bit
  · cases bit

end Mshr

end Runahead.Mem
