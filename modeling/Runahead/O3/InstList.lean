import Mathlib.Data.List.Nodup
import Runahead.DynInst
import Runahead.Library.Transition

/-!
# The global instruction list of runaheado3

`CPU::instList` and `removeList` with any number of threads. Within a cycle
fetch reads its signals thread by thread, builds instructions, decode may find
a wrong branch target, and commit fills and empties the ROB; the removals they
ask for take place in `cleanUpRemovedInsts` at the end of the cycle. The delays
between the stages are the defaults, so that fetch reads a squash of decode at
the start of the next cycle. Between fetch and commit an instruction can be
anywhere, and a stage can drop it once it is squashed.
-/

set_option autoImplicit false

namespace Runahead.O3

open Library Function List Function

inductive ListPhase where
  | signals | fetch | decode | commit
  deriving DecidableEq, Repr

structure InstListState where
  phase : ListPhase
  nextSeqNum : Nat
  threadNumber : Nat → ThreadID
  squashed : Nat → Bool
  instList : List Nat
  removeList : List Nat
  rob : ThreadID → List Nat
  /-- Fetched instructions that have not reached commit. -/
  inFlight : ThreadID → List Nat
  /-- The threads whose signals fetch has read in this cycle. -/
  checked : ThreadID → Bool
  /-- The squash of decode that fetch reads in the next cycle. -/
  decodeInfo : ThreadID → Option Nat
  /-- What `cleanUpRemovedInsts` has erased so far. -/
  erased : List Nat

inductive ListEvent where
  /-- `Fetch::squash`, for a squash of commit. -/
  | squashFromCommit (tid : ThreadID)
  | squashFromDecode (tid : ThreadID)
  | startFetch
  | addInst (tid : ThreadID)
  | startDecode
  /-- `Decode::squash` for a branch that decode resolves. -/
  | decodeSquash (tid : ThreadID) (inst : Nat)
  | startCommit
  /-- A stage drops a squashed instruction. -/
  | dropInst (tid : ThreadID) (inst : Nat)
  /-- `getInsts`; commit may refuse the instruction because of its status. -/
  | getInst (tid : ThreadID) (accepts : Bool)
  /-- `ROB::doSquash` marks an instruction of the ROB. -/
  | squashInRob (tid : ThreadID) (inst : Nat)
  /-- `ROB::retireHead` and `removeFrontInst`, when the head commits, is
  squashed or is pseudo-retired. -/
  | retireHead (tid : ThreadID)
  | endCycle
  deriving DecidableEq, Repr

namespace InstListState

variable {state next : InstListState} {tid : ThreadID} {inst : Nat}

/-- The part of the list that `removeInstsNotInROB` walks through, from the end
to the tail of the ROB of the thread, and what it removes. -/
def instsNotInROB (state : InstListState) (tid : ThreadID) : List Nat :=
  let walked :=
    match (state.rob tid).getLast? with
    | none => state.instList.reverse
    | some tail => state.instList.reverse.takeWhile (· != tail)
  walked.filter fun inst => decide (state.threadNumber inst = tid)

def instsUntil (state : InstListState) (seqNum : Nat) (tid : ThreadID) : List Nat :=
  (state.instList.reverse.takeWhile fun inst => decide (seqNum < inst)).filter fun inst =>
    decide (state.threadNumber inst = tid)

def squashInsts (state : InstListState) (victims : List Nat) : InstListState :=
  { state with
    squashed := fun inst => victims.contains inst || state.squashed inst
    removeList := state.removeList ++ victims }

def setChecked (state : InstListState) (tid : ThreadID) : InstListState :=
  { state with checked := update state.checked tid true }

def cleanUpRemovedInsts (state : InstListState) : InstListState :=
  { state with
    instList := state.removeList.foldl List.erase state.instList
    erased := state.erased ++ state.removeList
    removeList := [] }

def step (state : InstListState) : ListEvent → Option InstListState
  | .squashFromCommit tid =>
    if state.phase = .signals && !state.checked tid then
      some ((state.squashInsts (state.instsNotInROB tid)).setChecked tid)
    else none
  | .squashFromDecode tid =>
    match state.decodeInfo tid with
    | none => none
    | some seqNum =>
      if state.phase = .signals && !state.checked tid then
        some ((state.squashInsts (state.instsUntil seqNum tid)).setChecked tid)
      else none
  | .startFetch =>
    if state.phase = .signals then
      some { state with phase := .fetch, decodeInfo := fun _ => none }
    else none
  | .addInst tid =>
    if state.phase = .fetch then
      some { state with
        nextSeqNum := state.nextSeqNum + 1
        threadNumber := update state.threadNumber state.nextSeqNum tid
        squashed := update state.squashed state.nextSeqNum false
        instList := state.instList ++ [state.nextSeqNum]
        inFlight := update state.inFlight tid (state.inFlight tid ++ [state.nextSeqNum]) }
    else none
  | .startDecode => if state.phase = .fetch then some { state with phase := .decode } else none
  | .decodeSquash tid inst =>
    if state.phase = .decode && (state.inFlight tid).contains inst && !state.squashed inst &&
        (state.decodeInfo tid).isNone then
      some { state.squashInsts (state.instsUntil inst tid) with
        decodeInfo := update state.decodeInfo tid (some inst) }
    else none
  | .startCommit => if state.phase = .decode then some { state with phase := .commit } else none
  | .dropInst tid inst =>
    if state.squashed inst then
      some { state with
        inFlight := update state.inFlight tid ((state.inFlight tid).erase inst) }
    else none
  | .getInst tid accepts =>
    match state.inFlight tid with
    | [] => none
    | inst :: rest =>
      if state.phase = .commit then
        some { state with
          inFlight := update state.inFlight tid rest
          rob :=
            if !state.squashed inst && accepts then
              update state.rob tid (state.rob tid ++ [inst])
            else state.rob }
      else none
  | .squashInRob tid inst =>
    if state.phase = .commit && (state.rob tid).contains inst then
      some { state with squashed := update state.squashed inst true }
    else none
  | .retireHead tid =>
    match state.rob tid with
    | [] => none
    | head :: rest =>
      if state.phase = .commit then
        some { state with
          rob := update state.rob tid rest
          removeList := state.removeList ++ [head] }
      else none
  | .endCycle =>
    if state.phase = .commit then
      some { state.cleanUpRemovedInsts with phase := .signals, checked := fun _ => false }
    else none

def initial : InstListState where
  phase := .signals
  nextSeqNum := 1
  threadNumber _ := 0
  squashed _ := false
  instList := []
  removeList := []
  rob _ := []
  inFlight _ := []
  checked _ := false
  decodeInfo _ := none
  erased := []

/-! ## Walking through the list -/

variable {insts : List Nat}

private theorem mem_takeWhile_lt (descending : insts.Pairwise (· > ·)) (bound : Nat) :
    inst ∈ insts.takeWhile (fun inst => decide (bound < inst)) ↔ inst ∈ insts ∧ bound < inst := by
  induction insts with
  | nil => simp
  | cons first rest ih =>
    obtain ⟨below, descending⟩ := pairwise_cons.mp descending
    by_cases above : bound < first
    · rw [takeWhile_cons_of_pos (by simpa using above), mem_cons, ih descending, mem_cons]
      constructor
      · rintro (rfl | ⟨member, later⟩)
        · exact ⟨.inl rfl, above⟩
        · exact ⟨.inr member, later⟩
      · rintro ⟨rfl | member, later⟩
        · exact .inl rfl
        · exact .inr ⟨member, later⟩
    · rw [takeWhile_cons_of_neg (by simpa using above)]
      refine iff_of_false not_mem_nil ?_
      rintro ⟨member, later⟩
      rcases mem_cons.mp member with rfl | member
      · exact above later
      · have := below inst member
        omega

private theorem takeWhile_ne (descending : insts.Pairwise (· > ·)) {tail : Nat}
    (member : tail ∈ insts) :
    insts.takeWhile (· != tail) = insts.takeWhile fun inst => decide (tail < inst) := by
  induction insts with
  | nil => cases member
  | cons first rest ih =>
    obtain ⟨below, descending⟩ := pairwise_cons.mp descending
    rcases mem_cons.mp member with rfl | later
    · rw [takeWhile_cons_of_neg (by simp), takeWhile_cons_of_neg (by simp)]
    · have above := below tail later
      rw [takeWhile_cons_of_pos (by simp; omega), ih descending later,
        takeWhile_cons_of_pos (by simpa using above)]

private theorem descending_reverse (ordered : insts.Pairwise (· < ·)) :
    insts.reverse.Pairwise (· > ·) :=
  pairwise_reverse.mpr ordered

section

variable (ordered : state.instList.Pairwise (· < ·))
include ordered

theorem mem_instsUntil (seqNum : Nat) :
    inst ∈ state.instsUntil seqNum tid ↔
      inst ∈ state.instList ∧ state.threadNumber inst = tid ∧ seqNum < inst := by
  rw [instsUntil, mem_filter, mem_takeWhile_lt (descending_reverse ordered), mem_reverse,
    decide_eq_true_eq]
  tauto

theorem instsUntil_nodup (seqNum : Nat)
    (tid : ThreadID) : (state.instsUntil seqNum tid).Nodup := by
  have descending := descending_reverse ordered
  exact ((descending.sublist (takeWhile_sublist _)).sublist filter_sublist).imp
    fun above => Ne.symm (Nat.ne_of_lt above)

theorem mem_instsNotInROB (robOrdered : (state.rob tid).Pairwise (· < ·))
    (listed : ∀ inst ∈ state.rob tid, inst ∈ state.instList) :
    inst ∈ state.instsNotInROB tid ↔ inst ∈ state.instList ∧ state.threadNumber inst = tid ∧
      ∀ older ∈ state.rob tid, older < inst := by
  unfold instsNotInROB
  cases found : (state.rob tid).getLast? with
  | none =>
    have empty : state.rob tid = [] := getLast?_eq_none_iff.mp found
    simp [empty]
  | some tail =>
    have member : tail ∈ state.rob tid := mem_of_getLast? found
    have last : ∀ older ∈ state.rob tid, older ≤ tail := by
      obtain ⟨older, same⟩ := getLast?_eq_some_iff.mp found
      rw [same] at robOrdered ⊢
      intro inst inside
      rcases mem_append.mp inside with before | here
      · exact Nat.le_of_lt ((pairwise_append.mp robOrdered).2.2 inst before tail (by simp))
      · exact Nat.le_of_eq (mem_singleton.mp here)
    have descending := descending_reverse ordered
    simp only
    rw [mem_filter, takeWhile_ne descending (mem_reverse.mpr (listed tail member)),
      mem_takeWhile_lt descending, mem_reverse, decide_eq_true_eq]
    constructor
    · rintro ⟨⟨inside, later⟩, same⟩
      exact ⟨inside, same, fun older before => Nat.lt_of_le_of_lt (last older before) later⟩
    · rintro ⟨inside, same, above⟩
      exact ⟨⟨inside, above tail member⟩, same⟩

theorem instsNotInROB_nodup (tid : ThreadID) :
    (state.instsNotInROB tid).Nodup := by
  have descending := descending_reverse ordered
  have unique : ∀ walked : List Nat, walked.Sublist state.instList.reverse → walked.Nodup :=
    fun walked sub => (descending.sublist sub).imp fun above => Ne.symm (Nat.ne_of_lt above)
  refine (List.Nodup.sublist filter_sublist ?_)
  split
  · exact unique _ (.refl _)
  · exact unique _ (takeWhile_sublist _)

end

/-! ## The invariant -/

structure Placed (state : InstListState) : Prop where
  listOrdered : state.instList.Pairwise (· < ·)
  listBounded : ∀ inst ∈ state.instList, inst < state.nextSeqNum
  pipeOrdered : ∀ tid, (state.rob tid ++ state.inFlight tid).Pairwise (· < ·)
  pipeBounded : ∀ tid, ∀ inst ∈ state.rob tid ++ state.inFlight tid,
    inst < state.nextSeqNum ∧ state.threadNumber inst = tid
  robListed : ∀ tid, ∀ inst ∈ state.rob tid, inst ∈ state.instList ∧ inst ∉ state.removeList
  flightListed : ∀ tid, ∀ inst ∈ state.inFlight tid, state.squashed inst = false →
    inst ∈ state.instList ∧ inst ∉ state.removeList
  removedListed : state.removeList ⊆ state.instList
  removedOnce : state.removeList.Nodup
  erasedOnce : state.erased.Nodup
  erasedBounded : ∀ inst ∈ state.erased, inst < state.nextSeqNum ∧ inst ∉ state.instList
  accounted : ∀ inst, 0 < inst → inst < state.nextSeqNum →
    inst ∈ state.erased ∨ inst ∈ state.instList

/-- What depends on the part of the cycle. -/
structure Timed (state : InstListState) : Prop where
  /-- While fetch reads its signals, only threads it has dealt with have lost
  instructions, and they have lost all that is in flight. -/
  signals : state.phase = .signals → ∀ inst ∈ state.removeList,
    state.checked (state.threadNumber inst) = true ∧
      ∀ other ∈ state.inFlight (state.threadNumber inst), state.squashed other = true
  /-- What decode can still resolve has been fetched after what has been removed. -/
  removedOlder : state.phase = .fetch ∨ state.phase = .decode → ∀ inst ∈ state.removeList,
    state.decodeInfo (state.threadNumber inst) = none →
    ∀ other ∈ state.inFlight (state.threadNumber inst), state.squashed other = false → inst < other
  cleared : state.phase = .fetch → ∀ tid, state.decodeInfo tid = none
  /-- Nothing behind a branch that decode has resolved is left for fetch to remove. -/
  decided : ∀ tid seqNum, state.decodeInfo tid = some seqNum → ∀ inst ∈ state.instList,
    state.threadNumber inst = tid → inst ∈ state.removeList ∨ inst ≤ seqNum

structure Inv (state : InstListState) : Prop extends Placed state, Timed state

theorem initial_inv : initial.Inv := by
  refine ⟨?_, ?_⟩ <;> constructor <;> simp [initial]
  intro inst
  omega

namespace Placed

theorem mem_instsNotInROB (inv : state.Placed) :
    inst ∈ state.instsNotInROB tid ↔ inst ∈ state.instList ∧ state.threadNumber inst = tid ∧
      ∀ older ∈ state.rob tid, older < inst :=
  InstListState.mem_instsNotInROB inv.listOrdered (pairwise_append.mp (inv.pipeOrdered tid)).1
    fun inst member => (inv.robListed tid inst member).1

theorem rob_lt_inFlight (inv : state.Placed) {older : Nat} (inRob : older ∈ state.rob tid)
    (flying : inst ∈ state.inFlight tid) : older < inst :=
  (pairwise_append.mp (inv.pipeOrdered tid)).2.2 older inRob inst flying

theorem squashInsts (inv : state.Placed) {victims : List Nat} (unique : victims.Nodup)
    (listed : ∀ inst ∈ victims, inst ∈ state.instList ∧ state.threadNumber inst = tid)
    (fresh : ∀ inst ∈ victims, inst ∉ state.removeList)
    (behind : ∀ inst ∈ victims, ∀ older ∈ state.rob tid, older < inst) :
    (state.squashInsts victims).Placed where
  listOrdered := inv.listOrdered
  listBounded := inv.listBounded
  pipeOrdered := inv.pipeOrdered
  pipeBounded := inv.pipeBounded
  robListed other inst member := by
    refine ⟨(inv.robListed other inst member).1, fun removed => ?_⟩
    rcases mem_append.mp removed with before | victim
    · exact (inv.robListed other inst member).2 before
    · have same := (inv.pipeBounded other inst (mem_append_left _ member)).2
      have thread := (listed inst victim).2
      exact Nat.lt_irrefl _ (behind inst victim inst (thread ▸ same ▸ member))
  flightListed other inst member alive := by
    simp only [InstListState.squashInsts, Bool.or_eq_false_iff] at alive
    obtain ⟨inside, kept⟩ := inv.flightListed other inst member alive.2
    refine ⟨inside, fun removed => ?_⟩
    rcases mem_append.mp removed with before | victim
    · exact kept before
    · simp [victim] at alive
  removedListed := append_subset.mpr ⟨inv.removedListed, fun inst victim =>
    (listed inst victim).1⟩
  removedOnce := nodup_append.mpr ⟨inv.removedOnce, unique, fun removed before victim new same =>
    fresh victim new (same ▸ before)⟩
  erasedOnce := inv.erasedOnce
  erasedBounded := inv.erasedBounded
  accounted := inv.accounted

end Placed

/-! ## One step -/

section

variable (inv : state.Inv)
include inv

theorem squashFromCommit_inv (phase : state.phase = .signals)
    (unchecked : state.checked tid = false) :
    ((state.squashInsts (state.instsNotInROB tid)).setChecked tid).Inv := by
  have members : ∀ {inst}, inst ∈ state.instsNotInROB tid ↔ inst ∈ state.instList ∧
      state.threadNumber inst = tid ∧ ∀ older ∈ state.rob tid, older < inst := inv.mem_instsNotInROB
  have placed := inv.toPlaced.squashInsts (instsNotInROB_nodup inv.listOrdered tid)
    (fun inst victim => ⟨(members.mp victim).1, (members.mp victim).2.1⟩)
    (fun inst victim removed => by
      have := (inv.signals phase inst removed).1
      rw [(members.mp victim).2.1] at this
      exact clash unchecked this)
    (fun inst victim => (members.mp victim).2.2)
  refine ⟨{ placed with }, {
    signals := fun _ inst removed => ?_
    removedOlder := fun which => ?_
    cleared := fun which => ?_
    decided := fun other seqNum found inst member same =>
      (inv.decided other seqNum found inst member same).imp_left (mem_append_left _) }⟩
  · rcases mem_append.mp removed with before | victim
    · obtain ⟨checked, gone⟩ := inv.signals phase inst before
      refine ⟨?_, fun other flying => ?_⟩
      · change update state.checked tid true (state.threadNumber inst) = true
        rw [update_apply]
        split
        · rfl
        · exact checked
      · change (_ || state.squashed other) = true
        rw [gone other flying, Bool.or_true]
    · have thread := (members.mp victim).2.1
      refine ⟨?_, fun other flying => ?_⟩
      · change update state.checked tid true (state.threadNumber inst) = true
        rw [thread, update_self]
      · have flying : other ∈ state.inFlight tid := thread ▸ flying
        change ((state.instsNotInROB tid).contains other || state.squashed other) = true
        cases alive : state.squashed other with
        | true => exact Bool.or_true _
        | false =>
          -- What is in flight and not squashed yet is behind the ROB.
          have found : other ∈ state.instsNotInROB tid := members.mpr
            ⟨(inv.flightListed tid other flying alive).1,
              (inv.pipeBounded tid other (mem_append_right _ flying)).2,
              fun older inRob => inv.rob_lt_inFlight inRob flying⟩
          simp [found]
  · exact absurd which (by simp [phase, setChecked, InstListState.squashInsts])
  · exact absurd which (by simp [phase, setChecked, InstListState.squashInsts])

/-- Fetch finds nothing to remove when it reads the squash of decode. -/
theorem squashFromDecode_empty (phase : state.phase = .signals)
    (unchecked : state.checked tid = false) {seqNum : Nat}
    (found : state.decodeInfo tid = some seqNum) : state.instsUntil seqNum tid = [] := by
  refine eq_nil_iff_forall_not_mem.mpr fun inst victim => ?_
  obtain ⟨member, thread, later⟩ := (mem_instsUntil inv.listOrdered seqNum).mp victim
  rcases inv.decided tid seqNum found inst member thread with removed | older
  · have := (inv.signals phase inst removed).1
    rw [thread] at this
    exact clash unchecked this
  · omega

theorem squashFromDecode_inv (phase : state.phase = .signals)
    (unchecked : state.checked tid = false) {seqNum : Nat}
    (found : state.decodeInfo tid = some seqNum) :
    ((state.squashInsts (state.instsUntil seqNum tid)).setChecked tid).Inv := by
  have same : state.squashInsts [] = state := by simp [InstListState.squashInsts]
  rw [squashFromDecode_empty inv phase unchecked found, same]
  refine ⟨{ inv.toPlaced with }, { inv.toTimed with signals := fun which inst removed => ?_ }⟩
  obtain ⟨checked, gone⟩ := inv.signals which inst removed
  refine ⟨?_, gone⟩
  change update state.checked tid true (state.threadNumber inst) = true
  rw [update_apply]
  split
  · rfl
  · exact checked

theorem startFetch_inv (phase : state.phase = .signals) :
    { state with phase := .fetch, decodeInfo := fun _ => none }.Inv :=
  ⟨{ inv.toPlaced with }, {
    signals := by simp
    removedOlder := fun _ inst removed _ other flying alive =>
      clash alive ((inv.signals phase inst removed).2 other flying)
    cleared := fun _ _ => rfl
    decided := by simp }⟩

theorem addInst_inv (phase : state.phase = .fetch) (tid : ThreadID) :
    { state with
      nextSeqNum := state.nextSeqNum + 1
      threadNumber := update state.threadNumber state.nextSeqNum tid
      squashed := update state.squashed state.nextSeqNum false
      instList := state.instList ++ [state.nextSeqNum]
      inFlight := update state.inFlight tid
        (state.inFlight tid ++ [state.nextSeqNum]) }.Inv := by
  have old : ∀ {inst}, inst < state.nextSeqNum →
      update state.threadNumber state.nextSeqNum tid inst = state.threadNumber inst ∧
      update state.squashed state.nextSeqNum false inst = state.squashed inst :=
    fun below => ⟨update_of_ne (Nat.ne_of_lt below) _ _, update_of_ne (Nat.ne_of_lt below) _ _⟩
  have flying : ∀ {other inst}, inst ∈ update state.inFlight tid
      (state.inFlight tid ++ [state.nextSeqNum]) other →
      inst ∈ state.inFlight other ∨ other = tid ∧ inst = state.nextSeqNum := by
    intro other inst member
    rw [update_apply] at member
    split at member
    · next same =>
      subst same
      exact (mem_append.mp member).imp_right fun last => ⟨rfl, mem_singleton.mp last⟩
    · exact .inl member
  have removed : ∀ {inst}, inst ∈ state.removeList → inst < state.nextSeqNum :=
    fun member => inv.listBounded _ (inv.removedListed member)
  refine ⟨{
    listOrdered := pairwise_append.mpr ⟨inv.listOrdered, pairwise_singleton _ _,
      fun older inside newer last => mem_singleton.mp last ▸ inv.listBounded older inside⟩
    listBounded := fun inst member => ?_
    pipeOrdered := fun other => ?_
    pipeBounded := fun other inst member => ?_
    robListed := fun other inst member => ⟨mem_append_left _ (inv.robListed other inst member).1,
      (inv.robListed other inst member).2⟩
    flightListed := fun other inst member alive => ?_
    removedListed := fun inst member => mem_append_left _ (inv.removedListed member)
    removedOnce := inv.removedOnce
    erasedOnce := inv.erasedOnce
    erasedBounded := fun inst member => ⟨Nat.lt_succ_of_lt (inv.erasedBounded inst member).1, ?_⟩
    accounted := fun inst positive below => ?_ }, {
    signals := fun which => absurd (phase.symm.trans which) (by decide)
    removedOlder := fun which inst member _ other member' alive => ?_
    cleared := inv.cleared
    decided := fun other seqNum found => ?_ }⟩
  · rcases mem_append.mp member with before | last
    · exact Nat.lt_succ_of_lt (inv.listBounded inst before)
    · exact mem_singleton.mp last ▸ Nat.lt_succ_self _
  · change (state.rob other ++ update state.inFlight tid
      (state.inFlight tid ++ [state.nextSeqNum]) other).Pairwise (· < ·)
    rw [update_apply]
    split
    · next same =>
      subst same
      rw [← append_assoc]
      exact pairwise_append.mpr ⟨inv.pipeOrdered other, pairwise_singleton _ _,
        fun older inside newer last =>
          mem_singleton.mp last ▸ (inv.pipeBounded other older inside).1⟩
    · exact inv.pipeOrdered other
  · rcases mem_append.mp member with inRob | member
    · obtain ⟨below, thread⟩ := inv.pipeBounded other inst (mem_append_left _ inRob)
      exact ⟨Nat.lt_succ_of_lt below, (old below).1.trans thread⟩
    · rcases flying member with before | ⟨rfl, rfl⟩
      · obtain ⟨below, thread⟩ := inv.pipeBounded other inst (mem_append_right _ before)
        exact ⟨Nat.lt_succ_of_lt below, (old below).1.trans thread⟩
      · exact ⟨Nat.lt_succ_self _, update_self _ _ _⟩
  · rcases flying member with before | ⟨rfl, rfl⟩
    · have below := (inv.pipeBounded other inst (mem_append_right _ before)).1
      obtain ⟨inside, kept⟩ := inv.flightListed other inst before ((old below).2.symm.trans alive)
      exact ⟨mem_append_left _ inside, kept⟩
    · exact ⟨mem_append_right _ (mem_singleton.mpr rfl),
        fun member => Nat.lt_irrefl _ (removed member)⟩
  · intro listed
    rcases mem_append.mp listed with before | last
    · exact (inv.erasedBounded inst member).2 before
    · exact absurd (inv.erasedBounded inst member).1 (by simp [mem_singleton.mp last])
  · rcases Nat.lt_succ_iff_lt_or_eq.mp below with below | rfl
    · exact (inv.accounted inst positive below).imp_right (mem_append_left _)
    · exact .inr (mem_append_right _ (mem_singleton.mpr rfl))
  · have below := removed member
    have thread := (old below).1
    have member' : other ∈ update state.inFlight tid
      (state.inFlight tid ++ [state.nextSeqNum]) (state.threadNumber inst) := thread ▸ member'
    rcases flying member' with before | ⟨_, rfl⟩
    · have bounded := (inv.pipeBounded _ other (mem_append_right _ before)).1
      exact inv.removedOlder (.inl phase) inst member (inv.cleared phase _) other before
        ((old bounded).2.symm.trans alive)
    · exact below
  · exact absurd ((inv.cleared phase other).symm.trans found) (by simp)

theorem decodeSquash_inv (phase : state.phase = .decode)
    (flying : inst ∈ state.inFlight tid) (alive : state.squashed inst = false)
    (undecided : state.decodeInfo tid = none) :
    { state.squashInsts (state.instsUntil inst tid) with
      decodeInfo := update state.decodeInfo tid (some inst) }.Inv := by
  have members : ∀ {victim}, victim ∈ state.instsUntil inst tid ↔ victim ∈ state.instList ∧
      state.threadNumber victim = tid ∧ inst < victim := mem_instsUntil inv.listOrdered inst
  have placed := inv.toPlaced.squashInsts (instsUntil_nodup inv.listOrdered inst tid)
    (fun victim member => ⟨(members.mp member).1, (members.mp member).2.1⟩)
    (fun victim member removed => by
      obtain ⟨_, thread, later⟩ := members.mp member
      have := inv.removedOlder (.inr phase) victim removed (thread ▸ undecided) inst
        (thread ▸ flying) alive
      omega)
    (fun victim member older inRob =>
      Nat.lt_trans (inv.rob_lt_inFlight inRob flying) (members.mp member).2.2)
  refine ⟨{ placed with }, {
    signals := fun which => absurd (phase.symm.trans which) (by decide)
    removedOlder := fun _ removed member open_ other flies survives => ?_
    cleared := fun which => absurd (phase.symm.trans which) (by decide)
    decided := fun other seqNum found listed member thread => ?_ }⟩
  · change update state.decodeInfo tid (some inst) (state.threadNumber removed) = none at open_
    rw [update_apply] at open_
    split at open_
    · cases open_
    · next different =>
      rcases mem_append.mp member with before | victim
      · exact inv.removedOlder (.inr phase) removed before open_ other flies
          (Bool.or_eq_false_iff.mp survives).2
      · exact absurd (members.mp victim).2.1 different
  · change update state.decodeInfo tid (some inst) other = some seqNum at found
    rw [update_apply] at found
    split at found
    · next same =>
      cases found
      by_cases later : inst < listed
      · exact .inl (mem_append_right _ (members.mpr ⟨member, thread.trans same, later⟩))
      · exact .inr (Nat.le_of_not_lt later)
    · exact (inv.decided other seqNum found listed member thread).imp_left (mem_append_left _)

/-- An instruction leaves the queue of its thread, or moves from there to the ROB. -/
theorem leave_inv (tid : Nat) (squashed : Nat → Bool) {rob inFlight : List Nat}
    (remaining : (rob ++ inFlight).Sublist (state.rob tid ++ state.inFlight tid))
    (queued : ∀ inst ∈ inFlight, inst ∈ state.inFlight tid)
    (inserted : ∀ inst ∈ rob, inst ∈ state.rob tid ∨
      inst ∈ state.inFlight tid ∧ state.squashed inst = false)
    (marks : ∀ inst, state.squashed inst = true → squashed inst = true) :
    { state with
      squashed := squashed
      rob := update state.rob tid rob
      inFlight := update state.inFlight tid inFlight }.Inv := by
  have before : ∀ {inst}, squashed inst = false → state.squashed inst = false := by
    intro inst alive
    by_contra marked
    exact clash alive (marks inst (Bool.of_not_eq_false marked))
  have flies : ∀ {other inst}, inst ∈ update state.inFlight tid inFlight other →
      inst ∈ state.inFlight other := by
    intro other inst member
    rw [update_apply] at member
    split at member
    · next same => exact same ▸ queued inst member
    · exact member
  refine ⟨{ inv.toPlaced with
    pipeOrdered := fun other => ?_
    pipeBounded := fun other inst member => ?_
    robListed := fun other inst member => ?_
    flightListed := fun other inst member alive =>
      inv.flightListed other inst (flies member) (before alive) }, { inv.toTimed with
    signals := fun which inst removed => ⟨(inv.signals which inst removed).1, fun other member =>
      marks other ((inv.signals which inst removed).2 other (flies member))⟩
    removedOlder := fun which inst removed open_ other member alive =>
      inv.removedOlder which inst removed open_ other (flies member) (before alive) }⟩
  · change (update state.rob tid rob other ++
      update state.inFlight tid inFlight other).Pairwise (· < ·)
    simp only [update_apply]
    split
    · exact (inv.pipeOrdered tid).sublist remaining
    · exact inv.pipeOrdered other
  · change inst ∈ update state.rob tid rob other ++
      update state.inFlight tid inFlight other at member
    simp only [update_apply] at member
    split at member
    · next same => exact same ▸ inv.pipeBounded tid inst (remaining.subset member)
    · exact inv.pipeBounded other inst member
  · change inst ∈ update state.rob tid rob other at member
    rw [update_apply] at member
    split at member
    · rcases inserted inst member with inRob | ⟨flying, alive⟩
      · exact inv.robListed tid inst inRob
      · exact inv.flightListed tid inst flying alive
    · exact inv.robListed other inst member

theorem retireHead_inv {head : Nat} {rest : List Nat}
    (phase : state.phase = .commit) (atHead : state.rob tid = head :: rest) :
    { state with
      rob := update state.rob tid rest
      removeList := state.removeList ++ [head] }.Inv := by
  have inRob : head ∈ state.rob tid := by simp [atHead]
  obtain ⟨listed, kept⟩ := inv.robListed tid head inRob
  have ordered := inv.pipeOrdered tid
  rw [atHead, cons_append] at ordered
  have behind := (pairwise_cons.mp ordered).1
  have sub : ∀ {other inst}, inst ∈ update state.rob tid rest other →
      inst ∈ state.rob other ∧ inst ≠ head := by
    intro other inst member
    rw [update_apply] at member
    split at member
    · next same =>
      subst same
      exact ⟨by simp [atHead, member], Nat.ne_of_gt (behind inst (mem_append_left _ member))⟩
    · next different =>
      refine ⟨member, fun same => different ?_⟩
      rw [← (inv.pipeBounded other inst (mem_append_left _ member)).2, same]
      exact (inv.pipeBounded tid head (mem_append_left _ inRob)).2
  refine ⟨{ inv.toPlaced with
    pipeOrdered := fun other => ?_
    pipeBounded := fun other inst member => inv.pipeBounded other inst ?_
    robListed := fun other inst member => ?_
    flightListed := fun other inst member alive => ?_
    removedListed := append_subset.mpr ⟨inv.removedListed, by simpa using listed⟩
    removedOnce := nodup_append.mpr ⟨inv.removedOnce, pairwise_singleton _ _,
      fun removed before last here same =>
        kept (mem_singleton.mp here ▸ same ▸ before)⟩ }, {
    signals := fun which => absurd (phase.symm.trans which) (by decide)
    removedOlder := fun which => absurd which (by simp [phase])
    cleared := fun which => absurd (phase.symm.trans which) (by decide)
    decided := fun other seqNum found inst member thread =>
      (inv.decided other seqNum found inst member thread).imp_left (mem_append_left _) }⟩
  · change (update state.rob tid rest other ++ state.inFlight other).Pairwise (· < ·)
    rw [update_apply]
    split
    · next same => exact same ▸ (pairwise_cons.mp ordered).2
    · exact inv.pipeOrdered other
  · exact (mem_append.mp member).elim (fun inRob => mem_append_left _ (sub inRob).1)
      (mem_append_right _)
  · obtain ⟨before, different⟩ := sub member
    refine ⟨(inv.robListed other inst before).1, fun removed => ?_⟩
    exact (mem_append.mp removed).elim (inv.robListed other inst before).2 fun last =>
      different (mem_singleton.mp last)
  · refine ⟨(inv.flightListed other inst member alive).1, fun removed => ?_⟩
    rcases mem_append.mp removed with before | last
    · exact (inv.flightListed other inst member alive).2 before
    · -- The head belongs to one thread and is older than all that is in flight there.
      have thread := (inv.pipeBounded other inst (mem_append_right _ member)).2
      rw [mem_singleton.mp last, (inv.pipeBounded tid head (mem_append_left _ inRob)).2] at thread
      subst thread
      have := behind inst (mem_append_right _ member)
      simp [mem_singleton.mp last] at this

end

/-- Erasing the positions one by one leaves what is not to be removed. -/
theorem mem_cleanUpRemovedInsts (inv : state.Placed) :
    inst ∈ state.cleanUpRemovedInsts.instList ↔
      inst ∈ state.instList ∧ inst ∉ state.removeList := by
  change inst ∈ state.removeList.foldl List.erase state.instList ↔ _
  rw [← diff_eq_foldl]
  exact List.Nodup.mem_sdiff_iff (inv.listOrdered.imp fun less => Nat.ne_of_lt less)

theorem endCycle_inv (inv : state.Inv) :
    { state.cleanUpRemovedInsts with phase := .signals, checked := fun _ => false }.Inv := by
  have members : ∀ inst, inst ∈ state.cleanUpRemovedInsts.instList ↔ _ :=
    fun inst => mem_cleanUpRemovedInsts inv.toPlaced
  have sub : state.cleanUpRemovedInsts.instList.Sublist state.instList := by
    change (state.removeList.foldl List.erase state.instList).Sublist _
    rw [← diff_eq_foldl]
    exact diff_sublist _ _
  refine ⟨{
    listOrdered := inv.listOrdered.sublist sub
    listBounded := fun inst member => inv.listBounded inst (sub.subset member)
    pipeOrdered := inv.pipeOrdered
    pipeBounded := inv.pipeBounded
    robListed := fun tid inst member => ⟨(members inst).mpr (inv.robListed tid inst member),
      (by rintro ⟨⟩)⟩
    flightListed := fun tid inst member alive =>
      ⟨(members inst).mpr (inv.flightListed tid inst member alive), (by rintro ⟨⟩)⟩
    removedListed := by rintro _ ⟨⟩
    removedOnce := .nil
    erasedOnce := nodup_append.mpr ⟨inv.erasedOnce, inv.removedOnce,
      fun erased before removed new same =>
        (inv.erasedBounded erased before).2 (same ▸ inv.removedListed new)⟩
    erasedBounded := fun inst member => ?_
    accounted := fun inst positive below => ?_ }, {
    signals := by rintro _ _ ⟨⟩
    removedOlder := fun which => absurd which (by simp)
    cleared := by simp
    decided := fun tid seqNum found inst member thread => ?_ }⟩
  · rcases mem_append.mp member with before | removed
    · exact ⟨(inv.erasedBounded inst before).1, fun still =>
        (inv.erasedBounded inst before).2 (sub.subset still)⟩
    · exact ⟨inv.listBounded inst (inv.removedListed removed), fun still =>
        ((members inst).mp still).2 removed⟩
  · rcases inv.accounted inst positive below with before | listed
    · exact .inl (mem_append_left _ before)
    · by_cases removed : inst ∈ state.removeList
      · exact .inl (mem_append_right _ removed)
      · exact .inr ((members inst).mpr ⟨listed, removed⟩)
  · obtain ⟨listed, kept⟩ := (members inst).mp member
    exact .inr ((inv.decided tid seqNum found inst listed thread).resolve_left kept)

theorem step_inv {event : ListEvent} (inv : state.Inv) (stepped : state.step event = some next) :
    next.Inv := by
  cases event with
  | squashFromCommit tid =>
    obtain ⟨possible, stepped⟩ := Option.ite_none_right_eq_some.mp stepped
    simp only [Bool.and_eq_true, decide_eq_true_eq, Bool.not_eq_true'] at possible
    cases stepped
    exact squashFromCommit_inv inv possible.1 possible.2
  | squashFromDecode tid =>
    simp only [step] at stepped
    split at stepped
    · cases stepped
    · next seqNum found =>
      obtain ⟨possible, stepped⟩ := Option.ite_none_right_eq_some.mp stepped
      simp only [Bool.and_eq_true, decide_eq_true_eq, Bool.not_eq_true'] at possible
      cases stepped
      exact squashFromDecode_inv inv possible.1 possible.2 found
  | startFetch =>
    obtain ⟨phase, rfl⟩ := fired stepped
    exact startFetch_inv inv phase
  | addInst tid =>
    obtain ⟨phase, rfl⟩ := fired stepped
    exact addInst_inv inv phase tid
  | startDecode =>
    obtain ⟨phase, rfl⟩ := fired stepped
    exact ⟨{ inv.toPlaced with }, { inv.toTimed with
      signals := by simp
      removedOlder := fun _ => inv.removedOlder (.inl phase)
      cleared := by simp }⟩
  | decodeSquash tid inst =>
    obtain ⟨possible, stepped⟩ := Option.ite_none_right_eq_some.mp stepped
    simp only [Bool.and_eq_true, decide_eq_true_eq, Bool.not_eq_true', contains_iff_mem,
      Option.isNone_iff_eq_none] at possible
    cases stepped
    exact decodeSquash_inv inv possible.1.1.1 possible.1.1.2 possible.1.2 possible.2
  | startCommit =>
    obtain ⟨phase, rfl⟩ := fired stepped
    exact ⟨{ inv.toPlaced with }, { inv.toTimed with
      signals := by simp
      removedOlder := fun which => absurd which (by simp)
      cleared := by simp }⟩
  | dropInst tid inst =>
    obtain ⟨_, rfl⟩ := fired stepped
    have left := leave_inv inv tid state.squashed
      ((erase_sublist (a := inst)).append_left (state.rob tid))
      (fun other member => mem_of_mem_erase member) (fun other => .inl) fun _ => id
    rwa [update_eq_self] at left
  | getInst tid accepts =>
    simp only [step] at stepped
    split at stepped
    · cases stepped
    · next inst rest front =>
      obtain ⟨_, rfl⟩ := fired stepped
      have queued : ∀ other ∈ rest, other ∈ state.inFlight tid :=
        fun other member => front ▸ mem_cons_of_mem _ member
      split
      · next wanted =>
        simp only [Bool.and_eq_true, Bool.not_eq_true'] at wanted
        refine leave_inv inv tid state.squashed ?_ queued (fun other member => ?_) fun _ => id
        · rw [front, append_assoc, singleton_append]
        · refine (mem_append.mp member).imp_right fun last => ?_
          rw [mem_singleton.mp last]
          exact ⟨front ▸ mem_cons_self, wanted.1⟩
      · have left := leave_inv inv tid state.squashed
          (front ▸ (sublist_cons_self inst rest).append_left (state.rob tid)) queued
          (fun other => .inl) fun _ => id
        rwa [update_eq_self] at left
  | squashInRob tid inst =>
    obtain ⟨_, rfl⟩ := fired stepped
    have left := leave_inv inv tid (update state.squashed inst true)
      (.refl _) (fun _ => id) (fun _ => .inl) fun other marked => by
        rw [update_apply]
        split
        · rfl
        · exact marked
    rwa [update_eq_self, update_eq_self] at left
  | retireHead tid =>
    simp only [step] at stepped
    split at stepped
    · cases stepped
    · next head rest atHead =>
      obtain ⟨phase, rfl⟩ := fired stepped
      exact retireHead_inv inv phase atHead
  | endCycle =>
    obtain ⟨_, rfl⟩ := fired stepped
    exact endCycle_inv inv

theorem reachable_inv (reached : Reaches step anyEvent initial state) : state.Inv :=
  reached.invariant initial_inv fun inv _ stepped => step_inv inv stepped

/-- In every run the list is in program order and has all of the ROBs, no
position is pushed twice onto `removeList` or erased twice, every instruction
fetched so far is listed or erased exactly once, and `removeInstsNotInROB`
removes what the thread has behind its ROB tail. -/
theorem inst_list_consistent (reached : Reaches step anyEvent initial state) :
    state.instList.Pairwise (· < ·) ∧
    (∀ tid, ∀ inst ∈ state.rob tid, inst ∈ state.instList ∧ state.threadNumber inst = tid) ∧
    state.removeList ⊆ state.instList ∧
    (state.erased ++ state.removeList).Nodup ∧
    (∀ inst, 0 < inst → inst < state.nextSeqNum → (state.erased ++ state.instList).count inst = 1) ∧
    (∀ inst, inst ∈ state.cleanUpRemovedInsts.instList ↔
      inst ∈ state.instList ∧ inst ∉ state.removeList) ∧
    ∀ tid inst, inst ∈ state.instsNotInROB tid ↔ inst ∈ state.instList ∧
      state.threadNumber inst = tid ∧ ∀ older ∈ state.rob tid, older < inst := by
  have inv := reachable_inv reached
  have apart : ∀ erased ∈ state.erased, ∀ listed ∈ state.instList, erased ≠ listed :=
    fun erased before listed member same => (inv.erasedBounded erased before).2 (same ▸ member)
  have listedOnce : state.instList.Nodup := inv.listOrdered.imp fun less => Nat.ne_of_lt less
  refine ⟨inv.listOrdered, fun tid inst member => ⟨(inv.robListed tid inst member).1,
    (inv.pipeBounded tid inst (mem_append_left _ member)).2⟩, inv.removedListed,
    nodup_append.mpr ⟨inv.erasedOnce, inv.removedOnce, fun erased before removed new =>
      apart erased before removed (inv.removedListed new)⟩, fun inst positive below => ?_,
    fun inst => mem_cleanUpRemovedInsts inv.toPlaced, fun tid inst => inv.mem_instsNotInROB⟩
  exact count_eq_one_of_mem (nodup_append.mpr ⟨inv.erasedOnce, listedOnce, apart⟩)
    (mem_append.mpr (inv.accounted inst positive below))

/-- Two threads; a cycle with a retirement, a squash of commit and a squash of decode. -/
theorem inst_list_consistent_threads :
    ∃ state, Reaches step anyEvent initial state ∧ state.removeList.length = 4 ∧
      (state.erased ++ state.removeList).Nodup := by
  obtain ⟨state, reached, observed⟩ := reaches_of_observed step anyEvent initial
    [.startFetch, .addInst 0, .addInst 1, .addInst 0, .addInst 0, .startDecode, .startCommit,
      .getInst 0 true, .getInst 1 true, .endCycle, .squashFromCommit 0, .startFetch, .addInst 1,
      .addInst 1, .startDecode, .decodeSquash 1 5, .startCommit, .retireHead 1]
    (fun state => state.removeList.length == 4) (by decide +kernel)
  exact ⟨state, reached, by simpa using observed, (inst_list_consistent reached).2.2.2.1⟩

end InstListState

end Runahead.O3
