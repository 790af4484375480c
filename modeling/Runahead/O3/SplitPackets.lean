import Runahead.Library.Transition
import Runahead.O3.SplitRequest
import Mathlib.Data.List.Nodup
import Mathlib.Data.List.TakeWhile
import Mathlib.Data.List.Perm.Subperm

/-!
# The packets of a split access

The packet to send next is found from two counters, the packets that were answered and
those that are under way. Replies come in any order and also between the packets that a
blocked cache has refused. A reply only ever comes for a packet that was sent and has not
been answered.
-/

set_option autoImplicit false

namespace Runahead.O3.Lsq

open Library List

/-! ## The model -/

/-- The counters and flags of a `SplitDataRequest`, with the packets sent and answered and
the number of calls of `completeDataAccess`. -/
structure SplitPackets where
  numReceivedPackets : Nat := 0
  numOutstandingPackets : Nat := 0
  isSent : Bool := false
  isRetry : Bool := false
  isComplete : Bool := false
  sent : List Nat := []
  answered : List Nat := []
  completions : Nat := 0
  deriving DecidableEq, Repr

inductive PacketEvent where
  /-- A call of `sendPacketToCache` for which the cache takes so many packets. -/
  | send (accepts : Nat)
  | reply (packet : Nat)
  deriving DecidableEq, Repr

namespace SplitPackets

variable (state : SplitPackets)

def packetSent : SplitPackets := { state with isSent := true }

def packetNotSent : SplitPackets :=
  { state with isSent := false, isRetry := true }

def nextPacket : Nat :=
  state.numReceivedPackets + state.numOutstandingPackets

def sendPacket : SplitPackets :=
  { state.packetSent with
    numOutstandingPackets := state.numOutstandingPackets + 1
    sent := state.sent ++ [state.nextPacket] }

variable {state}

def sendPacketToCache (size : Nat) : Nat → SplitPackets → SplitPackets
  | accepts, state =>
    if state.nextPacket < size then
      match accepts with
      | 0 => state.packetNotSent
      | accepts + 1 => sendPacketToCache size accepts state.sendPacket
    else state

def recvTimingResp (size packet : Nat) (state : SplitPackets) : Option SplitPackets :=
  if packet < size then
    let received := { state with
      numReceivedPackets := state.numReceivedPackets + 1
      answered := packet :: state.answered }
    if received.numReceivedPackets = size then
      some { received with isComplete := true, completions := received.completions + 1 }
    else some received
  else none

/-- `packetReplied` of a request that has not been released. -/
def packetReplied (state : SplitPackets) : Option SplitPackets :=
  if 0 < state.numOutstandingPackets then
    some { state with numOutstandingPackets := state.numOutstandingPackets - 1 }
  else none

def step (size : Nat) (state : SplitPackets) : PacketEvent → Option SplitPackets
  | .send accepts => some (sendPacketToCache size accepts state)
  | .reply packet => (state.recvTimingResp size packet).bind packetReplied

/-- The memory system answers a packet that it took, and only once. -/
def answersOnce (state : SplitPackets) : PacketEvent → Bool
  | .send _ => true
  | .reply packet => packet ∈ state.sent ∧ packet ∉ state.answered

/-! ## The counters -/

structure Counts (size : Nat) (state : SplitPackets) : Prop where
  sent_eq : state.sent = List.range state.nextPacket
  bound : state.nextPacket ≤ size
  answered_sent : ∀ packet ∈ state.answered, packet < state.nextPacket
  answered_once : state.answered.Nodup
  answered_length : state.answered.length = state.numReceivedPackets
  complete_iff : state.isComplete = true ↔ state.numReceivedPackets = size
  completions_eq : state.completions = if state.isComplete then 1 else 0

structure Inv (size : Nat) (state : SplitPackets) : Prop extends Counts size state where
  isSent_iff : state.isSent = true ↔ state.nextPacket = size

variable {size : Nat} {state final : SplitPackets}

theorem Inv.initial (positive : 0 < size) : Inv size {} where
  sent_eq := rfl
  bound := Nat.zero_le size
  answered_sent := by
    intro packet member
    cases member
  answered_once := nodup_nil
  answered_length := rfl
  complete_iff := iff_of_false Bool.false_ne_true (Nat.ne_of_lt positive)
  completions_eq := rfl
  isSent_iff := iff_of_false Bool.false_ne_true (Nat.ne_of_lt positive)

theorem nextPacket_sendPacket (state : SplitPackets) :
    state.sendPacket.nextPacket = state.nextPacket + 1 := rfl

theorem Counts.sendPacket (counts : Counts size state) (more : state.nextPacket < size) :
    Counts size state.sendPacket where
  sent_eq := by
    rw [nextPacket_sendPacket, range_succ, ← counts.sent_eq]
    rfl
  bound := more
  answered_sent := by
    intro packet member
    exact Nat.lt_succ_of_lt (counts.answered_sent packet member)
  answered_once := counts.answered_once
  answered_length := counts.answered_length
  complete_iff := counts.complete_iff
  completions_eq := counts.completions_eq

theorem Inv.sendPacketToCache {accepts : Nat} (counts : Counts size state)
    (flagged : state.nextPacket = size → state.isSent = true) :
    Inv size (sendPacketToCache size accepts state) := by
  induction accepts generalizing state with
  | zero =>
    unfold SplitPackets.sendPacketToCache
    split
    · next more =>
      exact { counts with
        isSent_iff := iff_of_false Bool.false_ne_true (Nat.ne_of_lt more) }
    · next all =>
      have ended : state.nextPacket = size :=
        Nat.le_antisymm counts.bound (Nat.le_of_not_lt all)
      exact { counts with isSent_iff := iff_of_true (flagged ended) ended }
  | succ accepts ih =>
    unfold SplitPackets.sendPacketToCache
    split
    · next more => exact ih (counts.sendPacket more) (fun _ => rfl)
    · next all =>
      have ended : state.nextPacket = size :=
        Nat.le_antisymm counts.bound (Nat.le_of_not_lt all)
      exact { counts with isSent_iff := iff_of_true (flagged ended) ended }

variable {packet : Nat}

theorem Counts.outstanding_pos (counts : Counts size state)
    (sent : packet ∈ state.sent) (unanswered : packet ∉ state.answered) :
    0 < state.numOutstandingPackets := by
  rw [counts.sent_eq] at sent
  have distinct : (packet :: state.answered).Nodup :=
    nodup_cons.mpr ⟨unanswered, counts.answered_once⟩
  have inside : packet :: state.answered ⊆ List.range state.nextPacket := by
    intro other member
    rcases mem_cons.mp member with rfl | member
    · exact sent
    · exact mem_range.mpr (counts.answered_sent other member)
  have fewer := (distinct.subperm inside).length_le
  rw [length_cons, length_range, counts.answered_length] at fewer
  unfold nextPacket at fewer
  omega

def replied (size packet : Nat) (state : SplitPackets) : SplitPackets :=
  { state with
    numReceivedPackets := state.numReceivedPackets + 1
    numOutstandingPackets := state.numOutstandingPackets - 1
    answered := packet :: state.answered
    isComplete := state.isComplete || decide (state.numReceivedPackets + 1 = size)
    completions := state.completions + if state.numReceivedPackets + 1 = size then 1 else 0 }

theorem Counts.step_reply (counts : Counts size state)
    (sent : packet ∈ state.sent) (unanswered : packet ∉ state.answered) :
    step size state (.reply packet) = some (replied size packet state) := by
  have outstanding := counts.outstanding_pos sent unanswered
  rw [counts.sent_eq] at sent
  have inside := Nat.lt_of_lt_of_le (mem_range.mp sent) counts.bound
  change (state.recvTimingResp size packet).bind packetReplied = _
  unfold recvTimingResp replied
  rw [if_pos inside]
  by_cases last : state.numReceivedPackets + 1 = size
  · simp [last, packetReplied, outstanding]
  · simp [last, packetReplied, outstanding]

theorem nextPacket_replied (outstanding : 0 < state.numOutstandingPackets) :
    (replied size packet state).nextPacket = state.nextPacket := by
  unfold nextPacket replied
  change state.numReceivedPackets + 1 + (state.numOutstandingPackets - 1) = _
  omega

theorem Inv.replied (inv : Inv size state) (sent : packet ∈ state.sent)
    (unanswered : packet ∉ state.answered) : Inv size (replied size packet state) := by
  have outstanding := inv.outstanding_pos sent unanswered
  have same : (SplitPackets.replied size packet state).nextPacket = state.nextPacket :=
    nextPacket_replied outstanding
  have bound := inv.bound
  -- Before this reply the access was not complete.
  have before : state.isComplete = false := by
    refine Bool.eq_false_iff.mpr fun complete => ?_
    have all := inv.complete_iff.mp complete
    unfold nextPacket at bound
    omega
  have counted := inv.completions_eq
  refine { sent_eq := ?_, bound := ?_, answered_sent := ?_, answered_once := ?_,
           answered_length := ?_, complete_iff := ?_, completions_eq := ?_, isSent_iff := ?_ }
  · rw [same]
    exact inv.sent_eq
  · rw [same]
    exact inv.bound
  · intro other member
    rw [same]
    rcases mem_cons.mp member with rfl | member
    · rw [inv.sent_eq] at sent
      exact mem_range.mp sent
    · exact inv.answered_sent other member
  · exact nodup_cons.mpr ⟨unanswered, inv.answered_once⟩
  · exact congrArg (· + 1) inv.answered_length
  · unfold SplitPackets.replied
    simp only [before, Bool.false_or, decide_eq_true_eq]
  · unfold SplitPackets.replied
    simp [before, counted]
  · rw [same]
    exact inv.isSent_iff

theorem reachable_inv (positive : 0 < size)
    (reached : Reaches (step size) answersOnce {} state) : Inv size state := by
  refine reached.invariant (Inv.initial positive) ?_
  intro middle final event inv admitted stepped
  cases event with
  | send accepts =>
    cases stepped
    exact Inv.sendPacketToCache inv.toCounts inv.isSent_iff.mpr
  | reply packet =>
    obtain ⟨sent, unanswered⟩ := of_decide_eq_true admitted
    rw [inv.step_reply sent unanswered] at stepped
    cases stepped
    exact inv.replied sent unanswered

theorem Counts.complete_iff_answered (counts : Counts size state) :
    state.isComplete = true ↔ ∀ packet < size, packet ∈ state.answered := by
  have inside : state.answered ⊆ List.range size := by
    intro packet member
    exact mem_range.mpr (Nat.lt_of_lt_of_le (counts.answered_sent packet member) counts.bound)
  have few := counts.answered_once.subperm inside
  rw [counts.complete_iff, ← counts.answered_length]
  constructor
  · intro all packet below
    have permuted := few.perm_of_length_le (by rw [length_range, all])
    exact permuted.mem_iff.mpr (mem_range.mpr below)
  · intro all
    have many : (List.range size).Subperm state.answered :=
      nodup_range.subperm fun packet member => all packet (mem_range.mp member)
    have upper := few.length_le
    have lower := many.length_le
    rw [length_range] at upper lower
    exact Nat.le_antisymm upper lower

end SplitPackets

/-! ## The whole access -/

namespace SplitAccess

variable {access : SplitAccess} {fault : List Bool}

theorem buildPackets_requests {requests : List Fragment} (sized : fault.length = requests.length) :
    (access.buildPackets requests fault).map Packet.request <+: requests := by
  have shorter : (requests.zip fault).takeWhile (!·.2) <+: requests.zip fault :=
    List.takeWhile_prefix _
  have mapped := shorter.map Prod.fst
  rw [map_fst_zip (Nat.le_of_eq sized.symm)] at mapped
  unfold buildPackets
  rw [map_map]
  exact mapped

theorem buildPackets_of_noFault {requests : List Fragment}
    (sized : fault.length = requests.length) (noFault : ∀ flag ∈ fault, flag = false) :
    (access.buildPackets requests fault).map Packet.request = requests := by
  have all : (requests.zip fault).takeWhile (!·.2) = requests.zip fault := by
    refine takeWhile_eq_self_iff.mpr ?_
    intro entry member
    rw [noFault entry.2 (of_mem_zip member).2]
    rfl
  unfold buildPackets
  rw [all, map_map]
  exact map_fst_zip (Nat.le_of_eq sized.symm)

/-- The packets of a request are at its distance from the start of the access. -/
structure IsPacketOf (access : SplitAccess) (requests : List Fragment) (packet : Packet) :
    Prop where
  requested : packet.request ∈ requests
  pointer : access.addr + BitVec.ofNat 64 packet.offset = packet.request.vaddr
  inside : packet.offset + packet.request.size ≤ access.size

theorem buildPackets_isPacketOf {packet : Packet} (sized : fault.length = access.requests.length)
    (member : packet ∈ access.buildPackets access.requests fault) :
    access.IsPacketOf access.requests packet := by
  have requested : packet.request ∈ access.requests :=
    (buildPackets_requests sized).subset (mem_map_of_mem member)
  have distance : packet.offset = access.offset packet.request := by
    obtain ⟨entry, -, rfl⟩ := mem_map.mp member
    rfl
  obtain ⟨index, part⟩ := access.exists_part requested
  refine ⟨requested, ?_, ?_⟩
  · rw [distance, part.vaddr, BitVec.ofNat_add, BitVec.ofNat_toNat, BitVec.setWidth_eq]
  · rw [distance]
    exact part.inside_access

/-- What holds of the packets of an access after any replies and retries. -/
structure PacketsSettled (size : Nat) (state : SplitPackets) : Prop where
  sent_once : state.sent.Nodup
  sent_inside : ∀ packet ∈ state.sent, packet < size
  sent_iff : state.isSent = true ↔ ∀ packet < size, packet ∈ state.sent
  complete_iff : state.isComplete = true ↔ ∀ packet < size, packet ∈ state.answered
  completed_once : state.completions = if state.isComplete then 1 else 0
  answers : ∀ packet ∈ state.sent, packet ∉ state.answered →
    (SplitPackets.step size state (.reply packet)).isSome = true

theorem packetsSettled_of_inv {size : Nat} {state : SplitPackets}
    (inv : SplitPackets.Inv size state) : PacketsSettled size state where
  sent_once := by
    rw [inv.sent_eq]
    exact nodup_range
  sent_inside := by
    intro packet member
    rw [inv.sent_eq] at member
    exact Nat.lt_of_lt_of_le (mem_range.mp member) inv.bound
  sent_iff := by
    rw [inv.isSent_iff, inv.sent_eq]
    have bound := inv.bound
    constructor
    · intro all packet below
      exact mem_range.mpr (all ▸ below)
    · intro all
      refine Nat.le_antisymm bound (Nat.le_of_not_lt fun fewer => ?_)
      exact Nat.lt_irrefl _ (mem_range.mp (all _ fewer))
  complete_iff := inv.complete_iff_answered
  completed_once := inv.completions_eq
  answers := by
    intro packet sent unanswered
    rw [inv.step_reply sent unanswered]
    rfl

/-- Every access that crosses a line is cut into requests, each in one line, disjoint and in
order from its start on, which cover the lines with an enabled byte. Its packets point at
their requests' data, each is sent once, and the access completes with the last answer. -/
theorem split_access (access : SplitAccess) :
    ∃ requests, access.initiateTranslation = some requests ∧ access.IsSplit requests ∧
      ∀ fault : List Bool, fault.length = requests.length →
        (access.buildPackets requests fault).map Packet.request <+: requests ∧
        ((∀ flag ∈ fault, flag = false) →
          (access.buildPackets requests fault).map Packet.request = requests) ∧
        (∀ packet ∈ access.buildPackets requests fault, access.IsPacketOf requests packet) ∧
        (access.buildPackets requests fault ≠ [] → ∀ state : SplitPackets,
          Reaches (SplitPackets.step (access.buildPackets requests fault).length)
            SplitPackets.answersOnce {} state →
          PacketsSettled (access.buildPackets requests fault).length state) := by
  refine ⟨access.requests, access.initiateTranslation_eq, requests_isSplit access, ?_⟩
  intro fault sized
  refine ⟨buildPackets_requests sized, buildPackets_of_noFault sized, ?_, ?_⟩
  · intro packet member
    exact buildPackets_isPacketOf sized member
  · intro nonempty state reached
    exact packetsSettled_of_inv (SplitPackets.reachable_inv (length_pos_of_ne_nil nonempty) reached)

def eightBytes : SplitAccess where
  lineBits := 6
  addr := 60
  size := 8
  byteEnable := List.replicate 8 true
  line_fits := by decide
  size_fits := by decide
  masked := by decide
  crosses := by decide

theorem split_access_eightBytes :
    ∃ state, PacketsSettled 2 state ∧ state.sent = [0, 1] ∧ state.answered = [0, 1] ∧
      state.isComplete = true := by
  obtain ⟨requests, created, -, packets⟩ := split_access eightBytes
  have cut : eightBytes.initiateTranslation = some
      [⟨60, 4, [true, true, true, true]⟩, ⟨64, 4, [true, true, true, true]⟩] := by decide +kernel
  cases created.symm.trans cut
  obtain ⟨-, -, -, settled⟩ := packets [false, false] rfl
  -- The second packet is refused, retried, and answered first.
  obtain ⟨state, reached, observed⟩ := Library.reaches_of_observed (SplitPackets.step 2)
    SplitPackets.answersOnce {} [.send 1, .send 1, .reply 1, .reply 0]
    (fun state => decide (state.sent = [0, 1] ∧ state.answered = [0, 1] ∧
      state.isComplete = true)) (by decide +kernel)
  exact ⟨state, settled (by decide +kernel) state reached, of_decide_eq_true observed⟩

def lastByte : SplitAccess where
  lineBits := 6
  addr := BitVec.ofNat 64 (2 ^ 64 - 1)
  size := 2
  byteEnable := [true, true]
  line_fits := by decide
  size_fits := by decide
  masked := by decide
  crosses := by decide

/-- An access past the end of the address space is not cut in address order. -/
theorem split_access_fails :
    ∃ (access : SplitAccess) (requests : List Fragment),
      access.initiateTranslation = some requests ∧
        ¬ requests.Pairwise fun earlier later => earlier.vaddr.toNat < later.vaddr.toNat := by
  exact ⟨lastByte, [⟨BitVec.ofNat 64 (2 ^ 64 - 1), 1, [true]⟩, ⟨0, 1, [true]⟩],
    by decide +kernel, by decide +kernel⟩

/-! ## Local accesses -/

/-- From a line on, no line without an enabled byte comes before one with such a byte. -/
def GaplessFrom (access : SplitAccess) (first : Nat) : Prop :=
  ∀ index, first ≤ index → index + 1 < access.lines → access.lineRequest index = [] →
    access.lineRequest (index + 1) = []

/-- Behind a line without an enabled byte there is none with one. -/
def Gapless (access : SplitAccess) : Prop := access.GaplessFrom 0

variable {index count : Nat}

theorem GaplessFrom.rest_eq_nil {first : Nat} (gapless : access.GaplessFrom first)
    (after : first ≤ index) (all : index + count = access.lines)
    (empty : 0 < count → access.lineRequest index = []) :
    (List.range' index count).flatMap access.lineRequest = [] := by
  induction count generalizing index with
  | zero => rfl
  | succ count ih =>
    have here := empty (Nat.succ_pos count)
    rw [List.range'_succ, flatMap_cons, here]
    exact ih (Nat.le_succ_of_le after) (by omega) fun more => gapless index after (by omega) here

theorem lineRequest_cases (index : Nat) :
    access.lineRequest index = [] ∨ ∃ request, access.lineRequest index = [request] := by
  unfold lineRequest addRequest
  split
  · exact .inr ⟨_, rfl⟩
  · exact .inl rfl

theorem partEnd_eq_partStart_succ (inside : index + 1 < access.lines) :
    access.partEnd index = access.partStart (index + 1) := by
  have starts : access.partStart (index + 1) = access.lineStart (index + 1) :=
    Nat.max_eq_right (Nat.le_of_lt (access.addr_lt_lineStart (Nat.le_add_left 1 index)))
  have nonempty := access.partStart_lt_partEnd inside
  have near : access.partEnd (index + 1) ≤ access.addr.toNat + access.size :=
    Grid.cellEnd_le _ _ _ _
  rw [starts]
  exact access.partEnd_of_whole (by omega)

/-- The requests of some lines, each with its distance from the start of the access. -/
def atOffsets (access : SplitAccess) (index count : Nat) : List Packet :=
  ((List.range' index count).flatMap access.lineRequest).map fun request =>
    ⟨request, access.offset request⟩

theorem offset_of_lineRequest {request : Fragment} (inside : index < access.lines)
    (single : access.lineRequest index = [request]) :
    access.addr.toNat + access.offset request = access.partStart index ∧
      access.addr.toNat + (access.offset request + request.size) = access.partEnd index := by
  have part := access.isPart_of_mem inside (single ▸ mem_cons_self)
  rw [← Nat.add_assoc]
  exact ⟨part.starts, part.ends⟩

/-- Behind a gap the counted offset is too small for every request. -/
theorem requests_eq_nil_of_behind {localAccessor : Packet → Nat} {delay offset : Nat}
    (all : index + count = access.lines)
    (behind : 0 < count → access.addr.toNat + offset < access.partStart index)
    (agrees : (handleLocalAccessLoop localAccessor delay offset
      ((List.range' index count).flatMap access.lineRequest)).2 = access.atOffsets index count) :
    (List.range' index count).flatMap access.lineRequest = [] := by
  induction count generalizing index delay offset with
  | zero => rfl
  | succ count ih =>
    rcases lineRequest_cases index with empty | ⟨request, single⟩
    · rw [atOffsets, List.range'_succ, flatMap_cons, empty, nil_append] at agrees
      rw [List.range'_succ, flatMap_cons, empty, nil_append]
      refine ih (by omega) (fun more => ?_) agrees
      have next : access.partEnd index = access.partStart (index + 1) :=
        partEnd_eq_partStart_succ (by omega)
      have nonempty := access.partStart_lt_partEnd (show index < access.lines by omega)
      omega
    · rw [atOffsets, List.range'_succ, flatMap_cons, single, singleton_append, map_cons] at agrees
      have same : offset = access.offset request := congrArg Packet.offset (cons.inj agrees).1
      have start := (offset_of_lineRequest (by omega) single).1
      omega

/-- From the start of a line on, the counted offsets are right exactly if no line is left out in
front of another one. -/
theorem handleLocalAccessLoop_packets_iff (localAccessor : Packet → Nat)
    (delay offset : Nat) (all : index + count = access.lines)
    (starts : 0 < count → access.addr.toNat + offset = access.partStart index) :
    (handleLocalAccessLoop localAccessor delay offset
        ((List.range' index count).flatMap access.lineRequest)).2 = access.atOffsets index count ↔
      access.GaplessFrom index := by
  induction count generalizing index delay offset with
  | zero => exact iff_of_true rfl fun line after inside => by omega
  | succ count ih =>
    have inside : index < access.lines := by omega
    rcases lineRequest_cases index with empty | ⟨request, single⟩
    · constructor
      · intro agrees
        rw [atOffsets, List.range'_succ, flatMap_cons, empty, nil_append] at agrees
        have rest := requests_eq_nil_of_behind (by omega) (fun more => ?_) agrees
        · intro line after within _
          refine flatMap_eq_nil_iff.mp rest (line + 1) (mem_range'_1.mpr ?_)
          omega
        · have next : access.partEnd index = access.partStart (index + 1) :=
            partEnd_eq_partStart_succ (by omega)
          have nonempty := access.partStart_lt_partEnd inside
          omega
      · intro gapless
        rw [atOffsets, gapless.rest_eq_nil (Nat.le_refl _) all fun _ => empty]
        rfl
    · have here := offset_of_lineRequest inside single
      obtain rfl : offset = access.offset request := by omega
      rw [atOffsets, List.range'_succ, flatMap_cons, single, singleton_append, map_cons]
      refine cons_inj_right _ |>.trans ((ih _ _ (by omega) fun more => ?_).trans ?_)
      · rw [here.2]
        exact partEnd_eq_partStart_succ (by omega)
      · constructor
        · intro later line after within none
          rcases Nat.eq_or_lt_of_le after with rfl | after
          · cases single.symm.trans none
          · exact later line after within none
        · intro gapless line after
          exact gapless line (Nat.le_of_succ_le after)

/-- A local access finds the data of each request where the packets for the memory have it,
exactly if no line is left out in front of another one. -/
theorem handleLocalAccess_offsets (access : SplitAccess) :
    ∃ requests, access.initiateTranslation = some requests ∧
      ∀ (localAccessor : Packet → Nat) (fault : List Bool), fault.length = requests.length →
        (∀ flag ∈ fault, flag = false) →
        ((handleLocalAccess localAccessor requests).2 = access.buildPackets requests fault ↔
          access.Gapless) := by
  refine ⟨access.requests, access.initiateTranslation_eq, ?_⟩
  intro localAccessor fault sized noFault
  have counted := access.handleLocalAccessLoop_packets_iff localAccessor 0 0
    (Nat.zero_add access.lines) fun _ => (Nat.max_eq_left (Grid.boundary_zero_le _ _)).symm
  have requested : (access.buildPackets access.requests fault).map Packet.request =
      access.requests := buildPackets_of_noFault sized noFault
  have built : access.atOffsets 0 access.lines = access.buildPackets access.requests fault := by
    rw [atOffsets, ← range_eq_range']
    change access.requests.map _ = _
    conv_lhs => rw [← requested]
    unfold buildPackets
    rw [map_map, map_map]
    rfl
  rw [built, ← range_eq_range'] at counted
  exact counted

def upperHalf : SplitAccess :=
  { eightBytes with
    byteEnable := [false, false, false, false, true, true, true, true], masked := by decide }

/-- The request for the first line is dropped, and a local access takes the data of the
second one from the start of the buffer. -/
theorem handleLocalAccess_fails :
    upperHalf.initiateTranslation = some [⟨64, 4, [true, true, true, true]⟩] ∧
      (handleLocalAccess (fun _ => 1) [⟨64, 4, [true, true, true, true]⟩]).2 =
        [⟨⟨64, 4, [true, true, true, true]⟩, 0⟩] ∧
      upperHalf.buildPackets [⟨64, 4, [true, true, true, true]⟩] [false] =
        [⟨⟨64, 4, [true, true, true, true]⟩, 4⟩] := by
  refine ⟨?_, ?_, ?_⟩ <;> decide +kernel

end SplitAccess

end Runahead.O3.Lsq
