import Runahead.Library.Grid
import Runahead.O3.LsqAccess
import Mathlib.Data.List.Range

/-!
# Accesses that cross a cache line

`SplitDataRequest` cuts an access at the line boundaries and drops the fragments that
have no enabled byte. Addresses are machine words; the loop over whole lines compares
them for equality and so also works across the end of the address space.
-/

set_option autoImplicit false

namespace Runahead.O3.Lsq

open Library List

/-! ## The model -/

def addrBlockOffset (addr blockSize : Addr) : Addr := addr &&& (blockSize - 1)

def addrBlockAlign (addr blockSize : Addr) : Addr := addr &&& ~~~(blockSize - 1)

def transferNeedsBurst (addr : Addr) (size blockSize : Nat) : Bool :=
  blockSize < (addrBlockOffset addr (BitVec.ofNat 64 blockSize)).toNat + size

/-- An access for which `pushRequest` creates a `SplitDataRequest`. The line size and the
size are 32-bit numbers in the source. -/
structure SplitAccess where
  lineBits : Nat
  addr : Addr
  size : Nat
  byteEnable : List Bool
  line_fits : lineBits < 32
  size_fits : size < 2 ^ 32
  masked : byteEnable.length = size
  crosses : transferNeedsBurst addr size (2 ^ lineBits) = true

structure Fragment where
  vaddr : Addr
  size : Nat
  byteEnable : List Bool
  deriving DecidableEq, Repr

def isAnyActiveElement (byteEnable : List Bool) : Bool := byteEnable.any id

def addRequest (requests : List Fragment) (addr : Addr) (size : Nat) (byteEnable : List Bool) :
    List Fragment :=
  if isAnyActiveElement byteEnable then requests ++ [⟨addr, size, byteEnable⟩] else requests

/-- The loop over whole lines; `none` if it has not come to its end. -/
def addLines (lineSize : Nat) (byteEnable : List Bool) (finalAddr : Addr) :
    Nat → Addr → Nat → List Fragment → Option (Addr × Nat × List Fragment)
  | 0, baseAddr, sizeSoFar, requests =>
    if baseAddr = finalAddr then some (baseAddr, sizeSoFar, requests) else none
  | fuel + 1, baseAddr, sizeSoFar, requests =>
    if baseAddr = finalAddr then some (baseAddr, sizeSoFar, requests)
    else
      addLines lineSize byteEnable finalAddr fuel (baseAddr + BitVec.ofNat 64 lineSize)
        (sizeSoFar + lineSize)
        (addRequest requests baseAddr lineSize ((byteEnable.drop sizeSoFar).take lineSize))

namespace SplitAccess

variable (access : SplitAccess)

def line : Nat := 2 ^ access.lineBits

/-- `SplitDataRequest::initiateTranslation`, as far as it creates the requests. -/
def initiateTranslation : Option (List Fragment) :=
  let lineAddr := BitVec.ofNat 64 access.line
  let nextAddr := addrBlockAlign (access.addr + lineAddr) lineAddr
  let finalAddr := addrBlockAlign (access.addr + BitVec.ofNat 64 access.size) lineAddr
  let prefixSize := (nextAddr - access.addr).toNat
  let requests := addRequest [] access.addr prefixSize (access.byteEnable.take prefixSize)
  match addLines access.line access.byteEnable finalAddr access.size nextAddr prefixSize
      requests with
  | none => none
  | some (baseAddr, sizeSoFar, requests) =>
    if sizeSoFar < access.size then
      some (addRequest requests baseAddr (access.size - sizeSoFar)
        (access.byteEnable.drop sizeSoFar))
    else some requests

/-- A packet with the offset of its data in `memData`. -/
structure Packet where
  request : Fragment
  offset : Nat
  deriving DecidableEq, Repr

def offset (request : Fragment) : Nat :=
  (request.vaddr - access.addr).toNat

/-- The packets of `buildPackets`, up to the first request that has a fault. -/
def buildPackets (requests : List Fragment) (fault : List Bool) : List Packet :=
  ((requests.zip fault).takeWhile (!·.2)).map fun entry =>
    ⟨entry.1, access.offset entry.1⟩

/-- The loop of `handleLocalAccess`, with the longest delay so far and the offset that the
next request gets. -/
def handleLocalAccessLoop (localAccessor : Packet → Nat) :
    Nat → Nat → List Fragment → Nat × List Packet
  | delay, _, [] => (delay, [])
  | delay, offset, request :: rest =>
    let packet : Packet := ⟨request, offset⟩
    let accessDelay := localAccessor packet
    let (delay, packets) := handleLocalAccessLoop localAccessor
      (if delay < accessDelay then accessDelay else delay) (offset + request.size) rest
    (delay, packet :: packets)

/-- `SplitDataRequest::handleLocalAccess`: the delay, and the packets of the accesses. -/
def handleLocalAccess (localAccessor : Packet → Nat) (requests : List Fragment) :
    Nat × List Packet :=
  handleLocalAccessLoop localAccessor 0 0 requests

end SplitAccess

/-! ## The requests are the parts of the access in its lines -/

theorem addRequest_eq_append (requests : List Fragment) (addr : Addr) (size : Nat)
    (byteEnable : List Bool) :
    addRequest requests addr size byteEnable =
      requests ++ addRequest [] addr size byteEnable := by
  unfold addRequest
  split
  · rfl
  · exact (append_nil requests).symm

theorem mem_addRequest_nil {addr : Addr} {size : Nat} {byteEnable : List Bool}
    {fragment : Fragment} :
    fragment ∈ addRequest [] addr size byteEnable ↔
      isAnyActiveElement byteEnable = true ∧ fragment = ⟨addr, size, byteEnable⟩ := by
  unfold addRequest
  split
  · next active => simp [active]
  · next inactive => simp [inactive]

namespace SplitAccess

variable (access : SplitAccess) (index : Nat)

/-- Where a line begins, counted from the line of the first byte on and without wrapping. -/
def lineStart : Nat :=
  Grid.boundary access.line access.addr.toNat index

def partStart : Nat :=
  Grid.cellStart access.line access.addr.toNat index

def partEnd : Nat :=
  Grid.cellEnd access.line access.addr.toNat access.size index

/-- The part of the access in one line, if it has an enabled byte. -/
def lineRequest : List Fragment :=
  addRequest [] (BitVec.ofNat 64 (access.partStart index))
    (access.partEnd index - access.partStart index)
    ((access.byteEnable.drop (access.partStart index - access.addr.toNat)).take
      (access.partEnd index - access.partStart index))

def lines : Nat :=
  Grid.cells access.line access.addr.toNat access.size

variable (access : SplitAccess)

theorem line_pos : 0 < access.line := Nat.two_pow_pos _

theorem crosses_line : access.line < access.addr.toNat % access.line + access.size := by
  have crosses := of_decide_eq_true access.crosses
  have fits := access.line_fits
  unfold addrBlockOffset at crosses
  rw [Grid.toNat_and_mask access.addr (by omega)] at crosses
  exact crosses

theorem lineStart_succ : access.lineStart (index + 1) = access.lineStart index + access.line :=
  Grid.boundary_succ _ _ _

variable {index : Nat}

theorem addr_lt_lineStart (later : 1 ≤ index) : access.addr.toNat < access.lineStart index :=
  Nat.lt_of_lt_of_le (Grid.lt_boundary_one access.line_pos _) (Grid.boundary_mono _ _ later)

theorem lineStart_one_lt : access.lineStart 1 < access.addr.toNat + access.size := by
  have crosses := access.crosses_line
  have divided := Nat.div_add_mod' access.addr.toNat access.line
  unfold lineStart Grid.boundary
  rw [Nat.add_one_mul]
  omega

theorem addrBlockAlign_add (distance : Nat) :
    addrBlockAlign (access.addr + BitVec.ofNat 64 distance) (BitVec.ofNat 64 access.line) =
      BitVec.ofNat 64 ((access.addr.toNat + distance) / access.line * access.line) := by
  have fits := access.line_fits
  have divides : access.line * 2 ^ (64 - access.lineBits) = 2 ^ 64 := by
    unfold line
    rw [← Nat.pow_add, Nat.add_sub_cancel' (by omega)]
  apply BitVec.eq_of_toNat_eq
  have aligned := Grid.toNat_and_not_mask (access.addr + BitVec.ofNat 64 distance)
    (show access.lineBits < 64 by omega)
  refine aligned.trans ?_
  rw [BitVec.toNat_add, BitVec.toNat_ofNat, Nat.add_mod_mod, BitVec.toNat_ofNat]
  exact Grid.mod_div_mul _ divides

theorem lineRequest_of_later (later : 1 ≤ index) :
    access.lineRequest index =
      addRequest [] (BitVec.ofNat 64 (access.lineStart index))
        (access.partEnd index - access.lineStart index)
        ((access.byteEnable.drop (access.lineStart index - access.addr.toNat)).take
          (access.partEnd index - access.lineStart index)) := by
  have starts : access.partStart index = access.lineStart index :=
    Nat.max_eq_right (Nat.le_of_lt (access.addr_lt_lineStart later))
  unfold lineRequest
  rw [starts]

theorem partEnd_of_whole (inside : access.lineStart (index + 1) ≤ access.addr.toNat + access.size) :
    access.partEnd index = access.lineStart (index + 1) :=
  Nat.min_eq_right inside

theorem addLines_spec {count fuel : Nat} (requests : List Fragment) (later : 1 ≤ index)
    (inside : access.lineStart (index + count) ≤ access.addr.toNat + access.size)
    (enough : count ≤ fuel) :
    addLines access.line access.byteEnable (BitVec.ofNat 64 (access.lineStart (index + count)))
        fuel (BitVec.ofNat 64 (access.lineStart index))
        (access.lineStart index - access.addr.toNat) requests =
      some (BitVec.ofNat 64 (access.lineStart (index + count)),
        access.lineStart (index + count) - access.addr.toNat,
        requests ++ (List.range' index count).flatMap access.lineRequest) := by
  induction count generalizing index fuel requests with
  | zero => cases fuel <;> simp [addLines]
  | succ count ih =>
    obtain ⟨fuel, rfl⟩ : ∃ rest, fuel = rest + 1 := ⟨fuel - 1, by omega⟩
    have after := access.addr_lt_lineStart later
    have wide := access.lineStart_succ index
    have upward : access.lineStart (index + 1) ≤ access.lineStart (index + (count + 1)) :=
      Grid.boundary_mono _ _ (by omega)
    have positive := access.line_pos
    have bound := access.size_fits
    -- Both addresses are less than the size of the access behind its start.
    have different : BitVec.ofNat 64 (access.lineStart index) ≠
        BitVec.ofNat 64 (access.lineStart (index + (count + 1))) := by
      intro same
      have numbers := congrArg BitVec.toNat same
      rw [BitVec.toNat_ofNat, BitVec.toNat_ofNat] at numbers
      omega
    have whole : addRequest requests (BitVec.ofNat 64 (access.lineStart index)) access.line
        ((access.byteEnable.drop (access.lineStart index - access.addr.toNat)).take
          access.line) = requests ++ access.lineRequest index := by
      rw [addRequest_eq_append, access.lineRequest_of_later later,
        access.partEnd_of_whole (Nat.le_trans upward inside), wide, Nat.add_sub_cancel_left]
    have sum : index + (count + 1) = index + 1 + count := by omega
    have distance : access.lineStart index - access.addr.toNat + access.line =
        access.lineStart (index + 1) - access.addr.toNat := by omega
    rw [addLines, if_neg different, whole, ← BitVec.ofNat_add, ← wide, distance, sum,
      ih _ (Nat.le_succ_of_le later) (by rw [← sum]; exact inside) (by omega),
      List.range'_succ, flatMap_cons, append_assoc]

def endLine (access : SplitAccess) : Nat :=
  (access.addr.toNat + access.size) / access.line - access.addr.toNat / access.line

theorem endLine_pos : 1 ≤ access.endLine := by
  have reached : access.addr.toNat / access.line + 1 ≤
      (access.addr.toNat + access.size) / access.line :=
    (Nat.le_div_iff_mul_le access.line_pos).mpr (Nat.le_of_lt access.lineStart_one_lt)
  unfold endLine
  omega

theorem endLine_le_size : access.endLine ≤ access.size := by
  have scaled : access.addr.toNat + access.size ≤ access.addr.toNat + access.size * access.line :=
    Nat.add_le_add_left (Nat.le_mul_of_pos_right _ access.line_pos) _
  have divided := Nat.div_le_div_right (c := access.line) scaled
  rw [Nat.add_mul_div_right _ _ access.line_pos] at divided
  unfold endLine
  omega

theorem lineStart_endLine :
    access.lineStart access.endLine =
      (access.addr.toNat + access.size) / access.line * access.line := by
  have ordered : access.addr.toNat / access.line ≤
      (access.addr.toNat + access.size) / access.line :=
    Nat.div_le_div_right (Nat.le_add_right _ _)
  unfold lineStart endLine Grid.boundary
  rw [Nat.add_sub_cancel' ordered]

theorem lineStart_endLine_le :
    access.lineStart access.endLine ≤ access.addr.toNat + access.size := by
  rw [lineStart_endLine]
  exact Nat.div_mul_le_self _ _

theorem lt_lineStart_endLine_succ :
    access.addr.toNat + access.size < access.lineStart (access.endLine + 1) := by
  rw [lineStart_succ, lineStart_endLine, ← Nat.add_one_mul]
  exact Nat.lt_mul_of_div_lt (Nat.lt_succ_self _) access.line_pos

theorem lines_of_tail (tail : access.lineStart access.endLine < access.addr.toNat + access.size) :
    access.lines = access.endLine + 1 := by
  rw [lineStart_endLine] at tail
  have same : (access.addr.toNat + access.size - 1) / access.line =
      (access.addr.toNat + access.size) / access.line :=
    Nat.le_antisymm (Nat.div_le_div_right (Nat.sub_le _ _))
      ((Nat.le_div_iff_mul_le access.line_pos).mpr (by omega))
  unfold lines endLine Grid.cells
  rw [same]

theorem lines_of_aligned
    (aligned : ¬ access.lineStart access.endLine < access.addr.toNat + access.size) :
    access.lines = access.endLine := by
  have positive := access.endLine_pos
  have crosses := access.lineStart_one_lt
  rw [lineStart_endLine] at aligned
  have below : (access.addr.toNat + access.size - 1) / access.line <
      (access.addr.toNat + access.size) / access.line :=
    (Nat.div_lt_iff_lt_mul access.line_pos).mpr (by omega)
  have above : (access.addr.toNat + access.size) / access.line ≤
      (access.addr.toNat + access.size - 1) / access.line + 1 := by
    rw [← Nat.add_div_right _ access.line_pos]
    exact Nat.div_le_div_right (by have := access.line_pos; omega)
  unfold lines endLine Grid.cells
  unfold endLine at positive
  omega

theorem toNat_ofNat_sub_addr {position : Nat} (after : access.addr.toNat ≤ position)
    (near : position ≤ access.addr.toNat + access.size) :
    (BitVec.ofNat 64 position - access.addr).toNat = position - access.addr.toNat := by
  have bound := access.size_fits
  rw [BitVec.toNat_sub, BitVec.toNat_ofNat]
  omega

theorem lineRequest_zero :
    access.lineRequest 0 =
      addRequest [] access.addr (access.lineStart 1 - access.addr.toNat)
        (access.byteEnable.take (access.lineStart 1 - access.addr.toNat)) := by
  have starts : access.partStart 0 = access.addr.toNat :=
    Nat.max_eq_left (Grid.boundary_zero_le _ _)
  have ends : access.partEnd 0 = access.lineStart 1 :=
    access.partEnd_of_whole (Nat.le_of_lt access.lineStart_one_lt)
  unfold lineRequest
  rw [starts, ends, BitVec.ofNat_toNat, BitVec.setWidth_eq, Nat.sub_self, drop_zero]

theorem lineRequest_endLine :
    access.lineRequest access.endLine =
      addRequest [] (BitVec.ofNat 64 (access.lineStart access.endLine))
        (access.size - (access.lineStart access.endLine - access.addr.toNat))
        (access.byteEnable.drop (access.lineStart access.endLine - access.addr.toNat)) := by
  have ends : access.partEnd access.endLine = access.addr.toNat + access.size :=
    Nat.min_eq_left (Nat.le_of_lt access.lt_lineStart_endLine_succ)
  have after := access.addr_lt_lineStart access.endLine_pos
  have length : access.addr.toNat + access.size - access.lineStart access.endLine =
      access.size - (access.lineStart access.endLine - access.addr.toNat) := by omega
  have rest : (access.byteEnable.drop
      (access.lineStart access.endLine - access.addr.toNat)).length ≤
        access.size - (access.lineStart access.endLine - access.addr.toNat) := by
    rw [length_drop, access.masked]
  rw [access.lineRequest_of_later access.endLine_pos, ends, length, take_of_length_le rest]

theorem range_eq_cons_range' {count : Nat} (positive : 1 ≤ count) :
    List.range count = 0 :: List.range' 1 (count - 1) := by
  obtain ⟨rest, rfl⟩ : ∃ rest, count = rest + 1 := ⟨count - 1, by omega⟩
  rw [range_eq_range', List.range'_succ, Nat.add_sub_cancel]

/-- Every access is cut, and the requests are its parts in the lines it touches. -/
theorem initiateTranslation_eq :
    access.initiateTranslation = some ((List.range access.lines).flatMap access.lineRequest) := by
  have next : addrBlockAlign (access.addr + BitVec.ofNat 64 access.line)
      (BitVec.ofNat 64 access.line) = BitVec.ofNat 64 (access.lineStart 1) := by
    rw [addrBlockAlign_add, Nat.add_div_right _ access.line_pos]
    rfl
  have final : addrBlockAlign (access.addr + BitVec.ofNat 64 access.size)
      (BitVec.ofNat 64 access.line) = BitVec.ofNat 64 (access.lineStart access.endLine) := by
    rw [addrBlockAlign_add, lineStart_endLine]
  have prefixSize := access.toNat_ofNat_sub_addr
    (Nat.le_of_lt (access.addr_lt_lineStart (Nat.le_refl 1)))
    (Nat.le_of_lt access.lineStart_one_lt)
  have positive := access.endLine_pos
  have small := access.endLine_le_size
  have whole : 1 + (access.endLine - 1) = access.endLine := by omega
  have inside : access.lineStart (1 + (access.endLine - 1)) ≤ access.addr.toNat + access.size := by
    rw [whole]
    exact access.lineStart_endLine_le
  have enough : access.endLine - 1 ≤ access.size := by omega
  have looped := access.addLines_spec (access.lineRequest 0) (Nat.le_refl 1) inside enough
  rw [whole, ← flatMap_cons, ← range_eq_cons_range' positive] at looped
  unfold initiateTranslation
  simp only [next, final, prefixSize, ← lineRequest_zero, looped]
  split
  · next tail =>
    rw [access.lines_of_tail (by omega), addRequest_eq_append, ← access.lineRequest_endLine,
      range_succ, flatMap_append, flatMap_cons, flatMap_nil,
      append_nil]
  · next aligned => rw [access.lines_of_aligned (by omega)]

/-! ## What the requests cover -/

theorem isAnyActiveElement_slice {byteEnable : List Bool} {first length : Nat} :
    isAnyActiveElement ((byteEnable.drop first).take length) = true ↔
      ∃ byte, first ≤ byte ∧ byte < first + length ∧ byteEnable[byte]? = some true := by
  unfold isAnyActiveElement
  rw [any_eq_true]
  constructor
  · rintro ⟨enabled, member, active⟩
    obtain ⟨position, read⟩ := mem_iff_getElem?.mp member
    rw [List.getElem?_take] at read
    obtain ⟨inside, read⟩ := Option.ite_none_right_eq_some.mp read
    rw [List.getElem?_drop] at read
    exact ⟨first + position, Nat.le_add_right _ _, by omega, by rw [read, ← active]; rfl⟩
  · rintro ⟨byte, after, before, read⟩
    refine ⟨true, mem_iff_getElem?.mpr ⟨byte - first, ?_⟩, rfl⟩
    rw [List.getElem?_take, if_pos (by omega), List.getElem?_drop, Nat.add_sub_cancel' after, read]

/-- A request is the part of the access in one of its lines. -/
structure IsPart (access : SplitAccess) (index : Nat) (request : Fragment) : Prop where
  inside : index < access.lines
  starts : access.addr.toNat + access.offset request = access.partStart index
  ends : access.addr.toNat + access.offset request + request.size = access.partEnd index
  vaddr : request.vaddr = BitVec.ofNat 64 (access.addr.toNat + access.offset request)
  slice : request.byteEnable = (access.byteEnable.drop (access.offset request)).take request.size
  active : isAnyActiveElement request.byteEnable = true

theorem partStart_lt_partEnd (inside : index < access.lines) :
    access.partStart index < access.partEnd index := by
  have crosses := access.lineStart_one_lt
  have before := access.addr_lt_lineStart (Nat.le_refl 1)
  exact Grid.cellStart_lt_cellEnd access.line_pos (by omega) inside

variable {request : Fragment}

theorem isPart_of_mem (inside : index < access.lines)
    (member : request ∈ access.lineRequest index) : access.IsPart index request := by
  obtain ⟨active, rfl⟩ := mem_addRequest_nil.mp member
  have after : access.addr.toNat ≤ access.partStart index := Grid.start_le_cellStart _ _ _
  have nonempty := access.partStart_lt_partEnd inside
  have near : access.partEnd index ≤ access.addr.toNat + access.size := Grid.cellEnd_le _ _ _ _
  have distance := access.toNat_ofNat_sub_addr after (by omega)
  refine ⟨inside, ?_, ?_, ?_, ?_, active⟩
  · unfold offset
    rw [distance]
    exact Nat.add_sub_cancel' after
  · unfold offset
    rw [distance, Nat.add_sub_cancel' after]
    exact Nat.add_sub_cancel' (Nat.le_of_lt nonempty)
  · unfold offset
    rw [distance, Nat.add_sub_cancel' after]
  · unfold offset
    rw [distance]

def requests (access : SplitAccess) : List Fragment :=
  (List.range access.lines).flatMap access.lineRequest

theorem exists_part (member : request ∈ access.requests) :
    ∃ index, access.IsPart index request := by
  obtain ⟨index, inside, member⟩ := mem_flatMap.mp member
  exact ⟨index, access.isPart_of_mem (mem_range.mp inside) member⟩

theorem lineRequest_of_active (inside : index < access.lines)
    (active : isAnyActiveElement
      ((access.byteEnable.drop (access.partStart index - access.addr.toNat)).take
        (access.partEnd index - access.partStart index)) = true) :
    ∃ request ∈ access.requests, access.IsPart index request := by
  have member : _ ∈ access.lineRequest index := mem_addRequest_nil.mpr ⟨active, rfl⟩
  exact ⟨_, mem_flatMap.mpr ⟨index, mem_range.mpr inside, member⟩,
    access.isPart_of_mem inside member⟩

variable {access}

/-- Two bytes of the access, counted from its start, are in one line. -/
def SameLine (access : SplitAccess) (first second : Nat) : Prop :=
  addrBlockAlign (access.addr + BitVec.ofNat 64 first) (BitVec.ofNat 64 access.line) =
    addrBlockAlign (access.addr + BitVec.ofNat 64 second) (BitVec.ofNat 64 access.line)

theorem sameLine_iff {first second : Nat} (firstInside : first < access.size)
    (secondInside : second < access.size) :
    access.SameLine first second ↔
      (access.addr.toNat + first) / access.line = (access.addr.toNat + second) / access.line := by
  have bound := access.size_fits
  have small : access.line ≤ 2 ^ 32 :=
    Nat.pow_le_pow_right (by decide) (Nat.le_of_lt access.line_fits)
  unfold SameLine
  rw [addrBlockAlign_add, addrBlockAlign_add]
  constructor
  · intro same
    have numbers := congrArg BitVec.toNat same
    rw [BitVec.toNat_ofNat, BitVec.toNat_ofNat] at numbers
    have firstDivided := Nat.div_add_mod' (access.addr.toNat + first) access.line
    have secondDivided := Nat.div_add_mod' (access.addr.toNat + second) access.line
    have firstRest := Nat.mod_lt (access.addr.toNat + first) access.line_pos
    have secondRest := Nat.mod_lt (access.addr.toNat + second) access.line_pos
    exact Nat.eq_of_mul_eq_mul_right access.line_pos (by omega)
  · intro same
    rw [same]

section

variable (part : access.IsPart index request)
include part

/-- A part covers the bytes of the access in its line. -/
theorem IsPart.covers_iff (byte : Nat) :
    (access.offset request ≤ byte ∧ byte < access.offset request + request.size) ↔
      byte < access.size ∧
        (access.addr.toNat + byte) / access.line = access.addr.toNat / access.line + index := by
  have cell : (access.partStart index ≤ access.addr.toNat + byte ∧
      access.addr.toNat + byte < access.partEnd index) ↔ _ := Grid.mem_cell access.line_pos
  have starts := part.starts
  have ends := part.ends
  omega

theorem IsPart.nonempty :
    0 < request.size := by
  have nonempty := access.partStart_lt_partEnd part.inside
  have starts := part.starts
  have ends := part.ends
  omega

theorem IsPart.ends_before {other : Nat} {later : Fragment} (laterPart : access.IsPart other later)
    (ordered : index < other) :
    access.offset request + request.size ≤ access.offset later := by
  have apart : access.partEnd index ≤ access.partStart other := Grid.cellEnd_le_cellStart ordered
  have ends := part.ends
  have starts := laterPart.starts
  omega

theorem IsPart.inside_access :
    access.offset request + request.size ≤ access.size := by
  have near : access.partEnd index ≤ access.addr.toNat + access.size := Grid.cellEnd_le _ _ _ _
  have ends := part.ends
  omega

theorem IsPart.within_line :
    transferNeedsBurst request.vaddr request.size access.line = false := by
  have fits := access.line_fits
  have nonempty := part.nonempty
  have divides : access.line ∣ 2 ^ 64 := Nat.pow_dvd_pow 2 (by omega)
  have remainder : request.vaddr.toNat % access.line =
      (access.addr.toNat + access.offset request) % access.line := by
    rw [part.vaddr, BitVec.toNat_ofNat, Nat.mod_mod_of_dvd _ divides]
  -- The first and the last byte of the part have the same line number.
  obtain ⟨-, firstLine⟩ := (part.covers_iff (access.offset request)).mp (by omega)
  obtain ⟨-, lastLine⟩ :=
    (part.covers_iff (access.offset request + (request.size - 1))).mp (by omega)
  have first := Nat.div_add_mod' (access.addr.toNat + access.offset request) access.line
  have last := Nat.div_add_mod'
    (access.addr.toNat + (access.offset request + (request.size - 1))) access.line
  have lastRest := Nat.mod_lt
    (access.addr.toNat + (access.offset request + (request.size - 1))) access.line_pos
  rw [firstLine] at first
  rw [lastLine] at last
  have masked : (addrBlockOffset request.vaddr (BitVec.ofNat 64 access.line)).toNat =
      request.vaddr.toNat % access.line := Grid.toNat_and_mask request.vaddr (by omega)
  unfold transferNeedsBurst
  exact decide_eq_false (by omega)

end

structure IsSplit (access : SplitAccess) (requests : List Fragment) : Prop where
  within_line : ∀ request ∈ requests, 0 < request.size ∧
    transferNeedsBurst request.vaddr request.size access.line = false
  ordered : requests.Pairwise fun earlier later =>
    access.offset earlier + earlier.size ≤ access.offset later
  increasing : access.addr.toNat + access.size ≤ 2 ^ 64 →
    requests.Pairwise fun earlier later =>
      earlier.vaddr.toNat + earlier.size ≤ later.vaddr.toNat
  covers : ∀ byte,
    (∃ request ∈ requests, access.offset request ≤ byte ∧
      byte < access.offset request + request.size) ↔
    byte < access.size ∧ ∃ enabled, access.byteEnable[enabled]? = some true ∧
      access.SameLine byte enabled
  slice : ∀ request ∈ requests, request.byteEnable =
    (access.byteEnable.drop (access.offset request)).take request.size

theorem requests_ordered : access.requests.Pairwise fun earlier later =>
    access.offset earlier + earlier.size ≤ access.offset later := by
  refine pairwise_flatMap.mpr ⟨fun index _ => ?_, ?_⟩
  · unfold lineRequest addRequest
    split
    · exact pairwise_singleton _ _
    · exact List.Pairwise.nil
  · refine pairwise_lt_range.imp_of_mem ?_
    intro index other indexInside otherInside ordered request member later laterMember
    exact (access.isPart_of_mem (mem_range.mp indexInside) member).ends_before
      (access.isPart_of_mem (mem_range.mp otherInside) laterMember) ordered

theorem enabled_inside {enabled : Nat} (active : access.byteEnable[enabled]? = some true) :
    enabled < access.size := by
  rw [← access.masked]
  exact (List.getElem?_eq_some_iff.mp active).1

theorem IsPart.exists_enabled (part : access.IsPart index request) :
    ∃ enabled, access.byteEnable[enabled]? = some true ∧
      (access.addr.toNat + enabled) / access.line = access.addr.toNat / access.line + index := by
  have active := part.active
  rw [part.slice] at active
  obtain ⟨enabled, after, before, read⟩ := isAnyActiveElement_slice.mp active
  exact ⟨enabled, read, ((part.covers_iff enabled).mp ⟨after, before⟩).2⟩

theorem exists_part_of_enabled {byte enabled : Nat} (inside : byte < access.size)
    (read : access.byteEnable[enabled]? = some true)
    (same : (access.addr.toNat + byte) / access.line =
      (access.addr.toNat + enabled) / access.line) :
    ∃ index, ∃ request ∈ access.requests, access.IsPart index request ∧
      (access.addr.toNat + byte) / access.line = access.addr.toNat / access.line + index := by
  have within : access.addr.toNat ≤ access.addr.toNat + byte ∧
      access.addr.toNat + byte < access.addr.toNat + access.size := by omega
  obtain ⟨index, cell, covered⟩ := Grid.exists_cell access.line_pos within
  obtain ⟨-, byteLine⟩ := (Grid.mem_cell access.line_pos).mp covered
  have enabledWithin : access.addr.toNat ≤ access.addr.toNat + enabled ∧
      access.addr.toNat + enabled < access.addr.toNat + access.size := by
    have bound := enabled_inside read
    omega
  have enabledCovered : access.partStart index ≤ access.addr.toNat + enabled ∧
      access.addr.toNat + enabled < access.partEnd index :=
    (Grid.mem_cell access.line_pos).mpr ⟨enabledWithin, same.symm.trans byteLine⟩
  have active := isAnyActiveElement_slice.mpr
    ⟨enabled, (by omega : access.partStart index - access.addr.toNat ≤ enabled),
      (by omega : enabled < access.partStart index - access.addr.toNat +
        (access.partEnd index - access.partStart index)), read⟩
  obtain ⟨request, member, part⟩ := access.lineRequest_of_active cell active
  exact ⟨index, request, member, part, byteLine⟩

theorem requests_cover (byte : Nat) :
    (∃ request ∈ access.requests, access.offset request ≤ byte ∧
      byte < access.offset request + request.size) ↔
    byte < access.size ∧ ∃ enabled, access.byteEnable[enabled]? = some true ∧
      access.SameLine byte enabled := by
  constructor
  · rintro ⟨request, member, covered⟩
    obtain ⟨index, part⟩ := access.exists_part member
    obtain ⟨inside, byteLine⟩ := (part.covers_iff byte).mp covered
    obtain ⟨enabled, read, enabledLine⟩ := part.exists_enabled
    exact ⟨inside, enabled, read, (sameLine_iff inside (enabled_inside read)).mpr
      (byteLine.trans enabledLine.symm)⟩
  · rintro ⟨inside, enabled, read, same⟩
    obtain ⟨index, request, member, part, byteLine⟩ := exists_part_of_enabled inside read
      ((sameLine_iff inside (enabled_inside read)).mp same)
    exact ⟨request, member, (part.covers_iff byte).mpr ⟨inside, byteLine⟩⟩

theorem IsPart.vaddr_eq (part : access.IsPart index request)
    (fits : access.addr.toNat + access.size ≤ 2 ^ 64) :
    request.vaddr.toNat = access.addr.toNat + access.offset request := by
  have inside := part.inside_access
  have nonempty := part.nonempty
  rw [part.vaddr, BitVec.toNat_ofNat, Nat.mod_eq_of_lt (by omega)]

theorem requests_isSplit (access : SplitAccess) : access.IsSplit access.requests where
  within_line := by
    intro request member
    obtain ⟨index, part⟩ := access.exists_part member
    exact ⟨part.nonempty, part.within_line⟩
  ordered := requests_ordered
  increasing := by
    intro fits
    refine requests_ordered.imp_of_mem ?_
    intro earlier later earlierMember laterMember ordered
    obtain ⟨index, part⟩ := access.exists_part earlierMember
    obtain ⟨other, laterPart⟩ := access.exists_part laterMember
    rw [part.vaddr_eq fits, laterPart.vaddr_eq fits, Nat.add_assoc]
    exact Nat.add_le_add_left ordered _
  covers := requests_cover
  slice := by
    intro request member
    obtain ⟨index, part⟩ := access.exists_part member
    exact part.slice

end SplitAccess

end Runahead.O3.Lsq
