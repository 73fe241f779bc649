import Dvnetos.Paging.Aarch64.MapEffect
import Dvnetos.Paging.MapPartial
import Dvnetos.Paging.X86.MapWhole

/-!
# Reading through the direct map

The kernel reads physical memory at an offset, in the direct map. The bootloader maps only a part
of the memory there, so `mapPartial` is called before a table of the firmware is read. This file
says when every byte of such a range can be read behind the call.
-/

namespace Dvnetos.PageTables

variable {physicalAddress hhdmOffset size flags : Word64} {offset : ℕ}

/-- The direct map has the byte of physical memory at its place. -/
def Direct (translate : Word64 → Option Translation) (hhdmOffset physicalAddress : Word64) : Prop :=
  ∃ translation, translate (physicalAddress + hhdmOffset) = some translation ∧
    translation.physicalAddress = physicalAddress

/-- The call of `mapMemory` for a range of the direct map. -/
def directRequest (physicalAddress hhdmOffset size flags : Word64) : Request :=
  partialRequest physicalAddress (physicalAddress + hhdmOffset) size flags

theorem directRequest_physicalAddress :
    (directRequest physicalAddress hhdmOffset size flags).physicalAddress +
        BitVec.ofNat 64 (physicalAddress.toNat % 4096 + offset) =
      physicalAddress + BitVec.ofNat 64 offset := by
  apply BitVec.eq_of_toNat_eq
  simp only [directRequest, partialRequest, BitVec.toNat_add, makePageAligned_toNat,
    BitVec.toNat_ofNat]
  omega

section Places

variable (aligned : hhdmOffset.toNat % 4096 = 0)
variable (fits : physicalAddress.toNat + size.toNat ≤ 2 ^ 52) (inside : offset < size.toNat)

include fits inside

/-- A byte of the range lies on a page of the call. -/
theorem directRequest_reaches :
    physicalAddress.toNat % 4096 + offset <
      (directRequest physicalAddress hhdmOffset size flags).numPages.toNat * 4096 := by
  rw [directRequest, partialRequest_numPages, pageCount]
  split_ifs
  · omega
  · omega

include aligned

theorem directRequest_virtualAddress :
    (directRequest physicalAddress hhdmOffset size flags).virtualAddress +
        BitVec.ofNat 64 (physicalAddress.toNat % 4096 + offset) =
      physicalAddress + BitVec.ofNat 64 offset + hhdmOffset := by
  apply BitVec.eq_of_toNat_eq
  simp only [directRequest, partialRequest, BitVec.toNat_add, makePageAligned_toNat,
    BitVec.toNat_ofNat]
  omega

end Places

namespace X86

variable {paging : Paging} {pool : InitialPool paging.pageTableOffset}
variable {memory memory' : TableMemory} {request : Request} {address : Word64}

/-- What has been translated stays translated. -/
theorem translate_kept (sound : paging.tree.Sound pool memory)
    (mapped : mapMemory paging pool memory request = .ok memory') {translation : Translation}
    (translates : translate paging memory.tables address = some translation) :
    translate paging memory'.tables address = some translation := by
  have soundAfter := (mapMemory_stepped sound mapped).sound
  have canonical : Canonical address := by
    by_contra notCanonical
    rw [translate, if_neg notCanonical] at translates
    cases translates
  rw [translate_of_sound sound canonical] at translates
  rw [translate_of_sound soundAfter canonical]
  cases huge : paging.tree.leaf memory.tables (hugePath address) with
  | some entry =>
      rw [huge] at translates
      rw [mapMemory_keeps sound mapped huge]
      exact translates
  | none =>
      rw [huge] at translates
      rcases Option.map_eq_some_iff.mp translates with ⟨entry, small, rfl⟩
      have kept := mapMemory_keeps sound mapped small
      have above : paging.tree.leaf memory'.tables (hugePath address) = none :=
        PageTree.leaf_above rfl kept
      rw [above, kept]
      rfl

theorem direct_kept (sound : paging.tree.Sound pool memory)
    (mapped : mapMemory paging pool memory request = .ok memory')
    (direct : Direct (translate paging memory.tables) hhdmOffset physicalAddress) :
    Direct (translate paging memory'.tables) hhdmOffset physicalAddress := by
  rcases direct with ⟨translation, translates, physical⟩
  exact ⟨translation, translate_kept sound mapped translates, physical⟩

/--
A byte of the range on a page of 2 MiB is followed only by bytes that the direct map already has:
the loop of `mapMemory` does not get behind such a page.
-/
def Mappable (paging : Paging) (tables : Word64 → Index → Word64)
    (physicalAddress hhdmOffset size : Word64) : Prop :=
  ∀ offset < size.toNat,
    Covered paging tables (physicalAddress + BitVec.ofNat 64 offset + hhdmOffset) →
      ∀ later, offset ≤ later → later < size.toNat →
        Direct (translate paging tables) hhdmOffset (physicalAddress + BitVec.ofNat 64 later)

/-- The address at an offset into a range lies on the page with the number of its block. -/
theorem page_add_place (start : Word64) (place : ℕ) :
    pageAddress pageSize start (place / 4096) + BitVec.ofNat 64 (place % 4096) =
      start + BitVec.ofNat 64 place := by
  apply BitVec.eq_of_toNat_eq
  simp only [pageAddress, stepSize_eq (.inl rfl), BitVec.toNat_add, BitVec.toNat_mul,
    BitVec.toNat_ofNat, show pageSize.toNat = 4096 from rfl]
  omega

/-- A page is covered if one of its bytes is. -/
theorem covered_place (sound : paging.tree.Sound pool memory) (small : request.size = pageSize)
    (range : CanonicalRange request) (aligned : request.virtualAddress.toNat % 4096 = 0) {place : ℕ}
    (below : place / 4096 < request.numPages.toNat)
    (covered : Covered paging memory.tables (virtualPage request (place / 4096))) :
    Covered paging memory.tables (request.virtualAddress + BitVec.ofNat 64 place) := by
  have canonical := canonical_virtualPage small range below
  have pageAligned : (virtualPage request (place / 4096)).toNat % 4096 = 0 :=
    (pageAddress_mod (.inl rfl) aligned _).1
  have on := placeOn canonical pageAligned (Nat.mod_lt place (by decide))
  rw [← page_add_place]
  by_contra uncovered
  have vacant := (not_covered_iff sound on.canonical).mp uncovered
  rw [on.hugePath] at vacant
  exact (not_covered_iff sound canonical).mpr vacant covered

section Call

variable (reachable : Reachable paging pool memory)
variable (within : flags &&& ~~~pageFlagsMask = 0#64)
variable (aligned : hhdmOffset.toNat % 4096 = 0)
variable (fits : physicalAddress.toNat + size.toNat ≤ 2 ^ 52)
variable (range : CanonicalRange (directRequest physicalAddress hhdmOffset size flags))
variable (mapped : mapPartial paging pool memory physicalAddress (physicalAddress + hhdmOffset)
  size flags = .ok memory')

include reachable within aligned fits range mapped

/-- The call maps the bytes in front of the first page of 2 MiB. -/
theorem direct_front (inside : offset < size.toNat)
    (front : ∀ earlier ≤ offset, ¬Covered paging memory.tables
      (physicalAddress + BitVec.ofNat 64 earlier + hhdmOffset)) :
    Direct (translate paging memory'.tables) hhdmOffset
      (physicalAddress + BitVec.ofNat 64 offset) := by
  let request := directRequest physicalAddress hhdmOffset size flags
  let place := physicalAddress.toNat % 4096 + offset
  have below : place / 4096 < request.numPages.toNat := by
    apply Nat.div_lt_of_lt_mul
    rw [Nat.mul_comm]
    exact directRequest_reaches fits inside
  have virtualAligned : request.virtualAddress.toNat % 4096 = 0 := by
    simp only [request, directRequest, partialRequest, makePageAligned_toNat]
    omega
  have uncovered : ∀ number ≤ place / 4096,
      ¬Covered paging memory.tables (virtualPage request number) := by
    intro number before covered
    -- the first byte of the range on this page
    let earlier := max (number * 4096) (physicalAddress.toNat % 4096) - physicalAddress.toNat % 4096
    have onPage : (physicalAddress.toNat % 4096 + earlier) / 4096 = number := by omega
    apply front earlier (by omega)
    rw [← directRequest_virtualAddress aligned fits (show earlier < size.toNat by omega)]
    apply covered_place reachable.sound rfl range virtualAligned
    · rw [onPage]
      exact before.trans_lt below
    · rwa [onPage]
  have frame : (physicalPage request (place / 4096)).toNat < 2 ^ 52 := by
    simp only [physicalPage, pageAddress, stepSize_eq (.inl rfl), BitVec.toNat_add,
      BitVec.toNat_mul, BitVec.toNat_ofNat, show pageSize.toNat = 4096 from rfl, request,
      directRequest, partialRequest, makePageAligned_toNat]
    omega
  have translates := (translatesTo_after_iff reachable rfl within range mapped below
    (uncovered _ le_rfl)).mpr (.inr ⟨fun number before => uncovered number before.le, frame⟩)
  rcases translates (place % 4096) (Nat.mod_lt _ (by decide)) with ⟨translation, found, physical⟩
  refine ⟨translation, ?_, ?_⟩
  · rw [← directRequest_virtualAddress aligned fits inside, ← page_add_place]
    exact found
  · rw [physical, physicalPage, page_add_place]
    exact directRequest_physicalAddress

/-- Every byte of the range can be read in the direct map behind the call. -/
theorem mapPartial_direct
    (mappable : Mappable paging memory.tables physicalAddress hhdmOffset size)
    (inside : offset < size.toNat) :
    Direct (translate paging memory'.tables) hhdmOffset
      (physicalAddress + BitVec.ofNat 64 offset) := by
  by_cases front : ∀ earlier ≤ offset, ¬Covered paging memory.tables
      (physicalAddress + BitVec.ofNat 64 earlier + hhdmOffset)
  · exact direct_front reachable within aligned fits range mapped inside front
  · have behind : ∃ earlier ≤ offset, Covered paging memory.tables
        (physicalAddress + BitVec.ofNat 64 earlier + hhdmOffset) := by simpa using front
    rcases behind with ⟨earlier, before, covered⟩
    have already := mappable earlier (before.trans_lt inside) covered offset before inside
    exact direct_kept reachable.sound mapped already

end Call

/-- Calls for other ranges leave the range as it is, or map some of it. -/
theorem mappable_kept (sound : paging.tree.Sound pool memory) (small : request.size = pageSize)
    (mapped : mapMemory paging pool memory request = .ok memory')
    (mappable : Mappable paging memory.tables physicalAddress hhdmOffset size) :
    Mappable paging memory'.tables physicalAddress hhdmOffset size := by
  have soundAfter := (mapMemory_stepped sound mapped).sound
  intro offset inside covered later behind below
  have canonical : Canonical (physicalAddress + BitVec.ofNat 64 offset + hhdmOffset) := by
    rcases covered with ⟨translation, translates, -⟩
    by_contra notCanonical
    rw [translate, if_neg notCanonical] at translates
    cases translates
  have before : Covered paging memory.tables
      (physicalAddress + BitVec.ofNat 64 offset + hhdmOffset) := by
    by_contra uncovered
    have vacant := (not_covered_iff sound canonical).mp uncovered
    rw [← leaf_hugePath small sound mapped] at vacant
    exact (not_covered_iff soundAfter canonical).mpr vacant covered
  exact direct_kept sound mapped (mappable offset inside before later behind below)

end X86

namespace Aarch64

variable {paging : Paging} {pool : InitialPool paging.pageTableOffset}
variable {memory memory' : TableMemory}

/-- The direct map has the byte on a page of 4 KiB with these flags. -/
def DirectPage (paging : Paging) (tables : Word64 → Index → Word64)
    (hhdmOffset flags physicalAddress : Word64) : Prop :=
  translate paging tables (physicalAddress + hhdmOffset) =
    some ⟨physicalAddress, pageSize, pagePresent ||| flags ||| pageTable⟩

/-- Every byte of the range can be read in the direct map behind a call that returns. -/
theorem mapPartial_direct (halves : paging.higherHalfOffset ≤ higherHalfStart)
    (both : BothSound paging pool memory) (within : flags &&& ~~~pageFlagsMask = 0#64)
    (aligned : hhdmOffset.toNat % 4096 = 0)
    (fits : physicalAddress.toNat + size.toNat ≤ 2 ^ 52)
    (range : let request := directRequest physicalAddress hhdmOffset size flags
      HighRange request.virtualAddress request.numPages request.size)
    (mapped : mapPartial paging pool memory physicalAddress (physicalAddress + hhdmOffset)
      size flags = .ok memory') (inside : offset < size.toNat) :
    DirectPage paging memory'.tables hhdmOffset flags
      (physicalAddress + BitVec.ofNat 64 offset) := by
  have small : (directRequest physicalAddress hhdmOffset size flags).size ≠ hugePageSize := by
    change pageSize ≠ hugePageSize
    decide
  have translates := translate_mapped halves both range (fun isHuge => absurd isHuge small)
    mapped within (directRequest_reaches fits inside)
  rw [directRequest_virtualAddress aligned fits inside] at translates
  rw [DirectPage, translates, wanted, if_neg small]
  congr 2
  rw [← @directRequest_physicalAddress physicalAddress hhdmOffset size flags offset]
  apply BitVec.eq_of_toNat_eq
  simp only [directRequest, partialRequest, BitVec.toNat_add, makePageAligned_toNat,
    BitVec.toNat_ofNat]
  omega

theorem directRequest_high (aligned : hhdmOffset.toNat % 4096 = 0)
    (fits : physicalAddress.toNat + size.toNat ≤ 2 ^ 52)
    (range : let request := directRequest physicalAddress hhdmOffset size flags
      HighRange request.virtualAddress request.numPages request.size)
    (inside : offset < size.toNat) :
    higherHalfStart ≤ physicalAddress + BitVec.ofNat 64 offset + hhdmOffset := by
  rw [← @directRequest_virtualAddress physicalAddress hhdmOffset size flags offset aligned fits
    inside]
  exact range.le_add_offset (directRequest_reaches fits inside)

end Aarch64

end Dvnetos.PageTables
