import Dvnetos.Paging.X86.MapRange

/-!
# When a call of mapMemory maps its whole range

Where a page of 2 MiB covers a page of the range, the loop goes on without a step of
its addresses: it finds the same page in every iteration that is left. So a call with
pages of 4 KiB maps the pages in front of the first covered one, and none behind it.
-/

namespace Dvnetos.PageTables.X86

variable {paging : Paging} {pool : InitialPool paging.pageTableOffset}
variable {size flags : Word64}

/-- Behind a page that is covered by one of 2 MiB nothing is mapped. -/
theorem mapPages_stops {count covered : ℕ} {before after : LoopState} {entry : Word64}
    (notHuge : size ≠ hugePageSize) (sound : paging.tree.Sound pool before.memory)
    (mapped : mapPages paging pool size flags count before = .ok after)
    (covers : paging.tree.leaf before.memory.tables
      (hugePath (pageAddress size before.virtualAddress covered)) = some entry)
    {path : List Index} (outside : ∀ number < covered,
      path ≠ pagePath size (pageAddress size before.virtualAddress number)) :
    paging.tree.leaf after.memory.tables path = paging.tree.leaf before.memory.tables path := by
  induction count generalizing before covered with
  | zero =>
      cases mapped
      rfl
  | succ count ih =>
      rw [mapPages, Fallible.bind_eq_ok_iff] at mapped
      rcases mapped with ⟨between, first, rest⟩
      rcases mapPage_outcome sound first with ⟨stepped, outcome⟩
      cases outcome with
      | huge isHuge => exact absurd isHuge notHuge
      | covered _ _ leaves _ virtual =>
          -- the next iteration starts at the same page
          rw [← leaves] at covers ⊢
          rw [← virtual] at covers outside
          exact ih stepped.sound rest covers outside
      | small _ uncovered inserted _ virtual =>
          cases covered with
          | zero =>
              rw [pageAddress_zero, uncovered] at covers
              cases covers
          | succ covered =>
              have step : between.virtualAddress = before.virtualAddress + stepSize size := by
                rw [virtual, stepSize, if_neg notHuge]
              have notFirst := outside 0 (Nat.succ_pos covered)
              rw [pageAddress_zero, pagePath, if_neg notHuge] at notFirst
              rw [← inserted.leaf_of_ne notFirst]
              rw [pageAddress_succ, ← step] at covers
              apply ih stepped.sound rest (inserted.keeps covers)
              intro number below
              have other := outside (number + 1) (Nat.succ_lt_succ below)
              rwa [pageAddress_succ, ← step] at other

/-- The address of a page in the range of a call. -/
def virtualPage (request : Request) (number : ℕ) : Word64 :=
  pageAddress pageSize request.virtualAddress number

/-- The address that this page is to be mapped to. -/
def physicalPage (request : Request) (number : ℕ) : Word64 :=
  pageAddress pageSize request.physicalAddress number

/-- A page of 2 MiB translates the address. -/
def Covered (paging : Paging) (tables : Word64 → Index → Word64) (address : Word64) : Prop :=
  ∃ translation, translate paging tables address = some translation ∧
    translation.size = hugePageSize

/-- All addresses of the page are translated to those of the frame. -/
def TranslatesTo (paging : Paging) (tables : Word64 → Index → Word64) (page frame : Word64) :
    Prop :=
  ∀ offset < 4096, ∃ translation,
    translate paging tables (page + BitVec.ofNat 64 offset) = some translation ∧
      translation.physicalAddress = frame + BitVec.ofNat 64 offset

/-- Covered pages stay as they are, and all others are translated as the call wants them. -/
structure MapsWhole (paging : Paging) (before after : Word64 → Index → Word64)
    (request : Request) : Prop where
  covered : ∀ number < request.numPages.toNat,
    Covered paging before (virtualPage request number) → ∀ offset < 4096,
      translate paging after (virtualPage request number + BitVec.ofNat 64 offset) =
        translate paging before (virtualPage request number + BitVec.ofNat 64 offset)
  uncovered : ∀ number < request.numPages.toNat,
    ¬Covered paging before (virtualPage request number) →
      TranslatesTo paging after (virtualPage request number) (physicalPage request number)

section Places

variable {request : Request} {number offset : ℕ}
variable (small : request.size = pageSize) (range : CanonicalRange request)
variable (below : number < request.numPages.toNat)

include small range below

theorem virtualPage_toNat :
    (virtualPage request number).toNat = request.virtualAddress.toNat + number * 4096 := by
  have bytes : request.size.toNat = 4096 := by
    rw [small]
    rfl
  simp only [CanonicalRange, bytes] at range
  apply pageAddress_toNat (Or.inl rfl)
  change _ + number * 4096 < 2 ^ 64
  have := request.virtualAddress.isLt
  omega

theorem canonical_virtualPage : Canonical (virtualPage request number) := by
  have bytes : request.size.toNat = 4096 := by
    rw [small]
    rfl
  have start := virtualPage_toNat small range below
  simp only [CanonicalRange, bytes] at range
  simp only [Canonical, start]
  omega

theorem smallPath_virtualPage_ne {earlier : ℕ} (before : earlier < number) :
    smallPath (virtualPage request number) ≠ smallPath (virtualPage request earlier) := by
  have bytes : request.size.toNat = 4096 := by
    rw [small]
    rfl
  have start := virtualPage_toNat small range below
  have earlierStart := virtualPage_toNat small range (before.trans below)
  simp only [CanonicalRange, bytes] at range
  rw [Ne, smallPath_eq_iff, pageNumber, pageNumber, start, earlierStart]
  omega

end Places

/-- The address of a page and the addresses on it. -/
structure PlaceOn (page place : Word64) (offset : ℕ) : Prop where
  canonical : Canonical place
  smallPath : smallPath place = smallPath page
  hugePath : hugePath place = hugePath page
  offset : place.toNat % 4096 = offset

theorem placeOn {page : Word64} {offset : ℕ} (canonical : Canonical page)
    (aligned : page.toNat % 4096 = 0) (inside : offset < 4096) :
    PlaceOn page (page + BitVec.ofNat 64 offset) offset := by
  have bound := page.isLt
  have here : (page + BitVec.ofNat 64 offset).toNat = page.toNat + offset := by
    rw [BitVec.toNat_add, BitVec.toNat_ofNat]
    omega
  have number : pageNumber (page + BitVec.ofNat 64 offset) = pageNumber page := by
    rw [pageNumber, pageNumber, here]
    omega
  refine ⟨?_, smallPath_eq_iff.mpr number, hugePath_eq_iff.mpr (by rw [number]), ?_⟩
  · simp only [Canonical, here] at canonical ⊢
    omega
  · rw [here]
    omega

section Sound

variable {memory memory' : TableMemory} {page place : Word64} {offset : ℕ}
variable (sound : paging.tree.Sound pool memory)

include sound

theorem translate_of_sound (canonical : Canonical page) :
    translate paging memory.tables page =
      match paging.tree.leaf memory.tables (hugePath page) with
      | some entry => some (leafTranslation hugePageSize entry page)
      | none => (paging.tree.leaf memory.tables (smallPath page)).map fun entry =>
          leafTranslation pageSize entry page :=
  (translate_eq fun entry => sound_noGiant sound _ _ entry rfl).trans (if_pos canonical)

theorem not_covered_iff (canonical : Canonical page) :
    ¬Covered paging memory.tables page ↔
      paging.tree.leaf memory.tables (hugePath page) = none := by
  rw [Covered, translate_of_sound sound canonical]
  cases paging.tree.leaf memory.tables (hugePath page) with
  | some entry => simp [leafTranslation]
  | none =>
      simp only [Option.map_eq_some_iff, iff_true]
      rintro ⟨_, ⟨entry, _, rfl⟩, huge⟩
      exact absurd huge (by simp only [leafTranslation]; decide)

theorem leaf_of_covered (canonical : Canonical page)
    (covered : Covered paging memory.tables page) :
    ∃ entry, paging.tree.leaf memory.tables (hugePath page) = some entry := by
  apply Option.ne_none_iff_exists'.mp
  intro vacant
  exact (not_covered_iff sound canonical).mpr vacant covered

theorem translate_uncovered (on : PlaceOn page place offset)
    (uncovered : paging.tree.leaf memory.tables (hugePath page) = none) :
    translate paging memory.tables place =
      (paging.tree.leaf memory.tables (smallPath page)).map fun entry =>
        leafTranslation pageSize entry place := by
  rw [translate_of_sound sound on.canonical, on.hugePath, on.smallPath, uncovered]

end Sound

/-- A page with the entry of `mapMemory` is translated to its frame, if the frame fits the entry. -/
theorem translatesTo_iff {memory : TableMemory} {page frame : Word64}
    (sound : paging.tree.Sound pool memory) (canonical : Canonical page)
    (aligned : page.toNat % 4096 = 0) (frameAligned : frame.toNat % 4096 = 0)
    (within : flags &&& ~~~pageFlagsMask = 0#64)
    (uncovered : paging.tree.leaf memory.tables (hugePath page) = none)
    (mapped : paging.tree.leaf memory.tables (smallPath page) = some (newValue frame flags)) :
    TranslatesTo paging memory.tables page frame ↔ frame.toNat < 2 ^ 52 := by
  have clear : (pagePresent ||| flags) &&& pageAddrMask = 0#64 := by
    rw [BitVec.and_or_distrib_right, Bits.and_eq_zero_of_within within (by decide)]
    decide
  have translates : ∀ offset < 4096,
      translate paging memory.tables (page + BitVec.ofNat 64 offset) =
        some ⟨BitVec.ofNat 64 (frame.toNat % 2 ^ 52 + offset), pageSize,
          pagePresent ||| flags⟩ := by
    intro offset inside
    have on := placeOn canonical aligned inside
    rw [translate_uncovered sound on uncovered, mapped, Option.map_some, newValue, BitVec.or_assoc,
      leafTranslation_entry (Or.inl rfl) frameAligned clear, show pageSize.toNat = 4096 from rfl,
      on.offset]
  have bound := frame.isLt
  constructor
  · intro wanted
    rcases wanted 0 (by decide) with ⟨translation, found, physical⟩
    rw [translates 0 (by decide)] at found
    rw [← Option.some.inj found] at physical
    have same := congrArg BitVec.toNat physical
    simp only [BitVec.toNat_add, BitVec.toNat_ofNat] at same
    omega
  · intro fits offset inside
    refine ⟨_, translates offset inside, ?_⟩
    apply BitVec.eq_of_toNat_eq
    simp only [BitVec.toNat_add, BitVec.toNat_ofNat]
    omega

theorem pages_aligned {memory memory' : TableMemory} {request : Request}
    (mapped : mapMemory paging pool memory request = .ok memory') (number : ℕ) :
    (physicalPage request number).toNat % 4096 = 0 ∧
      (virtualPage request number).toNat % 4096 = 0 := by
  rcases mapMemory_cases mapped with ⟨physicalAligned, virtualAligned, -⟩
  constructor
  · apply (pageAddress_mod (Or.inl rfl) _ number).1
    simpa using congrArg BitVec.toNat physicalAligned
  · apply (pageAddress_mod (Or.inl rfl) _ number).1
    simpa using congrArg BitVec.toNat virtualAligned

section Call

variable {memory memory' : TableMemory} {request : Request} {number earlier : ℕ}
variable (small : request.size = pageSize) (sound : paging.tree.Sound pool memory)
variable (mapped : mapMemory paging pool memory request = .ok memory')

include small sound mapped

theorem leaf_hugePath (address : Word64) :
    paging.tree.leaf memory'.tables (hugePath address) =
      paging.tree.leaf memory.tables (hugePath address) := by
  rcases mapMemory_cases mapped with ⟨-, -, state, pages, rfl⟩
  have notHuge : request.size ≠ hugePageSize := by
    rw [small]
    decide
  apply (mapPages_frame sound pages).2.2.1
  intro number below
  rw [pagePath, if_neg notHuge]
  exact hugePath_ne_smallPath _ _

/-- If no page is covered up to this one, the call maps it. -/
theorem leaf_of_front (below : number < request.numPages.toNat)
    (front : ∀ earlier ≤ number,
      paging.tree.leaf memory.tables (hugePath (virtualPage request earlier)) = none) :
    paging.tree.leaf memory'.tables (smallPath (virtualPage request number)) =
      some (newValue (physicalPage request number) request.flags) := by
  have frontAfter : ∀ earlier ≤ number,
      paging.tree.leaf memory'.tables (hugePath (virtualPage request earlier)) = none := by
    intro earlier before
    rw [leaf_hugePath small sound mapped]
    exact front earlier before
  rcases mapMemory_cases mapped with ⟨-, -, state, pages, rfl⟩
  rw [small] at pages
  exact mapPages_mapped sound pages number below fun earlier before =>
    Or.inr (frontAfter earlier before)

/-- If a page in front of it is covered, the call does not map this one. -/
theorem leaf_behind (range : CanonicalRange request) (below : number < request.numPages.toNat)
    (before : earlier < number) {entry : Word64}
    (covers : paging.tree.leaf memory.tables (hugePath (virtualPage request earlier)) =
      some entry) :
    paging.tree.leaf memory'.tables (smallPath (virtualPage request number)) =
      paging.tree.leaf memory.tables (smallPath (virtualPage request number)) := by
  rcases mapMemory_cases mapped with ⟨-, -, state, pages, rfl⟩
  rw [small] at pages
  apply mapPages_stops (by decide) sound pages covers
  intro first between
  exact smallPath_virtualPage_ne small range below (between.trans before)

end Call

/-- A covered page keeps its translation. -/
theorem translate_covered {memory memory' : TableMemory} {request : Request} {number offset : ℕ}
    (sound : paging.tree.Sound pool memory) (small : request.size = pageSize)
    (range : CanonicalRange request)
    (mapped : mapMemory paging pool memory request = .ok memory')
    (below : number < request.numPages.toNat) (inside : offset < 4096)
    (covered : Covered paging memory.tables (virtualPage request number)) :
    translate paging memory'.tables (virtualPage request number + BitVec.ofNat 64 offset) =
      translate paging memory.tables (virtualPage request number + BitVec.ofNat 64 offset) := by
  have soundAfter := (mapMemory_stepped sound mapped).sound
  have canonical := canonical_virtualPage small range below
  have on := placeOn canonical (pages_aligned mapped number).2 inside
  rcases leaf_of_covered sound canonical covered with ⟨entry, isHuge⟩
  rw [translate_of_sound soundAfter on.canonical, translate_of_sound sound on.canonical,
    leaf_hugePath small sound mapped, on.hugePath, isHuge]

/-- Which pages that are not covered the call leaves translated as it should. -/
theorem translatesTo_after_iff {memory memory' : TableMemory} {request : Request} {number : ℕ}
    (reachable : Reachable paging pool memory) (small : request.size = pageSize)
    (within : request.flags &&& ~~~pageFlagsMask = 0#64) (range : CanonicalRange request)
    (mapped : mapMemory paging pool memory request = .ok memory')
    (below : number < request.numPages.toNat)
    (uncovered : ¬Covered paging memory.tables (virtualPage request number)) :
    TranslatesTo paging memory'.tables (virtualPage request number) (physicalPage request number) ↔
      TranslatesTo paging memory.tables (virtualPage request number) (physicalPage request number) ∨
        (∀ earlier < number, ¬Covered paging memory.tables (virtualPage request earlier)) ∧
          (physicalPage request number).toNat < 2 ^ 52 := by
  have sound := reachable.sound
  have soundAfter := (mapMemory_stepped sound mapped).sound
  have canonical := canonical_virtualPage small range below
  have hugeBefore := (not_covered_iff sound canonical).mp uncovered
  have hugeAfter := (leaf_hugePath small sound mapped _).trans hugeBefore
  rcases pages_aligned mapped number with ⟨frameAligned, aligned⟩
  by_cases front : ∀ earlier < number, ¬Covered paging memory.tables (virtualPage request earlier)
  · have vacant : ∀ earlier ≤ number,
        paging.tree.leaf memory.tables (hugePath (virtualPage request earlier)) = none := by
      intro earlier before
      rcases Nat.lt_or_eq_of_le before with ahead | rfl
      · have canonicalAhead := canonical_virtualPage small range (ahead.trans below)
        exact (not_covered_iff sound canonicalAhead).mp (front earlier ahead)
      · exact hugeBefore
    have leaf := leaf_of_front small sound mapped below vacant
    rw [translatesTo_iff soundAfter canonical aligned frameAligned within hugeAfter leaf]
    constructor
    · exact fun fits => Or.inr ⟨front, fits⟩
    · rintro (already | ⟨-, fits⟩)
      · rw [← translatesTo_iff soundAfter canonical aligned frameAligned within hugeAfter leaf]
        intro offset inside
        rcases already offset inside with ⟨translation, found, physical⟩
        have on := placeOn canonical aligned inside
        rw [translate_uncovered sound on hugeBefore] at found
        rcases Option.map_eq_some_iff.mp found with ⟨entry, before, rfl⟩
        refine ⟨_, ?_, physical⟩
        rw [translate_uncovered soundAfter on hugeAfter, mapMemory_keeps sound mapped before]
        rfl
      · exact fits
  · have behind :
        ∃ earlier < number, Covered paging memory.tables (virtualPage request earlier) := by
      simpa using front
    rcases behind with ⟨earlier, before, covers⟩
    have canonicalEarlier := canonical_virtualPage small range (before.trans below)
    rcases leaf_of_covered sound canonicalEarlier covers with ⟨entry, isHuge⟩
    have unchanged : TranslatesTo paging memory'.tables (virtualPage request number)
        (physicalPage request number) ↔ TranslatesTo paging memory.tables
          (virtualPage request number) (physicalPage request number) := by
      apply forall₂_congr
      intro offset inside
      have on := placeOn canonical aligned inside
      rw [translate_uncovered sound on hugeBefore, translate_uncovered soundAfter on hugeAfter,
        leaf_behind small sound mapped range below before isHuge]
    rw [unchanged]
    constructor
    · exact Or.inl
    · rintro (already | ⟨isFront, -⟩)
      · exact already
      · exact absurd isFront front

/--
A call with pages of 4 KiB that returns maps its whole range exactly if no page that is left to map
lies behind a covered one, and all frames fit the address bits of an entry.
-/
theorem mapMemory_whole_iff {memory memory' : TableMemory} {request : Request}
    (reachable : Reachable paging pool memory) (small : request.size = pageSize)
    (within : request.flags &&& ~~~pageFlagsMask = 0#64) (range : CanonicalRange request)
    (mapped : mapMemory paging pool memory request = .ok memory') :
    MapsWhole paging memory.tables memory'.tables request ↔
      ∀ number < request.numPages.toNat,
        ¬Covered paging memory.tables (virtualPage request number) →
          TranslatesTo paging memory.tables (virtualPage request number)
              (physicalPage request number) ∨
            (∀ earlier < number, ¬Covered paging memory.tables (virtualPage request earlier)) ∧
              (physicalPage request number).toNat < 2 ^ 52 := by
  have each := fun number (below : number < request.numPages.toNat)
      (uncovered : ¬Covered paging memory.tables (virtualPage request number)) =>
    translatesTo_after_iff reachable small within range mapped below uncovered
  constructor
  · intro whole number below uncovered
    exact (each number below uncovered).mp (whole.uncovered number below uncovered)
  · intro condition
    constructor
    · intro number below covered offset inside
      exact translate_covered reachable.sound small range mapped below inside covered
    · intro number below uncovered
      exact (each number below uncovered).mpr (condition number below uncovered)

theorem mapMemory_whole_onePage :
    ∃ memory', mapMemory kernelPaging kernelPool emptyTables onePage = .ok memory' ∧
      MapsWhole kernelPaging emptyTables.tables memory'.tables onePage := by
  rcases Fallible.exists_of_isOk (show
    (mapMemory kernelPaging kernelPool emptyTables onePage).isOk = true by decide) with
    ⟨memory', mapped⟩
  refine ⟨memory', mapped, ?_⟩
  apply (mapMemory_whole_iff reachable_emptyTables rfl (by decide) (by decide) mapped).mpr
  intro number below _
  have first : number = 0 := Nat.lt_one_iff.mp below
  subst first
  exact Or.inr ⟨fun earlier before => absurd before (Nat.not_lt_zero earlier), by decide⟩

/-- The second 2 MiB of memory, mapped at their own addresses. -/
def secondHugePage : Request :=
  { physicalAddress := 0x200000#64
    virtualAddress := 0x200000#64
    size := hugePageSize
    numPages := 1#64
    flags := pageWrite }

/-- The last 4 KiB of that page and the next 4 KiB. -/
def acrossTheEnd : Request :=
  { physicalAddress := 0x3FF000#64
    virtualAddress := 0x3FF000#64
    size := pageSize
    numPages := 2#64
    flags := pageWrite }

theorem mapMemory_leaves_page_behind :
    acrossTheEnd.flags &&& ~~~pageFlagsMask = 0#64 ∧ CanonicalRange acrossTheEnd ∧
      ∃ memory memory', Reachable kernelPaging kernelPool memory ∧
      mapMemory kernelPaging kernelPool memory acrossTheEnd = .ok memory' ∧
      ¬MapsWhole kernelPaging memory.tables memory'.tables acrossTheEnd := by
  let calls := mapMemory kernelPaging kernelPool emptyTables secondHugePage >>= fun memory =>
    mapMemory kernelPaging kernelPool memory acrossTheEnd >>= fun memory' =>
      pure (translate kernelPaging memory.tables 0x400000#64,
        translate kernelPaging memory'.tables 0x400000#64)
  have untranslated : calls = .ok (none, none) := by decide +kernel
  simp only [calls, Fallible.bind_eq_ok_iff, Fallible.pure_eq_ok_iff, Prod.mk.injEq] at untranslated
  rcases untranslated with ⟨memory, first, memory', second, before, after⟩
  refine ⟨by decide, by decide, memory, memory', .map reachable_emptyTables first, second, ?_⟩
  intro whole
  have uncovered : ¬Covered kernelPaging memory.tables (virtualPage acrossTheEnd 1) := by
    rintro ⟨translation, found, -⟩
    cases before.symm.trans found
  rcases whole.uncovered 1 (by decide) uncovered 0 (by decide) with ⟨translation, found, -⟩
  cases after.symm.trans found

end Dvnetos.PageTables.X86
