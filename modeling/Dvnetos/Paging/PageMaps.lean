import Dvnetos.Paging.HardwareWalk

/-!
# Page maps

A page map says which addresses are translated and to what, and nothing about tables. The
leaves of a tree are one. Storing the entry of a page sets the page in this map, which must not
have had another translation in it, and clearing an entry takes a page of the same size out of it.
-/

namespace Dvnetos.PageTables

/-- What each address is translated to, if it is translated. -/
abbrev PageMap := Word64 → Option Translation

/-- The page of this size that an address lies on. -/
structure Page where
  size : Word64
  address : Word64

/-- The address lies on the page. The tables have indexes for the lower 48 bits only. -/
def Page.Contains (page : Page) (address : Word64) : Prop :=
  address.toNat % 2 ^ 48 / page.size.toNat = page.address.toNat % 2 ^ 48 / page.size.toNat

instance (page : Page) (address : Word64) : Decidable (page.Contains address) :=
  inferInstanceAs (Decidable (_ = _))

theorem Page.contains_iff {size address other : Word64}
    (sizes : size = pageSize ∨ size = hugePageSize) :
    (⟨size, address⟩ : Page).Contains other ↔ pagePath size other = pagePath size address :=
  (pagePath_eq_iff sizes).symm

/-- A place on a page, by the frame and the flags of the page. -/
def frameTranslation (size physicalAddress flags virtualAddress : Word64) : Translation where
  physicalAddress := BitVec.ofNat 64
    (physicalAddress.toNat % 2 ^ 52 + virtualAddress.toNat % size.toNat)
  size := size
  flags := flags

namespace PageMap

/-- Nothing is translated. -/
def empty : PageMap := fun _ => none

open Classical in
/-- Translate a page, unless a place on it is translated in another way. -/
noncomputable def set (pages : PageMap) (page : Page) (value : Word64 → Translation) :
    Option PageMap :=
  if ∀ address, page.Contains address → ∀ translation, pages address = some translation →
      translation = value address then
    some fun address => if page.Contains address then some (value address) else pages address
  else none

/-- Translate a page no more. Pages of another size stay. -/
def clear (pages : PageMap) (page : Page) : PageMap := fun address =>
  if page.Contains address then (pages address).filter fun translation =>
    decide (translation.size ≠ page.size)
  else pages address

theorem set_eq_some {pages after : PageMap} {page : Page} {value : Word64 → Translation}
    (free : ∀ address, page.Contains address → ∀ translation, pages address = some translation →
      translation = value address)
    (inside : ∀ address, page.Contains address → after address = some (value address))
    (outside : ∀ address, ¬page.Contains address → after address = pages address) :
    pages.set page value = some after := by
  rw [set, if_pos free, Option.some.injEq]
  funext address
  split_ifs with contains
  · exact (inside address contains).symm
  · exact (outside address contains).symm

/-- What is seen of the translations may be less than all of it. -/
theorem set_map {pages after : PageMap} {page : Page} {value : Word64 → Translation}
    (view : Translation → Translation) (isSet : pages.set page value = some after) :
    set (fun address => (pages address).map view) page (fun address => view (value address)) =
      some fun address => (after address).map view := by
  rw [set] at isSet
  split_ifs at isSet with free
  cases isSet
  apply set_eq_some
  · intro address contains translation seen
    rcases Option.map_eq_some_iff.mp seen with ⟨old, found, rfl⟩
    rw [free address contains old found]
  · intro address contains
    simp only [if_pos contains, Option.map_some]
  · intro address missing
    simp only [if_neg missing]

end PageMap

/-- The page map of leaves. -/
def leafMap (leaf : List Index → Option Word64) : PageMap := fun address =>
  match leaf (hugePath address) with
  | some entry => some (leafTranslation hugePageSize entry address)
  | none => (leaf (smallPath address)).map fun entry => leafTranslation pageSize entry address

section LeafMap

variable {leaf : List Index → Option Word64} {size address entry : Word64}

/-- Whether a page is taken out depends on its size only. -/
theorem filter_leafTranslation (size other entry address : Word64) :
    ((some (leafTranslation size entry address)).filter fun translation =>
      decide (translation.size ≠ other)) =
        if size = other then none else some (leafTranslation size entry address) := by
  rw [Option.filter_some, show (leafTranslation size entry address).size = size from rfl]
  split_ifs <;> simp_all

theorem leafMap_of_huge (found : leaf (hugePath address) = some entry) :
    leafMap leaf address = some (leafTranslation hugePageSize entry address) := by
  simp only [leafMap, found]

theorem leafMap_of_small (vacant : leaf (hugePath address) = none) :
    leafMap leaf address =
      (leaf (smallPath address)).map fun entry => leafTranslation pageSize entry address := by
  simp only [leafMap, vacant]

namespace PageTree

variable {tree : PageTree} {before after : Word64 → Index → Word64}

theorem no_small_of_huge (found : tree.leaf before (hugePath address) = some entry) :
    tree.leaf before (smallPath address) = none := by
  cases small : tree.leaf before (smallPath address) with
  | none => rfl
  | some other =>
      have vacant : tree.leaf before (hugePath address) = none := leaf_above rfl small
      rw [vacant] at found
      cases found

/-- A page of either size is translated by its entry. -/
theorem leafMap_of_leaf (sizes : size = pageSize ∨ size = hugePageSize)
    (found : tree.leaf before (pagePath size address) = some entry) :
    leafMap (tree.leaf before) address = some (leafTranslation size entry address) := by
  rcases sizes with rfl | rfl
  · rw [pagePath, if_neg (by decide)] at found
    have vacant : tree.leaf before (hugePath address) = none := leaf_above rfl found
    rw [leafMap_of_small vacant, found, Option.map_some]
  · rw [pagePath, if_pos rfl] at found
    exact leafMap_of_huge found

/-- Every translation comes from the entry of a page of its size. -/
theorem exists_of_leafMap {translation : Translation}
    (translates : leafMap (tree.leaf before) address = some translation) :
    ∃ size entry, (size = pageSize ∨ size = hugePageSize) ∧
      tree.leaf before (pagePath size address) = some entry ∧
      leafTranslation size entry address = translation := by
  cases huge : tree.leaf before (hugePath address) with
  | some entry =>
      rw [leafMap_of_huge huge] at translates
      refine ⟨hugePageSize, entry, Or.inr rfl, ?_, Option.some.inj translates⟩
      rwa [pagePath, if_pos rfl]
  | none =>
      rw [leafMap_of_small huge] at translates
      rcases Option.map_eq_some_iff.mp translates with ⟨entry, small, isValue⟩
      refine ⟨pageSize, entry, Or.inl rfl, ?_, isValue⟩
      rwa [pagePath, if_neg (by decide)]

/-- Addresses that are not on the page have their leaves elsewhere. -/
theorem leafMap_congr
    (elsewhere : ∀ path, path = hugePath address ∨ path = smallPath address →
      tree.leaf after path = tree.leaf before path) :
    leafMap (tree.leaf after) address = leafMap (tree.leaf before) address := by
  simp only [leafMap, elsewhere _ (Or.inl rfl), elsewhere _ (Or.inr rfl)]

theorem path_ne_of_not_contains {virtualAddress : Word64} {path : List Index}
    (sizes : size = pageSize ∨ size = hugePageSize)
    (missing : ¬(⟨size, virtualAddress⟩ : Page).Contains address)
    (here : path = hugePath address ∨ path = smallPath address) :
    path ≠ pagePath size virtualAddress := by
  intro same
  exact missing ((Page.contains_iff sizes).mpr (pagePath_of_path here same))

/-- The entry of a page sets it in the map. -/
theorem Inserted.set {virtualAddress : Word64}
    (sizes : size = pageSize ∨ size = hugePageSize)
    (inserted : tree.Inserted before after (pagePath size virtualAddress) entry) :
    (leafMap (tree.leaf before)).set ⟨size, virtualAddress⟩ (leafTranslation size entry) =
      some (leafMap (tree.leaf after)) := by
  have inside : ∀ address, (⟨size, virtualAddress⟩ : Page).Contains address →
      leafMap (tree.leaf after) address = some (leafTranslation size entry address) := by
    intro address contains
    apply leafMap_of_leaf sizes
    rw [(Page.contains_iff sizes).mp contains]
    exact inserted.leaf_self
  apply PageMap.set_eq_some
  · intro address contains translation translates
    rcases exists_of_leafMap translates with ⟨oldSize, old, oldSizes, found, isValue⟩
    have kept := leafMap_of_leaf oldSizes (inserted.keeps found)
    rw [inside address contains, isValue] at kept
    exact (Option.some.inj kept).symm
  · exact inside
  · intro address missing
    apply leafMap_congr
    intro path here
    exact inserted.leaf_of_ne (path_ne_of_not_contains sizes missing here)

/-- Clearing the entry of a page takes it out of the map. -/
theorem leafMap_clear {virtualAddress : Word64}
    (sizes : size = pageSize ∨ size = hugePageSize)
    (leaves : tree.leaf after =
      Function.update (tree.leaf before) (pagePath size virtualAddress) none) :
    leafMap (tree.leaf after) = (leafMap (tree.leaf before)).clear ⟨size, virtualAddress⟩ := by
  funext address
  rw [PageMap.clear]
  split_ifs with contains
  · have same := (Page.contains_iff sizes).mp contains
    rcases sizes with rfl | rfl
    · rw [pagePath, pagePath, if_neg (by decide), if_neg (by decide)] at same
      rw [pagePath, if_neg (by decide), ← same] at leaves
      have huge : tree.leaf after (hugePath address) = tree.leaf before (hugePath address) := by
        rw [leaves, Function.update_of_ne (hugePath_ne_smallPath _ _)]
      cases covered : tree.leaf before (hugePath address) with
      | some entry =>
          rw [leafMap_of_huge covered, leafMap_of_huge (huge.trans covered),
            filter_leafTranslation, if_neg (show hugePageSize ≠ pageSize by decide)]
      | none =>
          rw [leafMap_of_small covered, leafMap_of_small (huge.trans covered), leaves,
            Function.update_self]
          cases tree.leaf before (smallPath address) with
          | none => rfl
          | some entry => rw [Option.map_some, filter_leafTranslation, if_pos rfl, Option.map_none]
    · rw [pagePath, pagePath, if_pos rfl, if_pos rfl] at same
      rw [pagePath, if_pos rfl, ← same] at leaves
      have huge : tree.leaf after (hugePath address) = none := by
        rw [leaves, Function.update_self]
      have small : tree.leaf after (smallPath address) = tree.leaf before (smallPath address) := by
        rw [leaves, Function.update_of_ne (hugePath_ne_smallPath _ _).symm]
      rw [leafMap_of_small huge, small]
      cases covered : tree.leaf before (hugePath address) with
      | some entry =>
          rw [leafMap_of_huge covered, no_small_of_huge covered, filter_leafTranslation,
            if_pos rfl, Option.map_none]
      | none =>
          rw [leafMap_of_small covered]
          cases tree.leaf before (smallPath address) with
          | none => rfl
          | some entry =>
              rw [Option.map_some, filter_leafTranslation,
                if_neg (show pageSize ≠ hugePageSize by decide)]
  · apply leafMap_congr
    intro path here
    rw [leaves, Function.update_of_ne (path_ne_of_not_contains sizes contains here)]

end PageTree

end LeafMap

end Dvnetos.PageTables
