import Goat.Cache.Basic
import Goat.Proofs.BuildCache
import Mathlib.Data.List.Nodup

/-!
# Pruning a cache to a size

Going through a listing, sizes add up over all records, those to be removed included. So once a
record is removed, all behind it are, and what is kept is the longest part at the front of the
listing that fits. This is so as long as the sizes of all records add up to a word of 64 bits, and
only then: the first sum beyond it turns negative, and the record with which it does is kept.
-/

namespace Goat.Cache

/-! ### Sizes -/

/-- The sizes of records together. -/
def totalSize : List Record → Int
  | [] => 0
  | r :: rest => r.storedSize + totalSize rest

/-- No record has a negative size. -/
def Sized (records : List Record) : Prop := ∀ r ∈ records, 0 ≤ r.storedSize

section

variable {records front back : List Record} {r : Record}

theorem sized_cons : Sized (r :: records) ↔ 0 ≤ r.storedSize ∧ Sized records :=
  List.forall_mem_cons

theorem totalSize_append (front back : List Record) :
    totalSize (front ++ back) = totalSize front + totalSize back := by
  induction front with
  | nil => simp [totalSize]
  | cons r front ih =>
    rw [List.cons_append, totalSize, totalSize, ih]
    omega

theorem totalSize_nonneg (h : Sized records) : 0 ≤ totalSize records := by
  induction records with
  | nil => exact Int.le_refl 0
  | cons r records ih =>
    obtain ⟨hr, hrest⟩ := sized_cons.1 h
    have := ih hrest
    rw [totalSize]
    omega

theorem totalSize_prefix_le (h : Sized records) (hfront : front <+: records) :
    totalSize front ≤ totalSize records := by
  obtain ⟨back, rfl⟩ := hfront
  have hback : Sized back := fun r hr => h r (List.mem_append_right front hr)
  have := totalSize_nonneg hback
  rw [totalSize_append]
  omega

theorem totalSize_perm (h : front.Perm back) : totalSize front = totalSize back := by
  induction h with
  | nil => rfl
  | cons r _ ih => rw [totalSize, totalSize, ih]
  | swap r r' rest =>
    simp only [totalSize]
    omega
  | trans _ _ ih ih' => exact ih.trans ih'

end

/-! ### The longest part that fits -/

/-- What is kept is the longest part at the front of a listing that fits the limit. -/
structure IsLongestFitting (limit : Int) (listing kept : List Record) : Prop where
  isPrefix : kept <+: listing
  fits : totalSize kept ≤ limit
  longest : ∀ front, front <+: listing → totalSize front ≤ limit → front <+: kept

/-- The records at the front of a listing up to the first one that does not fit. -/
def fitting (limit : Int) : List Record → List Record
  | [] => []
  | r :: rest => if r.storedSize ≤ limit then r :: fitting (limit - r.storedSize) rest else []

section

variable {limit total : Int} {listing : List Record}

theorem fitting_isPrefix (limit : Int) (listing : List Record) :
    fitting limit listing <+: listing := by
  induction listing generalizing limit with
  | nil => exact List.prefix_rfl
  | cons r rest ih =>
    rw [fitting]
    split
    · exact List.cons_prefix_cons.2 ⟨rfl, ih _⟩
    · exact List.nil_prefix

theorem fitting_of_neg (hsized : Sized listing) (hlimit : limit < 0) :
    fitting limit listing = [] := by
  cases listing with
  | nil => rfl
  | cons r rest =>
    have hr := (sized_cons.1 hsized).1
    rw [fitting, if_neg (by omega)]

theorem isLongestFitting_fitting (hsized : Sized listing) (hlimit : 0 ≤ limit) :
    IsLongestFitting limit listing (fitting limit listing) := by
  refine ⟨fitting_isPrefix limit listing, ?_, ?_⟩
  · clear hsized
    induction listing generalizing limit with
    | nil => exact hlimit
    | cons r rest ih =>
      rw [fitting]
      split
      · have hrest : totalSize (fitting (limit - r.storedSize) rest) ≤ limit - r.storedSize :=
          ih (by omega)
        rw [totalSize]
        omega
      · exact hlimit
  · induction listing generalizing limit with
    | nil =>
      intro front hfront _
      exact hfront
    | cons r rest ih =>
      intro front hfront hfits
      obtain ⟨hr, hrest⟩ := sized_cons.1 hsized
      cases front with
      | nil => exact List.nil_prefix
      | cons r' front =>
        obtain ⟨rfl, hfront'⟩ := List.cons_prefix_cons.1 hfront
        have hnonneg := totalSize_nonneg fun r hr => hrest r (hfront'.subset hr)
        rw [totalSize] at hfits
        rw [fitting, if_pos (by omega), List.cons_prefix_cons]
        exact ⟨rfl, ih hrest (by omega) front hfront' (by omega)⟩

theorem fitting_eq_self (hsized : Sized listing) (hfits : totalSize listing ≤ limit) :
    fitting limit listing = listing := by
  have hnonneg := totalSize_nonneg hsized
  have hlongest := isLongestFitting_fitting hsized (Int.le_trans hnonneg hfits)
  apply (fitting_isPrefix limit listing).eq_of_length_le
  exact (hlongest.longest listing List.prefix_rfl hfits).length_le

/-- The sums go beyond the limit at the first record that does not fit, and stay there. -/
theorem excess_eq (hsized : Sized listing) (h0 : 0 ≤ total)
    (htotal : total + totalSize listing ≤ Text.maxInt64) :
    Store.excess limit total listing =
      (listing.drop (fitting (limit - total) listing).length).map Record.hash := by
  induction listing generalizing total with
  | nil => simp [Store.excess]
  | cons r rest ih =>
    obtain ⟨hr, hrest⟩ := sized_cons.1 hsized
    rw [totalSize] at htotal
    have hnonneg := totalSize_nonneg hrest
    have hsum : wordOf (total + r.storedSize) = total + r.storedSize :=
      wordOf_eq_self (by omega) (by omega)
    have hmore : Store.excess limit (total + r.storedSize) rest =
        (rest.drop (fitting (limit - (total + r.storedSize)) rest).length).map Record.hash :=
      ih hrest (by omega) (by omega)
    rw [Store.excess]
    simp only [hsum, hmore, fitting]
    by_cases hfits : total + r.storedSize ≤ limit
    · have hlimit : limit - (total + r.storedSize) = limit - total - r.storedSize := by omega
      rw [if_pos hfits, if_pos (by omega), hlimit]
      rfl
    · rw [if_neg hfits, if_neg (by omega), fitting_of_neg hrest (by omega)]
      rfl

end

/-! ### Listings -/

namespace Record

variable {a b c : Record}

theorem isBefore_iff : a.isBefore b = true ↔
    b.created < a.created ∨ a.created = b.created ∧ Text.le a.hash b.hash = true := by
  simp [isBefore]

theorem isBefore_trans (hab : a.isBefore b = true) (hbc : b.isBefore c = true) :
    a.isBefore c = true := by
  rw [isBefore_iff] at *
  rcases hab with hab | ⟨hab, hle⟩ <;> rcases hbc with hbc | ⟨hbc, hle'⟩
  · exact .inl (Int.lt_trans hbc hab)
  · exact .inl (hbc ▸ hab)
  · exact .inl (hab ▸ hbc)
  · exact .inr ⟨hab.trans hbc, Text.le_trans hle hle'⟩

theorem isBefore_total (a b : Record) : (a.isBefore b || b.isBefore a) = true := by
  rw [Bool.or_eq_true, isBefore_iff, isBefore_iff]
  rcases Int.lt_trichotomy a.created b.created with hlt | hsame | hgt
  · exact .inr (.inl hlt)
  · rcases Bool.or_eq_true_iff.1 (Text.le_total a.hash b.hash) with hle | hle
    · exact .inl (.inr ⟨hsame, hle⟩)
    · exact .inr (.inr ⟨hsame.symm, hle⟩)
  · exact .inl (.inl hgt)

theorem hash_eq_of_isBefore (hab : a.isBefore b = true) (hba : b.isBefore a = true) :
    a.hash = b.hash := by
  rw [isBefore_iff] at hab hba
  rcases hab with hab | ⟨hab, hle⟩ <;> rcases hba with hba | ⟨hba, hle'⟩
  · exact absurd hab (Int.lt_asymm hba)
  · exact absurd hab (hba ▸ Int.lt_irrefl _)
  · exact absurd hba (hab ▸ Int.lt_irrefl _)
  · exact Text.le_antisymm hle hle'

end Record

namespace Store

variable {s : Store} {limit : Int}

theorem perm_listing (s : Store) : s.listing.Perm s.records :=
  List.mergeSort_perm s.records Record.isBefore

theorem pairwise_listing (s : Store) : s.listing.Pairwise fun a b => a.isBefore b = true :=
  @List.pairwise_mergeSort Record Record.isBefore (fun _ _ _ => Record.isBefore_trans)
    Record.isBefore_total s.records

theorem sized_listing (h : Sized s.records) : Sized s.listing :=
  fun r hr => h r (s.perm_listing.mem_iff.1 hr)

theorem totalSize_listing (s : Store) : totalSize s.listing = totalSize s.records :=
  totalSize_perm s.perm_listing

theorem Keyed.nodup_listing (h : s.Keyed) : (s.listing.map Record.hash).Nodup :=
  (s.perm_listing.map _).nodup_iff.2 h

theorem Keyed.eq_of_hash_eq (h : s.Keyed) {a b : Record} (ha : a ∈ s.records) (hb : b ∈ s.records)
    (hhash : a.hash = b.hash) : a = b :=
  List.inj_on_of_nodup_map h ha hb hhash

/-- Records in the order of listings are the listing. -/
theorem Keyed.listing_eq (h : s.Keyed) {l : List Record} (hperm : l.Perm s.records)
    (hsorted : l.Pairwise fun a b => a.isBefore b = true) : s.listing = l := by
  have hsame := s.perm_listing.trans hperm.symm
  refine hsame.eq_of_pairwise ?_ s.pairwise_listing hsorted
  intro a b ha hb hab hba
  exact h.eq_of_hash_eq (s.perm_listing.mem_iff.1 ha) (hperm.mem_iff.1 hb)
    (Record.hash_eq_of_isBefore hab hba)

theorem records_foldl_erase (s : Store) (hashes : List Text) :
    (hashes.foldl erase s).records = s.records.filter fun r => r.hash ∉ hashes := by
  induction hashes generalizing s with
  | nil => exact (List.filter_eq_self.2 fun _ _ => by simp).symm
  | cons hash hashes ih =>
    rw [List.foldl_cons, ih, erase, List.filter_filter]
    apply List.filter_congr
    intro r _
    by_cases hr : r.hash = hash <;> simp [hr]

section

variable {kept removed : List Record}

theorem Keyed.not_mem_back (h : s.Keyed) (hlisting : s.listing = kept ++ removed) {r : Record}
    (hr : r ∈ kept) : r.hash ∉ removed.map Record.hash := by
  have hnodup := h.nodup_listing
  rw [hlisting, List.map_append] at hnodup
  intro hback
  exact (List.nodup_append.1 hnodup).2.2 _ (List.mem_map_of_mem hr) _ hback rfl

theorem Keyed.not_mem_back_iff (h : s.Keyed) (hlisting : s.listing = kept ++ removed) {r : Record}
    (hr : r ∈ s.records) : r.hash ∉ removed.map Record.hash ↔ r ∈ kept := by
  constructor
  · intro hfront
    rcases List.mem_append.1 (hlisting ▸ s.perm_listing.mem_iff.2 hr) with hkept | hremoved
    · exact hkept
    · exact absurd (List.mem_map_of_mem hremoved) hfront
  · exact h.not_mem_back hlisting

/-- Removing the records at the back of a listing keeps those at its front. -/
theorem Keyed.erase_back (h : s.Keyed) (hlisting : s.listing = kept ++ removed) :
    (removed.map Record.hash).foldl erase s = ⟨s.records.filter (· ∈ kept)⟩ := by
  rw [Store.mk.injEq, records_foldl_erase]
  apply List.filter_congr
  intro r hr
  rw [decide_eq_decide]
  exact h.not_mem_back_iff hlisting hr

/-- No other records are kept. -/
theorem Keyed.perm_front (h : s.Keyed) (hlisting : s.listing = kept ++ removed) :
    kept.Perm (s.records.filter (· ∈ kept)) := by
  have hremoved : removed.filter (· ∈ kept) = [] := by
    apply List.filter_eq_nil_iff.2
    intro r hr
    rw [decide_eq_true_iff]
    intro hfront
    exact h.not_mem_back hlisting hfront (List.mem_map_of_mem hr)
  have hkept : s.listing.filter (· ∈ kept) = kept := by
    rw [hlisting, List.filter_append, hremoved, List.append_nil]
    exact List.filter_eq_self.2 fun r hr => decide_eq_true hr
  have hperm := s.perm_listing.filter (· ∈ kept)
  rwa [hkept] at hperm

/-- They are listed in the same order. -/
theorem Keyed.listing_front (h : s.Keyed) (hlisting : s.listing = kept ++ removed) :
    listing ⟨s.records.filter (· ∈ kept)⟩ = kept := by
  apply (h.sublist List.filter_sublist).listing_eq (h.perm_front hlisting)
  have hfront : kept.Sublist s.listing := hlisting ▸ List.sublist_append_left kept removed
  exact s.pairwise_listing.sublist hfront

end

/-- What pruning to a size does if all sizes add up to a word. -/
theorem Keyed.pruneSize_eq (h : s.Keyed) (hsized : Sized s.records) (hlimit : 0 < limit)
    (htotal : totalSize s.records ≤ Text.maxInt64) :
    s.pruneSize limit =
      ((s.listing.drop (fitting limit s.listing).length).length,
        ⟨s.records.filter (· ∈ fitting limit s.listing)⟩) := by
  have htotal' : 0 + totalSize s.listing ≤ Text.maxInt64 := by
    rw [totalSize_listing]
    omega
  have hexcess := @excess_eq limit 0 s.listing (sized_listing hsized) (Int.le_refl 0) htotal'
  rw [Int.sub_zero] at hexcess
  have hlisting : s.listing = fitting limit s.listing ++
      s.listing.drop (fitting limit s.listing).length :=
    (List.prefix_iff_eq_append.1 (fitting_isPrefix limit s.listing)).symm
  simp only [pruneSize, hexcess, List.length_map]
  rw [if_neg (by omega), h.erase_back hlisting]

/-- A store that fits is left as it is. -/
theorem Keyed.pruneSize_of_fits (h : s.Keyed) (hsized : Sized s.records) (hlimit : 0 < limit)
    (htotal : totalSize s.records ≤ Text.maxInt64) (hfits : totalSize s.records ≤ limit) :
    s.pruneSize limit = (0, s) := by
  have hall : fitting limit s.listing = s.listing :=
    fitting_eq_self (sized_listing hsized) (s.totalSize_listing ▸ hfits)
  rw [h.pruneSize_eq hsized hlimit htotal, hall, List.drop_length, List.length_nil]
  have hrecords : s.records.filter (· ∈ s.listing) = s.records :=
    List.filter_eq_self.2 fun r hr => decide_eq_true (s.perm_listing.mem_iff.2 hr)
  rw [hrecords]

end Store

theorem list_of_open {c : Cache} (hopen : c.isOpen = true) : c.list = .ok c.store.listing := by
  rw [Cache.list, whenOpen, if_pos hopen]

theorem pruneSize_of_open {c : Cache} {limit : Int} (hopen : c.isOpen = true) (hlimit : 0 < limit) :
    c.pruneSize limit = .ok (c.removed (c.store.pruneSize limit)) := by
  rw [Cache.pruneSize, if_neg (by omega), whenOpen, if_pos hopen]

/-- Pruning to a size keeps the longest part at the front of the listing that fits, with all data
    of its records, and removes the others. Doing it again removes nothing, and a limit of zero or
    below changes nothing. The sizes of all records together must be a word of 64 bits. -/
theorem pruneSize_keeps_newest (c : Cache) (limit : Int) (hkeys : c.store.Keyed)
    (hsized : Sized c.store.records) :
    (limit ≤ 0 → c.pruneSize limit = .ok (0, c)) ∧
      (0 < limit → c.isOpen = true → totalSize c.store.records ≤ Text.maxInt64 →
        ∃ listing kept count c', c.list = .ok listing ∧ c'.list = .ok kept ∧
          c.pruneSize limit = .ok (count, c') ∧ IsLongestFitting limit listing kept ∧
          c' = { c with store := ⟨c.store.records.filter (· ∈ kept)⟩ } ∧
          count + c'.store.records.length = c.store.records.length ∧
          totalSize c'.store.records ≤ limit ∧ c'.pruneSize limit = .ok (0, c')) := by
  constructor
  · intro hlimit
    rw [Cache.pruneSize, if_pos hlimit]
  intro hlimit hopen htotal
  have hsized' := Store.sized_listing hsized
  have hkept := isLongestFitting_fitting hsized' (Int.le_of_lt hlimit)
  have hprune := hkeys.pruneSize_eq hsized hlimit htotal
  generalize fitting limit c.store.listing = kept at hkept hprune
  obtain ⟨rest, hlisting⟩ := hkept.isPrefix
  have hperm := hkeys.perm_front hlisting.symm
  have hfront := hkeys.listing_front hlisting.symm
  -- From here on `store` is the store of what is kept.
  generalize hstore : (⟨c.store.records.filter (· ∈ kept)⟩ : Store) = store at hprune hfront
  have hrecords : store.records = c.store.records.filter (· ∈ kept) := by rw [← hstore]
  rw [← hrecords] at hperm
  have hsub : store.records.Sublist c.store.records := hrecords ▸ List.filter_sublist
  have hfits : totalSize store.records ≤ limit := totalSize_perm hperm ▸ hkept.fits
  have hsmall : totalSize store.records ≤ Text.maxInt64 :=
    calc totalSize store.records = totalSize kept := (totalSize_perm hperm).symm
      _ ≤ totalSize c.store.listing := totalSize_prefix_le hsized' hkept.isPrefix
      _ = totalSize c.store.records := c.store.totalSize_listing
      _ ≤ Text.maxInt64 := htotal
  refine ⟨c.store.listing, kept, rest.length, { c with store }, list_of_open hopen, ?_, ?_, hkept,
    by rw [hstore], ?_, hfits, ?_⟩
  · rw [@list_of_open { c with store } hopen, hfront]
  · rw [pruneSize_of_open hopen hlimit, hprune, Cache.removed, ← hlisting, List.drop_left]
  · rw [← hperm.length_eq, ← c.store.perm_listing.length_eq, ← hlisting, List.length_append]
    omega
  · have hagain : store.pruneSize limit = (0, store) :=
      (hkeys.sublist hsub).pruneSize_of_fits (fun r hr => hsized r (hsub.subset hr)) hlimit hsmall
        hfits
    rw [@pruneSize_of_open { c with store } limit hopen hlimit, hagain, Cache.removed]

/-- Two records of the same age, of nine bytes together, and an older one. -/
def sampleStore : Store where
  records :=
    [ ⟨[0x63], 1, 2, 1, [0x00], 10⟩, ⟨[0x62], 1, 5, 1, [0x00], 20⟩, ⟨[0x61], 1, 4, 1, [0x00], 20⟩ ]

/-- A limit of nine bytes removes the older record. -/
theorem pruneSize_keeps_newest_tied :
    sampleStore.Keyed ∧ Sized sampleStore.records ∧
      totalSize sampleStore.records ≤ Text.maxInt64 ∧
      ∃ listing kept count c', Cache.list { version := [], store := sampleStore } = .ok listing ∧
        c'.list = .ok kept ∧
        Cache.pruneSize { version := [], store := sampleStore } 9 = .ok (count, c') ∧
        IsLongestFitting 9 listing kept ∧
        c' = { version := [], store := ⟨sampleStore.records.filter (· ∈ kept)⟩ } ∧
        count + c'.store.records.length = 3 ∧ totalSize c'.store.records ≤ 9 ∧
        c'.pruneSize 9 = .ok (0, c') := by
  have hkeys : sampleStore.Keyed := by
    unfold Store.Keyed
    decide
  have hsized : Sized sampleStore.records := by
    unfold Sized
    decide
  have htotal : totalSize sampleStore.records ≤ Text.maxInt64 := by decide
  exact ⟨hkeys, hsized, htotal, (pruneSize_keeps_newest { version := [], store := sampleStore } 9
    hkeys hsized).2 (by decide) rfl htotal⟩

/-! ### Sums beyond a word -/

section

variable {limit total : Int} {listing front back : List Record} {r : Record}

theorem excess_append (hsized : Sized front) (h0 : 0 ≤ total)
    (htotal : total + totalSize front ≤ Text.maxInt64) :
    Store.excess limit total (front ++ back) =
      Store.excess limit total front ++ Store.excess limit (total + totalSize front) back := by
  induction front generalizing total with
  | nil => simp [Store.excess, totalSize]
  | cons r front ih =>
    obtain ⟨hr, hfront⟩ := sized_cons.1 hsized
    have hnonneg := totalSize_nonneg hfront
    rw [totalSize] at htotal
    have hsum : wordOf (total + r.storedSize) = total + r.storedSize :=
      wordOf_eq_self (by omega) (by omega)
    have hmore : Store.excess limit (total + r.storedSize) (front ++ back) =
        Store.excess limit (total + r.storedSize) front ++
          Store.excess limit (total + r.storedSize + totalSize front) back :=
      ih hfront (by omega) (by omega)
    rw [List.cons_append, Store.excess, Store.excess]
    simp only [hsum, hmore, totalSize, Int.add_assoc]
    split <;> rfl

theorem excess_subset (limit total : Int) (listing : List Record) :
    Store.excess limit total listing ⊆ listing.map Record.hash := by
  induction listing generalizing total with
  | nil => exact List.Subset.refl _
  | cons r rest ih =>
    rw [Store.excess, List.map_cons]
    split
    · exact List.subset_cons_of_subset _ (ih _)
    · exact List.cons_subset_cons _ (ih _)

/-- Sizes that add up to more than a word do so with some record for the first time. -/
theorem exists_overflowing (htotal : total ≤ Text.maxInt64)
    (h : Text.maxInt64 < total + totalSize listing) :
    ∃ front r back, listing = front ++ r :: back ∧ total + totalSize front ≤ Text.maxInt64 ∧
      Text.maxInt64 < total + totalSize front + r.storedSize := by
  induction listing generalizing total with
  | nil =>
    rw [totalSize] at h
    omega
  | cons r rest ih =>
    rw [totalSize] at h
    by_cases hr : total + r.storedSize ≤ Text.maxInt64
    · obtain ⟨front, r', back, rfl, hfront, hover⟩ := ih hr (by omega)
      refine ⟨r :: front, r', back, rfl, ?_, ?_⟩
      · rw [totalSize]
        omega
      · rw [totalSize]
        omega
    · refine ⟨[], r, rest, rfl, ?_, ?_⟩
      · rw [totalSize]
        omega
      · rw [totalSize]
        omega

/-- A part at the front of a listing that has some record has all before it. -/
theorem prefix_of_mem {kept : List Record} (hnodup : (front ++ r :: back).Nodup)
    (hkept : kept <+: front ++ r :: back) (hr : r ∈ kept) : front ++ [r] <+: kept := by
  have hwith : front ++ [r] <+: front ++ r :: back := ⟨back, by simp⟩
  by_cases hlength : (front ++ [r]).length ≤ kept.length
  · exact List.prefix_of_prefix_length_le hwith hkept hlength
  · have hbefore : kept <+: front := by
      apply List.prefix_of_prefix_length_le hkept (List.prefix_append front _)
      simp only [List.length_append, List.length_singleton] at hlength
      omega
    have hapart := (List.nodup_append.1 hnodup).2.2
    exact absurd rfl (hapart r (hbefore.subset hr) r List.mem_cons_self)

/-- The record with which the sum turns negative is not removed. -/
theorem hash_not_mem_excess (hkeys : ((front ++ r :: back).map Record.hash).Nodup)
    (hsized : Sized front) (hlimit : 0 < limit) (hr : r.storedSize ≤ Text.maxInt64)
    (hfront : totalSize front ≤ Text.maxInt64)
    (hover : Text.maxInt64 < totalSize front + r.storedSize) :
    r.hash ∉ Store.excess limit 0 (front ++ r :: back) := by
  rw [List.map_append, List.map_cons, List.nodup_append, List.nodup_cons] at hkeys
  obtain ⟨-, ⟨hback, -⟩, hapart⟩ := hkeys
  have hneg := wordOf_neg hover (by omega)
  rw [excess_append hsized (Int.le_refl 0) (by omega), Int.zero_add, Store.excess,
    if_pos (by omega), List.mem_append]
  rintro (hmem | hmem)
  · exact hapart _ (excess_subset _ _ _ hmem) _ List.mem_cons_self rfl
  · exact hback (excess_subset _ _ _ hmem)

end

/-- The sizes of all records have to add up to a word: if they do not, a record is kept that does
    not fit. -/
theorem Store.Keyed.isLongestFitting_iff {s : Store} {limit : Int} (h : s.Keyed)
    (hsized : Sized s.records) (hwords : ∀ r ∈ s.records, r.storedSize ≤ Text.maxInt64)
    (hlimit : 0 < limit) (hlimit' : limit ≤ Text.maxInt64) :
    IsLongestFitting limit s.listing (s.pruneSize limit).2.listing ↔
      totalSize s.records ≤ Text.maxInt64 := by
  have hsized' := sized_listing hsized
  constructor
  · intro hlongest
    by_contra htotal
    have htotal' : Text.maxInt64 < 0 + totalSize s.listing := by
      rw [totalSize_listing]
      omega
    obtain ⟨front, r, back, hlisting, hfront, hover⟩ :=
      exists_overflowing (by rw [Text.maxInt64]; omega) htotal'
    rw [Int.zero_add] at hfront hover
    have hr : r ∈ s.records := s.perm_listing.mem_iff.1 (by simp [hlisting])
    have hkeys : ((front ++ r :: back).map Record.hash).Nodup := hlisting ▸ h.nodup_listing
    have hnotexcess := hash_not_mem_excess hkeys
      (fun a ha => hsized' a (by simp [hlisting, ha])) hlimit (hwords r hr) hfront hover
    have hkept : r ∈ (s.pruneSize limit).2.listing := by
      rw [(Store.perm_listing _).mem_iff, Store.pruneSize, if_neg (by omega), hlisting]
      simp only [records_foldl_erase]
      exact List.mem_filter.2 ⟨hr, decide_eq_true hnotexcess⟩
    have hover' : front ++ [r] <+: (s.pruneSize limit).2.listing :=
      prefix_of_mem (hkeys.of_map _) (hlisting ▸ hlongest.isPrefix) hkept
    have hle := totalSize_prefix_le (fun a ha => hsized' a (hlongest.isPrefix.subset ha)) hover'
    have hfits := hlongest.fits
    rw [totalSize_append, totalSize, totalSize] at hle
    omega
  · intro htotal
    have hkept := isLongestFitting_fitting hsized' (Int.le_of_lt hlimit)
    obtain ⟨rest, hlisting⟩ := hkept.isPrefix
    rw [h.pruneSize_eq hsized hlimit htotal, h.listing_front hlisting.symm]
    exact hkept

/-- A record of the greatest size, and an older one of a byte. -/
def oversizedStore : Store where
  records := [⟨[0x61], 9, 1, 9, [0x00], 1⟩, ⟨[0x62], 9, Text.maxInt64, 9, [0x00], 2⟩]

/-- With a limit of ten bytes the newer record is removed and the older one is kept, which is not
    the longest part at the front that fits. -/
theorem pruneSize_oversized :
    oversizedStore.Keyed ∧ Sized oversizedStore.records ∧
      oversizedStore.pruneSize 10 = (1, ⟨[⟨[0x61], 9, 1, 9, [0x00], 1⟩]⟩) ∧
      ¬ IsLongestFitting 10 oversizedStore.listing (oversizedStore.pruneSize 10).2.listing := by
  have hkeys : oversizedStore.Keyed := by
    unfold Store.Keyed
    decide
  have hsized : Sized oversizedStore.records := by
    unfold Sized
    decide
  have hlisting : oversizedStore.listing = oversizedStore.records.reverse :=
    hkeys.listing_eq (List.reverse_perm _) (by decide)
  refine ⟨hkeys, hsized, ?_, ?_⟩
  · rw [Store.pruneSize, hlisting]
    decide
  · rw [hkeys.isLongestFitting_iff hsized (by decide) (by decide) (by decide)]
    decide

end Goat.Cache
