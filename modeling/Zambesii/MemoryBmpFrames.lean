import Zambesii.ConstrainedGetFrames
import Zambesii.Runs

/-!
The operations of `MemoryBmp` against what they are for, frame by frame: the search of
`fragmentedGetFrames` as it goes over the words of the bitmap, `releaseFrames`, `merge` and
`initialize`.
-/

namespace Zambesii.MemoryBmpFrames

open BitManipulation List Nat
open ConstrainedGetFrames (Compiler Element constrainedGetFrames)
open KernelTypes
open MemoryBmp (bitsPerIndex findUnset countUnset)
open Runs

def nIndexes (bmp : MemoryBmp) : Nat :=
  bmp.bmpNFrames / bitsPerIndex + if bmp.bmpNFrames % bitsPerIndex ≠ 0 then 1 else 0

def isFullSlot (bits : Bits) (i : Nat) : Bool :=
  (List.range bitsPerIndex).all fun bit => bits (i * bitsPerIndex + bit)

/-- `bitLimit` after the test for the last index. -/
def bitLimitAt (bmp : MemoryBmp) (i bitLimit : Nat) : Nat :=
  if i = nIndexes bmp - 1 then
    if bmp.bmpNFrames % bitsPerIndex = 0 then bitsPerIndex else bmp.bmpNFrames % bitsPerIndex
  else bitLimit

/-- The loop over `k`: `nFound`, and whether it left by `goto out`. -/
def scanBits (bits : Bits) (nFrames i : Nat) : (remaining k nFound : Nat) → Nat × Bool
  | 0, _, nFound => (nFound, false)
  | remaining + 1, k, nFound =>
    if bits (i * bitsPerIndex + k) then (nFound, true)
    else if nFrames ≤ nFound + 1 then (nFound + 1, true)
    else scanBits bits nFrames i remaining (k + 1) (nFound + 1)

/-- The inner loop over `i`: `nFound`, `bitLimit`, and whether it left by `goto out`. -/
def scanIndexes (bmp : MemoryBmp) (nFrames j : Nat) :
    (remaining i nFound bitLimit : Nat) → Nat × Nat × Bool
  | 0, _, nFound, bitLimit => (nFound, bitLimit, false)
  | remaining + 1, i, nFound, bitLimit =>
    if isFullSlot bmp.bits i then (nFound, bitLimit, true)
    else
      let bitLimit := bitLimitAt bmp i bitLimit
      let k := if nFound = 0 then j else 0
      match scanBits bmp.bits nFrames i (bitLimit - k) k nFound with
      | (nFound, true) => (nFound, bitLimit, true)
      | (nFound, false) => scanIndexes bmp nFrames j remaining (i + 1) nFound bitLimit

/-- How the loop over `j` is left: by `goto out`, or at its end with the variables it shares
with the loops around it. -/
inductive Left
  | out (start nFound : Nat)
  | next (i nFound bitLimit : Nat)

/-- The loop over `j`. It goes on after the inner loop over `i` has come to the end of the
bitmap, on the word behind it. -/
def searchBits (bmp : MemoryBmp) (nFrames : Nat) : (fuel j i nFound bitLimit : Nat) → Left
  | 0, _, i, nFound, bitLimit => .next i nFound bitLimit
  | fuel + 1, j, i, nFound, bitLimit =>
    if j < bitLimit then
      if bmp.bits (i * bitsPerIndex + j) then
        searchBits bmp nFrames fuel (j + 1) i nFound bitLimit
      else
        match scanIndexes bmp nFrames j (nIndexes bmp - i) i nFound bitLimit with
        | (nFound, _, true) => .out (i * bitsPerIndex + j) nFound
        | (nFound, bitLimit, false) =>
          searchBits bmp nFrames fuel (j + 1) (i + (nIndexes bmp - i)) nFound bitLimit
    else .next i nFound bitLimit

def search (bmp : MemoryBmp) (nFrames : Nat) : (fuel i nFound bitLimit : Nat) → Option (Nat × Nat)
  | 0, _, _, _ => none
  | fuel + 1, i, nFound, bitLimit =>
    if i < nIndexes bmp then
      if isFullSlot bmp.bits i then search bmp nFrames fuel (i + 1) nFound bitLimit
      else
        match searchBits bmp nFrames bitsPerIndex 0 i nFound (bitLimitAt bmp i bitLimit) with
        | .out start nFound => some (start, nFound)
        | .next i nFound bitLimit => search bmp nFrames fuel (i + 1) nFound bitLimit
    else none

def fragmentedGetFrames (bmp : MemoryBmp) (nFrames : Nat) :
    Except Kerror (Option (Nat × Nat)) × MemoryBmp :=
  if nFrames = 0 then (.ok none, bmp)
  else
    match search bmp nFrames (nIndexes bmp) bmp.lastAllocIndex 0 bitsPerIndex with
    | none => (.error .memoryNomemPhysical, bmp)
    | some (start, nFound) =>
      (.ok (some ((bmp.basePfn + start) * pagingBaseSize, nFound)),
        { bmp with
          bits := setBits bmp.bits start nFound
          lastAllocIndex := (start + nFound) / bitsPerIndex })

section

variable {bmp : MemoryBmp} {bits : Bits} {nFrames : Nat}

theorem nIndexes_spec (bmp : MemoryBmp) : bmp.bmpNFrames ≤ nIndexes bmp * bitsPerIndex ∧
      nIndexes bmp * bitsPerIndex < bmp.bmpNFrames + bitsPerIndex := by
  rw [nIndexes, bitsPerIndex]
  split <;> omega

def Limits (bmp : MemoryBmp) (i bitLimit : Nat) : Prop :=
  i + 1 < nIndexes bmp → bitLimit = bitsPerIndex

theorem bitLimitAt_of_lt {i bitLimit : Nat} (h : Limits bmp i bitLimit)
    (hi : i + 1 < nIndexes bmp) : bitLimitAt bmp i bitLimit = bitsPerIndex := by
  rw [bitLimitAt, if_neg (by omega)]
  exact h hi

theorem bitLimitAt_last {i bitLimit : Nat} (hi : i + 1 = nIndexes bmp) :
    i * bitsPerIndex + bitLimitAt bmp i bitLimit = bmp.bmpNFrames := by
  rw [bitLimitAt, if_pos (by omega)]
  have hspec := nIndexes_spec bmp
  rw [bitsPerIndex] at hspec ⊢
  split <;> omega

theorem remaining_eq {i bitLimit : Nat} (h : Limits bmp i bitLimit) (hi : i < nIndexes bmp) :
    i * bitsPerIndex + bitLimitAt bmp i bitLimit ≤ bmp.bmpNFrames ∧
      0 < bitLimitAt bmp i bitLimit ∧ bitLimitAt bmp i bitLimit ≤ bitsPerIndex ∧
      (bmp.bmpNFrames - (i * bitsPerIndex + bitLimitAt bmp i bitLimit) =
        bmp.bmpNFrames - (i + 1) * bitsPerIndex) := by
  have hspec := nIndexes_spec bmp
  rcases lt_or_ge (i + 1) (nIndexes bmp) with hlt | hge
  · rw [bitLimitAt_of_lt h hlt]
    rw [bitsPerIndex] at hspec ⊢
    omega
  have hlast := @bitLimitAt_last bmp i bitLimit (by omega)
  rw [bitsPerIndex] at hspec hlast ⊢
  omega

theorem isFullSlot_iff {i : Nat} :
    isFullSlot bits i = true ↔ ∀ bit < bitsPerIndex, bits (i * bitsPerIndex + bit) = true := by
  rw [isFullSlot, all_eq_true]
  constructor
  · intro h bit hbit
    exact h bit (mem_range.mpr hbit)
  · intro h bit hbit
    exact h bit (mem_range.mp hbit)

theorem countUnset_add (i remaining rest k nFound : Nat) :
    countUnset bits nFrames (remaining + rest) (i * bitsPerIndex + k) nFound =
      if (scanBits bits nFrames i remaining k nFound).2 then
        some (scanBits bits nFrames i remaining k nFound).1
      else countUnset bits nFrames rest (i * bitsPerIndex + (k + remaining))
        (nFound + remaining) := by
  induction remaining generalizing k nFound with
  | zero => rw [zero_add]; rfl
  | succ remaining ih =>
    rw [show remaining + 1 + rest = remaining + rest + 1 by omega, countUnset, scanBits]
    split
    · rfl
    split
    · rfl
    · rw [add_assoc, ih (k + 1) (nFound + 1)]
      rw [show k + 1 + remaining = k + (remaining + 1) by omega,
        show nFound + 1 + remaining = nFound + (remaining + 1) by omega]

theorem scanBits_not_out {i remaining k nFound : Nat}
    (h : (scanBits bits nFrames i remaining k nFound).2 = false) :
    (scanBits bits nFrames i remaining k nFound).1 = nFound + remaining := by
  induction remaining generalizing k nFound with
  | zero => rfl
  | succ remaining ih =>
    rw [scanBits] at h ⊢
    split at h
    · cases h
    rename_i hbit
    rw [if_neg hbit]
    split at h
    · cases h
    · rename_i hmore
      rw [if_neg hmore, ih h]
      omega

theorem countUnset_of_le {position : Nat} (h : bmp.bmpNFrames ≤ position) (nFound : Nat) :
    countUnset bits nFrames (bmp.bmpNFrames - position) position nFound = none := by
  rw [Nat.sub_eq_zero_of_le h]
  rfl

theorem countUnset_of_set {remaining position nFound : Nat} (hpos : 0 < remaining)
    (h : bits position = true) :
    countUnset bits nFrames remaining position nFound = some nFound := by
  obtain ⟨fewer, rfl⟩ := exists_eq_succ_of_ne_zero (ne_of_gt hpos)
  rw [countUnset, if_pos h]

theorem scanIndexes_eq {j k remaining i nFound bitLimit : Nat}
    (hremaining : remaining = nIndexes bmp - i) (hlimits : Limits bmp i bitLimit)
    (hk : k = if nFound = 0 then j else 0)
    (hlt : i < nIndexes bmp → k < bitLimitAt bmp i bitLimit) :
    countUnset bmp.bits nFrames (bmp.bmpNFrames - (i * bitsPerIndex + k))
        (i * bitsPerIndex + k) nFound =
      if (scanIndexes bmp nFrames j remaining i nFound bitLimit).2.2 then
        some (scanIndexes bmp nFrames j remaining i nFound bitLimit).1
      else none := by
  induction remaining generalizing i k nFound bitLimit with
  | zero =>
    have hspec := (nIndexes_spec bmp).1
    have hle : nIndexes bmp * bitsPerIndex ≤ i * bitsPerIndex :=
      mul_le_mul_right _ (by omega)
    exact countUnset_of_le (by omega) nFound
  | succ remaining ih =>
    have hi : i < nIndexes bmp := by omega
    have hk' := hlt hi
    obtain ⟨hend, hpos, hle, hrest⟩ := remaining_eq hlimits hi
    rw [scanIndexes]
    split
    · rename_i hfull
      have hbit := isFullSlot_iff.mp hfull k (by omega)
      rw [countUnset_of_set (by omega) hbit]
      rfl
    rw [← hk]
    have hadd := @countUnset_add bmp.bits nFrames i (bitLimitAt bmp i bitLimit - k)
      (bmp.bmpNFrames - (i + 1) * bitsPerIndex) k nFound
    rw [← hrest, show bitLimitAt bmp i bitLimit - k +
      (bmp.bmpNFrames - (i * bitsPerIndex + bitLimitAt bmp i bitLimit)) =
      bmp.bmpNFrames - (i * bitsPerIndex + k) by omega] at hadd
    rw [hadd]
    have hfound := @scanBits_not_out bmp.bits nFrames i (bitLimitAt bmp i bitLimit - k) k nFound
    obtain ⟨found, out, hscan⟩ : ∃ found out, scanBits bmp.bits nFrames i
        (bitLimitAt bmp i bitLimit - k) k nFound = (found, out) := ⟨_, _, rfl⟩
    rw [hscan] at hfound
    simp only [hscan]
    cases out with
    | true => rfl
    | false =>
      obtain rfl := hfound rfl
      rw [if_neg Bool.false_ne_true]
      -- the next word is entered at its first bit, since this one gave frames
      have hnext : Limits bmp (i + 1) (bitLimitAt bmp i bitLimit) := by
        intro hmore
        exact bitLimitAt_of_lt hlimits (by omega)
      have hzero : (0 : Nat) =
          if nFound + (bitLimitAt bmp i bitLimit - k) = 0 then j else 0 := by
        rw [if_neg (by omega)]
      have hih := ih (by omega) hnext hzero fun hi' => (remaining_eq hnext hi').2.1
      rw [add_zero] at hih
      rw [← hih, hrest, Nat.add_sub_cancel' hk'.le]
      rcases lt_or_ge (i + 1) (nIndexes bmp) with hmore | hlast
      · rw [bitLimitAt_of_lt hlimits hmore, succ_mul]
      have hspec := (nIndexes_spec bmp).1
      have hmul : nIndexes bmp * bitsPerIndex ≤ (i + 1) * bitsPerIndex :=
        mul_le_mul_right _ hlast
      rw [Nat.sub_eq_zero_of_le (by omega)]
      rfl

def flatSearch (bmp : MemoryBmp) (nFrames position : Nat) : Option (Nat × Nat) := do
  let start ← findUnset bmp.bits (bmp.bmpNFrames - position) position
  let nFound ← countUnset bmp.bits nFrames (bmp.bmpNFrames - start) start 0
  some (start, nFound)

theorem flatSearch_of_le {position : Nat} (h : bmp.bmpNFrames ≤ position) :
    flatSearch bmp nFrames position = none := by
  rw [flatSearch, Nat.sub_eq_zero_of_le h]
  rfl

theorem flatSearch_of_set {position : Nat} (h : bmp.bits position = true) :
    flatSearch bmp nFrames position = flatSearch bmp nFrames (position + 1) := by
  rcases lt_or_ge position bmp.bmpNFrames with hlt | hge
  · rw [flatSearch, flatSearch, show bmp.bmpNFrames - position =
      bmp.bmpNFrames - (position + 1) + 1 by omega, findUnset, if_pos h]
  · rw [flatSearch_of_le hge, flatSearch_of_le (by omega)]

theorem flatSearch_of_unset {position : Nat} (hlt : position < bmp.bmpNFrames)
    (h : bmp.bits position = false) :
    flatSearch bmp nFrames position =
      (countUnset bmp.bits nFrames (bmp.bmpNFrames - position) position 0).map
        fun nFound => (position, nFound) := by
  have hfind : findUnset bmp.bits (bmp.bmpNFrames - position) position = some position := by
    rw [show bmp.bmpNFrames - position = bmp.bmpNFrames - (position + 1) + 1 by omega, findUnset,
      if_neg (by rw [h]; exact Bool.false_ne_true)]
  rw [flatSearch, hfind]
  dsimp only [some_bind]
  cases countUnset bmp.bits nFrames (bmp.bmpNFrames - position) position 0 with
  | none => rfl
  | some nFound => rfl

theorem flatSearch_skip {position count : Nat}
    (h : ∀ bit < count, bmp.bits (position + bit) = true) :
    flatSearch bmp nFrames position = flatSearch bmp nFrames (position + count) := by
  induction count with
  | zero => rfl
  | succ count ih =>
    rw [ih fun bit hbit => h bit (by omega), flatSearch_of_set (h count (by omega))]
    rfl

theorem searchBits_beyond {fuel j i nFound bitLimit : Nat} (hi : nIndexes bmp ≤ i) :
    ∃ i' nFound' bitLimit', searchBits bmp nFrames fuel j i nFound bitLimit =
      .next i' nFound' bitLimit' ∧ nIndexes bmp ≤ i' := by
  induction fuel generalizing j i nFound bitLimit with
  | zero => exact ⟨i, nFound, bitLimit, rfl, hi⟩
  | succ fuel ih =>
    rw [searchBits]
    split
    · split
      · exact ih hi
      · rw [Nat.sub_eq_zero_of_le hi]
        exact ih hi
    · exact ⟨i, nFound, bitLimit, rfl, hi⟩

theorem searchBits_eq {fuel j i bitLimit : Nat} (hi : i < nIndexes bmp)
    (hlimits : Limits bmp i bitLimit) (hlimit : bitLimitAt bmp i bitLimit = bitLimit)
    (hj : j ≤ bitLimit) (hfuel : bitLimit ≤ j + fuel) :
    (∃ start nFound, searchBits bmp nFrames fuel j i 0 bitLimit = .out start nFound ∧
      flatSearch bmp nFrames (i * bitsPerIndex + j) = some (start, nFound)) ∨
    (searchBits bmp nFrames fuel j i 0 bitLimit = .next i 0 bitLimit ∧
      flatSearch bmp nFrames (i * bitsPerIndex + j) =
        flatSearch bmp nFrames (i * bitsPerIndex + bitLimit)) ∨
    ∃ i' nFound bitLimit', searchBits bmp nFrames fuel j i 0 bitLimit = .next i' nFound bitLimit' ∧
      nIndexes bmp ≤ i' ∧ flatSearch bmp nFrames (i * bitsPerIndex + j) = none := by
  induction fuel generalizing j with
  | zero =>
    obtain rfl : j = bitLimit := by omega
    exact .inr (.inl ⟨rfl, rfl⟩)
  | succ fuel ih =>
    rw [searchBits]
    rcases lt_or_ge j bitLimit with hlt | hge
    · rw [if_pos hlt]
      cases hbit : bmp.bits (i * bitsPerIndex + j) with
      | true =>
        rw [if_pos rfl, flatSearch_of_set hbit]
        exact ih hlt (by omega)
      | false =>
        obtain ⟨hend, -⟩ := remaining_eq hlimits hi
        have hscan := @scanIndexes_eq bmp nFrames j j (nIndexes bmp - i) i 0 bitLimit rfl
          hlimits rfl fun _ => by omega
        have hflat := @flatSearch_of_unset bmp nFrames (i * bitsPerIndex + j) (by omega) hbit
        rw [hscan] at hflat
        obtain ⟨found, limit, out, heq⟩ : ∃ found limit out, scanIndexes bmp nFrames j
            (nIndexes bmp - i) i 0 bitLimit = (found, limit, out) := ⟨_, _, _, rfl⟩
        simp only [heq] at hflat ⊢
        cases out with
        | true => exact .inl ⟨_, _, rfl, hflat⟩
        | false =>
          obtain ⟨i', nFound', limit', hnext, hi'⟩ := @searchBits_beyond bmp nFrames fuel
            (j + 1) (i + (nIndexes bmp - i)) found limit (by omega)
          exact .inr (.inr ⟨i', nFound', limit', hnext, hi', hflat⟩)
    · obtain rfl : j = bitLimit := by omega
      rw [if_neg (by omega)]
      exact .inr (.inl ⟨rfl, rfl⟩)

theorem search_eq {fuel i bitLimit : Nat} (hlimits : Limits bmp i bitLimit)
    (hfuel : nIndexes bmp ≤ i + fuel) :
    search bmp nFrames fuel i 0 bitLimit = flatSearch bmp nFrames (i * bitsPerIndex) := by
  have hspec := (nIndexes_spec bmp).1
  have hbeyond : ∀ {i}, nIndexes bmp ≤ i → flatSearch bmp nFrames (i * bitsPerIndex) = none := by
    intro i hle
    have hmul : nIndexes bmp * bitsPerIndex ≤ i * bitsPerIndex := mul_le_mul_right _ hle
    exact flatSearch_of_le (by omega)
  induction fuel generalizing i bitLimit with
  | zero => rw [hbeyond (by omega), search]
  | succ fuel ih =>
    rw [search]
    rcases lt_or_ge i (nIndexes bmp) with hi | hi
    · rw [if_pos hi]
      cases hfull : isFullSlot bmp.bits i with
      | true =>
        rw [if_pos rfl, flatSearch_skip (isFullSlot_iff.mp hfull), ← succ_mul]
        exact ih (fun hmore => hlimits (by omega)) (by omega)
      | false =>
        rw [if_neg Bool.false_ne_true]
        obtain ⟨hend, hpos, hle, hrest⟩ := remaining_eq hlimits hi
        have hlimits' : Limits bmp i (bitLimitAt bmp i bitLimit) :=
          fun hmore => bitLimitAt_of_lt hlimits hmore
        have hsame : bitLimitAt bmp i (bitLimitAt bmp i bitLimit) =
            bitLimitAt bmp i bitLimit := by
          rw [bitLimitAt, bitLimitAt]
          split <;> rfl
        have hbits := @searchBits_eq bmp nFrames bitsPerIndex 0 i (bitLimitAt bmp i bitLimit) hi
          hlimits' hsame (zero_le _) (by omega)
        rw [add_zero] at hbits
        rcases hbits with ⟨start, nFound, hout, hflat⟩ | ⟨hnext, hflat⟩ |
          ⟨i', nFound, limit, hnext, hi', hflat⟩
        · rw [hout, hflat]
        · rw [hnext, hflat]
          dsimp only
          rw [ih (fun hmore => hlimits' (by omega)) (by omega)]
          rcases lt_or_ge (i + 1) (nIndexes bmp) with hmore | hlast
          · rw [bitLimitAt_of_lt hlimits hmore, succ_mul]
          · rw [hbeyond hlast, flatSearch_of_le]
            rw [@bitLimitAt_last bmp i bitLimit (by omega)]
        · rw [hnext, hflat]
          dsimp only
          cases fuel with
          | zero => rfl
          | succ fuel => rw [search, if_neg (by omega)]
    · rw [if_neg (by omega), hbeyond hi]

theorem fragmentedGetFrames_eq (bmp : MemoryBmp) (nFrames : Nat) :
    fragmentedGetFrames bmp nFrames = bmp.fragmentedGetFrames nFrames := by
  have hlimits : Limits bmp bmp.lastAllocIndex bitsPerIndex := fun _ => rfl
  rw [fragmentedGetFrames, MemoryBmp.fragmentedGetFrames, search_eq hlimits (by omega)]
  rfl

end

section

variable {bmp : MemoryBmp} {bits : Bits} {nFrames : Nat}

/-- What a search for frames should come to: some of the free frames that follow each other are
handed out and marked, or there are none. -/
def Exact (bmp : MemoryBmp) (nFrames : Nat) :
    Except Kerror (Option (Nat × Nat)) × MemoryBmp → Prop
  | (.ok none, _) => False
  | (.ok (some (paddr, n)), after) =>
    1 ≤ n ∧ n ≤ nFrames ∧ after.baseAddr = bmp.baseAddr ∧ after.endAddr = bmp.endAddr ∧
      ∃ start, paddr = (bmp.basePfn + start) * pagingBaseSize ∧ start + n ≤ bmp.bmpNFrames ∧
        AllUnset bmp.bits start n ∧
        ∀ bit, after.bits bit = true ↔ bmp.bits bit = true ∨ start ≤ bit ∧ bit < start + n
  | (.error _, after) => after = bmp ∧ ∀ bit < bmp.bmpNFrames, bmp.bits bit = true

/-- The first free frame from the word of the last allocation on begins a stretch that a used
frame ends, or that is long enough. -/
def Begins (bmp : MemoryBmp) (nFrames start : Nat) : Prop :=
  bmp.lastAllocIndex * bitsPerIndex ≤ start ∧ start < bmp.bmpNFrames ∧
    bmp.bits start = false ∧
    (∀ bit, bmp.lastAllocIndex * bitsPerIndex ≤ bit → bit < start → bmp.bits bit = true) ∧
    (start + nFrames ≤ bmp.bmpNFrames ∨
      ∃ bit, start < bit ∧ bit < bmp.bmpNFrames ∧ bmp.bits bit = true)

def Finds (bmp : MemoryBmp) (nFrames : Nat) : Prop :=
  (∀ bit < bmp.bmpNFrames, bmp.bits bit = true) ∨ ∃ start, Begins bmp nFrames start

theorem findUnset_eq_some_iff {remaining bit start : Nat} :
    findUnset bits remaining bit = some start ↔
      bit ≤ start ∧ start < bit + remaining ∧ bits start = false ∧
        ∀ other, bit ≤ other → other < start → bits other = true := by
  induction remaining generalizing bit with
  | zero =>
    constructor
    · intro h
      cases h
    · rintro ⟨hle, hlt, -⟩
      omega
  | succ remaining ih =>
    rw [findUnset]
    cases hbit : bits bit with
    | true =>
      rw [if_pos rfl, ih]
      constructor
      · rintro ⟨hle, hlt, hfree, hused⟩
        refine ⟨by omega, by omega, hfree, ?_⟩
        intro other hother hbelow
        rcases eq_or_lt_of_le hother with rfl | hlater
        · exact hbit
        · exact hused other hlater hbelow
      · rintro ⟨hle, hlt, hfree, hused⟩
        rcases eq_or_lt_of_le hle with rfl | hlater
        · rw [hbit] at hfree
          cases hfree
        · exact ⟨hlater, by omega, hfree, fun other hother => hused other (by omega)⟩
    | false =>
      constructor
      · intro h
        cases h
        exact ⟨le_refl _, by omega, hbit, fun other hother hbelow => by omega⟩
      · rintro ⟨hle, hlt, hfree, hused⟩
        rcases eq_or_lt_of_le hle with rfl | hlater
        · rfl
        · have hset := hused bit (le_refl _) hlater
          rw [hbit] at hset
          cases hset

theorem countUnset_isSome_iff {remaining bit nFound : Nat} (h : nFound < nFrames) :
    (countUnset bits nFrames remaining bit nFound).isSome = true ↔ nFound + remaining ≥ nFrames ∨
        ∃ other, bit ≤ other ∧ other < bit + remaining ∧ bits other = true := by
  induction remaining generalizing bit nFound with
  | zero =>
    refine iff_of_false Bool.false_ne_true ?_
    rintro (hge | ⟨other, hle, hlt, -⟩)
    · omega
    · omega
  | succ remaining ih =>
    rw [countUnset]
    cases hbit : bits bit with
    | true => exact iff_of_true rfl (.inr ⟨bit, le_refl _, by omega, hbit⟩)
    | false =>
      rw [if_neg Bool.false_ne_true]
      split
      · exact iff_of_true rfl (.inl (by omega))
      rw [ih (by omega)]
      refine or_congr (by omega) ?_
      constructor
      · rintro ⟨other, hle, hlt, hset⟩
        exact ⟨other, by omega, by omega, hset⟩
      · rintro ⟨other, hle, hlt, hset⟩
        rcases eq_or_lt_of_le hle with rfl | hlater
        · rw [hbit] at hset
          cases hset
        · exact ⟨other, hlater, by omega, hset⟩

theorem countUnset_bounds {remaining bit nFound count : Nat} (h : nFound < nFrames)
    (hcount : countUnset bits nFrames remaining bit nFound = some count) :
    nFound ≤ count ∧ count ≤ nFrames ∧ (bits bit = false → nFound < count) := by
  induction remaining generalizing bit nFound with
  | zero => cases hcount
  | succ remaining ih =>
    rw [countUnset] at hcount
    split at hcount
    · rename_i hbit
      cases hcount
      refine ⟨le_refl _, h.le, ?_⟩
      intro hfree
      rw [hfree] at hbit
      cases hbit
    · split at hcount
      · cases hcount
        exact ⟨by omega, by omega, fun _ => by omega⟩
      · obtain ⟨hle, hmax, -⟩ := ih (by omega) hcount
        exact ⟨by omega, hmax, fun _ => by omega⟩

theorem flatSearch_eq_some_iff {position start count : Nat} :
    flatSearch bmp nFrames position = some (start, count) ↔
      findUnset bmp.bits (bmp.bmpNFrames - position) position = some start ∧
        countUnset bmp.bits nFrames (bmp.bmpNFrames - start) start 0 = some count := by
  rw [flatSearch]
  constructor
  · intro h
    obtain ⟨start', hfind, h⟩ := Option.bind_eq_some_iff.mp h
    obtain ⟨count', hcount, h⟩ := Option.bind_eq_some_iff.mp h
    cases h
    exact ⟨hfind, hcount⟩
  · rintro ⟨hfind, hcount⟩
    rw [hfind]
    dsimp only [some_bind]
    rw [hcount]
    rfl

theorem exists_flatSearch_iff (bmp : MemoryBmp) (hpos : 0 < nFrames) :
    (∃ found, flatSearch bmp nFrames (bmp.lastAllocIndex * bitsPerIndex) = some found) ↔
      ∃ start, Begins bmp nFrames start := by
  constructor
  · rintro ⟨⟨start, count⟩, hfound⟩
    obtain ⟨hfind, hcount⟩ := flatSearch_eq_some_iff.mp hfound
    obtain ⟨hle, hlt, hfree, hused⟩ := findUnset_eq_some_iff.mp hfind
    refine ⟨start, hle, by omega, hfree, hused, ?_⟩
    have hsome := (countUnset_isSome_iff hpos).mp (Option.isSome_of_eq_some hcount)
    rcases hsome with hlong | ⟨other, hother, hend, hset⟩
    · exact .inl (by omega)
    refine .inr ⟨other, ?_, by omega, hset⟩
    rcases eq_or_lt_of_le hother with rfl | hlater
    · rw [hfree] at hset
      cases hset
    · exact hlater
  · rintro ⟨start, hle, hlt, hfree, hused, hends⟩
    have hfind : findUnset bmp.bits (bmp.bmpNFrames - bmp.lastAllocIndex * bitsPerIndex)
        (bmp.lastAllocIndex * bitsPerIndex) = some start :=
      findUnset_eq_some_iff.mpr ⟨hle, by omega, hfree, hused⟩
    have hsome : (countUnset bmp.bits nFrames (bmp.bmpNFrames - start) start 0).isSome = true := by
      rw [countUnset_isSome_iff hpos]
      rcases hends with hlong | ⟨other, hlater, hend, hset⟩
      · exact .inl (by omega)
      · exact .inr ⟨other, hlater.le, by omega, hset⟩
    obtain ⟨count, hcount⟩ := Option.isSome_iff_exists.mp hsome
    exact ⟨(start, count), flatSearch_eq_some_iff.mpr ⟨hfind, hcount⟩⟩

theorem exact_of_flatSearch {start count : Nat} (hpos : 0 < nFrames) (index : Nat)
    (h : flatSearch bmp nFrames (bmp.lastAllocIndex * bitsPerIndex) = some (start, count)) :
    Exact bmp nFrames (.ok (some ((bmp.basePfn + start) * pagingBaseSize, count)),
      { bmp with bits := setBits bmp.bits start count, lastAllocIndex := index }) := by
  obtain ⟨hfind, hcount⟩ := flatSearch_eq_some_iff.mp h
  obtain ⟨hle, hlt, hfree, hused⟩ := findUnset_eq_some_iff.mp hfind
  obtain ⟨-, hmax, hmin⟩ := countUnset_bounds hpos hcount
  have hspec := MemoryBmp.countUnset_spec (zero_le _) (fun _ _ _ => by omega) hcount
  exact ⟨hmin hfree, hmax, rfl, rfl, start, rfl, by omega, hspec.1, fun bit => setBits_eq_true⟩

theorem exact_iff_finds (bmp : MemoryBmp) (hpos : 0 < nFrames) :
    Exact bmp nFrames (fragmentedGetFrames bmp nFrames) ↔ Finds bmp nFrames := by
  have hlimits : Limits bmp bmp.lastAllocIndex bitsPerIndex := fun _ => rfl
  rw [fragmentedGetFrames, if_neg (ne_of_gt hpos), search_eq hlimits (by omega)]
  have hexists := exists_flatSearch_iff bmp hpos
  cases hsearch : flatSearch bmp nFrames (bmp.lastAllocIndex * bitsPerIndex) with
  | some found =>
    exact iff_of_true (exact_of_flatSearch hpos _ hsearch)
      (.inr (hexists.mp ⟨found, hsearch⟩))
  | none =>
    constructor
    · rintro ⟨-, hfull⟩
      exact .inl hfull
    · rintro (hfull | hbegins)
      · exact ⟨rfl, hfull⟩
      · obtain ⟨found, hfound⟩ := hexists.mpr hbegins
        rw [hsearch] at hfound
        cases hfound

end

inductive Call
  | fragmentedGetFrames (nFrames : Nat)
  | constrainedGetFrames (c : Compiler) (nFrames : Nat) (list : List (Option Element))
      (preallocated : Bool)
  | releaseFrames (frameAddr nFrames : Nat)
  | mapMemUsed (rangeBaseAddr rangeNFrames : Nat)
  | mapMemUnused (rangeBaseAddr rangeNFrames : Nat)
  | merge (other : MemoryBmp)

def step (bmp : MemoryBmp) : Call → Option (Unit × MemoryBmp)
  | .fragmentedGetFrames nFrames => some ((), (fragmentedGetFrames bmp nFrames).2)
  | .constrainedGetFrames c nFrames list preallocated =>
    match constrainedGetFrames bmp c nFrames list preallocated with
    | .panicked => none
    | .failed _ bmp _ => some ((), bmp)
    | .granted _ bmp _ => some ((), bmp)
  | .releaseFrames frameAddr nFrames =>
    (bmp.releaseFrames frameAddr nFrames).map fun result => ((), result.2)
  | .mapMemUsed rangeBaseAddr rangeNFrames =>
    some ((), bmp.mapMemUsed rangeBaseAddr rangeNFrames)
  | .mapMemUnused rangeBaseAddr rangeNFrames =>
    some ((), bmp.mapMemUnused rangeBaseAddr rangeNFrames)
  | .merge other => some ((), (bmp.merge other).2)

def SearchExact (bmp : MemoryBmp) : Call → Prop
  | .fragmentedGetFrames nFrames =>
    0 < nFrames → Exact bmp nFrames (fragmentedGetFrames bmp nFrames)
  | _ => True

def SearchFinds (bmp : MemoryBmp) : Call → Prop
  | .fragmentedGetFrames nFrames => 0 < nFrames → Finds bmp nFrames
  | _ => True

theorem searchExact_iff (bmp : MemoryBmp) (call : Call) :
    SearchExact bmp call ↔ SearchFinds bmp call := by
  cases call with
  | fragmentedGetFrames nFrames =>
    exact forall_congr' fun hpos => exact_iff_finds bmp hpos
  | constrainedGetFrames c nFrames list preallocated => exact Iff.rfl
  | releaseFrames frameAddr nFrames => exact Iff.rfl
  | mapMemUsed rangeBaseAddr rangeNFrames => exact Iff.rfl
  | mapMemUnused rangeBaseAddr rangeNFrames => exact Iff.rfl
  | merge other => exact Iff.rfl

/-- In a run of calls every search is exact when each of them meets a stretch that it takes, or a
bitmap with no free frame. -/
theorem searches_exact_iff (bmp : MemoryBmp) (calls : List Call) :
    Guarded step SearchExact bmp calls ↔ Guarded step SearchFinds bmp calls := by
  constructor
  · intro h
    exact h.mono fun bmp call => (searchExact_iff bmp call).mp
  · intro h
    exact h.mono fun bmp call => (searchExact_iff bmp call).mpr

def fourFrames : MemoryBmp :=
  MemoryBmp.initialBmp 0 (4 * 4096 - 1) (by decide) (by decide)

theorem fiveOfFour_not_exact : ¬Guarded step SearchExact fourFrames [.fragmentedGetFrames 5] := by
  intro h
  have hexact := h.1 (by decide)
  have hused := hexact.2 0 (by decide)
  exact absurd hused (by decide)

section

variable {bmp : MemoryBmp} {frameAddr nFrames : Nat}

def Inside (bmp : MemoryBmp) (frameAddr nFrames : Nat) : Prop :=
  bmp.basePfn ≤ frameAddr / pagingBaseSize ∧
    frameAddr / pagingBaseSize + nFrames ≤ bmp.endPfn + 1

def ReleaseExact (bmp : MemoryBmp) (frameAddr nFrames : Nat) : Option (Bool × MemoryBmp) → Prop
  | none => False
  | some (ret, after) =>
    (Inside bmp frameAddr nFrames → ret = true ∧ after.baseAddr = bmp.baseAddr ∧
      after.endAddr = bmp.endAddr ∧ ∀ bit, after.bits bit = true ↔ bmp.bits bit = true ∧
        ¬(frameAddr / pagingBaseSize ≤ bmp.basePfn + bit ∧
          bmp.basePfn + bit < frameAddr / pagingBaseSize + nFrames)) ∧
    (¬Inside bmp frameAddr nFrames → ret = false ∧ after = bmp)

/-- When it does: the test is made with a byte address and leaves out the last frame. -/
def Tells (bmp : MemoryBmp) (frameAddr nFrames : Nat) : Prop :=
  (Inside bmp frameAddr nFrames →
    frameAddr / pagingBaseSize + nFrames ≤ bmp.endPfn ∨ frameAddr ≤ bmp.endPfn) ∧
  (¬Inside bmp frameAddr nFrames →
    bmp.endPfn < frameAddr / pagingBaseSize + nFrames ∧ bmp.endPfn < frameAddr)

theorem accepts_iff (haddr : frameAddr < wordModulus) (hpos : 0 < nFrames)
    (hlt : nFrames < wordModulus) : bmp.Accepts frameAddr nFrames ↔
      frameAddr ≤ bmp.endPfn ∨ frameAddr / pagingBaseSize + nFrames ≤ bmp.endPfn := by
  rw [MemoryBmp.Accepts]
  rw [wordModulus] at haddr hlt ⊢
  rw [pagingBaseSize]
  omega

theorem releaseExact_iff (bmp : MemoryBmp) (haddr : frameAddr < wordModulus)
    (hpos : 0 < nFrames) (hlt : nFrames < wordModulus) :
    ReleaseExact bmp frameAddr nFrames (bmp.releaseFrames frameAddr nFrames) ↔
      Tells bmp frameAddr nFrames := by
  have haccepts := @accepts_iff bmp frameAddr nFrames haddr hpos hlt
  have hend := bmp.endPfn_lt
  rw [MemoryBmp.releaseFrames, if_neg (ne_of_gt hpos)]
  rcases em (bmp.Accepts frameAddr nFrames) with htaken | hrefused
  · rw [if_pos htaken]
    dsimp only
    rcases em (Inside bmp frameAddr nFrames) with hinside | houtside
    · obtain ⟨hbase, hlast⟩ := hinside
      have hmod : (frameAddr / pagingBaseSize + nFrames) % wordModulus =
          frameAddr / pagingBaseSize + nFrames :=
        mod_eq_of_lt (by rw [wordModulus]; omega)
      rw [hmod, if_neg (by omega)]
      refine iff_of_true ⟨fun _ => ⟨rfl, rfl, rfl, ?_⟩, fun hnot => absurd ⟨hbase, hlast⟩ hnot⟩
        ⟨fun _ => (haccepts.mp htaken).symm, fun hnot => absurd ⟨hbase, hlast⟩ hnot⟩
      intro bit
      rw [unsetBits_eq_true]
      refine and_congr_right fun _ => not_congr ?_
      omega
    · refine iff_of_false ?_ ?_
      · split
        · exact id
        · rintro ⟨-, hexact⟩
          exact absurd (hexact houtside).1 (by decide)
      · rintro ⟨-, htells⟩
        obtain ⟨hlast, haddr'⟩ := htells houtside
        have := haccepts.mp htaken
        omega
  · rw [if_neg hrefused]
    rw [haccepts, not_or] at hrefused
    constructor
    · rintro ⟨hexact, -⟩
      refine ⟨fun hinside => absurd (hexact hinside).1 (by decide), fun _ => ?_⟩
      omega
    · rintro ⟨htells, -⟩
      refine ⟨fun hinside => ?_, fun _ => ⟨rfl, rfl⟩⟩
      have := htells hinside
      omega

def eightFrames : MemoryBmp :=
  MemoryBmp.initialBmp (16 * 4096) (24 * 4096 - 1) (by decide) (by decide)

theorem releaseExact_iff_firstFrame :
    ReleaseExact eightFrames (16 * 4096) 1 (eightFrames.releaseFrames (16 * 4096) 1) ↔
      Tells eightFrames (16 * 4096) 1 :=
  releaseExact_iff eightFrames (by decide) (by decide) (by decide)

theorem lastFrame_not_released :
    ¬ReleaseExact eightFrames (23 * 4096) 1 (eightFrames.releaseFrames (23 * 4096) 1) := by
  rintro ⟨hexact, -⟩
  have hinside : Inside eightFrames (23 * 4096) 1 := ⟨by decide, by decide⟩
  exact absurd (hexact hinside).1 (by decide)

end

section

variable {bmp other : MemoryBmp}

def commonUsed (bmp other : MemoryBmp) : Nat :=
  (List.range' bmp.basePfn bmp.bmpNFrames).countP fun pfn =>
    decide (other.basePfn ≤ pfn) && decide (pfn ≤ other.endPfn) && other.testFrame pfn

structure MergeExact (bmp other : MemoryBmp) (result : Nat × MemoryBmp) : Prop where
  baseAddr_eq : result.2.baseAddr = bmp.baseAddr
  endAddr_eq : result.2.endAddr = bmp.endAddr
  used : ∀ pfn, bmp.HasFrame pfn → (result.2.testFrame pfn = true ↔
    bmp.testFrame pfn = true ∨ other.HasFrame pfn ∧ other.testFrame pfn = true)
  count : result.1 = commonUsed bmp other

def LastFree (bmp other : MemoryBmp) : Prop :=
  bmp.basePfn ≤ other.endPfn → other.basePfn ≤ bmp.endPfn →
    other.testFrame (min bmp.endPfn other.endPfn) = false

theorem mergeFrames_count (basePfn : Nat) (other : MemoryBmp) (remaining pfn nSet : Nat)
    (bits : Bits) : (MemoryBmp.mergeFrames basePfn other remaining pfn (nSet, bits)).1 =
      nSet + (List.range' pfn remaining).countP other.testFrame := by
  induction remaining generalizing pfn nSet bits with
  | zero => rfl
  | succ remaining ih =>
    rw [MemoryBmp.mergeFrames, range'_succ, countP_cons]
    cases htest : other.testFrame pfn with
    | true =>
      rw [if_pos rfl, ih, if_pos rfl]
      omega
    | false =>
      rw [if_neg Bool.false_ne_true, ih, if_neg Bool.false_ne_true]
      rfl

theorem commonUsed_eq (hfirst : bmp.basePfn ≤ other.endPfn) (hlast : other.basePfn ≤ bmp.endPfn) :
    commonUsed bmp other =
      (List.range' (max bmp.basePfn other.basePfn) (min bmp.endPfn other.endPfn + 1 -
        max bmp.basePfn other.basePfn)).countP other.testFrame := by
  have hbmp := bmp.basePfn_le_endPfn
  have hother := other.basePfn_le_endPfn
  have hnFrames : bmp.bmpNFrames = max bmp.basePfn other.basePfn - bmp.basePfn +
      (min bmp.endPfn other.endPfn + 1 - max bmp.basePfn other.basePfn +
        (bmp.endPfn - min bmp.endPfn other.endPfn)) := by
    rw [MemoryBmp.bmpNFrames]
    omega
  rw [commonUsed, hnFrames, ← range'_append_1, ← range'_append_1, countP_append,
    countP_append]
  have hbefore : (range' bmp.basePfn (max bmp.basePfn other.basePfn - bmp.basePfn)).countP
      (fun pfn => decide (other.basePfn ≤ pfn) && decide (pfn ≤ other.endPfn) &&
        other.testFrame pfn) = 0 := by
    rw [countP_eq_zero]
    intro pfn hpfn
    rw [mem_range'_1] at hpfn
    rw [decide_eq_false (by omega)]
    exact Bool.false_ne_true
  have hafter : (range' (bmp.basePfn + (max bmp.basePfn other.basePfn - bmp.basePfn) +
      (min bmp.endPfn other.endPfn + 1 - max bmp.basePfn other.basePfn))
        (bmp.endPfn - min bmp.endPfn other.endPfn)).countP
      (fun pfn => decide (other.basePfn ≤ pfn) && decide (pfn ≤ other.endPfn) &&
        other.testFrame pfn) = 0 := by
    rw [countP_eq_zero]
    intro pfn hpfn
    rw [mem_range'_1] at hpfn
    rw [decide_eq_false (show ¬pfn ≤ other.endPfn by omega), Bool.and_false, Bool.false_and]
    exact Bool.false_ne_true
  have hstart : bmp.basePfn + (max bmp.basePfn other.basePfn - bmp.basePfn) =
      max bmp.basePfn other.basePfn := by
    omega
  rw [hbefore, hafter, zero_add, add_zero, hstart]
  apply countP_congr
  intro pfn hpfn
  rw [mem_range'_1] at hpfn
  rw [decide_eq_true (show other.basePfn ≤ pfn by omega),
    decide_eq_true (show pfn ≤ other.endPfn by omega), Bool.true_and, Bool.true_and]

theorem commonUsed_of_apart (h : bmp.endPfn < other.basePfn ∨ other.endPfn < bmp.basePfn) :
    commonUsed bmp other = 0 := by
  rw [commonUsed, countP_eq_zero]
  intro pfn hpfn
  rw [mem_range'_1, MemoryBmp.bmpNFrames] at hpfn
  have hbmp := bmp.basePfn_le_endPfn
  rw [Bool.and_eq_true, Bool.and_eq_true, decide_eq_true_eq, decide_eq_true_eq]
  omega

theorem merge_count (hfirst : bmp.basePfn ≤ other.endPfn) (hlast : other.basePfn ≤ bmp.endPfn) :
    (bmp.merge other).1 + (if other.testFrame (min bmp.endPfn other.endPfn) then 1 else 0) =
      commonUsed bmp other := by
  have hbmp := bmp.basePfn_le_endPfn
  have hother := other.basePfn_le_endPfn
  rw [commonUsed_eq hfirst hlast, MemoryBmp.merge, if_neg (by omega)]
  rw [mergeFrames_count, zero_add]
  have hstart : (if other.basePfn < bmp.basePfn then bmp.basePfn else other.basePfn) =
      max bmp.basePfn other.basePfn := by
    split <;> omega
  have hmax : (if bmp.endPfn < other.endPfn then bmp.endPfn else other.endPfn) =
      min bmp.endPfn other.endPfn := by
    split <;> omega
  rw [hstart, hmax, show min bmp.endPfn other.endPfn + 1 - max bmp.basePfn other.basePfn =
    min bmp.endPfn other.endPfn - max bmp.basePfn other.basePfn + 1 by omega, range'_1_concat,
    countP_append, show max bmp.basePfn other.basePfn +
      (min bmp.endPfn other.endPfn - max bmp.basePfn other.basePfn) =
      min bmp.endPfn other.endPfn by omega, countP_singleton]

theorem mergeExact_iff (bmp other : MemoryBmp) :
    MergeExact bmp other (bmp.merge other) ↔ LastFree bmp other := by
  have hbase : (bmp.merge other).2.baseAddr = bmp.baseAddr := by
    rw [MemoryBmp.merge]
    split <;> rfl
  have hend : (bmp.merge other).2.endAddr = bmp.endAddr := by
    rw [MemoryBmp.merge]
    split <;> rfl
  constructor
  · intro hexact hfirst hlast
    have hcount := merge_count hfirst hlast
    rw [← hexact.count] at hcount
    split at hcount
    · omega
    · rename_i hfree
      exact Bool.eq_false_iff.mpr hfree
  · intro hlastFree
    refine ⟨hbase, hend, ?_, ?_⟩
    · intro pfn hpfn
      rw [MemoryBmp.testFrame_merge bmp other hpfn]
      refine or_congr_right ?_
      obtain ⟨hfirst, hlast⟩ := hpfn
      constructor
      · rintro ⟨hle, hlt, hlt', htest⟩
        exact ⟨⟨hle, hlt'.le⟩, htest⟩
      · rintro ⟨⟨hle, hle'⟩, htest⟩
        have hne : pfn ≠ min bmp.endPfn other.endPfn := by
          rintro rfl
          rw [hlastFree (by omega) (by omega)] at htest
          cases htest
        exact ⟨hle, by omega, by omega, htest⟩
    · rcases lt_or_ge bmp.endPfn other.basePfn with hapart | hlast
      · rw [commonUsed_of_apart (.inl hapart), MemoryBmp.merge, if_pos (.inl hapart)]
      · rcases lt_or_ge other.endPfn bmp.basePfn with hapart | hfirst
        · rw [commonUsed_of_apart (.inr hapart), MemoryBmp.merge, if_pos (.inr hapart)]
        · have hcount := merge_count hfirst hlast
          rw [hlastFree hfirst hlast, if_neg Bool.false_ne_true, add_zero] at hcount
          exact hcount

def eightUsed : MemoryBmp := { eightFrames with bits := fun _ => true }

theorem eightUsed_not_merged : ¬MergeExact eightFrames eightUsed (eightFrames.merge eightUsed) := by
  intro h
  have hcount := h.count
  exact absurd hcount (by decide +kernel)

end

structure ByteRange where
  baseAddr : Nat
  size : Nat
  size_pos : 0 < size
  fits : baseAddr + size ≤ wordModulus

namespace ByteRange

theorem base_le_end (range : ByteRange) : range.baseAddr ≤ range.baseAddr + (range.size - 1) :=
  le_add_right _ _

theorem end_lt (range : ByteRange) : range.baseAddr + (range.size - 1) < wordModulus := by
  have hpos := range.size_pos
  have hfits := range.fits
  omega

def newBmp (range : ByteRange) : MemoryBmp :=
  MemoryBmp.initialBmp range.baseAddr (range.baseAddr + (range.size - 1)) range.base_le_end
    range.end_lt

def Holds (range : ByteRange) (pfn : Nat) : Prop :=
  range.baseAddr ≤ pfn * pagingBaseSize ∧
    (pfn + 1) * pagingBaseSize ≤ range.baseAddr + range.size

/-- The last frame is covered whole, or by one byte, or it is also the first, which is covered
in part. -/
def EndsWell (range : ByteRange) : Prop :=
  (range.baseAddr + range.size) % pagingBaseSize = 0 ∨
    (range.baseAddr + range.size) % pagingBaseSize = 1 ∨
    range.baseAddr % pagingBaseSize ≠ 0 ∧
      range.baseAddr / pagingBaseSize =
        (range.baseAddr + (range.size - 1)) / pagingBaseSize

end ByteRange

def IsFree (bmp : MemoryBmp) (pfn : Nat) : Prop :=
  bmp.HasFrame pfn ∧ bmp.testFrame pfn = false

theorem isFree_newBmp (range : ByteRange) (pfn : Nat) : IsFree range.newBmp pfn ↔
      range.baseAddr / pagingBaseSize ≤ pfn ∧
        pfn ≤ (range.baseAddr + (range.size - 1)) / pagingBaseSize ∧
        ¬(range.baseAddr % pagingBaseSize ≠ 0 ∧ pfn = range.baseAddr / pagingBaseSize) ∧
        ¬((range.baseAddr + (range.size - 1)) % pagingBaseSize = 0 ∧
          pfn = (range.baseAddr + (range.size - 1)) / pagingBaseSize) := by
  have hle : range.baseAddr / pagingBaseSize ≤
      (range.baseAddr + (range.size - 1)) / pagingBaseSize :=
    Nat.div_le_div_right range.base_le_end
  rw [IsFree, MemoryBmp.HasFrame, and_assoc]
  refine and_congr_right fun hfirst => and_congr_right fun hlast => ?_
  change range.baseAddr / pagingBaseSize ≤ pfn at hfirst
  rw [MemoryBmp.testFrame, ByteRange.newBmp, MemoryBmp.initialBmp, MemoryBmp.basePfn]
  dsimp only
  rw [Bool.or_eq_false_iff, Bool.and_eq_false_iff, Bool.and_eq_false_iff, decide_eq_false_iff_not,
    decide_eq_false_iff_not, decide_eq_false_iff_not, decide_eq_false_iff_not, not_and_or,
    not_and_or]
  refine and_congr (or_congr_right (not_congr ?_)) (or_congr_right (not_congr ?_))
  · omega
  · omega

/-- Only whole frames are free exactly when the range ends well; what two ranges share is never
free in both. -/
theorem newBmp_exact_iff (range : ByteRange) :
    ((∀ pfn, IsFree range.newBmp pfn ↔ range.Holds pfn) ↔ range.EndsWell) ∧
      ∀ next : ByteRange, range.baseAddr + range.size ≤ next.baseAddr →
        ∀ pfn, ¬(IsFree range.newBmp pfn ∧ IsFree next.newBmp pfn) := by
  refine ⟨?_, ?_⟩
  · constructor
    · intro hexact
      have hlast := hexact ((range.baseAddr + (range.size - 1)) / pagingBaseSize)
      rw [isFree_newBmp, ByteRange.Holds] at hlast
      rw [ByteRange.EndsWell]
      rw [pagingBaseSize] at hlast ⊢
      omega
    · intro hends pfn
      rw [isFree_newBmp, ByteRange.Holds]
      rw [ByteRange.EndsWell] at hends
      rw [pagingBaseSize] at hends ⊢
      omega
  · rintro next hle pfn ⟨hfree, hfree'⟩
    rw [isFree_newBmp] at hfree hfree'
    rw [pagingBaseSize] at hfree hfree'
    omega

theorem hundredBytes_not_exact :
    ¬∀ pfn, IsFree (ByteRange.newBmp ⟨0, 100, by decide, by decide⟩) pfn ↔
      ByteRange.Holds ⟨0, 100, by decide, by decide⟩ pfn := by
  intro h
  have hholds := (h 0).mp ⟨⟨by decide, by decide⟩, by decide⟩
  exact absurd hholds.2 (by decide)

end Zambesii.MemoryBmpFrames
