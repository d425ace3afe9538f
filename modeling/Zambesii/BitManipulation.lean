import Mathlib.Order.Nat
import Zambesii.KernelTypes

/-!
The bitmap helpers of `__kbitManipulation.h`. A bitmap is the function from bit
positions to their values; a set bit stands for a used frame.
-/

namespace Zambesii.BitManipulation

open Function
open KernelTypes

abbrev Bits := Nat → Bool

/-- The bits after `setBit` of each position in `[start, start + count)`. -/
def setBits (bits : Bits) (start count : Nat) : Bits :=
  fun bit => bits bit || (decide (start ≤ bit) && decide (bit < start + count))

/-- The bits after `unsetBit` of each position in `[start, start + count)`. -/
def unsetBits (bits : Bits) (start count : Nat) : Bits :=
  fun bit => bits bit && !(decide (start ≤ bit) && decide (bit < start + count))

def AllUnset (bits : Bits) (start count : Nat) : Prop :=
  ∀ bit, start ≤ bit → bit < start + count → bits bit = false

/-- The loop of `checkForContiguousBitsAt`, with `remaining` bits to go: the start and
the length of the stretch that is returned. -/
def scan (bits : Bits) (minNFrames maxNFrames : Nat) :
    (remaining bit nFound : Nat) → Option (Nat × Nat)
  | 0, _, _ => none
  | remaining + 1, bit, nFound =>
    if bits bit then
      if nFound = 0 then scan bits minNFrames maxNFrames remaining (bit + 1) 0
      else if minNFrames ≤ nFound then some (bit - nFound, nFound)
      else scan bits minNFrames maxNFrames remaining (bit + 1) 0
    else if minNFrames ≤ nFound + 1 ∧ nFound + 1 = maxNFrames then
      some (bit - nFound, nFound + 1)
    else scan bits minNFrames maxNFrames remaining (bit + 1) (nFound + 1)

def checkForContiguousBitsAt (bits : Bits) (startBit minNFrames maxNFrames nValidBits : Nat) :
    Except Kerror (Nat × Nat) :=
  if maxNFrames < minNFrames then .error .invalidArgVal
  else
    match scan bits minNFrames maxNFrames nValidBits startBit 0 with
    | none => .error .notFound
    | some found => .ok found

variable {bits : Bits} {start bit minNFrames maxNFrames remaining nFound found : Nat}

@[simp] theorem setBits_eq_true {count : Nat} :
    setBits bits start count bit = true ↔ bits bit = true ∨ start ≤ bit ∧ bit < start + count := by
  simp [setBits]

@[simp] theorem unsetBits_eq_true {count : Nat} : unsetBits bits start count bit = true ↔
      bits bit = true ∧ ¬ (start ≤ bit ∧ bit < start + count) := by
  simp only [unsetBits, Bool.and_eq_true, Bool.not_eq_true', ← Bool.decide_and,
    decide_eq_false_iff_not]

structure Stretch (bits : Bits) (minNFrames maxNFrames first beyond start nFound : Nat) :
    Prop where
  first_le : first ≤ start
  le_beyond : start + nFound ≤ beyond
  min_le : minNFrames ≤ nFound
  le_max : nFound ≤ maxNFrames
  unset : AllUnset bits start nFound

theorem scan_stretch (hmin : 0 < minNFrames) (hmax : minNFrames ≤ maxNFrames) (hle : nFound ≤ bit)
    (hlt : nFound < maxNFrames) (hrun : AllUnset bits (bit - nFound) nFound)
    (h : scan bits minNFrames maxNFrames remaining bit nFound = some (start, found)) :
    Stretch bits minNFrames maxNFrames (bit - nFound) (bit + remaining) start found := by
  induction remaining generalizing bit nFound with
  | zero => simp [scan] at h
  | succ remaining ih =>
    have hwiden : ∀ {nFound' : Nat}, bit - nFound ≤ bit + 1 - nFound' →
        Stretch bits minNFrames maxNFrames (bit + 1 - nFound') (bit + 1 + remaining) start
          found →
        Stretch bits minNFrames maxNFrames (bit - nFound) (bit + (remaining + 1)) start found :=
      fun hfirst hs => ⟨hfirst.trans hs.first_le, by have := hs.le_beyond; omega, hs.min_le,
        hs.le_max, hs.unset⟩
    have hnil : AllUnset bits (bit + 1 - 0) 0 := fun _ _ _ => by omega
    rw [scan] at h
    split at h
    · split at h
      · exact hwiden (by omega) (ih (by omega) (by omega) hnil h)
      · split at h
        · rename_i hle'
          cases h
          exact ⟨le_refl _, by omega, hle', hlt.le, hrun⟩
        · exact hwiden (by omega) (ih (by omega) (by omega) hnil h)
    rename_i hbit
    have hrun' : AllUnset bits (bit - nFound) (nFound + 1) := by
      intro other hfirst hlast
      rcases lt_or_ge other bit with hother | hother
      · exact hrun other hfirst (by omega)
      · obtain rfl : other = bit := by omega
        simpa using hbit
    split at h
    · rename_i hfound
      cases h
      exact ⟨le_refl _, by omega, hfound.1, hfound.2.le, hrun'⟩
    have hle' : nFound + 1 ≤ bit + 1 := by omega
    refine hwiden (by omega) (ih hle' ?_ ?_ h)
    · rename_i hfound
      rcases lt_or_ge (nFound + 1) maxNFrames with hlt' | hge
      · exact hlt'
      · exact absurd ⟨by omega, by omega⟩ hfound
    · rwa [Nat.add_sub_add_right]

theorem scan_ends (hle : nFound ≤ bit)
    (h : scan bits minNFrames maxNFrames remaining bit nFound = some (start, found)) :
    found = maxNFrames ∨ start + found < bit + remaining ∧ bits (start + found) = true := by
  induction remaining generalizing bit nFound with
  | zero => simp [scan] at h
  | succ remaining ih =>
    rw [scan] at h
    split at h
    · rename_i hbit
      split at h
      · exact (ih (by omega) h).imp_right fun hend => ⟨by omega, hend.2⟩
      split at h
      · cases h
        rw [Nat.sub_add_cancel hle]
        exact Or.inr ⟨by omega, hbit⟩
      · exact (ih (by omega) h).imp_right fun hend => ⟨by omega, hend.2⟩
    · split at h
      · rename_i hfound
        cases h
        exact Or.inl hfound.2
      · exact (ih (by omega) h).imp_right fun hend => ⟨by omega, hend.2⟩

/-- The scan stops no later than at the first stretch that has the most frames or ends at a set
bit. -/
theorem scan_of_unset {beyond : Nat} (hmin : 0 < minNFrames) (hmax : minNFrames ≤ maxNFrames)
    (hle : nFound ≤ bit) (hlt : nFound < maxNFrames)
    (hrun : AllUnset bits (bit - nFound) nFound) (hfirst : bit - nFound ≤ start)
    (hfound : minNFrames ≤ found) (hunset : AllUnset bits start found)
    (hle_beyond : start + found ≤ beyond)
    (hends : found = maxNFrames ∨ start + found < beyond ∧ bits (start + found) = true)
    (hbeyond : bit + remaining = beyond) :
    ∃ stretch, scan bits minNFrames maxNFrames remaining bit nFound = some stretch ∧
      stretch.1 ≤ start := by
  have hnot : ∀ other, bits other = true → start ≤ other → start + found ≤ other := by
    intro other hset hstart
    by_contra hlt
    rw [hunset other hstart (by omega)] at hset
    cases hset
  induction remaining generalizing bit nFound with
  | zero =>
    rcases hends with hmost | ⟨hend, hset⟩
    · omega
    · rw [hrun _ (by omega) (by omega)] at hset
      cases hset
  | succ remaining ih =>
    have hnil : AllUnset bits (bit + 1 - 0) 0 := fun _ _ _ => by omega
    rw [scan]
    split
    · rename_i hbit
      have hafter := hnot bit hbit
      split
      · exact ih (by omega) (by omega) hnil (by omega) (by omega)
      split
      · exact ⟨_, rfl, hfirst⟩
      · exact ih (by omega) (by omega) hnil (by omega) (by omega)
    rename_i hbit
    split
    · exact ⟨_, rfl, hfirst⟩
    rename_i hmiss
    refine ih (by omega) (by omega) ?_ (by omega) (by omega)
    intro other hother hlast
    rcases lt_or_ge other bit with hlt' | hge
    · exact hrun other (by omega) (by omega)
    · obtain rfl : other = bit := by omega
      simpa using hbit

theorem scan_start_cases (hmin : 0 < minNFrames) (hle : nFound ≤ bit)
    (h : scan bits minNFrames maxNFrames remaining bit nFound = some (start, found)) :
    (start = bit - nFound ∧ nFound ≤ found) ∨ (bit < start ∧ nFound < minNFrames) := by
  induction remaining generalizing bit nFound with
  | zero => simp [scan] at h
  | succ remaining ih =>
    rw [scan] at h
    split at h
    · split at h
      · rcases ih (by omega) h with hcase | hcase <;> omega
      · split at h
        · cases h
          exact .inl ⟨rfl, le_refl _⟩
        · rcases ih (by omega) h with hcase | hcase <;> omega
    · split at h
      · cases h
        exact .inl ⟨rfl, by omega⟩
      · rcases ih (by omega) h with hcase | hcase <;> omega

theorem scan_of_le {bits' : Bits} {nFound' : Nat} (hmin : 0 < minNFrames)
    (hbits : ∀ other, bits other = true → bits' other = true) (hle : nFound ≤ bit)
    (hle' : nFound' ≤ nFound) (hsame : start = bit - nFound → nFound' = nFound)
    (h : scan bits minNFrames maxNFrames remaining bit nFound = some (start, found))
    (hunset : AllUnset bits' start found) :
    scan bits' minNFrames maxNFrames remaining bit nFound' = some (start, found) := by
  induction remaining generalizing bit nFound nFound' with
  | zero => simp [scan] at h
  | succ remaining ih =>
    rw [scan] at h ⊢
    split at h
    · rename_i hbit
      rw [if_pos (hbits bit hbit)]
      split at h
      · rw [if_pos (by omega)]
        exact ih (by omega) (le_refl _) (fun _ => rfl) h
      split at h
      · rename_i hne hlong
        cases h
        rw [hsame rfl, if_neg hne, if_pos hlong]
      have hrest : scan bits' minNFrames maxNFrames remaining (bit + 1) 0 =
          some (start, found) := ih (by omega) (le_refl _) (fun _ => rfl) h
      split
      · exact hrest
      · rw [if_neg (by omega)]
        exact hrest
    split at h
    · rename_i hhit
      cases h
      have hbit' : bits' bit = false := hunset bit (by omega) (by omega)
      rw [hsame rfl, hbit', if_neg (by decide), if_pos hhit]
    rename_i hmiss
    rcases scan_start_cases hmin (by omega) h with ⟨hstart, hfound⟩ | ⟨hstart, hshort⟩
    · -- The current stretch is the one: none of its bits is set.
      have hbit' : bits' bit = false := hunset bit (by omega) (by omega)
      rw [hsame (by omega), hbit', if_neg (by decide), if_neg hmiss]
      exact ih (by omega) (le_refl _) (fun _ => rfl) h
    -- The current stretch is too short, whatever becomes of it.
    rcases Bool.eq_false_or_eq_true (bits' bit) with hbit' | hbit'
    · have hrest : scan bits' minNFrames maxNFrames remaining (bit + 1) 0 =
          some (start, found) := ih (by omega) (by omega) (by omega) h
      rw [if_pos hbit']
      split
      · exact hrest
      · rw [if_neg (by omega)]
        exact hrest
    · rw [hbit', if_neg (by decide), if_neg (by omega)]
      exact ih (by omega) (by omega) (by omega) h

section

variable {bits : Bits} {startBit minNFrames maxNFrames nValidBits start found : Nat}

theorem check_eq_ok_iff :
    checkForContiguousBitsAt bits startBit minNFrames maxNFrames nValidBits = .ok (start, found) ↔
      minNFrames ≤ maxNFrames ∧
        scan bits minNFrames maxNFrames nValidBits startBit 0 = some (start, found) := by
  unfold checkForContiguousBitsAt
  split
  · simp only [reduceCtorEq, false_iff, not_and]
    omega
  · cases hscan : scan bits minNFrames maxNFrames nValidBits startBit 0 with
    | none => simp
    | some stretch => simp; omega

theorem check_stretch (hmin : 0 < minNFrames)
    (h : checkForContiguousBitsAt bits startBit minNFrames maxNFrames nValidBits =
      .ok (start, found)) :
    Stretch bits minNFrames maxNFrames startBit (startBit + nValidBits) start found := by
  obtain ⟨hmax, hscan⟩ := check_eq_ok_iff.mp h
  exact scan_stretch hmin hmax (Nat.zero_le _) (by omega) (fun _ _ _ => by omega) hscan

theorem check_of_le {bits' : Bits} (hmin : 0 < minNFrames)
    (hbits : ∀ other, bits other = true → bits' other = true)
    (h : checkForContiguousBitsAt bits startBit minNFrames maxNFrames nValidBits =
      .ok (start, found)) (hunset : AllUnset bits' start found) :
    checkForContiguousBitsAt bits' startBit minNFrames maxNFrames nValidBits =
      .ok (start, found) := by
  obtain ⟨hmax, hscan⟩ := check_eq_ok_iff.mp h
  exact check_eq_ok_iff.mpr ⟨hmax, scan_of_le hmin hbits (Nat.zero_le _) (le_refl _)
    (fun _ => rfl) hscan hunset⟩

end

section

/-- The class `Bitmap`. Its operations take no notice of a bit beyond `nBits`. -/
structure Bitmap where
  nBits : Nat
  bits : Bits

def Bitmap.set (bmp : Bitmap) (bit : Nat) : Bitmap :=
  if bit < bmp.nBits then { bmp with bits := update bmp.bits bit true } else bmp

def Bitmap.unset (bmp : Bitmap) (bit : Nat) : Bitmap :=
  if bit < bmp.nBits then { bmp with bits := update bmp.bits bit false } else bmp

def Bitmap.test (bmp : Bitmap) (bit : Nat) : Bool :=
  if bit < bmp.nBits then bmp.bits bit else false

@[simp] theorem Bitmap.nBits_set (bmp : Bitmap) (bit : Nat) : (bmp.set bit).nBits = bmp.nBits := by
  unfold Bitmap.set
  split <;> rfl

@[simp] theorem Bitmap.nBits_unset (bmp : Bitmap) (bit : Nat) :
    (bmp.unset bit).nBits = bmp.nBits := by
  unfold Bitmap.unset
  split <;> rfl

variable {bit : Nat}

theorem Bitmap.test_set (bmp : Bitmap) (hbit : bit < bmp.nBits) :
    (bmp.set bit).test = update bmp.test bit true := by
  funext other
  rcases eq_or_ne other bit with rfl | hne
  · simp [Bitmap.set, Bitmap.test, hbit]
  · simp [Bitmap.set, Bitmap.test, hbit, hne]

theorem Bitmap.test_unset (bmp : Bitmap) (hbit : bit < bmp.nBits) :
    (bmp.unset bit).test = update bmp.test bit false := by
  funext other
  rcases eq_or_ne other bit with rfl | hne
  · simp [Bitmap.unset, Bitmap.test, hbit]
  · simp [Bitmap.unset, Bitmap.test, hbit, hne]

theorem Bitmap.lt_of_test {bmp : Bitmap} (h : bmp.test bit = true) : bit < bmp.nBits := by
  unfold Bitmap.test at h
  split at h
  · assumption
  · contradiction

end

end Zambesii.BitManipulation
