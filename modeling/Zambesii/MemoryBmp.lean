import Zambesii.BitManipulation

/-!
`MemoryBmp`: one bit for each page frame of a physical memory range. Addresses and
frame numbers have 32 bits. A failed assertion makes a function return `none`.
-/

namespace Zambesii

open BitManipulation KernelTypes

/-- The object after its constructor; the range ends below the top of the address
space. -/
structure MemoryBmp where
  baseAddr : Nat
  endAddr : Nat
  bits : Bits
  lastAllocIndex : Nat
  base_le_end : baseAddr ≤ endAddr
  end_lt : endAddr < wordModulus

namespace MemoryBmp

def basePfn (bmp : MemoryBmp) : Nat := bmp.baseAddr / pagingBaseSize

def endPfn (bmp : MemoryBmp) : Nat := bmp.endAddr / pagingBaseSize

def bmpNFrames (bmp : MemoryBmp) : Nat := bmp.endPfn - bmp.basePfn + 1

def HasFrame (bmp : MemoryBmp) (pfn : Nat) : Prop :=
  bmp.basePfn ≤ pfn ∧ pfn ≤ bmp.endPfn

def testFrame (bmp : MemoryBmp) (pfn : Nat) : Bool := bmp.bits (pfn - bmp.basePfn)

/-- The bitmap after its initialisation: the frames that the range covers only in part are set. -/
def initialBmp (baseAddr endAddr : Nat) (base_le_end : baseAddr ≤ endAddr)
    (end_lt : endAddr < wordModulus) : MemoryBmp where
  baseAddr := baseAddr
  endAddr := endAddr
  bits := fun bit =>
    (decide (baseAddr % pagingBaseSize ≠ 0) && decide (bit = 0)) ||
      (decide (endAddr % pagingBaseSize = 0) &&
        decide (bit = endAddr / pagingBaseSize - baseAddr / pagingBaseSize))
  lastAllocIndex := 0
  base_le_end := base_le_end
  end_lt := end_lt

def bitsPerIndex : Nat := 32

def findUnset (bits : Bits) : (remaining bit : Nat) → Option Nat
  | 0, _ => none
  | remaining + 1, bit => if bits bit then findUnset bits remaining (bit + 1) else some bit

/-- Its inner loops: the length of the stretch, up to what is needed. A stretch that
meets the end of the bitmap first is not taken. -/
def countUnset (bits : Bits) (nFrames : Nat) : (remaining bit nFound : Nat) → Option Nat
  | 0, _, _ => none
  | remaining + 1, bit, nFound =>
    if bits bit then some nFound
    else if nFrames ≤ nFound + 1 then some (nFound + 1)
    else countUnset bits nFrames remaining (bit + 1) (nFound + 1)

/-- `fragmentedGetFrames`: the address and the number of frames; no address for an
empty request. -/
def fragmentedGetFrames (bmp : MemoryBmp) (nFrames : Nat) :
    Except Kerror (Option (Nat × Nat)) × MemoryBmp :=
  if nFrames = 0 then (.ok none, bmp)
  else
    let firstBit := bmp.lastAllocIndex * bitsPerIndex
    let found := do
      let start ← findUnset bmp.bits (bmp.bmpNFrames - firstBit) firstBit
      let nFound ← countUnset bmp.bits nFrames (bmp.bmpNFrames - start) start 0
      some (start, nFound)
    match found with
    | none => (.error .memoryNomemPhysical, bmp)
    | some (start, nFound) =>
      (.ok (some ((bmp.basePfn + start) * pagingBaseSize, nFound)),
        { bmp with
          bits := setBits bmp.bits start nFound
          lastAllocIndex := (start + nFound) / bitsPerIndex })

/-- The test that `releaseFrames` makes of the range before it frees it. -/
def Accepts (bmp : MemoryBmp) (frameAddr nFrames : Nat) : Prop :=
  let rangeStartPfn := frameAddr / pagingBaseSize
  let rangeEndPfn := (rangeStartPfn + nFrames) % wordModulus
  (rangeStartPfn ≤ frameAddr ∧ frameAddr ≤ bmp.endPfn) ∨
    (rangeStartPfn < rangeEndPfn ∧ rangeEndPfn ≤ bmp.endPfn)

instance (bmp : MemoryBmp) (frameAddr nFrames : Nat) : Decidable (Accepts bmp frameAddr nFrames) :=
  inferInstanceAs (Decidable (_ ∧ _ ∨ _ ∧ _))

def releaseFrames (bmp : MemoryBmp) (frameAddr nFrames : Nat) : Option (Bool × MemoryBmp) :=
  if nFrames = 0 then some (false, bmp)
  else if bmp.Accepts frameAddr nFrames then
    let rangeStartPfn := frameAddr / pagingBaseSize
    let rangeEndPfn := (rangeStartPfn + nFrames) % wordModulus
    -- The assertion of `unsetFrame`.
    if rangeStartPfn < rangeEndPfn ∧
        ¬ (bmp.basePfn ≤ rangeStartPfn ∧ rangeEndPfn ≤ bmp.endPfn + 1) then none
    else some (true, { bmp with
      bits := unsetBits bmp.bits (rangeStartPfn - bmp.basePfn) (rangeEndPfn - rangeStartPfn)
      lastAllocIndex := (rangeStartPfn - bmp.basePfn) / bitsPerIndex })
  else some (false, bmp)

/-- The frames that `mapMemUsed` and `mapMemUnused` go over. -/
def mappedRange (bmp : MemoryBmp) (rangeBaseAddr rangeNFrames : Nat) : Nat × Nat :=
  let rangeStartPfn :=
    if bmp.baseAddr ≤ rangeBaseAddr then rangeBaseAddr / pagingBaseSize else bmp.basePfn
  let rangeEndPfn := (rangeBaseAddr / pagingBaseSize + rangeNFrames) % wordModulus
  (rangeStartPfn, if bmp.endPfn < rangeEndPfn then bmp.endPfn + 1 else rangeEndPfn)

def mapMemUsed (bmp : MemoryBmp) (rangeBaseAddr rangeNFrames : Nat) : MemoryBmp :=
  let range := bmp.mappedRange rangeBaseAddr rangeNFrames
  { bmp with bits := setBits bmp.bits (range.1 - bmp.basePfn) (range.2 - range.1) }

def mapMemUnused (bmp : MemoryBmp) (rangeBaseAddr rangeNFrames : Nat) : MemoryBmp :=
  let range := bmp.mappedRange rangeBaseAddr rangeNFrames
  { bmp with bits := unsetBits bmp.bits (range.1 - bmp.basePfn) (range.2 - range.1) }

/-- The loop of `merge`: how many of the frames are set in the other bitmap, and the bits with
them set. -/
def mergeFrames (basePfn : Nat) (other : MemoryBmp) :
    (remaining pfn : Nat) → Nat × Bits → Nat × Bits
  | 0, _, result => result
  | remaining + 1, pfn, (nSet, bits) =>
    mergeFrames basePfn other remaining (pfn + 1)
      (if other.testFrame pfn then (nSet + 1, setBits bits (pfn - basePfn) 1) else (nSet, bits))

/-- `merge`: the number of frames that are set in the other bitmap. -/
def merge (bmp other : MemoryBmp) : Nat × MemoryBmp :=
  if bmp.endPfn < other.basePfn ∨ other.endPfn < bmp.basePfn then (0, bmp)
  else
    let loopStartPfn := if other.basePfn < bmp.basePfn then bmp.basePfn else other.basePfn
    let loopMaxPfn := if bmp.endPfn < other.endPfn then bmp.endPfn else other.endPfn
    let result := mergeFrames bmp.basePfn other (loopMaxPfn - loopStartPfn) loopStartPfn (0, bmp.bits)
    (result.1, { bmp with bits := result.2 })

theorem basePfn_le_endPfn (bmp : MemoryBmp) : bmp.basePfn ≤ bmp.endPfn :=
  Nat.div_le_div_right bmp.base_le_end

theorem endPfn_lt (bmp : MemoryBmp) : bmp.endPfn < 2 ^ 20 :=
  Nat.div_lt_of_lt_mul (by simpa [pagingBaseSize, wordModulus] using bmp.end_lt)

theorem findUnset_spec {bits : Bits} {remaining bit start : Nat}
    (h : findUnset bits remaining bit = some start) : bit ≤ start ∧ start < bit + remaining := by
  induction remaining generalizing bit with
  | zero => simp [findUnset] at h
  | succ remaining ih =>
    rw [findUnset] at h
    split at h
    · have := ih h
      omega
    · cases h
      omega

theorem countUnset_spec {bits : Bits} {nFrames remaining bit nFound count : Nat}
    (hle : nFound ≤ bit) (hunset : AllUnset bits (bit - nFound) nFound)
    (h : countUnset bits nFrames remaining bit nFound = some count) :
    AllUnset bits (bit - nFound) count ∧ bit - nFound + count ≤ bit + remaining := by
  induction remaining generalizing bit nFound with
  | zero => simp [countUnset] at h
  | succ remaining ih =>
    rw [countUnset] at h
    split at h
    · cases h
      exact ⟨hunset, by omega⟩
    rename_i hbit
    have hunset' : AllUnset bits (bit - nFound) (nFound + 1) := by
      intro other hfirst hlast
      rcases lt_or_ge other bit with hother | hother
      · exact hunset other hfirst (by omega)
      · obtain rfl : other = bit := by omega
        simpa using hbit
    split at h
    · cases h
      exact ⟨hunset', by omega⟩
    · have hle' : nFound + 1 ≤ bit + 1 := by omega
      have hrest := ih hle' (by rwa [Nat.add_sub_add_right]) h
      rw [Nat.add_sub_add_right] at hrest
      exact ⟨hrest.1, by omega⟩

theorem fragmentedGetFrames_cases (bmp : MemoryBmp) (nFrames : Nat) :
    (∃ start count index, AllUnset bmp.bits start count ∧ start + count ≤ bmp.bmpNFrames ∧
      bmp.fragmentedGetFrames nFrames =
        (.ok (some ((bmp.basePfn + start) * pagingBaseSize, count)),
          { bmp with bits := setBits bmp.bits start count, lastAllocIndex := index })) ∨
      bmp.fragmentedGetFrames nFrames = (.ok none, bmp) ∨
        bmp.fragmentedGetFrames nFrames = (.error .memoryNomemPhysical, bmp) := by
  unfold fragmentedGetFrames
  split
  · exact .inr (.inl rfl)
  dsimp only
  split
  · exact .inr (.inr rfl)
  rename_i start count hfound
  obtain ⟨start', hstart, hfound⟩ := Option.bind_eq_some_iff.mp hfound
  obtain ⟨count', hcount, hfound⟩ := Option.bind_eq_some_iff.mp hfound
  obtain ⟨rfl, rfl⟩ := Prod.mk.inj (Option.some.inj hfound)
  have hlt := findUnset_spec hstart
  have hspec := countUnset_spec (Nat.zero_le _) (fun _ _ _ => by omega) hcount
  rw [Nat.sub_zero] at hspec
  refine .inl ⟨start', count', _, hspec.1, ?_, rfl⟩
  have := hspec.2
  omega

theorem releaseFrames_of_accepts {bmp : MemoryBmp} {pfn nFrames : Nat}
    (haccepts : bmp.Accepts (pfn * pagingBaseSize) nFrames) (hpos : 0 < nFrames)
    (hbase : bmp.basePfn ≤ pfn) (hend : pfn + nFrames ≤ bmp.endPfn + 1) :
    ∃ index, bmp.releaseFrames (pfn * pagingBaseSize) nFrames =
      some (true, { bmp with
        bits := unsetBits bmp.bits (pfn - bmp.basePfn) nFrames, lastAllocIndex := index }) := by
  have hlt := bmp.endPfn_lt
  have hpfn : pfn * pagingBaseSize / pagingBaseSize = pfn :=
    Nat.mul_div_cancel _ (by simp [pagingBaseSize])
  have hmod : (pfn + nFrames) % wordModulus = pfn + nFrames :=
    Nat.mod_eq_of_lt (by simp only [wordModulus]; omega)
  refine ⟨(pfn - bmp.basePfn) / bitsPerIndex, ?_⟩
  unfold releaseFrames
  dsimp only
  rw [if_neg (ne_of_gt hpos), if_pos haccepts, hpfn, hmod, if_neg (by omega),
    Nat.add_sub_cancel_left]

theorem mappedRange_bounds (bmp : MemoryBmp) (rangeBaseAddr rangeNFrames : Nat) :
    bmp.basePfn ≤ (bmp.mappedRange rangeBaseAddr rangeNFrames).1 ∧
      (bmp.mappedRange rangeBaseAddr rangeNFrames).2 ≤ bmp.endPfn + 1 := by
  unfold mappedRange
  dsimp only
  constructor
  · split
    · rename_i hle
      exact Nat.div_le_div_right hle
    · exact le_refl _
  · split <;> omega

theorem mergeFrames_bits (basePfn : Nat) (other : MemoryBmp) (remaining pfn nSet : Nat) (bits : Bits)
    (hpfn : basePfn ≤ pfn) (bit : Nat) :
    (mergeFrames basePfn other remaining pfn (nSet, bits)).2 bit = true ↔ bits bit = true ∨
      pfn ≤ basePfn + bit ∧ basePfn + bit < pfn + remaining ∧
        other.testFrame (basePfn + bit) = true := by
  induction remaining generalizing pfn nSet bits with
  | zero =>
    constructor
    · exact .inl
    · rintro (hbit | hmem)
      · exact hbit
      · omega
  | succ remaining ih =>
    have hself : pfn = basePfn + (pfn - basePfn) := by omega
    rw [mergeFrames]
    cases htest : other.testFrame pfn with
    | true =>
      rw [if_pos rfl, ih (pfn + 1) _ _ (by omega)]
      rw [setBits_eq_true, or_assoc]
      refine or_congr_right ?_
      constructor
      · rintro (⟨hle, hlt⟩ | ⟨hle, hlt, hother⟩)
        · obtain rfl : bit = pfn - basePfn := by omega
          rw [← hself]
          exact ⟨le_refl _, by omega, htest⟩
        · exact ⟨by omega, by omega, hother⟩
      · rintro ⟨hle, hlt, hother⟩
        rcases Nat.eq_or_lt_of_le hle with heq | hlt'
        · exact .inl (by omega)
        · exact .inr ⟨hlt', by omega, hother⟩
    | false =>
      rw [if_neg Bool.false_ne_true, ih (pfn + 1) _ _ (by omega)]
      refine or_congr_right ?_
      constructor
      · rintro ⟨hle, hlt, hother⟩
        exact ⟨by omega, by omega, hother⟩
      · rintro ⟨hle, hlt, hother⟩
        rcases Nat.eq_or_lt_of_le hle with heq | hlt'
        · rw [← heq, htest] at hother
          contradiction
        · exact ⟨hlt', by omega, hother⟩

theorem testFrame_merge (bmp other : MemoryBmp) {pfn : Nat} (hpfn : bmp.HasFrame pfn) :
    (bmp.merge other).2.testFrame pfn = true ↔ bmp.testFrame pfn = true ∨
      other.basePfn ≤ pfn ∧ pfn < bmp.endPfn ∧ pfn < other.endPfn ∧ other.testFrame pfn = true := by
  obtain ⟨hbase, hend⟩ := hpfn
  have hself : bmp.basePfn + (pfn - bmp.basePfn) = pfn := by omega
  unfold merge
  split
  · constructor
    · exact .inl
    · rintro (htest | hmem)
      · exact htest
      · omega
  rename_i hmeet
  generalize hstart : (if other.basePfn < bmp.basePfn then bmp.basePfn else other.basePfn) = start
  generalize hmax : (if bmp.endPfn < other.endPfn then bmp.endPfn else other.endPfn) = last
  have hstart' : start = max bmp.basePfn other.basePfn := by
    rw [← hstart]
    split <;> omega
  have hmax' : last = min bmp.endPfn other.endPfn := by
    rw [← hmax]
    split <;> omega
  have hbits := mergeFrames_bits bmp.basePfn other (last - start) start 0 bmp.bits (by omega)
    (pfn - bmp.basePfn)
  rw [hself] at hbits
  refine hbits.trans (or_congr_right ?_)
  constructor
  · rintro ⟨hle, hlt, htest⟩
    exact ⟨by omega, by omega, by omega, htest⟩
  · rintro ⟨hle, hlt, hlt', htest⟩
    exact ⟨by omega, by omega, htest⟩

end MemoryBmp

end Zambesii
