import Mathlib.Tactic.Positivity
import Mathlib.Tactic.Ring
import Zambesii.KernelTypes

/-!
`fplainn::dma::constraints::Compiler::compile`: the attributes of a DMA engine become bounds on
page frame numbers and element sizes in frames.
-/

namespace Zambesii.DmaConstraints

open KernelTypes Nat Option

inductive AttrType
  | addressableBits
  | alignmentBits
  | dataAddressableBits
  | noPartial
  | scgthMaxElements
  | scgthFormat
  | scgthEndianness
  | scgthAddressableBits
  | scgthMaxSegments
  | scgthAlignmentBits
  | scgthMaxElPerSeg
  | scgthPrefixBytes
  | elementAlignmentBits
  | elementLengthBits
  | elementGranularityBits
  | addrFixedBits
  | addrFixedType
  | addrFixedValueLo
  | addrFixedValueHi
  | sequential
  | slopInBits
  | slopOutBits
  | slopOutExtra
  | slopBarrierBits
deriving DecidableEq

structure AttrSpec where
  attrType : AttrType
  attrValue : UInt32
deriving DecidableEq

abbrev Constraints := List AttrSpec

/-- `Constraints::getAttr`: the value of the first attribute of the type. -/
def getAttr (cons : Constraints) (attr : AttrType) : Option Nat :=
  (cons.find? fun spec => spec.attrType = attr).map fun spec => spec.attrValue.toNat

def fixedList : Nat := 2

def fixedValue : Nat := 3

def paddrNBits : Nat := 32

structure Compiler where
  callerSupportedFormats : Nat
  partialAllocationsDisallowed : Bool
  sequentialAccessHint : Bool
  addressableBits : Nat
  fixedBits : Nat
  pfnSkipStride : Nat
  maxElementsPerSegment : Nat
  startPfn : Nat
  beyondEndPfn : Nat
  minElementGranularityNFrames : Nat
  maxNContiguousFrames : Nat
  slopInBits : Nat
  slopOutBits : Nat
  slopOutExtra : Nat
  fixedBitsValue : Nat
deriving DecidableEq

/-- A shift of a 32-bit operand. The result of a shift by its width or more is not defined. -/
def shiftLeft (value amount : Nat) : Option Nat :=
  if amount < 32 then some (value * 2 ^ amount % wordModulus) else none

def wordSub (a b : Nat) : Nat :=
  (a + (wordModulus - b)) % wordModulus

def compileAddressable (cons : Constraints) (i : Compiler) : Option Compiler :=
  let i := { i with addressableBits := paddrNBits, beyondEndPfn := wordModulus - 1 }
  match getAttr cons .dataAddressableBits with
  | none => some i
  | some value => do
      let bits := value % 2 ^ 8
      let bits := if bits > paddrNBits then paddrNBits else bits
      let beyondEndPfn ←
        if pagingBaseShift ≤ bits then shiftLeft 1 (bits - pagingBaseShift) else some 1
      some { i with addressableBits := bits, beyondEndPfn }

def compileAlignment (cons : Constraints) (i : Compiler) : Option Compiler :=
  let i := { i with pfnSkipStride := 0 }
  match getAttr cons .elementAlignmentBits with
  | none => some i
  | some value =>
    if pagingBaseShift < value then do
      let alignment ← shiftLeft 1 (value - pagingBaseShift)
      some { i with pfnSkipStride := wordSub alignment 1 }
    else some i

def compileElementsPerSegment (cons : Constraints) (i : Compiler) : Compiler :=
  { i with maxElementsPerSegment := (getAttr cons .elementAlignmentBits).getD 0 }

def compileFixedValue (cons : Constraints) (i : Compiler) : Option (Kerror × Compiler) :=
  if (getAttr cons .addrFixedValueHi).getD 0 ≠ 0 then some (.unsupported, i)
  else do
    let fixedBitsValue := (getAttr cons .addrFixedValueLo).getD 0
    let amount := wordSub i.addressableBits i.fixedBits
    let start ← shiftLeft fixedBitsValue amount
    let beyondEnd ← shiftLeft ((fixedBitsValue + 1) % wordModulus) amount
    let beyondEndOfFixedPfn := beyondEnd / pagingBaseSize
    some (.success,
      { i with
        fixedBitsValue
        startPfn := start / pagingBaseSize
        beyondEndPfn :=
          if beyondEndOfFixedPfn > i.beyondEndPfn then i.beyondEndPfn else beyondEndOfFixedPfn })

def compileFixed (cons : Constraints) (i : Compiler) : Option (Kerror × Compiler) :=
  let i := { i with startPfn := 0 }
  match getAttr cons .addrFixedBits with
  | none => some (.success, i)
  | some value =>
    if value > 0 then
      let i := { i with fixedBits := value % 2 ^ 8 }
      if getAttr cons .addrFixedType = some fixedList then some (.unsupported, i)
      else if getAttr cons .addrFixedType = some fixedValue then compileFixedValue cons i
      else some (.success, i)
    else some (.success, i)

def compileGranularity (cons : Constraints) (i : Compiler) : Option Compiler :=
  match getAttr cons .elementGranularityBits with
  | none => some i
  | some value =>
    if pagingBaseShift < value then do
      let nFrames ← shiftLeft 1 (value - pagingBaseShift)
      some { i with minElementGranularityNFrames := nFrames, maxNContiguousFrames := nFrames }
    else some i

def compileLength (cons : Constraints) (i : Compiler) : Option Compiler :=
  match getAttr cons .elementLengthBits with
  | none => some i
  | some value => do
      let maxElemBits := if value < pagingBaseShift then pagingBaseShift else value
      let nFrames ← shiftLeft 1 (maxElemBits - pagingBaseShift)
      some { i with maxNContiguousFrames := nFrames }

def compileSlop (cons : Constraints) (i : Compiler) : Compiler :=
  { i with
    slopInBits := (getAttr cons .slopInBits).getD 0
    slopOutBits := (getAttr cons .slopOutBits).getD 0
    slopOutExtra := (getAttr cons .slopOutExtra).getD 0 }

def isSet (cons : Constraints) (attr : AttrType) : Bool :=
  (getAttr cons attr).getD 0 ≠ 0

def compileHints (cons : Constraints) (i : Compiler) : Compiler :=
  { i with
    partialAllocationsDisallowed := i.partialAllocationsDisallowed || isSet cons .noPartial
    sequentialAccessHint := i.sequentialAccessHint || isSet cons .sequential }

/-- `UDI_DMA_SCGTH_FORMAT`, of which the bits of `UDI_SCGTH_32` and `UDI_SCGTH_64` count. The member
has 8 bits. -/
def compileFormat (cons : Constraints) (i : Compiler) : Kerror × Compiler :=
  let i := { i with callerSupportedFormats := 0 }
  match getAttr cons .scgthFormat with
  | none => (.nonConformant, i)
  | some value =>
    if value % 4 = 0 then (.nonConformant, i)
    else (.success, { i with callerSupportedFormats := value % 2 ^ 8 })

/-- `compile` once the sizes are known. -/
def compileRest (cons : Constraints) (i : Compiler) : Kerror × Compiler :=
  if i.maxNContiguousFrames < i.minElementGranularityNFrames then (.invalidArgVal, i)
  else
    let i := compileSlop cons i
    if i.slopInBits ≠ 0 ∨ i.slopOutBits ≠ 0 ∨ i.slopOutExtra ≠ 0 then (.unsupported, i)
    else compileFormat cons (compileHints cons i)

def compileElements (cons : Constraints) (i : Compiler) : Option (Kerror × Compiler) := do
  let i ← compileGranularity cons i
  let i ← compileLength cons i
  some (compileRest cons i)

/-- `none` when a shift amount reaches the width of its operand. -/
def compile (cons : Constraints) (i : Compiler) : Option (Kerror × Compiler) := do
  let i := { i with minElementGranularityNFrames := 1, maxNContiguousFrames := 1 }
  let i ← compileAddressable cons i
  let i ← compileAlignment cons i
  let (error, i) ← compileFixed cons (compileElementsPerSegment cons i)
  if error ≠ .success then some (error, i) else compileElements cons i

def inFrames (bits : Option Nat) : Nat :=
  2 ^ (bits.getD 0 - pagingBaseShift)

def addressWidth (cons : Constraints) : Nat :=
  min ((getAttr cons .dataAddressableBits).getD paddrNBits) paddrNBits

/-- The number of fixed bits, when they are of the type `UDI_DMA_FIXED_VALUE`. -/
def fixedBits? (cons : Constraints) : Option Nat :=
  match getAttr cons .addrFixedBits with
  | none => none
  | some value =>
    if value > 0 ∧ getAttr cons .addrFixedType = some fixedValue then some value else none

def fixedBitsValue (cons : Constraints) : Nat :=
  (getAttr cons .addrFixedValueLo).getD 0

def Allowed (cons : Constraints) (pfn : Nat) : Prop :=
  pfn * pagingBaseSize < 2 ^ addressWidth cons ∧
    ∀ bits ∈ fixedBits? cons, bits ≤ addressWidth cons ∧
      pfn * pagingBaseSize / 2 ^ (addressWidth cons - bits) = fixedBitsValue cons

/-- What the compiled values are to mean. A machine with 32 address bits has 2^20 frames. -/
structure Meets (cons : Constraints) (i : Compiler) : Prop where
  range : ∀ pfn < 2 ^ 20, i.startPfn ≤ pfn ∧ pfn < i.beyondEndPfn ↔ Allowed cons pfn
  alignment : i.pfnSkipStride + 1 = inFrames (getAttr cons .elementAlignmentBits)
  granularity : i.minElementGranularityNFrames = inFrames (getAttr cons .elementGranularityBits)
  length : i.maxNContiguousFrames =
    if (getAttr cons .elementLengthBits).isSome then inFrames (getAttr cons .elementLengthBits)
    else i.minElementGranularityNFrames
  minimum_le : i.minElementGranularityNFrames ≤ i.maxNContiguousFrames
  elementsPerSegment : i.maxElementsPerSegment = (getAttr cons .scgthMaxElPerSeg).getD 0

def keptWidth (cons : Constraints) : Nat :=
  min ((getAttr cons .dataAddressableBits).getD paddrNBits % 2 ^ 8) paddrNBits

def FitsShift (bits : Option Nat) : Prop :=
  ∀ value ∈ bits, value < pagingBaseShift + 32

def FixedRejected (cons : Constraints) : Prop :=
  (getAttr cons .addrFixedBits).getD 0 ≠ 0 ∧
    (getAttr cons .addrFixedType = some fixedList ∨ getAttr cons .addrFixedType = some fixedValue ∧
        (getAttr cons .addrFixedValueHi).getD 0 ≠ 0)

/-- The sizes are small enough, and the fixed bits, of which 8 bits are kept, are not more than the
address width; 32 bits do not all stay free. -/
def ShiftsFit (cons : Constraints) : Prop :=
  FitsShift (getAttr cons .elementAlignmentBits) ∧
    (FixedRejected cons ∨ (∀ bits ∈ fixedBits? cons,
        bits % 2 ^ 8 ≤ keptWidth cons ∧ keptWidth cons - bits % 2 ^ 8 < 32) ∧
      FitsShift (getAttr cons .elementGranularityBits) ∧
      FitsShift (getAttr cons .elementLengthBits))

def Attainable (width bits value : Nat) : Prop :=
  bits ≤ width ∧ value < 2 ^ bits ∧ 2 ^ (pagingBaseShift - (width - bits)) ∣ value

/-- `free` bits below the fixed ones take the top bits of the value away. What is left of it is all
ones, or too large, or ends within a page. -/
def LeavesNoFrame (width free value : Nat) : Prop :=
  let left := value % 2 ^ (32 - free)
  left + 1 = 2 ^ (32 - free) ∨ 2 ^ (max width pagingBaseShift - free) ≤ left ∨
    free < pagingBaseShift ∧
      left % 2 ^ (pagingBaseShift - free) + 1 ≠ 2 ^ (pagingBaseShift - free)

/-- The fixed value is right: an attainable one with a page of free bits, a width that is kept and,
when it is 32, not all ones; for another value no frame is left. -/
def FixedRight (cons : Constraints) (bits : Nat) : Prop :=
  (Attainable (addressWidth cons) bits (fixedBitsValue cons) →
    keptWidth cons = addressWidth cons ∧ pagingBaseShift ≤ addressWidth cons - bits ∧
      ¬ (addressWidth cons = 32 ∧ fixedBitsValue cons + 1 = 2 ^ bits)) ∧
  (¬ Attainable (addressWidth cons) bits (fixedBitsValue cons) →
    LeavesNoFrame (keptWidth cons) (keptWidth cons - bits % 2 ^ 8) (fixedBitsValue cons))

def Right (cons : Constraints) : Prop :=
  (match fixedBits? cons with
    | none => keptWidth cons = addressWidth cons
    | some bits => FixedRight cons bits) ∧
  (getAttr cons .elementAlignmentBits).getD 0 = (getAttr cons .scgthMaxElPerSeg).getD 0

section

variable {width free bits value pfn : Nat}

theorem two_pow_split {m n : Nat} (h : n ≤ m) : 2 ^ m = 2 ^ (m - n) * 2 ^ n := by
  rw [← pow_add, Nat.sub_add_cancel h]

theorem shifted_eq (h : free < 32) (value : Nat) :
    value * 2 ^ free % wordModulus = value % 2 ^ (32 - free) * 2 ^ free := by
  rw [wordModulus, two_pow_split h.le, mul_mod_mul_right]

theorem shifted_succ_eq (h : free < 32) (value : Nat) :
    (value + 1) % wordModulus * 2 ^ free % wordModulus =
      (value + 1) % 2 ^ (32 - free) * 2 ^ free := by
  rw [mod_mul_mod, shifted_eq h]

theorem succ_mod_eq {m : Nat} (hm : 0 < m) (value : Nat) :
    (value + 1) % m = if value % m + 1 = m then 0 else value % m + 1 := by
  have hlt := mod_lt value hm
  rw [← mod_add_mod]
  split
  · next heq => rw [heq, mod_self]
  · exact mod_eq_of_lt (by omega)

theorem mem_shifted_iff (h : free < 32) (value pfn : Nat) :
    value * 2 ^ free % wordModulus / pagingBaseSize ≤ pfn ∧
        pfn < (value + 1) % wordModulus * 2 ^ free % wordModulus / pagingBaseSize ↔
      value % 2 ^ (32 - free) + 1 ≠ 2 ^ (32 - free) ∧
        (pfn * pagingBaseSize + 4095) / 2 ^ free = value % 2 ^ (32 - free) := by
  rw [shifted_eq h, shifted_succ_eq h, succ_mod_eq (by positivity),
    Nat.div_eq_iff (by positivity), ← Nat.lt_succ_iff, Nat.div_lt_iff_lt_mul (by decide)]
  split
  · next heq => simp [heq]
  next hne =>
  simp only [ne_eq, hne, not_false_eq_true, true_and]
  generalize value % 2 ^ (32 - free) = left
  rw [lt_iff_add_one_le, lt_iff_add_one_le, le_div_iff_mul_le (by decide),
    add_mul left 1, one_mul]
  unfold pagingBaseSize
  omega

theorem last_byte_div_of_le (h : pagingBaseShift ≤ free) (pfn : Nat) :
    (pfn * pagingBaseSize + 4095) / 2 ^ free = pfn * pagingBaseSize / 2 ^ free := by
  have hsplit : 2 ^ free = pagingBaseSize * 2 ^ (free - pagingBaseShift) := by
    rw [two_pow_split h, mul_comm]
    rfl
  have hpage : (pfn * pagingBaseSize + 4095) / pagingBaseSize =
      pfn * pagingBaseSize / pagingBaseSize := by
    unfold pagingBaseSize
    omega
  rw [hsplit, ← Nat.div_div_eq_div_mul, ← Nat.div_div_eq_div_mul, hpage]

theorem last_byte_div_of_lt (h : free < pagingBaseShift) (pfn : Nat) :
    (pfn * pagingBaseSize + 4095) / 2 ^ free =
      pfn * 2 ^ (pagingBaseShift - free) + (2 ^ (pagingBaseShift - free) - 1) := by
  have hsplit : pagingBaseSize = 2 ^ (pagingBaseShift - free) * 2 ^ free := by
    rw [← two_pow_split h.le]
    rfl
  have hpos : 0 < 2 ^ (pagingBaseShift - free) := by positivity
  have hfree : 0 < 2 ^ free := by positivity
  have hlast : pfn * pagingBaseSize + 4095 =
      (2 ^ free - 1) + 2 ^ free * (pfn * 2 ^ (pagingBaseShift - free) +
        (2 ^ (pagingBaseShift - free) - 1)) := by
    have hpage : 2 ^ (pagingBaseShift - free) * 2 ^ free = 4096 := hsplit.symm
    generalize 2 ^ (pagingBaseShift - free) = above at hsplit hpos hpage ⊢
    generalize 2 ^ free = below at hsplit hfree hpage ⊢
    obtain ⟨above, rfl⟩ := exists_eq_succ_of_ne_zero hpos.ne'
    rw [hsplit]
    have : below * (pfn * (above + 1) + (above + 1 - 1)) =
        pfn * ((above + 1) * below) + above * below := by
      rw [Nat.add_sub_cancel]
      ring
    rw [succ_eq_add_one] at *
    have : (above + 1) * below = above * below + below := by ring
    omega
  rw [hlast, add_mul_div_left _ _ hfree, div_eq_of_lt (by omega), zero_add]

theorem last_byte_lt_iff (width pfn : Nat) : pfn * pagingBaseSize < 2 ^ width ↔
      pfn * pagingBaseSize + 4095 < 2 ^ max width pagingBaseShift := by
  rcases le_total pagingBaseShift width with hle | hle
  · rw [max_eq_left hle, two_pow_split hle]
    have hpage : 2 ^ pagingBaseShift = pagingBaseSize := rfl
    rw [hpage]
    generalize 2 ^ (width - pagingBaseShift) = nFrames
    unfold pagingBaseSize
    omega
  · rw [max_eq_right hle]
    have hpos : 0 < 2 ^ width := by positivity
    have hwidth : 2 ^ width ≤ 2 ^ pagingBaseShift := Nat.pow_le_pow_right (by decide) hle
    have hpage : 2 ^ pagingBaseShift = 4096 := rfl
    unfold pagingBaseSize
    omega

theorem leavesNoFrame_iff (hwidth : width ≤ 32) (hfree : free < 32) (hle : free ≤ width)
    (value : Nat) : (∀ pfn < 2 ^ 20, ¬ ((value % 2 ^ (32 - free) + 1 ≠ 2 ^ (32 - free) ∧
        (pfn * pagingBaseSize + 4095) / 2 ^ free = value % 2 ^ (32 - free)) ∧
      pfn * pagingBaseSize < 2 ^ width)) ↔ LeavesNoFrame width free value := by
  unfold LeavesNoFrame
  generalize value % 2 ^ (32 - free) = left
  have hmax : free ≤ max width pagingBaseShift := hle.trans (le_max_left _ _)
  have hpos : 0 < 2 ^ free := by positivity
  constructor
  · intro hnone
    rcases eq_or_ne (left + 1) (2 ^ (32 - free)) with hones | hones
    · exact .inl hones
    rcases le_or_gt (2 ^ (max width pagingBaseShift - free)) left with hlarge | hsmall
    · exact .inr (.inl hlarge)
    right
    right
    -- otherwise there is such a frame
    have hframe : ∀ pfn, (pfn * pagingBaseSize + 4095) / 2 ^ free = left → False := by
      intro pfn hleft
      have hbyte : pfn * pagingBaseSize + 4095 < 2 ^ max width pagingBaseShift := by
        rw [two_pow_split hmax, ← div_lt_iff_lt_mul hpos, hleft]
        exact hsmall
      have haddress := (last_byte_lt_iff width pfn).mpr hbyte
      refine hnone pfn ?_ ⟨⟨hones, hleft⟩, haddress⟩
      have hword : 2 ^ width ≤ 2 ^ 32 := Nat.pow_le_pow_right (by decide) hwidth
      unfold pagingBaseSize at haddress
      omega
    rcases le_or_gt pagingBaseShift free with hpage | hpage
    · refine absurd ?_ (hframe (left * 2 ^ (free - pagingBaseShift)))
      rw [last_byte_div_of_le hpage, mul_assoc]
      have hsplit : 2 ^ (free - pagingBaseShift) * pagingBaseSize = 2 ^ free :=
        (two_pow_split hpage).symm
      rw [hsplit]
      exact Nat.mul_div_cancel _ hpos
    · refine ⟨hpage, fun hmod => hframe (left / 2 ^ (pagingBaseShift - free)) ?_⟩
      rw [last_byte_div_of_lt hpage]
      have hdiv := div_add_mod' left (2 ^ (pagingBaseShift - free))
      omega
  · rintro hleaves pfn - ⟨⟨hones, hleft⟩, haddress⟩
    have hbyte := (last_byte_lt_iff width pfn).mp haddress
    rw [two_pow_split hmax, ← div_lt_iff_lt_mul hpos, hleft] at hbyte
    rcases hleaves with heq | hlarge | ⟨hpage, hmod⟩
    · exact hones heq
    · exact absurd hbyte (not_lt.mpr hlarge)
    rw [last_byte_div_of_lt hpage] at hleft
    have habove : 0 < 2 ^ (pagingBaseShift - free) := by positivity
    refine hmod ?_
    rw [← hleft, mul_add_mod', mod_eq_of_lt (by omega)]
    omega

theorem Attainable.exists_frame (h : Attainable width bits value) :
    ∃ pfn, pfn * pagingBaseSize = value * 2 ^ (width - bits) := by
  obtain ⟨-, -, hdvd⟩ := h
  have hpage : pagingBaseSize ∣ value * 2 ^ (width - bits) := by
    rcases le_total pagingBaseShift (width - bits) with hle | hle
    · exact Dvd.dvd.mul_left (pow_dvd_pow 2 hle) value
    · have hsplit : pagingBaseSize =
          2 ^ (pagingBaseShift - (width - bits)) * 2 ^ (width - bits) := two_pow_split hle
      rw [hsplit]
      exact mul_dvd_mul_right hdvd _
  obtain ⟨pfn, hpfn⟩ := hpage
  exact ⟨pfn, (mul_comm _ _).trans hpfn.symm⟩

theorem attainable_of_frame (hbits : bits ≤ width) (haddress : pfn * pagingBaseSize < 2 ^ width)
    (hvalue : pfn * pagingBaseSize / 2 ^ (width - bits) = value) : Attainable width bits value := by
  have hpos : 0 < 2 ^ (width - bits) := by positivity
  subst hvalue
  refine ⟨hbits, ?_, ?_⟩
  · rw [Nat.div_lt_iff_lt_mul hpos, ← pow_add, Nat.add_sub_cancel' hbits]
    exact haddress
  · rcases le_total pagingBaseShift (width - bits) with hle | hle
    · rw [Nat.sub_eq_zero_of_le hle]
      exact one_dvd _
    · have hsplit : pagingBaseSize =
          2 ^ (pagingBaseShift - (width - bits)) * 2 ^ (width - bits) := two_pow_split hle
      rw [hsplit, ← mul_assoc, Nat.mul_div_cancel _ hpos]
      exact Dvd.intro_left pfn rfl

def InRange (kept free value pfn : Nat) : Prop :=
  (value % 2 ^ (32 - free) + 1 ≠ 2 ^ (32 - free) ∧
      (pfn * pagingBaseSize + 4095) / 2 ^ free = value % 2 ^ (32 - free)) ∧
    pfn * pagingBaseSize < 2 ^ kept

def HasTop (width bits value pfn : Nat) : Prop :=
  pfn * pagingBaseSize < 2 ^ width ∧ bits ≤ width ∧
    pfn * pagingBaseSize / 2 ^ (width - bits) = value

theorem lt_of_address_lt (hwidth : width ≤ 32) (h : pfn * pagingBaseSize < 2 ^ width) :
    pfn < 2 ^ 20 := by
  have hword : 2 ^ width ≤ 2 ^ 32 := Nat.pow_le_pow_right (by decide) hwidth
  unfold pagingBaseSize at h
  omega

theorem inRange_iff_of_attainable {kept : Nat} (hwidth : width ≤ 32) (hkept : kept ≤ width)
    (hbits : bits ≤ kept) (hattainable : Attainable width bits value) :
    (∀ pfn < 2 ^ 20, InRange kept (kept - bits) value pfn ↔ HasTop width bits value pfn) ↔
      kept = width ∧ pagingBaseShift ≤ width - bits ∧ ¬ (width = 32 ∧ value + 1 = 2 ^ bits) := by
  obtain ⟨-, hvalue, -⟩ := id hattainable
  have hbelow : 2 ^ bits ≤ 2 ^ (32 - (kept - bits)) :=
    Nat.pow_le_pow_right (by decide) (by omega)
  have hleft : value % 2 ^ (32 - (kept - bits)) = value := Nat.mod_eq_of_lt (by omega)
  unfold InRange
  rw [hleft]
  have hfree : 0 < 2 ^ (kept - bits) := by positivity
  have htop : 0 < 2 ^ (width - bits) := by positivity
  have hwhole : 2 ^ width = 2 ^ bits * 2 ^ (width - bits) := by
    rw [← pow_add, Nat.add_sub_cancel' (hbits.trans hkept)]
  constructor
  · intro hframes
    obtain ⟨first, hfirst⟩ := hattainable.exists_frame
    have hfirstTop : HasTop width bits value first := by
      refine ⟨?_, hbits.trans hkept, ?_⟩
      · rw [hfirst, hwhole]
        exact Nat.mul_lt_mul_of_pos_right hvalue htop
      · rw [hfirst, Nat.mul_div_cancel _ htop]
    obtain ⟨⟨hones, hbyte⟩, -⟩ :=
      (hframes first (lt_of_address_lt hwidth hfirstTop.1)).mpr hfirstTop
    have hfreeLe : 2 ^ (kept - bits) ≤ 2 ^ (width - bits) :=
      Nat.pow_le_pow_right (by decide) (by omega)
    -- the first frame has to be in the range, so that a page is free
    have hpage : pagingBaseShift ≤ kept - bits := by
      have hlt := Nat.lt_mul_of_div_lt (hbyte.trans_lt (Nat.lt_succ_self value)) hfree
      rw [hfirst, Nat.succ_eq_add_one, add_mul, one_mul] at hlt
      have hmul := Nat.mul_le_mul_left value hfreeLe
      rcases le_or_gt pagingBaseShift (kept - bits) with hle | hgt
      · exact hle
      · have hsmall : 2 ^ (kept - bits) ≤ 2 ^ 11 :=
          Nat.pow_le_pow_right (by decide) (Nat.le_of_lt_succ hgt)
        omega
    -- and so has the last one, so that the width is kept
    have hframesOf : 2 ^ (width - bits) = 2 ^ (width - bits - pagingBaseShift) * pagingBaseSize :=
      two_pow_split (hpage.trans (by omega))
    have hcount : 0 < 2 ^ (width - bits - pagingBaseShift) := by positivity
    obtain ⟨last, hlast⟩ :
        ∃ last, last * pagingBaseSize + 4096 = value * 2 ^ (width - bits) + 2 ^ (width - bits) := by
      refine ⟨first + (2 ^ (width - bits - pagingBaseShift) - 1), ?_⟩
      generalize 2 ^ (width - bits - pagingBaseShift) = count at hframesOf hcount ⊢
      rw [← hfirst, hframesOf]
      unfold pagingBaseSize
      omega
    have hlastTop : HasTop width bits value last := by
      refine ⟨?_, hbits.trans hkept, ?_⟩
      · have hle : (value + 1) * 2 ^ (width - bits) ≤ 2 ^ width := by
          rw [hwhole]
          exact Nat.mul_le_mul_right _ hvalue
        rw [add_mul, one_mul] at hle
        omega
      · have hlarge : 4096 ≤ 2 ^ (width - bits) :=
          Nat.pow_le_pow_right Nat.two_pos (hpage.trans (by omega) : 12 ≤ width - bits)
        rw [Nat.div_eq_iff htop]
        omega
    obtain ⟨⟨-, hbyte'⟩, -⟩ := (hframes last (lt_of_address_lt hwidth hlastTop.1)).mpr hlastTop
    have hsame : 2 ^ (width - bits) ≤ 2 ^ (kept - bits) := by
      have hlt := Nat.lt_mul_of_div_lt (hbyte'.trans_lt (Nat.lt_succ_self value)) hfree
      have hle : (value + 1) * 2 ^ (width - bits) ≤ (value + 1) * 2 ^ (kept - bits) := by
        rw [add_mul, one_mul, ← hlast]
        exact hlt
      exact Nat.le_of_mul_le_mul_left hle (Nat.succ_pos value)
    have hle := (Nat.pow_le_pow_iff_right (by decide)).mp hsame
    have hkeptEq : kept = width := by omega
    subst hkeptEq
    refine ⟨rfl, hpage, ?_⟩
    rintro ⟨rfl, hall⟩
    rw [Nat.sub_sub_self hbits] at hones
    exact hones hall
  · rintro ⟨rfl, hpage, hnotAll⟩ pfn -
    have hones : value + 1 ≠ 2 ^ (32 - (kept - bits)) := by
      intro heq
      rcases eq_or_ne kept 32 with rfl | hne
      · rw [Nat.sub_sub_self hbits] at heq
        exact hnotAll ⟨rfl, heq⟩
      · have hlt : 2 ^ bits < 2 ^ (32 - (kept - bits)) :=
          Nat.pow_lt_pow_right (by decide) (by omega)
        omega
    rw [last_byte_div_of_le hpage, HasTop]
    simp only [ne_eq, hones, not_false_eq_true, true_and, hbits]
    exact and_comm

theorem inRange_iff {kept : Nat} (hwidth : width ≤ 32) (hkept : kept ≤ width)
    (hbits : bits % 2 ^ 8 ≤ kept) (hfree : kept - bits % 2 ^ 8 < 32) (value : Nat) :
    (∀ pfn < 2 ^ 20, InRange kept (kept - bits % 2 ^ 8) value pfn ↔ HasTop width bits value pfn) ↔
      (Attainable width bits value → kept = width ∧ pagingBaseShift ≤ width - bits ∧
        ¬ (width = 32 ∧ value + 1 = 2 ^ bits)) ∧ (¬ Attainable width bits value →
        LeavesNoFrame kept (kept - bits % 2 ^ 8) value) := by
  rcases em (Attainable width bits value) with hattainable | hattainable
  · have hmod : bits % 2 ^ 8 = bits := mod_eq_of_lt (by
      have := hattainable.1
      omega)
    rw [hmod] at hbits ⊢
    rw [inRange_iff_of_attainable hwidth hkept hbits hattainable]
    simp [hattainable, IsEmpty.forall_iff]
  · simp only [hattainable, IsEmpty.forall_iff, not_false_eq_true, forall_const, true_and]
    rw [← leavesNoFrame_iff (hkept.trans hwidth) hfree (sub_le _ _)]
    refine forall₂_congr fun pfn _ => ?_
    refine iff_false_right ?_
    rintro ⟨haddress, hle, hvalue⟩
    exact hattainable (attainable_of_frame hle haddress hvalue)

end

section

variable {cons : Constraints} {i : Compiler} {bits : Nat}

theorem addressWidth_le (cons : Constraints) : addressWidth cons ≤ 32 :=
  min_le_right _ _

theorem keptWidth_le (cons : Constraints) : keptWidth cons ≤ addressWidth cons :=
  min_le_min_right _ (mod_le _ _)

theorem shiftLeft_one {amount : Nat} (h : amount < 32) : shiftLeft 1 amount = some (2 ^ amount) := by
  have hlt : 2 ^ amount < wordModulus := Nat.pow_lt_pow_right (by decide) h
  rw [shiftLeft, if_pos h, one_mul, mod_eq_of_lt hlt]

def endPfn (cons : Constraints) : Nat :=
  if (getAttr cons .dataAddressableBits).isNone then wordModulus - 1
  else if pagingBaseShift ≤ keptWidth cons then 2 ^ (keptWidth cons - pagingBaseShift)
  else 1

theorem compileAddressable_eq (cons : Constraints) (i : Compiler) :
    compileAddressable cons i =
      some { i with addressableBits := keptWidth cons, beyondEndPfn := endPfn cons } := by
  unfold compileAddressable
  cases hattr : getAttr cons .dataAddressableBits with
  | none => simp [keptWidth, endPfn, hattr, paddrNBits]
  | some value =>
    have hkept : (if value % 2 ^ 8 > paddrNBits then paddrNBits else value % 2 ^ 8) =
        keptWidth cons := by
      rw [keptWidth, hattr, getD_some]
      split <;> omega
    have hle := (keptWidth_le cons).trans (addressWidth_le cons)
    simp only [hkept, endPfn, hattr, isNone_some, Bool.false_eq_true, if_false]
    split
    · have hshift : keptWidth cons - pagingBaseShift < 32 := by
        unfold pagingBaseShift
        omega
      rw [shiftLeft_one hshift]
      rfl
    · rfl

theorem lt_endPfn_iff {pfn : Nat} (hpfn : pfn < 2 ^ 20) :
    pfn < endPfn cons ↔ pfn * pagingBaseSize < 2 ^ keptWidth cons := by
  unfold endPfn
  split
  · next hnone =>
    have hkept : keptWidth cons = 32 := by
      rw [keptWidth, isNone_iff_eq_none.mp hnone]
      rfl
    rw [hkept]
    unfold wordModulus pagingBaseSize
    omega
  split
  · next hle =>
    rw [two_pow_split hle]
    exact (Nat.mul_lt_mul_right (by decide)).symm
  next hlt =>
  have hpos : 0 < 2 ^ keptWidth cons := by positivity
  have hsmall : 2 ^ keptWidth cons ≤ 2 ^ 12 :=
    Nat.pow_le_pow_right Nat.two_pos (not_le.mp hlt).le
  unfold pagingBaseSize
  omega

theorem inFrames_pos (bits : Option Nat) : 0 < inFrames bits := by
  unfold inFrames
  positivity

theorem compileAlignment_eq (h : FitsShift (getAttr cons .elementAlignmentBits)) (i : Compiler) :
    compileAlignment cons i =
      some { i with pfnSkipStride := inFrames (getAttr cons .elementAlignmentBits) - 1 } := by
  unfold compileAlignment
  cases hattr : getAttr cons .elementAlignmentBits with
  | none => rfl
  | some value =>
    have hfits : value < pagingBaseShift + 32 := h value hattr
    dsimp only
    split
    · have hlt : 2 ^ (value - pagingBaseShift) < wordModulus :=
        Nat.pow_lt_pow_right Nat.one_lt_two (by omega)
      have hpos : 0 < 2 ^ (value - pagingBaseShift) := by positivity
      have hsub : wordSub (2 ^ (value - pagingBaseShift)) 1 = 2 ^ (value - pagingBaseShift) - 1 := by
        unfold wordSub
        unfold wordModulus at *
        omega
      rw [shiftLeft_one (by omega)]
      simp only [some_bind, hsub]
      rfl
    · next hle =>
      rw [inFrames, getD_some, Nat.sub_eq_zero_of_le (not_lt.mp hle)]
      rfl

theorem shiftLeft_eq_none {value amount : Nat} (h : ¬ amount < 32) :
    shiftLeft value amount = none :=
  if_neg h

theorem exists_of_not_fitsShift {attr : Option Nat} (h : ¬ FitsShift attr) :
    ∃ value, attr = some value ∧ pagingBaseShift < value ∧ ¬ value - pagingBaseShift < 32 := by
  cases attr with
  | none => exact absurd (fun _ hmem => by cases hmem) h
  | some value =>
    refine ⟨value, rfl, ?_⟩
    have hlarge : ¬ value < pagingBaseShift + 32 := by
      intro hlt
      refine h fun other hother => ?_
      cases hother
      exact hlt
    omega

theorem compileAlignment_eq_none (h : ¬ FitsShift (getAttr cons .elementAlignmentBits))
    (i : Compiler) : compileAlignment cons i = none := by
  obtain ⟨value, hattr, hlarge, hshift⟩ := exists_of_not_fitsShift h
  unfold compileAlignment
  rw [hattr]
  dsimp only
  rw [if_pos hlarge, shiftLeft_eq_none hshift]
  rfl

theorem compileGranularity_eq (h : FitsShift (getAttr cons .elementGranularityBits))
    (hmin : i.minElementGranularityNFrames = 1) (hmax : i.maxNContiguousFrames = 1) :
    compileGranularity cons i =
      some { i with
        minElementGranularityNFrames := inFrames (getAttr cons .elementGranularityBits)
        maxNContiguousFrames := inFrames (getAttr cons .elementGranularityBits) } := by
  have hsame : i = { i with minElementGranularityNFrames := 1, maxNContiguousFrames := 1 } := by
    cases i
    simp_all
  unfold compileGranularity
  cases hattr : getAttr cons .elementGranularityBits with
  | none => exact congrArg some hsame
  | some value =>
    have hfits : value < pagingBaseShift + 32 := h value hattr
    dsimp only
    split
    · rw [shiftLeft_one (by omega)]
      rfl
    · next hle =>
      rw [inFrames, getD_some, Nat.sub_eq_zero_of_le (not_lt.mp hle)]
      exact congrArg some hsame

theorem compileGranularity_eq_none (h : ¬ FitsShift (getAttr cons .elementGranularityBits))
    (i : Compiler) : compileGranularity cons i = none := by
  obtain ⟨value, hattr, hlarge, hshift⟩ := exists_of_not_fitsShift h
  unfold compileGranularity
  rw [hattr]
  dsimp only
  rw [if_pos hlarge, shiftLeft_eq_none hshift]
  rfl

theorem compileLength_eq (h : FitsShift (getAttr cons .elementLengthBits)) (i : Compiler) :
    compileLength cons i =
      some { i with
        maxNContiguousFrames :=
          if (getAttr cons .elementLengthBits).isSome then
            inFrames (getAttr cons .elementLengthBits)
          else i.maxNContiguousFrames } := by
  unfold compileLength
  cases hattr : getAttr cons .elementLengthBits with
  | none => rfl
  | some value =>
    have hfits : value < pagingBaseShift + 32 := h value hattr
    have hbits : (if value < pagingBaseShift then pagingBaseShift else value) - pagingBaseShift =
        value - pagingBaseShift := by
      split <;> omega
    dsimp only
    rw [hbits, shiftLeft_one (by omega)]
    rfl

theorem compileLength_eq_none (h : ¬ FitsShift (getAttr cons .elementLengthBits))
    (i : Compiler) : compileLength cons i = none := by
  obtain ⟨value, hattr, hlarge, hshift⟩ := exists_of_not_fitsShift h
  unfold compileLength
  rw [hattr]
  dsimp only
  rw [if_neg (not_lt.mpr hlarge.le), shiftLeft_eq_none hshift]
  rfl

theorem compileFixed_free (hrejected : ¬ FixedRejected cons) (hfixed : fixedBits? cons = none)
    (i : Compiler) :
    compileFixed cons i = some (.success, { i with
      startPfn := 0
      fixedBits :=
        if (getAttr cons .addrFixedBits).getD 0 = 0 then i.fixedBits
        else (getAttr cons .addrFixedBits).getD 0 % 2 ^ 8 }) := by
  unfold compileFixed
  cases hattr : getAttr cons .addrFixedBits with
  | none => rfl
  | some value =>
    dsimp only
    split
    · next hpos =>
      have hlist : getAttr cons .addrFixedType ≠ some fixedList := by
        intro hlist
        refine hrejected ⟨?_, .inl hlist⟩
        rw [hattr, getD_some]
        omega
      have hvalue : getAttr cons .addrFixedType ≠ some fixedValue := by
        intro hvalue
        simp [fixedBits?, hattr, hpos, hvalue] at hfixed
      rw [if_neg hlist, if_neg hvalue, getD_some, if_neg hpos.ne']
    · next hzero =>
      rw [getD_some, if_pos (by omega)]

theorem compileFixed_rejected (h : FixedRejected cons) (i : Compiler) :
    ∃ i', compileFixed cons i = some (.unsupported, i') ∧
      i'.minElementGranularityNFrames = i.minElementGranularityNFrames := by
  obtain ⟨hbits, htype⟩ := h
  unfold compileFixed
  cases hattr : getAttr cons .addrFixedBits with
  | none => simp [hattr] at hbits
  | some value =>
    rw [hattr, getD_some] at hbits
    dsimp only
    rw [if_pos (pos_of_ne_zero hbits)]
    rcases htype with hlist | ⟨hvalue, hhi⟩
    · rw [if_pos hlist]
      exact ⟨_, rfl, rfl⟩
    have hlist : getAttr cons .addrFixedType ≠ some fixedList := by
      rw [hvalue]
      decide
    rw [if_neg hlist, if_pos hvalue, compileFixedValue, if_pos hhi]
    exact ⟨_, rfl, rfl⟩

theorem compileFixed_value (hrejected : ¬ FixedRejected cons) (hfixed : fixedBits? cons = some bits)
    (i : Compiler) :
    (getAttr cons .addrFixedValueHi).getD 0 = 0 ∧
      compileFixed cons i =
        compileFixedValue cons { i with startPfn := 0, fixedBits := bits % 2 ^ 8 } := by
  unfold compileFixed
  unfold fixedBits? at hfixed
  cases hattr : getAttr cons .addrFixedBits with
  | none =>
    rw [hattr] at hfixed
    cases hfixed
  | some value =>
    rw [hattr] at hfixed
    dsimp only at hfixed ⊢
    split at hfixed
    · next hgiven =>
      obtain ⟨hpos, hvalue⟩ := hgiven
      cases hfixed
      have hlist : getAttr cons .addrFixedType ≠ some fixedList := by
        rw [hvalue]
        decide
      rw [if_pos hpos, if_neg hlist, if_pos hvalue]
      refine ⟨?_, rfl⟩
      refine not_not.mp fun hhi => hrejected ⟨?_, .inr ⟨hvalue, hhi⟩⟩
      rw [hattr, getD_some]
      omega
    · cases hfixed

theorem wordSub_of_le {a b : Nat} (h : b ≤ a) (ha : a < wordModulus) : wordSub a b = a - b := by
  unfold wordSub
  have hsum : a + (wordModulus - b) = (a - b) + wordModulus := by omega
  rw [hsum, add_mod_right, mod_eq_of_lt (by omega)]

theorem wordSub_large {a b : Nat} (h : a < b) (hb : b < 2 ^ 8) : ¬ wordSub a b < 32 := by
  unfold wordSub wordModulus
  omega

theorem ite_gt_eq_min (a b : Nat) : (if b > a then a else b) = min a b := by
  split <;> omega

theorem compileFixedValue_eq (hhi : (getAttr cons .addrFixedValueHi).getD 0 = 0)
    (hamount : wordSub i.addressableBits i.fixedBits < 32) :
    ∃ i', compileFixedValue cons i = some (.success, i') ∧
      i' = { i with
        fixedBitsValue := fixedBitsValue cons
        startPfn := fixedBitsValue cons * 2 ^ wordSub i.addressableBits i.fixedBits %
          wordModulus / pagingBaseSize
        beyondEndPfn := min i.beyondEndPfn
          ((fixedBitsValue cons + 1) % wordModulus *
            2 ^ wordSub i.addressableBits i.fixedBits % wordModulus / pagingBaseSize) } := by
  unfold compileFixedValue
  rw [if_neg (not_not.mpr hhi)]
  refine ⟨_, ?_, rfl⟩
  simp only [shiftLeft, if_pos hamount, some_bind, ite_gt_eq_min]
  rfl

theorem compileFixedValue_eq_none (hhi : (getAttr cons .addrFixedValueHi).getD 0 = 0)
    (hamount : ¬ wordSub i.addressableBits i.fixedBits < 32) : compileFixedValue cons i = none := by
  unfold compileFixedValue
  rw [if_neg (not_not.mpr hhi)]
  simp only [shiftLeft, if_neg hamount]
  rfl

def RangeRight (cons : Constraints) (i : Compiler) : Prop :=
  ∀ pfn < 2 ^ 20, i.startPfn ≤ pfn ∧ pfn < i.beyondEndPfn ↔ Allowed cons pfn

def SameSizes (i i' : Compiler) : Prop :=
  i'.pfnSkipStride = i.pfnSkipStride ∧ i'.maxElementsPerSegment = i.maxElementsPerSegment ∧
    i'.minElementGranularityNFrames = i.minElementGranularityNFrames ∧
    i'.maxNContiguousFrames = i.maxNContiguousFrames

theorem rangeRight_free (hfixed : fixedBits? cons = none) (hstart : i.startPfn = 0)
    (hend : i.beyondEndPfn = endPfn cons) :
    RangeRight cons i ↔ keptWidth cons = addressWidth cons := by
  have hallowed : ∀ pfn, Allowed cons pfn ↔ pfn * pagingBaseSize < 2 ^ addressWidth cons := by
    intro pfn
    simp [Allowed, hfixed]
  constructor
  · intro hrange
    have hlast := hrange (2 ^ 20 - 1) (by decide)
    rw [hallowed, hstart, hend, lt_endPfn_iff (by decide)] at hlast
    rcases eq_or_ne (addressWidth cons) 32 with hword | hne
    · rw [hword] at hlast ⊢
      have hlt := (hlast.mpr (by decide)).2
      rcases (keptWidth_le cons).trans (addressWidth_le cons) |>.lt_or_eq with hless | heq
      · have hsmall : 2 ^ keptWidth cons ≤ 2 ^ 31 :=
          Nat.pow_le_pow_right Nat.two_pos (Nat.le_of_lt_succ hless)
        unfold pagingBaseSize at hlt
        omega
      · exact heq
    · -- a width below 32 bits was not cut
      unfold keptWidth addressWidth paddrNBits at *
      omega
  · intro hkept pfn hpfn
    rw [hallowed, hstart, hend, lt_endPfn_iff hpfn, hkept]
    simp

theorem rangeRight_fixed (hfixed : fixedBits? cons = some bits)
    (hbits : bits % 2 ^ 8 ≤ keptWidth cons) (hfree : keptWidth cons - bits % 2 ^ 8 < 32)
    (hstart : i.startPfn = fixedBitsValue cons * 2 ^ (keptWidth cons - bits % 2 ^ 8) %
      wordModulus / pagingBaseSize)
    (hend : i.beyondEndPfn = min (endPfn cons) ((fixedBitsValue cons + 1) % wordModulus *
      2 ^ (keptWidth cons - bits % 2 ^ 8) % wordModulus / pagingBaseSize)) :
    RangeRight cons i ↔ FixedRight cons bits := by
  rw [FixedRight, ← inRange_iff (addressWidth_le cons) (keptWidth_le cons) hbits hfree]
  refine forall₂_congr fun pfn hpfn => ?_
  have hallowed : Allowed cons pfn ↔
      HasTop (addressWidth cons) bits (fixedBitsValue cons) pfn := by
    simp [Allowed, HasTop, hfixed]
  rw [hallowed, hstart, hend, lt_min_iff, lt_endPfn_iff hpfn, and_comm (b := _ < _ / _), ← and_assoc,
    mem_shifted_iff hfree]
  rfl

theorem compileFixed_eq (hrejected : ¬ FixedRejected cons)
    (hfits : ∀ bits ∈ fixedBits? cons,
      bits % 2 ^ 8 ≤ keptWidth cons ∧ keptWidth cons - bits % 2 ^ 8 < 32)
    (hwidth : i.addressableBits = keptWidth cons) (hend : i.beyondEndPfn = endPfn cons) :
    ∃ i', compileFixed cons i = some (.success, i') ∧ SameSizes i i' ∧
      (RangeRight cons i' ↔
        match fixedBits? cons with
        | none => keptWidth cons = addressWidth cons
        | some bits => FixedRight cons bits) := by
  cases hfixed : fixedBits? cons with
  | none =>
    exact ⟨_, compileFixed_free hrejected hfixed i, ⟨rfl, rfl, rfl, rfl⟩,
      rangeRight_free hfixed rfl hend⟩
  | some bits =>
    obtain ⟨hbits, hfree⟩ := hfits bits hfixed
    obtain ⟨hhi, heq⟩ := compileFixed_value hrejected hfixed i
    have hamount : wordSub i.addressableBits (bits % 2 ^ 8) = keptWidth cons - bits % 2 ^ 8 := by
      rw [hwidth]
      exact wordSub_of_le hbits (by unfold wordModulus; omega)
    obtain ⟨i', heq', hi'⟩ := compileFixedValue_eq
      (i := { i with startPfn := 0, fixedBits := bits % 2 ^ 8 }) hhi (by rw [hamount]; exact hfree)
    rw [hamount] at hi'
    refine ⟨i', heq.trans heq', ?_, rangeRight_fixed hfixed hbits hfree ?_ ?_⟩
    · rw [hi']
      exact ⟨rfl, rfl, rfl, rfl⟩
    · rw [hi']
    · rw [hi', ← hend]

theorem compileFixed_eq_none (hrejected : ¬ FixedRejected cons) (hfits : ¬ ∀ bits ∈ fixedBits? cons,
      bits % 2 ^ 8 ≤ keptWidth cons ∧ keptWidth cons - bits % 2 ^ 8 < 32)
    (hwidth : i.addressableBits = keptWidth cons) : compileFixed cons i = none := by
  cases hfixed : fixedBits? cons with
  | none => simp [hfixed] at hfits
  | some bits =>
    obtain ⟨hhi, heq⟩ := compileFixed_value hrejected hfixed i
    rw [heq]
    refine compileFixedValue_eq_none hhi ?_
    rw [hwidth]
    have hle := (keptWidth_le cons).trans (addressWidth_le cons)
    have hmod : bits % 2 ^ 8 < 2 ^ 8 := mod_lt _ (by decide)
    simp only [hfixed, mem_def, some.injEq, forall_eq', not_and] at hfits
    rcases le_or_gt (bits % 2 ^ 8) (keptWidth cons) with hbits | hbits
    · rw [wordSub_of_le hbits (by unfold wordModulus; omega)]
      exact hfits hbits
    · exact wordSub_large hbits hmod

theorem compileElements_eq_none_iff (hmin : i.minElementGranularityNFrames = 1)
    (hmax : i.maxNContiguousFrames = 1) : compileElements cons i = none ↔
      ¬ (FitsShift (getAttr cons .elementGranularityBits) ∧
        FitsShift (getAttr cons .elementLengthBits)) := by
  unfold compileElements
  rcases em (FitsShift (getAttr cons .elementGranularityBits)) with hgran | hgran
  · rw [compileGranularity_eq hgran hmin hmax]
    rcases em (FitsShift (getAttr cons .elementLengthBits)) with hlength | hlength
    · rw [some_bind, compileLength_eq hlength]
      refine iff_of_false ?_ (not_not.mpr ⟨hgran, hlength⟩)
      simp
    · rw [some_bind, compileLength_eq_none hlength]
      simp [hlength]
  · rw [compileGranularity_eq_none hgran]
    simp [hgran]

theorem compileRest_success {i' : Compiler} (h : compileRest cons i = (.success, i')) :
    i.minElementGranularityNFrames ≤ i.maxNContiguousFrames ∧ SameSizes i i' ∧
      i'.startPfn = i.startPfn ∧ i'.beyondEndPfn = i.beyondEndPfn := by
  unfold compileRest at h
  split at h
  · cases h
  next hle =>
  dsimp only at h
  split at h
  · cases h
  unfold compileFormat at h
  split at h
  · cases h
  split at h
  · cases h
  obtain ⟨-, rfl⟩ := Prod.mk.inj h
  exact ⟨not_lt.mp hle, ⟨rfl, rfl, rfl, rfl⟩, rfl, rfl⟩

theorem compileElements_success {i' : Compiler} (hmin : i.minElementGranularityNFrames = 1)
    (hmax : i.maxNContiguousFrames = 1) (h : compileElements cons i = some (.success, i')) :
    (i'.startPfn = i.startPfn ∧ i'.beyondEndPfn = i.beyondEndPfn ∧
      i'.pfnSkipStride = i.pfnSkipStride ∧ i'.maxElementsPerSegment = i.maxElementsPerSegment) ∧
    i'.minElementGranularityNFrames = inFrames (getAttr cons .elementGranularityBits) ∧
    (i'.maxNContiguousFrames =
      if (getAttr cons .elementLengthBits).isSome then inFrames (getAttr cons .elementLengthBits)
      else i'.minElementGranularityNFrames) ∧
    i'.minElementGranularityNFrames ≤ i'.maxNContiguousFrames := by
  have hsome : compileElements cons i ≠ none := by
    rw [h]
    simp
  rw [ne_eq, compileElements_eq_none_iff hmin hmax, not_not] at hsome
  unfold compileElements at h
  rw [compileGranularity_eq hsome.1 hmin hmax, some_bind, compileLength_eq hsome.2] at h
  obtain ⟨hle, ⟨hstride, helements, hmin', hmax'⟩, hstart, hend⟩ :=
    compileRest_success (some.inj h)
  rw [← hmin', ← hmax'] at hle
  exact ⟨⟨hstart, hend, hstride, helements⟩, hmin', hmax'.trans (by rw [hmin']), hle⟩

end

/-- No shift amount reaches the operand width exactly when the sizes and the fixed bits fit; and the
values that come out mean what the attributes say exactly when the width and the fixed value are
kept and the two attributes that are confused agree. -/
theorem compile_iff (cons : Constraints) (i : Compiler) : (compile cons i ≠ none ↔ ShiftsFit cons) ∧
      ∀ i', compile cons i = some (.success, i') → (Meets cons i' ↔ Right cons) := by
  unfold compile
  simp only [compileAddressable_eq, some_bind]
  rcases em (FitsShift (getAttr cons .elementAlignmentBits)) with halign | halign
  swap
  · rw [compileAlignment_eq_none halign]
    simp [ShiftsFit, halign]
  rw [compileAlignment_eq halign]
  simp only [some_bind]
  rcases em (FixedRejected cons) with hrejected | hrejected
  · obtain ⟨i', heq, -⟩ := compileFixed_rejected hrejected (compileElementsPerSegment cons
      { i with
        minElementGranularityNFrames := 1
        maxNContiguousFrames := 1
        addressableBits := keptWidth cons
        beyondEndPfn := endPfn cons
        pfnSkipStride := inFrames (getAttr cons .elementAlignmentBits) - 1 })
    rw [heq]
    simp [ShiftsFit, halign, hrejected]
  rcases em (∀ bits ∈ fixedBits? cons,
      bits % 2 ^ 8 ≤ keptWidth cons ∧ keptWidth cons - bits % 2 ^ 8 < 32) with hfits | hfits
  swap
  · rw [compileFixed_eq_none hrejected hfits rfl]
    refine ⟨iff_of_false (by simp) ?_, by simp⟩
    rintro ⟨-, hrejected' | ⟨hfits', -⟩⟩
    · exact hrejected hrejected'
    · exact hfits hfits'
  obtain ⟨i₁, heq, ⟨hstride, helements, hmin, hmax⟩, hrange⟩ :=
    compileFixed_eq (i := compileElementsPerSegment cons
      { i with
        minElementGranularityNFrames := 1
        maxNContiguousFrames := 1
        addressableBits := keptWidth cons
        beyondEndPfn := endPfn cons
        pfnSkipStride := inFrames (getAttr cons .elementAlignmentBits) - 1 })
      hrejected hfits rfl rfl
  rw [heq]
  simp only [some_bind, ne_eq, not_true_eq_false, if_false]
  constructor
  · rw [compileElements_eq_none_iff hmin hmax, not_not]
    simp only [ShiftsFit, halign, true_and, hrejected, false_or]
    exact (and_iff_right hfits).symm
  · intro i' hsuccess
    obtain ⟨⟨hstart, hend, hstride', helements'⟩, hmin', hmax', hle⟩ :=
      compileElements_success hmin hmax hsuccess
    have hrange' : RangeRight cons i' ↔ RangeRight cons i₁ := by
      rw [RangeRight, RangeRight, hstart, hend]
    have hpos := inFrames_pos (getAttr cons .elementAlignmentBits)
    have hstride'' : i'.pfnSkipStride + 1 = inFrames (getAttr cons .elementAlignmentBits) := by
      rw [hstride', hstride]
      exact Nat.sub_add_cancel hpos
    have helements'' :
        i'.maxElementsPerSegment = (getAttr cons .elementAlignmentBits).getD 0 :=
      helements'.trans helements
    rw [Right, ← hrange, ← hrange', ← helements'']
    constructor
    · intro hmeets
      exact ⟨hmeets.range, hmeets.elementsPerSegment⟩
    · rintro ⟨hright, hsegment⟩
      exact ⟨hright, hstride'', hmin', hmax', hle, hsegment⟩

def newCompiler : Compiler where
  callerSupportedFormats := 0
  partialAllocationsDisallowed := false
  sequentialAccessHint := false
  addressableBits := 0
  fixedBits := 0
  pfnSkipStride := 0
  maxElementsPerSegment := 0
  startPfn := 0
  beyondEndPfn := 0
  minElementGranularityNFrames := 0
  maxNContiguousFrames := 0
  slopInBits := 0
  slopOutBits := 0
  slopOutExtra := 0
  fixedBitsValue := 0

def fixedEngine : Constraints :=
  [⟨.scgthFormat, 1⟩, ⟨.dataAddressableBits, 24⟩, ⟨.addrFixedBits, 4⟩, ⟨.addrFixedType, 3⟩,
    ⟨.addrFixedValueLo, 5⟩, ⟨.elementAlignmentBits, 16⟩, ⟨.scgthMaxElPerSeg, 16⟩,
    ⟨.elementLengthBits, 20⟩]

theorem compile_iff_fixedEngine :
    ShiftsFit fixedEngine ∧ ∃ i, compile fixedEngine newCompiler = some (.success, i) ∧
      i.startPfn = 0x500 ∧ i.beyondEndPfn = 0x600 ∧ i.pfnSkipStride = 15 ∧ Meets fixedEngine i := by
  obtain ⟨hshifts, hmeets⟩ := compile_iff fixedEngine newCompiler
  have hcompiled : ((compile fixedEngine newCompiler).any fun r =>
      decide (r.1 = .success ∧ r.2.startPfn = 0x500 ∧ r.2.beyondEndPfn = 0x600 ∧
        r.2.pfnSkipStride = 15)) = true := by
    decide +kernel
  obtain ⟨⟨error, i⟩, heq, hvalues⟩ := (any_eq_true _ _).mp hcompiled
  obtain ⟨hsuccess, hstart, hend, hstride⟩ := of_decide_eq_true hvalues
  obtain rfl : error = .success := hsuccess
  have hright : Right fixedEngine := by
    refine ⟨⟨fun _ => by decide +kernel, fun hnot => absurd ?_ hnot⟩, by decide +kernel⟩
    exact ⟨by decide +kernel, by decide +kernel, by decide +kernel⟩
  exact ⟨hshifts.mp (by simp [heq]), i, heq, hstart, hend, hstride, (hmeets i heq).mpr hright⟩

def segmentedEngine : Constraints :=
  [⟨.scgthFormat, 1⟩, ⟨.scgthMaxElPerSeg, 8⟩]

theorem segmentedEngine_not_meets : ¬ ∀ cons i, compile cons i ≠ none ∧
      ∀ i', compile cons i = some (.success, i') → Meets cons i' := by
  intro hclaim
  have hcompiled : ((compile segmentedEngine newCompiler).any fun r =>
      decide (r.1 = .success ∧ r.2.maxElementsPerSegment = 0)) = true := by
    decide +kernel
  obtain ⟨⟨error, i⟩, heq, hvalues⟩ := (any_eq_true _ _).mp hcompiled
  obtain ⟨hsuccess, helements⟩ := of_decide_eq_true hvalues
  obtain rfl : error = .success := hsuccess
  have hmeets := (hclaim segmentedEngine newCompiler).2 i heq
  have hvalue : (getAttr segmentedEngine .scgthMaxElPerSeg).getD 0 = 8 := by decide +kernel
  rw [hmeets.elementsPerSegment, hvalue] at helements
  cases helements

end Zambesii.DmaConstraints
