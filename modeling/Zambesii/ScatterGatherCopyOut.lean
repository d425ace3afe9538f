import Zambesii.ScatterGatherIds

/-!
`FloodplainnStream::getScatterGatherListElements`: the elements of a list are copied out to an
array of the caller's, in one of two formats. The array is words from its start on; the words
behind its end are somebody else's.
-/

namespace Zambesii.ScatterGatherCopyOut

open Function List Nat
open KernelTypes
open ScatterGatherIds (indexIsValid indexIsValid_iff)

/-- `__kscgth_element_type_t` of a build with 32-bit physical addresses. -/
structure Element where
  blockBusaddr : UInt32
  blockLength : UInt32
deriving DecidableEq

structure SgList where
  elements : List Element
  length_lt : elements.length * 8 < wordModulus

/-- `scatterGatherLists`; an object that is NULL is `none`. -/
structure SgLists where
  nIndexes : Nat
  nIndexes_lt : nIndexes < 2 ^ 31
  lists : Nat → Option SgList

def scgth32 : UInt8 := 1

def scgth64 : UInt8 := 2

/-- The words from `outarray` on, and those that were stored. -/
structure Out where
  words : Nat → UInt32
  written : List Nat

def Out.store (out : Out) (index : Nat) (value : UInt32) : Out :=
  ⟨update out.words index value, index :: out.written⟩

def store32 (out : Out) (i : Nat) (tmp : Element) : Out :=
  (out.store (2 * i + 1) tmp.blockLength).store (2 * i) tmp.blockBusaddr

def store64 (out : Out) (i : Nat) (tmp : Element) : Out :=
  ((out.store (4 * i + 2) tmp.blockLength).store (4 * i + 1) 0).store (4 * i) tmp.blockBusaddr

def storeElement (outarrType : UInt8) (out : Out) (i : Nat) (tmp : Element) : Out :=
  if outarrType = scgth32 then store32 out i tmp else store64 out i tmp

def copyLoop (outarrType : UInt8) (nelem : Nat) : Nat → List Element → Out → Nat × Out
  | i, [], out => (i, out)
  | i, tmp :: rest, out =>
    if i < nelem then copyLoop outarrType nelem (i + 1) rest (storeElement outarrType out i tmp)
    else (i, out)

structure Outcome where
  status : Except Kerror Nat
  outarrType : UInt8
  out : Out

def getElements (list : SgList) (out : Out) (nelem : Nat) (outarrType : UInt8) : Outcome :=
  if outarrType &&& (scgth32 ||| scgth64) = 0 then ⟨.error .invalidArgVal, outarrType, out⟩
  else
    let outarrType := if outarrType &&& scgth64 ≠ 0 then scgth64 else outarrType
    let (i, out) := copyLoop outarrType nelem 0 list.elements out
    ⟨.ok i, outarrType, out⟩

/-- `getScatterGatherList`: a NULL, or an object; nothing where the object is read from outside
the array. -/
def getScatterGatherList (lists : SgLists) (id : Int) : Option (Option SgList) :=
  let index := (id % (wordModulus : Int)).toNat
  if indexIsValid lists.nIndexes index then
    if index < lists.nIndexes then some (lists.lists index) else none
  else some none

def sizeofElement32 : Nat := 8

def getScatterGatherListElements (lists : SgLists) (id : Int) (words : Nat → UInt32)
    (outarrayNBytes : Nat) (outarrayType : UInt8) : Option Outcome :=
  if outarrayNBytes < sizeofElement32 then some ⟨.ok 0, outarrayType, ⟨words, []⟩⟩
  else
    match getScatterGatherList lists id with
    | none => none
    | some none => some ⟨.error .notFound, outarrayType, ⟨words, []⟩⟩
    | some (some sgl) => some (getElements sgl ⟨words, []⟩ outarrayNBytes outarrayType)

inductive Format where
  | bits32
  | bits64
deriving DecidableEq

def formatOf (outarrayType : UInt8) : Format :=
  if outarrayType &&& scgth64 ≠ 0 then .bits64 else .bits32

def Format.words : Format → Nat
  | .bits32 => 2
  | .bits64 => 4

def Format.size (format : Format) : Nat := format.words * 4

def Format.Reads (format : Format) (words : Nat → UInt32) (i : Nat) (element : Element) : Prop :=
  match format with
  | .bits32 => words (2 * i) = element.blockBusaddr ∧ words (2 * i + 1) = element.blockLength
  | .bits64 => words (4 * i) = element.blockBusaddr ∧ words (4 * i + 1) = 0 ∧
      words (4 * i + 2) = element.blockLength

def elementsOf (lists : SgLists) (id : Int) : List Element :=
  if 0 ≤ id ∧ id < lists.nIndexes then
    match lists.lists id.toNat with
    | none => []
    | some sgl => sgl.elements
  else []

/-- `n` leading elements were copied out in a format. -/
structure Copied (elements : List Element) (nBytes : Nat) (format : Format) (n : Nat)
    (out : Out) : Prop where
  count : n = min elements.length (nBytes / format.size)
  inside : ∀ k ∈ out.written, (k + 1) * 4 ≤ nBytes
  layout : ∀ k ∈ out.written, k < n * format.words
  equal : ∀ i, ∀ element, i < n → elements[i]? = some element → format.Reads out.words i element

/-- What the method has to do. An error is for a list that does not exist or a type without a
format, and stores nothing. -/
def Right (lists : SgLists) (id : Int) (nBytes : Nat) (outarrayType : UInt8)
    (outcome : Outcome) : Prop :=
  match outcome.status with
  | .error error => outcome.out.written = [] ∧
      (error = .notFound ∧ elementsOf lists id = [] ∨
        error = .invalidArgVal ∧ outarrayType &&& (scgth32 ||| scgth64) = 0)
  | .ok n => Copied (elementsOf lists id) nBytes (formatOf outcome.outarrType) n outcome.out

/-- The array is too small to be looked at; or the id is not -1, and nothing is copied or the
whole list fits in the format of the copy, which the type names with no other bit set. -/
def Fits (lists : SgLists) (id : Int) (nBytes : Nat) (outarrayType : UInt8) : Prop :=
  nBytes < sizeofElement32 ∨
    (id ≠ -1 ∧
      (outarrayType &&& (scgth32 ||| scgth64) = 0 ∨ elementsOf lists id = [] ∨
        (outarrayType &&& scgth64 ≠ 0 ∧ (elementsOf lists id).length * 16 ≤ nBytes) ∨
        (outarrayType = scgth32 ∧ (elementsOf lists id).length * 8 ≤ nBytes)))

section

/-- The words of an element in the format of the `switch`. -/
def switchFormat (outarrType : UInt8) : Format :=
  if outarrType = scgth32 then .bits32 else .bits64

variable {outarrType : UInt8} {out : Out}

theorem storeElement_written {i k : Nat} {tmp : Element}
    (hk : k ∈ (storeElement outarrType out i tmp).written) :
    k ∈ out.written ∨ k < (i + 1) * (switchFormat outarrType).words := by
  rw [storeElement] at hk
  rw [switchFormat]
  split at hk
  · rename_i htype
    rw [if_pos htype]
    simp only [store32, Out.store, mem_cons] at hk
    simp only [Format.words]
    rcases hk with rfl | rfl | hk
    · omega
    · omega
    · exact .inl hk
  rename_i htype
  rw [if_neg htype]
  simp only [store64, Out.store, mem_cons] at hk
  simp only [Format.words]
  rcases hk with rfl | rfl | rfl | hk
  · omega
  · omega
  · omega
  · exact .inl hk

theorem storeElement_last (outarrType : UInt8) (out : Out) (i : Nat) (tmp : Element) :
    i * (switchFormat outarrType).words + (switchFormat outarrType).words / 2 ∈
      (storeElement outarrType out i tmp).written := by
  rw [storeElement, switchFormat]
  split
  · simp only [store32, Out.store, mem_cons, Format.words]
    omega
  · simp only [store64, Out.store, mem_cons, Format.words]
    omega

theorem storeElement_keeps {i : Nat} {tmp : Element} :
    (∀ k ∈ out.written, k ∈ (storeElement outarrType out i tmp).written) ∧
      ∀ k, k < i * (switchFormat outarrType).words →
        (storeElement outarrType out i tmp).words k = out.words k := by
  rw [storeElement, switchFormat]
  split
  · refine ⟨?_, ?_⟩
    · intro k hk
      simp only [store32, Out.store, mem_cons]
      exact .inr (.inr hk)
    · intro k hk
      simp only [Format.words] at hk
      simp only [store32, Out.store]
      rw [update_of_ne (by omega), update_of_ne (by omega)]
  refine ⟨?_, ?_⟩
  · intro k hk
    simp only [store64, Out.store, mem_cons]
    exact .inr (.inr (.inr hk))
  · intro k hk
    simp only [Format.words] at hk
    simp only [store64, Out.store]
    rw [update_of_ne (by omega), update_of_ne (by omega),
      update_of_ne (by omega)]

theorem storeElement_reads (outarrType : UInt8) (out : Out) (i : Nat) (tmp : Element) :
    (switchFormat outarrType).Reads (storeElement outarrType out i tmp).words i tmp := by
  rw [storeElement, switchFormat]
  split
  · refine ⟨?_, ?_⟩
    · simp [store32, Out.store]
    · simp only [store32, Out.store]
      rw [update_of_ne (by omega), update_self]
  refine ⟨?_, ?_, ?_⟩
  · simp [store64, Out.store]
  · simp only [store64, Out.store]
    rw [update_of_ne (by omega), update_self]
  · simp only [store64, Out.store]
    rw [update_of_ne (by omega), update_of_ne (by omega),
      update_self]

theorem Format.Reads.congr {format : Format} {words words' : Nat → UInt32} {i : Nat}
    {element : Element} (h : format.Reads words i element)
    (hsame : ∀ k, k < (i + 1) * format.words → words' k = words k) :
    format.Reads words' i element := by
  cases format with
  | bits32 =>
    simp only [Format.words] at hsame
    refine ⟨?_, ?_⟩
    · rw [hsame _ (by omega)]
      exact h.1
    · rw [hsame _ (by omega)]
      exact h.2
  | bits64 =>
    simp only [Format.words] at hsame
    refine ⟨?_, ?_, ?_⟩
    · rw [hsame _ (by omega)]
      exact h.1
    · rw [hsame _ (by omega)]
      exact h.2.1
    · rw [hsame _ (by omega)]
      exact h.2.2

/-- What the loop has done when it ends after `count` elements. -/
structure Looped (outarrType : UInt8) (i count : Nat) (elements : List Element)
    (out out' : Out) : Prop where
  written : ∀ k ∈ out'.written, k ∈ out.written ∨
    k < (i + count) * (switchFormat outarrType).words
  kept : ∀ k ∈ out.written, k ∈ out'.written
  last : 0 < count → (i + count - 1) * (switchFormat outarrType).words +
    (switchFormat outarrType).words / 2 ∈ out'.written
  below : ∀ k, k < i * (switchFormat outarrType).words → out'.words k = out.words k
  reads : ∀ j, ∀ element, j < count → elements[j]? = some element →
    (switchFormat outarrType).Reads out'.words (i + j) element

theorem copyLoop_looped (outarrType : UInt8) (nelem i : Nat) (elements : List Element) (out : Out) :
    ∃ out', copyLoop outarrType nelem i elements out = (i + min elements.length (nelem - i), out') ∧
      Looped outarrType i (min elements.length (nelem - i)) elements out out' := by
  induction elements generalizing i out with
  | nil =>
    refine ⟨out, ?_, ?_, ?_, ?_, ?_, ?_⟩
    · simp [copyLoop]
    · exact fun k hk => .inl hk
    · exact fun k hk => hk
    · intro hpos
      simp at hpos
    · exact fun k _ => rfl
    · intro j element _ helement
      simp at helement
  | cons tmp rest ih =>
    rcases Nat.lt_or_ge i nelem with hlt | hge
    · obtain ⟨out', heq, hlooped⟩ := ih (i + 1) (storeElement outarrType out i tmp)
      obtain ⟨hkept, hbelow⟩ := @storeElement_keeps outarrType out i tmp
      have hcount : min (tmp :: rest).length (nelem - i) =
          min rest.length (nelem - (i + 1)) + 1 := by
        rw [length_cons]
        omega
      have hmono : i * (switchFormat outarrType).words ≤
          (i + 1) * (switchFormat outarrType).words :=
        Nat.mul_le_mul_right _ (Nat.le_succ i)
      rw [hcount]
      refine ⟨out', ?_, ?_, ?_, ?_, ?_, ?_⟩
      · rw [copyLoop, if_pos hlt, heq]
        congr 1
        omega
      · intro k hk
        rcases hlooped.written k hk with hk | hk
        · rcases storeElement_written hk with hk | hk
          · exact .inl hk
          · refine .inr (lt_of_lt_of_le hk (Nat.mul_le_mul_right _ (by omega)))
        · refine .inr (lt_of_lt_of_le hk (Nat.mul_le_mul_right _ (by omega)))
      · intro k hk
        exact hlooped.kept k (hkept k hk)
      · intro _
        rcases Nat.eq_zero_or_pos (min rest.length (nelem - (i + 1))) with hzero | hpos
        · rw [hzero]
          exact hlooped.kept _ (storeElement_last outarrType out i tmp)
        · have hlast := hlooped.last hpos
          rwa [show i + 1 + min rest.length (nelem - (i + 1)) - 1 =
            i + (min rest.length (nelem - (i + 1)) + 1) - 1 by omega] at hlast
      · intro k hk
        rw [hlooped.below k (lt_of_lt_of_le hk hmono)]
        exact hbelow k hk
      · intro j element hj helement
        cases j with
        | zero =>
          obtain rfl : tmp = element := by simpa using helement
          exact (storeElement_reads outarrType out i tmp).congr hlooped.below
        | succ j =>
          have hread := hlooped.reads j element (by omega) (by simpa using helement)
          rwa [show i + 1 + j = i + (j + 1) by omega] at hread
    · have hcount : min (tmp :: rest).length (nelem - i) = 0 := by omega
      rw [hcount]
      refine ⟨out, ?_, ?_, ?_, ?_, ?_, ?_⟩
      · rw [copyLoop, if_neg (not_lt.mpr hge)]
        rfl
      · exact fun k hk => .inl hk
      · exact fun k hk => hk
      · intro hpos
        exact absurd hpos (lt_irrefl 0)
      · exact fun k _ => rfl
      · intro j element hj
        exact absurd hj (Nat.not_lt_zero j)

end

theorem getScatterGatherList_minus_one (lists : SgLists) :
    getScatterGatherList lists (-1) = none := by
  have hlt := lists.nIndexes_lt
  simp only [getScatterGatherList]
  rw [show ((-1 : Int) % (wordModulus : Int)).toNat = wordModulus - 1 by decide,
    if_pos (show indexIsValid lists.nIndexes (wordModulus - 1) from zero_le _), if_neg]
  simp only [wordModulus]
  omega

theorem getScatterGatherList_eq (lists : SgLists) {id : Int} (hlow : -2 ^ 31 ≤ id)
    (hhigh : id < 2 ^ 31) (hne : id ≠ -1) : ∃ list, getScatterGatherList lists id = some list ∧
      elementsOf lists id = (list.map SgList.elements).getD [] := by
  have hlt := lists.nIndexes_lt
  simp only [getScatterGatherList]
  rcases lt_or_ge id 0 with hneg | hpos
  · have hindex : (id % (wordModulus : Int)).toNat = (id + 2 ^ 32).toNat := by
      rw [show (wordModulus : Int) = 2 ^ 32 from rfl]
      omega
    refine ⟨none, ?_, ?_⟩
    · rw [hindex, if_neg]
      rw [indexIsValid_iff (by simp only [wordModulus]; omega)]
      omega
    · rw [elementsOf, if_neg (by omega)]
      rfl
  have hindex : (id % (wordModulus : Int)).toNat = id.toNat := by
    rw [show (wordModulus : Int) = 2 ^ 32 from rfl]
    omega
  have hvalid : indexIsValid lists.nIndexes id.toNat ↔ id.toNat < lists.nIndexes :=
    indexIsValid_iff (by simp only [wordModulus]; omega)
  simp only [hindex, hvalid]
  rcases lt_or_ge id.toNat lists.nIndexes with hin | hout
  · refine ⟨lists.lists id.toNat, ?_, ?_⟩
    · rw [if_pos hin, if_pos (by omega)]
    · rw [elementsOf, if_pos ⟨hpos, by omega⟩]
      rcases lists.lists id.toNat with _ | sgl
      · rfl
      · rfl
  · refine ⟨none, ?_, ?_⟩
    · rw [if_neg (by omega)]
    · rw [elementsOf, if_neg (by omega)]
      rfl

section

variable {lists : SgLists} {id : Int} {nBytes : Nat} {outarrayType : UInt8}
  {words : Nat → UInt32}

def chosenType (outarrayType : UInt8) : UInt8 :=
  if outarrayType &&& scgth64 ≠ 0 then scgth64 else outarrayType

theorem formatOf_chosenType (outarrayType : UInt8) :
    formatOf (chosenType outarrayType) = formatOf outarrayType := by
  rw [chosenType]
  split
  · rename_i h64
    simp only [formatOf]
    rw [if_pos (by decide), if_pos h64]
  · rfl

theorem Format.size_pos (format : Format) : 8 ≤ format.size := by
  cases format with
  | bits32 => decide
  | bits64 => decide

theorem copied_iff {elements : List Element} {format : Format} {out : Out}
    (hformat : formatOf (chosenType outarrayType) = format) (hne : elements ≠ [])
    (hlarge : sizeofElement32 ≤ nBytes)
    (hlooped : Looped (chosenType outarrayType) 0 (min elements.length nBytes) elements
      ⟨words, []⟩ out) : Copied elements nBytes format (min elements.length nBytes) out ↔
      switchFormat (chosenType outarrayType) = format ∧ elements.length * format.size ≤ nBytes := by
  have hsize := format.size_pos
  have hlength : 0 < elements.length := length_pos_iff.mpr hne
  simp only [sizeofElement32] at hlarge
  have hcount : 0 < min elements.length nBytes := by omega
  constructor
  · rintro ⟨hmin, -, hlayout, -⟩
    constructor
    · -- an element of the larger format does not end within one of the smaller
      have hlast := hlayout _ (hlooped.last hcount)
      rw [switchFormat] at hlast ⊢
      split
      · rename_i htype
        rw [htype] at hformat
        exact hformat
      rename_i htype
      rw [if_neg htype] at hlast
      cases format with
      | bits32 =>
        simp only [Format.words] at hlast
        omega
      | bits64 => rfl
    · rcases lt_or_ge nBytes (elements.length * format.size) with hlt | hge
      · have hdiv : nBytes / format.size < elements.length :=
          (div_lt_iff_lt_mul (by omega)).mpr hlt
        have hself : nBytes / format.size < nBytes := div_lt_self (by omega) (by omega)
        omega
      · exact hge
  · rintro ⟨hsame, hfits⟩
    have hle : elements.length ≤ nBytes := by
      have hmul : elements.length * 1 ≤ elements.length * format.size :=
        mul_le_mul_left _ (by omega)
      omega
    have hn := min_eq_left hle
    have hdiv : elements.length ≤ nBytes / format.size :=
      (le_div_iff_mul_le (by omega)).mpr hfits
    have hwritten : ∀ k ∈ out.written, k < min elements.length nBytes * format.words := by
      intro k hk
      rcases hlooped.written k hk with hk | hk
      · cases hk
      · rwa [hsame, zero_add] at hk
    refine ⟨?_, ?_, hwritten, ?_⟩
    · rw [hn, min_eq_left hdiv]
    · intro k hk
      have hless := hwritten k hk
      rw [hn] at hless
      rw [Format.size, ← mul_assoc] at hfits
      omega
    · intro i element hi helement
      have hread := hlooped.reads i element hi helement
      rwa [hsame, zero_add] at hread

theorem switchFormat_eq_iff (outarrayType : UInt8) (length : Nat)
    (hflags : outarrayType &&& (scgth32 ||| scgth64) ≠ 0) :
    (switchFormat (chosenType outarrayType) = formatOf outarrayType ∧
        length * (formatOf outarrayType).size ≤ nBytes) ↔
      (outarrayType &&& scgth64 ≠ 0 ∧ length * 16 ≤ nBytes) ∨
        (outarrayType = scgth32 ∧ length * 8 ≤ nBytes) := by
  rcases em (outarrayType &&& scgth64 ≠ 0) with h64 | h32
  · have hformat : formatOf outarrayType = .bits64 := if_pos h64
    have hchosen : chosenType outarrayType = scgth64 := if_pos h64
    have hnot : outarrayType ≠ scgth32 := by
      rintro rfl
      exact h64 (by decide)
    rw [hformat, hchosen]
    constructor
    · rintro ⟨-, hfits⟩
      exact .inl ⟨h64, hfits⟩
    · rintro (⟨-, hfits⟩ | ⟨hsame, -⟩)
      · exact ⟨rfl, hfits⟩
      · exact absurd hsame hnot
  have hformat : formatOf outarrayType = .bits32 := if_neg h32
  have hchosen : chosenType outarrayType = outarrayType := if_neg h32
  rw [hformat, hchosen]
  constructor
  · rintro ⟨hswitch, hfits⟩
    refine .inr ⟨?_, hfits⟩
    rw [switchFormat] at hswitch
    split at hswitch
    · assumption
    · cases hswitch
  · rintro (⟨h64, -⟩ | ⟨rfl, hfits⟩)
    · exact absurd h64 h32
    · exact ⟨rfl, hfits⟩

theorem getElements_right_iff {sgl : SgList} (helements : elementsOf lists id = sgl.elements)
    (hlarge : sizeofElement32 ≤ nBytes) :
    Right lists id nBytes outarrayType (getElements sgl ⟨words, []⟩ nBytes outarrayType) ↔
      outarrayType &&& (scgth32 ||| scgth64) = 0 ∨ sgl.elements = [] ∨
        (outarrayType &&& scgth64 ≠ 0 ∧ sgl.elements.length * 16 ≤ nBytes) ∨
        (outarrayType = scgth32 ∧ sgl.elements.length * 8 ≤ nBytes) := by
  rcases eq_or_ne (outarrayType &&& (scgth32 ||| scgth64)) 0 with hnone | hflags
  · rw [getElements, if_pos hnone]
    constructor
    · intro _
      exact .inl hnone
    · intro _
      exact ⟨rfl, .inr ⟨rfl, hnone⟩⟩
  obtain ⟨out, heq, hlooped⟩ :=
    copyLoop_looped (chosenType outarrayType) nBytes 0 sgl.elements ⟨words, []⟩
  rw [Nat.sub_zero, Nat.zero_add] at heq
  have hget : getElements sgl ⟨words, []⟩ nBytes outarrayType =
      ⟨.ok (min sgl.elements.length nBytes), chosenType outarrayType, out⟩ := by
    rw [getElements, if_neg hflags]
    change (fun p : Nat × Out => (⟨.ok p.1, chosenType outarrayType, p.2⟩ : Outcome))
      (copyLoop (chosenType outarrayType) nBytes 0 sgl.elements ⟨words, []⟩) = _
    rw [heq]
  rw [hget]
  change Copied (elementsOf lists id) nBytes (formatOf (chosenType outarrayType))
    (min sgl.elements.length nBytes) out ↔ _
  rw [helements]
  rcases eq_or_ne sgl.elements [] with hempty | hne
  · rw [hempty] at hlooped ⊢
    constructor
    · intro _
      exact .inr (.inl rfl)
    · intro _
      refine ⟨by simp, ?_, ?_, ?_⟩
      · intro k hk
        rcases hlooped.written k hk with hk | hk
        · cases hk
        · simp at hk
      · intro k hk
        rcases hlooped.written k hk with hk | hk
        · cases hk
        · simp at hk
      · intro i element _ helement
        simp at helement
  · rw [formatOf_chosenType, copied_iff (formatOf_chosenType outarrayType) hne hlarge hlooped,
      switchFormat_eq_iff outarrayType _ hflags]
    constructor
    · intro hfits
      exact .inr (.inr hfits)
    · rintro (hnone | hempty | hfits)
      · exact absurd hnone hflags
      · exact absurd hempty hne
      · exact hfits

/-- The method does what it has to exactly where the array is too small for one element, there
is nothing to copy, or the whole list fits. -/
theorem getScatterGatherListElements_right_iff (lists : SgLists) (id : Int)
    (words : Nat → UInt32) (nBytes : Nat) (outarrayType : UInt8) (hlow : -2 ^ 31 ≤ id)
    (hhigh : id < 2 ^ 31) :
    (∃ outcome, getScatterGatherListElements lists id words nBytes outarrayType = some outcome ∧
      Right lists id nBytes outarrayType outcome) ↔ Fits lists id nBytes outarrayType := by
  rcases lt_or_ge nBytes sizeofElement32 with hsmall | hlarge
  · have hsize := (formatOf outarrayType).size_pos
    refine iff_of_true ⟨_, if_pos hsmall, ?_⟩ (.inl hsmall)
    refine ⟨?_, ?_, ?_, ?_⟩
    · rw [div_eq_of_lt (lt_of_lt_of_le hsmall hsize), min_zero]
    · intro k hk
      cases hk
    · intro k hk
      cases hk
    · intro i element hi
      exact absurd hi (not_lt_zero i)
  rw [getScatterGatherListElements, if_neg (not_lt.mpr hlarge), Fits,
    or_iff_right (not_lt.mpr hlarge)]
  rcases eq_or_ne id (-1) with rfl | hne
  · rw [getScatterGatherList_minus_one]
    constructor
    · rintro ⟨outcome, heq, -⟩
      cases heq
    · rintro ⟨hne, -⟩
      exact absurd rfl hne
  obtain ⟨list, hget, helements⟩ := getScatterGatherList_eq lists hlow hhigh hne
  rw [hget, and_iff_right hne]
  rcases list with _ | sgl
  · refine iff_of_true ⟨_, rfl, ?_⟩ (.inr (.inl helements))
    exact ⟨rfl, .inl ⟨rfl, helements⟩⟩
  have hsgl : elementsOf lists id = sgl.elements := helements
  have hiff := @getElements_right_iff lists id nBytes outarrayType words sgl hsgl hlarge
  rw [hsgl, ← hiff]
  constructor
  · rintro ⟨outcome, heq, hright⟩
    cases heq
    exact hright
  · intro hright
    exact ⟨_, rfl, hright⟩

theorem two_elements_fit : 2 * 8 < wordModulus := by decide

def twoElements : SgLists where
  nIndexes := 1
  nIndexes_lt := Nat.one_lt_two_pow (Nat.succ_ne_zero 30)
  lists := fun _ => some ⟨[⟨0x1000, 4096⟩, ⟨0x8000, 8192⟩], two_elements_fit⟩

theorem getScatterGatherListElements_right_iff_two :
    (∃ outcome, getScatterGatherListElements twoElements 0 (fun _ => 0) 32 3 = some outcome ∧
      Right twoElements 0 32 3 outcome) := by
  refine (getScatterGatherListElements_right_iff twoElements 0 _ 32 3 (by decide)
    (by decide)).mpr (.inr ⟨by decide, .inr (.inr (.inl ⟨by decide, by decide⟩))⟩)

theorem getScatterGatherListElements_overruns :
    ¬∃ outcome, getScatterGatherListElements twoElements 0 (fun _ => 0) 8 1 = some outcome ∧
      Right twoElements 0 8 1 outcome := by
  rintro ⟨outcome, heq, hright⟩
  cases heq
  exact absurd (hright.inside 2 (by decide)) (by decide)

end

end Zambesii.ScatterGatherCopyOut
