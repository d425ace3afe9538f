import Zambesii.ByteMemory
import Zambesii.KernelTypes

/-!
The attribute and filter lists of an enumeration, carried from the ZUM server to its caller
in one block: a header and the attributes, then a header and the filters.
-/

namespace Zambesii.EnumerateMarshal

open ByteMemory KernelTypes List Option

def sizeofMovableMemory : Nat := 8

def sizeofAttr : Nat := 98

def sizeofFilter : Nat := 168

structure Element (size : Nat) where
  bytes : List UInt8
  length_eq : bytes.length = size

def listBytes {size : Nat} (elements : List (Element size)) : List UInt8 :=
  elements.flatMap Element.bytes

structure EnumerateCb where
  attrList : Nat
  attrValidLength : Nat
  filterList : Nat
  filterListLength : Nat
deriving DecidableEq

def calcAttrMovableMemHeaderPtr (this : Nat) : Nat :=
  this

def calcAttrListPtr (this nAttrs : Nat) : Nat :=
  if 0 < nAttrs then this + sizeofMovableMemory else this

def calcFilterMovableMemHeaderPtr (this nAttrs : Nat) : Nat :=
  calcAttrListPtr this nAttrs + sizeofAttr * nAttrs

def calcFilterListPtr (this nAttrs nFilters : Nat) : Nat :=
  if 0 < nFilters then calcFilterMovableMemHeaderPtr this nAttrs + sizeofMovableMemory
  else calcFilterMovableMemHeaderPtr this nAttrs

def calcMemRequirementsFor (nAttrs nFilters : Nat) : Nat :=
  (if 0 < nAttrs then sizeofMovableMemory + sizeofAttr * nAttrs else 0) +
    if 0 < nFilters then sizeofMovableMemory + sizeofFilter * nFilters else 0

def wordBytes (word : Nat) : List UInt8 :=
  [UInt8.ofNat word, UInt8.ofNat (word >>> 8), UInt8.ofNat (word >>> 16), UInt8.ofNat (word >>> 24)]

def headerBytes (objectNBytes : Nat) : List UInt8 :=
  wordBytes 0 ++ wordBytes objectNBytes

/-- A `memcpy` or a header that is written under a condition. -/
def storeIf (condition : Bool) (memory : Memory) (address : Nat) (bytes : List UInt8) :
    Option Memory :=
  if condition then store memory address bytes else some memory

def construct (memory : Memory) (this nAttrs nFilters : Nat) : Option Memory := do
  let memory ← storeIf (0 < nAttrs) memory this (headerBytes (sizeofAttr * nAttrs))
  storeIf (0 < nFilters) memory (calcFilterMovableMemHeaderPtr this nAttrs)
    (headerBytes (sizeofFilter * nFilters))

def marshal (memory : Memory) (this : Nat) (attrs : List (Element sizeofAttr))
    (filters : List (Element sizeofFilter)) : Option Memory := do
  let memory ← storeIf (0 < attrs.length) memory (calcAttrListPtr this attrs.length)
    (listBytes attrs)
  storeIf (0 < filters.length) memory
    (calcFilterListPtr this attrs.length filters.length) (listBytes filters)

def unmarshal (memory : Memory) (this : Nat) (destAttrList : Bool) (nAttrs : Nat)
    (destFilterList : Bool) (nFilters : Nat) : Option (List UInt8 × List UInt8) := do
  let attrs ← if 0 < nAttrs ∧ destAttrList then
      load memory (calcAttrListPtr this nAttrs) (sizeofAttr * nAttrs) else some []
  let filters ← if 0 < nFilters ∧ destFilterList then
      load memory (calcFilterListPtr this nAttrs nFilters) (sizeofFilter * nFilters) else some []
  some (attrs, filters)

/-- The part of `enumerateAck` that puts the lists into the block at `tmpMem`. `contents` is
what was in its memory before. -/
def enumerateAck (tmpMem : Nat) (contents : Nat → UInt8) (attrs : List (Element sizeofAttr))
    (filters : List (Element sizeofFilter)) : Option (Memory × EnumerateCb) := do
  let memory ← construct
    (block tmpMem (calcMemRequirementsFor attrs.length filters.length) contents) tmpMem
    attrs.length filters.length
  let memory ← marshal memory tmpMem attrs filters
  some (memory,
    { attrList := if 0 < attrs.length then calcAttrListPtr tmpMem attrs.length else 0
      attrValidLength := attrs.length
      filterList :=
        if 0 < filters.length then calcFilterListPtr tmpMem attrs.length filters.length else 0
      filterListLength := filters.length })

structure Unmarshalled where
  err : Kerror
  attrs : List UInt8
  filters : List UInt8
  freed : List Nat
deriving DecidableEq

/-- `unmarshalEnumerateAckAttrsAndFilters` from the choice of the marshaller on. -/
def unmarshalAndDelete (memory : Memory) (enumCb : EnumerateCb) (attrList filterList : Bool)
    (movableMem : Nat) : Option Unmarshalled := do
  let (attrs, filters) ← unmarshal memory movableMem attrList enumCb.attrValidLength filterList
    enumCb.filterListLength
  some ⟨.success, attrs, filters, [movableMem]⟩

/-- `Zum::unmarshalEnumerateAckAttrsAndFilters`; the flags say which of the destinations is
not null. -/
def unmarshalEnumerateAckAttrsAndFilters (memory : Memory) (enumCb : EnumerateCb)
    (attrList filterList : Bool) : Option Unmarshalled :=
  let nAttrs := enumCb.attrValidLength
  let nFilters := enumCb.filterListLength
  if nAttrs = 0 ∧ nFilters = 0 then some ⟨.success, [], [], []⟩
  else if attrList = false ∧ filterList = false then some ⟨.invalidArgVal, [], [], []⟩
  else if attrList = false ∧ 0 < nAttrs then some ⟨.invalidArgVal, [], [], []⟩
  else if filterList = false ∧ 0 < nFilters then some ⟨.invalidArgVal, [], [], []⟩
  else if 0 < nFilters ∧ filterList then
    unmarshalAndDelete memory enumCb attrList filterList (enumCb.filterList - sizeofMovableMemory)
  else if 0 < nAttrs ∧ attrList then
    unmarshalAndDelete memory enumCb attrList filterList (enumCb.attrList - sizeofMovableMemory)
  else some ⟨.success, [], [], []⟩

/-- The lists come out, no byte outside of the block is read, and the block is freed once. -/
def Exact (tmpMem : Nat) (attrs : List (Element sizeofAttr)) (filters : List (Element sizeofFilter))
    (result : Option Unmarshalled) : Prop :=
  result = some ⟨.success, listBytes attrs, listBytes filters,
    if calcMemRequirementsFor attrs.length filters.length = 0 then [] else [tmpMem]⟩

theorem length_listBytes {size : Nat} (elements : List (Element size)) :
    (listBytes elements).length = size * elements.length := by
  induction elements with
  | nil => rfl
  | cons element elements ih =>
    rw [listBytes, flatMap_cons, length_append, element.length_eq, length_cons,
      Nat.mul_succ, add_comm]
    exact congrArg (· + size) ih

variable {memory : Memory} {tmpMem nAttrs : Nat} {attrList filterList : Bool}
  {attrs : List (Element sizeofAttr)} {filters : List (Element sizeofFilter)}

theorem storeIf_eq (condition : Bool) (address : Nat) (bytes : List UInt8) :
    storeIf condition memory address bytes =
      store memory address (if condition then bytes else []) := by
  cases condition with
  | false => exact (store_nil memory address).symm
  | true => rfl

def markedCb (tmpMem nAttrs nFilters : Nat) : EnumerateCb where
  attrList := if 0 < nAttrs then calcAttrListPtr tmpMem nAttrs else 0
  attrValidLength := nAttrs
  filterList := if 0 < nFilters then calcFilterListPtr tmpMem nAttrs nFilters else 0
  filterListLength := nFilters

theorem calcFilterListPtr_eq (tmpMem nAttrs nFilters : Nat) (h : 0 < nFilters) :
    calcFilterListPtr tmpMem nAttrs nFilters =
      calcFilterMovableMemHeaderPtr tmpMem nAttrs + sizeofMovableMemory :=
  if_pos h

def listHeader {size : Nat} (elements : List (Element size)) : List UInt8 :=
  if 0 < elements.length then headerBytes (size * elements.length) else []

def writes (this : Nat) (attrs : List (Element sizeofAttr))
    (filters : List (Element sizeofFilter)) : List Write :=
  [⟨calcAttrMovableMemHeaderPtr this, listHeader attrs⟩,
    ⟨calcFilterMovableMemHeaderPtr this attrs.length, listHeader filters⟩,
    ⟨calcAttrListPtr this attrs.length, listBytes attrs⟩,
    ⟨calcFilterListPtr this attrs.length filters.length, listBytes filters⟩]

theorem length_listHeader {size : Nat} (elements : List (Element size)) :
    (listHeader elements).length = if 0 < elements.length then sizeofMovableMemory else 0 := by
  rw [listHeader]
  split <;> rfl

theorem writes_apart_inside (this : Nat) (attrs : List (Element sizeofAttr))
    (filters : List (Element sizeofFilter)) : (writes this attrs filters).Pairwise Write.Apart ∧
      ∀ write ∈ writes this attrs filters, this ≤ write.address ∧
        write.address + write.bytes.length ≤
          this + calcMemRequirementsFor attrs.length filters.length := by
  simp only [writes, pairwise_cons, forall_mem_cons, Write.Apart, length_listHeader,
    length_listBytes, calcAttrMovableMemHeaderPtr, calcFilterListPtr,
    calcFilterMovableMemHeaderPtr, calcAttrListPtr, calcMemRequirementsFor]
  rcases eq_zero_or_pos attrs.length with hattrs | hattrs
  · rcases eq_zero_or_pos filters.length with hfilters | hfilters
    · simp [hattrs, hfilters]
    · simp [hattrs, hfilters]
      omega
  rcases eq_zero_or_pos filters.length with hfilters | hfilters
  · simp [hattrs, hfilters]
    omega
  · simp [hattrs, hfilters]
    omega

theorem exists_marshalled (this : Nat) (contents : Nat → UInt8)
    (attrs : List (Element sizeofAttr)) (filters : List (Element sizeofFilter)) : ∃ memory memory',
      construct (block this (calcMemRequirementsFor attrs.length filters.length) contents) this
        attrs.length filters.length = some memory ∧
      marshal memory this attrs filters = some memory' ∧
      ∀ write ∈ writes this attrs filters, write.Loads memory' := by
  obtain ⟨hapart, hinside⟩ := writes_apart_inside this attrs filters
  obtain ⟨last, hlast, hloads⟩ := @exists_storeAll
    (block this (calcMemRequirementsFor attrs.length filters.length) contents)
    (writes this attrs filters) []
    (fun write hmem => allocated_block contents (hinside write hmem).1 (hinside write hmem).2)
    hapart (by simp)
  have hlists : ∀ {size : Nat} (elements : List (Element size)),
      (if 0 < elements.length then listBytes elements else []) = listBytes elements := by
    intro size elements
    cases elements with
    | nil => rfl
    | cons element elements => rfl
  have hstores : (construct (block this (calcMemRequirementsFor attrs.length filters.length)
      contents) this attrs.length filters.length).bind (marshal · this attrs filters) =
        some last := by
    simp only [construct, marshal, storeIf_eq, decide_eq_true_eq, hlists]
    simpa [storeAll, writes, listHeader, calcAttrMovableMemHeaderPtr, bind_assoc] using hlast
  obtain ⟨memory, hconstruct, hmarshal⟩ := bind_eq_some_iff.mp hstores
  exact ⟨memory, last, hconstruct, hmarshal, hloads⟩

theorem exists_enumerateAck (tmpMem : Nat) (contents : Nat → UInt8)
    (attrs : List (Element sizeofAttr)) (filters : List (Element sizeofFilter)) : ∃ memory,
      enumerateAck tmpMem contents attrs filters =
        some (memory, markedCb tmpMem attrs.length filters.length) ∧
      load memory (calcAttrListPtr tmpMem attrs.length) (sizeofAttr * attrs.length) =
        some (listBytes attrs) ∧ load memory (calcFilterListPtr tmpMem attrs.length filters.length)
        (sizeofFilter * filters.length) = some (listBytes filters) := by
  obtain ⟨memory, memory', hconstruct, hmarshal, hloads⟩ :=
    exists_marshalled tmpMem contents attrs filters
  simp only [writes, forall_mem_cons, Write.Loads, length_listBytes] at hloads
  refine ⟨memory', ?_, hloads.2.2.1, hloads.2.2.2.1⟩
  rw [enumerateAck, hconstruct, some_bind, hmarshal]
  rfl

theorem listBytes_of_not_pos {size : Nat} {elements : List (Element size)}
    (h : ¬ 0 < elements.length) : listBytes elements = [] := by
  cases elements with
  | nil => rfl
  | cons element elements => exact absurd (Nat.succ_pos _) h

def HasDestinations (nAttrs nFilters : Nat) (attrList filterList : Bool) : Prop :=
  (0 < nAttrs → attrList = true) ∧ (0 < nFilters → filterList = true)

theorem unmarshal_of_not_hasDestinations {nFilters : Nat}
    (hdest : ¬HasDestinations nAttrs nFilters attrList filterList) :
    unmarshalEnumerateAckAttrsAndFilters memory (markedCb tmpMem nAttrs nFilters) attrList
        filterList = some ⟨.invalidArgVal, [], [], []⟩ := by
  have hsome : ¬(nAttrs = 0 ∧ nFilters = 0) := by
    rintro ⟨rfl, rfl⟩
    exact hdest ⟨by simp, by simp⟩
  rw [unmarshalEnumerateAckAttrsAndFilters, if_neg (by exact hsome)]
  split
  · rfl
  split
  · rfl
  rename_i hattrs
  rw [if_pos]
  -- The attributes have their destination, so it is the filters that lack one.
  refine Classical.byContradiction fun hfilters => hdest ⟨fun h => ?_, fun h => ?_⟩
  · exact Bool.of_not_eq_false fun hfalse => hattrs ⟨hfalse, h⟩
  · exact Bool.of_not_eq_false fun hfalse => hfilters ⟨hfalse, h⟩

theorem unmarshal_of_filters {nFilters : Nat} (hfilters : 0 < nFilters)
    (hdest : HasDestinations nAttrs nFilters attrList filterList) :
    unmarshalEnumerateAckAttrsAndFilters memory (markedCb tmpMem nAttrs nFilters) attrList
        filterList = unmarshalAndDelete memory (markedCb tmpMem nAttrs nFilters) attrList filterList
        (calcFilterMovableMemHeaderPtr tmpMem nAttrs) := by
  have hfilterList : filterList = true := hdest.2 hfilters
  have hattrs : ¬(attrList = false ∧ 0 < nAttrs) := by
    rintro ⟨hfalse, h⟩
    rw [hdest.1 h] at hfalse
    exact Bool.noConfusion hfalse
  have hsome : ¬(nAttrs = 0 ∧ nFilters = 0) := by omega
  simp only [unmarshalEnumerateAckAttrsAndFilters, markedCb, if_neg hsome, hfilterList,
    Bool.true_eq_false, and_false, if_false, if_neg hattrs, hfilters, and_true, if_true,
    calcFilterListPtr_eq tmpMem nAttrs nFilters hfilters, Nat.add_sub_cancel]

theorem unmarshal_of_attrs (hattrs : 0 < nAttrs) (hattrList : attrList = true) :
    unmarshalEnumerateAckAttrsAndFilters memory (markedCb tmpMem nAttrs 0) attrList filterList =
      unmarshalAndDelete memory (markedCb tmpMem nAttrs 0) attrList filterList tmpMem := by
  have hsome : nAttrs ≠ 0 := by omega
  simp [unmarshalEnumerateAckAttrsAndFilters, markedCb, hsome, hattrList, hattrs, calcAttrListPtr]

theorem freed_of_unmarshalAndDelete {enumCb : EnumerateCb} {movableMem : Nat}
    {result : Unmarshalled}
    (h : unmarshalAndDelete memory enumCb attrList filterList movableMem = some result) :
    result.freed = [movableMem] := by
  rw [unmarshalAndDelete, bind_eq_bind, bind_eq_some_iff] at h
  obtain ⟨lists, -, hresult⟩ := h
  cases hresult
  rfl

theorem not_exact_of_both (hattrs : 0 < attrs.length) (hfilters : 0 < filters.length)
    (hdest : HasDestinations attrs.length filters.length attrList filterList) :
    ¬Exact tmpMem attrs filters (unmarshalEnumerateAckAttrsAndFilters memory
      (markedCb tmpMem attrs.length filters.length) attrList filterList) := by
  intro hexact
  rw [unmarshal_of_filters hfilters hdest] at hexact
  have hfreed := freed_of_unmarshalAndDelete hexact
  have hsize : calcMemRequirementsFor attrs.length filters.length ≠ 0 := by
    rw [calcMemRequirementsFor, if_pos hattrs, sizeofMovableMemory]
    omega
  rw [if_neg hsize, calcFilterMovableMemHeaderPtr, calcAttrListPtr, if_pos hattrs,
    sizeofMovableMemory, cons.injEq] at hfreed
  omega

theorem not_exact_of_not_hasDestinations
    (hdest : ¬HasDestinations attrs.length filters.length attrList filterList) :
    ¬Exact tmpMem attrs filters (unmarshalEnumerateAckAttrsAndFilters memory
      (markedCb tmpMem attrs.length filters.length) attrList filterList) := by
  intro hexact
  rw [unmarshal_of_not_hasDestinations hdest, Exact] at hexact
  cases hexact

theorem exact_of_attrs (hattrs : 0 < attrs.length) (hattrList : attrList = true)
    (hload : load memory (calcAttrListPtr tmpMem attrs.length) (sizeofAttr * attrs.length) =
      some (listBytes attrs)) : Exact tmpMem attrs [] (unmarshalEnumerateAckAttrsAndFilters memory
      (markedCb tmpMem attrs.length 0) attrList filterList) := by
  have hsize : calcMemRequirementsFor attrs.length 0 ≠ 0 := by
    rw [calcMemRequirementsFor, if_pos hattrs, sizeofMovableMemory]
    omega
  rw [unmarshal_of_attrs hattrs hattrList, Exact, length_nil, if_neg hsize]
  simp only [unmarshalAndDelete, unmarshal, markedCb, hattrs, hattrList, and_self, if_true, hload,
    lt_irrefl, false_and, if_false, some_bind]
  rfl

theorem exact_of_filters (hfilters : 0 < filters.length) (hfilterList : filterList = true)
    (hload : load memory (calcFilterListPtr tmpMem 0 filters.length)
      (sizeofFilter * filters.length) = some (listBytes filters)) :
    Exact tmpMem [] filters (unmarshalEnumerateAckAttrsAndFilters memory
      (markedCb tmpMem 0 filters.length) attrList filterList) := by
  have hsize : calcMemRequirementsFor 0 filters.length ≠ 0 := by
    rw [calcMemRequirementsFor, if_pos hfilters, sizeofMovableMemory]
    omega
  have hstart : calcFilterMovableMemHeaderPtr tmpMem 0 = tmpMem := rfl
  rw [unmarshal_of_filters hfilters ⟨by simp, fun _ => hfilterList⟩, hstart, Exact,
    length_nil, if_neg hsize]
  simp only [unmarshalAndDelete, unmarshal, markedCb, hfilters, hfilterList, and_self, if_true,
    hload, lt_irrefl, false_and, if_false, some_bind]
  rfl

/-- The lists come out exactly when one of them is empty and the other has a destination. -/
theorem exists_exact_iff (tmpMem : Nat) (contents : Nat → UInt8) (attrs : List (Element sizeofAttr))
    (filters : List (Element sizeofFilter)) (attrList filterList : Bool) :
    ∃ memory cb, enumerateAck tmpMem contents attrs filters = some (memory, cb) ∧
      (Exact tmpMem attrs filters
          (unmarshalEnumerateAckAttrsAndFilters memory cb attrList filterList) ↔
        (attrs = [] ∨ filters = []) ∧ (attrs ≠ [] → attrList = true) ∧
          (filters ≠ [] → filterList = true)) := by
  obtain ⟨memory, hack, hattrs, hfilters⟩ := exists_enumerateAck tmpMem contents attrs filters
  refine ⟨memory, _, hack, ?_⟩
  constructor
  · intro hexact
    have hdest : HasDestinations attrs.length filters.length attrList filterList :=
      Classical.byContradiction fun h => not_exact_of_not_hasDestinations h hexact
    refine ⟨?_, fun h => hdest.1 (length_pos_of_ne_nil h),
      fun h => hdest.2 (length_pos_of_ne_nil h)⟩
    by_contra h
    rw [not_or] at h
    exact not_exact_of_both (length_pos_of_ne_nil h.1) (length_pos_of_ne_nil h.2) hdest
      hexact
  · rintro ⟨hempty, hattrList, hfilterList⟩
    rcases eq_or_ne attrs [] with rfl | hsomeAttrs
    · rcases eq_or_ne filters [] with rfl | hsomeFilters
      · rfl
      · have hpos := length_pos_of_ne_nil hsomeFilters
        exact exact_of_filters hpos (hfilterList hsomeFilters) hfilters
    · obtain rfl : filters = [] := hempty.resolve_left hsomeAttrs
      have hpos := length_pos_of_ne_nil hsomeAttrs
      exact exact_of_attrs hpos (hattrList hsomeAttrs) hattrs

def zeroElement (size : Nat) : Element size := ⟨List.replicate size 0, List.length_replicate⟩

theorem attrAndFilter_not_exact :
    ∃ memory cb, enumerateAck 4096 (fun _ => 0) [zeroElement sizeofAttr]
        [zeroElement sizeofFilter] = some (memory, cb) ∧
      ¬Exact 4096 [zeroElement sizeofAttr] [zeroElement sizeofFilter]
        (unmarshalEnumerateAckAttrsAndFilters memory cb true true) := by
  obtain ⟨memory, hack, -, -⟩ := exists_enumerateAck 4096 (fun _ => 0) [zeroElement sizeofAttr]
    [zeroElement sizeofFilter]
  exact ⟨memory, _, hack, not_exact_of_both one_pos one_pos ⟨fun _ => rfl, fun _ => rfl⟩⟩

end Zambesii.EnumerateMarshal
