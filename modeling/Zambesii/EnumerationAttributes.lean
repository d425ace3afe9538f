import Mathlib.Order.Bounds.Basic
import Zambesii.ZudiIndex

/-!
`detectDriver_compareEnumerationAttributes`: the rank of a device line for a device, from the rank
lines of the metalanguage.
-/

namespace Zambesii.EnumerationAttributes

open KernelTypes List Option ZudiIndex

def udiAttrString : Nat := 1
def udiAttrArray8 : Nat := 2
def udiAttrUbit32 : Nat := 3
def udiAttrBoolean : Nat := 4

def errorMemoryNomem : Int := -20
def errorNoMatch : Int := -53

structure Attribute where
  attrName : Bytes
  attrValue : Bytes
  attrLength : Nat
  attrType : Nat
deriving DecidableEq

structure EnumerationAttrs where
  attrs : List Attribute
  nodup : (attrs.map fun attr => cString attr.attrName).Nodup

def attr32Get (aval : Bytes) : Nat :=
  aval.getD 0 0 % 2 ^ 8 + aval.getD 1 0 % 2 ^ 8 * 2 ^ 8 + aval.getD 2 0 % 2 ^ 8 * 2 ^ 16 +
    aval.getD 3 0 % 2 ^ 8 * 2 ^ 24

def bytesOf32 (value : Nat) : Bytes :=
  [value % 2 ^ 8, value / 2 ^ 8 % 2 ^ 8, value / 2 ^ 16 % 2 ^ 8, value / 2 ^ 24 % 2 ^ 8]

def compareValue (files : Files) (attr : Attribute) (devlineData : AttrData) : Option Bool :=
  if attr.attrType = udiAttrString then do
    let attrValueTmp ← getString files devlineData.attrValueOff udiMaxAttrSize
    some (strcmp8 attr.attrValue attrValueTmp)
  else if attr.attrType = udiAttrUbit32 then
    some (decide (attr32Get attr.attrValue = attr32Get (bytesOf32 devlineData.attrValueOff)))
  else if attr.attrType = udiAttrBoolean then
    some (decide (attr.attrValue.getD 0 0 = (bytesOf32 devlineData.attrValueOff).getD 0 0))
  else if attr.attrType = udiAttrArray8 then
    if attr.attrLength ≠ devlineData.attrLength then some false
    else do
      match ← getArray files devlineData.attrValueOff devlineData.attrLength with
      | none => some false
      | some attrValueTmp =>
        some (decide (attr.attrValue.take devlineData.attrLength =
          attrValueTmp.take devlineData.attrLength))
  else some false

def attrMatched (files : Files) (attrName : Bytes) (devlineData : AttrData) :
    List Attribute → Option Bool
  | [] => some false
  | attr :: rest =>
    if strcmp8 attr.attrName attrName = false then attrMatched files attrName devlineData rest
    else if attr.attrType ≠ devlineData.attrType then some false
    else do
      let matched ← compareValue files attr devlineData
      if matched then some true else attrMatched files attrName devlineData rest

def countMatched (files : Files) (attrs : List Attribute) (devline : DeviceHeader)
    (currRank : RankHeader) (j : Nat) (nAttributesMatched : Nat) : (left : Nat) → Option Nat
  | 0 => some nAttributesMatched
  | left + 1 => do
      match ← indexedGetRankAttrString files currRank j with
      | none => some nAttributesMatched
      | some currRankAttrName =>
        match ← findDeviceData files devline currRankAttrName with
        | none => some nAttributesMatched
        | some devlineData =>
          let matched ← attrMatched files currRankAttrName devlineData attrs
          countMatched files attrs devline currRank (j + 1)
            (if matched then nAttributesMatched + 1 else nAttributesMatched) left

def rankFrom (files : Files) (attrs : List Attribute) (devline : DeviceHeader)
    (metaHdr : DriverHeader) (i : Nat) (ret : Int) : (left : Nat) → Option Int
  | 0 => some ret
  | left + 1 =>
    match indexedGetRank files metaHdr i with
    | none => some ret
    | some currRank =>
      if currRank.driverId ≠ metaHdr.id then some ret
      else do
        let nAttributesMatched ←
          countMatched files attrs devline currRank 0 0 currRank.nAttributes
        rankFrom files attrs devline metaHdr (i + 1)
          (if nAttributesMatched = currRank.nAttributes ∧ ret < currRank.rank then
            (currRank.rank : Int)
          else ret) left

/-- `detectDriver_compareEnumerationAttributes`; `allocated` says whether there is memory for
`attrValueTmp`. -/
def compareEnumerationAttributes (files : Files) (allocated : Bool) (device : EnumerationAttrs)
    (devline : DeviceHeader) (metaHdr : DriverHeader) : Option Int :=
  if allocated = false then some errorMemoryNomem
  else rankFrom files device.attrs devline metaHdr 0 errorNoMatch metaHdr.nRanks

def addEnumerationAttribute (attrib : Attribute) : List Attribute → List Attribute
  | [] => [attrib]
  | attr :: rest =>
    if strcmp8 attr.attrName attrib.attrName then attrib :: rest
    else attr :: addEnumerationAttribute attrib rest

inductive Value
  | string (chars : Bytes)
  | array8 (length : Nat) (bytes : Bytes)
  | ubit32 (value : Nat)
  | boolean (value : Nat)
deriving DecidableEq

def Attribute.value (attr : Attribute) : Option Value :=
  if attr.attrType = udiAttrString then some (.string (cString attr.attrValue))
  else if attr.attrType = udiAttrUbit32 then some (.ubit32 (attr32Get attr.attrValue))
  else if attr.attrType = udiAttrBoolean then some (.boolean (attr.attrValue.getD 0 0))
  else if attr.attrType = udiAttrArray8 then
    some (.array8 attr.attrLength (attr.attrValue.take attr.attrLength))
  else none

def lineValue (files : Files) (data : AttrData) : Option (Option Value) :=
  if data.attrType = udiAttrString then do
    let chars ← getString files data.attrValueOff udiMaxAttrSize
    some (some (.string (cString chars)))
  else if data.attrType = udiAttrUbit32 then
    some (some (.ubit32 (attr32Get (bytesOf32 data.attrValueOff))))
  else if data.attrType = udiAttrBoolean then
    some (some (.boolean ((bytesOf32 data.attrValueOff).getD 0 0)))
  else if data.attrType = udiAttrArray8 then do
    let bytes ← (getArray files data.attrValueOff data.attrLength).join
    some (some (.array8 data.attrLength (bytes.take data.attrLength)))
  else some none

structure LineAttr where
  name : Bytes
  value : Option Value

def LineAttr.named (name : Bytes) (attr : LineAttr) : Bool :=
  strcmp8 attr.name name

def lineAttr (files : Files) (devline : DeviceHeader) (i : Nat) : Option LineAttr := do
  let data ← indexedGetDeviceData files devline i
  let name ← getString files data.attrNameOff udiMaxAttrNamelen
  let value ← lineValue files data
  some ⟨name, value⟩

def lineAttrs (files : Files) (devline : DeviceHeader) : Option (List LineAttr) :=
  readAll (lineAttr files devline) 0 devline.nAttributes

structure RankLine where
  driverId : Nat
  rank : Nat
  names : List Bytes

def rankLine (files : Files) (metaHdr : DriverHeader) (i : Nat) : Option RankLine := do
  let rank ← indexedGetRank files metaHdr i
  let names ← readAll (fun j => (indexedGetRankAttrString files rank j).join) 0 rank.nAttributes
  some ⟨rank.driverId, rank.rank, names⟩

def rankLines (files : Files) (metaHdr : DriverHeader) : Option (List RankLine) :=
  readAll (rankLine files metaHdr) 0 metaHdr.nRanks

def AttrMatches (attrs : List Attribute) (line : List LineAttr) (name : Bytes) : Prop :=
  ∃ lineAttr value, line.find? (LineAttr.named name) = some lineAttr ∧
    lineAttr.value = some value ∧
      ∃ attr ∈ attrs, cString attr.attrName = cString name ∧ attr.value = some value

def LineMatches (attrs : List Attribute) (line : List LineAttr) (rank : RankLine) : Prop :=
  ∀ name ∈ rank.names, AttrMatches attrs line name

/-- The rank is the greatest of those that match, and negative exactly when there is none. -/
structure RankOf (attrs : List Attribute) (line : List LineAttr) (ranks : List RankLine)
    (ret : Int) : Prop where
  greatest : (∃ rank ∈ ranks, LineMatches attrs line rank) →
    IsGreatest {r : Int | ∃ rank ∈ ranks, LineMatches attrs line rank ∧ r = rank.rank} ret
  negative : ret < 0 ↔ ¬ ∃ rank ∈ ranks, LineMatches attrs line rank

section

variable {files : Files} {attrs : List Attribute} {data : AttrData} {value : Option Value}
  {name : Bytes}

theorem addEnumerationAttribute_names (attrib : Attribute) (attrs : List Attribute) :
    (addEnumerationAttribute attrib attrs).map (fun attr => cString attr.attrName) =
      if cString attrib.attrName ∈ attrs.map (fun attr => cString attr.attrName) then
        attrs.map fun attr => cString attr.attrName
      else attrs.map (fun attr => cString attr.attrName) ++ [cString attrib.attrName] := by
  induction attrs with
  | nil => rfl
  | cons attr rest ih =>
    rw [addEnumerationAttribute]
    split
    · next hsame =>
      have hname := of_decide_eq_true hsame
      simp [hname]
    next hother =>
    have hname : ¬ cString attrib.attrName = cString attr.attrName :=
      fun heq => hother (decide_eq_true heq.symm)
    rw [map_cons, ih]
    simp only [map_cons, mem_cons, hname, false_or]
    split
    · rfl
    · rfl

theorem addEnumerationAttribute_nodup (attrib : Attribute)
    (h : (attrs.map fun attr => cString attr.attrName).Nodup) :
    ((addEnumerationAttribute attrib attrs).map fun attr => cString attr.attrName).Nodup := by
  rw [addEnumerationAttribute_names]
  split
  · exact h
  · next hnew =>
    refine nodup_append.mpr ⟨h, pairwise_singleton _ _, ?_⟩
    rintro name hin other hother rfl
    exact hnew (mem_singleton.mp hother ▸ hin)

variable {attr : Attribute}

theorem compareValue_eq (htype : attr.attrType = data.attrType)
    (hvalue : lineValue files data = some value) :
    compareValue files attr data = some (decide (value.isSome ∧ attr.value = value)) := by
  unfold lineValue at hvalue
  unfold compareValue Attribute.value
  rw [htype]
  split
  · next hstring =>
    rw [if_pos hstring] at hvalue
    cases hread : getString files data.attrValueOff udiMaxAttrSize with
    | none => simp [hread] at hvalue
    | some chars =>
      obtain rfl : some (Value.string (cString chars)) = value := by simpa [hread] using hvalue
      simp [strcmp8]
  next hstring =>
  rw [if_neg hstring] at hvalue
  split
  · next hubit32 =>
    rw [if_pos hubit32] at hvalue
    cases hvalue
    simp
  next hubit32 =>
  rw [if_neg hubit32] at hvalue
  split
  · next hboolean =>
    rw [if_pos hboolean] at hvalue
    cases hvalue
    simp
  next hboolean =>
  rw [if_neg hboolean] at hvalue
  split
  · next harray8 =>
    rw [if_pos harray8] at hvalue
    cases hread : getArray files data.attrValueOff data.attrLength with
    | none => simp [hread] at hvalue
    | some read =>
      cases read with
      | none => simp [hread] at hvalue
      | some bytes =>
        obtain rfl : some (Value.array8 data.attrLength (bytes.take data.attrLength)) =
            value := by
          simpa [hread] using hvalue
        rcases eq_or_ne attr.attrLength data.attrLength with hlength | hlength
        · simp [hlength]
        · simp [hlength]
  · next harray8 =>
    rw [if_neg harray8] at hvalue
    cases hvalue
    simp

def Value.attrType : Value → Nat
  | .string _ => udiAttrString
  | .array8 .. => udiAttrArray8
  | .ubit32 _ => udiAttrUbit32
  | .boolean _ => udiAttrBoolean

theorem Attribute.value_attrType {value : Value} (h : attr.value = some value) :
    value.attrType = attr.attrType := by
  unfold Attribute.value at h
  split at h
  · next htype => exact some.inj h ▸ htype.symm
  split at h
  · next htype => exact some.inj h ▸ htype.symm
  split at h
  · next htype => exact some.inj h ▸ htype.symm
  split at h
  · next htype => exact some.inj h ▸ htype.symm
  · cases h

theorem lineValue_attrType {value : Value} (h : lineValue files data = some (some value)) :
    value.attrType = data.attrType := by
  unfold lineValue at h
  split at h
  · next htype =>
    obtain ⟨chars, -, heq⟩ := bind_eq_some_iff.mp h
    exact some.inj (some.inj heq) ▸ htype.symm
  split at h
  · next htype => exact some.inj (some.inj h) ▸ htype.symm
  split at h
  · next htype => exact some.inj (some.inj h) ▸ htype.symm
  split at h
  · next htype =>
    obtain ⟨bytes, -, heq⟩ := bind_eq_some_iff.mp h
    exact some.inj (some.inj heq) ▸ htype.symm
  · cases some.inj h

theorem value_ne_of_type (htype : attr.attrType ≠ data.attrType)
    (hvalue : lineValue files data = some value) : ¬ (value.isSome ∧ attr.value = value) := by
  rintro ⟨hsome, heq⟩
  obtain ⟨value, rfl⟩ := isSome_iff_exists.mp hsome
  exact htype ((Attribute.value_attrType heq).symm.trans (lineValue_attrType hvalue))

theorem attrMatched_eq (hnodup : (attrs.map fun attr => cString attr.attrName).Nodup)
    (hvalue : lineValue files data = some value) :
    ∃ matched, attrMatched files name data attrs = some matched ∧
      (matched = true ↔ ∃ attr ∈ attrs, cString attr.attrName = cString name ∧
        value.isSome ∧ attr.value = value) := by
  induction attrs with
  | nil => exact ⟨false, rfl, by simp⟩
  | cons attr rest ih =>
    obtain ⟨hnew, hrest⟩ := nodup_cons.mp hnodup
    rw [attrMatched]
    split
    · next hname =>
      have hother : ¬ cString attr.attrName = cString name := of_decide_eq_false hname
      obtain ⟨matched, hmatched, hiff⟩ := ih hrest
      refine ⟨matched, hmatched, hiff.trans ?_⟩
      simp [hother]
    next hname =>
    have hsame : cString attr.attrName = cString name := by simpa [strcmp8] using hname
    have honly : (∃ other ∈ attr :: rest, cString other.attrName = cString name ∧
        value.isSome ∧ other.value = value) ↔ value.isSome ∧ attr.value = value := by
      constructor
      · rintro ⟨other, hin, hother, hequal⟩
        rcases mem_cons.mp hin with rfl | hin
        · exact hequal
        · exact absurd (List.mem_map.mpr ⟨other, hin, hother.trans hsame.symm⟩) hnew
      · exact fun hequal => ⟨attr, mem_cons_self .., hsame, hequal⟩
    rw [honly]
    split
    · next htype =>
      exact ⟨false, rfl, iff_of_false (by simp) (value_ne_of_type htype hvalue)⟩
    next htype =>
    rw [compareValue_eq (Decidable.not_not.mp htype) hvalue, some_bind]
    split
    · next hequal => exact ⟨true, rfl, iff_of_true rfl (of_decide_eq_true hequal)⟩
    next hequal =>
    obtain ⟨matched, hmatched, hiff⟩ := ih hrest
    refine ⟨matched, hmatched, iff_of_false ?_ fun h => hequal (decide_eq_true h)⟩
    intro htrue
    obtain ⟨other, hin, hother, -⟩ := hiff.mp htrue
    exact hnew (List.mem_map.mpr ⟨other, hin, hother.trans hsame.symm⟩)

end

section

variable {files : Files} {attrs : List Attribute} {devline : DeviceHeader} {line : List LineAttr}
  {name : Bytes} {i left : Nat}

theorem lineAttr_some {attr : LineAttr} (h : lineAttr files devline i = some attr) :
    ∃ data, indexedGetDeviceData files devline i = some data ∧
      getString files data.attrNameOff udiMaxAttrNamelen = some attr.name ∧
        lineValue files data = some attr.value := by
  obtain ⟨data, hdata, h⟩ := bind_eq_some_iff.mp h
  obtain ⟨name, hname, h⟩ := bind_eq_some_iff.mp h
  obtain ⟨value, hvalue, h⟩ := bind_eq_some_iff.mp h
  cases h
  exact ⟨data, hdata, hname, hvalue⟩

theorem findDeviceDataFrom_spec (hline : readAll (lineAttr files devline) i left = some line) :
    ∃ found, findDeviceDataFrom files devline name i left = some found ∧
      match line.find? (LineAttr.named name) with
      | none => found = none
      | some attr => ∃ data, found = some data ∧ lineValue files data = some attr.value := by
  induction left generalizing i line with
  | zero =>
    cases hline
    exact ⟨none, rfl, rfl⟩
  | succ left ih =>
    obtain ⟨attr, rest, hattr, hrest, rfl⟩ := readAll_succ hline
    obtain ⟨data, hdata, hname, hvalue⟩ := lineAttr_some hattr
    rw [findDeviceDataFrom, hdata]
    dsimp only
    rw [hname, some_bind]
    split
    · next hsame =>
      rw [find?_cons_of_pos (show LineAttr.named name attr = true from hsame)]
      exact ⟨some data, rfl, data, rfl, hvalue⟩
    · next hother =>
      rw [find?_cons_of_neg (show ¬ LineAttr.named name attr = true from hother)]
      exact ih hrest

theorem attrMatches_iff {attr : LineAttr} (hfind : line.find? (LineAttr.named name) = some attr) :
    AttrMatches attrs line name ↔ ∃ own ∈ attrs, cString own.attrName = cString name ∧
      attr.value.isSome ∧ own.value = attr.value := by
  constructor
  · rintro ⟨attr', value, hfind', hvalue, own, hin, hname, hown⟩
    cases hfind.symm.trans hfind'
    exact ⟨own, hin, hname, by rw [hvalue]; rfl, hown.trans hvalue.symm⟩
  · rintro ⟨own, hin, hname, hsome, hown⟩
    obtain ⟨value, hvalue⟩ := isSome_iff_exists.mp hsome
    exact ⟨attr, value, hfind, hvalue, own, hin, hname, hown.trans hvalue⟩

theorem countMatched_spec {currRank : RankHeader} {names : List Bytes} {j : Nat}
    (hnodup : (attrs.map fun attr => cString attr.attrName).Nodup)
    (hline : lineAttrs files devline = some line)
    (hnames : readAll (fun j => (indexedGetRankAttrString files currRank j).join) j left =
      some names)
    (n : Nat) :
    ∃ count, countMatched files attrs devline currRank j n left = some count ∧
      count ≤ n + left ∧ (count = n + left ↔ ∀ name ∈ names, AttrMatches attrs line name) := by
  induction left generalizing j n names with
  | zero =>
    cases hnames
    exact ⟨n, rfl, le_refl n, by simp⟩
  | succ left ih =>
    obtain ⟨name, rest, hname, hrest, rfl⟩ := readAll_succ hnames
    have hread := join_eq_some_iff.mp hname
    obtain ⟨found, hfound, hfind⟩ := findDeviceDataFrom_spec hline
    rw [forall_mem_cons, countMatched, hread, some_bind]
    dsimp only
    rw [findDeviceData, hfound, some_bind]
    cases hattr : line.find? (LineAttr.named name) with
    | none =>
      rw [hattr] at hfind
      obtain rfl := hfind
      refine ⟨n, rfl, by omega, iff_of_false (by omega) ?_⟩
      rintro ⟨⟨attr, _, hattr', -⟩, -⟩
      rw [hattr] at hattr'
      cases hattr'
    | some attr =>
      rw [hattr] at hfind
      obtain ⟨data, rfl, hvalue⟩ := hfind
      obtain ⟨matched, hmatched, hiff⟩ := @attrMatched_eq files attrs data _ name hnodup hvalue
      rw [← attrMatches_iff hattr] at hiff
      dsimp only
      rw [hmatched, some_bind]
      obtain ⟨count, hcount, hle, hall⟩ := ih hrest (if matched then n + 1 else n)
      refine ⟨count, hcount, ?_⟩
      rw [← hiff]
      cases matched with
      | true =>
        rw [show n + (left + 1) = n + 1 + left by omega, ← hall]
        exact ⟨hle, by simp⟩
      | false =>
        rw [if_neg (by simp)] at hle hall
        exact ⟨by omega, iff_of_false (by omega) (by simp)⟩

theorem rankLine_some {metaHdr : DriverHeader} {rank : RankLine}
    (h : rankLine files metaHdr i = some rank) :
    ∃ currRank, indexedGetRank files metaHdr i = some currRank ∧
      currRank.driverId = rank.driverId ∧ currRank.rank = rank.rank ∧
        readAll (fun j => (indexedGetRankAttrString files currRank j).join) 0
          currRank.nAttributes = some rank.names := by
  obtain ⟨currRank, hrank, h⟩ := bind_eq_some_iff.mp h
  obtain ⟨names, hnames, h⟩ := bind_eq_some_iff.mp h
  cases h
  exact ⟨currRank, hrank, rfl, rfl, hnames⟩

theorem rankFrom_spec {metaHdr : DriverHeader} {ranks : List RankLine}
    (hnodup : (attrs.map fun attr => cString attr.attrName).Nodup)
    (hline : lineAttrs files devline = some line)
    (hranks : readAll (rankLine files metaHdr) i left = some ranks)
    (hdriver : ∀ rank ∈ ranks, rank.driverId = metaHdr.id) (ret : Int) :
    ∃ last, rankFrom files attrs devline metaHdr i ret left = some last ∧ ret ≤ last ∧
      (∀ rank ∈ ranks, LineMatches attrs line rank → (rank.rank : Int) ≤ last) ∧
        (last = ret ∨ ∃ rank ∈ ranks, LineMatches attrs line rank ∧ last = rank.rank) := by
  induction left generalizing i ret ranks with
  | zero =>
    cases hranks
    exact ⟨ret, rfl, Int.le_refl ret, by simp, .inl rfl⟩
  | succ left ih =>
    obtain ⟨rank, rest, hrank, hrest, rfl⟩ := readAll_succ hranks
    obtain ⟨hid, hdriver⟩ := forall_mem_cons.mp hdriver
    obtain ⟨currRank, hread, hid', hvalue, hnames⟩ := rankLine_some hrank
    obtain ⟨count, hcount, -, hall⟩ := countMatched_spec hnodup hline hnames 0
    rw [zero_add] at hall
    rw [rankFrom, hread]
    dsimp only
    rw [if_neg (by simp [hid', hid]), hcount, some_bind, hvalue]
    obtain ⟨last, hlast, hle, hbound, hfrom⟩ := ih hrest hdriver
      (if count = currRank.nAttributes ∧ ret < rank.rank then (rank.rank : Int) else ret)
    refine ⟨last, hlast, ?_⟩
    have hmatches := hall
    rw [forall_mem_cons]
    split at hle
    · next hnew =>
      rw [if_pos hnew] at hfrom
      refine ⟨by omega, ⟨fun _ => hle, hbound⟩, .inr ?_⟩
      rcases hfrom with hsame | ⟨best, hbest, hmatch⟩
      · exact ⟨rank, mem_cons_self .., hmatches.mp hnew.1, hsame⟩
      · exact ⟨best, mem_cons_of_mem rank hbest, hmatch⟩
    next hold =>
    rw [if_neg hold] at hfrom
    refine ⟨hle, ⟨fun hmatch => ?_, hbound⟩, ?_⟩
    · have hnot : ¬ ret < rank.rank := fun hlt => hold ⟨hmatches.mpr hmatch, hlt⟩
      omega
    · rcases hfrom with hsame | ⟨best, hbest, hmatch⟩
      · exact .inl hsame
      · exact .inr ⟨best, mem_cons_of_mem rank hbest, hmatch⟩

/-- The rank that is returned, when there is memory for a value. -/
theorem compare_returns_rank (device : EnumerationAttrs) {metaHdr : DriverHeader}
    {ranks : List RankLine} (allocated : Bool) (hline : lineAttrs files devline = some line)
    (hranks : rankLines files metaHdr = some ranks)
    (hdriver : ∀ rank ∈ ranks, rank.driverId = metaHdr.id) :
    ∃ ret, compareEnumerationAttributes files allocated device devline metaHdr = some ret ∧
      if allocated then RankOf device.attrs line ranks ret else ret = errorMemoryNomem := by
  cases allocated with
  | false => exact ⟨errorMemoryNomem, rfl, rfl⟩
  | true =>
    obtain ⟨ret, hret, hge, hbound, hfrom⟩ :=
      rankFrom_spec device.nodup hline hranks hdriver errorNoMatch
    refine ⟨ret, hret, ?_, ?_⟩
    · rintro ⟨rank, hin, hmatch⟩
      have hle := hbound rank hin hmatch
      constructor
      · rcases hfrom with hsame | ⟨best, hbest, hmatch', heq⟩
        · unfold errorNoMatch at hsame
          omega
        · exact ⟨best, hbest, hmatch', heq⟩
      · rintro r ⟨other, hother, hmatch', rfl⟩
        exact hbound other hother hmatch'
    · constructor
      · rintro hneg ⟨rank, hin, hmatch⟩
        have hle := hbound rank hin hmatch
        omega
      · intro hnone
        rcases hfrom with hsame | ⟨best, hbest, hmatch, -⟩
        · rw [hsame]
          decide
        · exact absurd ⟨best, hbest, hmatch⟩ hnone

end

def sampleFiles : Files where
  header := none
  drivers := fun _ => none
  devices := fun _ => none
  ranks := fun off =>
    if off = 0 then some ⟨7, 1, 5, 100⟩ else if off = 12 then some ⟨7, 2, 9, 100⟩ else none
  provisions := fun _ => none
  attrData := fun off =>
    if off = 0 then some ⟨udiAttrString, 0, 0, 4⟩
    else if off = 12 then some ⟨udiAttrUbit32, 4, 8, 0x8086⟩
    else none
  rankAttrs := fun off => if off = 100 then some ⟨0⟩ else if off = 104 then some ⟨8⟩ else none
  messages := fun _ => none
  metalanguages := fun _ => none
  strings := fun off =>
    if off = 0 then some [98, 117, 115] else if off = 4 then some [112, 99, 105]
    else if off = 8 then some [105, 100] else none
  arrays := fun _ _ => none

def sampleLine : DeviceHeader := ⟨3, 1, 1, 2, 0⟩

def sampleMeta : DriverHeader := ⟨7, 0, [], [], 0, 0, 0, 2, 0, 0⟩

def sampleAttrs : List LineAttr :=
  [⟨[98, 117, 115], some (.string [112, 99, 105])⟩, ⟨[105, 100], some (.ubit32 0x8086)⟩]

def sampleRanks : List RankLine :=
  [⟨7, 5, [[98, 117, 115]]⟩, ⟨7, 9, [[98, 117, 115], [105, 100]]⟩]

def sampleDevice : EnumerationAttrs where
  attrs := [⟨[105, 100, 0], [0x86, 0x80, 0, 0], 4, udiAttrUbit32⟩,
    ⟨[98, 117, 115, 0], [112, 99, 105, 0], 0, udiAttrString⟩]
  nodup := by decide

theorem compare_returns_rank_sample :
    compareEnumerationAttributes sampleFiles true sampleDevice sampleLine sampleMeta = some 9 ∧
      RankOf sampleDevice.attrs sampleAttrs sampleRanks 9 := by
  obtain ⟨ret, hret, hrank⟩ := @compare_returns_rank sampleFiles sampleLine sampleAttrs
    sampleDevice sampleMeta sampleRanks true rfl rfl (by decide)
  have hnine : compareEnumerationAttributes sampleFiles true sampleDevice sampleLine sampleMeta =
      some 9 := by
    decide
  obtain rfl : ret = 9 := some.inj (hret.symm.trans hnine)
  exact ⟨hnine, hrank⟩

theorem notAllocated_negative : ¬ ∀ files allocated device devline metaHdr line ranks,
      lineAttrs files devline = some line → rankLines files metaHdr = some ranks →
        (∀ rank ∈ ranks, rank.driverId = metaHdr.id) →
          ∃ ret, compareEnumerationAttributes files allocated device devline metaHdr = some ret ∧
            RankOf device.attrs line ranks ret := by
  intro hclaim
  obtain ⟨ret, hret, hrank⟩ := hclaim sampleFiles false sampleDevice sampleLine sampleMeta
    sampleAttrs sampleRanks rfl rfl (by decide)
  cases hret
  refine hrank.negative.mp (by decide) ⟨_, mem_cons_self .., ?_⟩
  intro name hname
  obtain rfl := mem_singleton.mp hname
  exact ⟨_, _, rfl, rfl, _, mem_cons_of_mem _ (mem_cons_self ..), rfl, rfl⟩

end Zambesii.EnumerationAttributes
