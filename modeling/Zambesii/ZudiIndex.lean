import Mathlib.Data.List.TakeWhile
import Zambesii.KernelTypes

/-!
The lookups of `ZudiIndexParser` in the index of the kernel, which is in memory. A string is read
into a buffer of a size that is not given to `readString`: one that is too long is not defined.
-/

namespace Zambesii.ZudiIndex

open KernelTypes

abbrev Bytes := List Nat

def cString (bytes : Bytes) : Bytes :=
  bytes.takeWhile (· ≠ 0)

def strcmp8 (str1 str2 : Bytes) : Bool :=
  decide (cString str1 = cString str2)

structure Header where
  nRecords : Nat
  nSupportedDevices : Nat
  nSupportedMetas : Nat
deriving DecidableEq

structure DeviceHeader where
  driverId : Nat
  messageIndex : Nat
  metaIndex : Nat
  nAttributes : Nat
  dataOff : Nat
deriving DecidableEq

structure AttrData where
  attrType : Nat
  attrLength : Nat
  attrNameOff : Nat
  attrValueOff : Nat
deriving DecidableEq

structure DriverHeader where
  id : Nat
  nameIndex : Nat
  shortName : Bytes
  basePath : Bytes
  rankFileOffset : Nat
  nMetalanguages : Nat
  nMessages : Nat
  nRanks : Nat
  metalanguagesOffset : Nat
  messagesOffset : Nat
deriving DecidableEq

structure Metalanguage where
  index : Nat
  nameOff : Nat
deriving DecidableEq

structure Message where
  index : Nat
  messageOff : Nat
deriving DecidableEq

structure Provision where
  driverId : Nat
  nameOff : Nat
deriving DecidableEq

structure RankHeader where
  driverId : Nat
  nAttributes : Nat
  rank : Nat
  dataOff : Nat
deriving DecidableEq

structure RankAttr where
  nameOff : Nat
deriving DecidableEq

/-- What `RandomAccessBuffer::read` copies from an offset of a file of the index, when it does not
go past the end; and the string that is at an offset, without its NUL. -/
structure Files where
  header : Option Header
  drivers : Nat → Option DriverHeader
  devices : Nat → Option DeviceHeader
  ranks : Nat → Option RankHeader
  provisions : Nat → Option Provision
  attrData : Nat → Option AttrData
  rankAttrs : Nat → Option RankAttr
  messages : Nat → Option Message
  metalanguages : Nat → Option Metalanguage
  strings : Nat → Option Bytes
  arrays : Nat → Nat → Option Bytes

def sizeofHeader : Nat := 84
def sizeofDeviceHeader : Nat := 16
def sizeofAttrData : Nat := 12
def sizeofDriverHeader : Nat := 276
def sizeofMetalanguage : Nat := 8
def sizeofMessage : Nat := 12
def sizeofProvision : Nat := 12
def sizeofRankHeader : Nat := 12
def sizeofRankAttr : Nat := 4

def zuiDriverMetalanguageMaxlen : Nat := 32
def zuiMessageMaxlen : Nat := 150
def udiMaxAttrNamelen : Nat := 32
def udiMaxAttrSize : Nat := 64

def recordOff (base size index : Nat) : Nat :=
  (base + size * index) % wordModulus

/-- The loops over the records of an array: the first one that is wanted, of those before one that
cannot be read. -/
def search {α : Type} (read : Nat → Option α) (wanted : α → Bool) (i : Nat) :
    (left : Nat) → Option α
  | 0 => none
  | left + 1 =>
    match read i with
    | none => none
    | some retobj => if wanted retobj then some retobj else search read wanted (i + 1) left

/-- `getString` into a buffer of `size` bytes. `readString` of the index of the kernel does not
fail. -/
def getString (files : Files) (offset size : Nat) : Option Bytes := do
  let string ← files.strings offset
  if string.length < size then some string else none

def getDriverHeader (files : Files) (hdr : Header) (id : Nat) : Option DriverHeader :=
  search (fun i => files.drivers (recordOff sizeofHeader sizeofDriverHeader i))
    (fun retobj => decide (retobj.id = id % 2 ^ 16)) 0 hdr.nRecords

def indexedGetDevice (files : Files) (index : Nat) : Option DeviceHeader :=
  files.devices (recordOff 0 sizeofDeviceHeader index)

def getMessage (files : Files) (drvHeader : DriverHeader) (index : Nat) : Option Message :=
  search (fun i => files.messages (recordOff drvHeader.messagesOffset sizeofMessage i))
    (fun retobj => decide (retobj.index = index)) 0 drvHeader.nMessages

/-- `getMessageString`: `some none` when there is no such message. -/
def getMessageString (files : Files) (drvHeader : DriverHeader) (index size : Nat) :
    Option (Option Bytes) :=
  match getMessage files drvHeader index with
  | none => some none
  | some msg => (getString files msg.messageOff size).map some

def getMetalanguage (files : Files) (drvHeader : DriverHeader) (index : Nat) :
    Option Metalanguage :=
  search (fun i => files.metalanguages (recordOff drvHeader.metalanguagesOffset
    sizeofMetalanguage i)) (fun retobj => decide (retobj.index = index)) 0 drvHeader.nMetalanguages

def findMetalanguageFrom (files : Files) (hdr : Header) (metaName : Bytes) (i : Nat) :
    (left : Nat) → Option (Option DriverHeader)
  | 0 => some none
  | left + 1 =>
    match files.provisions (recordOff 0 sizeofProvision i) with
    | none => some none
    | some currProvision => do
        let currProvName ← getString files currProvision.nameOff zuiDriverMetalanguageMaxlen
        if strcmp8 currProvName metaName then
          match getDriverHeader files hdr currProvision.driverId with
          | some retobj => some (some retobj)
          | none => findMetalanguageFrom files hdr metaName (i + 1) left
        else findMetalanguageFrom files hdr metaName (i + 1) left

def findMetalanguage (files : Files) (hdr : Header) (metaName : Bytes) :
    Option (Option DriverHeader) :=
  findMetalanguageFrom files hdr metaName 0 hdr.nSupportedMetas

def indexedGetDeviceData (files : Files) (devHeader : DeviceHeader) (idx : Nat) : Option AttrData :=
  files.attrData (recordOff devHeader.dataOff sizeofAttrData idx)

def findDeviceDataFrom (files : Files) (devHeader : DeviceHeader) (attrName : Bytes) (i : Nat) :
    (left : Nat) → Option (Option AttrData)
  | 0 => some none
  | left + 1 =>
    match indexedGetDeviceData files devHeader i with
    | none => some none
    | some retobj => do
        let nameTmp ← getString files retobj.attrNameOff udiMaxAttrNamelen
        if strcmp8 nameTmp attrName then some (some retobj)
        else findDeviceDataFrom files devHeader attrName (i + 1) left

def findDeviceData (files : Files) (devHeader : DeviceHeader) (attrName : Bytes) :
    Option (Option AttrData) :=
  findDeviceDataFrom files devHeader attrName 0 devHeader.nAttributes

def indexedGetRank (files : Files) (metaHeader : DriverHeader) (index : Nat) : Option RankHeader :=
  files.ranks (recordOff metaHeader.rankFileOffset sizeofRankHeader index)

/-- `indexedGetRankAttrString`: `some none` when the attribute cannot be read. -/
def indexedGetRankAttrString (files : Files) (rankHeader : RankHeader) (idx : Nat) :
    Option (Option Bytes) :=
  match files.rankAttrs (recordOff rankHeader.dataOff sizeofRankAttr idx) with
  | none => some none
  | some attr => (getString files attr.nameOff udiMaxAttrNamelen).map some

def getArray (files : Files) (offset len : Nat) : Option (Option Bytes) :=
  match files.arrays offset len with
  | none => some none
  | some bytes => if len ≤ udiMaxAttrSize then some (some bytes) else none

def readAll {α : Type} (read : Nat → Option α) (i : Nat) : (left : Nat) → Option (List α)
  | 0 => some []
  | left + 1 => do
      let record ← read i
      let rest ← readAll read (i + 1) left
      some (record :: rest)

section

variable {α : Type} {read : Nat → Option α}

theorem readAll_succ {i left : Nat} {records : List α}
    (h : readAll read i (left + 1) = some records) :
    ∃ record rest, read i = some record ∧ readAll read (i + 1) left = some rest ∧
      records = record :: rest := by
  rw [readAll] at h
  cases hread : read i with
  | none =>
    rw [hread] at h
    cases h
  | some record =>
    cases hrest : readAll read (i + 1) left with
    | none =>
      rw [hread, hrest] at h
      cases h
    | some rest =>
      rw [hread, hrest] at h
      exact ⟨record, rest, rfl, rfl, (Option.some.inj h).symm⟩

end

end Zambesii.ZudiIndex
