import Zambesii.PropsParser
import Zambesii.TextParse

/-!
The runs of `zudiindex` that create the index files and add drivers to them. What the operations on
the files do is given with each run. Every record in the files is kept together with the driver it
was parsed from.
-/

namespace Zambesii.IndexRuns

open List Option PropsParser PropsText Runs TextParse

/-- `exitStatusE`, as far as the modelled functions return it. -/
inductive ExitStatus
  | success
  | badCommandLine
  | unknown
  | noRequiresUdi
  | invalidInputFile
  | parseError
  | noIndex
  | nomem
  | fileOpen
  | fileIo
deriving DecidableEq

inductive IoError
  | nomem
  | fileOpen
  | fileIo
deriving DecidableEq

def IoError.status : IoError → ExitStatus
  | .nomem => .nomem
  | .fileOpen => .fileOpen
  | .fileIo => .fileIo

/-- What a write to a file does: it may fail, and it may be lost when the file is closed, which is
not looked at. -/
inductive Write
  | done
  | fails
  | lost
deriving DecidableEq

structure Header where
  endianness : String
  nRecords : Nat
  nextDriverId : Nat
  nSupportedDevices : Nat
  nSupportedMetas : Nat
deriving DecidableEq

/-- The index files: how many of the six there are, the header and the driver headers of
`drivers.zudi-index`, and the records of the others. -/
structure IndexFiles where
  nFiles : Nat
  header : Option Header
  drivers : List Driver
  devices : List (Driver × Device)
  ranks : List (Driver × Rank)
  provisions : List (Driver × Provision)

def noIndex : IndexFiles := ⟨0, none, [], [], [], []⟩

def nIndexFiles : Nat := 6

/-- `createMode`, where the file after the first `opened` of `indexFileNames` cannot be opened. The
file of the drivers is the first, that of the devices the third, those of the ranks and of the
provisions the last two. -/
def createMode (endianness : String) (opened : Nat) (headerWrite : Write) (files : IndexFiles) :
    ExitStatus × IndexFiles :=
  if endianness ≠ "le" ∧ endianness ≠ "be" then (.badCommandLine, files)
  else if opened = 0 then (.fileOpen, files)
  else if headerWrite = .fails then
    (.fileIo, { files with nFiles := max files.nFiles 1, header := none, drivers := [] })
  else
    (if opened < nIndexFiles then .fileOpen else .success,
      { nFiles := max files.nFiles (min opened nIndexFiles)
        header := if headerWrite = .done then some ⟨endianness, 0, 0, 0, 0⟩ else none
        drivers := []
        devices := if opened < 3 then files.devices else []
        ranks := if opened < 5 then files.ranks else []
        provisions := if opened < 6 then files.provisions else [] })

/-- `currentDriver` and the lists of the index. The lists of which no record has a file of its own
are left out. -/
structure Loaded where
  driver : Driver
  deviceList : List Device
  rankList : List Rank
  provisionList : List Provision
deriving DecidableEq

def isBadLineType (lineType : LineType) : Bool :=
  lineType = .unknown || lineType = .invalid

/-- `index_insert`: an object is put in front of the list of its type. -/
def indexInsert (loaded : Loaded) : Option Parsed → Loaded
  | some (.device device) => { loaded with deviceList := device :: loaded.deviceList }
  | some (.rank rank) => { loaded with rankList := rank :: loaded.rankList }
  | some (.provision provision) =>
    { loaded with provisionList := provision :: loaded.provisionList }
  | _ => loaded

/-- What the loader does with a line, and whether it goes on. There is no state any more after a
store beyond the end of an array. -/
def acceptLine (propsType : PropsType) : Option Loaded → Text → Bool × Option Loaded
  | none, _ => (false, none)
  | some loaded, line =>
    match parseLine propsType loaded.driver line with
    | none => (false, none)
    | some ((lineType, ret), driver) =>
      if isBadLineType lineType then (false, some { loaded with driver := driver })
      else (true, some (indexInsert { loaded with driver := driver } ret))

inductive ParseMode
  | text
  | binary
deriving DecidableEq

/-- `textParse` or `binaryParse`, which does nothing: whether it succeeds, and what has been loaded.
It may leave the line buffer or an array. -/
def parseFile (propsType : PropsType) (parseMode : ParseMode) (file : TextFile)
    (loaded : Loaded) : Option (Bool × Loaded) :=
  match parseMode with
  | .binary => some (true, loaded)
  | .text =>
    match textParse (acceptLine propsType) (some loaded) file with
    | none => none
    | some (lines, success) =>
      (lines.foldl (fun loaded line => (acceptLine propsType loaded line).2)
        (some loaded)).map fun loaded => (success, loaded)

/-- What the writes of `index_writeToDisk` do: of the ranks, devices and provisions a number of
records is written before a write fails, which is not reported. -/
structure DiskWrites where
  driverData : Option IoError
  ranks : Except IoError Nat
  devices : Except IoError Nat
  provisions : Except IoError Nat
  lists : Option IoError
  driverHeaderOpen : Option IoError
  driverHeader : Write

structure AddRun where
  file : Option TextFile
  parseMode : ParseMode
  propsType : PropsType
  basePath : BoundedText basePathMaxlen
  idReadable : Bool
  idWrite : Write
  writes : DiskWrites
  countRead : Option IoError
  countWrite : Write

/-- `getNextDriverId`: the id, and the files with the next id in the header. -/
def getNextDriverId (readable : Bool) (write : Write) (files : IndexFiles) :
    Option Nat × IndexFiles :=
  match files.header, readable, write with
  | some header, true, .done =>
    (some header.nextDriverId, { files with
      header := some { header with nextDriverId := ubit32 (header.nextDriverId + 1) } })
  | some header, true, .lost => (some header.nextDriverId, files)
  | _, _, _ => (none, files)

def writeRanks (loaded : Loaded) (n : Nat) (files : IndexFiles) : IndexFiles :=
  { files with ranks :=
      files.ranks ++ (loaded.rankList.take n).map fun rank => (loaded.driver, rank) }

def writeDevices (loaded : Loaded) (n : Nat) (files : IndexFiles) : IndexFiles :=
  { files with devices :=
      files.devices ++ (loaded.deviceList.take n).map fun device => (loaded.driver, device) }

def writeProvisions (loaded : Loaded) (n : Nat) (files : IndexFiles) : IndexFiles :=
  { files with provisions :=
      files.provisions ++
        (loaded.provisionList.take n).map fun provision => (loaded.driver, provision) }

def writeDriverHeader (loaded : Loaded) (writes : DiskWrites) (files : IndexFiles) :
    ExitStatus × IndexFiles :=
  match writes.driverHeaderOpen, writes.driverHeader with
  | some error, _ => (error.status, files)
  | none, .fails => (.fileIo, files)
  | none, .lost => (.success, files)
  | none, .done => (.success, { files with drivers := files.drivers ++ [loaded.driver] })

/-- The end of `index_writeToDisk`: the driver header comes last. -/
def writeLists (loaded : Loaded) (writes : DiskWrites) (files : IndexFiles) :
    ExitStatus × IndexFiles :=
  match writes.lists with
  | some error => (error.status, files)
  | none => writeDriverHeader loaded writes files

def writeToDisk (loaded : Loaded) (writes : DiskWrites) (files : IndexFiles) :
    ExitStatus × IndexFiles :=
  match writes.driverData, writes.ranks, writes.devices, writes.provisions with
  | some error, _, _, _ => (error.status, files)
  | none, .error error, _, _ => (error.status, files)
  | none, .ok nRanks, .error error, _ => (error.status, writeRanks loaded nRanks files)
  | none, .ok nRanks, .ok nDevices, .error error =>
    (error.status, writeDevices loaded nDevices (writeRanks loaded nRanks files))
  | none, .ok nRanks, .ok nDevices, .ok nProvisions =>
    writeLists loaded writes (writeProvisions loaded nProvisions
      (writeDevices loaded nDevices (writeRanks loaded nRanks files)))

def incrementNRecords (read : Option IoError) (write : Write)
    (nSupportedDevices nSupportedMetas : Nat) (files : IndexFiles) : ExitStatus × IndexFiles :=
  match read, files.header, write with
  | some error, _, _ => (error.status, files)
  | none, none, _ => (.fileIo, files)
  | none, some _, .fails => (.fileIo, files)
  | none, some _, .lost => (.success, files)
  | none, some header, .done =>
    (.success, { files with
      header := some { header with
        nRecords := ubit32 (header.nRecords + 1)
        nSupportedDevices := ubit32 (header.nSupportedDevices + nSupportedDevices)
        nSupportedMetas := ubit32 (header.nSupportedMetas + nSupportedMetas) } })

/-- `addMode` after the parse stage. -/
def storeDriver (run : AddRun) (success : Bool) (loaded : Loaded) (files : IndexFiles) :
    ExitStatus × IndexFiles :=
  if success = false then (.parseError, files)
  else if loaded.driver.hasRequiresUdi = false then (.noRequiresUdi, files)
  else
    let written := writeToDisk loaded run.writes files
    if written.1 ≠ .success then written
    else
      incrementNRecords run.countRead run.countWrite loaded.driver.nDevices
        loaded.driver.nProvisions written.2

/-- `addMode`, after the test that there is an index. -/
def addMode (run : AddRun) (files : IndexFiles) : Option (ExitStatus × IndexFiles) :=
  if files.nFiles < nIndexFiles then some (.noIndex, files)
  else
    match run.file with
    | none => some (.invalidInputFile, files)
    | some file =>
      match getNextDriverId run.idReadable run.idWrite files with
      | (none, files) => some (.unknown, files)
      | (some driverId, files) =>
        (parseFile run.propsType run.parseMode file
          ⟨initializeNewDriverState run.propsType run.basePath driverId false, [], [], []⟩).map
            fun result => storeDriver run result.1 result.2 files

inductive ZRun
  | create (endianness : String) (opened : Nat) (headerWrite : Write)
  | add (run : AddRun)

def step (files : IndexFiles) : ZRun → Option (ExitStatus × IndexFiles)
  | .create endianness opened headerWrite =>
    some (createMode endianness opened headerWrite files)
  | .add run => addMode run files

structure OwnIds (files : IndexFiles) : Prop where
  devices : ∀ record ∈ files.devices, record.2.driverId = record.1.id
  ranks : ∀ record ∈ files.ranks, record.2.driverId = record.1.id
  provisions : ∀ record ∈ files.provisions, record.2.driverId = record.1.id

/-- The ids of the drivers are distinct, the header counts them, and every record has the id of its
driver. -/
structure Consistent (files : IndexFiles) : Prop where
  ids : (files.drivers.map Driver.id).Nodup
  count : ∀ header, files.header = some header → header.nRecords = files.drivers.length
  records : OwnIds files

/-- The next id of the index fits in the 16 bits of the parser's argument, no write of one of the
headers is lost, and the number of records is written when the driver header has been. -/
def Keeps (files : IndexFiles) : ZRun → Prop
  | .create _ _ _ => True
  | .add run =>
    (∀ header, files.header = some header → header.nextDriverId < 2 ^ 16) ∧
      run.idWrite ≠ .lost ∧ run.writes.driverHeader ≠ .lost ∧
        (run.writes.driverHeader = .done → run.countRead = none ∧ run.countWrite = .done)

structure HasId (id : Nat) (loaded : Loaded) : Prop where
  driver : loaded.driver.id = id
  devices : ∀ device ∈ loaded.deviceList, device.driverId = id
  ranks : ∀ rank ∈ loaded.rankList, rank.driverId = id
  provisions : ∀ provision ∈ loaded.provisionList, provision.driverId = id

theorem hasId_initial (propsType : PropsType) (basePath : BoundedText basePathMaxlen)
    (driverId : Nat) (hasRequiresUdi : Bool) : HasId (ubit16 driverId)
      ⟨initializeNewDriverState propsType basePath driverId hasRequiresUdi, [], [], []⟩ where
  driver := rfl
  devices := forall_mem_nil _
  ranks := forall_mem_nil _
  provisions := forall_mem_nil _

theorem HasId.withDriver {id : Nat} {loaded : Loaded} (h : HasId id loaded) {driver : Driver}
    (hdriver : driver.id = id) : HasId id { loaded with driver := driver } :=
  { h with driver := hdriver }

theorem HasId.insert {id : Nat} {loaded : Loaded} (h : HasId id loaded) {ret : Option Parsed}
    (hret : ∀ parsed, ret = some parsed → parsed.driverId = id) :
    HasId id (indexInsert loaded ret) := by
  unfold indexInsert
  split
  · exact { h with devices := forall_mem_cons.mpr ⟨hret _ rfl, h.devices⟩ }
  · exact { h with ranks := forall_mem_cons.mpr ⟨hret _ rfl, h.ranks⟩ }
  · exact { h with provisions := forall_mem_cons.mpr ⟨hret _ rfl, h.provisions⟩ }
  · exact h

theorem acceptLine_hasId {propsType : PropsType} {id : Nat} (hid : id < 2 ^ 16)
    {loaded next : Loaded} (h : HasId id loaded) {line : Text}
    (hnext : (acceptLine propsType (some loaded) line).2 = some next) : HasId id next := by
  simp only [acceptLine] at hnext
  cases hparse : parseLine propsType loaded.driver line with
  | none =>
    rw [hparse] at hnext
    cases hnext
  | some outcome =>
    obtain ⟨⟨lineType, ret⟩, driver⟩ := outcome
    obtain ⟨hdriver, hret⟩ := parseLine_keepsId (h.driver.symm ▸ hid) hparse
    rw [h.driver] at hdriver hret
    rw [hparse] at hnext
    dsimp only at hnext
    split at hnext
    · rw [← some.inj hnext]
      exact h.withDriver hdriver
    · rw [← some.inj hnext]
      exact (h.withDriver hdriver).insert hret

theorem acceptLines_none (propsType : PropsType) (lines : List Text) :
    lines.foldl (fun loaded line => (acceptLine propsType loaded line).2) none = none := by
  induction lines with
  | nil => rfl
  | cons line lines ih => exact ih

theorem acceptLines_hasId {propsType : PropsType} {id : Nat} (hid : id < 2 ^ 16)
    {lines : List Text} {loaded next : Loaded} (h : HasId id loaded)
    (hnext : lines.foldl (fun loaded line => (acceptLine propsType loaded line).2)
      (some loaded) = some next) : HasId id next := by
  induction lines generalizing loaded with
  | nil =>
    rw [← some.inj hnext]
    exact h
  | cons line lines ih =>
    rw [foldl_cons] at hnext
    cases haccept : (acceptLine propsType (some loaded) line).2 with
    | none =>
      rw [haccept, acceptLines_none] at hnext
      cases hnext
    | some loaded' =>
      rw [haccept] at hnext
      exact ih (acceptLine_hasId hid h haccept) hnext

theorem parseFile_hasId {propsType : PropsType} {parseMode : ParseMode} {file : TextFile}
    {id : Nat} (hid : id < 2 ^ 16) {loaded next : Loaded} {success : Bool} (h : HasId id loaded)
    (hparse : parseFile propsType parseMode file loaded = some (success, next)) :
    HasId id next := by
  unfold parseFile at hparse
  split at hparse
  · cases hparse
    exact h
  split at hparse
  · cases hparse
  · obtain ⟨loaded', hloaded, heq⟩ := map_eq_some_iff.mp hparse
    obtain ⟨-, rfl⟩ := Prod.mk.inj heq
    exact acceptLines_hasId hid h hloaded

section

variable {files : IndexFiles} {loaded : Loaded} {id : Nat}

theorem appended_own {α : Type} {idOf : α → Nat} {records : List (Driver × α)} {items : List α}
    (hrecords : ∀ record ∈ records, idOf record.2 = record.1.id) (hdriver : loaded.driver.id = id)
    (hitems : ∀ item ∈ items, idOf item = id) (n : Nat) :
    ∀ record ∈ records ++ (items.take n).map fun item => (loaded.driver, item),
      idOf record.2 = record.1.id := by
  intro record hrecord
  rcases mem_append.mp hrecord with hrecord | hrecord
  · exact hrecords record hrecord
  · obtain ⟨item, hitem, rfl⟩ := mem_map.mp hrecord
    exact (hitems item (mem_of_mem_take hitem)).trans hdriver.symm

theorem OwnIds.writeRanks (h : OwnIds files) (hloaded : HasId id loaded) (n : Nat) :
    OwnIds (writeRanks loaded n files) where
  devices := h.devices
  ranks := appended_own h.ranks hloaded.driver hloaded.ranks n
  provisions := h.provisions

theorem OwnIds.writeDevices (h : OwnIds files) (hloaded : HasId id loaded) (n : Nat) :
    OwnIds (writeDevices loaded n files) where
  devices := appended_own h.devices hloaded.driver hloaded.devices n
  ranks := h.ranks
  provisions := h.provisions

theorem OwnIds.writeProvisions (h : OwnIds files) (hloaded : HasId id loaded) (n : Nat) :
    OwnIds (writeProvisions loaded n files) where
  devices := h.devices
  ranks := h.ranks
  provisions := appended_own h.provisions hloaded.driver hloaded.provisions n

/-- What writing a driver to disk leaves: its records have its id, and its header is there only when
it has been written at last. -/
structure Written (loaded : Loaded) (writes : DiskWrites) (files : IndexFiles)
    (result : ExitStatus × IndexFiles) : Prop where
  records : OwnIds result.2
  header : result.2.header = files.header
  drivers : result.2.drivers = files.drivers ∧
      (result.1 = .success → writes.driverHeader = .lost) ∨
    result.1 = .success ∧ writes.driverHeader = .done ∧
      result.2.drivers = files.drivers ++ [loaded.driver]

theorem IoError.status_ne_success (error : IoError) : error.status ≠ .success := by
  cases error <;> decide

theorem written_of_error {result : IndexFiles} {writes : DiskWrites} (error : IoError)
    (h : OwnIds result) (hheader : result.header = files.header)
    (hdrivers : result.drivers = files.drivers) :
    Written loaded writes files (error.status, result) :=
  ⟨h, hheader, .inl ⟨hdrivers, fun hsuccess => absurd hsuccess error.status_ne_success⟩⟩

theorem writeLists_written {before : IndexFiles} (h : OwnIds files)
    (hheader : files.header = before.header) (hdrivers : files.drivers = before.drivers)
    (loaded : Loaded) (writes : DiskWrites) :
    Written loaded writes before (writeLists loaded writes files) := by
  unfold writeLists
  split
  · exact written_of_error _ h hheader hdrivers
  unfold writeDriverHeader
  split
  · exact written_of_error _ h hheader hdrivers
  · exact written_of_error .fileIo h hheader hdrivers
  · rename_i hwrite
    exact ⟨h, hheader, .inl ⟨hdrivers, fun _ => hwrite⟩⟩
  · rename_i hwrite
    refine ⟨⟨h.devices, h.ranks, h.provisions⟩, hheader, .inr ⟨rfl, hwrite, ?_⟩⟩
    rw [← hdrivers]

theorem writeToDisk_written (h : OwnIds files) (hloaded : HasId id loaded)
    (writes : DiskWrites) : Written loaded writes files (writeToDisk loaded writes files) := by
  unfold writeToDisk
  split
  · exact written_of_error _ h rfl rfl
  · exact written_of_error _ h rfl rfl
  · exact written_of_error _ (h.writeRanks hloaded _) rfl rfl
  · exact written_of_error _ ((h.writeRanks hloaded _).writeDevices hloaded _) rfl rfl
  · refine writeLists_written ?_ ?_ ?_ loaded writes
    · exact ((h.writeRanks hloaded _).writeDevices hloaded _).writeProvisions hloaded _
    · rfl
    · rfl

end

/-- The ids that have been given to the drivers are below the next one, which fits in 16 bits or is
the first that does not. -/
structure Sound (files : IndexFiles) : Prop where
  consistent : Consistent files
  ids : ∀ header, files.header = some header →
    ∀ driver ∈ files.drivers, driver.id < header.nextDriverId
  length : ∀ header, files.header = some header →
    files.drivers.length ≤ header.nextDriverId ∧ header.nextDriverId ≤ 2 ^ 16

theorem ownIds_noIndex : OwnIds noIndex :=
  ⟨forall_mem_nil _, forall_mem_nil _, forall_mem_nil _⟩

theorem sound_of_empty {files : IndexFiles} (hdrivers : files.drivers = [])
    (hheader : ∀ header, files.header = some header → header.nRecords = 0 ∧ header.nextDriverId = 0)
    (hrecords : OwnIds files) : Sound files := by
  refine ⟨⟨?_, ?_, hrecords⟩, ?_, ?_⟩
  · rw [hdrivers]
    exact nodup_nil
  · intro header h
    rw [(hheader header h).1, hdrivers]
    rfl
  · intro header _ driver hdriver
    rw [hdrivers] at hdriver
    cases hdriver
  · intro header h
    rw [(hheader header h).2, hdrivers]
    exact ⟨Nat.le_refl 0, Nat.zero_le _⟩

theorem sound_noIndex : Sound noIndex :=
  sound_of_empty rfl (fun header h => by cases h) ownIds_noIndex

theorem sound_createMode {files : IndexFiles} (h : Sound files) (endianness : String)
    (opened : Nat) (headerWrite : Write) :
    Sound (createMode endianness opened headerWrite files).2 := by
  obtain ⟨hdevices, hranks, hprovisions⟩ := h.consistent.records
  unfold createMode
  split
  · exact h
  split
  · exact h
  split
  · refine sound_of_empty rfl ?_ ⟨hdevices, hranks, hprovisions⟩
    intro header hheader
    cases hheader
  refine sound_of_empty rfl ?_ ⟨?_, ?_, ?_⟩
  · intro header hheader
    dsimp only at hheader
    split at hheader
    · rw [← some.inj hheader]
      exact ⟨rfl, rfl⟩
    · cases hheader
  · dsimp only
    split
    · exact hdevices
    · exact forall_mem_nil _
  · dsimp only
    split
    · exact hranks
    · exact forall_mem_nil _
  · dsimp only
    split
    · exact hprovisions
    · exact forall_mem_nil _

structure Adding (files : IndexFiles) (id : Nat) : Prop where
  sound : Sound files
  header : ∃ header, files.header = some header ∧ header.nextDriverId = id + 1
  fresh : ∀ driver ∈ files.drivers, driver.id < id
  length : files.drivers.length ≤ id
  small : id < 2 ^ 16

theorem adding_getNextDriverId {files next : IndexFiles} {readable : Bool} {write : Write}
    {id : Nat} (h : Sound files)
    (hsmall : ∀ header, files.header = some header → header.nextDriverId < 2 ^ 16)
    (hwrite : write ≠ .lost) (hnext : getNextDriverId readable write files = (some id, next)) :
    Adding next id := by
  unfold getNextDriverId at hnext
  split at hnext
  · rename_i header hheader
    obtain ⟨hid, rfl⟩ := Prod.mk.inj hnext
    cases hid
    have hlt := hsmall header hheader
    have hids := h.ids header hheader
    obtain ⟨hlength, -⟩ := h.length header hheader
    have hsucc : ubit32 (header.nextDriverId + 1) = header.nextDriverId + 1 :=
      Nat.mod_eq_of_lt (by omega)
    rw [hsucc]
    refine ⟨⟨⟨h.consistent.ids, ?_, ?_⟩, ?_, ?_⟩, ⟨_, rfl, rfl⟩, hids, hlength, hlt⟩
    · intro header' hheader'
      rw [← some.inj hheader']
      exact h.consistent.count header hheader
    · obtain ⟨hdevices, hranks, hprovisions⟩ := h.consistent.records
      exact ⟨hdevices, hranks, hprovisions⟩
    · intro header' hheader' driver hdriver
      rw [← some.inj hheader']
      exact (hids driver hdriver).trans (Nat.lt_succ_self _)
    · intro header' hheader'
      rw [← some.inj hheader']
      exact ⟨hlength.trans (Nat.le_succ _), hlt⟩
  · exact absurd rfl hwrite
  · cases (Prod.mk.inj hnext).1

theorem getNextDriverId_none {files next : IndexFiles} {readable : Bool} {write : Write}
    (hnext : getNextDriverId readable write files = (none, next)) : next = files := by
  unfold getNextDriverId at hnext
  split at hnext
  · cases (Prod.mk.inj hnext).1
  · cases (Prod.mk.inj hnext).1
  · exact (Prod.mk.inj hnext).2.symm

theorem Sound.of_same {files next : IndexFiles} (h : Sound files)
    (hheader : next.header = files.header) (hdrivers : next.drivers = files.drivers)
    (hrecords : OwnIds next) : Sound next := by
  refine ⟨⟨?_, ?_, hrecords⟩, ?_, ?_⟩
  · rw [hdrivers]
    exact h.consistent.ids
  · rw [hheader, hdrivers]
    exact h.consistent.count
  · rw [hheader, hdrivers]
    exact h.ids
  · rw [hheader, hdrivers]
    exact h.length

theorem Adding.append {files next : IndexFiles} {id : Nat} {loaded : Loaded}
    (h : Adding files id) (hloaded : HasId id loaded) (hheader : next.header = files.header)
    (hdrivers : next.drivers = files.drivers ++ [loaded.driver]) (hrecords : OwnIds next)
    (nSupportedDevices nSupportedMetas : Nat) :
    Sound (incrementNRecords none .done nSupportedDevices nSupportedMetas next).2 := by
  obtain ⟨header, hfiles, hnextId⟩ := h.header
  have hcount := h.sound.consistent.count header hfiles
  have hlength := h.length
  have hsmall := h.small
  have hsucc : ubit32 (header.nRecords + 1) = files.drivers.length + 1 := by
    rw [hcount]
    exact Nat.mod_eq_of_lt (by omega)
  unfold incrementNRecords
  rw [hheader, hfiles]
  obtain ⟨hdevices, hranks, hprovisions⟩ := hrecords
  refine ⟨⟨?_, ?_, ⟨hdevices, hranks, hprovisions⟩⟩, ?_, ?_⟩
  · rw [hdrivers, map_append, map_singleton, nodup_append]
    refine ⟨h.sound.consistent.ids, pairwise_singleton _ _, ?_⟩
    intro id' hid' new hnew
    obtain ⟨driver, hdriver, rfl⟩ := mem_map.mp hid'
    rw [mem_singleton.mp hnew, hloaded.driver]
    exact ne_of_lt (h.fresh driver hdriver)
  · intro header' hheader'
    rw [← some.inj hheader']
    rw [hsucc, hdrivers, length_append, length_singleton]
  · intro header' hheader' driver hdriver
    rw [← some.inj hheader']
    rw [hdrivers] at hdriver
    rw [hnextId]
    rcases mem_append.mp hdriver with hdriver | hdriver
    · exact (h.fresh driver hdriver).trans (Nat.lt_succ_self _)
    · rw [mem_singleton.mp hdriver, hloaded.driver]
      exact Nat.lt_succ_self _
  · intro header' hheader'
    rw [← some.inj hheader']
    rw [hdrivers, hnextId, length_append, length_singleton]
    exact ⟨Nat.succ_le_succ hlength, hsmall⟩

theorem sound_storeDriver {files : IndexFiles} {id : Nat} (h : Adding files id) {run : AddRun}
    {loaded : Loaded} (hloaded : HasId id loaded) (hlost : run.writes.driverHeader ≠ .lost)
    (hcount : run.writes.driverHeader = .done →
      run.countRead = none ∧ run.countWrite = .done) (success : Bool) :
    Sound (storeDriver run success loaded files).2 := by
  unfold storeDriver
  split
  · exact h.sound
  split
  · exact h.sound
  obtain ⟨hrecords, hheader, hdrivers⟩ :=
    writeToDisk_written h.sound.consistent.records hloaded run.writes
  rcases hdrivers with ⟨hsame, hsuccess⟩ | ⟨hsuccess, hdone, happend⟩
  · rw [if_pos (fun heq => hlost (hsuccess heq))]
    exact h.sound.of_same hheader hsame hrecords
  · obtain ⟨hread, hwrite⟩ := hcount hdone
    rw [if_neg (not_not.mpr hsuccess), hread, hwrite]
    exact h.append hloaded hheader happend hrecords _ _

theorem sound_addMode {files next : IndexFiles} (h : Sound files) {run : AddRun}
    (hkeeps : Keeps files (.add run)) {status : ExitStatus}
    (hadd : addMode run files = some (status, next)) : Sound next := by
  obtain ⟨hsmall, hidWrite, hlost, hcount⟩ := hkeeps
  unfold addMode at hadd
  split at hadd
  · rw [← (Prod.mk.inj (some.inj hadd)).2]
    exact h
  split at hadd
  · rw [← (Prod.mk.inj (some.inj hadd)).2]
    exact h
  split at hadd
  · rename_i files' hnext
    rw [← (Prod.mk.inj (some.inj hadd)).2, getNextDriverId_none hnext]
    exact h
  rename_i id files' hnext
  have hadding := adding_getNextDriverId h hsmall hidWrite hnext
  obtain ⟨⟨success, loaded⟩, hparse, heq⟩ := map_eq_some_iff.mp hadd
  have hid : ubit16 id = id := Nat.mod_eq_of_lt hadding.small
  have hloaded := parseFile_hasId (hid.symm ▸ hadding.small) (hasId_initial _ _ _ _) hparse
  rw [hid] at hloaded
  rw [← (Prod.mk.inj heq).2]
  exact sound_storeDriver hadding hloaded hlost hcount success

/-- In every run of creations and additions that keep to the condition, the index is consistent. -/
theorem consistent_of_reachable {files : IndexFiles}
    (h : Reachable (· = noIndex) (GuardedStep step Keeps) files) : Consistent files := by
  have hsound : Sound files := by
    refine h.invariant ?_ ?_
    · rintro _ rfl
      exact sound_noIndex
    · rintro files next hfiles ⟨run, status, hkeeps, hstep⟩
      cases run with
      | create endianness opened headerWrite =>
        have hnext := (Prod.mk.inj (some.inj hstep)).2
        rw [← hnext]
        exact sound_createMode hfiles endianness opened headerWrite
      | add run => exact sound_addMode hfiles hkeeps hstep
  exact hsound.consistent

def Works (_files : IndexFiles) : ZRun → Prop
  | .create _ opened headerWrite => nIndexFiles ≤ opened ∧ headerWrite = .done
  | .add run =>
    run.idReadable = true ∧ run.idWrite = .done ∧ run.writes.driverData = none ∧
      (∃ n, run.writes.ranks = .ok n) ∧ (∃ n, run.writes.devices = .ok n) ∧
      (∃ n, run.writes.provisions = .ok n) ∧ run.writes.lists = none ∧
      run.writes.driverHeaderOpen = none ∧ run.writes.driverHeader = .done ∧
      run.countRead = none ∧ run.countWrite = .done

def allDone : DiskWrites := ⟨none, .ok 256, .ok 256, .ok 256, none, none, .done⟩

def additionOf (file : TextFile) : AddRun :=
  ⟨some file, .text, .driverProps, ⟨[], by decide⟩, true, .done, allDone, none, .done⟩

def emptyFile : TextFile := ⟨[], List.not_mem_nil⟩

def udiFile : TextFile := ⟨"requires udi 101\n".toList, by decide⟩

theorem additionOf_works (file : TextFile) (files : IndexFiles) :
    Works files (.add (additionOf file)) :=
  ⟨rfl, rfl, rfl, ⟨256, rfl⟩, ⟨256, rfl⟩, ⟨256, rfl⟩, rfl, rfl, rfl, rfl, rfl⟩

theorem addMode_emptyFile {files : IndexFiles} {header : Header}
    (hfiles : files.nFiles = nIndexFiles) (hheader : files.header = some header) :
    addMode (additionOf emptyFile) files =
      some (.noRequiresUdi, { files with
        header := some { header with nextDriverId := ubit32 (header.nextDriverId + 1) } }) := by
  unfold addMode
  rw [if_neg (by omega)]
  unfold getNextDriverId
  rw [hheader]
  rfl

def udiOutcome (driverId : Nat) : Option (Bool × Bool × Nat) :=
  (parseFile .driverProps .text udiFile
    ⟨initializeNewDriverState .driverProps ⟨[], by decide⟩ driverId false, [], [], []⟩).map
      fun result => (result.1, result.2.driver.hasRequiresUdi, result.2.driver.id)

theorem addMode_udiFile {files : IndexFiles} {header : Header} {id : Nat}
    (hfiles : files.nFiles = nIndexFiles) (hheader : files.header = some header)
    (hparse : udiOutcome header.nextDriverId = some (true, true, id)) :
    ∃ next header', addMode (additionOf udiFile) files = some (.success, next) ∧
      next.nFiles = nIndexFiles ∧ next.header = some header' ∧
      header'.nextDriverId = ubit32 (header.nextDriverId + 1) ∧
      next.drivers.map Driver.id = files.drivers.map Driver.id ++ [id] := by
  obtain ⟨⟨success, loaded⟩, hloaded, hresult⟩ := map_eq_some_iff.mp hparse
  simp only [Prod.mk.injEq] at hresult
  obtain ⟨rfl, hudi, hid⟩ := hresult
  unfold addMode
  rw [if_neg (by omega)]
  dsimp only [additionOf]
  unfold getNextDriverId
  rw [hheader]
  dsimp only
  rw [hloaded, map_some]
  unfold storeDriver
  rw [if_neg (show ¬true = false by decide), hudi, if_neg (show ¬true = false by decide)]
  refine ⟨_, _, rfl, hfiles, rfl, rfl, ?_⟩
  rw [← hid, ← map_singleton, ← map_append]
  rfl

structure Numbered (files : IndexFiles) (nextDriverId : Nat) (ids : List Nat) : Prop where
  reachable : Reachable (· = noIndex) (GuardedStep step Works) files
  nFiles : files.nFiles = nIndexFiles
  header : ∃ header, files.header = some header ∧ header.nextDriverId = nextDriverId
  drivers : files.drivers.map Driver.id = ids

theorem numbered_created : ∃ files, Numbered files 0 [] := by
  refine ⟨(createMode "le" 6 .done noIndex).2, ?_, rfl, ⟨_, rfl, rfl⟩, rfl⟩
  have hstart : Reachable (· = noIndex) (GuardedStep step Works) noIndex := reachable_of_init rfl
  exact hstart.tail ⟨.create "le" 6 .done, _, ⟨by decide, rfl⟩, rfl⟩

theorem Numbered.addEmpty {files : IndexFiles} {id : Nat} {ids : List Nat}
    (h : Numbered files id ids) (hid : id + 1 < 2 ^ 32) : ∃ next, Numbered next (id + 1) ids := by
  obtain ⟨header, hheader, hnextId⟩ := h.header
  have hadd := addMode_emptyFile h.nFiles hheader
  refine ⟨_, h.reachable.tail ⟨.add (additionOf emptyFile), _, additionOf_works _ _, hadd⟩,
    h.nFiles, ⟨_, rfl, ?_⟩, h.drivers⟩
  rw [hnextId]
  exact Nat.mod_eq_of_lt hid

theorem Numbered.addEmpties {files : IndexFiles} {id : Nat} {ids : List Nat}
    (h : Numbered files id ids) {n : Nat} (hn : id + n < 2 ^ 32) :
    ∃ next, Numbered next (id + n) ids := by
  induction n with
  | zero => exact ⟨files, h⟩
  | succ n ih =>
    obtain ⟨files', h'⟩ := ih (by omega)
    exact h'.addEmpty (by omega)

theorem Numbered.addUdi {files : IndexFiles} {id new : Nat} {ids : List Nat}
    (h : Numbered files id ids) (hid : id + 1 < 2 ^ 32)
    (hparse : udiOutcome id = some (true, true, new)) :
    ∃ next, Numbered next (id + 1) (ids ++ [new]) := by
  obtain ⟨header, hheader, rfl⟩ := h.header
  obtain ⟨next, header', hadd, hnFiles, hheader', hnextId, hdrivers⟩ :=
    addMode_udiFile h.nFiles hheader hparse
  refine ⟨next, h.reachable.tail ⟨.add (additionOf udiFile), _, additionOf_works _ _, hadd⟩,
    hnFiles, ⟨header', hheader', ?_⟩, ?_⟩
  · rw [hnextId]
    exact Nat.mod_eq_of_lt hid
  · rw [hdrivers, h.drivers]

/-- The first driver has the id 0, and so has the one that is added after 65535 others, although no
operation on the files fails. -/
theorem ids_repeat : ∃ files, Reachable (· = noIndex) (GuardedStep step Works) files ∧
    ¬Consistent files := by
  obtain ⟨_, hcreated⟩ := numbered_created
  obtain ⟨_, hfirst⟩ := @Numbered.addUdi _ 0 0 _ hcreated (by decide) (by decide +kernel)
  obtain ⟨_, hmany⟩ := @Numbered.addEmpties _ _ _ hfirst 65535 (by decide)
  obtain ⟨files, hlast⟩ := @Numbered.addUdi _ 65536 0 _ hmany (by decide) (by decide +kernel)
  refine ⟨files, hlast.reachable, ?_⟩
  intro hconsistent
  have hids := hconsistent.ids
  rw [hlast.drivers] at hids
  exact absurd hids (by decide)

def gioFile : TextFile := ⟨"requires udi 101\nprovides gio 257 1\nrank 3 bus_type\n".toList, by decide⟩

def isaFile : TextFile := ⟨"requires udi 101\ndevice 2 1 bus_type string isa\n".toList, by decide⟩

def gioAddition : AddRun := { additionOf gioFile with propsType := .metaProps }

def twoAdditions : List ZRun := [.create "le" 6 .done, .add gioAddition, .add (additionOf isaFile)]

/-- The ids of the drivers, and those in the device, rank and provision records. -/
def idsIn (files : IndexFiles) : List (List Nat) :=
  [files.drivers.map Driver.id, files.devices.map (·.2.driverId), files.ranks.map (·.2.driverId),
    files.provisions.map (·.2.driverId)]

theorem consistent_twoAdditions : ∃ statuses files,
    run step noIndex twoAdditions = some (statuses, files) ∧
      idsIn files = [[0, 1], [1], [0], [0]] ∧ Consistent files := by
  have hids : (run step noIndex twoAdditions).map (fun outcome => idsIn outcome.2) =
      some [[0, 1], [1], [0], [0]] := by
    decide +kernel
  obtain ⟨⟨statuses, files⟩, hrun, hfiles⟩ := map_eq_some_iff.mp hids
  refine ⟨statuses, files, hrun, hfiles, consistent_of_reachable ?_⟩
  refine reachable_of_run (reachable_of_init rfl) ?_ hrun
  refine (guarded_cons rfl).mpr ⟨trivial, ?_⟩
  have hsecond : (step (createMode "le" 6 .done noIndex).2 (.add gioAddition)).all (fun outcome =>
      outcome.2.header.all fun header => decide (header.nextDriverId < 2 ^ 16)) = true := by
    decide +kernel
  refine ⟨⟨?_, by decide, by decide, fun _ => ⟨rfl, rfl⟩⟩, fun _ next hnext =>
    ⟨⟨?_, by decide, by decide, fun _ => ⟨rfl, rfl⟩⟩, fun _ _ _ => trivial⟩⟩
  · rintro header ⟨⟩
    exact (by decide : 0 < 2 ^ 16)
  · intro header hheader
    rw [show step (createMode "le" 6 .done noIndex).2 _ = _ from hnext] at hsecond
    simpa [hheader] using hsecond

end Zambesii.IndexRuns
