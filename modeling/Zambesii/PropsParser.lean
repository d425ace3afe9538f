import Zambesii.PropsText
import Zambesii.Runs

/-!
The parser of `zudiindex`: one line of a `udiprops` file at a time, each a statement about the
current driver. A store beyond the end of an array is not defined.
-/

namespace Zambesii.PropsParser

open List Option PropsText Runs

def maxNRequirements : Nat := 16
def maxNMetalanguages : Nat := 16
def maxNChildBops : Nat := 12
def maxNParentBops : Nat := 8
def maxNInternalBops : Nat := 24
def maxNModules : Nat := 16
def deviceMaxNAttrs : Nat := 20
def rankMaxNAttrs : Nat := deviceMaxNAttrs

def messageMaxlen : Nat := 150
def filenameMaxlen : Nat := 64
def shortnameMaxlen : Nat := 16
def releaseMaxlen : Nat := 32
def basePathMaxlen : Nat := 128
def metalanguageMaxlen : Nat := 32
def requirementMaxlen : Nat := metalanguageMaxlen
def provisionNameMaxlen : Nat := metalanguageMaxlen
def maxAttrNamelen : Nat := 32
def maxAttrSize : Nat := 64

inductive PropsType
  | driverProps
  | metaProps
deriving DecidableEq

structure Requirement where
  name : BoundedText requirementMaxlen
  version : Nat
deriving DecidableEq

structure Metalanguage where
  index : Nat
  name : BoundedText metalanguageMaxlen
deriving DecidableEq

structure ChildBop where
  metaIndex : Nat
  regionIndex : Nat
  opsIndex : Nat
deriving DecidableEq

structure ParentBop where
  metaIndex : Nat
  regionIndex : Nat
  opsIndex : Nat
  bindCbIndex : Nat
deriving DecidableEq

structure InternalBop where
  metaIndex : Nat
  regionIndex : Nat
  opsIndex0 : Nat
  opsIndex1 : Nat
  bindCbIndex : Nat
deriving DecidableEq

structure Module where
  index : Nat
  fileName : BoundedText filenameMaxlen
deriving DecidableEq

structure Driver where
  id : Nat
  type : PropsType
  nameIndex : Nat
  supplierIndex : Nat
  contactIndex : Nat
  categoryIndex : Nat
  shortName : Text
  releaseString : Text
  releaseStringIndex : Nat
  requiredUdiVersion : Nat
  basePath : BoundedText basePathMaxlen
  nMessages : Nat
  nDisasterMessages : Nat
  nMessageFiles : Nat
  nReadableFiles : Nat
  nRegions : Nat
  nDevices : Nat
  nRanks : Nat
  nProvisions : Nat
  requirements : Entries Requirement maxNRequirements
  metalanguages : Entries Metalanguage maxNMetalanguages
  childBops : Entries ChildBop maxNChildBops
  parentBops : Entries ParentBop maxNParentBops
  internalBops : Entries InternalBop maxNInternalBops
  modules : Entries Module maxNModules
  hasRequiresUdi : Bool
deriving DecidableEq

structure Message where
  driverId : Nat
  index : Nat
  message : BoundedText messageMaxlen
deriving DecidableEq

structure NamedFile where
  driverId : Nat
  index : Nat
  fileName : BoundedText filenameMaxlen
deriving DecidableEq

inductive RegionPriority
  | low
  | medium
  | high
deriving DecidableEq

structure Region where
  driverId : Nat
  index : Nat
  moduleIndex : Nat
  priority : RegionPriority
  fp : Bool
  dynamic : Bool
  interrupt : Bool
deriving DecidableEq

inductive AttrValue
  | string (value : BoundedText maxAttrSize)
  | array8 (bytes : List Nat)
  | ubit32 (value : Nat)
  | boolean (value : Bool)
deriving DecidableEq

structure AttrData where
  attrName : BoundedText maxAttrNamelen
  attrValue : AttrValue
deriving DecidableEq

structure Device where
  driverId : Nat
  index : Nat
  messageIndex : Nat
  metaIndex : Nat
  attrs : Entries AttrData deviceMaxNAttrs
deriving DecidableEq

structure Provision where
  driverId : Nat
  version : Nat
  name : BoundedText provisionNameMaxlen
deriving DecidableEq

structure Rank where
  driverId : Nat
  rank : Nat
  attrs : Entries (BoundedText maxAttrNamelen) rankMaxNAttrs
deriving DecidableEq

inductive Parsed
  | message (message : Message)
  | disasterMessage (message : Message)
  | messageFile (file : NamedFile)
  | readableFile (file : NamedFile)
  | region (region : Region)
  | device (device : Device)
  | provision (provision : Provision)
  | rank (rank : Rank)
deriving DecidableEq

def Parsed.driverId : Parsed → Nat
  | .message item => item.driverId
  | .disasterMessage item => item.driverId
  | .messageFile item => item.driverId
  | .readableFile item => item.driverId
  | .region item => item.driverId
  | .device item => item.driverId
  | .provision item => item.driverId
  | .rank item => item.driverId

/-- The values of `parser_lineTypeE` that the parser returns. -/
inductive LineType
  | unknown
  | invalid
  | misc
  | driver
  | region
  | device
  | message
  | disasterMessage
  | messageFile
  | childBops
  | internalBops
  | parentBops
  | metalanguage
  | rank
  | provides
deriving DecidableEq

def ubit8 (value : Nat) : Nat := value % 2 ^ 8
def ubit16 (value : Nat) : Nat := value % 2 ^ 16
def ubit32 (value : Nat) : Nat := value % 2 ^ 32

/-- A number of the width of its field, for which nothing may have been converted, and the text
after it. -/
def readNumber (width : Nat → Nat) (base : Nat) (line : Text) : Option (Nat × Text) :=
  let line := skipWhitespaceIn line
  let number := strtoul line base
  if line = number.2 then none else some (width number.1, number.2)

def readNonzero (width : Nat → Nat) (line : Text) : Option (Nat × Text) :=
  let number := strtoul (skipWhitespaceIn line) 10
  if width number.1 = 0 then none else some (width number.1, number.2)

def readName (size : Nat) (line : Text) : Option (BoundedText size) :=
  boundedText size (strcpyUpToWhitespace line (findWhitespaceAfter line))

def readNameThen (size : Nat) (line : Text) : Option (BoundedText size × Text) := do
  let white ← findWhitespaceAfter line
  let name ← readName size line
  some (name, skipWhitespaceIn white)

def readFileName (line : Text) : Option (BoundedText filenameMaxlen) :=
  boundedText filenameMaxlen (skipWhitespaceIn line)

def readChildBop (line : Text) : Option ChildBop := do
  let (metaIndex, line) ← readNonzero ubit16 line
  let (regionIndex, line) ← readNumber ubit16 10 line
  let (opsIndex, _) ← readNonzero ubit16 line
  some ⟨metaIndex, regionIndex, opsIndex⟩

def readParentBop (line : Text) : Option ParentBop := do
  let (metaIndex, line) ← readNonzero ubit16 line
  let (regionIndex, line) ← readNumber ubit16 10 line
  let (opsIndex, line) ← readNonzero ubit16 line
  let (bindCbIndex, _) ← readNumber ubit16 10 line
  some ⟨metaIndex, regionIndex, opsIndex, bindCbIndex⟩

def readInternalBop (line : Text) : Option InternalBop := do
  let (metaIndex, line) ← readNonzero ubit16 line
  let (regionIndex, line) ← readNonzero ubit16 line
  let (opsIndex0, line) ← readNonzero ubit16 line
  let (opsIndex1, line) ← readNonzero ubit16 line
  let (bindCbIndex, _) ← readNumber ubit16 10 line
  some ⟨metaIndex, regionIndex, opsIndex0, opsIndex1, bindCbIndex⟩

def readMetalanguage (line : Text) : Option Metalanguage := do
  let (index, line) ← readNonzero ubit16 line
  let name ← readName metalanguageMaxlen (skipWhitespaceIn line)
  some ⟨index, name⟩

def readRequirement (line : Text) : Option Requirement := do
  let (name, line) ← readNameThen requirementMaxlen (skipWhitespaceIn line)
  let (version, _) ← readNumber ubit32 16 line
  some ⟨name, version⟩

def readMessage (driver : Driver) (line : Text) : Option Message := do
  let (index, line) ← readNonzero ubit16 line
  let message ← boundedText messageMaxlen (skipWhitespaceIn line)
  some ⟨driver.id, index, message⟩

def readFile (driverId index : Nat) (line : Text) : Option NamedFile := do
  let fileName ← readFileName line
  if hasSlashes fileName.text then none else some ⟨driverId, index, fileName⟩

def findKeyword {α : Type} (table : List (String × α)) (line : Text) : Option (String × α) :=
  table.find? fun entry => startsWith entry.1 line

def regionAttributes : List (String × List (String × (Region → Region))) :=
  [("type", [("normal", id), ("fp", fun region => { region with fp := true }),
      ("interrupt", fun region => { region with interrupt := true })]),
    ("binding", [("static", id), ("dynamic", fun region => { region with dynamic := true })]),
    ("priority", [("lo", fun region => { region with priority := .low }),
      ("med", fun region => { region with priority := .medium }),
      ("hi", fun region => { region with priority := .high })]),
    -- These two are ignored, whatever their value.
    ("latency", [("", id)]), ("overrun_time", [("", id)])]

def parseRegionAttribute (region : Region) (line : Text) : Option (Region × Text) := do
  let attr ← findKeyword regionAttributes line
  let white ← findWhitespaceAfter line
  let value ← findKeyword attr.2 (skipWhitespaceIn white)
  some (value.2 region, afterWord (skipWhitespaceIn white))

theorem parseRegionAttribute_length {region region' : Region} {line rest : Text}
    (h : parseRegionAttribute region line = some (region', rest)) :
    (skipWhitespaceIn rest).length < line.length := by
  simp only [parseRegionAttribute, bind_eq_bind, bind_eq_some_iff,
    some.injEq, Prod.mk.injEq] at h
  obtain ⟨_, -, white, hwhite, _, -, -, rfl⟩ := h
  calc (skipWhitespaceIn (afterWord (skipWhitespaceIn white))).length
      ≤ (afterWord (skipWhitespaceIn white)).length := skipWhitespaceIn_length_le _
    _ ≤ (skipWhitespaceIn white).length := afterWord_length_le _
    _ < line.length := length_skip_of_findWhitespaceAfter hwhite

/-- The loop of `parseRegion`, on a line that is not empty. -/
def regionLoop (region : Region) (line : Text) : Option Region :=
  match _h : parseRegionAttribute region line with
  | none => none
  | some (region', rest) =>
    if skipWhitespaceIn rest = [] then some region'
    else regionLoop region' (skipWhitespaceIn rest)
termination_by line.length
decreasing_by exact parseRegionAttribute_length _h

def hexBytes : Text → Option (List Nat)
  | high :: low :: digits => do
      let high ← digitBelow 16 high
      let low ← digitBelow 16 low
      let bytes ← hexBytes digits
      some ((high * 16 + low) :: bytes)
  | [_] => none
  | [] => some []

def stringValue (line : Text) : Option (AttrValue × Text) := do
  let value ← readName maxAttrSize line
  some (.string value, afterWord line)

def ubit32Value (line : Text) : Option (AttrValue × Text) :=
  let number := strtoul line 0
  if line = number.2 then none else some (.ubit32 (ubit32 number.1), afterWord line)

def booleanValue : Text → Option (AttrValue × Text)
  | [] => none
  | c :: line =>
    if c = 't' || c = 'T' then some (.boolean true, line)
    else if c = 'f' || c = 'F' then some (.boolean false, line)
    else none

def arrayValue (line : Text) : Option (AttrValue × Text) :=
  let digits := strcpyUpToWhitespace line (findWhitespaceAfter line)
  if maxAttrSize < digits.length then none
  else (hexBytes digits).map fun bytes => (.array8 bytes, afterWord line)

def attributeTypes : List (String × (Text → Option (AttrValue × Text))) :=
  [("string", stringValue), ("ubit32", ubit32Value), ("boolean", booleanValue),
    ("array", arrayValue)]

def readAttrValue (line : Text) : Option (AttrValue × Text) := do
  let white ← findWhitespaceAfter line
  let type ← findKeyword attributeTypes line
  type.2 (skipWhitespaceIn white)

/-- The loop of `parseDevice` with `parseDeviceAttribute`, on a line that is not empty, for a device
that has this number of free entries. The name is stored first. -/
def deviceLoop : (free : Nat) → Text → Option (Option (Entries AttrData free))
  | 0, line =>
    match readNameThen maxAttrNamelen line with
    | none => some none
    | some _ => none
  | free + 1, line =>
    match readNameThen maxAttrNamelen line with
    | none => some none
    | some (name, line) =>
      match readAttrValue line with
      | none => some none
      | some (value, rest) =>
        if skipWhitespaceIn rest = [] then some (some (.cons ⟨name, value⟩ .empty))
        else (deviceLoop free (skipWhitespaceIn rest)).map
          (Option.map (.cons ⟨name, value⟩))

/-- The loop of `parseRank` with `parseRankAttribute`, for a rank that has this number of free
entries. -/
def rankLoop : (free : Nat) → Text → Option (Entries (BoundedText maxAttrNamelen) free)
  | 0, _ => none
  | free + 1, line => do
      let name ← readName maxAttrNamelen line
      match (findWhitespaceAfter line).map skipWhitespaceIn with
      | none | some [] => some (.cons name .empty)
      | some (c :: rest) => (rankLoop free (c :: rest)).map (.cons name)

/-- A handler that stores to the next entry of an array when its test of the limit passes. The first
field is stored before the statement has been read. -/
def parseEntry {α : Type} {capacity : Nat} (limitExceeded : Bool) (entries : Entries α capacity)
    (entry : Option α) (put : Entries α capacity → Driver) (driver : Driver) :
    Option (Bool × Driver) :=
  if limitExceeded then some (false, driver)
  else
    entries.slot.map fun append =>
      match entry with
      | none => (false, driver)
      | some entry => (true, put (append entry))

def parseRequires (driver : Driver) (line : Text) : Option (Bool × Driver) :=
  if driver.requirements.full then some (false, driver)
  else
    driver.requirements.slot.map fun append =>
      match readRequirement line with
      | none => (false, driver)
      | some requirement =>
        -- The requirement of UDI is not counted as an entry.
        if requirement.name.text = "udi".toList then
          (true, { driver with
            hasRequiresUdi := true, requiredUdiVersion := requirement.version })
        else (true, { driver with requirements := append requirement })

def parseMeta (driver : Driver) (line : Text) : Option (Bool × Driver) :=
  parseEntry (maxNMetalanguages ≤ driver.metalanguages.items.length) driver.metalanguages
    (readMetalanguage line) (fun entries => { driver with metalanguages := entries }) driver

def parseChildBops (driver : Driver) (line : Text) : Option (Bool × Driver) :=
  parseEntry (maxNChildBops ≤ driver.childBops.items.length) driver.childBops
    (readChildBop line) (fun entries => { driver with childBops := entries }) driver

def parseParentBops (driver : Driver) (line : Text) : Option (Bool × Driver) :=
  parseEntry (maxNParentBops ≤ driver.childBops.items.length) driver.parentBops
    (readParentBop line) (fun entries => { driver with parentBops := entries }) driver

/-- The test is of the number of child bind ops, and of the limit of the parent bind ops. -/
def parseInternalBops (driver : Driver) (line : Text) : Option (Bool × Driver) :=
  parseEntry (maxNParentBops ≤ driver.childBops.items.length) driver.internalBops
    (readInternalBop line) (fun entries => { driver with internalBops := entries }) driver

def parseModule (driver : Driver) (line : Text) : Option (Bool × Driver) :=
  parseEntry (maxNModules ≤ driver.modules.items.length) driver.modules
    ((readFileName line).map fun fileName => ⟨driver.modules.items.length, fileName⟩)
    (fun entries => { driver with modules := entries }) driver

/-- A handler that stores an index of a message to the header, where 0 is not allowed. -/
def parseIndex (width : Nat → Nat) (put : Nat → Driver) (line : Text) : Bool × Driver :=
  let index := width (strtoul (skipWhitespaceIn line) 10).1
  (decide (index ≠ 0), put index)

def parseSupplier (driver : Driver) (line : Text) : Bool × Driver :=
  parseIndex ubit16 (fun index => { driver with supplierIndex := index }) line

def parseContact (driver : Driver) (line : Text) : Bool × Driver :=
  parseIndex ubit16 (fun index => { driver with contactIndex := index }) line

def parseName (driver : Driver) (line : Text) : Bool × Driver :=
  parseIndex ubit16 (fun index => { driver with nameIndex := index }) line

def parseCategory (driver : Driver) (line : Text) : Bool × Driver :=
  parseIndex ubit16 (fun index => { driver with categoryIndex := index }) line

def parseShortName (driver : Driver) (line : Text) : Bool × Driver :=
  match readName shortnameMaxlen (skipWhitespaceIn line) with
  | none => (false, driver)
  | some name => (true, { driver with shortName := name.text })

/-- The index of the release string is a `char`. -/
def parseRelease (driver : Driver) (line : Text) : Bool × Driver :=
  let number := strtoul (skipWhitespaceIn line) 10
  let driver := { driver with releaseStringIndex := ubit8 number.1 }
  if ubit8 number.1 = 0 then (false, driver)
  else
    match readName releaseMaxlen (skipWhitespaceIn number.2) with
    | none => (false, driver)
    | some release => (true, { driver with releaseString := release.text })

def parseMessage (driver : Driver) (line : Text) : Option (Parsed × Driver) :=
  (readMessage driver line).map fun message =>
    (.message message, { driver with nMessages := ubit8 (driver.nMessages + 1) })

def parseDisasterMessage (driver : Driver) (line : Text) : Option (Parsed × Driver) :=
  (readMessage driver line).map fun message =>
    (.disasterMessage message,
      { driver with nDisasterMessages := ubit8 (driver.nDisasterMessages + 1) })

def parseMessageFile (driver : Driver) (line : Text) : Option (Parsed × Driver) :=
  (readFile driver.id driver.nMessageFiles line).map fun file =>
    (.messageFile file, { driver with nMessageFiles := ubit8 (driver.nMessageFiles + 1) })

def parseReadableFile (driver : Driver) (line : Text) : Option (Parsed × Driver) :=
  (readFile (ubit16 driver.id) driver.nReadableFiles line).map fun file =>
    (.readableFile file, { driver with nReadableFiles := ubit8 (driver.nReadableFiles + 1) })

def parseRegionAttributes (region : Region) : Text → Option Region
  | [] => some region
  | c :: line => regionLoop region (c :: line)

def parseRegion (driver : Driver) (line : Text) : Option (Parsed × Driver) :=
  if driver.modules.items = [] then none
  else do
    let (index, line) ← readNumber ubit16 10 line
    let region ← parseRegionAttributes
      ⟨driver.id, index, driver.modules.items.length - 1, .low, false, false, false⟩
      (skipWhitespaceIn line)
    some (.region region, { driver with nRegions := ubit8 (driver.nRegions + 1) })

def readDevice (line : Text) : Option (Nat × Nat × Text) := do
  let (messageIndex, line) ← readNonzero ubit16 line
  let (metaIndex, line) ← readNonzero ubit16 line
  some (messageIndex, metaIndex, skipWhitespaceIn line)

def deviceAttributes : Text → Option (Option (Entries AttrData deviceMaxNAttrs))
  | [] => some (some .empty)
  | c :: line => deviceLoop deviceMaxNAttrs (c :: line)

def parseDevice (driver : Driver) (line : Text) : Option (Option (Parsed × Driver)) :=
  match readDevice line with
  | none => some none
  | some (messageIndex, metaIndex, line) =>
    (deviceAttributes line).map (Option.map fun attrs =>
      (.device ⟨driver.id, driver.nDevices, messageIndex, metaIndex, attrs⟩,
        { driver with nDevices := ubit8 (driver.nDevices + 1) }))

def parseProvides (driver : Driver) (line : Text) : Option (Parsed × Driver) := do
  let (name, line) ← readNameThen provisionNameMaxlen (skipWhitespaceIn line)
  let (version, _) ← readNumber ubit32 0 line
  some (.provision ⟨driver.id, version, name⟩,
    { driver with nProvisions := ubit8 (driver.nProvisions + 1) })

def readRank (line : Text) : Option (Nat × Text) := do
  let (rank, _) ← readNonzero ubit8 line
  let white ← findWhitespaceAfter (skipWhitespaceIn line)
  some (rank, skipWhitespaceIn white)

def parseRank (driver : Driver) (line : Text) : Option (Parsed × Driver) := do
  let (rank, line) ← readRank line
  let attrs ← rankLoop rankMaxNAttrs line
  some (.rank ⟨driver.id, rank, attrs⟩, { driver with nRanks := ubit8 (driver.nRanks + 1) })

inductive Statement
  | messageFile
  | message
  | requires
  | misc
  | module
  | disasterMessage
  | release
  | name
  | contact
  | supplier
  | shortname
  | internalBindOps
  | parentBindOps
  | childBindOps
  | metalanguage
  | device
  | region
  | readableFile
  | provides
  | category
  | rank
deriving DecidableEq

def commonKeywords : List (String × Statement) :=
  [("message_file", .messageFile), ("message", .message), ("requires", .requires),
    ("pio_serialization_limit", .misc), ("compile_options", .misc), ("source_files", .misc),
    ("source_requires", .misc), ("module", .module), ("disaster_message", .disasterMessage),
    ("locale", .misc), ("release", .release), ("name", .name), ("contact", .contact),
    ("properties_version", .misc), ("supplier", .supplier), ("shortname", .shortname),
    ("source_requires", .misc)]

def driverKeywords : List (String × Statement) :=
  [("multi_parent", .misc), ("enumerates", .misc), ("internal_bind_ops", .internalBindOps),
    ("parent_bind_ops", .parentBindOps), ("child_bind_ops", .childBindOps),
    ("meta", .metalanguage), ("device", .device), ("region", .region),
    ("readable_file", .readableFile), ("custom", .misc), ("config_choices", .misc)]

def metaKeywords : List (String × Statement) :=
  [("provides", .provides), ("symbols", .misc), ("category", .category), ("rank", .rank)]

def keywords : PropsType → List (String × Statement)
  | .driverProps => commonKeywords ++ driverKeywords
  | .metaProps => commonKeywords ++ metaKeywords

def statementOf (propsType : PropsType) (line : Text) : Option (Statement × Text) :=
  (findKeyword (keywords propsType) line).map fun entry => (entry.2, line.drop entry.1.length)

def flagAnswer (lineType : LineType) (result : Bool × Driver) :
    (LineType × Option Parsed) × Driver :=
  ((if result.1 then lineType else .invalid, none), result.2)

def objectAnswer (lineType : LineType) (driver : Driver) :
    Option (Parsed × Driver) → (LineType × Option Parsed) × Driver
  | none => ((.invalid, none), driver)
  | some (parsed, driver) => ((lineType, some parsed), driver)

def parseStatement (driver : Driver) (line : Text) :
    Statement → Option ((LineType × Option Parsed) × Driver)
  | .messageFile => some (objectAnswer .messageFile driver (parseMessageFile driver line))
  | .message => some (objectAnswer .message driver (parseMessage driver line))
  | .requires => (parseRequires driver line).map (flagAnswer .driver)
  | .misc => some ((.misc, none), driver)
  | .module => (parseModule driver line).map (flagAnswer .driver)
  | .disasterMessage =>
    some (objectAnswer .disasterMessage driver (parseDisasterMessage driver line))
  | .release => some (flagAnswer .driver (parseRelease driver line))
  | .name => some (flagAnswer .driver (parseName driver line))
  | .contact => some (flagAnswer .driver (parseContact driver line))
  | .supplier => some (flagAnswer .driver (parseSupplier driver line))
  | .shortname => some (flagAnswer .driver (parseShortName driver line))
  | .internalBindOps => (parseInternalBops driver line).map (flagAnswer .internalBops)
  | .parentBindOps => (parseParentBops driver line).map (flagAnswer .parentBops)
  | .childBindOps => (parseChildBops driver line).map (flagAnswer .childBops)
  | .metalanguage => (parseMeta driver line).map (flagAnswer .metalanguage)
  | .device => (parseDevice driver line).map (objectAnswer .device driver)
  | .region => some (objectAnswer .region driver (parseRegion driver line))
  -- A readable file is announced as a disaster message.
  | .readableFile => some (objectAnswer .disasterMessage driver (parseReadableFile driver line))
  | .provides => some (objectAnswer .provides driver (parseProvides driver line))
  | .category => some (flagAnswer .driver (parseCategory driver line))
  | .rank => some (objectAnswer .rank driver (parseRank driver line))

/-- `parser_parseLine` for a driver that has been initialized: the type of the line with what is
handed out, and the driver after it. -/
def parseLine (propsType : PropsType) (driver : Driver) (bytes : Text) :
    Option ((LineType × Option Parsed) × Driver) :=
  match skipWhitespaceIn (cString bytes) with
  | [] => some ((.misc, none), driver)
  | c :: line =>
    match statementOf propsType (c :: line) with
    | none => some ((.unknown, none), driver)
    | some (statement, line) => parseStatement driver line statement

/-- `parser_initializeNewDriverState`, whose argument has 16 bits. -/
def initializeNewDriverState (propsType : PropsType) (basePath : BoundedText basePathMaxlen)
    (driverId : Nat) (hasRequiresUdi : Bool) : Driver where
  id := ubit16 driverId
  type := propsType
  nameIndex := 0
  supplierIndex := 0
  contactIndex := 0
  categoryIndex := 0
  shortName := []
  releaseString := []
  releaseStringIndex := 0
  requiredUdiVersion := 0
  basePath := basePath
  nMessages := 0
  nDisasterMessages := 0
  nMessageFiles := 0
  nReadableFiles := 0
  nRegions := 0
  nDevices := 0
  nRanks := 0
  nProvisions := 0
  requirements := .empty
  metalanguages := .empty
  childBops := .empty
  parentBops := .empty
  internalBops := .empty
  modules := .empty
  hasRequiresUdi := hasRequiresUdi

def afterAttribute (line : Text) : Option Text := do
  let (_, line) ← readNameThen maxAttrNamelen line
  let (_, rest) ← readAttrValue line
  some (skipWhitespaceIn rest)

def afterRankAttribute (line : Text) : Option Text :=
  (findWhitespaceAfter line).map skipWhitespaceIn

def Exceeds (driver : Driver) (line : Text) : Statement → Prop
  | .requires => driver.requirements.full
  | .metalanguage => driver.metalanguages.full
  | .childBindOps => driver.childBops.full
  | .parentBindOps => driver.parentBops.full
  | .internalBindOps => driver.internalBops.full
  | .module => driver.modules.full
  | .device => ∃ messageIndex metaIndex attrs,
      readDevice line = some (messageIndex, metaIndex, attrs) ∧
        MoreThan afterAttribute deviceMaxNAttrs attrs
  | .rank => ∃ rank attrs, readRank line = some (rank, attrs) ∧
      MoreThan afterRankAttribute rankMaxNAttrs attrs
  | _ => False

def Rejects (propsType : PropsType) (driver : Driver) (bytes : Text)
    (answer : LineType × Option Parsed) (_next : Driver) : Prop :=
  ∀ statement line, statementOf propsType (skipWhitespaceIn (cString bytes)) =
      some (statement, line) → Exceeds driver line statement → answer.1 = .invalid

/-- The array that a statement fills has a free entry, or the test that is made instead of the right
one rejects the statement. -/
def HasRoom (driver : Driver) (line : Text) : Statement → Prop
  | .parentBindOps =>
    maxNParentBops ≤ driver.childBops.items.length ∨ ¬driver.parentBops.full
  | .internalBindOps =>
    maxNParentBops ≤ driver.childBops.items.length ∨ ¬driver.internalBops.full
  -- After as many attributes as there are entries, no further one starts with a right name.
  | .device => ∀ messageIndex metaIndex attrs rest,
      readDevice line = some (messageIndex, metaIndex, attrs) →
        restAfter afterAttribute deviceMaxNAttrs attrs = some rest →
          readNameThen maxAttrNamelen rest = none
  | _ => True

def LineHasRoom (propsType : PropsType) (driver : Driver) (bytes : Text) : Prop :=
  ∀ statement line, statementOf propsType (skipWhitespaceIn (cString bytes)) =
      some (statement, line) → HasRoom driver line statement

section

variable {α : Type} {capacity : Nat}

theorem parseEntry_of_room {limitExceeded : Bool} {entries : Entries α capacity}
    (h : limitExceeded = true ∨ ¬entries.full) (entry : Option α)
    (put : Entries α capacity → Driver) (driver : Driver) :
    ∃ result, parseEntry limitExceeded entries entry put driver = some result ∧
      (entries.full → result.1 = false) := by
  unfold parseEntry
  split
  · exact ⟨_, rfl, fun _ => rfl⟩
  rename_i hlimit
  have hroom := h.resolve_left hlimit
  obtain ⟨append, happend⟩ := Entries.exists_slot_of_not_full hroom
  rw [happend]
  exact ⟨_, rfl, fun hfull => absurd hfull hroom⟩

theorem parseEntry_of_full {limitExceeded : Bool} {entries : Entries α capacity}
    (hlimit : limitExceeded = false) (hfull : entries.full) (entry : Option α)
    (put : Entries α capacity → Driver) (driver : Driver) :
    parseEntry limitExceeded entries entry put driver = none := by
  unfold parseEntry
  rw [hlimit, Entries.slot_of_full hfull]
  rfl

theorem ownLimit (entries : Entries α capacity) :
    decide (capacity ≤ entries.items.length) = true ∨ ¬entries.full := by
  rcases em entries.full with hfull | hroom
  · exact .inl (decide_eq_true hfull)
  · exact .inr hroom

theorem parseRequires_rejects (driver : Driver) (line : Text) :
    ∃ result, parseRequires driver line = some result ∧
      (driver.requirements.full → result.1 = false) := by
  unfold parseRequires
  split
  · exact ⟨_, rfl, fun _ => rfl⟩
  · rename_i hroom
    obtain ⟨append, happend⟩ := Entries.exists_slot_of_not_full hroom
    rw [happend]
    exact ⟨_, rfl, fun hfull => absurd hfull hroom⟩

end

section

theorem afterAttribute_nil : afterAttribute [] = none := rfl

theorem afterRankAttribute_nil : afterRankAttribute [] = none := rfl

variable {free : Nat} {line : Text}

theorem restAfter_afterAttribute_nil {rest : Text}
    (h : restAfter afterAttribute free [] = some rest) : rest = [] := by
  cases free with
  | zero => exact (some.inj h).symm
  | succ free => cases h

theorem deviceLoop_succ (free : Nat) {rest : Text} (h : afterAttribute line = some rest) :
    ∃ attr, deviceLoop (free + 1) line =
      if rest = [] then some (some (.cons attr .empty))
      else (deviceLoop free rest).map (Option.map (.cons attr)) := by
  simp only [afterAttribute, bind_eq_bind, bind_eq_some_iff, some.injEq,
    Prod.exists] at h
  obtain ⟨name, line', hname, value, rest', hvalue, rfl⟩ := h
  refine ⟨⟨name, value⟩, ?_⟩
  simp only [deviceLoop, hname, hvalue]

theorem deviceLoop_of_wrong (h : afterAttribute line = none) :
    deviceLoop (free + 1) line = some none := by
  unfold deviceLoop
  cases hname : readNameThen maxAttrNamelen line with
  | none => rfl
  | some name =>
    cases hvalue : readAttrValue name.2 with
    | none => simp only [hvalue]
    | some value => simp [afterAttribute, hname, hvalue] at h

theorem deviceLoop_eq_none_iff : deviceLoop free line = none ↔
      ∃ rest, restAfter afterAttribute free line = some rest ∧
        readNameThen maxAttrNamelen rest ≠ none := by
  induction free generalizing line with
  | zero =>
    unfold deviceLoop restAfter
    cases hname : readNameThen maxAttrNamelen line with
    | none => simp [hname]
    | some name => simp [hname]
  | succ free ih =>
    cases hafter : afterAttribute line with
    | none => simp [deviceLoop_of_wrong hafter, restAfter, hafter]
    | some rest =>
      obtain ⟨attr, hloop⟩ := deviceLoop_succ free hafter
      rw [hloop, restAfter, hafter, bind_some]
      split
      · rename_i hrest
        subst hrest
        constructor
        · intro h
          cases h
        · rintro ⟨rest, hrest, hname⟩
          rw [restAfter_afterAttribute_nil hrest] at hname
          exact absurd rfl hname
      · rw [map_eq_none_iff]
        exact ih

theorem deviceLoop_of_moreThan (h : MoreThan afterAttribute free line)
    (attrs : Entries AttrData free) : deviceLoop free line ≠ some (some attrs) := by
  induction free generalizing line with
  | zero =>
    intro hloop
    unfold deviceLoop at hloop
    split at hloop <;> cases hloop
  | succ free ih =>
    obtain ⟨rest, hafter, hmore⟩ := moreThan_succ.mp h
    obtain ⟨attr, hloop⟩ := deviceLoop_succ free hafter
    intro hattrs
    rw [hloop] at hattrs
    split at hattrs
    · rename_i hrest
      exact not_moreThan_nil afterAttribute_nil free (hrest ▸ hmore)
    · obtain ⟨attrs', hattrs', hcons⟩ := map_eq_some_iff.mp hattrs
      obtain ⟨attrs'', rfl, -⟩ := map_eq_some_iff.mp hcons
      exact ih hmore attrs'' hattrs'

theorem rankLoop_of_moreThan (h : MoreThan afterRankAttribute free line) :
    rankLoop free line = none := by
  induction free generalizing line with
  | zero => rfl
  | succ free ih =>
    obtain ⟨rest, hafter, hmore⟩ := moreThan_succ.mp h
    unfold rankLoop
    cases readName maxAttrNamelen line with
    | none => rfl
    | some name =>
      unfold afterRankAttribute at hafter
      rw [hafter]
      cases rest with
      | nil => exact absurd hmore (not_moreThan_nil afterRankAttribute_nil free)
      | cons c rest =>
        dsimp only
        rw [ih hmore]
        rfl

end

section

theorem flagAnswer_rejects {α : Type} {capacity : Nat} {entries : Entries α capacity}
    {result : Option (Bool × Driver)} {lineType : LineType}
    (h : ∃ flag, result = some flag ∧ (entries.full → flag.1 = false)) :
    ∃ answer next, result.map (flagAnswer lineType) = some (answer, next) ∧
      (entries.full → answer.1 = .invalid) := by
  obtain ⟨flag, rfl, hflag⟩ := h
  refine ⟨_, _, rfl, ?_⟩
  intro hfull
  rw [if_neg]
  rw [hflag hfull]
  exact Bool.false_ne_true

variable {driver : Driver} {line : Text}

theorem parseDevice_of_wrong (h : readDevice line = none) :
    parseDevice driver line = some none := by
  unfold parseDevice
  rw [h]

theorem parseDevice_eq {attrs : Text} {messageIndex metaIndex : Nat}
    (h : readDevice line = some (messageIndex, metaIndex, attrs)) :
    parseDevice driver line = (deviceAttributes attrs).map (Option.map fun attrs =>
      (.device ⟨driver.id, driver.nDevices, messageIndex, metaIndex, attrs⟩,
        { driver with nDevices := ubit8 (driver.nDevices + 1) })) := by
  unfold parseDevice
  rw [h]

theorem deviceAttributes_of_moreThan (h : MoreThan afterAttribute deviceMaxNAttrs line)
    (attrs : Entries AttrData deviceMaxNAttrs) : deviceAttributes line ≠ some (some attrs) := by
  cases line with
  | nil => exact absurd h (not_moreThan_nil afterAttribute_nil _)
  | cons c line => exact deviceLoop_of_moreThan h attrs

theorem deviceAttributes_eq_none_iff : deviceAttributes line = none ↔
      ∃ rest, restAfter afterAttribute deviceMaxNAttrs line = some rest ∧
        readNameThen maxAttrNamelen rest ≠ none := by
  cases line with
  | nil =>
    constructor
    · intro h
      cases h
    · rintro ⟨rest, hrest, hname⟩
      rw [restAfter_afterAttribute_nil hrest] at hname
      exact absurd rfl hname
  | cons c line => exact deviceLoop_eq_none_iff

theorem parseDevice_of_room (h : HasRoom driver line .device) :
    ∃ answer next, (parseDevice driver line).map (objectAnswer .device driver) =
      some (answer, next) ∧ (Exceeds driver line .device → answer.1 = .invalid) := by
  cases hread : readDevice line with
  | none =>
    rw [parseDevice_of_wrong hread]
    exact ⟨_, _, rfl, fun _ => rfl⟩
  | some device =>
    obtain ⟨messageIndex, metaIndex, attrs⟩ := device
    rw [parseDevice_eq hread]
    rcases hattrs : deviceAttributes attrs with _ | _ | entries
    · obtain ⟨rest, hrest, hname⟩ := deviceAttributes_eq_none_iff.mp hattrs
      exact absurd (h messageIndex metaIndex attrs rest hread hrest) hname
    · exact ⟨_, _, rfl, fun _ => rfl⟩
    refine ⟨_, _, rfl, ?_⟩
    rintro ⟨messageIndex', metaIndex', attrs', hread', hmore⟩
    rw [hread] at hread'
    cases hread'
    exact absurd hattrs (deviceAttributes_of_moreThan hmore entries)

theorem parseDevice_of_no_room (h : ¬HasRoom driver line .device) :
    parseDevice driver line = none := by
  simp only [HasRoom] at h
  push Not at h
  obtain ⟨messageIndex, metaIndex, attrs, rest, hread, hrest, hname⟩ := h
  rw [parseDevice_eq hread, deviceAttributes_eq_none_iff.mpr ⟨rest, hrest, hname⟩]
  rfl

theorem parseRank_of_exceeds (h : Exceeds driver line .rank) : parseRank driver line = none := by
  obtain ⟨rank, attrs, hread, hmore⟩ := h
  unfold parseRank
  rw [hread, bind_eq_bind, bind_some]
  dsimp only
  rw [rankLoop_of_moreThan hmore]
  rfl

theorem parseStatement_of_room {statement : Statement} (h : HasRoom driver line statement) :
    ∃ answer next, parseStatement driver line statement = some (answer, next) ∧
      (Exceeds driver line statement → answer.1 = .invalid) := by
  cases statement with
  | requires => exact flagAnswer_rejects (parseRequires_rejects driver line)
  | module => exact flagAnswer_rejects (parseEntry_of_room (ownLimit driver.modules) _ _ _)
  | internalBindOps =>
    exact flagAnswer_rejects (parseEntry_of_room (h.imp_left decide_eq_true) _ _ _)
  | parentBindOps =>
    exact flagAnswer_rejects (parseEntry_of_room (h.imp_left decide_eq_true) _ _ _)
  | childBindOps => exact flagAnswer_rejects (parseEntry_of_room (ownLimit driver.childBops) _ _ _)
  | metalanguage =>
    exact flagAnswer_rejects (parseEntry_of_room (ownLimit driver.metalanguages) _ _ _)
  | device => exact parseDevice_of_room h
  | rank =>
    refine ⟨_, _, rfl, ?_⟩
    intro hexceeds
    rw [parseRank_of_exceeds hexceeds]
  | messageFile => exact ⟨_, _, rfl, False.elim⟩
  | message => exact ⟨_, _, rfl, False.elim⟩
  | misc => exact ⟨_, _, rfl, False.elim⟩
  | disasterMessage => exact ⟨_, _, rfl, False.elim⟩
  | release => exact ⟨_, _, rfl, False.elim⟩
  | name => exact ⟨_, _, rfl, False.elim⟩
  | contact => exact ⟨_, _, rfl, False.elim⟩
  | supplier => exact ⟨_, _, rfl, False.elim⟩
  | shortname => exact ⟨_, _, rfl, False.elim⟩
  | region => exact ⟨_, _, rfl, False.elim⟩
  | readableFile => exact ⟨_, _, rfl, False.elim⟩
  | provides => exact ⟨_, _, rfl, False.elim⟩
  | category => exact ⟨_, _, rfl, False.elim⟩

theorem parseStatement_of_no_room {statement : Statement} (h : ¬HasRoom driver line statement) :
    parseStatement driver line statement = none := by
  cases statement with
  | internalBindOps =>
    obtain ⟨hlimit, hfull⟩ := not_or.mp h
    exact map_eq_none_iff.mpr
      (parseEntry_of_full (decide_eq_false hlimit) (not_not.mp hfull) _ _ _)
  | parentBindOps =>
    obtain ⟨hlimit, hfull⟩ := not_or.mp h
    exact map_eq_none_iff.mpr
      (parseEntry_of_full (decide_eq_false hlimit) (not_not.mp hfull) _ _ _)
  | device => exact map_eq_none_iff.mpr (parseDevice_of_no_room h)
  | _ => exact absurd trivial h

end

section

def KeepsId (driver : Driver) (outcome : (LineType × Option Parsed) × Driver) : Prop :=
  outcome.2.id = driver.id ∧ ∀ parsed, outcome.1.2 = some parsed → parsed.driverId = driver.id

variable {driver next : Driver} {line : Text} {parsed : Parsed} {region : Region}

theorem keepsId_flagAnswer {lineType : LineType} {result : Bool × Driver}
    (h : result.2.id = driver.id) : KeepsId driver (flagAnswer lineType result) := by
  refine ⟨h, ?_⟩
  intro parsed hparsed
  cases hparsed

theorem keepsId_objectAnswer {lineType : LineType} {result : Option (Parsed × Driver)}
    (h : ∀ parsed next, result = some (parsed, next) →
      next.id = driver.id ∧ parsed.driverId = driver.id) :
    KeepsId driver (objectAnswer lineType driver result) := by
  cases result with
  | none =>
    refine ⟨rfl, ?_⟩
    intro parsed hparsed
    cases hparsed
  | some found =>
    obtain ⟨hnext, hid⟩ := h found.1 found.2 rfl
    refine ⟨hnext, ?_⟩
    intro parsed hparsed
    cases hparsed
    exact hid

theorem parseEntry_id {α : Type} {capacity : Nat} {limitExceeded : Bool}
    {entries : Entries α capacity} {entry : Option α} {put : Entries α capacity → Driver}
    {result : Bool × Driver} (h : parseEntry limitExceeded entries entry put driver = some result)
    (hput : ∀ entries, (put entries).id = driver.id) : result.2.id = driver.id := by
  unfold parseEntry at h
  split at h
  · rw [← some.inj h]
  · obtain ⟨append, -, rfl⟩ := map_eq_some_iff.mp h
    split
    · rfl
    · exact hput _

theorem parseRequires_id {result : Bool × Driver} (h : parseRequires driver line = some result) :
    result.2.id = driver.id := by
  unfold parseRequires at h
  split at h
  · rw [← some.inj h]
  · obtain ⟨append, -, rfl⟩ := map_eq_some_iff.mp h
    split
    · rfl
    · split <;> rfl

theorem parseShortName_id (driver : Driver) (line : Text) :
    (parseShortName driver line).2.id = driver.id := by
  unfold parseShortName
  split <;> rfl

theorem parseRelease_id (driver : Driver) (line : Text) :
    (parseRelease driver line).2.id = driver.id := by
  unfold parseRelease
  dsimp only
  split
  · rfl
  · split <;> rfl

theorem readMessage_driverId {message : Message} (h : readMessage driver line = some message) :
    message.driverId = driver.id := by
  simp only [readMessage, bind_eq_bind, bind_eq_some_iff, some.injEq] at h
  obtain ⟨_, -, _, -, rfl⟩ := h
  rfl

theorem readFile_driverId {driverId index : Nat} {file : NamedFile}
    (h : readFile driverId index line = some file) : file.driverId = driverId := by
  simp only [readFile, bind_eq_bind, bind_eq_some_iff] at h
  obtain ⟨fileName, -, h⟩ := h
  split at h
  · cases h
  · rw [← some.inj h]

theorem map_driverId {α : Type} {counted : Driver} {read : Option α} {wrap : α → Parsed}
    (hcounted : counted.id = driver.id)
    (hread : ∀ item, read = some item → (wrap item).driverId = driver.id)
    (h : read.map (fun item => (wrap item, counted)) = some (parsed, next)) :
    next.id = driver.id ∧ parsed.driverId = driver.id := by
  obtain ⟨item, hitem, heq⟩ := map_eq_some_iff.mp h
  obtain ⟨rfl, rfl⟩ := Prod.mk.inj heq
  exact ⟨hcounted, hread item hitem⟩

theorem regionAttributes_driverId : ∀ attr ∈ regionAttributes, ∀ value ∈ attr.2,
    ∀ region : Region, (value.2 region).driverId = region.driverId := by
  intro attr hattr value hvalue region
  simp only [regionAttributes, mem_cons, not_mem_nil, or_false] at hattr
  rcases hattr with rfl | rfl | rfl | rfl | rfl <;>
    simp only [mem_cons, not_mem_nil, or_false] at hvalue <;>
    rcases hvalue with rfl | rfl | rfl <;> rfl

theorem parseRegionAttribute_driverId {region' : Region} {rest : Text}
    (h : parseRegionAttribute region line = some (region', rest)) :
    region'.driverId = region.driverId := by
  simp only [parseRegionAttribute, bind_eq_bind, bind_eq_some_iff,
    some.injEq, Prod.mk.injEq] at h
  obtain ⟨attr, hattr, _, -, value, hvalue, rfl, -⟩ := h
  exact regionAttributes_driverId attr (mem_of_find?_eq_some hattr) value
    (mem_of_find?_eq_some hvalue) region

theorem regionLoop_driverId {result : Region} (h : regionLoop region line = some result) :
    result.driverId = region.driverId := by
  fun_induction regionLoop region line with
  | case1 region line hattr => cases h
  | case2 region line region' rest hattr hrest =>
    rw [← some.inj h]
    exact parseRegionAttribute_driverId hattr
  | case3 region line region' rest hattr hrest ih =>
    exact (ih h).trans (parseRegionAttribute_driverId hattr)

theorem parseRegionAttributes_driverId {result : Region}
    (h : parseRegionAttributes region line = some result) : result.driverId = region.driverId := by
  cases line with
  | nil => rw [← some.inj h]
  | cons c line => exact regionLoop_driverId h

theorem parseDevice_driverId (h : parseDevice driver line = some (some (parsed, next))) :
    next.id = driver.id ∧ parsed.driverId = driver.id := by
  unfold parseDevice at h
  split at h
  · cases h
  · obtain ⟨_, -, hattrs⟩ := map_eq_some_iff.mp h
    obtain ⟨_, -, heq⟩ := map_eq_some_iff.mp hattrs
    obtain ⟨rfl, rfl⟩ := Prod.mk.inj heq
    constructor <;> rfl

theorem parseRegion_driverId (h : parseRegion driver line = some (parsed, next)) :
    next.id = driver.id ∧ parsed.driverId = driver.id := by
  unfold parseRegion at h
  split at h
  · cases h
  · simp only [bind_eq_bind, bind_eq_some_iff, some.injEq, Prod.mk.injEq] at h
    obtain ⟨_, -, region, hregion, rfl, rfl⟩ := h
    exact ⟨rfl, parseRegionAttributes_driverId hregion⟩

theorem parseProvides_driverId (h : parseProvides driver line = some (parsed, next)) :
    next.id = driver.id ∧ parsed.driverId = driver.id := by
  simp only [parseProvides, bind_eq_bind, bind_eq_some_iff, some.injEq,
    Prod.mk.injEq] at h
  obtain ⟨_, -, _, -, rfl, rfl⟩ := h
  constructor <;> rfl

theorem parseRank_driverId (h : parseRank driver line = some (parsed, next)) :
    next.id = driver.id ∧ parsed.driverId = driver.id := by
  simp only [parseRank, bind_eq_bind, bind_eq_some_iff, some.injEq,
    Prod.mk.injEq] at h
  obtain ⟨_, -, _, -, rfl, rfl⟩ := h
  constructor <;> rfl

theorem parseStatement_keepsId {statement : Statement}
    {outcome : (LineType × Option Parsed) × Driver} (hid : driver.id < 2 ^ 16)
    (h : parseStatement driver line statement = some outcome) : KeepsId driver outcome := by
  have hentry : ∀ {result : Option (Bool × Driver)} {lineType : LineType},
      (∀ flag, result = some flag → flag.2.id = driver.id) →
        result.map (flagAnswer lineType) = some outcome → KeepsId driver outcome := by
    intro result lineType hresult heq
    obtain ⟨flag, hflag, rfl⟩ := map_eq_some_iff.mp heq
    exact keepsId_flagAnswer (hresult flag hflag)
  have hobject : ∀ {result : Option (Parsed × Driver)} {lineType : LineType},
      (∀ parsed next, result = some (parsed, next) →
        next.id = driver.id ∧ parsed.driverId = driver.id) →
        some (objectAnswer lineType driver result) = some outcome → KeepsId driver outcome := by
    intro result lineType hresult heq
    rw [← some.inj heq]
    exact keepsId_objectAnswer hresult
  have hflag : ∀ {result : Bool × Driver} {lineType : LineType}, result.2.id = driver.id →
      some (flagAnswer lineType result) = some outcome → KeepsId driver outcome := by
    intro result lineType hresult heq
    rw [← some.inj heq]
    exact keepsId_flagAnswer hresult
  cases statement with
  | messageFile =>
    refine hobject (fun _ _ hfile => map_driverId ?_ ?_ hfile) h
    · rfl
    · exact fun _ hitem => readFile_driverId hitem
  | message =>
    refine hobject (fun _ _ hmessage => map_driverId ?_ ?_ hmessage) h
    · rfl
    · exact fun _ hitem => readMessage_driverId hitem
  | requires => exact hentry (fun _ hflag => parseRequires_id hflag) h
  | misc =>
    rw [← some.inj h]
    refine ⟨rfl, ?_⟩
    intro parsed hparsed
    cases hparsed
  | module =>
    refine hentry ?_ h
    exact fun _ hflag => parseEntry_id hflag fun _ => rfl
  | disasterMessage =>
    refine hobject (fun _ _ hmessage => map_driverId ?_ ?_ hmessage) h
    · rfl
    · exact fun _ hitem => readMessage_driverId hitem
  | release => exact hflag (parseRelease_id driver line) h
  | name => exact hflag rfl h
  | contact => exact hflag rfl h
  | supplier => exact hflag rfl h
  | shortname => exact hflag (parseShortName_id driver line) h
  | internalBindOps =>
    refine hentry ?_ h
    exact fun _ hflag => parseEntry_id hflag fun _ => rfl
  | parentBindOps =>
    refine hentry ?_ h
    exact fun _ hflag => parseEntry_id hflag fun _ => rfl
  | childBindOps =>
    refine hentry ?_ h
    exact fun _ hflag => parseEntry_id hflag fun _ => rfl
  | metalanguage =>
    refine hentry ?_ h
    exact fun _ hflag => parseEntry_id hflag fun _ => rfl
  | device =>
    obtain ⟨result, hresult, rfl⟩ := map_eq_some_iff.mp h
    refine keepsId_objectAnswer ?_
    rintro parsed next rfl
    exact parseDevice_driverId hresult
  | region => exact hobject (fun _ _ hregion => parseRegion_driverId hregion) h
  | readableFile =>
    refine hobject (fun _ _ hfile => map_driverId ?_ ?_ hfile) h
    · rfl
    · -- The 16 bits of its driver id are enough for that of the driver.
      exact fun _ hitem => (readFile_driverId hitem).trans (Nat.mod_eq_of_lt hid)
  | provides => exact hobject (fun _ _ hprovides => parseProvides_driverId hprovides) h
  | category => exact hflag rfl h
  | rank => exact hobject (fun _ _ hrank => parseRank_driverId hrank) h

end

section

theorem statementOf_nil (propsType : PropsType) : statementOf propsType [] = none := by
  cases propsType <;> rfl

variable {propsType : PropsType} {bytes : Text}

theorem parseLine_of_none (h : statementOf propsType (skipWhitespaceIn (cString bytes)) = none)
    (driver : Driver) :
    ∃ lineType, parseLine propsType driver bytes = some ((lineType, none), driver) := by
  unfold parseLine
  cases hline : skipWhitespaceIn (cString bytes) with
  | nil => exact ⟨_, rfl⟩
  | cons c line =>
    rw [hline] at h
    simp only [h]
    exact ⟨_, rfl⟩

theorem parseLine_of_some {line : Text} {statement : Statement}
    (h : statementOf propsType (skipWhitespaceIn (cString bytes)) = some (statement, line))
    (driver : Driver) :
    parseLine propsType driver bytes = parseStatement driver line statement := by
  unfold parseLine
  cases hline : skipWhitespaceIn (cString bytes) with
  | nil =>
    rw [hline, statementOf_nil] at h
    cases h
  | cons c text =>
    rw [hline] at h
    simp only [h]

theorem parseLine_keepsId {driver : Driver} {outcome : (LineType × Option Parsed) × Driver}
    (hid : driver.id < 2 ^ 16) (h : parseLine propsType driver bytes = some outcome) :
    KeepsId driver outcome := by
  cases hstatement : statementOf propsType (skipWhitespaceIn (cString bytes)) with
  | none =>
    obtain ⟨lineType, hparse⟩ := parseLine_of_none hstatement driver
    rw [hparse] at h
    rw [← some.inj h]
    refine ⟨rfl, ?_⟩
    intro parsed hparsed
    cases hparsed
  | some found =>
    rw [parseLine_of_some hstatement] at h
    exact parseStatement_keepsId hid h

/-- The lines of a driver are parsed without a store beyond the end of an array, and with every
statement rejected that would need one, exactly when every array that a statement fills has room for
it or the number of child bind ops rejects the statement. -/
theorem meets_iff_lineHasRoom (propsType : PropsType) (basePath : BoundedText basePathMaxlen)
    (driverId : Nat) (hasRequiresUdi : Bool) (lines : List Text) :
    Meets (parseLine propsType) (Rejects propsType)
        (initializeNewDriverState propsType basePath driverId hasRequiresUdi) lines ↔
      Guarded (parseLine propsType) (LineHasRoom propsType)
        (initializeNewDriverState propsType basePath driverId hasRequiresUdi) lines := by
  have hgood : ∀ (driver : Driver) (bytes : Text), True → True →
      LineHasRoom propsType driver bytes →
        ∃ answer next, parseLine propsType driver bytes = some (answer, next) ∧
          Rejects propsType driver bytes answer next ∧ True := by
    intro driver bytes _ _ hroom
    cases hstatement : statementOf propsType (skipWhitespaceIn (cString bytes)) with
    | none =>
      obtain ⟨lineType, hparse⟩ := parseLine_of_none hstatement driver
      refine ⟨_, driver, hparse, ?_, trivial⟩
      intro statement line h
      rw [hstatement] at h
      cases h
    | some found =>
      obtain ⟨statement, line⟩ := found
      obtain ⟨answer, next, hparse, hrejects⟩ :=
        parseStatement_of_room (hroom statement line hstatement)
      rw [parseLine_of_some hstatement]
      refine ⟨answer, next, hparse, ?_, trivial⟩
      intro statement' line' h
      rw [hstatement] at h
      cases h
      exact hrejects
  have hbad : ∀ (driver : Driver) (bytes : Text) (answer : LineType × Option Parsed)
      (next : Driver), True → True → ¬LineHasRoom propsType driver bytes →
        parseLine propsType driver bytes = some (answer, next) →
          ¬Rejects propsType driver bytes answer next := by
    intro driver bytes answer next _ _ hroom hparse
    unfold LineHasRoom at hroom
    push Not at hroom
    obtain ⟨statement, line, hstatement, hroom⟩ := hroom
    rw [parseLine_of_some hstatement, parseStatement_of_no_room hroom] at hparse
    cases hparse
  exact meets_iff_guarded_of_faults hgood hbad trivial
    (guarded_of_forall (fun _ _ => trivial) _ lines)

theorem nineParentBops_overrun :
    ¬Meets (parseLine .driverProps) (Rejects .driverProps)
      (initializeNewDriverState .driverProps ⟨[], by decide⟩ 0 true)
      (List.replicate 9 "parent_bind_ops 1 0 1 0".toList) := by
  intro h
  refine h.returns ?_
  rfl

end

end Zambesii.PropsParser
