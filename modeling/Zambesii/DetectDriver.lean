import Zambesii.EnumerationAttributes
import Zambesii.RunHistory

/-!
`detectDriverReq`: the device lines of the index are compared with a device, and the driver of one
of those that match is recorded for it.
-/

namespace Zambesii.DetectDriver

open EnumerationAttributes List Option RunHistory ZudiIndex

inductive Lock
  | free
  | read
  | write
deriving DecidableEq

structure Device where
  attrs : EnumerationAttrs
  driverFullName : Bytes
  longName : Bytes
  driverDetected : Bool
  requestedIndex : Nat
  driverInstance : Bool
  lock : Lock

/-- What is answered for a device line: whether there is memory for the buffer of values, whether
`matchingDevices` is initialized when it starts anew, and whether there is memory for the header and
for its node. -/
structure LineAnswers where
  attrValueTmp : Bool
  initialized : Bool
  header : Bool
  node : Bool
deriving DecidableEq

/-- What is answered before the device lines: whether there is memory for the response and the
buffers, whether there is a device, and whether `matchingDevices` is initialized. -/
structure Answers where
  response : Bool
  buffers : Bool
  getDevice : Bool
  matchingDevices : Bool
  lines : Nat → LineAnswers

/-- What is known of the device line when it is compared: `some none` when it is skipped. -/
def lineRank (files : Files) (hdr : Header) (allocated : Bool) (device : EnumerationAttrs)
    (devlineHdr : DeviceHeader) : Option (Option Int) :=
  match getDriverHeader files hdr devlineHdr.driverId with
  | none => some none
  | some driverHdr => do
      match ← getMessageString files driverHdr devlineHdr.messageIndex zuiMessageMaxlen with
      | none => some none
      | some _ =>
        match getMetalanguage files driverHdr devlineHdr.metaIndex with
        | none => some none
        | some devlineMetalanguage => do
            let devlineMetaName ←
              getString files devlineMetalanguage.nameOff zuiDriverMetalanguageMaxlen
            match ← findMetalanguage files hdr devlineMetaName with
            | none => some none
            | some metaHdr =>
              (compareEnumerationAttributes files allocated device devlineHdr metaHdr).map some

/-- `matchingDevices`, of which the first is the last one inserted, and `bestRank`. -/
structure Matching where
  matchingDevices : List DeviceHeader
  initialized : Bool
  bestRank : Int
deriving DecidableEq

/-- The end of the loop's body. A list that is not initialized has no cache to take a node from. -/
def addDevice (answers : LineAnswers) (devlineHdr : DeviceHeader) (matching : Matching) :
    Option Matching :=
  if answers.header = false then some matching
  else if matching.initialized = false then none
  else if answers.node = false then some matching
  else some { matching with matchingDevices := devlineHdr :: matching.matchingDevices }

def insertMatch (answers : LineAnswers) (devlineHdr : DeviceHeader) (rank : Int)
    (matching : Matching) : Option Matching :=
  if rank > matching.bestRank then
    if answers.initialized = false then
      some { matching with matchingDevices := [], initialized := false }
    else addDevice answers devlineHdr ⟨[], true, rank⟩
  else addDevice answers devlineHdr matching

def detectFrom (files : Files) (hdr : Header) (device : EnumerationAttrs)
    (answers : Nat → LineAnswers) (i : Nat) (matching : Matching) : (left : Nat) → Option Matching
  | 0 => some matching
  | left + 1 =>
    match indexedGetDevice files i with
    | none => some matching
    | some devlineHdr => do
        match ← lineRank files hdr (answers i).attrValueTmp device devlineHdr with
        | none => detectFrom files hdr device answers (i + 1) matching left
        | some rank =>
          if rank ≥ 0 then do
            let matching ← insertMatch (answers i) devlineHdr rank matching
            detectFrom files hdr device answers (i + 1) matching left
          else detectFrom files hdr device answers (i + 1) matching left

/-- The name of a driver: the character '/' is put between its two parts when the first does not
end with it. -/
def fullName (driverHdr : DriverHeader) : Bytes :=
  if driverHdr.basePath ≠ [] ∧ driverHdr.basePath.getLast? ≠ some 0x2f then
    driverHdr.basePath ++ 0x2f :: driverHdr.shortName
  else driverHdr.basePath ++ driverHdr.shortName

def errorInvalidResourceName : Int := -13
def errorNotFound : Int := -51
def errorLimitOverflowed : Int := -52
def errorSuccess : Int := 0

/-- The device, the error that the response carries when there is one, and whether the function
panics in the end. -/
structure Result where
  device : Device
  response : Option Int
  panics : Bool

def release (device : Device) (index : Nat) (response : Int) : Result where
  device := { device with requestedIndex := index, lock := .free }
  response := some response
  panics := device.driverInstance

def record (files : Files) (hdr : Header) (device : Device) (index : Nat) :
    List DeviceHeader → Option Result
  | [] =>
    some (release { device with driverFullName := [], driverDetected := false, lock := .write }
      index errorNoMatch)
  | currDevlineHdr :: _ =>
    match getDriverHeader files hdr currDevlineHdr.driverId with
    | none => some ⟨device, some errorNoMatch, false⟩
    | some driverHdr =>
      match getMetalanguage files driverHdr currDevlineHdr.metaIndex with
      | none => some ⟨device, some errorNotFound, false⟩
      | some detectedDevlineMeta => do
          let _ ← getString files detectedDevlineMeta.nameOff zuiDriverMetalanguageMaxlen
          let longName ←
            getMessageString files driverHdr driverHdr.nameIndex zuiMessageMaxlen
          some (release
            { device with
              driverFullName := fullName driverHdr
              longName := longName.getD device.longName
              driverDetected := true
              lock := .write } index errorSuccess)

def detectDriverReq (files : Files) (answers : Answers) (device : Device) (index : Nat) :
    Option Result :=
  if answers.response = false then some ⟨device, none, false⟩
  else if answers.buffers = false then some ⟨device, some errorMemoryNomem, false⟩
  else if answers.getDevice = false then some ⟨device, some errorInvalidResourceName, false⟩
  else if answers.matchingDevices = false then some ⟨device, some errorMemoryNomem, false⟩
  else
    match files.header with
    | none => some ⟨device, some errorLimitOverflowed, false⟩
    | some hdr => do
        let device := { device with lock := .read }
        let matching ←
          detectFrom files hdr device.attrs answers.lines 0 ⟨[], true, -1⟩ hdr.nSupportedDevices
        record files hdr device index matching.matchingDevices

structure Match where
  devline : DeviceHeader
  rank : Int
  answers : LineAnswers
deriving DecidableEq

/-- The device lines that match, in their order. It is not defined when a string of the index does
not fit the buffer that it is read into. -/
def matchesFrom (files : Files) (hdr : Header) (device : EnumerationAttrs)
    (answers : Nat → LineAnswers) (i : Nat) : (left : Nat) → Option (List Match)
  | 0 => some []
  | left + 1 =>
    match indexedGetDevice files i with
    | none => some []
    | some devline => do
        let rank ← lineRank files hdr (answers i).attrValueTmp device devline
        let rest ← matchesFrom files hdr device answers (i + 1) left
        match rank with
        | some rank => if rank ≥ 0 then some (⟨devline, rank, answers i⟩ :: rest) else some rest
        | none => some rest

def IsDriver (files : Files) (hdr : Header) (id : Nat) (driverHdr : DriverHeader) : Prop :=
  driverHdr.id = id ∧ ∃ i, i < hdr.nRecords ∧
    files.drivers (recordOff sizeofHeader sizeofDriverHeader i) = some driverHdr

def Best (matched : List Match) (best : Match) : Prop :=
  best ∈ matched ∧ ∀ other ∈ matched, other.rank ≤ best.rank

/-- The driver that is recorded is that of a line of maximal rank, and none is exactly when no line
matches. -/
structure Records (files : Files) (hdr : Header) (matched : List Match) (device : Device) :
    Prop where
  detected : device.driverDetected = true → ∃ best driverHdr, Best matched best ∧
    IsDriver files hdr best.devline.driverId driverHdr ∧
      device.driverFullName = fullName driverHdr
  nothing : device.driverDetected = false → device.driverFullName = []
  iff : device.driverDetected = false ↔ matched = []

def Processes (answers : Answers) : Prop :=
  answers.response = true ∧ answers.buffers = true ∧ answers.getDevice = true ∧
    answers.matchingDevices = true

/-- The lock is released on every path, and the driver is recorded when the device lines have been
processed. -/
def Meets (files : Files) (answers : Answers) (device : Device) (index : Nat) : Prop :=
  ∃ result, detectDriverReq files answers device index = some result ∧
    result.device.lock = .free ∧
      ∀ hdr, Processes answers → files.header = some hdr →
        ∃ matched, matchesFrom files hdr device.attrs answers.lines 0 hdr.nSupportedDevices =
          some matched ∧ Records files hdr matched result.device

def Outranks (before : List Match) (line : Match) : Prop :=
  ∀ earlier ∈ before, earlier.answers.initialized = true → earlier.rank < line.rank

def Enters (before : List Match) (line : Match) : Prop :=
  line.answers.header = true ∧ line.answers.node = true ∧
    (Outranks before line → line.answers.initialized = true)

def Fails (before : List Match) (line : Match) : Prop :=
  Outranks before line ∧ line.answers.initialized = false

/-- The line is the last one that was put on the list, and the list was not started anew since. -/
def AtHead : List Match → Match → Prop :=
  Since Enters fun before line => Enters before line ∨ Outranks before line

def Served (before : List Match) (line : Match) : Prop :=
  Outranks before line ∨ line.answers.header = false ∨
    ¬ ∃ failed, Since Fails Outranks before failed

/-- No node is taken from a list without a cache, and the line at the head of the list in the end
has the driver of a line of maximal rank. -/
def Sound (files : Files) (answers : Answers) (device : Device) : Prop :=
  ∀ hdr, Processes answers → files.header = some hdr →
    ∃ matched, matchesFrom files hdr device.attrs answers.lines 0 hdr.nSupportedDevices =
      some matched ∧ Always Served matched ∧
        (matched = [] ∨ ∃ line best driverHdr actual, AtHead matched line ∧ Best matched best ∧
          getDriverHeader files hdr line.devline.driverId = some driverHdr ∧
            (getMessageString files driverHdr driverHdr.nameIndex zuiMessageMaxlen).isSome ∧
              IsDriver files hdr best.devline.driverId actual ∧
                fullName actual = fullName driverHdr)

section

variable {matched : List Match} {matching : Matching} {line other : Match}

theorem outranks_concat_iff : Outranks (matched ++ [line]) other ↔
      Outranks matched other ∧ (line.answers.initialized = true → line.rank < other.rank) := by
  unfold Outranks
  rw [forall_mem_append, forall_mem_singleton]

theorem outranks_concat_of_not (h : ¬ Outranks matched line) :
    Outranks (matched ++ [line]) other ↔ Outranks matched other := by
  rw [outranks_concat_iff, and_iff_left_iff_imp]
  intro hother _
  unfold Outranks at h
  push Not at h
  obtain ⟨earlier, hin, hinitialized, hle⟩ := h
  have hlt := hother earlier hin hinitialized
  omega

structure Inv (matched : List Match) (matching : Matching) : Prop where
  best : ∀ line : Match, 0 ≤ line.rank → (line.rank > matching.bestRank ↔ Outranks matched line)
  head : ∀ line, AtHead matched line → ∃ rest, matching.matchingDevices = line.devline :: rest
  filled : matching.matchingDevices ≠ [] → ∃ line, AtHead matched line
  cache : matching.initialized = false ↔ ∃ failed, Since Fails Outranks matched failed

theorem inv_nil : Inv [] ⟨[], true, -1⟩ := by
  refine ⟨fun line hrank => ?_, fun line hhead => ?_, fun hfilled => ?_, ?_⟩
  · have hbest : line.rank > -1 := by omega
    exact iff_of_true hbest fun _ hin => by cases hin
  · exact absurd hhead (not_since_nil line)
  · exact absurd rfl hfilled
  · exact iff_of_false (by simp) fun ⟨failed, hfailed⟩ => not_since_nil failed hfailed

theorem atHead_concat_iff : AtHead (matched ++ [line]) other ↔ other = line ∧ Enters matched line ∨
      AtHead matched other ∧ ¬ (Enters matched line ∨ Outranks matched line) :=
  since_concat_iff

variable (h : Inv matched matching)

include h

theorem Inv.skip (hnot : ¬ Outranks matched line)
    (henters : ¬ Enters matched line) : Inv (matched ++ [line]) matching := by
  have hhead : ∀ other, AtHead (matched ++ [line]) other ↔ AtHead matched other := by
    intro other
    rw [atHead_concat_iff]
    simp [henters, hnot]
  refine ⟨fun other hrank => ?_, fun other hother => ?_, fun hfilled => ?_, ?_⟩
  · rw [outranks_concat_of_not hnot]
    exact h.best other hrank
  · exact h.head other ((hhead other).mp hother)
  · obtain ⟨other, hother⟩ := h.filled hfilled
    exact ⟨other, (hhead other).mpr hother⟩
  · rw [h.cache]
    refine exists_congr fun failed => ?_
    rw [since_concat_iff]
    simp [Fails, hnot]

theorem Inv.push (hnot : ¬ Outranks matched line)
    (henters : Enters matched line) :
    Inv (matched ++ [line])
      { matching with matchingDevices := line.devline :: matching.matchingDevices } := by
  refine ⟨fun other hrank => ?_, fun other hother => ?_, fun _ => ?_, ?_⟩
  · rw [outranks_concat_of_not hnot]
    exact h.best other hrank
  · rcases atHead_concat_iff.mp hother with ⟨rfl, -⟩ | ⟨-, hneither⟩
    · exact ⟨matching.matchingDevices, rfl⟩
    · exact absurd (.inl henters) hneither
  · exact ⟨line, atHead_concat_iff.mpr (.inl ⟨rfl, henters⟩)⟩
  · refine h.cache.trans (exists_congr fun failed => ?_)
    rw [since_concat_iff]
    simp [Fails, hnot]

theorem Inv.fail (hfails : Fails matched line) :
    Inv (matched ++ [line]) { matching with matchingDevices := [], initialized := false } := by
  have hhead : ∀ other, ¬ AtHead (matched ++ [line]) other := by
    intro other hother
    rcases atHead_concat_iff.mp hother with ⟨-, henters⟩ | ⟨-, hneither⟩
    · have hinitialized := henters.2.2 hfails.1
      rw [hfails.2] at hinitialized
      cases hinitialized
    · exact hneither (.inr hfails.1)
  refine ⟨fun other hrank => ?_, fun other hother => absurd hother (hhead other), ?_, ?_⟩
  · rw [outranks_concat_iff, hfails.2]
    simpa using h.best other hrank
  · exact fun hfilled => absurd rfl hfilled
  · exact iff_of_true rfl ⟨line, since_concat_iff.mpr (.inl ⟨rfl, hfails⟩)⟩

omit h

theorem inv_restart (houtranks : Outranks matched line)
    (hinitialized : line.answers.initialized = true) {matchingDevices : List DeviceHeader}
    (hdevices : matchingDevices = [line.devline] ∧ Enters matched line ∨
      matchingDevices = [] ∧ ¬ Enters matched line) :
    Inv (matched ++ [line]) ⟨matchingDevices, true, line.rank⟩ := by
  refine ⟨fun other hrank => ?_, fun other hother => ?_, fun hfilled => ?_, ?_⟩
  · rw [outranks_concat_iff]
    constructor
    · intro hgt
      refine ⟨fun earlier hin hearlier => ?_, fun _ => hgt⟩
      have hlt := houtranks earlier hin hearlier
      dsimp only at hgt
      omega
    · exact fun ⟨_, hgt⟩ => hgt hinitialized
  · rcases atHead_concat_iff.mp hother with ⟨rfl, henters⟩ | ⟨-, hneither⟩
    · rcases hdevices with ⟨rfl, -⟩ | ⟨-, hnot⟩
      · exact ⟨[], rfl⟩
      · exact absurd henters hnot
    · exact absurd (.inr houtranks) hneither
  · rcases hdevices with ⟨-, henters⟩ | ⟨rfl, -⟩
    · exact ⟨line, atHead_concat_iff.mpr (.inl ⟨rfl, henters⟩)⟩
    · exact absurd rfl hfilled
  · refine iff_of_false (by simp) ?_
    rintro ⟨failed, hfailed⟩
    rcases since_concat_iff.mp hfailed with ⟨-, hfails⟩ | ⟨-, hnot⟩
    · rw [hfails.2] at hinitialized
      cases hinitialized
    · exact hnot houtranks

theorem Inv.step (h : Inv matched matching) (hrank : 0 ≤ line.rank)
    (hserved : Served matched line) :
    ∃ next, insertMatch line.answers line.devline line.rank matching = some next ∧
      Inv (matched ++ [line]) next := by
  unfold insertMatch
  split
  · next hbest =>
    have houtranks := (h.best line hrank).mp hbest
    split
    · next hinitialized => exact ⟨_, rfl, h.fail ⟨houtranks, hinitialized⟩⟩
    next hinitialized =>
    have hinitialized : line.answers.initialized = true := by simpa using hinitialized
    unfold addDevice
    split
    · next hheader =>
      have hnot : ¬ Enters matched line := by
        intro henters
        rw [henters.1] at hheader
        cases hheader
      exact ⟨_, rfl, inv_restart houtranks hinitialized (.inr ⟨rfl, hnot⟩)⟩
    next hheader =>
    rw [if_neg (by simp)]
    split
    · next hnode =>
      have hnot : ¬ Enters matched line := by
        intro henters
        rw [henters.2.1] at hnode
        cases hnode
      exact ⟨_, rfl, inv_restart houtranks hinitialized (.inr ⟨rfl, hnot⟩)⟩
    · next hnode =>
      have henters : Enters matched line :=
        ⟨by simpa using hheader, by simpa using hnode, fun _ => hinitialized⟩
      exact ⟨_, rfl, inv_restart houtranks hinitialized (.inl ⟨rfl, henters⟩)⟩
  next hbest =>
  have hnot : ¬ Outranks matched line := fun houtranks => hbest ((h.best line hrank).mpr houtranks)
  unfold addDevice
  split
  · next hheader =>
    refine ⟨_, rfl, h.skip hnot fun henters => ?_⟩
    rw [henters.1] at hheader
    cases hheader
  next hheader =>
  split
  · next hcache =>
    rcases hserved with houtranks | hnone | hfresh
    · exact absurd houtranks hnot
    · exact absurd hnone hheader
    · exact absurd (h.cache.mp hcache) hfresh
  split
  · next hnode =>
    refine ⟨_, rfl, h.skip hnot fun henters => ?_⟩
    rw [henters.2.1] at hnode
    cases hnode
  · next hnode =>
    have henters : Enters matched line :=
      ⟨by simpa using hheader, by simpa using hnode, fun houtranks => absurd houtranks hnot⟩
    exact ⟨_, rfl, h.push hnot henters⟩

theorem Inv.not_served (h : Inv matched matching) (hrank : 0 ≤ line.rank)
    (hserved : ¬ Served matched line) :
    insertMatch line.answers line.devline line.rank matching = none := by
  unfold Served at hserved
  push Not at hserved
  obtain ⟨hnot, hheader, hfailed⟩ := hserved
  rw [insertMatch, if_neg fun hbest => hnot ((h.best line hrank).mp hbest), addDevice,
    if_neg hheader, if_pos (h.cache.mpr hfailed)]

def insertAll (matching : Matching) : List Match → Option Matching
  | [] => some matching
  | line :: rest =>
    (insertMatch line.answers line.devline line.rank matching).bind fun matching =>
      insertAll matching rest

theorem insertAll_spec {rest : List Match} (h : Inv matched matching)
    (halways : Always Served matched) (hranks : ∀ line ∈ rest, 0 ≤ line.rank) :
    (Always Served (matched ++ rest) →
      ∃ last, insertAll matching rest = some last ∧ Inv (matched ++ rest) last) ∧
      (¬ Always Served (matched ++ rest) → insertAll matching rest = none) := by
  induction rest generalizing matched matching with
  | nil =>
    rw [append_nil]
    exact ⟨fun _ => ⟨matching, rfl, h⟩, fun hnot => absurd halways hnot⟩
  | cons line rest ih =>
    obtain ⟨hrank, hranks⟩ := forall_mem_cons.mp hranks
    rcases em (Served matched line) with hserved | hnot
    · obtain ⟨next, hnext, hinv⟩ := h.step hrank hserved
      rw [insertAll, hnext, bind_some, append_cons]
      exact ih hinv (always_concat_iff.mpr ⟨halways, hserved⟩) hranks
    · refine ⟨fun hall => absurd (hall matched line rest rfl) hnot, fun _ => ?_⟩
      rw [insertAll, h.not_served hrank hnot, bind_none]

end

section

variable {files : Files} {hdr : Header} {device : EnumerationAttrs} {answers : Nat → LineAnswers}
  {matched : List Match}

theorem detectFrom_eq (i left : Nat) (matching : Matching) :
    detectFrom files hdr device answers i matching left =
      (matchesFrom files hdr device answers i left).bind (insertAll matching) := by
  induction left generalizing i matching with
  | zero => rfl
  | succ left ih =>
    rw [detectFrom, matchesFrom]
    cases hdevice : indexedGetDevice files i with
    | none => rfl
    | some devline =>
    dsimp only
    cases hrank : lineRank files hdr (answers i).attrValueTmp device devline with
    | none => rfl
    | some rank =>
    simp only [bind_eq_bind, bind_some, ih]
    cases hrest : matchesFrom files hdr device answers (i + 1) left with
    | none =>
      cases rank with
      | none => rfl
      | some rank => simp
    | some rest =>
      cases rank with
      | none => rfl
      | some rank =>
        dsimp only [bind_some]
        split
        · rfl
        · rfl

theorem lineRank_some {allocated : Bool} {devline : DeviceHeader} {rank : Int}
    (h : lineRank files hdr allocated device devline = some (some rank)) :
    ∃ driverHdr metalanguage, getDriverHeader files hdr devline.driverId = some driverHdr ∧
      getMetalanguage files driverHdr devline.metaIndex = some metalanguage ∧
        (getString files metalanguage.nameOff zuiDriverMetalanguageMaxlen).isSome := by
  unfold lineRank at h
  split at h
  · simp at h
  next driverHdr hdriver =>
  obtain ⟨message, -, h⟩ := bind_eq_some_iff.mp h
  split at h
  · simp at h
  split at h
  · simp at h
  next metalanguage hmetalanguage =>
  obtain ⟨name, hname, -⟩ := bind_eq_some_iff.mp h
  exact ⟨driverHdr, metalanguage, hdriver, hmetalanguage, by rw [hname]; rfl⟩

theorem matchesFrom_spec {i left : Nat}
    (h : matchesFrom files hdr device answers i left = some matched) :
    ∀ line ∈ matched, 0 ≤ line.rank ∧ ∃ allocated,
      lineRank files hdr allocated device line.devline = some (some line.rank) := by
  induction left generalizing i matched with
  | zero =>
    cases h
    simp
  | succ left ih =>
    rw [matchesFrom] at h
    split at h
    · cases h
      simp
    next devline hdevice =>
    obtain ⟨rank, hrank, h⟩ := bind_eq_some_iff.mp h
    obtain ⟨rest, hrest, h⟩ := bind_eq_some_iff.mp h
    split at h
    · next rank =>
      split at h
      · next hpositive =>
        cases h
        exact forall_mem_cons.mpr ⟨⟨hpositive, _, hrank⟩, ih hrest⟩
      · cases h
        exact ih hrest
    · cases h
      exact ih hrest

end

section

variable {files : Files} {hdr : Header} {device : Device} {index : Nat} {matched : List Match}

theorem record_cons {devline : DeviceHeader} {rest : List DeviceHeader} {driverHdr : DriverHeader}
    {metalanguage : Metalanguage}
    (hdriver : getDriverHeader files hdr devline.driverId = some driverHdr)
    (hmetalanguage : getMetalanguage files driverHdr devline.metaIndex = some metalanguage)
    (hname : (getString files metalanguage.nameOff zuiDriverMetalanguageMaxlen).isSome) :
    record files hdr device index (devline :: rest) =
      (getMessageString files driverHdr driverHdr.nameIndex zuiMessageMaxlen).map fun longName =>
        release
          { device with
            driverFullName := fullName driverHdr
            longName := longName.getD device.longName
            driverDetected := true
            lock := .write } index errorSuccess := by
  obtain ⟨name, hname⟩ := isSome_iff_exists.mp hname
  rw [record, hdriver]
  dsimp only
  rw [hmetalanguage]
  dsimp only
  rw [hname, bind_eq_bind, bind_some]
  cases getMessageString files driverHdr driverHdr.nameIndex zuiMessageMaxlen with
  | none => rfl
  | some longName => rfl

theorem detectDriverReq_of_not_processes {answers : Answers} (h : ¬ Processes answers) :
    ∃ response, detectDriverReq files answers device index = some ⟨device, response, false⟩ := by
  unfold detectDriverReq
  split
  · exact ⟨_, rfl⟩
  next hresponse =>
  split
  · exact ⟨_, rfl⟩
  next hbuffers =>
  split
  · exact ⟨_, rfl⟩
  next hdevice =>
  split
  · exact ⟨_, rfl⟩
  next hlist =>
  exact absurd ⟨by simpa using hresponse, by simpa using hbuffers, by simpa using hdevice,
    by simpa using hlist⟩ h

theorem detectDriverReq_of_processes {answers : Answers} (h : Processes answers)
    (hheader : files.header = some hdr) :
    detectDriverReq files answers device index =
      ((matchesFrom files hdr device.attrs answers.lines 0 hdr.nSupportedDevices).bind
        (insertAll ⟨[], true, -1⟩)).bind fun matching =>
          record files hdr { device with lock := .read } index matching.matchingDevices := by
  obtain ⟨hresponse, hbuffers, hdevice, hlist⟩ := h
  rw [detectDriverReq, if_neg (by simp [hresponse]), if_neg (by simp [hbuffers]),
    if_neg (by simp [hdevice]), if_neg (by simp [hlist]), hheader, ← detectFrom_eq]
  rfl

def Chosen (files : Files) (hdr : Header) (matched : List Match) (line : Match) : Prop :=
  ∃ best driverHdr actual, Best matched best ∧
    getDriverHeader files hdr line.devline.driverId = some driverHdr ∧
      (getMessageString files driverHdr driverHdr.nameIndex zuiMessageMaxlen).isSome ∧
        IsDriver files hdr best.devline.driverId actual ∧ fullName actual = fullName driverHdr

theorem meets_iff_of_header {answers : Answers} (h : Processes answers)
    (hheader : files.header = some hdr) : Meets files answers device index ↔
      ∃ result matched, detectDriverReq files answers device index = some result ∧
        result.device.lock = .free ∧
          matchesFrom files hdr device.attrs answers.lines 0 hdr.nSupportedDevices =
            some matched ∧ Records files hdr matched result.device := by
  constructor
  · rintro ⟨result, hresult, hlock, hrecords⟩
    obtain ⟨matched, hmatched, hrecords⟩ := hrecords hdr h hheader
    exact ⟨result, matched, hresult, hlock, hmatched, hrecords⟩
  · rintro ⟨result, matched, hresult, hlock, hmatched, hrecords⟩
    refine ⟨result, hresult, hlock, fun hdr' _ hheader' => ?_⟩
    cases hheader.symm.trans hheader'
    exact ⟨matched, hmatched, hrecords⟩

theorem sound_iff_of_header {answers : Answers} (h : Processes answers)
    (hheader : files.header = some hdr) : Sound files answers device ↔
      ∃ matched, matchesFrom files hdr device.attrs answers.lines 0 hdr.nSupportedDevices =
        some matched ∧ Always Served matched ∧
          (matched = [] ∨ ∃ line, AtHead matched line ∧ Chosen files hdr matched line) := by
  constructor
  · intro hsound
    obtain ⟨matched, hmatched, hserved, hchosen⟩ := hsound hdr h hheader
    refine ⟨matched, hmatched, hserved, hchosen.imp_right ?_⟩
    rintro ⟨line, best, driverHdr, actual, hhead, hchosen⟩
    exact ⟨line, hhead, best, driverHdr, actual, hchosen⟩
  · rintro ⟨matched, hmatched, hserved, hchosen⟩ hdr' _ hheader'
    cases hheader.symm.trans hheader'
    refine ⟨matched, hmatched, hserved, hchosen.imp_right ?_⟩
    rintro ⟨line, hhead, best, driverHdr, actual, hchosen⟩
    exact ⟨line, best, driverHdr, actual, hhead, hchosen⟩

theorem records_nil_iff :
    Records files hdr matched
      (release { device with driverFullName := [], driverDetected := false, lock := .write }
        index errorNoMatch).device ↔ matched = [] := by
  constructor
  · exact fun hrecords => hrecords.iff.mp rfl
  · intro hnil
    refine ⟨?_, fun _ => rfl, iff_of_true rfl hnil⟩
    intro hdetected
    cases hdetected

theorem records_cons_iff {line : Match} {driverHdr : DriverHeader} {rest : List DeviceHeader}
    {metalanguage : Metalanguage} (hin : line ∈ matched)
    (hdriver : getDriverHeader files hdr line.devline.driverId = some driverHdr)
    (hmetalanguage : getMetalanguage files driverHdr line.devline.metaIndex = some metalanguage)
    (hname : (getString files metalanguage.nameOff zuiDriverMetalanguageMaxlen).isSome) :
    (∃ result, record files hdr device index (line.devline :: rest) = some result ∧
      result.device.lock = .free ∧ Records files hdr matched result.device) ↔
        Chosen files hdr matched line := by
  rw [record_cons hdriver hmetalanguage hname]
  constructor
  · rintro ⟨result, hresult, -, hrecords⟩
    obtain ⟨longName, hlongName, rfl⟩ := map_eq_some_iff.mp hresult
    obtain ⟨best, actual, hbest, hactual, hfull⟩ := hrecords.detected rfl
    exact ⟨best, driverHdr, actual, hbest, hdriver, by rw [hlongName]; rfl, hactual, hfull.symm⟩
  · rintro ⟨best, driverHdr', actual, hbest, hdriver', hlongName, hactual, hfull⟩
    cases hdriver.symm.trans hdriver'
    obtain ⟨longName, hlongName⟩ := isSome_iff_exists.mp hlongName
    refine ⟨_, by rw [hlongName]; rfl, rfl, ?_, ?_, ?_⟩
    · exact fun _ => ⟨best, actual, hbest, hactual, hfull.symm⟩
    · intro hnothing
      cases hnothing
    · exact iff_of_false (by simp [release]) (ne_nil_of_mem hin)

theorem processed_iff {answers : Nat → LineAnswers} {left : Nat} :
    (∃ result matched,
      (((matchesFrom files hdr device.attrs answers 0 left).bind
        (insertAll ⟨[], true, -1⟩)).bind fun matching =>
          record files hdr { device with lock := .read } index matching.matchingDevices) =
            some result ∧
      result.device.lock = .free ∧
        matchesFrom files hdr device.attrs answers 0 left = some matched ∧
          Records files hdr matched result.device) ↔
      ∃ matched, matchesFrom files hdr device.attrs answers 0 left = some matched ∧
        Always Served matched ∧
          (matched = [] ∨ ∃ line, AtHead matched line ∧ Chosen files hdr matched line) := by
  cases hmatched : matchesFrom files hdr device.attrs answers 0 left with
  | none => simp
  | some matched =>
    have hranks := matchesFrom_spec hmatched
    obtain ⟨hserved, hcrash⟩ := insertAll_spec inv_nil always_nil fun line hin =>
      (hranks line hin).1
    rw [nil_append] at hserved hcrash
    rw [bind_some]
    rcases em (Always Served matched) with halways | hnot
    · obtain ⟨last, hlast, hinv⟩ := hserved halways
      have hright : (∃ matched', some matched = some matched' ∧ Always Served matched' ∧
          (matched' = [] ∨ ∃ line, AtHead matched' line ∧ Chosen files hdr matched' line)) ↔
            (matched = [] ∨ ∃ line, AtHead matched line ∧ Chosen files hdr matched line) := by
        simp [halways]
      rw [hlast, bind_some, hright]
      have hleft : (∃ result matched', record files hdr { device with lock := .read } index
            last.matchingDevices = some result ∧ result.device.lock = .free ∧
              some matched = some matched' ∧ Records files hdr matched' result.device) ↔
          ∃ result, record files hdr { device with lock := .read } index
            last.matchingDevices = some result ∧ result.device.lock = .free ∧
              Records files hdr matched result.device := by
        simp
      rw [hleft]
      cases hdevices : last.matchingDevices with
      | nil =>
        have hnone : ∀ line, ¬ AtHead matched line := by
          intro line hhead
          obtain ⟨rest, hrest⟩ := hinv.head line hhead
          rw [hdevices] at hrest
          cases hrest
        rw [or_iff_left fun ⟨line, hhead, _⟩ => hnone line hhead, ← @records_nil_iff files hdr
          { device with lock := .read } index]
        constructor
        · rintro ⟨result, hresult, -, hrecords⟩
          cases hresult
          exact hrecords
        · exact fun hrecords => ⟨_, rfl, rfl, hrecords⟩
      | cons devline rest =>
        obtain ⟨line, hhead⟩ := hinv.filled (by simp [hdevices])
        obtain ⟨rest', hrest'⟩ := hinv.head line hhead
        obtain ⟨rfl, rfl⟩ := cons.inj (hdevices.symm.trans hrest')
        obtain ⟨-, allocated, hrank⟩ := hranks line hhead.mem
        obtain ⟨driverHdr, metalanguage, hdriver, hmetalanguage, hname⟩ := lineRank_some hrank
        rw [records_cons_iff hhead.mem hdriver hmetalanguage hname,
          or_iff_right (ne_nil_of_mem hhead.mem)]
        constructor
        · exact fun hchosen => ⟨line, hhead, hchosen⟩
        · rintro ⟨other, hother, best, driverHdr', actual, hbest, hdriver', hchosen⟩
          obtain ⟨_, hsame⟩ := hinv.head other hother
          have hdevline := (cons.inj (hdevices.symm.trans hsame)).1
          rw [← hdevline] at hdriver'
          exact ⟨best, driverHdr', actual, hbest, hdriver', hchosen⟩
    · refine iff_of_false ?_ ?_
      · rintro ⟨result, _, hresult, -⟩
        rw [hcrash hnot] at hresult
        cases hresult
      · rintro ⟨matched', hmatched', halways, -⟩
        cases hmatched'
        exact hnot halways

/-- Exactly when the driver of a line of maximal rank is recorded. -/
theorem detects_iff_sound (files : Files) (answers : Answers) (index : Nat)
    (hfree : device.lock = .free) :
    Meets files answers device index ↔ Sound files answers device := by
  rcases em (Processes answers) with hprocesses | hnot
  · cases hheader : files.header with
    | none =>
      obtain ⟨hresponse, hbuffers, hdevice, hlist⟩ := hprocesses
      refine iff_of_true ⟨⟨device, some errorLimitOverflowed, false⟩, ?_, hfree, ?_⟩ ?_
      · rw [detectDriverReq, if_neg (by simp [hresponse]), if_neg (by simp [hbuffers]),
          if_neg (by simp [hdevice]), if_neg (by simp [hlist]), hheader]
      · intro hdr _ hheader'
        rw [hheader] at hheader'
        cases hheader'
      · intro hdr _ hheader'
        rw [hheader] at hheader'
        cases hheader'
    | some hdr =>
      rw [meets_iff_of_header hprocesses hheader, sound_iff_of_header hprocesses hheader,
        detectDriverReq_of_processes hprocesses hheader]
      exact processed_iff
  · obtain ⟨response, hresult⟩ := @detectDriverReq_of_not_processes files device index _ hnot
    refine iff_of_true ⟨_, hresult, hfree, ?_⟩ ?_
    · exact fun _ hprocesses => absurd hprocesses hnot
    · exact fun _ hprocesses => absurd hprocesses hnot

end

def driverA : DriverHeader := ⟨1, 1, [97], [], 0, 1, 1, 0, 0, 0⟩
def driverB : DriverHeader := ⟨2, 1, [98], [], 0, 1, 1, 0, 0, 0⟩

def indexWith (first second : DeviceHeader) : Files where
  header := some ⟨3, 2, 1⟩
  drivers := fun off =>
    if off = 84 then some driverA else if off = 360 then some driverB
    else if off = 636 then some sampleMeta else none
  devices := fun off => if off = 0 then some first else if off = 16 then some second else none
  ranks := fun off =>
    if off = 0 then some ⟨7, 1, 5, 100⟩ else if off = 12 then some ⟨7, 1, 3, 104⟩ else none
  provisions := fun off => if off = 0 then some ⟨7, 12⟩ else none
  attrData := sampleFiles.attrData
  rankAttrs := sampleFiles.rankAttrs
  messages := fun off => if off = 0 then some ⟨1, 12⟩ else none
  metalanguages := fun off => if off = 0 then some ⟨1, 12⟩ else none
  strings := fun off => if off = 12 then some [109] else sampleFiles.strings off
  arrays := fun _ _ => none

def lineA : DeviceHeader := ⟨1, 1, 1, 1, 0⟩
def lineB : DeviceHeader := ⟨2, 1, 1, 1, 12⟩

def noDriver : Device := ⟨sampleDevice, [], [], false, 0, false, .free⟩

def granted : Answers := ⟨true, true, true, true, fun _ => ⟨true, true, true, true⟩⟩

def matchA : Match := ⟨lineA, 5, ⟨true, true, true, true⟩⟩
def matchB : Match := ⟨lineB, 3, ⟨true, true, true, true⟩⟩

theorem meets_bThenA : Meets (indexWith lineB lineA) granted noDriver 0 := by
  refine (detects_iff_sound _ _ 0 rfl).mpr ?_
  intro hdr _ hheader
  cases hheader
  have hfirst : Served [] matchB := .inl fun _ hin => by cases hin
  have hsecond : Served [matchB] matchA := .inl fun earlier hin _ => by
    obtain rfl := mem_singleton.mp hin
    decide
  have hserved : Always Served [matchB, matchA] :=
    (@always_concat_iff _ _ [matchB] matchA).mpr
      ⟨(@always_concat_iff _ _ [] matchB).mpr ⟨always_nil, hfirst⟩, hsecond⟩
  have hhead : AtHead [matchB, matchA] matchA := by
    refine ⟨[matchB], [], rfl, ⟨rfl, rfl, fun _ => rfl⟩, ?_⟩
    intro between later rest heq
    simp at heq
  refine ⟨[matchB, matchA], by decide, hserved, .inr ⟨matchA, matchA, driverA, driverA, hhead,
    ⟨by simp, by decide⟩, by decide, by decide, ⟨rfl, 0, by decide, by decide⟩, rfl⟩⟩

theorem aThenB_records_b :
    ¬ ∀ files answers device index, device.lock = .free → Meets files answers device index := by
  intro hclaim
  obtain ⟨result, hresult, -, hrecords⟩ :=
    hclaim (indexWith lineA lineB) granted noDriver 0 rfl
  obtain ⟨matched, hmatched, hrecords⟩ := hrecords ⟨3, 2, 1⟩ ⟨rfl, rfl, rfl, rfl⟩ rfl
  have hlines : matchesFrom (indexWith lineA lineB) ⟨3, 2, 1⟩ sampleDevice granted.lines 0 2 =
      some [matchA, matchB] := by
    decide
  obtain rfl := some.inj (hlines.symm.trans hmatched)
  have hname : (detectDriverReq (indexWith lineA lineB) granted noDriver 0).map
      (fun result => (result.device.driverDetected, result.device.driverFullName)) =
        some (true, [98]) := by
    decide
  rw [hresult] at hname
  obtain ⟨hdetected, hfull⟩ := Prod.mk.inj (some.inj hname)
  obtain ⟨best, actual, ⟨hin, hbest⟩, ⟨hid, i, hlt, hread⟩, heq⟩ := hrecords.detected hdetected
  obtain rfl : best = matchA := by
    rcases mem_cons.mp hin with rfl | hin
    · rfl
    · obtain rfl := mem_singleton.mp hin
      exact absurd (hbest matchA (mem_cons_self ..)) (by decide)
  have hactual : actual = driverA ∨ actual = driverB ∨ actual = sampleMeta := by
    obtain rfl | rfl | rfl : i = 0 ∨ i = 1 ∨ i = 2 := by
      dsimp only at hlt
      omega
    · exact .inl (some.inj hread).symm
    · exact .inr (.inl (some.inj hread).symm)
    · exact .inr (.inr (some.inj hread).symm)
  rcases hactual with rfl | rfl | rfl
  · rw [hfull] at heq
    exact absurd heq (by decide)
  · exact absurd hid (by decide)
  · exact absurd hid (by decide)

end Zambesii.DetectDriver
