import Zambesii.UdiClean

/-!
What `udi_buf_copy` leaves in the two buffers, and how it answers a range that the source does not
have.
-/

namespace Zambesii.UdiBufCopy

open Function Nat
open KernelTypes UdiBuf
open UdiBufWrite (bufSize Whole stored hasEnoughMemoryForWrite_eq onePage noAnswers)
open UdiObjects UdiCallbacks UdiClean

structure Holds (world : World) (buf : Nat) (msgl : Msgl) (list : SgList) : Prop where
  found : world.msgls buf = some msgl
  kernel : world.lists msgl.sGListIndex = some list
  mapped : msgl.mapped = list.nFrames
  bound : bufSize list < wordModulus

def Inside (original : SgList) (srcOff srcLen : Nat) : Prop :=
  srcLen ≠ 0 ∧ srcOff + srcLen ≤ bufSize original

/-- The destination is the caller's buffer, or a new one where that is `NULL`. -/
def Begins (answers : Answers) (path : Bool) (world : World) (dstBuf : Option Nat) (buf : Nat)
    (start : World) : Prop :=
  match dstBuf with
  | some given => buf = given ∧ start = world
  | none => allocSGListAndConstrainByPathHandle answers path world = (some buf, start)

/-- The two buffers. A resize keeps the bytes that are there, and is granted when there is a range
to be copied. In one buffer the two ranges are apart, as `memcpy` demands. -/
structure Ready (answers : Answers) (world : World) (src buf : Nat) (source msgl : Msgl)
    (original list : SgList) (srcOff srcLen dstOff dstLen : Nat) : Prop where
  holds : Holds world src source original
  dest : Holds world buf msgl list
  distinct : src ≠ buf → source.sGListIndex ≠ msgl.sGListIndex
  apart : src = buf → srcOff + srcLen ≤ dstOff ∨ dstOff + srcLen ≤ srcOff
  larger : bufSize list ≤ bufSize answers.resized.2
  kept : ∀ i, i < bufSize list → answers.resized.2.bytes i = list.bytes i
  resized : bufSize answers.resized.2 < wordModulus
  grows : Inside original srcOff srcLen → bufSize list < dstOff + max srcLen dstLen →
    answers.resized.1 = true ∧ answers.remapped = true ∧
      dstOff + max srcLen dstLen ≤ bufSize answers.resized.2

structure CopyOf (original list new : SgList) (srcOff srcLen dstOff dstLen : Nat) : Prop where
  copied : ∀ i, i < srcLen →
    dstOff + i < bufSize new ∧ new.bytes (dstOff + i) = original.bytes (srcOff + i)
  before : ∀ i, i < dstOff → i < bufSize list → new.bytes i = list.bytes i
  inserted : dstLen = 0 → ∀ i, dstOff ≤ i → i < bufSize list →
    i + srcLen < bufSize new ∧ new.bytes (i + srcLen) = list.bytes i
  overwritten : srcLen ≤ dstLen → ∀ i, i < bufSize list →
    ¬ (dstOff ≤ i ∧ i < dstOff + srcLen) → new.bytes i = list.bytes i

structure Args where
  src : Nat
  srcOff : Nat
  srcLen : Nat
  dstBuf : Option Nat
  dstOff : Nat
  dstLen : Nat
  path : Bool

def Args.run (args : Args) (answers : Answers) (callback : Option Nat → World → Option World)
    (world : World) : Option World :=
  udiBufCopy answers (some callback) true (some args.src) args.srcOff args.srcLen args.dstBuf
    args.dstOff args.dstLen args.path world

/-- The callback gets the destination, which has the copy; a source that is another buffer is as it
was. -/
def Copied (answers : Answers) (world : World) (args : Args) (buf : Nat) (source : Msgl)
    (original list : SgList) : Prop :=
  ∃ after msgl new, (∀ callback, args.run answers callback world = callback (some buf) after) ∧
    after.msgls buf = some msgl ∧ after.lists msgl.sGListIndex = some new ∧
      CopyOf original list new args.srcOff args.srcLen args.dstOff args.dstLen ∧
        (args.src ≠ buf → after.msgls args.src = some source ∧
          after.lists source.sGListIndex = some original)

/-- The callback gets `NULL`, and the destination still has its bytes. -/
def Refused (answers : Answers) (world : World) (args : Args) (buf : Nat) (list : SgList) : Prop :=
  ∃ after msgl new, (∀ callback, args.run answers callback world = callback none after) ∧
    after.msgls buf = some msgl ∧ after.lists msgl.sGListIndex = some new ∧
      ∀ i, i < bufSize list → i < bufSize new ∧ new.bytes i = list.bytes i

def Meets (answers : Answers) (world : World) (args : Args) (buf : Nat) (source : Msgl)
    (original list : SgList) : Prop :=
  (Inside original args.srcOff args.srcLen → Copied answers world args buf source original list) ∧
    (¬ Inside original args.srcOff args.srcLen → Refused answers world args buf list)

def roomyList (answers : Answers) (list : SgList) (endOf : Nat) : SgList :=
  if endOf ≤ bufSize list then list else answers.resizedList list

def Args.endOf (args : Args) : Nat := endOfWrite args.dstOff args.dstLen args.srcLen

/-- The frames of the source that are mapped and those that it thinks that it has, once room has
been asked for. -/
def seenFrames (answers : Answers) (args : Args) (buf : Nat) (source : Msgl) (list : SgList) :
    Nat × Nat :=
  if args.src = buf then
    ((roomyList answers list args.endOf).nFrames, (roomyList answers list args.endOf).nFrames)
  else (source.mapped, source.nFrames)

/-- Something is to be copied; an insertion takes a resize, which leaves room for twice what is
inserted; a range of the source begins where the source sees memory, and what is not a range does
not, unless the destination cannot be given room. -/
structure Sound (answers : Answers) (args : Args) (buf : Nat) (source : Msgl)
    (original list : SgList) : Prop where
  nonempty : args.srcLen ≠ 0
  insertion : Inside original args.srcOff args.srcLen → args.dstLen = 0 →
    bufSize list < args.dstOff + args.srcLen ∧
      args.dstOff + 2 * args.srcLen ≤ bufSize answers.resized.2
  seen : Inside original args.srcOff args.srcLen →
    ¬ Missing (seenFrames answers args buf source list) args.srcOff
  refused : ¬ Inside original args.srcOff args.srcLen → Room answers list.nFrames args.endOf →
    Missing (seenFrames answers args buf source list) args.srcOff

section

variable {answers : Answers} {world next : World} {buf : Nat} {msgl : Msgl} {list : SgList}
  {dstOff dstLen srcLen : Nat}

theorem lists_of_hasEnoughMemoryForWrite {excess : Option Nat}
    (h : hasEnoughMemoryForWrite world buf dstOff dstLen srcLen = some (excess, next)) :
    next.lists = world.lists := by
  simp only [hasEnoughMemoryForWrite, Option.bind_eq_bind, Option.bind_eq_some_iff] at h
  obtain ⟨msgl, -, h⟩ := h
  split at h
  · cases h
    rfl
  · cases h
    rfl

theorem lists_remapScatterGatherList (answers : Answers) (buf : Nat) (msgl : Msgl)
    (world : World) : (remapScatterGatherList answers buf msgl world).2.lists = world.lists := by
  unfold remapScatterGatherList
  split
  · rfl
  split
  · rfl
  · rfl

theorem lists_of_grow {extra : Nat} {room : Bool} (hmsgl : world.msgls buf = some msgl)
    (hlist : world.lists msgl.sGListIndex = some list)
    (hwanted : (msgl.nFrames + bytesToPages extra) % wordModulus ≠ 0)
    (h : grow answers buf dstOff dstLen srcLen extra world = some (room, next)) :
    next.lists = (world.setList msgl.sGListIndex (some (answers.resizedList list))).lists := by
  rw [grow, hmsgl, some_bind, resizeScatterGatherList_eq hwanted hlist] at h
  split at h
  · next heq =>
    obtain ⟨-, rfl⟩ := Prod.mk.inj heq
    cases h
    rfl
  next heq =>
  obtain ⟨-, rfl⟩ := Prod.mk.inj heq
  obtain ⟨⟨excess, enough⟩, henough, h⟩ := Option.bind_eq_some_iff.mp h
  have hkept := lists_of_hasEnoughMemoryForWrite henough
  dsimp only at h
  split at h
  · cases h
    exact hkept
  · obtain ⟨msgl', -, h⟩ := Option.bind_eq_some_iff.mp h
    have hremap := lists_remapScatterGatherList answers buf msgl' enough
    rw [Option.some.inj h] at hremap
    exact hremap.trans hkept

theorem lists_of_makeRoom {room : Bool} (hmsgl : world.msgls buf = some msgl)
    (hlist : world.lists msgl.sGListIndex = some list) (hbound : bufSize list < wordModulus)
    (h : makeRoom answers buf dstOff dstLen srcLen world = some (room, next)) :
    next.lists = (world.setList msgl.sGListIndex
      (some (roomyList answers list (endOfWrite dstOff dstLen srcLen)))).lists := by
  have hfirst := hasEnoughMemoryForWrite_eq dstOff dstLen srcLen hmsgl hlist hbound
  rw [makeRoom, hfirst, some_bind] at h
  rw [roomyList]
  rcases lt_or_ge (bufSize list) (endOfWrite dstOff dstLen srcLen) with hbeyond | hwithin
  · rw [if_neg (not_le.mpr hbeyond)]
    rw [if_pos hbeyond] at h
    let first := world.setMsgl buf (some { msgl with nFrames := list.nFrames })
    have hfound : first.msgls buf = some { msgl with nFrames := list.nFrames } :=
      update_self ..
    have hkernel : first.lists msgl.sGListIndex = some list := hlist
    have hgrown := lists_of_grow hfound hkernel (wanted_ne_zero hbound hbeyond) h
    exact hgrown
  · rw [if_pos hwithin]
    rw [if_neg (not_lt.mpr hwithin)] at h
    cases h
    exact (update_eq_self_iff.mpr hlist.symm).symm

end

section

variable {world : World} {src buf index n : Nat} {list original new : SgList} {source : Msgl}
  {srcOff dstOff dstLen srcLen : Nat}

def movedBytes (srcLen dstOff dstLen : Nat) (bytes : Nat → UInt8) : Nat → UInt8 :=
  if dstLen = 0 then place bytes (dstOff + srcLen) srcLen fun i => bytes (dstOff + i) else bytes

theorem Whole.copyMoveUp_eq (h : Whole world buf index n list)
    (hdst : dstOff + srcLen ≤ pagingBaseSize * n)
    (htwice : dstLen = 0 → dstOff + 2 * srcLen ≤ pagingBaseSize * n) :
    copyMoveUp srcLen buf dstOff dstLen world =
      some (stored world index list (movedBytes srcLen dstOff dstLen list.bytes)) := by
  have hbound := h.bound
  rw [copyMoveUp, movedBytes]
  split
  · next hzero =>
    rw [mod_eq_of_lt (by omega), h.memmove_eq (by omega) hdst]
  · rw [h.stored_self]

def sourceBytes (same : Bool) (srcLen dstOff dstLen : Nat) (original list : SgList) : Nat → UInt8 :=
  if same then movedBytes srcLen dstOff dstLen list.bytes else original.bytes

theorem Whole.copyBytes_eq (h : Whole world buf index n list)
    (hsource : world.msgls src = some source)
    (hkernel : world.lists source.sGListIndex = some original)
    (hsrc : srcOff + srcLen ≤ pagingBaseSize * source.mapped)
    (hdst : dstOff + srcLen ≤ pagingBaseSize * n)
    (htwice : dstLen = 0 → dstOff + 2 * srcLen ≤ pagingBaseSize * n) :
    copyBytes src srcOff srcLen buf dstOff dstLen world =
      some (stored world index list (place (movedBytes srcLen dstOff dstLen list.bytes) dstOff
        srcLen fun i => sourceBytes (source.sGListIndex == index) srcLen dstOff dstLen original
          list (srcOff + i))) := by
  have hmoved := h.store_whole (movedBytes srcLen dstOff dstLen list.bytes)
  have haccessible : Accessible source srcOff srcLen := .inr hsrc
  have hlist : ∃ from', (stored world index list
      (movedBytes srcLen dstOff dstLen list.bytes)).lists source.sGListIndex = some from' ∧
        from'.bytes = sourceBytes (source.sGListIndex == index) srcLen dstOff dstLen original
          list := by
    rcases eq_or_ne source.sGListIndex index with heq | hne
    · rw [heq]
      refine ⟨_, hmoved.kernel, ?_⟩
      simp [sourceBytes]
    · refine ⟨original, ?_, ?_⟩
      · rw [← hkernel]
        exact update_of_ne hne ..
      · simp [sourceBytes, hne]
  obtain ⟨from', hfrom, hbytes⟩ := hlist
  have hfound : (stored world index list
      (movedBytes srcLen dstOff dstLen list.bytes)).msgls src = some source := hsource
  rw [copyBytes, Whole.copyMoveUp_eq h hdst htwice, Option.bind_some, copyIn, hfound,
    some_bind, if_pos haccessible, hfrom, some_bind, hmoved.write_eq hdst, hbytes]
  simp [stored, World.setList]

theorem movedBytes_eq {old : SgList} (hkept : ∀ i, i < bufSize old → list.bytes i = old.bytes i)
    (hinsertion : dstLen = 0 → bufSize old < dstOff + srcLen) {i : Nat} (hi : i < bufSize old) :
    movedBytes srcLen dstOff dstLen list.bytes i = old.bytes i := by
  rw [movedBytes]
  split
  · next hzero =>
    rw [place, if_neg (by omega), hkept i hi]
  · exact hkept i hi

theorem copyOf_place {old : SgList} {copy : Nat → UInt8}
    (hkept : ∀ i, i < bufSize old → list.bytes i = old.bytes i)
    (hcopy : ∀ i, i < srcLen → copy i = original.bytes (srcOff + i))
    (hdst : dstOff + srcLen ≤ bufSize list)
    (hinsertion : dstLen = 0 → bufSize old < dstOff + srcLen ∧ dstOff + 2 * srcLen ≤ bufSize list) :
    CopyOf original old
      { list with bytes := place (movedBytes srcLen dstOff dstLen list.bytes) dstOff srcLen copy }
      srcOff srcLen dstOff dstLen where
  copied := by
    intro i hi
    refine ⟨lt_of_lt_of_le (Nat.add_lt_add_left hi dstOff) hdst, ?_⟩
    simp only [place]
    rw [if_pos ⟨by omega, by omega⟩, Nat.add_sub_cancel_left, hcopy i hi]
  before := by
    intro i hi hold
    simp only [place]
    rw [if_neg (by omega)]
    exact movedBytes_eq hkept (fun hzero => (hinsertion hzero).1) hold
  inserted := by
    intro hzero i hle hold
    obtain ⟨hlast, htwice⟩ := hinsertion hzero
    refine ⟨lt_of_lt_of_le (by omega) htwice, ?_⟩
    simp only [place]
    rw [if_neg (by omega), movedBytes, if_pos hzero, place, if_pos ⟨by omega, by omega⟩]
    have hfrom : dstOff + (i + srcLen - (dstOff + srcLen)) = i := by omega
    rw [hfrom, hkept i hold]
  overwritten := by
    intro hle i hold hout
    simp only [place]
    rw [if_neg hout]
    exact movedBytes_eq hkept (fun hzero => (hinsertion hzero).1) hold

end

section

variable {answers : Answers} {world start next : World} {args : Args} {buf : Nat}
  {source msgl : Msgl} {original list : SgList}

theorem bufSize_roomyList (hlarger : bufSize list ≤ bufSize answers.resized.2) (endOf : Nat) :
    bufSize list ≤ bufSize (roomyList answers list endOf) := by
  rw [roomyList]
  split
  · exact le_refl _
  · exact hlarger

theorem roomyList_kept (hkept : ∀ i, i < bufSize list → answers.resized.2.bytes i = list.bytes i)
    (endOf : Nat) {i : Nat} (hi : i < bufSize list) :
    (roomyList answers list endOf).bytes i = list.bytes i := by
  rw [roomyList]
  split
  · rfl
  · exact hkept i hi

theorem roomy_eq (answers : Answers) (list : SgList) (endOf : Nat) :
    roomy answers list.nFrames list.nFrames endOf = (roomyList answers list endOf).nFrames := by
  rw [roomy, roomyList, bufSize]
  split <;> rfl

structure Asked (answers : Answers) (start : World) (args : Args) (buf : Nat) (source msgl : Msgl)
    (original list : SgList) (next : World) : Prop where
  dest : ∃ mapped nFrames, next.msgls buf = some ⟨mapped, nFrames, msgl.sGListIndex⟩
  kernel : next.lists msgl.sGListIndex = some (roomyList answers list args.endOf)
  whole : Room answers list.nFrames args.endOf → Whole next buf msgl.sGListIndex
    (roomyList answers list args.endOf).nFrames (roomyList answers list args.endOf)
  seen : Room answers list.nFrames args.endOf → ∃ seen, next.msgls args.src = some seen ∧
    (seen.mapped, seen.nFrames) = seenFrames answers args buf source list ∧
      ((args.src = buf ∧ original = list ∧ seen.sGListIndex = msgl.sGListIndex) ∨
        (args.src ≠ buf ∧ seen = source ∧ seen.sGListIndex ≠ msgl.sGListIndex ∧
          next.lists seen.sGListIndex = some original))

theorem asked_of_makeRoom
    (h : Ready answers start args.src buf source msgl original list args.srcOff args.srcLen
      args.dstOff args.dstLen)
    (hmake : makeRoom answers buf args.dstOff args.dstLen args.srcLen start =
      some (decide (Room answers list.nFrames args.endOf), next))
    (hmakes : Makes answers start buf msgl list args.endOf next) :
    Asked answers start args buf source msgl original list next := by
  have hlists := lists_of_makeRoom h.dest.found h.dest.kernel h.dest.bound hmake
  have hkernel : next.lists msgl.sGListIndex = some (roomyList answers list args.endOf) := by
    rw [hlists]
    exact update_self ..
  obtain ⟨mapped, nFrames, list', hmsgl, -, -, hvalues, -⟩ := hmakes.found
  have hwhole : Room answers list.nFrames args.endOf → Whole next buf msgl.sGListIndex
      (roomyList answers list args.endOf).nFrames (roomyList answers list args.endOf) := by
    intro hroom
    obtain ⟨rfl, rfl⟩ := hvalues hroom
    rw [h.dest.mapped, roomy_eq] at hmsgl
    refine ⟨hmsgl, hkernel, ?_⟩
    rw [roomyList]
    split
    · exact h.dest.bound
    · exact h.resized
  refine ⟨⟨mapped, nFrames, hmsgl⟩, hkernel, hwhole, ?_⟩
  intro hroom
  rcases eq_or_ne args.src buf with heq | hne
  · have hsame : source = msgl := by
      have hfound := h.holds.found
      rw [heq] at hfound
      exact Option.some.inj (hfound.symm.trans h.dest.found)
    have horiginal : original = list := by
      have hlist := h.holds.kernel
      rw [hsame] at hlist
      exact Option.some.inj (hlist.symm.trans h.dest.kernel)
    have hfound := (hwhole hroom).found
    rw [← heq] at hfound
    refine ⟨_, hfound, ?_, .inl ⟨heq, horiginal, rfl⟩⟩
    rw [seenFrames, if_pos heq]
  · have hindex := h.distinct hne
    refine ⟨source, by rw [hmakes.others _ hne, h.holds.found], ?_,
      .inr ⟨hne, rfl, hindex, ?_⟩⟩
    · rw [seenFrames, if_neg hne]
    · rw [hlists, ← h.holds.kernel]
      exact update_of_ne hindex ..

theorem run_eq {callback : Option Nat → World → Option World}
    (hbegins : Begins answers args.path world args.dstBuf buf start) (hpos : args.srcLen ≠ 0) :
    args.run answers callback world = bufCopyInto answers (some callback) (some args.src)
      args.srcOff args.srcLen buf args.dstOff args.dstLen start := by
  have hsource : ¬ (some args.src = none ∨ args.srcLen < 1) := by
    rintro (hnone | hshort)
    · cases hnone
    · omega
  simp only [Args.run, udiBufCopy, checkGcbAndCallbackValid, checkSource, Bool.true_eq_false,
    false_and, if_false, some_bind, if_neg hsource]
  cases hdst : args.dstBuf with
  | some given =>
    rw [hdst] at hbegins
    obtain ⟨rfl, rfl⟩ := hbegins
    rfl
  | none =>
    rw [hdst] at hbegins
    rw [hbegins]

theorem run_cases
    (h : Ready answers start args.src buf source msgl original list args.srcOff args.srcLen
      args.dstOff args.dstLen)
    (hbegins : Begins answers args.path world args.dstBuf buf start) (hpos : args.srcLen ≠ 0) :
    ∃ next, Asked answers start args buf source msgl original list next ∧
      ((¬ (Room answers list.nFrames args.endOf ∧
          ¬ Missing (seenFrames answers args buf source list) args.srcOff) ∧
        ∀ callback, args.run answers callback world = callback none next) ∨
      ((Room answers list.nFrames args.endOf ∧
          ¬ Missing (seenFrames answers args buf source list) args.srcOff) ∧
        ∀ callback, args.run answers callback world =
          (copyBytes args.src args.srcOff args.srcLen buf args.dstOff args.dstLen next).bind
            (callback (some buf)))) := by
  have hspec : ∃ next, makeRoom answers buf args.dstOff args.dstLen args.srcLen start =
        some (decide (Room answers list.nFrames args.endOf), next) ∧
      Makes answers start buf msgl list args.endOf next :=
    makeRoom_spec h.dest.found h.dest.kernel h.dest.bound h.resized
  obtain ⟨next, hmake, hmakes⟩ := hspec
  have hasked := asked_of_makeRoom h hmake hmakes
  refine ⟨next, hasked, ?_⟩
  rcases em (Room answers list.nFrames args.endOf) with hroom | hnone
  · obtain ⟨seen, hfound, hframes, -⟩ := hasked.seen hroom
    have haddr := getAddrForOffset_eq_none_iff seen args.srcOff
    rw [hframes] at haddr
    have hdecide := decide_eq_true hroom
    rcases em (Missing (seenFrames answers args buf source list) args.srcOff)
      with hmissing | hthere
    · refine .inl ⟨fun hboth => hboth.2 hmissing, fun callback => ?_⟩
      rw [run_eq hbegins hpos, bufCopyInto_eq hmake, hdecide, if_neg (by simp), hfound,
        Option.bind_some, if_pos (haddr.mpr hmissing)]
      rfl
    · refine .inr ⟨⟨hroom, hthere⟩, fun callback => ?_⟩
      rw [run_eq hbegins hpos, bufCopyInto_eq hmake, hdecide, if_neg (by simp), hfound,
        Option.bind_some, if_neg fun hnone => hthere (haddr.mp hnone)]
      rfl
  · have hdecide := decide_eq_false hnone
    refine .inl ⟨fun hboth => hnone hboth.1, fun callback => ?_⟩
    rw [run_eq hbegins hpos, bufCopyInto_eq hmake, hdecide, if_pos rfl]
    rfl

end

section

variable {answers : Answers} {world start next : World} {args : Args} {buf : Nat}
  {source msgl : Msgl} {original list : SgList}

variable
  (h : Ready answers start args.src buf source msgl original list args.srcOff args.srcLen
    args.dstOff args.dstLen)

include h

variable (hinside : Inside original args.srcOff args.srcLen)

include hinside

theorem Ready.endOf_eq : args.endOf = args.dstOff + max args.srcLen args.dstLen := by
  have hlt : args.dstOff + max args.srcLen args.dstLen < wordModulus := by
    rcases lt_or_ge (bufSize list) (args.dstOff + max args.srcLen args.dstLen)
      with hbeyond | hwithin
    · exact lt_of_le_of_lt (h.grows hinside hbeyond).2.2 h.resized
    · exact lt_of_le_of_lt hwithin h.dest.bound
  rw [Args.endOf, endOfWrite]
  split
  · rw [mod_eq_of_lt (by omega), max_eq_left (by omega)]
  · rw [mod_eq_of_lt (by omega), max_eq_right (by omega)]

theorem Ready.room : Room answers list.nFrames args.endOf := by
  rw [h.endOf_eq hinside]
  rcases lt_or_ge (bufSize list) (args.dstOff + max args.srcLen args.dstLen)
    with hbeyond | hwithin
  · obtain ⟨hdone, hremapped, hle⟩ := h.grows hinside hbeyond
    exact .inr ⟨hdone, hle, hremapped⟩
  · exact .inl hwithin

theorem Ready.le_roomyList :
    args.dstOff + args.srcLen ≤ bufSize (roomyList answers list args.endOf) := by
  have hend := h.endOf_eq hinside
  have hroom := le_of_room (h.room hinside)
  rw [roomy_eq] at hroom
  unfold bufSize
  omega

theorem Ready.roomyList_insertion (hbeyond : bufSize list < args.dstOff + args.srcLen) :
    roomyList answers list args.endOf = answers.resizedList list := by
  rw [roomyList, h.endOf_eq hinside, if_neg (by omega)]

omit hinside

omit h

variable (hasked : Asked answers start args buf source msgl original list next)

include hasked

variable (h : Ready answers start args.src buf source msgl original list args.srcOff args.srcLen args.dstOff args.dstLen)

include h

variable (hinside : Inside original args.srcOff args.srcLen)

include hinside

theorem Asked.range :
    ∃ seen held, next.msgls args.src = some seen ∧ next.lists seen.sGListIndex = some held ∧
      args.srcOff + args.srcLen ≤ pagingBaseSize * seen.mapped ∧
        ((args.dstLen = 0 → bufSize list < args.dstOff + args.srcLen) → ∀ i, i < args.srcLen →
          sourceBytes (seen.sGListIndex == msgl.sGListIndex) args.srcLen args.dstOff args.dstLen
            held (roomyList answers list args.endOf) (args.srcOff + i) =
              original.bytes (args.srcOff + i)) ∧
          (args.src ≠ buf → seen = source ∧ held = original ∧
            seen.sGListIndex ≠ msgl.sGListIndex) := by
  obtain ⟨seen, hfound, hframes, hwhich⟩ := hasked.seen (h.room hinside)
  rw [seenFrames] at hframes
  obtain ⟨heq, rfl, hindex⟩ | ⟨hne, rfl, hindex, hkernel⟩ := hwhich
  · rw [if_pos heq] at hframes
    refine ⟨seen, _, hfound, by rw [hindex, hasked.kernel], ?_, ?_, fun hne => absurd heq hne⟩
    · rw [(Prod.mk.inj hframes).1]
      exact le_trans hinside.2 (bufSize_roomyList h.larger args.endOf)
    · intro hinsertion i hi
      have hold : args.srcOff + i < bufSize original :=
        lt_of_lt_of_le (Nat.add_lt_add_left hi _) hinside.2
      rw [hindex, beq_self_eq_true, sourceBytes, if_pos rfl]
      exact movedBytes_eq (fun i hi => roomyList_kept h.kept _ hi) hinsertion hold
  · refine ⟨seen, original, hfound, hkernel, ?_, ?_, fun _ => ⟨rfl, rfl, hindex⟩⟩
    · rw [h.holds.mapped]
      exact hinside.2
    · intro _ i _
      rw [beq_eq_false_iff_ne.mpr hindex]
      rfl

theorem Asked.copied (hinsertion : args.dstLen = 0 → bufSize list < args.dstOff + args.srcLen ∧
      args.dstOff + 2 * args.srcLen ≤ bufSize answers.resized.2)
    (hrun : ∀ callback, args.run answers callback world =
      (copyBytes args.src args.srcOff args.srcLen buf args.dstOff args.dstLen next).bind
        (callback (some buf))) : Copied answers world args buf source original list := by
  have hwhole := hasked.whole (h.room hinside)
  obtain ⟨seen, held, hfound, hkernel, hmapped, hbytes, hother⟩ := hasked.range h hinside
  have hsame := hbytes fun hzero => (hinsertion hzero).1
  have htwice : args.dstLen = 0 →
      args.dstOff + 2 * args.srcLen ≤ bufSize (roomyList answers list args.endOf) := by
    intro hzero
    obtain ⟨hbeyond, hle⟩ := hinsertion hzero
    rw [h.roomyList_insertion hinside hbeyond]
    exact hle
  have hcopy := Whole.copyBytes_eq hwhole hfound hkernel hmapped (h.le_roomyList hinside) htwice
  have hstored := hwhole.store_whole
    (place (movedBytes args.srcLen args.dstOff args.dstLen
      (roomyList answers list args.endOf).bytes) args.dstOff args.srcLen fun i =>
        sourceBytes (seen.sGListIndex == msgl.sGListIndex) args.srcLen args.dstOff args.dstLen
          held (roomyList answers list args.endOf) (args.srcOff + i))
  refine ⟨_, _, _, fun callback => ?_, hstored.found, hstored.kernel, ?_, ?_⟩
  · rw [hrun, hcopy, Option.bind_some]
  · exact copyOf_place (fun i hi => roomyList_kept h.kept _ hi) hsame (h.le_roomyList hinside)
      fun hzero => ⟨(hinsertion hzero).1, htwice hzero⟩
  · intro hne
    obtain ⟨rfl, rfl, hindex⟩ := hother hne
    refine ⟨hfound, ?_⟩
    rw [← hkernel]
    exact update_of_ne hindex ..

theorem Asked.insertion (hrun : ∀ callback, args.run answers callback world =
      (copyBytes args.src args.srcOff args.srcLen buf args.dstOff args.dstLen next).bind
        (callback (some buf)))
    (hcopied : Copied answers world args buf source original list) (hzero : args.dstLen = 0) :
    bufSize list < args.dstOff + args.srcLen ∧
      args.dstOff + 2 * args.srcLen ≤ bufSize answers.resized.2 := by
  have hwhole := hasked.whole (h.room hinside)
  have hpos := hinside.1
  obtain ⟨seen, held, hfound, hkernel, hmapped, -, -⟩ := hasked.range h hinside
  obtain ⟨after, msgl', new, hcalls, hmsgl', hnew, hcopy, -⟩ := hcopied
  have hend := hcalls fun _ world => some world
  rw [hrun] at hend
  obtain ⟨put, hput, hlast⟩ := Option.bind_eq_some_iff.mp hend
  cases hlast
  obtain ⟨moved, hmoved, -⟩ := Option.bind_eq_some_iff.mp hput
  have hat : At next buf (roomyList answers list args.endOf).nFrames
      (roomyList answers list args.endOf).nFrames :=
    ⟨⟨_, _, hwhole.found, hwhole.kernel⟩, hwhole.bound, hwhole.bound⟩
  have htwice : args.dstOff + 2 * args.srcLen ≤ bufSize (roomyList answers list args.endOf) := by
    have hmove : (copyMoveUp args.srcLen buf args.dstOff args.dstLen next).isSome := by
      rw [hmoved]
      rfl
    rw [hat.copyMoveUp_isSome_iff hpos, min_self] at hmove
    exact hmove hzero
  have hbeyond : bufSize list < args.dstOff + args.srcLen := by
    rcases lt_or_ge (bufSize list) (args.dstOff + args.srcLen) with hbeyond | hwithin
    · exact hbeyond
    -- the buffer keeps its size, so that its last byte has no place to go to
    have hsame : roomyList answers list args.endOf = list := by
      rw [roomyList, h.endOf_eq hinside, if_pos (by omega)]
    have hcopyBytes := Whole.copyBytes_eq hwhole hfound hkernel hmapped (h.le_roomyList hinside)
      fun (_ : args.dstLen = 0) => htwice
    cases hput.symm.trans hcopyBytes
    cases hwhole.found.symm.trans hmsgl'
    have hsize : bufSize new = bufSize list := by
      have hstored := (hwhole.store_whole _).kernel.symm.trans hnew
      rw [← Option.some.inj hstored, hsame, bufSize, bufSize]
    have hlast := (hcopy.inserted hzero (bufSize list - 1) (by omega) (by omega)).1
    omega
  rw [h.roomyList_insertion hinside hbeyond] at htwice
  exact ⟨hbeyond, htwice⟩

omit hinside

omit h

omit hasked

theorem not_refused_of_empty (hempty : args.srcLen = 0) :
    ¬ Refused answers world args buf list := by
  rintro ⟨after, -, -, hcalls, -⟩
  have hquiet := hcalls fun _ world => some world
  have hanswering : Answering Eq (some fun (_ : Option Nat) world => some world) := by
    intro answer first last hrun
    rw [Option.some.inj hrun]
  have hkept := answering_udiBufCopy hanswering Eq.trans hquiet
  have hloud := hcalls fun answer world =>
    some (told (if answer = none then .failed else .completed) world)
  obtain ⟨checked, hchecked, hgrows⟩ := answering_copyChecked answering_driver hloud
  rw [checkSource, if_pos (.inr (by omega))] at hchecked
  have hfirst := answering_driver none world checked hchecked
  unfold Grows at hfirst hgrows
  rw [told, List.length_append, List.length_singleton, ← hkept] at hgrows
  omega

variable
  (h : Ready answers start args.src buf source msgl original list args.srcOff args.srcLen
    args.dstOff args.dstLen)

include h

variable (hbegins : Begins answers args.path world args.dstBuf buf start)

include hbegins

theorem Copied.fits (hinside : Inside original args.srcOff args.srcLen)
    (hcopied : Copied answers world args buf source original list) :
    ¬ Missing (seenFrames answers args buf source list) args.srcOff ∧
      (args.dstLen = 0 → bufSize list < args.dstOff + args.srcLen ∧
        args.dstOff + 2 * args.srcLen ≤ bufSize answers.resized.2) := by
  obtain ⟨next, hasked, ⟨-, hrun⟩ | ⟨⟨-, hthere⟩, hrun⟩⟩ := run_cases h hbegins hinside.1
  · obtain ⟨after, -, -, hcalls, -⟩ := hcopied
    have hclash := hcalls fun answer world => if answer = none then none else some world
    rw [hrun] at hclash
    simp at hclash
  · exact ⟨hthere, hasked.insertion h hinside hrun hcopied⟩

theorem Refused.missing (hpos : args.srcLen ≠ 0) (hrefused : Refused answers world args buf list)
    (hroom : Room answers list.nFrames args.endOf) :
    Missing (seenFrames answers args buf source list) args.srcOff := by
  obtain ⟨next, -, ⟨hnot, -⟩ | ⟨-, hrun⟩⟩ := run_cases h hbegins hpos
  · exact Classical.not_not.mp fun hthere => hnot ⟨hroom, hthere⟩
  · obtain ⟨after, -, -, hcalls, -⟩ := hrefused
    have hclash := hcalls fun answer world => if answer = none then some world else none
    rw [hrun] at hclash
    simp at hclash

theorem Sound.copied (hsound : Sound answers args buf source original list)
    (hinside : Inside original args.srcOff args.srcLen) :
    Copied answers world args buf source original list := by
  obtain ⟨next, hasked, ⟨hnot, -⟩ | ⟨-, hrun⟩⟩ := run_cases h hbegins hsound.nonempty
  · exact absurd ⟨h.room hinside, hsound.seen hinside⟩ hnot
  · exact hasked.copied h hinside (hsound.insertion hinside) hrun

theorem Sound.refuses (hsound : Sound answers args buf source original list)
    (hout : ¬ Inside original args.srcOff args.srcLen) : Refused answers world args buf list := by
  obtain ⟨next, hasked, ⟨-, hrun⟩ | ⟨⟨hroom, hthere⟩, -⟩⟩ := run_cases h hbegins hsound.nonempty
  · obtain ⟨mapped, nFrames, hmsgl⟩ := hasked.dest
    refine ⟨next, _, _, hrun, hmsgl, hasked.kernel, fun i hi => ⟨?_, ?_⟩⟩
    · exact lt_of_lt_of_le hi (bufSize_roomyList h.larger args.endOf)
    · exact roomyList_kept h.kept args.endOf hi
  · exact absurd (hsound.refused hout hroom) hthere

omit hbegins

omit h

/-- `udi_buf_copy` does its work exactly when something is to be copied, an insertion takes a
resize which leaves room for twice what is inserted, and the source sees memory at the offset of a
range that it has and none elsewhere. -/
theorem copies_iff_sound
    (h : Ready answers start args.src buf source msgl original list args.srcOff args.srcLen
      args.dstOff args.dstLen) (hbegins : Begins answers args.path world args.dstBuf buf start) :
    Meets answers world args buf source original list ↔
      Sound answers args buf source original list := by
  constructor
  · rintro ⟨hcopied, hrefused⟩
    have hpos : args.srcLen ≠ 0 := fun hempty =>
      not_refused_of_empty hempty (hrefused fun hinside => hinside.1 hempty)
    refine ⟨hpos, fun hinside => ?_, fun hinside => ?_, fun hout => ?_⟩
    · exact ((hcopied hinside).fits h hbegins hinside).2
    · exact ((hcopied hinside).fits h hbegins hinside).1
    · exact (hrefused hout).missing h hbegins hpos
  · intro hsound
    exact ⟨hsound.copied h hbegins, hsound.refuses h hbegins⟩

end

def twoBuffers : World where
  fresh := 4
  msgls := fun buf => if buf = 2 then some ⟨1, 1, 0⟩ else if buf = 3 then some ⟨1, 1, 1⟩ else none
  lists := fun index => if index < 2 then some onePage else none
  handles := fun _ => none
  arrays := fun _ => false
  reports := []
  kept := none

def copyFirst (srcOff srcLen dstOff dstLen : Nat) : Args where
  src := 2
  srcOff := srcOff
  srcLen := srcLen
  dstBuf := some 3
  dstOff := dstOff
  dstLen := dstLen
  path := false

theorem ready_twoBuffers {srcOff srcLen dstOff dstLen : Nat}
    (hfits : dstOff + max srcLen dstLen ≤ 4096) :
    Ready noAnswers twoBuffers 2 3 ⟨1, 1, 0⟩ ⟨1, 1, 1⟩ onePage onePage srcOff srcLen dstOff
      dstLen where
  holds := ⟨rfl, rfl, rfl, by decide⟩
  dest := ⟨rfl, rfl, rfl, by decide⟩
  distinct := fun _ => by decide
  apart := fun heq => absurd heq (by decide)
  larger := le_refl _
  kept := fun _ _ => rfl
  resized := by decide
  grows := fun _ hbeyond => absurd hfits (not_le.mpr hbeyond)

theorem meets_copyFirst_overwrite :
    Meets noAnswers twoBuffers (copyFirst 0 2 100 2) 3 ⟨1, 1, 0⟩ onePage onePage := by
  refine (@copies_iff_sound _ _ twoBuffers (copyFirst 0 2 100 2) 3 _ ⟨1, 1, 1⟩ _ _
    (ready_twoBuffers (by decide)) ⟨rfl, rfl⟩).mpr ⟨by decide, ?_, ?_, ?_⟩
  · exact fun _ hzero => absurd hzero (by decide)
  · rintro - (hbeyond | hunmapped)
    · exact absurd hbeyond (by decide)
    · exact absurd hunmapped (by decide)
  · exact fun hout => absurd ⟨by decide, by decide⟩ hout

theorem copyFirst_insertion_lost :
    ¬ ∀ (answers : Answers) (world start : World) (args : Args) (buf : Nat) (source msgl : Msgl)
      (original list : SgList),
      Ready answers start args.src buf source msgl original list args.srcOff args.srcLen
          args.dstOff args.dstLen → Begins answers args.path world args.dstBuf buf start →
          Meets answers world args buf source original list := by
  intro hclaim
  have hready : Ready noAnswers twoBuffers 2 3 ⟨1, 1, 0⟩ ⟨1, 1, 1⟩ onePage onePage 0 1 0 0 :=
    ready_twoBuffers (by decide)
  have hinside : Inside onePage 0 1 := ⟨by decide, by decide⟩
  have hmeets := hclaim noAnswers twoBuffers twoBuffers (copyFirst 0 1 0 0) 3 ⟨1, 1, 0⟩ ⟨1, 1, 1⟩
    onePage onePage hready ⟨rfl, rfl⟩
  have hfits := @Copied.fits _ _ twoBuffers (copyFirst 0 1 0 0) 3 _ ⟨1, 1, 1⟩ _ _ hready ⟨rfl, rfl⟩
    hinside (hmeets.1 hinside)
  exact absurd (hfits.2 rfl).1 (by decide)

end Zambesii.UdiBufCopy
