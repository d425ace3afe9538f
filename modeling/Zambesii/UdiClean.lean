import Zambesii.UdiCallbacks

/-!
Calls that are clean: the callback is called exactly once, with nothing left behind by a failure.
This is settled here for `udi_buf_write` and `udi_buf_copy`.
-/

namespace Zambesii.UdiClean

open Function List Option
open KernelTypes
open DmaConstraints (Compiler)
open UdiBuf UdiDma UdiObjects UdiCallbacks
open UdiBufWrite (bufSize)

def told (report : Report) (world : World) : World :=
  { world with reports := world.reports ++ [report] }

/-- The driver's callback, if it passes one, for all functions but `udi_dma_buf_map`. -/
def driver (present : Bool) : Callback (Option Nat) :=
  if present then
    some fun answer world => some (told (if answer = none then .failed else .completed) world)
  else none

/-- The driver's callback for `udi_dma_buf_map`. -/
def mapDriver (present : Bool) : Callback MapReport :=
  if present then
    some fun answer world =>
      some (told (if answer.status = .ok then .completed else .failed) world)
  else none

structure Released (world next : World) : Prop where
  msgls : ∀ buf, (next.msgls buf).isSome = (world.msgls buf).isSome
  lists : ∀ index, (next.lists index).isSome = (world.lists index).isSome
  handles : ∀ handle, (next.handles handle).isSome = (world.handles handle).isSome
  arrays : next.arrays = world.arrays

/-- The call returns, the callback has been called once, and after a failure nothing that the call
allocated is left. -/
def Clean (world : World) (result : Option World) : Prop :=
  ∃ next report, result = some next ∧ next.reports = world.reports ++ [report] ∧
    (report = .failed → Released world next)

/-- New objects are not where others are, and every buffer has a list, which fits the address
space. -/
structure WellFormed (world : World) : Prop where
  fresh : ∀ object ≥ world.fresh, world.msgls object = none ∧ world.lists object = none ∧
    world.handles object = none ∧ world.arrays object = false
  list : ∀ buf msgl, world.msgls buf = some msgl →
    ∃ list, world.lists msgl.sGListIndex = some list ∧ bufSize list < wordModulus
  mapped : ∀ buf msgl, world.msgls buf = some msgl → pagingBaseSize * msgl.mapped < wordModulus

def Allocates (answers : Answers) (path : Bool) : Prop :=
  answers.msglAllocated = true ∧ answers.sgListAllocated = true ∧
    (path = true → answers.parentConstraints.isSome ∧ answers.constrained = true)

/-- A write to a buffer, of which so much is mapped: when there is room, the memory that it touches
is there. -/
def WriteReturns (answers : Answers) (mapped nFrames : Nat) (srcMem : Option (Nat → UInt8))
    (srcLen dstOff dstLen : Nat) : Prop :=
  WriteFits (roomy answers mapped nFrames (endOfWrite dstOff dstLen srcLen))
    (roomy answers nFrames nFrames (endOfWrite dstOff dstLen srcLen)) srcMem srcLen dstOff dstLen

/-- The mapping and the frames of the source of a copy, once there is room in the destination. -/
def sourceOf (answers : Answers) (world : World) (src buf mapped nFrames endOf : Nat) :
    Option (Nat × Nat) :=
  if src = buf then some (roomy answers mapped nFrames endOf, roomy answers nFrames nFrames endOf)
  else (world.msgls src).map fun msgl => (msgl.mapped, msgl.nFrames)

def Missing (source : Nat × Nat) (srcOff : Nat) : Prop :=
  pagesToBytes source.2 ≤ srcOff ∨ source.1 = 0

def CopyReturns (answers : Answers)
    (sourceMapped mapped nFrames srcOff srcLen dstOff dstLen : Nat) : Prop :=
  CopyFits sourceMapped (roomy answers mapped nFrames (endOfWrite dstOff dstLen srcLen))
    (roomy answers nFrames nFrames (endOfWrite dstOff dstLen srcLen)) srcOff srcLen dstOff dstLen

def SoundWrite (answers : Answers) (world : World) (srcMem : Option (Nat → UInt8)) (srcLen : Nat)
    (dstOff dstLen : Nat) (path : Bool) : Option Nat → Prop
  | some buf => ∃ msgl list, world.msgls buf = some msgl ∧
      world.lists msgl.sGListIndex = some list ∧
        (Room answers list.nFrames (endOfWrite dstOff dstLen srcLen) →
          WriteReturns answers msgl.mapped list.nFrames srcMem srcLen dstOff dstLen)
  | none => Allocates answers path →
      Room answers 0 (endOfWrite dstOff dstLen srcLen) ∧
        WriteReturns answers 0 0 srcMem srcLen dstOff dstLen

def SoundCopy (answers : Answers) (world : World) (src srcOff srcLen dstOff dstLen : Nat)
    (path : Bool) : Option Nat → Prop
  | some buf => ∃ msgl list, world.msgls buf = some msgl ∧
      world.lists msgl.sGListIndex = some list ∧
        (Room answers list.nFrames (endOfWrite dstOff dstLen srcLen) →
          ∃ source, sourceOf answers world src buf msgl.mapped list.nFrames
              (endOfWrite dstOff dstLen srcLen) = some source ∧
            (¬ Missing source srcOff → CopyReturns answers source.1 msgl.mapped list.nFrames srcOff
              srcLen dstOff dstLen))
  | none => Allocates answers path →
      Room answers 0 (endOfWrite dstOff dstLen srcLen) ∧
        ∃ source, sourceOf answers world src (world.fresh + 1) 0 0
            (endOfWrite dstOff dstLen srcLen) = some source ∧
          ¬ Missing source srcOff ∧
            CopyReturns answers source.1 0 0 srcOff srcLen dstOff dstLen

section

variable {world next : World} {report : Report}

def Grows (before after : List Report) : Prop := before.length < after.length

theorem Grows.trans {a b c : List Report} (h : Grows a b) (h' : Grows b c) : Grows a c :=
  lt_trans h h'

theorem grows_told (report : Report) (world : World) :
    Grows world.reports (told report world).reports := by
  simp [Grows, told]

theorem answering_driver : Answering Grows (driver true) := by
  intro answer world next hrun
  cases hrun
  exact grows_told _ world

theorem answering_mapDriver : Answering Grows (mapDriver true) := by
  intro answer world next hrun
  cases hrun
  exact grows_told _ world

theorem answering_none (relation : List Report → List Report → Prop) {α : Type} :
    Answering relation (none : Callback α) := by
  intro answer world next hrun
  cases hrun

theorem not_clean_of_grows {first last : World} (hfirst : Grows world.reports first.reports)
    (hlast : Grows first.reports last.reports) : ¬ Clean world (some last) := by
  rintro ⟨next, report, hnext, hreports, -⟩
  cases hnext
  unfold Grows at hfirst hlast
  rw [hreports, length_append, length_singleton] at hlast
  omega

theorem not_clean_none (world : World) : ¬ Clean world none := by
  rintro ⟨next, report, hnext, -⟩
  cases hnext

theorem given_of_clean {α : Type} {drives : Bool → Callback α} {answer : α}
    (run : Callback α → World → Option World) {callback gcb : Bool}
    (hpresent : Answering Grows (drives true)) (hsome : (drives true).isSome)
    (habsent : drives false = none)
    (hrun : ∀ (relation : List Report → List Report → Prop) (callback : Callback α),
      Answering relation callback → (∀ {a b c}, relation a b → relation b c → relation a c) →
        ∀ world next, run callback world = some next → relation world.reports next.reports)
    (hclean : Clean world ((checkGcbAndCallbackValid gcb (drives callback) answer world).bind
      (run (drives callback)))) : callback = true ∧ gcb = true := by
  obtain ⟨next, report, hresult, hreports, -⟩ := id hclean
  obtain ⟨checked, hchecked, hnext⟩ := bind_eq_some_iff.mp hresult
  cases callback with
  | false =>
    rw [habsent] at hnext
    exact (hrun (fun _ _ => False) none (answering_none _) (fun h _ => h) checked next hnext).elim
  | true =>
    refine ⟨rfl, ?_⟩
    cases gcb with
    | true => rfl
    | false =>
      have hlast := hrun Grows (drives true) hpresent Grows.trans checked next hnext
      have hfirst : Grows world.reports checked.reports := by
        unfold checkGcbAndCallbackValid at hchecked
        split at hchecked
        · exact hpresent answer world checked hchecked
        · next hnot => exact absurd ⟨rfl, hsome⟩ hnot
      rw [hresult] at hclean
      exact absurd hclean (not_clean_of_grows hfirst hlast)

variable (hreports : next.reports = world.reports)

include hreports

theorem clean_told_iff :
    Clean world (some (told report next)) ↔ (report = .failed → Released world next) := by
  constructor
  · rintro ⟨last, report', hlast, hreports', hreleased⟩
    cases hlast
    have hsame : world.reports ++ [report] = world.reports ++ [report'] := by
      rw [← hreports', told, hreports]
    obtain ⟨rfl, -⟩ := cons.inj (append_cancel_left hsame)
    intro hfailed
    obtain ⟨hmsgls, hlists, hhandles, harrays⟩ := hreleased hfailed
    exact ⟨hmsgls, hlists, hhandles, harrays⟩
  · intro hreleased
    refine ⟨told report next, report, rfl, by rw [told, hreports], ?_⟩
    intro hfailed
    obtain ⟨hmsgls, hlists, hhandles, harrays⟩ := hreleased hfailed
    exact ⟨hmsgls, hlists, hhandles, harrays⟩

theorem clean_completed : Clean world (some (told .completed next)) := by
  rw [clean_told_iff hreports]
  intro hfailed
  cases hfailed

theorem clean_failed (hreleased : Released world next) :
    Clean world (some (told .failed next)) := by
  rw [clean_told_iff hreports]
  exact fun _ => hreleased

omit hreports

end

section

variable {world next : World} {answers : Answers} {buf dstOff dstLen srcLen : Nat}
  {msgl : Msgl} {list : SgList} {callback : Callback (Option Nat)} {srcMem : Option (Nat → UInt8)}

theorem at_of_makes {endOf : Nat} (h : Makes answers world buf msgl list endOf next)
    (hroom : Room answers list.nFrames endOf) (hmapped : pagingBaseSize * msgl.mapped < wordModulus)
    (hbound : bufSize list < wordModulus) (hresized : bufSize answers.resized.2 < wordModulus) :
    At next buf (roomy answers msgl.mapped list.nFrames endOf)
      (roomy answers list.nFrames list.nFrames endOf) := by
  obtain ⟨mapped, nFrames, list', hmsgl, hlist, -, hvalues, -⟩ := h.found
  obtain ⟨rfl, rfl⟩ := hvalues hroom
  refine ⟨⟨msgl.sGListIndex, list', hmsgl, hlist⟩, ?_, ?_⟩
  · unfold roomy
    split
    · exact hmapped
    · exact hresized
  · unfold roomy
    split
    · exact hbound
    · exact hresized

theorem le_of_room {nFrames endOf : Nat} (h : Room answers nFrames endOf) :
    endOf ≤ pagingBaseSize * roomy answers nFrames nFrames endOf := by
  unfold roomy
  split
  · next hle => exact hle
  · next hnot => exact (h.resolve_left hnot).2.1

structure Buffer (answers : Answers) (world : World) (buf : Nat) (msgl : Msgl) (list : SgList) :
    Prop where
  found : world.msgls buf = some msgl
  kernel : world.lists msgl.sGListIndex = some list
  mapped_lt : pagingBaseSize * msgl.mapped < wordModulus
  bound : bufSize list < wordModulus
  resized : bufSize answers.resized.2 < wordModulus

theorem Buffer.bufWriteInto (h : Buffer answers world buf msgl list)
    (callback : Callback (Option Nat)) (srcMem : Option (Nat → UInt8))
    (hsrcLen : srcLen < wordModulus) (hdstOff : dstOff < wordModulus)
    (hdstLen : dstLen < wordModulus) :
    ∃ next, Makes answers world buf msgl list (endOfWrite dstOff dstLen srcLen) next ∧
      ((¬ Room answers list.nFrames (endOfWrite dstOff dstLen srcLen) ∧
          bufWriteInto answers callback srcMem srcLen buf dstOff dstLen world =
            invoke callback none next) ∨
        Room answers list.nFrames (endOfWrite dstOff dstLen srcLen) ∧
          ((WriteReturns answers msgl.mapped list.nFrames srcMem srcLen dstOff dstLen ∧
            ∃ put, Stores next put ∧
              bufWriteInto answers callback srcMem srcLen buf dstOff dstLen world =
                invoke callback (some buf) put) ∨
          ¬ WriteReturns answers msgl.mapped list.nFrames srcMem srcLen dstOff dstLen ∧
            bufWriteInto answers callback srcMem srcLen buf dstOff dstLen world = none)) := by
  obtain ⟨next, hmake, hmakes⟩ := makeRoom_spec h.found h.kernel h.bound h.resized
  refine ⟨next, hmakes, ?_⟩
  have hstart : UdiBuf.bufWriteInto answers callback srcMem srcLen buf dstOff dstLen world =
      if decide (Room answers list.nFrames (endOfWrite dstOff dstLen srcLen)) = false then
        invoke callback none next
      else ((moveUp srcLen buf dstOff dstLen next).bind
        (putBytes srcMem srcLen buf dstOff dstLen)).bind (invoke callback (some buf)) := by
    rw [UdiBuf.bufWriteInto, hmake, some_bind, bind_assoc]
    rfl
  rw [hstart]
  rcases em (Room answers list.nFrames (endOfWrite dstOff dstLen srcLen))
    with hroom | hnone
  · right
    rw [decide_eq_true hroom, if_neg (by simp)]
    have hat := at_of_makes hmakes hroom h.mapped_lt h.bound h.resized
    have hiff : ((moveUp srcLen buf dstOff dstLen next).bind
        (putBytes srcMem srcLen buf dstOff dstLen)).isSome ↔
          WriteReturns answers msgl.mapped list.nFrames srcMem srcLen dstOff dstLen :=
      hat.write_isSome_iff hsrcLen hdstOff hdstLen (le_of_room hroom)
    refine ⟨hroom, ?_⟩
    cases hresult : (moveUp srcLen buf dstOff dstLen next).bind
        (putBytes srcMem srcLen buf dstOff dstLen) with
    | none =>
      rw [hresult] at hiff
      exact .inr ⟨fun hfits => by simpa using hiff.mpr hfits, rfl⟩
    | some put =>
      rw [hresult] at hiff
      obtain ⟨moved, hmoved, hput⟩ := bind_eq_some_iff.mp hresult
      have hstores := (stores_of_moveUp hmoved).trans (stores_of_putBytes hput)
      exact .inl ⟨hiff.mp rfl, put, hstores, rfl⟩
  · left
    rw [decide_eq_false hnone, if_pos rfl]
    exact ⟨hnone, rfl⟩

structure Adds (world next : World) : Prop where
  reports : next.reports = world.reports
  buffer : next.msgls (world.fresh + 1) = some ⟨0, 0, world.fresh⟩
  list : ∃ list, next.lists world.fresh = some list ∧ list.nFrames = 0
  msgls : ∀ other ≠ world.fresh + 1, next.msgls other = world.msgls other
  lists : ∀ other ≠ world.fresh, next.lists other = world.lists other

theorem adds_withBuffer (world : World) : Adds world (withBuffer world) where
  reports := rfl
  buffer := update_self ..
  list := ⟨emptySgList, update_self .., rfl⟩
  msgls := fun _ hne => update_of_ne hne ..
  lists := fun _ hne => update_of_ne hne ..

theorem Released.refl (world : World) : Released world world :=
  ⟨fun _ => rfl, fun _ => rfl, fun _ => rfl, rfl⟩

theorem update_update_none {α : Type} {f : Nat → Option α} {i : Nat} (h : f i = none) (a : α) :
    update (update f i (some a)) i none = f := by
  rw [update_idem, ← h, update_eq_self]

theorem constrainScatterGatherList_withBuffer (world : World) (comCons : Compiler) (done : Bool) :
    constrainScatterGatherList (withBuffer world) world.fresh comCons done =
      if done then
        (true, (withBuffer world).setList world.fresh
          (some { emptySgList with compiledConstraints := some comCons }))
      else (false, withBuffer world) := by
  have hlist : (withBuffer world).lists world.fresh = some emptySgList := update_self ..
  rw [constrainScatterGatherList, hlist]

theorem allocateScatterGatherList_refused (comCons : Option Compiler) (world : World)
    (h : ¬ (answers.msglAllocated = true ∧ answers.sgListAllocated = true)) :
    allocateScatterGatherList answers comCons world = (none, world) := by
  unfold allocateScatterGatherList
  split
  · rfl
  split
  · rfl
  · simp_all

theorem allocateScatterGatherList_granted (comCons : Option Compiler) (world : World)
    (h : answers.msglAllocated = true ∧ answers.sgListAllocated = true) :
    allocateScatterGatherList answers comCons world =
      match comCons with
      | none => (some (world.fresh + 1), withBuffer world)
      | some comCons =>
        if answers.constrained then
          (some (world.fresh + 1), (withBuffer world).setList world.fresh
            (some { emptySgList with compiledConstraints := some comCons }))
        else (none, ((withBuffer world).setList world.fresh none).setMsgl
          (world.fresh + 1) none) := by
  unfold allocateScatterGatherList
  rw [if_neg (by simp [h.1]), if_neg (by simp [h.2])]
  cases comCons with
  | none => rfl
  | some comCons =>
    dsimp only
    rw [constrainScatterGatherList_withBuffer]
    cases answers.constrained <;> rfl

theorem allocation_spec (answers : Answers) (hwf : WellFormed world) (path : Bool) :
    (¬ Allocates answers path ∧ ∃ next,
      allocSGListAndConstrainByPathHandle answers path world = (none, next) ∧
        next.reports = world.reports ∧ Released world next) ∨ (Allocates answers path ∧ ∃ next,
      allocSGListAndConstrainByPathHandle answers path world = (some (world.fresh + 1), next) ∧
        Adds world next) := by
  rcases em (answers.msglAllocated = true ∧ answers.sgListAllocated = true)
    with hroom | hnone
  · cases path with
    | false =>
      refine .inr ⟨⟨hroom.1, hroom.2, by simp⟩, withBuffer world, ?_, adds_withBuffer world⟩
      exact allocateScatterGatherList_granted none world hroom
    | true =>
      cases hparent : answers.parentConstraints with
      | none =>
        refine .inl ⟨?_, world, ?_, rfl, .refl world⟩
        · rintro ⟨-, -, hpath⟩
          simp [hparent] at hpath
        · simp [allocSGListAndConstrainByPathHandle, hparent]
      | some comCons =>
        have halloc : allocSGListAndConstrainByPathHandle answers true world =
            allocateScatterGatherList answers (some comCons) world := by
          simp [allocSGListAndConstrainByPathHandle, hparent]
        rw [halloc, allocateScatterGatherList_granted (some comCons) world hroom]
        dsimp only
        rcases Bool.eq_false_or_eq_true answers.constrained with hdone | hfailed
        · rw [if_pos hdone]
          refine .inr ⟨⟨hroom.1, hroom.2, fun _ => ⟨by simp [hparent], hdone⟩⟩, _, rfl, ?_⟩
          have hadds := adds_withBuffer world
          refine ⟨rfl, hadds.buffer, ⟨_, update_self .., rfl⟩, hadds.msgls, ?_⟩
          intro other hne
          exact (update_of_ne hne ..).trans (hadds.lists other hne)
        rw [if_neg (by simp [hfailed])]
        refine .inl ⟨?_, _, rfl, rfl, ?_⟩
        · rintro ⟨-, -, hpath⟩
          simp [hfailed] at hpath
        · obtain ⟨-, hlist, -, -⟩ := hwf.fresh world.fresh (le_refl _)
          obtain ⟨hmsgl, -, -, -⟩ := hwf.fresh (world.fresh + 1) (Nat.le_succ _)
          refine ⟨?_, ?_, fun _ => rfl, rfl⟩
          · intro other
            exact congrArg (fun f => (f other).isSome) (update_update_none hmsgl _)
          · intro other
            exact congrArg (fun f => (f other).isSome) (update_update_none hlist _)
  · refine .inl ⟨fun h => hnone ⟨h.1, h.2.1⟩, world, ?_, rfl, .refl world⟩
    unfold allocSGListAndConstrainByPathHandle
    split
    · split
      · rfl
      · exact allocateScatterGatherList_refused _ world hnone
    · exact allocateScatterGatherList_refused _ world hnone

theorem released_of_keeps (h : Keeps world next) : Released world next :=
  ⟨h.msgls, h.lists, fun _ => by rw [h.handles], h.arrays⟩

theorem invoke_driver_none (world : World) :
    invoke (driver true) none world = some (told .failed world) :=
  rfl

theorem invoke_driver_some (object : Nat) (world : World) :
    invoke (driver true) (some object) world = some (told .completed world) :=
  rfl

theorem Adds.not_released (hwf : WellFormed world) {added : World} (hadds : Adds world added)
    (hkeeps : Keeps added next) : ¬ Released world next := by
  intro hreleased
  have hsame := hreleased.msgls (world.fresh + 1)
  rw [hkeeps.msgls, hadds.buffer, (hwf.fresh (world.fresh + 1) (Nat.le_succ _)).1] at hsame
  cases hsame

theorem WellFormed.buffer (hwf : WellFormed world) (hmsgl : world.msgls buf = some msgl)
    (hresized : bufSize answers.resized.2 < wordModulus) :
    ∃ list, Buffer answers world buf msgl list := by
  obtain ⟨list, hlist, hbound⟩ := hwf.list buf msgl hmsgl
  exact ⟨list, hmsgl, hlist, hwf.mapped buf msgl hmsgl, hbound, hresized⟩

theorem Adds.newBuffer {added : World} (hadds : Adds world added)
    (hresized : bufSize answers.resized.2 < wordModulus) :
    ∃ list, Buffer answers added (world.fresh + 1) ⟨0, 0, world.fresh⟩ list ∧ list.nFrames = 0 := by
  obtain ⟨list, hlist, hempty⟩ := hadds.list
  refine ⟨list, ⟨hadds.buffer, hlist, ?_, ?_, hresized⟩, hempty⟩
  · exact wordModulus_pos
  · rw [bufSize, hempty]
    exact wordModulus_pos

theorem bufWriteInto_missing (hmsgl : world.msgls buf = none) :
    bufWriteInto answers callback srcMem srcLen buf dstOff dstLen world = none := by
  simp [bufWriteInto, makeRoom, hasEnoughMemoryForWrite, hmsgl]

theorem clean_udiBufWrite_iff (hwf : WellFormed world) {dstBuf : Option Nat} {path : Bool}
    (hsrcLen : srcLen < wordModulus) (hdstOff : dstOff < wordModulus)
    (hdstLen : dstLen < wordModulus) (hresized : bufSize answers.resized.2 < wordModulus) :
    Clean world (udiBufWrite answers (driver true) true srcMem srcLen dstBuf dstOff dstLen path
      world) ↔ SoundWrite answers world srcMem srcLen dstOff dstLen path dstBuf := by
  simp only [udiBufWrite, checkGcbAndCallbackValid, Bool.true_eq_false, false_and, if_false,
    some_bind]
  cases dstBuf with
  | some buf =>
    dsimp only
    cases hmsgl : world.msgls buf with
    | none =>
      rw [bufWriteInto_missing hmsgl]
      refine iff_of_false (not_clean_none world) ?_
      rintro ⟨msgl, -, hfound, -⟩
      rw [hmsgl] at hfound
      cases hfound
    | some msgl =>
      obtain ⟨list, hbuffer⟩ := hwf.buffer hmsgl hresized
      have hsound : SoundWrite answers world srcMem srcLen dstOff dstLen path (some buf) ↔
          (Room answers list.nFrames (endOfWrite dstOff dstLen srcLen) →
            WriteReturns answers msgl.mapped list.nFrames srcMem srcLen dstOff dstLen) := by
        simp [SoundWrite, hmsgl, hbuffer.kernel]
      rw [hsound]
      obtain ⟨next, hmakes, ⟨hfull, hrun⟩ | ⟨hroom, hrest⟩⟩ :=
        hbuffer.bufWriteInto (driver true) srcMem hsrcLen hdstOff hdstLen
      · rw [hrun, invoke_driver_none]
        exact iff_of_true (clean_failed hmakes.keeps.reports (released_of_keeps hmakes.keeps))
          fun hroom => absurd hroom hfull
      obtain ⟨hfits, put, hstores, hrun⟩ | ⟨hbad, hrun⟩ := hrest
      · rw [hrun, invoke_driver_some]
        exact iff_of_true (clean_completed (hmakes.keeps.trans hstores.keeps).reports)
          fun _ => hfits
      · rw [hrun]
        exact iff_of_false (not_clean_none world) fun hsound => hbad (hsound hroom)
  | none =>
    rcases allocation_spec answers hwf path with
      ⟨hrefused, next, halloc, hreports, hreleased⟩ | ⟨hallocates, added, halloc, hadds⟩
    · rw [halloc]
      exact iff_of_true (clean_failed hreports hreleased)
        fun hallocates => absurd hallocates hrefused
    rw [halloc]
    dsimp only
    obtain ⟨list, hbuffer, hempty⟩ := hadds.newBuffer hresized
    have hsound : SoundWrite answers world srcMem srcLen dstOff dstLen path none ↔
        Room answers list.nFrames (endOfWrite dstOff dstLen srcLen) ∧
          WriteReturns answers 0 list.nFrames srcMem srcLen dstOff dstLen := by
      rw [hempty]
      exact ⟨fun hall => hall hallocates, fun hall _ => hall⟩
    rw [hsound]
    obtain ⟨next, hmakes, ⟨hfull, hrun⟩ | ⟨hroom, hrest⟩⟩ :=
      hbuffer.bufWriteInto (driver true) srcMem hsrcLen hdstOff hdstLen
    · rw [hrun, invoke_driver_none, clean_told_iff (hmakes.keeps.reports.trans hadds.reports)]
      refine iff_of_false ?_ fun hsound => hfull hsound.1
      exact fun hall => hadds.not_released hwf hmakes.keeps (hall rfl)
    obtain ⟨hfits, put, hstores, hrun⟩ | ⟨hbad, hrun⟩ := hrest
    · have hkeeps := hmakes.keeps.trans hstores.keeps
      rw [hrun, invoke_driver_some]
      exact iff_of_true (clean_completed (hkeeps.reports.trans hadds.reports)) ⟨hroom, hfits⟩
    · rw [hrun]
      exact iff_of_false (not_clean_none world) fun hsound => hbad hsound.2

end

section

variable {world next : World} {answers : Answers} {buf src srcOff srcLen dstOff dstLen : Nat}
  {msgl : Msgl} {list : SgList}

def Listed (world : World) : Prop :=
  ∀ buf msgl, world.msgls buf = some msgl → (world.lists msgl.sGListIndex).isSome

theorem WellFormed.listed (hwf : WellFormed world) : Listed world := by
  intro buf msgl hmsgl
  obtain ⟨list, hlist, -⟩ := hwf.list buf msgl hmsgl
  rw [hlist]
  rfl

theorem Adds.listed {added : World} (hadds : Adds world added) (hlisted : Listed world) :
    Listed added := by
  have hnew : ∀ index, index = world.fresh → (added.lists index).isSome := by
    rintro index rfl
    obtain ⟨list, hlist, -⟩ := hadds.list
    rw [hlist]
    rfl
  intro buf msgl hmsgl
  rcases eq_or_ne buf (world.fresh + 1) with rfl | hne
  · rw [hadds.buffer] at hmsgl
    cases hmsgl
    exact hnew _ rfl
  rw [hadds.msgls buf hne] at hmsgl
  rcases eq_or_ne msgl.sGListIndex world.fresh with heq | hne
  · exact hnew _ heq
  · rw [hadds.lists _ hne]
    exact hlisted buf msgl hmsgl

theorem getAddrForOffset_eq_none_iff (msgl : Msgl) (offset : Nat) :
    getAddrForOffset msgl offset = none ↔ Missing (msgl.mapped, msgl.nFrames) offset := by
  unfold getAddrForOffset
  split
  · next hmissing => exact iff_of_true rfl hmissing
  · next hfound => exact iff_of_false (by simp) hfound

theorem source_of_makes (src : Nat) (hlisted : Listed world)
    (hmakes : Makes answers world buf msgl list (endOfWrite dstOff dstLen srcLen) next)
    (hroom : Room answers list.nFrames (endOfWrite dstOff dstLen srcLen)) :
    sourceOf answers world src buf msgl.mapped list.nFrames (endOfWrite dstOff dstLen srcLen) =
        (next.msgls src).map (fun source => (source.mapped, source.nFrames)) ∧
      ∀ source, next.msgls src = some source → (next.lists source.sGListIndex).isSome := by
  rcases eq_or_ne src buf with rfl | hne
  · obtain ⟨mapped, nFrames, list', hmsgl, hlist, -, hvalues, -⟩ := hmakes.found
    obtain ⟨rfl, rfl⟩ := hvalues hroom
    rw [sourceOf, if_pos rfl, hmsgl]
    refine ⟨rfl, ?_⟩
    rintro source hsource
    cases hsource
    rw [hlist]
    rfl
  · rw [sourceOf, if_neg hne, hmakes.others src hne]
    refine ⟨rfl, ?_⟩
    intro source hsource
    rw [hmakes.keeps.lists]
    exact hlisted src source hsource

theorem bufCopyInto_eq {room : Bool} {callback : Callback (Option Nat)}
    (hmake : makeRoom answers buf dstOff dstLen srcLen world = some (room, next)) :
    bufCopyInto answers callback (some src) srcOff srcLen buf dstOff dstLen world =
      if room = false then invoke callback none next
      else (next.msgls src).bind fun source =>
        if getAddrForOffset source srcOff = none then invoke callback none next
        else (copyBytes src srcOff srcLen buf dstOff dstLen next).bind
          (invoke callback (some buf)) := by
  rw [bufCopyInto, hmake, bind_eq_bind, bind_some]
  simp only [bind_eq_bind, bind_some]
  cases hsource : next.msgls src with
  | none => rfl
  | some source =>
    simp only [bind_some]
    cases haddr : getAddrForOffset source srcOff with
    | none => rfl
    | some addr => rfl

theorem Buffer.bufCopyInto (h : Buffer answers world buf msgl list) (hlisted : Listed world)
    (callback : Callback (Option Nat)) (src srcOff dstOff dstLen : Nat) (hpos : srcLen ≠ 0) :
    ∃ next, Makes answers world buf msgl list (endOfWrite dstOff dstLen srcLen) next ∧
      ((¬ Room answers list.nFrames (endOfWrite dstOff dstLen srcLen) ∧
          bufCopyInto answers callback (some src) srcOff srcLen buf dstOff dstLen world =
            invoke callback none next) ∨
        Room answers list.nFrames (endOfWrite dstOff dstLen srcLen) ∧
          ((sourceOf answers world src buf msgl.mapped list.nFrames
              (endOfWrite dstOff dstLen srcLen) = none ∧
            bufCopyInto answers callback (some src) srcOff srcLen buf dstOff dstLen world = none) ∨
          ∃ source, sourceOf answers world src buf msgl.mapped list.nFrames
              (endOfWrite dstOff dstLen srcLen) = some source ∧ ((Missing source srcOff ∧
              bufCopyInto answers callback (some src) srcOff srcLen buf dstOff dstLen world =
                invoke callback none next) ∨ ¬ Missing source srcOff ∧
              ((CopyReturns answers source.1 msgl.mapped list.nFrames srcOff srcLen dstOff dstLen ∧
                ∃ put, Stores next put ∧
                  bufCopyInto answers callback (some src) srcOff srcLen buf dstOff dstLen world =
                    invoke callback (some buf) put) ∨
              ¬ CopyReturns answers source.1 msgl.mapped list.nFrames srcOff srcLen dstOff dstLen ∧
                bufCopyInto answers callback (some src) srcOff srcLen buf dstOff dstLen world =
                  none)))) := by
  obtain ⟨next, hmake, hmakes⟩ := makeRoom_spec h.found h.kernel h.bound h.resized
  refine ⟨next, hmakes, ?_⟩
  rw [bufCopyInto_eq hmake]
  rcases em (Room answers list.nFrames (endOfWrite dstOff dstLen srcLen))
    with hroom | hnone
  · right
    rw [decide_eq_true hroom, if_neg (by simp)]
    refine ⟨hroom, ?_⟩
    obtain ⟨hsourceOf, hkernel⟩ := source_of_makes src hlisted hmakes hroom
    rw [hsourceOf]
    cases hsource : next.msgls src with
    | none => exact .inl ⟨rfl, rfl⟩
    | some source =>
      right
      refine ⟨_, rfl, ?_⟩
      rw [← getAddrForOffset_eq_none_iff, bind_some]
      cases haddr : getAddrForOffset source srcOff with
      | none => exact .inl ⟨rfl, if_pos rfl⟩
      | some addr =>
        right
        rw [if_neg (by simp)]
        refine ⟨by simp, ?_⟩
        have hat := at_of_makes hmakes hroom h.mapped_lt h.bound h.resized
        have hiff : (copyBytes src srcOff srcLen buf dstOff dstLen next).isSome ↔
            CopyReturns answers source.mapped msgl.mapped list.nFrames srcOff srcLen dstOff
              dstLen :=
          hat.copyBytes_isSome_iff hsource (hkernel source hsource) hpos
        cases hcopied : copyBytes src srcOff srcLen buf dstOff dstLen next with
        | none =>
          rw [hcopied] at hiff
          exact .inr ⟨fun hfits => by simpa using hiff.mpr hfits, rfl⟩
        | some put =>
          rw [hcopied] at hiff
          exact .inl ⟨hiff.mp rfl, put, stores_of_copyBytes hcopied, rfl⟩
  · left
    rw [decide_eq_false hnone, if_pos rfl]
    exact ⟨hnone, rfl⟩

theorem bufCopyInto_missing {callback : Callback (Option Nat)} {srcBuf : Option Nat}
    (hmsgl : world.msgls buf = none) :
    bufCopyInto answers callback srcBuf srcOff srcLen buf dstOff dstLen world = none := by
  simp [bufCopyInto, makeRoom, hasEnoughMemoryForWrite, hmsgl]

theorem clean_copyTo_iff (hwf : WellFormed world) (hpos : srcLen ≠ 0) (path : Bool)
    (hresized : bufSize answers.resized.2 < wordModulus) :
    Clean world (bufCopyInto answers (driver true) (some src) srcOff srcLen buf dstOff dstLen
      world) ↔ SoundCopy answers world src srcOff srcLen dstOff dstLen path (some buf) := by
  cases hmsgl : world.msgls buf with
  | none =>
    rw [bufCopyInto_missing hmsgl]
    refine iff_of_false (not_clean_none world) ?_
    rintro ⟨msgl, -, hfound, -⟩
    rw [hmsgl] at hfound
    cases hfound
  | some msgl =>
    obtain ⟨list, hbuffer⟩ := hwf.buffer hmsgl hresized
    have hsound : SoundCopy answers world src srcOff srcLen dstOff dstLen path (some buf) ↔
        (Room answers list.nFrames (endOfWrite dstOff dstLen srcLen) →
          ∃ source, sourceOf answers world src buf msgl.mapped list.nFrames
              (endOfWrite dstOff dstLen srcLen) = some source ∧
            (¬ Missing source srcOff → CopyReturns answers source.1 msgl.mapped list.nFrames
              srcOff srcLen dstOff dstLen)) := by
      simp [SoundCopy, hmsgl, hbuffer.kernel]
    rw [hsound]
    obtain ⟨next, hmakes, ⟨hfull, hrun⟩ | ⟨hroom, hrest⟩⟩ :=
      hbuffer.bufCopyInto hwf.listed (driver true) src srcOff dstOff dstLen hpos
    · rw [hrun, invoke_driver_none]
      exact iff_of_true (clean_failed hmakes.keeps.reports (released_of_keeps hmakes.keeps))
        fun hroom => absurd hroom hfull
    obtain ⟨hnone, hrun⟩ | ⟨source, hsource, hrest⟩ := hrest
    · rw [hrun]
      refine iff_of_false (not_clean_none world) fun hsound => ?_
      obtain ⟨source, hsource, -⟩ := hsound hroom
      rw [hnone] at hsource
      cases hsource
    obtain ⟨hmissing, hrun⟩ | ⟨hthere, ⟨hfits, put, hstores, hrun⟩ | ⟨hbad, hrun⟩⟩ := hrest
    · rw [hrun, invoke_driver_none]
      exact iff_of_true (clean_failed hmakes.keeps.reports (released_of_keeps hmakes.keeps))
        fun _ => ⟨source, hsource, fun hthere => absurd hmissing hthere⟩
    · rw [hrun, invoke_driver_some]
      exact iff_of_true (clean_completed (hmakes.keeps.trans hstores.keeps).reports)
        fun _ => ⟨source, hsource, fun _ => hfits⟩
    · rw [hrun]
      refine iff_of_false (not_clean_none world) fun hsound => ?_
      obtain ⟨source', hsource', hfits⟩ := hsound hroom
      cases hsource.symm.trans hsource'
      exact hbad (hfits hthere)

theorem clean_copyNew_iff (hwf : WellFormed world) {added : World} (hadds : Adds world added)
    (hpos : srcLen ≠ 0) (hresized : bufSize answers.resized.2 < wordModulus) :
    Clean world (bufCopyInto answers (driver true) (some src) srcOff srcLen (world.fresh + 1) dstOff
      dstLen added) ↔ Room answers 0 (endOfWrite dstOff dstLen srcLen) ∧
          ∃ source, sourceOf answers world src (world.fresh + 1) 0 0
              (endOfWrite dstOff dstLen srcLen) = some source ∧ ¬ Missing source srcOff ∧
              CopyReturns answers source.1 0 0 srcOff srcLen dstOff dstLen := by
  obtain ⟨list, hbuffer, hempty⟩ := hadds.newBuffer hresized
  have hsame : sourceOf answers world src (world.fresh + 1) 0 0 (endOfWrite dstOff dstLen srcLen) =
      sourceOf answers added src (world.fresh + 1) 0 0 (endOfWrite dstOff dstLen srcLen) := by
    unfold sourceOf
    split
    · rfl
    · next hne => rw [hadds.msgls src hne]
  rw [hsame]
  have hspec := hbuffer.bufCopyInto (hadds.listed hwf.listed) (driver true) src srcOff dstOff dstLen
    hpos
  rw [hempty] at hspec
  obtain ⟨next, hmakes, ⟨hfull, hrun⟩ | ⟨hroom, hrest⟩⟩ := hspec
  · rw [hrun, invoke_driver_none, clean_told_iff (hmakes.keeps.reports.trans hadds.reports)]
    refine iff_of_false ?_ fun hsound => hfull hsound.1
    exact fun hall => hadds.not_released hwf hmakes.keeps (hall rfl)
  obtain ⟨hnone, hrun⟩ | ⟨source, hsource, hrest⟩ := hrest
  · rw [hrun]
    refine iff_of_false (not_clean_none world) ?_
    rintro ⟨-, source, hsource, -⟩
    rw [hnone] at hsource
    cases hsource
  have hiff : (Room answers 0 (endOfWrite dstOff dstLen srcLen) ∧
      ∃ source, sourceOf answers added src (world.fresh + 1) 0 0
          (endOfWrite dstOff dstLen srcLen) = some source ∧
        ¬ Missing source srcOff ∧ CopyReturns answers source.1 0 0 srcOff srcLen dstOff dstLen) ↔
      ¬ Missing source srcOff ∧ CopyReturns answers source.1 0 0 srcOff srcLen dstOff dstLen := by
    simp [hroom, hsource]
  rw [hiff]
  obtain ⟨hmissing, hrun⟩ | ⟨hthere, ⟨hfits, put, hstores, hrun⟩ | ⟨hbad, hrun⟩⟩ := hrest
  · rw [hrun, invoke_driver_none, clean_told_iff (hmakes.keeps.reports.trans hadds.reports)]
    refine iff_of_false ?_ fun hsound => hsound.1 hmissing
    exact fun hall => hadds.not_released hwf hmakes.keeps (hall rfl)
  · have hkeeps := hmakes.keeps.trans hstores.keeps
    rw [hrun, invoke_driver_some]
    exact iff_of_true (clean_completed (hkeeps.reports.trans hadds.reports)) ⟨hthere, hfits⟩
  · rw [hrun]
    exact iff_of_false (not_clean_none world) fun hsound => hbad hsound.2

theorem clean_udiBufCopy_iff (hwf : WellFormed world) {dstBuf srcBuf : Option Nat} {path : Bool}
    (hresized : bufSize answers.resized.2 < wordModulus) :
    Clean world (udiBufCopy answers (driver true) true srcBuf srcOff srcLen dstBuf dstOff dstLen
      path world) ↔ srcLen ≠ 0 ∧ ∃ src, srcBuf = some src ∧
        SoundCopy answers world src srcOff srcLen dstOff dstLen path dstBuf := by
  rcases em (srcBuf = none ∨ srcLen < 1) with hbad | hgood
  · refine iff_of_false ?_ ?_
    · intro hclean
      obtain ⟨next, -, hrun, -⟩ := id hclean
      obtain ⟨checked, hchecked, hgrows⟩ := answering_copyChecked answering_driver hrun
      rw [checkSource, if_pos hbad] at hchecked
      rw [hrun] at hclean
      exact not_clean_of_grows (answering_driver none world checked hchecked) hgrows hclean
    · rintro ⟨hpos, src, hsrc, -⟩
      rcases hbad with hnone | hempty
      · rw [hsrc] at hnone
        cases hnone
      · omega
  obtain ⟨src, rfl⟩ := ne_none_iff_exists'.mp fun hnone => hgood (.inl hnone)
  have hpos : srcLen ≠ 0 := fun hzero => hgood (.inr (by omega))
  have hsound : (srcLen ≠ 0 ∧ ∃ src', some src = some src' ∧
      SoundCopy answers world src' srcOff srcLen dstOff dstLen path dstBuf) ↔
        SoundCopy answers world src srcOff srcLen dstOff dstLen path dstBuf := by
    simp [hpos]
  rw [hsound]
  simp only [udiBufCopy, checkGcbAndCallbackValid, checkSource, Bool.true_eq_false, false_and,
    if_false, some_bind, if_neg hgood]
  cases dstBuf with
  | some buf => exact clean_copyTo_iff hwf hpos path hresized
  | none =>
    rcases allocation_spec answers hwf path with
      ⟨hrefused, next, halloc, hreports, hreleased⟩ | ⟨hallocates, added, halloc, hadds⟩
    · rw [halloc]
      exact iff_of_true (clean_failed hreports hreleased)
        fun hallocates => absurd hallocates hrefused
    · rw [halloc]
      rw [clean_copyNew_iff hwf hadds hpos hresized]
      exact ⟨fun hall _ => hall, fun hall => hall hallocates⟩

end

end Zambesii.UdiClean
