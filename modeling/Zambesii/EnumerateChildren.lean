import Mathlib.Data.List.Basic
import Zambesii.KernelTypes
import Zambesii.Runs

/-!
The loop over the children of a device. Each acknowledgement of the device is the argument of a
callback, which asks for the next one or answers the request.
-/

namespace Zambesii.EnumerateChildren

open KernelTypes List Option Runs

def udiEnumerateOk : Nat := 0
def udiEnumerateLeaf : Nat := 1

def idsPerPage : Nat := pagingBaseSize / 4

/-- The context of the request. `waiting` says that a callback is pending; the answers which are
sent, the children which are created, and whether an attribute could not be stored, are kept for
the statements. -/
structure Ctxt where
  nDeviceIds : Nat
  deviceIdsHandle : Option (List Nat)
  finalEnumerationResult : Nat
  waiting : Bool
  answers : List Kerror
  created : List Nat
  storeFailed : Bool

structure Request where
  nDeviceIds : Nat
  ctxtAllocated : Bool
  deviceErr : Kerror
  pageAllocated : Bool

/-- An acknowledgement, with the outcomes of what is called for it: one for each attribute. The
member `err` of an `AsyncResponse` starts with what is on the stack. -/
structure Ack where
  enumerationResult : Nat
  childId : Nat
  metaKnown : Bool
  createErr : Kerror
  attrsAllocated : Bool
  attrErrs : List Kerror
  nFilters : Nat
  stackErr : Kerror

def enumerateChildrenReq (request : Request) : Ctxt :=
  let ctxt : Ctxt := ⟨request.nDeviceIds, none, 0, false, [], [], false⟩
  if request.ctxtAllocated = false then ctxt
  else if request.deviceErr ≠ .success then { ctxt with answers := [request.deviceErr] }
  else if request.pageAllocated = false then
    { ctxt with nDeviceIds := 0, answers := [.memoryNomem] }
  else
    { ctxt with
      nDeviceIds := 0
      deviceIdsHandle := some (List.replicate idsPerPage 0)
      waiting := true }

/-- `unmarshalEnumerateAckAttrsAndFilters` with a list for the attributes and none for the
filters. -/
def unmarshalEnumerateAckAttrsAndFilters (nAttrs nFilters : Nat) : Kerror :=
  if nAttrs = 0 ∧ nFilters = 0 then .success
  else if 0 < nFilters then .invalidArgVal
  else .success

def storeId (ctxt : Ctxt) (childId : Nat) : Option Ctxt := do
  let page ← ctxt.deviceIdsHandle
  if ctxt.nDeviceIds < page.length then
    some { ctxt with
      nDeviceIds := ctxt.nDeviceIds + 1
      deviceIdsHandle := some (page.set ctxt.nDeviceIds childId)
      created := ctxt.created ++ [childId] }
  else none

/-- The case `UDI_ENUMERATE_OK`: the context, the error for the response when one is set, and
`loopAgain`. An array of no attributes cannot be allocated: `operator new` panics. -/
def addChild (ctxt : Ctxt) (ack : Ack) : Option (Ctxt × Kerror × Bool) :=
  if ack.metaKnown = false then some (ctxt, .notFound, false)
  else if ack.createErr ≠ .success then some (ctxt, ack.createErr, false)
  else do
    let ctxt ← storeId ctxt ack.childId
    if ack.attrErrs = [] then none
    else if ack.attrsAllocated = false then some (ctxt, .memoryNomem, false)
    else
      -- What the unmarshalling returns is not looked at.
      let unread := unmarshalEnumerateAckAttrsAndFilters ack.attrErrs.length ack.nFilters
      let failed := ack.attrErrs.find? fun err => err ≠ .success
      some ({ ctxt with
        storeFailed := ctxt.storeFailed || unread ≠ .success || failed.isSome },
        failed.getD ack.stackErr, true)

def enumerateChildrenReq1 (ctxt : Ctxt) (ack : Ack) : Option Ctxt := do
  let (ctxt, err, loopAgain) ←
    if ack.enumerationResult = udiEnumerateOk then addChild ctxt ack
    else if ack.enumerationResult = udiEnumerateLeaf then
      some ({ ctxt with nDeviceIds := 0, deviceIdsHandle := none }, ack.stackErr, false)
    else some (ctxt, ack.stackErr, false)
  if loopAgain then some ctxt
  else
    some { ctxt with
      finalEnumerationResult := ack.enumerationResult
      waiting := false
      answers := ctxt.answers ++ [err] }

def step (ctxt : Ctxt) (ack : Ack) : Option (Unit × Ctxt) :=
  if ctxt.waiting then (enumerateChildrenReq1 ctxt ack).map fun next => ((), next)
  else some ((), ctxt)

section

structure Listed (ctxt : Ctxt) : Prop where
  count : ctxt.nDeviceIds = ctxt.created.length
  ids : ∀ page, ctxt.deviceIdsHandle = some page → page.take ctxt.nDeviceIds = ctxt.created

/-- One answer is sent, when the loop ends; it lists the children, and is an error when an attribute
could not be stored. -/
structure Enumerated (ctxt : Ctxt) : Prop where
  pending : ctxt.waiting = true → ctxt.answers = []
  once : ctxt.waiting = false →
    ∃ err, ctxt.answers = [err] ∧ (ctxt.storeFailed = true → err ≠ .success)
  listed : Listed ctxt

/-- The context is allocated, and where there is no such device the request had no ids. -/
def Starts (request : Request) : Prop :=
  request.ctxtAllocated = true ∧ (request.deviceErr ≠ .success → request.nDeviceIds = 0)

/-- A child which is created has room in the page and an attribute; a leaf has no children; and
after a failure the response does not happen to say success. -/
def Good (ctxt : Ctxt) (ack : Ack) : Prop :=
  ctxt.waiting = true →
    if ack.enumerationResult = udiEnumerateOk then
      ack.metaKnown = true → ack.createErr = .success →
        ctxt.nDeviceIds < idsPerPage ∧ ack.attrErrs ≠ []
    else
      (ack.enumerationResult = udiEnumerateLeaf → ctxt.nDeviceIds = 0) ∧
        (ctxt.storeFailed = true → ack.stackErr ≠ .success)

structure Inv (ctxt : Ctxt) : Prop where
  enumerated : Enumerated ctxt
  page : ctxt.waiting = true → ∃ page, ctxt.deviceIdsHandle = some page ∧ page.length = idsPerPage

variable {request : Request} {ctxt : Ctxt} {ack : Ack}

theorem enumerated_req_iff_starts : Enumerated (enumerateChildrenReq request) ↔ Starts request := by
  unfold enumerateChildrenReq Starts
  split
  · next hctxt =>
    refine iff_of_false (fun h => ?_) (by simp [hctxt])
    obtain ⟨err, hnone, -⟩ := h.once rfl
    cases hnone
  next hctxt =>
  rw [Bool.not_eq_false] at hctxt
  split
  · next hdevice =>
    constructor
    · intro h
      exact ⟨hctxt, fun _ => h.listed.count⟩
    · rintro ⟨-, hids⟩
      exact ⟨nofun, fun _ => ⟨_, rfl, nofun⟩, hids hdevice, nofun⟩
  next hdevice =>
  refine iff_of_true ?_ ⟨hctxt, fun h => absurd h hdevice⟩
  split
  · exact ⟨nofun, fun _ => ⟨_, rfl, nofun⟩, rfl, nofun⟩
  · exact ⟨fun _ => rfl, nofun, rfl, fun _ _ => take_zero⟩

theorem inv_req (h : Starts request) : Inv (enumerateChildrenReq request) := by
  refine ⟨enumerated_req_iff_starts.mpr h, ?_⟩
  unfold enumerateChildrenReq
  split
  · nofun
  split
  · nofun
  split
  · nofun
  · exact fun _ => ⟨_, rfl, length_replicate⟩

def answered (ctxt : Ctxt) (ack : Ack) (err : Kerror) : Ctxt :=
  { ctxt with
    finalEnumerationResult := ack.enumerationResult
    waiting := false
    answers := ctxt.answers ++ [err] }

theorem inv_answered {err : Kerror} (hnone : ctxt.answers = []) (hlisted : Listed ctxt)
    (herr : ctxt.storeFailed = true → err ≠ .success) : Inv (answered ctxt ack err) := by
  refine ⟨⟨nofun, fun _ => ⟨err, ?_, herr⟩, hlisted.count, hlisted.ids⟩, nofun⟩
  rw [answered, hnone]
  rfl

theorem Inv.storeId (h : Inv ctxt) (hwaiting : ctxt.waiting = true) (childId : Nat) :
    (idsPerPage ≤ ctxt.nDeviceIds → storeId ctxt childId = none) ∧
      (ctxt.nDeviceIds < idsPerPage → ∃ next, storeId ctxt childId = some next ∧ Inv next ∧
        next.waiting = true) := by
  obtain ⟨page, hpage, hlength⟩ := h.page hwaiting
  rw [EnumerateChildren.storeId, hpage, some_bind, hlength]
  constructor
  · intro hfull
    rw [if_neg (Nat.not_lt.mpr hfull)]
  · intro hroom
    rw [if_pos hroom]
    refine ⟨_, rfl, ⟨⟨h.enumerated.pending, h.enumerated.once, ?_, ?_⟩, ?_⟩, hwaiting⟩
    · simp [h.enumerated.listed.count]
    · rintro _ ⟨⟩
      have hstored := h.enumerated.listed.ids page hpage
      rw [take_succ_eq_append_getElem (by simpa [hlength] using hroom), take_set_of_le,
        hstored, getElem_set_self]
      exact le_refl _
    · exact fun _ => ⟨_, rfl, by simpa using hlength⟩

theorem Inv.round (h : Inv ctxt) (hwaiting : ctxt.waiting = true) (hgood : Good ctxt ack) :
    ∃ next, enumerateChildrenReq1 ctxt ack = some next ∧ Inv next := by
  have hnone := h.enumerated.pending hwaiting
  have hlisted := h.enumerated.listed
  have hack := hgood hwaiting
  rw [enumerateChildrenReq1]
  split at hack
  · next hok =>
    rw [if_pos hok, addChild]
    split
    · exact ⟨_, rfl, inv_answered hnone hlisted nofun⟩
    next hmeta =>
    rw [Bool.not_eq_false] at hmeta
    split
    · next hcreate => exact ⟨_, rfl, inv_answered hnone hlisted fun _ => hcreate⟩
    next hcreate =>
    obtain ⟨hroom, hattrs⟩ := hack hmeta (not_not.mp hcreate)
    obtain ⟨next, hstore, hnext, hwaiting'⟩ := (h.storeId hwaiting ack.childId).2 hroom
    rw [hstore, bind_eq_bind, some_bind, if_neg hattrs]
    split
    · exact ⟨_, rfl, inv_answered (hnext.enumerated.pending hwaiting') hnext.enumerated.listed
        nofun⟩
    refine ⟨_, rfl, ⟨hnext.enumerated.pending, ?_, ?_⟩, hnext.page⟩
    · intro hdone
      rw [hwaiting'] at hdone
      cases hdone
    · exact ⟨hnext.enumerated.listed.count, hnext.enumerated.listed.ids⟩
  · next hend =>
    obtain ⟨hleaf, herr⟩ := hack
    rw [if_neg hend]
    split
    · next hresult =>
      refine ⟨_, rfl, inv_answered hnone ⟨?_, nofun⟩ herr⟩
      rw [← hlisted.count, hleaf hresult]
    · exact ⟨_, rfl, inv_answered hnone hlisted herr⟩

theorem answer_ne {err : Kerror} (hnone : ctxt.answers = []) {ids : Nat}
    {page : Option (List Nat)} (h : Enumerated (answered
      { ctxt with nDeviceIds := ids, deviceIdsHandle := page } ack err)) :
    ctxt.storeFailed = true → err ≠ .success := by
  obtain ⟨other, hanswer, herr⟩ := h.once rfl
  simp only [answered, hnone, nil_append, cons.injEq, and_true] at hanswer
  exact hanswer ▸ herr

theorem Inv.not_enumerated (h : Inv ctxt) (hwaiting : ctxt.waiting = true) (hbad : ¬ Good ctxt ack)
    {next : Ctxt} (hround : enumerateChildrenReq1 ctxt ack = some next) : ¬ Enumerated next := by
  intro hnext
  apply hbad
  intro _
  have hnone := h.enumerated.pending hwaiting
  rw [enumerateChildrenReq1] at hround
  split
  · next hok =>
    intro hmeta hcreate
    rw [if_pos hok, addChild, if_neg (by simp [hmeta]), if_neg (by simp [hcreate])] at hround
    by_contra hcond
    rcases lt_or_ge ctxt.nDeviceIds idsPerPage with hroom | hfull
    · obtain ⟨stored, hstore, -⟩ := (h.storeId hwaiting ack.childId).2 hroom
      have hattrs : ack.attrErrs = [] := not_not.mp fun hne => hcond ⟨hroom, hne⟩
      rw [hstore, bind_eq_bind, some_bind, if_pos hattrs] at hround
      cases hround
    · rw [(h.storeId hwaiting ack.childId).1 hfull] at hround
      cases hround
  · next hend =>
    rw [if_neg hend] at hround
    split at hround
    · next hresult =>
      cases hround
      refine ⟨fun _ => h.enumerated.listed.count.trans hnext.listed.count.symm, ?_⟩
      exact answer_ne hnone hnext
    · next hresult =>
      cases hround
      exact ⟨fun hleaf => absurd hleaf hresult, answer_ne hnone hnext⟩

theorem Inv.step (h : Inv ctxt) (hgood : Good ctxt ack) :
    ∃ result next, EnumerateChildren.step ctxt ack = some (result, next) ∧ Inv next := by
  rw [EnumerateChildren.step]
  split
  · next hwaiting =>
    obtain ⟨next, hround, hnext⟩ := h.round hwaiting hgood
    exact ⟨(), next, by rw [hround]; rfl, hnext⟩
  · exact ⟨(), ctxt, rfl, h⟩

theorem Inv.step_of_not_good (h : Inv ctxt) (hbad : ¬ Good ctxt ack) {result : Unit} {next : Ctxt}
    (hstep : EnumerateChildren.step ctxt ack = some (result, next)) : ¬ Enumerated next := by
  have hwaiting : ctxt.waiting = true := Classical.byContradiction fun hdone =>
    hbad fun hwaiting => absurd hwaiting hdone
  rw [EnumerateChildren.step, if_pos hwaiting] at hstep
  obtain ⟨last, hround, hlast⟩ := map_eq_some_iff.mp hstep
  obtain ⟨-, rfl⟩ := Prod.mk.inj hlast
  exact h.not_enumerated hwaiting hbad hround

/-- A child whose second attribute cannot be stored, and the end of the enumeration. -/
def failedAttr : List Ack :=
  [⟨udiEnumerateOk, 7, true, .success, true, [.success, .memoryNomem], 0, .success⟩,
    ⟨2, 0, true, .success, true, [], 0, .success⟩]

def firstRequest : Request := ⟨0, true, .success, true⟩

end

end Zambesii.EnumerateChildren
