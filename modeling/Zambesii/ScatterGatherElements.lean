import Mathlib.Data.List.Nodup
import Zambesii.PmemInit
import Zambesii.ScatterGatherFrames

/-!
The elements of a scatter-gather list as the driver sees them: the bus address of a block and
its length in bytes. Frames are counted, added and given back element by element.
-/

namespace Zambesii.ScatterGatherElements

open KernelTypes List
open MemoryTrib (Pool releaseFrames)
open PmemInit (bytesToPages)

structure FrameAddr where
  paddr : Nat
  paddr_lt : paddr < wordModulus
  aligned : paddr % pagingBaseSize = 0

structure Element where
  blockBusaddr : FrameAddr
  blockLength : Nat
  blockLength_lt : blockLength < wordModulus

def pagesToBytes (pages : Nat) : Nat :=
  pagingBaseSize * pages % wordModulus

theorem mod_wordModulus_lt (n : Nat) : n % wordModulus < wordModulus :=
  Nat.mod_lt n wordModulus_pos

def run (p : FrameAddr) (nFrames : Nat) : List Nat :=
  List.range' (p.paddr / pagingBaseSize) nFrames

def Element.frames (element : Element) : List Nat :=
  run element.blockBusaddr (bytesToPages element.blockLength)

def framesOf (list : List Element) : List Nat :=
  list.flatMap Element.frames

def getNFrames (list : List Element) : Nat :=
  list.foldl (fun ret element => (ret + bytesToPages element.blockLength) % wordModulus) 0

/-- A call of `MemoryTrib::releaseFrames` on an address and a number of frames. -/
structure Release where
  paddr : FrameAddr
  nFrames : Nat

/-- `freeSGListElements`: the length of the block stands for the number of frames. -/
def freeSGListElements (list : List Element) : List Release :=
  list.map fun element => ⟨element.blockBusaddr, element.blockLength⟩

/-- `destroySGList`, without the mapping and the constraints of the list. -/
def destroySGList (list : List Element) (justTransfer : Bool) : List Release :=
  if !justTransfer then freeSGListElements list else []

def releaseList (list : List Element) : List Release :=
  list.map fun element => ⟨element.blockBusaddr, bytesToPages element.blockLength⟩

def released (releases : List Release) : List Nat :=
  releases.flatMap fun release => run release.paddr release.nFrames

def perform : List Release → List Pool → Option (List Pool)
  | [], pools => some pools
  | release :: rest, pools =>
    match releaseFrames release.paddr.paddr release.nFrames pools with
    | none => none
    | some pools => perform rest pools

def Element.inFrames (element : Element) : ConstrainedGetFrames.Element where
  startPfn := element.blockBusaddr.paddr / pagingBaseSize
  nFrames := bytesToPages element.blockLength

theorem FrameAddr.paddr_eq (p : FrameAddr) : p.paddr / pagingBaseSize * pagingBaseSize = p.paddr :=
  Nat.div_mul_cancel (Nat.dvd_of_mod_eq_zero p.aligned)

theorem le_bytesToPages_mul (bytes : Nat) : bytes ≤ bytesToPages bytes * pagingBaseSize := by
  unfold bytesToPages pagingBaseSize
  split <;> omega

theorem perform_freeSGListElements (list : List Element) (pools : List Pool)
    (hpages : ∀ element ∈ list, element.blockLength % pagingBaseSize = 0) :
    perform (freeSGListElements list) pools = ScatterGatherFrames.SgList.freeSGListElements
      (list.map fun element => some element.inFrames) pools := by
  induction list generalizing pools with
  | nil => rfl
  | cons element rest ih =>
    rw [forall_mem_cons] at hpages
    have hlength : bytesToPages element.blockLength * pagingBaseSize % wordModulus =
        element.blockLength := by
      have hlt := element.blockLength_lt
      have hbytes : bytesToPages element.blockLength * pagingBaseSize = element.blockLength := by
        simp only [bytesToPages, hpages.1, ne_eq, not_true_eq_false, if_false, add_zero]
        exact Nat.div_mul_cancel (Nat.dvd_of_mod_eq_zero hpages.1)
      rw [hbytes, Nat.mod_eq_of_lt hlt]
    simp only [freeSGListElements, map_cons, perform,
      ScatterGatherFrames.SgList.freeSGListElements, Element.inFrames, FrameAddr.paddr_eq, hlength]
    cases releaseFrames element.blockBusaddr.paddr element.blockLength pools with
    | none => rfl
    | some pools => exact ih pools hpages.2

theorem released_releaseList (list : List Element) :
    released (releaseList list) = framesOf list := by
  unfold released releaseList framesOf Element.frames
  rw [flatMap_map]

theorem bytesToPages_le_self (bytes : Nat) : bytesToPages bytes ≤ bytes := by
  unfold bytesToPages pagingBaseSize
  split <;> omega

theorem bytesToPages_eq_self_iff (bytes : Nat) : bytesToPages bytes = bytes ↔ bytes ≤ 1 := by
  unfold bytesToPages pagingBaseSize
  split <;> omega

theorem length_released_cons (element : Element) (list : List Element) :
    (released (freeSGListElements (element :: list))).length =
      element.blockLength + (released (freeSGListElements list)).length := by
  simp [released, freeSGListElements, run]

theorem length_framesOf_cons (element : Element) (list : List Element) :
    (framesOf (element :: list)).length =
      bytesToPages element.blockLength + (framesOf list).length := by
  simp [framesOf, Element.frames, run]

theorem length_framesOf_le (list : List Element) :
    (framesOf list).length ≤ (released (freeSGListElements list)).length := by
  induction list with
  | nil => exact le_refl 0
  | cons element rest ih =>
    rw [length_framesOf_cons, length_released_cons]
    exact add_le_add (bytesToPages_le_self element.blockLength) ih

theorem length_released_eq_iff (list : List Element) :
    (released (freeSGListElements list)).length = (framesOf list).length ↔
      ∀ element ∈ list, element.blockLength ≤ 1 := by
  induction list with
  | nil => simp [released, freeSGListElements, framesOf]
  | cons element rest ih =>
    have hle := bytesToPages_le_self element.blockLength
    have hrest := length_framesOf_le rest
    rw [length_framesOf_cons, length_released_cons, forall_mem_cons, ← ih,
      ← bytesToPages_eq_self_iff]
    omega

theorem freeSGListElements_eq_releaseList {list : List Element}
    (h : ∀ element ∈ list, element.blockLength ≤ 1) :
    freeSGListElements list = releaseList list := by
  refine map_congr_left ?_
  intro element hmem
  rw [(bytesToPages_eq_self_iff element.blockLength).2 (h element hmem)]

theorem foldl_getNFrames (list : List Element) (start : Nat) :
    list.foldl (fun ret element => (ret + bytesToPages element.blockLength) % wordModulus)
        (start % wordModulus) =
      (start + (framesOf list).length) % wordModulus := by
  induction list generalizing start with
  | nil => rfl
  | cons element rest ih =>
    rw [foldl_cons, length_framesOf_cons, Nat.mod_add_mod, ih, add_assoc]

theorem getNFrames_eq (list : List Element) :
    getNFrames list = (framesOf list).length % wordModulus := by
  have h := foldl_getNFrames list 0
  rwa [Nat.zero_mod, zero_add] at h

/-- The destruction of a list releases the frames that its elements describe, as the release of
a list by the memory tributary does, and as many as it counts. -/
structure ReleasesItsFrames (list : List Element) : Prop where
  exactly : (released (destroySGList list false)).Perm (framesOf list)
  as_list : (released (destroySGList list false)).Perm (released (releaseList list))
  counted : getNFrames list = (released (destroySGList list false)).length % wordModulus

theorem releasesItsFrames_iff (list : List Element) :
    ReleasesItsFrames list ↔ ∀ element ∈ list, element.blockLength ≤ 1 := by
  constructor
  · intro h
    exact (length_released_eq_iff list).1 h.exactly.length_eq
  · intro h
    have hperm : (released (destroySGList list false)).Perm (framesOf list) := by
      rw [← released_releaseList, ← freeSGListElements_eq_releaseList h]
      exact List.Perm.refl _
    refine ⟨hperm, ?_, ?_⟩
    · rwa [released_releaseList]
    · rw [getNFrames_eq, hperm.length_eq]

theorem zero_aligned : 0 % pagingBaseSize = 0 := by decide

theorem pagingBaseSize_lt : pagingBaseSize < wordModulus := by decide

def onePage : List Element :=
  [⟨⟨0, wordModulus_pos, zero_aligned⟩, pagingBaseSize, pagingBaseSize_lt⟩]

theorem onePage_not_releasesItsFrames : ¬ ReleasesItsFrames onePage := by
  intro h
  have hlength := h.exactly.length_eq
  revert hlength
  simp only [onePage, destroySGList, freeSGListElements, released, framesOf, Element.frames, run,
    Bool.not_false, if_true, map_cons, map_nil, flatMap_cons, flatMap_nil,
    append_nil, length_range']
  decide

section

def errorMemoryNomem : Int := -20

/-- What the loop of `addFrames` does to one element, when the frames can be put before or
after it. -/
def mergeInto (p : FrameAddr) (nFrames : Nat) (element : Element) : Option Element :=
  if (p.paddr + pagesToBytes nFrames) % wordModulus = element.blockBusaddr.paddr then
    some ⟨p, (element.blockLength + pagesToBytes nFrames) % wordModulus, mod_wordModulus_lt _⟩
  else if (p.paddr + (wordModulus - element.blockLength)) % wordModulus =
      element.blockBusaddr.paddr then
    some ⟨element.blockBusaddr, (element.blockLength + pagesToBytes nFrames) % wordModulus,
      mod_wordModulus_lt _⟩
  else none

def mergeFrames (p : FrameAddr) (nFrames : Nat) : List Element → Option (List Element)
  | [] => none
  | element :: rest =>
    match mergeInto p nFrames element with
    | some element => some (element :: rest)
    | none => (mergeFrames p nFrames rest).map fun rest => element :: rest

def newElement (p : FrameAddr) (nFrames : Nat) : Element :=
  ⟨p, pagesToBytes nFrames, mod_wordModulus_lt _⟩

/-- `addFrames`, the status with the list. `grows` says whether the array can be enlarged;
`none` is the panic of an index outside of the array. -/
def addFrames (list : List Element) (p : FrameAddr) (nFrames : Nat) (atIndex : Int)
    (grows : Bool) : Option (Int × List Element) :=
  if 0 ≤ atIndex then
    if atIndex.toNat < list.length then
      some (0, list.set atIndex.toNat (newElement p nFrames))
    else none
  else
    match mergeFrames p nFrames list with
    | some list => some (0, list)
    | none =>
      if grows then some (1, list ++ [newElement p nFrames])
      else some (errorMemoryNomem, list)

def topmostFrame : Nat :=
  wordModulus / pagingBaseSize - 1

def Apart (list : List Element) : Prop :=
  list.Pairwise fun a b => List.Disjoint a.frames b.frames

variable {p : FrameAddr} {nFrames : Nat} {element element' : Element} {list list' : List Element}

theorem mem_run {pfn : Nat} : pfn ∈ run p nFrames ↔ p.paddr / pagingBaseSize ≤ pfn ∧
      pfn < p.paddr / pagingBaseSize + nFrames := by
  rw [run, mem_range'_1]

theorem end_le_of_topmost (h : topmostFrame ∉ run p nFrames) :
    nFrames = 0 ∨ p.paddr / pagingBaseSize + nFrames ≤ topmostFrame := by
  have hlt := p.paddr_lt
  have hpfn : p.paddr / pagingBaseSize ≤ topmostFrame := by
    unfold topmostFrame
    unfold wordModulus pagingBaseSize at *
    omega
  rw [mem_run] at h
  omega

theorem pagesToBytes_of_topmost (h : topmostFrame ∉ run p nFrames) :
    pagesToBytes nFrames = pagingBaseSize * nFrames := by
  have hend := end_le_of_topmost h
  refine Nat.mod_eq_of_lt ?_
  unfold topmostFrame at hend
  unfold wordModulus pagingBaseSize at *
  omega

theorem blockLength_of_topmost (h : topmostFrame ∉ element.frames) :
    element.blockBusaddr.paddr + element.blockLength < wordModulus := by
  have hend := end_le_of_topmost h
  have hle := le_bytesToPages_mul element.blockLength
  have hlt := element.blockBusaddr.paddr_lt
  unfold topmostFrame at hend
  unfold wordModulus pagingBaseSize at *
  omega

theorem bytesToPages_add_mul (bytes pages : Nat) :
    bytesToPages (bytes + pagingBaseSize * pages) = bytesToPages bytes + pages := by
  unfold bytesToPages pagingBaseSize
  rw [Nat.add_mul_mod_self_left, Nat.add_mul_div_left _ _ (by decide)]
  omega

theorem bytesToPages_mul (pages : Nat) : bytesToPages (pagingBaseSize * pages) = pages := by
  have h := bytesToPages_add_mul 0 pages
  rwa [zero_add, show bytesToPages 0 = 0 from rfl, zero_add] at h

theorem frames_newElement (h : topmostFrame ∉ run p nFrames) :
    (newElement p nFrames).frames = run p nFrames := by
  change run p (bytesToPages (pagesToBytes nFrames)) = run p nFrames
  rw [pagesToBytes_of_topmost h, bytesToPages_mul]

theorem run_append (start : FrameAddr) (first second : Nat)
    (hp : p.paddr = start.paddr + pagingBaseSize * first) :
    run start first ++ run p second = run start (first + second) := by
  have hpfn : p.paddr / pagingBaseSize = start.paddr / pagingBaseSize + 1 * first := by
    rw [hp, Nat.add_mul_div_left _ _ (by decide), one_mul]
  unfold run
  rw [hpfn, range'_append]

theorem mergeInto_frames (h : mergeInto p nFrames element = some element')
    (hrun : topmostFrame ∉ run p nFrames) (helement : topmostFrame ∉ element.frames) :
    element'.frames.Perm (element.frames ++ run p nFrames) := by
  have hbytes := pagesToBytes_of_topmost hrun
  have hfit := blockLength_of_topmost helement
  have hpend := end_le_of_topmost hrun
  have hlt := p.paddr_lt
  have hnowrap : p.paddr + pagingBaseSize * nFrames < wordModulus := by
    unfold topmostFrame at hpend
    unfold wordModulus pagingBaseSize at *
    omega
  unfold mergeInto at h
  simp only [hbytes, Nat.mod_eq_of_lt hnowrap] at h
  split at h
  case isTrue hbefore =>
      cases h
      have hlength : element.blockLength + pagingBaseSize * nFrames < wordModulus := by omega
      have hframes : run p (bytesToPages (element.blockLength + pagingBaseSize * nFrames)) =
          run p nFrames ++ element.frames := by
        rw [bytesToPages_add_mul, add_comm, Element.frames, run_append p _ _ hbefore.symm]
      unfold Element.frames at hframes ⊢
      simp only [Nat.mod_eq_of_lt hlength, hframes]
      exact perm_append_comm
  case isFalse =>
      split at h
      case isTrue hafter =>
          cases h
          have hend : p.paddr = element.blockBusaddr.paddr + element.blockLength := by
            unfold wordModulus at *
            omega
          have hlength : element.blockLength + pagingBaseSize * nFrames < wordModulus := by omega
          have hpages : pagingBaseSize * bytesToPages element.blockLength =
              element.blockLength := by
            have hmod : element.blockLength % pagingBaseSize = 0 := by
              have h1 := p.aligned
              have h2 := element.blockBusaddr.aligned
              unfold pagingBaseSize at *
              omega
            simp only [bytesToPages, hmod, ne_eq, not_true_eq_false, if_false, add_zero]
            exact Nat.mul_div_cancel' (Nat.dvd_of_mod_eq_zero hmod)
          have hframes :
              run element.blockBusaddr
                  (bytesToPages (element.blockLength + pagingBaseSize * nFrames)) =
                element.frames ++ run p nFrames := by
            rw [bytesToPages_add_mul, Element.frames, run_append]
            rw [hpages]
            exact hend
          unfold Element.frames at hframes ⊢
          simp only [Nat.mod_eq_of_lt hlength, hframes]
          exact List.Perm.refl _
      case isFalse => exact absurd h (by simp)

theorem mergeFrames_frames (h : mergeFrames p nFrames list = some list')
    (hrun : topmostFrame ∉ run p nFrames)
    (hlist : ∀ element ∈ list, topmostFrame ∉ element.frames) :
    (framesOf list').Perm (framesOf list ++ run p nFrames) ∧ list'.length = list.length := by
  induction list generalizing list' with
  | nil => exact absurd h (by simp [mergeFrames])
  | cons element rest ih =>
    rw [forall_mem_cons] at hlist
    unfold mergeFrames at h
    split at h
    case h_1 element' hmerge =>
        cases h
        have hframes := mergeInto_frames hmerge hrun hlist.1
        refine ⟨?_, rfl⟩
        have hcomm : (element.frames ++ run p nFrames ++ framesOf rest).Perm
            (element.frames ++ framesOf rest ++ run p nFrames) := by
          rw [append_assoc, append_assoc]
          exact perm_append_comm.append_left element.frames
        exact (hframes.append_right (framesOf rest)).trans hcomm
    case h_2 =>
        obtain ⟨merged, hmerged, rfl⟩ := Option.map_eq_some_iff.1 h
        obtain ⟨hperm, hlength⟩ := ih hmerged hlist.2
        refine ⟨?_, by rw [length_cons, length_cons, hlength]⟩
        have happend := hperm.append_left element.frames
        rwa [← append_assoc] at happend

theorem nodup_run (p : FrameAddr) (nFrames : Nat) : (run p nFrames).Nodup :=
  nodup_range'

theorem nodup_framesOf_iff (list : List Element) : (framesOf list).Nodup ↔ Apart list := by
  unfold framesOf Apart
  rw [nodup_flatMap]
  exact ⟨fun h => h.2, fun h => ⟨fun _ _ => nodup_run _ _, h⟩⟩

theorem length_framesOf_lt (h : Apart list)
    (htop : ∀ element ∈ list, topmostFrame ∉ element.frames) :
    (framesOf list).length ≤ topmostFrame := by
  have hsubset : framesOf list ⊆ range topmostFrame := by
    intro pfn hpfn
    obtain ⟨element, hmem, hframe⟩ := mem_flatMap.1 hpfn
    have hend := end_le_of_topmost (htop element hmem)
    have hbounds := mem_run.1 hframe
    rw [mem_range]
    omega
  rw [← @length_range topmostFrame]
  exact ((nodup_framesOf_iff list).2 h).length_le_of_subset hsubset

end

/-- The list has come to have the frames of the run, in an element of its own or not. -/
structure Added (list list' : List Element) (p : FrameAddr) (nFrames : Nat) (ret : Int) :
    Prop where
  apart : Apart list'
  frames : ∀ pfn, pfn ∈ framesOf list' ↔ pfn ∈ framesOf list ∨ pfn ∈ run p nFrames
  counted : getNFrames list' = getNFrames list + nFrames
  created : ret = 1 ∧ list'.length = list.length + 1 ∨ ret = 0 ∧ list'.length = list.length

section

variable {p : FrameAddr} {nFrames : Nat} {list list' : List Element}

theorem Added.of_perm (hperm : (framesOf list').Perm (framesOf list ++ run p nFrames))
    (hapart : Apart list)
    (hdisjoint : ∀ element ∈ list, List.Disjoint element.frames (run p nFrames))
    (hrun : topmostFrame ∉ run p nFrames)
    (hlist : ∀ element ∈ list, topmostFrame ∉ element.frames) {ret : Int}
    (hcreated : ret = 1 ∧ list'.length = list.length + 1 ∨ ret = 0 ∧ list'.length = list.length) :
    Added list list' p nFrames ret := by
  have hframes : ∀ pfn, pfn ∈ framesOf list' ↔ pfn ∈ framesOf list ∨ pfn ∈ run p nFrames := by
    intro pfn
    rw [hperm.mem_iff, mem_append]
  have hnodup : (framesOf list').Nodup := by
    rw [hperm.nodup_iff, nodup_append']
    refine ⟨(nodup_framesOf_iff list).2 hapart, nodup_run p nFrames, ?_⟩
    intro pfn hold hnew
    obtain ⟨element, hmem, hframe⟩ := mem_flatMap.1 hold
    exact hdisjoint element hmem hframe hnew
  have hapart' := (nodup_framesOf_iff list').1 hnodup
  have htop' : ∀ element ∈ list', topmostFrame ∉ element.frames := by
    intro element hmem hframe
    rcases (hframes topmostFrame).1 (mem_flatMap.2 ⟨element, hmem, hframe⟩) with hold | hnew
    · obtain ⟨before, hbefore, hframe'⟩ := mem_flatMap.1 hold
      exact hlist before hbefore hframe'
    · exact hrun hnew
  have hlength : (framesOf list').length = (framesOf list).length + nFrames := by
    rw [hperm.length_eq, length_append]
    unfold run
    rw [length_range']
  have hle := length_framesOf_lt hapart' htop'
  refine ⟨hapart', hframes, ?_, hcreated⟩
  have hsmall : topmostFrame < wordModulus := by decide
  rw [getNFrames_eq, getNFrames_eq, Nat.mod_eq_of_lt (by omega), Nat.mod_eq_of_lt (by omega),
    hlength]

theorem addFrames_added (hapart : Apart list)
    (hdisjoint : ∀ element ∈ list, List.Disjoint element.frames (run p nFrames))
    (hlist : ∀ element ∈ list, topmostFrame ∉ element.frames)
    (hrun : topmostFrame ∉ run p nFrames) {atIndex : Int} (hindex : atIndex < 0) :
    ∃ ret list', addFrames list p nFrames atIndex true = some (ret, list') ∧
      Added list list' p nFrames ret := by
  unfold addFrames
  rw [if_neg (Int.not_le.2 hindex)]
  cases hmerge : mergeFrames p nFrames list with
  | some merged =>
    obtain ⟨hperm, hlength⟩ := mergeFrames_frames hmerge hrun hlist
    exact ⟨0, merged, rfl, .of_perm hperm hapart hdisjoint hrun hlist (.inr ⟨rfl, hlength⟩)⟩
  | none =>
    refine ⟨1, list ++ [newElement p nFrames], rfl, ?_⟩
    have hperm : (framesOf (list ++ [newElement p nFrames])).Perm
        (framesOf list ++ run p nFrames) := by
      unfold framesOf
      rw [flatMap_append, flatMap_singleton, frames_newElement hrun]
    exact .of_perm hperm hapart hdisjoint hrun hlist (.inl ⟨rfl, length_append⟩)

def secondPage : FrameAddr :=
  ⟨pagingBaseSize, pagingBaseSize_lt, Nat.mod_self _⟩

theorem addFrames_added_secondPage :
    ∃ ret list', addFrames onePage secondPage 1 (-1) true = some (ret, list') ∧
      Added onePage list' secondPage 1 ret := by
  refine addFrames_added ?_ ?_ ?_ ?_ (by decide)
  · exact pairwise_singleton _ _
  · intro element hmem
    obtain rfl := mem_singleton.1 hmem
    change List.Disjoint [0] [1]
    simp
  · intro element hmem
    obtain rfl := mem_singleton.1 hmem
    decide
  · decide

end

end Zambesii.ScatterGatherElements
