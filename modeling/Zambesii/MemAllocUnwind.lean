import Zambesii.MemoryStreamFrames
import Zambesii.VaddrSpaceReturn

/-!
What `MemoryStream::memAlloc` leaves behind when it returns a null pointer. All its failures
share one way out, which unmaps a page for each frame that was fetched and releases the frames
it finds there: frames that were fetched but not mapped stay held, and pages that were
fakemapped stay fakemapped.
-/

namespace Zambesii.MemAllocUnwind

open AllocTable (AllocTableEntry Table)
open KernelTypes List Option
open LinkedCells (Ptr)
open MemoryStream MemoryStreamFrames PageAttributes Runs
open Tiling
open VSwamp (SwampConfig pageSpan)
open VaddrSpaceReturn
open VaddrSpaceStream (Holds SwampHolds singles cachestackMaxNItems)
open WalkerPageRanger (pagingNEntries mapped)

def nFramesOf (supplies : List Supply) : Nat :=
  (supplies.map Supply.nFrames).sum

def nTriesOf (supplies : List Supply) : Nat :=
  supplies.countP fun supply => decide (supply.nFrames = 0)

def MapsWhole (commit nTries totalFrames : Nat) (supplies : List Supply) : Prop :=
  ∀ front supply back, supplies = front ++ supply :: back →
    totalFrames + nFramesOf front < commit → nTries + nTriesOf front < 4 →
      min supply.nFrames (commit - (totalFrames + nFramesOf front)) ≤ supply.nMapped

def GetsFrames (commit nTries totalFrames : Nat) (supplies : List Supply) : Prop :=
  ∃ front back, supplies = front ++ back ∧ commit ≤ totalFrames + nFramesOf front ∧
    nTries + nTriesOf front < 4

theorem nFramesOf_cons (supply : Supply) (supplies : List Supply) :
    nFramesOf (supply :: supplies) = supply.nFrames + nFramesOf supplies := rfl

theorem nTriesOf_cons (supply : Supply) (supplies : List Supply) :
    nTriesOf (supply :: supplies) = nTriesOf [supply] + nTriesOf supplies := by
  unfold nTriesOf
  rw [← countP_append]
  rfl

theorem nTriesOf_of_pos {supply : Supply} (h : 0 < supply.nFrames) : nTriesOf [supply] = 0 := by
  simp only [nTriesOf, countP_eq_zero, mem_singleton, decide_eq_true_eq]
  rintro other rfl
  omega

theorem nTriesOf_of_zero {supply : Supply} (h : supply.nFrames = 0) : nTriesOf [supply] = 1 := by
  simp [nTriesOf, h]

theorem mapsWhole_of_le {commit nTries totalFrames : Nat} (h : commit ≤ totalFrames)
    (supplies : List Supply) : MapsWhole commit nTries totalFrames supplies := by
  intro front supply back _ hlt
  omega

theorem getsFrames_of_le {commit nTries totalFrames : Nat} (h : commit ≤ totalFrames)
    (htries : nTries < 4) (supplies : List Supply) :
    GetsFrames commit nTries totalFrames supplies :=
  ⟨[], supplies, rfl, h, htries⟩

theorem mapsWhole_cons {commit nTries totalFrames : Nat} {supply : Supply}
    {supplies : List Supply} (htotal : totalFrames < commit) (htries : nTries < 4) :
    MapsWhole commit nTries totalFrames (supply :: supplies) ↔
      min supply.nFrames (commit - totalFrames) ≤ supply.nMapped ∧
      MapsWhole commit (nTries + nTriesOf [supply]) (totalFrames + supply.nFrames) supplies := by
  constructor
  · intro hwhole
    refine ⟨hwhole [] supply supplies rfl htotal htries, ?_⟩
    rintro front other back rfl hlt hlt'
    have hother := hwhole (supply :: front) other back rfl
    rw [nFramesOf_cons, nTriesOf_cons, ← add_assoc, ← add_assoc] at hother
    exact hother hlt hlt'
  · rintro ⟨hfirst, hrest⟩ front other back heq hlt hlt'
    cases front with
    | nil =>
      obtain ⟨rfl, -⟩ := cons.inj heq
      exact hfirst
    | cons first front =>
      obtain ⟨rfl, rfl⟩ := cons.inj heq
      rw [nFramesOf_cons, ← add_assoc] at hlt ⊢
      rw [nTriesOf_cons, ← add_assoc] at hlt'
      exact hrest front other back rfl hlt hlt'

theorem getsFrames_cons {commit nTries totalFrames : Nat} {supply : Supply}
    {supplies : List Supply} (htotal : totalFrames < commit) :
    GetsFrames commit nTries totalFrames (supply :: supplies) ↔
      GetsFrames commit (nTries + nTriesOf [supply]) (totalFrames + supply.nFrames) supplies := by
  constructor
  · rintro ⟨front, back, heq, hle, hlt⟩
    cases front with
    | nil =>
      have hzero : nFramesOf [] = 0 := rfl
      omega
    | cons first front =>
      obtain ⟨rfl, rfl⟩ := cons.inj heq
      rw [nFramesOf_cons, ← add_assoc] at hle
      rw [nTriesOf_cons, ← add_assoc] at hlt
      exact ⟨front, back, rfl, hle, hlt⟩
  · rintro ⟨front, back, rfl, hle, hlt⟩
    refine ⟨supply :: front, back, rfl, ?_, ?_⟩
    · rw [nFramesOf_cons, ← add_assoc]
      exact hle
    · rw [nTriesOf_cons, ← add_assoc]
      exact hlt

theorem mapsWhole_min {commit nTries totalFrames : Nat} {nFrames : Nat} {supplies : List Supply} :
    MapsWhole commit nTries (totalFrames + min nFrames (commit - totalFrames)) supplies ↔
      MapsWhole commit nTries (totalFrames + nFrames) supplies := by
  rcases le_total nFrames (commit - totalFrames) with hle | hle
  · rw [min_eq_left hle]
  · exact iff_of_true (mapsWhole_of_le (by omega) _) (mapsWhole_of_le (by omega) _)

theorem getsFrames_min {commit nTries totalFrames : Nat} (htries : nTries < 4) {nFrames : Nat}
    {supplies : List Supply} :
    GetsFrames commit nTries (totalFrames + min nFrames (commit - totalFrames)) supplies ↔
      GetsFrames commit nTries (totalFrames + nFrames) supplies := by
  rcases le_total nFrames (commit - totalFrames) with hle | hle
  · rw [min_eq_left hle]
  · exact iff_of_true (getsFrames_of_le (by omega) htries _)
      (getsFrames_of_le (by omega) htries _)

def Unmapped (pages : PageMap) (page : Nat) : Prop :=
  pages.entries page = 0 ∧ pages.fakemapped page = false

def Tabled (pages : PageMap) : Prop :=
  ∀ page, pages.tables (page / pagingNEntries) = false → Unmapped pages page

def Maps (pages : PageMap) (page frame : Nat) : Prop :=
  present pages page = true ∧ frameOf pages page = frame

section

variable {firstPage commit : Nat} {start next last : Progress}

def Between (firstPage : Nat) (start last : Progress) (page : Nat) : Prop :=
  firstPage + start.totalFrames ≤ page ∧ page < firstPage + last.totalFrames

/-- What the loop does to the pages and the frames: it gives new frames to the pages that it
goes through, and to no others. -/
structure Fetches (firstPage : Nat) (start last : Progress) : Prop where
  totalFrames_le : start.totalFrames ≤ last.totalFrames
  tabled : Tabled start.pages → Tabled last.pages
  outside : ∀ page, ¬ Between firstPage start last page →
    last.pages.entries page = start.pages.entries page ∧
      last.pages.fakemapped page = start.pages.fakemapped page
  held_of_held : ∀ frame, start.held frame = true → last.held frame = true
  fresh : ∀ page frame, Between firstPage start last page → Maps last.pages page frame →
    last.held frame = true ∧ start.held frame = false

def Whole (firstPage : Nat) (start last : Progress) : Prop :=
  ∀ frame, last.held frame = true → start.held frame = true ∨
    ∃ page, Between firstPage start last page ∧ Maps last.pages page frame

theorem Fetches.refl (firstPage : Nat) (start : Progress) : Fetches firstPage start start := by
  refine ⟨le_refl _, id, fun _ _ => ⟨rfl, rfl⟩, fun _ => id, ?_⟩
  rintro page frame ⟨hle, hlt⟩
  omega

theorem whole_refl (firstPage : Nat) (start : Progress) : Whole firstPage start start :=
  fun _ => .inl

theorem Fetches.maps_iff (h : Fetches firstPage start last) {page frame : Nat}
    (hpage : ¬ Between firstPage start last page) :
    Maps last.pages page frame ↔ Maps start.pages page frame := by
  simp only [Maps, present, frameOf, (h.outside page hpage).1]

theorem between_trans (h : start.totalFrames ≤ next.totalFrames)
    (h' : next.totalFrames ≤ last.totalFrames) (page : Nat) : Between firstPage start last page ↔
      Between firstPage start next page ∨ Between firstPage next last page := by
  simp only [Between]
  omega

theorem not_between_of_between {page : Nat} (h : Between firstPage start next page) :
    ¬ Between firstPage next last page := by
  simp only [Between] at h ⊢
  omega

theorem Fetches.trans (h : Fetches firstPage start next) (h' : Fetches firstPage next last) :
    Fetches firstPage start last := by
  have hbetween := @between_trans firstPage _ _ _ h.totalFrames_le h'.totalFrames_le
  refine ⟨h.totalFrames_le.trans h'.totalFrames_le, h'.tabled ∘ h.tabled, ?_,
    fun frame hheld => h'.held_of_held frame (h.held_of_held frame hheld), ?_⟩
  · intro page hpage
    rw [hbetween, not_or] at hpage
    obtain ⟨hentry, hfakemapped⟩ := h.outside page hpage.1
    obtain ⟨hentry', hfakemapped'⟩ := h'.outside page hpage.2
    exact ⟨hentry'.trans hentry, hfakemapped'.trans hfakemapped⟩
  · intro page frame hpage hmaps
    rcases (hbetween page).mp hpage with hfirst | hsecond
    · obtain ⟨hheld, hnew⟩ := h.fresh page frame hfirst
        ((h'.maps_iff (not_between_of_between hfirst)).mp hmaps)
      exact ⟨h'.held_of_held frame hheld, hnew⟩
    obtain ⟨hheld, hnew⟩ := h'.fresh page frame hsecond hmaps
    refine ⟨hheld, ?_⟩
    cases hstart : start.held frame with
    | false => rfl
    | true => exact absurd (h.held_of_held frame hstart) (by simp [hnew])

theorem Fetches.whole_iff (h : Fetches firstPage start next) (h' : Fetches firstPage next last)
    (hwhole : Whole firstPage start next) :
    Whole firstPage start last ↔ Whole firstPage next last := by
  have hbetween := @between_trans firstPage _ _ _ h.totalFrames_le h'.totalFrames_le
  constructor
  · intro hall frame hheld
    rcases hall frame hheld with hstart | ⟨page, hpage, hmaps⟩
    · exact .inl (h.held_of_held frame hstart)
    · rcases (hbetween page).mp hpage with hfirst | hsecond
      · have hmaps' := (h'.maps_iff (not_between_of_between hfirst)).mp hmaps
        exact .inl (h.fresh page frame hfirst hmaps').1
      · exact .inr ⟨page, hsecond, hmaps⟩
  · intro hall frame hheld
    rcases hall frame hheld with hnext | ⟨page, hpage, hmaps⟩
    · refine (hwhole frame hnext).imp_right ?_
      rintro ⟨page, hpage, hmaps⟩
      exact ⟨page, (hbetween page).mpr (.inl hpage),
        (h'.maps_iff (not_between_of_between hpage)).mpr hmaps⟩
    · exact .inr ⟨page, (hbetween page).mpr (.inr hpage), hmaps⟩

theorem withTables_eq_false {tables : Nat → Bool} {first count page : Nat}
    (h : PageMap.withTables tables first count (page / pagingNEntries) = false) :
    ¬ (first ≤ page ∧ page < first + count) ∧ tables (page / pagingNEntries) = false := by
  constructor
  · rintro ⟨hle, hlt⟩
    rw [withTables_of_mem tables hle hlt] at h
    contradiction
  · cases htable : tables (page / pagingNEntries) with
    | false => rfl
    | true =>
      rw [withTables_of_tables tables first count _ htable] at h
      contradiction

theorem Tabled.mapInc {pages : PageMap} (h : Tabled pages) (first count paddr archFlags : Nat) :
    Tabled (pages.mapInc first count paddr archFlags) := by
  intro page htable
  obtain ⟨hmem, htable'⟩ := withTables_eq_false htable
  obtain ⟨hentry, hfakemapped⟩ := h page htable'
  exact ⟨(if_neg hmem).trans hentry, by simp [PageMap.mapInc, hfakemapped]⟩

theorem Tabled.mapNoInc {pages : PageMap} (h : Tabled pages) (first count paddr archFlags : Nat) :
    Tabled (pages.mapNoInc first count paddr archFlags) := by
  intro page htable
  obtain ⟨hmem, htable'⟩ := withTables_eq_false htable
  obtain ⟨hentry, hfakemapped⟩ := h page htable'
  refine ⟨(if_neg hmem).trans hentry, ?_⟩
  simp only [PageMap.mapNoInc, hfakemapped, Bool.false_or, decide_eq_false hmem]

/-- The loop after it has fetched `nFrames` frames and mapped `nMapped` of them. -/
def turn (archFlags firstPage : Nat) (start : Progress) (frame nFrames nMapped : Nat) :
    Progress where
  totalFrames := start.totalFrames + nFrames
  pages := start.pages.mapInc (firstPage + start.totalFrames) nMapped (frame * pagingBaseSize)
    archFlags
  held := getFrames start.held frame nFrames

section

variable {archFlags frame nFrames nMapped : Nat} (hflags : archFlags < pagingBaseSize)
  (hpresent : archFlags.testBit 0 = true) (hmapped : nMapped ≤ nFrames)
  (hbound : (frame + nFrames) * pagingBaseSize ≤ wordModulus)
  (hnew : ∀ i < nFrames, start.held (frame + i) = false)
  (hclear : ∀ page, firstPage + start.totalFrames ≤ page →
    page < firstPage + (start.totalFrames + nFrames) → present start.pages page = false)

include hflags hpresent hmapped hbound in
theorem maps_turn {page other : Nat} (hle : firstPage + start.totalFrames ≤ page)
    (hlt : page < firstPage + start.totalFrames + nMapped) :
    Maps (turn archFlags firstPage start frame nFrames nMapped).pages page other ↔
      frame + (page - (firstPage + start.totalFrames)) = other := by
  have hbound' : (frame + nMapped) * pagingBaseSize ≤ wordModulus :=
    (Nat.mul_le_mul_right _ (Nat.add_le_add_left hmapped _)).trans hbound
  have hentry : (turn archFlags firstPage start frame nFrames nMapped).pages.entries page =
      (frame + (page - (firstPage + start.totalFrames))) * pagingBaseSize ||| archFlags :=
    entries_mapInc hbound' hle hlt
  rw [Maps, present, frameOf, hentry, entry_div hflags, Nat.testBit_or, hpresent, Bool.or_true]
  exact and_iff_right rfl

include hclear in
theorem not_maps_turn {page other : Nat}
    (hpage : Between firstPage start (turn archFlags firstPage start frame nFrames nMapped) page)
    (hge : firstPage + start.totalFrames + nMapped ≤ page) :
    ¬ Maps (turn archFlags firstPage start frame nFrames nMapped).pages page other := by
  have hentry : (turn archFlags firstPage start frame nFrames nMapped).pages.entries page =
      start.pages.entries page := entries_mapInc_of_not_mem (by omega)
  have hnone := hclear page hpage.1 hpage.2
  rintro ⟨hpresent, -⟩
  rw [present, hentry, ← present, hnone] at hpresent
  contradiction

include hflags hpresent hmapped hbound hnew hclear in
theorem fetches_turn :
    Fetches firstPage start (turn archFlags firstPage start frame nFrames nMapped) := by
  refine ⟨Nat.le_add_right _ _, fun htabled => htabled.mapInc _ _ _ _, ?_,
    fun _ => getFrames_of_held, ?_⟩
  · intro page hpage
    have hmem : ¬ (firstPage + start.totalFrames ≤ page ∧
        page < firstPage + start.totalFrames + nMapped) := by
      rintro ⟨hle, hlt⟩
      refine hpage ⟨hle, ?_⟩
      dsimp only [turn]
      omega
    refine ⟨entries_mapInc_of_not_mem hmem, ?_⟩
    simp only [turn, PageMap.mapInc, decide_eq_false hmem, Bool.not_false, Bool.and_true]
  · intro page other hpage hmaps
    rcases lt_or_ge page (firstPage + start.totalFrames + nMapped) with hlt | hge
    · rw [maps_turn hflags hpresent hmapped hbound hpage.1 hlt] at hmaps
      have hle := hpage.1
      have hunheld := hnew (page - (firstPage + start.totalFrames)) (by omega)
      rw [hmaps] at hunheld
      exact ⟨getFrames_of_mem (by omega) (by omega), hunheld⟩
    · exact absurd hmaps (not_maps_turn hclear hpage hge)

include hflags hpresent hmapped hbound hnew hclear in
theorem whole_turn : Whole firstPage start (turn archFlags firstPage start frame nFrames nMapped) ↔
      nFrames ≤ nMapped := by
  constructor
  · intro hwhole
    rcases lt_or_ge nMapped nFrames with hlt | hge
    · -- The first frame that is not mapped is behind no page.
      have hheld : getFrames start.held frame nFrames (frame + nMapped) = true :=
        getFrames_of_mem (by omega) (by omega)
      rcases hwhole _ hheld with hstart | ⟨page, hpage, hmaps⟩
      · rw [hnew nMapped hlt] at hstart
        contradiction
      rcases lt_or_ge page (firstPage + start.totalFrames + nMapped) with hlt' | hge
      · rw [maps_turn hflags hpresent hmapped hbound hpage.1 hlt'] at hmaps
        have hle := hpage.1
        omega
      · exact absurd hmaps (not_maps_turn hclear hpage hge)
    · exact hge
  · intro hall other hheld
    simp only [turn, getFrames, Bool.or_eq_true, decide_eq_true_eq] at hheld
    refine hheld.imp_right ?_
    rintro ⟨hle, hlt⟩
    refine ⟨firstPage + start.totalFrames + (other - frame), ⟨by omega, ?_⟩, ?_⟩
    · dsimp only [turn]
      omega
    · rw [maps_turn hflags hpresent hmapped hbound (by omega) (by omega)]
      omega

end

structure LoopSpec (firstPage commit nTries : Nat) (supplies : List Supply) (start : Progress)
    (result : Bool × Progress) : Prop where
  fetches : Fetches firstPage start result.2
  totalFrames_le : result.2.totalFrames ≤ commit
  whole_iff : Whole firstPage start result.2 ↔
    MapsWhole commit nTries start.totalFrames supplies
  committed_iff : result.1 = true ↔ MapsWhole commit nTries start.totalFrames supplies ∧
    GetsFrames commit nTries start.totalFrames supplies
  totalFrames_eq : result.1 = true → result.2.totalFrames = commit

theorem commitFrames_spec {archFlags : Nat} (hflags : archFlags < pagingBaseSize)
    (hpresent : archFlags.testBit 0 = true) (supplies : List Supply) (nTries : Nat)
    (start : Progress) (htries : nTries < 4) (htotal : start.totalFrames ≤ commit)
    (hfresh : FreshFrames start.held supplies)
    (hclear : ∀ page, firstPage + start.totalFrames ≤ page → page < firstPage + commit →
      present start.pages page = false) : LoopSpec firstPage commit nTries supplies start
      (commitFrames archFlags firstPage commit supplies nTries start) := by
  induction supplies generalizing nTries start with
  | nil =>
    have hwhole : MapsWhole commit nTries start.totalFrames [] := by
      intro front supply back heq
      simp at heq
    refine ⟨.refl _ _, htotal, iff_of_true (whole_refl _ _) hwhole, ?_, ?_⟩
    · rw [and_iff_right hwhole]
      constructor
      · intro hle
        exact getsFrames_of_le (of_decide_eq_true hle) htries _
      · rintro ⟨front, back, heq, hle, -⟩
        obtain ⟨rfl, -⟩ := append_eq_nil_iff.mp heq.symm
        exact decide_eq_true hle
    · intro hle
      exact le_antisymm htotal (of_decide_eq_true hle)
  | cons supply supplies ih =>
    rw [commitFrames]
    dsimp only
    split
    · rename_i hle
      refine ⟨.refl _ _, htotal, iff_of_true (whole_refl _ _) (mapsWhole_of_le hle _),
        iff_of_true rfl ⟨mapsWhole_of_le hle _, getsFrames_of_le hle htries _⟩, ?_⟩
      intro _
      exact le_antisymm htotal hle
    rename_i hlt
    have hlt' : start.totalFrames < commit := by omega
    have hcons := @mapsWhole_cons commit nTries _ supply supplies hlt' htries
    have hcons' := @getsFrames_cons commit nTries _ supply supplies hlt'
    split
    · rename_i hpos
      rw [nTriesOf_of_pos (by omega), add_zero, ← mapsWhole_min] at hcons
      rw [nTriesOf_of_pos (by omega), add_zero, ← getsFrames_min htries] at hcons'
      obtain ⟨hbound, hunheld⟩ := hfresh.1 supply mem_cons_self
      generalize hnFrames : min supply.nFrames (commit - start.totalFrames) = nFrames at *
      generalize hnMapped : min supply.nMapped nFrames = nMapped at *
      have hbound' : (supply.frame + nFrames) * pagingBaseSize ≤ wordModulus :=
        (Nat.mul_le_mul_right _ (by omega)).trans hbound
      have hnew : ∀ i < nFrames, start.held (supply.frame + i) = false :=
        fun i hi => hunheld i (by omega)
      have hclear' : ∀ page, firstPage + start.totalFrames ≤ page →
          page < firstPage + (start.totalFrames + nFrames) →
            present start.pages page = false :=
        fun page hle hlt => hclear page hle (by omega)
      have hfetches := @fetches_turn firstPage start _ supply.frame nFrames nMapped hflags
        hpresent (by omega) hbound' hnew hclear'
      have hwhole := @whole_turn firstPage start _ supply.frame nFrames nMapped hflags
        hpresent (by omega) hbound' hnew hclear'
      split
      · refine ⟨hfetches, ?_, ?_, ?_, ?_⟩
        · dsimp only
          omega
        · exact hwhole.trans (iff_of_false (by omega) fun hall => by
            have hfirst := (hcons.mp hall).1
            omega)
        · refine iff_of_false (by simp) fun hall => ?_
          have hfirst := (hcons.mp hall.1).1
          omega
        · simp
      have hrest := ih nTries (turn archFlags firstPage start supply.frame nFrames nMapped)
        htries (by dsimp only [turn]; omega) (hfresh.getFrames (by omega)) (by
          intro page hle hlt
          dsimp only [turn] at hle
          have hnone := hclear page (by omega) hlt
          rw [present, (hfetches.outside page ?_).1]
          · exact hnone
          · simp only [Between, turn]
            omega)
      have hfirst : nFrames ≤ supply.nMapped := by omega
      rw [and_iff_right hfirst] at hcons
      refine ⟨hfetches.trans hrest.fetches, hrest.totalFrames_le, ?_, ?_, hrest.totalFrames_eq⟩
      · exact (hfetches.whole_iff hrest.fetches (hwhole.mpr (by omega))).trans
          (hrest.whole_iff.trans hcons.symm)
      · rw [hcons, hcons']
        exact hrest.committed_iff
    · have hzero : supply.nFrames = 0 := by omega
      rw [nTriesOf_of_zero hzero, hzero, add_zero, Nat.zero_min,
        and_iff_right (Nat.zero_le _)] at hcons
      rw [nTriesOf_of_zero hzero, hzero, add_zero] at hcons'
      split
      · refine ⟨.refl _ _, htotal, iff_of_true (whole_refl _ _) (hcons.mpr ?_), ?_, by simp⟩
        · intro front other back _ _ hlt
          omega
        · refine iff_of_false (by simp) fun hall => ?_
          obtain ⟨front, back, -, -, hlt⟩ := hcons'.mp hall.2
          omega
      · have hrest := ih (nTries + 1) start (by omega) htotal hfresh.tail hclear
        refine ⟨hrest.fetches, hrest.totalFrames_le, hrest.whole_iff.trans hcons.symm, ?_,
          hrest.totalFrames_eq⟩
        rw [hcons, hcons']
        exact hrest.committed_iff

end

def TableFull (table : Table) (memory : Option (List AllocTableEntry)) : Prop :=
  memory = none ∧ ∀ block ∈ table, block.nFreeEntries = 0

theorem addEntry_nomem_iff {table table' : Table} {vaddr nPages attrib : Nat}
    {memory : Option (List AllocTableEntry)} {err : Kerror}
    (h : AllocTable.addEntry table vaddr nPages attrib memory = some (err, table')) :
    err ≠ .success ↔ TableFull table memory := by
  unfold AllocTable.addEntry EqualizerList.addEntry at h
  have hblock : EqualizerList.findInsertionBlock table = none ↔
      ∀ block ∈ table, block.nFreeEntries = 0 := by
    simp [EqualizerList.findInsertionBlock]
  rw [TableFull, ← hblock]
  cases hfind : EqualizerList.findInsertionBlock table with
  | some index =>
    rw [hfind] at h
    simp only [bind_eq_bind, bind_eq_some_iff, some.injEq, Prod.mk.injEq,
      Prod.exists] at h
    obtain ⟨added, blocks, ⟨block, -, block', -, rfl, -⟩, hadded, -⟩ := h
    simp [← hadded]
  | none =>
    cases memory with
    | none =>
      rw [hfind] at h
      cases h
      simp
    | some memory =>
      rw [hfind] at h
      simp only [bind_eq_bind, bind_eq_some_iff, some.injEq,
        Prod.mk.injEq, Prod.exists] at h
      obtain ⟨added, blocks, ⟨block, -, rfl, -⟩, hadded, -⟩ := h
      simp [← hadded]

def FakemapsPages (nPages : Nat) (flags : Flags) (env : Env) : Prop :=
  flags.noFakemap = false ∧ commitNFrames nPages flags < nPages ∧ 0 < env.nFakemapped

def TakesRange (state : State) (nPages : Nat) (flags : Flags) : Prop :=
  nPages ≠ 0 ∧ popAllocCache state nPages flags = none ∧ FindsRange state.vaddrSpace nPages

/-- With its virtual pages the call fails: frames, page tables or room in the alloc table are
missing. -/
def Fails (state : State) (nPages : Nat) (flags : Flags) (env : Env) : Prop :=
  ¬ (MapsWhole (commitNFrames nPages flags) 0 0 env.supplies ∧
    GetsFrames (commitNFrames nPages flags) 0 0 env.supplies) ∨
  flags.noFakemap = false ∧ env.nFakemapped < nPages - commitNFrames nPages flags ∨
  TableFull state.allocTable env.memory

/-- The way out of a failed call undoes all of it: every frame that was fetched was mapped,
nothing was fakemapped, and the virtual pages can be given back. -/
def CanUnwind (state : State) (nPages : Nat) (flags : Flags) (env : Env) : Prop :=
  MapsWhole (commitNFrames nPages flags) 0 0 env.supplies ∧
  ¬ (GetsFrames (commitNFrames nPages flags) 0 0 env.supplies ∧ FakemapsPages nPages flags env) ∧
  GoesBack state.vaddrSpace nPages env.newNode

section

variable {process : Process} {state : State} {recorded : Nat → Option (Nat × Nat)}

def CacheFits (stream : VaddrSpaceStream) : Prop :=
  stream.pageCache.length ≤ cachestackMaxNItems

structure Tidy (state : State) : Prop where
  unmapped : ∀ page, ¬ Owned state.live page → ¬ Cached state.allocCache page →
    Unmapped state.pages page
  tabled : Tabled state.pages
  cacheFits : CacheFits state.vaddrSpace

/-- Nothing is left of a call: the frames it fetched are released, the pages that were free are
not mapped, the address space has its pages back and the alloc table is as it was. -/
structure Unwound (state next : State) : Prop where
  held : ∀ frame, next.held frame = state.held frame
  unmapped : ∀ page, Free state.vaddrSpace (page * pagingBaseSize) → Unmapped next.pages page
  free : ∀ address, Free next.vaddrSpace address ↔ Free state.vaddrSpace address
  allocTable : next.allocTable = state.allocTable

theorem mapNoInc_zero (pages : PageMap) (first paddr archFlags : Nat) :
    pages.mapNoInc first 0 paddr archFlags = pages := by
  have hempty : ∀ page, ¬ (first ≤ page ∧ page < first + 0) := by omega
  have htables : PageMap.withTables pages.tables first 0 = pages.tables := by
    funext table
    simp [PageMap.withTables]
  simp only [PageMap.mapNoInc, hempty, if_false, decide_false, Bool.or_false, htables]

theorem commitPages_cases (given : State) {ret nPages : Nat} {flags : Flags} {env : Env}
    {committed : Bool} {progress : Progress}
    (hprogress : commitFrames (backedFlags process) (ret / pagingBaseSize)
      (commitNFrames nPages flags) env.supplies 0 ⟨0, given.pages, given.held⟩ =
        (committed, progress))
    (hspec : LoopSpec (ret / pagingBaseSize) (commitNFrames nPages flags) 0 env.supplies
      ⟨0, given.pages, given.held⟩ (committed, progress))
    (hadd : ∃ err table, AllocTable.addEntry given.allocTable ret nPages 0 env.memory =
      some (err, table) ∧ (err ≠ .success → table = given.allocTable)) :
    (¬ Fails given nPages flags env → ∃ next count, count ≤ nPages - progress.totalFrames ∧
      commitPages process given ret nPages flags env = some (ret, next) ∧
      next.pages = progress.pages.mapNoInc (ret / pagingBaseSize + progress.totalFrames) count
        fakemappedDynamic (fakemapFlags process) ∧
      next.allocCache = given.allocCache ∧ next.live = (ret, nPages) :: given.live) ∧
    (Fails given nPages flags env → ∃ count ≤ nPages - progress.totalFrames,
      commitPages process given ret nPages flags env = releaseAndUnmap process
        { given with
          pages := progress.pages.mapNoInc (ret / pagingBaseSize + progress.totalFrames) count
            fakemappedDynamic (fakemapFlags process)
          held := progress.held } ret nPages progress.totalFrames env.newNode ∧
      (0 < count ↔ committed = true ∧ FakemapsPages nPages flags env)) := by
  have hcommitted := hspec.committed_iff
  unfold commitPages
  simp only [hprogress]
  cases committed with
  | false =>
    refine ⟨?_, ?_⟩
    · intro hsucceeds
      refine absurd (.inl fun hboth => ?_) hsucceeds
      exact absurd (hcommitted.mpr hboth) (by simp)
    · intro _
      refine ⟨0, Nat.zero_le _, ?_, by simp⟩
      rw [mapNoInc_zero]
      rfl
  | true =>
    have htotal := hspec.totalFrames_eq rfl
    have hboth := hcommitted.mp rfl
    have hfails : Fails given nPages flags env ↔
        flags.noFakemap = false ∧ env.nFakemapped < nPages - progress.totalFrames ∨
          TableFull given.allocTable env.memory := by
      rw [Fails, htotal]
      exact or_iff_right fun hnot => hnot hboth
    obtain ⟨err, table, hadd, hsame⟩ := hadd
    have hfull := addEntry_nomem_iff hadd
    rw [hfails, if_pos rfl, fakemapAndRecord]
    simp only [FakemapsPages, ← htotal]
    cases hflag : flags.noFakemap with
    | true =>
      simp only [if_true, Bool.true_eq_false, false_and, if_false, hadd, some_bind, false_or,
        and_false, iff_false]
      split
      · rename_i hsuccess
        refine ⟨fun _ => ⟨_, 0, Nat.zero_le _, rfl, ?_, rfl, rfl⟩,
          fun hnomem => absurd hsuccess (hfull.mpr hnomem)⟩
        rw [mapNoInc_zero]
      rename_i herr
      refine ⟨fun hroom => absurd (hfull.mp herr) hroom, ?_⟩
      intro _
      refine ⟨0, Nat.zero_le _, ?_, by simp⟩
      rw [mapNoInc_zero, hsame herr]
    | false =>
      simp only [Bool.false_eq_true, if_false, true_and]
      split
      · rename_i hshort
        refine ⟨fun hsucceeds => absurd (.inl (by omega)) hsucceeds, ?_⟩
        intro _
        exact ⟨_, min_le_right _ _, rfl, by omega⟩
      rename_i hall
      simp only [hadd, some_bind]
      split
      · rename_i hsuccess
        refine ⟨fun _ => ⟨_, _, min_le_right _ _, rfl, rfl, rfl, rfl⟩, ?_⟩
        rintro (hshort | hnomem)
        · omega
        · exact absurd hsuccess (hfull.mpr hnomem)
      · rename_i herr
        refine ⟨fun hsucceeds => absurd (.inr (hfull.mp herr)) hsucceeds, ?_⟩
        intro _
        refine ⟨min env.nFakemapped (nPages - progress.totalFrames), min_le_right _ _, ?_,
          by omega⟩
        rw [hsame herr]

theorem not_owned_of_free {lost : Multiset (Nat × Nat)} (howns : Owns process state recorded)
    (hholds : SwampHolds process.config state.vaddrSpace.swamp
      (state.taken + lost + singles state.vaddrSpace.pageCache)) {page : Nat}
    (hfree : Free state.vaddrSpace (page * pagingBaseSize)) :
    ¬ Owned state.live page ∧ ¬ Cached state.allocCache page := by
  have hnot := ((free_iff hholds _).mp hfree).2
  have hrange : ∀ range ∈ state.taken, ¬ InRange range page := by
    rintro range hrange ⟨hle, hlt⟩
    refine hnot (mem_cover.mpr ⟨pageSpan range, Multiset.mem_map_of_mem _ (by simp [hrange]), ?_⟩)
    have haligned := (howns.holds.bounds hrange (howns.nonempty range hrange)).1
    obtain ⟨first, hfirst⟩ := haligned
    rw [hfirst, Nat.mul_div_cancel_left _ (by decide : 0 < pagingBaseSize)] at hle hlt
    simp only [mem_units, pageSpan, pagingBaseSize] at hfirst ⊢
    omega
  constructor
  · rintro ⟨range, hlive, hpage⟩
    exact hrange range (Multiset.mem_add.mpr (.inl hlive)) hpage
  · rintro ⟨vaddr, hvaddr, rfl⟩
    exact hrange (vaddr, 1) (Multiset.mem_add.mpr (.inr (mem_singles hvaddr)))
      ⟨Nat.le_refl _, Nat.lt_succ_self _⟩

theorem Tidy.unmapped_of_free {lost : Multiset (Nat × Nat)} (h : Tidy state)
    (howns : Owns process state recorded) (hholds : SwampHolds process.config state.vaddrSpace.swamp
      (state.taken + lost + singles state.vaddrSpace.pageCache)) {page : Nat}
    (hfree : Free state.vaddrSpace (page * pagingBaseSize)) : Unmapped state.pages page := by
  obtain ⟨howned, hcached⟩ := not_owned_of_free howns hholds hfree
  exact h.unmapped page howned hcached

theorem tabled_unmaps {nRelease count first : Nat} {pages : PageMap} {held : Nat → Bool}
    {last : PageMap × (Nat → Bool)} (h : Unmaps nRelease count first pages held last)
    (htabled : Tabled pages) : Tabled last.1 := by
  intro page htable
  rw [h.tables] at htable
  obtain ⟨hentry, hfakemapped⟩ := htabled page htable
  have hnone : ¬ ((first ≤ page ∧ page < first + count) ∧
      pages.tables (page / pagingNEntries) = true) := by simp [htable]
  rw [Unmapped, h.entries, h.fakemapped, if_neg hnone, if_neg hnone]
  exact ⟨hentry, hfakemapped⟩

section

variable {ret nPages count : Nat} {commit : Nat} {supplies : List Supply} {committed : Bool}
  {progress : Progress} {pages : PageMap} {last : PageMap × (Nat → Bool)}

theorem held_unwound_iff (htabled : Tabled pages) (hpages : ∀ page,
      page < ret / pagingBaseSize + progress.totalFrames →
        pages.entries page = progress.pages.entries page)
    (hfetches : Fetches (ret / pagingBaseSize) ⟨0, state.pages, state.held⟩ progress)
    (hunmaps : Unmaps 1 progress.totalFrames (ret / pagingBaseSize) pages progress.held last) :
    (∀ frame, last.2 frame = state.held frame) ↔
      Whole (ret / pagingBaseSize) ⟨0, state.pages, state.held⟩ progress := by
  -- A frame is released when a page that the loop has gone through has it.
  have hreleased : ∀ frame, last.2 frame = true ↔ progress.held frame = true ∧
      ∀ page, Between (ret / pagingBaseSize) ⟨0, state.pages, state.held⟩ progress page →
        ¬ Maps progress.pages page frame := by
    intro frame
    rw [hunmaps.held]
    refine and_congr_right fun _ => ?_
    constructor
    · rintro hall page ⟨hle, hlt⟩ ⟨hpresent, hframe⟩
      rw [present, ← hpages page hlt, ← present] at hpresent
      rw [frameOf, ← hpages page hlt, ← frameOf] at hframe
      have htable : pages.tables (page / pagingNEntries) = true := by
        cases htable : pages.tables (page / pagingNEntries) with
        | true => rfl
        | false =>
          rw [present, (htabled page htable).1] at hpresent
          simp at hpresent
      exact hall page hle hlt htable hpresent (by omega)
    · intro hall page hle hlt _ hpresent hframe
      rw [present, hpages page hlt, ← present] at hpresent
      rw [frameOf, hpages page hlt, ← frameOf] at hframe
      exact hall page ⟨hle, hlt⟩ ⟨hpresent, by omega⟩
  constructor
  · intro hsame frame hheld
    cases hstart : state.held frame with
    | true => exact .inl hstart
    | false =>
      have hgone := hsame frame
      rw [hstart] at hgone
      have hmapped : ¬ ∀ page,
          Between (ret / pagingBaseSize) ⟨0, state.pages, state.held⟩ progress page →
            ¬ Maps progress.pages page frame := by
        intro hnone
        rw [(hreleased frame).mpr ⟨hheld, hnone⟩] at hgone
        contradiction
      push Not at hmapped
      exact .inr hmapped
  · intro hwhole frame
    rw [Bool.eq_iff_iff, hreleased]
    constructor
    · rintro ⟨hheld, hnone⟩
      rcases hwhole frame hheld with hstart | ⟨page, hpage, hmaps⟩
      · exact hstart
      · exact absurd hmaps (hnone page hpage)
    · intro hstart
      refine ⟨hfetches.held_of_held frame hstart, ?_⟩
      intro page hpage hmaps
      have hnew := (hfetches.fresh page frame hpage hmaps).2
      dsimp only at hnew
      rw [hstart] at hnew
      contradiction

theorem unmapped_unwound_iff {process : Process} (hcount : count ≤ nPages - progress.totalFrames)
    (htidy : Tidy state)
    (hfree : ∀ page, Free state.vaddrSpace (page * pagingBaseSize) → Unmapped state.pages page)
    (hrange : ∀ page, InRange (ret, nPages) page → Free state.vaddrSpace (page * pagingBaseSize))
    (hfetches : Fetches (ret / pagingBaseSize) ⟨0, state.pages, state.held⟩ progress)
    (hunmaps : Unmaps 1 progress.totalFrames (ret / pagingBaseSize)
      (progress.pages.mapNoInc (ret / pagingBaseSize + progress.totalFrames) count
        fakemappedDynamic (fakemapFlags process)) progress.held last) :
    (∀ page, Free state.vaddrSpace (page * pagingBaseSize) → Unmapped last.1 page) ↔
      ¬ 0 < count := by
  constructor
  · intro hall hpos
    have hunmapped := (hall (ret / pagingBaseSize + progress.totalFrames)
      (hrange _ ⟨Nat.le_add_right _ _, by dsimp only; omega⟩)).2
    rw [hunmaps.fakemapped, if_neg (by omega)] at hunmapped
    simp [PageMap.mapNoInc, hpos] at hunmapped
  · intro hzero page hpage
    obtain rfl : count = 0 := by omega
    rw [mapNoInc_zero] at hunmaps
    have htabled := hfetches.tabled htidy.tabled
    rw [Unmapped, hunmaps.entries, hunmaps.fakemapped]
    split
    · exact ⟨rfl, rfl⟩
    rename_i hout
    rcases em (Between (ret / pagingBaseSize) ⟨0, state.pages, state.held⟩ progress
      page) with hbetween | hbetween
    · -- A page of the range that is not unmapped has no page table.
      refine htabled page ?_
      cases htable : progress.pages.tables (page / pagingNEntries) with
      | false => rfl
      | true => exact absurd ⟨hbetween, htable⟩ hout
    · obtain ⟨hentry, hfakemapped⟩ := hfetches.outside page hbetween
      rw [hentry, hfakemapped]
      exact hfree page hpage

end

structure Keeps (state next : State) (range : Nat × Nat) : Prop where
  allocCache : next.allocCache = state.allocCache
  tabled : Tabled next.pages
  outside : ∀ page, ¬ InRange range page → next.pages.entries page = state.pages.entries page ∧
    next.pages.fakemapped page = state.pages.fakemapped page

theorem Tidy.loopSpec (htidy : Tidy state) (howns : Owns process state recorded)
    {nPages ret : Nat} {stream : VaddrSpaceStream} (hpages : 0 < nPages)
    (hholds : Holds process.config stream ((ret, nPages) ::ₘ state.taken)) (flags : Flags)
    {supplies : List Supply} (hfresh : FreshFrames state.held supplies) :
    LoopSpec (ret / pagingBaseSize) (commitNFrames nPages flags) 0 supplies
      ⟨0, state.pages, state.held⟩ (commitFrames (backedFlags process) (ret / pagingBaseSize)
        (commitNFrames nPages flags) supplies 0 ⟨0, state.pages, state.held⟩) := by
  refine commitFrames_spec (encodeFlags_lt _) ?_ _ _ _ (by decide) (Nat.zero_le _) hfresh ?_
  · cases process.fKernel <;> decide
  · intro page hle hlt
    have hcommit := commitNFrames_le nPages flags
    obtain ⟨howned, hcached⟩ := not_owned_of_new howns hpages hholds
      (show InRange (ret, nPages) page from ⟨hle, by dsimp only; omega⟩)
    simp [present, (htidy.unmapped page howned hcached).1]

theorem outside_mapNoInc {nPages ret count : Nat} {progress : Progress}
    (hfetches : Fetches (ret / pagingBaseSize) ⟨0, state.pages, state.held⟩ progress)
    (htotal : progress.totalFrames ≤ nPages) (hcount : count ≤ nPages - progress.totalFrames)
    {page : Nat} (hpage : ¬ InRange (ret, nPages) page) :
    (progress.pages.mapNoInc (ret / pagingBaseSize + progress.totalFrames) count fakemappedDynamic
      (fakemapFlags process)).entries page = state.pages.entries page ∧
    (progress.pages.mapNoInc (ret / pagingBaseSize + progress.totalFrames) count fakemappedDynamic
      (fakemapFlags process)).fakemapped page = state.pages.fakemapped page := by
  have hout : ¬ (ret / pagingBaseSize + progress.totalFrames ≤ page ∧
      page < ret / pagingBaseSize + progress.totalFrames + count) := by
    rintro ⟨hle, hlt⟩
    exact hpage ⟨by dsimp only; omega, by dsimp only; omega⟩
  obtain ⟨hentry, hfakemapped⟩ := hfetches.outside page (by
    rintro ⟨hle, hlt⟩
    exact hpage ⟨hle, by dsimp only at hlt ⊢; omega⟩)
  refine ⟨(if_neg hout).trans hentry, ?_⟩
  simp only [PageMap.mapNoInc, decide_eq_false hout, Bool.or_false, hfakemapped]

theorem commitPages_unwound_iff (howns : Owns process state recorded) (htidy : Tidy state)
    {nPages ret : Nat} {flags : Flags} {env : Env} {stream : VaddrSpaceStream}
    (hpages : 0 < nPages) (hne : ret ≠ 0)
    (hget : VaddrSpaceStream.getPages process.config.initSwampNode state.vaddrSpace nPages =
      some (ret, stream))
    (hsupplied : Supplied process state (.memAlloc nPages flags env))
    (hfresh : FreshFrames state.held env.supplies) :
    (¬ Fails state nPages flags env → ∃ next, commitPages process
      { state with vaddrSpace := stream } ret nPages flags env = some (ret, next) ∧
        Keeps state next (ret, nPages) ∧ next.live = (ret, nPages) :: state.live) ∧
    (Fails state nPages flags env → ∃ next, commitPages process
      { state with vaddrSpace := stream } ret nPages flags env = some (0, next) ∧
        Keeps state next (ret, nPages) ∧ next.live = state.live ∧
        (∀ page, InRange (ret, nPages) page → Free state.vaddrSpace (page * pagingBaseSize)) ∧
        (Unwound state next ↔ CanUnwind state nPages flags env)) := by
  obtain ⟨lost, hholds⟩ := howns.holds
  rw [add_right_comm] at hholds
  -- The range was free.
  obtain ⟨hlive, hrange⟩ : Holds process.config stream ((ret, nPages) ::ₘ state.taken) ∧
      ∀ address ∈ units (pageSpan (ret, nPages)), Free state.vaddrSpace address := by
    rcases getPages_cases hholds nPages with ⟨-, hget'⟩ |
      ⟨-, ret', stream', -, hget', hholds', -⟩
    · rw [hget] at hget'
      exact absurd (Prod.mk.inj (some.inj hget')).1 hne
    rw [hget] at hget'
    cases hget'
    refine ⟨⟨lost, ?_⟩, fun address haddress => (free_of_taken hholds hholds' haddress).1⟩
    rw [add_right_comm, Multiset.cons_add]
    exact hholds'
  have hbounds := hlive.bounds (Multiset.mem_cons_self _ _) hpages
  have hpage : ∀ page, InRange (ret, nPages) page →
      Free state.vaddrSpace (page * pagingBaseSize) := by
    rintro page ⟨hle, hlt⟩
    refine hrange _ (mem_units.mpr ?_)
    obtain ⟨first, hfirst⟩ := hbounds.1
    rw [hfirst, Nat.mul_div_cancel_left _ (by decide : 0 < pagingBaseSize)] at hle hlt
    simp only [pageSpan, pagingBaseSize] at hfirst ⊢
    omega
  have hspec := htidy.loopSpec howns hpages hlive flags hfresh
  rcases hprogress : commitFrames (backedFlags process) (ret / pagingBaseSize)
    (commitNFrames nPages flags) env.supplies 0 ⟨0, state.pages, state.held⟩ with
    ⟨committed, progress⟩
  rw [hprogress] at hspec
  have htotal : progress.totalFrames ≤ nPages :=
    hspec.totalFrames_le.trans (commitNFrames_le nPages flags)
  have hadd : ∃ err table, AllocTable.addEntry state.allocTable ret nPages 0 env.memory =
      some (err, table) ∧ (err ≠ .success → table = state.allocTable) := by
    have hlt : nPages < 2 ^ 28 := by
      simp only [wordModulus, pagingBaseSize] at hbounds
      omega
    rcases AllocTable.addEntry_records howns.records hbounds.2.1
      (howns.recorded_eq_none hpages hlive) hlt (by decide : 0 < 2 ^ 4) hsupplied.1 with
      ⟨table, hadd, -⟩ | ⟨hadd, -⟩
    · exact ⟨_, _, hadd, fun herr => absurd rfl herr⟩
    · exact ⟨_, _, hadd, fun _ => rfl⟩
  have htabled : ∀ count, Tabled (progress.pages.mapNoInc
      (ret / pagingBaseSize + progress.totalFrames) count fakemappedDynamic
        (fakemapFlags process)) :=
    fun count => (hspec.fetches.tabled htidy.tabled).mapNoInc _ count _ _
  obtain ⟨hsucceeds, hfails⟩ :=
    commitPages_cases { state with vaddrSpace := stream } hprogress hspec hadd
  constructor
  · intro hsucceed
    obtain ⟨next, count, hcount, hcommit, hnext, hcache, hlives⟩ := hsucceeds hsucceed
    refine ⟨next, hcommit, ⟨hcache, hnext ▸ htabled count, ?_⟩, hlives⟩
    intro page hout
    rw [hnext]
    exact outside_mapNoInc hspec.fetches htotal hcount hout
  · intro hfail
    obtain ⟨count, hcount, hcommit, hpos⟩ := hfails hfail
    rw [hcommit]
    obtain ⟨space, hrelease, hback⟩ := releasePages_free_iff hholds htidy.cacheFits hpages hne
      hget (hsupplied.2 _ hget)
    have hunmaps := unmapPages_spec 1 progress.totalFrames (ret / pagingBaseSize)
      (progress.pages.mapNoInc (ret / pagingBaseSize + progress.totalFrames) count
        fakemappedDynamic (fakemapFlags process)) progress.held
    have hheld := held_unwound_iff (htabled count)
      (fun page hlt => if_neg fun hmem => Nat.not_lt.mpr hmem.1 hlt) hspec.fetches hunmaps
    have hunmapped := unmapped_unwound_iff hcount htidy
      (fun page => htidy.unmapped_of_free howns hholds) hpage hspec.fetches hunmaps
    let memory := unmapPages 1 progress.totalFrames (ret / pagingBaseSize)
      (progress.pages.mapNoInc (ret / pagingBaseSize + progress.totalFrames) count
        fakemappedDynamic (fakemapFlags process), progress.held)
    let next : State := { state with vaddrSpace := space, pages := memory.1, held := memory.2 }
    refine ⟨next, ?_, ⟨rfl, tabled_unmaps hunmaps (htabled count), ?_⟩, rfl, hpage, ?_⟩
    · simp only [releaseAndUnmap, hrelease, some_bind]
      rfl
    · intro page hout
      have hapart : ¬ ((ret / pagingBaseSize ≤ page ∧
          page < ret / pagingBaseSize + progress.totalFrames) ∧
          (progress.pages.mapNoInc (ret / pagingBaseSize + progress.totalFrames) count
            fakemappedDynamic (fakemapFlags process)).tables (page / pagingNEntries) = true) := by
        rintro ⟨⟨hle, hlt⟩, -⟩
        exact hout ⟨hle, by dsimp only; omega⟩
      have houtside := @outside_mapNoInc process _ _ _ count _ hspec.fetches htotal hcount _ hout
      rw [← houtside.1, ← houtside.2]
      exact ⟨(hunmaps.entries page).trans (if_neg hapart),
        (hunmaps.fakemapped page).trans (if_neg hapart)⟩
    · have hwhole := hheld.trans hspec.whole_iff
      have hcommitted := hspec.committed_iff
      rw [hpos] at hunmapped
      constructor
      · intro hunwound
        have hmaps := hwhole.mp hunwound.held
        refine ⟨hmaps, ?_, hback.mp hunwound.free⟩
        rintro ⟨hgets, hfakemaps⟩
        exact hunmapped.mp hunwound.unmapped ⟨hcommitted.mpr ⟨hmaps, hgets⟩, hfakemaps⟩
      · rintro ⟨hmaps, hnone, hgoes⟩
        refine ⟨hwhole.mpr hmaps, hunmapped.mpr ?_, hback.mpr hgoes, rfl⟩
        rintro ⟨htrue, hfakemaps⟩
        exact hnone ⟨(hcommitted.mp htrue).2, hfakemaps⟩

theorem Tidy.unwound_refl (h : Tidy state) (howns : Owns process state recorded) :
    Unwound state state := by
  obtain ⟨lost, hholds⟩ := howns.holds
  rw [add_right_comm] at hholds
  exact ⟨fun _ => rfl, fun page => h.unmapped_of_free howns hholds, fun _ => Iff.rfl, rfl⟩

theorem Tidy.unwound_iff (htidy : Tidy state) (howns : Owns process state recorded)
    (nPages : Nat) (flags : Flags) (env : Env)
    (hsupplied : Supplied process state (.memAlloc nPages flags env))
    (hfresh : FreshFrames state.held env.supplies) :
    (∃ answer next, memAlloc process state nPages flags env = some (answer, next) ∧
      (answer = 0 → Unwound state next)) ↔
    (TakesRange state nPages flags → Fails state nPages flags env →
      CanUnwind state nPages flags env) := by
  have hrefl := htidy.unwound_refl howns
  unfold MemoryStream.memAlloc
  rcases eq_zero_or_pos nPages with hzero | hpages
  · rw [if_pos hzero]
    exact iff_of_true ⟨0, state, rfl, fun _ => hrefl⟩ fun htakes => absurd hzero htakes.1
  rw [if_neg (by omega)]
  cases hpop : popAllocCache state nPages flags with
  | some popped =>
    obtain ⟨ret, allocCache⟩ := popped
    refine iff_of_true ⟨ret, _, rfl, ?_⟩ fun htakes => ?_
    · intro hnull
      have hcached : (ret, 1) ∈ state.taken := by
        unfold popAllocCache at hpop
        split at hpop
        · contradiction
        · obtain ⟨-, hcache⟩ := stackCachePop_eq_some hpop
          exact Multiset.mem_add.mpr (.inr (mem_singles (by simp [hcache])))
      exact absurd hnull (howns.holds.bounds hcached one_pos).2.1
    · rw [TakesRange, hpop] at htakes
      simp at htakes
  | none =>
    obtain ⟨lost, hholds⟩ := howns.holds
    rw [add_right_comm] at hholds
    rcases getPages_cases hholds nPages with ⟨hnone, hget⟩ | ⟨hfinds, ret, stream, hne, hget, -⟩
    · simp only [hget, some_bind, if_true]
      exact iff_of_true ⟨0, state, rfl, fun _ => hrefl⟩ fun htakes => absurd htakes.2.2 hnone
    simp only [hget, some_bind, if_neg hne]
    obtain ⟨hsucceeds, hfails⟩ :=
      commitPages_unwound_iff howns htidy hpages hne hget hsupplied hfresh
    have htakes : TakesRange state nPages flags := ⟨by omega, hpop, hfinds⟩
    rw [forall_prop_of_true htakes]
    rcases em (Fails state nPages flags env) with hfail | hfail
    · obtain ⟨next, hcommit, -, -, -, hunwound⟩ := hfails hfail
      rw [forall_prop_of_true hfail, ← hunwound]
      constructor
      · rintro ⟨answer, next', heq, hnull⟩
        rw [hcommit] at heq
        cases heq
        exact hnull rfl
      · intro hleft
        exact ⟨0, next, hcommit, fun _ => hleft⟩
    · obtain ⟨next, hcommit, -, -⟩ := hsucceeds hfail
      exact iff_of_true ⟨ret, next, hcommit, fun hnull => absurd hnull hne⟩
        fun hfail' => absurd hfail' hfail

end

section

variable {process : Process} {state next : State} {recorded : Nat → Option (Nat × Nat)}

theorem cacheFits_getPages {initSwampNode : Ptr} {stream stream' : VaddrSpaceStream}
    {nPages vaddr : Nat} (h : CacheFits stream)
    (hget : VaddrSpaceStream.getPages initSwampNode stream nPages = some (vaddr, stream')) :
    CacheFits stream' := by
  unfold VaddrSpaceStream.getPages at hget
  cases hpop : VaddrSpaceStream.stackCachePop stream.pageCache nPages with
  | some popped =>
    rw [hpop] at hget
    cases hget
    obtain ⟨-, hcache⟩ := stackCachePop_eq_some hpop
    unfold CacheFits at h ⊢
    rw [hcache] at h
    exact (Nat.le_succ _).trans h
  | none =>
    rw [hpop] at hget
    obtain ⟨⟨vaddr', swamp⟩, -, heq⟩ := map_eq_some_iff.mp hget
    obtain ⟨-, rfl⟩ := Prod.mk.inj heq
    exact h

theorem cacheFits_releasePages {initSwampNode : Ptr} {stream stream' : VaddrSpaceStream}
    {nPages vaddr : Nat} {newNode : Option Ptr} (h : CacheFits stream)
    (hrelease : VaddrSpaceStream.releasePages initSwampNode stream vaddr nPages newNode =
      some stream') : CacheFits stream' := by
  unfold VaddrSpaceStream.releasePages VaddrSpaceStream.stackCachePush at hrelease
  split at hrelease
  · rename_i cache hpush
    cases hrelease
    split at hpush
    · rename_i hroom
      cases hpush
      exact lt_of_le_of_ne h hroom.2
    · contradiction
  · obtain ⟨swamp, -, rfl⟩ := map_eq_some_iff.mp hrelease
    exact h

variable (h : CacheFits state.vaddrSpace)

include h

theorem cacheFits_releaseAndUnmap {ret nPages totalFrames answer : Nat} {newNode : Option Ptr}
    (heq : releaseAndUnmap process state ret nPages totalFrames newNode = some (answer, next)) :
    CacheFits next.vaddrSpace := by
  obtain ⟨space, hrelease, heq⟩ := bind_eq_some_iff.mp heq
  cases heq
  exact cacheFits_releasePages h hrelease

theorem cacheFits_fakemapAndRecord {ret nPages totalFrames answer : Nat} {flags : Flags} {env : Env}
    (heq : fakemapAndRecord process state ret nPages totalFrames flags env =
      some (answer, next)) : CacheFits next.vaddrSpace := by
  unfold fakemapAndRecord at heq
  dsimp only at heq
  generalize hfaked : (if flags.noFakemap = true then state else { state with
    pages := state.pages.mapNoInc (ret / pagingBaseSize + totalFrames)
      (min env.nFakemapped (nPages - totalFrames)) fakemappedDynamic
      (fakemapFlags process) }) = faked at heq
  have hfits : CacheFits faked.vaddrSpace := by
    rw [← hfaked]
    split <;> exact h
  split at heq
  · exact cacheFits_releaseAndUnmap hfits heq
  obtain ⟨⟨err, table⟩, -, heq⟩ := bind_eq_some_iff.mp heq
  split at heq
  · cases heq
    exact hfits
  · exact cacheFits_releaseAndUnmap (by exact hfits) heq

theorem cacheFits_memAlloc {nPages answer : Nat} {flags : Flags} {env : Env}
    (heq : memAlloc process state nPages flags env = some (answer, next)) :
    CacheFits next.vaddrSpace := by
  unfold MemoryStream.memAlloc at heq
  split at heq
  · cases heq
    exact h
  split at heq
  · cases heq
    exact h
  obtain ⟨⟨ret, stream⟩, hget, heq⟩ := bind_eq_some_iff.mp heq
  have hfits := cacheFits_getPages h hget
  dsimp only at heq
  split at heq
  · cases heq
    exact hfits
  unfold commitPages at heq
  dsimp only at heq
  split at heq
  · exact cacheFits_fakemapAndRecord (by exact hfits) heq
  · exact cacheFits_releaseAndUnmap (by exact hfits) heq

theorem cacheFits_memFree {vaddr : Nat} {newNode : Option Ptr}
    (heq : memFree process state vaddr newNode = some next) : CacheFits next.vaddrSpace := by
  unfold MemoryStream.memFree at heq
  split at heq
  · cases heq
    exact h
  split at heq
  · cases heq
    exact h
  split at heq
  · cases heq
    exact h
  · obtain ⟨space, hrelease, heq⟩ := bind_eq_some_iff.mp heq
    obtain ⟨table, -, heq⟩ := bind_eq_some_iff.mp heq
    cases heq
    exact cacheFits_releasePages h hrelease

omit h

def UnwindsIfFails (state : State) : Call → Prop
  | .memAlloc nPages flags env => TakesRange state nPages flags → Fails state nPages flags env →
      CanUnwind state nPages flags env
  | .memFree _ _ => True

theorem Keeps.tidy {range : Nat × Nat} (h : Keeps state next range) (htidy : Tidy state)
    (hfits : CacheFits next.vaddrSpace)
    (howned : ∀ page, ¬ InRange range page → Owned state.live page → Owned next.live page)
    (hrange : ∀ page, InRange range page → ¬ Owned next.live page → Unmapped next.pages page) :
    Tidy next := by
  refine ⟨?_, h.tabled, hfits⟩
  intro page hpage hcached
  rcases em (InRange range page) with hin | hout
  · exact hrange page hin hpage
  · rw [h.allocCache] at hcached
    obtain ⟨hentry, hfakemapped⟩ := h.outside page hout
    rw [Unmapped, hentry, hfakemapped]
    exact htidy.unmapped page (fun hlive => hpage (howned page hout hlive)) hcached

theorem unmapped_setAttributes {pages : PageMap} {page other : Nat} {op : SetAttributes.Op}
    (hne : other ≠ page) (h : Unmapped pages other) :
    Unmapped (pages.setAttributes page op) other := by
  unfold PageMap.setAttributes
  split
  · exact ⟨(Function.update_of_ne hne _ _).trans h.1, h.2⟩
  · exact h

theorem Tabled.setAttributes {pages : PageMap} (h : Tabled pages) (page : Nat)
    (op : SetAttributes.Op) : Tabled (pages.setAttributes page op) := by
  unfold PageMap.setAttributes
  split
  · rename_i htable
    intro other hother
    have hne : other ≠ page := by
      rintro rfl
      rw [htable] at hother
      contradiction
    obtain ⟨hentry, hfakemapped⟩ := h other hother
    exact ⟨(Function.update_of_ne hne _ _).trans hentry, hfakemapped⟩
  · exact h

theorem Tidy.memAlloc (htidy : Tidy state) (howns : Owns process state recorded)
    {nPages answer : Nat} {flags : Flags} {env : Env}
    (hsupplied : Supplied process state (.memAlloc nPages flags env))
    (hfresh : FreshFrames state.held env.supplies)
    (hunwinds : UnwindsIfFails state (.memAlloc nPages flags env))
    (heq : memAlloc process state nPages flags env = some (answer, next)) : Tidy next := by
  have hfits := cacheFits_memAlloc htidy.cacheFits heq
  unfold MemoryStream.memAlloc at heq
  rcases eq_zero_or_pos nPages with hzero | hpages
  · rw [if_pos hzero] at heq
    cases heq
    exact htidy
  rw [if_neg (by omega)] at heq
  cases hpop : popAllocCache state nPages flags with
  | some popped =>
    obtain ⟨ret, allocCache⟩ := popped
    rw [hpop] at heq
    obtain ⟨-, rfl⟩ := Prod.mk.inj (some.inj heq)
    unfold popAllocCache at hpop
    split at hpop
    · contradiction
    obtain ⟨rfl, hcache⟩ := stackCachePop_eq_some hpop
    refine ⟨?_, htidy.tabled.setAttributes _ _, htidy.cacheFits⟩
    intro page howned hcached
    have hne : page ≠ ret / pagingBaseSize := by
      rintro rfl
      exact howned ⟨(ret, 1), mem_cons_self, Nat.le_refl _, Nat.lt_succ_self _⟩
    refine unmapped_setAttributes hne (htidy.unmapped page ?_ ?_)
    · rintro ⟨range, hrange, hpage⟩
      exact howned ⟨range, mem_cons_of_mem _ hrange, hpage⟩
    · rintro ⟨vaddr, hvaddr, rfl⟩
      rw [hcache] at hvaddr
      rcases mem_cons.mp hvaddr with rfl | hvaddr
      · exact hne rfl
      · exact hcached ⟨vaddr, hvaddr, rfl⟩
  | none =>
    obtain ⟨lost, hholds⟩ := howns.holds
    rw [add_right_comm] at hholds
    rcases getPages_cases hholds nPages with ⟨hnone, hget⟩ | ⟨hfinds, ret, stream, hne, hget, -⟩
    · simp only [hpop, hget, some_bind, if_true] at heq
      cases heq
      exact htidy
    simp only [hpop, hget, some_bind, if_neg hne] at heq
    obtain ⟨hsucceeds, hfails⟩ :=
      commitPages_unwound_iff howns htidy hpages hne hget hsupplied hfresh
    rcases em (Fails state nPages flags env) with hfail | hfail
    · obtain ⟨next', hcommit, hkeeps, hlive, hfree, hunwound⟩ := hfails hfail
      rw [hcommit] at heq
      cases heq
      have hundone := hunwound.mpr (hunwinds ⟨by omega, hpop, hfinds⟩ hfail)
      refine hkeeps.tidy htidy hfits ?_ ?_
      · intro page _ howned
        rw [hlive]
        exact howned
      · intro page hpage _
        exact hundone.unmapped page (hfree page hpage)
    obtain ⟨next', hcommit, hkeeps, hlive⟩ := hsucceeds hfail
    rw [hcommit] at heq
    obtain ⟨-, rfl⟩ := Prod.mk.inj (some.inj heq)
    refine hkeeps.tidy htidy hfits ?_ ?_
    · rintro page - ⟨range, hrange, hpage⟩
      rw [hlive]
      exact ⟨range, mem_cons_of_mem _ hrange, hpage⟩
    · intro page hpage hnot
      rw [hlive] at hnot
      exact absurd ⟨(ret, nPages), mem_cons_self, hpage⟩ hnot

theorem Tidy.frees (htidy : Tidy state) (howns : Owns process state recorded) {vaddr : Nat}
    (hfits : CacheFits next.vaddrSpace) (hfrees : Frees state vaddr next) : Tidy next := by
  cases hfrees with
  | nothing hnext =>
    rw [hnext]
    exact htidy
  | toCache hlive hkeeps hcache hpages hheld hnext =>
    refine ⟨?_, ?_, hfits⟩
    · intro page howned hcached
      rw [hcache] at hcached
      rw [hnext] at howned
      have hne : page ≠ vaddr / pagingBaseSize := by
        rintro rfl
        exact hcached ⟨vaddr, mem_cons_self, rfl⟩
      rw [hpages]
      refine unmapped_setAttributes hne (htidy.unmapped page ?_ ?_)
      · intro hlives
        refine howned (owned_filter howns hlive hlives ?_)
        rintro ⟨hle, hlt⟩
        dsimp only at hle hlt
        omega
      · rintro ⟨other, hother, rfl⟩
        exact hcached ⟨other, mem_cons_of_mem _ hother, rfl⟩
    · rw [hpages]
      exact htidy.tabled.setAttributes _ _
  | toSwamp nPages hlive hremoves hcache hunmap hnext =>
    have hspec := unmapPages_spec nPages nPages (vaddr / pagingBaseSize) state.pages state.held
    rw [← hunmap] at hspec
    refine ⟨?_, tabled_unmaps hspec htidy.tabled, hfits⟩
    intro page howned hcached
    rw [hnext] at howned
    rw [hcache] at hcached
    have hentry := hspec.entries page
    have hfakemapped := hspec.fakemapped page
    rw [Unmapped, hentry, hfakemapped]
    split
    · exact ⟨rfl, rfl⟩
    rename_i hout
    rcases em (InRange (vaddr, nPages) page) with hin | hin
    · refine htidy.tabled page ?_
      cases htable : state.pages.tables (page / pagingNEntries) with
      | false => rfl
      | true => exact absurd ⟨hin, htable⟩ hout
    · exact htidy.unmapped page
        (fun hlives => howned (owned_filter howns hlive hlives hin)) hcached

theorem step_tidy (process : Process) (state : State) (call : Call)
    (h : (∃ recorded, Owns process state recorded) ∧ Tidy state)
    (hguard : Supplied process state call ∧ WithinBlocks state call ∧ FramesFresh state call ∧
      FreesLive state call ∧ UnwindsIfFails state call) :
    ∃ answer next, step process state call = some (answer, next) ∧
      (∃ recorded, Owns process next recorded) ∧ Tidy next := by
  obtain ⟨⟨recorded, howns⟩, htidy⟩ := h
  obtain ⟨hsupplied, hwithin, hfresh, hlive, hunwinds⟩ := hguard
  cases call with
  | memAlloc nPages flags env =>
    obtain ⟨answer, next, recorded', heq, howns', -⟩ := howns.memAlloc hsupplied
    exact ⟨answer, next, heq, ⟨recorded', howns'⟩,
      htidy.memAlloc howns hsupplied hfresh hunwinds heq⟩
  | memFree vaddr newNode =>
    obtain ⟨range, hrange, rfl⟩ := hlive
    obtain ⟨next, recorded', heq, howns', hfrees⟩ :=
      howns.memFree (not_cached_of_live howns hrange) hwithin hsupplied
    exact ⟨0, next, by simp [step, heq], ⟨recorded', howns'⟩,
      htidy.frees howns (cacheFits_memFree htidy.cacheFits heq) hfrees⟩

theorem tidy_initialState (process : Process) : Tidy (initialState process) :=
  ⟨fun _ _ _ => ⟨rfl, rfl⟩, fun _ _ => ⟨rfl, rfl⟩, Nat.zero_le _⟩

/-- After every run in which the failed calls could unwind, a call of `memAlloc` with any request
and flags returns, and a null pointer leaves nothing behind, if and only if the call cannot
fail with its virtual pages or can unwind. -/
theorem memAlloc_unwound_iff (process : Process) (calls : List Call)
    (h : Guarded (step process) (fun state call => Supplied process state call ∧
      WithinBlocks state call ∧ FramesFresh state call ∧ FreesLive state call ∧
      UnwindsIfFails state call) (initialState process) calls) :
    ∃ answers last, run (step process) (initialState process) calls = some (answers, last) ∧
      ∀ nPages flags env, Supplied process last (.memAlloc nPages flags env) →
        FramesFresh last (.memAlloc nPages flags env) →
        ((∃ answer next, memAlloc process last nPages flags env = some (answer, next) ∧
          (answer = 0 → Unwound last next)) ↔
        (TakesRange last nPages flags → Fails last nPages flags env →
          CanUnwind last nPages flags env)) := by
  obtain ⟨answers, last, hrun, ⟨recorded, howns⟩, htidy⟩ := run_invariant (step_tidy process)
    ⟨⟨_, owns_initialState process⟩, tidy_initialState process⟩ h
  refine ⟨answers, last, hrun, ?_⟩
  intro nPages flags env hsupplied hfresh
  exact htidy.unwound_iff howns nPages flags env hsupplied hfresh

end

theorem mapsWhole_of_forall {commit nTries totalFrames : Nat} {supplies : List Supply}
    (h : ∀ supply ∈ supplies, supply.nFrames ≤ supply.nMapped) :
    MapsWhole commit nTries totalFrames supplies := by
  rintro front supply back rfl - -
  exact (min_le_left _ _).trans (h supply (by simp))

/-- The second call maps the frame 20, and there is no frame for its other page. -/
theorem memAlloc_unwound_iff_oneFetched :
    ∃ answers last, run (step smallProcess) (initialState smallProcess)
        [.memAlloc 1 noFlags (oneFrame 10)] = some (answers, last) ∧
      ∃ next, memAlloc smallProcess last 2 noFlags (oneFrame 20) = some (0, next) ∧
        Unwound last next := by
  have hmaps : ∀ nPages frame, MapsWhole (commitNFrames nPages noFlags) 0 0
      (oneFrame frame).supplies ∧ ¬(GetsFrames (commitNFrames nPages noFlags) 0 0
        (oneFrame frame).supplies ∧ FakemapsPages nPages noFlags (oneFrame frame)) :=
    fun _ _ => ⟨mapsWhole_of_forall (by simp [oneFrame]), fun h => absurd h.2.2.2 (lt_irrefl 0)⟩
  have hguard : Guarded (step smallProcess) (fun state call => Supplied smallProcess state call ∧
      WithinBlocks state call ∧ FramesFresh state call ∧ FreesLive state call)
      (initialState smallProcess) [.memAlloc 1 noFlags (oneFrame 10)] := by decide +kernel
  obtain ⟨⟨hsupplied, hwithin, hfresh, hlive⟩, -⟩ := hguard
  obtain ⟨answers, last, hrun, hiff⟩ := memAlloc_unwound_iff smallProcess
    [.memAlloc 1 noFlags (oneFrame 10)] ⟨⟨hsupplied, hwithin, hfresh, hlive,
      fun _ _ => ⟨(hmaps 1 10).1, (hmaps 1 10).2, .inl rfl⟩⟩, fun _ _ _ => trivial⟩
  have hlast : (run (step smallProcess) (initialState smallProcess)
      [.memAlloc 1 noFlags (oneFrame 10)]).all (fun (r : _ × State) =>
        decide (Supplied smallProcess r.2 (.memAlloc 2 noFlags (oneFrame 20)) ∧
          FramesFresh r.2 (.memAlloc 2 noFlags (oneFrame 20)) ∧
          (∀ block ∈ freeBlocks r.2.vaddrSpace.swamp, block.nPages ≠ 2) ∧
          (memAlloc smallProcess r.2 2 noFlags (oneFrame 20)).all (·.1 = 0))) = true := by
    decide +kernel
  rw [hrun, Option.all_some, decide_eq_true_iff] at hlast
  obtain ⟨hsupplied', hfresh', hblocks, hnull⟩ := hlast
  obtain ⟨answer, next, heq, hunwound⟩ := (hiff 2 noFlags (oneFrame 20) hsupplied' hfresh').mpr
    fun _ _ => ⟨(hmaps 2 20).1, (hmaps 2 20).2, .inr fun _ _ _ hfree _ htwo =>
      absurd htwo (hblocks _ (by simp [hfree]))⟩
  rw [heq, Option.all_some, decide_eq_true_iff] at hnull
  exact ⟨answers, last, hrun, next, hnull ▸ heq, hunwound hnull⟩

def oneOfTwo : Env :=
  { oneFrame 20 with supplies := [⟨20, 2, 1⟩] }

theorem oneOfTwo_not_unwound :
    ¬ ∀ nPages flags env, Supplied smallProcess (initialState smallProcess)
        (.memAlloc nPages flags env) →
      FramesFresh (initialState smallProcess) (.memAlloc nPages flags env) →
      ∃ answer next, memAlloc smallProcess (initialState smallProcess) nPages flags env =
          some (answer, next) ∧ (answer = 0 → Unwound (initialState smallProcess) next) := by
  intro hclaim
  obtain ⟨answer, next, heq, hunwound⟩ :=
    hclaim 2 noFlags oneOfTwo (by decide +kernel) (by decide +kernel)
  have hrun : ((memAlloc smallProcess (initialState smallProcess) 2 noFlags oneOfTwo).any
      fun r => decide (r.1 = 0 ∧ r.2.held 21 = true)) = true := by decide +kernel
  rw [heq] at hrun
  obtain ⟨hnull, hheld⟩ := of_decide_eq_true hrun
  rw [(hunwound hnull).held 21] at hheld
  exact Bool.false_ne_true hheld

end Zambesii.MemAllocUnwind
