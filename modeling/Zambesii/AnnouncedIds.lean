import Mathlib.Data.Finset.Basic
import Zambesii.BitmapResize

/-!
The hardware ids that are announced in a bitmap: `CHECK_AND_RESIZE_BMP` makes room for the bit
of the id before it is set.
-/

namespace Zambesii.AnnouncedIds

open BitManipulation BitmapResize KernelTypes Nat Option Runs

structure State where
  bmp : Bmp
  announced : Finset Nat

/-- After `initialize` with no bits. -/
def initialState (source : Source) : Option State :=
  (initializeWith construct 0 source).map fun result => ⟨result.2, ∅⟩

inductive Call
  | announce (id : Nat) (fresh : Option Bits)
  | withdraw (id : Nat)

/-- An id is announced by `CHECK_AND_RESIZE_BMP` and `setSingle`, unless there is no room for
it, and withdrawn by `unsetSingle`. -/
def step (state : State) : Call → Option (Kerror × State)
  | .announce id fresh =>
    match resizeTo state.bmp ((id + 1) % wordModulus) fresh with
    | none => none
    | some (.success, bmp) =>
      (set bmp id).map fun bmp => (.success, ⟨bmp, insert id state.announced⟩)
    | some (error, bmp) => some (error, { state with bmp })
  | .withdraw id =>
    (unset state.bmp id).map fun bmp => (.success, ⟨bmp, state.announced.erase id⟩)

def Reports (state : State) : Prop :=
  ∀ bit, test state.bmp bit = some (decide (bit ∈ state.announced))

def Valid : Call → Prop
  | .announce id _ | .withdraw id => id + 1 < wordModulus

/-- No higher id is announced, and the resize goes well. -/
def Ascending (state : State) : Call → Prop
  | .announce id _ =>
    (∀ other ∈ state.announced, other ≤ id) ∧ GoodResize state.bmp (id + 1)
  | .withdraw _ => True

instance : ∀ call, Decidable (Valid call)
  | .announce _ _ | .withdraw _ => inferInstanceAs (Decidable (_ < _))

instance (state : State) : ∀ call, Decidable (Ascending state call)
  | .announce _ _ => inferInstanceAs (Decidable ((∀ _ ∈ _, _) ∧ GoodResize _ _))
  | .withdraw _ => inferInstanceAs (Decidable True)

variable {state : State} {bmp : Bmp} {announced : Finset Nat} {id : Nat}

theorem test_eq {words : Words} (h : Sound bmp) (harray : bmp.array = some words) (bit : Nat) :
    test bmp bit = some (decide (bit < bmp.nBits) && words.bits bit) := by
  simp only [test, element, harray]
  split
  · rename_i hlt
    rw [if_pos (holds_of_lt (h.covered words harray) hlt)]
    simp [hlt]
  · rename_i hge
    simp [hge]

theorem set_reports (h : Sound bmp) (hreports : Reports ⟨bmp, announced⟩) (hid : id < bmp.nBits) :
    ∃ bmp', BitmapResize.set bmp id = some bmp' ∧ Sound bmp' ∧
      Reports ⟨bmp', insert id announced⟩ := by
  obtain ⟨words, harray, helement⟩ := h.element_eq hid
  obtain ⟨bmp', hset, hsound⟩ := h.set id
  refine ⟨bmp', hset, hsound, ?_⟩
  rw [BitmapResize.set, if_pos hid, helement] at hset
  cases hset
  intro bit
  have hbit := some.inj ((test_eq h harray bit).symm.trans (hreports bit))
  rw [test_eq hsound rfl, some.injEq, Bool.eq_iff_iff]
  rw [Bool.eq_iff_iff] at hbit
  simp only [Bool.and_eq_true, decide_eq_true_eq, setBits_eq_true, Finset.mem_insert] at hbit ⊢
  rw [← hbit]
  constructor
  · rintro ⟨hlt, hold | hone⟩
    · exact .inr ⟨hlt, hold⟩
    · exact .inl (by omega)
  · rintro (rfl | ⟨hlt, hold⟩)
    · exact ⟨hid, .inr (by omega)⟩
    · exact ⟨hlt, .inl hold⟩

theorem unset_reports (h : Sound bmp) (hreports : Reports ⟨bmp, announced⟩) (id : Nat) :
    ∃ bmp', BitmapResize.unset bmp id = some bmp' ∧ Sound bmp' ∧
      Reports ⟨bmp', announced.erase id⟩ := by
  obtain ⟨bmp', hunset, hsound⟩ := h.unset id
  refine ⟨bmp', hunset, hsound, ?_⟩
  rw [BitmapResize.unset] at hunset
  split at hunset
  · rename_i hid
    obtain ⟨words, harray, helement⟩ := h.element_eq hid
    rw [helement] at hunset
    cases hunset
    intro bit
    have hbit := some.inj ((test_eq h harray bit).symm.trans (hreports bit))
    rw [test_eq hsound rfl, some.injEq, Bool.eq_iff_iff]
    rw [Bool.eq_iff_iff] at hbit
    simp only [Bool.and_eq_true, decide_eq_true_eq, unsetBits_eq_true, Finset.mem_erase] at hbit ⊢
    have hone : ¬(id ≤ bit ∧ bit < id + 1) ↔ bit ≠ id := by omega
    tauto
  · rename_i hge
    cases hunset
    -- the id is not announced, so that nothing is to be withdrawn
    have hnot : id ∉ announced := by
      have hbit := hreports id
      rw [test, if_neg hge] at hbit
      exact of_decide_eq_false (some.inj hbit).symm
    rw [Finset.erase_eq_of_notMem hnot]
    exact hreports

theorem reports_resized {bmp' : Bmp} (hreports : Reports ⟨bmp, announced⟩)
    (hle : ∀ other ∈ announced, other ≤ id) (hresized : Resized bmp bmp' (id + 1)) :
    Reports ⟨bmp', announced⟩ := by
  intro bit
  rcases lt_or_ge bit (id + 1) with hlt | hge
  · obtain ⟨value, hvalue, hkept, hnew⟩ := hresized.reads bit hlt
    have hbit := hreports bit
    rcases lt_or_ge bit bmp.nBits with hold | hbeyond
    · rw [hvalue, ← hbit, hkept hold]
    · rw [test, if_neg (not_lt.mpr hbeyond)] at hbit
      rw [hvalue, hnew hbeyond, hbit]
  · have hnot : bit ∉ announced := fun hmem => absurd (hle bit hmem) (by omega)
    rw [test, if_neg (not_lt.mpr (hresized.size.le.trans hge))]
    simp [hnot]

/-- A failed allocation leaves the bitmap as it is. -/
theorem resizeTo_reports {fresh : Option Bits} (h : Sound bmp)
    (hreports : Reports ⟨bmp, announced⟩) (hid : id + 1 < wordModulus)
    (hasc : Ascending ⟨bmp, announced⟩ (.announce id fresh)) :
    (∃ bmp', resizeTo bmp (id + 1) fresh = some (.success, bmp') ∧ bmp'.nBits = id + 1 ∧
        Sound bmp' ∧ Reports ⟨bmp', announced⟩) ∨
      resizeTo bmp (id + 1) fresh = some (.memoryNomem, bmp) := by
  obtain ⟨hle, hgood⟩ := hasc
  have hsome : ∀ bits, ∃ bmp', resizeTo bmp (id + 1) (some bits) = some (.success, bmp') ∧
      bmp'.nBits = id + 1 ∧ Sound bmp' ∧ Reports ⟨bmp', announced⟩ := by
    intro bits
    rcases h.resizeTo (succ_ne_zero id) hid bits with
      ⟨-, bmp', heq, hresized, hnext⟩ | ⟨hbad, -⟩
    · exact ⟨bmp', heq, hresized.size, hnext, reports_resized hreports hle hresized⟩
    · exact absurd hgood hbad
  cases fresh with
  | some bits => exact .inl (hsome bits)
  | none =>
    have hcapacity := capacity_of_asserts hgood.asserts
    rcases lt_or_ge (id + 1) (capacity bmp) with hkept | hcopied
    · -- the array is kept, so nothing is allocated
      left
      convert hsome (fun _ => false) using 4
      simp only [resizeTo, hcapacity]
      rw [if_pos hkept, if_pos hkept]
    · right
      simp only [resizeTo, hcapacity]
      rw [if_neg (succ_ne_zero id), if_neg (not_lt.mpr hcopied)]

theorem step_reports {call : Call} (h : Sound state.bmp ∧ Reports state) (hvalid : Valid call)
    (hasc : Ascending state call) :
    ∃ result next, step state call = some (result, next) ∧ Sound next.bmp ∧ Reports next := by
  obtain ⟨hsound, hreports⟩ := h
  cases call with
  | announce id fresh =>
    simp only [step]
    rw [mod_eq_of_lt hvalid]
    rcases resizeTo_reports hsound hreports hvalid hasc with
      ⟨bmp, heq, hnBits, hnext, hreports⟩ | heq
    · have hid : id < bmp.nBits := hnBits.symm ▸ lt_succ_self id
      obtain ⟨bmp', hset, hlast⟩ := set_reports hnext hreports hid
      rw [heq]
      dsimp only
      rw [hset]
      exact ⟨_, _, rfl, hlast⟩
    · rw [heq]
      exact ⟨_, _, rfl, hsound, hreports⟩
  | withdraw id =>
    obtain ⟨bmp', hunset, hlast⟩ := unset_reports hsound hreports id
    rw [step, hunset]
    exact ⟨_, _, rfl, hlast⟩

theorem reports_empty (hzero : bmp.nBits = 0) : Reports ⟨bmp, ∅⟩ := by
  intro bit
  rw [test, hzero, if_neg (not_lt_zero bit)]
  rfl

theorem initialState_reports (source : Source) :
    ∃ state, initialState source = some state ∧ Sound state.bmp ∧ Reports state := by
  cases source with
  | preallocated size bits =>
    have hinit : ∃ words, initialState (.preallocated size bits) =
        some ⟨⟨some words, 0, some size⟩, ∅⟩ := by
      simp only [initialState, initializeWith, memset]
      rw [if_neg (not_lt_zero _), if_pos (by split <;> simp [nElements])]
      exact ⟨_, rfl⟩
    obtain ⟨words, heq⟩ := hinit
    exact ⟨_, heq, sound_of_covers _ wordModulus_pos (zero_le _), reports_empty rfl⟩
  | heap bits => exact ⟨⟨construct, ∅⟩, rfl, sound_construct, reports_empty rfl⟩

/-- As long as no id is announced after a higher one that is still there, and the resizes go
well, the bitmap reports the announced ids. -/
theorem run_reports (source : Source) (calls : List Call) :
    ∃ start, initialState source = some start ∧
      (Guarded step (fun state call => Valid call ∧ Ascending state call) start calls →
        ∃ results last, run step start calls = some (results, last) ∧ Reports last) := by
  obtain ⟨start, hstart, hinit⟩ := initialState_reports source
  refine ⟨start, hstart, ?_⟩
  intro hguarded
  obtain ⟨results, last, hrun, -, hreports⟩ := run_invariant
    (fun state call hboth hguard => step_reports hboth hguard.1 hguard.2) hinit hguarded
  exact ⟨results, last, hrun, hreports⟩

def clearBits : Bits := fun _ => false

def announceAscending : List Call :=
  [.announce 3 (some clearBits), .announce 5 none, .withdraw 3, .announce 40 (some clearBits)]

theorem run_reports_ascending :
    ∃ start results last, initialState (.preallocated 4 clearBits) = some start ∧
      run step start announceAscending = some (results, last) ∧
      last.announced = {5, 40} ∧ test last.bmp 5 = some true ∧ Reports last := by
  obtain ⟨start, hstart, hreports⟩ :=
    run_reports (.preallocated 4 clearBits) announceAscending
  have hruns : ((initialState (.preallocated 4 clearBits)).any fun start =>
      decide (Guarded step (fun state call => Valid call ∧ Ascending state call) start
        announceAscending) && (run step start announceAscending).any
          fun r => decide (r.2.announced = {5, 40} ∧ test r.2.bmp 5 = some true)) = true := by
    decide +kernel
  rw [hstart] at hruns
  obtain ⟨hguarded, hrun⟩ := (Bool.and_eq_true _ _).mp hruns
  obtain ⟨results, last, hlast, hreports⟩ := hreports (of_decide_eq_true hguarded)
  rw [hlast] at hrun
  obtain ⟨hannounced, htest⟩ := of_decide_eq_true hrun
  exact ⟨start, results, last, hstart, hlast, hannounced, htest, hreports⟩

def announceDescending : List Call :=
  [.announce 5 (some clearBits), .announce 3 (some clearBits)]

theorem announceDescending_hidden :
    ¬ ∀ source calls start, initialState source = some start →
      Guarded step (fun _ call => Valid call) start calls →
      ∀ results last, run step start calls = some (results, last) → Reports last := by
  intro hclaim
  obtain ⟨start, hstart, -⟩ := initialState_reports (.preallocated 4 clearBits)
  have hruns : ((initialState (.preallocated 4 clearBits)).any fun start =>
      decide (Guarded step (fun _ call => Valid call) start announceDescending) &&
        (run step start announceDescending).any
          fun r => decide (5 ∈ r.2.announced ∧ test r.2.bmp 5 = some false)) = true := by
    decide +kernel
  rw [hstart] at hruns
  obtain ⟨hguarded, hrun⟩ := (Bool.and_eq_true _ _).mp hruns
  obtain ⟨⟨results, last⟩, hlast, hstate⟩ := (any_eq_true _ _).mp hrun
  obtain ⟨hmem, htest⟩ := of_decide_eq_true hstate
  have hfive := hclaim _ announceDescending start hstart (of_decide_eq_true hguarded)
    results last hlast 5
  rw [htest, decide_eq_true hmem] at hfive
  cases hfive

end Zambesii.AnnouncedIds
