import Zambesii.VSwamp

/-!
When the free nodes of a swamp are kept apart. `releasePages` joins a range to the
node before it only if it could join it to the node after it, and loses what is
released into an empty list.
-/

namespace Zambesii.VSwampMerge

open KernelTypes LinkedCells List Option Runs Tiling VSwamp

def Apart (cells : List (Ptr × SwampInfoNode)) : Prop :=
  ∀ cell ∈ cells, ∀ other ∈ cells, endAddr cell ≠ other.2.baseAddr

structure FreePages (config : SwampConfig) (live : Multiset (Nat × Nat)) (vaddr nPages : Nat) :
    Prop where
  aligned : pagingBaseSize ∣ vaddr
  low : config.baseAddr ≤ vaddr
  high : vaddr + nPages * pagingBaseSize ≤ config.baseAddr + config.nPages * pagingBaseSize
  unused : ∀ range ∈ live, Disjoint (units (pageSpan (vaddr, nPages))) (units (pageSpan range))

def Served (config : SwampConfig) (state : SwampRun) : Prop :=
  ∀ vaddr nPages, 0 < nPages → FreePages config state.live vaddr nPages →
    ∃ answer next, step config.initSwampNode state (.getPages nPages) = some (answer, next) ∧
      answer ≠ 0

def Defragmented (config : SwampConfig) (state : SwampRun) : Prop :=
  (∃ cells, Describes state.swamp.mem state.swamp.head state.swamp.tail cells ∧ Apart cells) ∧
    Served config state

/-- The list is not empty, and a range that follows a free node is followed by one. -/
def JoinsNeighbours (state : SwampRun) : Call → Prop
  | .getPages _ => True
  | .releasePages vaddr nPages _ =>
    nPages = 0 ∨ ∃ cells, Describes state.swamp.mem state.swamp.head state.swamp.tail cells ∧
      cells ≠ [] ∧ ((∃ cell ∈ cells, endAddr cell = vaddr) →
        ∃ cell ∈ cells, cell.2.baseAddr = vaddr + nPages * pagingBaseSize)

def Merged (config : SwampConfig) (state : SwampRun) : Prop :=
  ∃ cells, Partition config state.swamp state.live cells ∧ Apart cells

theorem describes_unique {mem : Memory SwampInfoNode} {head tail tail' : Ptr}
    {cells cells' : List (Ptr × SwampInfoNode)} (h : Describes mem head tail cells)
    (h' : Describes mem head tail' cells') : cells = cells' := by
  apply linked_unique h.linked h'.linked h.nonnull h'.nonnull
  rw [← h.head_eq, ← h'.head_eq]

section

variable {config : SwampConfig} {state : SwampState} {live : Multiset (Nat × Nat)}
  {cells cells' : List (Ptr × SwampInfoNode)} {cell : Ptr × SwampInfoNode} {nPages : Nat}

theorem baseAddr_lt_endAddr (h : Partition config state live cells) (hcell : cell ∈ cells) :
    cell.2.baseAddr < endAddr cell := by
  have hlength : 0 < cell.2.nPages * pagingBaseSize :=
    Nat.mul_pos (h.nonempty cell hcell) (by decide)
  simp only [endAddr]
  omega

theorem precedes_cases (h : cells.Pairwise Precedes) {other : Ptr × SwampInfoNode}
    (hcell : cell ∈ cells) (hother : other ∈ cells) :
    cell = other ∨ endAddr cell ≤ other.2.baseAddr ∨ endAddr other ≤ cell.2.baseAddr := by
  refine List.Pairwise.forall_of_forall_of_flip (R := fun first second => first = second ∨
    endAddr first ≤ second.2.baseAddr ∨ endAddr second ≤ first.2.baseAddr)
    (fun _ _ => .inl rfl) ?_ ?_ hcell hother
  · exact h.imp fun hprecedes => .inr (.inl hprecedes)
  · exact h.imp fun hprecedes => .inr (.inr hprecedes)

theorem exists_cell (h : Partition config state live cells) {address : Nat}
    (hlow : config.baseAddr ≤ address)
    (hhigh : address < config.baseAddr + config.nPages * pagingBaseSize)
    (hunused : ∀ range ∈ live, address ∉ units (pageSpan range)) :
    ∃ cell ∈ cells, cell.2.baseAddr ≤ address ∧ address < endAddr cell := by
  have hmem : address ∈ cover (freeSpans cells + live.map pageSpan) := by
    rw [h.tiles, Multiset.mem_Ico]
    exact ⟨hlow, hhigh⟩
  obtain ⟨span, hspan, hmem⟩ := mem_cover.mp hmem
  rcases Multiset.mem_add.mp hspan with hfree | hlive
  · obtain ⟨cell, hcell, rfl⟩ := mem_map.mp hfree
    exact ⟨cell, hcell, mem_units.mp hmem⟩
  · obtain ⟨range, hrange, rfl⟩ := Multiset.mem_map.mp hlive
    exact absurd hmem (hunused range hrange)

theorem Apart.exists_cell_nPages_le (hapart : Apart cells) (h : Partition config state live cells)
    {vaddr : Nat} (hpages : 0 < nPages) (hfree : FreePages config live vaddr nPages) :
    ∃ cell ∈ cells, nPages ≤ cell.2.nPages := by
  have hlength : 0 < nPages * pagingBaseSize := Nat.mul_pos hpages (by decide)
  have hunused : ∀ address, vaddr ≤ address → address < vaddr + nPages * pagingBaseSize →
      ∃ cell ∈ cells, cell.2.baseAddr ≤ address ∧ address < endAddr cell := by
    intro address hlow hhigh
    have hbase := hfree.low
    have hend := hfree.high
    refine exists_cell h (by omega) (by omega) ?_
    intro range hrange hmem
    refine Multiset.disjoint_left.mp (hfree.unused range hrange) ?_ hmem
    exact mem_units.mpr ⟨hlow, hhigh⟩
  obtain ⟨cell, hcell, hbase, hend⟩ := hunused vaddr le_rfl (by omega)
  refine ⟨cell, hcell, ?_⟩
  rcases lt_or_ge (endAddr cell) (vaddr + nPages * pagingBaseSize) with hshort | hlong
  · -- The node that holds the next address starts at the end of this one.
    obtain ⟨other, hother, hbase', hend'⟩ := hunused (endAddr cell) (by omega) hshort
    have hne := hapart cell hcell other hother
    rcases precedes_cases h.ordered hcell hother with rfl | hle | hle
    · omega
    · omega
    · omega
  · simp only [endAddr] at hlong
    have hmul : nPages * pagingBaseSize ≤ cell.2.nPages * pagingBaseSize := by omega
    exact Nat.le_of_mul_le_mul_right hmul (by decide)

theorem Apart.served (hapart : Apart cells) (h : Partition config state live cells) :
    Served config ⟨state, live⟩ := by
  intro vaddr nPages hpages hfree
  obtain ⟨cell, hcell, hle⟩ := hapart.exists_cell_nPages_le h hpages hfree
  obtain ⟨answer, next, cells', hstep, -, htakes⟩ := step_getPages h nPages
  refine ⟨answer, next, hstep, ?_⟩
  cases htakes with
  | failed hsmall =>
    have hlt := hsmall cell hcell
    omega
  | taken front back hpages hne => exact hne

theorem mem_taken {front back : List (Ptr × SwampInfoNode)} {other : Ptr × SwampInfoNode}
    (h : Partition config state live (front ++ cell :: back))
    (hother : other ∈ front ++ remainder cell nPages ++ back) : other ∈ front ++ cell :: back ∨
      other.2.baseAddr = cell.2.baseAddr + nPages * pagingBaseSize ∧
        other.2.baseAddr < endAddr cell ∧ endAddr other = endAddr cell := by
  rw [mem_append, mem_append] at hother
  rcases hother with (hother | hother) | hother
  · exact .inl (by simp [hother])
  · rw [remainder] at hother
    split at hother
    · simp at hother
    rename_i hleft
    rw [mem_singleton.mp hother]
    have hbounds := h.free_bounds (by simp : cell ∈ front ++ cell :: back)
    have hlt : nPages * pagingBaseSize < cell.2.nPages * pagingBaseSize :=
      Nat.mul_lt_mul_of_pos_right (by omega) (by decide)
    have hmod : (cell.2.baseAddr + nPages * pagingBaseSize) % wordModulus =
        cell.2.baseAddr + nPages * pagingBaseSize := Nat.mod_eq_of_lt (by omega)
    right
    simp only [endAddr, hmod, Nat.sub_mul, true_and]
    omega
  · exact .inl (by simp [hother])

theorem Apart.takes {answer : Nat} (hapart : Apart cells) (h : Partition config state live cells)
    (htakes : Takes nPages answer cells cells') : Apart cells' := by
  cases htakes with
  | failed hsmall => exact hapart
  | @taken front back cell hpages hne =>
    have hmem : cell ∈ front ++ cell :: back := by simp
    intro first hfirst second hsecond
    rcases mem_taken h hfirst with hfirst | ⟨hbase, hlt, hend⟩
    · rcases mem_taken h hsecond with hsecond | ⟨hbase, hlt, -⟩
      · exact hapart first hfirst second hsecond
      · -- Only the node itself reaches past its start.
        have hne := hapart first hfirst cell hmem
        have hpos := baseAddr_lt_endAddr h hfirst
        rcases precedes_cases h.ordered hfirst hmem with rfl | hle | hle
        · omega
        · omega
        · omega
    · rw [hend]
      rcases mem_taken h hsecond with hsecond | ⟨hbase', hlt', -⟩
      · exact hapart cell hmem second hsecond
      · omega

theorem Apart.mono (hapart : Apart cells) (hsubset : cells' ⊆ cells) : Apart cells' :=
  fun first hfirst second hsecond => hapart first (hsubset hfirst) second (hsubset hsecond)

theorem apart_insert_iff {front back : List (Ptr × SwampInfoNode)} {new : Ptr × SwampInfoNode}
    (hne : endAddr new ≠ new.2.baseAddr)
    (hnext : ∀ other ∈ front ++ back, endAddr new ≠ other.2.baseAddr)
    (hapart : Apart (front ++ back)) :
    Apart (front ++ new :: back) ↔ ∀ other ∈ front ++ back, endAddr other ≠ new.2.baseAddr := by
  have hmem : ∀ other, other ∈ front ++ new :: back ↔ other = new ∨ other ∈ front ++ back := by
    intro other
    rw [mem_append, mem_cons, or_left_comm, mem_append]
  constructor
  · intro hapart' other hother
    exact hapart' other ((hmem other).mpr (.inr hother)) new ((hmem new).mpr (.inl rfl))
  · intro hprev first hfirst second hsecond
    rw [hmem] at hfirst hsecond
    rcases hfirst with rfl | hfirst
    · rcases hsecond with rfl | hsecond
      · exact hne
      · exact hnext second hsecond
    · rcases hsecond with rfl | hsecond
      · exact hprev first hfirst
      · exact hapart first hfirst second hsecond

theorem Apart.releases_iff {vaddr : Nat} {newNode : Ptr} (hapart : Apart cells)
    (h : Partition config state live cells) (hpages : 0 < nPages)
    (hreleases : Releases vaddr nPages newNode cells cells') :
    Apart cells' ↔ ((∃ cell ∈ cells, endAddr cell = vaddr) →
      ∃ cell ∈ cells, cell.2.baseAddr = vaddr + nPages * pagingBaseSize) := by
  have hlength : 0 < nPages * pagingBaseSize := Nat.mul_pos hpages (by decide)
  cases hreleases with
  | new front back hnext =>
    have hne : endAddr (newNode, ⟨vaddr, nPages⟩) ≠ vaddr := by
      simp only [endAddr]
      omega
    rw [apart_insert_iff hne hnext hapart]
    constructor
    · rintro hprev ⟨cell, hcell, hadjacent⟩
      exact absurd hadjacent (hprev cell hcell)
    · intro hjoins cell hcell hadjacent
      obtain ⟨other, hother, hbase⟩ := hjoins ⟨cell, hcell, hadjacent⟩
      exact hnext other hother hbase.symm
  | @join front back cell hnext hprev =>
    have hmem : cell ∈ front ++ cell :: back := by simp
    have hsubset : front ++ back ⊆ front ++ cell :: back := by
      intro other hother
      rcases mem_append.mp hother with hother | hother
      · simp [hother]
      · simp [hother]
    have hpos := baseAddr_lt_endAddr h hmem
    have hend : endAddr (cell.1, ⟨vaddr, cell.2.nPages + nPages⟩) = endAddr cell := by
      simp only [endAddr, add_mul]
      omega
    have hapart' : Apart (front ++ (cell.1, ⟨vaddr, cell.2.nPages + nPages⟩) :: back) := by
      refine (apart_insert_iff ?_ ?_ (hapart.mono hsubset)).mpr ?_
      · dsimp only
        omega
      · intro other hother
        rw [hend]
        exact hapart cell hmem other (hsubset hother)
      · intro other hother
        exact hprev other (hsubset hother)
    exact iff_of_true hapart' fun _ => ⟨cell, hmem, hnext.symm⟩
  | @joinBoth front back last cell hnext hprev =>
    have hmem : cell ∈ front ++ last :: cell :: back := by simp
    have hlast : last ∈ front ++ last :: cell :: back := by simp
    have hsubset : front ++ back ⊆ front ++ last :: cell :: back := by
      intro other hother
      rcases mem_append.mp hother with hother | hother
      · simp [hother]
      · simp [hother]
    have hend : endAddr (cell.1, ⟨last.2.baseAddr, cell.2.nPages + nPages + last.2.nPages⟩) =
        endAddr cell := by
      simp only [endAddr, add_mul] at hprev ⊢
      omega
    have hapart' : Apart (front ++ (cell.1, ⟨last.2.baseAddr,
        cell.2.nPages + nPages + last.2.nPages⟩) :: back) := by
      refine (apart_insert_iff ?_ ?_ (hapart.mono hsubset)).mpr ?_
      · rw [hend]
        exact hapart cell hmem last hlast
      · intro other hother
        rw [hend]
        exact hapart cell hmem other (hsubset hother)
      · intro other hother
        exact hapart other (hsubset hother) last hlast
    exact iff_of_true hapart' fun _ => ⟨cell, hmem, hnext.symm⟩

end

section

variable {config : SwampConfig}

theorem Merged.defragmented {state : SwampRun} (h : Merged config state) :
    Defragmented config state := by
  obtain ⟨cells, hpartition, hapart⟩ := h
  exact ⟨⟨cells, hpartition.describes, hapart⟩, hapart.served hpartition⟩

theorem not_served_of_exhausted {state : SwampState} {live : Multiset (Nat × Nat)}
    (h : Partition config state live []) {vaddr nPages : Nat} (hlive : (vaddr, nPages) ∈ live)
    (hpages : 0 < nPages) : ¬ Served config ⟨state, live.erase (vaddr, nPages)⟩ := by
  intro hserved
  have hfree : FreePages config (live.erase (vaddr, nPages)) vaddr nPages := by
    have hbounds := h.tiles.bounds
      (Multiset.mem_add.mpr (.inr (Multiset.mem_map_of_mem pageSpan hlive)))
      (pageSpan_length_pos hpages)
    refine ⟨h.live_aligned _ hlive, hbounds.1, hbounds.2, ?_⟩
    intro range hrange
    obtain ⟨rest, hrest⟩ := Multiset.exists_cons_of_mem hrange
    have hlive' : live = (vaddr, nPages) ::ₘ range ::ₘ rest := by
      rw [← hrest, Multiset.cons_erase hlive]
    exact h.live_disjoint hlive'
  obtain ⟨answer, next, hstep, hne⟩ := hserved vaddr nPages hpages hfree
  obtain ⟨⟨answer', swamp⟩, hget, heq⟩ := map_eq_some_iff.mp hstep
  obtain ⟨rfl, -⟩ := Prod.mk.inj heq
  have hhead : state.head = 0 := h.describes.head_eq
  rw [getPages, hhead] at hget
  cases hget
  exact hne rfl

theorem step_defragmented_iff (state : SwampRun) (call : Call) (h : Merged config state)
    (hlegal : ReleasesLive state call) :
    ∃ answer next, step config.initSwampNode state call = some (answer, next) ∧
      (Defragmented config next ↔ JoinsNeighbours state call) ∧
      (JoinsNeighbours state call → Merged config next) := by
  obtain ⟨state, live⟩ := state
  obtain ⟨cells, hpartition, hapart⟩ := h
  cases call with
  | getPages nPages =>
    obtain ⟨answer, next, cells', hstep, hnext, htakes⟩ := step_getPages hpartition nPages
    have hmerged : Merged config next := ⟨cells', hnext, hapart.takes hpartition htakes⟩
    exact ⟨answer, next, hstep, iff_of_true hmerged.defragmented trivial, fun _ => hmerged⟩
  | releasePages vaddr nPages newNode =>
    obtain ⟨hlive, hnull, hfresh⟩ := hlegal
    rcases eq_zero_or_pos nPages with rfl | hpages
    · obtain ⟨next, cells', hstep, hnext, hsame, -⟩ :=
        step_releasePages hpartition hlive hnull hfresh (.inl rfl)
      have hmerged : Merged config next := ⟨cells', hnext, hsame rfl ▸ hapart⟩
      exact ⟨0, next, hstep, iff_of_true hmerged.defragmented (.inl rfl), fun _ => hmerged⟩
    have hjoins : JoinsNeighbours ⟨state, live⟩ (.releasePages vaddr nPages newNode) ↔
        cells ≠ [] ∧ ((∃ cell ∈ cells, endAddr cell = vaddr) →
          ∃ cell ∈ cells, cell.2.baseAddr = vaddr + nPages * pagingBaseSize) := by
      constructor
      · rintro (hzero | ⟨cells', hdescribes, hcells'⟩)
        · omega
        · rwa [describes_unique hdescribes hpartition.describes] at hcells'
      · intro hcells
        exact .inr ⟨cells, hpartition.describes, hcells⟩
    rw [hjoins]
    rcases eq_or_ne cells [] with rfl | hcells
    · -- The list is empty: the pages are gone.
      refine ⟨0, ⟨state, live.erase (vaddr, nPages)⟩, ?_, ?_, ?_⟩
      · rw [step, releasePages_of_head_eq_zero _ _ hpartition.describes.head_eq]
        rfl
      · refine iff_of_false ?_ (by simp)
        intro hdefragmented
        exact not_served_of_exhausted hpartition hlive hpages hdefragmented.2
      · rintro ⟨hne, -⟩
        exact absurd rfl hne
    have hhead : state.head ≠ 0 := fun hzero =>
      hcells (hpartition.describes.head_eq_zero_iff.mp hzero)
    obtain ⟨next, cells', hstep, hnext, -, hreleases⟩ :=
      step_releasePages hpartition hlive hnull hfresh (.inr hhead)
    have hiff := hapart.releases_iff hpartition hpages (hreleases hpages)
    have hmerged : Apart cells' → Merged config next := fun hapart' =>
      ⟨cells', hnext, hapart'⟩
    refine ⟨0, next, hstep, ?_, fun hjoins => hmerged (hiff.mpr hjoins.2)⟩
    constructor
    · rintro ⟨⟨cells'', hdescribes, hapart'⟩, -⟩
      rw [describes_unique hdescribes hnext.describes] at hapart'
      exact ⟨hcells, hiff.mp hapart'⟩
    · intro hjoins
      exact (hmerged (hiff.mpr hjoins.2)).defragmented

theorem merged_initialState (config : SwampConfig) : Merged config ⟨initialState config, 0⟩ := by
  refine ⟨_, partition_initialState config, ?_⟩
  intro first hfirst second hsecond
  have hlength : 0 < config.nPages * pagingBaseSize := Nat.mul_pos config.nPages_pos (by decide)
  rw [mem_singleton.mp hfirst, mem_singleton.mp hsecond]
  simp only [endAddr]
  omega

/-- In exactly the runs in which every released range that follows a free node is followed
by one, and none is released into an empty list, the free nodes are never adjacent and a
request fails only for want of contiguous pages. -/
theorem throughout_defragmented_iff (config : SwampConfig) (calls : List Call)
    (hlegal : Guarded (step config.initSwampNode) ReleasesLive ⟨initialState config, 0⟩ calls) :
    Throughout (step config.initSwampNode) (Defragmented config) ⟨initialState config, 0⟩ calls ↔
      Guarded (step config.initSwampNode) JoinsNeighbours ⟨initialState config, 0⟩ calls :=
  throughout_iff_guarded (fun _ h => h.defragmented) step_defragmented_iff
    (merged_initialState config) hlegal

end

theorem throughout_defragmented_smallSwamp :
    Throughout (step 1) (Defragmented smallSwamp) ⟨initialState smallSwamp, 0⟩
      [.getPages 1, .getPages 1, .releasePages 0x101000 1 2, .releasePages 0x100000 1 2] := by
  refine (throughout_defragmented_iff smallSwamp _ ?_).mpr ?_
  · refine (guarded_cons rfl).mpr ⟨trivial, (guarded_cons rfl).mpr ⟨trivial, ?_⟩⟩
    refine (guarded_cons rfl).mpr ⟨⟨by decide +kernel, by decide, rfl⟩, ?_⟩
    exact (guarded_cons rfl).mpr ⟨⟨by decide +kernel, by decide, rfl⟩, trivial⟩
  · refine (guarded_cons rfl).mpr ⟨trivial, (guarded_cons rfl).mpr ⟨trivial, ?_⟩⟩
    refine (guarded_cons rfl).mpr ⟨.inr ⟨[(1, ⟨0x102000, 2⟩)], ?_, by simp, ?_⟩, ?_⟩
    · exact ⟨by simp, by simp, rfl, rfl, rfl, trivial⟩
    · exact fun _ => ⟨_, mem_singleton.mpr rfl, rfl⟩
    refine (guarded_cons rfl).mpr ⟨.inr ⟨[(1, ⟨0x101000, 3⟩)], ?_, by simp, ?_⟩, trivial⟩
    · exact ⟨by simp, by simp, rfl, rfl, rfl, trivial⟩
    · exact fun _ => ⟨_, mem_singleton.mpr rfl, rfl⟩

def upwardRelease : List Call :=
  [.getPages 1, .getPages 1, .getPages 1, .releasePages 0x100000 1 2, .releasePages 0x101000 1 3]

theorem upwardRelease_not_defragmented :
    ¬ ∀ calls, Guarded (step 1) ReleasesLive ⟨initialState smallSwamp, 0⟩ calls →
      Throughout (step 1) (Defragmented smallSwamp) ⟨initialState smallSwamp, 0⟩ calls := by
  intro hclaim
  have hguarded : Guarded (step 1) ReleasesLive ⟨initialState smallSwamp, 0⟩ upwardRelease := by
    refine (guarded_cons rfl).mpr ⟨trivial, (guarded_cons rfl).mpr ⟨trivial, ?_⟩⟩
    refine (guarded_cons rfl).mpr ⟨trivial, ?_⟩
    refine (guarded_cons rfl).mpr ⟨⟨by decide +kernel, by decide, rfl⟩, ?_⟩
    exact (guarded_cons rfl).mpr ⟨⟨by decide +kernel, by decide, rfl⟩, trivial⟩
  obtain ⟨answers, last, hrun, -, hserved⟩ := (hclaim _ hguarded).last
  have hlive : (run (step 1) ⟨initialState smallSwamp, 0⟩ upwardRelease).map
      (fun r => r.2.live) = some {(0x102000, 1)} := by
    decide +kernel
  have hfails : (run (step 1) ⟨initialState smallSwamp, 0⟩ upwardRelease).bind
      (fun r => (step 1 r.2 (.getPages 2)).map Prod.fst) = some 0 := by
    decide +kernel
  rw [hrun, map_some, some.injEq] at hlive
  have hfree : FreePages smallSwamp last.live 0x100000 2 := by
    rw [hlive]
    refine ⟨by decide, by decide, by decide, ?_⟩
    intro range hrange
    rw [Multiset.mem_singleton.mp hrange, Multiset.disjoint_left]
    intro address hlow hhigh
    rw [mem_units] at hlow hhigh
    simp only [pageSpan, pagingBaseSize] at hlow hhigh
    omega
  obtain ⟨answer, next, hstep, hne⟩ := hserved 0x100000 2 (by decide) hfree
  rw [hrun, bind_some, show step 1 last (.getPages 2) = some (answer,
    next) from hstep] at hfails
  exact hne (some.inj hfails)

end Zambesii.VSwampMerge
