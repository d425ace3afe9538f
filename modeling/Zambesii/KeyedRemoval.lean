import Mathlib.Data.List.Nodup

/-!
Items removed from a list by a key that several of them may have.
-/

namespace Zambesii.KeyedRemoval

open List

variable {α β : Type*} {key : α → β} {chosen : α → Bool}

def hasKey [DecidableEq β] (key : α → β) (k : β) (item : α) : Bool :=
  decide (key item = k)

def removeKey [DecidableEq β] (key : α → β) (list : List α) (k : β) : List α :=
  list.eraseP (hasKey key k)

def removeKeys [DecidableEq β] (key : α → β) (list : List α) (keys : List β) : List α :=
  keys.foldl (removeKey key) list

def Leading (key : α → β) (chosen : α → Bool) (list : List α) : Prop :=
  list.Pairwise fun earlier item =>
    chosen item = true → key earlier = key item → chosen earlier = true

instance [DecidableEq β] (key : α → β) (chosen : α → Bool) (list : List α) :
    Decidable (Leading key chosen list) :=
  inferInstanceAs (Decidable (List.Pairwise _ _))

section

variable [DecidableEq β]

theorem removeKey_sublist (key : α → β) (list : List α) (k : β) :
    (removeKey key list k).Sublist list :=
  eraseP_sublist

theorem removeKeys_sublist (key : α → β) (list : List α) (keys : List β) :
    (removeKeys key list keys).Sublist list := by
  induction keys generalizing list with
  | nil => exact .refl list
  | cons k keys ih => exact (ih (removeKey key list k)).trans (removeKey_sublist key list k)

theorem removeKey_of_first {first second : List α} {item : α}
    (hnone : ∀ earlier ∈ first, key earlier ≠ key item) :
    removeKey key (first ++ item :: second) (key item) = first ++ second := by
  rw [removeKey, eraseP_append_right]
  · rw [eraseP_cons_of_pos (by simp [hasKey])]
  · intro earlier hin
    simpa [hasKey] using hnone earlier hin

theorem exists_removeKey_of_mem {first second : List α} {item earlier : α}
    (hin : earlier ∈ first) (hkey : key earlier = key item) :
    ∃ before removed after, first = before ++ removed :: after ∧ key removed = key item ∧
      removeKey key (first ++ item :: second) (key item) = before ++ after ++ item :: second := by
  have hearlier : hasKey key (key item) earlier = true := decide_eq_true hkey
  obtain ⟨removed, before, after, -, hremoved, rfl, herase⟩ := exists_of_eraseP hin hearlier
  refine ⟨before, removed, after, rfl, of_decide_eq_true hremoved, ?_⟩
  rw [removeKey, eraseP_append_left hearlier _ hin, herase]

theorem sublist_removeKey {list items : List α} {item : α} (h : (item :: items).Sublist list) :
    items.Sublist (removeKey key list (key item)) := by
  obtain ⟨before, after, rfl, hin, hitems⟩ := cons_sublist_iff.mp h
  have hitem : hasKey key (key item) item = true := decide_eq_true rfl
  rw [removeKey, eraseP_append_left hitem _ hin]
  exact hitems.trans (sublist_append_right ..)

end

theorem leading_append_cons_iff {first second : List α} {item : α} (hitem : chosen item = true)
    (hkey : ∀ earlier ∈ first, key earlier ≠ key item) :
    Leading key chosen (first ++ item :: second) ↔ Leading key chosen (first ++ second) := by
  unfold Leading
  rw [pairwise_append, pairwise_append, pairwise_cons]
  constructor
  · rintro ⟨hfirst, ⟨-, hsecond⟩, hacross⟩
    exact ⟨hfirst, hsecond, fun earlier hin later hlater =>
      hacross earlier hin later (mem_cons_of_mem item hlater)⟩
  · rintro ⟨hfirst, hsecond, hacross⟩
    refine ⟨hfirst, ⟨fun _ _ _ _ => hitem, hsecond⟩, ?_⟩
    intro earlier hin later hlater
    rcases mem_cons.mp hlater with rfl | hlater
    · exact fun _ hsame => absurd hsame (hkey earlier hin)
    · exact hacross earlier hin later hlater

theorem removeKeys_filter_iff [DecidableEq β] {list : List α} (hnodup : list.Nodup) :
    removeKeys key list ((list.filter chosen).map key) = list.filter (fun item => !chosen item) ↔
      Leading key chosen list := by
  induction hitems : list.filter chosen generalizing list with
  | nil =>
    have hnone : ∀ item ∈ list, ¬ chosen item = true := filter_eq_nil_iff.mp hitems
    refine iff_of_true ?_ ?_
    · change list = list.filter fun item => !chosen item
      exact (filter_eq_self.mpr (by simpa using hnone)).symm
    · exact pairwise_of_forall_mem_list fun _ _ item hin hchosen =>
        absurd hchosen (hnone item hin)
  | cons item items ih =>
    obtain ⟨first, second, rfl, hfirst, hitem, hrest⟩ := filter_eq_cons_iff.mp hitems
    have hfirst' : first.filter chosen = [] := filter_eq_nil_iff.mpr hfirst
    rcases em (∃ earlier ∈ first, key earlier = key item) with ⟨earlier, hin, hsame⟩ | hnone
    · refine iff_of_false ?_ ?_
      · obtain ⟨before, removed, after, rfl, -, hremove⟩ :=
          @exists_removeKey_of_mem _ _ _ _ first second item earlier hin hsame
        intro heq
        have hremoved : chosen removed = false := by simpa using hfirst removed (by simp)
        have hkept : removed ∈ ((before ++ removed :: after) ++ item :: second).filter
            fun item => !chosen item := by
          simp [hremoved]
        rw [← heq, map_cons, removeKeys, foldl_cons, hremove] at hkept
        have hleft : removed ∈ before ++ after ++ item :: second :=
          (removeKeys_sublist key _ (items.map key)).subset hkept
        have hgone : removed ∉ before ++ (after ++ item :: second) := by
          rw [append_assoc, cons_append] at hnodup
          exact (nodup_cons.mp (nodup_middle.mp hnodup)).1
        rw [append_assoc] at hleft
        exact hgone hleft
      · intro hleading
        have hchosen := (pairwise_append.mp hleading).2.2 earlier hin item (by simp) hitem
          hsame
        exact hfirst earlier hin hchosen
    · have hkey : ∀ earlier ∈ first, key earlier ≠ key item :=
        fun earlier hin hsame => hnone ⟨earlier, hin, hsame⟩
      have hnodup' : (first ++ second).Nodup := (nodup_middle.mp hnodup).of_cons
      have hitems' : (first ++ second).filter chosen = items := by
        rw [filter_append, hfirst', hrest, nil_append]
      rw [leading_append_cons_iff hitem hkey, ← ih hnodup' hitems', map_cons, removeKeys,
        foldl_cons, removeKey_of_first hkey, ← removeKeys]
      simp [hitem]

end Zambesii.KeyedRemoval
