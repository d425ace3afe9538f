import Mathlib.Data.Prod.Lex
import Mathlib.Order.Nat
import Mathlib.Algebra.Order.Ring.Int

/-!
Dates, times of day and timestamps, with the comparison operators of
`timeTypes.h`. The day of the week is stored but never compared.
-/

namespace Zambesii.TimeTypes

structure Date where
  year : Int
  month : Nat
  day : Nat
  weekDay : Nat
deriving DecidableEq

structure Time where
  seconds : Nat
  nseconds : Nat
deriving DecidableEq

structure Timestamp where
  date : Date
  time : Time
deriving DecidableEq

namespace Date

def eq (d e : Date) : Prop :=
  d.year = e.year ∧ d.month = e.month ∧ d.day = e.day

/-- `operator <`; `operator >` is the same test with the operands exchanged. -/
def lt (d e : Date) : Prop :=
  d.year < e.year ∨ (d.year = e.year ∧ d.month < e.month) ∨
    (d.year = e.year ∧ d.month = e.month ∧ d.day < e.day)

def le (d e : Date) : Prop :=
  d.eq e ∨ d.lt e

def key (d : Date) : ℤ ×ₗ ℕ ×ₗ ℕ :=
  toLex (d.year, toLex (d.month, d.day))

theorem eq_iff_key (d e : Date) : d.eq e ↔ d.key = e.key := by
  simp [eq, key]

theorem lt_iff_key (d e : Date) : d.lt e ↔ d.key < e.key := by
  simp only [lt, key, Prod.Lex.toLex_lt_toLex]
  constructor
  · rintro (h | ⟨h, h'⟩ | ⟨h, h', h''⟩)
    · exact .inl h
    · exact .inr ⟨h, .inl h'⟩
    · exact .inr ⟨h, .inr ⟨h', h''⟩⟩
  · rintro (h | ⟨h, h' | ⟨h', h''⟩⟩)
    · exact .inl h
    · exact .inr (.inl ⟨h, h'⟩)
    · exact .inr (.inr ⟨h, h', h''⟩)

end Date

namespace Time

def eq (t u : Time) : Prop :=
  t.seconds = u.seconds ∧ t.nseconds = u.nseconds

def lt (t u : Time) : Prop :=
  t.seconds < u.seconds ∨ (t.nseconds < u.nseconds ∧ t.seconds ≤ u.seconds)

def key (t : Time) : ℕ ×ₗ ℕ :=
  toLex (t.seconds, t.nseconds)

theorem eq_iff_key (t u : Time) : t.eq u ↔ t.key = u.key := by
  simp [eq, key]

theorem lt_iff_key (t u : Time) : t.lt u ↔ t.key < u.key := by
  simp only [lt, key, Prod.Lex.toLex_lt_toLex]
  omega

end Time

namespace Timestamp

def eq (t u : Timestamp) : Prop :=
  t.date.eq u.date ∧ t.time.eq u.time

instance : LT Timestamp where
  lt t u := t.date.lt u.date ∨ (t.time.lt u.time ∧ t.date.le u.date)

instance : LE Timestamp where
  le t u := t.eq u ∨ t < u

theorem lt_def (t u : Timestamp) :
    t < u ↔ t.date.lt u.date ∨ (t.time.lt u.time ∧ t.date.le u.date) :=
  Iff.rfl

theorem le_def (t u : Timestamp) : t ≤ u ↔ t.eq u ∨ t < u :=
  Iff.rfl

instance (t u : Timestamp) : Decidable (t < u) :=
  inferInstanceAs (Decidable ((_ < _ ∨ (_ = _ ∧ _ < _) ∨ (_ = _ ∧ _ = _ ∧ _ < _)) ∨
    ((_ < _ ∨ (_ < _ ∧ _ ≤ _)) ∧
      ((_ = _ ∧ _ = _ ∧ _ = _) ∨ (_ < _ ∨ (_ = _ ∧ _ < _) ∨ (_ = _ ∧ _ = _ ∧ _ < _))))))

instance (t u : Timestamp) : Decidable (t ≤ u) :=
  inferInstanceAs (Decidable (((_ = _ ∧ _ = _ ∧ _ = _) ∧ (_ = _ ∧ _ = _)) ∨ t < u))

def key (t : Timestamp) : (ℤ ×ₗ ℕ ×ₗ ℕ) ×ₗ ℕ ×ₗ ℕ :=
  toLex (t.date.key, t.time.key)

theorem lt_iff_key (t u : Timestamp) : t < u ↔ t.key < u.key := by
  rw [lt_def, Date.le, Date.lt_iff_key, Date.eq_iff_key, Time.lt_iff_key, key, key,
    Prod.Lex.toLex_lt_toLex]
  constructor
  · rintro (h | ⟨h, h' | h'⟩)
    · exact .inl h
    · exact .inr ⟨h', h⟩
    · exact .inl h'
  · rintro (h | ⟨h, h'⟩)
    · exact .inl h
    · exact .inr ⟨h', .inl h⟩

theorem le_iff_key (t u : Timestamp) : t ≤ u ↔ t.key ≤ u.key := by
  have heq : t.eq u ↔ t.key = u.key := by simp [eq, Date.eq_iff_key, Time.eq_iff_key, key]
  rw [le_def, lt_iff_key, heq, le_iff_eq_or_lt]

instance : Preorder Timestamp where
  le_refl t := (le_iff_key t t).mpr le_rfl
  le_trans t u v htu huv := by
    rw [le_iff_key] at *
    exact htu.trans huv
  lt_iff_le_not_ge t u := by
    rw [lt_iff_key, le_iff_key, le_iff_key]
    exact lt_iff_le_not_ge

instance : Std.Total (α := Timestamp) (· ≤ ·) where
  total t u := by
    rw [le_iff_key, le_iff_key]
    exact le_total t.key u.key

end Timestamp

end Zambesii.TimeTypes
