import Zambesii.Calendar
import Zambesii.TimeTypes

/-!
The instants that timestamps stand for, in nanoseconds: the comparison operators order normalized
timestamps by them.
-/

namespace Zambesii.Instants

open Calendar TimeTypes

def nsPerSecond : Nat := 1000000000

def secondsPerDay : Nat := 86400

structure Dated (stamp : Timestamp) : Prop where
  seconds : stamp.time.seconds < secondsPerDay
  date : IsDate stamp.date.year stamp.date.month stamp.date.day

structure Normalized (stamp : Timestamp) : Prop extends Dated stamp where
  nseconds : stamp.time.nseconds < nsPerSecond

def day (stamp : Timestamp) : ℤ :=
  dayNumber stamp.date.year stamp.date.month stamp.date.day

def second (stamp : Timestamp) : ℤ := day stamp * secondsPerDay + stamp.time.seconds

def instant (stamp : Timestamp) : ℤ := second stamp * nsPerSecond + stamp.time.nseconds

section

variable {stamp other : Timestamp}

theorem date_lt_iff (h : Dated stamp) (h' : Dated other) :
    stamp.date.lt other.date ↔ day stamp < day other :=
  (dayNumber_lt_iff h.date h'.date).symm

theorem date_eq_iff (h : Dated stamp) (h' : Dated other) :
    stamp.date.eq other.date ↔ day stamp = day other := by
  constructor
  · rintro ⟨hyear, hmonth, hday⟩
    rw [day, day, hyear, hmonth, hday]
  · exact dayNumber_inj h.date h'.date

theorem lt_iff_second (h : Dated stamp) (h' : Dated other) :
    stamp < other ↔ second stamp < second other ∨
      (second stamp = second other ∧ stamp.time.nseconds < other.time.nseconds) := by
  have hseconds := h.seconds
  have hother := h'.seconds
  rw [Timestamp.lt_def, Date.le, date_lt_iff h h', date_eq_iff h h', Time.lt]
  unfold second
  unfold secondsPerDay at *
  omega

theorem lt_iff_instant (h : Normalized stamp) (h' : Normalized other) :
    stamp < other ↔ instant stamp < instant other := by
  have hns := h.nseconds
  have hother := h'.nseconds
  rw [lt_iff_second h.toDated h'.toDated]
  unfold instant
  unfold nsPerSecond at *
  omega

end

end Zambesii.Instants
