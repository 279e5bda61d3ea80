import Mathlib.Data.List.Nodup
import Mathlib.Data.List.Perm.Basic
import QpReferee.Adapter

/-!
# The report of a call

A call starts a stopwatch for each phase when the phase begins, and reports them by their keys.

* `Stopwatches.times_eq` : the times are any list of them with ascending keys.
* `Stopwatches.report_eq` : the report is a function of the times.
* `Laps.report` : a line for each phase, and one for the time that they took together.
* `Laps.report_watches` : what the stopwatches of a call report.
* `Laps.SameTimes` : calls whose phases took the same times report the same.
-/

namespace QpReferee

/-- The time from the beginning to the end of a phase. -/
def Span.duration (span : Span) : Duration := ⟨span.ended - span.began⟩

namespace Duration

instance : RightCommutative (α := Duration) (β := Duration) (· + ·) where
  right_comm a b c := by
    show Duration.mk (a.nanoseconds + b.nanoseconds + c.nanoseconds) =
      Duration.mk (a.nanoseconds + c.nanoseconds + b.nanoseconds)
    rw [Nat.add_right_comm]

theorem zero_add (d : Duration) : zero + d = d := by
  show Duration.mk (0 + d.nanoseconds) = d
  rw [Nat.zero_add]

theorem sum_perm {durations durations' : List Duration} (h : durations.Perm durations') :
    sum durations = sum durations' :=
  h.foldl_eq zero

end Duration

namespace Stopwatches

theorem pairwise_times (t : Stopwatches) : t.times.Pairwise fun a b => a.1 ≤ b.1 := by
  have htrans : ∀ a b c : String × Duration, decide (a.1 ≤ b.1) = true → decide (b.1 ≤ c.1) = true →
      decide (a.1 ≤ c.1) = true := by
    intro a b c
    simp only [decide_eq_true_eq]
    exact String.le_trans
  have htotal : ∀ a b : String × Duration, (decide (a.1 ≤ b.1) || decide (b.1 ≤ a.1)) = true := by
    intro a b
    simp only [Bool.or_eq_true, decide_eq_true_eq]
    exact String.le_total _ _
  exact (List.pairwise_mergeSort htrans htotal _).imp of_decide_eq_true

theorem perm_times (t : Stopwatches) : t.times.Perm (t.entries.map fun entry => (entry.1, entry.2.elapsed)) :=
  List.mergeSort_perm _ _

variable {t : Stopwatches} {times : List (String × Duration)}

/-- The times are any list of them with ascending keys. -/
theorem times_eq (hperm : times.Perm (t.entries.map fun (key, w) => (key, w.elapsed)))
    (hkeys : (times.map (·.1)).Pairwise (· < ·)) : t.times = times := by
  have hsame : t.times.Perm times := t.perm_times.trans hperm.symm
  have hdistinct : (times.map (·.1)).Nodup := hkeys.imp String.ne_of_lt
  have hascending : times.Pairwise fun a b => a.1 ≤ b.1 :=
    (List.pairwise_map.mp hkeys).imp String.lt_asymm
  refine List.Perm.eq_of_pairwise ?_ t.pairwise_times hascending hsame
  intro a b ha hb hab hba
  exact List.inj_on_of_nodup_map hdistinct (hsame.subset ha) hb (String.le_antisymm hab hba)

theorem total_eq (hperm : times.Perm (t.entries.map fun (key, w) => (key, w.elapsed))) :
    t.total = .sum (times.map (·.2)) := by
  have hdurations := hperm.map (·.2)
  rw [List.map_map] at hdurations
  exact Duration.sum_perm hdurations.symm

theorem report_eq (t : Stopwatches) : t.report =
    t.times.map (fun entry => line entry.1 entry.2) ++ [line "total" (.sum (t.times.map (·.2)))] := by
  rw [report, total_eq t.perm_times]

end Stopwatches

namespace Laps

variable (laps : Laps) (checked : Bool)

/-- The phases of a call with their times, by their keys; the check only if it was made. -/
def phases : List (String × Duration) :=
  [("revert", laps.revert.duration), ("solve", laps.solve.duration)] ++
    if checked then [("validate", laps.validate.duration)] else []

def report : List String :=
  (laps.phases checked).map (fun (key, d) => Stopwatches.line key d) ++
    [Stopwatches.line "total" (.sum ((laps.phases checked).map (·.2)))]

/-- The stopwatches at the end of a call. -/
def watches : Stopwatches :=
  let t := (Stopwatches.empty.lap "solve" laps.solve).lap "revert" laps.revert
  if checked then t.lap "validate" laps.validate else t

theorem entries_watches :
    ((laps.watches checked).entries.map fun (key, w) => (key, w.elapsed)) =
      [("solve", laps.solve.duration), ("revert", laps.revert.duration)] ++
        if checked then [("validate", laps.validate.duration)] else [] := by
  cases checked <;>
    simp [watches, Stopwatches.lap, Stopwatches.start, Stopwatches.stop, Stopwatches.ensure,
      Stopwatches.modify, Stopwatches.get?, Stopwatches.empty, Stopwatch.start, Stopwatch.stop,
      Stopwatch.idle, Span.duration, Duration.zero_add]

theorem report_watches : (laps.watches checked).report = laps.report checked := by
  have hperm : (laps.phases checked).Perm
      ((laps.watches checked).entries.map fun (key, w) => (key, w.elapsed)) := by
    rw [entries_watches]
    exact .swap _ _ _
  have hkeys : ((laps.phases checked).map (·.1)).Pairwise (· < ·) := by
    cases checked with
    | false =>
      show ["revert", "solve"].Pairwise (· < ·)
      decide
    | true =>
      show ["revert", "solve", "validate"].Pairwise (· < ·)
      decide
  rw [Stopwatches.report_eq, Stopwatches.times_eq hperm hkeys]
  rfl

/-- Each phase took the same time in two calls, whenever they were made. -/
structure SameTimes (laps laps' : Laps) : Prop where
  solve : laps'.solve.duration = laps.solve.duration
  revert : laps'.revert.duration = laps.revert.duration
  validate : laps'.validate.duration = laps.validate.duration

variable {laps} {laps' : Laps}

theorem SameTimes.report (h : laps.SameTimes laps') : laps'.report checked = laps.report checked := by
  have hphases : laps'.phases checked = laps.phases checked := by
    unfold phases
    rw [h.solve, h.revert, h.validate]
  unfold Laps.report
  rw [hphases]

end Laps

end QpReferee
