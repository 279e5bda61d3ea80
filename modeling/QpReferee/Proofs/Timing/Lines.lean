import QpReferee.Proofs.Print.Transcript
import QpReferee.Proofs.Text.Order
import QpReferee.Proofs.Timing.Duration
import QpReferee.Proofs.Timing.Intervals

/-!
# The lines of the report

The report is a function of the times: it has a line for each key that was ever started, and the keys ascend, so it
does not tell in which order the stopwatches stand. It shows the times without loss, since the last blank of a line
parts the key from the time. Two reports are equal just if the same keys were started and have the same times.

* `Stopwatches.time?` : the time of a key that was started.
* `Stopwatches.line_injective` : a line determines its key and its time.
* `Stopwatches.report_eq_iff`, `Stopwatches.times_eq_iff` : equal reports, equal times.
* `Stopwatches.report_of_calls` : **the lines of the report after any calls.**
-/

namespace QpReferee.Stopwatches

/-! ## A line -/

/-- What stands before the last of some marks, and what stands behind it. -/
theorem split_at_last {α : Type} {mark : α} {front front' back back' : List α} (hback : mark ∉ back)
    (hback' : mark ∉ back') (h : front ++ mark :: back = front' ++ mark :: back') :
    front = front' ∧ back = back' := by
  rcases List.append_eq_append_iff.mp h with ⟨between, rfl, hrest⟩ | ⟨between, rfl, hrest⟩
  · cases between with
    | nil => exact ⟨(List.append_nil _).symm, (List.cons.inj hrest).2⟩
    | cons c between =>
      rw [(List.cons.inj hrest).2] at hback
      exact absurd (List.mem_append_right _ List.mem_cons_self) hback
  · cases between with
    | nil => exact ⟨List.append_nil _, (List.cons.inj hrest).2.symm⟩
    | cons c between =>
      rw [(List.cons.inj hrest).2] at hback'
      exact absurd (List.mem_append_right _ List.mem_cons_self) hback'

theorem toList_line (key : String) (d : Duration) :
    (line key d).toList = (key.toList ++ [' ', ':']) ++ ' ' :: (d.text.toList ++ ['\n']) := by
  simp [line]

theorem blank_notMem_ending (d : Duration) : ' ' ∉ d.text.toList ++ ['\n'] := by
  rw [List.mem_append, not_or]
  exact ⟨d.blank_notMem_text, by decide⟩

theorem line_injective : Function.Injective fun entry : String × Duration => line entry.1 entry.2 := by
  intro entry entry' h
  have hlines := congrArg String.toList h
  simp only [toList_line] at hlines
  obtain ⟨hkey, htime⟩ := split_at_last (blank_notMem_ending _) (blank_notMem_ending _) hlines
  have htext := String.toList_inj.mp (List.append_cancel_right htime)
  have hread := entry.2.ofText?_text
  rw [htext, Duration.ofText?_text] at hread
  exact Prod.ext (String.toList_inj.mp (List.append_cancel_right hkey)) (Option.some.inj hread.symm)

/-! ## The times -/

/-- The time of a key that was started; there is none for another key. -/
def time? (t : Stopwatches) (key : String) : Option Duration := (t.get? key).map (·.elapsed)

variable {t t' : Stopwatches} {key : String} {time : Duration}

theorem keys_times (t : Stopwatches) : (t.times.map (·.1)).Perm t.keys := by
  have hkeys := t.perm_times.map (·.1)
  rw [List.map_map] at hkeys
  exact hkeys

theorem elapsed_of_time? (h : t.time? key = some time) : t.elapsed key = time := by
  obtain ⟨w, hw, rfl⟩ := Option.map_eq_some_iff.mp h
  rw [elapsed, hw]

section

variable (hkeys : t.keys.Nodup) (hkeys' : t'.keys.Nodup)

include hkeys

theorem ascending_times : (t.times.map (·.1)).Pairwise (· < ·) := by
  have hle : (t.times.map (·.1)).Pairwise (· ≤ ·) := List.pairwise_map.mpr t.pairwise_times
  refine List.Pairwise.imp ?_ (hle.and (t.keys_times.nodup_iff.mpr hkeys))
  rintro key other ⟨hkey, hne⟩
  by_contra hlt
  exact hne (String.le_antisymm hkey (String.not_lt.mp hlt))

theorem mem_times_iff : (key, time) ∈ t.times ↔ t.time? key = some time := by
  rw [t.perm_times.mem_iff, List.mem_map, time?, Option.map_eq_some_iff]
  constructor
  · rintro ⟨entry, hentry, heq⟩
    obtain ⟨rfl, rfl⟩ := Prod.mk.inj heq
    exact ⟨entry.2, get?_of_mem hkeys hentry, rfl⟩
  · rintro ⟨w, hw, rfl⟩
    obtain ⟨before, behind, hsplit, -⟩ := List.lookup_eq_some_iff.mp hw
    exact ⟨(key, w), hsplit ▸ List.mem_append_right _ List.mem_cons_self, rfl⟩

theorem times_eq_map : t.times = (t.times.map (·.1)).map fun key => (key, t.elapsed key) := by
  rw [List.map_map]
  refine (List.map_id _).symm.trans (List.map_congr_left fun entry hentry => ?_)
  have htime := elapsed_of_time? ((mem_times_iff hkeys).mp hentry)
  exact Prod.ext rfl htime.symm

include hkeys'

theorem times_eq_iff : t'.times = t.times ↔ ∀ key, t'.time? key = t.time? key := by
  constructor
  · intro h key
    refine Option.ext fun time => ?_
    rw [← mem_times_iff hkeys', ← mem_times_iff hkeys, h]
  · intro h
    have hnodup : t.times.Nodup := (ascending_times hkeys).nodup.of_map
    have hnodup' : t'.times.Nodup := (ascending_times hkeys').nodup.of_map
    have hperm : t.times.Perm t'.times := (List.perm_ext_iff_of_nodup hnodup hnodup').mpr fun entry => by
      rw [mem_times_iff hkeys, mem_times_iff hkeys', h]
    exact times_eq (hperm.trans t'.perm_times) (ascending_times hkeys)

end

/-! ## The report -/

/-- The report shows all times. -/
theorem report_eq_iff : t'.report = t.report ↔ t'.times = t.times := by
  rw [report_eq, report_eq]
  constructor
  · intro h
    exact (List.map_injective_iff.mpr line_injective) (List.append_inj_left' h rfl)
  · intro h
    rw [h]

theorem report_perm (hkeys : t.keys.Nodup) {order : List (String × Stopwatch)} (h : order.Perm t.entries) :
    (Stopwatches.mk order).report = t.report :=
  report_eq_iff.mpr (times_eq (t.perm_times.trans (h.map _).symm) (ascending_times hkeys))

theorem exists_report (hkeys : t.keys.Nodup) : ∃ listed : List String, listed.Pairwise (· < ·) ∧
    (∀ key, key ∈ listed ↔ key ∈ t.keys) ∧
    t.report = listed.map (fun key => line key (t.elapsed key)) ++ [line "total" (.sum (listed.map t.elapsed))] := by
  refine ⟨t.times.map (·.1), ascending_times hkeys, fun key => t.keys_times.mem_iff, ?_⟩
  have htimes := times_eq_map hkeys
  generalize t.times.map (·.1) = listed at htimes
  rw [report_eq, htimes, List.map_map, List.map_map]
  rfl

/-! ## After some calls -/

def ofCalls (calls : List Call) : Stopwatches := Session.after step .empty calls

theorem ofCalls_append (calls later : List Call) :
    ofCalls (calls ++ later) = Session.after step (ofCalls calls) later := Session.after_append _ _ _ _

theorem Accounts.ofCalls (calls : List Call) : Accounts calls (ofCalls calls) := .after calls

section

variable {calls : List Call} (hunknown : ∀ now, .start key now ∉ calls)

include hunknown

theorem get?_of_unknown : (ofCalls calls).get? key = none := by
  rw [get?_eq_none_iff, (Accounts.ofCalls calls).started]
  exact fun ⟨now, hstart⟩ => hunknown now hstart

theorem ofCalls_stop_unknown (now : Instant) (later : List Call) :
    ofCalls (calls ++ .stop key now :: later) = ofCalls (calls ++ later) := by
  have hidle : ((ofCalls calls).watch key).began = none := by
    rw [watch, get?_of_unknown hunknown]
    rfl
  have hstop : (ofCalls calls).stop key now = ofCalls calls := stop_of_idle (Accounts.ofCalls calls).nodup hidle
  rw [ofCalls_append, ofCalls_append]
  exact congrArg (Session.after step · later) hstop

theorem elapsed_of_unknown : (ofCalls calls).elapsed key = .zero := by
  rw [elapsed, get?_of_unknown hunknown]

end

/-- **The lines of the report after any calls.** There is one line for each key that was ever started, with its time,
and the keys ascend, by their characters and by their bytes; the last line has the sum of the times. A target that
refuses nothing gets the text at its end. The report is the same in whatever order the stopwatches stand, and after
other calls just if the same keys were started and have the same times. What is asked of a key that was never
started, or a stop of it, may be left out of the calls. -/
theorem report_of_calls (calls : List Call) :
    (∃ listed : List String, listed.Pairwise (· < ·) ∧
      (listed.map fun key => (Utf8.encode key).toList).Pairwise (· < ·) ∧
      (∀ key, key ∈ listed ↔ ∃ now, .start key now ∈ calls) ∧
      (ofCalls calls).report = listed.map (fun key => line key ((ofCalls calls).elapsed key)) ++
        [line "total" (.sum (listed.map (ofCalls calls).elapsed))]) ∧
    (∀ target : Target, target.Keeps → (target.writeLines (ofCalls calls).report).stored =
      target.stored ++ Utf8.encode (String.join (ofCalls calls).report)) ∧
    (∀ order : List (String × Stopwatch), order.Perm (ofCalls calls).entries →
      (Stopwatches.mk order).report = (ofCalls calls).report) ∧
    (∀ calls' : List Call, (ofCalls calls').report = (ofCalls calls).report ↔
      ∀ key, (ofCalls calls').time? key = (ofCalls calls).time? key) ∧
    ∀ key, (∀ now, .start key now ∉ calls) → (ofCalls calls).elapsed key = .zero ∧
      ∀ later, (∀ now, ofCalls (calls ++ .stop key now :: later) = ofCalls (calls ++ later)) ∧
        ofCalls (calls ++ .elapsed key :: later) = ofCalls (calls ++ later) := by
  have haccounts := Accounts.ofCalls calls
  refine ⟨?_, fun target hkeeps => ?_, fun order horder => report_perm haccounts.nodup horder, fun calls' => ?_,
    fun key hunknown => ⟨elapsed_of_unknown hunknown, fun later => ⟨fun now => ?_, ?_⟩⟩⟩
  · obtain ⟨listed, hascending, hmem, hreport⟩ := exists_report haccounts.nodup
    have hbytes := List.pairwise_map.mpr (hascending.imp Utf8.encode_lt_encode)
    exact ⟨listed, hascending, hbytes, fun key => (hmem key).trans (haccounts.started key), hreport⟩
  · exact (Target.keeps_receive hkeeps ⟨[], (ofCalls calls).report⟩).2
  · exact report_eq_iff.trans (times_eq_iff haccounts.nodup (Accounts.ofCalls calls').nodup)
  · exact ofCalls_stop_unknown hunknown now later
  · rw [ofCalls_append, ofCalls_append]
    rfl

/-- Two stopwatches that run at once, and a third that is stopped and asked for but never started. -/
def overlapping : List Call :=
  [.start "solve" 10, .stop "check" 12, .start "revert" 20, .stop "revert" 1500020, .stop "solve" 1500030,
    .elapsed "check"]

theorem overlapping_report :
    (Stopwatches.mk (ofCalls overlapping).entries.reverse).report =
      ["revert : 1.5ms\n", "solve : 1.50002ms\n", "total : 3.00002ms\n"] ∧
    ((Target.buffer #[]).writeLines (ofCalls overlapping).report).stored =
      Utf8.encode "revert : 1.5ms\nsolve : 1.50002ms\ntotal : 3.00002ms\n" ∧
    (ofCalls (.start "revert" 5 :: overlapping)).report = (ofCalls overlapping).report ∧
    ofCalls (overlapping ++ [.stop "check" 40, .start "check" 50]) = ofCalls (overlapping ++ [.start "check" 50]) := by
  obtain ⟨-, hwritten, horder, hsame, hunknown⟩ := report_of_calls overlapping
  have hlisted : (ofCalls overlapping).times = [("revert", ⟨1500000⟩), ("solve", ⟨1500020⟩)] :=
    times_eq (.swap _ _ []) (by decide)
  have hrestarted : (ofCalls (.start "revert" 5 :: overlapping)).times =
      [("revert", ⟨1500000⟩), ("solve", ⟨1500020⟩)] := times_eq (.refl _) (by decide)
  have htimes := (times_eq_iff (Accounts.ofCalls overlapping).nodup (Accounts.ofCalls _).nodup).mp
    (hrestarted.trans hlisted.symm)
  have hreport : (ofCalls overlapping).report =
      ["revert : 1.5ms\n", "solve : 1.50002ms\n", "total : 3.00002ms\n"] := by
    rw [report_eq, hlisted]
    decide +kernel
  have htext : String.join (ofCalls overlapping).report =
      "revert : 1.5ms\nsolve : 1.50002ms\ntotal : 3.00002ms\n" := by
    rw [hreport]
    decide +kernel
  refine ⟨(horder _ (List.reverse_perm _)).trans hreport, ?_, (hsame _).mpr htimes, ?_⟩
  · rw [hwritten (.buffer #[]) trivial, htext]
    rfl
  · have hcheck : ∀ now, .start "check" now ∉ overlapping := by simp [overlapping]
    exact ((hunknown "check" hcheck).2 [.start "check" 50]).1 40

end QpReferee.Stopwatches
