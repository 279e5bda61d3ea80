import Mathlib.Algebra.BigOperators.Ring.Finset
import Mathlib.Data.List.Nodup
import QpReferee.Proofs.Session
import QpReferee.Proofs.Timing.Report

/-!
# The intervals that stopwatches add up

A stopwatch adds up the intervals between a start and the next stop of its key: a stop closes an interval if
the latest call that started or stopped its key was a start, and a start that follows another one moves the
beginning. The intervals are read off the calls alone, without the stopwatches.

* `Stopwatches.Call`, `Stopwatches.step` : what can be asked of stopwatches.
* `Stopwatches.runningSince`, `Stopwatches.intervals` : what the calls say of a key.
* `Stopwatches.Accounts` : stopwatches that agree with some calls; `Accounts.step` keeps it.
* `Stopwatches.elapsed_intervals` : **the times are those of the closed intervals, and the total is their sum.**
-/

namespace QpReferee

theorem Duration.sum_concat (durations : List Duration) (d : Duration) :
    sum (durations ++ [d]) = sum durations + d := List.foldl_append

theorem Duration.nanoseconds_sum (durations : List Duration) :
    (sum durations).nanoseconds = (durations.map Duration.nanoseconds).sum := by
  induction durations using List.reverseRecOn with
  | nil => rfl
  | append_singleton durations d ih =>
    rw [sum_concat, List.map_append, List.sum_append, ← ih, List.map_singleton, List.sum_singleton]
    rfl

namespace Stopwatches

/-! ## One stopwatch among others -/

/-- The stopwatch of a key, which is idle if it was never started. -/
def watch (t : Stopwatches) (key : String) : Stopwatch := (t.get? key).getD .idle

def keys (t : Stopwatches) : List String := t.entries.map (·.1)

variable {t : Stopwatches} {key other : String} {now : Instant}

theorem lookup_cons_eq (entry : String × Stopwatch) (entries : List (String × Stopwatch)) :
    (entry :: entries).lookup key = if key = entry.1 then some entry.2 else entries.lookup key := by
  rw [List.lookup_cons]
  by_cases h : key = entry.1
  · rw [if_pos h, beq_iff_eq.mpr h]
  · rw [if_neg h, beq_eq_false_iff_ne.mpr h]

theorem elapsed_eq : t.elapsed key = (t.watch key).elapsed := by
  unfold elapsed watch
  cases t.get? key <;> rfl

theorem get?_eq_none_iff : t.get? key = none ↔ key ∉ t.keys := by
  unfold get? keys
  rw [List.lookup_eq_none_iff, List.mem_map, not_exists]
  refine forall_congr' fun entry => ?_
  rw [not_and, bne_iff_ne, ne_comm]

theorem keys_modify (f : Stopwatch → Stopwatch) : (t.modify key f).keys = t.keys := by
  unfold modify keys
  rw [List.map_map]
  refine List.map_congr_left fun entry _ => ?_
  dsimp only [Function.comp_apply]
  split_ifs <;> rfl

theorem get?_modify (f : Stopwatch → Stopwatch) :
    (t.modify key f).get? other = if other = key then (t.get? other).map f else t.get? other := by
  unfold modify get?
  dsimp only
  induction t.entries with
  | nil => simp
  | cons entry entries ih =>
    rw [List.map_cons, lookup_cons_eq, apply_ite Prod.fst, apply_ite Prod.snd, ite_self, lookup_cons_eq, ih]
    by_cases hfirst : other = entry.1
    · by_cases hkey : other = key <;> simp_all
    · simp [hfirst]

theorem keys_ensure : (t.ensure key).keys = if key ∈ t.keys then t.keys else t.keys ++ [key] := by
  unfold ensure
  by_cases h : key ∈ t.keys
  · have hsome : (t.get? key).isSome = true := by
      rw [Option.isSome_iff_ne_none, Ne, get?_eq_none_iff]
      exact not_not.mpr h
    rw [if_pos hsome, if_pos h]
  · have hnone : ¬(t.get? key).isSome = true := by
      rw [get?_eq_none_iff.mpr h]
      exact Bool.false_ne_true
    rw [if_neg hnone, if_neg h]
    exact List.map_append

theorem get?_ensure : (t.ensure key).get? other = if other = key then some (t.watch key) else t.get? other := by
  unfold ensure watch
  cases h : t.get? key with
  | some w =>
    rw [Option.isSome_some, if_pos rfl]
    by_cases hother : other = key
    · rw [if_pos hother, hother, h, Option.getD_some]
    · rw [if_neg hother]
  | none =>
    rw [Option.isSome_none, if_neg Bool.false_ne_true]
    unfold get? at h ⊢
    rw [List.lookup_append, lookup_cons_eq]
    by_cases hother : other = key
    · rw [hother, h, if_pos rfl, if_pos rfl]
      rfl
    · rw [if_neg hother, if_neg hother, List.lookup_nil, Option.or_none]

@[simp] theorem keys_start : (t.start key now).keys = if key ∈ t.keys then t.keys else t.keys ++ [key] := by
  rw [start, keys_modify, keys_ensure]

@[simp] theorem keys_stop : (t.stop key now).keys = t.keys := keys_modify _

theorem watch_start : (t.start key now).watch other =
    if other = key then (t.watch key).start now else t.watch other := by
  unfold start watch
  rw [get?_modify, get?_ensure]
  by_cases h : other = key
  · rw [if_pos h, if_pos h, if_pos h]
    rfl
  · rw [if_neg h, if_neg h, if_neg h]

theorem watch_stop : (t.stop key now).watch other =
    if other = key then (t.watch key).stop now else t.watch other := by
  unfold stop watch
  rw [get?_modify]
  by_cases h : other = key
  · rw [if_pos h, if_pos h, h]
    cases t.get? key <;> rfl
  · rw [if_neg h, if_neg h]

theorem get?_of_mem (hkeys : t.keys.Nodup) {entry : String × Stopwatch} (h : entry ∈ t.entries) :
    t.get? entry.1 = some entry.2 := by
  obtain ⟨before, behind, hsplit⟩ := List.append_of_mem h
  refine List.lookup_eq_some_iff.mpr ⟨before, behind, hsplit, fun other hother => ?_⟩
  rw [keys, hsplit, List.map_append, List.map_cons, List.nodup_append] at hkeys
  exact bne_iff_ne.mpr (hkeys.2.2 _ (List.mem_map_of_mem hother) _ List.mem_cons_self).symm

theorem watch_of_mem (hkeys : t.keys.Nodup) {entry : String × Stopwatch} (h : entry ∈ t.entries) :
    t.watch entry.1 = entry.2 := by
  rw [watch, get?_of_mem hkeys h, Option.getD_some]

theorem total_eq_sum (hkeys : t.keys.Nodup) {listed : List String} (h : listed.Perm t.keys) :
    t.total = .sum (listed.map t.elapsed) := by
  have htimes : t.entries.map (·.2.elapsed) = t.keys.map t.elapsed := by
    rw [keys, List.map_map]
    refine List.map_congr_left fun entry hentry => ?_
    rw [Function.comp_apply, elapsed_eq, watch_of_mem hkeys hentry]
  rw [total, htimes]
  exact Duration.sum_perm (h.map t.elapsed).symm

theorem stop_of_idle (hkeys : t.keys.Nodup) (h : (t.watch key).began = none) : t.stop key now = t := by
  have hentry : ∀ entry ∈ t.entries,
      (if entry.1 = key then (entry.1, entry.2.stop now) else (entry.1, entry.2)) = id entry := by
    intro entry hmem
    by_cases hkey : entry.1 = key
    · have hidle : entry.2.began = none := by
        rw [← watch_of_mem hkeys hmem, hkey]
        exact h
      rw [if_pos hkey, Stopwatch.stop, hidle]
      rfl
    · rw [if_neg hkey]
      rfl
  exact congrArg Stopwatches.mk ((List.map_congr_left hentry).trans (List.map_id _))

/-! ## What the calls say of a key -/

/-- What can be asked of stopwatches. -/
inductive Call where
  | start (key : String) (now : Instant)
  | stop (key : String) (now : Instant)
  | elapsed (key : String)
  | total

/-- What a call replies. -/
inductive Reply where
  | done
  | time (time : Duration)

def step (t : Stopwatches) : Call → Stopwatches × Reply
  | .start key now => (t.start key now, .done)
  | .stop key now => (t.stop key now, .done)
  | .elapsed key => (t, .time (t.elapsed key))
  | .total => (t, .time t.total)

namespace Call

def key? : Call → Option String
  | .start key _ | .stop key _ | .elapsed key => some key
  | .total => none

/-- The reading of the clock that a call takes. -/
def instant? : Call → Option Instant
  | .start _ now | .stop _ now => some now
  | .elapsed _ | .total => none

/-- What a call leaves running for a key: an interval from its instant on, nothing, or what was running. -/
def leaves (key : String) : Call → Option (Option Instant)
  | .start k now => if k = key then some (some now) else none
  | .stop k _ => if k = key then some none else none
  | .elapsed _ | .total => none

end Call

def Ascending (calls : List Call) : Prop := (calls.filterMap Call.instant?).Pairwise (· ≤ ·)

/-- When the running interval of a key began: at the latest start, if no stop came after it. -/
def runningSince (key : String) (calls : List Call) : Option Instant := (latest (Call.leaves key) calls).join

/-- The interval of a key that a call closes after others: from the latest start to a stop that finds the key
running. -/
def closed (key : String) (calls : List Call) : Call → Option Span
  | .stop k now => if k = key then (runningSince key calls).map (⟨·, now⟩) else none
  | .start _ _ | .elapsed _ | .total => none

/-- The intervals of a key that some calls close, each after those before it. -/
def intervals (key : String) (calls : List Call) : List Span :=
  (List.range calls.length).filterMap fun i => calls[i]?.bind (closed key (calls.take i))

theorem runningSince_concat (calls : List Call) (call : Call) :
    runningSince key (calls ++ [call]) = ((call.leaves key).or (latest (Call.leaves key) calls)).join := by
  rw [runningSince, latest_concat]

theorem intervals_concat (calls : List Call) (call : Call) :
    intervals key (calls ++ [call]) = intervals key calls ++ (closed key calls call).toList := by
  unfold intervals
  rw [List.length_append, List.length_singleton, List.range_succ, List.filterMap_append]
  congr 1
  · refine List.filterMap_congr fun i hi => ?_
    have hlt := List.mem_range.mp hi
    rw [List.getElem?_append_left hlt, List.take_append_of_le_length (Nat.le_of_lt hlt)]
  · rw [List.filterMap_cons, List.filterMap_nil, List.getElem?_concat_length, Option.bind_some, List.take_left]
    cases closed key calls call <;> rfl

/-! ## Stopwatches that agree with the calls -/

/-- Each key that was started has one stopwatch, which runs since the latest start that was not stopped and
shows the time of the closed intervals. -/
structure Accounts (calls : List Call) (t : Stopwatches) : Prop where
  nodup : t.keys.Nodup
  started : ∀ key, key ∈ t.keys ↔ ∃ now, .start key now ∈ calls
  watch : ∀ key, t.watch key =
    ⟨runningSince key calls, .sum ((intervals key calls).map Span.duration)⟩

namespace Accounts

variable {calls : List Call}

theorem empty : Accounts [] .empty := ⟨.nil, by simp [keys, Stopwatches.empty], fun _ => rfl⟩

theorem start (h : Accounts calls t) (key : String) (now : Instant) :
    Accounts (calls ++ [.start key now]) (t.start key now) where
  nodup := by
    rw [keys_start]
    split_ifs with hmem
    · exact h.nodup
    · exact List.nodup_append_comm.mp (List.nodup_cons.mpr ⟨hmem, h.nodup⟩)
  started other := by
    have hkeys : other ∈ (t.start key now).keys ↔ other ∈ t.keys ∨ other = key := by
      rw [keys_start]
      split_ifs with hmem
      · exact ⟨.inl, fun hother => hother.elim id fun heq => heq ▸ hmem⟩
      · rw [List.mem_append, List.mem_singleton]
    rw [hkeys, h.started]
    simp only [List.mem_append, List.mem_singleton, Call.start.injEq, exists_or, exists_and_left, exists_eq,
      and_true]
  watch other := by
    rw [watch_start, h.watch, h.watch, runningSince_concat, intervals_concat]
    by_cases hother : other = key
    · subst hother
      rw [if_pos rfl, Call.leaves, if_pos rfl, closed, Option.toList_none, List.append_nil]
      rfl
    · rw [if_neg hother, Call.leaves, if_neg (Ne.symm hother), closed, Option.toList_none, List.append_nil]
      rfl

theorem stop (h : Accounts calls t) (key : String) (now : Instant) :
    Accounts (calls ++ [.stop key now]) (t.stop key now) where
  nodup := by
    rw [keys_stop]
    exact h.nodup
  started other := by
    rw [keys_stop, h.started]
    simp
  watch other := by
    rw [watch_stop, h.watch, h.watch, runningSince_concat, intervals_concat]
    by_cases hother : other = key
    · subst hother
      rw [if_pos rfl, Call.leaves, if_pos rfl, closed, if_pos rfl, Stopwatch.stop]
      cases runningSince other calls with
      | none =>
        rw [Option.map_none, Option.toList_none, List.append_nil]
        rfl
      | some began =>
        rw [Option.map_some, Option.toList_some, List.map_append, List.map_singleton, Duration.sum_concat]
        rfl
    · rw [if_neg hother, Call.leaves, if_neg (Ne.symm hother), closed, if_neg (Ne.symm hother),
        Option.toList_none, List.append_nil]
      rfl

theorem ask (h : Accounts calls t) {call : Call} (hcall : call.instant? = none) : Accounts (calls ++ [call]) t where
  nodup := h.nodup
  started other := by
    rw [h.started]
    cases call with
    | start => cases hcall
    | stop => cases hcall
    | elapsed => simp
    | total => simp
  watch other := by
    rw [h.watch, runningSince_concat, intervals_concat]
    cases call with
    | start => cases hcall
    | stop => cases hcall
    | elapsed => rw [Call.leaves, closed, Option.toList_none, List.append_nil]; rfl
    | total => rw [Call.leaves, closed, Option.toList_none, List.append_nil]; rfl

/-- Every call keeps the agreement. -/
theorem step (calls : List Call) (t : Stopwatches) (call : Call) (h : Accounts calls t) :
    Accounts (calls ++ [call]) (t.step call).1 := by
  cases call with
  | start key now => exact h.start key now
  | stop key now => exact h.stop key now
  | elapsed key => exact h.ask rfl
  | total => exact h.ask rfl

theorem after (calls : List Call) : Accounts calls (Session.after Stopwatches.step .empty calls) :=
  Session.after_induction .empty step calls

end Accounts

/-! ## The clock -/

theorem start_mem_of_runningSince {calls : List Call} (h : runningSince key calls = some now) :
    .start key now ∈ calls := by
  obtain ⟨call, hcall, hleaves⟩ := exists_of_latest (Option.join_eq_some_iff.mp h)
  cases call with
  | start k began =>
    rw [Call.leaves] at hleaves
    split_ifs at hleaves with hk
    cases hleaves
    exact hk ▸ hcall
  | stop k ended =>
    rw [Call.leaves] at hleaves
    split_ifs at hleaves
    cases hleaves
  | elapsed => cases hleaves
  | total => cases hleaves

theorem began_le_ended {calls : List Call} (hclock : Ascending calls) {span : Span}
    (hspan : span ∈ intervals key calls) : span.began ≤ span.ended := by
  induction calls using List.reverseRecOn with
  | nil => cases hspan
  | append_singleton calls call ih =>
    rw [Ascending, List.filterMap_append, List.pairwise_append] at hclock
    obtain ⟨hbefore, -, hlast⟩ := hclock
    rw [intervals_concat, List.mem_append, Option.mem_toList] at hspan
    rcases hspan with hold | hnew
    · exact ih hbefore hold
    · cases call with
      | stop k now =>
        rw [closed] at hnew
        split_ifs at hnew with hk
        · obtain ⟨began, hbegan, rfl⟩ := Option.map_eq_some_iff.mp hnew
          exact hlast _ (List.mem_filterMap.mpr ⟨_, start_mem_of_runningSince hbegan, rfl⟩) _
            (List.mem_filterMap.mpr ⟨_, List.mem_singleton_self _, rfl⟩)
      | start => cases hnew
      | elapsed => cases hnew
      | total => cases hnew

/-- The time that some intervals take together. -/
def taken (spans : List Span) : Int := (spans.map fun span => (span.ended : Int) - span.began).sum

section

variable {calls : List Call}

theorem Accounts.elapsed (h : Accounts calls t) (hclock : Ascending calls) :
    ((t.elapsed key).nanoseconds : Int) = taken (intervals key calls) := by
  have hspan : ∀ span ∈ intervals key calls,
      (span.duration.nanoseconds : Int) = (span.ended : Int) - span.began := fun span hspan =>
    Int.ofNat_sub (began_le_ended hclock hspan)
  rw [elapsed_eq, h.watch, Duration.nanoseconds_sum, List.map_map, taken, ← List.map_congr_left hspan,
    Nat.cast_list_sum, List.map_map]
  rfl

theorem Accounts.total_eq (h : Accounts calls t) {listed : List String} (hlisted : listed.Nodup)
    (hstarted : ∀ key, key ∈ listed ↔ ∃ now, .start key now ∈ calls) : t.total = .sum (listed.map t.elapsed) :=
  total_eq_sum h.nodup ((List.perm_ext_iff_of_nodup hlisted h.nodup).mpr fun key =>
    (hstarted key).trans (h.started key).symm)

/-- A call for one key leaves the times of the others. -/
theorem elapsed_step (t : Stopwatches) {call : Call} (hcall : call.key? ≠ some key) :
    (t.step call).1.elapsed key = t.elapsed key := by
  cases call with
  | start k now =>
    rw [elapsed_eq, elapsed_eq, step, watch_start, if_neg fun h => hcall (congrArg some h.symm)]
  | stop k now =>
    rw [elapsed_eq, elapsed_eq, step, watch_stop, if_neg fun h => hcall (congrArg some h.symm)]
  | elapsed => rfl
  | total => rfl

end

/-- **The times are those of the closed intervals, and the total is their sum.** If the clock never goes back,
the time replied for a key is the sum of the intervals that were closed for it before, and the total is the sum of
the times of all keys that were started, in whatever order they are listed or the stopwatches stand. A stop of
a key that is not running changes nothing, and no call changes the time of another key. -/
theorem elapsed_intervals (calls : List Call) (hclock : Ascending calls) :
    (∀ i key, calls[i]? = some (.elapsed key) → ∃ time : Duration,
      (Session.replies step .empty calls)[i]? = some (.time time) ∧
        (time.nanoseconds : Int) = taken (intervals key (calls.take i))) ∧
    (∀ i, calls[i]? = some .total → ∀ listed : List String, listed.Nodup →
      (∀ key, key ∈ listed ↔ ∃ now, .start key now ∈ calls.take i) →
        (Session.replies step .empty calls)[i]? =
          some (.time (.sum (listed.map (Session.after step .empty (calls.take i)).elapsed)))) ∧
    (∀ order : List (String × Stopwatch), order.Perm (Session.after step .empty calls).entries →
      .sum (order.map (·.2.elapsed)) = (Session.after step .empty calls).total) ∧
    (∀ key now, runningSince key calls = none →
      Session.after step .empty (calls ++ [.stop key now]) = Session.after step .empty calls) ∧
    ∀ call key, call.key? ≠ some key →
      (Session.after step .empty (calls ++ [call])).elapsed key = (Session.after step .empty calls).elapsed key := by
  refine ⟨fun i key hcall => ?_, fun i hcall listed hlisted hstarted => ?_, fun order horder => ?_,
    fun key now hidle => ?_, fun call key hcall => ?_⟩
  · have hearlier : Ascending (calls.take i) := hclock.sublist ((List.take_sublist i calls).filterMap _)
    refine ⟨_, ?_, (Accounts.after (calls.take i)).elapsed hearlier⟩
    rw [Session.replies_getElem?, hcall]
    rfl
  · rw [Session.replies_getElem?, hcall, ← (Accounts.after (calls.take i)).total_eq hlisted hstarted]
    rfl
  · exact Duration.sum_perm (horder.map _)
  · have haccounts := Accounts.after calls
    rw [Session.after_concat]
    refine stop_of_idle haccounts.nodup ?_
    rw [haccounts.watch]
    exact hidle
  · rw [Session.after_concat]
    exact elapsed_step _ hcall

/-- The first start of `solve` is moved, its second stop finds it idle, and `check` is never started. -/
def restarted : List Call :=
  [.start "solve" 10, .start "revert" 12, .start "solve" 15, .stop "solve" 20, .stop "solve" 25, .stop "check" 26,
    .elapsed "solve", .stop "revert" 30, .total]

theorem restarted_times :
    (Session.replies step .empty restarted)[6]? = some (.time ⟨5⟩) ∧
      (Session.replies step .empty restarted)[8]? = some (.time ⟨23⟩) := by
  have hclock : Ascending restarted := by
    unfold Ascending
    decide +kernel
  obtain ⟨htime, htotal, -⟩ := elapsed_intervals restarted hclock
  constructor
  · obtain ⟨time, hreply, hnanoseconds⟩ := htime 6 "solve" rfl
    have htaken : taken (intervals "solve" (restarted.take 6)) = 5 := by decide +kernel
    rw [htaken] at hnanoseconds
    obtain ⟨n⟩ := time
    cases hnanoseconds
    exact hreply
  · have hstarted : ∀ key, key ∈ ["solve", "revert"] ↔ ∃ now, .start key now ∈ restarted.take 8 := by
      intro key
      simp only [restarted, List.take_succ_cons, List.take_zero, List.mem_cons, Call.start.injEq, reduceCtorEq,
        List.not_mem_nil, or_false, exists_or, exists_and_left, exists_eq, and_true]
      exact ⟨fun h => h.imp_right .inl, fun h => h.elim .inl fun h => h.symm⟩
    rw [htotal 8 rfl _ (by decide) hstarted]
    rfl

end Stopwatches

end QpReferee
