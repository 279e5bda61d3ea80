import QpReferee.Proofs.Engine.Conic

/-!
# What the interior point method answers

How close the search comes to a solution depends on rounding, but what it says of the point where it ends does
not: the word is what the measures of that point show, or that they show nothing. The search goes there by
steps that leave a point which shows nothing yet, and takes no more of them than it is allowed. Whatever it
ends with, the answer has an entry for each variable and each row, so a check of it comes to the numbers.

* `Interior.Measures.Shows` : what a point has to meet for a verdict.
* `Interior.Ending.Justified` : an ending that its own point bears out.
* `Interior.search_justified`, `Interior.solve_answers` : **every answer is borne out**.
* `Interior.solved_shows_optimal` : **what it takes to count as solved.**
* `Conic.interior_returns_iff` : **the engine over it returns exactly on problems that are not empty.**
-/

namespace QpReferee

namespace Interior

open Conic (Word)

/-! ## Verdicts -/

/-- What the measures of a point have to meet for a verdict, to some tolerances. -/
def Measures.Shows (m : Measures) (t : Tolerances) : Verdict → Prop
  | .optimal =>
    m.ratio ≤ 1 ∧ (m.gap < t.gap ∨ m.gapRelative < t.gap) ∧ m.primal < t.feasible ∧ m.dual < t.feasible
  | .primalInfeasible =>
    t.ratio < m.ratio ∧ t.gain < m.gainOfRows ∧ m.primalCertificate < t.certificate * m.gainOfRows
  | .dualInfeasible =>
    t.ratio < m.ratio ∧ t.gain < m.gainOfVariables ∧ m.dualCertificate < t.certificate * m.gainOfVariables

variable {m : Measures} {t : Tolerances} {v : Verdict}

theorem Measures.shows_of_verdict (h : m.verdict t = some v) : m.Shows t v := by
  unfold verdict at h
  simp only [Bool.and_eq_true, Bool.or_eq_true, decide_eq_true_eq] at h
  split_ifs at h with hsolved hratio hrows hvariables
  · cases h
    obtain ⟨hratio, ⟨hgap, hprimal⟩, hdual⟩ := hsolved
    exact ⟨hratio, hgap, hprimal, hdual⟩
  · cases h
    exact ⟨hratio, hrows⟩
  · cases h
    exact ⟨hratio, hvariables⟩

theorem Measures.not_shows_of_verdict (h : m.verdict t = none) (v : Verdict) : ¬m.Shows t v := by
  unfold verdict at h
  simp only [Bool.and_eq_true, Bool.or_eq_true, decide_eq_true_eq] at h
  intro hshows
  split_ifs at h with hsolved hratio hrows hvariables
  · cases v with
    | optimal => exact hsolved ⟨hshows.1, ⟨hshows.2.1, hshows.2.2.1⟩, hshows.2.2.2⟩
    | primalInfeasible => exact hrows hshows.2
    | dualInfeasible => exact hvariables hshows.2
  · cases v with
    | optimal => exact hsolved ⟨hshows.1, ⟨hshows.2.1, hshows.2.2.1⟩, hshows.2.2.2⟩
    | primalInfeasible => exact hratio hshows.1
    | dualInfeasible => exact hratio hshows.1

/-- The words of a search that gave up. -/
def gaveUp : List Word := [.maxIterations, .numericalError, .insufficientProgress]

/-- What the measures of the last point bear out: a verdict; a verdict to the reduced tolerances, if there is no
other; or that there is none. -/
def Measures.Says (m : Measures) (word : Word) : Prop :=
  (∃ v, (m.Shows .full v ∨ m.Shows .stuck v) ∧ word = v.word) ∨
    (∀ v, ¬m.Shows .stuck v) ∧
      ((∃ v, m.Shows .reduced v ∧ word = v.almostWord) ∨ (∀ v, ¬m.Shows .reduced v) ∧ word ∈ gaveUp)

theorem giveUp_says {word : Word} (h : word ∈ gaveUp) (r : Reading) (m : Measures) (steps : Nat) :
    m.Says (giveUp word r m steps).word := by
  unfold giveUp
  cases hstuck : m.verdict .stuck with
  | some v => exact .inl ⟨v, .inr (Measures.shows_of_verdict hstuck), rfl⟩
  | none =>
    refine .inr ⟨Measures.not_shows_of_verdict hstuck, ?_⟩
    cases hreduced : m.verdict .reduced with
    | some v => exact .inl ⟨v, Measures.shows_of_verdict hreduced, rfl⟩
    | none => exact .inr ⟨Measures.not_shows_of_verdict hreduced, h⟩

/-- The tolerances of a point that is stuck differ in the certificates only. -/
theorem Measures.shows_stuck_optimal : m.Shows .stuck .optimal ↔ m.Shows .full .optimal := by
  unfold Shows Tolerances.stuck Tolerances.full
  rfl

theorem Measures.Says.shows_optimal (h : m.Says .solved) : m.Shows .full .optimal := by
  rcases h with ⟨v, hshows, hword⟩ | ⟨-, ⟨v, -, hword⟩ | ⟨-, hword⟩⟩
  · cases v with
    | optimal => exact hshows.elim id Measures.shows_stuck_optimal.mp
    | primalInfeasible => cases hword
    | dualInfeasible => cases hword
  · cases v <;> cases hword
  · exact absurd hword (by decide)

/-! ## The search -/

/-- A step that the search takes: the point shows nothing, and some part of a finite direction can be taken. -/
structure Step (e : Setting) (steps : Nat) (r r' : Reading) : Prop where
  unshown : ∀ v, ¬(r.measure e).Shows .full v
  finite : (r.next e (steps = 0)).1.w.norm.isFinite = true ∧ (r.next e (steps = 0)).1.tau.isFinite = true
  positive : ¬(r.next e (steps = 0)).2 ≤ 0
  moved : r' = (r.point.move (r.next e (steps = 0)).1 (r.next e (steps = 0)).2).read e

/-- The readings that so many steps lead to. -/
inductive Reaches (e : Setting) (r : Reading) : Nat → Reading → Prop
  | start : Reaches e r 0 r
  | step {steps : Nat} {r' r'' : Reading} : Reaches e r steps r' → Step e steps r' r'' → Reaches e r (steps + 1) r''

/-- An ending that its own point bears out, after no more than so many steps. -/
structure Ending.Justified (e : Setting) (r : Reading) (limit : Nat) (ending : Ending) : Prop where
  reached : Reaches e r ending.steps ending.reading
  within : ending.steps ≤ limit
  measured : ending.measures = ending.reading.measure e
  said : ending.measures.Says ending.word

theorem giveUp_justified {e : Setting} {start r : Reading} {steps limit : Nat} {word : Word}
    (hreached : Reaches e start steps r) (hwithin : steps ≤ limit) (hword : word ∈ gaveUp) :
    (giveUp word r (r.measure e) steps).Justified e start limit :=
  ⟨hreached, hwithin, rfl, giveUp_says hword r (r.measure e) steps⟩

/-- **A search ends where its own point bears it out**, within its budget of steps. -/
theorem search_justified {e : Setting} {start r : Reading} {steps : Nat} (budget : Nat)
    (h : Reaches e start steps r) : (search e r steps budget).Justified e start (steps + budget) := by
  induction budget generalizing r steps with
  | zero => exact giveUp_justified h (Nat.le_refl _) (by decide)
  | succ budget ih =>
    have hwithin : steps ≤ steps + (budget + 1) := Nat.le_add_right _ _
    rw [search]
    dsimp only
    cases hverdict : (r.measure e).verdict .full with
    | some v => exact ⟨h, hwithin, rfl, .inl ⟨v, .inl (Measures.shows_of_verdict hverdict), rfl⟩⟩
    | none =>
      dsimp only
      split_ifs with hinfinite hstuck
      · exact giveUp_justified h hwithin (by decide)
      · exact giveUp_justified h hwithin (by decide)
      · rw [Bool.or_eq_true, Bool.not_eq_true', Bool.not_eq_true', not_or, Bool.not_eq_false, Bool.not_eq_false]
          at hinfinite
        have hstep := h.step ⟨Measures.not_shows_of_verdict hverdict, hinfinite, hstuck, rfl⟩
        have hends := ih hstep
        rwa [Nat.add_right_comm] at hends

theorem search_from (e : Setting) (r : Reading) (budget : Nat) :
    (search e r 0 budget).Justified e r budget := by
  have hends := search_justified budget (Reaches.start : Reaches e r 0 r)
  rwa [Nat.zero_add] at hends

/-! ## The answer -/

section

variable {T : Type} [BinaryScalar T]

theorem unknowns_iterate (count : Nat) (s : Conditions.Scaled) :
    (Conditions.Scaled.iterate count s).conditions.unknowns = s.conditions.unknowns := by
  induction count generalizing s with
  | zero => rfl
  | succ count ih =>
    rw [Conditions.Scaled.iterate, ih]
    unfold Conditions.Scaled.step
    dsimp only
    split_ifs <;> rfl

theorem unknowns_make (p : Problem T) (kept : List Nat) :
    (Setting.make (.ofProblem p kept)).unknowns = p.unknowns :=
  unknowns_iterate 10 _

theorem limits_iff (kind : RowKind) (b : T) : Conditions.limits kind b = true ↔
    (kind = .equality ∨ BinaryScalar.toFloat b < Conditions.unlimited) := by
  cases kind <;> simp [Conditions.limits]

theorem mem_keptRows_iff (p : Problem T) (i : Nat) :
    i ∈ Conditions.keptRows p ↔ ∃ kind b, (p.rowKinds.zip p.b)[i]? = some (kind, b) ∧
      (kind = .equality ∨ BinaryScalar.toFloat b < Conditions.unlimited) := by
  unfold Conditions.keptRows
  rw [List.mem_map]
  constructor
  · rintro ⟨⟨⟨kind, b⟩, j⟩, hmem, rfl⟩
    obtain ⟨hmem, hkept⟩ := List.mem_filter.mp hmem
    exact ⟨kind, b, List.mem_zipIdx_iff_getElem?.mp hmem, (limits_iff kind b).mp hkept⟩
  · rintro ⟨kind, b, hrow, hkept⟩
    have hmem : ((kind, b), i) ∈ (p.rowKinds.zip p.b).zipIdx := List.mem_zipIdx_iff_getElem?.mpr hrow
    exact ⟨((kind, b), i), List.mem_filter.mpr ⟨hmem, (limits_iff kind b).mpr hkept⟩, rfl⟩

/-- Entries are set, and the others stay. -/
theorem foldl_set (pairs : List (Nat × Float)) (all : Array Float) :
    (pairs.foldl (fun all pair => all.set! pair.1 pair.2) all).size = all.size ∧
      ∀ i, (∀ pair ∈ pairs, pair.1 ≠ i) →
        (pairs.foldl (fun all pair => all.set! pair.1 pair.2) all)[i]? = all[i]? := by
  induction pairs generalizing all with
  | nil => exact ⟨rfl, fun _ _ => rfl⟩
  | cons pair pairs ih =>
    obtain ⟨hsize, hother⟩ := ih (all.set! pair.1 pair.2)
    refine ⟨hsize.trans Array.size_setIfInBounds, fun i hi => ?_⟩
    rw [List.forall_mem_cons] at hi
    rw [List.foldl_cons, hother i hi.2]
    exact Array.getElem?_setIfInBounds_ne hi.1

theorem spread_spec (rows : Nat) (kept : List Nat) (y : List Float) :
    (spread rows kept y).size = rows ∧
      ∀ i < rows, i ∉ kept → (spread rows kept y)[i]? = some 0 := by
  obtain ⟨hsize, hother⟩ := foldl_set (kept.zip y) (Array.replicate rows 0)
  refine ⟨hsize.trans Array.size_replicate, fun i hi hnot => ?_⟩
  refine (hother i ?_).trans ?_
  · rintro ⟨row, a⟩ hmem rfl
    exact hnot (List.of_mem_zip hmem).1
  · rw [Array.getElem?_replicate, if_pos hi]

/-- **Every answer is borne out** by the point where the search for it ended. It has an entry for each variable and
each row, and a row that limits nothing has the multiplier zero. -/
theorem solve_answers (p : Problem T) :
    (let e := Setting.make (.ofProblem p (Conditions.keptRows p))
    ∃ ending : Ending, ending.Justified e ((firstPoint e).read e) stepLimit ∧
      (solve p).word = ending.word ∧ (solve p).steps = ending.steps) ∧
    ((solve p).x.length = p.unknowns ∧ (solve p).y.length = p.rows) ∧
      ∀ (i : Nat) (b : T), (p.rowKinds.zip p.b)[i]? = some (.inequality, b) →
        ¬BinaryScalar.toFloat b < Conditions.unlimited → (solve p).y[i]? = some (BinaryScalar.ofFloat 0) := by
  refine ⟨⟨_, search_from _ _ stepLimit, rfl, rfl⟩, ⟨?_, ?_⟩, fun i b hrow hopen => ?_⟩
  · unfold solve
    rw [List.length_map, List.length_range, unknowns_make]
  · unfold solve
    rw [List.length_map, Array.length_toList]
    exact (spread_spec _ _ _).1
  · have hi : i < p.rows := by
      obtain ⟨hlt, -⟩ := List.getElem?_eq_some_iff.mp hrow
      rw [List.length_zip] at hlt
      exact hlt.trans_le (Nat.min_le_right _ _)
    have hnot : i ∉ Conditions.keptRows p := by
      rw [mem_keptRows_iff]
      rintro ⟨kind, b', hrow', hkept⟩
      cases hrow.symm.trans hrow'
      exact hkept.elim (by rintro ⟨⟩) hopen
    unfold solve
    rw [List.getElem?_map, Array.getElem?_toList, (spread_spec _ _ _).2 i hi hnot, Option.map_some]

/-- A problem that counts as solved has been searched to a point whose gap and errors are within the tolerances. -/
theorem solved_shows_optimal {p : Problem T} (h : (solve p).word = .solved) :
    let e := Setting.make (.ofProblem p (Conditions.keptRows p))
    ∃ r, Reaches e ((firstPoint e).read e) (solve p).steps r ∧ (r.measure e).Shows .full .optimal := by
  intro e
  obtain ⟨⟨ending, ⟨hreached, -, hmeasured, hsaid⟩, hword, hsteps⟩, -⟩ := solve_answers p
  rw [← hword, h, hmeasured] at hsaid
  exact ⟨ending.reading, hsteps ▸ hreached, hsaid.shows_optimal⟩

/-- So a check of an answer comes to its numbers: no vector is missing, and none has another length. -/
theorem admissible_solve (p : Problem T) :
    Kkt.admissible p ⟨some (solve p).x, some (solve p).y⟩ =
      if Vec.isFinite (solve p).x then
        if Vec.isFinite (solve p).y then .ok ((solve p).x, (solve p).y) else .error (.nonFinite .y)
      else .error (.nonFinite .x) := by
  obtain ⟨-, ⟨hx, hy⟩, -⟩ := solve_answers p
  unfold Kkt.admissible
  dsimp only
  rw [if_neg (not_not.mpr hx), if_neg (not_not.mpr hy)]
  cases Vec.isFinite (solve p).x <;> cases Vec.isFinite (solve p).y <;> rfl

end

end Interior

namespace Conic

variable {T : Type} [BinaryScalar T] (setup run : Duration) (s : State T) (p : Problem T) (verbose : Bool)

theorem interior_finds (h : p.unknowns + p.rows ≠ 0) :
    (interiorBackend setup run).Finds p verbose
      ⟨(Interior.solve p).word, (Interior.solve p).objective, (Interior.solve p).x, (Interior.solve p).y,
        (Interior.solve p).steps⟩
      (if verbose then some (logText p (Interior.solve p).word (Interior.solve p).steps) else none) where
  configure := rfl
  prepare := if_neg h
  run := rfl
  log := by
    cases verbose with
    | false => rfl
    | true => exact ⟨_, rfl, rfl⟩

/-- **The engine over the interior point method returns exactly on problems that are not empty**, and then with the
answer of this method; on an empty one it panics. -/
theorem interior_returns_iff :
    ((solve (interiorBackend setup run) s p verbose).2 = .ok (.ok (Interior.solve p).objective) ↔
      p.unknowns + p.rows ≠ 0) ∧
    ((solve (interiorBackend setup run) s p verbose).2 = .error (.fault .range) ↔ p.unknowns + p.rows = 0) := by
  by_cases h : p.unknowns + p.rows = 0
  · have hpanics : (solve (interiorBackend setup run) s p verbose).2 = .error (.fault .range) := by
      unfold solve Backend.work interiorBackend
      dsimp only
      rw [if_pos h]
      rfl
    rw [hpanics]
    exact ⟨iff_of_false (by rintro ⟨⟩) (not_not.mpr h), iff_of_true rfl h⟩
  · rw [(interior_finds setup run p verbose h).solve s]
    exact ⟨iff_of_true rfl h, iff_of_false (by rintro ⟨⟩) h⟩

end Conic

end QpReferee
