import QpReferee.Proofs.Settings.Document
import QpReferee.Proofs.Storage.ByteFile
import QpReferee.Settings.File

/-!
# Settings in a file

Settings that are written to an empty file and read from its start are what their document keeps, if that is
legal. Writing checks nothing, and what is no finite number becomes an open limit on the way. So an infinite
limit, which is legal, is lost; and a limit that is no number, or minus infinity, is not reported.

* `ByteFile.readBriefly_write` : the bytes of an empty file are those that were written.
* `Settings.read_written` : **what reading answers, and for which settings it gives back the same.**
* `Settings.FileError.kind_eq_unexpectedEof_iff` : the one failure whose kind is that of an early end.
-/

namespace QpReferee

theorem Utf8.decode?_encode (text : String) : decode? (encode text) = some text :=
  dif_pos text.isValidUTF8

theorem ByteFile.readBriefly_write (bytes : Utf8.Bytes) :
    ((empty.write bytes).seek 0).readBriefly.1 = bytes := by
  have hsolid : ((empty.write bytes).seek 0).IsSolid := (isSolid_empty.write (Nat.zero_le _) bytes).seek 0
  have hwritten : (empty.write bytes).bytes = bytes.toList := by
    have h := bytes_overwrite empty bytes
    rwa [bytes_empty, List.drop_nil, List.append_nil] at h
  rw [hsolid.readBriefly]
  apply Array.toList_inj.mp
  rw [toList_readRest, bytes_seek, hwritten]
  rfl

namespace Settings

theorem DocumentError.kind_eq_unexpectedEof_iff {e : DocumentError} :
    e.kind = .unexpectedEof ↔ e = .json .truncated := by
  cases e with
  | json error => cases error <;> decide
  | settings error => exact iff_of_false (by rintro ⟨⟩) (by rintro ⟨⟩)

theorem FileError.kind_eq_unexpectedEof_iff {e : FileError} :
    e.kind = .unexpectedEof ↔ e = .document (.json .truncated) := by
  cases e with
  | encoding => decide
  | document error => rw [FileError.kind, DocumentError.kind_eq_unexpectedEof_iff, FileError.document.injEq]

theorem kept_eq_self_iff {s : Settings} : s.kept = s ↔ ∀ limit ∈ s.timeLimit, limit.isFinite = true := by
  obtain ⟨verbose, timeLimit, highAccuracy, policy⟩ := s
  unfold kept
  rw [Settings.mk.injEq]
  simp only [true_and, and_true]
  cases timeLimit with
  | none => simp
  | some limit => simp

theorem ofJson_toJson (s : Settings) :
    ofJson s.toJson = match s.kept.validate with
      | .ok () => .ok s.kept
      | .error e => .error (.settings e) := by
  unfold ofJson
  rw [read_toJson]
  dsimp only
  cases s.kept.validate <;> rfl

theorem readFrom_writeTo (s : Settings) :
    (readFrom ((s.writeTo .empty).seek 0)).1 = (ofJson s.toJson).mapError .document := by
  unfold readFrom writeTo
  dsimp only
  rw [ByteFile.readBriefly_write, Utf8.decode?_encode]

/-- **What reading answers, and for which settings it gives back the same.** -/
theorem read_written (s : Settings) :
    (readFrom ((s.writeTo .empty).seek 0)).1 = (match s.kept.validate with
      | .ok () => .ok s.kept
      | .error e => .error (.document (.settings e))) ∧
      (s.kept = s ↔ ∀ limit ∈ s.timeLimit, limit.isFinite = true) := by
  refine ⟨?_, kept_eq_self_iff⟩
  rw [readFrom_writeTo, ofJson_toJson]
  cases s.kept.validate <;> rfl

/-- Settings with a time limit of ten seconds come back. -/
theorem read_written_ten :
    (readFrom ((writeTo ⟨some true, some 10, none, .solutionPresent⟩ .empty).seek 0)).1 =
      .ok ⟨some true, some 10, none, .solutionPresent⟩ := by
  obtain ⟨hread, hkept⟩ := read_written ⟨some true, some 10, none, .solutionPresent⟩
  have hsame := hkept.mpr (by rintro limit ⟨⟩; decide)
  rw [hread, hsame]
  rfl

/-- A legal limit is lost, and an illegal one is not reported. -/
theorem limit_lost :
    (validate ⟨none, some (1 / 0), none, .always⟩ = .ok () ∧
      (readFrom ((writeTo ⟨none, some (1 / 0), none, .always⟩ .empty).seek 0)).1 = .ok .default ∧
        (⟨none, some (1 / 0), none, .always⟩ : Settings) ≠ .default) ∧
      validate ⟨none, some (0 / 0), none, .always⟩ = .error (.badFieldValue "time_limit") ∧
        (readFrom ((writeTo ⟨none, some (0 / 0), none, .always⟩ .empty).seek 0)).1 = .ok .default := by
  have hlost (limit : Float) (h : limit.isFinite = false) :
      (readFrom ((writeTo ⟨none, some limit, none, .always⟩ .empty).seek 0)).1 = .ok .default := by
    have hkept : kept ⟨none, some limit, none, .always⟩ = .default := by
      unfold kept
      rw [Option.filter_some, h]
      rfl
    rw [readFrom_writeTo, ofJson_toJson, hkept]
    rfl
  refine ⟨⟨?_, hlost _ ?_, ?_⟩, ?_, hlost _ ?_⟩
  · with_unfolding_all rfl
  · with_unfolding_all rfl
  · rintro ⟨⟩
  · with_unfolding_all rfl
  · with_unfolding_all rfl

end Settings

end QpReferee
