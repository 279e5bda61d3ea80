import Mathlib.Data.List.Basic
import QpReferee.Storage.ByteFile

/-!
# The bytes of a file

A file holds the bytes of its runs, one run after the other. In terms of these bytes, writing puts the new
bytes in the place of those that stood at the position, after zeros where the file ended before it, and
reading gives the bytes from the position on. How they are cut into runs does not matter.

* `Run.bytesAll_join` : fewer runs have the same bytes.
* `ByteFile.bytes_write` : **what a file holds after a write.**
* `ByteFile.toList_readRest` : what is read from a file.
* `ByteFile.IsSolid.readBriefly` : a file without holes is read as it is, and writes inside a file leave none.
-/

namespace QpReferee

open Utf8 (Bytes)

namespace Run

/-! ## One run -/

@[simp] theorem size_bytes (run : Run) : run.bytes.size = run.size := by
  cases run with
  | hole m => exact Array.size_replicate
  | data bytes => rfl

theorem length_bytes (run : Run) : run.bytes.toList.length = run.size := by
  rw [Array.length_toList, size_bytes]

theorem bytes_take (n : ℕ) (run : Run) : (run.take n).bytes.toList = run.bytes.toList.take n := by
  cases run with
  | hole m =>
    rw [take, bytes, bytes, Array.toList_replicate, Array.toList_replicate, List.take_replicate]
  | data bytes =>
    rw [take, Run.bytes, Run.bytes, Array.toList_extract, List.extract_eq_take_drop, List.drop_zero,
      Nat.sub_zero]

theorem bytes_drop (n : ℕ) (run : Run) : (run.drop n).bytes.toList = run.bytes.toList.drop n := by
  cases run with
  | hole m =>
    rw [drop, bytes, bytes, Array.toList_replicate, Array.toList_replicate, List.drop_replicate]
  | data bytes =>
    have hall : (bytes.toList.drop n).length ≤ bytes.size - n :=
      Nat.le_of_eq (by rw [List.length_drop, Array.length_toList])
    rw [drop, Run.bytes, Run.bytes, Array.toList_extract, List.extract_eq_take_drop,
      List.take_of_length_le hall]

theorem bytes_eq_nil_of_size {run : Run} (h : run.size = 0) : run.bytes.toList = [] :=
  List.length_eq_zero_iff.mp (run.length_bytes.trans h)

/-! ## Some runs -/

def bytesAll (runs : List Run) : List UInt8 := runs.flatMap fun run => run.bytes.toList

@[simp] theorem bytesAll_nil : bytesAll [] = [] := rfl

@[simp] theorem bytesAll_cons (run : Run) (runs : List Run) :
    bytesAll (run :: runs) = run.bytes.toList ++ bytesAll runs := List.flatMap_cons

@[simp] theorem bytesAll_append (runs more : List Run) :
    bytesAll (runs ++ more) = bytesAll runs ++ bytesAll more := List.flatMap_append

theorem bytesAll_takeAll (n : ℕ) (runs : List Run) : bytesAll (takeAll n runs) = (bytesAll runs).take n := by
  induction runs generalizing n with
  | nil => exact List.take_nil.symm
  | cons run runs ih =>
    rw [takeAll, bytesAll_cons, List.take_append, length_bytes]
    split_ifs with hrun
    · have hlength : run.bytes.toList.length ≤ n := run.length_bytes ▸ hrun
      rw [bytesAll_cons, ih, List.take_of_length_le hlength]
    · rw [bytesAll_cons, bytes_take, bytesAll_nil, Nat.sub_eq_zero_of_le (Nat.le_of_not_le hrun), List.take_zero]

theorem bytesAll_dropAll (n : ℕ) (runs : List Run) : bytesAll (dropAll n runs) = (bytesAll runs).drop n := by
  induction runs generalizing n with
  | nil => exact List.drop_nil.symm
  | cons run runs ih =>
    rw [dropAll, bytesAll_cons, List.drop_append, length_bytes]
    split_ifs with hrun
    · have hlength : run.bytes.toList.length ≤ n := run.length_bytes ▸ hrun
      rw [ih, List.drop_of_length_le hlength, List.nil_append]
    · rw [bytesAll_cons, bytes_drop, Nat.sub_eq_zero_of_le (Nat.le_of_not_le hrun), List.drop_zero]

theorem bytesAll_prepend (run : Run) (runs : List Run) :
    bytesAll (prepend run runs) = run.bytes.toList ++ bytesAll runs := by
  unfold prepend
  split
  · next a b rest =>
    rw [bytesAll_cons, bytesAll_cons, Run.bytes, Run.bytes, Run.bytes, Array.toList_append, List.append_assoc]
  · exact bytesAll_cons _ _

theorem bytesAll_join (runs : List Run) : bytesAll (join runs) = bytesAll runs := by
  unfold join
  induction runs with
  | nil => rfl
  | cons run runs ih =>
    rw [List.filter_cons]
    split_ifs with hrun
    · rw [List.foldr_cons, bytesAll_prepend, ih, bytesAll_cons]
    · have hsize : run.size = 0 := Nat.eq_zero_of_not_pos fun hpos => hrun (decide_eq_true hpos)
      rw [ih, bytesAll_cons, bytes_eq_nil_of_size hsize, List.nil_append]

theorem foldl_append_bytes (runs : List Run) (f : Run → Bytes) (start : Bytes) :
    ((runs.map f).foldl (· ++ ·) start).toList = start.toList ++ runs.flatMap fun run => (f run).toList := by
  induction runs generalizing start with
  | nil => exact (List.append_nil _).symm
  | cons run runs ih =>
    rw [List.map_cons, List.foldl_cons, ih, Array.toList_append, List.flatMap_cons, List.append_assoc]

/-! ## Runs without long holes -/

def IsSolid : Run → Prop
  | hole n => n ≤ 1
  | data _ => True

theorem IsSolid.briefBytes_eq {run : Run} (h : run.IsSolid) : run.briefBytes = run.bytes := by
  cases run with
  | hole n =>
    obtain rfl | rfl := Nat.le_one_iff_eq_zero_or_eq_one.mp h <;> rfl
  | data bytes => rfl

theorem IsSolid.take {run : Run} (h : run.IsSolid) (n : ℕ) : (run.take n).IsSolid := by
  cases run with
  | hole m => exact Nat.le_trans (Nat.min_le_right n m) h
  | data bytes => trivial

theorem IsSolid.drop {run : Run} (h : run.IsSolid) (n : ℕ) : (run.drop n).IsSolid := by
  cases run with
  | hole m => exact Nat.le_trans (Nat.sub_le m n) h
  | data bytes => trivial

/-- Runs that are all read in brief as they are. -/
def AllSolid (runs : List Run) : Prop := ∀ run ∈ runs, run.IsSolid

variable {runs more : List Run}

@[simp] theorem allSolid_nil : AllSolid [] := nofun

@[simp] theorem allSolid_cons {run : Run} : AllSolid (run :: runs) ↔ run.IsSolid ∧ AllSolid runs :=
  List.forall_mem_cons

theorem AllSolid.append (h : AllSolid runs) (hmore : AllSolid more) : AllSolid (runs ++ more) :=
  List.forall_mem_append.mpr ⟨h, hmore⟩

theorem AllSolid.takeAll (h : AllSolid runs) (n : ℕ) : AllSolid (takeAll n runs) := by
  induction runs generalizing n with
  | nil => exact allSolid_nil
  | cons run runs ih =>
    obtain ⟨hrun, hruns⟩ := allSolid_cons.mp h
    rw [Run.takeAll]
    split_ifs
    · exact allSolid_cons.mpr ⟨hrun, ih hruns _⟩
    · exact allSolid_cons.mpr ⟨hrun.take n, allSolid_nil⟩

theorem AllSolid.dropAll (h : AllSolid runs) (n : ℕ) : AllSolid (dropAll n runs) := by
  induction runs generalizing n with
  | nil => exact allSolid_nil
  | cons run runs ih =>
    obtain ⟨hrun, hruns⟩ := allSolid_cons.mp h
    rw [Run.dropAll]
    split_ifs
    · exact ih hruns _
    · exact allSolid_cons.mpr ⟨hrun.drop n, hruns⟩

theorem AllSolid.prepend (h : AllSolid runs) {run : Run} (hrun : run.IsSolid) : AllSolid (prepend run runs) := by
  unfold Run.prepend
  split
  · exact allSolid_cons.mpr ⟨trivial, (allSolid_cons.mp h).2⟩
  · exact allSolid_cons.mpr ⟨hrun, h⟩

theorem AllSolid.join (h : AllSolid runs) : AllSolid (join runs) := by
  unfold Run.join
  have hkept : AllSolid (runs.filter (0 < ·.size)) := fun run hrun => h run (List.mem_of_mem_filter hrun)
  generalize runs.filter (0 < ·.size) = kept at hkept
  induction kept with
  | nil => exact allSolid_nil
  | cons run kept ih =>
    obtain ⟨hrun, hrest⟩ := allSolid_cons.mp hkept
    exact (ih hrest).prepend hrun

end Run

namespace ByteFile

open Run

variable {file : ByteFile} {new : Bytes}

/-! ## Writing and reading -/

def bytes (file : ByteFile) : List UInt8 := bytesAll file.content

@[simp] theorem bytes_empty : empty.bytes = [] := rfl

@[simp] theorem bytes_seek (file : ByteFile) (position : ℕ) : (file.seek position).bytes = file.bytes := rfl

/-- **What a file holds after a write**: the bytes in front of the position, zeros if there were too few, the
new bytes, and what stood behind them. Where nothing is written, nothing changes. -/
theorem bytes_write (file : ByteFile) (new : Bytes) :
    (file.write new).bytes = if new.isEmpty then file.bytes else
      file.bytes.take file.position ++ List.replicate (file.position - file.size) 0 ++ new.toList ++
        file.bytes.drop (file.position + new.size) := by
  unfold write
  split_ifs with hempty
  · rfl
  · rw [bytes, bytesAll_join, bytesAll_append, bytesAll_cons, bytesAll_cons, bytesAll_takeAll, bytesAll_dropAll,
      Run.bytes, Run.bytes, Array.toList_replicate, List.append_assoc, List.append_assoc]
    rfl

theorem bytes_overwrite (file : ByteFile) (new : Bytes) :
    ((file.seek 0).write new).bytes = new.toList ++ file.bytes.drop new.size := by
  rw [bytes_write, bytes_seek]
  split_ifs with hempty
  · rw [Array.isEmpty_iff.mp hempty]
    rfl
  · show file.bytes.take 0 ++ List.replicate (0 - (file.seek 0).size) 0 ++ new.toList ++
      file.bytes.drop (0 + new.size) = _
    rw [Nat.zero_sub, Nat.zero_add, List.take_zero, List.replicate_zero, List.nil_append, List.nil_append]

theorem toList_readRest (file : ByteFile) : file.readRest.1.toList = file.bytes.drop file.position := by
  have hread := foldl_append_bytes (dropAll file.position file.content) Run.bytes #[]
  exact hread.trans (bytesAll_dropAll file.position file.content)

/-! ## Files without long holes -/

/-- A file that is read in brief as it is: no more than one zero of it stands in a hole. -/
def IsSolid (file : ByteFile) : Prop := AllSolid file.content

theorem isSolid_empty : empty.IsSolid := allSolid_nil

theorem IsSolid.seek (h : file.IsSolid) (position : ℕ) : (file.seek position).IsSolid := h

theorem IsSolid.write (h : file.IsSolid) (hposition : file.position ≤ file.size) (new : Bytes) :
    (file.write new).IsSolid := by
  unfold ByteFile.write
  split_ifs
  · exact h
  · have hgap : (Run.hole (file.position - file.size)).IsSolid := by
      show file.position - file.size ≤ 1
      omega
    have hrest : AllSolid (.data new :: dropAll (file.position + new.size) file.content) :=
      allSolid_cons.mpr ⟨trivial, AllSolid.dropAll h _⟩
    exact AllSolid.join ((AllSolid.takeAll h _).append (allSolid_cons.mpr ⟨hgap, hrest⟩))

theorem IsSolid.readBriefly (h : file.IsSolid) : file.readBriefly = file.readRest := by
  have hruns : (dropAll file.position file.content).map Run.briefBytes =
      (dropAll file.position file.content).map Run.bytes :=
    List.map_congr_left fun run hrun => (AllSolid.dropAll h _ run hrun).briefBytes_eq
  unfold ByteFile.readBriefly readRest takeRest
  dsimp only
  rw [hruns]

end ByteFile

end QpReferee
