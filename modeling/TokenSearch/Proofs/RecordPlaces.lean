import Mathlib.Data.List.Nodup
import Mathlib.Data.List.Perm.Subperm
import TokenSearch.Proofs.Json.Lexing
import TokenSearch.Store.Names

/-!
# The places of records

The path of a record leads to the directory of the records and from there to one name. Numbered
names are different for different numbers, and their supply looks at one more number than a disk
has entries, so the name that it draws is that of a free place.
-/

namespace TokenSearch

namespace RecordName

/-- The number that hexadecimal digits stand for. -/
def ofHexDigits (digits : List Char) : Nat :=
  digits.foldl (fun n c => 16 * n + (Json.hexDigit? c).getD 0) 0

theorem ofHexDigits_concat (digits : List Char) (c : Char) :
    ofHexDigits (digits ++ [c]) = 16 * ofHexDigits digits + (Json.hexDigit? c).getD 0 := by
  rw [ofHexDigits, List.foldl_concat, ofHexDigits]

theorem ofHexDigits_toDigits (n : Nat) : ofHexDigits (Nat.toDigits 16 n) = n := by
  induction n using Nat.strongRecOn with
  | ind n ih =>
    by_cases hn : n < 16
    · rw [Nat.toDigits_of_lt_base hn]
      simp [ofHexDigits, Json.hexDigit?_digitChar hn]
    · rw [Nat.toDigits_of_base_le (by decide) (by omega), ofHexDigits_concat,
        ih (n / 16) (by omega), Json.hexDigit?_digitChar (by omega), Option.getD_some]
      omega

/-- Zeros in front of the digits of a number make no difference. -/
theorem ofHexDigits_serialDigits (n : Nat) : ofHexDigits (serialDigits n) = n := by
  have hzeros (k : Nat) (digits : List Char) :
      ofHexDigits (List.replicate k '0' ++ digits) = ofHexDigits digits := by
    induction k with
    | zero => rfl
    | succ k ih => exact ih
  rw [serialDigits, hzeros, ofHexDigits_toDigits]

/-- Different numbers make different names. -/
theorem serial_injective {m n : Nat} (h : serial m = serial n) : m = n := by
  have hdigits : serialDigits m = serialDigits n :=
    String.ofList_inj.1 (String.append_right_inj _ |>.1 (congrArg text h))
  rw [← ofHexDigits_serialDigits m, hdigits, ofHexDigits_serialDigits]

/-- Records with different names have different files. -/
theorem file_injective {name other : RecordName} (h : name.file = other.file) : name = other := by
  have htext : name.text = other.text := String.append_left_inj _ |>.1 h
  cases name
  cases other
  cases htext
  rfl

/-- The signs of the name of a file. -/
theorem mem_of_mem_file {name : RecordName} {c : Char} (h : c ∈ name.file.toList) :
    c ∈ signs ++ ".json".toList := by
  rw [file, String.toList_append, List.mem_append] at h
  exact List.mem_append.2 (h.imp_left (name.plain c))

theorem slash_not_mem_file (name : RecordName) : '/' ∉ name.file.toList := fun h =>
  absurd (mem_of_mem_file h) (by decide)

theorem getLast?_file (name : RecordName) : name.file.toList.getLast? = some 'n' := by
  have hend : ".json".toList = ".jso".toList ++ ['n'] := by decide
  rw [file, String.toList_append, hend, ← List.append_assoc, List.getLast?_concat]

theorem file_ne_empty (name : RecordName) : name.file ≠ "" := by
  intro h
  have hend := getLast?_file name
  rw [h] at hend
  cases hend

/-- The name of a file does not lead outwards. -/
theorem file_ne_dots (name : RecordName) : name.file ≠ ".." := by
  intro h
  have hend := getLast?_file name
  rw [h] at hend
  exact absurd hend (by decide)

end RecordName

namespace Disk

section Paths

/-- A text without a slash is a name. -/
theorem names_of_not_mem {name : String} (hne : name ≠ "") (hslash : '/' ∉ name.toList) :
    names name = [name] := by
  rw [names, List.splitOn_eq_singleton hslash]
  simp [hne]

/-- A slash separates the names before it from those behind it. -/
theorem names_slash (directory path : String) :
    names (directory ++ "/" ++ path) = names directory ++ names path := by
  have htext : (directory ++ "/" ++ path).toList = directory.toList ++ '/' :: path.toList := by simp
  rw [names, htext, List.splitOn_append_cons_self, List.filter_append, List.map_append, names,
    names]

/-- The path of a name in a directory leads to the directory and then to the name. -/
theorem names_join (directory : String) {name : String} (hne : name ≠ "")
    (hslash : '/' ∉ name.toList) : names (join directory name) = names directory ++ [name] := by
  have hname := names_of_not_mem hne hslash
  rw [join]
  split
  · rename_i hend
    rw [Bool.or_eq_true, String.isEmpty_iff, decide_eq_true_eq] at hend
    rcases hend with rfl | hend
    · exact hname
    · obtain ⟨front, hfront⟩ := List.getLast?_eq_some_iff.1 hend
      have hdirectory : directory = String.ofList front ++ "/" ++ "" := by
        rw [← String.toList_inj, hfront]
        simp
      have hempty : names "" = [] := by decide
      rw [hdirectory, names_slash, hempty, List.append_nil, String.append_empty, names_slash, hname]
  · rw [names_slash, hname]

theorem names_path (root : String) (name : RecordName) :
    names (name.path root) = names root ++ [name.file] :=
  names_join root name.file_ne_empty name.slash_not_mem_file

end Paths

section Places

/-- The place of a record in a directory. -/
def recordPlace (directory : List String) (name : RecordName) : List String :=
  directory ++ [name.file]

theorem recordPlace_injective {directory : List String} {name other : RecordName}
    (h : recordPlace directory name = recordPlace directory other) : name = other :=
  RecordName.file_injective (List.append_cancel_left h |> List.singleton_inj.1)

@[simp] theorem isAround_recordPlace (directory : List String) (name : RecordName) :
    isAround (recordPlace directory name) = false := by
  simp [isAround, recordPlace, RecordName.file_ne_dots]

@[simp] theorem outwards_recordPlace (directory : List String) (name : RecordName) :
    outwards (recordPlace directory name) = directory := by
  rw [outwards, isAround_recordPlace, if_neg Bool.false_ne_true, recordPlace, List.dropLast_concat]

/-- The place of a record is used when something stands there. -/
theorem isUsed_path {disk : Disk} {root : String} {directory : List String}
    (h : disk.walk [] (names root) = .ok directory) (name : RecordName) :
    disk.isUsed (name.path root) = (disk.entryAt? (recordPlace directory name)).isSome := by
  simp only [isUsed, names_path, List.dropLast_concat, h, List.getLast?_concat,
    Option.toList_some, recordPlace]

/-- The place of the next numbered name is free. Otherwise the places of all numbers looked at would
be entries, and these are more than there are entries. -/
theorem entryAt?_next {disk : Disk} {root : String} {directory : List String}
    (h : disk.walk [] (names root) = .ok directory) (serial : Serial) :
    disk.entryAt? (recordPlace directory (.serial (serial.next disk root))) = none := by
  by_contra hused
  have hnext : disk.isUsed (RecordName.path root (.serial (serial.next disk root))) = true := by
    rw [isUsed_path h]
    exact Option.isSome_iff_ne_none.2 hused
  let places := (List.range (disk.entries.size + 1)).map fun k =>
    recordPlace directory (.serial (serial.issued + k))
  have hentries : places ⊆ disk.entries.keys := by
    intro place hplace
    obtain ⟨k, hk, rfl⟩ := List.mem_map.1 hplace
    have husedk := Serial.isUsed_of_isUsed_unusedFrom hnext
      (Nat.le_of_lt_succ (List.mem_range.1 hk))
    rw [isUsed_path h, entryAt?, isAround_recordPlace, if_neg Bool.false_ne_true,
      Std.ExtTreeMap.isSome_getElem?_iff_mem] at husedk
    exact Std.ExtTreeMap.mem_keys.2 husedk
  have hdistinct : places.Nodup := by
    refine List.nodup_range.map ?_
    intro j k hjk
    exact Nat.add_left_cancel (RecordName.serial_injective (recordPlace_injective hjk))
  have hlength := (hdistinct.subperm hentries).length_le
  rw [List.length_map, List.length_range, Std.ExtTreeMap.length_keys] at hlength
  omega

end Places

end Disk

end TokenSearch
