import TokenSearch.Disk

/-!
# Record names

Every record stands in a file of its own, under a name of hexadecimal digits and dashes. Names come
from a supply, which remembers those that it has handed out. Names that are drawn at random are
drawn without a look at the disk, so they are only hoped to be new. The supply of numbered names
looks for one that is not in use.
-/

namespace TokenSearch

/-- The signs that record names are made of. -/
def RecordName.signs : List Char := "0123456789abcdef-".toList

/-- A name of a record. -/
structure RecordName where
  text : String
  plain (c : Char) (h : c ∈ text.toList) : c ∈ RecordName.signs
  deriving DecidableEq

namespace RecordName

/-- Hexadecimal digits are signs of names. -/
theorem digitChar_mem_signs {n : Nat} (h : n < 16) : Nat.digitChar n ∈ signs := by
  have hdigit : ∀ k : Fin 16, Nat.digitChar k ∈ signs := by decide
  exact hdigit ⟨n, h⟩

/-- So are the hexadecimal digits of a number. -/
theorem mem_signs_of_mem_toDigits {n : Nat} {c : Char} (h : c ∈ Nat.toDigits 16 n) :
    c ∈ signs := by
  induction n using Nat.strongRecOn with
  | ind n ih =>
    by_cases hn : n < 16
    · rw [Nat.toDigits_of_lt_base hn, List.mem_singleton] at h
      rw [h]
      exact digitChar_mem_signs hn
    · rw [Nat.toDigits_of_base_le (by decide) (by omega), List.mem_append, List.mem_singleton] at h
      rcases h with hfront | hlast
      · exact ih (n / 16) (by omega) hfront
      · rw [hlast]
        exact digitChar_mem_signs (by omega)

/-- The name of the file of a record. -/
def file (name : RecordName) : String := name.text ++ ".json"

/-- The path of a record in a directory. -/
def path (directory : String) (name : RecordName) : String := Disk.join directory name.file

/-- The value of the byte at a position of a random name. Two of them are marked with the version
and the variant of the name. -/
def markedByte (position : Nat) (byte : UInt8) : Nat :=
  if position = 6 then 0x40 + byte.toNat % 0x10
  else if position = 8 then 0x80 + byte.toNat % 0x40
  else byte.toNat

theorem markedByte_lt (position : Nat) (byte : UInt8) : markedByte position byte < 256 := by
  have hbyte := byte.toNat_lt
  unfold markedByte
  split
  · omega
  · split <;> omega

/-- The digits of the byte at a position of a random name, with the dash that stands before some of
them. -/
def byteSigns (position : Nat) (byte : UInt8) : List Char :=
  (if position ∈ [4, 6, 8, 10] then ['-'] else []) ++
    [Nat.digitChar (markedByte position byte / 16), Nat.digitChar (markedByte position byte % 16)]

theorem mem_signs_of_mem_byteSigns {position : Nat} {byte : UInt8} {c : Char}
    (h : c ∈ byteSigns position byte) : c ∈ signs := by
  have hbyte := markedByte_lt position byte
  rcases List.mem_append.1 h with hdash | hdigit
  · split at hdash
    · rw [List.mem_singleton.1 hdash]
      decide
    · cases hdash
  · rcases List.mem_cons.1 hdigit with rfl | hdigit
    · exact digitChar_mem_signs (by omega)
    · rw [List.mem_singleton.1 hdigit]
      exact digitChar_mem_signs (by omega)

/-- The name that sixteen random bytes make, a version 4 UUID. -/
def random (bytes : List UInt8) : RecordName where
  text := String.ofList (bytes.mapIdx byteSigns).flatten
  plain c h := by
    rw [String.toList_ofList] at h
    obtain ⟨part, hpart, hc⟩ := List.mem_flatten.1 h
    obtain ⟨position, hposition, rfl⟩ := List.mem_mapIdx.1 hpart
    exact mem_signs_of_mem_byteSigns hc

example :
    (random (List.replicate 16 255)).text = "ffffffff-ffff-4fff-bfff-ffffffffffff" := by
  decide

/-- A number in at least twelve hexadecimal digits. -/
def serialDigits (n : Nat) : List Char :=
  let digits := Nat.toDigits 16 n
  List.replicate (12 - digits.length) '0' ++ digits

theorem mem_signs_of_mem_serialDigits {n : Nat} {c : Char} (h : c ∈ serialDigits n) :
    c ∈ signs := by
  rw [serialDigits, List.mem_append] at h
  rcases h with hzero | hdigit
  · rw [List.eq_of_mem_replicate hzero]
    decide
  · exact mem_signs_of_mem_toDigits hdigit

/-- The name with a number, in the form of a random one. -/
def serial (n : Nat) : RecordName where
  text := "6d1f9b3e-57c2-4e8a-b0f4-" ++ String.ofList (serialDigits n)
  plain c h := by
    have hstart : "6d1f9b3e-57c2-4e8a-b0f4-".toList.all (signs.contains ·) = true := by decide
    rw [String.toList_append, List.mem_append] at h
    rcases h with hc | hc
    · exact List.contains_iff_mem.1 (List.all_eq_true.1 hstart c hc)
    · rw [String.toList_ofList] at hc
      exact mem_signs_of_mem_serialDigits hc

end RecordName

/-- A supply of record names. -/
class NameSupply (ν : Type) where
  /-- Draw a name for a record that is to stand in a directory of a disk. -/
  draw : Disk → String → ν → RecordName × ν
  /-- Whether a name has been handed out. -/
  Issued : ν → RecordName → Prop
  issued_draw (disk : Disk) (directory : String) (names : ν) :
    Issued (draw disk directory names).2 (draw disk directory names).1
  issued_of_issued (disk : Disk) (directory : String) {names : ν} {name : RecordName}
    (h : Issued names name) : Issued (draw disk directory names).2 name

/-- Names drawn at random, without a look at the disk. -/
structure Draws where
  /-- What comes out of each draw. -/
  outcome : Nat → RecordName
  /-- The number of draws so far. -/
  made : Nat := 0

instance : NameSupply Draws where
  draw _ _ draws := (draws.outcome draws.made, { draws with made := draws.made + 1 })
  Issued draws name := ∃ n < draws.made, draws.outcome n = name
  issued_draw _ _ _ := ⟨_, Nat.lt_succ_self _, rfl⟩
  issued_of_issued _ _ {draws} {_} h := by
    obtain ⟨n, hn, rfl⟩ := h
    exact ⟨n, Nat.lt_succ_of_lt hn, rfl⟩

/-- A supply of numbered names. -/
structure Serial where
  /-- All names handed out so far have lower numbers. -/
  issued : Nat := 0
  deriving DecidableEq, Repr

namespace Serial

/-- The first number from `n` on, skipping at most `limit`, whose record path is not in use. -/
def unusedFrom (disk : Disk) (directory : String) : Nat → Nat → Nat
  | 0, n => n
  | limit + 1, n =>
    if disk.isUsed (RecordName.path directory (.serial n)) then
      unusedFrom disk directory limit (n + 1)
    else n

/-- Numbers are looked at upwards. -/
theorem le_unusedFrom (disk : Disk) (directory : String) (limit n : Nat) :
    n ≤ unusedFrom disk directory limit n := by
  induction limit generalizing n with
  | zero => exact Nat.le_refl n
  | succ limit ih =>
    rw [unusedFrom]
    split
    · exact Nat.le_of_succ_le (ih (n + 1))
    · exact Nat.le_refl n

/-- If even the number found is in use, so are all numbers looked at. -/
theorem isUsed_of_isUsed_unusedFrom {disk : Disk} {directory : String} {limit n k : Nat}
    (h : disk.isUsed (RecordName.path directory (.serial (unusedFrom disk directory limit n))) =
      true) (hk : k ≤ limit) :
    disk.isUsed (RecordName.path directory (.serial (n + k))) = true := by
  induction limit generalizing n k with
  | zero => obtain rfl := Nat.le_zero.1 hk; exact h
  | succ limit ih =>
    simp only [unusedFrom] at h
    split at h
    · rename_i hn
      cases k with
      | zero => exact hn
      | succ k =>
        rw [show n + (k + 1) = n + 1 + k by omega]
        exact ih h (Nat.le_of_succ_le_succ hk)
    · rename_i hn
      exact absurd h hn

/-- The number of the next name for a directory. As more paths are looked at than there are
entries, one of them is not in use. -/
def next (names : Serial) (disk : Disk) (directory : String) : Nat :=
  unusedFrom disk directory disk.entries.size names.issued

instance : NameSupply Serial where
  draw disk directory names :=
    (.serial (names.next disk directory), ⟨names.next disk directory + 1⟩)
  Issued names name := ∃ n < names.issued, .serial n = name
  issued_draw _ _ _ := ⟨_, Nat.lt_succ_self _, rfl⟩
  issued_of_issued disk directory {names} {_} h := by
    obtain ⟨n, hn, rfl⟩ := h
    have hle : names.issued ≤ names.next disk directory := le_unusedFrom disk directory _ _
    exact ⟨n, Nat.lt_succ_of_lt (Nat.lt_of_lt_of_le hn hle), rfl⟩

end Serial

end TokenSearch
