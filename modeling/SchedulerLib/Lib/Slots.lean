import Mathlib.Data.List.Basic
import Mathlib.Data.Nat.ModEq
import Mathlib.Logic.Function.Basic
import Mathlib.Tactic.Ring

/-!
Flat byte arrays seen as rows of equally long slots, and circular windows of slots.
A window of `count` slots from `tail` is the queue that a ring buffer represents.
-/

namespace SchedulerLib.Lib

abbrev Byte := BitVec 8

namespace Bytes

def read (memory : List Byte) (offset length : Nat) : List Byte :=
  (memory.drop offset).take length

/-- A copy to `offset`. Past the end of `memory` the result would be longer than it. -/
def write (memory : List Byte) (offset : Nat) (bytes : List Byte) : List Byte :=
  memory.take offset ++ bytes ++ memory.drop (offset + bytes.length)

theorem write_length (memory : List Byte) (offset : Nat) (bytes : List Byte)
    (inside : offset + bytes.length ≤ memory.length) :
    (write memory offset bytes).length = memory.length := by
  simp only [write, List.length_append, List.length_take, List.length_drop]
  omega

theorem read_write_same (memory : List Byte) (offset : Nat) (bytes : List Byte)
    (inside : offset ≤ memory.length) :
    read (write memory offset bytes) offset bytes.length = bytes := by
  have front : (memory.take offset).length = offset := by
    rw [List.length_take]
    omega
  simp only [read, write, List.append_assoc]
  rw [List.drop_left' front, List.take_left' rfl]

theorem read_write_before (memory : List Byte) (offset : Nat) (bytes : List Byte)
    (other length : Nat) (before : other + length ≤ offset) (inside : offset ≤ memory.length) :
    read (write memory offset bytes) other length = read memory other length := by
  have front : other + length ≤ (memory.take offset).length := by
    rw [List.length_take]
    omega
  simp only [read, write, List.append_assoc]
  rw [List.drop_append_of_le_length (by omega), List.take_append_of_le_length
    (by rw [List.length_drop]; omega), List.drop_take, List.take_take]
  congr 1
  omega

theorem read_write_after (memory : List Byte) (offset : Nat) (bytes : List Byte)
    (other length : Nat) (after : offset + bytes.length ≤ other)
    (inside : offset + bytes.length ≤ memory.length) :
    read (write memory offset bytes) other length = read memory other length := by
  have front : (memory.take offset ++ bytes).length = offset + bytes.length := by
    rw [List.length_append, List.length_take]
    omega
  simp only [read, write]
  rw [List.drop_append, List.drop_eq_nil_of_le (by omega), front, List.nil_append, List.drop_drop]
  congr 2
  omega

theorem write_nil (memory : List Byte) (offset : Nat) : write memory offset [] = memory := by
  simp [write]

theorem write_cons (memory : List Byte) (offset : Nat) (b : Byte) (bytes : List Byte) :
    write (write memory offset [b]) (offset + 1) bytes = write memory offset (b :: bytes) := by
  have front : (write memory offset [b]).take (offset + 1) = memory.take offset ++ [b] := by
    have length : (memory.take offset ++ [b]).length ≤ offset + 1 := by
      rw [List.length_append, List.length_take, List.length_singleton]
      omega
    rcases Nat.lt_or_ge memory.length offset with short | long
    · rw [write, List.drop_eq_nil_of_le (by simp; omega), List.append_nil,
        List.take_of_length_le length]
    · rw [write, List.take_left' (by simp; omega)]
  have back : (write memory offset [b]).drop (offset + 1 + bytes.length) =
      memory.drop (offset + (b :: bytes).length) := by
    have middle : (memory.take offset ++ [b]).length ≤ offset + 1 + bytes.length := by
      rw [List.length_append, List.length_take, List.length_singleton]
      omega
    rw [write, List.drop_append, List.drop_eq_nil_of_le middle, List.nil_append, List.drop_drop,
      List.length_append, List.length_take, List.length_singleton, List.length_cons]
    rcases Nat.lt_or_ge memory.length offset with short | long
    · rw [List.drop_eq_nil_of_le (by omega), List.drop_eq_nil_of_le (by omega)]
    · congr 1
      omega
  rw [write, front, back, write]
  simp

theorem read_succ (memory : List Byte) (offset n : Nat) :
    read memory offset (n + 1) = read memory offset 1 ++ read memory (offset + 1) n := by
  rw [read, read, read, Nat.add_comm n 1, List.take_add, List.drop_drop]

end Bytes

def slot (memory : List Byte) (size i : Nat) : List Byte := Bytes.read memory (i * size) size

theorem slot_end_le (size : Nat) {capacity i : Nat} (h : i < capacity) :
    i * size + size ≤ capacity * size := by
  have := Nat.mul_le_mul_right size h
  rw [Nat.succ_mul] at this
  exact this

theorem slot_write (memory bytes : List Byte) (size capacity i j : Nat)
    (length : memory.length = capacity * size) (fits : bytes.length = size)
    (hi : i < capacity) :
    slot (Bytes.write memory (i * size) bytes) size j =
      Function.update (slot memory size) i bytes j := by
  have endi := slot_end_le size hi
  rw [Function.update_apply]
  split
  · rename_i same
    subst same
    have h := Bytes.read_write_same memory (j * size) bytes (by omega)
    rwa [fits] at h
  · rename_i other
    rcases Nat.lt_or_gt_of_ne other with before | after
    · exact Bytes.read_write_before _ _ _ _ _ (slot_end_le size before) (by omega)
    · refine Bytes.read_write_after _ _ _ _ _ ?_ (by omega)
      rw [fits]
      exact slot_end_le size after

/-- The slots `tail`, `tail + 1`, ... (modulo `capacity`), `count` of them. -/
def window {α : Type} (slots : Nat → α) (capacity tail count : Nat) : List α :=
  (List.range count).map fun k => slots ((tail + k) % capacity)

section Window

variable {α : Type} (slots : Nat → α) (capacity tail count : Nat)

@[simp] theorem window_length : (window slots capacity tail count).length = count := by
  simp [window]

@[simp] theorem window_zero : window slots capacity tail 0 = [] := rfl

theorem window_succ_last :
    window slots capacity tail (count + 1) =
      window slots capacity tail count ++ [slots ((tail + count) % capacity)] := by
  simp [window, List.range_succ]

theorem window_succ_first :
    window slots capacity tail (count + 1) =
      slots (tail % capacity) :: window slots capacity ((tail + 1) % capacity) count := by
  simp only [window, List.range_succ_eq_map, List.map_cons, List.map_map, Nat.add_zero]
  congr 1
  refine List.map_congr_left fun k _ => ?_
  simp only [Function.comp_apply, Nat.mod_add_mod]
  congr 2
  omega

theorem window_congr (others : Nat → α) (positive : 0 < capacity)
    (same : ∀ i < capacity, slots i = others i) :
    window slots capacity tail count = window others capacity tail count :=
  List.map_congr_left fun _ _ => same _ (Nat.mod_lt _ positive)

theorem offset_injective {k l : Nat} (hk : k < capacity) (hl : l < capacity)
    (h : (tail + k) % capacity = (tail + l) % capacity) : k = l := by
  have same := Nat.ModEq.add_left_cancel' tail h
  rwa [Nat.ModEq, Nat.mod_eq_of_lt hk, Nat.mod_eq_of_lt hl] at same

theorem window_fill (a : α) (room : count < capacity) :
    window (Function.update slots ((tail + count) % capacity) a) capacity tail (count + 1) =
      window slots capacity tail count ++ [a] := by
  rw [window_succ_last, Function.update_self]
  congr 1
  refine List.map_congr_left fun k hk => ?_
  have below : k < count := List.mem_range.mp hk
  refine Function.update_of_ne (fun same => ?_) _ _
  have := offset_injective capacity tail (by omega) room same
  omega

end Window

end SchedulerLib.Lib
