import SchedulerLib.Lib.Slots

/-! How values of a type lie in memory: a fixed number of bytes from which the value
can be read back. Byte order and padding are the layout's own business. -/

namespace SchedulerLib.Lib

structure Layout (α : Type) where
  size : Nat
  toBytes : α → List Byte
  ofBytes : List Byte → α
  size_pos : 0 < size
  length_toBytes : ∀ a, (toBytes a).length = size
  ofBytes_toBytes : ∀ a, ofBytes (toBytes a) = a

namespace Layout

@[simp] theorem ofBytes_comp_toBytes {α : Type} (L : Layout α) : L.ofBytes ∘ L.toBytes = id :=
  funext L.ofBytes_toBytes

@[simp] theorem map_ofBytes_toBytes {α : Type} (L : Layout α) (xs : List α) :
    (xs.map L.toBytes).map L.ofBytes = xs := by
  rw [List.map_map, ofBytes_comp_toBytes, List.map_id]

/-- A 16-bit word, low byte first. -/
def word16 : Layout (BitVec 16) where
  size := 2
  toBytes x := [x.setWidth 8, (x >>> 8).setWidth 8]
  ofBytes bytes := (bytes.getD 1 0).setWidth 16 <<< 8 ||| (bytes.getD 0 0).setWidth 16
  size_pos := by decide
  length_toBytes _ := rfl
  ofBytes_toBytes x := by
    ext i hi
    simp only [List.getD_cons_succ, List.getD_cons_zero, BitVec.getElem_or,
      BitVec.getElem_shiftLeft, BitVec.getElem_setWidth, BitVec.getLsbD_setWidth,
      BitVec.getLsbD_ushiftRight, BitVec.getLsbD_eq_getElem hi]
    by_cases low : i < 8
    · simp [low]
    · have back : 8 + (i - 8) = i := by omega
      simp [low, back, BitVec.getLsbD_eq_getElem hi]
      omega

def bool8 : Layout Bool where
  size := 1
  toBytes b := [if b then 1 else 0]
  ofBytes bytes := bytes.getD 0 0 != 0
  size_pos := by decide
  length_toBytes _ := rfl
  ofBytes_toBytes b := by cases b <;> rfl

def pair {α β : Type} (L : Layout α) (M : Layout β) : Layout (α × β) where
  size := L.size + M.size
  toBytes x := L.toBytes x.1 ++ M.toBytes x.2
  ofBytes bytes := (L.ofBytes (bytes.take L.size), M.ofBytes (bytes.drop L.size))
  size_pos := Nat.add_pos_left L.size_pos _
  length_toBytes x := by simp [L.length_toBytes, M.length_toBytes]
  ofBytes_toBytes x := by
    rw [List.take_left' (L.length_toBytes x.1), List.drop_left' (L.length_toBytes x.1),
      L.ofBytes_toBytes, M.ofBytes_toBytes]

def record {α β : Type} (L : Layout α) (members : β → α) (build : α → β)
    (build_members : ∀ b, build (members b) = b) : Layout β where
  size := L.size
  toBytes b := L.toBytes (members b)
  ofBytes bytes := build (L.ofBytes bytes)
  size_pos := L.size_pos
  length_toBytes b := L.length_toBytes _
  ofBytes_toBytes b := by rw [L.ofBytes_toBytes, build_members]

end Layout

end SchedulerLib.Lib
