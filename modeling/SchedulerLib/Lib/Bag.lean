import Mathlib.Data.Fintype.Basic
import Mathlib.Data.Multiset.MapFold
import Mathlib.Order.Basic

/-!
A table of slots without its places: the bag of the entries in use. Filling a free slot
adds to the bag, and a change of every entry is a map of it. A list in the order of a key
is the only one of its bag that is, if the key tells the elements apart.
-/

namespace SchedulerLib.Lib.Bag

section Contents

variable {ι α : Type} [Fintype ι] (inUse : α → Bool)

def contents (table : ι → α) : Multiset α :=
  (Finset.univ.val.map table).filter fun x => inUse x = true

theorem contents_empty (table : ι → α) (free : ∀ i, inUse (table i) = false) :
    contents inUse table = 0 := by
  rw [contents, Multiset.filter_eq_nil]
  intro x mem used
  obtain ⟨i, -, rfl⟩ := Multiset.mem_map.mp mem
  rw [free i] at used
  cases used

theorem contents_map (table : ι → α) (f : α → α) (same : ∀ x, inUse (f x) = inUse x) :
    contents inUse (fun i => f (table i)) = (contents inUse table).map f := by
  have kept : ((fun x => inUse x = true) ∘ f) = fun x => inUse x = true := by
    funext x
    rw [Function.comp_apply, same]
  rw [contents, contents, ← Function.comp_def, ← Multiset.map_map, Multiset.filter_map]
  simp only [kept]

theorem contents_fill [DecidableEq ι] (table : ι → α) (i : ι) (x : α)
    (free : inUse (table i) = false) (used : inUse x = true) :
    contents inUse (Function.update table i x) = x ::ₘ contents inUse table := by
  have unused : ¬ inUse (table i) = true := by
    rw [free]
    exact Bool.false_ne_true
  obtain ⟨others, split⟩ := Multiset.exists_cons_of_mem (Finset.mem_val.mpr (Finset.mem_univ i))
  have apart : i ∉ others := by
    have nodup := (Finset.univ : Finset ι).nodup
    rw [split] at nodup
    exact (Multiset.nodup_cons.mp nodup).1
  have rest : others.map (Function.update table i x) = others.map table := by
    refine Multiset.map_congr rfl fun j mem => ?_
    have other : j ≠ i := by
      rintro rfl
      exact apart mem
    exact Function.update_of_ne other x table
  rw [contents, contents, split, Multiset.map_cons, Multiset.map_cons, rest, Function.update_self,
    Multiset.filter_cons_of_pos (p := fun x => inUse x = true) _ used,
    Multiset.filter_cons_of_neg (p := fun x => inUse x = true) _ unused]

/-- The entries at a list of places are a part of the bag. -/
theorem contents_filter (table : ι → α) (p : α → Prop) [DecidablePred p] (places : List ι)
    (once : places.Nodup) (members : ∀ i, i ∈ places ↔ p (table i) ∧ inUse (table i) = true) :
    (places.map table : Multiset α) = (contents inUse table).filter p := by
  have listed : (places : Multiset ι) =
      Finset.univ.val.filter fun i => p (table i) ∧ inUse (table i) = true := by
    refine (Multiset.Nodup.ext (Multiset.coe_nodup.mpr once)
      (Multiset.Nodup.filter _ Finset.univ.nodup)).mpr fun i => ?_
    rw [Multiset.mem_filter, Multiset.mem_coe, members]
    simp
  rw [contents, Multiset.filter_filter, Multiset.filter_map, ← Multiset.map_coe, listed]
  rfl

end Contents

section Sorted

variable {α κ : Type} [PartialOrder κ] (key : α → κ)

theorem eq_of_sorted {l m : List α} (same : (l : Multiset α) = m) (apart : (l.map key).Nodup)
    (sorted : l.Pairwise fun x y => key x ≤ key y)
    (sorted' : m.Pairwise fun x y => key x ≤ key y) : l = m := by
  have perm : l.Perm m := Multiset.coe_eq_coe.mp same
  refine List.Perm.eq_of_pairwise (fun x y hx hy below above => ?_) sorted sorted' perm
  exact List.inj_on_of_nodup_map apart hx (perm.mem_iff.mpr hy) (le_antisymm below above)

end Sorted

end SchedulerLib.Lib.Bag
