import Mathlib.Data.List.Nodup
import HdlInterface.Interface.Order

/-!
# Stability of the order by name

When a list is arranged by name, what has the same name keeps its order. So two lists are arranged
alike exactly if they hold the same things in the same order under each name, and also under none
(`arrangedBy_eq_arrangedBy_iff`).
-/

namespace HdlInterface

theorem nameLE_refl (a : Option String) : nameLE a a = true := by
  cases a <;> simp [nameLE]

theorem nameLE_antisymm {a b : Option String} (hab : nameLE a b = true) (hba : nameLE b a = true) :
    a = b := by
  cases a <;> cases b <;> simp_all [nameLE]
  exact String.le_antisymm hab hba

variable {α : Type} {key : α → Option String}

/-- The list arranged by key. -/
def arrangedBy (key : α → Option String) (xs : List α) : List α :=
  xs.mergeSort fun x y => nameLE (key x) (key y)

theorem Entity.arrange_eq (e : Entity) : e.arrange =
    { e with
      generics := arrangedBy (fun g => some g.name) e.generics
      ports := arrangedBy Port.name? e.ports } := rfl

theorem perm_arrangedBy (xs : List α) : (arrangedBy key xs).Perm xs := List.mergeSort_perm ..

theorem pairwise_arrangedBy (xs : List α) :
    (arrangedBy key xs).Pairwise fun x y => nameLE (key x) (key y) = true :=
  List.pairwise_mergeSort (fun x y z => nameLE_trans (key x) (key y) (key z))
    (fun x y => nameLE_total (key x) (key y)) xs

/-- What has the same key keeps its order. -/
theorem filter_arrangedBy (xs : List α) (k : Option String) :
    (arrangedBy key xs).filter (key · == k) = xs.filter (key · == k) := by
  have hties : (xs.filter (key · == k)).Pairwise fun x y => nameLE (key x) (key y) = true := by
    refine List.pairwise_of_forall_mem_list fun x hx y hy => ?_
    rw [beq_iff_eq.1 (List.mem_filter.1 hx).2, beq_iff_eq.1 (List.mem_filter.1 hy).2]
    exact nameLE_refl k
  have hsub : (xs.filter (key · == k)).Sublist (arrangedBy key xs) :=
    List.sublist_mergeSort (fun x y z => nameLE_trans (key x) (key y) (key z))
      (fun x y => nameLE_total (key x) (key y)) hties List.filter_sublist
  have hfilter := hsub.filter (key · == k)
  rw [List.filter_filter, List.filter_congr fun x _ => Bool.and_self _] at hfilter
  exact (hfilter.eq_of_length ((perm_arrangedBy xs).filter _).length_eq.symm).symm

/-- The first thing of an arranged list has the least key. -/
theorem nameLE_of_mem {x y : α} {xs : List α}
    (h : (x :: xs).Pairwise fun x y => nameLE (key x) (key y) = true) (hy : y ∈ x :: xs) :
    nameLE (key x) (key y) = true := by
  rcases List.mem_cons.1 hy with rfl | hy
  · exact nameLE_refl (key y)
  · exact List.rel_of_pairwise_cons h hy

theorem mem_iff_of_filter_eq {xs ys : List α}
    (h : ∀ k, xs.filter (key · == k) = ys.filter (key · == k)) (z : α) : z ∈ xs ↔ z ∈ ys := by
  simpa using congrArg (z ∈ ·) (h (key z))

/-- Arranged lists with the same things under each key are the same. -/
theorem eq_of_filter_eq {xs ys : List α}
    (hxs : xs.Pairwise fun x y => nameLE (key x) (key y) = true)
    (hys : ys.Pairwise fun x y => nameLE (key x) (key y) = true)
    (h : ∀ k, xs.filter (key · == k) = ys.filter (key · == k)) : xs = ys := by
  induction xs generalizing ys with
  | nil =>
      refine (List.eq_nil_iff_forall_not_mem.2 fun y hy => ?_).symm
      exact List.not_mem_nil ((mem_iff_of_filter_eq h y).2 hy)
  | cons x xs ih =>
      have hmem := mem_iff_of_filter_eq h
      cases ys with
      | nil => exact absurd ((hmem x).1 List.mem_cons_self) List.not_mem_nil
      | cons y ys =>
          -- either head stands in the other list, so neither comes before the other
          have hkey : key x = key y :=
            nameLE_antisymm (nameLE_of_mem hxs ((hmem y).2 List.mem_cons_self))
              (nameLE_of_mem hys ((hmem x).1 List.mem_cons_self))
          have hhead := h (key x)
          rw [List.filter_cons_of_pos (by simp), List.filter_cons_of_pos (by simp [hkey])] at hhead
          obtain ⟨rfl, -⟩ := List.cons.inj hhead
          have htails : ∀ k, xs.filter (key · == k) = ys.filter (key · == k) := fun k => by
            have hk := h k
            rw [List.filter_cons, List.filter_cons] at hk
            split at hk
            · exact (List.cons.inj hk).2
            · exact hk
          rw [ih (List.pairwise_cons.1 hxs).2 (List.pairwise_cons.1 hys).2 htails]

theorem arrangedBy_eq_arrangedBy_iff {xs ys : List α} : arrangedBy key xs = arrangedBy key ys ↔
    ∀ k, xs.filter (key · == k) = ys.filter (key · == k) := by
  constructor
  · intro h k
    rw [← filter_arrangedBy, h, filter_arrangedBy]
  · intro h
    refine eq_of_filter_eq (pairwise_arrangedBy xs) (pairwise_arrangedBy ys) fun k => ?_
    rw [filter_arrangedBy, h, filter_arrangedBy]

end HdlInterface
