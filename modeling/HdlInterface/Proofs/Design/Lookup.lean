import HdlInterface.Proofs.Design.Canonical

/-!
# Things found by name

Where names differ, a look-up by name finds the only thing of that name
(`Design.entity?_eq_some_iff` and its like).
-/

namespace HdlInterface

theorem find?_name?_eq_some_iff {α : Type} {name? : α → Option String} {xs : List α}
    (hxs : (xs.filterMap name?).Nodup) {n : String} {x : α} :
    xs.find? (fun y => name? y == some n) = some x ↔ x ∈ xs ∧ name? x = some n := by
  induction xs with
  | nil => simp
  | cons y ys ih =>
      by_cases hy : name? y = some n
      · -- no other thing bears the name of the first one
        rw [List.filterMap_cons_some hy, List.nodup_cons] at hxs
        rw [List.find?_cons_of_pos (by simpa using hy), Option.some.injEq, List.mem_cons]
        constructor
        · rintro rfl
          exact ⟨.inl rfl, hy⟩
        · rintro ⟨rfl | hx, hname⟩
          · rfl
          · exact absurd (List.mem_filterMap.2 ⟨x, hx, hname⟩) hxs.1
      · have hys : (ys.filterMap name?).Nodup :=
          hxs.sublist (List.Sublist.filterMap name? (List.sublist_cons_self y ys))
        rw [List.find?_cons_of_neg (by simpa using hy), ih hys, List.mem_cons, or_and_right,
          or_iff_right]
        rintro ⟨rfl, hname⟩
        exact hy hname

theorem find?_name_eq_some_iff {α : Type} {name : α → String} {xs : List α}
    (hxs : (xs.map name).Nodup) {n : String} {x : α} :
    xs.find? (fun y => name y == n) = some x ↔ x ∈ xs ∧ name x = n := by
  have hfilter : (xs.filterMap fun y => some (name y)).Nodup := by
    rwa [List.filterMap_eq_map']
  simpa using find?_name?_eq_some_iff hfilter (n := n) (x := x)

namespace Entity

variable {e : Entity} (he : e.firstRepeat = none) {n : String}

include he

theorem generic?_eq_some_iff {g : Variable} :
    e.generic? n = some g ↔ g ∈ e.generics ∧ g.name = n :=
  find?_name_eq_some_iff (firstRepeat_eq_none_iff.1 he).1

theorem port?_eq_some_iff {p : Port Variable} :
    e.port? n = some p ↔ p ∈ e.ports ∧ p.name? = some n :=
  find?_name?_eq_some_iff (firstRepeat_eq_none_iff.1 he).2

end Entity

namespace Design

variable {d : Design} (hd : d.UniqueNames) {n : String}

include hd

theorem header?_eq_some_iff {h : PackageHeader} :
    d.header? n = some h ↔ h ∈ d.headers ∧ h.name = n :=
  find?_name_eq_some_iff hd.headers

theorem entity?_eq_some_iff {e : Entity} : d.entity? n = some e ↔ e ∈ d.entities ∧ e.name = n :=
  find?_name_eq_some_iff hd.entities

theorem body?_eq_some_iff {b : PackageBody} : d.body? n = some b ↔ b ∈ d.bodies ∧ b.name = n :=
  find?_name_eq_some_iff hd.bodies

end Design

end HdlInterface
