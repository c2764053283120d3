import Mathlib.Data.List.Perm.Basic
import Mathlib.Data.List.Sort

/-! Stable sorting. The order need not be antisymmetric: entries that tie keep
the order in which they were given, so sorting commutes with every selection
and puts what lies below a cut before the rest. -/
namespace StableSort

universe u

variable {α : Type u} {r : α → α → Prop} [DecidableRel r]

theorem orderedInsert_of_forall {a : α} {l : List α} (h : ∀ b ∈ l, r a b) :
    l.orderedInsert r a = a :: l := by
  cases l with
  | nil => rfl
  | cons b l => exact List.orderedInsert_cons_of_le r l (h b List.mem_cons_self)

theorem filter_orderedInsert_of_neg {p : α → Bool} {a : α} (h : p a = false) (l : List α) :
    (l.orderedInsert r a).filter p = l.filter p := by
  induction l with
  | nil => simp [h]
  | cons b l ih =>
      rw [List.orderedInsert_cons]
      split_ifs
      · rw [List.filter_cons_of_neg (by simp [h])]
      · rw [List.filter_cons, List.filter_cons, ih]

variable [IsTrans α r]

theorem filter_orderedInsert_of_pos {p : α → Bool} {a : α} (h : p a = true) {l : List α}
    (hSorted : l.Pairwise r) :
    (l.orderedInsert r a).filter p = (l.filter p).orderedInsert r a := by
  induction l with
  | nil => simp [h]
  | cons b l ih =>
      obtain ⟨hFirst, hRest⟩ := List.pairwise_cons.mp hSorted
      rw [List.orderedInsert_cons]
      split_ifs with hab
      · have hAll : ∀ c ∈ (b :: l).filter p, r a c := by
          intro c hc
          rcases List.mem_cons.mp (List.mem_filter.mp hc).1 with rfl | hc
          · exact hab
          · exact trans_of r hab (hFirst c hc)
        rw [List.filter_cons_of_pos h, orderedInsert_of_forall hAll]
      · cases hb : p b with
        | true =>
            rw [List.filter_cons_of_pos hb, List.filter_cons_of_pos hb, List.orderedInsert_cons,
              if_neg hab, ih hRest]
        | false =>
            rw [List.filter_cons_of_neg (by simp [hb]), List.filter_cons_of_neg (by simp [hb]),
              ih hRest]

variable [Std.Total r]

/-- Sorting a selection is selecting from the sorted list. -/
theorem filter_insertionSort (p : α → Bool) (l : List α) :
    (l.insertionSort r).filter p = (l.filter p).insertionSort r := by
  induction l with
  | nil => rfl
  | cons a l ih =>
      rw [List.insertionSort_cons]
      cases h : p a with
      | true =>
          rw [filter_orderedInsert_of_pos h (List.pairwise_insertionSort r l), ih,
            List.filter_cons_of_pos h, List.insertionSort_cons]
      | false =>
          rw [filter_orderedInsert_of_neg h, ih, List.filter_cons_of_neg (by simp [h])]

/-- What lies below a cut comes first, and each part is sorted for itself. -/
theorem insertionSort_split {p : α → Bool} (hDown : ∀ a b, r a b → p b = true → p a = true)
    (l : List α) : l.insertionSort r =
      (l.filter p).insertionSort r ++ (l.filter fun a => !p a).insertionSort r := by
  have hSplit {s : List α} (hSorted : s.Pairwise r) :
      s = s.filter p ++ s.filter fun a => !p a := by
    induction s with
    | nil => rfl
    | cons a s ih =>
        obtain ⟨hFirst, hRest⟩ := List.pairwise_cons.mp hSorted
        cases h : p a with
        | true =>
            rw [List.filter_cons_of_pos h, List.filter_cons_of_neg (by simp [h]), List.cons_append,
              ← ih hRest]
        | false =>
            have hNone : ∀ b ∈ a :: s, p b = false := by
              intro b hb
              rcases List.mem_cons.mp hb with rfl | hb
              · exact h
              · rw [← Bool.not_eq_true]
                intro hBelow
                rw [hDown a b (hFirst b hb) hBelow] at h
                cases h
            rw [List.filter_eq_nil_iff.mpr (fun b hb => by simp [hNone b hb]),
              List.filter_eq_self.mpr (fun b hb => by simp [hNone b hb]), List.nil_append]
  rw [← filter_insertionSort, ← filter_insertionSort]
  exact hSplit (List.pairwise_insertionSort r l)

/-- Entries of which no two tie are sorted in one way only, so that it does not
matter in which direction they are given. -/
theorem insertionSort_reverse {l : List α} (h : l.Pairwise fun a b => ¬ r b a) :
    l.reverse.insertionSort r = l := by
  have hApart : ∀ a ∈ l, ∀ b ∈ l, r a b → r b a → a = b :=
    List.Pairwise.forall_of_forall_of_flip (fun _ _ _ _ => rfl)
      (h.imp fun hab _ hba => absurd hba hab) (h.imp fun hab hba _ => absurd hba hab)
  have hSorted : l.Pairwise r := h.imp fun {a b} hab => (total_of r a b).resolve_right hab
  have hPerm : (l.reverse.insertionSort r).Perm l :=
    (List.perm_insertionSort r _).trans (List.reverse_perm l)
  refine hPerm.eq_of_pairwise ?_ (List.pairwise_insertionSort r _) hSorted
  intro a b ha hb
  exact hApart a (hPerm.mem_iff.mp ha) b hb

omit [IsTrans α r] [Std.Total r] in
/-- Entries that all tie stay as they are. -/
theorem insertionSort_of_ties {l : List α} (h : ∀ a ∈ l, ∀ b ∈ l, r a b) :
    l.insertionSort r = l :=
  (List.pairwise_of_forall_mem_list h).insertionSort_eq

/-- What is a reordering of images is the images of a reordering. -/
theorem exists_map_of_perm {β : Type*} {f : α → β} {l : List β} {xs : List α}
    (h : l.Perm (xs.map f)) : ∃ ys : List α, ys.Perm xs ∧ l = ys.map f := by
  obtain ⟨ys, hEq, hPerm⟩ := (congrFun (congrFun (List.eq_map_comp_perm f) l) xs).mpr h
  exact ⟨ys, hPerm, hEq⟩

end StableSort
