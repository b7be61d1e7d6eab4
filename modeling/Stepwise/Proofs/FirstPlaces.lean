-- Sets made from lists, where each element stands at its first place. When
-- every element of a list stands for a list of its own, repetitions may be
-- dropped before or after: the first places come out the same.
import Mathlib.Data.List.Induction
import Mathlib.Data.List.Nodup
import Mathlib.Data.List.Perm.Subperm
import Stepwise.OrderedSet

namespace Stepwise.OrderedSet

variable {α β : Type}

/-! ## Sets of one element -/

theorem eq_of_size_le_one {s : OrderedSet α} (h : s.size ≤ 1) {x y : α} (hx : x ∈ s) (hy : y ∈ s) :
    x = y := by
  rw [← mem_toList] at hx hy
  unfold size at h
  match s.toList, h, hx, hy with
  | [a], _, hx, hy => exact (List.mem_singleton.mp hx).trans (List.mem_singleton.mp hy).symm

theorem eq_single_of_forall_eq {s : OrderedSet α} {x : α} (hx : x ∈ s) (h : ∀ y ∈ s, y = x) :
    s = single x := by
  apply ext
  by_contra hne
  rcases (s.nodup.ne_singleton_iff x).mp hne with hnil | ⟨y, hy, hyx⟩
  · rw [← mem_toList, hnil] at hx
    cases hx
  · exact hyx (h y hy)

/-! ## Adding lists -/

variable [DecidableEq α] [DecidableEq β]

theorem insertAll_append (s : OrderedSet α) (as bs : List α) :
    s.insertAll (as ++ bs) = (s.insertAll as).insertAll bs := by
  unfold insertAll
  exact List.foldl_append

theorem ofList_append (as bs : List α) : ofList (as ++ bs) = (ofList as).insertAll bs :=
  insertAll_append empty as bs

/-- Nothing is added when all of it is there already. -/
theorem insertAll_of_mem {s : OrderedSet α} {as : List α} (h : ∀ a ∈ as, a ∈ s) :
    s.insertAll as = s := by
  unfold insertAll
  induction as with
  | nil => rfl
  | cons a as ih =>
    rw [List.foldl_cons, insert_of_mem (h a List.mem_cons_self)]
    exact ih fun b hb => h b (List.mem_cons_of_mem a hb)

/-- The set of a list grows by the last element only if it is new. -/
theorem ofList_concat (as : List α) (a : α) : ofList (as ++ [a]) = (ofList as).insert a :=
  ofList_append as [a]

/-- Of repeated elements the first one stays. -/
theorem toList_ofList (as : List α) : (ofList as).toList = as.eraseDups := by
  induction as using List.reverseRecOn with
  | nil => rfl
  | append_singleton as a ih =>
    rw [ofList_concat, List.eraseDups_append, ← ih]
    by_cases ha : a ∈ ofList as
    · rw [insert_of_mem ha]
      rw [mem_ofList] at ha
      simp [List.removeAll, ha]
    · rw [toList_insert_of_not_mem ha]
      rw [mem_ofList] at ha
      simp [List.removeAll, ha, List.eraseDups_cons]

theorem first?_ofList (as : List α) : (ofList as).first? = as.head? := by
  unfold first?
  rw [toList_ofList]
  cases as <;> simp [List.eraseDups_cons]

/-- Repetitions may be dropped before or after the elements are replaced by
lists of their own. -/
theorem ofList_flatMap_ofList (xs : List α) (f : α → List β) :
    ofList ((ofList xs).toList.flatMap f) = ofList (xs.flatMap f) := by
  induction xs using List.reverseRecOn with
  | nil => rfl
  | append_singleton xs x ih =>
    rw [ofList_concat, List.flatMap_append, List.flatMap_singleton, ofList_append, ← ih]
    by_cases hx : x ∈ ofList xs
    · -- a repeated element brings nothing that its first place did not bring
      rw [insert_of_mem hx, insertAll_of_mem]
      intro y hy
      rw [mem_ofList, List.mem_flatMap]
      exact ⟨x, hx, hy⟩
    · rw [toList_insert_of_not_mem hx, List.flatMap_append, List.flatMap_singleton, ofList_append]

/-- Repetitions among what is added make no difference. -/
theorem insertAll_ofList (s : OrderedSet α) (as : List α) :
    s.insertAll (ofList as).toList = s.insertAll as := by
  induction as using List.reverseRecOn with
  | nil => rfl
  | append_singleton as a ih =>
    rw [ofList_concat, insertAll_append]
    by_cases ha : a ∈ ofList as
    · rw [insert_of_mem ha, ih]
      symm
      apply insertAll_of_mem
      intro b hb
      rw [List.mem_singleton] at hb
      rw [mem_insertAll, hb]
      exact Or.inr (mem_ofList.mp ha)
    · rw [toList_insert_of_not_mem ha, insertAll_append, ih]

/-! ## Comparing sets -/

theorem mem_iff_of_beq {s t : OrderedSet α} (h : (s == t) = true) {a : α} : a ∈ s ↔ a ∈ t := by
  have hsame : s.sameElements t = true := h
  unfold sameElements size at hsame
  simp only [Bool.and_eq_true, beq_iff_eq, List.all_eq_true, decide_eq_true_eq] at hsame
  obtain ⟨hsize, hsub⟩ := hsame
  have hperm : s.toList.Perm t.toList :=
    (List.subperm_of_subset s.nodup hsub).perm_of_length_le (Nat.le_of_eq hsize.symm)
  exact hperm.mem_iff

instance : ReflBEq (OrderedSet α) where
  rfl {s} := by
    show s.sameElements s = true
    simp [sameElements]

end Stepwise.OrderedSet
