-- A set that remembers the order in which its elements first came. Adding
-- an element that is there already neither moves it nor repeats it, so
-- every list, message and table made from a set comes out in one order.

namespace Stepwise

structure OrderedSet (α : Type) where
  toList : List α
  nodup : toList.Nodup

namespace OrderedSet

variable {α : Type}

@[ext]
theorem ext {s t : OrderedSet α} (h : s.toList = t.toList) : s = t := by
  cases s; cases t; cases h; rfl

def empty : OrderedSet α := ⟨[], List.nodup_nil⟩

instance : EmptyCollection (OrderedSet α) := ⟨empty⟩

instance : Inhabited (OrderedSet α) := ⟨empty⟩

instance : Membership α (OrderedSet α) := ⟨fun s a => a ∈ s.toList⟩

/-- The set of one element. -/
def single (a : α) : OrderedSet α := ⟨[a], by simp⟩

def size (s : OrderedSet α) : Nat := s.toList.length

def isEmpty (s : OrderedSet α) : Bool := s.toList.isEmpty

/-- The element that came first. -/
def first? (s : OrderedSet α) : Option α := s.toList.head?

@[simp]
theorem mem_toList {s : OrderedSet α} {a : α} : a ∈ s.toList ↔ a ∈ s := Iff.rfl

@[simp]
theorem toList_single (a : α) : (single a).toList = [a] := rfl

@[simp]
theorem not_mem_empty (a : α) : a ∉ (∅ : OrderedSet α) := List.not_mem_nil

variable [DecidableEq α]

instance (s : OrderedSet α) (a : α) : Decidable (a ∈ s) :=
  inferInstanceAs (Decidable (a ∈ s.toList))

/-! ## Adding elements -/

/-- A new element goes to the end. -/
def insert (s : OrderedSet α) (a : α) : OrderedSet α :=
  if h : a ∈ s.toList then s
  else ⟨s.toList ++ [a], by
    rw [List.nodup_append]
    refine ⟨s.nodup, by simp, fun x hx y hy => ?_⟩
    rw [List.mem_singleton] at hy
    exact fun hxy => h (hy ▸ hxy ▸ hx)⟩

def insertAll (s : OrderedSet α) (as : List α) : OrderedSet α := as.foldl insert s

/-- The elements of a list, each at its first place. -/
def ofList (as : List α) : OrderedSet α := empty.insertAll as

theorem insert_of_mem {s : OrderedSet α} {a : α} (h : a ∈ s) : s.insert a = s := by
  unfold insert
  exact dif_pos h

theorem toList_insert_of_not_mem {s : OrderedSet α} {a : α} (h : a ∉ s) :
    (s.insert a).toList = s.toList ++ [a] := by
  have h' : a ∉ s.toList := h
  rw [insert, dif_neg h']

@[simp]
theorem mem_insert {s : OrderedSet α} {a b : α} : b ∈ s.insert a ↔ b ∈ s ∨ b = a := by
  by_cases h : a ∈ s
  · rw [insert_of_mem h]
    exact ⟨Or.inl, fun hb => hb.elim id (fun e => e ▸ h)⟩
  · rw [← mem_toList, toList_insert_of_not_mem h]
    simp

@[simp]
theorem mem_insertAll {s : OrderedSet α} {as : List α} {b : α} :
    b ∈ s.insertAll as ↔ b ∈ s ∨ b ∈ as := by
  unfold insertAll
  induction as generalizing s with
  | nil => simp
  | cons a as ih => simp [ih, or_assoc]

@[simp]
theorem mem_ofList {as : List α} {b : α} : b ∈ ofList as ↔ b ∈ as := by
  unfold ofList
  rw [mem_insertAll]
  exact ⟨fun h => h.elim (fun h => absurd h (not_mem_empty b)) id, Or.inr⟩

/-- A list without repetitions is added as it is. -/
theorem toList_insertAll_of_nodup {s : OrderedSet α} {as : List α}
    (h : (s.toList ++ as).Nodup) : (s.insertAll as).toList = s.toList ++ as := by
  induction as generalizing s with
  | nil => simp [insertAll]
  | cons a as ih =>
    have ha : a ∉ s := by
      rw [List.nodup_append] at h
      exact fun hm => h.2.2 a hm a (List.mem_cons_self) rfl
    have e : (s.insert a).toList ++ as = s.toList ++ a :: as := by
      rw [toList_insert_of_not_mem ha, List.append_assoc, List.singleton_append]
    have := ih (s := s.insert a) (e ▸ h)
    rw [e] at this
    exact this

theorem ofList_toList (s : OrderedSet α) : ofList s.toList = s :=
  ext (toList_insertAll_of_nodup (s := empty) s.nodup)

/-! ## Comparing sets -/

/-- Two sets are the same set when they hold the same elements, in any order. -/
def sameElements (s t : OrderedSet α) : Bool :=
  s.size == t.size && s.toList.all (· ∈ t)

instance : BEq (OrderedSet α) := ⟨sameElements⟩

/-- Whether the two sets share an element. -/
def meets (s t : OrderedSet α) : Bool := s.toList.any (· ∈ t)

theorem meets_iff {s t : OrderedSet α} : s.meets t = true ↔ ∃ a, a ∈ s ∧ a ∈ t := by
  simp [meets]

end OrderedSet

end Stepwise
