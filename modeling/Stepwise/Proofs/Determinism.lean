-- What the absence of errors is worth. A DFA may lack entries, and a word may
-- hold characters that the alphabet does not: a run without errors then still
-- has at most one state at a time, and a run that has lost its state is over.
import Stepwise.Proofs.Validation

namespace Stepwise

/-! ## A run without a state -/

theorem OrderedSet.isEmpty_iff {α : Type} {s : OrderedSet α} : s.isEmpty = true ↔ s = ∅ := by
  unfold isEmpty
  rw [List.isEmpty_iff]
  constructor
  · intro h
    exact ext h
  · rintro rfl
    rfl

theorem OrderedSet.eq_empty_iff {α : Type} {s : OrderedSet α} : s = ∅ ↔ ∀ x, x ∉ s := by
  rw [← isEmpty_iff, isEmpty, List.isEmpty_iff, List.eq_nil_iff_forall_not_mem]
  exact Iff.rfl

theorem Automaton.advance_empty (a : Automaton) (symbol : Symbol) : a.advance symbol ∅ = (∅, none) :=
  rfl

namespace Snapshot

variable {a : Automaton} {s t u : Snapshot}

theorem isDead_iff : s.isDead = true ↔ s.current = ∅ := OrderedSet.isEmpty_iff

/-- No symbol leads out of no state. -/
theorem isDead_next (hs : s.isDead = true) (h : s.next? a = some t) : t.isDead = true := by
  rw [isDead_iff] at hs ⊢
  obtain ⟨_, ⟨_, rfl⟩ | ⟨c, _, rfl⟩⟩ := next?_cases h
  · exact hs
  · show (a.advance (.ofChar c) s.current).1 = ∅
    rw [hs, Automaton.advance_empty]

/-- All that comes after a dead snapshot is dead. -/
theorem isDead_of_isDead_before {i k : Nat} (ht : (s :: s.following a)[i]? = some t)
    (hdead : t.isDead = true) (hu : (s :: s.following a)[i + k]? = some u) : u.isDead = true := by
  induction k generalizing u with
  | zero =>
    have htu : t = u := Option.some.inj (ht.symm.trans hu)
    exact htu ▸ hdead
  | succ k ih =>
    have hlt : i + k < (s :: s.following a).length := by
      have := (List.getElem?_eq_some_iff.mp hu).1
      omega
    have hv := List.getElem?_eq_getElem hlt
    have hnext := following_getElem?_succ hv
    exact isDead_next (ih hv) (hnext.symm.trans hu)

end Snapshot

namespace Automaton

theorem statesAfter_append_of_empty {a : Automaton} {u : Word} (h : a.statesAfter u = ∅) (v : Word) :
    a.statesAfter (u ++ v) = ∅ := by
  induction v using List.reverseRecOn with
  | nil => rw [List.append_nil, h]
  | append_singleton v c ih => rw [← List.append_assoc, statesAfter_concat, ih, advance_empty]

/-- A word on which the run dies is rejected. -/
theorem accepts_of_isDead {a : Automaton} {word : Word} {s : Snapshot} (hs : s ∈ a.trace word)
    (hdead : s.isDead = true) : a.accepts word = false := by
  have hempty : a.statesAfter (word.take s.step) = ∅ := by
    rw [← (onRun_of_mem_trace hs).current_eq]
    exact Snapshot.isDead_iff.mp hdead
  have hall := statesAfter_append_of_empty hempty (word.drop s.step)
  rw [List.take_append_drop] at hall
  rw [accepts_eq, hall]
  rfl

/-! ## At most one state -/

/-- No state, or one that is declared. -/
def AtMostOne (a : Automaton) (current : OrderedSet StateName) : Prop :=
  current = ∅ ∨ ∃ q ∈ a.states, current = .single q

theorem Deterministic.atMostOne_destinations {a : Automaton} (h : a.Deterministic) (q : StateName)
    (symbol : Symbol) : a.AtMostOne (a.destinations q symbol) := by
  by_cases hempty : a.destinations q symbol = ∅
  · exact Or.inl hempty
  · right
    have hne : (a.destinations q symbol).toList ≠ [] := fun hnil => hempty (OrderedSet.ext hnil)
    obtain ⟨r, hr⟩ := List.exists_mem_of_ne_nil _ hne
    obtain ⟨e, he, _, hre⟩ := Table.mem_destinations.mp hr
    exact ⟨r, h.target_mem e he r hre, h.destinations_eq hr⟩

theorem Deterministic.atMostOne_advance {a : Automaton} (h : a.Deterministic)
    {current : OrderedSet StateName} (hcurrent : a.AtMostOne current) (symbol : Symbol) :
    a.AtMostOne (a.advance symbol current).1 := by
  rcases hcurrent with rfl | ⟨q, _, rfl⟩
  · exact Or.inl rfl
  · rw [advance_fst, OrderedSet.toList_single, List.flatMap_singleton, OrderedSet.ofList_toList]
    exact h.atMostOne_destinations q symbol

theorem Deterministic.atMostOne_statesAfter {a : Automaton} (h : a.Deterministic) (word : Word) :
    a.AtMostOne (a.statesAfter word) := by
  induction word using List.reverseRecOn with
  | nil => exact Or.inr ⟨a.initial, h.initial_mem, rfl⟩
  | append_singleton word c ih =>
    rw [statesAfter_concat]
    exact h.atMostOne_advance ih (.ofChar c)

theorem AtMostOne.size_le {a : Automaton} {current : OrderedSet StateName}
    (h : a.AtMostOne current) : current.size ≤ 1 := by
  rcases h with rfl | ⟨q, _, rfl⟩
  · exact Nat.zero_le 1
  · exact Nat.le_refl 1

theorem AtMostOne.mem_states {a : Automaton} {current : OrderedSet StateName}
    (h : a.AtMostOne current) {q : StateName} (hq : q ∈ current) : q ∈ a.states := by
  rcases h with rfl | ⟨r, hr, rfl⟩
  · exact absurd hq (OrderedSet.not_mem_empty q)
  · rw [List.mem_singleton.mp hq]
    exact hr

/-! ## One course -/

/-- At any time the run on the word is in at most one state, and in declared
states only. A run that has lost its state never finds one again, and the
word is rejected. -/
structure OneCourse (a : Automaton) (word : Word) : Prop where
  at_most_one : ∀ s ∈ a.trace word, s.current.size ≤ 1
  declared : ∀ s ∈ a.trace word, ∀ q ∈ s.current, q ∈ a.states
  stays_dead : ∀ (i j : Nat) (s t : Snapshot), i ≤ j → (a.trace word)[i]? = some s →
    (a.trace word)[j]? = some t → s.isDead = true → t.isDead = true
  rejects : ∀ s ∈ a.trace word, s.isDead = true → a.accepts word = false

/-- A DFA of which no error is reported has one course on every word, also
where entries are missing and on characters outside of its alphabet. -/
theorem a_dfa_without_errors_has_one_course (a : Automaton) (hk : a.kind = .dfa)
    (h : ∀ d ∈ a.validate, d.severity ≠ .error) (word : Word) : a.OneCourse word := by
  have hdet : a.Deterministic := by
    apply deterministic_of_no_errors hk
    intro d hd
    exact decide_eq_false (h d hd)
  have hcurrent : ∀ s ∈ a.trace word, a.AtMostOne s.current := by
    intro s hs
    rw [(onRun_of_mem_trace hs).current_eq]
    exact hdet.atMostOne_statesAfter _
  refine ⟨fun s hs => (hcurrent s hs).size_le, fun s hs q => (hcurrent s hs).mem_states, ?_, ?_⟩
  · intro i j s t hij hs ht hdead
    obtain ⟨k, rfl⟩ := Nat.exists_eq_add_of_le hij
    exact Snapshot.isDead_of_isDead_before hs hdead ht
  · intro s hs hdead
    exact accepts_of_isDead hs hdead

/-- A DFA that can read `a` once and lacks all other entries. -/
def oneWay : Automaton where
  kind := .dfa
  states := .ofList ["p", "q"]
  alphabet := .ofList ["a", "b"]
  table := .ofTriples [⟨"p", "a", "q"⟩]
  initial := "p"
  accepting := .single "q"

example : oneWay.validate = [.incomplete [⟨"p", "b"⟩, ⟨"q", "a"⟩, ⟨"q", "b"⟩]] := by decide

theorem one_way_has_one_course : oneWay.kind = .dfa ∧
    (∀ d ∈ oneWay.validate, d.severity ≠ .error) ∧ oneWay.OneCourse ['a', '!', 'a'] := by
  have hclean : ∀ d ∈ oneWay.validate, d.severity ≠ .error := by decide
  exact ⟨rfl, hclean, a_dfa_without_errors_has_one_course oneWay rfl hclean ['a', '!', 'a']⟩

end Automaton

end Stepwise
