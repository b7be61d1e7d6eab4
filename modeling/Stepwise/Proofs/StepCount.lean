-- How many steps are left. In a snapshot that was read from outside the length
-- and the step need not fit the word, so a step may find the end of the word
-- before the end that the length tells of, or be past both already. Whichever
-- comes first ends the run, and the number of steps until then is known in
-- advance.
import Mathlib.Data.List.Forall2
import Stepwise.Proofs.Sessions
import Stepwise.Numbers

namespace Stepwise

namespace Snapshot

variable {a : Automaton} {s t : Snapshot}

/-! ## The steps left -/

/-- None after the verdict. With nothing left to read, one that gives the
verdict. Otherwise one for each symbol up to the length, but at least one, and
if the word ends before that, all of its symbols and one for the verdict. -/
def stepsLeft (s : Snapshot) : Nat :=
  if s.complete then 0
  else if s.input.length ≤ s.step then 1
  else if max (s.step + 1) s.length ≤ s.input.length then max (s.step + 1) s.length - s.step
  else s.input.length - s.step + 1

theorem stepsLeft_eq_zero_iff : s.stepsLeft = 0 ↔ s.complete = true := by
  cases hc : s.complete with
  | true => simp [stepsLeft, hc]
  | false =>
    refine iff_of_false ?_ Bool.false_ne_true
    rw [stepsLeft, hc, if_neg Bool.false_ne_true]
    split
    · exact Nat.one_ne_zero
    · split <;> omega

theorem stepsLeft_resolve (hc : s.complete = false) (hn : s.nextSymbol = none) :
    s.stepsLeft = (s.resolve a).stepsLeft + 1 := by
  have hread : s.input.length ≤ s.step := List.getElem?_eq_none_iff.mp hn
  simp [stepsLeft, resolve, hc, hread]

theorem stepsLeft_consume {c : Char} (hc : s.complete = false) (hn : s.nextSymbol = some c) :
    s.stepsLeft = (s.consume a c).stepsLeft + 1 := by
  have hlt : s.step < s.input.length := (List.getElem?_eq_some_iff.mp hn).1
  have hread : ¬s.input.length ≤ s.step := Nat.not_le.mpr hlt
  by_cases hlast : s.length ≤ s.step + 1
  · -- the symbol is the last that the length tells of
    have hmax : max (s.step + 1) s.length = s.step + 1 := Nat.max_eq_left hlast
    have hdone : (s.consume a c).complete = true := decide_eq_true hlast
    rw [stepsLeft_eq_zero_iff.mpr hdone, stepsLeft, hc, if_neg Bool.false_ne_true, if_neg hread, hmax,
      if_pos (Nat.succ_le_of_lt hlt), Nat.add_sub_cancel_left]
  · simp only [stepsLeft, consume, hc, hread, hlast, decide_false, Bool.false_eq_true, if_false]
    split_ifs <;> omega

/-- Each step is one of those that were left. -/
theorem stepsLeft_next (h : s.next? a = some t) : s.stepsLeft = t.stepsLeft + 1 := by
  obtain ⟨hc, ⟨hn, rfl⟩ | ⟨c, hn, rfl⟩⟩ := next?_cases h
  · exact stepsLeft_resolve hc hn
  · exact stepsLeft_consume hc hn

theorem length_following (a : Automaton) (s : Snapshot) : (s.following a).length = s.stepsLeft := by
  induction s using Snapshot.following.induct a with
  | case1 s h =>
    rw [following_of_none h, List.length_nil, stepsLeft_eq_zero_iff.mpr (next?_eq_none_iff.mp h)]
  | case2 s t h ih => rw [following_of_some h, List.length_cons, ih, stepsLeft_next h]

/-- At the start there is a step for each symbol, and one for the empty word. -/
theorem stepsLeft_start (a : Automaton) (word : Word) : (start a word).stepsLeft = max word.length 1 := by
  cases word with
  | nil => rfl
  | cons c word => simp [stepsLeft, start]

/-! ## Stepping on -/

/-- The snapshot some steps on, and none if there are fewer. -/
def afterSteps (a : Automaton) (s : Snapshot) : Nat → Option Snapshot
  | 0 => some s
  | k + 1 => (s.afterSteps a k).bind (next? a)

theorem afterSteps_eq (a : Automaton) (s : Snapshot) (k : Nat) :
    s.afterSteps a k = (s :: s.following a)[k]? := by
  induction k with
  | zero => rfl
  | succ k ih =>
    rw [afterSteps, ih]
    cases hk : (s :: s.following a)[k]? with
    | none =>
      have hlen := List.getElem?_eq_none_iff.mp hk
      rw [Option.bind_none, List.getElem?_eq_none (Nat.le_succ_of_le hlen)]
    | some t => rw [Option.bind_some, following_getElem?_succ hk]

theorem afterSteps_isSome_iff {k : Nat} : (s.afterSteps a k).isSome = true ↔ k ≤ s.stepsLeft := by
  rw [afterSteps_eq, isSome_getElem?, List.length_cons, length_following]
  exact Nat.lt_succ_iff

/-- What holds at the start and is kept by each step holds after any number of steps. -/
theorem forall_afterSteps {P : Snapshot → Prop} (hs : P s)
    (hstep : ∀ u v, P u → u.next? a = some v → P v) {k : Nat} (ht : s.afterSteps a k = some t) :
    P t := by
  rw [afterSteps_eq] at ht
  exact forall_following hs hstep t (List.mem_of_getElem? ht)

/-- Each step takes one from the steps that are left. -/
theorem stepsLeft_afterSteps {k : Nat} (ht : s.afterSteps a k = some t) :
    t.stepsLeft + k = s.stepsLeft := by
  induction k generalizing t with
  | zero =>
    cases ht
    rfl
  | succ k ih =>
    obtain ⟨u, hu, hut⟩ := Option.bind_eq_some_iff.mp ht
    have hleft := stepsLeft_next hut
    have := ih hu
    omega

theorem complete_afterSteps_iff {k : Nat} (ht : s.afterSteps a k = some t) :
    t.complete = true ↔ k = s.stepsLeft := by
  have hleft := stepsLeft_afterSteps ht
  rw [← stepsLeft_eq_zero_iff]
  omega

theorem afterSteps_stepsLeft (a : Automaton) (s : Snapshot) :
    s.afterSteps a s.stepsLeft = some (s.finish a) := by
  induction s using Snapshot.following.induct a with
  | case1 s h =>
    rw [stepsLeft_eq_zero_iff.mpr (next?_eq_none_iff.mp h), finish_of_none h]
    rfl
  | case2 s t h ih =>
    rw [afterSteps_eq] at ih ⊢
    rw [stepsLeft_next h, following_of_some h, List.getElem?_cons_succ, ih, finish_of_some h]

theorem input_length_next (h : s.next? a = some t) : t.input = s.input ∧ t.length = s.length := by
  obtain ⟨_, ⟨_, rfl⟩ | ⟨c, _, rfl⟩⟩ := next?_cases h
  · exact ⟨rfl, rfl⟩
  · exact ⟨rfl, rfl⟩

theorem input_length_afterSteps {k : Nat} (ht : s.afterSteps a k = some t) :
    t.input = s.input ∧ t.length = s.length := by
  refine forall_afterSteps (P := fun u => u.input = s.input ∧ u.length = s.length) ⟨rfl, rfl⟩ ?_ ht
  intro u v hu huv
  have hv := input_length_next huv
  exact ⟨hv.1.trans hu.1, hv.2.trans hu.2⟩

end Snapshot

/-! ## Playing a history -/

namespace History

theorem stepsToPlay_eq (h : History) (a : Automaton) : h.stepsToPlay a = h.current.stepsLeft :=
  Snapshot.length_following a h.current

/-- A play ends where stepping on from the current snapshot does. -/
theorem current_play (h : History) (a : Automaton) : (h.play a).current = h.current.finish a := by
  generalize hcurrent : h.current = s
  induction s using Snapshot.following.induct a generalizing h with
  | case1 s hn =>
    subst hcurrent
    rw [Snapshot.finish_of_none hn, (play_of_forward_eq_none (Option.map_eq_none_iff.mpr hn)).1]
  | case2 s t ht ih =>
    subst hcurrent
    have hforward : h.forward a = some (h.push t) := forward_eq_some_iff.mpr ⟨t, ht, rfl⟩
    rw [Snapshot.finish_of_some ht, (play_of_forward_eq_some hforward).1]
    exact ih (h.push t) rfl

end History

/-! ## The run on a word -/

namespace Automaton

theorem length_trace (a : Automaton) (word : Word) :
    (a.trace word).length = max word.length 1 + 1 := by
  unfold trace
  rw [List.length_cons, Snapshot.length_following, Snapshot.stepsLeft_start]

theorem standsAt_trace {a : Automaton} {word : Word} {i : Nat} {s : Snapshot}
    (hs : (a.trace word)[i]? = some s) : s.StandsAt word i := by
  induction i generalizing s with
  | zero =>
    cases hs
    exact Snapshot.standsAt_start a word
  | succ i ih =>
    unfold trace at hs ih
    rw [← Snapshot.afterSteps_eq] at hs
    obtain ⟨t, ht, hnext⟩ := Option.bind_eq_some_iff.mp hs
    rw [Snapshot.afterSteps_eq] at ht
    exact (ih ht).next hnext

/-- At the same place, the runs of two automata on a word have come as far. -/
theorem step_complete_eq {a b : Automaton} {word : Word} {i : Nat} {s t : Snapshot}
    (hs : (a.trace word)[i]? = some s) (ht : (b.trace word)[i]? = some t) :
    s.step = t.step ∧ s.complete = t.complete := by
  have hplaces := standsAt_trace hs
  have hplacet := standsAt_trace ht
  refine ⟨hplaces.step_eq.trans hplacet.step_eq.symm, ?_⟩
  rw [Bool.eq_iff_iff, hplaces.complete_iff, hplacet.complete_iff]

/-- The runs of two automata on a word have as many snapshots, so what holds of
those at each place holds of the runs side by side. -/
theorem forall₂_trace {a b : Automaton} {word : Word} {R : Snapshot → Snapshot → Prop}
    (h : ∀ (i : Nat) s t, (a.trace word)[i]? = some s → (b.trace word)[i]? = some t → R s t) :
    List.Forall₂ R (a.trace word) (b.trace word) := by
  rw [List.forall₂_iff_get]
  refine ⟨?_, ?_⟩
  · rw [length_trace, length_trace]
  · intro i hi hj
    exact h i _ _ (List.getElem?_eq_getElem hi) (List.getElem?_eq_getElem hj)

end Automaton

/-! ## The end of every run -/

namespace Snapshot

/-- Stepping on ends after exactly the given number of steps: before that no
snapshot is complete, the one after that is, and nothing follows it. The loop
that looks for the end ends there, and so does the play of a history, which
takes as many steps. All along the word and the length stay, and no symbol is
counted that the word does not have, so a count that is a machine word never
overflows. -/
structure EndsAfter (a : Automaton) (s : Snapshot) (count : Nat) : Prop where
  running : ∀ k < count, ∃ t, s.afterSteps a k = some t ∧ t.complete = false
  ends : s.afterSteps a count = some (s.finish a)
  complete : (s.finish a).complete = true
  ended : ∀ k, count < k → s.afterSteps a k = none
  plays : ∀ h : History, h.current = s → h.stepsToPlay a = count ∧ (h.play a).current = s.finish a
  kept : ∀ k t, s.afterSteps a k = some t → t.input = s.input ∧ t.length = s.length
  counted : ∀ k t c, s.afterSteps a k = some t → t.nextSymbol = some c →
    t.step + 1 ≤ s.input.length
  no_overflow : s.input.length < wordSize → ∀ k t c, s.afterSteps a k = some t →
    t.nextSymbol = some c → (t.consume a c).step < wordSize

/-- From every snapshot, whatever its length and its step are, stepping on ends,
and the snapshot tells in advance after how many steps. -/
theorem stepping_ends_from_every_snapshot (a : Automaton) (s : Snapshot) :
    s.EndsAfter a s.stepsLeft := by
  have hcounted : ∀ k t c, s.afterSteps a k = some t → t.nextSymbol = some c →
      t.step + 1 ≤ s.input.length := by
    intro k t c ht hc
    rw [← (input_length_afterSteps ht).1]
    exact (List.getElem?_eq_some_iff.mp hc).1
  refine ⟨?_, afterSteps_stepsLeft a s, complete_finish, ?_, ?_, fun _ _ => input_length_afterSteps,
    hcounted, fun hword k t c ht hc => Nat.lt_of_le_of_lt (hcounted k t c ht hc) hword⟩
  · intro k hk
    obtain ⟨t, ht⟩ := Option.isSome_iff_exists.mp (afterSteps_isSome_iff.mpr (Nat.le_of_lt hk))
    refine ⟨t, ht, Bool.eq_false_iff.mpr ?_⟩
    rw [Ne, complete_afterSteps_iff ht]
    exact Nat.ne_of_lt hk
  · intro k hk
    rw [← Option.not_isSome_iff_eq_none, afterSteps_isSome_iff]
    exact Nat.not_le.mpr hk
  · rintro h rfl
    exact ⟨h.stepsToPlay_eq a, h.current_play a⟩

/-- A length beyond the word, and a step beyond both. -/
example : ({ start default ['a', 'b'] with length := 7 } : Snapshot).stepsLeft = 3 ∧
    ({ start default ['a', 'b'] with length := 7, step := 9 } : Snapshot).stepsLeft = 1 := by decide

end Snapshot

end Stepwise
