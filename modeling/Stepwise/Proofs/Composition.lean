-- Runs in two parts. On a word of two parts a run is, when it has read the first
-- one, where the run on that part alone ends, and it goes on from each of its
-- states as if it had started there. Either part may be empty, so the verdict of
-- the part and that of the whole need not come at the same step.
import Stepwise.Proofs.Paths

namespace Stepwise

namespace Automaton

/-! ## From a set of states on -/

/-- The automaton with another state to start in, and no other change. -/
def startingIn (a : Automaton) (q : StateName) : Automaton := { a with initial := q }

/-- Where a set of states leads to along a word. -/
def statesFrom (a : Automaton) (current : OrderedSet StateName) (word : Word) :
    OrderedSet StateName :=
  word.foldl (fun current c => (a.advance (.ofChar c) current).1) current

theorem statesAfter_append (a : Automaton) (u v : Word) :
    a.statesAfter (u ++ v) = a.statesFrom (a.statesAfter u) v := List.foldl_append

theorem statesAfter_startingIn (a : Automaton) (q : StateName) (word : Word) :
    (a.startingIn q).statesAfter word = a.statesFrom (.single q) word := rfl

theorem statesFrom_concat (a : Automaton) (current : OrderedSet StateName) (word : Word) (c : Char) :
    a.statesFrom current (word ++ [c]) = (a.advance (.ofChar c) (a.statesFrom current word)).1 := by
  unfold statesFrom
  rw [List.foldl_concat]

/-- A set of states leads to where each of its states leads to on its own. -/
theorem mem_statesFrom {a : Automaton} {current : OrderedSet StateName} {word : Word}
    {r : StateName} :
    r ∈ a.statesFrom current word ↔ ∃ q ∈ current, r ∈ a.statesFrom (.single q) word := by
  induction word using List.reverseRecOn generalizing r with
  | nil =>
    show r ∈ current ↔ ∃ q ∈ current, r ∈ OrderedSet.single q
    simp [← OrderedSet.mem_toList]
  | append_singleton word c ih =>
    simp only [statesFrom_concat, mem_advance]
    refine ⟨?_, ?_⟩
    · rintro ⟨p, hp, hr⟩
      obtain ⟨q, hq, hpq⟩ := ih.mp hp
      exact ⟨q, hq, p, hpq, hr⟩
    · rintro ⟨q, hq, p, hpq, hr⟩
      exact ⟨p, ih.mpr ⟨q, hq, hpq⟩, hr⟩

/-- A word of two parts is accepted if the second part is, from one of the states
after the first. -/
theorem accepts_append_iff {a : Automaton} {u v : Word} :
    a.accepts (u ++ v) = true ↔ ∃ q ∈ a.statesAfter u, (a.startingIn q).accepts v = true := by
  simp only [accepts_eq, OrderedSet.meets_iff, statesAfter_append, statesAfter_startingIn]
  refine ⟨?_, ?_⟩
  · rintro ⟨r, hr, hacc⟩
    obtain ⟨q, hq, hqr⟩ := mem_statesFrom.mp hr
    exact ⟨q, hq, r, hqr, hacc⟩
  · rintro ⟨q, hq, r, hqr, hacc⟩
    exact ⟨r, mem_statesFrom.mpr ⟨q, hq, hqr⟩, hacc⟩

/-! ## The transition that fired last -/

/-- The transition that fires last on the last symbol of a word. -/
def lastFired (a : Automaton) (word : Word) : Option Fired :=
  word.getLast?.bind fun c => (a.advance (.ofChar c) (a.statesAfter word.dropLast)).2

theorem lastFired_concat (a : Automaton) (word : Word) (c : Char) :
    a.lastFired (word ++ [c]) = (a.advance (.ofChar c) (a.statesAfter word)).2 := by
  unfold lastFired
  rw [List.getLast?_concat, List.dropLast_concat]
  rfl

theorem last_of_mem_trace {a : Automaton} {word : Word} {s : Snapshot} (h : s ∈ a.trace word) :
    s.last = a.lastFired (word.take s.step) := by
  suffices hboth : s.OnRun a word ∧ s.last = a.lastFired (word.take s.step) from hboth.2
  refine Snapshot.forall_following
    (P := fun s => s.OnRun a word ∧ s.last = a.lastFired (word.take s.step))
    ⟨Snapshot.onRun_start a word, rfl⟩ ?_ s h
  rintro s t ⟨hrun, hlast⟩ ht
  refine ⟨Snapshot.onRun_next hrun ht, ?_⟩
  obtain ⟨-, ⟨-, rfl⟩ | ⟨c, hn, rfl⟩⟩ := Snapshot.next?_cases ht
  · exact hlast
  · show (a.advance (.ofChar c) s.current).2 = a.lastFired (word.take (s.step + 1))
    rw [hrun.take_step hn, lastFired_concat, hrun.current_eq]

end Automaton

/-! ## Runs on two parts -/

/-- The snapshots are in the same states in the same order, they have the same
paths but for the flags, and the same transition fired last in both. -/
structure Snapshot.SamePlace (s t : Snapshot) : Prop where
  current_eq : s.current.toList = t.current.toList
  paths_eq : s.paths.map (·.map Path.states) = t.paths.map (·.map Path.states)
  last_eq : s.last = t.last

namespace Automaton

/-- Where a run stands depends on what it has read and not on what is to come. -/
theorem samePlace {a : Automaton} {v w : Word} {s t : Snapshot} (hs : s ∈ a.trace v)
    (ht : t ∈ a.trace w) (hread : v.take s.step = w.take t.step) : s.SamePlace t := by
  have hruns := onRun_of_mem_trace hs
  have hrunt := onRun_of_mem_trace ht
  refine ⟨?_, ?_, ?_⟩
  · rw [hruns.current_eq, hrunt.current_eq, hread]
  · rw [hruns.paths_eq, hrunt.paths_eq, hread]
    cases a.kind with
    | dfa => rfl
    | nfa => simp only [Option.map_some, map_states_mark]
  · rw [last_of_mem_trace hs, last_of_mem_trace ht, hread]

/-- On a word of two parts the run comes to a snapshot at which it has read the
first part. There it stands where the run on the first part ends, and it accepts
exactly if the automaton, started in one of the states of that snapshot, accepts
the second part. -/
theorem runs_compose (a : Automaton) (u v : Word) :
    (∃ s, (a.trace (u ++ v))[u.length]? = some s ∧ s.step = u.length) ∧
    ∀ s ∈ a.trace (u ++ v), s.step = u.length →
      s.SamePlace (a.verdict u) ∧
      (a.accepts (u ++ v) = true ↔ ∃ q ∈ s.current, (a.startingIn q).accepts v = true) := by
  refine ⟨trace_getElem? a (u ++ v) (by simp), fun s hs hstep => ?_⟩
  have hread : (u ++ v).take s.step = u := by
    rw [hstep, List.take_left]
  refine ⟨samePlace hs (verdict_mem_trace a u) ?_, ?_⟩
  · rw [hread, take_step_verdict]
  · rw [accepts_append_iff, (onRun_of_mem_trace hs).current_eq, hread]

/-- After one symbol the run of `forked` is in three states. From one of them the
rest of the word is accepted. -/
theorem forked_goes_on_from_one_state : ∃ s ∈ forked.trace ['a', 'a', 'a'], s.step = 1 ∧
    s.SamePlace (forked.verdict ['a']) ∧
    ∃ q ∈ s.current, (forked.startingIn q).accepts ['a', 'a'] = true := by
  obtain ⟨⟨s, hs, hstep⟩, hall⟩ := runs_compose forked ['a'] ['a', 'a']
  have hmem := List.mem_of_getElem? hs
  obtain ⟨hplace, haccepts⟩ := hall s hmem hstep
  refine ⟨s, hmem, hstep, hplace, haccepts.mp ?_⟩
  rw [accepts_eq]
  decide

end Automaton

end Stepwise
