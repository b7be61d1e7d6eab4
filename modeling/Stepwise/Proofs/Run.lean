-- The course of a run. One step does one of two things, and a run is a fold
-- over the word: what every snapshot of a run holds is said once in `OnRun`
-- and kept by each step, so it is known of all snapshots and of the verdict.
import Mathlib.Data.List.Basic
import Mathlib.Data.List.Induction
import Stepwise.Proofs.FirstPlaces
import Stepwise.Snapshot

namespace Stepwise

/-! ## One step and the loop -/

namespace Snapshot

variable {a : Automaton} {s t : Snapshot}

/-- All that a step can do: give the verdict, or read one symbol. -/
theorem next?_cases (h : s.next? a = some t) :
    s.complete = false ∧
      (s.nextSymbol = none ∧ t = s.resolve a ∨ ∃ c, s.nextSymbol = some c ∧ t = s.consume a c) := by
  unfold next? at h
  split at h
  · cases h
  · rename_i hc
    refine ⟨by simpa using hc, ?_⟩
    cases hn : s.nextSymbol with
    | none =>
      rw [hn] at h
      exact Or.inl ⟨rfl, (Option.some.inj h).symm⟩
    | some c =>
      rw [hn] at h
      exact Or.inr ⟨c, rfl, (Option.some.inj h).symm⟩

theorem next?_of_nextSymbol {c : Char} (hc : s.complete = false) (hn : s.nextSymbol = some c) :
    s.next? a = some (s.consume a c) := by
  simp [next?, hc, hn]

theorem next?_eq_none_iff : s.next? a = none ↔ s.complete = true := by
  unfold next?
  split
  · simp_all
  · cases s.nextSymbol <;> simp_all

theorem following_of_none (h : s.next? a = none) : s.following a = [] := by
  rw [following]
  split
  · rfl
  · simp_all

theorem following_of_some (h : s.next? a = some t) : s.following a = t :: t.following a := by
  rw [following]
  split
  · simp_all
  · simp_all

theorem finish_of_none (h : s.next? a = none) : s.finish a = s := by
  rw [finish]
  split
  · rfl
  · simp_all

theorem finish_of_some (h : s.next? a = some t) : s.finish a = t.finish a := by
  rw [finish]
  split
  · simp_all
  · simp_all

/-- What holds at the start and is kept by each step holds all along. -/
theorem forall_following {P : Snapshot → Prop} (hs : P s)
    (hstep : ∀ u v, P u → u.next? a = some v → P v) : ∀ t ∈ s :: s.following a, P t := by
  induction s using Snapshot.following.induct a with
  | case1 s h =>
    rw [following_of_none h]
    simpa using hs
  | case2 s u h ih =>
    rw [following_of_some h]
    intro t ht
    rcases List.mem_cons.mp ht with rfl | ht
    · exact hs
    · exact ih (hstep s u hs h) t ht

/-- Each snapshot of a run is the step of the one before it. -/
theorem following_getElem?_succ {k : Nat} (h : (s :: s.following a)[k]? = some t) :
    (s :: s.following a)[k + 1]? = t.next? a := by
  induction s using Snapshot.following.induct a generalizing k with
  | case1 s hn =>
    rw [following_of_none hn] at h ⊢
    cases k with
    | zero =>
      cases h
      rw [hn]
      rfl
    | succ k => simp at h
  | case2 s u hu ih =>
    rw [following_of_some hu] at h ⊢
    cases k with
    | zero =>
      cases h
      rw [hu]
      rfl
    | succ k => exact ih h

theorem finish_mem : s.finish a ∈ s :: s.following a := by
  induction s using Snapshot.following.induct a with
  | case1 s h =>
    rw [finish_of_none h]
    exact List.mem_cons_self
  | case2 s u h ih =>
    rw [finish_of_some h, following_of_some h]
    exact List.mem_cons_of_mem s ih

theorem complete_finish : (s.finish a).complete = true := by
  induction s using Snapshot.following.induct a with
  | case1 s h =>
    rw [finish_of_none h]
    exact next?_eq_none_iff.mp h
  | case2 s u h ih =>
    rw [finish_of_some h]
    exact ih

end Snapshot

/-! ## The run as a fold over the word -/

namespace Automaton

/-- The states after a word, each at the place where it was first reached. -/
def statesAfter (a : Automaton) (word : Word) : OrderedSet StateName :=
  word.foldl (fun current c => (a.advance (.ofChar c) current).1) (.single a.initial)

/-- A sequence of states goes on once for each destination of its last state. -/
def prolong (a : Automaton) (c : Char) (qs : List StateName) : List (List StateName) :=
  match qs.getLast? with
  | none => []
  | some q => (a.destinations q (.ofChar c)).toList.map fun r => qs ++ [r]

/-- The sequences of states along a word, in the order in which they branch off. -/
def runs (a : Automaton) (word : Word) : List (List StateName) :=
  word.foldl (fun qss c => qss.flatMap (a.prolong c)) [[a.initial]]

/-- A sequence of states as a path. The flag is left open until the paths are judged. -/
def mark (a : Automaton) (judged : Bool) (qs : List StateName) : Path :=
  ⟨qs, judged && qs.getLast?.any a.isAccepting⟩

theorem statesAfter_concat (a : Automaton) (word : Word) (c : Char) :
    a.statesAfter (word ++ [c]) = (a.advance (.ofChar c) (a.statesAfter word)).1 := by
  unfold statesAfter
  rw [List.foldl_concat]

theorem runs_concat (a : Automaton) (word : Word) (c : Char) :
    a.runs (word ++ [c]) = (a.runs word).flatMap (a.prolong c) := by
  unfold runs
  rw [List.foldl_concat]

theorem branch_mark (a : Automaton) (c : Char) (judged before : Bool) (qs : List StateName) :
    Path.branch a (.ofChar c) judged (a.mark before qs) = (a.prolong c qs).map (a.mark judged) := by
  unfold Path.branch prolong Path.last? mark
  cases qs.getLast? with
  | none => rfl
  | some q => simp [Path.extend, Function.comp_def]

theorem follow_fst (a : Automaton) (symbol : Symbol) (sofar : OrderedSet StateName × Option Fired)
    (q : StateName) :
    (a.follow symbol sofar q).1 = sofar.1.insertAll (a.destinations q symbol).toList := by
  unfold follow OrderedSet.insertAll
  induction (a.destinations q symbol).toList generalizing sofar with
  | nil => rfl
  | cons r rs ih => exact ih (sofar.1.insert r, some ⟨q, symbol, r⟩)

/-- One symbol leads to all destinations of the states there are. -/
theorem advance_fst (a : Automaton) (symbol : Symbol) (current : OrderedSet StateName) :
    (a.advance symbol current).1 =
      .ofList (current.toList.flatMap fun q => (a.destinations q symbol).toList) := by
  unfold advance
  induction current.toList using List.reverseRecOn with
  | nil => rfl
  | append_singleton qs q ih =>
    rw [List.foldl_concat, follow_fst, ih, List.flatMap_append, List.flatMap_singleton,
      OrderedSet.ofList_append]

end Automaton

/-! ## The invariant of a run -/

namespace Snapshot

/-- A snapshot of the run of an automaton on a word. The verdict of a word
with symbols comes with its last symbol, so only on the empty word does a run
wait for the verdict with nothing left to read, and there the paths are never
judged. -/
structure OnRun (a : Automaton) (word : Word) (s : Snapshot) : Prop where
  input_eq : s.input = word
  length_eq : s.length = word.length
  step_le : s.step ≤ word.length
  step_eq : s.complete = true → s.step = word.length
  waiting : s.complete = false → s.step = word.length → word = []
  current_eq : s.current = a.statesAfter (word.take s.step)
  accepted_eq : s.accepted = (s.complete && s.current.meets a.accepting)
  paths_eq : s.paths = match a.kind with
    | .nfa => some ((a.runs (word.take s.step)).map (a.mark (s.complete && !word.isEmpty)))
    | .dfa => none

theorem onRun_start (a : Automaton) (word : Word) : (start a word).OnRun a word where
  input_eq := rfl
  length_eq := rfl
  step_le := Nat.zero_le _
  step_eq := fun h => by cases h
  waiting := fun _ h => List.eq_nil_of_length_eq_zero h.symm
  current_eq := rfl
  accepted_eq := rfl
  paths_eq := by
    unfold start
    cases a.kind <;> rfl

theorem onRun_resolve {a : Automaton} {word : Word} {s : Snapshot} (h : s.OnRun a word)
    (hc : s.complete = false) (hn : s.nextSymbol = none) : (s.resolve a).OnRun a word := by
  have hle : word.length ≤ s.step := by
    rw [← h.input_eq]
    exact List.getElem?_eq_none_iff.mp hn
  have hstep : s.step = word.length := Nat.le_antisymm h.step_le hle
  have hword : word = [] := h.waiting hc hstep
  refine ⟨h.input_eq, h.length_eq, h.step_le, fun _ => hstep, fun hc => ?_, h.current_eq, ?_, ?_⟩
  · cases hc
  · rfl
  · have hpaths := h.paths_eq
    rw [hc] at hpaths
    subst hword
    exact hpaths

/-- The next symbol goes to the end of what is read. -/
theorem consumed_consume (a : Automaton) (s : Snapshot) (c : Char) :
    (s.consume a c).consumed = s.consumed ++ s.nextSymbol.toList := List.take_add_one

theorem OnRun.take_step {a : Automaton} {word : Word} {s : Snapshot} {c : Char} (h : s.OnRun a word)
    (hn : s.nextSymbol = some c) : word.take (s.step + 1) = word.take s.step ++ [c] := by
  have hconsumed := consumed_consume a s c
  rw [hn] at hconsumed
  rw [← h.input_eq]
  exact hconsumed

theorem onRun_consume {a : Automaton} {word : Word} {s : Snapshot} {c : Char} (h : s.OnRun a word)
    (hn : s.nextSymbol = some c) : (s.consume a c).OnRun a word := by
  have htake := h.take_step hn
  have hlt : s.step < word.length := by
    rw [← h.input_eq]
    exact (List.getElem?_eq_some_iff.mp hn).1
  have hne : word.isEmpty = false := by
    cases word with
    | nil => simp at hlt
    | cons d word => rfl
  refine ⟨h.input_eq, h.length_eq, hlt, fun hc => ?_, fun hc hl => ?_, ?_, rfl, ?_⟩
  · have := of_decide_eq_true hc
    rw [h.length_eq] at this
    exact Nat.le_antisymm hlt this
  · have := of_decide_eq_false hc
    rw [h.length_eq] at this
    exact absurd (Nat.le_of_eq hl.symm) this
  · show (a.advance (.ofChar c) s.current).1 = a.statesAfter (word.take (s.step + 1))
    rw [htake, Automaton.statesAfter_concat, ← h.current_eq]
  · have hpaths := h.paths_eq
    unfold consume
    simp only [hpaths, htake, hne, Automaton.runs_concat, Bool.not_false, Bool.and_true]
    cases a.kind with
    | dfa => rfl
    | nfa =>
      simp only [Option.map_some, Option.some.injEq]
      rw [List.map_flatMap, List.flatMap_map]
      exact List.flatMap_congr fun qs _ => Automaton.branch_mark a c _ _ qs

theorem onRun_next {a : Automaton} {word : Word} {s t : Snapshot} (h : s.OnRun a word)
    (ht : s.next? a = some t) : t.OnRun a word := by
  obtain ⟨hc, ⟨hn, rfl⟩ | ⟨c, hn, rfl⟩⟩ := next?_cases ht
  · exact onRun_resolve h hc hn
  · exact onRun_consume h hn

end Snapshot

/-! ## Whole runs -/

namespace Automaton

theorem onRun_of_mem_trace {a : Automaton} {word : Word} {s : Snapshot} (h : s ∈ a.trace word) :
    s.OnRun a word :=
  Snapshot.forall_following (Snapshot.onRun_start a word) (fun _ _ => Snapshot.onRun_next) s h

theorem verdict_mem_trace (a : Automaton) (word : Word) : a.verdict word ∈ a.trace word :=
  Snapshot.finish_mem

theorem verdict_complete (a : Automaton) (word : Word) : (a.verdict word).complete = true :=
  Snapshot.complete_finish

/-- A run goes through every number of symbols read, up to the length of the word. -/
theorem trace_getElem? (a : Automaton) (word : Word) {k : Nat} (hk : k ≤ word.length) :
    ∃ s, (a.trace word)[k]? = some s ∧ s.step = k := by
  induction k with
  | zero => exact ⟨Snapshot.start a word, rfl, rfl⟩
  | succ k ih =>
    obtain ⟨s, hs, hstep⟩ := ih (Nat.le_of_succ_le hk)
    have hrun := onRun_of_mem_trace (List.mem_of_getElem? hs)
    have hc : s.complete = false := by
      rw [Bool.eq_false_iff]
      intro hc
      have := hrun.step_eq hc
      omega
    have hlt : s.step < s.input.length := by
      rw [hrun.input_eq]
      omega
    have hn : s.nextSymbol = some s.input[s.step] := List.getElem?_eq_getElem hlt
    refine ⟨s.consume a s.input[s.step], ?_, by rw [← hstep]; rfl⟩
    unfold trace at hs ⊢
    rw [Snapshot.following_getElem?_succ hs, Snapshot.next?_of_nextSymbol hc hn]

/-- The verdict comes when the whole word is read. -/
theorem take_step_verdict (a : Automaton) (word : Word) :
    word.take (a.verdict word).step = word := by
  have hrun := onRun_of_mem_trace (verdict_mem_trace a word)
  apply List.take_of_length_le
  exact Nat.le_of_eq (hrun.step_eq (verdict_complete a word)).symm

theorem accepts_eq (a : Automaton) (word : Word) :
    a.accepts word = (a.statesAfter word).meets a.accepting := by
  have hrun := onRun_of_mem_trace (verdict_mem_trace a word)
  unfold accepts
  rw [hrun.accepted_eq, verdict_complete, Bool.true_and, hrun.current_eq, take_step_verdict]

end Automaton

end Stepwise
