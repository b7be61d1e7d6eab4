-- Sessions with a history. However one steps on, steps back, plays and starts
-- over, and whichever automata one steps with, the snapshots are always a row
-- of steps from the first one, each with the automaton it was pushed with. How
-- many symbols are read and whether the run is complete follows from the place
-- in the row alone.
import Stepwise.History
import Stepwise.Proofs.Run

namespace Stepwise

/-! ## The place of a snapshot -/

/-- What the place in a row of steps tells about a snapshot. On the empty word
one step is taken all the same, which gives the verdict and reads nothing. -/
structure Snapshot.StandsAt (word : Word) (i : Nat) (s : Snapshot) : Prop where
  input_eq : s.input = word
  length_eq : s.length = word.length
  place_le : i ≤ max word.length 1
  step_eq : s.step = min i word.length
  complete_iff : s.complete = true ↔ i = max word.length 1

namespace Snapshot

theorem standsAt_start (a : Automaton) (word : Word) : (start a word).StandsAt word 0 where
  input_eq := rfl
  length_eq := rfl
  place_le := Nat.zero_le _
  step_eq := (Nat.zero_min _).symm
  complete_iff := by
    constructor
    · intro h
      cases h
    · intro h
      omega

/-- A step goes one place on, with any automaton. -/
theorem StandsAt.next {a : Automaton} {word : Word} {i : Nat} {s t : Snapshot}
    (h : s.StandsAt word i) (ht : s.next? a = some t) : t.StandsAt word (i + 1) := by
  obtain ⟨hinput, hlength, hle, hstep, hcomplete⟩ := h
  obtain ⟨hrunning, hcase⟩ := next?_cases ht
  have hne : i ≠ max word.length 1 := by
    rw [Ne, ← hcomplete, hrunning]
    exact Bool.false_ne_true
  rcases hcase with ⟨hnone, rfl⟩ | ⟨c, hsome, rfl⟩
  · -- nothing is left to read before the last place, so the word is empty
    have hread : word.length ≤ s.step := by
      rw [← hinput]
      exact List.getElem?_eq_none_iff.mp hnone
    have hempty : word.length = 0 ∧ i = 0 := by omega
    exact ⟨hinput, hlength, by omega, hstep.trans (by omega), iff_of_true rfl (by omega)⟩
  · have hlt : s.step < word.length := by
      rw [← hinput]
      exact (List.getElem?_eq_some_iff.mp hsome).1
    refine ⟨hinput, hlength, by omega, ?_, ?_⟩
    · show s.step + 1 = min (i + 1) word.length
      omega
    · show decide (s.length ≤ s.step + 1) = true ↔ i + 1 = max word.length 1
      rw [decide_eq_true_eq, hlength]
      omega

end Snapshot

/-! ## Single moves -/

namespace History

variable {h k : History} {a : Automaton} {s t : Snapshot}

theorem snapshots_push (h : History) (s : Snapshot) : (h.push s).snapshots = h.snapshots ++ [s] := by
  simp [snapshots, push]

theorem length_snapshots (h : History) : h.snapshots.length = h.length := by
  simp [snapshots, length]

theorem getLast?_snapshots (h : History) : h.snapshots.getLast? = some h.current := by
  unfold snapshots current
  cases h.later with
  | nil => rfl
  | cons s later => rw [List.reverse_cons, ← List.cons_append, List.getLast?_concat, List.headD_cons]

theorem getElem?_snapshots_pred (h : History) : h.snapshots[h.length - 1]? = some h.current := by
  rw [← length_snapshots, ← List.getLast?_eq_getElem?, getLast?_snapshots]

theorem snapshots_push_getElem? {i : Nat} : (h.push s).snapshots[i]? = some t ↔
    h.snapshots[i]? = some t ∨ i = h.length ∧ s = t := by
  rw [snapshots_push, ← length_snapshots]
  rcases Nat.lt_trichotomy i h.snapshots.length with hi | rfl | hi
  · rw [List.getElem?_append_left hi]
    simp [Nat.ne_of_lt hi]
  · simp
  · rw [List.getElem?_eq_none (by simp; omega), List.getElem?_eq_none (Nat.le_of_lt hi)]
    simp [Nat.ne_of_gt hi]

theorem forward_eq_some_iff :
    h.forward a = some k ↔ ∃ s, h.current.next? a = some s ∧ h.push s = k := Option.map_eq_some_iff

/-- A step on is refused by a complete run only. -/
theorem forward_eq_none_iff : h.forward a = none ↔ h.current.complete = true :=
  Option.map_eq_none_iff.trans Snapshot.next?_eq_none_iff

/-- A step back undoes the latest push. -/
theorem backward_eq_some_iff : h.backward = some k ↔ ∃ s, k.push s = h := by
  obtain ⟨first, later⟩ := h
  obtain ⟨first', later'⟩ := k
  cases later with
  | nil => simp [backward, push]
  | cons s later => simp [backward, push, eq_comm]

/-- A step back is refused by the first snapshot only. -/
theorem backward_eq_none_iff : h.backward = none ↔ h.length = 1 := by
  unfold backward length
  cases h.later <;> simp

/-- To play is to step on until that is refused. -/
theorem play_of_forward_eq_none (hn : h.forward a = none) : h.play a = h ∧ h.stepsToPlay a = 0 := by
  have hfollowing := Snapshot.following_of_none (Option.map_eq_none_iff.mp hn)
  unfold play stepsToPlay
  rw [hfollowing]
  exact ⟨rfl, rfl⟩

theorem play_of_forward_eq_some (hk : h.forward a = some k) :
    h.play a = k.play a ∧ h.stepsToPlay a = k.stepsToPlay a + 1 := by
  obtain ⟨s, hs, rfl⟩ := forward_eq_some_iff.mp hk
  unfold play stepsToPlay
  rw [Snapshot.following_of_some hs]
  exact ⟨rfl, rfl⟩

end History

/-! ## Sessions -/

/-- A history and, for each of its snapshots after the first, the automaton it
was pushed with, the newest in front. -/
structure Session where
  history : History
  pushedWith : List Automaton

namespace Session

open History

def start (a : Automaton) (word : Word) : Session := ⟨.start a word, []⟩

def push (x : Session) (a : Automaton) (s : Snapshot) : Session :=
  ⟨x.history.push s, a :: x.pushedWith⟩

/-- The history moves as it does on its own. -/
def move (x : Session) (m : Move) : Session where
  history := x.history.move m
  pushedWith := match m with
    | .forward a => if (x.history.forward a).isSome then a :: x.pushedWith else x.pushedWith
    | .backward => x.pushedWith.tail
    | .play a => List.replicate (x.history.stepsToPlay a) a ++ x.pushedWith
    | .reset => []

def moveAll (x : Session) (moves : List Move) : Session := moves.foldl move x

variable {x : Session} {a b : Automaton} {word : Word} {k : History}

theorem history_moveAll (x : Session) (moves : List Move) :
    (x.moveAll moves).history = x.history.moveAll moves := by
  induction moves generalizing x with
  | nil => rfl
  | cons m moves ih => exact ih (x.move m)

theorem move_forward_of_none (hn : x.history.forward b = none) : x.move (.forward b) = x := by
  simp [move, History.move, hn]

theorem move_forward_of_some {s : Snapshot} (hs : x.history.current.next? b = some s) :
    x.move (.forward b) = x.push b s := by
  simp [move, History.move, push, forward_eq_some_iff.mpr ⟨s, hs, rfl⟩]

theorem move_play_of_none (hn : x.history.forward b = none) : x.move (.play b) = x := by
  obtain ⟨hplay, hsteps⟩ := play_of_forward_eq_none hn
  simp [move, History.move, hplay, hsteps]

theorem move_play_of_some {s : Snapshot} (hs : x.history.current.next? b = some s) :
    x.move (.play b) = (x.push b s).move (.play b) := by
  obtain ⟨hplay, hsteps⟩ := play_of_forward_eq_some (forward_eq_some_iff.mpr ⟨s, hs, rfl⟩)
  simp [move, History.move, push, hplay, hsteps, List.replicate_succ']

/-- Sessions that came about by steps on alone. -/
inductive Grown (a : Automaton) (word : Word) : Session → Prop
  | start : Grown a word (.start a word)
  | push {x : Session} {b : Automaton} {s : Snapshot} :
      Grown a word x → x.history.current.next? b = some s → Grown a word (x.push b s)

namespace Grown

theorem first_eq (h : Grown a word x) : x.history.first = .start a word := by
  induction h with
  | start => rfl
  | push _ _ ih => exact ih

theorem forward (h : Grown a word x) (b : Automaton) : Grown a word (x.move (.forward b)) := by
  cases hs : x.history.current.next? b with
  | none =>
    rw [move_forward_of_none (Option.map_eq_none_iff.mpr hs)]
    exact h
  | some s =>
    rw [move_forward_of_some hs]
    exact h.push hs

theorem backward (h : Grown a word x) : Grown a word (x.move .backward) := by
  cases h with
  | start => exact .start
  | push hx _ => exact hx

/-- The first snapshot stays, and it is that of the start. -/
theorem reset (h : Grown a word x) : Grown a word (x.move .reset) := by
  have hstart : x.move .reset = .start a word :=
    congrArg (fun first => (⟨⟨first, []⟩, []⟩ : Session)) h.first_eq
  rw [hstart]
  exact .start

theorem play (h : Grown a word x) (b : Automaton) : Grown a word (x.move (.play b)) := by
  generalize hcurrent : x.history.current = s
  induction s using Snapshot.following.induct b generalizing x with
  | case1 s hn =>
    rw [← hcurrent] at hn
    rw [move_play_of_none (Option.map_eq_none_iff.mpr hn)]
    exact h
  | case2 s t ht ih =>
    rw [← hcurrent] at ht
    rw [move_play_of_some ht]
    exact ih (h.push ht) rfl

theorem move (h : Grown a word x) (m : Move) : Grown a word (x.move m) := by
  cases m with
  | forward b => exact h.forward b
  | backward => exact h.backward
  | play b => exact h.play b
  | reset => exact h.reset

theorem moveAll (h : Grown a word x) (moves : List Move) : Grown a word (x.moveAll moves) := by
  induction moves generalizing x with
  | nil => exact h
  | cons m moves ih => exact ih (h.move m)

/-! ## What a row of steps holds -/

theorem length_pushedWith (h : Grown a word x) : x.pushedWith.length + 1 = x.history.length := by
  induction h with
  | start => rfl
  | push _ _ ih => exact congrArg (· + 1) ih

theorem standsAt (h : Grown a word x) {i : Nat} {s : Snapshot}
    (hs : x.history.snapshots[i]? = some s) : s.StandsAt word i := by
  induction h generalizing i s with
  | start =>
    cases i with
    | zero =>
      cases hs
      exact Snapshot.standsAt_start a word
    | succ i => cases hs
  | @push x b t _ hnext ih =>
    rcases snapshots_push_getElem?.mp hs with hs | ⟨rfl, rfl⟩
    · exact ih hs
    · have hlength : x.history.length - 1 + 1 = x.history.length := Nat.sub_add_cancel (by simp [length])
      rw [← hlength]
      exact (ih (getElem?_snapshots_pred x.history)).next hnext

/-- Each snapshot is the step of the one before it. -/
theorem stepped (h : Grown a word x) {i : Nat} {t : Snapshot}
    (ht : x.history.snapshots[i + 1]? = some t) : ∃ b s, x.pushedWith.reverse[i]? = some b ∧
      x.history.snapshots[i]? = some s ∧ s.next? b = some t := by
  induction h generalizing i t with
  | start => cases ht
  | @push x c u hx hnext ih =>
    have hwith : (x.push c u).pushedWith.reverse = x.pushedWith.reverse ++ [c] := List.reverse_cons
    have hlength : x.pushedWith.reverse.length = x.history.length - 1 := by
      rw [List.length_reverse, ← hx.length_pushedWith, Nat.add_sub_cancel]
    rw [hwith]
    rcases snapshots_push_getElem?.mp ht with ht | ⟨hi, rfl⟩
    · obtain ⟨b, s, hb, hs, hst⟩ := ih ht
      refine ⟨b, s, ?_, snapshots_push_getElem?.mpr (Or.inl hs), hst⟩
      rw [List.getElem?_append_left (List.getElem?_eq_some_iff.mp hb).1]
      exact hb
    · have hlast : i = x.history.length - 1 := by omega
      refine ⟨c, x.history.current, ?_, ?_, hnext⟩
      · rw [hlast, ← hlength]
        exact List.getElem?_concat_length
      · rw [hlast]
        exact snapshots_push_getElem?.mpr (Or.inl (getElem?_snapshots_pred x.history))

/-- With one automaton, the row is a part of the one run of this automaton. -/
theorem prefix_trace (h : Grown a word x) (hall : ∀ b ∈ x.pushedWith, b = a) :
    x.history.snapshots <+: a.trace word := by
  have hsame : ∀ (i : Nat) (s : Snapshot), x.history.snapshots[i]? = some s → (a.trace word)[i]? = some s := by
    intro i
    induction i with
    | zero =>
      intro s hs
      rw [← hs]
      exact congrArg some h.first_eq.symm
    | succ i ih =>
      intro t ht
      obtain ⟨b, s, hb, hs, hst⟩ := h.stepped ht
      rw [hall b (List.mem_reverse.mp (List.mem_of_getElem? hb))] at hst
      rw [← hst]
      exact Snapshot.following_getElem?_succ (ih s hs)
  rw [List.prefix_iff_getElem?]
  exact fun i hi => hsame i _ (List.getElem?_eq_getElem hi)

end Grown

/-! ## Sessions with one automaton -/

/-- A move that steps on with no other automaton. -/
def OnlyWith (a : Automaton) : Move → Prop
  | .forward b | .play b => b = a
  | .backward | .reset => True

theorem pushedWith_move {m : Move} (hm : OnlyWith a m) (hall : ∀ b ∈ x.pushedWith, b = a) :
    ∀ b ∈ (x.move m).pushedWith, b = a := by
  cases m with
  | forward c =>
    cases hm
    unfold move
    dsimp only
    split
    · exact List.forall_mem_cons.mpr ⟨rfl, hall⟩
    · exact hall
  | backward => exact fun b hb => hall b (List.mem_of_mem_tail hb)
  | play c =>
    cases hm
    intro b hb
    rcases List.mem_append.mp hb with hb | hb
    · exact List.eq_of_mem_replicate hb
    · exact hall b hb
  | reset => exact fun b hb => absurd hb List.not_mem_nil

theorem pushedWith_moveAll {moves : List Move} (hmoves : ∀ m ∈ moves, OnlyWith a m)
    (hall : ∀ b ∈ x.pushedWith, b = a) : ∀ b ∈ (x.moveAll moves).pushedWith, b = a := by
  induction moves generalizing x with
  | nil => exact hall
  | cons m moves ih =>
    rw [List.forall_mem_cons] at hmoves
    exact ih hmoves.2 (pushedWith_move hmoves.1 hall)

end Session

/-! ## All sessions -/

namespace History

/-- What holds of a history at every point of a session: how long it may be,
how it begins and goes on, what each snapshot has read, and what the next step
on and the next step back do. The automata are those that the snapshots after
the first were pushed with, from oldest to newest. -/
structure Faithful (a : Automaton) (word : Word) (pushedWith : List Automaton) (h : History) :
    Prop where
  length_pos : 1 ≤ h.length
  length_le : h.length ≤ max word.length 1 + 1
  length_pushedWith : pushedWith.length + 1 = h.length
  first : h.snapshots[0]? = some (.start a word)
  stepped : ∀ (i : Nat) (t : Snapshot), h.snapshots[i + 1]? = some t →
    ∃ b s, pushedWith[i]? = some b ∧ h.snapshots[i]? = some s ∧ s.next? b = some t
  consumed : ∀ (i : Nat) (s : Snapshot), h.snapshots[i]? = some s →
    s.step = min i word.length ∧ s.consumed = word.take i
  complete : ∀ (i : Nat) (s : Snapshot), h.snapshots[i]? = some s →
    (s.complete = true ↔ i = max word.length 1)
  forward_pushes : ∀ b k, h.forward b = some k ↔ ∃ s, h.current.next? b = some s ∧ h.push s = k
  forward_refuses : ∀ b, h.forward b = none ↔ h.current.complete = true
  backward_undoes : ∀ k, h.backward = some k ↔ ∃ s, k.push s = h
  backward_refuses : h.backward = none ↔ h.length = 1

theorem faithful_of_grown {a : Automaton} {word : Word} {x : Session} (h : x.Grown a word) :
    x.history.Faithful a word x.pushedWith.reverse where
  length_pos := Nat.succ_pos _
  length_le := by
    have hle := (h.standsAt (getElem?_snapshots_pred x.history)).place_le
    omega
  length_pushedWith := by rw [List.length_reverse, h.length_pushedWith]
  first := congrArg some h.first_eq
  stepped := fun _ _ => h.stepped
  consumed := fun i s hs => by
    have hplace := h.standsAt hs
    refine ⟨hplace.step_eq, ?_⟩
    rw [Snapshot.consumed, hplace.input_eq, hplace.step_eq, ← List.take_eq_take_min]
  complete := fun _ _ hs => (h.standsAt hs).complete_iff
  forward_pushes := fun _ _ => forward_eq_some_iff
  forward_refuses := fun _ => forward_eq_none_iff
  backward_undoes := fun _ => backward_eq_some_iff
  backward_refuses := backward_eq_none_iff

/-- At every point of every session the history is faithful, whichever automata
it was stepped with. If it was only ever stepped with the automaton of the
start, its snapshots are the first ones of the run of that automaton. -/
theorem every_session_is_faithful (a : Automaton) (word : Word) (moves : List Move) :
    ((start a word).moveAll moves).Faithful a word
      ((Session.start a word).moveAll moves).pushedWith.reverse ∧
    ((∀ m ∈ moves, Session.OnlyWith a m) →
      ((start a word).moveAll moves).snapshots <+: a.trace word) := by
  have hgrown : ((Session.start a word).moveAll moves).Grown a word :=
    Session.Grown.start.moveAll moves
  have hhistory : ((Session.start a word).moveAll moves).history = (start a word).moveAll moves :=
    Session.history_moveAll _ moves
  rw [← hhistory]
  refine ⟨faithful_of_grown hgrown, fun hmoves => hgrown.prefix_trace ?_⟩
  exact Session.pushedWith_moveAll hmoves fun _ hb => absurd hb List.not_mem_nil

end History

end Stepwise
