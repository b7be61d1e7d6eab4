-- Three ways to the verdict: to look for the end of the run, to step on by hand
-- for a while and then play, and to run a batch of inputs. They take the same
-- steps, so they agree, on the empty word and on runs that die as well.
import Stepwise.Proofs.StepCount

namespace Stepwise

/-! ## Steps by hand -/

namespace History

variable {h : History} {a : Automaton}

/-- The history some steps on. None of the steps may be refused. -/
def forwards (h : History) (a : Automaton) : Nat → Option History
  | 0 => some h
  | j + 1 => (h.forwards a j).bind fun k => k.forward a

/-- A step by hand takes one from the steps of a play and changes nothing else of it. -/
theorem exists_forward (hleft : 0 < h.stepsToPlay a) :
    ∃ k, h.forward a = some k ∧ k.play a = h.play a ∧ k.stepsToPlay a = h.stepsToPlay a - 1 := by
  cases hk : h.forward a with
  | none =>
    rw [(play_of_forward_eq_none hk).2] at hleft
    exact absurd hleft (Nat.lt_irrefl 0)
  | some k =>
    obtain ⟨hplay, hsteps⟩ := play_of_forward_eq_some hk
    exact ⟨k, rfl, hplay.symm, by omega⟩

theorem exists_forwards {j : Nat} (hj : j ≤ h.stepsToPlay a) :
    ∃ k, h.forwards a j = some k ∧ k.play a = h.play a ∧ k.stepsToPlay a = h.stepsToPlay a - j := by
  induction j with
  | zero => exact ⟨h, rfl, rfl, rfl⟩
  | succ j ih =>
    obtain ⟨k, hk, hplay, hsteps⟩ := ih (Nat.le_of_succ_le hj)
    obtain ⟨l, hl, hplay', hsteps'⟩ := exists_forward (h := k) (a := a) (by omega)
    refine ⟨l, ?_, hplay'.trans hplay, by omega⟩
    rw [forwards, hk]
    exact hl

end History

/-! ## Batches -/

namespace Automaton

open Text

/-- The results of a batch are in order for the inputs that are not blank, each
as it was given, with the verdict of its run. -/
structure BatchAgrees (a : Automaton) (inputs : List String) : Prop where
  inputs_eq : (a.runBatch inputs).map BatchResult.input =
    inputs.filter fun input => input.toList.any fun c => !isBlank c
  verdicts : ∀ r ∈ a.runBatch inputs, r.accepted = (a.verdict r.input.toList).accepted

theorem batchAgrees (a : Automaton) (inputs : List String) : a.BatchAgrees inputs where
  inputs_eq := by
    unfold runBatch
    rw [List.map_map]
    refine (List.map_id' _).trans (List.filter_congr ?_)
    intro input _
    exact List.not_all_eq_any_not
  verdicts := by
    intro r hr
    obtain ⟨input, _, rfl⟩ := List.mem_map.mp hr
    rfl

/-! ## All drivers -/

/-- From the start of a history any number of steps can be taken by hand, up to
the length of the run. A play then takes the rest of them and comes to the
snapshot in which the run ends, whose verdict is that of the automaton. -/
structure DriversAgree (a : Automaton) (word : Word) : Prop where
  by_hand : ∀ j ≤ max word.length 1, ∃ h, (History.start a word).forwards a j = some h ∧
    (h.play a).current = a.verdict word ∧ h.stepsToPlay a = max word.length 1 - j
  accepts_eq : a.accepts word = (a.verdict word).accepted

theorem driversAgree (a : Automaton) (word : Word) : a.DriversAgree word where
  by_hand := by
    intro j hj
    have hsteps : (History.start a word).stepsToPlay a = max word.length 1 :=
      ((History.start a word).stepsToPlay_eq a).trans (Snapshot.stepsLeft_start a word)
    obtain ⟨h, hh, hplay, hrest⟩ := History.exists_forwards (hsteps.symm ▸ hj)
    refine ⟨h, hh, ?_, hsteps ▸ hrest⟩
    rw [hplay, History.current_play]
    rfl
  accepts_eq := rfl

/-- However a run is driven to its end, it ends in the same snapshot. -/
theorem all_drivers_agree (a : Automaton) :
    (∀ word, a.DriversAgree word) ∧ ∀ inputs, a.BatchAgrees inputs :=
  ⟨a.driversAgree, a.batchAgrees⟩

end Automaton

end Stepwise
