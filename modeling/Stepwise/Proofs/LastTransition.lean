-- The transition that a snapshot remembers. Many may fire on one symbol, and each
-- takes the place of the one before it. So the one that stays comes from the last
-- state that leads anywhere; states that lead nowhere leave it as it is.
import Stepwise.Proofs.Determinism
import Stepwise.Proofs.SameRelation

namespace Stepwise

namespace Automaton

variable {a : Automaton} {symbol : Symbol} {current : OrderedSet StateName} {f : Fired}

/-! ## One symbol -/

/-- The last transition that a state fires on a symbol, if it fires any. -/
def lastFrom (a : Automaton) (symbol : Symbol) (q : StateName) : Option Fired :=
  (a.destinations q symbol).toList.getLast?.map fun r => ⟨q, symbol, r⟩

/-- The transition leaves the last of the states that lead anywhere on the symbol,
for the last of its destinations. -/
structure FiresLast (a : Automaton) (symbol : Symbol) (current : OrderedSet StateName)
    (f : Fired) : Prop where
  symbol_eq : f.symbol = symbol
  source_last : ∃ before after, current.toList = before ++ f.source :: after ∧
    ∀ q ∈ after, a.destinations q symbol = ∅
  target_last : (a.destinations f.source symbol).toList.getLast? = some f.target

theorem lastFrom_eq_none_iff {q : StateName} :
    a.lastFrom symbol q = none ↔ a.destinations q symbol = ∅ := by
  rw [← OrderedSet.isEmpty_iff]
  simp [lastFrom, OrderedSet.isEmpty]

theorem lastFrom_eq_some_iff {q : StateName} : a.lastFrom symbol q = some f ↔
    f.source = q ∧ f.symbol = symbol ∧ (a.destinations q symbol).toList.getLast? = some f.target := by
  unfold lastFrom
  rw [Option.map_eq_some_iff]
  constructor
  · rintro ⟨r, hr, rfl⟩
    exact ⟨rfl, rfl, hr⟩
  · rintro ⟨rfl, rfl, hr⟩
    exact ⟨f.target, hr, rfl⟩

/-- What a state fires replaces what the states before it fired. -/
theorem follow_snd (a : Automaton) (symbol : Symbol) (sofar : OrderedSet StateName × Option Fired)
    (q : StateName) : (a.follow symbol sofar q).2 = (a.lastFrom symbol q).or sofar.2 := by
  unfold follow lastFrom
  induction (a.destinations q symbol).toList using List.reverseRecOn with
  | nil => rfl
  | append_singleton rs r ih => simp

/-- The states are asked from the last one on. -/
theorem advance_snd (a : Automaton) (symbol : Symbol) (current : OrderedSet StateName) :
    (a.advance symbol current).2 = current.toList.reverse.findSome? (a.lastFrom symbol) := by
  unfold advance
  induction current.toList using List.reverseRecOn with
  | nil => rfl
  | append_singleton qs q ih =>
    rw [List.foldl_concat, follow_snd, ih, List.reverse_append]
    cases h : a.lastFrom symbol q <;> simp [h]

theorem advance_snd_eq_none_iff :
    (a.advance symbol current).2 = none ↔ ∀ q ∈ current, a.destinations q symbol = ∅ := by
  simp [advance_snd, lastFrom_eq_none_iff]

theorem advance_snd_eq_some_iff :
    (a.advance symbol current).2 = some f ↔ a.FiresLast symbol current f := by
  rw [advance_snd, List.findSome?_eq_some_iff]
  constructor
  · rintro ⟨after, q, before, hcurrent, hq, hafter⟩
    obtain ⟨rfl, hsymbol, htarget⟩ := lastFrom_eq_some_iff.mp hq
    refine ⟨hsymbol, ⟨before.reverse, after.reverse, ?_, ?_⟩, htarget⟩
    · simpa using congrArg List.reverse hcurrent
    · intro q hq
      exact lastFrom_eq_none_iff.mp (hafter q (List.mem_reverse.mp hq))
  · rintro ⟨hsymbol, ⟨before, after, hcurrent, hafter⟩, htarget⟩
    refine ⟨after.reverse, f.source, before.reverse, by simp [hcurrent],
      lastFrom_eq_some_iff.mpr ⟨rfl, hsymbol, htarget⟩, ?_⟩
    intro q hq
    exact lastFrom_eq_none_iff.mpr (hafter q (List.mem_reverse.mp hq))

theorem advance_fst_eq_empty_iff :
    (a.advance symbol current).1 = ∅ ↔ ∀ q ∈ current, a.destinations q symbol = ∅ := by
  simp only [OrderedSet.eq_empty_iff, advance_fst, OrderedSet.mem_ofList, List.mem_flatMap,
    OrderedSet.mem_toList, not_exists, not_and]
  exact ⟨fun h q hq r => h r q hq, fun h r q hq => h q hq r⟩

namespace FiresLast

variable (h : a.FiresLast symbol current f)

include h

theorem target_mem_destinations : f.target ∈ a.destinations f.source symbol :=
  List.mem_of_getLast? h.target_last

theorem source_mem : f.source ∈ current := by
  obtain ⟨before, after, hcurrent, -⟩ := h.source_last
  rw [← OrderedSet.mem_toList, hcurrent]
  simp

theorem target_mem : f.target ∈ (a.advance symbol current).1 := by
  rw [advance_fst, OrderedSet.mem_ofList, List.mem_flatMap]
  exact ⟨f.source, h.source_mem, h.target_mem_destinations⟩

theorem mem_triples : ⟨f.source, f.symbol, f.target⟩ ∈ a.table.triples := by
  rw [Table.mem_triples, h.symbol_eq]
  exact Table.mem_destinations.mp h.target_mem_destinations

end FiresLast

end Automaton

/-! ## One step -/

namespace Snapshot

variable {a : Automaton} {s t : Snapshot} {c : Char}

/-- The step from the first snapshot to the second reads a symbol. Where no state
leads anywhere on it, no state and no transition is left. Else the transition is the
last one of the last state that leads anywhere, and the run is in its target. -/
structure RecordsLast (a : Automaton) (c : Char) (s t : Snapshot) : Prop where
  nothing_fired : (∀ q ∈ s.current, a.destinations q (.ofChar c) = ∅) →
    t.current = ∅ ∧ t.last = none
  fired : (∃ q ∈ s.current, a.destinations q (.ofChar c) ≠ ∅) →
    ∃ f, t.last = some f ∧ a.FiresLast (.ofChar c) s.current f ∧ f.target ∈ t.current

theorem recordsLast_consume (a : Automaton) (s : Snapshot) (c : Char) :
    RecordsLast a c s (s.consume a c) where
  nothing_fired h :=
    ⟨Automaton.advance_fst_eq_empty_iff.mpr h, Automaton.advance_snd_eq_none_iff.mpr h⟩
  fired h := by
    have hsome : (a.advance (.ofChar c) s.current).2 ≠ none := by
      rw [Ne, Automaton.advance_snd_eq_none_iff]
      simpa using h
    obtain ⟨f, hf⟩ := Option.ne_none_iff_exists'.mp hsome
    have hlast := Automaton.advance_snd_eq_some_iff.mp hf
    exact ⟨f, hf, hlast, hlast.target_mem⟩

theorem RecordsLast.of_next (h : s.next? a = some t) (hc : s.nextSymbol = some c) :
    RecordsLast a c s t := by
  obtain ⟨-, ⟨hnone, -⟩ | ⟨d, hd, rfl⟩⟩ := next?_cases h
  · cases hnone.symm.trans hc
  · cases hd.symm.trans hc
    exact recordsLast_consume a s c

/-! ## Whole runs -/

/-- The transition that the snapshot remembers is one of the table. It was fired by
the symbol that was read last, and the run is in its target. There is none only
before the first symbol and in a dead run. -/
structure LastIsReal (a : Automaton) (s : Snapshot) : Prop where
  none_iff : s.last = none ↔ s.step = 0 ∨ s.isDead = true
  mem_triples : ∀ f, s.last = some f → ⟨f.source, f.symbol, f.target⟩ ∈ a.table.triples
  symbol_eq : ∀ f, s.last = some f → s.consumed.getLast?.map Symbol.ofChar = some f.symbol
  target_mem : ∀ f, s.last = some f → f.target ∈ s.current

theorem lastIsReal_start (a : Automaton) (word : Word) : (start a word).LastIsReal a where
  none_iff := ⟨fun _ => .inl rfl, fun _ => rfl⟩
  mem_triples _ h := by cases h
  symbol_eq _ h := by cases h
  target_mem _ h := by cases h

theorem lastIsReal_consume (hc : s.nextSymbol = some c) : (s.consume a c).LastIsReal a := by
  have hfired : ∀ f, (s.consume a c).last = some f → a.FiresLast (.ofChar c) s.current f :=
    fun f => Automaton.advance_snd_eq_some_iff.mp
  refine ⟨?_, fun f hf => (hfired f hf).mem_triples, fun f hf => ?_,
    fun f hf => (hfired f hf).target_mem⟩
  · show (a.advance (.ofChar c) s.current).2 = none ↔ s.step + 1 = 0 ∨ _
    rw [isDead_iff, Automaton.advance_snd_eq_none_iff]
    show _ ↔ _ ∨ (a.advance (.ofChar c) s.current).1 = ∅
    simp [Automaton.advance_fst_eq_empty_iff]
  · rw [consumed_consume, hc, Option.toList_some, List.getLast?_concat, (hfired f hf).symbol_eq]
    rfl

theorem LastIsReal.next (h : s.LastIsReal a) (ht : s.next? a = some t) : t.LastIsReal a := by
  obtain ⟨-, ⟨-, rfl⟩ | ⟨c, hc, rfl⟩⟩ := next?_cases ht
  · exact ⟨h.none_iff, h.mem_triples, h.symbol_eq, h.target_mem⟩
  · exact lastIsReal_consume hc

end Snapshot

namespace Automaton

/-- Every step that reads a symbol, from whatever snapshot, records the transition
that fired last. So the transition that a snapshot of a run remembers is a real one. -/
theorem the_last_transition_is_a_real_one (a : Automaton) :
    (∀ (s t : Snapshot) (c : Char), s.next? a = some t → s.nextSymbol = some c →
      Snapshot.RecordsLast a c s t) ∧
    ∀ (word : Word), ∀ s ∈ a.trace word, s.LastIsReal a := by
  refine ⟨fun s t c => Snapshot.RecordsLast.of_next, fun word s hs => ?_⟩
  exact Snapshot.forall_following (Snapshot.lastIsReal_start a word)
    (fun _ _ => Snapshot.LastIsReal.next) s hs

/-- The run of `forked` after one symbol, in three states. Only the middle one leads
anywhere, by two entries. -/
def forkedOnce : Snapshot := (Snapshot.start forked ['a', 'a']).consume forked 'a'

example : forkedOnce.current.toList = ["q", "p", "r"] := by decide

theorem forked_remembers_its_middle_state :
    forkedOnce.next? forked = some (forkedOnce.consume forked 'a') ∧
    forkedOnce.nextSymbol = some 'a' ∧
    (∃ q ∈ forkedOnce.current, forked.destinations q (.ofChar 'a') ≠ ∅) ∧
    (∃ f, (forkedOnce.consume forked 'a').last = some f ∧
      forked.FiresLast (.ofChar 'a') forkedOnce.current f ∧
      f.target ∈ (forkedOnce.consume forked 'a').current) ∧
    (forkedOnce.consume forked 'a').last = some ⟨"p", "a", "r"⟩ := by
  have hread : forkedOnce.nextSymbol = some 'a' := rfl
  have hnext : forkedOnce.next? forked = some (forkedOnce.consume forked 'a') :=
    Snapshot.next?_of_nextSymbol rfl hread
  have hleads : ∃ q ∈ forkedOnce.current, forked.destinations q (.ofChar 'a') ≠ ∅ := by
    refine ⟨"p", by decide, ?_⟩
    rw [Ne, OrderedSet.eq_empty_iff]
    exact fun h => h "r" (by decide)
  have hrecords := (the_last_transition_is_a_real_one forked).1 _ _ _ hnext hread
  exact ⟨hnext, hread, hleads, hrecords.fired hleads, by decide⟩

end Automaton

end Stepwise
