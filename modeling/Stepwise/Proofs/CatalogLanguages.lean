-- The languages of the automata in the catalog. For each of them, the states of a
-- run say something about the word that was read: the remainder of its number, the
-- parity of its zeros, or how it ends. A character that is no binary digit ends
-- every run.
import Mathlib.Data.Nat.Digits.Defs
import Mathlib.Algebra.Group.Nat.Even
import Stepwise.Catalog
import Stepwise.Proofs.SameRelation

namespace Stepwise

/-! ## What the states of a run say -/

namespace Automaton

/-- After each word the run is in exactly the states of which `holds` is true. -/
structure Tracks (a : Automaton) (holds : Word → StateName → Prop) : Prop where
  start : ∀ q, holds [] q ↔ q = a.initial
  step : ∀ word c q, holds (word ++ [c]) q ↔ ∃ p, holds word p ∧ a.table.Leads p c q

namespace Tracks

variable {a : Automaton} {holds : Word → StateName → Prop}

theorem mem_statesAfter_iff (h : a.Tracks holds) (word : Word) (q : StateName) :
    q ∈ a.statesAfter word ↔ holds word q := by
  induction word using List.reverseRecOn generalizing q with
  | nil =>
    rw [h.start]
    exact List.mem_singleton
  | append_singleton word c ih =>
    rw [statesAfter_concat, mem_advance, h.step]
    simp only [ih]

theorem accepts_iff (h : a.Tracks holds) (word : Word) :
    a.accepts word = true ↔ ∃ q, holds word q ∧ q ∈ a.accepting := by
  simp only [accepts_eq, OrderedSet.meets_iff, h.mem_statesAfter_iff]

end Tracks

end Automaton

/-! ## Binary words -/

namespace Word

def Binary (word : Word) : Prop := ∀ c ∈ word, c = '0' ∨ c = '1'

def digit (c : Char) : Nat := if c = '1' then 1 else 0

/-- The number that a binary word stands for. The empty word stands for zero. -/
def value (word : Word) : Nat := Nat.ofDigits 2 (word.reverse.map digit)

theorem binary_concat {word : Word} {c : Char} :
    Binary (word ++ [c]) ↔ Binary word ∧ (c = '0' ∨ c = '1') := by
  simp [Binary, or_imp, forall_and]

theorem value_concat (word : Word) (c : Char) : value (word ++ [c]) = 2 * value word + digit c := by
  simp [value, Nat.ofDigits_cons, Nat.add_comm]

example : value ['1', '1', '0'] = 6 := by decide

end Word

namespace Catalog

open Word Automaton

theorem ofChar_eq_zero_iff {c : Char} : Symbol.ofChar c = "0" ↔ c = '0' := by
  simp [Symbol.ofChar, ← String.toList_inj]

theorem ofChar_eq_one_iff {c : Char} : Symbol.ofChar c = "1" ↔ c = '1' := by
  simp [Symbol.ofChar, ← String.toList_inj]

/-! ## Automata that remember one thing -/

/-- On binary words the automaton is in one state, and that state stands for what
is remembered of the word. -/
structure Remembers (a : Automaton) (memory : Word → Nat) (state : Nat → StateName) : Prop where
  start : a.initial = state (memory [])
  step : ∀ word c q, a.table.Leads (state (memory word)) c q ↔
    c = '0' ∧ q = state (memory (word ++ ['0'])) ∨ c = '1' ∧ q = state (memory (word ++ ['1']))

namespace Remembers

variable {a : Automaton} {memory : Word → Nat} {state : Nat → StateName}

theorem tracks (h : Remembers a memory state) :
    a.Tracks fun word q => Binary word ∧ q = state (memory word) where
  start q := by simp [h.start, Binary]
  step word c q := by
    rw [binary_concat]
    constructor
    · rintro ⟨⟨hword, rfl | rfl⟩, hq⟩
      · exact ⟨_, ⟨hword, rfl⟩, (h.step word _ q).mpr (.inl ⟨rfl, hq⟩)⟩
      · exact ⟨_, ⟨hword, rfl⟩, (h.step word _ q).mpr (.inr ⟨rfl, hq⟩)⟩
    · rintro ⟨_, ⟨hword, rfl⟩, hlead⟩
      rcases (h.step word c q).mp hlead with ⟨rfl, hq⟩ | ⟨rfl, hq⟩
      · exact ⟨⟨hword, .inl rfl⟩, hq⟩
      · exact ⟨⟨hword, .inr rfl⟩, hq⟩

theorem accepts_iff (h : Remembers a memory state) (word : Word) :
    a.accepts word = true ↔ Binary word ∧ state (memory word) ∈ a.accepting := by
  simp [h.tracks.accepts_iff]

end Remembers

/-! ## Remainders by three -/

def remainder (word : Word) : Nat := value word % 3

theorem remainder_lt (word : Word) : remainder word < 3 := Nat.mod_lt _ (by decide)

/-- A table that reads the digits from the highest on, whatever its states are
called. -/
theorem remembers_remainder {a : Automaton} {state : Nat → StateName} (hstart : a.initial = state 0)
    (hstep : ∀ r < 3, ∀ c q, a.table.Leads (state r) c q ↔
      c = '0' ∧ q = state (2 * r % 3) ∨ c = '1' ∧ q = state ((2 * r + 1) % 3)) :
    Remembers a remainder state where
  start := hstart
  step word c q := by
    have hzero : remainder (word ++ ['0']) = 2 * remainder word % 3 := by
      simp [remainder, value_concat, digit]
    have hone : remainder (word ++ ['1']) = (2 * remainder word + 1) % 3 := by
      simp [remainder, value_concat, digit, Nat.add_mod]
    rw [hzero, hone]
    exact hstep (remainder word) (remainder_lt word) c q

/-- The states of `binaryDivisibleByThree`, by the remainder they stand for. -/
def threeState : Nat → StateName
  | 0 => "r0"
  | 1 => "r1"
  | _ => "r2"

/-- The states of `defaultDfa`, by the remainder they stand for. -/
def defaultState : Nat → StateName
  | 0 => "q1"
  | 1 => "q2"
  | _ => "q0"

theorem binaryDivisibleByThree_remembers : Remembers binaryDivisibleByThree remainder threeState := by
  have htriples : binaryDivisibleByThree.table.triples =
      [⟨"r0", "0", "r0"⟩, ⟨"r0", "1", "r1"⟩, ⟨"r1", "0", "r2"⟩, ⟨"r1", "1", "r0"⟩,
       ⟨"r2", "0", "r1"⟩, ⟨"r2", "1", "r2"⟩] := by decide
  refine remembers_remainder rfl fun r hr c q => ?_
  rw [Table.leads_iff, htriples]
  match r, hr with
  | 0, _ | 1, _ | 2, _ => simp [threeState, ofChar_eq_zero_iff, ofChar_eq_one_iff]

theorem defaultDfa_remembers : Remembers defaultDfa remainder defaultState := by
  have htriples : defaultDfa.table.triples =
      [⟨"q0", "0", "q2"⟩, ⟨"q0", "1", "q0"⟩, ⟨"q1", "0", "q1"⟩, ⟨"q1", "1", "q2"⟩,
       ⟨"q2", "0", "q0"⟩, ⟨"q2", "1", "q1"⟩] := by decide
  refine remembers_remainder rfl fun r hr c q => ?_
  rw [Table.leads_iff, htriples]
  match r, hr with
  | 0, _ | 1, _ | 2, _ => simp [defaultState, ofChar_eq_zero_iff, ofChar_eq_one_iff]

theorem accepts_iff_dvd_value {a : Automaton} {state : Nat → StateName}
    (h : Remembers a remainder state) (haccepting : ∀ r < 3, state r ∈ a.accepting ↔ r = 0)
    (word : Word) : a.accepts word = true ↔ Binary word ∧ 3 ∣ value word := by
  rw [h.accepts_iff, haccepting _ (remainder_lt word), Nat.dvd_iff_mod_eq_zero]
  rfl

theorem binaryDivisibleByThree_accepts_iff (word : Word) :
    binaryDivisibleByThree.accepts word = true ↔ Binary word ∧ 3 ∣ value word :=
  accepts_iff_dvd_value binaryDivisibleByThree_remembers (by decide) word

theorem defaultDfa_accepts_iff (word : Word) :
    defaultDfa.accepts word = true ↔ Binary word ∧ 3 ∣ value word :=
  accepts_iff_dvd_value defaultDfa_remembers (by decide) word

/-! ## Zeros -/

/-- The states of `evenNumberOfZeros`, by the parity they stand for. -/
def parityState : Nat → StateName
  | 0 => "even"
  | _ => "odd"

theorem evenNumberOfZeros_remembers :
    Remembers evenNumberOfZeros (fun word => word.count '0' % 2) parityState where
  start := rfl
  step word c q := by
    have htriples : evenNumberOfZeros.table.triples =
        [⟨"even", "0", "odd"⟩, ⟨"even", "1", "even"⟩, ⟨"odd", "0", "even"⟩,
         ⟨"odd", "1", "odd"⟩] := by decide
    rw [Table.leads_iff, htriples]
    rcases Nat.mod_two_eq_zero_or_one (word.count '0') with h | h
    · simp [h, Nat.add_mod, parityState, ofChar_eq_zero_iff, ofChar_eq_one_iff]
    · simp [h, Nat.add_mod, parityState, ofChar_eq_zero_iff, ofChar_eq_one_iff]

theorem evenNumberOfZeros_accepts_iff (word : Word) :
    evenNumberOfZeros.accepts word = true ↔ Binary word ∧ Even (word.count '0') := by
  have haccepting : ∀ n < 2, parityState n ∈ evenNumberOfZeros.accepting ↔ n = 0 := by decide
  rw [evenNumberOfZeros_remembers.accepts_iff, haccepting _ (Nat.mod_lt _ (by decide)),
    Nat.even_iff]

/-! ## Endings -/

theorem zero_suffix_concat_iff {word : Word} {c : Char} : ['0'] <:+ word ++ [c] ↔ c = '0' := by
  constructor
  · rintro ⟨before, h⟩
    exact (List.singleton_inj.mp (List.append_inj' h rfl).2).symm
  · rintro rfl
    exact List.suffix_append word ['0']

theorem zero_one_suffix_concat_iff {word : Word} {c : Char} :
    ['0', '1'] <:+ word ++ [c] ↔ c = '1' ∧ ['0'] <:+ word := by
  constructor
  · rintro ⟨before, h⟩
    have hsplit : (before ++ ['0']) ++ ['1'] = word ++ [c] := by simpa using h
    obtain ⟨hword, hc⟩ := List.append_inj' hsplit rfl
    exact ⟨(List.singleton_inj.mp hc).symm, before, hword⟩
  · rintro ⟨rfl, before, rfl⟩
    exact ⟨before, by simp⟩

theorem exampleNfa_leads_iff {p q : StateName} {c : Char} : exampleNfa.table.Leads p c q ↔
    p = "q0" ∧ (c = '0' ∨ c = '1') ∧ q = "q0" ∨ p = "q0" ∧ c = '0' ∧ q = "q1" ∨
      p = "q1" ∧ c = '1' ∧ q = "q2" := by
  have htriples : exampleNfa.table.triples =
      [⟨"q0", "0", "q0"⟩, ⟨"q0", "0", "q1"⟩, ⟨"q0", "1", "q0"⟩, ⟨"q1", "1", "q2"⟩] := by decide
  rw [Table.leads_iff, htriples]
  simp only [List.mem_cons, List.not_mem_nil, Triple.mk.injEq, ofChar_eq_zero_iff,
    ofChar_eq_one_iff]
  tauto

/-- The run stays in the first state, and at each zero it guesses that the word is
about to end. -/
theorem exampleNfa_tracks : exampleNfa.Tracks fun word q => Binary word ∧
    (q = "q0" ∨ q = "q1" ∧ ['0'] <:+ word ∨ q = "q2" ∧ ['0', '1'] <:+ word) where
  start q := by
    show _ ↔ q = "q0"
    simp [Binary]
  step word c q := by
    simp only [binary_concat, zero_suffix_concat_iff, zero_one_suffix_concat_iff,
      exampleNfa_leads_iff]
    constructor
    · rintro ⟨⟨hword, hc⟩, rfl | ⟨rfl, rfl⟩ | ⟨rfl, rfl, hend⟩⟩
      · exact ⟨"q0", ⟨hword, .inl rfl⟩, .inl ⟨rfl, hc, rfl⟩⟩
      · exact ⟨"q0", ⟨hword, .inl rfl⟩, .inr (.inl ⟨rfl, rfl, rfl⟩)⟩
      · exact ⟨"q1", ⟨hword, .inr (.inl ⟨rfl, hend⟩)⟩, .inr (.inr ⟨rfl, rfl, rfl⟩)⟩
    · rintro ⟨p, ⟨hword, hp⟩, ⟨rfl, hc, rfl⟩ | ⟨rfl, rfl, rfl⟩ | ⟨rfl, rfl, rfl⟩⟩
      · exact ⟨⟨hword, hc⟩, .inl rfl⟩
      · exact ⟨⟨hword, .inl rfl⟩, .inr (.inl ⟨rfl, rfl⟩)⟩
      · have hend : ['0'] <:+ word := by simpa using hp
        exact ⟨⟨hword, .inr rfl⟩, .inr (.inr ⟨rfl, rfl, hend⟩)⟩

theorem exampleNfa_accepts_iff (word : Word) :
    exampleNfa.accepts word = true ↔ Binary word ∧ ['0', '1'] <:+ word := by
  have haccepting : ∀ q, q ∈ exampleNfa.accepting ↔ q = "q2" := fun q => List.mem_singleton
  simp [exampleNfa_tracks.accepts_iff, haccepting]

/-! ## The catalog -/

/-- What the automata of the catalog accept. All of their words are binary ones. -/
theorem the_catalog_has_its_languages (word : Word) :
    (binaryDivisibleByThree.accepts word = true ↔ Binary word ∧ 3 ∣ value word) ∧
    defaultDfa.accepts word = binaryDivisibleByThree.accepts word ∧
    (evenNumberOfZeros.accepts word = true ↔ Binary word ∧ Even (word.count '0')) ∧
    (exampleNfa.accepts word = true ↔ Binary word ∧ ['0', '1'] <:+ word) := by
  refine ⟨binaryDivisibleByThree_accepts_iff word, ?_, evenNumberOfZeros_accepts_iff word,
    exampleNfa_accepts_iff word⟩
  rw [Bool.eq_iff_iff, defaultDfa_accepts_iff, binaryDivisibleByThree_accepts_iff]

end Catalog

end Stepwise
