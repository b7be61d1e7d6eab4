-- What can be wrong with an automaton. Every problem has a place: the check
-- that meets it, the entry, the target. A report holds the problems that there
-- are, each once, in the order of their places, and nothing else, so there is
-- only one report of an automaton.
import Mathlib.Data.List.Forall2
import Mathlib.Data.List.Induction
import Mathlib.Data.List.Sort
import Stepwise.Diagnostic
import Stepwise.Proofs.Lookup
import Stepwise.Proofs.Paths

namespace Stepwise

/-! ## Orders by rank -/

/-- In the order of ranks a list is known by its elements. -/
theorem eq_of_pairwise_rank {α : Type} {rank : α → List Nat} {xs ys : List α}
    (hxs : xs.Pairwise fun x y => rank x < rank y) (hys : ys.Pairwise fun x y => rank x < rank y)
    (h : ∀ x, x ∈ xs ↔ x ∈ ys) : xs = ys := by
  have : Std.Irrefl fun x y => rank x < rank y := ⟨fun _ => List.lt_irrefl _⟩
  have : Std.Antisymm fun x y => rank x < rank y :=
    ⟨fun _ _ hxy hyx => absurd hyx (List.lt_asymm hxy)⟩
  exact hxs.eq_of_mem_iff hys h

/-! ## Places -/

/-- Where a problem shows: at the initial state, at an accepting state by its
number, or at an entry by its number, and there maybe at one of the targets. -/
inductive Place where
  | initial
  | accepting (i : Nat)
  | source (i : Nat)
  | symbol (i : Nat)
  | target (i j : Nat)
  | duplicate (i : Nat)
  | targets (i : Nat)
  | missing

namespace Place

/-- Places come by the check, then by the entry, then by the part of the entry. -/
@[simp]
def rank : Place → List Nat
  | initial => [0]
  | accepting i => [1, i]
  | source i => [2, i, 0]
  | symbol i => [2, i, 1]
  | target i j => [2, i, 2, j]
  | duplicate i => [3, i, 0]
  | targets i => [3, i, 1]
  | missing => [4]

@[simp]
def Before (p q : Place) : Prop := p.rank < q.rank

/-- Whether only a DFA can have a problem there. -/
@[simp]
def dfaOnly : Place → Bool
  | duplicate _ | targets _ | missing => true
  | _ => false

theorem before_of_dfaOnly {p q : Place} (hp : p.dfaOnly = false) (hq : q.dfaOnly = true) :
    p.Before q := by
  cases p <;> cases q <;> simp_all [List.cons_lt_cons_iff]

end Place

namespace Automaton

/-! ## Problems -/

/-- Keys come by their states, then by their symbols. -/
def keyRank (a : Automaton) (key : Key) : List Nat :=
  [a.states.toList.idxOf key.source, a.alphabet.toList.idxOf key.symbol]

/-- The keys are those of a state and a symbol that have no entry, each once and
in order. -/
structure Lacks (a : Automaton) (keys : List Key) : Prop where
  mem_iff : ∀ key, key ∈ keys ↔
    key.source ∈ a.states ∧ key.symbol ∈ a.alphabet ∧ ∀ e ∈ a.table.entries, e.key ≠ key
  ordered : keys.Pairwise fun k l => a.keyRank k < a.keyRank l

/-- The problem that an automaton has at a place. -/
inductive Problem (a : Automaton) : Place → Diagnostic → Prop
  | initial : a.initial ∉ a.states → Problem a .initial (.undefinedInitialState a.initial)
  | accepting {i : Nat} {q : StateName} : a.accepting.toList[i]? = some q → q ∉ a.states →
      Problem a (.accepting i) (.undefinedAcceptingState q)
  | source {i : Nat} {e : Entry} : a.table.entries[i]? = some e → e.key.source ∉ a.states →
      Problem a (.source i) (.undefinedSource e.key.source)
  | symbol {i : Nat} {e : Entry} : a.table.entries[i]? = some e → e.key.symbol ∉ a.alphabet →
      Problem a (.symbol i) (.undefinedSymbol e.key.symbol)
  | target {i j : Nat} {e : Entry} {q : StateName} : a.table.entries[i]? = some e →
      e.targets.toList[j]? = some q → q ∉ a.states →
      Problem a (.target i j) (.undefinedTarget q)
  | duplicate {h i : Nat} {d e : Entry} : a.kind = .dfa → h < i →
      a.table.entries[h]? = some d → a.table.entries[i]? = some e → d.key = e.key →
      Problem a (.duplicate i) (.duplicateKey e.key)
  | targets {i : Nat} {e : Entry} : a.kind = .dfa → a.table.entries[i]? = some e →
      2 ≤ e.targets.size → Problem a (.targets i) (.multipleTargets e.key)
  | missing {keys : List Key} : a.kind = .dfa → keys ≠ [] → a.Lacks keys →
      Problem a .missing (.incomplete keys)

/-- The list has what problems there are at some places, in their order. -/
def ListsAt (a : Automaton) (P : Place → Prop) (ds : List Diagnostic) : Prop :=
  ∃ ps : List Place, ps.Pairwise Place.Before ∧ List.Forall₂ a.Problem ps ds ∧
    ∀ p, p ∈ ps ↔ P p ∧ ∃ d, a.Problem p d

variable {a : Automaton} {P Q : Place → Prop} {ds es : List Diagnostic}

/-! ## Putting lists together -/

theorem ListsAt.congr (h : a.ListsAt P ds) (hPQ : ∀ p d, a.Problem p d → (P p ↔ Q p)) :
    a.ListsAt Q ds := by
  obtain ⟨ps, hordered, hrel, hmem⟩ := h
  refine ⟨ps, hordered, hrel, fun p => ?_⟩
  rw [hmem]
  refine ⟨?_, ?_⟩
  · rintro ⟨hp, d, hd⟩
    exact ⟨(hPQ p d hd).mp hp, d, hd⟩
  · rintro ⟨hq, d, hd⟩
    exact ⟨(hPQ p d hd).mpr hq, d, hd⟩

theorem listsAt_nil (h : ∀ p d, P p → ¬a.Problem p d) : a.ListsAt P [] := by
  refine ⟨[], List.Pairwise.nil, List.Forall₂.nil, fun p => ?_⟩
  refine ⟨fun hp => absurd hp List.not_mem_nil, ?_⟩
  rintro ⟨hp, d, hd⟩
  exact absurd hd (h p d hp)

/-- A check that looks at one place. -/
theorem listsAt_check {p : Place} {d : Diagnostic} {c : Prop} [Decidable c]
    (h : ∀ d', a.Problem p d' ↔ c ∧ d' = d) : a.ListsAt (· = p) (if c then [d] else []) := by
  by_cases hc : c
  · rw [if_pos hc]
    have hd : a.Problem p d := (h d).mpr ⟨hc, rfl⟩
    refine ⟨[p], List.pairwise_singleton _ _, .cons hd .nil, fun q => ?_⟩
    rw [List.mem_singleton]
    exact ⟨fun hq => ⟨hq, d, hq ▸ hd⟩, And.left⟩
  · rw [if_neg hc]
    apply listsAt_nil
    rintro _ d' rfl hd'
    exact hc ((h d').mp hd').1

theorem ListsAt.append (h : a.ListsAt P ds) (h' : a.ListsAt Q es)
    (hlt : ∀ p q, P p → Q q → p.Before q) : a.ListsAt (fun p => P p ∨ Q p) (ds ++ es) := by
  obtain ⟨ps, hordered, hrel, hmem⟩ := h
  obtain ⟨qs, hordered', hrel', hmem'⟩ := h'
  refine ⟨ps ++ qs, ?_, List.rel_append hrel hrel', fun p => ?_⟩
  · rw [List.pairwise_append]
    exact ⟨hordered, hordered', fun p hp q hq => hlt p q ((hmem p).mp hp).1 ((hmem' q).mp hq).1⟩
  · rw [List.mem_append, hmem, hmem', or_and_right]

/-- A loop over the elements of a list, where each turn may look back at the
elements before its own. -/
theorem ListsAt.loop {α : Type} (report : List α → List Diagnostic)
    (turn : List α → α → List Diagnostic) {P : Nat → Place → Prop}
    (hnil : report [] = []) (hconcat : ∀ xs x, report (xs ++ [x]) = report xs ++ turn xs x)
    (hlt : ∀ i j, i < j → ∀ p q, P i p → P j q → p.Before q) (xs : List α)
    (hturn : ∀ i x, xs[i]? = some x → a.ListsAt (P i) (turn (xs.take i) x)) :
    a.ListsAt (fun p => ∃ i < xs.length, P i p) (report xs) := by
  induction xs using List.reverseRecOn with
  | nil =>
    rw [hnil]
    apply listsAt_nil
    rintro p d ⟨i, hi, _⟩
    exact absurd hi (Nat.not_lt_zero i)
  | append_singleton xs x ih =>
    have hbefore : a.ListsAt (fun p => ∃ i < xs.length, P i p) (report xs) := by
      apply ih
      intro i y hy
      have hi := (List.getElem?_eq_some_iff.mp hy).1
      have := hturn i y (by rw [List.getElem?_append_left hi, hy])
      rwa [List.take_append_of_le_length (Nat.le_of_lt hi)] at this
    have hlast : a.ListsAt (P xs.length) (turn xs x) := by
      have := hturn xs.length x List.getElem?_concat_length
      rwa [List.take_left] at this
    rw [hconcat]
    apply (hbefore.append hlast ?_).congr
    · intro p _ _
      simp only [List.length_append, List.length_singleton, Nat.lt_succ_iff_lt_or_eq, or_and_right,
        exists_or, exists_eq_left]
    · rintro p q ⟨i, hi, hp⟩ hq
      exact hlt i xs.length hi p q hp hq

/-! ## The missing keys -/

theorem mem_missingKeys {key : Key} : key ∈ a.missingKeys ↔
    key.source ∈ a.states ∧ key.symbol ∈ a.alphabet ∧ ∀ e ∈ a.table.entries, e.key ≠ key := by
  have hnone : (!a.table.hasKey key) = true ↔ ∀ e ∈ a.table.entries, e.key ≠ key := by
    rw [Bool.not_eq_true', Bool.eq_false_iff, Ne, Table.hasKey_iff, not_exists]
    simp only [not_and, ne_eq]
  unfold missingKeys
  rw [List.mem_filter, hnone, ← and_assoc]
  refine and_congr_left fun _ => ?_
  rw [List.mem_flatMap]
  refine ⟨?_, ?_⟩
  · rintro ⟨q, hq, hkey⟩
    obtain ⟨symbol, hsymbol, rfl⟩ := List.mem_map.mp hkey
    exact ⟨hq, hsymbol⟩
  · rintro ⟨hq, hsymbol⟩
    exact ⟨key.source, hq, List.mem_map.mpr ⟨key.symbol, hsymbol, rfl⟩⟩

theorem lacks_missingKeys (a : Automaton) : a.Lacks a.missingKeys where
  mem_iff := fun _ => mem_missingKeys
  ordered := by
    unfold missingKeys
    apply List.Pairwise.filter
    rw [List.pairwise_flatMap]
    refine ⟨fun q _ => ?_, ?_⟩
    · rw [List.pairwise_map]
      apply (pairwise_idxOf a.alphabet.nodup).imp
      intro x y hxy
      simpa [keyRank, List.cons_lt_cons_iff] using hxy
    · apply (pairwise_idxOf a.states.nodup).imp
      intro q r hqr k hk l hl
      obtain ⟨x, _, rfl⟩ := List.mem_map.mp hk
      obtain ⟨y, _, rfl⟩ := List.mem_map.mp hl
      simp [keyRank, List.cons_lt_cons_iff, hqr]

theorem Lacks.eq_missingKeys {keys : List Key} (h : a.Lacks keys) : keys = a.missingKeys := by
  apply eq_of_pairwise_rank h.ordered (lacks_missingKeys a).ordered
  intro key
  rw [h.mem_iff, mem_missingKeys]

/-! ## Reports -/

/-- The list has exactly the problems of the automaton, each once, in the order
of their places. -/
def Reports (a : Automaton) (ds : List Diagnostic) : Prop :=
  ∃ ps : List Place, ps.Pairwise Place.Before ∧ List.Forall₂ a.Problem ps ds ∧
    ∀ p, p ∈ ps ↔ ∃ d, a.Problem p d

/-- A place has at most one problem. -/
theorem Problem.unique {p : Place} {d e : Diagnostic} (hd : a.Problem p d) (he : a.Problem p e) :
    d = e := by
  cases hd with
  | initial _ => cases he; rfl
  | accepting h _ => cases he with | accepting h' _ => cases h.symm.trans h'; rfl
  | source h _ => cases he with | source h' _ => cases h.symm.trans h'; rfl
  | symbol h _ => cases he with | symbol h' _ => cases h.symm.trans h'; rfl
  | target h hq _ =>
    cases he with
    | target h' hq' _ =>
      cases h.symm.trans h'
      cases hq.symm.trans hq'
      rfl
  | duplicate _ _ _ h _ => cases he with | duplicate _ _ _ h' _ => cases h.symm.trans h'; rfl
  | targets _ h _ => cases he with | targets _ h' _ => cases h.symm.trans h'; rfl
  | missing _ _ h =>
    cases he with
    | missing _ _ h' => rw [h.eq_missingKeys, h'.eq_missingKeys]

theorem Reports.unique (hd : a.Reports ds) (he : a.Reports es) : ds = es := by
  obtain ⟨ps, hordered, hrel, hmem⟩ := hd
  obtain ⟨qs, hordered', hrel', hmem'⟩ := he
  obtain rfl : ps = qs :=
    eq_of_pairwise_rank hordered hordered' fun p => (hmem p).trans (hmem' p).symm
  have hone : Relator.RightUnique a.Problem := fun _ _ _ => Problem.unique
  exact hone.forall₂ hrel hrel'

end Automaton

end Stepwise
