-- Tables under their operations. A table is changed through its index, in any
-- order of calls. The entries come out as in a plain list that is searched
-- from the front, and the index never says anything that they do not.
import Mathlib.Data.List.Basic
import Mathlib.Data.List.Induction
import Stepwise.Proofs.Lookup

namespace Stepwise

/-! ## The order of the places -/

theorem Index.positions_pairwise (keys : List Key) (key : Key) :
    ((Index.ofKeys keys).positions key).Pairwise (· < ·) := by
  induction keys using List.reverseRecOn with
  | nil => exact List.Pairwise.nil
  | append_singleton keys k ih =>
    rw [Index.positions_ofKeys_concat, List.pairwise_append]
    refine ⟨ih, ?_, ?_⟩
    · split <;> simp
    · intro i hi j hj
      have hlt := (List.getElem?_eq_some_iff.mp (Index.mem_positions_ofKeys.mp hi)).1
      split at hj
      · rw [List.mem_singleton] at hj
        omega
      · cases hj

/-- The first place of a key is where its first entry stands. -/
theorem Index.head?_positions_ofKeys (keys : List Key) (key : Key) :
    ((Index.ofKeys keys).positions key).head? = keys.findIdx? fun k => decide (k = key) := by
  induction keys using List.reverseRecOn with
  | nil => rfl
  | append_singleton keys k ih =>
    rw [Index.positions_ofKeys_concat, List.head?_append, ih, List.findIdx?_append]
    by_cases hk : k = key
    · simp [hk]
    · simp [hk]

/-! ## Entries as a plain list -/

/-- Adds one transition: to the first entry of its key, or as a new entry at
the end if there is none. -/
def addTriple (es : List Entry) (x : Triple) : List Entry :=
  match es with
  | [] => [⟨x.key, .ofList [x.target]⟩]
  | e :: rest => if e.key = x.key then e.addTarget x.target :: rest else e :: addTriple rest x

theorem addTriple_eq (es : List Entry) (x : Triple) :
    addTriple es x = match es.findIdx? fun e => decide (e.key = x.key) with
      | none => es ++ [⟨x.key, .ofList [x.target]⟩]
      | some pos => es.modify pos (·.addTarget x.target) := by
  induction es with
  | nil => rfl
  | cons e es ih =>
    rw [addTriple, List.findIdx?_cons]
    by_cases he : e.key = x.key
    · simp [he]
    · rw [if_neg he, ih]
      simp only [he, decide_false, Bool.false_eq_true, if_false]
      cases es.findIdx? fun e => decide (e.key = x.key) with
      | none => rfl
      | some pos => rfl

namespace Table

theorem head?_positions (t : Table) (key : Key) :
    (t.positions key).head? = t.entries.findIdx? fun e => decide (e.key = key) := by
  rw [positions_eq, Index.head?_positions_ofKeys, List.findIdx?_map]
  rfl

/-- The index is only a short way to the first entry of the key. -/
theorem entries_add (t : Table) (x : Triple) : (t.add x).entries = addTriple t.entries x := by
  rw [addTriple_eq, ← head?_positions]
  unfold add accumulate
  cases t.positions x.key with
  | nil => rfl
  | cons pos rest => rfl

theorem entries_addAll (t : Table) (xs : List Triple) :
    (t.addAll xs).entries = xs.foldl addTriple t.entries := by
  unfold addAll
  induction xs generalizing t with
  | nil => rfl
  | cons x xs ih => rw [List.foldl_cons, List.foldl_cons, ih, entries_add]

theorem addAll_append (t : Table) (xs ys : List Triple) :
    t.addAll (xs ++ ys) = (t.addAll xs).addAll ys := List.foldl_append

theorem ofTriples_append (xs ys : List Triple) :
    ofTriples (xs ++ ys) = (ofTriples xs).addAll ys := addAll_append empty xs ys

theorem ofTriples_concat (xs : List Triple) (x : Triple) :
    ofTriples (xs ++ [x]) = (ofTriples xs).add x := ofTriples_append xs [x]

theorem entries_foldl_push (t : Table) (es : List Entry) :
    (es.foldl push t).entries = t.entries ++ es := by
  induction es generalizing t with
  | nil => rw [List.foldl_nil, List.append_nil]
  | cons e es ih =>
    rw [List.foldl_cons, ih]
    show t.entries ++ [e] ++ es = t.entries ++ e :: es
    rw [List.append_assoc, List.singleton_append]

theorem entries_ofEntries (es : List Entry) : (ofEntries es).entries = es :=
  (entries_foldl_push empty es).trans (List.nil_append es)

/-! ## The transitions of a table -/

theorem mem_triples {t : Table} {x : Triple} :
    x ∈ t.triples ↔ ∃ e ∈ t.entries, e.key = x.key ∧ x.target ∈ e.targets := by
  unfold triples
  constructor
  · intro h
    obtain ⟨e, he, hx⟩ := List.mem_flatMap.mp h
    obtain ⟨q, hq, rfl⟩ := List.mem_map.mp hx
    exact ⟨e, he, rfl, hq⟩
  · rintro ⟨e, he, hkey, hq⟩
    refine List.mem_flatMap.mpr ⟨e, he, List.mem_map.mpr ⟨x.target, hq, ?_⟩⟩
    rw [hkey]
    rfl

/-- One more transition, and no other, is in the entries. -/
theorem exists_mem_addTriple {es : List Entry} {x y : Triple} :
    (∃ e ∈ addTriple es y, e.key = x.key ∧ x.target ∈ e.targets) ↔
      (∃ e ∈ es, e.key = x.key ∧ x.target ∈ e.targets) ∨ x = y := by
  have heq : x = y ↔ y.key = x.key ∧ x.target = y.target := by
    cases x
    cases y
    simp [Triple.key, and_assoc, eq_comm]
  induction es with
  | nil => simp [addTriple, heq]
  | cons e es ih =>
    unfold addTriple
    by_cases he : e.key = y.key
    · rw [if_pos he]
      simp only [List.exists_mem_cons_iff, Entry.addTarget, OrderedSet.mem_insert, heq, he]
      grind
    · rw [if_neg he]
      simp only [List.exists_mem_cons_iff, ih, or_assoc]

/-- A table has the transitions that it was made of. -/
theorem mem_triples_ofTriples {xs : List Triple} {x : Triple} :
    x ∈ (ofTriples xs).triples ↔ x ∈ xs := by
  rw [mem_triples, ofTriples, entries_addAll]
  have hall : ∀ es : List Entry,
      (∃ e ∈ xs.foldl addTriple es, e.key = x.key ∧ x.target ∈ e.targets) ↔
        (∃ e ∈ es, e.key = x.key ∧ x.target ∈ e.targets) ∨ x ∈ xs := by
    induction xs with
    | nil => simp
    | cons y xs ih =>
      intro es
      rw [List.foldl_cons, ih, exists_mem_addTriple, List.mem_cons, or_assoc]
  rw [hall, or_iff_right]
  rintro ⟨e, he, -⟩
  cases he

instance : ReflBEq Entry where
  rfl {e} := by
    show (e.key == e.key && e.targets == e.targets) = true
    rw [beq_self_eq_true, beq_self_eq_true, Bool.and_self]

instance : ReflBEq Table where
  rfl {t} := beq_self_eq_true t.entries

/-- Tables that agree have entries with the same keys and the same sets of targets. -/
theorem forall₂_entries_of_beq {t u : Table} (h : (t == u) = true) :
    List.Forall₂ (fun e f => e.key = f.key ∧ ∀ q, q ∈ e.targets ↔ q ∈ f.targets)
      t.entries u.entries := by
  have hentries : (t.entries == u.entries) = true := h
  generalize t.entries = es at hentries ⊢
  generalize u.entries = fs at hentries ⊢
  induction fs generalizing es with
  | nil =>
    cases es with
    | nil => exact .nil
    | cons e es => cases hentries
  | cons f fs ih =>
    cases es with
    | nil => cases hentries
    | cons e es =>
      rw [List.cons_beq_cons, Bool.and_eq_true] at hentries
      obtain ⟨hhead, htail⟩ := hentries
      refine .cons ?_ (ih es htail)
      obtain ⟨k, ts⟩ := e
      obtain ⟨l, us⟩ := f
      have hboth : (k == l && ts == us) = true := hhead
      rw [Bool.and_eq_true, beq_iff_eq] at hboth
      exact ⟨hboth.1, fun _ => OrderedSet.mem_iff_of_beq hboth.2⟩

/-- Tables that agree have the same transitions. -/
theorem mem_triples_iff_of_beq {t u : Table} (h : (t == u) = true) {x : Triple} :
    x ∈ t.triples ↔ x ∈ u.triples := by
  rw [mem_triples, mem_triples]
  have hall := forall₂_entries_of_beq h
  generalize t.entries = es at hall ⊢
  generalize u.entries = fs at hall ⊢
  induction hall with
  | nil => rfl
  | cons hef _ ih =>
    rw [List.exists_mem_cons_iff, List.exists_mem_cons_iff, hef.1, hef.2]
    exact or_congr Iff.rfl ih

theorem mem_triples_of_beq {t u : Table} (h : (t == u) = true) {x : Triple} (hx : x ∈ u.triples) :
    x ∈ t.triples := (mem_triples_iff_of_beq h).mpr hx

/-! ## Sequences of operations -/

/-- One call on a table. -/
inductive Operation where
  | accumulate (x : Triple)
  | pushEntry (key : Key) (targets : List StateName)
  /-- Drops the table for that of a list of transitions. -/
  | collect (xs : List Triple)
  /-- Takes the table apart into the list of its entries, which may be
  changed, and puts a table together from it. -/
  | rebuild (change : List Entry → List Entry)

def apply (t : Table) : Operation → Table
  | .accumulate x => (t.accumulate x).2
  | .pushEntry key targets => t.pushEntry key targets
  | .collect xs => ofTriples xs
  | .rebuild change => ofEntries (change t.entries)

/-- The table after a sequence of calls, the first of them on the empty one. -/
def afterAll (calls : List Operation) : Table := calls.foldl apply empty

/-- What a call does to the entries of a table. -/
def applyToEntries (es : List Entry) : Operation → List Entry
  | .accumulate x => addTriple es x
  | .pushEntry key targets => es ++ [⟨key, .ofList targets⟩]
  | .collect xs => xs.foldl addTriple []
  | .rebuild change => change es

def entriesAfterAll (calls : List Operation) : List Entry := calls.foldl applyToEntries []

theorem entries_apply (t : Table) (call : Operation) :
    (t.apply call).entries = applyToEntries t.entries call := by
  cases call with
  | accumulate x => exact entries_add t x
  | pushEntry key targets => rfl
  | collect xs => exact entries_addAll empty xs
  | rebuild change => exact entries_ofEntries (change t.entries)

theorem entries_afterAll (calls : List Operation) :
    (afterAll calls).entries = entriesAfterAll calls := by
  induction calls using List.reverseRecOn with
  | nil => rfl
  | append_singleton calls call ih =>
    unfold afterAll entriesAfterAll at ih ⊢
    rw [List.foldl_concat, List.foldl_concat, entries_apply, ih]

/-- A table answers for a key as the list of entries does: its index has the
places of the entries of the key in increasing order and no others, the key is
there as soon as it has an entry, and it leads to the targets of all its
entries, each at its first place. -/
structure Answers (t : Table) (es : List Entry) (key : Key) : Prop where
  entries_eq : t.entries = es
  increasing : (t.positions key).Pairwise (· < ·)
  places : ∀ pos, pos ∈ t.positions key ↔ ∃ e, es[pos]? = some e ∧ e.key = key
  hasKey : t.hasKey key = true ↔ ∃ e ∈ es, e.key = key
  destinations : (t.destinations key).toList =
    ((es.filter fun e => decide (e.key = key)).flatMap fun e => e.targets.toList).eraseDups

theorem answers_entries (t : Table) (key : Key) : t.Answers t.entries key where
  entries_eq := rfl
  increasing := by
    rw [positions_eq]
    exact Index.positions_pairwise _ key
  places := fun _ => mem_positions
  hasKey := hasKey_iff
  destinations := by rw [destinations_eq, OrderedSet.toList_ofList]

/-- After any sequence of calls the table answers for every key as the entries
do that a list without an index has after the same calls. -/
theorem the_index_never_parts_from_the_entries (calls : List Operation) (key : Key) :
    (afterAll calls).Answers (entriesAfterAll calls) key := by
  rw [← entries_afterAll]
  exact answers_entries (afterAll calls) key

/-- Two entries of one key, of which the first grows in place. -/
example : ((afterAll [.pushEntry ⟨"p", "a"⟩ ["q"], .pushEntry ⟨"p", "a"⟩ ["q", "r"],
    .accumulate ⟨"p", "a", "s"⟩, .rebuild id]).destinations ⟨"p", "a"⟩).toList = ["q", "s", "r"] := by
  decide

end Table

end Stepwise
