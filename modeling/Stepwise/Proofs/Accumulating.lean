-- What adding one transition does to a table, and what it leaves alone. The
-- transition goes to the first entry of its key, or to a new entry at the end
-- when its key has none. No other entry changes, so no other key leads
-- anywhere else than before.
import Mathlib.Data.List.Basic
import Stepwise.Proofs.Operations

namespace Stepwise

namespace Table

variable {t : Table} {x : Triple}

/-! ## The first entry of a key -/

/-- The entry that stands at a place is for the key, and none before it is. -/
structure FirstEntry (t : Table) (key : Key) (pos : Nat) (e : Entry) : Prop where
  at_pos : t.entries[pos]? = some e
  key_eq : e.key = key
  before : ∀ i < pos, ∀ d, t.entries[i]? = some d → d.key ≠ key

theorem FirstEntry.mem {key : Key} {pos : Nat} {e : Entry} (h : t.FirstEntry key pos e) :
    e ∈ t.entries := List.mem_of_getElem? h.at_pos

/-- Only one entry is the first of its key. -/
theorem FirstEntry.unique {key : Key} {pos pos' : Nat} {e e' : Entry}
    (h : t.FirstEntry key pos e) (h' : t.FirstEntry key pos' e') : e = e' := by
  rcases Nat.lt_trichotomy pos pos' with hlt | rfl | hlt
  · exact absurd h.key_eq (h'.before pos hlt e h.at_pos)
  · exact Option.some.inj (h.at_pos.symm.trans h'.at_pos)
  · exact absurd h'.key_eq (h.before pos' hlt e' h'.at_pos)

/-- All that adding a transition can do: append an entry for a key that has
none, or give the first entry of the key one more target. -/
theorem accumulate_cases (t : Table) (x : Triple) :
    (∀ e ∈ t.entries, e.key ≠ x.key) ∧ (t.accumulate x).1 = true ∧
        (t.accumulate x).2.entries = t.entries ++ [⟨x.key, .single x.target⟩] ∨
      ∃ pos e, t.FirstEntry x.key pos e ∧
        (t.accumulate x).1 = !decide (x.target ∈ e.targets) ∧
        (t.accumulate x).2.entries = t.entries.set pos (e.addTarget x.target) := by
  have hhead := head?_positions t x.key
  cases hpos : t.positions x.key with
  | nil =>
    left
    rw [hpos] at hhead
    have hnone := List.findIdx?_eq_none_iff.mp hhead.symm
    refine ⟨fun e he => of_decide_eq_false (hnone e he), ?_, ?_⟩
    · simp [accumulate, hpos]
    · simp only [accumulate, hpos]
      rfl
  | cons pos rest =>
    right
    rw [hpos] at hhead
    obtain ⟨hlt, hkey, hbefore⟩ := List.findIdx?_eq_some_iff_getElem.mp hhead.symm
    have hget : t.entries[pos]? = some t.entries[pos] := List.getElem?_eq_getElem hlt
    refine ⟨pos, t.entries[pos], ⟨hget, of_decide_eq_true hkey, ?_⟩, ?_, ?_⟩
    · intro i hi d hd
      obtain ⟨hilt, rfl⟩ := List.getElem?_eq_some_iff.mp hd
      simpa using hbefore i hi
    · simp [accumulate, hpos, hget]
    · simp only [accumulate, hpos, addTargetAt]
      rw [List.modify_eq_set_getElem?, hget]
      rfl

/-! ## Other keys -/

theorem filter_key_addTriple (es : List Entry) {key : Key} (h : x.key ≠ key) :
    (addTriple es x).filter (fun e => decide (e.key = key)) =
      es.filter fun e => decide (e.key = key) := by
  induction es with
  | nil => simp [addTriple, h]
  | cons e es ih =>
    rw [addTriple]
    split
    · rename_i he
      have hne : e.key ≠ key := he ▸ h
      simp [Entry.addTarget, hne]
    · rw [List.filter_cons, List.filter_cons, ih]

theorem entriesOf_add (t : Table) {key : Key} (h : x.key ≠ key) :
    (t.add x).entriesOf key = t.entriesOf key := by
  rw [entriesOf_eq_filter, entriesOf_eq_filter, entries_add, filter_key_addTriple _ h]

/-- A key is there as soon as a lookup finds an entry of it. -/
theorem hasKey_eq (t : Table) (key : Key) : t.hasKey key = !(t.entriesOf key).isEmpty := by
  rw [Bool.eq_iff_iff, hasKey_iff, entriesOf_eq_filter, Bool.not_eq_true',
    List.isEmpty_eq_false_iff_exists_mem]
  simp only [List.mem_filter, decide_eq_true_eq]

theorem destinations_add (t : Table) {key : Key} (h : x.key ≠ key) :
    (t.add x).destinations key = t.destinations key := by
  unfold destinations
  rw [entriesOf_add t h]

theorem hasKey_add (t : Table) {key : Key} (h : x.key ≠ key) :
    (t.add x).hasKey key = t.hasKey key := by
  rw [hasKey_eq, hasKey_eq, entriesOf_add t h]

theorem mem_triples_add {y : Triple} : y ∈ (t.add x).triples ↔ y ∈ t.triples ∨ y = x := by
  rw [mem_triples, mem_triples, entries_add]
  exact exists_mem_addTriple

/-! ## One transition -/

/-- The table `u` is the table `t` with the transition `x` and no other change.
The answer `fresh` tells whether the transition was new to the first entry of
its key. -/
structure Accumulated (t : Table) (x : Triple) (fresh : Bool) (u : Table) : Prop where
  triples : ∀ y, y ∈ u.triples ↔ y ∈ t.triples ∨ y = x
  known_iff : fresh = false ↔ ∃ pos e, t.FirstEntry x.key pos e ∧ x.target ∈ e.targets
  unchanged : fresh = false → u = t
  grows_iff : u.size = t.size + 1 ↔ ¬∃ e ∈ t.entries, e.key = x.key
  stays_iff : u.size = t.size ↔ ∃ e ∈ t.entries, e.key = x.key
  new_last : (¬∃ e ∈ t.entries, e.key = x.key) →
    u.entries = t.entries ++ [⟨x.key, .single x.target⟩]
  /-- An entry stays as it is, unless it is the first one of the key and gets
  the target at its end. -/
  one_changes : ∀ (pos : Nat) e, t.entries[pos]? = some e → u.entries[pos]? = some e ∨
    t.FirstEntry x.key pos e ∧ ∃ f, u.entries[pos]? = some f ∧ f.key = e.key ∧
      f.targets.toList = e.targets.toList ++ [x.target]
  others_lead : ∀ key, key ≠ x.key → u.destinations key = t.destinations key
  others_stay : ∀ key, key ≠ x.key → u.hasKey key = t.hasKey key

theorem accumulated_of_new (hnone : ∀ e ∈ t.entries, e.key ≠ x.key)
    (hentries : (t.add x).entries = t.entries ++ [⟨x.key, .single x.target⟩]) :
    t.Accumulated x true (t.add x) := by
  have hno : ¬∃ e ∈ t.entries, e.key = x.key := fun ⟨e, he, hkey⟩ => hnone e he hkey
  have hsize : (t.add x).size = t.size + 1 := by
    simp [size, hentries]
  refine ⟨fun _ => mem_triples_add, ?_, nofun, ?_, ?_, fun _ => hentries, ?_,
    fun key h => destinations_add t (Ne.symm h), fun key h => hasKey_add t (Ne.symm h)⟩
  · refine ⟨nofun, ?_⟩
    rintro ⟨_, e, hfirst, _⟩
    exact absurd hfirst.key_eq (hnone e hfirst.mem)
  · simp [hsize, hno]
  · simp [hsize, hno]
  · intro pos e he
    left
    rw [hentries, List.getElem?_append_left (List.getElem?_eq_some_iff.mp he).1, he]

theorem accumulated_of_first {pos : Nat} {e : Entry} (hfirst : t.FirstEntry x.key pos e)
    (hentries : (t.add x).entries = t.entries.set pos (e.addTarget x.target)) :
    t.Accumulated x (!decide (x.target ∈ e.targets)) (t.add x) := by
  have hyes : ∃ e ∈ t.entries, e.key = x.key := ⟨e, hfirst.mem, hfirst.key_eq⟩
  have hsize : (t.add x).size = t.size := by
    simp [size, hentries]
  obtain ⟨hlt, hget⟩ := List.getElem?_eq_some_iff.mp hfirst.at_pos
  -- a target that the entry has already changes nothing
  have hsame : x.target ∈ e.targets → t.add x = t := by
    intro hmem
    apply ext_entries
    rw [hentries, Entry.addTarget, OrderedSet.insert_of_mem hmem, ← hget, List.set_getElem_self]
  refine ⟨fun _ => mem_triples_add, ?_, ?_, ?_, ?_, fun h => absurd hyes h, ?_,
    fun key h => destinations_add t (Ne.symm h), fun key h => hasKey_add t (Ne.symm h)⟩
  · rw [Bool.not_eq_false', decide_eq_true_eq]
    refine ⟨fun h => ⟨pos, e, hfirst, h⟩, ?_⟩
    rintro ⟨pos', e', hfirst', h⟩
    exact hfirst.unique hfirst' ▸ h
  · rw [Bool.not_eq_false', decide_eq_true_eq]
    exact hsame
  · simp [hsize, hyes]
  · simp [hsize, hyes]
  · intro i d hd
    by_cases hmem : x.target ∈ e.targets
    · left
      rw [hsame hmem, hd]
    · by_cases hi : pos = i
      · subst hi
        obtain rfl : e = d := Option.some.inj (hfirst.at_pos.symm.trans hd)
        right
        refine ⟨hfirst, e.addTarget x.target, ?_, rfl, OrderedSet.toList_insert_of_not_mem hmem⟩
        rw [hentries, List.getElem?_set_self hlt]
      · left
        rw [hentries, List.getElem?_set_ne hi, hd]

/-- Adding a transition puts it into the table and disturbs nothing else,
whatever the table holds. -/
theorem accumulate_adds_one_transition (t : Table) (x : Triple) :
    t.Accumulated x (t.accumulate x).1 (t.accumulate x).2 := by
  rcases accumulate_cases t x with ⟨hnone, hfresh, hentries⟩ | ⟨pos, e, hfirst, hfresh, hentries⟩
  · rw [hfresh]
    exact accumulated_of_new hnone hentries
  · rw [hfresh]
    exact accumulated_of_first hfirst hentries

/-- Two entries of one key, the first of them empty: it is the one that grows,
though the key leads to the state already. -/
example : (((empty.pushEntry ⟨"p", "a"⟩ []).pushEntry ⟨"p", "a"⟩ ["q"]).accumulate
    ⟨"p", "a", "q"⟩).1 = true := by decide

end Table

end Stepwise
