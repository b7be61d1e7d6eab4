-- What a lookup in a table reads. The index gives for every key the places
-- of the entries with that key and no others, so a lookup sees the entries
-- of its key in the order of the table, however the table was made.
import Mathlib.Data.List.Basic
import Mathlib.Data.List.Induction
import Stepwise.Automaton
import Stepwise.Proofs.FirstPlaces

namespace Stepwise

/-! ## The places of a key -/

theorem Index.positions_ofKeys_concat (keys : List Key) (key other : Key) :
    (Index.ofKeys (keys ++ [key])).positions other =
      (Index.ofKeys keys).positions other ++ if key = other then [keys.length] else [] := by
  rw [Index.ofKeys_append_single, Index.positions_add]
  split
  · rfl
  · rw [List.append_nil]

theorem Index.mem_positions_ofKeys {keys : List Key} {key : Key} {pos : Nat} :
    pos ∈ (Index.ofKeys keys).positions key ↔ keys[pos]? = some key := by
  induction keys using List.reverseRecOn with
  | nil => simp [Index.ofKeys, Index.positions]
  | append_singleton keys k ih =>
    rw [Index.positions_ofKeys_concat, List.mem_append, ih]
    rcases Nat.lt_trichotomy pos keys.length with h | h | h
    · rw [List.getElem?_append_left h]
      have hne : pos ≠ keys.length := by omega
      split <;> simp [hne]
    · subst h
      rw [List.getElem?_eq_none (Nat.le_refl _), List.getElem?_concat_length]
      split <;> simp_all
    · rw [List.getElem?_eq_none (by omega), List.getElem?_eq_none (by simp; omega)]
      have hne : pos ≠ keys.length := by omega
      split <;> simp [hne]

namespace Table

theorem positions_eq (t : Table) (key : Key) :
    t.positions key = (Index.ofKeys (t.entries.map Entry.key)).positions key := by
  unfold positions
  rw [t.index_eq]

theorem mem_positions {t : Table} {key : Key} {pos : Nat} :
    pos ∈ t.positions key ↔ ∃ e, t.entries[pos]? = some e ∧ e.key = key := by
  rw [positions_eq, Index.mem_positions_ofKeys, List.getElem?_map, Option.map_eq_some_iff]

/-- A key is there as soon as one entry has it, be it one without targets. -/
theorem hasKey_iff {t : Table} {key : Key} :
    t.hasKey key = true ↔ ∃ e ∈ t.entries, e.key = key := by
  unfold hasKey
  rw [Bool.not_eq_true', List.isEmpty_eq_false_iff_exists_mem]
  refine ⟨?_, ?_⟩
  · rintro ⟨pos, hpos⟩
    obtain ⟨e, he, hkey⟩ := mem_positions.mp hpos
    exact ⟨e, List.mem_of_getElem? he, hkey⟩
  · rintro ⟨e, he, hkey⟩
    obtain ⟨pos, hpos⟩ := List.mem_iff_getElem?.mp he
    exact ⟨pos, mem_positions.mpr ⟨e, hpos, hkey⟩⟩

/-! ## The entries of a key -/

theorem filterMap_positions (es : List Entry) (key : Key) :
    ((Index.ofKeys (es.map Entry.key)).positions key).filterMap (es[·]?) =
      es.filter fun e => decide (e.key = key) := by
  induction es using List.reverseRecOn with
  | nil => rfl
  | append_singleton es e ih =>
    have hold : ((Index.ofKeys (es.map Entry.key)).positions key).filterMap ((es ++ [e])[·]?) =
        ((Index.ofKeys (es.map Entry.key)).positions key).filterMap (es[·]?) := by
      apply List.filterMap_congr
      intro pos hpos
      have hsome := Index.mem_positions_ofKeys.mp hpos
      rw [List.getElem?_map, Option.map_eq_some_iff] at hsome
      obtain ⟨d, hd, _⟩ := hsome
      exact List.getElem?_append_left (List.getElem?_eq_some_iff.mp hd).1
    rw [List.map_append, List.map_singleton, Index.positions_ofKeys_concat, List.filterMap_append,
      hold, ih, List.filter_append]
    split <;> simp_all

/-- A lookup reads the entries of its key in the order of the table. -/
theorem entriesOf_eq_filter (t : Table) (key : Key) :
    t.entriesOf key = t.entries.filter fun e => decide (e.key = key) := by
  unfold entriesOf
  rw [positions_eq, filterMap_positions]

/-! ## The destinations of a key -/

/-- One entry or many: the targets of all entries of the key, each at its
first place. -/
theorem destinations_eq (t : Table) (key : Key) :
    t.destinations key = .ofList
      ((t.entries.filter fun e => decide (e.key = key)).flatMap fun e => e.targets.toList) := by
  unfold destinations
  rw [entriesOf_eq_filter]
  split
  · rename_i e he
    rw [he, List.flatMap_singleton, OrderedSet.ofList_toList]
  · rfl

theorem mem_destinations {t : Table} {key : Key} {q : StateName} :
    q ∈ t.destinations key ↔ ∃ e ∈ t.entries, e.key = key ∧ q ∈ e.targets := by
  rw [destinations_eq, OrderedSet.mem_ofList, List.mem_flatMap]
  simp only [List.mem_filter, decide_eq_true_eq, OrderedSet.mem_toList, and_assoc]

end Table

end Stepwise
