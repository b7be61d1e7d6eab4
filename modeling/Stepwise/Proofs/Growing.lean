-- How a random DFA grows. Each state in turn draws one edge on each letter,
-- back to a state that is there or on to a new one. What holds of the states
-- and the edges at any time is said once in `Grown` and kept by each edge,
-- so it holds of every DFA whose growth ends.
import Mathlib.Data.List.Basic
import Mathlib.Data.List.ProdSigma
import Stepwise.Proofs.Collecting
import Stepwise.Random.Generator

namespace Stepwise

namespace Random

variable {σ : Type} {src : Source σ} {p : Float}

/-! ## Draws -/

theorem Source.firstHit_cons (src : Source σ) (p : Float) {α : Type} (x : α) (xs : List α) (s : σ) :
    src.firstHit p (x :: xs) s =
      if (src.chance p s).1 then (some x, (src.chance p s).2)
      else src.firstHit p xs (src.chance p s).2 := by
  rw [firstHit]
  show (if (src.chance p s).1 = true then _ else _ : StateM σ (Option α)) (src.chance p s).2 = _
  split <;> rfl

theorem Source.mem_of_firstHit {α : Type} {xs : List α} {x : α} {s t : σ}
    (h : src.firstHit p xs s = (some x, t)) : x ∈ xs := by
  induction xs generalizing s with
  | nil => cases h
  | cons y ys ih =>
    rw [firstHit_cons] at h
    split at h
    · cases h
      exact List.mem_cons_self
    · exact List.mem_cons_of_mem y (ih h)

theorem Source.someOf_cons (src : Source σ) {α : Type} (x : α) (xs : List α) (s : σ) :
    (src.someOf (x :: xs) s).1 =
      if (src.coin s).1 then x :: (src.someOf xs (src.coin s).2).1
      else (src.someOf xs (src.coin s).2).1 := rfl

theorem Source.mem_of_mem_someOf {α : Type} {xs : List α} {x : α} {s : σ}
    (h : x ∈ (src.someOf xs s).1) : x ∈ xs := by
  induction xs generalizing s with
  | nil => cases h
  | cons y ys ih =>
    rw [someOf_cons] at h
    split at h
    · rcases List.mem_cons.mp h with rfl | h
      · exact List.mem_cons_self
      · exact List.mem_cons_of_mem y (ih h)
    · exact List.mem_cons_of_mem y (ih h)

/-! ## The names of states -/

theorem stateNamed_injective : Function.Injective stateNamed := by
  intro m n h
  have hdigits : Nat.toDigits 10 m = Nat.toDigits 10 n := by
    have := congrArg String.toList h
    simpa [stateNamed, String.toList_append] using this
  rw [← Nat.ofDigitChars_ten_toDigits (n := m), hdigits, Nat.ofDigitChars_ten_toDigits]

/-! ## The course of a growth -/

/-- An edge as it is drawn, between states by their numbers. -/
structure Edge where
  source : Nat
  symbol : Symbol
  target : Nat
  deriving DecidableEq

def Edge.triple (e : Edge) : Triple := ⟨stateNamed e.source, e.symbol, stateNamed e.target⟩

/-- Where the edge was drawn. -/
def Edge.slot (e : Edge) : Nat × Symbol := (e.source, e.symbol)

namespace Growth

/-- A state draws an edge on each letter. The draws start from `s` and leave
the source in `t`. -/
inductive Draws (src : Source σ) (p : Float) (current : Nat) :
    List Symbol → Growth → σ → List Edge → Growth → σ → Prop
  | nil {g : Growth} {s : σ} : Draws src p current [] g s [] g s
  | cons {x : Symbol} {xs : List Symbol} {g h : Growth} {s r t : σ} {hit : Option Nat}
      {edges : List Edge} :
      src.firstHit p (List.range (current + 1)) s = (hit, r) →
      Draws src p current xs (g.connect current x hit) r edges h t →
      Draws src p current (x :: xs) g s (⟨current, x, hit.getD g.size⟩ :: edges) h t

/-- The states from the current one on draw their edges, until there is none
that has not drawn. -/
inductive Grows (src : Source σ) (letters : List Symbol) (p : Float) :
    Nat → Growth → σ → List Edge → Growth → σ → Prop
  | done {current : Nat} {g : Growth} {s : σ} :
      g.size ≤ current → Grows src letters p current g s [] g s
  | next {current : Nat} {g h k : Growth} {s r t : σ} {row edges : List Edge} :
      current < g.size → Draws src p current letters g s row h r →
      Grows src letters p (current + 1) h r edges k t →
      Grows src letters p current g s (row ++ edges) k t

theorem exists_draws (src : Source σ) (p : Float) (current : Nat) (letters : List Symbol)
    (g : Growth) (s : σ) : ∃ edges, Draws src p current letters g s edges
      (letters.foldlM (addEdge src p current) g s).1
      (letters.foldlM (addEdge src p current) g s).2 := by
  induction letters generalizing g s with
  | nil => exact ⟨[], .nil⟩
  | cons x xs ih =>
    cases hhit : src.firstHit p (List.range (current + 1)) s with
    | mk hit r =>
      obtain ⟨edges, hedges⟩ := ih (g.connect current x hit) r
      have hnext : (x :: xs).foldlM (addEdge src p current) g s =
          xs.foldlM (addEdge src p current) (g.connect current x hit) r := by
        rw [List.foldlM_cons]
        simp only [addEdge, bind, StateT.bind, hhit]
        rfl
      rw [hnext]
      exact ⟨_, .cons hhit hedges⟩

theorem grows_of_run {letters : List Symbol} {fuel current : Nat} {g h : Growth} {s t : σ}
    (hrun : run src letters p fuel current g s = (some h, t)) :
    ∃ edges, Grows src letters p current g s edges h t := by
  induction fuel generalizing current g s with
  | zero => cases hrun
  | succ fuel ih =>
    rw [run] at hrun
    split at hrun
    · rename_i hlt
      obtain ⟨row, hrow⟩ := exists_draws src p current letters g s
      obtain ⟨edges, hedges⟩ := ih hrun
      exact ⟨row ++ edges, .next hlt hrow hedges⟩
    · rename_i hge
      cases hrun
      exact ⟨[], .done (Nat.le_of_not_lt hge)⟩

/-! ## What every edge keeps -/

/-- The states are numbered in the order in which they came, the edges join
them, and each state but the first came by an edge from one before it. -/
structure Grown (letters : List Symbol) (g : Growth) (edges : List Edge) : Prop where
  kind_eq : g.builder.kind = .dfa
  alphabet_eq : g.builder.alphabet = .ofList letters
  accepting_eq : g.builder.accepting = ∅
  size_pos : 0 < g.size
  states_eq : g.builder.states.toList = (List.range g.size).map stateNamed
  table_eq : g.builder.table = .ofTriples (edges.map Edge.triple)
  target_lt : ∀ e ∈ edges, e.target < g.size
  sprouted : ∀ j, 0 < j → j < g.size → ∃ e ∈ edges, e.source < j ∧ e.target = j

theorem grown_start (letters : List Symbol) : Grown letters (start letters) [] where
  kind_eq := rfl
  alphabet_eq := rfl
  accepting_eq := rfl
  size_pos := Nat.one_pos
  states_eq := rfl
  table_eq := rfl
  target_lt := fun _ he => absurd he List.not_mem_nil
  sprouted := fun _ hpos hlt => absurd hlt (Nat.not_lt.mpr hpos)

theorem Grown.mem_states {letters : List Symbol} {g : Growth} {edges : List Edge}
    (h : Grown letters g edges) {n : Nat} : stateNamed n ∈ g.builder.states ↔ n < g.size := by
  rw [← OrderedSet.mem_toList, h.states_eq, List.mem_map_of_injective stateNamed_injective,
    List.mem_range]

theorem Grown.table_connect {letters : List Symbol} {g : Growth} {edges : List Edge}
    (h : Grown letters g edges) (current : Nat) (x : Symbol) (hit : Option Nat) :
    (g.connect current x hit).builder.table =
      .ofTriples (List.map Edge.triple (edges ++ [⟨current, x, hit.getD g.size⟩])) := by
  rw [List.map_append, List.map_singleton, Table.ofTriples_concat, ← h.table_eq]
  rfl

/-- An edge back to a state that is there. -/
theorem Grown.connect_back {letters : List Symbol} {g : Growth} {edges : List Edge}
    (h : Grown letters g edges) (current : Nat) (x : Symbol) {target : Nat} (ht : target < g.size) :
    Grown letters (g.connect current x (some target)) (edges ++ [⟨current, x, target⟩]) where
  kind_eq := h.kind_eq
  alphabet_eq := h.alphabet_eq
  accepting_eq := h.accepting_eq
  size_pos := h.size_pos
  states_eq := by
    have hsame : (g.connect current x (some target)).builder.states = g.builder.states :=
      OrderedSet.insert_of_mem (h.mem_states.mpr ht)
    rw [hsame]
    exact h.states_eq
  table_eq := h.table_connect current x _
  target_lt := by
    intro e he
    rcases List.mem_append.mp he with he | he
    · exact h.target_lt e he
    · rw [List.mem_singleton.mp he]
      exact ht
  sprouted := by
    intro j hpos hlt
    obtain ⟨e, he, hj⟩ := h.sprouted j hpos hlt
    exact ⟨e, List.mem_append_left _ he, hj⟩

/-- An edge on to a new state. -/
theorem Grown.connect_on {letters : List Symbol} {g : Growth} {edges : List Edge}
    (h : Grown letters g edges) {current : Nat} (hc : current < g.size) (x : Symbol) :
    Grown letters (g.connect current x none) (edges ++ [⟨current, x, g.size⟩]) where
  kind_eq := h.kind_eq
  alphabet_eq := h.alphabet_eq
  accepting_eq := h.accepting_eq
  size_pos := Nat.succ_pos _
  states_eq := by
    have hnew : stateNamed g.size ∉ g.builder.states :=
      fun hmem => Nat.lt_irrefl _ (h.mem_states.mp hmem)
    show (g.builder.states.insert (stateNamed g.size)).toList =
      (List.range (g.size + 1)).map stateNamed
    rw [OrderedSet.toList_insert_of_not_mem hnew, h.states_eq, List.range_succ, List.map_append,
      List.map_singleton]
  table_eq := h.table_connect current x _
  target_lt := by
    intro e he
    rcases List.mem_append.mp he with he | he
    · exact Nat.lt_succ_of_lt (h.target_lt e he)
    · rw [List.mem_singleton.mp he]
      exact Nat.lt_succ_self _
  sprouted := by
    intro j hpos hlt
    rcases Nat.lt_succ_iff_lt_or_eq.mp hlt with hlt | rfl
    · obtain ⟨e, he, hj⟩ := h.sprouted j hpos hlt
      exact ⟨e, List.mem_append_left _ he, hj⟩
    · exact ⟨_, List.mem_append_right _ List.mem_cons_self, hc, rfl⟩

theorem Grown.connect {letters : List Symbol} {g : Growth} {edges : List Edge}
    (h : Grown letters g edges) {current : Nat} (hc : current < g.size) (x : Symbol)
    {hit : Option Nat} (hhit : ∀ target, hit = some target → target ≤ current) :
    Grown letters (g.connect current x hit) (edges ++ [⟨current, x, hit.getD g.size⟩]) := by
  cases hit with
  | none => exact h.connect_on hc x
  | some target => exact h.connect_back current x (Nat.lt_of_le_of_lt (hhit target rfl) hc)

theorem size_connect (g : Growth) (current : Nat) (x : Symbol) (hit : Option Nat) :
    g.size ≤ (g.connect current x hit).size := by
  cases hit with
  | none => exact Nat.le_succ _
  | some target => exact Nat.le_refl _

/-! ## Whole growths -/

variable {letters xs : List Symbol} {current : Nat} {g h : Growth} {s t : σ} {edges row : List Edge}

theorem Draws.size_le (hd : Draws src p current xs g s row h t) : g.size ≤ h.size := by
  induction hd with
  | nil => exact Nat.le_refl _
  | cons _ _ ih => exact Nat.le_trans (size_connect _ _ _ _) ih

theorem Draws.grown (hd : Draws src p current xs g s row h t) (hc : current < g.size)
    (hg : Grown letters g edges) : Grown letters h (edges ++ row) := by
  induction hd generalizing edges with
  | nil => rwa [List.append_nil]
  | @cons x xs g _ _ _ _ hit _ hhit _ ih =>
    have hback : ∀ target, hit = some target → target ≤ current := by
      rintro target rfl
      exact Nat.le_of_lt_succ (List.mem_range.mp (Source.mem_of_firstHit hhit))
    have := ih (Nat.lt_of_lt_of_le hc (size_connect _ _ _ _)) (hg.connect hc x hback)
    rwa [List.append_assoc, List.singleton_append] at this

/-- A state draws once on each letter, in the order of the letters. -/
theorem Draws.slots (hd : Draws src p current xs g s row h t) :
    row.map Edge.slot = xs.map (Prod.mk current) := by
  induction hd with
  | nil => rfl
  | cons _ _ ih => rw [List.map_cons, List.map_cons, ih]; rfl

theorem Grows.size_le (hd : Grows src letters p current g s edges h t) : g.size ≤ h.size := by
  induction hd with
  | done _ => exact Nat.le_refl _
  | next _ hrow _ ih => exact Nat.le_trans hrow.size_le ih

theorem Grows.grown {before : List Edge} (hd : Grows src letters p current g s edges h t)
    (hg : Grown letters g before) : Grown letters h (before ++ edges) := by
  induction hd generalizing before with
  | done _ => rwa [List.append_nil]
  | next hlt hrow _ ih =>
    rw [← List.append_assoc]
    exact ih (hrow.grown hlt hg)

/-- In the end every state has drawn, in the order of the states. -/
theorem Grows.slots (hd : Grows src letters p current g s edges h t) :
    edges.map Edge.slot = List.range' current (h.size - current) ×ˢ letters := by
  induction hd with
  | done hle =>
    rw [Nat.sub_eq_zero_of_le hle]
    rfl
  | @next current _ _ k _ _ _ _ _ hlt hrow hrest ih =>
    have hsize : k.size - current = k.size - (current + 1) + 1 := by
      have := hrow.size_le
      have := hrest.size_le
      omega
    rw [List.map_append, hrow.slots, ih, hsize, List.range'_succ, List.product_cons]

end Growth

end Random

end Stepwise
