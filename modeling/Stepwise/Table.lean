-- The transition table: a list of entries, each a state and a symbol with
-- the states they lead to, and beside it an index that says where the
-- entries of each pair stand. A pair may have several entries. They are
-- read as one, and a check of the automaton points them out.
import Stepwise.Text

namespace Stepwise

/-- States are known by their names. -/
abbrev StateName := String

/-- A symbol may be any text, but a run reads one character at a time, so
only symbols of one character ever match. -/
abbrev Symbol := String

/-! ## Keys and entries -/

/-- The state and the symbol that an entry is for. -/
structure Key where
  source : StateName
  symbol : Symbol
  deriving DecidableEq, Inhabited

def Key.text (k : Key) : String := k.source ++ "," ++ k.symbol

instance : Brief Key := ⟨Key.text⟩

/-- The order of keys: by state, then by symbol, each by code points. -/
def Key.le (k l : Key) : Bool :=
  decide (k.source < l.source) || k.source == l.source && decide (k.symbol ≤ l.symbol)

def Key.sort (ks : List Key) : List Key := ks.mergeSort Key.le

structure Entry where
  key : Key
  targets : OrderedSet StateName
  deriving BEq, Inhabited

/-- The entry with one more target. -/
def Entry.addTarget (e : Entry) (q : StateName) : Entry := { e with targets := e.targets.insert q }

/-- One transition: a target of an entry with the key of the entry. -/
structure Triple where
  source : StateName
  symbol : Symbol
  target : StateName
  deriving DecidableEq, Inhabited

def Triple.key (t : Triple) : Key := ⟨t.source, t.symbol⟩

/-! ## The index -/

/-- The positions of the entries of each key, the keys in the order in which
they first came. -/
abbrev Index := List (Key × List Nat)

namespace Index

def positions (key : Key) : Index → List Nat
  | [] => []
  | (k, ps) :: rest => if k = key then ps else positions key rest

/-- Notes one more position of a key. -/
def add (key : Key) (pos : Nat) : Index → Index
  | [] => [(key, [pos])]
  | (k, ps) :: rest => if k = key then (k, ps ++ [pos]) :: rest else (k, ps) :: add key pos rest

/-- The index of entries that have the given keys, in this order. -/
def ofKeys (keys : List Key) : Index :=
  keys.zipIdx.foldl (fun index p => index.add p.1 p.2) []

theorem ofKeys_append_single (keys : List Key) (key : Key) :
    ofKeys (keys ++ [key]) = (ofKeys keys).add key keys.length := by
  simp [ofKeys, List.zipIdx_append]

theorem positions_add (index : Index) (key other : Key) (pos : Nat) :
    (index.add key pos).positions other =
      if key = other then index.positions other ++ [pos] else index.positions other := by
  induction index with
  | nil => simp [add, positions]
  | cons head rest ih =>
    obtain ⟨k, ps⟩ := head
    by_cases hk : k = key
    · subst hk
      by_cases ho : k = other <;> simp [add, positions, ho]
    · by_cases ho : k = other
      · subst ho
        simp [add, positions, hk, Ne.symm hk]
      · simp [add, positions, hk, ho, ih]

end Index

/-! ## Tables -/

structure Table where
  entries : List Entry
  index : Index
  index_eq : index = Index.ofKeys (entries.map Entry.key)

namespace Table

theorem ext_entries {t u : Table} (h : t.entries = u.entries) : t = u := by
  obtain ⟨es, ix, hx⟩ := t
  obtain ⟨fs, iy, hy⟩ := u
  cases h
  cases hx
  cases hy
  rfl

def empty : Table := ⟨[], [], rfl⟩

instance : Inhabited Table := ⟨empty⟩

/-- Tables agree when their entries do, one by one. The index follows from
the entries. -/
instance : BEq Table := ⟨fun t u => t.entries == u.entries⟩

def size (t : Table) : Nat := t.entries.length

def isEmpty (t : Table) : Bool := t.entries.isEmpty

/-! ## Looking up a key -/

/-- The places of the entries of a key, in the order of the table. -/
def positions (t : Table) (key : Key) : List Nat := t.index.positions key

def entriesOf (t : Table) (key : Key) : List Entry :=
  (t.positions key).filterMap fun pos => t.entries[pos]?

/-- Whether the key has an entry, be it one without targets. -/
def hasKey (t : Table) (key : Key) : Bool := !(t.positions key).isEmpty

/-- Where the key leads to: the targets of all its entries, each at its first
place. The targets of a single entry do not repeat, so they are taken as
they are. -/
def destinations (t : Table) (key : Key) : OrderedSet StateName :=
  match t.entriesOf key with
  | [e] => e.targets
  | es => .ofList (es.flatMap fun e => e.targets.toList)

/-- The transitions, entry by entry. -/
def triples (t : Table) : List Triple :=
  t.entries.flatMap fun e => e.targets.toList.map fun q => ⟨e.key.source, e.key.symbol, q⟩

/-! ## Building a table -/

/-- Appends an entry, also when its key has one already. -/
def push (t : Table) (e : Entry) : Table where
  entries := t.entries ++ [e]
  index := t.index.add e.key t.entries.length
  index_eq := by
    rw [List.map_append, List.map_singleton, Index.ofKeys_append_single, t.index_eq,
      List.length_map]

def pushEntry (t : Table) (key : Key) (targets : List StateName) : Table :=
  t.push ⟨key, .ofList targets⟩

theorem keys_modify (es : List Entry) (pos : Nat) (q : StateName) :
    (es.modify pos (·.addTarget q)).map Entry.key = es.map Entry.key := by
  induction es generalizing pos with
  | nil => simp
  | cons e es ih =>
    cases pos with
    | zero => simp [Entry.addTarget]
    | succ pos => simp [ih]

/-- Gives the entry at a place one more target. -/
def addTargetAt (t : Table) (pos : Nat) (q : StateName) : Table where
  entries := t.entries.modify pos (·.addTarget q)
  index := t.index
  index_eq := by rw [keys_modify, t.index_eq]

/-- Adds one transition: to the first entry of its key, or as a new entry if
there is none. Also tells whether the transition was new to that entry. -/
def accumulate (t : Table) (x : Triple) : Bool × Table :=
  match t.positions x.key with
  | [] => (true, t.pushEntry x.key [x.target])
  | pos :: _ =>
    let known := (t.entries[pos]?).any fun e => decide (x.target ∈ e.targets)
    (!known, t.addTargetAt pos x.target)

def add (t : Table) (x : Triple) : Table := (t.accumulate x).2

def addAll (t : Table) (xs : List Triple) : Table := xs.foldl add t

def ofTriples (xs : List Triple) : Table := empty.addAll xs

def ofEntries (es : List Entry) : Table := es.foldl push empty

end Table

end Stepwise
