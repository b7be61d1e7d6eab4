-- How values are exchanged as JSON. A record is written as an object and
-- read from one, in which members that are not known are passed over, or
-- from the array of all its fields in order.
import Stepwise.Description
import Stepwise.Json
import Stepwise.Snapshot

namespace Stepwise

class Wire (α : Type) where
  toJson : α → Json
  ofJson : Json → Option α

namespace Wire

def encode {α : Type} [Wire α] (x : α) : String := (toJson x).text

def decode {α : Type} [Wire α] (text : String) : Option α := (Json.parse text).bind ofJson

/-! ## Plain values -/

instance : Wire String := ⟨.string, Json.string?⟩

instance : Wire Bool := ⟨.bool, Json.bool?⟩

/-- Counts are words of 64 bits. -/
instance : Wire Nat := ⟨.ofNat, fun j => j.nat?.filter (· < wordSize)⟩

instance {α : Type} [Wire α] : Wire (List α) :=
  ⟨fun xs => .array (xs.map toJson), fun j => j.items?.bind fun items => items.mapM ofJson⟩

/-- A set that is read drops its repetitions. -/
instance : Wire (OrderedSet String) :=
  ⟨fun s => toJson s.toList, fun j => (ofJson j : Option (List String)).map .ofList⟩

instance {α : Type} [Wire α] : Wire (Option α) where
  toJson
    | none => .null
    | some x => toJson x
  ofJson
    | .null => some none
    | j => (ofJson j).map some

/-! ## Records -/

/-- The member of a name, if there is one. Nothing is read where a name
stands twice. -/
def memberOf (members : List (String × Json)) (name : String) : Option (Option Json) :=
  match Json.membersNamed name members with
  | [] => some none
  | [v] => some (some v)
  | _ => none

/-- The fields of a record by their names. In an array none may be missing. -/
def fieldsOf (names : List String) : Json → Option (List (Option Json))
  | .object members => names.mapM (memberOf members)
  | .array items => if items.length = names.length then some (items.map some) else none
  | _ => none

def required {α : Type} [Wire α] (field : Option Json) : Option α := field.bind ofJson

/-- A field that may be missing. -/
def optional {α : Type} [Wire α] : Option Json → Option (Option α)
  | none => some none
  | some j => ofJson j

/-! ## Automata -/

/-- A kind is read from its name, or from an object that has this name for
its only member. -/
instance : Wire Kind where
  toJson k := .string k.name
  ofJson
    | .string "DFA" => some .dfa
    | .string "NFA" => some .nfa
    | .object [("DFA", .null)] => some .dfa
    | .object [("NFA", .null)] => some .nfa
    | _ => none

def keyFields : List String := ["from", "symbol"]

instance : Wire Key where
  toJson k := .object (keyFields.zip [toJson k.source, toJson k.symbol])
  ofJson j := do
    match ← fieldsOf keyFields j with
    | [source, symbol] => return ⟨← required source, ← required symbol⟩
    | _ => none

def entryFields : List String := ["key", "targets"]

instance : Wire Entry where
  toJson e := .object (entryFields.zip [toJson e.key, toJson e.targets])
  ofJson j := do
    match ← fieldsOf entryFields j with
    | [key, targets] => return ⟨← required key, ← required targets⟩
    | _ => none

/-- A table is its entries. The index is made anew when it is read. -/
instance : Wire Table :=
  ⟨fun t => toJson t.entries, fun j => (ofJson j : Option (List Entry)).map .ofEntries⟩

def automatonFields : List String :=
  ["type", "states", "alphabet", "transitions", "initialState", "acceptingStates"]

instance : Wire Automaton where
  toJson a := .object (automatonFields.zip
    [toJson a.kind, toJson a.states, toJson a.alphabet, toJson a.table, toJson a.initial,
     toJson a.accepting])
  ofJson j := do
    match ← fieldsOf automatonFields j with
    | [kind, states, alphabet, table, initial, accepting] =>
      return ⟨← required kind, ← required states, ← required alphabet, ← required table,
        ← required initial, ← required accepting⟩
    | _ => none

/-! ## Runs -/

def firedFields : List String := ["from", "symbol", "to"]

instance : Wire Fired where
  toJson f := .object (firedFields.zip [toJson f.source, toJson f.symbol, toJson f.target])
  ofJson j := do
    match ← fieldsOf firedFields j with
    | [source, symbol, target] =>
      return ⟨← required source, ← required symbol, ← required target⟩
    | _ => none

def pathFields : List String := ["states", "accepting"]

instance : Wire Path where
  toJson p := .object (pathFields.zip [toJson p.states, toJson p.accepting])
  ofJson j := do
    match ← fieldsOf pathFields j with
    | [states, accepting] => return ⟨← required states, ← required accepting⟩
    | _ => none

def resultFields : List String := ["input", "accepted"]

instance : Wire BatchResult where
  toJson r := .object (resultFields.zip [toJson r.input, toJson r.accepted])
  ofJson j := do
    match ← fieldsOf resultFields j with
    | [input, accepted] => return ⟨← required input, ← required accepted⟩
    | _ => none

def snapshotFields : List String :=
  ["input", "length", "step", "current", "complete", "accepted", "last_transition", "paths"]

instance : Wire Snapshot where
  toJson s := .object (snapshotFields.zip
    [toJson (String.ofList s.input), toJson s.length, toJson s.step, toJson s.current,
     toJson s.complete, toJson s.accepted, toJson s.last, toJson s.paths])
  ofJson j := do
    match ← fieldsOf snapshotFields j with
    | [input, length, step, current, complete, accepted, last, paths] =>
      return ⟨(← required (α := String) input).toList, ← required length, ← required step,
        ← required current, ← required complete, ← required accepted, ← optional last,
        ← optional paths⟩
    | _ => none

/-! ## Conversions -/

def descriptionFields : List String := Description.Field.all.map Description.Field.name

instance : Wire Description where
  toJson d := .object (descriptionFields.zip (Description.Field.all.map fun f => toJson (d.get f)))
  ofJson j := do
    match ← fieldsOf descriptionFields j with
    | [states, alphabet, initial, accepting, transitions] =>
      return ⟨← required states, ← required alphabet, ← required initial, ← required accepting,
        ← required transitions⟩
    | _ => none

def responseFields : List String := ["dfa", "nfa"]

instance : Wire ConversionResponse where
  toJson r := .object (responseFields.zip [toJson r.dfa, toJson r.nfa])
  ofJson j := do
    match ← fieldsOf responseFields j with
    | [dfa, nfa] => return ⟨← required dfa, ← required nfa⟩
    | _ => none

/-- How deep the brackets of a request may nest. -/
def requestDepth : Nat := 127

mutual

/-- Whether a value nests no deeper than the given depth, and all its strings
and numbers can be held. -/
def isHeld : Nat → Json → Bool
  | _, .broken => false
  | _, .number n => n.toFloat?.isSome
  | 0, .array _ => false
  | 0, .object _ => false
  | depth + 1, .array items => areHeld depth items
  | depth + 1, .object members => membersHeld depth members
  | _, _ => true

def areHeld : Nat → List Json → Bool
  | _, [] => true
  | depth, v :: vs => isHeld depth v && areHeld depth vs

def membersHeld : Nat → List (String × Json) → Bool
  | _, [] => true
  | depth, (_, v) :: ms => isHeld depth v && membersHeld depth ms

end

/-- A single member of a name that holds a text. -/
def textMember (members : List (String × Json)) (name : String) : Option String :=
  (memberOf members name).bind required

/-- A request is held as a whole before it is told from its members what is
asked for, so every part of it has to be sound. -/
instance : Wire ConversionRequest where
  toJson
    | .regex expression => .object [("regex", toJson expression)]
    | .description text => .object [("description", toJson text)]
  ofJson
    | .object members =>
      if isHeld requestDepth (.object members) then
        ((textMember members "regex").map .regex).or
          ((textMember members "description").map .description)
      else none
    | _ => none

end Wire

end Stepwise
