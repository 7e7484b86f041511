import Graphwire.Number.Integer
import Graphwire.Number.Binary
import Graphwire.Time.Calendar

/-!
# Values

A value is a scalar, the member of an enumeration, or a handle to a node of a graph. Nodes are
lists, sets, maps and records; they hold values in turn, so nodes can be shared and can contain
themselves. A record keeps its fields in a table sorted by name.
-/

namespace Graphwire

set_option autoImplicit false

open Calendar (Day Instant Span)

/-- The place of a node in a graph. -/
structure Handle where
  index : Nat
  deriving DecidableEq, Repr, Inhabited

/-- A scalar or a handle. Floating-point numbers are kept as bit patterns. -/
inductive Value where
  | null
  | bool (b : Bool)
  | int (n : Integer)
  | float32 (bits : UInt32)
  | float64 (bits : UInt64)
  | string (s : String)
  | binary (bytes : List UInt8)
  | date (day : Day)
  | timestamp (instant : Instant)
  | duration (span : Span)
  | enum (typeName : String) (ordinal : Nat)
  | handle (h : Handle)
  deriving DecidableEq, Repr

instance : Inhabited Value := ⟨.null⟩

namespace Value

def isNull : Value → Bool
  | null => true
  | _ => false

theorem eq_null_of_isNull {v : Value} (h : v.isNull = true) : v = .null := by
  cases v <;> first | rfl | cases h

/-- The handle of a value that has an identity. -/
def handle? : Value → Option Handle
  | handle h => some h
  | _ => none

def asString? : Value → Option String
  | string s => some s
  | _ => none

def asBool? : Value → Option Bool
  | bool b => some b
  | _ => none

/-- The numeric value of an integer of any kind. -/
def asInt? : Value → Option Int
  | int n => some n.val
  | _ => none

/-- The numeric value of an integer that fits 64 bits with a sign. -/
def asInt64? (v : Value) : Option Int :=
  v.asInt?.filter fun n => IntKind.int64.minValue ≤ n ∧ n ≤ IntKind.int64.maxValue

/-- A floating-point number of either width as a binary64 pattern. -/
def asFloat64? : Value → Option UInt64
  | float32 bits => some (widen bits)
  | float64 bits => some bits
  | _ => none

end Value

/-- Fields sorted by name, each name at most once. -/
structure FieldTable where
  entries : List (String × Value)
  sorted : entries.Pairwise fun a b => a.1 < b.1
  deriving DecidableEq, Repr

namespace FieldTable

/-- The table without fields. -/
def empty : FieldTable := ⟨[], .nil⟩

/-- Puts an entry at its place in a sorted list, over an entry of that name. -/
def insertEntry (name : String) (v : Value) : List (String × Value) → List (String × Value)
  | [] => [(name, v)]
  | e :: rest =>
    if name < e.1 then (name, v) :: e :: rest
    else if name = e.1 then (name, v) :: rest
    else e :: insertEntry name v rest

theorem mem_insertEntry {name : String} {v : Value} {e : String × Value}
    {entries : List (String × Value)} (h : e ∈ insertEntry name v entries) :
    e = (name, v) ∨ e ∈ entries := by
  induction entries with
  | nil => simpa [insertEntry] using h
  | cons d rest ih =>
    simp only [insertEntry] at h
    split at h
    · simpa using h
    · split at h
      · rcases List.mem_cons.1 h with h | h
        · exact .inl h
        · exact .inr (List.mem_cons_of_mem _ h)
      · rcases List.mem_cons.1 h with h | h
        · exact .inr (h ▸ List.mem_cons_self)
        · exact (ih h).imp_right (List.mem_cons_of_mem _)

theorem pairwise_insertEntry {name : String} {v : Value} {entries : List (String × Value)}
    (h : entries.Pairwise fun a b => a.1 < b.1) :
    (insertEntry name v entries).Pairwise fun a b => a.1 < b.1 := by
  induction entries with
  | nil => simp [insertEntry]
  | cons d rest ih =>
    rw [List.pairwise_cons] at h
    simp only [insertEntry]
    split
    · rename_i lt
      refine List.pairwise_cons.2 ⟨fun e he => ?_, List.pairwise_cons.2 h⟩
      rcases List.mem_cons.1 he with rfl | he
      · exact lt
      · exact String.lt_trans lt (h.1 e he)
    · rename_i nlt
      split
      · rename_i eq
        exact List.pairwise_cons.2 ⟨fun e he => eq ▸ h.1 e he, h.2⟩
      · rename_i ne
        refine List.pairwise_cons.2 ⟨fun e he => ?_, ih h.2⟩
        rcases mem_insertEntry he with rfl | he
        · refine String.not_le.1 fun le => ne ?_
          exact String.le_antisymm le (String.not_lt.1 nlt)
        · exact h.1 e he

/-- Sets a field. -/
def set (t : FieldTable) (name : String) (v : Value) : FieldTable :=
  ⟨insertEntry name v t.entries, pairwise_insertEntry t.sorted⟩

/-- The value of a field. -/
def get? (t : FieldTable) (name : String) : Option Value := t.entries.lookup name

/-- Takes a field away. -/
def erase (t : FieldTable) (name : String) : FieldTable :=
  ⟨t.entries.filter (·.1 ≠ name), t.sorted.filter _⟩

def contains (t : FieldTable) (name : String) : Bool := (t.get? name).isSome

def size (t : FieldTable) : Nat := t.entries.length

def names (t : FieldTable) : List String := t.entries.map (·.1)

/-- Replaces every value. -/
def mapValues (t : FieldTable) (f : Value → Value) : FieldTable :=
  ⟨t.entries.map fun e => (e.1, f e.2), List.pairwise_map.2 t.sorted⟩

end FieldTable

/-- A record: the qualified name of its type and the fields that are set. -/
structure Record where
  typeName : String
  fields : FieldTable
  deriving DecidableEq, Repr

namespace Record

/-- A record of a type, no field set. -/
def ofType (typeName : String) : Record := ⟨typeName, .empty⟩

def get? (r : Record) (name : String) : Option Value := r.fields.get? name

def set (r : Record) (name : String) (v : Value) : Record := { r with fields := r.fields.set name v }

def erase (r : Record) (name : String) : Record := { r with fields := r.fields.erase name }

def contains (r : Record) (name : String) : Bool := r.fields.contains name

/-- The value of a field, null when it is not set. -/
def value (r : Record) (name : String) : Value := (r.get? name).getD .null

end Record

/-- What a handle stands for. Sets are ordered and may hold an element twice; maps are lists of
entries. -/
inductive Node where
  | list (items : List Value)
  | set (items : List Value)
  | map (entries : List (Value × Value))
  | record (r : Record)
  deriving DecidableEq, Repr

/-- The node with every value in it replaced. -/
def Node.mapValues (f : Value → Value) : Node → Node
  | .list items => .list (items.map f)
  | .set items => .set (items.map f)
  | .map entries => .map (entries.map fun (k, v) => (f k, f v))
  | .record r => .record { r with fields := r.fields.mapValues f }

/-- Nodes under their handles. -/
structure Graph where
  nodes : Array Node
  deriving DecidableEq, Repr

namespace Graph

/-- The graph without nodes. -/
def empty : Graph := ⟨#[]⟩

/-- The number of nodes. -/
def size (g : Graph) : Nat := g.nodes.size

/-- The node of a handle. A handle that the graph does not have stands for an empty list. -/
def node (g : Graph) (h : Handle) : Node := g.nodes[h.index]?.getD (.list [])

/-- Adds a node under a new handle. -/
def alloc (g : Graph) (n : Node) : Handle × Graph := (⟨g.size⟩, ⟨g.nodes.push n⟩)

/-- Replaces the node of a handle. -/
def set (g : Graph) (h : Handle) (n : Node) : Graph := ⟨g.nodes.setIfInBounds h.index n⟩

/-- The node of a value that has one. -/
def nodeOf? (g : Graph) (v : Value) : Option Node := v.handle?.map g.node

def asRecord? (g : Graph) (v : Value) : Option Record :=
  match g.nodeOf? v with
  | some (.record r) => some r
  | _ => none

/-- The elements of a list or a set. -/
def asItems? (g : Graph) (v : Value) : Option (List Value) :=
  match g.nodeOf? v with
  | some (.list items) | some (.set items) => some items
  | _ => none

def asMap? (g : Graph) (v : Value) : Option (List (Value × Value)) :=
  match g.nodeOf? v with
  | some (.map entries) => some entries
  | _ => none

/-- The name of a value's kind. -/
def kindName (g : Graph) : Value → String
  | .null => "null"
  | .bool _ => "bool"
  | .int n => n.kind.name
  | .float32 _ => "float32"
  | .float64 _ => "float64"
  | .string _ => "string"
  | .binary _ => "binary"
  | .date _ => "date"
  | .timestamp _ => "timestamp"
  | .duration _ => "duration"
  | .enum .. => "enum"
  | .handle h =>
    match g.node h with
    | .list _ => "list"
    | .set _ => "set"
    | .map _ => "map"
    | .record _ => "record"

@[simp] theorem size_alloc (g : Graph) (n : Node) : (g.alloc n).2.size = g.size + 1 := by
  simp [alloc, size]

@[simp] theorem size_set (g : Graph) (h : Handle) (n : Node) : (g.set h n).size = g.size := by
  simp [set, size]

/-- The new handle holds the new node. -/
@[simp] theorem node_alloc_new (g : Graph) (n : Node) :
    (g.alloc n).2.node (g.alloc n).1 = n := by
  simp [alloc, node, size]

/-- Older handles keep their nodes. -/
theorem node_alloc_old (g : Graph) (n : Node) (h : Handle) (lt : h.index < g.size) :
    (g.alloc n).2.node h = g.node h := by
  simp only [size] at lt
  simp [alloc, node, Array.getElem?_push, Nat.ne_of_lt lt]

theorem node_set_self (g : Graph) (h : Handle) (n : Node) (lt : h.index < g.size) :
    (g.set h n).node h = n := by
  simp only [size] at lt
  simp [set, node, lt]

theorem node_set_other (g : Graph) (h k : Handle) (n : Node) (ne : h ≠ k) :
    (g.set h n).node k = g.node k := by
  have : h.index ≠ k.index := fun e => ne (by cases h; cases k; simp_all)
  simp [set, node, Array.getElem?_setIfInBounds_ne, this]

end Graph

/-- A value together with the graph that its handles belong to. -/
structure Template where
  graph : Graph
  root : Value
  deriving DecidableEq, Repr

/-- A handle moved up by an offset. -/
def Value.shift (offset : Nat) : Value → Value
  | .handle h => .handle ⟨h.index + offset⟩
  | v => v

/-- A fresh copy of the template's nodes at the end of a graph. -/
def Template.instantiate (t : Template) (g : Graph) : Value × Graph :=
  (t.root.shift g.size, ⟨g.nodes ++ t.graph.nodes.map (Node.mapValues (Value.shift g.size))⟩)

end Graphwire
