import Graphwire.Proofs.Ceilings
import Graphwire.Proofs.Trees

/-!
# What readers accept

What a strict reader without references lets through, whatever bytes it was given: containers and
scalars within the ceilings, and records of registered types, complete and with declared fields only,
whose values fit the fields where no type stands before them. A record is complete only once all its
fields were read, so what was accepted of one is told for the fields read so far. A frame that brings
type definitions may also leave records with any fields, some of them set to defaults, which no
ceiling holds for. So what was accepted is told with the defaults that were put in.
-/

namespace Graphwire

set_option autoImplicit false

/-! ## Kinds of nodes -/

/-- The kind of a node, with the type of a record. -/
inductive NodeKind where
  | list
  | set
  | map
  | record (typeName : String)
  deriving DecidableEq, Repr

def Node.kind : Node → NodeKind
  | .list _ => .list
  | .set _ => .set
  | .map _ => .map
  | .record r => .record r.typeName

/-- The kind of the nodes that values of a container type are. -/
def TypeId.nodeKind? (t : TypeId) : Option NodeKind :=
  if t = .list then some .list
  else if t = .set then some .set
  else if t = .map then some .map
  else none

namespace Graph

/-- Whether a graph has the nodes of another one, of the same kinds, and possibly more. -/
structure Grows (g g' : Graph) : Prop where
  size : g.size ≤ g'.size
  kind : ∀ h, h.index < g.size → (g'.node h).kind = (g.node h).kind

theorem Grows.refl (g : Graph) : g.Grows g := ⟨Nat.le_refl _, fun _ _ => rfl⟩

theorem Grows.trans {g₁ g₂ g₃ : Graph} (h₁ : g₁.Grows g₂) (h₂ : g₂.Grows g₃) : g₁.Grows g₃ :=
  ⟨Nat.le_trans h₁.size h₂.size,
    fun h lt => (h₂.kind h (Nat.lt_of_lt_of_le lt h₁.size)).trans (h₁.kind h lt)⟩

theorem Grows.set {g : Graph} {h : Handle} {n : Node} (bound : h.index < g.size)
    (kind : n.kind = (g.node h).kind) : g.Grows (g.set h n) := by
  refine ⟨by simp, fun k _ => ?_⟩
  by_cases same : k = h
  · rw [same, g.node_set_self h n bound, kind]
  · rw [g.node_set_other h k n (Ne.symm same)]

theorem Extends.grows {g g' : Graph} (h : g.Extends g') : g.Grows g' :=
  ⟨h.size, fun k lt => by rw [h.node k lt]⟩

end Graph

/-! ## Accounts -/

/-- What a reader answers for: the graph, the defaults that were put into it, and whether a definition
was met. -/
structure Account where
  graph : Graph
  filled : List Filling
  defined : Prop

def ReadState.account (s : ReadState) : Account := ⟨s.graph, s.filled, s.met ≠ []⟩

namespace Account

/-- Whether a node is there and did not come with a default. -/
structure Clear (a : Account) (h : Handle) : Prop where
  bound : h.index < a.graph.size
  uncovered : ∀ x ∈ a.filled, ¬x.Covers h

/-- Whether an account has all of another one and possibly more, with the nodes of the same kinds and
new defaults behind them. -/
structure Grows (a b : Account) : Prop where
  graph : a.graph.Grows b.graph
  kept : a.filled ⊆ b.filled
  later : ∀ x ∈ b.filled, x ∈ a.filled ∨ a.graph.size ≤ x.offset
  defined : a.defined → b.defined

variable {a b c : Account} {h : Handle}

theorem Grows.refl (a : Account) : a.Grows a :=
  ⟨.refl _, List.Subset.refl _, fun _ member => .inl member, id⟩

theorem Grows.trans (h₁ : a.Grows b) (h₂ : b.Grows c) : a.Grows c := by
  refine ⟨h₁.graph.trans h₂.graph, List.Subset.trans h₁.kept h₂.kept, fun x member => ?_,
    h₂.defined ∘ h₁.defined⟩
  rcases h₂.later x member with early | late
  · exact h₁.later x early
  · exact .inr (Nat.le_trans h₁.graph.size late)

theorem Grows.ofGraph {g g' : Graph} (grows : g.Grows g') (filled : List Filling) (defined : Prop) :
    Grows ⟨g, filled, defined⟩ ⟨g', filled, defined⟩ :=
  ⟨grows, List.Subset.refl _, fun _ member => .inl member, id⟩

theorem Clear.mono (clear : a.Clear h) (grows : a.Grows b) : b.Clear h := by
  refine ⟨Nat.lt_of_lt_of_le clear.bound grows.graph.size, fun x member covers => ?_⟩
  rcases grows.later x member with early | late
  · exact clear.uncovered x early covers
  · exact absurd clear.bound (Nat.not_lt.2 (Nat.le_trans late covers.1))

end Account

/-! ## Values -/

/-- Whether a reader can have accepted a value. -/
def Value.Accepted (env : Environment) (a : Account) : Value → Prop
  | .enum typeName ordinal => ordinal < 2 ^ 32 ∧ (env.config.requireRegistration = true →
      ∃ e, env.registry.enum? typeName = some e ∧ ordinal < e.members.length)
  | .handle h => a.Clear h
  | v => v.Exact ∧ v.Within env.config.limits

/-- Whether a value is no handle to a node that a graph lacks. -/
def Value.Inside (g : Graph) (v : Value) : Prop := ∀ h, v = .handle h → h.index < g.size

/-- Whether a value is one of a wire type. -/
def WireType.Holds (g : Graph) (wire : WireType) (v : Value) : Prop :=
  match wire with
  | .builtin t => (∃ b, t.builtin? = some b ∧ b.Holds v) ∨
      ∃ h, v = .handle h ∧ t.nodeKind? = some (g.node h).kind
  | .struct s _ => ∃ h, v = .handle h ∧ (g.node h).kind = .record s.qualifiedName
  | .peer _ => False
  | .enum typeName members => ∃ ordinal, v = .enum typeName ordinal ∧
      members.all (ordinal < ·) = true

/-- Whether a value is one of a declared shape. -/
def Environment.Suits (env : Environment) (g : Graph) (shape : Shape) (v : Value) : Prop :=
  ∃ wire, env.declaredType shape = .ok wire ∧ wire.Holds g v

section

variable {env : Environment} {g g' : Graph} {v : Value}

theorem Value.Accepted.mono {a b : Account} (h : v.Accepted env a) (grows : a.Grows b) :
    v.Accepted env b := by
  cases v with
  | handle k => exact h.mono grows
  | _ => exact h

theorem Value.Accepted.inside {a : Account} (h : v.Accepted env a) : v.Inside a.graph :=
  fun _ same => by
    subst same
    exact h.bound

theorem Value.Inside.mono (h : v.Inside g) (grows : g.Grows g') : v.Inside g' :=
  fun k same => Nat.lt_of_lt_of_le (h k same) grows.size

theorem WireType.Holds.mono {wire : WireType} (h : wire.Holds g v) (inside : v.Inside g)
    (grows : g.Grows g') : wire.Holds g' v := by
  cases wire with
  | builtin t =>
    rcases h with scalar | ⟨k, rfl, kind⟩
    · exact .inl scalar
    · exact .inr ⟨k, rfl, by rw [grows.kind k (inside k rfl)]; exact kind⟩
  | struct s strict =>
    obtain ⟨k, rfl, kind⟩ := h
    exact ⟨k, rfl, by rw [grows.kind k (inside k rfl)]; exact kind⟩
  | _ => exact h

theorem Environment.Suits.mono {shape : Shape} (h : env.Suits g shape v)
    (inside : v.Inside g) (grows : g.Grows g') : env.Suits g' shape v :=
  let ⟨wire, declared, holds⟩ := h
  ⟨wire, declared, holds.mono inside grows⟩

theorem Builtin.Holds.isNull {b : Builtin} (h : b.Holds v) : v.isNull = false := by
  cases h <;> rfl

theorem WireType.Holds.isNull {wire : WireType} (h : wire.Holds g v) : v.isNull = false := by
  cases wire with
  | builtin t =>
    rcases h with ⟨b, -, scalar⟩ | ⟨k, rfl, -⟩
    · exact scalar.isNull
    · rfl
  | struct s strict =>
    obtain ⟨k, rfl, -⟩ := h
    rfl
  | peer p => exact h.elim
  | enum typeName members =>
    obtain ⟨ordinal, rfl, -⟩ := h
    rfl

end

/-! ## Nodes -/

/-- Whether a record holds values for some of the declared fields that a reader can have accepted,
and for all that may not be null. -/
structure Record.Accepted (env : Environment) (a : Account) (fields : List Field) (r : Record) :
    Prop where
  entries : ∀ e ∈ r.fields.entries, ∃ f ∈ fields, f.name = e.1 ∧ e.2.isNull = false ∧
    e.2.Accepted env a ∧ (f.hasTypeInfo false = false → env.Suits a.graph f.shape e.2)
  present : ∀ f ∈ fields, f.nullable = false → ∃ e ∈ r.fields.entries, e.1 = f.name

/-- Whether a record holds nothing but defaults and values that a reader can have accepted. -/
def Record.Gathered (env : Environment) (a : Account) (h : Handle) (r : Record) : Prop :=
  ∀ e ∈ r.fields.entries, e.2.Accepted env a ∨ ∃ x ∈ a.filled, x.Fills h e

/-- Whether a reader can have accepted a node. -/
def Node.Accepted (env : Environment) (a : Account) (h : Handle) : Node → Prop
  | .list items | .set items =>
    items.length < 2 ^ 32 ∧ env.config.limits.Admits .collection items.length ∧
      ∀ v ∈ items, v.Accepted env a
  | .map entries =>
    entries.length < 2 ^ 32 ∧ env.config.limits.Admits .map entries.length ∧
      ∀ e ∈ entries, e.1.Accepted env a ∧ e.2.Accepted env a
  | .record r => (∃ s, env.registry.struct? r.typeName = some s ∧ r.Accepted env a s.fields) ∨
      a.defined ∧ r.Gathered env a h

section

variable {env : Environment} {a b : Account} {h : Handle} {r : Record}

theorem Record.Accepted.mono {fields : List Field} (accepted : r.Accepted env a fields)
    (grows : a.Grows b) : r.Accepted env b fields := by
  refine ⟨fun e member => ?_, accepted.present⟩
  obtain ⟨f, declared, name, present, value, suits⟩ := accepted.entries e member
  exact ⟨f, declared, name, present, value.mono grows,
    fun untyped => (suits untyped).mono value.inside grows.graph⟩

theorem Record.Gathered.mono (gathered : r.Gathered env a h) (grows : a.Grows b) :
    r.Gathered env b h := fun e member =>
  (gathered e member).imp (·.mono grows) fun ⟨x, noted, fills⟩ => ⟨x, grows.kept noted, fills⟩

theorem Record.Gathered.set (gathered : r.Gathered env a h) {name : String} {v : Value}
    (admitted : v.Accepted env a ∨ ∃ x ∈ a.filled, x.Fills h (name, v)) :
    (r.set name v).Gathered env a h := by
  intro e member
  rcases FieldTable.mem_insertEntry
    (show e ∈ FieldTable.insertEntry name v r.fields.entries from member) with rfl | old
  · exact admitted
  · exact gathered e old

theorem Node.Accepted.mono {n : Node} (accepted : n.Accepted env a h) (grows : a.Grows b) :
    n.Accepted env b h := by
  cases n with
  | list | set =>
    exact ⟨accepted.1, accepted.2.1, fun v member => (accepted.2.2 v member).mono grows⟩
  | map =>
    exact ⟨accepted.1, accepted.2.1,
      fun e member => (accepted.2.2 e member).imp (·.mono grows) (·.mono grows)⟩
  | record r =>
    rcases accepted with ⟨s, found, complete⟩ | ⟨defined, gathered⟩
    · exact .inl ⟨s, found, complete.mono grows⟩
    · exact .inr ⟨grows.defined defined, gathered.mono grows⟩

theorem Record.accepted_ofType (typeName : String) :
    (Record.ofType typeName).Accepted env a [] :=
  ⟨fun _ member => absurd member List.not_mem_nil, fun _ member => absurd member List.not_mem_nil⟩

/-- One more field was read, and set unless its value is null. -/
theorem Record.Accepted.put {done : List Field} {f : Field} {v : Value}
    (accepted : r.Accepted env a done) (value : v.Accepted env a)
    (null : v.isNull = true → f.nullable = true)
    (suits : v.isNull = false → f.hasTypeInfo false = false → env.Suits a.graph f.shape v) :
    (r.put f.name v).Accepted env a (done ++ [f]) := by
  unfold Record.put
  split
  · rename_i isNull
    refine ⟨fun e member => ?_, fun f' member required => ?_⟩
    · obtain ⟨f', declared, rest⟩ := accepted.entries e member
      exact ⟨f', List.mem_append_left _ declared, rest⟩
    · rcases List.mem_append.1 member with member | member
      · exact accepted.present f' member required
      · rw [List.mem_singleton.1 member, null isNull] at required
        cases required
  · rename_i present
    have present : v.isNull = false := by simpa using present
    have inserted (e : String × Value) : e ∈ (r.set f.name v).fields.entries ↔
        e ∈ FieldTable.insertEntry f.name v r.fields.entries := Iff.rfl
    refine ⟨fun e member => ?_, fun f' member required => ?_⟩
    · rcases FieldTable.mem_insertEntry ((inserted e).1 member) with rfl | old
      · exact ⟨f, List.mem_append_right _ (List.mem_singleton_self _), rfl, present, value,
          suits present⟩
      · obtain ⟨f', declared, rest⟩ := accepted.entries e old
        exact ⟨f', List.mem_append_left _ declared, rest⟩
    · by_cases same : f'.name = f.name
      · have set : (r.set f.name v).get? f.name = some v := by
          rw [Record.get?_set, if_pos rfl]
        exact ⟨(f.name, v), mem_of_lookup set, same.symm⟩
      · have member : f' ∈ done := by
          rcases List.mem_append.1 member with member | member
          · exact member
          · exact absurd (congrArg Field.name (List.mem_singleton.1 member)) same
        obtain ⟨e, he, name⟩ := accepted.present f' member required
        have old := lookup_of_mem r.fields.sorted he
        have kept : (r.set f.name v).get? e.1 = some e.2 := by
          rw [Record.get?_set, if_neg (by rw [name]; exact same)]
          exact old
        exact ⟨(e.1, e.2), mem_of_lookup kept, name⟩

end

end Graphwire
