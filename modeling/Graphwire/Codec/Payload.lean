import Graphwire.Codec.Record

/-!
# Payloads

Writers and readers of payloads, by the number of levels of nodes that they may still enter. With
no level left, a scalar or a member of an enumeration can still be written and read.
-/

namespace Graphwire

set_option autoImplicit false

/-- The next level, unless none is left. -/
def Environment.descend {α : Type} (env : Environment) (inner : Option α) : Except Error α :=
  match inner with
  | some a => .ok a
  | none => .error (.depthExceeded env.config.maxDepth)

theorem Environment.inner_of_descend {α : Type} {env : Environment} {inner : Option α} {a : α}
    (h : env.descend inner = .ok a) : inner = some a := by
  cases inner <;> cases h
  rfl

namespace Write

/-- A container of the given type. -/
def container (env : Environment) (g : Graph) (inner : Option WritePayload) (t : TypeId)
    (shape : Shape) (v : Value) : Write (List UInt8) :=
  match g.nodeOf? v with
  | some (.list elements) =>
    if t = .list then do items env g (← (env.descend inner : Except Error _)) shape elements
    else (g.mismatch t.typeName v : Except Error _)
  | some (.set elements) =>
    if t = .set then do items env g (← (env.descend inner : Except Error _)) shape elements
    else (g.mismatch t.typeName v : Except Error _)
  | some (.map pairs) =>
    if t = .map then do entries env g (← (env.descend inner : Except Error _)) shape pairs
    else (g.mismatch t.typeName v : Except Error _)
  | _ => (g.mismatch t.typeName v : Except Error _)

/-- A payload, given the writer for one level further in. -/
def layer (env : Environment) (g : Graph) (inner : Option WritePayload) : WritePayload :=
  fun wire shape v =>
    match wire with
    | .builtin t =>
      if t.isContainer then container env g inner t shape v
      else (g.encodeScalar t v : Except Error _)
    | .struct s strict =>
      match g.asRecord? v with
      | none => (g.mismatch s.qualifiedName v : Except Error _)
      | some r =>
        if r.typeName ≠ s.qualifiedName then throw (.recordMismatch s.qualifiedName r.typeName)
        else do record env g (← (env.descend inner : Except Error _)) s strict r
    | .peer p => throw (.readOnlyDefinition p.typeName)
    | .enum typeName members =>
      match v with
      | .enum _ ordinal =>
        if members.all (ordinal < ·) then return Encode.varuint32 ordinal
        else throw (.notAMember ordinal typeName)
      | _ => (g.mismatch typeName v : Except Error _)

/-- A payload with at most the given number of levels. -/
def payload (env : Environment) (g : Graph) : Nat → WritePayload
  | 0 => layer env g none
  | levels + 1 => layer env g (some (payload env g levels))

/-- A value with the marker and the type that are asked for. -/
def value (env : Environment) (g : Graph) (mode : RefMode) (hasType : Bool) (shape : Shape)
    (v : Value) : Write (List UInt8) :=
  marked env g (payload env g env.config.maxDepth) mode hasType shape v

end Write

namespace Read

/-- Reads a container of the given type. -/
def container (env : Environment) (inner : ReadPayload) (t : TypeId) (shape : Shape)
    (slot : Option Nat) : Read Value :=
  if t = .map then entries env inner shape slot
  else items env inner (if t = .set then .set else .list) shape slot

/-- Reads a payload, given the reader for one level further in. -/
def layer (env : Environment) (inner : Option ReadPayload) : ReadPayload := fun wire shape slot =>
  match wire with
  | .builtin t =>
    if t.isContainer then do container env (← check (env.descend inner)) t shape slot
    else scalar env.config.limits t
  | .struct s strict => do record env (← check (env.descend inner)) s strict slot
  | .peer p => do peerRecord env (← check (env.descend inner)) p slot
  | .enum typeName members => do
    let ordinal ← decode Decode.varuint32
    if members.all (ordinal < ·) then return .enum typeName ordinal
    else throw (.notAMember ordinal typeName)

/-- Reads a payload with at most the given number of levels. -/
def payload (env : Environment) : Nat → ReadPayload
  | 0 => layer env none
  | levels + 1 => layer env (some (payload env levels))

/-- Reads a value with the marker and the type that are asked for. -/
def value (env : Environment) (mode : RefMode) (hasType : Bool) (shape : Shape) : Read Value :=
  marked env (payload env env.config.maxDepth) mode hasType shape

end Read

end Graphwire
