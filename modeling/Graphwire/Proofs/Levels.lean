import Graphwire.Proofs.Channels
import Mathlib.Data.List.Perm.Subperm
import Mathlib.Logic.Relation

/-!
# Levels and cycles

A writer goes down a graph that may have cycles, so what ends it is the count of levels alone. Counted
up in 32 bits, as a machine does it, no value goes further than one call beyond the most levels that the
settings allow, if these are fewer than the counter can tell apart. Without references every value that
is written goes down by as many levels as its contents need. So a cycle that is reached through what is
written needs more than there are, and is never written.
-/

namespace Graphwire

set_option autoImplicit false

/-! ## Counting levels -/

namespace Write

variable {env : Environment} {g : Graph}

/-- The writer of payloads that counts the levels it is in, in 32 bits and up from the outermost one.
After a number of calls into each other it does something else. -/
def counted (env : Environment) (g : Graph) (beyond : WritePayload) : Nat → Nat → WritePayload
  | 0, _ => beyond
  | calls + 1, depth =>
    let next := (depth + 1) % 2 ^ 32
    layer env g (if next ≤ env.config.maxDepth then some (counted env g beyond calls next) else none)

/-- Levels that are counted up are as many as levels that are counted down, and what would come after
one call more than there are levels is never reached. -/
theorem counted_eq (small : env.config.maxDepth < 2 ^ 32 - 1) (beyond : WritePayload)
    {depth levels calls : Nat} (total : depth + levels = env.config.maxDepth)
    (enough : levels < calls) : counted env g beyond calls depth = payload env g levels := by
  induction levels generalizing depth calls with
  | zero =>
    obtain ⟨others, rfl⟩ : ∃ others, calls = others + 1 := ⟨calls - 1, by omega⟩
    have next : (depth + 1) % 2 ^ 32 = depth + 1 := Nat.mod_eq_of_lt (by omega)
    simp only [counted, next]
    rw [if_neg (by omega), payload]
  | succ levels ih =>
    obtain ⟨others, rfl⟩ : ∃ others, calls = others + 1 := ⟨calls - 1, by omega⟩
    have next : (depth + 1) % 2 ^ 32 = depth + 1 := Nat.mod_eq_of_lt (by omega)
    simp only [counted, next]
    rw [if_pos (by omega), ih (by omega) (by omega), payload]

end Write

/-! ## What is written of a node -/

/-- The values that are written of a node: of a record those of the declared fields, or all if its
type is not registered. -/
def Node.written (types : Registry) : Node → List Value
  | .record r =>
    match types.struct? r.typeName with
    | some s => s.fields.map fun f => r.value f.name
    | none => r.fields.entries.map (·.2)
  | n => n.contents

namespace Graph

/-- Whether a value is written as a part of another one. -/
def Writes (types : Registry) (g : Graph) (whole part : Value) : Prop :=
  ∃ h, whole = .handle h ∧ part ∈ (g.node h).written types

/-- Whether every way down a value through what is written ends within a number of levels. -/
def Ends (types : Registry) (g : Graph) : Nat → Value → Prop
  | 0, v => v.handle? = none
  | levels + 1, v => ∀ part, g.Writes types v part → Ends types g levels part

variable {types : Registry} {g : Graph} {v c : Value}

theorem ends_scalar (scalar : v.handle? = none) (levels : Nat) : g.Ends types levels v := by
  cases levels with
  | zero => exact scalar
  | succ levels =>
    rintro part ⟨h, rfl, -⟩
    cases scalar

/-- Round a cycle there is always a level more. -/
theorem not_ends_of_cycle (reached : Relation.ReflTransGen (g.Writes types) v c)
    (cycle : Relation.TransGen (g.Writes types) c c) (levels : Nat) : ¬g.Ends types levels v := by
  have next : ∃ part, g.Writes types v part ∧ Relation.ReflTransGen (g.Writes types) part c :=
    Relation.TransGen.head'_iff.1 (cycle.trans_right reached)
  induction levels generalizing v with
  | zero =>
    obtain ⟨_, ⟨h, rfl, -⟩, -⟩ := next
    exact nofun
  | succ levels ih =>
    obtain ⟨part, writes, onward⟩ := next
    exact fun ends => ih onward (Relation.TransGen.head'_iff.1 (cycle.trans_right onward))
      (ends part writes)

end Graph

/-! ## Structs that were made up -/

/-- A struct that is made up for a record has the fields of the record. -/
theorem Registry.name_mem_adhocStruct {r : Registry} {config : Config} {record : Record}
    {s : StructType} (h : r.adhocStruct config record = .ok s) {name : String}
    (member : name ∈ record.fields.names) : name ∈ s.fields.map (·.name) := by
  rw [(StructType.fields_of_build h).1, ((canonicalOrder_perm _).map _).mem_iff, names_resolveFields]
  exact name_mem_flattenFields (f := { FieldDecl.ofShape name .dynamic with nullable := true })
    (List.mem_flatMap.2 ⟨_, List.mem_singleton_self _, List.mem_map.2 ⟨name, member, rfl⟩⟩)

/-! ## The struct of a record -/

/-- Whether a struct is the one that a record is written by: built for the settings, the registered
one where the type is registered, and with all fields that are written of the record. -/
structure StructType.Governs (env : Environment) (s : StructType) (r : Record) : Prop where
  built : s.Built env.config.compatible env.config.trackRef r.typeName s.id
  own : ∀ own, env.registry.struct? r.typeName = some own → own = s
  fields : ∀ v ∈ (Node.record r).written env.registry, ∃ f ∈ s.fields, r.value f.name = v

/-- Whether a wire type is for a value whose record, if it is one of its struct, is written by the
struct. -/
def WireType.Governs (env : Environment) (g : Graph) (v : Value) : WireType → Prop
  | .struct s _ => ∀ r, g.asRecord? v = some r → r.typeName = s.qualifiedName → s.Governs env r
  | _ => True

/-- Whether the structs that were made up were built for the settings. -/
def WriteState.Made (env : Environment) (ws : WriteState) : Prop :=
  ∀ e ∈ ws.adhoc, e.2.Built env.config.compatible env.config.trackRef e.1 none

theorem WriteState.made_initial (env : Environment) : WriteState.initial.Made env :=
  fun _ member => absurd member List.not_mem_nil

namespace StructType

variable {env : Environment} {s : StructType} {r : Record}

/-- A registered struct has the fields that are written of its records. -/
theorem governs_of_struct?
    (built : env.registry.BuiltFor env.config.compatible env.config.trackRef)
    (found : env.registry.struct? r.typeName = some s) : s.Governs env r := by
  refine ⟨built.built found, fun own same => Option.some.inj (same.symm.trans found), ?_⟩
  intro v member
  simp only [Node.written, found] at member
  exact List.mem_map.1 member

/-- A struct with all fields of a record has those that are written of it. -/
theorem governs_of_names
    (built : s.Built env.config.compatible env.config.trackRef r.typeName none)
    (unknown : env.registry.struct? r.typeName = none)
    (names : ∀ name ∈ r.fields.names, name ∈ s.fields.map (·.name)) : s.Governs env r := by
  refine ⟨built.ident.symm ▸ built, fun own same => ?_, fun v member => ?_⟩
  · rw [unknown] at same
    cases same
  simp only [Node.written, unknown] at member
  obtain ⟨⟨name, value⟩, entry, rfl⟩ := List.mem_map.1 member
  obtain ⟨f, field, rfl⟩ := List.mem_map.1 (names name (List.mem_map_of_mem entry))
  have set : r.get? f.name = some value := lookup_of_mem r.fields.sorted entry
  exact ⟨f, field, by rw [Record.value, set, Option.getD_some]⟩

/-- As many different fields as a record has, all of them in the record, are all of the record. -/
theorem names_of_size (nodup : (s.fields.map (·.name)).Nodup)
    (size : s.fields.length = r.fields.size) (all : s.fields.all fun f => r.contains f.name) :
    ∀ name ∈ r.fields.names, name ∈ s.fields.map (·.name) := by
  have sub : s.fields.map (·.name) ⊆ r.fields.names := by
    intro name member
    obtain ⟨f, field, rfl⟩ := List.mem_map.1 member
    obtain ⟨v, set⟩ := Option.isSome_iff_exists.1 (List.all_eq_true.1 all f field)
    exact List.mem_map_of_mem (mem_of_lookup set)
  have perm := (nodup.subperm sub).perm_of_length_le (by
    simp only [FieldTable.names, List.length_map, size, FieldTable.size, Nat.le_refl])
  exact fun name member => perm.mem_iff.2 member

end StructType

namespace Write

/-- What holds of every one of the things that were written, and of the writer after the last one. -/
theorem Ensures.concat {α : Type} {write : α → Write (List UInt8)} {P : α → Prop}
    {inv : WriteState → Prop} {items : List α} {ws : WriteState}
    (step : ∀ a ∈ items, ∀ ws, inv ws → Ensures (write a) ws fun _ ws' => P a ∧ inv ws')
    (before : inv ws) :
    Ensures (concat write items) ws fun _ ws' => (∀ a ∈ items, P a) ∧ inv ws' := by
  induction items generalizing ws with
  | nil => exact .pure ⟨fun _ member => absurd member List.not_mem_nil, before⟩
  | cons a items ih =>
    refine (step a List.mem_cons_self ws before).bind fun _ ws₁ first => ?_
    refine (ih (fun b member => step b (List.mem_cons_of_mem _ member)) first.2).bind
      fun _ ws₂ others => .pure ⟨?_, others.2⟩
    exact List.forall_mem_cons.2 ⟨first.1, others.1⟩

variable {env : Environment}
  (built : env.registry.BuiltFor env.config.compatible env.config.trackRef)
  {ws : WriteState} {g : Graph} {v : Value}

include built

/-- The struct that is found or made up for a record is the one to write it by. -/
theorem ensures_recordType_governs {r : Record} (made : ws.Made env) :
    Ensures (recordType env r) ws fun s ws' =>
      s.Governs env r ∧ ws'.Made env ∧ ws'.seen = ws.seen := by
  refine ensures_recordType_cases (fun s found => ?_) (fun unknown _ s known size all => ?_)
    fun unknown _ s _ adhoc => ?_
  · exact ⟨StructType.governs_of_struct? built found, made, rfl⟩
  · have earlier := made (r.typeName, s) (mem_of_lookup known)
    exact ⟨StructType.governs_of_names earlier unknown
      (StructType.names_of_size earlier.names size all), made, rfl⟩
  · have new := StructType.build_built adhoc
    refine ⟨StructType.governs_of_names new unknown fun name member =>
      Registry.name_mem_adhocStruct adhoc member, fun e member => ?_, rfl⟩
    rcases List.mem_cons.1 member with rfl | old
    · exact new
    · exact made e old

omit built in
theorem ensures_definition_made {s : StructType} (made : ws.Made env) :
    Ensures (definition s) ws fun _ ws' => ws'.Made env ∧ ws'.seen = ws.seen := by
  unfold definition
  refine Ensures.bind (Q := fun state ws' => ws = ws' ∧ ws = state) ?_ ?_
  · intro state ws' run
    cases run
    exact ⟨rfl, rfl⟩
  rintro _ _ ⟨rfl, rfl⟩
  split
  · exact .pure ⟨made, rfl⟩
  · split
    · exact .throw _
    · refine Ensures.bind (Q := fun _ ws' => ws'.Made env ∧ ws'.seen = ws.seen) ?_
        fun _ _ h => .pure h
      intro _ ws' run
      cases run
      exact ⟨made, rfl⟩

/-- The type of a value governs the record that the value is, if it is one. -/
theorem ensures_typeInfo_governs (made : ws.Made env) :
    Ensures (typeInfo env g v) ws fun p ws' =>
      p.2.Governs env g v ∧ ws'.Made env ∧ ws'.seen = ws.seen := by
  unfold typeInfo
  cases isRecord : g.asRecord? v with
  | some r =>
    refine (ensures_recordType_governs built made).bind fun s ws₁ typed => ?_
    have governs : (WireType.struct s !s.isCompatible).Governs env g v := by
      intro r' isRecord' _
      cases isRecord.symm.trans isRecord'
      exact typed.1
    split
    · exact .pure ⟨governs, typed.2⟩
    · split
      · exact .pure ⟨governs, typed.2⟩
      · exact (ensures_definition_made typed.2.1).bind fun _ _ made =>
          .pure ⟨governs, made.1, made.2.trans typed.2.2⟩
  | none =>
    split
    · contradiction
    · split
      · exact .pure ⟨trivial, made, rfl⟩
      · split
        · exact .throw _
        · exact .pure ⟨trivial, made, rfl⟩
    · split
      · exact .pure ⟨trivial, made, rfl⟩
      · exact .throw _

/-- A declared type governs the records of its name. -/
theorem governs_of_declaredType {shape : Shape} {wire : WireType}
    (declared : env.declaredType shape = .ok wire) : wire.Governs env g v := by
  cases shape with
  | named name =>
    simp only [Environment.declaredType] at declared
    split at declared <;> cases declared
    · rename_i s found
      have found := Registry.named?_eq_struct_iff.1 found
      intro r _ named
      rw [(built.built found).qualifiedName] at named
      exact StructType.governs_of_struct? built (named ▸ found)
    · exact trivial
  | dynamic => cases declared
  | _ => cases declared; exact trivial

/-- A writer that leads a value to its payload. What it does apart from that changes neither the
handles that were seen nor the structs that were made up. -/
theorem ensures_typed_governs {inner : WritePayload} {hasType : Bool} {shape : Shape}
    {Q : WriteState → Prop} (made : ws.Made env)
    (h : ∀ wire ws₁, wire.Governs env g v → ws₁.Made env → ws₁.seen = ws.seen →
      Ensures (inner wire shape v) ws₁ fun _ ws' => Q ws') :
    Ensures (typed env g inner hasType shape v) ws fun _ ws' => Q ws' := by
  unfold typed
  split
  · exact (ensures_typeInfo_governs built made).bind fun p ws₁ told =>
      (h p.2 ws₁ told.1 told.2.1 told.2.2).bind fun _ _ after => .pure after
  · refine Ensures.bind (Q := fun wire ws₁ => wire.Governs env g v ∧ ws = ws₁)
      (.lift fun _ declared => ⟨governs_of_declaredType built declared, rfl⟩) ?_
    rintro wire _ ⟨governs, rfl⟩
    exact h wire ws governs made rfl

end Write

/-! ## What is written ends -/

/-- Whether a struct has all fields that are written of a record, and none with references. -/
structure StructType.Exhausts (types : Registry) (s : StructType) (r : Record) : Prop where
  untracked : ∀ f ∈ s.fields, f.refMode ≠ .tracking
  fields : ∀ v ∈ (Node.record r).written types, ∃ f ∈ s.fields, r.value f.name = v

/-- Whether a wire type is for a value whose record, if it is one of its struct, has no field that is
not written. -/
def WireType.Exhausts (types : Registry) (g : Graph) (v : Value) : WireType → Prop
  | .struct s _ => ∀ r, g.asRecord? v = some r → r.typeName = s.qualifiedName → s.Exhausts types r
  | _ => True

/-- Settings without references, and a registry that was built for them. -/
structure Environment.Untracked (env : Environment) : Prop where
  strategy : env.config.strategy = .interpreted
  untracked : env.config.trackRef = false
  built : env.registry.BuiltFor env.config.compatible false

/-- Whether the structs that were made up were built without references. -/
def WriteState.Untracked (compatible : Bool) (ws : WriteState) : Prop :=
  ∀ e ∈ ws.adhoc, e.2.Built compatible false e.1 none

namespace StructType

variable {env : Environment} {s : StructType} {r : Record}

theorem Built.untracked {compatible : Bool} {name : String} {id : Option Nat}
    (built : s.Built compatible false name id) : ∀ f ∈ s.fields, f.refMode ≠ .tracking :=
  fun f member => Field.refMode_ne_tracking (built.resolved f member).untracked

/-- Without references the struct that a record is written by exhausts it. -/
theorem Governs.exhausts (untracked : env.config.trackRef = false) (h : s.Governs env r) :
    s.Exhausts env.registry r := by
  have built := h.built
  rw [untracked] at built
  exact ⟨built.untracked, h.fields⟩

end StructType

theorem WireType.Governs.exhausts {env : Environment} {g : Graph} {v : Value} {wire : WireType}
    (untracked : env.config.trackRef = false) (h : wire.Governs env g v) :
    wire.Exhausts env.registry g v := by
  cases wire with
  | struct s strict => exact fun r isRecord named => (h r isRecord named).exhausts untracked
  | _ => exact trivial

theorem WriteState.made_iff {env : Environment} (untracked : env.config.trackRef = false)
    {ws : WriteState} : ws.Made env ↔ ws.Untracked env.config.compatible := by
  unfold WriteState.Made WriteState.Untracked
  rw [untracked]

theorem Environment.Untracked.registered {env : Environment} (fit : env.Untracked) :
    env.registry.BuiltFor env.config.compatible env.config.trackRef := by
  rw [fit.untracked]
  exact fit.built

namespace Write

variable {env : Environment} (fit : env.Untracked) {ws : WriteState} {g : Graph} {v : Value}

include fit

/-- Whether what a writer of payloads writes ends within a number of levels. -/
def Ending (env : Environment) (g : Graph) (levels : Nat) (inner : WritePayload) : Prop :=
  ∀ wire shape v (ws : WriteState), wire.Exhausts env.registry g v →
    ws.Untracked env.config.compatible → Ensures (inner wire shape v) ws fun _ ws' =>
      g.Ends env.registry levels v ∧ ws'.Untracked env.config.compatible

variable {levels : Nat} {inner : WritePayload} (ending : Ending env g levels inner)

include ending

theorem ensures_marked_ends {mode : RefMode} (untracked : mode ≠ .tracking) {hasType : Bool}
    {shape : Shape} (made : ws.Untracked env.config.compatible) :
    Ensures (marked env g inner mode hasType shape v) ws fun _ ws' =>
      g.Ends env.registry levels v ∧ ws'.Untracked env.config.compatible := by
  have known : Ensures (typed env g inner hasType shape v) ws fun _ ws' =>
      g.Ends env.registry levels v ∧ ws'.Untracked env.config.compatible :=
    ensures_typed_governs fit.registered ((WriteState.made_iff fit.untracked).2 made)
      fun wire ws₁ governs made _ => ending wire shape v ws₁ (governs.exhausts fit.untracked)
        ((WriteState.made_iff fit.untracked).1 made)
  refine ensures_marked_untracked untracked (fun null _ => ?_) fun _ => ?_
  · subst null
    exact ⟨Graph.ends_scalar rfl levels, made⟩
  · exact known.mono fun _ _ ends => ⟨fun _ => ends, fun _ => ends⟩

theorem ensures_items_end {shape : Shape} {elements : List Value}
    (made : ws.Untracked env.config.compatible) :
    Ensures (items env g inner shape elements) ws fun _ ws' =>
      (∀ part ∈ elements, g.Ends env.registry levels part) ∧
        ws'.Untracked env.config.compatible :=
  ensures_items (.concat (fun _ _ _ made => ensures_marked_ends fit ending
    (env.refMode_ne fit.untracked _ _) made) made)

theorem ensures_entries_end {shape : Shape} {pairs : List (Value × Value)}
    (made : ws.Untracked env.config.compatible) :
    Ensures (entries env g inner shape pairs) ws fun _ ws' =>
      (∀ part ∈ (Node.map pairs).contents, g.Ends env.registry levels part) ∧
        ws'.Untracked env.config.compatible := by
  refine Ensures.mono (ensures_entries (Q := fun _ ws' => (∀ pair ∈ pairs,
    g.Ends env.registry levels pair.1 ∧ g.Ends env.registry levels pair.2) ∧
      ws'.Untracked env.config.compatible) (.concat (fun pair _ ws made => ?_) made)) ?_
  · exact (ensures_marked_ends fit ending (env.refMode_ne fit.untracked _ _) made).bind
      fun _ _ key => (ensures_marked_ends fit ending (env.refMode_ne fit.untracked _ _) key.2).bind
        fun _ _ value => .pure ⟨⟨key.1, value.1⟩, value.2⟩
  · rintro _ ws' ⟨ends, made⟩
    exact ⟨Node.forall_contents_map.2 ends, made⟩

theorem ensures_record_ends {s : StructType} {strict : Bool} {r : Record}
    (exhausts : s.Exhausts env.registry r) (made : ws.Untracked env.config.compatible) :
    Ensures (record env g inner s strict r) ws fun _ ws' =>
      (∀ part ∈ (Node.record r).written env.registry, g.Ends env.registry levels part) ∧
        ws'.Untracked env.config.compatible := by
  refine Ensures.mono (ensures_record (Q := fun _ ws' => (∀ f ∈ s.fields,
    g.Ends env.registry levels (r.value f.name)) ∧ ws'.Untracked env.config.compatible)
      fit.strategy (.concat (fun f member ws made => ?_) made)) ?_
  · unfold field
    dsimp only
    split
    · exact .throw _
    · exact ensures_marked_ends fit ending (exhausts.untracked f member) made
  · rintro _ ws' ⟨ends, made⟩
    refine ⟨fun part member => ?_, made⟩
    obtain ⟨f, field, rfl⟩ := exhausts.fields part member
    exact ends f field

omit ending in
theorem ending_layer {write : Option WritePayload}
    (deeper : ∀ inner, write = some inner → ∃ others, levels = others + 1 ∧
      Ending env g others inner) : Ending env g levels (layer env g write) := by
  -- What is in the node of the value ends one level earlier.
  have node {m : WritePayload → Write (List UInt8)} {v : Value} {n : Node} {ws : WriteState}
      (found : g.nodeOf? v = some n)
      (h : ∀ others inner, Ending env g others inner → Ensures (m inner) ws fun _ ws' =>
        (∀ part ∈ n.written env.registry, g.Ends env.registry others part) ∧
          ws'.Untracked env.config.compatible) (inner : WritePayload) (known : write = some inner) :
      Ensures (m inner) ws fun _ ws' =>
        g.Ends env.registry levels v ∧ ws'.Untracked env.config.compatible := by
    obtain ⟨others, rfl, ending⟩ := deeper inner known
    refine (h others inner ending).mono fun _ ws' after => ⟨fun part writes => ?_, after.2⟩
    obtain ⟨h, rfl, member⟩ := writes
    cases found
    exact after.1 part member
  intro wire shape v ws exhausts made
  apply ensures_layer
  case scalar =>
    intro t bytes _ _ written
    refine ⟨Graph.ends_scalar ?_ levels, made⟩
    cases v with
    | handle h => exact absurd written Graph.encodeScalar_handle_ne_ok
    | _ => rfl
  case list | set =>
    intro inner elements known found _
    exact node found (fun _ _ ending => ensures_items_end fit ending made) inner known
  case map =>
    intro inner pairs known found _
    exact node found (fun _ _ ending => ensures_entries_end fit ending made) inner known
  case struct =>
    rintro inner s strict r known rfl isRecord named
    exact node (Graph.nodeOf?_of_asRecord? isRecord) (fun _ _ ending =>
      ensures_record_ends fit ending (exhausts r isRecord named) made) inner known
  case member =>
    rintro typeName members name ordinal - rfl
    exact ⟨Graph.ends_scalar rfl levels, made⟩

omit ending in
theorem ending_payload (levels : Nat) : Ending env g levels (payload env g levels) := by
  induction levels with
  | zero => exact ending_layer fit fun _ known => by cases known
  | succ levels ih => exact ending_layer fit fun _ known => ⟨levels, rfl, by cases known; exact ih⟩

end Write

/-! ## Instances -/

namespace Instance

/-- Without references nothing is written that leads into a cycle. -/
theorem Reachable.serialize_ne_ok {i : Instance} (reachable : i.Reachable)
    (untracked : i.config.trackRef = false) {g : Graph} {v c : Value}
    (reached : Relation.ReflTransGen (g.Writes i.registry) v c)
    (cycle : Relation.TransGen (g.Writes i.registry) c c) (bytes : List UInt8) :
    i.serialize g v ≠ .ok bytes := by
  intro written
  have sane := sane_of_serialize written
  have fit : (i.setStrategy .interpreted).environment.Untracked :=
    ⟨rfl, untracked, by
      have built := reachable.sound.built sane
      rwa [untracked] at built⟩
  have ends : ∃ levels, g.Ends i.registry levels v := by
    obtain ⟨-, ⟨rfl, -⟩ | ⟨-, body, ws, -, run⟩⟩ :=
      ok_of_serialize (reachable.serialize_interpreted written)
    · exact ⟨0, Graph.ends_scalar rfl 0⟩
    · have noRef : (i.setStrategy .interpreted).rootMode ≠ .tracking := by
        rw [show (i.setStrategy .interpreted).rootMode = .ofFlags true i.config.trackRef from rfl,
          untracked]
        decide
      have made : WriteState.initial.Untracked i.config.compatible := fun _ member => by
        cases member
      exact ⟨_, (Write.ensures_marked_ends fit (Write.ending_payload fit _) noRef made body ws
        run).1⟩
  obtain ⟨levels, ends⟩ := ends
  exact Graph.not_ends_of_cycle reached cycle levels ends

end Instance

end Graphwire
