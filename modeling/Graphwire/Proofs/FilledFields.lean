import Graphwire.Proofs.DeclarationOrder
import Graphwire.Proofs.Guardrails
import Graphwire.Proofs.KnownDefinitions
import Graphwire.Proofs.SameLayout
import Graphwire.Proofs.UsableDefaults

/-!
# Fields that no definition leaves unset

A field that may not be null needs a default in compatible mode. So whatever a peer tells of our struct,
a record that is read has a value in the field: the one that was sent, or the default where the peer
lacks the field, has another type for it, or sends null. Nodes are read one inside the other, so a record
stays open while others are read. What carries the proof is that a step keeps the records that have a
value in the field, and that the records which it adds have one when it is over.
-/

namespace Graphwire

set_option autoImplicit false

/-! ## Records with a value in a field -/

/-- Whether a record holds a value other than null in a field. -/
def Record.Holds (r : Record) (name : String) : Prop := ∃ v, r.get? name = some v ∧ v.isNull = false

namespace Node

/-- Whether a node is not a record of the type. -/
def Foreign (typeName : String) : Node → Prop
  | .record r => r.typeName ≠ typeName
  | _ => True

/-- Whether a node holds a value in a field if it is a record of the type. -/
def Filled (typeName name : String) (n : Node) : Prop :=
  ∀ r, n = .record r → r.typeName = typeName → r.Holds name

theorem Foreign.filled {typeName name : String} {n : Node} (foreign : n.Foreign typeName) :
    n.Filled typeName name := by
  rintro r rfl same
  exact absurd same foreign

theorem filled_empty (typeName name : String) : (Node.list []).Filled typeName name :=
  Foreign.filled (n := .list []) trivial

theorem Filled.set {typeName name other : String} {r : Record} {v : Value}
    (filled : (Node.record r).Filled typeName name)
    (fine : v.isNull = false ∨ other ≠ name ∨ (Node.record r).Foreign typeName) :
    (Node.record (r.set other v)).Filled typeName name := by
  intro r' node same
  cases node
  rcases fine with present | ne | foreign
  · by_cases here : name = other
    · exact ⟨v, by rw [Record.get?_set, if_pos here], present⟩
    · obtain ⟨w, held, value⟩ := filled r rfl same
      exact ⟨w, by rw [Record.get?_set, if_neg here, held], value⟩
  · obtain ⟨w, held, value⟩ := filled r rfl same
    exact ⟨w, by rw [Record.get?_set, if_neg (Ne.symm ne), held], value⟩
  · exact absurd same foreign

/-- A field that was just set holds the value. -/
theorem filled_set {typeName name : String} {r : Record} {v : Value} (present : v.isNull = false) :
    (Node.record (r.set name v)).Filled typeName name := by
  intro r' node _
  cases node
  exact ⟨v, by rw [Record.get?_set, if_pos rfl], present⟩

end Node

/-- There is no node outside of a graph. -/
theorem Graph.node_outside (g : Graph) {h : Handle} (outside : ¬h.index < g.size) :
    g.node h = .list [] := by
  simp only [Graph.size] at outside
  simp [Graph.node, outside]

/-! ## Defaults -/

/-- Whether a template is what a default factory of a registered struct made. -/
def Registry.Fabricates (r : Registry) (t : Template) : Prop :=
  ∃ s f, r.HasStruct s ∧ f ∈ s.fields ∧ f.template = some t

/-- Whether a node is a part of what a default factory made. -/
def Filling.Fabricated (r : Registry) (e : Filling) (h : Handle) : Prop :=
  e.Covers h ∧ r.Fabricates e.default

/-- A constant has no records in it. -/
theorem Constant.Makes.noRecord {shape : Shape} {c : Constant} {t : Template} (makes : c.Makes shape t)
    (h : Handle) (r : Record) : t.graph.node h ≠ .record r := by
  have empty : Graph.empty.node h ≠ .record r := fun same => by cases same
  cases makes with
  | scalar => exact empty
  | member => exact empty
  | @container _ _ n vacant =>
    intro same
    by_cases first : h.index < 1
    · obtain ⟨_ | index⟩ := h
      · cases vacant <;> cases same
      · exact absurd (show index + 1 < 1 from first) (by omega)
    · rw [Graph.node_outside _ first] at same
      cases same

theorem Constant.Makes.present {shape : Shape} {c : Constant} {t : Template} (makes : c.Makes shape t)
    (offset : Nat) : (t.root.shift offset).isNull = false := by
  cases makes with
  | scalar _ _ holds =>
    obtain ⟨-, present, fixed, -⟩ := holds.plain
    simp only [Template.ofScalar, fixed, present]
  | member => rfl
  | container => rfl

/-- Only a factory puts records into a default. -/
theorem Field.noRecord_of_missingValue {f : Field} {t : Template} (missing : f.missingValue = .ok (some t))
    (h : Handle) (r : Record) (node : t.graph.node h = .record r) : f.template = some t := by
  unfold Field.missingValue at missing
  split at missing
  · obtain ⟨t', made, same⟩ := map_eq_ok_iff.1 missing
    cases same
    exact absurd node ((Constant.makes_of_materialize made).noRecord h r)
  · cases missing
    assumption
  · split at missing
    · split at missing <;> cases missing
      cases node
    · cases missing

/-- A field that may not be null has a default once its struct passed the checks, unless the type that it
refers to is not known. -/
theorem Registry.default_of_checkDefault {r : Registry} {owner : String} {f : Field}
    (checked : r.checkDefault owner true f = .ok ()) (required : f.nullable = false)
    (noFactory : f.template = none)
    (known : f.shape.isNamed = true → f.type = .unknown → f.constant.isSome = true)
    (enum : f.type.isEnum = true → f.shape.isNamed = true) :
    ∃ t, f.missingValue = .ok (some t) ∧ ∀ offset, (t.root.shift offset).isNull = false := by
  cases constant : f.constant with
  | some c =>
    obtain ⟨⟨t, made⟩, -⟩ := constant_of_checkDefault checked constant
    refine ⟨t, ?_, (Constant.makes_of_materialize made).present⟩
    simp only [Field.missingValue, constant, made]
    rfl
  | none =>
    unfold checkDefault at checked
    rw [constant] at checked
    have dispensable : needsDefault true f = false := by
      by_contra needed
      rw [Bool.not_eq_false] at needed
      rw [needed] at checked
      cases checked
    have isEnum : f.type.isEnum = true := by
      by_contra other
      have open' : f.shape.isNamed = true ∧ f.type = .unknown := by
        simp only [needsDefault, required, Field.hasDefault, constant, noFactory,
          Bool.not_eq_true _ ▸ other] at dispensable
        simpa using dispensable
      have some := known open'.1 open'.2
      rw [constant] at some
      cases some
    cases shape : f.shape with
    | named name =>
      refine ⟨.ofScalar (.enum name 0), ?_, fun _ => rfl⟩
      simp only [Field.missingValue, constant, noFactory, shape, isEnum, required]
      rfl
    | _ =>
      have named := enum isEnum
      rw [shape] at named
      cases named

/-! ## States of the reader -/

/-- Whether no value of a shape, and none in it, is a record of the struct for which nothing is told in front
of it. -/
def StructType.Apart (own : StructType) (hasType : Bool) (shape : Shape) : Prop :=
  hasType = false ∨ shape.isNamed = false → own.qualifiedName ∉ shape.names

theorem StructType.Apart.part {own : StructType} {shape : Shape} (apart : own.Apart true shape)
    {part : Option Shape} (isPart : shape.parts.1 = part ∨ shape.parts.2 = part) (hasType : Bool) :
    own.Apart hasType (part.getD .dynamic) := by
  intro _
  cases shape with
  | scalar | named | dynamic =>
    obtain rfl | rfl := isPart <;> exact List.not_mem_nil
  | list e | set e =>
    obtain rfl | rfl := isPart
    · exact apart (.inr rfl)
    · exact List.not_mem_nil
  | map k v =>
    have both := apart (.inr rfl)
    rw [Shape.names, List.mem_append, not_or] at both
    obtain rfl | rfl := isPart
    · exact both.1
    · exact both.2

/-- Whether no field declares a container of records of the struct. -/
def Environment.Separates (env : Environment) (own : StructType) : Prop :=
  ∀ s, env.registry.HasStruct s → ∀ g ∈ s.fields, g.shape.isNamed = false →
    own.qualifiedName ∉ g.shape.names

/-- What is asked of the types for a field of a struct to get a value wherever a record of the struct is
read. -/
structure Environment.Provides (env : Environment) (own : StructType) (f : Field) : Prop where
  interpreted : env.config.strategy = .interpreted
  compatible : ∀ s, env.registry.HasStruct s → s.isCompatible = true
  named : ∀ name s, env.registry.struct? name = some s → s.qualifiedName = name
  found : env.registry.struct? own.qualifiedName = some own
  member : f ∈ own.fields
  names : ∀ g ∈ own.fields, g.name = f.name → g = f
  required : f.nullable = false
  default : ∃ t, f.missingValue = .ok (some t) ∧ ∀ offset, (t.root.shift offset).isNull = false
  /-- No unknown type gets the name of the struct. -/
  unknown : env.config.requireRegistration = false → ∀ identity, env.registry.structOf? identity = none →
    identity.text ≠ own.qualifiedName
  told : ∀ s, env.registry.HasStruct s → ∀ g ∈ s.fields, g.shape.isNamed = true →
    g.fieldType.type = .unknown ∨ g.fieldType.type.isUser = true

theorem Environment.Provides.only {env : Environment} {own : StructType} {f : Field}
    (provides : env.Provides own f) {s : StructType} (known : env.registry.HasStruct s)
    (same : s.qualifiedName = own.qualifiedName) : s = own := by
  obtain ⟨name, found⟩ := known
  rw [← provides.named name s found, same, provides.found] at found
  exact (Option.some.inj found).symm

/-- A default of a field does not go over the value that is looked at, in a record of the field's struct. -/
theorem Environment.Provides.fine {env : Environment} {own : StructType} {f : Field}
    (provides : env.Provides own f) {s : StructType} {g : Field} (member : g ∈ s.fields)
    (known : env.registry.HasStruct s) {typeName : String} (named : typeName = s.qualifiedName) :
    g = f ∨ g.name ≠ f.name ∨ typeName ≠ own.qualifiedName := by
  by_cases here : typeName = own.qualifiedName
  · cases provides.only known (named.symm.trans here)
    by_cases name : g.name = f.name
    · exact .inl (provides.names g member name)
    · exact .inr (.inl name)
  · exact .inr (.inr here)

namespace ReadState

section

variable (env : Environment) (own : StructType) (f : Field)

/-- Whether records of the struct were read by the definitions that they come with: its own definition was
not met, and no field declares a container of such records. -/
def Reconciles (s : ReadState) : Prop :=
  env.Separates own ∧ ∀ e ∈ s.met, own.header? ≠ some e.1

/-- Whether a node has a value in the field if it is a record of the struct. Exempt are what default
factories made and, if the field is a reference and was null, records that may have been read by our own
fields. -/
def Done (s : ReadState) (h : Handle) : Prop :=
  (f.tracked = true → (h, f.name) ∈ s.nulls → s.Reconciles env own) →
    (∀ e ∈ s.filled, ¬e.Fabricated env.registry h) → (s.graph.node h).Filled own.qualifiedName f.name

/-- Whether a record of the struct has a value in the field, or a null was read for it and this is
excused. -/
def Landed (excuse : Prop) (s : ReadState) (h : Handle) : Prop :=
  (s.graph.node h).Filled own.qualifiedName f.name ∨ excuse ∧ (h, f.name) ∈ s.nulls

/-- What a step leaves: nodes that had a value in the field still have one, and so have the nodes that it
added. -/
structure Completes (s t : ReadState) : Prop where
  versed : s.Versed env.registry → t.Versed env.registry
  size : s.graph.size ≤ t.graph.size
  met : s.met ⊆ t.met
  filled : s.filled ⊆ t.filled
  nulls : s.nulls ⊆ t.nulls
  foreign : ∀ h, h.index < s.graph.size → (s.graph.node h).Foreign own.qualifiedName →
    (t.graph.node h).Foreign own.qualifiedName
  kept : ∀ h, h.index < s.graph.size → (s.graph.node h).Filled own.qualifiedName f.name →
    (t.graph.node h).Filled own.qualifiedName f.name
  new : ∀ h, s.graph.size ≤ h.index → t.Done env own f h

end

variable {env : Environment} {own : StructType} {f : Field} {s t u : ReadState}

theorem Reconciles.before (reconciles : t.Reconciles env own) (met : s.met ⊆ t.met) :
    s.Reconciles env own := ⟨reconciles.1, fun e member => reconciles.2 e (met member)⟩

theorem done_of_filled {h : Handle} (filled : (s.graph.node h).Filled own.qualifiedName f.name) :
    s.Done env own f h := fun _ _ => filled

theorem done_of_foreign {h : Handle} (foreign : (s.graph.node h).Foreign own.qualifiedName) :
    s.Done env own f h := done_of_filled foreign.filled

theorem done_outside {h : Handle} (outside : s.graph.size ≤ h.index) : s.Done env own f h := by
  refine done_of_filled ?_
  rw [s.graph.node_outside (Nat.not_lt.2 outside)]
  exact Node.filled_empty _ _

namespace Completes

/-- What is done stays done. -/
theorem done (step : Completes env own f s t) {h : Handle} (inside : h.index < s.graph.size)
    (done : s.Done env own f h) : t.Done env own f h := by
  intro quiet spared
  refine step.kept h inside (done (fun tracked null => ?_) fun e member => spared e (step.filled member))
  exact (quiet tracked (step.nulls null)).before step.met

theorem landed (step : Completes env own f s t) {excuse : Prop} {h : Handle}
    (inside : h.index < s.graph.size) (landed : s.Landed own f excuse h) : t.Landed own f excuse h :=
  landed.imp (step.kept h inside) fun noted => ⟨noted.1, step.nulls noted.2⟩

theorem refl (s : ReadState) : Completes env own f s s where
  versed := id
  size := Nat.le_refl _
  met := List.Subset.refl _
  filled := List.Subset.refl _
  nulls := List.Subset.refl _
  foreign _ _ := id
  kept _ _ := id
  new _ := done_outside

theorem trans (first : Completes env own f s t) (second : Completes env own f t u) :
    Completes env own f s u where
  versed before := second.versed (first.versed before)
  size := Nat.le_trans first.size second.size
  met := List.Subset.trans first.met second.met
  filled := List.Subset.trans first.filled second.filled
  nulls := List.Subset.trans first.nulls second.nulls
  foreign h lt foreign := second.foreign h (Nat.lt_of_lt_of_le lt first.size) (first.foreign h lt foreign)
  kept h lt filled := second.kept h (Nat.lt_of_lt_of_le lt first.size) (first.kept h lt filled)
  new h outside := by
    by_cases inside : h.index < t.graph.size
    · exact second.done inside (first.new h outside)
    · exact second.new h (Nat.not_lt.1 inside)

/-- A step that leaves the nodes as they are. -/
theorem still (versed : s.Versed env.registry → t.Versed env.registry) (graph : t.graph = s.graph)
    (met : s.met ⊆ t.met) (filled : t.filled = s.filled) (nulls : s.nulls ⊆ t.nulls) :
    Completes env own f s t where
  versed
  size := Nat.le_of_eq (congrArg Graph.size graph.symm)
  met
  filled := filled ▸ List.Subset.refl _
  nulls
  foreign h _ foreign := by rwa [graph]
  kept h _ filled := by rwa [graph]
  new h outside := done_outside (by rwa [graph])

/-- A step that only reads bytes. -/
theorem moved (s : ReadState) (reader : Reader) : Completes env own f s { s with reader } :=
  .still (fun before => ⟨before.received, before.cache⟩) rfl (List.Subset.refl _) rfl
    (List.Subset.refl _)

/-- A node is replaced by one that is not worse. -/
theorem set {k : Handle} {n : Node}
    (foreign : (s.graph.node k).Foreign own.qualifiedName → n.Foreign own.qualifiedName)
    (filled : (s.graph.node k).Filled own.qualifiedName f.name → n.Filled own.qualifiedName f.name) :
    Completes env own f s { s with graph := s.graph.set k n } where
  versed before := ⟨before.received, before.cache⟩
  size := Nat.le_of_eq (Graph.size_set ..).symm
  met := List.Subset.refl _
  filled := List.Subset.refl _
  nulls := List.Subset.refl _
  foreign h lt before := by
    by_cases same : k = h
    · subst same
      rw [s.graph.node_set_self k n lt]
      exact foreign before
    · rwa [s.graph.node_set_other k h n same]
  kept h lt before := by
    by_cases same : k = h
    · subst same
      rw [s.graph.node_set_self k n lt]
      exact filled before
    · rwa [s.graph.node_set_other k h n same]
  new h outside := done_outside (by rwa [Graph.size_set])

/-- A node that was added is over. -/
theorem closed {n : Node} {slot : Option Nat} (step : Completes env own f (s.opened n slot) t)
    (done : t.Done env own f ⟨s.graph.size⟩) : Completes env own f s t where
  versed before := step.versed ⟨before.received, before.cache⟩
  size := Nat.le_trans (Nat.le_succ _) (by simpa [opened] using step.size)
  met := step.met
  filled := step.filled
  nulls := step.nulls
  foreign h lt before := by
    refine step.foreign h (by simpa [opened] using Nat.lt_succ_of_lt lt) ?_
    rwa [show (s.opened n slot).graph.node h = s.graph.node h from s.graph.node_alloc_old n h lt]
  kept h lt before := by
    refine step.kept h (by simpa [opened] using Nat.lt_succ_of_lt lt) ?_
    rwa [show (s.opened n slot).graph.node h = s.graph.node h from s.graph.node_alloc_old n h lt]
  new h outside := by
    rcases Nat.eq_or_lt_of_le outside with last | beyond
    · obtain ⟨index⟩ := h
      cases last
      exact done
    · exact step.new h (by simpa [opened] using Nat.succ_le_of_lt beyond)

/-- A default is copied. If there are records in it, a factory made it. -/
theorem instantiate {e : Filling} (offset : e.offset = s.graph.size)
    (made : ∀ h r, e.default.graph.node h = .record r → env.registry.Fabricates e.default) :
    Completes env own f s
      { s with graph := (e.default.instantiate s.graph).2, filled := s.filled ++ [e] } where
  versed before := ⟨before.received, before.cache⟩
  size := (e.default.extends_instantiate s.graph).size
  met := List.Subset.refl _
  filled := List.subset_append_left ..
  nulls := List.Subset.refl _
  foreign h lt foreign := by
    rwa [show ((e.default.instantiate s.graph).2).node h = s.graph.node h from
      (e.default.extends_instantiate s.graph).node h lt]
  kept h lt filled := by
    rwa [show ((e.default.instantiate s.graph).2).node h = s.graph.node h from
      (e.default.extends_instantiate s.graph).node h lt]
  new h outside := by
    obtain ⟨i, rfl⟩ : ∃ i, h = ⟨s.graph.size + i⟩ := ⟨h.index - s.graph.size, by
      cases h
      simp only at outside
      simp only [Handle.mk.injEq]
      omega⟩
    by_cases covered : i < e.default.graph.size
    · intro _ spared r node _
      have copy : (e.default.instantiate s.graph).2.node ⟨s.graph.size + i⟩ =
          (e.default.graph.node ⟨i⟩).mapValues (Value.shift s.graph.size) :=
        e.default.standsAt_instantiate s.graph i covered
      rw [copy] at node
      have covers : e.Covers ⟨s.graph.size + i⟩ := by
        simp only [Filling.Covers, offset]
        omega
      refine absurd ⟨covers, ?_⟩ (spared e (List.mem_append_right _ (List.mem_singleton_self e)))
      cases held : e.default.graph.node ⟨i⟩ with
      | record r' => exact made _ r' held
      | _ => rw [held] at node; cases node
    · refine done_outside ?_
      rw [e.default.size_instantiate]
      exact Nat.add_le_add_left (Nat.not_lt.1 covered) _

end Completes

end ReadState

/-- What is known of a type in front of a value: a record of the struct itself comes with a definition, if no
field declares a container of such records. -/
def WireType.Allowed (env : Environment) (own : StructType) (s : ReadState) : WireType → Prop
  | .struct other _ => env.registry.HasStruct other ∧
      (env.Separates own → other.qualifiedName ≠ own.qualifiedName)
  | .peer p => p ∈ s.received ∧ (p.own = none → env.config.requireRegistration = false)
  | _ => True

namespace Read

section

variable (env : Environment) (own : StructType) (f : Field)

/-- Whether a step leaves the records that it adds with a value in the field, and takes none away. -/
def Completes {α : Type} (m : Read α) : Prop :=
  ∀ s, s.Versed env.registry → Ensures m s fun _ t => s.Completes env own f t

/-- Whether a reader of payloads does so. -/
structure CompletesPayload (inner : ReadPayload) : Prop where
  step : ∀ wire shape slot s, s.Versed env.registry → wire.Allowed env own s →
    (env.Separates own → own.Apart true shape) →
      Ensures (inner wire shape slot) s fun _ t => s.Completes env own f t
  present : ∀ wire shape slot, Present (inner wire shape slot)

end

variable {α β : Type} {env : Environment} {own : StructType} {f : Field}

namespace Completes

theorem pure (a : α) : Completes env own f (pure a) := fun s _ => .pure (.refl s)

theorem throw (e : Error) : Completes env own f (throw e : Read α) := fun _ _ => .throw e

theorem bind {m : Read α} {g : α → Read β} (hm : Completes env own f m)
    (hg : ∀ a, Completes env own f (g a)) : Completes env own f (m >>= g) :=
  fun s versed => (hm s versed).bind fun a t first =>
    (hg a t (first.versed versed)).mono fun _ _ second => first.trans second

/-- A step that leaves graph and definitions alone. -/
theorem still {m : Read α} (h : Local m)
    (same : ∀ s, Ensures m s fun _ t => t.graph = s.graph ∧ t.filled = s.filled ∧ s.nulls ⊆ t.nulls) :
    Completes env own f m := by
  intro s versed a t run
  obtain ⟨graph, filled, nulls⟩ := same s a t run
  have known := h.final s
  rw [run] at known
  obtain ⟨received, met, cache⟩ := known
  have received : t.received = s.received := received
  have met : t.met = s.met := met
  have cache : t.cache = s.cache := cache
  refine .still (fun before => ⟨?_, ?_⟩) graph (met ▸ List.Subset.refl _) filled nulls
  · rw [received, met]
    exact before.received
  · rw [cache]
    exact before.cache

theorem decode (d : Decode α) : Completes env own f (decode d) :=
  .still (local_decode d) fun _ => .decode fun _ _ _ => ⟨rfl, rfl, List.Subset.refl _⟩

theorem check (x : Except Error α) : Completes env own f (check x) :=
  .still (local_check x) fun _ => .check fun _ _ => ⟨rfl, rfl, List.Subset.refl _⟩

theorem publish (slot : Option Nat) (v : Value) : Completes env own f (publish slot v) := by
  refine .still (local_publish slot v) fun s => ?_
  cases slot with
  | none => exact .pure ⟨rfl, rfl, List.Subset.refl _⟩
  | some number => exact .modify ⟨rfl, rfl, List.Subset.refl _⟩

theorem reserve : Completes env own f reserve :=
  .still local_reserve fun _ _ _ run => by cases run; exact ⟨rfl, rfl, List.Subset.refl _⟩

theorem resolve (number : Nat) : Completes env own f (resolve number) := by
  refine .still (local_resolve number) fun s => ?_
  refine Ensures.bind (Q := fun _ t => t = s) (.get rfl) ?_
  rintro state _ rfl
  exact .check fun _ _ => ⟨rfl, rfl, List.Subset.refl _⟩

theorem noteNull (k : Handle) (name : String) : Completes env own f (noteNull k name) :=
  .still (local_noteNull k name) fun _ => .modify ⟨rfl, rfl, List.subset_append_left ..⟩

theorem elementHeader (part : Option Shape) : Completes env own f (elementHeader part) := by
  refine (Completes.decode _).bind fun byte => ?_
  split
  · exact .throw _
  · split
    · exact .throw _
    · exact .pure _

theorem many {one : Read α} (h : Completes env own f one) (n : Nat) :
    Completes env own f (many one n) := by
  induction n with
  | zero => exact .pure _
  | succ n ih => exact h.bind fun _ => ih.bind fun _ => .pure _

theorem setNode (h : Handle) {n : Node} (foreign : n.Foreign own.qualifiedName) :
    Completes env own f (setNode h n) :=
  fun _ _ => .modify (.set (fun _ => foreign) fun _ => foreign.filled)

theorem scalar (limits : SizeLimits) (t : TypeId) : Completes env own f (scalar limits t) := by
  intro s versed
  refine (ensures_scalar limits t s).mono ?_
  rintro v _ ⟨⟨r, rfl⟩, -⟩
  exact .moved s r

/-- A node that is no record is added, and filled by what follows. -/
theorem node {n : Node} (foreign : n.Foreign own.qualifiedName) {slot : Option Nat}
    {g : Handle → Read β} (h : ∀ k, Completes env own f (g k)) :
    Completes env own f (do let k ← alloc n; Read.publish slot (.handle k); g k) := by
  intro s versed
  have opened : (do let k ← alloc n; Read.publish slot (.handle k); g k) s =
      g ⟨s.graph.size⟩ (s.opened n slot) := by
    cases slot <;> rfl
  intro a t run
  rw [opened] at run
  have step := h _ (s.opened n slot) ⟨versed.received, versed.cache⟩ a t run
  refine step.closed (ReadState.done_of_foreign (step.foreign _ ?_ ?_))
  · simp [ReadState.opened]
  · rw [show (s.opened n slot).graph.node ⟨s.graph.size⟩ = n from Graph.node_alloc_new s.graph n]
    exact foreign

end Completes

/-! ## Values -/

section

variable (provides : env.Provides own f) {inner : ReadPayload}
  (payload : CompletesPayload env own f inner)

include provides

/-- What is known once the type in front of a value was read. -/
theorem ensures_typeInfo_allowed {s : ReadState} (versed : s.Versed env.registry) :
    Ensures (typeInfo env) s fun wire t => s.Completes env own f t ∧ wire.Allowed env own t := by
  intro wire t run
  have kept := (walk_keepsVersed env).typeInfo s versed
  have any : s.Knows fun _ => True := ⟨fun _ _ => trivial, fun _ _ => trivial⟩
  have looked := ensures_typeInfo (fun _ _ => trivial) (.refl any) wire t run
  have told := ensures_typeInfo_told wire t run
  rw [run] at kept
  refine ⟨.still (fun _ => kept.1) looked.2.graph kept.2.1 looked.2.filled
    (looked.2.nulls ▸ List.Subset.refl _), ?_⟩
  cases wire with
  | struct other strict =>
    have compatible := provides.compatible other told.2
    rw [told.1] at compatible
    cases compatible
  | peer p => exact told
  | _ => trivial

theorem allowed_declaredType {shape : Shape} {wire : WireType}
    (declared : env.declaredType shape = .ok wire)
    (apart : env.Separates own → own.qualifiedName ∉ shape.names) (s : ReadState) :
    wire.Allowed env own s := by
  cases shape with
  | named name =>
    simp only [Environment.declaredType] at declared
    split at declared <;> cases declared
    · rename_i other found
      have found := Registry.named?_eq_struct_iff.1 found
      refine ⟨⟨name, found⟩, fun separate same => apart separate ?_⟩
      rw [← same, provides.named name other found]
      exact List.mem_singleton_self name
    · trivial
  | dynamic => cases declared
  | _ => cases declared; trivial

include payload

theorem completes_typed {hasType : Bool} {shape : Shape} (slot : Option Nat)
    (apart : env.Separates own → own.Apart hasType shape) :
    Completes env own f (typed env inner hasType shape slot) := by
  intro s versed
  have then' (wire : WireType) (t : ReadState) (step : s.Completes env own f t)
      (allowed : wire.Allowed env own t) :
      Ensures (inner wire shape slot) t fun _ u => s.Completes env own f u :=
    (payload.step wire shape slot t (step.versed versed) allowed fun separate plain =>
      apart separate (.inr (plain.resolve_left Bool.noConfusion))).mono fun _ _ next => step.trans next
  unfold typed
  cases hasType with
  | true =>
    exact (ensures_typeInfo_allowed provides versed).bind fun wire t first =>
      then' wire t first.1 first.2
  | false =>
    refine Ensures.bind (Q := fun wire t => s.Completes env own f t ∧ wire.Allowed env own t)
      (.check fun wire declared => ⟨.refl s, ?_⟩) fun wire t first => then' wire t first.1 first.2
    exact allowed_declaredType provides declared (fun separate => apart separate (.inl rfl)) s

theorem completes_marked (mode : RefMode) {hasType : Bool} {shape : Shape}
    (apart : env.Separates own → own.Apart hasType shape) :
    Completes env own f (marked env inner mode hasType shape) := by
  unfold marked
  split
  · exact completes_typed provides payload none apart
  · refine (Completes.decode _).bind fun flag => ?_
    split
    · exact .pure _
    · exact completes_typed provides payload none apart
    · exact (Completes.decode _).bind fun number => .resolve number
    · exact Completes.reserve.bind fun number =>
        (completes_typed provides payload (some number) apart).bind fun v =>
          (Completes.publish _ _).bind fun _ => .pure _
    · exact .throw _

theorem completes_items {node : List Value → Node} (kind : node = .list ∨ node = .set) {shape : Shape}
    (slot : Option Nat) (apart : env.Separates own → own.Apart true shape) :
    Completes env own f (items env inner node shape slot) := by
  have foreign (vs : List Value) : (node vs).Foreign own.qualifiedName := by
    rcases kind with rfl | rfl <;> trivial
  unfold items
  refine (Completes.decode _).bind fun length => (Completes.check _).bind fun _ =>
    .node (foreign []) fun h => ?_
  split
  · exact .pure _
  · refine (Completes.elementHeader _).bind fun header => ?_
    refine (Completes.many (completes_marked provides payload _ fun separate =>
      (apart separate).part (.inl rfl) _) length).bind fun vs => ?_
    exact (Completes.setNode h (foreign vs)).bind fun _ => .pure _

theorem completes_entries {shape : Shape} (slot : Option Nat)
    (apart : env.Separates own → own.Apart true shape) :
    Completes env own f (entries env inner shape slot) := by
  unfold entries
  refine (Completes.decode _).bind fun length => (Completes.check _).bind fun _ =>
    .node (n := .map []) trivial fun h => ?_
  split
  · exact .pure _
  · refine (Completes.elementHeader _).bind fun keyHeader =>
      (Completes.elementHeader _).bind fun valueHeader => ?_
    have entry : Completes env own f
        (do
          let key ← element env inner keyHeader shape.parts.1
          let value ← element env inner valueHeader shape.parts.2
          return (key, value)) :=
      (completes_marked provides payload _ fun separate => (apart separate).part (.inl rfl) _).bind
        fun key => (completes_marked provides payload _ fun separate =>
          (apart separate).part (.inr rfl) _).bind fun value => .pure _
    exact (entry.many length).bind fun pairs =>
      (Completes.setNode (n := .map pairs) h trivial).bind fun _ => .pure _

end

/-! ## Open records -/

section

variable (env : Environment) (own : StructType) (f : Field) (excuse : Prop)

/-- What a step that reads into an open record of a type leaves; if it lands, the record has a value in the
field, or an excused null. -/
def Lands (k : Handle) (typeName : String) (landed : Prop) (m : Read α) : Prop :=
  ∀ s, s.Versed env.registry → k.index < s.graph.size →
    (typeName ≠ own.qualifiedName → (s.graph.node k).Foreign own.qualifiedName) →
    Ensures m s fun _ t => s.Completes env own f t ∧ (landed → t.Landed own f excuse k)

end

namespace Lands

variable {k : Handle} {typeName : String} {excuse landed : Prop}

/-- A step that does not read into the record. -/
theorem off {m : Read α} (h : Completes env own f m) (missed : ¬landed) :
    Lands env own f excuse k typeName landed m :=
  fun s versed _ _ => (h s versed).mono fun _ _ step => ⟨step, fun hit => absurd hit missed⟩

theorem mono {m : Read α} {fewer : Prop} (h : Lands env own f excuse k typeName landed m)
    (stronger : fewer → landed) : Lands env own f excuse k typeName fewer m :=
  fun s versed inside belongs => (h s versed inside belongs).mono fun _ _ after =>
    ⟨after.1, fun hit => after.2 (stronger hit)⟩

/-- A value is read first, and what is known of it can be used. -/
theorem after {m : Read α} {Q : α → Prop} {g : α → Read β} (hm : Completes env own f m)
    (hq : ∀ s, Ensures m s fun a _ => Q a)
    (hg : ∀ a, Q a → Lands env own f excuse k typeName landed (g a)) :
    Lands env own f excuse k typeName landed (m >>= g) := by
  intro s versed inside belongs
  refine Ensures.bind (Q := fun a t => s.Completes env own f t ∧ Q a)
    (fun a t run => ⟨hm s versed a t run, hq s a t run⟩) fun a t first => ?_
  obtain ⟨first, known⟩ := first
  refine (hg a known t (first.versed versed) (Nat.lt_of_lt_of_le inside first.size) fun other =>
    first.foreign k inside (belongs other)).mono fun _ u second => ?_
  exact ⟨first.trans second.1, second.2⟩

theorem then_ {first second : Prop} {m : Read Unit} {m' : Read β}
    (h : Lands env own f excuse k typeName first m)
    (h' : Lands env own f excuse k typeName second m') :
    Lands env own f excuse k typeName (first ∨ second) (do m; m') := by
  intro s versed inside belongs
  refine (h s versed inside belongs).bind fun _ t before => ?_
  obtain ⟨step, landed⟩ := before
  have inside' := Nat.lt_of_lt_of_le inside step.size
  refine (h' t (step.versed versed) inside' fun other =>
    step.foreign k inside (belongs other)).mono fun _ u after => ⟨step.trans after.1, ?_⟩
  rintro (hit | hit)
  · exact after.1.landed inside' (landed hit)
  · exact after.2 hit

/-- It is enough that one of several steps lands. -/
theorem each {ι : Type} {one : ι → Read Unit} {lands : ι → Prop} (items : List ι)
    (h : ∀ a ∈ items, Lands env own f excuse k typeName (lands a) (one a)) :
    Lands env own f excuse k typeName (∃ a ∈ items, lands a) (each one items) := by
  induction items with
  | nil =>
    refine off (.pure ()) ?_
    rintro ⟨_, member, _⟩
    exact absurd member List.not_mem_nil
  | cons a items ih =>
    obtain ⟨here, others⟩ := List.forall_mem_cons.1 h
    refine (here.then_ (ih others)).mono ?_
    rintro ⟨b, member, hit⟩
    rcases List.mem_cons.1 member with rfl | later
    · exact .inl hit
    · exact .inr ⟨b, later, hit⟩

theorem noteNull (name : String) :
    Lands env own f excuse k typeName (name = f.name ∧ excuse) (noteNull k name) := by
  intro s versed _ _ a t run
  refine ⟨Completes.noteNull k name s versed a t run, ?_⟩
  rintro ⟨rfl, excused⟩
  cases run
  exact .inr ⟨excused, List.mem_append_right _ (List.mem_singleton_self _)⟩

/-- A value that is put into a field stays there, unless a null comes over it. -/
theorem setField {name : String} {v : Value}
    (fine : v.isNull = false ∨ name ≠ f.name ∨ typeName ≠ own.qualifiedName) :
    Lands env own f excuse k typeName (name = f.name ∧ v.isNull = false) (setField k name v) := by
  intro s versed inside belongs
  refine .modify ?_
  cases node : s.graph.node k with
  | record r =>
    rw [node] at belongs
    refine ⟨.set (by rw [node]; exact id) ?_, fun landed => .inl ?_⟩
    · rw [node]
      exact fun filled => filled.set (fine.imp_right fun h => h.imp_right belongs)
    · show ((s.graph.set k (.record (r.set name v))).node k).Filled _ _
      rw [s.graph.node_set_self k _ inside, landed.1]
      exact Node.filled_set landed.2
  | _ => exact ⟨.refl s, fun _ => .inl (Node.Foreign.filled (by rw [node]; trivial))⟩

/-- A default is put into the field that is looked at, or into another one. -/
theorem fillMissing (provides : env.Provides own f) {other : StructType}
    (known : env.registry.HasStruct other) {g : Field} (member : g ∈ other.fields)
    (fine : g = f ∨ g.name ≠ f.name ∨ typeName ≠ own.qualifiedName) :
    Lands env own f excuse k typeName (g = f) (fillMissing k g) := by
  intro s versed inside belongs
  obtain ⟨t', default, present⟩ := provides.default
  refine Ensures.bind (Q := fun x u => u = s ∧ g.missingValue = .ok x)
    (.check fun x ok => ⟨rfl, ok⟩) ?_
  rintro x _ ⟨rfl, missing⟩
  cases x with
  | none =>
    refine .pure ⟨.refl _, ?_⟩
    rintro rfl
    cases missing.symm.trans default
  | some t =>
    rename_i s
    intro a u run
    let filling : Filling := ⟨k, g.name, t, s.graph.size⟩
    let copied : ReadState := { s with
      graph := (t.instantiate s.graph).2, filled := s.filled ++ [filling] }
    have run : Read.setField k g.name (t.root.shift s.graph.size) copied = .ok a u := run
    have step : s.Completes env own f copied := .instantiate (e := filling) rfl fun h r node =>
      ⟨other, g, known, member, Field.noRecord_of_missingValue missing h r node⟩
    have value (same : g = f) : (t.root.shift s.graph.size).isNull = false := by
      subst same
      cases missing.symm.trans default
      exact present _
    obtain ⟨put, landed⟩ := setField (fine.imp_left value) copied (step.versed versed)
      (Nat.lt_of_lt_of_le inside step.size) (fun other => step.foreign k inside (belongs other)) a u run
    exact ⟨step.trans put, fun same => landed ⟨congrArg Field.name same, value same⟩⟩

end Lands

/-- A record of a type is added, and filled by what follows. Where a null can be an excuse, records may be
read by our own fields. -/
theorem ensures_newRecord {s : ReadState} (versed : s.Versed env.registry) {typeName : String}
    {excuse landed : Prop} {body : Handle → Read α} (slot : Option Nat)
    (h : ∀ k, Lands env own f excuse k typeName landed (body k))
    (hit : typeName = own.qualifiedName → landed ∧
      (excuse → f.tracked = true ∧ ¬s.Reconciles env own)) :
    Ensures (newRecord typeName slot >>= body) s fun _ t => s.Completes env own f t := by
  intro a t run
  rw [newRecord_bind] at run
  have here : (s.opened (.record (.ofType typeName)) slot).graph.node ⟨s.graph.size⟩ =
      .record (.ofType typeName) := Graph.node_alloc_new ..
  have inside : s.graph.size < (s.opened (.record (.ofType typeName)) slot).graph.size := by
    simp [ReadState.opened]
  have belongs (other : typeName ≠ own.qualifiedName) :
      ((s.opened (.record (.ofType typeName)) slot).graph.node ⟨s.graph.size⟩).Foreign
        own.qualifiedName := by
    rw [here]
    exact other
  obtain ⟨step, done⟩ := h _ (s.opened (.record (.ofType typeName)) slot)
    ⟨versed.received, versed.cache⟩ inside belongs a t run
  refine step.closed ?_
  by_cases same : typeName = own.qualifiedName
  · obtain ⟨landed, excuses⟩ := hit same
    rcases done landed with filled | ⟨excused, null⟩
    · exact ReadState.done_of_filled filled
    · obtain ⟨tracked, ownFields⟩ := excuses excused
      exact fun quiet => absurd ((quiet tracked null).before step.met) ownFields
  · exact ReadState.done_of_foreign (step.foreign _ inside (belongs same))

end Read

end Graphwire
