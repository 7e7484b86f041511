import Graphwire.Instance
import Graphwire.Proofs.Registry

/-!
# Reachable instances

An instance is reachable when it comes from a fresh one by changes of the settings, registrations,
failed ones too, and frames that were read. Its registry is sound, and unless the settings are at
fault every struct was built for them. Where types are registered under identifiers only, every type
has one.
-/

namespace Graphwire

set_option autoImplicit false

/-- What a program can do to an instance. -/
inductive Action where
  | setCompatible (compatible : Bool)
  | setTrackRef (trackRef : Bool)
  | setMaxDepth (maxDepth : Nat)
  | setLimits (limits : SizeLimits)
  | setRequireRegistration (requireRegistration : Bool)
  | setStrategy (strategy : Strategy)
  | registerStruct (id : Option Nat) (decl : StructDecl)
  | registerEnum (id : Option Nat) (decl : EnumDecl)
  | registerStructAuto (decl : StructDecl)
  | registerEnumAuto (decl : EnumDecl)
  | deserialize (bytes : List UInt8)

namespace Instance

/-- The instance after an action. -/
def perform (i : Instance) : Action → Instance
  | .setCompatible compatible => i.setCompatible compatible
  | .setTrackRef trackRef => i.setTrackRef trackRef
  | .setMaxDepth maxDepth => i.setMaxDepth maxDepth
  | .setLimits limits => i.setLimits limits
  | .setRequireRegistration require => i.setRequireRegistration require
  | .setStrategy strategy => i.setStrategy strategy
  | .registerStruct id decl => (i.registerStruct id decl).2
  | .registerEnum id decl => (i.registerEnum id decl).2
  | .registerStructAuto decl => (i.registerStructAuto decl).2
  | .registerEnumAuto decl => (i.registerEnumAuto decl).2
  | .deserialize bytes => (i.deserialize bytes).2

/-- Whether an instance comes from a fresh one by actions. -/
def Reachable (i : Instance) : Prop := ∃ actions : List Action, i = actions.foldl perform fresh

/-- What every action keeps true. -/
structure Sound (i : Instance) : Prop where
  registry : i.registry.Sound
  built : i.fault = none → i.registry.BuiltFor i.config.compatible i.config.trackRef

theorem fresh_sound : fresh.Sound := by
  have none : Registry.empty.types = [] := rfl
  refine ⟨⟨?_, ?_, ?_⟩, fun _ e he => ?_⟩
  · simp [fresh, none]
  · simp [fresh, none]
  · simp [fresh, Registry.empty]
  · simp [fresh, Registry.empty] at he

theorem settle_registry {α : Type} (i : Instance) (outcome : Registry.Outcome α) :
    (i.settle outcome).2.registry = outcome.2 ∧ (i.settle outcome).2.config = i.config ∧
      (i.settle outcome).2.fault = i.fault := by
  obtain ⟨_ | _, registry⟩ := outcome <;> exact ⟨rfl, rfl, rfl⟩

theorem registry_reconfigure {i : Instance} (sound : i.registry.Sound) (config : Config) :
    (i.reconfigure config).registry.Sound := by
  unfold Instance.reconfigure
  split
  · rename_i registry h
    exact sound.of_rebuild h
  · exact sound

theorem serialize_of_fault (i : Instance) (g : Graph) (v : Value) {e : Error}
    (fault : i.fault = some e) : i.serialize g v = .error (.configuration e) := by
  have checked : i.checkFault = .error (.configuration e) := by simp only [checkFault, fault]
  unfold serialize
  rw [checked]
  rfl

theorem serialize_of_sane (i : Instance) (g : Graph) (v : Value) (sane : i.fault = none) :
    i.serialize g v =
      if v.isNull then .ok (Encode.head true)
      else (Write.value i.environment g i.rootMode true .dynamic v .initial).map
        fun p => Encode.head false ++ p.1 := by
  have checked : i.checkFault = .ok () := by simp only [checkFault, sane]
  unfold serialize
  rw [checked]
  split
  · rfl
  · rw [StateT.run]
    cases Write.value i.environment g i.rootMode true .dynamic v .initial <;> rfl

/-- An instance that writes was configured without a fault. -/
theorem sane_of_serialize {i : Instance} {g : Graph} {v : Value} {bytes : List UInt8}
    (written : i.serialize g v = .ok bytes) : i.fault = none := by
  cases fault : i.fault with
  | none => rfl
  | some e =>
    rw [serialize_of_fault i g v fault] at written
    cases written

/-- What is written is a head alone, for a null, or a head with the value behind it. -/
theorem ok_of_serialize {i : Instance} {g : Graph} {v : Value} {bytes : List UInt8}
    (written : i.serialize g v = .ok bytes) :
    i.fault = none ∧ (v = .null ∧ bytes = Encode.head true ∨
      v.isNull = false ∧ ∃ body ws, bytes = Encode.head false ++ body ∧
        Write.value i.environment g i.rootMode true .dynamic v .initial = .ok (body, ws)) := by
  have sane := sane_of_serialize written
  refine ⟨sane, ?_⟩
  rw [serialize_of_sane i g v sane] at written
  cases null : v.isNull with
  | true =>
    rw [null, if_pos rfl] at written
    cases written
    exact .inl ⟨Value.eq_null_of_isNull null, rfl⟩
  | false =>
    rw [null, if_neg Bool.false_ne_true] at written
    obtain ⟨⟨body, ws⟩, run, rfl⟩ := map_eq_ok_iff.1 written
    exact .inr ⟨rfl, body, ws, rfl, run⟩

theorem deserialize_of_fault (i : Instance) (bytes : List UInt8) {e : Error}
    (fault : i.fault = some e) : i.deserialize bytes = (.error (.configuration e), i) := by
  simp only [deserialize, checkFault, fault]

theorem deserialize_of_sane (i : Instance) (bytes : List UInt8) (sane : i.fault = none) :
    i.deserialize bytes =
      match Read.frame i.environment i.rootMode (.ofBytes bytes i.cache) with
      | .ok v s => (.ok (v, s.graph), { i with cache := s.cache })
      | .error e s => (.error e, { i with cache := s.cache }) := by
  have checked : i.checkFault = .ok () := by simp only [checkFault, sane]
  unfold deserialize
  rw [checked]
  rfl

/-- What is read is read by a sane instance. -/
theorem ok_of_deserialize {i : Instance} {bytes : List UInt8} {v : Value} {g : Graph}
    (read : (i.deserialize bytes).1 = .ok (v, g)) :
    i.fault = none ∧ ∃ st, st.graph = g ∧
      Read.frame i.environment i.rootMode (.ofBytes bytes i.cache) = .ok v st := by
  cases fault : i.fault with
  | some e =>
    rw [i.deserialize_of_fault bytes fault] at read
    cases read
  | none =>
    rw [i.deserialize_of_sane bytes fault] at read
    refine ⟨rfl, ?_⟩
    split at read
    · rename_i v' st run
      cases read
      exact ⟨st, rfl, run⟩
    · cases read

theorem deserialize_instance (i : Instance) (bytes : List UInt8) :
    ∃ cache, (i.deserialize bytes).2 = { i with cache } := by
  unfold Instance.deserialize
  split
  · exact ⟨i.cache, rfl⟩
  · split <;> exact ⟨_, rfl⟩

theorem registry_perform {i : Instance} (sound : i.registry.Sound) (action : Action) :
    (i.perform action).registry.Sound := by
  cases action with
  | setCompatible | setTrackRef => exact registry_reconfigure sound _
  | setMaxDepth | setLimits | setRequireRegistration | setStrategy => exact sound
  | registerStruct id decl =>
    exact (i.settle_registry _).1 ▸ (Registry.registering i.config (.struct decl)).sound _ id sound
  | registerEnum id decl =>
    exact (i.settle_registry _).1 ▸ (Registry.registering i.config (.enum decl)).sound _ id sound
  | registerStructAuto decl =>
    exact (i.settle_registry _).1 ▸ (Registry.registerAuto_keeps decl.naming
      (Registry.registering i.config (.struct decl)) i.registry).1 sound
  | registerEnumAuto decl =>
    exact (i.settle_registry _).1 ▸ (Registry.registerAuto_keeps decl.naming
      (Registry.registering i.config (.enum decl)) i.registry).1 sound
  | deserialize bytes =>
    obtain ⟨cache, same⟩ := i.deserialize_instance bytes
    exact (congrArg (·.registry.Sound) same).mpr sound

/-- Whether all structs have a property of what is built for the settings, unless these are at
fault. -/
def Everywhere (i : Instance) (P : Bool → Bool → String → Option Nat → StructType → Prop) : Prop :=
  i.fault = none → i.registry.Everywhere (P i.config.compatible i.config.trackRef)

section

variable {P : Bool → Bool → String → Option Nat → StructType → Prop}
  (only : ∀ config : Config, Registry.BuildsOnly config (P config.compatible config.trackRef))

include only

theorem everywhere_reconfigure (i : Instance) (config : Config) :
    (i.reconfigure config).Everywhere P := by
  unfold Instance.reconfigure
  split
  · rename_i registry h
    exact fun _ => (Registry.rebuild_eq_ok h).2.2.2 _ (only config)
  · exact nofun

omit only in
theorem everywhere_settle {α : Type} {i : Instance} (before : i.Everywhere P)
    {outcome : Registry.Outcome α}
    (kept : i.registry.Everywhere (P i.config.compatible i.config.trackRef) →
      outcome.2.Everywhere (P i.config.compatible i.config.trackRef)) :
    (i.settle outcome).2.Everywhere P := by
  obtain ⟨hr, hc, hf⟩ := i.settle_registry outcome
  intro sane
  rw [hr, hc]
  exact kept (before (hf ▸ sane))

theorem everywhere_perform {i : Instance} (before : i.Everywhere P) (action : Action) :
    (i.perform action).Everywhere P := by
  cases action with
  | setCompatible | setTrackRef => exact everywhere_reconfigure only i _
  | setMaxDepth | setLimits | setRequireRegistration | setStrategy => exact before
  | registerStruct id decl =>
    exact everywhere_settle before
      ((Registry.registering i.config (.struct decl)).everywhere _ (only i.config) _ id)
  | registerEnum id decl =>
    exact everywhere_settle before
      ((Registry.registering i.config (.enum decl)).everywhere _ (only i.config) _ id)
  | registerStructAuto decl =>
    exact everywhere_settle before ((Registry.registerAuto_keeps decl.naming
      (Registry.registering i.config (.struct decl)) i.registry).2 _ (only i.config))
  | registerEnumAuto decl =>
    exact everywhere_settle before ((Registry.registerAuto_keeps decl.naming
      (Registry.registering i.config (.enum decl)) i.registry).2 _ (only i.config))
  | deserialize bytes =>
    obtain ⟨cache, same⟩ := i.deserialize_instance bytes
    exact (congrArg (Everywhere · P) same).mpr before

end

theorem Sound.perform {i : Instance} (sound : i.Sound) (action : Action) :
    (i.perform action).Sound :=
  ⟨registry_perform sound.registry action,
    everywhere_perform (P := fun compatible trackRef name id s => s.Built compatible trackRef name id)
      Registry.builds_built sound.built action⟩

theorem Reachable.perform {i : Instance} (reachable : i.Reachable) (action : Action) :
    (i.perform action).Reachable := by
  obtain ⟨actions, rfl⟩ := reachable
  exact ⟨actions ++ [action], by simp⟩

/-- A property of fresh instances that every action keeps holds of reachable ones. -/
theorem Reachable.induct {P : Instance → Prop} (start : P fresh)
    (step : ∀ i action, P i → P (i.perform action)) {i : Instance} (reachable : i.Reachable) :
    P i := by
  obtain ⟨actions, rfl⟩ := reachable
  suffices ∀ j, P j → P (actions.foldl Instance.perform j) from this fresh start
  induction actions with
  | nil => exact fun _ h => h
  | cons action actions ih => exact fun j h => ih _ (step j action h)

theorem Reachable.sound {i : Instance} (reachable : i.Reachable) : i.Sound :=
  reachable.induct fresh_sound fun _ action sound => sound.perform action

/-- What holds of all that is built holds of all structs of a reachable instance. -/
theorem Reachable.everywhere {P : Bool → Bool → String → Option Nat → StructType → Prop}
    (only : ∀ config : Config, Registry.BuildsOnly config (P config.compatible config.trackRef))
    {i : Instance} (reachable : i.Reachable) : i.Everywhere P :=
  reachable.induct (P := (Instance.Everywhere · P))
    (fun _ _ member => absurd member List.not_mem_nil)
    fun _ action before => everywhere_perform only before action

end Instance

/-! ## Identifiers -/

/-- Whether an action registers types under identifiers of 32 bits only. -/
def Action.ById : Action → Prop
  | .registerStruct id _ | .registerEnum id _ => ∃ n, id = some n ∧ n < 2 ^ 32
  | .registerStructAuto _ | .registerEnumAuto _ => False
  | _ => True

/-- Whether every registered type has an identifier of 32 bits. -/
def Registry.Identified (r : Registry) : Prop := ∀ x ∈ r.types, ∃ id, x.2 = some id ∧ id < 2 ^ 32

theorem Registry.Registering.identified {config : Config}
    {register : Registry → Option Nat → Outcome Unit} (registering : Registering config register)
    {r : Registry} {id : Option Nat} (byId : ∃ n, id = some n ∧ n < 2 ^ 32) (h : r.Identified) :
    (register r id).2.Identified := by
  intro x member
  rcases registering.types r id x member with old | new
  · exact h x old
  · obtain ⟨n, same, small⟩ := byId
    exact ⟨n, new.trans same, small⟩

namespace Instance

/-- Whether an instance comes from a fresh one by actions that register types under identifiers
only. -/
def ReachedById (i : Instance) : Prop :=
  ∃ actions : List Action, (∀ a ∈ actions, a.ById) ∧ i = actions.foldl perform fresh

theorem ReachedById.reachable {i : Instance} (h : i.ReachedById) : i.Reachable :=
  let ⟨actions, _, same⟩ := h
  ⟨actions, same⟩

theorem identified_reconfigure {i : Instance} (config : Config) (h : i.registry.Identified) :
    (i.reconfigure config).registry.Identified := by
  unfold Instance.reconfigure
  split
  · rename_i registry built
    intro x member
    rw [(Registry.rebuild_eq_ok built).1] at member
    exact h x member
  · exact h

theorem identified_perform {i : Instance} {action : Action} (byId : action.ById)
    (h : i.registry.Identified) : (i.perform action).registry.Identified := by
  cases action with
  | setCompatible | setTrackRef => exact identified_reconfigure _ h
  | setMaxDepth | setLimits | setRequireRegistration | setStrategy => exact h
  | registerStruct id decl =>
    exact (i.settle_registry _).1 ▸ (Registry.registering i.config (.struct decl)).identified byId h
  | registerEnum id decl =>
    exact (i.settle_registry _).1 ▸ (Registry.registering i.config (.enum decl)).identified byId h
  | registerStructAuto | registerEnumAuto => exact byId.elim
  | deserialize bytes =>
    obtain ⟨cache, same⟩ := i.deserialize_instance bytes
    exact (congrArg (·.registry.Identified) same).mpr h

theorem ReachedById.identified {i : Instance} (h : i.ReachedById) : i.registry.Identified := by
  obtain ⟨actions, byId, rfl⟩ := h
  suffices ∀ j : Instance, j.registry.Identified →
      (actions.foldl perform j).registry.Identified from this fresh nofun
  induction actions with
  | nil => exact fun _ h => h
  | cons action actions ih =>
    obtain ⟨first, others⟩ := List.forall_mem_cons.1 byId
    exact fun j h => ih others _ (identified_perform first h)

end Instance

/-! ## Looking up types -/

namespace Registry

theorem struct?_eq_some_iff {r : Registry} {name : String} {s : StructType} :
    r.struct? name = some s ↔ ∃ entry, r.structs.lookup name = some entry ∧ entry.built = some s := by
  simp [struct?, Option.bind_eq_some_iff]

/-- A struct that is found was built for the settings. -/
theorem BuiltFor.built {r : Registry} {compatible trackRef : Bool} {name : String} {s : StructType}
    (h : r.BuiltFor compatible trackRef) (found : r.struct? name = some s) :
    s.Built compatible trackRef name s.id := by
  obtain ⟨entry, he, hs⟩ := struct?_eq_some_iff.1 found
  obtain ⟨before, after, same, -⟩ := List.lookup_eq_some_iff.1 he
  have built := h (name, entry) (by rw [same]; simp) s hs
  exact built.ident ▸ built

theorem BuiltFor.mem_types {r : Registry} {compatible trackRef : Bool} {name : String}
    {s : StructType} (h : r.BuiltFor compatible trackRef) (found : r.struct? name = some s) :
    (name, s.id) ∈ r.types := by
  obtain ⟨entry, he, hs⟩ := struct?_eq_some_iff.1 found
  obtain ⟨before, after, same, -⟩ := List.lookup_eq_some_iff.1 he
  have mem : (name, entry) ∈ r.structs := by rw [same]; simp
  exact mem_types_iff.2 (.inl ⟨_, mem, by rw [(h _ mem s hs).ident]⟩)

theorem mem_enums {r : Registry} {name : String} {e : EnumType} (found : r.enum? name = some e) :
    (name, e) ∈ r.enums := by
  obtain ⟨before, after, same, -⟩ := List.lookup_eq_some_iff.1 found
  rw [same]
  simp

theorem mem_types_of_enum? {r : Registry} {name : String} {e : EnumType}
    (found : r.enum? name = some e) : (name, e.id) ∈ r.types :=
  mem_types_iff.2 (.inr ⟨_, mem_enums found, rfl⟩)

/-- An enumeration is found under its own name. -/
theorem Sound.enumName {r : Registry} (sound : r.Sound) {name : String} {e : EnumType}
    (found : r.enum? name = some e) : e.NamedBy name :=
  sound.enumNames _ (mem_enums found)

/-- No name belongs to a struct and an enumeration. -/
theorem Sound.struct?_of_enum? {r : Registry} (sound : r.Sound) {name : String} {e : EnumType}
    (found : r.enum? name = some e) : r.struct? name = none := by
  apply Option.eq_none_iff_forall_ne_some.2
  intro s hs
  obtain ⟨entry, he, -⟩ := struct?_eq_some_iff.1 hs
  obtain ⟨before, after, same, -⟩ := List.lookup_eq_some_iff.1 he
  have mem : (name, entry) ∈ r.structs := by rw [same]; simp
  have distinct := sound.distinct
  simp only [types, List.map_append, List.map_map] at distinct
  exact (List.nodup_append.1 distinct).2.2 name (List.mem_map.2 ⟨_, mem, rfl⟩) name
    (List.mem_map.2 ⟨_, mem_enums found, rfl⟩) rfl

theorem named?_eq_struct_iff {r : Registry} {name : String} {s : StructType} :
    r.named? name = some (.struct s) ↔ r.struct? name = some s := by
  unfold named?
  cases r.struct? name <;> simp

theorem enum?_of_named? {r : Registry} {name : String} {e : EnumType}
    (found : r.named? name = some (.enum e)) : r.enum? name = some e := by
  unfold named? at found
  cases h : r.struct? name <;> simp_all

theorem Sound.named?_of_enum? {r : Registry} (sound : r.Sound) {name : String} {e : EnumType}
    (found : r.enum? name = some e) : r.named? name = some (.enum e) := by
  simp [named?, sound.struct?_of_enum? found, found]

/-- The identifier of a type leads to the type. -/
theorem Sound.byId? {r : Registry} (sound : r.Sound) {name : String} {id : Nat}
    (mem : (name, some id) ∈ r.types) : r.byId? id = r.named? name := by
  simp [Registry.byId?, sound.owned name id mem]

end Registry

end Graphwire
