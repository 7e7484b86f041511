import Graphwire.Proofs.History
import Graphwire.Proofs.Reading
import Graphwire.Proofs.Registrations

/-!
# The definitions at hand

A reader has the definitions that the frame brought so far, and those in the cache. Each is what the
registered types make of a definition under its header: in the cache because a type that joins empties
the cache, and in the frame because the header was met there.
-/

namespace Graphwire

set_option autoImplicit false

/-- Whether the definitions in a cache are what a registry makes of them. -/
def DefinitionCache.MadeBy (r : Registry) (c : DefinitionCache) : Prop :=
  ∀ e ∈ c.entries, ∃ d, e.2 = .ofDefinition r e.1 d

theorem DefinitionCache.MadeBy.empty (r : Registry) : DefinitionCache.empty.MadeBy r :=
  fun _ member => absurd member List.not_mem_nil

theorem DefinitionCache.MadeBy.add {r : Registry} {c : DefinitionCache} (made : c.MadeBy r)
    (header : Int) (d : TypeDefinition) : (c.add header (.ofDefinition r header d)).MadeBy r := by
  intro e member
  rcases DefinitionCache.mem_add member with rfl | old
  · exact ⟨d, rfl⟩
  · exact made e old

/-- Whether all definitions at hand are what a registry makes of them, and the headers of those that
were received have been met. -/
structure ReadState.Versed (r : Registry) (s : ReadState) : Prop where
  received : ∀ p ∈ s.received, ∃ e ∈ s.met, ∃ d, p = .ofDefinition r e.1 d
  cache : s.cache.MadeBy r

namespace Read

variable {α : Type} {r : Registry} {s : ReadState}

/-! ## Steps -/

/-- Whether a step keeps the reader versed and forgets no header, also when it fails. -/
def KeepsVersed (r : Registry) {α : Type} (Q : α → Prop) (m : Read α) : Prop :=
  ∀ s, s.Versed r → (final (m s)).Versed r ∧ s.met ⊆ (final (m s)).met ∧
    ∀ a t, m s = .ok a t → Q a

theorem keepsVersed_of_local {m : Read α} (h : Local m) : KeepsVersed r (fun _ => True) m := by
  intro s versed
  obtain ⟨received, met, cache⟩ := h.final s
  refine ⟨⟨?_, ?_⟩, ?_, fun _ _ _ => trivial⟩
  · rw [received, met]
    exact versed.received
  · rw [cache]
    exact versed.cache
  · rw [met]
    exact List.Subset.refl _

theorem KeepsVersed.bind {α β : Type} {Q : α → Prop} {R : β → Prop} {m : Read α} {f : α → Read β}
    (hm : KeepsVersed r Q m) (hf : ∀ a, Q a → KeepsVersed r R (f a)) : KeepsVersed r R (m >>= f) := by
  intro s versed
  obtain ⟨kept, more, value⟩ := hm s versed
  rw [bind_apply]
  cases run : m s with
  | error e t =>
    rw [run] at kept more
    exact ⟨kept, more, fun _ _ same => by cases same⟩
  | ok a t =>
    rw [run] at kept more
    obtain ⟨kept', more', value'⟩ := hf a (value a t run) t kept
    exact ⟨kept', List.Subset.trans more more', value'⟩

theorem congruence_keepsVersed :
    Congruence fun {α} (Q : α → Prop) (m _ : Read α) => KeepsVersed r Q m where
  ofLocal := keepsVersed_of_local
  pure h := fun _ versed => ⟨versed, List.Subset.refl _, fun _ _ run => by cases run; exact h⟩
  throw := fun _ versed => ⟨versed, List.Subset.refl _, nofun⟩
  bind hm hf := hm.bind hf

/-- A definition after a header is what the registry makes of one, from the cache or parsed. -/
theorem versed_definitionAfter (versed : s.Versed r) (header : Int) :
    (final (definitionAfter r header s)).Versed r ∧
      ∀ p t, definitionAfter r header s = .ok p t → ∃ d, p = .ofDefinition r header d := by
  cases found : s.cache.get? header with
  | some p =>
    rw [definitionAfter_of_hit found, bind_apply]
    simp only [decode]
    cases TypeDefinition.skipAfter header s.reader with
    | error e r' => exact ⟨⟨versed.received, versed.cache⟩, fun _ _ same => by cases same⟩
    | ok _ r' =>
      refine ⟨⟨versed.received, versed.cache⟩, fun q t same => ?_⟩
      cases same
      exact versed.cache (header, p) (DefinitionCache.mem_of_get? found)
  | none =>
    rw [definitionAfter_of_miss found, bind_apply, parsedAfter_apply]
    cases TypeDefinition.decodeAfter header s.reader with
    | error e r' => exact ⟨⟨versed.received, versed.cache⟩, fun _ _ same => by cases same⟩
    | ok d r' =>
      refine ⟨⟨versed.received, versed.cache.add header d⟩, fun q t same => ?_⟩
      cases same
      exact ⟨d, rfl⟩

/-- A definition with a new number was met just before. -/
theorem keepsVersed_new (header : Int) : KeepsVersed r (fun _ => True)
    (do
      note header
      let p ← definitionAfter r header
      receive p
      return p) := by
  intro s versed
  let noted : ReadState := { s with met := s.met ++ [(header, s.reader)] }
  have more : s.met ⊆ noted.met := List.subset_append_left ..
  have versed' : noted.Versed r := ⟨fun p member =>
    let ⟨e, met, made⟩ := versed.received p member
    ⟨e, more met, made⟩, versed.cache⟩
  obtain ⟨kept, made⟩ := versed_definitionAfter versed' header
  have met : (final (definitionAfter r header noted)).met = noted.met := met_definitionAfter header noted
  show (final ((definitionAfter r header >>= fun p => receive p >>= fun _ => pure p) noted)).Versed r ∧
    s.met ⊆ (final ((definitionAfter r header >>= fun p => receive p >>= fun _ => pure p) noted)).met ∧ _
  rw [bind_apply]
  cases run : definitionAfter r header noted with
  | error e t =>
    rw [run] at kept met
    exact ⟨kept, met ▸ more, fun _ _ _ => trivial⟩
  | ok p t =>
    rw [run] at kept met
    have here : (header, s.reader) ∈ t.met := by
      rw [show t.met = noted.met from met]
      exact List.mem_append_right _ (List.mem_singleton_self _)
    refine ⟨⟨fun q member => ?_, kept.cache⟩, show s.met ⊆ t.met from met ▸ more, fun _ _ _ => trivial⟩
    rcases List.mem_append.1 member with old | new
    · exact kept.received q old
    · obtain ⟨d, made⟩ := made p t run
      exact ⟨_, here, d, (List.mem_singleton.1 new).trans made⟩

theorem keepsVersed_definition : KeepsVersed r (fun _ => True) (definition r) := by
  have law := congruence_keepsVersed (r := r)
  refine (keepsVersed_of_local (local_decode _)).bind fun marker _ => ?_
  refine KeepsVersed.bind (Q := fun _ => True) (m := received)
    (fun s versed => ⟨versed, List.Subset.refl _, fun _ _ _ => trivial⟩) fun received _ => ?_
  split
  · split
    · exact law.pure trivial
    · exact law.throw
  · split
    · exact law.throw
    · exact (keepsVersed_of_local (local_decode _)).bind fun header _ => keepsVersed_new header

theorem walk_keepsVersed (env : Environment) :
    Walk (fun {α} (Q : α → Prop) (m _ : Read α) => KeepsVersed env.registry Q m) env env
      (fun _ => True) (fun _ => True) :=
  { congruence_keepsVersed with
    registry := rfl
    registration := rfl
    limited := fun _ _ => keepsVersed_of_local (local_check _)
    registered := fun _ _ => trivial
    own := fun _ _ _ _ => trivial
    definition := keepsVersed_definition }

theorem keepsVersed_frame (env : Environment) (mode : RefMode) :
    KeepsVersed env.registry (fun _ => True) (frame env mode) :=
  (walk_keepsVersed env).frame_of_depth ((walk_keepsVersed env).relatedFields_self rfl) rfl mode

/-! ## Types in front of values -/

/-- A definition that was read is among those that were received. -/
theorem ensures_definition_received : Ensures (definition r) s fun p t => p ∈ t.received := by
  unfold definition
  refine .last fun marker t => ?_
  refine Ensures.bind (Q := fun l u => l = t.received ∧ u = t)
    (fun l u run => by cases run; exact ⟨rfl, rfl⟩) ?_
  rintro l _ ⟨rfl, rfl⟩
  split
  · split
    · exact .pure (List.mem_of_getElem? ‹_›)
    · exact .throw _
  · split
    · exact .throw _
    · refine .last fun header t => .last fun _ t => .last fun p t => ?_
      exact Ensures.bind (Q := fun _ u => p ∈ u.received)
        (.modify (List.mem_append_right _ (List.mem_singleton_self p))) fun _ _ there => .pure there

end Read

/-- What is known of a type that was read in front of a value: a struct is not of the compatible mode, and
a definition was received, which without a type of ours is taken only where types need not be
registered. -/
def WireType.Told (env : Environment) (s : ReadState) : WireType → Prop
  | .struct own _ => own.isCompatible = false ∧ env.registry.HasStruct own
  | .peer p => p ∈ s.received ∧ (p.own = none → env.config.requireRegistration = false)
  | _ => True

namespace Read

variable {env : Environment} {s : ReadState}

theorem ensures_referred_told {named : Option NamedType} {name : String} {lenient : Bool} (kind : TypeId)
    (found : ∀ own, named = some (.struct own) → env.registry.HasStruct own) :
    Ensures (do check (checkKind kind (← check (referredType named name lenient)))) s
      fun wire t => wire.Told env t := by
  refine (Ensures.check (Q := fun wire t => wire.Told env t) fun wire referred => ?_).bind
    fun wire t told => Ensures.check fun wire' ok => ?_
  · unfold referredType at referred
    split at referred
    · split at referred <;> cases referred
      exact ⟨Bool.not_eq_true _ ▸ ‹_›, found _ rfl⟩
    · cases referred
      exact trivial
    · split at referred <;> cases referred
      exact trivial
  · have same : wire' = wire := by
      unfold checkKind at ok
      split at ok <;> first | (split at ok <;> cases ok <;> rfl) | (cases ok; rfl)
    exact same ▸ told

theorem ensures_typeInfo_told : Ensures (typeInfo env) s fun wire t => wire.Told env t := by
  refine .last fun kind t => ?_
  dsimp only
  split
  · exact .last fun id t => ensures_referred_told _ fun _ => Registry.hasStruct_of_byId?
  · split
    · exact .last fun package t => .last fun typeName t =>
        ensures_referred_told _ fun _ => Registry.hasStruct_of_named?
    · split
      · refine ensures_definition_received.bind fun p t received => ?_
        split
        · exact Ensures.bind (Q := fun _ _ => False) (.throw _) fun _ _ never => never.elim
        · rename_i passed
          refine .pure ⟨received, fun none => ?_⟩
          simpa [none] using passed
      · split
        · exact .pure trivial
        · exact .throw _

end Read

/-! ## Instances -/

namespace Instance

theorem madeBy_settle {α : Type} {i : Instance} (made : i.cache.MadeBy i.registry)
    {outcome : Registry.Outcome α} (same : ∀ e, outcome.1 = .error e → outcome.2 = i.registry) :
    (i.settle outcome).2.cache.MadeBy (i.settle outcome).2.registry := by
  obtain ⟨_ | _, registry⟩ := outcome
  · cases same _ rfl
    exact made
  · exact .empty _

theorem madeBy_reconfigure (i : Instance) (config : Config) :
    (i.reconfigure config).cache.MadeBy (i.reconfigure config).registry := by
  unfold reconfigure
  split <;> exact .empty _

theorem madeBy_deserialize {i : Instance} (made : i.cache.MadeBy i.registry) (bytes : List UInt8) :
    (i.deserialize bytes).2.cache.MadeBy (i.deserialize bytes).2.registry := by
  cases fault : i.fault with
  | some e =>
    rw [i.deserialize_of_fault bytes fault]
    exact made
  | none =>
    obtain ⟨kept, -⟩ := Read.keepsVersed_frame i.environment i.rootMode (.ofBytes bytes i.cache)
      ⟨fun _ member => absurd member List.not_mem_nil, made⟩
    rw [i.deserialize_of_sane bytes fault]
    generalize Read.frame i.environment i.rootMode (.ofBytes bytes i.cache) = result at kept
    cases result <;> exact kept.cache

theorem madeBy_perform {i : Instance} (consistent : i.registry.Consistent i.config)
    (made : i.cache.MadeBy i.registry) (action : Action) :
    (i.perform action).cache.MadeBy (i.perform action).registry := by
  obtain ⟨settled, claimed⟩ := consistent
  cases action with
  | setCompatible | setTrackRef => exact i.madeBy_reconfigure _
  | setMaxDepth | setLimits | setRequireRegistration | setStrategy => exact made
  | registerStruct id decl =>
    exact madeBy_settle made fun _ => Registry.register_error_eq (d := .struct decl) settled claimed
  | registerEnum id decl =>
    exact madeBy_settle made fun _ => Registry.register_error_eq (d := .enum decl) settled claimed
  | registerStructAuto decl =>
    exact madeBy_settle made fun _ => Registry.registerAuto_error_eq (d := .struct decl) settled claimed
  | registerEnumAuto decl =>
    exact madeBy_settle made fun _ => Registry.registerAuto_error_eq (d := .enum decl) settled claimed
  | deserialize bytes => exact madeBy_deserialize made bytes

/-- The definitions in the cache are what the registered types make of them. -/
theorem Reachable.cache_madeBy {i : Instance} (reachable : i.Reachable) :
    i.cache.MadeBy i.registry := by
  have both : i.registry.Consistent i.config ∧ i.cache.MadeBy i.registry := by
    refine reachable.induct (P := fun i => i.registry.Consistent i.config ∧ i.cache.MadeBy i.registry)
      ⟨Reachable.consistent ⟨[], rfl⟩, .empty _⟩ fun i action before => ?_
    exact ⟨consistent_perform before.1 action, madeBy_perform before.1 before.2 action⟩
  exact both.2

end Instance

end Graphwire
