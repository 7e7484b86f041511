import Graphwire.Proofs.Plans
import Graphwire.Proofs.Reachable

/-!
# The strategies agree

Going through records field by field and following plans are the same to every caller: a value is
written to the same bytes or refused for the same cause, and a frame is read to the same value or
refused with the same kind of error. This needs that every struct in use is planned, whether it
was registered, made up for a record, or came with a definition in the cache.
-/

namespace Graphwire

set_option autoImplicit false

theorem StructType.Built.planned {compatible trackRef : Bool} {name : String} {id : Option Nat}
    {s : StructType} (built : s.Built compatible trackRef name id) : s.Planned :=
  ⟨built.plan, fun f hf => (built.resolved f hf).scalarType⟩

/-! ## Writers -/

/-- Whether the structs that were made up are planned. -/
def WriteState.Planned (s : WriteState) : Prop := ∀ e ∈ s.adhoc, e.2.Planned

namespace Write

variable {α β : Type}

/-- Two writers that do the same where structs are planned, and keep them so. -/
def Same (Q : α → Prop) (m₁ m₂ : Write α) : Prop :=
  ∀ s : WriteState, s.Planned → m₁ s = m₂ s ∧ ∀ a s', m₁ s = .ok (a, s') → Q a ∧ s'.Planned

theorem Same.pure {Q : α → Prop} {a : α} (h : Q a) : Same Q (pure a) (pure a) := by
  refine fun s hs => ⟨rfl, fun b s' hb => ?_⟩
  cases hb
  exact ⟨h, hs⟩

theorem Same.throw {Q : α → Prop} (e : Error) : Same Q (throw e) (throw e) :=
  fun _ _ => ⟨rfl, nofun⟩

theorem Same.bind {Q : α → Prop} {R : β → Prop} {m₁ m₂ : Write α} {f₁ f₂ : α → Write β}
    (hm : Same Q m₁ m₂) (hf : ∀ a, Q a → Same R (f₁ a) (f₂ a)) :
    Same R (m₁ >>= f₁) (m₂ >>= f₂) := by
  intro s hs
  obtain ⟨same, keeps⟩ := hm s hs
  have run : ∀ (m : Write α) (f : α → Write β), (m >>= f) s = m s >>= fun p => f p.1 p.2 :=
    fun _ _ => rfl
  rw [run, run, ← same]
  cases h : m₁ s with
  | error e => exact ⟨rfl, nofun⟩
  | ok p => exact hf p.1 (keeps _ _ h).1 p.2 (keeps _ _ h).2

theorem Same.lift {Q : α → Prop} {x : Except Error α} (h : ∀ a, x = .ok a → Q a) :
    Same Q (liftM x) (liftM x) := by
  cases x with
  | ok a => exact .pure (h a rfl)
  | error e => exact .throw e

theorem Same.then_ {R : β → Prop} {m : Write α} {f₁ f₂ : α → Write β}
    (hm : Same (fun _ => True) m m) (hf : ∀ a, Same R (f₁ a) (f₂ a)) :
    Same R (m >>= f₁) (m >>= f₂) := hm.bind fun a _ => hf a

theorem Same.get : Same WriteState.Planned (get : Write WriteState) MonadState.get :=
  fun s hs => ⟨rfl, fun a s' h => by cases h; exact ⟨hs, hs⟩⟩

theorem Same.set {s : WriteState} (hs : s.Planned) :
    Same (fun _ => True) (set s : Write Unit) (MonadStateOf.set s) :=
  fun _ _ => ⟨rfl, fun a s' h => by cases h; exact ⟨trivial, hs⟩⟩

theorem Same.concat {write₁ write₂ : α → Write (List UInt8)} (items : List α)
    (h : ∀ a ∈ items, Same (fun _ => True) (write₁ a) (write₂ a)) :
    Same (fun _ => True) (Write.concat write₁ items) (Write.concat write₂ items) := by
  induction items with
  | nil => exact .pure trivial
  | cons a items ih =>
    apply (h a List.mem_cons_self).bind
    intro _ _
    exact (ih fun b hb => h b (List.mem_cons_of_mem a hb)).bind fun _ _ =>
      Same.pure (Q := fun _ => True) trivial

theorem same_mark (v : Value) : Same (fun _ => True) (mark v) (mark v) := by
  refine fun s hs => ⟨rfl, fun a s' h => ⟨trivial, ?_⟩⟩
  cases h
  exact hs

theorem same_definition (s : StructType) : Same (fun _ => True) (definition s) (definition s) := by
  apply Same.get.bind
  intro state hs
  split
  · exact .pure trivial
  · split
    · exact .throw _
    · exact Same.bind (Same.set (by exact hs)) fun _ _ => .pure trivial

/-- A wire type whose struct is planned. -/
abbrev Admits (wire : WireType) : Prop := wire.Admits StructType.Planned fun _ => True

section

variable {env : Environment} (registered : ∀ s, env.registry.HasStruct s → s.Planned)

include registered

theorem same_recordType (r : Record) :
    Same StructType.Planned (recordType env r) (recordType env r) := by
  unfold recordType
  split
  · rename_i s found
    exact .pure (registered s ⟨_, found⟩)
  · dsimp only
    by_cases refused : (env.config.requireRegistration || !env.config.compatible) = true
    · rw [if_pos refused]
      exact Same.bind (Q := fun _ => False) (.throw _) nofun
    · rw [if_neg refused]
      apply Same.get.bind
      intro state hs
      split
      · rename_i s found
        split
        · obtain ⟨before, after, same, -⟩ := List.lookup_eq_some_iff.1 found
          exact .pure (hs (r.typeName, s) (by rw [same]; simp))
        · exact .throw _
      · refine Same.bind (Q := StructType.Planned) ?_ fun s planned => ?_
        · exact .lift fun s h => (StructType.build_built h).planned
        · refine (Same.set fun e he => ?_).bind fun _ _ => .pure planned
          rcases List.mem_cons.1 he with rfl | he
          · exact planned
          · exact hs e he

theorem same_typeInfo (g : Graph) (v : Value) :
    Same (fun p => Admits p.2) (typeInfo env g v) (typeInfo env g v) := by
  unfold typeInfo
  split
  · apply (same_recordType registered _).bind
    intro s planned
    dsimp only
    split
    · exact (Same.pure trivial).then_ fun identity => .pure planned
    · split
      · exact (Same.pure trivial).then_ fun identity => .pure planned
      · exact (same_definition s).then_ fun identity => .pure planned
  · split
    · exact .pure trivial
    · split
      · exact .throw _
      · exact .pure trivial
  · split
    · exact .pure trivial
    · exact .throw _

/-- Two writers of payloads that do the same where structs are planned, and write scalars as
such. -/
structure SamePayload (g : Graph) (inner₁ inner₂ : WritePayload) : Prop where
  same : ∀ wire, Admits wire → ∀ shape v,
    Same (fun _ => True) (inner₁ wire shape v) (inner₂ wire shape v)
  scalars₁ : WritesScalars g inner₁
  scalars₂ : WritesScalars g inner₂

variable {first second : Strategy} {g : Graph} {inner₁ inner₂ : WritePayload}
  (inner : SamePayload g inner₁ inner₂)

include inner

theorem same_typed (hasType : Bool) (shape : Shape) (v : Value) :
    Same (fun _ => True) (typed (env.following first) g inner₁ hasType shape v)
      (typed (env.following second) g inner₂ hasType shape v) := by
  unfold typed
  cases hasType with
  | true =>
    apply (same_typeInfo registered g v).bind
    intro p hp
    exact (inner.same p.2 hp shape v).bind fun _ _ => .pure trivial
  | false =>
    refine Same.bind (Q := Admits) (.lift fun wire h => ?_) fun wire hw => inner.same wire hw shape v
    exact env.admits_declaredType registered h

theorem same_marked (mode : RefMode) (hasType : Bool) (shape : Shape) (v : Value) :
    Same (fun _ => True) (marked (env.following first) g inner₁ mode hasType shape v)
      (marked (env.following second) g inner₂ mode hasType shape v) := by
  have typed : Same (fun _ => True) (typed (env.following first) g inner₁ hasType shape v)
      (typed (env.following second) g inner₂ hasType shape v) :=
    same_typed registered inner hasType shape v
  unfold marked
  split
  · apply (same_mark v).bind
    intro p _
    split
    split
    · exact .pure trivial
    · exact typed.bind fun _ _ => .pure trivial
  · split
    · exact .pure trivial
    · exact typed.bind fun _ _ => .pure trivial
  · split
    · exact .throw _
    · exact typed

theorem same_items (shape : Shape) (elements : List Value) :
    Same (fun _ => True) (items (env.following first) g inner₁ shape elements)
      (items (env.following second) g inner₂ shape elements) := by
  unfold items
  dsimp only
  split
  · exact .pure trivial
  · refine Same.bind (.concat _ fun v _ => ?_) fun _ _ => .pure trivial
    exact same_marked registered inner _ _ _ v

theorem same_entries (shape : Shape) (pairs : List (Value × Value)) :
    Same (fun _ => True) (entries (env.following first) g inner₁ shape pairs)
      (entries (env.following second) g inner₂ shape pairs) := by
  unfold entries
  dsimp only
  split
  · exact .pure trivial
  · refine Same.bind (.concat _ fun pair _ => ?_) fun _ _ => .pure trivial
    apply (same_marked registered inner _ _ _ pair.1).bind
    intro _ _
    exact (same_marked registered inner _ _ _ pair.2).bind fun _ _ => .pure trivial

theorem same_field (s : StructType) (r : Record) (f : Field) :
    Same (fun _ => True) (field (env.following first) g inner₁ s r f)
      (field (env.following second) g inner₂ s r f) := by
  unfold field
  dsimp only
  split
  · exact .throw _
  · exact same_marked registered inner _ _ _ _

/-- The fields of a planned struct are written in the same way by both strategies. -/
theorem same_fields {s : StructType} (planned : s.Planned) (r : Record) :
    Same (fun _ => True) (fields (env.following first) g inner₁ s r)
      (fields (env.following second) g inner₂ s r) := by
  have direct : ∀ (strategy : Strategy) (payload : WritePayload), WritesScalars g payload →
      fields (env.following strategy) g payload s r =
        concat (field (env.following strategy) g payload s r) s.fields := by
    intro strategy payload scalars
    cases strategy with
    | interpreted => rfl
    | compiled => exact concat_covers scalars planned.covers
  rw [direct _ _ inner.scalars₁, direct _ _ inner.scalars₂]
  exact .concat _ fun f _ => same_field registered inner s r f

theorem same_record {s : StructType} (planned : s.Planned) (strict : Bool) (r : Record) :
    Same (fun _ => True) (record (env.following first) g inner₁ s strict r)
      (record (env.following second) g inner₂ s strict r) :=
  (same_fields registered inner planned r).bind fun _ _ => .pure trivial

omit inner in
theorem samePayload_layer {deeper₁ deeper₂ : Option WritePayload}
    (deeper : deeper₁ = none ∧ deeper₂ = none ∨ ∃ inner₁ inner₂, deeper₁ = some inner₁ ∧
      deeper₂ = some inner₂ ∧ SamePayload g inner₁ inner₂) :
    SamePayload g (layer (env.following first) g deeper₁)
      (layer (env.following second) g deeper₂) := by
  have descend : ∀ {f₁ f₂ : WritePayload → Write (List UInt8)},
      (∀ inner₁ inner₂, SamePayload g inner₁ inner₂ →
        Same (fun _ => True) (f₁ inner₁) (f₂ inner₂)) →
      Same (fun _ => True) (liftM ((env.following first).descend deeper₁) >>= f₁)
        (liftM ((env.following second).descend deeper₂) >>= f₂) := by
    intro f₁ f₂ hf
    rcases deeper with ⟨rfl, rfl⟩ | ⟨inner₁, inner₂, rfl, rfl, inner⟩
    · exact .throw _
    · exact hf inner₁ inner₂ inner
  have refuse : ∀ x : Except Error (List UInt8), Same (fun _ => True) (liftM x) (liftM x) :=
    fun x => .lift fun _ _ => trivial
  refine ⟨fun wire hw shape v => ?_, fun t shape v ht => ?_, fun t shape v ht => ?_⟩
  · cases wire with
    | builtin t =>
      simp only [layer]
      split
      · unfold container
        split
        · split
          · exact descend fun _ _ inner => same_items registered inner shape _
          · exact refuse _
        · split
          · exact descend fun _ _ inner => same_items registered inner shape _
          · exact refuse _
        · split
          · exact descend fun _ _ inner => same_entries registered inner shape _
          · exact refuse _
        · exact refuse _
      · exact refuse _
    | struct s strict =>
      simp only [layer]
      split
      · exact refuse _
      · split
        · exact .throw _
        · exact descend fun _ _ inner => same_record registered inner hw strict _
    | peer p => exact .throw _
    | «enum» typeName members =>
      simp only [layer]
      split
      · split
        · exact .pure trivial
        · exact .throw _
      · exact refuse _
  · simp only [layer, ht]
    rfl
  · simp only [layer, ht]
    rfl

omit inner in
theorem samePayload (levels : Nat) :
    SamePayload g (payload (env.following first) g levels)
      (payload (env.following second) g levels) := by
  induction levels with
  | zero => exact samePayload_layer registered (.inl ⟨rfl, rfl⟩)
  | succ levels ih => exact samePayload_layer registered (.inr ⟨_, _, rfl, rfl, ih⟩)

omit inner in
/-- A value is written in the same way by both strategies. -/
theorem same_value (mode : RefMode) (hasType : Bool) (shape : Shape) (v : Value) :
    Same (fun _ => True) (value (env.following first) g mode hasType shape v)
      (value (env.following second) g mode hasType shape v) :=
  same_marked registered (samePayload registered env.config.maxDepth) mode hasType shape v

end

end Write

/-! ## Readers -/

/-- Whether our struct behind a definition is planned. -/
def PeerStruct.Planned (p : PeerStruct) : Prop := ∀ s, p.own = some s → s.Planned

/-- Whether our structs behind received and cached definitions are planned. -/
structure ReadState.Planned (st : ReadState) : Prop where
  received : ∀ p ∈ st.received, p.Planned
  cache : ∀ e ∈ st.cache.entries, e.2.Planned

namespace Read

variable {α β : Type}

/-- Whether two results are the same, up to the details of an error. -/
inductive Agree (Q : α → Prop) : EStateM.Result Error ReadState α →
    EStateM.Result Error ReadState α → Prop where
  | ok {a : α} {st : ReadState} (value : Q a) (planned : st.Planned) :
    Agree Q (.ok a st) (.ok a st)
  | error {e₁ e₂ : Error} {st₁ st₂ : ReadState} (kind : e₁.kind = e₂.kind) (planned₁ : st₁.Planned)
    (planned₂ : st₂.Planned) : Agree Q (.error e₁ st₁) (.error e₂ st₂)

/-- Two readers that give the same where structs are planned, and keep them so. -/
def Alike {α : Type} (Q : α → Prop) (m₁ m₂ : Read α) : Prop :=
  ∀ st : ReadState, st.Planned → Agree Q (m₁ st) (m₂ st)

theorem Local.planned {m : Read α} (h : Local m) {st : ReadState} (planned : st.Planned) :
    (Read.final (m st)).Planned := by
  obtain ⟨received, -, cache⟩ := h.final st
  exact ⟨received ▸ planned.received, cache ▸ planned.cache⟩

/-- Local readers that give the same, or fail for causes of the same kind. -/
theorem alike_of_local {m₁ m₂ : Read α} (h₁ : Local m₁) (h₂ : Local m₂)
    (same : ∀ st, m₂ st = m₁ st ∨ ∃ e₂ st₂ e₁ st₁, m₂ st = .error e₂ st₂ ∧
      m₁ st = .error e₁ st₁ ∧ e₂.kind = e₁.kind) : Alike (fun _ => True) m₁ m₂ := by
  intro st planned
  have kept₁ := h₁.planned planned
  have kept₂ := h₂.planned planned
  rcases same st with same | ⟨e₂, st₂, e₁, st₁, hm₂, hm₁, kind⟩
  · rw [same]
    cases hm : m₁ st with
    | ok a st' => exact .ok trivial (by rw [hm] at kept₁; exact kept₁)
    | error e st' =>
      rw [hm] at kept₁
      exact .error rfl kept₁ kept₁
  · rw [hm₁] at kept₁
    rw [hm₂] at kept₂
    rw [hm₁, hm₂]
    exact .error kind.symm kept₁ kept₂

theorem congruence_alike : Congruence @Alike where
  ofLocal h := alike_of_local h h fun _ => .inl rfl
  pure h := fun _ planned => .ok h planned
  throw := fun _ planned => .error rfl planned planned
  bind := by
    intro α β Q R m₁ m₂ f₁ f₂ hm hf st planned
    rw [bind_apply, bind_apply]
    have agree := hm st planned
    generalize m₁ st = r₁, m₂ st = r₂ at agree
    cases agree with
    | ok value planned => exact hf _ value _ planned
    | error kind planned₁ planned₂ => exact .error kind planned₁ planned₂

/-! ## Definitions of planned structs -/

theorem alike_get : Alike ReadState.Planned (get : Read ReadState) MonadState.get :=
  fun _ planned => .ok planned planned

theorem alike_received : Alike (fun l => ∀ p ∈ l, p.Planned) received received :=
  fun _ planned => .ok planned.received planned

theorem alike_modify {f : ReadState → ReadState} (h : ∀ st, st.Planned → (f st).Planned) :
    Alike (fun _ => True) (modify f : Read Unit) (modify f) :=
  fun st planned => .ok trivial (h st planned)

section

variable {env : Environment} (registered : ∀ s, env.registry.HasStruct s → s.Planned)

include registered

theorem planned_ofDefinition (header : Int) (d : TypeDefinition) :
    (PeerStruct.ofDefinition env.registry header d).Planned := by
  intro s own
  have found : env.registry.structOf? d.identity = some s := own
  exact registered s (Registry.hasStruct_of_structOf? found)

theorem alike_definitionAfter (header : Int) :
    Alike PeerStruct.Planned (definitionAfter env.registry header)
      (definitionAfter env.registry header) := by
  apply congruence_alike.bind alike_get
  intro state planned
  split
  · rename_i p found
    refine congruence_alike.then_ (local_decode _) fun _ => congruence_alike.pure ?_
    exact planned.cache (header, p) (DefinitionCache.mem_of_get? found)
  · apply congruence_alike.then_ (local_decode _)
    intro d
    have fresh := planned_ofDefinition registered header d
    refine congruence_alike.bind (alike_modify fun st planned => ⟨planned.received, ?_⟩) fun _ _ =>
      congruence_alike.pure fresh
    intro e he
    rcases DefinitionCache.mem_add he with rfl | he
    · exact fresh
    · exact planned.cache e he

theorem alike_definition :
    Alike PeerStruct.Planned (definition env.registry) (definition env.registry) := by
  apply congruence_alike.then_ (local_decode _)
  intro marker
  apply congruence_alike.bind alike_received
  intro received planned
  split
  · split
    · rename_i p found
      exact congruence_alike.pure (planned p (List.mem_of_getElem? found))
    · exact congruence_alike.throw
  · split
    · exact congruence_alike.throw
    · apply congruence_alike.then_ (local_decode _)
      intro header
      refine congruence_alike.bind (alike_modify fun st h => ⟨h.received, h.cache⟩) ?_
      intro _ _
      apply congruence_alike.bind (alike_definitionAfter registered header)
      intro p hp
      refine congruence_alike.bind (alike_modify fun st h => ⟨fun q hq => ?_, h.cache⟩) fun _ _ =>
        congruence_alike.pure hp
      rcases List.mem_append.1 hq with hq | hq
      · exact h.received q hq
      · rw [List.mem_singleton.1 hq]
        exact hp

end

/-! ## Fields in both ways -/

section

variable {env : Environment} {s : StructType} {h : Handle} {limits : SizeLimits}
  {payload : ReadPayload}

theorem local_field_fixed (scalars : ReadsScalars limits payload) {f : Field} {w : Nat}
    (hf : f.Fixed w) : Local (field env payload s h f) := by
  obtain ⟨value, -, same⟩ := field_fixed env s h scalars hf
  rw [same]
  exact (local_decode _).bind fun _ => local_setField _ _ _

/-- A run of the plan and its fields, one after the other. -/
theorem alike_run (scalars : ReadsScalars limits payload) {positions : List Nat} {width : Nat}
    (run : FixedRun (s.fieldsAt positions) width) (env' : Environment) (other : ReadPayload) :
    Alike (fun _ => True) (each (field env payload s h) (s.fieldsAt positions))
      (step env' other s h (.run positions width)) := by
  refine alike_of_local ?_ ?_ fun st => step_run scalars run st
  · apply local_each _
    intro f hf
    obtain ⟨w, fixed⟩ := run.fixed f hf
    exact local_field_fixed scalars fixed
  · exact (local_decode _).bind fun _ => (local_check _).bind fun _ =>
      local_each _ fun _ _ => local_setField _ _ _

theorem each_append (one : α → Read Unit) (front back : List α) :
    each one (front ++ back) = each one front >>= fun _ => each one back := by
  induction front with
  | nil => simp [each]
  | cons a front ih => simp only [List.cons_append, each, ih, bind_assoc]

theorem alike_covers {env₁ env₂ : Environment} {inner₁ inner₂ : ReadPayload}
    (scalars : ReadsScalars limits inner₁)
    (each_field : ∀ f, Alike (fun _ => True) (field env₁ inner₁ s h f) (field env₂ inner₂ s h f))
    {steps : List PlanStep} {fields : List Field} (covers : s.Covers steps fields) :
    Alike (fun _ => True) (each (field env₁ inner₁ s h) fields)
      (each (step env₂ inner₂ s h) steps) := by
  induction covers with
  | nil => exact congruence_alike.pure trivial
  | run fixed _ ih =>
    rw [each_append]
    exact congruence_alike.bind (alike_run scalars fixed env₂ inner₂) fun _ _ => ih
  | @field position f _ _ found _ ih =>
    have single : step env₂ inner₂ s h (.field position) = field env₂ inner₂ s h f := by
      show each (field env₂ inner₂ s h) s.fields[position]?.toList = _
      simp [found, each]
    refine congruence_alike.bind (Q := fun _ => True) ?_ fun _ _ => ih
    rw [single]
    exact each_field f

end

section

variable {env : Environment} (registered : ∀ s, env.registry.HasStruct s → s.Planned)

include registered

theorem walk_alike (first second : Strategy) :
    Walk @Alike (env.following first) (env.following second) StructType.Planned
      PeerStruct.Planned :=
  { congruence_alike with
    registry := rfl
    registration := rfl
    limited := fun _ _ => congruence_alike.ofLocal (local_check _)
    registered
    own := fun _ s known own => known s own
    definition := alike_definition registered }

/-- The fields of a planned struct are read in the same way by both strategies. -/
theorem relatedFields_alike :
    RelatedFields @Alike (env.following .interpreted) (env.following .compiled) StructType.Planned
      PeerStruct.Planned :=
  fun s planned _ _ paired h =>
    alike_covers paired.scalars₁ (fun f => (walk_alike registered _ _).field paired s h f)
      planned.covers

end

end Read

/-! ## Instances -/

theorem Registry.BuiltFor.planned {r : Registry} {compatible trackRef : Bool}
    (h : r.BuiltFor compatible trackRef) : ∀ s, r.HasStruct s → s.Planned :=
  fun _ ⟨_, found⟩ => (h.built found).planned

namespace Instance

/-- What every action keeps true of the definitions in the cache, too. -/
structure Planned (i : Instance) : Prop extends i.Sound where
  cache : ∀ e ∈ i.cache.entries, e.2.Planned

theorem Planned.registered {i : Instance} (planned : i.Planned) (fault : i.fault = none) :
    ∀ s, i.environment.registry.HasStruct s → s.Planned :=
  (planned.built fault).planned

theorem Planned.start {i : Instance} (planned : i.Planned) (bytes : List UInt8) :
    (ReadState.ofBytes bytes i.cache).Planned :=
  ⟨fun _ h => absurd h List.not_mem_nil, planned.cache⟩

theorem Planned.deserialize {i : Instance} (planned : i.Planned) (bytes : List UInt8) :
    ∀ e ∈ (i.deserialize bytes).2.cache.entries, e.2.Planned := by
  cases fault : i.fault with
  | some e =>
    rw [i.deserialize_of_fault bytes fault]
    exact planned.cache
  | none =>
    have walk := Read.walk_alike (planned.registered fault) i.config.strategy i.config.strategy
    have agree := walk.frame_of_depth (walk.relatedFields_self rfl) rfl i.rootMode _
      (planned.start bytes)
    have same : i.environment.following i.config.strategy = i.environment := rfl
    rw [i.deserialize_of_sane bytes fault]
    rw [same] at agree
    generalize Read.frame i.environment i.rootMode (.ofBytes bytes i.cache) = result at agree ⊢
    cases agree with
    | ok _ kept => exact kept.cache
    | error _ kept _ => exact kept.cache

theorem Planned.perform {i : Instance} (planned : i.Planned) (action : Action) :
    (i.perform action).Planned := by
  refine ⟨planned.toSound.perform action, ?_⟩
  have empty : ∀ e ∈ DefinitionCache.empty.entries, e.2.Planned :=
    fun _ h => absurd h List.not_mem_nil
  have settled : ∀ {α : Type} (outcome : Registry.Outcome α),
      ∀ e ∈ (i.settle outcome).2.cache.entries, e.2.Planned := by
    intro α outcome
    obtain ⟨_ | _, _⟩ := outcome
    · exact planned.cache
    · exact empty
  have reconfigured : ∀ config, ∀ e ∈ (i.reconfigure config).cache.entries, e.2.Planned := by
    intro config
    unfold reconfigure
    split <;> exact empty
  cases action with
  | setCompatible | setTrackRef => exact reconfigured _
  | setMaxDepth | setLimits | setRequireRegistration | setStrategy => exact planned.cache
  | registerStruct | registerEnum | registerStructAuto | registerEnumAuto => exact settled _
  | deserialize bytes => exact planned.deserialize bytes

theorem Reachable.planned {i : Instance} (reachable : i.Reachable) : i.Planned :=
  reachable.induct ⟨fresh_sound, by simp [fresh, DefinitionCache.empty]⟩
    fun _ action planned => planned.perform action

/-- The strategy leaves no trace in what is written, nor in why it is refused. -/
theorem Reachable.serialize_setStrategy {i : Instance} (reachable : i.Reachable)
    (first second : Strategy) (g : Graph) (v : Value) :
    (i.setStrategy first).serialize g v = (i.setStrategy second).serialize g v := by
  cases fault : i.fault with
  | some e =>
    rw [serialize_of_fault (i.setStrategy first) g v fault,
      serialize_of_fault (i.setStrategy second) g v fault]
  | none =>
    have same : Write.Same (fun _ => True)
        (Write.value (i.setStrategy first).environment g i.rootMode true .dynamic v)
        (Write.value (i.setStrategy second).environment g i.rootMode true .dynamic v) :=
      Write.same_value (reachable.planned.registered fault) i.rootMode true .dynamic v
    have mode : ∀ strategy, (i.setStrategy strategy).rootMode = i.rootMode := fun _ => rfl
    rw [serialize_of_sane (i.setStrategy first) g v fault,
      serialize_of_sane (i.setStrategy second) g v fault, mode, mode,
      (same .initial fun _ h => absurd h List.not_mem_nil).1]

/-- What is written is written field by field, too. -/
theorem Reachable.serialize_interpreted {i : Instance} (reachable : i.Reachable) {g : Graph} {v : Value}
    {bytes : List UInt8} (written : i.serialize g v = .ok bytes) :
    (i.setStrategy .interpreted).serialize g v = .ok bytes :=
  (reachable.serialize_setStrategy .interpreted i.config.strategy g v).trans written

/-- Whether two outcomes are the same, up to the details of an error. -/
inductive Alike {α : Type} : Except Error α → Except Error α → Prop where
  | ok (a : α) : Alike (.ok a) (.ok a)
  | error {e₁ e₂ : Error} (kind : e₁.kind = e₂.kind) : Alike (.error e₁) (.error e₂)

/-- The strategy leaves no trace in the reader of a frame. -/
theorem Reachable.agree_frame {i : Instance} (reachable : i.Reachable) (sane : i.fault = none)
    (bytes : List UInt8) :
    Read.Agree (fun _ => True)
      (Read.frame (i.setStrategy .interpreted).environment i.rootMode (.ofBytes bytes i.cache))
      (Read.frame (i.setStrategy .compiled).environment i.rootMode (.ofBytes bytes i.cache)) := by
  have registered := reachable.planned.registered sane
  exact (Read.walk_alike registered .interpreted .compiled).frame_of_depth
    (Read.relatedFields_alike registered) rfl i.rootMode _ (reachable.planned.start bytes)

/-- A frame that is read is read field by field, too. -/
theorem Reachable.frame_interpreted {i : Instance} (reachable : i.Reachable) (sane : i.fault = none)
    {bytes : List UInt8} {v : Value} {st : ReadState}
    (read : Read.frame i.environment i.rootMode (.ofBytes bytes i.cache) = .ok v st) :
    Read.frame (i.setStrategy .interpreted).environment i.rootMode (.ofBytes bytes i.cache) =
      .ok v st := by
  have self : i.setStrategy i.config.strategy = i := rfl
  cases strategy : i.config.strategy with
  | interpreted => rwa [← strategy, self]
  | compiled =>
    have agree := reachable.agree_frame sane bytes
    rw [← strategy, self, read] at agree
    generalize Read.frame (i.setStrategy .interpreted).environment _ _ = result at agree ⊢
    cases agree
    rfl

/-- The strategy leaves no trace in what is read, and refusals are of the same kind. -/
theorem Reachable.deserialize_setStrategy {i : Instance} (reachable : i.Reachable)
    (bytes : List UInt8) :
    Alike ((i.setStrategy .interpreted).deserialize bytes).1
      ((i.setStrategy .compiled).deserialize bytes).1 := by
  cases fault : i.fault with
  | some e =>
    rw [deserialize_of_fault (i.setStrategy .interpreted) bytes fault,
      deserialize_of_fault (i.setStrategy .compiled) bytes fault]
    exact .error rfl
  | none =>
    have agree := reachable.agree_frame fault bytes
    rw [deserialize_of_sane (i.setStrategy .interpreted) bytes fault,
      deserialize_of_sane (i.setStrategy .compiled) bytes fault]
    have mode : ∀ strategy, (i.setStrategy strategy).rootMode = i.rootMode := fun _ => rfl
    have cache : ∀ strategy, (i.setStrategy strategy).cache = i.cache := fun _ => rfl
    rw [mode, mode, cache, cache]
    generalize Read.frame (i.setStrategy .interpreted).environment _ _ = first at agree ⊢
    generalize Read.frame (i.setStrategy .compiled).environment _ _ = second at agree ⊢
    cases agree with
    | ok _ _ => exact .ok _
    | error kind _ _ => exact .error kind

/-- What is read field by field is read in every way. -/
theorem Reachable.deserialize_eq_ok {i : Instance} (reachable : i.Reachable) {bytes : List UInt8}
    {result : Value × Graph}
    (h : ((i.setStrategy .interpreted).deserialize bytes).1 = .ok result) :
    (i.deserialize bytes).1 = .ok result := by
  have self : i.setStrategy i.config.strategy = i := rfl
  cases strategy : i.config.strategy with
  | interpreted => rwa [← strategy, self] at h
  | compiled =>
    have alike := reachable.deserialize_setStrategy bytes
    rw [← strategy, self, h] at alike
    generalize (i.deserialize bytes).1 = outcome at alike
    cases alike
    rfl

/-- What is read in some way is read field by field. -/
theorem Reachable.deserialize_interpreted {i : Instance} (reachable : i.Reachable)
    {bytes : List UInt8} {result : Value × Graph} (h : (i.deserialize bytes).1 = .ok result) :
    ((i.setStrategy .interpreted).deserialize bytes).1 = .ok result := by
  have self : i.setStrategy i.config.strategy = i := rfl
  cases strategy : i.config.strategy with
  | interpreted => rwa [← strategy, self]
  | compiled =>
    have alike := reachable.deserialize_setStrategy bytes
    rw [← strategy, self, h] at alike
    generalize ((i.setStrategy .interpreted).deserialize bytes).1 = outcome at alike ⊢
    cases alike
    rfl

/-- An instance that follows plans and one that goes field by field do the same for every caller. -/
theorem compiled_agrees_with_interpreted {i : Instance} (reachable : i.Reachable) :
    (∀ g v, (i.setStrategy .compiled).serialize g v = (i.setStrategy .interpreted).serialize g v) ∧
    ∀ bytes, Alike ((i.setStrategy .interpreted).deserialize bytes).1
      ((i.setStrategy .compiled).deserialize bytes).1 :=
  ⟨fun g v => reachable.serialize_setStrategy .compiled .interpreted g v,
    fun bytes => reachable.deserialize_setStrategy bytes⟩

/-- A struct that is planned as one run. -/
def pointDecl : StructDecl :=
  { naming := .ofNames "demo" "Point"
    parent := none
    isAbstract := false
    fields := [.ofShape "x" (.scalar .int32), .ofShape "y" (.scalar .float64)] }

theorem strategies_agree_on_points :
    (fresh.registerStruct (some 1) pointDecl).2.Reachable ∧
    (∀ g v, ((fresh.registerStruct (some 1) pointDecl).2.setStrategy .compiled).serialize g v =
      ((fresh.registerStruct (some 1) pointDecl).2.setStrategy .interpreted).serialize g v) ∧
    ∀ bytes, Alike
      (((fresh.registerStruct (some 1) pointDecl).2.setStrategy .interpreted).deserialize bytes).1
      (((fresh.registerStruct (some 1) pointDecl).2.setStrategy .compiled).deserialize bytes).1 :=
  have reachable : (fresh.registerStruct (some 1) pointDecl).2.Reachable :=
    ⟨[.registerStruct (some 1) pointDecl], rfl⟩
  ⟨reachable, compiled_agrees_with_interpreted reachable⟩

end Instance

end Graphwire
