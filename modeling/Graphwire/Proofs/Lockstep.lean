import Graphwire.Instance
import Graphwire.Proofs.Run

/-!
# Two readers in lockstep

Many properties of reading relate two runs: of one reader from different states, or of readers that
differ in one part. A relation that sequencing preserves, and that holds of every step that leaves
the received definitions and the cache alone, holds of whole payloads once it holds of definitions,
of ceilings on sizes and of the fields of records. This is the one walk through the reader that such
proofs share.
-/

namespace Graphwire

set_option autoImplicit false

namespace Read

variable {α β : Type}

/-! ## Local steps -/

/-- What a reader knows of definitions in one state, in another state. -/
def borrow (s t : ReadState) : ReadState :=
  { s with received := t.received, met := t.met, cache := t.cache }

@[simp] theorem borrow_reader (s t : ReadState) : (borrow s t).reader = s.reader := rfl

@[simp] theorem borrow_graph (s t : ReadState) : (borrow s t).graph = s.graph := rfl

/-- A result with what another state knows of definitions. -/
def under (t : ReadState) : EStateM.Result Error ReadState α → EStateM.Result Error ReadState α
  | .ok a s => .ok a (borrow s t)
  | .error e s => .error e (borrow s t)

/-- The state at the end. -/
def final : EStateM.Result Error ReadState α → ReadState
  | .ok _ s => s
  | .error _ s => s

/-- A step that neither looks at what is known of definitions nor changes it. -/
def Local (m : Read α) : Prop := ∀ s t, m (borrow s t) = under t (m s)

theorem Local.final {m : Read α} (h : Local m) (s : ReadState) :
    (final (m s)).received = s.received ∧ (final (m s)).met = s.met ∧
      (final (m s)).cache = s.cache := by
  have own : m s = under s (m s) := h s s
  rw [own]
  cases m s <;> exact ⟨rfl, rfl, rfl⟩

theorem Local.bind {m : Read α} {f : α → Read β} (hm : Local m) (hf : ∀ a, Local (f a)) :
    Local (m >>= f) := by
  intro s t
  rw [bind_apply, bind_apply, hm]
  cases m s with
  | ok a s' => exact hf a s' t
  | error e s' => rfl

theorem local_pure (a : α) : Local (pure a) := fun _ _ => rfl

theorem local_throw (e : Error) : Local (throw e : Read α) := fun _ _ => rfl

theorem local_decode (d : Decode α) : Local (decode d) := by
  intro s t
  simp only [decode, borrow_reader]
  cases d s.reader <;> rfl

theorem local_check (x : Except Error α) : Local (check x) := by
  cases x <;> exact fun _ _ => rfl

theorem local_alloc (n : Node) : Local (alloc n) := fun _ _ => rfl

theorem local_setNode (h : Handle) (n : Node) : Local (setNode h n) := fun _ _ => rfl

theorem local_instantiate (t : Template) : Local (instantiate t) := fun _ _ => rfl

theorem local_noteDropped : Local noteDropped := fun _ _ => rfl

theorem local_noteNull (h : Handle) (name : String) : Local (noteNull h name) := fun _ _ => rfl

theorem local_noteFilling (h : Handle) (name : String) (t : Template) :
    Local (noteFilling h name t) := fun _ _ => rfl

theorem local_publish (slot : Option Nat) (v : Value) : Local (publish slot v) := by
  cases slot <;> exact fun _ _ => rfl

theorem local_reserve : Local reserve := fun _ _ => rfl

theorem local_resolve (number : Nat) : Local (resolve number) := by
  intro s t
  exact local_check (s.slots.resolve number) s t

theorem local_ended (v : Value) :
    Local (do
      let remaining := (← get).reader.remaining
      if remaining ≠ 0 then throw (.trailingBytes remaining)
      return v) := by
  have ended : ∀ remaining : Nat, Local (do
      if remaining ≠ 0 then throw (.trailingBytes remaining)
      return v) := by
    intro remaining
    dsimp only
    split
    · exact (local_throw _).bind fun _ => local_pure _
    · exact local_pure _
  exact fun s t => ended s.reader.remaining s t

theorem local_setField (h : Handle) (name : String) (v : Value) : Local (setField h name v) := by
  intro s t
  show EStateM.Result.ok () _ = under t (EStateM.Result.ok () _)
  simp only [borrow_graph]
  cases s.graph.node h <;> rfl

theorem local_elementHeader (shape : Option Shape) : Local (elementHeader shape) := by
  apply (local_decode _).bind
  intro byte
  split
  · exact local_throw _
  · split
    · exact local_throw _
    · exact local_pure _

theorem local_newRecord (typeName : String) (slot : Option Nat) : Local (newRecord typeName slot) :=
  (local_alloc _).bind fun _ => (local_publish _ _).bind fun _ => local_pure _

theorem local_fillMissing (h : Handle) (f : Field) : Local (fillMissing h f) := by
  apply (local_check _).bind
  intro t
  split
  · exact (local_noteFilling _ _ _).bind fun _ => (local_instantiate _).bind fun _ =>
      local_setField _ _ _
  · exact local_pure _

theorem local_keepField (p : PeerStruct) (h : Handle) (f : PeerField) (v : Value) :
    Local (keepField p h f v) := by
  unfold keepField
  split
  · split
    · refine (local_noteNull _ _).bind fun _ => ?_
      split
      · exact local_pure _
      · exact local_fillMissing _ _
    · exact local_setField _ _ _
  · split
    · exact local_pure _
    · exact local_setField _ _ _
  · exact local_noteDropped

theorem local_each {one : α → Read Unit} (items : List α) (h : ∀ a ∈ items, Local (one a)) :
    Local (each one items) := by
  induction items with
  | nil => exact local_pure _
  | cons a items ih =>
    exact (h a List.mem_cons_self).bind fun _ => ih fun b hb => h b (List.mem_cons_of_mem a hb)

/-! ## Congruences -/

/-- A relation between readers, for a property of the values that they give, which sequencing
preserves. -/
structure Congruence (P : ∀ {α : Type}, (α → Prop) → Read α → Read α → Prop) : Prop where
  ofLocal : ∀ {α : Type} {m : Read α}, Local m → P (fun _ => True) m m
  pure : ∀ {α : Type} {Q : α → Prop} {a : α}, Q a → P Q (pure a) (pure a)
  throw : ∀ {α : Type} {Q : α → Prop} {e : Error}, P Q (throw e) (throw e)
  bind : ∀ {α β : Type} {Q : α → Prop} {R : β → Prop} {m₁ m₂ : Read α} {f₁ f₂ : α → Read β},
    P Q m₁ m₂ → (∀ a, Q a → P R (f₁ a) (f₂ a)) → P R (m₁ >>= f₁) (m₂ >>= f₂)

namespace Congruence

variable {P : ∀ {α : Type}, (α → Prop) → Read α → Read α → Prop} (law : Congruence P)

include law

theorem then_ {Q : β → Prop} {m : Read α} {f₁ f₂ : α → Read β} (hm : Local m)
    (hf : ∀ a, P Q (f₁ a) (f₂ a)) : P Q (m >>= f₁) (m >>= f₂) :=
  law.bind (law.ofLocal hm) fun a _ => hf a

theorem many {one₁ one₂ : Read α} (h : P (fun _ => True) one₁ one₂) (n : Nat) :
    P (fun _ => True) (Read.many one₁ n) (Read.many one₂ n) := by
  induction n with
  | zero => exact law.pure trivial
  | succ n ih => exact law.bind h fun _ _ => law.bind ih fun _ _ => law.pure trivial

theorem each {one₁ one₂ : α → Read Unit} (items : List α)
    (h : ∀ a ∈ items, P (fun _ => True) (one₁ a) (one₂ a)) :
    P (fun _ => True) (Read.each one₁ items) (Read.each one₂ items) := by
  induction items with
  | nil => exact law.pure trivial
  | cons a items ih =>
    exact law.bind (h a List.mem_cons_self) fun _ _ =>
      ih fun b hb => h b (List.mem_cons_of_mem a hb)

end Congruence

end Read

/-! ## The walk -/

/-- The environment with another strategy. -/
def Environment.following (env : Environment) (strategy : Strategy) : Environment :=
  { env with config := { env.config with strategy } }

/-- Whether the struct or the definition that a wire type carries is known to be good. -/
def WireType.Admits (good : StructType → Prop) (known : PeerStruct → Prop) : WireType → Prop
  | .struct s _ => good s
  | .peer p => known p
  | _ => True

/-- Whether a registry has a struct. -/
def Registry.HasStruct (r : Registry) (s : StructType) : Prop := ∃ name, r.struct? name = some s

theorem Registry.hasStruct_of_named? {r : Registry} {name : String} {s : StructType}
    (h : r.named? name = some (.struct s)) : r.HasStruct s := by
  unfold Registry.named? at h
  split at h
  · rename_i found
    cases h
    exact ⟨name, found⟩
  · obtain ⟨_, -, h⟩ := Option.map_eq_some_iff.1 h
    cases h

theorem Registry.hasStruct_of_byId? {r : Registry} {id : Nat} {s : StructType}
    (h : r.byId? id = some (.struct s)) : r.HasStruct s := by
  obtain ⟨_, -, named⟩ := Option.bind_eq_some_iff.1 h
  exact Registry.hasStruct_of_named? named

theorem Registry.hasStruct_of_structOf? {r : Registry} {identity : TypeIdentity} {s : StructType}
    (h : r.structOf? identity = some s) : r.HasStruct s := by
  unfold Registry.structOf? at h
  dsimp only at h
  split at h <;> cases h
  rename_i named
  split at named
  · exact Registry.hasStruct_of_byId? named
  · exact Registry.hasStruct_of_named? named

section

variable {env : Environment} {good : StructType → Prop} {known : PeerStruct → Prop}

theorem Environment.admits_declaredType
    (registered : ∀ s, env.registry.HasStruct s → good s) {shape : Shape}
    {wire : WireType} (h : env.declaredType shape = .ok wire) : wire.Admits good known := by
  cases shape with
  | named name =>
    simp only [Environment.declaredType] at h
    split at h <;> cases h
    · rename_i found
      exact registered _ (Registry.hasStruct_of_named? found)
    · trivial
  | dynamic => cases h
  | _ => cases h; trivial

end

namespace Read

/-- Whether a reader of payloads reads scalars as such. -/
def ReadsScalars (limits : SizeLimits) (inner : ReadPayload) : Prop :=
  ∀ t shape slot, t.isContainer = false → inner (.builtin t) shape slot = scalar limits t

/-- Two readers of payloads that are related on good wire types. -/
structure Paired (P : ∀ {α : Type}, (α → Prop) → Read α → Read α → Prop) (env₁ env₂ : Environment)
    (good : StructType → Prop) (known : PeerStruct → Prop) (inner₁ inner₂ : ReadPayload) :
    Prop where
  related : ∀ wire, wire.Admits good known → ∀ shape slot,
    P (fun _ => True) (inner₁ wire shape slot) (inner₂ wire shape slot)
  scalars₁ : ReadsScalars env₁.config.limits inner₁
  scalars₂ : ReadsScalars env₂.config.limits inner₂

/-- What a congruence must say of ceilings and definitions to hold of payloads that are read in two
environments with the same types. -/
structure Walk (P : ∀ {α : Type}, (α → Prop) → Read α → Read α → Prop) (env₁ env₂ : Environment)
    (good : StructType → Prop) (known : PeerStruct → Prop) : Prop extends Congruence P where
  registry : env₂.registry = env₁.registry
  registration : env₂.config.requireRegistration = env₁.config.requireRegistration
  limited : ∀ kind size, P (fun _ => True) (check (env₁.config.limits.check kind size))
    (check (env₂.config.limits.check kind size))
  registered : ∀ s, env₁.registry.HasStruct s → good s
  own : ∀ p s, known p → p.own = some s → good s
  definition : P known (definition env₁.registry) (definition env₁.registry)

/-- Whether the fields of good structs are read in related ways. -/
def RelatedFields (P : ∀ {α : Type}, (α → Prop) → Read α → Read α → Prop)
    (env₁ env₂ : Environment) (good : StructType → Prop) (known : PeerStruct → Prop) : Prop :=
  ∀ s, good s → ∀ inner₁ inner₂, Paired P env₁ env₂ good known inner₁ inner₂ →
    ∀ h, P (fun _ => True) (fields env₁ inner₁ s h) (fields env₂ inner₂ s h)

/-- Whether what is read one level further in is related, given the readers for that level. -/
def RelatedDescent (P : ∀ {α : Type}, (α → Prop) → Read α → Read α → Prop)
    (env₁ env₂ : Environment) (good : StructType → Prop) (known : PeerStruct → Prop)
    (deeper₁ deeper₂ : Option ReadPayload) : Prop :=
  ∀ {α : Type} {f₁ f₂ : ReadPayload → Read α},
    (∀ inner₁ inner₂, Paired P env₁ env₂ good known inner₁ inner₂ →
      P (fun _ => True) (f₁ inner₁) (f₂ inner₂)) →
    P (fun _ => True) (check (env₁.descend deeper₁) >>= f₁) (check (env₂.descend deeper₂) >>= f₂)

namespace Walk

variable {P : ∀ {α : Type}, (α → Prop) → Read α → Read α → Prop} {env₁ env₂ : Environment}
  {good : StructType → Prop} {known : PeerStruct → Prop} (walk : Walk P env₁ env₂ good known)

theorem admits_referredType {named : Option NamedType} {name : String} {lenient : Bool}
    {wire : WireType} (found : ∀ s, named = some (.struct s) → good s)
    (h : referredType named name lenient = .ok wire) : wire.Admits good known := by
  unfold referredType at h
  split at h
  · split at h <;> cases h
    exact found _ rfl
  · cases h
    trivial
  · split at h <;> cases h
    trivial

include walk

theorem check {α : Type} {Q : α → Prop} {x : Except Error α} (h : ∀ a, x = .ok a → Q a) :
    P Q (Read.check x) (Read.check x) := by
  cases x with
  | ok a => exact walk.pure (h a rfl)
  | error e => exact walk.throw

theorem referred {named : Option NamedType} {name : String} {lenient : Bool} (kind : TypeId)
    (found : ∀ s, named = some (.struct s) → good s) :
    P (WireType.Admits good known)
      (do Read.check (checkKind kind (← Read.check (referredType named name lenient))))
      (do Read.check (checkKind kind (← Read.check (referredType named name lenient)))) := by
  refine walk.bind (Q := WireType.Admits good known) ?_ fun wire hw => ?_
  · exact walk.check fun wire h => admits_referredType found h
  · apply walk.check
    intro wire' h
    have same : wire' = wire := by
      unfold checkKind at h
      split at h <;> first | (split at h <;> cases h <;> rfl) | (cases h; rfl)
    exact same ▸ hw

theorem text : P (fun _ => True) (Read.text env₁.config.limits) (Read.text env₂.config.limits) :=
  walk.then_ (local_decode _) fun _ => walk.bind (walk.limited _ _) fun _ _ =>
    walk.ofLocal (local_decode _)

theorem scalar (t : TypeId) : P (fun _ => True) (Read.scalar env₁.config.limits t)
    (Read.scalar env₂.config.limits t) := by
  unfold Read.scalar
  split
  · exact walk.ofLocal (local_decode _)
  · exact walk.ofLocal (local_decode _)
  · exact walk.ofLocal (local_decode _)
  · exact walk.ofLocal (local_decode _)
  · exact walk.bind walk.text fun _ _ => walk.pure trivial
  · exact walk.then_ (local_decode _) fun _ => walk.bind (walk.limited _ _) fun _ _ =>
      walk.then_ (local_decode _) fun _ => walk.pure trivial
  · exact walk.ofLocal (local_decode _)
  · exact walk.ofLocal (local_decode _)
  · exact walk.ofLocal (local_decode _)
  · exact walk.throw

theorem typeInfo : P (WireType.Admits good known) (Read.typeInfo env₁) (Read.typeInfo env₂) := by
  unfold Read.typeInfo
  rw [walk.registry, walk.registration]
  apply walk.then_ (local_decode _)
  intro kind
  dsimp only
  split
  · exact walk.then_ (local_decode _) fun id => walk.referred _ fun s hs =>
      walk.registered s (Registry.hasStruct_of_byId? hs)
  · split
    · refine walk.bind walk.text fun package _ => walk.bind walk.text fun typeName _ =>
        walk.referred _ fun s hs => walk.registered s (Registry.hasStruct_of_named? hs)
    · split
      · apply walk.bind walk.definition
        intro p hp
        split
        · exact walk.bind (Q := fun _ => True) walk.throw fun _ _ => walk.pure hp
        · exact walk.pure hp
      · split
        · exact walk.pure trivial
        · exact walk.throw

variable {inner₁ inner₂ : ReadPayload}
  (paired : Paired P env₁ env₂ good known inner₁ inner₂)

include paired

theorem typed (hasType : Bool) (shape : Shape) (slot : Option Nat) :
    P (fun _ => True) (Read.typed env₁ inner₁ hasType shape slot)
      (Read.typed env₂ inner₂ hasType shape slot) := by
  unfold Read.typed
  cases hasType with
  | true => exact walk.bind walk.typeInfo fun wire hw => paired.related wire hw shape slot
  | false =>
    have declared : env₂.declaredType shape = env₁.declaredType shape := by
      simp only [Environment.declaredType, walk.registry]
    simp only [Bool.false_eq_true, if_false, declared]
    refine walk.bind (walk.check fun wire h => ?_) fun wire hw => paired.related wire hw shape slot
    exact Environment.admits_declaredType walk.registered h

theorem marked (mode : RefMode) (hasType : Bool) (shape : Shape) :
    P (fun _ => True) (Read.marked env₁ inner₁ mode hasType shape)
      (Read.marked env₂ inner₂ mode hasType shape) := by
  unfold Read.marked
  split
  · exact walk.typed paired hasType shape none
  · apply walk.then_ (local_decode _)
    intro flag
    split
    · exact walk.pure trivial
    · exact walk.typed paired hasType shape none
    · exact walk.then_ (local_decode _) fun number => walk.ofLocal (local_resolve number)
    · apply walk.then_ local_reserve
      intro number
      apply walk.bind (walk.typed paired hasType shape (some number))
      intro v _
      exact walk.then_ (local_publish _ _) fun _ => walk.pure trivial
    · exact walk.throw

theorem element (header : ElementHeader) (shape : Option Shape) :
    P (fun _ => True) (Read.element env₁ inner₁ header shape)
      (Read.element env₂ inner₂ header shape) :=
  walk.marked paired _ _ _

theorem items (node : List Value → Node) (shape : Shape) (slot : Option Nat) :
    P (fun _ => True) (Read.items env₁ inner₁ node shape slot)
      (Read.items env₂ inner₂ node shape slot) := by
  refine walk.then_ (local_decode _) fun length => walk.bind (walk.limited _ _) fun _ _ =>
    walk.then_ (local_alloc _) fun h => walk.then_ (local_publish _ _) fun _ => ?_
  split
  · exact walk.pure trivial
  · apply walk.then_ (local_elementHeader _)
    intro header
    apply walk.bind (walk.many (walk.element paired header _) length)
    intro _ _
    exact walk.then_ (local_setNode _ _) fun _ => walk.pure trivial

theorem entries (shape : Shape) (slot : Option Nat) :
    P (fun _ => True) (Read.entries env₁ inner₁ shape slot)
      (Read.entries env₂ inner₂ shape slot) := by
  refine walk.then_ (local_decode _) fun length => walk.bind (walk.limited _ _) fun _ _ =>
    walk.then_ (local_alloc _) fun h => walk.then_ (local_publish _ _) fun _ => ?_
  split
  · exact walk.pure trivial
  · refine walk.then_ (local_elementHeader _) fun keyHeader =>
      walk.then_ (local_elementHeader _) fun valueHeader => ?_
    refine walk.bind (walk.many ?_ length) fun _ _ => ?_
    · exact walk.bind (walk.element paired keyHeader _) fun _ _ =>
        walk.bind (walk.element paired valueHeader _) fun _ _ => walk.pure trivial
    · exact walk.then_ (local_setNode _ _) fun _ => walk.pure trivial

theorem field (s : StructType) (h : Handle) (f : Field) :
    P (fun _ => True) (Read.field env₁ inner₁ s h f)
      (Read.field env₂ inner₂ s h f) := by
  apply walk.bind (walk.marked paired _ _ _)
  intro v _
  split
  · exact walk.ofLocal (local_noteNull _ _)
  · exact walk.ofLocal (local_setField _ _ _)

omit paired in
/-- A strategy is related to itself. -/
theorem relatedFields_self (same : env₂.config.strategy = env₁.config.strategy) :
    RelatedFields P env₁ env₂ good known := by
  intro s _ inner₁ inner₂ paired h
  unfold Read.fields
  rw [same]
  cases env₁.config.strategy with
  | interpreted => exact walk.each _ fun f _ => walk.field paired s h f
  | compiled =>
    apply walk.each _
    intro step _
    cases step with
    | run positions width =>
      exact walk.then_ (local_decode _) fun _ => walk.then_ (local_check _) fun _ =>
        walk.ofLocal (local_each _ fun _ _ => local_setField _ _ _)
    | field position => exact walk.each _ fun f _ => walk.field paired s h f

variable (related : RelatedFields P env₁ env₂ good known)

include related

theorem record (s : StructType) (hs : good s) (strict : Bool) (slot : Option Nat) :
    P (fun _ => True) (Read.record env₁ inner₁ s strict slot)
      (Read.record env₂ inner₂ s strict slot) := by
  unfold Read.record
  have body : P (fun _ => True)
      (do
        let h ← newRecord s.qualifiedName slot
        Read.fields env₁ inner₁ s h
        return Value.handle h)
      (do
        let h ← newRecord s.qualifiedName slot
        Read.fields env₂ inner₂ s h
        return Value.handle h) :=
    walk.then_ (local_newRecord _ _) fun h =>
      walk.bind (related s hs inner₁ inner₂ paired h) fun _ _ => walk.pure trivial
  cases strict with
  | true => exact walk.then_ (local_decode _) fun _ => walk.then_ (local_check _) fun _ => body
  | false => exact body

omit related in
theorem reconciled (p : PeerStruct) (slot : Option Nat) :
    P (fun _ => True) (Read.reconciled env₁ inner₁ p slot)
      (Read.reconciled env₂ inner₂ p slot) := by
  apply walk.then_ (local_newRecord _ _)
  intro h
  refine walk.bind (walk.each _ fun f _ => ?_) fun _ _ => ?_
  · exact walk.bind (walk.marked paired _ _ _) fun v _ => walk.ofLocal (local_keepField _ _ _ _)
  · refine walk.bind (walk.each _ fun f _ => ?_) fun _ _ => walk.pure trivial
    exact walk.ofLocal (local_fillMissing _ _)

theorem peerRecord (p : PeerStruct) (hp : known p) (slot : Option Nat) :
    P (fun _ => True) (Read.peerRecord env₁ inner₁ p slot)
      (Read.peerRecord env₂ inner₂ p slot) := by
  unfold Read.peerRecord
  split
  · rename_i s _ own
    exact walk.record paired related s (walk.own p s hp own) false slot
  · exact walk.reconciled paired p slot

omit paired in
theorem layer {deeper₁ deeper₂ : Option ReadPayload}
    (descend : RelatedDescent P env₁ env₂ good known deeper₁ deeper₂) :
    Paired P env₁ env₂ good known (Read.layer env₁ deeper₁) (Read.layer env₂ deeper₂) := by
  refine ⟨fun wire hw shape slot => ?_, fun t shape slot ht => ?_, fun t shape slot ht => ?_⟩
  · cases wire with
    | builtin t =>
      simp only [Read.layer]
      split
      · apply descend
        intro inner₁ inner₂ paired
        unfold Read.container
        split
        · exact walk.entries paired shape slot
        · exact walk.items paired _ shape slot
      · exact walk.scalar t
    | struct s strict => exact descend fun _ _ paired => walk.record paired related s hw strict slot
    | peer p => exact descend fun _ _ paired => walk.peerRecord paired related p hw slot
    | «enum» typeName members =>
      apply walk.then_ (local_decode _)
      intro ordinal
      split
      · exact walk.pure trivial
      · exact walk.throw
  · simp [Read.layer, ht]
  · simp [Read.layer, ht]

omit paired in
theorem payload (depth : env₂.config.maxDepth = env₁.config.maxDepth) (levels : Nat) :
    Paired P env₁ env₂ good known (Read.payload env₁ levels) (Read.payload env₂ levels) := by
  induction levels with
  | zero =>
    refine walk.layer related fun _ => ?_
    simp only [Environment.descend, depth]
    exact walk.throw
  | succ levels ih => exact walk.layer related fun inner => inner _ _ ih

omit paired related in
theorem frame (payloads : Paired P env₁ env₂ good known (Read.payload env₁ env₁.config.maxDepth)
    (Read.payload env₂ env₂.config.maxDepth)) (mode : RefMode) :
    P (fun _ => True) (Read.frame env₁ mode) (Read.frame env₂ mode) := by
  apply walk.then_ (local_decode _)
  intro isNull
  cases isNull with
  | true => exact walk.ofLocal (local_ended _)
  | false =>
    exact walk.bind (walk.marked payloads mode true .dynamic) fun v _ => walk.ofLocal (local_ended v)

omit paired in
/-- The frame with as many levels in both environments. -/
theorem frame_of_depth (depth : env₂.config.maxDepth = env₁.config.maxDepth) (mode : RefMode) :
    P (fun _ => True) (Read.frame env₁ mode) (Read.frame env₂ mode) := by
  refine walk.frame ?_ mode
  rw [depth]
  exact walk.payload related depth _

end Walk

end Read

end Graphwire
