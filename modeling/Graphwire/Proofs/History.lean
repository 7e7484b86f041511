import Graphwire.Proofs.Lockstep
import Graphwire.Proofs.Reachable

/-!
# Reading after other frames

An instance keeps the definitions that it parsed, under their headers, and a definition whose header
is known is not looked at again. So what an instance reads depends on the frames before only where
two definitions share a header: as long as all definitions that are met under one header have the
same layer, every frame is read as if it was the first one.
-/

namespace Graphwire

set_option autoImplicit false

/-! ## Layers -/

namespace TypeDefinition

/-- The bytes of the layer after a header. -/
def layer (header : Int) : Decode (List UInt8) := do
  let size ← decodeSize header
  Decode.bytes size

/-- What a layer says. -/
def parse (header : Int) (bytes : List UInt8) : Except Error TypeDefinition :=
  match (decodeLayer header).run (.ofBytes bytes) with
  | .ok d _ => .ok d
  | .error e _ => .error e

theorem skipAfter_apply (header : Int) (r : Reader) :
    skipAfter header r =
      match layer header r with
      | .ok _ r' => .ok () r'
      | .error e r' => .error e r' := by
  have unfolded : skipAfter header = layer header >>= fun _ => pure () := by
    simp [skipAfter, layer, Decode.skip]
  rw [unfolded]
  show EStateM.bind (layer header) _ r = _
  unfold EStateM.bind
  cases layer header r <;> rfl

theorem decodeAfter_apply (header : Int) (r : Reader) :
    decodeAfter header r =
      match layer header r with
      | .ok bytes r' =>
        match parse header bytes with
        | .ok d => .ok d r'
        | .error e => .error e r'
      | .error e r' => .error e r' := by
  have unfolded : decodeAfter header =
      layer header >>= fun bytes => Decode.within bytes (decodeLayer header) := by
    simp [decodeAfter, layer]
  rw [unfolded]
  show EStateM.bind (layer header) _ r = _
  unfold EStateM.bind
  cases layer header r with
  | error e r' => rfl
  | ok bytes r' =>
    simp only [Decode.within, parse]
    cases (decodeLayer header).run (.ofBytes bytes) <;> rfl

end TypeDefinition

/-- Whether any two complete definitions under one header, among those that were met, have the same
layer. -/
def Consistent (met : List (Int × Reader)) : Prop :=
  ∀ x ∈ met, ∀ y ∈ met, x.1 = y.1 → ∀ a b r s, TypeDefinition.layer x.1 x.2 = .ok a r →
    TypeDefinition.layer y.1 y.2 = .ok b s → a = b

theorem consistent_of_forall_eq {met : List (Int × Reader)} {y : Int × Reader}
    (h : ∀ x ∈ met, x = y) : Consistent met := by
  intro x hx z hz _ a b r s hr hs
  rw [h x hx] at hr
  rw [h z hz, hr] at hs
  injection hs

/-- Whether a definition that was met is complete with the given layer. -/
def Shows (met : List (Int × Reader)) (header : Int) (bytes : List UInt8) : Prop :=
  ∃ x ∈ met, x.1 = header ∧ ∃ r, TypeDefinition.layer x.1 x.2 = .ok bytes r

theorem Consistent.unique {met : List (Int × Reader)} (consistent : Consistent met) {header : Int}
    {a b : List UInt8} (ha : Shows met header a) (hb : Shows met header b) : a = b := by
  obtain ⟨x, hx, rfl, r, hr⟩ := ha
  obtain ⟨y, hy, same, s, hs⟩ := hb
  exact consistent x hx y hy same.symm a b r s hr hs

/-- Whether everything in a cache is what some layer that was met says. -/
def DefinitionCache.ComesFrom (c : DefinitionCache) (registry : Registry)
    (met : List (Int × Reader)) : Prop :=
  ∀ e ∈ c.entries, ∃ bytes d, Shows met e.1 bytes ∧ TypeDefinition.parse e.1 bytes = .ok d ∧
    e.2 = PeerStruct.ofDefinition registry e.1 d

/-! ## Readers with different caches -/

namespace Read

variable {α β : Type}

/-- A result with another cache. -/
def keeping (c : DefinitionCache) :
    EStateM.Result Error ReadState α → EStateM.Result Error ReadState α
  | .ok a s => .ok a { s with cache := c }
  | .error e s => .error e { s with cache := c }

/-- Whether a result adds to the notes, and its value has a property. -/
def Extends (Q : α → Prop) (s : ReadState) (result : EStateM.Result Error ReadState α) : Prop :=
  s.met ⊆ (final result).met ∧ ∀ a t, result = .ok a t → Q a

variable (registry : Registry) (met : List (Int × Reader))

/-- Two readers whose results do not depend on caches that come from the notes, as long as what
they meet is in the notes. -/
def Blind {α : Type} (Q : α → Prop) (m₁ m₂ : Read α) : Prop :=
  ∀ s : ReadState, Extends Q s (m₂ s) ∧
    ∀ c₁ c₂ : DefinitionCache, c₁.ComesFrom registry met → c₂.ComesFrom registry met →
      (final (m₂ { s with cache := c₂ })).met ⊆ met →
      ∃ result c₁' c₂', c₁'.ComesFrom registry met ∧ c₂'.ComesFrom registry met ∧
        m₁ { s with cache := c₁ } = keeping c₁' result ∧
        m₂ { s with cache := c₂ } = keeping c₂' result

variable {registry met}

theorem blind_of_local {m : Read α} (h : Local m) : Blind registry met (fun _ => True) m m := by
  intro s
  obtain ⟨received, same, -⟩ := h.final s
  have cached : ∀ c, m { s with cache := c } = keeping c (m s) := by
    intro c
    have moved : m { s with cache := c } = under { s with cache := c } (m s) :=
      h s { s with cache := c }
    rw [moved]
    cases hm : m s with
    | ok a t =>
      rw [hm] at received same
      simp only [under, keeping, borrow, ← received, ← same, final]
    | error e t =>
      rw [hm] at received same
      simp only [under, keeping, borrow, ← received, ← same, final]
  refine ⟨⟨?_, fun _ _ _ => trivial⟩, fun c₁ c₂ h₁ h₂ _ =>
    ⟨m s, c₁, c₂, h₁, h₂, cached c₁, cached c₂⟩⟩
  rw [same]
  exact List.Subset.refl _

theorem congruence_blind :
    Congruence fun {α} (Q : α → Prop) m₁ m₂ => Blind registry met Q m₁ m₂ where
  ofLocal := blind_of_local
  pure h := fun s => ⟨⟨List.Subset.refl _, fun a t e => by cases e; exact h⟩,
    fun c₁ c₂ h₁ h₂ _ => ⟨.ok _ s, c₁, c₂, h₁, h₂, rfl, rfl⟩⟩
  throw := fun s => ⟨⟨List.Subset.refl _, nofun⟩,
    fun c₁ c₂ h₁ h₂ _ => ⟨.error _ s, c₁, c₂, h₁, h₂, rfl, rfl⟩⟩
  bind := by
    intro α β Q R m₁ m₂ f₁ f₂ hm hf s
    refine ⟨?_, fun c₁ c₂ h₁ h₂ covered => ?_⟩
    · obtain ⟨more, value⟩ := (hm s).1
      rw [bind_apply]
      cases h : m₂ s with
      | ok a t =>
        rw [h] at more
        obtain ⟨later, result⟩ := (hf a (value a t h) t).1
        exact ⟨List.Subset.trans more later, result⟩
      | error e t =>
        rw [h] at more
        exact ⟨more, nofun⟩
    · obtain ⟨more, value⟩ := (hm { s with cache := c₂ }).1
      rw [bind_apply] at covered
      have covered₂ : (final (m₂ { s with cache := c₂ })).met ⊆ met := by
        cases h : m₂ { s with cache := c₂ } with
        | ok a t =>
          rw [h] at covered
          exact List.Subset.trans (hf a (value a t h) t).1.1 covered
        | error e t =>
          rw [h] at covered
          exact covered
      obtain ⟨result, d₁, d₂, k₁, k₂, eq₁, eq₂⟩ := (hm s).2 c₁ c₂ h₁ h₂ covered₂
      rw [bind_apply, bind_apply, eq₁, eq₂]
      rw [eq₂] at covered
      cases result with
      | ok a t => exact (hf a (value a _ eq₂) t).2 d₁ d₂ k₁ k₂ covered
      | error e t => exact ⟨.error e t, d₁, d₂, k₁, k₂, rfl, rfl⟩

/-! ## Definitions -/

/-- The definition after a header, always parsed. -/
def parsedAfter (registry : Registry) (header : Int) : Read PeerStruct :=
  PeerStruct.ofDefinition registry header <$> decode (TypeDefinition.decodeAfter header)

theorem definitionAfter_of_hit {header : Int} {s : ReadState} {p : PeerStruct}
    (hit : s.cache.get? header = some p) : definitionAfter registry header s =
      (decode (TypeDefinition.skipAfter header) >>= fun _ => pure p : Read PeerStruct) s := by
  unfold definitionAfter
  rw [bind_of_ok (show (get : Read ReadState) s = .ok s s from rfl)]
  dsimp only
  rw [hit]

theorem definitionAfter_of_miss {header : Int} {s : ReadState} (miss : s.cache.get? header = none) :
    definitionAfter registry header s =
      (do
        let p ← parsedAfter registry header
        modify fun s => { s with cache := s.cache.add header p }
        return p : Read PeerStruct) s := by
  unfold definitionAfter
  rw [bind_of_ok (show (get : Read ReadState) s = .ok s s from rfl)]
  dsimp only
  rw [miss]
  simp [parsedAfter]

theorem parsedAfter_apply (header : Int) (s : ReadState) : parsedAfter registry header s =
    match TypeDefinition.decodeAfter header s.reader with
    | .ok d r => .ok (PeerStruct.ofDefinition registry header d) { s with reader := r }
    | .error e r => .error e { s with reader := r } := by
  simp only [parsedAfter, map_eq_pure_bind, bind_apply, decode]
  cases TypeDefinition.decodeAfter header s.reader <;> rfl

/-- A hit gives what parsing would give. -/
theorem definitionAfter_apply (consistent : Consistent met) {header : Int} {s : ReadState}
    (noted : ∀ bytes r, TypeDefinition.layer header s.reader = .ok bytes r →
      Shows met header bytes) {c : DefinitionCache} (sound : c.ComesFrom registry met) :
    ∃ c', c'.ComesFrom registry met ∧ definitionAfter registry header { s with cache := c } =
      keeping c' (parsedAfter registry header s) := by
  cases found : c.get? header with
  | none =>
    rw [definitionAfter_of_miss found, parsedAfter_apply, TypeDefinition.decodeAfter_apply,
      bind_apply, parsedAfter_apply, TypeDefinition.decodeAfter_apply]
    cases hl : TypeDefinition.layer header s.reader with
    | error e r => exact ⟨c, sound, rfl⟩
    | ok bytes r =>
      dsimp only
      cases hd : TypeDefinition.parse header bytes with
      | error e => exact ⟨c, sound, rfl⟩
      | ok d =>
        let p := PeerStruct.ofDefinition registry header d
        refine ⟨c.add header p, fun e he => ?_, rfl⟩
        rcases DefinitionCache.mem_add he with rfl | he
        · exact ⟨bytes, d, noted bytes r hl, hd, rfl⟩
        · exact sound e he
  | some p =>
    obtain ⟨bytes, d, shown, hd, hp⟩ := sound (header, p) (DefinitionCache.mem_of_get? found)
    refine ⟨c, sound, ?_⟩
    rw [definitionAfter_of_hit found, bind_apply, parsedAfter_apply,
      TypeDefinition.decodeAfter_apply]
    simp only [decode]
    rw [TypeDefinition.skipAfter_apply]
    cases hl : TypeDefinition.layer header s.reader with
    | error e r => rfl
    | ok bytes' r =>
      cases consistent.unique (noted bytes' r hl) shown
      dsimp only at hd hp ⊢
      rw [hd, hp]
      rfl

theorem met_definitionAfter (header : Int) (s : ReadState) :
    (final (definitionAfter registry header s)).met = s.met := by
  cases found : s.cache.get? header with
  | none =>
    rw [definitionAfter_of_miss found, bind_apply, parsedAfter_apply]
    cases TypeDefinition.decodeAfter header s.reader <;> rfl
  | some p =>
    rw [definitionAfter_of_hit found, bind_apply]
    simp only [decode]
    cases TypeDefinition.skipAfter header s.reader <;> rfl

theorem blind_noted (consistent : Consistent met) (header : Int) :
    Blind registry met (fun _ => True) (note header >>= fun _ => definitionAfter registry header)
      (note header >>= fun _ => definitionAfter registry header) := by
  intro s
  have noted : ∀ s : ReadState, (note header >>= fun _ => definitionAfter registry header) s =
      definitionAfter registry header { s with met := s.met ++ [(header, s.reader)] } :=
    fun _ => rfl
  refine ⟨⟨?_, fun _ _ _ => trivial⟩, fun c₁ c₂ h₁ h₂ covered => ?_⟩
  · rw [noted, met_definitionAfter]
    exact List.subset_append_left ..
  · rw [noted, met_definitionAfter] at covered
    have shown : ∀ bytes r, TypeDefinition.layer header s.reader = .ok bytes r →
        Shows met header bytes :=
      fun bytes r h => ⟨(header, s.reader), covered (by simp), rfl, r, h⟩
    let next : ReadState := { s with met := s.met ++ [(header, s.reader)] }
    obtain ⟨d₁, k₁, eq₁⟩ := definitionAfter_apply (s := next) consistent shown h₁
    obtain ⟨d₂, k₂, eq₂⟩ := definitionAfter_apply (s := next) consistent shown h₂
    exact ⟨_, d₁, d₂, k₁, k₂, eq₁, eq₂⟩

theorem blind_received : Blind registry met (fun _ => True) received received :=
  fun s => ⟨⟨List.Subset.refl _, fun _ _ _ => trivial⟩,
    fun c₁ c₂ h₁ h₂ _ => ⟨.ok s.received s, c₁, c₂, h₁, h₂, rfl, rfl⟩⟩

theorem blind_receive (p : PeerStruct) : Blind registry met (fun _ => True) (receive p) (receive p) :=
  fun s => ⟨⟨List.Subset.refl _, fun _ _ _ => trivial⟩,
    fun c₁ c₂ h₁ h₂ _ => ⟨.ok () { s with received := s.received ++ [p] }, c₁, c₂, h₁, h₂, rfl, rfl⟩⟩

theorem blind_definition (consistent : Consistent met) :
    Blind registry met (fun _ => True) (definition registry) (definition registry) := by
  apply congruence_blind.then_ (local_decode _)
  intro marker
  apply congruence_blind.bind blind_received
  intro received _
  split
  · split
    · exact congruence_blind.pure trivial
    · exact congruence_blind.throw
  · split
    · exact congruence_blind.throw
    · apply congruence_blind.then_ (local_decode _)
      intro header
      rw [← bind_assoc]
      apply congruence_blind.bind (blind_noted consistent header)
      intro p _
      exact congruence_blind.bind (blind_receive p) fun _ _ => congruence_blind.pure trivial

theorem walk_blind (consistent : Consistent met) {env : Environment} (same : env.registry = registry) :
    Walk (fun {α} (Q : α → Prop) m₁ m₂ => Blind registry met Q m₁ m₂) env env (fun _ => True)
      fun _ => True :=
  { congruence_blind with
    registry := rfl
    registration := rfl
    limited := fun _ _ => congruence_blind.ofLocal (local_check _)
    registered := fun _ _ => trivial
    own := fun _ _ _ _ => trivial
    definition := same ▸ blind_definition consistent }

end Read

/-! ## Instances -/

namespace Instance

/-- The definitions that an instance meets in a frame. -/
def met (i : Instance) (bytes : List UInt8) : List (Int × Reader) :=
  match i.checkFault with
  | .error _ => []
  | .ok () => (Read.final (Read.frame i.environment i.rootMode (.ofBytes bytes i.cache))).met

/-- The instance after it was given frames, one after the other. -/
def after (i : Instance) : List (List UInt8) → Instance
  | [] => i
  | bytes :: rest => after (i.deserialize bytes).2 rest

/-- The definitions that an instance meets in frames, one after the other. -/
def metDuring (i : Instance) : List (List UInt8) → List (Int × Reader)
  | [] => []
  | bytes :: rest => i.met bytes ++ metDuring (i.deserialize bytes).2 rest

theorem met_of_sane (i : Instance) (bytes : List UInt8) (sane : i.fault = none) :
    i.met bytes =
      (Read.final (Read.frame i.environment i.rootMode (.ofBytes bytes i.cache))).met := by
  have checked : i.checkFault = .ok () := by simp only [checkFault, sane]
  unfold met
  rw [checked]

variable {met : List (Int × Reader)} {i : Instance}

theorem blind_frame (consistent : Consistent met) (i : Instance) :
    Read.Blind i.registry met (fun _ => True) (Read.frame i.environment i.rootMode)
      (Read.frame i.environment i.rootMode) := by
  have walk := Read.walk_blind consistent (rfl : i.environment.registry = i.registry)
  exact walk.frame_of_depth (walk.relatedFields_self rfl) rfl i.rootMode

/-- A frame leaves nothing in the cache but what its definitions say. -/
theorem comesFrom_deserialize (consistent : Consistent met) {bytes : List UInt8}
    (sound : i.cache.ComesFrom i.registry met) (covered : i.met bytes ⊆ met) :
    (i.deserialize bytes).2.cache.ComesFrom i.registry met := by
  cases fault : i.fault with
  | some e =>
    rw [i.deserialize_of_fault bytes fault]
    exact sound
  | none =>
    rw [i.met_of_sane bytes fault] at covered
    obtain ⟨result, c, -, kept, -, run, -⟩ :=
      (blind_frame consistent i (.ofBytes bytes i.cache)).2 i.cache i.cache sound sound covered
    rw [i.deserialize_of_sane bytes fault]
    have run : Read.frame i.environment i.rootMode (.ofBytes bytes i.cache) =
      Read.keeping c result := run
    rw [run]
    cases result <;> exact kept

/-- Two instances that differ in the cache alone read a frame in the same way. -/
theorem deserialize_with_cache (consistent : Consistent met) {bytes : List UInt8}
    (sound : i.cache.ComesFrom i.registry met) (covered : i.met bytes ⊆ met) {j : Instance}
    (differ : j = { i with cache := j.cache }) (other : j.cache.ComesFrom i.registry met) :
    (j.deserialize bytes).1 = (i.deserialize bytes).1 := by
  have faults : j.fault = i.fault := by rw [differ]
  cases fault : i.fault with
  | some e =>
    rw [deserialize_of_fault i bytes fault, deserialize_of_fault j bytes (faults.trans fault)]
  | none =>
    have environments : j.environment = i.environment := by rw [differ]; rfl
    have modes : j.rootMode = i.rootMode := by rw [differ]; rfl
    rw [i.met_of_sane bytes fault] at covered
    obtain ⟨result, c₁, c₂, -, -, run₁, run₂⟩ :=
      (blind_frame consistent i (.ofBytes bytes i.cache)).2 j.cache i.cache other sound covered
    have run₁ : Read.frame i.environment i.rootMode (.ofBytes bytes j.cache) =
      Read.keeping c₁ result := run₁
    have run₂ : Read.frame i.environment i.rootMode (.ofBytes bytes i.cache) =
      Read.keeping c₂ result := run₂
    rw [deserialize_of_sane i bytes fault, deserialize_of_sane j bytes (faults.trans fault),
      environments, modes, run₁, run₂]
    cases result <;> rfl

theorem after_of_comesFrom (consistent : Consistent met) (history : List (List UInt8)) :
    ∀ i : Instance, i.cache.ComesFrom i.registry met → i.metDuring history ⊆ met →
      ∃ c, c.ComesFrom i.registry met ∧ i.after history = { i with cache := c } := by
  induction history with
  | nil => exact fun i sound _ => ⟨i.cache, sound, rfl⟩
  | cons bytes rest ih =>
    intro i sound covered
    obtain ⟨here, later⟩ := List.append_subset.1 covered
    have kept := comesFrom_deserialize consistent sound here
    obtain ⟨c, same⟩ := i.deserialize_instance bytes
    rw [same] at kept later
    obtain ⟨c', sound', eq⟩ := ih _ kept later
    exact ⟨c', sound', by rw [after, same, eq]⟩

/-- The frames that an instance was given before do not change what it reads, as long as no two
definitions that it meets in them, or would meet in the new frame if it was fresh, have one header
and different layers. -/
theorem deserialize_after_history (i : Instance) (unused : i.cache = .empty)
    (history : List (List UInt8)) (bytes : List UInt8)
    (consistent : Consistent (i.metDuring history ++ i.met bytes)) :
    ((i.after history).deserialize bytes).1 = (i.deserialize bytes).1 := by
  have sound : i.cache.ComesFrom i.registry (i.metDuring history ++ i.met bytes) := by
    rw [unused]
    exact fun _ h => absurd h List.not_mem_nil
  obtain ⟨c, other, same⟩ := after_of_comesFrom consistent history i sound
    (List.subset_append_left ..)
  refine deserialize_with_cache consistent sound (List.subset_append_right ..) ?_ ?_
  · rw [same]
  · rw [same]
    exact other

/-- A frame with a record without fields, and the definition of its type under a header that says
nothing but its size. -/
def definitionFrame (id : UInt8) : List UInt8 :=
  Encode.head false ++ [0xff, 28, 0, 2, 0, 0, 0, 0, 0, 0, 0, 0, id]

theorem deserialize_again :
    (fresh.setRequireRegistration false).cache = .empty ∧
      (((fresh.setRequireRegistration false).after [definitionFrame 5]).deserialize
          (definitionFrame 5)).1 =
        ((fresh.setRequireRegistration false).deserialize (definitionFrame 5)).1 := by
  have met : (fresh.setRequireRegistration false).metDuring [definitionFrame 5] ++
      (fresh.setRequireRegistration false).met (definitionFrame 5) =
      [(2, ⟨14, [0, 5]⟩), (2, ⟨14, [0, 5]⟩)] := by decide +kernel
  refine ⟨rfl, deserialize_after_history _ rfl _ _ (consistent_of_forall_eq (y := (2, ⟨14, [0, 5]⟩)) ?_)⟩
  rw [met]
  simp

/-- A definition that was read before stands in for another one with its header: the record of one
type is read as a record of the other. -/
theorem deserialize_not_independent :
    (((fresh.setRequireRegistration false).after [definitionFrame 5]).deserialize
        (definitionFrame 6)).1 ≠
      ((fresh.setRequireRegistration false).deserialize (definitionFrame 6)).1 := by
  have used : ((((fresh.setRequireRegistration false).after [definitionFrame 5]).deserialize
      (definitionFrame 6)).1.toOption.bind fun p => p.2.asRecord? p.1) =
      some (.ofType "type#5") := by decide +kernel
  have first : (((fresh.setRequireRegistration false).deserialize
      (definitionFrame 6)).1.toOption.bind fun p => p.2.asRecord? p.1) =
      some (.ofType "type#6") := by decide +kernel
  intro same
  rw [same, first] at used
  exact absurd used (by decide)

end Instance

end Graphwire
