import Graphwire.Proofs.Lockstep

/-!
# Runs of one reader

What a successful step of reading ensures, put together from what its parts ensure. Types in front of
values touch nothing but the definitions that the reader knows, and these come from the input in one
way only: so a property of all definitions that a registry makes holds of every definition read.
-/

namespace Graphwire

set_option autoImplicit false

/-! ## Successful steps -/

namespace Read

variable {α β : Type} {s : ReadState} {Q : α → ReadState → Prop} {R : β → ReadState → Prop}

/-- What holds of the result of a step and of the reader after it, if the step succeeds. -/
def Ensures (m : Read α) (s : ReadState) (Q : α → ReadState → Prop) : Prop :=
  ∀ a t, m s = .ok a t → Q a t

theorem Ensures.pure {a : α} (h : Q a s) : Ensures (pure a) s Q := by
  intro b t run
  cases run
  exact h

theorem Ensures.throw (e : Error) : Ensures (throw e) s Q := fun _ _ run => by cases run

theorem Ensures.bind {m : Read α} {f : α → Read β} (hm : Ensures m s Q)
    (hf : ∀ a t, Q a t → Ensures (f a) t R) : Ensures (m >>= f) s R := by
  intro b t run
  rw [bind_apply] at run
  cases first : m s with
  | ok a s' =>
    rw [first] at run
    exact hf a s' (hm a s' first) b t run
  | error e s' =>
    rw [first] at run
    cases run

/-- What the last step ensures wherever it starts. -/
theorem Ensures.last {m : Read α} {f : α → Read β} (hf : ∀ a t, Ensures (f a) t R) :
    Ensures (m >>= f) s R :=
  Ensures.bind (Q := fun _ _ => True) (fun _ _ _ => trivial) fun a t _ => hf a t

theorem Ensures.mono {m : Read α} {Q' : α → ReadState → Prop} (h : Ensures m s Q)
    (weaker : ∀ a t, Q a t → Q' a t) : Ensures m s Q' :=
  fun a t run => weaker a t (h a t run)

theorem Ensures.decode {d : Decode α}
    (h : ∀ a r, d s.reader = .ok a r → Q a { s with reader := r }) : Ensures (decode d) s Q := by
  intro a t run
  unfold Read.decode at run
  cases first : d s.reader with
  | ok b r =>
    rw [first] at run
    cases run
    exact h _ r first
  | error e r =>
    rw [first] at run
    cases run

theorem Ensures.check {x : Except Error α} (h : ∀ a, x = .ok a → Q a s) :
    Ensures (check x) s Q := by
  cases x with
  | ok a => exact Ensures.pure (h a rfl)
  | error e => exact Ensures.throw e

theorem Ensures.get {Q : ReadState → ReadState → Prop} (h : Q s s) : Ensures get s Q := by
  intro a t run
  cases run
  exact h

theorem Ensures.modify {f : ReadState → ReadState} {Q : Unit → ReadState → Prop}
    (h : Q () (f s)) : Ensures (modify f) s Q := by
  intro a t run
  cases run
  exact h

/-- Reading a container is reading its elements or its entries. -/
theorem container_cases {P : Read Value → Prop} {env : Environment} {inner : ReadPayload} {t : TypeId}
    {shape : Shape} {slot : Option Nat} (isContainer : t.isContainer = true)
    (list : t = .list → P (items env inner .list shape slot))
    (set : t = .set → P (items env inner .set shape slot))
    (map : t = .map → P (entries env inner shape slot)) : P (container env inner t shape slot) := by
  unfold container
  by_cases isMap : t = .map
  · rw [if_pos isMap]
    exact map isMap
  · rw [if_neg isMap]
    by_cases isSet : t = .set
    · rw [if_pos isSet]
      exact set isSet
    · rw [if_neg isSet]
      exact list (by simpa [TypeId.isContainer, isMap, isSet] using isContainer)

/-- A frame holds a null or a value; its head and its end change nothing but the position. -/
theorem ensures_frame {env : Environment} {mode : RefMode} {Q : Value → ReadState → Prop}
    (null : ∀ reader, Q .null { s with reader })
    (value : ∀ reader, Ensures (value env mode true .dynamic) { s with reader } Q) :
    Ensures (frame env mode) s Q := by
  have ended (v : Value) (t : ReadState) (holds : Q v t) : Ensures
      (do
        let remaining := (← get).reader.remaining
        if remaining ≠ 0 then throw (.trailingBytes remaining)
        return v) t Q := by
    refine Ensures.bind (Q := fun _ t' => t' = t) (.get rfl) ?_
    rintro state _ rfl
    dsimp only
    split
    · exact Ensures.bind (Q := fun _ _ => False) (.throw _) fun _ _ never => never.elim
    · exact .pure holds
  unfold frame
  refine Ensures.bind (Q := fun _ t => ∃ reader, t = { s with reader })
    (.decode fun _ reader _ => ⟨reader, rfl⟩) ?_
  rintro isNull _ ⟨reader, rfl⟩
  cases isNull with
  | true => exact ended .null _ (null reader)
  | false => exact (value reader).bind ended

end Read

/-! ## Types in front of values -/

/-- Whether all definitions at hand have a property. -/
structure ReadState.Knows (known : PeerStruct → Prop) (s : ReadState) : Prop where
  received : ∀ p ∈ s.received, known p
  cache : ∀ e ∈ s.cache.entries, known e.2

/-- Whether a state holds the values of an earlier one, and all definitions at hand have a
property. -/
structure ReadState.Looked (known : PeerStruct → Prop) (s t : ReadState) : Prop
    extends t.Knows known where
  graph : t.graph = s.graph
  slots : t.slots = s.slots
  filled : t.filled = s.filled
  nulls : t.nulls = s.nulls

theorem ReadState.Looked.refl {known : PeerStruct → Prop} {s : ReadState} (h : s.Knows known) :
    s.Looked known s := ⟨h, rfl, rfl, rfl, rfl⟩

theorem ReadState.Looked.move {known : PeerStruct → Prop} {s t : ReadState} (h : s.Looked known t)
    (r : Reader) : s.Looked known { t with reader := r } :=
  ⟨⟨h.received, h.cache⟩, h.graph, h.slots, h.filled, h.nulls⟩

namespace Read

section

variable {α : Type} {known : PeerStruct → Prop} {r : Registry} {s t : ReadState}

theorem Ensures.looked {d : Decode α} (h : s.Looked known t) :
    Ensures (Read.decode d) t fun _ u => s.Looked known u :=
  Ensures.decode fun _ r _ => h.move r

theorem ensures_definitionAfter (made : ∀ header d, known (PeerStruct.ofDefinition r header d))
    (h : s.Looked known t) (header : Int) :
    Ensures (definitionAfter r header) t fun p u => known p ∧ s.Looked known u := by
  unfold definitionAfter
  refine (Ensures.get (Q := fun state u => state = t ∧ u = t) ⟨rfl, rfl⟩).bind fun state u same => ?_
  rw [same.1, same.2]
  cases found : t.cache.get? header with
  | some p =>
    have hp : known p := h.cache (header, p) (DefinitionCache.mem_of_get? found)
    dsimp only
    exact (Ensures.looked h).bind fun _ _ kept => Ensures.pure ⟨hp, kept⟩
  | none =>
    dsimp only
    refine (Ensures.looked h).bind fun d u kept => ?_
    refine (Ensures.modify (Q := fun _ u => s.Looked known u)
      ⟨⟨kept.received, fun e he => ?_⟩, kept.graph, kept.slots, kept.filled, kept.nulls⟩).bind
      fun _ _ kept => Ensures.pure ⟨made header d, kept⟩
    rcases DefinitionCache.mem_add he with rfl | he
    · exact made header d
    · exact kept.cache e he

theorem ensures_definition (made : ∀ header d, known (PeerStruct.ofDefinition r header d))
    (h : s.Looked known t) :
    Ensures (definition r) t fun p u => known p ∧ s.Looked known u := by
  unfold definition
  refine (Ensures.looked h).bind fun marker t kept => ?_
  refine Ensures.bind (Q := fun l u => (∀ p ∈ l, known p) ∧ s.Looked known u) ?_ fun l t after => ?_
  · exact fun l u run => by cases run; exact ⟨kept.received, kept⟩
  obtain ⟨hl, kept⟩ := after
  split
  · split
    · rename_i p found
      exact Ensures.pure ⟨hl p (List.mem_of_getElem? found), kept⟩
    · exact Ensures.throw _
  · split
    · exact Ensures.throw _
    · refine (Ensures.looked kept).bind fun header t kept => ?_
      refine (Ensures.modify (Q := fun _ u => s.Looked known u)
        ⟨⟨kept.received, kept.cache⟩, kept.graph, kept.slots, kept.filled, kept.nulls⟩).bind
          fun _ t kept => ?_
      refine (ensures_definitionAfter made kept header).bind fun p u after => ?_
      obtain ⟨hp, kept⟩ := after
      refine (Ensures.modify (Q := fun _ u => s.Looked known u)
        ⟨⟨fun q hq => ?_, kept.cache⟩, kept.graph, kept.slots, kept.filled, kept.nulls⟩).bind
        fun _ _ kept => Ensures.pure ⟨hp, kept⟩
      rcases List.mem_append.1 hq with hq | hq
      · exact kept.received q hq
      · rw [List.mem_singleton.1 hq]
        exact hp

end

section

variable {known : PeerStruct → Prop} {env : Environment} {s t : ReadState}

theorem ensures_text (limits : SizeLimits) (h : s.Looked known t) :
    Ensures (text limits) t fun _ u => s.Looked known u :=
  (Ensures.looked h).bind fun _ _ kept =>
    (Ensures.check (Q := fun _ u => s.Looked known u) fun _ _ => kept).bind fun _ _ kept =>
      Ensures.looked kept

theorem ensures_referred {named : Option NamedType} {name : String} {lenient : Bool}
    (kind : TypeId) (found : ∀ s, named = some (.struct s) → env.registry.HasStruct s)
    (h : s.Looked known t) :
    Ensures (do check (checkKind kind (← check (referredType named name lenient)))) t
      fun wire u => wire.Admits env.registry.HasStruct known ∧ s.Looked known u := by
  refine (Ensures.check (Q := fun wire u => wire.Admits env.registry.HasStruct known ∧
    s.Looked known u) fun wire ok => ⟨Walk.admits_referredType found ok, h⟩).bind
    fun wire u after => Ensures.check fun wire' ok => ?_
  have same : wire' = wire := by
    unfold checkKind at ok
    split at ok <;> first | (split at ok <;> cases ok <;> rfl) | (cases ok; rfl)
  exact same ▸ after

/-- The type in front of a value is known, and reading it changes no value. -/
theorem ensures_typeInfo
    (made : ∀ header d, known (PeerStruct.ofDefinition env.registry header d))
    (h : s.Looked known t) :
    Ensures (typeInfo env) t fun wire u =>
      wire.Admits env.registry.HasStruct known ∧ s.Looked known u := by
  refine (Ensures.looked h).bind fun kind t kept => ?_
  dsimp only
  split
  · exact (Ensures.looked kept).bind fun id t kept =>
      ensures_referred _ (fun s hs => Registry.hasStruct_of_byId? hs) kept
  · split
    · exact (ensures_text _ kept).bind fun package t kept =>
        (ensures_text _ kept).bind fun typeName t kept =>
          ensures_referred _ (fun s hs => Registry.hasStruct_of_named? hs) kept
    · split
      · refine (ensures_definition made kept).bind fun p t after => ?_
        split
        · exact (Ensures.throw (Q := fun _ _ => False) _).bind fun _ _ never => never.elim
        · exact Ensures.pure after
      · split
        · exact Ensures.pure ⟨trivial, kept⟩
        · exact Ensures.throw _

/-- The payload of a value is read with a known wire type, announced or declared. -/
theorem ensures_typed {inner : ReadPayload} {typed : Bool} {shape : Shape} {slot : Option Nat}
    {Q : Value → ReadState → Prop}
    (made : ∀ header d, known (PeerStruct.ofDefinition env.registry header d))
    (h : s.Knows known)
    (payload : ∀ wire t, wire.Admits env.registry.HasStruct known → s.Looked known t →
      Ensures (inner wire shape slot) t Q) :
    Ensures (Read.typed env inner typed shape slot) s Q := by
  unfold Read.typed
  cases typed with
  | true =>
    exact (ensures_typeInfo made (.refl h)).bind fun wire t after => payload wire t after.1 after.2
  | false =>
    refine (Ensures.check (Q := fun wire t => wire.Admits env.registry.HasStruct known ∧
      s.Looked known t) fun wire ok => ?_).bind fun wire t after => payload wire t after.1 after.2
    exact ⟨Environment.admits_declaredType (fun _ has => has) ok, .refl h⟩

end

end Read

end Graphwire
