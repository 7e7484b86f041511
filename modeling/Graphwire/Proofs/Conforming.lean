import Graphwire.Proofs.Accepting
import Graphwire.Proofs.RoundTrip

/-!
# Trees that fit the types

A tree conforms to the registered types at its place if records are complete and hold declared fields
only, values fit the shapes that stand for their types, and all that is told of a type leads to it
again. In strict mode and without references, a tree that conforms is written, as far as the levels
suffice, and comes back as it is.
-/

namespace Graphwire

set_option autoImplicit false

/-! ## Types of trees -/

theorem TypeId.nodeKind?_eq_some {t : TypeId} {kind : NodeKind} (h : t.nodeKind? = some kind) :
    t = .list ∧ kind = .list ∨ t = .set ∧ kind = .set ∨ t = .map ∧ kind = .map := by
  unfold nodeKind? at h
  split at h
  · cases h
    exact .inl ⟨‹_›, rfl⟩
  · split at h
    · cases h
      exact .inr (.inl ⟨‹_›, rfl⟩)
    · split at h
      · cases h
        exact .inr (.inr ⟨‹_›, rfl⟩)
      · cases h

namespace Tree

/-- The kind of a tree's node. -/
def kind? : Tree → Option NodeKind
  | leaf _ => none
  | list _ => some .list
  | set _ => some .set
  | map _ => some .map
  | record typeName _ => some (.record typeName)

/-- Whether a tree has at most the given number of levels of nodes. -/
inductive Levels : Nat → Tree → Prop where
  | leaf {n : Nat} {v : Value} : Levels n (.leaf v)
  | list {n : Nat} {elements : List Tree} (parts : ∀ t ∈ elements, Levels n t) :
      Levels (n + 1) (.list elements)
  | set {n : Nat} {elements : List Tree} (parts : ∀ t ∈ elements, Levels n t) :
      Levels (n + 1) (.set elements)
  | map {n : Nat} {entries : List (Tree × Tree)} (keys : ∀ e ∈ entries, Levels n e.1)
      (values : ∀ e ∈ entries, Levels n e.2) : Levels (n + 1) (.map entries)
  | record {n : Nat} {typeName : String} {fields : List (String × Tree)}
      (parts : ∀ e ∈ fields, Levels n e.2) : Levels (n + 1) (.record typeName fields)

end Tree

/-- Whether a tree is one of a wire type. -/
def WireType.Describes (wire : WireType) (t : Tree) : Prop :=
  match wire with
  | .builtin type => (∃ b v, type.builtin? = some b ∧ t = .leaf v ∧ b.Holds v) ∨
      ∃ kind, type.nodeKind? = some kind ∧ t.kind? = some kind
  | .struct s _ => t.kind? = some (.record s.qualifiedName)
  | .peer _ => False
  | .enum typeName members => ∃ ordinal, t = .leaf (.enum typeName ordinal) ∧
      members.all (ordinal < ·) = true

/-- Whether a tree is one of the shape that stands for its type at a place, if it has to. -/
def Environment.Fits (env : Environment) (p : Place) (t : Tree) : Prop :=
  t.isNull = false → p.typed = false →
    ∃ wire, env.declaredType p.shape = .ok wire ∧ wire.Describes t

section

variable {env : Environment} {g : Graph} {v : Value} {t : Tree}

theorem Graph.Unfolds.kind (h : g.Unfolds v t) :
    t.kind? = v.handle?.map fun h => (g.node h).kind := by
  cases h with
  | leaf scalar => rw [scalar]; rfl
  | list node | set node | map node | record node => simp [Tree.kind?, Value.handle?, node, Node.kind]

/-- A value of a wire type unfolds to a tree of the type. -/
theorem WireType.Holds.describes {wire : WireType} (h : wire.Holds g v) (unfolds : g.Unfolds v t) :
    wire.Describes t := by
  have kind := unfolds.kind
  cases wire with
  | builtin type =>
    rcases h with ⟨b, ht, holds⟩ | ⟨k, rfl, same⟩
    · refine .inl ⟨b, v, ht, ?_, holds⟩
      cases unfolds with
      | leaf => rfl
      | _ => cases holds
    · exact .inr ⟨_, same, kind⟩
  | struct s strict =>
    obtain ⟨k, rfl, same⟩ := h
    exact kind.trans (congrArg some same)
  | peer p => exact h.elim
  | «enum» typeName members =>
    obtain ⟨ordinal, rfl, member⟩ := h
    refine ⟨ordinal, ?_, member⟩
    cases unfolds
    rfl

theorem Environment.Suits.fits {p : Place}
    (h : v.isNull = false → p.typed = false → env.Suits g p.shape v) (unfolds : g.Unfolds v t) :
    env.Fits p t := by
  intro present untyped
  obtain ⟨wire, declared, holds⟩ := h (unfolds.isNull ▸ present) untyped
  exact ⟨wire, declared, holds.describes unfolds⟩

end

/-! ## Conforming trees -/

/-- Whether a scalar is told exactly, and leads to its type again if it is a member of an
enumeration. -/
structure Value.Conforms (env : Environment) (p : Place) (v : Value) : Prop where
  exact : v.Exact
  short : v.Short
  admitted : v.Admitted env.config.limits
  member : ∀ name ordinal e, v = .enum name ordinal → env.registry.enum? name = some e →
    ordinal < e.members.length
  registered : env.config.requireRegistration = true → ∀ name ordinal, v = .enum name ordinal →
    ∃ e, env.registry.enum? name = some e
  told : p.typed = true → ∀ name ordinal, v = .enum name ordinal → env.telling.enum name

/-- Whether a tree conforms to the registered types at its place. -/
inductive Tree.Conforms (env : Environment) : Place → Tree → Prop where
  | leaf {p : Place} {v : Value} (fits : env.Fits p (.leaf v)) (value : v.Conforms env p) :
      Conforms env p (.leaf v)
  | list {p : Place} {elements : List Tree} (fits : env.Fits p (.list elements))
      (count : elements.length < 2 ^ 32)
      (admitted : env.config.limits.Admits .collection elements.length)
      (parts : ∀ t ∈ elements, Conforms env (env.elementPlace p.shape.parts.1) t) :
      Conforms env p (.list elements)
  | set {p : Place} {elements : List Tree} (fits : env.Fits p (.set elements))
      (count : elements.length < 2 ^ 32)
      (admitted : env.config.limits.Admits .collection elements.length)
      (parts : ∀ t ∈ elements, Conforms env (env.elementPlace p.shape.parts.1) t) :
      Conforms env p (.set elements)
  | map {p : Place} {entries : List (Tree × Tree)} (fits : env.Fits p (.map entries))
      (count : entries.length < 2 ^ 32)
      (admitted : env.config.limits.Admits .map entries.length)
      (keys : ∀ e ∈ entries, Conforms env (env.elementPlace p.shape.parts.1) e.1)
      (values : ∀ e ∈ entries, Conforms env (env.elementPlace p.shape.parts.2) e.2) :
      Conforms env p (.map entries)
  | record {p : Place} {typeName : String} {fields : List (String × Tree)} {s : StructType}
      (fits : env.Fits p (.record typeName fields))
      (found : env.registry.struct? typeName = some s)
      (told : p.typed = true → env.telling.record typeName)
      (declared : ∀ e ∈ fields, e.2.isNull = false ∧
        (env.registry.field? typeName e.1).isSome = true)
      (present : ∀ f ∈ s.fields, f.nullable = false → (fields.lookup f.name).isSome = true)
      (parts : ∀ e ∈ fields, ∀ f, env.registry.field? typeName e.1 = some f →
        Conforms env (env.fieldPlace f) e.2) :
      Conforms env p (.record typeName fields)

namespace Tree.Conforms

variable {env : Environment} {p : Place} {t : Tree} (strict : env.Strict)

theorem fits (h : t.Conforms env p) : env.Fits p t := by cases h <;> assumption

theorem null : (Tree.leaf .null).Conforms env p :=
  .leaf (fun present => by cases present)
    { exact := trivial
      short := trivial
      admitted := trivial
      member := fun _ _ _ same => by cases same
      registered := fun _ _ _ same => by cases same
      told := fun _ _ _ same => by cases same }

include strict

/-- The name of an enumeration that stands for its type is the declared one. -/
theorem told {v : Value} (fits : env.Fits p (.leaf v)) (value : v.Conforms env p) :
    v.Told env.registry env.telling p := by
  refine ⟨fun untyped name ordinal same d e shape found => ?_, value.told⟩
  subst same
  obtain ⟨wire, declared, describes⟩ := fits rfl untyped
  rw [shape, Environment.declaredType, strict.sound.named?_of_enum? found] at declared
  cases declared
  obtain ⟨_, same, -⟩ := describes
  injection same with same
  injection same with same
  rw [same, (strict.sound.enumName found).qualifiedName]

theorem travels (h : t.Conforms env p) : t.Travels env env.telling p := by
  induction h with
  | leaf fits value => exact .leaf value.short value.admitted (told strict fits value)
  | list _ count admitted _ ih => exact .list count admitted ih
  | set _ count admitted _ ih => exact .set count admitted ih
  | map _ count admitted _ _ keys values => exact .map count admitted keys values
  | record _ _ told _ _ _ ih => exact .record told ih

omit strict in
/-- A value of a type is written as the type without change. -/
theorem restoredAs_of_holds {type : TypeId} {b : Builtin} {v : Value} (ht : type.builtin? = some b)
    (holds : b.Holds v) (exact : v.Exact) : v.restoredAs type = v := by
  cases holds with
  | int n layout =>
    have same : Value.ofInt? type n.val = some (.int n) :=
      Value.ofInt?_eq_some_iff.2 ⟨n, layout, ht, rfl, rfl⟩
    rw [Value.restoredAs, same]
    rfl
  | float32 bits => simp [Value.restoredAs, ht]
  | timestamp instant => exact congrArg Value.timestamp exact
  | _ => rfl

omit strict in
theorem restored_value {v : Value} (fits : env.Fits p (.leaf v)) (value : v.Conforms env p) :
    v.restored p = v := by
  have cut : v.cut = v := by
    cases v with
    | timestamp instant => exact congrArg Value.timestamp value.exact
    | _ => rfl
  obtain ⟨typed, shape⟩ := p
  unfold Value.restored
  split
  · rename_i type same
    cases same
    cases null : v.isNull with
    | true =>
      cases v <;> first | rfl | cases null
    | false =>
      obtain ⟨wire, declared, describes⟩ := fits null rfl
      cases declared
      rcases describes with ⟨b, v', ht, same, holds⟩ | ⟨kind, -, same⟩
      · injection same with same
        subst same
        exact restoredAs_of_holds ht holds value.exact
      · cases same
  · exact cut

/-- A tree that conforms comes back as it is. -/
theorem restored (h : t.Conforms env p) : t.restored env.registry p = t := by
  have whole : ∀ {α : Type} {f : α → α} {l : List α}, (∀ a ∈ l, f a = a) → l.map f = l :=
    fun same => (List.map_congr_left same).trans (List.map_id _)
  induction h with
  | leaf fits value => rw [Tree.restored, restored_value fits value]
  | list _ _ _ _ ih =>
    rw [Tree.restored, ← strict.elementPlace]
    exact congrArg Tree.list (whole ih)
  | set _ _ _ _ ih =>
    rw [Tree.restored, ← strict.elementPlace]
    exact congrArg Tree.set (whole ih)
  | map _ _ _ _ _ keys values =>
    rw [Tree.restored, ← strict.elementPlace, ← strict.elementPlace]
    exact congrArg Tree.map (whole fun e member => Prod.ext (keys e member) (values e member))
  | record _ _ _ declared _ _ ih =>
    rw [Tree.restored_record]
    refine congrArg (Tree.record _) (Eq.trans (List.filterMap_congr ?_) List.filterMap_some)
    intro e member
    obtain ⟨present, known⟩ := declared e member
    obtain ⟨f, found⟩ := Option.isSome_iff_exists.1 known
    have same := ih e member f found
    rw [strict.fieldPlace] at same
    simp [Tree.kept, present, found, same]

end Tree.Conforms

/-! ## Scalars that can be written -/

namespace Encode

open Calendar

/-- The calendar ends within the range of the bytes. -/
theorem day_ok (d : Day) : ∃ bytes, day d = .ok bytes := by
  have low : IntKind.int32.minValue ≤ minDay := by decide
  have high : maxDay ≤ IntKind.int32.maxValue := by decide
  have range := d.inRange
  exact ⟨_, if_pos ⟨by omega, by omega⟩⟩

theorem instant_ok (t : Instant) : ∃ bytes, instant t = .ok bytes := by
  have low : IntKind.int64.minValue * 1000 ≤ minDay * nanosPerDay := by decide
  have high : (maxDay + 1) * nanosPerDay ≤ IntKind.int64.maxValue * 1000 := by decide
  have range := t.cut.inRange
  have nanos : t.cut.nanos = t.micros * 1000 := rfl
  exact ⟨_, if_pos ⟨by omega, by omega⟩⟩

end Encode

/-- A value of a type can be written as the type. -/
theorem Graph.encodeScalar_ok {g : Graph} {type : TypeId} {b : Builtin} {v : Value}
    (ht : type.builtin? = some b) (holds : b.Holds v) :
    ∃ bytes, g.encodeScalar type v = .ok bytes := by
  have number : g.coerce type v = .ok v → (∃ bytes, Encode.scalar type v = .ok bytes) →
      ∃ bytes, (g.coerce type v >>= Encode.scalar type) = .ok bytes :=
    fun same ⟨bytes, h⟩ => ⟨bytes, bind_eq_ok_iff.2 ⟨v, same, h⟩⟩
  unfold Graph.encodeScalar
  cases holds with
  | bool b | float32 bits | float64 bits =>
    simp only [ht]
    exact number (by simp only [Graph.coerce, ht]) ⟨_, by simp only [Encode.scalar, ht]; rfl⟩
  | int n layout =>
    have same : Value.ofInt? type n.val = some (.int n) :=
      Value.ofInt?_eq_some_iff.2 ⟨n, layout, ht, rfl, rfl⟩
    simp only [ht]
    refine number ?_ ⟨_, by simp only [Encode.scalar, ht, if_true]; rfl⟩
    simp only [Graph.coerce, ht, Value.asInt?, same]
    rfl
  | date d => simpa only [ht] using Encode.day_ok d
  | timestamp t => simpa only [ht] using Encode.instant_ok t
  | _ => simp only [ht]; exact ⟨_, rfl⟩

/-- The type that is inferred for a value is one of its tree. -/
theorem Graph.Unfolds.inferType {g : Graph} {v : Value} {t : Tree} (h : g.Unfolds v t)
    (present : v.isNull = false) (noEnum : ∀ name ordinal, v ≠ .enum name ordinal)
    (noRecord : g.asRecord? v = none) :
    ∃ type, g.inferType? v = some type ∧ (WireType.builtin type).Describes t := by
  cases h with
  | leaf scalar =>
    cases v with
    | null => cases present
    | «enum» name ordinal => exact absurd rfl (noEnum name ordinal)
    | handle h => cases scalar
    | int n =>
      refine ⟨_, rfl, .inl ?_⟩
      rcases n with ⟨kind, val, range⟩
      cases kind <;> exact ⟨_, _, rfl, rfl, .int ⟨_, val, range⟩ _⟩
    | bool b => exact ⟨_, rfl, .inl ⟨_, _, rfl, rfl, .bool b⟩⟩
    | float32 bits => exact ⟨_, rfl, .inl ⟨_, _, rfl, rfl, .float32 bits⟩⟩
    | float64 bits => exact ⟨_, rfl, .inl ⟨_, _, rfl, rfl, .float64 bits⟩⟩
    | string s => exact ⟨_, rfl, .inl ⟨_, _, rfl, rfl, .string s⟩⟩
    | binary bytes => exact ⟨_, rfl, .inl ⟨_, _, rfl, rfl, .binary bytes⟩⟩
    | date d => exact ⟨_, rfl, .inl ⟨_, _, rfl, rfl, .date d⟩⟩
    | timestamp t => exact ⟨_, rfl, .inl ⟨_, _, rfl, rfl, .timestamp t⟩⟩
    | duration d => exact ⟨_, rfl, .inl ⟨_, _, rfl, rfl, .duration d⟩⟩
  | list node => exact ⟨.list, by simp only [Graph.inferType?, node], .inr ⟨.list, rfl, rfl⟩⟩
  | set node => exact ⟨.set, by simp only [Graph.inferType?, node], .inr ⟨.set, rfl, rfl⟩⟩
  | map node => exact ⟨.map, by simp only [Graph.inferType?, node], .inr ⟨.map, rfl, rfl⟩⟩
  | record node => simp [Graph.asRecord?, Graph.nodeOf?, Value.handle?, node] at noRecord

/-! ## Writers that succeed -/

namespace Write

variable {α β : Type} {Q : α → Prop} {R : β → Prop}

/-- Whether a step of writing succeeds, with a result of a property. -/
def Works (m : Write α) (Q : α → Prop) : Prop := ∀ ws, ∃ a ws', m ws = .ok (a, ws') ∧ Q a

theorem Works.pure {a : α} (h : Q a) : Works (pure a) Q := fun ws => ⟨a, ws, rfl, h⟩

theorem Works.bind {m : Write α} {f : α → Write β} (hm : Works m Q)
    (hf : ∀ a, Q a → Works (f a) R) : Works (m >>= f) R := by
  intro ws
  obtain ⟨a, ws', run, hq⟩ := hm ws
  obtain ⟨b, ws'', run', hr⟩ := hf a hq ws'
  exact ⟨b, ws'', bind_eq_ok_iff.2 ⟨a, ws', run, run'⟩, hr⟩

theorem Works.lift {x : Except Error α} (h : ∃ a, x = .ok a ∧ Q a) : Works (liftM x) Q := by
  obtain ⟨a, rfl, hq⟩ := h
  exact Works.pure hq

/-- Whether bytes are written. -/
abbrev Writes (m : Write (List UInt8)) : Prop := Works m fun _ => True

theorem Writes.concat {write : α → Write (List UInt8)} (items : List α)
    (h : ∀ a ∈ items, Writes (write a)) : Writes (concat write items) := by
  induction items with
  | nil => exact .pure trivial
  | cons a items ih =>
    exact (h a List.mem_cons_self).bind fun _ _ =>
      (ih fun b member => h b (List.mem_cons_of_mem _ member)).bind fun _ _ => .pure trivial

end Write

namespace Write

variable {env : Environment} {g : Graph} {p : Place} {v : Value} {t : Tree}
  (strict : env.Strict) (unfolds : g.Unfolds v t) (conforms : t.Conforms env p)
  (present : t.isNull = false)

include strict unfolds conforms present

/-- The type of a value that conforms can be told, and is one of its tree. -/
theorem works_typeInfo : Works (typeInfo env g v) fun i => i.2.Known env ∧ i.2.Describes t := by
  unfold typeInfo
  split
  · rename_i r isRecord
    obtain ⟨fields, rfl, -, -⟩ := unfolds.of_node (Graph.nodeOf?_of_asRecord? isRecord)
    cases conforms with
    | @record _ _ _ s _ found =>
      have built := strict.built.built found
      have describes : ∀ strictly, (WireType.struct s strictly).Describes (.record r.typeName fields) :=
        fun _ => congrArg (fun name => some (NodeKind.record name)) built.qualifiedName.symm
      have known : ∀ strictly, (WireType.struct s strictly).Known env :=
        fun _ => (congrArg env.registry.struct? built.qualifiedName).trans found
      refine Works.bind (Q := fun s' => s' = s) ?_ fun s' same => ?_
      · unfold recordType
        rw [found]
        exact .pure rfl
      · subst same
        cases ident : s'.id with
        | some id =>
          rw [if_pos (by rw [built.kind, ident]; rfl)]
          exact .pure ⟨known _, describes _⟩
        | none =>
          have kind : s'.kind = .namedStruct := by rw [built.kind, ident]; rfl
          rw [if_neg (by rw [kind]; decide), if_pos kind]
          exact .pure ⟨known _, describes _⟩
  · rename_i name ordinal _
    cases unfolds with
    | leaf =>
      cases conforms with
      | leaf fits value =>
        split
        · rename_i e found
          have declared := (strict.sound.enumName found).qualifiedName
          refine .pure ⟨fun _ => ⟨e, declared ▸ found, rfl⟩, ordinal, by rw [declared], ?_⟩
          simpa using value.member name ordinal e rfl found
        · rename_i unknown
          have free : ¬env.config.requireRegistration = true := fun required => by
            obtain ⟨e, found⟩ := value.registered required name ordinal rfl
            rw [unknown] at found
            cases found
          rw [if_neg free]
          exact .pure ⟨fun required => absurd required free, ordinal, rfl, rfl⟩
  · rename_i noEnum noRecord
    obtain ⟨type, inferred, describes⟩ := unfolds.inferType (unfolds.isNull ▸ present)
      noEnum noRecord
    rw [inferred]
    exact .pure ⟨trivial, describes⟩

end Write

/-- Whether a writer of payloads writes the trees that conform and have at most some levels. -/
def WritesTrees (env : Environment) (g : Graph) (levels : Nat) (payload : WritePayload) : Prop :=
  ∀ (p : Place) (v : Value) (t : Tree) (wire : WireType), g.Unfolds v t → t.Conforms env p →
    t.Levels levels → wire.Known env → wire.Describes t → Write.Writes (payload wire p.shape v)

namespace Write

variable {env : Environment} {g : Graph} {levels : Nat} {payload : WritePayload}
  (strict : env.Strict) (untracked : env.config.trackRef = false)
  (writes : WritesTrees env g levels payload)

include strict writes

theorem works_typed {p : Place} {v : Value} {t : Tree} (unfolds : g.Unfolds v t)
    (conforms : t.Conforms env p) (level : t.Levels levels) (present : v.isNull = false) :
    Writes (typed env g payload p.typed p.shape v) := by
  have present : t.isNull = false := unfolds.isNull.trans present
  unfold typed
  cases typed : p.typed with
  | true =>
    refine (works_typeInfo strict unfolds conforms present).bind fun i announced => ?_
    exact (writes p v t i.2 unfolds conforms level announced.1 announced.2).bind
      fun _ _ => .pure trivial
  | false =>
    obtain ⟨wire, declared, describes⟩ := conforms.fits present typed
    have known := strict.known_declaredType declared
    rw [declared]
    exact writes p v t wire unfolds conforms level known describes

/-- A value is written if a null has a marker. -/
theorem works_marked {mode : RefMode} (noRef : mode ≠ .tracking) {p : Place} {v : Value} {t : Tree}
    (null : v.isNull = true → mode ≠ .none) (unfolds : g.Unfolds v t)
    (conforms : t.Conforms env p) (level : t.Levels levels) :
    Writes (marked env g payload mode p.typed p.shape v) := by
  unfold marked
  cases mode with
  | tracking => exact absurd rfl noRef
  | nullOnly =>
    dsimp only
    split
    · exact .pure trivial
    · exact (works_typed strict writes unfolds conforms level (Bool.not_eq_true _ ▸ ‹_›)).bind
        fun _ _ => .pure trivial
  | none =>
    dsimp only
    split
    · exact absurd rfl (null ‹_›)
    · exact works_typed strict writes unfolds conforms level (Bool.not_eq_true _ ▸ ‹_›)

include untracked

/-- A container's header says whether a part is null. -/
theorem works_element {part : Option Shape} {vs : List Value} {v : Value} {t : Tree}
    (member : v ∈ vs) (unfolds : g.Unfolds v t) (conforms : t.Conforms env (env.elementPlace part))
    (level : t.Levels levels) :
    Writes (element env g payload (env.elementHeader part vs) part v) := by
  refine works_marked strict writes (Environment.refMode_ne untracked part vs) (fun null => ?_)
    unfolds conforms level
  have some : vs.any Value.isNull = true := List.any_eq_true.2 ⟨v, member, null⟩
  simp only [ElementHeader.refMode, Environment.elementHeader, untracked, some, Bool.false_and]
  decide

theorem works_items {shape : Shape} {vs : List Value} {ts : List Tree}
    (unfolds : List.Forall₂ g.Unfolds vs ts)
    (conforms : ∀ t ∈ ts, t.Conforms env (env.elementPlace shape.parts.1))
    (level : ∀ t ∈ ts, t.Levels levels) : Writes (items env g payload shape vs) := by
  unfold items
  dsimp only
  split
  · exact .pure trivial
  · refine Works.bind (Writes.concat _ fun v member => ?_) fun _ _ => .pure trivial
    obtain ⟨t, ht, unfolds⟩ := mem_of_forall₂ unfolds member
    exact works_element strict untracked writes member unfolds (conforms t ht) (level t ht)

theorem works_entries {shape : Shape} {pairs : List (Value × Value)} {ts : List (Tree × Tree)}
    (keys : List.Forall₂ g.Unfolds (pairs.map (·.1)) (ts.map (·.1)))
    (values : List.Forall₂ g.Unfolds (pairs.map (·.2)) (ts.map (·.2)))
    (conformingKeys : ∀ e ∈ ts, e.1.Conforms env (env.elementPlace shape.parts.1))
    (conformingValues : ∀ e ∈ ts, e.2.Conforms env (env.elementPlace shape.parts.2))
    (keyLevel : ∀ e ∈ ts, e.1.Levels levels) (valueLevel : ∀ e ∈ ts, e.2.Levels levels) :
    Writes (entries env g payload shape pairs) := by
  unfold entries
  dsimp only
  split
  · exact .pure trivial
  · refine Works.bind (Writes.concat _ fun pair member => ?_) fun _ _ => .pure trivial
    have key := List.mem_map_of_mem (f := Prod.fst) member
    have value := List.mem_map_of_mem (f := Prod.snd) member
    obtain ⟨_, hk, keyUnfolds⟩ := mem_of_forall₂ keys key
    obtain ⟨_, hv, valueUnfolds⟩ := mem_of_forall₂ values value
    obtain ⟨e, he, rfl⟩ := List.mem_map.1 hk
    obtain ⟨e', he', rfl⟩ := List.mem_map.1 hv
    exact (works_element strict untracked writes key keyUnfolds (conformingKeys e he)
      (keyLevel e he)).bind fun _ _ => (works_element strict untracked writes value valueUnfolds
        (conformingValues e' he') (valueLevel e' he')).bind fun _ _ => .pure trivial

theorem works_record {s : StructType} {r : Record} {fields : List (String × Tree)} {p : Place}
    (found : env.registry.struct? r.typeName = some s) (names : r.fields.names = fields.map (·.1))
    (values : List.Forall₂ g.Unfolds (r.fields.entries.map (·.2)) (fields.map (·.2)))
    (conforms : (Tree.record r.typeName fields).Conforms env p)
    (level : ∀ e ∈ fields, e.2.Levels levels) (strictly : Bool) :
    Writes (record env g payload s strictly r) := by
  have built := strict.built.built found
  unfold record Write.fields
  rw [strict.strategy]
  refine Works.bind (Writes.concat _ fun f member => ?_) fun _ _ => .pure trivial
  have plain : f.tracked = false := (untracked ▸ built.resolved f member).untracked
  have mode := Field.refMode_of_untracked plain
  have noRef := Field.refMode_ne_tracking plain
  have unfolds := Graph.unfolds_fieldOf names values f.name
  cases conforms with
  | @record _ _ _ s' _ found' _ declared complete parts =>
    cases found.symm.trans found'
    have set : Tree.fieldOf fields f.name = .leaf .null ∧ f.refMode ≠ .none ∨
        ∃ e ∈ fields, e.1 = f.name ∧ Tree.fieldOf fields f.name = e.2 ∧ e.2.isNull = false := by
      rw [Tree.fieldOf]
      cases set : fields.lookup f.name with
      | none =>
        refine .inl ⟨rfl, fun unmarked => ?_⟩
        cases nullable : f.nullable with
        | true =>
          rw [mode, nullable] at unmarked
          cases unmarked
        | false =>
          have absent := complete f member nullable
          rw [set] at absent
          cases absent
      | some t =>
        have member := mem_of_lookup set
        exact .inr ⟨_, member, rfl, rfl, (declared _ member).1⟩
    unfold field
    dsimp only
    have typed : f.hasTypeInfo s.isCompatible = (env.fieldPlace f).typed := by
      rw [built.kind_eq, Environment.fieldPlace, strict.compatible]
    rcases set with ⟨absent, marked⟩ | ⟨e, he, name, same, present⟩
    · rw [absent] at unfolds
      rw [if_neg (by simp [marked]), typed]
      exact works_marked strict writes noRef (fun _ => marked) unfolds .null .leaf
    · have known := Registry.field?_eq_some found built.names member
      rw [same] at unfolds
      have present : (r.value f.name).isNull = false := unfolds.isNull.symm.trans present
      rw [if_neg (by simp [present]), typed]
      exact works_marked strict writes noRef (fun null => by rw [present] at null; cases null)
        unfolds (parts e he f (name ▸ known)) (level e he)

end Write

namespace WritesTrees

open Write (Works Writes)

variable {env : Environment} {g : Graph} (strict : env.Strict)
  (untracked : env.config.trackRef = false)

include strict untracked

variable {levels : Nat} {inner : Option WritePayload}
  (deeper : ∀ n, levels = n + 1 → ∃ payload, inner = some payload ∧ WritesTrees env g n payload)
  {p : Place} {v : Value} {t : Tree} (unfolds : g.Unfolds v t) (conforms : t.Conforms env p)
  (level : t.Levels levels)

include deeper unfolds conforms level

theorem layer_container {type : TypeId} {kind : NodeKind} (same : type.nodeKind? = some kind)
    (found : t.kind? = some kind) : Writes (Write.container env g inner type p.shape v) := by
  have descend : ∀ {m : WritePayload → Write (List UInt8)} {n : Nat}, levels = n + 1 →
      (∀ payload, WritesTrees env g n payload → Writes (m payload)) →
      Writes (do m (← (env.descend inner : Except Error WritePayload))) := by
    intro m n same h
    obtain ⟨payload, rfl, writes⟩ := deeper n same
    exact h payload writes
  unfold Write.container
  rcases TypeId.nodeKind?_eq_some same with ⟨rfl, rfl⟩ | ⟨rfl, rfl⟩ | ⟨rfl, rfl⟩
  · cases unfolds with
    | list node elements =>
      cases level with
      | list level =>
        cases conforms with
        | list _ _ _ parts =>
          rw [show g.nodeOf? (.handle _) = some _ from congrArg some node]
          exact descend rfl fun payload writes =>
            Write.works_items strict untracked writes elements parts level
    | _ => cases found
  · cases unfolds with
    | set node elements =>
      cases level with
      | set level =>
        cases conforms with
        | set _ _ _ parts =>
          rw [show g.nodeOf? (.handle _) = some _ from congrArg some node]
          exact descend rfl fun payload writes =>
            Write.works_items strict untracked writes elements parts level
    | _ => cases found
  · cases unfolds with
    | map node keys values =>
      cases level with
      | map keyLevel valueLevel =>
        cases conforms with
        | map _ _ _ conformingKeys conformingValues =>
          rw [show g.nodeOf? (.handle _) = some _ from congrArg some node]
          exact descend rfl fun payload writes =>
            Write.works_entries strict untracked writes keys values conformingKeys conformingValues
              keyLevel valueLevel
    | _ => cases found

theorem layer_record {s : StructType} (known : env.registry.struct? s.qualifiedName = some s)
    (describes : t.kind? = some (.record s.qualifiedName)) (strictly : Bool) :
    Writes (Write.layer env g inner (.struct s strictly) p.shape v) := by
  cases unfolds with
  | @record h r fields node names values =>
    have isRecord : g.asRecord? (.handle h) = some r := by
      simp [Graph.asRecord?, Graph.nodeOf?, Value.handle?, node]
    have named : r.typeName = s.qualifiedName := by
      injection describes with same
      injection same
    cases level with
    | record level =>
      obtain ⟨payload, rfl, writes⟩ := deeper _ rfl
      simp only [Write.layer, isRecord, named, ne_eq, not_true_eq_false, if_false]
      exact Write.works_record strict untracked writes (named ▸ known) names values conforms level
        strictly
  | _ => cases describes

omit deeper unfolds conforms level in
theorem layer (deeper : ∀ n, levels = n + 1 →
      ∃ payload, inner = some payload ∧ WritesTrees env g n payload) :
    WritesTrees env g levels (Write.layer env g inner) := by
  intro p v t wire unfolds conforms level known describes
  cases wire with
  | builtin type =>
    simp only [Write.layer]
    rcases describes with ⟨b, v', ht, rfl, holds⟩ | ⟨kind, same, found⟩
    · rw [isContainer_of_builtin? ht]
      cases unfolds
      obtain ⟨bytes, written⟩ := Graph.encodeScalar_ok (g := g) ht holds
      exact .lift ⟨bytes, written, trivial⟩
    · have container : type.isContainer = true := by
        rcases TypeId.nodeKind?_eq_some same with ⟨rfl, -⟩ | ⟨rfl, -⟩ | ⟨rfl, -⟩ <;> rfl
      rw [if_pos container]
      exact layer_container strict untracked deeper unfolds conforms level same found
  | struct s strictly =>
    exact layer_record strict untracked deeper unfolds conforms level known describes strictly
  | peer p => exact known.elim
  | «enum» typeName members =>
    obtain ⟨ordinal, rfl, member⟩ := describes
    cases unfolds
    simp only [Write.layer]
    rw [if_pos member]
    exact .pure trivial

omit deeper unfolds conforms level in
/-- A tree that conforms is written if the levels suffice. -/
theorem payload (levels : Nat) : WritesTrees env g levels (Write.payload env g levels) := by
  induction levels with
  | zero => exact layer strict untracked fun n none => by cases none
  | succ levels ih =>
    exact layer strict untracked fun n same => ⟨_, rfl, by cases same; exact ih⟩

end WritesTrees

/-! ## Instances -/

namespace Instance

/-- A tree that conforms is written and comes back as it is. -/
theorem interpreted_serialize_conforms {i : Instance} (sane : i.fault = none)
    (strict : i.environment.Strict) (untracked : i.config.trackRef = false) {g : Graph} {v : Value}
    {t : Tree} (unfolds : g.Unfolds v t) (conforms : t.Conforms i.environment .root)
    (level : t.Levels i.config.maxDepth) :
    ∃ bytes, i.serialize g v = .ok bytes ∧
      ∃ w g', (i.deserialize bytes).1 = .ok (w, g') ∧ g'.Unfolds w t := by
  have written : ∃ bytes, i.serialize g v = .ok bytes := by
    rw [serialize_of_sane i g v sane]
    split
    · exact ⟨_, rfl⟩
    · have mode : i.rootMode = .nullOnly := by rw [rootMode, untracked]; rfl
      have writes : Write.Writes (Write.value i.environment g i.rootMode true .dynamic v) :=
        Write.works_marked strict (WritesTrees.payload strict untracked i.config.maxDepth)
          (by rw [mode]; decide) (fun _ => by rw [mode]; decide) unfolds conforms level
      obtain ⟨bytes, ws, run, -⟩ := writes .initial
      exact ⟨_, map_eq_ok_iff.2 ⟨_, run, rfl⟩⟩
  obtain ⟨bytes, written⟩ := written
  have read := interpreted_deserialize_serialize sane strict untracked unfolds
    (conforms.travels strict) written
  rw [show i.registry = i.environment.registry from rfl, conforms.restored strict] at read
  exact ⟨bytes, written, read⟩

end Instance

end Graphwire
