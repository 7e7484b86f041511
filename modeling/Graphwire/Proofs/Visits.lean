import Graphwire.Proofs.MadeUpTypes

/-!
# What a writer goes through

A writer without types goes through a value node by node. At a record it looks up the struct that it
made up for the type of the record, and goes on only if the record has the fields of the first one. The
visits to a value list, in the order of writing, the records and what cannot be written. A writer goes
through the visits until it meets something that cannot be written, or two records of one type with
different fields.
-/

namespace Graphwire

set_option autoImplicit false

/-! ## Visits -/

/-- What a writer meets: a record with the names of its fields, or something that cannot be written. -/
inductive Visit where
  | record (typeName : String) (names : List String)
  | refusal
  deriving DecidableEq, Repr

namespace Environment

/-- What a writer meets before it enters a value: a record, and whether a struct can be made up for it. -/
def announced (env : Environment) (g : Graph) (v : Value) : List Visit :=
  match g.asRecord? v with
  | none => []
  | some r =>
    match env.registry.adhocStruct env.config r with
    | .ok _ => [.record r.typeName r.fields.names]
    | .error _ => [.record r.typeName r.fields.names, .refusal]

/-- What a writer meets in a value, given what it meets one level further in if it may go there. -/
def entered (g : Graph) (inner : Option (Value → List Visit)) (v : Value) : List Visit :=
  match g.nodeOf? v, inner with
  | some n, some visits => n.contents.flatMap visits
  | some _, none => [.refusal]
  | none, _ =>
    match (g.inferType? v).map (g.encodeScalar · v) with
    | some (.error _) => [.refusal]
    | _ => []

/-- What a writer meets that goes into a value by a number of levels, in the order of writing. It comes
no further than to the first refusal. -/
def visits (env : Environment) (g : Graph) : Nat → Value → List Visit
  | 0, v => env.announced g v ++ entered g none v
  | levels + 1, v => env.announced g v ++ entered g (some (visits env g levels)) v

end Environment

/-- What a writer remembers once it went through visits. -/
structure WriteState.Remembers (env : Environment) (met : List Visit) (ws : WriteState) : Prop where
  unrefused : .refusal ∉ met
  known : ∀ name names, .record name names ∈ met →
    ∃ s, ws.adhoc.lookup name = some s ∧ s.fields.map (·.name) = names
  made : ∀ name s, ws.adhoc.lookup name = some s →
    ∃ r : Record, r.typeName = name ∧ env.registry.adhocStruct env.config r = .ok s

/-- Whether a writer can go through visits: nothing among them is refused, and the records of one type
have the same fields. -/
def Visit.Agree (met : List Visit) : Prop :=
  .refusal ∉ met ∧ ∀ name names names', .record name names ∈ met → .record name names' ∈ met →
    names = names'

theorem Visit.Agree.of_prefix {front back : List Visit} (h : Agree (front ++ back)) : Agree front :=
  ⟨fun member => h.1 (List.mem_append_left _ member), fun name names names' first second =>
    h.2 name names names' (List.mem_append_left _ first) (List.mem_append_left _ second)⟩

namespace WriteState.Remembers

variable {env : Environment} {met : List Visit} {ws : WriteState}

theorem initial (env : Environment) : Remembers env [] .initial where
  unrefused := List.not_mem_nil
  known _ _ member := absurd member List.not_mem_nil
  made _ _ found := by cases found

/-- What a writer remembers goes together. -/
theorem agree (h : Remembers env met ws) : Visit.Agree met := by
  refine ⟨h.unrefused, ?_⟩
  intro name names names' first second
  obtain ⟨s, found, same⟩ := h.known name names first
  obtain ⟨s', found', same'⟩ := h.known name names' second
  cases found.symm.trans found'
  exact same.symm.trans same'

/-- A record is met again whose type has a struct with its fields. -/
theorem again (h : Remembers env met ws) {name : String} {s : StructType}
    (known : ws.adhoc.lookup name = some s) :
    Remembers env (met ++ [.record name (s.fields.map (·.name))]) ws where
  unrefused := by simpa using h.unrefused
  known name' names member := by
    rcases List.mem_append.1 member with before | now
    · exact h.known name' names before
    · cases List.mem_singleton.1 now
      exact ⟨s, known, rfl⟩
  made := h.made

/-- A struct is made up for the first record of a type. -/
theorem first (h : Remembers env met ws) {r : Record} {s : StructType}
    (new : ws.adhoc.lookup r.typeName = none)
    (made : env.registry.adhocStruct env.config r = .ok s) :
    Remembers env (met ++ [.record r.typeName (s.fields.map (·.name))])
      { ws with adhoc := (r.typeName, s) :: ws.adhoc } where
  unrefused := by simpa using h.unrefused
  known name names member := by
    rcases List.mem_append.1 member with before | now
    · obtain ⟨s', found, same⟩ := h.known name names before
      have other : name ≠ r.typeName := fun same => by simp [same, new] at found
      exact ⟨s', by rwa [List.lookup_cons, beq_false_of_ne other], same⟩
    · cases List.mem_singleton.1 now
      exact ⟨s, List.lookup_cons_self, rfl⟩
  made name s' found := by
    rw [List.lookup_cons] at found
    split at found
    · cases found
      exact ⟨r, (beq_iff_eq.1 ‹_›).symm, made⟩
    · exact h.made name s' found

/-- A record of a type that was not met goes with all that was met. -/
theorem agree_new (h : Remembers env met ws) {name : String} (names : List String)
    (new : ws.adhoc.lookup name = none) : Visit.Agree (met ++ [.record name names]) := by
  have unmet : ∀ names, .record name names ∉ met := fun names member => by
    obtain ⟨s, found, -⟩ := h.known name names member
    simp [new] at found
  refine ⟨by simpa using h.unrefused, ?_⟩
  intro name' names₁ names₂ first second
  rcases List.mem_append.1 first with before | now <;> rcases List.mem_append.1 second with before' | now'
  · exact h.agree.2 name' names₁ names₂ before before'
  · cases List.mem_singleton.1 now'
    exact absurd before (unmet _)
  · cases List.mem_singleton.1 now
    exact absurd before' (unmet _)
  · cases List.mem_singleton.1 now
    cases List.mem_singleton.1 now'
    rfl

end WriteState.Remembers

/-! ## Types of values -/

namespace Graph

variable {g : Graph} {v : Value}

/-- Values have types of their own, other than records and members of enumerations. -/
theorem exists_inferType? (noRecord : g.asRecord? v = none) (present : v ≠ .null)
    (noEnum : ∀ name ordinal, v ≠ .enum name ordinal) : ∃ t, g.inferType? v = some t := by
  cases v with
  | null => exact absurd rfl present
  | «enum» name ordinal => exact absurd rfl (noEnum name ordinal)
  | handle h =>
    cases node : g.node h with
    | record r => simp [asRecord?, nodeOf?, Value.handle?, node] at noRecord
    | _ => simp [inferType?, node]
  | _ => exact ⟨_, rfl⟩

/-- Scalars are not taken for containers. -/
theorem isContainer_of_inferType? {t : TypeId} (scalar : v.handle? = none)
    (inferred : g.inferType? v = some t) : t.isContainer = false := by
  cases v with
  | int n =>
    simp only [inferType?, Option.some.injEq] at inferred
    rw [← inferred]
    cases n.kind <;> rfl
  | handle => cases scalar
  | _ => cases inferred <;> rfl

end Graph

namespace Write

variable {α β : Type} {env : Environment} {front back : List Visit} {Q : α → Prop} {R : β → Prop}

/-- Whether a writer goes through visits, with a result as asked for, unless it stops before: at records
of one type with different fields, or at a refusal. -/
def GoesThrough (env : Environment) (visits : List Visit) (m : Write α) (Q : α → Prop) : Prop :=
  ∀ met (ws : WriteState), ws.Remembers env met →
    (∃ a ws', m ws = .ok (a, ws') ∧ Q a ∧ ws'.Remembers env (met ++ visits)) ∨
    ∃ e, m ws = .error e ∧ ((∃ name, e = .fieldSetsDiffer name) ∨
      ∃ before after, visits = before ++ .refusal :: after ∧ Visit.Agree (met ++ before))

namespace GoesThrough

theorem pure {a : α} (h : Q a) : GoesThrough env [] (pure a) Q := fun met ws remembers =>
  .inl ⟨a, ws, rfl, h, by rwa [List.append_nil]⟩

theorem throw (e : Error) : GoesThrough env [.refusal] (throw e : Write α) Q := fun met ws remembers =>
  .inr ⟨e, rfl, .inr ⟨[], [], rfl, by rw [List.append_nil]; exact remembers.agree⟩⟩

theorem bind {m : Write α} {f : α → Write β} (hm : GoesThrough env front m Q)
    (hf : ∀ a, Q a → GoesThrough env back (f a) R) : GoesThrough env (front ++ back) (m >>= f) R := by
  intro met ws remembers
  have run : (m >>= f) ws = m ws >>= fun p => f p.1 p.2 := rfl
  rcases hm met ws remembers with ⟨a, ws₁, first, holds, remembers₁⟩ | ⟨e, failed, why⟩
  · rw [run, first]
    rcases hf a holds _ ws₁ remembers₁ with ⟨b, ws₂, second, holds', remembers₂⟩ | ⟨e, failed, why⟩
    · exact .inl ⟨b, ws₂, second, holds', by rwa [← List.append_assoc]⟩
    · refine .inr ⟨e, failed, why.imp_right ?_⟩
      rintro ⟨before, after, rfl, agree⟩
      exact ⟨front ++ before, after, by simp, by rwa [← List.append_assoc]⟩
  · rw [run, failed]
    refine .inr ⟨e, rfl, why.imp_right ?_⟩
    rintro ⟨before, after, rfl, agree⟩
    exact ⟨before, after ++ back, by simp, agree⟩

theorem lift {x : Except Error α} (h : ∀ a, x = .ok a → front = [] ∧ Q a)
    (refused : ∀ e, x = .error e → front = [.refusal]) :
    GoesThrough env front (liftM x : Write α) Q := by
  cases x with
  | ok a =>
    rw [(h a rfl).1]
    exact .pure (h a rfl).2
  | error e =>
    rw [refused e rfl]
    exact .throw e

/-- What follows without visits. -/
theorem «then» {m : Write α} {f : α → Write β} (hm : GoesThrough env front m Q)
    (hf : ∀ a, Q a → GoesThrough env [] (f a) R) : GoesThrough env front (m >>= f) R := by
  rw [← List.append_nil front]
  exact hm.bind hf

theorem concat {γ : Type} {write : γ → Write (List UInt8)} {visits : γ → List Visit} {items : List γ}
    (h : ∀ a ∈ items, GoesThrough env (visits a) (write a) fun _ => True) :
    GoesThrough env (items.flatMap visits) (concat write items) fun _ => True := by
  induction items with
  | nil => exact .pure trivial
  | cons a items ih =>
    obtain ⟨here, others⟩ := List.forall_mem_cons.1 h
    rw [List.flatMap_cons]
    exact here.bind fun _ _ => (ih others).then fun _ _ => .pure trivial

end GoesThrough

section

variable {g : Graph} {v : Value} {r : Record} (makesUp : env.MakesUp)

include makesUp

/-- A record is written as the struct that was made up for its type, if that has its fields. -/
theorem recordType_known {s : StructType} {ws : WriteState} (known : ws.adhoc.lookup r.typeName = some s) :
    recordType env r ws =
      if s.fields.length = r.fields.size && s.fields.all fun f => r.contains f.name then .ok (s, ws)
      else .error (.fieldSetsDiffer r.typeName) := by
  have admitted : ¬(env.config.requireRegistration || !env.config.compatible) = true := by
    simp [makesUp.lenient, makesUp.compatible]
  have run : ∀ f : WriteState → Write StructType, (get >>= f) ws = f ws ws := fun _ => rfl
  unfold recordType
  rw [makesUp.struct?_eq_none]
  dsimp only
  rw [if_neg admitted, run, known]
  dsimp only
  split <;> rfl

/-- A struct is made up for the first record of a type. -/
theorem recordType_new {ws : WriteState} (new : ws.adhoc.lookup r.typeName = none) :
    recordType env r ws = (env.registry.adhocStruct env.config r).map fun s =>
      (s, { ws with adhoc := (r.typeName, s) :: ws.adhoc }) := by
  have admitted : ¬(env.config.requireRegistration || !env.config.compatible) = true := by
    simp [makesUp.lenient, makesUp.compatible]
  have run : ∀ f : WriteState → Write StructType, (get >>= f) ws = f ws ws := fun _ => rfl
  unfold recordType
  rw [makesUp.struct?_eq_none]
  dsimp only
  rw [if_neg admitted, run, new]
  dsimp only
  cases env.registry.adhocStruct env.config r <;> rfl

omit makesUp in
/-- The struct that was made up for a record of the same type and fields is the one of the record. -/
theorem made_of_known {met : List Visit} {ws : WriteState} (remembers : ws.Remembers env met)
    {s : StructType} (known : ws.adhoc.lookup r.typeName = some s)
    (size : s.fields.length = r.fields.size) (all : s.fields.all fun f => r.contains f.name) :
    env.registry.adhocStruct env.config r = .ok s := by
  obtain ⟨r', named, made⟩ := remembers.made _ _ known
  have theirs := StructType.names_of_size (StructType.build_built made).names size all
  have ours : ∀ name ∈ s.fields.map (·.name), name ∈ r.fields.names := by
    intro name member
    obtain ⟨f, declared, rfl⟩ := List.mem_map.1 member
    obtain ⟨v, set⟩ := Option.isSome_iff_exists.1 (List.all_eq_true.1 all f declared)
    exact List.mem_map_of_mem (mem_of_lookup set)
  rw [Registry.names_adhocStruct made] at theirs ours
  have names := FieldTable.names_eq_of_mem_iff fun name => ⟨theirs name, ours name⟩
  exact (Registry.adhocStruct_congr named.symm names).trans made

theorem goesThrough_recordType (isRecord : g.asRecord? v = some r) :
    GoesThrough env (env.announced g v) (recordType env r) fun s =>
      env.registry.adhocStruct env.config r = .ok s := by
  intro met ws remembers
  unfold Environment.announced
  rw [isRecord]
  dsimp only
  cases known : ws.adhoc.lookup r.typeName with
  | some s =>
    rw [recordType_known makesUp known]
    split
    · rename_i whole
      rw [Bool.and_eq_true, decide_eq_true_eq] at whole
      have made := made_of_known remembers known whole.1 whole.2
      rw [made]
      refine .inl ⟨s, ws, rfl, rfl, ?_⟩
      dsimp only
      rw [← Registry.names_adhocStruct made]
      exact remembers.again known
    · exact .inr ⟨_, rfl, .inl ⟨_, rfl⟩⟩
  | none =>
    rw [recordType_new makesUp known]
    cases made : env.registry.adhocStruct env.config r with
    | ok s =>
      refine .inl ⟨s, _, rfl, rfl, ?_⟩
      dsimp only
      rw [← Registry.names_adhocStruct made]
      exact remembers.first known made
    | error e =>
      exact .inr ⟨e, rfl, .inr ⟨[.record r.typeName r.fields.names], [], rfl,
        remembers.agree_new _ known⟩⟩

omit makesUp in
/-- What the definitions are that were sent does not matter for the visits. -/
theorem goesThrough_definition {s : StructType} (described : s.definition.isSome = true) :
    GoesThrough env [] (definition s) fun _ => True := by
  intro met ws remembers
  rw [List.append_nil]
  obtain ⟨bytes, described⟩ := Option.isSome_iff_exists.1 described
  have run : ∀ f : WriteState → Write (List UInt8), (get >>= f) ws = f ws ws := fun _ => rfl
  unfold definition
  rw [run, described]
  cases ws.sent.idxOf? s.qualifiedName with
  | some number => exact .inl ⟨_, ws, rfl, trivial, remembers⟩
  | none => exact .inl ⟨_, _, rfl, trivial, remembers.unrefused, remembers.known, remembers.made⟩

/-- The type of a value is told, unless none can be made up for it. -/
theorem goesThrough_typeInfo (present : v ≠ .null) :
    GoesThrough env (env.announced g v) (typeInfo env g v) fun p => env.Improvises g v p.2 := by
  unfold typeInfo
  split
  · rename_i r isRecord
    refine (goesThrough_recordType makesUp isRecord).then fun s made => ?_
    have described := Registry.described_adhocStruct made makesUp.compatible
    have built := StructType.build_built made
    rw [makesUp.compatible] at built
    have isCompatible : s.isCompatible = true := built.kind_eq
    have kind : s.kind = .namedCompatibleStruct := built.kind
    rw [if_neg (by rw [kind]; decide), if_neg (by rw [kind]; decide), isCompatible]
    obtain ⟨bytes, -, definition⟩ := described.definition rfl
    exact (goesThrough_definition (by rw [definition]; rfl)).then fun _ _ =>
      .pure (.record isRecord made)
  · rename_i name ordinal noRecord
    rw [Environment.announced, noRecord, makesUp.enum?_eq_none, makesUp.lenient]
    exact .pure (.enum name ordinal)
  · rename_i noEnum noRecord
    obtain ⟨t, inferred⟩ := Graph.exists_inferType? noRecord present noEnum
    rw [Environment.announced, noRecord, inferred]
    exact .pure (.builtin noRecord inferred)

omit makesUp in
theorem visits_null (levels : Nat) : env.visits g levels .null = [] := by
  cases levels <;> rfl

/-- A marked value is gone through as it is met. -/
theorem goesThrough_marked {payload : WritePayload} {within : List Visit} {mode : RefMode} {shape : Shape}
    (untracked : mode ≠ .tracking) (marked : v = .null → mode = .nullOnly ∧ within = [])
    (inner : ∀ wire, env.Improvises g v wire →
      GoesThrough env within (payload wire shape v) fun _ => True) :
    GoesThrough env (env.announced g v ++ within) (Write.marked env g payload mode true shape v)
      fun _ => True := by
  have typed : v ≠ .null → GoesThrough env (env.announced g v ++ within)
      (Write.typed env g payload true shape v) fun _ => True := by
    intro present
    exact (goesThrough_typeInfo makesUp present).bind fun p told => (inner p.2 told).then fun _ _ =>
      .pure trivial
  have present : ¬v.isNull = true → v ≠ .null := fun some same => some (same ▸ rfl)
  unfold Write.marked
  cases mode with
  | tracking => exact absurd rfl untracked
  | nullOnly =>
    dsimp only
    split
    · cases Value.eq_null_of_isNull ‹_›
      rw [(marked rfl).2]
      exact .pure trivial
    · exact (typed (present ‹_›)).then fun _ _ => .pure trivial
  | none =>
    dsimp only
    split
    · cases Value.eq_null_of_isNull ‹_›
      cases (marked rfl).1
    · exact typed (present ‹_›)

end

/-! ## Payloads -/

/-- Whether a writer of payloads goes through the visits to marked values. -/
def Follows (env : Environment) (g : Graph) (payload : WritePayload) (visits : Value → List Visit) :
    Prop :=
  ∀ mode v, mode ≠ .tracking → (v = .null → mode = .nullOnly) →
    GoesThrough env (visits v) (marked env g payload mode true .dynamic v) fun _ => True

section

variable {g : Graph} {v : Value} {payload : WritePayload} {visits : Value → List Visit}
  (makesUp : env.MakesUp) (follows : Follows env g payload visits)

include makesUp follows

/-- Elements of no declared shape are written after their types, and after a marker if one of them is
null. -/
theorem Follows.element {elements : List Value} (member : v ∈ elements) :
    GoesThrough env (visits v) (element env g payload (env.elementHeader none elements) none v)
      fun _ => True := by
  have mode : (env.elementHeader none elements).refMode =
      .ofFlags (elements.any Value.isNull) false := by
    rw [ElementHeader.refMode, Environment.elementHeader, makesUp.untracked]
    rfl
  unfold Write.element
  rw [mode]
  refine follows _ v ?_ ?_
  · cases elements.any Value.isNull <;> decide
  · rintro rfl
    rw [List.any_eq_true.2 ⟨_, member, rfl⟩]
    rfl

theorem Follows.items (elements : List Value) :
    GoesThrough env (elements.flatMap visits) (items env g payload .dynamic elements) fun _ => True := by
  unfold Write.items
  by_cases none : elements = []
  · subst none
    exact .pure trivial
  · rw [if_neg none]
    exact (GoesThrough.concat fun v member => follows.element makesUp member).then fun _ _ => .pure trivial

theorem Follows.entries (pairs : List (Value × Value)) :
    GoesThrough env ((Node.map pairs).contents.flatMap visits) (entries env g payload .dynamic pairs)
      fun _ => True := by
  have sides : (Node.map pairs).contents.flatMap visits =
      pairs.flatMap fun pair => visits pair.1 ++ visits pair.2 := by
    simp [Node.contents, List.flatMap_assoc]
  rw [sides]
  unfold Write.entries
  by_cases none : pairs = []
  · subst none
    exact .pure trivial
  · rw [if_neg none]
    refine (GoesThrough.concat fun pair member => ?_).then fun _ _ => .pure trivial
    refine (follows.element makesUp (List.mem_map_of_mem member)).bind fun _ _ => ?_
    exact (follows.element makesUp (List.mem_map_of_mem member)).then fun _ _ => .pure trivial

/-- The fields of a record are written in the order of their names. -/
theorem Follows.record {r : Record} {s : StructType}
    (made : env.registry.adhocStruct env.config r = .ok s) :
    GoesThrough env ((Node.record r).contents.flatMap visits) (record env g payload s false r)
      fun _ => True := by
  have order : (Node.record r).contents.flatMap visits =
      s.fields.flatMap fun f => visits (r.value f.name) := by
    have values : r.fields.entries.map (·.2) = r.fields.names.map r.value := by
      rw [FieldTable.names, List.map_map]
      refine List.map_congr_left fun e member => ?_
      have set : r.get? e.1 = some e.2 := lookup_of_mem r.fields.sorted member
      rw [Function.comp_apply, Record.value, set, Option.getD_some]
    rw [Node.contents, values, ← Registry.names_adhocStruct made, List.map_map, List.flatMap_map]
    rfl
  rw [order]
  unfold Write.record fields
  rw [makesUp.strategy]
  refine (GoesThrough.concat fun f member => ?_).then fun _ _ => .pure trivial
  obtain ⟨mode, typed, shape⟩ := Registry.written_adhocStruct made member
  unfold field
  rw [mode, typed, shape]
  exact follows .nullOnly _ (by decide) fun _ => rfl

end

section

variable {g : Graph} {v : Value} (makesUp : env.MakesUp)

include makesUp

omit makesUp in
/-- A node is entered while a level is left. -/
theorem goesThrough_descend {inner : Option WritePayload} {within : Option (Value → List Visit)}
    (follows : Option.Rel (Follows env g) inner within) {n : Node} (found : g.nodeOf? v = some n)
    {m : WritePayload → Write (List UInt8)}
    (h : ∀ payload visits, Follows env g payload visits →
      GoesThrough env (n.contents.flatMap visits) (m payload) fun _ => True) :
    GoesThrough env (Environment.entered g within v)
      (do m (← (env.descend inner : Except Error WritePayload))) fun _ => True := by
  unfold Environment.entered
  rw [found]
  cases follows with
  | none => exact .throw _
  | some follows => exact h _ _ follows

omit makesUp in
/-- A scalar is written, or refused. -/
theorem goesThrough_scalar {inner : Option WritePayload} {within : Option (Value → List Visit)}
    (scalar : v.handle? = none) {t : TypeId} (inferred : g.inferType? v = some t) :
    GoesThrough env (Environment.entered g within v) (layer env g inner (.builtin t) .dynamic v)
      fun _ => True := by
  have noNode : g.nodeOf? v = none := by rw [Graph.nodeOf?, scalar]; rfl
  simp only [layer, Graph.isContainer_of_inferType? scalar inferred, Environment.entered, noNode, inferred,
    Option.map_some, Bool.false_eq_true, if_false]
  exact .lift (fun a ok => by simp [ok]) fun e refused => by simp [refused]

/-- A payload is gone through as its value is entered. -/
theorem goesThrough_layer {inner : Option WritePayload} {within : Option (Value → List Visit)}
    (follows : Option.Rel (Follows env g) inner within) {wire : WireType}
    (told : env.Improvises g v wire) :
    GoesThrough env (Environment.entered g within v) (layer env g inner wire .dynamic v)
      fun _ => True := by
  cases told with
  | record isRecord made =>
    have named : _ = _ := (StructType.build_built made).qualifiedName
    simp only [layer, isRecord]
    rw [if_neg (not_not.2 named.symm)]
    exact goesThrough_descend follows (Graph.nodeOf?_of_asRecord? isRecord)
      fun payload visits follows => follows.record makesUp made
  | «enum» name ordinal => exact .pure trivial
  | builtin noRecord inferred =>
    cases v with
    | null => cases inferred
    | «enum» => cases inferred
    | handle h =>
      simp only [Graph.inferType?] at inferred
      cases node : g.node h with
      | list elements =>
        rw [node] at inferred
        cases inferred
        have found : g.nodeOf? (.handle h) = some (.list elements) := congrArg some node
        simp only [layer, container, found]
        exact goesThrough_descend follows found fun payload visits follows =>
          follows.items makesUp elements
      | set elements =>
        rw [node] at inferred
        cases inferred
        have found : g.nodeOf? (.handle h) = some (.set elements) := congrArg some node
        simp only [layer, container, found]
        exact goesThrough_descend follows found fun payload visits follows =>
          follows.items makesUp elements
      | map pairs =>
        rw [node] at inferred
        cases inferred
        have found : g.nodeOf? (.handle h) = some (.map pairs) := congrArg some node
        simp only [layer, container, found]
        exact goesThrough_descend follows found fun payload visits follows =>
          follows.entries makesUp pairs
      | record r =>
        rw [node] at inferred
        cases inferred
    | _ => exact goesThrough_scalar rfl inferred

/-- A writer of payloads goes through the visits to marked values, at any number of levels. -/
theorem follows_payload (levels : Nat) :
    Follows env g (payload env g levels) (env.visits g levels) := by
  induction levels with
  | zero =>
    intro mode v untracked marked
    exact goesThrough_marked makesUp untracked (fun null => ⟨marked null, by rw [null]; rfl⟩)
      fun wire told => goesThrough_layer makesUp .none told
  | succ levels ih =>
    intro mode v untracked marked
    exact goesThrough_marked makesUp untracked (fun null => ⟨marked null, by rw [null]; rfl⟩)
      fun wire told => goesThrough_layer makesUp (.some ih) told

end

end Write

/-! ## Frames -/

theorem Environment.visits_setStrategy (i : Instance) (strategy : Strategy) (g : Graph) (levels : Nat) :
    (i.setStrategy strategy).environment.visits g levels = i.environment.visits g levels := by
  induction levels with
  | zero => rfl
  | succ levels ih =>
    funext v
    simp only [Environment.visits, ih]
    rfl

/-- An instance without types writes no value in which it meets two records of one type with different
fields, before it meets anything else that it cannot write. -/
theorem Instance.MakesUp.serialize_second {i : Instance} (makesUp : i.MakesUp) {g : Graph} {v : Value}
    {before after : List Visit} {name : String} {names names' : List String}
    (met : i.environment.visits g i.config.maxDepth v = before ++ .record name names :: after)
    (unrefused : .refusal ∉ before) (earlier : .record name names' ∈ before) (differ : names' ≠ names) :
    ∃ e, i.serialize g v = .error e ∧ e.kind = .notAllowed := by
  let j := i.setStrategy .interpreted
  have disagree : ¬Visit.Agree (before ++ [.record name names]) := fun agree =>
    differ (agree.2 name names' names (List.mem_append_left _ earlier) (by simp))
  have same : i.serialize g v = j.serialize g v :=
    makesUp.reachable.serialize_setStrategy i.config.strategy .interpreted g v
  have present : ¬v.isNull = true := by
    intro null
    cases Value.eq_null_of_isNull null
    rw [Write.visits_null] at met
    simp at met
  rw [same, serialize_of_sane j g v makesUp.sane, if_neg present]
  have mode : j.rootMode = .nullOnly := makesUp.rootMode_eq
  have through : Write.GoesThrough j.environment (i.environment.visits g i.config.maxDepth v)
      (Write.value j.environment g j.rootMode true .dynamic v) fun _ => True := by
    rw [mode, ← Environment.visits_setStrategy i .interpreted]
    exact Write.follows_payload makesUp.environment _ .nullOnly v nofun fun _ => rfl
  rcases through [] .initial (.initial _) with ⟨bytes, ws, -, -, remembers⟩ | ⟨e, failed, why⟩
  · have agree := remembers.agree
    rw [List.nil_append, met, List.append_cons] at agree
    exact absurd agree.of_prefix disagree
  · refine ⟨e, by rw [failed]; rfl, ?_⟩
    rcases why with ⟨other, rfl⟩ | ⟨front, rest, split, agree⟩
    · rfl
    · rw [List.nil_append] at agree
      rw [met] at split
      exfalso
      -- The two records of one type stand before the refusal.
      rcases List.append_eq_append_iff.1 split with ⟨between, rfl, rest⟩ | ⟨between, rfl, rest⟩
      · cases between with
        | nil => cases rest
        | cons visit between =>
          cases rest
          rw [List.append_cons] at agree
          exact disagree agree.of_prefix
      · cases between with
        | nil => cases rest
        | cons visit between =>
          cases rest
          simp at unrefused

end Graphwire
