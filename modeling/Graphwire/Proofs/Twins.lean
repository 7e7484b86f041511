import Graphwire.Proofs.Channels
import Mathlib.Logic.Relator

/-!
# Two writers in step

A writer sees of a handle what its node holds and, where references are tracked, whether the handle
was met before. So two writers on graphs whose nodes match along a relation of handles do the same
step by step, as long as the relation pairs handles one to one where they are tracked: they have met
related handles in the same order, and have sent the same definitions.
-/

namespace Graphwire

set_option autoImplicit false

/-! ## Matching values -/

section

variable (R : Handle → Handle → Prop)

/-- Whether two values are the same scalar or related handles. -/
inductive Value.Matches : Value → Value → Prop where
  | scalar {v : Value} (scalar : v.handle? = none) : Matches v v
  | handle {h k : Handle} (related : R h k) : Matches (.handle h) (.handle k)

/-- Whether two records are of one type and have matching values in the same fields. -/
structure Record.Matches (r r' : Record) : Prop where
  typeName : r.typeName = r'.typeName
  fields : List.Forall₂ (fun e e' => e.1 = e'.1 ∧ e.2.Matches R e'.2) r.fields.entries
    r'.fields.entries

/-- Whether two nodes are of one kind and have matching values at the same places. -/
inductive Node.Matches : Node → Node → Prop where
  | list {vs ws : List Value} (elements : List.Forall₂ (Value.Matches R) vs ws) :
      Matches (.list vs) (.list ws)
  | set {vs ws : List Value} (elements : List.Forall₂ (Value.Matches R) vs ws) :
      Matches (.set vs) (.set ws)
  | map {ps qs : List (Value × Value)}
      (entries : List.Forall₂ (fun p q => p.1.Matches R q.1 ∧ p.2.Matches R q.2) ps qs) :
      Matches (.map ps) (.map qs)
  | record {r r' : Record} (record : r.Matches R r') : Matches (.record r) (.record r')

/-- Whether related handles have matching nodes. -/
def Graph.Matches (g g' : Graph) : Prop := ∀ h k, R h k → (g.node h).Matches R (g'.node k)

end

section

variable {R : Handle → Handle → Prop} {g g' : Graph} {v w : Value} {r r' : Record}

theorem Value.Matches.isNull (h : v.Matches R w) : v.isNull = w.isNull := by
  cases h <;> rfl

theorem Value.Matches.any_isNull {vs ws : List Value} (h : List.Forall₂ (Value.Matches R) vs ws) :
    vs.any Value.isNull = ws.any Value.isNull := by
  induction h with
  | nil => rfl
  | cons first _ ih => rw [List.any_cons, List.any_cons, first.isNull, ih]

theorem Record.Matches.get? (h : r.Matches R r') (name : String) :
    Option.Rel (Value.Matches R) (r.get? name) (r'.get? name) :=
  rel_lookup h.fields name

theorem Record.Matches.value (h : r.Matches R r') (name : String) :
    (r.value name).Matches R (r'.value name) := by
  have set := h.get? name
  unfold Record.value
  generalize r.get? name = x, r'.get? name = y at set ⊢
  cases set with
  | none => exact .scalar rfl
  | some matching => exact matching

theorem Record.Matches.contains (h : r.Matches R r') (name : String) :
    r.contains name = r'.contains name := by
  have set := h.get? name
  show (r.get? name).isSome = (r'.get? name).isSome
  generalize r.get? name = x, r'.get? name = y at set ⊢
  cases set <;> rfl

theorem Record.Matches.names (h : r.Matches R r') : r.fields.names = r'.fields.names :=
  (forall₂_entries_iff.1 h.fields).1

variable (matched : g.Matches R g')

include matched

theorem Graph.Matches.nodeOf? (h : v.Matches R w) :
    Option.Rel (Node.Matches R) (g.nodeOf? v) (g'.nodeOf? w) := by
  cases h with
  | scalar scalar =>
    rw [Graph.nodeOf?, Graph.nodeOf?, scalar]
    exact .none
  | handle related => exact .some (matched _ _ related)

theorem Graph.Matches.asRecord? (h : v.Matches R w) :
    Option.Rel (Record.Matches R) (g.asRecord? v) (g'.asRecord? w) := by
  have nodes := matched.nodeOf? h
  unfold Graph.asRecord?
  generalize g.nodeOf? v = n, g'.nodeOf? w = m at nodes ⊢
  cases nodes with
  | none => exact .none
  | some matching =>
    cases matching with
    | record record => exact .some record
    | _ => exact .none

theorem Graph.Matches.kindName (h : v.Matches R w) : g.kindName v = g'.kindName w := by
  cases h with
  | scalar scalar => cases v <;> first | rfl | cases scalar
  | @handle h k related =>
    have matching := matched h k related
    simp only [Graph.kindName]
    generalize g.node h = n, g'.node k = m at matching ⊢
    cases matching <;> rfl

theorem Graph.Matches.inferType? (h : v.Matches R w) : g.inferType? v = g'.inferType? w := by
  cases h with
  | scalar scalar => cases v <;> first | rfl | cases scalar
  | @handle h k related =>
    have matching := matched h k related
    simp only [Graph.inferType?]
    generalize g.node h = n, g'.node k = m at matching ⊢
    cases matching <;> rfl

theorem Graph.Matches.mismatch {α : Type} (h : v.Matches R w) (expected : String) :
    (g.mismatch expected v : Except Error α) = g'.mismatch expected w := by
  rw [Graph.mismatch, Graph.mismatch, matched.kindName h]

theorem Graph.Matches.coerce (h : v.Matches R w) (t : TypeId) : g.coerce t v = g'.coerce t w := by
  have refuse : ∀ expected, (g.mismatch expected v : Except Error Value) = g'.mismatch expected w :=
    matched.mismatch h
  cases h with
  | scalar scalar =>
    unfold Graph.coerce
    simp only [refuse]
  | handle related =>
    unfold Graph.coerce
    simp only [refuse]
    cases t.builtin? with
    | none => rfl
    | some b => cases b <;> rfl

theorem Graph.Matches.encodeScalar (h : v.Matches R w) (t : TypeId) :
    g.encodeScalar t v = g'.encodeScalar t w := by
  have refuse := matched.mismatch (α := List UInt8) h t.typeName
  have coerced := matched.coerce h t
  cases h with
  | scalar scalar =>
    unfold Graph.encodeScalar
    simp only [refuse, coerced]
  | handle related =>
    unfold Graph.encodeScalar
    simp only [refuse, coerced]
    cases t.builtin? with
    | none => rfl
    | some b => cases b <;> rfl

theorem Graph.Matches.fixedRun (h : r.Matches R r') (s : StructType) (positions : List Nat)
    (width : Nat) : Write.fixedRun g s r positions width = Write.fixedRun g' s r' positions width := by
  have field : Write.fixedField g r = Write.fixedField g' r' := by
    funext f
    simp only [Write.fixedField, (h.value f.name).isNull, h.typeName,
      matched.coerce (h.value f.name)]
  rw [Write.fixedRun, Write.fixedRun, field]

end

/-! ## Two writers -/

/-- Whether a struct has tracked fields only where a relation pairs handles one to one. -/
def StructType.Unambiguous (R : Handle → Handle → Prop) (s : StructType) : Prop :=
  ∀ f ∈ s.fields, f.refMode = .tracking → Relator.BiUnique R

/-- Whether two writers have met related handles in the same order, and otherwise remember the
same. -/
structure WriteState.Matches (R : Handle → Handle → Prop) (s t : WriteState) : Prop where
  seen : List.Forall₂ R s.seen.handles t.seen.handles
  sent : s.sent = t.sent
  adhoc : s.adhoc = t.adhoc
  unambiguous : ∀ e ∈ s.adhoc, e.2.Unambiguous R

/-- Whether two graphs are written alike in an environment: their nodes match along a relation, which
pairs handles one to one where they are tracked. -/
structure Environment.Mirrors (env : Environment) (R : Handle → Handle → Prop) (g g' : Graph) :
    Prop where
  nodes : g.Matches R g'
  tracked : env.config.trackRef = true → Relator.BiUnique R
  registered : ∀ s, env.registry.HasStruct s → s.Unambiguous R

/-- A struct that is made up tracks references as the settings do. -/
theorem Environment.Mirrors.adhoc {env : Environment} {R : Handle → Handle → Prop} {g g' : Graph}
    (mirrors : env.Mirrors R g g') {r : Record} {s : StructType}
    (h : env.registry.adhocStruct env.config r = .ok s) : s.Unambiguous R := by
  intro f member tracking
  refine mirrors.tracked (Decidable.byContradiction fun untracked => ?_)
  have resolved := (StructType.build_built h).resolved f member
  rw [Bool.not_eq_true] at untracked
  rw [untracked] at resolved
  exact Field.refMode_ne_tracking resolved.untracked tracking

/-- Handles that are related have the same place among those that were met. -/
theorem idxOf?_eq_of_forall₂ {R : Handle → Handle → Prop} (unique : Relator.BiUnique R)
    {hs ks : List Handle} {h k : Handle} (met : List.Forall₂ R hs ks) (related : R h k) :
    hs.idxOf? h = ks.idxOf? k := by
  induction met with
  | nil => rfl
  | @cons h' k' hs ks first _ ih =>
    have same : (h' == h) = (k' == k) := by
      rw [Bool.eq_iff_iff, beq_iff_eq, beq_iff_eq]
      constructor
      · rintro rfl
        exact unique.2 first related
      · rintro rfl
        exact unique.1 first related
    rw [List.idxOf?_cons, List.idxOf?_cons, same, ih]

namespace Write

variable {α β : Type} {R : Handle → Handle → Prop}

/-- What two writers come to that do the same: the same result in matching states, or the same
error. -/
inductive Twins (R : Handle → Handle → Prop) (Q : α → Prop) :
    Except Error (α × WriteState) → Except Error (α × WriteState) → Prop where
  | ok {a : α} {s t : WriteState} (result : Q a) (states : s.Matches R t) :
      Twins R Q (.ok (a, s)) (.ok (a, t))
  | error (e : Error) : Twins R Q (.error e) (.error e)

theorem Twins.map_eq {Q : α → Prop} {x y : Except Error (α × WriteState)} (h : Twins R Q x y)
    (f : α → β) : (x.map fun p => f p.1) = y.map fun p => f p.1 := by
  cases h <;> rfl

/-- Two writers that do the same from matching states. -/
def Twin (R : Handle → Handle → Prop) (Q : α → Prop) (m₁ m₂ : Write α) : Prop :=
  ∀ s t, WriteState.Matches R s t → Twins R Q (m₁ s) (m₂ t)

namespace Twin

variable {Q : α → Prop} {P : β → Prop}

theorem pure {a : α} (h : Q a) : Twin R Q (pure a) (pure a) := fun _ _ states => .ok h states

theorem throw (e : Error) : Twin R Q (throw e) (throw e) := fun _ _ _ => .error e

theorem bind {m₁ m₂ : Write α} {f₁ f₂ : α → Write β} (hm : Twin R Q m₁ m₂)
    (hf : ∀ a, Q a → Twin R P (f₁ a) (f₂ a)) : Twin R P (m₁ >>= f₁) (m₂ >>= f₂) := by
  intro s t states
  have run : ∀ (m : Write α) (f : α → Write β) (s : WriteState),
      (m >>= f) s = m s >>= fun p => f p.1 p.2 := fun _ _ _ => rfl
  rw [run, run]
  have first := hm s t states
  generalize m₁ s = x, m₂ t = y at first ⊢
  cases first with
  | ok result states => exact hf _ result _ _ states
  | error e => exact .error e

theorem lift {x : Except Error α} (h : ∀ a, x = .ok a → Q a) : Twin R Q (liftM x) (liftM x) := by
  cases x with
  | ok a => exact pure (h a rfl)
  | error e => exact throw e

/-- What is done with matching states. -/
theorem get {f₁ f₂ : WriteState → Write β}
    (hf : ∀ s t, WriteState.Matches R s t → Twin R P (f₁ s) (f₂ t)) :
    Twin R P (MonadState.get >>= f₁) (MonadState.get >>= f₂) :=
  fun s t states => hf s t states s t states

theorem set {s t : WriteState} (states : s.Matches R t) :
    Twin R (fun _ => True) (MonadStateOf.set s) (MonadStateOf.set t) :=
  fun _ _ _ => .ok trivial states

theorem concat {write₁ write₂ : α → Write (List UInt8)} (items : List α)
    (h : ∀ a ∈ items, Twin R (fun _ => True) (write₁ a) (write₂ a)) :
    Twin R (fun _ => True) (Write.concat write₁ items) (Write.concat write₂ items) := by
  induction items with
  | nil => exact pure trivial
  | cons a items ih =>
    exact (h a List.mem_cons_self).bind fun _ _ =>
      (ih fun b hb => h b (List.mem_cons_of_mem a hb)).bind fun _ _ => pure trivial

/-- Matching things are written one after the other. -/
theorem concat₂ {write₁ write₂ : α → Write (List UInt8)} {S : α → α → Prop} {as bs : List α}
    (items : List.Forall₂ S as bs)
    (h : ∀ a b, S a b → Twin R (fun _ => True) (write₁ a) (write₂ b)) :
    Twin R (fun _ => True) (Write.concat write₁ as) (Write.concat write₂ bs) := by
  induction items with
  | nil => exact pure trivial
  | cons first _ ih => exact (h _ _ first).bind fun _ _ => ih.bind fun _ _ => pure trivial

end Twin

/-! ### Markers and types -/

/-- A tracked value is marked by the place of its handle. -/
theorem twin_mark (unique : Relator.BiUnique R) {v w : Value} (h : v.Matches R w) :
    Twin R (fun _ => True) (mark v) (mark w) := by
  intro s t states
  have marked : ∀ (v : Value) (s : WriteState),
      mark v s = .ok ((s.seen.mark v).1, { s with seen := (s.seen.mark v).2 }) := fun _ _ => rfl
  rw [marked, marked]
  cases h with
  | scalar scalar =>
    simp only [SeenHandles.mark, scalar]
    split
    · exact .ok trivial states
    · exact .ok trivial states
  | @handle h k related =>
    simp only [SeenHandles.mark, Value.handle?, idxOf?_eq_of_forall₂ unique states.seen related]
    split
    · exact .ok trivial states
    · exact .ok trivial ⟨List.rel_append states.seen (.cons related .nil), states.sent, states.adhoc,
        states.unambiguous⟩

theorem twin_definition (s : StructType) :
    Twin R (fun _ => True) (definition s) (definition s) := by
  refine Twin.get fun state state' states => ?_
  rw [← states.sent]
  split
  · exact .pure trivial
  · split
    · exact .throw _
    · refine Twin.bind (Twin.set ?_) fun _ _ => .pure trivial
      exact ⟨states.seen, rfl, states.adhoc, states.unambiguous⟩

variable {env : Environment} {g g' : Graph} (mirrors : env.Mirrors R g g')

include mirrors

theorem twin_recordType {r r' : Record} (h : r.Matches R r') :
    Twin R (StructType.Unambiguous R) (recordType env r) (recordType env r') := by
  have built : env.registry.adhocStruct env.config r = env.registry.adhocStruct env.config r' := by
    simp only [Registry.adhocStruct, h.names, h.typeName]
  have size : r.fields.size = r'.fields.size := h.fields.length_eq
  unfold recordType
  rw [← h.typeName]
  split
  · rename_i s found
    exact .pure (mirrors.registered s ⟨_, found⟩)
  · dsimp only
    by_cases refused : (env.config.requireRegistration || !env.config.compatible) = true
    · rw [if_pos refused, if_pos refused]
      exact Twin.bind (Q := fun _ => False) (.throw _) nofun
    · rw [if_neg refused, if_neg refused]
      refine Twin.get fun state state' states => ?_
      rw [← states.adhoc]
      split
      · rename_i s found
        simp only [size, h.contains]
        split
        · obtain ⟨before, after, same, -⟩ := List.lookup_eq_some_iff.1 found
          exact .pure (states.unambiguous (r.typeName, s) (by rw [same]; simp))
        · exact .throw _
      · rw [← built]
        refine Twin.bind (Q := StructType.Unambiguous R) (.lift fun s h => mirrors.adhoc h)
          fun s unambiguous => ?_
        refine Twin.bind (Twin.set ?_) fun _ _ => .pure unambiguous
        refine ⟨states.seen, states.sent, rfl, fun e he => ?_⟩
        rcases List.mem_cons.1 he with rfl | he
        · exact unambiguous
        · exact states.unambiguous e he

/-- A wire type whose struct tracks only handles that are paired one to one. -/
abbrev Paired (R : Handle → Handle → Prop) (wire : WireType) : Prop :=
  wire.Admits (StructType.Unambiguous R) fun _ => True

theorem twin_typeInfo {v w : Value} (h : v.Matches R w) :
    Twin R (fun p => Paired R p.2) (typeInfo env g v) (typeInfo env g' w) := by
  have records := mirrors.nodes.asRecord? h
  have inferred := mirrors.nodes.inferType? h
  unfold typeInfo
  generalize g.asRecord? v = x, g'.asRecord? w = y at records ⊢
  cases records with
  | some record =>
    refine (twin_recordType mirrors record).bind fun s unambiguous => ?_
    dsimp only
    split
    · exact (Twin.pure (Q := fun _ => True) trivial).bind fun _ _ => .pure unambiguous
    · split
      · exact (Twin.pure (Q := fun _ => True) trivial).bind fun _ _ => .pure unambiguous
      · exact (twin_definition s).bind fun _ _ => .pure unambiguous
  | none =>
    rw [← inferred]
    generalize g.inferType? v = t
    cases h with
    | handle related =>
      cases t with
      | some t => exact .pure trivial
      | none => exact .throw _
    | scalar scalar =>
      cases v with
      | handle h => cases scalar
      | «enum» typeName ordinal =>
        dsimp only
        split
        · exact .pure trivial
        · split
          · exact .throw _
          · exact .pure trivial
      | _ =>
        cases t with
        | some t => exact .pure trivial
        | none => exact .throw _

/-- Two writers of payloads that do the same with matching values. -/
def TwinPayload (R : Handle → Handle → Prop) (inner₁ inner₂ : WritePayload) : Prop :=
  ∀ wire, Paired R wire → ∀ shape v w, v.Matches R w →
    Twin R (fun _ => True) (inner₁ wire shape v) (inner₂ wire shape w)

variable {inner₁ inner₂ : WritePayload} (inner : TwinPayload R inner₁ inner₂)

include inner

theorem twin_typed (hasType : Bool) (shape : Shape) {v w : Value} (h : v.Matches R w) :
    Twin R (fun _ => True) (typed env g inner₁ hasType shape v)
      (typed env g' inner₂ hasType shape w) := by
  unfold typed
  cases hasType with
  | true =>
    exact (twin_typeInfo mirrors h).bind fun p paired =>
      (inner p.2 paired shape v w h).bind fun _ _ => .pure trivial
  | false =>
    refine Twin.bind (Q := Paired R) (.lift fun wire declared => ?_)
      fun wire paired => inner wire paired shape v w h
    exact env.admits_declaredType mirrors.registered declared

theorem twin_marked {mode : RefMode} (tracking : mode = .tracking → Relator.BiUnique R)
    (hasType : Bool) (shape : Shape) {v w : Value} (h : v.Matches R w) :
    Twin R (fun _ => True) (marked env g inner₁ mode hasType shape v)
      (marked env g' inner₂ mode hasType shape w) := by
  have typed := twin_typed mirrors inner hasType shape h
  unfold marked
  rw [← h.isNull]
  cases mode with
  | tracking =>
    refine (twin_mark (tracking rfl) h).bind fun p _ => ?_
    dsimp only
    split
    · exact .pure trivial
    · exact typed.bind fun _ _ => .pure trivial
  | nullOnly =>
    dsimp only
    split
    · exact .pure trivial
    · exact typed.bind fun _ _ => .pure trivial
  | none =>
    dsimp only
    split
    · exact .throw _
    · exact typed

/-- Matching elements have the same header, and where it says that they are tracked they are paired
one to one. -/
theorem twin_elements (shape : Option Shape) {vs ws : List Value}
    (elements : List.Forall₂ (Value.Matches R) vs ws) :
    env.elementHeader shape vs = env.elementHeader shape ws ∧
      ∀ v w, v.Matches R w → Twin R (fun _ => True)
        (element env g inner₁ (env.elementHeader shape vs) shape v)
        (element env g' inner₂ (env.elementHeader shape vs) shape w) := by
  refine ⟨?_, fun v w h => twin_marked mirrors inner (fun tracking => mirrors.tracked ?_) _ _ h⟩
  · simp only [Environment.elementHeader, Value.Matches.any_isNull elements]
  · refine Decidable.byContradiction fun untracked => ?_
    exact Environment.refMode_ne (Bool.not_eq_true _ ▸ untracked) shape vs tracking

theorem twin_items (shape : Shape) {vs ws : List Value}
    (elements : List.Forall₂ (Value.Matches R) vs ws) :
    Twin R (fun _ => True) (items env g inner₁ shape vs) (items env g' inner₂ shape ws) := by
  obtain ⟨header, twins⟩ := twin_elements mirrors inner shape.parts.1 elements
  unfold items
  dsimp only
  rw [← elements.length_eq, ← header]
  have empty : (vs = []) ↔ (ws = []) := by
    rw [← List.length_eq_zero_iff, ← List.length_eq_zero_iff, elements.length_eq]
  by_cases none : vs = []
  · rw [if_pos none, if_pos (empty.1 none)]
    exact .pure trivial
  · rw [if_neg none, if_neg fun h => none (empty.2 h)]
    exact (Twin.concat₂ elements twins).bind fun _ _ => .pure trivial

theorem twin_entries (shape : Shape) {ps qs : List (Value × Value)}
    (pairs : List.Forall₂ (fun p q => p.1.Matches R q.1 ∧ p.2.Matches R q.2) ps qs) :
    Twin R (fun _ => True) (entries env g inner₁ shape ps) (entries env g' inner₂ shape qs) := by
  have keys : List.Forall₂ (Value.Matches R) (ps.map (·.1)) (qs.map (·.1)) := by
    rw [List.forall₂_map_left_iff, List.forall₂_map_right_iff]
    exact pairs.imp fun _ _ h => h.1
  have values : List.Forall₂ (Value.Matches R) (ps.map (·.2)) (qs.map (·.2)) := by
    rw [List.forall₂_map_left_iff, List.forall₂_map_right_iff]
    exact pairs.imp fun _ _ h => h.2
  obtain ⟨keyHeader, keyTwins⟩ := twin_elements mirrors inner shape.parts.1 keys
  obtain ⟨valueHeader, valueTwins⟩ := twin_elements mirrors inner shape.parts.2 values
  unfold entries
  dsimp only
  rw [← pairs.length_eq, ← keyHeader, ← valueHeader]
  have empty : (ps = []) ↔ (qs = []) := by
    rw [← List.length_eq_zero_iff, ← List.length_eq_zero_iff, pairs.length_eq]
  by_cases none : ps = []
  · rw [if_pos none, if_pos (empty.1 none)]
    exact .pure trivial
  · rw [if_neg none, if_neg fun h => none (empty.2 h)]
    refine (Twin.concat₂ pairs fun p q h => ?_).bind fun _ _ => .pure trivial
    exact (keyTwins p.1 q.1 h.1).bind fun _ _ => (valueTwins p.2 q.2 h.2).bind fun _ _ =>
      .pure trivial

theorem twin_field {s : StructType} (unambiguous : s.Unambiguous R) {r r' : Record}
    (h : r.Matches R r') {f : Field} (member : f ∈ s.fields) :
    Twin R (fun _ => True) (field env g inner₁ s r f) (field env g' inner₂ s r' f) := by
  unfold field
  dsimp only
  rw [← (h.value f.name).isNull, ← h.typeName]
  split
  · exact .throw _
  · exact twin_marked mirrors inner (unambiguous f member) _ _ (h.value f.name)

theorem twin_step {s : StructType} (unambiguous : s.Unambiguous R) {r r' : Record}
    (h : r.Matches R r') (plan : PlanStep) :
    Twin R (fun _ => True) (step env g inner₁ s r plan) (step env g' inner₂ s r' plan) := by
  cases plan with
  | run positions width =>
    simp only [step, mirrors.nodes.fixedRun h]
    exact .lift fun _ _ => trivial
  | field position =>
    refine .concat _ fun f member => twin_field mirrors inner unambiguous h ?_
    exact List.mem_of_getElem? (Option.mem_toList.1 member)

theorem twin_record {s : StructType} (unambiguous : s.Unambiguous R) (strict : Bool)
    {r r' : Record} (h : r.Matches R r') :
    Twin R (fun _ => True) (record env g inner₁ s strict r) (record env g' inner₂ s strict r') := by
  refine Twin.bind (Q := fun _ => True) ?_ fun _ _ => .pure trivial
  unfold fields
  cases env.config.strategy with
  | interpreted => exact .concat _ fun f member => twin_field mirrors inner unambiguous h member
  | compiled => exact .concat _ fun plan _ => twin_step mirrors inner unambiguous h plan

omit inner in
theorem twin_layer {deeper₁ deeper₂ : Option WritePayload}
    (deeper : Option.Rel (TwinPayload R) deeper₁ deeper₂) :
    TwinPayload R (layer env g deeper₁) (layer env g' deeper₂) := by
  have descend : ∀ {f₁ f₂ : WritePayload → Write (List UInt8)},
      (∀ inner₁ inner₂, TwinPayload R inner₁ inner₂ →
        Twin R (fun _ => True) (f₁ inner₁) (f₂ inner₂)) →
      Twin R (fun _ => True) (liftM (env.descend deeper₁) >>= f₁)
        (liftM (env.descend deeper₂) >>= f₂) := by
    intro f₁ f₂ hf
    cases deeper with
    | none => exact .throw _
    | some inner => exact hf _ _ inner
  have refuse : ∀ x : Except Error (List UInt8), Twin R (fun _ => True) (liftM x) (liftM x) :=
    fun x => .lift fun _ _ => trivial
  intro wire paired shape v w h
  cases wire with
  | builtin t =>
    simp only [layer]
    split
    · have mismatch := mirrors.nodes.mismatch (α := List UInt8) h t.typeName
      have nodes := mirrors.nodes.nodeOf? h
      unfold container
      rw [← mismatch]
      generalize g.nodeOf? v = n, g'.nodeOf? w = m at nodes ⊢
      cases nodes with
      | none => exact refuse _
      | some matching =>
        cases matching with
        | list elements =>
          dsimp only
          split
          · exact descend fun _ _ inner => twin_items mirrors inner shape elements
          · exact refuse _
        | set elements =>
          dsimp only
          split
          · exact descend fun _ _ inner => twin_items mirrors inner shape elements
          · exact refuse _
        | map pairs =>
          dsimp only
          split
          · exact descend fun _ _ inner => twin_entries mirrors inner shape pairs
          · exact refuse _
        | record _ => exact refuse _
    · rw [mirrors.nodes.encodeScalar h]
      exact refuse _
  | struct s strict =>
    have mismatch := mirrors.nodes.mismatch (α := List UInt8) h s.qualifiedName
    have records := mirrors.nodes.asRecord? h
    simp only [layer]
    rw [← mismatch]
    generalize g.asRecord? v = x, g'.asRecord? w = y at records ⊢
    cases records with
    | none => exact refuse _
    | some record =>
      dsimp only
      rw [← record.typeName]
      split
      · exact .throw _
      · exact descend fun _ _ inner => twin_record mirrors inner paired strict record
  | peer p => exact .throw _
  | «enum» typeName members =>
    have mismatch := mirrors.nodes.mismatch (α := List UInt8) h typeName
    simp only [layer]
    rw [← mismatch]
    cases h with
    | handle related => exact refuse _
    | scalar scalar =>
      split
      · split
        · exact .pure trivial
        · exact .throw _
      · exact refuse _

omit inner in
theorem twin_payload (levels : Nat) :
    TwinPayload R (payload env g levels) (payload env g' levels) := by
  induction levels with
  | zero => exact twin_layer mirrors .none
  | succ levels ih => exact twin_layer mirrors (.some ih)

end Write

end Graphwire
