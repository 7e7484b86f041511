import Graphwire.Proofs.Accepted
import Graphwire.Proofs.Strategies
import Graphwire.Proofs.Announcements
import Graphwire.Proofs.Peers

/-!
# Records of one layout

A record whose definition is our own is read by our fields, without looking at what the definition
says of them. Reading it by the fields of the definition comes to the same: each is matched with our
field that it was made of, and is read with its marker, its type and its shape, so that no field is
missing. The two ways part at one place only. A field that is read as a reference may turn out null
although it may not be null; our fields leave it unset, the fields of the definition count it as left
out and give it its default.
-/

namespace Graphwire

set_option autoImplicit false

/-! ## Values that are not null -/

namespace Read

variable {α β : Type} {env : Environment} {inner : ReadPayload} {st : ReadState}

/-- Whether a reader gives values that are not null. -/
def Present (m : Read Value) : Prop := ∀ st, Ensures m st fun v _ => v.isNull = false

theorem present_pure {v : Value} (present : v.isNull = false) : Present (pure v) :=
  fun _ => .pure present

theorem Present.after {m : Read α} {f : α → Read Value} (hf : ∀ a, Present (f a)) :
    Present (m >>= f) := fun _ => .last hf

theorem present_scalar (limits : SizeLimits) (t : TypeId) : Present (scalar limits t) := by
  intro st
  refine (ensures_scalar limits t st).mono ?_
  rintro v _ ⟨-, ⟨b, -, holds⟩, -⟩
  exact holds.isNull

theorem present_items (node : List Value → Node) (shape : Shape) (slot : Option Nat) :
    Present (items env inner node shape slot) := by
  refine .after fun length => .after fun _ => .after fun h => .after fun _ => ?_
  split
  · exact present_pure rfl
  · exact .after fun _ => .after fun _ => .after fun _ => present_pure rfl

theorem present_entries (shape : Shape) (slot : Option Nat) :
    Present (entries env inner shape slot) := by
  refine .after fun length => .after fun _ => .after fun h => .after fun _ => ?_
  split
  · exact present_pure rfl
  · exact .after fun _ => .after fun _ => .after fun _ => .after fun _ => present_pure rfl

theorem present_record (s : StructType) (strict : Bool) (slot : Option Nat) :
    Present (record env inner s strict slot) := by
  have body : Present (do
      let h ← newRecord s.qualifiedName slot
      fields env inner s h
      return .handle h) := .after fun _ => .after fun _ => present_pure rfl
  unfold record
  cases strict with
  | true => exact .after fun _ => .after fun _ => body
  | false => exact body

theorem present_peerRecord (p : PeerStruct) (slot : Option Nat) :
    Present (peerRecord env inner p slot) := by
  unfold peerRecord
  split
  · exact present_record _ _ _
  · exact .after fun _ => .after fun _ => .after fun _ => present_pure rfl

/-- A payload is never null. -/
theorem present_layer (inner : Option ReadPayload) (wire : WireType) (shape : Shape)
    (slot : Option Nat) : Present (layer env inner wire shape slot) := by
  cases wire with
  | builtin t =>
    simp only [layer]
    split
    · refine .after fun inner => ?_
      unfold container
      split
      · exact present_entries _ _
      · exact present_items _ _ _
    · exact present_scalar _ t
  | struct s strict => exact .after fun _ => present_record _ _ _
  | peer p => exact .after fun _ => present_peerRecord _ _
  | «enum» typeName members =>
    refine .after fun ordinal => ?_
    split
    · exact present_pure rfl
    · exact fun _ => .throw _

theorem present_payload (levels : Nat) (wire : WireType) (shape : Shape) (slot : Option Nat) :
    Present (payload env levels wire shape slot) := by
  cases levels <;> exact present_layer _ _ _ _

/-- Only a marker can tell a null. -/
theorem present_marked (present : ∀ wire shape slot, Present (inner wire shape slot))
    (hasType : Bool) (shape : Shape) : Present (marked env inner .none hasType shape) := by
  unfold marked
  rw [if_pos rfl, typed_eq]
  exact .after fun wire => present wire shape none

end Read

/-! ## Fields -/

/-- Whether a field may be read as null although it may not be null, and has a default for the case
that it is left out. -/
structure Field.Exposed (f : Field) : Prop where
  tracking : f.refMode = .tracking
  required : f.nullable = false
  default : ∃ t, f.missingValue = .ok (some t)

/-- A field that is not a reference is not exposed. -/
theorem Field.not_exposed {f : Field} (untracked : f.tracked = false) : ¬f.Exposed :=
  fun exposed => Field.refMode_ne_tracking untracked exposed.tracking

/-- Whether a field is read in the same way by the entry of a definition that was made of it. -/
structure StructType.Mirrors (s : StructType) (f : Field) : Prop where
  known : s.counterpart? f = some f
  mode : (s.peerField f).refMode = f.refMode
  typed : (s.peerField f).typed = f.hasTypeInfo s.isCompatible
  shape : (s.peerField f).shape = f.shape
  default : ∃ d, f.missingValue = .ok d

theorem StructType.Described.distinctKeys {compatible : Bool} {s : StructType}
    (described : s.Described compatible) (names : (s.fields.map (·.name)).Nodup) :
    DistinctKeys s.fields := distinctKeys_of_nodup names described.tags

/-- All fields of a struct that passed the checks are mirrored. -/
theorem StructType.Described.mirrors {s : StructType} (described : s.Described true)
    (names : (s.fields.map (·.name)).Nodup) (compatible : s.isCompatible = true) :
    ∀ f ∈ s.fields, s.Mirrors f := by
  obtain ⟨lookup, registered, fields⟩ := described.fields
  intro f member
  obtain ⟨known, typed, shape⟩ := StructType.peerField_of_entry registered (fields f member)
    (described.distinctKeys names) member rfl
  exact ⟨known, StructType.refMode_peerField (fields f member), compatible ▸ typed, shape,
    (fields f member).default⟩

namespace Read

variable {env : Environment} {inner : ReadPayload} {s : StructType} {p : PeerStruct} {h : Handle}

/-- Whether a null comes up for an exposed field, where all fields before it can be read. -/
def MeetsNull (env : Environment) (inner : ReadPayload) (s : StructType) (h : Handle)
    (fields : List Field) (st : ReadState) : Prop :=
  ∃ before f after st₁ st₂, fields = before ++ f :: after ∧ f.Exposed ∧
    each (field env inner s h) before st = .ok () st₁ ∧
    marked env inner f.refMode (f.hasTypeInfo s.isCompatible) f.shape st₁ = .ok .null st₂

theorem keepField_own (own : p.own = some s) {f : Field} (known : s.counterpart? f = some f)
    (v : Value) :
    keepField p h (s.peerField f) v =
      if v.isNull then do
        noteNull h f.name
        if f.nullable then return () else fillMissing h f
      else setField h f.name v := by
  have position : ((s.peerField f).own.bind fun i => p.own.bind fun s => s.fields[i]?) = some f := by
    rw [own]
    exact known
  unfold keepField
  rw [position, own]

theorem fillMissing_none {f : Field} (absent : f.missingValue = .ok none) :
    fillMissing h f = return () := by
  unfold fillMissing
  rw [absent]
  rfl

theorem peerField_cases (present : ∀ wire shape slot, Present (inner wire shape slot))
    (own : p.own = some s) {f : Field} (mirrors : s.Mirrors f) (h : Handle) (st : ReadState) :
    peerField env inner p h (s.peerField f) st = field env inner s h f st ∨
      f.Exposed ∧ ∃ st', marked env inner f.refMode (f.hasTypeInfo s.isCompatible) f.shape st =
        .ok .null st' := by
  unfold peerField field
  rw [mirrors.mode, mirrors.typed, mirrors.shape, bind_apply, bind_apply]
  cases run : marked env inner f.refMode (f.hasTypeInfo s.isCompatible) f.shape st with
  | error e st' => exact .inl rfl
  | ok v st' =>
    dsimp only
    rw [keepField_own own mirrors.known]
    by_cases null : v.isNull = true
    · cases Value.eq_null_of_isNull null
      rw [if_pos null, if_pos null]
      cases nullable : f.nullable with
      | true => exact .inl rfl
      | false =>
        obtain ⟨d, default⟩ := mirrors.default
        cases d with
        | none =>
          rw [fillMissing_none default]
          exact .inl rfl
        | some t =>
          refine .inr ⟨⟨?_, nullable, t, default⟩, st', rfl⟩
          -- A field that is neither nullable nor a reference has no marker.
          cases tracked : f.tracked with
          | true => simp only [Field.refMode, nullable, tracked]; rfl
          | false =>
            have mode : f.refMode = .none := by simp only [Field.refMode, nullable, tracked]; rfl
            rw [mode] at run
            cases null.symm.trans (present_marked present _ _ st _ _ run)
    · rw [if_neg null, if_neg null]
      exact .inl rfl

/-- The fields of a definition are read as our own, unless a null comes up. -/
theorem each_peerField_cases (present : ∀ wire shape slot, Present (inner wire shape slot))
    (own : p.own = some s) {fields : List Field} (mirrors : ∀ f ∈ fields, s.Mirrors f) (h : Handle)
    (st : ReadState) :
    each (peerField env inner p h) (fields.map s.peerField) st = each (field env inner s h) fields st ∨
      MeetsNull env inner s h fields st := by
  induction fields generalizing st with
  | nil => exact .inl rfl
  | cons f fields ih =>
    obtain ⟨here, others⟩ := List.forall_mem_cons.1 mirrors
    rcases peerField_cases present own here h st with same | ⟨exposed, st', null⟩
    · simp only [List.map_cons, each]
      rw [bind_apply, bind_apply, same]
      cases run : field env inner s h f st with
      | error e st' => exact .inl rfl
      | ok u st' =>
        dsimp only
        refine (ih others st').imp_right ?_
        rintro ⟨before, g, after, st₁, st₂, rfl, exposed, first, null⟩
        refine ⟨f :: before, g, after, st₁, st₂, rfl, exposed, ?_, null⟩
        rw [each, bind_of_ok run]
        exact first
    · exact .inr ⟨[], f, fields, st, st', rfl, exposed, rfl, null⟩

theorem newRecord_bind {β : Type} (typeName : String) (slot : Option Nat) (f : Handle → Read β)
    (st : ReadState) :
    (newRecord typeName slot >>= f) st =
      f ⟨st.graph.size⟩ (st.opened (.record (.ofType typeName)) slot) := by
  cases slot <;> rfl

/-- A record whose fields are read as ours, one after the other. -/
def stepwise (env : Environment) (inner : ReadPayload) (s : StructType) (slot : Option Nat) :
    Read Value := do
  let h ← newRecord s.qualifiedName slot
  each (field env inner s h) s.fields
  return .handle h

/-- Reading by the fields of a definition is reading by our own, unless a null comes up. -/
theorem reconciled_cases (present : ∀ wire shape slot, Present (inner wire shape slot))
    (own : p.own = some s) (named : p.typeName = s.qualifiedName)
    (fields : p.fields = s.fields.map s.peerField) (missing : p.missing = [])
    (mirrors : ∀ f ∈ s.fields, s.Mirrors f) (slot : Option Nat) (st : ReadState) :
    reconciled env inner p slot st = stepwise env inner s slot st ∨
      MeetsNull env inner s ⟨st.graph.size⟩ s.fields
        (st.opened (.record (.ofType s.qualifiedName)) slot) := by
  have none : (p.own.elim [] fun s => p.missing.filterMap fun i => s.fields[i]?) = [] := by
    rw [own, missing]
    rfl
  unfold reconciled stepwise
  rw [none, named, fields, newRecord_bind, newRecord_bind]
  refine (each_peerField_cases present own mirrors ⟨st.graph.size⟩
    (st.opened (.record (.ofType s.qualifiedName)) slot)).imp_left fun same => ?_
  rw [bind_apply, bind_apply, same]
  rfl

/-- Reading our fields one after the other is as good as the way that the settings ask for. -/
theorem alike_stepwise (registered : ∀ s, env.registry.HasStruct s → s.Planned)
    (planned : s.Planned) (levels : Nat) (slot : Option Nat) :
    Alike (fun _ => True) (stepwise env (payload env levels) s slot)
      (record env (payload env levels) s false slot) := by
  have walk := walk_alike registered env.config.strategy env.config.strategy
  have paired := walk.payload (walk.relatedFields_self rfl) rfl levels
  have alike (h : Handle) : Alike (fun _ => True)
      (each (field env (payload env levels) s h) s.fields)
      (fields env (payload env levels) s h) := by
    unfold fields
    cases env.config.strategy with
    | interpreted => exact congruence_alike.each _ fun f _ => walk.field paired s h f
    | compiled =>
      exact alike_covers paired.scalars₁ (fun f => walk.field paired s h f) planned.covers
  exact congruence_alike.then_ (local_newRecord _ _) fun h =>
    congruence_alike.bind (alike h) fun _ _ => congruence_alike.pure trivial

theorem Agree.symm {α : Type} {Q : α → Prop} {a b : EStateM.Result Error ReadState α}
    (agree : Agree Q a b) : Agree Q b a := by
  cases agree with
  | ok value planned => exact .ok value planned
  | error kind planned₁ planned₂ => exact .error kind.symm planned₂ planned₁

end Read

/-! ## Instances -/

/-- A definition with the bytes of our own is our own. -/
theorem StructType.Described.told_of_same {s : StructType} (described : s.Described true)
    (short : s.Short) {header : Int} (front : s.header? = some header) {after : List UInt8}
    (same : s.definition = some (Encode.signed 8 header ++ after)) {r r' : Reader}
    {more : List UInt8} (stands : r.rest = after ++ more) {d : TypeDefinition}
    (received : TypeDefinition.decodeAfter header r = .ok d r') : d = s.told header := by
  obtain ⟨header', after', tells⟩ := described.tells short
  cases Option.some.inj (tells.front.symm.trans front)
  cases List.append_cancel_left (Option.some.inj (tells.definition.symm.trans same))
  obtain ⟨position, run⟩ := tells.read r.position more
  rw [← stands] at run
  cases received.symm.trans run
  rfl

namespace Instance

open Read in
/-- A record whose definition has the bytes of our own is read in the same way by our fields and by
those of the definition, unless a null comes up for a field that is a reference, may not be null and
has a default. Where references are not tracked there is no such field. -/
theorem sameLayout_agrees_with_reconciled {i : Instance} (reachable : i.Reachable)
    (sane : i.fault = none) (compatible : i.config.compatible = true) {s : StructType}
    (short : s.Short) {header : Int} (front : s.header? = some header) {after : List UInt8}
    (same : s.definition = some (Encode.signed 8 header ++ after)) {r r' : Reader}
    {more : List UInt8} (stands : r.rest = after ++ more) {d : TypeDefinition}
    (received : TypeDefinition.decodeAfter header r = .ok d r')
    (own : i.registry.structOf? d.identity = some s) :
    (PeerStruct.ofDefinition i.registry header d).sameLayout = true ∧
    (∀ levels slot st, st.Planned →
      Agree (fun _ => True)
          (peerRecord i.environment (payload i.environment levels)
            (.ofDefinition i.registry header d) slot st)
          (reconciled i.environment (payload i.environment levels)
            (.ofDefinition i.registry header d) slot st) ∨
        MeetsNull i.environment (payload i.environment levels) s ⟨st.graph.size⟩ s.fields
          (st.opened (.record (.ofType s.qualifiedName)) slot)) ∧
    (i.config.trackRef = false → ∀ f ∈ s.fields, ¬f.Exposed) := by
  obtain ⟨name, found⟩ := Registry.hasStruct_of_structOf? own
  have built := reachable.sound.built sane
  have registered : ∀ s, i.environment.registry.HasStruct s → s.Planned := built.planned
  have struct := built.built found
  have described := reachable.described sane found
  rw [compatible] at struct described
  have keys := described.distinctKeys struct.names
  obtain rfl := described.told_of_same short front same stands received
  have layout : (i.registry.peerOf s header).sameLayout = true :=
    (Registry.sameLayout_peerOf own).trans (decide_eq_true front)
  obtain ⟨fields, missing⟩ := Registry.fields_peerOf own keys keys
  rw [StructType.missing_eq_nil (rfl : s.told header = s.told header) keys] at missing
  refine ⟨layout, fun levels slot st planned => ?_, fun untracked f member => ?_⟩
  · refine (reconciled_cases (present_payload levels) (Registry.own_peerOf own)
      (Registry.typeName_peerOf own) fields missing
      (described.mirrors struct.names struct.kind_eq) slot st).imp_left fun plain => ?_
    have ownPath : peerRecord i.environment (payload i.environment levels)
        (i.registry.peerOf s header) slot =
          record i.environment (payload i.environment levels) s false slot := by
      unfold peerRecord
      rw [layout, Registry.own_peerOf own]
    show Agree _ (peerRecord _ _ (i.registry.peerOf s header) slot st)
      (reconciled _ _ (i.registry.peerOf s header) slot st)
    rw [ownPath, plain]
    exact (alike_stepwise registered (registered s ⟨name, found⟩) levels slot st planned).symm
  · have resolved := struct.resolved f member
    rw [untracked] at resolved
    exact Field.not_exposed resolved.untracked

/-- A fresh instance, in compatible mode and with references, that knows a struct. -/
def remembering (fields : List FieldDecl) : Instance :=
  [.setCompatible true, .setTrackRef true,
    .registerStruct (some 1) ⟨.ofNames "demo" "T", none, false, fields⟩].foldl perform fresh

/-- A reference to a number that may be null. -/
def mark : FieldDecl :=
  { FieldDecl.ofShape "b" (.scalar .int32) with refEligible := true, nullable := true }

/-- A reference to a number that may not be null and has a default. -/
def counter : FieldDecl :=
  { FieldDecl.ofShape "a" (.scalar .int32) with refEligible := true, constant := some (.int 7) }

open Read in
/-- Nothing sets the two ways of reading apart where the only field may be null. -/
theorem sameLayout_agrees_for_mark : ∃ s header after d r',
    (remembering [mark]).Reachable ∧ (remembering [mark]).fault = none ∧
    (remembering [mark]).config.compatible = true ∧ s.Short ∧ s.header? = some header ∧
    s.definition = some (Encode.signed 8 header ++ after) ∧
    TypeDefinition.decodeAfter header (.ofBytes after) = .ok d r' ∧
    (remembering [mark]).registry.structOf? d.identity = some s ∧
    ∀ levels slot st, st.Planned →
      Agree (fun _ => True)
        (peerRecord (remembering [mark]).environment (payload (remembering [mark]).environment levels)
          (.ofDefinition (remembering [mark]).registry header d) slot st)
        (reconciled (remembering [mark]).environment (payload (remembering [mark]).environment levels)
          (.ofDefinition (remembering [mark]).registry header d) slot st) := by
  have reachable : (remembering [mark]).Reachable := ⟨_, rfl⟩
  have sane : (remembering [mark]).fault = none := by decide +kernel
  have compatible : (remembering [mark]).config.compatible = true := by decide +kernel
  have known : ((remembering [mark]).registry.struct? "demo.T").any (fun s =>
      s.Short ∧ s.id = some 1 ∧ ∀ f ∈ s.fields, f.nullable = true) = true := by decide +kernel
  obtain ⟨s, found, checks⟩ := (Option.any_eq_true _ _).1 known
  obtain ⟨short, ident, nullable⟩ := of_decide_eq_true checks
  have described := reachable.described sane found
  rw [compatible] at described
  obtain ⟨header, after, tells⟩ := described.tells short
  obtain ⟨position, received⟩ := tells.read 0 []
  rw [List.append_nil] at received
  have own := Registry.structOf?_told reachable.sound.registry (reachable.sound.built sane) found ident
    ident header
  have stands : (Reader.ofBytes after).rest = after ++ [] := (List.append_nil after).symm
  obtain ⟨-, agree, -⟩ := sameLayout_agrees_with_reconciled reachable sane compatible short tells.front
    tells.definition stands received own
  refine ⟨s, header, after, _, _, reachable, sane, compatible, short, tells.front, tells.definition,
    received, own, fun levels slot st planned => (agree levels slot st planned).resolve_right ?_⟩
  rintro ⟨before, f, rest, _, _, fields, exposed, -⟩
  have member : f ∈ s.fields := fields ▸ List.mem_append_right before List.mem_cons_self
  exact absurd exposed.required (by rw [nullable f member]; decide)

/-- The nodes that a reader makes of a null. -/
def readNull (m : Read Value) : Option Graph :=
  match m.run (.ofBytes [253] .empty) with
  | .ok _ st => some st.graph
  | .error _ _ => none

/-- Whether a definition of a struct is our own, and what is read of a null in the place of its only
field: by our fields, and by those of the definition. -/
def nullReadings (i : Instance) (s : StructType) (header : Int) : Bool × Option Graph × Option Graph :=
  let p := i.registry.peerOf s header
  let inner := Read.payload i.environment i.config.maxDepth
  (p.sameLayout, readNull (Read.peerRecord i.environment inner p none),
    readNull (Read.reconciled i.environment inner p none))

/-- Our fields leave the number unset, those of the definition give it its default. -/
theorem nullReadings_counter :
    (((remembering [counter]).registry.struct? "demo.T").bind fun s =>
      s.header?.map (nullReadings (remembering [counter]) s)) =
    some (true, some ⟨#[.record (.ofType "demo.T")]⟩,
      some ⟨#[.record ((Record.ofType "demo.T").set "a" (.int ⟨.int32, 7, by decide⟩))]⟩) := by
  decide +kernel

end Instance

end Graphwire
