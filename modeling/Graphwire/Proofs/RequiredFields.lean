import Graphwire.Proofs.Levels

/-!
# Required fields

A field that may be neither null nor a reference has to be there when its record is written. A writer
that tracks references goes down to a node once, and may meet it again inside of itself. So what was
written of a value is told up to the nodes that were seen, and of these all are done but the ones that
the writer is still in. Once it is through, whatever is written of the value is complete.
-/

namespace Graphwire

set_option autoImplicit false

/-! ## Complete nodes -/

/-- Whether a record of a registered struct has all fields that may be neither null nor a
reference. -/
def Node.Complete (types : Registry) : Node → Prop
  | .record r => ∀ s, types.struct? r.typeName = some s → ∀ f ∈ s.fields, f.refMode = .none →
      (r.value f.name).isNull = false
  | _ => True

namespace Graph

/-- Whether all nodes that a value leads to through what is written are complete, down to nodes that
were seen. -/
inductive Covered (types : Registry) (g : Graph) (seen : List Handle) : Value → Prop where
  | scalar {v : Value} (scalar : v.handle? = none) : Covered types g seen v
  | seen {h : Handle} (member : h ∈ seen) : Covered types g seen (.handle h)
  | node {h : Handle} (complete : (g.node h).Complete types)
      (parts : ∀ part ∈ (g.node h).written types, Covered types g seen part) :
      Covered types g seen (.handle h)

/-- Whether a node is complete, and so is all that it leads to, down to nodes that were seen. -/
structure Done (types : Registry) (g : Graph) (seen : List Handle) (h : Handle) : Prop where
  complete : (g.node h).Complete types
  parts : ∀ part ∈ (g.node h).written types, g.Covered types seen part

variable {types : Registry} {g : Graph} {seen seen' : List Handle} {v : Value} {h : Handle}

theorem Covered.mono (covered : g.Covered types seen v) (sub : seen ⊆ seen') :
    g.Covered types seen' v := by
  induction covered with
  | scalar scalar => exact .scalar scalar
  | seen member => exact .seen (sub member)
  | node complete _ ih => exact .node complete ih

theorem Done.mono (done : g.Done types seen h) (sub : seen ⊆ seen') : g.Done types seen' h :=
  ⟨done.complete, fun part member => (done.parts part member).mono sub⟩

/-- Where everything that was seen is done, everything that a covered value leads to is complete. -/
theorem Covered.complete_of_reached (covered : g.Covered types seen v)
    (settled : ∀ k ∈ seen, g.Done types seen k)
    (reached : Relation.ReflTransGen (g.Writes types) v (.handle h)) :
    (g.node h).Complete types := by
  have done : ∀ k, g.Covered types seen (.handle k) → g.Done types seen k := by
    intro k covered
    cases covered with
    | scalar scalar => cases scalar
    | seen member => exact settled k member
    | node complete parts => exact ⟨complete, parts⟩
  have along : ∀ w, Relation.ReflTransGen (g.Writes types) v w → g.Covered types seen w := by
    intro w reached
    induction reached with
    | refl => exact covered
    | tail _ step ih =>
      obtain ⟨k, rfl, member⟩ := step
      exact (done k ih).parts _ member
  exact (done h (along _ reached)).complete

end Graph

/-! ## Writers -/

/-- Whether all handles that a writer has seen are done, apart from those that it is in. -/
structure WriteState.Settled (env : Environment) (g : Graph) (within : List Handle)
    (ws : WriteState) : Prop where
  made : ws.Made env
  done : ∀ h ∈ ws.seen.handles, h ∈ within ∨ g.Done env.registry ws.seen.handles h

/-- Whether a settled writer has come to a settled state, and has seen no less than before. -/
structure WriteState.Settles (env : Environment) (g : Graph) (within : List Handle)
    (ws ws' : WriteState) : Prop extends ws'.Settled env g within where
  seen : ws.seen.handles ⊆ ws'.seen.handles

section

variable {env : Environment} {g : Graph} {within : List Handle} {ws ws₁ ws₂ : WriteState}

theorem WriteState.Settled.refl (settled : ws.Settled env g within) : ws.Settles env g within ws :=
  ⟨settled, List.Subset.refl _⟩

theorem WriteState.Settles.trans (first : ws.Settles env g within ws₁)
    (second : ws₁.Settles env g within ws₂) : ws.Settles env g within ws₂ :=
  ⟨second.toSettled, List.Subset.trans first.seen second.seen⟩

/-- A settled writer goes into a node that it has not seen. -/
theorem WriteState.Settled.enter (settled : ws.Settled env g within) (h : Handle) :
    WriteState.Settled env g (h :: within) { ws with seen := ⟨ws.seen.handles ++ [h]⟩ } := by
  refine ⟨settled.made, fun k member => ?_⟩
  rcases List.mem_append.1 member with old | new
  · rcases settled.done k old with inside | done
    · exact .inl (List.mem_cons_of_mem _ inside)
    · exact .inr (done.mono (List.subset_append_left _ _))
  · exact .inl (List.mem_singleton.1 new ▸ List.mem_cons_self)

/-- A node that is done may be left. -/
theorem WriteState.Settled.leave {h : Handle} (settled : ws.Settled env g (h :: within))
    (done : g.Done env.registry ws.seen.handles h) : ws.Settled env g within := by
  refine ⟨settled.made, fun k member => ?_⟩
  rcases settled.done k member with inside | done'
  · rcases List.mem_cons.1 inside with rfl | inside
    · exact .inr done
    · exact .inl inside
  · exact .inr done'

end

namespace Write

variable {env : Environment} {g : Graph} {ws : WriteState} {v : Value} {within : List Handle}

/-- Writing one thing after the other settles, if writing each does; what holds of each stays as more
is seen. -/
theorem ensures_concat_settles {α : Type} {write : α → Write (List UInt8)}
    {P : α → List Handle → Prop} (grows : ∀ a seen seen', seen ⊆ seen' → P a seen → P a seen')
    {items : List α} (before : ws.Settled env g within)
    (step : ∀ a ∈ items, ∀ ws, ws.Settled env g within → Ensures (write a) ws fun _ ws' =>
      ws.Settles env g within ws' ∧ P a ws'.seen.handles) :
    Ensures (concat write items) ws fun _ ws' =>
      ws.Settles env g within ws' ∧ ∀ a ∈ items, P a ws'.seen.handles := by
  induction items generalizing ws with
  | nil => exact .pure ⟨before.refl, fun _ member => absurd member List.not_mem_nil⟩
  | cons a items ih =>
    refine (step a List.mem_cons_self ws before).bind fun _ ws₁ first => ?_
    refine (ih first.1.toSettled fun b member => step b (List.mem_cons_of_mem _ member)).bind
      fun _ ws₂ others => .pure ⟨first.1.trans others.1, List.forall_mem_cons.2 ⟨?_, others.2⟩⟩
    exact grows a _ _ others.1.seen first.2

/-- Whether a writer of payloads is done with the nodes that it writes. -/
def Finishes (env : Environment) (g : Graph) (inner : WritePayload) : Prop :=
  ∀ wire shape v within (ws : WriteState), wire.Governs env g v → ws.Settled env g within →
    Ensures (inner wire shape v) ws fun _ ws' => ws.Settles env g within ws' ∧
      ∀ h, v = .handle h → g.Done env.registry ws'.seen.handles h

variable (built : env.registry.BuiltFor env.config.compatible env.config.trackRef)
  {inner : WritePayload} (finishes : Finishes env g inner)

include built finishes

theorem ensures_typed_settles {hasType : Bool} {shape : Shape} (before : ws.Settled env g within) :
    Ensures (typed env g inner hasType shape v) ws fun _ ws' => ws.Settles env g within ws' ∧
      ∀ h, v = .handle h → g.Done env.registry ws'.seen.handles h := by
  refine ensures_typed_governs built before.made (Q := fun ws' => ws.Settles env g within ws' ∧
    ∀ h, v = .handle h → g.Done env.registry ws'.seen.handles h) fun wire ws₁ governs made same => ?_
  have settled : ws₁.Settled env g within := ⟨made, by rw [same]; exact before.done⟩
  exact (finishes wire shape v within ws₁ governs settled).mono fun _ ws' after =>
    ⟨⟨after.1.toSettled, same ▸ after.1.seen⟩, after.2⟩

/-- A value is covered once it is written: it has no node, or its node is done. -/
theorem ensures_typed_covered {hasType : Bool} {shape : Shape} (before : ws.Settled env g within) :
    Ensures (typed env g inner hasType shape v) ws fun _ ws' =>
      ws.Settles env g within ws' ∧ g.Covered env.registry ws'.seen.handles v := by
  refine (ensures_typed_settles built finishes before).mono fun _ ws' after => ⟨after.1, ?_⟩
  cases v with
  | handle h => exact .node (after.2 h rfl).complete (after.2 h rfl).parts
  | _ => exact .scalar rfl

/-- A value that is tracked is covered: it has no node, its node was seen before, or it is done now. -/
theorem ensures_tracked_covered {hasType : Bool} {shape : Shape}
    (before : ws.Settled env g within) :
    Ensures (marked env g inner .tracking hasType shape v) ws fun _ ws' =>
      ws.Settles env g within ws' ∧ g.Covered env.registry ws'.seen.handles v := by
  cases handle : v.handle? with
  | none =>
    refine ensures_marked (SeenHandles.mark_scalar handle) (fun _ => ?_) fun _ => ?_
    · exact ⟨before.refl, .scalar handle⟩
    · exact ensures_typed_covered built finishes before
  | some h =>
    cases v <;> cases handle
    by_cases member : h ∈ ws.seen.handles
    · obtain ⟨_, -, marking⟩ := SeenHandles.mark_known member
      exact ensures_marked marking (fun _ => ⟨before.refl, .seen member⟩) nofun
    · refine ensures_marked (SeenHandles.mark_new member) nofun fun _ => ?_
      refine (ensures_typed_settles built finishes (before.enter h)).mono fun _ ws' after => ?_
      have seen := List.append_subset.1 after.1.seen
      exact ⟨⟨after.1.toSettled.leave (after.2 h rfl), seen.1⟩,
        .seen (seen.2 (List.mem_singleton_self h))⟩

theorem ensures_marked_covered {mode : RefMode} {hasType : Bool} {shape : Shape}
    (before : ws.Settled env g within) :
    Ensures (marked env g inner mode hasType shape v) ws fun _ ws' =>
      ws.Settles env g within ws' ∧ g.Covered env.registry ws'.seen.handles v := by
  by_cases tracked : mode = .tracking
  · subst tracked
    exact ensures_tracked_covered built finishes before
  · refine ensures_marked_untracked tracked (fun null _ => ?_) fun _ => ?_
    · subst null
      exact ⟨before.refl, .scalar rfl⟩
    · exact (ensures_typed_covered built finishes before).mono fun _ _ after =>
        ⟨fun _ => after, fun _ => after⟩

theorem ensures_items_settle {shape : Shape} {elements : List Value}
    (before : ws.Settled env g within) :
    Ensures (items env g inner shape elements) ws fun _ ws' => ws.Settles env g within ws' ∧
      ∀ part ∈ elements, g.Covered env.registry ws'.seen.handles part :=
  ensures_items (ensures_concat_settles (P := fun v seen => g.Covered env.registry seen v)
    (fun _ _ _ sub covered => covered.mono sub) before
    fun _ _ _ settled => ensures_marked_covered built finishes settled)

theorem ensures_entries_settle {shape : Shape} {pairs : List (Value × Value)}
    (before : ws.Settled env g within) :
    Ensures (entries env g inner shape pairs) ws fun _ ws' => ws.Settles env g within ws' ∧
      ∀ part ∈ (Node.map pairs).contents, g.Covered env.registry ws'.seen.handles part := by
  refine Ensures.mono (ensures_entries (Q := fun _ ws' => ws.Settles env g within ws' ∧
    ∀ pair ∈ pairs, g.Covered env.registry ws'.seen.handles pair.1 ∧
      g.Covered env.registry ws'.seen.handles pair.2) (ensures_concat_settles
        (P := fun (pair : Value × Value) seen => g.Covered env.registry seen pair.1 ∧
          g.Covered env.registry seen pair.2)
        (fun _ _ _ sub h => ⟨h.1.mono sub, h.2.mono sub⟩) before fun pair _ ws settled => ?_)) ?_
  · refine (ensures_marked_covered built finishes settled).bind fun _ ws₁ key => ?_
    refine (ensures_marked_covered built finishes key.1.toSettled).bind fun _ ws₂ value => .pure ?_
    exact ⟨key.1.trans value.1, key.2.mono value.1.seen, value.2⟩
  · rintro _ ws' ⟨settles, covered⟩
    exact ⟨settles, Node.forall_contents_map.2 covered⟩

/-- A record that is written by its struct is complete. -/
theorem ensures_record_settles (strategy : env.config.strategy = .interpreted) {s : StructType}
    {strict : Bool} {r : Record} (governs : s.Governs env r) (before : ws.Settled env g within) :
    Ensures (record env g inner s strict r) ws fun _ ws' => ws.Settles env g within ws' ∧
      (Node.record r).Complete env.registry ∧
      ∀ part ∈ (Node.record r).written env.registry, g.Covered env.registry ws'.seen.handles part := by
  refine Ensures.mono (ensures_record (Q := fun _ ws' => ws.Settles env g within ws' ∧
    ∀ f ∈ s.fields, (f.refMode = .none → (r.value f.name).isNull = false) ∧
      g.Covered env.registry ws'.seen.handles (r.value f.name)) strategy
      (ensures_concat_settles (P := fun (f : Field) seen =>
        (f.refMode = .none → (r.value f.name).isNull = false) ∧
          g.Covered env.registry seen (r.value f.name))
        (fun _ _ _ sub h => ⟨h.1, h.2.mono sub⟩) before fun f member ws settled => ?_)) ?_
  · unfold field
    dsimp only
    split
    · exact .throw _
    · rename_i present
      refine (ensures_marked_covered built finishes settled).mono fun _ ws' after =>
        ⟨after.1, fun required => ?_, after.2⟩
      simpa [required] using present
  · rintro _ ws' ⟨settles, fields⟩
    refine ⟨settles, fun own found f member => ?_, fun part member => ?_⟩
    · cases governs.own own found
      exact (fields f member).1
    · obtain ⟨f, declared, rfl⟩ := governs.fields part member
      exact (fields f declared).2

omit finishes in
theorem finishes_layer (strategy : env.config.strategy = .interpreted) {write : Option WritePayload}
    (deeper : ∀ inner, write = some inner → Finishes env g inner) :
    Finishes env g (layer env g write) := by
  -- A value whose node is written, with all that is written of the node, is done.
  have node {m : Write (List UInt8)} {v : Value} {n : Node} {ws : WriteState} {within : List Handle}
      (found : g.nodeOf? v = some n)
      (run : Ensures m ws fun _ ws' => ws.Settles env g within ws' ∧ n.Complete env.registry ∧
        ∀ part ∈ n.written env.registry, g.Covered env.registry ws'.seen.handles part) :
      Ensures m ws fun _ ws' => ws.Settles env g within ws' ∧
        ∀ h, v = .handle h → g.Done env.registry ws'.seen.handles h :=
    run.mono fun _ ws' after => ⟨after.1, fun h same => by
      subst same
      cases found
      exact ⟨after.2.1, after.2.2⟩⟩
  intro wire shape v within ws governs before
  apply ensures_layer
  case scalar =>
    intro t bytes _ _ written
    refine ⟨before.refl, fun h same => ?_⟩
    subst same
    exact absurd written Graph.encodeScalar_handle_ne_ok
  case list | set =>
    intro inner elements known found _
    exact node found ((ensures_items_settle built (deeper inner known) before).mono
      fun _ _ after => ⟨after.1, trivial, after.2⟩)
  case map =>
    intro inner pairs known found _
    exact node found ((ensures_entries_settle built (deeper inner known) before).mono
      fun _ _ after => ⟨after.1, trivial, after.2⟩)
  case struct =>
    rintro inner s strict r known rfl isRecord named
    exact node (Graph.nodeOf?_of_asRecord? isRecord)
      (ensures_record_settles built (deeper inner known) strategy (governs r isRecord named) before)
  case member =>
    rintro typeName members name ordinal - rfl
    exact ⟨before.refl, nofun⟩

omit finishes in
theorem finishes_payload (strategy : env.config.strategy = .interpreted) (levels : Nat) :
    Finishes env g (payload env g levels) := by
  induction levels with
  | zero => exact finishes_layer built strategy fun _ known => by cases known
  | succ levels ih =>
    exact finishes_layer built strategy fun _ known => by
      cases known
      exact ih

end Write

/-! ## Instances -/

namespace Instance

/-- Everything that is written of a value is complete, if the value is written. -/
theorem Reachable.complete_of_serialize {i : Instance} (reachable : i.Reachable) {g : Graph}
    {v : Value} {bytes : List UInt8} (written : i.serialize g v = .ok bytes) {h : Handle}
    (reached : Relation.ReflTransGen (g.Writes i.registry) v (.handle h)) :
    (g.node h).Complete i.registry := by
  have sane := sane_of_serialize written
  obtain ⟨-, ⟨rfl, -⟩ | ⟨-, body, ws, -, run⟩⟩ :=
    ok_of_serialize (reachable.serialize_interpreted written)
  · rcases Relation.ReflTransGen.cases_head reached with same | ⟨_, step, -⟩
    · cases same
    · obtain ⟨_, same, -⟩ := step
      cases same
  let env := (i.setStrategy .interpreted).environment
  have built : env.registry.BuiltFor env.config.compatible env.config.trackRef :=
    reachable.sound.built sane
  have start : WriteState.initial.Settled env g [] :=
    ⟨WriteState.made_initial _, fun _ member => absurd member List.not_mem_nil⟩
  have after := Write.ensures_marked_covered built (Write.finishes_payload built rfl _) start body ws
    run
  exact after.2.complete_of_reached
    (fun k member => (after.1.done k member).resolve_left List.not_mem_nil) reached

/-- A value is not written if it leads to a record in which a field is null that may neither be null
nor be tracked. -/
theorem Reachable.serialize_incomplete {i : Instance} (reachable : i.Reachable) {g : Graph}
    {v : Value} {h : Handle} {r : Record} {s : StructType} {f : Field}
    (reached : Relation.ReflTransGen (g.Writes i.registry) v (.handle h))
    (node : g.node h = .record r) (registered : i.registry.struct? r.typeName = some s)
    (declared : f ∈ s.fields) (required : f.nullable = false)
    (untracked : (f.refEligible && i.config.trackRef) = false)
    (missing : r.value f.name = .null) : ∃ e, i.serialize g v = .error e := by
  cases written : i.serialize g v with
  | error e => exact ⟨e, rfl⟩
  | ok bytes =>
    have built := (reachable.sound.built (sane_of_serialize written)).built registered
    have noMarker : f.refMode = .none := by
      rw [Field.refMode, required, (built.resolved f declared).tracked, untracked]
      rfl
    have complete := reachable.complete_of_serialize written reached
    rw [node] at complete
    have present := complete s registered f declared noMarker
    rw [missing] at present
    cases present

/-- An instance that tracks references. It knows a struct with one field. -/
def tracking (field : FieldDecl) : Instance :=
  [.setTrackRef true, .registerStruct (some 1) ⟨.ofNames "demo" "T", none, false, [field]⟩].foldl
    perform fresh

/-- The instance whose struct has a number, which must be there. -/
def counting : Instance := tracking (.ofShape "count" (.scalar .int32))

/-- A list that holds itself and a record without fields. -/
def loop : Graph :=
  ⟨#[.list [.handle ⟨0⟩, .handle ⟨1⟩], .record (.ofType "demo.T")]⟩

theorem serialize_incomplete_loop :
    Relation.ReflTransGen (loop.Writes counting.registry) (.handle ⟨0⟩) (.handle ⟨1⟩) ∧
      ∃ s f, counting.registry.struct? "demo.T" = some s ∧ f ∈ s.fields ∧ f.nullable = false ∧
        (f.refEligible && counting.config.trackRef) = false ∧
        (Record.ofType "demo.T").value f.name = .null ∧
        ∃ e, counting.serialize loop (.handle ⟨0⟩) = .error e := by
  have leads : Relation.ReflTransGen (loop.Writes counting.registry) (.handle ⟨0⟩) (.handle ⟨1⟩) :=
    .single ⟨⟨0⟩, rfl, List.mem_cons_of_mem _ List.mem_cons_self⟩
  have known : ((counting.registry.struct? "demo.T").any fun s => s.fields.any fun f =>
      !f.nullable && !(f.refEligible && counting.config.trackRef)) = true := by
    decide +kernel
  obtain ⟨s, found, some⟩ := (Option.any_eq_true _ _).1 known
  obtain ⟨f, member, fits⟩ := List.any_eq_true.1 some
  rw [Bool.and_eq_true, Bool.not_eq_true', Bool.not_eq_true'] at fits
  exact ⟨leads, s, f, found, member, fits.1, fits.2, rfl,
    Reachable.serialize_incomplete ⟨_, rfl⟩ leads rfl found member fits.1 fits.2 rfl⟩

/-- A field that must be there is not asked for where it is tracked: a null is written for it. -/
example :
    ((tracking { FieldDecl.ofShape "a" (.scalar .int32) with refEligible := true }).serialize loop
      (.handle ⟨1⟩)).toOption = some [0xd4, 0x62, 6, 0, 27, 1, 0x38, 0xa2, 0xcc, 0x38, 0xfd] := by
  decide +kernel

end Instance

end Graphwire
