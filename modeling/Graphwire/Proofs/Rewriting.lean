import Graphwire.Proofs.Conforming
import Graphwire.Proofs.Guardrails
import Graphwire.Proofs.References

/-!
# Writing what was read

A reader in strict mode accepts only records that fit their types, but takes the word of its input for
the elements of containers, for shared and cyclic values and for the names of unknown types, and where
a type definition describes a record also for its fields. Where these do no harm, a value that was
read is written again by the same instance, and comes back.
-/

namespace Graphwire

set_option autoImplicit false

/-! ## Presentable trees -/

/-- Whether a scalar that was read can be told again: a text is admitted by its bytes, and the name of
an enumeration leads to it, with the member. -/
structure Value.Presentable (env : Environment) (p : Place) (v : Value) : Prop where
  text : ∀ s, v = .string s → env.config.limits.AdmitsText s
  short : ∀ name ordinal, v = .enum name ordinal → (Utf8.encode name).length < 2 ^ 62
  member : ∀ name ordinal e, v = .enum name ordinal → env.registry.enum? name = some e →
    ordinal < e.members.length
  told : p.typed = true → ∀ name ordinal, v = .enum name ordinal → env.telling.enum name

/-- Whether a record is of a registered type, with values that fit for some of its fields and for all
that may not be null. -/
structure Environment.Completes (env : Environment) (typeName : String)
    (fields : List (String × Tree)) : Prop where
  registered : ∃ s, env.registry.struct? typeName = some s ∧
    ∀ f ∈ s.fields, f.nullable = false → (fields.lookup f.name).isSome = true
  declared : ∀ e ∈ fields, e.2.isNull = false ∧
    ∃ f, env.registry.field? typeName e.1 = some f ∧ env.Fits (env.fieldPlace f) e.2

/-- Whether what a reader leaves to its input does no harm: elements fit the shapes that stand for
their types, texts and types can be told, and records that a definition may have described are
complete. -/
inductive Tree.Presentable (env : Environment) (defined : Prop) : Place → Tree → Prop where
  | leaf {p : Place} {v : Value} (value : v.Presentable env p) : Presentable env defined p (.leaf v)
  | list {p : Place} {elements : List Tree}
      (fits : ∀ t ∈ elements, env.Fits (env.elementPlace p.shape.parts.1) t)
      (parts : ∀ t ∈ elements, Presentable env defined (env.elementPlace p.shape.parts.1) t) :
      Presentable env defined p (.list elements)
  | set {p : Place} {elements : List Tree}
      (fits : ∀ t ∈ elements, env.Fits (env.elementPlace p.shape.parts.1) t)
      (parts : ∀ t ∈ elements, Presentable env defined (env.elementPlace p.shape.parts.1) t) :
      Presentable env defined p (.set elements)
  | map {p : Place} {entries : List (Tree × Tree)}
      (fits : ∀ e ∈ entries, env.Fits (env.elementPlace p.shape.parts.1) e.1 ∧
        env.Fits (env.elementPlace p.shape.parts.2) e.2)
      (keys : ∀ e ∈ entries, Presentable env defined (env.elementPlace p.shape.parts.1) e.1)
      (values : ∀ e ∈ entries, Presentable env defined (env.elementPlace p.shape.parts.2) e.2) :
      Presentable env defined p (.map entries)
  | record {p : Place} {typeName : String} {fields : List (String × Tree)}
      (told : p.typed = true → env.telling.record typeName)
      (complete : defined → env.Completes typeName fields)
      (parts : ∀ e ∈ fields, ∀ f, env.registry.field? typeName e.1 = some f →
        Presentable env defined (env.fieldPlace f) e.2) :
      Presentable env defined p (.record typeName fields)

/-- Whether the defaults that were put into the records that a value reaches conform to the fields
that they are in. -/
def Graph.DefaultsConform (env : Environment) (g : Graph) (v : Value) (filled : List Filling) : Prop :=
  ∀ x ∈ filled, g.Reaches env.registry v x.record → ∀ r f t, g.node x.record = .record r →
    r.get? x.field = some x.value → env.registry.field? r.typeName x.field = some f →
    g.Unfolds x.value t → t.Conforms env (env.fieldPlace f)

/-- The strategy does not matter to what is presentable. -/
theorem Tree.Presentable.following {env : Environment} {defined : Prop} {p : Place} {t : Tree}
    (h : t.Presentable env defined p) (strategy : Strategy) :
    t.Presentable (env.following strategy) defined p := by
  induction h with
  | leaf value => exact .leaf ⟨value.text, value.short, value.member, value.told⟩
  | list fits _ ih => exact .list fits ih
  | set fits _ ih => exact .set fits ih
  | map fits _ _ keys values => exact .map fits keys values
  | record told complete _ ih =>
    exact .record told (fun met => ⟨(complete met).registered, (complete met).declared⟩) ih

/-- The strategy does not matter to what conforms. -/
theorem Tree.Conforms.following {env : Environment} {p : Place} {t : Tree} (h : t.Conforms env p)
    (strategy : Strategy) : t.Conforms (env.following strategy) p := by
  induction h with
  | leaf fits value =>
    exact .leaf fits ⟨value.exact, value.short, value.admitted, value.member, value.registered,
      value.told⟩
  | list fits count admitted _ ih => exact .list fits count admitted ih
  | set fits count admitted _ ih => exact .set fits count admitted ih
  | map fits count admitted _ _ keys values => exact .map fits count admitted keys values
  | record fits found told declared present _ ih =>
    exact .record fits found told declared present ih

section

variable {env : Environment} {a : Account}

theorem Value.Presentable.conforms {p : Place} {v : Value} (h : v.Presentable env p)
    (accepted : v.Accepted env a) (scalar : v.handle? = none) : v.Conforms env p := by
  have member := h.member
  have told := h.told
  cases v with
  | handle k => cases scalar
  | «enum» name ordinal =>
    refine ⟨trivial, ⟨h.short name ordinal rfl, accepted.1⟩, trivial, member, ?_, told⟩
    rintro required _ _ ⟨⟩
    obtain ⟨e, found, -⟩ := accepted.2 required
    exact ⟨e, found⟩
  | string s =>
    have text := h.text s rfl
    exact ⟨trivial, text.short, text.admitted, member, fun _ _ _ same => (by cases same), told⟩
  | binary bytes =>
    exact ⟨accepted.1, accepted.1, accepted.2, member, fun _ _ _ same => (by cases same), told⟩
  | timestamp instant =>
    exact ⟨accepted.1, trivial, trivial, member, fun _ _ _ same => (by cases same), told⟩
  | _ => exact ⟨trivial, trivial, trivial, member, fun _ _ _ same => (by cases same), told⟩

/-- A record that was accepted as one of a registered type is complete. -/
theorem Record.Accepted.completes (strict : env.Strict) {r : Record} {s : StructType}
    {fields : List (String × Tree)} (found : env.registry.struct? r.typeName = some s)
    (accepted : r.Accepted env a s.fields)
    (entries : List.Forall₂ (fun x y => x.1 = y.1 ∧ a.graph.Unfolds x.2 y.2) r.fields.entries
      fields) : env.Completes r.typeName fields := by
  refine ⟨⟨s, found, fun f member required => ?_⟩, fun e member => ?_⟩
  · obtain ⟨e, member, name⟩ := accepted.present f member required
    have set := lookup_of_mem r.fields.sorted member
    have rel := rel_lookup entries f.name
    rw [← name, set] at rel
    rw [← name]
    generalize fields.lookup e.1 = tree at rel ⊢
    cases rel
    rfl
  · obtain ⟨e', member, name, unfolds⟩ := mem_of_forall₂ (List.Forall₂.flip entries) member
    obtain ⟨f, declared, same, present, value, suits⟩ := accepted.entries e' member
    have known := Registry.field?_eq_some found (strict.built.built found).names declared
    refine ⟨unfolds.isNull.trans present, f, ?_, ?_⟩
    · rw [← name, ← same, known]
    · rw [strict.fieldPlace]
      exact Environment.Suits.fits (fun _ untyped => suits untyped) unfolds

/-- In a record that was accepted stand values that can have been accepted, and defaults. -/
theorem Node.Accepted.gathered {h : Handle} {r : Record}
    (accepted : (Node.record r).Accepted env a h) : r.Gathered env a h := by
  rcases accepted with ⟨s, -, complete⟩ | ⟨-, gathered⟩
  · intro e member
    obtain ⟨-, -, -, -, value, -⟩ := complete.entries e member
    exact .inl value
  · exact gathered

/-- What a node shows of its contents leads to the node that it holds. -/
theorem Graph.Reaches.content {types : Registry} {g : Graph} {root v : Value} {h k : Handle} {n : Node}
    (reached : g.Reaches types root h) (node : g.node h = n) (member : v ∈ (n.declared types).contents)
    (same : v = .handle k) : g.Reaches types root k :=
  reached.step (by rwa [node, ← same])

/-- A declared field leads to the node that it holds. -/
theorem Graph.Reaches.field {types : Registry} {g : Graph} {root v : Value} {h k : Handle}
    {r : Record} {name : String} {f : Field} (reached : g.Reaches types root h)
    (node : g.node h = .record r) (known : types.field? r.typeName name = some f)
    (member : (name, v) ∈ r.fields.entries) (same : v = .handle k) : g.Reaches types root k := by
  subst same
  refine reached.content node (List.mem_map.2 ⟨_, List.mem_filter.2 ⟨member, ?_⟩, rfl⟩) rfl
  simp only [known]
  rfl

/-- What was accepted and is presentable conforms, if the defaults in it do. -/
theorem Tree.Presentable.conforms (strict : env.Strict) {root : Value}
    (nodes : ∀ h, a.Clear h → (a.graph.node h).Accepted env a h)
    (defaults : a.graph.DefaultsConform env root a.filled) {p : Place} {v : Value} {t : Tree}
    (h : t.Presentable env a.defined p) (unfolds : a.graph.Unfolds v t)
    (reached : ∀ k, v = .handle k → a.graph.Reaches env.registry root k)
    (accepted : v.Accepted env a) (fits : env.Fits p t) : t.Conforms env p := by
  induction h generalizing v with
  | leaf value =>
    cases unfolds with
    | leaf scalar => exact .leaf fits (value.conforms accepted scalar)
  | list elementFits _ ih =>
    cases unfolds with
    | list node elements =>
      have held := nodes _ accepted
      rw [node] at held
      obtain ⟨count, admitted, values⟩ := held
      rw [elements.length_eq] at count admitted
      refine .list fits count admitted fun t member => ?_
      obtain ⟨v, hv, unfolds⟩ := mem_of_forall₂ (List.Forall₂.flip elements) member
      exact ih t member unfolds (fun _ same => (reached _ rfl).content node hv same) (values v hv)
        (elementFits t member)
  | set elementFits _ ih =>
    cases unfolds with
    | set node elements =>
      have held := nodes _ accepted
      rw [node] at held
      obtain ⟨count, admitted, values⟩ := held
      rw [elements.length_eq] at count admitted
      refine .set fits count admitted fun t member => ?_
      obtain ⟨v, hv, unfolds⟩ := mem_of_forall₂ (List.Forall₂.flip elements) member
      exact ih t member unfolds (fun _ same => (reached _ rfl).content node hv same) (values v hv)
        (elementFits t member)
  | map entryFits _ _ ihKeys ihValues =>
    cases unfolds with
    | @map k pairs _ node keys values =>
      have held := nodes _ accepted
      rw [node] at held
      obtain ⟨count, admitted, sides⟩ := held
      rw [List.forall₂_map_left_iff, List.forall₂_map_right_iff] at keys values
      rw [keys.length_eq] at count admitted
      have parts : ∀ v ∈ (Node.map pairs).contents, ∀ k', v = .handle k' →
          a.graph.Reaches env.registry root k' :=
        fun v hv k' same => (reached _ rfl).content node hv same
      rw [Node.forall_contents_map] at parts
      refine .map fits count admitted (fun e member => ?_) fun e member => ?_
      · obtain ⟨pair, hp, unfolds⟩ := mem_of_forall₂ (List.Forall₂.flip keys) member
        exact ihKeys e member unfolds (parts pair hp).1 (sides pair hp).1 (entryFits e member).1
      · obtain ⟨pair, hp, unfolds⟩ := mem_of_forall₂ (List.Forall₂.flip values) member
        exact ihValues e member unfolds (parts pair hp).2 (sides pair hp).2 (entryFits e member).2
  | @record p typeName fields told complete _ ih =>
    cases unfolds with
    | @record k r _ node names values =>
      have held := nodes _ accepted
      rw [node] at held
      have entries := forall₂_entries_iff.2 ⟨names, values⟩
      have complete : env.Completes r.typeName fields := by
        rcases held with ⟨s, found, whole⟩ | ⟨defined, -⟩
        · exact whole.completes strict found entries
        · exact complete defined
      obtain ⟨⟨s, found, present⟩, declared⟩ := complete
      refine .record fits found told (fun e member => ?_) present fun e member f known => ?_
      · obtain ⟨set, f, known, -⟩ := declared e member
        exact ⟨set, Option.isSome_iff_exists.2 ⟨f, known⟩⟩
      · obtain ⟨-, f', known', suits⟩ := declared e member
        cases known.symm.trans known'
        obtain ⟨⟨name, v⟩, member', rfl, unfolds⟩ :=
          mem_of_forall₂ (List.Forall₂.flip entries) member
        rcases held.gathered _ member' with value | ⟨x, noted, rfl, field, value⟩
        · exact ih e member f known unfolds
            (fun _ same => (reached _ rfl).field node known member' same) value suits
        · have set : r.get? x.field = some x.value := by
            rw [field, value]
            exact lookup_of_mem r.fields.sorted member'
          exact defaults x noted (reached _ rfl) r f e.2 node set (field ▸ known) (value ▸ unfolds)

end

/-! ## Instances -/

namespace Instance

/-- What an instance that walks records field by field reads was accepted. -/
theorem accepted_of_frame {i : Instance} (reachable : i.Reachable)
    (strict : (i.setStrategy .interpreted).environment.Strict)
    (untracked : i.config.trackRef = false) {bytes : List UInt8} {v : Value} {st : ReadState}
    (read : Read.frame (i.setStrategy .interpreted).environment i.rootMode
      (.ofBytes bytes i.cache) = .ok v st) :
    (∀ h, st.account.Clear h →
        (st.graph.node h).Accepted (i.setStrategy .interpreted).environment st.account h) ∧
      v.Accepted (i.setStrategy .interpreted).environment st.account := by
  have start : (ReadState.ofBytes bytes i.cache).Sound (i.setStrategy .interpreted).environment :=
    ⟨⟨fun _ member => absurd member List.not_mem_nil, reachable.cache_madeBy⟩,
      fun _ member => absurd member List.not_mem_nil,
      fun number v found => by simp [ReadState.ofBytes, Slots.empty] at found⟩
  obtain ⟨-, gained, accepted⟩ :=
    Read.accepts_frame strict untracked i.rootMode _ start (fun _ same => by cases same) trivial v st read
  exact ⟨fun h clear => gained.new h (Nat.zero_le _) clear, accepted⟩

/-- In strict mode and without references, a value that was read is written again by the same
instance, and comes back, as long as it is a presentable tree and the defaults in it conform. -/
theorem serialize_deserialized {i : Instance} (reachable : i.Reachable)
    (strict : i.config.compatible = false) (untracked : i.config.trackRef = false)
    {bytes : List UInt8} {v : Value} {g : Graph} (read : (i.deserialize bytes).1 = .ok (v, g))
    {t : Tree} (unfolds : g.Unfolds v t) (level : t.Levels i.config.maxDepth)
    (presentable : t.Presentable i.environment (i.met bytes ≠ []) .root)
    (defaults : g.DefaultsConform i.environment v (i.filled bytes)) :
    ∃ again, (i.deserialize bytes).2.serialize g v = .ok again ∧
      ∃ w g', ((i.deserialize bytes).2.deserialize again).1 = .ok (w, g') ∧ g'.Unfolds w t := by
  obtain ⟨sane, st, rfl, run⟩ := ok_of_deserialize read
  rw [i.met_of_sane bytes sane, run] at presentable
  rw [i.filled_of_sane bytes sane, run] at defaults
  have plain := reachable.strict sane strict
  obtain ⟨nodes, accepted⟩ :=
    accepted_of_frame reachable plain untracked (reachable.frame_interpreted sane run)
  have conforms : t.Conforms (i.setStrategy .interpreted).environment .root := by
    have defaults : st.account.graph.DefaultsConform (i.setStrategy .interpreted).environment v
        st.account.filled := fun x noted reached r f t node set known unfolds =>
      (defaults x noted reached r f t node set known unfolds).following _
    exact Tree.Presentable.conforms plain nodes defaults (presentable.following _) unfolds
      (fun k same => .root same) accepted fun _ typed => by cases typed
  obtain ⟨cache, after⟩ := i.deserialize_instance bytes
  have kept : ({ i with cache } : Instance).Reachable := after ▸ reachable.perform (.deserialize bytes)
  rw [after]
  obtain ⟨again, written, w, g', back, same⟩ := interpreted_serialize_conforms
    (i := ({ i with cache } : Instance).setStrategy .interpreted) sane plain untracked unfolds
    conforms level
  refine ⟨again, ?_, w, g', kept.deserialize_eq_ok back, same⟩
  exact (kept.serialize_setStrategy i.config.strategy .interpreted st.graph v).trans written

/-- An instance that knows a struct with a number that has a default. -/
def sized : Instance :=
  [.registerStruct (some 1) ⟨.ofNames "demo" "T", none, false,
    [{ FieldDecl.ofShape "size" (.scalar .int32) with constant := some (.int 7) }]⟩].foldl perform fresh

/-- A frame with the definition of a peer's struct without fields, and a record of it. -/
def sizedFrame : List UInt8 := [212, 98, 6, 255, 28, 0, 2, 64, 37, 128, 228, 220, 128, 73, 0, 1]

def sizedGraph : Graph :=
  ⟨#[.record ((Record.ofType "demo.T").set "size" (.int ⟨.int32, 7, by decide⟩))]⟩

def sizedTree : Tree := .record "demo.T" [("size", .leaf (.int ⟨.int32, 7, by decide⟩))]

theorem sized_fits {n : Integer} (kind : n.kind = .int32) : ∃ f,
    sized.registry.field? "demo.T" "size" = some f ∧
      sized.environment.Fits (sized.environment.fieldPlace f) (.leaf (.int n)) := by
  have declared : (sized.registry.field? "demo.T" "size").any (·.shape = .scalar .int32) = true := by
    decide +kernel
  obtain ⟨f, known, shape⟩ := (Option.any_eq_true _ _).1 declared
  have shape : f.shape = .scalar .int32 := by simpa using shape
  have holds : (Builtin.int .int32 .fixed).Holds (.int n) := kind ▸ .int n .fixed
  refine ⟨f, known, fun _ _ => ⟨.builtin .int32, ?_, .inl ⟨_, _, rfl, rfl, holds⟩⟩⟩
  rw [show (sized.environment.fieldPlace f).shape = f.shape from rfl, shape]
  rfl

theorem sizedTree_presentable (defined : Prop) :
    sizedTree.Presentable sized.environment defined .root := by
  have known : ((sized.registry.struct? "demo.T").any fun s => s.id = some 1 ∧ ∀ f ∈ s.fields,
      f.name = "size") = true := by decide +kernel
  obtain ⟨s, found, checks⟩ := (Option.any_eq_true _ _).1 known
  obtain ⟨ident, names⟩ := of_decide_eq_true checks
  refine .record (fun _ s' found' => ?_) (fun _ => ⟨⟨s, found, fun f member _ => ?_⟩, ?_⟩) ?_
  · cases found.symm.trans found'
    rw [ident]
    show 1 < 2 ^ 32
    decide
  · rw [names f member]
    rfl
  · exact List.forall_mem_singleton.2 ⟨rfl, sized_fits rfl⟩
  · exact List.forall_mem_singleton.2 fun f _ => .leaf ⟨nofun, nofun, nofun, nofun⟩

theorem sized_defaultsConform :
    sizedGraph.DefaultsConform sized.environment (.handle ⟨0⟩) (sized.filled sizedFrame) := by
  have filled : sized.filled sizedFrame =
      [⟨⟨0⟩, "size", .ofScalar (.int ⟨.int32, 7, by decide⟩), 1⟩] := by decide +kernel
  rw [filled]
  intro x member _ r f t node _ known unfolds
  cases List.mem_singleton.1 member
  cases node
  obtain ⟨f', known', fits⟩ := sized_fits (n := ⟨.int32, 7, by decide⟩) rfl
  cases known'.symm.trans known
  cases unfolds
  exact .leaf fits ⟨trivial, trivial, trivial, nofun, fun _ => nofun, fun _ => nofun⟩

/-- The field that the peer left out is written with its default, and the definition is not. -/
theorem serialize_deserialized_sized :
    (sized.deserialize sizedFrame).1 = .ok (.handle ⟨0⟩, sizedGraph) ∧
      sized.met sizedFrame ≠ [] ∧ sized.filled sizedFrame ≠ [] ∧
      sizedGraph.Unfolds (.handle ⟨0⟩) sizedTree ∧ sizedTree.Levels sized.config.maxDepth ∧
      sizedTree.Presentable sized.environment (sized.met sizedFrame ≠ []) .root ∧
      sizedGraph.DefaultsConform sized.environment (.handle ⟨0⟩) (sized.filled sizedFrame) ∧
      ∃ again, (sized.deserialize sizedFrame).2.serialize sizedGraph (.handle ⟨0⟩) = .ok again ∧
        ∃ w g', ((sized.deserialize sizedFrame).2.deserialize again).1 = .ok (w, g') ∧
          g'.Unfolds w sizedTree := by
  have read : (sized.deserialize sizedFrame).1 = .ok (.handle ⟨0⟩, sizedGraph) := by decide +kernel
  have unfolds : sizedGraph.Unfolds (.handle ⟨0⟩) sizedTree :=
    .record (r := (Record.ofType "demo.T").set "size" (.int ⟨.int32, 7, by decide⟩)) rfl rfl
      (.cons (.leaf rfl) .nil)
  have level : sizedTree.Levels sized.config.maxDepth := by
    rw [show sized.config.maxDepth = 50 by decide +kernel]
    exact .record (List.forall_mem_singleton.2 .leaf)
  have presentable := sizedTree_presentable (sized.met sizedFrame ≠ [])
  exact ⟨read, by decide +kernel, by decide +kernel, unfolds, level, presentable,
    sized_defaultsConform, serialize_deserialized ⟨_, rfl⟩ (by decide +kernel) (by decide +kernel)
      read unfolds level presentable sized_defaultsConform⟩

/-- An instance that knows a struct with a list of numbers. -/
def listing : Instance :=
  (fresh.registerStruct (some 1)
    ⟨.ofNames "demo" "L", none, false, [.ofShape "xs" (.list (.scalar .varint32))]⟩).2

/-- An instance that knows a struct with a number that may not be null. -/
def counted : Instance :=
  (fresh.registerStruct (some 1)
    ⟨.ofNames "demo" "T", none, false, [.ofShape "count" (.scalar .varint32)]⟩).2

/-- A header may leave the declared type of elements open, and then a list of numbers may hold a text,
which is not written as a number. A list may come to hold itself, too deep for every writer. A
definition may leave out a field that may not be null and has no default. -/
theorem serialize_deserialized_fails :
    (listing.config.compatible = false ∧ listing.config.trackRef = false ∧
      (listing.deserialize [212, 98, 6, 255, 27, 1, 133, 227, 3, 227, 1, 0, 21, 4, 97]).1 =
        .ok (.handle ⟨0⟩, ⟨#[.record ((Record.ofType "demo.L").set "xs" (.handle ⟨1⟩)),
          .list [.string "a"]]⟩) ∧
      (listing.deserialize [212, 98, 6, 255, 27, 1, 133, 227, 3, 227, 1, 0, 21, 4, 97]).2.serialize
          ⟨#[.record ((Record.ofType "demo.L").set "xs" (.handle ⟨1⟩)), .list [.string "a"]]⟩
          (.handle ⟨0⟩) = .error (.kindMismatch "an integer" "string")) ∧
    (fresh.config.compatible = false ∧ fresh.config.trackRef = false ∧
      (fresh.deserialize [212, 98, 6, 255, 22, 1, 1, 0, 22, 1, 1, 254, 0]).1 =
        .ok (.handle ⟨0⟩, ⟨#[.list [.handle ⟨1⟩], .list [.handle ⟨1⟩]]⟩) ∧
      (fresh.deserialize [212, 98, 6, 255, 22, 1, 1, 0, 22, 1, 1, 254, 0]).2.serialize
          ⟨#[.list [.handle ⟨1⟩], .list [.handle ⟨1⟩]]⟩ (.handle ⟨0⟩) =
        .error (.depthExceeded 50)) ∧
    counted.config.compatible = false ∧ counted.config.trackRef = false ∧
      (counted.deserialize sizedFrame).1 = .ok (.handle ⟨0⟩, ⟨#[.record (.ofType "demo.T")]⟩) ∧
      (counted.deserialize sizedFrame).2.serialize ⟨#[.record (.ofType "demo.T")]⟩ (.handle ⟨0⟩) =
        .error (.fieldMissing "count" "demo.T") := by
  refine ⟨⟨?_, ?_, ?_, ?_⟩, ⟨?_, ?_, ?_, ?_⟩, ?_, ?_, ?_, ?_⟩ <;> decide +kernel

end Instance

end Graphwire
