import Graphwire.Proofs.Accepted
import Graphwire.Proofs.Guardrails
import Graphwire.Proofs.Relabelling
import Graphwire.Proofs.RoundTrip

/-!
# Types that are kept

In strict mode and without references, the types of records and of members of enumerations come back
with the values. A writer that goes through a graph does the same as one that goes through a graph in
which every name that is not written was replaced by the declared one, and compares the types of records
with the declared ones on its way. The replaced names are what a reader puts in.
-/

namespace Graphwire

set_option autoImplicit false

namespace Write

/-! ## Echoes -/

section

variable {α β : Type} {ws : WriteState} {P : α → Prop} {Q : β → Prop}

/-- Whether a writer that succeeds is echoed by another one, with the same result and in the same
state after it. -/
def Echoes (m m' : Write α) (ws : WriteState) (P : α → Prop) : Prop :=
  Ensures m ws fun a ws' => P a ∧ m' ws = .ok (a, ws')

namespace Echoes

theorem pure {a : α} (h : P a) : Echoes (pure a) (pure a) ws P := Ensures.pure ⟨h, rfl⟩

theorem self {m : Write α} (h : Ensures m ws fun a _ => P a) : Echoes m m ws P :=
  fun a ws' run => ⟨h a ws' run, run⟩

theorem throw {m' : Write α} (e : Error) : Echoes (throw e) m' ws P := Ensures.throw e

theorem error {m' : Write α} (e : Error) : Echoes (liftM (.error e : Except Error α)) m' ws P :=
  Ensures.error e

theorem of_ok {x y : Except Error α} (h : ∀ a, x = .ok a → P a ∧ y = .ok a) :
    Echoes (liftM x) (liftM y) ws P :=
  Ensures.lift fun a ok => ⟨(h a ok).1, by rw [(h a ok).2]; rfl⟩

theorem lift {x : Except Error α} (h : ∀ a, x = .ok a → P a) : Echoes (liftM x) (liftM x) ws P :=
  of_ok fun a ok => ⟨h a ok, ok⟩

theorem bind {m m' : Write α} {f f' : α → Write β} (hm : Echoes m m' ws P)
    (hf : ∀ a ws₁, P a → Echoes (f a) (f' a) ws₁ Q) : Echoes (m >>= f) (m' >>= f') ws Q :=
  Ensures.bind hm fun a ws₁ first => (hf a ws₁ first.1).mono fun _ _ then_ =>
    ⟨then_.1, bind_eq_ok_iff.2 ⟨a, ws₁, first.2, then_.2⟩⟩

theorem mono {m m' : Write α} {P' : α → Prop} (h : Echoes m m' ws P) (weaker : ∀ a, P a → P' a) :
    Echoes m m' ws P' :=
  Ensures.mono h fun _ _ after => ⟨weaker _ after.1, after.2⟩

/-- Things that correspond are echoed one after the other. -/
theorem concat {γ : Type} {write : α → Write (List UInt8)} {write' : β → Write (List UInt8)}
    {S : α → γ → Prop} {S' : β → γ → Prop} {R : γ → Prop} {as : List α} {bs : List β} {cs : List γ}
    (first : List.Forall₂ S as cs) (second : List.Forall₂ S' bs cs)
    (step : ∀ a b c, c ∈ cs → S a c → S' b c → ∀ ws, Echoes (write a) (write' b) ws fun _ => R c)
    (ws : WriteState) :
    Echoes (Write.concat write as) (Write.concat write' bs) ws fun _ => ∀ c ∈ cs, R c := by
  induction first generalizing bs ws with
  | nil =>
    cases second
    exact .pure fun _ member => absurd member List.not_mem_nil
  | @cons a c as cs here _ ih =>
    cases second with
    | cons here' others' =>
      refine (step _ _ c List.mem_cons_self here here' ws).bind fun _ ws₁ kept => ?_
      refine (ih others' (fun a b c member => step a b c (List.mem_cons_of_mem _ member)) ws₁).bind
        fun _ _ others => .pure (List.forall_mem_cons.2 ⟨kept, others⟩)

end Echoes

end

/-! ## Values up to names -/

section

variable {env : Environment} {g g' : Graph} {v w : Value} {t : Tree} {p : Place} {ws : WriteState}

/-- In strict mode the name of its type is all that matters of a record. -/
theorem recordType_eq (strict : env.config.compatible = false) (r : Record) :
    recordType env r = match env.registry.struct? r.typeName with
      | some s => pure s
      | none => throw (.recordUnregistered r.typeName) := by
  unfold recordType
  cases env.registry.struct? r.typeName with
  | some s => rfl
  | none =>
    simp only [strict, Bool.not_false, Bool.or_true, if_true]
    funext ws
    rfl

theorem ensures_typeInfo_announces (strict : env.config.compatible = false) :
    Ensures (typeInfo env g v) ws fun i _ => env.Announces g v i.2 := by
  unfold typeInfo
  split
  · rename_i r isRecord
    refine (ensures_recordType strict).bind ?_
    rintro s ws₁ ⟨-, found⟩
    have announced := Environment.Announces.record isRecord found
    split
    · exact .pure announced
    · split
      · exact .pure announced
      · exact Ensures.bind (Q := fun _ _ => True) (fun _ _ _ => trivial) fun _ _ _ => .pure announced
  · split
    · exact .pure (.enum ‹_›)
    · split
      · exact .throw _
      · exact .pure (.unknownEnum ‹_›)
  · split
    · exact .pure (.builtin ‹_› ‹_›)
    · exact .throw _

variable (unfolds : g.Unfolds v t) (unfolds' : g'.Unfolds w (t.labelled env.registry p))

include unfolds unfolds'

theorem isNull_eq : w.isNull = v.isNull := by
  rw [← unfolds.isNull, ← unfolds'.isNull, Tree.isNull_labelled]

/-- Two values that unfold to one tree up to names are scalars that are the same up to names, or have
nodes of one kind. -/
theorem scalar_or_nodes : (v.handle? = none ∧ w = v.labelled env.registry p) ∨
    ∃ h h', v = .handle h ∧ w = .handle h' ∧ (g.node h).kind = (g'.node h').kind := by
  cases unfolds with
  | leaf scalar =>
    rw [Tree.labelled] at unfolds'
    cases unfolds'
    exact .inl ⟨scalar, rfl⟩
  | list node =>
    rw [Tree.labelled] at unfolds'
    cases unfolds' with
    | list node' => exact .inr ⟨_, _, rfl, rfl, by rw [node, node']; rfl⟩
  | set node =>
    rw [Tree.labelled] at unfolds'
    cases unfolds' with
    | set node' => exact .inr ⟨_, _, rfl, rfl, by rw [node, node']; rfl⟩
  | map node =>
    rw [Tree.labelled] at unfolds'
    cases unfolds' with
    | map node' => exact .inr ⟨_, _, rfl, rfl, by rw [node, node']; rfl⟩
  | record node =>
    rw [Tree.labelled] at unfolds'
    generalize same : Tree.record _ _ = u at unfolds'
    cases unfolds' with
    | record node' =>
      injection same with name
      exact .inr ⟨_, _, rfl, rfl, by rw [node, node']; exact congrArg NodeKind.record name⟩
    | _ => cases same

/-- What is told of a type leaves out what was replaced. -/
theorem typeInfo_eq (strict : env.config.compatible = false) (typed : p.typed = true) :
    typeInfo env g' w = typeInfo env g v := by
  rcases scalar_or_nodes unfolds unfolds' with ⟨scalar, rfl⟩ | ⟨h, h', rfl, rfl, kind⟩
  · rw [Value.labelled_of_typed typed]
    cases v <;> first | rfl | cases scalar
  · unfold typeInfo
    simp only [Graph.asRecord?, Graph.inferType?, Graph.nodeOf?, Value.handle?, Option.map_some]
    generalize g.node h = n, g'.node h' = n' at kind
    cases n <;> cases n' <;> simp only [Node.kind, NodeKind.record.injEq, reduceCtorEq] at kind
    · rfl
    · rfl
    · rfl
    · simp only [recordType_eq strict, kind]

end

/-! ## Kept types -/

section

variable {env : Environment} {g g' : Graph}

/-- A tree is of the declared type if it is of the type that it was written as. -/
theorem heeds_of_tells {v : Value} {t : Tree} {p : Place} {wire : WireType}
    (told : env.Tells g p.typed p.shape v wire)
    (h : ∀ named, named.wire = wire → t.IsOf named) : t.Heeds env.registry p := by
  intro named declares
  obtain ⟨untyped, declared⟩ := Place.declaredType_of_type? declares
  rw [untyped] at told
  cases told with
  | declared declared' =>
    rw [declared] at declared'
    exact .inr (h named (Except.ok.inj declared'))

/-- The scalars that can be written are no members of enumerations. -/
theorem encodeScalar_labelled {type : TypeId} {v : Value} {bytes : List UInt8} {types : Registry}
    {p : Place} (written : g.encodeScalar type v = .ok bytes) :
    g'.encodeScalar type (v.labelled types p) = .ok bytes := by
  cases v with
  | handle h => exact absurd written Graph.encodeScalar_handle_ne_ok
  | «enum» name ordinal =>
    unfold Graph.encodeScalar Graph.coerce at written
    cases known : type.builtin? with
    | none =>
      simp only [known] at written
      cases written
    | some b => cases b <;> simp only [known] at written <;> cases written
  | _ => exact written

/-- Whether a writer of payloads that succeeds is echoed by another one, for values that unfold to one
tree up to names, and is a writer of trees that keep their types. -/
def Keeps (env : Environment) (g g' : Graph) (payload payload' : WritePayload) : Prop :=
  ∀ (p : Place) (v w : Value) (t : Tree) (wire : WireType) (ws : WriteState),
    g.Unfolds v t → g'.Unfolds w (t.labelled env.registry p) →
      env.Tells g p.typed p.shape v wire →
      Echoes (payload wire p.shape v) (payload' wire p.shape w) ws fun _ =>
        t.Retains env.registry p (t.delivered env.registry p)

end

section

variable {env : Environment} (strict : env.Strict) (untracked : env.config.trackRef = false)
  {g g' : Graph} {payload payload' : WritePayload} (keeps : Keeps env g g' payload payload')

/-- Values that unfold to the same trees up to names are as many, and are told of by the same header. -/
theorem length_and_header {types : Registry} {p : Place} {vs us : List Value} {ts : List Tree}
    (elements : List.Forall₂ g.Unfolds vs ts)
    (elements' : List.Forall₂ g'.Unfolds us (ts.map (Tree.labelled types p))) (env : Environment)
    (part : Option Shape) : us.length = vs.length ∧
      env.elementHeader part us = env.elementHeader part vs := by
  rw [List.forall₂_map_right_iff] at elements'
  have nulls : us.map Value.isNull = vs.map Value.isNull := by
    have first : vs.map Value.isNull = ts.map Tree.isNull := by
      rw [← List.forall₂_eq_eq_eq, List.forall₂_map_left_iff, List.forall₂_map_right_iff]
      exact elements.imp fun _ _ unfolds => unfolds.isNull.symm
    rw [first, ← List.forall₂_eq_eq_eq, List.forall₂_map_left_iff, List.forall₂_map_right_iff]
    exact elements'.imp fun _ t unfolds => unfolds.isNull.symm.trans (t.isNull_labelled _ _)
  have some : us.any Value.isNull = vs.any Value.isNull := by
    have := congrArg (List.any · id) nulls
    simpa [List.any_map] using this
  refine ⟨by simpa using congrArg List.length nulls, ?_⟩
  rw [Environment.elementHeader, some]
  rfl

include strict keeps

theorem echoes_typed {p : Place} {v w : Value} {t : Tree} (unfolds : g.Unfolds v t)
    (unfolds' : g'.Unfolds w (t.labelled env.registry p)) (ws : WriteState) :
    Echoes (typed env g payload p.typed p.shape v) (typed env g' payload' p.typed p.shape w) ws
      fun _ => t.Retains env.registry p (t.delivered env.registry p) := by
  unfold typed
  cases typed : p.typed with
  | true =>
    have info : Echoes (typeInfo env g v) (typeInfo env g' w) ws fun i => env.Announces g v i.2 := by
      rw [typeInfo_eq unfolds unfolds' strict.compatible typed]
      exact .self (ensures_typeInfo_announces strict.compatible)
    exact info.bind fun i ws₁ announced =>
      (keeps p v w t i.2 ws₁ unfolds unfolds' (typed ▸ .announced announced)).bind
        fun _ _ kept => .pure kept
  | false =>
    exact Echoes.bind (.lift fun _ declared => declared) fun wire ws₁ declared =>
      keeps p v w t wire ws₁ unfolds unfolds' (typed ▸ .declared declared)

theorem echoes_marked {mode : RefMode} (noRef : mode ≠ .tracking) {p : Place} {v w : Value} {t : Tree}
    (unfolds : g.Unfolds v t) (unfolds' : g'.Unfolds w (t.labelled env.registry p))
    (ws : WriteState) :
    Echoes (marked env g payload mode p.typed p.shape v)
      (marked env g' payload' mode p.typed p.shape w) ws
      fun _ => t.Retains env.registry p (t.delivered env.registry p) := by
  have known := echoes_typed strict keeps unfolds unfolds' ws
  unfold marked
  rw [isNull_eq unfolds unfolds']
  cases mode with
  | tracking => exact absurd rfl noRef
  | nullOnly =>
    dsimp only
    split
    · rename_i null
      cases Value.eq_null_of_isNull null
      cases unfolds
      exact .pure (Tree.retains_leaf fun _ _ => .inl rfl)
    · exact known.bind fun _ _ kept => .pure kept
  | none =>
    dsimp only
    split
    · exact .throw _
    · exact known

include untracked

theorem echoes_element {part : Option Shape} {v w : Value} {t : Tree} (unfolds : g.Unfolds v t)
    (unfolds' : g'.Unfolds w (t.labelled env.registry (env.registry.elementPlace part)))
    (elements : List Value) (ws : WriteState) :
    Echoes (element env g payload (env.elementHeader part elements) part v)
      (element env g' payload' (env.elementHeader part elements) part w) ws fun _ =>
      t.Retains env.registry (env.registry.elementPlace part)
        (t.delivered env.registry (env.registry.elementPlace part)) := by
  rw [← strict.elementPlace] at unfolds' ⊢
  exact echoes_marked strict keeps (env.refMode_ne untracked part elements) unfolds unfolds' ws

theorem echoes_items {shape : Shape} {vs us : List Value} {ts : List Tree}
    (elements : List.Forall₂ g.Unfolds vs ts)
    (elements' : List.Forall₂ g'.Unfolds us
      (ts.map (Tree.labelled env.registry (env.registry.elementPlace shape.parts.1))))
    (ws : WriteState) :
    Echoes (items env g payload shape vs) (items env g' payload' shape us) ws fun _ =>
      ∀ t ∈ ts, t.Retains env.registry (env.registry.elementPlace shape.parts.1)
        (t.delivered env.registry (env.registry.elementPlace shape.parts.1)) := by
  obtain ⟨length, header⟩ := length_and_header elements elements' env shape.parts.1
  have empty : us = [] ↔ vs = [] := by rw [← List.length_eq_zero_iff, length, List.length_eq_zero_iff]
  unfold items
  simp only [header, empty, length]
  split
  · rename_i none
    subst none
    cases elements
    exact .pure fun _ member => absurd member List.not_mem_nil
  · rw [List.forall₂_map_right_iff] at elements'
    have parts := Echoes.concat elements elements' (fun v w t _ unfolds unfolds' =>
      echoes_element strict untracked keeps unfolds unfolds' vs) ws
    exact parts.bind fun _ _ kept => .pure kept

theorem echoes_entries {shape : Shape} {pairs others : List (Value × Value)}
    {ts : List (Tree × Tree)}
    (keys : List.Forall₂ g.Unfolds (pairs.map (·.1)) (ts.map (·.1)))
    (values : List.Forall₂ g.Unfolds (pairs.map (·.2)) (ts.map (·.2)))
    (keys' : List.Forall₂ g'.Unfolds (others.map (·.1))
      ((ts.map (·.1)).map (Tree.labelled env.registry (env.registry.elementPlace shape.parts.1))))
    (values' : List.Forall₂ g'.Unfolds (others.map (·.2))
      ((ts.map (·.2)).map (Tree.labelled env.registry (env.registry.elementPlace shape.parts.2))))
    (ws : WriteState) :
    Echoes (entries env g payload shape pairs) (entries env g' payload' shape others) ws fun _ =>
      ∀ e ∈ ts, e.1.Retains env.registry (env.registry.elementPlace shape.parts.1)
          (e.1.delivered env.registry (env.registry.elementPlace shape.parts.1)) ∧
        e.2.Retains env.registry (env.registry.elementPlace shape.parts.2)
          (e.2.delivered env.registry (env.registry.elementPlace shape.parts.2)) := by
  obtain ⟨length, keyHeader⟩ := length_and_header keys keys' env shape.parts.1
  obtain ⟨-, valueHeader⟩ := length_and_header values values' env shape.parts.2
  rw [List.length_map, List.length_map] at length
  have empty : others = [] ↔ pairs = [] := by
    rw [← List.length_eq_zero_iff, length, List.length_eq_zero_iff]
  unfold entries
  simp only [keyHeader, valueHeader, empty, length]
  split
  · rename_i none
    subst none
    rw [List.forall₂_map_left_iff, List.forall₂_map_right_iff] at keys
    cases keys
    exact .pure fun _ member => absurd member List.not_mem_nil
  · simp only [List.map_map, List.forall₂_map_left_iff, List.forall₂_map_right_iff]
      at keys values keys' values'
    refine Echoes.bind (Echoes.concat (keys.mp (fun _ _ key value => And.intro key value) values)
      (keys'.mp (fun _ _ key value => And.intro key value) values') ?_ ws)
        fun _ _ kept => .pure kept
    intro pair other e _ unfolds unfolds' ws
    exact (echoes_element strict untracked keeps unfolds.1 unfolds'.1 _ ws).bind fun _ ws₁ key =>
      (echoes_element strict untracked keeps unfolds.2 unfolds'.2 _ ws₁).bind fun _ _ value =>
        .pure ⟨key, value⟩

omit untracked in
theorem echoes_field {s : StructType} {r r' : Record} {f : Field}
    (compatible : s.isCompatible = false) (noRef : f.refMode ≠ .tracking)
    {t : Tree} (unfolds : g.Unfolds (r.value f.name) t)
    (unfolds' : g'.Unfolds (r'.value f.name) (t.labelled env.registry f.place))
    (ws : WriteState) :
    Echoes (field env g payload s r f) (field env g' payload' s r' f) ws fun _ =>
      t.Retains env.registry f.place (t.delivered env.registry f.place) := by
  unfold field
  dsimp only
  rw [isNull_eq unfolds unfolds', compatible]
  split
  · exact .throw _
  · exact echoes_marked strict keeps noRef unfolds unfolds' ws

omit untracked in
theorem echoes_record {s : StructType} {strictly : Bool} {r r' : Record}
    {fields : List (String × Tree)} (found : env.registry.struct? r.typeName = some s)
    (noRef : ∀ f ∈ s.fields, f.refMode ≠ .tracking)
    (unfolds : ∀ name, g.Unfolds (r.value name) (Tree.fieldOf fields name))
    (unfolds' : ∀ name, g'.Unfolds (r'.value name) ((Tree.fieldOf fields name).labelled env.registry
      (Tree.fieldPlace env.registry r.typeName name)))
    (ws : WriteState) :
    Echoes (record env g payload s strictly r) (record env g' payload' s strictly r') ws fun _ =>
      ∀ f ∈ s.fields, (Tree.fieldOf fields f.name).Retains env.registry f.place
        ((Tree.fieldOf fields f.name).delivered env.registry f.place) := by
  have built := strict.built.built found
  unfold record Write.fields
  rw [strict.strategy]
  refine Echoes.bind (Echoes.concat (List.forall₂_same.2 fun _ _ => rfl)
    (List.forall₂_same.2 fun _ _ => rfl) ?_ ws) fun _ _ kept => .pure kept
  rintro _ f _ member rfl rfl ws
  have place : Tree.fieldPlace env.registry r.typeName f.name = f.place := by
    rw [Tree.fieldPlace, Registry.field?_eq_some found built.names member]
    rfl
  exact echoes_field strict keeps built.kind_eq (noRef f member) (unfolds f.name)
    (place ▸ unfolds' f.name) ws

end

/-- A node is entered by both writers while a level is left. -/
theorem echoes_descend {env : Environment} {g g' : Graph} {write write' : Option WritePayload}
    (deeper : ∀ payload, write = some payload →
      ∃ payload', write' = some payload' ∧ Keeps env g g' payload payload')
    {ws : WriteState} {P : Prop} {m m' : WritePayload → Write (List UInt8)}
    (h : ∀ payload payload', Keeps env g g' payload payload' →
      Echoes (m payload) (m' payload') ws fun _ => P) :
    Echoes (do m (← (env.descend write : Except Error WritePayload)))
      (do m' (← (env.descend write' : Except Error WritePayload))) ws fun _ => P := by
  cases write with
  | none => exact Ensures.bind (Q := fun _ _ => False) (.error _) fun _ _ never => never.elim
  | some payload =>
    obtain ⟨payload', rfl, keeps⟩ := deeper payload rfl
    exact h payload payload' keeps

section

variable {env : Environment} (strict : env.Strict) (untracked : env.config.trackRef = false)
  {g g' : Graph} {write write' : Option WritePayload}
  (deeper : ∀ payload, write = some payload →
    ∃ payload', write' = some payload' ∧ Keeps env g g' payload payload')

include strict untracked deeper

theorem echoes_container {p : Place} {v w : Value} {t : Tree} {type : TypeId}
    (told : env.Tells g p.typed p.shape v (.builtin type))
    (unfolds : g.Unfolds v t) (unfolds' : g'.Unfolds w (t.labelled env.registry p)) (ws : WriteState) :
    Echoes (container env g write type p.shape v) (container env g' write' type p.shape w) ws fun _ =>
      t.Retains env.registry p (t.delivered env.registry p) := by
  have heeds : t.Heeds env.registry p := heeds_of_tells told fun named same => by
    cases named <;> cases same
  unfold container
  cases unfolds with
  | leaf scalar =>
    rw [show g.nodeOf? v = none by simp [Graph.nodeOf?, scalar]]
    exact .error _
  | list node elements =>
    rw [Tree.labelled] at unfolds'
    cases unfolds' with
    | list node' elements' =>
      simp only [Graph.nodeOf?, Value.handle?, Option.map_some, node, node']
      split
      · exact echoes_descend deeper fun payload payload' keeps =>
          (echoes_items strict untracked keeps elements elements' ws).mono
            fun _ => Tree.retains_list heeds
      · exact .error _
  | set node elements =>
    rw [Tree.labelled] at unfolds'
    cases unfolds' with
    | set node' elements' =>
      simp only [Graph.nodeOf?, Value.handle?, Option.map_some, node, node']
      split
      · exact echoes_descend deeper fun payload payload' keeps =>
          (echoes_items strict untracked keeps elements elements' ws).mono
            fun _ => Tree.retains_set heeds
      · exact .error _
  | map node keys values =>
    rw [Tree.labelled] at unfolds'
    cases unfolds' with
    | map node' keys' values' =>
      simp only [Graph.nodeOf?, Value.handle?, Option.map_some, node, node']
      split
      · rw [List.map_map] at keys' values'
        exact echoes_descend deeper fun payload payload' keeps =>
          (echoes_entries strict untracked keeps keys values (by rwa [List.map_map])
            (by rwa [List.map_map]) ws).mono fun _ => Tree.retains_map heeds
      · exact .error _
  | record node =>
    simp only [Graph.nodeOf?, Value.handle?, Option.map_some, node]
    exact .error _

theorem echoes_struct {p : Place} {v w : Value} {t : Tree} {s : StructType} {strictly : Bool}
    (told : env.Tells g p.typed p.shape v (.struct s strictly))
    (unfolds : g.Unfolds v t) (unfolds' : g'.Unfolds w (t.labelled env.registry p)) (ws : WriteState) :
    Echoes (layer env g write (.struct s strictly) p.shape v)
      (layer env g' write' (.struct s strictly) p.shape w) ws fun _ =>
      t.Retains env.registry p (t.delivered env.registry p) := by
  simp only [layer]
  cases isRecord : g.asRecord? v with
  | none => exact .error _
  | some r =>
    obtain ⟨fields, rfl, names, values⟩ := unfolds.of_node (Graph.nodeOf?_of_asRecord? isRecord)
    rw [Tree.labelled] at unfolds'
    obtain ⟨r', isRecord', name, names', values'⟩ := unfolds'.of_record
    simp only [isRecord', name]
    split
    · exact .throw _
    · rename_i same
      have same := not_not.1 same
      have found := told.struct strict.built isRecord same
      have built := strict.built.built found
      have noRef : ∀ f ∈ s.fields, f.refMode ≠ .tracking := fun f member => by
        have resolved := built.resolved f member
        rw [untracked] at resolved
        exact Field.refMode_ne_tracking resolved.untracked
      have heeds : (Tree.record r.typeName fields).Heeds env.registry p :=
        heeds_of_tells told fun named wire => by
          cases named <;> cases wire
          exact ⟨fields, by rw [same]⟩
      have sorted : fields.Pairwise fun a b => a.1 < b.1 :=
        List.pairwise_map.1 (names ▸ List.pairwise_map.2 r.fields.sorted)
      refine echoes_descend deeper fun payload payload' keeps =>
        (echoes_record strict keeps found noRef (Graph.unfolds_fieldOf names values)
          (fun name => ?_) ws).mono fun _ => Tree.retains_struct found sorted heeds
      rw [← Tree.fieldOf_labelled]
      exact Graph.unfolds_fieldOf names' values' name

theorem keeps_layer : Keeps env g g' (layer env g write) (layer env g' write') := by
  intro p v w t wire ws unfolds unfolds' told
  cases wire with
  | builtin type =>
    cases container : type.isContainer with
    | true =>
      simp only [layer, container, if_true]
      exact echoes_container strict untracked deeper told unfolds unfolds' ws
    | false =>
      simp only [layer, container, Bool.false_eq_true, if_false]
      refine .of_ok fun bytes written => ?_
      cases unfolds with
      | leaf scalar =>
        rw [Tree.labelled] at unfolds'
        cases unfolds'
        exact ⟨Tree.retains_leaf (heeds_of_tells told fun named same => by
          cases named <;> cases same), encodeScalar_labelled written⟩
      | _ => exact absurd written Graph.encodeScalar_handle_ne_ok
  | struct s strictly => exact echoes_struct strict untracked deeper told unfolds unfolds' ws
  | peer p => exact .throw _
  | «enum» typeName members =>
    simp only [layer]
    cases v with
    | «enum» name ordinal =>
      cases unfolds
      rw [Tree.labelled] at unfolds'
      cases unfolds'
      simp only [Value.labelled]
      split
      · refine .pure (Tree.retains_leaf (heeds_of_tells told fun named same => ?_))
        cases named with
        | struct s => cases same
        | «enum» e => exact ⟨name, ordinal, rfl⟩
      · exact .throw _
    | _ => exact .error _

omit deeper in
theorem keeps_payload (levels : Nat) : Keeps env g g' (payload env g levels) (payload env g' levels) := by
  induction levels with
  | zero => exact keeps_layer strict untracked fun _ known => by cases known
  | succ levels ih =>
    exact keeps_layer strict untracked fun _ known => ⟨_, rfl, by cases known; exact ih⟩

end

end Write

/-! ## Instances -/

namespace Instance

/-- What is read is read without ceilings, too. -/
theorem deserialize_unlimited {i : Instance} {bytes : List UInt8} {result : Value × Graph}
    (read : (i.deserialize bytes).1 = .ok result) :
    ((i.setLimits .unlimited).deserialize bytes).1 = .ok result := by
  rcases i.deserialize_setLimits (SizeLimits.atMost_unlimited _) bytes with same | ⟨e, refused, -⟩
  · exact same ▸ read
  · rw [read] at refused
    cases refused

/-- In strict mode and without references, records and members of enumerations come back with their
types, apart from members whose type is not written, which come back under the declared name. Records
of other types than the declared ones are not written. -/
theorem deserialize_retains {i : Instance} (reached : i.ReachedById)
    (strict : i.config.compatible = false) (untracked : i.config.trackRef = false) {g : Graph}
    {v : Value} {t : Tree} (unfolds : g.Unfolds v t)
    (writable : (t.labelled i.registry .root).Writable i.registry .root) {bytes : List UInt8}
    (written : i.serialize g v = .ok bytes) {w : Value} {g' : Graph}
    (read : (i.deserialize bytes).1 = .ok (w, g')) :
    ∃ u, g'.Unfolds w u ∧ t.Retains i.registry .root u := by
  have sane := sane_of_serialize written
  let j := (i.setLimits .unlimited).setStrategy .interpreted
  have reachable : (i.setLimits .unlimited).Reachable :=
    reached.reachable.perform (.setLimits .unlimited)
  have plain : j.environment.Plain :=
    { reachable.strict sane strict with
      untracked
      unlimited := rfl
      identified := reached.identified }
  have free : j.serialize g v = .ok bytes := by
    rw [← written, ← serialize_setLimits i .unlimited]
    exact reachable.serialize_setStrategy .interpreted i.config.strategy g v
  obtain ⟨g₁, w₁, -, planted⟩ := Tree.grows_labelled i.registry unfolds .root .empty
  have unfolds₁ : g₁.Unfolds w₁ (t.labelled j.environment.registry .root) := planted g₁ (.refl g₁)
  have kept : j.serialize g₁ w₁ = .ok bytes ∧
      t.Retains i.registry .root (t.delivered i.registry .root) := by
    rw [serialize_of_sane j _ _ sane] at free ⊢
    rw [Write.isNull_eq unfolds unfolds₁]
    by_cases null : v.isNull = true
    · rw [if_pos null] at free ⊢
      cases Value.eq_null_of_isNull null
      cases unfolds
      exact ⟨free, Tree.retains_leaf fun _ _ => .inl rfl⟩
    · rw [if_neg null] at free ⊢
      obtain ⟨⟨body, ws⟩, run, same⟩ := map_eq_ok_iff.1 free
      have noRef : j.rootMode ≠ .tracking := by
        rw [show j.rootMode = .ofFlags true i.config.trackRef from rfl, untracked]
        decide
      have keeps : Write.Keeps j.environment g g₁ _ _ :=
        Write.keeps_payload plain.toStrict untracked j.config.maxDepth
      obtain ⟨kept, echo⟩ := Write.echoes_marked plain.toStrict keeps noRef unfolds unfolds₁ .initial
        (body, ws).1 ws run
      exact ⟨map_eq_ok_iff.2 ⟨_, echo, same⟩, kept⟩
  obtain ⟨w₂, g₂, read₂, back⟩ := interpreted_deserialize_serialize (i := j) sane plain.toStrict
    untracked unfolds₁ (writable.travels plain) kept.1
  have same := reachable.deserialize_interpreted (deserialize_unlimited read)
  rw [read₂] at same
  cases same
  exact ⟨_, back, kept.2⟩

/-- An instance that knows two enumerations, and a struct with a field of one of them. -/
def measured : Instance :=
  [.registerEnum (some 1) ⟨.ofNames "demo" "Size", ["SMALL", "LARGE"]⟩,
    .registerEnum (some 2) ⟨.ofNames "demo" "Grade", ["LOW", "HIGH"]⟩,
    .registerStruct (some 3)
      ⟨.ofNames "demo" "T", none, false, [.ofShape "size" (.named "demo.Size")]⟩].foldl perform fresh

theorem measured_reachedById : measured.ReachedById := by
  refine ⟨_, ?_, rfl⟩
  intro a member
  simp only [List.mem_cons, List.not_mem_nil, or_false] at member
  rcases member with rfl | rfl | rfl
  · exact ⟨1, rfl, by decide⟩
  · exact ⟨2, rfl, by decide⟩
  · exact ⟨3, rfl, by decide⟩

/-- A record whose field holds a member of the other enumeration. -/
def misgraded : Graph := ⟨#[.record ((Record.ofType "demo.T").set "size" (.enum "demo.Grade" 1))]⟩

def misgradedTree : Tree := .record "demo.T" [("size", .leaf (.enum "demo.Grade" 1))]

theorem misgraded_unfolds : misgraded.Unfolds (.handle ⟨0⟩) misgradedTree :=
  .record (r := (Record.ofType "demo.T").set "size" (.enum "demo.Grade" 1)) rfl rfl
    (.cons (.leaf rfl) .nil)

theorem measured_size : ∃ f, measured.registry.field? "demo.T" "size" = some f ∧
    f.place = ⟨false, .named "demo.Size"⟩ := by
  have known : ((measured.registry.field? "demo.T" "size").any fun f =>
      f.place = ⟨false, .named "demo.Size"⟩) = true := by decide +kernel
  obtain ⟨f, found, place⟩ := (Option.any_eq_true _ _).1 known
  exact ⟨f, found, of_decide_eq_true place⟩

/-- The member takes the declared name. -/
theorem labelled_misgradedTree : misgradedTree.labelled measured.registry .root =
    .record "demo.T" [("size", .leaf (.enum "demo.Size" 1))] := by
  obtain ⟨f, found, place⟩ := measured_size
  have label : Place.label measured.registry ⟨false, .named "demo.Size"⟩ "demo.Grade" = "demo.Size" := by
    decide +kernel
  simp only [misgradedTree, Tree.labelled, List.map_cons, List.map_nil, Tree.fieldPlace, found,
    Option.elim_some, place, Value.labelled, label]

theorem misgradedTree_writable :
    (misgradedTree.labelled measured.registry .root).Writable measured.registry .root := by
  rw [labelled_misgradedTree]
  refine .record (List.forall_mem_singleton.2 fun f found => ?_)
  obtain ⟨f', found', place⟩ := measured_size
  cases found'.symm.trans found
  have short : (Utf8.encode "demo.Size").length < 2 ^ 62 := by decide +kernel
  rw [place]
  refine .leaf ⟨short, by decide⟩ ⟨fun _ name ordinal same d e shape _ => ?_, nofun⟩
  cases same
  cases shape
  rfl

theorem deserialize_retains_misgraded :
    measured.ReachedById ∧ measured.config.compatible = false ∧ measured.config.trackRef = false ∧
      misgraded.Unfolds (.handle ⟨0⟩) misgradedTree ∧
      (misgradedTree.labelled measured.registry .root).Writable measured.registry .root ∧
      measured.serialize misgraded (.handle ⟨0⟩) =
        .ok [212, 98, 6, 255, 27, 3, 116, 225, 9, 104, 1] ∧
      ∃ w g', (measured.deserialize [212, 98, 6, 255, 27, 3, 116, 225, 9, 104, 1]).1 = .ok (w, g') ∧
        (∃ r, g'.asRecord? w = some r ∧ r.get? "size" = some (.enum "demo.Size" 1)) ∧
        ∃ u, g'.Unfolds w u ∧ misgradedTree.Retains measured.registry .root u := by
  have written : measured.serialize misgraded (.handle ⟨0⟩) =
      .ok [212, 98, 6, 255, 27, 3, 116, 225, 9, 104, 1] := by decide +kernel
  have strict : measured.config.compatible = false := by decide +kernel
  have untracked : measured.config.trackRef = false := by decide +kernel
  have read : ((measured.deserialize [212, 98, 6, 255, 27, 3, 116, 225, 9, 104, 1]).1.toOption.any
      fun p => (p.2.asRecord? p.1).any fun r => r.get? "size" = some (.enum "demo.Size" 1)) = true := by
    decide +kernel
  obtain ⟨⟨w, g'⟩, ok, known⟩ := (Option.any_eq_true _ _).1 read
  obtain ⟨r, isRecord, size⟩ := (Option.any_eq_true _ _).1 known
  have read : (measured.deserialize [212, 98, 6, 255, 27, 3, 116, 225, 9, 104, 1]).1 = .ok (w, g') := by
    generalize (measured.deserialize _).1 = outcome at ok ⊢
    cases outcome <;> cases ok
    rfl
  exact ⟨measured_reachedById, strict, untracked, misgraded_unfolds, misgradedTree_writable, written, w, g',
    read, ⟨r, isRecord, of_decide_eq_true size⟩, deserialize_retains measured_reachedById strict untracked
      misgraded_unfolds misgradedTree_writable written read⟩

end Instance

end Graphwire
