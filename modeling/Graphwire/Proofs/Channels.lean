import Graphwire.Proofs.Strategies
import Graphwire.Proofs.Trees

/-!
# Trees that are carried over

A reader builds a value on bytes when it reads them, changes no node that was there before, and the
value is told by the nodes that it adds. A channel says what a writer and a reader without references
must share: places where they expect the same, types that they tell each other, and trees that come out
part by part. What the writer writes of a tree, the reader builds the tree from that comes out of it. The
reader goes down by as many levels as the writer, or more, so the argument is by the number of levels
left.
-/

namespace Graphwire

set_option autoImplicit false

/-- Whether a graph has the nodes of another one from some index on. -/
def Graph.Agrees (base : Nat) (g g' : Graph) : Prop :=
  ∀ h, base ≤ h.index → h.index < g.size → g'.node h = g.node h

/-- Whether a relation between writers and readers is about type definitions only. -/
def Definitional (sync : WriteState → ReadState → Prop) : Prop :=
  ∀ ws st st', sync ws st → st'.received = st.received → st'.cache = st.cache → sync ws st'

theorem Definitional.opened {sync : WriteState → ReadState → Prop} (definitional : Definitional sync)
    {ws : WriteState} {st : ReadState} (h : sync ws st) (n : Node) (slot : Option Nat) :
    sync ws (st.opened n slot) := definitional ws st _ h rfl rfl

namespace Read

variable {α β : Type} {sync : WriteState → ReadState → Prop} {ws ws₁ ws₂ : WriteState}

/-! ## Building -/

/-- Whether a reader that is in step with a writer takes the bytes and adds nodes of which, in every
graph that has them, a condition on the result holds; it is in step with the later writer then. -/
def Builds (sync : WriteState → ReadState → Prop) (before after : WriteState) (m : Read α)
    (bytes : List UInt8) (P : Graph → α → Prop) : Prop :=
  ∀ st, sync before st → Runs m st bytes fun a st' =>
    sync after st' ∧ st.graph.Extends st'.graph ∧
      ∀ g', Graph.Agrees st.graph.size st'.graph g' → P g' a

variable {P : Graph → α → Prop} {R : Graph → β → Prop} {bytes front back : List UInt8}

theorem Builds.takes {m : Read α} {a : α} (hm : Takes m bytes a) (h : ∀ g, P g a) :
    Builds sync ws ws m bytes P :=
  fun _ step => hm.runs ⟨step, .refl _, fun g _ => h g⟩

theorem Builds.after {m : Read α} {f : α → Read β} {a : α} (hm : Takes m front a)
    (hf : Builds sync ws ws₁ (f a) back R) : Builds sync ws ws₁ (m >>= f) (front ++ back) R :=
  fun st step => .after hm (hf st step)

theorem Builds.bind {m : Read α} {f : α → Read β} (hm : Builds sync ws ws₁ m front P)
    (hf : ∀ a, Builds sync ws₁ ws₂ (f a) back fun g b => P g a → R g b) :
    Builds sync ws ws₂ (m >>= f) (front ++ back) R := by
  intro st step
  apply (hm st step).bind
  rintro a st' ⟨step', first, hP⟩
  apply (hf a st' step').mono
  rintro b st'' ⟨step'', second, hR⟩
  refine ⟨step'', first.trans second, fun g' agrees => hR g' ?_ (hP g' ?_)⟩
  · exact fun h le lt => agrees h (Nat.le_trans first.size le) lt
  · exact fun h le lt => (agrees h le (Nat.lt_of_lt_of_le lt second.size)).trans (second.node h lt)

theorem Builds.pure {a : α} (h : ∀ g, P g a) : Builds sync ws ws (pure a) [] P :=
  .takes (.pure a) h

theorem Builds.mono {m : Read α} {P' : Graph → α → Prop} (h : Builds sync ws ws₁ m bytes P)
    (weaker : ∀ g a, P g a → P' g a) : Builds sync ws ws₁ m bytes P' :=
  fun st step => (h st step).mono fun a _ after =>
    ⟨after.1, after.2.1, fun g' agrees => weaker g' a (after.2.2 g' agrees)⟩

/-- A node that was added empty and is replaced once its contents were read. -/
theorem builds_closed {st : ReadState} {empty full : Node} {slot : Option Nat} {g : Graph}
    {p : Graph → Prop} (ext : (st.opened empty slot).graph.Extends g)
    (h : ∀ g', Graph.Agrees (st.opened empty slot).graph.size g g' → p g') :
    st.graph.Extends (g.set ⟨st.graph.size⟩ full) ∧
      ∀ g', Graph.Agrees st.graph.size (g.set ⟨st.graph.size⟩ full) g' →
        g'.node ⟨st.graph.size⟩ = full ∧ p g' := by
  have bound : st.graph.size < g.size := by
    have := ext.size
    simp only [ReadState.opened, Graph.size_alloc] at this
    omega
  refine ⟨((Graph.Extends.alloc ..).trans ext).set (Nat.le_refl _) full, fun g' agrees => ⟨?_, h g' ?_⟩⟩
  · have lt : st.graph.size < (g.set ⟨st.graph.size⟩ full).size := by rwa [Graph.size_set]
    rw [agrees ⟨st.graph.size⟩ (Nat.le_refl _) lt]
    exact g.node_set_self _ full bound
  · intro h le lt
    simp only [ReadState.opened, Graph.size_alloc] at le
    have ne : (⟨st.graph.size⟩ : Handle) ≠ h := fun same => by
      subst same
      exact absurd le (Nat.lt_irrefl _)
    rw [agrees h (by omega) (by simpa using lt), Graph.node_set_other _ _ _ _ ne]

/-! ## Editing records -/

/-- Whether a reader that is in step with a writer takes the bytes and changes, of the nodes that were
there, the record of a handle alone, in a way that is told by every graph with the nodes that it adds;
it is in step with the later writer then. -/
def Edits (sync : WriteState → ReadState → Prop) (before after : WriteState) (m : Handle → Read Unit)
    (bytes : List UInt8) (P : Graph → Record → Record → Prop) : Prop :=
  ∀ st h r, sync before st → st.graph.node h = .record r → h.index < st.graph.size →
    Runs (m h) st bytes fun _ st' =>
      sync after st' ∧ st.graph.Alters st'.graph h ∧ ∃ r', st'.graph.node h = .record r' ∧
        ∀ g, Graph.Agrees st.graph.size st'.graph g → P g r r'

theorem Edits.nil {P : Graph → Record → Record → Prop} (h : ∀ g r, P g r r) :
    Edits sync ws ws (fun _ => pure ()) [] P :=
  fun _ _ r step held _ => .pure ⟨step, .refl _ _, r, held, fun g _ => h g r⟩

theorem Edits.bind {m₁ m₂ : Handle → Read Unit} {P₁ P₂ P : Graph → Record → Record → Prop}
    (h₁ : Edits sync ws ws₁ m₁ front P₁) (h₂ : Edits sync ws₁ ws₂ m₂ back P₂)
    (both : ∀ g r r₁ r₂, P₁ g r r₁ → P₂ g r₁ r₂ → P g r r₂) :
    Edits sync ws ws₂ (fun h => m₁ h >>= fun _ => m₂ h) (front ++ back) P := by
  intro st h r step held bound
  apply (h₁ st h r step held bound).bind
  rintro _ st₁ ⟨step₁, altered₁, r₁, held₁, first⟩
  apply (h₂ st₁ h r₁ step₁ held₁ (Nat.lt_of_lt_of_le bound altered₁.size)).mono
  rintro _ st₂ ⟨step₂, altered₂, r₂, held₂, second⟩
  refine ⟨step₂, altered₁.trans altered₂, r₂, held₂, fun g agrees =>
    both g r r₁ r₂ (first g fun k le lt => ?_) (second g fun k le lt => ?_)⟩
  · have ne : k ≠ h := fun same => by subst same; omega
    exact (agrees k le (Nat.lt_of_lt_of_le lt altered₂.size)).trans (altered₂.other k ne lt)
  · exact agrees k (Nat.le_trans altered₁.size le) lt

/-- A record that was added without fields is told by what became of it. -/
theorem Edits.opened {m : Handle → Read Unit} {P : Graph → Record → Record → Prop} {typeName : String}
    (definitional : Definitional sync) (h : Edits sync ws ws₁ m bytes P) {st : ReadState}
    (step : sync ws st) :
    Runs (m ⟨st.graph.size⟩) (st.opened (.record (.ofType typeName)) none) bytes fun _ st' =>
      sync ws₁ st' ∧ st.graph.Extends st'.graph ∧ ∃ r, ∀ g, Graph.Agrees st.graph.size st'.graph g →
        g.node ⟨st.graph.size⟩ = .record r ∧ P g (.ofType typeName) r := by
  have bound : st.graph.size < (st.opened (.record (.ofType typeName)) none).graph.size := by
    simp [ReadState.opened]
  apply (h _ ⟨st.graph.size⟩ (.ofType typeName) (definitional.opened step ..)
    (Graph.node_alloc_new ..) bound).mono
  rintro _ st' ⟨step', altered, r, held, edited⟩
  have bound' := Nat.lt_of_lt_of_le bound altered.size
  refine ⟨step', (Graph.Extends.alloc ..).alters altered (Nat.le_refl _), r, fun g agrees =>
    ⟨(agrees _ (Nat.le_refl _) bound').trans held, edited g fun k le lt => ?_⟩⟩
  exact agrees k (Nat.le_of_lt (Nat.lt_of_lt_of_le bound le)) lt

/-- A field is edited by what is read for it, unless that is null. -/
theorem Builds.edits_field {env : Environment} {inner : ReadPayload} {s : StructType} {f : Field}
    {P : Graph → Value → Prop} (definitional : Definitional sync)
    (hv : Builds sync ws ws₁ (marked env inner f.refMode (f.hasTypeInfo s.isCompatible) f.shape) bytes
      P) :
    Edits sync ws ws₁ (fun h => field env inner s h f) bytes
      fun g r r' => ∃ w, P g w ∧ r' = r.put f.name w := by
  intro st h r step held bound
  apply runs_field (r := r)
  apply (hv st step).mono
  rintro w st₁ ⟨step₁, ext, built⟩
  refine ⟨(ext.node h bound).trans held, Nat.lt_of_lt_of_le bound ext.size, fun g₂ _ put => ?_⟩
  refine ⟨definitional _ _ _ step₁ rfl rfl, ext.replaced put, _, put.self,
    fun g agrees => ⟨w, built g fun k le lt => ?_, rfl⟩⟩
  have ne : k ≠ h := fun same => by subst same; omega
  exact (agrees k le (put.size ▸ lt)).trans (put.other k ne)

variable {env : Environment} {inner : ReadPayload} {shape : Shape} (definitional : Definitional sync)

include definitional

theorem builds_items {node : List Value → Node} {n : Nat} {header : ElementHeader}
    {P : Graph → List Value → Prop} (small : n < 2 ^ 32)
    (admitted : env.config.limits.Admits .collection n)
    (known : header.declared = true → shape.parts.1.all (· = .dynamic) = false)
    (h : Builds sync ws ws₁ (many (element env inner header shape.parts.1) n) bytes P) :
    Builds sync ws ws₁ (items env inner node shape none) (Encode.counted n header.encode bytes)
      fun g v => ∃ k vs, v = .handle k ∧ g.node k = node vs ∧ P g vs := by
  intro st step
  apply runs_items small admitted known
  apply (h _ (definitional.opened step ..)).mono
  rintro vs st' ⟨step', ext, hP⟩
  obtain ⟨ext, closed⟩ := builds_closed ext hP
  exact ⟨definitional _ _ _ step' rfl rfl, ext, fun g' agrees => ⟨_, vs, rfl, closed g' agrees⟩⟩

theorem builds_entries {n : Nat} {keyHeader valueHeader : ElementHeader}
    {P : Graph → List (Value × Value) → Prop} (small : n < 2 ^ 32)
    (admitted : env.config.limits.Admits .map n)
    (keysKnown : keyHeader.declared = true → shape.parts.1.all (· = .dynamic) = false)
    (valuesKnown : valueHeader.declared = true → shape.parts.2.all (· = .dynamic) = false)
    (h : Builds sync ws ws₁
      (many (do
        let key ← element env inner keyHeader shape.parts.1
        let value ← element env inner valueHeader shape.parts.2
        return (key, value)) n) bytes P) :
    Builds sync ws ws₁ (entries env inner shape none)
      (Encode.counted n (keyHeader.encode ++ valueHeader.encode) bytes)
      fun g v => ∃ k pairs, v = .handle k ∧ g.node k = .map pairs ∧ P g pairs := by
  intro st step
  apply runs_entries small admitted keysKnown valuesKnown
  apply (h _ (definitional.opened step ..)).mono
  rintro pairs st' ⟨step', ext, hP⟩
  obtain ⟨ext, closed⟩ := builds_closed ext hP
  exact ⟨definitional _ _ _ step' rfl rfl, ext, fun g' agrees => ⟨_, pairs, rfl, closed g' agrees⟩⟩

omit definitional

/-! ## Values -/

variable {g : Graph} {payload : WritePayload}

theorem ensures_concat {γ : Type} {write : α → Write (List UInt8)} {one : Read β} {S : α → γ → Prop}
    {P : Graph → β → γ → Prop} {items : List α} {results : List γ} (related : List.Forall₂ S items results)
    (step : ∀ a c, c ∈ results → S a c → ∀ ws,
      Write.Ensures (write a) ws fun bytes ws' => Builds sync ws ws' one bytes fun g b => P g b c) :
    Write.Ensures (Write.concat write items) ws fun bytes ws' =>
      Builds sync ws ws' (many one items.length) bytes
        fun g bs => List.Forall₂ (P g) bs results := by
  induction related generalizing ws with
  | nil => exact .pure (.pure fun _ => .nil)
  | @cons a c items results first others ih =>
    refine (step a c List.mem_cons_self first ws).bind ?_
    intro front ws₁ hm
    have ih := @ih ws₁ fun a c member => step a c (List.mem_cons_of_mem _ member)
    refine ih.bind fun back ws₂ hms => .pure ?_
    apply hm.bind
    intro b
    rw [← List.append_nil back]
    exact hms.bind fun bs => .pure fun g others first => .cons first others

/-- A value is carried over if it is once its type is told. -/
theorem ensures_marked {W : Environment} {mode : RefMode} {hasType hasType' : Bool}
    {shape shape' : Shape} {v : Value} {P : Graph → Value → Prop}
    (untracked : mode ≠ .tracking) (null : v = .null → ∀ g, P g .null)
    (h : v ≠ .null → Write.Ensures (Write.typed W g payload hasType shape v) ws fun bytes ws' =>
      Builds sync ws ws' (typed env inner hasType' shape' none) bytes P) :
    Write.Ensures (Write.marked W g payload mode hasType shape v) ws fun bytes ws' =>
      Builds sync ws ws' (marked env inner mode hasType' shape') bytes P := by
  refine Write.ensures_marked_untracked untracked (fun absent markers => ?_) fun present =>
    (h present).mono fun bytes _ value => ⟨fun markers => ?_, fun plain => ?_⟩
  · subst markers
    exact .takes ((takes_refFlag .null).then (.pure _)) (null absent)
  · subst markers
    exact .after (takes_refFlag .notNull) value
  · subst plain
    exact value

/-- A value is carried over if its type is read as one by which it is. -/
theorem ensures_told {W : Environment} {shape shape' : Shape} {v : Value} {P : Graph → Value → Prop}
    (h : ∀ st, sync ws st → Write.Ensures (Write.typeInfo W g v) ws fun i ws₁ => ∃ wire,
      Runs (typeInfo env) st i.1
        (fun wire' st' => wire' = wire ∧ sync ws₁ st' ∧ st'.graph = st.graph) ∧
      Write.Ensures (payload i.2 shape v) ws₁ fun bytes ws₂ =>
        Builds sync ws₁ ws₂ (inner wire shape' none) bytes P) :
    Write.Ensures (Write.typed W g payload true shape v) ws fun bytes ws' =>
      Builds sync ws ws' (typed env inner true shape' none) bytes P := by
  intro bytes ws' run st step
  suffices reads : Write.Ensures (Write.typed W g payload true shape v) ws fun bytes ws' =>
      Runs (typed env inner true shape' none) st bytes fun w st' =>
        sync ws' st' ∧ st.graph.Extends st'.graph ∧
          ∀ g', Graph.Agrees st.graph.size st'.graph g' → P g' w from
    reads bytes ws' run
  rw [typed_eq]
  unfold Write.typed
  refine (h st step).bind ?_
  rintro i ws₁ ⟨wire, reads, writes⟩
  refine writes.bind fun bytes ws₂ builds => .pure (reads.bind ?_)
  rintro wire' st' ⟨rfl, step', graph⟩
  rw [← graph]
  exact builds st' step'

end Read

/-! ## Channels -/

/-- What is sent through a channel: the trees that fit a place, what comes out of them there, and the type
that a value is written as, with what the reader makes of the type. -/
structure Freight where
  fits : Place → Tree → Prop
  landed : Place → Tree → Tree
  told : Place → Value → WireType → WireType → Prop

/-- What a writer and a reader without references must share: places that meet, types that are told, and
trees that come out part by part. -/
structure Channel (W R : Environment) (g : Graph) (freight : Freight)
    (meets : Place → Place → Prop) (sync : WriteState → ReadState → Prop) : Prop where
  writer : W.config.strategy = .interpreted
  reader : R.config.strategy = .interpreted
  untracked : W.config.trackRef = false
  built : W.registry.BuiltFor W.config.compatible false
  typed : ∀ p q, meets p q → p.typed = q.typed
  parts : ∀ p q, meets p q →
    meets (W.elementPlace p.shape.parts.1) (R.elementPlace q.shape.parts.1) ∧
      meets (W.elementPlace p.shape.parts.2) (R.elementPlace q.shape.parts.2)
  fields : ∀ s f, W.registry.HasStruct s → f ∈ s.fields → meets (W.fieldPlace f) (W.fieldPlace f)
  definitional : Definitional sync
  isNull : ∀ p t, (freight.landed p t).isNull = t.isNull
  list : ∀ p ts, freight.fits p (.list ts) →
    ts.length < 2 ^ 32 ∧ R.config.limits.Admits .collection ts.length ∧
      (∀ t ∈ ts, freight.fits (W.elementPlace p.shape.parts.1) t) ∧
        freight.landed p (.list ts) =
          .list (ts.map (freight.landed (W.elementPlace p.shape.parts.1)))
  set : ∀ p ts, freight.fits p (.set ts) →
    ts.length < 2 ^ 32 ∧ R.config.limits.Admits .collection ts.length ∧
      (∀ t ∈ ts, freight.fits (W.elementPlace p.shape.parts.1) t) ∧
        freight.landed p (.set ts) =
          .set (ts.map (freight.landed (W.elementPlace p.shape.parts.1)))
  map : ∀ p es, freight.fits p (.map es) →
    es.length < 2 ^ 32 ∧ R.config.limits.Admits .map es.length ∧
      (∀ e ∈ es, freight.fits (W.elementPlace p.shape.parts.1) e.1 ∧
        freight.fits (W.elementPlace p.shape.parts.2) e.2) ∧
        freight.landed p (.map es) =
          .map (es.map fun e => (freight.landed (W.elementPlace p.shape.parts.1) e.1,
            freight.landed (W.elementPlace p.shape.parts.2) e.2))
  record : ∀ p typeName s fields, freight.fits p (.record typeName fields) →
    W.registry.struct? typeName = some s →
      (∀ f ∈ s.fields, freight.fits (W.fieldPlace f) (Tree.fieldOf fields f.name)) ∧
        freight.landed p (.record typeName fields) =
          .record typeName (fields.filterMap fun e =>
            (s.kept (fun f => freight.landed (W.fieldPlace f)) e.1 e.2).map fun t => (e.1, t))
  builtin : ∀ p v t wire, freight.told p v (.builtin t) wire → wire = .builtin t
  scalar : ∀ p v t wire, freight.fits p (.leaf v) → freight.told p v (.builtin t) wire →
    t.isContainer = false → v.Short ∧ v.Admitted R.config.limits ∧
      freight.landed p (.leaf v) = .leaf (v.restoredAs t)
  enum : ∀ p name ordinal typeName members wire, freight.fits p (.leaf (.enum name ordinal)) →
    freight.told p (.enum name ordinal) (.enum typeName members) wire →
      members.all (ordinal < ·) = true → ordinal < 2 ^ 32 ∧ ∃ typeName' members',
        wire = .enum typeName' members' ∧ members'.all (ordinal < ·) = true ∧
          freight.landed p (.leaf (.enum name ordinal)) = .leaf (.enum typeName' ordinal)
  declared : ∀ p q v wire, meets p q → p.typed = false → W.declaredType p.shape = .ok wire →
    ∃ wire', R.declaredType q.shape = .ok wire' ∧ freight.told p v wire wire'
  typeInfo : ∀ p v t ws st, g.Unfolds v t → freight.fits p t → p.typed = true → sync ws st →
    Write.Ensures (Write.typeInfo W g v) ws fun i ws' =>
      ∃ wire, freight.told p v i.2 wire ∧ Read.Runs (Read.typeInfo R) st i.1 fun wire' st' =>
        wire' = wire ∧ sync ws' st' ∧ st'.graph = st.graph

/-- Whether what a writer of payloads writes of trees is read as what comes out of them. -/
def Delivers (g : Graph) (freight : Freight) (meets : Place → Place → Prop)
    (sync : WriteState → ReadState → Prop) (write : WritePayload) (read : ReadPayload) : Prop :=
  ∀ (p q : Place) (v : Value) (t : Tree) (wire wire' : WireType) (ws : WriteState),
    g.Unfolds v t → freight.fits p t → meets p q → freight.told p v wire wire' →
      Write.Ensures (write wire p.shape v) ws fun bytes ws' =>
        Read.Builds sync ws ws' (read wire' q.shape none) bytes fun g' w =>
          g'.Unfolds w (freight.landed p t)

/-- Whether what is written of records is read as what comes out of them, where that holds of payloads one
level further in. -/
def DeliversRecords (W R : Environment) (g : Graph) (freight : Freight) (meets : Place → Place → Prop)
    (sync : WriteState → ReadState → Prop) : Prop :=
  ∀ {write : WritePayload} {read : ReadPayload} (_ : Delivers g freight meets sync write read)
    {p q : Place} {v : Value} {t : Tree} {r : Record} {s : StructType} {strict : Bool}
    {wire : WireType} (ws : WriteState),
    g.Unfolds v t → freight.fits p t → freight.told p v (.struct s strict) wire →
      g.asRecord? v = some r → r.typeName = s.qualifiedName →
        Write.Ensures (Write.record W g write s strict r) ws fun bytes ws' =>
          Read.Builds sync ws ws' (Read.layer R (some read) wire q.shape none) bytes fun g' w =>
            g'.Unfolds w (freight.landed p t)

theorem Environment.refMode_ne {env : Environment} (untracked : env.config.trackRef = false)
    (part : Option Shape) (elements : List Value) :
    (env.elementHeader part elements).refMode ≠ .tracking := by
  simp only [ElementHeader.refMode, Environment.elementHeader, untracked, Bool.false_and]
  cases elements.any Value.isNull <;> decide

theorem Registry.hasStruct_of_struct? {r : Registry} {name : String} {s : StructType}
    (found : r.struct? name = some s) : r.HasStruct s := ⟨name, found⟩

namespace Channel

open Write (Ensures)
open Read (Builds)

variable {W R : Environment} {g : Graph} {freight : Freight} {meets : Place → Place → Prop}
  {sync : WriteState → ReadState → Prop} (channel : Channel W R g freight meets sync)
  {payload : WritePayload} {inner : ReadPayload} (delivers : Delivers g freight meets sync payload inner)

include channel delivers

/-- A value that is no reference comes out at its place. -/
theorem placed {mode : RefMode} (noRef : mode ≠ .tracking) {p q : Place} (met : meets p q)
    {v : Value} {t : Tree} (unfolds : g.Unfolds v t) (fits : freight.fits p t) (ws : WriteState) :
    Ensures (Write.marked W g payload mode p.typed p.shape v) ws fun bytes ws' =>
      Builds sync ws ws' (Read.marked R inner mode q.typed q.shape) bytes fun g' w =>
        g'.Unfolds w (freight.landed p t) := by
  refine Read.ensures_marked noRef (fun null g' => ?_) fun _ => ?_
  · subst null
    cases unfolds
    rw [Tree.eq_null_of_isNull (channel.isNull p (.leaf .null))]
    exact .leaf rfl
  · rw [← channel.typed p q met]
    cases typed : p.typed with
    | true =>
      refine Read.ensures_told fun st step =>
        (channel.typeInfo p v t ws st unfolds fits typed step).mono ?_
      rintro i ws₁ ⟨wire, told, reads⟩
      exact ⟨wire, reads, delivers p q v t i.2 wire ws₁ unfolds fits met told⟩
    | false =>
      rw [Read.typed_eq]
      unfold Write.typed
      refine Ensures.bind (Q := fun wire ws' => ws' = ws ∧ W.declaredType p.shape = .ok wire)
        (.lift fun _ declared => ⟨rfl, declared⟩) ?_
      rintro wire ws' ⟨same, declared⟩
      subst same
      obtain ⟨wire', declared', told⟩ := channel.declared p q v wire met typed declared
      exact (delivers p q v t wire wire' _ unfolds fits met told).mono fun bytes _ builds =>
        .after (.check declared') builds

variable {part part' : Option Shape} (met : meets (W.elementPlace part) (R.elementPlace part'))

include met

theorem element {vs : List Value} {v : Value} {t : Tree} (unfolds : g.Unfolds v t)
    (fits : freight.fits (W.elementPlace part) t) (ws : WriteState) :
    Ensures (Write.element W g payload (W.elementHeader part vs) part v) ws fun bytes ws' =>
      Builds sync ws ws' (Read.element R inner (W.elementHeader part vs) part') bytes fun g' w =>
        g'.Unfolds w (freight.landed (W.elementPlace part) t) := by
  have run := placed channel delivers (Environment.refMode_ne channel.untracked part vs) met unfolds
    fits ws
  rw [← channel.typed _ _ met] at run
  exact run

theorem elements {vs : List Value} {ts : List Tree} (unfolds : List.Forall₂ g.Unfolds vs ts)
    (fits : ∀ t ∈ ts, freight.fits (W.elementPlace part) t) (ws : WriteState) :
    Ensures (Write.concat (Write.element W g payload (W.elementHeader part vs) part) vs) ws
      fun bytes ws' => Builds sync ws ws'
        (Read.many (Read.element R inner (W.elementHeader part vs) part') vs.length) bytes
        fun g' ws => List.Forall₂ g'.Unfolds ws (ts.map (freight.landed (W.elementPlace part))) := by
  refine (Read.ensures_concat unfolds fun v t member unfolds ws =>
    element channel delivers met unfolds (fits t member) ws).mono fun bytes _ builds =>
      builds.mono fun g' ws h => ?_
  exact List.forall₂_map_right_iff.2 h

omit met

/-- Entries come out key by key and value by value. -/
theorem entries {keyPart keyPart' valuePart valuePart' : Option Shape}
    (keysMet : meets (W.elementPlace keyPart) (R.elementPlace keyPart'))
    (valuesMet : meets (W.elementPlace valuePart) (R.elementPlace valuePart'))
    {pairs : List (Value × Value)} {ts : List (Tree × Tree)}
    (keys : List.Forall₂ g.Unfolds (pairs.map (·.1)) (ts.map (·.1)))
    (values : List.Forall₂ g.Unfolds (pairs.map (·.2)) (ts.map (·.2)))
    (fits : ∀ e ∈ ts, freight.fits (W.elementPlace keyPart) e.1 ∧
      freight.fits (W.elementPlace valuePart) e.2) (ws : WriteState) :
    Ensures
      (Write.concat (fun pair => do
        let key ← Write.element W g payload
          (W.elementHeader keyPart (pairs.map (·.1))) keyPart pair.1
        let value ← Write.element W g payload
          (W.elementHeader valuePart (pairs.map (·.2))) valuePart pair.2
        return key ++ value) pairs) ws
      fun bytes ws' => Builds sync ws ws'
        (Read.many (do
          let key ← Read.element R inner
            (W.elementHeader keyPart (pairs.map (·.1))) keyPart'
          let value ← Read.element R inner
            (W.elementHeader valuePart (pairs.map (·.2))) valuePart'
          return (key, value)) pairs.length) bytes
        fun g' ps =>
          List.Forall₂ g'.Unfolds (ps.map (·.1))
              (ts.map fun e => freight.landed (W.elementPlace keyPart) e.1) ∧
            List.Forall₂ g'.Unfolds (ps.map (·.2))
              (ts.map fun e => freight.landed (W.elementPlace valuePart) e.2) := by
  rw [List.forall₂_map_left_iff, List.forall₂_map_right_iff] at keys values
  have both : List.Forall₂ (fun pair e => g.Unfolds pair.1 e.1 ∧ g.Unfolds pair.2 e.2) pairs ts :=
    keys.mp (fun _ _ key value => ⟨key, value⟩) values
  refine (Read.ensures_concat both (P := fun g' q e =>
    g'.Unfolds q.1 (freight.landed (W.elementPlace keyPart) e.1) ∧
      g'.Unfolds q.2 (freight.landed (W.elementPlace valuePart) e.2))
    fun pair e member unfolds ws => ?_).mono fun bytes _ builds => builds.mono fun g' ps h => ?_
  · refine (element channel delivers keysMet unfolds.1 (fits e member).1 ws).bind ?_
    intro front ws₁ key
    refine (element channel delivers valuesMet unfolds.2 (fits e member).2 ws₁).bind
      fun back ws₂ value => .pure (key.bind fun k => ?_)
    rw [← List.append_nil back]
    exact value.bind fun v => .pure fun g' value key => ⟨key, value⟩
  · rw [List.forall₂_map_left_iff, List.forall₂_map_right_iff, List.forall₂_map_left_iff,
      List.forall₂_map_right_iff]
    exact ⟨h.imp fun _ _ e => e.1, h.imp fun _ _ e => e.2⟩

theorem field {s : StructType} {r : Record} {f : Field} {t : Tree}
    (compatible : s.isCompatible = W.config.compatible) {q : Place}
    (met : meets (W.fieldPlace f) q) (noRef : f.refMode ≠ .tracking)
    (unfolds : g.Unfolds (r.value f.name) t) (fits : freight.fits (W.fieldPlace f) t)
    (ws : WriteState) :
    Ensures (Write.field W g payload s r f) ws fun bytes ws' =>
      Builds sync ws ws' (Read.marked R inner f.refMode q.typed q.shape) bytes
        fun g' w => g'.Unfolds w (freight.landed (W.fieldPlace f) t) := by
  unfold Write.field
  dsimp only
  split
  · exact .throw _
  · rw [compatible]
    exact placed channel delivers noRef met unfolds fits ws

/-- The fields of a record come out, except the nulls. -/
theorem eachField {s : StructType} {r : Record} {tree : String → Tree}
    (compatible : s.isCompatible = W.config.compatible) (fs : List Field)
    (met : ∀ f ∈ fs, meets (W.fieldPlace f) (W.fieldPlace f))
    (names : (fs.map (·.name)).Nodup) (noRef : ∀ f ∈ fs, f.refMode ≠ .tracking)
    (unfolds : ∀ f ∈ fs, g.Unfolds (r.value f.name) (tree f.name))
    (fits : ∀ f ∈ fs, freight.fits (W.fieldPlace f) (tree f.name)) (ws : WriteState) :
    Ensures (Write.concat (Write.field W g payload s r) fs) ws fun bytes ws' =>
      Read.Edits sync ws ws' (fun h => Read.each (Read.field R inner s h) fs) bytes fun g' =>
        Record.Filled (fun f w => g'.Unfolds w (freight.landed (W.fieldPlace f) (tree f.name))) fs := by
  induction fs generalizing ws with
  | nil => exact .pure (.nil fun _ _ => .nil)
  | cons f fs ih =>
    obtain ⟨fresh, names⟩ := List.nodup_cons.1 names
    obtain ⟨metHere, met⟩ := List.forall_mem_cons.1 met
    obtain ⟨noRefHere, noRef⟩ := List.forall_mem_cons.1 noRef
    obtain ⟨unfoldsHere, unfolds⟩ := List.forall_mem_cons.1 unfolds
    obtain ⟨fitsHere, fits⟩ := List.forall_mem_cons.1 fits
    refine (field channel delivers compatible metHere noRefHere unfoldsHere fitsHere ws).bind ?_
    intro front ws₁ hf
    refine (ih met names noRef unfolds fits ws₁).bind ?_
    intro back ws₂ hfs
    have hf : Read.Edits sync ws ws₁ (fun h => Read.field R inner s h f) front _ :=
      Read.Builds.edits_field channel.definitional (by rw [compatible]; exact hf)
    refine .pure (hf.bind hfs ?_)
    rintro g' r₀ _ r₂ ⟨w, unfolds, rfl⟩ filled
    exact .cons unfolds fresh filled

/-- A record that is read as one of the writer's own struct comes out. -/
theorem ownRecord {v : Value} {t : Tree} {p : Place} {s : StructType} {r : Record} {strict : Bool}
    (unfolds : g.Unfolds v t) (fits : freight.fits p t) (isRecord : g.asRecord? v = some r)
    (found : W.registry.struct? r.typeName = some s) (ws : WriteState) :
    Ensures (Write.record W g payload s strict r) ws fun bytes ws' =>
      Builds sync ws ws' (Read.record R inner s strict none) bytes fun g' w =>
        g'.Unfolds w (freight.landed p t) := by
  obtain ⟨trees, rfl, names, values⟩ := unfolds.of_node (Graph.nodeOf?_of_asRecord? isRecord)
  obtain ⟨parts, landed⟩ := channel.record p r.typeName s trees fits found
  have built := channel.built.built found
  have noRef : ∀ f ∈ s.fields, f.refMode ≠ .tracking := fun f member =>
    Field.refMode_ne_tracking (built.resolved f member).untracked
  have run := eachField channel delivers (r := r) built.kind_eq s.fields
    (fun f member => channel.fields s f (Registry.hasStruct_of_struct? found) member) built.names
    noRef (fun f _ => Graph.unfolds_fieldOf names values f.name) parts ws
  refine Write.ensures_record channel.writer (run.mono fun bytes _ edits st step => ?_)
  apply Read.runs_record channel.reader built.version
  rw [built.qualifiedName]
  apply (edits.opened channel.definitional step).mono
  rintro _ st' ⟨step', ext, r₁, told⟩
  refine ⟨step', ext, fun g'' agrees => ?_⟩
  obtain ⟨node, filled⟩ := told g'' agrees
  have sorted : (trees.map (·.1)).Pairwise (· < ·) :=
    names ▸ List.pairwise_map.2 r.fields.sorted
  rw [landed]
  exact Graph.unfolds_kept (fun f t => channel.isNull (W.fieldPlace f) t) filled node
    (List.pairwise_map.1 sorted)

end Channel

theorem Graph.encodeScalar_handle_ne_ok {g : Graph} {t : TypeId} {h : Handle} {bytes : List UInt8} :
    g.encodeScalar t (.handle h) ≠ .ok bytes := by
  intro run
  unfold Graph.encodeScalar Graph.coerce at run
  cases ht : t.builtin? with
  | none => simp only [ht] at run; cases run
  | some b => cases b <;> simp only [ht] at run <;> cases run

namespace Channel

open Write (Ensures)
open Read (Builds)

variable {W R : Environment} {g : Graph} {freight : Freight} {meets : Place → Place → Prop}
  {sync : WriteState → ReadState → Prop} {write : Option WritePayload} {read : Option ReadPayload}
  (channel : Channel W R g freight meets sync)
  (deeper : ∀ w, write = some w → ∃ r, read = some r ∧ Delivers g freight meets sync w r)
  {p q : Place} {v : Value} {t : Tree} (unfolds : g.Unfolds v t) (fits : freight.fits p t)
  (met : meets p q)

include channel unfolds fits

theorem layer_scalar {type : TypeId} {wire : WireType} (told : freight.told p v (.builtin type) wire)
    (scalar : type.isContainer = false) (ws : WriteState) :
    Ensures (Write.layer W g write (.builtin type) p.shape v) ws fun bytes ws' =>
      Builds sync ws ws' (Read.layer R read (.builtin type) q.shape none) bytes fun g' w =>
        g'.Unfolds w (freight.landed p t) := by
  simp only [Write.layer, Read.layer, scalar, Bool.false_eq_true, if_false]
  refine .lift ?_
  intro bytes written
  cases unfolds with
  | leaf noHandle =>
    obtain ⟨short, admitted, landed⟩ := channel.scalar p v type wire fits told scalar
    refine .takes (Read.takes_scalar written short admitted) ?_
    intro g'
    rw [landed]
    exact .leaf ((v.restored_kind ⟨false, .scalar type⟩).2.trans noHandle)
  | _ => exact absurd written Graph.encodeScalar_handle_ne_ok

theorem layer_enum {typeName : String} {members : Option Nat} {wire : WireType}
    (told : freight.told p v (.enum typeName members) wire) (ws : WriteState) :
    Ensures (Write.layer W g write (.enum typeName members) p.shape v) ws fun bytes ws' =>
      Builds sync ws ws' (Read.layer R read wire q.shape none) bytes fun g' w =>
        g'.Unfolds w (freight.landed p t) := by
  simp only [Write.layer]
  cases v with
  | enum name ordinal =>
    dsimp only
    split
    · rename_i member
      cases unfolds with
      | leaf noHandle =>
        obtain ⟨small, typeName', members', rfl, member', landed⟩ :=
          channel.enum p name ordinal typeName members wire fits told member
        refine .pure (.takes (a := .enum typeName' ordinal) ?_ fun g' => ?_)
        · simp only [Read.layer]
          refine (Read.Takes.decode (Decode.yields_varuint32 small)).then ?_
          rw [if_pos member']
          exact .pure _
        · rw [landed]
          exact .leaf rfl
    · exact .throw _
  | _ => exact .error _

include deeper met

theorem layer_container {type : TypeId} (container : type.isContainer = true) (ws : WriteState) :
    Ensures (Write.layer W g write (.builtin type) p.shape v) ws fun bytes ws' =>
      Builds sync ws ws' (Read.layer R read (.builtin type) q.shape none) bytes fun g' w =>
        g'.Unfolds w (freight.landed p t) := by
  obtain ⟨metKeys, metValues⟩ := channel.parts p q met
  have typedKeys := channel.typed _ _ metKeys
  have typedValues := channel.typed _ _ metValues
  simp only [Write.layer, Read.layer, container, if_true]
  refine Write.ensures_container (fun payload vs found node kind => ?_)
    (fun payload vs found node kind => ?_) (fun payload pairs found node kind => ?_)
  all_goals
    obtain ⟨inner, rfl, delivers⟩ := deeper payload found
    subst kind
  · obtain ⟨ts, rfl, elements⟩ := unfolds.of_node node
    obtain ⟨count, admitted, parts, landed⟩ := channel.list p ts fits
    refine Write.ensures_items ((channel.elements delivers metKeys elements parts ws).mono
      fun bytes _ builds => ?_)
    rw [← elements.length_eq] at count admitted
    apply (Read.builds_items channel.definitional count admitted
      (Environment.known_of_declared typedKeys) builds).mono
    rintro g' w ⟨k, vs', same, held, elements⟩
    subst same
    rw [landed]
    exact .list held elements
  · obtain ⟨ts, rfl, elements⟩ := unfolds.of_node node
    obtain ⟨count, admitted, parts, landed⟩ := channel.set p ts fits
    refine Write.ensures_items ((channel.elements delivers metKeys elements parts ws).mono
      fun bytes _ builds => ?_)
    rw [← elements.length_eq] at count admitted
    apply (Read.builds_items channel.definitional count admitted
      (Environment.known_of_declared typedKeys) builds).mono
    rintro g' w ⟨k, vs', same, held, elements⟩
    subst same
    rw [landed]
    exact .set held elements
  · obtain ⟨ts, rfl, keys, values⟩ := unfolds.of_node node
    obtain ⟨count, admitted, parts, landed⟩ := channel.map p ts fits
    refine Write.ensures_entries ((channel.entries delivers metKeys metValues keys values parts ws).mono
      fun bytes _ builds => ?_)
    have length : pairs.length = ts.length := by simpa using keys.length_eq
    rw [← length] at count admitted
    apply (Read.builds_entries channel.definitional count admitted
      (Environment.known_of_declared typedKeys) (Environment.known_of_declared typedValues) builds).mono
    rintro g' w ⟨k, ps, same, held, keys, values⟩
    subst same
    rw [landed]
    exact .map held (by rwa [List.map_map]) (by rwa [List.map_map])

omit met

variable (records : DeliversRecords W R g freight meets sync)

include records

omit channel in
theorem layer_record {s : StructType} {strict : Bool} {wire : WireType}
    (told : freight.told p v (.struct s strict) wire) (ws : WriteState) :
    Ensures (Write.layer W g write (.struct s strict) p.shape v) ws fun bytes ws' =>
      Builds sync ws ws' (Read.layer R read wire q.shape none) bytes fun g' w =>
        g'.Unfolds w (freight.landed p t) := by
  simp only [Write.layer]
  cases isRecord : g.asRecord? v with
  | none => exact .error _
  | some r =>
    dsimp only
    by_cases other : r.typeName ≠ s.qualifiedName
    · rw [if_pos other]
      exact .throw _
    · rw [if_neg other]
      apply Write.ensures_descend
      intro payload known
      obtain ⟨inner, rfl, delivers⟩ := deeper payload known
      exact records delivers ws unfolds fits told isRecord (not_not.1 other)

include met

theorem layer_eq {wire wire' : WireType} (told : freight.told p v wire wire') (ws : WriteState) :
    Ensures (Write.layer W g write wire p.shape v) ws fun bytes ws' =>
      Builds sync ws ws' (Read.layer R read wire' q.shape none) bytes fun g' w =>
        g'.Unfolds w (freight.landed p t) := by
  cases wire with
  | builtin type =>
    cases channel.builtin p v type wire' told
    cases container : type.isContainer with
    | true => exact layer_container channel deeper unfolds fits met container ws
    | false => exact layer_scalar channel unfolds fits told container ws
  | struct s strict => exact layer_record deeper unfolds fits records told ws
  | peer p => exact .throw _
  | enum typeName members => exact layer_enum channel unfolds fits told ws

omit unfolds fits met

theorem layer : Delivers g freight meets sync (Write.layer W g write) (Read.layer R read) :=
  fun _ _ _ _ _ _ ws unfolds fits met told =>
    layer_eq channel deeper unfolds fits met records told ws

omit deeper

/-- A payload comes out of a reader that has a level wherever the writer has one. -/
theorem payload {levels levels' : Nat} (enough : levels ≤ levels') :
    Delivers g freight meets sync (Write.payload W g levels) (Read.payload R levels') := by
  induction levels generalizing levels' with
  | zero => cases levels' <;> exact channel.layer nofun records
  | succ levels ih =>
    cases levels' with
    | zero => exact absurd enough (Nat.not_succ_le_zero levels)
    | succ levels' =>
      refine channel.layer (fun w known => ⟨_, rfl, ?_⟩) records
      cases known
      exact ih (Nat.le_of_succ_le_succ enough)

end Channel

end Graphwire
