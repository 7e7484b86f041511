import Graphwire.Proofs.Consumption
import Graphwire.Proofs.Guardrails
import Graphwire.Proofs.Strategies
import Mathlib.Algebra.BigOperators.Group.Finset.Basic
import Mathlib.Algebra.Order.BigOperators.Group.Finset
import Mathlib.Data.Finset.Range

/-!
# Input is not amplified

However large the sizes are that an input declares, what a reader puts into its graph is paid for in
bytes: every element, every entry and every field that the input sets takes one of its own. A step of
reading is described by the spare bytes that it starts with and those that it leaves. A byte that is
read becomes spare, a thing that is put into the graph takes one away. The count goes over the whole
graph, which keeps the nodes of values that were dropped, and over the fields that were dropped;
defaults are not part of it.
-/

namespace Graphwire

set_option autoImplicit false

/-! ## What a graph holds -/

instance Filling.decidableCovers (f : Filling) (h : Handle) : Decidable (f.Covers h) :=
  inferInstanceAs (Decidable (_ ∧ _))

instance Filling.decidableFills (f : Filling) (h : Handle) (e : String × Value) :
    Decidable (f.Fills h e) :=
  inferInstanceAs (Decidable (_ ∧ _ ∧ _))

/-- The number of elements, entries or fields of a node, apart from defaults in its fields. -/
def Node.held (filled : List Filling) (h : Handle) : Node → Nat
  | .list items | .set items => items.length
  | .map entries => entries.length
  | .record r => r.fields.entries.countP fun e => ∀ f ∈ filled, ¬f.Fills h e

namespace Graph

/-- The number of elements, entries or fields under a handle, none if a default brought the node. -/
def heldAt (filled : List Filling) (g : Graph) (h : Handle) : Nat :=
  if ∀ f ∈ filled, ¬f.Covers h then (g.node h).held filled h else 0

/-- The number of elements, entries and fields of all nodes, apart from defaults. -/
def held (filled : List Filling) (g : Graph) : Nat :=
  (Finset.range g.size).sum fun i => g.heldAt filled ⟨i⟩

end Graph

namespace FieldTable

/-- Setting a field adds at most its new entry. -/
theorem countP_insertEntry (p : String × Value → Bool) (name : String) (v : Value)
    (entries : List (String × Value)) :
    (insertEntry name v entries).countP p ≤ entries.countP p + if p (name, v) then 1 else 0 := by
  induction entries with
  | nil => simp [insertEntry]
  | cons e rest ih =>
    simp only [insertEntry]
    split
    · simp only [List.countP_cons]
      omega
    · split
      · simp only [List.countP_cons]
        omega
      · simp only [List.countP_cons] at ih ⊢
        omega

end FieldTable

namespace Graph

variable {filled : List Filling} {g : Graph}

theorem heldAt_le (filled : List Filling) (g : Graph) (h : Handle) :
    g.heldAt filled h ≤ (g.node h).held filled h := by
  unfold heldAt
  split
  · exact Nat.le_refl _
  · exact Nat.zero_le _

/-- A new node adds what it holds. -/
theorem held_alloc (n : Node) :
    (g.alloc n).2.held filled ≤ g.held filled + n.held filled (g.alloc n).1 := by
  have old : ∀ i ∈ Finset.range g.size, (g.alloc n).2.heldAt filled ⟨i⟩ = g.heldAt filled ⟨i⟩ :=
    fun i hi => by simp only [heldAt, node_alloc_old g n ⟨i⟩ (Finset.mem_range.1 hi)]
  unfold held
  rw [size_alloc, Finset.sum_range_succ, Finset.sum_congr rfl old]
  refine Nat.add_le_add_left ?_ _
  have new := heldAt_le filled (g.alloc n).2 (g.alloc n).1
  rw [node_alloc_new] at new
  exact new

/-- A node in another's place adds what it holds more. -/
theorem held_set {h : Handle} {n : Node} {extra : Nat}
    (more : n.held filled h ≤ (g.node h).held filled h + extra) :
    (g.set h n).held filled ≤ g.held filled + extra := by
  by_cases lt : h.index < g.size
  · have mem : h.index ∈ Finset.range g.size := Finset.mem_range.2 lt
    have others : ∀ i ∈ (Finset.range g.size).erase h.index,
        (g.set h n).heldAt filled ⟨i⟩ = g.heldAt filled ⟨i⟩ := by
      intro i hi
      have ne : h ≠ ⟨i⟩ := fun same => Finset.ne_of_mem_erase hi (by rw [same])
      simp only [heldAt, node_set_other g h ⟨i⟩ n ne]
    have here : (g.set h n).heldAt filled h ≤ g.heldAt filled h + extra := by
      unfold heldAt
      split
      · rw [node_set_self g h n lt]
        exact more
      · exact Nat.zero_le _
    unfold held
    rw [size_set, ← Finset.add_sum_erase _ _ mem, Finset.sum_congr rfl others,
      ← Finset.add_sum_erase _ (fun i => g.heldAt filled ⟨i⟩) mem]
    show (g.set h n).heldAt filled h + _ ≤ g.heldAt filled h + _ + extra
    omega
  · have outside : g.set h n = g := by
      simp only [Graph.set, Graph.size] at lt ⊢
      rw [Array.setIfInBounds_eq_of_size_le (Nat.not_lt.1 lt)]
    rw [outside]
    exact Nat.le_add_right _ _

end Graph

theorem Node.held_mono {filled more : List Filling} (sub : filled ⊆ more) (h : Handle) (n : Node) :
    n.held more h ≤ n.held filled h := by
  cases n with
  | record r =>
    refine List.countP_mono_left fun e _ free => ?_
    simp only [decide_eq_true_eq] at free ⊢
    exact fun f hf => free f (sub hf)
  | _ => exact Nat.le_refl _

/-- The nodes of a default that is noted add nothing. -/
theorem Graph.held_instantiate {filled : List Filling} {g : Graph} {f : Filling}
    (offset : f.offset = g.size) :
    (f.default.instantiate g).2.held (filled ++ [f]) ≤ g.held filled := by
  have size : (f.default.instantiate g).2.size = g.size + f.default.graph.size := by
    simp [Template.instantiate, Graph.size]
  have old : ∀ i ∈ Finset.range g.size,
      (f.default.instantiate g).2.heldAt (filled ++ [f]) ⟨i⟩ ≤ g.heldAt filled ⟨i⟩ := by
    intro i hi
    have kept : (f.default.instantiate g).2.node ⟨i⟩ = g.node ⟨i⟩ := by
      have lt : i < g.nodes.size := Finset.mem_range.1 hi
      simp [Template.instantiate, Graph.node, Array.getElem?_append_left lt]
    unfold heldAt
    rw [kept]
    split
    · rename_i uncovered
      rw [if_pos fun e he => uncovered e (List.mem_append_left _ he)]
      exact Node.held_mono (List.subset_append_left ..) _ _
    · exact Nat.zero_le _
  have new : ∀ i ∈ Finset.range f.default.graph.size,
      (f.default.instantiate g).2.heldAt (filled ++ [f]) ⟨g.size + i⟩ = 0 := by
    intro i hi
    have covers : f.Covers ⟨g.size + i⟩ := by
      have lt := Finset.mem_range.1 hi
      simp only [Filling.Covers, offset]
      omega
    exact if_neg fun uncovered => uncovered f (by simp) covers
  unfold held
  rw [size, Finset.sum_range_add, Finset.sum_eq_zero new]
  exact Finset.sum_le_sum old

/-! ## Spare bytes -/

/-- What a reader can still read and, where values are counted, what its graph holds and what it has
dropped. -/
def ReadState.weight (counted : Bool) (s : ReadState) : Nat :=
  s.reader.remaining + if counted then s.graph.held s.filled + s.dropped else 0

/-- A graph that holds more makes a reader so much heavier. -/
theorem ReadState.weight_le {counted : Bool} {s t : ReadState} {price : Nat}
    (reader : t.reader = s.reader) (dropped : t.dropped = s.dropped)
    (held : counted = true → t.graph.held t.filled ≤ s.graph.held s.filled + price) :
    t.weight counted ≤ s.weight counted + price := by
  unfold weight
  rw [reader, dropped]
  cases counted with
  | false => exact Nat.le_add_right _ _
  | true =>
    have more := held rfl
    simp only [if_true]
    omega

namespace Read

variable {α β : Type} {counted : Bool} {spare : Nat} {l : α → Nat}

/-- Whether a step that starts with spare bytes leaves as many as told: those that it reads become
spare, and each thing that it puts into the graph or drops takes one away. -/
def Affords (counted : Bool) (spare : Nat) (m : Read α) (l : α → Nat) : Prop :=
  ∀ s, Ensures m s fun a t => t.weight counted + l a ≤ s.weight counted + spare

namespace Affords

theorem pure {a : α} (h : l a ≤ spare) : Affords counted spare (pure a) l :=
  fun _ => Ensures.pure (Nat.add_le_add_left h _)

theorem throw (e : Error) : Affords counted spare (throw e : Read α) l :=
  fun _ => Ensures.throw e

theorem bind {m : Read α} {f : α → Read β} {rest : β → Nat} (hm : Affords counted spare m l)
    (hf : ∀ a, Affords counted (l a) (f a) rest) : Affords counted spare (m >>= f) rest :=
  fun s => (hm s).bind fun a t first => (hf a t).mono fun _ _ then_ => Nat.le_trans then_ first

/-- Spare bytes that a step does not need are left. -/
theorem frame {m : Read α} (h : Affords counted spare m l) (more : Nat) :
    Affords counted (spare + more) m fun a => l a + more :=
  fun s => (h s).mono fun a t paid => by
    show t.weight counted + (l a + more) ≤ s.weight counted + (spare + more)
    omega

theorem mono {m : Read α} {less : α → Nat} (h : Affords counted spare m l)
    (le : ∀ a, less a ≤ l a) : Affords counted spare m less :=
  fun s => (h s).mono fun a _ paid => Nat.le_trans (Nat.add_le_add_left (le a) _) paid

theorem check {x : Except Error α} (h : ∀ a, x = .ok a → l a ≤ spare) :
    Affords counted spare (check x) l :=
  fun _ => Ensures.check fun a ok => Nat.add_le_add_left (h a ok) _

theorem decode {d : Decode α} {n : Nat} (h : d.Consumes n) :
    Affords counted spare (decode d) fun _ => spare + n := by
  refine fun s => Ensures.decode fun a r run => ?_
  have moved := h s.reader a r run
  simp only [ReadState.weight]
  omega

/-- A step that neither reads nor changes what is counted. -/
theorem modify {f : ReadState → ReadState} (h : ∀ s, (f s).weight counted ≤ s.weight counted) :
    Affords counted spare (modify f) fun _ => spare :=
  fun s => Ensures.modify (Nat.add_le_add_right (h s) _)

theorem many {one : Read α} (h : Affords counted 0 one fun _ => 1) (n : Nat) :
    Affords counted 0 (many one n) List.length := by
  induction n with
  | zero => exact pure (Nat.le_refl _)
  | succ n ih => exact h.bind fun a => (ih.frame 1).bind fun l => pure (Nat.le_refl _)

theorem each {one : α → Read Unit} (items : List α)
    (h : ∀ a, Affords counted 0 (one a) fun _ => 0) :
    Affords counted 0 (each one items) fun _ => 0 := by
  induction items with
  | nil => exact pure (Nat.le_refl _)
  | cons a items ih => exact (h a).bind fun _ => ih

end Affords

/-! ## Steps -/

theorem affords_get : Affords counted spare get fun _ => spare :=
  fun _ => Ensures.get (Nat.le_refl _)

theorem affords_reserve : Affords counted spare reserve fun _ => spare := by
  intro s number t run
  cases run
  exact Nat.le_refl _

theorem affords_alloc {n : Node} (empty : ∀ filled h, n.held filled h = 0) :
    Affords counted spare (alloc n) fun _ => spare := by
  intro s h t run
  cases run
  have added : (s.graph.alloc n).2.held s.filled ≤ _ := Graph.held_alloc n
  rw [empty] at added
  have same : ReadState.weight counted { s with graph := (s.graph.alloc n).2 } ≤
      s.weight counted + 0 := ReadState.weight_le rfl rfl fun _ => added
  exact Nat.add_le_add_right same spare

/-- What goes into a node is paid for. -/
theorem affords_setNode {n : Node} {size : Nat} (h : Handle)
    (holds : ∀ filled, n.held filled h = size) :
    Affords counted (size + spare) (setNode h n) fun _ => spare := by
  refine fun s => Ensures.modify ?_
  have more : ReadState.weight counted { s with graph := s.graph.set h n } ≤
      s.weight counted + size :=
    ReadState.weight_le rfl rfl fun _ => Graph.held_set (holds s.filled ▸ Nat.le_add_left _ _)
  rw [← Nat.add_assoc]
  exact Nat.add_le_add_right more spare

/-- A field takes one spare byte, unless it is noted as a default or nothing is counted. -/
theorem ensures_setField_weight {s : ReadState} {h : Handle} {name : String} {v : Value} {price : Nat}
    (free : counted = true → (∀ f ∈ s.filled, ¬f.Fills h (name, v)) → 1 ≤ price) :
    Ensures (setField h name v) s fun _ t => t.weight counted ≤ s.weight counted + price := by
  refine Ensures.modify ?_
  split
  · rename_i r node
    have entries := FieldTable.countP_insertEntry
      (fun e => decide (∀ f ∈ s.filled, ¬f.Fills h e)) name v r.fields.entries
    refine ReadState.weight_le rfl rfl fun counts => Graph.held_set ?_
    rw [node]
    refine Nat.le_trans entries (Nat.add_le_add_left ?_ _)
    split
    · rename_i unfilled
      exact free counts (of_decide_eq_true unfilled)
    · exact Nat.zero_le _
  · exact Nat.le_add_right _ _

theorem affords_setField (h : Handle) (name : String) (v : Value) :
    Affords counted 1 (setField h name v) fun _ => 0 :=
  fun _ => ensures_setField_weight fun _ _ => Nat.le_refl _

theorem affords_fillMissing (h : Handle) (f : Field) :
    Affords counted 0 (fillMissing h f) fun _ => 0 := by
  refine (Affords.check (l := fun _ => 0) fun _ _ => Nat.le_refl _).bind fun x => ?_
  cases x with
  | none => exact .pure (Nat.le_refl _)
  | some t =>
    intro s a u run
    let filling : Filling := ⟨h, f.name, t, s.graph.size⟩
    let copied : ReadState := { s with
      graph := (t.instantiate s.graph).2, filled := s.filled ++ [filling] }
    have run : setField h f.name filling.value copied = .ok a u := run
    have noted : filling ∈ copied.filled := List.mem_append_right _ (List.mem_singleton_self _)
    have set : u.weight counted ≤ copied.weight counted + 0 :=
      ensures_setField_weight (fun _ unfilled => absurd ⟨rfl, rfl, rfl⟩ (unfilled filling noted))
        a u run
    exact Nat.le_trans set (ReadState.weight_le rfl rfl fun _ =>
      Graph.held_instantiate (f := filling) rfl)

/-- A field that is dropped takes one spare byte. -/
theorem affords_noteDropped : Affords counted 1 noteDropped fun _ => 0 := by
  refine fun s => Ensures.modify ?_
  cases counted with
  | false => exact Nat.le_add_right _ _
  | true => exact Nat.le_refl _

theorem affords_noteNull (h : Handle) (name : String) :
    Affords counted spare (noteNull h name) fun _ => spare := .modify fun _ => Nat.le_refl _

theorem affords_publish (slot : Option Nat) (v : Value) :
    Affords counted spare (publish slot v) fun _ => spare := by
  cases slot with
  | none => exact .pure (Nat.le_refl _)
  | some number => exact .modify fun _ => Nat.le_refl _

theorem affords_newRecord (typeName : String) (slot : Option Nat) :
    Affords counted spare (newRecord typeName slot) fun _ => spare :=
  (affords_alloc fun _ _ => rfl).bind fun _ => (affords_publish slot _).bind fun _ =>
    .pure (Nat.le_refl _)

/-! ## Types in front of values -/

theorem affords_note (header : Int) : Affords counted spare (note header) fun _ => spare :=
  .modify fun _ => Nat.le_refl _

theorem affords_receive (p : PeerStruct) : Affords counted spare (receive p) fun _ => spare :=
  .modify fun _ => Nat.le_refl _

theorem affords_received : Affords counted spare received fun _ => spare :=
  affords_get.bind fun _ => .pure (Nat.le_refl _)

theorem affords_definitionAfter (r : Registry) (header : Int) :
    Affords counted spare (definitionAfter r header) fun _ => spare := by
  unfold definitionAfter
  refine affords_get.bind fun state => ?_
  split
  · exact (Affords.decode (Decode.consumes_skipAfter header)).bind fun _ => .pure (Nat.le_refl _)
  · refine (Affords.decode (Decode.consumes_decodeAfter header)).bind fun d => ?_
    exact Affords.bind (l := fun _ => spare) (.modify fun _ => Nat.le_refl _) fun _ =>
      .pure (Nat.le_refl _)

theorem affords_definition (r : Registry) :
    Affords counted spare (definition r) fun _ => spare := by
  refine (Affords.decode (Decode.consumes_varuint32.mono (Nat.zero_le _))).bind fun marker =>
    affords_received.bind fun known => ?_
  split
  · split
    · exact .pure (Nat.le_refl _)
    · exact .throw _
  · split
    · exact .throw _
    · exact (Affords.decode ((Decode.consumes_signed 8).mono (Nat.zero_le _))).bind fun header =>
        (affords_note header).bind fun _ => (affords_definitionAfter r header).bind fun p =>
          (affords_receive p).bind fun _ => .pure (Nat.le_refl _)

theorem affords_text (limits : SizeLimits) :
    Affords counted spare (text limits) fun _ => spare + 1 :=
  (Affords.decode Decode.consumes_textHeader).bind fun _ =>
    (Affords.check fun _ _ => Nat.le_refl _).bind fun _ =>
      .decode (Decode.consumes_textPayload _ _)

theorem affords_referred (named : Option NamedType) (name : String) (lenient : Bool)
    (kind : TypeId) :
    Affords counted spare (do check (checkKind kind (← check (referredType named name lenient))))
      fun _ => spare :=
  (Affords.check fun _ _ => Nat.le_refl _).bind fun _ => .check fun _ _ => Nat.le_refl _

/-- The kind byte is left for the value. -/
theorem affords_typeInfo (env : Environment) :
    Affords counted 0 (typeInfo env) fun _ => 1 := by
  refine (Affords.decode Decode.consumes_octet).bind fun kind => ?_
  dsimp only
  split
  · exact (Affords.decode (Decode.consumes_varuint32.mono (Nat.zero_le _))).bind fun id =>
      affords_referred _ _ _ _
  · split
    · exact (affords_text _).bind fun package => (affords_text _).bind fun typeName =>
        (affords_referred _ _ _ _).mono fun _ => by omega
    · split
      · refine (affords_definition env.registry).bind fun p => ?_
        split
        · exact (Affords.throw (l := fun _ => 1) _).bind fun _ => .pure (Nat.le_refl _)
        · exact .pure (Nat.le_refl _)
      · split
        · exact .pure (Nat.le_refl _)
        · exact .throw _

/-- Every scalar takes a byte. -/
theorem affords_scalar (limits : SizeLimits) (t : TypeId) :
    Affords counted 0 (scalar limits t) fun _ => 1 := by
  have decoded : ∀ {d : Decode Value} {n : Nat}, d.Consumes n → 1 ≤ n →
      Affords counted 0 (Read.decode d) fun _ => 1 :=
    fun h le => (Affords.decode (h.mono le))
  unfold scalar
  split
  · exact decoded (Decode.consumes_bool.map _) (Nat.le_refl _)
  · exact decoded (Decode.consumes_integer _ _) (Nat.le_refl _)
  · exact decoded ((Decode.consumes_littleEndian 4).andThen fun _ => .pure _) (by decide)
  · exact decoded ((Decode.consumes_littleEndian 8).andThen fun _ => .pure _) (by decide)
  · rw [map_eq_pure_bind]
    exact (affords_text limits).bind fun _ => .pure (Nat.le_refl _)
  · exact (Affords.decode Decode.consumes_varuint32).bind fun size =>
      (Affords.check fun _ _ => Nat.le_refl _).bind fun _ =>
        (Affords.decode ((Decode.consumes_bytes size).mono (Nat.zero_le _))).bind fun _ =>
          .pure (Nat.le_refl _)
  · exact decoded Decode.consumes_day (by decide)
  · exact decoded Decode.consumes_instant (by decide)
  · exact decoded Decode.consumes_span (Nat.le_refl _)
  · exact .throw _

/-! ## Values -/

end Read

/-- The least number of bytes that a payload of the type takes. A record of a peer's struct may take
none. -/
def WireType.leastSize : WireType → Nat
  | .builtin _ | .struct _ true | .enum .. => 1
  | .struct _ false | .peer _ => 0

/-- A declared type takes a byte, as no type stands before the value. -/
theorem Environment.leastSize_declaredType {env : Environment} {shape : Shape} {wire : WireType}
    (ok : env.declaredType shape = .ok wire) : wire.leastSize = 1 := by
  cases shape with
  | named name =>
    simp only [declaredType] at ok
    split at ok <;> cases ok <;> rfl
  | dynamic => cases ok
  | _ => cases ok; rfl

namespace Read

variable {counted : Bool} {spare : Nat}

/-- Reads an entry of a map. -/
def entry (env : Environment) (payload : ReadPayload) (keyHeader valueHeader : ElementHeader)
    (shapes : Option Shape × Option Shape) : Read (Value × Value) := do
  let key ← element env payload keyHeader shapes.1
  let value ← element env payload valueHeader shapes.2
  return (key, value)

/-- Whether a reader of payloads takes the least number of bytes of the type and affords what it puts
into the graph. -/
def AffordsPayload (counted : Bool) (inner : ReadPayload) : Prop :=
  ∀ wire shape slot, Affords counted 0 (inner wire shape slot) fun _ => wire.leastSize

theorem affords_elementHeader (shape : Option Shape) :
    Affords counted spare (elementHeader shape) fun _ => spare := by
  refine (Affords.decode (Decode.consumes_octet.mono (Nat.zero_le _))).bind fun byte => ?_
  split
  · exact .throw _
  · split
    · exact .throw _
    · exact .pure (Nat.le_refl _)

variable {env : Environment} {inner : ReadPayload} (payload : AffordsPayload counted inner)

include payload

/-- Every value takes a byte: its type does, or a payload of the declared type. -/
theorem affords_typed (hasType : Bool) (shape : Shape) (slot : Option Nat) :
    Affords counted 0 (typed env inner hasType shape slot) fun _ => 1 := by
  have rest : ∀ wire : WireType,
      Affords counted (0 + (1 - wire.leastSize)) (inner wire shape slot) fun _ => 1 :=
    fun wire => ((payload wire shape slot).frame _).mono fun _ => by omega
  unfold typed
  cases hasType with
  | true =>
    refine Affords.bind (l := fun wire => 0 + (1 - wire.leastSize)) ?_ rest
    exact (affords_typeInfo env).mono fun _ => by omega
  | false =>
    refine Affords.bind (l := fun wire => 0 + (1 - wire.leastSize)) (.check fun wire ok => ?_) rest
    rw [Environment.leastSize_declaredType ok]

theorem affords_marked (mode : RefMode) (hasType : Bool) (shape : Shape) :
    Affords counted 0 (marked env inner mode hasType shape) fun _ => 1 := by
  unfold marked
  split
  · exact affords_typed payload hasType shape none
  · refine (Affords.decode Decode.consumes_refFlag).bind fun flag => ?_
    split
    · exact .pure (Nat.le_refl _)
    · exact ((affords_typed payload hasType shape none).frame 1).mono fun _ => by omega
    · refine (Affords.decode (Decode.consumes_varuint32.mono (Nat.zero_le _))).bind fun number => ?_
      exact affords_get.bind fun state => .check fun _ _ => Nat.le_refl _
    · exact affords_reserve.bind fun number =>
        ((affords_typed payload hasType shape (some number)).frame 1).bind fun v =>
          (affords_publish _ v).bind fun _ => .pure (by omega)
    · exact .throw _

theorem affords_items {node : List Value → Node}
    (holds : ∀ vs filled h, (node vs).held filled h = vs.length) (shape : Shape)
    (slot : Option Nat) :
    Affords counted 0 (items env inner node shape slot) fun _ => 1 := by
  refine (Affords.decode Decode.consumes_varuint32).bind fun length =>
    (Affords.check fun _ _ => Nat.le_refl _).bind fun _ => ?_
  refine (affords_alloc (holds [])).bind fun h => (affords_publish slot _).bind fun _ => ?_
  split
  · exact .pure (Nat.le_refl _)
  · refine (affords_elementHeader _).bind fun header =>
      (((Affords.many (affords_marked payload _ _ _) length).frame 1).bind fun vs => ?_)
    exact (affords_setNode h fun filled => holds vs filled h).bind fun _ => .pure (Nat.le_refl _)

theorem affords_entry (keyHeader valueHeader : ElementHeader)
    (shapes : Option Shape × Option Shape) :
    Affords counted 0 (entry env inner keyHeader valueHeader shapes) fun _ => 1 :=
  (affords_marked payload _ _ _).bind fun key =>
    ((affords_marked payload _ _ _).frame 1).bind fun value => .pure (by omega)

theorem affords_entries (shape : Shape) (slot : Option Nat) :
    Affords counted 0 (entries env inner shape slot) fun _ => 1 := by
  refine (Affords.decode Decode.consumes_varuint32).bind fun length =>
    (Affords.check fun _ _ => Nat.le_refl _).bind fun _ => ?_
  refine (affords_alloc fun _ _ => rfl).bind fun h => (affords_publish slot _).bind fun _ => ?_
  split
  · exact .pure (Nat.le_refl _)
  · refine (affords_elementHeader _).bind fun keyHeader =>
      (affords_elementHeader _).bind fun valueHeader => ?_
    have entries : Affords counted (0 + 1)
        (many (entry env inner keyHeader valueHeader shape.parts) length) fun l => l.length + 1 :=
      (Affords.many (affords_entry payload _ _ _) length).frame 1
    exact entries.bind fun pairs =>
      (affords_setNode h fun _ => rfl).bind fun _ => .pure (Nat.le_refl _)

/-! ## Records -/

theorem affords_field (s : StructType) (h : Handle) (f : Field) :
    Affords counted 0 (field env inner s h f) fun _ => 0 := by
  refine (affords_marked payload _ _ _).bind fun v => ?_
  split
  · exact (affords_noteNull h f.name).mono fun _ => Nat.zero_le _
  · exact affords_setField h f.name v

/-- The fields of a record pay for themselves when they are read one after the other. A block of
fixed-width fields is only known not to go back. -/
theorem affords_fields (way : counted = true → env.config.strategy = .interpreted) (s : StructType)
    (h : Handle) : Affords counted 0 (fields env inner s h) fun _ => 0 := by
  unfold fields
  split
  · exact .each _ fun f => affords_field payload s h f
  · rename_i compiled
    have uncounted : counted = false := by
      cases counted with
      | false => rfl
      | true => rw [way rfl] at compiled; cases compiled
    refine .each _ fun step => ?_
    cases step with
    | run positions width =>
      refine (Affords.decode ((Decode.consumes_bytes width).mono (Nat.zero_le _))).bind fun bytes =>
        (Affords.check (l := fun _ => 0) fun _ _ => Nat.le_refl _).bind fun values => ?_
      exact .each _ fun e _ => ensures_setField_weight fun counts => by
        rw [uncounted] at counts
        cases counts
    | field position => exact .each _ fun f => affords_field payload s h f

theorem affords_record (way : counted = true → env.config.strategy = .interpreted) (s : StructType)
    (strict : Bool) (slot : Option Nat) :
    Affords counted 0 (record env inner s strict slot) fun _ => (WireType.struct s strict).leastSize := by
  have body : ∀ spare, Affords counted (0 + spare) (do
      let h ← newRecord s.qualifiedName slot
      fields env inner s h
      return Value.handle h) fun _ => spare := fun spare =>
    (affords_newRecord _ _).bind fun h => ((affords_fields payload way s h).frame spare).bind fun _ =>
      .pure (by omega)
  unfold record
  cases strict with
  | true =>
    exact (Affords.decode ((Decode.consumes_signed 4).mono (by decide))).bind fun version =>
      (Affords.check fun _ _ => Nat.le_refl _).bind fun _ => body 1
  | false => exact body 0

omit payload in
theorem affords_keepField (p : PeerStruct) (h : Handle) (f : PeerField) (v : Value) :
    Affords counted 1 (keepField p h f v) fun _ => 0 := by
  unfold keepField
  split
  · split
    · refine (affords_noteNull h _).bind fun _ => ?_
      split
      · exact .pure (Nat.zero_le _)
      · exact ((affords_fillMissing h _).frame 1).mono fun _ => Nat.zero_le _
    · exact affords_setField h _ v
  · split
    · exact .pure (Nat.zero_le _)
    · exact affords_setField h _ v
  · exact affords_noteDropped

theorem affords_reconciled (p : PeerStruct) (slot : Option Nat) :
    Affords counted 0 (reconciled env inner p slot) fun _ => 0 := by
  refine (affords_newRecord _ _).bind fun h => ?_
  refine (Affords.each p.fields fun f => ?_).bind fun _ =>
    (Affords.each _ fun f => affords_fillMissing h f).bind fun _ => .pure (Nat.le_refl _)
  exact (affords_marked payload _ _ _).bind fun v => affords_keepField p h f v

theorem affords_peerRecord (way : counted = true → env.config.strategy = .interpreted)
    (p : PeerStruct) (slot : Option Nat) :
    Affords counted 0 (peerRecord env inner p slot) fun _ => 0 := by
  unfold peerRecord
  split
  · exact affords_record payload way _ false slot
  · exact affords_reconciled payload p slot

/-! ## Payloads -/

omit payload in
theorem affords_layer (way : counted = true → env.config.strategy = .interpreted)
    {deeper : Option ReadPayload} (h : ∀ inner, deeper = some inner → AffordsPayload counted inner) :
    AffordsPayload counted (layer env deeper) := by
  have descend : ∀ {f : ReadPayload → Read Value} {l : Value → Nat},
      (∀ inner, AffordsPayload counted inner → Affords counted 0 (f inner) l) →
      Affords counted 0 (check (env.descend deeper) >>= f) l := by
    intro f l hf
    cases deeper with
    | none =>
      intro s a t run
      have run : EStateM.Result.error (Error.depthExceeded env.config.maxDepth) s = .ok a t := run
      cases run
    | some inner => exact hf inner (h inner rfl)
  intro wire shape slot
  cases wire with
  | builtin t =>
    simp only [layer]
    split
    · refine descend fun inner payload => ?_
      unfold container
      split
      · exact affords_entries payload shape slot
      · refine affords_items payload (fun vs filled h => ?_) shape slot
        split <;> rfl
    · exact affords_scalar _ t
  | struct s strict => exact descend fun inner payload => affords_record payload way s strict slot
  | peer p => exact descend fun inner payload => affords_peerRecord payload way p slot
  | «enum» typeName members =>
    refine (Affords.decode Decode.consumes_varuint32).bind fun ordinal => ?_
    split
    · exact .pure (Nat.le_refl _)
    · exact .throw _

omit payload in
theorem affords_payload (way : counted = true → env.config.strategy = .interpreted) (levels : Nat) :
    AffordsPayload counted (Read.payload env levels) := by
  induction levels with
  | zero => exact affords_layer way fun _ h => by cases h
  | succ levels ih => exact affords_layer way fun _ h => by cases h; exact ih

omit payload in
/-- A frame pays for everything that is read. -/
theorem affords_frame (way : counted = true → env.config.strategy = .interpreted) (mode : RefMode) :
    Affords counted 0 (frame env mode) fun _ => 0 := by
  have ended : ∀ v : Value, Affords counted 0 (do
      let remaining := (← get).reader.remaining
      if remaining ≠ 0 then throw (.trailingBytes remaining)
      return v) fun _ => 0 := by
    intro v
    refine affords_get.bind fun state => ?_
    dsimp only
    split
    · exact (Affords.throw (l := fun _ => 0) _).bind fun _ => .pure (Nat.le_refl _)
    · exact .pure (Nat.le_refl _)
  refine (Affords.decode (Decode.consumes_head.mono (Nat.zero_le _))).bind fun isNull => ?_
  cases isNull with
  | true => exact ended .null
  | false =>
    exact ((affords_marked (affords_payload way env.config.maxDepth) mode true .dynamic).mono
      fun _ => Nat.zero_le _).bind ended

/-! ## Loops -/

/-- Whether a loop goes on no longer than there are bytes, whatever number is declared. -/
def Exhausts {α : Type} (one : Read α) : Prop :=
  ∀ n s, many one n s = many one (min n (s.reader.remaining + 1)) s

omit payload in
theorem exhausts_of_affords {α : Type} {one : Read α} (h : Affords false 0 one fun _ => 1) :
    Exhausts one :=
  fun n s => rounds_min (many one) (fun _ => rfl) (fun s a t run => h s a t run) n s
    (Nat.lt_succ_self s.reader.remaining)

omit payload in
theorem exhausts_element (env : Environment) (levels : Nat) (header : ElementHeader)
    (shape : Option Shape) : Exhausts (element env (Read.payload env levels) header shape) :=
  exhausts_of_affords (affords_marked (affords_payload (fun h => by cases h) levels) _ _ _)

omit payload in
theorem exhausts_entry (env : Environment) (levels : Nat) (keyHeader valueHeader : ElementHeader)
    (shapes : Option Shape × Option Shape) :
    Exhausts (entry env (Read.payload env levels) keyHeader valueHeader shapes) :=
  exhausts_of_affords (affords_entry (affords_payload (fun h => by cases h) levels) _ _ _)

end Read

/-! ## Instances -/

namespace Instance

/-- The number of fields of a frame that an instance reads and drops. -/
def dropped (i : Instance) (bytes : List UInt8) : Nat :=
  match i.checkFault with
  | .error _ => 0
  | .ok () => (Read.final (Read.frame i.environment i.rootMode (.ofBytes bytes i.cache))).dropped

theorem dropped_of_sane (i : Instance) (bytes : List UInt8) (sane : i.fault = none) :
    i.dropped bytes =
      (Read.final (Read.frame i.environment i.rootMode (.ofBytes bytes i.cache))).dropped := by
  have checked : i.checkFault = .ok () := by simp only [checkFault, sane]
  unfold dropped
  rw [checked]

/-- What an instance read is at most the length of the frame. -/
theorem Reachable.held_le {i : Instance} (reachable : i.Reachable) (sane : i.fault = none)
    {bytes : List UInt8} {v : Value} {s : ReadState}
    (read : Read.frame i.environment i.rootMode (.ofBytes bytes i.cache) = .ok v s) :
    s.graph.held s.filled + s.dropped ≤ bytes.length := by
  have plain := reachable.frame_interpreted sane read
  have start : (ReadState.ofBytes bytes i.cache).weight true = bytes.length := rfl
  have paid : s.weight true + 0 ≤ (ReadState.ofBytes bytes i.cache).weight true + 0 :=
    Read.affords_frame (fun _ => rfl) i.rootMode _ v s plain
  rw [start] at paid
  simp only [ReadState.weight, if_true] at paid
  omega

/-- Reading a frame ends with a value or an error, and its loops go on no longer than there are bytes.
The elements, entries and fields that it puts into the graph, those of values that are dropped
included, and the fields that it drops are no more than the bytes of the frame. This holds for all
settings, and whatever definitions are known from earlier frames. -/
theorem Reachable.deserialize_bounded {i : Instance} (reachable : i.Reachable) (bytes : List UInt8) :
    ((∃ e, (i.deserialize bytes).1 = .error e) ∨
      ∃ v g, (i.deserialize bytes).1 = .ok (v, g) ∧
        g.held (i.filled bytes) + i.dropped bytes ≤ bytes.length) ∧
    (∀ levels header shape,
      Read.Exhausts (Read.element i.environment (Read.payload i.environment levels) header shape)) ∧
    (∀ levels keyHeader valueHeader shapes,
      Read.Exhausts (Read.entry i.environment (Read.payload i.environment levels) keyHeader
        valueHeader shapes)) ∧
    Decode.Exhausts FieldEntry.decode := by
  refine ⟨?_, Read.exhausts_element i.environment, Read.exhausts_entry i.environment,
    Decode.exhausts_fieldEntry⟩
  cases fault : i.fault with
  | some e =>
    rw [i.deserialize_of_fault bytes fault]
    exact .inl ⟨_, rfl⟩
  | none =>
    have bounded : ∀ v s, Read.frame i.environment i.rootMode (.ofBytes bytes i.cache) = .ok v s →
        s.graph.held s.filled + s.dropped ≤ bytes.length := fun _ _ => reachable.held_le fault
    rw [i.deserialize_of_sane bytes fault, i.filled_of_sane bytes fault,
      i.dropped_of_sane bytes fault]
    generalize Read.frame i.environment i.rootMode (.ofBytes bytes i.cache) = result at bounded ⊢
    cases result with
    | ok v s => exact .inr ⟨v, s.graph, rfl, bounded v s rfl⟩
    | error e s => exact .inl ⟨e, rfl⟩

/-- A list of two truth values takes eleven bytes. -/
theorem deserialize_bounded_flags :
    fresh.Reachable ∧ flagsFrame.length = 11 ∧
      (fresh.deserialize flagsFrame).1.toOption.map
        (fun p => p.2.held (fresh.filled flagsFrame)) = some 2 ∧
      ((∃ e, (fresh.deserialize flagsFrame).1 = .error e) ∨
        ∃ v g, (fresh.deserialize flagsFrame).1 = .ok (v, g) ∧
          g.held (fresh.filled flagsFrame) + fresh.dropped flagsFrame ≤ flagsFrame.length) ∧
      (∀ levels header shape,
        Read.Exhausts (Read.element fresh.environment (Read.payload fresh.environment levels) header
          shape)) ∧
      (∀ levels keyHeader valueHeader shapes,
        Read.Exhausts (Read.entry fresh.environment (Read.payload fresh.environment levels) keyHeader
          valueHeader shapes)) ∧
      Decode.Exhausts FieldEntry.decode :=
  have reachable : fresh.Reachable := ⟨[], rfl⟩
  ⟨reachable, by decide +kernel, by decide +kernel, reachable.deserialize_bounded flagsFrame⟩

end Instance

end Graphwire
