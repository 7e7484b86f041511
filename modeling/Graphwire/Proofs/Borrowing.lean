import Graphwire.Proofs.Moves
import Graphwire.Proofs.Strategies

/-!
# Borrowed values

A reader checks what it reads in place against the declared shape, but takes what stands behind a
reference number as it is. So a field that does not tell a type may hold a value of another type only if
it borrowed the value: it is tracked, and the value is the one of the whole frame or is held by some node
where it fits. The memory need not keep what was borrowed: once numbers start over, a later value takes the
number. So the proof follows what was lent so far: once a value was read, it is the result of the step, or
a node that was added meanwhile owns it.
-/

namespace Graphwire

set_option autoImplicit false

/-! ## Values that fit -/

/-- Whether a value is of the declared shape, where its type is not told with it. -/
def Environment.Conforms (env : Environment) (g : Graph) (hasType : Bool) (shape : Shape) (v : Value) :
    Prop :=
  hasType = false → v.Inside g ∧ env.Suits g shape v

/-- Whether a node holds a value where it fits: in a container, or in a declared field. -/
def Node.Owns (env : Environment) (g : Graph) : Node → Value → Prop
  | .record r, v => ∃ s, env.registry.struct? r.typeName = some s ∧ ∃ f ∈ s.fields,
      r.get? f.name = some v ∧ env.Conforms g (f.hasTypeInfo false) f.shape v
  | n, v => v ∈ n.contents

/-- Whether the values of a record are of declared fields, which they fit or have borrowed from what was
lent. -/
def Record.Traced (env : Environment) (g : Graph) (lent : Value → Prop) (fields : List Field)
    (r : Record) : Prop :=
  ∀ e ∈ r.fields.entries, ∃ f ∈ fields, f.name = e.1 ∧
    (env.Conforms g (f.hasTypeInfo false) f.shape e.2 ∨ f.tracked = true ∧ lent e.2)

/-- Whether a record's type is registered, and its values fit or are borrowed. -/
def Node.Traced (env : Environment) (g : Graph) (lent : Value → Prop) : Node → Prop
  | .record r => ∃ s, env.registry.struct? r.typeName = some s ∧ r.Traced env g lent s.fields
  | _ => True

section

variable {env : Environment} {g g' : Graph} {lent lent' : Value → Prop} {v : Value}

theorem Environment.Conforms.mono {hasType : Bool} {shape : Shape} (h : env.Conforms g hasType shape v)
    (grows : g.Grows g') : env.Conforms g' hasType shape v := fun untyped =>
  let ⟨inside, suits⟩ := h untyped
  ⟨inside.mono grows, suits.mono inside grows⟩

theorem Node.Owns.mono {n : Node} (h : n.Owns env g v) (grows : g.Grows g') : n.Owns env g' v := by
  cases n with
  | record r =>
    obtain ⟨s, found, f, member, value, fits⟩ := h
    exact ⟨s, found, f, member, value, fits.mono grows⟩
  | _ => exact h

theorem Record.Traced.mono {fields more : List Field} {r : Record} (h : r.Traced env g lent fields)
    (sub : ∀ f ∈ fields, f ∈ more) (grows : g.Grows g') (lends : ∀ v, lent v → lent' v) :
    r.Traced env g' lent' more := by
  intro e member
  obtain ⟨f, declared, name, fits | ⟨tracked, borrowed⟩⟩ := h e member
  · exact ⟨f, sub f declared, name, .inl (fits.mono grows)⟩
  · exact ⟨f, sub f declared, name, .inr ⟨tracked, lends _ borrowed⟩⟩

/-- A field is set to a value that it may have. -/
theorem Record.Traced.set {done : List Field} {r : Record} {f : Field} (h : r.Traced env g lent done)
    (lands : env.Conforms g (f.hasTypeInfo false) f.shape v ∨ f.tracked = true ∧ lent v) :
    (r.set f.name v).Traced env g lent (done ++ [f]) := by
  intro e member
  rcases FieldTable.mem_insertEntry member with rfl | old
  · exact ⟨f, List.mem_append_right _ (List.mem_singleton_self f), rfl, lands⟩
  · obtain ⟨g, declared, name, rest⟩ := h e old
    exact ⟨g, List.mem_append_left _ declared, name, rest⟩

/-- A field without a value is set, and what the other fields own stays. -/
theorem Node.Owns.set {r : Record} {name : String} {w : Value} (h : (Node.record r).Owns env g w)
    (unset : r.get? name = none) : (Node.record (r.set name v)).Owns env g w := by
  obtain ⟨s, found, f, declared, held, fits⟩ := h
  have other : f.name ≠ name := fun same => by
    rw [same, unset] at held
    cases held
  exact ⟨s, found, f, declared, by rw [Record.get?_set, if_neg other, held], fits⟩

theorem Node.Traced.mono {n : Node} (h : n.Traced env g lent) (grows : g.Grows g')
    (lends : ∀ v, lent v → lent' v) : n.Traced env g' lent' := by
  cases n with
  | record r =>
    obtain ⟨s, found, traced⟩ := h
    exact ⟨s, found, traced.mono (fun _ => id) grows lends⟩
  | _ => trivial

end

/-! ## Steps -/

namespace Memory

/-- Whether a node from some index on holds a value where it fits. -/
def Owned (env : Environment) (m : Memory) (base : Nat) (v : Value) : Prop :=
  ∃ h, base ≤ h.index ∧ h.index < m.graph.size ∧ (m.graph.node h).Owns env m.graph v

/-- Whether a value may have been borrowed in a step: it stood behind a number before, the step is about
it, or it is owned by a node that was added. The number need not be its own any more. -/
def Lent (env : Environment) (about : Value → Prop) (s t : Memory) (v : Value) : Prop :=
  s.Lends v ∨ about v ∨ t.Owned env s.graph.size v

/-- What a step leaves of the memory, but for a node that is open: what stands behind numbers is lent, and
new nodes hold what fits or is borrowed. -/
structure Step (env : Environment) (open? : Option Handle) (about : Value → Prop) (s t : Memory) :
    Prop where
  grows : s.graph.Grows t.graph
  old : ∀ h, open? ≠ some h → h.index < s.graph.size → t.graph.node h = s.graph.node h
  lends : ∀ v, t.Lends v → Lent env about s t v
  new : ∀ h, s.graph.size ≤ h.index → h.index < t.graph.size →
    (t.graph.node h).Traced env t.graph (Lent env about s t)

variable {env : Environment} {open? : Option Handle} {slot : Option Nat} {about : Value → Prop}
  {s t u : Memory} {v : Value}

theorem Owned.mono {base : Nat} (h : t.Owned env base v) (grows : t.graph.Grows u.graph)
    (old : ∀ h, base ≤ h.index → h.index < t.graph.size → u.graph.node h = t.graph.node h) :
    u.Owned env base v := by
  obtain ⟨h, le, lt, owns⟩ := h
  exact ⟨h, le, Nat.lt_of_lt_of_le lt grows.size, by rw [old h le lt]; exact owns.mono grows⟩

theorem Lent.mono {about' : Value → Prop} (h : Lent env about s t v)
    (weaker : ∀ v, about v → about' v) (grows : t.graph.Grows u.graph)
    (old : ∀ h, s.graph.size ≤ h.index → h.index < t.graph.size → u.graph.node h = t.graph.node h) :
    Lent env about' s u v :=
  h.imp_right fun h => h.imp (weaker v) fun owned => owned.mono grows old

namespace Step

theorem refl (s : Memory) : Step env open? about s s where
  grows := .refl _
  old _ _ _ := rfl
  lends _ h := .inl h
  new _ le lt := absurd lt (Nat.not_lt.2 le)

theorem mono {about' : Value → Prop} (h : Step env open? about s t)
    (weaker : ∀ v, about v → about' v) : Step env open? about' s t where
  grows := h.grows
  old := h.old
  lends v lends := (h.lends v lends).mono weaker (.refl _) fun _ _ _ => rfl
  new k le lt := (h.new k le lt).mono (.refl _) fun _ lent =>
    lent.mono weaker (.refl _) fun _ _ _ => rfl

theorem weaken (h : Step env none about s t) : Step env open? about s t :=
  { h with old := fun k _ lt => h.old k nofun lt }

theorem trans {first second : Value → Prop} (h₁ : Step env open? first s t)
    (h₂ : Step env open? second t u) (bound : ∀ h, open? = some h → h.index < s.graph.size)
    (left : ∀ v, first v → about v) (right : ∀ v, second v → about v) :
    Step env open? about s u := by
  have closed (h : Handle) (le : s.graph.size ≤ h.index) : open? ≠ some h := fun same =>
    absurd (bound h same) (Nat.not_lt.2 le)
  have early (v : Value) (lent : Lent env first s t v) : Lent env about s u v :=
    lent.mono left h₂.grows fun h le lt => h₂.old h (closed h le) lt
  have late (v : Value) : Lent env second t u v → Lent env about s u v := by
    rintro (lends | kept | ⟨h, le, owned⟩)
    · exact early v (h₁.lends v lends)
    · exact .inr (.inl (right v kept))
    · exact .inr (.inr ⟨h, Nat.le_trans h₁.grows.size le, owned⟩)
  refine ⟨h₁.grows.trans h₂.grows, fun h shut lt => ?_, fun v lends => late v (h₂.lends v lends),
    fun h le lt => ?_⟩
  · exact (h₂.old h shut (Nat.lt_of_lt_of_le lt h₁.grows.size)).trans (h₁.old h shut lt)
  · by_cases before : h.index < t.graph.size
    · rw [h₂.old h (closed h le) before]
      exact (h₁.new h le before).mono h₂.grows early
    · exact (h₂.new h (Nat.not_lt.1 before) lt).mono (.refl _) late

/-- The open node is replaced. -/
theorem set {k : Handle} {n : Node} (h : Step env (some k) about s t)
    (bound : k.index < s.graph.size) (kind : n.kind = (t.graph.node k).kind) :
    Step env (some k) about s ⟨t.graph.set k n, t.slots⟩ := by
  have grows : t.graph.Grows (t.graph.set k n) := .set (Nat.lt_of_lt_of_le bound h.grows.size) kind
  have other (h : Handle) (le : s.graph.size ≤ h.index) : (t.graph.set k n).node h = t.graph.node h :=
    t.graph.node_set_other k h n fun same => by subst same; exact absurd bound (Nat.not_lt.2 le)
  have kept (v : Value) (lent : Lent env about s t v) :
      Lent env about s ⟨t.graph.set k n, t.slots⟩ v :=
    lent.mono (fun _ => id) grows fun j le _ => other j le
  refine ⟨h.grows.trans grows, fun j closed lt => ?_, fun v lends => kept v (h.lends v lends),
    fun j le lt => ?_⟩
  · exact (t.graph.node_set_other k j n fun same => closed (congrArg some same)).trans
      (h.old j closed lt)
  · rw [Graph.size_set] at lt
    rw [other j le]
    exact (h.new j le lt).mono grows kept

/-- Behind a number stands what stood behind one, or the value that was put there. -/
theorem fill (h : Step env open? about s t) (number : Nat) (value : about v) :
    Step env open? about s ⟨t.graph, t.slots.fill number v⟩ where
  grows := h.grows
  old := h.old
  lends w lends := (lends_fill lends).elim (fun same => .inr (.inl (same ▸ value))) (h.lends w)
  new := h.new

/-- A node is over: it was added, and holds all that was lent meanwhile. -/
theorem closed {n : Node} (h : Step env (some ⟨s.graph.size⟩) about (s.opened n slot) t)
    (traced : (t.graph.node ⟨s.graph.size⟩).Traced env t.graph (Lent env about (s.opened n slot) t))
    (owns : ∀ v, about v → (t.graph.node ⟨s.graph.size⟩).Owns env t.graph v) :
    Step env none (· = .handle ⟨s.graph.size⟩) s t := by
  have ext := Graph.Extends.alloc s.graph n
  have size : (s.opened n slot).graph.size = s.graph.size + 1 := Graph.size_alloc ..
  have added : s.graph.size < t.graph.size := Nat.lt_of_lt_of_le (by rw [size]; omega) h.grows.size
  have lent (v : Value) : Lent env about (s.opened n slot) t v →
      Lent env (· = .handle ⟨s.graph.size⟩) s t v := by
    rintro (lends | kept | ⟨k, le, owned⟩)
    · exact (lends_opened lends).elim (fun same => .inr (.inl same)) .inl
    · exact .inr (.inr ⟨⟨s.graph.size⟩, Nat.le_refl _, added, owns v kept⟩)
    · exact .inr (.inr ⟨k, by rw [size] at le; omega, owned⟩)
  refine ⟨ext.grows.trans h.grows, fun k _ lt => ?_, fun v lends => lent v (h.lends v lends),
    fun k le lt => ?_⟩
  · refine (h.old k (fun same => ?_) (Nat.lt_of_lt_of_le lt ext.size)).trans (ext.node k lt)
    cases same
    exact absurd lt (Nat.lt_irrefl _)
  · by_cases first : k.index = s.graph.size
    · obtain ⟨index⟩ := k
      cases first
      exact traced.mono (.refl _) lent
    · exact (h.new k (by rw [size]; omega) lt).mono (.refl _) lent

end Step

/-- What a payload leaves: a value of its wire type, and nothing else that was lent but by new nodes. -/
structure Gives (env : Environment) (wire : WireType) (s : Memory) (v : Value) (t : Memory) : Prop
    extends Step env none (· = v) s t where
  inside : v.Inside t.graph
  holds : wire.Holds t.graph v

/-- What a marked value leaves: it fits, or was borrowed, and is lent itself only if it fits. -/
structure Marks (env : Environment) (mode : RefMode) (hasType : Bool) (shape : Shape) (s : Memory)
    (v : Value) (t : Memory) : Prop
    extends Step env none
      (fun w => w = v ∧ v.isNull = false ∧ env.Conforms t.graph hasType shape v) s t where
  fits : v.isNull = false → env.Conforms t.graph hasType shape v ∨ mode = .tracking ∧ s.Lends v

/-- A value that was read in place fits. -/
theorem Gives.marks {wire : WireType} {mode : RefMode} {hasType : Bool} {shape : Shape}
    (h : Gives env wire s v t) (declared : hasType = false → env.declaredType shape = .ok wire) :
    Marks env mode hasType shape s v t := by
  have fits : env.Conforms t.graph hasType shape v :=
    fun untyped => ⟨h.inside, wire, declared untyped, h.holds⟩
  exact { h.toStep.mono fun w same => ⟨same, h.holds.isNull, fits⟩ with fits := fun _ => .inl fits }

/-- A number is reserved before a value is read, and the value is put behind it in the end. -/
theorem Gives.numbered {wire : WireType} {number : Nat}
    (h : Gives env wire ⟨s.graph, ⟨s.slots.values.push none⟩⟩ v t) :
    Gives env wire s v ⟨t.graph, t.slots.fill number v⟩ := by
  have lent (w : Value) : Lent env (· = v) ⟨s.graph, ⟨s.slots.values.push none⟩⟩ t w →
      Lent env (· = v) s t w := Or.imp_left lends_reserved
  have step : Step env none (· = v) s t :=
    ⟨h.grows, h.old, fun w lends => lent w (h.lends w lends),
      fun k le lt => (h.new k le lt).mono (.refl _) lent⟩
  exact { step.fill number rfl with inside := h.inside, holds := h.holds }

end Memory

/-! ## Readers -/

namespace Read

/-- Whether a reader of payloads leaves values of their wire types, and never unmeets a definition. -/
structure GivesPayload (env : Environment) (inner : ReadPayload) : Prop where
  gives : ∀ wire, wire.Known env → ∀ shape slot,
    Moves (inner wire shape slot) (Memory.Gives env wire)
  quiet : ∀ wire shape slot s,
    Ensures (inner wire shape slot) s fun _ t => t.met = [] → s.met = []

open Memory (Step Gives Marks)

variable {α β : Type} {env : Environment} {inner : ReadPayload} (strict : env.Strict)
  (payload : GivesPayload env inner)

include strict payload

theorem moves_typed (hasType : Bool) (shape : Shape) (slot : Option Nat) :
    Moves (typed env inner hasType shape slot) fun s v t =>
      ∃ wire, (hasType = false → env.declaredType shape = .ok wire) ∧ Gives env wire s v t := by
  rw [typed_eq]
  cases hasType with
  | true =>
    exact .silent (moves_typeInfo strict) (fun wire s => payload.quiet wire shape slot s)
      fun wire known => (payload.gives wire known shape slot).mono fun _ _ _ gives => ⟨wire, nofun, gives⟩
  | false =>
    exact .check fun wire declared => (payload.gives wire (strict.known_declaredType declared) shape
      slot).mono fun _ _ _ gives => ⟨wire, fun _ => declared, gives⟩

/-- A value is put behind its number again once it was read. -/
theorem moves_numbered (hasType : Bool) (shape : Shape) (number : Nat) :
    Moves
      (do
        let v ← typed env inner hasType shape (some number)
        publish (some number) v
        return v)
      fun s v t => ∃ wire u, (hasType = false → env.declaredType shape = .ok wire) ∧
        Gives env wire s v u ∧ t = ⟨u.graph, u.slots.fill number v⟩ := by
  have put (v : Value) : Moves (do publish (some number) v; return v) fun s w t =>
      w = v ∧ t = ⟨s.graph, s.slots.fill number v⟩ := by
    refine (moves_publish number v).bind (S := fun _ s w t => w = v ∧ t = s)
      (fun _ => .pure fun _ => ⟨rfl, rfl⟩) ?_
    rintro s _ t w _ rfl ⟨rfl, rfl⟩
    exact ⟨rfl, rfl⟩
  refine (moves_typed strict payload hasType shape (some number)).bind put ?_
  rintro s v u _ _ ⟨wire, declared, gives⟩ ⟨rfl, rfl⟩
  exact ⟨wire, u, declared, gives, rfl⟩

theorem moves_marked (mode : RefMode) (hasType : Bool) (shape : Shape) :
    Moves (marked env inner mode hasType shape) (Marks env mode hasType shape) := by
  have read : Moves (typed env inner hasType shape none) (Marks env mode hasType shape) :=
    (moves_typed strict payload hasType shape none).mono
      fun s v t ⟨wire, declared, gives⟩ => gives.marks declared
  unfold marked
  split
  · exact read
  · refine .decode (Decode.Gives.true _) fun flag _ => ?_
    split
    · exact .pure fun s => { Step.refl s with fits := fun present => by cases present }
    · exact read
    · refine .decode (Decode.Gives.true _) fun number _ => (moves_resolve number).mono ?_
      rintro s v t ⟨rfl, lends⟩
      exact { Step.refl t with fits := fun _ => .inr ⟨rfl, lends⟩ }
    · refine moves_reserve.bind (moves_numbered strict payload hasType shape) ?_
      rintro s _ _ v t ⟨rfl, rfl⟩ ⟨wire, u, declared, gives, rfl⟩
      exact gives.numbered.marks declared
    · exact .throw _

/-! ## Containers -/

omit strict payload in
theorem moves_elementHeader (part : Option Shape) : Silent (elementHeader part) fun _ => True := by
  refine .decode (Decode.Gives.true _) fun byte _ => ?_
  split
  · exact .throw _
  · split
    · exact .throw _
    · exact .pure fun _ => ⟨rfl, trivial⟩

theorem moves_element (header : ElementHeader) (part : Option Shape) :
    Moves (element env inner header part) fun s v t => Step env none (· = v) s t :=
  (moves_marked strict payload _ _ _).mono fun _ _ _ marks => marks.toStep.mono fun _ h => h.1

omit strict payload in
/-- Parts that are read one after the other are what new numbers stand for. -/
theorem moves_parts {one : Read α} {parts : α → List Value}
    (h : Moves one fun s a t => Step env none (· ∈ parts a) s t) (n : Nat) :
    Moves (many one n) fun s as t => Step env none (· ∈ as.flatMap parts) s t := by
  refine (h.many (L := fun s as t => Step env none (· ∈ as.flatMap parts) s t)
    (fun s => .refl s) (fun s a t as u first rest => ?_) n).mono fun _ _ _ step => step.2
  refine first.trans rest nofun (fun v member => ?_) fun v member => ?_
  · exact List.mem_flatMap.2 ⟨a, List.mem_cons_self, member⟩
  · rw [List.flatMap_cons]
    exact List.mem_append_right _ member

/-- What reading into an open node leaves: the node owns what stands behind new numbers, and it is
traced. -/
structure Filled (env : Environment) (k : Handle) (kind : NodeKind) (s : Memory) (v : Value) (t : Memory) :
    Prop extends Step env (some k) (fun w => (t.graph.node k).Owns env t.graph w) s t where
  value : v = .handle k
  traced : (t.graph.node k).Traced env t.graph
    (Memory.Lent env (fun w => (t.graph.node k).Owns env t.graph w) s t)
  kept : (t.graph.node k).kind = kind

omit strict payload in
/-- A node is added, put behind its reference number, and filled. -/
theorem moves_node {n : Node} {kind : NodeKind} {slot : Option Nat} {wire : WireType}
    {f : Handle → Read Value}
    (holds : ∀ (g : Graph) h, (g.node h).kind = kind → wire.Holds g (.handle h))
    (h : ∀ k, Moves (f k) fun s v t => k.index < s.graph.size → s.graph.node k = n →
      Filled env k kind s v t) :
    Moves (do let k ← alloc n; publish slot (.handle k); f k) (Gives env wire) := by
  refine (moves_opened h).mono fun s v t filled => ?_
  have size : (s.opened n slot).graph.size = s.graph.size + 1 := Graph.size_alloc ..
  have filled := filled (by rw [size]; exact Nat.lt_succ_self _) (Graph.node_alloc_new ..)
  obtain rfl := filled.value
  refine { filled.toStep.closed filled.traced fun _ => id with
    inside := fun k same => ?_
    holds := holds _ _ filled.kept }
  cases same
  exact Nat.lt_of_lt_of_le (by rw [size]; exact Nat.lt_succ_self _) filled.grows.size

omit strict payload in
/-- A node that stays without contents. -/
theorem moves_empty {k : Handle} {n : Node} (traced : ∀ g lent, n.Traced env g lent) :
    Moves (Pure.pure (.handle k)) fun s v t => k.index < s.graph.size → s.graph.node k = n →
      Filled env k n.kind s v t :=
  .pure fun s _ held =>
    { Step.refl s with
      value := rfl
      traced := by rw [held]; exact traced _ _
      kept := congrArg Node.kind held }

omit strict payload in
/-- A node is replaced by a container once its parts were read. -/
theorem moves_full {k : Handle} {empty full : Node} {about : Value → Prop}
    (kind : full.kind = empty.kind) (traced : ∀ g lent, full.Traced env g lent)
    (owns : ∀ g v, about v → full.Owns env g v) :
    Moves
      (do
        setNode k full
        return .handle k)
      fun s v t => ∀ s₀, Step env none about s₀ s → k.index < s₀.graph.size →
        s₀.graph.node k = empty → Filled env k empty.kind s₀ v t := by
  refine (moves_setNode k full).bind (S := fun _ s v t => t = s ∧ v = .handle k)
    (fun _ => .pure fun _ => ⟨rfl, rfl⟩) ?_
  rintro s _ _ v t rfl ⟨rfl, rfl⟩ s₀ step bound held
  have lt := Nat.lt_of_lt_of_le bound step.grows.size
  have same : full.kind = (s.graph.node k).kind := by rw [step.old k nofun bound, held, kind]
  have put : (s.graph.set k full).node k = full := s.graph.node_set_self k full lt
  have set : Step env (some k) about s₀ ⟨s.graph.set k full, s.slots⟩ :=
    step.weaken.set bound same
  exact
    { set.mono fun v h => by rw [put]; exact owns _ v h with
      value := rfl
      traced := by rw [put]; exact traced _ _
      kept := by rw [put, kind] }

theorem moves_items {node : List Value → Node} (kind : node = .list ∨ node = .set) (shape : Shape)
    (slot : Option Nat) {wire : WireType}
    (holds : ∀ (g : Graph) h, (g.node h).kind = (node []).kind → wire.Holds g (.handle h)) :
    Moves (items env inner node shape slot) (Gives env wire) := by
  have traced (vs : List Value) (g : Graph) (lent : Value → Prop) : (node vs).Traced env g lent := by
    rcases kind with rfl | rfl <;> trivial
  have owns (vs : List Value) (g : Graph) (v : Value) (member : v ∈ vs.flatMap ([·])) :
      (node vs).Owns env g v := by
    rw [List.flatMap_singleton'] at member
    rcases kind with rfl | rfl <;> exact member
  have same (vs : List Value) : (node vs).kind = (node []).kind := by
    rcases kind with rfl | rfl <;> rfl
  unfold items
  refine .decode (Decode.Gives.true _) fun count _ => .check fun _ _ => moves_node holds fun k => ?_
  split
  · exact moves_empty (traced [])
  · refine .after (moves_elementHeader _) fun header => ?_
    have parts := moves_parts ((moves_element strict payload header shape.parts.1).mono
      fun s v t step => step.mono fun w same => List.mem_singleton.2 same) count
    exact parts.bind (fun vs => moves_full (same vs) (traced vs) (owns vs))
      fun s vs u v t step full bound held => full s step bound held

theorem moves_entries (shape : Shape) (slot : Option Nat) {wire : WireType}
    (holds : ∀ (g : Graph) h, (g.node h).kind = .map → wire.Holds g (.handle h)) :
    Moves (entries env inner shape slot) (Gives env wire) := by
  unfold entries
  refine .decode (Decode.Gives.true _) fun count _ => .check fun _ _ => moves_node holds fun k => ?_
  split
  · exact moves_empty fun _ _ => trivial
  · refine .after (moves_elementHeader _) fun keyHeader =>
      .after (moves_elementHeader _) fun valueHeader => ?_
    have entry : Moves
        (do
          let key ← element env inner keyHeader shape.parts.1
          let value ← element env inner valueHeader shape.parts.2
          return (key, value))
        fun s e t => Step env none (· ∈ [e.1, e.2]) s t := by
      refine (moves_element strict payload keyHeader _).bind (fun key =>
        (moves_element strict payload valueHeader _).bind (T := fun s e t =>
          e.1 = key ∧ Step env none (· = e.2) s t)
          (fun value => .pure (R := fun s e t => t = s ∧ e = (key, value)) fun _ => ⟨rfl, rfl⟩) ?_) ?_
      · rintro s value t _ _ step ⟨rfl, rfl⟩
        exact ⟨rfl, step⟩
      · rintro s _ t e u first ⟨rfl, second⟩
        exact first.trans second nofun (fun v same => by simp [same]) fun v same => by simp [same]
    exact (moves_parts entry count).bind
      (fun pairs => moves_full (show (Node.map pairs).kind = (Node.map []).kind from rfl)
        (fun _ _ => trivial) fun _ _ member => member)
      fun s pairs u v t step full bound held => full s step bound held

/-! ## Records -/

/-- What reading some fields of a record into an open node leaves: the node is a record of its type with
values for these fields. -/
structure Reads (env : Environment) (k : Handle) (typeName : String) (s : Memory) (done : List Field)
    (t : Memory) : Prop
    extends Step env (some k) (fun w => (t.graph.node k).Owns env t.graph w) s t where
  record : ∃ r, t.graph.node k = .record r ∧ r.typeName = typeName ∧ r.Traced env t.graph
    (Memory.Lent env (fun w => (t.graph.node k).Owns env t.graph w) s t) done

omit strict payload in
/-- One more field was read as null, and is left alone. -/
theorem reads_null {s : StructType} {k : Handle} {done : List Field} {f : Field} {m₀ m m' : Memory}
    {v : Value} (bound : k.index < m₀.graph.size) (reads : Reads env k s.qualifiedName m₀ done m)
    (marks : Marks env f.refMode (f.hasTypeInfo false) f.shape m v m') (null : v.isNull = true) :
    Reads env k s.qualifiedName m₀ (done ++ [f]) m' := by
  obtain ⟨r, held, name, before⟩ := reads.record
  have kept : m'.graph.node k = m.graph.node k :=
    marks.old k nofun (Nat.lt_of_lt_of_le bound reads.grows.size)
  have owns (w : Value) (owned : (m.graph.node k).Owns env m.graph w) :
      (m'.graph.node k).Owns env m'.graph w := kept ▸ owned.mono marks.grows
  refine
    { reads.toStep.trans marks.toStep.weaken (fun h same => by cases same; exact bound) owns
        (fun w about => absurd (null.symm.trans about.2.1) (by decide)) with
      record := ⟨r, kept.trans held, name, ?_⟩ }
  exact before.mono (fun _ => List.mem_append_left [f]) marks.grows fun w lent =>
    lent.mono owns marks.grows fun h _ lt => marks.old h nofun lt

omit strict payload in
/-- One more field was read, and is set. -/
theorem reads_set {s : StructType} {k : Handle} {done : List Field} {f : Field}
    (found : env.registry.struct? s.qualifiedName = some s) (declared : f ∈ s.fields)
    (fresh : f.name ∉ done.map (·.name)) {m₀ m m' : Memory} {v : Value}
    (bound : k.index < m₀.graph.size) (reads : Reads env k s.qualifiedName m₀ done m)
    (marks : Marks env f.refMode (f.hasTypeInfo false) f.shape m v m') (present : v.isNull = false) :
    Reads env k s.qualifiedName m₀ (done ++ [f]) ⟨m'.graph.withField k f.name v, m'.slots⟩ := by
  obtain ⟨r, held, name, before⟩ := reads.record
  have held' : m'.graph.node k = .record r :=
    (marks.old k (Option.some_ne_none k).symm (Nat.lt_of_lt_of_le bound reads.grows.size)).trans held
  have unset : r.get? f.name = none := by
    cases was : r.get? f.name with
    | none => rfl
    | some w =>
      obtain ⟨g, member, same, -⟩ := before (f.name, w) (mem_of_lookup was)
      exact absurd (List.mem_map.2 ⟨g, member, same⟩) fresh
  have lt : k.index < m'.graph.size :=
    Nat.lt_of_lt_of_le bound (Nat.le_trans reads.grows.size marks.grows.size)
  have put : m'.graph.withField k f.name v = m'.graph.set k (.record (r.set f.name v)) := by
    simp only [Graph.withField, held']
  have kind : (Node.record (r.set f.name v)).kind = (m'.graph.node k).kind := by
    rw [held']
    rfl
  have node : (m'.graph.set k (.record (r.set f.name v))).node k = .record (r.set f.name v) :=
    m'.graph.node_set_self k _ lt
  have grows : m'.graph.Grows (m'.graph.set k (.record (r.set f.name v))) := .set lt kind
  rw [put]
  -- what the record owned stays its own, and it owns the new value if that fits
  have kept (w : Value) (owned : (m.graph.node k).Owns env m.graph w) :
      (Node.record (r.set f.name v)).Owns env (m'.graph.set k (.record (r.set f.name v))) w := by
    rw [held] at owned
    exact ((owned.mono marks.grows).set unset).mono grows
  have own (w : Value)
      (about : w = v ∧ v.isNull = false ∧ env.Conforms m'.graph (f.hasTypeInfo false) f.shape v) :
      (Node.record (r.set f.name v)).Owns env (m'.graph.set k (.record (r.set f.name v))) w := by
    obtain ⟨rfl, -, fits⟩ := about
    exact ⟨s, name ▸ found, f, declared, by rw [Record.get?_set, if_pos rfl], fits.mono grows⟩
  have step := (reads.toStep.trans marks.toStep.weaken (fun h same => by cases same; exact bound)
    kept own).set bound kind
  have lent (w : Value) (before : Memory.Lent env (fun w => (m.graph.node k).Owns env m.graph w) m₀ m w) :
      Memory.Lent env _ m₀ ⟨m'.graph.set k (.record (r.set f.name v)), m'.slots⟩ w :=
    before.mono kept (marks.grows.trans grows) fun h le lt => by
      refine (m'.graph.node_set_other k h _ fun same => ?_).trans (marks.old h (Option.some_ne_none h).symm lt)
      exact absurd bound (Nat.not_lt.2 (same ▸ le))
  refine { step.mono fun w owned => by rw [node]; exact owned with
    record := ⟨r.set f.name v, node, name, ?_⟩ }
  rw [node]
  refine (before.mono (fun _ => id) (marks.grows.trans grows) lent).set ?_
  refine (marks.fits present).imp (fun fits => fits.mono grows) fun borrowed =>
    ⟨?_, lent v (reads.lends v borrowed.2)⟩
  by_contra untracked
  exact Field.refMode_ne_tracking (Bool.not_eq_true _ ▸ untracked) borrowed.1

theorem moves_field {s : StructType} (plain : s.isCompatible = false) {k : Handle} {done : List Field}
    {f : Field} (found : env.registry.struct? s.qualifiedName = some s) (declared : f ∈ s.fields)
    (fresh : f.name ∉ done.map (·.name)) :
    Moves (field env inner s k f) fun m _ m' => ∀ m₀, k.index < m₀.graph.size →
      Reads env k s.qualifiedName m₀ done m → Reads env k s.qualifiedName m₀ (done ++ [f]) m' := by
  unfold field
  rw [plain]
  refine (moves_marked strict payload f.refMode (f.hasTypeInfo false) f.shape).bind
    (S := fun v m _ m' => m' = if v.isNull then m else ⟨m.graph.withField k f.name v, m.slots⟩)
    (fun v => ?_) fun m v m' _ m'' marks same m₀ bound reads => ?_
  · split
    · exact moves_noteNull k f.name
    · exact moves_setField k f.name v
  · subst same
    split
    · exact reads_null bound reads marks ‹_›
    · exact reads_set found declared fresh bound reads marks (Bool.not_eq_true _ ▸ ‹_›)

theorem moves_each {s : StructType} (plain : s.isCompatible = false) {k : Handle}
    (found : env.registry.struct? s.qualifiedName = some s) (fs done : List Field)
    (declared : ∀ f ∈ fs, f ∈ s.fields) (names : ((done ++ fs).map (·.name)).Nodup) :
    Moves (each (field env inner s k) fs) fun m _ m' => ∀ m₀, k.index < m₀.graph.size →
      Reads env k s.qualifiedName m₀ done m → Reads env k s.qualifiedName m₀ (done ++ fs) m' := by
  induction fs generalizing done with
  | nil =>
    refine .pure fun m m₀ _ reads => ?_
    rwa [List.append_nil]
  | cons f fs ih =>
    obtain ⟨here, others⟩ := List.forall_mem_cons.1 declared
    have fresh : f.name ∉ done.map (·.name) := by
      rw [List.map_append, List.map_cons] at names
      exact fun member => List.disjoint_of_nodup_append names member List.mem_cons_self
    have rest := ih (done ++ [f]) others (by rwa [List.append_assoc])
    refine (moves_field strict payload plain found here fresh).bind (fun _ => rest) ?_
    intro m _ m' _ m'' first second m₀ bound reads
    have second := second m₀ bound (first m₀ bound reads)
    rwa [List.append_assoc] at second

theorem moves_record {s : StructType} (found : env.registry.struct? s.qualifiedName = some s)
    (strictly : Bool) (slot : Option Nat) :
    Moves (record env inner s strictly slot) (Gives env (.struct s strictly)) := by
  have built := strict.built.built found
  have body : Moves
      (do
        let h ← alloc (.record (.ofType s.qualifiedName))
        publish slot (.handle h)
        each (field env inner s h) s.fields
        return Value.handle h)
      (Gives env (.struct s strictly)) := by
    refine moves_node (fun g h kind => ⟨h, rfl, kind⟩) fun k => ?_
    refine (moves_each strict payload built.kind_eq found s.fields [] (fun _ => id) built.names).bind
      (S := fun _ m v m' => m' = m ∧ v = .handle k) (fun _ => .pure fun _ => ⟨rfl, rfl⟩) ?_
    rintro m _ _ v m' reads ⟨rfl, rfl⟩ bound held
    have reads := reads m bound { Step.refl m with
      record := ⟨_, held, rfl, fun _ member => absurd member List.not_mem_nil⟩ }
    obtain ⟨r, held, name, traced⟩ := reads.record
    exact
      { reads.toStep with
        value := rfl
        traced := by
          rw [held] at traced ⊢
          exact ⟨s, name ▸ found, traced⟩
        kept := by rw [held]; exact congrArg NodeKind.record name }
  unfold record newRecord Read.fields
  rw [strict.strategy]
  cases strictly with
  | true =>
    simp only [if_true, bind_assoc, pure_bind]
    exact .decode (Decode.Gives.true _) fun version _ => .check fun _ _ => body
  | false =>
    simp only [Bool.false_eq_true, if_false, bind_assoc, pure_bind]
    exact body

/-! ## Payloads -/

omit strict payload in
theorem gives_silent {wire : WireType} {m : Memory} {v : Value} (holds : wire.Holds m.graph v)
    (scalar : v.handle? = none) : Gives env wire m v m :=
  { Step.refl m with
    inside := fun k same => by rw [same] at scalar; cases scalar
    holds }

omit strict payload in
theorem moves_scalar (t : TypeId) : Moves (scalar env.config.limits t) (Gives env (.builtin t)) :=
  fun s => (ensures_scalar env.config.limits t s).mono fun v u read empty => by
    obtain ⟨⟨r, rfl⟩, ⟨b, ht, holds⟩, -⟩ := read
    refine ⟨empty, fun none => ⟨none, gives_silent (.inl ⟨b, ht, holds⟩) ?_⟩⟩
    cases holds <;> rfl

omit payload in
theorem gives_layer {deeper : Option ReadPayload}
    (h : ∀ inner, deeper = some inner → GivesPayload env inner) {wire : WireType}
    (known : wire.Known env) (shape : Shape) (slot : Option Nat) :
    Moves (layer env deeper wire shape slot) (Gives env wire) := by
  have descend {R : Memory → Value → Memory → Prop} {f : ReadPayload → Read Value}
      (hf : ∀ inner, GivesPayload env inner → Moves (f inner) R) :
      Moves (check (env.descend deeper) >>= f) R :=
    .check fun inner found => hf inner (h inner (Environment.inner_of_descend found))
  cases wire with
  | builtin t =>
    simp only [layer]
    split
    · rename_i container
      refine descend fun inner payload => ?_
      have holds {kind : NodeKind} (same : t.nodeKind? = some kind) (g : Graph) (k : Handle)
          (held : (g.node k).kind = kind) : (WireType.builtin t).Holds g (.handle k) :=
        .inr ⟨k, rfl, by rw [same, held]⟩
      refine container_cases (P := fun m => Moves m _) container ?_ ?_ ?_ <;> rintro rfl
      · exact moves_items strict payload (.inl rfl) shape slot (holds rfl)
      · exact moves_items strict payload (.inr rfl) shape slot (holds rfl)
      · exact moves_entries strict payload shape slot (holds rfl)
    · exact moves_scalar t
  | struct s strictly =>
    exact descend fun inner payload => moves_record strict payload known strictly slot
  | peer p => exact known.elim
  | «enum» typeName members =>
    refine .decode (Decode.Gives.true _) fun ordinal _ => ?_
    split
    · exact .pure fun m => gives_silent ⟨ordinal, rfl, ‹_›⟩ rfl
    · exact .throw _

omit payload in
theorem givesPayload (levels : Nat) : GivesPayload env (Read.payload env levels) := by
  refine ⟨fun wire known shape slot => ?_, quiet_payload env levels⟩
  induction levels generalizing wire shape slot with
  | zero => exact gives_layer strict (fun _ none => by cases none) known shape slot
  | succ levels ih =>
    refine gives_layer strict (fun inner same => ?_) known shape slot
    cases same
    exact ⟨fun wire known shape slot => ih wire known shape slot, quiet_payload env levels⟩

omit payload in
/-- A whole frame leaves nodes that hold what fits, or is borrowed from what it gives or what is owned. -/
theorem moves_frame (mode : RefMode) :
    Moves (frame env mode) fun s v t => s.graph.size = 0 → (∀ w, ¬s.Lends w) →
      ∀ h, h.index < t.graph.size →
        (t.graph.node h).Traced env t.graph fun w => w = v ∨ t.Owned env 0 w := by
  have left {s t : Memory} {v : Value} (step : Step env none (· = v) s t) (nodes : s.graph.size = 0)
      (none : ∀ w, ¬s.Lends w) (h : Handle) (lt : h.index < t.graph.size) :
      (t.graph.node h).Traced env t.graph fun w => w = v ∨ t.Owned env 0 w := by
    refine (step.new h (nodes ▸ Nat.zero_le _) lt).mono (.refl _) fun w lent => ?_
    exact nodes ▸ lent.resolve_left (none w)
  have marked := moves_marked strict (givesPayload strict env.config.maxDepth) mode true .dynamic
  intro s
  refine ensures_frame (fun _ empty => ⟨empty, fun none => ⟨none, left (.refl _)⟩⟩) fun reader =>
    (marked { s with reader }).mono fun v t read empty => (read empty).imp_right fun moved none => ?_
  exact (moved none).imp_right fun marks => left (marks.toStep.mono fun _ h => h.1)

end Read

/-! ## Instances -/

namespace Instance

/-- In strict mode, whatever bytes a reader without definitions accepts, the records in the result are of
registered structs and have values for declared fields only. The value of a field that does not tell its
type is of the declared shape, unless the field is tracked and the value is the one of the whole frame, or
is held by some node where it fits. -/
theorem Reachable.fits_or_borrowed {i : Instance} (reachable : i.Reachable)
    (strict : i.config.compatible = false) {bytes : List UInt8} {v : Value} {g : Graph}
    (read : (i.deserialize bytes).1 = .ok (v, g)) (undefined : i.met bytes = []) {h : Handle}
    (bound : h.index < g.size) {r : Record} (node : g.node h = .record r) :
    ∃ s, i.registry.struct? r.typeName = some s ∧ ∀ e ∈ r.fields.entries, ∃ f ∈ s.fields,
      f.name = e.1 ∧ (f.hasTypeInfo false = false → i.environment.Suits g f.shape e.2 ∨
        f.tracked = true ∧ (e.2 = v ∨ ∃ k, k.index < g.size ∧ (g.node k).Owns i.environment g e.2)) := by
  obtain ⟨sane, st, rfl, run⟩ := ok_of_deserialize read
  rw [i.met_of_sane bytes sane, run] at undefined
  have traced := ((Read.moves_frame (reachable.strict sane strict) i.rootMode _ v st
    (reachable.frame_interpreted sane run) undefined).2 rfl).2 rfl
    (fun w ⟨number, found⟩ => by cases found) h bound
  rw [show st.memory.graph.node h = _ from node] at traced
  obtain ⟨s, found, traced⟩ := traced
  refine ⟨s, found, fun e member => ?_⟩
  obtain ⟨f, declared, name, fits | ⟨tracked, borrowed⟩⟩ := traced e member
  · exact ⟨f, declared, name, fun untyped => .inl (fits untyped).2⟩
  · refine ⟨f, declared, name, fun _ => .inr ⟨tracked, borrowed.imp_right ?_⟩⟩
    rintro ⟨k, -, lt, owns⟩
    exact ⟨k, lt, owns⟩

/-- An instance that tracks references. It knows a struct with a list that may be a reference. -/
def knotted : Instance :=
  [.setTrackRef true,
    .registerStruct (some 1) ⟨.ofNames "demo" "T", none, false,
      [{ FieldDecl.ofShape "xs" (.list (.scalar .int32)) with nullable := true, refEligible := true }]⟩].foldl
    perform fresh

/-- A record that stands where a list of its own is declared. -/
def knot : Graph := ⟨#[.record ((Record.ofType "demo.T").set "xs" (.handle ⟨0⟩))]⟩

/-- The number of the record leads the reader of the list to the record, which is the whole frame. -/
theorem fits_or_borrowed_knot :
    knotted.Reachable ∧ knotted.config.compatible = false ∧
      (knotted.deserialize [212, 98, 6, 0, 27, 1, 196, 234, 166, 98, 254, 0]).1 =
        .ok (.handle ⟨0⟩, knot) ∧
      knotted.met [212, 98, 6, 0, 27, 1, 196, 234, 166, 98, 254, 0] = [] ∧
      ∃ s, knotted.registry.struct? "demo.T" = some s ∧ ∀ e ∈ [("xs", Value.handle ⟨0⟩)],
        ∃ f ∈ s.fields, f.name = e.1 ∧ (f.hasTypeInfo false = false →
          knotted.environment.Suits knot f.shape e.2 ∨ f.tracked = true ∧ (e.2 = .handle ⟨0⟩ ∨
            ∃ k, k.index < knot.size ∧ (knot.node k).Owns knotted.environment knot e.2)) := by
  have reachable : knotted.Reachable := ⟨_, rfl⟩
  have strict : knotted.config.compatible = false := by decide +kernel
  have read : (knotted.deserialize [212, 98, 6, 0, 27, 1, 196, 234, 166, 98, 254, 0]).1 =
      .ok (.handle ⟨0⟩, knot) := by decide +kernel
  have undefined : knotted.met [212, 98, 6, 0, 27, 1, 196, 234, 166, 98, 254, 0] = [] := by
    decide +kernel
  exact ⟨reachable, strict, read, undefined,
    reachable.fits_or_borrowed strict read undefined (h := ⟨0⟩) (by decide)
      (r := (Record.ofType "demo.T").set "xs" (.handle ⟨0⟩)) rfl⟩

end Instance

end Graphwire
