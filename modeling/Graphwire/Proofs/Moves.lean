import Graphwire.Proofs.Accepted
import Graphwire.Proofs.History

/-!
# Readers without definitions

A reader that meets no definition goes by the registered types alone. What a step of it does is told by
the graph and the reference numbers before and after. Telling types from what stands in front of values
leaves both as they are.
-/

namespace Graphwire

set_option autoImplicit false

/-! ## Memory -/

/-- What a reader builds: the graph, and the values behind reference numbers. -/
structure Memory where
  graph : Graph
  slots : Slots

def ReadState.memory (s : ReadState) : Memory := ⟨s.graph, s.slots⟩

namespace Memory

/-- Whether a value stands behind a reference number. -/
def Lends (m : Memory) (v : Value) : Prop := ∃ number : Nat, m.slots.values[number]? = some (some v)

/-- The memory with a new node, which is put behind its reference number. -/
def opened (m : Memory) (n : Node) (slot : Option Nat) : Memory :=
  ⟨(m.graph.alloc n).2, slot.elim m.slots fun number => m.slots.fill number (.handle ⟨m.graph.size⟩)⟩

variable {m : Memory} {v w : Value}

theorem lends_fill {g : Graph} {number : Nat} (h : Lends ⟨g, m.slots.fill number v⟩ w) :
    w = v ∨ m.Lends w := by
  obtain ⟨other, found⟩ := h
  simp only [Slots.fill, Array.getElem?_setIfInBounds] at found
  split at found
  · split at found
    · exact .inl (Option.some.inj (Option.some.inj found)).symm
    · cases found
  · exact .inr ⟨other, found⟩

theorem lends_opened {n : Node} {slot : Option Nat} (h : (m.opened n slot).Lends w) :
    w = .handle ⟨m.graph.size⟩ ∨ m.Lends w := by
  cases slot with
  | none => exact .inr h
  | some number => exact lends_fill h

/-- Nothing stands behind a number that was just reserved. -/
theorem lends_reserved {g : Graph} (h : Lends ⟨g, ⟨m.slots.values.push none⟩⟩ w) : m.Lends w := by
  obtain ⟨number, found⟩ := h
  rw [show (Memory.mk g ⟨m.slots.values.push none⟩).slots.values = m.slots.values.push none from rfl,
    Array.getElem?_push] at found
  split at found
  · cases found
  · exact ⟨number, found⟩

end Memory

namespace Read

variable {α β : Type}

/-- Whether a step that meets no definition is told by the memory before and after. -/
def Moves (m : Read α) (R : Memory → α → Memory → Prop) : Prop :=
  ∀ s, Ensures m s fun a t => t.met = [] → s.met = [] ∧
    (s.received = [] → t.received = [] ∧ R s.memory a t.memory)

/-- A step that meets no definition leaves the memory as it is. -/
abbrev Silent (m : Read α) (D : α → Prop) : Prop := Moves m fun s a t => t = s ∧ D a

variable {m : Read α} {f : α → Read β} {R R' : Memory → α → Memory → Prop}
  {S : α → Memory → β → Memory → Prop} {T : Memory → β → Memory → Prop} {D : α → Prop}

namespace Moves

theorem pure {a : α} (h : ∀ s, R s a s) : Moves (pure a) R :=
  fun _ => Ensures.pure fun empty => ⟨empty, fun none => ⟨none, h _⟩⟩

theorem throw (e : Error) : Moves (throw e) R := fun _ => Ensures.throw e

theorem mono (h : Moves m R) (weaker : ∀ s a t, R s a t → R' s a t) : Moves m R' :=
  fun s => (h s).mono fun _ _ step empty =>
    (step empty).imp_right fun step none => (step none).imp_right (weaker _ _ _)

theorem bind (hm : Moves m R) (hf : ∀ a, Moves (f a) (S a))
    (both : ∀ s a t b u, R s a t → S a t b u → T s b u) : Moves (m >>= f) T := by
  intro s
  refine (hm s).bind fun a t first => (hf a t).mono fun b u second empty => ?_
  obtain ⟨empty, second⟩ := second empty
  obtain ⟨empty, first⟩ := first empty
  refine ⟨empty, fun none => ?_⟩
  obtain ⟨none, first⟩ := first none
  obtain ⟨none, second⟩ := second none
  exact ⟨none, both _ _ _ _ _ first second⟩

/-- A silent step leaves everything to the next one, which may rely on its result. -/
theorem silent (hm : Silent m D) (quiet : ∀ a s, Ensures (f a) s fun _ t => t.met = [] → s.met = [])
    (hf : ∀ a, D a → Moves (f a) T) : Moves (m >>= f) T := by
  intro s
  refine (hm s).bind fun a u first => ?_
  by_cases given : D a
  · refine (hf a given u).mono fun b t second empty => ?_
    obtain ⟨empty, second⟩ := second empty
    obtain ⟨empty, first⟩ := first empty
    refine ⟨empty, fun none => ?_⟩
    obtain ⟨none, same, -⟩ := first none
    exact same ▸ second none
  · refine (quiet a u).mono fun b t kept empty => ?_
    obtain ⟨empty, first⟩ := first (kept empty)
    exact ⟨empty, fun none => absurd (first none).2.2 given⟩

/-- A silent step with an arbitrary result leaves everything to the next one. -/
theorem after (hm : Silent m fun _ => True) (hf : ∀ a, Moves (f a) T) : Moves (m >>= f) T :=
  hm.bind hf fun _ _ _ _ _ first second => first.1 ▸ second

theorem decode {d : Decode α} (h : d.Gives D) (hf : ∀ a, D a → Moves (f a) T) :
    Moves (Read.decode d >>= f) T := by
  intro s
  refine Ensures.bind (Q := fun a u => D a ∧ ∃ r, u = { s with reader := r })
    (.decode fun a r run => ⟨h _ a r run, r, rfl⟩) ?_
  rintro a _ ⟨given, r, rfl⟩
  exact hf a given _

theorem check {x : Except Error α} (hf : ∀ a, x = .ok a → Moves (f a) T) :
    Moves (Read.check x >>= f) T := by
  intro s
  refine Ensures.bind (Q := fun a u => x = .ok a ∧ u = s) (.check fun a ok => ⟨ok, rfl⟩) ?_
  rintro a _ ⟨ok, rfl⟩
  exact hf a ok _

theorem many {one : Read α} {L : Memory → List α → Memory → Prop} (h : Moves one R)
    (nil : ∀ s, L s [] s) (cons : ∀ s a t as u, R s a t → L t as u → L s (a :: as) u) (n : Nat) :
    Moves (Read.many one n) fun s as t => as.length = n ∧ L s as t := by
  induction n with
  | zero => exact pure fun s => ⟨rfl, nil s⟩
  | succ n ih =>
    refine h.bind (fun a => ih.bind (S := fun as t b u => b = a :: as ∧ u = t)
      (T := fun t b u => ∃ as, b = a :: as ∧ as.length = n ∧ L t as u)
      (fun as => pure fun _ => ⟨rfl, rfl⟩) ?_) ?_
    · rintro s as t _ _ ⟨length, rest⟩ ⟨rfl, rfl⟩
      exact ⟨as, rfl, length, rest⟩
    · rintro s a t _ u first ⟨as, rfl, length, rest⟩
      exact ⟨congrArg (· + 1) length, cons s a t as u first rest⟩

end Moves

/-! ## Steps -/

theorem moves_opened {n : Node} {slot : Option Nat} {f : Handle → Read β} {S : Handle → Memory → β → Memory → Prop}
    (h : ∀ k, Moves (f k) (S k)) :
    Moves (do let k ← alloc n; publish slot (.handle k); f k) fun s b t =>
      S ⟨s.graph.size⟩ (s.opened n slot) b t := by
  intro s b t run empty
  rw [alloc_publish] at run
  exact h _ _ b t run empty

theorem moves_setNode (h : Handle) (n : Node) :
    Moves (setNode h n) fun s _ t => t = ⟨s.graph.set h n, s.slots⟩ :=
  fun _ => Ensures.modify fun empty => ⟨empty, fun none => ⟨none, rfl⟩⟩

theorem moves_setField (h : Handle) (name : String) (v : Value) :
    Moves (setField h name v) fun s _ t => t = ⟨s.graph.withField h name v, s.slots⟩ := by
  intro s a t run empty
  rw [setField_apply] at run
  cases run
  exact ⟨empty, fun none => ⟨none, rfl⟩⟩

theorem moves_noteNull (h : Handle) (name : String) :
    Moves (noteNull h name) fun s _ t => t = s :=
  fun _ => Ensures.modify fun empty => ⟨empty, fun none => ⟨none, rfl⟩⟩

theorem moves_publish (number : Nat) (v : Value) :
    Moves (publish (some number) v) fun s _ t => t = ⟨s.graph, s.slots.fill number v⟩ :=
  fun _ => Ensures.modify fun empty => ⟨empty, fun none => ⟨none, rfl⟩⟩

theorem moves_reserve : Moves reserve fun s number t =>
    number = s.slots.values.size % 2 ^ 32 ∧ t = ⟨s.graph, ⟨s.slots.values.push none⟩⟩ := by
  intro s a t run empty
  cases run
  exact ⟨empty, fun none => ⟨none, rfl, rfl⟩⟩

theorem moves_resolve (number : Nat) :
    Moves (resolve number) fun s v t => t = s ∧ s.Lends v := by
  intro s
  refine (Ensures.get (Q := fun state t => state = s ∧ t = s) ⟨rfl, rfl⟩).bind fun state t same => ?_
  obtain ⟨rfl, rfl⟩ := same
  refine Ensures.check fun v ok empty => ⟨empty, fun none => ⟨none, rfl, ?_⟩⟩
  unfold Slots.resolve at ok
  split at ok <;> cases ok
  exact ⟨number, ‹_›⟩

/-- No payload unmeets a definition. -/
theorem quiet_payload (env : Environment) (levels : Nat) (wire : WireType) (shape : Shape)
    (slot : Option Nat) (s : ReadState) :
    Ensures (payload env levels wire shape slot) s fun _ t => t.met = [] → s.met = [] := by
  intro v t run empty
  have walk : Walk (fun {α} (Q : α → Prop) m₁ m₂ => Blind env.registry [] Q m₁ m₂) env env
      (fun _ => True) fun _ => True :=
    walk_blind (fun _ member => absurd member List.not_mem_nil) rfl
  have admits : wire.Admits (fun _ => True) fun _ => True := by cases wire <;> exact trivial
  have kept := ((walk.payload (walk.relatedFields_self rfl) rfl levels).related wire admits shape
    slot s).1.1
  rw [run] at kept
  have sub : s.met ⊆ [] := empty ▸ kept
  exact List.subset_nil.1 sub

/-! ## Types -/

theorem moves_received : Moves received fun s l t => t = s ∧ l = [] := by
  intro s a t run empty
  cases run
  exact ⟨empty, fun none => ⟨none, rfl, none⟩⟩

/-- A reader that meets no definition gets none. -/
theorem moves_definition (r : Registry) : Moves (definition r) fun _ _ _ => False := by
  unfold definition
  refine .decode (Decode.Gives.true _) fun marker _ => moves_received.bind (S := fun l _ _ _ => l ≠ [])
    (fun received => ?_) fun s l t b u first second => absurd first.2 second
  split
  · split
    · rename_i p found
      refine .pure fun _ none => ?_
      rw [none] at found
      cases found
    · exact .throw _
  · split
    · exact .throw _
    · refine .decode (Decode.Gives.true _) fun header _ s => ?_
      have kept (u : ReadState) (noted : u.met ≠ []) :
          Ensures (definitionAfter r header) u fun _ t => t.met ≠ [] := by
        intro p t run
        have same : (final (definitionAfter r header u)).met = u.met := met_definitionAfter header u
        rw [run] at same
        exact fun empty => noted (same.symm.trans empty)
      refine (Ensures.modify (Q := fun _ u => u.met ≠ []) (by simp)).bind fun _ u noted =>
        (kept u noted).bind fun p t noted =>
          (Ensures.modify (Q := fun _ u => u.met ≠ []) noted).bind fun _ _ noted => ?_
      exact Ensures.pure fun empty => absurd empty noted

end Read

/-- Whether a reader can be told to read values of a wire type. -/
def WireType.Known (env : Environment) : WireType → Prop
  | .builtin _ => True
  | .struct s _ => env.registry.struct? s.qualifiedName = some s
  | .peer _ => False
  | .enum typeName members => env.config.requireRegistration = true →
      ∃ e, env.registry.enum? typeName = some e ∧ members = some e.members.length

section

variable {env : Environment} (strict : env.Strict)

include strict

theorem Environment.Strict.known_named {name : String} {named : NamedType}
    (found : env.registry.named? name = some named) :
    (match named with
      | .struct s => WireType.struct s true
      | .enum e => e.wire).Known env := by
  cases named with
  | struct s =>
    have found := Registry.named?_eq_struct_iff.1 found
    show env.registry.struct? s.qualifiedName = some s
    rw [(strict.built.built found).qualifiedName, found]
  | «enum» e =>
    have found := Registry.enum?_of_named? found
    refine fun _ => ⟨e, ?_, rfl⟩
    rw [(strict.sound.enumName found).qualifiedName, found]

theorem Environment.Strict.known_declaredType {shape : Shape} {wire : WireType}
    (declared : env.declaredType shape = .ok wire) : wire.Known env := by
  cases shape with
  | named name =>
    simp only [declaredType] at declared
    split at declared <;> cases declared
    all_goals exact strict.known_named ‹_›
  | dynamic => cases declared
  | _ => cases declared; exact trivial

theorem Environment.Strict.known_referredType {named : Option NamedType} {name : String}
    {lenient : Bool} {wire : WireType}
    (found : ∀ n, named = some n → ∃ name, env.registry.named? name = some n)
    (free : lenient = true → env.config.requireRegistration = false)
    (referred : Read.referredType named name lenient = .ok wire) : wire.Known env := by
  unfold Read.referredType at referred
  split at referred
  · split at referred <;> cases referred
    obtain ⟨_, found⟩ := found _ rfl
    exact strict.known_named found
  · cases referred
    obtain ⟨_, found⟩ := found _ rfl
    exact strict.known_named found
  · split at referred <;> cases referred
    rename_i unknown
    intro required
    rw [free unknown] at required
    cases required

end

namespace Read

variable {α β : Type} {env : Environment}

theorem checkKind_eq_ok {kind : TypeId} {wire wire' : WireType} (h : checkKind kind wire = .ok wire') :
    wire' = wire := by
  unfold checkKind at h
  split at h <;> first | (split at h <;> cases h <;> rfl) | (cases h; rfl)

theorem moves_text {f : String → Read β} {T : Memory → β → Memory → Prop} (limits : SizeLimits)
    (hf : ∀ text, Moves (f text) T) : Moves (text limits >>= f) T := by
  simp only [text, bind_assoc]
  exact .decode (Decode.Gives.true _) fun _ _ => .check fun _ _ =>
    .decode (Decode.Gives.true _) fun text _ => hf text

/-- What a name or an identifier leads to is known, also where unknown enumerations are admitted. -/
theorem known_checked (strict : env.Strict) {kind : TypeId} {named : Option NamedType} {name : String}
    {wire wire' : WireType} (found : ∀ n, named = some n → ∃ name, env.registry.named? name = some n)
    (referred : referredType named name (!env.config.requireRegistration && kind.isEnum) = .ok wire)
    (fits : checkKind kind wire = .ok wire') : wire'.Known env := by
  rw [checkKind_eq_ok fits]
  refine strict.known_referredType found (fun free => ?_) referred
  rw [Bool.and_eq_true, Bool.not_eq_true'] at free
  exact free.1

theorem ensures_referred_known (strict : env.Strict) {s : ReadState} (kind : TypeId)
    {named : Option NamedType} {name : String}
    (found : ∀ n, named = some n → ∃ name, env.registry.named? name = some n) :
    Ensures (do
        let wire ← check (referredType named name (!env.config.requireRegistration && kind.isEnum))
        check (checkKind kind wire)) s fun wire _ => wire.Known env :=
  (Ensures.check (Q := fun wire _ => referredType named name _ = .ok wire) fun _ ok => ok).bind
    fun _ _ referred => Ensures.check fun _ fits => known_checked strict found referred fits

/-- The type that stands in front of a value is one that the registry knows, unless a definition was
received. -/
theorem ensures_typeInfo_known (strict : env.Strict) {s : ReadState} :
    Ensures (typeInfo env) s fun wire _ => (∀ p, wire ≠ .peer p) → wire.Known env := by
  unfold typeInfo
  refine .last fun code t => ?_
  dsimp only
  split
  · refine .last fun id t => (ensures_referred_known strict _ fun n found => ?_).mono
      fun _ _ known _ => known
    obtain ⟨name, -, found⟩ := Option.bind_eq_some_iff.1 found
    exact ⟨name, found⟩
  · split
    · exact .last fun package t => .last fun typeName t =>
        (ensures_referred_known strict _ fun n found => ⟨_, found⟩).mono fun _ _ known _ => known
    · split
      · refine .last fun p t => ?_
        split
        · exact .last fun _ _ => .pure fun plain => absurd rfl (plain p)
        · exact .pure fun plain => absurd rfl (plain p)
      · split
        · exact .pure fun _ => trivial
        · exact .throw _

/-- The type that stands in front of a value is one that the registry knows. -/
theorem moves_typeInfo (strict : env.Strict) : Silent (typeInfo env) (·.Known env) := by
  have referred : ∀ (kind : TypeId) (named : Option NamedType) (name : String),
      (∀ n, named = some n → ∃ name, env.registry.named? name = some n) →
      Silent (do
          let wire ← check (referredType named name
            (!env.config.requireRegistration && kind.isEnum))
          check (checkKind kind wire)) (·.Known env) := by
    intro kind named name found
    refine .check fun wire referred => ?_
    rw [← bind_pure (check (checkKind kind wire))]
    exact .check fun wire' fits => .pure fun s => ⟨rfl, known_checked strict found referred fits⟩
  unfold typeInfo
  refine .decode (Decode.Gives.true _) fun code _ => ?_
  dsimp only
  split
  · refine .decode (Decode.Gives.true _) fun id _ => referred _ _ _ fun n found => ?_
    obtain ⟨name, -, found⟩ := Option.bind_eq_some_iff.1 found
    exact ⟨name, found⟩
  · split
    · exact moves_text _ fun package => moves_text _ fun typeName =>
        referred _ _ _ fun n found => ⟨_, found⟩
    · split
      · refine (moves_definition _).bind (S := fun _ _ _ _ => True) (fun p => ?_)
          fun _ _ _ _ _ never => never.elim
        split
        · exact .bind (R := fun _ _ _ => False) (S := fun _ _ _ _ => True) (.throw _)
            (fun _ => .pure fun _ => trivial) fun _ _ _ _ _ never => never.elim
        · exact .pure fun _ => trivial
      · split
        · exact .pure fun _ => ⟨rfl, trivial⟩
        · exact .throw _

end Read

end Graphwire
