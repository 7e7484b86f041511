import Graphwire.Proofs.Reading
import Graphwire.Proofs.Scalars

/-!
# What ceilings admit

Every size is checked before the bytes that it announces are read. So all that a successful reader
put into the graph stays within the ceilings: containers, the binaries and texts in them, and those
in the fields of records. Only defaults are not checked; the notes of the reader tell which nodes and
which fields these are, and that each is the default of a field of a registered type.
-/

namespace Graphwire

set_option autoImplicit false

/-! ## Values -/

/-- Whether a scalar is within the ceilings. A text is measured in characters. -/
def Value.Within (limits : SizeLimits) : Value → Prop
  | .string s => limits.Admits .string s.length
  | .binary bytes => limits.Admits .binary bytes.length
  | _ => True

namespace Filling

/-- The value that a field got. -/
def value (f : Filling) : Value := f.default.root.shift f.offset

/-- Whether a node was added with a default. -/
def Covers (f : Filling) (h : Handle) : Prop :=
  f.offset ≤ h.index ∧ h.index < f.offset + f.default.graph.size

/-- Whether an entry of a record is the default that was put there. -/
def Fills (f : Filling) (h : Handle) (e : String × Value) : Prop :=
  f.record = h ∧ f.field = e.1 ∧ f.value = e.2

end Filling

/-- Whether a node is within the ceilings, apart from the defaults in its fields. -/
def Node.Within (limits : SizeLimits) (filled : List Filling) (h : Handle) : Node → Prop
  | .list items | .set items =>
    limits.Admits .collection items.length ∧ ∀ v ∈ items, v.Within limits
  | .map entries =>
    limits.Admits .map entries.length ∧ ∀ e ∈ entries, e.1.Within limits ∧ e.2.Within limits
  | .record r => ∀ e ∈ r.fields.entries, e.2.Within limits ∨ ∃ f ∈ filled, f.Fills h e

/-- Whether all nodes are within the ceilings, apart from defaults. -/
def Graph.Within (limits : SizeLimits) (filled : List Filling) (g : Graph) : Prop :=
  ∀ h, (∀ f ∈ filled, ¬f.Covers h) → (g.node h).Within limits filled h

/-- Whether a default is one of a field of a registered struct. -/
def Registry.Defaults (r : Registry) (name : String) (t : Template) : Prop :=
  ∃ s f, r.HasStruct s ∧ f ∈ s.fields ∧ f.name = name ∧ f.missingValue = .ok (some t)

theorem Node.Within.mono {limits : SizeLimits} {filled more : List Filling} {h : Handle} {n : Node}
    (within : n.Within limits filled h) (sub : filled ⊆ more) : n.Within limits more h := by
  cases n with
  | record r => exact fun e he => (within e he).imp_right fun ⟨f, hf, fills⟩ => ⟨f, sub hf, fills⟩
  | _ => exact within

theorem Graph.within_empty (limits : SizeLimits) : Graph.empty.Within limits [] :=
  fun _ _ => ⟨limits.admits_zero _, fun _ h => absurd h List.not_mem_nil⟩

namespace Graph.Within

variable {limits : SizeLimits} {filled : List Filling} {g : Graph}

theorem set (within : g.Within limits filled) {h : Handle} {n : Node}
    (new : (∀ f ∈ filled, ¬f.Covers h) → n.Within limits filled h) :
    (g.set h n).Within limits filled := by
  intro k uncovered
  by_cases same : h = k
  · subst same
    by_cases lt : h.index < g.size
    · rw [node_set_self g h n lt]
      exact new uncovered
    · have outside : g.set h n = g := by
        simp only [Graph.set, Graph.size] at lt ⊢
        rw [Array.setIfInBounds_eq_of_size_le (by omega)]
      rw [outside]
      exact within h uncovered
  · rw [node_set_other g h k n same]
    exact within k uncovered

theorem alloc (within : g.Within limits filled) {n : Node}
    (new : ∀ h, n.Within limits filled h) : (g.alloc n).2.Within limits filled := by
  intro k uncovered
  by_cases lt : k.index < g.size
  · rw [node_alloc_old g n k lt]
    exact within k uncovered
  · by_cases same : k.index = g.size
    · have : k = (g.alloc n).1 := by cases k; simp_all [Graph.alloc]
      rw [this, node_alloc_new]
      exact new _
    · have missing : (g.alloc n).2.node k = .list [] := by
        have outside : ¬k.index < g.nodes.size + 1 := by
          simp only [Graph.size] at lt same
          omega
        simp [Graph.node, Graph.alloc, outside]
      rw [missing]
      exact ⟨limits.admits_zero _, fun _ h => absurd h List.not_mem_nil⟩

theorem instantiate (within : g.Within limits filled) {f : Filling} (offset : f.offset = g.size) :
    (f.default.instantiate g).2.Within limits (filled ++ [f]) := by
  intro k uncovered
  have before : ∀ f ∈ filled, ¬f.Covers k := fun f hf => uncovered f (List.mem_append_left _ hf)
  have outside : ¬f.Covers k := uncovered f (by simp)
  have old : (g.node k).Within limits (filled ++ [f]) k :=
    (within k before).mono (List.subset_append_left ..)
  by_cases lt : k.index < g.size
  · have kept : (f.default.instantiate g).2.node k = g.node k := by
      simp only [Graph.size] at lt
      simp [Template.instantiate, Graph.node, Array.getElem?_append_left lt]
    rw [kept]
    exact old
  · have missing : (f.default.instantiate g).2.node k = .list [] := by
      have beyond : f.default.graph.nodes.size ≤ k.index - g.nodes.size := by
        simp only [Filling.Covers, offset, Graph.size] at outside lt
        omega
      simp only [Graph.size] at lt
      simp [Template.instantiate, Graph.node, Array.getElem?_append_right (Nat.not_lt.1 lt), beyond]
    rw [missing]
    exact ⟨limits.admits_zero _, fun _ h => absurd h List.not_mem_nil⟩

end Graph.Within

/-! ## Texts -/

/-- A text has at most one character for each octet. -/
theorem Utf8.length_decodeFrom {octets : List UInt8} {start : Nat} {p : Option Utf8.Partial}
    {chars : List Char} (h : Utf8.decodeFrom octets start p = .ok chars) :
    chars.length ≤ octets.length := by
  fun_induction Utf8.decodeFrom octets start p generalizing chars with
  | case1 => cases h; exact Nat.le_refl _
  | case3 | case6 =>
    rename_i ih
    obtain ⟨others, inner, rfl⟩ := map_eq_ok_iff.1
      (show (Char.ofNat _ :: ·) <$> Utf8.decodeFrom _ _ _ = .ok chars from h)
    exact Nat.succ_le_succ (ih inner)
  | case5 | case7 =>
    rename_i ih
    exact Nat.le_succ_of_le (ih h)
  | _ => cases h

theorem Utf8.length_decode {octets : List UInt8} {s : String} (h : Utf8.decode octets = .ok s) :
    s.length ≤ octets.length := by
  obtain ⟨chars, inner, rfl⟩ := map_eq_ok_iff.1
    (show String.ofList <$> Utf8.decodeFrom octets 0 none = .ok s from h)
  rw [String.length_ofList]
  exact Utf8.length_decodeFrom inner

theorem Utf16.length_decodeChars {units : List Nat} {chars : List Char}
    (h : Utf16.decodeChars units = some chars) : chars.length ≤ units.length := by
  fun_induction Utf16.decodeChars units generalizing chars with
  | case1 => cases h; exact Nat.le_refl _
  | case3 => cases h; exact Nat.le_refl _
  | case4 _ _ _ _ _ ih | case7 _ _ _ _ _ ih =>
    obtain ⟨others, inner, rfl⟩ := Option.map_eq_some_iff.1 h
    have := ih inner
    simp only [List.length_cons] at this ⊢
    omega
  | _ => cases h

theorem Utf16.length_pairs {octets : List UInt8} {units : List Nat}
    (h : Utf16.pairs octets = some units) : units.length ≤ octets.length := by
  fun_induction Utf16.pairs octets generalizing units with
  | case1 => cases h; exact Nat.le_refl _
  | case2 => cases h
  | case3 _ _ _ ih =>
    obtain ⟨others, inner, rfl⟩ := Option.map_eq_some_iff.1 h
    exact Nat.succ_le_succ (Nat.le_succ_of_le (ih inner))

namespace Decode

variable {α β : Type}

/-- What holds of everything that a decoder gives. -/
def Gives (d : Decode α) (Q : α → Prop) : Prop := ∀ r a r', d r = .ok a r' → Q a

theorem Gives.pure {a : α} {Q : α → Prop} (h : Q a) : Gives (pure a) Q := by
  intro r b r' run
  cases run
  exact h

theorem Gives.throw (e : Error) {Q : α → Prop} : Gives (throw e) Q := fun _ _ _ run => by cases run

theorem Gives.bind {d : Decode α} {f : α → Decode β} {P : α → Prop} {Q : β → Prop}
    (hd : Gives d P) (hf : ∀ a, P a → Gives (f a) Q) : Gives (d >>= f) Q := by
  intro r b r' run
  have run : EStateM.bind d f r = .ok b r' := run
  unfold EStateM.bind at run
  cases first : d r with
  | ok a s =>
    rw [first] at run
    exact hf a (hd r a s first) s b r' run
  | error e s =>
    rw [first] at run
    cases run

theorem Gives.true (d : Decode α) : Gives d fun _ => True := fun _ _ _ _ => trivial

theorem gives_bytes (n : Nat) : Gives (bytes n) fun octets => octets.length = n := by
  intro r octets r' run
  unfold bytes at run
  rw [bind_of_get] at run
  cases found : splitExactly n r.rest with
  | some parts =>
    rw [found] at run
    cases run
    exact (splitExactly_eq_some_iff.1 found).1
  | none =>
    rw [found] at run
    cases run

theorem gives_textPayload (encoding length : Nat) :
    Gives (textPayload encoding length) fun s => s.length ≤ length := by
  refine (gives_bytes length).bind fun octets size => ?_
  subst size
  split
  · unfold utf8
    split
    · exact Gives.pure (Utf8.length_decode ‹_›)
    · exact Gives.throw _
  · split
    · refine Gives.pure ?_
      simp [latin1]
    · split
      · unfold utf16
        split
        · exact Gives.throw _
        · rename_i units paired
          split
          · rename_i s spelled
            obtain ⟨chars, found, rfl⟩ := Option.map_eq_some_iff.1 spelled
            refine Gives.pure ?_
            rw [String.length_ofList]
            exact Nat.le_trans (Utf16.length_decodeChars found) (Utf16.length_pairs paired)
          · exact Gives.throw _
      · exact Gives.throw _

theorem Gives.mono {d : Decode α} {P Q : α → Prop} (h : Gives d P) (weaker : ∀ a, P a → Q a) :
    Gives d Q := fun r a r' run => weaker a (h r a r' run)

theorem gives_varuint32 : Gives varuint32 (· < 2 ^ 32) :=
  (Gives.true _).bind fun n _ => Gives.pure (Nat.mod_lt n (by decide))

theorem gives_integer (kind : IntKind) (layout : IntLayout) :
    Gives (integer kind layout) fun v => ∃ n, v = .int n ∧ n.kind = kind := by
  have last : ∀ n, Gives (Pure.pure (Value.int (.wrap kind n))) fun v =>
      ∃ n, v = .int n ∧ n.kind = kind :=
    fun n => Gives.pure ⟨.wrap kind n, rfl, rfl⟩
  unfold integer
  dsimp only
  split
  · split <;> exact (Gives.true _).bind fun n _ => last n
  · split
    · split <;> exact (Gives.true _).bind fun n _ => last n
    · split <;> exact (Gives.true _).bind fun n _ => last n
  · split <;> exact (Gives.true _).bind fun n _ => last n

theorem gives_day : Gives day fun v => ∃ d, v = .date d := by
  refine (Gives.true _).bind fun count _ => ?_
  split
  · exact Gives.pure ⟨_, rfl⟩
  · exact Gives.throw _

theorem gives_instant : Gives instant fun v => ∃ t, v = .timestamp t ∧ t.cut = t := by
  refine (Gives.true _).bind fun micros _ => ?_
  split
  · rename_i t found
    refine Gives.pure ⟨t, rfl, ?_⟩
    unfold Calendar.Instant.ofNanos? at found
    split at found <;> cases found
    simp [Calendar.Instant.cut, Calendar.Instant.micros]
  · exact Gives.throw _

theorem gives_span : Gives span fun v => ∃ d, v = .duration d := by
  refine (Gives.true _).bind fun seconds _ => (Gives.true _).bind fun nanos _ => ?_
  split
  · exact Gives.pure ⟨_, rfl⟩
  · exact Gives.throw _

theorem within_fixedScalar (limits : SizeLimits) (t : TypeId) :
    Gives (fixedScalar t) (Value.Within limits) := by
  unfold fixedScalar
  split
  · rw [map_eq_pure_bind]
    exact (Gives.true _).bind fun _ _ => Gives.pure trivial
  · exact (gives_integer _ _).mono fun v ⟨n, same, _⟩ => same ▸ trivial
  · exact (Gives.true _).bind fun _ _ => Gives.pure trivial
  · exact (Gives.true _).bind fun _ _ => Gives.pure trivial
  · exact Gives.throw _

end Decode

namespace Read

/-- A text that is read is within its ceiling. -/
theorem ensures_textSize (limits : SizeLimits) (s : ReadState) :
    Ensures (text limits) s fun text u =>
      (∃ r, u = { s with reader := r }) ∧ limits.Admits .string text.length := by
  refine Ensures.bind (Q := fun _ u => ∃ r, u = { s with reader := r })
    (.decode fun _ r _ => ⟨r, rfl⟩) ?_
  rintro header _ ⟨r, rfl⟩
  refine Ensures.bind (Q := fun _ u => u = { s with reader := r } ∧ limits.Admits .string header.2)
    (.check fun _ ok => ⟨rfl, SizeLimits.admits_of_check ok⟩) ?_
  rintro _ _ ⟨rfl, admitted⟩
  exact .decode fun text r run =>
    ⟨⟨r, rfl⟩, admitted.mono (Decode.gives_textPayload _ _ _ _ _ run)⟩

/-- What is read of a scalar type: a value of the type, within the ceilings, and nothing else
changes. -/
theorem ensures_scalar (limits : SizeLimits) (t : TypeId) (s : ReadState) :
    Ensures (scalar limits t) s fun v u => (∃ r, u = { s with reader := r }) ∧
      (∃ b, t.builtin? = some b ∧ b.Holds v) ∧ v.Within limits ∧ v.Exact := by
  have decoded : ∀ {d : Decode Value} {b : Builtin} {P : Value → Prop}, t.builtin? = some b →
      d.Gives P → (∀ v, P v → b.Holds v ∧ v.Within limits ∧ v.Exact) →
      Ensures (decode d) s fun v u => (∃ r, u = { s with reader := r }) ∧
        (∃ b, t.builtin? = some b ∧ b.Holds v) ∧ v.Within limits ∧ v.Exact :=
    fun ht gives h => Ensures.decode fun v r run =>
      ⟨⟨r, rfl⟩, ⟨_, ht, (h v (gives _ v r run)).1⟩, (h v (gives _ v r run)).2⟩
  unfold scalar
  split
  · rename_i ht
    refine decoded ht (P := fun v => ∃ b, v = .bool b) ?_ ?_
    · rw [map_eq_pure_bind]
      exact (Decode.Gives.true _).bind fun b _ => Decode.Gives.pure ⟨b, rfl⟩
    · rintro _ ⟨b, rfl⟩
      exact ⟨.bool b, trivial, trivial⟩
  · rename_i kind layout ht
    refine decoded ht (Decode.gives_integer kind layout) ?_
    rintro _ ⟨n, rfl, rfl⟩
    exact ⟨.int n layout, trivial, trivial⟩
  · rename_i ht
    refine decoded ht (P := fun v => ∃ bits, v = .float32 bits)
      ((Decode.Gives.true _).bind fun n _ => Decode.Gives.pure ⟨_, rfl⟩) ?_
    rintro _ ⟨bits, rfl⟩
    exact ⟨.float32 bits, trivial, trivial⟩
  · rename_i ht
    refine decoded ht (P := fun v => ∃ bits, v = .float64 bits)
      ((Decode.Gives.true _).bind fun n _ => Decode.Gives.pure ⟨_, rfl⟩) ?_
    rintro _ ⟨bits, rfl⟩
    exact ⟨.float64 bits, trivial, trivial⟩
  · rename_i ht
    rw [map_eq_pure_bind]
    refine (ensures_textSize limits s).bind fun text u read => ?_
    exact Ensures.pure ⟨read.1, ⟨_, ht, .string text⟩, read.2, trivial⟩
  · rename_i ht
    refine Ensures.bind (Q := fun size u => (∃ r, u = { s with reader := r }) ∧ size < 2 ^ 32)
      (.decode fun size r run => ⟨⟨r, rfl⟩, Decode.gives_varuint32 _ _ _ run⟩) ?_
    rintro size _ ⟨⟨r, rfl⟩, small⟩
    refine Ensures.bind (Q := fun _ u => u = { s with reader := r } ∧ limits.Admits .binary size)
      (.check fun _ ok => ⟨rfl, SizeLimits.admits_of_check ok⟩) ?_
    rintro _ _ ⟨rfl, admitted⟩
    refine Ensures.bind (Q := fun bytes u => (∃ r, u = { s with reader := r }) ∧ bytes.length = size)
      (.decode fun bytes r run => ⟨⟨r, rfl⟩, Decode.gives_bytes size _ _ _ run⟩) ?_
    rintro bytes _ ⟨moved, rfl⟩
    exact Ensures.pure ⟨moved, ⟨_, ht, .binary bytes⟩, admitted, small⟩
  · rename_i ht
    refine decoded ht Decode.gives_day ?_
    rintro _ ⟨d, rfl⟩
    exact ⟨.date d, trivial, trivial⟩
  · rename_i ht
    refine decoded ht Decode.gives_instant ?_
    rintro _ ⟨t, rfl, whole⟩
    exact ⟨.timestamp t, trivial, whole⟩
  · rename_i ht
    refine decoded ht Decode.gives_span ?_
    rintro _ ⟨d, rfl⟩
    exact ⟨.duration d, trivial, trivial⟩
  · exact Ensures.throw _

end Read

/-! ## States -/

/-- Whether our struct for a definition is registered. -/
def Registry.Owns (r : Registry) (p : PeerStruct) : Prop := ∀ s, p.own = some s → r.HasStruct s

theorem Registry.owns_ofDefinition (r : Registry) (header : Int) (d : TypeDefinition) :
    r.Owns (.ofDefinition r header d) :=
  fun _ own => Registry.hasStruct_of_structOf? (show r.structOf? d.identity = some _ from own)

/-- Whether all that a reader holds is within the ceilings, apart from defaults of registered
fields. -/
structure ReadState.Bounded (env : Environment) (s : ReadState) : Prop where
  graph : s.graph.Within env.config.limits s.filled
  slots : ∀ (number : Nat) (v : Value), s.slots.values[number]? = some (some v) → v.Within env.config.limits
  filled : ∀ f ∈ s.filled, env.registry.Defaults f.field f.default
  knows : s.Knows env.registry.Owns

namespace Read

variable {α β : Type} {env : Environment} {Q : α → Prop}

/-- Whether a step leaves what the reader holds within the ceilings, and gives a value with a
property. -/
def Bounds (env : Environment) (Q : α → Prop) (m : Read α) : Prop :=
  ∀ s : ReadState, s.Bounded env → Ensures m s fun a t => t.Bounded env ∧ Q a

namespace Bounds

theorem pure {a : α} (h : Q a) : Bounds env Q (pure a) := fun _ bounded => Ensures.pure ⟨bounded, h⟩

theorem throw (e : Error) : Bounds env Q (throw e) := fun _ _ => Ensures.throw e

theorem bind {m : Read α} {f : α → Read β} {R : β → Prop} (hm : Bounds env Q m)
    (hf : ∀ a, Q a → Bounds env R (f a)) : Bounds env R (m >>= f) :=
  fun s bounded => (hm s bounded).bind fun a t after => hf a after.2 t after.1

theorem check {x : Except Error α} (h : ∀ a, x = .ok a → Q a) : Bounds env Q (check x) :=
  fun _ bounded => Ensures.check fun a ok => ⟨bounded, h a ok⟩

theorem decode {d : Decode α} (h : d.Gives Q) : Bounds env Q (decode d) :=
  fun _ bounded => Ensures.decode fun a r run =>
    ⟨⟨bounded.graph, bounded.slots, bounded.filled, ⟨bounded.knows.received, bounded.knows.cache⟩⟩, h _ a r run⟩

/-- A step that changes the values that the reader holds and nothing else. -/
theorem modify {f : ReadState → ReadState}
    (h : ∀ s : ReadState, s.Bounded env → (f s).Bounded env) :
    Bounds env (fun _ => True) (modify f : Read Unit) :=
  fun s bounded => Ensures.modify ⟨h s bounded, trivial⟩

theorem many {one : Read α} (h : Bounds env Q one) (n : Nat) :
    Bounds env (fun l => l.length = n ∧ ∀ a ∈ l, Q a) (many one n) := by
  induction n with
  | zero => exact pure ⟨rfl, fun _ h => absurd h List.not_mem_nil⟩
  | succ n ih =>
    exact h.bind fun a ha => ih.bind fun l hl =>
      pure ⟨congrArg (· + 1) hl.1, List.forall_mem_cons.2 ⟨ha, hl.2⟩⟩

theorem each {one : α → Read Unit} (items : List α)
    (h : ∀ a ∈ items, Bounds env (fun _ => True) (one a)) :
    Bounds env (fun _ => True) (each one items) := by
  induction items with
  | nil => exact pure trivial
  | cons a items ih =>
    exact (h a List.mem_cons_self).bind fun _ _ => ih fun b hb => h b (List.mem_cons_of_mem a hb)

end Bounds

variable {limits : SizeLimits}

/-! ## Steps -/

theorem bounds_check (kind : LimitKind) (size : Nat) :
    Bounds env (fun _ => env.config.limits.Admits kind size)
      (check (env.config.limits.check kind size)) :=
  Bounds.check fun _ ok => SizeLimits.admits_of_check ok

theorem bounds_alloc {n : Node} (h : ∀ filled k, n.Within env.config.limits filled k) :
    Bounds env (fun _ => True) (alloc n) := by
  intro s bounded a t run
  cases run
  exact ⟨⟨bounded.graph.alloc (h _), bounded.slots, bounded.filled, ⟨bounded.knows.received, bounded.knows.cache⟩⟩, trivial⟩

theorem bounds_setNode {h : Handle} {n : Node}
    (new : ∀ filled k, n.Within env.config.limits filled k) :
    Bounds env (fun _ => True) (setNode h n) :=
  Bounds.modify fun _ bounded =>
    ⟨bounded.graph.set fun _ => new _ _, bounded.slots, bounded.filled, ⟨bounded.knows.received, bounded.knows.cache⟩⟩

theorem bounds_publish (slot : Option Nat) {v : Value} (h : v.Within env.config.limits) :
    Bounds env (fun _ => True) (publish slot v) := by
  cases slot with
  | none => exact Bounds.pure trivial
  | some number =>
    refine Bounds.modify fun s bounded =>
      ⟨bounded.graph, fun n w found => ?_, bounded.filled, ⟨bounded.knows.received, bounded.knows.cache⟩⟩
    simp only [Slots.fill, Array.getElem?_setIfInBounds] at found
    split at found
    · split at found <;> cases found
      exact h
    · exact bounded.slots n w found

theorem bounds_publish_handle (slot : Option Nat) (h : Handle) :
    Bounds env (fun _ => True) (publish slot (.handle h)) :=
  bounds_publish slot (v := .handle h) trivial

theorem bounds_reserve : Bounds env (fun _ => True) reserve := by
  intro s bounded a t run
  cases run
  refine ⟨⟨bounded.graph, fun n w found => ?_, bounded.filled, ⟨bounded.knows.received, bounded.knows.cache⟩⟩, trivial⟩
  simp only [Array.getElem?_push] at found
  split at found
  · cases found
  · exact bounded.slots n w found

theorem bounds_resolve (number : Nat) :
    Bounds env (Value.Within env.config.limits) (resolve number) := by
  intro s bounded
  refine (Ensures.get (Q := fun state t => state = s ∧ t = s) ⟨rfl, rfl⟩).bind fun state t same => ?_
  obtain ⟨rfl, rfl⟩ := same
  refine Ensures.check fun v ok => ⟨bounded, ?_⟩
  unfold Slots.resolve at ok
  split at ok <;> cases ok
  exact bounded.slots number v ‹_›

/-- A field may be set to a value within the ceilings, or to a default that is noted. -/
theorem ensures_setField {s : ReadState} (bounded : s.Bounded env) {h : Handle} {name : String}
    {v : Value} (admitted : v.Within env.config.limits ∨ ∃ f ∈ s.filled, f.Fills h (name, v)) :
    Ensures (setField h name v) s fun _ t => t.Bounded env ∧ True := by
  refine Ensures.modify ⟨?_, trivial⟩
  split
  · rename_i r node
    refine ⟨bounded.graph.set fun uncovered e he => ?_, bounded.slots, bounded.filled,
      ⟨bounded.knows.received, bounded.knows.cache⟩⟩
    rcases FieldTable.mem_insertEntry he with rfl | he
    · exact admitted
    · have old := bounded.graph h uncovered
      rw [node] at old
      exact old e he
  · exact bounded

theorem bounds_setField (h : Handle) (name : String) {v : Value}
    (within : v.Within env.config.limits) : Bounds env (fun _ => True) (setField h name v) :=
  fun _ bounded => ensures_setField bounded (.inl within)

theorem bounds_noteNull (h : Handle) (name : String) :
    Bounds env (fun _ => True) (noteNull h name) :=
  Bounds.modify fun _ bounded =>
    ⟨bounded.graph, bounded.slots, bounded.filled, ⟨bounded.knows.received, bounded.knows.cache⟩⟩

theorem bounds_fillMissing (h : Handle) {f : Field} {own : StructType}
    (registered : env.registry.HasStruct own) (member : f ∈ own.fields) :
    Bounds env (fun _ => True) (fillMissing h f) := by
  refine (Bounds.check (Q := fun x => f.missingValue = .ok x) fun x ok => ok).bind fun x found => ?_
  cases x with
  | none => exact Bounds.pure trivial
  | some t =>
    intro s bounded a u run
    let filling : Filling := ⟨h, f.name, t, s.graph.size⟩
    let copied : ReadState := { s with
      graph := (t.instantiate s.graph).2, filled := s.filled ++ [filling] }
    have run : setField h f.name filling.value copied = .ok a u := run
    have bounded : copied.Bounded env := by
      refine ⟨bounded.graph.instantiate (f := filling) rfl, bounded.slots, fun g hg => ?_,
        ⟨bounded.knows.received, bounded.knows.cache⟩⟩
      rcases List.mem_append.1 hg with hg | hg
      · exact bounded.filled g hg
      · rw [List.mem_singleton.1 hg]
        exact ⟨own, f, registered, member, rfl, found⟩
    have noted : filling ∈ copied.filled := List.mem_append_right _ (List.mem_singleton_self _)
    exact ensures_setField bounded (.inr ⟨filling, noted, rfl, rfl, rfl⟩) a u run

/-! ## Scalars -/

theorem bounds_scalar (t : TypeId) :
    Bounds env (Value.Within env.config.limits) (scalar env.config.limits t) :=
  fun s bounded => (ensures_scalar env.config.limits t s).mono fun v u read => by
    obtain ⟨⟨r, rfl⟩, -, within, -⟩ := read
    exact ⟨⟨bounded.graph, bounded.slots, bounded.filled,
      ⟨bounded.knows.received, bounded.knows.cache⟩⟩, within⟩

/-! ## Values -/

/-- Whether a reader of payloads keeps to the ceilings on wire types that are known. -/
def BoundsPayload (env : Environment) (inner : ReadPayload) : Prop :=
  ∀ wire, wire.Admits env.registry.HasStruct env.registry.Owns → ∀ shape slot,
    Bounds env (Value.Within env.config.limits) (inner wire shape slot)

variable {inner : ReadPayload} (payload : BoundsPayload env inner)

theorem bounds_elementHeader (shape : Option Shape) :
    Bounds env (fun _ => True) (elementHeader shape) := by
  refine (Bounds.decode (Decode.Gives.true _)).bind fun byte _ => ?_
  split
  · exact Bounds.throw _
  · split
    · exact Bounds.throw _
    · exact Bounds.pure trivial

include payload

theorem bounds_typed (hasType : Bool) (shape : Shape) (slot : Option Nat) :
    Bounds env (Value.Within env.config.limits) (typed env inner hasType shape slot) := by
  intro s bounded
  refine ensures_typed env.registry.owns_ofDefinition bounded.knows fun wire t known looked =>
    payload wire known shape slot t ?_
  exact ⟨by rw [looked.graph, looked.filled]; exact bounded.graph,
    by rw [looked.slots]; exact bounded.slots,
    by rw [looked.filled]; exact bounded.filled, looked.toKnows⟩

theorem bounds_marked (mode : RefMode) (hasType : Bool) (shape : Shape) :
    Bounds env (Value.Within env.config.limits) (marked env inner mode hasType shape) := by
  unfold marked
  split
  · exact bounds_typed payload hasType shape none
  · refine (Bounds.decode (Decode.Gives.true _)).bind fun flag _ => ?_
    split
    · exact Bounds.pure trivial
    · exact bounds_typed payload hasType shape none
    · exact (Bounds.decode (Decode.Gives.true _)).bind fun number _ => bounds_resolve number
    · exact bounds_reserve.bind fun number _ =>
        (bounds_typed payload hasType shape (some number)).bind fun v within =>
          (bounds_publish _ within).bind fun _ _ => Bounds.pure within
    · exact Bounds.throw _

theorem bounds_items {node : List Value → Node} (kind : node = .list ∨ node = .set) (shape : Shape)
    (slot : Option Nat) :
    Bounds env (Value.Within env.config.limits) (items env inner node shape slot) := by
  have within : ∀ {vs : List Value}, env.config.limits.Admits .collection vs.length →
      (∀ v ∈ vs, v.Within env.config.limits) →
      ∀ filled k, (node vs).Within env.config.limits filled k := by
    intro vs length values filled k
    rcases kind with rfl | rfl <;> exact ⟨length, values⟩
  refine (Bounds.decode (Decode.Gives.true _)).bind fun length _ =>
    (bounds_check _ _).bind fun _ admitted => ?_
  refine (bounds_alloc (within (env.config.limits.admits_zero _) fun _ h =>
    absurd h List.not_mem_nil)).bind fun h _ => (bounds_publish_handle slot _).bind fun _ _ => ?_
  split
  · exact Bounds.pure trivial
  · refine (bounds_elementHeader _).bind fun header _ =>
      ((bounds_marked payload _ _ _).many length).bind fun vs read => ?_
    refine (bounds_setNode (within ?_ read.2)).bind fun _ _ => Bounds.pure trivial
    rw [read.1]
    exact admitted

theorem bounds_entries (shape : Shape) (slot : Option Nat) :
    Bounds env (Value.Within env.config.limits) (entries env inner shape slot) := by
  refine (Bounds.decode (Decode.Gives.true _)).bind fun length _ =>
    (bounds_check _ _).bind fun _ admitted => ?_
  have within : ∀ {pairs : List (Value × Value)}, env.config.limits.Admits .map pairs.length →
      (∀ e ∈ pairs, e.1.Within env.config.limits ∧ e.2.Within env.config.limits) →
      ∀ filled k, (Node.map pairs).Within env.config.limits filled k :=
    fun length values _ _ => ⟨length, values⟩
  refine (bounds_alloc (within (env.config.limits.admits_zero _) fun _ h =>
    absurd h List.not_mem_nil)).bind fun h _ => (bounds_publish_handle slot _).bind fun _ _ => ?_
  split
  · exact Bounds.pure trivial
  · refine (bounds_elementHeader _).bind fun keyHeader _ =>
      (bounds_elementHeader _).bind fun valueHeader _ => ?_
    have entry : Bounds env
        (fun e : Value × Value => e.1.Within env.config.limits ∧ e.2.Within env.config.limits)
        (do
          let key ← element env inner keyHeader shape.parts.1
          let value ← element env inner valueHeader shape.parts.2
          return (key, value)) :=
      (bounds_marked payload _ _ _).bind fun key hk =>
        (bounds_marked payload _ _ _).bind fun value hv => Bounds.pure ⟨hk, hv⟩
    refine (entry.many length).bind fun pairs read =>
      (bounds_setNode (within ?_ read.2)).bind fun _ _ => Bounds.pure trivial
    rw [read.1]
    exact admitted

/-! ## Records -/

theorem bounds_field (s : StructType) (h : Handle) (f : Field) :
    Bounds env (fun _ => True) (field env inner s h f) := by
  refine (bounds_marked payload _ _ _).bind fun v within => ?_
  split
  · exact bounds_noteNull h f.name
  · exact bounds_setField h f.name within

omit payload in
theorem within_blockValues {fields : List Field} {bytes : List UInt8} {values : List (String × Value)}
    (h : blockValues fields bytes = .ok values) : ∀ e ∈ values, e.2.Within env.config.limits := by
  induction fields generalizing bytes values with
  | nil => cases h; exact fun _ h => absurd h List.not_mem_nil
  | cons f fields ih =>
    unfold blockValues at h
    dsimp only at h
    split at h
    · rename_i v _ run
      obtain ⟨others, rest, same⟩ := bind_eq_ok_iff.1 h
      cases same
      exact List.forall_mem_cons.2 ⟨Decode.within_fixedScalar _ _ _ _ _ run, ih rest⟩
    · cases h

theorem bounds_fields (s : StructType) (h : Handle) :
    Bounds env (fun _ => True) (fields env inner s h) := by
  unfold fields
  split
  · exact Bounds.each _ fun f _ => bounds_field payload s h f
  · refine Bounds.each _ fun step _ => ?_
    cases step with
    | run positions width =>
      refine (Bounds.decode (Decode.Gives.true _)).bind fun bytes _ =>
        (Bounds.check (Q := fun values => ∀ e ∈ values, e.2.Within env.config.limits)
          fun values ok => within_blockValues ok).bind fun values within => ?_
      exact Bounds.each _ fun e he => bounds_setField h e.1 (within e he)
    | field position => exact Bounds.each _ fun f _ => bounds_field payload s h f

omit payload in
theorem bounds_newRecord (typeName : String) (slot : Option Nat) :
    Bounds env (fun _ => True) (newRecord typeName slot) :=
  (bounds_alloc (n := .record (.ofType typeName)) fun _ _ _ he => absurd he List.not_mem_nil).bind fun _ _ =>
    (bounds_publish_handle slot _).bind fun _ _ => Bounds.pure trivial

theorem bounds_record (s : StructType) (strict : Bool) (slot : Option Nat) :
    Bounds env (Value.Within env.config.limits) (record env inner s strict slot) := by
  have body : Bounds env (Value.Within env.config.limits) (do
      let h ← newRecord s.qualifiedName slot
      fields env inner s h
      return Value.handle h) :=
    (bounds_newRecord _ _).bind fun h _ =>
      (bounds_fields payload s h).bind fun _ _ => Bounds.pure trivial
  unfold record
  cases strict with
  | true =>
    exact (Bounds.decode (Decode.Gives.true _)).bind fun _ _ =>
      (Bounds.check (Q := fun _ => True) fun _ _ => trivial).bind fun _ _ => body
  | false => exact body

omit payload in
theorem bounds_keepField {p : PeerStruct} (owns : env.registry.Owns p) (h : Handle) (f : PeerField)
    {v : Value} (within : v.Within env.config.limits) :
    Bounds env (fun _ => True) (keepField p h f v) := by
  unfold keepField
  split
  · rename_i own found
    obtain ⟨i, -, found⟩ := Option.bind_eq_some_iff.1 found
    obtain ⟨s, own, found⟩ := Option.bind_eq_some_iff.1 found
    split
    · refine (bounds_noteNull h _).bind fun _ _ => ?_
      split
      · exact Bounds.pure trivial
      · exact bounds_fillMissing h (owns s own) (List.mem_of_getElem? found)
    · exact bounds_setField h _ within
  · split
    · exact Bounds.pure trivial
    · exact bounds_setField h _ within
  · exact Bounds.modify fun _ bounded =>
      ⟨bounded.graph, bounded.slots, bounded.filled, ⟨bounded.knows.received, bounded.knows.cache⟩⟩

theorem bounds_reconciled {p : PeerStruct} (owns : env.registry.Owns p) (slot : Option Nat) :
    Bounds env (Value.Within env.config.limits) (reconciled env inner p slot) := by
  refine (bounds_newRecord _ _).bind fun h _ => ?_
  refine (Bounds.each _ fun f _ => ?_).bind fun _ _ =>
    (Bounds.each _ fun f member => ?_).bind fun _ _ => Bounds.pure trivial
  · exact (bounds_marked payload _ _ _).bind fun v within => bounds_keepField owns h f within
  · cases own : p.own with
    | none =>
      rw [own] at member
      exact absurd member List.not_mem_nil
    | some s =>
      rw [own] at member
      obtain ⟨i, -, found⟩ := List.mem_filterMap.1 member
      exact bounds_fillMissing h (owns s own) (List.mem_of_getElem? found)

theorem bounds_peerRecord {p : PeerStruct} (owns : env.registry.Owns p) (slot : Option Nat) :
    Bounds env (Value.Within env.config.limits) (peerRecord env inner p slot) := by
  unfold peerRecord
  split
  · exact bounds_record payload _ _ _
  · exact bounds_reconciled payload owns slot

/-! ## Payloads -/

omit payload in
theorem bounds_layer {deeper : Option ReadPayload}
    (h : ∀ inner, deeper = some inner → BoundsPayload env inner) :
    BoundsPayload env (layer env deeper) := by
  have descend : ∀ {α : Type} {Q : α → Prop} {f : ReadPayload → Read α},
      (∀ inner, BoundsPayload env inner → Bounds env Q (f inner)) →
      Bounds env Q (check (env.descend deeper) >>= f) := by
    intro α Q f hf
    cases deeper with
    | none => exact (Bounds.throw (Q := fun _ => False) _).bind fun _ never => never.elim
    | some inner => exact hf inner (h inner rfl)
  intro wire known shape slot
  cases wire with
  | builtin t =>
    simp only [layer]
    split
    · refine descend fun inner payload => ?_
      unfold container
      split
      · exact bounds_entries payload shape slot
      · refine bounds_items payload ?_ shape slot
        split
        · exact .inr rfl
        · exact .inl rfl
    · exact bounds_scalar t
  | struct s strict => exact descend fun inner payload => bounds_record payload s strict slot
  | peer p => exact descend fun inner payload => bounds_peerRecord payload known slot
  | «enum» typeName members =>
    refine (Bounds.decode (Decode.Gives.true _)).bind fun ordinal _ => ?_
    split
    · exact Bounds.pure trivial
    · exact Bounds.throw _

omit payload in
theorem bounds_payload (levels : Nat) : BoundsPayload env (Read.payload env levels) := by
  induction levels with
  | zero => exact bounds_layer fun _ h => by cases h
  | succ levels ih => exact bounds_layer fun _ h => by cases h; exact ih

omit payload in
/-- A frame that is read leaves everything within the ceilings. -/
theorem bounds_frame (mode : RefMode) :
    Bounds env (Value.Within env.config.limits) (frame env mode) := by
  have ended : ∀ v : Value, v.Within env.config.limits → Bounds env (Value.Within env.config.limits)
      (do
        let remaining := (← get).reader.remaining
        if remaining ≠ 0 then throw (.trailingBytes remaining)
        return v) := by
    intro v within s bounded
    refine (Ensures.get (Q := fun _ t => t.Bounded env) bounded).bind fun state t kept => ?_
    dsimp only
    split
    · exact (Ensures.throw (Q := fun _ _ => False) _).bind fun _ _ never => never.elim
    · exact Ensures.pure ⟨kept, within⟩
  refine (Bounds.decode (Decode.Gives.true _)).bind fun isNull _ => ?_
  cases isNull with
  | true => exact ended .null trivial
  | false =>
    exact (bounds_marked (bounds_payload env.config.maxDepth) mode true .dynamic).bind fun v within =>
      ended v within

end Read

end Graphwire
