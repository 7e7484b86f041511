import Graphwire.Proofs.KnownDefinitions
import Graphwire.Proofs.Moves
import Graphwire.Proofs.Receiving

/-!
# Readers that accept

A reader opens a node, reads what goes into it, and closes it. So a step of reading is told with the
node that is open, which may change; all other nodes keep what they hold, and the new ones were
accepted when they were closed, unless they came with a default. The walk through the reader shows
that it accepts whole frames.
-/

namespace Graphwire

set_option autoImplicit false

/-! ## Steps -/

/-- Whether an account has all nodes of another one, unchanged but for an open one, and whether all
others can have been accepted, apart from those of defaults. -/
structure Account.Gains (env : Environment) (open? : Option Handle) (a b : Account) : Prop
    extends a.Grows b where
  old : ∀ h, open? ≠ some h → h.index < a.graph.size → b.graph.node h = a.graph.node h
  new : ∀ h, a.graph.size ≤ h.index → b.Clear h → (b.graph.node h).Accepted env b h

namespace Account.Gains

variable {env : Environment} {open? : Option Handle} {a b c : Account}

theorem refl (a : Account) : a.Gains env open? a :=
  ⟨.refl a, fun _ _ _ => rfl, fun _ le clear => absurd clear.bound (Nat.not_lt.2 le)⟩

theorem trans (h₁ : a.Gains env open? b) (h₂ : b.Gains env open? c)
    (bound : ∀ h, open? = some h → h.index < a.graph.size) : a.Gains env open? c := by
  refine ⟨h₁.toGrows.trans h₂.toGrows, fun h closed lt => ?_, fun h le clear => ?_⟩
  · exact (h₂.old h closed (Nat.lt_of_lt_of_le lt h₁.graph.size)).trans (h₁.old h closed lt)
  · by_cases early : h.index < b.graph.size
    · have closed : open? ≠ some h := fun same => absurd (bound h same) (Nat.not_lt.2 le)
      have clear : b.Clear h := ⟨early, fun x noted => clear.uncovered x (h₂.kept noted)⟩
      rw [h₂.old h closed early]
      exact (h₁.new h le clear).mono h₂.toGrows
    · exact h₂.new h (Nat.not_lt.1 early) clear

theorem set {h : Handle} {n : Node} (bound : h.index < a.graph.size)
    (kind : n.kind = (a.graph.node h).kind) :
    a.Gains env (some h) ⟨a.graph.set h n, a.filled, a.defined⟩ := by
  refine ⟨.ofGraph (.set bound kind) _ _, fun k closed _ => ?_, fun k le clear => ?_⟩
  · exact a.graph.node_set_other h k n fun same => closed (congrArg some same)
  · have bound := clear.bound
    rw [Graph.size_set] at bound
    exact absurd bound (Nat.not_lt.2 le)

/-- A definition is met. -/
theorem meet {defined : Prop} (h : a.defined → defined) :
    a.Gains env open? ⟨a.graph, a.filled, defined⟩ :=
  ⟨⟨.refl _, List.Subset.refl _, fun _ member => .inl member, h⟩, fun _ _ _ => rfl,
    fun _ le clear => absurd clear.bound (Nat.not_lt.2 le)⟩

/-- The nodes of a default are added, and noted as such. -/
theorem fill {x : Filling} (offset : x.offset = a.graph.size) :
    a.Gains env open? ⟨(x.default.instantiate a.graph).2, a.filled ++ [x], a.defined⟩ := by
  have ext := x.default.extends_instantiate a.graph
  refine ⟨⟨ext.grows, List.subset_append_left .., fun y member => ?_, id⟩, fun k _ => ext.node k,
    fun k le clear => ?_⟩
  · rcases List.mem_append.1 member with old | new
    · exact .inl old
    · exact .inr (Nat.le_of_eq ((List.mem_singleton.1 new) ▸ offset.symm))
  · have bound := clear.bound
    rw [x.default.size_instantiate] at bound
    exact absurd ⟨offset ▸ le, offset ▸ bound⟩
      (clear.uncovered x (List.mem_append_right _ (List.mem_singleton_self x)))

theorem weaken (h : a.Gains env none b) : a.Gains env open? b :=
  ⟨h.toGrows, fun k _ lt => h.old k nofun lt, h.new⟩

end Account.Gains

/-- Whether the definitions at hand are what the registry makes of those that were met, defaults lie
within the graph, and the values behind reference numbers can have been accepted. -/
structure ReadState.Sound (env : Environment) (s : ReadState) : Prop where
  versed : s.Versed env.registry
  filled : ∀ x ∈ s.filled, x.offset + x.default.graph.size ≤ s.graph.size
  slots : ∀ (number : Nat) (v : Value), s.slots.values[number]? = some (some v) →
    v.Accepted env s.account

theorem ReadState.Sound.grow {env : Environment} {s : ReadState} (sound : s.Sound env)
    {graph : Graph} (grows : s.graph.Grows graph) : ReadState.Sound env { s with graph } :=
  ⟨⟨sound.versed.received, sound.versed.cache⟩,
    fun x noted => Nat.le_trans (sound.filled x noted) grows.size,
    fun number v found => (sound.slots number v found).mono (.ofGraph grows _ _)⟩

/-- A node that is added did not come with a default. -/
theorem ReadState.Sound.clear_alloc {env : Environment} {s : ReadState} (sound : s.Sound env)
    (n : Node) : Account.Clear ⟨(s.graph.alloc n).2, s.filled, s.met ≠ []⟩ ⟨s.graph.size⟩ := by
  refine ⟨by simp, fun x noted covers => ?_⟩
  exact absurd covers.2 (Nat.not_lt.2 (sound.filled x noted))

namespace Read

variable {α β : Type}

/-- Whether a step keeps the reader sound and leaves only nodes that can have been accepted, apart from
an open one and from defaults, and what holds of the account before and of the result and the account
after. -/
def Accepts (env : Environment) (open? : Option Handle) (P : Account → Prop) (m : Read α)
    (Q : α → Account → Prop) : Prop :=
  ∀ s : ReadState, s.Sound env → (∀ h, open? = some h → s.account.Clear h) → P s.account →
    Ensures m s fun v t => t.Sound env ∧ s.account.Gains env open? t.account ∧ Q v t.account

variable {env : Environment} {open? : Option Handle} {P P' : Account → Prop}
  {Q Q' : α → Account → Prop} {R : β → Account → Prop}

namespace Accepts

theorem pure {v : α} (h : ∀ a, P a → Q v a) : Accepts env open? P (pure v) Q :=
  fun _ sound _ hp => Ensures.pure ⟨sound, .refl _, h _ hp⟩

theorem throw (e : Error) : Accepts env open? P (throw e) Q := fun _ _ _ _ => Ensures.throw e

theorem noteNull (h : Handle) (name : String) :
    Accepts env open? P (Read.noteNull h name) fun _ => P :=
  fun _ sound _ hp => Ensures.modify
    ⟨⟨⟨sound.versed.received, sound.versed.cache⟩, sound.filled, sound.slots⟩, .refl _, hp⟩

theorem noteDropped : Accepts env open? P Read.noteDropped fun _ => P :=
  fun _ sound _ hp => Ensures.modify
    ⟨⟨⟨sound.versed.received, sound.versed.cache⟩, sound.filled, sound.slots⟩, .refl _, hp⟩

theorem bind {m : Read α} {f : α → Read β} (hm : Accepts env open? P m Q)
    (hf : ∀ v, Accepts env open? (Q v) (f v) R) : Accepts env open? P (m >>= f) R := by
  intro s sound clear hp
  refine (hm s sound clear hp).bind fun v t first => ?_
  obtain ⟨sound, gained, hq⟩ := first
  have still (h : Handle) (same : open? = some h) := (clear h same).mono gained.toGrows
  refine (hf v t sound still hq).mono fun w u second => ?_
  obtain ⟨sound, gained', hr⟩ := second
  exact ⟨sound, gained.trans gained' fun h same => (clear h same).bound, hr⟩

theorem mono {m : Read α} (h : Accepts env open? P m Q) (before : ∀ a, P' a → P a)
    (after : ∀ v a, Q v a → Q' v a) : Accepts env open? P' m Q' :=
  fun s sound clear hp => (h s sound clear (before _ hp)).mono fun v _ step =>
    ⟨step.1, step.2.1, after v _ step.2.2⟩

/-- What a step does not need to know, and does not change. -/
theorem keep {m : Read α} {S : Account → Prop} (h : Accepts env open? P m Q)
    (stable : ∀ a b, a.Gains env open? b → S a → S b) :
    Accepts env open? (fun a => P a ∧ S a) m fun v a => Q v a ∧ S a :=
  fun s sound clear hp => (h s sound clear hp.1).mono fun _ _ step =>
    ⟨step.1, step.2.1, step.2.2, stable _ _ step.2.1 hp.2⟩

/-- A step with all nodes closed, while a node is open. -/
theorem opened {m : Read α} {h : Handle} {S : Account → Prop} (hm : Accepts env none P m Q)
    (stable : ∀ a b, a.Gains env none b → b.graph.node h = a.graph.node h → S a → S b) :
    Accepts env (some h) (fun a => P a ∧ S a) m fun v a => Q v a ∧ S a :=
  fun s sound clear hp => (hm s sound nofun hp.1).mono fun _ _ step =>
    ⟨step.1, step.2.1.weaken, step.2.2, stable _ _ step.2.1
      (step.2.1.old h nofun (clear h rfl).bound) hp.2⟩

/-- An open node did not come with a default. -/
theorem bounded {m : Read α} {h : Handle}
    (hm : Accepts env (some h) (fun a => P a ∧ a.Clear h) m Q) : Accepts env (some h) P m Q :=
  fun s sound clear hp => hm s sound clear ⟨hp, clear h rfl⟩

theorem decode {d : Decode α} {D : α → Prop} {f : α → Read β} (h : d.Gives D)
    (hf : ∀ v, D v → Accepts env open? P (f v) R) : Accepts env open? P (Read.decode d >>= f) R := by
  intro s sound clear hp
  refine Ensures.bind (Q := fun v t => D v ∧ ∃ r, t = { s with reader := r })
    (.decode fun v r run => ⟨h _ v r run, r, rfl⟩) ?_
  rintro v _ ⟨given, r, rfl⟩
  exact hf v given { s with reader := r }
    ⟨⟨sound.versed.received, sound.versed.cache⟩, sound.filled, sound.slots⟩ clear hp

theorem check {x : Except Error α} {f : α → Read β}
    (hf : ∀ v, x = .ok v → Accepts env open? P (f v) R) : Accepts env open? P (Read.check x >>= f) R := by
  intro s sound clear hp
  refine Ensures.bind (Q := fun v t => x = .ok v ∧ t = s) (.check fun v ok => ⟨ok, rfl⟩) ?_
  rintro v _ ⟨ok, rfl⟩
  exact hf v ok _ sound clear hp

theorem many {one : Read α} (h : Accepts env open? (fun _ => True) one Q)
    (stable : ∀ v a b, a.Grows b → Q v a → Q v b) (n : Nat) :
    Accepts env open? (fun _ => True) (many one n)
      fun l a => l.length = n ∧ ∀ v ∈ l, Q v a := by
  induction n with
  | zero => exact pure fun _ _ => ⟨rfl, fun _ member => absurd member List.not_mem_nil⟩
  | succ n ih =>
    refine h.bind fun v => Accepts.bind (Q := fun l a => (l.length = n ∧ ∀ w ∈ l, Q w a) ∧ Q v a)
      ?_ fun l => pure fun a hl => ?_
    · exact (ih.keep fun a b gained => stable v a b gained.toGrows).mono
        (fun a first => ⟨trivial, first⟩) fun _ _ after => after
    · exact ⟨congrArg (· + 1) hl.1.1, List.forall_mem_cons.2 ⟨hl.2, hl.1.2⟩⟩

theorem each {one : α → Read Unit} (items : List α)
    (h : ∀ x ∈ items, Accepts env open? P (one x) fun _ => P) :
    Accepts env open? P (each one items) fun _ => P := by
  induction items with
  | nil => exact pure fun _ hp => hp
  | cons x items ih =>
    exact (h x List.mem_cons_self).bind fun _ => ih fun y member => h y (List.mem_cons_of_mem x member)

end Accepts

/-! ## Nodes -/

/-- A node is added, put behind its reference number, and filled. -/
theorem accepts_opened {n : Node} {slot : Option Nat} {f : Handle → Read α}
    (stable : ∀ a b, a.Grows b → P a → P b)
    (h : ∀ k, Accepts env (some k) (fun a => P a ∧ a.graph.node k = n) (f k)
      fun v a => Q v a ∧ (a.graph.node k).Accepted env a k) :
    Accepts env none P (do let k ← alloc n; publish slot (.handle k); f k) Q := by
  intro s sound _ hp v t run
  rw [alloc_publish] at run
  have ext := Graph.Extends.alloc s.graph n
  have grows : s.account.Grows (s.opened n slot).account := .ofGraph ext.grows _ _
  have clear : (s.opened n slot).account.Clear ⟨s.graph.size⟩ := sound.clear_alloc n
  have sound : (s.opened n slot).Sound env := by
    refine ⟨⟨sound.versed.received, sound.versed.cache⟩,
      fun x noted => Nat.le_trans (sound.filled x noted) ext.size, fun number w found => ?_⟩
    cases slot with
    | none => exact (sound.slots number w found).mono grows
    | some own =>
      simp only [ReadState.opened, Option.elim_some, Slots.fill, Array.getElem?_setIfInBounds]
        at found
      split at found
      · split at found <;> cases found
        exact clear
      · exact (sound.slots number w found).mono grows
  obtain ⟨sound, gained, hq, accepted⟩ := h ⟨s.graph.size⟩ (s.opened n slot) sound
    (fun k same => by cases same; exact clear)
    ⟨stable _ _ grows hp, Graph.node_alloc_new s.graph n⟩ v t run
  refine ⟨sound, ⟨grows.trans gained.toGrows, fun k _ lt => ?_, fun k le clear => ?_⟩, hq⟩
  · have closed : some (⟨s.graph.size⟩ : Handle) ≠ some k := fun same => by
      cases same
      exact absurd lt (Nat.lt_irrefl _)
    exact (gained.old k closed (Nat.lt_of_lt_of_le lt ext.size)).trans (ext.node k lt)
  · by_cases first : k.index = s.graph.size
    · obtain ⟨index⟩ := k
      cases first
      exact accepted
    · have size : (s.opened n slot).graph.size = s.graph.size + 1 := Graph.size_alloc ..
      have le : s.graph.size ≤ k.index := le
      exact gained.new k (show (s.opened n slot).graph.size ≤ k.index by omega) clear

theorem accepts_setNode {h : Handle} {n : Node} :
    Accepts env (some h) (fun a => n.kind = (a.graph.node h).kind) (setNode h n)
      fun _ a => a.graph.node h = n := by
  intro s sound clear kind
  have bound := (clear h rfl).bound
  exact Ensures.modify ⟨sound.grow (.set bound kind), .set bound kind,
    s.graph.node_set_self h n bound⟩

theorem accepts_publish (slot : Option Nat) {v : Value} :
    Accepts env open? (fun a => v.Accepted env a) (publish slot v) fun _ a => v.Accepted env a := by
  cases slot with
  | none => exact Accepts.pure fun _ h => h
  | some number =>
    intro s sound _ accepted
    refine Ensures.modify ⟨⟨⟨sound.versed.received, sound.versed.cache⟩, sound.filled,
      fun n w found => ?_⟩, .refl _, accepted⟩
    simp only [Slots.fill, Array.getElem?_setIfInBounds] at found
    split at found
    · split at found <;> cases found
      exact accepted
    · exact sound.slots n w found

theorem accepts_reserve : Accepts env open? P reserve fun _ a => P a := by
  intro s sound _ hp v t run
  cases run
  refine ⟨⟨⟨sound.versed.received, sound.versed.cache⟩, sound.filled, fun n w found => ?_⟩,
    .refl _, hp⟩
  simp only [Array.getElem?_push] at found
  split at found
  · cases found
  · exact sound.slots n w found

theorem accepts_resolve (number : Nat) :
    Accepts env open? P (resolve number) fun v a => v.Accepted env a := by
  intro s sound _ _
  refine (Ensures.get (Q := fun state t => state = s ∧ t = s) ⟨rfl, rfl⟩).bind fun state t same => ?_
  obtain ⟨rfl, rfl⟩ := same
  refine Ensures.check fun v ok => ⟨sound, .refl _, ?_⟩
  unfold Slots.resolve at ok
  split at ok <;> cases ok
  exact sound.slots number v ‹_›

end Read

/-! ## Types -/

/-- Whether a reader can have been told to read values of a wire type. -/
def WireType.Admitted (env : Environment) (a : Account) : WireType → Prop
  | .peer p => a.defined ∧ env.registry.Owns p
  | wire => wire.Known env

theorem WireType.Known.admitted {env : Environment} {a : Account} {wire : WireType}
    (h : wire.Known env) : wire.Admitted env a := by
  cases wire with
  | peer p => exact h.elim
  | _ => exact h

namespace Read

variable {α β : Type} {env : Environment} {open? : Option Handle}

/-- The type in front of a value is known, or a definition describes it. -/
theorem accepts_typeInfo (strict : env.Strict) :
    Accepts env open? (fun _ => True) (typeInfo env) fun wire a => wire.Admitted env a := by
  intro s sound _ _ wire t run
  obtain ⟨versed, more, -⟩ := (walk_keepsVersed env).typeInfo s sound.versed
  rw [run] at versed more
  have versed : t.Versed env.registry := versed
  have looked : s.Looked (fun _ => True) t := (ensures_typeInfo (fun _ _ => trivial)
    (.refl ⟨fun _ _ => trivial, fun _ _ => trivial⟩) wire t run).2
  have same : t.account = ⟨s.graph, s.filled, t.met ≠ []⟩ := by
    rw [ReadState.account, looked.graph, looked.filled]
  have gained : s.account.Gains env open? t.account := by
    rw [same]
    exact .meet fun defined none => defined (List.subset_nil.1 (none ▸ more))
  refine ⟨⟨versed, ?_, ?_⟩, gained, ?_⟩
  · rw [looked.filled, looked.graph]
    exact sound.filled
  · rw [looked.slots]
    exact fun number v found => (sound.slots number v found).mono gained.toGrows
  · have told := ensures_typeInfo_told wire t run
    have known := ensures_typeInfo_known strict wire t run
    cases wire with
    | peer p =>
      obtain ⟨e, met, d, rfl⟩ := versed.received p told.1
      exact ⟨List.ne_nil_of_mem met, env.registry.owns_ofDefinition e.1 d⟩
    | _ => exact known nofun

/-! ## Values -/

theorem accepts_scalar (t : TypeId) {P : Account → Prop} :
    Accepts env open? P (scalar env.config.limits t) fun v a =>
      v.Accepted env a ∧ (WireType.builtin t).Holds a.graph v :=
  fun s sound _ _ => (ensures_scalar env.config.limits t s).mono fun v u read => by
    obtain ⟨⟨r, rfl⟩, ⟨b, ht, holds⟩, within, exact⟩ := read
    refine ⟨⟨⟨sound.versed.received, sound.versed.cache⟩, sound.filled, sound.slots⟩, .refl _,
      ?_, .inl ⟨b, ht, holds⟩⟩
    cases holds <;> exact ⟨exact, within⟩

/-- Whether a reader of payloads accepts only values, and those of known wire types where it is told
one. -/
def AcceptsPayload (env : Environment) (inner : ReadPayload) : Prop :=
  ∀ (wire : WireType) shape slot,
    Accepts env none (fun a => wire.Admitted env a) (inner wire shape slot) fun v a =>
      v.Accepted env a ∧ v.isNull = false ∧ (wire.Known env → wire.Holds a.graph v)

end Read

/-- What is read behind a marker: only a reference can lead to a value of another type. -/
structure Environment.Reads (env : Environment) (mode : RefMode) (hasType : Bool) (shape : Shape)
    (a : Account) (v : Value) : Prop where
  accepted : v.Accepted env a
  marked : v.isNull = true → mode ≠ .none
  suits : v.isNull = false → hasType = false → mode ≠ .tracking → env.Suits a.graph shape v

namespace Read

variable {α β : Type} {env : Environment} {inner : ReadPayload} (strict : env.Strict)
  (payload : AcceptsPayload env inner)

include strict payload

theorem accepts_typed (hasType : Bool) (shape : Shape) (slot : Option Nat) :
    Accepts env none (fun _ => True) (typed env inner hasType shape slot) fun v a =>
      v.Accepted env a ∧ v.isNull = false ∧ (hasType = false → env.Suits a.graph shape v) := by
  rw [typed_eq]
  cases hasType with
  | true =>
    exact (accepts_typeInfo strict).bind fun wire =>
      (payload wire shape slot).mono (fun _ h => h) fun v a after => ⟨after.1, after.2.1, nofun⟩
  | false =>
    refine .check fun wire declared => ?_
    have known := strict.known_declaredType declared
    exact (payload wire shape slot).mono (fun _ _ => known.admitted) fun v a after =>
      ⟨after.1, after.2.1, fun _ => ⟨wire, declared, after.2.2 known⟩⟩

theorem accepts_marked (mode : RefMode) (hasType : Bool) (shape : Shape) :
    Accepts env none (fun _ => True) (marked env inner mode hasType shape) fun v a =>
      env.Reads mode hasType shape a v := by
  have read : ∀ {P : Account → Prop} slot, Accepts env none P (typed env inner hasType shape slot)
      fun v a => env.Reads mode hasType shape a v := by
    intro P slot
    refine (accepts_typed strict payload hasType shape slot).mono (fun _ _ => trivial) ?_
    rintro v a ⟨accepted, present, suits⟩
    exact ⟨accepted, fun null => absurd (present.symm.trans null) (by decide),
      fun _ untyped _ => suits untyped⟩
  unfold marked
  split
  · exact read none
  · rename_i some
    refine .decode (Decode.Gives.true _) fun flag _ => ?_
    split
    · exact Accepts.pure fun a _ => ⟨⟨trivial, trivial⟩, fun _ => some, fun null => by cases null⟩
    · exact read none
    · refine .decode (Decode.Gives.true _) fun number _ =>
        (accepts_resolve number).mono (fun _ h => h) fun v a accepted => ?_
      exact ⟨accepted, fun _ => some, fun _ _ untracked => absurd rfl untracked⟩
    · refine accepts_reserve.bind fun number => (read _).bind fun v => ?_
      refine Accepts.bind (Q := fun _ a => v.Accepted env a)
        ((accepts_publish _).mono (fun a h => h.accepted) fun _ _ h => h) fun _ => ?_
      refine Accepts.pure fun a accepted => ⟨accepted, fun _ => some, ?_⟩
      exact fun _ _ untracked => absurd rfl untracked
    · exact .throw _

omit strict payload in
theorem accepts_elementHeader {open? : Option Handle} {P : Account → Prop} (part : Option Shape) :
    Accepts env open? P (elementHeader part) fun _ => P := by
  refine .decode (Decode.Gives.true _) fun byte _ => ?_
  split
  · exact .throw _
  · split
    · exact .throw _
    · exact Accepts.pure fun _ h => h

theorem accepts_element (header : ElementHeader) (part : Option Shape) :
    Accepts env none (fun _ => True) (element env inner header part) fun v a =>
      v.Accepted env a :=
  (accepts_marked strict payload _ _ _).mono (fun _ h => h) fun _ _ after => after.accepted

omit strict payload in
/-- The parts of a container are read while its node is open, which holds nothing until then. -/
theorem accepts_many {one : Read α} {Q : α → Account → Prop} {h : Handle} {n : Node}
    (accepts : Accepts env none (fun _ => True) one Q)
    (stable : ∀ v a b, a.Grows b → Q v a → Q v b) (count : Nat) :
    Accepts env (some h) (fun a => a.graph.node h = n) (many one count)
      fun l a => (l.length = count ∧ ∀ v ∈ l, Q v a) ∧ a.graph.node h = n :=
  ((accepts.many stable count).opened fun _ _ _ same held => same.trans held).mono
    (fun _ held => ⟨trivial, held⟩) fun _ _ after => after

/-- What a reader of nodes of a kind gives: a handle to one. -/
def Kept (env : Environment) (kind : NodeKind) (v : Value) (a : Account) : Prop :=
  v.Accepted env a ∧ ∃ h, v = .handle h ∧ (a.graph.node h).kind = kind

omit strict payload in
theorem accepts_empty {k : Handle} {n : Node} (accepted : ∀ a, n.Accepted env a k) :
    Accepts env (some k) (fun a => True ∧ a.graph.node k = n) (Pure.pure (.handle k)) fun v a =>
      Kept env n.kind v a ∧ (a.graph.node k).Accepted env a k :=
  .bounded (.pure fun a held =>
    ⟨⟨held.2, k, rfl, congrArg Node.kind held.1.2⟩, by rw [held.1.2]; exact accepted a⟩)

omit strict payload in
/-- The node is replaced once its parts were read. -/
theorem accepts_full {k : Handle} {empty full : Node} (kind : full.kind = empty.kind) :
    Accepts env (some k) (fun a => full.Accepted env a k ∧ a.graph.node k = empty)
      (do
        setNode k full
        return .handle k)
      fun v a => Kept env empty.kind v a ∧ (a.graph.node k).Accepted env a k := by
  have replaced : Accepts env (some k)
      (fun a => full.kind = (a.graph.node k).kind ∧ full.Accepted env a k) (setNode k full)
      fun _ a => a.graph.node k = full ∧ full.Accepted env a k :=
    accepts_setNode.keep fun _ _ gained accepted => accepted.mono gained.toGrows
  refine (replaced.mono (fun a h => ⟨?_, h.1⟩) fun _ _ h => h).bind fun _ =>
    .bounded (.pure fun a h => ⟨⟨h.2, k, rfl, ?_⟩, ?_⟩)
  · rw [h.2, kind]
  · rw [h.1.1, kind]
  · rw [h.1.1]
    exact h.1.2

theorem accepts_items {node : List Value → Node} (kind : node = .list ∨ node = .set) (shape : Shape)
    (slot : Option Nat) :
    Accepts env none (fun _ => True) (items env inner node shape slot)
      (Kept env (node []).kind) := by
  have accepted : ∀ {a : Account} {k : Handle} {vs : List Value}, vs.length < 2 ^ 32 →
      env.config.limits.Admits .collection vs.length → (∀ v ∈ vs, v.Accepted env a) →
      (node vs).Accepted env a k := by
    intro a k vs
    rcases kind with rfl | rfl <;> exact fun short admitted values => ⟨short, admitted, values⟩
  have same : ∀ vs, (node vs).kind = (node []).kind := by
    intro vs
    rcases kind with rfl | rfl <;> rfl
  unfold items
  refine .decode Decode.gives_varuint32 fun count small => .check fun _ ok =>
    accepts_opened (fun _ _ _ _ => trivial) fun k => ?_
  have admitted := SizeLimits.admits_of_check ok
  split
  · exact accepts_empty fun _ => accepted (by decide) (SizeLimits.admits_zero _ _)
      fun _ member => absurd member List.not_mem_nil
  · refine Accepts.mono ?_ (fun _ h => h.2) fun _ _ h => h
    refine (accepts_elementHeader _).bind fun header =>
      (accepts_many (accepts_element strict payload header _) (fun _ _ _ grows h => h.mono grows)
        count).bind fun vs => (accepts_full (same vs)).mono (fun a h => ⟨?_, h.2⟩) fun _ _ h => h
    exact accepted (h.1.1 ▸ small) (h.1.1 ▸ admitted) h.1.2

theorem accepts_entries (shape : Shape) (slot : Option Nat) :
    Accepts env none (fun _ => True) (entries env inner shape slot) (Kept env .map) := by
  unfold entries
  refine .decode Decode.gives_varuint32 fun count small => .check fun _ ok =>
    accepts_opened (fun _ _ _ _ => trivial) fun k => ?_
  have admitted := SizeLimits.admits_of_check ok
  split
  · exact accepts_empty fun _ =>
      ⟨by decide, SizeLimits.admits_zero _ _, fun _ member => absurd member List.not_mem_nil⟩
  · refine Accepts.mono ?_ (fun _ h => h.2) fun _ _ h => h
    refine (accepts_elementHeader _).bind fun keyHeader =>
      (accepts_elementHeader _).bind fun valueHeader => ?_
    have entry : Accepts env none (fun _ => True)
        (do
          let key ← element env inner keyHeader shape.parts.1
          let value ← element env inner valueHeader shape.parts.2
          return (key, value))
        fun e a => e.1.Accepted env a ∧ e.2.Accepted env a := by
      refine (accepts_element strict payload keyHeader _).bind fun key => ?_
      refine (((accepts_element strict payload valueHeader _).keep
        (S := fun a => key.Accepted env a) fun _ _ gained h => h.mono gained.toGrows).mono
        (fun _ h => ⟨trivial, h⟩) fun _ _ h => h).bind fun value => .pure fun a h => h.symm
    refine (accepts_many entry (fun _ _ _ grows h => h.imp (·.mono grows) (·.mono grows))
      count).bind fun pairs => (accepts_full (show (Node.map pairs).kind = (Node.map []).kind from
        rfl)).mono (fun a h => ⟨?_, h.2⟩) fun _ _ h => h
    exact ⟨h.1.1 ▸ small, h.1.1 ▸ admitted, h.1.2⟩

/-! ## Records -/

end Read

/-- Whether a node is a record of a type, of which something is known. -/
def Account.Opened (h : Handle) (typeName : String) (R : Account → Record → Prop) (a : Account) :
    Prop :=
  ∃ r, a.graph.node h = .record r ∧ r.typeName = typeName ∧ R a r

theorem Account.Opened.mono {h : Handle} {typeName : String} {R R' : Account → Record → Prop}
    {a b : Account} (opened : a.Opened h typeName R) (same : b.graph.node h = a.graph.node h)
    (stable : ∀ r, R a r → R' b r) : b.Opened h typeName R' :=
  let ⟨r, held, name, known⟩ := opened
  ⟨r, same.trans held, name, stable r known⟩

/-- Whether a node is a record of a type of which some fields were read. -/
abbrev Account.Partial (env : Environment) (h : Handle) (typeName : String) (done : List Field)
    (a : Account) : Prop :=
  a.Opened h typeName fun a r => r.Accepted env a done

/-- What is known of a record that is read by a definition. -/
def Record.GatheredBy (env : Environment) (h : Handle) (a : Account) (r : Record) : Prop :=
  a.defined ∧ r.Gathered env a h

/-- Whether a node is a record of a type that is read by a definition. -/
abbrev Account.Gathers (env : Environment) (h : Handle) (typeName : String) (a : Account) : Prop :=
  a.Opened h typeName (Record.GatheredBy env h)

theorem Record.GatheredBy.mono {env : Environment} {h : Handle} {a b : Account} {r : Record}
    (gathered : r.GatheredBy env h a) (grows : a.Grows b) : r.GatheredBy env h b :=
  ⟨grows.defined gathered.1, gathered.2.mono grows⟩

namespace Read

variable {α β : Type} {env : Environment} {inner : ReadPayload}

/-- A field of the open record is set. -/
theorem accepts_setField {h : Handle} {name typeName : String} {v : Value}
    {R R' : Account → Record → Prop}
    (set : ∀ a b r, a.Grows b → R a r → R' b (r.set name v)) :
    Accepts env (some h) (fun a => a.Opened h typeName R) (setField h name v)
      fun _ a => a.Opened h typeName R' := by
  intro s sound clear before w t run
  obtain ⟨r, held, type, known⟩ := before
  have held : s.graph.node h = .record r := held
  have bound : h.index < s.graph.size := (clear h rfl).bound
  have put : s.graph.withField h name v = s.graph.set h (.record (r.set name v)) := by
    simp only [Graph.withField, held]
  rw [setField_apply, put] at run
  cases run
  have kind : (Node.record (r.set name v)).kind = (s.graph.node h).kind := by
    rw [held]
    rfl
  exact ⟨sound.grow (.set bound kind), .set bound kind, r.set name v,
    s.graph.node_set_self h _ bound, type, set _ _ r (.ofGraph (.set bound kind) _ _) known⟩

section

variable (strict : env.Strict) (payload : AcceptsPayload env inner)

include strict payload

theorem accepts_field {s : StructType} (plain : s.isCompatible = false) {h : Handle}
    {typeName : String} {done : List Field} {f : Field} (untracked : f.tracked = false) :
    Accepts env (some h) (fun a => a.Partial env h typeName done)
      (field env inner s h f) fun _ a => a.Partial env h typeName (done ++ [f]) := by
  have noRef := Field.refMode_ne_tracking untracked
  have read := (accepts_marked strict payload f.refMode (f.hasTypeInfo false) f.shape).opened
    (h := h) (S := fun a => a.Partial env h typeName done) fun a b gained same before =>
      before.mono same fun r accepted => accepted.mono gained.toGrows
  unfold field
  rw [plain]
  refine (read.mono (fun _ before => ⟨trivial, before⟩) fun _ _ h => h).bind fun v => ?_
  by_cases null : v.isNull = true
  · rw [if_pos null]
    refine (Accepts.noteNull h f.name).mono (fun _ before => before) fun _ a before => ?_
    obtain ⟨reads, r, held, name, accepted⟩ := before
    refine ⟨r, held, name, ?_⟩
    have nullable : f.nullable = true := by
      have marked := reads.marked null
      rw [Field.refMode_of_untracked untracked] at marked
      cases nullable : f.nullable with
      | true => rfl
      | false =>
        rw [nullable] at marked
        exact absurd rfl marked
    have put := accepted.put reads.accepted (fun _ => nullable) fun present => by
      rw [null] at present
      cases present
    rwa [Record.put, if_pos null] at put
  · rw [if_neg null]
    have present : v.isNull = false := by simpa using null
    refine Accepts.mono (accepts_setField
      (R := fun a r => env.Reads f.refMode (f.hasTypeInfo false) f.shape a v ∧ r.Accepted env a done)
      fun a b r grows before => ?_)
      (fun a before => before.2.mono rfl fun r accepted => ⟨before.1, accepted⟩) fun _ _ h => h
    obtain ⟨reads, accepted⟩ := before
    have put := (accepted.mono grows).put (reads.accepted.mono grows)
      (fun null => by rw [present] at null; cases null) fun _ untyped =>
        (reads.suits present untyped noRef).mono reads.accepted.inside grows.graph
    rwa [Record.put, if_neg null] at put

theorem accepts_each {s : StructType} (plain : s.isCompatible = false) {h : Handle}
    {typeName : String} (fs : List Field) (untracked : ∀ f ∈ fs, f.tracked = false)
    (done : List Field) :
    Accepts env (some h) (fun a => a.Partial env h typeName done)
      (each (field env inner s h) fs)
      fun _ a => a.Partial env h typeName (done ++ fs) := by
  induction fs generalizing done with
  | nil => exact .pure fun a before => by rwa [List.append_nil]
  | cons f fs ih =>
    refine (accepts_field strict payload plain (untracked f List.mem_cons_self)).bind fun _ => ?_
    have rest := ih (fun f' member => untracked f' (List.mem_cons_of_mem _ member)) (done ++ [f])
    rwa [List.append_assoc] at rest

theorem accepts_record (untracked : env.config.trackRef = false) {s : StructType}
    (found : env.registry.struct? s.qualifiedName = some s) (strictly : Bool) (slot : Option Nat) :
    Accepts env none (fun _ => True) (record env inner s strictly slot)
      (Kept env (.record s.qualifiedName)) := by
  have built := strict.built.built found
  have fields : ∀ f ∈ s.fields, f.tracked = false := fun f member => by
    rw [(built.resolved f member).tracked, untracked, Bool.and_false]
  have body : Accepts env none (fun _ => True)
      (do
        let h ← alloc (.record (.ofType s.qualifiedName))
        publish slot (.handle h)
        each (field env inner s h) s.fields
        return Value.handle h)
      (Kept env (.record s.qualifiedName)) := by
    refine accepts_opened (fun _ _ _ _ => trivial) fun k => ?_
    have read : Accepts env (some k) (fun a => a.Partial env k s.qualifiedName [])
        (each (field env inner s k) s.fields)
        fun _ a => a.Partial env k s.qualifiedName s.fields :=
      accepts_each strict payload built.kind_eq s.fields fields []
    refine (read.mono (fun a held => ⟨_, held.2, rfl, Record.accepted_ofType _⟩) fun _ _ h => h).bind
      fun _ => .bounded (.pure fun a after => ?_)
    obtain ⟨⟨r, held, name, accepted⟩, clear⟩ := after
    refine ⟨⟨clear, k, rfl, ?_⟩, ?_⟩
    · rw [held]
      exact congrArg NodeKind.record name
    · rw [held]
      exact .inl ⟨s, by rw [name, found], accepted⟩
  unfold record newRecord Read.fields
  rw [strict.strategy]
  cases strictly with
  | true =>
    simp only [if_true, bind_assoc, pure_bind]
    exact .decode (Decode.Gives.true _) fun version _ => .check fun _ _ => body
  | false =>
    simp only [Bool.false_eq_true, if_false, bind_assoc, pure_bind]
    exact body

end

/-! ## Records of a peer -/

/-- A value is put into a record that is read by a definition. -/
theorem accepts_gatherField {h : Handle} {name typeName : String} {v : Value} :
    Accepts env (some h)
      (fun a => v.Accepted env a ∧ a.Gathers env h typeName)
      (setField h name v) fun _ a => a.Gathers env h typeName :=
  (accepts_setField (R := fun a r => v.Accepted env a ∧ r.GatheredBy env h a)
    fun _ _ _ grows ⟨accepted, gathered⟩ =>
      ⟨grows.defined gathered.1, (gathered.2.mono grows).set (.inl (accepted.mono grows))⟩).mono
    (fun _ before => before.2.mono rfl fun _ gathered => ⟨before.1, gathered⟩) fun _ _ h => h

/-- A field that the peer left out gets its default. -/
theorem accepts_fillMissing (h : Handle) (f : Field) {typeName : String} :
    Accepts env (some h) (fun a => a.Gathers env h typeName) (fillMissing h f)
      fun _ a => a.Gathers env h typeName := by
  refine .check fun found _ => ?_
  cases found with
  | none => exact .pure fun _ before => before
  | some t =>
    intro s sound clear before w u run
    let x : Filling := ⟨h, f.name, t, s.graph.size⟩
    let copied : ReadState := { s with
      graph := (t.instantiate s.graph).2, filled := s.filled ++ [x] }
    have run : setField h f.name x.value copied = .ok w u := run
    have gained : s.account.Gains env none copied.account := .fill (x := x) rfl
    have bound := (clear h rfl).bound
    have sound : copied.Sound env := by
      refine ⟨⟨sound.versed.received, sound.versed.cache⟩, fun y noted => ?_,
        fun number v found => (sound.slots number v found).mono gained.toGrows⟩
      rcases List.mem_append.1 noted with old | new
      · exact Nat.le_trans (sound.filled y old) gained.graph.size
      · rw [List.mem_singleton.1 new]
        exact Nat.le_of_eq (t.size_instantiate s.graph).symm
    have noted : x ∈ copied.filled := List.mem_append_right _ (List.mem_singleton_self x)
    have set : Accepts env (some h)
        (fun a => a.Opened h typeName fun a r => x ∈ a.filled ∧ r.GatheredBy env h a)
        (setField h f.name x.value) fun _ a => a.Gathers env h typeName :=
      accepts_setField fun a b r grows ⟨noted, gathered⟩ =>
        ⟨grows.defined gathered.1, (gathered.2.mono grows).set
          (.inr ⟨x, grows.kept noted, rfl, rfl, rfl⟩)⟩
    obtain ⟨sound, gained', after⟩ := set copied sound
      (fun k same => (clear k same).mono gained.toGrows)
      (before.mono (gained.old h nofun bound) fun r gathered =>
        ⟨noted, gathered.mono gained.toGrows⟩) w u run
    exact ⟨sound, gained.weaken.trans gained' fun k same => (clear k same).bound, after⟩

theorem accepts_keepField (p : PeerStruct) (h : Handle) (f : PeerField) {v : Value}
    {typeName : String} :
    Accepts env (some h)
      (fun a => v.Accepted env a ∧ a.Gathers env h typeName)
      (keepField p h f v) fun _ a => a.Gathers env h typeName := by
  have skip {m : Read Unit} (accepts : Accepts env (some h)
      (fun a => a.Gathers env h typeName) m
      fun _ a => a.Gathers env h typeName) :
      Accepts env (some h)
        (fun a => v.Accepted env a ∧ a.Gathers env h typeName) m
        fun _ a => a.Gathers env h typeName :=
    accepts.mono (fun _ before => before.2) fun _ _ after => after
  unfold keepField
  split
  · split
    · refine skip ((Accepts.noteNull h _).bind fun _ => ?_)
      split
      · exact .pure fun _ before => before
      · exact accepts_fillMissing h _
    · exact accepts_gatherField
  · split
    · exact skip (.pure fun _ before => before)
    · exact accepts_gatherField
  · exact skip .noteDropped

section

variable (strict : env.Strict) (payload : AcceptsPayload env inner)

include strict payload

theorem accepts_peerField (p : PeerStruct) (h : Handle) (f : PeerField) {typeName : String} :
    Accepts env (some h) (fun a => a.Gathers env h typeName)
      (peerField env inner p h f) fun _ a => a.Gathers env h typeName := by
  have read := (accepts_marked strict payload f.refMode f.typed f.shape).opened
    (h := h) (S := fun a => a.Gathers env h typeName) fun a b gained same before =>
      before.mono same fun r gathered => gathered.mono gained.toGrows
  exact (read.mono (fun _ before => ⟨trivial, before⟩) fun _ _ h => h).bind fun v =>
    (accepts_keepField p h f).mono (fun _ before => ⟨before.1.accepted, before.2⟩) fun _ _ h => h

theorem accepts_reconciled (p : PeerStruct) (slot : Option Nat) :
    Accepts env none (fun a => a.defined) (reconciled env inner p slot)
      (Kept env (.record p.typeName)) := by
  unfold reconciled newRecord
  simp only [bind_assoc, pure_bind]
  refine accepts_opened (fun _ _ grows => grows.defined) fun k => ?_
  refine ((Accepts.each _ fun f _ => accepts_peerField strict payload p k f).mono
    (fun a before => ⟨_, before.2, rfl, before.1, fun _ member => absurd member List.not_mem_nil⟩)
    fun _ _ h => h).bind fun _ => (Accepts.each _ fun f _ => accepts_fillMissing k f).bind fun _ =>
      .bounded (.pure fun a after => ?_)
  obtain ⟨⟨r, held, name, gathered⟩, clear⟩ := after
  refine ⟨⟨clear, k, rfl, ?_⟩, ?_⟩
  · rw [held]
    exact congrArg NodeKind.record name
  · rw [held]
    exact .inr gathered

/-- A record of a struct that both sides lay out alike is read as one of ours. -/
theorem accepts_peerRecord (untracked : env.config.trackRef = false) {p : PeerStruct}
    (owns : env.registry.Owns p) (slot : Option Nat) :
    Accepts env none (fun a => a.defined) (peerRecord env inner p slot) fun v a =>
      v.Accepted env a ∧ v.isNull = false := by
  have present {kind : NodeKind} {v : Value} {a : Account} (kept : Kept env kind v a) :
      v.Accepted env a ∧ v.isNull = false := by
    obtain ⟨accepted, h, rfl, -⟩ := kept
    exact ⟨accepted, rfl⟩
  unfold peerRecord
  split
  · rename_i s _ own
    obtain ⟨name, found⟩ := owns s own
    have found : env.registry.struct? s.qualifiedName = some s := by
      rw [(strict.built.built found).qualifiedName, found]
    exact (accepts_record strict payload untracked found false slot).mono (fun _ _ => trivial)
      fun _ _ => present
  · exact (accepts_reconciled strict payload p slot).mono (fun _ h => h) fun _ _ => present

end

/-! ## Payloads -/

/-- A level further in is read by what reads that level. -/
theorem accepts_descend {deeper : Option ReadPayload}
    (h : ∀ inner, deeper = some inner → AcceptsPayload env inner) {P : Account → Prop}
    {Q : α → Account → Prop} {f : ReadPayload → Read α}
    (hf : ∀ inner, AcceptsPayload env inner → Accepts env none P (f inner) Q) :
    Accepts env none P (check (env.descend deeper) >>= f) Q := by
  exact .check fun inner found => hf inner (h inner (Environment.inner_of_descend found))

/-- A handle to a node of the kind of a wire type is a value of the type. -/
theorem Kept.holds {kind : NodeKind} {wire : WireType} {v : Value} {a : Account}
    (kept : Kept env kind v a)
    (same : ∀ h, (a.graph.node h).kind = kind → wire.Holds a.graph (.handle h)) :
    v.Accepted env a ∧ v.isNull = false ∧ (wire.Known env → wire.Holds a.graph v) := by
  obtain ⟨accepted, h, rfl, kind⟩ := kept
  exact ⟨accepted, rfl, fun _ => same h kind⟩

theorem accepts_layer (strict : env.Strict) (untracked : env.config.trackRef = false)
    {deeper : Option ReadPayload} (h : ∀ inner, deeper = some inner → AcceptsPayload env inner) :
    AcceptsPayload env (layer env deeper) := by
  intro wire shape slot
  cases wire with
  | builtin t =>
    simp only [layer]
    split
    · rename_i container
      refine accepts_descend h fun inner payload => ?_
      have kept : ∀ {kind m}, t.nodeKind? = some kind →
          Accepts env none (fun _ => True) m (Kept env kind) →
          Accepts env none (fun a => (WireType.builtin t).Admitted env a) m fun v a =>
            v.Accepted env a ∧ v.isNull = false ∧
              ((WireType.builtin t).Known env → (WireType.builtin t).Holds a.graph v) :=
        fun same accepts => accepts.mono (fun _ _ => trivial) fun v a kept =>
          kept.holds fun k kind => .inr ⟨k, rfl, by rw [same, kind]⟩
      refine container_cases (P := fun m => Accepts env none _ m _) container ?_ ?_ ?_ <;> rintro rfl
      · exact kept rfl (accepts_items strict payload (.inl rfl) shape slot)
      · exact kept rfl (accepts_items strict payload (.inr rfl) shape slot)
      · exact kept rfl (accepts_entries strict payload shape slot)
    · exact (accepts_scalar t).mono (fun _ h => h) fun v a read =>
        ⟨read.1, read.2.isNull, fun _ => read.2⟩
  | struct s strictly =>
    refine accepts_descend h fun inner payload s' sound clear known => ?_
    refine ((accepts_record strict payload untracked known strictly slot) s' sound clear trivial).mono
      fun v t read => ⟨read.1, read.2.1, read.2.2.holds fun k kind => ?_⟩
    exact (⟨k, rfl, kind⟩ : (WireType.struct s strictly).Holds t.account.graph (.handle k))
  | peer p =>
    refine accepts_descend h fun inner payload s sound clear admitted => ?_
    exact ((accepts_peerRecord strict payload untracked admitted.2 slot) s sound clear admitted.1).mono
      fun v t read => ⟨read.1, read.2.1, read.2.2.1, read.2.2.2, fun known => known.elim⟩
  | «enum» typeName members =>
    refine .decode Decode.gives_varuint32 fun ordinal small => ?_
    split
    · rename_i member
      refine .pure fun a known => ⟨⟨small, fun required => ?_⟩, rfl, fun _ =>
        ⟨ordinal, rfl, member⟩⟩
      obtain ⟨e, found, same⟩ := known required
      subst same
      exact ⟨e, found, by simpa using member⟩
    · exact .throw _

theorem acceptsPayload (strict : env.Strict) (untracked : env.config.trackRef = false)
    (levels : Nat) : AcceptsPayload env (payload env levels) := by
  induction levels with
  | zero => exact accepts_layer strict untracked fun _ none => by cases none
  | succ levels ih => exact accepts_layer strict untracked fun _ same => by cases same; exact ih

theorem accepts_frame (strict : env.Strict) (untracked : env.config.trackRef = false)
    (mode : RefMode) :
    Accepts env none (fun _ => True) (frame env mode) fun v a => v.Accepted env a := by
  have marked := accepts_marked strict (acceptsPayload strict untracked env.config.maxDepth) mode true
    .dynamic
  intro s sound clear _
  have moved (reader : Reader) : ReadState.Sound env { s with reader } :=
    ⟨⟨sound.versed.received, sound.versed.cache⟩, sound.filled, sound.slots⟩
  refine ensures_frame (fun reader => ⟨moved reader, .refl _, trivial, trivial⟩) fun reader =>
    (marked { s with reader } (moved reader) clear trivial).mono fun v t read => ?_
  exact ⟨read.1, read.2.1, read.2.2.accepted⟩

end Read

end Graphwire
