import Graphwire.Proofs.Ceilings
import Graphwire.Proofs.Reachable

/-!
# Guardrails

Ceilings on sizes and the bound on levels only cut reading off. A reader with lower ones does what a
reader with higher ones does, up to the point where it gives up with an error that says so. The two
are read in lockstep: a check passes in both, or fails in the stricter one alone, and one level
further in is open to both, or closed to the stricter one alone.
-/

namespace Graphwire

set_option autoImplicit false

/-- Whether an error says that a guardrail cut reading off. -/
def Error.IsCutOff (e : Error) : Prop := e.kind = .sizeLimitExceeded ∨ e.kind = .depthExceed

/-- Whether no ceiling is above the other one of its kind, where no ceiling is above all. -/
def SizeLimits.AtMost (limits others : SizeLimits) : Prop :=
  ∀ kind ceiling, others.ceiling kind = some ceiling →
    ∃ lower, limits.ceiling kind = some lower ∧ lower ≤ ceiling

theorem SizeLimits.atMost_unlimited (limits : SizeLimits) : limits.AtMost .unlimited := by
  intro kind ceiling found
  cases kind <;> cases found

namespace Read

variable {α β : Type}

/-- Two readers of which the first does what the second does, unless it fails with some errors. -/
def FailsOnly (cut : Error → Prop) {α : Type} (Q : α → Prop) (m₁ m₂ : Read α) : Prop :=
  ∀ s, (m₁ s = m₂ s ∧ ∀ a t, m₁ s = .ok a t → Q a) ∨ ∃ e t, m₁ s = .error e t ∧ cut e

/-- Two readers of which the first does what the second does, unless it is cut off. -/
abbrev CutsOff {α : Type} (Q : α → Prop) (m₁ m₂ : Read α) : Prop := FailsOnly Error.IsCutOff Q m₁ m₂

variable {cut : Error → Prop}

theorem failsOnly_refl (m : Read α) : FailsOnly cut (fun _ => True) m m :=
  fun _ => .inl ⟨rfl, fun _ _ _ => trivial⟩

theorem congruence_failsOnly : Congruence fun {_} => FailsOnly cut where
  ofLocal _ := failsOnly_refl _
  pure h := fun _ => .inl ⟨rfl, fun _ _ run => by cases run; exact h⟩
  throw := fun _ => .inl ⟨rfl, fun _ _ run => by cases run⟩
  bind := by
    intro α β Q R m₁ m₂ f₁ f₂ hm hf s
    rw [bind_apply, bind_apply]
    rcases hm s with ⟨same, value⟩ | ⟨e, t, error, kind⟩
    · rw [← same]
      cases first : m₁ s with
      | ok a t => exact hf a (value a t first) t
      | error e t => exact .inl ⟨rfl, fun _ _ run => by cases run⟩
    · rw [error]
      exact .inr ⟨e, t, rfl, kind⟩

theorem failsOnly_check (sizes : ∀ e : Error, e.kind = .sizeLimitExceeded → cut e)
    {limits others : SizeLimits} (tighter : limits.AtMost others) (kind : LimitKind) (size : Nat) :
    FailsOnly cut (fun _ => True) (check (limits.check kind size)) (check (others.check kind size)) := by
  have passes : ∀ l : SizeLimits, l.Admits kind size → l.check kind size = .ok () := by
    intro l admits
    unfold SizeLimits.check
    split
    · rename_i ceiling found
      exact if_neg (Nat.not_lt.2 (admits ceiling found))
    · rfl
  cases found : limits.check kind size with
  | ok u =>
    have admits := SizeLimits.admits_of_check found
    have loose : others.check kind size = .ok () := passes others fun ceiling above => by
      obtain ⟨lower, tight, le⟩ := tighter kind ceiling above
      exact Nat.le_trans (admits lower tight) le
    rw [loose]
    exact failsOnly_refl _
  | error e =>
    intro s
    refine .inr ⟨e, s, rfl, sizes e ?_⟩
    unfold SizeLimits.check at found
    split at found
    · split at found <;> cases found
      rfl
    · cases found

section

variable {env₁ env₂ : Environment} (registry : env₂.registry = env₁.registry)
  (registration : env₂.config.requireRegistration = env₁.config.requireRegistration)
  (strategy : env₂.config.strategy = env₁.config.strategy)
  (tighter : env₁.config.limits.AtMost env₂.config.limits)

include registry registration tighter

theorem walk_failsOnly (sizes : ∀ e : Error, e.kind = .sizeLimitExceeded → cut e) :
    Walk (fun {_} => FailsOnly cut) env₁ env₂ (fun _ => True) fun _ => True :=
  { congruence_failsOnly with
    registry
    registration
    limited := failsOnly_check sizes tighter
    registered := fun _ _ => trivial
    own := fun _ _ _ _ => trivial
    definition := failsOnly_refl _ }

include strategy

/-- With as many levels, nothing but sizes is refused. -/
theorem failsOnly_frame (depth : env₂.config.maxDepth = env₁.config.maxDepth) (mode : RefMode) :
    FailsOnly (·.kind = .sizeLimitExceeded) (fun _ => True) (frame env₁ mode) (frame env₂ mode) :=
  have walk := walk_failsOnly registry registration tighter fun _ size => size
  walk.frame_of_depth (walk.relatedFields_self strategy) depth mode

/-- As many levels, or fewer. -/
theorem paired_payload {levels more : Nat} (le : levels ≤ more) :
    Paired @CutsOff env₁ env₂ (fun _ => True) (fun _ => True)
      (Read.payload env₁ levels) (Read.payload env₂ more) := by
  have walk : Walk @CutsOff env₁ env₂ (fun _ => True) fun _ => True :=
    walk_failsOnly registry registration tighter fun _ => .inl
  have related := walk.relatedFields_self strategy
  induction levels generalizing more with
  | zero =>
    have cut : ∀ deeper, RelatedDescent @CutsOff env₁ env₂
        (fun _ => True) (fun _ => True) none deeper := fun _ _ _ _ _ s =>
      .inr ⟨.depthExceeded env₁.config.maxDepth, s, rfl, .inr rfl⟩
    cases more with
    | zero => exact walk.layer related (cut none)
    | succ more => exact walk.layer related (cut _)
  | succ levels ih =>
    obtain ⟨more, rfl⟩ : ∃ n, more = n + 1 := ⟨more - 1, by omega⟩
    exact walk.layer related fun inner => inner _ _ (ih (Nat.le_of_succ_le_succ le))

theorem cutsOff_frame (shallower : env₁.config.maxDepth ≤ env₂.config.maxDepth) (mode : RefMode) :
    CutsOff (fun _ => True) (frame env₁ mode) (frame env₂ mode) :=
  (walk_failsOnly registry registration tighter fun _ => .inl).frame
    (paired_payload registry registration strategy tighter shallower) mode

end

end Read

/-! ## Instances -/

namespace Instance

/-- The instance with other guardrails. -/
def guarded (i : Instance) (limits : SizeLimits) (maxDepth : Nat) : Instance :=
  (i.setLimits limits).setMaxDepth maxDepth

/-- Ceilings are for readers alone. -/
theorem serialize_setLimits (i : Instance) (limits : SizeLimits) (g : Graph) (v : Value) :
    (i.setLimits limits).serialize g v = i.serialize g v := by
  have layer : Write.layer (i.setLimits limits).environment g = Write.layer i.environment g := rfl
  have payload (levels : Nat) : Write.payload (i.setLimits limits).environment g levels =
      Write.payload i.environment g levels := by
    induction levels with
    | zero => rw [Write.payload, Write.payload, layer]
    | succ levels ih => rw [Write.payload, Write.payload, layer, ih]
  have value : Write.value (i.setLimits limits).environment g i.rootMode true .dynamic v =
      Write.value i.environment g i.rootMode true .dynamic v := by
    unfold Write.value
    rw [show (i.setLimits limits).environment.config.maxDepth = i.environment.config.maxDepth from rfl,
      payload]
    rfl
  cases fault : i.fault with
  | some e => rw [serialize_of_fault (i.setLimits limits) g v fault, serialize_of_fault i g v fault]
  | none =>
    rw [serialize_of_sane (i.setLimits limits) g v fault, serialize_of_sane i g v fault, ← value]
    rfl

/-- With lower ceilings alone an instance reads the same, or refuses a size. -/
theorem deserialize_setLimits (i : Instance) {limits : SizeLimits}
    (tighter : i.config.limits.AtMost limits) (bytes : List UInt8) :
    (i.deserialize bytes).1 = ((i.setLimits limits).deserialize bytes).1 ∨
      ∃ e, (i.deserialize bytes).1 = .error e ∧ e.kind = .sizeLimitExceeded := by
  cases fault : i.fault with
  | some e =>
    rw [deserialize_of_fault i bytes fault, deserialize_of_fault (i.setLimits limits) bytes fault]
    exact .inl rfl
  | none =>
    rw [deserialize_of_sane i bytes fault, deserialize_of_sane (i.setLimits limits) bytes fault]
    have cuts : Read.FailsOnly (·.kind = .sizeLimitExceeded) (fun _ => True)
        (Read.frame i.environment i.rootMode)
        (Read.frame (i.setLimits limits).environment i.rootMode) := by
      refine Read.failsOnly_frame ?_ ?_ ?_ tighter ?_ i.rootMode <;> rfl
    rw [show (i.setLimits limits).rootMode = i.rootMode from rfl,
      show (i.setLimits limits).cache = i.cache from rfl]
    rcases cuts (.ofBytes bytes i.cache) with ⟨same, -⟩ | ⟨e, t, refused, kind⟩
    · rw [same]
      generalize Read.frame (i.setLimits limits).environment i.rootMode (.ofBytes bytes i.cache) =
        outcome
      exact .inl (by cases outcome <;> rfl)
    · rw [refused]
      exact .inr ⟨e, rfl, kind⟩

/-- The defaults that an instance puts into the records of a frame. -/
def filled (i : Instance) (bytes : List UInt8) : List Filling :=
  match i.checkFault with
  | .error _ => []
  | .ok () => (Read.final (Read.frame i.environment i.rootMode (.ofBytes bytes i.cache))).filled

theorem filled_of_sane (i : Instance) (bytes : List UInt8) (sane : i.fault = none) :
    i.filled bytes =
      (Read.final (Read.frame i.environment i.rootMode (.ofBytes bytes i.cache))).filled := by
  have checked : i.checkFault = .ok () := by simp only [checkFault, sane]
  unfold filled
  rw [checked]

/-- The empty reader is within all ceilings. -/
theorem bounded_ofBytes (env : Environment) (bytes : List UInt8) :
    (ReadState.ofBytes bytes .empty).Bounded env :=
  ⟨Graph.within_empty _, fun number v found => by simp [ReadState.ofBytes, Slots.empty] at found,
    fun _ h => absurd h List.not_mem_nil,
    ⟨fun _ h => absurd h List.not_mem_nil, fun _ h => absurd h List.not_mem_nil⟩⟩

/-- With lower guardrails an instance reads the same or is cut off, and what it reads is within its
ceilings, apart from defaults of registered fields. -/
theorem deserialize_guarded (i : Instance) (unused : i.cache = .empty) {limits others : SizeLimits}
    (tighter : limits.AtMost others) {depth more : Nat} (shallower : depth ≤ more)
    (bytes : List UInt8) :
    (((i.guarded limits depth).deserialize bytes).1 = ((i.guarded others more).deserialize bytes).1 ∨
      ∃ e, ((i.guarded limits depth).deserialize bytes).1 = .error e ∧ e.IsCutOff) ∧
    ∀ v g, ((i.guarded limits depth).deserialize bytes).1 = .ok (v, g) →
      v.Within limits ∧ g.Within limits ((i.guarded limits depth).filled bytes) ∧
        ∀ f ∈ (i.guarded limits depth).filled bytes, i.registry.Defaults f.field f.default := by
  cases fault : i.fault with
  | some e =>
    rw [deserialize_of_fault (i.guarded limits depth) bytes fault,
      deserialize_of_fault (i.guarded others more) bytes fault]
    exact ⟨.inl rfl, fun _ _ h => by cases h⟩
  | none =>
    rw [deserialize_of_sane (i.guarded limits depth) bytes fault,
      deserialize_of_sane (i.guarded others more) bytes fault,
      filled_of_sane (i.guarded limits depth) bytes fault]
    have mode : ∀ limits depth, (i.guarded limits depth).rootMode = i.rootMode := fun _ _ => rfl
    have cache : ∀ limits depth, (i.guarded limits depth).cache = i.cache := fun _ _ => rfl
    rw [mode, mode, cache, cache, unused]
    have within : ∀ v t, Read.frame (i.guarded limits depth).environment i.rootMode
        (.ofBytes bytes .empty) = .ok v t →
        t.Bounded (i.guarded limits depth).environment ∧ v.Within limits :=
      Read.bounds_frame i.rootMode _ (bounded_ofBytes _ bytes)
    have cutsOff : Read.CutsOff (fun _ => True)
        (Read.frame (i.guarded limits depth).environment i.rootMode)
        (Read.frame (i.guarded others more).environment i.rootMode) := by
      refine Read.cutsOff_frame ?_ ?_ ?_ tighter shallower i.rootMode <;> rfl
    have cuts := cutsOff (.ofBytes bytes .empty)
    generalize Read.frame (i.guarded limits depth).environment i.rootMode
      (.ofBytes bytes .empty) = strict at within cuts ⊢
    generalize Read.frame (i.guarded others more).environment i.rootMode
      (.ofBytes bytes .empty) = loose at cuts ⊢
    refine ⟨?_, fun v g read => ?_⟩
    · rcases cuts with ⟨same, -⟩ | ⟨e, t, cut, kind⟩
      · rw [same]
        exact .inl (by cases loose <;> rfl)
      · rw [cut]
        exact .inr ⟨e, rfl, kind⟩
    · cases strict with
      | error e t => cases read
      | ok w t =>
        cases read
        obtain ⟨bounded, value⟩ := within _ _ rfl
        exact ⟨value, bounded.graph, bounded.filled⟩

/-- A list of two truth values. -/
def flagsFrame : List UInt8 :=
  Encode.head false ++ [0xff] ++ TypeId.list.encode ++ [2, 0] ++ TypeId.bool.encode ++ [1] ++
    TypeId.bool.encode ++ [0]

/-- Two elements and one level are enough for two truth values in a list. -/
theorem deserialize_guarded_flags :
    fresh.cache = .empty ∧ (⟨none, none, some 2, none⟩ : SizeLimits).AtMost .unlimited ∧ 1 ≤ 50 ∧
      ((fresh.guarded ⟨none, none, some 2, none⟩ 1).deserialize flagsFrame).1.toOption.map
        (fun p => p.2.asItems? p.1) = some (some [.bool true, .bool false]) ∧
      (((fresh.guarded ⟨none, none, some 2, none⟩ 1).deserialize flagsFrame).1 =
          ((fresh.guarded .unlimited 50).deserialize flagsFrame).1 ∨
        ∃ e, ((fresh.guarded ⟨none, none, some 2, none⟩ 1).deserialize flagsFrame).1 = .error e ∧
          e.IsCutOff) ∧
      ∀ v g, ((fresh.guarded ⟨none, none, some 2, none⟩ 1).deserialize flagsFrame).1 = .ok (v, g) →
        v.Within ⟨none, none, some 2, none⟩ ∧
          g.Within ⟨none, none, some 2, none⟩
            ((fresh.guarded ⟨none, none, some 2, none⟩ 1).filled flagsFrame) ∧
          ∀ f ∈ (fresh.guarded ⟨none, none, some 2, none⟩ 1).filled flagsFrame,
            fresh.registry.Defaults f.field f.default := by
  have tighter : (⟨none, none, some 2, none⟩ : SizeLimits).AtMost .unlimited := by
    intro kind ceiling found
    cases kind <;> cases found
  refine ⟨rfl, tighter, by decide, by decide +kernel, ?_⟩
  exact deserialize_guarded fresh rfl tighter (by decide) flagsFrame

end Instance

end Graphwire
