import Graphwire.Codec.State
import Mathlib.Data.List.Forall2

/-!
# Running steps

What a sequence of steps comes to: a sequence that succeeds is made of steps that succeed.
-/

namespace Graphwire

set_option autoImplicit false

variable {α β : Type}

/-! ## Results -/

theorem bind_eq_ok_iff {x : Except Error α} {f : α → Except Error β} {b : β} :
    (x >>= f) = .ok b ↔ ∃ a, x = .ok a ∧ f a = .ok b := by
  cases x with
  | ok a => exact ⟨fun h => ⟨a, rfl, h⟩, fun ⟨_, h, hf⟩ => by cases h; exact hf⟩
  | error e => exact ⟨nofun, fun ⟨_, h, _⟩ => by cases h⟩

theorem map_eq_ok_iff {ε : Type} {x : Except ε α} {f : α → β} {b : β} :
    f <$> x = .ok b ↔ ∃ a, x = .ok a ∧ f a = b := by
  cases x with
  | ok a => exact ⟨fun h => ⟨a, rfl, by cases h; rfl⟩, fun ⟨_, h, hf⟩ => by cases h; cases hf; rfl⟩
  | error e => exact ⟨nofun, fun ⟨_, h, _⟩ => by cases h⟩

theorem pure_eq_ok_iff {a b : α} : (pure a : Except Error α) = .ok b ↔ a = b :=
  ⟨fun h => by cases h; rfl, fun h => by rw [h]; rfl⟩

theorem mapM_eq_ok_iff {f : α → Except Error β} {items : List α} {results : List β} :
    items.mapM f = .ok results ↔ List.Forall₂ (fun a b => f a = .ok b) items results := by
  induction items generalizing results with
  | nil => rw [List.mapM_nil, pure_eq_ok_iff, List.forall₂_nil_left_iff, eq_comm]
  | cons a items ih =>
    rw [List.mapM_cons, bind_eq_ok_iff, List.forall₂_cons_left_iff]
    constructor
    · rintro ⟨b, first, h⟩
      obtain ⟨others, rest, h⟩ := bind_eq_ok_iff.1 h
      exact ⟨b, others, first, ih.1 rest, (pure_eq_ok_iff.1 h).symm⟩
    · rintro ⟨b, others, first, rest, rfl⟩
      exact ⟨b, first, bind_eq_ok_iff.2 ⟨others, ih.2 rest, rfl⟩⟩

/-! ## Writers -/

namespace Write

variable {s s' : WriteState}

theorem bind_eq_ok_iff {m : Write α} {f : α → Write β} {p : β × WriteState} :
    (m >>= f) s = .ok p ↔ ∃ a s', m s = .ok (a, s') ∧ f a s' = .ok p := by
  have run : (m >>= f) s = m s >>= fun q => f q.1 q.2 := rfl
  rw [run, Graphwire.bind_eq_ok_iff]
  exact ⟨fun ⟨q, h, hf⟩ => ⟨q.1, q.2, h, hf⟩, fun ⟨a, t, h, hf⟩ => ⟨(a, t), h, hf⟩⟩

theorem pure_eq_ok_iff {a : α} {p : α × WriteState} : (pure a : Write α) s = .ok p ↔ (a, s) = p :=
  Graphwire.pure_eq_ok_iff

theorem lift_eq_ok_iff {x : Except Error α} {p : α × WriteState} :
    (liftM x : Write α) s = .ok p ↔ x = .ok p.1 ∧ p.2 = s := by
  cases x with
  | ok a => exact ⟨fun h => by cases h; exact ⟨rfl, rfl⟩, fun ⟨h, hs⟩ => by cases h; rw [← hs]; rfl⟩
  | error e => exact ⟨nofun, fun ⟨h, _⟩ => by cases h⟩

theorem throw_ne_ok {e : Error} {p : α × WriteState} : (throw e : Write α) s ≠ .ok p :=
  nofun

/-- What holds of the result of a step and of the writer after it, if the step succeeds. -/
def Ensures (m : Write α) (s : WriteState) (Q : α → WriteState → Prop) : Prop :=
  ∀ a s', m s = .ok (a, s') → Q a s'

variable {Q : α → WriteState → Prop} {R : β → WriteState → Prop}

theorem Ensures.pure {a : α} (h : Q a s) : Ensures (pure a) s Q := by
  intro b s' run
  cases pure_eq_ok_iff.1 run
  exact h

theorem Ensures.throw (e : Error) : Ensures (throw e) s Q := fun _ _ run => absurd run throw_ne_ok

theorem Ensures.bind {m : Write α} {f : α → Write β} (hm : Ensures m s Q)
    (hf : ∀ a s', Q a s' → Ensures (f a) s' R) : Ensures (m >>= f) s R := by
  intro b s' run
  obtain ⟨a, t, first, then_⟩ := bind_eq_ok_iff.1 run
  exact hf a t (hm a t first) b s' then_

theorem Ensures.lift {x : Except Error α} (h : ∀ a, x = .ok a → Q a s) :
    Ensures (liftM x) s Q := by
  intro a s' run
  obtain ⟨ok, rfl⟩ := lift_eq_ok_iff.1 run
  exact h a ok

theorem Ensures.error (e : Error) : Ensures (liftM (.error e : Except Error α)) s Q :=
  fun _ _ run => absurd (lift_eq_ok_iff.1 run).1 (by simp)

theorem Ensures.mono {m : Write α} {Q' : α → WriteState → Prop} (h : Ensures m s Q)
    (weaker : ∀ a s', Q a s' → Q' a s') : Ensures m s Q' :=
  fun a s' run => weaker a s' (h a s' run)

theorem Ensures.and {m : Write α} {Q' : α → WriteState → Prop} (h : Ensures m s Q)
    (h' : Ensures m s Q') : Ensures m s fun a s' => Q a s' ∧ Q' a s' :=
  fun a s' run => ⟨h a s' run, h' a s' run⟩

end Write

/-! ## Readers -/

namespace Read

variable {s s' : ReadState}

theorem bind_apply (m : Read α) (f : α → Read β) (s : ReadState) :
    (m >>= f) s = match m s with | .ok a s' => f a s' | .error e s' => .error e s' := by
  show EStateM.bind m f s = _
  unfold EStateM.bind
  cases m s <;> rfl

theorem bind_of_ok {m : Read α} {f : α → Read β} {a : α} (h : m s = .ok a s') :
    (m >>= f) s = f a s' := by rw [bind_apply, h]

theorem bind_of_error {m : Read α} {f : α → Read β} {e : Error} (h : m s = .error e s') :
    (m >>= f) s = .error e s' := by rw [bind_apply, h]

end Read

end Graphwire
