import Graphwire.Proofs.Ceilings
import Graphwire.Proofs.Credible
import Graphwire.Proofs.Places

/-!
# Numbers that have values

A number is reserved when its marker is read, and until its value is begun nothing else is read than the
type, a length or a version. A node stands behind its number before anything in it is read, and a value
without a node is complete before anything else is. So whenever a marker is read, every number that was
reserved before has a value. That holds of all numbers of 32 bits, also after they have started over; only
then another value may have taken the number of a node that is not complete.
-/

namespace Graphwire

set_option autoImplicit false

/-! ## Slots -/

namespace Slots

/-- Whether every number of 32 bits that was reserved has a value. -/
def Full (s : Slots) : Prop := s.values.all Option.isSome 0 (2 ^ 32) = true

/-- Whether the values behind numbers stay there until numbers start over. -/
def Grows (s t : Slots) : Prop :=
  s.values.size ≤ t.values.size ∧ (t.values.size ≤ 2 ^ 32 → ∀ (number : Nat) (v : Value),
    s.values[number]? = some (some v) → t.values[number]? = some (some v))

/-- Whether every number has a value, apart from the one that was just reserved, if there is one. -/
def Open (s : Slots) (slot : Option Nat) : Prop :=
  match slot with
  | none => s.Full
  | some number => ∃ before : Slots, before.Full ∧ before.reserve = (number, s)

/-- Whether a value stands behind a number, if there is one, until numbers start over. -/
def Held (s : Slots) (slot : Option Nat) (v : Value) : Prop :=
  s.values.size ≤ 2 ^ 32 → ∀ number ∈ slot, s.values[number]? = some (some v)

variable {s t u : Slots} {number : Nat} {slot : Option Nat} {v : Value}

theorem full_iff : s.Full ↔ ∀ number o, number < 2 ^ 32 → s.values[number]? = some o → o.isSome = true := by
  rw [Full, Array.all_iff_forall]
  constructor
  · intro all number o small here
    obtain ⟨bound, rfl⟩ := Array.getElem?_eq_some_iff.1 here
    exact all number bound ⟨Nat.zero_le _, small⟩
  · intro all number bound ⟨_, small⟩
    exact all number _ small (Array.getElem?_eq_getElem bound)

theorem Grows.refl (s : Slots) : s.Grows s := ⟨Nat.le_refl _, fun _ _ _ h => h⟩

theorem Grows.trans (h : s.Grows t) (h' : t.Grows u) : s.Grows u :=
  ⟨Nat.le_trans h.1 h'.1, fun few n v here => h'.2 few n v (h.2 (Nat.le_trans h'.1 few) n v here)⟩

theorem Grows.held (h : s.Grows t) (held : s.Held slot v) : t.Held slot v := fun few number own =>
  h.2 few number v (held (Nat.le_trans h.1 few) number own)

theorem Full.value (full : s.Full) {o : Option Value} (small : number < 2 ^ 32)
    (here : s.values[number]? = some o) : ∃ v, o = some v :=
  Option.isSome_iff_exists.1 (full_iff.1 full number o small here)

theorem size_fill : (s.fill number v).values.size = s.values.size := Array.size_setIfInBounds

theorem getElem?_fill_self (bound : number < s.values.size) :
    (s.fill number v).values[number]? = some (some v) := Array.getElem?_setIfInBounds_self_of_lt bound

theorem getElem?_fill_ne {other : Nat} (ne : number ≠ other) :
    (s.fill number v).values[other]? = s.values[other]? := Array.getElem?_setIfInBounds_ne ne

/-- A value that is put behind a number leaves none without a value. -/
theorem Full.fill (full : s.Full) : (s.fill number v).Full := by
  refine full_iff.2 fun other o small here => ?_
  by_cases same : number = other
  · subst same
    have bound : number < s.values.size := by
      rw [← size_fill]
      exact (Array.getElem?_eq_some_iff.1 here).1
    rw [getElem?_fill_self bound] at here
    exact Option.some.inj here ▸ rfl
  · rw [getElem?_fill_ne same] at here
    exact full_iff.1 full other o small here

/-- Filling the number that was just reserved leaves none without a value. -/
theorem Open.fill (awaited : s.Open (some number)) (v : Value) :
    (s.fill number v).Full ∧ s.Grows (s.fill number v) ∧ (s.fill number v).Held (some number) v := by
  obtain ⟨before, full, reserved⟩ := awaited
  obtain ⟨rfl, rfl⟩ := Prod.mk.inj reserved
  have bound : before.values.size % 2 ^ 32 < (Slots.mk (before.values.push none)).values.size := by
    rw [Array.size_push]
    exact Nat.lt_succ_of_le (Nat.mod_le ..)
  refine ⟨full_iff.2 fun other o small here => ?_, ⟨Nat.le_of_eq size_fill.symm, fun few other w here => ?_⟩,
    ?_⟩
  · by_cases own : before.values.size % 2 ^ 32 = other
    · subst own
      rw [getElem?_fill_self bound] at here
      exact Option.some.inj here ▸ rfl
    · -- the number that was just reserved is its own as long as it has 32 bits
      have last : other ≠ before.values.size := fun same => own (same ▸ Nat.mod_eq_of_lt (same ▸ small))
      rw [getElem?_fill_ne own, Array.getElem?_push, if_neg last] at here
      exact full_iff.1 full other o small here
  · rw [size_fill, Array.size_push] at few
    have next : before.values.size % 2 ^ 32 = before.values.size := Nat.mod_eq_of_lt (by omega)
    rw [getElem?_fill_ne, here]
    rintro rfl
    rw [next, Array.getElem?_push_size] at here
    cases here
  · rintro _ _ ⟨⟩
    exact getElem?_fill_self bound

end Slots

/-! ## Steps -/

namespace Read

variable {α β : Type}

/-- Whether two readers do the same in a state with the given slots, and end with a credible error or with
a result and slots of which something holds. -/
def Agrees (slots : Slots) (m₁ m₂ : Read α) (Q : α → Slots → Prop) : Prop :=
  ∀ s : ReadState, s.slots = slots → m₁ s = m₂ s ∧
    match m₂ s with
    | .ok a t => Q a t.slots
    | .error e _ => e.Credible

/-- A step that leaves the slots as they are. -/
abbrev Idle (m : Read α) : Prop := ∀ slots, Agrees slots m m fun _ t => t = slots

/-- Two readers that do the same while every number has a value, keep it so, and give results of which
something holds. -/
abbrev Keeps (D : α → Prop) (m₁ m₂ : Read α) : Prop :=
  ∀ slots : Slots, slots.Full → Agrees slots m₁ m₂ fun a t => D a ∧ t.Full ∧ slots.Grows t

variable {slots : Slots} {m₁ m₂ : Read α} {f₁ f₂ : α → Read β} {Q Q' : α → Slots → Prop}
  {R : β → Slots → Prop} {D : α → Prop} {E : β → Prop}

namespace Agrees

theorem pure {a : α} (h : Q a slots) : Agrees slots (pure a) (pure a) Q := by
  rintro s rfl
  exact ⟨rfl, h⟩

theorem throw {e : Error} (h : e.Credible) : Agrees slots (throw e) (throw e) Q :=
  fun _ _ => ⟨rfl, h⟩

theorem mono (h : Agrees slots m₁ m₂ Q) (weaker : ∀ a t, Q a t → Q' a t) : Agrees slots m₁ m₂ Q' := by
  intro s hs
  obtain ⟨same, ends⟩ := h s hs
  refine ⟨same, ?_⟩
  split at ends
  · exact weaker _ _ ends
  · exact ends

theorem bind (hm : Agrees slots m₁ m₂ Q) (hf : ∀ a t, Q a t → Agrees t (f₁ a) (f₂ a) R) :
    Agrees slots (m₁ >>= f₁) (m₂ >>= f₂) R := by
  intro s hs
  obtain ⟨same, ends⟩ := hm s hs
  rw [bind_apply, bind_apply, same]
  cases run : m₂ s with
  | ok a t =>
    rw [run] at ends
    exact hf a t.slots ends t rfl
  | error e t =>
    rw [run] at ends
    exact ⟨rfl, ends⟩

/-- After a step that leaves the slots as they are. -/
theorem after {m : Read α} (hm : Idle m) (hf : ∀ a, Agrees slots (f₁ a) (f₂ a) R) :
    Agrees slots (m >>= f₁) (m >>= f₂) R :=
  (hm slots).bind fun a _ same => same ▸ hf a

end Agrees

namespace Idle

theorem pure (a : α) : Idle (pure a) := fun _ => .pure rfl

theorem throw {e : Error} (h : e.Credible) : Idle (throw e : Read α) := fun _ => .throw h

theorem bind {m : Read α} {f : α → Read β} (hm : Idle m) (hf : ∀ a, Idle (f a)) : Idle (m >>= f) :=
  fun slots => .after hm fun a => hf a slots

theorem map {m : Read α} (hm : Idle m) (f : α → β) : Idle (f <$> m) := by
  rw [map_eq_pure_bind]
  exact hm.bind fun _ => pure _

theorem decode {d : Decode α} (h : d.Credible) : Idle (decode d) := by
  rintro _ s rfl
  refine ⟨rfl, ?_⟩
  unfold Read.decode
  cases run : d s.reader with
  | ok a r => rfl
  | error e r => exact h _ e r run

theorem check {x : Except Error α} (h : CredibleCheck x) : Idle (check x) := by
  cases x with
  | ok a => exact pure a
  | error e => exact throw (h e rfl)

theorem modify {f : ReadState → ReadState} (h : ∀ s, (f s).slots = s.slots) :
    Idle (modify f) := by
  rintro _ s rfl
  exact ⟨rfl, h s⟩

theorem each {one : α → Read Unit} (items : List α) (h : ∀ a, Idle (one a)) : Idle (each one items) := by
  induction items with
  | nil => exact pure _
  | cons a items ih => exact (h a).bind fun _ => ih

/-- Steps that leave the slots as they are keep the values behind numbers. -/
theorem keeps {m : Read α} (h : Idle m) : Keeps (fun _ => True) m m := fun slots full => by
  refine (h slots).mono ?_
  rintro _ _ rfl
  exact ⟨trivial, full, .refl _⟩

end Idle

namespace Keeps

theorem pure {a : α} (h : D a) : Keeps D (pure a) (pure a) := fun _ full => .pure ⟨h, full, .refl _⟩

theorem bind (hm : Keeps D m₁ m₂) (hf : ∀ a, Keeps E (f₁ a) (f₂ a)) :
    Keeps E (m₁ >>= f₁) (m₂ >>= f₂) :=
  fun slots full => (hm slots full).bind fun a _ kept => (hf a _ kept.2.1).mono
    fun _ _ kept' => ⟨kept'.1, kept'.2.1, kept.2.2.trans kept'.2.2⟩

theorem after {m : Read α} (hm : Idle m) (hf : ∀ a, Keeps E (f₁ a) (f₂ a)) :
    Keeps E (m >>= f₁) (m >>= f₂) :=
  hm.keeps.bind hf

theorem many (h : Keeps D m₁ m₂) (n : Nat) : Keeps (fun _ => True) (many m₁ n) (many m₂ n) := by
  induction n with
  | zero => exact pure trivial
  | succ n ih => exact h.bind fun _ => ih.bind fun _ => pure trivial

theorem each {one₁ one₂ : α → Read Unit} (items : List α)
    (h : ∀ a, Keeps (fun _ => True) (one₁ a) (one₂ a)) :
    Keeps (fun _ => True) (each one₁ items) (each one₂ items) := by
  induction items with
  | nil => exact pure trivial
  | cons a items ih => exact (h a).bind fun _ => ih

end Keeps

/-! ### Steps that leave the slots as they are -/

variable {place₁ place₂ : ReadPlace}

end Read

/-! ## Frames -/

end Graphwire
