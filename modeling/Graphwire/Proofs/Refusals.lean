import Graphwire.Proofs.TypeInfo

/-!
# Readers that may refuse

What holds of a reader on bytes that were written, whether it takes them or refuses. A reader takes
all of the bytes, and then something holds of the result and of the state, or it refuses; where it is
sure it takes them. A reader runs on bytes when it is sure. One rule for each step leads through the
readers of nodes and values.
-/

namespace Graphwire.Read

set_option autoImplicit false

variable {α β : Type} {sure : Prop} {st : ReadState} {bytes front back : List UInt8}
  {Q : α → ReadState → Prop} {R : β → ReadState → Prop}

/-- Whether a reader that stands before the bytes, and otherwise is in the given state, takes them or
refuses, and what holds of the result and of the state if it takes them. It does not refuse where it
is sure. -/
def RunsIf (sure : Prop) (m : Read α) (st : ReadState) (bytes : List UInt8)
    (Q : α → ReadState → Prop) : Prop :=
  ∀ p rest, (∃ a st' p', m { st with reader := ⟨p, bytes ++ rest⟩ } =
      .ok a { st' with reader := ⟨p', rest⟩ } ∧ Q a st') ∨
    ¬sure ∧ ∃ e s, m { st with reader := ⟨p, bytes ++ rest⟩ } = .error e s

/-- Whether a reader that stands before the bytes, and otherwise is in the given state, takes them,
and what holds of the result and of the state then, wherever the reader stands. -/
def Runs (m : Read α) (st : ReadState) (bytes : List UInt8) (Q : α → ReadState → Prop) : Prop :=
  ∀ p rest, ∃ a st' p', m { st with reader := ⟨p, bytes ++ rest⟩ } =
    .ok a { st' with reader := ⟨p', rest⟩ } ∧ Q a st'

theorem Runs.runsIf {m : Read α} (h : Runs m st bytes Q) : RunsIf sure m st bytes Q :=
  fun p rest => .inl (h p rest)

theorem Takes.runs {m : Read α} {a : α} (hm : Takes m bytes a) (h : Q a st) : Runs m st bytes Q := by
  intro p rest
  obtain ⟨p', run⟩ := hm { st with reader := ⟨p, bytes ++ rest⟩ } rest rfl
  exact ⟨a, st, p', run, h⟩

/-! ## Taking or refusing -/

namespace RunsIf

theorem runs {m : Read α} (h : RunsIf sure m st bytes Q) (holds : sure) : Runs m st bytes Q :=
  fun p rest => (h p rest).resolve_right fun refused => refused.1 holds

/-- A step that reads nothing. -/
theorem silent {m : Read α} {a : α} {st' : ReadState}
    (hm : ∀ r, m { st with reader := r } = .ok a { st' with reader := r }) (hq : Q a st') :
    RunsIf sure m st [] Q := fun p rest => .inl ⟨a, st', p, hm ⟨p, rest⟩, hq⟩

theorem pure {a : α} (h : Q a st) : RunsIf sure (pure a) st [] Q := .silent (fun _ => rfl) h

theorem throw (unsure : ¬sure) (e : Error) : RunsIf sure (throw e) st bytes Q :=
  fun _ _ => .inr ⟨unsure, e, _, rfl⟩

theorem bind {m : Read α} {f : α → Read β} (hm : RunsIf sure m st front Q)
    (hf : ∀ a st', Q a st' → RunsIf sure (f a) st' back R) :
    RunsIf sure (m >>= f) st (front ++ back) R := by
  intro p rest
  rw [List.append_assoc]
  rcases hm p (back ++ rest) with ⟨a, st', p', run, hq⟩ | ⟨unsure, e, s, run⟩
  · rw [bind_of_ok run]
    exact hf a st' hq p' rest
  · exact .inr ⟨unsure, e, s, bind_of_error run⟩

/-- Then something that reads nothing. -/
theorem «then» {m : Read α} {f : α → Read β} (hm : RunsIf sure m st bytes Q)
    (hf : ∀ a st', Q a st' → RunsIf sure (f a) st' [] R) : RunsIf sure (m >>= f) st bytes R := by
  rw [← List.append_nil bytes]
  exact hm.bind hf

theorem mono {m : Read α} {Q' : α → ReadState → Prop} (h : RunsIf sure m st bytes Q)
    (weaker : ∀ a s, Q a s → Q' a s) : RunsIf sure m st bytes Q' := by
  intro p rest
  refine (h p rest).imp_left ?_
  rintro ⟨a, st', p', run, hq⟩
  exact ⟨a, st', p', run, weaker _ _ hq⟩

/-- First the bytes of one thing, which is nothing but read. -/
theorem after {m : Read α} {f : α → Read β} {a : α} (hm : Takes m front a)
    (hf : RunsIf sure (f a) st back R) : RunsIf sure (m >>= f) st (front ++ back) R := by
  intro p rest
  obtain ⟨p', run⟩ := hm { st with reader := ⟨p, front ++ back ++ rest⟩ } (back ++ rest)
    (List.append_assoc ..)
  rw [bind_of_ok run]
  exact hf p' rest

/-- First a step that reads nothing. -/
theorem step {m : Read α} {f : α → Read β} {a : α} {st' : ReadState}
    (hm : ∀ r, m { st with reader := r } = .ok a { st' with reader := r })
    (hf : RunsIf sure (f a) st' bytes R) : RunsIf sure (m >>= f) st bytes R := by
  intro p rest
  rw [bind_of_ok (hm _)]
  exact hf p rest

/-- First a check, which may refuse. -/
theorem check {x : Except Error α} {f : α → Read β} (passes : sure → ∃ a, x = .ok a)
    (hf : ∀ a, x = .ok a → RunsIf sure (f a) st bytes R) :
    RunsIf sure (Read.check x >>= f) st bytes R := by
  cases x with
  | ok a => exact hf a rfl
  | error e =>
    refine fun p rest => .inr ⟨fun holds => ?_, e, _, rfl⟩
    obtain ⟨a, same⟩ := passes holds
    cases same

/-- Last a node is replaced. -/
theorem replaced {h : Handle} {n : Node} {b : β}
    (hq : R b { st with graph := st.graph.set h n }) :
    RunsIf sure (do setNode h n; return b) st [] R :=
  .silent (fun _ => rfl) hq

end RunsIf

/-! ## Taking -/

namespace Runs

/-- A step that reads nothing. -/
theorem silent {m : Read α} {a : α} {st' : ReadState}
    (hm : ∀ r, m { st with reader := r } = .ok a { st' with reader := r }) (hq : Q a st') :
    Runs m st [] Q := fun p rest => ⟨a, st', p, hm ⟨p, rest⟩, hq⟩

theorem pure {a : α} (h : Q a st) : Runs (pure a) st [] Q := .silent (fun _ => rfl) h

theorem bind {m : Read α} {f : α → Read β} (hm : Runs m st front Q)
    (hf : ∀ a st', Q a st' → Runs (f a) st' back R) : Runs (m >>= f) st (front ++ back) R :=
  (hm.runsIf.bind fun a st' hq => (hf a st' hq).runsIf).runs trivial

/-- Then something that reads nothing. -/
theorem «then» {m : Read α} {f : α → Read β} (hm : Runs m st bytes Q)
    (hf : ∀ a st', Q a st' → Runs (f a) st' [] R) : Runs (m >>= f) st bytes R :=
  (hm.runsIf.then fun a st' hq => (hf a st' hq).runsIf).runs trivial

theorem mono {m : Read α} {Q' : α → ReadState → Prop} (h : Runs m st bytes Q)
    (weaker : ∀ a s, Q a s → Q' a s) : Runs m st bytes Q' := (h.runsIf.mono weaker).runs trivial

/-- First the bytes of one thing, which is nothing but read. -/
theorem after {m : Read α} {f : α → Read β} {a : α} (hm : Takes m front a)
    (hf : Runs (f a) st back R) : Runs (m >>= f) st (front ++ back) R :=
  (RunsIf.after hm hf.runsIf).runs trivial

/-- First a step that reads nothing. -/
theorem step {m : Read α} {f : α → Read β} {a : α} {st' : ReadState}
    (hm : ∀ r, m { st with reader := r } = .ok a { st' with reader := r })
    (hf : Runs (f a) st' bytes R) : Runs (m >>= f) st bytes R :=
  (RunsIf.step hm hf.runsIf).runs trivial

end Runs

end Graphwire.Read
