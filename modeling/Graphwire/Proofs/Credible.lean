import Graphwire.Proofs.Consumption

/-!
# What errors say of reference numbers

Only a lookup has anything to say of reference numbers: that one has no value yet, or that it was never
reserved. Decoders and checks give up for other reasons.
-/

namespace Graphwire

set_option autoImplicit false

/-- Whether an error says of no number that it has no value yet, and that it was never reserved only of
one that was not. -/
def Error.Credible : Error → Prop
  | referencePending _ => False
  | referenceUnknown number count => count ≤ number
  | _ => True

/-! ## Decoders -/

namespace Decode

variable {α β : Type}

/-- Whether a decoder fails with credible errors only. -/
def Credible (d : Decode α) : Prop := ∀ r e r', d r = .error e r' → e.Credible

namespace Credible

theorem pure (a : α) : Credible (pure a) := fun _ _ _ run => by cases run

theorem throw {e : Error} (h : e.Credible) : Credible (throw e : Decode α) := by
  intro r e' r' run
  cases run
  exact h

theorem bind {d : Decode α} {f : α → Decode β} (hd : Credible d) (hf : ∀ a, Credible (f a)) :
    Credible (d >>= f) := by
  intro r e r' run
  have run : EStateM.bind d f r = .error e r' := run
  unfold EStateM.bind at run
  cases first : d r with
  | ok a s =>
    rw [first] at run
    exact hf a s e r' run
  | error e' s =>
    rw [first] at run
    cases run
    exact hd r e r' first

/-- A refusal in front of other steps. -/
theorem refused (e : Error) (h : e.Credible) (f : α → Decode β) :
    Credible (MonadExcept.throw e >>= f) := by
  intro r e' r' run
  cases run
  exact h

theorem map {d : Decode α} (hd : Credible d) (f : α → β) : Credible (f <$> d) := by
  rw [map_eq_pure_bind]
  exact hd.bind fun _ => pure _

theorem ite {c : Prop} [Decidable c] {d d' : Decode α} (hd : Credible d) (hd' : Credible d') :
    Credible (if c then d else d') := by
  split
  · exact hd
  · exact hd'

theorem many {one : Decode α} (h : Credible one) (n : Nat) : Credible (many one n) := by
  induction n with
  | zero => exact pure _
  | succ n ih => exact h.bind fun _ => ih.bind fun _ => pure _

end Credible

theorem credible_bytes (n : Nat) : Credible (bytes n) := by
  intro r e r' run
  unfold bytes at run
  rw [bind_of_get] at run
  cases found : splitExactly n r.rest <;> rw [found] at run <;> cases run
  trivial

theorem credible_octet : Credible octet := by
  intro r e r' run
  rw [octet_eq] at run
  exact (credible_bytes 1).map _ r e r' run

theorem credible_littleEndian (width : Nat) : Credible (littleEndian width) :=
  (credible_bytes width).bind fun _ => .pure _

theorem credible_signed (width : Nat) : Credible (signed width) :=
  (credible_littleEndian width).bind fun _ => .pure _

theorem credible_groups {last : Decode Nat} (h : Credible last) (left : Nat) :
    Credible (groups last left) := by
  induction left with
  | zero => exact h
  | succ left ih => exact credible_octet.bind fun b => .ite (.pure _) (ih.bind fun _ => .pure _)

theorem credible_varuint32 : Credible varuint32 :=
  (credible_groups (.throw (e := .varuintTooLong) trivial) 5).bind fun _ => .pure _

theorem credible_varuint64 : Credible varuint64 := credible_groups credible_octet 8

theorem credible_varint32 : Credible varint32 := credible_varuint32.bind fun _ => .pure _

theorem credible_varint64 : Credible varint64 := credible_varuint64.bind fun _ => .pure _

theorem credible_tagged {small large : Decode α} (hs : Credible small) (hl : Credible large) :
    Credible (tagged small large) := by
  refine Credible.bind (fun _ _ _ run => by cases run) fun start => ?_
  refine credible_octet.bind fun head => .ite ?_ hl
  exact Credible.bind (fun _ _ _ run => by cases run) fun _ => hs

theorem credible_bool : Credible bool := credible_octet.bind fun _ => .pure _

theorem credible_integer (kind : IntKind) (layout : IntLayout) : Credible (integer kind layout) := by
  have last {d : Decode Int} (h : Credible d) :
      Credible (d >>= fun n => Pure.pure (Value.int (.wrap kind n))) :=
    h.bind fun _ => .pure _
  unfold integer
  cases layout with
  | fixed =>
    dsimp only
    split
    · exact last (credible_signed _)
    · exact last ((credible_littleEndian _).map _)
  | groups =>
    dsimp only
    split
    · split
      · exact last credible_varint64
      · exact last (credible_varuint64.map _)
    · split
      · exact last credible_varint32
      · exact last (credible_varuint32.map _)
  | tagged =>
    dsimp only
    split
    · exact last (credible_tagged ((credible_signed 4).bind fun _ => .pure _) (credible_signed 8))
    · exact last <| .map (credible_tagged ((credible_littleEndian 4).bind fun _ => .pure _)
        (credible_littleEndian 8)) _

theorem credible_float32 : Credible float32 := (credible_littleEndian 4).bind fun _ => .pure _

theorem credible_float64 : Credible float64 := (credible_littleEndian 8).bind fun _ => .pure _

theorem credible_fixedScalar (t : TypeId) : Credible (fixedScalar t) := by
  unfold fixedScalar
  split
  · exact credible_bool.map _
  · exact credible_integer _ _
  · exact credible_float32
  · exact credible_float64
  · exact .throw trivial

/-! ### Definitions -/

/-- A size stands in the bits of a header, or after it. -/
theorem Credible.sized {c : Prop} [Decidable c] {small more : Nat} {f : Nat → Decode α}
    (hf : ∀ size, Credible (f size)) :
    Credible (if c then ((more + ·) <$> varuint32) >>= f else Pure.pure small >>= f) :=
  .ite ((credible_varuint32.map _).bind hf) ((pure _).bind hf)

end Decode

open Decode (Credible)

namespace TypeDefinition

end TypeDefinition

/-- Whether a check fails with credible errors only. -/
def CredibleCheck {α : Type} (x : Except Error α) : Prop := ∀ e, x = .error e → e.Credible

namespace CredibleCheck

variable {α β : Type}

theorem ok (a : α) : CredibleCheck (.ok a) := nofun

theorem error {e : Error} (h : e.Credible) : CredibleCheck (.error e : Except Error α) := by
  rintro _ ⟨⟩
  exact h

theorem bind {x : Except Error α} {f : α → Except Error β} (hx : CredibleCheck x)
    (hf : ∀ a, CredibleCheck (f a)) : CredibleCheck (x >>= f) := by
  cases x with
  | ok a => exact hf a
  | error e => exact error (hx e rfl)

theorem map {x : Except Error α} (h : CredibleCheck x) (f : α → β) : CredibleCheck (x.map f) := by
  cases x with
  | ok a => exact ok _
  | error e => exact error (h e rfl)

theorem ite {c : Prop} [Decidable c] {x y : Except Error α} (hx : CredibleCheck x)
    (hy : CredibleCheck y) : CredibleCheck (if c then x else y) := by
  split
  · exact hx
  · exact hy

theorem getD (x : Option α) (f : α → β) {e : Error} (h : e.Credible) :
    CredibleCheck ((x.map fun a => Except.ok (f a)).getD (.error e)) := by
  cases x with
  | none => exact error h
  | some a => exact ok _

theorem limits (limits : SizeLimits) (kind : LimitKind) (size : Nat) :
    CredibleCheck (limits.check kind size) := by
  unfold SizeLimits.check
  split
  · exact ite (error trivial) (ok _)
  · exact ok _

theorem descend (env : Environment) (inner : Option α) : CredibleCheck (env.descend inner) := by
  cases inner with
  | none => exact error trivial
  | some a => exact ok _

theorem declaredType (env : Environment) (shape : Shape) : CredibleCheck (env.declaredType shape) := by
  unfold Environment.declaredType
  split
  case h_5 =>
    split
    · exact ok _
    · exact ok _
    · exact error trivial
  case h_6 => exact error trivial
  all_goals exact ok _

theorem referredType (named : Option NamedType) (name : String) (lenient : Bool) :
    CredibleCheck (Read.referredType named name lenient) := by
  unfold Read.referredType
  split
  · exact ite (error trivial) (ok _)
  · exact ok _
  · exact ite (ok _) (error trivial)

theorem checkKind (kind : TypeId) (wire : WireType) : CredibleCheck (Read.checkKind kind wire) := by
  unfold Read.checkKind
  split
  · exact ite (error trivial) (ok _)
  · exact ite (error trivial) (ok _)
  · exact ok _

theorem version (read expected : Int) (typeName : String) :
    CredibleCheck (checkVersion read expected typeName) :=
  ite (ok _) (error trivial)

theorem blockValues (fields : List Field) : ∀ bytes : List UInt8,
    CredibleCheck (Read.blockValues fields bytes) := by
  induction fields with
  | nil => exact fun _ => ok _
  | cons f rest ih =>
    intro bytes
    unfold Read.blockValues
    dsimp only
    split
    · exact (ih _).bind fun _ => ok _
    · rename_i e r refused
      exact error (Decode.credible_fixedScalar f.type _ e r refused)

theorem scalarFor (c : Constant) (t : TypeId) (v : Value) (shape : Shape) :
    CredibleCheck (c.scalarFor t v shape) :=
  ite (ok _) (error trivial)

theorem ofNumber (n : Int) (t : TypeId) : CredibleCheck (Constant.ofNumber n t) := by
  unfold Constant.ofNumber
  dsimp only
  split
  · exact ok _
  · exact ok _
  · exact getD _ _ trivial

theorem materialize (c : Constant) (shape : Shape) : CredibleCheck (c.materialize shape) := by
  cases c with
  | bool b => exact scalarFor _ .bool (.bool b) shape
  | int n =>
    cases shape with
    | scalar t => exact (ofNumber n t).map _
    | dynamic => exact getD _ _ trivial
    | _ => exact error trivial
  | uint n =>
    cases shape with
    | scalar t => exact (ofNumber n t).map _
    | dynamic => exact getD _ _ trivial
    | _ => exact error trivial
  | float bits =>
    cases shape with
    | scalar t => exact ite (ok _) (scalarFor _ .float64 (.float64 bits) _)
    | _ => exact scalarFor _ .float64 (.float64 bits) _
  | string s => exact scalarFor _ .string (.string s) shape
  | binary bytes => exact scalarFor _ .binary (.binary bytes) shape
  | date day => exact scalarFor _ .date (.date day) shape
  | timestamp t => exact scalarFor _ .timestamp (.timestamp t) shape
  | duration d => exact scalarFor _ .duration (.duration d) shape
  | _ =>
    cases shape <;> first | exact ok _ | exact error trivial

theorem missingValue (f : Field) : CredibleCheck f.missingValue := by
  unfold Field.missingValue
  split
  · exact (materialize _ _).map _
  · exact ok _
  · split
    · exact ok _
    · exact ok _

end CredibleCheck

end Graphwire
