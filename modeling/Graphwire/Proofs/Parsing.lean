import Graphwire.Proofs.Consumption
import Graphwire.Proofs.Encodings
import Mathlib.Algebra.BigOperators.Ring.List
import Mathlib.Algebra.Ring.Nat

/-!
# What decoders accept

A decoder parses a relation between bytes and values when it gives a value exactly where the bytes
ahead are related to it, and stops right behind them. For numbers in groups of seven bits the relation
is the positional one: all groups but the last go on, and the number is their sum, each group counting
128 times as much as the one before. Of 64 bits nothing is lost. Of 32 bits the reader takes five groups
and drops what goes beyond, which is something exactly when the fifth group is 16 or more.
-/

namespace Graphwire

set_option autoImplicit false

namespace Decode

variable {α β : Type}

/-- Whether a decoder gives a value exactly where the bytes ahead are related to it, and stops right
behind them. -/
def Parses (d : Decode α) (P : List UInt8 → α → Prop) : Prop :=
  ∀ r a r', d r = .ok a r' ↔
    ∃ bytes, r.rest = bytes ++ r'.rest ∧ r'.position = r.position + bytes.length ∧ P bytes a

namespace Parses

variable {d : Decode α} {P : List UInt8 → α → Prop}

theorem congr {Q : List UInt8 → α → Prop} (h : Parses d P) (same : ∀ bytes a, P bytes a ↔ Q bytes a) :
    Parses d Q := by
  intro r a r'
  rw [h r a r']
  simp only [same]

theorem pure (a : α) : Parses (pure a) fun bytes b => bytes = [] ∧ b = a := by
  rintro ⟨p, input⟩ b ⟨q, rest⟩
  constructor
  · intro run
    cases run
    exact ⟨[], rfl, rfl, rfl, rfl⟩
  · rintro ⟨bytes, front, moved, rfl, rfl⟩
    simp only [List.nil_append, List.length_nil, Nat.add_zero] at front moved
    rw [front, moved]
    rfl

theorem throw (e : Error) : Parses (throw e : Decode α) fun _ _ => False := by
  intro r a r'
  constructor
  · intro run
    cases run
  · rintro ⟨bytes, -, -, never⟩
    exact never.elim

theorem bind {f : α → Decode β} {Q : α → List UInt8 → β → Prop} (hd : Parses d P)
    (hf : ∀ a, Parses (f a) (Q a)) :
    Parses (d >>= f) fun bytes b => ∃ front a back, bytes = front ++ back ∧ P front a ∧ Q a back b := by
  intro r b r'
  constructor
  · intro run
    obtain ⟨a, s, first, then_⟩ := ok_of_bind run
    obtain ⟨front, before, moved, hP⟩ := (hd r a s).1 first
    obtain ⟨back, after, moved', hQ⟩ := (hf a s b r').1 then_
    refine ⟨front ++ back, ?_, ?_, front, a, back, rfl, hP, hQ⟩
    · rw [before, after, List.append_assoc]
    · rw [moved', moved, List.length_append]
      omega
  · rintro ⟨_, split, moved, front, a, back, rfl, hP, hQ⟩
    rw [List.append_assoc] at split
    rw [List.length_append] at moved
    have first : d r = .ok a ⟨r.position + front.length, back ++ r'.rest⟩ :=
      (hd r a _).2 ⟨front, split, rfl, hP⟩
    rw [bind_apply, first]
    exact (hf a _ b r').2 ⟨back, rfl, by rw [moved, Nat.add_assoc], hQ⟩

/-- One more step that reads nothing. -/
theorem map (hd : Parses d P) (f : α → β) :
    Parses (f <$> d) fun bytes b => ∃ a, P bytes a ∧ b = f a := by
  rw [map_eq_pure_bind]
  refine (hd.bind fun a => pure (f a)).congr fun bytes b => ?_
  constructor
  · rintro ⟨front, a, back, rfl, hP, rfl, rfl⟩
    exact ⟨a, by rwa [List.append_nil], rfl⟩
  · rintro ⟨a, hP, rfl⟩
    exact ⟨bytes, a, [], (List.append_nil _).symm, hP, rfl, rfl⟩

end Parses

theorem parses_bytes (n : Nat) :
    Parses (bytes n) fun bytes octets => octets = bytes ∧ bytes.length = n := by
  rintro ⟨p, input⟩ octets ⟨q, rest⟩
  constructor
  · intro run
    unfold bytes at run
    rw [bind_of_get] at run
    cases found : splitExactly n input with
    | none =>
      rw [found] at run
      cases run
    | some parts =>
      obtain ⟨front, back⟩ := parts
      rw [found] at run
      cases run
      obtain ⟨size, split⟩ := splitExactly_eq_some_iff.1 found
      exact ⟨octets, split, by rw [size], rfl, size⟩
  · rintro ⟨_, front, moved, rfl, rfl⟩
    simp only at front moved
    rw [front, moved]
    exact bytes_append p octets rest

theorem parses_octet : Parses octet fun bytes n => ∃ b, bytes = [b] ∧ n = b.toNat := by
  rintro ⟨p, input⟩ n ⟨q, rest⟩
  constructor
  · intro run
    cases input with
    | nil => cases run
    | cons b input =>
      cases run
      exact ⟨[b], rfl, rfl, b, rfl, rfl⟩
  · rintro ⟨_, front, moved, b, rfl, rfl⟩
    simp only [List.singleton_append, List.length_singleton] at front moved
    rw [front, moved]
    rfl

end Decode

/-! ## Groups of seven bits -/

namespace Groups

/-- What groups stand for: seven bits of each, the lowest first. A byte after `most` of them counts in
full. -/
def value (most : Nat) (bytes : List UInt8) : Nat :=
  (bytes.mapIdx fun i b => (if i < most then b.toNat % 2 ^ 7 else b.toNat) * 2 ^ (7 * i)).sum

/-- Whether bytes are the groups of one number, at most `most` of them: each but the last goes on, and
the last one does not. If `full`, a byte after `most` groups that go on is the last one, whatever it
is. -/
inductive Delimited (full : Bool) : Nat → List UInt8 → Prop
  | closing {b : UInt8} : full = true → Delimited full 0 [b]
  | last {most : Nat} {b : UInt8} : b.toNat < 128 → Delimited full (most + 1) [b]
  | more {most : Nat} {b : UInt8} {bytes : List UInt8} :
      128 ≤ b.toNat → Delimited full most bytes → Delimited full (most + 1) (b :: bytes)

theorem value_nil (most : Nat) : value most [] = 0 := rfl

theorem value_closing (b : UInt8) : value 0 [b] = b.toNat := by simp [value]

theorem value_cons (most : Nat) (b : UInt8) (bytes : List UInt8) :
    value (most + 1) (b :: bytes) = b.toNat % 128 + 128 * value most bytes := by
  simp only [value, List.mapIdx_cons, List.sum_cons]
  congr 1
  · simp
  · rw [List.mapIdx_eq_zipIdx_map, List.mapIdx_eq_zipIdx_map, ← List.sum_map_mul_left]
    congr 1
    refine List.map_congr_left fun e _ => ?_
    have step : 2 ^ (7 * (e.2 + 1)) = 128 * 2 ^ (7 * e.2) := by
      rw [Nat.mul_add, Nat.pow_add, Nat.mul_comm]
    simp only [Nat.add_lt_add_iff_right]
    rw [step, Nat.mul_left_comm]

theorem value_last {b : UInt8} (small : b.toNat < 128) (most : Nat) :
    value (most + 1) [b] = b.toNat := by
  rw [value_cons, value_nil, Nat.mod_eq_of_lt small]
  rfl

variable {full : Bool} {most : Nat} {bytes : List UInt8}

theorem Delimited.value_lt (h : Delimited full most bytes) : value most bytes < 256 * 128 ^ most := by
  induction h with
  | closing =>
    rw [value_closing]
    exact UInt8.toNat_lt _
  | @last most b small =>
    have : 0 < 128 ^ most := Nat.pow_pos (by decide)
    rw [value_last small, Nat.pow_succ]
    omega
  | more _ _ ih =>
    rw [value_cons, Nat.pow_succ]
    omega

/-- Groups of which none counts in full reach the upper three bits of the last place only if there is a
group for it with one of these bits. -/
theorem Delimited.value_lt_iff (h : Delimited false (most + 1) bytes) :
    value (most + 1) bytes < 16 * 128 ^ most ↔ ∀ b, bytes[most]? = some b → b.toNat < 16 := by
  induction most generalizing bytes with
  | zero =>
    cases h with
    | last small => simp [value_last small]
    | more _ h =>
      obtain ⟨never⟩ := h
      cases never
  | succ most ih =>
    have room : 0 < 128 ^ most := Nat.pow_pos (by decide)
    cases h with
    | last small =>
      rw [value_last small, Nat.pow_succ]
      constructor
      · simp
      · intro _
        omega
    | more _ h =>
      rw [value_cons, Nat.pow_succ, List.getElem?_cons_succ, ← ih h]
      omega

end Groups

namespace Decode

/-- A reader of groups gives their positional value, where the reader of what comes after the last
group gives a byte in full, or refuses. -/
theorem parses_groups {last : Decode Nat} {full : Bool}
    (h : Parses last fun bytes n => full = true ∧ ∃ b, bytes = [b] ∧ n = b.toNat) (most : Nat) :
    Parses (groups last most) fun bytes n =>
      Groups.Delimited full most bytes ∧ n = Groups.value most bytes := by
  induction most with
  | zero =>
    refine h.congr fun bytes n => ?_
    constructor
    · rintro ⟨isFull, b, rfl, rfl⟩
      exact ⟨.closing isFull, (Groups.value_closing b).symm⟩
    · rintro ⟨⟨isFull⟩, rfl⟩
      exact ⟨isFull, _, rfl, Groups.value_closing _⟩
  | succ most ih =>
    have rest (b : Nat) :
        Parses (if b < 128 then pure b else do return b - 128 + 128 * (← groups last most))
          fun bytes n => b < 128 ∧ bytes = [] ∧ n = b ∨
            128 ≤ b ∧ Groups.Delimited full most bytes ∧
              n = b - 128 + 128 * Groups.value most bytes := by
      split
      · rename_i small
        refine (Parses.pure b).congr fun bytes n => ?_
        have : ¬128 ≤ b := by omega
        tauto
      · rename_i large
        have same : (do return b - 128 + 128 * (← groups last most) : Decode Nat) =
            (b - 128 + 128 * ·) <$> groups last most := by simp
        rw [same]
        refine (ih.map _).congr fun bytes n => ?_
        constructor
        · rintro ⟨_, ⟨delimited, rfl⟩, rfl⟩
          exact .inr ⟨by omega, delimited, rfl⟩
        · rintro (⟨small, -⟩ | ⟨-, delimited, rfl⟩)
          · exact absurd small large
          · exact ⟨_, ⟨delimited, rfl⟩, rfl⟩
    refine (parses_octet.bind rest).congr fun bytes n => ?_
    constructor
    · rintro ⟨_, _, back, rfl, ⟨b, rfl, rfl⟩, ⟨small, rfl, rfl⟩ | ⟨large, delimited, rfl⟩⟩
      · exact ⟨.last small, (Groups.value_last small most).symm⟩
      · refine ⟨.more large delimited, ?_⟩
        have := UInt8.toNat_lt b
        rw [List.singleton_append, Groups.value_cons]
        omega
    · rintro ⟨delimited, rfl⟩
      cases delimited with
      | @last _ b small =>
        exact ⟨[b], b.toNat, [], rfl, ⟨b, rfl, rfl⟩, .inl ⟨small, rfl, Groups.value_last small most⟩⟩
      | @more _ b back large delimited =>
        refine ⟨[b], b.toNat, back, rfl, ⟨b, rfl, rfl⟩, .inr ⟨large, delimited, ?_⟩⟩
        have := UInt8.toNat_lt b
        rw [Groups.value_cons]
        omega

theorem parses_varuint64 :
    Parses varuint64 fun bytes n => Groups.Delimited true 8 bytes ∧ n = Groups.value 8 bytes := by
  refine parses_groups (parses_octet.congr fun bytes n => ?_) 8
  simp

theorem parses_varuint32 :
    Parses varuint32 fun bytes n =>
      Groups.Delimited false 5 bytes ∧ n = Groups.value 5 bytes % 2 ^ 32 := by
  have refused : Parses (throw .varuintTooLong : Decode Nat)
      fun bytes n => false = true ∧ ∃ b, bytes = [b] ∧ n = b.toNat :=
    (Parses.throw _).congr (by simp)
  have five := parses_groups refused 5
  have same : varuint32 = (· % 2 ^ 32) <$> groups (throw .varuintTooLong) 5 := by simp [varuint32]
  rw [same]
  refine (five.map _).congr fun bytes n => ?_
  constructor
  · rintro ⟨_, ⟨delimited, rfl⟩, rfl⟩
    exact ⟨delimited, rfl⟩
  · rintro ⟨delimited, rfl⟩
    exact ⟨_, ⟨delimited, rfl⟩, rfl⟩

/-- Numbers in groups are read by position. Of 64 bits nothing is lost; of five groups for 32 bits the
reader drops the upper three bits of the last one, so that the number is another one exactly if one of
these is set. -/
theorem varuints_by_groups (r r' : Reader) (n : Nat) :
    (varuint64 r = .ok n r' ↔
      ∃ bytes, r.rest = bytes ++ r'.rest ∧ r'.position = r.position + bytes.length ∧
        Groups.Delimited true 8 bytes ∧ n = Groups.value 8 bytes) ∧
    (∀ bytes, Groups.Delimited true 8 bytes → Groups.value 8 bytes < 2 ^ 64) ∧
    (varuint32 r = .ok n r' ↔
      ∃ bytes, r.rest = bytes ++ r'.rest ∧ r'.position = r.position + bytes.length ∧
        Groups.Delimited false 5 bytes ∧ n = Groups.value 5 bytes % 2 ^ 32) ∧
    ∀ bytes, Groups.Delimited false 5 bytes →
      (Groups.value 5 bytes < 2 ^ 32 ↔ ∀ b, bytes[4]? = some b → b.toNat < 16) :=
  ⟨parses_varuint64 r n r', fun _ delimited => delimited.value_lt, parses_varuint32 r n r',
    fun _ delimited => delimited.value_lt_iff⟩

/-- Five groups with all bits set are read as the greatest number of 32 bits, although they stand for
one of 35 bits. -/
theorem varuint32_drops_bits :
    let bytes : List UInt8 := [0xFF, 0xFF, 0xFF, 0xFF, 0x7F]
    varuint32 ⟨0, bytes⟩ = .ok (2 ^ 32 - 1) ⟨5, []⟩ ∧ Groups.Delimited false 5 bytes ∧
      Groups.value 5 bytes = 2 ^ 35 - 1 ∧
      (Groups.value 5 bytes < 2 ^ 32 ↔ ∀ b, bytes[4]? = some b → b.toNat < 16) := by
  have delimited : Groups.Delimited false 5 [0xFF, 0xFF, 0xFF, 0xFF, 0x7F] :=
    .more (by decide) (.more (by decide) (.more (by decide) (.more (by decide) (.last (by decide)))))
  obtain ⟨-, -, read, fits⟩ :=
    varuints_by_groups ⟨0, [0xFF, 0xFF, 0xFF, 0xFF, 0x7F]⟩ ⟨5, []⟩ (2 ^ 32 - 1)
  exact ⟨read.2 ⟨_, rfl, rfl, delimited, rfl⟩, delimited, rfl, fits _ delimited⟩

end Decode

end Graphwire
