import Graphwire.Proofs.Encodings

/-!
# Scalars that come back

What a scalar value is once it was written as a value of some type and read again. Instants are cut
to microseconds, integers and binary32 numbers become values of the type that they were written as,
and every other value comes back as it was.
-/

namespace Graphwire

set_option autoImplicit false

/-! ## Calendar -/

namespace Calendar

theorem tdiv_mul_cases (n : Int) {m : Int} (positive : 0 < m) :
    0 ≤ n ∧ 0 ≤ n.tdiv m * m ∧ n.tdiv m * m ≤ n ∨ n ≤ 0 ∧ n ≤ n.tdiv m * m ∧ n.tdiv m * m ≤ 0 := by
  have split := Int.tdiv_mul_add_tmod n m
  rcases Int.le_total 0 n with sign | sign
  · have rest := Int.tmod_nonneg m sign
    have quotient := Int.tdiv_nonneg sign (Int.le_of_lt positive)
    have product := Int.mul_nonneg quotient (Int.le_of_lt positive)
    omega
  · have rest := Int.tmod_nonneg m (Int.neg_nonneg_of_nonpos sign)
    rw [Int.neg_tmod] at rest
    have quotient := Int.tdiv_nonneg (Int.neg_nonneg_of_nonpos sign) (Int.le_of_lt positive)
    have product := Int.mul_nonneg quotient (Int.le_of_lt positive)
    rw [Int.neg_tdiv, Int.neg_mul] at product
    omega

/-- The instant without what goes beyond whole microseconds, cut toward 1970. -/
def Instant.cut (t : Instant) : Instant :=
  ⟨t.micros * 1000, by
    have range := t.inRange
    have before : minDay * nanosPerDay ≤ 0 := by decide
    have after : 0 < (maxDay + 1) * nanosPerDay := by decide
    have cases := tdiv_mul_cases t.nanos (m := 1000) (by decide)
    unfold Instant.micros
    omega⟩

theorem Day.ofCount?_count (d : Day) : Day.ofCount? d.count = some d := by
  simp [Day.ofCount?, d.inRange]

theorem Instant.ofNanos?_micros (t : Instant) : Instant.ofNanos? (t.micros * 1000) = some t.cut := by
  have range : minDay * nanosPerDay ≤ t.micros * 1000 ∧
      t.micros * 1000 < (maxDay + 1) * nanosPerDay := t.cut.inRange
  rw [Instant.ofNanos?, dif_pos range]
  rfl

end Calendar

namespace Decode

open Calendar

theorem yields_day {d : Day} {bytes : List UInt8} (h : Encode.day d = .ok bytes) :
    Yields day bytes (.date d) := by
  unfold Encode.day at h
  split at h
  · rename_i range
    cases h
    have low : IntKind.int32.minValue = -2 ^ 31 := by decide
    have high : IntKind.int32.maxValue = 2 ^ 31 - 1 := by decide
    refine (yields_signed (by omega) (by omega)).then ?_
    rw [Day.ofCount?_count]
    exact .pure _
  · cases h

theorem yields_instant {t : Instant} {bytes : List UInt8} (h : Encode.instant t = .ok bytes) :
    Yields instant bytes (.timestamp t.cut) := by
  unfold Encode.instant at h
  split at h
  · rename_i range
    cases h
    have low : IntKind.int64.minValue = -2 ^ 63 := by decide
    have high : IntKind.int64.maxValue = 2 ^ 63 - 1 := by decide
    refine (yields_signed (by omega) (by omega)).then ?_
    rw [Instant.ofNanos?_micros]
    exact .pure _
  · cases h

theorem natAbs_subsecond (d : Span) : d.subsecond.natAbs < 1000000000 := by
  unfold Span.subsecond
  rw [Int.natAbs_tmod]
  exact Nat.mod_lt _ (by decide)

/-- The whole seconds of a span, in nanoseconds, are a span. -/
theorem seconds_range (d : Span) :
    -maxSpan ≤ d.seconds * nanosPerSecond ∧ d.seconds * nanosPerSecond ≤ maxSpan := by
  have range := d.inRange
  have whole := tdiv_mul_cases d.nanos (m := nanosPerSecond) (by decide)
  have positive : 0 ≤ maxSpan := by decide
  unfold Span.seconds
  omega

theorem spanOfParts_parts (d : Span) : spanOfParts d.seconds d.subsecond = .ok d := by
  have small := natAbs_subsecond d
  have sum : d.seconds * nanosPerSecond + d.subsecond = d.nanos := Int.tdiv_mul_add_tmod ..
  unfold spanOfParts
  rw [if_neg (by omega)]
  simp only [Span.ofNanos?, sum]
  rw [dif_pos (seconds_range d), dif_pos d.inRange]

theorem yields_span (d : Span) : Yields span (Encode.span d) (.duration d) := by
  have small := natAbs_subsecond d
  have range := seconds_range d
  have longest : maxSpan = (2 ^ 63 - 1) * 1000000 := rfl
  have second : nanosPerSecond = 1000000000 := rfl
  rw [longest, second] at range
  refine (yields_varint64 (by omega) (by omega)).bind ?_
  refine (yields_signed (by omega) (by omega)).then ?_
  rw [spanOfParts_parts]
  exact .pure _

end Decode

/-! ## Sizes -/

namespace SizeLimits

variable {limits : SizeLimits} {kind : LimitKind} {size : Nat}

/-- Whether a size is not above its ceiling. -/
def Admits (limits : SizeLimits) (kind : LimitKind) (size : Nat) : Prop :=
  ∀ ceiling, limits.ceiling kind = some ceiling → size ≤ ceiling

theorem Admits.mono {m n : Nat} (h : limits.Admits kind n) (le : m ≤ n) : limits.Admits kind m :=
  fun ceiling found => Nat.le_trans le (h ceiling found)

theorem admits_zero (limits : SizeLimits) (kind : LimitKind) : limits.Admits kind 0 :=
  fun _ _ => Nat.zero_le _

theorem admits_unlimited (kind : LimitKind) (size : Nat) : unlimited.Admits kind size := by
  intro ceiling found
  cases kind <;> cases found

theorem admits_of_check {u : Unit} (h : limits.check kind size = .ok u) :
    limits.Admits kind size := by
  intro ceiling found
  unfold check at h
  rw [found] at h
  dsimp only at h
  split at h
  · cases h
  · omega

theorem check_of_admits (h : limits.Admits kind size) : limits.check kind size = .ok () := by
  unfold check
  cases found : limits.ceiling kind with
  | none => rfl
  | some ceiling => exact if_neg (Nat.not_lt.2 (h ceiling found))

end SizeLimits

/-! ## Scalars -/

namespace Read

variable {α β : Type}

/-- Whether a reader takes the bytes, and nothing after them, for the value, and does nothing else. -/
def Takes (m : Read α) (bytes : List UInt8) (a : α) : Prop :=
  ∀ (st : ReadState) rest, st.reader.rest = bytes ++ rest →
    ∃ p, m st = .ok a { st with reader := ⟨p, rest⟩ }

theorem Takes.decode {d : Decode α} {bytes : List UInt8} {a : α} (h : Decode.Yields d bytes a) :
    Takes (decode d) bytes a := by
  intro st rest hr
  obtain ⟨p, run⟩ := h st.reader.position rest
  refine ⟨p, ?_⟩
  simp only [Read.decode]
  rw [show st.reader = ⟨st.reader.position, bytes ++ rest⟩ from hr ▸ rfl, run]

theorem Takes.pure (a : α) : Takes (pure a) [] a := by
  intro st rest hr
  exact ⟨st.reader.position, by rw [show rest = st.reader.rest from hr.symm]; rfl⟩

theorem Takes.bind {m : Read α} {f : α → Read β} {front back : List UInt8} {a : α} {b : β}
    (hm : Takes m front a) (hf : Takes (f a) back b) : Takes (m >>= f) (front ++ back) b := by
  intro st rest hr
  rw [List.append_assoc] at hr
  obtain ⟨p, run⟩ := hm st (back ++ rest) hr
  obtain ⟨p', next⟩ := hf { st with reader := ⟨p, back ++ rest⟩ } rest rfl
  exact ⟨p', by rw [bind_of_ok run, next]⟩

/-- One more step that reads nothing. -/
theorem Takes.then {m : Read α} {f : α → Read β} {bytes : List UInt8} {a : α} {b : β}
    (hm : Takes m bytes a) (hf : Takes (f a) [] b) : Takes (m >>= f) bytes b := by
  rw [← List.append_nil bytes]
  exact hm.bind hf

theorem Takes.map {m : Read α} {bytes : List UInt8} {a : α} (hm : Takes m bytes a) (f : α → β) :
    Takes (f <$> m) bytes (f a) := by
  rw [map_eq_pure_bind]
  exact hm.then (.pure _)

/-- A step before that reads nothing. -/
theorem Takes.after {m : Read α} {f : α → Read β} {bytes : List UInt8} {a : α} {b : β}
    (hm : Takes m [] a) (hf : Takes (f a) bytes b) : Takes (m >>= f) bytes b := hm.bind hf

theorem Takes.check {x : Except Error α} {a : α} (h : x = .ok a) : Takes (check x) [] a := by
  rw [h]
  exact .pure a

end Read

/-- Whether the length of a text can be written and is admitted. A text is measured in bytes. -/
structure SizeLimits.AdmitsText (limits : SizeLimits) (s : String) : Prop where
  short : (Utf8.encode s).length < 2 ^ 62
  admitted : limits.Admits .string (Utf8.encode s).length

theorem SizeLimits.admitsText_unlimited {s : String} (short : (Utf8.encode s).length < 2 ^ 62) :
    unlimited.AdmitsText s := ⟨short, admits_unlimited _ _⟩

theorem Read.takes_text {limits : SizeLimits} {s : String} (h : limits.AdmitsText s) :
    Takes (text limits) (Encode.text s) s :=
  (Takes.decode (Decode.yields_textHeader h.short)).bind
    ((Takes.check (SizeLimits.check_of_admits h.admitted)).after
      (.decode (Decode.yields_textPayload s)))

/-- Whether the sizes and numbers within a scalar value can be written. -/
def Value.Short : Value → Prop
  | .string s => (Utf8.encode s).length < 2 ^ 62
  | .binary bytes => bytes.length < 2 ^ 32
  | .enum typeName ordinal => (Utf8.encode typeName).length < 2 ^ 62 ∧ ordinal < 2 ^ 32
  | _ => True

/-- Whether a scalar value is one that its bytes tell exactly: instants in whole microseconds, and
binaries with a length of 32 bits. -/
def Value.Exact : Value → Prop
  | .binary bytes => bytes.length < 2 ^ 32
  | .timestamp instant => instant.cut = instant
  | _ => True

/-- Whether the sizes within a scalar value are admitted. -/
def Value.Admitted (limits : SizeLimits) : Value → Prop
  | .string s => limits.Admits .string (Utf8.encode s).length
  | .binary bytes => limits.Admits .binary bytes.length
  | _ => True

theorem Value.admitted_unlimited (v : Value) : v.Admitted .unlimited := by
  cases v <;> first | trivial | exact SizeLimits.admits_unlimited _ _

/-- What a scalar value is after it was written as a value of a type and read again. -/
def Value.restoredAs (t : TypeId) : Value → Value
  | .int n => (Value.ofInt? t n.val).getD (.int n)
  | .float32 bits => if t.builtin? = some .float64 then .float64 (widen bits) else .float32 bits
  | .timestamp instant => .timestamp instant.cut
  | v => v

namespace Read

variable {limits : SizeLimits} {g : Graph} {t : TypeId} {b : Builtin}

/-- A number of a type is read back as it was written. -/
theorem takes_number {u : Value} (ht : t.builtin? = some b) (hu : b.Holds u) {bytes : List UInt8}
    (h : Encode.scalar t u = .ok bytes) : Takes (scalar limits t) bytes u := by
  cases hu with
  | bool b =>
    simp only [Encode.scalar, ht] at h
    cases h
    simp only [scalar, ht]
    exact .decode ((Decode.yields_bool b).map Value.bool)
  | int n layout =>
    simp only [Encode.scalar, ht, if_true] at h
    cases h
    simp only [scalar, ht]
    exact .decode (Decode.yields_integer n layout)
  | float32 bits =>
    simp only [Encode.scalar, ht] at h
    cases h
    simp only [scalar, ht]
    exact .decode (Decode.yields_float32 bits)
  | float64 bits =>
    simp only [Encode.scalar, ht] at h
    cases h
    simp only [scalar, ht]
    exact .decode (Decode.yields_float64 bits)
  | _ => simp only [Encode.scalar, ht] at h; cases h

theorem takes_binary (ht : t.builtin? = some .binary) {bytes : List UInt8}
    (short : bytes.length < 2 ^ 32) (admitted : limits.Admits .binary bytes.length) :
    Takes (scalar limits t) (Encode.binary bytes) (.binary bytes) := by
  simp only [scalar, ht]
  refine (Takes.decode (Decode.yields_varuint32 short)).bind ?_
  refine (Takes.check (SizeLimits.check_of_admits admitted)).after ?_
  exact (Takes.decode (Decode.yields_bytes bytes)).then (.pure _)

/-- The value that a number is coerced to is the one that comes back. -/
theorem coerce_eq_restoredAs {v u : Value} (h : g.coerce t v = .ok u) : u = v.restoredAs t := by
  have integer {n : Integer}
      (h : ((Value.ofInt? t n.val).map Except.ok).getD (.error (Error.integerOverflow n.val t)) =
        .ok u) : u = (Value.int n).restoredAs t := by
    cases hn : Value.ofInt? t n.val with
    | none => rw [hn] at h; cases h
    | some _ =>
      rw [hn] at h
      cases h
      simp [Value.restoredAs, hn]
  unfold Graph.coerce at h
  split at h
  · cases h
    rfl
  · cases h
  · rename_i ht
    cases h
    simp [Value.restoredAs, ht]
  · cases h
  · cases h
    rfl
  · rename_i ht
    cases h
    simp [Value.restoredAs, ht]
  · cases h
  · rename_i v _ _ _ _ _ _ _ _ _
    cases v with
    | int n => exact integer h
    | _ => cases h

theorem takes_coerced {v : Value} {bytes : List UInt8}
    (h : (g.coerce t v >>= Encode.scalar t) = .ok bytes) :
    Takes (scalar limits t) bytes (v.restoredAs t) := by
  obtain ⟨u, hu, h⟩ := bind_eq_ok_iff.1 h
  cases ht : t.builtin? with
  | none => simp only [Encode.scalar, ht] at h; cases h
  | some b => exact coerce_eq_restoredAs hu ▸ takes_number ht (holds_of_coerce ht hu) h

/-- A scalar value of which the bytes were written is read back from them. -/
theorem takes_scalar {v : Value} {bytes : List UInt8} (h : g.encodeScalar t v = .ok bytes)
    (short : v.Short) (admitted : v.Admitted limits) :
    Takes (scalar limits t) bytes (v.restoredAs t) := by
  unfold Graph.encodeScalar at h
  split at h
  · rename_i ht
    cases h
    simp only [scalar, ht]
    exact (takes_text ⟨short, admitted⟩).map _
  · rename_i ht
    cases h
    exact takes_binary ht short admitted
  · rename_i ht
    simp only [scalar, ht]
    exact .decode (Decode.yields_day h)
  · rename_i ht
    simp only [scalar, ht]
    exact .decode (Decode.yields_instant h)
  · rename_i ht
    cases h
    simp only [scalar, ht]
    exact .decode (Decode.yields_span _)
  · cases h
  · cases h
  · cases h
  · cases h
  · cases h
  · exact takes_coerced h

end Read

end Graphwire
