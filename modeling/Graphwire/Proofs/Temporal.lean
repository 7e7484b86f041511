import Graphwire.Proofs.DefinitionRoundTrip
import Graphwire.Proofs.Scalars

/-!
# Days, instants and spans

Every day, every instant and every span can be written. Days and spans are read back as they were,
instants without what goes beyond whole microseconds toward 1970. What is read need not have been
written: any count of days in 32 bits, of microseconds in 64 bits, and any pair of seconds and
nanoseconds is read as the day, the instant or the span that it stands for, or refused as invalid if
there is none.
-/

namespace Graphwire

set_option autoImplicit false

open Calendar (Day Instant Span minDay maxDay maxSpan nanosPerDay nanosPerSecond)

namespace Decode

variable {α β γ : Type}

/-- Whether a decoder gives the value wherever the bytes stand, and stops right behind them. -/
def Finds (d : Decode α) (bytes : List UInt8) (a : α) : Prop :=
  ∀ p rest, d ⟨p, bytes ++ rest⟩ = .ok a ⟨p + bytes.length, rest⟩

/-- Whether a decoder refuses the bytes as invalid wherever they stand. -/
def Refuses (d : Decode α) (bytes : List UInt8) : Prop :=
  ∀ p rest, ∃ e r, d ⟨p, bytes ++ rest⟩ = .error e r ∧ e.kind = .invalidData

/-- Whether a decoder takes the bytes for the one thing that is meant, and refuses them if there is
none. -/
def Settles (d : Decode α) (bytes : List UInt8) (value : γ → α) (Meant : γ → Prop) : Prop :=
  (∃ x, Meant x ∧ Finds d bytes (value x)) ∨ (∀ x, ¬Meant x) ∧ Refuses d bytes

namespace Settles

variable {value : γ → β} {Meant : γ → Prop}

theorem pure {x : γ} (meant : Meant x) : Settles (pure (value x)) [] value Meant :=
  .inl ⟨x, meant, fun _ _ => rfl⟩

theorem throw {e : Error} (none : ∀ x, ¬Meant x) (invalid : e.kind = .invalidData) :
    Settles (throw e) [] value Meant :=
  .inr ⟨none, fun p rest => ⟨e, ⟨p, rest⟩, rfl, invalid⟩⟩

/-- A number before that is always read. -/
theorem after {d : Decode α} {f : α → Decode β} {front back : List UInt8} {a : α}
    (hd : Yields d front a) (counts : Counts d) (hf : Settles (f a) back value Meant) :
    Settles (d >>= f) (front ++ back) value Meant := by
  have run (p : Nat) (rest : List UInt8) : (d >>= f) ⟨p, front ++ back ++ rest⟩ =
      f a ⟨p + front.length, back ++ rest⟩ := by
    rw [bind_apply, List.append_assoc, hd.stops counts]
  rcases hf with ⟨x, meant, found⟩ | ⟨none, refused⟩
  · refine .inl ⟨x, meant, fun p rest => ?_⟩
    rw [run, found, List.length_append, Nat.add_assoc]
  · refine .inr ⟨none, fun p rest => ?_⟩
    rw [run]
    exact refused _ _

/-- A number that is read last. -/
theorem last {d : Decode α} {f : α → Decode β} {bytes : List UInt8} {a : α} (hd : Yields d bytes a)
    (counts : Counts d) (hf : Settles (f a) [] value Meant) :
    Settles (d >>= f) bytes value Meant := by
  rw [← List.append_nil bytes]
  exact after hd counts hf

end Settles

theorem yields_int32 (n : Int32) : Yields (signed 4) (Encode.signed 4 n.toInt) n.toInt := by
  have low := n.le_toInt
  have high := n.toInt_lt
  exact yields_signed (by omega) (by omega)

theorem yields_int64 (n : Int64) : Yields (signed 8) (Encode.signed 8 n.toInt) n.toInt := by
  have low := n.le_toInt
  have high := n.toInt_lt
  exact yields_signed (by omega) (by omega)

/-! ## Days -/

theorem counts_day : Counts day := by
  refine (counts_signed 4).bind fun count => ?_
  split
  · exact .pure _
  · exact .throw _

theorem exists_encode_day (d : Day) : ∃ bytes, Encode.day d = .ok bytes := by
  have range := d.inRange
  have first : IntKind.int32.minValue ≤ minDay := by decide
  have last : maxDay ≤ IntKind.int32.maxValue := by decide
  exact ⟨_, if_pos (by omega)⟩

theorem settles_day (n : Int32) :
    Settles day (Encode.signed 4 n.toInt) Value.date fun d => d.count = n.toInt := by
  refine .last (yields_int32 n) (counts_signed 4) ?_
  unfold Day.ofCount?
  by_cases range : minDay ≤ n.toInt ∧ n.toInt ≤ maxDay
  · rw [dif_pos range]
    exact .pure rfl
  · rw [dif_neg range]
    exact .throw (fun d same => range (same ▸ d.inRange)) rfl

/-! ## Instants -/

theorem counts_instant : Counts instant := by
  refine (counts_signed 8).bind fun micros => ?_
  split
  · exact .pure _
  · exact .throw _

theorem exists_encode_instant (t : Instant) : ∃ bytes, Encode.instant t = .ok bytes := by
  have range := t.cut.inRange
  have first : IntKind.int64.minValue * 1000 ≤ minDay * nanosPerDay := by decide
  have last : (maxDay + 1) * nanosPerDay ≤ IntKind.int64.maxValue * 1000 := by decide
  have nanos : t.cut.nanos = t.micros * 1000 := rfl
  exact ⟨_, if_pos (by omega)⟩

theorem settles_instant (n : Int64) :
    Settles instant (Encode.signed 8 n.toInt) Value.timestamp fun t => t.nanos = n.toInt * 1000 := by
  refine .last (yields_int64 n) (counts_signed 8) ?_
  unfold Instant.ofNanos?
  by_cases range : minDay * nanosPerDay ≤ n.toInt * 1000 ∧ n.toInt * 1000 < (maxDay + 1) * nanosPerDay
  · rw [dif_pos range]
    exact .pure rfl
  · rw [dif_neg range]
    exact .throw (fun t same => range (same ▸ t.inRange)) rfl

/-! ## Spans -/

theorem counts_span : Counts span := by
  refine counts_varint64.bind fun seconds => (counts_signed 4).bind fun nanos => ?_
  split
  · exact .pure _
  · exact .throw _

/-- Whether a span is the sum of seconds and nanoseconds, where these are less than a second and the
seconds alone are a span. -/
def SumOf (seconds nanos : Int) (d : Span) : Prop :=
  d.nanos = seconds * nanosPerSecond + nanos ∧ nanos.natAbs < 1000000000 ∧
    ∃ whole : Span, whole.nanos = seconds * nanosPerSecond

theorem spanOfParts_cases (seconds nanos : Int) :
    (∃ d, SumOf seconds nanos d ∧ spanOfParts seconds nanos = .ok d) ∨
    (∀ d, ¬SumOf seconds nanos d) ∧
      ∃ e, spanOfParts seconds nanos = .error e ∧ e.kind = .invalidData := by
  unfold spanOfParts SumOf
  by_cases large : 1000000000 ≤ nanos.natAbs
  · rw [if_pos large]
    exact .inr ⟨fun d sum => by omega, _, rfl, rfl⟩
  · rw [if_neg large]
    dsimp only
    unfold Span.ofNanos?
    by_cases whole : -maxSpan ≤ seconds * nanosPerSecond ∧ seconds * nanosPerSecond ≤ maxSpan
    · by_cases sum : -maxSpan ≤ seconds * nanosPerSecond + nanos ∧
          seconds * nanosPerSecond + nanos ≤ maxSpan
      · rw [dif_pos whole, dif_pos sum]
        exact .inl ⟨⟨_, sum⟩, ⟨rfl, by omega, ⟨_, whole⟩, rfl⟩, rfl⟩
      · rw [dif_pos whole, dif_neg sum]
        exact .inr ⟨fun d ⟨same, _⟩ => sum (same ▸ d.inRange), _, rfl, rfl⟩
    · rw [dif_neg whole]
      exact .inr ⟨fun _ ⟨_, _, d, same⟩ => whole (same ▸ d.inRange), _, rfl, rfl⟩

theorem settles_span (seconds : Int64) (nanos : Int32) :
    Settles span (Encode.varint64 seconds.toInt ++ Encode.signed 4 nanos.toInt) Value.duration
      (SumOf seconds.toInt nanos.toInt) := by
  have yields := yields_varint64 seconds.le_toInt seconds.toInt_lt
  refine .after yields counts_varint64 (.last (yields_int32 nanos) (counts_signed 4) ?_)
  rcases spanOfParts_cases seconds.toInt nanos.toInt with ⟨d, sum, made⟩ | ⟨none, e, refused, invalid⟩
  · rw [made]
    exact .pure sum
  · rw [refused]
    exact .throw none invalid

/-! ## Spans from the epoch -/

theorem exists_span_days (n : Int32) : ∃ d : Span, d.nanos = n.toInt * nanosPerDay := by
  have low := n.le_toInt
  have high := n.toInt_lt
  exact ⟨⟨n.toInt * nanosPerDay, by unfold maxSpan nanosPerDay nanosPerSecond; omega⟩, rfl⟩

theorem exists_span_micros (n : Int64) : ∃ d : Span, d.nanos = n.toInt * 1000 := by
  have low := n.le_toInt
  have high := n.toInt_lt
  exact ⟨⟨n.toInt * 1000, by unfold maxSpan; omega⟩, rfl⟩

theorem exists_span_nanos (n : Int32) : ∃ d : Span, d.nanos = n.toInt := by
  have low := n.le_toInt
  have high := n.toInt_lt
  exact ⟨⟨n.toInt, by unfold maxSpan; omega⟩, rfl⟩

/-- Every day, instant and span is written, and comes back, an instant cut to microseconds toward 1970.
Any numbers of the widths that are read are settled, and no number of days, microseconds or nanoseconds
is too great for the span that is made of it on the way. -/
theorem days_instants_spans :
    (∀ d : Day, ∃ bytes, Encode.day d = .ok bytes ∧ Finds day bytes (.date d)) ∧
    (∀ t : Instant, ∃ bytes, Encode.instant t = .ok bytes ∧
      ∃ cut : Instant, cut.nanos = t.nanos.tdiv 1000 * 1000 ∧ Finds instant bytes (.timestamp cut)) ∧
    (∀ d : Span, Finds span (Encode.span d) (.duration d)) ∧
    (∀ n : Int32, Settles day (Encode.signed 4 n.toInt) Value.date fun d => d.count = n.toInt) ∧
    (∀ n : Int64, Settles instant (Encode.signed 8 n.toInt) Value.timestamp
      fun t => t.nanos = n.toInt * 1000) ∧
    (∀ (seconds : Int64) (nanos : Int32),
      Settles span (Encode.varint64 seconds.toInt ++ Encode.signed 4 nanos.toInt) Value.duration
        (SumOf seconds.toInt nanos.toInt)) ∧
    (∀ n : Int32, ∃ d : Span, d.nanos = n.toInt * nanosPerDay) ∧
    (∀ n : Int64, ∃ d : Span, d.nanos = n.toInt * 1000) ∧
    ∀ n : Int32, ∃ d : Span, d.nanos = n.toInt := by
  refine ⟨fun d => ?_, fun t => ?_, fun d => (yields_span d).stops counts_span, settles_day,
    settles_instant, settles_span, exists_span_days, exists_span_micros, exists_span_nanos⟩
  · obtain ⟨bytes, written⟩ := exists_encode_day d
    exact ⟨bytes, written, (yields_day written).stops counts_day⟩
  · obtain ⟨bytes, written⟩ := exists_encode_instant t
    exact ⟨bytes, written, t.cut, rfl, (yields_instant written).stops counts_instant⟩

end Decode

end Graphwire
