import Graphwire.Proofs.Plans

/-!
# Reading back what was written

A decoder yields a value on bytes when it gives that value wherever the bytes stand in the input,
and stops right after them. Every encoding of a number or a text is read back by its decoder, which
is told for each by the values that the encoding admits.
-/

namespace Graphwire

set_option autoImplicit false

namespace Decode

variable {α β : Type}

/-- Whether a decoder takes the bytes, and nothing after them, for the value. -/
def Yields (d : Decode α) (bytes : List UInt8) (a : α) : Prop :=
  ∀ p rest, ∃ p', d ⟨p, bytes ++ rest⟩ = .ok a ⟨p', rest⟩

theorem bind_apply (d : Decode α) (f : α → Decode β) (r : Reader) :
    (d >>= f) r = match d r with | .ok a r' => f a r' | .error e r' => .error e r' := by
  show EStateM.bind d f r = _
  unfold EStateM.bind
  cases d r <;> rfl

theorem Yields.pure (a : α) : Yields (pure a) [] a := fun p _ => ⟨p, rfl⟩

theorem Yields.bind {d : Decode α} {f : α → Decode β} {front back : List UInt8} {a : α} {b : β}
    (hd : Yields d front a) (hf : Yields (f a) back b) : Yields (d >>= f) (front ++ back) b := by
  intro p rest
  obtain ⟨p', run⟩ := hd p (back ++ rest)
  obtain ⟨p'', next⟩ := hf p' rest
  exact ⟨p'', by rw [List.append_assoc, bind_apply, run]; exact next⟩

theorem Yields.map {d : Decode α} {bytes : List UInt8} {a : α} (hd : Yields d bytes a)
    (f : α → β) : Yields (f <$> d) bytes (f a) := by
  rw [map_eq_pure_bind, ← List.append_nil bytes]
  exact hd.bind (.pure _)

/-- One more step that reads nothing. -/
theorem Yields.then {d : Decode α} {f : α → Decode β} {bytes : List UInt8} {a : α} {b : β}
    (hd : Yields d bytes a) (hf : Yields (f a) [] b) : Yields (d >>= f) bytes b := by
  rw [← List.append_nil bytes]
  exact hd.bind hf

/-- Whether a decoder takes the bytes, and nothing after them, for the value, or else refuses. It does
not refuse where it is sure. -/
def YieldsIf (sure : Prop) (d : Decode α) (bytes : List UInt8) (a : α) : Prop :=
  ∀ p rest, (∃ p', d ⟨p, bytes ++ rest⟩ = .ok a ⟨p', rest⟩) ∨
    ¬sure ∧ ∃ e r, d ⟨p, bytes ++ rest⟩ = .error e r

namespace YieldsIf

variable {sure : Prop} {d : Decode α} {bytes : List UInt8} {a : α}

theorem yields (h : YieldsIf sure d bytes a) (holds : sure) : Yields d bytes a :=
  fun p rest => (h p rest).resolve_right fun refused => refused.1 holds

theorem mono {sure' : Prop} (h : YieldsIf sure d bytes a) (imp : sure' → sure) :
    YieldsIf sure' d bytes a :=
  fun p rest => (h p rest).imp_right fun refused => ⟨mt imp refused.1, refused.2⟩

theorem throw (unsure : ¬sure) (e : Error) : YieldsIf sure (throw e : Decode α) bytes a :=
  fun _ _ => .inr ⟨unsure, e, _, rfl⟩

theorem bind {f : α → Decode β} {back : List UInt8} {b : β} (hd : YieldsIf sure d bytes a)
    (hf : YieldsIf sure (f a) back b) : YieldsIf sure (d >>= f) (bytes ++ back) b := by
  intro p rest
  rw [List.append_assoc, bind_apply]
  rcases hd p (back ++ rest) with ⟨p', run⟩ | ⟨unsure, e, r, run⟩
  · rw [run]
    exact hf p' rest
  · rw [run]
    exact .inr ⟨unsure, e, r, rfl⟩

/-- One more step that reads nothing. -/
theorem «then» {f : α → Decode β} {b : β} (hd : YieldsIf sure d bytes a)
    (hf : YieldsIf sure (f a) [] b) : YieldsIf sure (d >>= f) bytes b := by
  rw [← List.append_nil bytes]
  exact hd.bind hf

/-- A decoder that succeeds takes the bytes for the value. -/
theorem eq_of_ok (h : YieldsIf sure d bytes a) {p : Nat} {rest : List UInt8} {b : α} {r : Reader}
    (run : d ⟨p, bytes ++ rest⟩ = .ok b r) : b = a ∧ r.rest = rest := by
  rcases h p rest with ⟨p', same⟩ | ⟨-, e, r', refused⟩
  · rw [same] at run
    cases run
    exact ⟨rfl, rfl⟩
  · rw [refused] at run
    cases run

end YieldsIf

theorem Yields.yieldsIf {sure : Prop} {d : Decode α} {bytes : List UInt8} {a : α}
    (h : Yields d bytes a) : YieldsIf sure d bytes a := fun p rest => .inl (h p rest)

theorem yields_bytes (bytes : List UInt8) : Yields (Decode.bytes bytes.length) bytes bytes :=
  fun p rest => ⟨_, bytes_append p bytes rest⟩

theorem yields_octet (b : UInt8) : Yields octet [b] b.toNat := fun p _ => ⟨p + 1, rfl⟩

/-! ## Little-endian numbers -/

theorem ofLittleEndian_littleEndian (width n : Nat) :
    ofLittleEndian (Encode.littleEndian width n) = n % 256 ^ width := by
  induction width generalizing n with
  | zero => simp [Encode.littleEndian, ofLittleEndian, Nat.mod_one]
  | succ width ih =>
    have ih : List.foldr (fun b n => b.toNat + 256 * n) 0 (Encode.littleEndian width (n / 256)) =
      n / 256 % 256 ^ width := ih _
    have byte : ((n % 256).toUInt8).toNat = n % 256 := by simp
    simp only [Encode.littleEndian, ofLittleEndian, List.foldr_cons]
    rw [ih, byte, Nat.pow_succ, Nat.mul_comm (256 ^ width) 256, Nat.mod_mul]

theorem yields_littleEndian (width n : Nat) :
    Yields (littleEndian width) (Encode.littleEndian width n) (n % 256 ^ width) := by
  have bytes := (yields_bytes (Encode.littleEndian width n)).map ofLittleEndian
  rw [ofLittleEndian_littleEndian, Encode.length_littleEndian] at bytes
  have same : littleEndian width = ofLittleEndian <$> Decode.bytes width := by simp [littleEndian]
  exact same ▸ bytes

theorem toSigned_mod {width : Nat} {n : Int} (low : -(256 ^ width : Nat) ≤ 2 * n)
    (high : 2 * n < (256 ^ width : Nat)) :
    toSigned width (n % (256 ^ width : Nat)).toNat = n := by
  have positive : 0 < 256 ^ width := Nat.pow_pos (by decide)
  unfold toSigned
  generalize 256 ^ width = m at *
  by_cases sign : 0 ≤ n
  · rw [Int.emod_eq_of_lt sign (by omega)]
    split <;> omega
  · have up : n % (m : Int) = n + m := by
      rw [← Int.add_emod_right, Int.emod_eq_of_lt (by omega) (by omega)]
    rw [up]
    split <;> omega

/-- A signed number that fits its width. -/
theorem yields_signed {width : Nat} {n : Int} (low : -(256 ^ width : Nat) ≤ 2 * n)
    (high : 2 * n < (256 ^ width : Nat)) : Yields (signed width) (Encode.signed width n) n := by
  have positive : (0 : Int) < (256 ^ width : Nat) := by exact_mod_cast Nat.pow_pos (by decide)
  have bytes := (yields_littleEndian width (n % (256 ^ width : Nat)).toNat).map (toSigned width)
  have small : (n % (256 ^ width : Nat)).toNat < 256 ^ width := by
    have := Int.emod_lt_of_pos n positive
    have := Int.emod_nonneg n (Int.ne_of_gt positive)
    omega
  rw [Nat.mod_eq_of_lt small, toSigned_mod low high] at bytes
  have same : signed width = toSigned width <$> littleEndian width := by simp [signed]
  exact same ▸ bytes

/-! ## Groups of seven bits -/

/-- Groups are read back when the reader of the last byte reads back what the others leave. -/
theorem yields_groups {last : Decode Nat} {bound : Nat}
    (hlast : ∀ m, m < bound → Yields last [m.toUInt8] m) (left : Nat) :
    ∀ n, n < bound * 128 ^ left → Yields (groups last left) (Encode.groups left n) n := by
  induction left with
  | zero => exact fun n h => hlast n (by simpa using h)
  | succ left ih =>
    intro n h
    unfold groups Encode.groups
    split
    · rename_i small
      have byte : (n.toUInt8).toNat = n := by simp; omega
      refine (yields_octet _).then ?_
      rw [byte, if_pos small]
      exact .pure n
    · rename_i large
      have byte : ((n % 128 + 128).toUInt8).toNat = n % 128 + 128 := by simp; omega
      rw [← List.singleton_append]
      refine (yields_octet (n % 128 + 128).toUInt8).bind ?_
      rw [byte, if_neg (by omega)]
      have rest : n / 128 < bound * 128 ^ left := by
        rw [Nat.pow_succ, ← Nat.mul_assoc] at h
        exact Nat.div_lt_of_lt_mul (by rw [Nat.mul_comm]; exact h)
      refine (ih (n / 128) rest).then ?_
      have whole : n % 128 + 128 - 128 + 128 * (n / 128) = n := by omega
      rw [whole]
      exact .pure n

theorem yields_varuint32 {n : Nat} (h : n < 2 ^ 32) : Yields varuint32 (Encode.varuint32 n) n := by
  have last : ∀ m, m < 128 → Yields (groups (throw .varuintTooLong) 1) [m.toUInt8] m := by
    intro m small
    have byte : (m.toUInt8).toNat = m := by simp; omega
    refine (yields_octet _).then ?_
    rw [byte, if_pos small]
    exact .pure m
  have five : groups (throw .varuintTooLong) 5 = groups (groups (throw .varuintTooLong) 1) 4 := rfl
  unfold varuint32 Encode.varuint32
  rw [Nat.mod_eq_of_lt h, five]
  refine (yields_groups last 4 n (by omega)).then ?_
  rw [Nat.mod_eq_of_lt h]
  exact .pure n

theorem yields_varuint64 {n : Nat} (h : n < 2 ^ 64) : Yields varuint64 (Encode.varuint64 n) n := by
  have last : ∀ m, m < 256 → Yields octet [m.toUInt8] m := by
    intro m small
    have byte : (m.toUInt8).toNat = m := by simp; omega
    have octet := yields_octet m.toUInt8
    rwa [byte] at octet
  unfold varuint64 Encode.varuint64
  rw [Nat.mod_eq_of_lt h]
  exact yields_groups last 8 n (by omega)

theorem unzigzag_zigzag (n : Int) : unzigzag (Encode.zigzag n) = n := by
  unfold unzigzag Encode.zigzag
  split <;> split <;> omega

theorem yields_varint32 {n : Int} (low : -2 ^ 31 ≤ n) (high : n < 2 ^ 31) :
    Yields varint32 (Encode.varint32 n) n := by
  have small : Encode.zigzag n < 2 ^ 32 := by unfold Encode.zigzag; split <;> omega
  have folded := (yields_varuint32 small).map unzigzag
  rw [unzigzag_zigzag] at folded
  have same : varint32 = unzigzag <$> varuint32 := by simp [varint32]
  exact same ▸ folded

theorem yields_varint64 {n : Int} (low : -2 ^ 63 ≤ n) (high : n < 2 ^ 63) :
    Yields varint64 (Encode.varint64 n) n := by
  have small : Encode.zigzag n < 2 ^ 64 := by unfold Encode.zigzag; split <;> omega
  have folded := (yields_varuint64 small).map unzigzag
  rw [unzigzag_zigzag] at folded
  have same : varint64 = unzigzag <$> varuint64 := by simp [varint64]
  exact same ▸ folded

/-! ## Tagged numbers -/

theorem yields_tagged_small {small large : Decode α} {b : UInt8} {bytes : List UInt8} {a : α}
    (even : b.toNat % 2 = 0) (h : Yields small (b :: bytes) a) :
    Yields (tagged small large) (b :: bytes) a := by
  intro p rest
  obtain ⟨p', run⟩ := h p rest
  refine ⟨p', ?_⟩
  show (if b.toNat % 2 = 0 then
      (set (Reader.mk p (b :: bytes ++ rest)) >>= fun _ => small : Decode α) else large)
    ⟨p + 1, bytes ++ rest⟩ = _
  rw [if_pos even]
  exact run

theorem yields_tagged_large {small large : Decode α} {bytes : List UInt8} {a : α}
    (h : Yields large bytes a) : Yields (tagged small large) (1 :: bytes) a := by
  intro p rest
  obtain ⟨p', run⟩ := h (p + 1) rest
  exact ⟨p', run⟩

theorem yields_taggedInt64 {n : Int} (low : -2 ^ 63 ≤ n) (high : n < 2 ^ 63) :
    Yields taggedInt64 (Encode.taggedInt64 n) n := by
  unfold taggedInt64 Encode.taggedInt64
  split
  · have whole : Yields (signed 4) (Encode.signed 4 (2 * n)) (2 * n) :=
      yields_signed (by omega) (by omega)
    have half := whole.map (· / 2)
    have whole : 2 * n / 2 = n := by omega
    rw [whole] at half
    refine yields_tagged_small (b := ((2 * n % (256 ^ 4 : Nat)).toNat % 256).toUInt8) ?_ ?_
    · simp
      omega
    · have same : (do return (← signed 4) / 2 : Decode Int) = (· / 2) <$> signed 4 := by simp
      rw [same]
      exact half
  · exact yields_tagged_large (yields_signed (by omega) (by omega))

theorem yields_taggedUint64 {n : Nat} (h : n < 2 ^ 64) :
    Yields taggedUint64 (Encode.taggedUint64 n) n := by
  unfold taggedUint64 Encode.taggedUint64
  split
  · have half := (yields_littleEndian 4 (2 * n)).map (· / 2)
    have whole : 2 * n % 256 ^ 4 / 2 = n := by omega
    rw [whole] at half
    refine yields_tagged_small (b := (2 * n % 256).toUInt8) ?_ ?_
    · simp
    · have same : (do return (← littleEndian 4) / 2 : Decode Nat) = (· / 2) <$> littleEndian 4 := by
        simp
      rw [same]
      exact half
  · have full := yields_littleEndian 8 n
    rw [Nat.mod_eq_of_lt (by omega)] at full
    exact yields_tagged_large full

/-! ## Texts -/

end Decode

namespace Utf8

theorem toNat_ofNat {n : Nat} (h : n < 256) : (UInt8.ofNat n).toNat = n := by
  simp
  omega

variable {n seen owed low high value : Nat}

theorem decodeFrom_lead {p : Partial} (small : n < 256) (large : 0x80 ≤ n) (h : lead n = some p)
    (rest : List UInt8) (start : Nat) :
    decodeFrom (UInt8.ofNat n :: rest) start none = decodeFrom rest start (some p) := by
  rw [decodeFrom, toNat_ofNat small, if_neg (by omega), h]

theorem decodeFrom_last (small : n < 256) (fits : low ≤ n ∧ n ≤ high) (rest : List UInt8)
    (start : Nat) :
    decodeFrom (UInt8.ofNat n :: rest) start (some ⟨seen, 0, low, high, value⟩) =
      (decodeFrom rest (start + seen + 1) none).map
        (Char.ofNat (value * 64 + (n - 0x80)) :: ·) := by
  rw [decodeFrom, toNat_ofNat small, if_pos fits]

theorem decodeFrom_inner (small : n < 256) (fits : low ≤ n ∧ n ≤ high) (rest : List UInt8)
    (start : Nat) :
    decodeFrom (UInt8.ofNat n :: rest) start (some ⟨seen, owed + 1, low, high, value⟩) =
      decodeFrom rest start (some ⟨seen + 1, owed, 0x80, 0xBF, value * 64 + (n - 0x80)⟩) := by
  rw [decodeFrom, toNat_ofNat small, if_pos fits]

/-- The lead octet of three leaves room for the second one. -/
theorem lead_three {v : Nat} (low : 0x800 ≤ v) (valid : v < 0xD800 ∨ 0xDFFF < v ∧ v < 0x10000) :
    ∃ l h, lead (v / 4096 % 16 + 0xE0) = some ⟨1, 1, l, h, v / 4096⟩ ∧
      l ≤ v / 64 % 64 + 0x80 ∧ v / 64 % 64 + 0x80 ≤ h := by
  have top : v / 4096 % 16 = v / 4096 := by omega
  unfold lead
  rw [top, if_neg (by omega)]
  split
  · exact ⟨_, _, by rw [show v / 4096 = 0 by omega], by omega, by omega⟩
  · split
    · exact ⟨_, _, by rw [show v / 4096 = 13 by omega], by omega, by omega⟩
    · rw [if_pos (by omega)]
      exact ⟨_, _, by rw [Nat.add_sub_cancel], by omega, by omega⟩

/-- The lead octet of four leaves room for the second one. -/
theorem lead_four {v : Nat} (low : 0x10000 ≤ v) (high : v < 0x110000) :
    ∃ l h, lead (v / 262144 % 8 + 0xF0) = some ⟨1, 2, l, h, v / 262144⟩ ∧
      l ≤ v / 4096 % 64 + 0x80 ∧ v / 4096 % 64 + 0x80 ≤ h := by
  have top : v / 262144 % 8 = v / 262144 := by omega
  unfold lead
  rw [top, if_neg (by omega), if_neg (by omega), if_neg (by omega), if_neg (by omega)]
  split
  · exact ⟨_, _, by rw [show v / 262144 = 0 by omega], by omega, by omega⟩
  · split
    · exact ⟨_, _, by rw [Nat.add_sub_cancel], by omega, by omega⟩
    · rw [if_pos (by omega)]
      exact ⟨_, _, by rw [show v / 262144 = 4 by omega], by omega, by omega⟩

/-- The octets of a character stand for it. -/
theorem decodeFrom_encodeChar (c : Char) (rest : List UInt8) (start : Nat) : ∃ next,
    decodeFrom (String.utf8EncodeChar c ++ rest) start none =
      (decodeFrom rest next none).map (c :: ·) := by
  have valid : c.toNat < 0xD800 ∨ 0xDFFF < c.toNat ∧ c.toNat < 0x110000 := c.valid
  have back : ∀ v, v = c.toNat → Char.ofNat v = c := fun v h => h ▸ Char.ofNat_toNat c
  have value : c.val.toNat = c.toNat := rfl
  unfold String.utf8EncodeChar
  rw [value]
  generalize c.toNat = v at *
  dsimp only
  split
  · rename_i one
    refine ⟨start + 1, ?_⟩
    rw [List.singleton_append, decodeFrom, toNat_ofNat (by omega), if_pos (by omega), back _ rfl]
  · split
    · rename_i two
      have lead : lead (v / 64 % 32 + 0xC0) = some ⟨1, 0, 0x80, 0xBF, v / 64⟩ := by
        have top : v / 64 % 32 = v / 64 := by omega
        rw [lead, top, if_pos (by omega), Nat.add_sub_cancel]
      refine ⟨start + 1 + 1, ?_⟩
      rw [List.cons_append, List.singleton_append, decodeFrom_lead (by omega) (by omega) lead,
        decodeFrom_last (by omega) (by omega), back _ (by omega)]
    · split
      · rename_i three
        obtain ⟨l, h, lead, fits⟩ := lead_three (v := v) (by omega) (by omega)
        refine ⟨start + 2 + 1, ?_⟩
        rw [List.cons_append, List.cons_append, List.singleton_append,
          decodeFrom_lead (by omega) (by omega) lead, decodeFrom_inner (by omega) fits,
          decodeFrom_last (by omega) (by omega), back _ (by omega)]
      · rename_i four
        obtain ⟨l, h, lead, fits⟩ := lead_four (v := v) (by omega) (by omega)
        refine ⟨start + 3 + 1, ?_⟩
        rw [List.cons_append, List.cons_append, List.cons_append, List.singleton_append,
          decodeFrom_lead (by omega) (by omega) lead, decodeFrom_inner (by omega) fits,
          decodeFrom_inner (by omega) (by omega), decodeFrom_last (by omega) (by omega),
          back _ (by omega)]

theorem decode_encode (s : String) : decode (encode s) = .ok s := by
  have run : ∀ (chars : List Char) (start : Nat),
      decodeFrom (chars.flatMap String.utf8EncodeChar) start none = .ok chars := by
    intro chars
    induction chars with
    | nil => exact fun _ => rfl
    | cons c chars ih =>
      intro start
      obtain ⟨next, h⟩ := decodeFrom_encodeChar c (chars.flatMap String.utf8EncodeChar) start
      rw [List.flatMap_cons, h, ih]
      rfl
  unfold decode encode
  rw [run]
  simp [Except.map]

end Utf8

namespace Decode

theorem yields_textHeader {length : Nat} (h : length < 2 ^ 62) :
    Yields textHeader (Encode.varuint64 (4 * length + TextEncoding.utf8.code)) (2, length) := by
  have code : TextEncoding.utf8.code = 2 := rfl
  have header := (yields_varuint64 (n := 4 * length + 2) (by omega)).map fun n => (n % 4, n / 4)
  rw [show (4 * length + 2) % 4 = 2 by omega, show (4 * length + 2) / 4 = length by omega] at header
  have same : textHeader = (fun n => (n % 4, n / 4)) <$> varuint64 := by simp [textHeader]
  exact same ▸ header

theorem yields_textPayload (s : String) :
    Yields (textPayload 2 (Utf8.encode s).length) (Utf8.encode s) s := by
  refine (yields_bytes _).then ?_
  rw [if_pos (by decide)]
  simp only [utf8, Utf8.decode_encode]
  exact .pure s

/-! ## Scalars -/

theorem yields_bool (b : Bool) : Yields bool (Encode.bool b) b := by
  have byte := (yields_octet (if b then 1 else 0)).map fun n => decide (n ≠ 0)
  have same : bool = (fun n => decide (n ≠ 0)) <$> octet := by simp [bool]
  cases b <;> exact same ▸ byte

theorem wrap_val (n : Integer) : Integer.wrap n.kind n.val = n := by
  obtain ⟨kind, val, low, high⟩ := n
  have same := Integer.val_wrap low high
  simp only [Integer.wrap] at same ⊢
  simp only [same]

theorem even_modulus (kind : IntKind) : 256 ^ kind.bytes % 2 = 0 := by
  cases kind <;> decide

theorem signed_bounds (n : Integer) (h : n.kind.isSigned = true) :
    -(256 ^ n.kind.bytes : Nat) ≤ 2 * n.val ∧ 2 * n.val < (256 ^ n.kind.bytes : Nat) := by
  have range := n.inRange
  have even := even_modulus n.kind
  simp only [IntKind.minValue, IntKind.maxValue, IntKind.modulus, h, if_true] at range
  omega

theorem unsigned_bounds (n : Integer) (h : n.kind.isSigned = false) :
    0 ≤ n.val ∧ n.val < (256 ^ n.kind.bytes : Nat) := by
  have range := n.inRange
  simp only [IntKind.minValue, IntKind.maxValue, IntKind.modulus, h, Bool.false_eq_true,
    if_false] at range
  omega

/-- A width that is not eight bytes is at most four. -/
theorem width_cases (kind : IntKind) :
    kind.bytes = 8 ∨ kind.bytes ≠ 8 ∧ 256 ^ kind.bytes ≤ 2 ^ 32 := by
  cases kind <;> decide

theorem yields_ofNat {d : Decode Nat} {bytes : List UInt8} {m : Int} (nonneg : 0 ≤ m)
    (h : Yields d bytes m.toNat) : Yields (Int.ofNat <$> d) bytes m := by
  have mapped := h.map Int.ofNat
  rwa [show Int.ofNat m.toNat = m from Int.toNat_of_nonneg nonneg] at mapped

/-- The number in one of the layouts of its kind, as it is read before it is an integer of this kind. -/
def number (kind : IntKind) (layout : IntLayout) : Decode Int :=
  match layout with
  | .fixed => if kind.isSigned then signed kind.bytes else Int.ofNat <$> littleEndian kind.bytes
  | .groups =>
    if kind.bytes = 8 then if kind.isSigned then varint64 else Int.ofNat <$> varuint64
    else if kind.isSigned then varint32 else Int.ofNat <$> varuint32
  | .tagged => if kind.isSigned then taggedInt64 else Int.ofNat <$> taggedUint64

theorem integer_eq (kind : IntKind) (layout : IntLayout) :
    integer kind layout = number kind layout >>= fun n => Pure.pure (Value.int (.wrap kind n)) := by
  cases kind <;> cases layout <;> rfl

theorem yields_number (n : Integer) (layout : IntLayout) :
    Yields (number n.kind layout) (Encode.integer n.kind layout n.val) n.val := by
  have wide : 256 ^ n.kind.bytes ≤ 2 ^ 64 := by cases n.kind <;> decide
  cases sign : n.kind.isSigned with
  | true =>
    obtain ⟨low, high⟩ := signed_bounds n sign
    cases layout with
    | fixed =>
      simp only [number, Encode.integer, sign]
      exact yields_signed low high
    | groups =>
      rcases width_cases n.kind with eight | ⟨narrow, small⟩
      · rw [eight] at low high
        simp only [number, Encode.integer, sign, eight]
        exact yields_varint64 (by omega) (by omega)
      · simp only [number, Encode.integer, sign, narrow]
        exact yields_varint32 (by omega) (by omega)
    | tagged =>
      simp only [number, Encode.integer, sign]
      exact yields_taggedInt64 (by omega) (by omega)
  | false =>
    obtain ⟨low, high⟩ := unsigned_bounds n sign
    cases layout with
    | fixed =>
      have fixed := yields_littleEndian n.kind.bytes n.val.toNat
      rw [Nat.mod_eq_of_lt (by omega)] at fixed
      simp only [number, Encode.integer, Encode.signed, sign]
      rw [Int.emod_eq_of_lt low high]
      exact yields_ofNat low fixed
    | groups =>
      rcases width_cases n.kind with eight | ⟨narrow, small⟩
      · simp only [number, Encode.integer, sign, eight]
        exact yields_ofNat low (yields_varuint64 (by omega))
      · simp only [number, Encode.integer, sign, narrow]
        exact yields_ofNat low (yields_varuint32 (by omega))
    | tagged =>
      simp only [number, Encode.integer, sign]
      exact yields_ofNat low (yields_taggedUint64 (by omega))

theorem yields_integer (n : Integer) (layout : IntLayout) :
    Yields (integer n.kind layout) (Encode.integer n.kind layout n.val) (.int n) := by
  rw [integer_eq]
  refine (yields_number n layout).then ?_
  rw [wrap_val]
  exact .pure _

theorem yields_float32 (bits : UInt32) :
    Yields float32 (Encode.littleEndian 4 bits.toNat) (.float32 bits) := by
  have bytes := (yields_littleEndian 4 bits.toNat).map fun n => Value.float32 n.toUInt32
  have small : bits.toNat % 256 ^ 4 = bits.toNat := Nat.mod_eq_of_lt (UInt32.toNat_lt bits)
  rw [small, show bits.toNat.toUInt32 = bits by simp] at bytes
  have same : float32 = (fun n => Value.float32 n.toUInt32) <$> littleEndian 4 := by simp [float32]
  exact same ▸ bytes

theorem yields_float64 (bits : UInt64) :
    Yields float64 (Encode.littleEndian 8 bits.toNat) (.float64 bits) := by
  have bytes := (yields_littleEndian 8 bits.toNat).map fun n => Value.float64 n.toUInt64
  have small : bits.toNat % 256 ^ 8 = bits.toNat := Nat.mod_eq_of_lt (UInt64.toNat_lt bits)
  rw [small, show bits.toNat.toUInt64 = bits by simp] at bytes
  have same : float64 = (fun n => Value.float64 n.toUInt64) <$> littleEndian 8 := by simp [float64]
  exact same ▸ bytes

end Decode

end Graphwire
