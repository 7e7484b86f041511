import Graphwire.Proofs.Parsing

/-!
# Spellings of texts

Each encoding spells a text in one way, Latin-1 only if all characters are below U+0100, and no two
texts alike. A payload is read as the text that it spells, whatever the encoding, and refused if it
spells none. Which payloads spell a text is told without a text: all in Latin-1, those of valid UTF-8,
and the little-endian bytes of 16-bit units among which no surrogate stands alone.
-/

namespace Graphwire

set_option autoImplicit false

/-! ## UTF-8 -/

namespace Utf8

variable {octets : List UInt8} {chars : List Char} {start : Nat}

/-- A continuation octet. -/
def Continues (b : UInt8) : Prop := 0x80 ≤ b.toNat ∧ b.toNat ≤ 0xBF

/-- The value of a character after one more octet. -/
def gather (value : Nat) (b : UInt8) : Nat := value * 64 + (b.toNat - 0x80)

theorem gather_eq (value : Nat) (b : UInt8) : gather value b = value * 64 + (b.toNat - 0x80) := rfl

/-- If octets can be read in the middle of a character, they begin with what is owed to it. -/
theorem exists_tail {owed : Nat} :
    ∀ {octets : List UInt8} {chars : List Char} {start seen low high value : Nat},
    decodeFrom octets start (some ⟨seen, owed, low, high, value⟩) = .ok chars →
    ∃ b tail rest next others, octets = b :: tail ++ rest ∧ tail.length = owed ∧
      (low ≤ b.toNat ∧ b.toNat ≤ high) ∧ (∀ c ∈ tail, Continues c) ∧
      chars = Char.ofNat ((b :: tail).foldl gather value) :: others ∧
      decodeFrom rest next none = .ok others := by
  -- Only the first octet may have an interval of its own: all that are owed after it continue.
  induction owed with
  | zero =>
    intro octets chars start seen low high value h
    cases octets with
    | nil => cases h
    | cons b rest =>
      rw [decodeFrom] at h
      dsimp only at h
      split at h
      · rename_i fits
        obtain ⟨others, inner, rfl⟩ := map_eq_ok_iff.1
          (show (Char.ofNat _ :: ·) <$> decodeFrom _ _ _ = .ok chars from h)
        exact ⟨b, [], rest, _, others, rfl, rfl, fits, by simp, rfl, inner⟩
      · cases h
  | succ owed ih =>
    intro octets chars start seen low high value h
    cases octets with
    | nil => cases h
    | cons b rest =>
      rw [decodeFrom] at h
      dsimp only at h
      split at h
      · rename_i fits
        obtain ⟨c, tail, rest, next, others, rfl, size, continues, all, rfl, inner⟩ := ih h
        refine ⟨b, c :: tail, rest, next, others, rfl, by simp [size], fits, ?_, ?_, inner⟩
        · exact List.forall_mem_cons.2 ⟨continues, all⟩
        · simp only [← gather_eq, List.foldl_cons]
      · cases h

/-! ### The octets of a character -/

theorem ofNat_eq {n : Nat} {b : UInt8} (h : n = b.toNat) : UInt8.ofNat n = b := by
  rw [h, UInt8.ofNat_toNat]

theorem val_ofNat {v : Nat} (valid : v.isValidChar) : (Char.ofNat v).val.toNat = v := by
  unfold Char.ofNat
  rw [dif_pos valid]
  rfl

theorem utf8EncodeChar_one {a : UInt8} (small : a.toNat < 0x80) :
    String.utf8EncodeChar (Char.ofNat a.toNat) = [a] := by
  unfold String.utf8EncodeChar
  rw [val_ofNat (.inl (by omega))]
  dsimp only
  rw [if_pos (by omega), UInt8.ofNat_toNat]

variable {a b c d : UInt8} {v : Nat}

theorem utf8EncodeChar_two (hv : v = (a.toNat - 0xC0) * 64 + (b.toNat - 0x80))
    (ha : 0xC2 ≤ a.toNat ∧ a.toNat ≤ 0xDF) (hb : Continues b) :
    String.utf8EncodeChar (Char.ofNat v) = [a, b] := by
  unfold Continues at hb
  unfold String.utf8EncodeChar
  rw [val_ofNat (.inl (by omega))]
  dsimp only
  rw [if_neg (by omega), if_pos (by omega), ofNat_eq (b := a) (by omega),
    ofNat_eq (b := b) (by omega)]

theorem utf8EncodeChar_three
    (hv : v = ((a.toNat - 0xE0) * 64 + (b.toNat - 0x80)) * 64 + (c.toNat - 0x80))
    (ha : 0xE0 ≤ a.toNat ∧ a.toNat ≤ 0xEF) (hb : Continues b) (hc : Continues c) (large : 0x800 ≤ v)
    (valid : v.isValidChar) : String.utf8EncodeChar (Char.ofNat v) = [a, b, c] := by
  unfold Continues at hb hc
  unfold String.utf8EncodeChar
  rw [val_ofNat valid]
  dsimp only
  rw [if_neg (by omega), if_neg (by omega), if_pos (by omega), ofNat_eq (b := a) (by omega),
    ofNat_eq (b := b) (by omega), ofNat_eq (b := c) (by omega)]

theorem utf8EncodeChar_four
    (hv : v = (((a.toNat - 0xF0) * 64 + (b.toNat - 0x80)) * 64 + (c.toNat - 0x80)) * 64 +
      (d.toNat - 0x80))
    (ha : 0xF0 ≤ a.toNat) (hb : Continues b) (hc : Continues c) (hd : Continues d)
    (large : 0x10000 ≤ v) (small : v < 0x110000) :
    String.utf8EncodeChar (Char.ofNat v) = [a, b, c, d] := by
  unfold Continues at hb hc hd
  unfold String.utf8EncodeChar
  rw [val_ofNat (.inr (by omega))]
  dsimp only
  rw [if_neg (by omega), if_neg (by omega), if_neg (by omega), ofNat_eq (b := a) (by omega),
    ofNat_eq (b := b) (by omega), ofNat_eq (b := c) (by omega), ofNat_eq (b := d) (by omega)]

/-- A lead octet begins two, three or four octets. The second one lies where the value is neither too
small for that many octets, nor a surrogate, nor beyond the last character. -/
theorem lead_cases {n : Nat} {p : Partial} (h : lead n = some p) :
    (p = ⟨1, 0, 0x80, 0xBF, n - 0xC0⟩ ∧ 0xC2 ≤ n ∧ n ≤ 0xDF) ∨
    (∃ low high, p = ⟨1, 1, low, high, n - 0xE0⟩ ∧ (0xE0 ≤ n ∧ n ≤ 0xEF) ∧
      0x80 ≤ low ∧ high ≤ 0xBF ∧ (n = 0xE0 → 0xA0 ≤ low) ∧ (n = 0xED → high ≤ 0x9F)) ∨
    (∃ low high, p = ⟨1, 2, low, high, n - 0xF0⟩ ∧ (0xF0 ≤ n ∧ n ≤ 0xF4) ∧
      0x80 ≤ low ∧ high ≤ 0xBF ∧ (n = 0xF0 → 0x90 ≤ low) ∧ (n = 0xF4 → high ≤ 0x8F)) := by
  unfold lead at h
  split at h
  · cases h
    exact .inl ⟨rfl, ‹_›⟩
  right
  split at h
  · cases h
    have top : n - 0xE0 = 0 := by omega
    exact .inl ⟨_, _, by rw [top], by omega⟩
  split at h
  · cases h
    have top : n - 0xE0 = 0xD := by omega
    exact .inl ⟨_, _, by rw [top], by omega⟩
  split at h
  · cases h
    exact .inl ⟨_, _, rfl, by omega⟩
  right
  split at h
  · cases h
    have top : n - 0xF0 = 0 := by omega
    exact ⟨_, _, by rw [top], by omega⟩
  split at h
  · cases h
    exact ⟨_, _, rfl, by omega⟩
  split at h
  · cases h
    have top : n - 0xF0 = 4 := by omega
    exact ⟨_, _, by rw [top], by omega⟩
  · cases h

/-- Octets that can be read and begin with a lead octet begin with the octets of a character. -/
theorem exists_character {p : Partial} (h : lead a.toNat = some p)
    (run : decodeFrom octets start (some p) = .ok chars) :
    ∃ c rest next others, a :: octets = String.utf8EncodeChar c ++ rest ∧ chars = c :: others ∧
      decodeFrom rest next none = .ok others := by
  obtain ⟨seen, owed, low, high, value⟩ := p
  obtain ⟨b, tail, rest, next, others, rfl, size, fits, all, rfl, inner⟩ := exists_tail run
  refine ⟨_, rest, next, others, ?_, rfl, inner⟩
  rw [← List.cons_append]
  congr 1
  symm
  generalize hv : (b :: tail).foldl gather value = v
  rcases lead_cases h with ⟨shape, ha⟩ | ⟨_, _, shape, ha, bounds⟩ | ⟨_, _, shape, ha, bounds⟩
  · cases shape
    obtain rfl := List.length_eq_zero_iff.1 size
    exact utf8EncodeChar_two hv.symm ha fits
  · cases shape
    obtain ⟨c, rfl⟩ := List.length_eq_one_iff.1 size
    have hc := List.forall_mem_singleton.1 all
    simp only [List.foldl_cons, List.foldl_nil, gather_eq] at hv
    refine utf8EncodeChar_three hv.symm ha ⟨by omega, by omega⟩ hc ?_ ?_
    · unfold Continues at hc
      omega
    · show v < 0xD800 ∨ 0xDFFF < v ∧ v < 0x110000
      unfold Continues at hc
      omega
  · cases shape
    obtain ⟨c, d, rfl⟩ := List.length_eq_two.1 size
    obtain ⟨hc, hd⟩ : Continues c ∧ Continues d := by simpa using all
    simp only [List.foldl_cons, List.foldl_nil, gather_eq] at hv
    refine utf8EncodeChar_four hv.symm ha.1 ⟨by omega, by omega⟩ hc hd ?_ ?_
    · unfold Continues at hc hd
      omega
    · unfold Continues at hc hd
      omega

/-- Octets that can be read are the octets of the characters that they are read as. -/
theorem eq_flatMap_of_decodeFrom : ∀ {octets : List UInt8} {chars : List Char} {start : Nat},
    decodeFrom octets start none = .ok chars → octets = chars.flatMap String.utf8EncodeChar := by
  -- A character takes up to four octets, so the induction is on how many there are.
  intro octets
  induction size : octets.length using Nat.strongRecOn generalizing octets with
  | ind n ih =>
    intro chars start run
    cases octets with
    | nil =>
      cases run
      rfl
    | cons a octets =>
      rw [decodeFrom] at run
      split at run
      · rename_i small
        obtain ⟨others, inner, rfl⟩ := map_eq_ok_iff.1
          (show (Char.ofNat _ :: ·) <$> decodeFrom _ _ _ = .ok chars from run)
        rw [List.flatMap_cons, utf8EncodeChar_one small, List.singleton_append,
          ← ih _ (by simp [← size]) rfl inner]
      · cases found : lead a.toNat with
        | none =>
          rw [found] at run
          cases run
        | some p =>
          rw [found] at run
          obtain ⟨c, rest, next, others, split, rfl, inner⟩ := exists_character found run
          have shorter : rest.length < n := by
            have one := String.length_utf8EncodeChar c
            have := c.utf8Size_pos
            rw [← size, split, List.length_append]
            omega
          rw [split, List.flatMap_cons, ← ih _ shorter rfl inner]

theorem decode_eq_ok_iff {s : String} : decode octets = .ok s ↔ octets = encode s := by
  constructor
  · intro run
    obtain ⟨chars, inner, rfl⟩ := map_eq_ok_iff.1
      (show String.ofList <$> decodeFrom octets 0 none = .ok s from run)
    rw [encode, String.toList_ofList]
    exact eq_flatMap_of_decodeFrom inner
  · rintro rfl
    exact decode_encode s

theorem isValidUTF8_iff : octets.toByteArray.IsValidUTF8 ↔ ∃ s, octets = encode s := by
  constructor
  · rintro ⟨chars, same⟩
    refine ⟨String.ofList chars, ?_⟩
    rw [encode, String.toList_ofList]
    exact List.toByteArray_inj.1 same
  · rintro ⟨s, rfl⟩
    exact ⟨s.toList, rfl⟩

end Utf8

/-! ## UTF-16 -/

namespace Utf16

variable {us : List Nat} {u v : Nat}

/-- Whether a unit is a high surrogate exactly if the next one is a low surrogate. -/
def Matched (us : List Nat) : Prop := ∀ i : Nat, us[i]?.any isHigh = us[i + 1]?.any isLow

/-- Whether no surrogate stands alone: low ones come right behind high ones and nowhere else. -/
def Paired (us : List Nat) : Prop := us[0]?.any isLow = false ∧ Matched us

theorem matched_nil : Matched [] := fun _ => rfl

theorem matched_cons : Matched (u :: us) ↔ isHigh u = us[0]?.any isLow ∧ Matched us := by
  unfold Matched
  rw [← Nat.and_forall_add_one]
  rfl

theorem paired_cons :
    Paired (u :: us) ↔ isLow u = false ∧ isHigh u = us[0]?.any isLow ∧ Matched us := by
  unfold Paired
  rw [matched_cons]
  rfl

theorem isHigh_iff : isHigh u = true ↔ 0xD800 ≤ u ∧ u ≤ 0xDBFF := by simp [isHigh]

theorem isLow_iff : isLow u = true ↔ 0xDC00 ≤ u ∧ u ≤ 0xDFFF := by simp [isLow]

theorem not_low (high : isHigh u = true) : isLow u = false := by
  rw [Bool.eq_false_iff, Ne, isLow_iff]
  rw [isHigh_iff] at high
  omega

theorem not_high (low : isLow u = true) : isHigh u = false :=
  Bool.eq_false_iff.2 fun high => by rw [not_low high] at low; cases low

/-- A unit is a character of its own unless it is a surrogate. -/
theorem decodeChars_plain (notHigh : isHigh u = false) (notLow : isLow u = false) (rest : List Nat) :
    decodeChars (u :: rest) = (decodeChars rest).map (Char.ofNat u :: ·) := by
  cases rest <;> simp [decodeChars, notHigh, notLow]

theorem decodeChars_pair (high : isHigh u = true) (low : isLow v = true) (rest : List Nat) :
    decodeChars (u :: v :: rest) =
      (decodeChars rest).map (Char.ofNat (0x10000 + (u - 0xD800) * 0x400 + (v - 0xDC00)) :: ·) := by
  rw [decodeChars, if_pos high, if_pos low]

theorem decodeChars_low (low : isLow u = true) (rest : List Nat) : decodeChars (u :: rest) = none := by
  cases rest <;> simp [decodeChars, not_high low, low]

theorem decodeChars_high (high : isHigh u = true) {rest : List Nat}
    (alone : rest[0]?.any isLow = false) : decodeChars (u :: rest) = none := by
  cases rest with
  | nil => simp [decodeChars, high]
  | cons v rest =>
    have notLow : isLow v = false := alone
    rw [decodeChars, if_pos high, if_neg (by rw [notLow]; decide)]

/-- Units begin with one that is no surrogate, with a pair of surrogates, or with one that stands
alone. -/
@[elab_as_elim]
theorem induction_on {motive : List Nat → Prop} (us : List Nat) (nil : motive [])
    (plain : ∀ u rest, isHigh u = false → isLow u = false → motive rest → motive (u :: rest))
    (pair : ∀ u v rest, isHigh u = true → isLow v = true → motive rest → motive (u :: v :: rest))
    (low : ∀ u rest, isLow u = true → motive (u :: rest))
    (high : ∀ u rest, isHigh u = true → rest[0]?.any isLow = false → motive (u :: rest)) :
    motive us := by
  induction us using decodeChars.induct with
  | case1 => exact nil
  | case2 u surrogate =>
    rcases Bool.or_eq_true_iff.1 surrogate with isHigh | isLow
    · exact high u [] isHigh rfl
    · exact low u [] isLow
  | case3 u plainUnit =>
    obtain ⟨notHigh, notLow⟩ := Bool.or_eq_false_iff.1 (Bool.eq_false_iff.2 plainUnit)
    exact plain u [] notHigh notLow nil
  | case4 u v rest isHigh isLow ih => exact pair u v rest isHigh isLow ih
  | case5 u v rest isHigh notLow => exact high u (v :: rest) isHigh (Bool.eq_false_iff.2 notLow)
  | case6 u v rest _ isLow => exact low u (v :: rest) isLow
  | case7 u v rest notHigh notLow ih =>
    exact plain u (v :: rest) (Bool.eq_false_iff.2 notHigh) (Bool.eq_false_iff.2 notLow) ih

/-- Units spell characters exactly if no surrogate among them stands alone. -/
theorem isSome_decodeChars (us : List Nat) : (decodeChars us).isSome ↔ Paired us := by
  induction us using induction_on with
  | nil => exact ⟨fun _ => ⟨rfl, matched_nil⟩, fun _ => rfl⟩
  | plain u rest notHigh notLow ih =>
    rw [decodeChars_plain notHigh notLow, Option.isSome_map, ih, paired_cons, notHigh, notLow]
    exact ⟨fun ⟨head, matched⟩ => ⟨rfl, head.symm, matched⟩,
      fun ⟨_, head, matched⟩ => ⟨head.symm, matched⟩⟩
  | pair u v rest high low ih =>
    rw [decodeChars_pair high low, Option.isSome_map, ih, paired_cons, matched_cons, not_low high,
      high, not_high low]
    exact ⟨fun ⟨head, matched⟩ => ⟨rfl, low.symm, head.symm, matched⟩,
      fun ⟨_, _, head, matched⟩ => ⟨head.symm, matched⟩⟩
  | low u rest low => simp [decodeChars_low low, paired_cons, low]
  | high u rest high alone => simp [decodeChars_high high alone, paired_cons, high, alone]

/-! ### The units of a character -/

theorem units_plain (small : u < 2 ^ 16) (notHigh : isHigh u = false) (notLow : isLow u = false) :
    units (Char.ofNat u) = [u] := by
  rw [Bool.eq_false_iff, Ne, isHigh_iff] at notHigh
  rw [Bool.eq_false_iff, Ne, isLow_iff] at notLow
  have whole : (Char.ofNat u).toNat = u :=
    Utf8.val_ofNat (show u < 0xD800 ∨ 0xDFFF < u ∧ u < 0x110000 by omega)
  rw [units, whole]
  exact if_pos small

theorem units_pair (high : isHigh u = true) (low : isLow v = true) :
    units (Char.ofNat (0x10000 + (u - 0xD800) * 0x400 + (v - 0xDC00))) = [u, v] := by
  rw [isHigh_iff] at high
  rw [isLow_iff] at low
  generalize place : 0x10000 + (u - 0xD800) * 0x400 + (v - 0xDC00) = n
  have whole : (Char.ofNat n).toNat = n := Utf8.val_ofNat (.inr (by omega))
  have first : 0xD800 + (n - 0x10000) / 0x400 = u := by omega
  have second : 0xDC00 + (n - 0x10000) % 0x400 = v := by omega
  rw [units, whole, if_neg (by omega), first, second]

theorem decodeChars_units (c : Char) (rest : List Nat) :
    decodeChars (units c ++ rest) = (decodeChars rest).map (c :: ·) := by
  have valid : c.toNat < 0xD800 ∨ 0xDFFF < c.toNat ∧ c.toNat < 0x110000 := c.valid
  have back : ∀ v, v = c.toNat → Char.ofNat v = c := fun v h => h ▸ Char.ofNat_toNat c
  unfold units
  split
  · rw [List.singleton_append, decodeChars_plain, back _ rfl]
    · rw [Bool.eq_false_iff, Ne, isHigh_iff]
      omega
    · rw [Bool.eq_false_iff, Ne, isLow_iff]
      omega
  · rw [List.cons_append, List.singleton_append, decodeChars_pair, back _ (by omega)]
    · rw [isHigh_iff]
      omega
    · rw [isLow_iff]
      omega

theorem units_lt (c : Char) : ∀ u ∈ units c, u < 2 ^ 16 := by
  have valid : c.toNat < 0xD800 ∨ 0xDFFF < c.toNat ∧ c.toNat < 0x110000 := c.valid
  unfold units
  split
  · simpa
  · simp
    omega

/-! ### The units of a text -/

theorem eq_flatMap_of_decodeChars {us : List Nat} {chars : List Char} (small : ∀ u ∈ us, u < 2 ^ 16)
    (run : decodeChars us = some chars) : us = chars.flatMap units := by
  induction us using induction_on generalizing chars with
  | nil =>
    cases run
    rfl
  | plain u rest notHigh notLow ih =>
    obtain ⟨smallHead, smallRest⟩ := List.forall_mem_cons.1 small
    rw [decodeChars_plain notHigh notLow] at run
    obtain ⟨others, inner, rfl⟩ := Option.map_eq_some_iff.1 run
    rw [List.flatMap_cons, units_plain smallHead notHigh notLow, List.singleton_append,
      ← ih smallRest inner]
  | pair u v rest high low ih =>
    rw [decodeChars_pair high low] at run
    obtain ⟨others, inner, rfl⟩ := Option.map_eq_some_iff.1 run
    rw [List.flatMap_cons, units_pair high low,
      ← ih (fun w mem => small w (.tail _ (.tail _ mem))) inner]
    rfl
  | low u rest low =>
    rw [decodeChars_low low] at run
    cases run
  | high u rest high alone =>
    rw [decodeChars_high high alone] at run
    cases run

theorem decodeChars_flatMap (chars : List Char) : decodeChars (chars.flatMap units) = some chars := by
  induction chars with
  | nil => rfl
  | cons c chars ih => rw [List.flatMap_cons, decodeChars_units, ih, Option.map_some]

theorem encode_lt (s : String) : ∀ u ∈ encode s, u < 2 ^ 16 := by
  intro u mem
  obtain ⟨c, -, part⟩ := List.mem_flatMap.1 mem
  exact units_lt c u part

theorem decode_eq_some_iff {s : String} (small : ∀ u ∈ us, u < 2 ^ 16) :
    decode us = some s ↔ us = encode s := by
  constructor
  · intro run
    obtain ⟨chars, inner, rfl⟩ := Option.map_eq_some_iff.1 run
    rw [encode, String.toList_ofList]
    exact eq_flatMap_of_decodeChars small inner
  · rintro rfl
    rw [decode, encode, decodeChars_flatMap, Option.map_some, String.ofList_toList]

/-! ### Bytes of units -/

/-- Bytes are those of units exactly if they come in twos. -/
theorem pairs_eq_some_iff {payload : List UInt8} :
    pairs payload = some us ↔ (∀ u ∈ us, u < 2 ^ 16) ∧ payload = bytes us := by
  induction payload using pairs.induct generalizing us with
  | case1 => cases us <;> simp [pairs, bytes]
  | case2 b => cases us <;> simp [pairs, bytes]
  | case3 low high rest ih =>
    have lowByte := UInt8.toNat_lt low
    have highByte := UInt8.toNat_lt high
    constructor
    · intro run
      obtain ⟨others, inner, rfl⟩ := Option.map_eq_some_iff.1 run
      obtain ⟨small, rfl⟩ := ih.1 inner
      have first : (low.toNat + 256 * high.toNat) % 256 = low.toNat := by omega
      have second : (low.toNat + 256 * high.toNat) / 256 = high.toNat := by omega
      refine ⟨List.forall_mem_cons.2 ⟨by omega, small⟩, ?_⟩
      simp [bytes, first, second]
    · rintro ⟨small, split⟩
      cases us with
      | nil => cases split
      | cons u us =>
        obtain ⟨smallHead, smallRest⟩ := List.forall_mem_cons.1 small
        simp only [bytes, List.flatMap_cons, List.cons_append, List.nil_append, List.cons.injEq] at split
        obtain ⟨rfl, rfl, rest⟩ := split
        rw [pairs, ih.2 ⟨smallRest, rest⟩]
        simp
        omega

end Utf16

/-! ## Payloads -/

/-- The bytes of a text in an encoding, absent if a character is beyond the encoding. -/
def TextEncoding.spelling? : TextEncoding → String → Option (List UInt8)
  | latin1, s =>
    if s.toList.all (·.toNat ≤ 0xFF) then some (s.toList.map (·.toNat.toUInt8)) else none
  | utf16, s => some (Utf16.bytes (Utf16.encode s))
  | utf8, s => some (Utf8.encode s)

/-- What an encoding asks of the bytes of a text. -/
def TextEncoding.WellFormed : TextEncoding → List UInt8 → Prop
  | latin1, _ => True
  | utf16, payload =>
    ∃ units, (∀ u ∈ units, u < 2 ^ 16) ∧ payload = Utf16.bytes units ∧ Utf16.Paired units
  | utf8, payload => payload.toByteArray.IsValidUTF8

namespace Decode

theorem latin1_eq_iff {octets : List UInt8} {s : String} :
    latin1 octets = s ↔ TextEncoding.latin1.spelling? s = some octets := by
  have small (b : UInt8) : (Char.ofNat b.toNat).toNat = b.toNat :=
    Utf8.val_ofNat (.inl (by have := UInt8.toNat_lt b; omega))
  unfold latin1
  constructor
  · rintro rfl
    have within : (octets.map fun b => Char.ofNat b.toNat).all (·.toNat ≤ 0xFF) = true := by
      rw [List.all_eq_true]
      intro c mem
      obtain ⟨b, -, rfl⟩ := List.mem_map.1 mem
      have := UInt8.toNat_lt b
      rw [small, decide_eq_true_eq]
      omega
    rw [TextEncoding.spelling?, String.toList_ofList, if_pos within, List.map_map]
    simp [Function.comp_def, small]
  · intro spelled
    rw [TextEncoding.spelling?, Option.ite_none_right_eq_some, Option.some.injEq] at spelled
    obtain ⟨within, rfl⟩ := spelled
    rw [List.all_eq_true] at within
    have back : ∀ c ∈ s.toList, Char.ofNat c.toNat.toUInt8.toNat = c := by
      intro c mem
      have := of_decide_eq_true (within c mem)
      have same : c.toNat.toUInt8.toNat = c.toNat := by simp; omega
      rw [same, Char.ofNat_toNat]
    have whole : (s.toList.map (·.toNat.toUInt8)).map (fun b => Char.ofNat b.toNat) = s.toList := by
      rw [List.map_map]
      exact (List.map_congr_left back).trans (List.map_id _)
    rw [whole, String.ofList_toList]

theorem parses_utf8 (role : TextRole) (octets : List UInt8) :
    Parses (utf8 role octets) fun bytes s => bytes = [] ∧ octets = Utf8.encode s := by
  simp only [← Utf8.decode_eq_ok_iff]
  unfold utf8
  cases Utf8.decode octets with
  | ok s => exact (Parses.pure s).congr fun bytes t => by simp [eq_comm]
  | error fault => exact (Parses.throw _).congr fun bytes t => by simp

theorem parses_utf16 (octets : List UInt8) :
    Parses (utf16 octets) fun bytes s => bytes = [] ∧ octets = Utf16.bytes (Utf16.encode s) := by
  have spelled (s : String) : octets = Utf16.bytes (Utf16.encode s) ↔
      Utf16.pairs octets = some (Utf16.encode s) := by
    rw [Utf16.pairs_eq_some_iff]
    exact ⟨fun same => ⟨Utf16.encode_lt s, same⟩, And.right⟩
  simp only [spelled]
  unfold utf16
  cases found : Utf16.pairs octets with
  | none => exact (Parses.throw _).congr fun bytes s => by simp
  | some units =>
    have small := (Utf16.pairs_eq_some_iff.1 found).1
    simp only [Option.some.injEq, ← Utf16.decode_eq_some_iff small]
    cases Utf16.decode units with
    | some s => exact (Parses.pure s).congr fun bytes t => by simp [eq_comm]
    | none => exact (Parses.throw _).congr fun bytes t => by simp

/-- A payload is read as the text that it spells. -/
theorem parses_textPayload (encoding : TextEncoding) (length : Nat) :
    Parses (textPayload encoding.code length) fun bytes s =>
      bytes.length = length ∧ encoding.spelling? s = some bytes := by
  have text (octets : List UInt8) :
      Parses (if encoding.code = TextEncoding.utf8.code then utf8 .string octets
        else if encoding.code = TextEncoding.latin1.code then pure (latin1 octets)
        else if encoding.code = TextEncoding.utf16.code then utf16 octets
        else throw (.unsupportedStringEncoding encoding.code))
        fun bytes s => bytes = [] ∧ encoding.spelling? s = some octets := by
    cases encoding with
    | latin1 =>
      refine (Parses.pure (latin1 octets)).congr fun bytes s => ?_
      rw [← latin1_eq_iff, eq_comm (a := s)]
    | utf16 =>
      refine (parses_utf16 octets).congr fun bytes s => ?_
      rw [TextEncoding.spelling?, Option.some.injEq, eq_comm (a := octets)]
    | utf8 =>
      refine (parses_utf8 .string octets).congr fun bytes s => ?_
      rw [TextEncoding.spelling?, Option.some.injEq, eq_comm (a := octets)]
  refine ((parses_bytes length).bind text).congr fun bytes s => ?_
  constructor
  · rintro ⟨front, octets, back, rfl, ⟨rfl, size⟩, rfl, spelled⟩
    rw [List.append_nil]
    exact ⟨size, spelled⟩
  · rintro ⟨size, spelled⟩
    exact ⟨bytes, bytes, [], (List.append_nil _).symm, ⟨rfl, size⟩, rfl, spelled⟩

end Decode

namespace TextEncoding

theorem exists_spelling_iff (encoding : TextEncoding) (payload : List UInt8) :
    (∃ s, encoding.spelling? s = some payload) ↔ encoding.WellFormed payload := by
  cases encoding with
  | latin1 =>
    have spelled := Decode.latin1_eq_iff.1 (rfl : Decode.latin1 payload = _)
    exact ⟨fun _ => trivial, fun _ => ⟨_, spelled⟩⟩
  | utf16 =>
    constructor
    · rintro ⟨s, spelled⟩
      cases spelled
      refine ⟨_, Utf16.encode_lt s, rfl, ?_⟩
      rw [← Utf16.isSome_decodeChars, Utf16.encode, Utf16.decodeChars_flatMap]
      rfl
    · rintro ⟨units, small, rfl, paired⟩
      obtain ⟨chars, run⟩ := Option.isSome_iff_exists.1 ((Utf16.isSome_decodeChars units).2 paired)
      refine ⟨String.ofList chars, ?_⟩
      rw [spelling?, Utf16.encode, String.toList_ofList, ← Utf16.eq_flatMap_of_decodeChars small run]
  | utf8 =>
    rw [WellFormed, Utf8.isValidUTF8_iff]
    simp only [spelling?, Option.some.injEq, eq_comm]

end TextEncoding

/-- A payload of any encoding is read as the text that it spells there, and there is one exactly if the
payload is well-formed. -/
theorem Decode.textPayload_spelled (encoding : TextEncoding) (payload : List UInt8) (p : Nat)
    (rest : List UInt8) :
    (∀ s r, textPayload encoding.code payload.length ⟨p, payload ++ rest⟩ = .ok s r ↔
      encoding.spelling? s = some payload ∧ r = ⟨p + payload.length, rest⟩) ∧
    ((∃ s r, textPayload encoding.code payload.length ⟨p, payload ++ rest⟩ = .ok s r) ↔
      encoding.WellFormed payload) := by
  have read (s : String) (r : Reader) :
      textPayload encoding.code payload.length ⟨p, payload ++ rest⟩ = .ok s r ↔
        encoding.spelling? s = some payload ∧ r = ⟨p + payload.length, rest⟩ := by
    rw [parses_textPayload encoding payload.length]
    constructor
    · rintro ⟨bytes, split, moved, size, spelled⟩
      obtain ⟨rfl, rest⟩ := List.append_inj split size.symm
      exact ⟨spelled, by rw [rest, ← moved]⟩
    · rintro ⟨spelled, rfl⟩
      exact ⟨payload, rfl, rfl, rfl, spelled⟩
  refine ⟨read, ?_⟩
  rw [← encoding.exists_spelling_iff]
  simp only [read]
  exact ⟨fun ⟨s, _, spelled, _⟩ => ⟨s, spelled⟩, fun ⟨s, spelled⟩ => ⟨s, _, spelled, rfl⟩⟩

end Graphwire
