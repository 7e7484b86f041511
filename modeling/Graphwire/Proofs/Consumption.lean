import Graphwire.Instance
import Graphwire.Proofs.Plans

/-!
# What decoders consume

Every decoder moves the reader on, and none goes back behind its start. Whatever stands for a value,
a marker, a size or a type takes a byte at least. So a loop over a declared number of things needs no
more rounds than there are bytes, and one round more to find out that there are none left.
-/

namespace Graphwire

set_option autoImplicit false

/-- A loop whose rounds each make something smaller goes on no longer than that lets it. -/
theorem rounds_min {α σ : Type} {one : EStateM Error σ α} {size : σ → Nat}
    (rounds : Nat → EStateM Error σ (List α))
    (next : ∀ n, rounds (n + 1) = do
      let first ← one
      let others ← rounds n
      return first :: others)
    (smaller : ∀ s a t, one s = .ok a t → size t < size s) (n : Nat) {bound : Nat} (s : σ)
    (enough : size s < bound) : rounds n s = rounds (min n bound) s := by
  induction n generalizing bound s with
  | zero => rw [Nat.zero_min]
  | succ n ih =>
    obtain ⟨left, rfl⟩ : ∃ left, bound = left + 1 := ⟨bound - 1, by omega⟩
    rw [Nat.add_min_add_right, next, next]
    show EStateM.bind one _ s = EStateM.bind one _ s
    unfold EStateM.bind
    cases first : one s with
    | error e t => rfl
    | ok a t =>
      have fewer := smaller s a t first
      have others : rounds n t = rounds (min n left) t := ih t (by omega)
      show EStateM.bind (rounds n) _ t = EStateM.bind (rounds (min n left)) _ t
      unfold EStateM.bind
      rw [others]

namespace Decode

variable {α β : Type} {m n : Nat}

theorem ok_of_bind {d : Decode α} {f : α → Decode β} {r r' : Reader} {b : β}
    (run : (d >>= f) r = .ok b r') : ∃ a s, d r = .ok a s ∧ f a s = .ok b r' := by
  have run : EStateM.bind d f r = .ok b r' := run
  unfold EStateM.bind at run
  cases first : d r with
  | ok a s =>
    rw [first] at run
    exact ⟨a, s, rfl, run⟩
  | error e s =>
    rw [first] at run
    cases run

/-- Whether a decoder that succeeds moves over at least so many bytes. -/
def Consumes (n : Nat) (d : Decode α) : Prop :=
  ∀ r a r', d r = .ok a r' → r'.remaining + n ≤ r.remaining

namespace Consumes

theorem pure (a : α) : Consumes 0 (pure a : Decode α) := by
  intro r b r' run
  cases run
  exact Nat.le_refl _

theorem throw (e : Error) : Consumes n (throw e : Decode α) := fun _ _ _ run => by cases run

theorem mono {d : Decode α} (h : Consumes m d) (le : n ≤ m) : Consumes n d :=
  fun r a r' run => Nat.le_trans (Nat.add_le_add_left le _) (h r a r' run)

theorem bind {d : Decode α} {f : α → Decode β} (hd : Consumes m d) (hf : ∀ a, Consumes n (f a)) :
    Consumes (m + n) (d >>= f) := by
  intro r b r' run
  obtain ⟨a, s, first, then_⟩ := ok_of_bind run
  have before := hd r a s first
  have after := hf a s b r' then_
  omega

/-- What comes after may consume nothing. -/
theorem andThen {d : Decode α} {f : α → Decode β} (hd : Consumes n d) (hf : ∀ a, Consumes 0 (f a)) :
    Consumes n (d >>= f) :=
  hd.bind hf

theorem map {d : Decode α} (hd : Consumes n d) (f : α → β) : Consumes n (f <$> d) := by
  rw [map_eq_pure_bind]
  exact hd.andThen fun _ => pure _

end Consumes

/-! ## Numbers -/

theorem consumes_bytes (n : Nat) : Consumes n (bytes n) := by
  intro r octets r' run
  unfold bytes at run
  rw [bind_of_get] at run
  cases found : splitExactly n r.rest with
  | some parts =>
    rw [found] at run
    cases run
    obtain ⟨size, split⟩ := splitExactly_eq_some_iff.1 found
    simp only [Reader.remaining, split, List.length_append]
    omega
  | none =>
    rw [found] at run
    cases run

theorem consumes_octet : Consumes 1 octet := by
  intro r n r' run
  rw [octet_eq] at run
  exact (consumes_bytes 1).map _ r n r' run

theorem consumes_littleEndian (width : Nat) : Consumes width (littleEndian width) :=
  (consumes_bytes width).andThen fun _ => .pure _

theorem consumes_signed (width : Nat) : Consumes width (signed width) :=
  (consumes_littleEndian width).andThen fun _ => .pure _

theorem consumes_groups {last : Decode Nat} (h : Consumes 0 last) (left : Nat) :
    Consumes 1 (groups last (left + 1)) := by
  induction left with
  | zero =>
    refine consumes_octet.andThen fun b => ?_
    split
    · exact .pure _
    · exact h.andThen fun _ => .pure _
  | succ left ih =>
    refine consumes_octet.andThen fun b => ?_
    split
    · exact .pure _
    · exact (ih.mono (Nat.zero_le _)).andThen fun _ => .pure _

theorem consumes_varuint32 : Consumes 1 varuint32 :=
  (consumes_groups (.throw _) 4).andThen fun _ => .pure _

theorem consumes_varuint64 : Consumes 1 varuint64 :=
  consumes_groups (consumes_octet.mono (Nat.zero_le _)) 7

theorem consumes_varint32 : Consumes 1 varint32 := consumes_varuint32.andThen fun _ => .pure _

theorem consumes_varint64 : Consumes 1 varint64 := consumes_varuint64.andThen fun _ => .pure _

/-- The byte with the tag is read again as the first of the small form. -/
theorem consumes_tagged {small large : Decode α} (hs : Consumes 1 small) (hl : Consumes 0 large) :
    Consumes 1 (tagged small large) := by
  intro r a r' run
  unfold tagged at run
  rw [bind_of_get] at run
  obtain ⟨head, s, first, then_⟩ := ok_of_bind run
  split at then_
  · exact hs r a r' then_
  · have before := consumes_octet r head s first
    have after := hl s a r' then_
    omega

theorem consumes_taggedInt64 : Consumes 1 taggedInt64 :=
  consumes_tagged (((consumes_signed 4).mono (by decide)).andThen fun _ => .pure _)
    ((consumes_signed 8).mono (by decide))

theorem consumes_taggedUint64 : Consumes 1 taggedUint64 :=
  consumes_tagged (((consumes_littleEndian 4).mono (by decide)).andThen fun _ => .pure _)
    ((consumes_littleEndian 8).mono (by decide))

theorem consumes_bool : Consumes 1 bool := consumes_octet.andThen fun _ => .pure _

theorem consumes_refFlag : Consumes 1 refFlag := by
  refine (consumes_signed 1).andThen fun code => ?_
  split
  · exact .pure _
  · exact .throw _

/-! ## Scalars -/

theorem consumes_utf8 (role : TextRole) (octets : List UInt8) : Consumes 0 (utf8 role octets) := by
  unfold utf8
  split
  · exact .pure _
  · exact .throw _

theorem consumes_textHeader : Consumes 1 textHeader := consumes_varuint64.andThen fun _ => .pure _

theorem consumes_textPayload (encoding length : Nat) : Consumes 0 (textPayload encoding length) := by
  refine ((consumes_bytes length).mono (Nat.zero_le _)).andThen fun octets => ?_
  split
  · exact consumes_utf8 _ _
  · split
    · exact .pure _
    · split
      · unfold utf16
        split
        · exact .throw _
        · split
          · exact .pure _
          · exact .throw _
      · exact .throw _

theorem consumes_integer (kind : IntKind) (layout : IntLayout) : Consumes 1 (integer kind layout) := by
  have wide : 1 ≤ kind.bytes := by cases kind <;> decide
  have last : ∀ {d : Decode Int}, Consumes 1 d →
      Consumes 1 (d >>= fun n => Pure.pure (Value.int (.wrap kind n))) :=
    fun h => h.andThen fun _ => .pure _
  cases layout with
  | fixed =>
    unfold integer
    dsimp only
    split
    · exact last ((consumes_signed _).mono wide)
    · exact last (((consumes_littleEndian _).mono wide).map _)
  | groups =>
    unfold integer
    dsimp only
    split
    · split
      · exact last consumes_varint64
      · exact last (consumes_varuint64.map _)
    · split
      · exact last consumes_varint32
      · exact last (consumes_varuint32.map _)
  | tagged =>
    unfold integer
    dsimp only
    split
    · exact last consumes_taggedInt64
    · exact last (consumes_taggedUint64.map _)

theorem consumes_day : Consumes 4 day := by
  refine (consumes_signed 4).andThen fun count => ?_
  split
  · exact .pure _
  · exact .throw _

theorem consumes_instant : Consumes 8 instant := by
  refine (consumes_signed 8).andThen fun micros => ?_
  split
  · exact .pure _
  · exact .throw _

theorem consumes_span : Consumes 1 span := by
  refine consumes_varint64.andThen fun seconds =>
    ((consumes_signed 4).mono (Nat.zero_le _)).andThen fun nanos => ?_
  split
  · exact .pure _
  · exact .throw _

/-! ## Definitions -/

theorem consumes_size {small limit : Nat} :
    Consumes 0 (if small = limit then (limit + ·) <$> varuint32 else Pure.pure small) := by
  split
  · exact (consumes_varuint32.mono (Nat.zero_le _)).map _
  · exact .pure _

theorem consumes_within (layer : List UInt8) (inner : Decode α) : Consumes 0 (within layer inner) := by
  unfold within
  split
  · exact .pure _
  · exact .throw _

theorem consumes_skipAfter (header : Int) : Consumes 0 (TypeDefinition.skipAfter header) :=
  consumes_size.andThen fun size =>
    ((consumes_bytes size).mono (Nat.zero_le _)).andThen fun _ => .pure _

theorem consumes_decodeAfter (header : Int) : Consumes 0 (TypeDefinition.decodeAfter header) :=
  consumes_size.andThen fun size =>
    ((consumes_bytes size).mono (Nat.zero_le _)).andThen fun layer => consumes_within layer _

theorem consumes_fieldTypeParts {part : Decode FieldType} (h : Consumes 0 part) (t : TypeId) :
    Consumes 0 (FieldType.decodeParts part t) := by
  unfold FieldType.decodeParts
  split
  · exact h.andThen fun _ => .pure _
  · split
    · exact h.andThen fun _ => h.andThen fun _ => .pure _
    · exact .pure _

theorem consumes_fieldTypePart (levels : Nat) : Consumes 0 (FieldType.decodePart levels) := by
  induction levels with
  | zero => exact .throw _
  | succ levels ih =>
    exact (consumes_varuint32.mono (Nat.zero_le _)).andThen fun header =>
      (consumes_fieldTypeParts ih _).andThen fun _ => .pure _

theorem consumes_fieldType (nullable tracked : Bool) :
    Consumes 1 (FieldType.decode nullable tracked) :=
  consumes_varuint32.andThen fun _ =>
    (consumes_fieldTypeParts (consumes_fieldTypePart _) _).andThen fun _ => .pure _

theorem consumes_fieldEntry : Consumes 1 FieldEntry.decode := by
  refine consumes_octet.andThen fun header => ?_
  dsimp only
  split
  case' isTrue => refine ((consumes_varuint32.mono (Nat.zero_le _)).map _).andThen fun size => ?_
  case' isFalse => refine (Consumes.pure _).andThen fun size => ?_
  all_goals
    refine ((consumes_fieldType _ _).mono (Nat.zero_le _)).andThen fun type => ?_
    split
    · exact ((consumes_bytes _).mono (Nat.zero_le _)).andThen fun octets =>
        (consumes_utf8 _ _).andThen fun _ => .pure _
    · split
      · exact .pure _
      · exact .throw _
    · exact .throw _

theorem consumes_head : Consumes 2 head := by
  have refused : ∀ (e : Error) (f : PUnit → Decode Bool), Consumes 0 (throw e >>= f) := by
    intro e f r a r' run
    obtain ⟨_, _, first, _⟩ := ok_of_bind run
    cases first
  refine (consumes_littleEndian 2).andThen fun magic => ?_
  dsimp only
  split
  · exact refused _ _
  · refine (consumes_octet.mono (Nat.zero_le _)).andThen fun flags => ?_
    split
    · exact refused _ _
    · split
      · exact refused _ _
      · exact .pure _

/-! ## Loops -/

/-- Whether a loop goes on no longer than there are bytes, whatever number is declared. -/
def Exhausts (one : Decode α) : Prop :=
  ∀ n r, many one n r = many one (min n (r.remaining + 1)) r

theorem exhausts_of_consumes {one : Decode α} (h : Consumes 1 one) : Exhausts one :=
  fun n r => rounds_min (many one) (fun _ => rfl) (fun r a r' run => h r a r' run) n r
    (Nat.lt_succ_self r.remaining)

theorem exhausts_fieldEntry : Exhausts FieldEntry.decode := exhausts_of_consumes consumes_fieldEntry

end Decode

end Graphwire
