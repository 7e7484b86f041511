import Graphwire.Proofs.DefinitionRoundTrip

/-!
# Items in a row

A writer appends items to its bytes: numbers of every kind in every layout, truth values, floating-point
numbers by their bits, texts, binaries, bytes as they are and room for later ones. A reader is told the
forms of the items, but nothing of their values and not where they end, except for bytes as they are and
for room. It gets all items back, in their order and whatever follows, and each of its reads takes
exactly the bytes that the write of the item has appended.
-/

namespace Graphwire

set_option autoImplicit false

/-- What a writer appends at a time. A number in full has the width of its kind; in groups it counts as
one of 64 bits or of 32, with its sign folded in if there is one; tagged it counts as one of 64 bits. -/
inductive Item where
  | number (n : Integer) (layout : IntLayout)
  | truth (b : Bool)
  | float32 (bits : UInt32)
  | float64 (bits : UInt64)
  | text (s : String)
  | binary (bytes : List UInt8)
  | raw (bytes : List UInt8)
  | room (length : Nat)
  deriving DecidableEq, Repr

/-- What a reader is told of an item. -/
inductive Form where
  | number (kind : IntKind) (layout : IntLayout)
  | truth
  | float32
  | float64
  | text
  | binary
  | raw (length : Nat)
  | room (length : Nat)
  deriving DecidableEq, Repr

/-- What a reader gets. -/
inductive Datum where
  | number (n : Int)
  | truth (b : Bool)
  | bits (n : Nat)
  | text (s : String)
  | bytes (bytes : List UInt8)
  | nothing
  deriving DecidableEq, Repr

namespace Item

/-- The bytes that are appended for an item. -/
def encode : Item → List UInt8
  | number n layout => Encode.integer n.kind layout n.val
  | truth b => Encode.bool b
  | float32 bits => Encode.littleEndian 4 bits.toNat
  | float64 bits => Encode.littleEndian 8 bits.toNat
  | text s => Encode.text s
  | binary bytes => Encode.binary bytes
  | raw bytes => bytes
  | room length => List.replicate length 0

def form : Item → Form
  | number n layout => .number n.kind layout
  | truth _ => .truth
  | float32 _ => .float32
  | float64 _ => .float64
  | text _ => .text
  | binary _ => .binary
  | raw bytes => .raw bytes.length
  | room length => .room length

def datum : Item → Datum
  | number n _ => .number n.val
  | truth b => .truth b
  | float32 bits => .bits bits.toNat
  | float64 bits => .bits bits.toNat
  | text s => .text s
  | binary bytes => .bytes bytes
  | raw bytes => .bytes bytes
  | room _ => .nothing

/-- Whether the length of an item can be told: 32 bits are there for that of a binary, and 62 bits for
that of a text, which is more than there is memory. -/
def Fits : Item → Prop
  | text s => (Utf8.encode s).length < 2 ^ 62
  | binary bytes => bytes.length < 2 ^ 32
  | _ => True

instance : DecidablePred Fits
  | text s => inferInstanceAs (Decidable ((Utf8.encode s).length < 2 ^ 62))
  | binary bytes => inferInstanceAs (Decidable (bytes.length < 2 ^ 32))
  | number .. | truth _ | float32 _ | float64 _ | raw _ | room _ => .isTrue trivial

/-- The bytes of a writer that has appended items. -/
def dump (items : List Item) : List UInt8 := items.flatMap encode

end Item

namespace Form

/-- Reads an item of the form. -/
def read : Form → Decode Datum
  | number kind layout => .number <$> Decode.number kind layout
  | truth => .truth <$> Decode.bool
  | float32 => .bits <$> Decode.littleEndian 4
  | float64 => .bits <$> Decode.littleEndian 8
  | text => .text <$> Decode.text
  | binary => do
    let length ← Decode.varuint32
    .bytes <$> Decode.bytes length
  | raw length => .bytes <$> Decode.bytes length
  | room length => (fun _ => .nothing) <$> Decode.skip length

/-- Reads items of the forms one after another, and takes down the bytes over which each read moves. -/
def readAll : List Form → Decode (List (Datum × List UInt8))
  | [] => return []
  | form :: forms => do
    let before ← get
    let datum ← form.read
    let after ← get
    let others ← readAll forms
    return (datum, before.rest.take (after.position - before.position)) :: others

end Form

/-! ## Positions -/

namespace Decode

variable {α : Type}

/-- A tagged number is read from its tag on or from right behind it, and counted from its tag on. -/
theorem counts_tagged {small large : Decode α} (hs : Counts small) (hl : Counts large) :
    Counts (tagged small large) := by
  rintro ⟨p, input⟩ a r' run
  cases input with
  | nil => cases run
  | cons b rest =>
    have chosen : (if b.toNat % 2 = 0 then
        (set (Reader.mk p (b :: rest)) >>= fun _ => small : Decode α) else large) ⟨p + 1, rest⟩ =
        .ok a r' := run
    split at chosen
    · exact hs _ _ _ chosen
    · have same := hl _ _ _ chosen
      simp only [Reader.total, List.length_cons] at same ⊢
      omega

theorem counts_number (kind : IntKind) (layout : IntLayout) : Counts (number kind layout) := by
  unfold number
  cases layout with
  | fixed =>
    dsimp only
    split
    · exact counts_signed _
    · exact (counts_littleEndian _).map _
  | groups =>
    dsimp only
    split <;> split
    · exact counts_varint64
    · exact counts_varuint64.map _
    · exact counts_varuint32.bind fun _ => .pure _
    · exact counts_varuint32.map _
  | tagged =>
    dsimp only
    split
    · exact counts_tagged ((counts_signed 4).bind fun _ => .pure _) (counts_signed 8)
    · exact (counts_tagged ((counts_littleEndian 4).bind fun _ => .pure _) (counts_littleEndian 8)).map _

theorem counts_textPayload (encoding length : Nat) : Counts (textPayload encoding length) := by
  refine (counts_bytes length).bind fun octets => ?_
  split
  · unfold utf8
    split
    · exact .pure _
    · exact .throw _
  · split
    · exact .pure _
    · split
      · unfold utf16
        split
        · exact .throw _
        · split
          · exact .pure _
          · exact .throw _
      · exact .throw _

theorem counts_text : Counts text :=
  (counts_varuint64.bind fun _ => .pure _).bind fun _ => counts_textPayload _ _

theorem counts_read (form : Form) : Counts form.read := by
  cases form with
  | number kind layout => exact (counts_number kind layout).map _
  | truth => exact (counts_octet.bind fun _ => .pure _).map _
  | float32 => exact (counts_littleEndian 4).map _
  | float64 => exact (counts_littleEndian 8).map _
  | text => exact counts_text.map _
  | binary => exact counts_varuint32.bind fun length => (counts_bytes length).map _
  | raw length => exact (counts_bytes length).map _
  | room length => exact ((counts_bytes length).bind fun _ => .pure _).map _

/-! ## Reading items back -/

theorem yields_text {s : String} (h : (Utf8.encode s).length < 2 ^ 62) :
    Yields text (Encode.text s) s :=
  (yields_textHeader h).bind (yields_textPayload s)

theorem yields_read {item : Item} (fits : item.Fits) :
    Yields item.form.read item.encode item.datum := by
  cases item with
  | number n layout => exact (yields_number n layout).map _
  | truth b => exact (yields_bool b).map _
  | float32 bits =>
    have small : bits.toNat % 256 ^ 4 = bits.toNat := Nat.mod_eq_of_lt (UInt32.toNat_lt bits)
    have whole := (yields_littleEndian 4 bits.toNat).map Datum.bits
    rwa [small] at whole
  | float64 bits =>
    have small : bits.toNat % 256 ^ 8 = bits.toNat := Nat.mod_eq_of_lt (UInt64.toNat_lt bits)
    have whole := (yields_littleEndian 8 bits.toNat).map Datum.bits
    rwa [small] at whole
  | text s => exact (yields_text fits).map _
  | binary bytes => exact (yields_varuint32 fits).bind ((yields_bytes bytes).map _)
  | raw bytes => exact (yields_bytes bytes).map _
  | room length =>
    have skipped : Yields (skip (List.replicate length (0 : UInt8)).length)
        (List.replicate length 0) () :=
      (yields_bytes (List.replicate length 0)).then (.pure ())
    rw [List.length_replicate] at skipped
    exact skipped.map _

end Decode

/-- A read gives the value that was written, and takes the bytes that the write has appended. -/
theorem Item.read_encode {item : Item} (fits : item.Fits) (p : Nat) (rest : List UInt8) :
    item.form.read ⟨p, item.encode ++ rest⟩ = .ok item.datum ⟨p + item.encode.length, rest⟩ :=
  (Decode.yields_read fits).stops (Decode.counts_read _) p rest

/-- A reader gets all items that a writer has appended, in their order and whatever follows, and each
read takes the bytes that the write has appended. -/
theorem Form.readAll_dump (items : List Item) (fits : ∀ item ∈ items, item.Fits) (p : Nat)
    (trailing : List UInt8) :
    readAll (items.map Item.form) ⟨p, Item.dump items ++ trailing⟩ =
      .ok (items.map fun item => (item.datum, item.encode))
        ⟨p + (Item.dump items).length, trailing⟩ := by
  induction items generalizing p with
  | nil => rfl
  | cons item items ih =>
    obtain ⟨fitsHead, fitsRest⟩ := List.forall_mem_cons.1 fits
    have dumped : Item.dump (item :: items) = item.encode ++ Item.dump items := List.flatMap_cons
    have taken : (item.encode ++ (Item.dump items ++ trailing)).take (p + item.encode.length - p) =
        item.encode := by
      rw [Nat.add_sub_cancel_left, List.take_left]
    have others := ih fitsRest (p + item.encode.length)
    rw [dumped, List.append_assoc, List.map_cons, readAll, Decode.bind_of_get, Decode.bind_apply,
      Item.read_encode fitsHead]
    dsimp only
    rw [Decode.bind_of_get, Decode.bind_apply, others]
    dsimp only
    rw [taken, List.length_append, ← Nat.add_assoc]
    rfl

/-- Items of every form, the numbers among them where their layouts change or end. -/
def Item.assorted : List Item :=
  [.number ⟨.int64, -2 ^ 63, by decide⟩ .groups, .number ⟨.uint64, 2 ^ 64 - 1, by decide⟩ .groups,
    .number ⟨.int64, -2 ^ 30, by decide⟩ .tagged, .number ⟨.int64, -2 ^ 30 - 1, by decide⟩ .tagged,
    .number ⟨.uint64, 2 ^ 31, by decide⟩ .tagged, .number ⟨.int32, 64, by decide⟩ .groups,
    .number ⟨.uint32, 2 ^ 32 - 1, by decide⟩ .groups, .number ⟨.int8, -1, by decide⟩ .fixed,
    .truth true, .float32 0x7FC00001, .float64 0xFFF8000000000001, .text "é", .binary [0x80],
    .raw [1, 2, 3], .room 2]

theorem Form.readAll_assorted :
    (∀ item ∈ Item.assorted, item.Fits) ∧
    readAll (Item.assorted.map Item.form) ⟨0, Item.dump Item.assorted ++ [0xFF]⟩ =
      .ok (Item.assorted.map fun item => (item.datum, item.encode)) ⟨71, [0xFF]⟩ := by
  have fits : ∀ item ∈ Item.assorted, item.Fits := by decide
  have length : (Item.dump Item.assorted).length = 71 := by decide
  have read := readAll_dump Item.assorted fits 0 [0xFF]
  rw [length] at read
  exact ⟨fits, read⟩

end Graphwire
