import Graphwire.Proofs.History
import Graphwire.Proofs.OwnFrames
import Graphwire.Proofs.Parsing

/-!
# Definitions are bounded by their bytes

A definition declares the size of its layer, the number of its fields and the lengths of its names, and
a map has two parts on each of up to 64 levels. What is read is still no larger than the layer: an entry
takes its header byte, a type takes a byte for its code, and each of its parts takes one again. So the
bytes that are left pay for everything that a decoder gives, and a decoder which is told to read more
than they pay for is refused.
-/

namespace Graphwire

set_option autoImplicit false

/-! ## Sizes of types -/

namespace FieldType

mutual

/-- The number of types that a field type is made of, itself included. -/
def nodes : FieldType → Nat
  | mk _ _ _ generics => nodesAll generics + 1

def nodesAll : List FieldType → Nat
  | [] => 0
  | f :: rest => f.nodes + nodesAll rest

end

mutual

/-- How many levels of parts a field type has. -/
def depth : FieldType → Nat
  | mk _ _ _ generics => depthAll generics

/-- The levels of a type with the given parts. -/
def depthAll : List FieldType → Nat
  | [] => 0
  | f :: rest => max (f.depth + 1) (depthAll rest)

end

theorem one_le_nodes (f : FieldType) : 1 ≤ f.nodes := by
  obtain ⟨t, n, r, g⟩ := f
  exact Nat.le_add_left 1 _

theorem depthAll_le {levels : Nat} {generics : List FieldType}
    (h : ∀ f ∈ generics, f.depth + 1 ≤ levels) : depthAll generics ≤ levels := by
  induction generics with
  | nil => exact Nat.zero_le _
  | cons f rest ih =>
    obtain ⟨here, others⟩ := List.forall_mem_cons.1 h
    exact Nat.max_le.2 ⟨here, ih others⟩

/-- A part that fits into some levels has fewer levels of parts. -/
theorem Fits.depth_lt {levels : Nat} {f : FieldType} (fits : f.Fits levels) : f.depth < levels := by
  induction levels generalizing f with
  | zero => exact fits.elim
  | succ levels ih =>
    obtain ⟨t, n, r, g⟩ := f
    exact Nat.lt_succ_of_le (depthAll_le fun part member => ih (fits.2.2 part member))

theorem Tellable.depth_le {levels : Nat} {f : FieldType} (tellable : f.Tellable levels) :
    f.depth ≤ levels := by
  obtain ⟨t, n, r, g⟩ := f
  exact depthAll_le fun part member => (tellable.parts part member).depth_lt

end FieldType

/-! ## What bytes pay for -/

namespace Decode

variable {α β : Type} {credit n : Nat} {cost : α → Nat} {price : β → Nat}

/-- Whether the bytes that a decoder moves over pay for its result, with some credit that it is given. -/
def Pays (credit : Nat) (cost : α → Nat) (d : Decode α) : Prop :=
  ∀ r a r', d r = .ok a r' → r'.remaining + cost a ≤ r.remaining + credit

theorem Consumes.pays {d : Decode α} (h : Consumes n d) : Pays 0 (fun _ => n) d := h

namespace Pays

theorem pure {a : α} (covered : cost a ≤ credit) : Pays credit cost (pure a) := by
  intro r b r' run
  cases run
  exact Nat.add_le_add_left covered _

theorem throw (e : Error) : Pays credit cost (throw e : Decode α) := fun _ _ _ run => by cases run

/-- What was paid for first is credit for the rest. -/
theorem bind {d : Decode α} {f : α → Decode β} (hd : Pays 0 cost d)
    (hf : ∀ a, Pays (credit + cost a) price (f a)) : Pays credit price (d >>= f) := by
  intro r b r' run
  obtain ⟨a, s, first, then_⟩ := ok_of_bind run
  have before := hd r a s first
  have after := hf a s b r' then_
  omega

theorem either {c : Prop} [Decidable c] {d d' : Decode α} {f : α → Decode β} (hd : Consumes 0 d)
    (hd' : Consumes 0 d') (hf : ∀ a, Pays credit price (f a)) :
    Pays credit price (if c then d >>= f else d' >>= f) := by
  split
  · exact hd.pays.bind hf
  · exact hd'.pays.bind hf

theorem many {one : Decode α} (h : Pays 0 cost one) (n : Nat) :
    Pays 0 (fun items => (items.map cost).sum) (many one n) := by
  induction n with
  | zero => exact .pure (Nat.le_refl 0)
  | succ n ih =>
    refine h.bind fun first => ih.bind fun others => .pure ?_
    rw [List.map_cons, List.sum_cons, Nat.zero_add]

end Pays

end Decode

open Decode (Pays Consumes)

namespace FieldType

theorem pays_parts {part : Decode FieldType} (h : Pays 0 nodes part) (t : TypeId) :
    Pays 0 nodesAll (decodeParts part t) := by
  unfold decodeParts
  split
  · exact h.bind fun f => .pure (by simp [nodesAll])
  · split
    · exact h.bind fun key => h.bind fun value => .pure (by simp [nodesAll])
    · exact .pure (Nat.le_refl 0)

theorem pays_part (levels : Nat) : Pays 0 nodes (decodePart levels) := by
  induction levels with
  | zero => exact .throw _
  | succ levels ih =>
    refine Decode.consumes_varuint32.pays.bind fun header => ?_
    exact (pays_parts ih ⟨header / 4⟩).bind fun generics => .pure (by rw [nodes]; omega)

theorem pays_decode (nullable tracked : Bool) : Pays 0 nodes (decode nullable tracked) := by
  refine Decode.consumes_varuint32.pays.bind fun code => ?_
  exact (pays_parts (pays_part maxDepth) ⟨code⟩).bind fun generics => .pure (by rw [nodes]; omega)

end FieldType

namespace FieldEntry

/-- A byte for the header of an entry, and one for every part of its type. -/
def cost (e : FieldEntry) : Nat := e.type.nodes + 1

theorem two_le_cost (e : FieldEntry) : 2 ≤ e.cost := Nat.succ_le_succ e.type.one_le_nodes

theorem pays_decode : Pays 0 cost decode := by
  refine Decode.consumes_octet.pays.bind fun header => ?_
  refine Pays.either ((Decode.consumes_varuint32.mono (Nat.zero_le _)).map _) (.pure _) fun size => ?_
  refine (FieldType.pays_decode _ _).bind fun type => ?_
  have covered : type.nodes + 1 ≤ 0 + 1 + type.nodes := by omega
  split
  · exact ((Decode.consumes_bytes _).mono (Nat.zero_le _)).pays.bind fun octets =>
      (Decode.consumes_utf8 _ _).pays.bind fun _ => .pure covered
  · split
    · exact .pure covered
    · exact .throw _
  · exact .throw _

/-- A loop over entries goes on no longer than there are two bytes for each. -/
theorem many_decode_eq (n : Nat) (r : Reader) :
    Decode.many decode n r = Decode.many decode (min n (r.remaining / 2 + 1)) r := by
  have smaller : ∀ r e r', decode r = .ok e r' → r'.remaining / 2 < r.remaining / 2 := by
    intro r e r' run
    have paid := pays_decode r e r' run
    have two := e.two_le_cost
    omega
  exact rounds_min (Decode.many decode) (fun _ => rfl) smaller n r (Nat.lt_succ_self _)

end FieldEntry

/-! ## Definitions -/

theorem Decode.consumes_definitionName : Consumes 1 definitionName := by
  refine consumes_octet.andThen fun header => ?_
  dsimp only
  split
  · exact fun r a r' run => by obtain ⟨_, _, refused, _⟩ := ok_of_bind run; cases refused
  · have named (length : Nat) : Consumes 0 (bytes length >>= utf8 .typeName) :=
      ((consumes_bytes length).mono (Nat.zero_le _)).andThen fun octets => consumes_utf8 _ octets
    split
    · exact ((consumes_varuint32.mono (Nat.zero_le _)).map _).andThen named
    · exact (Consumes.pure _).andThen named

theorem TypeIdentity.consumes_decode (byName : Bool) : Consumes 1 (decode byName) := by
  cases byName with
  | true =>
    exact Decode.consumes_definitionName.andThen fun package =>
      (Decode.consumes_definitionName.mono (Nat.zero_le _)).andThen fun typeName => .pure _
  | false => exact Decode.consumes_varuint32.andThen fun id => .pure _

namespace TypeDefinition

/-- Whether a definition is no larger than a layer of so many bytes can tell. -/
structure BoundedBy (size : Nat) (d : TypeDefinition) : Prop where
  fields : 2 * d.fields.length ≤ size
  types : (d.fields.map (·.type.nodes)).sum ≤ size
  depth : ∀ e ∈ d.fields, e.type.depth ≤ 64

theorem pays_decodeLayer (header : Int) :
    Pays 0 (fun d => (d.fields.map FieldEntry.cost).sum) (decodeLayer header) := by
  refine (Decode.consumes_octet.mono (Nat.zero_le _)).pays.bind fun byte => ?_
  refine Pays.either ((Decode.consumes_varuint32.mono (Nat.zero_le _)).map _) (.pure _) fun count => ?_
  refine ((TypeIdentity.consumes_decode _).mono (Nat.zero_le _)).pays.bind fun _ => ?_
  refine (FieldEntry.pays_decode.many count).bind fun entries => .pure ?_
  exact Nat.le_add_left _ _

theorem gives_decodeLayer (header : Int) : (decodeLayer header).Gives fun d =>
    ∀ e ∈ d.fields, e.type.Tellable FieldType.maxDepth := by
  refine (Decode.Gives.true _).bind fun byte _ => Decode.Gives.either fun count => ?_
  refine (Decode.Gives.true _).bind fun identity _ => ?_
  exact (Decode.gives_many FieldEntry.gives_decode count).bind fun _ tellable => .pure tellable

theorem boundedBy_of_parse {header : Int} {bytes : List UInt8} {d : TypeDefinition}
    (read : parse header bytes = .ok d) : d.BoundedBy bytes.length := by
  unfold parse at read
  split at read <;> cases read
  rename_i r' run
  have paid : r'.remaining + (d.fields.map FieldEntry.cost).sum ≤ bytes.length :=
    pays_decodeLayer header _ _ _ run
  have total : (d.fields.map FieldEntry.cost).sum =
      (d.fields.map (·.type.nodes)).sum + d.fields.length := by
    show (d.fields.map fun e => e.type.nodes + 1).sum = _
    rw [List.sum_map_add, List.map_const', List.sum_replicate_nat, Nat.mul_one]
  have fewer : d.fields.length ≤ (d.fields.map (·.type.nodes)).sum := by
    refine Nat.le_trans (by rw [List.length_map]) (List.length_le_sum_of_one_le _ ?_)
    exact List.forall_mem_map.2 fun e _ => e.type.one_le_nodes
  exact ⟨by omega, by omega, fun e member => (gives_decodeLayer header _ _ _ run e member).depth_le⟩

/-- What follows a header is refused, or read up to the end of the layer that it declares, as a
definition that the layer pays for; and the loop over its entries makes no more than half as many rounds
as there are bytes, and one to find out that none are left, whatever number is declared. -/
theorem decodeAfter_bounded (header : Int) (r : Reader) :
    ((∃ e r', decodeAfter header r = .error e r') ∨
      ∃ d r' size start layer, decodeAfter header r = .ok d r' ∧ decodeSize header r = .ok size start ∧
        start.rest = layer ++ r'.rest ∧ layer.length = size ∧ r'.position = start.position + size ∧
        d.BoundedBy size) ∧
    ∀ count reader, Decode.many FieldEntry.decode count reader =
      Decode.many FieldEntry.decode (min count (reader.remaining / 2 + 1)) reader := by
  refine ⟨?_, FieldEntry.many_decode_eq⟩
  rw [decodeAfter_apply]
  unfold layer
  rw [Decode.bind_apply]
  cases declared : decodeSize header r with
  | error e r' => exact .inl ⟨e, r', rfl⟩
  | ok size start =>
    dsimp only
    cases taken : Decode.bytes size start with
    | error e r' => exact .inl ⟨e, r', rfl⟩
    | ok bytes r' =>
      dsimp only
      cases read : parse header bytes with
      | error e => exact .inl ⟨e, r', rfl⟩
      | ok d =>
        obtain ⟨_, split, moved, rfl, rfl⟩ := (Decode.parses_bytes size start bytes r').1 taken
        exact .inr ⟨d, r', _, start, bytes, rfl, rfl, split, rfl, moved, boundedBy_of_parse read⟩

end TypeDefinition

end Graphwire
