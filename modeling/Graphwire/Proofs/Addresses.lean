import Graphwire.Proofs.SharedGraphs
import Graphwire.Proofs.Twins

/-!
# Bytes do not depend on addresses

Two kinds of graphs have nodes that match along a relation of handles, and so are written alike: a
graph and the same graph under other names of its nodes, where the relation is one to one; and graphs
that unfold alike, however they share nodes and whether or not they have cycles, as long as references
are not tracked.
-/

namespace Graphwire

set_option autoImplicit false

/-! ## Graphs under other names -/

theorem Value.matches_rename {R : Handle → Handle → Prop} {f : Handle → Handle} {v : Value}
    (named : ∀ h, v = .handle h → R h (f h)) : v.Matches R (v.rename f) := by
  cases v with
  | handle h => exact .handle (named h rfl)
  | _ => exact .scalar rfl

/-- A node matches its copy when all that it holds does. -/
theorem Node.matches_mapValues {R : Handle → Handle → Prop} {φ : Value → Value} {n : Node}
    (contents : ∀ v ∈ n.contents, v.Matches R (φ v)) : n.Matches R (n.mapValues φ) := by
  cases n with
  | list vs => exact .list (List.forall₂_map_right_iff.2 (List.forall₂_same.2 contents))
  | set vs => exact .set (List.forall₂_map_right_iff.2 (List.forall₂_same.2 contents))
  | map pairs =>
    have sides := Node.forall_contents_map.1 contents
    exact .map (List.forall₂_map_right_iff.2 (List.forall₂_same.2 sides))
  | record r =>
    refine .record ⟨rfl, List.forall₂_map_right_iff.2 (List.forall₂_same.2 fun e member => ?_)⟩
    exact ⟨rfl, contents e.2 (List.mem_map_of_mem member)⟩

namespace Graph

/-- Whether a value holds a node, in itself or in a node that it holds. -/
def Contains (g : Graph) (v : Value) (h : Handle) : Prop :=
  Relation.ReflTransGen (fun whole part => g.Holds part whole) v (.handle h)

/-- Whether the nodes that a value holds are found in another graph under other names, no two of them
under one name: of the same kinds, with the same contents under the new names. -/
structure Isomorphic (g : Graph) (v : Value) (f : Handle → Handle) (g' : Graph) : Prop where
  injective : Set.InjOn f {h | g.Contains v h}
  node : ∀ h, g.Contains v h → g'.node (f h) = (g.node h).mapValues (Value.rename f)

/-- A handle that a value holds, and its other name. -/
def Named (g : Graph) (v : Value) (f : Handle → Handle) (h k : Handle) : Prop :=
  g.Contains v h ∧ k = f h

variable {g g' : Graph} {v w : Value} {f : Handle → Handle}

theorem Isomorphic.biUnique (iso : g.Isomorphic v f g') : Relator.BiUnique (g.Named v f) := by
  constructor
  · rintro h k _ ⟨contained, rfl⟩ ⟨contained', same⟩
    exact iso.injective contained contained' same
  · rintro h _ _ ⟨_, rfl⟩ ⟨_, rfl⟩
    rfl

theorem Isomorphic.nodes (iso : g.Isomorphic v f g') : g.Matches (g.Named v f) g' := by
  rintro h _ ⟨contained, rfl⟩
  rw [iso.node h contained]
  refine Node.matches_mapValues fun w member => Value.matches_rename fun k same => ?_
  exact ⟨contained.tail ⟨_, rfl, same ▸ member⟩, rfl⟩

end Graph

/-! ## Graphs that unfold alike -/

theorem Value.scalar_or_handle (v : Value) : v.handle? = none ∨ ∃ h, v = .handle h := by
  cases v with
  | handle h => exact .inr ⟨h, rfl⟩
  | _ => exact .inl rfl

/-- Lists with the same images under all of a family of functions are the same place by place. -/
theorem forall₂_of_maps {α β γ : Type} {φ : Nat → α → γ} {ψ : Nat → β → γ} {xs : List α}
    {ys : List β} (same : ∀ n, xs.map (φ n) = ys.map (ψ n)) :
    List.Forall₂ (fun x y => ∀ n, φ n x = ψ n y) xs ys := by
  induction xs generalizing ys with
  | nil =>
    cases ys with
    | nil => exact .nil
    | cons y ys => cases same 0
  | cons x xs ih =>
    cases ys with
    | nil => cases same 0
    | cons y ys =>
      exact .cons (fun n => (List.cons.inj (same n)).1) (ih fun n => (List.cons.inj (same n)).2)

theorem map_eq_of_forall₂ {α β γ : Type} {φ : α → γ} {ψ : β → γ} {S : α → β → Prop} {xs : List α}
    {ys : List β} (h : List.Forall₂ S xs ys) (same : ∀ x y, S x y → φ x = ψ y) :
    xs.map φ = ys.map ψ := by
  rw [← List.forall₂_eq_eq_eq, List.forall₂_map_left_iff, List.forall₂_map_right_iff]
  exact h.imp same

/-- A tree cut off below a depth: what is no scalar there is an empty list. -/
def Tree.cut : Nat → Tree → Tree
  | _, .leaf v => .leaf v
  | 0, _ => .list []
  | depth + 1, .list ts => .list (ts.map (cut depth))
  | depth + 1, .set ts => .set (ts.map (cut depth))
  | depth + 1, .map entries => .map (entries.map fun e => (cut depth e.1, cut depth e.2))
  | depth + 1, .record typeName fields =>
    .record typeName (fields.map fun f => (f.1, cut depth f.2))

namespace Graph

/-- A value as a tree, cut off below a depth. -/
def cut (g : Graph) : Nat → Value → Tree
  | 0, .handle _ => .list []
  | depth + 1, .handle h =>
    match g.node h with
    | .list vs => .list (vs.map (g.cut depth))
    | .set vs => .set (vs.map (g.cut depth))
    | .map pairs => .map (pairs.map fun p => (g.cut depth p.1, g.cut depth p.2))
    | .record r => .record r.typeName (r.fields.entries.map fun e => (e.1, g.cut depth e.2))
  | _, v => .leaf v

/-- Whether two values unfold to the same tree, finite or not: however deep one looks, nothing tells
them apart. Which of their nodes are shared is not to be seen in a tree. -/
def UnfoldsAlike (g : Graph) (v : Value) (g' : Graph) (w : Value) : Prop :=
  ∀ depth, g.cut depth v = g'.cut depth w

variable {g g' : Graph} {v w : Value}

theorem cut_scalar (scalar : v.handle? = none) (depth : Nat) : g.cut depth v = .leaf v := by
  cases depth <;> cases v <;> first | rfl | cases scalar

/-- What unfolds alike are equal scalars or nodes. -/
theorem UnfoldsAlike.matches (alike : g.UnfoldsAlike v g' w) :
    v.Matches (fun h k => g.UnfoldsAlike (.handle h) g' (.handle k)) w := by
  have top := alike 0
  rcases v.scalar_or_handle with hv | ⟨h, rfl⟩ <;> rcases w.scalar_or_handle with hw | ⟨k, rfl⟩
  · rw [cut_scalar hv, cut_scalar hw] at top
    cases top
    exact .scalar hv
  · rw [cut_scalar hv] at top
    cases top
  · rw [cut_scalar hw] at top
    cases top
  · exact .handle alike

/-- One level further in, nodes that unfold alike hold what unfolds alike. -/
theorem matches_of_unfoldsAlike :
    g.Matches (fun h k => g.UnfoldsAlike (.handle h) g' (.handle k)) g' := by
  intro h k alike
  have below : ∀ depth, g.cut (depth + 1) (.handle h) = g'.cut (depth + 1) (.handle k) :=
    fun depth => alike (depth + 1)
  simp only [cut] at below
  generalize g.node h = n, g'.node k = m at below ⊢
  have parts : ∀ {vs ws : List Value}, (∀ depth, vs.map (g.cut depth) = ws.map (g'.cut depth)) →
      List.Forall₂ (Value.Matches fun h k => g.UnfoldsAlike (.handle h) g' (.handle k)) vs ws :=
    fun same => (forall₂_of_maps same).imp fun _ _ alike => UnfoldsAlike.matches alike
  cases n with
  | list vs =>
    cases m with
    | list ws => exact .list (parts fun depth => Tree.list.inj (below depth))
    | _ => cases below 0
  | set vs =>
    cases m with
    | set ws => exact .set (parts fun depth => Tree.set.inj (below depth))
    | _ => cases below 0
  | map ps =>
    cases m with
    | map qs =>
      refine .map ((forall₂_of_maps fun depth => Tree.map.inj (below depth)).imp fun p q same => ?_)
      exact ⟨UnfoldsAlike.matches fun depth => congrArg Prod.fst (same depth),
        UnfoldsAlike.matches fun depth => congrArg Prod.snd (same depth)⟩
    | _ => cases below 0
  | record r =>
    cases m with
    | record r' =>
      refine .record ⟨(Tree.record.inj (below 0)).1,
        (forall₂_of_maps fun depth => (Tree.record.inj (below depth)).2).imp fun e e' same => ?_⟩
      exact ⟨(Prod.mk.inj (same 0)).1,
        UnfoldsAlike.matches fun depth => (Prod.mk.inj (same depth)).2⟩
    | _ => cases below 0

/-- A value that unfolds to a finite tree is that tree down to every depth. -/
theorem Unfolds.cut {t : Tree} (unfolds : g.Unfolds v t) (depth : Nat) :
    g.cut depth v = t.cut depth := by
  induction depth generalizing v t with
  | zero => cases unfolds with
    | leaf scalar => exact cut_scalar scalar 0
    | _ => rfl
  | succ depth ih =>
    have one : ∀ (v : Value) (t : Tree), g.Unfolds v t → g.cut depth v = t.cut depth :=
      fun _ _ unfolds => ih unfolds
    cases unfolds with
    | leaf scalar => exact cut_scalar scalar (depth + 1)
    | list node elements =>
      simp only [Graph.cut, node, Tree.cut, map_eq_of_forall₂ elements one]
    | set node elements =>
      simp only [Graph.cut, node, Tree.cut, map_eq_of_forall₂ elements one]
    | @map _ pairs entries node keys values =>
      rw [List.forall₂_map_left_iff, List.forall₂_map_right_iff] at keys values
      have same : pairs.map (fun p => (g.cut depth p.1, g.cut depth p.2)) =
          entries.map fun e => (e.1.cut depth, e.2.cut depth) :=
        map_eq_of_forall₂ (keys.mp (fun _ _ key value => And.intro key value) values)
          fun p e h => Prod.ext (one p.1 e.1 h.1) (one p.2 e.2 h.2)
      simp only [Graph.cut, node, Tree.cut, same]
    | @record _ r fields node names values =>
      have same : r.fields.entries.map (fun e => (e.1, g.cut depth e.2)) =
          fields.map fun f => (f.1, f.2.cut depth) :=
        map_eq_of_forall₂ (forall₂_entries_iff.2 ⟨names, values⟩)
          fun e f h => Prod.ext h.1 (one e.2 f.2 h.2)
      simp only [Graph.cut, node, Tree.cut, same]

/-- What unfolds to one finite tree unfolds alike. -/
theorem unfoldsAlike_of_unfolds {t : Tree} (unfolds : g.Unfolds v t) (unfolds' : g'.Unfolds w t) :
    g.UnfoldsAlike v g' w :=
  fun depth => (unfolds.cut depth).trans (unfolds'.cut depth).symm

end Graph

/-! ## Instances -/

namespace Instance

variable {R : Handle → Handle → Prop} {g g' : Graph} {v w : Value}

theorem serialize_of_matches (i : Instance)
    (mirrors : i.fault = none → i.environment.Mirrors R g g') (h : v.Matches R w) :
    i.serialize g v = i.serialize g' w := by
  cases fault : i.fault with
  | some e => rw [serialize_of_fault i g v fault, serialize_of_fault i g' w fault]
  | none =>
    have mirrors := mirrors fault
    have tracking : i.rootMode = .tracking → Relator.BiUnique R := by
      intro mode
      refine mirrors.tracked (Decidable.byContradiction fun untracked => ?_)
      have mode : RefMode.ofFlags true i.config.trackRef = .tracking := mode
      rw [Bool.not_eq_true] at untracked
      rw [show i.config.trackRef = false from untracked] at mode
      cases mode
    have twins := Write.twin_marked mirrors (Write.twin_payload mirrors i.config.maxDepth) tracking
      true .dynamic h .initial .initial ⟨.nil, rfl, rfl, nofun⟩
    rw [serialize_of_sane i g v fault, serialize_of_sane i g' w fault, ← h.isNull]
    split
    · rfl
    · exact twins.map_eq (Encode.head false ++ ·)

/-- Bytes do not depend on addresses. A graph under other names of its nodes is written to the same
bytes or refused for the same cause. Without references this holds already of values that unfold to
the same tree, whichever of their nodes are shared and whether or not the tree is finite. -/
theorem serialize_independent (i : Instance) (g g' : Graph) (v : Value) :
    (∀ f, g.Isomorphic v f g' → i.serialize g' (v.rename f) = i.serialize g v) ∧
    (i.Reachable → i.config.trackRef = false →
      ∀ w, g.UnfoldsAlike v g' w → i.serialize g' w = i.serialize g v) := by
  refine ⟨fun f iso => ?_, fun reachable untracked w alike => ?_⟩
  · have unique := iso.biUnique
    have mirrors : i.environment.Mirrors (g.Named v f) g g' :=
      ⟨iso.nodes, fun _ => unique, fun _ _ _ _ _ => unique⟩
    have root : v.Matches (g.Named v f) (v.rename f) :=
      Value.matches_rename fun h same => ⟨same ▸ .refl, rfl⟩
    exact (serialize_of_matches i (fun _ => mirrors) root).symm
  · refine (serialize_of_matches i (fun sane => ?_) alike.matches).symm
    refine ⟨Graph.matches_of_unfoldsAlike, fun tracked => ?_, fun s has f member tracking => ?_⟩
    · cases untracked.symm.trans tracked
    · obtain ⟨name, found⟩ := has
      have resolved := ((reachable.sound.built sane).built found).resolved f member
      rw [untracked] at resolved
      exact absurd tracking (Field.refMode_ne_tracking resolved.untracked)

/-- The first two handles in each other's place. -/
def exchange (h : Handle) : Handle := ⟨if h.index = 0 then 1 else if h.index = 1 then 0 else h.index⟩

/-- The ring with its nodes in each other's place. -/
def exchangedRing : Graph :=
  ⟨#[(ring.node ⟨1⟩).mapValues (Value.rename exchange),
    (ring.node ⟨0⟩).mapValues (Value.rename exchange)]⟩

theorem ring_isomorphic (v : Value) : ring.Isomorphic v exchange exchangedRing := by
  have twice : ∀ h, exchange (exchange h) = h := by
    rintro ⟨_ | _ | n⟩ <;> rfl
  refine ⟨fun h _ k _ same => ?_, ?_⟩
  · rw [← twice h, same, twice]
  · rintro ⟨_ | _ | n⟩ _ <;> rfl

/-- A list that holds a list twice. -/
def sharedList : Graph := ⟨#[.list [.handle ⟨1⟩, .handle ⟨1⟩], .list [.bool true]]⟩

/-- A list that holds two lists. -/
def separateLists : Graph :=
  ⟨#[.list [.bool true], .list [.handle ⟨0⟩, .handle ⟨2⟩], .list [.bool true]]⟩

theorem sharedList_unfoldsAlike :
    sharedList.UnfoldsAlike (.handle ⟨0⟩) separateLists (.handle ⟨1⟩) := by
  have tree : ∀ {g : Graph} {h k l : Handle}, g.node h = .list [.handle k, .handle l] →
      g.node k = .list [.bool true] → g.node l = .list [.bool true] →
      g.Unfolds (.handle h) (.list [.list [.leaf (.bool true)], .list [.leaf (.bool true)]]) :=
    fun outer first second => .list outer (.cons (.list first (.cons (.leaf rfl) .nil))
      (.cons (.list second (.cons (.leaf rfl) .nil)) .nil))
  exact Graph.unfoldsAlike_of_unfolds (tree rfl rfl rfl) (tree rfl rfl rfl)

/-- A ring under other names, with references, and two lists for one, without. -/
theorem serialize_independent_ring :
    (linked.serialize ring (.handle ⟨0⟩)).toOption.isSome = true ∧
      linked.serialize exchangedRing ((Value.handle ⟨0⟩).rename exchange) =
        linked.serialize ring (.handle ⟨0⟩) ∧
      (fresh.serialize sharedList (.handle ⟨0⟩)).toOption.isSome = true ∧
      fresh.serialize separateLists (.handle ⟨1⟩) = fresh.serialize sharedList (.handle ⟨0⟩) :=
  ⟨by decide +kernel,
    (serialize_independent linked ring exchangedRing (.handle ⟨0⟩)).1 exchange (ring_isomorphic _),
    by decide +kernel,
    (serialize_independent fresh sharedList separateLists (.handle ⟨0⟩)).2 ⟨[], rfl⟩ rfl
      (.handle ⟨1⟩) sharedList_unfoldsAlike⟩

end Instance

end Graphwire
