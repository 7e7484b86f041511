import Graphwire.Proofs.Pruning
import Graphwire.Proofs.Visits

/-!
# Records of types that nobody knows

Instances without types, in compatible mode, make up the types of all records while they write, and tell
them once each, wherever in a value they meet them first. A fresh instance of that kind reads such a value
as it was, without the fields that are null. All records of one type must have the same fields.
-/

namespace Graphwire

set_option autoImplicit false

namespace Instance

/-- A fresh instance without types reads what such an instance writes of a value as the value without null
fields. -/
theorem MakesUp.deserialize_improvised {W R : Instance} (writer : W.MakesUp) (reader : R.MakesUp)
    (fresh : R.cache = .empty) (deep : W.config.maxDepth ≤ R.config.maxDepth) {g : Graph} {v : Value}
    {t : Tree} (unfolds : g.Unfolds v t) (portable : t.Portable)
    (announceable : W.environment.Announceable g) {bytes : List UInt8}
    (written : W.serialize g v = .ok bytes) :
    ∃ w g', (R.deserialize bytes).1 = .ok (w, g') ∧ g'.Unfolds w t.pruned := by
  let W' := W.setStrategy .interpreted
  let R' := R.setStrategy .interpreted
  suffices read : ∃ w g', (R'.deserialize bytes).1 = .ok (w, g') ∧ g'.Unfolds w t.pruned by
    obtain ⟨w, g', read, h⟩ := read
    exact ⟨w, g', reader.reachable.deserialize_eq_ok read, h⟩
  obtain ⟨-, ⟨rfl, rfl⟩ | ⟨-, body, ws, rfl, run⟩⟩ :=
    ok_of_serialize (writer.reachable.serialize_interpreted written)
  · cases unfolds
    refine ⟨.null, .empty, deserialize_null R' reader.sane, ?_⟩
    rw [Tree.pruned]
    exact .leaf rfl
  · have announceable' : W'.environment.Announceable g :=
      ⟨announceable.apart, announceable.brief, announceable.types⟩
    have exchanges : W'.environment.Exchanges R'.environment g "" :=
      writer.environment.exchanges reader.environment writer.reachable.sound.registry
        reader.reachable.sound.registry reader.unlimited announceable' ""
    have untracked : RefMode.nullOnly ≠ .tracking := by decide
    have builds := exchanges.channel.placed (exchanges.payload deep) untracked Place.meets_root unfolds
      ⟨Place.tellsNames_root, portable.shared writer.environment reader.environment ""⟩ .initial body ws
      (writer.rootMode_eq ▸ run)
    have tune : W'.environment.InTune R'.environment g .initial
        (.ofBytes (Encode.head false ++ body) R'.cache) := by
      rw [show R'.cache = .empty from fresh]
      exact .initial _ _ g _
    obtain ⟨w, st, read, -, -, h⟩ := deserialize_of_runs reader.sane
      (i := R') (reader.rootMode_eq ▸ builds _ tune)
    have out := h st.graph fun _ _ _ => rfl
    exact ⟨w, st.graph, read, portable.carried writer.environment ▸ out⟩

/-- Instances without types, in compatible mode. A fresh one reads what another one writes of a value
without cycles as the value without null fields, where the definitions that are made up on the way can be
told apart. Nothing is written of a value once a record is met that has other fields than an earlier
record of its type. -/
theorem MakesUp.improvises {W R : Instance} (writer : W.MakesUp) (reader : R.MakesUp)
    (fresh : R.cache = .empty) (deep : W.config.maxDepth ≤ R.config.maxDepth) (g : Graph) (v : Value) :
    (∀ t bytes, g.Unfolds v t → t.Portable → W.environment.Announceable g →
      W.serialize g v = .ok bytes →
        ∃ w g', (R.deserialize bytes).1 = .ok (w, g') ∧ g'.Unfolds w t.pruned) ∧
    ∀ before after name names names',
      W.environment.visits g W.config.maxDepth v = before ++ .record name names :: after →
        .refusal ∉ before → .record name names' ∈ before → names' ≠ names →
          ∃ e, W.serialize g v = .error e ∧ e.kind = .notAllowed :=
  ⟨fun _ _ unfolds portable announceable written =>
    writer.deserialize_improvised reader fresh deep unfolds portable announceable written,
    fun _ _ _ _ _ met unrefused earlier differ => writer.serialize_second met unrefused earlier differ⟩

/-- An instance without types that makes them up. -/
def improviser : Instance :=
  [.setLimits .unlimited, .setCompatible true, .setRequireRegistration false].foldl perform Instance.fresh

theorem makesUp_improviser : improviser.MakesUp where
  reachable := ⟨_, rfl⟩
  types := by decide +kernel
  compatible := by decide +kernel
  lenient := by decide +kernel
  untracked := by decide +kernel
  unlimited := by decide +kernel

/-- A list of a record, of a record that holds the first one, and of a record with a null field. -/
def paired : Graph :=
  ⟨#[.list [.handle ⟨1⟩, .handle ⟨2⟩, .handle ⟨3⟩],
    .record ((Record.ofType "a.T").set "x" (.bool true)),
    .record ((Record.ofType "a.U").set "t" (.handle ⟨1⟩)),
    .record ((Record.ofType "a.N").set "y" .null)]⟩

def pairedTree : Tree :=
  let first := Tree.record "a.T" [("x", .leaf (.bool true))]
  .list [first, .record "a.U" [("t", first)], .record "a.N" [("y", .leaf .null)]]

/-- A list of two records of one type with different fields. -/
def differing : Graph :=
  ⟨#[.list [.handle ⟨1⟩, .handle ⟨2⟩],
    .record ((Record.ofType "a.T").set "x" (.bool true)),
    .record ((Record.ofType "a.T").set "y" (.bool true))]⟩

theorem unfolds_paired : paired.Unfolds (.handle ⟨0⟩) pairedTree := by
  have first : paired.Unfolds (.handle ⟨1⟩) (.record "a.T" [("x", .leaf (.bool true))]) :=
    .record (r := (Record.ofType "a.T").set "x" (.bool true)) rfl rfl (.cons (.leaf rfl) .nil)
  have second : paired.Unfolds (.handle ⟨2⟩)
      (.record "a.U" [("t", .record "a.T" [("x", .leaf (.bool true))])]) :=
    .record (r := (Record.ofType "a.U").set "t" (.handle ⟨1⟩)) rfl rfl (.cons first .nil)
  have third : paired.Unfolds (.handle ⟨3⟩) (.record "a.N" [("y", .leaf .null)]) :=
    .record (r := (Record.ofType "a.N").set "y" .null) rfl rfl (.cons (.leaf rfl) .nil)
  exact .list rfl (.cons first (.cons second (.cons third .nil)))

theorem portable_paired : pairedTree.Portable := by
  have first : (Tree.record "a.T" [("x", .leaf (.bool true))]).Portable :=
    .record (by decide) (List.forall_mem_singleton.2 (.leaf trivial rfl nofun))
  refine .list (by decide) (List.forall_mem_cons.2 ⟨first, List.forall_mem_cons.2 ⟨?_,
    List.forall_mem_singleton.2 ?_⟩⟩)
  · exact .record (by decide) (List.forall_mem_singleton.2 first)
  · exact .record (by decide) (List.forall_mem_singleton.2 (.leaf trivial rfl nofun))

theorem announceable_paired : improviser.environment.Announceable paired :=
  .of_sent (by decide +kernel) (by decide +kernel) (by decide +kernel)

theorem improvises_paired : ∃ bytes, improviser.serialize paired (.handle ⟨0⟩) = .ok bytes ∧
    (∃ w g', (improviser.deserialize bytes).1 = .ok (w, g') ∧ g'.Unfolds w pairedTree.pruned) ∧
      ∃ e, improviser.serialize differing (.handle ⟨0⟩) = .error e ∧ e.kind = .notAllowed := by
  have fresh : improviser.cache = .empty := eq_empty_of_isEmpty (by decide +kernel)
  have written : (improviser.serialize paired (.handle ⟨0⟩)).isOk = true := by decide +kernel
  have met : improviser.environment.visits differing improviser.config.maxDepth (.handle ⟨0⟩) =
      [.record "a.T" ["x"]] ++ .record "a.T" ["y"] :: [] := by decide +kernel
  cases run : improviser.serialize paired (.handle ⟨0⟩) with
  | error e =>
    rw [run] at written
    cases written
  | ok bytes =>
    have improvises := makesUp_improviser.improvises makesUp_improviser fresh (Nat.le_refl _)
    obtain ⟨read, -⟩ := improvises paired (.handle ⟨0⟩)
    obtain ⟨-, refused⟩ := improvises differing (.handle ⟨0⟩)
    exact ⟨bytes, rfl, read pairedTree bytes unfolds_paired portable_paired announceable_paired run,
      refused _ _ _ _ _ met (by decide) (List.mem_singleton_self _) (by decide)⟩

end Instance

end Graphwire
