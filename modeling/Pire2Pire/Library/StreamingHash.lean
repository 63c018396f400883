import Mathlib.Data.List.Basic

/-! Hashes of bytes that come in pieces. -/
namespace Pire2Pire.Library

/-- The digest does not depend on how the bytes are cut into pieces. -/
structure StreamingHash (Context Digest : Type) where
  init : Context
  update : Context → List UInt8 → Context
  final : Context → Digest
  hash : List UInt8 → Digest
  final_updates : ∀ pieces : List (List UInt8), final (pieces.foldl update init) = hash pieces.flatten

variable {Context Digest S : Type} {h : StreamingHash Context Digest} {context : Context} {bytes more : List UInt8}

/-- A context that has got these bytes. -/
def StreamingHash.Absorbed (h : StreamingHash Context Digest) (context : Context) (bytes : List UInt8) : Prop :=
  ∃ pieces : List (List UInt8), context = pieces.foldl h.update h.init ∧ pieces.flatten = bytes

theorem StreamingHash.absorbed_init (h : StreamingHash Context Digest) : h.Absorbed h.init [] :=
  ⟨[], rfl, rfl⟩

theorem StreamingHash.Absorbed.update (absorbed : h.Absorbed context bytes) (more : List UInt8) :
    h.Absorbed (h.update context more) (bytes ++ more) := by
  obtain ⟨pieces, rfl, rfl⟩ := absorbed
  refine ⟨pieces ++ [more], ?_, ?_⟩
  · rw [List.foldl_append, List.foldl_cons, List.foldl_nil]
  · rw [List.flatten_append, List.flatten_singleton]

theorem StreamingHash.Absorbed.final (absorbed : h.Absorbed context bytes) : h.final context = h.hash bytes := by
  obtain ⟨pieces, rfl, rfl⟩ := absorbed
  exact h.final_updates pieces

/-- The hash that takes byte after byte. -/
def StreamingHash.ofFold (step : S → UInt8 → S) (init : S) (final : S → Digest) : StreamingHash S Digest where
  init := init
  update := List.foldl step
  final := final
  hash bytes := final (bytes.foldl step init)
  final_updates pieces := by rw [List.foldl_flatten]

end Pire2Pire.Library
