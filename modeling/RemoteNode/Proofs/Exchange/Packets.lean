import RemoteNode.Exchange.Body
import RemoteNode.Proofs.Schema.Packing

/-! The bodies of the packed commands: requests and answers are read just from what they are written
as, whatever follows, and an answer whose end is cut off is no answer. -/

namespace RemoteNode.Command

variable {c : Command}

theorem encode_packed (packed : c.format = .packed) (r : c.Request) :
    c.encode r = c.request.pack r := by
  rw [encode, packed]

/-- An answer that cannot be read is malformed, and no other failure is possible. -/
theorem decode_packed (packed : c.format = .packed) (body : List UInt8) :
    (∃ v, c.answer.ofPacked? body = some v ∧ c.decode body = .ok v) ∨
      c.answer.ofPacked? body = none ∧ ∃ m, c.decode body = .error (.serialization m) := by
  rw [decode, packed]
  cases c.answer.ofPacked? body with
  | none => exact .inr ⟨rfl, _, rfl⟩
  | some v => exact .inl ⟨v, rfl, rfl⟩

/-- What makes the bodies of a command exact. -/
structure PacksExactly (c : Command) : Prop where
  request : c.request.PacksExactly
  answer : c.answer.PacksExactly
  encoded : ∀ r, c.encode r = c.request.pack r
  decoded : ∀ body v, c.decode body = .ok v ↔
    c.answer.Fits v ∧ ∃ rest, body = c.answer.pack v ++ rest
  /-- A body that ends too early is malformed. -/
  cut : ∀ v body, c.answer.Fits v → body <+: c.answer.pack v → body ≠ c.answer.pack v →
    ∃ m, c.decode body = .error (.serialization m)

/-- All packed commands have exact bodies. -/
theorem bodies_exact (c : Command) (packed : c.format = .packed) : c.PacksExactly := by
  have plain : c.request.hasVariant = false ∧ c.answer.hasVariant = false := by
    cases c with
    | randomOutputs | blocks | outputIndices | liteBlocks | poolChanges => exact ⟨rfl, rfl⟩
    | _ => cases packed
  have answer := c.answer.packsExactly plain.2
  refine ⟨c.request.packsExactly plain.1, answer, encode_packed packed, fun body v => ?_,
    fun v body hv h cut => ?_⟩
  · rw [← answer.reads]
    obtain ⟨w, read, decoded⟩ | ⟨unread, m, failed⟩ := decode_packed packed body
    · rw [read, decoded, Except.ok.injEq, Option.some.injEq]
    · simp [unread, failed]
  · obtain ⟨w, read, -⟩ | ⟨-, failed⟩ := decode_packed packed body
    · rw [answer.cut v body hv h cut] at read
      cases read
    · exact failed

/-- The pool has gained a transaction of two bytes and lost another, and one more byte follows. A
known transaction in the request takes its own bytes. -/
theorem bodies_exact_poolChanges : poolChanges.format = .packed ∧
    poolChanges.decode ([1] ++ [1, 0, 0, 0, 0, 0, 0, 0] ++ [2, 0, 0, 0, 0, 0, 0, 0, 171, 205] ++
      [1, 0, 0, 0, 0, 0, 0, 0] ++ Bytes32.zero.toList ++ [2, 0, 0, 0, 0, 0, 0, 0, 79, 75] ++ [9]) =
      .ok ⟨"OK", true, [[171, 205]], [.zero]⟩ ∧
    ∃ front back, ∀ id, poolChanges.request.pack ⟨.zero, [.zero, id]⟩ =
      front ++ id.toList ++ back := by
  have exact := bodies_exact poolChanges rfl
  have place : Layout.poolView.Place _ :=
    .member _ (.later Bytes32.zero (.first () (.item [Bytes32.zero] [] .here)))
  refine ⟨rfl, (exact.decoded _ _).mpr ⟨?_, [9], by decide +kernel⟩, exact.request.raw _ place⟩
  simp only [answer, Layout.poolChanges, Schema.Fits, Members.Fits, List.forall_mem_singleton]
  decide +kernel

end RemoteNode.Command
