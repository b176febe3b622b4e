import LoadReplay.Event
import LoadReplay.Proofs.Json.Object
import LoadReplay.Proofs.Text.Utf8

/-!
# What a request body tells

The body that is sent for an event is an object of five members, read back from its bytes with the
text and the token counts of the event as they are (`Event.parse_requestBody`). A timestamp is read
back where its shortest decimal text is (`Json.ReadsBack`).
-/

namespace LoadReplay

/-- A double is read back from the number that is written for it. -/
def Json.ReadsBack (d : Double) : Prop :=
  Json.number? (Json.writeDouble d).toList = some (.double d, [])

instance (d : Double) : Decidable (Json.ReadsBack d) := by unfold Json.ReadsBack; infer_instance

namespace Event

/-- The value that the body of the request for an event at a timestamp stands for. -/
def payload (e : Event) (timestamp : Double) : Json.Value :=
  .object
    [("timestamp", .number (.double timestamp)),
      ("bucket_id", .string e.bucket),
      ("prompt", .string e.prompt),
      ("context_tokens", .number (.whole e.contextTokens)),
      ("generated_tokens", .number (.whole e.generatedTokens))]

/-- The members of a body, as they are written and as they are read. -/
def members (e : Event) (timestamp : Double) : List Json.Member :=
  [⟨"timestamp", Json.writeDouble timestamp, .number (.double timestamp)⟩,
    ⟨"bucket_id", Json.writeText e.bucket, .string e.bucket⟩,
    ⟨"prompt", Json.writeText e.prompt, .string e.prompt⟩,
    ⟨"context_tokens", Text.ofNat e.contextTokens, .number (.whole e.contextTokens)⟩,
    ⟨"generated_tokens", Text.ofNat e.generatedTokens, .number (.whole e.generatedTokens)⟩]

theorem spells_ofNat {n : Nat} (hn : n ≤ Json.maxSignificand) :
    Json.Spells (Text.ofNat n).toList (.number (.whole n)) := by
  have hread : Json.number? ((Text.ofNat n).toList ++ []) = some (.whole n, []) :=
    Json.number?_ofNat hn nofun
  rw [List.append_nil] at hread
  exact Json.spells_number hread

/-- A request body is read back as the payload of its event. -/
theorem parse_requestBody {e : Event} {timestamp : Double} (htime : Json.ReadsBack timestamp)
    (hcontext : e.contextTokens ≤ Json.maxSignificand)
    (hgenerated : e.generatedTokens ≤ Json.maxSignificand) :
    Json.parseBytes? (Utf8.encode (e.requestBody timestamp).toList) =
      some (e.payload timestamp) := by
  have htext : e.requestBody timestamp =
      Json.writeObject ((e.members timestamp).map fun m => (m.name, m.text)) := rfl
  have hvalue : e.payload timestamp =
      .object ((e.members timestamp).map fun m => (m.name, m.value)) := rfl
  rw [Json.parseBytes?, Utf8.decode?_encode, Option.bind_some, htext, hvalue]
  refine Json.parse?_writeObject (List.cons_ne_nil _ _) ?_
  simp only [members, List.forall_mem_cons]
  exact ⟨Json.spells_number htime, Json.spells_writeText e.bucket, Json.spells_writeText e.prompt,
    spells_ofNat hcontext, spells_ofNat hgenerated, nofun⟩

end Event

end LoadReplay
