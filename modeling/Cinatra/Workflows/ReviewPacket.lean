import Cinatra.Workflows.Host

/-! # ReviewPacket — what an approver signs

    The packet of an approval is the gating task's key and title, the required
    scope, and its upstream edges with their titles.  The hash stored at
    solicitation is `sha256` of its serialisation, so two equal hashes are one packet or
    a collision of `sha256` (`reviewPacketHash_separates`). -/

namespace WfReviewPacket

open JsonValue WfSpec WfRows WfHost

/-- The columns of a task the packet reads. -/
structure PacketTask where
  id : RowId
  key : String
  title : String

structure PacketEdge where
  on : String
  outcome : DependencyOutcome
  upstreamTitle : Option String
deriving DecidableEq

structure ReviewPacket where
  key : String
  title : String
  requiredScope : Json
  deps : List PacketEdge
deriving DecidableEq

def PacketTask.ofRow (t : TaskRow) : PacketTask := ⟨t.id, t.key, t.title⟩

/-- The text of an id, for an upstream that has no row. -/
def idText : RowId → String
  | .uuid n => toString n
  | .derived text => text

/-- The packet edge of a dependency row. -/
def packetEdge (nodes : List PacketTask) (d : DependencyRow) : PacketEdge :=
  match nodes.find? (fun t => t.id = d.dependsOnTaskId) with
  | some t => ⟨t.key, d.outcome, some t.title⟩
  | none => ⟨idText d.dependsOnTaskId, d.outcome, none⟩

def edgeLe (host : Host) (a b : PacketEdge) : Prop := host.localeLe a.on b.on = true

instance (host : Host) : DecidableRel (edgeLe host) :=
  fun a b => inferInstanceAs (Decidable (host.localeLe a.on b.on = true))

/-- The packet `computeReviewPacketHash` serialises. -/
def reviewPacket (host : Host) (task : PacketTask) (requiredScope : Json)
    (deps : List DependencyRow) (nodes : List PacketTask) : ReviewPacket where
  key := task.key
  title := task.title
  requiredScope := requiredScope
  deps := ((deps.filter (fun d => d.taskId = task.id)).map (packetEdge nodes)).insertionSort
    (edgeLe host)

def PacketEdge.toJson (e : PacketEdge) : Json :=
  .obj [("on", .str e.on), ("outcome", .str e.outcome.text),
    ("upstreamTitle", (e.upstreamTitle.map Json.str).getD .null)]

def ReviewPacket.toJson (p : ReviewPacket) : Json :=
  .obj [("key", .str p.key), ("title", .str p.title), ("requiredScope", p.requiredScope),
    ("deps", .arr (p.deps.map PacketEdge.toJson))]

/-- `computeReviewPacketHash` of the packet it builds. -/
def ReviewPacket.hash (host : Host) (p : ReviewPacket) : String :=
  host.sha256 (print p.toJson)

private theorem outcome_text_inj {a b : DependencyOutcome} (h : a.text = b.text) : a = b := by
  cases a <;> cases b <;> first | rfl | exact absurd h (by decide)

private theorem edge_toJson_inj {a b : PacketEdge} (h : a.toJson = b.toJson) : a = b := by
  obtain ⟨on, outcome, title⟩ := a
  obtain ⟨on', outcome', title'⟩ := b
  simp only [PacketEdge.toJson, Json.obj.injEq, List.cons.injEq, Prod.mk.injEq,
    Json.str.injEq, true_and, and_true] at h
  obtain ⟨hon, hout, htitle⟩ := h
  have ht : title = title' := by
    cases title <;> cases title' <;> simp at htitle
    · rfl
    · rw [htitle]
  rw [hon, outcome_text_inj hout, ht]

theorem ReviewPacket.toJson_injective : Function.Injective ReviewPacket.toJson := by
  intro p q h
  obtain ⟨key, title, scope, deps⟩ := p
  obtain ⟨key', title', scope', deps'⟩ := q
  simp only [ReviewPacket.toJson, Json.obj.injEq, List.cons.injEq, Prod.mk.injEq,
    Json.str.injEq, Json.arr.injEq, true_and, and_true] at h
  obtain ⟨hkey, htitle, hscope, hdeps⟩ := h
  have hd : deps = deps' :=
    List.map_injective_iff.mpr (fun _ _ he => edge_toJson_inj he) hdeps
  rw [hkey, htitle, hscope, hd]

/-- **One hash, one packet**, or two texts `sha256` sends to one hash. -/
theorem reviewPacketHash_separates (host : Host) (p q : ReviewPacket) :
    p.hash host = q.hash host ↔ p = q ∨ print p.toJson ≠ print q.toJson ∧
      host.sha256 (print p.toJson) = host.sha256 (print q.toJson) := by
  constructor
  · intro h
    by_cases htext : print p.toJson = print q.toJson
    · exact .inl (ReviewPacket.toJson_injective (print_injective htext))
    · exact .inr ⟨htext, h⟩
  · rintro (rfl | ⟨_, h⟩)
    · rfl
    · exact h

end WfReviewPacket
