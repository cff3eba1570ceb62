import Cinatra.History.GapFree
import Cinatra.History.MergedData
import Cinatra.History.Reviews

/-! # Approvals — a proposal, from its claim to its event

    The claim, the write and the mark of an approval are three transactions, so a
    proposal goes through stages in which its approval is on the way (`Stage`).  Every
    call moves one proposal one stage on; what an approval has written is released
    again only where its mark has failed. -/

namespace History

open Process Machine RowTable

/-- The approval that a writer is. -/
def Writer.approval : Writer → Option ApproveMergeProposalInput
  | .approve _ _ input => some input
  | _ => none

/-- An event that an approval has made, and the row that it found. -/
structure Produced where
  input : ApproveMergeProposalInput
  before : Option ObjectRow
  event : ObjectChangeEvent

/-- The writers, and what the approvals among them have produced. -/
structure Reviewed where
  pool : WriterPool
  produced : List Produced := []

/-- The approval whose turn it is. -/
def approving (s : WriterPool) : WriterEvent → Option ApproveMergeProposalInput
  | .turn i _ => (s.views i).bind (fun v => v.writer.approval)
  | _ => none

/-- What the turn of an approval adds to the log. -/
def additions (approval : Option ApproveMergeProposalInput) (db : Db)
    (events : List ObjectChangeEvent) : List Produced :=
  approval.elim [] (fun input => (events.drop db.events.length).map (fun event =>
    { input := input, before := db.object event.objectId, event := event }))

def producedBy (s : WriterPool) (e : WriterEvent) : List Produced :=
  additions (approving s e) s.world (writerStep s e).world.events

def reviewStep (s : Reviewed) (e : WriterEvent) : Reviewed where
  pool := writerStep s.pool e
  produced := s.produced ++ producedBy s.pool e

/-- The event changes the data of its object, to what was approved, and nothing else. -/
structure AsApproved (q : MergeProposal) (x : Produced) : Prop where
  objectId : x.event.objectId = q.objectId
  version : x.event.baseVersion = some q.baseVersion ∧ x.event.resultVersion = q.baseVersion + 1
  onlyData : ∃ before data, x.before = some before ∧
    x.event.afterSnapshot = some { before with data := data, version := q.baseVersion + 1 } ∧
    ∀ name, getField data name =
      overlay q.proposedFields x.input.selectedFields x.input.currentData name

/-- An approval that has written, and has yet to mark its proposal. -/
def Marking (s : WriterPool) (id : String) : Prop :=
  ∃ i v p, s.views i = some v ∧ v.claimed = some p ∧ p.id = id ∧ v.wrote = true ∧ v.marked = false

/-- Every proposal is applied exactly as approved, at most once. -/
structure AppliedAsApproved (s : Reviewed) : Prop where
  once : s.produced.Pairwise (fun x y => x.input.proposalId ≠ y.input.proposalId)
  applied : ∀ q ∈ s.pool.world.proposals, q.status = .applied →
    ∃ x ∈ s.produced, x.input.proposalId = q.id ∧ q.appliedChangeEventId = some x.event.id
  produced : ∀ x ∈ s.produced, x.event ∈ s.pool.world.events ∧
    ∃ q ∈ s.pool.world.proposals, q.id = x.input.proposalId ∧ AsApproved q x ∧
      (q.status = .applied ∨ q.status = .applying ∧ Marking s.pool q.id)

/-- The columns that an approval writes are those of the row. -/
structure RowKept (projectId : Option String) (input : ApproveMergeProposalInput)
    (p : MergeProposal) (r : ObjectRow) : Prop where
  type : r.type = p.objectType
  parentId : r.parentId = none
  parentType : r.parentType = none
  runId : input.actor.runId.or (r.columns .runId) = r.columns .runId
  projectId : (resolveProjectInheritanceForType projectId p.objectType).or (r.columns .projectId) =
    r.columns .projectId

/-- The write of an approval that takes effect is answered, finds a row whose columns it does not
    change, and goes by plain names; the mark of a proposal takes effect; and no approval is
    killed between the two. -/
structure StepApproves (s : Reviewed) (e : WriterEvent) : Prop where
  writes : ∀ i fault statements v minted projectId input p, e = .turn i fault →
    NextCall s.pool i (.transaction statements) v → v.writer = .approve minted projectId input →
    v.claimed = some p → Taken fault → (∃ db', transaction s.pool.world statements = .ok db') →
      fault = .answered ∧ (∀ r ∈ s.pool.world.object p.objectId, RowKept projectId input p r) ∧
        PlainNames p.proposedFields input.selectedFields input.currentData
  marks : ∀ i fault id eventId v, e = .turn i fault →
    NextCall s.pool i (.markApplied id eventId) v → Taken fault
  kills : ∀ i v p, e = .kill i → s.pool.views i = some v → v.claimed = some p →
    v.wrote = true → v.marked = true

/-! ## Stages -/

/-- How far an approval has come with a proposal. -/
inductive Grip where
  | held
  | wrote (eventId : String)
  | marked

/-- How far a writer has come with some proposal. -/
def Seen.grip (v : Seen) (id : String) : Option Grip :=
  match v.writer, v.claimed with
  | .approve minted _ _, some p =>
    if p.id = id then
      some (if v.marked then .marked else if v.wrote then .wrote minted.eventId else .held)
    else none
  | _, _ => none

/-- Who is at work on a proposal. -/
abbrev Grips := Nat → Option Grip

def noGrip : Grips := fun _ => none

def only (i : Nat) (g : Grip) : Grips := Function.update noGrip i (some g)

def gripsOn (views : Nat → Option Seen) (id : String) : Grips :=
  fun i => (views i).bind (fun v => v.grip id)

/-- A proposal's row, who is at work on it, and what it has produced. -/
inductive Stage : Option MergeProposal → Grips → List Produced → Prop where
  | idle {q : Option MergeProposal} (hq : ∀ p, q = some p → p.status ≠ .applied) :
      Stage q noGrip []
  | held {q : MergeProposal} (i : Nat) (hq : q.status = .applying) : Stage (some q) (only i .held) []
  | wrote {q : MergeProposal} (i : Nat) (x : Produced) (hq : q.status = .applying) :
      Stage (some q) (only i (.wrote x.event.id)) [x]
  | marked {q : MergeProposal} (i : Nat) (x : Produced) (hq : q.status = .applied)
      (hevent : q.appliedChangeEventId = some x.event.id) : Stage (some q) (only i .marked) [x]
  | done {q : MergeProposal} (x : Produced) (hq : q.status = .applied)
      (hevent : q.appliedChangeEventId = some x.event.id) : Stage (some q) noGrip [x]

section Stage

variable {q : Option MergeProposal} {grips : Grips} {xs : List Produced} {i : Nat}

theorem only_self (i : Nat) (g : Grip) : only i g i = some g := Function.update_self _ _ _

theorem only_eq {i j : Nat} {g g' : Grip} (h : only i g j = some g') : j = i ∧ g' = g := by
  by_cases hj : j = i
  · rw [hj, only_self] at h
    exact ⟨hj, (Option.some.inj h).symm⟩
  · rw [only, Function.update_of_ne hj] at h
    cases h

@[simp] theorem update_only (i : Nat) (g : Grip) (g' : Option Grip) :
    Function.update (only i g) i g' = Function.update noGrip i g' := Function.update_idem _ _ _

@[simp] theorem update_noGrip (i : Nat) : Function.update noGrip i none = noGrip :=
  Function.update_eq_self i noGrip

theorem Stage.of_held (h : Stage q grips xs) (hi : grips i = some .held) :
    ∃ p, q = some p ∧ p.status = .applying ∧ grips = only i .held ∧ xs = [] := by
  cases h with
  | idle => cases hi
  | held j hq =>
    obtain ⟨rfl, _⟩ := only_eq hi
    exact ⟨_, rfl, hq, rfl, rfl⟩
  | wrote | marked => cases (only_eq hi).2
  | done => cases hi

theorem Stage.of_wrote {eventId : String} (h : Stage q grips xs)
    (hi : grips i = some (.wrote eventId)) :
    ∃ p x, q = some p ∧ p.status = .applying ∧ grips = only i (.wrote eventId) ∧ xs = [x] ∧
      x.event.id = eventId := by
  cases h with
  | idle => cases hi
  | held j => cases (only_eq hi).2
  | wrote j x hq =>
    obtain ⟨rfl, hevent⟩ := only_eq hi
    cases hevent
    exact ⟨_, x, rfl, hq, rfl, rfl, rfl⟩
  | marked j x => cases (only_eq hi).2
  | done => cases hi

theorem Stage.of_marked (h : Stage q grips xs) (hi : grips i = some .marked) :
    ∃ p x, q = some p ∧ p.status = .applied ∧ grips = only i .marked ∧ xs = [x] ∧
      p.appliedChangeEventId = some x.event.id := by
  cases h with
  | idle => cases hi
  | held | wrote => cases (only_eq hi).2
  | marked j x hq hevent =>
    obtain ⟨rfl, _⟩ := only_eq hi
    exact ⟨_, x, rfl, hq, rfl, rfl, hevent⟩
  | done => cases hi

theorem Stage.of_status {p : MergeProposal} (h : Stage (some p) grips xs)
    (happlying : p.status ≠ .applying) (happlied : p.status ≠ .applied) :
    grips = noGrip ∧ xs = [] := by
  cases h with
  | idle => exact ⟨rfl, rfl⟩
  | held j hq => exact absurd hq happlying
  | wrote j x hq => exact absurd hq happlying
  | marked j x hq => exact absurd hq happlied
  | done x hq => exact absurd hq happlied

theorem Stage.drop (h : Stage q grips xs) (hi : ∀ eventId, grips i ≠ some (.wrote eventId)) :
    Stage q (Function.update grips i none) xs := by
  cases hg : grips i with
  | none =>
    rw [← hg, Function.update_eq_self]
    exact h
  | some g =>
    cases g with
    | held =>
      obtain ⟨p, rfl, hp, rfl, rfl⟩ := h.of_held hg
      rw [update_only, update_noGrip]
      refine .idle ?_
      rintro p' ⟨⟩
      rw [hp]
      exact MergeProposalStatus.noConfusion
    | wrote eventId => exact absurd hg (hi eventId)
    | marked =>
      obtain ⟨p, x, rfl, hp, rfl, rfl, hevent⟩ := h.of_marked hg
      rw [update_only, update_noGrip]
      exact .done x hp hevent

end Stage

/-! ## The invariant -/

def Db.proposal (db : Db) (id : String) : Option MergeProposal :=
  db.proposals.find? (fun p => p.id = id)

/-- A proposal, but for its review. -/
def MergeProposal.terms (p : MergeProposal) : MergeProposal :=
  { p with status := .pending, reviewedBy := none, reviewNotes := none,
           appliedChangeEventId := none }

def SameTerms (db db' : Db) : Prop :=
  db'.proposals.map MergeProposal.terms = db.proposals.map MergeProposal.terms

def producedOf (produced : List Produced) (id : String) : List Produced :=
  produced.filter (fun x => x.input.proposalId = id)

/-- What a view says of the proposal it has claimed. -/
def ClaimSeen (db : Db) (v : Seen) : Prop :=
  ∀ p, v.claimed = some p → (∃ q, db.proposal p.id = some q ∧ q.terms = p.terms) ∧
    ∀ minted projectId input, v.writer = .approve minted projectId input → p.id = input.proposalId

structure Standing (db : Db) (views : Nat → Option Seen) (produced : List Produced) : Prop where
  keyed : db.Keyed
  ids : (db.proposals.map MergeProposal.id).Nodup
  stages : ∀ id, Stage (db.proposal id) (gripsOn views id) (producedOf produced id)
  claims : ∀ i v, views i = some v → ClaimSeen db v
  faithful : ∀ x ∈ produced, x.event ∈ db.events ∧
    ∀ q, db.proposal x.input.proposalId = some q → AsApproved q x

/-! ### Proposals -/

variable {id : String} {q : MergeProposal} {db : Db}

theorem proposal_id (h : db.proposal id = some q) :
    q.id = id := of_decide_eq_true (List.find?_some h :)

theorem proposal_terms (db : Db) (id : String) : (db.proposal id).map MergeProposal.terms =
      (db.proposals.map MergeProposal.terms).find? (fun p => p.id = id) := by
  rw [List.find?_map]
  rfl

variable {db db' : Db}

theorem SameTerms.proposal (h : SameTerms db db')
    {q' : MergeProposal} (hq : db'.proposal id = some q') :
    ∃ q, db.proposal id = some q ∧ q.terms = q'.terms := by
  have hterms := proposal_terms db id
  rw [← h, ← proposal_terms, hq, Option.map_some, Option.map_eq_some_iff] at hterms
  exact hterms

theorem SameTerms.symm (h : SameTerms db db') : SameTerms db' db := Eq.symm h

theorem SameTerms.ids (h : SameTerms db db') :
    db'.proposals.map MergeProposal.id = db.proposals.map MergeProposal.id := by
  have hids : ∀ d : Db, d.proposals.map MergeProposal.id =
      (d.proposals.map MergeProposal.terms).map MergeProposal.id := by
    intro d
    rw [List.map_map]
    rfl
  rw [hids, h, ← hids]

variable {x : Produced}

theorem AsApproved.congr {q q' : MergeProposal} (h : AsApproved q x)
    (hterms : q.terms = q'.terms) : AsApproved q' x := by
  have hobject : q.objectId = q'.objectId := congrArg (fun p => p.objectId) hterms
  have hversion : q.baseVersion = q'.baseVersion := congrArg (fun p => p.baseVersion) hterms
  have hfields : q.proposedFields = q'.proposedFields :=
    congrArg (fun p => p.proposedFields) hterms
  obtain ⟨hx, hv, hdata⟩ := h
  rw [hobject] at hx
  rw [hversion] at hv hdata
  rw [hfields] at hdata
  exact ⟨hx, hv, hdata⟩

theorem proposal_update (db : Db) {p : MergeProposal → Bool} {f : MergeProposal → MergeProposal}
    (id₀ : String) (hp : ∀ q, p q = true → q.id = id₀) (hf : ∀ q, (f q).id = q.id) (id : String) :
    (db.updateProposals p f).proposal id = if id = id₀ then
      (db.proposal id).map (fun q => if p q then f q else q) else db.proposal id := by
  have hmap : (db.updateProposals p f).proposal id =
      (db.proposal id).map (fun q => if p q then f q else q) :=
    find?_updateWhere db.proposals fun q _ => by rw [hf]
  rw [hmap]
  split
  · rfl
  rename_i hne
  cases hq : db.proposal id with
  | none => rfl
  | some q =>
    rw [Option.map_some, if_neg]
    intro hpq
    exact hne ((proposal_id hq).symm.trans (hp q hpq))

variable {statements : List Statement}

theorem transaction_proposals
    (h : transaction db statements = .ok db') : db'.proposals = db.proposals :=
  transaction_keeps (I := fun d => d.proposals = db.proposals)
    (fun _ _ _ _ _ hwrote hsame => hwrote.proposals.trans hsame) h rfl

/-! ### Views -/

variable {v : Seen}

theorem grip_unclaimed (h : v.claimed = none) (id : String) : v.grip id = none := by
  unfold Seen.grip
  rw [h]
  cases v.writer <;> rfl

theorem grip_unapproving
    (h : ∀ minted projectId input, v.writer ≠ .approve minted projectId input) (id : String) :
    v.grip id = none := by
  unfold Seen.grip
  split
  · rename_i minted projectId input p hwriter _
    exact absurd hwriter (h minted projectId input)
  · rfl

variable {input : ApproveMergeProposalInput} {projectId : Option String} {p : MergeProposal}
  {minted : Minted}

theorem grip_approve
    (hwriter : v.writer = .approve minted projectId input) (hclaimed : v.claimed = some p)
    (id : String) : v.grip id = if p.id = id then
      some (if v.marked then .marked else if v.wrote then .wrote minted.eventId else .held)
      else none := by
  unfold Seen.grip
  rw [hwriter, hclaimed]

theorem Holding.grip {wrote : Bool}
    (h : Holding (.approve minted projectId input) p wrote v) (id : String) :
    v.grip id = if p.id = id then some (if wrote then .wrote minted.eventId else .held)
      else none := by
  rw [grip_approve h.writer h.claimed, h.marked, h.wrote]
  rfl

theorem gripsOn_update (views : Nat → Option Seen) (i : Nat) (v : Option Seen) (id : String) :
    gripsOn (Function.update views i v) id =
      Function.update (gripsOn views id) i (v.bind (fun v => v.grip id)) := by
  funext j
  by_cases hj : j = i
  · rw [hj, Function.update_self, gripsOn, Function.update_self]
  · rw [Function.update_of_ne hj, gripsOn, Function.update_of_ne hj]
    rfl

/-! ## One step -/

variable {views : Nat → Option Seen} {i : Nat}

theorem gripsOn_self (hview : views i = some v) (id : String) : gripsOn views id i = v.grip id := by
  rw [gripsOn, hview]
  rfl

theorem producedOf_append (produced new : List Produced) (id : String) :
    producedOf (produced ++ new) id = producedOf produced id ++ producedOf new id :=
  List.filter_append _ _

section Steps

variable {db db' : Db} {views : Nat → Option Seen} {produced new : List Produced} {i : Nat}
  {v v' : Seen}

variable (h : Standing db views produced)

include h

theorem Standing.drop (hview : views i = some v)
    (hgrip : ∀ id eventId, v.grip id ≠ some (.wrote eventId)) :
    Standing db (Function.update views i none) produced := by
  refine ⟨h.keyed, h.ids, fun id => ?_, fun j w hw => ?_, h.faithful⟩
  · rw [gripsOn_update]
    refine (h.stages id).drop fun eventId => ?_
    rw [gripsOn, hview]
    exact hgrip id eventId
  · rcases update_cases hw with ⟨-, hw⟩ | ⟨hj, hw⟩
    · cases hw
    · exact h.claims j w hw

theorem Standing.advance (hkeyed : db'.Keyed)
    (hterms : SameTerms db db') (hgrows : db.events <+: db'.events) (hclaims : ClaimSeen db v')
    (hnew : ∀ x ∈ new, x.event ∈ db'.events ∧
      ∀ q, db.proposal x.input.proposalId = some q → AsApproved q x)
    (hstages : ∀ id, Stage (db'.proposal id) (Function.update (gripsOn views id) i (v'.grip id))
      (producedOf (produced ++ new) id)) :
    Standing db' (Function.update views i (some v')) (produced ++ new) := by
  have hseen : ∀ w, ClaimSeen db w → ClaimSeen db' w := by
    intro w hw p hp
    obtain ⟨⟨q, hq, hsame⟩, hid⟩ := hw p hp
    obtain ⟨q', hq', hsame'⟩ := hterms.symm.proposal hq
    exact ⟨⟨q', hq', hsame'.trans hsame⟩, hid⟩
  refine ⟨hkeyed, ?_, fun id => ?_, fun j w hw => ?_, fun x hx => ?_⟩
  · rw [hterms.ids]
    exact h.ids
  · rw [gripsOn_update]
    exact hstages id
  · rcases update_cases hw with ⟨-, hw⟩ | ⟨hj, hw⟩
    · rw [← Option.some.inj hw]
      exact hseen v' hclaims
    · exact hseen w (h.claims j w hw)
  · have hx' : x.event ∈ db'.events ∧
        ∀ q, db.proposal x.input.proposalId = some q → AsApproved q x := by
      rcases List.mem_append.mp hx with hold | hnew'
      · exact ⟨hgrows.subset (h.faithful x hold).1, (h.faithful x hold).2⟩
      · exact hnew x hnew'
    refine ⟨hx'.1, fun q' hq' => ?_⟩
    obtain ⟨q, hq, hsame⟩ := hterms.proposal hq'
    exact (hx'.2 q hq).congr hsame

theorem Standing.advance_at (hview : views i = some v)
    (hkeyed : db'.Keyed) (hterms : SameTerms db db') (hgrows : db.events <+: db'.events)
    (hclaims : ClaimSeen db v') (id₀ : String)
    (hother : ∀ id, id ≠ id₀ → db'.proposal id = db.proposal id ∧ v'.grip id = v.grip id)
    (hat : Stage (db'.proposal id₀) (Function.update (gripsOn views id₀) i (v'.grip id₀))
      (producedOf produced id₀)) : Standing db' (Function.update views i (some v')) produced := by
  have hstanding : Standing db' (Function.update views i (some v')) (produced ++ []) := by
    refine h.advance hkeyed hterms hgrows hclaims ?_ fun id => ?_
    · rintro x ⟨⟩
    · rw [List.append_nil]
      by_cases hid : id = id₀
      · rw [hid]
        exact hat
      · obtain ⟨hproposal, hgrip⟩ := hother id hid
        rw [hproposal, hgrip, ← gripsOn_self hview, Function.update_eq_self]
        exact h.stages id
  rw [List.append_nil] at hstanding
  exact hstanding

theorem Standing.advance_quiet (hview : views i = some v)
    (hkeyed : db'.Keyed) (hproposals : db'.proposals = db.proposals)
    (hgrows : db.events <+: db'.events) (hclaims : ClaimSeen db v')
    (hgrip : ∀ id, v'.grip id = v.grip id) :
    Standing db' (Function.update views i (some v')) produced := by
  have hsame : ∀ id, db'.proposal id = db.proposal id := by
    intro id
    rw [Db.proposal, hproposals]
    rfl
  refine h.advance_at hview hkeyed (congrArg _ hproposals) hgrows hclaims ""
    (fun id _ => ⟨hsame id, hgrip id⟩) ?_
  rw [hsame, hgrip, ← gripsOn_self hview, Function.update_eq_self]
  exact h.stages ""

end Steps

theorem answer_keyed (fault : Fault) (c : HistoryCall) (h : db.Keyed) :
    (history.answer fault c db).2.Keyed := by
  rcases answer_writes fault c db with ⟨hobjects, _⟩ | ⟨_, _, _, htransaction⟩
  · rw [Db.Keyed, hobjects]
    exact h
  · exact transaction_keyed htransaction h

variable {c : HistoryCall}

theorem ClaimSeen.see (h : ClaimSeen db v)
    (r : Except HistoryError c.Reply) (hc : ∀ id actor notes, c ≠ .claimProposal id actor notes) :
    ClaimSeen db (seeHistory v c r) := by
  have hclaimed : (seeHistory v c r).claimed = v.claimed ∨ (seeHistory v c r).claimed = none := by
    unfold seeHistory
    split <;> first | exact .inl rfl | exact .inr rfl | exact absurd rfl (hc _ _ _)
  intro p hp
  rw [seeHistory_writer]
  rcases hclaimed with hsame | hnone
  · exact h p (hsame ▸ hp)
  · rw [hnone] at hp
    cases hp

variable {actor : HistoryActor}

theorem claimable_id (h : claimable id actor q = true) : q.id = id := by
  rw [claimable, Bool.and_eq_true, Bool.and_eq_true, decide_eq_true_eq] at h
  exact h.1.1

theorem claimable_pending
    (h : claimable id actor q = true) : q.status ≠ .applying ∧ q.status ≠ .applied := by
  rw [claimable, Bool.and_eq_true, Bool.and_eq_true, decide_eq_true_eq, decide_eq_true_eq] at h
  rw [h.1.2]
  exact ⟨MergeProposalStatus.noConfusion, MergeProposalStatus.noConfusion⟩

theorem grip_claim (hv : Unclaimed minted projectId input v)
    (p : MergeProposal) (id : String) :
    ({ v with claimed := some p } : Seen).grip id = if p.id = id then some .held else none := by
  have hholding : Holding (.approve minted projectId input) p false
      { v with claimed := some p } := ⟨hv.writer, rfl, hv.wrote, hv.marked⟩
  exact hholding.grip id

/-! ### Each call -/

section Turns

variable {db : Db} {views : Nat → Option Seen} {produced : List Produced} {i : Nat} {v : Seen}
  (h : Standing db views produced) (hview : views i = some v)

include h hview

theorem quiet_turn (hc : Quiet c) (fault : Fault) : Standing (history.answer fault c db).2
      (Function.update views i (some (seeHistory v c (history.answer fault c db).1))) produced := by
  have hproposals : (history.answer fault c db).2.proposals = db.proposals := by
    have hanswer : (answerHistory db c).2.proposals = db.proposals := by
      cases c with
      | insertChangeSet row =>
        simp only [answerHistory]
        split <;> rfl
      | transaction | claimProposal | markApplied | releaseClaim | rejectProposal => exact hc.elim
      | _ => rfl
    cases fault with
    | failed message => rfl
    | answered | lost => exact hanswer
  refine h.advance_quiet hview (answer_keyed fault c h.keyed) hproposals
    (answer_grows fault c db) ((h.claims i v hview).see _ ?_) fun id => ?_
  · rintro id actor notes rfl
    exact hc
  · unfold seeHistory
    split <;> first | rfl | exact hc.elim

theorem unchanged_turn : Standing db (Function.update views i (some v)) produced :=
  h.advance_quiet hview h.keyed rfl (List.prefix_refl _) (h.claims i v hview) fun _ => rfl

variable {input : ApproveMergeProposalInput}

theorem claim_none (notes : Option String)
    (hnone : (db.proposal input.proposalId).filter (claimable input.proposalId actor) = none) :
    Standing (db.updateProposals (claimable input.proposalId actor)
      (MergeProposal.claimed actor notes)) (Function.update views i (some v)) produced := by
  have hproposal := proposal_update db (p := claimable input.proposalId actor)
    (f := MergeProposal.claimed actor notes) input.proposalId
    (fun q hq => claimable_id hq) (fun _ => rfl)
  refine h.advance_at hview h.keyed (map_updateWhere _ _ fun _ => rfl) (List.prefix_refl _)
    (h.claims i v hview) input.proposalId (fun id hne => ⟨?_, rfl⟩) ?_
  · rw [hproposal, if_neg hne]
  · rw [hproposal, if_pos rfl, ← gripsOn_self hview, Function.update_eq_self]
    have hstage := h.stages input.proposalId
    cases hq : db.proposal input.proposalId with
    | none =>
      rw [hq] at hstage
      exact hstage
    | some q =>
      rw [hq, Option.filter_some, ite_eq_right_iff] at hnone
      rw [Option.map_some, if_neg fun hclaimable => Option.some_ne_none q (hnone hclaimable), ← hq]
      exact hstage

variable {projectId : Option String} {minted : Minted}

/-- A proposal that is pending is claimed, by the approval that learns of it. -/
theorem claim_some (hv : Unclaimed minted projectId input v)
    (notes : Option String) {q : MergeProposal}
    (hsome : (db.proposal input.proposalId).filter (claimable input.proposalId actor) = some q)
    {claimed : Option MergeProposal}
    (hclaimed : claimed = none ∨ claimed = some (q.claimed actor notes)) :
    Standing (db.updateProposals (claimable input.proposalId actor)
      (MergeProposal.claimed actor notes))
      (Function.update views i (some { v with claimed := claimed })) produced := by
  obtain ⟨hq, hclaimable⟩ := Option.filter_eq_some_iff.mp hsome
  have hproposal := proposal_update db (p := claimable input.proposalId actor)
    (f := MergeProposal.claimed actor notes) input.proposalId
    (fun q hq => claimable_id hq) (fun _ => rfl)
  have hid : q.id = input.proposalId := proposal_id hq
  have hgrip : ∀ id, v.grip id = none := grip_unclaimed hv.claimed
  have hstage := h.stages input.proposalId
  rw [hq] at hstage
  obtain ⟨hgrips, hnothing⟩ := hstage.of_status (claimable_pending hclaimable).1
    (claimable_pending hclaimable).2
  refine h.advance_at hview h.keyed (map_updateWhere _ _ fun _ => rfl) (List.prefix_refl _)
    (fun p hp => ?_) input.proposalId (fun id hne => ⟨?_, ?_⟩) ?_
  · rcases hclaimed with rfl | rfl
    · cases hp
    cases hp
    refine ⟨⟨q, ?_, rfl⟩, fun minted' projectId' input' hwriter => ?_⟩
    · rw [← hid] at hq
      exact hq
    · cases hv.writer.symm.trans hwriter
      exact hid
  · rw [hproposal, if_neg hne]
  · rw [hgrip]
    rcases hclaimed with rfl | rfl
    · exact grip_unclaimed rfl id
    · rw [grip_claim hv, if_neg]
      intro hsame
      exact hne (hsame.symm.trans hid)
  · rw [hproposal, if_pos rfl, hq, Option.map_some, if_pos hclaimable, hgrips, hnothing]
    rcases hclaimed with rfl | rfl
    · rw [grip_unclaimed rfl, update_noGrip]
      refine .idle ?_
      rintro p ⟨⟩
      exact MergeProposalStatus.noConfusion
    · rw [grip_claim hv, if_pos (show (q.claimed actor notes).id = _ from hid)]
      exact .held i rfl

theorem claim_turn (hv : Unclaimed minted projectId input v)
    (actor : HistoryActor) (notes : Option String) (fault : Fault) :
    Standing (history.answer fault (.claimProposal input.proposalId actor notes) db).2
      (Function.update views i (some (seeHistory v (.claimProposal input.proposalId actor notes)
        (history.answer fault (.claimProposal input.proposalId actor notes) db).1))) produced := by
  have hunclaimed : v = { v with claimed := none } := by
    rw [← hv.claimed]
  have hfind : db.proposals.find? (claimable input.proposalId actor) =
      (db.proposal input.proposalId).filter (claimable input.proposalId actor) :=
    find?_and_key h.ids fun q hq => claimable_id hq
  cases fault with
  | failed message => exact unchanged_turn h hview
  | lost message =>
    show Standing (db.updateProposals _ _) (Function.update views i (some v)) produced
    cases hq : (db.proposal input.proposalId).filter (claimable input.proposalId actor) with
    | none => exact claim_none h hview notes hq
    | some q =>
      rw [hunclaimed]
      exact claim_some h hview hv notes hq (.inl rfl)
  | answered =>
    show Standing (db.updateProposals _ _) (Function.update views i
      (some { v with claimed := (db.proposals.find? _).map _ })) produced
    rw [hfind]
    cases hq : (db.proposal input.proposalId).filter (claimable input.proposalId actor) with
    | none =>
      rw [Option.map_none, ← hunclaimed]
      exact claim_none h hview notes hq
    | some q => exact claim_some h hview hv notes hq (.inr rfl)

theorem reject_turn (id : String) (actor : HistoryActor) (notes : Option String) (fault : Fault) :
    Standing (history.answer fault (.rejectProposal id actor notes) db).2
      (Function.update views i (some (seeHistory v (.rejectProposal id actor notes)
        (history.answer fault (.rejectProposal id actor notes) db).1))) produced := by
  have hsee : ∀ r, seeHistory v (.rejectProposal id actor notes) r = v := by
    intro r
    cases r <;> rfl
  have htaken : Standing
      (db.updateProposals (fun p => p.id = id && p.status = .pending)
        (MergeProposal.rejected actor notes)) (Function.update views i (some v)) produced := by
    have hproposal := proposal_update db (p := fun p => p.id = id && p.status = .pending)
      (f := MergeProposal.rejected actor notes) id
      (fun q hq => by
        rw [Bool.and_eq_true, decide_eq_true_eq] at hq
        exact hq.1) (fun _ => rfl)
    refine h.advance_at hview h.keyed (map_updateWhere _ _ fun _ => rfl) (List.prefix_refl _)
      (h.claims i v hview) id (fun id' hne => ⟨?_, rfl⟩) ?_
    · rw [hproposal, if_neg hne]
    · rw [hproposal, if_pos rfl, ← gripsOn_self hview, Function.update_eq_self]
      have hstage := h.stages id
      cases hq : db.proposal id with
      | none =>
        rw [hq] at hstage
        exact hstage
      | some q =>
        rw [hq] at hstage
        rw [Option.map_some]
        split
        · rename_i hpending
          rw [Bool.and_eq_true, decide_eq_true_eq, decide_eq_true_eq] at hpending
          obtain ⟨hgrips, hnothing⟩ := hstage.of_status
            (by rw [hpending.2]; exact MergeProposalStatus.noConfusion)
            (by rw [hpending.2]; exact MergeProposalStatus.noConfusion)
          rw [hgrips, hnothing]
          refine .idle ?_
          rintro p ⟨⟩
          exact MergeProposalStatus.noConfusion
        · exact hstage
  rw [hsee]
  cases fault with
  | failed message => exact unchanged_turn h hview
  | answered | lost => exact htaken

variable {p : MergeProposal}

/-- The mark of a proposal takes effect: it is applied, by the event that was written. -/
theorem mark_turn (hv : Holding (.approve minted projectId input) p true v) {fault : Fault}
    (htaken : Taken fault) : Standing (history.answer fault (.markApplied p.id minted.eventId) db).2
      (Function.update views i (some (seeHistory v (.markApplied p.id minted.eventId)
        (history.answer fault (.markApplied p.id minted.eventId) db).1))) produced := by
  have hworld : (history.answer fault (.markApplied p.id minted.eventId) db).2 =
      db.updateProposals (fun q => q.id = p.id && q.status = .applying)
        (MergeProposal.applied minted.eventId) := by
    cases fault with
    | failed message => exact absurd rfl (htaken message)
    | answered | lost => rfl
  have hsee : ∀ r, seeHistory v (.markApplied p.id minted.eventId) r = { v with marked := true } := by
    intro r
    cases r <;> rfl
  have hproposal := proposal_update db (p := fun q => q.id = p.id && q.status = .applying)
    (f := MergeProposal.applied minted.eventId) p.id
    (fun q hq => by
      rw [Bool.and_eq_true, decide_eq_true_eq] at hq
      exact hq.1) (fun _ => rfl)
  have hgrip : gripsOn views p.id i = some (.wrote minted.eventId) := by
    rw [gripsOn_self hview, hv.grip, if_pos rfl]
    rfl
  have hmarked : ∀ id, ({ v with marked := true } : Seen).grip id =
      if p.id = id then some .marked else none :=
    fun id => grip_approve (v := { v with marked := true }) hv.writer hv.claimed id
  obtain ⟨q, x, hq, happlying, hgrips, hxs, hevent⟩ := (h.stages p.id).of_wrote hgrip
  rw [hworld, hsee]
  refine h.advance_at hview h.keyed (map_updateWhere _ _ fun _ => rfl) (List.prefix_refl _)
    (fun p' hp' => ?_) p.id (fun id hne => ⟨?_, ?_⟩) ?_
  · exact h.claims i v hview p' hp'
  · rw [hproposal, if_neg hne]
  · rw [hv.grip, if_neg (Ne.symm hne), hmarked, if_neg (Ne.symm hne)]
  · rw [hproposal, if_pos rfl, hq, Option.map_some, hgrips, hxs, update_only,
      hmarked, if_pos rfl, if_pos]
    · exact .marked i x rfl (congrArg some hevent.symm)
    · rw [Bool.and_eq_true, decide_eq_true_eq, decide_eq_true_eq]
      exact ⟨proposal_id hq, happlying⟩

/-- A proposal is released: it was not written for, or it is applied already. -/
theorem release_turn
    (hwriter : v.writer = .approve minted projectId input) (hclaimed : v.claimed = some p)
    (hmarked : v.wrote = true → v.marked = true) (fault : Fault) :
    Standing (history.answer fault (.releaseClaim p.id) db).2
      (Function.update views i (some (seeHistory v (.releaseClaim p.id)
        (history.answer fault (.releaseClaim p.id) db).1))) produced := by
  have hsee : ∀ r, seeHistory v (.releaseClaim p.id) r = { v with claimed := none } := by
    intro r
    cases r <;> rfl
  have hnone : ∀ id, ({ v with claimed := none } : Seen).grip id = none := grip_unclaimed rfl
  have hclaims : ClaimSeen db { v with claimed := none } := by
    rintro p' ⟨⟩
  have hgrip : gripsOn views p.id i = some (if v.marked then .marked else .held) := by
    rw [gripsOn_self hview, grip_approve hwriter hclaimed, if_pos rfl]
    cases hwrote : v.wrote with
    | true => rw [hmarked hwrote]; rfl
    | false => rfl
  have hother : ∀ id, id ≠ p.id → ({ v with claimed := none } : Seen).grip id = v.grip id := by
    intro id hne
    rw [hnone, grip_approve hwriter hclaimed, if_neg (Ne.symm hne)]
  have hstays : Stage (db.proposal p.id) (Function.update (gripsOn views p.id) i none)
      (producedOf produced p.id) := by
    refine (h.stages p.id).drop fun eventId => ?_
    rw [hgrip]
    split <;> rintro ⟨⟩
  have hdropped : Standing db (Function.update views i (some { v with claimed := none }))
      produced := by
    refine h.advance_at hview h.keyed rfl (List.prefix_refl _) hclaims p.id
      (fun id hne => ⟨rfl, hother id hne⟩) ?_
    rw [hnone]
    exact hstays
  have htaken : Standing
      (db.updateProposals (fun q => q.id = p.id && q.status = .applying) MergeProposal.released)
      (Function.update views i (some { v with claimed := none })) produced := by
    have hproposal := proposal_update db (p := fun q => q.id = p.id && q.status = .applying)
      (f := MergeProposal.released) p.id
      (fun q hq => by
        rw [Bool.and_eq_true, decide_eq_true_eq] at hq
        exact hq.1) (fun _ => rfl)
    refine h.advance_at hview h.keyed (map_updateWhere _ _ fun _ => rfl) (List.prefix_refl _)
      hclaims p.id (fun id hne => ⟨?_, hother id hne⟩) ?_
    · rw [hproposal, if_neg hne]
    · rw [hproposal, if_pos rfl, hnone]
      have hstage := h.stages p.id
      cases hq : db.proposal p.id with
      | none =>
        rw [hq] at hstays
        exact hstays
      | some q =>
        rw [hq] at hstays hstage
        rw [Option.map_some]
        split
        · -- it is being applied: nothing has been written for it
          rename_i happlying
          rw [Bool.and_eq_true, decide_eq_true_eq, decide_eq_true_eq] at happlying
          cases hv : v.marked with
          | true =>
            rw [hv] at hgrip
            obtain ⟨_, _, hq', happlied, _⟩ := hstage.of_marked hgrip
            cases hq'
            rw [happlied] at happlying
            cases happlying.2
          | false =>
            rw [hv] at hgrip
            obtain ⟨_, _, _, hgrips, hnothing⟩ := hstage.of_held hgrip
            rw [hgrips, hnothing, update_only, update_noGrip]
            refine .idle ?_
            rintro p' ⟨⟩
            exact MergeProposalStatus.noConfusion
        · exact hstays
  rw [hsee]
  cases fault with
  | failed message => exact hdropped
  | answered | lost => exact htaken

end Turns

/-! ### The write -/

theorem approved_columns {r : ObjectRow} (h : RowKept projectId input p r) :
    (fun c => (writeColumns (approvedInput input p) input.actor projectId c).or (r.columns c)) =
      r.columns := by
  funext c
  cases c with
  | runId => exact h.runId
  | projectId => exact h.projectId
  | _ => rfl

/-- **What the write of an approval does**: one event, as approved. -/
theorem approved_write {event : EventArgs} {before : Option ObjectRow}
    (hkeyed : db.Keyed) (h : transaction db [approvedUpdate projectId input p event before] = .ok db')
    (hrow : ∀ r ∈ db.object p.objectId, RowKept projectId input p r)
    (hnames : PlainNames p.proposedFields input.selectedFields input.currentData) :
    ∃ e, db'.events = db.events ++ [e] ∧ e.id = event.eventId ∧
      AsApproved p { input := input, before := db.object e.objectId, event := e } := by
  obtain ⟨db₁, happly, hrest⟩ := transaction_cons h
  obtain ⟨row, hwrote⟩ := apply_ok happly
  rw [transaction_nil hrest]
  obtain ⟨r, hobject, hfinds, rfl⟩ := hwrote.found hkeyed fun _ => Statement.noConfusion
  have hkept := hrow r hobject
  have hid : r.id = p.objectId := object_id hobject
  have hversion : r.version = p.baseVersion := by
    have hasks := Statement.finds_asks hfinds
    exact (Option.some.inj hasks).symm
  refine ⟨_, hwrote.events, rfl, hid, ⟨rfl, ?_⟩, r, _, ?_, ?_, (mergedData_overlay _ _ _).mpr hnames⟩
  · show r.version + 1 = _
    rw [hversion]
  · show db.object r.id = some r
    rw [hid]
    exact hobject
  · refine congrArg some ?_
    rw [approvedUpdate, Statement.sets, writeArgs]
    dsimp only
    rw [approved_columns hkept, hversion]
    obtain ⟨_, _, _, _, _, _, _, _, _⟩ := r
    obtain ⟨rfl, rfl, rfl, _, _⟩ := hkept
    rfl

theorem additions_same (approval : Option ApproveMergeProposalInput)
    {events : List ObjectChangeEvent} (h : events = db.events) :
    additions approval db events = [] := by
  cases approval with
  | none => rfl
  | some input =>
    rw [additions, h, List.drop_length]
    rfl

variable {fault : Fault}

theorem answer_untaken (h : ¬ (Taken fault ∧ ∃ db', transaction db statements = .ok db')) :
    ∃ err, history.answer fault (.transaction statements) db = (.error err, db) := by
  cases htransaction : transaction db statements with
  | error e =>
    cases fault with
    | failed message => exact ⟨_, rfl⟩
    | answered =>
      refine ⟨.sql e, ?_⟩
      simp only [history, answerHistory, htransaction]
      rfl
    | lost message =>
      refine ⟨.thrown message, ?_⟩
      simp only [history, answerHistory, htransaction]
  | ok db' =>
    cases fault with
    | failed message => exact ⟨_, rfl⟩
    | answered | lost => exact absurd ⟨fun _ => Fault.noConfusion, db', htransaction⟩ h

theorem approval_none {w : Writer}
    (h : ∀ minted projectId input, w ≠ .approve minted projectId input) : w.approval = none := by
  cases w with
  | approve minted projectId input => exact absurd rfl (h minted projectId input)
  | _ => rfl

variable {produced : List Produced}

theorem Standing.write
    (h : Standing db views produced) (hview : views i = some v)
    (hv : Holding (.approve minted projectId input) p false v) (hkeyed : db'.Keyed)
    (hproposals : db'.proposals = db.proposals) (hgrows : db.events <+: db'.events)
    (hinput : x.input = input) (hevent : x.event.id = minted.eventId)
    (hlogged : x.event ∈ db'.events) (happroved : AsApproved p x) :
    Standing db' (Function.update views i (some { v with wrote := true })) (produced ++ [x]) := by
  have hgrip : gripsOn views p.id i = some .held := by
    rw [gripsOn_self hview, hv.grip, if_pos rfl]
    rfl
  obtain ⟨q, hq, happlying, hgrips, hnothing⟩ := (h.stages p.id).of_held hgrip
  obtain ⟨⟨q', hq', hterms⟩, hid⟩ := h.claims i v hview p hv.claimed
  have hproposalId : x.input.proposalId = p.id := by
    rw [hinput, hid minted projectId input hv.writer]
  have hwrote : Holding (.approve minted projectId input) p true { v with wrote := true } :=
    ⟨hv.writer, hv.claimed, rfl, hv.marked⟩
  have hsame : ∀ id, db'.proposal id = db.proposal id := by
    intro id
    rw [Db.proposal, hproposals]
    rfl
  refine h.advance hkeyed (congrArg _ hproposals) hgrows (h.claims i v hview) ?_ fun id => ?_
  · rintro x' hx'
    rw [List.mem_singleton.mp hx']
    refine ⟨hlogged, fun r hr => ?_⟩
    rw [hproposalId, hq'] at hr
    rw [← Option.some.inj hr]
    exact happroved.congr hterms.symm
  · rw [hsame, producedOf_append, hwrote.grip]
    by_cases hpid : p.id = id
    · have hx : producedOf [x] p.id = [x] := by
        rw [producedOf, List.filter_singleton, decide_eq_true hproposalId]
        rfl
      rw [← hpid, hq, hgrips, hnothing, update_only, if_pos rfl, hx, if_pos rfl, ← hevent]
      exact .wrote i x happlying
    · have hx : producedOf [x] id = [] := by
        rw [producedOf, List.filter_singleton, hproposalId, decide_eq_false hpid]
        rfl
      have hnone : gripsOn views id i = none := by
        rw [gripsOn_self hview, hv.grip, if_neg hpid]
      rw [hx, List.append_nil, if_neg hpid, ← hnone, Function.update_eq_self]
      exact h.stages id

variable {s : Reviewed}

theorem transaction_turn (hcall : NextCall s.pool i (.transaction statements) v)
    (hmay : MayReview v (.transaction statements)) (hok : StepApproves s (.turn i fault))
    (h : Standing s.pool.world s.pool.views s.produced) :
    Standing (history.answer fault (.transaction statements) s.pool.world).2
      (Function.update s.pool.views i (some (seeHistory v (.transaction statements)
        (history.answer fault (.transaction statements) s.pool.world).1)))
      (s.produced ++ additions v.writer.approval s.pool.world
        (history.answer fault (.transaction statements) s.pool.world).2.events) := by
  by_cases htaken : Taken fault ∧ ∃ db', transaction s.pool.world statements = .ok db'
  · by_cases hwriter : ∃ minted projectId input, v.writer = .approve minted projectId input
    · obtain ⟨minted, projectId, input, hwriter⟩ := hwriter
      obtain ⟨p, event, before, hv, hevent, rfl⟩ := hmay minted projectId input hwriter
      rw [hwriter] at hv
      obtain ⟨rfl, hrow, hnames⟩ := hok.writes i fault _ v minted projectId input p rfl hcall
        hwriter hv.claimed htaken.1 htaken.2
      obtain ⟨_, db', htransaction⟩ := htaken
      have hanswer : history.answer .answered
          (.transaction [approvedUpdate projectId input p event before]) s.pool.world =
          (.ok (), db') := by
        simp only [history, answerHistory, htransaction]
        rfl
      obtain ⟨e, hevents, heventId, happroved⟩ := approved_write h.keyed htransaction hrow hnames
      have hadded : additions v.writer.approval s.pool.world db'.events =
          [{ input := input, before := s.pool.world.object e.objectId, event := e }] := by
        rw [hwriter, hevents]
        simp only [additions, Writer.approval, Option.elim_some, List.drop_left, List.map_cons,
          List.map_nil]
      rw [hanswer]
      dsimp only
      rw [hadded]
      refine h.write hcall.view hv (transaction_keyed htransaction h.keyed)
        (transaction_proposals htransaction) (transaction_grows htransaction) rfl
        (heventId.trans hevent) ?_ happroved
      rw [hevents]
      exact List.mem_append_right _ (List.mem_singleton_self e)
    · have hother : ∀ minted projectId input, v.writer ≠ .approve minted projectId input :=
        fun minted projectId input hw => hwriter ⟨minted, projectId, input, hw⟩
      rw [approval_none hother]
      show Standing _ _ (s.produced ++ [])
      rw [List.append_nil]
      obtain ⟨htaken, db', htransaction⟩ := htaken
      have hworld : (history.answer fault (.transaction statements) s.pool.world).2 = db' := by
        cases fault with
        | failed message => exact absurd rfl (htaken message)
        | answered | lost => simp only [history, answerHistory, htransaction]
      rw [hworld]
      refine h.advance_quiet hcall.view (transaction_keyed htransaction h.keyed)
        (transaction_proposals htransaction) (transaction_grows htransaction)
        ((h.claims i v hcall.view).see _ fun _ _ _ => HistoryCall.noConfusion) fun id => ?_
      rw [grip_unapproving hother, grip_unapproving]
      rw [seeHistory_writer]
      exact hother
  · obtain ⟨err, hanswer⟩ := answer_untaken htaken
    rw [hanswer]
    show Standing s.pool.world _ (s.produced ++ additions _ _ s.pool.world.events)
    rw [additions_same _ rfl, List.append_nil]
    exact unchanged_turn h hcall.view

theorem standing_turn
    (hcall : NextCall s.pool i c v) (hmay : MayReview v c) (hok : StepApproves s (.turn i fault))
    (h : Standing s.pool.world s.pool.views s.produced) :
    Standing (history.answer fault c s.pool.world).2
      (Function.update s.pool.views i (some (seeHistory v c
        (history.answer fault c s.pool.world).1)))
      (s.produced ++ additions v.writer.approval s.pool.world
        (history.answer fault c s.pool.world).2.events) := by
  have hsilent : (∀ statements, c ≠ .transaction statements) →
      additions v.writer.approval s.pool.world
        (history.answer fault c s.pool.world).2.events = [] := by
    intro hc
    refine additions_same _ ?_
    rcases answer_writes fault c s.pool.world with ⟨_, hevents⟩ | ⟨statements, rfl, _⟩
    · exact hevents
    · exact absurd rfl (hc statements)
  cases c with
  | transaction statements => exact transaction_turn hcall hmay hok h
  | claimProposal id actor notes =>
    obtain ⟨minted, projectId, input, hv, rfl⟩ := hmay
    rw [hsilent nofun, List.append_nil]
    exact claim_turn h hcall.view hv actor notes fault
  | markApplied id eventId =>
    obtain ⟨minted, projectId, input, p, hv, rfl, rfl⟩ := hmay
    rw [hsilent nofun, List.append_nil]
    exact mark_turn h hcall.view hv (hok.marks i fault _ _ v rfl hcall)
  | releaseClaim id =>
    obtain ⟨minted, projectId, input, p, hwriter, hclaimed, rfl, hmarked⟩ := hmay
    rw [hsilent nofun, List.append_nil]
    exact release_turn h hcall.view hwriter hclaimed hmarked fault
  | rejectProposal id actor notes =>
    rw [hsilent nofun, List.append_nil]
    exact reject_turn h hcall.view id actor notes fault
  | _ =>
    rw [hsilent nofun, List.append_nil]
    refine quiet_turn h hcall.view ?_ fault
    trivial

theorem grip_released (h : Released v) (id eventId : String) :
    v.grip id ≠ some (.wrote eventId) := by
  unfold Seen.grip
  split
  · rename_i minted projectId input p hwriter hclaimed
    rcases h with hnone | hmarked
    · rw [hnone] at hclaimed
      cases hclaimed
    · rw [hmarked]
      split <;> rintro ⟨⟩
  · rintro ⟨⟩

theorem grip_killed (h : ∀ p, v.claimed = some p → v.wrote = true → v.marked = true)
    (id eventId : String) : v.grip id ≠ some (.wrote eventId) := by
  unfold Seen.grip
  split
  · rename_i minted projectId input p hwriter hclaimed
    split
    · cases hmarked : v.marked with
      | true => rintro ⟨⟩
      | false =>
        cases hwrote : v.wrote with
        | true => exact absurd ((h p hclaimed hwrote).symm.trans hmarked) (by decide)
        | false => rintro ⟨⟩
    · rintro ⟨⟩
  · rintro ⟨⟩

theorem standing_step {e : WriterEvent}
    (hends : s.pool.Every (Task.Ends seeHistory MayReview Released)) (hok : StepApproves s e)
    (h : Standing s.pool.world s.pool.views s.produced) :
    Standing (reviewStep s e).pool.world (reviewStep s e).pool.views (reviewStep s e).produced := by
  show Standing (writerStep s.pool e).world (writerStep s.pool e).views
    (s.produced ++ additions (approving s.pool e) s.pool.world (writerStep s.pool e).world.events)
  have hstepped : Stepped historyHost seeHistory (Writer.task newSeen) MayReview Released s.pool e
      (writerStep s.pool e).world (writerStep s.pool e).views := step_stepped hends e
  generalize (writerStep s.pool e).world = world at hstepped ⊢
  generalize (writerStep s.pool e).views = views at hstepped ⊢
  cases hstepped with
  | idle =>
    rw [additions_same _ rfl, List.append_nil]
    exact h
  | @started i w hnew =>
    rw [additions_same _ rfl, List.append_nil]
    have hview : (w.task newSeen).view = newSeen w := by
      cases w <;> rfl
    rw [hview]
    refine ⟨h.keyed, h.ids, fun id => ?_, fun j v hv => ?_, h.faithful⟩
    · have hnone : gripsOn s.pool.views id i = none := by
        rw [gripsOn, hnew]
        rfl
      rw [gripsOn_update, Option.bind_some, grip_unclaimed rfl, ← hnone, Function.update_eq_self]
      exact h.stages id
    · rcases update_cases hv with ⟨-, hv⟩ | ⟨hj, hv⟩
      · rw [← Option.some.inj hv]
        rintro p ⟨⟩
      · exact h.claims j v hv
  | @killed i v hview =>
    show Standing s.pool.world _ (s.produced ++ additions _ _ s.pool.world.events)
    rw [additions_same _ rfl, List.append_nil]
    exact h.drop hview (grip_killed fun p => hok.kills i v p rfl hview)
  | @answered i fault c v hcall hmay _ =>
    have hturn := standing_turn hcall hmay hok h
    rw [show approving s.pool (.turn i fault) = v.writer.approval from by
      rw [approving, hcall.view]
      rfl]
    exact hturn
  | @ended i fault c v hcall hmay _ hend =>
    have hturn := standing_turn hcall hmay hok h
    rw [show approving s.pool (.turn i fault) = v.writer.approval from by
      rw [approving, hcall.view]
      rfl]
    have hdropped := hturn.drop (Function.update_self _ _ _) (grip_released hend)
    rw [Function.update_idem] at hdropped
    exact hdropped

/-! ## Every run -/

theorem marking_of_grip {id eventId : String}
    (hv : views i = some v) (hgrip : v.grip id = some (.wrote eventId)) :
    ∃ p, views i = some v ∧ v.claimed = some p ∧ p.id = id ∧ v.wrote = true ∧ v.marked = false := by
  unfold Seen.grip at hgrip
  split at hgrip
  · rename_i minted projectId input p hwriter hclaimed
    split at hgrip
    · rename_i hid
      cases hmarked : v.marked with
      | true =>
        rw [hmarked] at hgrip
        cases hgrip
      | false =>
        cases hwrote : v.wrote with
        | true => exact ⟨p, hv, hclaimed, hid, rfl, rfl⟩
        | false =>
          rw [hmarked, hwrote] at hgrip
          cases hgrip
    · cases hgrip
  · cases hgrip

theorem Stage.produced_le {q : Option MergeProposal} {grips : Grips} {xs : List Produced}
    (h : Stage q grips xs) : xs.length ≤ 1 := by
  cases h with
  | idle | held => exact Nat.zero_le 1
  | wrote | marked | done => exact Nat.le_refl 1

theorem mem_producedOf : x ∈ producedOf produced id ↔ x ∈ produced ∧ x.input.proposalId = id := by
  rw [producedOf, List.mem_filter, decide_eq_true_eq]

theorem produced_once (h : ∀ id, (producedOf produced id).length ≤ 1) :
    produced.Pairwise (fun x y => x.input.proposalId ≠ y.input.proposalId) := by
  induction produced with
  | nil => exact List.Pairwise.nil
  | cons x produced ih =>
    have hself : producedOf (x :: produced) x.input.proposalId =
        x :: producedOf produced x.input.proposalId :=
      List.filter_cons_of_pos (decide_eq_true rfl)
    refine List.pairwise_cons.mpr ⟨fun y hy hsame => ?_, ih fun id => ?_⟩
    · have hone := h x.input.proposalId
      rw [hself, List.length_cons] at hone
      have hmem : y ∈ producedOf produced x.input.proposalId :=
        mem_producedOf.mpr ⟨hy, hsame.symm⟩
      exact absurd (List.length_pos_of_mem hmem) (by omega)
    · refine Nat.le_trans (List.Sublist.length_le ?_) (h id)
      exact List.Sublist.filter _ (List.sublist_cons_self x produced)

theorem Standing.approved (h : Standing s.pool.world s.pool.views s.produced) :
    AppliedAsApproved s := by
  refine ⟨produced_once fun id => (h.stages id).produced_le, fun q hq happlied => ?_,
    fun x hx => ⟨(h.faithful x hx).1, ?_⟩⟩
  · have hfound : s.pool.world.proposal q.id = some q := find?_eq_some_of_key h.ids hq
    have hstage := h.stages q.id
    rw [hfound] at hstage
    have hmem : ∀ x, producedOf s.produced q.id = [x] →
        x ∈ s.produced ∧ x.input.proposalId = q.id := by
      intro x hxs
      refine mem_producedOf.mp ?_
      rw [hxs]
      exact List.mem_singleton_self x
    generalize producedOf s.produced q.id = xs at hstage hmem
    generalize gripsOn s.pool.views q.id = grips at hstage
    cases hstage with
    | idle hq => exact absurd happlied (hq q rfl)
    | held i hq => rw [hq] at happlied; cases happlied
    | wrote i x hq => rw [hq] at happlied; cases happlied
    | marked i x _ hevent => exact ⟨x, (hmem x rfl).1, (hmem x rfl).2, hevent⟩
    | done x _ hevent => exact ⟨x, (hmem x rfl).1, (hmem x rfl).2, hevent⟩
  · have hmem : x ∈ producedOf s.produced x.input.proposalId := mem_producedOf.mpr ⟨hx, rfl⟩
    have hfaithful := (h.faithful x hx).2
    have hstage := h.stages x.input.proposalId
    generalize producedOf s.produced x.input.proposalId = xs at hstage hmem
    generalize hgrips : gripsOn s.pool.views x.input.proposalId = grips at hstage
    generalize hq : s.pool.world.proposal x.input.proposalId = row at hstage hfaithful
    have hthere : ∀ q, row = some q → q ∈ s.pool.world.proposals ∧ q.id = x.input.proposalId := by
      rintro q rfl
      exact ⟨List.mem_of_find?_eq_some hq, proposal_id hq⟩
    cases hstage with
    | idle | held => cases hmem
    | @wrote q i x' hstatus =>
      obtain ⟨hq, hid⟩ := hthere q rfl
      refine ⟨q, hq, hid, hfaithful q rfl, .inr ⟨hstatus, ?_⟩⟩
      have hgrip : gripsOn s.pool.views x.input.proposalId i = some (.wrote x'.event.id) := by
        rw [hgrips, only_self]
      rw [gripsOn, Option.bind_eq_some_iff] at hgrip
      obtain ⟨v, hv, hgrip⟩ := hgrip
      rw [hid]
      exact ⟨i, v, marking_of_grip hv hgrip⟩
    | marked i x' hstatus _ =>
      obtain ⟨hq, hid⟩ := hthere _ rfl
      exact ⟨_, hq, hid, hfaithful _ rfl, .inl hstatus⟩
    | done x' hstatus _ =>
      obtain ⟨hq, hid⟩ := hthere _ rfl
      exact ⟨_, hq, hid, hfaithful _ rfl, .inl hstatus⟩

/-- A database with proposals that are yet to be applied, and nobody at work on it. -/
def underReview (db : Db) : Reviewed := { pool := started db }

/-- **Every proposal is applied as approved, at most once**, in every run whose approvals write
    what they find otherwise, learn that they have written, and mark what they have written. -/
theorem applied_as_approved {db : Db} (hkeyed : db.Keyed)
    (hids : (db.proposals.map MergeProposal.id).Nodup)
    (hopen : ∀ q ∈ db.proposals, q.status ≠ .applied) {events : List WriterEvent}
    (h : Admits reviewStep StepApproves (underReview db) events) :
    AppliedAsApproved (events.foldl reviewStep (underReview db)) := by
  refine Standing.approved (h.leads.preserves
    (I := fun s : Reviewed => s.pool.Every (Task.Ends seeHistory MayReview Released) ∧
      Standing s.pool.world s.pool.views s.produced) ?_ ⟨?_, ?_⟩).2
  · rintro s e ⟨hends, hstanding⟩ hok
    refine ⟨?_, standing_step hends hok hstanding⟩
    exact step_every writer_ends (fun _ _ _ r hcall => (Task.Ends.call hcall).2 r) e hends
  · rintro i t ⟨⟩
  · refine ⟨hkeyed, hids, fun id => .idle fun q hq => ?_, ?_, ?_⟩
    · exact hopen q (List.mem_of_find?_eq_some hq)
    · rintro i v ⟨⟩
    · rintro x ⟨⟩

/-! ### A title, proposed -/

/-- A new title for a note. -/
def titleProposal : MergeProposal where
  id := "p"
  objectId := "x"
  objectType := "note"
  baseVersion := 1
  proposedFields := [("title", some (.str "b"))]
  status := .pending
  orgId := retyper.orgId

/-- The note, in some folder or in none. -/
def noteProposed (parentId : Option String) : Db where
  objects := [{ id := "x", type := "note", data := [("title", .str "a")], parentId := parentId,
                parentType := none, columns := fun _ => none, orgId := none, version := 1,
                deleted := false }]
  proposals := [titleProposal]

def titleApproved : ApproveMergeProposalInput where
  proposalId := "p"
  actor := retyper
  currentData := [("title", .str "a")]

/-- The approval, up to its mark: the claim, the change set, two reads, the write, and the change
    set closed. -/
def titleWritten : List WriterEvent :=
  .start 0 (.approve (mintedFor "c") none titleApproved) :: List.replicate 7 (.turn 0 .answered)

def titleApplied : List WriterEvent := titleWritten ++ [.turn 0 .answered]

/-- The task is about to write. -/
def aboutToWrite (s : Reviewed) (i : Nat) : Bool :=
  match s.pool.tasks i with
  | some ⟨.call (.transaction _) _, _⟩ => true
  | _ => false

theorem taken_answered : Taken .answered := fun _ => Fault.noConfusion

theorem approves_turn (hquiet : aboutToWrite s i = false) :
    StepApproves s (.turn i .answered) := by
  refine ⟨?_, ?_, ?_⟩
  · rintro _ _ statements v _ _ _ _ ⟨⟩ ⟨k, hk⟩
    simp only [aboutToWrite, hk] at hquiet
    cases hquiet
  · rintro _ _ _ _ _ ⟨⟩ _
    exact taken_answered
  · rintro _ _ _ ⟨⟩

theorem applied_as_approved_title : AppliedAsApproved
    (titleApplied.foldl reviewStep (underReview (noteProposed none))) := by
  refine applied_as_approved ?_ ?_ ?_ ⟨?_, approves_turn rfl, approves_turn rfl, approves_turn rfl,
    approves_turn rfl, ?_, approves_turn rfl, approves_turn rfl, approves_turn rfl, trivial⟩
  · unfold Db.Keyed
    decide
  · decide
  · decide
  · refine ⟨?_, ?_, ?_⟩
    · rintro _ _ _ _ _ _ _ _ ⟨⟩
    · rintro _ _ _ _ _ ⟨⟩
    · rintro _ _ _ ⟨⟩
  · refine ⟨?_, ?_, ?_⟩
    · rintro _ _ statements v minted projectId input p ⟨⟩ ⟨k, hk⟩ hwriter hclaimed _ _
      cases hk
      cases hwriter
      cases hclaimed
      refine ⟨rfl, ?_, ?_⟩
      · intro r hr
        cases hr
        exact ⟨rfl, rfl, rfl, rfl, rfl⟩
      · intro name hname
        rw [List.mem_singleton.mp hname]
        refine ⟨fun hown => absurd hown ?_, fun value hproto _ => absurd hproto (by decide)⟩
        exact Option.some_ne_none _
    · rintro _ _ _ _ _ ⟨⟩ _
      exact taken_answered
    · rintro _ _ _ ⟨⟩

/-- The mark fails, the proposal is released, and then rejected. -/
def titleRejected : List WriterEvent :=
  titleWritten ++ [.turn 0 (.failed "timeout"), .turn 0 .answered,
    .start 1 (.reject { proposalId := "p", actor := retyper }), .turn 1 .answered,
    .turn 1 .answered]

/-- Where a note is, before and after an event that an approval has made. -/
def Produced.places (x : Produced) : Option (Option String) × Option (Option String) :=
  (x.before.map ObjectRow.parentId, x.event.afterSnapshot.map ObjectRow.parentId)

theorem moved_not_approved {folder : String}
    (hmoved : s.produced.map Produced.places = [(some (some folder), some none)]) :
    ¬ AppliedAsApproved s := by
  intro h
  obtain ⟨x, hx⟩ : ∃ x, s.produced = [x] := by
    rw [← List.length_eq_one_iff, ← List.length_map, hmoved]
    rfl
  obtain ⟨_, q, _, _, happroved, _⟩ := h.produced x (hx ▸ List.mem_singleton_self x)
  obtain ⟨before, data, hbefore, hafter, _⟩ := happroved.onlyData
  rw [hx, List.map_singleton, List.singleton_inj, Produced.places, hbefore, hafter] at hmoved
  have hplaces : (some before.parentId, some before.parentId) = (some (some folder), some none) :=
    hmoved
  rw [Prod.mk.injEq, Option.some_inj, Option.some_inj] at hplaces
  exact Option.some_ne_none folder (hplaces.1.symm.trans hplaces.2)

/-- A proposal that has been rejected, and yet has produced an event. -/
theorem rejected_not_approved
    (hstatus : s.pool.world.proposals.map (fun q => (q.id, q.status)) = [("p", .rejected)])
    (hproduced : s.produced.map (fun x => x.input.proposalId) = ["p"]) : ¬ AppliedAsApproved s := by
  intro h
  obtain ⟨x, hx⟩ : ∃ x, s.produced = [x] := by
    rw [← List.length_eq_one_iff, ← List.length_map, hproduced]
    rfl
  obtain ⟨q, hq⟩ : ∃ q, s.pool.world.proposals = [q] := by
    rw [← List.length_eq_one_iff, ← List.length_map, hstatus]
    rfl
  rw [hq, List.map_singleton, List.singleton_inj, Prod.mk.injEq] at hstatus
  obtain ⟨_, q', hq', _, _, hthen⟩ := h.produced x (hx ▸ List.mem_singleton_self x)
  rw [hq, List.mem_singleton] at hq'
  rw [hq', hstatus.2] at hthen
  rcases hthen with happlied | ⟨happlying, _⟩
  · cases happlied
  · cases happlying

theorem title_misapplied : ¬ AppliedAsApproved
        (titleApplied.foldl reviewStep (underReview (noteProposed (some "folder")))) ∧
      ¬ AppliedAsApproved (titleRejected.foldl reviewStep (underReview (noteProposed none))) := by
  refine ⟨@moved_not_approved _ "folder" ?_, rejected_not_approved ?_ ?_⟩
  · decide +kernel
  · decide +kernel
  · decide +kernel

end History
