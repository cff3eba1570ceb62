import Cinatra.Workflows.AttemptLedger
import Cinatra.Workflows.Frames

/-! # Leases — who owns a dispatch

    A dispatch is owned through the token of its lease.  Tokens are fresh, so a
    token that has left the table never comes back, and the outcome of whoever
    still holds it is dropped.  A settled attempt is never written again, and a
    reclaim hands out the number and key of the attempt it took over
    (`lease_ownership`).  While a lease is unexpired, nothing but the crash
    recovery of an instantaneous executor and the close of the workflow takes
    the task from its dispatcher (`healthy_dispatch`). -/

namespace WfLeases

open RowTable WfTransitions WfSpec WfRows WfHost WfState WfReconciler WfSettle
open WfApprovals WfLifecycle WfForeachReconciler WfEngine WfStore WfActs WfInvariant WfPaths
open WfInterference WfClaiming WfSettling WfClosing WfRollup WfEditing WfRevising WfRuns
open WfFrames WfAttemptLedger WfValidate

variable {host : Host} {e e' m cur : Engine}

/-! ## Attempts and tokens along a path -/

variable {a : AttemptRow}

theorem Settled.trans {a' a'' : AttemptRow} (h : Settled a a') (h' : Settled a' a'') :
    Settled a a'' := by
  rcases h with rfl | ⟨hrun, hid, htask, hno, hkey⟩
  · exact h'
  · exact .inr ⟨hrun, h'.id.trans hid, h'.taskId.trans htask, h'.attemptNo.trans hno,
      h'.idempotencyKey.trans hkey⟩

/-- What an act keeps of the attempts and the claims handed out, and where a lease's
    token comes from. -/
structure Owned (e e' : Engine) : Prop where
  attempts : ∀ a ∈ e.db.attempts, ∃ a' ∈ e'.db.attempts, Settled a a'
  dispatched : ∀ c ∈ e.dispatched, c ∈ e'.dispatched
  nextUuid : e.nextUuid ≤ e'.nextUuid
  tokens : ∀ l' ∈ e'.db.leases, (∃ l ∈ e.db.leases, l.token = l'.token) ∨
    ∃ n, l'.token = .uuid n ∧ e.nextUuid ≤ n

theorem Owned.refl (e : Engine) : Owned e e :=
  ⟨fun a ha => ⟨a, ha, .inl rfl⟩, fun _ hc => hc, Nat.le_refl _, fun l hl => .inl ⟨l, hl, rfl⟩⟩

theorem Owned.trans (h : Owned e m) (h' : Owned m e') : Owned e e' := by
  refine ⟨?_, fun c hc => h'.dispatched c (h.dispatched c hc), Nat.le_trans h.nextUuid h'.nextUuid,
    ?_⟩
  · intro a ha
    obtain ⟨b, hb, hab⟩ := h.attempts a ha
    obtain ⟨c, hc, hbc⟩ := h'.attempts b hb
    exact ⟨c, hc, Settled.trans hab hbc⟩
  · intro l'' hl''
    rcases h'.tokens l'' hl'' with ⟨l', hl', htok⟩ | ⟨n, hn, hle⟩
    · rcases h.tokens l' hl' with ⟨l, hl, htok'⟩ | ⟨n, hn, hle⟩
      · exact .inl ⟨l, hl, htok'.trans htok⟩
      · exact .inr ⟨n, htok.symm.trans hn, hle⟩
    · exact .inr ⟨n, hn, Nat.le_trans h.nextUuid hle⟩

theorem RowAct.owned (h : RowAct e e') : Owned e e' := by
  have hsame : ∀ a ∈ e.db.attempts, ∃ a' ∈ e.db.attempts, Settled a a' :=
    fun a ha => ⟨a, ha, .inl rfl⟩
  have hkept : ∀ l' ∈ e.db.leases, (∃ l ∈ e.db.leases, l.token = l'.token) ∨
      ∃ n, l'.token = .uuid n ∧ e.nextUuid ≤ n := fun l hl => .inl ⟨l, hl, rfl⟩
  refine ⟨?_, ?_, RowAct.nextUuid h, ?_⟩
  · cases h with
    | attempts p f hf =>
      intro a ha
      refine ⟨_, mem_updateWhere.mpr ⟨a, ha, rfl⟩, ?_⟩
      by_cases hp : p a = true
      · rw [if_pos hp]
        have hs := hf a ha hp
        exact .inr ⟨hs.running, hs.id, hs.taskId, hs.attemptNo, hs.idempotencyKey⟩
      · rw [if_neg hp]
        exact .inl rfl
    | launch t f ht hf hl => exact fun a ha => ⟨a, List.mem_append_left _ ha, .inl rfl⟩
    | tasks | artifacts | takeOver | touch | drop | workflow | clock | ids | polled
    | manualRead => exact hsame
  · cases h with
    | launch | takeOver => exact fun c hc => List.mem_append_left _ hc
    | tasks | attempts | artifacts | touch | drop | workflow | clock | ids | polled
    | manualRead => exact fun c hc => hc
  · cases h with
    | launch t f ht hf hl =>
      intro l' hl'
      rcases List.mem_append.mp hl' with hl' | hl'
      · exact hkept l' hl'
      · rw [List.mem_singleton.mp hl']
        exact .inr ⟨e.nextUuid + 1, rfl, Nat.le_succ _⟩
    | takeOver lease attempt hl ha hid htask hexp =>
      intro l' hl'
      rcases updateWhere_cases hl' with ⟨l, hlm, hp, rfl⟩ | ⟨hlm, -⟩
      · exact .inr ⟨e.nextUuid, rfl, Nat.le_refl _⟩
      · exact hkept l' hlm
    | touch p f hf =>
      intro l' hl'
      obtain ⟨l, hlm, rfl⟩ := mem_updateWhere.mp hl'
      by_cases hp : p l = true
      · rw [if_pos hp, (hf l).2.2]
        exact hkept l hlm
      · rw [if_neg hp]
        exact hkept l hlm
    | drop p => exact fun l' hl' => hkept l' (List.mem_of_mem_filter hl')
    | tasks | attempts | artifacts | workflow | clock | ids | polled | manualRead =>
      exact hkept

theorem Path.owned (h : Path e e') : Owned e e' := by
  induction h with
  | refl => exact Owned.refl e
  | tail _ hact ih =>
    cases hact with
    | row hrow => exact ih.trans (RowAct.owned hrow)
    | approvals | solicited | child | dependency | approval =>
      exact ih.trans ⟨fun a ha => ⟨a, ha, .inl rfl⟩, fun _ hc => hc, Nat.le_refl _,
        fun l hl => .inl ⟨l, hl, rfl⟩⟩

private theorem owned_of_framed {a b : Engine} (h : Framed a b) (hn : a.nextUuid ≤ b.nextUuid) :
    Owned a b := by
  refine ⟨?_, ?_, hn, ?_⟩
  · rw [h.attempts]
    exact fun a ha => ⟨a, ha, .inl rfl⟩
  · rw [h.dispatched]
    exact fun _ hc => hc
  · rw [h.leases]
    exact fun l hl => .inl ⟨l, hl, rfl⟩

/-- A claim whose token has left the table. -/
structure Stale (c : ClaimedTask) (e : Engine) : Prop where
  claimed : c ∈ e.dispatched
  gone : ∀ l ∈ e.db.leases, l.token ≠ c.leaseToken

variable {c : ClaimedTask}

theorem Stale.owned (h : Stale c e) (hinv : Inv e) (ho : Owned e e') : Stale c e' := by
  refine ⟨ho.dispatched c h.claimed, ?_⟩
  intro l' hl' htok
  rcases ho.tokens l' hl' with ⟨l, hl, hlt⟩ | ⟨n, hn, hle⟩
  · exact h.gone l hl (hlt.trans htok)
  · have := hinv.carried.old c h.claimed n (htok.symm.trans hn)
    omega

private theorem draft_bare (hinv : Inv e) (hdraft : e.db.workflow.status = .draft) :
    e.db.attempts = [] ∧ e.dispatched = [] := by
  have hatt := (hinv.draft hdraft).attempts
  refine ⟨hatt, List.eq_nil_iff_forall_not_mem.mpr ?_⟩
  intro c hc
  obtain ⟨a, ha, _⟩ := hinv.carried.dispatched c hc
  rw [hatt] at ha
  cases ha

/-- What a step keeps of the attempts and of the stale claims. -/
private theorem Effect.owned (hinv : Inv e) (h : Effect host e e') :
    (∀ a ∈ e.db.attempts, ∃ a' ∈ e'.db.attempts, Settled a a') ∧ ∀ c, Stale c e → Stale c e' := by
  cases h with
  | acts hpath =>
    have ho := Path.owned hpath
    exact ⟨ho.attempts, fun c hc => hc.owned hinv ho⟩
  | closed n hpath hc =>
    have ho := Path.owned hpath
    have hrow := hc.row
    refine ⟨?_, fun c hs => ?_⟩
    · rw [hrow]
      exact ho.attempts
    · obtain ⟨hcl, hgone⟩ := hs.owned hinv ho
      rw [hrow]
      exact ⟨hcl, hgone⟩
  | replaced input cur target hvalid hcur hdraft =>
    obtain ⟨hatt, hdis⟩ := draft_bare hinv hdraft
    refine ⟨?_, fun c hs => ?_⟩
    · rw [hatt]
      exact fun a ha => absurd ha List.not_mem_nil
    · have := hs.claimed
      rw [hdis] at this
      cases this
  | revised input cur target resolved hvalid hcur hpaused hversion hrow hresolved hrev =>
    have hframe := owned_of_framed hrev.frame hrev.nextUuid
    have ho : Owned e (editWorkflowRow cur input target) :=
      Path.owned (hcur.path.path.tail (editWorkflowRow_act hversion))
    exact ⟨(ho.trans hframe).attempts, fun c hs => hs.owned hinv (ho.trans hframe)⟩

private theorem owned_leads (hs : Sound e) (hl : Leads host e e') :
    (∀ a ∈ e.db.attempts, ∃ a' ∈ e'.db.attempts, Settled a a') ∧ ∀ c, Stale c e → Stale c e' := by
  induction hl with
  | refl => exact ⟨fun a ha => ⟨a, ha, .inl rfl⟩, fun _ h => h⟩
  | next hl hok ih =>
    have hm := sound_leads hs hl
    obtain ⟨hatt, hstale⟩ := Effect.owned hm.1 (effect hm.1 hm.2 hok)
    refine ⟨?_, fun c hc => hstale c (ih.2 c hc)⟩
    intro a ha
    obtain ⟨b, hb, hab⟩ := ih.1 a ha
    obtain ⟨c, hc, hbc⟩ := hatt b hb
    exact ⟨c, hc, Settled.trans hab hbc⟩

/-! ## Ownership -/

/-- The outcome of a stale claim changes no row, wherever it stands in a batch. -/
theorem recordOutcomes_stale (hinv : Inv e) (hstale : Stale c e) (now : Instant)
    (before after : List (ClaimedTask × ExecutorOutcome × List LockFree))
    (outcome : ExecutorOutcome) (between : List LockFree) :
    recordOutcomes now e (before ++ (c, outcome, between) :: after) =
      recordOutcomes now (interfere (recordOutcomes now e before) between) after := by
  have hpath : RowPath e (recordOutcomes now e before) := recordOutcomes_path hinv before
  have hm := hinv.path hpath.path
  have hbetween := interfered_interfere hm between
  have hgone : Stale c (interfere (recordOutcomes now e before) between) :=
    (hstale.owned hinv (Path.owned hpath.path)).owned hm (Path.owned hbetween.path.path)
  have hdrop : recordResult now (recordOutcomes now e before) (c, outcome, between) =
      interfere (recordOutcomes now e before) between := by
    rw [recordResult]
    by_cases hc : (recordOutcomes now e before).dispatched.contains c = true
    · rw [if_pos hc]
      exact recordOutcome_dropped (fun l hl _ => hgone.gone l hl)
    · rw [if_neg hc]
  rw [recordOutcomes, List.foldl_append, List.foldl_cons]
  show (after.foldl (recordResult now)
    (recordResult now (recordOutcomes now e before) (c, outcome, between))) = _
  rw [hdrop]
  rfl

/-- No lease of its task carries the claim's token: it was taken over, replaced or
    dropped. -/
def Lost (c : ClaimedTask) (e : Engine) : Prop :=
  ∀ l ∈ e.db.leases, l.taskId = c.taskId → l.token ≠ c.leaseToken

theorem token_taskId (hinv : Inv e) (hc : c ∈ e.dispatched) {l : LeaseRow}
    (hl : l ∈ e.db.leases) (htok : l.token = c.leaseToken) : l.taskId = c.taskId := by
  obtain ⟨b, hb, htask, _, hbtok⟩ := hinv.leased.backed l hl
  have hbc : b = c := eq_of_key hinv.carried.tokens hb hc (hbtok.trans htok)
  rw [← htask, hbc]

theorem Lost.stale (h : Lost c e) (hinv : Inv e) (hc : c ∈ e.dispatched) : Stale c e :=
  ⟨hc, fun l hl htok => h l hl (token_taskId hinv hc hl htok) htok⟩

private theorem settled_kept (hs : Sound e) (hl : Leads host e e')
    (ha : a ∈ e.db.attempts) (hset : a.status ≠ .running) :
    a ∈ e'.db.attempts ∧ ∀ a' ∈ e'.db.attempts, a'.id = a.id → a' = a := by
  obtain ⟨b, hb, hab⟩ := (owned_leads hs hl).1 a ha
  have hba : b = a := hab.resolve_right fun h => hset h.1
  rw [hba] at hb
  refine ⟨hb, fun a' ha' hid => ?_⟩
  exact eq_of_key (sound_leads hs hl).1.ledger.ids ha' hb hid

theorem claim_of_attempt (hinv : Inv e) (hc : c ∈ e.dispatched)
    (ha : a ∈ e.db.attempts) (hid : a.id = c.attemptId) :
    c.taskId = a.taskId ∧ c.attemptNo = a.attemptNo ∧ c.idempotencyKey = a.idempotencyKey := by
  obtain ⟨b, hb, hbid, htask, hno, hkey⟩ := hinv.carried.dispatched c hc
  have hba : b = a := eq_of_key hinv.ledger.ids hb ha (hbid.trans hid.symm)
  rw [← hba]
  exact ⟨htask.symm, hno.symm, hkey.symm⟩

/-- **A dispatch belongs to whoever holds its lease**, on every run and from every
    reachable state on: the outcome of a claim whose lease was lost changes no row,
    a settled attempt is never written again, and whatever step hands out a claim
    for an attempt that exists, a reclaim among them, hands out its number and key. -/
theorem lease_ownership (h : Reachable host e) :
    (∀ c ∈ e.dispatched, Lost c e → ∀ e', Leads host e e' → ∀ now before after outcome between,
        recordOutcomes now e' (before ++ (c, outcome, between) :: after) =
          recordOutcomes now (interfere (recordOutcomes now e' before) between) after) ∧
    (∀ a ∈ e.db.attempts, a.status ≠ .running → ∀ e', Leads host e e' →
      a ∈ e'.db.attempts ∧ ∀ a' ∈ e'.db.attempts, a'.id = a.id → a' = a) ∧
    (∀ op, Validated host e op → ∀ c ∈ (step host e op).dispatched, ∀ a ∈ e.db.attempts,
      a.id = c.attemptId →
        c.taskId = a.taskId ∧ c.attemptNo = a.attemptNo ∧ c.idempotencyKey = a.idempotencyKey) ∧
    (∀ c ∈ e.dispatched, ∀ c' ∈ e.dispatched, c'.attemptId = c.attemptId →
      c'.attemptNo = c.attemptNo ∧ c'.idempotencyKey = c.idempotencyKey) := by
  have hs := sound_reachable h
  refine ⟨?_, fun a ha hset e' hl => settled_kept hs hl ha hset, ?_, ?_⟩
  · intro c hc hlost e' hl now before after outcome between
    have hstale := (owned_leads hs hl).2 c (hlost.stale hs.1 hc)
    exact recordOutcomes_stale (sound_leads hs hl).1 hstale now before after outcome between
  · intro op hok c hc a ha hid
    have hs' := sound_step hs hok
    have hone : Leads host e (step host e op) := Machine.Leads.next Machine.Leads.refl hok
    obtain ⟨b, hb, hab⟩ := (owned_leads hs hone).1 a ha
    rw [← hab.taskId, ← hab.attemptNo, ← hab.idempotencyKey]
    exact claim_of_attempt hs'.1 hc hb (hab.id.trans hid)
  · intro c hc c' hc' hid
    obtain ⟨a, ha, haid, _, hno, hkey⟩ := hs.1.carried.dispatched c hc
    obtain ⟨_, hno', hkey'⟩ := claim_of_attempt hs.1 hc' ha (haid.trans hid.symm)
    exact ⟨hno'.trans hno, hkey'.trans hkey⟩

/-- An agent dispatch whose lease expires is dispatched again. -/
def reclaimed : List Op :=
  [.lockFree .start, .claim 0 [], .lockFree (.wait 120000), .claim 120000 []]

/-- The claim that was taken over. -/
def firstClaim : ClaimedTask := ⟨.uuid 0, .uuid 1, 1, ⟨"wf", .uuid 0, 1⟩, .uuid 2⟩

set_option maxRecDepth 4000 in
theorem lease_ownership_reclaimed :
    let e := run plainHost (start plainHost oneTask) reclaimed
    e.dispatched = [firstClaim, { firstClaim with leaseToken := .uuid 3 }] ∧
      recordOutcomes 120000 e [(firstClaim, ⟨.succeeded, none, none⟩, [])] = e :=
  ⟨by decide +kernel,
    (lease_ownership (reachable_run plainHost oneTask reclaimed (by decide +kernel)
      (by decide +kernel) (by decide +kernel))).1 firstClaim (by decide +kernel)
      (by unfold Lost; decide +kernel) _ Machine.Leads.refl 120000 [] [] ⟨.succeeded, none, none⟩ []⟩

/-! ## A dispatch in flight -/

/-- The claim holds the lease of its task. -/
def Holds (c : ClaimedTask) (e : Engine) : Prop :=
  ∃ l ∈ e.db.leases, l.taskId = c.taskId ∧ l.token = c.leaseToken

/-- Its lease has not expired. -/
def Unexpired (c : ClaimedTask) (e : Engine) : Prop :=
  ∀ l ∈ e.db.leases, l.token = c.leaseToken → e.clock < l.expiresAt

/-- The claim holds its lease still, and no other of its task was handed out. -/
structure Undisturbed (c : ClaimedTask) (e e' : Engine) : Prop where
  holds : Holds c e'
  alone : ∀ c' ∈ e'.dispatched, c'.taskId = c.taskId → c' ∈ e.dispatched

variable {c : ClaimedTask} {now : Instant}

theorem Undisturbed.refl (h : Holds c e) : Undisturbed c e e := ⟨h, fun _ hc _ => hc⟩

theorem Undisturbed.trans (h : Undisturbed c e m) (h' : Undisturbed c m e') : Undisturbed c e e' :=
  ⟨h'.holds, fun c' hc' ht => h.alone c' (h'.alone c' hc' ht) ht⟩

theorem Undisturbed.frame (h : Undisturbed c e m) (hleases : e'.db.leases = m.db.leases)
    (hdispatched : e'.dispatched = m.dispatched) : Undisturbed c e e' := by
  refine ⟨?_, ?_⟩
  · rw [Holds, hleases]
    exact h.holds
  · rw [hdispatched]
    exact h.alone

theorem Undisturbed.interfered (h : Undisturbed c e m) (hi : Interfered m cur) :
    Undisturbed c e cur := by
  refine ⟨?_, ?_⟩
  · obtain ⟨l, hl, htask, htok⟩ := h.holds
    obtain ⟨g, hg, hsame⟩ := hi.leases
    obtain ⟨hgtask, _, hgtok⟩ := hsame l
    refine ⟨g l, ?_, hgtask.trans htask, hgtok.trans htok⟩
    rw [hg]
    exact List.mem_map_of_mem hl
  · rw [hi.dispatched]
    exact h.alone

/-! ### The claim pass -/

/-- The claim holds its lease, which has not expired. -/
structure InFlight (c : ClaimedTask) (e m : Engine) : Prop where
  undisturbed : Undisturbed c e m
  unexpired : Unexpired c m

variable {s : TaskRow}

theorem recoverTask_inFlight (hs : s.id = c.taskId → crashed now s = false)
    (h : InFlight c e m) : InFlight c e (recoverTask now m s).1 := by
  rw [recoverTask]
  split
  · rename_i hcrash
    rw [Bool.and_eq_true] at hcrash
    refine ⟨⟨?_, h.undisturbed.alone⟩, fun l hl => h.unexpired l (List.mem_of_mem_filter hl)⟩
    obtain ⟨l, hl, htask, htok⟩ := h.undisturbed.holds
    refine ⟨l, List.mem_filter.mpr ⟨hl, ?_⟩, htask, htok⟩
    have hne : l.taskId ≠ s.id := by
      intro heq
      rw [hs (heq.symm.trans htask)] at hcrash
      cases hcrash.1
    show (!decide (l.taskId = s.id)) = true
    rw [decide_eq_false hne]
    rfl
  · exact h

theorem recoverTasks_inFlight {tasks : List TaskRow}
    (hs : ∀ s ∈ tasks, s.id = c.taskId → crashed now s = false) (h : InFlight c e m) :
    InFlight c e (recoverTasks now m tasks).1 := by
  induction tasks generalizing m with
  | nil => exact h
  | cons s ss ih =>
    rw [recoverTasks_cons]
    exact ih (fun r hr => hs r (.tail _ hr))
      (recoverTask_inFlight (hs s (List.mem_cons_self ..)) h)

theorem lt_extended (now : Instant) : now < now + dispatchLeaseTtlMs :=
  Int.lt_add_of_pos_right now (by decide)

/-- A reclaim takes over an expired lease, so another task's. -/
theorem Reclaim.inFlight {lease : LeaseRow} {attempt : AttemptRow} (hinv : Inv m)
    (hr : Reclaim m s lease attempt) (h : InFlight c e m) :
    InFlight c e (takenOver m lease attempt) := by
  obtain ⟨l, hl, htask, htok⟩ := h.undisturbed.holds
  have hne : lease.taskId ≠ c.taskId := by
    intro heq
    have hll : lease = l := eq_of_key hinv.leased.one hr.leaseRow hl (heq.trans htask.symm)
    have hfresh := h.unexpired l hl htok
    have hexp := hr.expired
    rw [hll] at hexp
    exact absurd hfresh (Int.not_lt.mpr hexp)
  refine ⟨⟨⟨l, mem_updateWhere.mpr ⟨l, hl, ?_⟩, htask, htok⟩, ?_⟩, ?_⟩
  · have hskip : takeable m lease.taskId lease.token l = false := by
      rw [takeable, decide_eq_false (fun heq => hne (heq.symm.trans htask))]
      rfl
    rw [hskip]
    rfl
  · intro c' hc' ht
    rcases List.mem_append.mp hc' with hc' | hc'
    · exact h.undisturbed.alone c' hc' ht
    · rw [List.mem_singleton.mp hc'] at ht
      exact absurd ht hne
  · intro l' hl' htok'
    obtain ⟨l₀, h₀, rfl⟩ := mem_updateWhere.mp hl'
    show m.clock < _
    by_cases hp : takeable m lease.taskId lease.token l₀ = true
    · rw [if_pos hp]
      exact lt_extended m.clock
    · rw [if_neg hp] at htok' ⊢
      exact h.unexpired l₀ h₀ htok'

theorem Claim.inFlight {t : TaskRow} (hinv : Inv m) (hc : Claim m s t) (h : InFlight c e m) :
    InFlight c e (launched m t.id t.lockVersion (startRow m s)) := by
  obtain ⟨l, hl, htask, htok⟩ := h.undisturbed.holds
  have hne : t.id ≠ c.taskId := by
    intro heq
    refine hinv.leased.held l hl t hc.row (heq.trans htask.symm) ?_
    rw [Waiting, hc.copy.status]
    exact hc.waiting
  refine ⟨⟨⟨l, List.mem_append_left _ hl, htask, htok⟩, ?_⟩, ?_⟩
  · intro c' hc' ht
    rcases List.mem_append.mp hc' with hc' | hc'
    · exact h.undisturbed.alone c' hc' ht
    · rw [List.mem_singleton.mp hc'] at ht
      exact absurd ht hne
  · intro l' hl' htok'
    show m.clock < _
    rcases List.mem_append.mp hl' with hl' | hl'
    · exact h.unexpired l' hl' htok'
    · rw [List.mem_singleton.mp hl']
      exact lt_extended m.clock

theorem claimReadyTasks_undisturbed (hinv : Inv e) (hcur : Interfered e cur) (hheld : Holds c e)
    (hunexpired : Unexpired c cur)
    (hcrash : ∀ s ∈ e.db.tasks, s.id = c.taskId → crashed now s = false) :
    Undisturbed c e (claimReadyTasks now e cur) := by
  have hflight : InFlight c e cur :=
    ⟨(Undisturbed.refl hheld).interfered hcur, hunexpired⟩
  rw [claimReadyTasks_eq]
  by_cases hactive : e.db.workflow.status ≠ .active
  · rw [if_pos hactive]
    exact hflight.undisturbed
  rw [if_neg hactive]
  have hpath := hcur.path
  have hlive : Live cur.db.workflow.status :=
    Path.live hpath.path (.inl (not_not.mp hactive))
  have hinv₁ := hinv.path hpath.path
  obtain ⟨hp, hl, _⟩ := recoverTasks_spec now hinv₁ hlive ((loaded_self e).path hinv hpath.path)
  have hinv₂ := hinv₁.path hp.path
  have hrecovered := recoverTasks_inFlight hcrash hflight
  -- the reclaims, then the claims
  have hreclaimed : RowPath (recoverTasks now cur e.db.tasks).1
        ((recoverTasks now cur e.db.tasks).2.foldl reclaimTask
          ((recoverTasks now cur e.db.tasks).1, 0)).1 ∧
      InFlight c e ((recoverTasks now cur e.db.tasks).2.foldl reclaimTask
          ((recoverTasks now cur e.db.tasks).1, 0)).1 := by
    refine List.foldlRecOn (recoverTasks now cur e.db.tasks).2 reclaimTask
      (motive := fun st : Claiming => RowPath (recoverTasks now cur e.db.tasks).1 st.1 ∧
        InFlight c e st.1) ⟨Relation.ReflTransGen.refl, hrecovered⟩ ?_
    rintro ⟨m, k⟩ ⟨hpm, hm⟩ s _
    have hinvm := hinv₂.path hpm.path
    rcases reclaimTask_cases hinvm k s with h | ⟨lease, attempt, hr, h⟩
    · rw [h]
      exact ⟨hpm, hm⟩
    · rw [h]
      exact ⟨hpm.tail hr.act, Reclaim.inFlight hinvm hr hm⟩
  have hinv₃ := hinv₂.path hreclaimed.1.path
  have hlive₃ := Path.live (RowPath.path (hp.trans hreclaimed.1)) hlive
  have hl₃ := hl.path hinv₂ hreclaimed.1.path
  refine InFlight.undisturbed (And.right (List.foldlRecOn (recoverTasks now cur e.db.tasks).2 _
    (motive := fun st : Claiming => RowPath ((recoverTasks now cur e.db.tasks).2.foldl reclaimTask
      ((recoverTasks now cur e.db.tasks).1, 0)).1 st.1 ∧ InFlight c e st.1)
    ⟨Relation.ReflTransGen.refl, hreclaimed.2⟩ ?_))
  rintro ⟨m, k⟩ ⟨hpm, hm⟩ s hs
  have hinvm := hinv₃.path hpm.path
  rcases claimTask_cases hinvm (hl₃.path hinv₃ hpm.path) hs e.db.deps e.db.approvals k with
    h | h | ⟨t, hc, _, h⟩
  · rw [h]
    exact ⟨hpm, hm⟩
  · rw [h]
    exact ⟨hpm.tail (RowAct.ids 2), ⟨hm.undisturbed.frame rfl rfl, hm.unexpired⟩⟩
  · rw [h]
    exact ⟨hpm.tail (hc.act (Path.live hpm.path hlive₃)), Claim.inFlight hinvm hc hm⟩

theorem recordOutcome_frame (snap cur : Engine) (claimed : ClaimedTask)
    (outcome : ExecutorOutcome) :
    ((recordOutcome now snap cur claimed outcome).db.leases = cur.db.leases ∨
      (recordOutcome now snap cur claimed outcome).db.leases = (released cur claimed).db.leases) ∧
    (recordOutcome now snap cur claimed outcome).dispatched = cur.dispatched := by
  by_cases hgate : ∀ l ∈ cur.db.leases, l.taskId = claimed.taskId → l.token ≠ claimed.leaseToken
  · rw [recordOutcome_dropped hgate]
    exact ⟨.inl rfl, rfl⟩
  cases hlease : leaseOf cur.db.leases claimed.taskId with
  | none =>
    rw [recordOutcome, hlease]
    exact ⟨.inl rfl, rfl⟩
  | some lease =>
    by_cases htok : lease.token = claimed.leaseToken
    · rw [recordOutcome_eq now snap cur claimed outcome hlease htok]
      split
      · exact ⟨.inr rfl, rfl⟩
      split
      · exact ⟨.inr rfl, rfl⟩
      split
      · exact ⟨.inr rfl, rfl⟩
      dsimp only
      split
      · exact ⟨.inr rfl, rfl⟩
      · exact ⟨.inr rfl, rfl⟩
      · rw [applyTaskFailure]
        split
        · exact ⟨.inr rfl, rfl⟩
        · exact ⟨.inr rfl, rfl⟩
    · rw [recordOutcome, hlease]
      dsimp only
      rw [if_pos htok]
      exact ⟨.inl rfl, rfl⟩

theorem recordOutcome_undisturbed {snap : Engine} {claimed : ClaimedTask}
    (outcome : ExecutorOutcome) (hne : claimed.leaseToken ≠ c.leaseToken)
    (h : Undisturbed c e cur) : Undisturbed c e (recordOutcome now snap cur claimed outcome) := by
  obtain ⟨hleases, hdispatched⟩ := recordOutcome_frame snap cur claimed outcome
  rcases hleases with heq | heq
  · exact h.frame heq hdispatched
  refine ⟨?_, ?_⟩
  · obtain ⟨l, hl, htask, htok⟩ := h.holds
    refine ⟨l, ?_, htask, htok⟩
    rw [heq]
    refine List.mem_filter.mpr ⟨hl, ?_⟩
    show (!(decide (l.taskId = claimed.taskId) && decide (l.token = claimed.leaseToken))) = true
    have hother : decide (c.leaseToken = claimed.leaseToken) = false :=
      decide_eq_false fun heq => hne heq.symm
    rw [htok, hother, Bool.and_false]
    rfl
  · rw [hdispatched]
    exact h.alone

theorem recordOutcomes_undisturbed (hinv : Inv e) (hc : c ∈ e.dispatched) (hheld : Holds c e)
    {results : List (ClaimedTask × ExecutorOutcome × List LockFree)}
    (hne : ∀ r ∈ results, r.1 ≠ c) : Undisturbed c e (recordOutcomes now e results) := by
  refine And.right (List.foldlRecOn results (recordResult now)
    (motive := fun m => RowPath e m ∧ Undisturbed c e m)
    ⟨Relation.ReflTransGen.refl, Undisturbed.refl hheld⟩ ?_)
  rintro m ⟨hpath, hm⟩ r hr
  have hinvm := hinv.path hpath.path
  refine ⟨hpath.trans (recordResult_path hinvm r), ?_⟩
  have hcur := hm.interfered (interfered_interfere hinvm r.2.2)
  rw [recordResult]
  split
  · rename_i hin
    refine recordOutcome_undisturbed _ (fun htok => ?_) hcur
    -- a token is of one claim
    exact hne r hr (eq_of_key hinvm.carried.tokens (List.contains_iff_mem.mp hin)
      ((Path.owned hpath.path).dispatched c hc) htok)
  · exact hcur

/-! ### Runs -/

/-- A step while the claim is in flight: its lease has not expired when tasks are
    claimed, its own outcome is not recorded, the workflow stays open, and crash
    recovery by age, which does not look at leases, does not take its task. -/
def Healthy (host : Host) (c : ClaimedTask) (e : Engine) (op : Op) : Prop :=
  isTerminalWorkflowStatus (step host e op).db.workflow.status = false ∧
    match op with
    | .claim now between => Unexpired c (interfere e between) ∧
        ∀ s ∈ e.db.tasks, s.id = c.taskId → crashed now s = false
    | .record _ results => ∀ r ∈ results, r.1 ≠ c
    | _ => True

theorem finalizeWorkflow_frame (snap cur : Engine)
    (hopen : isTerminalWorkflowStatus (finalizeWorkflow snap cur).engine.db.workflow.status = false) :
    (finalizeWorkflow snap cur).engine.db.leases = cur.db.leases ∧
      (finalizeWorkflow snap cur).engine.dispatched = cur.dispatched := by
  have honly := skipPropagate_only snap cur
  rw [finalizeWorkflow_eq] at hopen ⊢
  split at hopen
  · rename_i hidle
    rw [if_pos hidle]
    exact ⟨rfl, rfl⟩
  rename_i hactive
  rw [if_neg hactive]
  split at hopen
  · rename_i hmove
    have hclosed : isTerminalWorkflowStatus (nextStatus snap (skipPropagate snap cur)) = false :=
      hopen
    rcases nextStatus_cases snap (skipPropagate snap cur) with h | h | h
    · rw [h] at hclosed
      cases hclosed
    · rw [h] at hclosed
      cases hclosed
    · exact absurd h hmove.1
  · rename_i hstays
    rw [if_neg hstays]
    exact ⟨honly.leases, honly.dispatched⟩

theorem applyRejectedApprovalPolicies_frame (snap cur : Engine) (hopen : isTerminalWorkflowStatus
      (applyRejectedApprovalPolicies snap cur).db.workflow.status = false) :
    (applyRejectedApprovalPolicies snap cur).db.leases = cur.db.leases ∧
      (applyRejectedApprovalPolicies snap cur).dispatched = cur.dispatched := by
  have honly := skipRejected_only snap cur
  rw [applyRejectedApprovalPolicies_eq] at hopen ⊢
  split at hopen
  · rename_i hidle
    rw [if_pos hidle]
    exact ⟨rfl, rfl⟩
  rename_i hactive
  rw [if_neg hactive]
  split at hopen
  · cases hopen
  · rename_i hstays
    rw [if_neg hstays]
    exact ⟨honly.leases, honly.dispatched⟩

theorem cancelWorkflow_frame (snap cur : Engine)
    (hopen : isTerminalWorkflowStatus (cancelWorkflow snap cur).db.workflow.status = false) :
    cancelWorkflow snap cur = cur := by
  rw [cancelWorkflow] at hopen ⊢
  split at hopen
  · rename_i hidle
    rw [if_pos hidle]
  rename_i hactive
  rw [if_neg hactive]
  split at hopen
  · cases hopen
  · rename_i hstays
    rw [if_neg hstays]

theorem pollSettle_undisturbed (hinv : Inv e) (hheld : Holds c e)
    (items : List (PolledAttempt × ChildRunStatus × List LockFree)) :
    Undisturbed c e (pollSettle now e items) := by
  rw [pollSettle]
  split
  · exact Undisturbed.refl hheld
  rename_i hactive
  have hlive : Live e.db.workflow.status := .inl (not_not.mp hactive)
  refine And.right (List.foldlRecOn items (settleItem now)
    (motive := fun m => RowPath e m ∧ Undisturbed c e m)
    ⟨Relation.ReflTransGen.refl, Undisturbed.refl hheld⟩ ?_)
  rintro m ⟨hpath, hm⟩ r _
  have hinvm := hinv.path hpath.path
  refine ⟨hpath.trans (settleItem_path hinvm (Path.live hpath.path hlive) r), ?_⟩
  have hcur := hm.interfered (interfered_interfere hinvm r.2.2)
  rw [settleItem]
  split
  · obtain ⟨hleases, hdispatched⟩ := settlePolled_leases m (interfere m r.2.2) r.1 r.2.1
    exact hcur.frame hleases hdispatched
  · exact hcur

theorem edit_undisturbed (hs : Sound e) (hc : c ∈ e.dispatched) (hheld : Holds c e)
    {input : UpdateInput} {cur : Engine} (hvalid : TemplateValid host input.spec)
    (hcur : Interfered e cur) :
    Undisturbed c e (updateWorkflowDraftSpec host input e cur).engine := by
  have hflight : Undisturbed c e cur := (Undisturbed.refl hheld).interfered hcur
  refine updateWorkflowDraftSpec_rec hs.1 hvalid hcur hflight ?_ ?_
  · -- a draft has handed out nothing
    intro _ _ hdraft
    rw [(draft_bare hs.1 hdraft).2] at hc
    cases hc
  · intro _ _ _ _ _ _ _ hrev
    exact hflight.frame hrev.frame.leases hrev.frame.dispatched

/-- **One step**: whoever else acts, the claim is not disturbed. -/
theorem step_undisturbed (hs : Sound e) (hc : c ∈ e.dispatched) (hheld : Holds c e) {op : Op}
    (hok : Validated host e op) (hhealthy : Healthy host c e op) :
    Undisturbed c e (step host e op) := by
  have hinv := hs.1
  have hbetween : ∀ between, Interfered e (interfere e between) :=
    fun between => interfered_interfere hinv between
  have hflight : ∀ between, Undisturbed c e (interfere e between) :=
    fun between => (Undisturbed.refl hheld).interfered (hbetween between)
  obtain ⟨hopen, hop⟩ := hhealthy
  cases op with
  | lockFree op => exact (Undisturbed.refl hheld).interfered (interfered_step hinv op)
  | pollRead => exact (Undisturbed.refl hheld).frame rfl rfl
  | pollSettle now items => exact pollSettle_undisturbed hinv hheld items
  | foreachPass now between =>
    have honly : OnlyGraph _ (reconcileForeachParents host now e (interfere e between)) :=
      reconcileForeachParents_only e _
    exact (hflight between).frame honly.leases honly.dispatched
  | rejectedPolicies between =>
    obtain ⟨hleases, hdispatched⟩ := applyRejectedApprovalPolicies_frame e _ hopen
    exact (hflight between).frame hleases hdispatched
  | invalidate now between =>
    have honly : OnlyApprovals _ (invalidateStaleApprovals host now e (interfere e between)) :=
      invalidateStaleApprovals_only e _
    exact (hflight between).frame honly.leases honly.dispatched
  | claim now between =>
    exact claimReadyTasks_undisturbed hinv (hbetween between) hheld hop.1 hop.2
  | record now results => exact recordOutcomes_undisturbed hinv hc hheld hop
  | finalize between =>
    obtain ⟨hleases, hdispatched⟩ := finalizeWorkflow_frame e _ hopen
    exact (hflight between).frame hleases hdispatched
  | solicit now between =>
    have honly : OnlyApprovals _ (solicitApprovals host now e (interfere e between)) :=
      solicitApprovals_only e _
    exact (hflight between).frame honly.leases honly.dispatched
  | cancel between =>
    have heq := cancelWorkflow_frame e _ hopen
    show Undisturbed c e (cancelWorkflow e (interfere e between))
    rw [heq]
    exact hflight between
  | decide id decidedBy decision rp reason =>
    have honly : OnlyApprovals e (decideWorkflowApproval id decidedBy decision rp reason e) :=
      decideWorkflowApproval_only id decidedBy decision rp reason
    exact (Undisturbed.refl hheld).frame honly.leases honly.dispatched
  | edit input between => exact edit_undisturbed hs hc hheld hok (hbetween between)

theorem Effect.dispatched (hinv : Inv e) (h : Effect host e e') (hc : c ∈ e.dispatched) :
    c ∈ e'.dispatched := by
  cases h with
  | acts hpath => exact (Path.owned hpath).dispatched c hc
  | closed m hpath hclose =>
    rw [hclose.dispatched]
    exact (Path.owned hpath).dispatched c hc
  | replaced input cur target hvalid hcur hdraft =>
    rw [(draft_bare hinv hdraft).2] at hc
    cases hc
  | revised input cur target resolved hvalid hcur hpaused hversion hrow hresolved hrev =>
    rw [hrev.frame.dispatched]
    show c ∈ cur.dispatched
    rw [hcur.dispatched]
    exact hc

/-- **A healthy dispatch is not dispatched again**, on every run of ticks, users and
    editors in which its lease is unexpired whenever tasks are claimed: it holds its
    lease, no other claim of its task is handed out, and the task is not put back. -/
theorem healthy_dispatch (h : Reachable host e) (hc : c ∈ e.dispatched) (hheld : Holds c e)
    (hl : Machine.Leads (step host) (fun e op => Validated host e op ∧ Healthy host c e op) e e') :
    Undisturbed c e e' ∧ ∀ t ∈ e'.db.tasks, t.id = c.taskId → ¬ Waiting t := by
  have hs := sound_reachable h
  have hrun : Undisturbed c e e' ∧ Sound e' ∧ c ∈ e'.dispatched := by
    induction hl with
    | refl => exact ⟨Undisturbed.refl hheld, hs, hc⟩
    | next hl hok ih =>
      obtain ⟨hu, hm, hcm⟩ := ih
      have hstep := step_undisturbed hm hcm hu.holds hok.1 hok.2
      refine ⟨hu.trans hstep, sound_step hm hok.1, ?_⟩
      exact Effect.dispatched hm.1 (effect hm.1 hm.2 hok.1) hcm
  refine ⟨hrun.1, fun t ht hid => ?_⟩
  obtain ⟨l, hlm, htask, _⟩ := hrun.1.holds
  exact hrun.2.1.1.leased.held l hlm t ht (hid.trans htask.symm)

/-- The one task is dispatched. -/
def dispatchedOnce : List Op := [.lockFree .start, .claim 0 []]

/-- Its lease is extended in time. -/
def extended : List Op :=
  [.lockFree (.wait 100000), .lockFree (.heartbeat (.uuid 0) (.uuid 2)), .lockFree (.wait 30000),
    .claim 130000 []]

set_option maxRecDepth 4000 in
theorem healthy_dispatch_extended :
    let e := run plainHost (start plainHost oneTask) dispatchedOnce
    let e' := run plainHost e extended
    Undisturbed firstClaim e e' ∧ ∀ t ∈ e'.db.tasks, t.id = firstClaim.taskId → ¬ Waiting t := by
  refine healthy_dispatch (reachable_run plainHost oneTask dispatchedOnce (by decide +kernel)
    (by decide +kernel) (by decide +kernel)) (by decide +kernel) ?_ (Machine.Admits.leads ?_)
  · unfold Holds
    decide +kernel
  · simp only [extended, Machine.Admits]
    refine ⟨⟨trivial, ?_, trivial⟩, ⟨trivial, ?_, trivial⟩, ⟨trivial, ?_, trivial⟩,
      ⟨trivial, ?_, ?_, ?_⟩, trivial⟩
    · decide +kernel
    · decide +kernel
    · decide +kernel
    · decide +kernel
    · unfold Unexpired
      decide +kernel
    · decide +kernel

def oneNotification : WorkflowSpec :=
  { name := "w", tasks := [{ key := "n", title := "n", body := .notification }] }

/-- Its dispatch takes 130 seconds, the lease extended in between. -/
def slow : List Op :=
  [.lockFree .start, .claim 0 [], .lockFree (.wait 100000),
    .lockFree (.heartbeat (.uuid 0) (.uuid 2)), .lockFree (.wait 30000)]

set_option maxRecDepth 4000 in
theorem slow_dispatched_twice :
    let e := run plainHost (start plainHost oneNotification) slow
    let e' := step plainHost e (.claim 130000 [])
    Reachable plainHost e ∧ firstClaim ∈ e.dispatched ∧ Holds firstClaim e ∧
      Unexpired firstClaim e ∧ ¬ Holds firstClaim e' ∧
      e'.dispatched.map (fun c => (c.taskId, c.attemptNo)) = [(.uuid 0, 1), (.uuid 0, 2)] := by
  refine ⟨reachable_run plainHost oneNotification slow (by decide +kernel) (by decide +kernel)
    (by decide +kernel), ?_⟩
  unfold Holds Unexpired
  decide +kernel

end WfLeases
