import Cinatra.Extensions.LifecyclePrimitive

/-! # LockedRow — what takes a row off its lock

    Decided on a locked row, only an authorised unlock leaves the lock
    (`leaves_locked`).  But a request decides on the row it has read, and the write
    asks nothing of the row it finds: an archive decided before a lock was written
    lands on the locked row.  So a lock stays where it is written past every such
    request (`Unovertaken`), and then only an authorised unlock that has read the
    lock ends it. -/

namespace ExtTransition

open Process ExtCanonical ExtClosure ExtLifecycle

/-- The decision takes a locked row off its lock. -/
def Decision.leaves : Decision → Bool
  | .unchanged => false
  | .write status => status ≠ .locked
  | .remove => true

/-- The request is an unlock by an actor the gate lets through. -/
def Request.unlocks (r : Request) : Bool := r.op = .unlock && unlockAuthorised r.opts

/-- **Decided on a locked row, only an authorised unlock leaves the lock.** -/
theorem leaves_locked {r : Request} {ext : InstalledExtension} {d : Decision}
    (hlocked : ext.status = .locked) (hd : decideTransition r.op r.opts ext = .ok d)
    (hleaves : d.leaves = true) : r.unlocks = true := by
  rw [decideTransition, hlocked, gateUnlock] at hd
  rw [Request.unlocks]
  cases hauth : unlockAuthorised r.opts with
  | true =>
    rw [hauth] at hd
    cases hop : r.op <;> rw [hop] at hd <;> first | rfl | (cases hd; cases hleaves) | cases hd
  | false =>
    rw [hauth] at hd
    cases hop : r.op <;> rw [hop] at hd <;> first | (cases hd; cases hleaves) | cases hd

/-! ## What a request still has to write -/

/-- The request has decided, and has still to write. -/
structure Pending (v : RequestView) (ext : InstalledExtension) (d : Decision) : Prop where
  unwritten : v.wrote = false
  seen : v.seen = some ext
  decided : decideTransition v.request.op v.request.opts ext = .ok d

/-- What it has still to write leaves a lock, and it has read none. -/
def Overtaken (v : RequestView) : Prop :=
  ∃ ext d, Pending v ext d ∧ ext.status ≠ .locked ∧ d.leaves = true

/-- A view's calls: it writes what it has decided, once, to the row it has read. -/
def Allowed (v : RequestView) : StoreCall → Prop
  | .readInstalledExtensionById id => id = v.request.id
  | .updateInstalledExtensionStatus id status =>
    id = v.request.id ∧ ∃ ext, Pending v ext (.write status)
  | .deleteInstalledExtension id => id = v.request.id ∧ ∃ ext, Pending v ext .remove
  | .deleteExtensionPermissions _ _ => True

instance : Inhabited TransitionError := ⟨.store ""⟩

/-- **A request writes what it has decided**, whatever the store replies. -/
theorem request_keeps (r : Request) : r.task.Keeps see Allowed := by
  refine Task.keeps_of (Q := fun _ _ => True) (Spec.bind (observe_spec rfl fun read => ?_))
  cases read with
  | error err => trivial
  | ok row =>
    cases row with
    | none => trivial
    | some ext =>
      dsimp only
      cases hd : decideTransition r.op r.opts ext with
      | error err => trivial
      | ok d =>
        have hpending : Pending { request := r, seen := some ext } ext d := ⟨rfl, rfl, hd⟩
        cases d with
        | unchanged => trivial
        | write status =>
          refine Spec.bind (observe_spec ⟨rfl, ext, hpending⟩ fun reply => ?_)
          cases reply with
          | ok | error => trivial
        | remove =>
          refine Spec.bind (observe_spec ⟨rfl, ext, hpending⟩ fun reply => ?_)
          cases reply with
          | error _ => trivial
          | ok _ =>
            show Spec (observed see) Allowed (if permissionsKeyedByRow ext.kind then _
              else _) _ _
            split
            · refine Spec.bind (Spec.swallow (observe_spec trivial fun _ => trivial))
            · trivial

/-! ## Requests at once -/

/-- A lock is written past no request that has read the row unlocked and has still to
    take it off its lock. -/
def Unovertaken (s : RequestPool) : Event Request (Option String) → Prop
  | .turn i none => ∀ id v, NextCall s i (.updateInstalledExtensionStatus id .locked) v →
      (∀ row, s.world id = some row → row.status ≠ .locked) →
        ∀ j w, j ≠ i → s.views j = some w → w.request.id = id → ¬ Overtaken w
  | _ => True

/-- Where the row is locked, no request has still to write what it decided on another. -/
def Settled (w : Manifest) (views : Nat → Option RequestView) : Prop :=
  ∀ id row, w id = some row → row.status = .locked →
    ∀ j v, views j = some v → v.request.id = id → ¬ Overtaken v

variable {w : Manifest} {views : Nat → Option RequestView} {v v' : RequestView} {i : Nat}

theorem Settled.view (h : Settled w views) (hv : ¬ Overtaken v' ∨ ∀ row, w v'.request.id = some row →
    row.status ≠ .locked) : Settled w (Function.update views i (some v')) := by
  intro id row hrow hlocked j x hx hid
  rcases update_cases hx with ⟨-, hx⟩ | ⟨hj, hx⟩
  · rw [← Option.some.inj hx] at hid ⊢
    rcases hv with hv | hv
    · exact hv
    · exact absurd hlocked (hv row (hid ▸ hrow))
  · exact h id row hrow hlocked j x hx hid

theorem Settled.drop (h : Settled w views) : Settled w (Function.update views i none) := by
  intro id row hrow hlocked j x hx hid
  rcases update_cases hx with ⟨-, hx⟩ | ⟨hj, hx⟩
  · cases hx
  · exact h id row hrow hlocked j x hx hid

theorem not_overtaken_of_wrote (h : v.wrote = true) : ¬ Overtaken v := by
  rintro ⟨ext, d, hpending, _⟩
  rw [hpending.unwritten] at h
  cases h

theorem not_overtaken_unread (h : v.seen = none) : ¬ Overtaken v := by
  rintro ⟨ext, d, hpending, _⟩
  rw [hpending.seen] at h
  cases h

theorem not_overtaken_locked {row : InstalledExtension} (h : v.seen = some row)
    (hlocked : row.status = .locked) : ¬ Overtaken v := by
  rintro ⟨ext, d, hpending, hne, _⟩
  rw [hpending.seen] at h
  rw [Option.some.inj h] at hne
  exact hne hlocked

theorem not_overtaken_locks (h : ∃ ext, Pending v ext (.write .locked)) : ¬ Overtaken v := by
  obtain ⟨ext, hlock⟩ := h
  rintro ⟨ext', d, hpending, _, hleaves⟩
  have hext : ext' = ext := Option.some.inj (hpending.seen.symm.trans hlock.seen)
  have hd : d = .write .locked := by
    have hdecided := hpending.decided
    rw [hext, hlock.decided] at hdecided
    exact (Except.ok.inj hdecided).symm
  rw [hd] at hleaves
  cases hleaves

theorem Settled.write {id : String} {x : Option InstalledExtension} (h : Settled w views)
    (hid : ∀ row, x = some row → row.status = .locked →
      ∀ j v, views j = some v → v.request.id = id → ¬ Overtaken v) :
    Settled (Function.update w id x) views := by
  intro id' row hrow hlocked j v hv hreq
  rcases update_cases hrow with ⟨hne, hrow⟩ | ⟨hne, hrow⟩
  · exact hid row hrow hlocked j v hv (hreq.trans hne)
  · exact h id' row hrow hlocked j v hv hreq

variable {s : RequestPool} {e : Event Request (Option String)}

/-- **One step keeps it.** -/
theorem step_settled
    (hkept : s.Kept see Allowed) (h : Settled s.world s.views) (hsound : Unovertaken s e) :
    Settled (transitionStep s e).world (transitionStep s e).views := by
  refine step_rule (I := Settled) hkept ?_ ?_ ?_ h
  · intro i r _
    exact h.view (.inl (not_overtaken_unread rfl))
  · intro i fault c v he hcall hallowed _
    subst he
    have hsame : Settled s.world (Function.update s.views i (some v)) := by
      refine h.view ?_
      by_cases hv : Overtaken v
      · refine .inr fun row hrow hlocked => ?_
        exact h _ row hrow hlocked i v hcall.view rfl hv
      · exact .inl hv
    cases fault with
    | some message =>
      -- nothing is written, and what was to be written is forgotten
      show Settled s.world (Function.update s.views i (some (see v c (.error (.store message)))))
      cases c with
      | readInstalledExtensionById id =>
        exact hsame
      | updateInstalledExtensionStatus | deleteInstalledExtension =>
        exact h.view (.inl (not_overtaken_of_wrote rfl))
      | deleteExtensionPermissions kind id =>
        exact hsame
    | none =>
      cases c with
      | readInstalledExtensionById id =>
        -- it reads the row as it is: locked, if it is
        refine h.view ?_
        show ¬ Overtaken { v with seen := s.world id } ∨ _
        cases hrow : s.world id with
        | none => exact .inl (not_overtaken_unread rfl)
        | some row =>
          by_cases hlocked : row.status = .locked
          · exact .inl (not_overtaken_locked rfl hlocked)
          refine .inr fun row' hrow' => ?_
          have hsame : s.world v.request.id = some row' := hrow'
          rw [← show id = v.request.id from hallowed, hrow] at hsame
          rw [← Option.some.inj hsame]
          exact hlocked
      | updateInstalledExtensionStatus id status =>
        have hview : ∀ r, ¬ Overtaken (see v (.updateInstalledExtensionStatus id status) r) :=
          fun r => not_overtaken_of_wrote rfl
        show Settled (serve s.world (.updateInstalledExtensionStatus id status)).2 _
        simp only [serve]
        cases hrow : s.world id with
        | none => exact h.view (.inl (hview _))
        | some row =>
          refine Settled.view (Settled.write h ?_) (.inl (hview _))
          intro row' hrow' hlocked j x hx hid
          rw [← Option.some.inj hrow'] at hlocked
          by_cases hwas : row.status = .locked
          · exact h id row hrow hwas j x hx hid
          -- the lock is being written: by this request, past the others
          have hstatus : status = .locked := hlocked
          subst hstatus
          by_cases hj : j = i
          · rw [hj, hcall.view] at hx
            rw [← Option.some.inj hx]
            exact not_overtaken_locks hallowed.2
          · refine hsound id v hcall (fun r hr => ?_) j x hj hx hid
            rw [hrow] at hr
            rw [← Option.some.inj hr]
            exact hwas
      | deleteInstalledExtension id =>
        have hview : ∀ r, ¬ Overtaken (see v (.deleteInstalledExtension id) r) :=
          fun r => not_overtaken_of_wrote rfl
        refine Settled.view (Settled.write h ?_) (.inl (hview _))
        intro row hrow
        cases hrow
      | deleteExtensionPermissions kind id =>
        exact hsame
  · exact fun w vs i hI => hI.drop

/-! ## A run of requests -/

/-- A pool whose requests keep to their views, and whose locked rows are settled. -/
def Guarded (s : RequestPool) : Prop := s.Kept see Allowed ∧ Settled s.world s.views

theorem guarded_idle (h : Idle s) : Guarded s := by
  refine ⟨fun i t ht => ?_, fun id row _ _ j v hv _ => ?_⟩
  · rw [h i] at ht
    cases ht
  · rw [Pool.views, h j] at hv
    cases hv

theorem guarded_step (h : Guarded s) (hsound : Unovertaken s e) : Guarded (transitionStep s e) :=
  ⟨step_kept request_keeps e h.1, step_settled h.1 h.2 hsound⟩

theorem guarded_reached (h : Machine.Reaches Idle transitionStep Unovertaken s) : Guarded s :=
  h.invariant (I := Guarded) (fun _ hs => guarded_idle hs) (fun _ _ hs hok => guarded_step hs hok)

/-- The row is locked. -/
def Locked (w : Manifest) (id : String) : Prop :=
  ∃ row, w id = some row ∧ row.status = .locked

theorem row_changed (hne : (transitionStep s e).world ≠ s.world) :
    ∃ i c v, e = .turn i none ∧ NextCall s i c v ∧
      (transitionStep s e).world = (serve s.world c).2 := by
  obtain ⟨i, fault, c, v, he, hcall, _, hworld⟩ := step_world (fun _ _ => rfl) hne
  cases fault with
  | some message => exact absurd hworld hne
  | none => exact ⟨i, c, v, he, hcall, hworld⟩

/-- **A locked extension stays locked.**  In every run whose locks are written past no
    request that has yet to write what it decided on an unlocked row, a step that takes
    a locked row off its lock is the write of an authorised unlock that has read it
    locked; and no request of a locked row has a write left that it decided on another
    status. -/
theorem locked_stays {s : RequestPool} (h : Machine.Reaches Idle transitionStep Unovertaken s)
    {id : String} (hlocked : Locked s.world id) :
    (∀ j v, s.views j = some v → v.request.id = id → ¬ Overtaken v) ∧
    ∀ e, ¬ Locked (transitionStep s e).world id →
      ∃ i v row, e = .turn i none ∧ s.views i = some v ∧ v.request.id = id ∧
        v.request.unlocks = true ∧ v.seen = some row ∧ row.status = .locked := by
  obtain ⟨hkept, hsettled⟩ := guarded_reached h
  obtain ⟨row, hrow, hstatus⟩ := hlocked
  refine ⟨fun j v hv hid => hsettled id row hrow hstatus j v hv hid, fun e hleft => ?_⟩
  have hne : (transitionStep s e).world ≠ s.world := by
    intro hsame
    rw [hsame] at hleft
    exact hleft ⟨row, hrow, hstatus⟩
  obtain ⟨i, c, v, he, hcall, hworld⟩ := row_changed hne
  rw [hworld] at hleft
  -- what it has decided leaves the lock, so it has read the row locked
  have hunlock : ∀ ext d, Pending v ext d → v.request.id = id → d.leaves = true →
      ∃ i v row, e = .turn i none ∧ s.views i = some v ∧ v.request.id = id ∧
        v.request.unlocks = true ∧ v.seen = some row ∧ row.status = .locked := by
    intro ext d hpending hid hleaves
    have hread : ext.status = .locked := by
      by_contra hnot
      exact hsettled id row hrow hstatus i v hcall.view hid ⟨ext, d, hpending, hnot, hleaves⟩
    exact ⟨i, v, ext, he, hcall.view, hid, leaves_locked hread hpending.decided hleaves,
      hpending.seen, hread⟩
  have hallowed := hcall.allowed hkept
  cases c with
  | readInstalledExtensionById | deleteExtensionPermissions =>
    exact absurd ⟨row, hrow, hstatus⟩ hleft
  | deleteInstalledExtension id' =>
    obtain ⟨hid, ext, hpending⟩ := hallowed
    by_cases hsame : id' = id
    · exact hunlock ext .remove hpending (hid.symm.trans hsame) rfl
    · refine absurd ⟨row, ?_, hstatus⟩ hleft
      show Function.update s.world id' none id = some row
      rw [Function.update_of_ne (Ne.symm hsame), hrow]
  | updateInstalledExtensionStatus id' status =>
    obtain ⟨hid, ext, hpending⟩ := hallowed
    by_cases hsame : id' = id
    · subst hsame
      refine hunlock ext (.write status) hpending hid.symm ?_
      refine decide_eq_true fun hc => hleft ?_
      simp only [serve, hrow]
      exact ⟨{ row with status := status }, Function.update_self .., hc⟩
    · refine absurd ⟨row, ?_, hstatus⟩ hleft
      simp only [serve]
      cases s.world id' with
      | none => exact hrow
      | some row' =>
        show Function.update s.world id' _ id = some row
        rw [Function.update_of_ne (Ne.symm hsame), hrow]

/-! ### Two runs -/

def galleryRow (status : ExtensionLifecycleStatus) : InstalledExtension where
  id := "gallery"
  packageName := "@acme/gallery"
  organizationId := none
  kind := .connector
  status := status
  source := .local "extensions/gallery" "4f1c"
  dependencies := []

/-- One row, and no request. -/
def gallery (status : ExtensionLifecycleStatus) : RequestPool where
  world id := if id = "gallery" then some (galleryRow status) else none
  tasks _ := none

def ask (op : LifecycleTransitionOp) : Request where
  id := "gallery"
  op := op
  opts := { roles := ["platform_admin"], allowUnlock := true }

/-- An unlock that has read the lock. -/
def unlocking : RequestPool :=
  transitionStep (transitionStep (gallery .locked) (.start 0 (ask .unlock))) (.turn 0 none)

theorem unlocking_reached : Machine.Reaches Idle transitionStep Unovertaken unlocking := by
  refine ⟨gallery .locked, fun _ => rfl, ?_⟩
  refine Machine.Leads.next (Machine.Leads.next Machine.Leads.refl trivial) ?_
  -- its first call is a read
  rintro id v ⟨k, hk⟩
  have hcall : (Prog.call (StoreCall.readInstalledExtensionById "gallery") _ : StoreProg Unit) =
      .call (.updateInstalledExtensionStatus id .locked) k := congrArg Task.prog (Option.some.inj hk)
  cases hcall

theorem locked_stays_unlocking :
    ∃ i v row, Event.turn 0 none = (.turn i none : Event Request (Option String)) ∧
      unlocking.views i = some v ∧ v.request.id = "gallery" ∧
      v.request.unlocks = true ∧ v.seen = some row ∧ row.status = .locked := by
  have hrow : Locked unlocking.world "gallery" := ⟨galleryRow .locked, rfl, rfl⟩
  refine (locked_stays unlocking_reached hrow).2 (.turn 0 none) ?_
  rintro ⟨row, hrow, hlocked⟩
  have hactive : row = galleryRow .active := (Option.some.inj hrow).symm
  rw [hactive] at hlocked
  cases hlocked

/-- An archive and a lock read the row active; the lock is written. -/
def overtaken : RequestPool :=
  [.start 0 (ask .archive), .start 1 (ask .lock), .turn 0 none, .turn 1 none,
    .turn 1 none].foldl transitionStep (gallery .active)

theorem leads_all (es : List (Event Request (Option String)))
    (h : Machine.Reaches Idle transitionStep (fun _ _ => True) s) :
    Machine.Reaches Idle transitionStep (fun _ _ => True) (es.foldl transitionStep s) := by
  induction es generalizing s with
  | nil => exact h
  | cons e es ih => exact ih (h.next trivial)

theorem archive_overtakes_lock :
    ¬ ∀ s, Machine.Reaches Idle transitionStep (fun _ _ => True) s → ∀ id, Locked s.world id →
      ∀ e, ¬ Locked (transitionStep s e).world id →
        ∃ i v row, e = .turn i none ∧ s.views i = some v ∧ v.request.id = id ∧
          v.request.unlocks = true ∧ v.seen = some row ∧ row.status = .locked := by
  intro h
  have hreached : Machine.Reaches Idle transitionStep (fun _ _ => True) overtaken := by
    exact leads_all _ ⟨gallery .active, fun _ => rfl, Machine.Leads.refl⟩
  have hleft : ¬ Locked (transitionStep overtaken (.turn 0 none)).world "gallery" := by
    rintro ⟨row, hrow, hlocked⟩
    have harchived : row = galleryRow .archived := (Option.some.inj hrow).symm
    rw [harchived] at hlocked
    cases hlocked
  obtain ⟨i, v, row, he, hv, _, hunlocks, _⟩ :=
    h overtaken hreached "gallery" ⟨galleryRow .locked, rfl, rfl⟩ (.turn 0 none) hleft
  cases he
  have harchive : v.request = ask .archive := congrArg RequestView.request (Option.some.inj hv).symm
  rw [harchive] at hunlocks
  cases hunlocks

end ExtTransition
