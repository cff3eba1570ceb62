import Cinatra.Lib.Pool
import Cinatra.Lib.Records

/-! # RemoteEffects — one attempt to restore a remote system

    Calls of `runCmsRestore` under one idempotency key share a row: the first to
    enqueue it stores the intended state, each compares its own with that, calls the
    connector, and settles the row.  The settling statements ask nothing of the
    status they find, and a stored null is compared with nothing.  So the row
    settles once, and the connector gets the stored state, exactly as long as no
    call settles a row that is settled and none reaches the connector past a stored
    null (`remote_effects`). -/

namespace History

open Process Machine JsonValue

/-! ## `canonicalJsonStringify` -/

/-- `sorted["__proto__"] = value` sets no field. -/
def protoName : String := "__proto__"

mutual
/-- What the replacer copies. -/
def withoutProto : Json → Json
  | .arr xs => .arr (withoutProtoItems xs)
  | .obj fs => .obj (withoutProtoFields fs)
  | v => v

def withoutProtoItems : List Json → List Json
  | [] => []
  | x :: xs => withoutProto x :: withoutProtoItems xs

def withoutProtoFields : List (String × Json) → List (String × Json)
  | [] => []
  | (k, x) :: fs =>
    if k = protoName then withoutProtoFields fs
    else (k, withoutProto x) :: withoutProtoFields fs
end

mutual
/-- No object has a field of that name. -/
def noProto : Json → Bool
  | .arr xs => noProtoItems xs
  | .obj fs => noProtoFields fs
  | _ => true

def noProtoItems : List Json → Bool
  | [] => true
  | x :: xs => noProto x && noProtoItems xs

def noProtoFields : List (String × Json) → Bool
  | [] => true
  | (k, x) :: fs => k ≠ protoName && noProto x && noProtoFields fs
end

/-- What `canonicalReplacer` makes of a value, without the order of its fields. -/
def canonicalReplaced (v : Json) : Json := canonical (withoutProto v)

def canonicalJsonStringify (v : Json) : List Char := print (canonicalReplaced v)

theorem withoutProto_arr (xs : List Json) : withoutProto (.arr xs) = .arr (xs.map withoutProto) := by
  rw [withoutProto]
  congr 1
  induction xs with
  | nil => rfl
  | cons x xs ih => rw [withoutProtoItems, ih, List.map_cons]

theorem withoutProto_obj (fs : Record) : withoutProto (.obj fs) =
    .obj ((fs.filter (fun f => f.1 ≠ protoName)).map (fun f => (f.1, withoutProto f.2))) := by
  rw [withoutProto]
  congr 1
  induction fs with
  | nil => rfl
  | cons f fs ih =>
    rw [withoutProtoFields, ih]
    by_cases hname : f.1 = protoName <;> simp [hname]

theorem noProto_arr (xs : List Json) : noProto (.arr xs) = true ↔ ∀ x ∈ xs, noProto x = true := by
  rw [noProto]
  induction xs with
  | nil => simp [noProtoItems]
  | cons x xs ih => rw [noProtoItems, Bool.and_eq_true, ih, List.forall_mem_cons]

theorem noProto_obj (fs : Record) :
    noProto (.obj fs) = true ↔ ∀ f ∈ fs, f.1 ≠ protoName ∧ noProto f.2 = true := by
  rw [noProto]
  induction fs with
  | nil => simp [noProtoFields]
  | cons f fs ih =>
    rw [noProtoFields, Bool.and_eq_true, Bool.and_eq_true, decide_eq_true_eq, ih,
      List.forall_mem_cons]

theorem withoutProto_of_noProto (v : Json) (h : noProto v = true) : withoutProto v = v := by
  induction v using Json.entries_induction with
  | step v ih =>
    cases v with
    | null | bool | num | str => simp only [withoutProto]
    | arr xs =>
      rw [noProto_arr] at h
      rw [withoutProto_arr]
      exact congrArg Json.arr
        ((List.map_congr_left fun x hx => ih x hx (h x hx)).trans (List.map_id xs))
    | obj fs =>
      rw [noProto_obj] at h
      rw [withoutProto_obj, List.filter_eq_self.mpr fun f hf => decide_eq_true (h f hf).1]
      refine congrArg Json.obj ((List.map_congr_left fun f hf => ?_).trans (List.map_id fs))
      exact Prod.ext rfl (ih f.2 (List.mem_map_of_mem hf) (h f hf).2)

theorem noProto_withoutProto (v : Json) : noProto (withoutProto v) = true := by
  induction v using Json.entries_induction with
  | step v ih =>
    cases v with
    | null | bool | num | str => simp only [withoutProto, noProto]
    | arr xs =>
      rw [withoutProto_arr, noProto_arr]
      exact List.forall_mem_map.mpr ih
    | obj fs =>
      rw [withoutProto_obj, noProto_obj]
      refine List.forall_mem_map.mpr fun f hf => ?_
      obtain ⟨hmem, hname⟩ := List.mem_filter.mp hf
      exact ⟨of_decide_eq_true hname, ih f.2 (List.mem_map_of_mem hmem)⟩

theorem noProto_canonical (v : Json) : noProto (canonical v) = true ↔ noProto v = true := by
  induction v using Json.entries_induction with
  | step v ih =>
    cases v with
    | null | bool | num | str => simp only [canonical, sortFields]
    | arr xs =>
      rw [canonical, sortFields_arr, noProto_arr, noProto_arr, List.forall_mem_map]
      exact forall₂_congr ih
    | obj fs =>
      rw [canonical, sortFields_obj, noProto_obj, noProto_obj]
      simp only [List.mem_insertionSort, List.forall_mem_map]
      exact forall₂_congr fun f hf => and_congr_right fun _ => ih f.2 (List.mem_map_of_mem hf)

theorem noProto_canonicalReplaced (v : Json) : noProto (canonicalReplaced v) = true := by
  rw [canonicalReplaced, noProto_canonical]
  exact noProto_withoutProto v

theorem canonical_eq_iff_noProto {u stored : Json} (hstored : noProto stored = true)
    (h : canonicalReplaced u = canonicalReplaced stored) :
    canonical u = canonical stored ↔ noProto u = true := by
  constructor
  · intro heq
    rw [← noProto_canonical, heq, noProto_canonical]
    exact hstored
  · intro hu
    rw [canonicalReplaced, canonicalReplaced, withoutProto_of_noProto u hu,
      withoutProto_of_noProto stored hstored] at h
    exact h

/-! ## The attempt -/

inductive RemoteEffectAttemptStatus where
  | pending | succeeded | failed
deriving DecidableEq

/-- The row of one idempotency key.  A `jsonb` column is `none` for SQL's null. -/
structure RemoteEffectAttempt where
  id : String
  intendedState : Option Json
  status : RemoteEffectAttemptStatus := .pending
  attemptCount : Nat := 0
  lastError : Option String := none
  remoteRevisionRef : Option Json := none
  readBackPayload : Option Json := none
deriving DecidableEq

/-- `row.column ?? null`: the two nulls are one. -/
def orNull : Option Json → Option Json
  | some .null => none
  | v => v

/-- What a connector answers. -/
structure Restored where
  remoteRevisionRef : Option Json
  readBack : Option Json

/-- A statement on the row, or the call of the connector. -/
inductive EffectCall where
  | enqueue (id : String) (intendedState : Option Json)
  | callable (intendedState : Option Json)
  | markSucceeded (remoteRevisionRef readBackPayload : Option Json)
  | markFailed (error : String)

abbrev EffectCall.Reply : EffectCall → Type
  | .enqueue _ _ => RemoteEffectAttempt
  | .callable _ => Restored
  | .markSucceeded _ _ => RemoteEffectAttempt
  | .markFailed _ => RemoteEffectAttempt

abbrev EffectProg := Prog EffectCall EffectCall.Reply String

/-- The row that is there, or a new one with the caller's state. -/
def enqueued (id : String) (intendedState : Option Json) :
    Option RemoteEffectAttempt → RemoteEffectAttempt
  | some row => row
  | none => { id := id, intendedState := intendedState.map canonicalReplaced }

def RemoteEffectAttempt.succeed (a : RemoteEffectAttempt)
    (remoteRevisionRef readBackPayload : Option Json) : RemoteEffectAttempt :=
  { a with
    status := .succeeded
    attemptCount := a.attemptCount + 1
    remoteRevisionRef := (remoteRevisionRef.map canonicalReplaced).or a.remoteRevisionRef
    readBackPayload := (readBackPayload.map canonicalReplaced).or a.readBackPayload
    lastError := none }

def RemoteEffectAttempt.fail (a : RemoteEffectAttempt) (error : String) : RemoteEffectAttempt :=
  { a with status := .failed, attemptCount := a.attemptCount + 1, lastError := some error }

/-- The stored state is compared with the caller's, unless it is null. -/
def mismatch (storedState intendedState : Option Json) : Bool :=
  storedState.any (fun s => some (canonicalJsonStringify s) ≠
    intendedState.map canonicalJsonStringify)

def settle (storedState intendedState : Option Json) : EffectProg RemoteEffectAttempt :=
  tryCatch
    (do let result : Restored ← perform (EffectCall.callable (storedState.or intendedState))
        perform (EffectCall.markSucceeded result.remoteRevisionRef result.readBack))
    (fun error => perform (EffectCall.markFailed error))

/-- `id` is the UUID minted for a new row; `none` is an undefined state. -/
def runCmsRestore (key id : String) (intendedState : Option Json) :
    EffectProg RemoteEffectAttempt := do
  let attempt : RemoteEffectAttempt ← perform (EffectCall.enqueue id intendedState)
  if attempt.status ≠ .pending then pure attempt
  else if mismatch (orNull attempt.intendedState) intendedState then
    throwErr ("runCmsRestore: intendedState mismatch for idempotencyKey=" ++ key ++
      ". Use the previously stored intendedState or call with a different idempotencyKey.")
  else settle (orNull attempt.intendedState) intendedState

/-! ## Calls that take turns -/

/-- How a call ends: answered (a connector's answer is anything), failed, or carried out
    with the answer lost. -/
inductive Outcome where
  | answered (restored : Restored)
  | failed (error : String)
  | lost (error : String)

/-- What the database makes of the row. -/
def effectRow (row : Option RemoteEffectAttempt) : EffectCall → Option RemoteEffectAttempt
  | .enqueue id intendedState => some (enqueued id intendedState row)
  | .callable _ => row
  | .markSucceeded remoteRevisionRef readBackPayload =>
    row.map (fun a => a.succeed remoteRevisionRef readBackPayload)
  | .markFailed error => row.map (fun a => a.fail error)

/-- What is replied; a settling statement that finds no row throws. -/
def effectReply (key : String) (row : Option RemoteEffectAttempt) (restored : Restored) :
    (c : EffectCall) → Except String c.Reply
  | .enqueue id intendedState => .ok (enqueued id intendedState row)
  | .callable _ => .ok restored
  | .markSucceeded remoteRevisionRef readBackPayload =>
    match row with
    | some a => .ok (a.succeed remoteRevisionRef readBackPayload)
    | none => .error ("markRemoteEffectSucceeded: no attempt found for idempotency_key=" ++ key)
  | .markFailed error =>
    match row with
    | some a => .ok (a.fail error)
    | none => .error ("markRemoteEffectFailed: no attempt found for idempotency_key=" ++ key)

def attempts (key : String) :
    Host EffectCall EffectCall.Reply String (Option RemoteEffectAttempt) Outcome where
  ready _ _ _ := true
  answer outcome _ c row :=
    match outcome with
    | .answered restored => (effectReply key row restored c, effectRow row c)
    | .failed error => (.error error, row)
    | .lost error => (.error error, effectRow row c)
  leave _ row := row

/-- What a call knows: its intended state, and the row as it was when it enqueued. -/
structure EffectView where
  intendedState : Option Json
  seen : Option RemoteEffectAttempt

def seeEnqueued (v : EffectView) : (c : EffectCall) → Except String c.Reply → EffectView
  | .enqueue _ _, .ok attempt => { v with seen := some attempt }
  | _, _ => v

/-- A call of `runCmsRestore` under the key. -/
structure RestoreCall where
  id : String
  intendedState : Option Json

def RestoreCall.task (key : String) (j : RestoreCall) :
    Task EffectCall EffectCall.Reply String EffectView :=
  Task.of (runCmsRestore key j.id j.intendedState)
    { intendedState := j.intendedState, seen := none }

abbrev EffectPool := Pool EffectCall EffectCall.Reply String EffectView (Option RemoteEffectAttempt)

def effectStep (key : String) : EffectPool → Event RestoreCall Outcome → EffectPool :=
  step (attempts key) seeEnqueued (RestoreCall.task key)

/-- The key has not been used. -/
def unused : EffectPool := ⟨none, fun _ => none⟩

/-- A call enqueues its own state, and reaches the connector with the stored one, or with
    its own where that is null; what it passes compares equal with the stored one. -/
def Allowed (v : EffectView) : EffectCall → Prop
  | .enqueue _ intendedState => intendedState = v.intendedState
  | .callable state => ∃ a, v.seen = some a ∧
      state = (orNull a.intendedState).or v.intendedState ∧
      mismatch (orNull a.intendedState) v.intendedState = false
  | _ => True

variable {a : RemoteEffectAttempt} {v : EffectView}

theorem settle_spec (hseen : v.seen = some a)
    (hmatch : mismatch (orNull a.intendedState) v.intendedState = false) :
    Spec (observed seeEnqueued) Allowed (settle (orNull a.intendedState) v.intendedState)
      (fun _ _ => True) v := by
  refine Spec.tryCatch (Spec.bind ?_)
  refine observe_spec ⟨a, hseen, rfl, hmatch⟩ fun r => ?_
  cases r with
  | error error => exact observe_spec trivial fun _ => trivial
  | ok result =>
    refine observe_spec trivial fun r => ?_
    cases r with
    | ok _ => trivial
    | error error => exact observe_spec trivial fun _ => trivial

/-- **A call makes only such calls**, whatever is replied. -/
theorem restoreCall_keeps (key : String) (j : RestoreCall) :
    (j.task key).Keeps seeEnqueued Allowed := by
  refine Task.keeps_of (Q := fun _ _ => True) (Spec.bind ?_)
  refine observe_spec rfl fun r => ?_
  cases r with
  | error error => trivial
  | ok attempt =>
    dsimp only
    split
    · trivial
    split
    · trivial
    · rename_i hmatch
      rw [Bool.not_eq_true] at hmatch
      exact settle_spec (v := { intendedState := j.intendedState, seen := some attempt })
        rfl hmatch

/-! ## The law -/

/-- What is read of a settled row. -/
def RemoteEffectAttempt.SameSettlement (a b : RemoteEffectAttempt) : Prop :=
  b.status = a.status ∧ b.lastError = a.lastError ∧ b.readBackPayload = a.readBackPayload

instance (a b : RemoteEffectAttempt) : Decidable (a.SameSettlement b) :=
  inferInstanceAs (Decidable (_ ∧ _ ∧ _))

/-- **The law of a step**: a stored state stays, a settled row stays settled as it is, and
    what reaches the connector is the stored state, from a call that intends it. -/
structure SettlesOnce (key : String) (s : EffectPool) (e : Event RestoreCall Outcome) : Prop where
  stored : ∀ a, s.world = some a → ∃ b, (effectStep key s e).world = some b ∧
    b.intendedState = a.intendedState
  settled : ∀ a b, s.world = some a → (effectStep key s e).world = some b →
    a.status ≠ .pending → a.SameSettlement b
  connector : ∀ i outcome state v, e = .turn i outcome → NextCall s i (.callable state) v →
    ∃ a, s.world = some a ∧ state.getD .null = (orNull a.intendedState).getD .null ∧
      canonicalValue v.intendedState = canonicalValue (orNull a.intendedState)

/-- A settling statement finds the row pending, or writes what it holds. -/
def SettlesPending (a : RemoteEffectAttempt) : EffectCall → Prop
  | .markSucceeded _ readBackPayload => a.status = .pending ∨
      a.status = .succeeded ∧ a.lastError = none ∧
        ∀ v, readBackPayload = some v → a.readBackPayload = some (canonicalReplaced v)
  | .markFailed error => a.status = .pending ∨ a.status = .failed ∧ a.lastError = some error
  | _ => True

/-- Nobody reaches the connector past a stored null with a state of its own, or with a
    field that the comparison drops; and nobody settles a settled row anew. -/
def Unhurried (s : EffectPool) : Event RestoreCall Outcome → Prop
  | .turn i outcome => ∀ c v, NextCall s i c v →
      (∀ state, c = .callable state → noProto (v.intendedState.getD .null) = true ∧
        ∀ a, s.world = some a → orNull a.intendedState = none →
          v.intendedState.getD .null = .null) ∧
      ((∀ error, outcome ≠ .failed error) → ∀ a, s.world = some a → SettlesPending a c)
  | _ => True

/-! ### The row -/

theorem effectRow_stored (c : EffectCall) :
    ∃ b, effectRow (some a) c = some b ∧ b.intendedState = a.intendedState := by
  cases c with
  | enqueue | callable => exact ⟨a, rfl, rfl⟩
  | markSucceeded | markFailed => exact ⟨_, rfl, rfl⟩

variable {c : EffectCall}

/-- A settled row stays settled exactly when nobody settles it anew. -/
theorem effectRow_settled {a b : RemoteEffectAttempt}
    (hb : effectRow (some a) c = some b) (hsettled : a.status ≠ .pending) :
    a.SameSettlement b ↔ SettlesPending a c := by
  cases c with
  | enqueue | callable =>
    cases hb
    exact iff_of_true ⟨rfl, rfl, rfl⟩ trivial
  | markSucceeded remoteRevisionRef readBackPayload =>
    cases hb
    rw [SettlesPending, or_iff_right hsettled]
    constructor
    · rintro ⟨hstatus, herror, hreadBack⟩
      refine ⟨hstatus.symm, herror.symm, ?_⟩
      rintro v rfl
      exact hreadBack.symm
    · rintro ⟨hstatus, herror, hreadBack⟩
      refine ⟨hstatus.symm, herror.symm, ?_⟩
      show (readBackPayload.map canonicalReplaced).or a.readBackPayload = a.readBackPayload
      cases readBackPayload with
      | none => rfl
      | some v => exact (hreadBack v rfl).symm
  | markFailed error =>
    cases hb
    rw [SettlesPending, or_iff_right hsettled]
    constructor
    · rintro ⟨hstatus, herror, _⟩
      exact ⟨hstatus.symm, herror.symm⟩
    · rintro ⟨hstatus, herror⟩
      exact ⟨hstatus.symm, herror.symm, rfl⟩

/-- What a call saw of the stored state still holds, and no stored state has a field
    the replacer drops. -/
structure Agreed (row : Option RemoteEffectAttempt) (views : Nat → Option EffectView) : Prop where
  seen : ∀ i v a₀, views i = some v → v.seen = some a₀ →
    ∃ a, row = some a ∧ a.intendedState = a₀.intendedState
  clean : ∀ a v, row = some a → a.intendedState = some v → noProto v = true

variable {row : Option RemoteEffectAttempt}

theorem clean_effectRow (h : ∀ a v, row = some a → a.intendedState = some v → noProto v = true) :
    ∀ a v, effectRow row c = some a → a.intendedState = some v → noProto v = true := by
  intro a v ha hv
  cases row with
  | some a₀ =>
    obtain ⟨b, hb, hsame⟩ := effectRow_stored (a := a₀) c
    rw [hb] at ha
    cases ha
    exact h a₀ v rfl (hsame.symm.trans hv)
  | none =>
    cases c with
    | enqueue id intendedState =>
      cases ha
      obtain ⟨u, _, rfl⟩ := Option.map_eq_some_iff.mp hv
      exact noProto_canonicalReplaced u
    | callable | markSucceeded | markFailed => cases ha

variable {i : Nat}

theorem Agreed.update {row row' : Option RemoteEffectAttempt} {views : Nat → Option EffectView}
    {v' : Option EffectView} (h : Agreed row views)
    (hrow : ∀ a, row = some a → ∃ b, row' = some b ∧ b.intendedState = a.intendedState)
    (hclean : ∀ a v, row' = some a → a.intendedState = some v → noProto v = true)
    (hv : ∀ v a₀, v' = some v → v.seen = some a₀ →
      ∃ a, row' = some a ∧ a.intendedState = a₀.intendedState) :
    Agreed row' (Function.update views i v') := by
  refine ⟨fun j v a₀ hj hseen => ?_, hclean⟩
  rcases update_cases hj with ⟨-, hj⟩ | ⟨hij, hj⟩
  · exact hv v a₀ hj hseen
  · obtain ⟨a, ha, hsame⟩ := h.seen j v a₀ hj hseen
    obtain ⟨b, hb, hb'⟩ := hrow a ha
    exact ⟨b, hb, hb'.trans hsame⟩

theorem answer_row (key : String) (outcome : Outcome) (i : Nat) (c : EffectCall)
    (row : Option RemoteEffectAttempt) : ((attempts key).answer outcome i c row).2 = row ∨
      ((attempts key).answer outcome i c row).2 = effectRow row c := by
  cases outcome with
  | answered restored => exact .inr rfl
  | failed error => exact .inl rfl
  | lost error => exact .inr rfl

theorem answer_stored (key : String) (outcome : Outcome) (i : Nat) (c : EffectCall)
    (ha : row = some a) : ∃ b, ((attempts key).answer outcome i c row).2 = some b ∧
      b.intendedState = a.intendedState := by
  subst ha
  rcases answer_row key outcome i c (some a) with h | h
  · exact ⟨a, h, rfl⟩
  · rw [h]
    exact effectRow_stored c

variable {key : String}

theorem seen_reply {outcome : Outcome} {a₀ : RemoteEffectAttempt}
    (h : (seeEnqueued v c ((attempts key).answer outcome i c row).1).seen = some a₀) :
    v.seen = some a₀ ∨ ((attempts key).answer outcome i c row).2 = some a₀ := by
  cases c with
  | enqueue id intendedState =>
    cases outcome with
    | answered restored => exact .inr h
    | failed | lost => exact .inl h
  | callable | markSucceeded | markFailed =>
    refine .inl ?_
    unfold seeEnqueued at h
    exact h

variable {s : EffectPool}

/-- **A step keeps the views in agreement with the row.** -/
theorem agreed_step (e : Event RestoreCall Outcome)
    (hkept : s.Kept seeEnqueued Allowed) (h : Agreed s.world s.views) :
    Agreed (effectStep key s e).world (effectStep key s e).views := by
  refine step_rule hkept ?_ ?_ ?_ h
  · intro i j _
    refine h.update (fun a ha => ⟨a, ha, rfl⟩) h.clean ?_
    rintro v a₀ hv hseen
    cases hv
    cases hseen
  · intro i outcome c v _ hcall _ _
    refine h.update (fun a ha => answer_stored key outcome i c ha) ?_ ?_
    · rcases answer_row key outcome i c s.world with hrow | hrow
      · rw [hrow]
        exact h.clean
      · rw [hrow]
        exact clean_effectRow h.clean
    · rintro v' a₀ hv' hseen
      cases hv'
      rcases seen_reply hseen with hseen | hrow
      · obtain ⟨a, ha, hsame⟩ := h.seen i v a₀ hcall.view hseen
        obtain ⟨b, hb, hb'⟩ := answer_stored key outcome i c ha
        exact ⟨b, hb, hb'.trans hsame⟩
      · exact ⟨a₀, hrow, rfl⟩
  · intro row views i hrow
    refine hrow.update (fun a ha => ⟨a, ha, rfl⟩) hrow.clean ?_
    rintro v a₀ ⟨⟩

variable {intendedState : Option Json}

theorem of_not_mismatch {stored : Json} (h : mismatch (some stored) intendedState = false) :
    ∃ u, intendedState = some u ∧ canonicalReplaced u = canonicalReplaced stored := by
  rw [mismatch, Option.any_some, decide_eq_false_iff_not, ne_eq, not_not] at h
  obtain ⟨u, hu, hprint⟩ := Option.map_eq_some_iff.mp h.symm
  exact ⟨u, hu, print_injective hprint⟩

theorem canonical_null : canonical .null = .null := by
  rw [canonical, sortFields]
  · rintro _ ⟨⟩
  · rintro _ ⟨⟩

theorem noProto_null : noProto .null = true := by
  rw [noProto]
  · rintro _ ⟨⟩
  · rintro _ ⟨⟩

/-- The connector gets the stored state from a call that intends it, exactly when the
    call's state loses no field and no stored null stands in for it. -/
theorem connector_iff (hclean : ∀ v, a.intendedState = some v → noProto v = true)
    (hmatch : mismatch (orNull a.intendedState) intendedState = false) :
    (((orNull a.intendedState).or intendedState).getD .null = (orNull a.intendedState).getD .null ∧
      canonicalValue intendedState = canonicalValue (orNull a.intendedState)) ↔
    noProto (intendedState.getD .null) = true ∧
      (orNull a.intendedState = none → intendedState.getD .null = .null) := by
  cases hstored : orNull a.intendedState with
  | none =>
    rw [Option.none_or, canonicalValue, canonicalValue, Option.getD_none, canonical_null]
    constructor
    · rintro ⟨hnull, _⟩
      rw [hnull]
      exact ⟨noProto_null, fun _ => rfl⟩
    · rintro ⟨_, hnull⟩
      rw [hnull rfl]
      exact ⟨rfl, canonical_null⟩
  | some stored =>
    have hrow : a.intendedState = some stored := by
      unfold orNull at hstored
      split at hstored
      · cases hstored
      · exact hstored
    rw [hstored] at hmatch
    obtain ⟨u, rfl, hu⟩ := of_not_mismatch hmatch
    have hiff := canonical_eq_iff_noProto (hclean stored hrow) hu
    rw [Option.some_or, canonicalValue, canonicalValue, Option.getD_some, Option.getD_some, hiff]
    constructor
    · rintro ⟨_, hno⟩
      refine ⟨hno, ?_⟩
      rintro ⟨⟩
    · rintro ⟨hno, _⟩
      exact ⟨rfl, hno⟩

theorem connector_call {state : Option Json}
    (hkept : s.Kept seeEnqueued Allowed) (h : Agreed s.world s.views)
    (hcall : NextCall s i (.callable state) v) :
    ∃ a, s.world = some a ∧ state = (orNull a.intendedState).or v.intendedState ∧
      mismatch (orNull a.intendedState) v.intendedState = false := by
  obtain ⟨a₀, hseen, hstate, hmatch⟩ := hcall.allowed hkept
  obtain ⟨a, ha, hsame⟩ := h.seen i v a₀ hcall.view hseen
  rw [← hsame] at hstate hmatch
  exact ⟨a, ha, hstate, hmatch⟩

theorem stored_stays (e : Event RestoreCall Outcome) (ha : s.world = some a) :
    ∃ b, (effectStep key s e).world = some b ∧ b.intendedState = a.intendedState := by
  by_cases hsame : (effectStep key s e).world = s.world
  · exact ⟨a, hsame.trans ha, rfl⟩
  · obtain ⟨i, outcome, c, v, _, _, _, hworld⟩ := step_world (fun _ _ => rfl) hsame
    rw [show (effectStep key s e).world = _ from hworld]
    exact answer_stored key outcome i c ha

/-- **One step obeys the law exactly when it hurries nobody.** -/
theorem settlesOnce_iff {e : Event RestoreCall Outcome}
    (hkept : s.Kept seeEnqueued Allowed) (h : Agreed s.world s.views) :
    SettlesOnce key s e ↔ Unhurried s e := by
  constructor
  · intro hlaw
    cases e with
    | start | kill => trivial
    | turn i outcome =>
      intro c v hcall
      refine ⟨?_, fun hanswered a ha => ?_⟩
      · rintro state rfl
        obtain ⟨a, ha, hstate, hmatch⟩ := connector_call hkept h hcall
        obtain ⟨b, hb, hlaw⟩ := hlaw.connector i outcome state v rfl hcall
        cases ha.symm.trans hb
        rw [hstate] at hlaw
        obtain ⟨hno, hnull⟩ := (connector_iff (h.clean a · ha) hmatch).mp hlaw
        refine ⟨hno, fun a' ha' => ?_⟩
        cases ha.symm.trans ha'
        exact hnull
      · by_cases hpending : a.status = .pending
        · unfold SettlesPending
          split
          · exact .inl hpending
          · exact .inl hpending
          · trivial
        · obtain ⟨b, hb, _⟩ := effectRow_stored (a := a) c
          refine (effectRow_settled hb hpending).mp (hlaw.settled a b ha ?_ hpending)
          rw [show (effectStep key s (.turn i outcome)).world = _ from
            turn_world (fun _ _ => rfl) hcall rfl, ha]
          cases outcome with
          | answered restored => exact hb
          | failed error => exact absurd rfl (hanswered error)
          | lost error => exact hb
  · intro hun
    refine ⟨fun a ha => stored_stays e ha, fun a b ha hb hpending => ?_, ?_⟩
    · by_cases hsame : (effectStep key s e).world = s.world
      · rw [hsame, ha] at hb
        cases hb
        exact ⟨rfl, rfl, rfl⟩
      obtain ⟨i, outcome, c, v, rfl, hcall, _, hworld⟩ := step_world (fun _ _ => rfl) hsame
      have hanswered : ∀ error, outcome ≠ .failed error := by
        rintro error rfl
        exact hsame hworld
      rw [show (effectStep key s (.turn i outcome)).world = _ from hworld, ha] at hb
      have hrow : effectRow (some a) c = some b := by
        cases outcome with
        | answered restored => exact hb
        | failed error => exact absurd rfl (hanswered error)
        | lost error => exact hb
      exact (effectRow_settled hrow hpending).mpr ((hun c v hcall).2 hanswered a ha)
    · rintro i outcome state v rfl hcall
      obtain ⟨a, ha, rfl, hmatch⟩ := connector_call hkept h hcall
      obtain ⟨hno, hnull⟩ := (hun _ v hcall).1 _ rfl
      exact ⟨a, ha, (connector_iff (h.clean a · ha) hmatch).mpr ⟨hno, hnull a ha⟩⟩

/-- **Remote effects settle once, and with the stored state, in every interleaving,
    exactly when no call is hurried.** -/
theorem remote_effects (key : String) (events : List (Event RestoreCall Outcome)) :
    Admits (effectStep key) (SettlesOnce key) unused events ↔
      Admits (effectStep key) Unhurried unused events := by
  refine Admits.congr
    (I := fun s => s.Kept seeEnqueued Allowed ∧ Agreed s.world s.views) ?_ ?_ ?_
  · rintro s e ⟨hkept, hagreed⟩
    exact ⟨step_kept (restoreCall_keeps key) e hkept, agreed_step e hkept hagreed⟩
  · rintro s e ⟨hkept, hagreed⟩
    exact settlesOnce_iff hkept hagreed
  · refine ⟨?_, ?_, ?_⟩
    · rintro i t ⟨⟩
    · rintro i v a₀ ⟨⟩
    · rintro a v ⟨⟩

/-- A connector's success. -/
def restored : Outcome := .answered { remoteRevisionRef := none, readBack := none }

/-- Two calls enqueue, both reach the connector, one succeeds, the other's connector fails. -/
def twice : List (Event RestoreCall Outcome) :=
  [.start 0 { id := "a1", intendedState := some (.bool true) }, .turn 0 restored,
    .start 1 { id := "a2", intendedState := some (.bool true) }, .turn 1 restored,
    .turn 0 restored, .turn 0 restored, .turn 1 (.failed "timeout"), .turn 1 restored]

theorem settled_twice :
    ((twice.take 6).foldl (effectStep "k") unused).world.map RemoteEffectAttempt.status =
        some .succeeded ∧
      (twice.foldl (effectStep "k") unused).world.map RemoteEffectAttempt.status = some .failed ∧
      ¬ Admits (effectStep "k") (SettlesOnce "k") unused twice := by
  refine ⟨by decide +kernel, by decide +kernel, ?_⟩
  rintro ⟨_, _, _, _, _, _, _, hlast, _⟩
  obtain ⟨hstatus, _⟩ := hlast.settled _ _ rfl rfl (by decide)
  cases hstatus

end History
