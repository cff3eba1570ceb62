import Cinatra.Lib.Pool
import Mathlib.Data.List.Dedup

/-! # GateIndex — numbering the gates of a run

    Every gate of a remote flow comes with a task id of its own; the place of the
    id in a list kept in Redis selects the form that the user sees.  The list is
    read, searched and appended to in separate commands, by a worker and by server
    actions at once.  A program is the commands of one call; handing its index out
    is its last step, so that a state shows what has been handed out. -/

namespace A2a

open Process Machine

/-- An index a call has returned. -/
structure Handed where
  runId : String
  taskId : String
  index : Nat
deriving DecidableEq

/-- What the commands read and write; no key expires, and `handed` is not stored. -/
structure GateStore where
  lists : String → List String
  strings : String → Option String
  handed : List Handed

inductive GateCall where
  | lrange (key : String)
  | set (key value : String)
  | rpush (key value : String)
  | expire (key : String)
  | handOut (runId taskId : String) (index : Nat)

def GateCall.Reply : GateCall → Type
  | .lrange _ => List String
  | .set _ _ => Unit
  | .rpush _ _ => Nat
  | .expire _ => Unit
  | .handOut _ _ _ => Unit

abbrev GateProg (α : Type) := Prog GateCall GateCall.Reply String α

def gatesKey (runId : String) : String := "cinatra:wayflow:gates:" ++ runId

def taskRunKey (taskId : String) : String := "cinatra:wayflow:task-run:" ++ taskId

theorem gatesKey_inj {a b : String} : gatesKey a = gatesKey b ↔ a = b :=
  String.append_right_inj _

def getOrAddWayflowGateIndex (runId taskId : String) : GateProg Nat := do
  let list : List String ← perform (GateCall.lrange (gatesKey runId))
  -- written on every call, so that the gate of a reconnect keeps its mapping
  let _ : Unit ← perform (GateCall.set (taskRunKey taskId) runId)
  match list.idxOf? taskId with
  | some existing => pure existing
  | none => do
    let _ : Nat ← perform (GateCall.rpush (gatesKey runId) taskId)
    let _ : Unit ← perform (GateCall.expire (gatesKey runId))
    pure list.length

/-- A call, and its return. -/
def numberGate (runId taskId : String) : GateProg Unit := do
  let index ← getOrAddWayflowGateIndex runId taskId
  perform (GateCall.handOut runId taskId index)

/-! ## Calls that take turns -/

def gateReply (w : GateStore) : (c : GateCall) → c.Reply
  | .lrange key => w.lists key
  | .set _ _ => ()
  | .rpush key _ => (w.lists key).length + 1
  | .expire _ => ()
  | .handOut _ _ _ => ()

def gateWrite (w : GateStore) : GateCall → GateStore
  | .lrange _ => w
  | .set key value => { w with strings := Function.update w.strings key (some value) }
  | .rpush key value =>
    { w with lists := Function.update w.lists key (w.lists key ++ [value]) }
  | .expire _ => w
  | .handOut runId taskId index => { w with handed := ⟨runId, taskId, index⟩ :: w.handed }

def redis : Host GateCall GateCall.Reply String GateStore Unit where
  ready _ _ _ := true
  answer _ _ c w := (.ok (gateReply w c), gateWrite w c)
  leave _ w := w

/-- What a call knows: the list as it read it, and what it has done since. -/
structure GateView where
  runId : String
  taskId : String
  read : Option (List String) := none
  pushed : Bool := false
  returned : Bool := false
  failed : Bool := false

def GateView.see (v : GateView) : (c : GateCall) → Except String c.Reply → GateView
  | _, .error _ => { v with failed := true }
  | .lrange _, .ok list => { v with read := some list }
  | .rpush _ _, .ok _ => { v with pushed := true }
  | .handOut _ _ _, .ok _ => { v with returned := true }
  | .set _ _, .ok _ => v
  | .expire _, .ok _ => v

structure GateRequest where
  runId : String
  taskId : String

def GateRequest.task (j : GateRequest) : Task GateCall GateCall.Reply String GateView :=
  Task.of (numberGate j.runId j.taskId) { runId := j.runId, taskId := j.taskId }

abbrev GatePool := Pool GateCall GateCall.Reply String GateView GateStore

/-- The calls under way, and all that have been made. -/
structure Gates where
  pool : GatePool
  asked : List GateRequest

/-- A call is made, or makes its next command. -/
inductive GateEvent where
  | request (i : Nat) (j : GateRequest)
  | command (i : Nat)

def gateStep (s : Gates) : GateEvent → Gates
  | .request i j =>
    { pool := step redis GateView.see GateRequest.task s.pool (.start i j)
      asked := if (s.pool.tasks i).isSome then s.asked else j :: s.asked }
  | .command i => { s with pool := step redis GateView.see GateRequest.task s.pool (.turn i ()) }

def noGates : Gates := ⟨⟨⟨fun _ => [], fun _ => none, []⟩, fun _ => none⟩, []⟩

/-- No call of the run is under way. -/
def Gates.Settled (s : Gates) (runId : String) : Prop :=
  ∀ i v, s.pool.views i = some v → v.runId ≠ runId

/-- The task ids a run has been asked for. -/
def Gates.seen (s : Gates) (runId : String) : List String :=
  ((s.asked.filter (·.runId = runId)).map GateRequest.taskId).dedup

/-- **The numbering of a run is a bijection**: one index a task id, one task id an index,
    and, when no call is under way, an index for each of the `n` ids seen, below `n`. -/
structure Numbered (s : Gates) (runId : String) : Prop where
  stable : ∀ a ∈ s.pool.world.handed, ∀ b ∈ s.pool.world.handed,
    a.runId = runId → b.runId = runId → (a.taskId = b.taskId ↔ a.index = b.index)
  answered : s.Settled runId → ∀ taskId ∈ s.seen runId,
    ∃ index, ⟨runId, taskId, index⟩ ∈ s.pool.world.handed
  exact : s.Settled runId → ∀ index,
    (∃ taskId, ⟨runId, taskId, index⟩ ∈ s.pool.world.handed) ↔ index < (s.seen runId).length

/-- Whoever appends to the list finds it as it read it. -/
def Unraced (s : Gates) : GateEvent → Prop
  | .request _ _ => True
  | .command i => ∀ key value v, NextCall s.pool i (.rpush key value) v →
      v.read = some (s.pool.world.lists key)

/-! ## One call -/

/-- An index a call may return: where it has read its task id, or the old length of the list
    it has appended to. -/
def GateView.MayReturn (v : GateView) (index : Nat) : Prop :=
  ∃ l, v.read = some l ∧ (l[index]? = some v.taskId ∨ v.pushed = true ∧ index = l.length)

/-- A call reads the list of its run, appends its id once where it has not read it, and
    returns an index that it may return. -/
def GateView.May (v : GateView) : GateCall → Prop
  | .lrange key => key = gatesKey v.runId ∧ v.pushed = false
  | .set _ _ => True
  | .rpush key value => key = gatesKey v.runId ∧ value = v.taskId ∧ v.pushed = false ∧
      ∃ l, v.read = some l ∧ v.taskId ∉ l
  | .expire _ => True
  | .handOut runId taskId index => runId = v.runId ∧ taskId = v.taskId ∧ v.MayReturn index

def GateView.Ended (v : GateView) : Prop := v.returned = true ∨ v.failed = true

variable {t : String}

theorem getElem?_of_idxOf? {l : List String} {n : Nat} (h : l.idxOf? t = some n) :
    l[n]? = some t := by
  obtain ⟨hn, heq, _⟩ := List.findIdx?_eq_some_iff_getElem.mp h
  rw [List.getElem?_eq_getElem hn]
  exact congrArg some (beq_iff_eq.mp heq)

theorem getOrAdd_spec (runId taskId : String) :
    Spec (observed GateView.see) GateView.May (getOrAddWayflowGateIndex runId taskId)
      (Post (fun index v => v.runId = runId ∧ v.taskId = taskId ∧ v.MayReturn index)
        (fun _ v => v.failed = true)) { runId := runId, taskId := taskId } := by
  refine observe_call ⟨rfl, rfl⟩ (fun (list : List String) => ?_) (fun _ => rfl)
  refine observe_call trivial (fun _ => ?_) (fun _ => rfl)
  cases hfound : List.idxOf? taskId list with
  | some existing => exact ⟨rfl, rfl, list, rfl, .inl (getElem?_of_idxOf? hfound)⟩
  | none =>
    have hnew : taskId ∉ list := List.idxOf?_eq_none_iff.mp hfound
    refine observe_call ⟨rfl, rfl, rfl, list, rfl, hnew⟩ (fun _ => ?_) (fun _ => rfl)
    refine observe_call trivial (fun _ => ?_) (fun _ => rfl)
    exact ⟨rfl, rfl, list, rfl, .inr ⟨rfl, rfl⟩⟩

theorem numberGate_ends (j : GateRequest) :
    j.task.Ends GateView.see GateView.May GateView.Ended := by
  refine Task.ends_of ?_
  have hpost : Spec (observed GateView.see) GateView.May (numberGate j.runId j.taskId)
      (Post (fun _ v => v.Ended) (fun _ v => v.Ended))
      { runId := j.runId, taskId := j.taskId } := by
    refine Spec.post_bind
      (M := fun index v => v.runId = j.runId ∧ v.taskId = j.taskId ∧ v.MayReturn index)
      (Spec.mono (getOrAdd_spec j.runId j.taskId) ?_) ?_
    · intro r v hr
      cases r with
      | ok index => exact hr
      | error err => exact .inr hr
    · rintro index v ⟨hrun, htask, hmay⟩
      refine observe_spec ⟨hrun.symm, htask.symm, hmay⟩ fun r => ?_
      cases r with
      | ok _ => exact .inl rfl
      | error _ => exact .inr rfl
  refine Spec.mono hpost ?_
  intro r v hr
  cases r with
  | ok | error => exact hr

/-! ## Lists that grow -/

/-- Lists grow at their end, and what has been handed out stays so. -/
structure Grows (w w' : GateStore) : Prop where
  lists : ∀ key, w.lists key <+: w'.lists key
  handed : w.handed ⊆ w'.handed

theorem grows_write (w : GateStore) (c : GateCall) : Grows w (gateWrite w c) := by
  cases c with
  | rpush key value =>
    refine ⟨fun key' => ?_, List.Subset.refl _⟩
    show _ <+: Function.update w.lists key (w.lists key ++ [value]) key'
    by_cases h : key' = key
    · subst h
      simp
    · simp [Function.update_of_ne h]
  | handOut runId taskId index => exact ⟨fun _ => List.prefix_refl _, List.subset_cons_self _ _⟩
  | lrange | set | expire => exact ⟨fun _ => List.prefix_refl _, List.Subset.refl _⟩

theorem getElem?_of_prefix {l l' : List String} {n : Nat} (h : l <+: l')
    (hn : l[n]? = some t) : l'[n]? = some t := by
  obtain ⟨m, rfl⟩ := h
  rw [List.getElem?_append_left (List.getElem?_eq_some_iff.mp hn).1]
  exact hn

/-- What a call knows is so: it has been asked for, it has read a beginning of the list, its
    id stands where it has read the end, and it has returned what was handed out. -/
structure GateView.Fits (v : GateView) (w : GateStore) (asked : List GateRequest) : Prop where
  sound : v.failed = false
  requested : ⟨v.runId, v.taskId⟩ ∈ asked
  read : ∀ l, v.read = some l → l <+: w.lists (gatesKey v.runId)
  pushed : ∀ l, v.read = some l → v.pushed = true →
    (w.lists (gatesKey v.runId))[l.length]? = some v.taskId
  returned : v.returned = true → ∃ index, ⟨v.runId, v.taskId, index⟩ ∈ w.handed

variable {v : GateView}

theorem GateView.Fits.grow {w w' : GateStore} {asked asked' : List GateRequest}
    (h : v.Fits w asked) (hgrows : Grows w w') (hasked : asked ⊆ asked') : v.Fits w' asked' where
  sound := h.sound
  requested := hasked h.requested
  read l hl := (h.read l hl).trans (hgrows.lists _)
  pushed l hl hpushed := getElem?_of_prefix (hgrows.lists _) (h.pushed l hl hpushed)
  returned hreturned := by
    obtain ⟨index, hindex⟩ := h.returned hreturned
    exact ⟨index, hgrows.handed hindex⟩

variable {asked : List GateRequest} {w : GateStore}

theorem GateView.Fits.place (h : v.Fits w asked) {index : Nat} (hmay : v.MayReturn index) :
    (w.lists (gatesKey v.runId))[index]? = some v.taskId := by
  obtain ⟨l, hl, hfound | ⟨hpushed, rfl⟩⟩ := hmay
  · exact getElem?_of_prefix (h.read l hl) hfound
  · exact h.pushed l hl hpushed

/-- What the lists, the calls under way and the indexes handed out agree on. -/
structure Agreed (w : GateStore) (views : Nat → Option GateView) (asked : List GateRequest) :
    Prop where
  nodup : ∀ runId, (w.lists (gatesKey runId)).Nodup
  placed : ∀ h ∈ w.handed, (w.lists (gatesKey h.runId))[h.index]? = some h.taskId
  listed : ∀ runId, ∀ taskId ∈ w.lists (gatesKey runId), ⟨runId, taskId⟩ ∈ asked
  fits : ∀ i v, views i = some v → v.Fits w asked
  known : ∀ j ∈ asked, (∃ i v, views i = some v ∧ v.runId = j.runId ∧ v.taskId = j.taskId) ∨
    ∃ index, ⟨j.runId, j.taskId, index⟩ ∈ w.handed

@[simp] theorem see_runId (v : GateView) (c : GateCall) (r : Except String c.Reply) :
    (v.see c r).runId = v.runId := by
  cases r <;> cases c <;> rfl

@[simp] theorem see_taskId (v : GateView) (c : GateCall) (r : Except String c.Reply) :
    (v.see c r).taskId = v.taskId := by
  cases r <;> cases c <;> rfl

variable {c : GateCall}

/-- The call that has been answered fits what it has been answered from. -/
theorem fits_see (h : v.Fits w asked) (hmay : v.May c)
    (hun : ∀ key value, c = .rpush key value → v.read = some (w.lists key)) :
    (v.see c (.ok (gateReply w c))).Fits (gateWrite w c) asked := by
  have hgrown := h.grow (grows_write w c) (List.Subset.refl asked)
  cases c with
  | set | expire => exact hgrown
  | lrange key =>
    obtain ⟨rfl, hnot⟩ := hmay
    constructor
    · exact h.sound
    · exact h.requested
    · rintro l ⟨⟩
      exact List.prefix_refl _
    · -- a call reads before it appends
      intro l _ hpushed
      rw [show v.pushed = true from hpushed] at hnot
      cases hnot
    · exact h.returned
  | rpush key value =>
    obtain ⟨rfl, rfl, _, _⟩ := hmay
    have hread := hun _ _ rfl
    constructor
    · exact h.sound
    · exact h.requested
    · exact hgrown.read
    · -- the list ended where the call read its end
      intro l hl _
      cases hread.symm.trans (show v.read = some l from hl)
      show (Function.update w.lists _ _ _)[_]? = _
      simp [GateView.see]
    · exact h.returned
  | handOut runId taskId index =>
    obtain ⟨rfl, rfl, _⟩ := hmay
    constructor
    · exact h.sound
    · exact h.requested
    · exact h.read
    · exact h.pushed
    · intro _
      exact ⟨index, .head _⟩

variable {views : Nat → Option GateView}

/-- The lists after a call: a new id only at the end of its own. -/
theorem lists_write (hmay : v.May c)
    (hun : ∀ key value, c = .rpush key value → v.read = some (w.lists key)) (runId : String) :
    (gateWrite w c).lists (gatesKey runId) = w.lists (gatesKey runId) ∨
      runId = v.runId ∧ v.taskId ∉ w.lists (gatesKey runId) ∧
        (gateWrite w c).lists (gatesKey runId) = w.lists (gatesKey runId) ++ [v.taskId] := by
  cases c with
  | rpush key value =>
    obtain ⟨rfl, rfl, _, l, hl, hnew⟩ := hmay
    cases (hun _ _ rfl).symm.trans hl
    show Function.update w.lists _ _ _ = _ ∨ _ ∧ _ ∧ Function.update w.lists _ _ _ = _
    by_cases hrun : runId = v.runId
    · subst hrun
      exact .inr ⟨rfl, hnew, Function.update_self ..⟩
    · left
      exact Function.update_of_ne (fun h => hrun (gatesKey_inj.mp h)) ..
  | lrange | set | expire | handOut => exact .inl rfl

variable {i : Nat}

/-- **An answered command keeps the agreement**, where an append finds the list as read. -/
theorem Agreed.turn (h : Agreed w views asked) (hview : views i = some v)
    (hmay : v.May c) (hun : ∀ key value, c = .rpush key value → v.read = some (w.lists key)) :
    Agreed (gateWrite w c) (Function.update views i (some (v.see c (.ok (gateReply w c)))))
      asked := by
  have hv := h.fits i v hview
  have hgrows := grows_write w c
  constructor
  · intro runId
    rcases lists_write hmay hun runId with hsame | ⟨_, hnew, hpushed⟩
    · rw [hsame]
      exact h.nodup runId
    · rw [hpushed]
      exact List.concat_eq_append ▸ (h.nodup runId).concat hnew
  · intro out hout
    have hold : out ∈ w.handed → (w.lists (gatesKey out.runId))[out.index]? = some out.taskId :=
      h.placed out
    cases c with
    | handOut runId taskId index =>
      obtain ⟨rfl, rfl, hreturn⟩ := hmay
      rcases List.mem_cons.mp hout with rfl | hmem
      · exact hv.place hreturn
      · exact hold hmem
    | rpush key value => exact getElem?_of_prefix (hgrows.lists _) (hold hout)
    | lrange | set | expire => exact hold hout
  · intro runId taskId hmem
    rcases lists_write hmay hun runId with hsame | ⟨rfl, _, hpushed⟩
    · rw [hsame] at hmem
      exact h.listed runId taskId hmem
    rw [hpushed] at hmem
    rcases List.mem_append.mp hmem with hmem | hmem
    · exact h.listed _ taskId hmem
    · rw [List.mem_singleton.mp hmem]
      exact hv.requested
  · intro k u hu
    rcases update_cases hu with ⟨_, hu⟩ | ⟨_, hu⟩
    · cases hu
      exact fits_see hv hmay hun
    · exact (h.fits k u hu).grow hgrows (List.Subset.refl asked)
  · intro j hj
    rcases h.known j hj with ⟨k, u, hu, hrun, htask⟩ | ⟨index, hindex⟩
    · left
      by_cases hk : k = i
      · -- the call that has been answered is still under way
        subst hk
        cases hview.symm.trans hu
        exact ⟨k, _, Function.update_self .., by simp [hrun], by simp [htask]⟩
      · exact ⟨k, u, by rw [Function.update_of_ne hk]; exact hu, hrun, htask⟩
    · exact .inr ⟨index, hgrows.handed hindex⟩

theorem Agreed.drop
    (h : Agreed w views asked) (hreturned : ∀ v, views i = some v → v.returned = true) :
    Agreed w (Function.update views i none) asked := by
  refine ⟨h.nodup, h.placed, h.listed, ?_, ?_⟩
  · intro k u hu
    rcases update_cases hu with ⟨_, hnone⟩ | ⟨_, hu⟩
    · cases hnone
    · exact h.fits k u hu
  · intro j hj
    rcases h.known j hj with ⟨k, u, hu, hrun, htask⟩ | hhanded
    · by_cases hk : k = i
      · subst hk
        obtain ⟨index, hindex⟩ := (h.fits k u hu).returned (hreturned u hu)
        rw [hrun, htask] at hindex
        exact .inr ⟨index, hindex⟩
      · exact .inl ⟨k, u, by rw [Function.update_of_ne hk]; exact hu, hrun, htask⟩
    · exact .inr hhanded

theorem Agreed.request (h : Agreed w views asked) (hfree : views i = none) (j : GateRequest) :
    Agreed w (Function.update views i (some { runId := j.runId, taskId := j.taskId }))
      (j :: asked) := by
  refine ⟨h.nodup, h.placed, ?_, ?_, ?_⟩
  · intro runId taskId hmem
    exact .tail _ (h.listed runId taskId hmem)
  · intro k u hu
    rcases update_cases hu with ⟨_, hnew⟩ | ⟨_, hu⟩
    · cases hnew
      constructor
      · rfl
      · exact .head _
      · rintro l ⟨⟩
      · rintro l ⟨⟩
      · rintro ⟨⟩
    · exact (h.fits k u hu).grow ⟨fun _ => List.prefix_refl _, List.Subset.refl _⟩
        (List.subset_cons_self _ _)
  · intro j' hj'
    rcases List.mem_cons.mp hj' with rfl | hj'
    · exact .inl ⟨i, _, Function.update_self .., rfl, rfl⟩
    rcases h.known j' hj' with ⟨k, u, hu, hrun, htask⟩ | hhanded
    · have hk : k ≠ i := by
        rintro rfl
        rw [hfree] at hu
        cases hu
      exact .inl ⟨k, u, by rw [Function.update_of_ne hk]; exact hu, hrun, htask⟩
    · exact .inr hhanded

/-! ## Runs -/

/-- Every call under way goes on as its program does, and the agreement holds. -/
structure Orderly (s : Gates) : Prop where
  ends : s.pool.Every (Task.Ends GateView.see GateView.May GateView.Ended)
  agreed : Agreed s.pool.world s.pool.views s.asked

theorem orderly_noGates : Orderly noGates := by
  refine ⟨?_, ?_, ?_, ?_, ?_, ?_⟩
  · rintro i t ⟨⟩
  · exact fun _ => List.nodup_nil
  · rintro h ⟨⟩
  · rintro runId taskId ⟨⟩
  · rintro i v ⟨⟩
  · rintro j ⟨⟩

theorem ends_step {s : GatePool} (e : Event GateRequest Unit)
    (h : s.Every (Task.Ends GateView.see GateView.May GateView.Ended)) :
    (step redis GateView.see GateRequest.task s e).Every
      (Task.Ends GateView.see GateView.May GateView.Ended) :=
  step_every numberGate_ends (fun _ _ _ r hcall => (Task.Ends.call hcall).2 r) e h

variable {s : Gates}

/-- **A step keeps the calls in order**, where nobody is overtaken. -/
theorem orderly_step {e : GateEvent} (h : Orderly s) (hun : Unraced s e) :
    Orderly (gateStep s e) := by
  cases e with
  | request i j =>
    refine ⟨ends_step _ h.ends, ?_⟩
    simp only [gateStep, step]
    by_cases hbusy : (s.pool.tasks i).isSome = true
    · simp only [hbusy, if_true]
      exact h.agreed
    have hfree : s.pool.views i = none := by
      rw [Pool.views, Option.not_isSome_iff_eq_none.mp hbusy]
      rfl
    simp only [hbusy, if_neg Bool.false_ne_true]
    rw [views_put]
    exact h.agreed.request hfree j
  | command i =>
    refine ⟨ends_step _ h.ends, ?_⟩
    have hstepped : Stepped redis GateView.see GateRequest.task GateView.May GateView.Ended
        s.pool (.turn i ()) (step redis GateView.see GateRequest.task s.pool (.turn i ())).world
        (step redis GateView.see GateRequest.task s.pool (.turn i ())).views :=
      step_stepped h.ends _
    show Agreed (step redis GateView.see GateRequest.task s.pool (.turn i ())).world
      (step redis GateView.see GateRequest.task s.pool (.turn i ())).views s.asked
    generalize (step redis GateView.see GateRequest.task s.pool (.turn i ())).world = w
      at hstepped ⊢
    generalize (step redis GateView.see GateRequest.task s.pool (.turn i ())).views = views
      at hstepped ⊢
    cases hstepped with
    | idle => exact h.agreed
    | @answered _ _ c v hcall hmay _ =>
      refine h.agreed.turn hcall.view hmay ?_
      rintro key value rfl
      exact hun key value v hcall
    | @ended _ _ c v hcall hmay _ hend =>
      have hturn := h.agreed.turn hcall.view hmay (by
        rintro key value rfl
        exact hun key value v hcall)
      have hdrop := hturn.drop (i := i) (by
        intro u hu
        rw [Function.update_self] at hu
        cases hu
        -- no command fails, so that the call has ended with its return
        refine hend.resolve_right ?_
        have hsound := (hturn.fits i _ (Function.update_self ..)).sound
        rw [Bool.not_eq_true]
        exact hsound)
      rw [Function.update_idem] at hdrop
      exact hdrop

variable {runId : String} {taskId : String}

theorem mem_seen : taskId ∈ s.seen runId ↔ ⟨runId, taskId⟩ ∈ s.asked := by
  simp only [Gates.seen, List.mem_dedup, List.mem_map, List.mem_filter, decide_eq_true_eq]
  constructor
  · rintro ⟨j, ⟨hj, rfl⟩, rfl⟩
    exact hj
  · intro h
    exact ⟨_, ⟨h, rfl⟩, rfl⟩

section

variable (h : Agreed s.pool.world s.pool.views s.asked)

include h

theorem Agreed.answered (hsettled : s.Settled runId) (hasked : ⟨runId, taskId⟩ ∈ s.asked) :
    ∃ index, ⟨runId, taskId, index⟩ ∈ s.pool.world.handed := by
  rcases h.known _ hasked with ⟨i, v, hv, hrun, _⟩ | hhanded
  · exact absurd hrun (hsettled i v hv)
  · exact hhanded

/-- Where no call is under way, the list holds exactly the ids seen. -/
theorem Agreed.length_seen (hsettled : s.Settled runId) :
    (s.seen runId).length = (s.pool.world.lists (gatesKey runId)).length := by
  refine List.Perm.length_eq ?_
  have hnodup : (s.seen runId).Nodup := List.nodup_dedup _
  rw [List.perm_ext_iff_of_nodup hnodup (h.nodup runId)]
  intro taskId
  rw [mem_seen]
  constructor
  · intro hasked
    obtain ⟨index, hindex⟩ := h.answered hsettled hasked
    exact List.mem_of_getElem? (h.placed _ hindex)
  · exact h.listed runId taskId

theorem Agreed.numbered (runId : String) : Numbered s runId := by
  constructor
  · rintro a ha b hb rfl hrun
    have hplace := h.placed a ha
    have hplace' := h.placed b hb
    rw [hrun] at hplace'
    constructor
    · intro htask
      rw [← htask] at hplace'
      have hlt := (List.getElem?_eq_some_iff.mp hplace).1
      exact (List.getElem?_inj hlt (h.nodup a.runId)).mp (hplace.trans hplace'.symm)
    · intro hindex
      rw [← hindex] at hplace'
      exact Option.some.inj (hplace.symm.trans hplace')
  · intro hsettled taskId htask
    exact h.answered hsettled (mem_seen.mp htask)
  · intro hsettled index
    rw [h.length_seen hsettled]
    constructor
    · rintro ⟨taskId, hhanded⟩
      exact (List.getElem?_eq_some_iff.mp (h.placed _ hhanded)).1
    · intro hlt
      obtain ⟨taskId, htask⟩ : ∃ t, (s.pool.world.lists (gatesKey runId))[index]? = some t :=
        ⟨_, List.getElem?_eq_getElem hlt⟩
      obtain ⟨index', hhanded⟩ :=
        h.answered hsettled (h.listed runId taskId (List.mem_of_getElem? htask))
      have hplace := h.placed _ hhanded
      refine ⟨taskId, ?_⟩
      rw [(List.getElem?_inj hlt (h.nodup runId)).mp (htask.trans hplace.symm)]
      exact hhanded

end

/-- **Gates are numbered one to one, in every run in which whoever appends to the list of a
    run finds it as it read it.** -/
theorem gates_numbered {s : Gates} (h : Reaches (· = noGates) gateStep Unraced s)
    (runId : String) : Numbered s runId := by
  have horderly : Orderly s := by
    refine Reaches.invariant (I := Orderly) ?_ ?_ h
    · rintro _ rfl
      exact orderly_noGates
    · exact fun _ _ => orderly_step
  exact horderly.agreed.numbered runId

/-- A call that is answered to its end, and calls for the same gate and another after it. -/
def twice : List GateEvent :=
  [.request 0 ⟨"run", "g1"⟩, .command 0, .command 0, .command 0, .command 0, .command 0,
    .request 0 ⟨"run", "g1"⟩, .command 0, .command 0, .command 0, .request 1 ⟨"run", "g2"⟩,
    .command 1, .command 1, .command 1, .command 1, .command 1]

theorem gates_numbered_twice : Numbered (twice.foldl gateStep noGates) "run" := by
  refine gates_numbered ⟨noGates, rfl, Admits.leads ?_⟩ "run"
  refine ⟨trivial, ?_, ?_, ?_, ?_, ?_, trivial, ?_, ?_, ?_, trivial, ?_, ?_, ?_, ?_, ?_, trivial⟩
  all_goals
    rintro key value v ⟨k, hk⟩
    cases hk
  all_goals exact rfl

/-- Two calls for two gates read the list before either appends. -/
def raced : List GateEvent :=
  [.request 0 ⟨"run", "g1"⟩, .request 1 ⟨"run", "g2"⟩, .command 0, .command 1, .command 0,
    .command 1, .command 0, .command 1, .command 0, .command 1, .command 0, .command 1]

theorem raced_gates : ¬ ∀ s, Reaches (· = noGates) gateStep (fun _ _ => True) s →
    ∀ runId, Numbered s runId := by
  intro hall
  have hraced := hall (raced.foldl gateStep noGates) ⟨noGates, rfl, Admits.leads (by
    refine ⟨?_, ?_, ?_, ?_, ?_, ?_, ?_, ?_, ?_, ?_, ?_, ?_, ?_⟩ <;> trivial)⟩ "run"
  have hhanded : (raced.foldl gateStep noGates).pool.world.handed =
      [⟨"run", "g2", 0⟩, ⟨"run", "g1", 0⟩] := by decide +kernel
  have hsame := (hraced.stable ⟨"run", "g2", 0⟩ (by simp [hhanded]) ⟨"run", "g1", 0⟩
    (by simp [hhanded]) rfl rfl).mpr rfl
  simp at hsame

end A2a
