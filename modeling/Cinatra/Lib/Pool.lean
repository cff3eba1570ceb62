import Cinatra.Lib.Machine
import Cinatra.Lib.Process
import Mathlib.Logic.Function.Basic

/-! # Pool — programs that run at once

    Tasks take turns, one call at a time, on one world; any of them may be killed
    between two calls.  Each has a view: what it has learnt from the replies to
    its own calls.  A program is checked alone, against every reply (`Keeps`);
    what the tasks are about together is an invariant of the world and the views,
    and it need be proved for one turn only (`step_rule`). -/

namespace Process

variable {C : Type} {R : C → Type} {ε α σ φ ν J : Type} {β : Type}

theorem update_cases {ι : Type} [DecidableEq ι] {vs : ι → β} {i j : ι} {o y : β}
    (h : Function.update vs i o j = y) : j = i ∧ o = y ∨ j ≠ i ∧ vs j = y := by
  rw [Function.update_apply] at h
  split at h
  next hj => exact .inl ⟨hj, h⟩
  next hj => exact .inr ⟨hj, h⟩

/-- The environment that may reply anything, and leaves the view. -/
def observed (see : ν → (c : C) → Except ε (R c) → ν) :
    Environment C R ε ν ((c : C) → Except ε (R c)) :=
  ⟨fun f c v => (f c, see v c (f c))⟩

variable {v : ν} {c : C} {see : ν → (c : C) → Except ε (R c) → ν} {A : ν → C → Prop}

theorem observe_spec {Q : Except ε (R c) → ν → Prop} (hA : A v c) (h : ∀ r, Q r (see v c r)) :
    Spec (observed see) A (perform c) Q v :=
  Spec.perform hA (fun f => h (f c))

theorem observe_call {f : R c → Prog C R ε β} {Q : β → ν → Prop} {E : ε → ν → Prop} (hA : A v c)
    (h : ∀ r, Spec (observed see) A (f r) (Post Q E) (see v c (.ok r)))
    (herr : ∀ err, E err (see v c (.error err))) :
    Spec (observed see) A (perform c >>= f) (Post Q E) v := by
  refine Spec.post_bind (M := fun r v' => v' = see v c (.ok r)) (observe_spec hA fun r => ?_) ?_
  · cases r with
    | ok a => exact rfl
    | error err => exact herr err
  · rintro r v' rfl
    exact h r

structure Task (C : Type) (R : C → Type) (ε ν : Type) where
  prog : Prog C R ε Unit
  view : ν

/-- Whatever is replied, the task makes only calls its view allows. -/
def Task.Keeps (see : ν → (c : C) → Except ε (R c) → ν) (A : ν → C → Prop) (t : Task C R ε ν) :
    Prop := Spec (observed see) A t.prog (fun _ _ => True) t.view

/-- A task from a program, whatever its result. -/
def Task.of (p : Prog C R ε α) (v : ν) : Task C R ε ν := ⟨p.bind (fun _ => pure ()), v⟩

variable {see : ν → (c : C) → Except ε (R c) → ν} {A : ν → C → Prop}

variable {p : Prog C R ε α}

theorem Task.keeps_of {Q : Except ε α → ν → Prop}
    (h : Spec (observed see) A p Q v) : (Task.of p v).Keeps see A := by
  refine Spec.bind (Spec.mono h ?_)
  intro r w _
  cases r with
  | ok | error => trivial

variable {S : C → Prop}

theorem Task.keeps_of_only (h : Only S p) (v : ν) : (Task.of p v).Keeps see (fun _ c => S c) := by
  refine Task.keeps_of (Q := fun _ _ => True) ?_
  induction p generalizing v with
  | done r => trivial
  | call c k ih => exact ⟨h.1, fun f => ih _ (h.2 _) _⟩

/-- Whatever is replied, the task makes only calls its view allows, and ends with a view of
    a kind. -/
def Task.Ends (see : ν → (c : C) → Except ε (R c) → ν) (A : ν → C → Prop) (E : ν → Prop)
    (t : Task C R ε ν) : Prop := Spec (observed see) A t.prog (fun _ v => E v) t.view

variable {E : ν → Prop}

theorem Task.ends_of
    (h : Spec (observed see) A p (fun _ v => E v) v) : (Task.of p v).Ends see A E := by
  refine Spec.bind (Spec.mono h ?_)
  intro r w hr
  cases r with
  | ok | error => exact hr

variable {k : Except ε (R c) → Prog C R ε Unit}

theorem Task.Ends.call [Inhabited ε] (h : Task.Ends see A E ⟨.call c k, v⟩) :
    A v c ∧ ∀ r, Task.Ends see A E ⟨k r, see v c r⟩ := by
  classical
  refine ⟨h.1, fun r => ?_⟩
  have hr := h.2 (Function.update (fun _ => Except.error default) c r)
  simp only [observed, Function.update_self] at hr
  exact hr

theorem Task.Keeps.call [Inhabited ε] (h : Task.Keeps see A ⟨.call c k, v⟩) :
    A v c ∧ ∀ r, Task.Keeps see A ⟨k r, see v c r⟩ :=
  Task.Ends.call (E := fun _ => True) h

/-! ### Checking a program, call by call -/

/-- Whatever is replied, the program makes only calls its view allows. -/
def Checked (see : ν → (c : C) → Except ε (R c) → ν) (A : ν → C → Prop) (p : Prog C R ε α)
    (v : ν) : Prop := Spec (observed see) A p (fun _ _ => True) v

theorem Checked.task (h : Checked see A p v) : (Task.of p v).Keeps see A := Task.keeps_of h

theorem checked_pure (a : α) (v : ν) : Checked see A (pure a) v := trivial

theorem checked_throw (err : ε) (v : ν) : Checked see A (throwErr err : Prog C R ε α) v := trivial

variable {f : R c → Prog C R ε α}

theorem checked_call (hA : A v c)
    (h : ∀ r, Checked see A (f r) (see v c (.ok r))) : Checked see A (perform c >>= f) v := by
  refine Spec.bind (observe_spec hA ?_)
  intro r
  cases r with
  | ok a => exact h a
  | error err => trivial

theorem checked_try {g : ε → Prog C R ε (R c)}
    (hA : A v c) (h : ∀ r, Checked see A (f r) (see v c (.ok r)))
    (herr : ∀ err, Checked see A (g err >>= f) (see v c (.error err))) :
    Checked see A (tryCatch (perform c) g >>= f) v := by
  refine ⟨hA, fun r => ?_⟩
  show Spec _ _ (Prog.bind (Prog.bind (.done (.ok (r c))) _) f) _ _
  cases hr : r c with
  | ok a =>
    have hok := h a
    rw [Checked, ← hr] at hok
    exact hok
  | error err =>
    have herror := herr err
    rw [Checked, ← hr] at herror
    exact herror

theorem checked_swallow {f : Unit → Prog C R ε α} (hA : A v c)
    (h : ∀ r, Checked see A (f ()) (see v c r)) : Checked see A (swallow (perform c) >>= f) v := by
  refine Spec.bind (Spec.swallow (observe_spec hA fun r => ?_))
  exact h r

theorem Checked.bind {f : α → Prog C R ε β}
    (hp : Checked see A p v) (hf : ∀ a v', Checked see A (f a) v') : Checked see A (p >>= f) v := by
  refine Spec.bind (Spec.mono hp ?_)
  intro r v' _
  cases r with
  | ok a => exact hf a v'
  | error err => trivial

theorem Checked.tryCatch {g : ε → Prog C R ε α}
    (hp : Checked see A p v) (hg : ∀ err v', Checked see A (g err) v') :
    Checked see A (Process.tryCatch p g) v := by
  refine Spec.tryCatch (Spec.mono hp ?_)
  intro r v' _
  cases r with
  | ok a => trivial
  | error err => exact hg err v'

theorem checked_only (h : Only S p) (hS : ∀ v c, S c → A v c) (v : ν) : Checked see A p v := by
  induction p generalizing v with
  | done r => trivial
  | call c k ih => exact ⟨hS v c h.1, fun f => ih _ (h.2 _) _⟩

theorem Only.observed {I : ν → Prop} (h : Only S p)
    (hA : ∀ v c, I v → S c → A v c) (hsee : ∀ v c r, I v → S c → I (see v c r))
    (hI : I v) : Spec (observed see) A p (fun _ v => I v) v := by
  induction p generalizing v with
  | done r => exact hI
  | call c k ih => exact ⟨hA v c hI h.1, fun f => ih _ (h.2 _) (hsee v c _ hI h.1)⟩

/-! ## Turns -/

/-- The world of the tasks: which calls may go ahead, how they are answered, and
    what a task's end leaves. -/
structure Host (C : Type) (R : C → Type) (ε σ φ : Type) where
  ready : σ → Nat → C → Bool
  answer : φ → Nat → (c : C) → σ → Except ε (R c) × σ
  leave : Nat → σ → σ

structure Pool (C : Type) (R : C → Type) (ε ν σ : Type) where
  world : σ
  tasks : Nat → Option (Task C R ε ν)

/-- The views of the tasks that are running. -/
def Pool.views (s : Pool C R ε ν σ) (i : Nat) : Option ν := (s.tasks i).map Task.view

inductive Event (J φ : Type) where
  | start (i : Nat) (j : J)
  | turn (i : Nat) (f : φ)
  | kill (i : Nat)

def Pool.put (s : Pool C R ε ν σ) (i : Nat) (t : Option (Task C R ε ν)) : Pool C R ε ν σ :=
  { s with tasks := Function.update s.tasks i t }

variable {s : Pool C R ε ν σ} {i : Nat} {t : Option (Task C R ε ν)}

@[simp] theorem put_tasks : (s.put i t).tasks = Function.update s.tasks i t := rfl

/-- A task is gone. -/
def Pool.drop (host : Host C R ε σ φ) (s : Pool C R ε ν σ) (i : Nat) : Pool C R ε ν σ :=
  { (s.put i none) with world := host.leave i s.world }

/-- A task goes on, or has ended. -/
def Pool.resume (host : Host C R ε σ φ) (s : Pool C R ε ν σ) (i : Nat) (t : Task C R ε ν) :
    Pool C R ε ν σ :=
  match t.prog with
  | .done _ => s.drop host i
  | .call _ _ => s.put i (some t)

def step (host : Host C R ε σ φ) (see : ν → (c : C) → Except ε (R c) → ν)
    (job : J → Task C R ε ν) (s : Pool C R ε ν σ) : Event J φ → Pool C R ε ν σ
  | .start i j => if (s.tasks i).isSome then s else s.put i (some (job j))
  | .turn i f =>
    match s.tasks i with
    | some ⟨.call c k, v⟩ =>
      if host.ready s.world i c then
        { s with world := (host.answer f i c s.world).2 }.resume host i
          ⟨k (host.answer f i c s.world).1, see v c (host.answer f i c s.world).1⟩
      else s
    | _ => s
  | .kill i => if (s.tasks i).isSome then s.drop host i else s

/-- The task that an event is about. -/
def Event.task : Event J φ → Nat
  | .start i _ | .turn i _ | .kill i => i

/-- What a task calls next, and what it has seen. -/
def NextCall (s : Pool C R ε ν σ) (i : Nat) (c : C) (v : ν) : Prop :=
  ∃ k, s.tasks i = some ⟨.call c k, v⟩

/-- Every task that is running makes only calls its view allows. -/
def Pool.Kept (see : ν → (c : C) → Except ε (R c) → ν) (A : ν → C → Prop) (s : Pool C R ε ν σ) :
    Prop := ∀ i t, s.tasks i = some t → t.Keeps see A

theorem NextCall.view (h : NextCall s i c v) : s.views i = some v := by
  obtain ⟨k, hk⟩ := h
  rw [Pool.views, hk]
  rfl

theorem NextCall.unique {c c' : C} {v v' : ν}
    (h : NextCall s i c v) (h' : NextCall s i c' v') : c = c' ∧ v = v' := by
  obtain ⟨k, hk⟩ := h
  obtain ⟨k', hk'⟩ := h'
  cases hk.symm.trans hk'
  exact ⟨rfl, rfl⟩

theorem NextCall.allowed [Inhabited ε] (h : NextCall s i c v) (hkept : s.Kept see A) : A v c := by
  obtain ⟨k, hk⟩ := h
  exact (Task.Keeps.call (hkept i _ hk)).1

theorem views_put : (s.put i t).views = Function.update s.views i (t.map Task.view) := by
  funext j
  by_cases hj : j = i
  · rw [hj, Function.update_self, Pool.views, put_tasks, Function.update_self]
  · rw [Function.update_of_ne hj, Pool.views, put_tasks, Function.update_of_ne hj]
    rfl

/-- Something holds of every task that is running. -/
def Pool.Every (P : Task C R ε ν → Prop) (s : Pool C R ε ν σ) : Prop :=
  ∀ i t, s.tasks i = some t → P t

variable {P : Task C R ε ν → Prop}

theorem every_put (h : s.Every P) (ht : ∀ x, t = some x → P x) : (s.put i t).Every P := by
  intro j x hx
  rw [put_tasks] at hx
  rcases update_cases hx with ⟨-, hx⟩ | ⟨-, hx⟩
  · exact ht x hx
  · exact h j x hx

variable {host : Host C R ε σ φ}

theorem every_resume {t : Task C R ε ν} (h : s.Every P) (ht : P t) : (s.resume host i t).Every
    P := by
  rw [Pool.resume]
  split
  · exact every_put h (fun _ hx => nomatch hx)
  · refine every_put h ?_
    rintro x hx
    rw [← Option.some.inj hx]
    exact ht

variable {job : J → Task C R ε ν} {f : φ} {j : Nat}

theorem turn_tasks_ne {i : Nat} (hne : j ≠ i) :
    (step host see job s (.turn i f)).tasks j = s.tasks j := by
  simp only [step]
  split
  · split
    · rw [Pool.resume]
      split
      · show (Pool.put _ i none).tasks j = _
        rw [put_tasks, Function.update_of_ne hne]
      · rw [put_tasks, Function.update_of_ne hne]
    · rfl
  · rfl

variable {e : Event J φ}

theorem step_tasks_ne (hne : e.task ≠ j) : (step host see job s e).tasks j = s.tasks j := by
  cases e with
  | start i x =>
    have hji : j ≠ i := Ne.symm hne
    simp only [step]
    split
    · rfl
    · rw [put_tasks, Function.update_of_ne hji]
  | turn i f => exact turn_tasks_ne (Ne.symm hne)
  | kill i =>
    have hji : j ≠ i := Ne.symm hne
    simp only [step]
    split
    · show (Pool.put _ i none).tasks j = _
      rw [put_tasks, Function.update_of_ne hji]
    · rfl

theorem foldl_tasks_ne {es : List (Event J φ)} (hne : ∀ e ∈ es, e.task ≠ j) :
    (es.foldl (step host see job) s).tasks j = s.tasks j := by
  induction es generalizing s with
  | nil => rfl
  | cons e es ih =>
    rw [List.foldl_cons, ih fun e' he' => hne e' (.tail _ he')]
    exact step_tasks_ne (hne e (.head _))

theorem turn_task {c' : C}
    {k' : Except ε (R c') → Prog C R ε Unit} (ht : s.tasks i = some ⟨.call c k, v⟩)
    (hready : host.ready s.world i c = true) (hk : k (host.answer f i c s.world).1 = .call c' k') :
    ((step host see job s (.turn i f)).tasks i).map Task.prog = some (.call c' k') := by
  simp only [step, ht, hready, if_true, Pool.resume, hk]
  rw [put_tasks, Function.update_self]
  rfl

/-! ### The world after a turn

    Where a task's end leaves the world, the world changes by answered calls only. -/

section World

variable {host : Host C R ε σ φ} {job : J → Task C R ε ν} {s : Pool C R ε ν σ}

variable (hleave : ∀ i w, host.leave i w = w)

include hleave

theorem resume_world (i : Nat) (t : Task C R ε ν) : (s.resume host i t).world = s.world := by
  rw [Pool.resume]
  split
  · exact hleave i s.world
  · rfl

theorem turn_world {i : Nat} {c : C} {v : ν}
    (hcall : NextCall s i c v) (hready : host.ready s.world i c = true) :
    (step host see job s (.turn i f)).world = (host.answer f i c s.world).2 := by
  obtain ⟨k, hk⟩ := hcall
  simp only [step, hk, hready, if_true]
  exact resume_world hleave i _

theorem step_world (hne : (step host see job s e).world ≠ s.world) :
    ∃ i f c v, e = .turn i f ∧ NextCall s i c v ∧ host.ready s.world i c = true ∧
      (step host see job s e).world = (host.answer f i c s.world).2 := by
  cases e with
  | start i j =>
    refine absurd ?_ hne
    simp only [step]
    split
    · rfl
    · rfl
  | kill i =>
    refine absurd ?_ hne
    simp only [step]
    split
    · exact hleave i s.world
    · rfl
  | turn i f =>
    cases ht : s.tasks i with
    | none =>
      refine absurd ?_ hne
      simp only [step, ht]
    | some t =>
      obtain ⟨p, v⟩ := t
      cases p with
      | done r =>
        refine absurd ?_ hne
        simp only [step, ht]
      | call c k =>
        by_cases hready : host.ready s.world i c = true
        · exact ⟨i, f, c, v, rfl, ⟨k, ht⟩, hready, turn_world hleave ⟨k, ht⟩ hready⟩
        · refine absurd ?_ hne
          simp only [step, ht, if_neg hready]

end World

/-- What every task starts with and every reply keeps holds of all that run. -/
theorem step_every
    (hjob : ∀ j, P (job j)) (hreply : ∀ c k v r, P ⟨.call c k, v⟩ → P ⟨k r, see v c r⟩)
    (e : Event J φ) (h : s.Every P) : (step host see job s e).Every P := by
  cases e with
  | start i j =>
    simp only [step]
    split
    · exact h
    · refine every_put h ?_
      rintro x hx
      rw [← Option.some.inj hx]
      exact hjob j
  | kill i =>
    simp only [step]
    split
    · exact every_put h (fun _ hx => nomatch hx)
    · exact h
  | turn i f =>
    simp only [step]
    split
    · rename_i c k v ht
      split
      · exact every_resume h (hreply c k v _ (h i _ ht))
      · exact h
    · exact h

theorem step_kept [Inhabited ε]
    (hjob : ∀ j, (job j).Keeps see A) (e : Event J φ) (h : s.Kept see A) :
    (step host see job s e).Kept see A :=
  step_every hjob (fun _ _ _ r hcall => (Task.Keeps.call hcall).2 r) e h

/-- What a step has done to the world and the views: nothing, or it has started a task, killed
    one, or answered the call of one, which goes on or has ended. -/
inductive Stepped (host : Host C R ε σ φ) (see : ν → (c : C) → Except ε (R c) → ν)
    (job : J → Task C R ε ν) (A : ν → C → Prop) (E : ν → Prop) (s : Pool C R ε ν σ) :
    Event J φ → σ → (Nat → Option ν) → Prop where
  | idle (e : Event J φ) : Stepped host see job A E s e s.world s.views
  | started {i : Nat} {j : J} (hnew : s.views i = none) :
      Stepped host see job A E s (.start i j) s.world
        (Function.update s.views i (some (job j).view))
  | killed {i : Nat} {v : ν} (hview : s.views i = some v) :
      Stepped host see job A E s (.kill i) (host.leave i s.world)
        (Function.update s.views i none)
  | answered {i : Nat} {f : φ} {c : C} {v : ν} (hcall : NextCall s i c v) (hallowed : A v c)
      (hready : host.ready s.world i c = true) :
      Stepped host see job A E s (.turn i f) (host.answer f i c s.world).2
        (Function.update s.views i (some (see v c (host.answer f i c s.world).1)))
  | ended {i : Nat} {f : φ} {c : C} {v : ν} (hcall : NextCall s i c v) (hallowed : A v c)
      (hready : host.ready s.world i c = true) (hend : E (see v c (host.answer f i c s.world).1)) :
      Stepped host see job A E s (.turn i f) (host.leave i (host.answer f i c s.world).2)
        (Function.update s.views i none)

theorem step_stepped [Inhabited ε] (hends : s.Every (Task.Ends see A E)) (e : Event J φ) :
    Stepped host see job A E s e (step host see job s e).world (step host see job s e).views := by
  cases e with
  | start i j =>
    simp only [step]
    split
    · exact .idle _
    rename_i hnone
    rw [views_put]
    refine .started ?_
    rw [Pool.views, Option.not_isSome_iff_eq_none.mp hnone]
    rfl
  | kill i =>
    simp only [step]
    split
    · rename_i hsome
      obtain ⟨t, ht⟩ := Option.isSome_iff_exists.mp hsome
      show Stepped host see job A E s _ (host.leave i s.world) (s.put i none).views
      rw [views_put]
      refine .killed (v := t.view) ?_
      rw [Pool.views, ht]
      rfl
    · exact .idle _
  | turn i f =>
    simp only [step]
    split
    · rename_i c k v ht
      split
      · rename_i hready
        obtain ⟨hallowed, hrest⟩ := Task.Ends.call (hends i _ ht)
        have hreply := hrest (host.answer f i c s.world).1
        rw [Pool.resume]
        split
        · -- the task has ended: it has seen its last reply, and is gone
          rename_i r hdone
          have hend : E (see v c (host.answer f i c s.world).1) := by
            have hspec := hreply
            rw [show k (host.answer f i c s.world).1 = .done r from hdone] at hspec
            exact hspec
          show Stepped host see job A E s _ (host.leave i _) (Pool.put _ i none).views
          rw [views_put]
          exact .ended ⟨k, ht⟩ hallowed hready hend
        · rw [views_put]
          exact .answered ⟨k, ht⟩ hallowed hready
      · exact .idle _
    · exact .idle _

/-- **The turn rule**: what starting a task, answering one allowed call and a
    task's end keep, a step keeps. -/
theorem step_rule [Inhabited ε] {I : σ → (Nat → Option ν) → Prop} (hkept : s.Kept see A)
    (hstart : ∀ i j, s.views i = none → I s.world (Function.update s.views i (some (job j).view)))
    (hturn : ∀ i f c v, e = .turn i f → NextCall s i c v → A v c →
      host.ready s.world i c = true → I (host.answer f i c s.world).2
        (Function.update s.views i (some (see v c (host.answer f i c s.world).1))))
    (hdrop : ∀ w vs i, I w vs → I (host.leave i w) (Function.update vs i none))
    (hI : I s.world s.views) : I (step host see job s e).world (step host see job s e).views := by
  have hstepped : Stepped host see job A (fun _ => True) s e (step host see job s e).world
      (step host see job s e).views := step_stepped hkept e
  generalize (step host see job s e).world = w at hstepped ⊢
  generalize (step host see job s e).views = vs at hstepped ⊢
  cases hstepped with
  | idle => exact hI
  | started hnew => exact hstart _ _ hnew
  | killed hview => exact hdrop _ _ _ hI
  | answered hcall hallowed hready => exact hturn _ _ _ _ rfl hcall hallowed hready
  | @ended i f c v hcall hallowed hready _ =>
    have hgone := hdrop _ _ i (hturn i f c v rfl hcall hallowed hready)
    rw [Function.update_idem] at hgone
    exact hgone

end Process
