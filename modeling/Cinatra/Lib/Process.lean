import Mathlib.Logic.Basic

/-! # Process — programs that call their environment

    A `Prog` is what a function with injected steps does: it ends with a result
    or an error, or makes a call and goes on with the reply, which may be an
    error too.  The code never sees more of its environment than the replies, so
    one program is run to its end (`run`), cut off between two calls (`cut`), or
    interleaved with others (`Pool`).  `Spec` is the rule for all three: what
    holds before every call, and what holds at the end, whatever the replies. -/

namespace Process

variable {C : Type} {R : C → Type} {ε α β σ φ : Type}

inductive Prog (C : Type) (R : C → Type) (ε α : Type) where
  | done (r : Except ε α)
  | call (c : C) (k : Except ε (R c) → Prog C R ε α)

namespace Prog

def bind : Prog C R ε α → (α → Prog C R ε β) → Prog C R ε β
  | .done (.ok a), f => f a
  | .done (.error err), _ => .done (.error err)
  | .call c k, f => .call c (fun r => (k r).bind f)

/-- Run a program and hand its result or error on; nothing is thrown. -/
def attempt : Prog C R ε α → Prog C R ε (Except ε α)
  | .done r => .done (.ok r)
  | .call c k => .call c (fun r => (k r).attempt)

instance : Monad (Prog C R ε) where
  pure a := .done (.ok a)
  bind := Prog.bind

end Prog

namespace Prog

theorem bind_done (p : Prog C R ε α) : p.bind (fun a => .done (.ok a)) = p := by
  induction p with
  | done r =>
    cases r with
    | ok | error => rfl
  | call c k ih => exact congrArg (Prog.call c) (funext ih)

theorem bind_bind {γ : Type} (p : Prog C R ε α) (f : α → Prog C R ε β) (g : β → Prog C R ε γ) :
    (p.bind f).bind g = p.bind (fun a => (f a).bind g) := by
  induction p with
  | done r =>
    cases r with
    | ok | error => rfl
  | call c k ih => exact congrArg (Prog.call c) (funext ih)

instance : LawfulMonad (Prog C R ε) := LawfulMonad.mk' _
  bind_done
  (fun _ _ => rfl)
  bind_bind

end Prog

/-- `throw err`. -/
def throwErr (err : ε) : Prog C R ε α := .done (.error err)

/-- Make one call; a failing call throws. -/
def perform (c : C) : Prog C R ε (R c) := .call c .done

/-- A computation that calls nothing. -/
def lift (r : Except ε α) : Prog C R ε α := .done r

/-- `try { p } catch (err) { h(err) }`. -/
def tryCatch (p : Prog C R ε α) (h : ε → Prog C R ε α) : Prog C R ε α :=
  p.attempt.bind (fun r => match r with
    | .ok a => pure a
    | .error err => h err)

/-- `await p.catch(() => undefined)`. -/
def swallow (p : Prog C R ε α) : Prog C R ε Unit := p.attempt.bind (fun _ => pure ())

/-- `if (b) { p }`. -/
def onlyIf (b : Bool) (p : Prog C R ε Unit) : Prog C R ε Unit := if b then p else pure ()

/-! ## Runs -/

/-- How an environment answers a call: `φ` is all that it does not determine. -/
structure Environment (C : Type) (R : C → Type) (ε σ φ : Type) where
  answer : φ → (c : C) → σ → Except ε (R c) × σ

variable (env : Environment C R ε σ φ)

/-- Run to the end. -/
def run : Prog C R ε α → (Nat → φ) → σ → Except ε α × σ
  | .done r, _, w => (r, w)
  | .call c k, s, w =>
    run (k (env.answer (s 0) c w).1) (fun n => s (n + 1)) (env.answer (s 0) c w).2

/-- Stop after at most so many calls. -/
def cut : Nat → Prog C R ε α → (Nat → φ) → σ → σ
  | 0, _, _, w => w
  | _ + 1, .done _, _, w => w
  | n + 1, .call c k, s, w =>
    cut n (k (env.answer (s 0) c w).1) (fun n => s (n + 1)) (env.answer (s 0) c w).2

/-- Before every call `A`, at the end `Q`, whatever the environment answers. -/
def Spec (A : σ → C → Prop) : Prog C R ε α → (Except ε α → σ → Prop) → σ → Prop
  | .done r, Q, w => Q r w
  | .call c k, Q, w => A w c ∧ ∀ f, Spec A (k (env.answer f c w).1) Q (env.answer f c w).2

/-- At the end: `Q` of a result, `E` of an error. -/
def Post (Q : α → σ → Prop) (E : ε → σ → Prop) : Except ε α → σ → Prop
  | .ok a, w => Q a w
  | .error err, w => E err w

variable {env} {A : σ → C → Prop} {Q Q' : Except ε α → σ → Prop} {w : σ}

variable {p : Prog C R ε α}

theorem Spec.run (h : Spec env A p Q w) (s : Nat → φ) :
    Q (Process.run env p s w).1 (Process.run env p s w).2 := by
  induction p generalizing s w with
  | done r => exact h
  | call c k ih => exact ih _ (h.2 (s 0)) _

variable {I : σ → Prop}

theorem Spec.cut (h : Spec env (fun w _ => I w) p Q w)
    (hend : ∀ r w, Q r w → I w) (n : Nat) (s : Nat → φ) : I (Process.cut env n p s w) := by
  induction n generalizing p s w with
  | zero =>
    cases p with
    | done r => exact hend r w h
    | call c k => exact h.1
  | succ n ih =>
    cases p with
    | done r => exact hend r w h
    | call c k => exact ih (h.2 (s 0)) _

theorem Spec.mono (h : Spec env A p Q w) (hQ : ∀ r w, Q r w → Q' r w) : Spec env A p Q' w := by
  induction p generalizing w with
  | done r => exact hQ r w h
  | call c k ih => exact ⟨h.1, fun f => ih _ (h.2 f)⟩

theorem Spec.bind {Q : Except ε β → σ → Prop} {f : α → Prog C R ε β}
    (h : Spec env A p (fun r w => match r with
      | .ok a => Spec env A (f a) Q w
      | .error err => Q (.error err) w) w) : Spec env A (p.bind f) Q w := by
  induction p generalizing w with
  | done r =>
    cases r with
    | ok | error => exact h
  | call c k ih => exact ⟨h.1, fun g => ih _ (h.2 g)⟩

theorem Spec.post_bind {M : α → σ → Prop} {Q : β → σ → Prop} {E : ε → σ → Prop}
    {f : α → Prog C R ε β} (hp : Spec env A p (Post M E) w)
    (hf : ∀ a w, M a w → Spec env A (f a) (Post Q E) w) : Spec env A (p.bind f) (Post Q E) w := by
  refine Spec.bind (Spec.mono hp ?_)
  intro r w' hr
  cases r with
  | ok a => exact hf a w' hr
  | error err => exact hr

theorem Spec.attempt {Q : Except ε (Except ε α) → σ → Prop}
    (h : Spec env A p (fun r w => Q (.ok r) w) w) : Spec env A p.attempt Q w := by
  induction p generalizing w with
  | done r => exact h
  | call c k ih => exact ⟨h.1, fun f => ih _ (h.2 f)⟩

theorem Spec.tryCatch {g : ε → Prog C R ε α}
    (h : Spec env A p (fun r w => match r with
      | .ok a => Q (.ok a) w
      | .error err => Spec env A (g err) Q w) w) : Spec env A (tryCatch p g) Q w := by
  refine Spec.bind (Spec.attempt (Spec.mono h ?_))
  intro r w hr
  cases r with
  | ok | error => exact hr

theorem Spec.swallow {Q : Except ε Unit → σ → Prop}
    (h : Spec env A p (fun _ w => Q (.ok ()) w) w) : Spec env A (swallow p) Q w :=
  Spec.bind (Spec.attempt (Spec.mono h (fun _ _ hr => hr)))

theorem Spec.onlyIf {p : Prog C R ε Unit} {b : Bool} {M : σ → Prop} {E : ε → σ → Prop}
    (hp : b = true → Spec env A p (Post (fun _ => M) E) w) (hn : b = false → M w) :
    Spec env A (onlyIf b p) (Post (fun _ => M) E) w := by
  cases b with
  | true => exact hp rfl
  | false => exact hn rfl

variable {c : C}

theorem Spec.perform {Q : Except ε (R c) → σ → Prop} (hA : A w c)
    (h : ∀ f, Q (env.answer f c w).1 (env.answer f c w).2) : Spec env A (perform c) Q w := ⟨hA, h⟩

theorem throw_bind {γ : Type} (p : Prog C R ε α) (err : ε) (f : β → Prog C R ε γ) :
    (p >>= fun _ => throwErr err) >>= f = p >>= fun _ => throwErr err := by
  rw [bind_assoc]
  rfl

variable {f : R c → Prog C R ε β} {s : Nat → φ} {w' : σ}

theorem run_perform {r : R c} (h : env.answer (s 0) c w = (.ok r, w')) :
    run env (perform c >>= f) s w = run env (f r) (fun n => s (n + 1)) w' := by
  show run env (Prog.bind (.done (env.answer (s 0) c w).1) f) _ (env.answer (s 0) c w).2 = _
  rw [h]
  rfl

theorem run_perform_error {err : ε} (h : env.answer (s 0) c w = (.error err, w')) :
    run env (perform c >>= f) s w = (.error err, w') := by
  show run env (Prog.bind (.done (env.answer (s 0) c w).1) f) _ (env.answer (s 0) c w).2 = _
  rw [h]
  rfl

variable {g : ε → Prog C R ε (R c)}

theorem run_try {r : R c} (h : env.answer (s 0) c w = (.ok r, w')) :
    run env (Process.tryCatch (perform c) g >>= f) s w = run env (f r) (fun n => s (n + 1)) w' := by
  show run env (Prog.bind (Prog.bind (.done (.ok (env.answer (s 0) c w).1)) _) f) _
    (env.answer (s 0) c w).2 = _
  rw [h]
  rfl

theorem run_catch {err : ε} (h : env.answer (s 0) c w = (.error err, w')) :
    run env (Process.tryCatch (perform c) g >>= f) s w =
      run env (g err >>= f) (fun n => s (n + 1)) w' := by
  show run env (Prog.bind (Prog.bind (.done (.ok (env.answer (s 0) c w).1)) _) f) _
    (env.answer (s 0) c w).2 = _
  rw [h]
  rfl

/-! ## The calls a program makes -/

/-- Whatever is replied, the program makes only calls of a kind. -/
def Only (S : C → Prop) : Prog C R ε α → Prop
  | .done _ => True
  | .call c k => S c ∧ ∀ r, Only S (k r)

variable {S : C → Prop}

theorem only_perform (h : S c) : Only S (perform c : Prog C R ε (R c)) := ⟨h, fun _ => trivial⟩

theorem only_pure (a : α) : Only S (pure a : Prog C R ε α) := trivial

theorem only_throwErr (err : ε) : Only S (throwErr err : Prog C R ε α) := trivial

theorem only_lift (r : Except ε α) : Only S (lift r : Prog C R ε α) := trivial

theorem Only.bind {f : α → Prog C R ε β} (hp : Only S p)
    (hf : ∀ a, Only S (f a)) : Only S (p >>= f) := by
  show Only S (p.bind f)
  induction p with
  | done r =>
    cases r with
    | ok a => exact hf a
    | error err => trivial
  | call c k ih => exact ⟨hp.1, fun r => ih r (hp.2 r)⟩

theorem Only.attempt (hp : Only S p) : Only S p.attempt := by
  induction p with
  | done r => trivial
  | call c k ih => exact ⟨hp.1, fun r => ih r (hp.2 r)⟩

theorem Only.tryCatch {g : ε → Prog C R ε α} (hp : Only S p)
    (hg : ∀ err, Only S (g err)) : Only S (tryCatch p g) := by
  refine Only.bind hp.attempt fun r => ?_
  cases r with
  | ok a => trivial
  | error err => exact hg err

theorem Only.swallow (hp : Only S p) : Only S (swallow p) :=
  Only.bind hp.attempt fun _ => trivial

theorem onlyIf_only {p : Prog C R ε Unit} {b : Bool} (hp : Only S p) : Only S (onlyIf b p) := by
  rw [onlyIf]
  split
  · exact hp
  · exact only_pure _

theorem Only.mono {S S' : C → Prop} (hp : Only S p) (h : ∀ c, S c → S' c) : Only S' p := by
  induction p with
  | done r => trivial
  | call c k ih => exact ⟨h c hp.1, fun r => ih r (hp.2 r)⟩

/-- **What every call of a kind keeps, a program of such calls keeps.** -/
theorem Only.spec (hp : Only S p) (hstep : ∀ w c f, S c → I w → I (env.answer f c w).2) (hI : I w) :
    Spec env (fun _ _ => True) p (fun _ w => I w) w := by
  induction p generalizing w with
  | done r => exact hI
  | call c k ih => exact ⟨trivial, fun f => ih _ (hp.2 _) (hstep _ _ _ hp.1 hI)⟩

theorem Only.post (hp : Only S p) (hstep : ∀ w c f, S c → I w → I (env.answer f c w).2) (hI : I w) :
    Spec env (fun _ _ => True) p (Post (fun _ w => I w) (fun _ w => I w)) w := by
  refine Spec.mono (hp.spec hstep hI) ?_
  intro r w' hr
  cases r with
  | ok | error => exact hr

section Hoist

variable {C' : Type} {R' : C' → Type}

/-- The same program, its calls made as calls of another kind. -/
def Prog.hoist (g : C → C') (back : ∀ c, R' (g c) → R c) : Prog C R ε α → Prog C' R' ε α
  | .done r => .done r
  | .call c k => .call (g c) (fun r => (k (r.map (back c))).hoist g back)

variable {g : C → C'}

theorem hoist_bind {back : ∀ c, R' (g c) → R c} (p : Prog C R ε α) (f : α → Prog C R ε β) :
    (p >>= f).hoist g back = p.hoist g back >>= fun a => (f a).hoist g back := by
  show (p.bind f).hoist g back = (p.hoist g back).bind fun a => (f a).hoist g back
  induction p with
  | done r =>
    cases r with
    | ok | error => rfl
  | call c k ih => exact congrArg (Prog.call (g c)) (funext fun r => ih _)

theorem Only.hoist {S : C → Prop} {S' : C' → Prop} {back : ∀ c, R' (g c) → R c}
    {p : Prog C R ε α} (hp : Only S p) (hS : ∀ c, S c → S' (g c)) : Only S' (p.hoist g back) := by
  induction p with
  | done r => trivial
  | call c k ih => exact ⟨hS c hp.1, fun r => ih _ (hp.2 _)⟩

end Hoist

/-! ## Runs that meet a condition

    What a run assumes of its environment is a condition on its calls and on how
    each is answered; a program that is right in the environment so restricted is
    right in every run that meets the condition. -/

/-- The calls of a run, each with what the environment left open. -/
def calls (env : Environment C R ε σ φ) : Prog C R ε α → (Nat → φ) → σ → List (C × φ)
  | .done _, _, _ => []
  | .call c k, s, w =>
    (c, s 0) :: calls env (k (env.answer (s 0) c w).1) (fun n => s (n + 1))
      (env.answer (s 0) c w).2

variable {env : Environment C R ε σ φ} {w : σ}

theorem calls_const {f : φ} {x : C × φ} (hx : x ∈ calls env p (fun _ => f) w) : x.2 = f := by
  induction p generalizing w with
  | done r => cases hx
  | call c k ih =>
    rcases List.mem_cons.mp hx with rfl | hx
    · rfl
    · exact ih _ hx

/-- The environment that answers only as a condition allows. -/
def Environment.restrict (env : Environment C R ε σ φ) (P : C → φ → Prop) :
    Environment C R ε σ ((c : C) → { f // P c f }) :=
  ⟨fun g c w => env.answer (g c).1 c w⟩

open Classical in
/-- A run that meets the condition is a run of the restricted environment. -/
theorem run_restrict {P : C → φ → Prop} (hP : ∀ c, ∃ f, P c f)
    (h : ∀ x ∈ calls env p s w, P x.1 x.2) : ∃ s', run (env.restrict P) p s' w = run env p s w := by
  induction p generalizing s w with
  | done r => exact ⟨fun _ c => ⟨_, (hP c).choose_spec⟩, rfl⟩
  | call c k ih =>
    have hhead : P c (s 0) := h (c, s 0) (.head _)
    obtain ⟨s', hs'⟩ := ih _ (fun x hx => h x (.tail _ hx))
    let first : (c' : C) → { f // P c' f } := fun c' =>
      if hc : c' = c then ⟨s 0, hc ▸ hhead⟩ else ⟨_, (hP c').choose_spec⟩
    have hfirst : (first c).1 = s 0 := by
      show (dite _ _ _ : { f // P c f }).1 = s 0
      rw [dif_pos rfl]
    refine ⟨fun n => if n = 0 then first else s' (n - 1), ?_⟩
    show run _ (k (env.answer (first c).1 c w).1) s' (env.answer (first c).1 c w).2 = _
    rw [hfirst]
    exact hs'

/-- A condition that every answer meets is none. -/
theorem Spec.unrestrict {P : C → φ → Prop} {A : σ → C → Prop} {Q : Except ε α → σ → Prop}
    (hP : ∀ c f, P c f) (hspec : Spec (env.restrict P) A p Q w) : Spec env A p Q w := by
  induction p generalizing w with
  | done r => exact hspec
  | call c k ih => exact ⟨hspec.1, fun f => ih _ (hspec.2 fun c => ⟨f, hP c f⟩)⟩

theorem Spec.run_restricted {P : C → φ → Prop}
    (hP : ∀ c, ∃ f, P c f) {A : σ → C → Prop} {Q : Except ε α → σ → Prop}
    (hspec : Spec (env.restrict P) A p Q w) (h : ∀ x ∈ calls env p s w, P x.1 x.2) :
    Q (Process.run env p s w).1 (Process.run env p s w).2 := by
  obtain ⟨s', hs'⟩ := run_restrict hP h
  rw [← hs']
  exact hspec.run s'

/-! ## One run

    Where the environment leaves nothing open, a program has one run, and it is
    computed piece by piece. -/

section Exec

variable (env : Environment C R ε σ Unit) (w : σ)

/-- The run of a program in an environment that determines every answer. -/
def exec (p : Prog C R ε α) : Except ε α × σ := run env p (fun _ => ()) w

@[simp] theorem exec_pure (a : α) : exec env w (pure a : Prog C R ε α) = (.ok a, w) := rfl

@[simp] theorem exec_throwErr (err : ε) :
    exec env w (throwErr err : Prog C R ε α) = (.error err, w) := rfl

@[simp] theorem exec_perform (c : C) : exec env w (perform c) = env.answer () c w := rfl

@[simp] theorem exec_bind (p : Prog C R ε α) (f : α → Prog C R ε β) :
    exec env w (p >>= f) = match exec env w p with
      | (.ok a, w') => exec env w' (f a)
      | (.error err, w') => (.error err, w') := by
  show run env (p.bind f) _ w = _
  induction p generalizing w with
  | done r =>
    cases r with
    | ok | error => rfl
  | call c k ih => exact ih _ _

@[simp] theorem exec_attempt (p : Prog C R ε α) :
    exec env w p.attempt = (.ok (exec env w p).1, (exec env w p).2) := by
  show run env p.attempt _ w = _
  induction p generalizing w with
  | done r => rfl
  | call c k ih => exact ih _ _

@[simp] theorem exec_tryCatch (p : Prog C R ε α) (h : ε → Prog C R ε α) :
    exec env w (tryCatch p h) = match exec env w p with
      | (.ok a, w') => (.ok a, w')
      | (.error err, w') => exec env w' (h err) := by
  have hbind := exec_bind env w p.attempt (fun r => match r with
    | .ok a => pure a
    | .error err => h err)
  rw [exec_attempt] at hbind
  refine hbind.trans ?_
  cases hp : exec env w p with
  | mk r w' =>
    cases r with
    | ok | error => rfl

/-- A program that leaves something about the world as it is, however it ends. -/
def Keeps {τ : Type} (f : σ → τ) (p : Prog C R ε α) : Prop :=
  ∀ w, f (exec env w p).2 = f w

/-- What a program throws, should it throw. -/
def Throws (P : ε → Prop) (p : Prog C R ε α) : Prop :=
  ∀ w err, (exec env w p).1 = .error err → P err

variable {env w} {τ : Type} {f : σ → τ} {P : ε → Prop}

variable {p : Prog C R ε α} {g : α → Prog C R ε β}

theorem Keeps.bind (hp : Keeps env f p) (hg : ∀ a, Keeps env f (g a)) : Keeps env f (p >>= g) := by
  intro w
  rw [exec_bind]
  have hw := hp w
  cases he : exec env w p with
  | mk r w' =>
    rw [he] at hw
    cases r with
    | ok a => exact (hg a w').trans hw
    | error err => exact hw

theorem Keeps.attempt (hp : Keeps env f p) : Keeps env f p.attempt := by
  intro w
  rw [exec_attempt]
  exact hp w

theorem Throws.bind (hp : Throws env P p)
    (hg : ∀ a, Throws env P (g a)) : Throws env P (p >>= g) := by
  intro w err
  rw [exec_bind]
  have hw := hp w
  cases he : exec env w p with
  | mk r w' =>
    rw [he] at hw
    cases r with
    | ok a => exact hg a w' err
    | error e =>
      intro h
      cases h
      exact hw _ rfl

theorem Throws.attempt : Throws env P p.attempt := by
  intro w err h
  rw [exec_attempt] at h
  cases h

theorem exec_bind_ok {b : β} (h : exec env w (p >>= g) = (.ok b, w')) :
    ∃ a v, exec env w p = (.ok a, v) ∧ exec env v (g a) = (.ok b, w') := by
  rw [exec_bind] at h
  cases he : exec env w p with
  | mk r v =>
    rw [he] at h
    cases r with
    | ok a => exact ⟨a, v, rfl, h⟩
    | error e => cases h

/-- The world after so many calls. -/
def upTo (env : Environment C R ε σ Unit) (n : Nat) (p : Prog C R ε α) (w : σ) : σ :=
  cut env n p (fun _ => ()) w

@[simp] theorem upTo_zero (p : Prog C R ε α) : upTo env 0 p w = w := rfl

@[simp] theorem upTo_pure (n : Nat) (a : α) : upTo env n (pure a : Prog C R ε α) w = w := by
  cases n with
  | zero | succ => rfl

theorem upTo_call {n : Nat} {c : C} {k : R c → Prog C R ε α} {r : R c}
    (h : env.answer () c w = (.ok r, w')) :
    upTo env (n + 1) (perform c >>= k) w = upTo env n (k r) w' := by
  show cut env n (Prog.bind (.done (env.answer () c w).1) k) _ (env.answer () c w).2 = _
  rw [h]
  rfl

theorem upTo_perform {n : Nat} {c : C} :
    upTo env (n + 1) (perform c) w = (env.answer () c w).2 := by
  show cut env n (.done _) _ _ = _
  cases n with
  | zero | succ => rfl

theorem upTo_eq_exec (p : Prog C R ε α) (w : σ) :
    ∃ n, ∀ m, n ≤ m → upTo env m p w = (exec env w p).2 := by
  induction p generalizing w with
  | done r =>
    refine ⟨0, fun m _ => ?_⟩
    cases m with
    | zero | succ => rfl
  | call c k ih =>
    obtain ⟨n, hn⟩ := ih (env.answer () c w).1 (env.answer () c w).2
    refine ⟨n + 1, fun m hm => ?_⟩
    obtain ⟨m', rfl⟩ := Nat.exists_eq_add_of_le hm
    rw [show n + 1 + m' = (n + m') + 1 by omega]
    exact hn (n + m') (Nat.le_add_right n m')

end Exec

end Process
