import Mathlib.Order.WellFoundedSet
import Mathlib.Algebra.Order.BigOperators.Group.List
import Mathlib.Tactic.Linarith
import Cinatra.Workflows.Acyclic
import Cinatra.Workflows.Schedule

/-! # Anchors — the instant a relative schedule starts from

    The first pass of the resolver gives every task its own bar, whatever order it
    takes the tasks in (`resolveAll_spec`).  The second overwrites the bar of a summary
    parent by the hull of its children's (`recomputeParent_spec`), so that its due is
    the latest of the tasks below it (`summary_due`).  A schedule anchored to such a
    parent was already resolved from the bar the parent had before. -/

namespace WfAnchors

open DepthFirst WfSpec WfRows WfHost WfSchedule WfValidate WfAcyclic

variable {host : Host} {spec : WorkflowSpec} {frozen : Record FrozenTaskTuple}
  {targetMs : Option Instant}

/-- The schedule of a key's task. -/
def scheduleOf (spec : WorkflowSpec) (key : String) : Option ScheduleSpec :=
  (specTask spec key).bind TaskSpec.schedule

theorem lookup_cons {α : Type} (k key : String) (v : α) (r : Record α) :
    lookup ((k, v) :: r) key = if k = key then some v else lookup r key := by
  rw [lookup, lookup, List.find?_cons]
  by_cases h : k = key
  · rw [decide_eq_true h, if_pos h]
    rfl
  · rw [decide_eq_false h, if_neg h]

section OwnBar

variable (host spec frozen targetMs)

/-- The bar the schedule of a key gives it: its frozen window, else the bar around the
    target, its own instant, or one measured from the due of its anchor's bar. -/
inductive OwnBar : String → Bar → Prop
  | frozen {key : String} {f : FrozenTaskTuple} (hf : lookup frozen key = some f) :
      OwnBar key f.bar
  | unscheduled {key : String} (hf : lookup frozen key = none)
      (hs : scheduleOf spec key = none) :
      OwnBar key (applyBar host targetMs none (tzOf spec none))
  | absolute {key at_ : String} {tz dur : Option String} {point : Option AnchorPoint}
      {s : ScheduleSpec} (hf : lookup frozen key = none)
      (hs : scheduleOf spec key = some s) (hmode : s = .absolute at_ tz point dur) :
      OwnBar key (applyBar host (parseInstantMs host at_ (tzOf spec (some s))) (some s)
        (tzOf spec (some s)))
  | fromTarget {key offset : String} {dir : Direction} {lt tz dur : Option String}
      {point : Option AnchorPoint} {s : ScheduleSpec} (hf : lookup frozen key = none)
      (hs : scheduleOf spec key = some s)
      (hmode : s = .relative targetAnchor offset dir lt tz point dur) :
      OwnBar key (applyBar host
        (relativeInstant host targetMs offset dir lt (tzOf spec (some s))) (some s)
        (tzOf spec (some s)))
  | fromTask {key anchor offset : String} {dir : Direction} {lt tz dur : Option String}
      {point : Option AnchorPoint} {s : ScheduleSpec} {b : Bar}
      (hf : lookup frozen key = none) (hs : scheduleOf spec key = some s)
      (hmode : s = .relative anchor offset dir lt tz point dur)
      (htask : anchor ≠ targetAnchor) (hanchor : OwnBar anchor b) :
      OwnBar key (applyBar host
        (relativeInstant host b.dueMs offset dir lt (tzOf spec (some s))) (some s)
        (tzOf spec (some s)))

theorem OwnBar.unique {key : String} {b b' : Bar} (h : OwnBar host spec frozen targetMs key b)
    (h' : OwnBar host spec frozen targetMs key b') : b = b' := by
  induction h generalizing b' with
  | frozen hf =>
    cases h' with
    | frozen hf' => rw [Option.some.inj (hf.symm.trans hf')]
    | unscheduled hf' | absolute hf' | fromTarget hf' | fromTask hf' =>
      cases hf.symm.trans hf'
  | unscheduled hf hs =>
    cases h' with
    | frozen hf' => cases hf.symm.trans hf'
    | unscheduled => rfl
    | absolute _ hs' | fromTarget _ hs' | fromTask _ hs' => cases hs.symm.trans hs'
  | absolute hf hs hmode =>
    cases h' with
    | frozen hf' => cases hf.symm.trans hf'
    | unscheduled _ hs' => cases hs.symm.trans hs'
    | absolute _ hs' hmode' | fromTarget _ hs' hmode' | fromTask _ hs' hmode' =>
      have heq := Option.some.inj (hs.symm.trans hs')
      rw [hmode, hmode'] at heq
      cases heq
      all_goals rw [hmode, hmode']
  | fromTarget hf hs hmode =>
    cases h' with
    | frozen hf' => cases hf.symm.trans hf'
    | unscheduled _ hs' => cases hs.symm.trans hs'
    | absolute _ hs' hmode' | fromTarget _ hs' hmode' =>
      have heq := Option.some.inj (hs.symm.trans hs')
      rw [hmode, hmode'] at heq
      cases heq
      all_goals rw [hmode, hmode']
    | fromTask _ hs' hmode' htask =>
      have heq := Option.some.inj (hs.symm.trans hs')
      rw [hmode, hmode'] at heq
      cases heq
      exact absurd rfl htask
  | fromTask hf hs hmode htask hanchor ih =>
    cases h' with
    | frozen hf' => cases hf.symm.trans hf'
    | unscheduled _ hs' => cases hs.symm.trans hs'
    | absolute _ hs' hmode' =>
      have heq := Option.some.inj (hs.symm.trans hs')
      rw [hmode, hmode'] at heq
      cases heq
    | fromTarget _ hs' hmode' =>
      have heq := Option.some.inj (hs.symm.trans hs')
      rw [hmode, hmode'] at heq
      cases heq
      exact absurd rfl htask
    | fromTask _ hs' hmode' _ hanchor' =>
      have heq := Option.some.inj (hs.symm.trans hs')
      rw [hmode, hmode'] at heq
      cases heq
      rw [ih hanchor', hmode, hmode']

/-- The due instant a key's own schedule gives it. -/
def OwnDue (key : String) (d : Instant) : Prop :=
  ∃ b, OwnBar host spec frozen targetMs key b ∧ b.dueMs = some d

/-- Every bar in the memo is its key's own. -/
def Sound (memo : Record Bar) : Prop :=
  ∀ k b, lookup memo k = some b → OwnBar host spec frozen targetMs k b

end OwnBar

/-! ## The first pass -/

variable {key : String} {t : TaskSpec}

theorem specTask_mem (h : specTask spec key = some t) : t ∈ spec.tasks ∧ t.key = key := by
  have hmem := List.mem_of_getLast? h
  rw [List.mem_filter, decide_eq_true_eq] at hmem
  exact hmem

variable {key : String}

theorem anchorOf_schedule {anchor offset : String} {dir : Direction} {lt tz dur : Option String}
    {point : Option AnchorPoint}
    (hs : scheduleOf spec key = some (.relative anchor offset dir lt tz point dur))
    (htask : anchor ≠ targetAnchor) : AnchorOf spec anchor key ∧ key ∈ spec.keys := by
  rw [scheduleOf, Option.bind_eq_some_iff] at hs
  obtain ⟨t, ht, hsched⟩ := hs
  obtain ⟨hmem, hkey⟩ := specTask_mem ht
  refine ⟨⟨t, hmem, hkey, ?_⟩, ?_⟩
  · rw [anchorKey, hsched]
    exact if_neg htask
  · rw [← hkey]
    exact List.mem_map_of_mem hmem

/-- What resolving a key adds to the memo: sound entries, its own among them. -/
structure Resolves (host : Host) (spec : WorkflowSpec) (frozen : Record FrozenTaskTuple)
    (targetMs : Option Instant) (key : String) (memo memo' : Record Bar) (due : Option Instant) :
    Prop where
  sound : Sound host spec frozen targetMs memo'
  entry : ∃ b, lookup memo' key = some b ∧ b.dueMs = due
  keeps : ∀ k b, lookup memo k = some b → lookup memo' k = some b

variable {memo : Record Bar} {memo' : Record Bar}

theorem Resolves.add {b : Bar} (hsound : Sound host spec frozen targetMs memo')
    (hkeeps : ∀ k b, lookup memo k = some b → lookup memo' k = some b)
    (hown : OwnBar host spec frozen targetMs key b) :
    Resolves host spec frozen targetMs key memo ((key, b) :: memo') b.dueMs where
  sound := by
    intro k b' hb'
    rw [lookup_cons] at hb'
    by_cases hk : key = k
    · rw [if_pos hk] at hb'
      rw [← Option.some.inj hb', ← hk]
      exact hown
    · rw [if_neg hk] at hb'
      exact hsound k b' hb'
  entry := ⟨b, by rw [lookup_cons, if_pos rfl], rfl⟩
  keeps := by
    intro k b' hb'
    have hin := hkeeps k b' hb'
    rw [lookup_cons]
    by_cases hk : key = k
    · rw [if_pos hk]
      rw [← hk] at hin
      rw [(hsound key b' hin).unique _ _ _ _ hown]
    · rw [if_neg hk]
      exact hin

/-- **One resolution**: with more fuel than keys off the stack, the anchor chain of the
    stack leading to the key, the resolver returns the due of the key's own bar. -/
theorem resolveDueMs_spec (hwf : WellFounded (AnchorOf spec)) (key : String) :
    ∀ (fuel : Nat) (stack : List String) (memo : Record Bar),
      Sound host spec frozen targetMs memo → stack.Nodup →
      (∀ s ∈ stack, s ∈ spec.keys ∧ Relation.TransGen (AnchorOf spec) key s) →
      spec.keys.length < fuel + stack.length → Resolves host spec frozen targetMs key memo
        (resolveDueMs host spec frozen targetMs fuel key stack memo).2
        (resolveDueMs host spec frozen targetMs fuel key stack memo).1 := by
  induction key using hwf.induction with
  | _ key ih =>
  intro fuel stack memo hsound hnd hstack hfuel
  have hle : stack.length ≤ spec.keys.length :=
    (List.subperm_of_subset hnd (fun s hs => (hstack s hs).1)).length_le
  obtain ⟨fuel, rfl⟩ : ∃ n, fuel = n + 1 := ⟨fuel - 1, by omega⟩
  rw [resolveDueMs]
  cases hmemo : lookup memo key with
  | some b => exact ⟨hsound, ⟨b, hmemo, rfl⟩, fun k b hb => hb⟩
  | none =>
  cases hf : lookup frozen key with
  | some f => exact Resolves.add hsound (fun k b hb => hb) (.frozen hf)
  | none =>
  -- the key is above no key of the stack
  have hnew : key ∉ stack := fun hin => hwf.transGen.irrefl.irrefl key (hstack key hin).2
  have hcontains : stack.contains key = false := by
    rw [← Bool.not_eq_true, List.contains_iff_mem]
    exact hnew
  simp only [hcontains, Bool.false_eq_true, if_false]
  have hsched : (specTask spec key).bind TaskSpec.schedule = scheduleOf spec key := rfl
  rw [hsched]
  cases hs : scheduleOf spec key with
  | none => exact Resolves.add hsound (fun k b hb => hb) (.unscheduled hf hs)
  | some s =>
  cases s with
  | absolute at_ tz point dur =>
    exact Resolves.add hsound (fun k b hb => hb) (.absolute hf hs rfl)
  | relative anchor offset dir lt tz point dur =>
    by_cases htarget : anchor = targetAnchor
    · subst htarget
      simp only [if_true]
      exact Resolves.add hsound (fun k b hb => hb) (.fromTarget hf hs rfl)
    obtain ⟨hanchor, hkey⟩ := anchorOf_schedule hs htarget
    have hstack' : ∀ s ∈ key :: stack, s ∈ spec.keys ∧
        Relation.TransGen (AnchorOf spec) anchor s := by
      intro s hs
      rcases List.mem_cons.mp hs with rfl | hs
      · exact ⟨hkey, .single hanchor⟩
      · exact ⟨(hstack s hs).1, .head hanchor (hstack s hs).2⟩
    have hrec := ih anchor hanchor fuel (key :: stack) memo hsound
      (List.nodup_cons.mpr ⟨hnew, hnd⟩) hstack' (by rw [List.length_cons]; omega)
    obtain ⟨b, hb, hdue⟩ := hrec.entry
    simp only [htarget, if_false, ← hdue]
    exact Resolves.add hrec.sound hrec.keeps
      (.fromTask hf hs rfl htarget (hrec.sound anchor b hb))

/-- **The first pass** leaves each task its own bar. -/
theorem resolveAll_spec (hwf : WellFounded (AnchorOf spec)) (tasks : List TaskSpec)
    (hsound : Sound host spec frozen targetMs memo) :
    Sound host spec frozen targetMs (resolveAll host spec frozen targetMs tasks memo) ∧
      (∀ t ∈ tasks, ∃ b, lookup (resolveAll host spec frozen targetMs tasks memo) t.key = some b) ∧
      ∀ k b, lookup memo k = some b →
        lookup (resolveAll host spec frozen targetMs tasks memo) k = some b := by
  induction tasks generalizing memo with
  | nil => exact ⟨hsound, fun t ht => absurd ht List.not_mem_nil, fun k b hb => hb⟩
  | cons t tasks ih =>
    rw [resolveAll]
    have hfuel : spec.keys.length < spec.tasks.length + 2 + ([] : List String).length := by
      rw [WorkflowSpec.keys, List.length_map, List.length_nil]
      omega
    have hone := resolveDueMs_spec hwf t.key _ [] memo hsound List.nodup_nil
      (fun s hs => absurd hs List.not_mem_nil) hfuel
    obtain ⟨hs, hall, hkeeps⟩ := ih hone.sound
    refine ⟨hs, ?_, fun k b hb => hkeeps k b (hone.keeps k b hb)⟩
    intro t' ht'
    rcases List.mem_cons.mp ht' with rfl | ht'
    · obtain ⟨b, hb, _⟩ := hone.entry
      exact ⟨b, hkeeps _ b hb⟩
    · exact hall t' ht'

/-! ## The second pass -/

/-- `c` is below `k` in the hierarchy. -/
def Below (spec : WorkflowSpec) : String → String → Prop :=
  Relation.TransGen (fun c k => c ∈ childrenOf spec k)

variable {k : String} {c : String}

theorem mem_childrenOf : c ∈ childrenOf spec k ↔ ParentOf spec k c := by
  rw [childrenOf, List.mem_map]
  constructor
  · rintro ⟨t, ht, hkey⟩
    rw [List.mem_filter, decide_eq_true_eq] at ht
    exact ⟨t, ht.1, hkey, ht.2⟩
  · rintro ⟨t, ht, hkey, hp⟩
    exact ⟨t, List.mem_filter.mpr ⟨ht, decide_eq_true hp⟩, hkey⟩

theorem childrenOf_keys (h : c ∈ childrenOf spec k) : c ∈ spec.keys := by
  obtain ⟨t, ht, hkey, _⟩ := mem_childrenOf.mp h
  rw [← hkey]
  exact List.mem_map_of_mem ht

theorem below_irrefl (hvalid : TemplateValid host spec) (k : String) : ¬ Below spec k k := by
  intro h
  have hup : Relation.TransGen (ParentOf spec) k k := by
    refine Relation.transGen_swap.mp (h.lift id ?_)
    intro a b hab
    exact mem_childrenOf.mp hab
  exact (parents_wellFounded hvalid).transGen.irrefl.irrefl k hup

variable {cs : List String}

theorem hull_congr
    (h : ∀ c ∈ cs, lookup memo c = lookup memo' c) : hull memo cs = hull memo' cs := by
  induction cs with
  | nil => rfl
  | cons c cs ih =>
    rw [hull, hull, h c (List.mem_cons_self ..), ih (fun c hc => h c (.tail _ hc))]

/-- A task with a window below it has the hull of its children's. -/
def Settled (spec : WorkflowSpec) (memo : Record Bar) (k : String) : Prop :=
  (hull memo (childrenOf spec k)).startMs.isSome = true →
    lookup memo k = some (hull memo (childrenOf spec k))

/-- A visited task is still open, or settled for good: its children are visited, and closed. -/
def Visited (spec : WorkflowSpec) (path : List String) (st : List String × Record Bar) : Prop :=
  ∀ k ∈ st.1, k ∈ path ∨ (∀ c ∈ childrenOf spec k, c ∈ st.1 ∧ c ∉ path) ∧ Settled spec st.2 k

/-- What a stretch of the second pass does to the tasks of `keys`. -/
structure Recomputed (spec : WorkflowSpec) (path keys : List String)
    (st st' : List String × Record Bar) : Prop where
  visited : Visited spec path st'
  keeps : ∀ k ∈ st.1, k ∈ st'.1
  reaches : ∀ k ∈ keys, k ∈ st'.1
  done : ∀ k ∈ st.1, lookup st'.2 k = lookup st.2 k
  leaf : ∀ k, childrenOf spec k = [] → lookup st'.2 k = lookup st.2 k

/-- The memo once a parent's window is written. -/
def overwritten (spec : WorkflowSpec) (key : String) (memo : Record Bar) : Record Bar :=
  if (hull memo (childrenOf spec key)).startMs.isSome then
    (key, hull memo (childrenOf spec key)) :: memo
  else memo

theorem lookup_overwritten_ne (h : k ≠ key) (memo : Record Bar) :
    lookup (overwritten spec key memo) k = lookup memo k := by
  rw [overwritten]
  split
  · rw [lookup_cons, if_neg (fun he => h he.symm)]
  · rfl

theorem settled_overwritten (h : key ∉ childrenOf spec key) (memo : Record Bar) :
    Settled spec (overwritten spec key memo) key := by
  have hsame : hull (overwritten spec key memo) (childrenOf spec key) =
      hull memo (childrenOf spec key) := by
    refine hull_congr ?_
    intro c hc
    refine lookup_overwritten_ne ?_ memo
    rintro rfl
    exact h hc
  intro hsome
  rw [hsame] at hsome ⊢
  rw [overwritten, if_pos hsome, lookup_cons, if_pos rfl]

theorem recomputeParent_new {fuel : Nat} {keys done : List String}
    (h : key ∉ done) (memo : Record Bar) :
    recomputeParent spec (fuel + 1) (key :: keys) (done, memo) = recomputeParent spec fuel keys
        ((recomputeParent spec fuel (childrenOf spec key) (key :: done, memo)).1,
          overwritten spec key
            (recomputeParent spec fuel (childrenOf spec key) (key :: done, memo)).2) := by
  rw [recomputeParent, if_neg (fun hin => h (List.contains_iff_mem.mp hin))]
  rfl

/-- **The second pass**: children first, each parent once. -/
theorem recomputeParent_spec (hirr : ∀ k, ¬ Below spec k k) :
    ∀ (fuel : Nat) (keys path : List String) (st : List String × Record Bar),
      keys.length + weight (fun k => (childrenOf spec k).length) st.1 spec.keys ≤ fuel →
      (∀ k ∈ keys, k ∈ spec.keys ∧ ∀ p ∈ path, Below spec k p) → Visited spec path st →
      Recomputed spec path keys st (recomputeParent spec fuel keys st) := by
  intro fuel
  induction fuel with
  | zero =>
    intro keys path st hfuel _ hvis
    have hnil : keys = [] := List.eq_nil_of_length_eq_zero (by omega)
    subst hnil
    exact ⟨hvis, fun k hk => hk, fun k hk => absurd hk List.not_mem_nil, fun k _ => rfl,
      fun k _ => rfl⟩
  | succ fuel ih =>
    rintro (_ | ⟨key, keys⟩) path ⟨done, memo⟩ hfuel hkeys hvis
    · exact ⟨hvis, fun k hk => hk, fun k hk => absurd hk List.not_mem_nil, fun k _ => rfl,
        fun k _ => rfl⟩
    rw [List.length_cons] at hfuel
    have hkeys' : ∀ k ∈ keys, k ∈ spec.keys ∧ ∀ p ∈ path, Below spec k p :=
      fun k hk => hkeys k (.tail _ hk)
    obtain ⟨hmem, habove⟩ := hkeys key (List.mem_cons_self ..)
    by_cases hdone : key ∈ done
    · rw [recomputeParent, if_pos (List.contains_iff_mem.mpr hdone)]
      have hrest := ih keys path (done, memo) (by dsimp only at hfuel ⊢; omega) hkeys' hvis
      refine ⟨hrest.visited, hrest.keeps, ?_, hrest.done, hrest.leaf⟩
      intro k hk
      rcases List.mem_cons.mp hk with rfl | hk
      · exact hrest.keeps _ hdone
      · exact hrest.reaches k hk
    rw [recomputeParent_new hdone]
    have hopen := weight_open (fun k => (childrenOf spec k).length) hmem hdone
    dsimp only at hfuel hopen
    -- the children of `key`, while it is open
    have hchildren : ∀ c ∈ childrenOf spec key, c ∈ spec.keys ∧
        ∀ p ∈ key :: path, Below spec c p := by
      intro c hc
      refine ⟨childrenOf_keys hc, ?_⟩
      intro p hp
      rcases List.mem_cons.mp hp with rfl | hp
      · exact .single hc
      · exact .head hc (habove p hp)
    have hvis' : Visited spec (key :: path) (key :: done, memo) := by
      intro k hk
      rcases List.mem_cons.mp hk with rfl | hk
      · exact .inl (List.mem_cons_self ..)
      rcases hvis k hk with hp | ⟨hc, hset⟩
      · exact .inl (.tail _ hp)
      refine .inr ⟨?_, hset⟩
      intro c hcc
      obtain ⟨hin, hout⟩ := hc c hcc
      refine ⟨.tail _ hin, ?_⟩
      intro hp
      rcases List.mem_cons.mp hp with rfl | hp
      · exact hdone hin
      · exact hout hp
    have hdown := ih (childrenOf spec key) (key :: path) (key :: done, memo)
      (by dsimp only; omega) hchildren hvis'
    generalize recomputeParent spec fuel (childrenOf spec key) (key :: done, memo) = below
      at hdown ⊢
    obtain ⟨done₁, memo₁⟩ := below
    have hself : key ∉ childrenOf spec key := fun hin => hirr key (.single hin)
    -- `key` is closed
    have hclosed : Visited spec path (done₁, overwritten spec key memo₁) := by
      intro k hk
      by_cases hkey : k = key
      · subst hkey
        refine .inr ⟨?_, settled_overwritten hself memo₁⟩
        intro c hc
        exact ⟨hdown.reaches c hc, fun hp => hirr k ((habove c hp).tail hc)⟩
      rcases hdown.visited k hk with hp | ⟨hc, hset⟩
      · exact .inl ((List.mem_cons.mp hp).resolve_left hkey)
      have hne : ∀ c ∈ childrenOf spec k, c ≠ key := by
        intro c hcc he
        exact (hc c hcc).2 (he ▸ List.mem_cons_self ..)
      refine .inr ⟨fun c hcc => ⟨(hc c hcc).1,
        fun hp => (hc c hcc).2 (.tail _ hp)⟩, ?_⟩
      have hsame : hull (overwritten spec key memo₁) (childrenOf spec k) =
          hull memo₁ (childrenOf spec k) :=
        hull_congr (fun c hcc => lookup_overwritten_ne (hne c hcc) memo₁)
      intro hsome
      rw [hsame] at hsome ⊢
      rw [lookup_overwritten_ne hkey]
      exact hset hsome
    have hanti := weight_anti (fun k => (childrenOf spec k).length)
      (fun k hk => hdown.keeps k (.tail _ hk)) spec.keys
    have hrest := ih keys path (done₁, overwritten spec key memo₁)
      (by dsimp only at hanti ⊢; omega) hkeys' hclosed
    refine ⟨hrest.visited, ?_, ?_, ?_, ?_⟩
    · intro k hk
      exact hrest.keeps k (hdown.keeps k (.tail _ hk))
    · intro k hk
      rcases List.mem_cons.mp hk with rfl | hk
      · exact hrest.keeps _ (hdown.keeps _ (List.mem_cons_self ..))
      · exact hrest.reaches k hk
    · intro k hk
      have hne : k ≠ key := fun he => hdone (he ▸ hk)
      have hin := hdown.keeps k (.tail _ hk)
      exact (hrest.done k hin).trans ((lookup_overwritten_ne hne memo₁).trans
        (hdown.done k (.tail _ hk)))
    · intro k hleaf
      have hkeep : lookup (overwritten spec key memo₁) k = lookup memo₁ k := by
        by_cases hkey : k = key
        · subst hkey
          rw [overwritten, hleaf]
          rfl
        · exact lookup_overwritten_ne hkey memo₁
      exact (hrest.leaf k hleaf).trans (hkeep.trans (hdown.leaf k hleaf))

/-! ## The resolver with its options -/

/-- What a caller overrides: the release date, and the windows of frozen tasks. -/
structure ResolveOptions where
  targetAtUtc : Option String := none
  frozenDueAt : Record FrozenTaskTuple := []

/-- The release instant: the override's, the target's, or the clock's. -/
def releaseMs (host : Host) (spec : WorkflowSpec) (opts : ResolveOptions) (nowMs : Instant) :
    Option Instant :=
  match opts.targetAtUtc.or (spec.target.bind Target.at_) with
  | some iso => parseInstantMs host iso ((spec.target.map Target.tz).getD "UTC")
  | none => some nowMs

/-- The bars of the first pass. -/
def firstPass (host : Host) (spec : WorkflowSpec) (frozen : Record FrozenTaskTuple)
    (targetMs : Option Instant) : Record Bar :=
  resolveAll host spec frozen targetMs spec.tasks []

/-- The bars of both passes. -/
def bothPasses (host : Host) (spec : WorkflowSpec) (frozen : Record FrozenTaskTuple)
    (targetMs : Option Instant) : Record Bar :=
  (recomputeParent spec ((spec.tasks.length + 1) * (spec.tasks.length + 2)) spec.keys
    ([], firstPass host spec frozen targetMs)).2

/-- `resolveSchedule` with its options. -/
def resolveWith (host : Host) (spec : WorkflowSpec) (opts : ResolveOptions) (nowMs : Instant) :
    Option (Record ResolvedTask) :=
  collect (bothPasses host spec opts.frozenDueAt (releaseMs host spec opts nowMs)) spec.tasks

/-- The engine's resolver is the one without an override. -/
theorem resolveSchedule_eq (host : Host) (spec : WorkflowSpec) (frozen : Record FrozenTaskTuple)
    (nowMs : Instant) :
    resolveSchedule host spec frozen nowMs = resolveWith host spec { frozenDueAt := frozen } nowMs :=
  rfl

theorem firstPass_sound (hvalid : TemplateValid host spec) :
    Sound host spec frozen targetMs (firstPass host spec frozen targetMs) := by
  refine (resolveAll_spec (anchors_wellFounded hvalid) spec.tasks ?_).1
  intro k b hb
  cases hb

theorem bothPasses_spec (hvalid : TemplateValid host spec) :
    Recomputed spec [] spec.keys ([], firstPass host spec frozen targetMs)
      (recomputeParent spec ((spec.tasks.length + 1) * (spec.tasks.length + 2)) spec.keys
        ([], firstPass host spec frozen targetMs)) := by
  refine recomputeParent_spec (below_irrefl hvalid) _ _ _ _ ?_ ?_ ?_
  · have hchildren : ∀ k ∈ spec.keys, (childrenOf spec k).length ≤ spec.tasks.length := by
      intro k _
      rw [childrenOf, List.length_map]
      exact List.length_filter_le _ _
    have hsum := weight_le_mul [] hchildren
    have hlen : spec.keys.length = spec.tasks.length := List.length_map _
    rw [hlen] at hsum ⊢
    nlinarith
  · exact fun k hk => ⟨hk, fun p hp => absurd hp List.not_mem_nil⟩
  · exact fun k hk => absurd hk List.not_mem_nil

/-! ## The final dues -/

/-- `c` is `k` or below it. -/
def AtOrBelow (spec : WorkflowSpec) : String → String → Prop :=
  Relation.ReflTransGen (fun c k => c ∈ childrenOf spec k)

/-- The dues of the tasks at or below a key that have nothing below them. -/
def leafDues (host : Host) (spec : WorkflowSpec) (frozen : Record FrozenTaskTuple)
    (targetMs : Option Instant) (key : String) : Set Instant :=
  {d | ∃ c, AtOrBelow spec c key ∧ childrenOf spec c = [] ∧ OwnDue host spec frozen targetMs c d}

theorem maxMs_some {acc : Option Instant} {v m : Instant} (h : maxMs acc (some v) = some m) :
    v ≤ m ∧ (∀ a, acc = some a → a ≤ m) ∧ (m = v ∨ acc = some m) := by
  cases acc with
  | none =>
    have hvm : v = m := Option.some.inj h
    refine ⟨le_of_eq hvm, ?_, .inl hvm.symm⟩
    intro a ha
    cases ha
  | some a =>
    rw [maxMs] at h
    split at h
    · rename_i hlt
      have hvm : v = m := Option.some.inj h
      refine ⟨le_of_eq hvm, ?_, .inl hvm.symm⟩
      intro b hb
      rw [← Option.some.inj hb, ← hvm]
      exact le_of_lt hlt
    · rename_i hge
      have ham : a = m := Option.some.inj h
      refine ⟨ham ▸ not_lt.mp hge, ?_, .inr h⟩
      intro b hb
      rw [← Option.some.inj hb]
      exact le_of_eq ham

/-- The hull of windows: it starts, and its due is the latest due. -/
theorem hull_windows (hne : cs ≠ [])
    (h : ∀ c ∈ cs, ∃ r : ResolvedTask, lookup memo c = some r.bar) :
    (hull memo cs).startMs.isSome = true ∧ ∃ d, (hull memo cs).dueMs = some d ∧
      (∃ c ∈ cs, ∃ r : ResolvedTask, lookup memo c = some r.bar ∧ r.dueAtUtc = d) ∧
      ∀ c ∈ cs, ∀ r : ResolvedTask, lookup memo c = some r.bar → r.dueAtUtc ≤ d := by
  induction cs with
  | nil => exact absurd rfl hne
  | cons c cs ih =>
    obtain ⟨r, hr⟩ := h c (List.mem_cons_self ..)
    rw [hull, hr]
    show (minMs (hull memo cs).startMs (some r.plannedStartUtc)).isSome = true ∧
      ∃ d, maxMs (hull memo cs).dueMs (some r.dueAtUtc) = some d ∧ _
    have hstart : (minMs (hull memo cs).startMs (some r.plannedStartUtc)).isSome = true := by
      cases (hull memo cs).startMs with
      | none => rfl
      | some a => rw [minMs]; split <;> rfl
    have hdue : ∃ d, maxMs (hull memo cs).dueMs (some r.dueAtUtc) = some d := by
      cases (hull memo cs).dueMs with
      | none => exact ⟨_, rfl⟩
      | some a => rw [maxMs]; split <;> exact ⟨_, rfl⟩
    obtain ⟨d, hd⟩ := hdue
    obtain ⟨hle, hacc, hor⟩ := maxMs_some hd
    refine ⟨hstart, d, hd, ?_, ?_⟩
    · rcases hor with rfl | hrest
      · exact ⟨c, List.mem_cons_self .., r, hr, rfl⟩
      have hcs : cs ≠ [] := by
        rintro rfl
        cases hrest
      obtain ⟨_, d', hd', ⟨c', hc', r', hr', hdue'⟩, _⟩ :=
        ih hcs (fun c hc => h c (.tail _ hc))
      exact ⟨c', .tail _ hc', r', hr',
        hdue'.trans (Option.some.inj (hd'.symm.trans hrest))⟩
    · intro c' hc' r' hr'
      rcases List.mem_cons.mp hc' with rfl | hc'
      · have hsame : r.bar = r'.bar := Option.some.inj (hr.symm.trans hr')
        have hdue : r.dueAtUtc = r'.dueAtUtc := Option.some.inj (congrArg Bar.dueMs hsame)
        rw [← hdue]
        exact hle
      · have hcs : cs ≠ [] := List.ne_nil_of_mem hc'
        obtain ⟨_, d', hd', _, hall⟩ := ih hcs (fun c hc => h c (.tail _ hc))
        exact le_trans (hall c' hc' r' hr') (hacc d' hd')

section Resolved

variable {opts : ResolveOptions} {nowMs : Instant} {resolved : Record ResolvedTask}

theorem leaf_window (hvalid : TemplateValid host spec)
    (hres : resolveWith host spec opts nowMs = some resolved)
    (hkey : key ∈ spec.keys) (hleaf : childrenOf spec key = []) :
    ∃ r, lookup resolved key = some r ∧
      OwnBar host spec opts.frozenDueAt (releaseMs host spec opts nowMs) key r.bar := by
  obtain ⟨t, ht, rfl⟩ := List.mem_map.mp hkey
  obtain ⟨r, hr, hbar⟩ := lookup_collect hres ht
  have hpass : Recomputed spec [] spec.keys
      ([], firstPass host spec opts.frozenDueAt (releaseMs host spec opts nowMs)) _ :=
    bothPasses_spec hvalid
  exact ⟨r, hr, firstPass_sound hvalid _ _ ((hpass.leaf t.key hleaf).symm.trans hbar)⟩

/-- **The final due** of a task is the latest of the tasks at or below it. -/
theorem final_due (hvalid : TemplateValid host spec)
    (hres : resolveWith host spec opts nowMs = some resolved) (hkey : key ∈ spec.keys) :
    ∃ r, lookup resolved key = some r ∧ IsGreatest
      (leafDues host spec opts.frozenDueAt (releaseMs host spec opts nowMs) key) r.dueAtUtc := by
  have horder : IsStrictOrder String (Below spec) :=
    { irrefl := below_irrefl hvalid, trans := fun _ _ _ => Relation.TransGen.trans }
  have hfinite : {k | k ∈ spec.keys}.Finite := List.finite_toSet spec.keys
  have hpass : Recomputed spec [] spec.keys
      ([], firstPass host spec opts.frozenDueAt (releaseMs host spec opts nowMs)) _ :=
    bothPasses_spec hvalid
  -- from the children up
  refine Set.WellFoundedOn.induction (hfinite.wellFoundedOn (r := Below spec)) hkey
    (P := fun key => ∃ r, lookup resolved key = some r ∧ IsGreatest
      (leafDues host spec opts.frozenDueAt (releaseMs host spec opts nowMs) key) r.dueAtUtc) ?_
  intro key hkey ih
  by_cases hleaf : childrenOf spec key = []
  · obtain ⟨r, hr, hown⟩ := leaf_window hvalid hres hkey hleaf
    refine ⟨r, hr, ⟨key, .refl, hleaf, r.bar, hown, rfl⟩, ?_⟩
    rintro d ⟨c, hc, _, b, hb, hd⟩
    rcases hc.cases_tail with rfl | ⟨b, _, hin⟩
    · rw [hb.unique _ _ _ _ hown] at hd
      exact le_of_eq (Option.some.inj hd).symm
    · rw [hleaf] at hin
      cases hin
  · have hchild : ∀ c ∈ childrenOf spec key, ∃ r, lookup resolved c = some r ∧
        lookup (bothPasses host spec opts.frozenDueAt (releaseMs host spec opts nowMs)) c =
          some r.bar ∧ IsGreatest (leafDues host spec opts.frozenDueAt
            (releaseMs host spec opts nowMs) c) r.dueAtUtc := by
      intro c hc
      obtain ⟨t, ht, hkey'⟩ := List.mem_map.mp (childrenOf_keys hc)
      obtain ⟨r, hr, hbar⟩ := lookup_collect hres ht
      rw [hkey'] at hr hbar
      obtain ⟨r', hr', hgreatest⟩ := ih c (childrenOf_keys hc) (.single hc)
      rw [Option.some.inj (hr'.symm.trans hr)] at hgreatest
      exact ⟨r, hr, hbar, hgreatest⟩
    obtain ⟨t, ht, hkey'⟩ := List.mem_map.mp hkey
    obtain ⟨r, hr, hbar⟩ := lookup_collect hres ht
    rw [hkey'] at hr hbar
    obtain ⟨hstart, d, hd, ⟨c, hc, rc, hrc, hdue⟩, hle⟩ :=
      hull_windows hleaf (fun c hc => (hchild c hc).imp (fun _ h => h.2.1))
    have hrdue : r.dueAtUtc = d := by
      rcases hpass.visited key (hpass.reaches key hkey) with hp | ⟨_, hsettled⟩
      · cases hp
      · have hhull := Option.some.inj (hbar.symm.trans (hsettled hstart))
        exact Option.some.inj ((congrArg Bar.dueMs hhull).trans hd)
    refine ⟨r, hr, ?_⟩
    rw [hrdue]
    constructor
    · obtain ⟨r', _, hr', ⟨c', hc', hleaf', hown⟩, _⟩ := hchild c hc
      have hsame : rc.dueAtUtc = r'.dueAtUtc :=
        Option.some.inj (congrArg Bar.dueMs (Option.some.inj (hrc.symm.trans hr')))
      rw [← hdue, hsame]
      exact ⟨c', hc'.tail hc, hleaf', hown⟩
    · rintro d' ⟨c', hc', hleaf', hown⟩
      rcases hc'.cases_tail with rfl | ⟨b, hb, hin⟩
      · exact absurd hleaf' hleaf
      · obtain ⟨r', _, hr', hgreatest⟩ := hchild b hin
        exact le_trans (hgreatest.2 ⟨c', hb, hleaf', hown⟩) (hle b hin r' hr')

end Resolved

/-! ## The instant a relative schedule starts from -/

/-- Every zone the spec names is UTC. -/
def AllUtc (spec : WorkflowSpec) : Prop :=
  (∀ target, spec.target = some target → target.tz = "UTC") ∧
    ∀ t ∈ spec.tasks, ∀ tz, t.schedule.bind ScheduleSpec.tz = some tz → tz = "UTC"

theorem AllUtc.tzOf (h : AllUtc spec) (ht : t ∈ spec.tasks) : tzOf spec t.schedule = "UTC" := by
  rw [WfSchedule.tzOf]
  cases hs : t.schedule.bind ScheduleSpec.tz with
  | some tz => exact h.2 t ht tz hs
  | none =>
    cases htarget : spec.target with
    | none => rfl
    | some target => exact h.1 target htarget

/-- An instant plus or minus an offset. -/
def moved (host : Host) (offset : String) (dir : Direction) (ms : Instant) : Option Instant :=
  match dir with
  | .before => host.sub (some "UTC") ms ((parseIsoDuration offset).getD {})
  | .after => host.add (some "UTC") ms ((parseIsoDuration offset).getD {})

/-- The instant a window was laid around. -/
def barInstant (point : Option AnchorPoint) (r : ResolvedTask) : Instant :=
  if point = some .start then r.plannedStartUtc else r.dueAtUtc

theorem applyBar_instant {x : Option Instant} {s : ScheduleSpec} {tz : String} {r : ResolvedTask}
    (h : applyBar host x (some s) tz = r.bar) : x = some (barInstant s.anchorPoint r) := by
  rw [applyBar] at h
  simp only [Option.bind_some] at h
  cases hp : s.anchorPoint with
  | none =>
    rw [hp] at h
    exact congrArg Bar.dueMs h
  | some point =>
    rw [hp] at h
    cases point with
    | start => exact congrArg Bar.startMs h
    | finish | due => exact congrArg Bar.dueMs h

theorem relativeInstant_utc (x : Option Instant) (offset : String) (dir : Direction) :
    relativeInstant host x offset dir none "UTC" = x.bind (moved host offset dir) := by
  cases x with
  | none => rfl
  | some ms => cases dir <;> rfl

/-- The due a summary parent has until its children are known: its frozen one, or the
    release. -/
def placeholderDue (frozen : Record FrozenTaskTuple) (targetMs : Option Instant) (key : String) :
    Option Instant :=
  match lookup frozen key with
  | some f => some f.dueAtUtc
  | none => targetMs

theorem childrenOf_eq_nil : childrenOf spec k = [] ↔ hasChildren spec k = false := by
  rw [childrenOf, hasChildren, List.map_eq_nil_iff, List.filter_eq_nil_iff, List.any_eq_false]

theorem scheduleOf_task (hvalid : TemplateValid host spec) (ht : t ∈ spec.tasks) :
    scheduleOf spec t.key = t.schedule := by
  have hin : t ∈ spec.tasks.filter (fun s => s.key = t.key) :=
    List.mem_filter.mpr ⟨ht, decide_eq_true rfl⟩
  obtain ⟨s, hs⟩ := Option.ne_none_iff_exists'.mp
    (fun hnone => List.ne_nil_of_mem hin (List.getLast?_eq_none_iff.mp hnone))
  obtain ⟨hmem, hkey⟩ := specTask_mem hs
  have hst : s = t := List.inj_on_of_nodup_map hvalid.keys_nodup hmem ht hkey
  rw [scheduleOf, specTask, hs, hst]
  rfl

theorem ownDue_summary (hvalid : TemplateValid host spec) (hkey : key ∈ spec.keys)
    (hchildren : childrenOf spec key ≠ []) {b : Bar}
    (h : OwnBar host spec frozen targetMs key b) : b.dueMs = placeholderDue frozen targetMs key := by
  obtain ⟨t, ht, rfl⟩ := List.mem_map.mp hkey
  have hnone : scheduleOf spec t.key = none := by
    rw [scheduleOf_task hvalid ht]
    refine hvalid.summary_unscheduled ht ?_
    rw [← Bool.not_eq_false]
    exact fun hf => hchildren (childrenOf_eq_nil.mpr hf)
  cases h with
  | frozen hf =>
    rw [placeholderDue, hf]
    rfl
  | unscheduled hf =>
    rw [placeholderDue, hf]
    rfl
  | absolute _ hs | fromTarget _ hs | fromTask _ hs => cases hnone.symm.trans hs

/-- The anchor is no summary parent, or the latest due below it, moved by the offset, is its
    placeholder due moved by the offset. -/
def AnchorSettled (host : Host) (spec : WorkflowSpec) (frozen : Record FrozenTaskTuple)
    (targetMs : Option Instant) (anchor offset : String) (dir : Direction) : Prop :=
  childrenOf spec anchor = [] ∨ ∃ own latest, placeholderDue frozen targetMs anchor = some own ∧
    IsGreatest (leafDues host spec frozen targetMs anchor) latest ∧
    moved host offset dir latest = moved host offset dir own

/-- **A relative schedule starts from its anchor's final due exactly when** the anchor's due
    is settled in the first pass. -/
theorem anchored_at_final_due_iff {opts : ResolveOptions} {nowMs : Instant}
    {resolved : Record ResolvedTask} {t : TaskSpec} {anchor offset : String} {dir : Direction}
    {tz dur : Option String} {point : Option AnchorPoint} (hvalid : TemplateValid host spec)
    (hutc : AllUtc spec) (hres : resolveWith host spec opts nowMs = some resolved)
    (ht : t ∈ spec.tasks) (hfree : lookup opts.frozenDueAt t.key = none)
    (hsched : t.schedule = some (.relative anchor offset dir none tz point dur))
    (htask : anchor ≠ targetAnchor) :
    ∃ r k, lookup resolved t.key = some r ∧ lookup resolved anchor = some k ∧
      (moved host offset dir k.dueAtUtc = some (barInstant point r) ↔
        AnchorSettled host spec opts.frozenDueAt (releaseMs host spec opts nowMs) anchor offset
          dir) := by
  have hanchorKey : anchorKey t = some anchor := by
    rw [anchorKey, hsched]
    exact if_neg htask
  have hanchor := (hvalid.anchor_known ht hanchorKey).1
  -- a scheduled task is a leaf: its window is its own
  have hleaf : childrenOf spec t.key = [] := by
    rw [childrenOf_eq_nil, ← Bool.not_eq_true]
    intro hchildren
    rw [hvalid.summary_unscheduled ht hchildren] at hsched
    cases hsched
  obtain ⟨r, hr, hown⟩ := leaf_window hvalid hres (List.mem_map_of_mem ht) hleaf
  obtain ⟨k, hk, hgreatest⟩ := final_due hvalid hres hanchor
  refine ⟨r, k, hr, hk, ?_⟩
  -- the due it started from is the own due of its anchor
  obtain ⟨b, hb, hstart⟩ : ∃ b, OwnBar host spec opts.frozenDueAt
      (releaseMs host spec opts nowMs) anchor b ∧
        b.dueMs.bind (moved host offset dir) = some (barInstant point r) := by
    have hsched' := (scheduleOf_task hvalid ht).trans hsched
    have htz : tzOf spec (some (.relative anchor offset dir none tz point dur)) = "UTC" := by
      rw [← hsched]
      exact hutc.tzOf ht
    generalize hbar : r.bar = bar at hown
    cases hown with
    | frozen hf => cases hfree.symm.trans hf
    | unscheduled _ hs => cases hsched'.symm.trans hs
    | absolute _ hs hmode =>
      rw [hmode] at hs
      cases hsched'.symm.trans hs
    | fromTarget _ hs hmode =>
      rw [hmode] at hs
      cases hsched'.symm.trans hs
      exact absurd rfl htask
    | fromTask _ hs hmode _ hb =>
      rw [hmode] at hs
      cases hsched'.symm.trans hs
      rw [hmode, htz] at hbar
      refine ⟨_, hb, ?_⟩
      rw [← relativeInstant_utc]
      exact applyBar_instant hbar.symm
  obtain ⟨own, hdue, hmoved⟩ := Option.bind_eq_some_iff.mp hstart
  by_cases hsummary : childrenOf spec anchor = []
  · obtain ⟨k', hk', hown'⟩ := leaf_window hvalid hres hanchor hsummary
    have hbk := hb.unique _ _ _ _ hown'
    rw [Option.some.inj (hk'.symm.trans hk)] at hbk
    have hkdue : k.dueAtUtc = own := by
      rw [hbk] at hdue
      exact Option.some.inj hdue
    rw [hkdue]
    exact ⟨fun _ => .inl hsummary, fun _ => hmoved⟩
  · have hplace := ownDue_summary hvalid hanchor hsummary hb
    rw [hdue] at hplace
    constructor
    · intro h
      exact .inr ⟨own, k.dueAtUtc, hplace.symm, hgreatest, h.trans hmoved.symm⟩
    · rintro (h | ⟨own', latest, hown', hlatest, h⟩)
      · exact absurd h hsummary
      · rw [hgreatest.unique hlatest, h, ← Option.some.inj (hplace.trans hown')]
        exact hmoved

/-! ## A day after a summary parent -/

/-- The milliseconds of a duration in weeks and less. -/
def millis (d : Duration) : Int :=
  ((((d.weeks * 7 + d.days) * 24 + d.hours) * 60 + d.minutes) * 60 + d.seconds) * 1000

/-- Two dates, and offsets without months in UTC. -/
def utcHost : Host :=
  { plainHost with
    dateParse := fun s => if s = "1970-01-02T00:00:00Z" then some 86400000 else some 0
    add := fun _ ms d => some (ms + millis d)
    sub := fun _ ms d => some (ms - millis d) }

/-- `t` is due a day after `p`; `c`, due on January 2nd, has the given parent. -/
def dayAfter (parent : Option String) : WorkflowSpec :=
  { name := "w"
    target := some ⟨some "1970-01-01T00:00:00Z", "UTC"⟩
    tasks := [{ key := "p", title := "p", body := .manual },
      { key := "c", title := "c", body := .manual, parent := parent,
        schedule := some (.absolute "1970-01-02T00:00:00Z" none none none) },
      { key := "t", title := "t", body := .manual,
        schedule := some (.relative "p" "P1D" .after none none none none) }] }

theorem allUtc_dayAfter (parent : Option String) : AllUtc (dayAfter parent) := by
  constructor
  · intro target h
    rw [← Option.some.inj h]
  · have hnone : ∀ t ∈ (dayAfter parent).tasks, t.schedule.bind ScheduleSpec.tz = none := by
      intro t ht
      simp only [dayAfter, List.mem_cons, List.not_mem_nil, or_false] at ht
      rcases ht with rfl | rfl | rfl <;> rfl
    intro t ht tz htz
    rw [hnone t ht] at htz
    cases htz

theorem dayAfter_summary :
    ∃ resolved r k, TemplateValid utcHost (dayAfter (some "p")) ∧ AllUtc (dayAfter (some "p")) ∧
      resolveWith utcHost (dayAfter (some "p")) {} 0 = some resolved ∧
      lookup resolved "t" = some r ∧ lookup resolved "p" = some k ∧
      moved utcHost "P1D" .after k.dueAtUtc ≠ some (barInstant none r) :=
  ⟨[("p", ⟨86400000, 86400000, 86400000⟩), ("c", ⟨86400000, 86400000, 86400000⟩),
      ("t", ⟨86400000, 86400000, 86400000⟩)], _, _, by decide +kernel,
    allUtc_dayAfter _, by decide +kernel, rfl, rfl, by decide +kernel⟩

theorem dayAfter_leaf : ∃ resolved r k, resolveWith utcHost (dayAfter none) {} 0 = some resolved ∧
      lookup resolved "t" = some r ∧ lookup resolved "p" = some k ∧
      moved utcHost "P1D" .after k.dueAtUtc = some (barInstant none r) := by
  have hres : resolveWith utcHost (dayAfter none) {} 0 = some [("p", ⟨0, 0, 0⟩),
      ("c", ⟨86400000, 86400000, 86400000⟩), ("t", ⟨86400000, 86400000, 86400000⟩)] := by
    decide +kernel
  obtain ⟨r, k, hr, hk, hiff⟩ := anchored_at_final_due_iff (t := (dayAfter none).tasks[2])
    (by decide +kernel) (allUtc_dayAfter none) hres (List.getElem_mem _) rfl rfl (by decide)
  exact ⟨_, r, k, hres, hr, hk, hiff.mpr (.inl (by decide +kernel))⟩

end WfAnchors
