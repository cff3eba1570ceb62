import Mathlib.Data.List.Chain
import Mathlib.Data.List.Nodup
import Mathlib.Data.List.Perm.Subperm
import Cinatra.Lib.DepthFirst

/-! # CycleSearch — the cycles a depth-first walk closes

    A node is grey while the walk is below it and black once it is done; an edge back to
    a grey node closes a cycle, the part of the stack from there on.  `search_spec` says
    that the walk ends, that what it reports are cycles, and that a graph it reports
    none of has none. -/

namespace CycleSearch

variable {α : Type} [DecidableEq α]

inductive Color where
  | white | grey | black
deriving DecidableEq

structure State (α : Type) where
  color : α → Color
  stack : List α
  cycles : List (List α)

def State.paint (st : State α) (u : α) (c : Color) : State α :=
  { st with color := fun a => if a = u then c else st.color a }

/-- The walk goes below `u`. -/
def enter (u : α) (st : State α) : State α :=
  { st.paint u .grey with stack := st.stack ++ [u] }

/-- The walk is done with `u`. -/
def leave (u : α) (st : State α) : State α :=
  { st.paint u .black with stack := st.stack.dropLast }

/-- The part of the stack from `v` on, and back to `v`. -/
def close (v : α) (st : State α) : State α :=
  { st with cycles := st.cycles ++ [st.stack.drop (st.stack.idxOf v) ++ [v]] }

/-- One edge of the node on top of the stack. -/
def step (below : α → State α → Option (State α)) (st : State α) (v : α) : Option (State α) :=
  match st.color v with
  | .grey => some (close v st)
  | .white => below v st
  | .black => some st

/-- Walk from a white node; `none` where the depth runs out. -/
def dfs (next : α → List α) : Nat → α → State α → Option (State α)
  | 0, _, _ => none
  | fuel + 1, u, st => ((next u).foldlM (step (dfs next fuel)) (enter u st)).map (leave u)

/-- Walk from a node if it is still white. -/
def searchFrom (next : α → List α) (depth : Nat) (st : State α) (k : α) : Option (State α) :=
  if st.color k = .white then dfs next depth k st else some st

def start : State α := ⟨fun _ => .white, [], []⟩

/-- Walk from every node that is still white. -/
def search (next : α → List α) (nodes : List α) : Option (State α) :=
  nodes.foldlM (searchFrom next nodes.length) start

/-! ## What holds along the walk -/

/-- A walk along edges that comes back to where it started, and meets no node twice. -/
structure Cycle (next : α → List α) (nodes c : List α) : Prop where
  closed : ∃ v rest, c = v :: rest ++ [v]
  simple : c.dropLast.Nodup
  nodes : ∀ a ∈ c, a ∈ nodes
  edges : c.IsChain (fun a b => b ∈ next a)

/-- The stack is a path of grey nodes, and without a cycle the black ones are finished in
    order. -/
structure Sound (next : α → List α) (nodes : List α) (st : State α) : Prop where
  grey : ∀ a, st.color a = .grey ↔ a ∈ st.stack
  nodup : st.stack.Nodup
  inside : ∀ a ∈ st.stack, a ∈ nodes
  path : st.stack.IsChain (fun a b => b ∈ next a)
  cycles : ∀ c ∈ st.cycles, Cycle next nodes c
  finished : st.cycles = [] →
    ∃ done, DepthFirst.Finished next done ∧ ∀ a, st.color a = .black ↔ a ∈ done

/-- The stack is as before, black nodes stay black and cycles stay reported. -/
structure Leads (st st' : State α) : Prop where
  stack : st'.stack = st.stack
  black : ∀ a, st.color a = .black → st'.color a = .black
  cycles : st.cycles <+: st'.cycles

variable {next : α → List α} {nodes : List α} {st st' st'' : State α} {u v : α}

omit [DecidableEq α] in
theorem Leads.refl (st : State α) : Leads st st := ⟨rfl, fun _ h => h, List.prefix_refl _⟩

omit [DecidableEq α] in
theorem Leads.trans (h : Leads st st') (h' : Leads st' st'') : Leads st st'' :=
  ⟨h'.stack.trans h.stack, fun a ha => h'.black a (h.black a ha), h.cycles.trans h'.cycles⟩

omit [DecidableEq α] in
theorem Leads.none_before (h : Leads st st') (hnone : st'.cycles = []) : st.cycles = [] :=
  List.prefix_nil.mp (hnone ▸ h.cycles)

theorem Sound.enter (h : Sound next nodes st) (hwhite : st.color u = .white) (hu : u ∈ nodes)
    (hedge : ∀ a, st.stack.getLast? = some a → u ∈ next a) :
    Sound next nodes (CycleSearch.enter u st) := by
  have hnew : u ∉ st.stack := by
    rw [← h.grey u, hwhite]
    decide
  refine ⟨?_, ?_, ?_, ?_, h.cycles, ?_⟩
  · intro a
    show (if a = u then Color.grey else st.color a) = .grey ↔ a ∈ st.stack ++ [u]
    rw [List.mem_append, List.mem_singleton]
    by_cases ha : a = u
    · rw [if_pos ha]
      exact iff_of_true rfl (.inr ha)
    · rw [if_neg ha, h.grey a]
      exact ⟨.inl, fun hor => hor.resolve_right ha⟩
  · show (st.stack ++ [u]).Nodup
    exact List.concat_eq_append ▸ h.nodup.concat hnew
  · intro a ha
    rcases List.mem_append.mp ha with ha | ha
    · exact h.inside a ha
    · rw [List.mem_singleton.mp ha]
      exact hu
  · refine List.isChain_append.mpr ⟨h.path, List.isChain_singleton u, ?_⟩
    intro a ha b hb
    rw [List.head?_singleton, Option.mem_some_iff] at hb
    exact hb ▸ hedge a ha
  · intro hnone
    obtain ⟨done, hfin, hdone⟩ := h.finished hnone
    refine ⟨done, hfin, fun a => ?_⟩
    show (if a = u then Color.grey else st.color a) = .black ↔ a ∈ done
    by_cases ha : a = u
    · rw [if_pos ha, ← hdone, ha, hwhite]
      decide
    · rw [if_neg ha]
      exact hdone a

variable {init : List α}

theorem Sound.leave (h : Sound next nodes st) (hstack : st.stack = init ++ [u])
    (hdone : st.cycles = [] → ∀ v ∈ next u, st.color v = .black) :
    Sound next nodes (CycleSearch.leave u st) := by
  have hinit : st.stack.dropLast = init := by rw [hstack, List.dropLast_concat]
  have hnd := hstack ▸ h.nodup
  have hnew : u ∉ init := by
    intro hin
    exact (List.nodup_append.mp hnd).2.2 u hin u (List.mem_singleton.mpr rfl) rfl
  have hsub : ∀ a ∈ init, a ∈ st.stack := by
    intro a ha
    rw [hstack]
    exact List.mem_append_left _ ha
  have hin : u ∈ st.stack := by
    rw [hstack]
    exact List.mem_concat_self
  refine ⟨?_, ?_, ?_, ?_, h.cycles, ?_⟩
  · intro a
    show (if a = u then Color.black else st.color a) = .grey ↔ a ∈ st.stack.dropLast
    rw [hinit]
    by_cases ha : a = u
    · rw [if_pos ha]
      exact iff_of_false (by decide) (ha ▸ hnew)
    · rw [if_neg ha, h.grey a, hstack, List.mem_append, List.mem_singleton]
      exact ⟨fun hor => hor.resolve_right ha, .inl⟩
  · show st.stack.dropLast.Nodup
    rw [hinit]
    exact (List.nodup_append.mp hnd).1
  · intro a ha
    exact h.inside a (hsub a (hinit ▸ ha))
  · show st.stack.dropLast.IsChain _
    rw [hinit]
    exact (List.isChain_append.mp (hstack ▸ h.path)).1
  · intro hnone
    obtain ⟨done, hfin, hblack⟩ := h.finished hnone
    refine ⟨u :: done, ⟨fun v hv => (hblack v).mp (hdone hnone v hv), hfin⟩, fun a => ?_⟩
    show (if a = u then Color.black else st.color a) = .black ↔ a ∈ u :: done
    rw [List.mem_cons]
    by_cases ha : a = u
    · rw [if_pos ha]
      exact iff_of_true rfl (.inl ha)
    · rw [if_neg ha, hblack a]
      exact ⟨.inr, fun hor => hor.resolve_left ha⟩

/-- **An edge back into the stack closes a cycle.** -/
theorem Sound.close (h : Sound next nodes st) (hstack : st.stack = init ++ [u])
    (hv : v ∈ next u) (hgrey : st.color v = .grey) : Sound next nodes (CycleSearch.close v st) := by
  have hin : v ∈ st.stack := (h.grey v).mp hgrey
  obtain ⟨before, after, hsplit⟩ := List.append_of_mem hin
  have hnd := hsplit ▸ h.nodup
  have hbefore : v ∉ before := by
    intro hb
    exact (List.nodup_append.mp hnd).2.2 v hb v (.head _) rfl
  have hdrop : st.stack.drop (st.stack.idxOf v) = v :: after := by
    rw [hsplit, List.idxOf_append_of_notMem hbefore, List.idxOf_cons_self, Nat.add_zero,
      List.drop_left]
  have hlast : (v :: after).getLast? = some u := by
    have hl : st.stack.getLast? = some u := by rw [hstack, List.getLast?_concat]
    rw [hsplit, List.getLast?_append_of_ne_nil _ (List.cons_ne_nil v after)] at hl
    exact hl
  refine ⟨h.grey, h.nodup, h.inside, h.path, ?_, ?_⟩
  · intro c hc
    rcases List.mem_append.mp hc with hc | hc
    · exact h.cycles c hc
    rw [List.mem_singleton.mp hc, hdrop]
    refine ⟨⟨v, after, rfl⟩, ?_, ?_, ?_⟩
    · rw [List.dropLast_concat]
      exact (List.nodup_append.mp hnd).2.1
    · intro a ha
      refine h.inside a (hsplit ▸ ?_)
      rcases List.mem_append.mp ha with ha | ha
      · exact List.mem_append_right _ ha
      · exact List.mem_append_right _ (List.mem_singleton.mp ha ▸ List.mem_cons_self)
    · refine List.isChain_append.mpr ⟨(List.isChain_append.mp (hsplit ▸ h.path)).2.1,
        List.isChain_singleton v, ?_⟩
      intro a ha b hb
      rw [hlast, Option.mem_some_iff] at ha
      rw [List.head?_singleton, Option.mem_some_iff] at hb
      rw [← ha, ← hb]
      exact hv
  · intro hnone
    exact absurd hnone (by simp [CycleSearch.close])

/-- What a walk from a white node comes to. -/
def Explores (next : α → List α) (nodes : List α) (fuel : Nat) : Prop :=
  ∀ (u : α) (st : State α), Sound next nodes st → st.color u = .white → u ∈ nodes →
    (∀ a, st.stack.getLast? = some a → u ∈ next a) → nodes.length ≤ fuel + st.stack.length →
    ∃ st', dfs next fuel u st = some st' ∧ Sound next nodes st' ∧ Leads st st' ∧
      st'.color u = .black

/-- The successors of the node on top of the stack, one after the other. -/
theorem successors_spec {fuel : Nat} (hexplore : Explores next nodes fuel)
    (hclosed : ∀ a, ∀ b ∈ next a, b ∈ nodes) {u : α} (vs : List α) :
    ∀ st : State α, Sound next nodes st → st.stack = init ++ [u] → (∀ v ∈ vs, v ∈ next u) →
      nodes.length ≤ fuel + st.stack.length →
      ∃ st', vs.foldlM (step (dfs next fuel)) st = some st' ∧ Sound next nodes st' ∧
        Leads st st' ∧ (st'.cycles = [] → ∀ v ∈ vs, st'.color v = .black) := by
  induction vs with
  | nil => exact fun st h _ _ _ => ⟨st, rfl, h, Leads.refl st, fun _ v hv => absurd hv List.not_mem_nil⟩
  | cons v vs ih =>
    intro st h hstack hvs hfuel
    have hv : v ∈ next u := hvs v (.head _)
    have hlast : st.stack.getLast? = some u := by rw [hstack, List.getLast?_concat]
    have hone : ∃ st₁, step (dfs next fuel) st v = some st₁ ∧ Sound next nodes st₁ ∧
        Leads st st₁ ∧ (st₁.cycles = [] → st₁.color v = .black) := by
      rw [step]
      cases hcolor : st.color v with
      | grey =>
        refine ⟨CycleSearch.close v st, rfl, h.close hstack hv hcolor,
          ⟨rfl, fun _ ha => ha, List.prefix_append _ _⟩, fun hnone => ?_⟩
        exact absurd hnone (by simp [CycleSearch.close])
      | black => exact ⟨st, rfl, h, Leads.refl st, fun _ => hcolor⟩
      | white =>
        obtain ⟨st₁, hrun, h₁, hlead, hblack⟩ := hexplore v st h hcolor (hclosed u v hv)
          (fun a ha => Option.some.inj (hlast.symm.trans ha) ▸ hv) hfuel
        exact ⟨st₁, hrun, h₁, hlead, fun _ => hblack⟩
    obtain ⟨st₁, hrun, h₁, hlead, hblack⟩ := hone
    obtain ⟨st₂, hrest, h₂, hlead', hall⟩ := ih st₁ h₁ (hlead.stack.trans hstack)
      (fun x hx => hvs x (List.mem_cons_of_mem v hx)) (by rw [hlead.stack]; exact hfuel)
    refine ⟨st₂, ?_, h₂, hlead.trans hlead', fun hnone x hx => ?_⟩
    · rw [List.foldlM_cons, hrun]
      exact hrest
    · rcases List.mem_cons.mp hx with rfl | hx
      · exact hlead'.black x (hblack (hlead'.none_before hnone))
      · exact hall hnone x hx

/-- **A walk** ends, and finishes the node it starts from. -/
theorem dfs_spec (hclosed : ∀ a, ∀ b ∈ next a, b ∈ nodes) (fuel : Nat) :
    Explores next nodes fuel := by
  induction fuel with
  | zero =>
    intro u st h hwhite hu _ hfuel
    -- the stack and `u` are distinct nodes
    have hnew : u ∉ st.stack := by
      rw [← h.grey u, hwhite]
      decide
    have hsub : (u :: st.stack) ⊆ nodes := by
      intro a ha
      rcases List.mem_cons.mp ha with rfl | ha
      · exact hu
      · exact h.inside a ha
    have hlen := (List.subperm_of_subset (List.nodup_cons.mpr ⟨hnew, h.nodup⟩) hsub).length_le
    rw [List.length_cons] at hlen
    omega
  | succ fuel ih =>
    intro u st h hwhite hu hedge hfuel
    have henter := h.enter hwhite hu hedge
    obtain ⟨st₁, hrun, h₁, hlead, hall⟩ := successors_spec ih hclosed (next u)
      (CycleSearch.enter u st) henter rfl (fun v hv => hv) (by
        show nodes.length ≤ fuel + (st.stack ++ [u]).length
        rw [List.length_append, List.length_singleton]
        omega)
    have hstack : st₁.stack = st.stack ++ [u] := hlead.stack
    refine ⟨CycleSearch.leave u st₁, ?_, h₁.leave hstack hall, ?_, if_pos rfl⟩
    · rw [dfs, hrun]
      rfl
    · refine ⟨?_, fun a ha => ?_, hlead.cycles⟩
      · show st₁.stack.dropLast = st.stack
        rw [hstack, List.dropLast_concat]
      · show (if a = u then Color.black else st₁.color a) = .black
        by_cases hau : a = u
        · rw [if_pos hau]
        rw [if_neg hau]
        refine hlead.black a ?_
        show (if a = u then Color.grey else st.color a) = .black
        rw [if_neg hau]
        exact ha

/-! ## The search -/

omit [DecidableEq α] in
theorem Sound.start : Sound next nodes (CycleSearch.start : State α) where
  grey := fun a => iff_of_false (by decide : Color.white ≠ .grey) List.not_mem_nil
  nodup := List.nodup_nil
  inside := fun a ha => absurd ha List.not_mem_nil
  path := List.isChain_nil
  cycles := fun c hc => absurd hc List.not_mem_nil
  finished := fun _ => ⟨[], trivial, fun a =>
    iff_of_false (by decide : Color.white ≠ .black) List.not_mem_nil⟩

theorem searchAll_spec (hclosed : ∀ a, ∀ b ∈ next a, b ∈ nodes) (ks : List α) :
    ∀ st : State α, Sound next nodes st → st.stack = [] → (∀ k ∈ ks, k ∈ nodes) →
      ∃ st', ks.foldlM (searchFrom next nodes.length) st = some st' ∧ Sound next nodes st' ∧
        Leads st st' ∧ ∀ k ∈ ks, st'.color k = .black := by
  induction ks with
  | nil => exact fun st h _ _ => ⟨st, rfl, h, Leads.refl st, fun k hk => absurd hk List.not_mem_nil⟩
  | cons k ks ih =>
    intro st h hstack hks
    have hone : ∃ st₁, searchFrom next nodes.length st k = some st₁ ∧ Sound next nodes st₁ ∧
        Leads st st₁ ∧ st₁.color k = .black := by
      rw [searchFrom]
      by_cases hwhite : st.color k = .white
      · rw [if_pos hwhite]
        exact dfs_spec hclosed nodes.length k st h hwhite (hks k (.head _))
          (fun a ha => by rw [hstack] at ha; cases ha) (Nat.le_add_right ..)
      rw [if_neg hwhite]
      refine ⟨st, rfl, h, Leads.refl st, ?_⟩
      cases hcolor : st.color k with
      | white => exact absurd hcolor hwhite
      | black => rfl
      | grey =>
        have hin := (h.grey k).mp hcolor
        rw [hstack] at hin
        cases hin
    obtain ⟨st₁, hrun, h₁, hlead, hblack⟩ := hone
    obtain ⟨st₂, hrest, h₂, hlead', hall⟩ := ih st₁ h₁ (hlead.stack.trans hstack)
      (fun x hx => hks x (List.mem_cons_of_mem k hx))
    refine ⟨st₂, ?_, h₂, hlead.trans hlead', fun x hx => ?_⟩
    · rw [List.foldlM_cons, hrun]
      exact hrest
    · rcases List.mem_cons.mp hx with rfl | hx
      · exact hlead'.black x hblack
      · exact hall x hx

theorem not_below_self {β : Type} {r : β → β → Prop} {a : β} (h : Acc r a) :
    ¬ Relation.TransGen r a a := by
  induction h with
  | intro a _ ih =>
    intro hcycle
    obtain ⟨b, hab, hba⟩ := Relation.TransGen.tail'_iff.mp hcycle
    exact ih b hba (Relation.TransGen.head' hba hab)

omit [DecidableEq α] in
theorem reach_of_chain {r : α → α → Prop} {a : α} {l : List α} (h : (a :: l).IsChain r) :
    ∀ b ∈ l, Relation.TransGen r a b :=
  fun _ hb => List.rel_of_pairwise_cons (h.imp fun _ _ => .single).pairwise hb

omit [DecidableEq α] in
theorem Cycle.below_self {c : List α} (h : Cycle next nodes c) :
    ∃ a, Relation.TransGen (fun a b => b ∈ next a) a a := by
  obtain ⟨v, rest, rfl⟩ := h.closed
  exact ⟨v, reach_of_chain h.edges v (List.mem_concat_self)⟩

variable (next nodes) in
/-- **The search** ends, reports cycles only, and none exactly on a graph without one. -/
theorem search_spec (hclosed : ∀ a, ∀ b ∈ next a, b ∈ nodes) :
    ∃ st, search next nodes = some st ∧ (∀ c ∈ st.cycles, Cycle next nodes c) ∧
      (st.cycles = [] ↔ ∀ a, ¬ Relation.TransGen (fun a b => b ∈ next a) a a) := by
  obtain ⟨st, hrun, h, _, hblack⟩ := searchAll_spec hclosed nodes start Sound.start rfl
    (fun k hk => hk)
  refine ⟨st, hrun, h.cycles, ?_, ?_⟩
  · intro hnone a hcycle
    obtain ⟨done, hfin, hdone⟩ := h.finished hnone
    have ha : a ∈ nodes := by
      obtain ⟨b, _, hba⟩ := Relation.TransGen.tail'_iff.mp hcycle
      exact hclosed b a hba
    refine not_below_self (hfin.acc a ((hdone a).mp (hblack a ha))) ?_
    exact Relation.transGen_swap.mp hcycle
  · intro hacyclic
    by_contra hne
    obtain ⟨c, hc⟩ := List.exists_mem_of_ne_nil _ hne
    obtain ⟨a, ha⟩ := (h.cycles c hc).below_self
    exact hacyclic a ha

end CycleSearch
