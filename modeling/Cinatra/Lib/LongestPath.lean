import Mathlib.Data.List.Chain
import Mathlib.Algebra.BigOperators.Group.List.Basic
import Mathlib.Order.WellFounded

/-! # LongestPath — the heaviest path of a weighted graph

    A path is a chain of nodes and weighs what its nodes do.  A function that satisfies
    the recurrence of the forward pass (`Measures`) is the weight of the heaviest path
    that ends at a node; two of them, one for each direction, give the heaviest path
    through a node (`longest_through`). -/

namespace LongestPath

variable {α : Type}

/-- Nodes in a row, each an edge before the next. -/
structure IsPath (V : α → Prop) (E : α → α → Prop) (p : List α) : Prop where
  ne : p ≠ []
  mem : ∀ a ∈ p, V a
  chain : p.IsChain E

/-- What the nodes of a path weigh together. -/
def weight (w : α → Int) (p : List α) : Int := p.foldr (fun a n => w a + n) 0

/-- `x` is the weight of the heaviest path of a kind. -/
def Longest (w : α → Int) (P : List α → Prop) (x : Int) : Prop :=
  (∃ p, P p ∧ weight w p = x) ∧ ∀ p, P p → weight w p ≤ x

theorem Longest.unique {w : α → Int} {P : List α → Prop} {x y : Int} (h : Longest w P x)
    (h' : Longest w P y) : x = y := by
  obtain ⟨⟨p, hp, rfl⟩, hle⟩ := h
  obtain ⟨⟨q, hq, rfl⟩, hle'⟩ := h'
  exact Int.le_antisymm (hle' p hp) (hle q hq)

/-- The recurrence of the forward pass: `f b` is the weight of `b` after the heaviest of
    its predecessors. -/
structure Measures (V : α → Prop) (E : α → α → Prop) (w f : α → Int) : Prop where
  base : ∀ a, V a → w a ≤ f a
  step : ∀ a b, V a → V b → E a b → f a + w b ≤ f b
  tight : ∀ b, V b → f b = w b ∨ ∃ a, V a ∧ E a b ∧ f b = f a + w b

section Weights

variable (w : α → Int)

@[simp] theorem weight_nil : weight w [] = 0 := rfl

@[simp] theorem weight_cons (a : α) (p : List α) : weight w (a :: p) = w a + weight w p :=
  rfl

@[simp] theorem weight_append (p q : List α) : weight w (p ++ q) = weight w p + weight w q := by
  induction p with
  | nil => rw [List.nil_append, weight_nil, Int.zero_add]
  | cons a p ih => rw [List.cons_append, weight_cons, weight_cons, ih, Int.add_assoc]

@[simp] theorem weight_reverse (p : List α) : weight w p.reverse = weight w p := by
  induction p with
  | nil => rfl
  | cons a p ih =>
    rw [List.reverse_cons, weight_append, weight_cons, weight_cons, weight_nil, ih]
    omega

end Weights

variable {V : α → Prop} {E : α → α → Prop} {w f g : α → Int} {p : List α}

theorem Measures.along (hf : Measures V E w f) {a : α}
    (h : IsPath V E (a :: p)) : f a + weight w p ≤ f ((a :: p).getLast (List.cons_ne_nil a p)) := by
  induction p generalizing a with
  | nil => simp
  | cons b p ih =>
    have hab : E a b := (List.isChain_cons_cons.mp h.chain).1
    have hstep := hf.step a b (h.mem a (List.mem_cons_self ..))
      (h.mem b (.tail _ (List.mem_cons_self ..))) hab
    have hrest := ih (a := b) ⟨List.cons_ne_nil b p,
      fun c hc => h.mem c (.tail _ hc), (List.isChain_cons_cons.mp h.chain).2⟩
    rw [List.getLast_cons (List.cons_ne_nil b p), weight_cons]
    omega

variable {k : α}

theorem Measures.weight_le (hf : Measures V E w f)
    (h : IsPath V E (p ++ [k])) : weight w (p ++ [k]) ≤ f k := by
  cases p with
  | nil =>
    rw [List.nil_append, weight_cons, weight_nil]
    have hbase := hf.base k (h.mem k (List.mem_singleton.mpr rfl))
    omega
  | cons a p =>
    have hlast : f a + weight w (p ++ [k]) ≤
        f ((a :: (p ++ [k])).getLast (List.cons_ne_nil _ _)) := hf.along h
    have hbase := hf.base a (h.mem a (List.mem_cons_self ..))
    have he : (a :: (p ++ [k])).getLast (List.cons_ne_nil _ _) = k := by simp
    rw [he] at hlast
    rw [List.cons_append, weight_cons]
    omega

theorem Measures.attained (hf : Measures V E w f) (hwf : WellFounded E) (hk : V k) :
    ∃ p, IsPath V E (p ++ [k]) ∧ weight w (p ++ [k]) = f k := by
  induction k using hwf.induction with
  | h k ih =>
    rcases hf.tight k hk with he | ⟨a, ha, hak, he⟩
    · refine ⟨[], ⟨List.cons_ne_nil _ _, ?_, List.isChain_singleton k⟩, ?_⟩
      · intro b hb
        rw [List.mem_singleton.mp hb]
        exact hk
      · simp [he]
    · obtain ⟨p, hp, hweight⟩ := ih a hak ha
      refine ⟨p ++ [a], ⟨by simp, ?_, ?_⟩, ?_⟩
      · intro b hb
        rcases List.mem_append.mp hb with hb | hb
        · exact hp.mem b hb
        · rw [List.mem_singleton.mp hb]
          exact hk
      · rw [List.append_assoc, List.singleton_append, List.isChain_split]
        exact ⟨hp.chain, List.isChain_cons_cons.mpr ⟨hak, List.isChain_singleton k⟩⟩
      · rw [weight_append, hweight, he]
        simp

/-- **Every path**: the largest value of the recurrence is the heaviest weight. -/
theorem longest_all (hf : Measures V E w f) (hwf : WellFounded E) (hk : V k)
    (hmax : ∀ a, V a → f a ≤ f k) : Longest w (IsPath V E) (f k) := by
  refine ⟨?_, ?_⟩
  · obtain ⟨p, hp, hweight⟩ := hf.attained hwf hk
    exact ⟨_, hp, hweight⟩
  · intro p hp
    have hsplit := List.dropLast_append_getLast hp.ne
    have hlast : V (p.getLast hp.ne) := hp.mem _ (List.getLast_mem hp.ne)
    rw [← hsplit] at hp
    have hle := hf.weight_le hp
    rw [hsplit] at hle
    exact Int.le_trans hle (hmax _ hlast)

theorem IsPath.reverse (h : IsPath V E p) : IsPath V (fun a b => E b a) p.reverse := by
  refine ⟨by simpa using h.ne, ?_, List.isChain_reverse.mpr h.chain⟩
  intro a ha
  exact h.mem a (List.mem_reverse.mp ha)

/-- **Through one node**: the heaviest path to it and the heaviest path from it, the node
    itself counted once. -/
theorem longest_through (hf : Measures V E w f) (hg : Measures V (fun a b => E b a) w g)
    (hwf : WellFounded E) (hwf' : WellFounded (fun a b => E b a)) (hk : V k) :
    Longest w (fun p => IsPath V E p ∧ k ∈ p) (f k + g k - w k) := by
  refine ⟨?_, ?_⟩
  · obtain ⟨p, hp, hweight⟩ := hf.attained hwf hk
    obtain ⟨q, hq, hweight'⟩ := hg.attained hwf' hk
    have hback := hq.reverse
    rw [List.reverse_append, List.reverse_singleton, List.singleton_append] at hback
    refine ⟨p ++ k :: q.reverse, ⟨⟨by simp, ?_, List.isChain_split.mpr ⟨hp.chain, hback.chain⟩⟩,
      by simp⟩, ?_⟩
    · intro b hb
      rcases List.mem_append.mp hb with hb | hb
      · exact hp.mem b (List.mem_append_left _ hb)
      · exact hback.mem b hb
    · simp only [weight_append, weight_cons, weight_nil, weight_reverse] at hweight hweight' ⊢
      omega
  · rintro p ⟨hp, hkp⟩
    obtain ⟨l, r, rfl⟩ := List.append_of_mem hkp
    obtain ⟨hleft, hright⟩ := List.isChain_split.mp hp.chain
    have hto : IsPath V E (l ++ [k]) := by
      refine ⟨by simp, ?_, hleft⟩
      intro b hb
      refine hp.mem b ?_
      rcases List.mem_append.mp hb with hb | hb
      · exact List.mem_append_left _ hb
      · rw [List.mem_singleton.mp hb]
        exact hkp
    have hfrom : IsPath V E (k :: r) :=
      ⟨List.cons_ne_nil k r, fun b hb => hp.mem b (List.mem_append_right _ hb), hright⟩
    have hle := hf.weight_le hto
    have hle' := hg.weight_le (p := r.reverse) (k := k) (by simpa using hfrom.reverse)
    simp only [weight_append, weight_cons, weight_nil, weight_reverse] at hle hle' ⊢
    omega

end LongestPath
