import Mathlib.Data.List.Basic

/-! # DepthFirst — two facts every depth-first walk rests on

    A walk that opens a node once does no more work than the nodes not yet opened
    weigh (`weight_open`), which bounds its depth.  A list in which every node comes
    before its successors proves the graph free of cycles (`Finished.wellFounded`). -/

namespace DepthFirst

variable {α : Type}

section Weight

variable [DecidableEq α]

/-- What the nodes not yet seen weigh. -/
def weight (w : α → Nat) (seen : List α) : List α → Nat
  | [] => 0
  | a :: nodes => (if a ∈ seen then 0 else w a) + weight w seen nodes

theorem weight_anti (w : α → Nat) {seen seen' : List α} (h : ∀ a ∈ seen, a ∈ seen')
    (nodes : List α) : weight w seen' nodes ≤ weight w seen nodes := by
  induction nodes with
  | nil => exact Nat.le_refl _
  | cons a nodes ih =>
    rw [weight, weight]
    by_cases has : a ∈ seen
    · rw [if_pos has, if_pos (h a has)]
      omega
    · rw [if_neg has]
      split <;> omega

theorem weight_open (w : α → Nat) {seen nodes : List α} {k : α} (hk : k ∈ nodes)
    (hnew : k ∉ seen) : weight w (k :: seen) nodes + w k ≤ weight w seen nodes := by
  induction nodes with
  | nil => cases hk
  | cons a nodes ih =>
    rw [weight, weight]
    rcases List.mem_cons.mp hk with rfl | hin
    · have hsub : ∀ b ∈ seen, b ∈ k :: seen := fun b hb => List.mem_cons_of_mem k hb
      have htail := weight_anti w hsub nodes
      rw [if_pos (List.mem_cons_self ..), if_neg hnew]
      omega
    · have htail := ih hin
      by_cases has : a ∈ seen
      · rw [if_pos has, if_pos (.tail _ has)]
        omega
      · rw [if_neg has]
        split <;> omega

theorem weight_nil (w : α → Nat) (nodes : List α) :
    weight w [] nodes = nodes.foldl (fun n a => n + w a) 0 := by
  have hgen : ∀ n : Nat, n + weight w [] nodes = nodes.foldl (fun n a => n + w a) n := by
    induction nodes with
    | nil => exact fun n => rfl
    | cons a nodes ih =>
      intro n
      rw [weight, if_neg List.not_mem_nil, List.foldl_cons, ← ih]
      omega
  rw [← hgen 0, Nat.zero_add]

theorem weight_le_mul {w : α → Nat} {b : Nat} (seen : List α) {nodes : List α}
    (h : ∀ a ∈ nodes, w a ≤ b) : weight w seen nodes ≤ nodes.length * b := by
  induction nodes with
  | nil => exact Nat.zero_le _
  | cons a nodes ih =>
    have ha := h a (List.mem_cons_self ..)
    have hrest := ih (fun x hx => h x (.tail _ hx))
    rw [weight, List.length_cons, Nat.succ_mul]
    split <;> omega

end Weight

/-- Each node's successors were finished before it: they stand after it in the list. -/
def Finished (next : α → List α) : List α → Prop
  | [] => True
  | a :: rest => (∀ b ∈ next a, b ∈ rest) ∧ Finished next rest

variable {next : α → List α} {l : List α}

theorem Finished.acc (h : Finished next l) : ∀ a ∈ l, Acc (fun b a => b ∈ next a) a := by
  induction l with
  | nil => intro a ha; exact absurd ha List.not_mem_nil
  | cons x l ih =>
    obtain ⟨hx, hl⟩ := h
    intro a ha
    rcases List.mem_cons.mp ha with rfl | ha
    · exact Acc.intro _ (fun b hb => ih hl b (hx b hb))
    · exact ih hl a ha

/-- **No cycle**: the successor relation is well founded once every node with successors
    is finished. -/
theorem Finished.wellFounded (h : Finished next l)
    (hall : ∀ a, next a ≠ [] → a ∈ l) : WellFounded (fun b a => b ∈ next a) := by
  refine ⟨fun a => ?_⟩
  by_cases ha : next a = []
  · refine Acc.intro _ (fun b hb => ?_)
    rw [ha] at hb
    cases hb
  · exact h.acc a (hall a ha)

end DepthFirst
