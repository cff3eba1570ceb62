import Mathlib.Logic.Relation
import Cinatra.Lib.DepthFirst

/-! # Worklist — what a queue comes to

    A loop takes an element from the head of a queue, passes over it if it was seen, and
    otherwise appends all its successors.  Given as many turns as there are elements in
    the queue and edges to follow, it sees exactly what can be reached (`mem_loop_iff`). -/

namespace Worklist

open DepthFirst

variable {α : Type} [DecidableEq α]

/-- What was seen after so many turns. -/
def loop (next : α → List α) : Nat → List α → List α → List α
  | 0, _, seen => seen
  | _ + 1, [], seen => seen
  | turns + 1, a :: queue, seen =>
    if a ∈ seen then loop next turns queue seen
    else loop next turns (queue ++ next a) (seen ++ [a])

/-- `a` is one of `roots` or behind one. -/
def Reached (next : α → List α) (roots : List α) (a : α) : Prop :=
  ∃ r ∈ roots, Relation.ReflTransGen (fun a b => b ∈ next a) r a

variable {next : α → List α} {nodes : List α}

theorem loop_sound (turns : Nat) : ∀ (queue seen : List α), ∀ a ∈ loop next turns queue seen,
    a ∈ seen ∨ Reached next queue a := by
  induction turns with
  | zero => exact fun queue seen a ha => .inl ha
  | succ turns ih =>
    intro queue seen a ha
    cases queue with
    | nil => exact .inl ha
    | cons b queue =>
      rw [loop] at ha
      by_cases hb : b ∈ seen
      · rw [if_pos hb] at ha
        refine (ih queue seen a ha).imp_right ?_
        rintro ⟨r, hr, hra⟩
        exact ⟨r, List.mem_cons_of_mem b hr, hra⟩
      · rw [if_neg hb] at ha
        rcases ih _ _ a ha with hseen | ⟨r, hr, hra⟩
        · rcases List.mem_append.mp hseen with hseen | hab
          · exact .inl hseen
          · rw [List.mem_singleton.mp hab]
            exact .inr ⟨b, .head _, .refl⟩
        · rcases List.mem_append.mp hr with hr | hr
          · exact .inr ⟨r, List.mem_cons_of_mem b hr, hra⟩
          · exact .inr ⟨b, .head _, .head hr hra⟩

variable (hnodes : ∀ a, next a ≠ [] → a ∈ nodes)

include hnodes

theorem weight_seen {seen : List α} {a : α}
    (ha : a ∉ seen) : weight (fun a => (next a).length) (seen ++ [a]) nodes + (next a).length ≤
      weight (fun a => (next a).length) seen nodes := by
  by_cases hin : a ∈ nodes
  · have hopen := weight_open (fun a => (next a).length) hin ha
    have hsame : weight (fun a => (next a).length) (seen ++ [a]) nodes ≤
        weight (fun a => (next a).length) (a :: seen) nodes :=
      weight_anti _ (fun b hb => by
        rcases List.mem_cons.mp hb with rfl | hb
        · exact List.mem_concat_self
        · exact List.mem_append_left _ hb) nodes
    omega
  · have hnone : next a = [] := by
      by_contra hne
      exact hin (hnodes a hne)
    rw [hnone]
    exact weight_anti _ (fun b hb => List.mem_append_left _ hb) nodes

/-- **The loop sees all there is**: what was seen, what is queued, and their successors. -/
theorem loop_complete (turns : Nat) :
    ∀ queue seen : List α, (∀ a ∈ seen, ∀ b ∈ next a, b ∈ seen ∨ b ∈ queue) →
      queue.length + weight (fun a => (next a).length) seen nodes ≤ turns →
      (∀ a ∈ seen ++ queue, a ∈ loop next turns queue seen) ∧
        ∀ a ∈ loop next turns queue seen, ∀ b ∈ next a, b ∈ loop next turns queue seen := by
  induction turns with
  | zero =>
    intro queue seen hclosed hturns
    obtain rfl : queue = [] := List.length_eq_zero_iff.mp (by omega)
    rw [List.append_nil]
    exact ⟨fun a ha => ha, fun a ha b hb =>
      (hclosed a ha b hb).resolve_right List.not_mem_nil⟩
  | succ turns ih =>
    intro queue seen hclosed hturns
    cases queue with
    | nil =>
      rw [List.append_nil]
      exact ⟨fun a ha => ha, fun a ha b hb =>
        (hclosed a ha b hb).resolve_right List.not_mem_nil⟩
    | cons a queue =>
      rw [List.length_cons] at hturns
      rw [loop]
      by_cases ha : a ∈ seen
      · rw [if_pos ha]
        obtain ⟨hall, hnext⟩ := ih queue seen (fun x hx b hb => by
          rcases hclosed x hx b hb with h | h
          · exact .inl h
          · rcases List.mem_cons.mp h with rfl | h
            · exact .inl ha
            · exact .inr h) (by omega)
        refine ⟨fun x hx => ?_, hnext⟩
        rcases List.mem_append.mp hx with hx | hx
        · exact hall x (List.mem_append_left _ hx)
        · rcases List.mem_cons.mp hx with rfl | hx
          · exact hall _ (List.mem_append_left _ ha)
          · exact hall x (List.mem_append_right _ hx)
      · rw [if_neg ha]
        have hspent := weight_seen hnodes ha
        obtain ⟨hall, hnext⟩ := ih (queue ++ next a) (seen ++ [a]) (fun x hx b hb => by
          rcases List.mem_append.mp hx with hx | hx
          · rcases hclosed x hx b hb with h | h
            · exact .inl (List.mem_append_left _ h)
            · rcases List.mem_cons.mp h with rfl | h
              · exact .inl (List.mem_concat_self)
              · exact .inr (List.mem_append_left _ h)
          · rw [List.mem_singleton.mp hx] at hb
            exact .inr (List.mem_append_right _ hb)) (by rw [List.length_append]; omega)
        refine ⟨fun x hx => ?_, hnext⟩
        rcases List.mem_append.mp hx with hx | hx
        · exact hall x (List.mem_append_left _ (List.mem_append_left _ hx))
        · rcases List.mem_cons.mp hx with rfl | hx
          · exact hall _ (List.mem_append_left _ (List.mem_append_right _
              (List.mem_singleton.mpr rfl)))
          · exact hall x (List.mem_append_right _ (List.mem_append_left _ hx))

/-- **The loop sees exactly what can be reached.** -/
theorem mem_loop_iff {roots : List α} {turns : Nat}
    (hturns : roots.length + weight (fun a => (next a).length) [] nodes ≤ turns) {a : α} :
    a ∈ loop next turns roots [] ↔ Reached next roots a := by
  constructor
  · intro ha
    exact (loop_sound turns roots [] a ha).resolve_left List.not_mem_nil
  · rintro ⟨r, hr, hra⟩
    obtain ⟨hall, hnext⟩ := loop_complete hnodes turns roots []
      (fun x hx => absurd hx List.not_mem_nil) hturns
    induction hra with
    | refl => exact hall r hr
    | tail _ hb ih => exact hnext _ ih _ hb

end Worklist
