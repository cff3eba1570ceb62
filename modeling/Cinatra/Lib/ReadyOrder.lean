import Cinatra.Lib.TopoSort

/-! # ReadyOrder — placing nodes in rounds

    Each round looks through the nodes that remain for those whose predecessors are all
    placed, and places the one a rule picks; when none is ready, what remains is placed
    as it stands.  Every node is placed once (`loop_perm`), and after its predecessors if
    it lies on no cycle and depends on none (`loop_places`); on a graph without cycles that
    is every node (`loop_respects`). -/

namespace ReadyOrder

variable {α : Type} [DecidableEq α] {preds : α → List α} {pick : List α → Option α}

/-- The nodes whose predecessors are all placed. -/
def ready (preds : α → List α) (placed remaining : List α) : List α :=
  remaining.filter (fun n => (preds n).all (· ∈ placed))

/-- So many rounds. -/
def loop (preds : α → List α) (pick : List α → Option α) : Nat → List α → List α → List α
  | 0, ordered, _ => ordered
  | fuel + 1, ordered, remaining =>
    if remaining = [] then ordered
    else
      match pick (ready preds ordered remaining) with
      | none => ordered ++ remaining
      | some next => loop preds pick fuel (ordered ++ [next]) (remaining.filter (· ≠ next))

/-- A rule that picks one of the nodes, whenever there is one. -/
structure Picks (pick : List α → Option α) : Prop where
  mem : ∀ {l x}, pick l = some x → x ∈ l
  some : ∀ {l}, l ≠ [] → pick l ≠ none

/-- Every node stands behind its predecessors. -/
def Respects (preds : α → List α) (l : List α) : Prop :=
  ∀ a ∈ l, ∀ b ∈ preds a, [b, a].Sublist l

variable {remaining : List α} {ordered : List α} {next : α}

theorem move_perm (hnd : remaining.Nodup) (hin : next ∈ remaining) :
    (ordered ++ [next] ++ remaining.filter (· ≠ next)).Perm (ordered ++ remaining) := by
  have herase : remaining.filter (· ≠ next) = remaining.erase next := by
    rw [hnd.erase_eq_filter]
    congr 1
    funext a
    rw [bne, beq_eq_decide, decide_not]
  rw [List.append_assoc, herase]
  exact (List.perm_cons_erase hin).symm.append_left ordered

theorem length_move (hin : next ∈ remaining) :
    (remaining.filter (· ≠ next)).length < remaining.length := by
  refine List.length_filter_lt_length_iff_exists.mpr ⟨next, hin, ?_⟩
  simp

/-- **Every node is placed, once.** -/
theorem loop_perm (hpick : Picks pick) (fuel : Nat) : ∀ ordered remaining : List α,
    remaining.Nodup → remaining.length ≤ fuel →
      (loop preds pick fuel ordered remaining).Perm (ordered ++ remaining) := by
  induction fuel with
  | zero =>
    intro ordered remaining _ hlen
    rw [List.length_eq_zero_iff.mp (Nat.le_zero.mp hlen), List.append_nil]
    exact List.Perm.refl _
  | succ fuel ih =>
    intro ordered remaining hnd hlen
    rw [loop]
    split
    · next hempty => rw [hempty, List.append_nil]
    split
    · exact List.Perm.refl _
    · next next hnext =>
        have hin : next ∈ remaining := (List.mem_filter.mp (hpick.mem hnext)).1
        have hlt := length_move hin
        exact (ih _ _ (hnd.filter _) (by omega)).trans (move_perm hnd hin)

/-- The node lies on a cycle, or depends on one. -/
def Entangled (preds : α → List α) (a : α) : Prop :=
  ∃ c, Relation.ReflTransGen (TopoSort.Edge preds) c a ∧ Relation.TransGen (TopoSort.Edge preds) c c

/-- Every node that depends on no cycle stands behind its predecessors. -/
def Places (preds : α → List α) (l : List α) : Prop :=
  ∀ a ∈ l, ¬ Entangled preds a → ∀ b ∈ preds a, [b, a].Sublist l

variable {a : α}

omit [DecidableEq α] in
theorem entangled_iff : Entangled preds a ↔ ∃ b ∈ preds a, Entangled preds b := by
  constructor
  · rintro ⟨c, hc, hcycle⟩
    rcases hc.cases_tail with rfl | ⟨b, hcb, hb⟩
    · obtain ⟨b, hab, hb⟩ := Relation.TransGen.tail'_iff.mp hcycle
      exact ⟨b, hb, a, hab, hcycle⟩
    · exact ⟨b, hb, c, hcb, hcycle⟩
  · rintro ⟨b, hb, c, hc, hcycle⟩
    exact ⟨c, hc.tail hb, hcycle⟩

omit [DecidableEq α] in
/-- What waits for nodes that wait themselves depends on a cycle. -/
theorem entangled_of_waiting (ha : a ∈ remaining)
    (hwait : ∀ k ∈ remaining, ∃ p ∈ remaining, p ∈ preds k) : Entangled preds a := by
  classical
  let below : α → Prop := fun k => Relation.ReflTransGen (TopoSort.Edge preds) k a
  let inner : α → List α := fun k => (preds k).filter (fun p => below p)
  have hedge : ∀ p k, TopoSort.Edge inner p k → TopoSort.Edge preds p k ∧ below p := by
    intro p k hp
    obtain ⟨hin, hbelow⟩ := List.mem_filter.mp hp
    exact ⟨hin, of_decide_eq_true hbelow⟩
  have hpred : ∀ k ∈ remaining, below k → ∃ p ∈ remaining, below p ∧ TopoSort.Edge inner p k := by
    intro k hk hbelow
    obtain ⟨p, hp, hpk⟩ := hwait k hk
    have hp' : below p := .head hpk hbelow
    exact ⟨p, hp, hp', List.mem_filter.mpr ⟨hpk, decide_eq_true hp'⟩⟩
  obtain ⟨c, hc⟩ := TopoSort.exists_cycle ⟨a, ha, .refl⟩ hpred
  refine ⟨c, ?_, Relation.TransGen.mono (fun p k hpk => (hedge p k hpk).1) _ _ hc⟩
  obtain ⟨k, hck, _⟩ := Relation.TransGen.head'_iff.mp hc
  exact (hedge c k hck).2

/-- Where no node is ready, all that remain depend on a cycle. -/
theorem entangled_of_ready_nil (hclosed : ∀ a ∈ remaining, ∀ b ∈ preds a, b ∈ ordered ++ remaining)
    (hnone : ready preds ordered remaining = []) (ha : a ∈ remaining) : Entangled preds a := by
  refine entangled_of_waiting ha ?_
  intro k hk
  have hwait := List.filter_eq_nil_iff.mp hnone k hk
  rw [List.all_eq_true] at hwait
  push Not at hwait
  obtain ⟨p, hp, hplaced⟩ := hwait
  rcases List.mem_append.mp (hclosed k hk p hp) with hin | hin
  · exact absurd (decide_eq_true hin) hplaced
  · exact ⟨p, hin, hp⟩

omit [DecidableEq α] in
theorem Places.append {l rest : List α} (h : Places preds l)
    (hrest : ∀ x ∈ rest, ¬ Entangled preds x → ∀ b ∈ preds x, b ∈ l) :
    Places preds (l ++ rest) := by
  intro a ha hfree b hb
  rcases List.mem_append.mp ha with ha | ha
  · exact (h a ha hfree b hb).trans (List.sublist_append_left l rest)
  · exact (List.singleton_sublist.mpr (hrest a ha hfree b hb)).append
      (List.singleton_sublist.mpr ha)

/-- **A node that depends on no cycle is placed behind its predecessors.** -/
theorem loop_places (hpick : Picks pick) (fuel : Nat) :
    ∀ ordered remaining : List α, remaining.Nodup →
      (∀ a ∈ remaining, ∀ b ∈ preds a, b ∈ ordered ++ remaining) → Places preds ordered →
      Places preds (loop preds pick fuel ordered remaining) := by
  induction fuel with
  | zero => exact fun ordered remaining _ _ h => h
  | succ fuel ih =>
    intro ordered remaining hnd hclosed h
    rw [loop]
    split
    · exact h
    split
    · next hnone =>
        have hready : ready preds ordered remaining = [] := by
          by_contra hne
          exact hpick.some hne hnone
        exact h.append (fun x hx hfree =>
          absurd (entangled_of_ready_nil hclosed hready hx) hfree)
    · next next hnext =>
        obtain ⟨hin, hready⟩ := List.mem_filter.mp (hpick.mem hnext)
        rw [List.all_eq_true] at hready
        refine ih _ _ (hnd.filter _) ?_ (h.append ?_)
        · intro a ha b hb
          exact (move_perm hnd hin).mem_iff.mpr (hclosed a (List.mem_filter.mp ha).1 b hb)
        · intro x hx _ b hb
          obtain rfl := List.mem_singleton.mp hx
          exact of_decide_eq_true (hready b hb)

/-- **Without a cycle every node is placed behind its predecessors.** -/
theorem loop_respects (hpick : Picks pick)
    (hacyclic : ∀ a, ¬ Relation.TransGen (TopoSort.Edge preds) a a) (fuel : Nat)
    (ordered remaining : List α) (hnd : remaining.Nodup)
    (hclosed : ∀ a ∈ remaining, ∀ b ∈ preds a, b ∈ ordered ++ remaining)
    (h : Respects preds ordered) : Respects preds (loop preds pick fuel ordered remaining) := by
  intro a ha b hb
  have hfree : ¬ Entangled preds a := by
    rintro ⟨c, _, hc⟩
    exact hacyclic c hc
  exact loop_places hpick fuel ordered remaining hnd hclosed (fun a ha _ => h a ha) a ha hfree b hb

theorem loop_enough (hpick : Picks pick) (fuel : Nat) : ∀ (more : Nat) (ordered remaining : List α),
    remaining.length ≤ fuel →
      loop preds pick (fuel + more) ordered remaining = loop preds pick fuel ordered remaining := by
  induction fuel with
  | zero =>
    intro more ordered remaining hlen
    rw [List.length_eq_zero_iff.mp (Nat.le_zero.mp hlen), Nat.zero_add]
    cases more with
    | zero => rfl
    | succ more => exact if_pos rfl
  | succ fuel ih =>
    intro more ordered remaining hlen
    rw [Nat.add_right_comm, loop, loop]
    split
    · rfl
    split
    · rfl
    · next next hnext =>
        have hlt := length_move (List.mem_filter.mp (hpick.mem hnext)).1
        exact ih more _ _ (by omega)

end ReadyOrder
