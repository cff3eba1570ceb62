import Mathlib.Data.List.Basic

/-! # Loop — loops that may abort

    A transaction that throws is a computation in `Except`, and a loop inside it
    is `foldlM`.  A loop that finishes ran every iteration, so what one iteration
    keeps the loop keeps (`foldlM_keeps`).  Loops that cannot abort are `foldl`,
    for which `List.foldlRecOn` is the same rule. -/

namespace Loop

variable {ε α β γ : Type}

theorem bind_ok {x : Except ε α} {f : α → Except ε β} {b : β} :
    (x >>= f) = .ok b ↔ ∃ a, x = .ok a ∧ f a = .ok b := by
  cases x with
  | error _ | ok _ => simp [bind, Except.bind]

variable {f : β → α → Except ε β} {l : List α}

theorem foldlM_cons_ok {a : α} {b b' : β} :
    (a :: l).foldlM f b = .ok b' ↔ ∃ m, f b a = .ok m ∧ l.foldlM f m = .ok b' := by
  rw [List.foldlM_cons]
  exact bind_ok

theorem foldlM_keeps {P : β → Prop} {b b' : β} (hrun : l.foldlM f b = .ok b') (hb : P b)
    (h : ∀ m a m', a ∈ l → f m a = .ok m' → P m → P m') : P b' := by
  induction l generalizing b with
  | nil =>
    have hbb : b = b' := Except.ok.inj hrun
    rw [← hbb]
    exact hb
  | cons a l ih =>
    obtain ⟨m, hfm, hrest⟩ := foldlM_cons_ok.mp hrun
    refine ih hrest (h b a m (List.mem_cons_self ..) hfm hb) ?_
    intro m₁ x m₂ hx
    exact h m₁ x m₂ (.tail _ hx)

/-- What each iteration keeps of the elements behind it, the loop keeps of all. -/
theorem foldlM_along {P : List α → β → Prop} {before : List α} {b b' : β}
    (hrun : l.foldlM f b = .ok b') (hb : P before b)
    (h : ∀ before m a m', f m a = .ok m' → P before m → P (before ++ [a]) m') :
    P (before ++ l) b' := by
  induction l generalizing b before with
  | nil =>
    rw [List.append_nil, ← Except.ok.inj hrun]
    exact hb
  | cons a l ih =>
    obtain ⟨m, hfm, hrest⟩ := foldlM_cons_ok.mp hrun
    rw [List.append_cons]
    exact ih hrest (h before b a m hfm hb)

/-- **What one iteration establishes, the loop reaches**: `P` holds until the
    iteration at `t`, which turns it into `Q`; the others keep both. -/
theorem foldlM_reaches {P Q : β → Prop} {b b' : β} {t : α}
    (hrun : l.foldlM f b = .ok b') (hnd : l.Nodup) (ht : t ∈ l) (hb : P b)
    (hP : ∀ m a m', a ∈ l → a ≠ t → f m a = .ok m' → P m → P m')
    (hQ : ∀ m a m', a ∈ l → a ≠ t → f m a = .ok m' → Q m → Q m')
    (hat : ∀ m m', f m t = .ok m' → P m → Q m') : Q b' := by
  induction l generalizing b with
  | nil => cases ht
  | cons a l ih =>
    obtain ⟨m, hfm, hrest⟩ := foldlM_cons_ok.mp hrun
    rw [List.nodup_cons] at hnd
    by_cases hat' : a = t
    · subst hat'
      -- the rest of the loop runs on other elements
      refine foldlM_keeps hrest (hat b m hfm hb) ?_
      intro m₁ x m₂ hx
      exact hQ m₁ x m₂ (.tail _ hx) (fun h => hnd.1 (h ▸ hx))
    · have htl : t ∈ l := by
        rcases List.mem_cons.mp ht with h | h
        · exact absurd h.symm hat'
        · exact h
      refine ih hrest hnd.2 htl (hP b a m (List.mem_cons_self ..) hat' hfm hb) ?_ ?_
      · intro m₁ x m₂ hx
        exact hP m₁ x m₂ (.tail _ hx)
      · intro m₁ x m₂ hx
        exact hQ m₁ x m₂ (.tail _ hx)

/-- A check run on a list passes when it passes on each element. -/
theorem forM_ok {f : α → Except ε Unit} : l.forM f = .ok () ↔ ∀ a ∈ l, f a = .ok () := by
  induction l with
  | nil => exact ⟨fun _ a ha => absurd ha List.not_mem_nil, fun _ => rfl⟩
  | cons a l ih =>
    show (f a >>= fun _ => l.forM f) = .ok () ↔ _
    rw [bind_ok, List.forall_mem_cons, ← ih]
    constructor
    · rintro ⟨_, ha, hl⟩
      exact ⟨ha, hl⟩
    · rintro ⟨ha, hl⟩
      exact ⟨(), ha, hl⟩

end Loop
