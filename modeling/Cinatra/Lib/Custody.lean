import Mathlib.Data.Set.Basic

/-! # Custody — things that are needed, and things that are being taken away

    Things are present; some of them are needed, by whoever would be left with a
    dangling name; some are doomed, which is to say that their removal has been
    decided and has yet to happen.  Custody is safe when what is needed is present
    and not doomed.  A move keeps it safe when it comes to need only what it leaves
    present and not doomed, dooms only what it leaves unneeded, and removes only what
    was doomed (`Safe.move`). -/

namespace Custody

variable {K : Type}

structure Keeping (K : Type) where
  present : Set K
  needed : Set K
  doomed : Set K

structure Safe (s : Keeping K) : Prop where
  present : ∀ k ∈ s.needed, k ∈ s.present
  spared : ∀ k ∈ s.needed, k ∉ s.doomed

structure Move (s t : Keeping K) : Prop where
  needs : ∀ k ∈ t.needed, k ∈ s.needed ∨ k ∈ t.present ∧ k ∉ t.doomed
  dooms : ∀ k ∈ t.doomed, k ∈ s.doomed ∨ k ∉ t.needed
  removes : ∀ k ∈ s.present, k ∈ t.present ∨ k ∈ s.doomed

/-- **A move keeps custody safe.** -/
theorem Safe.move {s t : Keeping K} (h : Safe s) (hmove : Move s t) : Safe t := by
  constructor
  · intro k hk
    rcases hmove.needs k hk with hold | ⟨hpresent, _⟩
    · rcases hmove.removes k (h.present k hold) with hpresent | hdoomed
      · exact hpresent
      · exact absurd hdoomed (h.spared k hold)
    · exact hpresent
  · intro k hk hdoomed
    rcases hmove.dooms k hdoomed with hwas | hunneeded
    · rcases hmove.needs k hk with hold | ⟨_, hspared⟩
      · exact h.spared k hold hwas
      · exact hspared hdoomed
    · exact hunneeded hk

theorem Move.ease {s t : Keeping K} (hpresent : ∀ k ∈ s.present, k ∈ t.present)
    (hneeded : ∀ k ∈ t.needed, k ∈ s.needed) (hdoomed : ∀ k ∈ t.doomed, k ∈ s.doomed) :
    Move s t where
  needs k hk := .inl (hneeded k hk)
  dooms k hk := .inl (hdoomed k hk)
  removes k hk := .inl (hpresent k hk)

end Custody
