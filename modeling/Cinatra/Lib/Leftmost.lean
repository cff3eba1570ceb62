import Mathlib.Data.List.Basic

/-! # Leftmost — the first match of a pattern in a text

    A pattern is given by the longest match at the head of a text; `search` takes the
    first place where there is one, which is the leftmost match of the pattern's shape
    (`search_eq_some`, `search_eq_none`). -/

namespace Leftmost

variable {α β : Type}

/-- `m` is the longest part of that shape that `s` opens with. -/
def Opens (shape : List α → Prop) (s m : List α) : Prop :=
  m <+: s ∧ shape m ∧ ∀ m', m' <+: s → shape m' → m'.length ≤ m.length

/-- `m` is the longest match at the first place of `s` that has one. -/
inductive IsLeftmost (shape : List α → Prop) : List α → List α → Prop
  | here {s m : List α} : Opens shape s m → IsLeftmost shape s m
  | later {c : α} {s m : List α} : (∀ m', m' <+: c :: s → ¬ shape m') →
      IsLeftmost shape s m → IsLeftmost shape (c :: s) m

/-- The match at the first place where there is one. -/
def search (atHead : List α → Option β) : List α → Option β
  | [] => atHead []
  | c :: s => (atHead (c :: s)).or (search atHead s)

section Search

variable {atHead : List α → Option β} {s : List α}

theorem search_of_head {m : β} (h : atHead s = some m) : search atHead s = some m := by
  cases s with
  | nil => exact h
  | cons c s => rw [search, h, Option.some_or]

theorem search_cons {c : α} (h : atHead (c :: s) = none) :
    search atHead (c :: s) = search atHead s := by
  rw [search, h, Option.none_or]

theorem search_append {t : List α} (p : List α)
    (h : ∀ c p', c :: p' <:+ p → atHead (c :: (p' ++ t)) = none) :
    search atHead (p ++ t) = search atHead t := by
  induction p with
  | nil => rfl
  | cons c p ih =>
    rw [List.cons_append, search_cons (h c p (List.suffix_refl _))]
    exact ih fun d p' hp => h d p' (hp.trans (List.suffix_cons c p))

end Search

variable {atHead : List α → Option (List α)} {shape : List α → Prop} {s m : List α}

/-- What an implementation finds at the head of a text. -/
structure Matches (atHead : List α → Option (List α)) (shape : List α → Prop) : Prop where
  sound : ∀ s m, atHead s = some m → Opens shape s m
  complete : ∀ s, atHead s = none → ∀ m, m <+: s → ¬ shape m

theorem search_eq_none (h : Matches atHead shape) :
    search atHead s = none ↔ ∀ m, m <:+: s → ¬ shape m := by
  have hhead : ∀ s, atHead s = none ↔ ∀ m, m <+: s → ¬ shape m := by
    refine fun s => ⟨h.complete s, fun hnone => Option.eq_none_iff_forall_ne_some.mpr ?_⟩
    exact fun m hm => hnone m (h.sound s m hm).1 (h.sound s m hm).2.1
  induction s with
  | nil =>
    rw [search, hhead]
    exact forall_congr' fun m => by rw [List.prefix_nil, List.infix_nil]
  | cons c s ih =>
    rw [search, Option.or_eq_none_iff]
    refine ((hhead _).and ih).trans ?_
    rw [← forall_and]
    exact forall_congr' fun m => by rw [List.infix_cons_iff, or_imp]

theorem search_eq_some (h : Matches atHead shape) :
    search atHead s = some m ↔ IsLeftmost shape s m := by
  constructor
  · intro hm
    induction s with
    | nil => exact .here (h.sound _ _ hm)
    | cons c s ih =>
      cases hc : atHead (c :: s) with
      | some m' =>
        rw [search_of_head hc] at hm
        exact .here (h.sound _ _ (hc.trans hm))
      | none =>
        rw [search_cons hc] at hm
        exact .later (h.complete _ hc) (ih hm)
  · intro hm
    induction hm with
    | @here s m hopens =>
      cases hs : atHead s with
      | none => exact absurd hopens.2.1 (h.complete s hs m hopens.1)
      | some m' =>
        -- two longest prefixes are one
        have hopens' := h.sound s m' hs
        have hlength := Nat.le_antisymm (hopens.2.2 m' hopens'.1 hopens'.2.1)
          (hopens'.2.2 m hopens.1 hopens.2.1)
        rw [search_of_head hs, (List.prefix_of_prefix_length_le hopens'.1 hopens.1
          (Nat.le_of_eq hlength)).eq_of_length hlength]
    | @later c s m hnone hm ih =>
      rw [search_cons, ih]
      refine Option.eq_none_iff_forall_ne_some.mpr fun m' hm' => ?_
      exact hnone m' (h.sound _ _ hm').1 (h.sound _ _ hm').2.1

end Leftmost
