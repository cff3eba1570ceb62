import Mathlib.Data.List.Basic

/-! # Split — cutting a text at a separator

    `split` cuts at every occurrence of one character and `join` puts the pieces back
    (`join_split`, `split_join`).  `occurrences` counts how often a longer separator is
    found, from the left and without overlap: a text has more of them than any part in
    front of one (`occurrences_lt`). -/

namespace Split

variable {α : Type} [DecidableEq α]

/-- The pieces between the occurrences of `sep`. -/
def split (sep : α) : List α → List (List α)
  | [] => [[]]
  | c :: cs =>
    if c = sep then [] :: split sep cs
    else (split sep cs).modifyHead (c :: ·)

/-- The pieces with `sep` between them. -/
def join (sep : α) : List (List α) → List α
  | [] => []
  | [s] => s
  | s :: t :: ss => s ++ sep :: join sep (t :: ss)

variable {sep : α}

theorem split_cons (c : α) (cs : List α) : split sep (c :: cs) =
    if c = sep then [] :: split sep cs else (split sep cs).modifyHead (c :: ·) := rfl

theorem split_ne_nil (sep : α) (cs : List α) : split sep cs ≠ [] := by
  cases cs with
  | nil => exact List.cons_ne_nil _ _
  | cons c cs =>
    rw [split_cons]
    split
    · exact List.cons_ne_nil _ _
    · rw [ne_eq, List.modifyHead_eq_nil_iff]
      exact split_ne_nil sep cs

theorem split_append (a b : List α) : split sep (a ++ sep :: b) = split sep a ++ split sep b := by
  induction a with
  | nil =>
    rw [List.nil_append, split_cons, if_pos rfl]
    rfl
  | cons c a ih =>
    rw [List.cons_append, split_cons, split_cons, ih]
    split
    · rfl
    · obtain ⟨s, ss, hs⟩ := List.exists_cons_of_ne_nil (split_ne_nil sep a)
      rw [hs]
      rfl

/-- What stands in front of the first separator belongs to the first piece. -/
theorem split_append_left {a : List α} (h : sep ∉ a) (b : List α) :
    split sep (a ++ b) = (split sep b).modifyHead (a ++ ·) := by
  obtain ⟨s, ss, hs⟩ := List.exists_cons_of_ne_nil (split_ne_nil sep b)
  induction a with
  | nil => rw [hs]; exact hs
  | cons c a ih =>
    have hc : c ≠ sep := fun heq => h (heq ▸ List.mem_cons_self)
    rw [List.cons_append, split_cons, if_neg hc, ih fun hin => h (List.mem_cons_of_mem c hin), hs]
    rfl

theorem split_eq_self {cs : List α} (h : sep ∉ cs) : split sep cs = [cs] := by
  induction cs with
  | nil => rfl
  | cons c cs ih =>
    have hc : c ≠ sep := fun heq => h (heq ▸ List.mem_cons_self)
    rw [split_cons, if_neg hc, ih (fun hin => h (List.mem_cons_of_mem c hin))]
    rfl

theorem not_mem_of_mem_split {cs s : List α} (h : s ∈ split sep cs) : sep ∉ s := by
  induction cs generalizing s with
  | nil =>
    rw [split, List.mem_singleton] at h
    rw [h]
    exact List.not_mem_nil
  | cons c cs ih =>
    rw [split_cons] at h
    split at h
    · rcases List.mem_cons.mp h with rfl | h
      · exact List.not_mem_nil
      · exact ih h
    next hc =>
      obtain ⟨t, ts, ht⟩ := List.exists_cons_of_ne_nil (split_ne_nil sep cs)
      rw [ht, List.modifyHead_cons] at h
      rcases List.mem_cons.mp h with rfl | h
      · intro hin
        rcases List.mem_cons.mp hin with heq | hin
        · exact hc heq.symm
        · exact ih (ht ▸ List.mem_cons_self) hin
      · exact ih (ht ▸ List.mem_cons_of_mem t h)

variable {ss : List (List α)}

omit [DecidableEq α] in
theorem join_cons {s : List α} (h : ss ≠ []) : join sep (s :: ss) = s ++ sep :: join sep ss := by
  cases ss with
  | nil => exact absurd rfl h
  | cons t ss => rfl

omit [DecidableEq α] in
theorem join_append {ts : List (List α)} (hs : ss ≠ []) (ht : ts ≠ []) :
    join sep (ss ++ ts) = join sep ss ++ sep :: join sep ts := by
  induction ss with
  | nil => exact absurd rfl hs
  | cons s ss ih =>
    cases ss with
    | nil => exact join_cons ht
    | cons s' ss =>
      rw [List.cons_append, join_cons (List.append_ne_nil_of_left_ne_nil
        (List.cons_ne_nil s' ss) ts), ih (List.cons_ne_nil s' ss), join_cons
        (List.cons_ne_nil s' ss), List.append_assoc]
      rfl

/-- **The pieces put together are the text.** -/
theorem join_split (sep : α) (cs : List α) : join sep (split sep cs) = cs := by
  induction cs with
  | nil => rfl
  | cons c cs ih =>
    obtain ⟨s, ss, hs⟩ := List.exists_cons_of_ne_nil (split_ne_nil sep cs)
    rw [split_cons]
    split
    · next hc => rw [join_cons (split_ne_nil sep cs), ih, hc, List.nil_append]
    rw [hs, List.modifyHead_cons]
    rw [hs] at ih
    cases ss with
    | nil =>
      have hcs : s = cs := ih
      rw [← hcs]
      rfl
    | cons t ss =>
      rw [join_cons (List.cons_ne_nil t ss)] at ih ⊢
      rw [List.cons_append, ih]

/-- **Cutting what was put together gives the pieces.** -/
theorem split_join (hne : ss ≠ []) (h : ∀ s ∈ ss, sep ∉ s) : split sep (join sep ss) = ss := by
  induction ss with
  | nil => exact absurd rfl hne
  | cons s ss ih =>
    have hs := split_eq_self (h s (.head _))
    cases ss with
    | nil => exact hs
    | cons t ss =>
      rw [join_cons (List.cons_ne_nil t ss), split_append, hs,
        ih (List.cons_ne_nil t ss) (fun x hx => h x (List.mem_cons_of_mem s hx))]
      rfl

theorem split_injective {a b : List α} (h : split sep a = split sep b) : a = b := by
  rw [← join_split sep a, h, join_split]

/-- How often `sep` is found behind the next `skip` characters. -/
def occurrences (sep : List α) : Nat → List α → Nat
  | _, [] => 0
  | skip + 1, _ :: cs => occurrences sep skip cs
  | 0, c :: cs =>
    if sep.isPrefixOf (c :: cs) then occurrences sep (sep.length - 1) cs + 1
    else occurrences sep 0 cs

variable {sep : List α}

theorem occurrences_short (cs : List α) : ∀ skip, cs.length < sep.length →
    occurrences sep skip cs = 0 := by
  induction cs with
  | nil => exact fun skip _ => by cases skip <;> rfl
  | cons c cs ih =>
    intro skip hlen
    rw [List.length_cons] at hlen
    cases skip with
    | succ skip => exact ih skip (by omega)
    | zero =>
      have hno : sep.isPrefixOf (c :: cs) = false := by
        rw [← Bool.not_eq_true, List.isPrefixOf_iff_prefix]
        intro hpre
        have := hpre.length_le
        rw [List.length_cons] at this
        omega
      rw [occurrences, if_neg (Bool.not_eq_true _ ▸ hno)]
      exact ih 0 (by omega)

/-- **A separator at the end of a part is one more.** -/
theorem occurrences_lt (hne : sep ≠ []) (rest : List α) (cs : List α) : ∀ skip, skip ≤ cs.length →
      occurrences sep skip cs < occurrences sep skip (cs ++ sep ++ rest) := by
  induction cs with
  | nil =>
    intro skip hskip
    obtain rfl : skip = 0 := Nat.le_zero.mp hskip
    obtain ⟨c, tail, rfl⟩ := List.exists_cons_of_ne_nil hne
    have hpre : (c :: tail).isPrefixOf (c :: (tail ++ rest)) = true :=
      List.isPrefixOf_iff_prefix.mpr (List.prefix_append (c :: tail) rest)
    rw [List.nil_append, List.cons_append, occurrences, occurrences, if_pos hpre]
    exact Nat.succ_pos _
  | cons c cs ih =>
    intro skip hskip
    rw [List.length_cons] at hskip
    cases skip with
    | succ skip => exact ih skip (by omega)
    | zero =>
      have hpos := List.length_pos_of_ne_nil hne
      rw [List.cons_append, List.cons_append, occurrences, occurrences]
      by_cases hfits : sep.isPrefixOf (c :: cs) = true
      · have hlen := (List.isPrefixOf_iff_prefix.mp hfits).length_le
        rw [List.length_cons] at hlen
        have hlong : sep.isPrefixOf (c :: (cs ++ sep ++ rest)) = true := by
          rw [List.isPrefixOf_iff_prefix, List.append_assoc]
          exact (List.isPrefixOf_iff_prefix.mp hfits).trans (List.prefix_append (c :: cs) _)
        rw [if_pos hfits, if_pos hlong]
        exact Nat.succ_lt_succ (ih _ (by omega))
      · rw [if_neg hfits]
        split
        · next hlong =>
            -- the separator found here ends behind the part, which is too short for one
            by_cases hlen : sep.length ≤ (c :: cs).length
            · refine absurd (List.isPrefixOf_iff_prefix.mpr ?_) hfits
              refine List.prefix_of_prefix_length_le (List.isPrefixOf_iff_prefix.mp hlong) ?_ hlen
              rw [List.append_assoc]
              exact List.prefix_append (c :: cs) _
            · rw [List.length_cons] at hlen
              rw [occurrences_short cs 0 (by omega)]
              exact Nat.succ_pos _
        · exact ih 0 (Nat.zero_le _)

end Split
