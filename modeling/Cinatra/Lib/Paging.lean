import Mathlib.Data.List.Nodup

/-! # Paging — reading a list behind a cursor

    A reader asks for a page, then for the page behind the last element it was given,
    until a page is empty.  What lies behind an element is whatever a relation says;
    `read_iff` says when the pages put together are the list. -/

namespace Paging

variable {α : Type} (later : α → α → Bool) (n : Nat) (l : List α)

/-- What lies behind a cursor; without one, everything. -/
def behind : Option α → List α
  | none => l
  | some c => l.filter (later c)

/-- Page after page until one is empty, for so many calls. -/
def read : Nat → Option α → Option (List α)
  | 0, _ => none
  | calls + 1, cursor =>
    let page := (behind later l cursor).take n
    match page.getLast? with
    | none => some []
    | some c => (read calls (some c)).map (page ++ ·)

/-- `d` parts the elements before it from those behind it. -/
structure Parts (before : List α) (d : α) (after : List α) : Prop where
  self : later d d = false
  before : ∀ x ∈ before, later d x = false
  after : ∀ x ∈ after, later d x = true

/-- Every element that ends a page parts the list. -/
def PageEndsPart : Prop :=
  ∀ before d after, l = before ++ d :: after → (n ∣ before.length + 1 ∨ after = []) →
    Parts later before d after

variable {later n l} {before : List α}

theorem Parts.filter {after : List α} {d : α} (h : Parts later before d after) :
    (before ++ d :: after).filter (later d) = after := by
  have hbefore : before.filter (later d) = [] :=
    List.filter_eq_nil_iff.mpr (fun x hx => Bool.not_eq_true _ ▸ h.before x hx)
  rw [List.filter_append, hbefore, List.nil_append, List.filter_cons, h.self,
    if_neg Bool.false_ne_true]
  exact List.filter_eq_self.mpr h.after

/-- **Where page ends part the list** the reader is given the rest of it. -/
theorem read_rest (hn : 0 < n) (hends : PageEndsPart later n l) (calls : Nat) :
    ∀ (before rest : List α) (cursor : Option α), l = before ++ rest →
      n ∣ before.length ∨ rest = [] → behind later l cursor = rest → rest.length < calls →
      read later n l calls cursor = some rest := by
  induction calls with
  | zero => exact fun _ _ _ _ _ _ h => absurd h (Nat.not_lt_zero _)
  | succ calls ih =>
    intro before rest cursor hl hpage hbehind hcalls
    rw [read, hbehind]
    cases hlast : (rest.take n).getLast? with
    | none =>
      rw [List.getLast?_eq_none_iff, List.take_eq_nil_iff] at hlast
      rcases hlast with h | h
      · omega
      · rw [h]
    | some c =>
      obtain ⟨init, hinit⟩ := List.getLast?_eq_some_iff.mp hlast
      have hne : rest ≠ [] := by
        rintro rfl
        rw [List.take_nil] at hinit
        exact absurd hinit (by simp)
      have hdvd : n ∣ before.length := hpage.resolve_right hne
      have hlen : init.length + 1 = min n rest.length := by
        rw [← List.length_take, hinit, List.length_append, List.length_singleton]
      have hrest : rest = init ++ c :: rest.drop n := by
        conv_lhs => rw [← List.take_append_drop n rest, hinit]
        rw [List.append_assoc, List.singleton_append]
      have hl' : l = (before ++ init) ++ c :: rest.drop n := by
        rw [hl, List.append_assoc, ← hrest]
      -- a page that is not full is the last
      have hend : n ∣ (before ++ init).length + 1 ∨ rest.drop n = [] := by
        rw [List.length_append, Nat.add_assoc, hlen]
        rcases Nat.le_total n rest.length with h | h
        · rw [Nat.min_eq_left h]
          exact .inl (Nat.dvd_add hdvd (Nat.dvd_refl n))
        · exact .inr (List.drop_eq_nil_of_le h)
      have hparts := hends _ _ _ hl' hend
      have hnext : behind later l (some c) = rest.drop n := by
        rw [behind, hl']
        exact hparts.filter
      have hcalls' : (rest.drop n).length < calls := by
        rw [List.length_drop]
        have := List.length_pos_of_ne_nil hne
        omega
      have hread := ih ((before ++ init) ++ [c]) (rest.drop n) (some c)
        (by rw [List.append_assoc, List.singleton_append]; exact hl')
        (by rw [List.length_append, List.length_singleton]; exact hend) hnext hcalls'
      simp only [hread, Option.map_some, List.take_append_drop]

/-! ## What a reader was given -/

variable {calls : Nat} {rest : List α} {cursor : Option α}

/-- A call hands out a page, and what the calls behind its last element do. -/
theorem read_succ (h : read later n l (calls + 1) cursor = some rest) :
    (behind later l cursor).take n = [] ∧ rest = [] ∨
      ∃ init d after, (behind later l cursor).take n = init ++ [d] ∧
        rest = init ++ d :: after ∧ read later n l calls (some d) = some after := by
  rw [read] at h
  cases hlast : ((behind later l cursor).take n).getLast? with
  | none =>
    rw [hlast] at h
    exact .inl ⟨List.getLast?_eq_none_iff.mp hlast, (Option.some.inj h).symm⟩
  | some d =>
    rw [hlast, Option.map_eq_some_iff] at h
    obtain ⟨after, hafter, happ⟩ := h
    obtain ⟨init, hinit⟩ := List.getLast?_eq_some_iff.mp hlast
    refine .inr ⟨init, d, after, hinit, ?_, hafter⟩
    rw [← happ, hinit, List.append_assoc, List.singleton_append]

theorem page_subset
    (h : read later n l calls cursor = some rest) : (behind later l cursor).take n ⊆ rest := by
  cases calls with
  | zero => exact absurd h (by simp [read])
  | succ calls =>
    rcases read_succ h with ⟨hpage, _⟩ | ⟨init, d, after, hpage, hrest, _⟩
    · rw [hpage]
      exact List.nil_subset _
    · have happ : rest = (init ++ [d]) ++ after := by
        rw [hrest, List.append_assoc, List.singleton_append]
      rw [hpage, happ]
      exact List.subset_append_left _ _

theorem not_behind {c : α} (hn : 0 < n) (hl : l.Nodup)
    (happ : l = before ++ rest) (hread : read later n l calls (some c) = some rest) :
    ∀ x ∈ before, later c x = false := by
  intro x hx
  by_contra hp
  rw [Bool.not_eq_false] at hp
  have hmem : x ∈ before.filter (later c) := List.mem_filter.mpr ⟨hx, hp⟩
  obtain ⟨y, ys, hys⟩ := List.exists_cons_of_ne_nil (List.ne_nil_of_mem hmem)
  have hy : y ∈ before := (List.mem_filter.mp (hys ▸ List.mem_cons_self)).1
  -- the first element behind the cursor is in the next page
  have hin : y ∈ (behind later l (some c)).take n := by
    rw [behind, happ, List.filter_append, hys, List.cons_append]
    obtain ⟨m, rfl⟩ : ∃ m, n = m + 1 := ⟨n - 1, by omega⟩
    rw [List.take_succ_cons]
    exact .head _
  rw [happ] at hl
  exact List.disjoint_of_nodup_append hl hy (page_subset hread hin)

theorem append_singleton_append {init after : List α} {d : α}
    (hl : l = before ++ rest) (hrest : rest = init ++ d :: after) :
    l = (before ++ init ++ [d]) ++ after := by
  rw [hl, hrest]
  simp only [List.append_assoc, List.singleton_append]

theorem later_of_read (hn : 0 < n) (hl : l.Nodup)
    (htrans : ∀ c d x, later c c = false → later d d = false → later c d = true →
      later d x = true → later c x = true) (calls : Nat) :
    ∀ (before rest : List α) (c : α), l = before ++ rest → later c c = false →
      read later n l calls (some c) = some rest → ∀ x ∈ rest, later c x = true := by
  induction calls with
  | zero => exact fun _ _ _ _ _ h => absurd h (by simp [read])
  | succ calls ih =>
    intro before rest c hsplit hself hread x hx
    rcases read_succ hread with ⟨_, hnil⟩ | ⟨init, d, after, hpage, hrest, hafter⟩
    · rw [hnil] at hx
      cases hx
    have hin : ∀ y ∈ init ++ [d], later c y = true := by
      intro y hy
      rw [← hpage] at hy
      exact (List.mem_filter.mp (List.mem_of_mem_take hy)).2
    have hsplit' := append_singleton_append hsplit hrest
    have hd : later d d = false := not_behind hn hl hsplit' hafter d (by simp)
    rw [hrest, ← List.singleton_append, ← List.append_assoc] at hx
    rcases List.mem_append.mp hx with hx | hx
    · exact hin x hx
    · exact htrans c d x hself hd (hin d (by simp)) (ih _ _ d hsplit' hd hafter x hx)

/-- **A reader that is given the rest** came to page ends that part the list. -/
theorem parts_of_read (hn : 0 < n) (hl : l.Nodup)
    (htrans : ∀ c d x, later c c = false → later d d = false → later c d = true →
      later d x = true → later c x = true) (calls : Nat) :
    ∀ (before rest : List α) (cursor : Option α), l = before ++ rest →
      n ∣ before.length ∨ rest = [] → (∀ c, cursor = some c → later c c = false) →
      read later n l calls cursor = some rest → ∀ init d after, rest = init ++ d :: after →
        (n ∣ before.length + init.length + 1 ∨ after = []) →
        Parts later (before ++ init) d after := by
  induction calls with
  | zero => exact fun _ _ _ _ _ _ h => absurd h (by simp [read])
  | succ calls ih =>
    intro before rest cursor hsplit hdvd hself hread
    rcases read_succ hread with ⟨_, hnil⟩ | ⟨init, d, after, hpage, hrest, hafter⟩
    · intro init d after h
      rw [hnil] at h
      exact absurd h (by simp)
    have hsplit' := append_singleton_append hsplit hrest
    have hbefore := not_behind hn hl hsplit' hafter
    have hd : later d d = false := hbefore d (by simp)
    have hlater := later_of_read hn hl htrans calls _ _ d hsplit' hd hafter
    have hparts : Parts later (before ++ init) d after :=
      ⟨hd, fun x hx => hbefore x (List.mem_append_left _ hx), hlater⟩
    have hdvd' : n ∣ before.length := by
      refine hdvd.resolve_right ?_
      rw [hrest]
      simp
    -- a page that is not full is all that lies behind the cursor
    have hfull : init.length + 1 = n ∨ after = [] := by
      by_contra hno
      push Not at hno
      obtain ⟨hlen, hne⟩ := hno
      have hcount : (init ++ [d]).length = min n (behind later l cursor).length := by
        rw [← hpage, List.length_take]
      rw [List.length_append, List.length_singleton] at hcount
      have hall : behind later l cursor = init ++ [d] := by
        rw [← hpage, List.take_of_length_le]
        omega
      obtain ⟨x, hx⟩ := List.exists_mem_of_ne_nil after hne
      have hxl : x ∈ l := by
        rw [hsplit']
        exact List.mem_append_right _ hx
      have hxin : x ∈ init ++ [d] := by
        rw [← hall]
        cases cursor with
        | none => exact hxl
        | some c =>
          refine List.mem_filter.mpr ⟨hxl, htrans c d x (hself c rfl) hd ?_ (hlater x hx)⟩
          have hdin : d ∈ behind later l (some c) := hall ▸ (by simp)
          exact (List.mem_filter.mp hdin).2
      rw [hsplit', List.append_assoc before] at hl
      exact List.disjoint_of_nodup_append hl (List.mem_append_right _ hxin) hx
    have hnext : n ∣ (before ++ init ++ [d]).length ∨ after = [] := by
      refine hfull.imp_left (fun h => ?_)
      rw [List.length_append, List.length_append, List.length_singleton, Nat.add_assoc, h]
      exact Nat.dvd_add hdvd' (Nat.dvd_refl n)
    intro init' d' after' hrest' hend'
    rw [hrest] at hrest'
    rcases Nat.lt_trichotomy init'.length init.length with hlt | heq | hlt
    · -- inside the page
      exfalso
      have hafter' : after' ≠ [] := by
        rintro rfl
        have := congrArg List.length hrest'
        simp only [List.length_append, List.length_cons, List.length_nil] at this
        omega
      obtain ⟨k, hk⟩ := (Nat.dvd_add_right hdvd').mp
        (Nat.add_assoc .. ▸ hend'.resolve_right hafter')
      have hlen : init.length + 1 ≤ n := by
        rw [← List.length_singleton (a := d), ← List.length_append, ← hpage]
        exact List.length_take_le _ _
      rcases Nat.eq_zero_or_pos k with rfl | hpos
      · omega
      · have := Nat.le_mul_of_pos_right n hpos
        omega
    · obtain ⟨rfl, htail⟩ := List.append_inj hrest' heq.symm
      obtain ⟨rfl, rfl⟩ := List.cons.inj htail
      exact hparts
    · obtain ⟨mid, rfl⟩ : ∃ mid, init' = init ++ [d] ++ mid := by
        have hpre : (init ++ [d]) <+: init' ++ d' :: after' :=
          ⟨after, by rw [← hrest']; simp only [List.append_assoc, List.singleton_append]⟩
        obtain ⟨mid, hmid⟩ := List.prefix_of_prefix_length_le hpre (List.prefix_append _ _)
          (by rw [List.length_append, List.length_singleton]; omega)
        exact ⟨mid, hmid.symm⟩
      have hmid : after = mid ++ d' :: after' := by
        have := hrest'
        simp only [List.append_assoc, List.append_cancel_left_eq,
          List.cons_append, List.cons.injEq, true_and, List.nil_append] at this
        exact this
      have hp := ih (before ++ init ++ [d]) after (some d) hsplit' hnext
        (fun c hc => Option.some.inj hc ▸ hd) hafter mid d' after' hmid
        (hend'.imp_left (fun h => by
          simp only [List.length_append, List.length_singleton] at h ⊢
          convert h using 1
          omega))
      simp only [List.append_assoc] at hp ⊢
      exact hp

/-- **The pages put together are the list if and only if** every page end parts it. -/
theorem read_iff (hn : 0 < n) (hl : l.Nodup)
    (htrans : ∀ c d x, later c c = false → later d d = false → later c d = true →
      later d x = true → later c x = true) :
    (∃ calls, read later n l calls none = some l) ↔ PageEndsPart later n l := by
  constructor
  · rintro ⟨calls, h⟩ before d after hsplit hend
    have hp := parts_of_read hn hl htrans calls [] l none rfl (.inl ⟨0, rfl⟩)
      (fun c hc => absurd hc (by simp)) h before d after hsplit
      (by simpa using hend)
    exact hp
  · intro h
    exact ⟨l.length + 1, read_rest hn h _ [] l none rfl (.inl ⟨0, rfl⟩) rfl (Nat.lt_succ_self _)⟩

end Paging
