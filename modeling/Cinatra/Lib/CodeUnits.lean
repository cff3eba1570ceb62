import Mathlib.Data.List.Lex
import Mathlib.Data.List.Sort
import Mathlib.Data.List.TakeWhile

/-! # CodeUnits — how JavaScript sorts and trims texts

    Texts compare by their UTF-16 code units, which tell any two of them apart
    (`units_injective`); so a sorted list does not depend on the order before
    (`jsSort_eq_of_perm`). -/

namespace CodeUnits

/-- The UTF-16 code units of a character. -/
def utf16 (c : Char) : List Nat :=
  if c.toNat < 0x10000 then [c.toNat]
  else [0xD800 + (c.toNat - 0x10000) / 0x400, 0xDC00 + (c.toNat - 0x10000) % 0x400]

/-- The code units of a text. -/
def units (s : String) : List Nat := s.toList.flatMap utf16

theorem toNat_valid (c : Char) : c.toNat < 0xD800 ∨ 0xDFFF < c.toNat ∧ c.toNat < 0x110000 := c.valid

theorem utf16_append_inj {c c' : Char} {xs ys : List Nat}
    (h : utf16 c ++ xs = utf16 c' ++ ys) : c = c' ∧ xs = ys := by
  have hc := toNat_valid c
  have hc' := toNat_valid c'
  have hinj : c.toNat = c'.toNat → c = c' := fun heq => Char.ext (UInt32.toNat_inj.mp heq)
  rw [utf16, utf16] at h
  split at h
  · split at h
    · obtain ⟨hn, htail⟩ := List.cons.inj h
      exact ⟨hinj hn, htail⟩
    · have hn := (List.cons.inj h).1
      omega
  · split at h
    · have hn := (List.cons.inj h).1
      omega
    · obtain ⟨hhigh, hrest⟩ := List.cons.inj h
      obtain ⟨hlow, htail⟩ := List.cons.inj hrest
      exact ⟨hinj (by omega), htail⟩

theorem utf16_ne_nil (c : Char) : utf16 c ≠ [] := by
  rw [utf16]
  split <;> simp

theorem flatMap_utf16_injective : Function.Injective (List.flatMap utf16) := by
  intro cs
  induction cs with
  | nil =>
    intro cs' h
    cases cs' with
    | nil => rfl
    | cons c' cs' =>
      rw [List.flatMap_nil, List.flatMap_cons] at h
      exact absurd (List.append_eq_nil_iff.mp h.symm).1 (utf16_ne_nil c')
  | cons c cs ih =>
    intro cs' h
    cases cs' with
    | nil =>
      rw [List.flatMap_nil, List.flatMap_cons] at h
      exact absurd (List.append_eq_nil_iff.mp h).1 (utf16_ne_nil c)
    | cons c' cs' =>
      rw [List.flatMap_cons, List.flatMap_cons] at h
      obtain ⟨rfl, htail⟩ := utf16_append_inj h
      rw [ih htail]

/-- **Texts are told apart by their code units.** -/
theorem units_injective : Function.Injective units := fun _ _ h =>
  String.toList_injective (flatMap_utf16_injective h)

/-! ## Sorting -/

variable {β : Type} {key : β → String} {xs ys : List β}

/-- In the order of a text. -/
def sortBy (key : β → String) (xs : List β) : List β :=
  xs.insertionSort (fun a b => units (key a) ≤ units (key b))

theorem sortBy_perm (key : β → String) (xs : List β) : (sortBy key xs).Perm xs :=
  List.perm_insertionSort _ _

theorem sortBy_sorted (key : β → String) (xs : List β) :
    (sortBy key xs).Pairwise (fun a b => units (key a) ≤ units (key b)) := by
  let le : β → β → Prop := fun a b => units (key a) ≤ units (key b)
  have : Std.Total le := ⟨fun a b => le_total _ _⟩
  have : IsTrans β le := ⟨fun _ _ _ h h' => le_trans h h'⟩
  exact List.pairwise_insertionSort le xs

/-- **Lists sorted by a key that tells them apart** are equal when their members are. -/
theorem eq_of_sorted (h : xs.Perm ys)
    (hkey : ∀ ⦃a⦄, a ∈ ys → ∀ ⦃b⦄, b ∈ ys → key a = key b → a = b)
    (hxs : xs.Pairwise (fun a b => units (key a) ≤ units (key b)))
    (hys : ys.Pairwise (fun a b => units (key a) ≤ units (key b))) : xs = ys :=
  List.Perm.eq_of_pairwise (fun _ _ ha hb hab hba =>
    hkey (h.mem_iff.mp ha) hb (units_injective (le_antisymm hab hba))) hxs hys h

/-- **Sorting forgets the order before.** -/
theorem sortBy_eq (h : xs.Perm ys)
    (hkey : ∀ ⦃a⦄, a ∈ xs → ∀ ⦃b⦄, b ∈ xs → key a = key b → a = b) :
    sortBy key xs = sortBy key ys := by
  have hback := (sortBy_perm key ys).trans h.symm
  refine eq_of_sorted ((sortBy_perm key xs).trans hback.symm) (fun a ha b hb => ?_)
    (sortBy_sorted key xs) (sortBy_sorted key ys)
  exact hkey (hback.mem_iff.mp ha) (hback.mem_iff.mp hb)

/-- JavaScript's `sort` of texts. -/
def jsSort (xs : List String) : List String := sortBy id xs

theorem jsSort_perm (xs : List String) : (jsSort xs).Perm xs := sortBy_perm id xs

theorem jsSort_eq_of_perm {xs ys : List String} (h : xs.Perm ys) : jsSort xs = jsSort ys :=
  sortBy_eq h fun _ _ _ _ => id

/-! ## White space -/

/-- `\s`. -/
def jsSpace (c : Char) : Bool :=
  [9, 10, 11, 12, 13, 32, 160, 5760, 8232, 8233, 8239, 8287, 12288, 65279].contains c.toNat ||
    (8192 ≤ c.toNat && c.toNat ≤ 8202)

/-- `s.trim()`. -/
def trim (cs : List Char) : List Char :=
  ((cs.dropWhile jsSpace).reverse.dropWhile jsSpace).reverse

theorem trim_eq_self {cs : List Char} (h : ∀ c ∈ cs, jsSpace c = false) : trim cs = cs := by
  have hdrop : ∀ ds : List Char, (∀ c ∈ ds, jsSpace c = false) →
      ds.dropWhile jsSpace = ds := by
    intro ds hds
    refine List.dropWhile_eq_self_iff.mpr fun hl hspace => ?_
    rw [hds _ (List.getElem_mem hl)] at hspace
    cases hspace
  rw [trim, hdrop cs h, hdrop _ (fun c hc => h c (List.mem_reverse.mp hc)), List.reverse_reverse]

/-- Blanks stand on both sides of the trimmed text. -/
theorem trim_parts (cs : List Char) : ∃ pre post, cs = pre ++ (trim cs ++ post) ∧
    ∀ c ∈ pre ++ post, jsSpace c = true := by
  have hback := List.takeWhile_append_dropWhile (p := jsSpace)
    (l := (cs.dropWhile jsSpace).reverse)
  refine ⟨cs.takeWhile jsSpace,
    ((cs.dropWhile jsSpace).reverse.takeWhile jsSpace).reverse, ?_, ?_⟩
  · rw [trim, ← List.reverse_append, hback, List.reverse_reverse, List.takeWhile_append_dropWhile]
  · intro c hc
    rcases List.mem_append.mp hc with hc | hc
    · exact List.mem_takeWhile_imp hc
    · exact List.mem_takeWhile_imp (List.mem_reverse.mp hc)

end CodeUnits
