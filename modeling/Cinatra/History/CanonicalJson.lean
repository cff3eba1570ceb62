import Mathlib.Data.List.Perm.Subperm
import Cinatra.Lib.CodeUnits
import Cinatra.History.RemoteEffects

/-! # CanonicalJson — the text behind checksums and comparisons

    The replacer copies each object's members, in sorted order, into a fresh object by
    assigning them, and the assignment to `__proto__` sets no member.  So texts are equal
    just for equal values, and are read back as their values, exactly where no object
    has a member of that name (`canonicalJsonStringify_faithful_iff`). -/

namespace EventSnapshot

open JsonValue History
open CodeUnits (sortBy sortBy_perm sortBy_sorted eq_of_sorted sortBy_eq)

/-- What the assignments to `sorted` leave. -/
def sorted (fs : Record) : Record :=
  ownFields ((sortBy Prod.fst fs).filter (fun f => f.1 ≠ protoName))

mutual
/-- What is serialised once the replacer has seen every value. -/
def canonicalReplacer : Json → Json
  | .arr xs => .arr (replacerItems xs)
  | .obj fs => .obj (sorted (replacerFields fs))
  | v => v

def replacerItems : List Json → List Json
  | [] => []
  | x :: xs => canonicalReplacer x :: replacerItems xs

def replacerFields : Record → Record
  | [] => []
  | (k, x) :: fs => (k, canonicalReplacer x) :: replacerFields fs
end

def canonicalJsonStringify (v : Json) : String := String.ofList (print (canonicalReplacer v))

/-! ## Equal values -/

/-- No object has two members of one name. -/
inductive Distinct : Json → Prop
  | null : Distinct .null
  | bool (b : Bool) : Distinct (.bool b)
  | num (n : JsNumber) : Distinct (.num n)
  | str (s : String) : Distinct (.str s)
  | arr {xs : List Json} : (∀ x ∈ xs, Distinct x) → Distinct (.arr xs)
  | obj {fs : Record} : (fs.map Prod.fst).Nodup → (∀ f ∈ fs, Distinct f.2) → Distinct (.obj fs)

mutual
/-- Equal as JSON values, whatever the order of an object's members. -/
def Same : Json → Json → Prop
  | .arr xs, .arr ys => SameItems xs ys
  | .obj fs, .obj gs => fs.length = gs.length ∧ SameFields fs gs
  | u, v => u = v

def SameItems : List Json → List Json → Prop
  | [], [] => True
  | x :: xs, y :: ys => Same x y ∧ SameItems xs ys
  | _, _ => False

/-- Every field has one of its name and of an equal value. -/
def SameFields : Record → Record → Prop
  | [], _ => True
  | (k, x) :: fs, gs => (∃ y, (k, y) ∈ gs ∧ Same x y) ∧ SameFields fs gs
end

theorem same_arr (xs ys : List Json) : Same (.arr xs) (.arr ys) ↔ List.Forall₂ Same xs ys := by
  rw [Same]
  induction xs generalizing ys with
  | nil => cases ys <;> simp [SameItems]
  | cons x xs ih => cases ys <;> simp [SameItems, ih]

theorem same_obj (fs gs : Record) : Same (.obj fs) (.obj gs) ↔
    fs.length = gs.length ∧ ∀ f ∈ fs, ∃ y, (f.1, y) ∈ gs ∧ Same f.2 y := by
  rw [Same]
  refine and_congr_right fun _ => ?_
  clear * -
  induction fs with
  | nil => simp [SameFields]
  | cons f fs ih => rw [List.forall_mem_cons, ← ih, SameFields]

theorem replacer_arr (xs : List Json) :
    canonicalReplacer (.arr xs) = .arr (xs.map canonicalReplacer) := by
  rw [canonicalReplacer]
  congr 1
  induction xs with
  | nil => rfl
  | cons x xs ih => rw [replacerItems, ih, List.map_cons]

def replaced (f : String × Json) : String × Json := (f.1, canonicalReplacer f.2)

theorem replacer_obj (fs : Record) :
    canonicalReplacer (.obj fs) = .obj (sorted (fs.map replaced)) := by
  rw [canonicalReplacer]
  congr 2
  induction fs with
  | nil => rfl
  | cons f fs ih => rw [replacerFields, ih, List.map_cons, replaced]

/-! ## The fields assigned -/

section Sorted

variable {fs gs : Record}

theorem replaced_names (fs : Record) : (fs.map replaced).map Prod.fst = fs.map Prod.fst := by
  rw [List.map_map]
  rfl

theorem filter_sortBy (fs : Record) : ((sortBy Prod.fst fs).filter (fun f => f.1 ≠ protoName)).Perm
      (fs.filter (fun f => f.1 ≠ protoName)) :=
  (sortBy_perm Prod.fst fs).filter _

theorem filter_nodup (hnd : (fs.map Prod.fst).Nodup) :
    (((sortBy Prod.fst fs).filter (fun f => f.1 ≠ protoName)).map Prod.fst).Nodup :=
  ((filter_sortBy fs).map Prod.fst).nodup_iff.mpr (hnd.sublist (List.filter_sublist.map _))

theorem sorted_perm (hnd : (fs.map Prod.fst).Nodup) :
    (sorted fs).Perm (fs.filter (fun f => f.1 ≠ protoName)) :=
  (ownFields_perm (filter_nodup hnd)).trans (filter_sortBy fs)

theorem sorted_all (hnd : (fs.map Prod.fst).Nodup) (hno : ∀ f ∈ fs, f.1 ≠ protoName) :
    (sorted fs).Perm fs := by
  have hperm := sorted_perm hnd
  rwa [List.filter_eq_self.mpr fun f hf => decide_eq_true (hno f hf)] at hperm

theorem sorted_eq (hnd : (gs.map Prod.fst).Nodup)
    (h : (fs.filter (fun f => f.1 ≠ protoName)).Perm (gs.filter (fun f => f.1 ≠ protoName))) :
    sorted fs = sorted gs :=
  congrArg ownFields (eq_of_sorted ((filter_sortBy fs).trans (h.trans (filter_sortBy gs).symm))
    (List.inj_on_of_nodup_map (filter_nodup hnd)) ((sortBy_sorted _ _).filter _)
    ((sortBy_sorted _ _).filter _))

theorem mem_sorted (hnd : (fs.map Prod.fst).Nodup) {f : String × Json} :
    f ∈ sorted fs ↔ f ∈ fs ∧ f.1 ≠ protoName := by
  rw [(sorted_perm hnd).mem_iff, List.mem_filter, decide_eq_true_eq]

end Sorted

/-! ## The texts -/

variable {v : Json}

theorem readable_replacer (h : Distinct v) :
    Readable anyNumeral ownFields (canonicalReplacer v) := by
  induction v using Json.entries_induction with
  | step v ih =>
    cases h with
    | null => exact .null
    | bool b => exact .bool b
    | num n => exact .num (dif_pos ⟨n.nonempty, n.chars⟩)
    | str s => exact .str s
    | arr hxs =>
      rw [replacer_arr]
      exact .arr (List.forall_mem_map.mpr fun x hx => ih x hx (hxs x hx))
    | @obj fs hnd hfs =>
      rw [replacer_obj]
      have hnd' := (replaced_names fs).symm ▸ hnd
      refine .obj (ownFields_ownFields (filter_nodup hnd')) fun f hf => ?_
      obtain ⟨g, hg, rfl⟩ := List.mem_map.mp ((mem_sorted hnd').mp hf).1
      exact ih g.2 (List.mem_map_of_mem hg) (hfs g hg)

/-- **What the text is read back as is the value**, if no member was dropped. -/
theorem same_replacer (h : Distinct v) : Same (canonicalReplacer v) v ↔ noProto v = true := by
  induction v using Json.entries_induction with
  | step v ih =>
    cases h with
    | null | bool | num | str => simp [canonicalReplacer, Same, noProto]
    | arr hxs =>
      rw [replacer_arr, same_arr, List.forall₂_map_left_iff, List.forall₂_same, noProto_arr]
      exact forall₂_congr fun x hx => ih x hx (hxs x hx)
    | @obj fs hnd hfs =>
      have hnd' := (replaced_names fs).symm ▸ hnd
      have hfield : ∀ f ∈ fs, Same (canonicalReplacer f.2) f.2 ↔ noProto f.2 = true :=
        fun f hf => ih f.2 (List.mem_map_of_mem hf) (hfs f hf)
      rw [replacer_obj, same_obj, noProto_obj]
      constructor
      · rintro ⟨hlen, hall⟩ f hf
        have hkept := hlen.trans (List.length_map replaced).symm
        rw [(sorted_perm hnd').length_eq, List.length_filter_eq_length_iff] at hkept
        have hname := of_decide_eq_true (hkept _ (List.mem_map_of_mem hf))
        obtain ⟨y, hy, hsame⟩ :=
          hall _ ((mem_sorted hnd').mpr ⟨List.mem_map_of_mem hf, hname⟩)
        have heq := List.inj_on_of_nodup_map hnd hy hf rfl
        exact ⟨hname, (hfield f hf).mp (heq ▸ hsame)⟩
      · intro hno
        have hall : ∀ f ∈ fs.map replaced, f.1 ≠ protoName :=
          List.forall_mem_map.mpr fun f hf => (hno f hf).1
        refine ⟨by rw [(sorted_all hnd' hall).length_eq, List.length_map], fun f hf => ?_⟩
        obtain ⟨g, hg, rfl⟩ := List.mem_map.mp ((mem_sorted hnd').mp hf).1
        exact ⟨g.2, hg, (hfield g hg).mpr (hno g hg).2⟩

/-- **Equal values are serialised alike, and no others**, if no member is dropped. -/
theorem same_iff {u : Json} (hu : Distinct u) (hv : Distinct v) (hpu : noProto u = true)
    (hpv : noProto v = true) : Same u v ↔ canonicalReplacer u = canonicalReplacer v := by
  induction u using Json.entries_induction generalizing v with
  | step u ih =>
    cases hu with
    | null | bool | num | str => cases v <;> simp [canonicalReplacer, Same]
    | arr hxs =>
      cases hv with
      | null | bool | num | str | obj => simp [canonicalReplacer, Same]
      | arr hys =>
        rw [noProto_arr] at hpu hpv
        rw [same_arr, replacer_arr, replacer_arr, Json.arr.injEq, ← List.forall₂_eq_eq_eq,
          List.forall₂_map_left_iff, List.forall₂_map_right_iff, List.forall₂_iff_get,
          List.forall₂_iff_get]
        refine and_congr_right fun _ => forall_congr' fun i => forall₂_congr fun h₁ h₂ => ?_
        have hx := List.get_mem _ ⟨i, h₁⟩
        have hy := List.get_mem _ ⟨i, h₂⟩
        exact ih _ hx (hxs _ hx) (hys _ hy) (hpu _ hx) (hpv _ hy)
    | @obj fs hnd hfs =>
      cases hv with
      | null | bool | num | str | arr => simp [canonicalReplacer, Same]
      | @obj gs hnd' hgs =>
        rw [noProto_obj] at hpu hpv
        have hvalue : ∀ f ∈ fs, ∀ g ∈ gs,
            Same f.2 g.2 ↔ canonicalReplacer f.2 = canonicalReplacer g.2 := fun f hf g hg =>
          ih f.2 (List.mem_map_of_mem hf) (hfs f hf) (hgs g hg) (hpu f hf).2 (hpv g hg).2
        rw [← replaced_names] at hnd hnd'
        rw [same_obj, replacer_obj, replacer_obj, Json.obj.injEq]
        constructor
        · rintro ⟨hlen, hall⟩
          refine sorted_eq hnd' (((List.Nodup.of_map _ hnd).subperm (fun f hf => ?_)
            |>.perm_of_length_le (by simp [hlen])).filter _)
          obtain ⟨f, hmem, rfl⟩ := List.mem_map.mp hf
          obtain ⟨y, hy, hsame⟩ := hall f hmem
          refine List.mem_map.mpr ⟨(f.1, y), hy, ?_⟩
          rw [replaced, replaced, (hvalue f hmem _ hy).mp hsame]
        · intro heq
          have hperm : (fs.map replaced).Perm (gs.map replaced) :=
            (sorted_all hnd (List.forall_mem_map.mpr fun f hf => (hpu f hf).1)).symm.trans
              (heq ▸ sorted_all hnd' (List.forall_mem_map.mpr fun g hg => (hpv g hg).1))
          refine ⟨by simpa using hperm.length_eq, fun f hf => ?_⟩
          obtain ⟨g, hg, hgf⟩ := List.mem_map.mp (hperm.mem_iff.mp (List.mem_map_of_mem hf))
          obtain ⟨hname, hval⟩ := Prod.mk.inj hgf
          exact ⟨g.2, hname ▸ hg, (hvalue f hf g hg).mpr hval.symm⟩

/-! ## The value compared -/

theorem insertionSort_names {fs gs : Record} (h : fs.Perm gs) (hnd : (gs.map Prod.fst).Nodup) :
    fs.insertionSort (fieldLe sortRank) = gs.insertionSort (fieldLe sortRank) := by
  have hgs := List.perm_insertionSort (fieldLe sortRank) gs
  have hperm := (List.perm_insertionSort (fieldLe sortRank) fs).trans (h.trans hgs.symm)
  refine hperm.eq_of_pairwise (fun f g hf hg hfg hgf => ?_)
    (List.pairwise_insertionSort _ fs) (List.pairwise_insertionSort _ gs)
  have hchars := List.map_injective_iff.mpr (fun c d hcd => Char.ext (UInt32.toNat_inj.mp hcd))
    (le_antisymm (a := sortRank f.1) hfg hgf)
  exact List.inj_on_of_nodup_map hnd (hgs.mem_iff.mp (hperm.mem_iff.mp hf)) (hgs.mem_iff.mp hg)
    (String.toList_injective hchars)

/-- Without the order of its fields, what is serialised is the value that is compared. -/
theorem canonical_replacer (h : Distinct v) :
    canonical (canonicalReplacer v) = canonicalReplaced v := by
  induction v using Json.entries_induction with
  | step v ih =>
    cases h with
    | null | bool | num | str => simp [canonicalReplacer, canonicalReplaced, withoutProto]
    | arr hxs =>
      rw [replacer_arr, canonicalReplaced, withoutProto_arr, canonical, sortFields_arr, canonical,
        sortFields_arr, List.map_map, List.map_map]
      exact congrArg Json.arr (List.map_congr_left fun x hx => ih x hx (hxs x hx))
    | @obj fs hnd hfs =>
      have hnd' := (replaced_names fs).symm ▸ hnd
      rw [replacer_obj, canonicalReplaced, withoutProto_obj, canonical, sortFields_obj, canonical,
        sortFields_obj, List.map_map]
      refine congrArg Json.obj (insertionSort_names (((sorted_perm hnd').map _).trans ?_) ?_)
      · rw [List.filter_map, List.map_map]
        exact .of_eq (List.map_congr_left fun f hf => Prod.ext rfl
          (ih f.2 (List.mem_map_of_mem (List.mem_of_mem_filter hf))
            (hfs f (List.mem_of_mem_filter hf))))
      · rw [List.map_map]
        exact hnd.sublist (List.filter_sublist.map _)

theorem replacer_replaced (h : Distinct v) :
    canonicalReplacer (canonicalReplaced v) = canonicalReplacer v := by
  induction v using Json.entries_induction with
  | step v ih =>
    cases h with
    | null | bool | num | str => simp [canonicalReplaced, withoutProto, canonical, sortFields]
    | arr hxs =>
      rw [canonicalReplaced, withoutProto_arr, canonical, sortFields_arr, List.map_map,
        replacer_arr, replacer_arr, List.map_map]
      exact congrArg Json.arr (List.map_congr_left fun x hx => ih x hx (hxs x hx))
    | @obj fs hnd hfs =>
      have hnd' := (replaced_names fs).symm ▸ hnd
      rw [canonicalReplaced, withoutProto_obj, canonical, sortFields_obj, List.map_map,
        replacer_obj, replacer_obj]
      refine congrArg Json.obj (sorted_eq hnd'
        ((((List.perm_insertionSort _ _).map replaced).filter _).trans (.of_eq ?_)))
      rw [List.map_map, List.filter_map, List.filter_map, List.filter_filter]
      refine (congrArg _ (List.filter_congr fun f _ => Bool.and_self _)).trans
        (List.map_congr_left fun f hf => Prod.ext rfl ?_)
      exact ih f.2 (List.mem_map_of_mem (List.mem_of_mem_filter hf))
        (hfs f (List.mem_of_mem_filter hf))

/-- **The texts tell values apart as the values of an attempt are told apart.** -/
theorem replaced_eq_iff {u : Json} (hu : Distinct u) (hv : Distinct v) :
    canonicalReplaced u = canonicalReplaced v ↔ canonicalReplacer u = canonicalReplacer v :=
  ⟨fun h => by rw [← replacer_replaced hu, h, replacer_replaced hv],
    fun h => by rw [← canonical_replacer hu, h, canonical_replacer hv]⟩

theorem parse_stringify (h : Distinct v) :
    parseJson anyNumeral (canonicalJsonStringify v) = some (canonicalReplacer v) := by
  rw [parseJson, canonicalJsonStringify, String.toList_ofList]
  exact parseWith_print (readable_replacer h)

/-- **The canonical text is a faithful encoding without order exactly where no object
    has a member `__proto__`**: then two texts are equal just when their values are, and
    each is read back as its value. -/
theorem canonicalJsonStringify_faithful_iff (u v : Json) (hu : Distinct u) (hv : Distinct v) :
    ((canonicalJsonStringify u = canonicalJsonStringify v ↔ Same u v) ∧
      (∃ w, parseJson anyNumeral (canonicalJsonStringify u) = some w ∧ Same w u) ∧
      (∃ w, parseJson anyNumeral (canonicalJsonStringify v) = some w ∧ Same w v)) ↔
    noProto u = true ∧ noProto v = true := by
  have hback : ∀ w, Distinct w → ((∃ w', parseJson anyNumeral (canonicalJsonStringify w) = some w' ∧
      Same w' w) ↔ noProto w = true) := by
    intro w hw
    rw [parse_stringify hw, ← same_replacer hw]
    exact ⟨fun ⟨_, h, hsame⟩ => Option.some.inj h ▸ hsame, fun h => ⟨_, rfl, h⟩⟩
  rw [hback u hu, hback v hv]
  refine ⟨And.right, fun h => ⟨?_, h⟩⟩
  rw [same_iff hu hv h.1 h.2]
  exact ⟨fun heq => print_injective (String.ofList_injective heq), fun heq => by
    rw [canonicalJsonStringify, canonicalJsonStringify, heq]⟩

theorem listing_faithful :
    let u : Json := .obj [("b", .arr [.null]), ("10", .str "x")]
    let v : Json := .obj [("10", .str "x"), ("b", .arr [.null])]
    canonicalJsonStringify u = canonicalJsonStringify v ↔ Same u v :=
  ((canonicalJsonStringify_faithful_iff _ _
    (.obj (by decide) (by simpa using ⟨.arr (by simpa using .null), .str _⟩))
    (.obj (by decide) (by simpa using ⟨.str _, .arr (by simpa using .null)⟩))).mpr
      ⟨by decide, by decide⟩).1

/-- A value with a member `__proto__` has the text of the empty object. -/
theorem protoMember_dropped : ¬ (canonicalJsonStringify (.obj [("__proto__", .bool true)]) =
    canonicalJsonStringify (.obj []) ↔ Same (.obj [("__proto__", .bool true)]) (.obj [])) := by
  rw [same_obj]
  exact fun h => absurd (h.mp (by decide)).1 (by decide)

end EventSnapshot
