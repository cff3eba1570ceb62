import Mathlib.Data.List.Induction
import Cinatra.Extensions.PlanFormat
import Cinatra.Lib.Loop

/-! # PlanPaths — placement paths as chains of packages

    A placement path is a chain of package names, each below a `node_modules`
    (`parsePlacementPath_ok`), even where a package is itself named so.  What Node may
    look in from a package is the same chain cut short anywhere (`mem_candidates_iff`). -/

namespace ExtMatPlan

open Loop

variable {c : Char}

theorem nameRest_ne (h : nameRest c = true) : c ≠ '/' ∧ c ≠ '@' := by
  constructor
  · rintro rfl
    exact absurd h (by decide)
  · rintro rfl
    exact absurd h (by decide)

theorem nameRest_of_start (h : nameStart c = true) : nameRest c = true := by
  rw [nameRest, h, Bool.true_or, Bool.true_or]

variable {cs : List Char}

theorem namePart_chars (h : namePart cs = true) : cs ≠ [] ∧ ∀ c ∈ cs, nameRest c = true := by
  cases cs with
  | nil => cases h
  | cons c cs =>
    rw [namePart, Bool.and_eq_true, List.all_eq_true] at h
    refine ⟨List.cons_ne_nil c cs, fun d hd => ?_⟩
    rcases List.mem_cons.mp hd with rfl | hd
    · exact nameRest_of_start h.1
    · exact h.2 d hd

theorem namePart_slash (h : namePart cs = true) : '/' ∉ cs :=
  fun hin => (nameRest_ne ((namePart_chars h).2 '/' hin)).1 rfl

theorem dropWhile_slash {name : List Char} {d : Char}
    (h : cs.dropWhile (· ≠ '/') = d :: name) : d = '/' := by
  have hstop := List.head?_dropWhile_not (· ≠ '/') cs
  rw [h] at hstop
  simpa using hstop

variable {n : List Char}

/-- A name is one part that no `@` opens, or a scope and a part. -/
theorem npmPackageName_parts (h : npmPackageName n = true) :
    (Split.split '/' n = [n] ∧ n.head? ≠ some '@' ∧ namePart n = true) ∨
      ∃ s t, n = s ++ '/' :: t ∧ s.head? = some '@' ∧ Split.split '/' n = [s, t] ∧
        namePart t = true := by
  unfold npmPackageName at h
  split at h
  · next rest =>
      split at h
      · next d name hdrop =>
          rw [Bool.and_eq_true] at h
          obtain rfl : d = '/' := dropWhile_slash hdrop
          have hrest : rest = rest.takeWhile (· ≠ '/') ++ '/' :: name :=
            (List.takeWhile_append_dropWhile.symm).trans (congrArg _ hdrop)
          have hscope : '/' ∉ '@' :: rest.takeWhile (· ≠ '/') := by
            intro hin
            rcases List.mem_cons.mp hin with hin | hin
            · exact absurd hin (by decide)
            · exact namePart_slash h.1 hin
          refine .inr ⟨'@' :: rest.takeWhile (· ≠ '/'), name, ?_, rfl, ?_, h.2⟩
          · rw [List.cons_append, ← hrest]
          · rw [hrest, ← List.cons_append, Split.split_append, ← hrest, Split.split_eq_self hscope,
              Split.split_eq_self (namePart_slash h.2)]
            rfl
      · cases h
  · next hat =>
      refine .inl ⟨Split.split_eq_self (namePart_slash h), fun hhead => ?_, h⟩
      obtain ⟨cs, rfl⟩ := List.head?_eq_some_iff.mp hhead
      exact hat cs rfl

theorem npmPackageName_segments (h : npmPackageName n = true) :
    (Split.split '/' n = [n] ∧ n.head? ≠ some '@') ∨
      ∃ s t, n = s ++ '/' :: t ∧ s.head? = some '@' ∧ Split.split '/' n = [s, t] :=
  (npmPackageName_parts h).imp (fun h => ⟨h.1, h.2.1⟩)
    fun ⟨s, t, heq, hhead, hsplit, _⟩ => ⟨s, t, heq, hhead, hsplit⟩

/-- No segment of a name leads nowhere or up. -/
theorem npmPackageName_inside (h : npmPackageName n = true) :
    ∀ s ∈ Split.split '/' n, s ∉ [[], ['.'], ['.', '.']] := by
  have hpart (p : List Char) (hp : namePart p = true ∨ p.head? = some '@') :
      p ∉ [[], ['.'], ['.', '.']] := by
    simp only [List.mem_cons, List.not_mem_nil, or_false]
    rintro (rfl | rfl | rfl) <;> exact absurd hp (by decide)
  intro s hs
  rcases npmPackageName_parts h with ⟨hsplit, _, hn⟩ | ⟨scope, t, _, hhead, hsplit, ht⟩
  · rw [hsplit] at hs
    exact List.mem_singleton.mp hs ▸ hpart n (.inl hn)
  · rw [hsplit] at hs
    rcases List.mem_pair.mp hs with rfl | rfl
    · exact hpart s (.inr hhead)
    · exact hpart s (.inl ht)

/-! ## Chains -/

/-- The segments of a chain of packages. -/
def chainSegments (chain : List (List Char)) : List (List Char) :=
  chain.flatMap (fun n => nodeModules :: Split.split '/' n)

/-- The path of a chain of packages. -/
def chainPath (chain : List (List Char)) : String :=
  String.ofList (Split.join '/' (chainSegments chain))

/-- A chain of valid names. -/
def ValidChain (chain : List (List Char)) : Prop := ∀ n ∈ chain, npmPackageName n = true

theorem chainSegments_append (c d : List (List Char)) :
    chainSegments (c ++ d) = chainSegments c ++ chainSegments d := List.flatMap_append

theorem chainSegments_cons (n : List Char) (c : List (List Char)) :
    chainSegments (n :: c) = nodeModules :: (Split.split '/' n ++ chainSegments c) := rfl

variable {c : List (List Char)}

theorem chainSegments_ne_nil (h : c ≠ []) : chainSegments c ≠ [] := by
  obtain ⟨n, c, rfl⟩ := List.exists_cons_of_ne_nil h
  exact List.cons_ne_nil _ _

theorem chainSegments_slash : ∀ s ∈ chainSegments c, '/' ∉ s := by
  intro s hs
  obtain ⟨n, _, hs⟩ := List.mem_flatMap.mp hs
  rcases List.mem_cons.mp hs with rfl | hs
  · decide
  · exact Split.not_mem_of_mem_split hs

theorem split_chainPath (h : c ≠ []) : Split.split '/' (chainPath c).toList = chainSegments c := by
  rw [chainPath, String.toList_ofList]
  exact Split.split_join (chainSegments_ne_nil h) chainSegments_slash

theorem demand_ok {holds : Prop} [Decidable holds] {message : String} :
    demand holds message = .ok () ↔ holds := by
  rw [demand]
  split
  · next h => exact iff_of_true rfl h
  · next h => exact iff_of_false (fun he => by cases he) h

variable {placementPath label : String}

/-- **A path that is read** is the segments of its chain. -/
theorem parseSegments_ok (fuel : Nat) : ∀ (i : Nat)
    (segments chain : List (List Char)), segments.length ≤ fuel → (∀ s ∈ segments, '/' ∉ s) →
      parseSegments placementPath label i segments = .ok chain →
      segments = chainSegments chain ∧ ValidChain chain := by
  induction fuel with
  | zero =>
    intro i segments chain hlen _ h
    obtain rfl : segments = [] := List.length_eq_zero_iff.mp (Nat.le_zero.mp hlen)
    obtain rfl : [] = chain := Except.ok.inj h
    exact ⟨rfl, fun n hn => absurd hn List.not_mem_nil⟩
  | succ fuel ih =>
    intro i segments chain hlen hslash h
    cases segments with
    | nil =>
      obtain rfl : [] = chain := Except.ok.inj h
      exact ⟨rfl, fun n hn => absurd hn List.not_mem_nil⟩
    | cons segment rest =>
      unfold parseSegments at h
      by_cases hsegment : segment ≠ nodeModules
      · rw [if_pos hsegment] at h
        cases h
      rw [if_neg hsegment] at h
      obtain rfl : segment = nodeModules := not_not.mp hsegment
      cases rest with
      | nil => cases h
      | cons first rest =>
        have hfirst := hslash first (.tail _ (.head _))
        simp only at h
        split at h
        · cases rest with
          | nil => cases h
          | cons second rest =>
            have hsecond := hslash second
              (.tail _ (.tail _ (.head _)))
            obtain ⟨_, hname, h⟩ := bind_ok.mp h
            obtain ⟨tail, htail, h⟩ := bind_ok.mp h
            obtain rfl := Except.ok.inj h
            obtain ⟨hsegs, hvalid⟩ := ih _ rest tail
              (by simp only [List.length_cons] at hlen; omega)
              (fun s hs => hslash s (.tail _ (.tail _
                (.tail _ hs)))) htail
            refine ⟨?_, List.forall_mem_cons.mpr ⟨demand_ok.mp hname, hvalid⟩⟩
            rw [chainSegments_cons, Split.split_append, Split.split_eq_self hfirst,
              Split.split_eq_self hsecond, ← hsegs]
            rfl
        · obtain ⟨_, hname, h⟩ := bind_ok.mp h
          obtain ⟨tail, htail, h⟩ := bind_ok.mp h
          obtain rfl := Except.ok.inj h
          obtain ⟨hsegs, hvalid⟩ := ih _ rest tail
            (by simp only [List.length_cons] at hlen; omega)
            (fun s hs => hslash s (.tail _ (.tail _ hs))) htail
          refine ⟨?_, List.forall_mem_cons.mpr ⟨demand_ok.mp hname, hvalid⟩⟩
          rw [chainSegments_cons, Split.split_eq_self hfirst, ← hsegs]
          rfl

theorem parseSegments_chain (chain : List (List Char)) : ∀ i, ValidChain chain →
      parseSegments placementPath label i (chainSegments chain) = .ok chain := by
  induction chain with
  | nil => exact fun i _ => rfl
  | cons n chain ih =>
    intro i hvalid
    obtain ⟨hn, hrest⟩ := List.forall_mem_cons.mp hvalid
    rw [chainSegments_cons]
    rcases npmPackageName_segments hn with ⟨hsplit, hhead⟩ | ⟨s, t, heq, hhead, hsplit⟩
    · rw [hsplit, List.singleton_append, parseSegments.eq_def]
      simp only [if_neg (not_not.mpr rfl : ¬ nodeModules ≠ nodeModules)]
      simp only [if_neg hhead]
      rw [demand_ok.mpr hn, ih _ hrest]
      rfl
    · rw [hsplit, List.cons_append, List.singleton_append, parseSegments,
        if_neg (not_not.mpr rfl)]
      simp only [if_pos hhead]
      rw [← heq, demand_ok.mpr hn, ih _ hrest]
      rfl

/-- **A placement path is the path of a chain of valid names**, and of one only. -/
theorem parsePlacementPath_ok {chain : List (List Char)} :
    parsePlacementPath placementPath label = .ok chain ↔
      chain ≠ [] ∧ ValidChain chain ∧ placementPath = chainPath chain := by
  rw [parsePlacementPath, bind_ok]
  constructor
  · rintro ⟨_, hne, h⟩
    obtain ⟨hsegs, hvalid⟩ := parseSegments_ok _ 0 _ chain (Nat.le_refl _)
      (fun s hs => Split.not_mem_of_mem_split hs) h
    refine ⟨?_, hvalid, ?_⟩
    · rintro rfl
      exact Split.split_ne_nil '/' _ hsegs
    · rw [chainPath, ← hsegs, Split.join_split, String.ofList_toList]
  · rintro ⟨hne, hvalid, rfl⟩
    refine ⟨(), demand_ok.mpr (fun hempty => ?_), ?_⟩
    · have hsplit := split_chainPath hne
      rw [hempty] at hsplit
      obtain ⟨n, c, rfl⟩ := List.exists_cons_of_ne_nil hne
      exact absurd (List.cons.inj hsplit).1 (by decide)
    · rw [split_chainPath hne]
      exact parseSegments_chain chain 0 hvalid

/-! ## Candidates -/

theorem join_chain_concat (c : List (List Char)) (n : List Char) :
    Split.join '/' (chainSegments (c ++ [n])) = if c = [] then nodeModules ++ '/' :: n
      else Split.join '/' (chainSegments c) ++ '/' :: (nodeModules ++ '/' :: n) := by
  have hone : Split.join '/' (chainSegments [n]) = nodeModules ++ '/' :: n := by
    rw [chainSegments_cons, Split.join_cons (by
      exact List.append_ne_nil_of_left_ne_nil (Split.split_ne_nil '/' n) _)]
    rw [show chainSegments [] = [] from rfl, List.append_nil, Split.join_split]
  split
  · next hc => rw [hc, List.nil_append, hone]
  · next hc =>
      rw [chainSegments_append, Split.join_append (chainSegments_ne_nil hc)
        (chainSegments_ne_nil (List.cons_ne_nil n [])), hone]

theorem join_chain_eq_nil : (Split.join '/' (chainSegments c)).length = 0 ↔ c = [] := by
  constructor
  · intro h
    by_contra hc
    have hsplit := Split.split_join (chainSegments_ne_nil hc) chainSegments_slash
    rw [List.length_eq_zero_iff.mp h] at hsplit
    obtain ⟨n, c, rfl⟩ := List.exists_cons_of_ne_nil hc
    exact absurd (List.cons.inj hsplit).1 (by decide)
  · rintro rfl
    rfl

theorem candidate_chain (c : List (List Char)) (n : List Char) :
    String.ofList (candidate (chainSegments c) n) = chainPath (c ++ [n]) := by
  rw [candidate, chainPath, join_chain_concat]
  simp only [join_chain_eq_nil]

/-- **Stripping a package** takes the last name of the chain away. -/
theorem stripPackage_chain (hn : npmPackageName n = true) :
    stripPackage (chainSegments (c ++ [n])) = chainSegments c := by
  rw [chainSegments_append, chainSegments_cons, show chainSegments [] = [] from rfl,
    List.append_nil, stripPackage]
  rcases npmPackageName_segments hn with ⟨hsplit, _⟩ | ⟨s, t, _, hhead, hsplit⟩
  · have hlen : (chainSegments c ++ nodeModules :: Split.split '/' n).length =
        (chainSegments c).length + 2 := by
      rw [hsplit, List.length_append]
      rfl
    have hat : (chainSegments c ++ nodeModules :: Split.split '/' n)[(chainSegments c).length]? =
        some nodeModules := by
      rw [List.getElem?_append_right (Nat.le_refl _), Nat.sub_self]
      rfl
    have hunscoped : ¬ (3 ≤ (chainSegments c).length + 2 ∧
        (some nodeModules).bind List.head? = some '@') := fun h => absurd h.2 (by decide)
    simp only [hlen, Nat.add_sub_cancel, hat, if_neg hunscoped, List.take_left]
  · have hlen : (chainSegments c ++ nodeModules :: Split.split '/' n).length =
        (chainSegments c).length + 3 := by
      rw [hsplit, List.length_append]
      rfl
    have hat : (chainSegments c ++ nodeModules :: Split.split '/' n)[(chainSegments c).length + 3 - 2]? =
        some s := by
      rw [List.getElem?_append_right (by omega), hsplit]
      have hone : (chainSegments c).length + 3 - 2 - (chainSegments c).length = 1 := by omega
      rw [hone]
      rfl
    have hisScoped : 3 ≤ (chainSegments c).length + 3 ∧ (some s).bind List.head? = some '@' :=
      ⟨by omega, hhead⟩
    simp only [hlen, hat, if_pos hisScoped, Nat.add_sub_cancel, List.take_left]

theorem mem_candidatesFrom {q : List Char} (c : List (List Char)) : ∀ fuel, ValidChain c →
    c.length ≤ fuel → (q ∈ candidatesFrom n fuel (chainSegments c) ↔
        ∃ outer, outer <+: c ∧ q = candidate (chainSegments outer) n) := by
  induction c using List.reverseRecOn with
  | nil =>
    intro fuel _ _
    have hone : candidatesFrom n fuel (chainSegments []) = [candidate (chainSegments []) n] := by
      cases fuel <;> rfl
    rw [hone, List.mem_singleton]
    constructor
    · exact fun h => ⟨[], List.prefix_refl [], h⟩
    · rintro ⟨outer, houter, h⟩
      rw [List.prefix_nil.mp houter] at h
      exact h
  | append_singleton c m ih =>
    intro fuel hvalid hfuel
    have hm : npmPackageName m = true := hvalid m (by simp)
    have hc : ValidChain c := fun x hx => hvalid x (List.mem_append_left _ hx)
    rw [List.length_append, List.length_singleton] at hfuel
    obtain ⟨fuel, rfl⟩ : ∃ k, fuel = k + 1 := ⟨fuel - 1, by omega⟩
    have hne : (chainSegments (c ++ [m])).length ≠ 0 := fun hz =>
      chainSegments_ne_nil (by simp) (List.length_eq_zero_iff.mp hz)
    rw [candidatesFrom, if_neg hne, stripPackage_chain hm, List.mem_cons, ih fuel hc (by omega)]
    constructor
    · rintro (h | ⟨outer, houter, h⟩)
      · exact ⟨c ++ [m], List.prefix_refl _, h⟩
      · exact ⟨outer, houter.trans (List.prefix_append c [m]), h⟩
    · rintro ⟨outer, houter, h⟩
      rcases List.prefix_concat_iff.mp houter with rfl | houter
      · exact .inl h
      · exact .inr ⟨outer, houter, h⟩

theorem length_le_chainSegments (c : List (List Char)) : c.length ≤ (chainSegments c).length := by
  induction c with
  | nil => exact Nat.le_refl 0
  | cons n c ih =>
    rw [chainSegments_cons, List.length_cons, List.length_cons, List.length_append]
    omega

/-- **Where Node may look** from a package: below any chain it lies in, its own included. -/
theorem mem_candidates_iff (hne : c ≠ []) (hvalid : ValidChain c)
    {name path : String} : path ∈ nodeResolutionCandidates (some (chainPath c)) name ↔
      ∃ outer, outer <+: c ∧ path = chainPath (outer ++ [name.toList]) := by
  rw [nodeResolutionCandidates, split_chainPath hne, List.mem_map]
  constructor
  · rintro ⟨q, hq, rfl⟩
    obtain ⟨outer, houter, rfl⟩ :=
      (mem_candidatesFrom c _ hvalid (length_le_chainSegments c)).mp hq
    exact ⟨outer, houter, candidate_chain outer _⟩
  · rintro ⟨outer, houter, rfl⟩
    exact ⟨_, (mem_candidatesFrom c _ hvalid (length_le_chainSegments c)).mpr
      ⟨outer, houter, rfl⟩, candidate_chain outer _⟩

theorem mem_candidates_root {name path : String} :
    path ∈ nodeResolutionCandidates none name ↔ path = chainPath [name.toList] := by
  rw [nodeResolutionCandidates, List.mem_singleton, chainPath, ← List.nil_append [name.toList],
    join_chain_concat, if_pos rfl]

end ExtMatPlan
