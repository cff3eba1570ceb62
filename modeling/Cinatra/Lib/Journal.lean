import Mathlib.Data.List.Chain
import Mathlib.Data.List.Nodup

/-! # Journal — a log of records that are numbered key by key

    A log is written at its end.  Its records have a key, and those of one key are
    numbered from one, in the order of the log and without a gap (`Numbered`); what
    each hands on to the next of its key is a relation (`Linked`).  Both are kept by
    one lemma about the record that is appended. -/

namespace Journal

variable {E κ : Type} [DecidableEq κ] {key : E → κ} {num : E → Nat} {R : E → E → Prop}
  {log : List E} {e e' : E} {k : κ} {m : Nat}

/-- The records of a key, in the order of the log. -/
def records (key : E → κ) (log : List E) (k : κ) : List E := log.filter (fun e => key e = k)

/-- The records of each key are numbered from one, without a gap. -/
def Numbered (key : E → κ) (num : E → Nat) (log : List E) : Prop :=
  ∀ k, (records key log k).map num = List.range' 1 (records key log k).length

/-- Each record and the next of its key are related. -/
def Linked (key : E → κ) (R : E → E → Prop) (log : List E) : Prop :=
  ∀ k, (records key log k).IsChain R

theorem mem_records : e ∈ records key log k ↔ e ∈ log ∧ key e = k := by
  rw [records, List.mem_filter, decide_eq_true_eq]

theorem records_append_self : records key (log ++ [e]) (key e) = records key log (key e) ++ [e] := by
  rw [records, List.filter_append, List.filter_singleton, decide_eq_true rfl]
  rfl

theorem records_append_of_ne (h : key e ≠ k) : records key (log ++ [e]) k = records key log k := by
  rw [records, List.filter_append, List.filter_singleton, decide_eq_false h, records]
  exact List.append_nil _

theorem records_grow {log' : List E} (h : log <+: log') :
    records key log k <+: records key log' k := h.filter _

/-! ## Numbers -/

theorem numbered_nil : Numbered key num ([] : List E) := fun _ => rfl

section

variable (h : Numbered key num log)

include h

theorem Numbered.append
    (hnum : num e = (records key log (key e)).length + 1) : Numbered key num (log ++ [e]) := by
  intro k
  by_cases hk : key e = k
  · rw [← hk, records_append_self, List.map_append, h (key e), List.length_append,
      List.length_singleton, List.range'_1_concat, List.map_singleton, hnum, Nat.add_comm 1]
  · rw [records_append_of_ne hk]
    exact h k

theorem Numbered.mem_iff :
    (∃ e ∈ log, key e = k ∧ num e = m) ↔ 1 ≤ m ∧ m ≤ (records key log k).length := by
  have hmem : m ∈ (records key log k).map num ↔ 1 ≤ m ∧ m ≤ (records key log k).length := by
    rw [h k, List.mem_range'_1]
    omega
  rw [← hmem, List.mem_map]
  constructor
  · rintro ⟨e, he, hk, hm⟩
    exact ⟨e, mem_records.mpr ⟨he, hk⟩, hm⟩
  · rintro ⟨e, he, hm⟩
    obtain ⟨he, hk⟩ := mem_records.mp he
    exact ⟨e, he, hk, hm⟩

theorem Numbered.eq_of (he : e ∈ log) (he' : e' ∈ log)
    (hkey : key e = key e') (hnum : num e = num e') : e = e' := by
  have hnodup : ((records key log (key e)).map num).Nodup := by
    rw [h (key e)]
    exact List.nodup_range'
  exact List.inj_on_of_nodup_map hnodup (mem_records.mpr ⟨he, rfl⟩)
    (mem_records.mpr ⟨he', hkey.symm⟩) hnum

theorem Numbered.next (hnew : ∀ e ∈ log, key e = k → num e ≠ m)
    (hpos : 1 ≤ m) (hle : m ≤ (records key log k).length + 1) :
    m = (records key log k).length + 1 := by
  by_contra hne
  obtain ⟨e, he, hk, hm⟩ := h.mem_iff.mpr ⟨hpos, Nat.le_of_lt_succ (Nat.lt_of_le_of_ne hle hne)⟩
  exact hnew e he hk hm

theorem Numbered.last (hlast : (records key log k).getLast? = some e) :
    num e = (records key log k).length := by
  have hlast' : ((records key log k).map num).getLast? = some (num e) := by
    rw [List.getLast?_map, hlast, Option.map_some]
  rw [h k, List.getLast?_range'] at hlast'
  split at hlast'
  · cases hlast'
  · have := Option.some.inj hlast'
    omega

end

theorem linked_nil : Linked key R ([] : List E) := fun _ => List.IsChain.nil

theorem Linked.append (h : Linked key R log)
    (hlast : ∀ last ∈ (records key log (key e)).getLast?, R last e) :
    Linked key R (log ++ [e]) := by
  intro k
  by_cases hk : key e = k
  · rw [← hk, records_append_self, List.isChain_append]
    refine ⟨h (key e), List.isChain_singleton e, ?_⟩
    rintro last hmem _ ⟨⟩
    exact hlast last hmem
  · rw [records_append_of_ne hk]
    exact h k

end Journal
