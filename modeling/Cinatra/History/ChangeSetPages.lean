import Mathlib.Data.Prod.Lex
import Mathlib.Data.String.Basic
import Cinatra.History.ObjectRows
import Cinatra.Lib.Paging

/-! # ChangeSetPages — the list of change sets, page by page

    A page is in the order of the times the change sets were opened, and the cursor
    leaves out by id.  `pages_complete_iff` says when calling for page after page shows
    each change set once, newest first. -/

namespace History

/-- A row of `change_set`, its times in microseconds. -/
structure ChangeSetRecord where
  id : String
  orgId : Option String := none
  openedAt : Int
  closedAt : Option Int := none
  closureReason : Option String := none
  actorId : Option String := none
  actorKind : Option String := none
  runId : Option String := none
  toolCallId : Option String := none
  actionId : Option String := none
  effectRollup : HistoryEffect := .reversibleInternal
  restorable : Bool := true
  restorableReason : Option String := none
  parentChangeSetId : Option String := none
  restoreOfChangeSetId : Option String := none
  createdBy : Option String := none
  createdAt : Int := openedAt
  updatedAt : Int := openedAt
deriving DecidableEq

/-- The table, under its primary key, and the events of its change sets. -/
structure ChangeSetTable where
  rows : List ChangeSetRecord
  keyed : (rows.map ChangeSetRecord.id).Nodup
  events : List ObjectChangeEvent := []

/-- What the database reads in a text: its place in the collation, which is
    deterministic, and the time an ISO text names. -/
structure DbTexts (κ : Type) where
  collate : String ↪ κ
  timestamptz : String → Int

structure ListChangeSetsFilter where
  /-- `some none` is `null`. -/
  orgId : Option (Option String) := none
  runId : Option String := none
  limit : Option Int := none
  cursor : Option String := none
  objectId : Option String := none
  actorId : Option String := none
  effectRollup : Option HistoryEffect := none
  restorable : Option Bool := none
  createdAfter : Option String := none
  createdBefore : Option String := none
  closedAtAfter : Option String := none

/-- A text a filter acts on; an empty one is no filter. -/
def givenText (x : Option String) : Option String := x.filter (fun s => s ≠ "")

section Listing

variable {κ : Type} [LinearOrder κ] (texts : DbTexts κ)

/-- The conditions of a filter, its cursor apart. -/
def matchesFilter (db : ChangeSetTable) (filter : ListChangeSetsFilter) (r : ChangeSetRecord) :
    Bool :=
  filter.orgId.all (fun orgId => r.orgId = orgId) &&
  (givenText filter.runId).all (fun runId => r.runId = some runId) &&
  (givenText filter.actorId).all (fun actorId => r.actorId = some actorId) &&
  filter.effectRollup.all (fun effect => r.effectRollup = effect) &&
  filter.restorable.all (fun restorable => r.restorable = restorable) &&
  (givenText filter.createdAfter).all (fun t => texts.timestamptz t < r.openedAt) &&
  (givenText filter.createdBefore).all (fun t => r.openedAt < texts.timestamptz t) &&
  (givenText filter.closedAtAfter).all
    (fun t => r.closedAt.any (fun closedAt => texts.timestamptz t < closedAt)) &&
  (givenText filter.objectId).all
    (fun objectId => db.events.any (fun e => e.changeSetId = r.id && e.objectId = objectId))

/-- `id < cursor`. -/
def behindCursor (cursor : Option String) (r : ChangeSetRecord) : Bool :=
  (givenText cursor).all (fun c => texts.collate r.id < texts.collate c)

/-- `opened_at`, then `id`. -/
def recency (r : ChangeSetRecord) : Int ×ₗ κ := toLex (r.openedAt, texts.collate r.id)

/-- `ORDER BY opened_at DESC, id DESC`. -/
def newestFirst (rows : List ChangeSetRecord) : List ChangeSetRecord :=
  rows.insertionSort (fun a b => recency texts b ≤ recency texts a)

def pageLimit (filter : ListChangeSetsFilter) : Nat := (min (max (filter.limit.getD 50) 1) 200).toNat

def listChangeSets (db : ChangeSetTable) (filter : ListChangeSetsFilter) : List ChangeSetRecord :=
  (newestFirst texts (db.rows.filter
    (fun r => matchesFilter texts db filter r && behindCursor texts filter.cursor r))).take
      (pageLimit filter)

/-- Call with the last id as the cursor until a page is empty, so many times at most. -/
def listPages (db : ChangeSetTable) (filter : ListChangeSetsFilter) :
    Nat → Option String → Option (List ChangeSetRecord)
  | 0, _ => none
  | calls + 1, cursor =>
    let page := listChangeSets texts db { filter with cursor := cursor }
    match page.getLast? with
    | none => some []
    | some last => (listPages db filter calls (some last.id)).map (page ++ ·)

/-- Every matching change set, newest first. -/
def matching (db : ChangeSetTable) (filter : ListChangeSetsFilter) : List ChangeSetRecord :=
  newestFirst texts (db.rows.filter (matchesFilter texts db filter))

end Listing

/-! ## Order -/

section Order

variable {κ : Type} [LinearOrder κ] {texts : DbTexts κ}

theorem newestFirst_perm (rows : List ChangeSetRecord) : (newestFirst texts rows).Perm rows :=
  List.perm_insertionSort _ _

theorem newestFirst_sorted (rows : List ChangeSetRecord) :
    (newestFirst texts rows).Pairwise (fun a b => recency texts b ≤ recency texts a) := by
  let le : ChangeSetRecord → ChangeSetRecord → Prop := fun a b => recency texts b ≤ recency texts a
  have : Std.Total le := ⟨fun a b => le_total _ _⟩
  have : IsTrans ChangeSetRecord le := ⟨fun _ _ _ h h' => le_trans h' h⟩
  exact List.pairwise_insertionSort le rows

variable {db : ChangeSetTable}

theorem eq_of_recency {a b : ChangeSetRecord} (ha : a ∈ db.rows)
    (hb : b ∈ db.rows) (h : recency texts b ≤ recency texts a)
    (h' : recency texts a ≤ recency texts b) : a = b := by
  have heq := congrArg (fun x => (ofLex x).2) (le_antisymm h' h)
  exact RowTable.eq_of_key db.keyed ha hb (texts.collate.injective heq)

theorem filter_newestFirst (db : ChangeSetTable) (p q : ChangeSetRecord → Bool) :
    (newestFirst texts (db.rows.filter q)).filter p =
      newestFirst texts (db.rows.filter (fun r => q r && p r)) := by
  refine List.Perm.eq_of_pairwise ?_ ((newestFirst_sorted _).filter p) (newestFirst_sorted _) ?_
  · intro a b ha hb h h'
    have ha' := (newestFirst_perm _).mem_iff.mp (List.mem_of_mem_filter ha)
    have hb' := (newestFirst_perm _).mem_iff.mp hb
    exact eq_of_recency (List.mem_of_mem_filter ha') (List.mem_of_mem_filter hb') h h'
  · refine ((newestFirst_perm _).filter p).trans ((newestFirst_perm _).trans ?_).symm
    rw [List.filter_filter]
    exact List.Perm.of_eq (List.filter_congr (fun r _ => Bool.and_comm _ _))

theorem matching_rows {filter : ListChangeSetsFilter} {r : ChangeSetRecord}
    (h : r ∈ matching texts db filter) : r ∈ db.rows :=
  List.mem_of_mem_filter ((newestFirst_perm _).mem_iff.mp h)

theorem matching_nodup (db : ChangeSetTable) (filter : ListChangeSetsFilter) :
    (matching texts db filter).Nodup :=
  (newestFirst_perm _).nodup_iff.mpr ((List.Nodup.of_map _ db.keyed).filter _)

end Order

/-! ## Pages -/

section Pages

variable {κ : Type} [LinearOrder κ] {texts : DbTexts κ} {db : ChangeSetTable}
  {filter : ListChangeSetsFilter}

variable (texts) in
/-- What a call behind `c` may still show. -/
def laterThan (c x : ChangeSetRecord) : Bool := behindCursor texts (some c.id) x

theorem laterThan_iff {c x : ChangeSetRecord} :
    laterThan texts c x = true ↔ c.id = "" ∨ texts.collate x.id < texts.collate c.id := by
  rw [laterThan, behindCursor, givenText, Option.filter_some]
  by_cases h : c.id = ""
  · simp [h]
  · simp [h]

theorem pageLimit_pos (filter : ListChangeSetsFilter) : 0 < pageLimit filter := by
  rw [pageLimit]
  omega

theorem listChangeSets_eq (cursor : Option ChangeSetRecord) :
    listChangeSets texts db { filter with cursor := cursor.map ChangeSetRecord.id } =
      (Paging.behind (laterThan texts) (matching texts db filter) cursor).take (pageLimit filter) := by
  cases cursor with
  | none =>
    have hall : (fun r => matchesFilter texts db filter r && behindCursor texts none r) =
        matchesFilter texts db filter := funext (fun r => Bool.and_true _)
    exact congrArg (fun p => (newestFirst texts (db.rows.filter p)).take (pageLimit filter)) hall
  | some c =>
    exact congrArg (List.take (pageLimit filter))
      (filter_newestFirst db (laterThan texts c) (matchesFilter texts db filter)).symm

theorem listPages_eq (calls : Nat) (cursor : Option ChangeSetRecord) :
    listPages texts db filter calls (cursor.map ChangeSetRecord.id) =
      Paging.read (laterThan texts) (pageLimit filter) (matching texts db filter) calls cursor := by
  induction calls generalizing cursor with
  | zero => rfl
  | succ calls ih =>
    rw [listPages, Paging.read, listChangeSets_eq]
    cases h : ((Paging.behind (laterThan texts) (matching texts db filter) cursor).take
        (pageLimit filter)).getLast? with
    | none => rfl
    | some last => exact congrArg (Option.map _) (ih (some last))

theorem laterThan_eq_false {c x : ChangeSetRecord} :
    laterThan texts c x = false ↔ c.id ≠ "" ∧ texts.collate c.id ≤ texts.collate x.id := by
  rw [← Bool.not_eq_true, laterThan_iff, not_or, not_lt]

theorem laterThan_trans (c d x : ChangeSetRecord) (_ : laterThan texts c c = false)
    (hd : laterThan texts d d = false) (hcd : laterThan texts c d = true)
    (hdx : laterThan texts d x = true) : laterThan texts c x = true := by
  rw [laterThan_iff] at hcd hdx ⊢
  have hd' := (laterThan_eq_false.mp hd).1
  exact hcd.imp_right (lt_trans (hdx.resolve_left hd'))

/-- Every change set that ends a page has an id, smaller than those before it and larger
    than those behind it. -/
def PageEndsById (texts : DbTexts κ) (db : ChangeSetTable) (filter : ListChangeSetsFilter) : Prop :=
  ∀ newer last older, matching texts db filter = newer ++ last :: older →
    (pageLimit filter ∣ newer.length + 1 ∨ older = []) →
    last.id ≠ "" ∧ (∀ r ∈ newer, texts.collate last.id < texts.collate r.id) ∧
      ∀ r ∈ older, texts.collate r.id < texts.collate last.id

/-- An id that parts the list is one smaller than those before it, larger than those behind. -/
theorem parts_iff {newer older : List ChangeSetRecord} {last : ChangeSetRecord}
    (h : matching texts db filter = newer ++ last :: older) :
    Paging.Parts (laterThan texts) newer last older ↔
      last.id ≠ "" ∧ (∀ r ∈ newer, texts.collate last.id < texts.collate r.id) ∧
        ∀ r ∈ older, texts.collate r.id < texts.collate last.id := by
  constructor
  · intro hp
    have hid := (laterThan_eq_false.mp hp.self).1
    refine ⟨hid, fun r hr => ?_, fun r hr => (laterThan_iff.mp (hp.after r hr)).resolve_left hid⟩
    refine lt_of_le_of_ne (laterThan_eq_false.mp (hp.before r hr)).2 (fun heq => ?_)
    -- the primary key
    have hmem : ∀ x, x ∈ newer ++ last :: older → x ∈ db.rows :=
      fun x hx => matching_rows (h ▸ hx)
    have hsame := RowTable.eq_of_key db.keyed (hmem last (by simp)) (hmem r (by simp [hr]))
      (texts.collate.injective heq)
    have hnd : (matching texts db filter).Nodup := matching_nodup db filter
    rw [h] at hnd
    exact List.disjoint_of_nodup_append hnd (hsame ▸ hr) (.head _)
  · rintro ⟨hid, hnewer, holder⟩
    exact ⟨laterThan_eq_false.mpr ⟨hid, le_refl _⟩,
      fun r hr => laterThan_eq_false.mpr ⟨hid, (hnewer r hr).le⟩,
      fun r hr => laterThan_iff.mpr (.inr (holder r hr))⟩

theorem pageEndsPart_iff :
    Paging.PageEndsPart (laterThan texts) (pageLimit filter) (matching texts db filter) ↔
      PageEndsById texts db filter := by
  constructor
  · intro h newer last older hsplit hend
    exact (parts_iff hsplit).mp (h newer last older hsplit hend)
  · intro h newer last older hsplit hend
    exact (parts_iff hsplit).mpr (h newer last older hsplit hend)

variable (texts db filter) in
/-- The pages put together are the matching change sets, each once, newest first. -/
def ShowsEach : Prop := ∃ calls, listPages texts db filter calls none = some (matching texts db filter)

theorem showsEach_iff_parts : ShowsEach texts db filter ↔
      Paging.PageEndsPart (laterThan texts) (pageLimit filter) (matching texts db filter) := by
  rw [← Paging.read_iff (pageLimit_pos filter) (matching_nodup db filter) laterThan_trans]
  exact exists_congr (fun calls => by rw [← listPages_eq calls none]; rfl)

variable (texts db filter) in
/-- **Paging shows every matching change set once, newest first, exactly when** the ids fall
    at the ends of the pages. -/
theorem pages_complete_iff : ShowsEach texts db filter ↔ PageEndsById texts db filter :=
  showsEach_iff_parts.trans pageEndsPart_iff

end Pages

/-- A change set opened after another of a larger id. -/
def outOfOrder : ChangeSetTable where
  rows := [{ id := "cs_a", openedAt := 2 }, { id := "cs_b", openedAt := 1 }]
  keyed := by decide

theorem second_page_lost :
    ¬ ∀ (texts : DbTexts String) (db : ChangeSetTable) (filter : ListChangeSetsFilter),
      ShowsEach texts db filter := by
  intro h
  let texts : DbTexts String := ⟨Function.Embedding.refl String, fun _ => 0⟩
  have hsplit : matching texts outOfOrder { limit := some 1 } =
      [] ++ { id := "cs_a", openedAt := 2 } :: [{ id := "cs_b", openedAt := 1 }] := by
    decide +kernel
  have hparts := showsEach_iff_parts.mp (h texts outOfOrder { limit := some 1 }) _ _ _ hsplit
    (.inl ⟨1, rfl⟩)
  have hlater := laterThan_iff.mp (hparts.after _ (.head _))
  exact absurd hlater (by decide)

end History
