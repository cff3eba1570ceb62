import Cinatra.History.InverseChain
import Cinatra.History.Undo
import Cinatra.History.Writers
import Cinatra.Lib.Journal

/-! # GapFree — the history of an object as a chain

    The versions of an object are numbered by its own row, and the sequences of a
    change set by the unique index, whatever else goes on: these two numberings hold
    in every run (`Chained`).  The row before is another matter, as a write takes it
    from what it has read earlier and a restore from older events; the snapshots hand
    on to one another where what is carried is what is found. -/

namespace History

open Process Machine RowTable Journal

/-- The events of an object, in the order in which they took effect. -/
def Db.historyOf (db : Db) (id : String) : List ObjectChangeEvent :=
  records ObjectChangeEvent.objectId db.events id

/-- The events of a change set, in the order in which they took effect. -/
def Db.setOf (db : Db) (id : String) : List ObjectChangeEvent :=
  records ObjectChangeEvent.changeSetId db.events id

/-- The snapshot before is the snapshot after of the event it follows. -/
def HandsOn (e e' : ObjectChangeEvent) : Prop := e'.beforeSnapshot = e.afterSnapshot

/-- The history of every object is a chain without gaps; a create has no base. -/
structure GapFree (db : Db) : Prop where
  keyed : db.Keyed
  versions : Numbered ObjectChangeEvent.objectId ObjectChangeEvent.resultVersion db.events
  version : ∀ id r, db.object id = some r → r.version = (db.historyOf id).length
  bases : ∀ e ∈ db.events, e.baseVersion.getD 0 + 1 = e.resultVersion
  last : ∀ id, db.object id = (db.historyOf id).getLast?.bind ObjectChangeEvent.afterSnapshot
  handsOn : Linked ObjectChangeEvent.objectId HandsOn db.events
  sequences : Numbered ObjectChangeEvent.changeSetId ObjectChangeEvent.sequence db.events

/-- What of it holds in every run. -/
structure Chained (db : Db) : Prop where
  keyed : db.Keyed
  versions : Numbered ObjectChangeEvent.objectId ObjectChangeEvent.resultVersion db.events
  bases : ∀ e ∈ db.events, e.baseVersion.getD 0 + 1 = e.resultVersion
  last : ∀ id, db.object id = (db.historyOf id).getLast?.bind ObjectChangeEvent.afterSnapshot
  shows : ∀ e ∈ db.events, ∃ row, e.afterSnapshot = some row ∧ row.id = e.objectId ∧
    row.version = e.resultVersion
  sequences : Numbered ObjectChangeEvent.changeSetId ObjectChangeEvent.sequence db.events

section Chained

variable {db : Db} (h : Chained db)

include h

variable {id : String} {r : ObjectRow}

theorem Chained.shown (hr : db.object id = some r) :
    ∃ e, (db.historyOf id).getLast? = some e ∧ e.afterSnapshot = some r := by
  rw [h.last, Option.bind_eq_some_iff] at hr
  exact hr

theorem Chained.version (hr : db.object id = some r) : r.version = (db.historyOf id).length := by
  obtain ⟨e, hlast, hafter⟩ := h.shown hr
  have he := mem_records.mp (List.mem_of_getLast? hlast)
  obtain ⟨row, hrow, _, hversion⟩ := h.shows e he.1
  cases hafter.symm.trans hrow
  rw [hversion]
  exact h.versions.last hlast

theorem Chained.unwritten (hr : db.object id = none) : db.historyOf id = [] := by
  rw [h.last] at hr
  cases hlast : (db.historyOf id).getLast? with
  | none => exact List.getLast?_eq_none_iff.mp hlast
  | some e =>
    obtain ⟨row, hrow, _⟩ := h.shows e (mem_records.mp (List.mem_of_getLast? hlast)).1
    rw [hlast, Option.bind_some, hrow] at hr
    cases hr

theorem Chained.gapFree
    (hlinked : Linked ObjectChangeEvent.objectId HandsOn db.events) : GapFree db :=
  ⟨h.keyed, h.versions, fun _ _ => h.version, h.bases, h.last, hlinked, h.sequences⟩

end Chained

/-! ## One statement -/

theorem record_reports (s : Statement) (row : ObjectRow) :
    (s.record row).objectId = row.id ∧ (s.record row).resultVersion = row.version ∧
      (s.record row).afterSnapshot = some row ∧ (s.record row).baseVersion = s.asks ∧
      (s.record row).beforeSnapshot = s.before ∧ (s.record row).changeSetId = s.event.changeSetId ∧
      (s.record row).sequence = s.event.sequence := by
  cases s with
  | create | update | softDelete | undelete => exact ⟨rfl, rfl, rfl, rfl, rfl, rfl, rfl⟩

variable {s : Statement}

theorem Statement.finds_asks {r : ObjectRow} (h : s.finds r = true) : s.asks = some r.version := by
  cases s with
  | create args => cases h
  | update args version before =>
    simp only [finds, Bool.and_eq_true, decide_eq_true_eq] at h
    rw [asks, h.1.2]
  | softDelete | undelete =>
    simp only [finds, Bool.and_eq_true, decide_eq_true_eq] at h
    rw [asks, h.1.1.2]

section Wrote

variable {s : Statement} {db db' : Db} {row : ObjectRow}

/-- The version a statement leaves is the next one, and one more than it asks for. -/
theorem Wrote.next_version (h : Wrote s db db' row) (hchain : Chained db) :
    row.version = (db.historyOf row.id).length + 1 ∧ s.asks.getD 0 + 1 = row.version := by
  rcases h.objects with ⟨args, rfl, rfl, hnew, _⟩ | ⟨r, hfind, rfl, _⟩
  · have hnone : db.object args.id = none := by
      rw [Db.object, List.find?_eq_none]
      intro r hr
      rw [decide_eq_true_eq]
      exact hnew r hr
    have hnil := hchain.unwritten hnone
    refine ⟨?_, rfl⟩
    rw [show (insertedRow args).id = args.id from rfl, hnil]
    rfl
  · obtain ⟨hobject, hfinds⟩ := (find_finds hchain.keyed).mp hfind
    rw [Statement.sets_id, Statement.sets_version hfinds, Statement.finds_asks hfinds,
      object_id hobject, hchain.version hobject]
    exact ⟨rfl, rfl⟩

/-- **A statement keeps the numberings**, given a sequence that is at most the next one. -/
theorem Wrote.chained (h : Wrote s db db' row) (hchain : Chained db)
    (hpos : 1 ≤ (s.record row).sequence)
    (hsequence : (s.record row).sequence ≤ (db.setOf (s.record row).changeSetId).length + 1) :
    Chained db' := by
  obtain ⟨hid, hresult, hafter, hbase, _, _, _⟩ := record_reports s row
  obtain ⟨hversion, hasks⟩ := h.next_version hchain
  refine ⟨h.keyed hchain.keyed, ?_, ?_, fun id => ?_, ?_, ?_⟩
  · rw [h.events]
    refine hchain.versions.append ?_
    rw [hresult, hid]
    exact hversion
  · intro e he
    rw [h.events, List.mem_append, List.mem_singleton] at he
    rcases he with he | rfl
    · exact hchain.bases e he
    · rw [hbase, hresult]
      exact hasks
  · rw [h.object hchain.keyed, ← h.row_id, Db.historyOf, h.events]
    by_cases hsame : id = row.id
    · rw [if_pos hsame, hsame, ← hid, records_append_self, List.getLast?_append,
        List.getLast?_singleton, Option.some_or, Option.bind_some, hafter]
    · rw [if_neg hsame, records_append_of_ne (by rw [hid]; exact Ne.symm hsame)]
      exact hchain.last id
  · intro e he
    rw [h.events, List.mem_append, List.mem_singleton] at he
    rcases he with he | rfl
    · exact hchain.shows e he
    · exact ⟨row, hafter, hid.symm, hresult.symm⟩
  · rw [h.events]
    refine hchain.sequences.append ?_
    refine hchain.sequences.next (fun e he hset hsame => ?_) hpos hsequence
    have hclash := h.unique e he
    rw [clashes, Bool.or_eq_false_iff, Bool.and_eq_false_iff, decide_eq_false_iff_not,
      decide_eq_false_iff_not] at hclash
    rcases hclash.2 with hne | hne
    · exact hne hset.symm
    · exact hne hsame.symm

/-- A statement that carries the row it finds hands the snapshots on. -/
theorem Wrote.handsOn (h : Wrote s db db' row) (hchain : Chained db)
    (hlinked : Linked ObjectChangeEvent.objectId HandsOn db.events)
    (hcarries : ∀ r, db.object s.objectId = some r → s.finds r = true → s.before = some r) :
    Linked ObjectChangeEvent.objectId HandsOn db'.events := by
  obtain ⟨hid, _, _, _, hbefore, _, _⟩ := record_reports s row
  rw [h.events]
  refine hlinked.append fun last hlast => ?_
  rw [HandsOn, hbefore]
  rw [hid, h.row_id] at hlast
  obtain ⟨r, hafter, _⟩ := hchain.shows last (mem_records.mp (List.mem_of_getLast? hlast)).1
  have hobject : db.object s.objectId = some r := by
    rw [hchain.last, Db.historyOf, Option.mem_def.mp hlast]
    exact hafter
  rw [hafter]
  rcases h.objects with ⟨args, rfl, _, hnew, _⟩ | ⟨r', hfind, _, _⟩
  · exact absurd (object_id hobject) (hnew r (List.mem_of_find?_eq_some hobject))
  · obtain ⟨hobject', hfinds⟩ := (find_finds hchain.keyed).mp hfind
    cases hobject.symm.trans hobject'
    exact hcarries r hobject hfinds

end Wrote

/-- The row before that an inverse carries, of an object at some version. -/
def carried (event : ObjectChangeEvent) (version : Nat) : Option ObjectRow :=
  match event.operation with
  | .create => event.afterSnapshot
  | .update => event.afterSnapshot.map (fun r => { r with version := version })
  | _ => event.afterSnapshot.map (fun r => { r with version := version, deleted := true })

/-- The event has left the row that its inverse finds. -/
def Carries (event : ObjectChangeEvent) (r : ObjectRow) : Prop :=
  carried event r.version = some r

theorem build_before {event : ObjectChangeEvent} {ctx : InverseContext}
    {deleted : Bool} (h : buildInverseStatement event ctx = .ok (s, deleted)) :
    s.before = carried event ctx.currentVersion := by
  rcases build_cases h with ⟨hop, _, rfl⟩ | ⟨_, hop, _, _, rfl⟩ | ⟨_, hop | hop, _, _, rfl⟩
  · rw [carried, hop]
    rfl
  · rw [carried, hop]
    rfl
  · rw [carried, hop]
    exact Option.map_map _ _ _
  · rw [carried, hop]
    exact Option.map_map _ _ _

variable {statements : List Statement} {db db' : Db}

/-- **A restore's transaction keeps the numberings, and hands the snapshots on where it carries
    the rows it finds.** -/
theorem restore_chained {ids : RestoreIds} {actor : HistoryActor}
    {events : List ObjectChangeEvent} {seq : Nat} {trackers : Trackers}
    (hbuilt : buildInverses ids actor events.reverse seq trackers = .statements statements)
    (hchain : Chained db) (hseq : seq ≤ (db.setOf ids.changeSetId).length)
    (h : transaction db statements = .ok db') : Chained db' ∧ (AtTurn Carries actor events db →
      Linked ObjectChangeEvent.objectId HandsOn db.events →
      Linked ObjectChangeEvent.objectId HandsOn db'.events) := by
  induction events using List.reverseRecOn generalizing seq trackers statements db with
  | nil =>
    rw [List.reverse_nil, buildInverses] at hbuilt
    cases hbuilt
    rw [transaction_nil h]
    exact ⟨hchain, fun _ hlinked => hlinked⟩
  | append_singleton events event ih =>
    rw [List.reverse_append, List.reverse_singleton, List.singleton_append] at hbuilt
    obtain ⟨tracked, s, deleted, ss, _, hs, rfl, hrest⟩ := buildInverses_cons hbuilt
    obtain ⟨db₁, happly, hthen⟩ := transaction_cons h
    obtain ⟨row, hwrote⟩ := apply_ok happly
    obtain ⟨_, _, hset, hsequence⟩ := build_record hs row
    have hsequence' : (s.record row).sequence = seq + 1 := hsequence
    have hchain₁ : Chained db₁ := by
      refine hwrote.chained hchain ?_ ?_
      · rw [hsequence']
        exact Nat.succ_pos seq
      · rw [hsequence', hset]
        exact Nat.succ_le_succ hseq
    have hseq₁ : seq + 1 ≤ (db₁.setOf ids.changeSetId).length := by
      have hset' : (s.record row).changeSetId = ids.changeSetId := hset
      rw [Db.setOf, hwrote.events, ← hset', records_append_self, List.length_append, hset']
      exact Nat.succ_le_succ hseq
    obtain ⟨hchain', hlinked'⟩ := ih hrest hchain₁ hseq₁ hthen
    refine ⟨hchain', fun hcarries hlinked => ?_⟩
    have hinverts := inverts_of_build hs
    obtain ⟨r, hr, hfound, _⟩ := hwrote.found hchain.keyed hinverts.changes
    rw [hinverts.objectId] at hr
    obtain ⟨hcarry, hcarries'⟩ := (atTurn_concat hr
      (hwrote.inverted hchain.keyed hinverts)).mp hcarries
    refine hlinked' hcarries' (hwrote.handsOn hchain hlinked fun r' hr' _ => ?_)
    rw [hinverts.objectId] at hr'
    cases hr.symm.trans hr'
    rw [build_before hs, ← ((finds_iff hs).mp hfound).1.2]
    exact hcarry

/-! ## What has been read -/

/-- A view says what has been so at some time. -/
structure SeenTrue (db : Db) (v : Seen) : Prop where
  row : ∀ r, v.row.2 = some r → r.id = v.row.1 ∧ ∃ e ∈ db.events, e.objectId = r.id ∧
    e.resultVersion = r.version ∧ e.afterSnapshot = some r
  next : 1 ≤ v.next.2 ∧ v.next.2 ≤ (db.setOf v.next.1).length + 1

theorem seenTrue_new (db : Db) (w : Writer) : SeenTrue db (newSeen w) := by
  refine ⟨?_, Nat.le_refl 1, Nat.succ_le_succ (Nat.zero_le _)⟩
  rintro r ⟨⟩

variable {v : Seen}

theorem SeenTrue.mono (h : SeenTrue db v) (hgrows : db.events <+: db'.events) : SeenTrue db' v := by
  refine ⟨fun r hr => ?_, h.next.1, Nat.le_trans h.next.2 (Nat.succ_le_succ ?_)⟩
  · obtain ⟨hid, e, he, hrest⟩ := h.row r hr
    exact ⟨hid, e, hgrows.subset he, hrest⟩
  · exact (records_grow hgrows).length_le

theorem transaction_grows (h : transaction db statements = .ok db') : db.events <+: db'.events :=
  transaction_keeps (I := fun d => db.events <+: d.events)
    (fun _ _ _ _ _ hwrote hgrows => hwrote.events ▸ hgrows.trans (List.prefix_append _ _)) h
    (List.prefix_refl _)

theorem answer_grows (fault : Fault) (c : HistoryCall) (db : Db) :
    db.events <+: (history.answer fault c db).2.events := by
  rcases answer_writes fault c db with ⟨_, hevents⟩ | ⟨statements, _, _, htransaction⟩
  · exact hevents.symm ▸ List.prefix_refl _
  · exact transaction_grows htransaction

theorem foldl_max_le {l : List ObjectChangeEvent} {n bound : Nat} (hn : n ≤ bound)
    (hl : ∀ e ∈ l, e.sequence ≤ bound) : l.foldl (fun n e => max n e.sequence) n ≤ bound := by
  induction l generalizing n with
  | nil => exact hn
  | cons e l ih =>
    rw [List.foldl_cons]
    exact ih (Nat.max_le.mpr ⟨hn, hl e (.head _)⟩)
      fun e' he' => hl e' (List.mem_cons_of_mem e he')

variable {db : Db}

theorem seenTrue_read (hchain : Chained db) (h : SeenTrue db v) (fault : Fault) (c : HistoryCall) :
    SeenTrue db (seeHistory v c (history.answer fault c db).1) := by
  have hgood : ∀ reply : Except HistoryError c.Reply,
      (∀ r, reply = .ok r → (answerHistory db c).1 = .ok r) → SeenTrue db (seeHistory v c reply) := by
    intro reply hreply
    unfold seeHistory
    split
    · rename_i id row
      cases hreply row rfl
      refine ⟨fun r hr => ?_, h.next⟩
      obtain ⟨e, hlast, hafter⟩ := hchain.shown hr
      have he := mem_records.mp (List.mem_of_getLast? hlast)
      obtain ⟨row, hrow, hid, hversion⟩ := hchain.shows e he.1
      cases hafter.symm.trans hrow
      exact ⟨object_id hr, e, he.1, hid.symm, hversion.symm, hafter⟩
    · rename_i id max
      cases hreply max rfl
      refine ⟨h.row, Nat.succ_pos _, Nat.succ_le_succ (foldl_max_le (Nat.zero_le _) ?_)⟩
      intro e he
      have hmem := mem_records.mp he
      exact (hchain.sequences.mem_iff.mp ⟨e, hmem.1, hmem.2, rfl⟩).2
    all_goals exact ⟨h.row, h.next⟩
  refine hgood _ fun r hr => ?_
  cases fault with
  | answered =>
    have hmapped : ((answerHistory db c).1.mapError HistoryError.sql) = .ok r := hr
    cases hanswer : (answerHistory db c).1 with
    | ok r' =>
      rw [hanswer] at hmapped
      cases hmapped
      rfl
    | error e =>
      rw [hanswer] at hmapped
      cases hmapped
  | failed | lost => cases hr

/-- A row that was read, at the version the row has now, is the row. -/
theorem SeenTrue.current (h : SeenTrue db v) (hchain : Chained db)
    {r r₀ : ObjectRow} (hr : db.object v.row.1 = some r) (hr₀ : v.row.2 = some r₀)
    (hversion : r₀.version = r.version) : r₀ = r := by
  obtain ⟨hid, e₀, he₀, hobject, hresult, hafter₀⟩ := h.row r₀ hr₀
  obtain ⟨e, hlast, hafter⟩ := hchain.shown hr
  have he := mem_records.mp (List.mem_of_getLast? hlast)
  obtain ⟨row, hrow, _, hresult'⟩ := hchain.shows e he.1
  cases hafter.symm.trans hrow
  have hsame : e₀ = e := by
    refine hchain.versions.eq_of he₀ he.1 ?_ ?_
    · rw [hobject, hid, he.2]
    · rw [hresult, hversion, hresult']
  rw [hsame, hafter] at hafter₀
  exact (Option.some.inj hafter₀).symm

/-- What a writer carries as the row before is what its transaction finds: a row that was read
    has the version that is asked for, and a restored event has left the row its inverse
    finds. -/
def CarriesFound (db : Db) (v : Seen) (statements : List Statement) : Prop :=
  match v.writer with
  | .restoreChangeSet _ input => AtTurn Carries input.actor v.events db
  | _ => ∀ s ∈ statements, ∀ version, s.asks = some version →
      v.row.2.map ObjectRow.version = some version

theorem reports_chained (hreports : Reports v s)
    (hseen : SeenTrue db v) (hchain : Chained db) (h : transaction db [s] = .ok db') : Chained db' ∧
      ((∀ version, s.asks = some version → v.row.2.map ObjectRow.version = some version) →
        Linked ObjectChangeEvent.objectId HandsOn db.events →
        Linked ObjectChangeEvent.objectId HandsOn db'.events) := by
  obtain ⟨db₁, happly, hrest⟩ := transaction_cons h
  obtain ⟨row, hwrote⟩ := apply_ok happly
  rw [transaction_nil hrest]
  obtain ⟨_, _, _, _, _, hset, hsequence⟩ := record_reports s row
  refine ⟨hwrote.chained hchain ?_ ?_, fun hasks hlinked => ?_⟩
  · rw [hsequence, hreports.sequence]
    exact hseen.next.1
  · rw [hsequence, hreports.sequence, hset, hreports.changeSetId]
    exact hseen.next.2
  · refine hwrote.handsOn hchain hlinked fun r hr hfinds => ?_
    have hversion := hasks r.version (Statement.finds_asks hfinds)
    obtain ⟨r₀, hr₀, hsame⟩ := Option.map_eq_some_iff.mp hversion
    have hne : s.asks ≠ none := by
      rw [Statement.finds_asks hfinds]
      exact Option.some_ne_none _
    rw [hreports.before hne, hr₀]
    rw [← hreports.objectId] at hr
    rw [hseen.current hchain hr hr₀ hsame]

theorem makes_chained (hmakes : Makes v statements) (hseen : SeenTrue db v) (hchain : Chained db)
    (h : transaction db statements = .ok db') : Chained db' ∧ (CarriesFound db v statements →
      Linked ObjectChangeEvent.objectId HandsOn db.events →
      Linked ObjectChangeEvent.objectId HandsOn db'.events) := by
  have hsingle : (∃ s, statements = [s] ∧ Reports v s) → Chained db' ∧
      ((∀ s ∈ statements, ∀ version, s.asks = some version →
        v.row.2.map ObjectRow.version = some version) →
        Linked ObjectChangeEvent.objectId HandsOn db.events →
        Linked ObjectChangeEvent.objectId HandsOn db'.events) := by
    rintro ⟨s, rfl, hreports⟩
    obtain ⟨hchain', hlinked⟩ := reports_chained hreports hseen hchain h
    exact ⟨hchain', fun hasks => hlinked (hasks s (List.mem_singleton_self s))⟩
  unfold Makes at hmakes
  unfold CarriesFound
  cases hwriter : v.writer with
  | restoreChangeSet ids input =>
    rw [hwriter] at hmakes
    obtain ⟨trackers, hbuilt⟩ := hmakes
    exact restore_chained hbuilt hchain (Nat.zero_le _) h
  | upsert | softDelete | undelete | restoreVersion | approve | reject =>
    rw [hwriter] at hmakes
    exact hsingle hmakes

/-! ## Every run -/

/-- A transaction that takes effect in a step carries what it finds. -/
def StepCarries (s : WriterPool) (e : WriterEvent) : Prop :=
  ∀ i fault statements v, e = .turn i fault → NextCall s i (.transaction statements) v →
    Taken fault → (∃ db', transaction s.world statements = .ok db') →
    CarriesFound s.world v statements

/-- The invariant: the numberings, and views that say what has been so. -/
def ChainInv (db : Db) (views : Nat → Option Seen) : Prop :=
  Chained db ∧ ∀ i v, views i = some v → SeenTrue db v

theorem answer_same {fault : Fault} {c : HistoryCall}
    (hobjects : (history.answer fault c db).2.objects = db.objects)
    (hevents : (history.answer fault c db).2.events = db.events) (h : Chained db) :
    Chained (history.answer fault c db).2 := by
  refine ⟨?_, ?_, ?_, fun id => ?_, ?_, ?_⟩
  · rw [Db.Keyed, hobjects]
    exact h.keyed
  · rw [hevents]
    exact h.versions
  · rw [hevents]
    exact h.bases
  · rw [Db.object, hobjects, Db.historyOf, hevents]
    exact h.last id
  · rw [hevents]
    exact h.shows
  · rw [hevents]
    exact h.sequences

theorem chainInv_step {s : WriterPool} (hkept : s.Kept seeHistory MayCall) (e : WriterEvent)
    (h : ChainInv s.world s.views) : ChainInv (writerStep s e).world (writerStep s e).views := by
  obtain ⟨hchain, hseen⟩ := h
  have hviews : ∀ db (views : Nat → Option Seen) i (v : Option Seen),
      (∀ i v, views i = some v → SeenTrue db v) → (∀ x, v = some x → SeenTrue db x) →
      ∀ j x, Function.update views i v j = some x → SeenTrue db x := by
    intro db views i v hviews hv j x hx
    rcases update_cases hx with ⟨-, hx⟩ | ⟨hj, hx⟩
    · exact hv x hx
    · exact hviews j x hx
  refine step_rule hkept ?_ ?_ ?_ ⟨hchain, hseen⟩
  · intro i w _
    refine ⟨hchain, hviews _ _ i _ hseen ?_⟩
    rintro x hx
    rw [← Option.some.inj hx]
    cases w <;> exact seenTrue_new _ _
  · rintro i fault c v rfl hcall hmay _
    have hgrows : s.world.events <+: (history.answer fault c s.world).2.events :=
      answer_grows fault c s.world
    refine ⟨?_, hviews _ _ i _ (fun j x hx => (hseen j x hx).mono hgrows) ?_⟩
    · rcases answer_writes fault c s.world with ⟨hobjects, hevents⟩ |
        ⟨statements, rfl, _, htransaction⟩
      · exact answer_same hobjects hevents hchain
      · exact (makes_chained (hmay statements rfl) (hseen i v hcall.view) hchain htransaction).1
    · rintro x hx
      rw [← Option.some.inj hx]
      exact (seenTrue_read hchain (hseen i v hcall.view) fault c).mono hgrows
  · rintro w views i ⟨hw, hseen'⟩
    exact ⟨hw, hviews _ _ i _ hseen' fun x hx => by cases hx⟩

theorem chained_new (hobjects : db.objects = []) (hevents : db.events = []) : Chained db := by
  refine ⟨?_, ?_, ?_, fun id => ?_, ?_, ?_⟩
  · rw [Db.Keyed, hobjects]
    exact List.nodup_nil
  · rw [hevents]
    exact numbered_nil
  · rw [hevents]
    rintro e ⟨⟩
  · rw [Db.object, hobjects, Db.historyOf, hevents]
    rfl
  · rw [hevents]
    rintro e ⟨⟩
  · rw [hevents]
    exact numbered_nil

/-- **In every run whose transactions carry what they find, the history of every object is a
    chain without gaps.** -/
theorem history_gap_free {db : Db} (hobjects : db.objects = []) (hevents : db.events = [])
    {events : List WriterEvent} (h : Admits writerStep StepCarries (started db) events) :
    GapFree (events.foldl writerStep (started db)).world := by
  have hinv := h.leads.preserves
    (I := fun s : WriterPool => (s.Kept seeHistory MayCall ∧ ChainInv s.world s.views) ∧
      Linked ObjectChangeEvent.objectId HandsOn s.world.events) ?_ ?_
  · exact hinv.1.2.1.gapFree hinv.2
  · rintro s e ⟨⟨hkept, hchain, hseen⟩, hlinked⟩ hcarries
    refine ⟨⟨step_kept writer_keeps e hkept, chainInv_step hkept e ⟨hchain, hseen⟩⟩, ?_⟩
    rcases step_writes seeHistory (Writer.task newSeen) s e with ⟨_, hevents⟩ |
      ⟨i, fault, v, statements, rfl, hcall, htaken, htransaction⟩
    · rw [show (writerStep s e).world.events = s.world.events from hevents]
      exact hlinked
    · exact (makes_chained (hcall.allowed hkept statements rfl) (hseen i v hcall.view) hchain
        htransaction).2
        (hcarries i fault statements v rfl hcall htaken ⟨_, htransaction⟩) hlinked
  · refine ⟨⟨?_, chained_new hobjects hevents, ?_⟩, ?_⟩
    · rintro i t ⟨⟩
    · rintro i v ⟨⟩
    · show Linked ObjectChangeEvent.objectId HandsOn db.events
      rw [hevents]
      exact linked_nil

/-! ### Two edits, and the first undone -/

/-- The writer of a note. -/
def noteWriter (name : String) (data : Data) (expected : Option Nat) : Writer :=
  .upsert (mintedFor name) none { id := "x", type := "note", data := data }
    { expectedBaseVersion := expected, actor := retyper }

/-- A write or a restore, one after the other. -/
def inTurn (w : Writer) : List WriterEvent :=
  .start 0 w :: List.replicate 8 (.turn 0 .answered)

/-- A writer of one object has read the version it asks for, and a restore undoes one update
    that no other write has followed. -/
def carriesFound (s : WriterPool) : WriterEvent → Bool
  | .turn i _ =>
    match s.tasks i with
    | some ⟨.call (.transaction statements) _, v⟩ =>
      match v.writer with
      | .restoreChangeSet _ _ => v.events.length ≤ 1 && v.events.all fun e =>
          e.operation = .update && s.world.object e.objectId = e.afterSnapshot
      | _ => statements.all fun s => s.asks.isNone || v.row.2.map ObjectRow.version = s.asks
    | _ => true
  | _ => true

theorem stepCarries_of_found {s : WriterPool} {e : WriterEvent} (h : carriesFound s e = true) :
    StepCarries s e := by
  rintro i fault statements v rfl ⟨k, hk⟩ - -
  simp only [carriesFound, hk] at h
  unfold CarriesFound
  cases hwriter : v.writer with
  | restoreChangeSet ids input =>
    simp only [hwriter, Bool.and_eq_true, decide_eq_true_eq, List.all_eq_true] at h
    intro before e after heq r hr
    rw [heq, List.length_append, List.length_cons] at h
    obtain ⟨hop, hafter⟩ := h.2 e (by simp)
    have hlast : after = [] := List.length_eq_zero_iff.mp (by omega)
    rw [hlast]
    show carried e r.version = some r
    rw [carried, hop, ← hafter, hr]
    rfl
  | _ =>
    rw [hwriter] at h
    intro s hs version hasks
    have hread := List.all_eq_true.mp h s hs
    rw [hasks, Bool.or_eq_true, decide_eq_true_eq] at hread
    exact hread.resolve_left Bool.false_ne_true

/-- A note is made and changed, and the change is undone. -/
def editUndone : List WriterEvent :=
  inTurn (noteWriter "c1" [] none) ++ inTurn (noteWriter "c2" [("body", .str "a")] (some 1)) ++
    inTurn (.restoreChangeSet (restoreIdsFor "c3") retypedInput)

theorem history_gap_free_editUndone : GapFree (editUndone.foldl writerStep (started {})).world ∧
    ((editUndone.foldl writerStep (started {})).world.historyOf "x").map
      ObjectChangeEvent.operation = [.create, .update, .update] :=
  ⟨history_gap_free rfl rfl (admits_of_passes (fun _ _ => stepCarries_of_found) (by decide +kernel)),
    by decide +kernel⟩

/-- A note is made, changed twice, and the first change undone. -/
def editsUndone : List WriterEvent :=
  inTurn (noteWriter "c1" [] none) ++ inTurn (noteWriter "c2" [("body", .str "a")] (some 1)) ++
    inTurn (noteWriter "c3" [("body", .str "b")] (some 2)) ++
    inTurn (.restoreChangeSet (restoreIdsFor "c4") retypedInput)

/-- The restore's event says that the body before was "a", but the event it follows has left
    "b". -/
theorem edits_undone_gap : ¬ GapFree (editsUndone.foldl writerStep (started {})).world := by
  intro h
  have hlinked := h.handsOn "x"
  have hafter : ((((editsUndone.foldl writerStep (started {})).world.historyOf "x")[2]?).bind
      ObjectChangeEvent.afterSnapshot).map ObjectRow.data = some [("body", .str "b")] := by
    decide +kernel
  have hbefore : ((((editsUndone.foldl writerStep (started {})).world.historyOf "x")[3]?).bind
      ObjectChangeEvent.beforeSnapshot).map ObjectRow.data = some [("body", .str "a")] := by
    decide +kernel
  obtain ⟨row, hrow, hdata⟩ := Option.map_eq_some_iff.mp hafter
  obtain ⟨e, he, hshown⟩ := Option.bind_eq_some_iff.mp hrow
  obtain ⟨row', hrow', hdata'⟩ := Option.map_eq_some_iff.mp hbefore
  obtain ⟨e', he', hshown'⟩ := Option.bind_eq_some_iff.mp hrow'
  obtain ⟨h₂, rfl⟩ := List.getElem?_eq_some_iff.mp he
  obtain ⟨h₃, rfl⟩ := List.getElem?_eq_some_iff.mp he'
  have hhands := List.isChain_iff_getElem.mp hlinked 2 h₃
  rw [HandsOn] at hhands
  have hsame := (hhands.symm.trans hshown').symm.trans hshown
  rw [← Option.some.inj hsame, hdata'] at hdata
  exact absurd hdata (by decide)

end History
