import Cinatra.Registries.Resolver

/-! # ResolvedTree — a tree that resolves is consistent

    Over one universe of packuments no node is ever upgraded: the version a node was
    created at is the greatest its live consumer admits, so a greater pick breaks
    that consumer's range and is refused.  Nodes and manifests only grow, and every
    recorded edge stays satisfied. -/

namespace RegResolvedTree

open RegResolver

/-- What semver promises: the pick is one of the versions, satisfies the range, and no
    other version of the range is greater. -/
structure Lawful (semver : Semver) : Prop where
  mem : ∀ {versions range pick}, semver.maxSatisfying versions range = some pick → pick ∈ versions
  satisfies : ∀ {versions range pick}, semver.maxSatisfying versions range = some pick →
    semver.satisfies pick range = true
  greatest : ∀ {versions range pick}, semver.maxSatisfying versions range = some pick →
    ∀ v ∈ versions, semver.satisfies v range = true → semver.gt v pick = false

variable {semver : Semver} {input : Input} {s s' : Resolving} {entry : QueueEntry}

/-! ## What a turn of the loop does -/

/-- A node that was not there, with its manifest and its children queued. -/
def Created (input : Input) (entry : QueueEntry) (pick : String)
    (manifest : PackumentVersionEntry) (s : Resolving) : Resolving :=
  { s with
    resolved := OrderedMap.set entry.name
      { packageName := entry.name
        resolvedVersion := pick
        tarballUrl := manifest.dist.tarball
        integrity := manifest.dist.integrity
        requestedRange := entry.range
        dependencies := [] } s.resolved
    pickedManifests := OrderedMap.set entry.name manifest s.pickedManifests
    queue := s.queue ++ childEntries entry pick (input.typeConfig.readDeps manifest) }

/-- What is known of a turn that does not throw. -/
structure Visited (semver : Semver) (input : Input) (entry : QueueEntry) (s s' : Resolving)
    (packument : Packument) (pick : String) : Prop where
  scope : inScope input.typeConfig.scopePrefixes entry.name = true
  acyclic : entry.name ∉ entry.path
  fetched : input.fetchPackument entry.name = .ok packument
  picked : semver.maxSatisfying (OrderedMap.keys packument.versions) entry.range = some pick
  /-- The node stays, is upgraded past every live range, or is new. -/
  outcome : (∃ existing, OrderedMap.get? entry.name s.resolved = some existing ∧
      s' = recordConsumer entry s ∧
      (existing.resolvedVersion = pick ∨ ∀ range ∈ rebuildRanges (recordConsumer entry s) entry.name,
        semver.satisfies existing.resolvedVersion range = true)) ∨
    (∃ existing, OrderedMap.get? entry.name s.resolved = some existing ∧
      semver.gt pick existing.resolvedVersion = true ∧
      ∀ range ∈ rebuildRanges (recordConsumer entry s) entry.name,
        semver.satisfies pick range = true) ∨
    (∃ manifest, OrderedMap.get? entry.name s.resolved = none ∧
      OrderedMap.get? pick packument.versions = some manifest ∧
      s' = Created input entry pick manifest (recordConsumer entry s))

theorem rejects_eq_none (h : rejects input entry = none) :
    inScope input.typeConfig.scopePrefixes entry.name = true ∧ entry.name ∉ entry.path := by
  unfold rejects at h
  split at h
  · cases h
  next hscope =>
    split at h
    · cases h
    · split at h
      · cases h
      · next hpath => exact ⟨by simpa using hscope, hpath⟩

variable {pick : String} {packument : Packument} {existing : ResolvedNode}

/-- A node met again stays if its version meets every live range; only a greater version
    that meets them all replaces it. -/
theorem revisit_cases (h : revisit semver input entry packument pick existing s = .ok s') :
    (s' = s ∧ (existing.resolvedVersion = pick ∨ ∀ range ∈ rebuildRanges s entry.name,
      semver.satisfies existing.resolvedVersion range = true)) ∨
    (semver.gt pick existing.resolvedVersion = true ∧ ∀ range ∈ rebuildRanges s entry.name,
      semver.satisfies pick range = true) := by
  unfold revisit at h
  split at h
  · next hsame => exact .inl ⟨(Except.ok.inj h).symm, .inl hsame⟩
  split at h
  · cases h
  by_cases hgt : semver.gt pick existing.resolvedVersion = true
  · simp only [if_pos hgt] at h
    split at h
    · cases h
    · next hall => exact .inr ⟨hgt, by simpa using hall⟩
  · simp only [if_neg hgt] at h
    split at h
    · cases h
    · next hall => exact .inl ⟨(Except.ok.inj h).symm, .inr (by simpa using hall)⟩

theorem create_cases (h : create input entry packument pick s = .ok s') :
    ∃ manifest, OrderedMap.get? pick packument.versions = some manifest ∧
      s' = Created input entry pick manifest s := by
  unfold create at h
  split at h
  · cases h
  split at h
  · cases h
  next manifest hmanifest => exact ⟨manifest, hmanifest, (Except.ok.inj h).symm⟩

/-- **A turn of the loop**, in cases. -/
theorem visit_cases (h : visit semver input entry s = .ok s') :
    ∃ packument pick, Visited semver input entry s s' packument pick := by
  unfold visit at h
  split at h
  · cases h
  next hgate =>
  obtain ⟨hscope, hpath⟩ := rejects_eq_none hgate
  split at h
  · split at h <;> cases h
  next packument hfetch =>
  split at h
  · cases h
  next pick hpick =>
  refine ⟨packument, pick, hscope, hpath, hfetch, hpick, ?_⟩
  split at h
  · next existing hex =>
      rcases revisit_cases h with ⟨hs, hkept⟩ | ⟨hgt, hall⟩
      · exact .inl ⟨existing, hex, hs, hkept⟩
      · exact .inr (.inl ⟨existing, hex, hgt, hall⟩)
  · next hnew =>
      obtain ⟨manifest, hmanifest, hs⟩ := create_cases h
      exact .inr (.inr ⟨manifest, hnew, hmanifest, hs⟩)

/-! ## Recorded edges -/

/-- A parent, at the version it now has, asks for a child in a range. -/
def Declares (input : Input) (s : Resolving) (parent version child range : String) : Prop :=
  ∃ node manifest, OrderedMap.get? parent s.resolved = some node ∧ node.resolvedVersion = version ∧
    OrderedMap.get? parent s.pickedManifests = some manifest ∧
    (child, range) ∈ input.typeConfig.readDeps manifest

/-- Nodes and manifests that were there stay as they are. -/
structure Extends (s s' : Resolving) : Prop where
  node : ∀ {name node}, OrderedMap.get? name s.resolved = some node →
    OrderedMap.get? name s'.resolved = some node
  manifest : ∀ {name m}, OrderedMap.get? name s.pickedManifests = some m →
    OrderedMap.get? name s'.pickedManifests = some m

theorem Extends.of_eq (hnodes : s'.resolved = s.resolved)
    (hmanifests : s'.pickedManifests = s.pickedManifests) : Extends s s' := by
  refine ⟨?_, ?_⟩
  · intro name node h
    rw [hnodes]
    exact h
  · intro name m h
    rw [hmanifests]
    exact h

theorem Extends.trans {s₁ s₂ s₃ : Resolving} (h : Extends s₁ s₂) (h' : Extends s₂ s₃) :
    Extends s₁ s₃ :=
  ⟨fun hn => h'.node (h.node hn), fun hm => h'.manifest (h.manifest hm)⟩

variable {child : String}

theorem Declares.mono {parent version range : String}
    (h : Declares input s parent version child range) (hs : Extends s s') :
    Declares input s' parent version child range := by
  obtain ⟨node, m, hnode, hversion, hm, hin⟩ := h
  exact ⟨node, m, hs.node hnode, hversion, hs.manifest hm, hin⟩

variable {e : ConsumerEdge}

theorem Declares.live
    (h : Declares input s e.parent e.parentVersion child e.range) : s.live e = true := by
  obtain ⟨node, m, hnode, hversion, -, -⟩ := h
  simp [Resolving.live, hnode, hversion]

theorem recordConsumer_resolved (entry : QueueEntry) (s : Resolving) :
    (recordConsumer entry s).resolved = s.resolved := by
  unfold recordConsumer
  split <;> rfl

theorem recordConsumer_manifests (entry : QueueEntry) (s : Resolving) :
    (recordConsumer entry s).pickedManifests = s.pickedManifests := by
  unfold recordConsumer
  split <;> rfl

theorem recordConsumer_queue (entry : QueueEntry) (s : Resolving) :
    (recordConsumer entry s).queue = s.queue := by
  unfold recordConsumer
  split <;> rfl

theorem mem_edgesOf_record {parent version : String}
    (hp : entry.fromParent = some parent) (hv : entry.fromParentVersion = some version) :
    e ∈ (recordConsumer entry s).edgesOf child ↔
      e ∈ s.edgesOf child ∨ child = entry.name ∧ e = ⟨parent, version, entry.range⟩ := by
  unfold recordConsumer
  rw [hp, hv]
  dsimp only
  by_cases hc : child = entry.name
  · subst hc
    rw [Resolving.edgesOf, OrderedMap.get?_set_self]
    simp
  · rw [Resolving.edgesOf, OrderedMap.get?_set_ne hc]
    simp [Resolving.edgesOf, hc]

/-! ## The invariant -/

/-- What the root reaches through the manifests that were picked. -/
inductive Reachable (input : Input) (s : Resolving) : String → Prop
  | root : Reachable input s input.rootPackageName
  | step {parent child range : String} {manifest : PackumentVersionEntry} :
      Reachable input s parent → OrderedMap.get? parent s.pickedManifests = some manifest →
      (child, range) ∈ input.typeConfig.readDeps manifest → Reachable input s child

variable {name : String}

theorem Reachable.mono (h : Reachable input s name) (hs : Extends s s') :
    Reachable input s' name := by
  induction h with
  | root => exact .root
  | step _ hm hin ih => exact .step ih (hs.manifest hm) hin

/-- A queued entry that a parent declares, below the root. -/
def FromParent (input : Input) (s : Resolving) (q : QueueEntry) : Prop :=
  ∃ parent version, q.fromParent = some parent ∧ q.fromParentVersion = some version ∧
    Declares input s parent version q.name q.range ∧ input.rootPackageName ∈ q.path

/-- A node of an allowed scope, at a version of its packument, whose manifest was kept. -/
def Picked (input : Input) (s : Resolving) (name : String) (node : ResolvedNode) : Prop :=
  inScope input.typeConfig.scopePrefixes name = true ∧ ∃ packument manifest,
    input.fetchPackument name = .ok packument ∧
    OrderedMap.get? node.resolvedVersion packument.versions = some manifest ∧
    OrderedMap.get? name s.pickedManifests = some manifest

variable {node : ResolvedNode}

theorem Picked.mono (h : Picked input s name node)
    (hs : Extends s s') : Picked input s' name node := by
  obtain ⟨hscope, packument, m, hfetch, hversion, hm⟩ := h
  exact ⟨hscope, packument, m, hfetch, hversion, hs.manifest hm⟩

/-- The range is one for which the node's version is the greatest. -/
def PickFor (semver : Semver) (input : Input) (name range version : String) : Prop :=
  ∃ packument, input.fetchPackument name = .ok packument ∧
    semver.maxSatisfying (OrderedMap.keys packument.versions) range = some version

/-- The state between two turns, once the root is resolved. -/
structure Consistent (semver : Semver) (input : Input) (s : Resolving) : Prop where
  picked : ∀ {name node}, OrderedMap.get? name s.resolved = some node → Picked input s name node
  /-- A node was created for a consumer. -/
  created : ∀ {name node}, OrderedMap.get? name s.resolved = some node →
    name = input.rootPackageName ∨
      ∃ e ∈ s.edgesOf name, PickFor semver input name e.range node.resolvedVersion
  declared : ∀ {child e}, e ∈ s.edgesOf child →
    Declares input s e.parent e.parentVersion child e.range
  satisfied : ∀ {child e}, e ∈ s.edgesOf child →
    ∃ node, OrderedMap.get? child s.resolved = some node ∧
      semver.satisfies node.resolvedVersion e.range = true
  queued : ∀ q ∈ s.queue, FromParent input s q
  /-- A dependency of a node is still queued, or was recorded. -/
  complete : ∀ {name m}, (∃ node, OrderedMap.get? name s.resolved = some node) →
    OrderedMap.get? name s.pickedManifests = some m → ∀ d ∈ input.typeConfig.readDeps m,
      (∃ q ∈ s.queue, q.name = d.1 ∧ q.range = d.2) ∨ ∃ e ∈ s.edgesOf d.1, e.range = d.2
  reached : ∀ {name node}, OrderedMap.get? name s.resolved = some node → Reachable input s name
  kept : ∀ {name m}, OrderedMap.get? name s.pickedManifests = some m →
    ∃ node, OrderedMap.get? name s.resolved = some node
  root : ∃ node, OrderedMap.get? input.rootPackageName s.resolved = some node ∧
    semver.satisfies node.resolvedVersion input.rootRange = true

/-- A node of the next state that was not there: what a creation knows of it. -/
structure Fresh (semver : Semver) (input : Input) (entry : QueueEntry) (new : List QueueEntry)
    (s' : Resolving) (name : String) (node : ResolvedNode) : Prop where
  own : name = entry.name
  picked : Picked input s' name node
  pickFor : PickFor semver input name entry.range node.resolvedVersion
  children : ∀ m, OrderedMap.get? name s'.pickedManifests = some m →
    ∀ d ∈ input.typeConfig.readDeps m, ∃ q ∈ new, q.name = d.1 ∧ q.range = d.2

variable {rest new : List QueueEntry} {parent version : String}

/-- **One turn keeps the invariant**, whether it leaves the nodes alone or adds one. -/
theorem Consistent.next (h : Consistent semver input s) (hs : s.queue = entry :: rest)
    (hdeclares : Declares input s parent version entry.name entry.range) (hext : Extends s s')
    (hqueue : s'.queue = rest ++ new) (hedges : ∀ child e, e ∈ s'.edgesOf child ↔
      e ∈ s.edgesOf child ∨ child = entry.name ∧ e = ⟨parent, version, entry.range⟩)
    (hsat : ∃ node, OrderedMap.get? entry.name s'.resolved = some node ∧
      semver.satisfies node.resolvedVersion entry.range = true)
    (hnew : ∀ q ∈ new, FromParent input s' q)
    (hkept : ∀ name m, OrderedMap.get? name s'.pickedManifests = some m →
      ∃ node, OrderedMap.get? name s'.resolved = some node)
    (hnode : ∀ name node, OrderedMap.get? name s'.resolved = some node →
      OrderedMap.get? name s.resolved = some node ∨ Fresh semver input entry new s' name node) :
    Consistent semver input s' := by
  have hown : ⟨parent, version, entry.range⟩ ∈ s'.edgesOf entry.name :=
    (hedges _ _).mpr (.inr ⟨rfl, rfl⟩)
  refine ⟨?_, ?_, ?_, ?_, ?_, ?_, ?_, fun {name m} => hkept name m, ?_⟩
  · intro name node hin
    rcases hnode name node hin with hold | hfresh
    · exact (h.picked hold).mono hext
    · exact hfresh.picked
  · intro name node hin
    rcases hnode name node hin with hold | hfresh
    · refine (h.created hold).imp_right ?_
      rintro ⟨e, he, hpick⟩
      exact ⟨e, (hedges _ _).mpr (.inl he), hpick⟩
    · exact .inr ⟨_, hfresh.own ▸ hown, hfresh.pickFor⟩
  · intro child e he
    rcases (hedges child e).mp he with hold | ⟨rfl, rfl⟩
    · exact (h.declared hold).mono hext
    · exact hdeclares.mono hext
  · intro child e he
    rcases (hedges child e).mp he with hold | ⟨rfl, rfl⟩
    · obtain ⟨node, hin, hok⟩ := h.satisfied hold
      exact ⟨node, hext.node hin, hok⟩
    · exact hsat
  · intro q hq
    rw [hqueue] at hq
    rcases List.mem_append.mp hq with hq | hq
    · obtain ⟨p, v, hp, hv, hdecl, hpath⟩ := h.queued q (hs ▸ .tail _ hq)
      exact ⟨p, v, hp, hv, hdecl.mono hext, hpath⟩
    · exact hnew q hq
  · rintro name m ⟨node, hin⟩ hm d hd
    rcases hnode name node hin with hold | hfresh
    · obtain ⟨-, -, m', -, -, hm'⟩ := h.picked hold
      obtain rfl := Option.some.inj ((hext.manifest hm').symm.trans hm)
      rcases h.complete ⟨node, hold⟩ hm' d hd with ⟨q, hq, hname, hrange⟩ | ⟨e, he, hrange⟩
      · rw [hs] at hq
        rcases List.mem_cons.mp hq with rfl | hq
        · exact .inr ⟨_, hname ▸ hown, hrange⟩
        · exact .inl ⟨q, hqueue ▸ List.mem_append_left _ hq, hname, hrange⟩
      · exact .inr ⟨e, (hedges _ _).mpr (.inl he), hrange⟩
    · obtain ⟨q, hq, hd'⟩ := hfresh.children m hm d hd
      exact .inl ⟨q, hqueue ▸ List.mem_append_right _ hq, hd'⟩
  · intro name node hin
    rcases hnode name node hin with hold | hfresh
    · exact (h.reached hold).mono hext
    · obtain ⟨p, m, hp, -, hm, hd⟩ := hdeclares
      rw [hfresh.own]
      exact .step ((h.reached hp).mono hext) (hext.manifest hm) hd
  · obtain ⟨node, hin, hok⟩ := h.root
    exact ⟨node, hext.node hin, hok⟩

/-! ## Creations -/

variable {manifest : PackumentVersionEntry}

theorem extends_created (hnode : OrderedMap.get? entry.name s.resolved = none)
    (hmanifest : OrderedMap.get? entry.name s.pickedManifests = none) :
    Extends s (Created input entry pick manifest s) :=
  ⟨OrderedMap.get?_set_of_some hnode, OrderedMap.get?_set_of_some hmanifest⟩

theorem created_node
    (h : OrderedMap.get? name (Created input entry pick manifest s).resolved = some node) :
    OrderedMap.get? name s.resolved = some node ∨
      name = entry.name ∧ node.resolvedVersion = pick := by
  by_cases hname : name = entry.name
  · subst hname
    have hset := (OrderedMap.get?_set_self ..).symm.trans h
    cases hset
    exact .inr ⟨rfl, rfl⟩
  · exact .inl ((OrderedMap.get?_set_ne hname ..).symm.trans h)

variable {r : Resolving}

/-- What a creation says of its node and of the entries it queues. -/
theorem created_fresh (hv : Visited semver input entry r s' packument pick)
    (hmanifest : OrderedMap.get? pick packument.versions = some manifest)
    (hs' : s' = Created input entry pick manifest s) (hnode : node.resolvedVersion = pick) :
    Fresh semver input entry (childEntries entry pick (input.typeConfig.readDeps manifest)) s'
      entry.name node := by
  have hm : OrderedMap.get? entry.name s'.pickedManifests = some manifest := by
    rw [hs']
    exact OrderedMap.get?_set_self ..
  refine ⟨rfl, ⟨hv.scope, packument, manifest, hv.fetched, hnode ▸ hmanifest, hm⟩,
    ⟨packument, hv.fetched, hnode ▸ hv.picked⟩, ?_⟩
  intro m hm' d hd
  obtain rfl := Option.some.inj (hm.symm.trans hm')
  exact ⟨_, List.mem_map_of_mem hd, rfl, rfl⟩

theorem created_children
    (hpath : input.rootPackageName ∈ entry.path ∨ input.rootPackageName = entry.name) :
    ∀ q ∈ childEntries entry pick (input.typeConfig.readDeps manifest),
      FromParent input (Created input entry pick manifest s) q := by
  intro q hq
  obtain ⟨d, hd, rfl⟩ := List.mem_map.mp hq
  refine ⟨entry.name, pick, rfl, rfl, ⟨_, manifest, OrderedMap.get?_set_self .., rfl,
    OrderedMap.get?_set_self .., hd⟩, ?_⟩
  rcases hpath with hpath | hpath
  · exact List.mem_append_left _ hpath
  · exact List.mem_append_right _ (List.mem_singleton.mpr hpath)

theorem created_kept (h : ∀ name m, OrderedMap.get? name s.pickedManifests = some m →
      ∃ node, OrderedMap.get? name s.resolved = some node) (name : String)
    (m : PackumentVersionEntry)
    (hm : OrderedMap.get? name (Created input entry pick manifest s).pickedManifests = some m) :
    ∃ node, OrderedMap.get? name (Created input entry pick manifest s).resolved = some node := by
  by_cases hname : name = entry.name
  · subst hname
    exact ⟨_, OrderedMap.get?_set_self ..⟩
  · obtain ⟨node, hin⟩ := h name m ((OrderedMap.get?_set_ne hname ..).symm.trans hm)
    exact ⟨node, (OrderedMap.get?_set_ne hname ..).trans hin⟩

/-! ## Turns and runs -/

/-- **No upgrade**: a version greater than a node's breaks the range of the live consumer
    the node was created for. -/
theorem Consistent.no_upgrade (h : Consistent semver input s) (hsemver : Lawful semver)
    (hnodes : r.resolved = s.resolved)
    (hedges : ∀ e ∈ s.edgesOf entry.name, e ∈ r.edgesOf entry.name)
    (hpath : input.rootPackageName ∈ entry.path)
    {s₀ : Resolving} (hv : Visited semver input entry s₀ s' packument pick)
    (hin : OrderedMap.get? entry.name s.resolved = some existing)
    (hall : ∀ range ∈ rebuildRanges r entry.name, semver.satisfies pick range = true) :
    semver.gt pick existing.resolvedVersion = false := by
  rcases h.created hin with hroot | ⟨e, he, packument', hfetch, hcreated⟩
  · exact absurd (hroot ▸ hpath) hv.acyclic
  obtain rfl := Except.ok.inj (hv.fetched.symm.trans hfetch)
  have hlive : r.live e = true := by
    rw [Resolving.live, hnodes]
    exact (h.declared he).live
  have hrange : e.range ∈ rebuildRanges r entry.name :=
    List.mem_map_of_mem (List.mem_filter.mpr ⟨hedges e he, hlive⟩)
  exact hsemver.greatest hcreated pick (hsemver.mem hv.picked) (hall _ hrange)

theorem Consistent.turn (h : Consistent semver input s) (hsemver : Lawful semver)
    (hs : s.queue = entry :: rest)
    (hvisit : visit semver input entry { s with queue := rest } = .ok s') :
    Consistent semver input s' := by
  obtain ⟨packument, pick, hv⟩ := visit_cases hvisit
  obtain ⟨parent, version, hp, hver, hdeclares, hpath⟩ := h.queued entry (hs ▸ List.mem_cons_self ..)
  have hedges : ∀ child e, e ∈ (recordConsumer entry { s with queue := rest }).edgesOf child ↔
      e ∈ s.edgesOf child ∨ child = entry.name ∧ e = ⟨parent, version, entry.range⟩ :=
    fun child e => mem_edgesOf_record hp hver
  have hnodes := recordConsumer_resolved entry { s with queue := rest }
  have hmanifests := recordConsumer_manifests entry { s with queue := rest }
  have hqueue := recordConsumer_queue entry { s with queue := rest }
  rcases hv.outcome with ⟨existing, hin, hs', hkept⟩ | ⟨existing, hin, hgt, hall⟩ |
    ⟨manifest, hnone, hmanifest, hs'⟩
  · -- the node stays: its version satisfies the entry's range, which is live
    have hsat : semver.satisfies existing.resolvedVersion entry.range = true := by
      rcases hkept with hsame | hall
      · rw [hsame]
        exact hsemver.satisfies hv.picked
      · refine hall _ (List.mem_map_of_mem (List.mem_filter.mpr
          ⟨(hedges entry.name ⟨parent, version, entry.range⟩).mpr (.inr ⟨rfl, rfl⟩), ?_⟩))
        rw [Resolving.live, hnodes]
        exact hdeclares.live
    have hq : s'.queue = rest ++ [] := by rw [hs', hqueue, List.append_nil]
    refine h.next hs hdeclares ?_ hq (hs' ▸ hedges) ⟨existing, ?_, hsat⟩ ?_ ?_ ?_
    · rw [hs']
      exact .of_eq hnodes hmanifests
    · rw [hs', hnodes]
      exact hin
    · exact fun q hq => absurd hq List.not_mem_nil
    · rw [hs', hnodes, hmanifests]
      exact fun name m => h.kept
    · rw [hs', hnodes]
      exact fun name node hn => .inl hn
  · -- an upgrade is refused
    have hno := h.no_upgrade hsemver hnodes (fun e he => (hedges _ e).mpr (.inl he)) hpath hv hin
      hall
    rw [hno] at hgt
    cases hgt
  · have hext : Extends s s' := by
      have hnone' : OrderedMap.get? entry.name s.pickedManifests = none := by
        cases hm : OrderedMap.get? entry.name s.pickedManifests with
        | none => rfl
        | some m =>
          obtain ⟨node, hin⟩ := h.kept hm
          rw [show OrderedMap.get? entry.name s.resolved = none from hnone] at hin
          cases hin
      have hsame : Extends s (recordConsumer entry { s with queue := rest }) :=
        .of_eq hnodes hmanifests
      rw [hs']
      refine hsame.trans (extends_created ?_ ?_)
      · rw [hnodes]
        exact hnone
      · rw [hmanifests]
        exact hnone'
    have hq : s'.queue = rest ++ childEntries entry pick (input.typeConfig.readDeps manifest) := by
      rw [hs']
      show (recordConsumer entry { s with queue := rest }).queue ++ _ = _
      rw [hqueue]
    refine h.next hs hdeclares hext hq ?_ ?_ ?_ ?_ ?_
    · rw [hs']
      exact hedges
    · rw [hs']
      exact ⟨_, OrderedMap.get?_set_self .., hsemver.satisfies hv.picked⟩
    · rw [hs']
      exact created_children (.inl hpath)
    · rw [hs']
      refine created_kept ?_
      rw [hnodes, hmanifests]
      exact fun name m => h.kept
    · intro name node hn
      rw [hs'] at hn
      rcases created_node hn with hold | ⟨rfl, hversion⟩
      · rw [hnodes] at hold
        exact .inl hold
      · exact .inr (created_fresh hv hmanifest hs' hversion)

theorem first_turn (hsemver : Lawful semver)
    (hs : (initialResolving input).queue = entry :: rest)
    (hvisit : visit semver input entry { initialResolving input with queue := rest } = .ok s') :
    Consistent semver input s' := by
  obtain ⟨packument, pick, hv⟩ := visit_cases hvisit
  cases hs
  rcases hv.outcome with ⟨existing, hin, -⟩ | ⟨existing, hin, -⟩ | ⟨manifest, -, hmanifest, hs'⟩
  · cases hin
  · cases hin
  have hfresh : ∀ {name node}, OrderedMap.get? name s'.resolved = some node →
      name = input.rootPackageName ∧ Picked input s' name node ∧
        ∀ m, OrderedMap.get? name s'.pickedManifests = some m →
          ∀ d ∈ input.typeConfig.readDeps m, ∃ q ∈ s'.queue, q.name = d.1 ∧ q.range = d.2 := by
    intro name node hn
    rw [hs'] at hn
    rcases created_node hn with hold | ⟨rfl, hversion⟩
    · cases hold
    · have hf := created_fresh hv hmanifest hs' hversion
      refine ⟨rfl, hf.picked, ?_⟩
      rw [show s'.queue = childEntries _ pick (input.typeConfig.readDeps manifest) by rw [hs']; rfl]
      exact hf.children
  have hedges : ∀ child, s'.edgesOf child = [] := by
    intro child
    rw [hs']
    rfl
  refine ⟨fun hn => (hfresh hn).2.1, fun hn => .inl (hfresh hn).1, ?_, ?_, ?_, ?_, ?_, ?_, ?_⟩
  · intro child e he
    rw [hedges] at he
    cases he
  · intro child e he
    rw [hedges] at he
    cases he
  · rw [hs']
    exact created_children (.inr rfl)
  · rintro name m ⟨node, hn⟩ hm d hd
    exact .inl ((hfresh hn).2.2 m hm d hd)
  · intro name node hn
    rw [(hfresh hn).1]
    exact .root
  · rw [hs']
    refine fun {name m} => created_kept ?_ name m
    intro name m hm
    cases hm
  · rw [hs']
    exact ⟨_, OrderedMap.get?_set_self .., hsemver.satisfies hv.picked⟩

theorem Consistent.run (hsemver : Lawful semver) (fuel : Nat) :
    ∀ s, Consistent semver input s → resolveLoop semver input fuel s = .ok s' →
      Consistent semver input s' ∧ s'.queue = [] := by
  induction fuel with
  | zero =>
    intro s _ hrun
    cases hrun
  | succ fuel ih =>
    intro s h hrun
    rw [resolveLoop] at hrun
    split at hrun
    · next hs =>
        obtain rfl := Except.ok.inj hrun
        exact ⟨h, hs⟩
    · next entry rest hs =>
        split at hrun
        · cases hrun
        · next s₁ hvisit => exact ih s₁ (h.turn hsemver hs hvisit) hrun

theorem resolveLoop_consistent (hsemver : Lawful semver) {fuel : Nat}
    (hrun : resolveLoop semver input fuel (initialResolving input) = .ok s) :
    Consistent semver input s ∧ s.queue = [] := by
  cases fuel with
  | zero => cases hrun
  | succ fuel =>
    rw [resolveLoop] at hrun
    split at hrun
    · next hs => cases hs
    · next entry rest hs =>
        split at hrun
        · cases hrun
        · next s₁ hvisit => exact Consistent.run hsemver fuel s₁ (first_turn hsemver hs hvisit) hrun

/-! ## The tree -/

/-- What the root reaches through the `dependencies` maps of a tree. -/
inductive TreeReaches (tree : DependencyTree) (root : String) : String → Prop
  | root : TreeReaches tree root root
  | step {parent child range : String} {node : ResolvedNode} : TreeReaches tree root parent →
      OrderedMap.get? parent tree.all = some node → (child, range) ∈ node.dependencies →
      TreeReaches tree root child

structure ConsistentTree (semver : Semver) (input : Input) (tree : DependencyTree) : Prop where
  dependencies : ∀ name node, OrderedMap.get? name tree.all = some node →
    ∀ dep range, (dep, range) ∈ node.dependencies →
      ∃ child, OrderedMap.get? dep tree.all = some child ∧
        semver.satisfies child.resolvedVersion range = true
  root : OrderedMap.get? input.rootPackageName tree.all = some tree.root
  rootRange : semver.satisfies tree.root.resolvedVersion input.rootRange = true
  scope : ∀ name node, OrderedMap.get? name tree.all = some node →
    inScope input.typeConfig.scopePrefixes name = true
  reached : ∀ name node, OrderedMap.get? name tree.all = some node →
    TreeReaches tree input.rootPackageName name

theorem get?_selfDescribing (input : Input) (s : Resolving) (name : String) :
    OrderedMap.get? name (selfDescribing input s) = (OrderedMap.get? name s.resolved).map
      (fun node => { node with dependencies := capturedDeps input s name }) :=
  OrderedMap.get?_map (fun name (node : ResolvedNode) =>
    ({ node with dependencies := capturedDeps input s name } : ResolvedNode)) name s.resolved

theorem get?_selfDescribing_of_picked
    {m : PackumentVersionEntry} (hn : OrderedMap.get? name s.resolved = some node)
    (hm : OrderedMap.get? name s.pickedManifests = some m) :
    OrderedMap.get? name (selfDescribing input s) =
      some { node with dependencies := input.typeConfig.readDeps m } := by
  rw [get?_selfDescribing, hn, capturedDeps, hm]
  rfl

/-- A node of the tree, and the node and the manifest it is made of. -/
theorem Consistent.of_selfDescribing (h : Consistent semver input s)
    (hn : OrderedMap.get? name (selfDescribing input s) = some node) :
    ∃ node₀ m, OrderedMap.get? name s.resolved = some node₀ ∧
      OrderedMap.get? name s.pickedManifests = some m ∧
      node = { node₀ with dependencies := input.typeConfig.readDeps m } := by
  cases hin : OrderedMap.get? name s.resolved with
  | none =>
    rw [get?_selfDescribing, hin] at hn
    cases hn
  | some node₀ =>
    obtain ⟨-, -, m, -, -, hm⟩ := h.picked hin
    rw [get?_selfDescribing_of_picked hin hm] at hn
    exact ⟨node₀, m, rfl, hm, (Option.some.inj hn).symm⟩

theorem Reachable.treeReaches (h : Consistent semver input s) {root : ResolvedNode}
    (hr : Reachable input s name) :
    TreeReaches ⟨root, selfDescribing input s⟩ input.rootPackageName name := by
  induction hr with
  | root => exact .root
  | step _ hm hin ih =>
    obtain ⟨node, hn⟩ := h.kept hm
    exact .step ih (get?_selfDescribing_of_picked hn hm) hin

/-- **A tree that resolves is consistent**, under both conflict policies: its dependencies
    are nodes of it at versions their ranges admit, the root's version is in the root
    range, every scope is allowed, and nothing is left over. -/
theorem resolved_tree_consistent (semver : Semver) (hsemver : Lawful semver) (input : Input)
    (fuel : Nat) (tree : DependencyTree)
    (h : resolveDependencyTree semver fuel input = .ok tree) : ConsistentTree semver input tree := by
  unfold resolveDependencyTree at h
  split at h
  · cases h
  split at h
  · cases h
  split at h
  · cases h
  next s hrun =>
  split at h
  · cases h
  next root hroot =>
  obtain rfl := Except.ok.inj h
  obtain ⟨hc, hqueue⟩ := resolveLoop_consistent hsemver hrun
  refine ⟨?_, hroot, ?_, ?_, ?_⟩
  · intro name node hn dep range hd
    obtain ⟨node₀, m, hin, hm, rfl⟩ := hc.of_selfDescribing hn
    rcases hc.complete ⟨node₀, hin⟩ hm _ hd with ⟨q, hq, -⟩ | ⟨e, he, hrange⟩
    · rw [hqueue] at hq
      cases hq
    · obtain ⟨child, hchild, hok⟩ := hc.satisfied he
      obtain ⟨-, -, m', -, -, hm'⟩ := hc.picked hchild
      rw [hrange] at hok
      exact ⟨_, get?_selfDescribing_of_picked hchild hm', hok⟩
  · obtain ⟨node, hin, hok⟩ := hc.root
    obtain ⟨node₀, m, hin', -, rfl⟩ := hc.of_selfDescribing hroot
    obtain rfl := Option.some.inj (hin.symm.trans hin')
    exact hok
  · intro name node hn
    obtain ⟨node₀, m, hin, -⟩ := hc.of_selfDescribing hn
    exact (hc.picked hin).1
  · intro name node hn
    obtain ⟨node₀, m, hin, -⟩ := hc.of_selfDescribing hn
    exact (hc.reached hin).treeReaches hc

/-! ## A diamond -/

/-- Semver on the versions and the range of the diamond. -/
def appSemver : Semver where
  satisfies := fun version range => range = "^1.0.0" && (version = "1.0.0" || version = "1.1.0")
  gt := fun a b => a = "1.1.0" && b = "1.0.0"
  maxSatisfying := fun versions range =>
    if range ≠ "^1.0.0" then none
    else if "1.1.0" ∈ versions then some "1.1.0"
    else if "1.0.0" ∈ versions then some "1.0.0"
    else none

theorem appSemver_lawful : Lawful appSemver := by
  have hcases : ∀ {versions range pick}, appSemver.maxSatisfying versions range = some pick →
      range = "^1.0.0" ∧ pick ∈ versions ∧
        (pick = "1.1.0" ∨ pick = "1.0.0" ∧ "1.1.0" ∉ versions) := by
    intro versions range pick h
    simp only [appSemver] at h
    split at h
    · cases h
    next hrange =>
    split at h
    · next hin =>
        obtain rfl := Option.some.inj h
        exact ⟨by simpa using hrange, hin, .inl rfl⟩
    next hnew =>
    split at h
    · next hin =>
        obtain rfl := Option.some.inj h
        exact ⟨by simpa using hrange, hin, .inr ⟨rfl, hnew⟩⟩
    · cases h
  refine ⟨fun h => (hcases h).2.1, ?_, ?_⟩
  · intro versions range pick h
    obtain ⟨rfl, -, rfl | ⟨rfl, -⟩⟩ := hcases h <;> decide
  · intro versions range pick h v hv _
    obtain ⟨-, -, rfl | ⟨rfl, hnew⟩⟩ := hcases h
    · simp [appSemver]
    · have hne : v ≠ "1.1.0" := fun hc => hnew (hc ▸ hv)
      simp [appSemver, hne]

def appVersion (name version : String) (deps : OrderedMap String String) :
    String × PackumentVersionEntry :=
  (version, { name := name, version := version, dist := ⟨name ++ ".tgz", "sha512-x"⟩
              cinatra := [("agentDependencies", deps)] })

/-- An app that uses a core itself and through its views. -/
def appPackument (name : String) : Except FetchError Packument :=
  if name = "@acme/app" then
    .ok ⟨name, [appVersion name "1.0.0" [("@acme/ui", "^1.0.0"), ("@acme/core", "^1.0.0")]]⟩
  else if name = "@acme/ui" then .ok ⟨name, [appVersion name "1.0.0" [("@acme/core", "^1.0.0")]]⟩
  else if name = "@acme/core" then
    .ok ⟨name, [appVersion name "1.0.0" [], appVersion name "1.1.0" []]⟩
  else .error ⟨some 404, none, "not found"⟩

def appInput : Input where
  rootPackageName := "@acme/app"
  rootRange := "^1.0.0"
  fetchPackument := appPackument
  typeConfig := ⟨["@acme/"], "agentDependencies", none⟩
  conflictPolicy := some .preferNewer

theorem resolved_tree_of_app : ∃ tree, resolveDependencyTree appSemver 8 appInput = .ok tree ∧
      ConsistentTree appSemver appInput tree := by
  have hok : (resolveDependencyTree appSemver 8 appInput).isOk = true := by decide +kernel
  cases h : resolveDependencyTree appSemver 8 appInput with
  | error err =>
    rw [h] at hok
    cases hok
  | ok tree =>
    exact ⟨tree, rfl, resolved_tree_consistent appSemver appSemver_lawful appInput 8 tree h⟩

end RegResolvedTree
