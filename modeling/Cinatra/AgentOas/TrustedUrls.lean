import Cinatra.AgentOas.Toolboxes
import Cinatra.AgentOas.Supplied
import Cinatra.Lib.Url

/-! # Trusted URLs — what a scanned plan may talk to

    `scanOasForUntrustedUrls` reads `A2AAgent.agent_url` and `MCPToolBox.url` of
    the components at the top of a document.  The compiler emits the URL of a
    box's `client_transport`, wherever the box stands, and the scan never reads
    that one.

    * **`mem_compiledToolboxes_iff`** — which boxes of a document are emitted;
    * **`trusted_iff_spelling`** — how the trusted URLs are written;
    * **`scanned_plan_trusted_iff`** — when a scanned plan is trusted. -/

namespace AgentOas

open JsonValue

/-- Prefixes that make a URL trusted. -/
def defaultTrustedUrlPrefixes : List String := ["\x7b\x7bCINATRA_BASE_URL\x7d\x7d", "/"]

def startsWith (s start : String) : Bool := decide (start.toList <+: s.toList)

def isTrustedUrl (url : String) : Bool :=
  url == "" || defaultTrustedUrlPrefixes.any (startsWith url)

/-- The field the scan reads on a component. -/
def scannedField (component : Json) : Option String :=
  if hasType "A2AAgent" component then some "agent_url"
  else if hasType "MCPToolBox" component then some "url"
  else none

def untrustedUrl (id type field url : String) : ReviewFinding where
  code := "untrusted_external_url"
  severity := "blocker"
  message := "untrusted " ++ field ++ " on " ++ type ++ " " ++ id ++ ": " ++ url
  location := "$referenced_components." ++ id ++ "." ++ field
  source := "deterministic"

/-- One component; reading a null one throws. -/
def scanComponent (id : String) (component : Json) : Except String (List ReviewFinding) :=
  match component with
  | .null => .error "Cannot read properties of null (reading 'component_type')"
  | component =>
    .ok (((scannedField component).bind (fun field =>
      ((component.field? field).bind Json.str?).bind (fun url =>
        if isTrustedUrl url then none
        else some (untrustedUrl id
          (if hasType "A2AAgent" component then "A2AAgent" else "MCPToolBox")
          field url)))).toList)

def scanComponents : Record → Except String (List ReviewFinding)
  | [] => .ok []
  | (id, component) :: rest =>
    (scanComponent id component).bind (fun found =>
      (scanComponents rest).map (fun later => found ++ later))

/-- `Object.entries` of a value. -/
def objectEntries : Json → Record
  | .obj o => o
  | .arr xs => xs.zipIdx.map (fun x => (toString x.2, x.1))
  | _ => []

def scanOasForUntrustedUrls (parsed : Record) : Except String (List ReviewFinding) :=
  match parsed.get? "$referenced_components" with
  | none => .ok []
  | some refs => scanComponents (objectEntries refs)

/-! ## Which boxes are emitted -/

section Listed

variable (globalRegistry parsed : Record)

/-- A document lists a box behind an `AgentNode`: an entry of its agent's
    `toolboxes`, inline or referenced, is an `MCPToolBox` with an id and a
    transport URL. -/
def Lists (id : String) (box : CompiledAgentOasToolbox) : Prop :=
  ∃ agent entries entry tb transport,
    backingAgent (localRefs parsed) globalRegistry id = some agent ∧
    agent.field? "toolboxes" = some (.arr entries) ∧ entry ∈ entries ∧
    toolboxComponent (localRefs parsed) globalRegistry entry = some tb ∧
    hasType "MCPToolBox" tb = true ∧ tb.field? "id" = some (.str box.id) ∧
    tb.field? "client_transport" = some transport ∧
    transport.field? "url" = some (.str box.url)

/-- The node whose boxes are emitted: the first in order that lists any. -/
def FirstLister (id : String) : Prop :=
  ∃ before after, agentNodeIds parsed = before ++ id :: after ∧
    ∀ other ∈ before, ∀ box, ¬ Lists globalRegistry parsed other box

end Listed

theorem str?_eq_some {v : Json} {s : String} (h : v.str? = some s) : v = .str s := by
  cases v with
  | str t => cases h; rfl
  | null | bool | num | arr | obj => cases h

theorem emittedToolbox_eq_some_iff (refs globalRegistry : Record) (entry : Json)
    (box : CompiledAgentOasToolbox) : emittedToolbox refs globalRegistry entry = some box ↔
      ∃ tb transport, toolboxComponent refs globalRegistry entry = some tb ∧
        hasType "MCPToolBox" tb = true ∧ tb.field? "id" = some (.str box.id) ∧
        tb.field? "client_transport" = some transport ∧
        transport.field? "url" = some (.str box.url) := by
  rw [emittedToolbox]
  constructor
  · intro h
    obtain ⟨tb, htb, h⟩ := Option.bind_eq_some_iff.mp h
    obtain ⟨htb, htype⟩ := Option.filter_eq_some_iff.mp htb
    obtain ⟨id, hid, h⟩ := Option.bind_eq_some_iff.mp h
    obtain ⟨url, hurl, rfl⟩ := Option.map_eq_some_iff.mp h
    obtain ⟨v, hv, hid⟩ := Option.bind_eq_some_iff.mp hid
    obtain ⟨w, hw, hurl⟩ := Option.bind_eq_some_iff.mp hurl
    obtain ⟨transport, ht, hw⟩ := Option.bind_eq_some_iff.mp hw
    rw [str?_eq_some hid] at hv
    rw [str?_eq_some hurl] at hw
    exact ⟨tb, transport, htb, htype, hv, ht, hw⟩
  · rintro ⟨tb, transport, htb, htype, hid, ht, hurl⟩
    rw [htb, Option.filter_some, if_pos htype, Option.bind_some, hid, ht]
    simp [hurl, Json.str?]

theorem mem_nodeToolboxes_iff (globalRegistry parsed : Record) (id : String)
    (box : CompiledAgentOasToolbox) : box ∈ nodeToolboxes (localRefs parsed) globalRegistry id ↔
      Lists globalRegistry parsed id box := by
  rw [nodeToolboxes]
  constructor
  · intro h
    cases hagent : backingAgent (localRefs parsed) globalRegistry id with
    | none => rw [hagent] at h; cases h
    | some agent =>
      rw [hagent, Option.map_some, Option.getD_some, List.mem_filterMap] at h
      obtain ⟨entry, hentry, hbox⟩ := h
      obtain ⟨tb, transport, htb⟩ := (emittedToolbox_eq_some_iff _ _ _ _).mp hbox
      cases hlist : agent.field? "toolboxes" with
      | none => rw [hlist] at hentry; cases hentry
      | some v =>
        rw [hlist] at hentry
        cases v with
        | arr entries => exact ⟨agent, entries, entry, tb, transport, hagent, hlist, hentry, htb⟩
        | null | bool | num | str | obj => cases hentry
  · rintro ⟨agent, entries, entry, tb, transport, hagent, hlist, hentry, htb⟩
    rw [hagent, Option.map_some, Option.getD_some, List.mem_filterMap, hlist]
    exact ⟨entry, hentry, (emittedToolbox_eq_some_iff _ _ _ _).mpr ⟨tb, transport, htb⟩⟩

/-- A box is emitted when the first node that lists any lists it. -/
theorem mem_firstToolboxes_iff (globalRegistry parsed : Record) (box : CompiledAgentOasToolbox)
    (ids : List String) : box ∈ firstToolboxes (localRefs parsed) globalRegistry ids ↔
      ∃ before id after, ids = before ++ id :: after ∧
        (∀ other ∈ before, ∀ b, ¬ Lists globalRegistry parsed other b) ∧
        Lists globalRegistry parsed id box := by
  induction ids with
  | nil => simp [firstToolboxes]
  | cons id ids ih =>
    rw [firstToolboxes]
    cases hfound : nodeToolboxes (localRefs parsed) globalRegistry id with
    | nil =>
      -- the node lists nothing: the first lister comes later
      have hnone : ∀ b, ¬ Lists globalRegistry parsed id b := by
        intro b hb
        rw [← mem_nodeToolboxes_iff, hfound] at hb
        cases hb
      dsimp only
      rw [ih]
      constructor
      · rintro ⟨before, other, after, rfl, hbefore, hbox⟩
        refine ⟨id :: before, other, after, rfl, ?_, hbox⟩
        rw [List.forall_mem_cons]
        exact ⟨hnone, hbefore⟩
      · rintro ⟨before, other, after, hsplit, hbefore, hbox⟩
        cases before with
        | nil =>
          rw [List.nil_append] at hsplit
          rw [← (List.cons.inj hsplit).1] at hbox
          exact absurd hbox (hnone box)
        | cons first before =>
          rw [List.forall_mem_cons] at hbefore
          exact ⟨before, other, after, (List.cons.inj hsplit).2, hbefore.2, hbox⟩
    | cons b found =>
      have hmem : box ∈ b :: found ↔ Lists globalRegistry parsed id box := by
        rw [← hfound, mem_nodeToolboxes_iff]
      have hb : Lists globalRegistry parsed id b := by
        rw [← mem_nodeToolboxes_iff, hfound]
        exact .head _
      dsimp only
      rw [hmem]
      constructor
      · intro hbox
        exact ⟨[], id, ids, rfl, by simp, hbox⟩
      · rintro ⟨before, other, after, hsplit, hbefore, hbox⟩
        cases before with
        | nil =>
          rw [List.nil_append] at hsplit
          rw [(List.cons.inj hsplit).1]
          exact hbox
        | cons first before =>
          rw [← (List.cons.inj hsplit).1, List.forall_mem_cons] at hbefore
          exact absurd hb (hbefore.1 b)

/-- **The emitted boxes** are those the first lister lists. -/
theorem mem_compiledToolboxes_iff (globalRegistry parsed : Record) (box : CompiledAgentOasToolbox) :
    box ∈ compiledToolboxes globalRegistry parsed ↔
      ∃ id, FirstLister globalRegistry parsed id ∧ Lists globalRegistry parsed id box := by
  rw [compiledToolboxes, mem_firstToolboxes_iff]
  constructor
  · rintro ⟨before, id, after, hsplit, hbefore, hbox⟩
    exact ⟨id, ⟨before, after, hsplit, hbefore⟩, hbox⟩
  · rintro ⟨id, ⟨before, after, hsplit, hbefore⟩, hbox⟩
    exact ⟨before, id, after, hsplit, hbefore, hbox⟩

/-! ## The fan-out leaves the boxes alone -/

/-- Two components that read alike, `data` and references apart. -/
structure Alike (v w : Json) : Prop where
  container : (container? (some w)).isSome = (container? (some v)).isSome
  fields : ∀ name, name ≠ "data" → name ≠ "$referenced_components" → w.field? name = v.field? name

theorem Alike.refl (v : Json) : Alike v v := ⟨rfl, fun _ _ _ => rfl⟩

theorem Alike.hasType {v w : Json} (h : Alike v w) (name : String) :
    hasType name w = hasType name v := by
  rw [AgentOas.hasType, AgentOas.hasType, h.fields _ (by decide) (by decide)]

/-- Two lookups that fail together, or find components that read alike. -/
def AlikeFound (a b : Option Json) : Prop :=
  (a = none ∧ b = none) ∨ ∃ v w, a = some v ∧ b = some w ∧ Alike v w

theorem AlikeFound.refl (a : Option Json) : AlikeFound a a := by
  cases a with
  | none => exact .inl ⟨rfl, rfl⟩
  | some v => exact .inr ⟨v, v, rfl, rfl, Alike.refl v⟩

variable {f : Record → Record}

theorem alike_rewriteEntry (hf : DataOnly f) (inner : Json → Json)
    (v : Json) : Alike v (rewriteEntry f inner v) := by
  cases v with
  | obj node =>
    by_cases ht : isBridgeTarget node = true
    · rw [rewriteEntry_target f inner ht]
      refine ⟨rfl, ?_⟩
      intro name hdata _
      rw [Record.field?_obj, Record.field?_obj, hf name hdata]
    rw [Bool.not_eq_true] at ht
    cases hr : enteredRefs? (.obj node) with
    | none =>
      rw [rewriteEntry_other f inner ht hr]
      exact Alike.refl _
    | some r =>
      rw [rewriteEntry_entered f inner hr]
      refine ⟨rfl, ?_⟩
      intro name _ hrefs
      rw [Record.field?_obj, Record.field?_obj, Record.get?_assign_ne hrefs]
  | null | bool | num | str | arr => exact Alike.refl _

theorem localRefs_rewriteDocument (hf : DataOnly f) (parsed : Record) :
    ∃ g : Json → Json, (∀ v, Alike v (g v)) ∧ localRefs (rewriteDocument f parsed) =
        (localRefs parsed).map (fun e => (e.1, g e.2)) := by
  refine ⟨rewriteEntry f (rewriteContainer f injectMaxDepth), alike_rewriteEntry hf _, ?_⟩
  cases hr : rootRefs? parsed with
  | none =>
    have hnil : localRefs parsed = [] := by
      rw [rootRefs?] at hr
      rw [localRefs]
      cases hget : Record.get? "$referenced_components" parsed with
      | none => rfl
      | some v =>
        rw [hget] at hr
        cases v with
        | obj o => cases hr
        | null | bool | num | str | arr => rfl
    rw [rewriteDocument, hr, hnil]
    rfl
  | some r =>
    have hget := (container?_eq_some hr).1
    rw [rewriteDocument, hr, localRefs, localRefs, hget]
    dsimp only
    rw [Record.get?_assign_self]
    rcases (container?_eq_some hr).2 with ⟨o, rfl⟩ | ⟨xs, rfl⟩ <;> rfl

section Frame

variable (refs : Record) {g : Json → Json} (hg : ∀ v, Alike v (g v)) (globalRegistry : Record)

include hg

theorem resolveRef_alike (ref : Json) : AlikeFound (resolveRef refs globalRegistry ref)
      (resolveRef (refs.map (fun e => (e.1, g e.2))) globalRegistry ref) := by
  rw [resolveRef, resolveRef, resolveComponentRef, resolveComponentRef, Record.get?_map]
  cases hget : Record.get? (toText ref) refs with
  | none => exact AlikeFound.refl _
  | some v =>
    have hv := hg v
    have hiff := hv.container
    rw [Option.map_some]
    cases hc : container? (some v) with
    | none =>
      have hc' : container? (some (g v)) = none := by simpa [hc] using hiff
      rw [hc']
      exact AlikeFound.refl _
    | some r =>
      obtain ⟨r', hr'⟩ := Option.isSome_iff_exists.mp (by rw [hiff, hc]; rfl)
      have hvr := Option.some.inj (container?_eq_some hc).1
      have hgr := Option.some.inj (container?_eq_some hr').1
      rw [hr', ← hvr, ← hgr]
      exact .inr ⟨v, g v, rfl, rfl, hv⟩

theorem backingAgent_alike (id : String) : AlikeFound (backingAgent refs globalRegistry id)
      (backingAgent (refs.map (fun e => (e.1, g e.2))) globalRegistry id) := by
  have hagent : ((Record.get? id refs).map g).bind (Json.field? "agent") =
      (Record.get? id refs).bind (Json.field? "agent") := by
    cases Record.get? id refs with
    | none => rfl
    | some v => exact (hg v).fields _ (by decide) (by decide)
  rw [backingAgent, backingAgent, Record.get?_map, hagent]
  cases ((((Record.get? id refs).bind (Json.field? "agent")).bind
      (Json.field? "$component_ref")).filter jsTruthy) with
  | none => exact .inl ⟨rfl, rfl⟩
  | some ref =>
    rw [Option.bind_some, Option.bind_some]
    rcases resolveRef_alike refs hg globalRegistry ref with
      ⟨hv, hw⟩ | ⟨v, w, hv, hw, halike⟩
    · rw [hv, hw]
      exact .inl ⟨rfl, rfl⟩
    · rw [hv, hw, Option.filter_some, Option.filter_some, halike.hasType]
      split
      · exact .inr ⟨v, w, rfl, rfl, halike⟩
      · exact .inl ⟨rfl, rfl⟩

theorem toolboxComponent_alike (entry : Json) :
    AlikeFound (toolboxComponent refs globalRegistry entry)
      (toolboxComponent (refs.map (fun e => (e.1, g e.2))) globalRegistry entry) := by
  rw [toolboxComponent, toolboxComponent]
  cases container? (some entry) with
  | none => exact .inl ⟨rfl, rfl⟩
  | some tb =>
    rw [Option.bind_some, Option.bind_some]
    cases tb.field? "$component_ref" with
    | none => exact AlikeFound.refl _
    | some ref => exact resolveRef_alike refs hg globalRegistry ref

theorem emittedToolbox_alike (entry : Json) :
    emittedToolbox (refs.map (fun e => (e.1, g e.2))) globalRegistry entry =
      emittedToolbox refs globalRegistry entry := by
  rw [emittedToolbox, emittedToolbox]
  rcases toolboxComponent_alike refs hg globalRegistry entry with
    ⟨hv, hw⟩ | ⟨v, w, hv, hw, halike⟩
  · rw [hv, hw]
  rw [hv, hw, Option.filter_some, Option.filter_some, halike.hasType]
  split
  · rw [Option.bind_some, Option.bind_some, halike.fields _ (by decide) (by decide),
      halike.fields _ (by decide) (by decide)]
  · rfl

theorem nodeToolboxes_alike (id : String) :
    nodeToolboxes (refs.map (fun e => (e.1, g e.2))) globalRegistry id =
      nodeToolboxes refs globalRegistry id := by
  have hemit : emittedToolbox (refs.map (fun e => (e.1, g e.2))) globalRegistry =
      emittedToolbox refs globalRegistry :=
    funext (emittedToolbox_alike refs hg globalRegistry)
  rw [nodeToolboxes, nodeToolboxes, hemit]
  rcases backingAgent_alike refs hg globalRegistry id with
    ⟨hv, hw⟩ | ⟨v, w, hv, hw, halike⟩
  · rw [hv, hw]
  · rw [hv, hw, Option.map_some, Option.map_some, halike.fields _ (by decide) (by decide)]

theorem firstToolboxes_alike (ids : List String) :
    firstToolboxes (refs.map (fun e => (e.1, g e.2))) globalRegistry ids =
      firstToolboxes refs globalRegistry ids := by
  induction ids with
  | nil => rfl
  | cons id ids ih => rw [firstToolboxes, firstToolboxes, nodeToolboxes_alike refs hg, ih]

end Frame

theorem nodeIds_rewriteDocument (f : Record → Record) (parsed : Record) :
    nodeIds (rewriteDocument f parsed) = nodeIds parsed := by
  have hedges : controlEdges (rewriteDocument f parsed) = controlEdges parsed := by
    rw [controlEdges, controlEdges, get?_rewriteDocument f parsed (by decide)]
  have hstart : startEntryId (rewriteDocument f parsed) = startEntryId parsed := by
    rw [startEntryId, startEntryId, get?_rewriteDocument f parsed (by decide)]
  rw [nodeIds, nodeIds, reachedNodeIds, reachedNodeIds, hedges, hstart,
    get?_rewriteDocument f parsed (by decide)]

/-- **The fan-out changes no toolbox.** -/
theorem compiledToolboxes_rewriteDocument (hf : DataOnly f) (globalRegistry parsed : Record) :
    compiledToolboxes globalRegistry (rewriteDocument f parsed) =
      compiledToolboxes globalRegistry parsed := by
  obtain ⟨g, hg, hrefs⟩ := localRefs_rewriteDocument hf parsed
  rw [compiledToolboxes, compiledToolboxes, agentNodeIds, agentNodeIds,
    nodeIds_rewriteDocument, hrefs, firstToolboxes_alike _ hg]
  congr 1
  apply List.filter_congr
  intro id _
  rw [Record.get?_map]
  cases Record.get? id (localRefs parsed) with
  | none => rfl
  | some v => exact (hg v).hasType _

/-! ## Where a URL leads -/

section Trust

variable (scheme host : List Char)

/-- The placeholder the runtime replaces. -/
def baseUrlPlaceholder : List Char := "{{CINATRA_BASE_URL}}".toList

/-- The text with every placeholder replaced; `skip` characters of one are
    still to be dropped. -/
def substituteFrom (baseUrl : List Char) : Nat → List Char → List Char
  | _, [] => []
  | skip + 1, _ :: t => substituteFrom baseUrl skip t
  | 0, c :: t =>
    if baseUrlPlaceholder <+: c :: t then
      baseUrl ++ substituteFrom baseUrl (baseUrlPlaceholder.length - 1) t
    else c :: substituteFrom baseUrl 0 t

/-- The base URL of a site: its scheme and host. -/
def siteBaseUrl : List Char := scheme ++ "://".toList ++ host

/-- A URL as it is fetched: placeholders replaced, blanks dropped. -/
def substituted (url : String) : List Char :=
  Url.clean (substituteFrom (siteBaseUrl scheme host) 0 url.toList)

/-- A URL a site may trust: a path of the site, or its own origin. -/
def TrustedUrl (url : String) : Prop :=
  Url.target scheme (substituted scheme host url) = .site ∨
  Url.target scheme (substituted scheme host url) = .origin scheme (Url.normalHost scheme host)

/-- How a trusted URL is written. -/
def TrustedSpelling (url : String) : Prop :=
  Url.SitePath (substituted scheme host url) ∨
  Url.Spells scheme scheme (Url.normalHost scheme host) (substituted scheme host url)

/-- **The trusted URLs are those so written.** -/
theorem trusted_iff_spelling (url : String) :
    TrustedUrl scheme host url ↔ TrustedSpelling scheme host url := by
  rw [TrustedUrl, TrustedSpelling, Url.target_eq_site_iff, Url.target_eq_origin_iff]

/-- The fan-out that runs before the emission changes no toolbox. -/
theorem toolboxes_of_compiled {Rest : Type} {otherBlocks : Record → Except String Rest}
    {globalRegistry parsed : Record} {plan : CompiledAgentOas Rest}
    (hplan : compileOasAgentJson otherBlocks globalRegistry parsed = .ok plan) :
    plan.toolboxes = compiledToolboxes globalRegistry parsed := by
  rw [compileOasAgentJson] at hplan
  cases hfan : fanOutMetadata parsed with
  | error e => rw [hfan] at hplan; cases hplan
  | ok fanned =>
    rw [hfan] at hplan
    have hsame : compiledToolboxes globalRegistry fanned =
        compiledToolboxes globalRegistry parsed := by
      rw [fanOutMetadata_eq, runAll_eq_ok_iff] at hfan
      rw [hfan.2]
      exact compiledToolboxes_rewriteDocument (supplyAll_dataOnly _) globalRegistry parsed
    cases hrest : otherBlocks fanned with
    | error e => simp [Except.bind, hrest, Except.map] at hplan
    | ok rest =>
      simp only [Except.bind, hrest, Except.map, Except.ok.injEq] at hplan
      rw [← hplan]
      exact hsame

/-- **The fan-out is done once**: a document that has been fanned out compiles to what the
    document itself compiles to, and to the toolboxes that were there before. -/
theorem compile_fanned {Rest : Type} (otherBlocks : Record → Except String Rest)
    (globalRegistry parsed : Record) :
    (fanOutMetadata parsed).bind (compileOasAgentJson otherBlocks globalRegistry) =
        compileOasAgentJson otherBlocks globalRegistry parsed ∧
      ∀ plan, compileOasAgentJson otherBlocks globalRegistry parsed = .ok plan →
        plan.toolboxes = compiledToolboxes globalRegistry parsed := by
  refine ⟨?_, fun plan hplan => toolboxes_of_compiled hplan⟩
  cases hfan : fanOutMetadata parsed with
  | error e => rw [compileOasAgentJson, hfan]; rfl
  | ok fanned =>
    show compileOasAgentJson otherBlocks globalRegistry fanned = _
    rw [compileOasAgentJson, compileOasAgentJson, hfan, fanOutMetadata_idem hfan]

/-- **A scanned plan is trusted when every transport URL it takes from its
    document is written as a trusted one**; the scan itself decides nothing. -/
theorem scanned_plan_trusted_iff {Rest : Type} (otherBlocks : Record → Except String Rest)
    (globalRegistry parsed : Record) (plan : CompiledAgentOas Rest)
    (hplan : compileOasAgentJson otherBlocks globalRegistry parsed = .ok plan) :
    (scanOasForUntrustedUrls parsed = .ok [] → ∀ url ∈ plan.urls, TrustedUrl scheme host url) ↔
      (scanOasForUntrustedUrls parsed = .ok [] →
        ∀ id box, FirstLister globalRegistry parsed id → Lists globalRegistry parsed id box →
          TrustedSpelling scheme host box.url) := by
  refine forall_congr' fun _ => ?_
  rw [CompiledAgentOas.urls, toolboxes_of_compiled hplan]
  constructor
  · intro h id box hfirst hlists
    rw [← trusted_iff_spelling]
    apply h
    exact List.mem_map_of_mem
      ((mem_compiledToolboxes_iff globalRegistry parsed box).mpr ⟨id, hfirst, hlists⟩)
  · intro h url hurl
    obtain ⟨box, hbox, rfl⟩ := List.mem_map.mp hurl
    obtain ⟨id, hfirst, hlists⟩ := (mem_compiledToolboxes_iff globalRegistry parsed box).mp hbox
    rw [trusted_iff_spelling]
    exact h id box hfirst hlists

end Trust

/-! ## A scanned plan that is not trusted -/

def componentRef (id : String) : Json := .obj [("$component_ref", .str id)]

def controlEdge (fromId toId : String) : Json :=
  .obj [("component_type", .str "ControlFlowEdge"), ("name", .str (fromId ++ "_" ++ toId)),
    ("from_node", componentRef fromId), ("to_node", componentRef toId)]

/-- An agent whose toolbox has a foreign transport URL and no `url` of its own. -/
def foreignTransport : Record :=
  [("agentspec_version", .str "26.1.0"), ("component_type", .str "Flow"),
   ("id", .str "flow"), ("name", .str "flow"),
   ("metadata", .obj [("cinatra", .obj [("type", .str "leaf")])]),
   ("inputs", .arr []), ("outputs", .arr []), ("start_node", componentRef "start"),
   ("nodes", .arr [componentRef "start", componentRef "work", componentRef "end"]),
   ("control_flow_connections", .arr [controlEdge "start" "work", controlEdge "work" "end"]),
   ("$referenced_components", .obj
     [("start", .obj [("component_type", .str "StartNode"), ("id", .str "start"),
        ("name", .str "start"), ("inputs", .arr [])]),
      ("work", .obj [("component_type", .str "AgentNode"), ("id", .str "work"),
        ("name", .str "work"), ("agent", componentRef "agent")]),
      ("end", .obj [("component_type", .str "EndNode"), ("id", .str "end"),
        ("name", .str "end"), ("outputs", .arr [])]),
      ("agent", .obj [("component_type", .str "Agent"), ("id", .str "agent"),
        ("system_prompt", .str "Work."), ("toolboxes", .arr [componentRef "box"])]),
      ("box", .obj [("component_type", .str "MCPToolBox"), ("id", .str "box"),
        ("client_transport", .obj
          [("component_type", .str "StreamableHTTPTransport"), ("id", .str "transport"),
           ("url", .str "https://evil.example/mcp")])])])]

/-- The plan of a document when the other blocks succeed and add nothing. -/
def barePlan (parsed : Record) : CompiledAgentOas Unit :=
  ⟨compiledToolboxes [] parsed, ()⟩

theorem foreignTransport_compiles : compileOasAgentJson (fun _ => .ok ()) [] foreignTransport =
      .ok (barePlan foreignTransport) := by
  have hfan : fanOutMetadata foreignTransport = .ok foreignTransport := by decide +kernel
  rw [compileOasAgentJson, hfan]
  rfl

/-- **The scan reports nothing and the plan talks to a foreign host.** -/
theorem foreignTransport_untrusted :
    ¬ ∀ (otherBlocks : Record → Except String Unit) (globalRegistry parsed : Record)
        (plan : CompiledAgentOas Unit),
        compileOasAgentJson otherBlocks globalRegistry parsed = .ok plan →
        scanOasForUntrustedUrls parsed = .ok [] →
        ∀ url ∈ plan.urls, TrustedUrl "https".toList "app.example".toList url := by
  intro h
  have hscan : scanOasForUntrustedUrls foreignTransport = .ok [] := by decide +kernel
  have hurls : "https://evil.example/mcp" ∈ (barePlan foreignTransport).urls := by decide +kernel
  have htrusted := h (fun _ => .ok ()) [] foreignTransport (barePlan foreignTransport)
    foreignTransport_compiles hscan "https://evil.example/mcp" hurls
  rw [TrustedUrl] at htrusted
  exact absurd htrusted (by decide +kernel)

theorem foreignTransport_condition : (scanOasForUntrustedUrls foreignTransport = .ok [] →
        ∀ url ∈ (barePlan foreignTransport).urls,
          TrustedUrl "https".toList "app.example".toList url) ↔
      (scanOasForUntrustedUrls foreignTransport = .ok [] →
        ∀ id box, FirstLister [] foreignTransport id → Lists [] foreignTransport id box →
          TrustedSpelling "https".toList "app.example".toList box.url) :=
  scanned_plan_trusted_iff _ _ (fun _ => .ok ()) [] foreignTransport
    (barePlan foreignTransport) foreignTransport_compiles

end AgentOas
