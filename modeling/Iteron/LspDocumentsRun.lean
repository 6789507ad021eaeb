import Iteron.LspDocuments
/-!
# LspDocumentsRun — diagnostics are acted on only for the text they were published for

The history of a store is what crossed the wire, newest first: the wire versions its answers allotted and the payloads
readers published.  What the store keeps is compared with it.
-/
namespace Iteron.Lsp

open Kernel (Json)
open Machine (saturatingAdd)

/-! ## History -/

inductive DocumentEvent where
  | allotted (uri : String) (wireVersion : Int)
  | published (readerEpoch : ServerEpoch) (uri : String) (version : Option Int) (diagnostics : List Json)

def DocumentEvent.wireVersion : DocumentEvent → Option Int
  | .allotted _ wireVersion => some wireVersion
  | .published _ _ _ _ => none

def DocumentEvent.allottedTo (uri : String) : DocumentEvent → Option Int
  | .allotted uri' wireVersion => if uri' = uri then some wireVersion else none
  | .published _ _ _ _ => none

def wireVersions (h : List DocumentEvent) : List Int := h.filterMap DocumentEvent.wireVersion

def lastAllotted (h : List DocumentEvent) (uri : String) : Option Int := (h.filterMap (DocumentEvent.allottedTo uri)).head?

def eventsOf (codec : Codec) (s : DocumentStore) : DocumentRequest → List DocumentEvent
  | .openDocument uri sourceRevision =>
    match (s.openDocument codec uri sourceRevision).2 with
    | .ok snapshot => [.allotted uri snapshot.wireVersion]
    | .error _ => []
  | .change uri sourceRevision =>
    match (s.change codec uri sourceRevision).2 with
    | .ok (.accepted snapshot) => [.allotted uri snapshot.wireVersion]
    | _ => []
  | .resync uri sourceRevision =>
    match (s.resync codec uri sourceRevision).2 with
    | .ok snapshot => [.allotted uri snapshot.wireVersion]
    | .error _ => []
  | .close _ => []
  | .publish readerEpoch uri version diagnostics => [.published readerEpoch uri version diagnostics]

/-- The states of a store, with their histories. -/
inductive Stored (codec : Codec) (epoch : ServerEpoch) : DocumentStore → List DocumentEvent → Prop
  | new : Stored codec epoch { serverEpoch := epoch } []
  | serve (s : DocumentStore) (h : List DocumentEvent) (q : DocumentRequest) (hs : Stored codec epoch s h) :
    Stored codec epoch (s.serve codec q) (eventsOf codec s q ++ h)

/-- A list was published by a reader of the epoch for the version last allotted at the time. -/
def Published (codec : Codec) (epoch : ServerEpoch) (h : List DocumentEvent) (uri : String) (wireVersion : Int)
    (list : List Json) : Prop :=
  ∃ after before diagnostics encodedBytes nodes,
    h = after ++ .published epoch uri (some wireVersion) diagnostics :: before ∧
    lastAllotted before uri = some wireVersion ∧
    canonicalizeDiagnostics codec diagnostics = .ok (list, encodedBytes, nodes)

/-- **Diagnostics are fresh and paid for.** -/
structure Fresh (codec : Codec) (epoch : ServerEpoch) (s : DocumentStore) (h : List DocumentEvent) : Prop where
  neverReused : (wireVersions h).Nodup
  actionable : ∀ uri list, s.actionableDiagnostics codec uri = .ok list → list ≠ [] →
    ∃ doc, s.docs[uri]? = some doc ∧ doc.state = .synced ∧ lastAllotted h uri = some doc.wireVersion ∧
      Published codec epoch h uri doc.wireVersion list
  bytes : s.diagnosticBytes = Table.total Document.encodedBytes s.docs
  nodes : s.diagnosticNodes = Table.total Document.nodes s.docs
  bytesBounded : s.diagnosticBytes ≤ maxDiagnosticBytesTotal
  nodesBounded : s.diagnosticNodes ≤ maxDiagnosticJsonNodesTotal

/-! ## The invariant -/

structure Retained (codec : Codec) (epoch : ServerEpoch) (s : DocumentStore) (h : List DocumentEvent) : Prop where
  owner : s.serverEpoch = epoch
  neverReused : (wireVersions h).Nodup
  below : ∀ next, s.nextWireVersion = some next → ∀ v ∈ wireVersions h, v < next
  last : ∀ uri doc, s.docs[uri]? = some doc → lastAllotted h uri = some doc.wireVersion
  exact : ∀ uri doc set generation wireVersion, s.docs[uri]? = some doc → doc.diagnosticSet = some set →
    set.freshness = .exact generation wireVersion → Published codec epoch h uri doc.wireVersion set.diagnostics
  bytes : s.diagnosticBytes = Table.total Document.encodedBytes s.docs
  nodes : s.diagnosticNodes = Table.total Document.nodes s.docs
  bytesBounded : s.diagnosticBytes ≤ maxDiagnosticBytesTotal
  nodesBounded : s.diagnosticNodes ≤ maxDiagnosticJsonNodesTotal

section

variable {codec : Codec} {epoch : ServerEpoch} {s s' : DocumentStore} {h h' : List DocumentEvent}

variable {uri : String}

theorem Published.later {wireVersion : Int} {list : List Json}
    (hp : Published codec epoch h uri wireVersion list) (events : List DocumentEvent) :
    Published codec epoch (events ++ h) uri wireVersion list := by
  obtain ⟨after, before, diagnostics, encodedBytes, nodes, rfl, hlast, hcanonical⟩ := hp
  exact ⟨events ++ after, before, diagnostics, encodedBytes, nodes, by rw [List.append_assoc], hlast, hcanonical⟩

theorem lastAllotted_allotted (uri : String) (wireVersion : Int) :
    lastAllotted (.allotted uri wireVersion :: h) uri = some wireVersion := by
  simp [lastAllotted, DocumentEvent.allottedTo]

theorem lastAllotted_other {uri' : String} (hne : uri ≠ uri') (wireVersion : Int) :
    lastAllotted (.allotted uri wireVersion :: h) uri' = lastAllotted h uri' := by
  simp [lastAllotted, DocumentEvent.allottedTo, hne]

theorem Retained.fresh (hr : Retained codec epoch s h) : Fresh codec epoch s h := by
  refine ⟨hr.neverReused, ?_, hr.bytes, hr.nodes, hr.bytesBounded, hr.nodesBounded⟩
  intro uri list hlist hne
  unfold DocumentStore.actionableDiagnostics at hlist
  split at hlist
  · cases hlist
  · split at hlist
    · cases hlist
    · rename_i doc hdoc
      split at hlist
      · cases hlist
      · rename_i hstate
        have hsynced : doc.state = .synced := by
          cases hcase : doc.state with
          | synced => rfl
          | desynchronized => cases hstate hcase
        split at hlist
        · exact absurd (Except.ok.inj hlist).symm hne
        · rename_i set hset
          split at hlist
          · rename_i hfresh
            cases hlist
            exact ⟨doc, hdoc, hsynced, hr.last uri doc hdoc, hr.exact uri doc set _ _ hdoc hset hfresh⟩
          · cases hlist

/-! ## Moves -/

structure Wrote (s s' : DocumentStore) (uri : String) (doc : Document) : Prop where
  epoch : s'.serverEpoch = s.serverEpoch
  docs : s'.docs = s.docs.insert uri doc
  cleared : doc.diagnosticSet = none
  bytes : s'.diagnosticBytes = s.diagnosticBytes - Table.weight Document.encodedBytes s.docs uri
  nodes : s'.diagnosticNodes = s.diagnosticNodes - Table.weight Document.nodes s.docs uri

variable {uri : String}

variable {doc : Document}

theorem Retained.wrote (hr : Retained codec epoch s h) (hw : Wrote s s' uri doc)
    (events : List DocumentEvent) (hreused : (wireVersions (events ++ h)).Nodup)
    (hbelow : ∀ next, s'.nextWireVersion = some next → ∀ v ∈ wireVersions (events ++ h), v < next)
    (hlast : lastAllotted (events ++ h) uri = some doc.wireVersion)
    (hother : ∀ uri', uri ≠ uri' → lastAllotted (events ++ h) uri' = lastAllotted h uri') :
    Retained codec epoch s' (events ++ h) := by
  have hbytes := Table.total_insert Document.encodedBytes s.docs uri doc
  have hnodes := Table.total_insert Document.nodes s.docs uri doc
  have hnobytes : doc.encodedBytes = 0 := by simp [Document.encodedBytes, hw.cleared]
  have hnonodes : doc.nodes = 0 := by simp [Document.nodes, hw.cleared]
  refine ⟨hw.epoch.trans hr.owner, hreused, hbelow, ?_, ?_, ?_, ?_, ?_, ?_⟩
  · intro uri' doc' hdoc'
    rw [hw.docs] at hdoc'
    rcases Table.insert_eq_some hdoc' with ⟨rfl, rfl⟩ | ⟨hne, hdoc'⟩
    · exact hlast
    · rw [hother uri' hne]
      exact hr.last uri' doc' hdoc'
  · intro uri' doc' set generation wireVersion hdoc' hset hfresh
    rw [hw.docs] at hdoc'
    rcases Table.insert_eq_some hdoc' with ⟨rfl, rfl⟩ | ⟨hne, hdoc'⟩
    · rw [hw.cleared] at hset
      cases hset
    · exact (hr.exact uri' doc' set generation wireVersion hdoc' hset hfresh).later events
  · rw [hw.bytes, hw.docs, hr.bytes]
    omega
  · rw [hw.nodes, hw.docs, hr.nodes]
    omega
  · rw [hw.bytes]
    exact Nat.le_trans (Nat.sub_le _ _) hr.bytesBounded
  · rw [hw.nodes]
    exact Nat.le_trans (Nat.sub_le _ _) hr.nodesBounded

variable {doc doc' : Document}

theorem Retained.rewrote (hr : Retained codec epoch s h) (hdoc : s.docs[uri]? = some doc) (hw : Wrote s s' uri doc')
    (hversion : doc'.wireVersion = doc.wireVersion) (hnext : s'.nextWireVersion = s.nextWireVersion) :
    Retained codec epoch s' h := by
  refine hr.wrote hw [] hr.neverReused ?_ ?_ (fun _ _ => rfl)
  · rw [hnext]
    exact hr.below
  · rw [hversion]
    exact hr.last uri doc hdoc

theorem Retained.sent {next : Option Int} (hr : Retained codec epoch s h)
    (hallot : allocateWireVersion s.nextWireVersion = .ok (doc.wireVersion, next)) (hw : Wrote s s' uri doc)
    (hnext : s'.nextWireVersion = next) : Retained codec epoch s' (.allotted uri doc.wireVersion :: h) := by
  unfold allocateWireVersion at hallot
  split at hallot
  · cases hallot
  · rename_i value hvalue
    obtain ⟨hversion, hafter⟩ := Prod.ext_iff.1 (Except.ok.inj hallot)
    dsimp only at hversion hafter
    have hbelow := hr.below value hvalue
    rw [hversion] at hbelow hafter
    have hversions : wireVersions (.allotted uri doc.wireVersion :: h) = doc.wireVersion :: wireVersions h := rfl
    refine hr.wrote hw [.allotted uri doc.wireVersion] ?_ ?_ (lastAllotted_allotted uri doc.wireVersion)
      (fun uri' hne => lastAllotted_other hne doc.wireVersion)
    · rw [List.singleton_append, hversions, List.nodup_cons]
      exact ⟨fun hmem => lt_irrefl _ (hbelow _ hmem), hr.neverReused⟩
    · intro next' hnext' v hv
      rw [hnext, ← hafter] at hnext'
      split at hnext'
      · cases hnext'
        rcases List.mem_cons.1 hv with rfl | hv
        · omega
        · have := hbelow v hv
          omega
      · cases hnext'

structure Unchanged (s s' : DocumentStore) : Prop where
  epoch : s'.serverEpoch = s.serverEpoch
  docs : s'.docs = s.docs
  next : s'.nextWireVersion = s.nextWireVersion
  bytes : s'.diagnosticBytes = s.diagnosticBytes
  nodes : s'.diagnosticNodes = s.diagnosticNodes

theorem Retained.unchanged (hr : Retained codec epoch s h) (hu : Unchanged s s') : Retained codec epoch s' h := by
  refine ⟨hu.epoch.trans hr.owner, hr.neverReused, ?_, ?_, ?_, ?_, ?_, ?_, ?_⟩
  · rw [hu.next]
    exact hr.below
  · rw [hu.docs]
    exact hr.last
  · rw [hu.docs]
    exact hr.exact
  · rw [hu.bytes, hu.docs, hr.bytes]
  · rw [hu.nodes, hu.docs, hr.nodes]
  · rw [hu.bytes]
    exact hr.bytesBounded
  · rw [hu.nodes]
    exact hr.nodesBounded

theorem Retained.publication (hr : Retained codec epoch s h) (readerEpoch : ServerEpoch) (uri : String)
    (version : Option Int) (diagnostics : List Json) :
    Retained codec epoch s (.published readerEpoch uri version diagnostics :: h) where
  owner := hr.owner
  neverReused := hr.neverReused
  below := hr.below
  last := hr.last
  exact uri' doc set generation wireVersion hdoc hset hfresh :=
    (hr.exact uri' doc set generation wireVersion hdoc hset hfresh).later [_]
  bytes := hr.bytes
  nodes := hr.nodes
  bytesBounded := hr.bytesBounded
  nodesBounded := hr.nodesBounded

/-! ## Documents written -/

theorem wrote_clear (hdoc : s.docs[uri]? = some doc) :
    Wrote s (s.clearDocumentDiagnostics uri) uri { doc with diagnosticSet := none } := by
  have hclear : s.clearDocumentDiagnostics uri =
      { s.releaseBudget doc with docs := s.docs.insert uri { doc with diagnosticSet := none } } := by
    unfold DocumentStore.clearDocumentDiagnostics
    rw [hdoc]
  rw [hclear]
  refine ⟨rfl, rfl, rfl, ?_, ?_⟩
  · rw [Table.weight_of_get hdoc]
    rfl
  · rw [Table.weight_of_get hdoc]
    rfl

theorem Wrote.modify (hw : Wrote s s' uri doc) (f : Document → Document)
    (hf : (f doc).diagnosticSet = none) : Wrote s (s'.modify uri f) uri (f doc) := by
  have hdoc : s'.docs[uri]? = some doc := by rw [hw.docs, Table.get_insert, if_pos rfl]
  have hmodify : s'.modify uri f = { s' with docs := s'.docs.insert uri (f doc) } := by
    unfold DocumentStore.modify
    rw [hdoc]
  rw [hmodify]
  exact ⟨hw.epoch, by rw [hw.docs, Table.insert_insert], hf, hw.bytes, hw.nodes⟩

theorem wrote_markDesynchronized (hdoc : s.docs[uri]? = some doc) :
    Wrote s (s.markDesynchronized uri) uri { doc with diagnosticSet := none, state := .desynchronized } :=
  (wrote_clear hdoc).modify (fun doc => { doc with state := .desynchronized }) rfl

theorem nextWireVersion_modify (uri : String) (f : Document → Document) :
    (s.modify uri f).nextWireVersion = s.nextWireVersion := by
  unfold DocumentStore.modify
  cases s.docs[uri]? <;> rfl

theorem nextWireVersion_clear (uri : String) : (s.clearDocumentDiagnostics uri).nextWireVersion = s.nextWireVersion := by
  unfold DocumentStore.clearDocumentDiagnostics
  cases s.docs[uri]? <;> rfl

theorem nextWireVersion_markDesynchronized (uri : String) :
    (s.markDesynchronized uri).nextWireVersion = s.nextWireVersion := by
  rw [DocumentStore.markDesynchronized, nextWireVersion_modify, nextWireVersion_clear]

theorem Retained.markDesynchronized (hr : Retained codec epoch s h)
    (hdoc : s.docs[uri]? = some doc) : Retained codec epoch (s.markDesynchronized uri) h :=
  hr.rewrote hdoc (wrote_markDesynchronized hdoc) rfl (nextWireVersion_markDesynchronized uri)

theorem Retained.sendText {old doc : Document} {next : Option Int} (hr : Retained codec epoch s h)
    (hdoc : s.docs[uri]? = some old) (hcleared : doc.diagnosticSet = none)
    (hallot : allocateWireVersion s.nextWireVersion = .ok (doc.wireVersion, next)) :
    Retained codec epoch ({ s with nextWireVersion := next }.sendText uri doc).1 (.allotted uri doc.wireVersion :: h) := by
  have hw := (@wrote_clear { s with nextWireVersion := next } uri old hdoc).modify (fun _ => doc) hcleared
  refine hr.sent hallot ⟨hw.epoch, hw.docs, hw.cleared, hw.bytes, hw.nodes⟩ ?_
  rw [DocumentStore.sendText, nextWireVersion_modify, nextWireVersion_clear]

/-! ## Requests -/

theorem Retained.desynchronizeIf (hr : Retained codec epoch s h) (uri : String) :
    Retained codec epoch (if s.docs.contains uri then s.markDesynchronized uri else s) h := by
  split
  · rename_i hcontains
    rw [← Std.ExtTreeMap.isSome_getElem?_eq_contains, Option.isSome_iff_exists] at hcontains
    obtain ⟨_, hdoc⟩ := hcontains
    exact hr.markDesynchronized hdoc
  · exact hr

structure Removed (s s' : DocumentStore) (uri : String) : Prop where
  epoch : s'.serverEpoch = s.serverEpoch
  next : s'.nextWireVersion = s.nextWireVersion
  docs : s'.docs = s.docs.erase uri
  bytes : s'.diagnosticBytes = s.diagnosticBytes - Table.weight Document.encodedBytes s.docs uri
  nodes : s'.diagnosticNodes = s.diagnosticNodes - Table.weight Document.nodes s.docs uri

theorem removed_remove (s : DocumentStore) (uri : String) : Removed s (s.remove uri) uri := by
  unfold DocumentStore.remove
  cases hdoc : s.docs[uri]? with
  | none =>
    have hweight : ∀ f : Document → Nat, Table.weight f s.docs uri = 0 := by
      intro f
      rw [Table.weight, hdoc, Option.map_none, Option.getD_none]
    refine ⟨rfl, rfl, ?_, by rw [hweight, Nat.sub_zero], by rw [hweight, Nat.sub_zero]⟩
    refine Std.ExtTreeMap.ext_getElem? (fun a => ?_)
    rw [Table.get_erase]
    by_cases ha : uri = a
    · rw [if_pos ha, ← ha]
      exact hdoc
    · rw [if_neg ha]
  | some _ =>
    refine ⟨rfl, rfl, rfl, ?_, ?_⟩
    · rw [Table.weight_of_get hdoc]
      rfl
    · rw [Table.weight_of_get hdoc]
      rfl

theorem Removed.wrote (hm : Removed s s' uri) (hcleared : doc.diagnosticSet = none) :
    Wrote s { s' with docs := s'.docs.insert uri doc } uri doc :=
  ⟨hm.epoch, by rw [hm.docs, Table.insert_erase], hcleared, hm.bytes, hm.nodes⟩

section

variable (hr : Retained codec epoch s h)
include hr

theorem Retained.removed (hm : Removed s s' uri) : Retained codec epoch s' h := by
  have hbytes := Table.total_erase Document.encodedBytes s.docs uri
  have hnodes := Table.total_erase Document.nodes s.docs uri
  have hkept : ∀ (uri' : String) (doc : Document), s'.docs[uri']? = some doc → s.docs[uri']? = some doc := by
    intro uri' doc hdoc
    rw [hm.docs, Table.get_erase] at hdoc
    split at hdoc
    · cases hdoc
    · exact hdoc
  refine ⟨hm.epoch.trans hr.owner, hr.neverReused, ?_, ?_, ?_, ?_, ?_, ?_, ?_⟩
  · rw [hm.next]
    exact hr.below
  · exact fun uri' doc hdoc => hr.last uri' doc (hkept uri' doc hdoc)
  · exact fun uri' doc set generation wireVersion hdoc =>
      hr.exact uri' doc set generation wireVersion (hkept uri' doc hdoc)
  · rw [hm.bytes, hm.docs, hr.bytes]
    omega
  · rw [hm.nodes, hm.docs, hr.nodes]
    omega
  · rw [hm.bytes]
    exact Nat.le_trans (Nat.sub_le _ _) hr.bytesBounded
  · rw [hm.nodes]
    exact Nat.le_trans (Nat.sub_le _ _) hr.nodesBounded

theorem retained_openDocument (uri : String) (sourceRevision : Int) :
    Retained codec epoch (s.serve codec (.openDocument uri sourceRevision))
      (eventsOf codec s (.openDocument uri sourceRevision) ++ h) := by
  simp only [eventsOf, DocumentStore.serve]
  generalize hopen : s.openDocument codec uri sourceRevision = result
  unfold DocumentStore.openDocument at hopen
  split at hopen
  · obtain rfl := hopen
    exact hr
  · dsimp only at hopen
    split at hopen
    · obtain rfl := hopen
      exact hr.unchanged ⟨rfl, rfl, rfl, rfl, rfl⟩
    · split at hopen
      · obtain rfl := hopen
        exact hr.desynchronizeIf uri
      · rename_i incarnation next _
        have hr' : Retained codec epoch { s with nextIncarnation := next } h := hr.unchanged ⟨rfl, rfl, rfl, rfl, rfl⟩
        split at hopen
        · obtain rfl := hopen
          exact hr'.desynchronizeIf uri
        · rename_i wireVersion next' hallot
          obtain rfl := hopen
          have hm := removed_remove { s with nextIncarnation := next, nextWireVersion := next' } uri
          have hw := @Removed.wrote _ _ uri ⟨sourceRevision, wireVersion, incarnation, .synced, none⟩ hm rfl
          exact @Retained.sent codec epoch _ _ h uri ⟨sourceRevision, wireVersion, incarnation, .synced, none⟩ next' hr'
            hallot ⟨hw.epoch, hw.docs, hw.cleared, hw.bytes, hw.nodes⟩ hm.next

theorem retained_change (uri : String) (sourceRevision : Int) :
    Retained codec epoch (s.serve codec (.change uri sourceRevision))
      (eventsOf codec s (.change uri sourceRevision) ++ h) := by
  simp only [eventsOf, DocumentStore.serve]
  generalize hchange : s.change codec uri sourceRevision = result
  unfold DocumentStore.change at hchange
  split at hchange
  · obtain rfl := hchange
    exact hr
  · split at hchange
    · obtain rfl := hchange
      exact hr
    · rename_i current hdoc
      split at hchange
      · obtain rfl := hchange
        exact hr
      · split at hchange
        · split at hchange
          · obtain rfl := hchange
            exact hr.markDesynchronized hdoc
          · rename_i incarnation next _
            obtain rfl := hchange
            have hw := (@wrote_markDesynchronized { s with nextIncarnation := next } uri current hdoc).modify
              (fun doc => { doc with incarnation := incarnation }) rfl
            refine hr.rewrote hdoc ⟨hw.epoch, hw.docs, hw.cleared, hw.bytes, hw.nodes⟩ rfl ?_
            rw [nextWireVersion_modify, nextWireVersion_markDesynchronized]
        · split at hchange
          · obtain rfl := hchange
            exact hr.markDesynchronized hdoc
          · rename_i wireVersion next hallot
            obtain rfl := hchange
            exact @Retained.sendText codec epoch s h uri current
              { current with sourceRevision := sourceRevision, wireVersion := wireVersion, diagnosticSet := none } next hr
              hdoc rfl hallot

theorem retained_resync (uri : String) (sourceRevision : Int) :
    Retained codec epoch (s.serve codec (.resync uri sourceRevision))
      (eventsOf codec s (.resync uri sourceRevision) ++ h) := by
  simp only [eventsOf, DocumentStore.serve]
  generalize hresync : s.resync codec uri sourceRevision = result
  unfold DocumentStore.resync at hresync
  split at hresync
  · obtain rfl := hresync
    exact hr
  · split at hresync
    · obtain rfl := hresync
      exact hr
    · rename_i current hdoc
      split at hresync
      · obtain rfl := hresync
        exact hr.markDesynchronized hdoc
      · rename_i incarnation next _
        have hr' : Retained codec epoch { s with nextIncarnation := next } h := hr.unchanged ⟨rfl, rfl, rfl, rfl, rfl⟩
        dsimp only at hresync
        split at hresync
        · obtain rfl := hresync
          exact hr'.markDesynchronized hdoc
        · rename_i wireVersion next' hallot
          obtain rfl := hresync
          exact @Retained.sendText codec epoch { s with nextIncarnation := next } h uri current
            ⟨sourceRevision, wireVersion, incarnation, .synced, none⟩ next' hr' hdoc rfl hallot

theorem retained_close (uri : String) :
    Retained codec epoch (s.serve codec (.close uri)) (eventsOf codec s (.close uri) ++ h) := by
  simp only [eventsOf, DocumentStore.serve, DocumentStore.close]
  split
  · exact hr
  · split
    · exact hr
    · exact hr.removed (removed_remove s uri)

end

theorem total_exchange {f : Document → Nat} {total projected limit : Nat} (hdoc : s.docs[uri]? = some doc)
    (htotal : total = Table.total f s.docs) (hprojected : projected = saturatingAdd (total - f doc) (f doc'))
    (hlimit : projected ≤ limit) (hsmall : limit < Machine.u64Max) :
    projected = Table.total f (s.docs.insert uri doc') := by
  have hinsert := Table.total_insert f s.docs uri doc'
  have herase := Table.total_erase f s.docs uri
  rw [Table.weight_of_get hdoc] at hinsert herase
  unfold saturatingAdd at hprojected
  omega

theorem Retained.replaced {set : DiagnosticSet} (hr : Retained codec epoch s h)
    (hdoc : s.docs[uri]? = some doc) (howner : s'.serverEpoch = s.serverEpoch) (hnext : s'.nextWireVersion = s.nextWireVersion)
    (hdocs : s'.docs = s.docs.insert uri { doc with diagnosticSet := some set })
    (hbytes : s'.diagnosticBytes = saturatingAdd (s.diagnosticBytes - doc.encodedBytes) set.encodedBytes)
    (hnodes : s'.diagnosticNodes = saturatingAdd (s.diagnosticNodes - doc.nodes) set.nodes)
    (hbytesBounded : s'.diagnosticBytes ≤ maxDiagnosticBytesTotal)
    (hnodesBounded : s'.diagnosticNodes ≤ maxDiagnosticJsonNodesTotal)
    (hset : ∀ generation wireVersion, set.freshness = .exact generation wireVersion →
      Published codec epoch h uri doc.wireVersion set.diagnostics) : Retained codec epoch s' h := by
  refine ⟨howner.trans hr.owner, hr.neverReused, ?_, ?_, ?_, ?_, ?_, hbytesBounded, hnodesBounded⟩
  · rw [hnext]
    exact hr.below
  · intro uri' doc' hdoc'
    rw [hdocs] at hdoc'
    rcases Table.insert_eq_some hdoc' with ⟨rfl, rfl⟩ | ⟨_, hdoc'⟩
    · exact hr.last uri doc hdoc
    · exact hr.last uri' doc' hdoc'
  · intro uri' doc' set' generation wireVersion hdoc' hset' hfresh
    rw [hdocs] at hdoc'
    rcases Table.insert_eq_some hdoc' with ⟨rfl, rfl⟩ | ⟨_, hdoc'⟩
    · cases hset'
      exact hset generation wireVersion hfresh
    · exact hr.exact uri' doc' set' generation wireVersion hdoc' hset' hfresh
  · rw [hdocs]
    exact total_exchange hdoc hr.bytes hbytes hbytesBounded (by decide)
  · rw [hdocs]
    exact total_exchange hdoc hr.nodes hnodes hnodesBounded (by decide)

theorem Retained.retain (hr : Retained codec epoch s h)
    (hdoc : s.docs[uri]? = some doc) (version : Option Int) (canonical : List Json) (encodedBytes nodes : Nat)
    (hpublished : version ≠ none → Published codec epoch h uri doc.wireVersion canonical) :
    Retained codec epoch (s.retain uri doc version canonical encodedBytes nodes).1 h := by
  unfold DocumentStore.retain
  dsimp only
  split
  · exact hr.unchanged ⟨rfl, rfl, rfl, rfl, rfl⟩
  · rename_i hbytes
    split
    · exact hr.unchanged ⟨rfl, rfl, rfl, rfl, rfl⟩
    · rename_i hnodes
      rw [not_lt] at hbytes hnodes
      split
      · exact @Retained.replaced codec epoch s _ h uri doc
          ⟨canonical, .exact s.serverEpoch.generation doc.wireVersion, encodedBytes, nodes⟩ hr hdoc rfl rfl rfl rfl rfl
          hbytes hnodes (fun _ _ _ => hpublished (by simp))
      · split
        · exact hr
        · rename_i arrival next _
          refine @Retained.replaced codec epoch s _ h uri doc
            ⟨canonical, .unknown s.serverEpoch.generation doc.wireVersion arrival, encodedBytes, nodes⟩ hr hdoc rfl rfl
            rfl rfl rfl hbytes hnodes ?_
          intro generation wireVersion hfresh
          cases hfresh

theorem retained_publish (hr : Retained codec epoch s h) (readerEpoch : ServerEpoch) (uri : String)
    (version : Option Int) (diagnostics : List Json) :
    Retained codec epoch (s.serve codec (.publish readerEpoch uri version diagnostics))
      (eventsOf codec s (.publish readerEpoch uri version diagnostics) ++ h) := by
  have hr' := hr.publication readerEpoch uri version diagnostics
  simp only [eventsOf, DocumentStore.serve, DocumentStore.publish, List.singleton_append]
  split
  · exact hr'.unchanged ⟨rfl, rfl, rfl, rfl, rfl⟩
  · rename_i hepoch
    rw [not_not] at hepoch
    split
    · exact hr'
    · split
      · exact hr'.unchanged ⟨rfl, rfl, rfl, rfl, rfl⟩
      · rename_i doc hdoc
        split
        · exact hr'.unchanged ⟨rfl, rfl, rfl, rfl, rfl⟩
        · split
          · exact hr'.unchanged ⟨rfl, rfl, rfl, rfl, rfl⟩
          · rename_i hstale
            split
            · exact hr'.unchanged ⟨rfl, rfl, rfl, rfl, rfl⟩
            · rename_i hfuture
              split
              · exact hr'.unchanged ⟨rfl, rfl, rfl, rfl, rfl⟩
              · rename_i canonical encodedBytes nodes hcanonical
                refine hr'.retain hdoc version canonical encodedBytes nodes (fun hversion => ?_)
                obtain ⟨incoming, rfl⟩ := Option.ne_none_iff_exists'.1 hversion
                have hcurrent : incoming = doc.wireVersion := by
                  simp only [Option.any_some, decide_eq_true_eq] at hstale hfuture
                  omega
                rw [hepoch, hr.owner, hcurrent]
                exact ⟨[], h, diagnostics, encodedBytes, nodes, rfl, hr.last uri doc hdoc, hcanonical⟩

theorem retained_serve (hr : Retained codec epoch s h) (q : DocumentRequest) :
    Retained codec epoch (s.serve codec q) (eventsOf codec s q ++ h) := by
  cases q with
  | openDocument uri sourceRevision => exact retained_openDocument hr uri sourceRevision
  | change uri sourceRevision => exact retained_change hr uri sourceRevision
  | resync uri sourceRevision => exact retained_resync hr uri sourceRevision
  | close uri => exact retained_close hr uri
  | publish readerEpoch uri version diagnostics => exact retained_publish hr readerEpoch uri version diagnostics

theorem retained_new (codec : Codec) (epoch : ServerEpoch) : Retained codec epoch { serverEpoch := epoch } [] := by
  have hnone : ∀ (uri : String) (doc : Document),
      ({ serverEpoch := epoch } : DocumentStore).docs[uri]? = some doc → False := by
    intro uri doc hdoc
    simp at hdoc
  exact ⟨rfl, List.nodup_nil, fun _ _ v hv => absurd hv List.not_mem_nil, fun uri doc hdoc => (hnone uri doc hdoc).elim,
    fun uri doc _ _ _ hdoc => (hnone uri doc hdoc).elim, rfl, rfl, Nat.zero_le _, Nat.zero_le _⟩

end

/-- **In every state of a store** no wire version was given twice, what may be acted on was published by the store's own
server for the text last sent, and the budgets are exactly what is kept. -/
theorem diagnostics_fresh (codec : Codec) (epoch : ServerEpoch) (s : DocumentStore) (h : List DocumentEvent)
    (hs : Stored codec epoch s h) : Fresh codec epoch s h := by
  suffices hr : Retained codec epoch s h from hr.fresh
  induction hs with
  | new => exact retained_new codec epoch
  | serve s h q _ ih => exact retained_serve ih q

def sampleDiagnostic : Json :=
  .object [("message", .string "old"), ("range", .object [
      ("end", .object [("character", .posInt 1), ("line", .posInt 0)]),
      ("start", .object [("character", .posInt 0), ("line", .posInt 0)])])]

def sampleCodec : Codec where
  parses uri := uri = "file:///a.rs"
  toVec _ := .ok (("[\x7b\"message\":\"old\",\"range\":\x7b\"end\":\x7b\"character\":1,\"line\":0\x7d," ++
    "\"start\":\x7b\"character\":0,\"line\":0\x7d\x7d\x7d]").toList.map (fun c => c.toNat.toUInt8))
  fromSlice _ := .ok [sampleDiagnostic]

/-- A store after one document was opened and its diagnostics came. -/
def sampleStore : DocumentStore :=
  ({ serverEpoch := ⟨17⟩ : DocumentStore }.serve sampleCodec (.openDocument "file:///a.rs" 10)).serve sampleCodec
    (.publish ⟨17⟩ "file:///a.rs" (some 1) [sampleDiagnostic])

/-- A document opened, and diagnostics published for it. -/
theorem diagnostics_fresh_published :
    (∃ h, Stored sampleCodec ⟨17⟩ sampleStore h ∧ Fresh sampleCodec ⟨17⟩ sampleStore h) ∧
      sampleStore.actionableDiagnostics sampleCodec "file:///a.rs" = .ok [sampleDiagnostic] := by
  have hstored : ∃ h, Stored sampleCodec ⟨17⟩ sampleStore h := ⟨_, .serve _ _ _ (.serve _ _ _ .new)⟩
  obtain ⟨h, hs⟩ := hstored
  exact ⟨⟨h, hs, diagnostics_fresh sampleCodec ⟨17⟩ sampleStore h hs⟩, by rfl⟩

end Iteron.Lsp
