import Iteron.LspDiagnostics
import Iteron.Table
/-!
# LspDocuments — open documents and the diagnostics kept for them

One store serves one server epoch.  Every text sent to the server gets the next wire version of the store, and a version
is never given twice, so what the server publishes for an older text is recognised by its version alone.
-/
namespace Iteron.Lsp

open Kernel (Json)
open Machine (saturatingAdd checkedAdd)

def maxOpenDocuments : Nat := 512

def maxDiagnosticBytesTotal : Nat := 16 * 1024 * 1024

def maxDiagnosticJsonNodesTotal : Nat := 256 * 1024

def i32Max : Int := 2147483647

inductive DocumentState where
  | synced
  | desynchronized
deriving DecidableEq

inductive Change where
  | accepted (snapshot : DocumentSnapshot)
  | desynchronized (have_ incoming : Int)
  | needsResync
  | unknown

inductive DiagnosticFreshness where
  | exact (serverGeneration : Nat) (wireVersion : Int)
  | unknown (serverGeneration : Nat) (wireVersionAtArrival : Int) (arrival : Nat)
deriving DecidableEq

structure DiagnosticSet where
  diagnostics : List Json
  freshness : DiagnosticFreshness
  encodedBytes : Nat
  nodes : Nat

inductive Publish where
  | accepted (freshness : DiagnosticFreshness)
  | foreignGeneration (expected received : Nat)
  | stale (have_ incoming : Int)
  | future (have_ incoming : Int)
  | desynchronized
  | unknown

structure Document where
  sourceRevision : Int
  wireVersion : Int
  incarnation : Nat
  state : DocumentState
  diagnosticSet : Option DiagnosticSet

def Document.encodedBytes (doc : Document) : Nat := (doc.diagnosticSet.map DiagnosticSet.encodedBytes).getD 0

def Document.nodes (doc : Document) : Nat := (doc.diagnosticSet.map DiagnosticSet.nodes).getD 0

structure DocumentStore where
  serverEpoch : ServerEpoch
  docs : Std.ExtTreeMap String Document compare := ∅
  nextIncarnation : Option Nat := some 1
  nextWireVersion : Option Int := some 1
  nextArrival : Option Nat := some 1
  diagnosticBytes : Nat := 0
  diagnosticNodes : Nat := 0
  staleDrops : Nat := 0
  futureDrops : Nat := 0
  desynchronizedDrops : Nat := 0
  unversionedAccepts : Nat := 0
  unknownDrops : Nat := 0
  foreignGenerationDrops : Nat := 0
  limitRejections : Nat := 0

def allocateSequence (sequence : Option Nat) (kind : String) : Except LspError (Nat × Option Nat) :=
  match sequence with
  | none => .error (.sequenceExhausted kind)
  | some value => .ok (value, checkedAdd value 1)

def allocateWireVersion (sequence : Option Int) : Except LspError (Int × Option Int) :=
  match sequence with
  | none => .error (.sequenceExhausted "wire document version")
  | some value => .ok (value, if value < i32Max then some (value + 1) else none)

namespace DocumentStore

variable (codec : Codec)

/-! ## Budgets -/

def releaseBudget (s : DocumentStore) (doc : Document) : DocumentStore :=
  { s with
    diagnosticBytes := s.diagnosticBytes - doc.encodedBytes
    diagnosticNodes := s.diagnosticNodes - doc.nodes }

def remove (s : DocumentStore) (uri : String) : DocumentStore :=
  match s.docs[uri]? with
  | none => s
  | some doc => { s with docs := s.docs.erase uri }.releaseBudget doc

def clearDocumentDiagnostics (s : DocumentStore) (uri : String) : DocumentStore :=
  match s.docs[uri]? with
  | none => s
  | some doc => { s.releaseBudget doc with docs := s.docs.insert uri { doc with diagnosticSet := none } }

def modify (s : DocumentStore) (uri : String) (f : Document → Document) : DocumentStore :=
  match s.docs[uri]? with
  | none => s
  | some doc => { s with docs := s.docs.insert uri (f doc) }

def markDesynchronized (s : DocumentStore) (uri : String) : DocumentStore :=
  (s.clearDocumentDiagnostics uri).modify uri fun doc => { doc with state := .desynchronized }

def snapshotUnchecked (s : DocumentStore) (uri : String) (doc : Document) : DocumentSnapshot :=
  ⟨uri, s.serverEpoch, doc.incarnation, doc.sourceRevision, doc.wireVersion⟩

/-! ## Texts sent to the server -/

/-- A new wire version for a document that is cleared and rewritten with it. -/
def sendText (s : DocumentStore) (uri : String) (doc : Document) : DocumentStore × DocumentSnapshot :=
  let s := (s.clearDocumentDiagnostics uri).modify uri fun _ => doc
  (s, s.snapshotUnchecked uri doc)

def openDocument (s : DocumentStore) (uri : String) (sourceRevision : Int) :
    DocumentStore × Except LspError DocumentSnapshot :=
  match validateDocumentUri codec uri with
  | .error e => (s, .error e)
  | .ok () =>
    let replacing := s.docs.contains uri
    if !replacing && maxOpenDocuments ≤ s.docs.size then
      ({ s with limitRejections := saturatingAdd s.limitRejections 1 }, .error (.documentLimit maxOpenDocuments))
    else
      match allocateSequence s.nextIncarnation "document incarnation" with
      | .error e => (if replacing then s.markDesynchronized uri else s, .error e)
      | .ok (incarnation, next) =>
        let s := { s with nextIncarnation := next }
        match allocateWireVersion s.nextWireVersion with
        | .error e => (if replacing then s.markDesynchronized uri else s, .error e)
        | .ok (wireVersion, next) =>
          let s := { s with nextWireVersion := next }.remove uri
          let doc : Document := ⟨sourceRevision, wireVersion, incarnation, .synced, none⟩
          let s := { s with docs := s.docs.insert uri doc }
          (s, .ok (s.snapshotUnchecked uri doc))

def change (s : DocumentStore) (uri : String) (sourceRevision : Int) : DocumentStore × Except LspError Change :=
  match validateDocumentUri codec uri with
  | .error e => (s, .error e)
  | .ok () =>
    match s.docs[uri]? with
    | none => (s, .ok .unknown)
    | some current =>
      if current.state = .desynchronized then (s, .ok .needsResync)
      else if sourceRevision ≤ current.sourceRevision then
        match allocateSequence s.nextIncarnation "document incarnation" with
        | .error e => (s.markDesynchronized uri, .error e)
        | .ok (incarnation, next) =>
          (({ s with nextIncarnation := next }.markDesynchronized uri).modify uri
              fun doc => { doc with incarnation := incarnation },
            .ok (.desynchronized current.sourceRevision sourceRevision))
      else
        match allocateWireVersion s.nextWireVersion with
        | .error e => (s.markDesynchronized uri, .error e)
        | .ok (wireVersion, next) =>
          let sent := { s with nextWireVersion := next }.sendText uri
            { current with sourceRevision := sourceRevision, wireVersion := wireVersion, diagnosticSet := none }
          (sent.1, .ok (.accepted sent.2))

def resync (s : DocumentStore) (uri : String) (sourceRevision : Int) :
    DocumentStore × Except LspError DocumentSnapshot :=
  match validateDocumentUri codec uri with
  | .error e => (s, .error e)
  | .ok () =>
    match s.docs[uri]? with
    | none => (s, .error (.unknownDocument uri))
    | some _ =>
      match allocateSequence s.nextIncarnation "document incarnation" with
      | .error e => (s.markDesynchronized uri, .error e)
      | .ok (incarnation, next) =>
        let s := { s with nextIncarnation := next }
        match allocateWireVersion s.nextWireVersion with
        | .error e => (s.markDesynchronized uri, .error e)
        | .ok (wireVersion, next) =>
          let sent := { s with nextWireVersion := next }.sendText uri
            ⟨sourceRevision, wireVersion, incarnation, .synced, none⟩
          (sent.1, .ok sent.2)

def close (s : DocumentStore) (uri : String) : DocumentStore × Bool :=
  match validateDocumentUri codec uri with
  | .error _ => (s, false)
  | .ok () =>
    match s.docs[uri]? with
    | none => (s, false)
    | some _ => (s.remove uri, true)

/-! ## Diagnostics -/

def actionableDiagnostics (s : DocumentStore) (uri : String) : Except LspError (List Json) :=
  match validateDocumentUri codec uri with
  | .error e => .error e
  | .ok () =>
    match s.docs[uri]? with
    | none => .error (.unknownDocument uri)
    | some doc =>
      if doc.state = .desynchronized then .error (.documentDesynchronized uri)
      else
        match doc.diagnosticSet with
        | none => .ok []
        | some set =>
          if set.freshness = .exact s.serverEpoch.generation doc.wireVersion then .ok set.diagnostics
          else .error (.diagnosticsNotActionable uri)

def retain (s : DocumentStore) (uri : String) (doc : Document) (version : Option Int) (canonical : List Json)
    (encodedBytes nodes : Nat) : DocumentStore × Except LspError Publish :=
  let projected := saturatingAdd (s.diagnosticBytes - doc.encodedBytes) encodedBytes
  let projectedNodes := saturatingAdd (s.diagnosticNodes - doc.nodes) nodes
  if projected > maxDiagnosticBytesTotal then
    ({ s with limitRejections := saturatingAdd s.limitRejections 1 },
      .error (.diagnosticStoreFull projected maxDiagnosticBytesTotal))
  else if projectedNodes > maxDiagnosticJsonNodesTotal then
    ({ s with limitRejections := saturatingAdd s.limitRejections 1 },
      .error (.diagnosticNodeStoreFull projectedNodes maxDiagnosticJsonNodesTotal))
  else
    let keep (s : DocumentStore) (freshness : DiagnosticFreshness) : DocumentStore × Except LspError Publish :=
      ({ s with
          docs := s.docs.insert uri { doc with diagnosticSet := some ⟨canonical, freshness, encodedBytes, nodes⟩ }
          diagnosticBytes := projected
          diagnosticNodes := projectedNodes },
        .ok (.accepted freshness))
    match version with
    | some _ => keep s (.exact s.serverEpoch.generation doc.wireVersion)
    | none =>
      match allocateSequence s.nextArrival "diagnostic arrival" with
      | .error e => (s, .error e)
      | .ok (arrival, next) =>
        keep { s with nextArrival := next, unversionedAccepts := saturatingAdd s.unversionedAccepts 1 }
          (.unknown s.serverEpoch.generation doc.wireVersion arrival)

def publish (s : DocumentStore) (readerEpoch : ServerEpoch) (uri : String) (version : Option Int)
    (diagnostics : List Json) : DocumentStore × Except LspError Publish :=
  if readerEpoch ≠ s.serverEpoch then
    ({ s with foreignGenerationDrops := saturatingAdd s.foreignGenerationDrops 1 },
      .ok (.foreignGeneration s.serverEpoch.generation readerEpoch.generation))
  else
    match validateDocumentUri codec uri with
    | .error e => (s, .error e)
    | .ok () =>
      match s.docs[uri]? with
      | none => ({ s with unknownDrops := saturatingAdd s.unknownDrops 1 }, .ok .unknown)
      | some doc =>
        if doc.state = .desynchronized then
          ({ s with desynchronizedDrops := saturatingAdd s.desynchronizedDrops 1 }, .ok .desynchronized)
        else if version.any (fun incoming => incoming < doc.wireVersion) then
          ({ s with staleDrops := saturatingAdd s.staleDrops 1 }, .ok (.stale doc.wireVersion (version.getD 0)))
        else if version.any (fun incoming => incoming > doc.wireVersion) then
          ({ s with futureDrops := saturatingAdd s.futureDrops 1 }, .ok (.future doc.wireVersion (version.getD 0)))
        else
          match canonicalizeDiagnostics codec diagnostics with
          | .error e => ({ s with limitRejections := saturatingAdd s.limitRejections 1 }, .error e)
          | .ok (canonical, encodedBytes, nodes) => s.retain uri doc version canonical encodedBytes nodes

end DocumentStore

/-! ## Runs -/

inductive DocumentRequest where
  | openDocument (uri : String) (sourceRevision : Int)
  | change (uri : String) (sourceRevision : Int)
  | resync (uri : String) (sourceRevision : Int)
  | close (uri : String)
  | publish (readerEpoch : ServerEpoch) (uri : String) (version : Option Int) (diagnostics : List Json)

def DocumentStore.serve (codec : Codec) (s : DocumentStore) : DocumentRequest → DocumentStore
  | .openDocument uri sourceRevision => (s.openDocument codec uri sourceRevision).1
  | .change uri sourceRevision => (s.change codec uri sourceRevision).1
  | .resync uri sourceRevision => (s.resync codec uri sourceRevision).1
  | .close uri => (s.close codec uri).1
  | .publish readerEpoch uri version diagnostics => (s.publish codec readerEpoch uri version diagnostics).1

end Iteron.Lsp
