import Iteron.SessionSpend
/-!
# SessionForkLoad — whether a fork can be loaded

A fork reads the parent and its ancestors from an unspent budget.  A load of the child reads the child's own lines first
and follows one parent more, so the fork of a history at one of the limits cannot be loaded.
-/
namespace Iteron.Session

open Refuse
open List (foldlM_cons foldlM_nil length_cons map_append map_cons map_nil nil_append not_mem_nil singleton_append)

variable {E : Env} {s s₁ : Store} {parent child tenant run : String} {a createdAt n : Nat}
  {lines : List ReadLine} {pinned : String} {history : List Event} {file file' : JournalFile} {scan : Scan} {event : Event}

/-! ## The child's journal -/

/-- The file with one more event, as `append` writes it. -/
def JournalFile.push (E : Env) (tenant : String) (file : JournalFile) (event : Event) : JournalFile :=
  { lines := file.lines ++
      [{ bytes := E.lineBytes (chainLine E tenant file event), content := some (chainLine E tenant file event) }] }

def forkGenesis (E : Env) (s : Store) (parent : String) (at_ : Nat) (tenant : String) (createdAt : Nat) :
    Except RecordError JournalFile := do
  let (lines, budget) ← readChain E s parent {}
  match lines.find? (fun l => l.seq = at_) with
  | none => .error (.io ("cannot fork " ++ parent ++ " at seq " ++ toString at_ ++ ": beyond the parent tail"))
  | some pinned => do
    let branch ← expandScopedFrom E s maxForkDepth parent (some at_) budget (some lines)
    return ((forkKinds E parent at_ createdAt lines pinned.hash (branch.map ScopedEvent.event)).map
      (fun kind => { seq := 0, turn := 0, kind := kind })).foldl (JournalFile.push E tenant) {}

/-- The files of a run and of what it was forked from, at most that many. -/
def lineageFiles (s : Store) : Nat → String → List JournalFile
  | 0, _ => []
  | n + 1, run =>
    match s[run]? with
    | none => []
    | some file => file ::
      match edgeOf file.readLines with
      | none => []
      | some edge => lineageFiles s n edge.parent

/-- The files of a run and of its ancestors stay together within the limits of a load. -/
@[mk_iff]
structure LoadFits (files : List JournalFile) : Prop where
  generations : files.length ≤ maxForkDepth + 1
  covered : ({} : Budget).Covers files

instance (files : List JournalFile) : Decidable (({} : Budget).Covers files) :=
  decidable_of_iff ((files.map JournalFile.length).sum ≤ maxRolloutBytes ∧
      (files.map (fun file => file.lines.length)).sum ≤ maxRolloutPhysicalLines ∧
      (files.map (fun file => file.chain.length)).sum ≤ maxRolloutEvents)
    (by simp only [Budget.covers_iff, Nat.zero_add])

instance (files : List JournalFile) : Decidable (LoadFits files) :=
  decidable_of_iff (files.length ≤ maxForkDepth + 1 ∧ ({} : Budget).Covers files) (loadFits_iff files).symm

/-- What a load relies on: the hash of a line is a SHA-256 digest in hex, and an event that passes the checks of a write
passes those of a read. -/
structure Env.Sound (E : Env) : Prop where
  sha256 : ∀ prev seq payload, isSha256 (E.hashLine prev seq payload) = true
  readable : ∀ tenant event, E.writable event = .ok () → E.readable tenant event = .ok ()

structure Tracks (E : Env) (tenant : String) (file : JournalFile) (scan : Scan) : Prop where
  short : ∀ line ∈ file.lines, line.bytes ≤ maxRecordLineBytes
  torn : file.torn = 0
  scanned : file.chain.foldlM (verifyLine E) {} = .ok scan
  length : scan.lines.length = file.chain.length
  prev : scan.prev = file.lastHash
  owned : scan.tenant.getD tenant = tenant
  tenants : ∀ cl ∈ file.chain, cl.tenant = tenant

theorem Tracks.start : Tracks E tenant {} {} := by
  refine ⟨by simp, rfl, rfl, rfl, rfl, rfl, ?_⟩
  simp [JournalFile.chain]

theorem JournalFile.chain_push : (file.push E tenant event).chain = file.chain ++ [chainLine E tenant file event] := by
  simp [JournalFile.chain, JournalFile.push]

theorem append_push (h : append E tenant file event = .ok file') : file' = file.push E tenant event ∧
    file.chain.length < maxRolloutEvents ∧ (isPolicyBundle event.kind = true → file.chain.length = 2) ∧
    E.writable (chainLine E tenant file event).payload = .ok () ∧
    E.lineBytes (chainLine E tenant file event) ≤ maxRecordLineBytes := by
  simp only [append, bind_eq_ok, refuseIf_eq_ok, pure_eq_ok, not_and, not_not, not_lt, not_le] at h
  obtain ⟨_, hroom, _, -, _, hbundle, _, -, _, hwritable, _, hshort, _, -, rfl⟩ := h
  exact ⟨rfl, hroom, hbundle, hwritable, hshort⟩

theorem Tracks.appended {genesis : GenesisTunablesState} (hE : E.Sound) (h : Tracks E tenant file scan)
    (happend : append E tenant file event = .ok file')
    (hobserve : scan.genesis.observe E file.chain.length (E.redactKind event.kind) = .ok genesis) :
    ∃ scan', Tracks E tenant file' scan' ∧ scan'.genesis = genesis := by
  obtain ⟨rfl, hroom, -, hwritable, hshort⟩ := append_push happend
  refine ⟨{ lines := scan.lines ++ [(chainLine E tenant file event).read], prev := (chainLine E tenant file event).hash,
            tenant := scan.tenant.or (some tenant), genesis := genesis }, ⟨?_, rfl, ?_, ?_, ?_, ?_, ?_⟩, rfl⟩
  · intro line hline
    rcases List.mem_append.1 hline with hline | hline
    · exact h.short line hline
    · rw [List.mem_singleton.1 hline]
      exact hshort
  · rw [JournalFile.chain_push, List.foldlM_append, h.scanned, ok_bind, foldlM_cons]
    have hverify : verifyLine E scan (chainLine E tenant file event) = .ok
        { lines := scan.lines ++ [(chainLine E tenant file event).read], prev := (chainLine E tenant file event).hash,
          tenant := scan.tenant.or (some tenant), genesis := genesis } := by
      simp only [verifyLine, ensureTenant, bind_eq_ok, refuseIf_eq_ok, pure_eq_ok, not_not, not_lt]
      refine ⟨(), ?_, (), h.length.symm, (), h.owned, (), ?_, (), hE.readable tenant _ hwritable, genesis, hobserve, rfl⟩
      · rw [h.length]
        exact hroom
      · rw [h.prev]
        simp [chainLine]
    rw [hverify]
    rfl
  · rw [JournalFile.chain_push, List.length_append, List.length_append, h.length]
    rfl
  · rw [JournalFile.lastHash, JournalFile.chain_push]
    simp
  · cases htenant : scan.tenant with
    | none => rfl
    | some _ =>
      have howned := h.owned
      rw [htenant] at howned
      exact howned
  · intro cl hcl
    rw [JournalFile.chain_push] at hcl
    rcases List.mem_append.1 hcl with hcl | hcl
    · exact h.tenants cl hcl
    · rw [List.mem_singleton.1 hcl]
      rfl

theorem appendAll_push : ∀ (events : List Event) {file file' : JournalFile},
    events.foldlM (append E tenant) file = .ok file' → file' = events.foldl (JournalFile.push E tenant) file
  | [], file, file', h => by
    rw [foldlM_nil, pure_eq_ok] at h
    exact h.symm
  | event :: events, file, file', h => by
    rw [foldlM_cons, bind_eq_ok] at h
    obtain ⟨_, hone, hrest⟩ := h
    rw [appendAll_push events hrest, (append_push hone).1, List.foldl_cons]

/-- The kinds that only the second and the third line may hold. -/
def isSnapshot : EventKind → Bool
  | .tunablesSnapshot .. => true
  | .policyBundleSnapshot .. => true
  | _ => false

def isTunables : EventKind → Bool
  | .tunablesSnapshot .. => true
  | _ => false

@[simp] theorem isTunables_redactKind (R : Redactor) (kind : EventKind) : isTunables (R.redactKind kind) = isTunables kind := by
  cases kind <;> rfl

@[simp] theorem isSnapshot_redactKind (R : Redactor) (kind : EventKind) : isSnapshot (R.redactKind kind) = isSnapshot kind := by
  cases kind <;> rfl

variable {kind : EventKind}

theorem isTunables_of_isSnapshot (h : isSnapshot kind = false) : isTunables kind = false := by
  cases kind <;> first | rfl | cases h

theorem observe_of_not_tunables {state : GenesisTunablesState} {seq : Nat}
    (h : isTunables kind = false) : ∃ state', state.observe E seq kind = .ok state' := by
  cases kind <;> first | exact ⟨_, rfl⟩ | cases h

theorem Tracks.appendAll (hE : E.Sound) : ∀ (events : List Event) {file file' : JournalFile} {scan : Scan},
    Tracks E tenant file scan → events.foldlM (append E tenant) file = .ok file' →
    (∀ event ∈ events, isTunables event.kind = false) → ∃ scan', Tracks E tenant file' scan'
  | [], file, file', scan, h, hall, _ => by
    rw [foldlM_nil, pure_eq_ok] at hall
    exact ⟨scan, hall ▸ h⟩
  | event :: events, file, file', scan, h, hall, hkinds => by
    rw [foldlM_cons, bind_eq_ok] at hall
    obtain ⟨_, hone, hrest⟩ := hall
    rw [List.forall_mem_cons] at hkinds
    obtain ⟨genesis, hobserve⟩ : ∃ genesis, scan.genesis.observe E file.chain.length (E.redactKind event.kind) = .ok genesis :=
      observe_of_not_tunables (by rw [isTunables_redactKind, hkinds.1])
    obtain ⟨_, h1, -⟩ := h.appended hE hone hobserve
    exact Tracks.appendAll hE events h1 hrest hkinds.2

/-! ## What a fork writes -/

theorem scrubRouteDigest_sha256 (R : Redactor) {value : String} (h : isSha256 value = true) :
    R.scrubRouteDigest value = value := by
  have hplain : "sha256:".toList.isPrefixOf value.toList = false := by
    have hhex : value.toList.all isHexDigit = true := (Bool.and_eq_true_iff.1 h).2
    cases hlist : value.toList with
    | nil => rfl
    | cons c _ =>
      rw [hlist, List.all_cons, Bool.and_eq_true] at hhex
      have hc : ('s' == c) = false := by
        rw [beq_eq_false_iff_ne]
        rintro rfl
        cases hhex.1
      rw [String.toList_ofList, List.isPrefixOf, hc, Bool.false_and]
  have haddress : isContentAddress value = true := by
    rw [isContentAddress, hplain]
    exact h
  rw [Redactor.scrubRouteDigest, haddress, Bool.or_true, if_pos rfl]

theorem redactKind_genesisStart (hsha : isSha256 pinned = true) : ∃ start,
    E.redactKind (.runStart (genesisStart E parent a createdAt lines pinned history)) = .runStart start ∧
      start.parentRun = some parent ∧ start.forkedAt = some a ∧ start.parentHashAtSeq = some pinned := by
  refine ⟨_, rfl, rfl, rfl, ?_⟩
  simp only [genesisStart, Option.map_some, scrubRouteDigest_sha256 E.toRedactor hsha]

theorem forkKinds_split : ∃ rest, forkKinds E parent a createdAt lines pinned history =
    .runStart (genesisStart E parent a createdAt lines pinned history) ::
      ((tunablesKind parent lines).toList ++ ((policyBundleKind parent lines).toList ++ rest)) ∧
    ∀ kind ∈ rest, isSnapshot kind = false := by
  refine ⟨_, by simp only [forkKinds, List.append_assoc, singleton_append]; rfl, ?_⟩
  intro kind hkind
  simp only [List.mem_append, List.mem_cons, not_mem_nil, or_false, Option.mem_toList, Option.map_eq_some_iff] at hkind
  rcases hkind with ⟨_, _, rfl⟩ | ⟨_, _, rfl⟩ | (rfl | rfl) | ⟨_, _, rfl⟩ <;> rfl

theorem rootParentOf_redactKind (hsha : isSha256 pinned = true) :
    rootParentOf (E.redactKind (.runStart (genesisStart E parent a createdAt lines pinned history))) =
      rootParentOf (.runStart (genesisStart E parent a createdAt lines pinned history)) := by
  simp only [Redactor.redactKind, rootParentOf, genesisStart, Option.map_some, scrubRouteDigest_sha256 E.toRedactor hsha]

theorem genesis_tracks (hE : E.Sound) (hsha : isSha256 pinned = true)
    (hcheck : checkGenesis E {} (.runStart (genesisStart E parent a createdAt lines pinned history))
      (tunablesKind parent lines) = .ok ()) (hall : ((forkKinds E parent a createdAt lines pinned history).map
      (fun kind => ({ seq := 0, turn := 0, kind := kind } : Event))).foldlM (append E tenant) {} = .ok file) :
    ∃ scan, Tracks E tenant file scan := by
  obtain ⟨rest, hkinds, hrest⟩ := @forkKinds_split E parent a createdAt lines pinned history
  have hplain : ∀ event ∈ ((policyBundleKind parent lines).toList ++ rest).map
      (fun kind => ({ seq := 0, turn := 0, kind := kind } : Event)), isTunables event.kind = false := by
    intro event hevent
    obtain ⟨kind, hkind, rfl⟩ := List.mem_map.1 hevent
    rcases List.mem_append.1 hkind with hbundle | hkind
    · simp only [policyBundleKind, Option.mem_toList, Option.map_eq_some_iff] at hbundle
      obtain ⟨_, _, rfl⟩ := hbundle
      rfl
    · exact isTunables_of_isSnapshot (hrest kind hkind)
  rw [hkinds, map_cons, foldlM_cons, bind_eq_ok, map_append] at hall
  obtain ⟨file1, hstart, hall⟩ := hall
  rw [List.foldlM_append, bind_eq_ok] at hall
  obtain ⟨file2, htunables, hall⟩ := hall
  have hfirst : GenesisTunablesState.observe E {} 0
      (E.redactKind (.runStart (genesisStart E parent a createdAt lines pinned history))) =
      GenesisTunablesState.observe E {} 0 (.runStart (genesisStart E parent a createdAt lines pinned history)) := by
    have hparent := @rootParentOf_redactKind E parent a createdAt lines pinned history hsha
    simp only [GenesisTunablesState.observe, hparent]
    rfl
  obtain ⟨scan1, h1, hgenesis⟩ := Tracks.start.appended hE hstart hfirst
  obtain ⟨scan2, h2⟩ : ∃ scan2, Tracks E tenant file2 scan2 := by
    cases hkind : tunablesKind parent lines with
    | none =>
      rw [hkind, Option.toList_none, map_nil, foldlM_nil, pure_eq_ok] at htunables
      exact ⟨scan1, htunables ▸ h1⟩
    | some kind =>
      have hsame : E.redactKind kind = kind := by
        simp only [tunablesKind, Option.map_eq_some_iff] at hkind
        obtain ⟨_, _, rfl⟩ := hkind
        rfl
      have hlen : file1.chain.length = 1 := by
        rw [(append_push hstart).1, JournalFile.chain_push]
        rfl
      simp only [hkind, checkGenesis, bind_eq_ok] at hcheck
      obtain ⟨_, -, _, hstate, state', hstate', -⟩ := hcheck
      rw [hkind, Option.toList_some, map_cons, map_nil, foldlM_cons, bind_eq_ok] at htunables
      obtain ⟨_, hone, hlast⟩ := htunables
      rw [foldlM_nil, pure_eq_ok] at hlast
      obtain ⟨scan2, h2, -⟩ := @Tracks.appended _ _ _ _ _ _ state' hE h1 hone (by
        rw [hgenesis, hlen, hsame]
        cases hstate
        exact hstate')
      exact ⟨scan2, hlast ▸ h2⟩
  exact h2.appendAll hE _ hall hplain

theorem policyBundleKind_of_none (htunables : tunablesKind parent lines = none)
    (hall : ((forkKinds E parent a createdAt lines pinned history).map
      (fun kind => ({ seq := 0, turn := 0, kind := kind } : Event))).foldlM (append E tenant) {} = .ok file) :
    policyBundleKind parent lines = none := by
  cases hbundle : policyBundleKind parent lines with
  | none => rfl
  | some kind =>
    obtain ⟨_, hkinds, -⟩ := @forkKinds_split E parent a createdAt lines pinned history
    rw [hkinds, htunables, hbundle, Option.toList_none, Option.toList_some, nil_append, singleton_append,
      map_cons, foldlM_cons, bind_eq_ok] at hall
    obtain ⟨file1, hstart, hall⟩ := hall
    rw [map_cons, foldlM_cons, bind_eq_ok] at hall
    obtain ⟨_, hone, -⟩ := hall
    have hlen : file1.chain.length = 1 := by
      rw [(append_push hstart).1, JournalFile.chain_push]
      rfl
    have hthird := (append_push hone).2.2.1 (by
      simp only [policyBundleKind, Option.map_eq_some_iff] at hbundle
      obtain ⟨_, _, rfl⟩ := hbundle
      rfl)
    rw [hlen] at hthird
    cases hthird

theorem genesisTunablesEvent_none (h : ∀ kind, (lines.map ReadLine.kind)[1]? = some kind → isSnapshot kind = false) :
    genesisTunablesEvent lines = none := by
  rw [List.getElem?_map] at h
  unfold genesisTunablesEvent
  cases hkind : (lines[1]?).map ReadLine.kind with
  | none => rfl
  | some kind =>
    have hnot := h kind hkind
    cases kind <;> first | rfl | cases hnot

theorem genesisPolicyBundleEvent_none (h : ∀ kind, (lines.map ReadLine.kind)[2]? = some kind → isSnapshot kind = false) :
    genesisPolicyBundleEvent lines = none := by
  rw [List.getElem?_map] at h
  unfold genesisPolicyBundleEvent
  cases hkind : (lines[2]?).map ReadLine.kind with
  | none => rfl
  | some kind =>
    have hnot := h kind hkind
    cases kind <;> first | rfl | cases hnot

theorem not_isSnapshot_of_rest {rest : List EventKind} (hrest : ∀ kind ∈ rest, isSnapshot kind = false) {i : Nat}
    (h : (rest.map E.redactKind)[i]? = some kind) : isSnapshot kind = false := by
  rw [List.getElem?_map, Option.map_eq_some_iff] at h
  obtain ⟨kind', hkind', rfl⟩ := h
  rw [isSnapshot_redactKind]
  exact hrest kind' (List.mem_of_getElem? hkind')

variable {own : List ReadLine}

theorem genesis_inherits (hown : own.map ReadLine.kind = (forkKinds E parent a createdAt lines pinned history).map E.redactKind)
    (hnone : tunablesKind parent lines = none → policyBundleKind parent lines = none) :
    inherits TunablesCheckpoint.digestSha256 parent (genesisTunablesEvent own) (genesisTunablesEvent lines) = true ∧
      inherits Snapshot.digestSha256 parent (genesisPolicyBundleEvent own) (genesisPolicyBundleEvent lines) = true := by
  obtain ⟨_, hkinds, hrest⟩ := @forkKinds_split E parent a createdAt lines pinned history
  rw [hkinds, map_cons, map_append, map_append] at hown
  cases htunables : genesisTunablesEvent lines with
  | none =>
    have hkind : tunablesKind parent lines = none := by rw [tunablesKind, htunables, Option.map_none]
    have hbundle : genesisPolicyBundleEvent lines = none := by
      simpa only [policyBundleKind, Option.map_eq_none_iff] using hnone hkind
    rw [hkind, hnone hkind, Option.toList_none, map_nil, nil_append, nil_append] at hown
    rw [hbundle, genesisTunablesEvent_none, genesisPolicyBundleEvent_none]
    · exact ⟨rfl, rfl⟩
    · intro kind hkind
      rw [hown] at hkind
      exact not_isSnapshot_of_rest hrest hkind
    · intro kind hkind
      rw [hown] at hkind
      exact not_isSnapshot_of_rest hrest hkind
  | some p =>
    have hkind : tunablesKind parent lines = some (.tunablesSnapshot p.1 (some
        { parentRun := parent, parentDigestSha256 := p.1.digestSha256 })) := by rw [tunablesKind, htunables, Option.map_some]
    rw [hkind, Option.toList_some, List.map_singleton, singleton_append] at hown
    have hsecond : genesisTunablesEvent own = some (p.1, some
        { parentRun := parent, parentDigestSha256 := p.1.digestSha256 }) := by
      rw [genesisTunablesEvent, ← List.getElem?_map, hown]
      rfl
    refine ⟨by simp [hsecond, inherits], ?_⟩
    cases hbundle : genesisPolicyBundleEvent lines with
    | none =>
      have hkind : policyBundleKind parent lines = none := by rw [policyBundleKind, hbundle, Option.map_none]
      rw [hkind, Option.toList_none, map_nil, nil_append] at hown
      rw [genesisPolicyBundleEvent_none]
      · rfl
      · intro kind hkind
        rw [hown] at hkind
        exact not_isSnapshot_of_rest hrest hkind
    | some q =>
      have hkind : policyBundleKind parent lines = some (.policyBundleSnapshot q.1 (some
          { parentRun := parent, parentDigestSha256 := q.1.digestSha256 })) := by
        rw [policyBundleKind, hbundle, Option.map_some]
      rw [hkind, Option.toList_some, List.map_singleton, singleton_append] at hown
      have hthird : genesisPolicyBundleEvent own = some (q.1, some
          { parentRun := parent, parentDigestSha256 := q.1.digestSha256 }) := by
        rw [genesisPolicyBundleEvent, ← List.getElem?_map, hown]
        rfl
      simp [hthird, inherits]

theorem edgeOf_genesis (hsha : isSha256 pinned = true)
    (hown : own.map ReadLine.kind = (forkKinds E parent a createdAt lines pinned history).map E.redactKind) :
    edgeOf own = some { parent := parent, forkedAt := a, parentHash := pinned } := by
  obtain ⟨start, hstart, hparent, hat, hhash⟩ :=
    @redactKind_genesisStart E parent a createdAt lines pinned history hsha
  obtain ⟨_, hkinds, -⟩ := @forkKinds_split E parent a createdAt lines pinned history
  have hhead : own.head?.map ReadLine.kind = some (.runStart start) := by
    rw [← List.head?_map, hown, hkinds, map_cons, List.head?_cons, hstart]
  simp [edgeOf, hhead, hparent, hat, hhash]

theorem genesis_linked {fileP : JournalFile} (hid : validateRunId parent = .ok ())
    (hverified : Verified E fileP) (htenant : ensureTenant tenant ((fileP.readLines.head?.map ReadLine.tenant).getD tenant) 0 = .ok ())
    (howner : own.head?.map ReadLine.tenant = some tenant)
    (hown : own.map ReadLine.kind = (forkKinds E parent a createdAt fileP.readLines pinned history).map E.redactKind)
    (hnone : tunablesKind parent fileP.readLines = none → policyBundleKind parent fileP.readLines = none)
    (hpinned : ∃ l, fileP.readLines.find? (fun l => l.seq = a) = some l ∧ l.hash = pinned) :
    Linked E own { parent := parent, forkedAt := a, parentHash := pinned } fileP := by
  obtain ⟨htunables, hbundle⟩ := genesis_inherits hown hnone
  refine ⟨hid, hverified, ?_, htunables, hbundle, hpinned⟩
  rw [howner]
  exact htenant

/-! ## A load of the child -/

theorem Verified.sha256 (h : Verified E file) (hE : E.Sound) : ∀ l ∈ file.readLines, isSha256 l.hash = true := by
  intro l hl
  obtain ⟨cl, hcl, rfl⟩ := List.mem_map.1 hl
  obtain ⟨_, hscan⟩ := h.chained
  obtain ⟨_, _, hone⟩ := foldlM_mem hscan cl hcl
  simp only [verifyLine, bind_eq_ok, refuseIf_eq_ok, not_or, not_not] at hone
  obtain ⟨_, -, _, -, _, -, _, ⟨hhash, -⟩, -⟩ := hone
  show isSha256 cl.hash = true
  rw [← hhash]
  exact hE.sha256 _ _ _

variable {anc : List (String × JournalFile)}

theorem Ancestry.files (h : Ancestry E s lines anc) :
    ∀ {n : Nat} {run : String} {file : JournalFile}, s[run]? = some file → file.readLines = lines → anc.length ≤ n →
      lineageFiles s (n + 1) run = file :: anc.map Prod.snd := by
  induction h with
  | root hroot =>
    rintro n run file hfile rfl -
    simp only [lineageFiles, hfile, hroot, map_nil]
  | parent hedge hparent _ _ ih =>
    rintro n run file hfile rfl hlen
    obtain ⟨m, rfl⟩ : ∃ m, n = m + 1 := ⟨n - 1, by simp only [length_cons] at hlen; omega⟩
    rw [lineageFiles]
    simp only [hfile, hedge, map_cons]
    rw [ih hparent rfl (Nat.le_of_succ_le_succ hlen)]

/-- What a fork under a fresh id leaves: a file in order that names its parent and the ancestors it was read with. -/
structure Begun (E : Env) (s s₁ : Store) (parent : String) (a : Nat) (tenant child : String) (createdAt : Nat)
    (file : JournalFile) (anc : List (String × JournalFile)) : Prop where
  id : validateRunId child = .ok ()
  stored : s₁[child]? = some file
  genesis : forkGenesis E s parent a tenant createdAt = .ok file
  verified : Verified E file
  ancestry : Ancestry E s₁ file.readLines anc
  fresh : Fresh (({} : Budget).expand child) anc
  files : lineageFiles s (maxForkDepth + 1) parent = anc.map Prod.snd

theorem fork_begun (hE : E.Sound) (h : fork E s parent a tenant child createdAt = .ok s₁) (hfresh : s[child]? = none) :
    ∃ file anc, Begun E s s₁ parent a tenant child createdAt file anc := by
  simp only [fork, bind_eq_ok] at h
  obtain ⟨_, hid, ⟨lines, b⟩, hread, _, htenant, h⟩ := h
  cases hpin : lines.find? (fun l => l.seq = a) with
  | none =>
    simp only [hpin] at h
    cases h
  | some pinned =>
    simp only [hpin, bind_eq_ok, pure_eq_ok, hfresh, Option.getD_none] at h
    obtain ⟨branch, hbranch, _, -, _, hchild, _, hcheck, file, hall, rfl⟩ := h
    obtain ⟨fileP, hfileP, -⟩ := readChain_ok hread
    have hstart : ({} : Budget).Covers [] := ⟨Nat.zero_le _, Nat.zero_le _, Nat.zero_le _⟩
    obtain ⟨hverifiedP, rfl, rfl, hcovers⟩ := (readChain_iff hfileP hstart).1 hread
    -- what the fork expanded: the parent's own ancestors
    obtain ⟨_, _, inherited, hopen, hinherits, -⟩ := expand_ok.1 hbranch
    obtain ⟨-, hbegin, rfl⟩ := openLines_some.1 hopen
    obtain ⟨-, rfl⟩ := beginExpand_ok.1 hbegin
    have hleft : ((({} : Budget).spend fileP).expand parent).Covers [] :=
      Budget.covers_expand.2 (Budget.covers_cons.1 hcovers)
    obtain ⟨anc, hanc, hlen, hanc', -⟩ := (inherits_iff hleft).1 ⟨inherited, hinherits⟩
    have hsha := hverifiedP.sha256 hE pinned (List.mem_of_find?_eq_some hpin)
    obtain ⟨scan, htracks⟩ := genesis_tracks hE hsha hcheck hall
    have hkinds : file.readLines.map ReadLine.kind = _ := appendAll_ok _ hall
    rw [List.map_map] at hkinds
    have holder : ∀ (r : String) f, s[r]? = some f → (s.insert child file)[r]? = some f := by
      intro r f hr
      rw [Table.get_insert, if_neg]
      · exact hr
      · rintro rfl
        rw [hr] at hfresh
        cases hfresh
    obtain ⟨hnodup, _⟩ : Fresh {} ((parent, fileP) :: anc) := fresh_cons.2 ⟨not_mem_nil, hanc'⟩
    refine ⟨file, (parent, fileP) :: anc, hchild, ?_, ?_, ?_, ?_, ⟨hnodup, ?_⟩, hanc.files hfileP rfl hlen⟩
    · rw [Table.get_insert, if_pos rfl]
    · simp only [forkGenesis, bind_eq_ok]
      refine ⟨(_, _), hread, ?_⟩
      simp only [hpin, bind_eq_ok, pure_eq_ok]
      exact ⟨branch, hbranch, (appendAll_push _ hall).symm⟩
    · exact ⟨htracks.short, by rw [htracks.torn]; exact Nat.zero_le _, scan, htracks.scanned⟩
    · refine .parent (edgeOf_genesis hsha hkinds) (holder parent fileP hfileP) ?_ (hanc.older holder)
      refine genesis_linked hid hverifiedP htenant ?_ hkinds (fun hnone => policyBundleKind_of_none hnone hall)
        ⟨pinned, hpin, rfl⟩
      cases hchain : file.chain with
      | nil =>
        rw [JournalFile.readLines, hchain] at hkinds
        cases hkinds
      | cons cl _ =>
        have howner := htracks.tenants cl (by rw [hchain]; exact .head _)
        rw [JournalFile.readLines, hchain, map_cons, List.head?_cons, Option.map_some, ← howner]
        rfl
    · intro r hr hchild'
      obtain ⟨p, hp, rfl⟩ := List.mem_map.1 hr
      have hstored : s[p.1]? = some p.2 := by
        rcases List.mem_cons.1 hp with rfl | hp
        · exact hfileP
        · exact hanc.stored p hp
      rw [List.mem_singleton.1 hchild', hfresh] at hstored
      cases hstored

theorem Begun.load_iff (h : Begun E s s₁ parent a tenant child createdAt file anc) :
    (∃ events, loadForked E s₁ child = .ok events) ↔ LoadFits (file :: anc.map Prod.snd) := by
  have hstart : (({} : Budget).expand child).Covers [] := ⟨Nat.zero_le _, Nat.zero_le _, Nat.zero_le _⟩
  constructor
  · rintro ⟨events, hload⟩
    obtain ⟨_, hbranch, -⟩ := loadForked_ok hload
    obtain ⟨_, _, inherited, hopen, hinherits, -⟩ := expand_ok.1 hbranch
    obtain ⟨-, _, hbegin, hread⟩ := openLines_none.1 hopen
    obtain ⟨-, rfl⟩ := beginExpand_ok.1 hbegin
    obtain ⟨-, rfl, rfl, hcovers⟩ := (readChain_iff h.stored hstart).1 hread
    obtain ⟨_, hanc', hlen, -, hall⟩ := (inherits_iff (Budget.covers_cons.1 hcovers)).1 ⟨inherited, hinherits⟩
    rw [← h.ancestry.unique hanc'] at hlen hall
    refine ⟨?_, Budget.covers_expand.1 (Budget.covers_cons.2 hall)⟩
    rw [length_cons, List.length_map]
    exact Nat.succ_le_succ hlen
  · rintro ⟨hlen, hcovered⟩
    rw [length_cons, List.length_map] at hlen
    have hall := Budget.covers_cons.1 (Budget.covers_expand.2 hcovered : (({} : Budget).expand child).Covers _)
    obtain ⟨inherited, hinherits⟩ := (inherits_iff hall.nil).2
      ⟨anc, h.ancestry, Nat.le_of_succ_le_succ hlen, h.fresh, hall⟩
    have hread := (readChain_iff (E := E) h.stored hstart).2 ⟨h.verified, rfl, rfl, Budget.covers_cons.2 hall.nil⟩
    have hload : loadForkedScoped E s₁ child = .ok (inherited ++ ownEvents child none file.readLines) :=
      expand_ok.2 ⟨_, _, inherited, openLines_none.2 ⟨h.id, _, beginExpand_ok.2 ⟨not_mem_nil, rfl⟩, hread⟩,
        hinherits, rfl⟩
    exact ⟨_, by rw [loadForked, hload]; rfl⟩

/-- **A fork can be loaded exactly when its genesis, the parent and all its ancestors stay together within the limits on
bytes, lines, events and generations.** -/
theorem fork_loads_iff (E : Env) (hE : E.Sound) (s s₁ : Store) (parent child tenant : String) (a createdAt : Nat)
    (hfork : fork E s parent a tenant child createdAt = .ok s₁) (hfresh : s[child]? = none) :
    (∃ events, loadForked E s₁ child = .ok events) ↔
      ∃ genesis, forkGenesis E s parent a tenant createdAt = .ok genesis ∧
        LoadFits (genesis :: lineageFiles s (maxForkDepth + 1) parent) := by
  obtain ⟨_, _, hbegun⟩ := fork_begun hE hfork hfresh
  rw [hbegun.load_iff, ← hbegun.files, hbegun.genesis]
  simp only [Except.ok.injEq, exists_eq_left']

/-! ## A history at the limit -/

/-- An environment with digests for hashes, where texts are long. -/
def digestEnv : Env where
  toRedactor := plainEnv.toRedactor
  hashLine := fun _ _ _ => zeroHash
  lineBytes := fun cl => if cl.payload.kind = .other "" then 8388483 else 1000
  readable := plainEnv.readable
  writable := plainEnv.writable
  validCheckpoint := plainEnv.validCheckpoint
  usdValid := plainEnv.usdValid
  legacyUsdToMicrousdFloor := plainEnv.legacyUsdToMicrousdFloor
  microusdToUsd := plainEnv.microusdToUsd

theorem digestEnv_sound : digestEnv.Sound := by
  refine ⟨fun _ _ _ => ?_, fun _ _ _ => rfl⟩
  show isSha256 zeroHash = true
  decide +kernel

def textStore (texts : Nat) : Store :=
  (∅ : Store).insert "p" ((({ seq := 0, turn := 0, kind := .runStart plainStart } : Event) ::
    List.replicate texts { seq := 0, turn := 0, kind := .other "" }).foldl (JournalFile.push digestEnv "t") {})

/-- The fork of a short history is loaded. -/
theorem fork_loads_iff_short : ∃ s₁ events, fork digestEnv (textStore 1) "p" 1 "t" "c" 7 = .ok s₁ ∧
    loadForked digestEnv s₁ "c" = .ok events := by
  have hrun : (fork digestEnv (textStore 1) "p" 1 "t" "c" 7).isOk = true ∧ (textStore 1)["c"]? = none ∧
      (forkGenesis digestEnv (textStore 1) "p" 1 "t" 7).map
        (fun genesis => decide (LoadFits (genesis :: lineageFiles (textStore 1) (maxForkDepth + 1) "p"))) = .ok true := by
    decide +kernel
  obtain ⟨hok, hfresh, hfits⟩ := hrun
  cases hfork : fork digestEnv (textStore 1) "p" 1 "t" "c" 7 with
  | error e =>
    rw [hfork] at hok
    cases hok
  | ok s₁ =>
    cases hgenesis : forkGenesis digestEnv (textStore 1) "p" 1 "t" 7 with
    | error e =>
      rw [hgenesis] at hfits
      cases hfits
    | ok genesis =>
      rw [hgenesis] at hfits
      obtain ⟨events, hload⟩ := (fork_loads_iff digestEnv digestEnv_sound (textStore 1) s₁ "p" "c" "t" 1 7 hfork hfresh).2
        ⟨genesis, hgenesis, of_decide_eq_true (Except.ok.inj hfits)⟩
      exact ⟨s₁, events, rfl, hload⟩

/-- **The fork of a history of sixty-four MiB succeeds, and the child cannot be loaded.** -/
theorem not_fork_loads : ∃ s₁, fork digestEnv (textStore 8) "p" 8 "t" "c" 7 = .ok s₁ ∧ (textStore 8)["c"]? = none ∧
    loadForked digestEnv s₁ "c" = .error (.rolloutTooLarge 67112864) := by
  have hrun : ((fork digestEnv (textStore 8) "p" 8 "t" "c" 7).map
      (fun s₁ => decide (loadForked digestEnv s₁ "c" = .error (.rolloutTooLarge 67112864)))) = .ok true ∧
      (textStore 8)["c"]? = none := by decide
  cases hfork : fork digestEnv (textStore 8) "p" 8 "t" "c" 7 with
  | error e =>
    rw [hfork] at hrun
    cases hrun.1
  | ok s₁ =>
    rw [hfork] at hrun
    exact ⟨s₁, rfl, hrun.2, of_decide_eq_true (Except.ok.inj hrun.1)⟩

end Iteron.Session
