import Iteron.SessionForkRun
/-!
# SessionReaders — the two readers of a run

`replay` reads one journal and stamps every event with the sequence number of its line.  A load goes through the reader
of fork chains, which hands out each event as its line encodes it.
-/
namespace Iteron.Session

open Refuse

variable {E : Env} {s : Store} {run : String}

/-! ## Replay -/

structure Replaying where
  events : List Event := []
  prev : String := zeroHash
  tenant : Option String := none

/-- The sequence number in a payload is a placeholder of its writer: that of the line takes its place. -/
def ChainLine.stamped (cl : ChainLine) : Event := { cl.payload with seq := cl.seq }

def replayChainLine (E : Env) (st : Replaying) (cl : ChainLine) : Except RecordError Replaying := do
  refuseIf (st.events.length + 1 > maxRolloutEvents) .tooManyEvents
  refuseIf (cl.seq ≠ st.events.length) (.sequenceBroken st.events.length cl.seq)
  ensureTenant (st.tenant.getD cl.tenant) cl.tenant cl.seq
  refuseIf (E.hashLine st.prev cl.seq cl.payload ≠ cl.hash)
    (.chainBroken cl.seq cl.hash (E.hashLine st.prev cl.seq cl.payload))
  refuseIf (cl.prev ≠ st.prev) (.chainBroken cl.seq cl.prev st.prev)
  E.readable cl.tenant cl.payload
  return { events := st.events ++ [cl.stamped], prev := cl.hash, tenant := st.tenant.or (some cl.tenant) }

def replayLine (E : Env) (st : Replaying × Budget) (line : Line) : Except RecordError (Replaying × Budget) := do
  let budget ← chargeLine st.2 line
  match line.content with
  | none => return (st.1, budget)
  | some cl => do
    let replaying ← replayChainLine E st.1 cl
    return (replaying, budget)

/-- `replay`; the guard is that of the run's private content, asked only where the journal names a tenant. -/
def replay (E : Env) (guardPrivateContent : String → String → Except RecordError Unit) (s : Store) (run : String) :
    Except RecordError (List Event) :=
  match s[run]? with
  | none => .error (.io "not found")
  | some file => do
    refuseIf (file.length > maxRolloutBytes) (.rolloutTooLarge file.length)
    let (st, budget) ← file.lines.foldlM (replayLine E) ({}, {})
    refuseIf (file.torn > maxRecordLineBytes) (.recordLineTooLarge file.torn)
    let _ ← chargeBytes budget file.torn
    match st.tenant with
    | none => return st.events
    | some tenant => do
      guardPrivateContent tenant run
      return st.events

/-! ## What each of them returns -/

theorem replayLine_ok {st st' : Replaying × Budget} {line : Line} (h : replayLine E st line = .ok st') :
    st'.1.events = st.1.events ++ line.content.toList.map ChainLine.stamped := by
  unfold replayLine at h
  rw [bind_eq_ok] at h
  obtain ⟨_, -, h⟩ := h
  cases hc : line.content with
  | none =>
    simp only [hc, pure_eq_ok] at h
    rw [← h, Option.toList_none, List.map_nil, List.append_nil]
  | some _ =>
    simp only [hc, replayChainLine, bind_eq_ok, pure_eq_ok] at h
    obtain ⟨_, ⟨_, -, _, -, _, -, _, -, _, -, _, -, rfl⟩, rfl⟩ := h
    rfl

theorem replayAll_ok : ∀ (lines : List Line) {st st' : Replaying × Budget}, lines.foldlM (replayLine E) st = .ok st' →
    st'.1.events = st.1.events ++ (lines.filterMap Line.content).map ChainLine.stamped
  | [], st, st', h => by
    rw [List.foldlM_nil, pure_eq_ok] at h
    rw [h, List.filterMap_nil, List.map_nil, List.append_nil]
  | line :: lines, st, st', h => by
    rw [List.foldlM_cons, bind_eq_ok] at h
    obtain ⟨_, hstep, hrest⟩ := h
    rw [replayAll_ok lines hrest, replayLine_ok hstep, List.append_assoc, ← List.map_append]
    cases hc : line.content with
    | none => rw [List.filterMap_cons_none hc, Option.toList_none, List.nil_append]
    | some _ => rw [List.filterMap_cons_some hc, Option.toList_some, List.singleton_append]

variable {file : JournalFile} {events : List Event}

theorem replay_ok {guardPrivateContent : String → String → Except RecordError Unit} (hfile : s[run]? = some file)
    (h : replay E guardPrivateContent s run = .ok events) : events = file.chain.map ChainLine.stamped := by
  simp only [replay, hfile, bind_eq_ok] at h
  obtain ⟨_, -, ⟨st, _⟩, hall, _, -, _, -, h⟩ := h
  have hevents : st.events = events := by
    cases htenant : st.tenant with
    | none => simpa only [htenant, pure_eq_ok] using h
    | some _ =>
      simp only [htenant, bind_eq_ok, pure_eq_ok] at h
      obtain ⟨_, -, heq⟩ := h
      exact heq
  have hlines := replayAll_ok file.lines hall
  rw [hevents, List.nil_append] at hlines
  exact hlines

theorem load_root (hfile : s[run]? = some file) (hroot : edgeOf file.readLines = none)
    (h : loadForked E s run = .ok events) : events = file.chain.map ChainLine.payload := by
  obtain ⟨_, hbranch, rfl⟩ := loadForked_ok h
  have hread : Reads s run file.readLines := by
    obtain ⟨lines, hlines, -⟩ := load_parent hbranch
    obtain ⟨file', hfile', rfl, hn⟩ := hlines
    obtain rfl := Option.some.inj (hfile'.symm.trans hfile)
    exact ⟨file', hfile', rfl, hn⟩
  rw [(History.root hread hroot).unique (load_history hbranch)]
  simp [ownEvents, JournalFile.readLines, ChainLine.read, Function.comp_def]

/-! ## Where they agree -/

theorem stamped_eq_payload {cl : ChainLine} : cl.payload = cl.stamped ↔ cl.payload.seq = cl.seq := by
  constructor
  · intro h
    rw [h]
    rfl
  · intro h
    rw [ChainLine.stamped, ← h]

/-- **The two readers of a run without a parent return the same events exactly when every payload already holds the
sequence number of its line.** -/
theorem readers_agree_iff (E : Env) (guardPrivateContent : String → String → Except RecordError Unit) (s : Store)
    (run : String) (file : JournalFile) (loaded replayed : List Event) (hfile : s[run]? = some file)
    (hroot : edgeOf file.readLines = none) (hload : loadForked E s run = .ok loaded)
    (hreplay : replay E guardPrivateContent s run = .ok replayed) :
    loaded = replayed ↔ ∀ cl ∈ file.chain, cl.payload.seq = cl.seq := by
  rw [load_root hfile hroot hload, replay_ok hfile hreplay, List.map_inj_left]
  exact forall₂_congr fun cl _ => stamped_eq_payload

/-- A start and an effort change whose payload holds the given number, chained by the environment's hash. -/
def effortFile (E : Env) (seq : Nat) : JournalFile :=
  let start : Event := { seq := 0, turn := 0, kind := .runStart plainStart }
  let effort : Event := { seq := seq, turn := 0, kind := .effortChanged .operator .high }
  let first := E.hashLine zeroHash 0 start
  { lines :=
      [{ bytes := 1, content := some
          { seq := 0, tenant := "t", prev := zeroHash, hash := first, payload := start } },
       { bytes := 1, content := some
          { seq := 1, tenant := "t", prev := first, hash := E.hashLine first 1 effort, payload := effort } }] }

def effortStore (E : Env) (seq : Nat) : Store := (∅ : Store).insert "p" (effortFile E seq)

/-- A journal whose payloads are stamped: both readers return its events. -/
theorem readers_agree_iff_stamped : ∃ loaded replayed, loadForked plainEnv (effortStore plainEnv 1) "p" = .ok loaded ∧
    replay plainEnv (fun _ _ => .ok ()) (effortStore plainEnv 1) "p" = .ok replayed ∧ loaded = replayed := by
  have hfile : (effortStore plainEnv 1)["p"]? = some (effortFile plainEnv 1) := by
    rw [effortStore, Table.get_insert, if_pos rfl]
  have hruns : loadForked plainEnv (effortStore plainEnv 1) "p" =
        .ok ((effortFile plainEnv 1).chain.map ChainLine.payload) ∧
      replay plainEnv (fun _ _ => .ok ()) (effortStore plainEnv 1) "p" =
        .ok ((effortFile plainEnv 1).chain.map ChainLine.stamped) := by decide
  refine ⟨_, _, hruns.1, hruns.2, ?_⟩
  exact (readers_agree_iff plainEnv (fun _ _ => .ok ()) _ "p" _ _ _ hfile (by decide) hruns.1 hruns.2).2 (by decide)

/-- **A journal from before payloads were stamped loads as two events of sequence number zero**, and is replayed as
events zero and one. -/
theorem not_readers_agree : ∃ loaded replayed, edgeOf (effortFile plainEnv 0).readLines = none ∧
    loadForked plainEnv (effortStore plainEnv 0) "p" = .ok loaded ∧
    replay plainEnv (fun _ _ => .ok ()) (effortStore plainEnv 0) "p" = .ok replayed ∧
    loaded.map Event.seq = [0, 0] ∧ replayed.map Event.seq = [0, 1] ∧ loaded ≠ replayed := by
  refine ⟨(effortFile plainEnv 0).chain.map ChainLine.payload, (effortFile plainEnv 0).chain.map ChainLine.stamped, ?_⟩
  decide

end Iteron.Session
