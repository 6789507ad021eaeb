import Iteron.DagLedger
import Iteron.DagStoreRun
/-!
# DagLedgerRun — which histories keep command ids apart

The counter stays above every recorded id, and the ids of waiting submissions stay unused, in every history that is
`Orderly`: logs are reopened with no id above their sequence number, nothing takes an id while a reconciliation is under
way, and a reconciliation that recorded something does not fail.  A rejected submission is enough to break the first.
-/
namespace Iteron.Dag
namespace ExecutionLedger

open Machine TaskDag TaskDagStore

variable {C : Codec} {H : Digests} {config : Config}

/-! ## Recorded ids -/

def Recorded (d : TaskDag) (id : Nat) : Prop := ∃ receipt, d.commands[id]? = some receipt

variable {d : TaskDag} {id : Nat}

theorem freshId_iff : FreshId d id ↔ ¬ Recorded d id := by
  unfold FreshId Recorded
  cases d.commands[id]? <;> simp

variable {d' : TaskDag}

theorem chain_recorded {es : List LogEntry} (h : Chain H d es d') (hr : Recorded d' id) :
    Recorded d id ∨ ∃ e ∈ es, e.commandId = id := by
  induction h with
  | nil => exact .inl hr
  | cons _ _ _ e es hp hc _ ih =>
    rcases ih hr with ⟨receipt, hget⟩ | ⟨e', he', hid⟩
    · rw [(commit_ok hp hc).2.2.2.2] at hget
      rcases Table.insert_eq_some hget with ⟨hid, -⟩ | ⟨-, hget⟩
      · exact .inr ⟨e, .head _, hid⟩
      · exact .inl ⟨receipt, hget⟩
    · exact .inr ⟨e', .tail _ he', hid⟩

variable {c : Command} {receipt : ApplyReceipt}

theorem recorded_of_replay (h : d.prepare H id c = .ok (.replay receipt)) : Recorded d id := by
  unfold prepare at h
  split at h
  · cases h
  · split at h
    · cases h
    · split at h
      · rename_i existing hget
        exact ⟨existing, hget⟩
      · split at h
        · cases h
        · split at h <;> cases h

theorem newEntries_ids : ∀ {commands : List (Nat × Command)} {d : TaskDag} {e : LogEntry},
    e ∈ newEntries H d commands → e.commandId ∈ commands.map Prod.fst
  | [], _, _, he => by cases he
  | (id, c) :: rest, d, e, he => by
    rw [newEntries] at he
    cases hp : d.prepare H id c with
    | error _ => rw [hp] at he; cases he
    | ok prepared =>
      rw [hp] at he
      cases prepared with
      | replay _ => exact .tail _ (newEntries_ids he)
      | new _ =>
        obtain ⟨_, hc⟩ := commit_of_prepare hp
        dsimp only at he
        rw [hc] at he
        rcases List.mem_cons.1 he with rfl | he
        · rw [(prepare_entry hp).1]
          exact .head _
        · exact .tail _ (newEntries_ids he)

variable {s s' : TaskDagStore}

theorem stores_recorded {commands : List (Nat × Command)} (h : Stores C H s commands s')
    (hr : Recorded s'.dag id) : Recorded s.dag id ∨ id ∈ commands.map Prod.fst := by
  cases h with
  | same => exact .inl hr
  | failed staged encoded _ _ => exact .inl hr
  | synced staged encoded _ hchain =>
    rcases chain_recorded hchain hr with hr | ⟨e, he, rfl⟩
    · exact .inl hr
    · exact .inr (newEntries_ids he)

/-! ## Recovery ids -/

variable {append : Append}

theorem submit_outcome {r : Except DagError ApplyReceipt} (h : s.submit C H id c append = some (s', r)) :
    (s'.dag = s.dag ∧ (r.isOk = true → Recorded s.dag id)) ∨
      ∃ e, s.dag.prepare H id c = .ok (.new e) ∧ s.dag.commit e = some s'.dag ∧ r.isOk = true := by
  unfold TaskDagStore.submit at h
  cases hpois : s.poisoned with
  | some reason => rw [hpois] at h; cases h; exact .inl ⟨rfl, fun hok => (by cases hok)⟩
  | none =>
    rw [hpois] at h
    cases hp : s.dag.prepare H id c with
    | error e => rw [hp] at h; cases h; exact .inl ⟨rfl, fun hok => (by cases hok)⟩
    | ok prepared =>
      rw [hp] at h
      cases prepared with
      | replay _ =>
        cases h
        exact .inl ⟨rfl, fun _ => recorded_of_replay hp⟩
      | new e =>
        dsimp only at h
        cases henc : encodeLine C (.command e) with
        | error _ => rw [henc] at h; cases h; exact .inl ⟨rfl, fun hok => (by cases hok)⟩
        | ok encoded =>
          rw [henc] at h
          dsimp only at h
          by_cases hroom : s.bytes + encoded.length > maxLogBytes
          · rw [if_pos hroom] at h
            cases h
            exact .inl ⟨rfl, fun hok => (by cases hok)⟩
          · rw [if_neg hroom] at h
            cases append with
            | failed _ reason => cases h; exact .inl ⟨rfl, fun hok => (by cases hok)⟩
            | synced =>
              obtain ⟨_, hc, hs⟩ := Option.map_eq_some_iff.1 h
              cases hs
              exact .inr ⟨e, rfl, hc, rfl⟩

structure Recovers (s s' : TaskDagStore) (next next' : Nat) (ok : Bool) : Prop where
  le : next ≤ next'
  recorded : ∀ id, Recorded s'.dag id → Recorded s.dag id ∨ (next ≤ id ∧ id < next')
  tried : ok = false → next < next'
  first : next' ≤ next + (if ok then 0 else 1) → s'.dag = s.dag

variable {a b : Nat} {ok : Bool}

theorem Recovers.trans {s1 s2 : TaskDagStore} {c : Nat} (h1 : Recovers s s1 a b true)
    (h2 : Recovers s1 s2 b c ok) : Recovers s s2 a c ok := by
  have hab := h1.le
  have hbc := h2.le
  refine ⟨by omega, fun id hr => ?_, fun hno => ?_, fun hle => ?_⟩
  · rcases h2.recorded id hr with hr | ⟨hge, hlt⟩
    · rcases h1.recorded id hr with hr | ⟨hge, hlt⟩
      · exact .inl hr
      · exact .inr ⟨hge, by omega⟩
    · exact .inr ⟨by omega, hlt⟩
  · have := h2.tried hno
    omega
  · have hsame : b ≤ a := by
      cases ok with
      | true => simp only [if_true] at hle; omega
      | false =>
        have := h2.tried rfl
        simp only [Bool.false_eq_true, if_false] at hle
        omega
    rw [h2.first (by omega), h1.first (by simpa using hsame)]

theorem saturatingAdd_of_le (h : saturatingAdd a 1 ≤ b) (hb : b < u64Max) : saturatingAdd a 1 = a + 1 := by
  unfold saturatingAdd at h ⊢
  omega

variable {next : Nat}

theorem submit_recovers {r : Except DagError ApplyReceipt} (h : s.submit C H next c append = some (s', r)) :
    Recovers s s' next (next + 1) r.isOk := by
  refine ⟨Nat.le_succ _, fun id hr => ?_, fun _ => Nat.lt_succ_self _, fun hle => ?_⟩
  · rcases stores_recorded (submit_stores h) hr with hr | hid
    · exact .inl hr
    · rw [List.map_singleton, List.mem_singleton] at hid
      exact .inr (by omega)
  · rcases submit_outcome h with ⟨hdag, -⟩ | ⟨e, -, -, hok⟩
    · exact hdag
    · rw [hok, if_pos rfl] at hle
      omega

theorem submitRecovery_cons {io : Nat → Append} {cs : List Command} {next' : Nat} {r : Except DagError Unit}
    (h : submitRecovery C H io s next (c :: cs) = some (s', next', r)) :
    (∃ e, s.submit C H next c (io next) = some (s', .error e) ∧ next' = saturatingAdd next 1 ∧ r = .error e) ∨
    ∃ s₁ receipt, s.submit C H next c (io next) = some (s₁, .ok receipt) ∧
      submitRecovery C H io s₁ (saturatingAdd next 1) cs = some (s', next', r) := by
  rw [submitRecovery] at h
  cases hs : s.submit C H next c (io next) with
  | none => rw [hs] at h; cases h
  | some result =>
    obtain ⟨s₁, outcome⟩ := result
    rw [hs] at h
    cases outcome with
    | error e =>
      cases h
      exact .inl ⟨e, rfl, rfl, rfl⟩
    | ok receipt => exact .inr ⟨s₁, receipt, rfl, h⟩

theorem submitRecovery_recovers {io : Nat → Append} : ∀ {cs : List Command} {s s' : TaskDagStore} {next next' : Nat}
    {r : Except DagError Unit}, submitRecovery C H io s next cs = some (s', next', r) → next' < u64Max →
    Recovers s s' next next' r.isOk
  | [], _, _, _, _, _, h, _ => by
    cases h
    exact ⟨Nat.le_refl _, fun id hr => .inl hr, fun hno => (by cases hno), fun _ => rfl⟩
  | c :: cs, s, s', next, next', r, h, hlt => by
    obtain ⟨e, hs, rfl, rfl⟩ | ⟨_, _, hs, hrest⟩ := submitRecovery_cons h
    · rw [saturatingAdd_of_le (Nat.le_refl _) hlt]
      exact submit_recovers hs
    · have hrest := submitRecovery_recovers hrest hlt
      rw [saturatingAdd_of_le hrest.le hlt] at hrest
      exact (submit_recovers hs).trans hrest

variable {io : Nat → Append} {next' : Nat} {r : Except DagError Unit}

theorem reconcile_cases (h : reconcileNonterminal C H io s next = some (s', next', r)) :
    ∃ s₁ next₁ r₁, submitRecovery C H io s next ((Table.vals s.dag.attempts).flatMap attemptRecovery) =
        some (s₁, next₁, r₁) ∧ ((s₁, next₁, r₁) = (s', next', r) ∨ (r₁ = .ok () ∧
      submitRecovery C H io s₁ next₁ ((Table.vals s₁.dag.tasks).flatMap taskRecovery) = some (s', next', r))) := by
  unfold reconcileNonterminal at h
  cases hfirst : submitRecovery C H io s next ((Table.vals s.dag.attempts).flatMap attemptRecovery) with
  | none => rw [hfirst] at h; cases h
  | some result =>
    obtain ⟨s₁, next₁, outcome⟩ := result
    rw [hfirst] at h
    cases outcome with
    | error e => exact ⟨_, _, _, rfl, .inl (Option.some.inj h)⟩
    | ok u => exact ⟨_, _, _, rfl, .inr ⟨rfl, h⟩⟩

theorem reconcile_recovers (h : reconcileNonterminal C H io s next = some (s', next', r)) (hlt : next' < u64Max) :
    Recovers s s' next next' r.isOk := by
  obtain ⟨_, _, _, hfirst, heq | ⟨rfl, h⟩⟩ := reconcile_cases h
  · cases heq
    exact submitRecovery_recovers hfirst hlt
  · have hsecond := submitRecovery_recovers h hlt
    exact (submitRecovery_recovers hfirst (Nat.lt_of_le_of_lt hsecond.le hlt)).trans hsecond

/-! ## Room for recovery -/

/-- The ids of the store are below `next`, and its log is within its ceiling. -/
structure Roomy (s : TaskDagStore) (next ceiling : Nat) : Prop where
  below : ∀ id, Recorded s.dag id → id < next
  events : s.dag.config.limits.maxEvents = ceiling
  sequence : s.dag.sequence ≤ ceiling

variable {ceiling : Nat}

theorem Roomy.submit (h : Roomy s next ceiling) (hs : s.submit C H next c append = some (s', .ok receipt)) :
    Roomy s' (next + 1) ceiling ∧ s'.dag.sequence = s.dag.sequence + 1 := by
  rcases submit_outcome hs with ⟨-, hknown⟩ | ⟨e, hp, hc, -⟩
  · cases Nat.lt_irrefl _ (h.below next (hknown rfl))
  · obtain ⟨hid, hcmd⟩ := prepare_entry hp
    have hroom := (prepare_new hp).room
    rw [h.events] at hroom
    obtain ⟨hconfig, hseq, -⟩ := commit_ok (d := s.dag) (by rw [hid, hcmd]; exact hp) hc
    refine ⟨⟨fun id hr => ?_, by rw [hconfig]; exact h.events, by omega⟩, hseq⟩
    rcases (submit_recovers hs).recorded id hr with hr | ⟨-, hlt⟩
    · exact Nat.lt_succ_of_lt (h.below id hr)
    · exact hlt

theorem submitRecovery_roomy {io : Nat → Append} : ∀ {cs : List Command} {s s' : TaskDagStore}
    {next next' : Nat} {r : Except DagError Unit}, submitRecovery C H io s next cs = some (s', next', r) →
    Roomy s next ceiling → next + (ceiling - s.dag.sequence) + 1 < u64Max →
    next' + (ceiling - s'.dag.sequence) ≤ next + (ceiling - s.dag.sequence) + 1 ∧
      (r.isOk = true → Roomy s' next' ceiling ∧ next' + (ceiling - s'.dag.sequence) ≤ next + (ceiling - s.dag.sequence))
  | [], _, _, _, _, _, h, hroomy, _ => by
    cases h
    exact ⟨Nat.le_succ _, fun _ => ⟨hroomy, Nat.le_refl _⟩⟩
  | c :: cs, s, s', next, next', r, h, hroomy, hroom => by
    have hnext : saturatingAdd next 1 = next + 1 := by
      unfold saturatingAdd
      omega
    obtain ⟨e, hs, rfl, rfl⟩ | ⟨_, _, hs, hrest⟩ := submitRecovery_cons h
    · have hdag : s'.dag = s.dag := (submit_recovers hs).first (Nat.le_refl _)
      rw [hdag, hnext]
      exact ⟨by omega, fun hok => (by cases hok)⟩
    · obtain ⟨hroomy1, _⟩ := hroomy.submit hs
      have hle := hroomy1.sequence
      rw [hnext] at hrest
      obtain ⟨_, hok⟩ := submitRecovery_roomy hrest hroomy1 (by omega)
      refine ⟨by omega, fun hr => ⟨(hok hr).1, ?_⟩⟩
      have := (hok hr).2
      omega

theorem reconcile_room (h : reconcileNonterminal C H io s next = some (s', next', r)) (hroomy : Roomy s next ceiling)
    (hroom : next + (ceiling - s.dag.sequence) + 1 < u64Max) : next' < u64Max := by
  obtain ⟨_, _, _, hfirst, hlast⟩ := reconcile_cases h
  obtain ⟨_, hok⟩ := submitRecovery_roomy hfirst hroomy hroom
  obtain heq | ⟨rfl, h⟩ := hlast
  · cases heq
    omega
  · obtain ⟨hroomy1, _⟩ := hok rfl
    have := (submitRecovery_roomy h hroomy1 (by omega)).1
    omega

/-! ## Opened logs -/

theorem validateLimit_ok {value hard : Nat} {name : String} (h : validateLimit value hard name = .ok ()) :
    value ≤ hard := by
  unfold validateLimit at h
  split at h
  · cases h
  · split at h
    · cases h
    · omega

theorem validate_maxEvents (h : config.validate = .ok ()) : config.limits.maxEvents ≤ 65536 := by
  simp only [Config.validate, Limits.validate, Refuse.bind_eq_ok] at h
  obtain ⟨_, -, _, ⟨_, -, _, -, _, -, _, -, _, hevents, -⟩, -⟩ := h
  exact validateLimit_ok hevents

variable {e : LogEntry}

theorem ite_error_eq_ok {α ε : Type} {p : Prop} [Decidable p] {e : ε} {x : Option (Except ε α)} {a : α} :
    (if p then some (.error e) else x) = some (.ok a) ↔ ¬ p ∧ x = some (.ok a) := by
  split <;> simp_all

theorem replay_keeps (h : d.replay H e = some (.ok d')) :
    d'.config = d.config ∧ d'.sequence ≤ d.config.limits.maxEvents := by
  simp only [replay, ite_error_eq_ok] at h
  obtain ⟨-, -, hseq, -, -, -, -, -, hroom, h⟩ := h
  split at h
  · cases h
  · rename_i hvalid
    obtain ⟨a, ha, hstep⟩ := validated_applies hvalid
    have hconfig : a.config = d.config := step_config hstep
    simp only [commit, ha, Option.bind_eq_bind, Option.bind_some, Option.pure_def, Option.map_some, Option.some.injEq,
      Except.ok.injEq] at h
    subst h
    refine ⟨hconfig, ?_⟩
    show e.sequence ≤ _
    omega

theorem replayLines_keeps : ∀ {lines : List (List UInt8)} {d d' : TaskDag},
    replayLines C H d lines = some (.ok d') → d.sequence ≤ d.config.limits.maxEvents →
    d'.config = d.config ∧ d'.sequence ≤ d.config.limits.maxEvents
  | [], d, d', h, hle => by
    cases h
    exact ⟨rfl, hle⟩
  | raw :: lines, d, d', h, hle => by
    rw [replayLines] at h
    split at h
    · cases h
    · split at h
      · cases h
      · cases h
      · split at h
        · cases h
        · cases h
        · rename_i d1 hreplay
          obtain ⟨hconfig, hseq⟩ := replay_keeps hreplay
          rw [← hconfig] at hseq ⊢
          exact replayLines_keeps h hseq

theorem openStore_keeps {file : List UInt8} (h : openStore C H config file = some (.ok s)) :
    s.dag.config = config ∧ s.dag.sequence ≤ config.limits.maxEvents ∧ config.limits.maxEvents ≤ 65536 := by
  unfold openStore at h
  split at h
  · cases h
  rename_i hvalid
  have hhard := validate_maxEvents hvalid
  unfold openInner at h
  split at h
  · cases h
  dsimp only at h
  split at h
  · cases h
  split at h
  · cases h
  rename_i d hnew
  have hd : d.config = config ∧ d.sequence = 0 := by
    unfold TaskDag.new at hnew
    rw [hvalid] at hnew
    cases hnew
    exact ⟨rfl, rfl⟩
  split at h
  · split at h
    · cases h
    · cases h
      exact ⟨hd.1, by rw [hd.2]; exact Nat.zero_le _, hhard⟩
  split at h
  · cases h
  split at h
  · cases h
  split at h
  · cases h
  · cases h
  · rename_i d' hreplay
    cases h
    obtain ⟨hconfig, hseq⟩ := replayLines_keeps hreplay (by rw [hd.2]; exact Nat.zero_le _)
    rw [hd.1] at hconfig hseq
    exact ⟨hconfig, hseq, hhard⟩

/-! ## Orderly histories -/

/-- What keeps the ids apart, of each event and the world before it. -/
def Orderly (C : Codec) (H : Digests) (config : Config) (w : World) (event : Event) : Prop :=
  match w, event with
  -- no id of the log is above its sequence number
  | .closed file, .start _ => ∀ s, openStore C H config file = some (.ok s) →
      ∀ id, Recorded s.dag id → id ≤ s.dag.sequence
  -- no id is taken while a reconciliation is under way
  | .live l, .submit _ => l.recovery = .idle ∧ l.nextCommand + 1 ≤ u64Max
  | .live l, .submitBatch commands => l.recovery = .idle ∧ l.nextCommand + commands.length ≤ u64Max
  -- a reconciliation that failed did so at its first command
  | .live l, .store => ∀ next ok, l.recovery = .finished next ok →
      next < u64Max ∧ (ok = false → next = l.nextCommand + 1)
  | _, _ => True

/-- The counter is above every recorded id, and the ids of waiting submissions are below it, unused and distinct. -/
structure Apart (l : ExecutionLedger) (bound : Nat) : Prop where
  recorded : ∀ id, Recorded l.backend.dag id → id < bound
  waiting : ∀ submission ∈ l.inFlight, ∀ id ∈ submission.ids, id < l.nextCommand ∧ ¬ Recorded l.backend.dag id
  distinct : (l.inFlight.flatMap Submission.ids).Nodup

def LedgerLaw (l : ExecutionLedger) : Prop :=
  match l.recovery with
  | .idle => Apart l l.nextCommand
  | .loaded next => next = l.nextCommand ∧ Apart l l.nextCommand
  | .finished next ok => next < u64Max → l.nextCommand ≤ next ∧ Apart l next ∧
      (ok = false → next = l.nextCommand + 1 → Apart l l.nextCommand)

variable {l : ExecutionLedger}

theorem ledgerLaw_idle (h : l.recovery = .idle) : LedgerLaw l ↔ Apart l l.nextCommand := by
  unfold LedgerLaw
  rw [h]

theorem ledgerLaw_loaded (h : l.recovery = .loaded next) :
    LedgerLaw l ↔ next = l.nextCommand ∧ Apart l l.nextCommand := by
  unfold LedgerLaw
  rw [h]

theorem ledgerLaw_finished (h : l.recovery = .finished next ok) :
    LedgerLaw l ↔ (next < u64Max → l.nextCommand ≤ next ∧ Apart l next ∧
      (ok = false → next = l.nextCommand + 1 → Apart l l.nextCommand)) := by
  unfold LedgerLaw
  rw [h]

def WorldLaw : World → Prop
  | .closed _ => True
  | .live l => LedgerLaw l

/-! ## Events keep the law -/

theorem wrappingAdd_of_le (h : a + b ≤ u64Max) : wrappingAdd a b = a + b := by
  exact Nat.mod_eq_of_lt (Nat.lt_succ_of_le h)

variable {commands : List Command}

theorem allocate_ids {first : Nat} (h : first + commands.length ≤ u64Max) :
    (allocate first commands).map Prod.fst = List.range' first commands.length := by
  have hmap : (allocate first commands).map Prod.fst = (commands.zipIdx.map Prod.snd).map (fun i => first + i) := by
    unfold allocate
    rw [List.map_map, List.map_map]
    refine List.map_congr_left (fun p hp => ?_)
    have hlt := List.snd_lt_of_mem_zipIdx hp
    show min (first + p.2) u64Max = first + p.2
    omega
  rw [hmap, List.zipIdx_map_snd, List.map_add_range', Nat.add_zero]

theorem Apart.allocate (h : Apart l l.nextCommand) (submission : Submission) (count : Nat)
    (hids : ∀ id ∈ submission.ids, l.nextCommand ≤ id ∧ id < l.nextCommand + count) (hnodup : submission.ids.Nodup) :
    Apart { l with nextCommand := l.nextCommand + count, inFlight := l.inFlight ++ [submission] }
      (l.nextCommand + count) := by
  refine ⟨fun id hr => Nat.lt_of_lt_of_le (h.recorded id hr) (Nat.le_add_right _ _), fun sub hsub id hid => ?_, ?_⟩
  · rcases List.mem_append.1 hsub with hsub | hsub
    · obtain ⟨hlt, hfresh⟩ := h.waiting sub hsub id hid
      exact ⟨Nat.lt_of_lt_of_le hlt (Nat.le_add_right _ _), hfresh⟩
    · rw [List.mem_singleton.1 hsub] at hid
      obtain ⟨hle, hlt⟩ := hids id hid
      exact ⟨hlt, fun hr => absurd (h.recorded id hr) (Nat.not_lt.2 hle)⟩
  · rw [List.flatMap_append, List.flatMap_singleton]
    refine List.nodup_append.2 ⟨h.distinct, hnodup, fun a ha b hb hab => ?_⟩
    obtain ⟨sub, hsub, hid⟩ := List.mem_flatMap.1 ha
    have hlt := (h.waiting sub hsub a hid).1
    have hle := (hids b hb).1
    omega

variable {place : Nat} {submission : Submission}

theorem Apart.deliver (h : Apart l l.nextCommand) (hplace : l.inFlight[place]? = some submission)
    (hrec : ∀ id, Recorded s'.dag id → Recorded l.backend.dag id ∨ id ∈ submission.ids) :
    Apart { l with backend := s', inFlight := l.inFlight.eraseIdx place } l.nextCommand := by
  obtain ⟨hlt, hget⟩ := List.getElem?_eq_some_iff.1 hplace
  have hperm : (submission :: l.inFlight.eraseIdx place).Perm l.inFlight := by
    rw [← hget]
    exact List.getElem_cons_eraseIdx_perm hlt
  have hnodup : (submission.ids ++ (l.inFlight.eraseIdx place).flatMap Submission.ids).Nodup := by
    have hflat := hperm.flatMap_right Submission.ids
    exact hflat.nodup_iff.2 h.distinct
  obtain ⟨-, hrest, hdisjoint⟩ := List.nodup_append.1 hnodup
  refine ⟨fun id hr => ?_, fun sub hsub id hid => ?_, hrest⟩
  · rcases hrec id hr with hr | hid
    · exact h.recorded id hr
    · exact (h.waiting submission (List.mem_of_getElem? hplace) id hid).1
  · obtain ⟨hlt, hfresh⟩ := h.waiting sub (List.mem_of_mem_eraseIdx hsub) id hid
    refine ⟨hlt, fun hr => ?_⟩
    rcases hrec id hr with hr | hin
    · exact hfresh hr
    · exact hdisjoint id hin id (List.mem_flatMap.2 ⟨sub, hsub, hid⟩) rfl

theorem openLedger_law {file file' : List UInt8}
    (horder : Orderly C H config (.closed file) (.start io)) (h : openLedger C H config file io = some (file', .ok l)) :
    LedgerLaw l := by
  unfold openLedger at h
  cases hopen : openStore C H config file with
  | none => rw [hopen] at h; cases h
  | some opened =>
    rw [hopen] at h
    cases opened with
    | error e => cases h
    | ok s =>
      have hseq := horder s hopen
      obtain ⟨hconfig, hevents, _⟩ := openStore_keeps hopen
      have hfirst : saturatingAdd s.dag.sequence 1 = s.dag.sequence + 1 := by
        unfold saturatingAdd u64Max
        omega
      have hroomy : Roomy s (s.dag.sequence + 1) config.limits.maxEvents :=
        ⟨fun id hr => Nat.lt_succ_of_le (hseq id hr), by rw [hconfig], hevents⟩
      dsimp only at h
      rw [hfirst] at h
      cases hrec : reconcileNonterminal C H io s (s.dag.sequence + 1) with
      | none => rw [hrec] at h; cases h
      | some result =>
        obtain ⟨_, next, outcome⟩ := result
        rw [hrec] at h
        cases outcome with
        | error e => cases h
        | ok u =>
          cases h
          have hlt : next < u64Max := reconcile_room hrec hroomy (by unfold u64Max; omega)
          have hrecovers := reconcile_recovers hrec hlt
          refine ⟨fun id hr => ?_, fun sub hsub => (by cases hsub), List.nodup_nil⟩
          rcases hrecovers.recorded id hr with hr | ⟨-, hlt⟩
          · exact Nat.lt_of_lt_of_le (hroomy.below id hr) hrecovers.le
          · exact hlt

theorem submit_law (h : LedgerLaw l) (hidle : l.recovery = .idle)
    (hmax : l.nextCommand + 1 ≤ u64Max) (command : Command) : LedgerLaw (l.submit command) := by
  have hapart := (ledgerLaw_idle hidle).1 h
  refine (ledgerLaw_idle (l := l.submit command) hidle).2 ?_
  unfold ExecutionLedger.submit
  rw [wrappingAdd_of_le hmax]
  exact hapart.allocate (.single l.nextCommand command) 1 (by simp [Submission.ids]) (by simp [Submission.ids])

theorem submitBatch_law (h : LedgerLaw l) (hidle : l.recovery = .idle) (hmax : l.nextCommand + commands.length ≤ u64Max)
    : LedgerLaw (l.submitBatch commands) := by
  unfold ExecutionLedger.submitBatch
  by_cases hsize : commands = [] ∨ commands.length > 16
  · rw [if_pos hsize]
    exact h
  · rw [if_neg hsize, wrappingAdd_of_le hmax]
    have hapart := (ledgerLaw_idle hidle).1 h
    refine (ledgerLaw_idle (by exact hidle)).2 (hapart.allocate (.batch (allocate l.nextCommand commands))
      commands.length (fun id hid => ?_) ?_)
    · rw [Submission.ids, allocate_ids hmax] at hid
      exact List.mem_range'_1.1 hid
    · rw [Submission.ids, allocate_ids hmax]
      exact List.nodup_range'

theorem deliver_law {l' : ExecutionLedger} (h : LedgerLaw l) (hidle : l.recovery = .idle)
    (hplace : l.inFlight[place]? = some submission)
    (hs : l.deliver C H submission (l.inFlight.eraseIdx place) append = some l') : LedgerLaw l' := by
  have hapart := (ledgerLaw_idle hidle).1 h
  cases submission with
  | single _ _ =>
    obtain ⟨⟨s', r⟩, hsub, rfl⟩ := Option.map_eq_some_iff.1 hs
    refine (ledgerLaw_idle (by exact hidle)).2 (hapart.deliver hplace (fun k hk => ?_))
    simpa [Submission.ids] using stores_recorded (submit_stores hsub) hk
  | batch _ =>
    obtain ⟨⟨s', r⟩, hsub, rfl⟩ := Option.map_eq_some_iff.1 hs
    refine (ledgerLaw_idle (by exact hidle)).2 (hapart.deliver hplace (fun k hk => ?_))
    exact stores_recorded (submitBatch_stores hsub) hk

theorem recover_law (h : LedgerLaw l) (hloaded : l.recovery = .loaded next)
    (hrec : reconcileNonterminal C H io l.backend next = some (s', next', r)) :
    LedgerLaw { l with backend := s', recovery := .finished next' r.isOk } := by
  obtain ⟨rfl, hapart⟩ := (ledgerLaw_loaded hloaded).1 h
  refine (ledgerLaw_finished rfl).2 (fun hlt => ?_)
  have hrecovers := reconcile_recovers hrec hlt
  have hwaiting : ∀ submission ∈ l.inFlight, ∀ id ∈ submission.ids, id < l.nextCommand ∧ ¬ Recorded s'.dag id := by
    intro submission hsub id hid
    obtain ⟨hlt, hfresh⟩ := hapart.waiting submission hsub id hid
    refine ⟨hlt, fun hr => ?_⟩
    rcases hrecovers.recorded id hr with hr | ⟨_, -⟩
    · exact hfresh hr
    · omega
  refine ⟨hrecovers.le, ⟨fun id hr => ?_, hwaiting, hapart.distinct⟩, fun hfail hone => ?_⟩
  · rcases hrecovers.recorded id hr with hr | ⟨-, hlt⟩
    · exact Nat.lt_of_lt_of_le (hapart.recorded id hr) hrecovers.le
    · exact hlt
  · have hdag : s'.dag = l.backend.dag := hrecovers.first (by rw [hfail]; exact Nat.le_of_eq hone)
    exact ⟨fun id hr => hapart.recorded id (hdag ▸ hr), hwaiting, hapart.distinct⟩

theorem store_law (h : LedgerLaw l)
    (hfinished : l.recovery = .finished next ok) (hlt : next < u64Max) (hfirst : ok = false → next = l.nextCommand + 1) :
    LedgerLaw (if ok then { l with nextCommand := next, recovery := .idle } else { l with recovery := .idle }) := by
  obtain ⟨hle, hapart, hfail⟩ := (ledgerLaw_finished hfinished).1 h hlt
  cases ok with
  | true =>
    refine (ledgerLaw_idle rfl).2 ⟨hapart.recorded, fun submission hsub id hid => ?_, hapart.distinct⟩
    obtain ⟨hlt, hfresh⟩ := hapart.waiting submission hsub id hid
    exact ⟨Nat.lt_of_lt_of_le hlt hle, hfresh⟩
  | false =>
    have hback := hfail rfl (hfirst rfl)
    exact (ledgerLaw_idle rfl).2 ⟨hback.recorded, hback.waiting, hback.distinct⟩

theorem worldLaw_step {w w' : World} {event : Event} (horder : Orderly C H config w event) (h : WorldLaw w)
    (hs : step C H config w event = some w') : WorldLaw w' := by
  cases w with
  | closed file =>
    cases event with
    | start io =>
      unfold step at hs
      dsimp only at hs
      cases hopen : openLedger C H config file io with
      | none => rw [hopen] at hs; cases hs
      | some result =>
        obtain ⟨_, outcome⟩ := result
        rw [hopen] at hs
        cases outcome with
        | error e => cases hs; trivial
        | ok l => cases hs; exact openLedger_law horder hopen
    | _ => cases hs
  | live l =>
    cases event with
    | start io => cases hs
    | stop _ => cases hs; trivial
    | submit command => cases hs; exact submit_law h horder.1 horder.2 command
    | submitBatch _ => cases hs; exact submitBatch_law h horder.1 horder.2
    | deliver place _ =>
      unfold step at hs
      dsimp only at hs
      cases hrec : l.recovery with
      | idle =>
        cases hplace : l.inFlight[place]? with
        | none => rw [hrec, hplace] at hs; cases hs
        | some _ =>
          rw [hrec, hplace] at hs
          obtain ⟨_, hl', rfl⟩ := Option.map_eq_some_iff.1 hs
          exact deliver_law h hrec hplace hl'
      | loaded next => rw [hrec] at hs; cases hs
      | finished next ok => rw [hrec] at hs; cases hs
    | load =>
      unfold step at hs
      dsimp only at hs
      cases hrec : l.recovery with
      | idle =>
        rw [hrec] at hs
        cases hs
        have hapart := (ledgerLaw_idle hrec).1 h
        exact (ledgerLaw_loaded (l := { l with recovery := .loaded l.nextCommand }) rfl).2
          ⟨rfl, hapart.recorded, hapart.waiting, hapart.distinct⟩
      | loaded next => rw [hrec] at hs; cases hs
      | finished next ok => rw [hrec] at hs; cases hs
    | recover io =>
      unfold step at hs
      dsimp only at hs
      cases hrec : l.recovery with
      | loaded next =>
        rw [hrec] at hs
        obtain ⟨⟨_, _, r⟩, hresult, rfl⟩ := Option.map_eq_some_iff.1 hs
        exact recover_law h hrec hresult
      | idle => rw [hrec] at hs; cases hs
      | finished next ok => rw [hrec] at hs; cases hs
    | store =>
      unfold step at hs
      dsimp only at hs
      cases hrec : l.recovery with
      | finished next ok =>
        obtain ⟨hlt, hfirst⟩ := horder next ok hrec
        have hlaw := store_law h hrec hlt hfirst
        cases ok <;> rw [hrec] at hs <;> cases hs <;> exact hlaw
      | idle => rw [hrec] at hs; cases hs
      | loaded next => rw [hrec] at hs; cases hs

theorem Reaches.law {w : World} (h : Reaches C H config (Orderly C H config) w) : WorldLaw w := by
  induction h with
  | empty => trivial
  | step w _ _ _ horder hs ih => exact worldLaw_step horder ih hs

/-- **Command ids stay apart** in every orderly history: the id the next submission takes is recorded nowhere in the
graph, and neither is the id of any submission still on its way to the store. -/
theorem next_command_fresh {l : ExecutionLedger} (h : Reaches C H config (Orderly C H config) (.live l))
    (hidle : l.recovery = .idle) : FreshId l.backend.dag l.nextCommand ∧
      ∀ submission ∈ l.inFlight, ∀ id ∈ submission.ids, FreshId l.backend.dag id := by
  have hapart := (ledgerLaw_idle hidle).1 h.law
  refine ⟨freshId_iff.2 (fun hr => ?_), fun submission hsub id hid => freshId_iff.2 ?_⟩
  · cases Nat.lt_irrefl _ (hapart.recorded _ hr)
  · exact (hapart.waiting submission hsub id hid).2

/-! ## Histories with a rejected submission -/

theorem reconcile_nothing (hattempts : (Table.vals s.dag.attempts).flatMap attemptRecovery = [])
    (htasks : (Table.vals s.dag.tasks).flatMap taskRecovery = []) :
    reconcileNonterminal C H io s next = some (s, next, .ok ()) := by
  unfold reconcileNonterminal
  rw [hattempts, submitRecovery]
  dsimp only
  rw [htasks, submitRecovery]

def quiet (s : TaskDagStore) (next : Nat) : ExecutionLedger :=
  { backend := s, nextCommand := next, inFlight := [], recovery := .idle }

section
variable {allowed : World → Event → Prop}

theorem Reaches.start {file : List UInt8} {s : TaskDagStore} (h : Reaches C H config allowed (.closed file))
    (io : Nat → Append) (hallowed : allowed (.closed file) (.start io)) (hopen : openStore C H config file = some (.ok s))
    (hattempts : (Table.vals s.dag.attempts).flatMap attemptRecovery = [])
    (htasks : (Table.vals s.dag.tasks).flatMap taskRecovery = []) :
    Reaches C H config allowed (.live (quiet s (saturatingAdd s.dag.sequence 1))) := by
  refine h.step _ _ (.start io) hallowed ?_
  unfold ExecutionLedger.step openLedger
  dsimp only
  rw [hopen]
  dsimp only
  rw [reconcile_nothing hattempts htasks]
  rfl

theorem Reaches.send {s s' : TaskDagStore} {next : Nat} {c : Command} {r : Except DagError ApplyReceipt}
    (h : Reaches C H config allowed (.live (quiet s next))) (hsubmit : allowed (.live (quiet s next)) (.submit c))
    (hdeliver : ∀ l, allowed (.live l) (.deliver 0 .synced)) (hs : s.submit C H next c .synced = some (s', r)) :
    Reaches C H config allowed (.live (quiet s' (wrappingAdd next 1))) := by
  refine (h.step _ _ _ hsubmit rfl).step _ _ (.deliver 0 .synced) (hdeliver _) ?_
  simp only [ExecutionLedger.step, ExecutionLedger.submit, ExecutionLedger.deliver, quiet, List.nil_append,
    List.getElem?_cons_zero, hs, Option.map_some, List.eraseIdx_cons_zero]

end

theorem sample_graphs : ∃ d d1 d2, TaskDag.new logDigests sampleConfig = .ok d ∧ d.sequence = 0 ∧ d.commands = ∅ ∧
    (Table.vals d.attempts).flatMap attemptRecovery = [] ∧ (Table.vals d.tasks).flatMap taskRecovery = [] ∧
    d.prepare logDigests 1 logCommand = .ok (.new logEntry) ∧ d.commit logEntry = some d1 ∧
    d1.prepare logDigests 2 (.startTask .controller 99) = .error (.unknownTask 99) ∧
    d1.prepare logDigests 3 cancelCommand = .ok (.new cancelEntry) ∧ d1.commit cancelEntry = some d2 ∧
    (Table.vals d2.attempts).flatMap attemptRecovery = [] ∧ (Table.vals d2.tasks).flatMap taskRecovery = [] ∧
    d2.prepare logDigests 3 logCommand = .error (.commandConflict 3) :=
  ⟨_, _, _, rfl, rfl, rfl, rfl, rfl, rfl, rfl, rfl, rfl, rfl, rfl, rfl, rfl⟩

theorem sample_lines {g e c : List UInt8} (h : LogBytes g e c) :
    ((logCodec g e c).encode (genesis logDigests sampleConfig)).length < 1000 ∧
      (lineOf (logCodec g e c) logEntry).length < 1000 ∧ (lineOf (logCodec g e c) cancelEntry).length < 1000 := h.lengths

theorem sample_submit (hlive : s.poisoned = none) (hp : s.dag.prepare H id c = .ok (.new e))
    (hc : s.dag.commit e = some d') (hlen : (lineOf C e).length < 1000) (hbytes : s.bytes ≤ 10000) :
    s.submit C H id c .synced = some (s.grow C e d', .ok { sequence := e.sequence, replayed := false }) := by
  have hmax : maxLogLineBytes = 262144 ∧ maxLogBytes = 67108864 := ⟨rfl, rfl⟩
  refine submit_synced hlive hp hc (by omega) ?_
  rw [List.length_append, List.length_singleton]
  omega

theorem sample_bytes (hlen : (C.encode (genesis H config)).length < 1000) (d : TaskDag) :
    (emptyStore C H config d).bytes ≤ 1000 := by
  show (C.encode (genesis H config) ++ [newline]).length ≤ 1000
  rw [List.length_append, List.length_singleton]
  omega

def sampleCodec : Codec := logCodec (Text.bytes genesisText) (Text.bytes entryText) (Text.bytes cancelText)

/-- A fresh log and one command: the id after it is unused. -/
theorem next_command_fresh_logEntry : ∃ l, Reaches sampleCodec logDigests sampleConfig
    (Orderly sampleCodec logDigests sampleConfig) (.live l) ∧ l.nextCommand = 2 ∧ FreshId l.backend.dag 2 := by
  obtain ⟨d, _, -, hnew, hseq, hnone, hattempts, htasks, hp, hc, -⟩ := sample_graphs
  have hlines := sample_lines logBytes_texts
  have hopen := openStore_empty (C := sampleCodec) hnew (lt_trans hlines.1 (by decide))
  have horder : Orderly sampleCodec logDigests sampleConfig (.closed []) (.start (fun _ => .synced)) := by
    intro s hs id hr
    rw [hopen] at hs
    cases hs
    obtain ⟨_, hget⟩ := hr
    rw [show (emptyStore sampleCodec logDigests sampleConfig d).dag.commands = ∅ from hnone] at hget
    simp at hget
  have hstart := Reaches.start .empty _ horder hopen hattempts htasks
  rw [show (emptyStore sampleCodec logDigests sampleConfig d).dag.sequence = 0 from hseq] at hstart
  have hsend := hstart.send ⟨rfl, show 1 + 1 ≤ u64Max by decide⟩ (fun _ => trivial)
    (sample_submit rfl hp hc hlines.2.1 (le_trans (sample_bytes hlines.1 d) (by decide)))
  exact ⟨_, hsend, rfl, (next_command_fresh hsend rfl).1⟩

theorem taken_of_bytes {g e c : List UInt8} (h : LogBytes g e c) :
    ∃ l, Reaches (logCodec g e c) logDigests sampleConfig (fun _ _ => True) (.live l) ∧
    l.recovery = .idle ∧ l.nextCommand = 3 ∧ ¬ FreshId l.backend.dag 3 ∧
    l.backend.submit (logCodec g e c) logDigests 3 logCommand .synced = some (l.backend, .error (.commandConflict 3)) := by
  obtain ⟨hgenesis, hentry, hcancel⟩ := h.carries
  obtain ⟨hlen0, hlen1, hlen2⟩ := sample_lines h
  generalize logCodec g e c = C at *
  obtain ⟨d, d1, d2, hnew, hseq, -, hattempts, htasks, hp1, hc1, hrefused, hp2, hc2, hattempts2, htasks2, hconflict⟩ :=
    sample_graphs
  have hmax : maxLogLineBytes = 262144 ∧ maxLogBytes = 67108864 := ⟨rfl, rfl⟩
  have hbytes := sample_bytes hlen0 d
  have hopen := openStore_empty (C := C) hnew (by omega)
  have hempty : Reaches C logDigests sampleConfig (fun _ _ => True) (.closed []) := .empty
  have hstart := hempty.start (fun _ => .synced) trivial hopen hattempts htasks
  rw [show (emptyStore C logDigests sampleConfig d).dag.sequence = 0 from hseq] at hstart
  -- the three submissions
  have hs1 := sample_submit (s := emptyStore C logDigests sampleConfig d) rfl hp1 hc1 hlen1 (by omega)
  generalize hstore : (emptyStore C logDigests sampleConfig d).grow C logEntry d1 = s1 at hs1
  have hs₁bytes : s1.bytes ≤ 2000 := by
    rw [← hstore]
    simp only [grow, List.length_append, List.length_singleton]
    omega
  have hrefuse : s1.submit C logDigests 2 (.startTask .controller 99) .synced =
      some (s1, .error (.unknownTask 99)) := by
    unfold TaskDagStore.submit
    rw [show s1.poisoned = none by rw [← hstore]; rfl, show s1.dag = d1 by rw [← hstore]; rfl, hrefused]
  have hs2 := sample_submit (s := s1) (by rw [← hstore]; rfl) (by rw [← hstore]; exact hp2)
    (by rw [← hstore]; exact hc2) hlen2 (by omega)
  have hsent := ((hstart.send trivial (fun _ => trivial) hs1).send trivial (fun _ => trivial) hrefuse).send trivial
    (fun _ => trivial) hs2
  -- the file holds the two accepted commands
  have hfile : (s1.grow C cancelEntry d2).file =
      image C logDigests sampleConfig [logEntry, cancelEntry] := by
    rw [← hstore]
    simp [grow, emptyStore, image, Lines.image]
  have hchain : Chain logDigests d [logEntry, cancelEntry] d2 :=
    .cons d d1 d2 logEntry _ hp1 hc1 (.cons d1 d2 d2 cancelEntry [] hp2 hc2 (.nil d2))
  have hC : ∀ e ∈ [logEntry, cancelEntry], C.Carries (.command e) := by
    simpa using ⟨hentry, hcancel⟩
  have hfits : Fits C logDigests sampleConfig [logEntry, cancelEntry] := by
    refine ⟨by omega, by simp only [List.mem_cons, List.not_mem_nil, or_false, forall_eq_or_imp, forall_eq]; omega, ?_⟩
    simp only [image, Lines.image, genesisLine, List.map_cons, List.map_nil, List.flatMap_cons, List.flatMap_nil,
      List.length_append, List.length_cons, List.length_nil]
    omega
  have hreopen := openStore_image hnew hchain hgenesis hC hfits
  have hstop := hsent.step _ _ (.stop (s1.grow C cancelEntry d2).file.length) trivial rfl
  rw [show (quiet (s1.grow C cancelEntry d2) _).backend.file =
    (s1.grow C cancelEntry d2).file from rfl, List.take_length, hfile] at hstop
  have hlast := hstop.start (fun _ => .synced) trivial hreopen hattempts2 htasks2
  have hknown := hchain.known (e := cancelEntry) (by simp)
  refine ⟨_, hlast, rfl, ?_, ?_, ?_⟩
  · show saturatingAdd d2.sequence 1 = 3
    rw [hchain.sequence, hseq]
    rfl
  · show ¬ d2.commands[3]? = none
    rw [show d2.commands[3]? = _ from hknown]
    simp
  · unfold TaskDagStore.submit
    dsimp only [quiet]
    rw [hconflict]

/-- **A rejected submission is forgotten by the next opening**: task 1 is created under id 1, the start of an unknown
task is refused under id 2, and task 1 is cancelled under id 3.  The log reopened holds two commands, so the next one
takes id 3 and is refused. -/
theorem next_command_taken : ∃ l, Reaches sampleCodec logDigests sampleConfig (fun _ _ => True) (.live l) ∧
    l.recovery = .idle ∧ l.nextCommand = 3 ∧ ¬ FreshId l.backend.dag 3 ∧
    l.backend.submit sampleCodec logDigests 3 logCommand .synced = some (l.backend, .error (.commandConflict 3)) :=
  taken_of_bytes logBytes_texts

end ExecutionLedger
end Iteron.Dag
