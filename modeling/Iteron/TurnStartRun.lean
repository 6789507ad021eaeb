import Iteron.TurnStartMoves
/-!
# TurnStartRun — runs of the store by any number of processes

The authority's lock orders the operations, so a run is a sequence of them, with owners that die between and during them.
An impossible event is ignored: a nonce that was drawn before, or a reservation that no living process holds.
-/
namespace Iteron.TurnStart

open Machine Refuse

/-- What surrounds one operation: failures of files and clocks, drawn nonces, and owners that die while it runs. -/
structure Weather where
  begins : Bool
  late : Bool
  commit : Storing
  token : Storing
  ownerNonce : Option String
  reservationNonce : Option String
  dying : List OwnerToken
  /-- Whether a dying owner still holds its lock at a place. -/
  lingers : Stage → OwnerToken → Bool
  /-- Whether it still does when an owner slot is looked for. -/
  lingersLast : OwnerToken → Bool
  /-- Whether the owner's files cannot be read at a place. -/
  unreadable : Stage → OwnerToken → Bool

inductive Answer where
  | decision (d : StoreDecision)
  | turn (result : Except String Nat)
  | entered (refusal : Option StoreDecision)

/-- What one operation made durable and what it answered. -/
structure Record where
  stored : Option Snapshot
  answer : Answer

/-- The snapshot file, the token files, the locks held, the reservations and nonces so far, and the operations so far,
latest first. -/
structure World where
  disk : Snapshot
  tokens : Nat → Option String
  leases : List OwnerToken
  reservations : List Reservation
  nonces : List String
  log : List Record

inductive Event where
  | operate (op : Operation) (nowMs : Nat) (weather : Weather)
  | allocate (candidate nowMs : Nat) (weather : Weather)
  | enter (request : PreparedRequest) (nowMs : Nat) (weather : Weather)
  | drop (lease : OwnerToken)

namespace World

def start (tenantDigest : String) : World := ⟨initialSnapshot tenantDigest, fun _ => none, [], [], [], []⟩

variable (w : World)

def locked (holds : OwnerToken → Bool) (slot : Nat) : Bool := w.leases.any (fun l => l.slot == slot && holds l)

def surroundings (e : Weather) : Surroundings where
  begins := e.begins
  sight := fun stage owner =>
    if e.unreadable stage owner then .error "owner lock unavailable"
    else .ok (w.locked (fun l => !e.dying.contains l || e.lingers stage l) owner.slot &&
      w.tokens owner.slot == some owner.nonce)
  free := fun slot => !w.locked (fun l => !e.dying.contains l || e.lingersLast l) slot
  ownerNonce := e.ownerNonce
  reservationNonce := e.reservationNonce
  token := e.token
  late := e.late
  commit := e.commit

def fresh (e : Weather) : Bool :=
  e.ownerNonce.all (fun n => !w.nonces.contains n) && e.reservationNonce.all (fun n => !w.nonces.contains n) &&
    (e.ownerNonce.isNone || decide (e.ownerNonce ≠ e.reservationNonce))

/-- The operation's reservation is held by a living process. -/
def possible : Operation → Bool
  | .admitTurn reservation _ | .releasePending reservation _ =>
    w.reservations.contains reservation && w.leases.contains reservation.lease
  | _ => true

def reservedBy : StoreDecision → Option Reservation
  | .reserved reservation => some reservation
  | _ => none

/-- The world after an operation: dying owners are gone, and a reservation that was returned holds its lease. -/
def after {α : Type} (e : Weather) (o : Outcome α) (answer : Answer) (reserved : Option Reservation) : World where
  disk := o.stored.getD w.disk
  tokens := match o.token with
    | some t => Function.update w.tokens t.slot (some t.nonce)
    | none => w.tokens
  leases := reserved.toList.map (fun r => r.lease) ++ w.leases.filter (fun l => !e.dying.contains l)
  reservations := reserved.toList ++ w.reservations
  nonces := e.ownerNonce.toList ++ e.reservationNonce.toList ++ w.nonces
  log := ⟨o.stored, answer⟩ :: w.log

def step (C : Codec) (tenantDigest : String) (w : World) : Event → World
  | .operate op nowMs e =>
    if w.fresh e && w.possible op then
      let o := op.run C (w.surroundings e) w.disk tenantDigest nowMs
      w.after e o (.decision o.answer) (reservedBy o.answer)
    else w
  | .allocate candidate nowMs e =>
    if w.fresh e then
      let o := allocateProductTurn C (w.surroundings e) w.disk tenantDigest candidate nowMs
      w.after e o (.turn o.answer) none
    else w
  | .enter request nowMs e =>
    if w.fresh e then
      let o := enterRequest C (w.surroundings e) w.disk tenantDigest request nowMs
      w.after e o (.entered o.answer) none
    else w
  | .drop lease => { w with leases := w.leases.filter (fun l => l != lease) }

def run (C : Codec) (tenantDigest : String) (events : List Event) : World :=
  events.foldl (step C tenantDigest) (start tenantDigest)

theorem run_append (C : Codec) (tenantDigest : String) (es : List Event) (e : Event) :
    run C tenantDigest (es ++ [e]) = (run C tenantDigest es).step C tenantDigest e := by
  rw [run, List.foldl_append]
  rfl

end World

/-! ## What an answer grants -/

namespace Answer

def admission : Answer → Option StoreReceipt
  | .decision (.admitted r) => some r
  | _ => none

def turnId : Answer → Option Nat
  | .decision (.admitted r) => r.identity.map (fun identity => identity.turnId)
  | .turn (.ok id) => some id
  | _ => none

def refusal : Answer → Option StoreRefusal
  | .decision (.refused r) | .entered (some (.refused r)) => some r
  | _ => none

end Answer

namespace World

def admissions (w : World) : List String := w.log.filterMap (fun r => r.answer.admission.map (fun x => x.requestKey))

def turnIds (w : World) : List Nat := w.log.filterMap (fun r => r.answer.turnId)

/-- `owner_live`, at rest. -/
def ownerLive (w : World) (owner : OwnerToken) : Bool :=
  w.locked (fun _ => true) owner.slot && w.tokens owner.slot == some owner.nonce

end World

/-! ## Events -/

variable {C : Codec} {T : String} {w w' : World}

/-- An answer that admits nothing, calls nothing unregistered, and hands out a turn only above the last. -/
structure Answer.Plain (a : Answer) (last last' : Nat) : Prop where
  admission : a.admission = none
  refusal : ∀ r, a.refusal = some r → r.definitelyUnregistered = false
  turnId : ∀ id, a.turnId = some id → last < id ∧ id ≤ last'

/-- How one event changes the snapshot, the owners and the log. -/
inductive Advance (C : Codec) (w w' : World) : Prop
  | plain (hentries : w'.disk.entries = w.disk.entries) (hfloor : w.disk.wallFloorMs ≤ w'.disk.wallFloorMs)
      (hlast : w.disk.lastProductTurn ≤ w'.disk.lastProductTurn) (hleases : ∀ l ∈ w'.leases, l ∈ w.leases)
      (hnonces : ∀ n ∈ w.nonces, n ∈ w'.nonces)
      (hlog : w'.log = w.log ∨ ∃ r, w'.log = r :: w.log ∧ r.answer.Plain w.disk.lastProductTurn w'.disk.lastProductTurn)
  | commit {op : Operation} {nowMs : Nat} {e : Weather} {d answer : StoreDecision} {collected : Snapshot}
      {token : Option OwnerToken} (hpossible : w.possible op = true) (hfresh : w.fresh e = true)
      (hcommit : Commits C (w.surroundings e) w.disk nowMs op w'.disk d collected token)
      (hanswer : answer = d ∨ ∃ now, answer = unknown op.request now)
      (hleases : ∀ l ∈ w'.leases, (l ∈ w.leases ∧ l ∉ e.dying) ∨ ∃ r, answer = .reserved r ∧ l = r.lease)
      (hnonces : ∀ n, e.ownerNonce = some n ∨ n ∈ w.nonces → n ∈ w'.nonces)
      (hlog : w'.log = ⟨some w'.disk, .decision answer⟩ :: w.log)

theorem unknown_plain (request : PreparedRequest) (now last last' : Nat) :
    (Answer.decision (unknown request now)).Plain last last' :=
  ⟨rfl, fun r hr => (by cases hr), fun id hid => (by cases hid)⟩

variable {l : OwnerToken}

theorem mem_survivors {leases dying : List OwnerToken} (h : l ∈ leases.filter (fun l => !dying.contains l)) :
    l ∈ leases ∧ l ∉ dying := by
  obtain ⟨hmem, hlives⟩ := List.mem_filter.1 h
  exact ⟨hmem, by simpa using hlives⟩

variable {α : Type} {o : Outcome α} {reserved : Option Reservation} {n : String}

variable {e : Weather}

theorem mem_nonces {answer : Answer} (h : e.ownerNonce = some n ∨ n ∈ w.nonces) :
    n ∈ (w.after e o answer reserved).nonces := by
  rcases h with h | h
  · simp [World.after, h]
  · simp [World.after, h]

theorem allocate_cases {env : Surroundings} (disk : Snapshot) (candidate nowMs : Nat) :
    ((allocateProductTurn C env disk T candidate nowMs).stored = none ∧
        ∃ e, (allocateProductTurn C env disk T candidate nowMs).answer = .error e) ∨
      ∃ next, (allocateProductTurn C env disk T candidate nowMs).stored = some next ∧ next.entries = disk.entries ∧
        disk.wallFloorMs ≤ next.wallFloorMs ∧ disk.lastProductTurn < next.lastProductTurn ∧
        ∀ id, (allocateProductTurn C env disk T candidate nowMs).answer = .ok id → id = next.lastProductTurn := by
  unfold allocateProductTurn
  split
  · exact .inl ⟨rfl, _, rfl⟩
  · split
    · exact .inl ⟨rfl, _, rfl⟩
    · rename_i following hfollowing
      have hnext := checkedAdd_eq_some hfollowing
      rcases @finishTransaction_cases C env (Except String Nat) none
          { disk with wallFloorMs := max disk.wallFloorMs nowMs, lastProductTurn := max candidate following }
          (.ok (max candidate following)) .error with ⟨hstored, e, hanswer⟩ | ⟨-, hstored, hanswer⟩
      · exact .inl ⟨hstored, e, hanswer⟩
      · refine .inr ⟨_, hstored, rfl, Nat.le_max_left _ _, ?_, fun id hid => ?_⟩
        · dsimp only
          omega
        · rcases hanswer with hanswer | ⟨e, hanswer⟩
          · rw [hanswer] at hid
            exact (Except.ok.inj hid).symm
          · rw [hanswer] at hid
            cases hid

theorem enter_cases {env : Surroundings} (disk : Snapshot) (request : PreparedRequest) (nowMs : Nat) :
    (∀ r, (Answer.entered (enterRequest C env disk T request nowMs).answer).refusal = some r →
        r.definitelyUnregistered = false) ∧ ((enterRequest C env disk T request nowMs).stored = none ∨
        ∃ next, (enterRequest C env disk T request nowMs).stored = some next ∧ next.entries = disk.entries ∧
          disk.wallFloorMs ≤ next.wallFloorMs ∧ next.lastProductTurn = disk.lastProductTurn) := by
  have hunknown : ∀ now r, (Answer.entered (some (unknown request now))).refusal = some r →
      r.definitelyUnregistered = false := fun now r hr => (by cases hr)
  unfold enterRequest
  split
  · exact ⟨hunknown _, .inl rfl⟩
  · dsimp only
    generalize min (saturatingAdd disk.rateTokensMilli _) 64000 = tokens
    have hrefused : ∀ r, (Answer.entered (if decide (tokens ≥ 1000) = true then none
        else some (.refused (TurnStart.refusal request.requestKey .rateLimited false)))).refusal = some r →
        r.definitelyUnregistered = false := by
      intro r hr
      split at hr
      · cases hr
      · cases hr
        rfl
    generalize (if decide (tokens ≥ 1000) = true then tokens - 1000 else tokens) = left
    rcases @finishTransaction_cases C env _ none
        { disk with wallFloorMs := max nowMs disk.wallFloorMs, rateTokensMilli := left,
                    rateRefillMs := max nowMs disk.wallFloorMs }
        (if decide (tokens ≥ 1000) = true then none
          else some (.refused (TurnStart.refusal request.requestKey .rateLimited false)))
        (fun _ => some (unknown request (max nowMs disk.wallFloorMs))) with ⟨hstored, e, hanswer⟩ | ⟨-, hstored, hanswer⟩
    · rw [hanswer, hstored]
      exact ⟨hunknown _, .inl rfl⟩
    · rw [hstored]
      refine ⟨?_, .inr ⟨_, rfl, rfl, Nat.le_max_right _ _, rfl⟩⟩
      rcases hanswer with hanswer | ⟨e, hanswer⟩
      · rw [hanswer]
        exact hrefused
      · rw [hanswer]
        exact hunknown _

theorem advance_step (w : World) (event : Event) : Advance C w (w.step C T event) := by
  have hsame : Advance C w w := .plain rfl (Nat.le_refl _) (Nat.le_refl _) (fun _ hl => hl) (fun _ hn => hn) (.inl rfl)
  cases event with
  | drop _ =>
    exact .plain rfl (Nat.le_refl _) (Nat.le_refl _) (fun l hl => List.mem_of_mem_filter hl) (fun _ hn => hn) (.inl rfl)
  | allocate candidate nowMs e =>
    simp only [World.step]
    split
    · have hleases : ∀ l ∈ (w.after e (allocateProductTurn C (w.surroundings e) w.disk T candidate nowMs)
          (.turn (allocateProductTurn C (w.surroundings e) w.disk T candidate nowMs).answer) none).leases, l ∈ w.leases :=
        fun l hl => (mem_survivors hl).1
      rcases @allocate_cases C T (w.surroundings e) w.disk candidate nowMs with
        ⟨hstored, error, hanswer⟩ | ⟨next, hstored, hentries, hfloor, hlast, hid⟩
      · refine .plain (by simp [World.after, hstored]) (by simp [World.after, hstored]) (by simp [World.after, hstored])
          hleases (fun _ hn => mem_nonces (.inr hn)) (.inr ⟨_, rfl, ?_⟩)
        rw [hanswer]
        exact ⟨rfl, fun r hr => (by cases hr), fun id hid => (by cases hid)⟩
      · have hdisk : (w.after e (allocateProductTurn C (w.surroundings e) w.disk T candidate nowMs)
            (.turn (allocateProductTurn C (w.surroundings e) w.disk T candidate nowMs).answer) none).disk = next := by
          simp [World.after, hstored]
        refine .plain (by rw [hdisk, hentries]) (by rw [hdisk]; exact hfloor) (by rw [hdisk]; exact Nat.le_of_lt hlast)
          hleases (fun _ hn => mem_nonces (.inr hn)) (.inr ⟨_, rfl, rfl, fun r hr => (by cases hr), fun id hturn => ?_⟩)
        rw [hdisk]
        generalize (allocateProductTurn C (w.surroundings e) w.disk T candidate nowMs).answer = answer at hid hturn
        cases answer with
        | error error => cases hturn
        | ok n =>
          obtain rfl := Option.some.inj hturn
          obtain rfl := hid n rfl
          exact ⟨hlast, Nat.le_refl _⟩
    · exact hsame
  | enter request nowMs e =>
    simp only [World.step]
    split
    · have hleases : ∀ l ∈ (w.after e (enterRequest C (w.surroundings e) w.disk T request nowMs)
          (.entered (enterRequest C (w.surroundings e) w.disk T request nowMs).answer) none).leases, l ∈ w.leases :=
        fun l hl => (mem_survivors hl).1
      obtain ⟨hrefusal, hcases⟩ := @enter_cases C T (w.surroundings e) w.disk request nowMs
      rcases hcases with hstored | ⟨next, hstored, hentries, hfloor, hlast⟩
      · refine .plain (by simp [World.after, hstored]) (by simp [World.after, hstored]) (by simp [World.after, hstored])
          hleases (fun _ hn => mem_nonces (.inr hn)) (.inr ⟨_, rfl, rfl, hrefusal, fun id hid => (by cases hid)⟩)
      · refine .plain (by simp [World.after, hstored, hentries]) (by simp [World.after, hstored, hfloor])
          (by simp [World.after, hstored, hlast]) hleases (fun _ hn => mem_nonces (.inr hn))
          (.inr ⟨_, rfl, rfl, hrefusal, fun id hid => (by cases hid)⟩)
    · exact hsame
  | operate op nowMs e =>
    simp only [World.step]
    split
    · rename_i hpossible
      obtain ⟨hfresh, hpossible⟩ := Bool.and_eq_true_iff.1 hpossible
      rcases @run_cases C (w.surroundings e) w.disk T nowMs op with
        ⟨hstored, _, hanswer⟩ | ⟨next, d, _, hstored, hcommit, hanswer⟩
      · rw [hanswer]
        refine .plain (by simp [World.after, hstored]) (by simp [World.after, hstored]) (by simp [World.after, hstored])
          (fun l hl => (mem_survivors hl).1) (fun _ hn => mem_nonces (.inr hn)) (.inr ⟨_, rfl, unknown_plain _ _ _ _⟩)
      · have hdisk : ∀ answer reserved, (w.after e (op.run C (w.surroundings e) w.disk T nowMs) answer reserved).disk = next := by
          simp [World.after, hstored]
        refine .commit hpossible hfresh (by rw [hdisk]; exact hcommit) hanswer (fun l hl => ?_)
          (fun _ hn => mem_nonces hn) (by rw [hdisk]; simp [World.after, hstored])
        rcases List.mem_append.1 hl with hl | hl
        · obtain ⟨r, hr, rfl⟩ := List.mem_map.1 hl
          refine .inr ⟨r, ?_, rfl⟩
          generalize (op.run C (w.surroundings e) w.disk T nowMs).answer = answer at hr ⊢
          cases answer with
          | reserved _ =>
            obtain rfl := List.mem_singleton.1 hr
            rfl
          | _ => cases hr
        · exact .inl (mem_survivors hl)
    · exact hsame

/-! ## Keys that were given out -/

/-- The key's entry is in such a state, or it is gone and its window is closed. -/
def Kept (s : Snapshot) (Q : StoreState → Prop) (k : String) : Prop :=
  (∃ e : Entry, s.entries[k]? = some e ∧ Q e.state) ∨
    (s.entries[k]? = none ∧ ∃ c, (parseKey k).map Prod.snd = some c ∧ saturatingAdd windowMs c ≤ s.wallFloorMs)

/-- States that are not pending and that no report leaves. -/
structure Stays (Q : StoreState → Prop) : Prop where
  pending : ¬ Q .pending
  report : ∀ state state' : StoreState, Q state → (state.terminal = true → state' = state) →
    (state' = state ∨ state' = .running ∨ state'.terminal = true ∨ state' = .unknown) → Q state'

theorem stays_nonpending : Stays (fun state => state ≠ .pending) := by
  refine ⟨fun h => h rfl, fun state state' hstate _ hcases hpending => ?_⟩
  subst hpending
  rcases hcases with h | h | h | h
  · exact hstate h.symm
  · cases h
  · cases h
  · cases h

theorem stays_terminal {t : StoreState} (ht : t.terminal = true) : Stays (fun state => state = t) := by
  refine ⟨fun h => ?_, fun state state' hstate hterminal _ => ?_⟩
  · subst h
    cases ht
  · subst hstate
    exact hterminal ht

variable {env : Surroundings} {s s' : Snapshot} {Q : StoreState → Prop} {k : String}

theorem Kept.change (hQ : Stays Q)
    (h : Change env s'.wallFloorMs k s.entries[k]? s'.entries[k]?) (hfloor : s.wallFloorMs ≤ s'.wallFloorMs)
    (hk : Kept s Q k) : Kept s' Q k := by
  unfold Kept
  generalize s'.entries[k]? = after at h
  rcases hk with ⟨e, he, hq⟩ | ⟨hnone, c, hc, hclosed⟩
  · rw [he] at h
    cases h with
    | same => exact .inl ⟨e, rfl, hq⟩
    | collect hcollect hkey => exact .inr ⟨rfl, e.createdMs, hkey, hcollect.1⟩
    | release hpending => cases hQ.pending (hpending ▸ hq)
    | register hbefore => cases hQ.pending (hbefore e rfl ▸ hq)
    | grant hpending => cases hQ.pending (hpending ▸ hq)
    | report _ _ hterminal hstate => exact .inl ⟨_, rfl, hQ.report _ _ hq hterminal hstate⟩
  · rw [hnone] at h
    cases h with
    | same => exact .inr ⟨rfl, c, hc, Nat.le_trans hclosed hfloor⟩
    | register _ hopen =>
      have := hopen c hc
      omega

theorem Kept.advance (hQ : Stays Q) (h : Advance C w w') (hk : Kept w.disk Q k) : Kept w'.disk Q k := by
  cases h with
  | plain hentries hfloor =>
    refine hk.imp (fun ⟨e, he, hq⟩ => ⟨e, by rw [hentries]; exact he, hq⟩) (fun ⟨hnone, c, hc, hclosed⟩ => ?_)
    exact ⟨by rw [hentries]; exact hnone, c, hc, Nat.le_trans hclosed hfloor⟩
  | commit _ _ hcommit =>
    exact hk.change hQ (hcommit.change k) (by rw [hcommit.floor]; exact Nat.le_max_right _ _)

/-! ## Admissions and turns -/

variable {now : Nat}

variable {op : Operation}

theorem Acts.last {d : StoreDecision}
    (h : Acts env now s op s' d) : s.lastProductTurn ≤ s'.lastProductTurn := by
  cases h with
  | grant _ _ _ hturn => exact Nat.le_of_lt hturn
  | _ => exact Nat.le_refl _

variable {token : Option OwnerToken}

variable {nowMs : Nat}

theorem Commits.last {disk next collected : Snapshot}
    {d : StoreDecision} (h : Commits C env disk nowMs op next d collected token) :
    collected.lastProductTurn = disk.lastProductTurn ∧ disk.lastProductTurn ≤ next.lastProductTurn := by
  have hcollected : collected.lastProductTurn = disk.lastProductTurn := by
    rw [(collect_ok h.collects).1]
  exact ⟨hcollected, hcollected ▸ h.acts.last⟩

structure Admitting (w : World) : Prop where
  spent : ∀ k ∈ w.admissions, Kept w.disk (fun state => state ≠ .pending) k
  once : w.admissions.Nodup
  durable : ∀ record ∈ w.log, ∀ r, record.answer.admission = some r → ∃ (s : Snapshot) (e : Entry),
    record.stored = some s ∧ s.entries[r.requestKey]? = some e ∧ e.state = .admitted ∧ e.identity = r.identity ∧
      r.identity.isSome = true
  turns : w.turnIds.Pairwise (fun later earlier => later > earlier)
  below : ∀ id ∈ w.turnIds, id ≤ w.disk.lastProductTurn

variable {record : Record}

theorem admissions_cons (hlog : w'.log = record :: w.log) (h : record.answer.admission = none) :
    w'.admissions = w.admissions := by
  rw [World.admissions, hlog, List.filterMap_cons, h]
  rfl

theorem turnIds_cons (hlog : w'.log = record :: w.log) (h : record.answer.turnId = none) : w'.turnIds = w.turnIds := by
  rw [World.turnIds, hlog, List.filterMap_cons, h]
  rfl

section

variable (h : Advance C w w') (ha : Admitting w)
include h ha

theorem admitting_plain (hlog : w'.log = record :: w.log) (hadmission : record.answer.admission = none)
    (hturns : ∀ id, record.answer.turnId = some id → w.disk.lastProductTurn < id ∧ id ≤ w'.disk.lastProductTurn)
    (hlast : w.disk.lastProductTurn ≤ w'.disk.lastProductTurn) : Admitting w' := by
  have hadmissions := admissions_cons hlog hadmission
  refine ⟨fun k hk => ?_, by rw [hadmissions]; exact ha.once, fun x hx r hr => ?_, ?_, ?_⟩
  · rw [hadmissions] at hk
    exact (ha.spent k hk).advance stays_nonpending h
  · rw [hlog] at hx
    rcases List.mem_cons.1 hx with rfl | hx
    · rw [hadmission] at hr
      cases hr
    · exact ha.durable x hx r hr
  · cases hturn : record.answer.turnId with
    | none =>
      rw [turnIds_cons hlog hturn]
      exact ha.turns
    | some id =>
      rw [World.turnIds, hlog, List.filterMap_cons, hturn]
      refine List.pairwise_cons.2 ⟨fun earlier hearlier => ?_, ha.turns⟩
      have hle := ha.below earlier hearlier
      have hlt := (hturns id hturn).1
      omega
  · intro id hid
    rw [World.turnIds, hlog, List.filterMap_cons] at hid
    cases hturn : record.answer.turnId with
    | none =>
      rw [hturn] at hid
      exact Nat.le_trans (ha.below id hid) hlast
    | some _ =>
      rw [hturn] at hid
      rcases List.mem_cons.1 hid with rfl | hid
      · exact (hturns id hturn).2
      · exact Nat.le_trans (ha.below id hid) hlast

theorem admitting_grant {r : StoreReceipt} {collected : Snapshot}
    (hcommit : Commits C env w.disk nowMs op w'.disk (.admitted r) collected token)
    (hlog : w'.log = ⟨some w'.disk, .decision (.admitted r)⟩ :: w.log) : Admitting w' := by
  obtain ⟨_, hlast⟩ := hcommit.last
  have hacts := hcommit.acts
  have hold := fun k e => hcommit.old (k := k) (e := e)
  generalize hdisk : w'.disk = next at hacts hlog
  cases hacts with
  | keep hidle => cases hidle
  | @grant _ identity granted e _ he hpending _ _ hkey hidentity =>
    have hbefore : w.disk.entries[r.requestKey]? = some e := by
      rw [hkey]
      exact hold _ e he
    have hnew : r.requestKey ∉ w.admissions := by
      intro hmem
      rcases ha.spent _ hmem with ⟨_, he', hstate⟩ | ⟨hnone, -⟩
      · cases hbefore.symm.trans he'
        exact hstate hpending
      · rw [hbefore] at hnone
        cases hnone
    have hentry : w'.disk.entries[r.requestKey]? = some { e with identity := some granted, state := .admitted } := by
      rw [hdisk, hkey]
      exact (Table.get_insert _ _ _ _).trans (if_pos rfl)
    have hadmissions : w'.admissions = r.requestKey :: w.admissions := by
      rw [World.admissions, hlog, List.filterMap_cons]
      rfl
    have hturns : w'.turnIds = granted.turnId :: w.turnIds := by
      have hid : (Answer.decision (.admitted r)).turnId = some granted.turnId := by
        simp [Answer.turnId, hidentity]
      rw [World.turnIds, hlog, List.filterMap_cons, hid]
      rfl
    have hnext : w'.disk.lastProductTurn = granted.turnId := by rw [hdisk]
    refine ⟨fun k hk => ?_, by rw [hadmissions]; exact List.nodup_cons.2 ⟨hnew, ha.once⟩, fun x hx r' hr' => ?_, ?_, ?_⟩
    · rw [hadmissions] at hk
      rcases List.mem_cons.1 hk with rfl | hk
      · exact .inl ⟨_, hentry, fun hfalse => (by cases hfalse)⟩
      · exact (ha.spent k hk).advance stays_nonpending h
    · rw [hlog] at hx
      rcases List.mem_cons.1 hx with rfl | hx
      · cases hr'
        exact ⟨w'.disk, _, by rw [hdisk], hentry, rfl, hidentity.symm, by rw [hidentity]; rfl⟩
      · exact ha.durable x hx r' hr'
    · rw [hturns]
      refine List.pairwise_cons.2 ⟨fun earlier hearlier => ?_, ha.turns⟩
      have hle := ha.below earlier hearlier
      omega
    · intro id hid
      rw [hturns] at hid
      rcases List.mem_cons.1 hid with rfl | hid
      · exact Nat.le_of_eq hnext.symm
      · exact Nat.le_trans (ha.below id hid) hlast

theorem admitting_advance : Admitting w' := by
  have hadvance := h
  cases h with
  | plain _ _ hlast _ _ hlog =>
    rcases hlog with hlog | ⟨_, hlog, hplain⟩
    · have hadmissions : w'.admissions = w.admissions := by rw [World.admissions, hlog]; rfl
      have hturns : w'.turnIds = w.turnIds := by rw [World.turnIds, hlog]; rfl
      refine ⟨fun k hk => ?_, by rw [hadmissions]; exact ha.once, by rw [hlog]; exact ha.durable,
        by rw [hturns]; exact ha.turns, fun id hid => ?_⟩
      · rw [hadmissions] at hk
        exact (ha.spent k hk).advance stays_nonpending hadvance
      · rw [hturns] at hid
        exact Nat.le_trans (ha.below id hid) hlast
    · exact admitting_plain hadvance ha hlog hplain.admission hplain.turnId hlast
  | @commit _ _ _ d answer _ _ _ _ hcommit hanswer _ _ hlog =>
    obtain ⟨_, hlast⟩ := hcommit.last
    have hquiet : (Answer.decision answer).admission = none → (Answer.decision answer).turnId = none → Admitting w' :=
      fun hadmission hturn => admitting_plain hadvance ha hlog hadmission (fun id hid => by rw [hturn] at hid; cases hid) hlast
    rcases hanswer with rfl | ⟨_, rfl⟩
    · cases hd : answer with
      | vacant => exact hquiet (by rw [hd]; rfl) (by rw [hd]; rfl)
      | reserved r => exact hquiet (by rw [hd]; rfl) (by rw [hd]; rfl)
      | receipt r => exact hquiet (by rw [hd]; rfl) (by rw [hd]; rfl)
      | refused r => exact hquiet (by rw [hd]; rfl) (by rw [hd]; rfl)
      | admitted r =>
        subst hd
        exact admitting_grant hadvance ha hcommit hlog
    · exact hquiet rfl rfl

end

theorem admitting_run (es : List Event) : Admitting (World.run C T es) := by
  induction es using List.reverseRecOn with
  | nil =>
    exact ⟨fun k hk => (by cases hk), List.nodup_nil, fun x hx => (by cases hx), List.Pairwise.nil, fun id hid => (by cases hid)⟩
  | append_singleton es e ih =>
    rw [World.run_append]
    exact admitting_advance (advance_step _ e) ih

theorem kept_run (hQ : Stays Q) (es fs : List Event)
    (hk : Kept (World.run C T es).disk Q k) : Kept (World.run C T (es ++ fs)).disk Q k := by
  induction fs using List.reverseRecOn with
  | nil =>
    rw [List.append_nil]
    exact hk
  | append_singleton fs e ih =>
    rw [← List.append_assoc, World.run_append]
    exact ih.advance hQ (advance_step _ e)

/-- **A turn is admitted at most once**, over every run of the store by any number of processes, with deaths, stopped
clocks and commits that fail before or after they are durable.  No key is admitted twice, collected or not.  A new
admission is what its call made durable.  The turns handed out increase in the order of commits, and no terminal state is
replaced by another. -/
theorem turn_admitted_once (C : Codec) (T : String) (es fs : List Event) : (World.run C T es).admissions.Nodup ∧
      (∀ record ∈ (World.run C T es).log, ∀ r, record.answer = .decision (.admitted r) → ∃ (s : Snapshot) (e : Entry),
        record.stored = some s ∧ s.entries[r.requestKey]? = some e ∧ e.state = .admitted ∧ e.identity = r.identity ∧
          r.identity.isSome = true) ∧ (World.run C T es).turnIds.Pairwise (fun later earlier => later > earlier) ∧
      ∀ (k : String) (e e' : Entry), (World.run C T es).disk.entries[k]? = some e → e.state.terminal = true →
        (World.run C T (es ++ fs)).disk.entries[k]? = some e' → e'.state = e.state := by
  have ha := admitting_run (C := C) (T := T) es
  refine ⟨ha.once, fun record hrecord r hr => ?_, ha.turns, fun k e e' he hterminal he' => ?_⟩
  · exact ha.durable record hrecord r (by rw [hr]; rfl)
  · have hkept := kept_run (C := C) (T := T) (stays_terminal hterminal) es fs (.inl ⟨e, he, rfl⟩)
    rcases hkept with ⟨_, he'', hstate⟩ | ⟨hnone, -⟩
    · cases he'.symm.trans he''
      exact hstate
    · rw [he'] at hnone
      cases hnone

/-! ## One occupant of a thread -/

/-- The entry occupies its thread: it was admitted and is not over, or it is pending and its owner lives. -/
def Occupies (w : World) (e : Entry) : Prop :=
  e.state = .admitted ∨ e.state = .running ∨ e.state = .unknown ∨ (e.state = .pending ∧ w.ownerLive e.owner = true)

structure Tidy (w : World) : Prop where
  tokens : ∀ l ∈ w.leases, w.tokens l.slot = some l.nonce
  drawn : ∀ l ∈ w.leases, l.nonce ∈ w.nonces
  owners : ∀ (k : String) (e : Entry), w.disk.entries[k]? = some e → e.owner.nonce ∈ w.nonces
  single : ∀ (k₁ k₂ : String) (e₁ e₂ : Entry), w.disk.entries[k₁]? = some e₁ → w.disk.entries[k₂]? = some e₂ →
    e₁.threadId = e₂.threadId → Occupies w e₁ → Occupies w e₂ → k₁ = k₂

theorem ownerLive_iff (h : ∀ l ∈ w.leases, w.tokens l.slot = some l.nonce) (owner : OwnerToken) :
    w.ownerLive owner = true ↔ owner ∈ w.leases := by
  simp only [World.ownerLive, World.locked, Bool.and_eq_true, List.any_eq_true, beq_iff_eq, and_true]
  constructor
  · rintro ⟨⟨l, hl, hslot⟩, htoken⟩
    have hnonce : some l.nonce = some owner.nonce := by rw [← h l hl, hslot, htoken]
    have howner : l = owner := by
      cases l
      simp_all
    exact howner ▸ hl
  · intro hmem
    exact ⟨⟨owner, hmem, rfl⟩, h owner hmem⟩

theorem sight_alive {stage : Stage} {owner : OwnerToken} (h : w.tokens owner.slot = some owner.nonce)
    (hmem : owner ∈ w.leases) (hlives : owner ∉ e.dying) : (w.surroundings e).sight stage owner ≠ .ok false := by
  simp only [World.surroundings]
  split
  · exact fun h => (by cases h)
  · have hlocked : w.locked (fun l => !e.dying.contains l || e.lingers stage l) owner.slot = true := by
      refine List.any_eq_true.2 ⟨owner, hmem, ?_⟩
      simp [hlives]
    rw [hlocked, h]
    simp

theorem free_slot {slot : Nat} (h : (w.surroundings e).free slot = true) (hmem : l ∈ w.leases)
    (hlives : l ∉ e.dying) : l.slot ≠ slot := by
  intro hslot
  have hlocked : w.locked (fun l => !e.dying.contains l || e.lingersLast l) slot = true := by
    refine List.any_eq_true.2 ⟨l, hmem, ?_⟩
    simp [hslot, hlives]
  simp only [World.surroundings] at h
  rw [hlocked] at h
  cases h

theorem tokens_after {answer : Answer} (h : ∀ l ∈ w.leases, w.tokens l.slot = some l.nonce)
    (htoken : ∀ t, o.token = some t → (w.surroundings e).free t.slot = true)
    (hreserved : ∀ r, reserved = some r → o.token = some r.lease) :
    ∀ l ∈ (w.after e o answer reserved).leases, (w.after e o answer reserved).tokens l.slot = some l.nonce := by
  intro l hl
  rcases List.mem_append.1 hl with hl | hl
  · obtain ⟨r, hr, rfl⟩ := List.mem_map.1 hl
    have ht := hreserved r (Option.mem_toList.1 hr)
    simp only [World.after, ht, Function.update_self]
  · obtain ⟨hmem, hlives⟩ := mem_survivors hl
    simp only [World.after]
    cases ht : o.token with
    | none => exact h l hmem
    | some t =>
      dsimp only
      rw [Function.update_of_ne (free_slot (htoken t ht) hmem hlives)]
      exact h l hmem

theorem allocate_token (disk : Snapshot) (candidate nowMs : Nat) :
    (allocateProductTurn C env disk T candidate nowMs).token = none := by
  unfold allocateProductTurn
  split
  · rfl
  · split
    · rfl
    · exact finishTransaction_token _ _ _ _

theorem enter_token (disk : Snapshot) (request : PreparedRequest) (nowMs : Nat) :
    (enterRequest C env disk T request nowMs).token = none := by
  unfold enterRequest
  split
  · rfl
  · exact finishTransaction_token _ _ _ _

theorem tokens_step (h : ∀ l ∈ w.leases, w.tokens l.slot = some l.nonce) (event : Event) :
    ∀ l ∈ (w.step C T event).leases, (w.step C T event).tokens l.slot = some l.nonce := by
  cases event with
  | drop _ => exact fun l hl => h l (List.mem_of_mem_filter hl)
  | allocate _ nowMs e =>
    simp only [World.step]
    split
    · refine tokens_after h (fun t ht => ?_) (fun r hr => (by cases hr))
      rw [allocate_token] at ht
      cases ht
    · exact h
  | enter _ nowMs e =>
    simp only [World.step]
    split
    · refine tokens_after h (fun t ht => ?_) (fun r hr => (by cases hr))
      rw [enter_token] at ht
      cases ht
    · exact h
  | operate op nowMs e =>
    simp only [World.step]
    split
    · refine tokens_after h (fun t ht => (run_token ht).1) (fun r hr => ?_)
      rcases @run_cases C (w.surroundings e) w.disk T nowMs op with ⟨-, now, hanswer⟩ | ⟨_, d, _, -, hcommit, hanswer⟩
      · rw [hanswer] at hr
        cases hr
      · rcases hanswer with hanswer | ⟨now, hanswer⟩
        · refine hcommit.token r ?_
          rw [hanswer] at hr
          cases d with
          | reserved _ =>
            cases hr
            rfl
          | _ => cases hr
        · rw [hanswer] at hr
          cases hr
    · exact h

theorem Commits.newLease {disk next collected : Snapshot}
    {r : Reservation} (h : Commits C env disk nowMs op next (.reserved r) collected token) :
    env.ownerNonce = some r.lease.nonce := by
  cases h.acts with
  | keep hidle => cases hidle
  | register _ _ _ _ hnonce => exact hnonce

theorem fresh_owner (h : w.fresh e = true) (hn : e.ownerNonce = some n) : n ∉ w.nonces := by
  simp only [World.fresh, Bool.and_eq_true, hn, Option.all_some, Bool.not_eq_true'] at h
  simpa using h.1.1

theorem not_occupies_of_terminal {e : Entry} (h : e.state.terminal = true) : ¬ Occupies w e := by
  rintro (hs | hs | hs | ⟨hs, -⟩)
  · rw [hs] at h
    cases h
  · rw [hs] at h
    cases h
  · rw [hs] at h
    cases h
  · rw [hs] at h
    cases h

theorem occupies_of_reported {e : Entry} (hpending : e.state ≠ .pending) (hunknown : e.state ≠ .admissionUnknown)
    (hterminal : ¬ e.state.terminal = true) : Occupies w e := by
  unfold Occupies
  cases hs : e.state with
  | admitted => exact .inl rfl
  | running => exact .inr (.inl rfl)
  | unknown => exact .inr (.inr (.inl rfl))
  | pending => cases hpending hs
  | admissionUnknown => cases hunknown hs
  | _ => cases hterminal (by rw [hs]; rfl)

section Occupants

variable {op : Operation} {nowMs : Nat} {e : Weather} {d answer : StoreDecision} {collected : Snapshot}
  {token : Option OwnerToken}

theorem old_owner (hfresh : w.fresh e = true) (hcommit : Commits C (w.surroundings e) w.disk nowMs op w'.disk d collected token)
    (hanswer : answer = d ∨ ∃ now, answer = unknown op.request now)
    (hleases : ∀ l ∈ w'.leases, (l ∈ w.leases ∧ l ∉ e.dying) ∨ ∃ r, answer = .reserved r ∧ l = r.lease) {owner : OwnerToken}
    (hdrawn : owner.nonce ∈ w.nonces) (hmem : owner ∈ w'.leases) : owner ∈ w.leases ∧ owner ∉ e.dying := by
  rcases hleases owner hmem with hold | ⟨r, rfl, rfl⟩
  · exact hold
  · rcases hanswer with rfl | ⟨now, hunknown⟩
    · cases fresh_owner hfresh hcommit.newLease hdrawn
    · cases hunknown

theorem occupant_alone (ht : Tidy w) (ht' : ∀ l ∈ w'.leases, w'.tokens l.slot = some l.nonce) (hpossible : w.possible op = true)
    (hcommit : Commits C (w.surroundings e) w.disk nowMs op w'.disk d collected token)
    (hold : ∀ {owner : OwnerToken}, owner.nonce ∈ w.nonces → owner ∈ w'.leases → owner ∈ w.leases ∧ owner ∉ e.dying)
    (holdOccupies : ∀ {k : String} {x : Entry}, w.disk.entries[k]? = some x → Occupies w' x → Occupies w x)
    {k : String} {x y : Entry} (hk : k ≠ op.request.requestKey) (hx : w'.disk.entries[k]? = some x)
    (hy : w'.disk.entries[op.request.requestKey]? = some y) (hthread : x.threadId = y.threadId) (hox : Occupies w' x)
    (hoy : Occupies w' y) : False := by
  obtain ⟨_, hvalid⟩ := hcommit.valid
  have hcollected : collected.entries[k]? = some x := by
    rw [← hcommit.acts.other hk]
    exact hx
  have hx0 := hcommit.old hcollected
  have hsingle : ∀ {y0 : Entry}, collected.entries[op.request.requestKey]? = some y0 → y0.threadId = y.threadId →
      Occupies w y0 → False := by
    intro y0 hy0 hsame hoy0
    exact hk (ht.single k _ x y0 hx0 (hcommit.old hy0) (hthread.trans hsame.symm) (holdOccupies hx0 hox) hoy0)
  have hacts := hcommit.acts
  generalize w'.disk = next at hacts hy
  cases hacts with
  | keep => exact hsingle hy rfl (holdOccupies (hcommit.old hy) hoy)
  | register _ _ hfree =>
    have hy : some _ = some y := (if_pos rfl).symm.trans ((Table.get_insert _ _ _ _).symm.trans hy)
    cases hy
    rcases hfree k x hk hcollected hthread with hterminal | ⟨hpending, hdead⟩
    · exact not_occupies_of_terminal hterminal hox
    · rcases hox with hs | hs | hs | ⟨-, hlive⟩
      · rw [hs] at hpending
        cases hpending
      · rw [hs] at hpending
        cases hpending
      · rw [hs] at hpending
        cases hpending
      · obtain ⟨hmem, hlives⟩ := hold (ht.owners k x hx0) ((ownerLive_iff ht' _).1 hlive)
        exact sight_alive (ht.tokens _ hmem) hmem hlives hdead
  | @grant _ _ _ y0 r hy0 hpending howner =>
    have hy : some _ = some y := (if_pos rfl).symm.trans ((Table.get_insert _ _ _ _).symm.trans hy)
    cases hy
    refine hsingle hy0 rfl (.inr (.inr (.inr ⟨hpending, (ownerLive_iff ht.tokens _).2 ?_⟩)))
    rw [howner]
    simp only [World.possible, Bool.and_eq_true, List.contains_iff_mem] at hpossible
    exact hpossible.2
  | @report _ y0 _ r hy0 hidentity hterminal _ =>
    have hy : some _ = some y := (if_pos rfl).symm.trans ((Table.get_insert _ _ _ _).symm.trans hy)
    cases hy
    obtain ⟨-, hunknown, hpending⟩ := valid_entry hvalid (hcommit.old hy0)
    by_cases hover : y0.state.terminal = true
    · refine not_occupies_of_terminal ?_ hoy
      rw [hterminal hover]
      exact hover
    · exact hsingle hy0 rfl (occupies_of_reported (hpending hidentity) hunknown hover)
  | release =>
    simp only [Operation.request] at hy
    rw [Std.ExtTreeMap.getElem?_erase_self] at hy
    cases hy

end Occupants

theorem owners_commit {d : StoreDecision} {collected : Snapshot}
    (howners : ∀ (k : String) (x : Entry), w.disk.entries[k]? = some x → x.owner.nonce ∈ w.nonces)
    (hcommit : Commits C (w.surroundings e) w.disk nowMs op w'.disk d collected token)
    (hnonces : ∀ n, e.ownerNonce = some n ∨ n ∈ w.nonces → n ∈ w'.nonces) {x : Entry}
    (hx : w'.disk.entries[k]? = some x) : x.owner.nonce ∈ w'.nonces := by
  have hold : ∀ {k : String} {x : Entry}, collected.entries[k]? = some x → x.owner.nonce ∈ w'.nonces :=
    fun hx => hnonces _ (.inr (howners _ _ (hcommit.old hx)))
  have hacts := hcommit.acts
  generalize w'.disk = next at hacts hx
  cases hacts with
  | keep => exact hold hx
  | register _ _ _ _ hnonce =>
    rcases Table.insert_eq_some hx with ⟨-, rfl⟩ | ⟨-, hx⟩
    · exact hnonces _ (.inl hnonce)
    · exact hold hx
  | grant hy =>
    rcases Table.insert_eq_some hx with ⟨-, rfl⟩ | ⟨-, hx⟩
    · have hdrawn := hold hy
      exact hdrawn
    · exact hold hx
  | report hy =>
    rcases Table.insert_eq_some hx with ⟨-, rfl⟩ | ⟨-, hx⟩
    · have hdrawn := hold hy
      exact hdrawn
    · exact hold hx
  | release =>
    rw [Std.ExtTreeMap.getElem?_erase] at hx
    split at hx
    · cases hx
    · exact hold hx

theorem tidy_advance (h : Advance C w w') (ht' : ∀ l ∈ w'.leases, w'.tokens l.slot = some l.nonce) (ht : Tidy w) :
    Tidy w' := by
  cases h with
  | plain hentries _ _ hleases hnonces hlog =>
    refine ⟨ht', fun l hl => hnonces _ (ht.drawn l (hleases l hl)), fun k x hx => ?_, ?_⟩
    · rw [hentries] at hx
      exact hnonces _ (ht.owners k x hx)
    · intro k₁ k₂ e₁ e₂ h1 h2 hthread ho1 ho2
      rw [hentries] at h1 h2
      have hold : ∀ {x : Entry}, Occupies w' x → Occupies w x := by
        rintro x (hs | hs | hs | ⟨hs, hlive⟩)
        · exact .inl hs
        · exact .inr (.inl hs)
        · exact .inr (.inr (.inl hs))
        · exact .inr (.inr (.inr ⟨hs, (ownerLive_iff ht.tokens _).2 (hleases _ ((ownerLive_iff ht' _).1 hlive))⟩))
      exact ht.single k₁ k₂ e₁ e₂ h1 h2 hthread (hold ho1) (hold ho2)
  | @commit op nowMs e d _ collected token hpossible hfresh hcommit hanswer hleases hnonces hlog =>
    have hold : ∀ {owner : OwnerToken}, owner.nonce ∈ w.nonces → owner ∈ w'.leases → owner ∈ w.leases ∧ owner ∉ e.dying :=
      fun hdrawn hmem => old_owner hfresh hcommit hanswer hleases hdrawn hmem
    have holdOccupies : ∀ {k : String} {x : Entry}, w.disk.entries[k]? = some x → Occupies w' x → Occupies w x := by
      rintro k x hx (hs | hs | hs | ⟨hs, hlive⟩)
      · exact .inl hs
      · exact .inr (.inl hs)
      · exact .inr (.inr (.inl hs))
      · have hmem := (hold (ht.owners k x hx) ((ownerLive_iff ht' _).1 hlive)).1
        exact .inr (.inr (.inr ⟨hs, (ownerLive_iff ht.tokens _).2 hmem⟩))
    refine ⟨ht', fun l hl => ?_, fun k x hx => owners_commit ht.owners hcommit hnonces hx, ?_⟩
    · rcases hleases l hl with ⟨hmem, -⟩ | ⟨r, rfl, rfl⟩
      · exact hnonces _ (.inr (ht.drawn l hmem))
      · rcases hanswer with rfl | ⟨_, hunknown⟩
        · exact hnonces _ (.inl hcommit.newLease)
        · cases hunknown
    · intro k₁ k₂ e₁ e₂ h1 h2 hthread ho1 ho2
      have halone := @occupant_alone C w w' op nowMs e d collected token ht ht' hpossible hcommit hold holdOccupies
      by_cases hk1 : k₁ = op.request.requestKey
      · by_cases hk2 : k₂ = op.request.requestKey
        · exact hk1.trans hk2.symm
        · exact (halone hk2 h2 (hk1 ▸ h1) hthread.symm ho2 ho1).elim
      · by_cases hk2 : k₂ = op.request.requestKey
        · exact (halone hk1 h1 (hk2 ▸ h2) hthread ho1 ho2).elim
        · rw [hcommit.acts.other hk1] at h1
          rw [hcommit.acts.other hk2] at h2
          have h1 := hcommit.old h1
          have h2 := hcommit.old h2
          exact ht.single k₁ k₂ e₁ e₂ h1 h2 hthread (holdOccupies h1 ho1) (holdOccupies h2 ho2)

theorem tidy_run (es : List Event) : Tidy (World.run C T es) := by
  induction es using List.reverseRecOn with
  | nil =>
    refine ⟨fun l hl => (by cases hl), fun l hl => (by cases hl), fun k x hx => ?_, fun k₁ k₂ e₁ e₂ h1 => ?_⟩
    · cases hx
    · cases h1
  | append_singleton es e ih =>
    rw [World.run_append]
    exact tidy_advance (advance_step _ e) (tokens_step ih.tokens e) ih

/-! ## What is never lost, and what is never registered -/

def StoreState.unresolved : StoreState → Bool
  | .admitted | .running | .unknown => true
  | _ => false

theorem not_terminal_of_unresolved {state : StoreState} (h : state.unresolved = true) : ¬ state.terminal = true := by
  revert h
  cases state <;> decide

theorem unresolved_change {e : Entry} {after : Option Entry}
    (h : Change env now k (some e) after) (he : e.state.unresolved = true) :
    ∃ e', after = some e' ∧ (e'.state.unresolved = true ∨ e'.state.terminal = true) := by
  have hpending : e.state ≠ .pending := fun hp => by
    rw [hp] at he
    cases he
  cases h with
  | same => exact ⟨e, rfl, .inl he⟩
  | collect hcollect =>
    rcases hcollect.2 with hterminal | ⟨hp, -⟩
    · cases not_terminal_of_unresolved he hterminal
    · cases hpending hp
  | release hp => cases hpending hp
  | register hbefore => cases hpending (hbefore e rfl)
  | grant hp => cases hpending hp
  | report _ _ _ hstate =>
    refine ⟨_, rfl, ?_⟩
    rcases hstate with hstate | hstate | hstate | hstate
    · exact .inl (by rw [hstate]; exact he)
    · exact .inl (by rw [hstate]; rfl)
    · exact .inr hstate
    · exact .inl (by rw [hstate]; rfl)

theorem unresolved_advance (h : Advance C w w') {e : Entry} (hk : w.disk.entries[k]? = some e)
    (he : e.state.unresolved = true) :
    ∃ e', w'.disk.entries[k]? = some e' ∧ (e'.state.unresolved = true ∨ e'.state.terminal = true) := by
  cases h with
  | plain hentries => exact ⟨e, by rw [hentries]; exact hk, .inl he⟩
  | commit _ _ hcommit =>
    have hchange := hcommit.change k
    rw [hk] at hchange
    exact unresolved_change hchange he

theorem unresolved_run (es fs : List Event) {e : Entry} (hk : (World.run C T es).disk.entries[k]? = some e)
    (he : e.state.unresolved = true) :
    (∃ e', (World.run C T (es ++ fs)).disk.entries[k]? = some e' ∧ e'.state.unresolved = true) ∨
      ∃ gs, gs <+: fs ∧ ∃ e', (World.run C T (es ++ gs)).disk.entries[k]? = some e' ∧ e'.state.terminal = true := by
  induction fs using List.reverseRecOn with
  | nil => exact .inl ⟨e, by rw [List.append_nil]; exact hk, he⟩
  | append_singleton fs event ih =>
    rcases ih with ⟨_, hk1, he1⟩ | ⟨gs, hgs, hover⟩
    · obtain ⟨e₂, hk2, he2⟩ := unresolved_advance (advance_step (C := C) (T := T) (World.run C T (es ++ fs)) event) hk1 he1
      rw [← World.run_append, List.append_assoc] at hk2
      rcases he2 with he2 | he2
      · exact .inl ⟨e₂, hk2, he2⟩
      · exact .inr ⟨fs ++ [event], List.prefix_refl _, e₂, hk2, he2⟩
    · exact .inr ⟨gs, hgs.trans (List.prefix_append _ _), hover⟩

variable {r : StoreRefusal}

theorem Acts.unregistered (h : Acts env now s op s' (.refused r))
    (hr : r.definitelyUnregistered = true) : ∃ key, r.requestKey = some key ∧ s'.entries[key]? = none := by
  cases h with
  | keep hidle => exact ⟨_, hidle.1, hidle.2 hr⟩
  | release => exact ⟨_, rfl, Std.ExtTreeMap.getElem?_erase_self⟩

/-- Every refusal so far that calls its key unregistered goes with such a snapshot. -/
def Unregistering (w : World) : Prop :=
  ∀ record ∈ w.log, ∀ r, record.answer.refusal = some r → r.definitelyUnregistered = true →
    ∃ (s : Snapshot) (key : String), record.stored = some s ∧ r.requestKey = some key ∧ s.entries[key]? = none

theorem unregistering_advance (h : Advance C w w') (hw : Unregistering w) : Unregistering w' := by
  cases h with
  | plain _ _ _ _ _ hlog =>
    rcases hlog with hlog | ⟨_, hlog, hplain⟩
    · intro record hrecord
      rw [hlog] at hrecord
      exact hw record hrecord
    · intro record hrecord r hrefusal hr
      rw [hlog] at hrecord
      rcases List.mem_cons.1 hrecord with rfl | hrecord
      · rw [hplain.refusal r hrefusal] at hr
        cases hr
      · exact hw record hrecord r hrefusal hr
  | @commit _ _ e d answer _ _ _ _ hcommit hanswer _ _ hlog =>
    intro record hrecord r hrefusal hr
    rw [hlog] at hrecord
    rcases List.mem_cons.1 hrecord with rfl | hrecord
    · rcases hanswer with rfl | ⟨_, rfl⟩
      · cases hd : answer with
        | refused _ =>
          subst hd
          cases hrefusal
          obtain ⟨key, hkey, hnone⟩ := hcommit.acts.unregistered hr
          exact ⟨_, key, rfl, hkey, hnone⟩
        | _ =>
          subst hd
          cases hrefusal
      · cases hrefusal
    · exact hw record hrecord r hrefusal hr

theorem unregistering_run (es : List Event) : Unregistering (World.run C T es) := by
  induction es using List.reverseRecOn with
  | nil => exact fun record hrecord => (by cases hrecord)
  | append_singleton es e ih =>
    rw [World.run_append]
    exact unregistering_advance (advance_step _ e) ih

theorem prepare_refusal {key threadId text : String} (h : prepare C key threadId text = .error r) :
    r.definitelyUnregistered = false := by
  unfold prepare at h
  split at h
  · obtain rfl := Except.error.inj h
    rfl
  · split at h
    · obtain rfl := Except.error.inj h
      rfl
    · split at h
      · obtain rfl := Except.error.inj h
        rfl
      · split at h
        · obtain rfl := Except.error.inj h
          rfl
        · cases h

/-- **A thread has at most one occupant** in every committed snapshot, over every run of the store by any number of
processes.  An admitted, running or unknown turn stays in the snapshot until it is over, and a key is called unregistered
only by a call whose snapshot does not hold it. -/
theorem thread_occupied_once (C : Codec) (T : String) (es fs : List Event) :
    (∀ (k₁ k₂ : String) (e₁ e₂ : Entry), (World.run C T es).disk.entries[k₁]? = some e₁ →
        (World.run C T es).disk.entries[k₂]? = some e₂ → e₁.threadId = e₂.threadId →
        Occupies (World.run C T es) e₁ → Occupies (World.run C T es) e₂ → k₁ = k₂) ∧
      (∀ (k : String) (e : Entry), (World.run C T es).disk.entries[k]? = some e → e.state.unresolved = true →
        (World.run C T (es ++ fs)).disk.entries[k]? = none →
        ∃ gs, gs <+: fs ∧ ∃ e' : Entry, (World.run C T (es ++ gs)).disk.entries[k]? = some e' ∧ e'.state.terminal = true) ∧
      (∀ record ∈ (World.run C T es).log, ∀ r, record.answer.refusal = some r → r.definitelyUnregistered = true →
        ∃ (s : Snapshot) (key : String), record.stored = some s ∧ r.requestKey = some key ∧ s.entries[key]? = none) ∧
      ∀ (key threadId text : String) (r : StoreRefusal), prepare C key threadId text = .error r →
        r.definitelyUnregistered = false := by
  refine ⟨(tidy_run es).single, fun k e hk he hnone => ?_, unregistering_run es, fun _ _ _ _ => prepare_refusal⟩
  rcases unresolved_run es fs hk he with ⟨e', hk', -⟩ | hover
  · rw [hk'] at hnone
    cases hnone
  · exact hover

end Iteron.TurnStart
