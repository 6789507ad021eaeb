import Iteron.PromotionCheckpoint
/-!
# PromotionRun — when the authority's journal stays readable

An accepted file stays accepted through every operation whose candidate fits and whose observation names the candidate,
whatever the write left behind (`journal_never_bricked`).  An admission of a candidate that is already there is written
first and refused by every replay after (`not_journal_readable`).
-/
namespace Iteron.Promotion

open Refuse

section File

variable {A : Authority} {C : Codec} {ls : List Bytes} {tail : Bytes} {records : List JournalRecord}

theorem readRecords_image (hls : ∀ l ∈ ls, newline ∉ l) (htail : newline ∉ tail) :
    readRecords A C (Lines.image newline ls ++ tail) = .ok records ↔
      (Lines.image newline ls ++ tail).length ≤ maxPromotionJournalBytes ∧ ls.foldlM (readLine A C) [] = .ok records ∧
        tail.length ≤ maxPromotionJournalRecordBytes := by
  have hsplit := Lines.splitOn_image_append htail hls
  have hlines : terminated (Lines.image newline ls ++ tail) = ls := by
    rw [terminated, hsplit, List.dropLast_concat]
  have hlast : tornTail (Lines.image newline ls ++ tail) = tail := by
    rw [tornTail, hsplit]
    simp
  simp only [readRecords, hlines, hlast, bind_eq_ok, refuseIf_eq_ok, pure_eq_ok, Nat.not_lt, gt_iff_lt]
  constructor
  · rintro ⟨_, hsize, _, hread, _, hshort, rfl⟩
    exact ⟨hsize, hread, hshort⟩
  · rintro ⟨hsize, hread, hshort⟩
    exact ⟨(), hsize, records, hread, (), hshort, rfl⟩

theorem cutTail_image (hls : ∀ l ∈ ls, newline ∉ l) (htail : newline ∉ tail) :
    cutTail (Lines.image newline ls ++ tail) = Lines.image newline ls := by
  rw [cutTail, terminated, Lines.splitOn_image_append htail hls, List.dropLast_concat]

theorem readRecords_cutTail {file : Bytes} (h : readRecords A C file = .ok records) :
    readRecords A C (cutTail file) = .ok records := by
  obtain ⟨ls, _, rfl, hls, htail⟩ := Lines.exists_image newline file
  obtain ⟨hsize, hread, _⟩ := (readRecords_image hls htail).1 h
  have hempty : newline ∉ ([] : Bytes) := by simp
  rw [cutTail_image hls htail, ← List.append_nil (Lines.image newline ls), readRecords_image hls hempty]
  refine ⟨?_, hread, Nat.zero_le _⟩
  rw [List.length_append] at hsize ⊢
  rw [List.length_nil]
  omega

theorem readLine_next {content : JournalContent} (hcarries : C.Carries (nextRecord A C records content))
    (hroom : records.length < maxPromotionAuditEvents) (hcontent : (C.content content).length ≤ maxPromotionJournalRecordBytes)
    (hline : (C.record (nextRecord A C records content)).length + 1 ≤ maxPromotionJournalRecordBytes) :
    readLine A C records (C.record (nextRecord A C records content)) = .ok (records ++ [nextRecord A C records content]) := by
  have hread : readRecord C (C.record (nextRecord A C records content)) = .ok (nextRecord A C records content) := by
    rw [readRecord, hcarries.roundTrip]
  have hverify : verifyRecord A C (nextRecord A C records content) records.length (previousHash records) = .ok () := by
    simp only [verifyRecord, bind_eq_ok, refuseIf_eq_ok]
    exact ⟨(), by simp [nextRecord], (), Nat.not_lt.2 hcontent, by simp [nextRecord]⟩
  simp only [readLine, bind_eq_ok, refuseIf_eq_ok, pure_eq_ok]
  exact ⟨(), Nat.not_lt.2 hline, (), Nat.not_le.2 hroom, _, hread, (), hverify, rfl⟩

end File

section Append

variable {A : Authority} {C : Codec} {s : AuthorityState} {records : List JournalRecord} {file : Bytes}

theorem refresh_eq_ok : refresh A C file = .ok s ↔
    ∃ records, readRecords A C file = .ok records ∧ replay A records = .ok s := by
  rw [refresh, bind_eq_ok]

theorem refresh_cutTail (h : refresh A C file = .ok s) : refresh A C (cutTail file) = .ok s := by
  obtain ⟨records, hread, hreplay⟩ := refresh_eq_ok.1 h
  exact refresh_eq_ok.2 ⟨records, readRecords_cutTail hread, hreplay⟩

theorem append_accepted {j : Journal} {content : JournalContent} (hread : readRecords A C j.file = .ok records)
    (hreplay : replay A records = .ok s) (hcarries : C.Carries (nextRecord A C records content))
    (hrecord : ∃ s', replayRecord A s (nextRecord A C records content) = .ok s') (write : Write) :
    ∃ s', refresh A C (j.append A C content write).1.file = .ok s' := by
  have hcut : ∃ s', refresh A C (cutTail j.file) = .ok s' :=
    ⟨s, refresh_eq_ok.2 ⟨records, readRecords_cutTail hread, hreplay⟩⟩
  unfold Journal.append
  by_cases hp : j.poisoned = true
  · rw [if_pos hp]
    exact ⟨s, refresh_eq_ok.2 ⟨records, hread, hreplay⟩⟩
  rw [if_neg hp]
  simp only [hread]
  by_cases hroom : records.length ≥ maxPromotionAuditEvents
  · rw [if_pos hroom]
    exact hcut
  rw [if_neg hroom]
  by_cases hlarge : (C.content content).length > maxPromotionJournalRecordBytes ∨
      (C.record (nextRecord A C records content) ++ [newline]).length > maxPromotionJournalRecordBytes
  · rw [if_pos hlarge]
    exact hcut
  rw [if_neg hlarge]
  by_cases hfull : (cutTail j.file).length + (C.record (nextRecord A C records content) ++ [newline]).length >
      maxPromotionJournalBytes
  · rw [if_pos hfull]
    exact hcut
  rw [if_neg hfull]
  rw [not_or, Nat.not_lt, Nat.not_lt] at hlarge
  obtain ⟨hcontent, hline⟩ := hlarge
  rw [Nat.not_lt] at hfull
  obtain ⟨ls, _, hfile, hls, htail⟩ := Lines.exists_image newline j.file
  rw [hfile] at hread hfull ⊢
  rw [cutTail_image hls htail] at hfull ⊢
  obtain ⟨_, hfold, _⟩ := (readRecords_image hls htail).1 hread
  have hone : newline ∉ C.record (nextRecord A C records content) := hcarries.oneLine
  -- the whole line was written: the new record is the last one
  have hdone : ∃ s', refresh A C
      (Lines.image newline ls ++ (C.record (nextRecord A C records content) ++ [newline])) = .ok s' := by
    obtain ⟨s', hs'⟩ := hrecord
    have himage : Lines.image newline ls ++ (C.record (nextRecord A C records content) ++ [newline]) =
        Lines.image newline (ls ++ [C.record (nextRecord A C records content)]) ++ [] := by
      simp [Lines.image]
    refine ⟨s', refresh_eq_ok.2 ⟨records ++ [nextRecord A C records content], ?_, ?_⟩⟩
    · have hall : ∀ l ∈ ls ++ [C.record (nextRecord A C records content)], newline ∉ l := by
        intro l hl
        rcases List.mem_append.1 hl with hl | hl
        · exact hls l hl
        · rw [List.mem_singleton] at hl
          rw [hl]
          exact hone
      have hempty : newline ∉ ([] : Bytes) := by simp
      have hsize := hfull
      rw [← List.length_append, himage] at hsize
      rw [himage, readRecords_image hall hempty]
      refine ⟨hsize, ?_, Nat.zero_le _⟩
      rw [List.foldlM_append, hfold, ok_bind, List.foldlM_cons, readLine_next hcarries (Nat.lt_of_not_le hroom) hcontent]
      · rfl
      · simpa using hline
    · rw [replay, List.foldlM_append]
      rw [replay] at hreplay
      rw [hreplay, ok_bind, List.foldlM_cons, hs']
      rfl
  cases write with
  | done => exact hdone
  | failed written _ =>
    by_cases hw : written ≤ (C.record (nextRecord A C records content)).length
    · have htake : (C.record (nextRecord A C records content) ++ [newline]).take written =
          (C.record (nextRecord A C records content)).take written := List.take_append_of_le_length hw
      have hfree : newline ∉ (C.record (nextRecord A C records content)).take written :=
        fun hin => hone (List.mem_of_mem_take hin)
      simp only [htake]
      refine ⟨s, refresh_eq_ok.2 ⟨records, (readRecords_image hls hfree).2 ⟨?_, hfold, ?_⟩, hreplay⟩⟩
      · rw [List.length_append] at hfull ⊢
        rw [List.length_take]
        omega
      · rw [List.length_append, List.length_singleton] at hline
        rw [List.length_take]
        omega
    · have htake : (C.record (nextRecord A C records content) ++ [newline]).take written =
          C.record (nextRecord A C records content) ++ [newline] := by
        refine List.take_of_length_le ?_
        rw [List.length_append, List.length_singleton]
        omega
      simp only [htake]
      exact hdone

end Append

/-- What the operations leave unchecked: a new candidate fits, and an observation is about the candidate it completes. -/
def Op.Meets (s : AuthorityState) (request : PromotionRequest) : Op → Prop
  | .admitCandidate c => Fits s c.deployment.bundle
  | .admitCheckpointCandidate checkpoint _ => Fits s checkpoint.bundle
  | .completeShadow o | .completeCanary o => o.observation.candidateBundleDigest = request.candidateBundleDigest
  | _ => True

/-- A call that meets this in the state before it, with a record that serialization carries. -/
def Safe (A : Authority) (C : Codec) (file : Bytes) : Move → Prop
  | .reopen => True
  | .call call => ∀ records s, readRecords A C file = .ok records → replay A records = .ok s →
      call.op.Meets s call.request ∧ ∀ event, call.op.event A s call.request call.authorization = .ok event →
        C.Carries (nextRecord A C records (contentOf A call.request call.authorization event))

def SafeRun (A : Authority) (C : Codec) : PromotionAuthority → List Move → Prop
  | _, [] => True
  | p, m :: moves => Safe A C p.journal.file m ∧ SafeRun A C (p.move A C m) moves

section Run

variable {A : Authority} {C : Codec} {s : AuthorityState} {p : PromotionAuthority}

theorem event_accepted (h : Sound s) {op : Op} {request : PromotionRequest} {authorization : PromotionAuthorization}
    {event : JournalEvent} (hmeets : op.Meets s request) (hevent : op.event A s request authorization = .ok event)
    (records : List JournalRecord) :
    ∃ s', replayRecord A s (nextRecord A C records (contentOf A request authorization event)) = .ok s' := by
  cases op with
  | bootstrap _ => exact bootstrap_accepted h hevent C records
  | admitCandidate c => exact admitCandidate_accepted h hevent hmeets C records
  | admitCheckpointCandidate _ _ => exact checkpoint_accepted h hevent hmeets C records
  | enterShadow => exact enterShadow_accepted hevent C records
  | completeShadow observation => exact complete_accepted bounded_shadow hevent hmeets C records
  | completeCanary observation => exact complete_accepted bounded_canary hevent hmeets C records
  | rollback => exact rollback_accepted h hevent C records

theorem refresh_run (h : refresh A C p.journal.file = .ok s) :
    p.refresh A C = ({ journal := { p.journal with file := cutTail p.journal.file }, state := s }, .ok ()) := by
  obtain ⟨_, hread, hreplay⟩ := refresh_eq_ok.1 h
  simp only [PromotionAuthority.refresh, hread, hreplay]

theorem refresh_accepted (h : ∃ s, refresh A C p.journal.file = .ok s) :
    ∃ s, refresh A C (p.refresh A C).1.journal.file = .ok s := by
  obtain ⟨s, hs⟩ := h
  rw [refresh_run hs]
  exact ⟨s, refresh_cutTail hs⟩

theorem execute_accepted (h : ∃ s, refresh A C p.journal.file = .ok s) {call : Call}
    (hsafe : Safe A C p.journal.file (.call call)) : ∃ s, refresh A C (p.execute A C call).1.journal.file = .ok s := by
  obtain ⟨s, hs⟩ := h
  obtain ⟨records, hread, hreplay⟩ := refresh_eq_ok.1 hs
  obtain ⟨hmeets, hcarries⟩ := hsafe records s hread hreplay
  unfold PromotionAuthority.execute
  rw [refresh_run hs]
  cases hevent : call.op.event A s call.request call.authorization with
  | error e =>
    simp only [hevent]
    exact ⟨s, refresh_cutTail hs⟩
  | ok event =>
    simp only [hevent]
    have hread' := readRecords_cutTail hread
    have hrecord := @event_accepted A C s (replay_sound records .start hreplay) _ _ _ _ hmeets hevent records
    have happend := @append_accepted A C s records { p.journal with file := cutTail p.journal.file } _ hread' hreplay
      (hcarries event hevent) hrecord call.write
    unfold PromotionAuthority.append
    rcases hj : Journal.append A C { p.journal with file := cutTail p.journal.file }
      (contentOf A call.request call.authorization event) call.write with ⟨journal, e | _⟩
    · rw [hj] at happend
      exact happend
    · rw [hj] at happend
      dsimp only
      have hrefreshed := @refresh_accepted A C ⟨journal, s⟩ happend
      rcases hr : PromotionAuthority.refresh A C ⟨journal, s⟩ with ⟨_, e | _⟩
      · rw [hr] at hrefreshed
        exact hrefreshed
      · rw [hr] at hrefreshed
        exact hrefreshed

theorem move_accepted (h : ∃ s, refresh A C p.journal.file = .ok s) {m : Move} (hsafe : Safe A C p.journal.file m) :
    ∃ s, refresh A C (p.move A C m).journal.file = .ok s := by
  cases m with
  | call call => exact execute_accepted h hsafe
  | reopen => exact @refresh_accepted A C ⟨⟨p.journal.file, false⟩, .start⟩ h

/-- **A journal that is open stays readable** through every run of operations, authorized or not and whatever their
writes left behind, in which every admitted candidate is new and fits and every observation names its candidate. -/
theorem journal_never_bricked (A : Authority) (C : Codec) (file : Bytes) (hopen : ∃ s, refresh A C file = .ok s) :
    ∀ moves : List Move, SafeRun A C (.open A C file) moves →
      ∃ s, refresh A C (PromotionAuthority.run A C (.open A C file) moves).journal.file = .ok s := by
  have hrun : ∀ (moves : List Move) (p : PromotionAuthority), (∃ s, refresh A C p.journal.file = .ok s) →
      SafeRun A C p moves → ∃ s, refresh A C (p.run A C moves).journal.file = .ok s := by
    intro moves
    induction moves with
    | nil => exact fun p h _ => h
    | cons m moves ih => exact fun p h hsafe => ih (p.move A C m) (move_accepted h hsafe.1) hsafe.2
  intro moves hsafe
  exact hrun moves _ (@refresh_accepted A C ⟨⟨file, false⟩, .start⟩ hopen) hsafe

end Run

namespace Scene

def request (id : String) (operation : PromotionOperation) (candidate : Char) (target : DeploymentStage) : PromotionRequest :=
  ⟨id, operation, digest candidate, none, target⟩

def owner : PromotionAuthorization := ⟨"owner", "signature"⟩

def bootstrap : Call := ⟨request "1" .bootstrap '0' .active, owner, .bootstrap (bundle '0' none), .done⟩

def manifest : PolicyManifest := ⟨policyRef '1', some (policyRef '0'), none, digest '2', model, ""⟩

def admission : CandidateAdmission :=
  { manifest, inputs := .ok ⟨digest '1', none, digest '2', model⟩, suite := ⟨"suite owner", digest '2'⟩, heldOut,
    deployment := bundle '1' (some "b0") }

/-- The same candidate, under one authorization and another. -/
def admitTwice (id : String) : Call := ⟨request id .admitCandidate '1' .candidate, owner, .admitCandidate admission, .done⟩

def admissions : List JournalRecord :=
  records (contents.take 2 ++ [content "3" .admitCandidate '1' none .candidate
    (.candidateAdmitted (bundle '1' (some "b0")) identity heldOut)])

def bricked : PromotionAuthority :=
  PromotionAuthority.run authority (codec admissions) (.open authority (codec admissions) [])
    [.call bootstrap, .call (admitTwice "2"), .call (admitTwice "3")]

end Scene

theorem journal_never_bricked_bootstrap : ∃ s, refresh Scene.authority (Scene.codec (Scene.records (Scene.contents.take 1)))
    (PromotionAuthority.run Scene.authority (Scene.codec (Scene.records (Scene.contents.take 1)))
      (.open Scene.authority (Scene.codec (Scene.records (Scene.contents.take 1))) []) [.call Scene.bootstrap]).journal.file =
        .ok s := by
  refine journal_never_bricked _ _ [] ⟨.start, rfl⟩ _ ⟨?_, trivial⟩
  intro records s hread hreplay
  obtain rfl : [] = records := Except.ok.inj hread
  refine ⟨trivial, fun event hevent => ?_⟩
  simp only [Scene.bootstrap, Op.event, bootstrapEvent, bind_eq_ok, pure_eq_ok] at hevent
  obtain ⟨_, _, _, _, _, _, _, _, rfl⟩ := hevent
  exact ⟨rfl, by decide⟩

/-- The second admission of one candidate is written, and no replay accepts the journal again. -/
theorem not_journal_readable : ¬ ∀ (A : Authority) (C : Codec) (file : Bytes) (moves : List Move),
    (∃ s, refresh A C file = .ok s) →
    (∃ records, readRecords A C (PromotionAuthority.run A C (.open A C file) moves).journal.file = .ok records) →
    ∃ s, refresh A C (PromotionAuthority.run A C (.open A C file) moves).journal.file = .ok s := by
  intro h
  obtain ⟨hread, hrefused⟩ :
      (readRecords Scene.authority (Scene.codec Scene.admissions) Scene.bricked.journal.file).toOption.isSome = true ∧
      (refresh Scene.authority (Scene.codec Scene.admissions) Scene.bricked.journal.file).toOption.isSome = false := by
    decide +kernel
  obtain ⟨records, hread⟩ := Option.isSome_iff_exists.1 hread
  have hall := h Scene.authority (Scene.codec Scene.admissions) []
    [.call Scene.bootstrap, .call (Scene.admitTwice "2"), .call (Scene.admitTwice "3")] ⟨.start, rfl⟩
  rw [← Scene.bricked] at hall
  obtain ⟨s, hs⟩ := hall ⟨records, toOption_eq_some.1 hread⟩
  rw [hs] at hrefused
  cases hrefused

end Iteron.Promotion
