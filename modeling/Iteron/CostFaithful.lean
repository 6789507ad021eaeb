import Iteron.CostCharge
import Mathlib.Data.Countable.Basic
import Mathlib.Logic.Equiv.List
/-!
# CostFaithful — a journal accepted whole charges each turn once and under its own binding

What the replay knows of the journal it has read, and from it the guarantees: no charge twice, each charge after the
end of its own turn, the card of the binding that was current, and the metrics of each child once.
-/
namespace Iteron.Cost

open Machine (saturatingAdd u64Max)
open Refuse (bind_eq_ok pure_eq_ok toOption_eq_some)

variable {H : Hashes} {port : Port} {r r' : Replay} {i : Input} {l : Ledger} {es : List Input}

/-! ## The journal's own account -/

def lastSelected (es : List Input) : Option PricingRoute :=
  es.foldl (fun route j => match j.kind with | .modelSelected next => some next | _ => route) none

/-- The card is the last bound, for the route then selected, and the port verified it. -/
def LastBound (port : Port) (es : List Input) (c : SignedRateCard) : Prop :=
  ∃ pre, ∃ j : Input, ∃ post, es = pre ++ j :: post ∧ j.kind = .rateCardBound c ∧ lastSelected pre = some c.rateCard.route ∧
    port.verifyRateCard c = .ok () ∧ ∀ k ∈ post, k.isBinding = false

/-- The start is the first of its turn that nothing has closed. -/
def FirstOpen (s : Scope) (before : List Input) (start : Input) (between : List Input) : Prop :=
  Starts start s ∧ (∀ k ∈ between, ¬ Closes k s) ∧
    ∀ pre k mid, before = pre ++ k :: mid → Starts k s → ∃ m ∈ mid, Closes m s

def journal (H : Hashes) (port : Port) (l : Ledger) (es : List Input) : Result Replay :=
  Replay.replay H (some port) { ledger := l } es

theorem journal_concat : journal H port l (es ++ [i]) = .ok r' ↔
    ∃ r, journal H port l es = .ok r ∧ r.observe H (some port) i = .ok r' := by
  unfold journal Replay.replay
  rw [List.foldlM_append, bind_eq_ok]
  refine exists_congr fun r => and_congr_right fun _ => ?_
  rw [List.foldlM_cons, bind_eq_ok]
  simp only [List.foldlM_nil, pure_eq_ok]
  constructor
  · rintro ⟨a, ha, rfl⟩
    exact ha
  · intro h
    exact ⟨r', h, rfl⟩

variable {fs : List Input}

theorem journal_append : journal H port l (es ++ fs) = .ok r' →
    ∃ r, journal H port l es = .ok r ∧ Replay.replay H (some port) r fs = .ok r' := by
  unfold journal Replay.replay
  rw [List.foldlM_append, bind_eq_ok]
  exact fun h => h

theorem lastSelected_concat (es : List Input) (i : Input) :
    lastSelected (es ++ [i]) = match i.kind with | .modelSelected next => some next | _ => lastSelected es := by
  unfold lastSelected
  rw [List.foldl_append]
  rfl

/-- **What the replay knows of the journal it has read.** -/
structure Follows (H : Hashes) (port : Port) (l : Ledger) (es : List Input) (r : Replay) : Prop where
  selected : r.selectedRoute = lastSelected es
  epoch : r.bindingEpoch = min (es.countP Input.isBinding) u64Max
  cards : ∀ q ∈ r.boundRateCards, H.rateCard q.2.rateCard = q.1
  active : ∀ d, r.activeRateCard = some d →
    ∃ c, c.rateCardDigest = d ∧ H.rateCard c.rateCard = d ∧ LastBound port es c
  opened : ∀ q ∈ r.openProviderTurns, ∃ before start between, es = before ++ start :: between ∧
    FirstOpen q.1 before start between ∧ ∃ r0, journal H port l before = .ok r0 ∧ r0.opening q.2
  complete : ∀ s pre k mid, es = pre ++ k :: mid → Starts k s → (∀ m ∈ mid, ¬ Closes m s) →
    ∃ o, (s, o) ∈ r.openProviderTurns
  scopes : ∀ p, r.physical = some p → ScopesOk es p
  runs : (es.filterMap Input.subRunOf).Nodup ∧ ∀ s ∈ es.filterMap Input.subRunOf, s ∈ r.terminalSubRuns
  tasks : (es.filterMap Input.taskOf).Nodup ∧ ∀ k ∈ es.filterMap Input.taskOf, k ∈ r.workflowTasks

theorem follows_nil : Follows H port l [] { ledger := l } where
  selected := rfl
  epoch := rfl
  cards := fun _ hq => absurd hq List.not_mem_nil
  active := nofun
  opened := fun _ hq => absurd hq List.not_mem_nil
  complete := by
    intro s pre k mid h
    simp at h
  scopes := nofun
  runs := ⟨List.nodup_nil, fun _ hs => absurd hs List.not_mem_nil⟩
  tasks := ⟨List.nodup_nil, fun _ hs => absurd hs List.not_mem_nil⟩

theorem LastBound.concat {c : SignedRateCard} (h : LastBound port es c) (hi : i.isBinding = false) :
    LastBound port (es ++ [i]) c := by
  obtain ⟨pre, j, post, rfl, hj, hroute, hverify, hpost⟩ := h
  refine ⟨pre, j, post ++ [i], by simp, hj, hroute, hverify, fun k hk => ?_⟩
  rcases List.mem_append.1 hk with hk | hk
  · exact hpost k hk
  · exact List.mem_singleton.1 hk ▸ hi

theorem FirstOpen.concat {s : Scope} {before between : List Input} {start : Input} (h : FirstOpen s before start between)
    (hi : ¬ Closes i s) : FirstOpen s before start (between ++ [i]) := by
  refine ⟨h.1, fun k hk => ?_, h.2.2⟩
  rcases List.mem_append.1 hk with hk | hk
  · exact h.2.1 k hk
  · exact List.mem_singleton.1 hk ▸ hi

variable {pre : List Input}

theorem split_concat {mid : List Input} {k : Input} (h : es ++ [i] = pre ++ k :: mid) :
    (mid = [] ∧ k = i ∧ es = pre) ∨ ∃ mid', mid = mid' ++ [i] ∧ es = pre ++ k :: mid' := by
  rcases List.eq_nil_or_concat mid with rfl | ⟨mid', j, rfl⟩
  · obtain ⟨h1, h2⟩ := List.append_inj' h rfl
    exact .inl ⟨rfl, (List.singleton_inj.1 h2).symm, h1⟩
  · rw [List.concat_eq_append] at h ⊢
    have h' : es ++ [i] = (pre ++ k :: mid') ++ [j] := by rw [h]; simp
    obtain ⟨h1, h2⟩ := List.append_inj' h' rfl
    exact .inr ⟨mid', by rw [List.singleton_inj.1 h2], h1⟩

theorem nodup_concat {α : Type} {f : Input → Option α} {known known' : List α} (h : (es.filterMap f).Nodup)
    (hmem : ∀ a ∈ es.filterMap f, a ∈ known) (hnew : ∀ a, f i = some a → a ∉ known) (heq : known' = (f i).toList ++ known) :
    ((es ++ [i]).filterMap f).Nodup ∧ ∀ a ∈ (es ++ [i]).filterMap f, a ∈ known' := by
  rw [List.filterMap_append, heq]
  cases hi : f i with
  | none =>
    have hnil : [i].filterMap f = [] := by simp [hi]
    rw [hnil, List.append_nil]
    exact ⟨h, hmem⟩
  | some a =>
    have hone : [i].filterMap f = [a] := by simp [hi]
    rw [hone]
    refine ⟨?_, fun b hb => ?_⟩
    · rw [List.nodup_append]
      refine ⟨h, by simp, fun x hx y hy hxy => ?_⟩
      rw [hxy, List.mem_singleton.1 hy] at hx
      exact hnew a hi (hmem a hx)
    · rcases List.mem_append.1 hb with hb | hb
      · exact List.mem_append_right _ (hmem b hb)
      · exact List.mem_append_left _ hb

theorem lastSelected_of_ne (h : ∀ route, i.kind ≠ .modelSelected route) : lastSelected (es ++ [i]) = lastSelected es := by
  rw [lastSelected_concat]
  split
  · rename_i route hk
    exact absurd hk (h route)
  · rfl

theorem saturating_count (n : Nat) : saturatingAdd (min n u64Max) 1 = min (n + 1) u64Max := by
  unfold saturatingAdd
  omega

/-- **An accepted event keeps the replay in step with the journal.** -/
theorem follows_concat (h : Follows H port l es r) (hj : journal H port l es = .ok r)
    (ho : r.observe H (some port) i = .ok r') : Follows H port l (es ++ [i]) r' := by
  obtain ⟨hopen, hkeep, hstart⟩ := Replay.open_step ho
  obtain ⟨hruns, htasks, hruns', htasks'⟩ := Replay.terminal_step ho
  have hbinding : r'.selectedRoute = lastSelected (es ++ [i]) ∧
      r'.bindingEpoch = min ((es ++ [i]).countP Input.isBinding) u64Max ∧
      (∀ q ∈ r'.boundRateCards, H.rateCard q.2.rateCard = q.1) ∧
      ∀ d, r'.activeRateCard = some d →
        ∃ c, c.rateCardDigest = d ∧ H.rateCard c.rateCard = d ∧ LastBound port (es ++ [i]) c := by
    rw [List.countP_append, List.countP_singleton]
    rcases Replay.binding_step ho with ⟨hb, hne, hroute, hcards, hactive, hepoch⟩ |
      ⟨route, hk, hroute, hcards, hactive, hepoch⟩ | ⟨c, hk, hroute, hepoch, hcard⟩
    · rw [hroute, hcards, hactive, hepoch, lastSelected_of_ne hne, hb]
      refine ⟨h.selected, by simpa using h.epoch, h.cards, fun d hd => ?_⟩
      obtain ⟨c, hcd, hlabel, hlast⟩ := h.active d hd
      exact ⟨c, hcd, hlabel, hlast.concat hb⟩
    · have hb : i.isBinding = true := by simp [Input.isBinding, hk]
      rw [hroute, hcards, hactive, hepoch, hb, h.epoch, saturating_count]
      refine ⟨?_, rfl, h.cards, by simp⟩
      rw [lastSelected_concat]
      simp only [hk]
    · have hb : i.isBinding = true := by simp [Input.isBinding, hk]
      have hsel : lastSelected (es ++ [i]) = lastSelected es := lastSelected_of_ne (by simp [hk])
      rw [hroute, hepoch, hb, h.epoch, saturating_count, hsel]
      rcases hcard with ⟨hactive, hcards⟩ | ⟨hsel', hverify, hlabel, hcards, hactive⟩
      · rw [hactive, hcards]
        exact ⟨h.selected, rfl, h.cards, by simp⟩
      · rw [hactive, hcards]
        refine ⟨h.selected, rfl, fun q hq => ?_, fun d hd => ?_⟩
        · rcases mem_put hq with rfl | ⟨hq, -⟩
          · exact hlabel
          · exact h.cards q hq
        · cases hd
          refine ⟨c, rfl, hlabel, es, i, [], rfl, hk, h.selected ▸ hsel', hverify, ?_⟩
          exact fun k hk => absurd hk List.not_mem_nil
  obtain ⟨hsel, hepoch, hcards, hactive⟩ := hbinding
  refine ⟨hsel, hepoch, hcards, hactive, fun q hq => ?_, fun s pre k mid hsplit hk hmid => ?_,
    Replay.scopes_step ho h.scopes, nodup_concat h.runs.1 h.runs.2 hruns hruns', nodup_concat h.tasks.1 h.tasks.2 htasks htasks'⟩
  · rcases hopen q hq with ⟨hq, hnot⟩ | ⟨hs, hnone, hopening⟩
    · obtain ⟨before, start, between, rfl, hfirst, hstate⟩ := h.opened q hq
      exact ⟨before, start, between ++ [i], by simp, hfirst.concat hnot, hstate⟩
    · refine ⟨es, i, [], rfl, ⟨hs, fun k hk => absurd hk List.not_mem_nil, fun pre k mid hsplit hk => ?_⟩, r, hj, hopening⟩
      by_contra hopen'
      obtain ⟨o, ho'⟩ := h.complete q.1 pre k mid hsplit hk fun m hm hc => hopen' ⟨m, hm, hc⟩
      exact get_eq_none hnone _ ho' rfl
  · rcases split_concat hsplit with ⟨-, rfl, -⟩ | ⟨mid', rfl, hes⟩
    · exact hstart s hk
    · obtain ⟨o, ho'⟩ := h.complete s pre k mid' hes hk fun m hm => hmid m (List.mem_append_left _ hm)
      exact ⟨o, hkeep _ ho' (hmid i (by simp))⟩

theorem follows_journal (h : journal H port l es = .ok r) : Follows H port l es r := by
  induction es using List.reverseRecOn generalizing r with
  | nil =>
    obtain rfl := pure_eq_ok.1 h
    exact follows_nil
  | append_singleton es i ih =>
    obtain ⟨_, hj, ho⟩ := journal_concat.1 h
    exact follows_concat (ih hj) hj ho

/-! ## The guarantees -/

/-- The event after the prefix is a projection that moves the ledger's money. -/
def Charged (H : Hashes) (port : Port) (l : Ledger) (pre : List Input) (i : Input) (p : CostProjection) : Prop :=
  i.kind = .costProjected p ∧ ∃ r r', journal H port l pre = .ok r ∧ r.observe H (some port) i = .ok r' ∧
    r'.ledger.money ≠ r.ledger.money

theorem consumed_replay (h : Replay.replay H (some port) r fs = .ok r') :
    r.consumedProjectionIdentities ⊆ r'.consumedProjectionIdentities ∧
      r.consumedProjectionDigests ⊆ r'.consumedProjectionDigests := by
  induction fs generalizing r with
  | nil =>
    obtain rfl := pure_eq_ok.1 h
    exact ⟨List.Subset.refl _, List.Subset.refl _⟩
  | cons i fs ih =>
    rw [Replay.replay, List.foldlM_cons, bind_eq_ok] at h
    obtain ⟨_, h₁, hrest⟩ := h
    obtain ⟨hids, hdigests⟩ := Replay.consumed_step h₁
    obtain ⟨hids', hdigests'⟩ := ih hrest
    exact ⟨List.Subset.trans hids hids', List.Subset.trans hdigests hdigests'⟩

variable {p : CostProjection}

theorem charged_once {mid : List Input} {i j : Input} {q : CostProjection} (hp : Charged H port l pre i p)
    (hq : Charged H port l (pre ++ i :: mid) j q) :
    p.identity ≠ q.identity ∧ p.projectionDigest ≠ q.projectionDigest := by
  obtain ⟨hkp, r1, r1', hj1, ho1, hm1⟩ := hp
  obtain ⟨hkq, _, _, hj2, ho2, hm2⟩ := hq
  obtain ⟨-, -, hdigest, identity, hid, hmem⟩ := Replay.charge_step ho1 hkp hm1
  obtain ⟨hunused, -⟩ := Replay.charge_step ho2 hkq hm2
  have hafter : journal H port l (pre ++ [i]) = .ok r1' := journal_concat.2 ⟨r1, hj1, ho1⟩
  rw [show pre ++ i :: mid = (pre ++ [i]) ++ mid by simp] at hj2
  obtain ⟨_, h3, hrest⟩ := journal_append hj2
  cases hafter.symm.trans h3
  obtain ⟨hids, hdigests⟩ := consumed_replay hrest
  refine ⟨fun heq => ?_, fun heq => ?_⟩
  · exact hunused.1 identity (heq ▸ hid) (hids hmem)
  · exact hunused.2 (heq ▸ hdigests hdigest)

/-- What stands behind a charge: its turn's end is the event before, its first open start is still unclosed, and when
the turn has no sealed intent the binding of the start is current at the end, with its card. -/
def Grounded (port : Port) (pre : List Input) (p : CostProjection) : Prop :=
  ∃ before start between, ∃ stop : Input, pre = before ++ start :: between ++ [stop] ∧ stop.kind = .turnEnd p.usage ∧
    Names stop.scope p ∧ FirstOpen stop.scope before start between ∧
    ((∀ k ∈ before ++ start :: between, k.isSealed = true → k.scope ≠ stop.scope) →
      pre.countP Input.isBinding < u64Max →
        (∀ k ∈ between, k.isBinding = false) ∧ ∃ c, LastBound port before c ∧ p.rateCardDigest = c.rateCardDigest ∧
          ∃ card, card.rateCard = c.rateCard ∧ port.verifyProjection card p = .ok ())

theorem last_event (h : journal H port l es = .ok r) (hp : r.pendingTurn ≠ none ∨ r.pendingPhysical ≠ none) :
    ∃ pre e r0, es = pre ++ [e] ∧ journal H port l pre = .ok r0 ∧ r0.observe H (some port) e = .ok r := by
  rcases List.eq_nil_or_concat es with rfl | ⟨pre, e, rfl⟩
  · obtain rfl := pure_eq_ok.1 h
    rcases hp with hp | hp <;> exact absurd rfl hp
  · rw [List.concat_eq_append] at h ⊢
    obtain ⟨r0, hj, ho⟩ := journal_concat.1 h
    exact ⟨pre, e, r0, rfl, hj, ho⟩

theorem charged_grounded {i : Input} (hinj : Function.Injective H.rateCard) (h : Charged H port l pre i p) :
    Grounded port pre p := by
  obtain ⟨hk, r, _, hj, ho, hm⟩ := h
  obtain ⟨-, hmatch, -⟩ := Replay.charge_step ho hk hm
  have hfol := follows_journal hj
  rcases hmatch with ⟨pending, hpending, husage, hnames, hdigest, card, hget, hverify⟩ |
    ⟨proof, bound, hproof, hmem, husage⟩
  · obtain ⟨pre', e, r0, rfl, hj0, ho0⟩ := last_event hj (.inl (by rw [hpending]; simp))
    obtain ⟨hend, o, hopen, hepoch, hcard, hscope⟩ := (Replay.pending_step ho0).1 pending hpending
    have hfol0 := follows_journal hj0
    obtain ⟨before, start, between, rfl, hfirst, _, hj1, _, hcard1, hepoch1⟩ := hfol0.opened _ hopen
    refine ⟨before, start, between, e, rfl, husage ▸ hend, hscope ▸ hnames, hfirst, fun _ hfew => ?_⟩
    have hfol1 := follows_journal hj1
    obtain ⟨c, hcd, hlabel, hlast⟩ := hfol1.active p.rateCardDigest (by rw [← hcard1, ← hcard, hdigest])
    refine ⟨?_, c, hlast, hcd.symm, card, ?_, hverify⟩
    · -- the epochs agree, and neither is saturated, so no binding lies between
      have hcount := hepoch1.symm.trans hepoch
      rw [hfol1.epoch, hfol0.epoch] at hcount
      simp only [List.countP_append, List.countP_cons, List.countP_nil] at hcount hfew
      have hzero : between.countP Input.isBinding = 0 := by omega
      exact fun k hk => by simpa using List.countP_eq_zero.1 hzero k hk
    · have hbound := hfol.cards _ (mem_of_get hget)
      exact hinj (hbound.trans hlabel.symm)
  · obtain ⟨pre', e, r0, rfl, hj0, ho0⟩ := last_event hj (.inr (by rw [hproof]; simp))
    obtain ⟨hend, ⟨o, hopen⟩, ph, hph, hcand⟩ := (Replay.pending_step ho0).2 proof hproof
    have hfol0 := follows_journal hj0
    obtain ⟨before, start, between, rfl, hfirst, -⟩ := hfol0.opened _ hopen
    obtain ⟨_, hsc, hknown⟩ := hcand _ hmem
    obtain ⟨⟨j, hjmem, hsealed, hjscope⟩, hall⟩ := hfol0.scopes ph hph _ hsc
    refine ⟨before, start, between, e, rfl, husage ▸ hend, hall _ hknown, hfirst, fun hnone _ => ?_⟩
    exact absurd hjscope (hnone j hjmem hsealed)

/-- **A journal accepted whole charges each turn once and under its own binding.**  No two charges share an identity or
a digest; each is grounded in the end and the first open start of the turn its identity names; and the metrics of each
child run and of each workflow task are merged once. -/
theorem replay_charges_faithful (H : Hashes) (port : Port) (l : Ledger) (es : List Input) (r : Replay)
    (hinj : Function.Injective H.rateCard) (h : journal H port l es = .ok r) :
    (∀ pre i mid j post p q, es = pre ++ i :: mid ++ j :: post → Charged H port l pre i p →
        Charged H port l (pre ++ i :: mid) j q → p.identity ≠ q.identity ∧ p.projectionDigest ≠ q.projectionDigest) ∧
      (∀ pre i post p, es = pre ++ i :: post → Charged H port l pre i p → Grounded port pre p) ∧
      (es.filterMap Input.subRunOf).Nodup ∧ (es.filterMap Input.taskOf).Nodup := by
  have hfol := follows_journal h
  refine ⟨?_, ?_, hfol.runs.1, hfol.tasks.1⟩
  · intro pre i mid j post p q _ hp hq
    exact charged_once hp hq
  · intro pre i post p _ hp
    exact charged_grounded hinj hp

/-! ## Concrete journals -/

def someRoute : PricingRoute where
  providerId := "p"
  modelId := "m"
  catalogDigest := "sha256:0000000000000000000000000000000000000000000000000000000000000000"
  capabilityDigest := "sha256:0000000000000000000000000000000000000000000000000000000000000000"

def someCard : SignedRateCard where
  rateCard :=
    { route := someRoute
      provenance := "manifest"
      issuedAtUnixSecs := 0
      expiresAtUnixSecs := 9
      rates := ⟨1, 1, 1, 1, 1⟩ }
  signerId := "s"
  rateCardDigest := "sha256:aaaaaaaaaaaaaaaaaaaaaaaaaaaaaaaaaaaaaaaaaaaaaaaaaaaaaaaaaaaaaaaa"
  signature := "hmac-sha256:0000000000000000000000000000000000000000000000000000000000000000"

def someProjection : CostProjection where
  identity := some { tenantId := "t", runId := "r", turnId := 1, providerAttempt := 1, attribution := none }
  route := someRoute
  usage := { input := 1 }
  amountMicrousd := 7
  projectedAtUnixSecs := 3
  rateCardDigest := "sha256:aaaaaaaaaaaaaaaaaaaaaaaaaaaaaaaaaaaaaaaaaaaaaaaaaaaaaaaaaaaaaaaa"
  signerId := "s"
  projectionDigest := "sha256:bbbbbbbbbbbbbbbbbbbbbbbbbbbbbbbbbbbbbbbbbbbbbbbbbbbbbbbbbbbbbbbb"
  signature := "hmac-sha256:0000000000000000000000000000000000000000000000000000000000000000"

def laterProjection : CostProjection :=
  { someProjection with
    identity := some { tenantId := "t", runId := "r", turnId := 1, providerAttempt := 2, attribution := none }
    projectionDigest := "sha256:cccccccccccccccccccccccccccccccccccccccccccccccccccccccccccccccc" }

def CostProjection.content (p : CostProjection) : CostProjection := { p with projectionDigest := "", signature := "" }

theorem countable_rateCard : Countable RateCard := by
  have hchar : Countable Char :=
    Function.Injective.countable (f := Char.toNat) fun _ _ h => Char.ext (UInt32.toNat_inj.1 h)
  have hstring : Countable String :=
    Function.Injective.countable (f := String.toList) fun _ _ h => String.toList_inj.1 h
  have hinj : Function.Injective (fun c : RateCard =>
      (c.route.providerId, c.route.modelId, c.route.catalogDigest, c.route.capabilityDigest, c.provenance,
        c.issuedAtUnixSecs, c.expiresAtUnixSecs, c.rates.inputMicrousdPerMillion, c.rates.outputMicrousdPerMillion,
        c.rates.cacheCreationMicrousdPerMillion, c.rates.cacheReadMicrousdPerMillion,
        c.rates.thinkingMicrousdPerMillion)) := by
    rintro ⟨⟨_, _, _, _⟩, _, _, _, ⟨_, _, _, _, _⟩⟩ ⟨⟨_, _, _, _⟩, _, _, _, ⟨_, _, _, _, _⟩⟩ h
    obtain ⟨rfl, rfl, rfl, rfl, rfl, rfl, rfl, rfl, rfl, rfl, rfl, rfl⟩ := h
    rfl
  exact hinj.countable

/-- Labels that tell all rate cards apart, with the digests of the card and the projections above. -/
noncomputable def someHashes : Hashes where
  rateCard := fun c =>
    if c = someCard.rateCard then someCard.rateCardDigest
    else .ofList (List.replicate (Classical.choose countable_rateCard.exists_injective_nat c + 100) 'x')
  projection := fun p =>
    if p.content = someProjection.content then someProjection.projectionDigest
    else if p.content = laterProjection.content then laterProjection.projectionDigest
    else ""
  route := fun _ => "sha256:0000000000000000000000000000000000000000000000000000000000000000"
  cardSet := fun _ => ""

theorem someHashes_injective : Function.Injective someHashes.rateCard := by
  have hother : ∀ n, someCard.rateCardDigest ≠ String.ofList (List.replicate (n + 100) 'x') := by
    intro n h
    have hlen := congrArg (fun s => s.toList.length) h
    simp only [String.toList_ofList, List.length_replicate] at hlen
    have hsize : someCard.rateCardDigest.toList.length = 71 := by simp [someCard]
    omega
  intro c d h
  simp only [someHashes] at h
  split at h
  · rename_i hc
    split at h
    · rename_i hd
      exact hc.trans hd.symm
    · exact absurd h (hother _)
  · split at h
    · exact absurd h.symm (hother _)
    · have hlen := congrArg (fun s => s.toList.length) h
      simp only [String.toList_ofList, List.length_replicate, Nat.add_right_cancel_iff] at hlen
      exact Classical.choose_spec countable_rateCard.exists_injective_nat hlen

def somePort : Port where
  verifyRateCard := fun _ => .ok ()
  verifyProjection := fun _ _ => .ok ()
  verifyProjectionByDigest := fun _ => .ok ()

def event (turn : Nat) (kind : EventKind) : Input := { tenant := "t", run := "r", turn, kind }

def oneTurn : List Input :=
  [event 0 (.modelSelected someRoute), event 0 (.rateCardBound someCard), event 1 .turnStart,
    event 1 (.turnEnd { input := 1 })]

/-- A start whose opening a sealed intent of the next turn retires, and a second start under another binding. -/
def restarted : List Input :=
  [event 1 .turnStart, event 2 (.effectIntent "e" "provider" (some (some 3)) (some ⟨"sha256:0000000000000000000000000000000000000000000000000000000000000000", 1, none⟩)),
    event 0 (.modelSelected someRoute), event 0 (.rateCardBound someCard), event 1 .turnStart,
    event 1 (.turnEnd { input := 1 })]

/-- So many selections that the epoch no longer moves, and then one more inside a turn. -/
def saturated : List Input :=
  List.replicate u64Max (event 0 (.modelSelected someRoute)) ++
    [event 0 (.rateCardBound someCard), event 1 .turnStart, event 0 (.modelSelected someRoute),
      event 1 (.turnEnd { input := 1 })]

/-- Whether the event moves the money of the replay. -/
noncomputable def moves (r : Replay) (i : Input) : Option Bool :=
  (r.observe someHashes (some somePort) i).toOption.map fun r' => decide (r'.ledger.money ≠ r.ledger.money)

theorem charged_of_moves {i : Input} (hk : i.kind = .costProjected p)
    (h : (journal someHashes somePort {} pre).toOption.bind (moves · i) = some true) :
    Charged someHashes somePort {} pre i p := by
  obtain ⟨r, hr, hm⟩ := Option.bind_eq_some_iff.1 h
  obtain ⟨r', hr', hd⟩ := Option.map_eq_some_iff.1 hm
  exact ⟨hk, r, r', toOption_eq_some.1 hr, toOption_eq_some.1 hr', of_decide_eq_true hd⟩

theorem journals_move : ((journal someHashes somePort {} oneTurn).toOption.bind
        (moves · { event 1 (.costProjected someProjection) with run := "r" }) = some true ∧
      (journal someHashes somePort {} oneTurn).toOption.bind
        (moves · { event 1 (.costProjected someProjection) with run := "other" }) = some true) ∧
    (journal someHashes somePort {} restarted).toOption.bind (moves · (event 1 (.costProjected laterProjection))) =
      some true ∧ (Replay.replay someHashes (some somePort) { selectedRoute := some someRoute, bindingEpoch := u64Max }
      [event 0 (.rateCardBound someCard), event 1 .turnStart, event 0 (.modelSelected someRoute),
        event 1 (.turnEnd { input := 1 })]).toOption.bind (moves · (event 1 (.costProjected someProjection))) =
      some true := by
  decide +kernel

theorem journal_replicate (n : Nat) :
    journal someHashes somePort {} (List.replicate (n + 1) (event 0 (.modelSelected someRoute))) =
      .ok { selectedRoute := some someRoute, bindingEpoch := min (n + 1) u64Max } := by
  induction n with
  | zero => rfl
  | succ n ih =>
    rw [List.replicate_succ', journal_concat]
    refine ⟨_, ih, ?_⟩
    rw [← saturating_count (n + 1)]
    rfl

theorem saturated_moves :
    (journal someHashes somePort {} saturated).toOption.bind (moves · (event 1 (.costProjected someProjection))) =
      some true := by
  have hfirst : journal someHashes somePort {} (List.replicate u64Max (event 0 (.modelSelected someRoute))) =
      .ok { selectedRoute := some someRoute, bindingEpoch := u64Max } := journal_replicate (u64Max - 1)
  have hall : journal someHashes somePort {} saturated = Replay.replay someHashes (some somePort)
      { selectedRoute := some someRoute, bindingEpoch := u64Max }
      [event 0 (.rateCardBound someCard), event 1 .turnStart, event 0 (.modelSelected someRoute),
        event 1 (.turnEnd { input := 1 })] := by
    unfold saturated journal Replay.replay
    rw [List.foldlM_append]
    exact congrArg (· >>= _) hfirst
  rw [hall]
  exact journals_move.2.2

/-- A projection fed under another run is charged; a turn whose opening was retired is charged with its first start
under another binding; and past the last epoch a binding inside the turn goes unnoticed. -/
theorem not_bound_as_fed :
    (∃ pre i p stop, Charged someHashes somePort {} pre i p ∧ pre.getLast? = some stop ∧ stop.scope ≠ i.scope) ∧
      (∃ start between stop i p, Charged someHashes somePort {} (start :: between ++ [stop]) i p ∧
        Starts start stop.scope ∧ (∀ k ∈ between, (∃ u, k.kind = .turnEnd u) → k.scope ≠ stop.scope) ∧
        (∀ k ∈ start :: between, k.isSealed = true → k.scope ≠ stop.scope) ∧ ∃ k ∈ between, k.isBinding = true) ∧
      ∃ before start between stop i p, Charged someHashes somePort {} (before ++ start :: between ++ [stop]) i p ∧
        FirstOpen stop.scope before start between ∧ (∀ k ∈ before ++ start :: between, k.isSealed = false) ∧
        ∃ k ∈ between, k.isBinding = true := by
  refine ⟨?_, ?_, ?_⟩
  · exact ⟨oneTurn, _, someProjection, event 1 (.turnEnd { input := 1 }),
      charged_of_moves rfl journals_move.1.2, rfl, by decide⟩
  · refine ⟨event 1 .turnStart, restarted.tail.dropLast, event 1 (.turnEnd { input := 1 }), _, laterProjection,
      charged_of_moves rfl journals_move.2.1, ⟨rfl, rfl⟩, ?_, ?_, event 0 (.modelSelected someRoute), ?_, rfl⟩
    · simp [restarted, event]
    · simp [restarted, event, Input.isSealed, Input.scope]
    · simp [restarted]
  · have hsplit : saturated =
        (List.replicate u64Max (event 0 (.modelSelected someRoute)) ++ [event 0 (.rateCardBound someCard)]) ++
          event 1 .turnStart :: [event 0 (.modelSelected someRoute)] ++ [event 1 (.turnEnd { input := 1 })] := by
      simp only [saturated, List.append_assoc, List.cons_append, List.nil_append]
    have hbefore : ∀ k ∈ List.replicate u64Max (event 0 (.modelSelected someRoute)) ++ [event 0 (.rateCardBound someCard)],
        k.kind = .modelSelected someRoute ∨ k.kind = .rateCardBound someCard := by
      intro k hk
      rcases List.mem_append.1 hk with hk | hk
      · exact .inl (List.eq_of_mem_replicate hk ▸ rfl)
      · exact .inr (List.mem_singleton.1 hk ▸ rfl)
    have hcharged : Charged someHashes somePort {} saturated (event 1 (.costProjected someProjection)) someProjection :=
      charged_of_moves rfl saturated_moves
    rw [hsplit] at hcharged
    refine ⟨_, _, _, _, _, _, hcharged, ⟨⟨rfl, rfl⟩, ?_, ?_⟩, ?_, event 0 (.modelSelected someRoute),
      List.mem_cons_self, rfl⟩
    · intro k hk
      obtain rfl := List.mem_singleton.1 hk
      rintro (⟨⟨u, hu⟩, -⟩ | ⟨hs, -⟩)
      · cases hu
      · cases hs
    · intro pre k mid heq hs
      have hk := hbefore k (by rw [heq]; simp)
      rw [hs.1] at hk
      rcases hk with hk | hk <;> cases hk
    · intro k hk
      rcases List.mem_append.1 hk with hk | hk
      · rcases hbefore k hk with h | h <;> simp [Input.isSealed, h]
      · simp only [List.mem_cons, List.not_mem_nil, or_false] at hk
        rcases hk with rfl | rfl <;> rfl

/-- The charge of one turn is grounded in its own start, its own end and the card bound before it. -/
theorem replay_charges_faithful_oneTurn :
    Charged someHashes somePort {} oneTurn (event 1 (.costProjected someProjection)) someProjection ∧
      Grounded somePort oneTurn someProjection := by
  have hcharged : Charged someHashes somePort {} oneTurn (event 1 (.costProjected someProjection)) someProjection :=
    charged_of_moves rfl journals_move.1.1
  have ⟨_, r, r', hj, ho, _⟩ := hcharged
  have hall : journal someHashes somePort {} (oneTurn ++ [event 1 (.costProjected someProjection)]) = .ok r' :=
    journal_concat.2 ⟨r, hj, ho⟩
  refine ⟨hcharged, ?_⟩
  exact (replay_charges_faithful someHashes somePort {} _ r' someHashes_injective hall).2.1 oneTurn _ [] someProjection rfl
    hcharged

end Iteron.Cost
