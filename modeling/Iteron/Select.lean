import Mathlib.Data.List.MinMax
import Mathlib.Data.Prod.Lex
/-!
# Select — choosing among candidate patches

`select` keeps the first copy of each content, drops what a strong oracle failed and takes the strongest of the rest.  What
was said of the later copies is dropped with them: a patch may be chosen that a strong oracle failed as another copy.
-/
namespace Iteron.Select

inductive OracleStrength where
  | weakest | weak | medium | strong
  deriving DecidableEq

def OracleStrength.mayVeto (s : OracleStrength) : Bool := s == .strong

structure Candidate where
  content : String
  verdicts : List (OracleStrength × Bool)
  isCorrectOracle : Option Bool

namespace Candidate

def vetoed (c : Candidate) : Bool := c.verdicts.any (fun v => v.1.mayVeto && !v.2)

/-- Net verdicts of each tier, compared in the order of the tiers. -/
def strengthKey (c : Candidate) : ℤ ×ₗ ℤ ×ₗ ℤ :=
  let (strong, medium, weak) := c.verdicts.foldl (fun (net : ℤ × ℤ × ℤ) v =>
    let delta := if v.2 then 1 else -1
    match v.1 with
    | .strong => (net.1 + delta, net.2)
    | .medium => (net.1, net.2.1 + delta, net.2.2)
    | .weak => (net.1, net.2.1, net.2.2 + delta)
    | .weakest => net) (0, 0, 0)
  toLex (strong, toLex (medium, weak))

end Candidate

structure Selection where
  chosen : Option Nat
  deduped : List Candidate
  ceiling : Bool
  resolved : Bool

variable (digest : String → String)

/-- The loop over the candidates; `seen` are the digests of those kept so far. -/
def dedup : List String → List Candidate → List Candidate
  | _, [] => []
  | seen, c :: cs =>
    if digest c.content ∈ seen then dedup seen cs else c :: dedup (digest c.content :: seen) cs

-- the order that Mathlib finds first does not compute
local instance integerOrder : Preorder ℤ := Int.instLinearOrder.toPreorder

/-- The order of `max_by`: the strength, and of equal strengths the lower index is the greater. -/
def rank (p : Candidate × Nat) : (ℤ ×ₗ ℤ ×ₗ ℤ) ×ₗ ℕᵒᵈ := toLex (p.1.strengthKey, OrderDual.toDual p.2)

/-- `digest` is the SHA-256 of the content, in hex. -/
def select (candidates : List Candidate) : Selection :=
  let deduped := dedup digest [] candidates
  let live := deduped.zipIdx.filter (fun p => !p.1.vetoed)
  let chosen := live.argmax rank
  { chosen := chosen.map Prod.snd
    deduped := deduped
    ceiling := deduped.any (fun c => c.isCorrectOracle == some true)
    resolved := chosen.any (fun p => p.1.isCorrectOracle == some true) }

/-! ## First copies -/

/-- `a` is the first candidate of its content, behind the candidates `before`. -/
def FirstCopy (cs before : List Candidate) (a : Candidate) : Prop :=
  ∃ after, cs = before ++ a :: after ∧ ∀ x ∈ before, x.content ≠ a.content

variable {digest} {seen : List String} {cs p p' : List Candidate} {a b c : Candidate} {i : Nat}

theorem mem_of_first (h : FirstCopy cs p a) : a ∈ cs := by
  obtain ⟨_, rfl, -⟩ := h
  simp

theorem exists_first (h : c ∈ cs) : ∃ p a, FirstCopy cs p a ∧ a.content = c.content := by
  induction cs with
  | nil => cases h
  | cons x cs ih =>
    by_cases hx : x.content = c.content
    · exact ⟨[], x, ⟨cs, rfl, by simp⟩, hx⟩
    · obtain ⟨p, a, ⟨after, rfl, hp⟩, ha⟩ := ih ((List.mem_cons.1 h).resolve_left (fun heq => hx (by rw [heq])))
      exact ⟨x :: p, a, ⟨after, rfl, List.forall_mem_cons.2 ⟨by rwa [ha], hp⟩⟩, ha⟩

theorem first_of_dedup (h : (dedup digest seen cs)[i]? = some a) :
    ∃ p, FirstCopy cs p a ∧ (dedup digest seen p).length = i ∧ digest a.content ∉ seen := by
  induction cs generalizing seen i with
  | nil => simp [dedup] at h
  | cons x cs ih =>
    rw [dedup] at h
    split at h
    · rename_i hx
      obtain ⟨p, ⟨after, rfl, hp⟩, hi, hnew⟩ := ih h
      refine ⟨x :: p, ⟨after, rfl, List.forall_mem_cons.2 ⟨fun heq => hnew (heq ▸ hx), hp⟩⟩, ?_, hnew⟩
      rw [dedup, if_pos hx, hi]
    · rename_i hx
      cases i with
      | zero =>
        cases h
        exact ⟨[], ⟨cs, rfl, by simp⟩, rfl, hx⟩
      | succ i =>
        obtain ⟨p, ⟨after, rfl, hp⟩, hi, hnew⟩ := ih h
        obtain ⟨hne, hnew⟩ := not_or.1 (mt List.mem_cons.2 hnew)
        refine ⟨x :: p, ⟨after, rfl, List.forall_mem_cons.2 ⟨fun heq => hne (by rw [heq]), hp⟩⟩, ?_, hnew⟩
        rw [dedup, if_neg hx, List.length_cons, hi]

theorem mem_live : (a, i) ∈ (dedup digest [] cs).zipIdx.filter (fun p => !p.1.vetoed) ↔
    (dedup digest [] cs)[i]? = some a ∧ a.vetoed = false := by
  simp [List.mem_filter, List.mk_mem_zipIdx_iff_getElem?]

theorem vetoed_iff : c.vetoed = true ↔ (.strong, false) ∈ c.verdicts := by
  simp [Candidate.vetoed, OracleStrength.mayVeto]

section

variable (hsha : Function.Injective digest)
include hsha

theorem dedup_first (h : FirstCopy cs p a) (hnew : digest a.content ∉ seen) :
    (dedup digest seen cs)[(dedup digest seen p).length]? = some a := by
  obtain ⟨after, rfl, hp⟩ := h
  induction p generalizing seen with
  | nil => simp [dedup, hnew]
  | cons x p ih =>
    obtain ⟨hx, hp⟩ := List.forall_mem_cons.1 hp
    simp only [List.cons_append, dedup]
    split
    · exact ih hnew hp
    · refine ih (fun hmem => ?_) hp
      rcases List.mem_cons.1 hmem with heq | hmem
      · exact hx (hsha heq).symm
      · exact hnew hmem

theorem dedup_lt (ha : FirstCopy cs p a) (hb : FirstCopy cs p' b) (h : p.length < p'.length) :
    (dedup digest [] p).length < (dedup digest [] p').length := by
  obtain ⟨after, hcs, hp⟩ := ha
  obtain ⟨_, hcs', -⟩ := hb
  have hpart : p ++ [a] <+: cs := ⟨after, by simp [hcs]⟩
  obtain ⟨mid, rfl⟩ := List.prefix_of_prefix_length_le hpart ⟨_, hcs'.symm⟩ (by rwa [List.length_append])
  have hfirst : FirstCopy (p ++ [a] ++ mid) p a := ⟨mid, by simp, hp⟩
  exact (List.getElem?_eq_some_iff.1 (dedup_first hsha hfirst List.not_mem_nil)).1

theorem dedup_le_iff (ha : FirstCopy cs p a) (hb : FirstCopy cs p' b) :
    (dedup digest [] p).length ≤ (dedup digest [] p').length ↔ p.length ≤ p'.length := by
  rcases Nat.lt_trichotomy p.length p'.length with h | h | h
  · exact iff_of_true (dedup_lt hsha ha hb h).le h.le
  · obtain ⟨_, hcs, -⟩ := ha
    obtain ⟨_, hcs', -⟩ := hb
    rw [(List.append_inj (hcs.symm.trans hcs') h).1, iff_true_right le_rfl]
  · exact iff_of_false (dedup_lt hsha hb ha h).not_ge h.not_ge

/-! ## The choice -/

/-- A first copy without a veto that outranks every other such copy. -/
def Wins (cs before : List Candidate) (a : Candidate) : Prop :=
  FirstCopy cs before a ∧ a.vetoed = false ∧ ∀ before' b, FirstCopy cs before' b → b.vetoed = false →
    rank (b, before'.length) ≤ rank (a, before.length)

theorem rank_dedup (ha : FirstCopy cs p a) (hb : FirstCopy cs p' b) :
    rank (b, (dedup digest [] p').length) ≤ rank (a, (dedup digest [] p).length) ↔
      rank (b, p'.length) ≤ rank (a, p.length) := by
  rw [Prod.Lex.le_iff, Prod.Lex.le_iff]
  exact or_congr_right (and_congr_right_iff.2 fun _ => dedup_le_iff hsha ha hb)

theorem chosen_iff : (∃ i, (select digest cs).chosen = some i ∧
    (select digest cs).deduped[i]? = some a) ↔ ∃ p, Wins cs p a := by
  constructor
  · rintro ⟨i, hchosen, hget⟩
    obtain ⟨⟨x, _⟩, hmax, rfl⟩ := Option.map_eq_some_iff.1 hchosen
    obtain ⟨hx, hlive⟩ := mem_live.1 (List.argmax_mem hmax)
    cases hx.symm.trans hget
    obtain ⟨p, hp, rfl, -⟩ := first_of_dedup hx
    refine ⟨p, hp, hlive, fun p' b hp' hb => ?_⟩
    exact (rank_dedup hsha hp hp').1 (List.le_of_mem_argmax (mem_live.2 ⟨dedup_first hsha hp' List.not_mem_nil, hb⟩) hmax)
  · rintro ⟨p, hp, hlive, hwins⟩
    have hget := dedup_first hsha hp List.not_mem_nil
    have hmem := mem_live.2 ⟨hget, hlive⟩
    cases hmax : ((dedup digest [] cs).zipIdx.filter (fun p => !p.1.vetoed)).argmax rank with
    | none =>
      rw [List.argmax_eq_none.1 hmax] at hmem
      cases hmem
    | some q =>
      obtain ⟨x, j⟩ := q
      obtain ⟨hx, hxlive⟩ := mem_live.1 (List.argmax_mem hmax)
      obtain ⟨p', hp', rfl, -⟩ := first_of_dedup hx
      -- the ranks agree, and with them the places
      have hrank := le_antisymm ((rank_dedup hsha hp hp').2 (hwins p' x hp' hxlive)) (List.le_of_mem_argmax hmem hmax)
      have heq : (dedup digest [] p').length = (dedup digest [] p).length := congrArg (fun r => (ofLex r).2) hrank
      refine ⟨_, ?_, hget⟩
      rw [← heq, select, hmax]
      rfl

theorem vetoed_of_none (h : (select digest cs).chosen = none) (ha : FirstCopy cs p a) : a.vetoed = true := by
  refine Classical.byContradiction (fun hveto => ?_)
  have hmem := mem_live.2 ⟨dedup_first hsha ha List.not_mem_nil, (Bool.not_eq_true _).mp hveto⟩
  rw [List.argmax_eq_none.1 (Option.map_eq_none_iff.1 h)] at hmem
  cases hmem

theorem ceiling_iff : (select digest cs).ceiling = true ↔ ∃ p a, FirstCopy cs p a ∧ a.isCorrectOracle = some true := by
  simp only [select, List.any_eq_true, beq_iff_eq]
  constructor
  · rintro ⟨a, hmem, hcorrect⟩
    obtain ⟨i, hi⟩ := List.getElem?_of_mem hmem
    obtain ⟨p, hp, -⟩ := first_of_dedup hi
    exact ⟨p, a, hp, hcorrect⟩
  · rintro ⟨p, a, hp, hcorrect⟩
    exact ⟨a, List.mem_of_getElem? (dedup_first hsha hp List.not_mem_nil), hcorrect⟩

/-- A patch that a strong oracle failed is never selected, nothing is selected only if every patch was failed so, and the
ceiling is reached exactly when a candidate is correct. -/
def SelectsSafely (digest : String → String) (cs : List Candidate) : Prop :=
  (∀ i a, (select digest cs).chosen = some i → (select digest cs).deduped[i]? = some a →
    ∀ c ∈ cs, c.content = a.content → (.strong, false) ∉ c.verdicts) ∧
  ((select digest cs).chosen = none → ∀ c ∈ cs, ∃ c' ∈ cs, c'.content = c.content ∧ (.strong, false) ∈ c'.verdicts) ∧
  ((select digest cs).ceiling = true ↔ ∃ c ∈ cs, c.isCorrectOracle = some true)

/-- **The first copy decides for all.**  `select` does what is asked of it exactly when no other copy of the winning first
copy was failed by a strong oracle, and a correct candidate, if there is one, is found among the first copies. -/
theorem selects_safely_iff : SelectsSafely digest cs ↔
    (∀ before a, Wins cs before a → ∀ c ∈ cs, c.content = a.content → (.strong, false) ∉ c.verdicts) ∧
    ((∃ c ∈ cs, c.isCorrectOracle = some true) → ∃ before a, FirstCopy cs before a ∧ a.isCorrectOracle = some true) := by
  constructor
  · rintro ⟨hsafe, -, hceiling⟩
    refine ⟨fun p a hwins => ?_, fun hcorrect => (ceiling_iff hsha).1 (hceiling.2 hcorrect)⟩
    obtain ⟨i, hi, ha⟩ := (chosen_iff hsha).2 ⟨p, hwins⟩
    exact hsafe i a hi ha
  · rintro ⟨hwins, hfirst⟩
    refine ⟨fun i a hi ha => ?_, fun hnone c hc => ?_, fun h => ?_, fun h => (ceiling_iff hsha).2 (hfirst h)⟩
    · obtain ⟨p, hp⟩ := (chosen_iff hsha).1 ⟨i, hi, ha⟩
      exact hwins p a hp
    · obtain ⟨p, a, ha, hcontent⟩ := exists_first hc
      exact ⟨a, mem_of_first ha, hcontent, vetoed_iff.1 (vetoed_of_none hsha hnone ha)⟩
    · obtain ⟨p, a, ha, hcorrect⟩ := (ceiling_iff hsha).1 h
      exact ⟨a, mem_of_first ha, hcorrect⟩

end

/-- The digest of `a`, and texts that are no digest for the rest. -/
def sampleDigest (text : String) : String :=
  if text = "a" then "ca978112ca1bbdcafac231b39a23dc4da786eff8147c4e72b9807785afee48bb" else "-" ++ text

theorem sampleDigest_injective : Function.Injective sampleDigest := by
  intro x y h
  have h := congrArg String.toList h
  unfold sampleDigest at h
  split at h <;> split at h <;> simp_all [String.toList_inj]

/-- The same patch twice, once passed and once failed by the tests, and once marked as correct. -/
def flaky : List Candidate := [⟨"a", [(.strong, true)], none⟩, ⟨"a", [(.strong, false)], some true⟩]

theorem selects_safely_iff_repeated :
    SelectsSafely sampleDigest [⟨"a", [(.strong, true)], some true⟩, ⟨"a", [(.weak, false)], none⟩] := by
  refine (selects_safely_iff sampleDigest_injective).2 ⟨fun _ _ _ c hc _ => ?_, fun _ => ⟨[], _, ⟨_, rfl, by simp⟩, rfl⟩⟩
  rcases List.mem_pair.1 hc with rfl | rfl <;> simp

theorem not_selects_safely : (select sampleDigest flaky).chosen = some 0 ∧ (select sampleDigest flaky).ceiling = false ∧
    ¬ SelectsSafely sampleDigest flaky := by
  have hchosen : (select sampleDigest flaky).chosen = some 0 := by
    simp [select, dedup, flaky, sampleDigest]
    exact ⟨_, rfl⟩
  refine ⟨hchosen, ?_, fun h => ?_⟩
  · simp [select, dedup, flaky, sampleDigest]
  · exact h.1 0 ⟨"a", [(.strong, true)], none⟩ hchosen (by simp [select, dedup, flaky, sampleDigest])
      ⟨"a", [(.strong, false)], some true⟩ (by simp [flaky]) rfl (by simp)

end Iteron.Select
