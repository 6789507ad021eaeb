import Iteron.PluginCompose
import Iteron.Prune
import Mathlib.Order.Bounds.Basic
/-!
# PluginAdmit — which manifests take part in a merge

The dependency loop is a pruning of the eligible manifests, so what it leaves is the greatest supported set
(`admit_greatest`).  It reads the manifests only through their ids, so a permuted list is admitted and refused alike
(`admit_perm`), and what is left once the refused are deleted is admitted as it stands (`admit_deleted`).
-/
namespace Iteron.Plugin

open Refuse Prune

def Unique (l : List Manifest) : Prop := (l.map (fun m => m.plugin)).Nodup

variable {l : List Manifest}

theorem Unique.eq (h : Unique l) {m n : Manifest} (hm : m ∈ l) (hn : n ∈ l) (heq : m.plugin = n.plugin) :
    m = n := List.inj_on_of_nodup_map h hm hn heq

theorem Unique.filter (h : Unique l) (p : Manifest → Bool) : Unique (l.filter p) :=
  List.Nodup.sublist (List.filter_sublist.map _) h

theorem Unique.perm {l' : List Manifest} (h : Unique l) (hp : l.Perm l') : Unique l' := (hp.map _).nodup_iff.1 h

section Dependencies

variable {A A' : List Manifest} {m : Manifest} {p : String} {v : Version}

theorem versionsOf_foldl : ∀ {A : List Manifest} {t : Std.ExtTreeMap String Version compare},
    Unique A → ((A.foldl (fun t m => t.insert m.plugin m.version) t)[p]? = some v ↔
      (∃ m ∈ A, m.plugin = p ∧ m.version = v) ∨ (∀ m ∈ A, m.plugin ≠ p) ∧ t[p]? = some v)
  | [], t, _ => by simp
  | m :: A, t, h => by
    have hA : Unique A := (List.nodup_cons.1 h).2
    have hm : ∀ n ∈ A, n.plugin ≠ m.plugin := fun n hn heq =>
      (List.nodup_cons.1 h).1 (List.mem_map.2 ⟨n, hn, heq⟩)
    rw [List.foldl_cons, versionsOf_foldl hA, Table.get_insert]
    by_cases hp : m.plugin = p
    · subst hp
      have hnone : ¬ ∃ n ∈ A, n.plugin = m.plugin ∧ n.version = v := fun ⟨n, hn, heq, _⟩ => hm n hn heq
      rw [if_pos rfl, or_iff_right hnone, Option.some.injEq]
      constructor
      · intro hv
        exact .inl ⟨m, .head _, rfl, hv.2⟩
      · rintro (⟨n, hn, heq, hv⟩ | ⟨hne, _⟩)
        · rcases List.mem_cons.1 hn with rfl | hn
          · exact ⟨hm, hv⟩
          · exact absurd heq (hm n hn)
        · exact absurd rfl (hne m (.head _))
    · simp [hp]

theorem versionsOf_get (h : Unique A) : (versionsOf A)[p]? = some v ↔ ∃ m ∈ A, m.plugin = p ∧ m.version = v := by
  rw [versionsOf, versionsOf_foldl h]
  simp

theorem versionsOf_perm (h : Unique A) (hp : A.Perm A') : versionsOf A = versionsOf A' := by
  refine Std.ExtTreeMap.ext_getElem? (fun p => Option.ext (fun v => ?_))
  rw [versionsOf_get h, versionsOf_get (h.perm hp)]
  simp only [hp.mem_iff]

theorem dependencyDefect_perm (h : Unique A) (hp : A.Perm A') : dependencyDefect A = dependencyDefect A' := by
  funext m
  rw [dependencyDefect, dependencyDefect, versionsOf_perm h hp]

theorem dependencyDefect_eq_none (h : Unique A) : dependencyDefect A m = none ↔
    ∀ r ∈ m.requires, ∃ n ∈ A, n.plugin = r.plugin ∧ n.version.lt r.minimum = false := by
  rw [dependencyDefect, List.findSome?_eq_none_iff]
  refine forall₂_congr (fun r _ => ?_)
  unfold requirementDefect
  cases hv : (versionsOf A)[r.plugin]? with
  | none =>
    simp only [reduceCtorEq, false_iff]
    rintro ⟨n, hn, hid, _⟩
    rw [(versionsOf_get h).2 ⟨n, hn, hid, rfl⟩] at hv
    cases hv
  | some _ =>
    obtain ⟨n, hn, hid, rfl⟩ := (versionsOf_get h).1 hv
    constructor
    · intro hdefect
      refine ⟨n, hn, hid, ?_⟩
      by_contra hlt
      simp [hlt] at hdefect
    · rintro ⟨_, hn', hid', hlt⟩
      obtain rfl := h.eq hn hn' (hid.trans hid'.symm)
      simp only [hlt, Bool.false_eq_true, if_false]

theorem mem_newlyRefused {r : Refusal} : r ∈ newlyRefused A ↔
    ∃ m ∈ A, m.plugin = r.plugin ∧ dependencyDefect A m = some r.defect := by
  simp only [newlyRefused, List.mem_filterMap, Option.map_eq_some_iff]
  refine exists_congr (fun m => and_congr_right (fun _ => ?_))
  constructor
  · rintro ⟨_, hd, rfl⟩
    exact ⟨rfl, hd⟩
  · rintro ⟨hid, hd⟩
    exact ⟨r.defect, hd, by rw [hid]⟩

theorem mem_names (h : Unique A) (hm : m ∈ A) :
    m.plugin ∈ (newlyRefused A).map (fun r => r.plugin) ↔ dependencyDefect A m ≠ none := by
  rw [List.mem_map]
  constructor
  · rintro ⟨r, hr, hid⟩
    obtain ⟨n, hn, hn', hd⟩ := mem_newlyRefused.1 hr
    obtain rfl := h.eq hn hm (hn'.trans hid)
    rw [hd]
    exact Option.some_ne_none _
  · intro hd
    obtain ⟨defect, hdefect⟩ := Option.ne_none_iff_exists'.1 hd
    exact ⟨⟨m.plugin, defect⟩, mem_newlyRefused.2 ⟨m, hm, rfl, hdefect⟩, rfl⟩

theorem newlyRefused_eq_nil : newlyRefused A = [] ↔ A.all (fun m => (dependencyDefect A m).isNone) = true := by
  simp only [newlyRefused, List.filterMap_eq_nil_iff, Option.map_eq_none_iff, List.all_eq_true, Option.isNone_iff_eq_none]

def met (A : List Manifest) (m : Manifest) : Bool := (dependencyDefect A m).isNone

theorem retained_eq (h : Unique A) :
    A.filter (fun m => m.plugin ∉ (newlyRefused A).map (fun r => r.plugin)) = A.filter (met A) := by
  refine List.filter_congr (fun m hm => ?_)
  rw [met, Bool.eq_iff_iff, decide_eq_true_eq, mem_names h hm, not_not, Option.isNone_iff_eq_none]

end Dependencies

section Resolve

variable {A A' : List Manifest}

theorem resolve_fst : ∀ {fuel : Nat} {A : List Manifest} {refusals : List Refusal}, Unique A →
    (resolve fuel A refusals).1 = prune met fuel A
  | 0, _, _, _ => rfl
  | fuel + 1, A, refusals, h => by
    rw [resolve, prune]
    by_cases hnone : newlyRefused A = []
    · have hall : A.all (met A) = true := newlyRefused_eq_nil.1 hnone
      rw [if_pos hnone, if_pos hall]
    · have hall : ¬ A.all (met A) = true := fun hall => hnone (newlyRefused_eq_nil.2 hall)
      rw [if_neg hnone, if_neg hall, retained_eq h]
      exact resolve_fst (h.filter _)

theorem resolve_perm : ∀ {fuel : Nat} {A A' : List Manifest} {refusals refusals' : List Refusal}, Unique A → A.Perm A' →
    refusals.Perm refusals' → (resolve fuel A refusals).1.Perm (resolve fuel A' refusals').1 ∧
      (resolve fuel A refusals).2.Perm (resolve fuel A' refusals').2
  | 0, _, _, _, _, _, hA, hr => ⟨hA, hr⟩
  | fuel + 1, A, A', refusals, refusals', h, hA, hr => by
    have hnew : (newlyRefused A).Perm (newlyRefused A') := by
      rw [newlyRefused, newlyRefused, dependencyDefect_perm h hA]
      exact hA.filterMap _
    rw [resolve, resolve]
    by_cases hnone : newlyRefused A = []
    · rw [if_pos hnone, if_pos (by rw [hnone] at hnew; exact hnew.nil_eq.symm)]
      exact ⟨hA, hr⟩
    · have hnone' : newlyRefused A' ≠ [] := fun h' => hnone (by rw [h'] at hnew; exact hnew.eq_nil)
      rw [if_neg hnone, if_neg hnone']
      have hnames : ∀ m : Manifest, m.plugin ∈ (newlyRefused A).map (fun r => r.plugin) ↔
          m.plugin ∈ (newlyRefused A').map (fun r => r.plugin) := fun m => (hnew.map _).mem_iff
      have hfilter : A'.filter (fun m => m.plugin ∉ (newlyRefused A').map (fun r => r.plugin)) =
          A'.filter (fun m => m.plugin ∉ (newlyRefused A).map (fun r => r.plugin)) :=
        List.filter_congr (fun m _ => by rw [decide_eq_decide, hnames m])
      rw [hfilter]
      exact resolve_perm (h.filter _) (hA.filter _) (hr.append hnew)

/-- What has been refused so far: one refusal to a plugin id, and none to an admitted one. -/
structure Consistent (A : List Manifest) (refusals : List Refusal) : Prop where
  single : ∀ a ∈ refusals, ∀ b ∈ refusals, a.plugin = b.plugin → a = b
  apart : ∀ m ∈ A, ∀ r ∈ refusals, m.plugin ≠ r.plugin

theorem Consistent.round {refusals : List Refusal} (h : Consistent A refusals) (hA : Unique A) :
    Consistent (A.filter (fun m => m.plugin ∉ (newlyRefused A).map (fun r => r.plugin))) (refusals ++ newlyRefused A) := by
  have hcross : ∀ a ∈ refusals, ∀ b ∈ newlyRefused A, a.plugin ≠ b.plugin := by
    intro a ha b hb heq
    obtain ⟨m, hm, hid, _⟩ := mem_newlyRefused.1 hb
    exact h.apart m hm a ha (hid.trans heq.symm)
  refine ⟨fun a ha b hb heq => ?_, fun m hm r hr heq => ?_⟩
  · rcases List.mem_append.1 ha with ha | ha <;> rcases List.mem_append.1 hb with hb | hb
    · exact h.single a ha b hb heq
    · exact absurd heq (hcross a ha b hb)
    · exact absurd heq.symm (hcross b hb a ha)
    · obtain ⟨m, hm, hid, hd⟩ := mem_newlyRefused.1 ha
      obtain ⟨n, hn, hid', hd'⟩ := mem_newlyRefused.1 hb
      obtain rfl := hA.eq hm hn (hid.trans (heq.trans hid'.symm))
      obtain ⟨_, _⟩ := a
      obtain ⟨_, _⟩ := b
      simp only [Refusal.mk.injEq] at *
      exact ⟨heq, Option.some.inj (hd.symm.trans hd')⟩
  · obtain ⟨hmA, hkept⟩ := List.mem_filter.1 hm
    rcases List.mem_append.1 hr with hr | hr
    · exact h.apart m hmA r hr heq
    · exact of_decide_eq_true hkept (List.mem_map.2 ⟨r, hr, heq.symm⟩)

theorem resolve_keeps {r : Refusal} : ∀ {fuel : Nat} {A : List Manifest} {refusals : List Refusal}, r ∈ refusals →
    r ∈ (resolve fuel A refusals).2
  | 0, _, _, h => h
  | fuel + 1, A, refusals, h => by
    rw [resolve]
    split
    · exact h
    · exact resolve_keeps (List.mem_append_left _ h)

theorem resolve_refusals : ∀ {fuel : Nat} {A : List Manifest} {refusals : List Refusal}, Unique A → Consistent A refusals →
    Consistent (resolve fuel A refusals).1 (resolve fuel A refusals).2 ∧ (resolve fuel A refusals).1 =
      A.filter (fun m => m.plugin ∉ (resolve fuel A refusals).2.map (fun r => r.plugin)) := by
  have hself : ∀ {A : List Manifest} {refusals : List Refusal}, Consistent A refusals →
      A = A.filter (fun m => m.plugin ∉ refusals.map (fun r => r.plugin)) := by
    intro A refusals h
    refine (List.filter_eq_self.2 (fun m hm => ?_)).symm
    rw [decide_eq_true_eq]
    intro hmem
    obtain ⟨r, hr, heq⟩ := List.mem_map.1 hmem
    exact h.apart m hm r hr heq.symm
  intro fuel
  induction fuel with
  | zero => exact fun _ h => ⟨h, hself h⟩
  | succ fuel ih =>
    intro A refusals hA h
    rw [resolve]
    by_cases hnone : newlyRefused A = []
    · rw [if_pos hnone]
      exact ⟨h, hself h⟩
    · rw [if_neg hnone]
      obtain ⟨hcons, heq⟩ := ih (hA.filter _) (h.round hA)
      refine ⟨hcons, heq.trans ?_⟩
      rw [List.filter_filter]
      refine List.filter_congr (fun m _ => ?_)
      rw [Bool.eq_iff_iff, Bool.and_eq_true, decide_eq_true_eq, decide_eq_true_eq]
      refine ⟨fun hm => hm.1, fun hm => ⟨hm, fun hnew => hm ?_⟩⟩
      obtain ⟨r, hr, hid⟩ := List.mem_map.1 hnew
      exact List.mem_map.2 ⟨r, resolve_keeps (List.mem_append_right _ hr), hid⟩

end Resolve

section Admit

variable {manifests manifests' : List Manifest} {scope : RuntimeScope} {m n : Manifest}

theorem screen_eq_ok : screen manifests m = .ok () ↔ declared manifests m.plugin ≤ 1 ∧ inspect m = .ok () := by
  simp only [screen, bind_eq_ok, refuseIf_eq_ok, not_lt, exists_and_left, exists_const]

theorem eligible_iff : eligible manifests scope m = true ↔
    declared manifests m.plugin ≤ 1 ∧ inspect m = .ok () ∧ scope.admits m.scope = true := by
  rw [eligible, Bool.and_eq_true, ← and_assoc, ← screen_eq_ok]
  cases screen manifests m with
  | error e => simp [Except.isOk, Except.toBool]
  | ok u => simp [Except.isOk, Except.toBool]

theorem mem_screenRefusals {r : Refusal} : r ∈ manifests.filterMap (screenRefusal manifests) ↔
    ∃ m ∈ manifests, m.plugin = r.plugin ∧ screen manifests m = .error r.defect := by
  rw [List.mem_filterMap]
  refine exists_congr (fun m => and_congr_right (fun _ => ?_))
  unfold screenRefusal
  cases screen manifests m with
  | error e =>
    obtain ⟨_, _⟩ := r
    simp
  | ok u => simp

theorem declared_le_one (h : declared manifests m.plugin ≤ 1) (hm : m ∈ manifests) (hn : n ∈ manifests)
    (heq : n.plugin = m.plugin) : m = n := by
  rw [declared, List.countP_eq_length_filter] at h
  have hm' : m ∈ manifests.filter (fun x => x.plugin = m.plugin) := List.mem_filter.2 ⟨hm, by simp⟩
  have hn' : n ∈ manifests.filter (fun x => x.plugin = m.plugin) := List.mem_filter.2 ⟨hn, by simp [heq]⟩
  rcases hfilter : manifests.filter (fun x => x.plugin = m.plugin) with _ | ⟨x, _ | ⟨y, _⟩⟩
  · rw [hfilter] at hm'
    cases hm'
  · rw [hfilter, List.mem_singleton] at hm' hn'
    exact hm'.trans hn'.symm
  · rw [hfilter, List.length_cons, List.length_cons] at h
    omega

theorem one_le_declared (hm : m ∈ manifests) : 1 ≤ declared manifests m.plugin :=
  List.countP_pos_iff.2 ⟨m, hm, by simp⟩

theorem eligible_unique (manifests : List Manifest) (scope : RuntimeScope) :
    Unique (manifests.filter (eligible manifests scope)) := by
  rw [Unique, List.nodup_iff_count_le_one]
  intro p
  rw [List.count, List.countP_map]
  by_cases hnone : (manifests.filter (eligible manifests scope)).countP ((fun q => q == p) ∘ fun m => m.plugin) = 0
  · rw [hnone]
    exact Nat.zero_le _
  · obtain ⟨m, hm, hp⟩ := List.countP_pos_iff.1 (Nat.pos_of_ne_zero hnone)
    have hid : m.plugin = p := by simpa using hp
    have hle := (eligible_iff.1 (List.mem_filter.1 hm).2).1
    calc (manifests.filter (eligible manifests scope)).countP ((fun q => q == p) ∘ fun m => m.plugin)
        ≤ manifests.countP ((fun q => q == p) ∘ fun m => m.plugin) := List.Sublist.countP_le List.filter_sublist
      _ = declared manifests m.plugin := by
        exact List.countP_congr (fun x _ => by simp [hid])
      _ ≤ 1 := hle

theorem screen_consistent (manifests : List Manifest) (scope : RuntimeScope) :
    Consistent (manifests.filter (eligible manifests scope)) (manifests.filterMap (screenRefusal manifests)) := by
  refine ⟨fun a ha b hb heq => ?_, fun m hm r hr heq => ?_⟩
  · obtain ⟨m, hm, hid, hd⟩ := mem_screenRefusals.1 ha
    obtain ⟨n, hn, hid', hd'⟩ := mem_screenRefusals.1 hb
    have hsame : n.plugin = m.plugin := hid'.trans (heq.symm.trans hid.symm)
    have hdefect : a.defect = b.defect := by
      by_cases hmany : declared manifests m.plugin > 1
      · have hm' : screen manifests m = .error (.duplicatePluginId m.plugin (declared manifests m.plugin)) := by
          rw [screen, refuseIf, if_pos hmany]
          rfl
        have hn' : screen manifests n = .error (.duplicatePluginId m.plugin (declared manifests m.plugin)) := by
          rw [screen, hsame, refuseIf, if_pos hmany]
          rfl
        rw [Except.error.inj (hd.symm.trans hm'), Except.error.inj (hd'.symm.trans hn')]
      · obtain rfl := declared_le_one (Nat.not_lt.1 hmany) hm hn hsame
        exact Except.error.inj (hd.symm.trans hd')
    obtain ⟨_, _⟩ := a
    obtain ⟨_, _⟩ := b
    simp only [Refusal.mk.injEq] at *
    exact ⟨heq, hdefect⟩
  · obtain ⟨hmem, helig⟩ := List.mem_filter.1 hm
    obtain ⟨n, hn, hid, hd⟩ := mem_screenRefusals.1 hr
    obtain ⟨hle, hok, _⟩ := eligible_iff.1 helig
    obtain rfl := declared_le_one hle hmem hn (hid.trans heq.symm)
    rw [screen_eq_ok.2 ⟨hle, hok⟩] at hd
    cases hd

theorem admit_fst (manifests : List Manifest) (scope : RuntimeScope) : (admitAll manifests scope).1 =
    prune met (manifests.filter (eligible manifests scope)).length (manifests.filter (eligible manifests scope)) :=
  resolve_fst (eligible_unique manifests scope)

theorem mem_admitAll (h : m ∈ (admitAll manifests scope).1) : m ∈ manifests.filter (eligible manifests scope) := by
  rw [admit_fst] at h
  exact mem_of_mem_prune h

theorem admit_consistent (manifests : List Manifest) (scope : RuntimeScope) :
    Consistent (admitAll manifests scope).1 (admitAll manifests scope).2 :=
  (resolve_refusals (eligible_unique manifests scope) (screen_consistent manifests scope)).1

theorem admit_filter (manifests : List Manifest) (scope : RuntimeScope) : (admitAll manifests scope).1 =
    (manifests.filter (eligible manifests scope)).filter
      (fun m => m.plugin ∉ (admitAll manifests scope).2.map (fun r => r.plugin)) :=
  (resolve_refusals (eligible_unique manifests scope) (screen_consistent manifests scope)).2

theorem admit_unique (manifests : List Manifest) (scope : RuntimeScope) : Unique (admitAll manifests scope).1 := by
  rw [admit_filter]
  exact (eligible_unique manifests scope).filter _

theorem admit_met (h : m ∈ (admitAll manifests scope).1) : dependencyDefect (admitAll manifests scope).1 m = none := by
  rw [admit_fst] at h ⊢
  exact Option.isNone_iff_eq_none.1 (all_prune (Nat.le_refl _) m h)

/-- A set of manifests that may run together: each declared once, without a defect and visible, with every requirement met
within the set. -/
def Supported (manifests : List Manifest) (scope : RuntimeScope) (s : Set Manifest) : Prop :=
  ∀ m ∈ s, (m ∈ manifests ∧ declared manifests m.plugin = 1 ∧ inspect m = .ok () ∧ scope.admits m.scope = true) ∧
    ∀ r ∈ m.requires, ∃ n ∈ s, n.plugin = r.plugin ∧ n.version.lt r.minimum = false

/-- **The manifests that take part in a merge** are the greatest supported set. -/
theorem admit_greatest (manifests : List Manifest) (scope : RuntimeScope) :
    IsGreatest {s : Set Manifest | Supported manifests scope s} {m | m ∈ (admitAll manifests scope).1} := by
  constructor
  · intro m hm
    obtain ⟨hmem, helig⟩ := List.mem_filter.1 (mem_admitAll hm)
    obtain ⟨hle, hok, hscope⟩ := eligible_iff.1 helig
    refine ⟨⟨hmem, Nat.le_antisymm hle (one_le_declared hmem), hok, hscope⟩, ?_⟩
    exact (dependencyDefect_eq_none (admit_unique manifests scope)).1 (admit_met hm)
  · intro s hs m hm
    rw [admit_fst]
    have hfilter : ∀ l, Unique l → Unique (l.filter (met l)) := fun l hl => hl.filter _
    refine subset_prune hfilter (fun l hl hsub a ha => ?_) (eligible_unique manifests scope) (fun a ha => ?_) m hm
    · rw [met, Option.isNone_iff_eq_none, dependencyDefect_eq_none hl]
      intro r hr
      obtain ⟨n, hn, hmeets⟩ := (hs a ha).2 r hr
      exact ⟨n, hsub n hn, hmeets⟩
    · obtain ⟨hmem, hone, hok, hscope⟩ := (hs a ha).1
      exact List.mem_filter.2 ⟨hmem, eligible_iff.2 ⟨Nat.le_of_eq hone, hok, hscope⟩⟩

section

variable (h : declared manifests m.plugin = declared manifests' m.plugin)
include h

theorem screen_congr : screen manifests m = screen manifests' m := by
  rw [screen, screen, h]

theorem screenRefusal_congr : screenRefusal manifests m = screenRefusal manifests' m := by
  rw [screenRefusal, screenRefusal, screen_congr h]

theorem eligible_congr : eligible manifests scope m = eligible manifests' scope m := by
  rw [eligible, eligible, screen_congr h]

end

theorem admit_perm (h : manifests.Perm manifests') (scope : RuntimeScope) :
    (admitAll manifests scope).1.Perm (admitAll manifests' scope).1 ∧
      (admitAll manifests scope).2.Perm (admitAll manifests' scope).2 := by
  have hdeclared : ∀ m : Manifest, declared manifests m.plugin = declared manifests' m.plugin := fun m => h.countP_eq _
  have helig : eligible manifests scope = eligible manifests' scope := funext (fun m => eligible_congr (hdeclared m))
  have hrefusal : screenRefusal manifests = screenRefusal manifests' := funext (fun m => screenRefusal_congr (hdeclared m))
  have hA : (manifests.filter (eligible manifests scope)).Perm (manifests'.filter (eligible manifests' scope)) := by
    rw [helig]
    exact h.filter _
  simp only [admitAll]
  rw [← hA.length_eq]
  refine resolve_perm (eligible_unique manifests scope) hA ?_
  rw [hrefusal]
  exact h.filterMap _

def deleteRefused (manifests : List Manifest) (refusals : List Refusal) : List Manifest :=
  manifests.filter (fun m => m.plugin ∉ refusals.map (fun r => r.plugin))

theorem admit_deleted (manifests : List Manifest) (scope : RuntimeScope) :
    admitAll (deleteRefused manifests (admitAll manifests scope).2) scope = ((admitAll manifests scope).1, []) := by
  set kept := deleteRefused manifests (admitAll manifests scope).2 with hkept
  have hmem : ∀ m ∈ kept, m ∈ manifests ∧ m.plugin ∉ (admitAll manifests scope).2.map (fun r => r.plugin) := by
    intro m hm
    rw [hkept, deleteRefused, List.mem_filter] at hm
    exact ⟨hm.1, of_decide_eq_true hm.2⟩
  have hdeclared : ∀ m ∈ kept, declared kept m.plugin = declared manifests m.plugin := by
    intro m hm
    rw [hkept, deleteRefused, declared, declared, List.countP_filter]
    refine List.countP_congr (fun x _ => ?_)
    simp only [decide_eq_true_eq, Bool.and_eq_true]
    refine ⟨fun hx => hx.1, fun hx => ⟨hx, ?_⟩⟩
    rw [hx]
    exact (hmem m hm).2
  have hA : kept.filter (eligible kept scope) = (admitAll manifests scope).1 := by
    rw [List.filter_congr (fun m hm => eligible_congr (hdeclared m hm)), admit_filter, hkept, deleteRefused,
      List.filter_filter, List.filter_filter]
    exact List.filter_congr (fun m _ => Bool.and_comm _ _)
  have hrefusals : kept.filterMap (screenRefusal kept) = [] := by
    rw [List.filterMap_eq_nil_iff]
    intro m hm
    rw [screenRefusal_congr (hdeclared m hm)]
    cases hr : screenRefusal manifests m with
    | none => rfl
    | some r =>
      have hin : r ∈ manifests.filterMap (screenRefusal manifests) := List.mem_filterMap.2 ⟨m, (hmem m hm).1, hr⟩
      have hid : r.plugin = m.plugin := by
        unfold screenRefusal at hr
        split at hr
        · cases hr
        · rw [← Option.some.inj hr]
      exact absurd (List.mem_map.2 ⟨r, resolve_keeps hin, hid⟩) (hmem m hm).2
  have hnone : newlyRefused (admitAll manifests scope).1 = [] := by
    rw [newlyRefused_eq_nil, List.all_eq_true]
    intro m hm
    rw [admit_met hm]
    rfl
  have hstop : ∀ fuel, resolve fuel (admitAll manifests scope).1 [] = ((admitAll manifests scope).1, []) := by
    intro fuel
    cases fuel with
    | zero => rfl
    | succ fuel => rw [resolve, if_pos hnone]
  rw [admitAll, hA, hrefusals, hstop]

end Admit

end Iteron.Plugin
