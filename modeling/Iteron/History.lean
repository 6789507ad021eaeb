import Mathlib.Data.List.Basic
/-!
# History — what a log of events says about the times between them

A history is a list of events, newest first.  A property of a history is said of each event and what came before it, or
of each stretch of it, and one more event keeps it when that event meets it.
-/
namespace Iteron.History

variable {α : Type}

def Last (kind : α → Bool) (h period : List α) (e : α) (earlier : List α) : Prop :=
  h = period ++ e :: earlier ∧ ∀ x ∈ period, kind x = false

def Each (P : α → List α → Prop) (h : List α) : Prop :=
  ∀ after e before, h = after ++ e :: before → P e before

def Stretch (P : List α → List α → Prop) (h : List α) : Prop :=
  ∀ after period before, h = after ++ period ++ before → P period before

theorem last_head (kind : α → Bool) (e : α) (h : List α) : Last kind (e :: h) [] e h :=
  ⟨rfl, fun _ hx => absurd hx List.not_mem_nil⟩

variable {kind : α → Bool} {h : List α} {e : α}

theorem Last.cons {period earlier : List α} {x : α} (hl : Last kind h period e earlier) (hx : kind x = false) :
    Last kind (x :: h) (x :: period) e earlier := by
  obtain ⟨rfl, hperiod⟩ := hl
  refine ⟨rfl, fun y hy => ?_⟩
  rcases List.mem_cons.1 hy with rfl | hy
  · exact hx
  · exact hperiod y hy

theorem Last.unique {period period' earlier earlier' : List α} {e' : α} (hl : Last kind h period e earlier)
    (hl' : Last kind h period' e' earlier') (he : kind e = true) (he' : kind e' = true) :
    period = period' ∧ e = e' ∧ earlier = earlier' := by
  obtain ⟨rfl, hperiod⟩ := hl
  obtain ⟨heq, hperiod'⟩ := hl'
  induction period generalizing period' with
  | nil =>
    cases period' with
    | nil => exact ⟨rfl, List.cons.inj heq⟩
    | cons x period' =>
      cases heq
      rw [hperiod' _ List.mem_cons_self] at he
      cases he
  | cons x period ih =>
    cases period' with
    | nil =>
      cases heq
      rw [hperiod _ List.mem_cons_self] at he'
      cases he'
    | cons y period' =>
      obtain ⟨rfl, htail⟩ := List.cons.inj heq
      obtain ⟨rfl, hrest⟩ := ih (fun z hz => hperiod z (.tail _ hz)) htail (fun z hz => hperiod' z (.tail _ hz))
      exact ⟨rfl, hrest⟩

theorem each_nil (P : α → List α → Prop) : Each P [] := by
  intro after e before h
  simp at h

theorem Each.cons {P : α → List α → Prop} (hh : Each P h) (he : P e h) : Each P (e :: h) := by
  intro after x before heq
  cases after with
  | nil =>
    cases heq
    exact he
  | cons y after => exact hh after x before (List.cons.inj heq).2

variable {P : List α → List α → Prop}

theorem Stretch.cons (hh : Stretch P h) (he : ∀ period before, e :: h = period ++ before → P period before) :
    Stretch P (e :: h) := by
  intro after period before heq
  cases after with
  | nil => exact he period before heq
  | cons y after => exact hh after period before (List.cons.inj heq).2

theorem stretch_nil (he : P [] []) : Stretch P [] := by
  intro after period before h
  rw [eq_comm, List.append_eq_nil_iff, List.append_eq_nil_iff] at h
  rw [h.1.2, h.2]
  exact he

end Iteron.History
