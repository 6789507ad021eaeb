import Iteron.Memo
import Iteron.History
import Mathlib.Logic.Equiv.List
/-!
# MemoRun — pure and effecting calls over one memo

A registry runs calls on three paths, and their lookups, executions, completions and invalidations come in any order.  A
kept result is served only if nothing was invalidated since its execution began.  One path keeps what another one leaves
out: the facts of the memory, which change on their own.
-/
namespace Iteron.Memo

open Kernel (Json)
open Transcript (ToolUse ToolResult)
open Iteron.History (Last Each)

inductive Purity where
  | pure
  | effecting

/-- The native primitives that a declared recipe may bind. -/
def recipePrimitives : List String :=
  ["read_file", "grep", "glob", "list_dir", "git_diff", "git_status", "write_file", "edit", "apply_patch", "bash",
    "process_start", "process_poll", "process_write", "process_stop"]

structure ToolRecipe where
  primitive : String
  fixedArguments : List (String × Json)
  known : primitive ∈ recipePrimitives

structure Tool where
  name : String
  purity : Purity
  recipe : Option ToolRecipe

/-- The private member that binds a search to the files read last. -/
def focusKey : String := "__iteron_observation_focus_revision"

def insertField (fields : List (String × Json)) (key : String) (value : Json) : List (String × Json) :=
  if fields.any (fun f => f.1 == key) then fields.map (fun f => if f.1 = key then (key, value) else f)
  else fields ++ [(key, value)]

/-- `resolve_ordinary_call`, without the bounds and conflicts that refuse a call. -/
def Tool.resolve (tool : Tool) (call : ToolUse) : ToolUse :=
  match tool.recipe, call.input with
  | some recipe, .object fields =>
    ⟨call.id, recipe.primitive, .object (recipe.fixedArguments.foldl (fun fs f => insertField fs f.1 f.2) fields)⟩
  | some recipe, input => ⟨call.id, recipe.primitive, input⟩
  | none, _ => call

def memoInput (call : ToolUse) (revision : Nat) : Json :=
  match call.input with
  | .object fields => if call.name = "grep" then .object (insertField fields focusKey (.posInt revision)) else call.input
  | input => input

/-- A call that was let through: whether it came by the stream, what its lookup left, and whether its execution began. -/
structure Running (K : Type) where
  call : ToolUse
  purity : Purity
  streamed : Bool
  pending : Option (PendingInsert K)
  began : Bool

inductive Event where
  | began (ticket : Nat) (name : String) (input : Json)
  | finished (ticket : Nat) (result : ToolResult) (now : Nat)
  | invalidated
  | served (call : ToolUse) (result : ToolResult) (now : Nat)
  | other

/-- `running` is indexed by the order in which the calls came; a call that is over is `none`. -/
structure World (K : Type) where
  memo : State K
  revision : Nat
  running : List (Option (Running K))

/-- A call that is refused (an unknown tool, its schema, its scope, the workspace boundary) does not get to the memo, so a
call of these actions is one that is let through. -/
inductive Action where
  | dispatch (call : ToolUse) (now : Nat)
  | dispatchStreamIntentCaptured (call : ToolUse) (now : Nat)
  | runEffectCaptured (call : ToolUse)
  | begin (ticket : Nat)
  | finish (ticket : Nat) (result : ToolResult) (definite : Bool) (now : Nat)
  | drop (ticket : Nat)
  | observe
  | invalidatePureCache
  | installTtl (seconds : Nat)
  | installPolicy (policy : PureMemoCachePolicy)

section Step

variable {K : Type} [DecidableEq K]

def World.enter (w : World K) (r : Running K) : World K := { w with running := w.running ++ [some r] }

/-- A pure call: what is kept under its key, or an execution that may be kept. -/
def World.lookup (w : World K) (call : ToolUse) (streamed : Bool) (memoKey : Option K) (now : Nat) : World K × Event :=
  match memoKey with
  | none => (w.enter ⟨call, .pure, streamed, none, false⟩, .other)
  | some key =>
    match w.memo.lookupAt key now with
    | (.hit result, memo) =>
      ({ w with memo }, .served call { result with toolUseId := call.id, latencyMs := 0 } now)
    | (.miss pending, memo) => ({ w with memo }.enter ⟨call, .pure, streamed, some pending, false⟩, .other)

def World.memoKey (w : World K) (codec : Codec K) (call : ToolUse) : Option K :=
  w.memo.key codec call.name (memoInput call w.revision)

def World.finish (w : World K) (ticket : Nat) (r : Running K) (result : ToolResult) (definite : Bool) (now : Nat) :
    World K × Event :=
  let w := { w with running := w.running.set ticket none }
  match r.purity with
  | .effecting => ({ w with memo := w.memo.invalidate }, .invalidated)
  | .pure =>
    match r.pending with
    | none => (w, .finished ticket result now)
    | some pending =>
      if r.streamed && !definite then (w, .finished ticket result now)
      else ({ w with memo := w.memo.completeAt pending result now }, .finished ticket result now)

def World.step (tools : List Tool) (codec : Codec K) (w : World K) : Action → World K × Event
  | .dispatch call now =>
    match tools.find? (fun tool => tool.name = call.name) with
    | none => (w, .other)
    | some tool =>
      match tool.purity with
      | .effecting => (w.enter ⟨tool.resolve call, .effecting, false, none, false⟩, .other)
      | .pure =>
        -- the eligibility of a memory depends on its expiry and on files that change on their own
        w.lookup (tool.resolve call) false
          (if tool.name = "read_memory" then none else w.memoKey codec (tool.resolve call)) now
  | .dispatchStreamIntentCaptured call now =>
    match tools.find? (fun tool => tool.name = call.name) with
    | none => (w, .other)
    | some tool =>
      match tool.purity with
      | .effecting =>
        ({ w with memo := w.memo.invalidate }.enter ⟨tool.resolve call, .effecting, true, none, false⟩, .invalidated)
      | .pure => w.lookup (tool.resolve call) true (w.memoKey codec (tool.resolve call)) now
  | .runEffectCaptured call =>
    match tools.find? (fun tool => tool.name = call.name) with
    | none => (w, .other)
    | some tool => (w.enter ⟨tool.resolve call, tool.purity, false, none, false⟩, .other)
  | .begin ticket =>
    match (w.running[ticket]?).join with
    | some r =>
      if r.began then (w, .other)
      else ({ w with running := w.running.set ticket (some { r with began := true }) }, .began ticket r.call.name r.call.input)
    | none => (w, .other)
  | .finish ticket result definite now =>
    match (w.running[ticket]?).join with
    | some r => if r.began then w.finish ticket r result definite now else (w, .other)
    | none => (w, .other)
  | .drop ticket => ({ w with running := w.running.set ticket none }, .other)
  | .observe => ({ w with revision := w.revision + 1 }, .other)
  | .invalidatePureCache => ({ w with memo := w.memo.invalidate }, .invalidated)
  | .installTtl seconds =>
    match w.memo.installTtlSeconds seconds with
    | .ok memo => ({ w with memo }, .other)
    | .error _ => (w, .other)
  | .installPolicy policy =>
    match w.memo.installPolicy policy with
    | .ok memo => ({ w with memo }, .other)
    | .error _ => (w, .other)

/-! ## The calls that keep to the rules -/

def Plain (call : ToolUse) : Prop := call.name = "grep" → call.input.get focusKey = none

/-- Facts of the memory are not read on the stream's path. -/
def Allowed (tools : List Tool) : Action → Prop
  | .dispatch call _ => ∀ tool, tools.find? (fun tool => tool.name = call.name) = some tool →
      tool.purity = .pure → Plain (tool.resolve call)
  | .dispatchStreamIntentCaptured call _ => ∀ tool, tools.find? (fun tool => tool.name = call.name) = some tool →
      tool.purity = .pure → Plain (tool.resolve call) ∧ (tool.resolve call).name ≠ "read_memory"
  | _ => True

inductive Reached (tools : List Tool) (codec : Codec K) (meets : Action → Prop) (capacity : Nat) :
    World K → List Event → Prop
  | start : Reached tools codec meets capacity ⟨.new capacity, 0, []⟩ []
  | step (w : World K) (log : List Event) (a : Action) (hw : Reached tools codec meets capacity w log) (ha : meets a) :
    Reached tools codec meets capacity (w.step tools codec a).1 ((w.step tools codec a).2 :: log)

def isInvalidated : Event → Bool
  | .invalidated => true
  | _ => false

/-- What is served: the result of an execution of the same name and input, which began after every invalidation and ended
less than the lifetime ago. -/
def Fresh (ttl : Nat) (e : Event) (before : List Event) : Prop :=
  ∀ call result now, e = .served call result now →
    call.name ≠ "read_memory" ∧ result.isError = false ∧
      ∃ ticket kept finishedAt period earlier, Last isInvalidated before period (.began ticket call.name call.input) earlier ∧
        .finished ticket kept finishedAt ∈ period ∧ result = { kept with toolUseId := call.id, latencyMs := 0 } ∧
        now - finishedAt < ttl

/-! ## Keys -/

variable {codec : Codec K}

structure Keyed (codec : Codec K) (call : ToolUse) (key : K) : Prop where
  plain : Plain call
  memory : call.name ≠ "read_memory"
  short : call.name.utf8ByteSize ≤ maxToolNameBytes
  digest : ∃ revision, key = codec.sha256 (message codec.encode call.name (memoInput call revision))

variable {call : ToolUse} {key : K}

omit [DecidableEq K] in
theorem keyed_of_memoKey {w : World K} (hplain : Plain call) (hmemory : call.name ≠ "read_memory")
    (h : w.memoKey codec call = some key) : Keyed codec call key := by
  unfold World.memoKey State.key at h
  split at h
  · cases h
  · rename_i hshort
    split at h
    · cases h
    · split at h
      · cases h
      · exact ⟨hplain, hmemory, Nat.not_lt.1 hshort, w.revision, (Option.some.inj h).symm⟩

theorem get_of_any {fields : List (String × Json)} {key : String} (h : Json.get (.object fields) key = none) :
    ¬ fields.any (fun f => f.1 == key) = true := by
  intro hany
  obtain ⟨f, hf, hkey⟩ := List.any_eq_true.1 hany
  rw [Json.get, Option.map_eq_none_iff, List.find?_eq_none] at h
  exact h f hf hkey

variable {call' : ToolUse}

theorem memoInput_inj (hname : call.name = call'.name) (hplain : Plain call) (hplain' : Plain call')
    {revision revision' : Nat} (h : memoInput call revision = memoInput call' revision') :
    call.input = call'.input := by
  unfold memoInput at h
  by_cases hgrep : call.name = "grep"
  · have hnone := hplain hgrep
    have hnone' := hplain' (hname ▸ hgrep)
    simp only [hgrep, ← hname, if_true] at h
    cases hinput : call.input with
    | object _ =>
      cases hinput' : call'.input with
      | object _ =>
        rw [hinput] at hnone
        rw [hinput'] at hnone'
        simp only [hinput, hinput', insertField, if_neg (get_of_any hnone), if_neg (get_of_any hnone')] at h
        have hfields := List.append_inj_left' (Json.object.inj h) rfl
        rw [hfields]
      | _ => simp [hinput, hinput'] at h
    | _ => cases hinput' : call'.input <;> simp_all
  · cases hinput : call.input <;> cases hinput' : call'.input <;> simp_all

omit [DecidableEq K] in
theorem Keyed.same (hsha : Function.Injective codec.sha256) (hencode : Function.Injective codec.encode)
    (h : Keyed codec call key) (h' : Keyed codec call' key) : call.name = call'.name ∧ call.input = call'.input := by
  obtain ⟨_, hdigest⟩ := h.digest
  obtain ⟨_, hdigest'⟩ := h'.digest
  obtain ⟨hname, hinput⟩ := message_inj hencode h.short h'.short (hsha (hdigest.symm.trans hdigest'))
  exact ⟨hname, memoInput_inj hname h.plain h'.plain hinput⟩

/-! ## The invariant -/

def Source (codec : Codec K) (log : List Event) (p : K × MemoEntry) : Prop :=
  ∃ call ticket period earlier, Keyed codec call p.1 ∧
    Last isInvalidated log period (.began ticket call.name call.input) earlier ∧
    .finished ticket p.2.result p.2.insertedAt ∈ period ∧ p.2.result.isError = false

/-- A call that waits to be kept can only be kept if nothing was invalidated since it began. -/
structure Waits (codec : Codec K) (memo : State K) (log : List Event) (ticket : Nat) (r : Running K)
    (pending : PendingInsert K) : Prop where
  keyed : Keyed codec r.call pending.key
  generation : pending.generation ≤ memo.generation
  began : r.began = true → memo.acceptsInserts = true → memo.generation = pending.generation →
    ∃ period earlier, Last isInvalidated log period (.began ticket r.call.name r.call.input) earlier

structure Kept (codec : Codec K) (w : World K) (log : List Event) : Prop where
  tidy : w.memo.Tidy
  idle : w.memo.activated = false → w.memo.cache = [] ∧
    (∀ (ticket : Nat) r, w.running[ticket]? = some (some r) → r.pending = none) ∧
    ∀ call result now, Event.served call result now ∉ log
  entries : ∀ p ∈ w.memo.cache, Source codec log p
  waiting : ∀ (ticket : Nat) r, w.running[ticket]? = some (some r) → ∀ pending, r.pending = some pending →
    Waits codec w.memo log ticket r pending
  fresh : Each (Fresh w.memo.ttl) log

omit [DecidableEq K] in
theorem Source.cons {log : List Event} {p : K × MemoEntry} (h : Source codec log p) {e : Event}
    (he : isInvalidated e = false) : Source codec (e :: log) p := by
  obtain ⟨call, ticket, period, earlier, hkeyed, hlast, hmem, herror⟩ := h
  exact ⟨call, ticket, e :: period, earlier, hkeyed, hlast.cons he, List.mem_cons_of_mem e hmem, herror⟩

omit [DecidableEq K] in
theorem Waits.cons {memo memo' : State K} {log : List Event} {ticket : Nat} {r : Running K} {pending : PendingInsert K}
    (h : Waits codec memo log ticket r pending) {e : Event} (he : isInvalidated e = false)
    (hgeneration : memo'.generation = memo.generation) (haccepts : memo'.acceptsInserts = memo.acceptsInserts) :
    Waits codec memo' (e :: log) ticket r pending := by
  refine ⟨h.keyed, hgeneration ▸ h.generation, fun hbegan hopen hsame => ?_⟩
  obtain ⟨period, earlier, hlast⟩ := h.began hbegan (haccepts ▸ hopen) (hgeneration ▸ hsame)
  exact ⟨e :: period, earlier, hlast.cons he⟩

def isServed : Event → Bool
  | .served _ _ _ => true
  | _ => false

variable {e : Event}

theorem fresh_of_not_served {ttl : Nat} {before : List Event} (h : isServed e = false) : Fresh ttl e before := by
  rintro _ _ _ rfl
  cases h

variable {w w' : World K} {log : List Event}

omit [DecidableEq K] in
theorem Kept.quiet (hk : Kept codec w log) (he : isInvalidated e = false) (hserved : isServed e = false)
    (htidy : w'.memo.Tidy) (hgeneration : w'.memo.generation = w.memo.generation)
    (haccepts : w'.memo.acceptsInserts = w.memo.acceptsInserts) (httl : w'.memo.ttl = w.memo.ttl)
    (hidle : w'.memo.activated = false → w.memo.activated = false ∧ w'.memo.cache = w.memo.cache ∧
      ∀ (ticket : Nat) r, w'.running[ticket]? = some (some r) → w.running[ticket]? = some (some r) ∨ r.pending = none)
    (hcache : ∀ p ∈ w'.memo.cache, p ∈ w.memo.cache ∨ Source codec (e :: log) p)
    (hrunning : ∀ (ticket : Nat) r, w'.running[ticket]? = some (some r) → w.running[ticket]? = some (some r) ∨
      ∀ pending, r.pending = some pending → Waits codec w'.memo (e :: log) ticket r pending) : Kept codec w' (e :: log) where
  tidy := htidy
  idle := by
    intro hoff
    obtain ⟨hoff', hsame, hrun⟩ := hidle hoff
    obtain ⟨hnil, hnone, hlog⟩ := hk.idle hoff'
    refine ⟨hsame.trans hnil, fun ticket r hget => ?_, fun call result now hmem => ?_⟩
    · rcases hrun ticket r hget with hold | hnew
      · exact hnone ticket r hold
      · exact hnew
    · rcases List.mem_cons.1 hmem with rfl | hmem
      · cases hserved
      · exact hlog call result now hmem
  entries := by
    intro p hp
    rcases hcache p hp with hold | hnew
    · exact (hk.entries p hold).cons he
    · exact hnew
  waiting := by
    intro ticket r hget pending hpending
    rcases hrunning ticket r hget with hold | hnew
    · exact (hk.waiting ticket r hold pending hpending).cons he hgeneration haccepts
    · exact hnew pending hpending
  fresh := by
    rw [httl]
    exact hk.fresh.cons (fresh_of_not_served hserved)

variable {r : Running K} {ticket : Nat} {q : Running K}

omit [DecidableEq K] in
theorem get_enter (h : (w.enter r).running[ticket]? = some (some q)) :
    w.running[ticket]? = some (some q) ∨ (ticket = w.running.length ∧ q = r) := by
  rw [World.enter, List.getElem?_append] at h
  split at h
  · exact .inl h
  · rename_i hlt
    have hzero : ticket - w.running.length = 0 := by
      by_contra hne
      rw [List.getElem?_singleton, if_neg hne] at h
      cases h
    rw [hzero] at h
    exact .inr ⟨by omega, (Option.some.inj (Option.some.inj h)).symm⟩

omit [DecidableEq K] in
theorem get_set {ticket' : Nat} {r : Option (Running K)} (h : (w.running.set ticket r)[ticket']? = some (some q)) :
    (ticket' ≠ ticket ∧ w.running[ticket']? = some (some q)) ∨ (ticket' = ticket ∧ r = some q) := by
  rw [List.getElem?_set] at h
  split at h
  · rename_i heq
    split at h
    · exact .inr ⟨heq.symm, Option.some.inj h⟩
    · cases h
  · rename_i hne
    exact .inl ⟨Ne.symm hne, h⟩

omit [DecidableEq K] in
theorem get_dropped {ticket ticket' : Nat} (h : (w.running.set ticket none)[ticket']? = some (some q)) :
    w.running[ticket']? = some (some q) := by
  rcases get_set h with ⟨-, hold⟩ | ⟨-, hnew⟩
  · exact hold
  · cases hnew

/-! ## Steps -/

omit [DecidableEq K] in
theorem Kept.invalidated (hk : Kept codec w log) (hmemo : w'.memo = w.memo.invalidate)
    (hrunning : ∀ (ticket : Nat) r, w'.running[ticket]? = some (some r) → w.running[ticket]? = some (some r) ∨ r.pending = none) :
    Kept codec w' (.invalidated :: log) := by
  obtain ⟨hcache, httl, hactivated, hmoved⟩ := w.memo.invalidate_spec
  rw [← hmemo] at hcache httl hactivated hmoved
  refine ⟨hmemo ▸ hk.tidy.invalidate, ?_, ?_, ?_, ?_⟩
  · intro hoff
    obtain ⟨-, hnone, hlog⟩ := hk.idle (hactivated ▸ hoff)
    refine ⟨hcache, fun ticket r hget => ?_, fun call result now hmem => ?_⟩
    · rcases hrunning ticket r hget with hold | hnew
      · exact hnone ticket r hold
      · exact hnew
    · rcases List.mem_cons.1 hmem with heq | hmem
      · cases heq
      · exact hlog call result now hmem
  · intro p hp
    rw [hcache] at hp
    cases hp
  · intro ticket r hget pending hpending
    rcases hrunning ticket r hget with hold | hnew
    · have hwait := hk.waiting ticket r hold pending hpending
      refine ⟨hwait.keyed, ?_, fun _ hopen hsame => ?_⟩
      · have := hwait.generation
        rcases hmoved with ⟨hgeneration, -⟩ | ⟨hgeneration, -⟩ <;> omega
      · have := hwait.generation
        rcases hmoved with ⟨hgeneration, -⟩ | ⟨-, hclosed⟩
        · omega
        · rw [hclosed] at hopen
          cases hopen
    · rw [hnew] at hpending
      cases hpending
  · rw [httl]
    exact hk.fresh.cons (fresh_of_not_served rfl)

omit [DecidableEq K] in
theorem Kept.silent (hk : Kept codec w log) : Kept codec w (.other :: log) :=
  hk.quiet rfl rfl hk.tidy rfl rfl rfl (fun hoff => ⟨hoff, rfl, fun _ _ hget => .inl hget⟩) (fun _ hp => .inl hp)
    (fun _ _ hget => .inl hget)

omit [DecidableEq K] in
theorem Kept.enter (hk : Kept codec w log) (hr : r.pending = none) : Kept codec (w.enter r) (.other :: log) := by
  have hnone : ∀ (ticket : Nat) q, (w.enter r).running[ticket]? = some (some q) →
      w.running[ticket]? = some (some q) ∨ q.pending = none := by
    intro ticket q hget
    rcases get_enter hget with hold | ⟨-, rfl⟩
    · exact .inl hold
    · exact .inr hr
  refine hk.quiet rfl rfl hk.tidy rfl rfl rfl (fun hoff => ⟨hoff, rfl, hnone⟩) (fun _ hp => .inl hp) (fun ticket q hget => ?_)
  rcases hnone ticket q hget with hold | hnew
  · exact .inl hold
  · refine .inr (fun pending hpending => ?_)
    rw [hnew] at hpending
    cases hpending

variable {now : Nat}

theorem Kept.lookup (hk : Kept codec w log) (hsha : Function.Injective codec.sha256)
    (hencode : Function.Injective codec.encode) {streamed : Bool} {memoKey : Option K}
    (hkey : ∀ key, memoKey = some key → Keyed codec call key) :
    Kept codec (w.lookup call streamed memoKey now).1 ((w.lookup call streamed memoKey now).2 :: log) := by
  unfold World.lookup
  cases memoKey with
  | none => exact hk.enter rfl
  | some key =>
    have hlooked := w.memo.lookupAt_looked key now
    have hkeyed := hkey key rfl
    rcases w.memo.lookupAt_cases key now with ⟨entry, memo, heq, hmem, hage⟩ | ⟨pending, memo, heq, hgeneration, hpending⟩
    · rw [heq] at hlooked
      dsimp only
      rw [heq]
      obtain ⟨_, ticket, period, earlier, hkeyed', hlast, hfinished, herror⟩ := hk.entries _ hmem
      obtain ⟨hname, hinput⟩ := hkeyed.same hsha hencode hkeyed'
      have hfresh : Fresh w.memo.ttl (.served call { entry.result with toolUseId := call.id, latencyMs := 0 } now) log := by
        intro call1 result1 now1 hserved
        obtain ⟨rfl, rfl, rfl⟩ := Event.served.inj hserved
        refine ⟨hkeyed.memory, herror, ticket, entry.result, entry.insertedAt, period, earlier, ?_, hfinished, rfl, hage⟩
        rw [hname, hinput]
        exact hlast
      refine ⟨hlooked.tidy hk.tidy, ?_, ?_, ?_, ?_⟩
      · intro hoff
        rw [hlooked.activated] at hoff
        cases hoff
      · intro p hp
        exact (hk.entries p (hlooked.cache p hp)).cons rfl
      · intro ticket' r hget pending hpending
        exact (hk.waiting ticket' r hget pending hpending).cons rfl hlooked.generation hlooked.acceptsInserts
      · have httl : memo.ttl = w.memo.ttl := hlooked.ttl
        rw [httl]
        exact hk.fresh.cons hfresh
    · rw [heq] at hlooked
      dsimp only
      rw [heq]
      refine hk.quiet rfl rfl (hlooked.tidy hk.tidy) hlooked.generation hlooked.acceptsInserts hlooked.ttl ?_
        (fun p hp => .inl (hlooked.cache p hp)) (fun ticket r hget => ?_)
      · intro hoff
        have hon : memo.activated = true := hlooked.activated
        cases hon.symm.trans hoff
      · rcases get_enter hget with hold | ⟨-, rfl⟩
        · exact .inl hold
        · refine .inr (fun pending' hpending' => ?_)
          cases hpending'
          have hmemo : memo.generation = w.memo.generation := hlooked.generation
          refine ⟨hpending ▸ hkeyed, ?_, fun hbegan => ?_⟩
          · exact Nat.le_of_eq (hgeneration.trans hmemo.symm)
          · cases hbegan

omit [DecidableEq K] in
theorem getElem?_of_join (h : (w.running[ticket]?).join = some r) : w.running[ticket]? = some (some r) := by
  cases hget : w.running[ticket]? with
  | none =>
    rw [hget] at h
    cases h
  | some q =>
    rw [hget] at h
    exact congrArg some h

omit [DecidableEq K] in
theorem Kept.begin (hk : Kept codec w log) (hget : w.running[ticket]? = some (some r)) :
    Kept codec { w with running := w.running.set ticket (some { r with began := true }) }
      (.began ticket r.call.name r.call.input :: log) := by
  refine hk.quiet rfl rfl hk.tidy rfl rfl rfl (fun hoff => ⟨hoff, rfl, fun ticket' q hset => ?_⟩) (fun _ hp => .inl hp)
    (fun ticket' q hset => ?_)
  · rcases get_set hset with ⟨-, hold⟩ | ⟨-, hnew⟩
    · exact .inl hold
    · cases hnew
      exact .inr ((hk.idle hoff).2.1 ticket r hget)
  · rcases get_set hset with ⟨-, hold⟩ | ⟨rfl, hnew⟩
    · exact .inl hold
    · cases hnew
      refine .inr (fun pending hpending => ?_)
      have hwait := hk.waiting ticket' r hget pending hpending
      exact ⟨hwait.keyed, hwait.generation, fun _ _ _ => ⟨[], log, Iteron.History.last_head _ _ _⟩⟩

omit [DecidableEq K] in
theorem Kept.over (hk : Kept codec w log) (ticket : Nat) (he : isInvalidated e = false) (hserved : isServed e = false) :
    Kept codec { w with running := w.running.set ticket none } (e :: log) := by
  exact hk.quiet he hserved hk.tidy rfl rfl rfl (fun hoff => ⟨hoff, rfl, fun _ _ hset => .inl (get_dropped hset)⟩)
    (fun _ hp => .inl hp) (fun _ _ hset => .inl (get_dropped hset))

theorem Kept.finish (hk : Kept codec w log) (hget : w.running[ticket]? = some (some r))
    (hbegan : r.began = true) (result : ToolResult) (definite : Bool) (now : Nat) :
    Kept codec (w.finish ticket r result definite now).1 ((w.finish ticket r result definite now).2 :: log) := by
  unfold World.finish
  cases hpurity : r.purity with
  | effecting => exact hk.invalidated rfl (fun _ _ hset => .inl (get_dropped hset))
  | pure =>
    cases hpending : r.pending with
    | none => exact hk.over ticket rfl rfl
    | some pending =>
      dsimp only
      split
      · exact hk.over ticket rfl rfl
      · have hwait := hk.waiting ticket r hget pending hpending
        have hdone := State.completeAt_completed hk.tidy pending result now
        refine hk.quiet rfl rfl hdone.tidy hdone.generation hdone.acceptsInserts hdone.ttl ?_ ?_
          (fun _ _ hset => .inl (get_dropped hset))
        · intro hoff
          have hoff' : w.memo.activated = false := hdone.activated.symm.trans hoff
          have hnone := (hk.idle hoff').2.1 ticket r hget
          rw [hpending] at hnone
          cases hnone
        · intro p hp
          rcases hdone.cache p hp with hp | ⟨rfl, herror, hopen, hsame⟩
          · exact .inl hp
          · obtain ⟨period, earlier, hlast⟩ := hwait.began hbegan hopen hsame
            exact .inr ⟨r.call, ticket, .finished ticket result now :: period, earlier, hwait.keyed, hlast.cons rfl,
              List.mem_cons_self, herror⟩

variable {memo : State K}

omit [DecidableEq K] in
theorem Kept.install (hk : Kept codec w log) (hoff : w.memo.activated = false)
    (htidy : memo.Tidy) (hcache : memo.cache = []) : Kept codec { w with memo } (.other :: log) := by
  obtain ⟨-, hnone, hlog⟩ := hk.idle hoff
  have hlog' : ∀ call result now, Event.served call result now ∉ Event.other :: log := by
    intro call result now hmem
    rcases List.mem_cons.1 hmem with heq | hmem
    · cases heq
    · exact hlog call result now hmem
  refine ⟨htidy, fun _ => ⟨hcache, hnone, hlog'⟩, ?_, ?_, ?_⟩
  · intro p hp
    have hp' : p ∈ memo.cache := hp
    rw [hcache] at hp'
    cases hp'
  · intro ticket r hget pending hpending
    rw [hnone ticket r hget] at hpending
    cases hpending
  · intro after e before heq call result now hserved
    subst hserved
    exact absurd (heq ▸ List.mem_append_right after (.head _)) (hlog' call result now)

omit [DecidableEq K] in
theorem tidy_empty (hcache : memo.cache = []) (horder : memo.insertionOrder = [])
    (hroom : memo.acceptsInserts = true → 0 < memo.capacity) : memo.Tidy where
  order := by rw [hcache, horder]; rfl
  nodup := by rw [horder]; exact List.nodup_nil
  bounded := by rw [hcache]; exact Nat.zero_le _
  room := hroom

/-! ## Runs -/

variable {tool : Tool}

theorem resolve_ne_memory (hname : tool.name = call.name) (hne : tool.name ≠ "read_memory") :
    (tool.resolve call).name ≠ "read_memory" := by
  have hprimitive : ∀ recipe : ToolRecipe, recipe.primitive ≠ "read_memory" := by
    intro recipe heq
    have hknown := recipe.known
    rw [heq] at hknown
    revert hknown
    decide
  unfold Tool.resolve
  split
  · exact hprimitive _
  · exact hprimitive _
  · exact hname ▸ hne

variable {tools : List Tool}

theorem name_of_find {name : String} (h : tools.find? (fun tool => tool.name = name) = some tool) :
    tool.name = name := by
  have hname := List.find?_some h
  exact of_decide_eq_true hname

theorem Kept.dispatch (hk : Kept codec w log) (hsha : Function.Injective codec.sha256)
    (hencode : Function.Injective codec.encode) (ha : Allowed tools (.dispatch call now)) :
    Kept codec (w.step tools codec (.dispatch call now)).1 ((w.step tools codec (.dispatch call now)).2 :: log) := by
  unfold World.step
  dsimp only
  cases hfind : tools.find? (fun tool => tool.name = call.name) with
  | none => exact hk.silent
  | some tool =>
    dsimp only
    cases hpurity : tool.purity with
    | effecting => exact hk.enter rfl
    | pure =>
      refine hk.lookup hsha hencode (fun key hkey => ?_)
      split at hkey
      · cases hkey
      · rename_i hmemory
        exact keyed_of_memoKey (ha tool hfind hpurity) (resolve_ne_memory (name_of_find hfind) hmemory) hkey

theorem Kept.stream (hk : Kept codec w log) (hsha : Function.Injective codec.sha256)
    (hencode : Function.Injective codec.encode) (ha : Allowed tools (.dispatchStreamIntentCaptured call now)) :
    Kept codec (w.step tools codec (.dispatchStreamIntentCaptured call now)).1
      ((w.step tools codec (.dispatchStreamIntentCaptured call now)).2 :: log) := by
  unfold World.step
  dsimp only
  cases hfind : tools.find? (fun tool => tool.name = call.name) with
  | none => exact hk.silent
  | some tool =>
    dsimp only
    cases hpurity : tool.purity with
    | effecting =>
      refine hk.invalidated rfl (fun ticket q hget => ?_)
      rcases get_enter hget with hold | ⟨-, rfl⟩
      · exact .inl hold
      · exact .inr rfl
    | pure =>
      obtain ⟨hplain, hmemory⟩ := ha tool hfind hpurity
      exact hk.lookup hsha hencode (fun key hkey => keyed_of_memoKey hplain hmemory hkey)

omit [DecidableEq K] in
theorem Kept.installTtl (hk : Kept codec w log) {seconds : Nat}
    (h : w.memo.installTtlSeconds seconds = .ok memo) : Kept codec { w with memo } (.other :: log) := by
  unfold State.installTtlSeconds at h
  split at h
  · cases h
  split at h
  · cases h
  split at h
  · cases h
  rename_i hoff
  have hoff' := eq_false_of_ne_true hoff
  cases h
  exact hk.install hoff' (hk.tidy.same rfl rfl rfl rfl) (hk.idle hoff').1

omit [DecidableEq K] in
theorem Kept.installPolicy (hk : Kept codec w log) {policy : PureMemoCachePolicy}
    (h : w.memo.installPolicy policy = .ok memo) : Kept codec { w with memo } (.other :: log) := by
  unfold State.installPolicy at h
  split at h
  · cases h
  split at h
  · cases h
  rename_i hoff
  have hoff' := eq_false_of_ne_true hoff
  cases h
  have hnil := (hk.idle hoff').1
  refine hk.install hoff' (tidy_empty hnil ?_ ?_) hnil
  · have horder := hk.tidy.order
    rw [hnil] at horder
    exact horder.symm
  · intro hopen
    rw [Bool.and_eq_true, decide_eq_true_eq] at hopen
    exact hopen.2

theorem Kept.step (hk : Kept codec w log) (hsha : Function.Injective codec.sha256)
    (hencode : Function.Injective codec.encode) {a : Action} (ha : Allowed tools a) :
    Kept codec (w.step tools codec a).1 ((w.step tools codec a).2 :: log) := by
  cases a with
  | dispatch call now => exact hk.dispatch hsha hencode ha
  | dispatchStreamIntentCaptured call now => exact hk.stream hsha hencode ha
  | runEffectCaptured call =>
    unfold World.step
    dsimp only
    split
    · exact hk.silent
    · exact hk.enter rfl
  | «begin» ticket =>
    unfold World.step
    dsimp only
    split
    · rename_i r hget
      split
      · exact hk.silent
      · exact hk.begin (getElem?_of_join hget)
    · exact hk.silent
  | finish ticket result definite now =>
    unfold World.step
    dsimp only
    split
    · rename_i r hget
      split
      · rename_i hbegan
        exact hk.finish (getElem?_of_join hget) hbegan result definite now
      · exact hk.silent
    · exact hk.silent
  | drop ticket => exact hk.over ticket rfl rfl
  | observe =>
    exact hk.quiet rfl rfl hk.tidy rfl rfl rfl (fun hoff => ⟨hoff, rfl, fun _ _ hget => .inl hget⟩)
      (fun _ hp => .inl hp) (fun _ _ hget => .inl hget)
  | invalidatePureCache => exact hk.invalidated rfl (fun _ _ hget => .inl hget)
  | installTtl _ =>
    unfold World.step
    dsimp only
    split
    · rename_i memo hmemo
      exact hk.installTtl hmemo
    · exact hk.silent
  | installPolicy _ =>
    unfold World.step
    dsimp only
    split
    · rename_i memo hmemo
      exact hk.installPolicy hmemo
    · exact hk.silent

theorem kept_of_reached {capacity : Nat} (hsha : Function.Injective codec.sha256)
    (hencode : Function.Injective codec.encode) (h : Reached tools codec (Allowed tools) capacity w log) :
    Kept codec w log := by
  induction h with
  | start =>
    refine ⟨tidy_empty rfl rfl (fun hopen => of_decide_eq_true hopen), fun _ => ⟨rfl, ?_, ?_⟩, ?_, ?_, ?_⟩
    · intro ticket r hget
      cases hget
    · intro call result now hmem
      cases hmem
    · intro p hp
      cases hp
    · intro ticket r hget
      cases hget
    · exact Iteron.History.each_nil _
  | step w log a _ ha ih => exact ih.step hsha hencode ha

/-- **What is served of a pure tool is never stale.**  In every run of calls on the three paths, a result that is served is
that of an execution of the same name and input, which began after every invalidation and is younger than the lifetime; it
is no error, it is no fact of the memory, and what is kept is within the capacity. -/
theorem memo_never_stale (tools : List Tool) (codec : Codec K) (hsha : Function.Injective codec.sha256)
    (hencode : Function.Injective codec.encode) (capacity : Nat) (w : World K) (log : List Event)
    (h : Reached tools codec (Allowed tools) capacity w log) :
    Each (Fresh w.memo.ttl) log ∧ w.memo.cache.length ≤ w.memo.capacity :=
  have hk := kept_of_reached hsha hencode h
  ⟨hk.fresh, hk.tidy.bounded⟩

end Step

/-! ## A run -/

def number : Json → Nat
  | .null => Nat.pair 0 0
  | .bool b => Nat.pair 1 b.toNat
  | .posInt n => Nat.pair 2 n
  | .negInt n => Nat.pair 3 (Encodable.encode n)
  | .float bits => Nat.pair 4 bits.toNat
  | .string s => Nat.pair 5 (text s)
  | .array items => Nat.pair 6 (numberItems items)
  | .object fields => Nat.pair 7 (numberFields fields)
where
  text (s : String) : Nat := Encodable.encode (s.toList.map Char.toNat)
  numberItems : List Json → Nat
    | [] => 0
    | item :: items => Nat.pair (number item) (numberItems items) + 1
  numberFields : List (String × Json) → Nat
    | [] => 0
    | field :: fields => Nat.pair (Nat.pair (text field.1) (number field.2)) (numberFields fields) + 1

theorem text_inj {s s' : String} (h : number.text s = number.text s') : s = s' := by
  have hlist := Encodable.encode_injective h
  have hchar : Function.Injective Char.toNat := fun _ _ heq => Char.ext (UInt32.toNat_inj.1 heq)
  exact String.toList_inj.1 (List.map_injective_iff.2 hchar hlist)

mutual

theorem number_inj : ∀ {j j' : Json}, number j = number j' → j = j' := by
  intro j j' h
  cases j <;> cases j' <;> simp only [number, Nat.pair_eq_pair] at h <;> try omega
  case null.null => rfl
  case bool.bool b b' => cases b <;> cases b' <;> simp_all
  case posInt.posInt n n' => rw [h.2]
  case negInt.negInt n n' => rw [Encodable.encode_injective h.2]
  case float.float bits bits' => rw [UInt64.toNat_inj.1 h.2]
  case string.string s s' => rw [text_inj h.2]
  case array.array items items' => rw [numberItems_inj h.2]
  case object.object fields fields' => rw [numberFields_inj h.2]

theorem numberItems_inj : ∀ {items items' : List Json}, number.numberItems items = number.numberItems items' → items = items' := by
  intro items items' h
  cases items with
  | nil =>
    cases items' with
    | nil => rfl
    | cons item' items' => simp [number.numberItems] at h
  | cons _ items =>
    cases items' with
    | nil => simp [number.numberItems] at h
    | cons item' items' =>
      simp only [number.numberItems, Nat.add_right_cancel_iff, Nat.pair_eq_pair] at h
      rw [number_inj h.1, numberItems_inj h.2]

theorem numberFields_inj : ∀ {fields fields' : List (String × Json)},
    number.numberFields fields = number.numberFields fields' → fields = fields' := by
  intro fields fields' h
  cases fields with
  | nil =>
    cases fields' with
    | nil => rfl
    | cons field' fields' => simp [number.numberFields] at h
  | cons field fields =>
    cases fields' with
    | nil => simp [number.numberFields] at h
    | cons field' fields' =>
      simp only [number.numberFields, Nat.add_right_cancel_iff, Nat.pair_eq_pair] at h
      have hfield : field = field' := Prod.ext (text_inj h.1.1) (number_inj h.1.2)
      rw [hfield, numberFields_inj h.2]

end

/-- A codec that writes the empty object as JSON does, and tells all values apart. -/
def someCodec : Codec (List UInt8) where
  sha256 := id
  encode input :=
    match input with
    | .object [] => [123, 125]
    | input => List.replicate (number input + 3) 48

theorem someCodec_encode_inj : Function.Injective someCodec.encode := by
  have hlength : ∀ input, input ≠ .object [] → (someCodec.encode input).length = number input + 3 := by
    intro input hne
    unfold someCodec
    dsimp only
    split
    · exact absurd rfl hne
    · exact List.length_replicate
  intro input input' h
  by_cases hempty : input = .object []
  · by_cases hempty' : input' = .object []
    · rw [hempty, hempty']
    · have := (congrArg List.length h).trans (hlength input' hempty')
      rw [hempty] at this
      change 2 = _ at this
      omega
  · have hinput := hlength input hempty
    by_cases hempty' : input' = .object []
    · rw [h, hempty'] at hinput
      change 2 = _ at hinput
      omega
    · rw [h, hlength input' hempty'] at hinput
      exact number_inj (by omega)

def someTools : List Tool := [⟨"read_file", .pure, none⟩, ⟨"read_memory", .pure, none⟩]

def someCall (name : String) (id : String) : ToolUse := ⟨id, name, .object []⟩

theorem memo_never_stale_read_file : ∃ w log, Reached someTools someCodec (Allowed someTools) 128 w log ∧
      .served (someCall "read_file" "b") ⟨"b", "text", false, .trusted, 0⟩ 5 ∈ log ∧
      Each (Fresh w.memo.ttl) log ∧ w.memo.cache.length ≤ w.memo.capacity := by
  have hplain : ∀ id now, Allowed someTools (.dispatch (someCall "read_file" id) now) := by
    intro id now tool hfind _ hgrep
    have htool : tool = ⟨"read_file", .pure, none⟩ := (Option.some.inj hfind).symm
    rw [htool] at hgrep
    have hname : "read_file" = "grep" := hgrep
    exact absurd hname (by decide)
  have hstart : Reached someTools someCodec (Allowed someTools) 128 ⟨.new 128, 0, []⟩ [] := .start
  have hlookup := hstart.step _ _ _ (hplain "a" 0)
  have hbegin := hlookup.step _ _ (.begin 0) trivial
  have hfinish := hbegin.step _ _ (.finish 0 ⟨"a", "text", false, .trusted, 7⟩ true 0) trivial
  have hserved := hfinish.step _ _ _ (hplain "b" 5)
  exact ⟨_, _, hserved, List.mem_cons.2 (.inl (by rfl)),
    memo_never_stale _ _ (fun _ _ h => h) someCodec_encode_inj _ _ _ hserved⟩

/-- The stream's path keeps the facts of the memory, and serves them. -/
theorem not_memo_never_stale : ¬ ∀ (tools : List Tool) (codec : Codec (List UInt8)),
    Function.Injective codec.sha256 → Function.Injective codec.encode → ∀ (capacity : Nat) (w : World (List UInt8))
      (log : List Event), Reached tools codec (fun _ => True) capacity w log →
      Each (Fresh w.memo.ttl) log ∧ w.memo.cache.length ≤ w.memo.capacity := by
  intro hall
  have hstart : Reached someTools someCodec (fun _ => True) 128 ⟨.new 128, 0, []⟩ [] := .start
  have hlookup := hstart.step _ _ (.dispatchStreamIntentCaptured (someCall "read_memory" "a") 0) trivial
  have hbegin := hlookup.step _ _ (.begin 0) trivial
  have hfinish := hbegin.step _ _ (.finish 0 ⟨"a", "text", false, .trusted, 7⟩ true 0) trivial
  have hserved := hfinish.step _ _ (.dispatchStreamIntentCaptured (someCall "read_memory" "b") 5) trivial
  obtain ⟨hfresh, -⟩ := hall _ _ (fun _ _ h => h) someCodec_encode_inj _ _ _ hserved
  exact (hfresh [] _ _ rfl (someCall "read_memory" "b") ⟨"b", "text", false, .trusted, 0⟩ 5 (by rfl)).1 rfl

end Iteron.Memo
