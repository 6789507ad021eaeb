import Iteron.HashChain
import Iteron.SessionSpend
/-!
# SessionPinned — what a fork's own journal fixes

A fork names its parent and the hash of the line it was taken at.  The lines of a journal are chained by their hashes, so
that hash fixes every line before it, and the parent's first line fixes the grandparent's in turn.  The tenant is not
hashed; it is fixed by the check that a child and its parent have one tenant.
-/
namespace Iteron.Session

open Refuse

variable {E : Env} {s s' : Store} {run : String} {lines lines' : List ReadLine} {edge : Edge} {file file' : JournalFile}

/-- Two stored lines have one hash and differ in what was hashed. -/
def Collision (E : Env) (s s' : Store) : Prop :=
  ∃ (r r' : String) (file file' : JournalFile), s[r]? = some file ∧ s'[r']? = some file' ∧
    ∃ cl ∈ file.chain, ∃ cl' ∈ file'.chain,
      E.hashLine cl.prev cl.seq cl.payload = E.hashLine cl'.prev cl'.seq cl'.payload ∧
        (cl.prev, cl.seq, cl.payload) ≠ (cl'.prev, cl'.seq, cl'.payload)

theorem verifyAll_ok : ∀ (chain : List ChainLine) {scan scan' : Scan}, chain.foldlM (verifyLine E) scan = .ok scan' →
    (∀ cl ∈ chain.head?, cl.prev = scan.prev) ∧ chain.IsChain (fun a b => b.prev = a.hash) ∧
      ∀ cl ∈ chain, E.hashLine cl.prev cl.seq cl.payload = cl.hash ∧
        scan.tenant.or (chain.head?.map ChainLine.tenant) = some cl.tenant
  | [], _, _, _ => by simp
  | cl :: chain, scan, scan', h => by
    rw [List.foldlM_cons, bind_eq_ok] at h
    obtain ⟨scan1, hone, hrest⟩ := h
    simp only [verifyLine, ensureTenant, bind_eq_ok, refuseIf_eq_ok, pure_eq_ok, not_not, not_or] at hone
    obtain ⟨_, -, _, -, _, htenant, _, ⟨hhash, hprev⟩, _, -, _, -, rfl⟩ := hone
    obtain ⟨hhead, hchain, hall⟩ := verifyAll_ok chain hrest
    have hown : scan.tenant.or (some cl.tenant) = some cl.tenant := by
      cases hscan : scan.tenant with
      | none => rfl
      | some _ =>
        rw [hscan] at htenant
        exact congrArg some htenant
    refine ⟨by simpa using hprev, List.isChain_cons.2 ⟨hhead, hchain⟩, ?_⟩
    simp only [hown] at hall
    intro cl' hcl'
    rcases List.mem_cons.1 hcl' with rfl | hcl'
    · exact ⟨hhash, hown⟩
    · exact ⟨(hall cl' hcl').1, hown.trans (hall cl' hcl').2⟩

theorem Verified.chain (h : Verified E file) : file.chain.IsChain (fun a b => b.prev = a.hash) ∧
    ∀ cl ∈ file.chain, E.hashLine cl.prev cl.seq cl.payload = cl.hash ∧
      file.readLines.head?.map ReadLine.tenant = some cl.tenant := by
  obtain ⟨_, hscan⟩ := h.chained
  obtain ⟨-, hchain, hall⟩ := verifyAll_ok _ hscan
  refine ⟨hchain, fun cl hcl => ⟨(hall cl hcl).1, ?_⟩⟩
  rw [JournalFile.readLines, List.head?_map, Option.map_map]
  exact (hall cl hcl).2

theorem Linked.pin (h : Linked E lines edge file) (hn : Numbered file.readLines) :
    ∃ cl, file.chain[edge.forkedAt]? = some cl ∧ cl.hash = edge.parentHash := by
  obtain ⟨l, hfind, hhash⟩ := h.pinned
  obtain ⟨i, hi⟩ := List.getElem?_of_mem (List.mem_of_find?_eq_some hfind)
  have hseq : l.seq = edge.forkedAt := by simpa using List.find?_some hfind
  rw [hn i l hi] at hseq
  subst hseq
  rw [JournalFile.readLines, List.getElem?_map, Option.map_eq_some_iff] at hi
  obtain ⟨cl, hcl, rfl⟩ := hi
  exact ⟨cl, hcl, hhash⟩

theorem Linked.owner (h : Linked E lines edge file) {cl : ChainLine} (hcl : cl ∈ file.chain) :
    cl.tenant = (lines.head?.map ReadLine.tenant).getD "" := by
  have htenant := h.tenant
  rw [(h.verified.chain.2 cl hcl).2, ensureTenant, refuseIf_eq_ok, not_not] at htenant
  exact htenant.symm

/-- **The hash a fork pins fixes its parent's lines up to the fork point.** -/
theorem Linked.agree (h : Linked E lines edge file) (h' : Linked E lines' edge file') (hn : Numbered file.readLines)
    (hn' : Numbered file'.readLines) (hfile : s[edge.parent]? = some file) (hfile' : s'[edge.parent]? = some file')
    (hfree : ¬ Collision E s s') (hhead : lines.head? = lines'.head?) : file.readLines.head? = file'.readLines.head? ∧
      ownEvents run (some edge.forkedAt) file.readLines = ownEvents run (some edge.forkedAt) file'.readLines := by
  obtain ⟨cl, hcl, hhash⟩ := h.pin hn
  obtain ⟨cl', hcl', hhash'⟩ := h'.pin hn'
  have hsame : ∀ a ∈ file.chain, ∀ b ∈ file'.chain, a.hash = b.hash → a = b := by
    intro a ha b hb hab
    have hinputs := not_and.1 (fun hc => hfree ⟨_, _, file, file', hfile, hfile', a, ha, b, hb, hc⟩)
      (by rw [(h.verified.chain.2 a ha).1, (h'.verified.chain.2 b hb).1, hab])
    rw [not_not, Prod.mk.injEq, Prod.mk.injEq] at hinputs
    have howner : a.tenant = b.tenant := by rw [h.owner ha, h'.owner hb, hhead]
    cases a
    cases b
    simp_all
  have htake := HashChain.take_eq h.verified.chain.1 h'.verified.chain.1 hsame hcl hcl' (hhash.trans hhash'.symm)
  have hhead' : file.chain.head? = file'.chain.head? := by
    have htaken := congrArg List.head? htake
    rwa [List.head?_take, List.head?_take] at htaken
  have htaken : ∀ file : JournalFile, (file.chain.take (edge.forkedAt + 1)).map ChainLine.read <+: file.readLines :=
    fun _ => (List.take_prefix _ _).map _
  have hmem : cl.read ∈ (file.chain.take (edge.forkedAt + 1)).map ChainLine.read :=
    List.mem_map_of_mem (List.mem_of_getElem? (by rw [List.getElem?_take_of_lt (Nat.lt_succ_self _), hcl]))
  have hseq : cl.read.seq = edge.forkedAt := hn edge.forkedAt cl.read (by rw [JournalFile.readLines, List.getElem?_map, hcl]; rfl)
  refine ⟨by rw [JournalFile.readLines, JournalFile.readLines, List.head?_map, List.head?_map, hhead'], ?_⟩
  rw [ownEvents_grown (htaken file) hn ⟨_, hmem, hseq⟩]
  rw [htake] at hmem ⊢
  rw [ownEvents_grown (htaken file') hn' ⟨_, hmem, hseq⟩]

theorem History.split {upto : Option Nat} {events : List ScopedEvent} (h : History s run upto events)
    (hread : Reads s run lines) : (edgeOf lines = none ∧ events = ownEvents run upto lines) ∨
      ∃ edge parent inherited, edgeOf lines = some edge ∧ Reads s edge.parent parent ∧
        History s edge.parent (some edge.forkedAt) inherited ∧ events = inherited ++ ownEvents run upto lines := by
  cases h with
  | root hread' hroot =>
    cases hread'.unique hread
    exact .inl ⟨hroot, rfl⟩
  | fork hread' hedge hparent _ hinherited =>
    cases hread'.unique hread
    exact .inr ⟨_, _, _, hedge, hparent, hinherited, rfl⟩

theorem Ancestry.pinned {anc anc' : List (String × JournalFile)} {upto : Option Nat} {events events' : List ScopedEvent}
    (hfree : ¬ Collision E s s') (h : Ancestry E s lines anc) (h' : Ancestry E s' lines' anc')
    (hhead : lines.head? = lines'.head?) (hread : Reads s run lines) (hread' : Reads s' run lines')
    (hown : ownEvents run upto lines = ownEvents run upto lines')
    (hhist : History s run upto events) (hhist' : History s' run upto events') : events = events' := by
  have hedge : edgeOf lines = edgeOf lines' := by rw [edgeOf, edgeOf, hhead]
  induction h generalizing lines' anc' run upto events events' with
  | root hroot =>
    rcases hhist.split hread with ⟨-, rfl⟩ | ⟨_, _, _, hedge', -⟩
    · rcases hhist'.split hread' with ⟨-, rfl⟩ | ⟨_, _, _, hedge', -⟩
      · exact hown
      · rw [← hedge, hroot] at hedge'
        cases hedge'
    · rw [hroot] at hedge'
      cases hedge'
  | @parent lines edge file _ hsome hfile hlinked _ ih =>
    cases h' with
    | root hroot =>
      rw [← hedge, hsome] at hroot
      cases hroot
    | @parent _ edge' file' _ hsome' hfile' hlinked' hrest' =>
      rw [← hedge, hsome] at hsome'
      cases hsome'
      rcases hhist.split hread with ⟨hroot, -⟩ | ⟨_, _, _, hedge1, hparent, hinherited, rfl⟩
      · rw [hroot] at hsome
        cases hsome
      rcases hhist'.split hread' with ⟨hroot, -⟩ | ⟨_, _, _, hedge2, hparent', hinherited', rfl⟩
      · rw [← hedge, hsome] at hroot
        cases hroot
      cases hsome.symm.trans hedge1
      cases hsome.symm.trans (hedge.trans hedge2)
      obtain ⟨_, hfile1, rfl, hn⟩ := id hparent
      obtain ⟨_, hfile2, rfl, hn'⟩ := id hparent'
      cases hfile.symm.trans hfile1
      cases hfile'.symm.trans hfile2
      obtain ⟨hhead2, hown2⟩ := hlinked.agree hlinked' hn hn' hfile hfile' hfree hhead
      rw [hown, ih hrest' hhead2 hparent hparent' hown2 hinherited hinherited' (by rw [edgeOf, edgeOf, hhead2])]

theorem load_ancestry {events : List ScopedEvent} (h : loadForkedScoped E s run = .ok events)
    (hfile : s[run]? = some file) : Reads s run file.readLines ∧ ∃ anc, Ancestry E s file.readLines anc := by
  have hstart : (({} : Budget).expand run).Covers [] := ⟨Nat.zero_le _, Nat.zero_le _, Nat.zero_le _⟩
  obtain ⟨_, _, inherited, hopen, hinherits, -⟩ := expand_ok.1 h
  obtain ⟨-, _, hbegin, hread⟩ := openLines_none.1 hopen
  obtain ⟨-, rfl⟩ := beginExpand_ok.1 hbegin
  obtain ⟨-, rfl, rfl, hcovers⟩ := (readChain_iff hfile hstart).1 hread
  obtain ⟨anc, hanc, -⟩ := (inherits_iff (Budget.covers_cons.1 hcovers)).1 ⟨inherited, hinherits⟩
  exact ⟨readChain_ok hread, anc, hanc⟩

/-- **A run's own journal fixes its whole history**: whatever becomes of the other journals, the run loads with the same
events or not at all, unless two stored lines have one hash. -/
theorem load_pinned (E : Env) (s s' : Store) (run : String) (events events' : List ScopedEvent)
    (hsame : s[run]? = s'[run]?) (h : loadForkedScoped E s run = .ok events)
    (h' : loadForkedScoped E s' run = .ok events') : events = events' ∨ Collision E s s' := by
  by_cases hfree : Collision E s s'
  · exact .inr hfree
  left
  obtain ⟨_, ⟨file, hfile, -⟩, -⟩ := load_parent h
  obtain ⟨hread, _, hanc⟩ := load_ancestry h hfile
  obtain ⟨hread', _, hanc'⟩ := load_ancestry h' (hsame ▸ hfile)
  exact hanc.pinned hfree hanc' rfl hread hread' rfl (load_history h) (load_history h')

/-! ## One fork, and a parent that went on -/

def tagEnv : Env := { plainEnv with hashLine := fun prev seq event => prev ++ toString seq ++ toString event.turn }

def tagLine (prev : String) (seq turn : Nat) (start : RunStart) : ChainLine :=
  let payload := { seq := seq, turn := turn, kind := .runStart start }
  { seq := seq, tenant := "t", prev := prev, hash := tagEnv.hashLine prev seq payload, payload := payload }

def forkedStart : RunStart :=
  { plainStart with parentRun := some "p", forkedAt := some 0, parentHashAtSeq := some (tagLine zeroHash 0 0 plainStart).hash }

def forkedStore (later : List ChainLine) : Store :=
  ((∅ : Store).insert "c" { lines := [{ bytes := 1, content := some (tagLine zeroHash 0 1 forkedStart) }] }).insert "p"
    { lines := (tagLine zeroHash 0 0 plainStart :: later).map (fun line => { bytes := 1, content := some line }) }

def laterLine : ChainLine := tagLine (tagLine zeroHash 0 0 plainStart).hash 1 2 plainStart

theorem load_pinned_later : ∃ events events', loadForkedScoped tagEnv (forkedStore []) "c" = .ok events ∧
    loadForkedScoped tagEnv (forkedStore [laterLine]) "c" = .ok events' ∧ events.length = 2 ∧
    (events = events' ∨ Collision tagEnv (forkedStore []) (forkedStore [laterLine])) := by
  have hlen : (loadForkedScoped tagEnv (forkedStore []) "c").toOption.map List.length = some 2 := by rfl
  have hok : (loadForkedScoped tagEnv (forkedStore [laterLine]) "c").toOption.isSome = true := by rfl
  obtain ⟨events, h, hlen⟩ := Option.map_eq_some_iff.1 hlen
  obtain ⟨events', h'⟩ := Option.isSome_iff_exists.1 hok
  rw [toOption_eq_some] at h h'
  exact ⟨events, events', h, h', hlen, load_pinned _ _ _ _ _ _ (by rfl) h h'⟩

end Iteron.Session
