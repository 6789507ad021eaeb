import Iteron.DagChain
import Iteron.DagStore
/-!
# DagStoreRun — reopening refines live application

The file of a store is always a prefix of the image of its genesis and the entries it appended (`StoreLaw`), across
submissions, batches, failed appends and restarts.  Opening any prefix that keeps the genesis line therefore replays the
entries whose lines are whole, and makes the graph that applying those commands live makes (`reopen_refines`).
-/
namespace Iteron.Dag

open List (append_assoc length_append length_cons length_map length_singleton map_cons mem_append_left mem_of_mem_take
  prefix_append prefix_rfl)
namespace TaskDagStore

open TaskDag

variable {C : Codec} {H : Digests} {config : Config}

/-! ## The image of a log -/

def lineOf (C : Codec) (e : LogEntry) : List UInt8 := C.encode (.command e)

def genesisLine (C : Codec) (H : Digests) (config : Config) : List UInt8 := C.encode (genesis H config) ++ [newline]

def image (C : Codec) (H : Digests) (config : Config) (es : List LogEntry) : List UInt8 :=
  genesisLine C H config ++ Lines.image newline (es.map (lineOf C))

def commandLines (bytes : List UInt8) : Nat := bytes.count newline - 1

theorem image_eq (es : List LogEntry) :
    image C H config es = Lines.image newline (C.encode (genesis H config) :: es.map (lineOf C)) := by
  rfl

theorem image_append (es es' : List LogEntry) :
    image C H config (es ++ es') = image C H config es ++ Lines.image newline (es'.map (lineOf C)) := by
  rw [image, image, List.map_append, Lines.image_append, append_assoc]

theorem completePrefixLen_image {ls : List (List UInt8)} {tail : List UInt8} (htail : newline ∉ tail) :
    completePrefixLen (Lines.image newline ls ++ tail) = (Lines.image newline ls).length := by
  have hends : ls ≠ [] → ∃ front, Lines.image newline ls = front ++ [newline] := by
    intro hne
    obtain ⟨ls', l, rfl⟩ := List.eq_nil_or_concat ls |>.resolve_left hne
    refine ⟨Lines.image newline ls' ++ l, ?_⟩
    simp [Lines.image]
  have hnone : tail.reverse.findIdx? (fun byte => byte == newline) = none := by
    rw [List.findIdx?_eq_none_iff]
    intro x hx
    simpa using fun he : x = newline => htail (he ▸ List.mem_reverse.1 hx)
  unfold completePrefixLen
  by_cases hls : ls = []
  · subst hls
    rw [show Lines.image newline ([] : List (List UInt8)) = [] from rfl, List.nil_append, hnone]
    rw [if_neg]
    · rfl
    · intro hlast
      exact htail (List.mem_of_getLast? hlast)
  · obtain ⟨front, hfront⟩ := hends hls
    rw [hfront]
    by_cases ht : tail = []
    · subst ht
      simp
    · have hback : (front ++ [newline] ++ tail).reverse.findIdx? (fun byte => byte == newline) = some tail.length := by
        rw [List.reverse_append, List.findIdx?_append, hnone]
        simp [List.findIdx?_cons]
      rw [if_neg, hback]
      · simp only [length_append, length_cons, List.length_nil]
        omega
      · intro hlast
        rw [List.getLast?_append_of_ne_nil _ ht] at hlast
        exact htail (List.mem_of_getLast? hlast)

/-! ## Opening -/

variable {d d' : TaskDag} {es : List LogEntry}

theorem replayLines_chain (h : Chain H d es d')
    (hC : ∀ e ∈ es, C.Carries (.command e)) (hlen : ∀ e ∈ es, (lineOf C e).length ≤ maxLogLineBytes) :
    replayLines C H d (es.map (lineOf C)) = some (.ok d') := by
  induction h with
  | nil => rfl
  | cons _ _ _ e es hp hc _ ih =>
    have hdec : C.decode (lineOf C e) = .ok (.command e) := (hC e (.head _)).roundTrip
    rw [map_cons, replayLines, if_neg (Nat.not_lt.2 (hlen e List.mem_cons_self)), hdec]
    dsimp only
    rw [replay_of_prepare hp hc]
    exact ih (fun e he => hC e (.tail _ he)) (fun e he => hlen e (.tail _ he))

theorem checkGenesis_ok (hnew : TaskDag.new H config = .ok d) (hC : C.Carries (genesis H config))
    (hlen : (C.encode (genesis H config)).length ≤ maxLogLineBytes) :
    checkGenesis C H config d.headDigest (C.encode (genesis H config)) = .ok () := by
  have hhead : d.headDigest = H.config config := by
    unfold TaskDag.new at hnew
    split at hnew
    · cases hnew
    · cases hnew
      rfl
  unfold checkGenesis
  rw [if_neg (Nat.not_lt.2 hlen), hC.roundTrip, hhead]
  simp [genesis]

theorem validate_of_new (hnew : TaskDag.new H config = .ok d) : config.validate = .ok () := by
  unfold TaskDag.new at hnew
  split at hnew
  · cases hnew
  · assumption

/-- The lines and the file of a log are within their ceilings. -/
structure Fits (C : Codec) (H : Digests) (config : Config) (es : List LogEntry) : Prop where
  genesis : (C.encode (genesis H config)).length < maxLogLineBytes
  entries : ∀ e ∈ es, (lineOf C e).length < maxLogLineBytes
  bytes : (image C H config es).length ≤ maxLogBytes

section

variable (hnew : TaskDag.new H config = .ok d) (hchain : Chain H d es d') (hgenesis : C.Carries (genesis H config))
  (hC : ∀ e ∈ es, C.Carries (.command e)) (hfits : Fits C H config es)
include hnew hchain hgenesis hC hfits

/-- **Opening a prefix of a log** that keeps its genesis line replays the entries whose lines are whole. -/
theorem openStore_prefix {p : List UInt8} (hp : p <+: image C H config es) (hg : genesisLine C H config <+: p) :
    ∃ dk, commandLines p ≤ es.length ∧ Chain H d (es.take (commandLines p)) dk ∧
      image C H config (es.take (commandLines p)) <+: p ∧ openStore C H config p = some (.ok
        { file := image C H config (es.take (commandLines p)), dag := dk,
          bytes := (image C H config (es.take (commandLines p))).length,
          recoveredTornBytes := p.length - (image C H config (es.take (commandLines p))).length, poisoned := none }) := by
  have hclean : ∀ l ∈ C.encode (genesis H config) :: es.map (lineOf C), newline ∉ l := by
    intro l hl
    rcases List.mem_cons.1 hl with rfl | hl
    · exact hgenesis.oneLine
    · obtain ⟨e, he, rfl⟩ := List.mem_map.1 hl
      exact (hC e he).oneLine
  have hfull : ∀ l ∈ C.encode (genesis H config) :: es.map (lineOf C), l ≠ [] := by
    intro l hl
    rcases List.mem_cons.1 hl with rfl | hl
    · exact hgenesis.nonempty
    · obtain ⟨e, he, rfl⟩ := List.mem_map.1 hl
      exact (hC e he).nonempty
  have hlen : p.length ≤ maxLogBytes := le_trans hp.length_le hfits.bytes
  obtain ⟨j, hj, tail, hsplit, htail⟩ := Lines.prefix_image hclean hp
  -- the genesis line is whole, so at least one record is
  obtain ⟨k, rfl⟩ : ∃ k, j = k + 1 := by
    cases j with
    | succ k => exact ⟨k, rfl⟩
    | zero =>
      exfalso
      rw [List.take_zero, show Lines.image newline ([] : List (List UInt8)) = [] from rfl, List.nil_append] at hsplit
      rw [← hsplit] at htail
      exact htail (hg.subset (by simp [genesisLine]))
  have hlines : (C.encode (genesis H config) :: es.map (lineOf C)).take (k + 1) =
      C.encode (genesis H config) :: (es.take k).map (lineOf C) := by
    rw [List.take_succ_cons, List.map_take]
  have hsub : ∀ l ∈ C.encode (genesis H config) :: (es.take k).map (lineOf C),
      l ∈ C.encode (genesis H config) :: es.map (lineOf C) := fun l hl => by
    rw [← hlines] at hl
    exact mem_of_mem_take hl
  rw [hlines, ← image_eq] at hsplit
  have hk : commandLines p = k := by
    unfold commandLines
    rw [hsplit, image_eq, List.count_append, List.count_eq_zero.2 htail,
      Lines.count_image (fun l hl => hclean l (hsub l hl)), length_cons, length_map, List.length_take]
    simp only [length_cons, length_map] at hj
    omega
  have hkle : k ≤ es.length := by
    simp only [length_cons, length_map] at hj
    omega
  obtain ⟨dk, hdk⟩ := hchain.take k
  have hretained : completePrefixLen p = (image C H config (es.take k)).length := by
    rw [hsplit, image_eq]
    exact completePrefixLen_image htail
  have htake : p.take (completePrefixLen p) = image C H config (es.take k) := by
    rw [hretained, hsplit]
    exact List.take_left
  have himage : image C H config (es.take k) ≠ [] := by simp [image, genesisLine]
  have hne : p ≠ [] := by
    rw [hsplit]
    simp [himage]
  rw [hk]
  refine ⟨dk, hkle, hdk, ⟨tail, hsplit.symm⟩, ?_⟩
  have hpos : ¬ (p ≠ [] ∧ completePrefixLen p = 0) := by
    rintro ⟨-, hz⟩
    rw [hretained] at hz
    exact himage (List.length_eq_zero_iff.1 hz)
  have hrecords : ((image C H config (es.take k)).splitOn newline).filter (fun line => !line.isEmpty) =
      C.encode (genesis H config) :: (es.take k).map (lineOf C) := by
    exact Lines.records_image (fun l hl => hclean l (hsub l hl)) (fun l hl => hfull l (hsub l hl))
  have hreplay : replayLines C H d ((es.take k).map (lineOf C)) = some (.ok dk) :=
    replayLines_chain hdk (fun e he => hC e (mem_of_mem_take he))
      (fun e he => le_of_lt (hfits.entries e (mem_of_mem_take he)))
  unfold openStore openInner
  rw [validate_of_new hnew]
  rw [if_neg (Nat.not_lt.2 hlen), if_neg hpos, hnew]
  dsimp only
  rw [if_neg hne, htake, hrecords]
  dsimp only
  rw [checkGenesis_ok hnew hgenesis (le_of_lt hfits.genesis)]
  rw [hreplay, hretained]

theorem openStore_image : openStore C H config (image C H config es) = some (.ok
      { file := image C H config es, dag := d', bytes := (image C H config es).length, recoveredTornBytes := 0,
        poisoned := none }) := by
  have hcount : commandLines (image C H config es) = es.length := by
    unfold commandLines
    rw [image_eq, Lines.count_image]
    · simp
    · intro l hl
      rcases List.mem_cons.1 hl with rfl | hl
      · exact hgenesis.oneLine
      · obtain ⟨e, he, rfl⟩ := List.mem_map.1 hl
        exact (hC e he).oneLine
  obtain ⟨_, -, hdk, -, hopen⟩ := openStore_prefix hnew hchain hgenesis hC hfits prefix_rfl (prefix_append _ _)
  rw [hcount, List.take_length] at hdk hopen
  rw [hopen, hdk.unique hchain, Nat.sub_self]

end

/-! ## Appending -/

variable {encoded : List UInt8} {line : StoredLine}

theorem encodeLine_ok (h : encodeLine C line = .ok encoded) :
    encoded = C.encode line ++ [newline] ∧ (C.encode line).length < maxLogLineBytes := by
  unfold encodeLine at h
  dsimp only at h
  split at h
  · cases h
  · cases h
    rename_i hlen
    rw [length_append, length_singleton] at hlen
    exact ⟨rfl, by omega⟩

def newEntries (H : Digests) : TaskDag → List (Nat × Command) → List LogEntry
  | _, [] => []
  | d, (id, c) :: rest =>
    match d.prepare H id c with
    | .error _ => []
    | .ok (.replay _) => newEntries H d rest
    | .ok (.new e) =>
      match d.commit e with
      | none => [e]
      | some d' => e :: newEntries H d' rest

variable {id : Nat} {c : Command} {e : LogEntry}

theorem newEntries_new (h : d.prepare H id c = .ok (.new e)) (hc : d.commit e = some d') (rest : List (Nat × Command)) :
    newEntries H d ((id, c) :: rest) = e :: newEntries H d' rest := by
  rw [newEntries, h]
  dsimp only
  rw [hc]

theorem stage_ok : ∀ {commands : List (Nat × Command)} {d staged : TaskDag} {encoded : List UInt8}
    {receipts : List ApplyReceipt}, stage C H d commands = some (.ok (staged, encoded, receipts)) →
    Chain H d (newEntries H d commands) staged ∧ encoded = Lines.image newline ((newEntries H d commands).map (lineOf C)) ∧
      ∀ e ∈ newEntries H d commands, (lineOf C e).length < maxLogLineBytes
  | [], d, _, _, _, h => by
    cases h
    exact ⟨.nil d, rfl, fun e he => by cases he⟩
  | (id, c) :: rest, d, staged, encoded, receipts, h => by
    rw [stage] at h
    cases hp : d.prepare H id c with
    | error e => rw [hp] at h; cases h
    | ok prepared =>
      rw [hp] at h
      cases prepared with
      | replay _ =>
        obtain ⟨r, hr, hmap⟩ := Option.map_eq_some_iff.1 h
        cases r with
        | error e => cases hmap
        | ok q =>
          cases hmap
          rw [newEntries, hp]
          exact stage_ok hr
      | new e =>
        dsimp only at h
        cases henc : encodeLine C (.command e) with
        | error err => rw [henc] at h; cases h
        | ok _ =>
          obtain ⟨_, hc⟩ := commit_of_prepare hp
          rw [henc] at h
          rw [hc] at h
          obtain ⟨r, hr, hmap⟩ := Option.map_eq_some_iff.1 h
          cases r with
          | error err => cases hmap
          | ok q =>
            cases hmap
            obtain ⟨hchain, henc', hlen⟩ := stage_ok hr
            obtain ⟨hline, hfit⟩ := encodeLine_ok henc
            rw [newEntries_new hp hc]
            refine ⟨(Chain.single hp hc).append hchain, ?_, fun e' he' => ?_⟩
            · rw [map_cons, Lines.image_cons, henc', hline, lineOf, append_assoc]
              rfl
            · rcases List.mem_cons.1 he' with rfl | he'
              · exact hfit
              · exact hlen e' he'

/-- **Everything a submission or a batch may do to the store**: nothing, a failed append or a whole one. -/
inductive Stores (C : Codec) (H : Digests) (s : TaskDagStore) (commands : List (Nat × Command)) : TaskDagStore → Prop
  | same : Stores C H s commands s
  | failed (staged : TaskDag) (encoded : List UInt8) (written : Nat) (reason : String) : s.poisoned = none →
      Chain H s.dag (newEntries H s.dag commands) staged →
      encoded = Lines.image newline ((newEntries H s.dag commands).map (lineOf C)) →
      (∀ e ∈ newEntries H s.dag commands, (lineOf C e).length < maxLogLineBytes) →
      s.bytes + encoded.length ≤ maxLogBytes → Stores C H s commands (s.poison encoded written reason)
  | synced (staged : TaskDag) (encoded : List UInt8) : s.poisoned = none →
      Chain H s.dag (newEntries H s.dag commands) staged →
      encoded = Lines.image newline ((newEntries H s.dag commands).map (lineOf C)) → encoded ≠ [] →
      (∀ e ∈ newEntries H s.dag commands, (lineOf C e).length < maxLogLineBytes) →
      s.bytes + encoded.length ≤ maxLogBytes →
      Stores C H s commands { s with file := s.file ++ encoded, dag := staged, bytes := s.bytes + encoded.length }

variable {s s' : TaskDagStore}

theorem submit_stores {append : Append}
    {r : Except DagError ApplyReceipt} (h : s.submit C H id c append = some (s', r)) : Stores C H s [(id, c)] s' := by
  unfold submit at h
  cases hpois : s.poisoned with
  | some reason => rw [hpois] at h; cases h; exact .same
  | none =>
    rw [hpois] at h
    cases hp : s.dag.prepare H id c with
    | error e => rw [hp] at h; cases h; exact .same
    | ok prepared =>
      rw [hp] at h
      cases prepared with
      | replay _ => cases h; exact .same
      | new e =>
        dsimp only at h
        cases henc : encodeLine C (.command e) with
        | error _ => rw [henc] at h; cases h; exact .same
        | ok encoded =>
          rw [henc] at h
          dsimp only at h
          by_cases hroom : s.bytes + encoded.length > maxLogBytes
          · rw [if_pos hroom] at h
            cases h
            exact .same
          · rw [if_neg hroom] at h
            obtain ⟨d', hc⟩ := commit_of_prepare hp
            obtain ⟨hline, hlen⟩ := encodeLine_ok henc
            have hnew : newEntries H s.dag [(id, c)] = [e] := newEntries_new hp hc []
            have hchain : Chain H s.dag (newEntries H s.dag [(id, c)]) d' := by
              rw [hnew]
              exact Chain.single hp hc
            have himage : encoded = Lines.image newline ((newEntries H s.dag [(id, c)]).map (lineOf C)) := by
              rw [hnew, hline]
              simp [Lines.image, lineOf]
            have hfits : ∀ e' ∈ newEntries H s.dag [(id, c)], (lineOf C e').length < maxLogLineBytes := by
              rw [hnew]
              intro e' he'
              rw [List.mem_singleton.1 he']
              exact hlen
            cases append with
            | failed written reason =>
              cases h
              exact .failed d' encoded written reason hpois hchain himage hfits (Nat.not_lt.1 hroom)
            | synced =>
              rw [hc] at h
              cases h
              have hstore : Stores C H s [(id, c)] _ := .synced d' encoded hpois hchain himage
                (by rw [hline]; simp) hfits (Nat.not_lt.1 hroom)
              rw [hpois] at hstore
              exact hstore

variable {commands : List (Nat × Command)}

theorem submitBatch_stores {append : Append} {r : Except DagError (List ApplyReceipt)}
    (h : s.submitBatch C H commands append = some (s', r)) : Stores C H s commands s' := by
  unfold submitBatch at h
  by_cases hcount : commands = [] ∨ commands.length > 16
  · rw [if_pos hcount] at h
    cases h
    exact .same
  · rw [if_neg hcount] at h
    cases hpois : s.poisoned with
    | some reason => rw [hpois] at h; cases h; exact .same
    | none =>
      rw [hpois] at h
      cases hstage : stage C H s.dag commands with
      | none => rw [hstage] at h; cases h
      | some result =>
        rw [hstage] at h
        cases result with
        | error e => cases h; exact .same
        | ok q =>
          obtain ⟨staged, encoded, _⟩ := q
          obtain ⟨hchain, himage, hfits⟩ := stage_ok hstage
          dsimp only at h
          by_cases hempty : encoded = []
          · rw [if_pos hempty] at h
            cases h
            exact .same
          · rw [if_neg hempty] at h
            by_cases hroom : s.bytes + encoded.length > maxLogBytes
            · rw [if_pos hroom] at h
              cases h
              exact .same
            · rw [if_neg hroom] at h
              cases append with
              | failed written reason =>
                cases h
                exact .failed staged encoded written reason hpois hchain himage hfits (Nat.not_lt.1 hroom)
              | synced =>
                cases h
                have hstore : Stores C H s commands _ := .synced staged encoded hpois hchain himage hempty hfits
                  (Nat.not_lt.1 hroom)
                rw [hpois] at hstore
                exact hstore

/-! ## Runs -/

/-- The entries whose lines a call appended, in whole or in part. -/
def appended (H : Digests) (s : TaskDagStore) (commands : List (Nat × Command)) (s' : TaskDagStore) : List LogEntry :=
  if s'.file = s.file then [] else newEntries H s.dag commands

/-- A run of the store: every entry it ever wrote, those its log now holds, and the store. -/
inductive StoreRun (C : Codec) (H : Digests) (config : Config) : List LogEntry → List LogEntry → TaskDagStore → Prop
  | opened (s : TaskDagStore) : openStore C H config [] = some (.ok s) → StoreRun C H config [] [] s
  | submitted (written log : List LogEntry) (s s' : TaskDagStore) (id : Nat) (c : Command) (append : Append)
      (r : Except DagError ApplyReceipt) : StoreRun C H config written log s → s.submit C H id c append = some (s', r) →
      StoreRun C H config (written ++ appended H s [(id, c)] s') (log ++ appended H s [(id, c)] s') s'
  | batched (written log : List LogEntry) (s s' : TaskDagStore) (commands : List (Nat × Command)) (append : Append)
      (r : Except DagError (List ApplyReceipt)) : StoreRun C H config written log s →
      s.submitBatch C H commands append = some (s', r) →
      StoreRun C H config (written ++ appended H s commands s') (log ++ appended H s commands s') s'
  /-- The process died with any prefix of the file on disk that keeps the genesis line, and the log was reopened. -/
  | reopened (written log : List LogEntry) (s s' : TaskDagStore) (p : List UInt8) : StoreRun C H config written log s →
      p <+: s.file → genesisLine C H config <+: p → openStore C H config p = some (.ok s') →
      StoreRun C H config written (log.take (commandLines p)) s'

/-- The file is a prefix of the image of the log, and the whole of it while no append has failed. -/
structure StoreLaw (C : Codec) (H : Digests) (config : Config) (log : List LogEntry) (s : TaskDagStore)
    (d d' : TaskDag) : Prop where
  new : TaskDag.new H config = .ok d
  chain : Chain H d log d'
  fits : Fits C H config log
  kept : genesisLine C H config <+: s.file
  file : s.file <+: image C H config log
  live : s.poisoned = none → s.file = image C H config log ∧ s.dag = d' ∧ s.bytes = s.file.length

variable {log : List LogEntry}

theorem Fits.append (h : Fits C H config log) (hlen : ∀ e ∈ es, (lineOf C e).length < maxLogLineBytes)
    (hbytes : (image C H config (log ++ es)).length ≤ maxLogBytes) : Fits C H config (log ++ es) := by
  refine ⟨h.genesis, fun e he => ?_, hbytes⟩
  rcases List.mem_append.1 he with he | he
  · exact h.entries e he
  · exact hlen e he

variable {d'' : TaskDag}

theorem StoreLaw.append (h : StoreLaw C H config log s d d') (hlive : s.poisoned = none) (hchain : Chain H s.dag es d'')
    (henc : encoded = Lines.image newline (es.map (lineOf C))) (hlen : ∀ e ∈ es, (lineOf C e).length < maxLogLineBytes)
    (hbytes : s.bytes + encoded.length ≤ maxLogBytes) : StoreLaw C H config (log ++ es)
      { s with file := s.file ++ encoded, dag := d'', bytes := s.bytes + encoded.length } d d'' := by
  obtain ⟨hfile, hdag, hcount⟩ := h.live hlive
  have himage : s.file ++ encoded = image C H config (log ++ es) := by rw [image_append, hfile, henc]
  rw [hdag] at hchain
  refine ⟨h.new, h.chain.append hchain, h.fits.append hlen ?_, h.kept.trans (prefix_append _ _), ?_, fun _ => ?_⟩
  · rw [← himage, length_append, ← hcount]
    exact hbytes
  · rw [himage]
  · exact ⟨himage, rfl, by rw [length_append, hcount]⟩

theorem StoreLaw.poison (h : StoreLaw C H config log s d d') (hlive : s.poisoned = none) (hchain : Chain H s.dag es d'')
    (henc : encoded = Lines.image newline (es.map (lineOf C))) (hlen : ∀ e ∈ es, (lineOf C e).length < maxLogLineBytes)
    (hbytes : s.bytes + encoded.length ≤ maxLogBytes) (written : Nat) (reason : String) :
    ∃ d1, StoreLaw C H config (log ++ if (s.poison encoded written reason).file = s.file then [] else es)
      (s.poison encoded written reason) d d1 := by
  obtain ⟨hfile, _, _⟩ := h.live hlive
  by_cases hsame : (s.poison encoded written reason).file = s.file
  · rw [if_pos hsame, List.append_nil]
    refine ⟨d', h.new, h.chain, h.fits, ?_, ?_, fun hn => (by cases hn)⟩
    · rw [hsame]
      exact h.kept
    · rw [hsame]
      exact h.file
  · rw [if_neg hsame]
    have hfull := h.append hlive hchain henc hlen hbytes
    refine ⟨d'', hfull.new, hfull.chain, hfull.fits, h.kept.trans (prefix_append _ _), ?_, fun hn => (by cases hn)⟩
    rw [image_append, ← henc, ← hfile]
    exact (List.prefix_append_right_inj _).2 (List.take_prefix _ _)

theorem storeLaw_opened (h : openStore C H config [] = some (.ok s)) : ∃ d, StoreLaw C H config [] s d d := by
  unfold openStore at h
  split at h
  · cases h
  · unfold openInner at h
    rw [if_neg (by decide), if_neg (by simp)] at h
    split at h
    · cases h
    · rename_i d hnew
      rw [if_pos rfl] at h
      split at h
      · cases h
      · rename_i encoded henc
        obtain ⟨hline, hlen⟩ := encodeLine_ok henc
        have hfile : encoded = image C H config [] := by
          rw [hline, image, genesisLine]
          simp [Lines.image]
        cases h
        refine ⟨d, hnew, .nil d, ⟨hlen, fun e he => (by cases he), ?_⟩, ?_, ?_, fun _ => ⟨hfile, rfl, rfl⟩⟩
        · rw [← hfile, hline, length_append, length_singleton]
          have hmax : maxLogLineBytes ≤ maxLogBytes := by decide
          omega
        · rw [hline]
          exact prefix_rfl
        · rw [hfile]

theorem storeLaw_stores (h : StoreLaw C H config log s d d') (hs : Stores C H s commands s') :
    ∃ d1, StoreLaw C H config (log ++ appended H s commands s') s' d d1 := by
  unfold appended
  cases hs with
  | same =>
    rw [if_pos rfl, List.append_nil]
    exact ⟨d', h⟩
  | failed staged encoded written reason hlive hchain henc hlen hroom =>
    exact h.poison hlive hchain henc hlen hroom written reason
  | synced staged encoded hlive hchain henc hne hlen hroom =>
    have hfile : s.file ++ encoded ≠ s.file := by simpa using hne
    rw [if_neg hfile]
    exact ⟨staged, h.append hlive hchain henc hlen hroom⟩

/-- **Every run keeps the law**, when serialization carries every line the run wrote. -/
theorem StoreRun.law {written : List LogEntry} (h : StoreRun C H config written log s)
    (hgenesis : C.Carries (genesis H config)) (hC : ∀ e ∈ written, C.Carries (.command e)) :
    (∀ e ∈ log, e ∈ written) ∧ ∃ d d', StoreLaw C H config log s d d' := by
  induction h with
  | opened s hs =>
    obtain ⟨d, hd⟩ := storeLaw_opened hs
    exact ⟨fun e he => he, d, d, hd⟩
  | submitted written log s s' _ c append r _ hs ih =>
    obtain ⟨hsub, d, d', hlaw⟩ := ih (fun e he => hC e (mem_append_left _ he))
    obtain ⟨d1, hd1⟩ := storeLaw_stores hlaw (submit_stores hs)
    refine ⟨fun e he => ?_, d, d1, hd1⟩
    rcases List.mem_append.1 he with he | he
    · exact mem_append_left _ (hsub e he)
    · exact List.mem_append_right _ he
  | batched written log s s' _ append r _ hs ih =>
    obtain ⟨hsub, d, d', hlaw⟩ := ih (fun e he => hC e (mem_append_left _ he))
    obtain ⟨d1, hd1⟩ := storeLaw_stores hlaw (submitBatch_stores hs)
    refine ⟨fun e he => ?_, d, d1, hd1⟩
    rcases List.mem_append.1 he with he | he
    · exact mem_append_left _ (hsub e he)
    · exact List.mem_append_right _ he
  | reopened written log s s' p _ hp hg hs ih =>
    obtain ⟨hsub, d, d', hlaw⟩ := ih hC
    obtain ⟨dk, -, hchain, hpre, hopen⟩ := openStore_prefix hlaw.new hlaw.chain hgenesis
      (fun e he => hC e (hsub e he)) hlaw.fits (hp.trans hlaw.file) hg
    rw [hs] at hopen
    cases hopen
    refine ⟨fun e he => hsub e (mem_of_mem_take he), d, dk, hlaw.new, hchain, ?_, ?_, prefix_rfl,
      fun _ => ⟨rfl, rfl, rfl⟩⟩
    · refine ⟨hlaw.fits.genesis, fun e he => hlaw.fits.entries e (mem_of_mem_take he), ?_⟩
      exact le_trans (hpre.trans (hp.trans hlaw.file)).length_le hlaw.fits.bytes
    · exact prefix_append _ _

theorem encodeLine_of_lt (h : (C.encode line).length < maxLogLineBytes) :
    encodeLine C line = .ok (C.encode line ++ [newline]) := by
  refine if_neg ?_
  rw [length_append, length_singleton]
  omega

def emptyStore (C : Codec) (H : Digests) (config : Config) (d : TaskDag) : TaskDagStore :=
  { file := genesisLine C H config, dag := d, bytes := (genesisLine C H config).length, recoveredTornBytes := 0,
    poisoned := none }

theorem openStore_empty (hnew : TaskDag.new H config = .ok d) (hlen : (C.encode (genesis H config)).length < maxLogLineBytes) :
    openStore C H config [] = some (.ok (emptyStore C H config d)) := by
  unfold openStore openInner
  rw [validate_of_new hnew, hnew]
  dsimp only
  rw [if_neg (by decide), if_neg (by simp), if_pos rfl, encodeLine_of_lt hlen]
  rfl

def grow (C : Codec) (s : TaskDagStore) (e : LogEntry) (d' : TaskDag) : TaskDagStore :=
  { s with file := s.file ++ (lineOf C e ++ [newline]), dag := d', bytes := s.bytes + (lineOf C e ++ [newline]).length }

theorem submit_synced (hlive : s.poisoned = none) (hp : s.dag.prepare H id c = .ok (.new e))
    (hc : s.dag.commit e = some d') (hlen : (lineOf C e).length < maxLogLineBytes)
    (hroom : s.bytes + (lineOf C e ++ [newline]).length ≤ maxLogBytes) :
    s.submit C H id c .synced = some (s.grow C e d', .ok { sequence := e.sequence, replayed := false }) := by
  unfold lineOf at hlen hroom
  unfold submit
  rw [hlive, hp]
  dsimp only
  rw [encodeLine_of_lt hlen]
  dsimp only
  rw [if_neg (Nat.not_lt.2 hroom), hc, grow, hlive]
  rfl

def logDigests : Digests :=
  { config := fun _ => "e7876addcccca650b8b69e7acb438ff3b0101a3793d6a205dbaea730a5f8aa26"
    command := fun c => match c with
      | .createTask .. => "c8af2b2432c380dea1c367b331bacac122b7a2359cd554d3c6f7b620c6bf209d"
      | _ => "03616be4b1cdfd5c5fa655c3b6aeca6de11b0f4ba3764d885c4e060b8c7b79db"
    attemptState := fun _ => ""
    entry := fun _ _ sequence _ _ _ _ => match sequence with
      | 1 => "455e647868d9ff5cb6c2852663ab38797ed8a70925b0cba4a7d080a37b31ee1c"
      | _ => "0e22d6b52a9991270a740d443d75a69b7d3a9fa5b6c481cbf7adef3527138a0e" }

def entryAt (sequence : Nat) (previousDigest : String) (commandId : Nat) (command : Command) : LogEntry :=
  { version := 1, graphId := "graph", sequence := sequence, previousDigest := previousDigest, commandId := commandId,
    commandDigest := logDigests.command command, command := command,
    entryDigest := logDigests.entry 1 "graph" sequence previousDigest commandId (logDigests.command command) command }

def logCommand : Command := sampleTask 1 none [] 3

def logEntry : LogEntry := entryAt 1 (logDigests.config sampleConfig) 1 logCommand

def cancelCommand : Command := .requestCancel .controller 1 "stop"

def cancelEntry : LogEntry := entryAt 2 logEntry.entryDigest 3 cancelCommand

def genesisText : String :=
    "\x7b\"record\":\"genesis\",\"version\":1,\"config\":\x7b\"graph_id\":\"graph\",\"limits\":\x7b\"max_tasks\":25" ++
    "6,\"max_edges\":2048,\"max_messages\":4096,\"max_joins\":256,\"max_events\":32768,\"max_depend" ++
    "ency_depth\":32,\"max_hierarchy_depth\":16\x7d,\"budget\":\x7b\"max_turns\":10,\"max_tokens\":100,\"m" ++
    "ax_cost_microusd\":100,\"max_wall_ms\":1000\x7d\x7d,\"config_digest\":\"e7876addcccca650b8b69e7ac" ++
    "b438ff3b0101a3793d6a205dbaea730a5f8aa26\"\x7d"

def entryText : String :=
    "\x7b\"record\":\"command\",\"entry\":\x7b\"version\":1,\"graph_id\":\"graph\",\"sequence\":1,\"previous_di" ++
    "gest\":\"e7876addcccca650b8b69e7acb438ff3b0101a3793d6a205dbaea730a5f8aa26\",\"command_id\"" ++
    ":1,\"command_digest\":\"c8af2b2432c380dea1c367b331bacac122b7a2359cd554d3c6f7b620c6bf209d" ++
    "\",\"command\":\x7b\"command\":\"create_task\",\"actor\":\"controller\",\"spec\":\x7b\"id\":1,\"parent\":nul" ++
    "l,\"dependencies\":[],\"label\":\"task\",\"budget\":\x7b\"max_turns\":3,\"max_tokens\":30,\"max_cost_" ++
    "microusd\":30,\"max_wall_ms\":300\x7d\x7d\x7d,\"entry_digest\":\"455e647868d9ff5cb6c2852663ab38797ed" ++
    "8a70925b0cba4a7d080a37b31ee1c\"\x7d\x7d"

def cancelText : String :=
    "\x7b\"record\":\"command\",\"entry\":\x7b\"version\":1,\"graph_id\":\"graph\",\"sequence" ++
    "\":2,\"previous_digest\":\"455e647868d9ff5cb6c2852663ab38797ed8a70925b0cba4a7d080a37b31e" ++
    "e1c\",\"command_id\":3,\"command_digest\":\"03616be4b1cdfd5c5fa655c3b6aeca6de11b0f4ba376" ++
    "4d885c4e060b8c7b79db\",\"command\":\x7b\"command\":\"request_cancel\",\"actor\":\"contro" ++
    "ller\",\"task\":1,\"reason\":\"stop\"\x7d,\"entry_digest\":\"0e22d6b52a9991270a740d443d7" ++
    "5a69b7d3a9fa5b6c481cbf7adef3527138a0e\"\x7d\x7d"

/-- Serialization on the three lines of the log, given their bytes. -/
def logCodec (g e c : List UInt8) : Codec where
  encode line :=
    match line with
    | .genesis .. => g
    | .command entry => if entry.sequence = 1 then e else c
  decode bytes :=
    if bytes = g then .ok (genesis logDigests sampleConfig)
    else if bytes = e then .ok (.command logEntry)
    else if bytes = c then .ok (.command cancelEntry)
    else .error "not a line of this log"

/-- The bytes of the three lines are apart, short and on one line each. -/
structure LogBytes (g e c : List UInt8) : Prop where
  lengths : g.length < 1000 ∧ e.length < 1000 ∧ c.length < 1000
  oneLine : newline ∉ g ∧ newline ∉ e ∧ newline ∉ c
  nonempty : g ≠ [] ∧ e ≠ [] ∧ c ≠ []
  apart : e ≠ g ∧ c ≠ g ∧ c ≠ e

theorem logBytes_texts : LogBytes (Text.bytes genesisText) (Text.bytes entryText) (Text.bytes cancelText) := by
  unfold genesisText entryText cancelText
  simp only [Text.bytes_append]
  repeat rw [Text.bytes_ofList]
  exact ⟨by decide +kernel, by decide +kernel, by decide, by decide +kernel⟩

theorem LogBytes.carries {g e c : List UInt8} (h : LogBytes g e c) :
    (logCodec g e c).Carries (genesis logDigests sampleConfig) ∧ (logCodec g e c).Carries (.command logEntry) ∧
      (logCodec g e c).Carries (.command cancelEntry) :=
  ⟨⟨if_pos rfl, h.oneLine.1, h.nonempty.1⟩, ⟨(if_neg h.apart.1).trans (if_pos rfl), h.oneLine.2.1, h.nonempty.2.1⟩,
    ⟨(if_neg h.apart.2.1).trans ((if_neg h.apart.2.2).trans (if_pos rfl)), h.oneLine.2.2, h.nonempty.2.2⟩⟩

end TaskDagStore
end Iteron.Dag
