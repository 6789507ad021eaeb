import Iteron.WorkflowJournal
/-!
# WorkflowJournalRun — the journal over runs and crashes

One run id is opened, written and left any number of times; a write that does not end leaves any part of its batch, and
what the next run appends follows it on the same line.  As long as no cut falls inside a character or takes the newline
of a result line alone, every later open finds the last record of each key whose result line is whole
(`journal_survives`).
-/
namespace Iteron.WorkflowJournal

open List (append_assoc append_nil foldl_cons length_append mem_cons not_mem_nil prefix_rfl)

/-- How the batch of a record call reached the file: all of it, or a part before the write failed or the process died. -/
inductive Ending where
  | done
  | failed (written : Nat) (message : String)
  | crashed (written : Nat)

inductive Event where
  | open
  | call (key agentId : String) (record : Record) (ending : Ending)
  | crash

structure World where
  file : List UInt8
  journal : Option Journal
  whole : List (String × Record)  -- the record calls whose result line is whole in the file, oldest first

def World.init : World := { file := [], journal := none, whole := [] }

def Ending.part (ending : Ending) (bytes : List UInt8) : List UInt8 :=
  match ending with
  | .done => bytes
  | .failed written _ => bytes.take written
  | .crashed written => bytes.take written

def wholeCall (C : Codec) (key agentId : String) (record : Record) (ending : Ending) : List (String × Record) :=
  if ending.part (batch C key agentId record) = batch C key agentId record then [(key, record)] else []

def advance (C : Codec) (w : World) (e : Event) : World :=
  match e with
  | .open =>
    match w.journal, Journal.open C w.file with
    | none, .ok j => { w with journal := some j }
    | _, _ => w
  | .call key agentId record ending =>
    match w.journal with
    | none => w
    | some j =>
      match j.failure, ending with
      | some _, .crashed _ => { w with journal := none }
      | some _, _ => w
      | none, .done =>
        let (j', file, _) := j.record C w.file key agentId record .done
        { file := file, journal := some j', whole := w.whole ++ wholeCall C key agentId record ending }
      | none, .failed written message =>
        let (j', file, _) := j.record C w.file key agentId record (.failed written message)
        { file := file, journal := some j', whole := w.whole ++ wholeCall C key agentId record ending }
      | none, .crashed written =>
        { file := w.file ++ (batch C key agentId record).take written, journal := none,
          whole := w.whole ++ wholeCall C key agentId record ending }
  | .crash => { w with journal := none }

def run (C : Codec) (es : List Event) : World := es.foldl (advance C) World.init

def Event.lines : Event → List Line
  | .call key agentId record _ => [started key agentId, result key agentId record]
  | _ => []

def lastLine (bytes : List UInt8) : List UInt8 := ((bytes.splitOn newline).getLast?).getD []

/-- A cut that falls between two characters and does not take the last newline alone. -/
def Event.cleanCut (C : Codec) : Event → Prop
  | .call key agentId record ending =>
    let part := ending.part (batch C key agentId record)
    (text? (lastLine part)).isSome ∧ part ≠ (batch C key agentId record).dropLast
  | _ => True

def lastRecord (calls : List (String × Record)) (key : String) : Option Record :=
  (calls.reverse.find? (fun call => call.1 == key)).map Prod.snd

/-! ## Texts -/

variable {C : Codec}

variable {bytes : List UInt8} {text : String}

theorem text?_eq_some : text? bytes = some text ↔ textBytes text = bytes := by
  unfold text? textBytes
  constructor
  · intro h
    split at h
    · cases h
      rfl
    · cases h
  · intro h
    have hbytes : ByteArray.mk bytes.toArray = text.toByteArray := by rw [← h]
    have hvalid : (ByteArray.mk bytes.toArray).IsValidUTF8 := hbytes ▸ text.isValidUTF8
    rw [dif_pos hvalid]
    exact congrArg some (String.toByteArray_inj.1 hbytes)

theorem text?_append {front back : List UInt8} (hfront : (text? front).isSome) (hback : (text? back).isSome) :
    (text? (front ++ back)).isSome := by
  obtain ⟨a, ha⟩ := Option.isSome_iff_exists.1 hfront
  obtain ⟨b, hb⟩ := Option.isSome_iff_exists.1 hback
  rw [text?_eq_some] at ha hb
  refine Option.isSome_iff_exists.2 ⟨a ++ b, text?_eq_some.2 ?_⟩
  rw [← ha, ← hb]
  simp [textBytes]

theorem text?_textBytes (text : String) : (text? (textBytes text)).isSome :=
  Option.isSome_iff_exists.2 ⟨text, text?_eq_some.2 rfl⟩

/-! ## What the reader makes of a line -/

/-- The key and record of a line that is a result of this version. -/
def readLine (C : Codec) (bytes : List UInt8) : Option (String × Record) :=
  match text? bytes with
  | none => none
  | some text =>
    if text.toList.all Text.isWhitespace then none
    else match C.fromStr text with
      | some (.result version key _ record) => if version = journalFormatVersion then some (key, record) else none
      | _ => none

def insertCall (cache : Cache) (call : String × Record) : Cache := cache.insert call.1 call.2

theorem insertLine_eq (h : text? bytes = some text) (cache : Cache) :
    insertLine C cache text = (readLine C bytes).toList.foldl insertCall cache := by
  unfold insertLine readLine
  rw [h]
  dsimp only
  split
  · rfl
  · cases C.fromStr text with
    | none => rfl
    | some line =>
      cases line with
      | result _ _ _ _ =>
        dsimp only
        split <;> rfl
      | started _ _ _ => rfl
      | unknown => rfl

theorem foldlM_loadLine : ∀ {ls : List (List UInt8)} (cache : Cache), (∀ l ∈ ls, (text? l).isSome) →
    ls.foldlM (loadLine C) cache = .ok ((ls.filterMap (readLine C)).foldl insertCall cache)
  | [], _, _ => rfl
  | l :: ls, cache, h => by
    obtain ⟨text, htext⟩ := Option.isSome_iff_exists.1 (h l (.head _))
    have hline : loadLine C cache l = .ok (insertLine C cache text) := by
      unfold loadLine
      rw [htext]
    have hrest := foldlM_loadLine (insertLine C cache text) (fun l' hl' => h l' (.tail _ hl'))
    rw [List.foldlM_cons, hline]
    refine hrest.trans ?_
    rw [insertLine_eq htext, List.filterMap_cons]
    cases readLine C l <;> rfl

theorem get_foldl_insertCall (key : String) : ∀ (calls : List (String × Record)) (cache : Cache),
    (calls.foldl insertCall cache)[key]? = (lastRecord calls key).or cache[key]?
  | [], _ => rfl
  | call :: calls, cache => by
    rw [foldl_cons, get_foldl_insertCall key calls, insertCall, Table.get_insert]
    unfold lastRecord
    rw [List.reverse_cons, List.find?_append]
    cases calls.reverse.find? (fun call => call.1 == key) with
    | some _ => rfl
    | none =>
      by_cases hk : call.1 = key
      · simp [hk]
      · simp [hk]

/-! ## What a file holds -/

def Inert (C : Codec) (tail : List UInt8) : Prop :=
  tail = [] ∨ (JsonScan.run .start tail ≠ .start ∧ readLine C tail = none)

structure TextLine (l : List UInt8) : Prop where
  oneLine : newline ∉ l
  noCr : l.getLast? ≠ some 13
  text : (text? l).isSome

/-- **A file and the calls whose result lines are whole in it**: text lines, and an unfinished last one that reads as
nothing. -/
structure Holds (C : Codec) (file : List UInt8) (calls : List (String × Record)) (ls : List (List UInt8))
    (tail : List UInt8) : Prop where
  file : file = Lines.image newline ls ++ tail
  each : ∀ l ∈ ls, TextLine l
  tailLine : newline ∉ tail
  tailText : (text? tail).isSome
  inert : Inert C tail
  calls : ls.filterMap (readLine C) = calls

variable {ls : List (List UInt8)} {tail : List UInt8}

theorem lines_image (hls : ∀ l ∈ ls, TextLine l) (htail : newline ∉ tail) :
    lines (Lines.image newline ls ++ tail) = ls ++ (if tail = [] then [] else [tail]) := by
  have hstrip : ls.map stripCr = ls := by
    refine (List.map_congr_left (fun l hl => ?_)).trans (List.map_id ls)
    exact if_neg (hls l hl).noCr
  unfold lines
  rw [Lines.splitOn_image_append htail (fun l hl => (hls l hl).oneLine)]
  simp only [List.dropLast_concat, List.getLast?_concat, Option.some.injEq, hstrip, Option.toList_some]

theorem open_image {ls : List (List UInt8)} {tail : List UInt8} (hls : ∀ l ∈ ls, TextLine l) (htail : newline ∉ tail)
    (htext : (text? tail).isSome) : ∃ j, Journal.open C (Lines.image newline ls ++ tail) = .ok j ∧
      ∀ key, j.get key = lastRecord ((ls ++ (if tail = [] then [] else [tail])).filterMap (readLine C)) key := by
  have htexts : ∀ l ∈ ls ++ (if tail = [] then [] else [tail]), (text? l).isSome := by
    intro l hl
    rcases List.mem_append.1 hl with hl | hl
    · exact (hls l hl).text
    · split at hl
      · cases hl
      · rw [List.mem_singleton.1 hl]
        exact htext
  have hload := @foldlM_loadLine C _ ∅ htexts
  rw [← lines_image hls htail] at hload
  refine ⟨_, congrArg (Except.map _) hload, fun key => ?_⟩
  have hget := get_foldl_insertCall key ((lines (Lines.image newline ls ++ tail)).filterMap (readLine C)) ∅
  simpa [Journal.get, lines_image hls htail] using hget

variable {file : List UInt8} {calls : List (String × Record)}

theorem Holds.reopens (h : Holds C file calls ls tail) :
    ∃ j, Journal.open C file = .ok j ∧ ∀ key, j.get key = lastRecord calls key := by
  have hread : (ls ++ (if tail = [] then [] else [tail])).filterMap (readLine C) = calls := by
    rw [List.filterMap_append, h.calls]
    rcases h.inert with htail | ⟨-, hnone⟩
    · rw [if_pos htail]
      simp
    · split
      · simp
      · simp [hnone]
  obtain ⟨j, hopen, hget⟩ := @open_image C _ _ h.each h.tailLine h.tailText
  rw [← h.file] at hopen
  rw [hread] at hget
  exact ⟨j, hopen, hget⟩

/-! ## A part of a batch -/

theorem prefix_of_not_mem {α : Type} {sep : α} {tail l rest : List α} (h : tail <+: l ++ sep :: rest)
    (hsep : sep ∉ tail) : tail <+: l := by
  rcases List.prefix_or_prefix_of_prefix h (List.prefix_append l (sep :: rest)) with hp | ⟨more, rfl⟩
  · exact hp
  · have hmore : more <+: sep :: rest := (List.prefix_append_right_inj l).1 h
    cases more with
    | nil => simp
    | cons b more =>
      obtain ⟨rfl, -⟩ := List.cons_prefix_cons.1 hmore
      cases hsep (List.mem_append_right l (.head _))

variable {part : List UInt8}

theorem part_cases {s r : List UInt8} (hs : newline ∉ s) (hr : newline ∉ r)
    (hpart : part <+: s ++ [newline] ++ (r ++ [newline])) : (part <+: s ∧ lastLine part = part) ∨
      (∃ tail, part = s ++ [newline] ++ tail ∧ tail <+: r ∧ newline ∉ tail ∧ lastLine part = tail) ∨
      part = s ++ [newline] ++ (r ++ [newline]) := by
  have himage : s ++ [newline] ++ (r ++ [newline]) = Lines.image newline [s, r] := by simp [Lines.image]
  rw [himage] at hpart
  have hlines : ∀ l ∈ [s, r], newline ∉ l := by simp [hs, hr]
  obtain ⟨j, hj, tail, rfl, htail⟩ := Lines.prefix_image hlines hpart
  have hlast : lastLine (Lines.image newline ([s, r].take j) ++ tail) = tail := by
    unfold lastLine
    rw [Lines.splitOn_image_append htail (fun l hl => hlines l (List.mem_of_mem_take hl))]
    simp
  have hthree : j = 0 ∨ j = 1 ∨ j = 2 := by
    have hle : j ≤ 2 := hj
    omega
  rcases hthree with rfl | rfl | rfl
  · rw [← himage, append_assoc] at hpart
    exact .inl ⟨prefix_of_not_mem (by simpa using hpart) htail, hlast⟩
  · have htake : Lines.image newline ([s, r].take 1) = s ++ [newline] := by simp [Lines.image]
    rw [htake] at hpart hlast ⊢
    rw [← himage] at hpart
    exact .inr (.inl ⟨tail, rfl, prefix_of_not_mem ((List.prefix_append_right_inj _).1 hpart) htail, htail, hlast⟩)
  · have htake : Lines.image newline ([s, r].take 2) = Lines.image newline [s, r] := rfl
    rw [htake] at hpart ⊢
    have hlen := hpart.length_le
    rw [length_append] at hlen
    have hnil : tail = [] := List.length_eq_zero_iff.1 (by omega)
    exact .inr (.inr (by rw [hnil, append_nil, himage]))

theorem readLine_of_not_closed (hC : C.Strict) (h : JsonScan.run .start bytes ≠ .closed) : readLine C bytes = none := by
  unfold readLine
  cases htext : text? bytes with
  | none => rfl
  | some text =>
    have hnone : C.fromStr text = none := by
      cases hline : C.fromStr text with
      | none => rfl
      | some line =>
        refine absurd (hC text line hline) ?_
        rw [text?_eq_some.1 htext]
        exact h
    dsimp only
    rw [hnone]
    split <;> rfl

variable {key agentId : String}

theorem Codec.Carries.readLine_started (h : C.Carries (started key agentId)) :
    readLine C (textBytes (C.toString (started key agentId))) = none := by
  unfold readLine
  rw [text?_eq_some.2 rfl]
  dsimp only
  rw [h.notBlank, h.roundTrip]
  rfl

variable {record : Record}

theorem Codec.Carries.readLine_result (h : C.Carries (result key agentId record)) :
    readLine C (textBytes (C.toString (result key agentId record))) = some (key, record) := by
  unfold readLine
  rw [text?_eq_some.2 rfl]
  dsimp only
  rw [h.notBlank, h.roundTrip]
  rfl

theorem Inert.append (hC : C.Strict) {line : List UInt8} (h : Inert C tail) (hline : JsonScan.Object line)
    (hpart : part <+: line) (hwhole : part = line → tail = [] → readLine C part = none) : Inert C (tail ++ part) := by
  by_cases hnil : part = []
  · rw [hnil, append_nil]
    exact h
  rcases h with rfl | ⟨hstart, -⟩
  · obtain ⟨_, hhead⟩ := hline.head
    have hbegun : JsonScan.run .start part ≠ .start := by
      cases part with
      | nil => cases hnil rfl
      | cons b part =>
        rw [hhead] at hpart
        obtain ⟨rfl, -⟩ := List.cons_prefix_cons.1 hpart
        rw [JsonScan.run_cons]
        exact JsonScan.run_ne_start (by decide)
    refine .inr ⟨hbegun, ?_⟩
    by_cases heq : part = line
    · exact hwhole heq rfl
    · exact readLine_of_not_closed hC (hline.not_closed_of_prefix hpart heq)
  · have hnot := JsonScan.not_done_of_prefix hline hstart hpart hnil
    rw [← JsonScan.run_append] at hnot
    exact .inr ⟨hnot.1, readLine_of_not_closed hC hnot.2⟩

theorem Inert.readLine (hC : C.Strict) {tail line : List UInt8} (h : Inert C tail) (hline : JsonScan.Object line)
    (hnone : readLine C line = none) : readLine C (tail ++ line) = none := by
  rcases h.append hC hline prefix_rfl (fun _ _ => hnone) with hnil | ⟨-, hread⟩
  · exact absurd (List.append_eq_nil_iff.1 hnil).2 hline.ne_nil
  · exact hread

variable {line : Line}

theorem Codec.Carries.textLine (h : C.Carries line) (htail : newline ∉ tail) (htext : (text? tail).isSome) :
    TextLine (tail ++ textBytes (C.toString line)) := by
  refine ⟨by simp [htail, h.oneLine], ?_, text?_append htext (text?_textBytes _)⟩
  rw [List.getLast?_append_of_ne_nil _ h.object.ne_nil, h.object.last]
  decide

theorem text?_nil : (text? []).isSome := by
  have := text?_textBytes ""
  rwa [show textBytes "" = [] from rfl] at this

/-- **A clean part of a batch** leaves a file that holds what it held, and the call when the batch is whole. -/
theorem Holds.append (hC : C.Strict) (h : Holds C file calls ls tail)
    (hs : C.Carries (started key agentId)) (hr : C.Carries (result key agentId record))
    (hpart : part <+: batch C key agentId record) (htext : (text? (lastLine part)).isSome)
    (hcut : part ≠ (batch C key agentId record).dropLast) : ∃ ls' tail', Holds C (file ++ part)
      (calls ++ if part = batch C key agentId record then [(key, record)] else []) ls' tail' := by
  have hbatch : batch C key agentId record = textBytes (C.toString (started key agentId)) ++ [newline] ++
      (textBytes (C.toString (result key agentId record)) ++ [newline]) := rfl
  have hfirst : readLine C (tail ++ textBytes (C.toString (started key agentId))) = none :=
    h.inert.readLine hC hs.object hs.readLine_started
  have hbegun : TextLine (tail ++ textBytes (C.toString (started key agentId))) := hs.textLine h.tailLine h.tailText
  rcases part_cases hs.oneLine hr.oneLine hpart with ⟨hp, hlast⟩ | ⟨rest, rfl, hp, hrest, hlast⟩ | hwhole
  · -- the cut is in the first line, which stays unfinished
    have hshort : part ≠ batch C key agentId record := by
      intro heq
      have hlen := hp.length_le
      rw [heq, hbatch] at hlen
      simp only [length_append, List.length_singleton] at hlen
      omega
    rw [if_neg hshort, append_nil]
    rw [hlast] at htext
    refine ⟨ls, tail ++ part, ?_, h.each, ?_, text?_append h.tailText htext, ?_, h.calls⟩
    · rw [h.file, append_assoc]
    · simp only [List.mem_append, not_or]
      exact ⟨h.tailLine, fun hmem => hs.oneLine (hp.subset hmem)⟩
    · exact h.inert.append hC hs.object hp (fun heq _ => by rw [heq]; exact hs.readLine_started)
  · -- the cut is in the result line, before its end
    have hshort : textBytes (C.toString (started key agentId)) ++ [newline] ++ rest ≠ batch C key agentId record := by
      intro heq
      have hlen := hp.length_le
      have := congrArg List.length heq
      rw [hbatch] at this
      simp only [length_append, List.length_singleton] at this
      omega
    rw [if_neg hshort, append_nil]
    rw [hlast] at htext
    refine ⟨ls ++ [tail ++ textBytes (C.toString (started key agentId))], rest, ?_, ?_, hrest, htext, ?_, ?_⟩
    · rw [h.file, Lines.image_append]
      simp [Lines.image]
    · intro l hl
      rcases List.mem_append.1 hl with hl | hl
      · exact h.each l hl
      · rw [List.mem_singleton.1 hl]
        exact hbegun
    · have hnone : Inert C [] := .inl rfl
      refine hnone.append hC hr.object hp (fun heq _ => absurd ?_ hcut)
      rw [heq, hbatch, ← append_assoc, List.dropLast_concat]
    · rw [List.filterMap_append, h.calls]
      simp [hfirst]
  · have hall : part = batch C key agentId record := hwhole
    rw [if_pos hall, hall, hbatch]
    refine ⟨ls ++ [tail ++ textBytes (C.toString (started key agentId)), textBytes (C.toString (result key agentId record))],
      [], ?_, ?_, by simp, text?_nil, .inl rfl, ?_⟩
    · rw [h.file, Lines.image_append]
      simp [Lines.image]
    · intro l hl
      rcases List.mem_append.1 hl with hl | hl
      · exact h.each l hl
      · rcases List.mem_pair.1 hl with rfl | rfl
        · exact hbegun
        · exact hr.textLine (show newline ∉ ([] : List UInt8) by simp) text?_nil
    · rw [List.filterMap_append, h.calls]
      simp [hfirst, hr.readLine_result]

/-! ## Runs -/

theorem Ending.part_prefix (ending : Ending) (bytes : List UInt8) : ending.part bytes <+: bytes := by
  cases ending with
  | done => exact prefix_rfl
  | failed written _ => exact List.take_prefix _ _
  | crashed written => exact List.take_prefix _ _

theorem advance_cases (w : World) (e : Event) : ((advance C w e).file = w.file ∧ (advance C w e).whole = w.whole) ∨
      ∃ key agentId record ending, e = .call key agentId record ending ∧
        (advance C w e).file = w.file ++ ending.part (batch C key agentId record) ∧
        (advance C w e).whole = w.whole ++ wholeCall C key agentId record ending := by
  cases e with
  | crash => exact .inl ⟨rfl, rfl⟩
  | «open» =>
    refine .inl ?_
    simp only [advance]
    split <;> exact ⟨rfl, rfl⟩
  | call key agentId record ending =>
    cases hj : w.journal with
    | none => exact .inl (by simp [advance, hj])
    | some j =>
      cases hf : j.failure with
      | some _ => exact .inl (by cases ending <;> simp [advance, hj, hf])
      | none =>
        cases ending <;> simp [advance, hj, hf, Journal.record, Ending.part]

variable {w : World}

theorem holds_advance (hC : C.Strict) {e : Event} (hlines : ∀ l ∈ e.lines, C.Carries l)
    (hcut : e.cleanCut C) (h : ∃ ls tail, Holds C w.file w.whole ls tail) :
    ∃ ls tail, Holds C (advance C w e).file (advance C w e).whole ls tail := by
  obtain ⟨ls, tail, h⟩ := h
  rcases advance_cases (C := C) w e with ⟨hfile, hwhole⟩ | ⟨key, agentId, record, ending, rfl, hfile, hwhole⟩
  · rw [hfile, hwhole]
    exact ⟨ls, tail, h⟩
  · rw [hfile, hwhole]
    have hs : C.Carries (started key agentId) := hlines _ (by simp [Event.lines])
    have hr : C.Carries (result key agentId record) := hlines _ (by simp [Event.lines])
    exact h.append hC hs hr (ending.part_prefix _) hcut.1 hcut.2

theorem holds_run (hC : C.Strict) (es : List Event) (hlines : ∀ e ∈ es, ∀ l ∈ e.lines, C.Carries l)
    (hcut : ∀ e ∈ es, e.cleanCut C) : ∃ ls tail, Holds C (run C es).file (run C es).whole ls tail := by
  induction es using List.reverseRecOn with
  | nil => exact ⟨[], [], rfl, by simp, by simp, text?_nil, .inl rfl, rfl⟩
  | append_singleton es e ih =>
    have hbefore := ih (fun e' he' => hlines e' (List.mem_append_left _ he'))
      (fun e' he' => hcut e' (List.mem_append_left _ he'))
    unfold run
    rw [List.foldl_concat]
    exact holds_advance hC (hlines e (by simp)) (hcut e (by simp)) hbefore

/-! ## Every later open -/

/-- An open after these events succeeds, with the last whole record of each key. -/
def Survives (C : Codec) (es : List Event) : Prop :=
  ∃ j, Journal.open C (run C es).file = .ok j ∧ ∀ key, j.get key = lastRecord (run C es).whole key

def Event.isCallFor (key : String) : Event → Bool
  | .call k _ _ _ => k == key
  | _ => false

theorem lastRecord_append_of_ne {more : List (String × Record)} (h : ∀ call ∈ more, call.1 ≠ key) :
    lastRecord (calls ++ more) key = lastRecord calls key := by
  have hnone : more.reverse.find? (fun call => call.1 == key) = none := by
    rw [List.find?_eq_none]
    intro call hcall
    simpa using h call (List.mem_reverse.1 hcall)
  unfold lastRecord
  rw [List.reverse_append, List.find?_append, hnone]
  rfl

theorem lastRecord_later (es : List Event) : ∀ (later : List Event), (∀ e ∈ later, e.isCallFor key = false) →
    lastRecord (run C (es ++ later)).whole key = lastRecord (run C es).whole key := by
  intro later
  induction later using List.reverseRecOn with
  | nil => intro _; rw [append_nil]
  | append_singleton later e ih =>
    intro h
    have hbefore := ih (fun e' he' => h e' (List.mem_append_left _ he'))
    have hstep : run C (es ++ (later ++ [e])) = advance C (run C (es ++ later)) e := by
      unfold run
      rw [← append_assoc, List.foldl_concat]
    rw [hstep, ← hbefore]
    rcases advance_cases (C := C) (run C (es ++ later)) e with ⟨-, hwhole⟩ | ⟨k, agentId, record, ending, rfl, -, hwhole⟩
    · rw [hwhole]
    · rw [hwhole]
      have hk : k ≠ key := by simpa [Event.isCallFor] using h (.call k agentId record ending) (by simp)
      refine lastRecord_append_of_ne (fun call hcall => ?_)
      unfold wholeCall at hcall
      split at hcall
      · rw [List.mem_singleton.1 hcall]
        exact hk
      · cases hcall

/-- **The journal survives clean cuts.**  After any sequence of opens, record calls, failed writes and crashes whose cuts
fall between characters and do not take the last newline of a batch alone, an open succeeds and its cache maps each key
to the record of the last call whose result line is whole; a key that is a hit then is a hit with the same record after
whatever follows, as long as it is not recorded again. -/
theorem journal_survives (hC : C.Strict) (es : List Event) (hlines : ∀ e ∈ es, ∀ l ∈ e.lines, C.Carries l)
    (hcut : ∀ e ∈ es, e.cleanCut C) :
    Survives C es ∧ ∀ key record later, lastRecord (run C es).whole key = some record →
      (∀ e ∈ later, ∀ l ∈ e.lines, C.Carries l) → (∀ e ∈ later, e.cleanCut C) → (∀ e ∈ later, e.isCallFor key = false) →
      ∃ j, Journal.open C (run C (es ++ later)).file = .ok j ∧ j.get key = some record := by
  obtain ⟨_, _, hholds⟩ := holds_run hC es hlines hcut
  refine ⟨hholds.reopens, fun key record later hhit hlater hcuts hother => ?_⟩
  have hall : ∀ e ∈ es ++ later, ∀ l ∈ e.lines, C.Carries l := by
    intro e he
    rcases List.mem_append.1 he with he | he
    · exact hlines e he
    · exact hlater e he
  have hclean : ∀ e ∈ es ++ later, e.cleanCut C := by
    intro e he
    rcases List.mem_append.1 he with he | he
    · exact hcut e he
    · exact hcuts e he
  obtain ⟨_, _, hholds'⟩ := holds_run hC (es ++ later) hall hclean
  obtain ⟨j, hopen, hget⟩ := hholds'.reopens
  exact ⟨j, hopen, by rw [hget, lastRecord_later es later hother, hhit]⟩

/-! ## Two calls -/

def helloRecord : Record := { outcome := .text "hello", tokens := 3, toolCalls := 0, lastToolSummary := none }

def nullRecord : Record := { outcome := .null (some "makenull"), tokens := 0, toolCalls := 0, lastToolSummary := none }

def helloStarted : String := "\x7b\"type\":\"started\",\"version\":1,\"key\":\"v2:aaa\",\"agent_id\":\"aaa\"\x7d"

def helloResult : String :=
  "\x7b\"type\":\"result\",\"version\":1,\"key\":\"v2:aaa\",\"agent_id\":\"aaa\",\"record\":\x7b\"outcome\":" ++
  "\x7b\"t\":\"text\",\"text\":\"hello\"\x7d,\"tokens\":3,\"tool_calls\":0\x7d\x7d"

def nullStarted : String := "\x7b\"type\":\"started\",\"version\":1,\"key\":\"v2:bbb\",\"agent_id\":\"bbb\"\x7d"

def nullResult : String :=
  "\x7b\"type\":\"result\",\"version\":1,\"key\":\"v2:bbb\",\"agent_id\":\"bbb\",\"record\":\x7b\"outcome\":" ++
  "\x7b\"t\":\"null\",\"reason\":\"makenull\"\x7d,\"tokens\":0,\"tool_calls\":0\x7d\x7d"

def sampleCodec : Codec where
  toString line :=
    match line with
    | .started _ key _ => if key = "v2:aaa" then helloStarted else nullStarted
    | .result _ key _ _ => if key = "v2:aaa" then helloResult else nullResult
    | .unknown => "\x7b\"type\":\"unknown\"\x7d"
  fromStr text :=
    if text = helloStarted then some (started "v2:aaa" "aaa")
    else if text = helloResult then some (result "v2:aaa" "aaa" helloRecord)
    else if text = nullStarted then some (started "v2:bbb" "bbb")
    else if text = nullResult then some (result "v2:bbb" "bbb" nullRecord)
    else none

/-- What a written line of the two calls is: one line, not blank, and a JSON object that names its type first. -/
def TypedObject (text : String) : Prop :=
  newline ∉ textBytes text ∧ text.toList.all Text.isWhitespace = false ∧ (textBytes text).take 3 = [123, 34, 116] ∧
    (textBytes text).getLast? = some 125 ∧ JsonScan.run .start (textBytes text) = .closed

instance (text : String) : Decidable (TypedObject text) :=
  inferInstanceAs (Decidable (_ ∧ _ ∧ _ ∧ _ ∧ _))

theorem TypedObject.object (h : TypedObject text) : JsonScan.Object (textBytes text) := by
  obtain ⟨-, -, hhead, hlast, hclosed⟩ := h
  refine ⟨⟨(textBytes text).drop 3, ?_⟩, hlast, hclosed⟩
  conv_lhs => rw [← List.take_append_drop 3 (textBytes text), hhead]
  rfl

theorem typedObject_sample : ∀ text ∈ [helloStarted, helloResult, nullStarted, nullResult], TypedObject text := by
  unfold helloStarted helloResult nullStarted nullResult
  simp only [List.forall_mem_cons, TypedObject, show textBytes = Text.bytes from rfl, Text.bytes_append,
    String.toList_append]
  repeat rw [Text.bytes_ofList]
  repeat rw [String.toList_ofList]
  decide +kernel

theorem sample_apart : helloResult ≠ helloStarted ∧ nullStarted ≠ helloStarted ∧ nullStarted ≠ helloResult ∧
    nullResult ≠ helloStarted ∧ nullResult ≠ helloResult ∧ nullResult ≠ nullStarted := by decide +kernel

theorem sampleCodec_strict : sampleCodec.Strict := by
  intro text line h
  have hmem : text ∈ [helloStarted, helloResult, nullStarted, nullResult] := by
    by_contra hmem
    simp only [mem_cons, not_mem_nil, or_false, not_or] at hmem
    simp [sampleCodec, hmem] at h
  exact (typedObject_sample text hmem).object.closed

theorem carries_sample (hround : sampleCodec.fromStr (sampleCodec.toString line) = some line)
    (hmem : sampleCodec.toString line ∈ [helloStarted, helloResult, nullStarted, nullResult]) :
    sampleCodec.Carries line := by
  have htyped := typedObject_sample _ hmem
  exact ⟨hround, htyped.1, htyped.2.1, htyped.object⟩

theorem carries_helloStarted : sampleCodec.Carries (started "v2:aaa" "aaa") :=
  carries_sample (by simp [sampleCodec, started]) (by simp [sampleCodec, started])

theorem carries_helloResult : sampleCodec.Carries (result "v2:aaa" "aaa" helloRecord) :=
  carries_sample (by simp [sampleCodec, result, sample_apart]) (by simp [sampleCodec, result])

theorem carries_nullStarted : sampleCodec.Carries (started "v2:bbb" "bbb") :=
  carries_sample (by simp [sampleCodec, started, sample_apart]) (by simp [sampleCodec, started])

theorem carries_nullResult : sampleCodec.Carries (result "v2:bbb" "bbb" nullRecord) :=
  carries_sample (by simp [sampleCodec, result, sample_apart]) (by simp [sampleCodec, result])

def tornCall : List Event := [.open, .call "v2:aaa" "aaa" helloRecord
  (.crashed ((batch sampleCodec "v2:aaa" "aaa" helloRecord).length - 1))]

def nextRun : List Event := [.open, .call "v2:bbb" "bbb" nullRecord .done]

theorem sample_carries : ∀ e ∈ tornCall ++ nextRun, ∀ l ∈ e.lines, sampleCodec.Carries l := by
  simp [tornCall, nextRun, Event.lines, carries_helloStarted, carries_helloResult, carries_nullStarted, carries_nullResult]

variable {j : Journal}

theorem open_failure (h : Journal.open C file = .ok j) : j.failure = none := by
  unfold Journal.open at h
  cases hload : loadRecords C file with
  | error e => rw [hload] at h; cases h
  | ok _ => rw [hload] at h; cases h; rfl

theorem advance_open_crashed (hw : w.journal = none) (hopen : Journal.open C w.file = .ok j)
    (key agentId : String) (record : Record) (written : Nat) :
    advance C (advance C w .open) (.call key agentId record (.crashed written)) =
      { file := w.file ++ (batch C key agentId record).take written, journal := none,
        whole := w.whole ++ wholeCall C key agentId record (.crashed written) } := by
  simp only [advance, hw, hopen, open_failure hopen]

theorem advance_open_done (hw : w.journal = none) (hopen : Journal.open C w.file = .ok j)
    (key agentId : String) (record : Record) :
    (advance C (advance C w .open) (.call key agentId record .done)).file = w.file ++ batch C key agentId record := by
  simp only [advance, hw, hopen, open_failure hopen, Journal.record]

theorem open_nil : ∃ j, Journal.open C [] = .ok j := by
  obtain ⟨j, hopen, -⟩ := @open_image C [] [] (by simp) (by simp) text?_nil
  exact ⟨j, hopen⟩

theorem run_tornCall : (run sampleCodec tornCall).file =
    Lines.image newline [textBytes helloStarted] ++ textBytes helloResult ∧ (run sampleCodec tornCall).whole = [] ∧
      (run sampleCodec tornCall).journal = none := by
  obtain ⟨j, hopen⟩ := @open_nil sampleCodec
  have hrun : run sampleCodec tornCall = _ := advance_open_crashed (w := World.init) rfl hopen "v2:aaa" "aaa" helloRecord _
  rw [hrun]
  refine ⟨?_, ?_, rfl⟩
  · rw [← List.dropLast_eq_take]
    show (textBytes helloStarted ++ [newline] ++ (textBytes helloResult ++ [newline])).dropLast = _
    rw [← append_assoc, List.dropLast_concat]
    simp [Lines.image]
  · have hshort : (Ending.crashed ((batch sampleCodec "v2:aaa" "aaa" helloRecord).length - 1)).part
        (batch sampleCodec "v2:aaa" "aaa" helloRecord) ≠ batch sampleCodec "v2:aaa" "aaa" helloRecord := by
      intro heq
      have := congrArg List.length heq
      simp [Ending.part, batch, encodeLine] at this
    rw [wholeCall, if_neg hshort]
    rfl

/-- A result line without its newline is a hit after one open, although it was never whole; the next run writes its first
line behind it, and the key is gone. -/
theorem not_survives_tornCall : ¬ Survives sampleCodec tornCall ∧
    (∃ j, Journal.open sampleCodec (run sampleCodec tornCall).file = .ok j ∧ j.get "v2:aaa" = some helloRecord) ∧
    (∃ j, Journal.open sampleCodec (run sampleCodec (tornCall ++ nextRun)).file = .ok j ∧ j.get "v2:aaa" = none) ∧
    sampleCodec.Strict ∧ (∀ e ∈ tornCall ++ nextRun, ∀ l ∈ e.lines, sampleCodec.Carries l) := by
  obtain ⟨hfile, hwhole, hdead⟩ := run_tornCall
  have hsLine : TextLine (textBytes helloStarted) := carries_helloStarted.textLine (show newline ∉ ([] : List UInt8) by simp) text?_nil
  have hrLine : TextLine (textBytes helloResult) := carries_helloResult.textLine (show newline ∉ ([] : List UInt8) by simp) text?_nil
  have hs : readLine sampleCodec (textBytes helloStarted) = none := carries_helloStarted.readLine_started
  have hr : readLine sampleCodec (textBytes helloResult) = some ("v2:aaa", helloRecord) :=
    carries_helloResult.readLine_result
  have hobject : JsonScan.Object (textBytes helloResult) := carries_helloResult.object
  have hstarted : JsonScan.Object (textBytes nullStarted) := carries_nullStarted.object
  obtain ⟨j, hopen, hget⟩ := @open_image sampleCodec [textBytes helloStarted] (textBytes helloResult)
    (by simpa using hsLine) hrLine.oneLine hrLine.text
  rw [← hfile] at hopen
  have hhit : j.get "v2:aaa" = some helloRecord := by
    rw [hget, if_neg hobject.ne_nil]
    simp [hs, hr, lastRecord]
  refine ⟨?_, ⟨j, hopen, hhit⟩, ?_, sampleCodec_strict, sample_carries⟩
  · rintro ⟨j', hopen', hget'⟩
    rw [hopen] at hopen'
    cases hopen'
    have := hget' "v2:aaa"
    rw [hhit, hwhole] at this
    cases this
  · -- the next run's first line lands behind the unfinished result
    have hnext : (run sampleCodec (tornCall ++ nextRun)).file = Lines.image newline
        [textBytes helloStarted, textBytes helloResult ++ textBytes nullStarted, textBytes nullResult] ++ [] := by
      have hstep : run sampleCodec (tornCall ++ nextRun) = advance sampleCodec (advance sampleCodec
          (run sampleCodec tornCall) .open) (.call "v2:bbb" "bbb" nullRecord .done) := by
        unfold run
        rw [List.foldl_append, nextRun, foldl_cons, foldl_cons, List.foldl_nil]
      rw [hstep, advance_open_done hdead hopen, hfile]
      show _ ++ (textBytes nullStarted ++ [newline] ++ (textBytes nullResult ++ [newline])) = _
      simp [Lines.image]
    have hjoined : readLine sampleCodec (textBytes helloResult ++ textBytes nullStarted) = none := by
      refine readLine_of_not_closed sampleCodec_strict ?_
      rw [JsonScan.run_append]
      exact (JsonScan.not_done_of_prefix hstarted (by rw [hobject.closed]; decide) prefix_rfl hstarted.ne_nil).2
    have hnull : readLine sampleCodec (textBytes nullResult) = some ("v2:bbb", nullRecord) :=
      carries_nullResult.readLine_result
    have hlines : ∀ l ∈ [textBytes helloStarted, textBytes helloResult ++ textBytes nullStarted, textBytes nullResult],
        TextLine l := by
      intro l hl
      simp only [mem_cons, not_mem_nil, or_false] at hl
      rcases hl with rfl | rfl | rfl
      · exact hsLine
      · exact carries_nullStarted.textLine hrLine.oneLine hrLine.text
      · exact carries_nullResult.textLine (show newline ∉ ([] : List UInt8) by simp) text?_nil
    obtain ⟨j', hopen', hget'⟩ := @open_image sampleCodec _ [] hlines (by simp) text?_nil
    rw [← hnext] at hopen'
    refine ⟨j', hopen', ?_⟩
    rw [hget']
    simp [hs, hjoined, hnull, lastRecord]

theorem cleanCut_done (hs : C.Carries (started key agentId))
    (hr : C.Carries (result key agentId record)) : (Event.call key agentId record .done).cleanCut C := by
  have hbatch : batch C key agentId record = Lines.image newline
      [textBytes (C.toString (started key agentId)), textBytes (C.toString (result key agentId record))] ++ [] := by
    simp [batch, encodeLine, Lines.image]
  refine ⟨?_, fun heq => ?_⟩
  · show (text? (lastLine (batch C key agentId record))).isSome
    rw [hbatch, lastLine, Lines.splitOn_image_append (by simp) (by simp [hs.oneLine, hr.oneLine])]
    simpa using text?_nil
  · have := congrArg List.length heq
    simp [Ending.part, batch, encodeLine] at this

/-- A call written whole and a call cut in its first line: the next open has the first. -/
theorem journal_survives_twoCalls : Survives sampleCodec
    [.open, .call "v2:aaa" "aaa" helloRecord .done, .call "v2:bbb" "bbb" nullRecord (.crashed 5)] := by
  have hcut : (Event.call "v2:bbb" "bbb" nullRecord (.crashed 5)).cleanCut sampleCodec := by
    have hlast : lastLine ((batch sampleCodec "v2:bbb" "bbb" nullRecord).take 5) = textBytes "\x7b\"typ" := by rfl
    refine ⟨?_, by decide⟩
    show (text? (lastLine ((batch sampleCodec "v2:bbb" "bbb" nullRecord).take 5))).isSome
    rw [hlast]
    exact text?_textBytes _
  refine (journal_survives sampleCodec_strict _ ?_ ?_).1
  · simp [Event.lines, carries_helloStarted, carries_helloResult, carries_nullStarted, carries_nullResult]
  · simp only [mem_cons, not_mem_nil, or_false, forall_eq_or_imp, forall_eq]
    exact ⟨trivial, cleanCut_done carries_helloStarted carries_helloResult, hcut⟩

end Iteron.WorkflowJournal
