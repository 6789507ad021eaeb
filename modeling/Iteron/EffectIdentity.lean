import Iteron.EffectAdmission
import Mathlib.Data.UInt
import Mathlib.Tactic.IntervalCases
/-!
# EffectIdentity — minted identities never collide

An identity spells its turn in eight hexadecimal digits, its class by a code no ordinal can spell, and its ordinal in at
least four, so `effectId` is injective.  A ledger seeded from a journal hands out ordinals beyond every canonical
identity of the journal's highest turn, and so keeps every identity it minted and did not yet claim out of the claimed
ones (`Fresh`); whatever the journal holds, an identity minted below the counter's limit is never refused as a repeat.
-/
namespace Iteron.Kernel

theorem hexValue_digitChar {d : Nat} (h : d < 16) : hexValue d.digitChar = some d := by
  interval_cases d <;> rfl

theorem hexDigitsValue_append (l : List Char) (c : Char) : ∀ acc : Nat,
    hexDigitsValue acc (l ++ [c]) = (hexDigitsValue acc l).bind (fun v => hexDigitsValue v [c]) := by
  induction l with
  | nil => intro acc; rfl
  | cons x l ih =>
    intro acc
    simp only [List.cons_append, hexDigitsValue]
    cases hexValue x with
    | none => rfl
    | some d =>
      simp only
      split
      · rw [ih]
        rfl
      · rfl

variable {n : Nat}

theorem hexDigitsValue_toDigits (h : n ≤ usizeMax) : hexDigitsValue 0 (Nat.toDigits 16 n) = some n := by
  induction n using Nat.strongRecOn with
  | ind n ih =>
    rw [Nat.toDigits_eq_if (by decide)]
    split
    · rename_i hlt
      simp [hexDigitsValue, hexValue_digitChar hlt, h]
    · rw [hexDigitsValue_append, ih (n / 16) (by omega) (by omega)]
      have hdigit := hexValue_digitChar (Nat.mod_lt n (show 16 > 0 by decide))
      have hvalue : n / 16 * 16 + n % 16 = n := by omega
      simp [hexDigitsValue, hdigit, hvalue, h]

theorem hexDigitsValue_zeros (l : List Char) : ∀ k : Nat, hexDigitsValue 0 (List.replicate k '0' ++ l) = hexDigitsValue 0 l
  | 0 => rfl
  | k + 1 => by
    rw [List.replicate_succ, List.cons_append, ← hexDigitsValue_zeros l k]
    rfl

theorem hexDigitsValue_hexPad (width : Nat) (h : n ≤ usizeMax) : hexDigitsValue 0 (hexPad width n) = some n := by
  rw [hexPad, hexDigitsValue_zeros, hexDigitsValue_toDigits h]

variable {width m : Nat}

theorem hexPad_inj (hm : m ≤ usizeMax) (hn : n ≤ usizeMax) (h : hexPad width m = hexPad width n) : m = n := by
  have hval := hexDigitsValue_hexPad width hm
  rw [h, hexDigitsValue_hexPad width hn] at hval
  exact (Option.some.inj hval).symm

theorem length_hexPad (hw : 0 < width) (h : n < 16 ^ width) : (hexPad width n).length = width := by
  have hlen := (Nat.length_toDigits_le_iff (by decide : 1 < 16) hw).2 h
  rw [hexPad, List.length_append, List.length_replicate]
  omega

variable {c : Char}

theorem mem_toDigits (h : c ∈ Nat.toDigits 16 n) : ∃ d < 16, c = Nat.digitChar d := by
  induction n using Nat.strongRecOn with
  | ind n ih =>
    rw [Nat.toDigits_eq_if (by decide)] at h
    split at h
    · rename_i hlt
      exact ⟨n, hlt, List.mem_singleton.1 h⟩
    · rcases List.mem_append.1 h with h | h
      · exact ih (n / 16) (by omega) h
      · exact ⟨n % 16, Nat.mod_lt n (by decide), List.mem_singleton.1 h⟩

theorem mem_hexPad (h : c ∈ hexPad width n) : ∃ d < 16, c = Nat.digitChar d := by
  rcases List.mem_append.1 h with h | h
  · exact ⟨0, by decide, List.eq_of_mem_replicate h⟩
  · exact mem_toDigits h

theorem dash_not_mem_hexPad (width n : Nat) : '-' ∉ hexPad width n := by
  intro h
  obtain ⟨d, _, hc⟩ := mem_hexPad h
  interval_cases d <;> exact absurd hc (by decide)

def classChars (code : Option String) : List Char := (code.map (fun c => c.toList ++ ['-'])).getD []

theorem effectIdStem_eq (turn : Nat) (cls : EffectClass) :
    effectIdStem turn cls = "fx1-".toList ++ (hexPad 8 turn ++ '-' :: classChars cls.code) := by
  unfold effectIdStem
  cases cls.code <;> simp [classChars]

def effectIdTail (cls : EffectClass) (ordinal : Nat) : List Char := classChars cls.code ++ hexPad 4 ordinal

theorem effectId_toList (turn : Nat) (cls : EffectClass) (ordinal : Nat) :
    (effectId turn cls ordinal).toList = "fx1-".toList ++ (hexPad 8 turn ++ '-' :: effectIdTail cls ordinal) := by
  rw [effectId, String.toList_ofList, effectIdStem_eq, effectIdTail]
  simp

variable {a b : EffectClass}

theorem code_inj (h : a.code = b.code) : a = b := by
  revert h
  cases a <;> cases b <;> decide

variable {cls : EffectClass}

theorem length_code {code : String} (h : cls.code = some code) : code.toList.length = 2 := by
  cases cls <;> cases h <;> rfl

theorem effectIdTail_inj (hm : m ≤ usizeMax) (hn : n ≤ usizeMax)
    (h : effectIdTail a m = effectIdTail b n) : a = b ∧ m = n := by
  unfold effectIdTail at h
  cases ha : a.code with
  | none =>
    cases hb : b.code with
    | none =>
      rw [ha, hb] at h
      exact ⟨code_inj (ha.trans hb.symm), hexPad_inj hm hn h⟩
    | some code =>
      have hmem : '-' ∈ classChars (some code) ++ hexPad 4 n := by simp [classChars]
      rw [ha, hb] at h
      rw [← h] at hmem
      cases dash_not_mem_hexPad 4 m hmem
  | some code =>
    cases hb : b.code with
    | none =>
      have hmem : '-' ∈ classChars (some code) ++ hexPad 4 m := by simp [classChars]
      rw [ha, hb] at h
      rw [h] at hmem
      cases dash_not_mem_hexPad 4 n hmem
    | some code' =>
      rw [ha, hb] at h
      have hlen : (classChars (some code)).length = (classChars (some code')).length := by
        simp [classChars, length_code ha, length_code hb]
      obtain ⟨hcode, hpad⟩ := List.append_inj h hlen
      have heq : code = code' := String.toList_injective (List.append_cancel_right hcode)
      exact ⟨code_inj (by rw [ha, hb, heq]), hexPad_inj hm hn hpad⟩

variable {turn : Nat}

theorem effectId_inj_turn (hm : m ≤ usizeMax) (hn : n ≤ usizeMax) (h : effectId turn a m = effectId turn b n) :
    a = b ∧ m = n := by
  have hl := congrArg String.toList h
  rw [effectId_toList, effectId_toList] at hl
  have htail := List.append_cancel_left (List.append_cancel_left hl)
  exact effectIdTail_inj hm hn (List.cons.inj htail).2

theorem effectId_inj {s t : Nat} (hs : s < 2 ^ 32) (ht : t < 2 ^ 32) (hm : m ≤ usizeMax)
    (hn : n ≤ usizeMax) (h : effectId s a m = effectId t b n) : s = t ∧ a = b ∧ m = n := by
  have hl := congrArg String.toList h
  rw [effectId_toList, effectId_toList] at hl
  have hlen : (hexPad 8 s).length = (hexPad 8 t).length := by
    rw [length_hexPad (by decide) (by omega), length_hexPad (by decide) (by omega)]
  obtain ⟨hturn, -⟩ := List.append_inj (List.append_cancel_left hl) hlen
  have hbound : 2 ^ 32 ≤ usizeMax := by decide
  obtain rfl := hexPad_inj (by omega) (by omega) hturn
  exact ⟨rfl, effectId_inj_turn hm hn h⟩

theorem utf8ByteSize_ofList_ascii : ∀ l : List Char, (∀ c ∈ l, c.utf8Size = 1) → (String.ofList l).utf8ByteSize = l.length
  | [], _ => rfl
  | c :: l, h => by
    have hcons : String.ofList (c :: l) = String.singleton c ++ String.ofList l := by simp
    rw [hcons, String.utf8ByteSize_append, String.utf8ByteSize_singleton, h c List.mem_cons_self,
      utf8ByteSize_ofList_ascii l (fun x hx => h x (.tail _ hx)), List.length_cons]
    omega

theorem utf8ByteSize_hexPad (hw : width ≤ 16) (h : n ≤ usizeMax) :
    (String.ofList (hexPad width n)).utf8ByteSize ≤ 16 := by
  rw [utf8ByteSize_ofList_ascii _ (fun c hc => ?_)]
  · have hlen := (Nat.length_toDigits_le_iff (by decide : 1 < 16) (by decide : 0 < 16)).2
      (lt_of_le_of_lt h (by decide : usizeMax < 16 ^ 16))
    rw [hexPad, List.length_append, List.length_replicate]
    omega
  · obtain ⟨d, _, rfl⟩ := mem_hexPad hc
    interval_cases d <;> rfl

theorem fromStrRadix16_hexPad (width : Nat) (h : n ≤ usizeMax) : fromStrRadix16 (hexPad width n) = some n := by
  have hvalue := hexDigitsValue_hexPad width h
  have hmem : ∀ c ∈ hexPad width n, c ≠ '+' := by
    intro c hc
    obtain ⟨d, _, rfl⟩ := mem_hexPad hc
    interval_cases d <;> decide
  cases hl : hexPad width n with
  | nil =>
    have hne : Nat.toDigits 16 n ≠ [] := Nat.toDigits_ne_nil
    exact absurd (List.append_eq_nil_iff.1 hl).2 hne
  | cons c _ =>
    rw [hl] at hvalue
    have hc := hmem c (hl ▸ List.mem_cons_self)
    rw [← hvalue]
    unfold fromStrRadix16
    split
    · rename_i heq; cases heq
    · rename_i heq; cases heq; exact absurd rfl hc
    · rename_i heq; cases heq; exact absurd rfl hc
    · rfl

variable {ordinal : Nat}

theorem canonicalOrdinal_effectId (turn : Nat) (cls : EffectClass) (h : ordinal ≤ usizeMax) :
    canonicalOrdinal turn cls (effectId turn cls ordinal) = some ordinal := by
  have hprefix : (effectIdStem turn cls).isPrefixOf (effectId turn cls ordinal).toList = true := by
    rw [effectId, String.toList_ofList, List.isPrefixOf_iff_prefix]
    exact List.prefix_append _ _
  have hraw : (effectId turn cls ordinal).toList.drop (effectIdStem turn cls).length = hexPad 4 ordinal := by
    rw [effectId, String.toList_ofList, List.drop_left]
  have hsize := utf8ByteSize_hexPad (by decide : 4 ≤ 16) h
  unfold canonicalOrdinal
  rw [if_pos hprefix]
  simp only [hraw, fromStrRadix16_hexPad 4 h]
  rw [if_neg (by omega), if_pos trivial]

def countOrdinal (turn : Nat) (cls : EffectClass) (next : Option Nat) (id : EffectId) : Option Nat :=
  match canonicalOrdinal turn cls id with
  | none => next
  | some ordinal => some (max (next.getD 0) (min (ordinal + 1) usizeMax))

theorem nextOrdinalOf_eq (turn : Nat) (cls : EffectClass) (ids : List EffectId) :
    nextOrdinalOf turn cls ids = ids.foldl (countOrdinal turn cls) none := rfl

theorem le_countOrdinal (turn : Nat) (cls : EffectClass) (next : Option Nat) (id : EffectId) :
    next.getD 0 ≤ (countOrdinal turn cls next id).getD 0 := by
  unfold countOrdinal
  split
  · exact le_refl _
  · exact le_max_left _ _

theorem le_foldl_countOrdinal (turn : Nat) (cls : EffectClass) : ∀ (ids : List EffectId) (next : Option Nat),
    next.getD 0 ≤ (ids.foldl (countOrdinal turn cls) next).getD 0
  | [], _ => le_refl _
  | id :: ids, next => (le_countOrdinal turn cls next id).trans (le_foldl_countOrdinal turn cls ids _)

theorem foldl_countOrdinal_le (turn : Nat) (cls : EffectClass) : ∀ (ids : List EffectId) (next : Option Nat),
    next.getD 0 ≤ usizeMax → (ids.foldl (countOrdinal turn cls) next).getD 0 ≤ usizeMax
  | [], _, h => h
  | id :: ids, next, h => by
    refine foldl_countOrdinal_le turn cls ids _ ?_
    unfold countOrdinal
    split
    · exact h
    · exact max_le h (min_le_right _ _)

theorem lt_nextOrdinalOf (ho : ordinal < usizeMax) :
    ∀ (ids : List EffectId) (next : Option Nat), effectId turn cls ordinal ∈ ids →
      ordinal < (ids.foldl (countOrdinal turn cls) next).getD 0
  | id :: ids, next, hmem => by
    rcases List.mem_cons.1 hmem with rfl | hmem
    · rw [List.foldl_cons]
      refine lt_of_lt_of_le ?_ (le_foldl_countOrdinal turn cls ids _)
      unfold countOrdinal
      rw [canonicalOrdinal_effectId turn cls (le_of_lt ho)]
      simp only [Option.getD_some]
      omega
    · exact lt_nextOrdinalOf ho ids _ hmem

/-! ## A ledger at work -/

structure Minted where
  turn : Nat
  cls : EffectClass
  ordinal : Nat

def Minted.id (m : Minted) : EffectId := effectId m.turn m.cls m.ordinal

/-- A ledger and the identities minted from it that nobody claimed yet. -/
structure Minting where
  ledger : EffectAdmissions
  held : List Minted

/-- Take the next ordinal of a class, or claim an identity minted before. -/
inductive MintStep where
  | mint (turn : Nat) (cls : EffectClass)
  | claim (ceiling index : Nat)

def Minting.step (w : Minting) : MintStep → Minting × Option (Minted × Except EffectAdmissionError Unit)
  | .mint turn cls =>
    let r := w.ledger.nextOrdinal turn cls
    ({ ledger := r.1, held := w.held ++ [⟨turn, cls, r.2⟩] }, none)
  | .claim ceiling index =>
    match w.held[index]? with
    | none => (w, none)
    | some m =>
      let r := w.ledger.admitId ceiling m.turn m.id
      ({ ledger := r.1, held := w.held.eraseIdx index }, some (m, r.2))

def Minting.run (w : Minting) : List MintStep → List (Minted × Except EffectAdmissionError Unit)
  | [] => []
  | s :: steps => (w.step s).2.toList ++ (w.step s).1.run steps

/-- **The identities of the current turn are claimed or held at most once**, and all below their class's counter. -/
structure Fresh (w : Minting) : Prop where
  counters : ∀ cls, (w.ledger.ordinals cls).getD 0 ≤ usizeMax
  minted : ∀ m ∈ w.held, m.ordinal ≤ usizeMax
  claimed : ∀ turn, w.ledger.turn = some turn → ∀ cls ordinal, ordinal < usizeMax →
    effectId turn cls ordinal ∈ w.ledger.ids → ordinal < (w.ledger.ordinals cls).getD 0
  entered : ∀ m ∈ w.held, ∃ turn, w.ledger.turn = some turn ∧ m.turn ≤ turn
  held : ∀ m ∈ w.held, w.ledger.turn = some m.turn → m.ordinal < usizeMax →
    m.ordinal < (w.ledger.ordinals m.cls).getD 0 ∧ m.id ∉ w.ledger.ids
  once : w.held.Pairwise (fun a b => w.ledger.turn = some b.turn → a.turn = b.turn → a.cls = b.cls →
    b.ordinal < usizeMax → a.ordinal ≠ b.ordinal)

namespace Fresh

variable {w : Minting}

theorem fromJournal (J : EffectJournal) : Fresh ⟨EffectAdmissions.fromJournal J, []⟩ where
  counters cls := by
    unfold EffectAdmissions.fromJournal
    cases (J.admitted.map Prod.fst).max? with
    | none => exact Nat.zero_le _
    | some highest => exact foldl_countOrdinal_le highest cls _ none (Nat.zero_le _)
  minted m hm := by cases hm
  claimed turn hturn cls ordinal ho hmem := by
    unfold EffectAdmissions.fromJournal at hturn hmem ⊢
    cases hmax : (J.admitted.map Prod.fst).max? with
    | none =>
      rw [hmax] at hturn
      cases hturn
    | some highest =>
      simp only [hmax, nextOrdinalOf_eq] at hturn hmem ⊢
      cases hturn
      exact lt_nextOrdinalOf ho _ none (Std.ExtTreeSet.mem_toList.2 hmem)
  entered m hm := by cases hm
  held m hm := by cases hm
  once := List.Pairwise.nil

/-- **Entering a later turn forgets the earlier identities**; an earlier or equal one changes nothing. -/
theorem enterTurn_cases (A : EffectAdmissions) (turn : Nat) :
    (A.enterTurn turn = ⟨some turn, ∅, fun _ => none⟩ ∧ ∀ t, A.turn = some t → t < turn) ∨
    (A.enterTurn turn = A ∧ ∃ t, A.turn = some t ∧ turn ≤ t) := by
  unfold EffectAdmissions.enterTurn
  cases hA : A.turn with
  | none => exact .inl ⟨rfl, fun t ht => by cases ht⟩
  | some t =>
    simp only [Option.all_some, decide_eq_true_eq]
    split
    · rename_i hlt
      exact .inl ⟨rfl, fun t' ht' => by cases ht'; exact hlt⟩
    · exact .inr ⟨rfl, t, rfl, by omega⟩

theorem enterTurn (h : Fresh w) (turn : Nat) : Fresh ⟨w.ledger.enterTurn turn, w.held⟩ := by
  rcases enterTurn_cases w.ledger turn with ⟨hA, hlater⟩ | ⟨hA, -⟩
  · have hold : ∀ m ∈ w.held, m.turn < turn := by
      intro m hm
      obtain ⟨t, ht, hle⟩ := h.entered m hm
      exact lt_of_le_of_lt hle (hlater t ht)
    rw [hA]
    refine ⟨fun cls => Nat.zero_le _, h.minted, fun t ht cls ordinal ho hmem => ?_,
      fun m hm => ⟨turn, rfl, le_of_lt (hold m hm)⟩, fun m hm ht => ?_, ?_⟩
    · cases hmem
    · have := hold m hm
      have heq : turn = m.turn := Option.some.inj ht
      omega
    · refine h.once.imp_of_mem (fun {a b} ha hb _ ht => ?_)
      have := hold b hb
      have heq : turn = b.turn := Option.some.inj ht
      omega
  · rw [hA]
    exact h

theorem mint (h : Fresh w) (turn : Nat) (cls : EffectClass) : Fresh (w.step (.mint turn cls)).1 := by
  have hin := h.enterTurn turn
  obtain ⟨current, hcurrent, hle⟩ : ∃ t, (w.ledger.enterTurn turn).turn = some t ∧ turn ≤ t := by
    rcases enterTurn_cases w.ledger turn with ⟨hA, -⟩ | ⟨hA, t, ht, hle⟩
    · exact ⟨turn, by rw [hA], le_refl _⟩
    · exact ⟨t, by rw [hA, ht], hle⟩
  generalize hA : w.ledger.enterTurn turn = A at hin hcurrent
  have hgrow : ∀ c o, o < usizeMax → o < (A.ordinals c).getD 0 →
      o < (Function.update A.ordinals cls (some (min ((A.ordinals cls).getD 0 + 1) usizeMax)) c).getD 0 := by
    intro c o ho hlt
    by_cases hc : c = cls
    · subst hc
      rw [Function.update_self, Option.getD_some]
      omega
    · rw [Function.update_of_ne hc]
      exact hlt
  simp only [Minting.step, EffectAdmissions.nextOrdinal, hA]
  refine ⟨fun c => ?_, fun m hm => ?_, fun t ht c o ho hmem => hgrow c o ho (hin.claimed t ht c o ho hmem),
    fun m hm => ?_, fun m hm ht ho => ?_, ?_⟩
  · by_cases hc : c = cls
    · subst hc
      simp only [Function.update_self, Option.getD_some]
      exact min_le_right _ _
    · simp only [Function.update_of_ne hc]
      exact hin.counters c
  · rcases List.mem_append.1 hm with hm | hm
    · exact hin.minted m hm
    · obtain rfl := List.mem_singleton.1 hm
      exact hin.counters cls
  · rcases List.mem_append.1 hm with hm | hm
    · exact hin.entered m hm
    · obtain rfl := List.mem_singleton.1 hm
      exact ⟨current, hcurrent, hle⟩
  · rcases List.mem_append.1 hm with hm | hm
    · obtain ⟨hlt, hnot⟩ := hin.held m hm ht ho
      exact ⟨hgrow _ _ ho hlt, hnot⟩
    · obtain rfl := List.mem_singleton.1 hm
      refine ⟨?_, fun hmem => absurd (hin.claimed turn ht cls _ ho hmem) (lt_irrefl _)⟩
      simp only [Function.update_self, Option.getD_some] at ho ⊢
      omega
  · refine List.pairwise_append.2 ⟨hin.once, List.pairwise_singleton _ _, fun a ha b hb ht hturn hcls ho => ?_⟩
    obtain rfl := List.mem_singleton.1 hb
    intro heq
    have hlt := (hin.held a ha (hturn ▸ ht) (heq ▸ ho)).1
    rw [hcls, heq] at hlt
    cases lt_irrefl _ hlt

theorem admitId_cases (A : EffectAdmissions) (ceiling : Nat) {turn current : Nat} (id : EffectId)
    (hcurrent : A.turn = some current) (hle : turn ≤ current) :
    (turn < current ∧ A.admitId ceiling turn id = (A, .error (.nonMonotonicTurn turn current))) ∨ (turn = current ∧
      (A.admitId ceiling turn id = (A, .error (.tooManyEffects turn ceiling)) ∨
        (id ∈ A.ids ∧ A.admitId ceiling turn id = (A, .error (.duplicate id))) ∨
        A.admitId ceiling turn id = ({ A with ids := A.ids.insert id }, .ok ()))) := by
  have hguard : A.admitId ceiling turn id = if turn < current then (A, .error (.nonMonotonicTurn turn current))
      else EffectAdmissions.admitId.claim ceiling turn id A := by
    unfold EffectAdmissions.admitId
    rw [hcurrent]
  rw [hguard]
  split
  · rename_i hlt
    exact .inl ⟨hlt, rfl⟩
  · obtain rfl : turn = current := by omega
    refine .inr ⟨rfl, ?_⟩
    have henter : A.enterTurn turn = A := by
      rcases enterTurn_cases A turn with ⟨-, hlater⟩ | ⟨hA, -⟩
      · cases lt_irrefl _ (hlater turn hcurrent)
      · exact hA
    simp only [EffectAdmissions.admitId.claim, henter]
    split
    · exact .inl rfl
    · split
      · rename_i hmem
        exact .inr (.inl ⟨Std.ExtTreeSet.mem_iff_contains.2 hmem, rfl⟩)
      · exact .inr (.inr rfl)

theorem held_ne (h : Fresh w) {i j : Nat} {a b : Minted} (hij : j ≠ i) (ha : w.held[i]? = some a)
    (hb : w.held[j]? = some b) (hta : w.ledger.turn = some a.turn) (htb : w.ledger.turn = some b.turn)
    (hob : b.ordinal < usizeMax) : a.id ≠ b.id := by
  have hturn : a.turn = b.turn := Option.some.inj (hta.symm.trans htb)
  intro hid
  rw [Minted.id, Minted.id, hturn] at hid
  obtain ⟨hcls, hordinal⟩ := effectId_inj_turn (h.minted a (List.mem_of_getElem? ha)) (le_of_lt hob) hid
  obtain ⟨hi, rfl⟩ := List.getElem?_eq_some_iff.1 ha
  obtain ⟨hj, rfl⟩ := List.getElem?_eq_some_iff.1 hb
  rcases Nat.lt_or_gt_of_ne hij with hlt | hlt
  · exact List.pairwise_iff_getElem.1 h.once j i hj hi hlt hta hturn.symm hcls.symm (hordinal ▸ hob) hordinal.symm
  · exact List.pairwise_iff_getElem.1 h.once i j hi hj hlt htb hturn hcls hob hordinal

theorem claim (h : Fresh w) (ceiling index : Nat) : Fresh (w.step (.claim ceiling index)).1 ∧
    ∀ m r, (w.step (.claim ceiling index)).2 = some (m, r) → m.ordinal < usizeMax → ∀ id, r ≠ .error (.duplicate id) := by
  cases hm : w.held[index]? with
  | none =>
    simp only [Minting.step, hm]
    exact ⟨h, fun m r hr => by cases hr⟩
  | some m =>
    have hmem : m ∈ w.held := List.mem_of_getElem? hm
    obtain ⟨_, hcurrent, hle⟩ := h.entered m hmem
    -- dropping the claimed identity from the held ones
    have hdrop : Fresh ⟨w.ledger, w.held.eraseIdx index⟩ :=
      ⟨h.counters, fun a ha => h.minted a (List.mem_of_mem_eraseIdx ha), h.claimed, fun a ha => h.entered a (List.mem_of_mem_eraseIdx ha),
        fun a ha => h.held a (List.mem_of_mem_eraseIdx ha), h.once.sublist (List.eraseIdx_sublist _ _)⟩
    simp only [Minting.step, hm]
    rcases admitId_cases w.ledger ceiling m.id hcurrent hle with ⟨-, hr⟩ | ⟨hturn, hr | ⟨hdup, hr⟩ | hr⟩
    · rw [hr]
      exact ⟨hdrop, fun _ r heq _ id => by cases heq; simp⟩
    · rw [hr]
      exact ⟨hdrop, fun _ r heq _ id => by cases heq; simp⟩
    · rw [hr]
      refine ⟨hdrop, fun _ r heq ho => ?_⟩
      cases heq
      exact absurd hdup (h.held m hmem (hturn ▸ hcurrent) ho).2
    · rw [hr]
      subst hturn
      refine ⟨⟨hdrop.counters, hdrop.minted, fun t ht cls o ho hid => ?_, hdrop.entered, fun a ha ht ho => ?_, hdrop.once⟩,
        fun _ r heq _ id => by cases heq; simp⟩
      · obtain rfl : m.turn = t := Option.some.inj (hcurrent.symm.trans ht)
        rcases Std.ExtTreeSet.mem_insert.1 hid with heq | hid
        · have heq := Std.LawfulEqCmp.eq_of_compare heq
          obtain ⟨rfl, rfl⟩ := effectId_inj_turn (h.minted m hmem) (le_of_lt ho) heq
          exact (h.held m hmem hcurrent ho).1
        · exact h.claimed m.turn hcurrent cls o ho hid
      · obtain ⟨hlt, hnot⟩ := hdrop.held a ha ht ho
        refine ⟨hlt, fun hid => ?_⟩
        rcases Std.ExtTreeSet.mem_insert.1 hid with heq | hid
        · have heq := Std.LawfulEqCmp.eq_of_compare heq
          obtain ⟨j, hj, hget⟩ := List.mem_eraseIdx_iff_getElem?.1 ha
          exact h.held_ne hj hm hget hcurrent ht ho heq
        · exact hnot hid

/-- **No claim of a run is answered as a repeat** below the limit: by induction on the steps. -/
theorem run (h : Fresh w) (steps : List MintStep) : ∀ m r, (m, r) ∈ w.run steps → m.ordinal < usizeMax →
    ∀ id, r ≠ .error (.duplicate id) := by
  induction steps generalizing w with
  | nil => intro m r hmem; cases hmem
  | cons s steps ih =>
    intro m r hmem
    rcases List.mem_append.1 hmem with hmem | hmem
    · cases s with
      | mint turn cls => simp [Minting.step] at hmem
      | claim ceiling index => exact (h.claim ceiling index).2 m r (Option.mem_toList.1 hmem)
    · cases s with
      | mint turn cls => exact ih (h.mint turn cls) m r hmem
      | claim ceiling index => exact ih (h.claim ceiling index).1 m r hmem

end Fresh

/-- **Effect identities are minted once.**  `effectId` tells apart every turn, class and ordinal of the program's widths;
and after a restart from any journal, in whatever order ordinals are taken and their identities claimed, and under
whatever ceiling, a claim of an ordinal below the counter's limit is never refused as a repeat. -/
theorem effect_identity_minting :
    Function.Injective (fun p : UInt32 × EffectClass × UInt64 => effectId p.1.toNat p.2.1 p.2.2.toNat) ∧
    ∀ (J : EffectJournal) (steps : List MintStep) (m : Minted) (r : Except EffectAdmissionError Unit),
      (m, r) ∈ (⟨EffectAdmissions.fromJournal J, []⟩ : Minting).run steps → m.ordinal < usizeMax →
      ∀ id, r ≠ .error (.duplicate id) := by
  constructor
  · rintro ⟨s, a, m⟩ ⟨t, b, n⟩ h
    have hm : ∀ x : UInt64, x.toNat ≤ usizeMax := fun x => by
      have := x.toNat_lt
      simp only [usizeMax]
      omega
    obtain ⟨hturn, hcls, hordinal⟩ := effectId_inj s.toNat_lt t.toNat_lt (hm m) (hm n) h
    rw [UInt32.toNat_inj.1 hturn, show a = b from hcls, UInt64.toNat_inj.1 hordinal]
  · intro J steps
    exact (Fresh.fromJournal J).run steps

end Iteron.Kernel
