import Mathlib.Algebra.Ring.Nat
import Mathlib.Data.List.DropRight
import Iteron.Search
import Iteron.Text
/-!
# RedactScan — the credential scanner of the record

Text is scrubbed line by line.  The lines of a private key are dropped, the password of a URL is masked, and the words of
what is left are masked where they look like a credential.  A mask keeps four characters of what it hides, in a marker
the scanner knows again.
-/
namespace Iteron.Redact

def byteLen (w : List Char) : Nat := (w.map Char.utf8Size).sum

def contains (text pat : List Char) : Bool := (Search.splitFirst pat text).isSome

/-! ## The marker -/

def markerOpen : List Char := ['[', 'R', 'E', 'D', 'A', 'C', 'T', 'E', 'D', ':']

def markerClose : List Char := ['…', ']']

def isHintChar (c : Char) : Bool := c.isAlphanum || c == '-' || c == '_' || c == '+' || c == '/' || c == '='

def hint (w : List Char) : List Char := (w.take 4).map (fun c => if isHintChar c then c else '_')

def marker (w : List Char) : List Char := markerOpen ++ (hint w ++ markerClose)

/-- `generated_redaction_marker_len`, in characters. -/
def generatedMarkerLen (value : List Char) : Option Nat :=
  if markerOpen.isPrefixOf value then
    let rest := value.drop markerOpen.length
    let hinted := rest.take 4
    if hinted.all isHintChar && hinted.length == 4 && markerClose.isPrefixOf (rest.drop hinted.length) then
      some (markerOpen.length + hinted.length + markerClose.length)
    else none
  else none

@[simp] theorem length_markerOpen : markerOpen.length = 10 := rfl

theorem generatedMarkerLen_eq {value : List Char} {n : Nat} (h : generatedMarkerLen value = some n) : n = 16 := by
  rw [generatedMarkerLen] at h
  split at h
  · dsimp only at h
    split at h
    · rename_i hshape
      simp only [Bool.and_eq_true, beq_iff_eq] at hshape
      cases h
      rw [hshape.1.2]
      rfl
    · cases h
  · cases h

/-! ## One word -/

def looksLikeJwt (w : List Char) : Bool :=
  if "eyJ".toList.isPrefixOf w then
    let parts := w.splitOn '.'
    parts.length == 3 &&
      parts.all (fun p => decide (8 ≤ byteLen p) && p.all (fun c => c.isAlphanum || c == '-' || c == '_' || c == '='))
  else false

def looksLikeHexOrB64Token (w : List Char) : Bool :=
  if byteLen w < 32 then false
  else if !w.all (fun c => c.isAlphanum || c == '+' || c == '/' || c == '_' || c == '-' || c == '=') then false
  else if w.all Text.isHexDigit then true
  else w.any Char.isUpper && w.any Char.isDigit

/-- The condition of `mask_scalar_if_secret`. -/
def looksSecret (w : List Char) : Bool :=
  ("sk-".toList.isPrefixOf w && decide (20 < byteLen w)) ||
    "sk-ant-".toList.isPrefixOf w ||
    (("ghp_".toList.isPrefixOf w || "gho_".toList.isPrefixOf w || "ghs_".toList.isPrefixOf w) &&
      decide (20 < byteLen w)) ||
    "xoxb-".toList.isPrefixOf w || "xoxp-".toList.isPrefixOf w ||
    ("AKIA".toList.isPrefixOf w && decide (20 ≤ byteLen w)) ||
    ("AIza".toList.isPrefixOf w && decide (30 < byteLen w)) ||
    looksLikeJwt w ||
    (decide (32 ≤ byteLen w) && looksLikeHexOrB64Token w)

def maskScalarIfSecret (w : List Char) : List Char := if looksSecret w then marker w else w

def isSlash (c : Char) : Bool := c == '/' || c == '\\'

/-- The components of a path, masked one by one; the first argument is the component read so far. -/
def maskComponents : List Char → List Char → List Char
  | component, [] => maskScalarIfSecret component
  | component, c :: cs =>
    if isSlash c then maskScalarIfSecret component ++ c :: maskComponents [] cs
    else maskComponents (component ++ [c]) cs

def isPath (w : List Char) : Bool := w.head?.any isSlash

def maskIfSecret (w : List Char) : List Char := if isPath w then maskComponents [] w else maskScalarIfSecret w

/-! ## One line -/

/-- What the scanner walks over: a separator, a word, a marker it made itself, the bracket of any other marker. -/
inductive Token where
  | separator (c : Char)
  | word (w : List Char)
  | generated (m : List Char)
  | bracket
  deriving DecidableEq

def Token.masked : Token → List Char
  | .separator c => [c]
  | .word w => maskIfSecret w
  | .generated m => m
  | .bracket => ['[']

def isSeparator (c : Char) : Bool :=
  Text.isWhitespace c || c == '"' || c == '\'' || c == '=' || c == ':' || c == ',' || c == '(' || c == ')' || c == ';'

def wordToken (w : List Char) : List Token := if w.isEmpty then [] else [.word w]

/-- The walk of `push_scrubbed_unmarked_tokens`; the first argument is the word read so far. -/
def unmarkedTokens : List Char → List Char → List Token
  | w, [] => wordToken w
  | w, c :: cs =>
    if isSeparator c then wordToken w ++ .separator c :: unmarkedTokens [] cs else unmarkedTokens (w ++ [c]) cs

/-- The loop of `scrub_tokens_in_line`. -/
def tokens (line : List Char) : List Token :=
  match _h : Search.splitFirst markerOpen line with
  | none => unmarkedTokens [] line
  | some (before, candidate) =>
    unmarkedTokens [] before ++ match _hm : generatedMarkerLen candidate with
      | some n => .generated (candidate.take n) :: tokens (candidate.drop n)
      | none => .bracket :: tokens (candidate.drop 1)
termination_by line.length
decreasing_by
  all_goals
    have hlen := Search.splitFirst_length _h
    have hopen := (Search.splitFirst_some _h).2.1.length_le
    rw [length_markerOpen] at hopen
    rw [List.length_drop]
  · have := generatedMarkerLen_eq _hm
    omega
  · omega

def scrubTokensInLine (line : List Char) : List Char := (tokens line).flatMap Token.masked

def schemeSeparator : List Char := [':', '/', '/']

/-- The characters that end an authority before any userinfo. -/
def endsAuthority (c : Char) : Bool :=
  c == '/' || c == '?' || c == '#' || c == '\\' || c == '"' || c == '\'' || c == '<' || c == '>' || c == '\x60' ||
    c == ',' || c == '(' || c == ')' || c == ';' || c == ' ' || c == '\t' || c == '\r' || c == '\n'

/-- What stands before the `@` of an authority, and what follows it. -/
def userinfo : List Char → Option (List Char × List Char)
  | [] => none
  | c :: cs =>
    if c = '@' then some ([], cs) else if endsAuthority c then none else (userinfo cs).map (fun p => (c :: p.1, p.2))

/-- The arms of `mask_url_credentials` on a userinfo. -/
def maskUserinfo (info : List Char) : List Char :=
  match Search.splitFirst [':'] info with
  | some (user, _ :: password) =>
    if !password.isEmpty && !markerOpen.isPrefixOf password then user ++ ':' :: marker password else info
  | _ => info

theorem userinfo_length : ∀ {tail info rest : List Char}, userinfo tail = some (info, rest) →
    info.length + rest.length + 1 = tail.length
  | [], _, _, h => by cases h
  | c :: cs, info, rest, h => by
    rw [userinfo] at h
    split at h
    · cases h
      simp
    · split at h
      · cases h
      · obtain ⟨⟨i, r⟩, hi, heq⟩ := Option.map_eq_some_iff.1 h
        cases heq
        have := userinfo_length hi
        simp only [List.length_cons]
        omega

def maskUrlCredentials (line : List Char) : List Char :=
  match _h : Search.splitFirst schemeSeparator line with
  | none => line
  | some (before, found) =>
    before ++ schemeSeparator ++ match _hi : userinfo (found.drop schemeSeparator.length) with
      | none => maskUrlCredentials (found.drop schemeSeparator.length)
      | some (info, rest) => maskUserinfo info ++ '@' :: maskUrlCredentials rest
termination_by line.length
decreasing_by
  · have := Search.splitFirst_some _h
    have := this.2.1.length_le
    have := Search.splitFirst_length _h
    simp only [schemeSeparator, List.length_cons, List.length_nil, List.length_drop] at *
    omega
  · have := userinfo_length _hi
    have := Search.splitFirst_length _h
    simp only [List.length_drop] at *
    omega

def maskLine (line : List Char) : List Char := scrubTokensInLine (maskUrlCredentials line)

/-! ## A text -/

def splitInclusive : List Char → List (List Char)
  | [] => []
  | c :: cs =>
    if c = '\n' then [c] :: splitInclusive cs
    else
      match splitInclusive cs with
      | [] => [[c]]
      | l :: ls => (c :: l) :: ls

/-- `trim_end_matches` of line feeds and carriage returns. -/
def trimLineEnd (line : List Char) : List Char := line.rdropWhile (fun c => c == '\n' || c == '\r')

def beginsKey (line : List Char) : Bool :=
  contains (trimLineEnd line) "BEGIN".toList && contains (trimLineEnd line) "PRIVATE KEY".toList

def endsKey (line : List Char) : Bool :=
  contains (trimLineEnd line) "END".toList && contains (trimLineEnd line) "PRIVATE KEY".toList

def keyNotice : List Char := "[REDACTED PRIVATE KEY]\n".toList

/-- The loop of `scrub`: what each line that is not dropped leaves; the flag is `in_pem`. -/
def scrubLines : Bool → List (List Char) → List (List Char)
  | _, [] => []
  | inPem, line :: lines =>
    if beginsKey line then keyNotice :: scrubLines true lines
    else if inPem then scrubLines (!endsKey line) lines
    else maskLine line :: scrubLines false lines

def scrub (s : List Char) : List Char := (scrubLines false (splitInclusive s)).flatten

end Iteron.Redact
