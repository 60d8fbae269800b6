import DarkUI.Foundation.Text
import Mathlib.Data.List.Chain
import Mathlib.Data.List.DropRight

/-! # Words of a shell command

The quoting rules a POSIX shell reads a simple command with, and field splitting of
an unquoted expansion. A text with an unquoted character that does more than stand
for itself is not read as a plain list of words.
-/

namespace Shell

open Text

/-- The default field separators. -/
def isBlank (c : Char) : Bool := c == ' ' || c == '\t' || c == '\n'

/-- Outside quotes these operate, expand or match instead of standing for themselves. -/
def isSpecial (c : Char) : Bool := "\n|&;<>()$`*?[#~=%{}!".toList.contains c

inductive Quoting
  | bare
  | escaped
  | single
  | double
  | doubleEscaped
  deriving DecidableEq

/-- One more character of the word being read. -/
def push (word : Option CString) (c : Char) : Option CString := some (word.getD [] ++ [c])

def readWords : Quoting → Option CString → CString → Option (List CString)
  | .bare, word, [] => some word.toList
  | .bare, word, c :: rest =>
      if c = ' ' ∨ c = '\t' then (readWords .bare none rest).map (word.toList ++ ·)
      else if c = '\'' then readWords .single (some (word.getD [])) rest
      else if c = '"' then readWords .double (some (word.getD [])) rest
      else if c = '\\' then readWords .escaped word rest
      else if isSpecial c then none
      else readWords .bare (push word c) rest
  | .escaped, word, c :: rest =>
      if c = '\n' then readWords .bare word rest else readWords .bare (push word c) rest
  | .single, word, c :: rest =>
      if c = '\'' then readWords .bare word rest else readWords .single (push word c) rest
  | .double, word, c :: rest =>
      if c = '"' then readWords .bare word rest
      else if c = '\\' then readWords .doubleEscaped word rest
      else if c = '$' ∨ c = '`' then none
      else readWords .double (push word c) rest
  | .doubleEscaped, word, c :: rest =>
      if c = '\n' then readWords .double word rest
      else if c = '$' ∨ c = '`' ∨ c = '"' ∨ c = '\\' then readWords .double (push word c) rest
      else readWords .double (push (push word '\\') c) rest
  | _, _, [] => none

/-- The words of a simple command, if the text is one. -/
def words (text : CString) : Option (List CString) := readWords .bare none text

/-! ## Quoting -/

/-- Each single quote closes the quotes, stands escaped, and opens them again. -/
def escape (s : CString) : CString := s.flatMap fun c => if c = '\'' then "'\\''".toList else [c]

def quote (s : CString) : CString := '\'' :: escape s ++ ['\'']

/-- A command line that quotes every word. -/
def command (ws : List CString) : CString := [' '].intercalate (ws.map quote)

theorem escape_cons (c : Char) (s : CString) :
    escape (c :: s) = (if c = '\'' then "'\\''".toList else [c]) ++ escape s := by
  simp [escape]

theorem escape_append (s t : CString) : escape (s ++ t) = escape s ++ escape t := by
  simp [escape]

theorem readWords_escape (read s rest : CString) :
    readWords .single (some read) (escape s ++ '\'' :: rest) =
      readWords .bare (some (read ++ s)) rest := by
  induction s generalizing read with
  | nil => simp [escape, readWords]
  | cons c s ih =>
      rw [escape_cons]
      by_cases hc : c = '\''
      · subst c
        have hgroup : "'\\''".toList = ['\'', '\\', '\'', '\''] := by decide
        simp only [if_true, hgroup, List.cons_append, List.nil_append]
        simp [readWords, push, ih]
      · simp only [hc, if_false, List.cons_append, List.nil_append]
        simp [readWords, hc, push, ih]

theorem readWords_quote (word : Option CString) (s rest : CString) :
    readWords .bare word (quote s ++ rest) =
      readWords .bare (some (word.getD [] ++ s)) rest := by
  simp only [quote, List.cons_append, List.append_assoc, List.nil_append]
  rw [readWords]
  simp [readWords_escape]

/-- A quoted command line is read back as the words that were quoted. -/
theorem words_command (ws : List CString) : words (command ws) = some ws := by
  unfold words
  induction ws with
  | nil => rfl
  | cons w ws ih =>
      cases ws with
      | nil =>
          have h := readWords_quote none w []
          simpa [command, readWords] using h
      | cons w' ws =>
          have hcommand : command (w :: w' :: ws) = quote w ++ ' ' :: command (w' :: ws) := by
            simp [command, List.intercalate_cons_cons]
          rw [hcommand, readWords_quote, readWords, ih]
          simp

/-! ## Field splitting and pathname expansion -/

/-- The fields that are left to read when the characters of one have been read. -/
def fieldsFrom (field : CString) : CString → List CString
  | [] => if field = [] then [] else [field]
  | c :: rest =>
      if isBlank c then
        if field = [] then fieldsFrom [] rest else field :: fieldsFrom [] rest
      else fieldsFrom (field ++ [c]) rest

/-- The pieces of a text between its blanks. -/
def fields (text : CString) : List CString := fieldsFrom [] text

def joined (fs : List CString) : CString := [' '].intercalate fs

/-- A field that matches no file stands for itself. -/
def expand (pathnames : CString → List CString) (field : CString) : List CString :=
  match pathnames field with
  | [] => [field]
  | names => names

/-- The text that `eval` reads when its argument is an unquoted expansion. -/
def evaluated (pathnames : CString → List CString) (text : CString) : CString :=
  joined ((fields text).flatMap (expand pathnames))

/-- Each run of blanks becomes one space, after a blank none. -/
def respaceFrom (after : Bool) : CString → CString
  | [] => []
  | c :: rest =>
      if isBlank c then
        if after then respaceFrom true rest else ' ' :: respaceFrom true rest
      else c :: respaceFrom false rest

def respace (s : CString) : CString := respaceFrom false s

/-- Every blank is a space, and no blank follows another. -/
structure SingleSpaced (s : CString) : Prop where
  spaces : ∀ c ∈ s, isBlank c → c = ' '
  apart : s.IsChain fun a b => isBlank a → isBlank b = false

theorem length_respaceFrom_le (after : Bool) (s : CString) :
    (respaceFrom after s).length ≤ s.length := by
  induction s generalizing after with
  | nil => exact Nat.le_refl _
  | cons c rest ih =>
      unfold respaceFrom
      split
      next =>
        split
        next => exact Nat.le_succ_of_le (ih true)
        next => exact Nat.succ_le_succ (ih true)
      next => exact Nat.succ_le_succ (ih false)

theorem singleSpaced_cons {c : Char} {rest : CString} : SingleSpaced (c :: rest) ↔
    SingleSpaced rest ∧ (isBlank c → c = ' ' ∧ ∀ d ∈ rest.head?, isBlank d = false) := by
  constructor
  · intro h
    have hapart := List.isChain_cons.mp h.apart
    refine ⟨⟨fun d hd => h.spaces d (List.mem_cons_of_mem _ hd), hapart.2⟩, fun hc => ?_⟩
    exact ⟨h.spaces c List.mem_cons_self hc, fun d hd => hapart.1 d hd hc⟩
  · rintro ⟨hrest, hblank⟩
    constructor
    · intro d hd hd'
      rcases List.mem_cons.mp hd with rfl | hd
      · exact (hblank hd').1
      · exact hrest.spaces d hd hd'
    · apply List.isChain_cons.mpr
      exact ⟨fun d hd hc => (hblank hc).2 d hd, hrest.apart⟩

theorem respaceFrom_eq_self_iff {after : Bool} {s : CString} : respaceFrom after s = s ↔
    SingleSpaced s ∧ (after → ∀ c ∈ s.head?, isBlank c = false) := by
  induction s generalizing after with
  | nil => simp [respaceFrom, SingleSpaced.mk]
  | cons c rest ih =>
      rw [singleSpaced_cons]
      unfold respaceFrom
      cases hc : isBlank c with
      | true =>
          cases after with
          | true =>
              -- the blank is dropped, and nothing makes up for it
              have hshort : respaceFrom true rest ≠ c :: rest := by
                intro heq
                have hlength := length_respaceFrom_le true rest
                rw [heq, List.length_cons] at hlength
                omega
              simp [hshort, hc]
          | false => simp [ih, hc, @eq_comm _ ' ', and_left_comm]
      | false => simp [ih, hc]

theorem respace_eq_self_iff {s : CString} : respace s = s ↔ SingleSpaced s := by
  simp [respace, respaceFrom_eq_self_iff]

instance (s : CString) : Decidable (SingleSpaced s) :=
  decidable_of_iff (respace s = s) respace_eq_self_iff

theorem joined_cons {f : CString} {fs : List CString} (h : fs ≠ []) :
    joined (f :: fs) = f ++ ' ' :: joined fs := by
  obtain ⟨g, rest, rfl⟩ := List.exists_cons_of_ne_nil h
  simp [joined, List.intercalate_cons_cons]

theorem fieldsFrom_ne_nil {field : CString} {rest : CString} {q : Char} (hq : isBlank q = false) :
    fieldsFrom field (rest ++ [q]) ≠ [] := by
  induction rest generalizing field with
  | nil => simp [fieldsFrom, hq]
  | cons c rest ih =>
      rw [List.cons_append, fieldsFrom]
      split
      next =>
        split
        next => exact ih
        next => exact List.cons_ne_nil _ _
      next => exact ih

/-- A text that does not end with a blank is put together again with single spaces. -/
theorem joined_fieldsFrom {field rest : CString} {q : Char} (hq : isBlank q = false) :
    joined (fieldsFrom field (rest ++ [q])) = field ++ respaceFrom (field = []) (rest ++ [q]) := by
  induction rest generalizing field with
  | nil => simp [fieldsFrom, respaceFrom, hq, joined]
  | cons c rest ih =>
      rw [List.cons_append, fieldsFrom, respaceFrom]
      cases hc : isBlank c with
      | true =>
          cases field with
          | nil => simp [ih]
          | cons d field => simp [joined_cons (fieldsFrom_ne_nil hq), ih]
      | false => simp [ih]

/-! ## A quoted command line as an unquoted expansion -/

theorem isBlank_quote : isBlank '\'' = false := rfl

/-- Inside quotes runs of blanks shrink as they do outside. -/
theorem respaceFrom_escape (after : Bool) (s rest : CString) :
    respaceFrom after (escape s ++ '\'' :: rest) =
      escape (respaceFrom after s) ++ '\'' :: respaceFrom false rest := by
  induction s generalizing after with
  | nil => simp [escape, respaceFrom, isBlank_quote]
  | cons c s ih =>
      rw [escape_cons]
      by_cases hquote : c = '\''
      · subst c
        have hgroup : "'\\''".toList = ['\'', '\\', '\'', '\''] := by decide
        have hslash : isBlank '\\' = false := rfl
        simp only [if_true, hgroup, List.cons_append, List.nil_append]
        simp [respaceFrom, isBlank_quote, hslash, ih, escape_cons, hgroup]
      · simp only [hquote, if_false, List.cons_append, List.nil_append]
        cases hc : isBlank c with
        | true =>
            cases after with
            | true => simp [respaceFrom, hc, ih]
            | false => simp [respaceFrom, hc, ih, escape_cons]
        | false => simp [respaceFrom, hc, ih, escape_cons, hquote]

theorem command_cons {w : CString} {ws : List CString} (h : ws ≠ []) :
    command (w :: ws) = quote w ++ ' ' :: command ws := by
  obtain ⟨v, rest, rfl⟩ := List.exists_cons_of_ne_nil h
  simp [command, List.intercalate_cons_cons]

theorem respace_quote (w rest : CString) :
    respace (quote w ++ rest) = quote (respace w) ++ respace rest := by
  simp only [quote, List.cons_append, List.append_assoc, List.nil_append]
  rw [respace, respaceFrom, if_neg (by simp [isBlank_quote]), respaceFrom_escape]
  rfl

/-- Field splitting does to a quoted command line what it does to each word. -/
theorem respace_command (ws : List CString) :
    respace (command ws) = command (ws.map respace) := by
  induction ws with
  | nil => rfl
  | cons w ws ih =>
      by_cases hws : ws = []
      · subst hws
        have hquote := respace_quote w []
        simpa [command, respace, respaceFrom] using hquote
      · have hnonblank : respace (' ' :: command ws) = ' ' :: respace (command ws) := by
          obtain ⟨v, rest, rfl⟩ := List.exists_cons_of_ne_nil hws
          cases rest with
          | nil => simp [command, quote, respace, respaceFrom, isBlank]
          | cons u rest =>
              simp [command, List.intercalate_cons_cons, quote, respace, respaceFrom, isBlank]
        rw [command_cons hws, respace_quote, hnonblank, ih, List.map_cons,
          command_cons (by simpa using hws)]

theorem command_bounds {ws : List CString} (h : ws ≠ []) :
    ∃ text, command ws = '\'' :: (text ++ ['\'']) := by
  induction ws with
  | nil => exact absurd rfl h
  | cons w ws ih =>
      by_cases hws : ws = []
      · subst hws
        exact ⟨escape w, by simp [command, quote]⟩
      · obtain ⟨text, htext⟩ := ih hws
        exact ⟨escape w ++ '\'' :: ' ' :: '\'' :: text, by simp [command_cons hws, htext, quote]⟩

/-- Where no field matches a file, `eval` reads each word with single spaces. -/
theorem evaluated_command {pathnames : CString → List CString} {ws : List CString} (h : ws ≠ [])
    (hinert : ∀ field ∈ fields (command ws), pathnames field = []) :
    evaluated pathnames (command ws) = command (ws.map respace) := by
  have hself : (fields (command ws)).flatMap (expand pathnames) = fields (command ws) := by
    calc
      (fields (command ws)).flatMap (expand pathnames)
          = (fields (command ws)).flatMap fun field => [field] := by
        apply List.flatMap_congr
        intro field hfield
        rw [expand, hinert field hfield]
      _ = fields (command ws) := List.flatMap_singleton' _
  obtain ⟨text, htext⟩ := command_bounds h
  have hfirst : fields (command ws) = fieldsFrom ['\''] (text ++ ['\'']) := by
    rw [htext]
    rfl
  rw [evaluated, hself, ← respace_command, hfirst, joined_fieldsFrom isBlank_quote, htext]
  rfl

end Shell
