import DarkUI.Foundation.Shell

/-! # Redirections of a simple command

A word of digits that nothing separates from an output operator names the descriptor that is
redirected; any other word is ended by the operator. The word behind the operator is its target.
-/

namespace Shell

open Text

/-- What has been read of a word, and whether a part of it was quoted. -/
structure Piece where
  text : CString
  quoted : Bool

namespace Piece

def add (piece : Option Piece) (c : Char) : Option Piece :=
  match piece with
  | none => some ⟨[c], false⟩
  | some piece => some { piece with text := piece.text ++ [c] }

def quote (piece : Option Piece) : Option Piece :=
  match piece with
  | none => some ⟨[], true⟩
  | some piece => some { piece with quoted := true }

end Piece

/-- A word, or an output operator with the descriptor before it. -/
inductive Token
  | word (text : CString)
  | output (descriptor : CString)
  deriving DecidableEq

namespace Token

/-- The word that a blank or the end of the text ends. -/
def ended : Option Piece → List Token
  | none => []
  | some piece => [.word piece.text]

/-- The operator that follows what has been read of a word. -/
def operator : Option Piece → List Token
  | none => [.output []]
  | some piece =>
      if !piece.quoted ∧ piece.text ≠ [] ∧ piece.text.all Char.isDigit then [.output piece.text]
      else [.word piece.text, .output []]

end Token

def readTokens : Quoting → Option Piece → CString → Option (List Token)
  | .bare, piece, [] => some (Token.ended piece)
  | .bare, piece, c :: rest =>
      if c = ' ' ∨ c = '\t' then (readTokens .bare none rest).map (Token.ended piece ++ ·)
      else if c = '\'' then readTokens .single (Piece.quote piece) rest
      else if c = '"' then readTokens .double (Piece.quote piece) rest
      else if c = '\\' then readTokens .escaped (Piece.quote piece) rest
      else if c = '>' then
        -- the operators that begin with another one are not read
        if rest.head?.any ">&|(".toList.contains then none
        else (readTokens .bare none rest).map (Token.operator piece ++ ·)
      else if isSpecial c then none
      else readTokens .bare (Piece.add piece c) rest
  | .escaped, piece, c :: rest =>
      if c = '\n' then readTokens .bare piece rest
      else readTokens .bare (Piece.add piece c) rest
  | .single, piece, c :: rest =>
      if c = '\'' then readTokens .bare piece rest
      else readTokens .single (Piece.add piece c) rest
  | .double, piece, c :: rest =>
      if c = '"' then readTokens .bare piece rest
      else if c = '\\' then readTokens .doubleEscaped piece rest
      else if c = '$' ∨ c = '`' then none
      else readTokens .double (Piece.add piece c) rest
  | .doubleEscaped, piece, c :: rest =>
      if c = '\n' then readTokens .double piece rest
      else if c = '$' ∨ c = '`' ∨ c = '"' ∨ c = '\\' then
        readTokens .double (Piece.add piece c) rest
      else readTokens .double (Piece.add (Piece.add piece '\\') c) rest
  | _, _, [] => none

/-- Output of a descriptor sent to a file. -/
structure Redirection where
  descriptor : CString
  target : CString
  deriving DecidableEq

structure SimpleCommand where
  words : List CString
  redirections : List Redirection
  deriving DecidableEq

/-- The words that are no targets, and the redirections. -/
def assemble : List Token → Option SimpleCommand
  | [] => some ⟨[], []⟩
  | .word text :: rest =>
      (assemble rest).map fun command => { command with words := text :: command.words }
  | .output descriptor :: .word target :: rest =>
      (assemble rest).map fun command =>
        { command with redirections := ⟨descriptor, target⟩ :: command.redirections }
  | .output _ :: _ => none

/-- The simple command that a shell reads a text as, if it is one. -/
def simpleCommand (text : CString) : Option SimpleCommand :=
  (readTokens .bare none text).bind assemble

/-! ## Reading words -/

/-- A character that stands for itself outside quotes. -/
def isPlain (c : Char) : Bool :=
  !(c == ' ' || c == '\t' || c == '\'' || c == '"' || c == '\\' || isSpecial c)

theorem readTokens_plain {c : Char} (hc : isPlain c) (piece : Option Piece) (rest : CString) :
    readTokens .bare piece (c :: rest) = readTokens .bare (Piece.add piece c) rest := by
  simp only [isPlain, Bool.not_eq_true', Bool.or_eq_false_iff, beq_eq_false_iff_ne] at hc
  obtain ⟨⟨⟨⟨⟨hspace, htab⟩, hsingle⟩, hdouble⟩, hslash⟩, hspecial⟩ := hc
  have hoperator : c ≠ '>' := by
    rintro rfl
    exact absurd hspecial (by decide)
  rw [readTokens, if_neg (by simp [hspace, htab]), if_neg hsingle, if_neg hdouble,
    if_neg hslash, if_neg hoperator, if_neg (by simp [hspecial])]

theorem readTokens_append {s : CString} (hs : ∀ c ∈ s, isPlain c) (piece : Piece)
    (rest : CString) :
    readTokens .bare (some piece) (s ++ rest) =
      readTokens .bare (some { piece with text := piece.text ++ s }) rest := by
  induction s generalizing piece with
  | nil => simp
  | cons c s ih =>
      rw [List.cons_append, readTokens_plain (hs c List.mem_cons_self)]
      have hrest := ih (fun d hd => hs d (List.mem_cons_of_mem c hd))
        { piece with text := piece.text ++ [c] }
      simpa [Piece.add] using hrest

/-- A word of plain characters, from its first on. -/
theorem readTokens_word {s : CString} (hs : ∀ c ∈ s, isPlain c) (hne : s ≠ []) (rest : CString) :
    readTokens .bare none (s ++ rest) = readTokens .bare (some ⟨s, false⟩) rest := by
  obtain ⟨c, s, rfl⟩ := List.exists_cons_of_ne_nil hne
  rw [List.cons_append, readTokens_plain (hs c List.mem_cons_self)]
  exact readTokens_append (fun d hd => hs d (List.mem_cons_of_mem c hd)) ⟨[c], false⟩ rest

theorem readTokens_escape (piece : Piece) (hquoted : piece.quoted) (s rest : CString) :
    readTokens .single (some piece) (escape s ++ '\'' :: rest) =
      readTokens .bare (some { piece with text := piece.text ++ s }) rest := by
  induction s generalizing piece with
  | nil => simp [escape, readTokens]
  | cons c s ih =>
      rw [escape_cons]
      have hrest := ih { piece with text := piece.text ++ [c] } hquoted
      by_cases hc : c = '\''
      · subst c
        have hgroup : "'\\''".toList = ['\'', '\\', '\'', '\''] := by decide
        simp only [if_true, hgroup, List.cons_append, List.nil_append]
        simpa [readTokens, Piece.add, Piece.quote, hquoted] using hrest
      · simp only [hc, if_false, List.cons_append, List.nil_append]
        simpa [readTokens, hc, Piece.add] using hrest

theorem readTokens_quote (s rest : CString) :
    readTokens .bare none (quote s ++ rest) = readTokens .bare (some ⟨s, true⟩) rest := by
  simp only [quote, List.cons_append, List.append_assoc, List.nil_append]
  rw [readTokens]
  simpa [Piece.quote] using readTokens_escape ⟨[], true⟩ rfl s rest

theorem readTokens_blank (piece : Option Piece) (rest : CString) :
    readTokens .bare piece (' ' :: rest) =
      (readTokens .bare none rest).map (Token.ended piece ++ ·) := by
  rw [readTokens, if_pos (Or.inl rfl)]

/-- Output of a descriptor to a file whose name needs no quotes. -/
theorem readTokens_redirection {digit : Char} {target : CString} (hdigit : digit.isDigit)
    (hplain : isPlain digit) (htarget : ∀ c ∈ target, isPlain c) (hne : target ≠ []) :
    readTokens .bare none (digit :: '>' :: target) = some [.output [digit], .word target] := by
  have hfirst : target.head?.any ">&|(".toList.contains = false := by
    obtain ⟨c, rest, rfl⟩ := List.exists_cons_of_ne_nil hne
    have hc := htarget c List.mem_cons_self
    rw [Bool.eq_false_iff]
    intro hoperator
    have hmem : c ∈ ">&|(".toList := List.contains_iff_mem.mp hoperator
    have hspecial : (">&|(".toList.all fun d => !isPlain d) = true := by decide
    have hnot := List.all_eq_true.mp hspecial c hmem
    rw [hc] at hnot
    cases hnot
  have hword := readTokens_word htarget hne []
  rw [List.append_nil] at hword
  have hoperator : Token.operator (some ⟨[digit], false⟩) = [.output [digit]] := by
    simp [Token.operator, hdigit]
  have hread : readTokens .bare (some ⟨[digit], false⟩) ('>' :: target) =
      (readTokens .bare none target).map (Token.operator (some ⟨[digit], false⟩) ++ ·) := by
    rw [readTokens, if_neg (by decide), if_neg (by decide), if_neg (by decide),
      if_neg (by decide), if_pos rfl, hfirst, if_neg Bool.false_ne_true]
  rw [readTokens_plain hplain]
  change readTokens .bare (some ⟨[digit], false⟩) ('>' :: target) = _
  rw [hread, hword, hoperator]
  rfl

/-- Quoted arguments behind what has been read of a word. -/
theorem readTokens_arguments {tokens : List Token} {rest : CString}
    (hrest : ∀ piece, readTokens .bare (some piece) rest = some (.word piece.text :: tokens))
    (arguments : List CString) (piece : Piece) :
    readTokens .bare (some piece) ((arguments.flatMap fun w => ' ' :: quote w) ++ rest) =
      some (.word piece.text :: (arguments.map .word ++ tokens)) := by
  induction arguments generalizing piece with
  | nil => exact hrest piece
  | cons w arguments ih =>
      rw [List.flatMap_cons, List.cons_append, List.cons_append, List.append_assoc,
        readTokens_blank, readTokens_quote, ih ⟨w, true⟩]
      rfl

/-- A command whose arguments are quoted and whose output is redirected is read as it was
meant. -/
theorem simpleCommand_quoted (name : CString) (digit : Char) (target : CString)
    (hname : ∀ c ∈ name, isPlain c) (hname_ne : name ≠ []) (hdigit : digit.isDigit)
    (hplain : isPlain digit) (htarget : ∀ c ∈ target, isPlain c) (htarget_ne : target ≠ [])
    (arguments : List CString) :
    simpleCommand (name ++ ((arguments.flatMap fun w => ' ' :: quote w) ++
        ' ' :: digit :: '>' :: target)) =
      some ⟨name :: arguments, [⟨[digit], target⟩]⟩ := by
  have hrest (piece : Piece) :
      readTokens .bare (some piece) (' ' :: digit :: '>' :: target) =
        some (.word piece.text :: [.output [digit], .word target]) := by
    rw [readTokens_blank, readTokens_redirection hdigit hplain htarget htarget_ne]
    rfl
  have hassemble (words : List CString) :
      assemble (words.map .word ++ [.output [digit], .word target]) =
        some ⟨words, [⟨[digit], target⟩]⟩ := by
    induction words with
    | nil => rfl
    | cons w words ih => rw [List.map_cons, List.cons_append, assemble, ih]; rfl
  rw [simpleCommand, readTokens_word hname hname_ne, readTokens_arguments hrest]
  exact hassemble (name :: arguments)

end Shell
