import Lasterm.Hub.SshRoute
import Lasterm.Lib.Segments
import Mathlib.Data.List.DropRight

/-!
# Quoting arguments

What the hub writes into a command line for a value (`quotePosix`, `shellQuote`,
`quoteWindowsArgument`), and how such a line is read: by a POSIX shell, and by a Windows program.

## Main results

* `posixCommand_quoted`, `windowsArgs_quoted`: a line of quoted values is read as these values.
-/

namespace Lasterm.Hub.Quoting

open List Segments SshRoute

/-! ### A POSIX shell -/

/-- What stands for itself in an argument. -/
def isPlain (c : Char) : Bool := c.isAlphanum || "_@%+=:,./-".toList.contains c

/-- A text in single quotes; `escape` is what stands for one of its own. -/
def singleQuoted (escape value : Text) : Text :=
  '\'' :: value.flatMap (fun c => if c = '\'' then escape else [c]) ++ ['\'']

/-- `quotePosix`, and `quotePosixShellArg`. -/
def quotePosix (value : Text) : Text :=
  if value ≠ [] ∧ value.all isPlain then value else singleQuoted "'\\''".toList value

/-- `shellQuote`: in single quotes, a single quote in double ones. -/
def shellQuote (value : Text) : Text := singleQuoted "'\"'\"'".toList value

/-- Where a shell's reader is in a line. -/
inductive Mode
  | plain
  | escaped
  | single
  | double

/-- The words of a line, behind `word`, what was read of the one under way.  There are none where a
character does not stand for itself, or a quotation is not ended. -/
def posixWords : Mode → Option Text → Text → Option (List Text)
  | mode, word, [] => match mode with
    | .plain => some word.toList
    | _ => none
  | mode, word, c :: cs =>
    let text := word.getD []
    match mode with
    | .plain =>
      if c = '\'' then posixWords .single (some text) cs
      else if c = '"' then posixWords .double (some text) cs
      else if c = ' ' then (posixWords .plain none cs).map (word.toList ++ ·)
      else if c = '\\' then posixWords .escaped (some text) cs
      else if isPlain c then posixWords .plain (some (text ++ [c])) cs else none
    | .escaped => if c = '\n' then none else posixWords .plain (some (text ++ [c])) cs
    | .single =>
      if c = '\'' then posixWords .plain word cs else posixWords .single (some (text ++ [c])) cs
    | .double =>
      if c = '"' then posixWords .plain word cs
      else if "$`\\".toList.contains c then none else posixWords .double (some (text ++ [c])) cs

/-- The reserved words that are spelled in plain characters, with those of the usual shells. -/
def reservedWords : List Text := ["case", "do", "done", "elif", "else", "esac", "fi", "for", "if",
  "in", "then", "until", "while", "coproc", "function", "select", "time"].map String.toList

/-- A name, and `=` or `+=` after it. -/
def isAssignment (text : Text) : Bool :=
  let name := text.takeWhile fun c => c.isAlphanum || c = '_'
  let rest := text.drop name.length
  (name.head?.any fun c => !c.isDigit) && (['='].isPrefixOf rest || ['+', '='].isPrefixOf rest)

/-- What a shell takes for its own where a command starts, unless something of it is quoted. -/
def isSyntax (text : Text) : Bool := reservedWords.contains text || isAssignment text

/-- The words of a command: the first of them, as it is written, is none of the shell's own. -/
def posixCommand (line : Text) : Option (List Text) :=
  if isSyntax (line.takeWhile (· ≠ ' ')) then none else posixWords .plain none line

variable {value text rest : Text} {word : Text}

theorem posixWords_plain (h : value.all isPlain) : posixWords .plain (some word) (value ++ rest) =
    posixWords .plain (some (word ++ value)) rest := by
  induction value generalizing word with
  | nil => simp
  | cons c cs ih =>
    obtain ⟨hc, hcs⟩ := Bool.and_eq_true_iff.mp (all_cons ▸ h)
    have hne : c ≠ '\'' ∧ c ≠ '"' ∧ c ≠ ' ' ∧ c ≠ '\\' := by
      refine ⟨?_, ?_, ?_, ?_⟩ <;> (rintro rfl; exact nomatch hc)
    simp [posixWords, hne, hc, ih hcs]

theorem posixWords_singleQuoted {escape : Text}
    (h : ∀ word rest, posixWords .single (some word) (escape ++ rest) =
      posixWords .single (some (word ++ ['\''])) rest) :
    posixWords .plain (some word) (singleQuoted escape value ++ rest) =
      posixWords .plain (some (word ++ value)) rest := by
  have hinside : ∀ word, posixWords .single (some word)
      (value.flatMap (fun c => if c = '\'' then escape else [c]) ++ '\'' :: rest) =
        posixWords .plain (some (word ++ value)) rest := by
    induction value with
    | nil => simp [posixWords]
    | cons c cs ih =>
      intro word
      rw [flatMap_cons, append_assoc]
      split
      · next hc => rw [h, ih, hc, append_assoc, singleton_append]
      · next hc => simp [posixWords, hc, ih]
  simpa [singleQuoted, posixWords] using hinside word

theorem intercalate_cons_below (text : Text) (texts : List Text) :
    [' '].intercalate (text :: texts) = text ++ below ' ' texts :=
  (cons.inj (cons_intercalate ' ' (cons_ne_nil text texts))).2

/-- A value as it may be written: by any of the three functions. -/
def Quoted (value text : Text) : Prop := text = quotePosix value ∨ text = shellQuote value

theorem Quoted.read (h : Quoted value text) :
    posixWords .plain none (text ++ rest) = posixWords .plain (some value) rest := by
  have hnone : ∀ c cs, c ≠ ' ' → posixWords .plain none (c :: cs) =
      posixWords .plain (some []) (c :: cs) := by
    intro c cs hc
    simp [posixWords, hc]
  have hsingle : ∀ {escape : Text} value, (∀ word rest, posixWords .single (some word)
      (escape ++ rest) = posixWords .single (some (word ++ ['\''])) rest) →
      posixWords .plain none (singleQuoted escape value ++ rest) =
        posixWords .plain (some value) rest :=
    fun value hescape => (hnone _ _ (by decide)).trans (posixWords_singleQuoted hescape)
  obtain rfl | rfl := h
  · unfold quotePosix
    split
    · next hplain =>
      obtain ⟨c, cs, rfl⟩ := exists_cons_of_ne_nil hplain.1
      refine (hnone c _ ?_).trans (posixWords_plain hplain.2)
      rintro rfl
      exact nomatch hplain.2
    · exact hsingle value fun word rest => by simp [posixWords]
  · exact hsingle value fun word rest => by simp [posixWords]

theorem posixWords_quoted {values texts : List Text} (h : Forall₂ Quoted values texts) :
    posixWords .plain none ([' '].intercalate texts) = some values := by
  have hbelow : ∀ {values texts}, Forall₂ Quoted values texts → ∀ word : Option Text,
      posixWords .plain word (below ' ' texts) = some (word.toList ++ values) := by
    intro values texts h
    induction h with
    | nil => simp [posixWords]
    | cons hquoted _ ih =>
      intro word
      simp [posixWords, hquoted.read, ih]
  cases h with
  | nil => rfl
  | cons hquoted hrest =>
    rw [intercalate_cons_below, hquoted.read]
    exact hbelow hrest _

/-- A value in quotes is none of the shell's own, whatever follows. -/
theorem isSyntax_quote (rest : Text) : isSyntax ('\'' :: rest) = false := by
  simp [isSyntax, isAssignment, reservedWords]

/-- What is written for a value is read as the shell's own only if it is so by itself. -/
theorem Quoted.isSyntax (h : Quoted value text) (hbare : isSyntax text = false)
    (texts : List Text) : isSyntax ((text ++ below ' ' texts).takeWhile (· ≠ ' ')) = false := by
  have hsingle : ∀ escape : Text, Quoting.isSyntax
      ((singleQuoted escape value ++ below ' ' texts).takeWhile (· ≠ ' ')) = false :=
    fun _ => isSyntax_quote _
  obtain rfl | rfl := h
  · unfold quotePosix at hbare ⊢
    split at hbare
    · next hplain =>
      have hnone : ∀ c ∈ value, decide (c ≠ ' ') = true := by
        intro c hc
        refine decide_eq_true fun hspace => ?_
        exact nomatch hspace ▸ all_eq_true.mp hplain.2 c hc
      rw [if_pos hplain, takeWhile_append_of_pos hnone]
      cases texts <;> simpa using hbare
    · next hplain =>
      rw [if_neg hplain]
      exact hsingle _
  · exact hsingle _

/-- **Quoted values are what a shell reads**, whatever is in them, unless the first of them is
written bare and is a reserved word or an assignment. -/
theorem posixCommand_quoted {values texts : List Text} (h : Forall₂ Quoted values texts)
    (hfirst : ∀ text ∈ texts.head?, isSyntax text = false) :
    posixCommand ([' '].intercalate texts) = some values := by
  unfold posixCommand
  rw [if_neg, posixWords_quoted h]
  cases h with
  | nil => decide
  | cons hquoted _ =>
    rw [intercalate_cons_below, hquoted.isSyntax (hfirst _ rfl)]
    exact Bool.false_ne_true

theorem posixCommand_quoted_both :
    posixCommand "ls 'it'\\''s' 'it'\"'\"'s' if".toList =
      some ["ls".toList, "it's".toList, "it's".toList, "if".toList] := by
  have hline : "ls 'it'\\''s' 'it'\"'\"'s' if".toList = [' '].intercalate
      [quotePosix "ls".toList, quotePosix "it's".toList, shellQuote "it's".toList,
        quotePosix "if".toList] := by decide
  rw [hline]
  refine posixCommand_quoted
    (.cons (.inl rfl) (.cons (.inl rfl) (.cons (.inr rfl) (.cons (.inl rfl) .nil)))) ?_
  rintro _ ⟨⟩
  decide

/-! ### A Windows program -/

/-- The backslashes before a quote are doubled, and one more escapes it; `n` were just read. -/
def escapeQuotes : ℕ → Text → Text
  | n, [] => replicate n '\\'
  | n, c :: cs =>
    if c = '\\' then escapeQuotes (n + 1) cs
    else if c = '"' then replicate (2 * n + 1) '\\' ++ c :: escapeQuotes 0 cs
    else replicate n '\\' ++ c :: escapeQuotes 0 cs

/-- The backslashes at the end are doubled. -/
def doubleLast (t : Text) : Text := t ++ t.rtakeWhile (· = '\\')

/-- `quoteWindowsArgument`. -/
def quoteWindowsArgument (arg : Text) : Text :=
  if arg ≠ [] ∧ arg.all fun c => !isBlank c && c ≠ '"' then arg
  else '"' :: doubleLast (escapeQuotes 0 arg) ++ ['"']

/-- The arguments of a line, behind `word` and `n` backslashes.  Two quotes in a quotation are one
quote, and whether the quotation then goes on (`stays`) is not the same everywhere. -/
def windowsArgs (stays : Bool) : Bool → ℕ → Option Text → Text → List Text
  | _, n, word, [] => (word.map (· ++ replicate n '\\')).toList
  | quoted, n, word, c :: cs =>
    let text := word.getD [] ++ replicate n '\\'
    if c = '\\' then windowsArgs stays quoted (n + 1) (some (word.getD [])) cs
    else if c = '"' then
      let text := word.getD [] ++ replicate (n / 2) '\\'
      if n % 2 = 1 then windowsArgs stays quoted 0 (some (text ++ [c])) cs
      else match quoted, cs with
        | true, '"' :: cs => windowsArgs stays stays 0 (some (text ++ [c])) cs
        | _, cs => windowsArgs stays (!quoted) 0 (some text) cs
    else if !quoted && (c = ' ' || c = '\t') then
      (word.map fun _ => text).toList ++ windowsArgs stays false 0 none cs
    else windowsArgs stays quoted 0 (some (text ++ [c])) cs

attribute [local simp] windowsArgs

variable {stays : Bool} {n : ℕ}

theorem windowsArgs_replicate (quoted : Bool) (k : ℕ) :
    windowsArgs stays quoted n (some word) (replicate k '\\' ++ rest) =
      windowsArgs stays quoted (n + k) (some word) rest := by
  induction k generalizing n with
  | zero => rfl
  | succ k ih => simp [replicate_succ, windowsArgs, ih, Nat.add_assoc, Nat.add_comm 1 k]

/-- What is before a space or the end. -/
def Ends (rest : Text) : Prop := ∀ c ∈ rest.head?, c = ' '

theorem doubleLast_append_cons {c : Char} (hc : c ≠ '\\') (l t : Text) :
    doubleLast (l ++ c :: t) = l ++ c :: doubleLast t := by
  simp only [doubleLast, rtakeWhile, reverse_append, reverse_cons, append_assoc, cons_append,
    takeWhile_append, takeWhile_cons, nil_append, hc, decide_false]
  split
  · next h => simp [( takeWhile_prefix _).eq_of_length h]
  · simp

theorem windowsArgs_ended (hends : Ends rest) (k : ℕ) :
    windowsArgs stays true (2 * k) (some word) ('"' :: rest) =
      windowsArgs stays false 0 (some (word ++ replicate k '\\')) rest := by
  cases rest with
  | nil => simp
  | cons c cs =>
    obtain rfl := hends c rfl
    simp

theorem windowsArgs_escaped (hends : Ends rest) :
    windowsArgs stays true 0 (some word) (doubleLast (escapeQuotes n value) ++ '"' :: rest) =
      windowsArgs stays false 0 (some (word ++ replicate n '\\' ++ value)) rest := by
  induction value generalizing n word with
  | nil =>
    have hall : (replicate n '\\').rtakeWhile (· = '\\') = replicate n '\\' :=
      rtakeWhile_eq_self_iff.mpr fun c hc => decide_eq_true (eq_of_mem_replicate hc)
    rw [escapeQuotes, doubleLast, hall, replicate_append_replicate, windowsArgs_replicate,
      Nat.zero_add, ← Nat.two_mul, windowsArgs_ended hends, append_nil]
  | cons c cs ih =>
    rw [escapeQuotes]
    split
    · next hc => rw [ih, hc, replicate_succ', append_assoc, append_assoc, append_assoc]; rfl
    · next hc =>
      split
      · next hquote =>
        rw [doubleLast_append_cons hc, append_assoc, windowsArgs_replicate]
        simp [hquote, ih, Nat.mul_add_div]
      · next hquote =>
        rw [doubleLast_append_cons hc, append_assoc, windowsArgs_replicate]
        simp [hc, hquote, ih]

theorem windowsArgs_ends (hends : Ends rest) : windowsArgs stays false n (some word) rest =
    (word ++ replicate n '\\') :: windowsArgs stays false 0 none rest := by
  cases rest with
  | nil => simp
  | cons c cs =>
    obtain rfl := hends c rfl
    simp

theorem quoteWindowsArgument_read (hends : Ends rest) (arg : Text) :
    windowsArgs stays false 0 none (quoteWindowsArgument arg ++ rest) =
      arg :: windowsArgs stays false 0 none rest := by
  unfold quoteWindowsArgument
  split
  · next hplain =>
    obtain ⟨hne, hall⟩ := hplain
    have hchars : ∀ c ∈ arg, c ≠ '"' ∧ c ≠ ' ' ∧ c ≠ '\t' := by
      intro c hc
      have hok := all_eq_true.mp hall c hc
      refine ⟨?_, ?_, ?_⟩ <;> (rintro rfl; exact nomatch hok)
    have hread : ∀ arg : Text, (∀ c ∈ arg, c ≠ '"' ∧ c ≠ ' ' ∧ c ≠ '\t') → ∀ n word,
        windowsArgs stays false n (some word) (arg ++ rest) =
          (word ++ replicate n '\\' ++ arg) :: windowsArgs stays false 0 none rest := by
      intro arg harg
      induction arg with
      | nil => exact fun n word => by simpa using windowsArgs_ends hends
      | cons c cs ih =>
        intro n word
        obtain ⟨hc, hcs⟩ := forall_mem_cons.mp harg
        by_cases hback : c = '\\'
        · simp [hback, ih hcs, replicate_succ']
        · simp [hback, hc, ih hcs]
    obtain ⟨c, cs, rfl⟩ := exists_cons_of_ne_nil hne
    have hfirst := hread (c :: cs) hchars 0 []
    have hc := hchars c mem_cons_self
    simpa [hc] using hfirst
  · have hescaped : windowsArgs stays true 0 (some [])
        (doubleLast (escapeQuotes 0 arg) ++ '"' :: rest) = _ := windowsArgs_escaped hends
    simpa [windowsArgs_ends hends] using hescaped

/-- **Arguments arrive as they are**, however a program reads two quotes in a row. -/
theorem windowsArgs_quoted (stays : Bool) (args : List Text) :
    windowsArgs stays false 0 none ([' '].intercalate (args.map quoteWindowsArgument)) = args := by
  have hends : ∀ args : List Text, Ends (below ' ' (args.map quoteWindowsArgument)) := by
    intro args
    cases args <;> simp [Ends]
  have hbelow : ∀ args : List Text,
      windowsArgs stays false 0 none (below ' ' (args.map quoteWindowsArgument)) = args := by
    intro args
    induction args with
    | nil => rfl
    | cons arg args ih =>
      simp [quoteWindowsArgument_read (hends args), ih]
  cases args with
  | nil => rfl
  | cons arg args =>
    rw [map_cons, intercalate_cons_below, quoteWindowsArgument_read (hends args), hbelow]

end Lasterm.Hub.Quoting
