/-
Command lines of a POSIX shell, and quoting for it.

`lex` cuts a line into words and operators: blanks and operators end a word, quotes and backslashes are removed and mark what they
quote, `#` starts a comment where a word could start. `started` puts the words into simple commands and expands each word into
fields. What depends on the device is a parameter, `Env`: the parameter, command and arithmetic expansions of the text behind a `$`
or a backquote, the tilde and pathname expansions of a word, and a backslash at the very end, which the standard leaves open.

`shlexQuote` is Python's `shlex.quote`.

Results:
- `lex_quote`: a quoted text is one word, with nothing in it to expand, in any shell;
- `started_quote`: behind a command and its options it is the last argument;
- `size_lex_le`: no shell makes a text longer by itself;
- `started_plain`, `plain_of_started`: the texts that are an argument without quotes are those with nothing special in them.
-/
import Mathlib.Data.List.Basic
import Mathlib.Data.List.Infix
import Mathlib.Tactic.Common

namespace Lib.Posix

/-- the characters of a word, each with whether it is quoted -/
abbrev Word := List (Char × Bool)

inductive Token where
  | word (w : Word)
  | op (c : Char)
deriving DecidableEq, Repr

/-- where in a line the lexer is -/
inductive Mode where
  | plain
  /-- behind a backslash -/
  | escaped
  | single
  | double
  /-- behind a backslash in double quotes -/
  | doubleEscaped
  | comment
deriving DecidableEq, Repr

/-- what a shell makes of the texts that mean something on the device -/
structure Env where
  /-- the tokens of the rest of a line from a `$` or a backquote on, with the word that it stands in -/
  expansion : Mode → Option Word → List Char → Option (List Token)
  /-- the tokens of a line that ends in a backslash -/
  loneBackslash : Option Word → Option (List Token)
  /-- the fields of a word with a tilde or a pattern -/
  fields : Word → List (List Char)

/-- a shell where every expansion is empty, and a line that needs one is refused -/
def bareEnv : Env := ⟨fun _ _ _ => none, fun _ => none, fun _ => []⟩

def isBlank (c : Char) : Bool := c = ' ' || c = '\t'

def isOperator (c : Char) : Bool := c ∈ ['|', '&', ';', '<', '>', '(', ')', '\n']

/-- a dollar sign or a backquote -/
def isExpansion (c : Char) : Bool := c = '$' || c = '\x60'

def isQuoting (c : Char) : Bool := c = '\'' || c = '"' || c = '\\'

/-- a character that stands for itself inside a word -/
def isOrdinary (c : Char) : Bool := !isBlank c && !isOperator c && !isExpansion c && !isQuoting c

/-- the word so far, if there is one, in front of what follows -/
def finish (cur : Option Word) (tokens : List Token) : List Token :=
  match cur with
  | none => tokens
  | some w => .word w :: tokens

/-- one more character in the word -/
def push (cur : Option Word) (c : Char) (quoted : Bool) : Option Word := some (cur.getD [] ++ [(c, quoted)])

/-- the words and operators of a line; `none` when a quote is not closed -/
def lex (env : Env) : Mode → Option Word → List Char → Option (List Token)
  | .plain, cur, [] => some (finish cur [])
  | .plain, cur, c :: cs =>
    if c = '#' ∧ cur = none then lex env .comment none cs
    else if isBlank c then (lex env .plain none cs).map (finish cur)
    else if isOperator c then (lex env .plain none cs).map fun tokens => finish cur (.op c :: tokens)
    else if isExpansion c then env.expansion .plain cur (c :: cs)
    else if c = '\'' then lex env .single (some (cur.getD [])) cs
    else if c = '"' then lex env .double (some (cur.getD [])) cs
    else if c = '\\' then lex env .escaped cur cs
    else lex env .plain (push cur c false) cs
  | .escaped, cur, [] => env.loneBackslash cur
  | .escaped, cur, c :: cs => if c = '\n' then lex env .plain cur cs else lex env .plain (push cur c true) cs
  | .single, _, [] => none
  | .single, cur, c :: cs => if c = '\'' then lex env .plain cur cs else lex env .single (push cur c true) cs
  | .double, _, [] => none
  | .double, cur, c :: cs =>
    if c = '"' then lex env .plain cur cs
    else if isExpansion c then env.expansion .double cur (c :: cs)
    else if c = '\\' then lex env .doubleEscaped cur cs
    else lex env .double (push cur c true) cs
  | .doubleEscaped, _, [] => none
  | .doubleEscaped, cur, c :: cs =>
    if c = '\n' then lex env .double cur cs
    else if isExpansion c || c = '"' || c = '\\' then lex env .double (push cur c true) cs
    else lex env .double (push (push cur '\\' true) c true) cs
  | .comment, _, [] => some []
  | .comment, _, c :: cs =>
    if c = '\n' then (lex env .plain none cs).map (.op '\n' :: ·) else lex env .comment none cs

/-! ## Commands -/

/-- the words of each command; behind a redirection comes the name of a file; parentheses have no place behind a command -/
def commands : List Word → Bool → List Token → Option (List (List Word))
  | acc, _, [] => some [acc]
  | acc, true, .word _ :: tokens => commands acc false tokens
  | acc, false, .word w :: tokens => commands (acc ++ [w]) false tokens
  | acc, _, .op c :: tokens =>
    if c = '(' || c = ')' then none
    else if c = '<' || c = '>' then commands acc true tokens
    else (commands [] false tokens).map (acc :: ·)

/-- behind an open bracket: a bracket that closes it in the same part of the path, with something in between -/
def closes (w : Word) : Bool :=
  let part := w.takeWhile fun p => p.1 ≠ '/'
  let list := if part.head? = some ('!', false) then part.tail else part
  (']', false) ∈ list.tail

/-- pathname expansion looks for files: an asterisk, a question mark or a bracket expression -/
def hasPattern : Word → Bool
  | [] => false
  | p :: w => p = ('*', false) || p = ('?', false) || (p = ('[', false) && closes w) || hasPattern w

/-- there is something to expand in a word -/
def isSpecial (w : Word) : Bool := w.head? = some ('~', false) || hasPattern w

/-- the fields of a word -/
def expandWord (env : Env) (w : Word) : List (List Char) := if isSpecial w then env.fields w else [w.map Prod.fst]

/-- the argument lists of the commands that a line starts; `none` for a line that is refused -/
def started (env : Env) (line : List Char) : Option (List (List (List Char))) :=
  ((lex env .plain none line).bind (commands [] false)).map fun cmds =>
    (cmds.filter fun words => !words.isEmpty).map fun words => words.flatMap (expandWord env)

/-! ## Quoting -/

/-- what `shlex.quote` leaves without quotes -/
def isSafe (c : Char) : Bool := c.isAlphanum || c ∈ ['_', '@', '%', '+', '=', ':', ',', '.', '/', '-']

def isSafeWord (u : List Char) : Bool := !u.isEmpty && u.all isSafe

/-- a single quote inside single quotes: the quotes are closed, the quote is put in double quotes, and they are opened again -/
def escapeSingle (s : List Char) : List Char := s.flatMap fun c => if c = '\'' then ['\'', '"', '\'', '"', '\''] else [c]

/-- `shlex.quote` -/
def shlexQuote (s : List Char) : List Char :=
  if s.isEmpty then ['\'', '\'']
  else if s.all isSafe then s
  else '\'' :: escapeSingle s ++ ['\'']

section Lemmas

variable {env : Env} {c : Char} {u s rest : List Char} {w : Word} {cur : Option Word}

theorem not_ordinary_iff : isOrdinary c = false ↔
    c ∈ [' ', '\t', '|', '&', ';', '<', '>', '(', ')', '\n', '$', '\x60', '\'', '"', '\\'] := by
  simp only [isOrdinary, isBlank, isOperator, isExpansion, isQuoting, List.mem_cons, List.not_mem_nil, or_false]
  simp only [Bool.and_eq_false_iff, Bool.not_eq_eq_eq_not, Bool.not_false, Bool.or_eq_true, decide_eq_true_eq, or_assoc]

theorem isSafeWord_iff : isSafeWord u = true ↔ u ≠ [] ∧ ∀ c ∈ u, isSafe c = true := by
  simp [isSafeWord]

theorem isOrdinary_of_safe (h : isSafe c = true) : isOrdinary c = true := by
  by_contra hc
  have hmem := not_ordinary_iff.1 (Bool.eq_false_iff.2 hc)
  have hall : [' ', '\t', '|', '&', ';', '<', '>', '(', ')', '\n', '$', '\x60', '\'', '"', '\\'].all
      (fun d => !isSafe d) = true := by decide
  have hunsafe := List.all_eq_true.1 hall c hmem
  rw [h] at hunsafe
  exact Bool.false_ne_true hunsafe

/-! ## Words -/

theorem lex_ordinary (h : isOrdinary c = true) (hcur : c = '#' → cur ≠ none) (cs : List Char) :
    lex env .plain cur (c :: cs) = lex env .plain (push cur c false) cs := by
  simp only [isOrdinary, isQuoting, Bool.and_eq_true, Bool.not_eq_eq_eq_not, Bool.not_true, Bool.or_eq_false_iff,
    decide_eq_false_iff_not] at h
  obtain ⟨⟨⟨hblank, hop⟩, hexp⟩, ⟨hsingle, hdouble⟩, hback⟩ := h
  have hhash : ¬ (c = '#' ∧ cur = none) := fun hc => hcur hc.1 hc.2
  rw [lex]
  simp only [hhash, hblank, hop, hexp, hsingle, hdouble, hback, if_false, Bool.false_eq_true]

/-- ordinary characters go on with the word -/
theorem lex_plain (h : ∀ c ∈ u, isOrdinary c = true) (w : Word) (rest : List Char) :
    lex env .plain (some w) (u ++ rest) = lex env .plain (some (w ++ u.map (·, false))) rest := by
  induction u generalizing w with
  | nil => simp
  | cons c u ih =>
    rw [List.cons_append, lex_ordinary (h c List.mem_cons_self) (fun _ => by simp), push,
      ih fun d hd => h d (List.mem_cons_of_mem _ hd)]
    simp

/-- and start one, where the first is no `#` -/
theorem lex_start (h : ∀ c ∈ u, isOrdinary c = true) (hne : u ≠ []) (hhash : u.head? ≠ some '#') (rest : List Char) :
    lex env .plain none (u ++ rest) = lex env .plain (some (u.map (·, false))) rest := by
  obtain ⟨c, u, rfl⟩ := List.exists_cons_of_ne_nil hne
  rw [List.cons_append, lex_ordinary (h c List.mem_cons_self) (fun hc => absurd (by rw [hc]; rfl) hhash), push,
    lex_plain fun d hd => h d (List.mem_cons_of_mem _ hd)]
  simp

/-- what stands in single quotes -/
theorem lex_single (s : List Char) (w : Word) (rest : List Char) :
    lex env .single (some w) (escapeSingle s ++ '\'' :: rest) = lex env .plain (some (w ++ s.map (·, true))) rest := by
  induction s generalizing w with
  | nil => simp [escapeSingle, lex]
  | cons c s ih =>
    by_cases hc : c = '\''
    · have hsplit : escapeSingle (c :: s) = '\'' :: '"' :: '\'' :: '"' :: '\'' :: escapeSingle s := by
        simp [escapeSingle, hc]
      have hnext : lex env .single (some w) (escapeSingle (c :: s) ++ '\'' :: rest) =
          lex env .single (some (w ++ [(c, true)])) (escapeSingle s ++ '\'' :: rest) := by
        rw [hsplit, hc]
        simp [lex, isBlank, isOperator, isExpansion, push]
      rw [hnext, ih]
      simp
    · have hsplit : escapeSingle (c :: s) = c :: escapeSingle s := by simp [escapeSingle, hc]
      rw [hsplit, List.cons_append, lex, if_neg hc, push, Option.getD_some, ih]
      simp

theorem head_ne_of_safe (h : ∀ c ∈ u, isSafe c = true) : u.head? ≠ some '#' :=
  fun hh => Bool.false_ne_true (h '#' (List.mem_of_mem_head? hh))

theorem map_fst_map (s : List Char) (b : Bool) : (s.map (·, b)).map Prod.fst = s := by
  rw [List.map_map]
  exact List.map_id s

theorem hasPattern_false (h : ∀ p ∈ w, p ≠ ('*', false) ∧ p ≠ ('?', false) ∧ p ≠ ('[', false)) : hasPattern w = false := by
  induction w with
  | nil => rfl
  | cons p w ih =>
    obtain ⟨hstar, hquestion, hbracket⟩ := h p List.mem_cons_self
    rw [hasPattern, ih fun q hq => h q (List.mem_cons_of_mem _ hq)]
    simp [hstar, hquestion, hbracket]

/-- nothing to expand in what is safe, and nothing in what is quoted -/
theorem isSpecial_false (h : ∀ p ∈ w, p.2 = true ∨ isSafe p.1 = true) : isSpecial w = false := by
  have hne : ∀ p ∈ w, ∀ d, isSafe d = false → p ≠ (d, false) := by
    intro p hp d hd he
    rcases h p hp with hquoted | hsafe
    · rw [he] at hquoted
      exact Bool.false_ne_true hquoted
    · rw [he, hd] at hsafe
      exact Bool.false_ne_true hsafe
  have htilde : w.head? ≠ some ('~', false) := fun hh => hne _ (List.mem_of_mem_head? hh) '~' (by decide) rfl
  have hpattern : hasPattern w = false := hasPattern_false fun p hp =>
    ⟨hne p hp '*' (by decide), hne p hp '?' (by decide), hne p hp '[' (by decide)⟩
  simp [isSpecial, htilde, hpattern]

/-- a quoted text is one word, with the text in it and nothing to expand -/
theorem lex_quote (env : Env) (s : List Char) :
    ∃ w, lex env .plain none (shlexQuote s) = some [.word w] ∧ w.map Prod.fst = s ∧ isSpecial w = false := by
  unfold shlexQuote
  split_ifs with hempty hsafe
  · refine ⟨[], ?_, ?_, rfl⟩
    · simp [lex, isBlank, isOperator, isExpansion, finish]
    · rw [List.isEmpty_iff.1 hempty]
      rfl
  · have hall : ∀ c ∈ s, isSafe c = true := List.all_eq_true.1 hsafe
    refine ⟨s.map (·, false), ?_, map_fst_map s false, isSpecial_false ?_⟩
    · rw [← List.append_nil s, lex_start (fun c hc => isOrdinary_of_safe (hall c hc)) (by simpa using hempty)
        (head_ne_of_safe hall), List.append_nil]
      rfl
    · intro p hp
      obtain ⟨c, hc, rfl⟩ := List.mem_map.1 hp
      exact .inr (hall c hc)
  · refine ⟨s.map (·, true), ?_, map_fst_map s true, isSpecial_false ?_⟩
    · have hopen : lex env .plain none ('\'' :: escapeSingle s ++ ['\'']) =
          lex env .single (some []) (escapeSingle s ++ '\'' :: []) := by
        simp [lex, isBlank, isOperator, isExpansion]
      rw [hopen, lex_single]
      simp [lex, finish]
    · intro p hp
      obtain ⟨c, -, rfl⟩ := List.mem_map.1 hp
      exact .inl rfl

theorem shlexQuote_injective {s t : List Char} (h : shlexQuote s = shlexQuote t) : s = t := by
  obtain ⟨v, hv, hs, -⟩ := lex_quote bareEnv s
  obtain ⟨w, hw, ht, -⟩ := lex_quote bareEnv t
  rw [h, hw] at hv
  cases hv
  exact hs.symm.trans ht

/-! ## Arguments -/

/-- safe words in front of a text are the first words of it -/
theorem lex_words {us : List (List Char)} (h : ∀ u ∈ us, isSafeWord u = true) (rest : List Char) :
    lex env .plain none (us.flatMap (· ++ [' ']) ++ rest) =
      (lex env .plain none rest).map (us.map (fun u => .word (u.map (·, false))) ++ ·) := by
  induction us with
  | nil => simp
  | cons u us ih =>
    obtain ⟨hne, hsafe⟩ := isSafeWord_iff.1 (h u List.mem_cons_self)
    have hblank : ∀ w cs, lex env .plain (some w) (' ' :: cs) = (lex env .plain none cs).map (.word w :: ·) := by
      intro w cs
      rw [lex, if_neg (by simp), if_pos (by decide)]
      rfl
    have hshape : (u :: us).flatMap (· ++ [' ']) ++ rest = u ++ ' ' :: (us.flatMap (· ++ [' ']) ++ rest) := by simp
    rw [hshape, lex_start (fun c hc => isOrdinary_of_safe (hsafe c hc)) hne (head_ne_of_safe hsafe), hblank,
      ih fun v hv => h v (List.mem_cons_of_mem _ hv), Option.map_map]
    rfl

theorem commands_words (acc words : List Word) : commands acc false (words.map .word) = some [acc ++ words] := by
  induction words generalizing acc with
  | nil => simp [commands]
  | cons w words ih =>
    rw [List.map_cons, commands, ih]
    simp

theorem expandWord_safe (hu : ∀ c ∈ u, isSafe c = true) : expandWord env (u.map (·, false)) = [u] := by
  have hplain : isSpecial (u.map (·, false)) = false := by
    apply isSpecial_false
    intro p hp
    obtain ⟨c, hc, rfl⟩ := List.mem_map.1 hp
    exact .inr (hu c hc)
  rw [expandWord, hplain, map_fst_map]
  rfl

/-- a command of safe words with more words behind them -/
theorem started_words {us : List (List Char)} {ws : List Word} (hne : us ≠ [])
    (h : ∀ u ∈ us, isSafeWord u = true) (hrest : lex env .plain none rest = some (ws.map .word)) :
    started env (us.flatMap (· ++ [' ']) ++ rest) = some [us ++ ws.flatMap (expandWord env)] := by
  have hfields : (us.map (·.map (·, false))).flatMap (expandWord env) = us := by
    rw [List.flatMap_map, List.flatMap_congr fun u hu => expandWord_safe (isSafeWord_iff.1 (h u hu)).2]
    simp
  have htokens : us.map (fun u => Token.word (u.map (·, false))) ++ ws.map .word =
      (us.map (·.map (·, false)) ++ ws).map .word := by simp
  rw [started, lex_words h, hrest, Option.map_some, htokens, Option.bind_some, commands_words]
  simp only [Option.map_some, List.nil_append, List.filter_cons, List.filter_nil]
  simp [hfields, hne, List.flatMap_append]

theorem intercalate_concat (us : List (List Char)) (s : List Char) :
    [' '].intercalate (us ++ [s]) = us.flatMap (· ++ [' ']) ++ s := by
  induction us with
  | nil => simp [List.intercalate]
  | cons u us ih =>
    obtain ⟨v, vs, hv⟩ : ∃ v vs, us ++ [s] = v :: vs := List.exists_cons_of_ne_nil (by simp)
    rw [List.cons_append, List.flatMap_cons, List.append_assoc, ← ih, hv]
    simp [List.intercalate]

/-- a quoted text is the last argument, whatever is in it -/
theorem started_quote {us : List (List Char)} (hne : us ≠ []) (h : ∀ u ∈ us, isSafeWord u = true)
    (s : List Char) : started env ([' '].intercalate (us ++ [shlexQuote s])) = some [us ++ [s]] := by
  obtain ⟨w, hlex, hmap, hplain⟩ := lex_quote env s
  have hfields : [w].flatMap (expandWord env) = [s] := by simp [expandWord, hplain, hmap]
  have hwords : lex env .plain none (shlexQuote s) = some ([w].map .word) := hlex
  rw [intercalate_concat, started_words hne h hwords, hfields]

/-! ## Lengths

No shell makes a text longer by itself. In one that expands everything to nothing, a text that comes through with its whole length
has nothing in it that the shell reads. -/

/-- the characters in the words -/
def size : List Token → Nat
  | [] => 0
  | .word w :: tokens => w.length + size tokens
  | .op _ :: tokens => size tokens

/-- the characters of the word so far, with a backslash in double quotes that may still be one of them -/
def pending (mode : Mode) (cur : Option Word) : Nat := (cur.getD []).length + if mode = .doubleEscaped then 1 else 0

theorem size_finish (cur : Option Word) (tokens : List Token) : size (finish cur tokens) = (cur.getD []).length + size tokens := by
  cases cur with
  | none => simp [finish]
  | some w => rfl

theorem pending_push (cur : Option Word) (c : Char) (q : Bool) : ((push cur c q).getD []).length = (cur.getD []).length + 1 := by
  simp [push]

theorem size_lex_le {mode : Mode} {tokens : List Token} (h : lex bareEnv mode cur s = some tokens) :
    size tokens ≤ pending mode cur + s.length := by
  fun_induction lex bareEnv mode cur s generalizing tokens
  -- a case moves a character into the word or drops it; where a word ends, its tokens are those of the rest with it in front
  all_goals grind [Option.map_eq_some_iff, size_finish, pending_push, pending, size, bareEnv]

/-- a character that is special does not come through -/
theorem size_lex_lt {tokens : List Token} (hc : isOrdinary c = false ∨ (c = '#' ∧ cur = none))
    (h : lex bareEnv .plain cur (c :: s) = some tokens) : size tokens < pending .plain cur + (c :: s).length := by
  rw [List.length_cons]
  rw [lex] at h
  split_ifs at h with hhash hblank hop hexp hsingle hdouble hback
  · have hle := size_lex_le h
    rw [hhash.2]
    exact Nat.lt_succ_of_le hle
  · obtain ⟨rest, hrest, rfl⟩ := Option.map_eq_some_iff.1 h
    have hle := size_lex_le hrest
    simp only [pending, size_finish, Option.getD_none, List.length_nil] at hle ⊢
    omega
  · obtain ⟨rest, hrest, rfl⟩ := Option.map_eq_some_iff.1 h
    have hle := size_lex_le hrest
    simp only [pending, size_finish, size, Option.getD_none, List.length_nil] at hle ⊢
    omega
  · exact absurd h (by simp [bareEnv])
  · have hle := size_lex_le h
    exact Nat.lt_succ_of_le hle
  · have hle := size_lex_le h
    exact Nat.lt_succ_of_le hle
  · have hle := size_lex_le h
    exact Nat.lt_succ_of_le hle
  · simp [isOrdinary, isQuoting, hblank, hop, hexp, hsingle, hdouble, hback, hhash] at hc

/-- what comes through in full length has nothing special in it -/
theorem ordinary_of_size {tokens : List Token} (h : lex bareEnv .plain cur s = some tokens)
    (hsize : size tokens = pending .plain cur + s.length) :
    (∀ c ∈ s, isOrdinary c = true) ∧ (cur = none → s.head? ≠ some '#') := by
  induction s generalizing cur with
  | nil => simp
  | cons c s ih =>
    by_cases hc : isOrdinary c = false ∨ (c = '#' ∧ cur = none)
    · exact absurd hsize (Nat.ne_of_lt (size_lex_lt hc h))
    · obtain ⟨hord, hhash⟩ := not_or.1 hc
      rw [Bool.not_eq_false] at hord
      rw [lex_ordinary hord fun hcc hcur => hhash ⟨hcc, hcur⟩] at h
      have hsize' : size tokens = pending .plain (push cur c false) + s.length := by
        simp only [pending, pending_push, List.length_cons] at hsize ⊢
        omega
      refine ⟨List.forall_mem_cons.2 ⟨hord, (ih h hsize').1⟩, fun hcur hh => hhash ⟨?_, hcur⟩⟩
      simpa using hh

/-- the characters in the arguments of the commands -/
def argSize : List (List (List Char)) → Nat
  | [] => 0
  | args :: cmds => args.flatten.length + argSize cmds

/-- without expansions, the arguments have no more characters than the words -/
theorem length_expand_le (words : List Word) :
    (words.flatMap (expandWord bareEnv)).flatten.length ≤ words.flatten.length := by
  induction words with
  | nil => simp
  | cons w words ih =>
    have hw : (expandWord bareEnv w).flatten.length ≤ w.length := by
      rw [expandWord]
      split_ifs
      · simp [bareEnv]
      · simp
    rw [List.flatMap_cons, List.flatten_append, List.length_append, List.flatten_cons, List.length_append]
    omega

/-- the commands of a line have its words, less the names of files -/
theorem argSize_commands_le {acc : List Word} {file : Bool} {tokens : List Token} {cmds : List (List Word)}
    (h : commands acc file tokens = some cmds) :
    argSize (cmds.map fun words => words.flatMap (expandWord bareEnv)) ≤ acc.flatten.length + size tokens := by
  have hacc := length_expand_le acc
  fun_induction commands acc file tokens generalizing cmds with
  | case1 acc file =>
    cases h
    simp only [List.map_cons, List.map_nil, argSize, size]
    omega
  | case2 acc w tokens ih =>
    have hle := ih h hacc
    rw [size]
    omega
  | case3 acc w tokens ih =>
    have hle := ih h (length_expand_le _)
    rw [List.flatten_concat, List.length_append] at hle
    rw [size]
    omega
  | case4 acc file c tokens hparen => cases h
  | case5 acc file c tokens hparen hredirect ih => exact ih h hacc
  | case6 acc file c tokens hparen hredirect ih =>
    obtain ⟨rest, hrest, rfl⟩ := Option.map_eq_some_iff.1 h
    have hle := ih hrest (length_expand_le _)
    simp only [List.map_cons, argSize, size, List.flatten_nil, List.length_nil] at hle ⊢
    omega

theorem argSize_filter_le (p : List (List Char) → Bool) (cmds : List (List (List Char))) :
    argSize (cmds.filter p) ≤ argSize cmds := by
  induction cmds with
  | nil => simp
  | cons args cmds ih =>
    rw [List.filter_cons]
    split_ifs
    · rw [argSize, argSize]
      omega
    · rw [argSize]
      omega

/-- an empty command has no characters -/
theorem argSize_started (cmds : List (List Word)) :
    argSize ((cmds.filter fun words => !words.isEmpty).map fun words => words.flatMap (expandWord env)) =
      argSize (cmds.map fun words => words.flatMap (expandWord env)) := by
  induction cmds with
  | nil => rfl
  | cons words cmds ih =>
    cases words with
    | nil => simpa [argSize] using ih
    | cons w words => simp [argSize, ih]

/-! ## Texts that are a word as they stand -/

/-- nothing in a text that the shell reads -/
def Plain (s : List Char) : Prop :=
  s ≠ [] ∧ (∀ c ∈ s, isOrdinary c = true) ∧ s.head? ≠ some '#' ∧ isSpecial (s.map (·, false)) = false

instance (s : List Char) : Decidable (Plain s) := inferInstanceAs (Decidable (_ ∧ _ ∧ _ ∧ _))

theorem lex_ordinary_word (hne : s ≠ []) (hord : ∀ c ∈ s, isOrdinary c = true) (hhash : s.head? ≠ some '#') :
    lex env .plain none s = some [.word (s.map (·, false))] := by
  rw [← List.append_nil s, lex_start hord hne hhash, List.append_nil]
  rfl

/-- such a text is an argument without quotes -/
theorem started_plain {us : List (List Char)} (hne : us ≠ []) (h : ∀ u ∈ us, isSafeWord u = true)
    (hs : Plain s) : started env ([' '].intercalate (us ++ [s])) = some [us ++ [s]] := by
  obtain ⟨hs', hord, hhash, hspecial⟩ := hs
  have hfields : [s.map (·, false)].flatMap (expandWord env) = [s] := by
    simp only [List.flatMap_cons, List.flatMap_nil, List.append_nil, expandWord, hspecial, map_fst_map]
    rfl
  have hwords : lex env .plain none s = some ([s.map (·, false)].map .word) := lex_ordinary_word hs' hord hhash
  rw [intercalate_concat, started_words hne h hwords, hfields]

theorem size_words (us : List (List Char)) (tokens : List Token) :
    size (us.map (fun u => .word (u.map (·, false))) ++ tokens) = us.flatten.length + size tokens := by
  induction us with
  | nil => simp
  | cons u us ih =>
    rw [List.map_cons, List.cons_append, size, ih, List.flatten_cons, List.length_append, List.length_map]
    omega

/-- and no other is, in every shell -/
theorem plain_of_started {us : List (List Char)} {cmds : List (List (List Char))} {p : List (List Char) → Bool}
    (hne : us ≠ []) (h : ∀ u ∈ us, isSafeWord u = true)
    (hcmds : started bareEnv ([' '].intercalate (us ++ [s])) = some cmds) (hp : cmds.filter p = [us ++ [s]]) : Plain s := by
  rw [intercalate_concat] at hcmds
  obtain ⟨tokens, hlex⟩ : ∃ tokens, lex bareEnv .plain none s = some tokens := by
    by_contra hnone
    have hs := Option.eq_none_iff_forall_ne_some.2 fun tokens ht => hnone ⟨tokens, ht⟩
    rw [started, lex_words h, hs] at hcmds
    cases hcmds
  -- the words in front account for their own length, so the text has come through in its own
  have hsize : size tokens = pending .plain none + s.length := by
    apply le_antisymm (size_lex_le hlex)
    rw [started, lex_words h, hlex] at hcmds
    obtain ⟨words, hwords, rfl⟩ := Option.map_eq_some_iff.1 hcmds
    have hle := argSize_commands_le hwords
    have hfilter := argSize_filter_le p ((words.filter fun w => !w.isEmpty).map fun w => w.flatMap (expandWord bareEnv))
    rw [hp, argSize_started] at hfilter
    rw [size_words] at hle
    have hnone : pending .plain none = 0 := rfl
    simp only [argSize, List.flatten_concat, List.length_append, List.flatten_nil, List.length_nil] at hfilter hle
    omega
  obtain ⟨hord, hhash⟩ := ordinary_of_size hlex hsize
  have hmem : us ++ [s] ∈ cmds := List.mem_of_mem_filter (p := p) (by rw [hp]; exact List.mem_singleton_self _)
  have hne' : s ≠ [] := by
    intro hs
    have hnil : lex bareEnv .plain none [] = some (([] : List Word).map .word) := rfl
    rw [hs, started_words hne h hnil] at hcmds
    cases hcmds
    simp at hmem
  refine ⟨hne', hord, hhash rfl, ?_⟩
  by_contra hspecial
  have hwords : lex bareEnv .plain none s = some ([s.map (·, false)].map .word) := lex_ordinary_word hne' hord (hhash rfl)
  rw [started_words hne h hwords] at hcmds
  cases hcmds
  simp [expandWord, hspecial, bareEnv] at hmem

end Lemmas

end Lib.Posix
