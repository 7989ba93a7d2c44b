/-
Does the SQL of a health check reach `magisk` on the device?

`_magisk_sqlite_value_over_adb` hands `adb` the words of a command. `adb` joins them with single blanks, and a shell of the device
parses the text. With `use_su` that shell starts `su`, which joins what stands behind `-c` and has a second shell parse it.

The SQL is quoted for the inner parse, and the command for the outer one, with `use_su`. The other form quotes nothing.

Results:
- `magiskStarts_su`: with `use_su` the SQL arrives as it is, through both shells, whatever is in it;
- `sqlite_intact_iff`: without, it arrives in every shell exactly if nothing in it is special to a shell.
-/
import Beetroot.Lib.Posix

namespace Beetroot.Adb

open Lib.Posix

/-- a statement that an argument list can hold: a string without NUL -/
def Sql := { sql : List Char // '\x00' ∉ sql }

def magiskWord : List Char := "magisk".toList

def sqliteWord : List Char := "--sqlite".toList

/-- `" ".join` -/
def joinBlanks (argv : List (List Char)) : List Char := [' '].intercalate argv

/-- `shell_argv` of `_magisk_sqlite_value_over_adb` -/
def shellArgv (useSu : Bool) (sql : Sql) : List (List Char) :=
  if useSu then
    let onDevice := "magisk --sqlite ".toList ++ shlexQuote sql.1
    ["su".toList, "-c".toList, shlexQuote onDevice]
  else [magiskWord, sqliteWord, sql.1]

/-- the second shell: `su` has it parse what stands behind `-c`; every other command is no concern of it -/
def suStarts (su : Env) : List (List Char) → Option (List (List (List Char)))
  | word :: option :: args => if word = "su".toList ∧ option = "-c".toList then started su (joinBlanks args) else some []
  | _ => some []

/-- the commands that are started, by the shell of the device or behind `su` -/
def deviceStarts (device su : Env) (useSu : Bool) (sql : Sql) : Option (List (List (List Char))) :=
  (started device (joinBlanks (shellArgv useSu sql))).bind fun cmds =>
    if useSu then (cmds.mapM (suStarts su)).map List.flatten else some cmds

/-- the argument lists of the `magisk` processes -/
def magiskStarts (device su : Env) (useSu : Bool) (sql : Sql) : Option (List (List (List Char))) :=
  (deviceStarts device su useSu sql).map fun cmds => cmds.filter fun argv => argv.head? = some magiskWord

section Results

variable {device su : Env} {sql : Sql}

theorem safe_words : ∀ u ∈ [magiskWord, sqliteWord], isSafeWord u = true := by decide

theorem safe_su : ∀ u ∈ ["su".toList, "-c".toList], isSafeWord u = true := by decide

/-- quoted twice for two parses -/
theorem magiskStarts_su : magiskStarts device su true sql = some [[magiskWord, sqliteWord, sql.1]] := by
  have honDevice : "magisk --sqlite ".toList ++ shlexQuote sql.1 =
      [' '].intercalate ([magiskWord, sqliteWord] ++ [shlexQuote sql.1]) := by
    rw [intercalate_concat]
    rfl
  have houter : started device (joinBlanks (shellArgv true sql)) =
      some [["su".toList, "-c".toList] ++ ["magisk --sqlite ".toList ++ shlexQuote sql.1]] := started_quote (by decide) safe_su _
  have hinner : suStarts su (["su".toList, "-c".toList] ++ ["magisk --sqlite ".toList ++ shlexQuote sql.1]) =
      some [[magiskWord, sqliteWord] ++ [sql.1]] := by
    have hjoin : joinBlanks ["magisk --sqlite ".toList ++ shlexQuote sql.1] = "magisk --sqlite ".toList ++ shlexQuote sql.1 := by
      simp [joinBlanks, List.intercalate]
    rw [List.cons_append, List.cons_append, List.nil_append, suStarts, if_pos ⟨rfl, rfl⟩, hjoin, honDevice]
    exact started_quote (by decide) safe_words _
  rw [magiskStarts, deviceStarts, houter, Option.bind_some, if_pos rfl, List.mapM_cons, hinner]
  rfl

/-- the bare form: only what is a word as it stands -/
theorem magiskStarts_bare_iff :
    (∀ device su, magiskStarts device su false sql = some [[magiskWord, sqliteWord, sql.1]]) ↔ Plain sql.1 := by
  constructor
  · intro h
    obtain ⟨cmds, hcmds, hfilter⟩ := Option.map_eq_some_iff.1 (h bareEnv bareEnv)
    obtain ⟨cmds', hstarted, hsame⟩ := Option.bind_eq_some_iff.1 hcmds
    rw [if_neg Bool.false_ne_true] at hsame
    cases hsame
    exact @plain_of_started sql.1 [magiskWord, sqliteWord] cmds _ (by decide) safe_words hstarted hfilter
  · intro hplain device su
    have hstarted : started device (joinBlanks (shellArgv false sql)) = some [[magiskWord, sqliteWord] ++ [sql.1]] :=
      started_plain (by decide) safe_words hplain
    rw [magiskStarts, deviceStarts, hstarted, Option.bind_some, if_neg Bool.false_ne_true]
    simp

/-- one `magisk` process with the statement as its argument, on every device: with `su`, or for a statement that is a word -/
theorem sqlite_intact_iff (useSu : Bool) (sql : Sql) :
    (∀ device su, magiskStarts device su useSu sql = some [[magiskWord, sqliteWord, sql.1]]) ↔ useSu = true ∨ Plain sql.1 := by
  cases useSu with
  | false => simpa using magiskStarts_bare_iff
  | true =>
    simp only [true_or, iff_true]
    exact fun device su => magiskStarts_su

end Results

/-- the statement of the zygisk check -/
def zygiskSql : Sql := ⟨"SELECT value FROM settings WHERE key='zygisk'".toList, by decide⟩

/-- the bare form of the zygisk check: the statement falls apart into words, and its quotes are gone -/
theorem zygisk_statement_split :
    magiskStarts bareEnv bareEnv false zygiskSql =
      some [["magisk", "--sqlite", "SELECT", "value", "FROM", "settings", "WHERE", "key=zygisk"].map String.toList] ∧
    magiskStarts bareEnv bareEnv false zygiskSql ≠ some [[magiskWord, sqliteWord, zygiskSql.1]] := by
  decide +kernel

end Beetroot.Adb
