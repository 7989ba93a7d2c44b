/-
Does every denylist entry reach Magisk's database?

`render_env` joins the entries by commas, and `magisk-config.sh` takes the value apart again inside the container: an emptiness
test, `set --` under `IFS=,` (with pathname expansion), two loops that strip blanks one character at a time, a skip of empty
fields, a split at the first slash, and one `INSERT` for each field. `doctor` looks for a package by `entry.split("/", 1)[0]`.
The shell runs under `set -e`, so an `INSERT` that fails ends the script.

Results:
- `denylistLoop_terminates`: the script terminates on every value, also on one that was written by hand;
- `denylistLoop_entry`: the round of an entry issues the `INSERT` of its row;
- `denylist_enrolled`: for entries of the grammar, the statements are one for each entry, in order.
-/
import Beetroot.Lib.Shell
import Beetroot.Config.Env

namespace Beetroot.Config

open Lib Lib.Lines Lib.Shell

/-! ## `magisk-config.sh` -/

structure DenylistRow where
  packageName : List Char
  process : List Char
deriving DecidableEq, Repr

def DenylistRow.statement (row : DenylistRow) : String :=
  "INSERT OR IGNORE INTO denylist (package_name, process) VALUES ('" ++ String.ofList row.packageName ++ "', '" ++
    String.ofList row.process ++ "');"

/-- `trim_ws` -/
def isTrimWs (c : Char) : Bool := c = ' ' || c = '\t'

/-- a round of the first loop -/
def trimFront (pkg : List Char) : Option (List Char) :=
  if pkg.head?.any isTrimWs then some (cutShortestPrefix anyChar pkg) else none

/-- a round of the second loop -/
def trimBack (pkg : List Char) : Option (List Char) :=
  if pkg.getLast?.any isTrimWs then some (cutShortestSuffix anyChar pkg) else none

/-- `pkg_name` and `pkg_proc` -/
def denylistRow (pkg : List Char) : DenylistRow where
  packageName := cutLongestSuffix (startsWith '/') pkg
  process :=
    if cutShortestPrefix (endsWith '/') pkg = pkg then cutLongestSuffix (startsWith '/') pkg
    else cutShortestPrefix (endsWith '/') pkg

section Script

variable (glob : List Char → List (List Char)) (magisk : String → Bool)

/-- the statements that the `for` loop issues; `magisk` is the exit status of each -/
def denylistLoop (fuel : ℕ) : List (List Char) → Option (List String)
  | [] => some []
  | field :: fields =>
    (whileLoop trimFront fuel field).bind fun front =>
      (whileLoop trimBack fuel front).bind fun pkg =>
        if pkg = [] then denylistLoop fuel fields
        else if magisk (denylistRow pkg).statement then
          (denylistLoop fuel fields).map ((denylistRow pkg).statement :: ·)
        else some [(denylistRow pkg).statement]

def enrolDenylist (fuel : ℕ) (packages : String) : Option (List String) :=
  if packages = "" then some [] else denylistLoop magisk fuel (expand glob (fieldsAt ',' packages.toList))

/-- the statements up to the first that fails -/
def untilFailure : List String → List String
  | [] => []
  | s :: rest => s :: if magisk s then untilFailure rest else []

end Script

/-- `entry.split("/", 1)[0]` -/
def doctorPackage (entry : String) : String := String.ofList (entry.toList.takeWhile (· ≠ '/'))

/-- `any(entry.split("/", 1)[0] == package for entry in denylist)` -/
def doctorEnrolled (denylist : List String) (package : String) : Bool := denylist.any fun entry => doctorPackage entry = package

/-! ## Termination -/

theorem trimFront_shorter {pkg pkg' : List Char} (h : trimFront pkg = some pkg') : pkg'.length < pkg.length := by
  unfold trimFront at h
  split_ifs at h with hb
  cases pkg with
  | nil => simp at hb
  | cons c cs =>
    rw [cutShortestPrefix_anyChar] at h
    cases h
    simp

theorem trimBack_shorter {pkg pkg' : List Char} (h : trimBack pkg = some pkg') : pkg'.length < pkg.length := by
  unfold trimBack at h
  split_ifs at h with hb
  rcases List.eq_nil_or_concat pkg with rfl | ⟨cs, c, rfl⟩
  · simp at hb
  · rw [List.concat_eq_append, cutShortestSuffix_anyChar] at h
    cases h
    simp

/-- with fuel for its longest field, the loop ends -/
theorem denylistLoop_terminates (magisk : String → Bool) {fuel : ℕ} {fields : List (List Char)}
    (h : ∀ field ∈ fields, field.length < fuel) : ∃ issued, denylistLoop magisk fuel fields = some issued := by
  induction fields with
  | nil => exact ⟨[], rfl⟩
  | cons field fields ih =>
    have hlen := h field List.mem_cons_self
    obtain ⟨front, hfront, hle⟩ := whileLoop_terminates List.length (fun _ _ => trimFront_shorter) field hlen
    have hfl : front.length < fuel := by omega
    obtain ⟨pkg, hpkg, -⟩ := whileLoop_terminates List.length (fun _ _ => trimBack_shorter) front hfl
    obtain ⟨issued, hrest⟩ := ih fun x hx => h x (List.mem_cons_of_mem _ hx)
    rw [denylistLoop, hfront, Option.bind_some, hpkg, Option.bind_some, hrest]
    split_ifs
    · exact ⟨_, rfl⟩
    · exact ⟨_, rfl⟩
    · exact ⟨_, rfl⟩

/-! ## Entries of the grammar -/

/-- `[a-zA-Z0-9._]+` -/
def Literal (cs : List Char) : Prop := cs ≠ [] ∧ ∀ c ∈ cs, isPackageChar c = true

/-- the row says what the entry says: the two sides of its slash, or the package twice -/
def RowOf (entry : List Char) (row : DenylistRow) : Prop :=
  ('/' ∉ entry ∧ row = ⟨entry, entry⟩) ∨ entry = row.packageName ++ '/' :: row.process

theorem slash_of_literal {cs : List Char} (h : Literal cs) : '/' ∉ cs := by
  intro hmem
  exact absurd (h.2 _ hmem) (by decide)

theorem denylistRow_package {pkg : List Char} (h : Literal pkg) : denylistRow pkg = ⟨pkg, pkg⟩ := by
  have hs := slash_of_literal h
  have hall : ∀ c ∈ pkg, decide (c ≠ '/') = true := by
    intro c hc
    have : c ≠ '/' := fun he => hs (he ▸ hc)
    simpa using this
  rw [denylistRow, cutShortestPrefix_self hs, cutLongestSuffix_from, List.takeWhile_eq_self_iff.2 hall, if_pos rfl]

theorem denylistRow_process {pkg process : List Char} (h : Literal pkg) :
    denylistRow (pkg ++ '/' :: process) = ⟨pkg, process⟩ := by
  have hs := slash_of_literal h
  have hall : ∀ c ∈ pkg, decide (c ≠ '/') = true := by
    intro c hc
    have : c ≠ '/' := fun he => hs (he ▸ hc)
    simpa using this
  have hne : process ≠ pkg ++ '/' :: process := by
    intro he
    have := congrArg List.length he
    simp at this
    omega
  rw [denylistRow, cutShortestPrefix_through hs, cutLongestSuffix_from, List.takeWhile_append_of_pos hall,
    List.takeWhile_cons_of_neg (by simp), List.append_nil, if_neg hne]

/-- an entry gives a row of two literals, and its package is the one `doctor` looks for -/
theorem denylistRow_spec {e : String} (h : denylistFull e.toList = true) :
    RowOf e.toList (denylistRow e.toList) ∧ Literal (denylistRow e.toList).packageName ∧
      Literal (denylistRow e.toList).process ∧ doctorPackage e = String.ofList (denylistRow e.toList).packageName := by
  have hdoctor : doctorPackage e = String.ofList (denylistRow e.toList).packageName := by
    rw [denylistRow, cutLongestSuffix_from, doctorPackage]
  obtain ⟨pkg, hne, hall, he | ⟨process, hpne, hpall, he⟩⟩ := denylistFull_iff.1 h
  · have hrow : denylistRow e.toList = ⟨e.toList, e.toList⟩ := denylistRow_package (he ▸ ⟨hne, hall⟩)
    refine ⟨Or.inl ⟨slash_of_literal (he ▸ ⟨hne, hall⟩), hrow⟩, ?_, ?_, hdoctor⟩
    · rw [hrow, he]
      exact ⟨hne, hall⟩
    · rw [hrow, he]
      exact ⟨hne, hall⟩
  · have hrow : denylistRow e.toList = ⟨pkg, process⟩ := by
      rw [he]
      exact denylistRow_process ⟨hne, hall⟩
    rw [hrow] at hdoctor ⊢
    exact ⟨Or.inr he, ⟨hne, hall⟩, ⟨hpne, hpall⟩, hdoctor⟩

theorem not_trimWs {e : List Char} (h : denylistFull e = true) {c : Char} (hc : c ∈ e) : isTrimWs c = false := by
  rcases mem_denylistFull h hc with hp | rfl
  · cases ht : isTrimWs c with
    | false => rfl
    | true =>
      have hblank : c = ' ' ∨ c = '\t' := by simpa [isTrimWs] using ht
      rcases hblank with rfl | rfl
      · exact absurd hp (by decide)
      · exact absurd hp (by decide)
  · rfl

theorem not_globChar {e : List Char} (h : denylistFull e = true) {c : Char} (hc : c ∈ e) : isGlobChar c = false := by
  rcases mem_denylistFull h hc with hp | rfl
  · cases hg : isGlobChar c with
    | false => rfl
    | true =>
      have hmeta : (c = '*' ∨ c = '?') ∨ c = '[' := by simpa [isGlobChar] using hg
      rcases hmeta with (rfl | rfl) | rfl
      · exact absurd hp (by decide)
      · exact absurd hp (by decide)
      · exact absurd hp (by decide)
  · rfl

theorem trimFront_entry {e : List Char} (h : denylistFull e = true) : trimFront e = none := by
  unfold trimFront
  cases hd : e.head? with
  | none => rfl
  | some c => simp [not_trimWs h (List.mem_of_head? hd)]

theorem trimBack_entry {e : List Char} (h : denylistFull e = true) : trimBack e = none := by
  unfold trimBack
  cases hd : e.getLast? with
  | none => rfl
  | some c => simp [not_trimWs h (List.mem_of_getLast? hd)]

theorem denylistFull_ne_nil {e : List Char} (h : denylistFull e = true) : e ≠ [] := by
  intro he
  subst he
  exact absurd h (by decide)

/-- the round of an entry: nothing to strip, not empty, one statement -/
theorem denylistLoop_entry (magisk : String → Bool) {fuel : ℕ} (hf : 0 < fuel) {e : List Char} (h : denylistFull e = true)
    (fields : List (List Char)) : denylistLoop magisk fuel (e :: fields) =
      if magisk (denylistRow e).statement then (denylistLoop magisk fuel fields).map ((denylistRow e).statement :: ·)
      else some [(denylistRow e).statement] := by
  rw [denylistLoop, whileLoop_break (trimFront_entry h) hf, Option.bind_some, whileLoop_break (trimBack_entry h) hf,
    Option.bind_some, if_neg (denylistFull_ne_nil h)]

theorem denylistLoop_entries (magisk : String → Bool) {fuel : ℕ} (hf : 0 < fuel) {entries : List (List Char)}
    (h : ∀ e ∈ entries, denylistFull e = true) :
    denylistLoop magisk fuel entries = some (untilFailure magisk (entries.map fun e => (denylistRow e).statement)) := by
  induction entries with
  | nil => rfl
  | cons e entries ih =>
    rw [denylistLoop_entry magisk hf (h e List.mem_cons_self), ih fun x hx => h x (List.mem_cons_of_mem _ hx),
      List.map_cons, untilFailure]
    split_ifs
    · rfl
    · rfl

theorem untilFailure_eq_self {magisk : String → Bool} {statements : List String} (h : ∀ s ∈ statements, magisk s = true) :
    untilFailure magisk statements = statements := by
  induction statements with
  | nil => rfl
  | cons s rest ih =>
    rw [untilFailure, if_pos (h s List.mem_cons_self), ih fun x hx => h x (List.mem_cons_of_mem _ hx)]

/-- the fields of the joined value are the entries, and no file name takes the place of one -/
theorem expand_denylistValue (glob : List Char → List (List Char)) {entries : List String}
    (h : ∀ e ∈ entries, denylistFull e.toList = true) :
    expand glob (fieldsAt ',' (denylistValue entries).toList) = entries.map String.toList := by
  have hfull : ∀ l ∈ entries.map String.toList, denylistFull l = true := by
    intro l hl
    obtain ⟨e, he, rfl⟩ := List.mem_map.1 hl
    exact h e he
  have hitems : ∀ l ∈ entries.map String.toList, l ≠ [] ∧ ',' ∉ l := by
    intro l hl
    refine ⟨denylistFull_ne_nil (hfull l hl), ?_⟩
    intro hmem
    exact absurd (mem_denylistFull (hfull l hl) hmem) (by decide)
  rw [toList_denylistValue, fieldsAt_intercalate hitems, expand_eq_self]
  intro l hl c hc
  exact not_globChar (hfull l hl) hc

/-- whatever the files around it and the exit statuses, the script ends and issues one statement for each entry, in order, up to
one that fails -/
theorem enrolDenylist_entries (glob : List Char → List (List Char)) (magisk : String → Bool) {fuel : ℕ} (hf : 0 < fuel)
    {entries : List String} (h : ∀ e ∈ entries, denylistFull e.toList = true) :
    enrolDenylist glob magisk fuel (denylistValue entries) =
      some (untilFailure magisk (entries.map fun e => (denylistRow e.toList).statement)) := by
  unfold enrolDenylist
  rw [expand_denylistValue glob h]
  split_ifs with hempty
  · -- only the empty list joins to the empty text
    have hnil : entries.map String.toList = [] := by
      rw [← expand_denylistValue glob h, hempty]
      rfl
    rw [List.map_eq_nil_iff.1 hnil]
    rfl
  · have hall : ∀ e ∈ entries.map String.toList, denylistFull e = true := by
      intro l hl
      obtain ⟨e, he, rfl⟩ := List.mem_map.1 hl
      exact h e he
    rw [denylistLoop_entries magisk hf hall, List.map_map]
    rfl

/-- every entry of the grammar is enrolled by one statement, in order, with the package and the process it names; the package is
the one that `doctor` looks for -/
theorem denylist_enrolled (glob : List Char → List (List Char)) (magisk : String → Bool) (entries : List String)
    (h : ∀ e ∈ entries, denylistFull e.toList = true) :
    ∃ rows : List DenylistRow,
      List.Forall₂ (fun e row => RowOf e.toList row ∧ Literal row.packageName ∧ Literal row.process ∧
        doctorPackage e = String.ofList row.packageName) entries rows ∧
      (∀ fuel, 0 < fuel → enrolDenylist glob magisk fuel (denylistValue entries) =
        some (untilFailure magisk (rows.map DenylistRow.statement))) ∧
      ((∀ row ∈ rows, magisk row.statement = true) → ∀ fuel, 0 < fuel →
        enrolDenylist glob magisk fuel (denylistValue entries) = some (rows.map DenylistRow.statement)) ∧
      ∀ package, doctorEnrolled entries package = true ↔ ∃ row ∈ rows, String.ofList row.packageName = package := by
  have hrun : ∀ fuel, 0 < fuel → enrolDenylist glob magisk fuel (denylistValue entries) =
      some (untilFailure magisk ((entries.map fun e => denylistRow e.toList).map DenylistRow.statement)) := by
    intro fuel hf
    rw [enrolDenylist_entries glob magisk hf h, List.map_map]
    rfl
  refine ⟨entries.map fun e => denylistRow e.toList, ?_, hrun, ?_, ?_⟩
  · rw [List.forall₂_map_right_iff, List.forall₂_same]
    intro e he
    exact denylistRow_spec (h e he)
  · intro hok fuel hf
    rw [hrun fuel hf, untilFailure_eq_self]
    exact List.forall_mem_map.2 hok
  · intro package
    rw [doctorEnrolled, List.any_eq_true]
    constructor
    · intro ⟨e, he, hp⟩
      refine ⟨_, List.mem_map_of_mem he, ?_⟩
      rw [← (denylistRow_spec (h e he)).2.2.2]
      simpa using hp
    · intro ⟨row, hrow, hp⟩
      obtain ⟨e, he, rfl⟩ := List.mem_map.1 hrow
      refine ⟨e, he, ?_⟩
      rw [(denylistRow_spec (h e he)).2.2.2]
      simpa using hp

/-- the default denylist: a package, and a process under the same package -/
theorem denylist_enrolled_default : ∃ rows : List DenylistRow, rows.length = 2 ∧
    ∀ fuel, 0 < fuel → enrolDenylist (fun _ => []) (fun _ => true) fuel
      (denylistValue ["com.google.android.gms", "com.google.android.gms/com.google.android.gms.unstable"]) =
        some (rows.map DenylistRow.statement) := by
  obtain ⟨rows, hrows, -, hrun, -⟩ := denylist_enrolled (fun _ => []) (fun _ => true)
    ["com.google.android.gms", "com.google.android.gms/com.google.android.gms.unstable"] (by decide)
  exact ⟨rows, hrows.length_eq.symm, hrun fun _ _ => rfl⟩

end Beetroot.Config
