/-
Is the text that `base_identity` hashes a fingerprint of its inputs?

`base_identity` and `vm_cache_key.compute_cache_key` hash each file once and memoize the digest by path, size and time; they sort
the files by base name and digest, and feed names and digests to an outer SHA-256, each with a NUL behind it. `base_identity` goes
on with the geometry and the accelerator.

The memo holds what the process has hashed (`Hashed`). A file whose bytes changed under the same size and time keeps its old digest
(`remembered`, `input_stale`).

Results:
- `baseIdentityInput_ok_iff`, `cacheKeyInput_ok_iff`: when a call returns, and what is fed: the text of the sorted pairs;
- `text_injective`: that text determines pairs, geometry and accelerator, for names without NUL;
- `input_exact`: two inputs feed the same bytes exactly if these are equal, with the digests that the memo has for the files, and
  the part before the geometry is what the other implementation feeds;
- `Hashed.remembered_eq`: the memo has the digest of the content if no file was hashed with other bytes under the same stamp.
-/
import Beetroot.Lib.Eff
import Beetroot.Lib.Search
import Beetroot.Lib.Str
import Beetroot.Vm.Backend
import Mathlib.Data.Multiset.Basic

namespace Beetroot.Vm.Fingerprint

open Lib Lib.Fs Lib.Eff Backend

/-! ## Files and their digests -/

/-- a hexadecimal digest -/
@[ext]
structure Hex where
  text : String
  hex : text.toList.all (fun c => c.isDigit || c.isLower) = true
deriving DecidableEq

structure File where
  bytes : ByteArray
  mtimeNs : Int

abbrev Files := Path → Option File

/-- `(str(path), st.st_size, st.st_mtime_ns)` -/
def stamp (p : Path) (f : File) : Path × ℕ × Int := (p, f.bytes.size, f.mtimeNs)

/-- `_HASH_CACHE` -/
abbrev HashCache := Dict (Path × ℕ × Int) Hex

inductive Fail where
  | fileNotFound (p : Path)
  /-- `compute_cache_key needs at least one input path` -/
  | noInput
  /-- a base name with the surrogates that stand for bytes that are no UTF-8 -/
  | unicodeEncode (name : String)
  /-- `Exceeds the limit (4300 digits) for integer string conversion` -/
  | tooManyDigits (n : Int)

abbrev H := EStateM Fail HashCache

/-- the SHA-256 of a file, and the names that are not UTF-8 -/
structure Env where
  sha256 : ByteArray → Hex
  escaped : String → Bool

section Programs

variable (env : Env) (files : Files)

/-- `_hash_file`, `hash_file` -/
def hashFile (p : Path) : H Hex := do
  match files p with
  | none => throw (.fileNotFound p)
  | some f =>
    match (← get).get? (stamp p f) with
    | some cached => return cached
    | none =>
      modify fun cache => cache.set (stamp p f) (env.sha256 f.bytes)
      return env.sha256 f.bytes

/-- the dict comprehension over the paths -/
def digestsFrom (digests : Dict Path Hex) : List Path → H (Dict Path Hex)
  | [] => return digests
  | p :: ps => do
    let digest ← hashFile env files p
    digestsFrom (digests.set p digest) ps

/-- the key that the files are sorted by -/
def sortKey (e : Path × Hex) : String × String := (fileName e.1, e.2.text)

def keyLe (a b : String × String) : Prop := a.1 < b.1 ∨ (a.1 = b.1 ∧ a.2 ≤ b.2)

instance : DecidableRel keyLe := fun a b => inferInstanceAs (Decidable (a.1 < b.1 ∨ (a.1 = b.1 ∧ a.2 ≤ b.2)))

def sortedDigests (digests : Dict Path Hex) : List (Path × Hex) :=
  digests.entries.insertionSort fun e e' => keyLe (sortKey e) (sortKey e')

/-- `b"\0"` -/
def nul : ByteArray := "\x00".toUTF8

/-- what a hash object is fed by its updates -/
def feed (parts : List ByteArray) : ByteArray := parts.foldl (fun fed part => fed ++ part) ByteArray.empty

/-- `name.encode()` -/
def encode (name : String) : H ByteArray := do
  refuse (env.escaped name) (.unicodeEncode name)
  return name.toUTF8

/-- `str(n).encode()` -/
def encodeInt (n : Int) : H ByteArray :=
  match Str.ofInt n with
  | some text => return text.toUTF8
  | none => throw (.tooManyDigits n)

/-- the updates for the files -/
def fileUpdates : List (Path × Hex) → H (List ByteArray)
  | [] => return []
  | e :: es => do
    let name ← encode env (fileName e.1)
    let rest ← fileUpdates es
    return name :: nul :: e.2.text.toUTF8 :: nul :: rest

def accelText : ResolvedAccel → String
  | .kvm => "kvm"
  | .tcg => "tcg"

/-- the updates for the geometry and the accelerator -/
def geometryUpdates (smp memoryMib : Int) (accel : ResolvedAccel) : H (List ByteArray) := do
  let cpus ← encodeInt smp
  let memory ← encodeInt memoryMib
  return [cpus, nul, memory, nul, (accelText accel).toUTF8, nul]

/-- the bytes that `base_identity` feeds to its outer SHA-256 -/
def baseIdentityInput (x : Base) : H ByteArray := do
  let digests ← digestsFrom env files ∅ [x.kernel, x.rootfs]
  let named ← fileUpdates env (sortedDigests digests)
  let geometry ← geometryUpdates x.smp x.memoryMib x.accel
  return feed (named ++ geometry)

/-- the first 16 digits of the outer digest -/
def digest16 (fed : ByteArray) : String := String.ofList ((env.sha256 fed).text.toList.take 16)

/-- `base_identity` -/
def baseIdentity (x : Base) : H String := do
  let fed ← baseIdentityInput env files x
  return digest16 env fed

/-- the bytes that `compute_cache_key` feeds to its outer SHA-256 -/
def cacheKeyInput (paths : List Path) : H ByteArray := do
  refuse paths.isEmpty .noInput
  let digests ← digestsFrom env files ∅ paths
  let named ← fileUpdates env (sortedDigests digests)
  return feed named

/-- `compute_cache_key` -/
def computeCacheKey (paths : List Path) (keyPrefix : String) : H String := do
  let fed ← cacheKeyInput env files paths
  return keyPrefix ++ "-" ++ digest16 env fed

end Programs

/-! ## What is fed -/

def fileFields (e : Path × Hex) : List String := [fileName e.1, e.2.text]

def geometryFields (smp memoryMib : Int) (accel : ResolvedAccel) : List String :=
  [toString smp, toString memoryMib, accelText accel]

/-- the updates for some fields, with a NUL behind each -/
def updates (fields : List String) : List ByteArray := fields.flatMap fun f => [f.toUTF8, nul]

/-- the text of some fields, with a NUL behind each -/
def textOf (fields : List String) : String := String.ofList (Search.terminated '\x00' (fields.map String.toList))

/-- the fields of an identity -/
def identityFields (id : Identity) : List String :=
  id.files.flatMap (fun e => [e.1, e.2]) ++ geometryFields id.smp id.memoryMib id.accel

section Feeds

theorem textOf_cons (f : String) (fields : List String) : textOf (f :: fields) = f ++ "\x00" ++ textOf fields := by
  apply String.toList_injective
  simp [textOf, Search.terminated]

theorem textOf_append (fields fields' : List String) : textOf (fields ++ fields') = textOf fields ++ textOf fields' := by
  apply String.toList_injective
  simp [textOf, Search.terminated]

/-- the updates concatenate to the text -/
theorem feed_updates (fields : List String) : feed (updates fields) = (textOf fields).toUTF8 := by
  have hacc : ∀ acc : String, (updates fields).foldl (fun fed part => fed ++ part) acc.toUTF8 = (acc ++ textOf fields).toUTF8 := by
    induction fields with
    | nil =>
      intro acc
      have hnil : acc ++ textOf [] = acc := by
        apply String.toList_injective
        simp [textOf, Search.terminated]
      rw [hnil]
      rfl
    | cons f fields ih =>
      intro acc
      have hstep : acc.toUTF8 ++ f.toUTF8 ++ nul = (acc ++ f ++ "\x00").toUTF8 := by
        rw [nul, String.toUTF8, String.toUTF8, String.toUTF8, String.toUTF8, String.toByteArray_append, String.toByteArray_append]
      calc (updates (f :: fields)).foldl (fun fed part => fed ++ part) acc.toUTF8
          = (updates fields).foldl (fun fed part => fed ++ part) (acc.toUTF8 ++ f.toUTF8 ++ nul) := rfl
        _ = (acc ++ f ++ "\x00" ++ textOf fields).toUTF8 := by rw [hstep, ih]
        _ = (acc ++ textOf (f :: fields)).toUTF8 := by
            rw [textOf_cons, String.append_assoc, String.append_assoc, String.append_assoc]
  have hempty := hacc ""
  rw [String.empty_append] at hempty
  exact hempty

/-- the text determines the fields -/
theorem textOf_injective {fields fields' : List String} (h : ∀ f ∈ fields, '\x00' ∉ f.toList)
    (h' : ∀ f ∈ fields', '\x00' ∉ f.toList) (heq : (textOf fields).toUTF8 = (textOf fields').toUTF8) : fields = fields' := by
  have htext : textOf fields = textOf fields' := String.toByteArray_inj.1 heq
  have hlists := Search.terminated_inj (by simpa using h) (by simpa using h') (String.ofList_injective htext)
  exact List.map_injective_iff.2 (fun a b hab => String.toList_injective hab) hlists

/-! ### The order of the files -/

instance : Std.Total keyLe where
  total a b := by
    unfold keyLe
    rcases lt_trichotomy a.1 b.1 with h | h | h
    · exact .inl (.inl h)
    · rcases le_total a.2 b.2 with h' | h'
      · exact .inl (.inr ⟨h, h'⟩)
      · exact .inr (.inr ⟨h.symm, h'⟩)
    · exact .inr (.inl h)

instance : IsTrans (String × String) keyLe where
  trans a b c hab hbc := by
    unfold keyLe at *
    rcases hab with hab | ⟨hab, hab'⟩
    · rcases hbc with hbc | ⟨hbc, -⟩
      · exact .inl (hab.trans hbc)
      · exact .inl (hbc ▸ hab)
    · rcases hbc with hbc | ⟨hbc, hbc'⟩
      · exact .inl (hab ▸ hbc)
      · exact .inr ⟨hab.trans hbc, hab'.trans hbc'⟩

instance : Std.Antisymm keyLe where
  antisymm a b hab hba := by
    unfold keyLe at *
    rcases hab with hab | ⟨hab, hab'⟩
    · rcases hba with hba | ⟨hba, -⟩
      · exact absurd (hab.trans hba) (lt_irrefl _)
      · exact absurd (hba ▸ hab) (lt_irrefl _)
    · rcases hba with hba | ⟨-, hba'⟩
      · exact absurd (hab ▸ hba) (lt_irrefl _)
      · exact Prod.ext hab (le_antisymm hab' hba')

/-- sorting forgets the order, and nothing else -/
theorem sort_eq_iff {l l' : List (String × String)} : l.insertionSort keyLe = l'.insertionSort keyLe ↔ l.Perm l' := by
  constructor
  · intro h
    exact (List.perm_insertionSort keyLe l).symm.trans (h ▸ List.perm_insertionSort keyLe l')
  · intro h
    apply List.Perm.eq_of_pairwise' (List.pairwise_insertionSort keyLe l) (List.pairwise_insertionSort keyLe l')
    exact ((List.perm_insertionSort keyLe l).trans h).trans (List.perm_insertionSort keyLe l').symm

theorem sortedDigests_keys (digests : Dict Path Hex) :
    (sortedDigests digests).map sortKey = (digests.entries.map sortKey).insertionSort keyLe :=
  List.map_insertionSort (fun e e' => keyLe (sortKey e) (sortKey e')) keyLe sortKey digests.entries fun _ _ _ _ => Iff.rfl

end Feeds

/-! ## When the calls return -/

section Updates

variable {env : Env} {cache rest : HashCache} {part : ByteArray} {parts : List ByteArray}

theorem updates_append (fs gs : List String) : updates fs ++ updates gs = updates (fs ++ gs) := by
  rw [updates, updates, updates, List.flatMap_append]

theorem encode_ok_iff {name : String} :
    encode env name cache = .ok part rest ↔ env.escaped name = false ∧ part = name.toUTF8 ∧ rest = cache := by
  unfold encode
  rw [bind_ok_iff]
  constructor
  · intro h
    obtain ⟨u, t, hrefuse, hpure⟩ := h
    obtain ⟨hescaped, rfl⟩ := refuse_ok_iff.1 hrefuse
    exact ⟨hescaped, pure_ok_iff.1 hpure⟩
  · intro h
    exact ⟨(), cache, refuse_ok_iff.2 ⟨h.1, rfl⟩, pure_ok_iff.2 h.2⟩

theorem encodeInt_ok_iff {n : Int} :
    encodeInt n cache = .ok part rest ↔ Str.Printable n ∧ part = (toString n).toUTF8 ∧ rest = cache := by
  unfold encodeInt Str.ofInt
  by_cases h : Str.Printable n
  · rw [if_pos h]
    exact pure_ok_iff.trans ⟨fun hpure => ⟨h, hpure⟩, fun hpure => hpure.2⟩
  · rw [if_neg h]
    exact ⟨fun hthrow => (nomatch hthrow), fun hprintable => absurd hprintable.1 h⟩

theorem fileUpdates_ok_iff {es : List (Path × Hex)} : fileUpdates env es cache = .ok parts rest ↔
    (∀ e ∈ es, env.escaped (fileName e.1) = false) ∧ parts = updates (es.flatMap fileFields) ∧ rest = cache := by
  induction es generalizing parts cache rest with
  | nil => exact pure_ok_iff.trans (by simp [updates])
  | cons e es ih =>
    rw [List.forall_mem_cons]
    constructor
    · intro h
      obtain ⟨name, s, hname, hmore⟩ := bind_ok_iff.1 h
      obtain ⟨hescaped, rfl, rfl⟩ := encode_ok_iff.1 hname
      obtain ⟨others, t, hothers, hpure⟩ := bind_ok_iff.1 hmore
      obtain ⟨hall, rfl, rfl⟩ := ih.1 hothers
      obtain ⟨rfl, rfl⟩ := pure_ok_iff.1 hpure
      exact ⟨⟨hescaped, hall⟩, rfl, rfl⟩
    · rintro ⟨⟨hescaped, hall⟩, rfl, rfl⟩
      exact bind_ok_iff.2 ⟨_, rest, encode_ok_iff.2 ⟨hescaped, rfl, rfl⟩,
        bind_ok_iff.2 ⟨_, rest, ih.2 ⟨hall, rfl, rfl⟩, rfl⟩⟩

theorem geometryUpdates_ok_iff {smp memoryMib : Int} {accel : ResolvedAccel} :
    geometryUpdates smp memoryMib accel cache = .ok parts rest ↔ Str.Printable smp ∧ Str.Printable memoryMib ∧
      parts = updates (geometryFields smp memoryMib accel) ∧ rest = cache := by
  unfold geometryUpdates
  constructor
  · intro h
    obtain ⟨cpus, s, hcpus, hmore⟩ := bind_ok_iff.1 h
    obtain ⟨hsmp, rfl, rfl⟩ := encodeInt_ok_iff.1 hcpus
    obtain ⟨memory, t, hmemory, hpure⟩ := bind_ok_iff.1 hmore
    obtain ⟨hmib, rfl, rfl⟩ := encodeInt_ok_iff.1 hmemory
    exact ⟨hsmp, hmib, pure_ok_iff.1 hpure⟩
  · rintro ⟨hsmp, hmib, rfl, rfl⟩
    exact bind_ok_iff.2 ⟨_, rest, encodeInt_ok_iff.2 ⟨hsmp, rfl, rfl⟩,
      bind_ok_iff.2 ⟨_, rest, encodeInt_ok_iff.2 ⟨hmib, rfl, rfl⟩, rfl⟩⟩

end Updates

/-! ## The memo -/

section Memo

variable {env : Env} {files : Files}

/-- the digest that `hash_file` returns for a file: the one in the memo, if there is one -/
def remembered (env : Env) (cache : HashCache) (p : Path) (f : File) : Hex := (cache.get? (stamp p f)).getD (env.sha256 f.bytes)

/-- the digest of the content -/
def contentDigest (env : Env) (_ : Path) (f : File) : Hex := env.sha256 f.bytes

def known (env : Env) (files : Files) (cache : HashCache) (p : Path) : Option Hex := (files p).map (remembered env cache p)

variable (env) in
theorem hashFile_run (cache : HashCache) {p : Path} {f : File} (hf : files p = some f) :
    ∃ cache', hashFile env files p cache = .ok (remembered env cache p f) cache' ∧
      (cache' = cache ∨ cache.get? (stamp p f) = none ∧ cache' = cache.set (stamp p f) (env.sha256 f.bytes)) := by
  unfold hashFile
  rw [hf]
  cases hget : cache.get? (stamp p f) with
  | some d =>
    refine ⟨cache, ?_, .inl rfl⟩
    rw [remembered, hget]
    exact (bind_of_ok (x := get) rfl).trans (by rw [hget]; rfl)
  | none =>
    refine ⟨_, ?_, .inr ⟨rfl, rfl⟩⟩
    rw [remembered, hget]
    exact (bind_of_ok (x := get) rfl).trans (by rw [hget]; rfl)

/-- hashing a file changes the digest of no file -/
theorem hashFile_known {cache : HashCache} {p : Path} {d : Hex} (h : known env files cache p = some d) :
    ∃ cache', hashFile env files p cache = .ok d cache' ∧ ∀ q, known env files cache' q = known env files cache q := by
  obtain ⟨f, hf, rfl⟩ := Option.map_eq_some_iff.1 h
  obtain ⟨cache', hrun, rfl | ⟨hnone, rfl⟩⟩ := hashFile_run env cache hf
  · exact ⟨cache', hrun, fun q => rfl⟩
  · refine ⟨_, hrun, fun q => ?_⟩
    unfold known
    cases hq : files q with
    | none => rfl
    | some g =>
      rw [Option.map_some, Option.map_some, Option.some.injEq, remembered, remembered, Dict.get?_set]
      split_ifs with hstamp
      · -- the same path, so the same file
        have hpath : q = p := congrArg Prod.fst hstamp
        subst hpath
        rw [hf] at hq
        cases hq
        rw [hnone]
        rfl
      · rfl

/-- the dict has the digest of each path -/
theorem digestsFrom_run (ps : List Path) (cache : HashCache) (hps : ∀ p ∈ ps, (known env files cache p).isSome)
    (digests : Dict Path Hex) : ∃ digests' cache', digestsFrom env files digests ps cache = .ok digests' cache' ∧
      ∀ q, digests'.get? q = if q ∈ ps then known env files cache q else digests.get? q := by
  induction ps generalizing digests cache with
  | nil => exact ⟨digests, cache, rfl, by simp⟩
  | cons p ps ih =>
    obtain ⟨d, hd⟩ := Option.isSome_iff_exists.1 (hps p List.mem_cons_self)
    obtain ⟨cache', hhash, hsame⟩ := hashFile_known hd
    have hps' : ∀ q ∈ ps, (known env files cache' q).isSome := by
      intro q hq
      rw [hsame]
      exact hps q (List.mem_cons_of_mem _ hq)
    obtain ⟨digests', cache'', hrest, hget⟩ := ih cache' hps' (digests.set p d)
    refine ⟨digests', cache'', ?_, fun q => ?_⟩
    · calc digestsFrom env files digests (p :: ps) cache
          = digestsFrom env files (digests.set p d) ps cache' := bind_of_ok hhash
        _ = .ok digests' cache'' := hrest
    · rw [hget, hsame, Dict.get?_set]
      by_cases hq : q = p
      · subst hq
        by_cases hmem : q ∈ ps <;> simp [hmem, hd]
      · by_cases hmem : q ∈ ps <;> simp [hmem, hq]

/-- the memo of a process that has hashed some files, the last one first -/
inductive Hashed (env : Env) : List (Path × File) → HashCache → Prop where
  | start : Hashed env [] ∅
  | hash {seen : List (Path × File)} {cache cache' : HashCache} {files : Files} {p : Path} {f : File} {d : Hex}
      (before : Hashed env seen cache) (at_path : files p = some f) (run : hashFile env files p cache = .ok d cache') :
      Hashed env ((p, f) :: seen) cache'

/-- an entry has the stamp and the digest of a file that was hashed -/
theorem Hashed.entry {seen : List (Path × File)} {cache : HashCache} (h : Hashed env seen cache) {key : Path × ℕ × Int} {d : Hex}
    (hget : cache.get? key = some d) : ∃ e ∈ seen, key = stamp e.1 e.2 ∧ d = env.sha256 e.2.bytes := by
  induction h generalizing d with
  | start => cases hget
  | hash _ hf hrun ih =>
    obtain ⟨cache', hrun', hcache⟩ := hashFile_run env _ hf
    rw [hrun] at hrun'
    cases hrun'
    rcases hcache with rfl | ⟨-, rfl⟩
    · obtain ⟨e, he, hentry⟩ := ih hget
      exact ⟨e, List.mem_cons_of_mem _ he, hentry⟩
    · rw [Dict.get?_set] at hget
      split_ifs at hget with hkey
      · exact ⟨_, List.mem_cons_self, hkey, (Option.some.inj hget).symm⟩
      · obtain ⟨e, he, hentry⟩ := ih hget
        exact ⟨e, List.mem_cons_of_mem _ he, hentry⟩

/-- the digest of the content, if the process hashed no other bytes under the same stamp -/
theorem Hashed.remembered_eq {seen : List (Path × File)} {cache : HashCache} (h : Hashed env seen cache) {p : Path} {f : File}
    (hsame : ∀ e ∈ seen, stamp e.1 e.2 = stamp p f → e.2.bytes = f.bytes) : remembered env cache p f = contentDigest env p f := by
  unfold remembered contentDigest
  cases hget : cache.get? (stamp p f) with
  | none => rfl
  | some d =>
    obtain ⟨e, he, hstamp, rfl⟩ := h.entry hget
    rw [Option.getD_some, hsame e he hstamp.symm]

/-- what a program does to the memo: it hashes some of the files -/
def Hashes (env : Env) (files : Files) (cache cache' : HashCache) : Prop :=
  ∀ seen, Hashed env seen cache → ∃ now, (∀ e ∈ now, files e.1 = some e.2) ∧ Hashed env (now ++ seen) cache'

theorem hashes_refl (cache : HashCache) : Hashes env files cache cache :=
  fun _ h => ⟨[], fun _ he => absurd he List.not_mem_nil, h⟩

theorem hashes_trans (c₁ c₂ c₃ : HashCache) (h₁ : Hashes env files c₁ c₂) (h₂ : Hashes env files c₂ c₃) : Hashes env files c₁ c₃ := by
  intro seen h
  obtain ⟨first, hfirst, h⟩ := h₁ seen h
  obtain ⟨second, hsecond, h⟩ := h₂ _ h
  refine ⟨second ++ first, fun e he => ?_, by rwa [List.append_assoc]⟩
  rcases List.mem_append.1 he with he | he
  · exact hsecond e he
  · exact hfirst e he

theorem hashFile_hashes (p : Path) : Steps (Hashes env files) (hashFile env files p) := by
  intro cache seen h
  cases hf : files p with
  | none =>
    have hrun : hashFile env files p cache = .error (.fileNotFound p) cache := by
      unfold hashFile
      rw [hf]
      rfl
    rw [hrun]
    exact hashes_refl cache seen h
  | some f =>
    obtain ⟨cache', hrun, -⟩ := hashFile_run env cache hf
    rw [hrun]
    exact ⟨[(p, f)], by simpa using hf, .hash h hf hrun⟩

theorem digestsFrom_hashes (ps : List Path) (digests : Dict Path Hex) :
    Steps (Hashes env files) (digestsFrom env files digests ps) := by
  induction ps generalizing digests with
  | nil => exact steps_pure hashes_refl digests
  | cons p ps ih => exact steps_bind hashes_trans (hashFile_hashes p) fun d => ih (digests.set p d)

theorem encodeInt_hashes (n : Int) : Steps (Hashes env files) (encodeInt n) := by
  unfold encodeInt
  split
  · exact steps_pure hashes_refl _
  · exact steps_throw hashes_refl _

theorem fileUpdates_hashes (es : List (Path × Hex)) : Steps (Hashes env files) (fileUpdates env es) := by
  induction es with
  | nil => exact steps_pure hashes_refl _
  | cons e es ih =>
    refine steps_bind hashes_trans ?_ fun name => steps_bind hashes_trans ih fun others => steps_pure hashes_refl _
    exact steps_bind hashes_trans (steps_refuse hashes_refl _ _) fun _ => steps_pure hashes_refl _

/-- however the call ends, the process has hashed some of the files -/
theorem baseIdentityInput_hashes (x : Base) : Steps (Hashes env files) (baseIdentityInput env files x) := by
  refine steps_bind hashes_trans (digestsFrom_hashes _ _) fun digests => ?_
  refine steps_bind hashes_trans (fileUpdates_hashes _) fun named => ?_
  refine steps_bind hashes_trans ?_ fun geometry => steps_pure hashes_refl _
  exact steps_bind hashes_trans (encodeInt_hashes _) fun cpus =>
    steps_bind hashes_trans (encodeInt_hashes _) fun memory => steps_pure hashes_refl _

end Memo

/-! ## What the two implementations feed -/

/-- the pairs of two paths, sorted -/
theorem sorted_pairs {known : Path → Option Hex} {kernel rootfs : Path} {k r : Hex} (hne : kernel ≠ rootfs)
    (hk : known kernel = some k) (hr : known rootfs = some r) {digests : Dict Path Hex} {ps : List Path}
    (hps : ∀ p, p ∈ ps ↔ p = kernel ∨ p = rootfs) (hget : ∀ q, digests.get? q = if q ∈ ps then known q else none) :
    (sortedDigests digests).map sortKey = identityFiles kernel rootfs k.text r.text := by
  let both : Dict Path Hex := Dict.ofList [(kernel, k), (rootfs, r)]
  have hentries : both.entries = [(kernel, k), (rootfs, r)] := Dict.ofList_entries _ (by simp [hne])
  have hsame : ∀ q, digests.get? q = both.get? q := by
    intro q
    have hboth : both.get? q = ((both.entries.find? fun e => e.1 = q).map Prod.snd) := rfl
    rw [hget, hboth, hentries]
    simp only [hps, List.find?_cons, List.find?_nil]
    by_cases hqk : q = kernel
    · subst hqk
      simp [hk]
    · by_cases hqr : q = rootfs
      · subst hqr
        simp [hr, hne]
      · simp [hqk, hqr, Ne.symm hqk, Ne.symm hqr]
  have hperm : (digests.entries.map sortKey).Perm [(fileName kernel, k.text), (fileName rootfs, r.text)] := by
    have h := (Dict.perm_of_get? hsame).map sortKey
    rw [hentries] at h
    exact h
  calc (sortedDigests digests).map sortKey
      = (digests.entries.map sortKey).insertionSort keyLe := sortedDigests_keys digests
    _ = [(fileName kernel, k.text), (fileName rootfs, r.text)].insertionSort keyLe := sort_eq_iff.2 hperm
    _ = identityFiles kernel rootfs k.text r.text := by
        unfold identityFiles
        rw [if_neg hne]
        rfl

/-- a kernel and a rootfs at two paths, with base names without NUL -/
structure Inputs (files : Files) where
  base : Base
  kernelFile : File
  rootfsFile : File
  kernel_at : files base.kernel = some kernelFile
  rootfs_at : files base.rootfs = some rootfsFile
  distinct : base.kernel ≠ base.rootfs
  kernel_name : '\x00' ∉ (fileName base.kernel).toList
  rootfs_name : '\x00' ∉ (fileName base.rootfs).toList

section Exact

variable {env : Env} {files files' : Files} {digest digest' : Path → File → Hex}

/-- every `.encode()` and `str()` returns -/
structure Inputs.Encodable (env : Env) (i : Inputs files) : Prop where
  kernel : env.escaped (fileName i.base.kernel) = false
  rootfs : env.escaped (fileName i.base.rootfs) = false
  smp : Str.Printable i.base.smp
  memory : Str.Printable i.base.memoryMib

/-- among the files that were hashed, those with the stamp of an input have the bytes of the input -/
def Inputs.Unaltered (i : Inputs files) (seen : List (Path × File)) : Prop :=
  ∀ e ∈ seen, (stamp e.1 e.2 = stamp i.base.kernel i.kernelFile → e.2.bytes = i.kernelFile.bytes) ∧
    (stamp e.1 e.2 = stamp i.base.rootfs i.rootfsFile → e.2.bytes = i.rootfsFile.bytes)

/-- the base names with digests -/
def Inputs.pairs (i : Inputs files) (digest : Path → File → Hex) : List (String × Hex) :=
  [(fileName i.base.kernel, digest i.base.kernel i.kernelFile), (fileName i.base.rootfs, digest i.base.rootfs i.rootfsFile)]

/-- what the digest of the overlay stands for -/
def Inputs.identity (i : Inputs files) (digest : Path → File → Hex) : Identity :=
  i.base.identity (digest i.base.kernel i.kernelFile).text (digest i.base.rootfs i.rootfsFile).text

theorem Inputs.files_eq (i : Inputs files) :
    (i.identity digest).files = ((i.pairs digest).map fun e => (e.1, e.2.text)).insertionSort keyLe := by
  unfold Inputs.identity Base.identity identityFiles
  rw [if_neg i.distinct]
  rfl

theorem Inputs.mem_files (i : Inputs files) {e : String × String} : e ∈ (i.identity digest).files ↔
    e = (fileName i.base.kernel, (digest i.base.kernel i.kernelFile).text) ∨
      e = (fileName i.base.rootfs, (digest i.base.rootfs i.rootfsFile).text) := by
  rw [i.files_eq, (List.perm_insertionSort keyLe _).mem_iff]
  simp [Inputs.pairs]

theorem Inputs.pairs_content (i : Inputs files) {seen : List (Path × File)} {cache : HashCache} (h : Hashed env seen cache)
    (hsame : i.Unaltered seen) : i.pairs (remembered env cache) = i.pairs (contentDigest env) := by
  rw [Inputs.pairs, Inputs.pairs, h.remembered_eq fun e he => (hsame e he).1, h.remembered_eq fun e he => (hsame e he).2]

variable (env) in
/-- the sorted keys of the files, from any list of the two paths -/
theorem Inputs.digests_run (i : Inputs files) {ps : List Path} (hps : ∀ p, p ∈ ps ↔ p = i.base.kernel ∨ p = i.base.rootfs)
    (cache : HashCache) : ∃ digests cache', digestsFrom env files ∅ ps cache = .ok digests cache' ∧
      (sortedDigests digests).map sortKey = (i.identity (remembered env cache)).files := by
  have hkernel : known env files cache i.base.kernel = some (remembered env cache i.base.kernel i.kernelFile) := by
    rw [known, i.kernel_at, Option.map_some]
  have hrootfs : known env files cache i.base.rootfs = some (remembered env cache i.base.rootfs i.rootfsFile) := by
    rw [known, i.rootfs_at, Option.map_some]
  have hsome : ∀ p ∈ ps, (known env files cache p).isSome := by
    intro p hp
    rcases (hps p).1 hp with rfl | rfl
    · rw [hkernel]
      rfl
    · rw [hrootfs]
      rfl
  obtain ⟨digests, cache', hrun, hget⟩ := digestsFrom_run ps cache hsome ∅
  exact ⟨digests, cache', hrun, sorted_pairs i.distinct hkernel hrootfs hps hget⟩

/-- the updates for the files, from any list of the two paths -/
theorem Inputs.named_ok_iff (i : Inputs files) {digests : Dict Path Hex} {c c' : HashCache} {parts : List ByteArray}
    (hkeys : (sortedDigests digests).map sortKey = (i.identity digest).files) :
    fileUpdates env (sortedDigests digests) c = .ok parts c' ↔
      (env.escaped (fileName i.base.kernel) = false ∧ env.escaped (fileName i.base.rootfs) = false) ∧
        parts = updates ((i.identity digest).files.flatMap fun e => [e.1, e.2]) ∧ c' = c := by
  have hnames : (∀ e ∈ sortedDigests digests, env.escaped (fileName e.1) = false) ↔
      ∀ e ∈ (i.identity digest).files, env.escaped e.1 = false := by
    rw [← hkeys, List.forall_mem_map]
    rfl
  have hfields : (sortedDigests digests).flatMap fileFields = (i.identity digest).files.flatMap fun e => [e.1, e.2] := by
    rw [← hkeys, List.flatMap_map]
    rfl
  have hboth : (∀ e ∈ (i.identity digest).files, env.escaped e.1 = false) ↔
      env.escaped (fileName i.base.kernel) = false ∧ env.escaped (fileName i.base.rootfs) = false := by
    constructor
    · intro h
      exact ⟨h _ (i.mem_files.2 (.inl rfl)), h _ (i.mem_files.2 (.inr rfl))⟩
    · intro h e he
      rcases i.mem_files.1 he with rfl | rfl
      · exact h.1
      · exact h.2
  rw [fileUpdates_ok_iff, hnames, hboth, hfields]

/-- what stands before the geometry -/
def Inputs.named (i : Inputs files) (digest : Path → File → Hex) : ByteArray :=
  (textOf ((i.identity digest).files.flatMap fun e => [e.1, e.2])).toUTF8

variable (env) in
theorem cacheKeyInput_ok_iff (i : Inputs files) {ps : List Path} (hps : ∀ p, p ∈ ps ↔ p = i.base.kernel ∨ p = i.base.rootfs)
    (cache : HashCache) : ∃ rest, ∀ fed c, cacheKeyInput env files ps cache = .ok fed c ↔
      (env.escaped (fileName i.base.kernel) = false ∧ env.escaped (fileName i.base.rootfs) = false) ∧
        fed = i.named (remembered env cache) ∧ c = rest := by
  obtain ⟨digests, rest, hrun, hkeys⟩ := i.digests_run env hps cache
  have hne : ps.isEmpty = false := by
    cases ps with
    | nil => exact absurd ((hps i.base.kernel).2 (.inl rfl)) List.not_mem_nil
    | cons p ps => rfl
  refine ⟨rest, fun fed c => ?_⟩
  unfold cacheKeyInput
  rw [bind_refuse hne, bind_of_ok hrun, bind_ok_iff]
  constructor
  · intro h
    obtain ⟨named, s, hnamed, hpure⟩ := h
    obtain ⟨hnames, rfl, rfl⟩ := (i.named_ok_iff hkeys).1 hnamed
    obtain ⟨rfl, rfl⟩ := pure_ok_iff.1 hpure
    exact ⟨hnames, feed_updates _, rfl⟩
  · rintro ⟨hnames, rfl, rfl⟩
    exact ⟨_, c, (i.named_ok_iff hkeys).2 ⟨hnames, rfl, rfl⟩, pure_ok_iff.2 ⟨(feed_updates _).symm, rfl⟩⟩

variable (env) in
theorem baseIdentityInput_ok_iff (i : Inputs files) (cache : HashCache) :
    ∃ rest, ∀ fed c, baseIdentityInput env files i.base cache = .ok fed c ↔
      i.Encodable env ∧ fed = (textOf (identityFields (i.identity (remembered env cache)))).toUTF8 ∧ c = rest := by
  have hpaths : ∀ p, p ∈ [i.base.kernel, i.base.rootfs] ↔ p = i.base.kernel ∨ p = i.base.rootfs := by simp
  obtain ⟨digests, rest, hrun, hkeys⟩ := i.digests_run env hpaths cache
  have hfed : feed (updates ((i.identity (remembered env cache)).files.flatMap fun e => [e.1, e.2]) ++
      updates (geometryFields i.base.smp i.base.memoryMib i.base.accel)) =
        (textOf (identityFields (i.identity (remembered env cache)))).toUTF8 := by
    rw [updates_append, feed_updates]
    rfl
  refine ⟨rest, fun fed c => ?_⟩
  unfold baseIdentityInput
  rw [bind_of_ok hrun, bind_ok_iff]
  constructor
  · intro h
    obtain ⟨named, s, hnamed, hmore⟩ := h
    obtain ⟨⟨hkernel, hrootfs⟩, rfl, rfl⟩ := (i.named_ok_iff hkeys).1 hnamed
    obtain ⟨geometry, t, hgeometry, hpure⟩ := bind_ok_iff.1 hmore
    obtain ⟨hsmp, hmemory, rfl, rfl⟩ := geometryUpdates_ok_iff.1 hgeometry
    obtain ⟨rfl, rfl⟩ := pure_ok_iff.1 hpure
    exact ⟨⟨hkernel, hrootfs, hsmp, hmemory⟩, hfed, rfl⟩
  · rintro ⟨hok, rfl, rfl⟩
    exact ⟨_, c, (i.named_ok_iff hkeys).2 ⟨⟨hok.kernel, hok.rootfs⟩, rfl, rfl⟩,
      bind_ok_iff.2 ⟨_, c, geometryUpdates_ok_iff.2 ⟨hok.smp, hok.memory, rfl, rfl⟩, pure_ok_iff.2 ⟨hfed.symm, rfl⟩⟩⟩

/-- no field has a NUL -/
theorem Inputs.fields_nul (i : Inputs files) : ∀ f ∈ identityFields (i.identity digest), '\x00' ∉ f.toList := by
  have hhex : ∀ d : Hex, '\x00' ∉ d.text.toList := by
    intro d hd
    exact absurd (List.all_eq_true.1 d.hex _ hd) (by decide)
  have hnumber : ∀ n : Int, '\x00' ∉ (toString n).toList := by
    intro n hn
    rcases Search.mem_toString hn with h | h
    · exact absurd h (by decide)
    · exact absurd h (by decide)
  intro f hf
  rw [identityFields, List.mem_append] at hf
  rcases hf with hf | hf
  · obtain ⟨e, he, hfe⟩ := List.mem_flatMap.1 hf
    simp only [List.mem_cons, List.not_mem_nil, or_false] at hfe
    rcases i.mem_files.1 he with rfl | rfl
    · rcases hfe with rfl | rfl
      · exact i.kernel_name
      · exact hhex _
    · rcases hfe with rfl | rfl
      · exact i.rootfs_name
      · exact hhex _
  · simp only [geometryFields, List.mem_cons, List.not_mem_nil, or_false] at hf
    rcases hf with rfl | rfl | rfl
    · exact hnumber _
    · exact hnumber _
    · cases (i.identity digest).accel <;> decide

variable (digest) in
theorem Inputs.two_files (i : Inputs files) : ∃ e e', (i.identity digest).files = [e, e'] := by
  apply List.length_eq_two.1
  rw [i.files_eq, List.length_insertionSort]
  rfl

theorem accelText_injective {a a' : ResolvedAccel} (h : accelText a = accelText a') : a = a' := by
  cases a <;> cases a' <;> first | rfl | exact absurd h (by decide)

/-- the text determines the identity -/
theorem text_injective (i : Inputs files) (i' : Inputs files')
    (h : (textOf (identityFields (i.identity digest))).toUTF8 = (textOf (identityFields (i'.identity digest'))).toUTF8) :
    i.identity digest = i'.identity digest' := by
  have hfields := textOf_injective i.fields_nul i'.fields_nul h
  obtain ⟨⟨n₁, d₁⟩, ⟨n₂, d₂⟩, hfiles⟩ := i.two_files digest
  obtain ⟨⟨n₁', d₁'⟩, ⟨n₂', d₂'⟩, hfiles'⟩ := i'.two_files digest'
  generalize i.identity digest = id at *
  generalize i'.identity digest' = id' at *
  cases id
  cases id'
  simp only at hfiles hfiles'
  subst hfiles hfiles'
  simp only [identityFields, geometryFields, List.flatMap_cons, List.flatMap_nil, List.append_nil, List.cons_append, List.nil_append,
    List.cons.injEq, and_true] at hfields
  obtain ⟨hn₁, hd₁, hn₂, hd₂, hsmp, hmemory, haccel⟩ := hfields
  rw [hn₁, hd₁, hn₂, hd₂, Search.toString_inj hsmp, Search.toString_inj hmemory, accelText_injective haccel]

/-- equal identities: the same pairs, in some order, and the same geometry and accelerator -/
theorem identity_eq_iff (i : Inputs files) (i' : Inputs files') : i.identity digest = i'.identity digest' ↔
    (i.pairs digest : Multiset (String × Hex)) = i'.pairs digest' ∧ i.base.smp = i'.base.smp ∧
      i.base.memoryMib = i'.base.memoryMib ∧ i.base.accel = i'.base.accel := by
  have hsplit : i.identity digest = i'.identity digest' ↔ (i.identity digest).files = (i'.identity digest').files ∧
      i.base.smp = i'.base.smp ∧ i.base.memoryMib = i'.base.memoryMib ∧ i.base.accel = i'.base.accel :=
    Iff.of_eq (Identity.mk.injEq ..)
  have htext : Function.Injective fun e : String × Hex => (e.1, e.2.text) := by
    intro e e' he
    have hparts := Prod.mk.inj he
    exact Prod.ext hparts.1 (Hex.ext hparts.2)
  rw [hsplit, i.files_eq, i'.files_eq, sort_eq_iff, List.map_perm_map_iff htext, Multiset.coe_eq_coe]

theorem identityText_split (i : Inputs files) : (textOf (identityFields (i.identity digest))).toUTF8 =
    i.named digest ++ feed (updates (geometryFields i.base.smp i.base.memoryMib i.base.accel)) := by
  rw [feed_updates, identityFields, textOf_append, Inputs.named, String.toUTF8, String.toByteArray_append]
  rfl

/-- Two inputs feed the same bytes to the outer hash exactly if the multisets of base names and digests, the geometry and the
accelerator are equal, and what stands before the geometry is what the other implementation feeds, if its memo has the same digests,
for the same files in any order and however often they are given. The digests are those of the contents, unless the process has hashed
other bytes under the stamp of a file. The call raises exactly if a name or a number cannot be encoded. -/
theorem input_exact (env : Env) {files files' : Files} (i : Inputs files) (i' : Inputs files') (cache cache' : HashCache) :
    ((∃ fed rest, baseIdentityInput env files i.base cache = .ok fed rest) ↔ i.Encodable env) ∧
    (∀ fed fed' rest rest', baseIdentityInput env files i.base cache = .ok fed rest →
      baseIdentityInput env files' i'.base cache' = .ok fed' rest' →
      baseIdentity env files i.base cache = .ok (digest16 env fed) rest ∧
      (fed = fed' ↔ (i.pairs (remembered env cache) : Multiset (String × Hex)) = i'.pairs (remembered env cache') ∧
        i.base.smp = i'.base.smp ∧ i.base.memoryMib = i'.base.memoryMib ∧ i.base.accel = i'.base.accel) ∧
      ∀ ps keyPrefix memo, (∀ p, p ∈ ps ↔ p = i.base.kernel ∨ p = i.base.rootfs) →
        i.pairs (remembered env memo) = i.pairs (remembered env cache) →
        ∃ part memo', cacheKeyInput env files ps memo = .ok part memo' ∧
          computeCacheKey env files ps keyPrefix memo = .ok (keyPrefix ++ "-" ++ digest16 env part) memo' ∧
          fed = part ++ feed (updates (geometryFields i.base.smp i.base.memoryMib i.base.accel))) ∧
    ∀ seen, Hashed env seen cache →
      (i.Unaltered seen → i.pairs (remembered env cache) = i.pairs (contentDigest env)) ∧
      ∃ now, (∀ e ∈ now, files e.1 = some e.2) ∧
        Hashed env (now ++ seen) (final (baseIdentityInput env files i.base cache)) := by
  obtain ⟨rest₀, hrun⟩ := baseIdentityInput_ok_iff env i cache
  obtain ⟨rest₀', hrun'⟩ := baseIdentityInput_ok_iff env i' cache'
  refine ⟨⟨?_, fun hok => ⟨_, rest₀, (hrun _ _).2 ⟨hok, rfl, rfl⟩⟩⟩, ?_, fun seen h => ⟨i.pairs_content h, ?_⟩⟩
  · rintro ⟨fed, rest, h⟩
    exact ((hrun fed rest).1 h).1
  · intro fed fed' rest rest' h h'
    obtain ⟨hok, hfed, -⟩ := (hrun fed rest).1 h
    obtain ⟨-, hfed', -⟩ := (hrun' fed' rest').1 h'
    refine ⟨bind_ok_iff.2 ⟨fed, rest, h, rfl⟩, ?_, fun ps keyPrefix memo hps hmemo => ?_⟩
    · rw [hfed, hfed', ← identity_eq_iff]
      exact ⟨text_injective i i', fun heq => by rw [heq]⟩
    · obtain ⟨memo', hpart⟩ := cacheKeyInput_ok_iff env i hps memo
      have hinput := (hpart _ _).2 ⟨⟨hok.kernel, hok.rootfs⟩, rfl, rfl⟩
      refine ⟨_, memo', hinput, bind_ok_iff.2 ⟨_, memo', hinput, rfl⟩, ?_⟩
      have hfiles : (i.identity (remembered env memo)).files = (i.identity (remembered env cache)).files := by
        rw [i.files_eq, i.files_eq, hmemo]
      rw [hfed, identityText_split, Inputs.named, Inputs.named, hfiles]
  · exact baseIdentityInput_hashes i.base cache seen h

end Exact

/-! ## A rewritten kernel -/

/-- a digest that tells some contents apart -/
def firstByte : Env where
  sha256 b := if b.size = 0 then ⟨"00", rfl⟩ else if b.get! 0 = 1 then ⟨"01", rfl⟩ else ⟨"ff", rfl⟩
  escaped _ := false

/-- a kernel with one byte and an empty rootfs, always with the same times -/
def someFiles (b : UInt8) : Files := fun p =>
  if p = ["srv", "bzImage"] then some ⟨⟨#[b]⟩, 5⟩ else if p = ["srv", "rootfs.img"] then some ⟨⟨#[]⟩, 6⟩ else none

def launch (b : UInt8) (smp : Int) : Inputs (someFiles b) where
  base := ⟨["srv", "bzImage"], ["srv", "rootfs.img"], smp, 2048, .kvm⟩
  kernelFile := ⟨⟨#[b]⟩, 5⟩
  rootfsFile := ⟨⟨#[]⟩, 6⟩
  kernel_at := rfl
  rootfs_at := rfl
  distinct := show (["srv", "bzImage"] : Path) ≠ ["srv", "rootfs.img"] by decide
  kernel_name := show '\x00' ∉ "bzImage".toList by decide
  rootfs_name := show '\x00' ∉ "rootfs.img".toList by decide

theorem not_printable_big : ¬ Str.Printable (10 ^ 4300) := by decide +kernel

/-- the same bytes are fed for two kernels of one size and time; a name that is not UTF-8 raises, and so does a number that is too
long -/
theorem input_stale :
    (∃ fed rest rest', baseIdentityInput firstByte (someFiles 1) (launch 1 4).base ∅ = .ok fed rest ∧
      baseIdentityInput firstByte (someFiles 2) (launch 2 4).base rest = .ok fed rest' ∧
      ((launch 1 4).pairs (contentDigest firstByte) : Multiset (String × Hex)) ≠ (launch 2 4).pairs (contentDigest firstByte)) ∧
    (∃ rest, baseIdentityInput ⟨firstByte.sha256, fun _ => true⟩ (someFiles 1) (launch 1 4).base ∅ =
      .error (.unicodeEncode "bzImage") rest) ∧
    ∀ fed rest, baseIdentityInput firstByte (someFiles 1) (launch 1 (10 ^ 4300)).base ∅ ≠ .ok fed rest := by
  refine ⟨⟨_, _, _, rfl, rfl, by decide⟩, ⟨_, rfl⟩, fun fed rest h => ?_⟩
  obtain ⟨rest₀, hrun⟩ := baseIdentityInput_ok_iff firstByte (launch 1 (10 ^ 4300)) ∅
  exact not_printable_big ((hrun fed rest).1 h).1.smp

end Beetroot.Vm.Fingerprint
