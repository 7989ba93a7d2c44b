/-
Is the module cache contained in its directories, and is a hit the file that was fetched?

`_cache_path_for_url` joins the cache directory, twelve digits of the digest of the URL and the last segment of its path.
`_fetch_url` returns a file that is there and not empty; otherwise it streams the body into a temporary file of the same
directory, compares its length with the header, and renames it into place. The last segment may be `.` or `..`, and nothing
normalizes the path.

The state is what lies below `_module_cache_dir()`, with paths from there. What the transport does in a call is its `Reply`.

Results:
- `contained_iff`: the path of a URL lies strictly below its directory exactly if `urlsplit` takes the URL and the segment is
  neither;
- `shared_iff`: two URLs with different digits come to one file exactly if both segments are `..`;
- `fetchUrl_spec`: every result of a call; `sound_step`: each file is the body of a fetch with its digits and name;
- `cache_kept`: containment, sharing, and the hits of every run over URLs with other segments;
- `dot_dot_escapes`: a URL that ends with `..` comes to the cache itself, and the second call returns a directory.
-/
import Beetroot.Adb.Install
import Beetroot.Build.Prebuilt
import Beetroot.Config.Schema
import Beetroot.Instance.Modules
import Beetroot.Lib.Resolve
import Beetroot.Lib.Run

namespace Beetroot.UrlCache

open Lib Lib.Eff Lib.Fs

/-! ## Names -/

def isHexdigest (text : List Char) : Bool :=
  text.length == 64 && text.all fun c => c.isDigit || c ∈ ['a', 'b', 'c', 'd', 'e', 'f']

/-- the result of `hexdigest` -/
structure Hexdigest where
  text : List Char
  valid : isHexdigest text = true

/-- the world of a fetch; `bar` tells the totals that the progress bar draws -/
structure World where
  sha256 : ByteArray → Hexdigest
  /-- `urlsplit` raises no `ValueError` for this network location -/
  netlocOk : List Char → Bool
  bar : Option Double → Bool
  httpTimeout : String
  /-- the `st_size` of a directory -/
  dirSize : ℕ

/-- a URL that the `Module` schema takes -/
abbrev ModuleUrl := {url : String // Config.checkModuleSource (some url) none = .ok ()}

inductive Fail where
  /-- the `ModuleFetchError` of another scheme -/
  | scheme (url : String)
  /-- a `ModuleFetchError` of the download -/
  | moduleFetch (text : String)
  /-- the `ValueError` of `urlsplit` -/
  | value
  | fileExists (p : Path)
  | notFound (p : Path)
  | isADirectory (p : Path)
  | other (e : Build.Other)
deriving DecidableEq

/-- `urlsplit(url).netloc`, for a url with a scheme and a network location -/
def urlNetloc (url : String) : List Char :=
  let chars := url.toList.filter fun c => c ∉ ['\t', '\n', '\r']
  ((chars.dropWhile fun c => c ≠ '/').drop 2).takeWhile fun c => c ∉ ['/', '?', '#']

/-- `path / name`, for a name that is not absolute -/
def joinpath (p : Path) (name : String) : Path := p ++ (Adb.pathParts name).map String.ofList

section Names

variable (w : World)

/-- `hashlib.sha256(url.encode()).hexdigest()[:12]` -/
def urlPrefix (url : String) : String := String.ofList ((w.sha256 url.toUTF8).text.take 12)

/-- `_filename_from_url` -/
def filenameFromUrl (url : String) : Except Fail String :=
  if w.netlocOk (urlNetloc url) then .ok (Instance.filenameFromUrl url) else .error .value

/-- `_cache_path_for_url` -/
def cachePathForUrl (url : String) : Except Fail Path := do
  let name ← filenameFromUrl w url
  return joinpath [urlPrefix w url] name

end Names

/-! ## Fetching -/

/-- a call of `_fetch_url`: its argument, what the transport does, and the letters that `mkstemp` picks -/
structure Call where
  url : String
  reply : Build.Reply
  random : String

abbrev M := EStateM Fail (FileTree Build.Bytes)

def tmpName (random : String) : String := "tmp" ++ random ++ ".tmp"

/-- `mkdir(parents=True, exist_ok=True)` -/
def makeParents (p : Path) : M Unit := fun fs =>
  if fileInWay fs p then .error (.fileExists p) fs else .ok () (mkdirs fs p)

/-- `tempfile.mkstemp`, which takes no name that is there -/
def mkstemp (tmp : Path) : M Unit := fun fs =>
  if present fs tmp then .error (.fileExists tmp) fs else .ok () (writeFile fs tmp [])

def writeBytes (p : Path) (bytes : Build.Bytes) : M Unit := modify fun fs => writeFile fs p bytes

/-- `unlink(missing_ok=True)` -/
def unlink (p : Path) : M Unit := modify fun fs => fs.erase p

/-- `Path.replace` -/
def replace (src dst : Path) : M Unit := fun fs =>
  match lookup fs [] dst, readFile fs src with
  | some q, some bytes => if isDir fs q then .error (.isADirectory q) fs else .ok () (writeFile (fs.erase src) q bytes)
  | _, _ => .error (.notFound dst) fs

section Fetch

variable (w : World)

/-- the `except` clauses -/
def netError (url : String) : Build.NetError → Fail
  | .http code =>
    .moduleFetch ("download failed: HTTP " ++ toString code ++ " fetching " ++ url ++
      "; verify the URL is current (the upstream release may have moved)")
  | .timeout => .moduleFetch ("download timed out after " ++ w.httpTimeout ++ "s: " ++ url)
  | .url reason => .moduleFetch ("download failed: cannot reach " ++ url ++ ": " ++ reason)
  | .connection text => .other (.connection text)
  | .protocol text => .other (.protocol text)

/-- the comparison with `expected_bytes` -/
def checkLength (url : String) (header : Option (List Char)) (bytes : Build.Bytes) : Except Fail Unit :=
  match Build.expectedBytes header with
  | .ok (some n) => if (bytes.length : Int) ≠ n then .error (.moduleFetch (Build.truncatedText url bytes.length n)) else .ok ()
  | _ => .ok ()

/-- the bytes that are written, and how the writing ends -/
def download (url : String) : Build.Reply → Build.Bytes × Except Fail Unit
  | .raises e => ([], .error (netError w url e))
  | .responds r =>
    match Build.intLength r.contentLength with
    | .error e => ([], .error (.other e))
    | .ok total =>
      if !w.bar total then ([], .error (.other .bar))
      else
        match r.ending with
        | some e => (Piece.join r.reads, .error (netError w url e))
        | none => (Piece.join r.reads, checkLength url r.contentLength (Piece.join r.reads))

/-- `cache.exists() and cache.stat().st_size > 0` -/
def isCached (fs : FileTree Build.Bytes) (cache : Path) : Bool :=
  match stat fs cache with
  | none => false
  | some .dir => 0 < w.dirSize
  | some (.file bytes) => 0 < bytes.length

/-- the `try` block -/
def publish (c : Call) (tmp cache : Path) : M Unit := do
  writeBytes tmp (download w c.url c.reply).1
  raising (download w c.url c.reply).2
  replace tmp cache

/-- what `_fetch_url` does if the file is not there -/
def fetchInto (c : Call) (cache : Path) : M Path := do
  makeParents cache.dropLast
  let tmp := cache.dropLast ++ [tmpName c.random]
  mkstemp tmp
  onRaise (publish w c tmp cache) (unlink tmp)
  return cache

/-- `_fetch_url` -/
def fetchUrl (c : Call) : M Path := do
  refuse (!Config.hasHttpScheme c.url) (.scheme c.url)
  let cache ← raising (cachePathForUrl w c.url)
  let fs ← get
  if isCached w fs cache then return cache else fetchInto w c cache

end Fetch

/-! ## Containment -/

/-- the path comes to one strictly below the directory of the URL -/
def Contained (w : World) (url : String) : Prop :=
  ∃ p, cachePathForUrl w url = .ok p ∧ [urlPrefix w url] <+: normpath p ∧ normpath p ≠ [urlPrefix w url]

/-- the last segment stays in the directory -/
def PlainName (url : String) : Prop := Instance.filenameFromUrl url ≠ "." ∧ Instance.filenameFromUrl url ≠ ".."

section Contain

variable {w : World} {url : String}

theorem urlPrefix_length (w : World) (url : String) : (urlPrefix w url).toList.length = 12 := by
  obtain ⟨hlength, -⟩ := Bool.and_eq_true_iff.1 (w.sha256 url.toUTF8).valid
  rw [urlPrefix, String.toList_ofList, List.length_take, beq_iff_eq.1 hlength]
  rfl

theorem urlPrefix_ne_up (w : World) (url : String) : urlPrefix w url ≠ ".." := by
  intro h
  have hlength := urlPrefix_length w url
  rw [h] at hlength
  exact absurd hlength (by decide)

theorem filename_no_slash (url : String) : '/' ∉ (Instance.filenameFromUrl url).toList := by
  unfold Instance.filenameFromUrl
  dsimp only
  split_ifs with h
  · decide
  · rw [String.toList_ofList, List.mem_reverse]
    intro hmem
    exact absurd (List.mem_takeWhile_imp hmem) (by decide)

theorem filename_ne_empty (url : String) : Instance.filenameFromUrl url ≠ "" := by
  unfold Instance.filenameFromUrl
  dsimp only
  split_ifs with h
  · decide
  · exact h

/-- the name is one component, and a `.` none -/
theorem joinpath_filename (p : Path) (url : String) : joinpath p (Instance.filenameFromUrl url) =
    if Instance.filenameFromUrl url = "." then p else p ++ [Instance.filenameFromUrl url] := by
  have hsplit : (Instance.filenameFromUrl url).toList.splitOn '/' = [(Instance.filenameFromUrl url).toList] :=
    List.splitOn_eq_singleton (filename_no_slash url)
  have hne : (Instance.filenameFromUrl url).toList ≠ [] := by
    intro h
    exact filename_ne_empty url (String.toList_injective h)
  rw [joinpath, Adb.pathParts, hsplit]
  split_ifs with hdot
  · rw [hdot]
    simp
  · have hdot' : (Instance.filenameFromUrl url).toList ≠ ['.'] := by
      intro h
      exact hdot (String.toList_injective h)
    simp [hne, hdot']

theorem cachePathForUrl_ok (h : w.netlocOk (urlNetloc url) = true) :
    cachePathForUrl w url = .ok (joinpath [urlPrefix w url] (Instance.filenameFromUrl url)) := by
  rw [cachePathForUrl, filenameFromUrl, if_pos h]
  rfl

theorem cachePathForUrl_error (h : w.netlocOk (urlNetloc url) = false) : cachePathForUrl w url = .error .value := by
  rw [cachePathForUrl, filenameFromUrl, h, if_neg (by decide)]
  rfl

/-- a path that there is, is the one of the name -/
theorem cachePathForUrl_eq {p : Path} (h : cachePathForUrl w url = .ok p) :
    w.netlocOk (urlNetloc url) = true ∧ p = joinpath [urlPrefix w url] (Instance.filenameFromUrl url) := by
  cases hok : w.netlocOk (urlNetloc url) with
  | false =>
    rw [cachePathForUrl_error hok] at h
    cases h
  | true =>
    rw [cachePathForUrl_ok hok] at h
    exact ⟨rfl, (Except.ok.inj h).symm⟩

/-- what the path comes to, by the name -/
theorem normpath_cachePath (w : World) (url : String) : normpath (joinpath [urlPrefix w url] (Instance.filenameFromUrl url)) =
    if Instance.filenameFromUrl url = "." then [urlPrefix w url]
    else if Instance.filenameFromUrl url = ".." then []
    else [urlPrefix w url, Instance.filenameFromUrl url] := by
  rw [joinpath_filename]
  split_ifs with hdot hup
  · simp [normpath, up, urlPrefix_ne_up]
  · rw [hup]
    simp [normpath, up, urlPrefix_ne_up]
  · simp [normpath, up, urlPrefix_ne_up, hup]

theorem contained_iff (w : World) (url : String) : Contained w url ↔ w.netlocOk (urlNetloc url) = true ∧ PlainName url := by
  constructor
  · intro h
    obtain ⟨p, hp, hbelow, hne⟩ := h
    obtain ⟨hok, rfl⟩ := cachePathForUrl_eq hp
    rw [normpath_cachePath] at hbelow hne
    refine ⟨hok, ?_, ?_⟩
    · intro hdot
      exact hne (if_pos hdot)
    · intro hup
      rw [hup, if_neg (by decide), if_pos rfl] at hbelow
      exact absurd hbelow (by simp)
  · intro h
    obtain ⟨hok, hdot, hup⟩ := h
    refine ⟨_, cachePathForUrl_ok hok, ?_, ?_⟩
    · rw [normpath_cachePath, if_neg hdot, if_neg hup]
      exact ⟨[Instance.filenameFromUrl url], rfl⟩
    · rw [normpath_cachePath, if_neg hdot, if_neg hup]
      simp

theorem shared_iff {v : String} {p q : Path} (hp : cachePathForUrl w url = .ok p) (hq : cachePathForUrl w v = .ok q)
    (hne : urlPrefix w url ≠ urlPrefix w v) :
    normpath p = normpath q ↔ Instance.filenameFromUrl url = ".." ∧ Instance.filenameFromUrl v = ".." := by
  obtain ⟨-, rfl⟩ := cachePathForUrl_eq hp
  obtain ⟨-, rfl⟩ := cachePathForUrl_eq hq
  rw [normpath_cachePath, normpath_cachePath]
  split_ifs <;> simp_all

end Contain

/-! ## A call -/

/-- the path of a URL whose name is plain -/
def cacheFile (w : World) (url : String) : Path := [urlPrefix w url, Instance.filenameFromUrl url]

/-- the whole body has arrived -/
def Complete (r : Build.Response) : Prop :=
  r.ending = none ∧ ∀ n, Build.expectedBytes r.contentLength = .ok (some n) → ((Piece.join r.reads).length : Int) = n

/-- nothing is new but the directory and what is above it -/
def Grown (dir : Path) (fs t : FileTree Build.Bytes) : Prop :=
  ∀ q n, t.get? q = some n → fs.get? q = some n ∨ (q <+: dir ∧ n = .dir)

section Calls

variable {w : World} {c : Call} {fs : FileTree Build.Bytes} {dir tmp cache : Path}

theorem length_cacheFile (w : World) (url : String) : (cacheFile w url).length = 2 := rfl

theorem cacheFile_plain (h : PlainName c.url) : ".." ∉ cacheFile w c.url := by
  intro hmem
  rcases List.mem_cons.1 hmem with hfirst | hname
  · exact urlPrefix_ne_up w c.url hfirst.symm
  · exact h.2 (List.mem_singleton.1 hname).symm

theorem cachePathForUrl_plain {p : Path} (h : PlainName c.url) (hp : cachePathForUrl w c.url = .ok p) :
    p = cacheFile w c.url := by
  obtain ⟨-, rfl⟩ := cachePathForUrl_eq hp
  rw [joinpath_filename, if_neg h.1]
  rfl

theorem checkLength_ok {url : String} {header : Option (List Char)} {bytes : Build.Bytes}
    (h : checkLength url header bytes = .ok ()) (n : Int) (hn : Build.expectedBytes header = .ok (some n)) : (bytes.length : Int) = n := by
  simp only [checkLength, hn] at h
  split_ifs at h with hlength
  simpa using hlength

/-- a download that ends well has brought the whole body -/
theorem download_ok {url : String} {reply : Build.Reply} (h : (download w url reply).2 = .ok ()) :
    ∃ r, reply = .responds r ∧ Complete r ∧ (download w url reply).1 = Piece.join r.reads := by
  cases reply with
  | raises e => cases h
  | responds r =>
    refine ⟨r, rfl, ?_⟩
    simp only [download] at h ⊢
    cases hlength : Build.intLength r.contentLength with
    | error e =>
      rw [hlength] at h
      cases h
    | ok total =>
      simp only [hlength] at h ⊢
      split_ifs at h ⊢
      cases hend : r.ending with
      | some e =>
        simp only [hend] at h
        cases h
      | none =>
        simp only [hend] at h
        exact ⟨⟨hend, checkLength_ok h⟩, rfl⟩

theorem grown_refl (dir : Path) (fs : FileTree Build.Bytes) : Grown dir fs fs := fun _ _ h => .inl h

theorem grown_mkdirs (dir : Path) (fs : FileTree Build.Bytes) : Grown dir fs (mkdirs fs dir) := by
  intro q n h
  rw [get?_mkdirs] at h
  split_ifs at h with hnew
  · exact .inr ⟨hnew.1, (Option.some.inj h).symm⟩
  · exact .inl h

/-- the temporary file comes and goes -/
theorem grown_erased (dir tmp : Path) (fs : FileTree Build.Bytes) (bytes : Build.Bytes) :
    Grown dir fs ((writeFile (writeFile (mkdirs fs dir) tmp []) tmp bytes).erase tmp) := by
  intro q n h
  rw [Dict.get?_erase] at h
  split_ifs at h with hq
  rw [get?_write, if_neg hq, get?_write, if_neg hq] at h
  exact grown_mkdirs dir fs q n h

/-- the `try` block: what is written stands in the temporary file, or in the cache file -/
theorem publish_spec (w : World) (c : Call) (tmp : Path) (fs : FileTree Build.Bytes) (hplain : ".." ∉ cache) :
    (∃ e, publish w c tmp cache fs = .error e (writeFile fs tmp (download w c.url c.reply).1)) ∨
    ((download w c.url c.reply).2 = .ok () ∧ publish w c tmp cache fs =
      .ok () (writeFile ((writeFile fs tmp (download w c.url c.reply).1).erase tmp) cache (download w c.url c.reply).1)) := by
  have hwrite : publish w c tmp cache fs = ((raising (download w c.url c.reply).2 : M Unit) >>= fun _ => replace tmp cache)
      (writeFile fs tmp (download w c.url c.reply).1) := rfl
  rw [hwrite]
  generalize (download w c.url c.reply).1 = bytes
  cases (download w c.url c.reply).2 with
  | error e => exact .inl ⟨e, rfl⟩
  | ok u =>
    have hreplace : ((raising (.ok u) : M Unit) >>= fun _ => replace tmp cache) (writeFile fs tmp bytes) =
        replace tmp cache (writeFile fs tmp bytes) := rfl
    have hread : readFile (writeFile fs tmp bytes) tmp = some bytes := by rw [readFile_write_self]
    rw [hreplace, replace, hread]
    cases hl : lookup (writeFile fs tmp bytes) [] cache with
    | none => exact .inl ⟨_, rfl⟩
    | some q =>
      have hq : q = cache := by rw [lookup_eq hl, foldl_up_of_plain hplain, List.nil_append]
      subst hq
      dsimp only
      split_ifs with hdir
      · exact .inl ⟨_, rfl⟩
      · exact .inr ⟨rfl, rfl⟩

/-- a call that finds nothing -/
theorem fetchInto_spec (w : World) (c : Call) (fs : FileTree Build.Bytes) (hplain : ".." ∉ cache) :
    (∃ e t, fetchInto w c cache fs = .error e t ∧ Grown cache.dropLast fs t) ∨
    ∃ r t, fetchInto w c cache fs = .ok cache (writeFile t cache (Piece.join r.reads)) ∧ c.reply = .responds r ∧ Complete r ∧
      Grown cache.dropLast fs t := by
  have hrun : fetchInto w c cache fs = (makeParents cache.dropLast >>= fun _ =>
      mkstemp (cache.dropLast ++ [tmpName c.random]) >>= fun _ =>
        onRaise (publish w c (cache.dropLast ++ [tmpName c.random]) cache) (unlink (cache.dropLast ++ [tmpName c.random])) >>=
          fun _ => (pure cache : M Path)) fs := rfl
  rw [hrun]
  generalize cache.dropLast = dir
  generalize dir ++ [tmpName c.random] = tmp
  by_cases hway : fileInWay fs dir = true
  · have hmake : makeParents dir fs = .error (.fileExists dir) fs := if_pos hway
    exact .inl ⟨_, fs, bind_error_iff.2 (.inl hmake), grown_refl dir fs⟩
  have hmake : makeParents dir fs = .ok () (mkdirs fs dir) := if_neg hway
  rw [bind_of_ok hmake]
  by_cases htaken : present (mkdirs fs dir) tmp = true
  · have htemp : mkstemp tmp (mkdirs fs dir) = .error (.fileExists tmp) (mkdirs fs dir) := if_pos htaken
    exact .inl ⟨_, _, bind_error_iff.2 (.inl htemp), grown_mkdirs dir fs⟩
  have htemp : mkstemp tmp (mkdirs fs dir) = .ok () (writeFile (mkdirs fs dir) tmp []) := if_neg htaken
  rw [bind_of_ok htemp]
  rcases publish_spec w c tmp (writeFile (mkdirs fs dir) tmp []) hplain with ⟨e, hpublish⟩ | ⟨hok, hpublish⟩
  · -- the handlers unlink the temporary file
    refine .inl ⟨e, _, bind_error_iff.2 (.inl (onRaise_error_iff.2 ⟨e, _, hpublish, .inr ⟨rfl, rfl⟩⟩)), ?_⟩
    exact grown_erased dir tmp fs _
  · obtain ⟨r, hreply, hcomplete, hbytes⟩ := download_ok hok
    rw [hbytes] at hpublish
    refine .inr ⟨r, _, ?_, hreply, hcomplete, grown_erased dir tmp fs (Piece.join r.reads)⟩
    rw [bind_of_ok (onRaise_ok_iff.2 hpublish)]
    rfl

/-- a call raises, hits, or fetches -/
theorem fetchUrl_spec (w : World) (c : Call) (fs : FileTree Build.Bytes) (h : PlainName c.url) :
    (∃ e t, fetchUrl w c fs = .error e t ∧ Grown [urlPrefix w c.url] fs t) ∨
    (fetchUrl w c fs = .ok (cacheFile w c.url) fs ∧ isCached w fs (cacheFile w c.url) = true) ∨
    ∃ r t, fetchUrl w c fs = .ok (cacheFile w c.url) (writeFile t (cacheFile w c.url) (Piece.join r.reads)) ∧
      isCached w fs (cacheFile w c.url) = false ∧ c.reply = .responds r ∧ Complete r ∧ Grown [urlPrefix w c.url] fs t := by
  by_cases hscheme : Config.hasHttpScheme c.url = true
  · cases hpath : cachePathForUrl w c.url with
    | error e =>
      have hrun : fetchUrl w c fs = .error e fs := by
        simp only [fetchUrl, hscheme, Bool.not_true]
        rw [bind_refuse rfl, hpath]
        rfl
      exact .inl ⟨e, fs, hrun, grown_refl _ fs⟩
    | ok p =>
      obtain rfl := cachePathForUrl_plain h hpath
      have hrun : fetchUrl w c fs = (if isCached w fs (cacheFile w c.url) then (pure (cacheFile w c.url) : M Path)
          else fetchInto w c (cacheFile w c.url)) fs := by
        simp only [fetchUrl, hscheme, Bool.not_true]
        rw [bind_refuse rfl, hpath]
        rfl
      rw [hrun]
      cases hcached : isCached w fs (cacheFile w c.url) with
      | true => exact .inr (.inl ⟨rfl, rfl⟩)
      | false =>
        rcases fetchInto_spec w c fs (cacheFile_plain h) with ⟨e, t, hfetch, hgrown⟩ | ⟨r, t, hfetch, hreply, hcomplete, hgrown⟩
        · exact .inl ⟨e, t, hfetch, hgrown⟩
        · exact .inr (.inr ⟨r, t, hfetch, rfl, hreply, hcomplete, hgrown⟩)
  · have hrun : fetchUrl w c fs = .error (.scheme c.url) fs := by
      simp only [fetchUrl, hscheme, Bool.not_false]
      rfl
    exact .inl ⟨_, fs, hrun, grown_refl _ fs⟩

end Calls

/-! ## Runs -/

/-- a call that was made, and the files that it found -/
structure Event where
  fs : FileTree Build.Bytes
  call : Call

structure Cache where
  fs : FileTree Build.Bytes
  past : List Event

/-- no call yet, and no files -/
def Cache.init : Cache := ⟨∅, []⟩

def step (w : World) (s : Cache) (c : Call) : Cache := ⟨final (fetchUrl w c s.fs), s.past ++ [⟨s.fs, c⟩]⟩

/-- the call did not find its file, and returned after the whole body had arrived -/
def Delivers (w : World) (e : Event) (bytes : Build.Bytes) : Prop :=
  ∃ p t r, fetchUrl w e.call e.fs = .ok p t ∧ isCached w e.fs p = false ∧ e.call.reply = .responds r ∧ Complete r ∧
    bytes = Piece.join r.reads

/-- what the call returns is a regular file with the body of a successful fetch, its own or an earlier one, of a URL with the same
digits and the same name -/
def HitSound (w : World) (s : Cache) (c : Call) : Prop :=
  ∀ p t, fetchUrl w c s.fs = .ok p t → ∃ bytes, stat t p = some (.file bytes) ∧ ∃ e ∈ s.past ++ [⟨s.fs, c⟩], Delivers w e bytes ∧
    urlPrefix w e.call.url = urlPrefix w c.url ∧ Instance.filenameFromUrl e.call.url = Instance.filenameFromUrl c.url

/-- each file is the body of a past fetch with its digits and its name, and the rest are the directories above -/
def Sound (w : World) (past : List Event) (fs : FileTree Build.Bytes) : Prop :=
  ∀ q n, fs.get? q = some n → (q.length ≤ 1 ∧ n = .dir) ∨
    ∃ e ∈ past, ∃ bytes, Delivers w e bytes ∧ q = cacheFile w e.call.url ∧ n = .file bytes

section Runs

variable {w : World} {past past' : List Event} {fs t : FileTree Build.Bytes} {c : Call}

theorem Sound.mono (h : Sound w past fs) (hsub : ∀ e ∈ past, e ∈ past') : Sound w past' fs := by
  intro q n hn
  rcases h q n hn with hdir | ⟨e, he, hfile⟩
  · exact .inl hdir
  · exact .inr ⟨e, hsub e he, hfile⟩

theorem Sound.grown {x : String} (h : Sound w past fs) (hgrown : Grown [x] fs t) : Sound w past t := by
  intro q n hn
  rcases hgrown q n hn with hold | ⟨hq, rfl⟩
  · exact h q n hold
  · exact .inl ⟨hq.length_le, rfl⟩

/-- a file that is there is found: the directories above it are no files -/
theorem Sound.stat_file {u : String} {bytes : Build.Bytes} (h : Sound w past fs) (hplain : ".." ∉ cacheFile w u)
    (hfile : fs.get? (cacheFile w u) = some (.file bytes)) : stat fs (cacheFile w u) = some (.file bytes) := by
  refine stat_of_file hplain ?_ (by simp [readFile, hfile])
  intro l hl hne
  have hpresent : present fs l = true := present_iff.2 ⟨cacheFile w u, .file bytes, hl, hfile⟩
  have hshort : l.length < 2 := by
    refine lt_of_le_of_ne hl.length_le fun hlength => hne ?_
    exact hl.eq_of_length hlength
  have hnot : readFile fs l = none := by
    unfold readFile
    cases hn : fs.get? l with
    | none => rfl
    | some n =>
      rcases h l n hn with ⟨-, rfl⟩ | ⟨e, -, b, -, hq, -⟩
      · rfl
      · rw [hq] at hshort
        rw [length_cacheFile] at hshort
        omega
  simp [isDir, isFile, hpresent, hnot]

/-- what is found at the path of a file is a file -/
theorem Sound.file_of_stat {u : String} {n : Node Build.Bytes} (h : Sound w past fs) (hplain : ".." ∉ cacheFile w u)
    (hn : stat fs (cacheFile w u) = some n) : ∃ bytes, n = .file bytes ∧ fs.get? (cacheFile w u) = some (.file bytes) := by
  rcases stat_of_plain hplain hn with ⟨bytes, hread, rfl⟩ | ⟨hdir, rfl⟩
  · refine ⟨bytes, rfl, ?_⟩
    unfold readFile at hread
    split at hread
    · rename_i body hbody
      rw [hbody, Option.some.inj hread]
    · cases hread
  · -- an entry at the path or below it is a file at the path
    obtain ⟨hpresent, hfile⟩ := Bool.and_eq_true_iff.1 hdir
    obtain ⟨q, m, hq, hm⟩ := present_iff.1 hpresent
    rcases h q m hm with ⟨hlength, -⟩ | ⟨e, -, b, -, hat, rfl⟩
    · have htwo : 2 ≤ q.length := hq.length_le
      omega
    · have heq : cacheFile w u = q := hq.eq_of_length (by rw [hat, length_cacheFile, length_cacheFile])
      rw [isFile, heq, readFile, hm] at hfile
      exact absurd hfile (by simp)

/-- a call over a plain name keeps the files sound, and returns a sound one -/
theorem sound_step {s : Cache} (hname : PlainName c.url) (h : Sound w s.past s.fs) :
    Sound w (step w s c).past (step w s c).fs ∧ HitSound w s c := by
  have hkept : Sound w (s.past ++ [⟨s.fs, c⟩]) s.fs := h.mono fun e he => List.mem_append_left _ he
  have hplain := cacheFile_plain (w := w) hname
  rcases fetchUrl_spec w c s.fs hname with ⟨e, t, hrun, hgrown⟩ | ⟨hrun, hhit⟩ | ⟨r, t, hrun, hmiss, hreply, hcomplete, hgrown⟩
  · rw [step, hrun]
    refine ⟨hkept.grown hgrown, fun p u hok => ?_⟩
    rw [hrun] at hok
    cases hok
  · rw [step, hrun]
    refine ⟨hkept, fun p u hok => ?_⟩
    rw [hrun] at hok
    cases hok
    cases hstat : stat s.fs (cacheFile w c.url) with
    | none =>
      rw [isCached, hstat] at hhit
      cases hhit
    | some n =>
      obtain ⟨bytes, rfl, hfile⟩ := h.file_of_stat hplain hstat
      refine ⟨bytes, rfl, ?_⟩
      rcases h _ _ hfile with ⟨-, hdir⟩ | ⟨e, he, b, hdelivers, hat, hb⟩
      · cases hdir
      · obtain ⟨hfirst, hrest⟩ := List.cons.inj hat
        cases hb
        exact ⟨e, List.mem_append_left _ he, hdelivers, hfirst.symm, (List.cons.inj hrest).1.symm⟩
  · have hdelivers : Delivers w ⟨s.fs, c⟩ (Piece.join r.reads) := ⟨_, _, r, hrun, hmiss, hreply, hcomplete, rfl⟩
    have hafter : Sound w (s.past ++ [⟨s.fs, c⟩]) (writeFile t (cacheFile w c.url) (Piece.join r.reads)) := by
      intro q n hn
      rw [get?_write] at hn
      split_ifs at hn with hq
      · exact .inr ⟨⟨s.fs, c⟩, List.mem_append_right _ List.mem_cons_self, _, hdelivers, hq, (Option.some.inj hn).symm⟩
      · exact hkept.grown hgrown q n hn
    rw [step, hrun]
    refine ⟨hafter, fun p u hok => ?_⟩
    rw [hrun] at hok
    cases hok
    refine ⟨Piece.join r.reads, ?_, ⟨s.fs, c⟩, List.mem_append_right _ List.mem_cons_self, hdelivers, rfl, rfl⟩
    exact hafter.stat_file hplain (by rw [get?_write, if_pos rfl])

theorem sound_init (w : World) : Sound w Cache.init.past Cache.init.fs := by
  intro q n h
  cases h

end Runs

/-- The path of a URL is contained exactly if `urlsplit` takes the URL and the name is plain; URLs with different digits share a
file exactly if both names are `..`; and in every run of calls over plain names, with any replies, what a call returns is sound. -/
theorem cache_kept (w : World) :
    (∀ url : ModuleUrl, Contained w url ↔ w.netlocOk (urlNetloc url) = true ∧ PlainName url) ∧
    (∀ (u v : ModuleUrl) (p q : Path), cachePathForUrl w u = .ok p → cachePathForUrl w v = .ok q → urlPrefix w u ≠ urlPrefix w v →
      (normpath p = normpath q ↔ Instance.filenameFromUrl u = ".." ∧ Instance.filenameFromUrl v = "..")) ∧
    ∀ calls : List Call, (∀ c ∈ calls, PlainName c.url) → Always (step w) (HitSound w) .init calls := by
  refine ⟨fun url => contained_iff w url, fun u v p q hp hq hne => shared_iff hp hq hne, ?_⟩
  intro calls hcalls
  exact always_of_forall (I := fun s => Sound w s.past s.fs) (fun s c hs hname => sound_step hname hs) (sound_init w) hcalls

/-! ## A name that leaves the directory -/

def lsposedText : List Char := "4fe5d5dd4c301122f18d036691f660246de6b60c86a93d424a4ac25455e6c4e0".toList

def mirrorText : List Char := "dc66b1d418130fe07effb44180aa6b73addd077baaadb8c2629af03092fbf3b3".toList

def climbingText : List Char := "67382035faa80ab2353ae9a049e4ddab869002ed71b841631d5f6bf7cc885cdb".toList

theorem lsposed_valid : isHexdigest lsposedText = true := by decide

theorem mirror_valid : isHexdigest mirrorText = true := by decide

theorem climbing_valid : isHexdigest climbingText = true := by decide

/-- the digests of three URLs -/
def sampleWorld : World where
  sha256 bytes :=
    if bytes.data = "http://example.com/lsposed.zip".toUTF8.data then ⟨lsposedText, lsposed_valid⟩
    else if bytes.data = "http://example.org/lsposed.zip".toUTF8.data then ⟨mirrorText, mirror_valid⟩
    else ⟨climbingText, climbing_valid⟩
  netlocOk _ := true
  bar _ := true
  httpTimeout := "30"
  dirSize := 4096

/-- a server that answers with two bytes -/
def fetching (url : String) : Call := ⟨url, .responds ⟨some ['2'], Piece.single (by decide) [80, 75], none⟩, "k3v9x_a1"⟩

/-- a server that does not answer -/
def failing (url : String) : Call := ⟨url, .raises .timeout, "k3v9x_a2"⟩

theorem lsposed_schema : Config.checkModuleSource (some "http://example.com/lsposed.zip") none = .ok () := by decide

theorem mirror_schema : Config.checkModuleSource (some "http://example.org/lsposed.zip") none = .ok () := by decide

theorem climbing_schema : Config.checkModuleSource (some "http://example.com/..") none = .ok () := by decide

/-- a URL whose last segment is the directory above -/
def climbing : ModuleUrl := ⟨"http://example.com/..", climbing_schema⟩

theorem cache_kept_lsposed :
    Contained sampleWorld "http://example.com/lsposed.zip" ∧
    (normpath ["4fe5d5dd4c30", "lsposed.zip"] = normpath ["dc66b1d41813", "lsposed.zip"] ↔
      Instance.filenameFromUrl "http://example.com/lsposed.zip" = ".." ∧
        Instance.filenameFromUrl "http://example.org/lsposed.zip" = "..") ∧
    Always (step sampleWorld) (HitSound sampleWorld) .init
      [failing "http://example.com/lsposed.zip", fetching "http://example.com/lsposed.zip",
        failing "http://example.com/lsposed.zip"] := by
  refine ⟨((cache_kept sampleWorld).1 ⟨_, lsposed_schema⟩).2 ⟨rfl, by decide, by decide⟩, ?_, ?_⟩
  · exact (cache_kept sampleWorld).2.1 ⟨_, lsposed_schema⟩ ⟨_, mirror_schema⟩ _ _ (by decide) (by decide) (by decide)
  · refine (cache_kept sampleWorld).2.2 _ ?_
    have hname : PlainName "http://example.com/lsposed.zip" := ⟨by decide, by decide⟩
    intro c hc
    simp only [List.mem_cons, List.not_mem_nil, or_false] at hc
    rcases hc with rfl | rfl | rfl <;> exact hname

/-- The path comes to the cache directory itself. The first call fetches nothing, but makes the directory of the URL on its way; the
second call finds the cache directory, and returns it. -/
theorem dot_dot_escapes : ¬ Contained sampleWorld climbing ∧
    ¬ Always (step sampleWorld) (HitSound sampleWorld) .init [failing climbing, failing climbing] := by
  constructor
  · intro h
    exact ((contained_iff _ _).1 h).2.2 (by decide)
  · intro h
    obtain ⟨bytes, hstat, -⟩ := h.2.1 ["67382035faa8", ".."] _ rfl
    cases hstat

end Beetroot.UrlCache
