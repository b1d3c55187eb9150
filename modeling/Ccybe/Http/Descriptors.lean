import Ccybe.Http.Status
import Ccybe.Response.Served
import Mathlib.Data.Finset.Card

/-!
# The open descriptors

`handle_static_files` opens a file and never closes it: where `open` succeeds, one more descriptor is
open after the request.
-/

namespace Ccybe

open CSem

/-- What the file system answers to the calls for a request; the answer of `open` depends on the
descriptors that are open, and is none of them. -/
structure FileSystem where
  stat : Option (FileKind × ℕ)
  opened : Finset Fd → Option Fd
  read : ℕ → Option Bytes
  unused : ∀ fds fd, opened fds = some fd → fd ∉ fds

def FileSystem.files (fs : FileSystem) (fds : Finset Fd) : Files := ⟨fs.stat, fs.opened fds, fs.read⟩

/-- A request that comes to `handle_not_found`, with what happens to its calls. -/
structure FileRequest where
  req : HttpRequest
  path : Bytes
  raw : Bytes
  urlPath : HasString req.url.path path
  pathLen : path.length ≤ 255
  rawPath : HasString req.rawPath raw
  rawLen : raw.length ≤ 255
  fs : FileSystem
  mem : ℕ → Bool

/-- Each request that is accepted is one. -/
lemma exists_fileRequest {llhttp : Llhttp} {buf : Bytes} {ok : Int} {req : HttpRequest}
    (hparse : parseHttpRequest llhttp buf = .ok (ok, req)) (hok : ok ≠ 1) (fs : FileSystem)
    (mem : ℕ → Bool) : ∃ c : FileRequest, c.req = req ∧ c.fs = fs ∧ c.mem = mem := by
  obtain ⟨raw, text, hraw, hrawLen, -, hpath, hpathLen⟩ := parse_accepted hparse hok
  exact ⟨⟨req, pathOf text, raw, hpath, hpathLen, hraw, hrawLen, fs, mem⟩, rfl, rfl, rfl⟩

/-- The descriptors that are open after `handle_not_found`. -/
def serve (fds : Finset Fd) (c : FileRequest) : Eval (Finset Fd) := do
  let (_, left) ← handleNotFound (c.fs.files fds) initResp c.req c.mem
  pure (fds ∪ left.toFinset)

/-- Each of the requests is served, and leaves the descriptors as they were before it. -/
def KeepsDescriptors (fds : Finset Fd) (cs : List FileRequest) : Prop :=
  ∀ before c behind, cs = before ++ c :: behind →
    ∃ now, before.foldlM serve fds = .ok now ∧ serve now c = .ok now

namespace FileRequest

/-- The path of the file. -/
def file (c : FileRequest) : Bytes := filePath c.path

/-- No file is opened: there is no memory for its path, or it is no regular file, or its type is not
supported, or it cannot be opened. -/
def OpensNothing (c : FileRequest) (fds : Finset Fd) : Prop :=
  ¬ (c.mem 0 = true ∧ c.mem 1 = true) ∨ (∀ size, c.fs.stat ≠ some (.regular, size)) ∨
    (extension c.file).length ≤ 9 ∧ (mimeOf (extension c.file) = none ∨ c.fs.opened fds = none)

end FileRequest

/-! ### One request -/

/-- Behind `open` every way out of `handle_static_files` leaves the file open. -/
lemma handleStaticFiles_opened {files : Files} {r r' : HttpResponse} {cells : Block} {mimeId : MimeType}
    {fd : Fd} {fileSize : Int} {mem : ℕ → Bool} {left : List Fd}
    (hmime : getMime cells = .ok (some mimeId)) (hopen : files.opened = some fd)
    (h : handleStaticFiles files r cells fileSize mem = .ok (r', left)) : left = [fd] := by
  rw [handleStaticFiles, hmime, ok_bind] at h
  simp only [hopen] at h
  obtain ⟨size, -, h⟩ := bind_eq_ok.mp h
  obtain ⟨temp, -, h⟩ := bind_eq_ok.mp h
  obtain ⟨temp', -, h⟩ := bind_eq_ok.mp h
  cases temp' with
  | none =>
    cases h
    rfl
  | some temp' =>
    obtain ⟨body, -, h⟩ := bind_eq_ok.mp h
    obtain ⟨length, -, h⟩ := bind_eq_ok.mp h
    obtain ⟨r₁, -, h⟩ := bind_eq_ok.mp h
    obtain ⟨r₂, -, h⟩ := bind_eq_ok.mp h
    obtain ⟨r₃, -, h⟩ := bind_eq_ok.mp h
    cases h
    rfl

/-- A regular file: the descriptor of the file stays open if and only if there is one. -/
lemma handleStaticFiles_left {files : Files} {path : Bytes} (hnul : (0 : UInt8) ∉ path)
    (hlen : path.length ≤ 2147483647) (fileSize : Int) (mem : ℕ → Bool) {p : HttpResponse × List Fd}
    (h : handleStaticFiles files initResp (terminated path) fileSize mem = .ok p) :
    (extension path).length ≤ 9 ∧ (mimeOf (extension path) = none ∨ files.opened = none) ∧ p.2 = [] ∨
    (mimeOf (extension path)).isSome ∧ ∃ fd, files.opened = some fd ∧ p.2 = [fd] := by
  rcases getMime_cases (hasString_terminated hnul) hlen with ⟨hext, hmime⟩ | ⟨-, herror⟩
  · cases hid : mimeOf (extension path) with
    | none =>
      rw [handleStaticFiles, hmime, hid] at h
      cases h
      exact .inl ⟨hext, .inl rfl, rfl⟩
    | some mimeId =>
      rw [hid] at hmime
      cases hopen : files.opened with
      | none =>
        rw [handleStaticFiles, hmime, ok_bind] at h
        simp only [hopen] at h
        cases h
        exact .inl ⟨hext, .inr rfl, rfl⟩
      | some fd => exact .inr ⟨rfl, fd, rfl, handleStaticFiles_opened hmime hopen h⟩
  · rw [handleStaticFiles, herror] at h
    cases h

lemma handleStaticFiles_nothing {files : Files} {path : Bytes} (hnul : (0 : UInt8) ∉ path)
    (hlen : path.length ≤ 2147483647) (fileSize : Int) (mem : ℕ → Bool) (hext : (extension path).length ≤ 9)
    (h : mimeOf (extension path) = none ∨ files.opened = none) :
    handleStaticFiles files initResp (terminated path) fileSize mem = .ok (initResp, []) := by
  rcases getMime_cases (hasString_terminated hnul) hlen with ⟨-, hmime⟩ | ⟨hlong, -⟩
  · rw [handleStaticFiles, hmime, ok_bind]
    cases hid : mimeOf (extension path) with
    | none => rfl
    | some mimeId =>
      have hopen : files.opened = none := h.resolve_left (by simp [hid])
      simp only [hopen, pure_eq_ok]
  · omega

namespace FileRequest

variable (c : FileRequest) (fds : Finset Fd)

lemma file_spec : (0 : UInt8) ∉ c.file ∧ c.file.length ≤ 2147483647 := by
  have hlen := c.pathLen
  rw [file, length_filePath]
  exact ⟨(filePath_string c.urlPath.1).1, by omega⟩

/-- What stays open is the file of the request, where one is opened. -/
lemma left_cases {p : HttpResponse × List Fd}
    (h : handleNotFound (c.fs.files fds) initResp c.req c.mem = .ok p) :
    c.OpensNothing fds ∧ p.2 = [] ∨
      ¬ c.OpensNothing fds ∧ ∃ fd, c.fs.opened fds = some fd ∧ p.2 = [fd] := by
  by_cases hmem : c.mem 0 = true ∧ c.mem 1 = true
  · rw [handleNotFound_mem c.urlPath c.pathLen hmem.1 hmem.2] at h
    have hfiles : (c.fs.files fds).stat = c.fs.stat := rfl
    rw [hfiles] at h
    rcases hstat : c.fs.stat with - | ⟨kind, size⟩
    · have hnone : ∀ size, c.fs.stat ≠ some (.regular, size) := by simp [hstat]
      obtain ⟨r, hr, -⟩ := notFoundPage_real c.rawPath c.rawLen fun k => c.mem (2 + k)
      rw [hstat, hr] at h
      cases h
      exact .inl ⟨.inr (.inl hnone), rfl⟩
    · cases kind with
      | regular =>
        rw [hstat] at h
        obtain ⟨hnul, hint⟩ := c.file_spec
        rcases handleStaticFiles_left hnul hint _ _ h with ⟨hext, hno, hnil⟩ | ⟨hsome, fd, hopen, hfd⟩
        · exact .inl ⟨.inr (.inr ⟨hext, hno⟩), hnil⟩
        · refine .inr ⟨?_, fd, hopen, hfd⟩
          rintro (hnot | hnot | ⟨-, hnone | hnone⟩)
          · exact hnot hmem
          · exact hnot size hstat
          · simp [hnone] at hsome
          · cases hopen.symm.trans hnone
      | directory | other =>
        have hnone : ∀ size, c.fs.stat ≠ some (.regular, size) := by simp [hstat]
        rw [hstat] at h
        cases h
        exact .inl ⟨.inr (.inl hnone), rfl⟩
  · rw [handleNotFound_noMem c.urlPath c.pathLen hmem] at h
    cases h
    exact .inl ⟨.inl hmem, rfl⟩

/-- A request for which nothing is opened is answered. -/
lemma OpensNothing.answered {c : FileRequest} {fds : Finset Fd} (h : c.OpensNothing fds) :
    ∃ r, handleNotFound (c.fs.files fds) initResp c.req c.mem = .ok (r, []) := by
  by_cases hmem : c.mem 0 = true ∧ c.mem 1 = true
  · rw [handleNotFound_mem c.urlPath c.pathLen hmem.1 hmem.2]
    have hfiles : (c.fs.files fds).stat = c.fs.stat := rfl
    rw [hfiles]
    rcases hstat : c.fs.stat with - | ⟨kind, size⟩
    · obtain ⟨r, hr, -⟩ := notFoundPage_real c.rawPath c.rawLen fun k => c.mem (2 + k)
      exact ⟨r, by rw [hr]; rfl⟩
    · cases kind with
      | regular =>
        obtain ⟨hnul, hint⟩ := c.file_spec
        obtain ⟨hext, hno⟩ := (h.resolve_left (not_not.mpr hmem)).resolve_left fun hnot => hnot size hstat
        exact ⟨initResp, handleStaticFiles_nothing hnul hint _ _ hext hno⟩
      | directory | other => exact ⟨initResp, rfl⟩
  · exact ⟨_, handleNotFound_noMem c.urlPath c.pathLen hmem⟩

end FileRequest

/-- The descriptors are the same after a request if and only if nothing is opened for it. -/
lemma serve_eq_iff {fds : Finset Fd} {c : FileRequest} : serve fds c = .ok fds ↔ c.OpensNothing fds := by
  constructor
  · intro h
    obtain ⟨p, hp, h⟩ := bind_eq_ok.mp h
    rcases c.left_cases fds hp with ⟨hnothing, -⟩ | ⟨-, fd, hopen, hleft⟩
    · exact hnothing
    · have hsame : fds ∪ p.2.toFinset = fds := Except.ok.inj h
      refine absurd ?_ (c.fs.unused fds fd hopen)
      rw [← hsame, hleft]
      simp
  · intro h
    obtain ⟨r, hr⟩ := h.answered
    rw [serve, hr, ok_bind]
    simp

/-- Otherwise there is one more. -/
lemma serve_leaks {fds now : Finset Fd} {c : FileRequest} (hopens : ¬ c.OpensNothing fds)
    (h : serve fds c = .ok now) : now.card = fds.card + 1 := by
  obtain ⟨p, hp, h⟩ := bind_eq_ok.mp h
  rcases c.left_cases fds hp with ⟨hnothing, -⟩ | ⟨-, fd, hopen, hleft⟩
  · exact absurd hnothing hopens
  · have hnow : fds ∪ p.2.toFinset = now := Except.ok.inj h
    rw [← hnow, hleft, List.toFinset_cons, List.toFinset_nil, Finset.union_insert, Finset.union_empty,
      Finset.card_insert_of_notMem (c.fs.unused fds fd hopen)]

/-! ### All requests -/

lemma keepsDescriptors_cons {fds : Finset Fd} {c : FileRequest} {cs : List FileRequest} :
    KeepsDescriptors fds (c :: cs) ↔ serve fds c = .ok fds ∧ KeepsDescriptors fds cs := by
  constructor
  · intro h
    have hc : serve fds c = .ok fds := by
      obtain ⟨now, hnow, hserve⟩ := h [] c cs rfl
      cases hnow
      exact hserve
    refine ⟨hc, ?_⟩
    rintro before c' behind rfl
    obtain ⟨now, hnow, hserve⟩ := h (c :: before) c' behind rfl
    rw [List.foldlM_cons, hc, ok_bind] at hnow
    exact ⟨now, hnow, hserve⟩
  · rintro ⟨hc, h⟩ before c' behind hsplit
    cases before with
    | nil =>
      cases hsplit
      exact ⟨fds, rfl, hc⟩
    | cons b before =>
      cases hsplit
      obtain ⟨now, hnow, hserve⟩ := h before c' behind rfl
      exact ⟨now, by rw [List.foldlM_cons, hc, ok_bind, hnow], hserve⟩

/-- The descriptors are the same after each request of a sequence if and only if nothing is opened for
any of them. -/
theorem keeps_descriptors_iff (fds : Finset Fd) (cs : List FileRequest) :
    KeepsDescriptors fds cs ↔ ∀ c ∈ cs, c.OpensNothing fds := by
  induction cs with
  | nil =>
    refine iff_of_true ?_ (by simp)
    intro before c behind hsplit
    simp at hsplit
  | cons c cs ih => rw [keepsDescriptors_cons, serve_eq_iff, ih, List.forall_mem_cons]

/-! ### A file that is served -/

/-- The lowest descriptor that is not open. -/
def lowestUnused (fds : Finset Fd) : Option Fd := (List.range (fds.card + 1)).find? fun fd => fd ∉ fds

lemma lowestUnused_notMem (fds : Finset Fd) (fd : Fd) (h : lowestUnused fds = some fd) : fd ∉ fds := by
  simpa using List.find?_some h

/-- A system with one file. -/
def oneFile (bs : Bytes) : FileSystem :=
  ⟨some (.regular, bs.length), lowestUnused, fun n => some (bs.take n), lowestUnused_notMem⟩

lemma script_path : HasString scriptRequest.url.path (ascii "/a.js".toList) :=
  hasString_terminated (by decide)

lemma script_raw : HasString scriptRequest.rawPath (ascii "/a.js".toList) :=
  hasString_terminated (by decide)

lemma script_len : (ascii "/a.js".toList).length ≤ 255 := by decide

/-- The request for `/a.js`. -/
def scriptFile : FileRequest where
  req := scriptRequest
  path := ascii "/a.js".toList
  raw := ascii "/a.js".toList
  urlPath := script_path
  pathLen := script_len
  rawPath := script_raw
  rawLen := script_len
  fs := oneFile (ascii "f();".toList)
  mem := memAll

/-- The script is sent, and its file stays open: two requests leave two descriptors. -/
theorem file_stays_open :
    serve {0, 1, 2} scriptFile = .ok {0, 1, 2, 3} ∧ serve {0, 1, 2, 3} scriptFile = .ok {0, 1, 2, 3, 4} ∧
      ¬ KeepsDescriptors {0, 1, 2} [scriptFile] := by
  have hserve : ∀ fds fd, lowestUnused fds = some fd →
      serve fds scriptFile = .ok (fds ∪ {fd}) := by
    intro fds fd hopened
    obtain ⟨r, -, -, -, hstatic, -⟩ :=
      @sent_file scriptRequest (ascii "/a.js".toList) (ascii "f();".toList) .js fd
        script_path script_len (by decide) (by decide)
    have hfiles : scriptFile.fs.files fds = fileOf (ascii "f();".toList) fd := by
      rw [fileOf, ← hopened]
      rfl
    have hnot : handleNotFound (scriptFile.fs.files fds) initResp scriptFile.req scriptFile.mem =
        .ok (r, [fd]) := by
      rw [hfiles]
      exact hstatic
    rw [serve, hnot]
    rfl
  have hone : serve {0, 1, 2} scriptFile = .ok {0, 1, 2, 3} :=
    (hserve _ 3 (by decide)).trans (by decide)
  have htwo : serve {0, 1, 2, 3} scriptFile = .ok {0, 1, 2, 3, 4} :=
    (hserve _ 4 (by decide)).trans (by decide)
  refine ⟨hone, htwo, fun hkeeps => ?_⟩
  obtain ⟨now, hnow, hsame⟩ := hkeeps [] scriptFile [] rfl
  cases hnow
  rw [hone] at hsame
  exact absurd (Except.ok.inj hsame) (by decide)

end Ccybe
